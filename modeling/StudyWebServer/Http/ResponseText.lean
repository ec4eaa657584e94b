import Mathlib.Tactic.SplitIfs
import StudyWebServer.Http.ProcessWrite

/-!
The bytes of m_write_buf below m_write_idx. A text that add_response takes
stands behind the ones before it; one that it refuses was cut and written as
well, but only above m_write_idx. The head of an answer with a file follows,
with the number in its Content-Length line.
-/

namespace StudyWebServer

open ByteMemory CString MachineInt

/-- What m_write_buf holds of a response. -/
def responseText (c : HttpConn) : List UInt8 := slice c.writeBuf 0 c.writeIdx

section AddResponse
variable (formatted : List UInt8) (c : HttpConn)

/-- The bytes that vsnprintf writes with the size given to it. -/
def writtenText : List UInt8 :=
  if writeBufferSize - 1 - c.writeIdx = 0 then []
  else formatted.take (writeBufferSize - 1 - c.writeIdx - 1) ++ [0]

theorem add_response_buffer (started : c.writeIdx < writeBufferSize) :
    (addResponse formatted c).conn.writeBuf =
      storeList c.writeBuf c.writeIdx (writtenText formatted c) := by
  have start : ¬ writeBufferSize ≤ c.writeIdx := by omega
  by_cases long : writeBufferSize - 1 - c.writeIdx ≤ formatted.length
  · simp only [addResponse, if_neg start, if_pos long]
    rfl
  · simp only [addResponse, if_neg start, if_neg long]
    rfl

/-- Refused or not, the text stays above m_write_idx. -/
theorem add_response_below {key : Nat} (below : key < c.writeIdx) :
    (addResponse formatted c).conn.writeBuf key = c.writeBuf key := by
  by_cases started : c.writeIdx < writeBufferSize
  · rw [add_response_buffer formatted c started, store_list_before _ below]
  · simp only [addResponse, if_pos (Nat.le_of_not_lt started)]

theorem add_response_refuses :
    (addResponse formatted c).ret = false ↔
      writeBufferSize - 1 - c.writeIdx ≤ formatted.length := by
  by_cases full : writeBufferSize ≤ c.writeIdx
  · simp only [addResponse, if_pos full]
    exact iff_of_true trivial (by omega)
  · by_cases long : writeBufferSize - 1 - c.writeIdx ≤ formatted.length
    · simp only [addResponse, if_neg full, if_pos long]
      exact iff_of_true trivial long
    · simp only [addResponse, if_neg full, if_neg long, Bool.true_eq_false]
      exact iff_of_false id long

theorem add_response_refused (refused : (addResponse formatted c).ret = false) :
    (addResponse formatted c).conn.writeIdx = c.writeIdx := by
  unfold addResponse at refused ⊢
  dsimp only at refused ⊢
  split_ifs at refused ⊢ <;> rfl

theorem response_text_refused (refused : (addResponse formatted c).ret = false) :
    responseText (addResponse formatted c).conn = responseText c := by
  rw [responseText, add_response_refused formatted c refused]
  exact slice_congr fun key _ upper => add_response_below formatted c (by omega)

theorem response_text_accepted (taken : (addResponse formatted c).ret = true) :
    responseText (addResponse formatted c).conn = responseText c ++ formatted := by
  have short : ¬ writeBufferSize - 1 - c.writeIdx ≤ formatted.length := by
    intro long
    rw [(add_response_refuses formatted c).mpr long] at taken
    cases taken
  have written : writtenText formatted c = formatted ++ [0] := by
    rw [writtenText, if_neg (by omega), List.take_of_length_le (by omega)]
  -- The text is whole in the buffer, the NUL behind it stays above m_write_idx.
  have buffer := add_response_buffer formatted c (by omega)
  rw [written] at buffer
  rw [responseText, add_response_succeeds taken, slice_add, Nat.zero_add]
  congr 1
  · exact slice_congr fun key _ upper => add_response_below formatted c (by omega)
  · rw [buffer]
    have whole := @slice_store_list c.writeBuf c.writeIdx (formatted ++ [0])
    rw [List.length_append, slice_add] at whole
    exact (List.append_inj whole slice_length).1

end AddResponse

/-- add_response called with one text after the other, whatever it answers;
the value lists the texts that it took. -/
def addAll : List (List UInt8) → HttpConn → Outcome (List (List UInt8))
  | [], c => ⟨[], c, []⟩
  | formatted :: rest, c =>
      let call := addResponse formatted c
      let later := addAll rest call.conn
      ⟨if call.ret then formatted :: later.ret else later.ret, later.conn, call.log ++ later.log⟩

theorem add_all_nil (c : HttpConn) : (addAll [] c).conn = c := rfl

theorem add_all_cons (formatted : List UInt8) (rest : List (List UInt8)) (c : HttpConn) :
    (addAll (formatted :: rest) c).conn = (addAll rest (addResponse formatted c).conn).conn := rfl

theorem add_all_added (texts : List (List UInt8)) (c : HttpConn) :
    Added c (addAll texts c).conn ∧ WriteBufStores (addAll texts c).log := by
  induction texts generalizing c with
  | nil => exact ⟨.refl c, fun effect member => by cases member⟩
  | cons formatted rest ih =>
      have first := add_response_adds formatted c
      have later := ih (addResponse formatted c).conn
      exact ⟨first.1.trans later.1, write_buf_stores_append first.2 later.2⟩

theorem add_response_room (formatted : List UInt8) {c : HttpConn}
    (room : c.writeIdx ≤ writeBufferSize - 2) :
    (addResponse formatted c).conn.writeIdx ≤ writeBufferSize - 2 := by
  cases answer : (addResponse formatted c).ret with
  | false => rwa [add_response_refused formatted c answer]
  | true =>
      have short : ¬ writeBufferSize - 1 - c.writeIdx ≤ formatted.length := by
        rw [← add_response_refuses, answer]
        decide
      rw [add_response_succeeds answer]
      omega

theorem add_all_room (texts : List (List UInt8)) {c : HttpConn}
    (room : c.writeIdx ≤ writeBufferSize - 2) :
    (addAll texts c).conn.writeIdx ≤ writeBufferSize - 2 := by
  induction texts generalizing c with
  | nil => exact room
  | cons formatted rest ih => exact ih (add_response_room formatted room)

/-- The texts taken stand one behind the other, behind what there was. -/
theorem add_all_text (texts : List (List UInt8)) (c : HttpConn) :
    responseText (addAll texts c).conn = responseText c ++ (addAll texts c).ret.flatten := by
  induction texts generalizing c with
  | nil => exact (List.append_nil _).symm
  | cons formatted rest ih =>
      have later := ih (addResponse formatted c).conn
      have taken : (addAll (formatted :: rest) c).ret =
          if (addResponse formatted c).ret then
            formatted :: (addAll rest (addResponse formatted c).conn).ret
          else (addAll rest (addResponse formatted c).conn).ret := rfl
      rw [add_all_cons, later, taken]
      cases answer : (addResponse formatted c).ret with
      | false =>
          rw [response_text_refused formatted c answer]
          rfl
      | true =>
          rw [response_text_accepted formatted c answer, List.append_assoc]
          rfl

/-- Bytes behind the array keep their value. -/
theorem add_response_outside (formatted : List UInt8) (c : HttpConn) {key : Nat}
    (outside : writeBufferSize ≤ key) :
    (addResponse formatted c).conn.writeBuf key = c.writeBuf key := by
  by_cases started : c.writeIdx < writeBufferSize
  · rw [add_response_buffer formatted c started, store_list_after]
    unfold writtenText
    split_ifs
    · rw [List.length_nil]
      omega
    · rw [List.length_append, List.length_take, List.length_singleton]
      omega
  · simp only [addResponse, if_pos (Nat.le_of_not_lt started)]

theorem add_all_outside (texts : List (List UInt8)) (c : HttpConn) {key : Nat}
    (outside : writeBufferSize ≤ key) :
    (addAll texts c).conn.writeBuf key = c.writeBuf key := by
  induction texts generalizing c with
  | nil => rfl
  | cons formatted rest ih =>
      exact (ih (addResponse formatted c).conn).trans (add_response_outside formatted c outside)

/-- One more call is refused for want of room alone, and then nothing below
m_write_idx has changed. -/
structure AtomicCall (formatted : List UInt8) (c : HttpConn) : Prop where
  refuses : (addResponse formatted c).ret = false ↔
    writeBufferSize - 1 - c.writeIdx ≤ formatted.length
  unmoved : (addResponse formatted c).ret = false →
    (addResponse formatted c).conn.writeIdx = c.writeIdx
  unchanged : ∀ key < c.writeIdx, (addResponse formatted c).conn.writeBuf key = c.writeBuf key

theorem add_response_atomic (formatted : List UInt8) (c : HttpConn) : AtomicCall formatted c :=
  ⟨add_response_refuses formatted c, add_response_refused formatted c,
    fun _ below => add_response_below formatted c below⟩

/-- What a run of add_response calls leaves, and how the next call answers. -/
structure BoundedRun (texts : List (List UInt8)) (c : HttpConn) : Prop where
  room : (addAll texts c).conn.writeIdx ≤ writeBufferSize - 2
  stores : WriteBufStores (addAll texts c).log
  others : (addAll texts c).conn = { c with
    writeBuf := (addAll texts c).conn.writeBuf
    writeIdx := (addAll texts c).conn.writeIdx }
  outside : ∀ key, writeBufferSize ≤ key → (addAll texts c).conn.writeBuf key = c.writeBuf key
  text : responseText (addAll texts c).conn = (addAll texts c).ret.flatten
  next : ∀ formatted, AtomicCall formatted (addAll texts c).conn

theorem add_response_runs_bounded (texts : List (List UInt8)) (c : HttpConn)
    (start : c.writeIdx = 0) : BoundedRun texts c := by
  obtain ⟨added, stores⟩ := add_all_added texts c
  refine ⟨add_all_room texts (by omega), stores, added.same,
    fun key => add_all_outside texts c, ?_, fun formatted => add_response_atomic formatted _⟩
  rw [add_all_text, responseText, start, slice_zero, List.nil_append]

theorem add_response_runs_bounded_cut :
    BoundedRun [ascii "Connection: ", List.replicate 1020 120, crlf] .unused :=
  add_response_runs_bounded _ _ rfl

section FileHead

/-- Texts with room for all of them are all taken. -/
theorem add_all_takes (texts : List (List UInt8)) {c : HttpConn}
    (room : c.writeIdx + texts.flatten.length + 1 < writeBufferSize) :
    (addAll texts c).ret = texts := by
  induction texts generalizing c with
  | nil => rfl
  | cons formatted rest ih =>
      rw [List.flatten_cons, List.length_append] at room
      have taken : (addResponse formatted c).ret = true := add_response_fits (by omega)
      have moved := add_response_succeeds taken
      have later := @ih (addResponse formatted c).conn (by omega)
      simp only [addAll, taken, if_true, later]

/-- The lines that process_write puts before a file, with the number that its
Content-Length line shows. -/
def fileHeadTexts (printed : Int) (linger : Bool) : List (List UInt8) :=
  [statusLineText 200 (ascii "OK"), contentLengthText printed,
    ascii "Content-Type:" ++ ascii "text/html" ++ crlf, lingerText linger, crlf]

def fileHead (printed : Int) (linger : Bool) : List UInt8 := (fileHeadTexts printed linger).flatten

theorem set_iov_file_text (c : HttpConn) : responseText (setIovFile c) = responseText c := rfl

theorem write_file_added (c : HttpConn) :
    (processWrite .fileRequest c).conn =
      setIovFile (addAll (fileHeadTexts (toInt c.fileStat.stSize) c.linger) c).conn := by
  -- add_linger looks at the object behind three calls, which leave m_linger alone
  have top := (add_all_added [statusLineText 200 (ascii "OK"),
    contentLengthText (toInt c.fileStat.stSize),
    ascii "Content-Type:" ++ ascii "text/html" ++ crlf] c).1.same
  have linger := congrArg HttpConn.linger top
  simp only [add_all_cons, add_all_nil, statusLineText, contentLengthText] at linger
  simp only [processWrite, addHeaders, and_then_conn, addStatusLine, addContentLength,
    addContentType, addLinger, addBlankLine, fileHeadTexts, add_all_cons, add_all_nil,
    statusLineText, contentLengthText, linger]

theorem decimal_length {value : Int} (fits : FitsInt value) : (decimal value).length ≤ 11 := by
  have short : (Nat.toDigits 10 value.natAbs).length ≤ 10 := by
    rw [Nat.length_toDigits_le_iff (by decide) (by decide)]
    unfold FitsInt intMin intMax at fits
    omega
  unfold decimal
  rw [List.length_append, List.length_map]
  split_ifs
  · rw [List.length_singleton]
    omega
  · rw [List.length_nil]
    omega

theorem file_head_length {printed : Int} (linger : Bool) (fits : FitsInt printed) :
    (fileHead printed linger).length ≤ 100 := by
  have number := decimal_length fits
  have line := linger_text_length linger
  have status : (statusLineText 200 (ascii "OK")).length = 17 := by decide
  have type : (ascii "Content-Type:" ++ ascii "text/html" ++ crlf).length = 24 := by decide
  have name : (ascii "Content-Length: ").length = 16 := by decide
  have lineEnd : crlf.length = 2 := rfl
  simp only [fileHead, fileHeadTexts, contentLengthText, List.flatten_cons, List.flatten_nil,
    List.length_append, List.length_nil, status, name, lineEnd] at type ⊢
  omega

/-- The head of an answer with a file, in a buffer that was empty. -/
theorem write_file_text {c : HttpConn} (start : c.writeIdx = 0) :
    responseText (processWrite .fileRequest c).conn =
      fileHead (toInt c.fileStat.stSize) c.linger := by
  have short := file_head_length c.linger (toInt_fits c.fileStat.stSize)
  have taken := @add_all_takes (fileHeadTexts (toInt c.fileStat.stSize) c.linger) c
    (by
      rw [start, ← fileHead]
      have size : writeBufferSize = 1024 := rfl
      omega)
  have empty : responseText c = [] := by rw [responseText, start, slice_zero]
  rw [write_file_added, set_iov_file_text, add_all_text, taken, empty, List.nil_append, ← fileHead]

/-- The digits of the absolute value, as the conversion prints them. -/
def magnitude (value : Int) : List UInt8 :=
  (Nat.toDigits 10 value.natAbs).map fun digit => digit.toNat.toUInt8

theorem magnitude_read (value : Int) : digits 0 (magnitude value) = value.natAbs := by
  rw [magnitude, digits_chars 0 fun c member => Nat.isDigit_of_mem_toDigits (by decide)
    (by decide) member, Nat.ofDigitChars_ten_toDigits]

theorem decimal_negative {value : Int} (negative : value < 0) :
    decimal value = 45 :: magnitude value := by
  rw [decimal, if_pos negative]
  rfl

theorem decimal_natural {value : Int} (natural : ¬ value < 0) :
    decimal value = magnitude value := by
  rw [decimal, if_neg natural]
  rfl

/-- A minus sign is no digit, so it tells the two kinds of numerals apart. -/
theorem magnitude_no_sign (value : Int) (rest : List UInt8) : magnitude value ≠ 45 :: rest := by
  intro same
  have read := magnitude_read value
  rw [same] at read
  have zero : value.natAbs = 0 := read.symm
  rw [magnitude, zero] at same
  cases same

theorem decimal_injective {one other : Int} (same : decimal one = decimal other) : one = other := by
  by_cases negative : one < 0
  · by_cases also : other < 0
    · rw [decimal_negative negative, decimal_negative also, List.cons.injEq] at same
      have read := congrArg (digits 0) same.2
      rw [magnitude_read, magnitude_read] at read
      omega
    · rw [decimal_negative negative, decimal_natural also] at same
      exact absurd same.symm (magnitude_no_sign other _)
  · by_cases also : other < 0
    · rw [decimal_natural negative, decimal_negative also] at same
      exact absurd same (magnitude_no_sign one _)
    · rw [decimal_natural negative, decimal_natural also] at same
      have read := congrArg (digits 0) same
      rw [magnitude_read, magnitude_read] at read
      omega

/-- The head shows which number it was printed with. -/
theorem file_head_injective {one other : Int} {linger : Bool}
    (same : fileHead one linger = fileHead other linger) : one = other := by
  simp only [fileHead, fileHeadTexts, List.flatten_cons, contentLengthText, List.append_assoc,
    List.append_cancel_left_eq] at same
  exact decimal_injective (List.append_cancel_right same)

/-- `Content-Length` of the head in m_iv[0], and the length of m_iv[1] behind it. -/
structure AdvertisesBody (c : HttpConn) (printed : Int) : Prop where
  header : c.iv0 = ⟨.writeBuf, c.writeIdx⟩
  body : c.iv1.base = .file c.fileAddress
  text : slice c.writeBuf 0 c.iv0.len = fileHead printed c.linger

/-- The number that a client reads is the number of bytes that follow. -/
def AdvertisedIsSent (c : HttpConn) : Prop :=
  ∃ printed : Int, AdvertisesBody c printed ∧ printed = c.iv1.len

theorem write_file_advertises {c : HttpConn} (start : c.writeIdx = 0) :
    AdvertisesBody (processWrite .fileRequest c).conn (toInt c.fileStat.stSize) := by
  have prepared := write_file_prepared c
  have linger : (processWrite .fileRequest c).conn.linger = c.linger := by rw [prepared.same]
  have text := write_file_text start
  rw [← linger] at text
  generalize (processWrite .fileRequest c).conn = d at prepared text ⊢
  refine ⟨prepared.header, ?_, ?_⟩
  · rw [(prepared.file rfl).1]
  · rw [prepared.header]
    exact text

theorem write_file_number {c : HttpConn} {printed : Int} (start : c.writeIdx = 0)
    (advertised : AdvertisesBody (processWrite .fileRequest c).conn printed) :
    printed = toInt c.fileStat.stSize :=
  file_head_injective (advertised.text.symm.trans (write_file_advertises start).text)

theorem write_file_sends (c : HttpConn) :
    (processWrite .fileRequest c).conn.iv1.len = c.fileStat.stSize := by
  have prepared := write_file_prepared c
  rw [(prepared.file rfl).1, prepared.same]

/-- The head goes through an int, m_iv[1] does not. -/
theorem advertised_length_exact (c : HttpConn) (start : c.writeIdx = 0) :
    AdvertisedIsSent (processWrite .fileRequest c).conn ↔ (c.fileStat.stSize : Int) ≤ intMax := by
  unfold AdvertisedIsSent
  rw [write_file_sends]
  constructor
  · rintro ⟨printed, advertised, same⟩
    rw [← same, write_file_number start advertised]
    exact (toInt_fits _).2
  · intro short
    refine ⟨toInt c.fileStat.stSize, write_file_advertises start, toInt_of_fits ⟨?_, short⟩⟩
    unfold intMin
    omega

/-- A file of a kilobyte. -/
theorem advertised_length_exact_page : AdvertisedIsSent (processWrite .fileRequest
    { HttpConn.unused with fileStat := ⟨33188, 1024⟩ }).conn :=
  (advertised_length_exact { HttpConn.unused with fileStat := ⟨33188, 1024⟩ } rfl).mpr (by decide)

/-- A file of 2 GiB is announced with a negative length. -/
def hugeFile : HttpConn := { HttpConn.unused with fileStat := ⟨33188, 2147483648⟩ }

theorem huge_file_misadvertised :
    AdvertisesBody (processWrite .fileRequest hugeFile).conn (-2147483648) ∧
      ¬ AdvertisedIsSent (processWrite .fileRequest hugeFile).conn := by
  have shown := @write_file_advertises hugeFile rfl
  have narrowed : toInt hugeFile.fileStat.stSize = -2147483648 := by decide
  rw [narrowed] at shown
  refine ⟨shown, ?_⟩
  rintro ⟨printed, advertised, same⟩
  rw [write_file_sends, @write_file_number hugeFile printed rfl advertised, narrowed] at same
  have size : hugeFile.fileStat.stSize = 2147483648 := rfl
  omega

end FileHead

end StudyWebServer
