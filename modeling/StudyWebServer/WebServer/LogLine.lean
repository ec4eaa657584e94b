import StudyWebServer.Library.ByteMemory
import StudyWebServer.Library.CString
import StudyWebServer.WebServer.Buffer

/-!
The line that Log::write of WebServer-master/code/log makes in buff_. What snprintf and
vsnprintf format is a parameter. The value of vsnprintf, which is not bounded by the room
it was given, moves the write position.
-/

namespace StudyWebServer.WebServer.LogLine

open CString ByteMemory

structure Entry where
  level : Int
  /-- the date and time that snprintf formats -/
  date : Bytes
  /-- what vsnprintf formats, if it can -/
  text : Option Bytes
  /-- `isAsync_ && deque_ && !deque_->full()` -/
  queued : Bool

/-- What snprintf stores in so many bytes. -/
def cut (room : Nat) (str : Bytes) : Bytes := if room = 0 then [] else str.take (room - 1) ++ [0]

def levelTitle (level : Int) : Bytes :=
  match level with
  | 0 => ascii "[debug]: "
  | 1 => ascii "[info] : "
  | 2 => ascii "[warn] : "
  | 3 => ascii "[error]: "
  | _ => ascii "[info] : "

def storeDate (b : Buffer) (date : Bytes) : Except Fault Buffer :=
  match b.store b.writePos (cut 128 date) with
  | .error fault => .error fault
  | .ok next => .ok (next.hasWritten date.length)

def storeText (b : Buffer) : Option Bytes → Except Fault Buffer
  | none => .ok (b.hasWritten (-1))
  | some text =>
      match b.store b.writePos (cut b.writableBytes text) with
      | .error fault => .error fault
      | .ok next => .ok (next.hasWritten text.length)

/-- buff_ with the whole line. -/
def format (b : Buffer) (entry : Entry) : Except Fault Buffer :=
  match storeDate b entry.date with
  | .error fault => .error fault
  | .ok dated =>
      match dated.append (levelTitle entry.level) with
      | .error fault => .error fault
      | .ok titled =>
          match storeText titled entry.text with
          | .error fault => .error fault
          | .ok worded => worded.append [10, 0]

/-- What is printed of the line, by fputs of the queued string or of the buffer. -/
def printed (b : Buffer) (queued : Bool) : Bytes :=
  if queued then text b.contents else text (b.buffer.drop b.readPos)

def write (b : Buffer) (entry : Entry) : Except Fault (Bytes × Buffer) :=
  match format b entry with
  | .error fault => .error fault
  | .ok line => .ok (printed line entry.queued, line.retrieveAll)

theorem level_title_length (level : Int) : (levelTitle level).length = 9 := by
  unfold levelTitle
  split <;> rfl

/-- buff_ between two lines. -/
structure Ready (b : Buffer) : Prop where
  read : b.readPos = 0
  write : b.writePos = 0
  least : 1024 ≤ b.buffer.length
  small : b.buffer.length ≤ maxSize

section Steps
variable {b next : Buffer} {date str : Bytes}

theorem Ready.wellFormed (ready : Ready b) : b.WellFormed :=
  ⟨by rw [ready.read]; exact Nat.zero_le _, by rw [ready.write]; exact Nat.zero_le _, ready.small⟩

theorem Ready.contents (ready : Ready b) : b.contents = [] := by
  rw [Buffer.contents, ready.write, Nat.zero_sub, List.take_zero]

theorem position (wellFormed : b.WellFormed) (read : b.readPos = 0) :
    b.writePos = b.contents.length := by
  rw [wellFormed.contents_length, wellFormed.readable, read, Nat.sub_zero]

theorem ready_retrieve_all (wellFormed : b.WellFormed) (least : 1024 ≤ b.buffer.length) :
    Ready b.retrieveAll := by
  obtain ⟨good, -, size⟩ := Buffer.retrieve_all_spec wellFormed
  exact ⟨rfl, rfl, by rwa [size], good.small⟩

theorem store_date_spec (ready : Ready b) (short : date.length < 128) : ∃ next,
    storeDate b date = .ok next ∧ next.WellFormed ∧ next.contents = date ∧ next.readPos = 0 ∧
      next.buffer.length = b.buffer.length := by
  have cuts : cut 128 date = date ++ [0] := by
    rw [cut, if_neg (by decide), List.take_of_length_le (by omega)]
  have room : b.writePos + (date ++ [0]).length ≤ b.buffer.length := by
    have least := ready.least
    rw [ready.write, List.length_append, List.length_singleton]
    omega
  obtain ⟨stored, store, good, contents, -, size⟩ := Buffer.store_more ready.wellFormed room
  have first : stored.readPos = 0 := by
    cases (Buffer.store_ok room).symm.trans store
    exact ready.read
  rw [ready.contents, List.nil_append] at contents
  exact ⟨_, by simp only [storeDate, cuts, store], good, contents, first, size⟩

/-- The date and the title of the level always fit. -/
theorem title_spec (level : Int) (ready : Ready b) (short : date.length < 128) : ∃ dated titled,
    storeDate b date = .ok dated ∧ dated.append (levelTitle level) = .ok titled ∧
      titled.WellFormed ∧ titled.contents = date ++ levelTitle level ∧ titled.readPos = 0 ∧
      titled.buffer.length = b.buffer.length := by
  obtain ⟨dated, store, good, contents, first, size⟩ := store_date_spec ready short
  have room : dated.writePos + (levelTitle level).length ≤ dated.buffer.length := by
    have least := ready.least
    rw [position good first, contents, level_title_length]
    omega
  obtain ⟨titled, appended, final, held, start, total⟩ := Buffer.append_fits good room
  exact ⟨dated, titled, store, appended, final, by rw [held, contents], start.trans first,
    total.trans size⟩

/-- A text with room for it and its NUL is stored whole. -/
theorem store_text_fits (wellFormed : b.WellFormed)
    (room : b.writePos + str.length < b.buffer.length) :
    ∃ next, storeText b (some str) = .ok next ∧ next.WellFormed ∧
      next.contents = b.contents ++ str ∧ next.buffer.length = b.buffer.length := by
  have cuts : cut b.writableBytes str = str ++ [0] := by
    rw [cut, wellFormed.writable, if_neg (by omega), List.take_of_length_le (by omega)]
  have whole : b.writePos + (str ++ [0]).length ≤ b.buffer.length := by
    rw [List.length_append, List.length_singleton]
    omega
  obtain ⟨stored, store, good, contents, -, size⟩ := Buffer.store_more wellFormed whole
  exact ⟨_, by simp only [storeText, cuts, store], good, contents, size⟩

/-- A text that fits without its NUL loses its last character for it. -/
theorem store_text_full (wellFormed : b.WellFormed) (filled : str ≠ [])
    (room : b.writePos + str.length = b.buffer.length) :
    ∃ next, storeText b (some str) = .ok next ∧ next.WellFormed ∧
      next.contents = b.contents ++ (str.dropLast ++ [0]) ∧
      next.buffer.length = b.buffer.length := by
  have some := List.length_pos_of_ne_nil filled
  have same : (str.dropLast ++ [0]).length = str.length := by
    rw [List.length_append, List.length_dropLast, List.length_singleton]
    omega
  have cuts : cut b.writableBytes str = str.dropLast ++ [0] := by
    rw [cut, wellFormed.writable, if_neg (by omega), List.dropLast_eq_take]
    congr 2
    omega
  have whole : b.writePos + (str.dropLast ++ [0]).length ≤ b.buffer.length := by omega
  obtain ⟨stored, store, good, contents, -, size⟩ := Buffer.store_spec wellFormed whole
  rw [same] at good contents
  exact ⟨_, by simp only [storeText, cuts, store], good, contents, size⟩

theorem cut_length (room : Nat) : (cut room str).length ≤ room := by
  unfold cut
  split_ifs with none
  · exact Nat.zero_le _
  · rw [List.length_append, List.length_take, List.length_singleton]
    omega

/-- Behind a longer text the write position is outside of the vector, and the newline is
stored there. -/
theorem store_text_outside (wellFormed : b.WellFormed) (int : str.length ≤ 2147483647)
    (more : b.buffer.length < b.writePos + str.length) :
    ∃ next, storeText b (some str) = .ok next ∧ next.append [10, 0] = .error .outside := by
  have inside := wellFormed.inside
  have small := wellFormed.small
  unfold maxSize at small
  have whole : b.writePos + (cut b.writableBytes str).length ≤ b.buffer.length := by
    have bound := @cut_length str b.writableBytes
    rw [wellFormed.writable] at bound ⊢
    omega
  obtain ⟨stored, store, -, -, position, size⟩ := Buffer.store_spec wellFormed whole
  refine ⟨stored.hasWritten str.length, by simp only [storeText, store], ?_⟩
  have behind : (stored.hasWritten str.length).writePos = b.writePos + str.length := by
    show sizeT (stored.writePos + str.length) = _
    unfold sizeT
    omega
  have length : (stored.hasWritten str.length).buffer.length = b.buffer.length := size
  have wraps : [(10 : UInt8), 0].length ≤ (stored.hasWritten str.length).writableBytes := by
    unfold Buffer.writableBytes sizeT
    rw [behind, length, List.length_cons, List.length_singleton]
    omega
  have refused : (stored.hasWritten str.length).store (stored.hasWritten str.length).writePos
      [10, 0] = .error .outside := by
    refine if_neg ?_
    rw [behind, length, List.length_cons, List.length_singleton]
    omega
  have ensured : (stored.hasWritten str.length).ensureWriteable [(10 : UInt8), 0].length =
      .ok (stored.hasWritten str.length) := by
    simp only [Buffer.ensureWriteable, Nat.not_lt.mpr wraps, if_false, wraps, if_true]
  simp only [Buffer.append, ensured, refused]

/-- With its NUL in the buffer a line is printed up to the first one, queued or not. -/
theorem printed_eq (contents : b.contents = str ++ [0]) (queued : Bool) :
    printed b queued = text str := by
  have whole : b.buffer.drop b.readPos =
      str ++ 0 :: (b.buffer.drop b.readPos).drop (b.writePos - b.readPos) := by
    have split := List.take_append_drop (b.writePos - b.readPos) (b.buffer.drop b.readPos)
    rw [show (b.buffer.drop b.readPos).take (b.writePos - b.readPos) = str ++ [0] from contents,
      List.append_assoc] at split
    exact split.symm
  unfold printed
  cases queued with
  | true =>
      rw [if_pos rfl, contents]
      exact text_append_nul str []
  | false =>
      rw [if_neg (by decide), whole]
      exact text_append_nul str _

/-- The newline and the NUL that end a line, after which buff_ is empty again. -/
theorem end_line (wellFormed : b.WellFormed) (least : 1024 ≤ b.buffer.length)
    (room : b.buffer.length + 3 ≤ maxSize) : ∃ next, b.append [10, 0] = .ok next ∧
      (∀ queued, printed next queued = text (b.contents ++ [10])) ∧ Ready next.retrieveAll ∧
      b.buffer.length ≤ next.retrieveAll.buffer.length ∧
      next.retrieveAll.buffer.length ≤ b.buffer.length + 3 := by
  have inside := wellFormed.inside
  rcases @Buffer.append_spec b [10, 0] wellFormed (by decide) with ⟨large, -⟩ |
    ⟨next, appended, good, contents, -, grown, limit⟩
  · exact absurd large (by rw [List.length_cons, List.length_singleton]; omega)
  · have size := (Buffer.retrieve_all_spec good).2.2
    refine ⟨next, appended, printed_eq (contents.trans (List.append_assoc _ [10] [0]).symm),
      ready_retrieve_all good (least.trans grown), by rwa [size], ?_⟩
    rw [size]
    exact limit

end Steps

section Write
variable {b next : Buffer} {entry : Entry} {str : Bytes}

/-- The date and the title of a line. -/
def Entry.head (entry : Entry) : Bytes := entry.date ++ levelTitle entry.level

/-- A line is written whole, without its last characters, or outside of the vector. -/
theorem write_spec (ready : Ready b) (room : b.buffer.length + 3 ≤ maxSize)
    (short : entry.date.length < 128) (formatted : entry.text = some str)
    (int : str.length ≤ 2147483647) :
    (b.buffer.length < (entry.head ++ str).length ∧ write b entry = .error .outside) ∨
    ∃ next, Ready next ∧ b.buffer.length ≤ next.buffer.length ∧
      next.buffer.length ≤ b.buffer.length + 3 ∧
      (((entry.head ++ str).length < b.buffer.length ∧
          write b entry = .ok (text (entry.head ++ str ++ [10]), next)) ∨
        ((entry.head ++ str).length = b.buffer.length ∧
          write b entry = .ok (text (entry.head ++ str.dropLast), next))) := by
  obtain ⟨dated, titled, dates, titles, good, contents, first, size⟩ :=
    title_spec entry.level ready short
  have place : titled.writePos = entry.head.length := by
    rw [position good first, contents]
    rfl
  have least := ready.least
  have total : (entry.head ++ str).length = titled.writePos + str.length := by
    rw [List.length_append, place]
  rw [total, ← size]
  rcases Nat.lt_trichotomy (titled.writePos + str.length) titled.buffer.length with
    fits | full | more
  · obtain ⟨worded, stored, final, held, length⟩ := store_text_fits good fits
    obtain ⟨line, ended, print, after, lower, upper⟩ :=
      end_line final (by omega) (by omega)
    refine .inr ⟨_, after, by omega, by omega, .inl ⟨fits, ?_⟩⟩
    simp only [write, format, dates, titles, formatted, stored, ended, print, held, contents]
    rfl
  · have filled : str ≠ [] := by
      rintro rfl
      have short := short
      rw [place, Entry.head, List.length_append, level_title_length] at full
      simp only [List.length_nil] at full
      omega
    obtain ⟨worded, stored, final, held, length⟩ := store_text_full good filled full
    obtain ⟨line, ended, print, after, lower, upper⟩ :=
      end_line final (by omega) (by omega)
    refine .inr ⟨_, after, by omega, by omega, .inr ⟨full, ?_⟩⟩
    have stops : text (entry.head ++ (str.dropLast ++ [0]) ++ [10]) =
        text (entry.head ++ str.dropLast) := by
      rw [← List.append_assoc, List.append_assoc]
      exact text_append_nul _ [10]
    simp only [write, format, dates, titles, formatted, stored, ended, print, held, contents]
    rw [show entry.date ++ levelTitle entry.level = entry.head from rfl, stops]
  · obtain ⟨worded, stored, failed⟩ := store_text_outside good int more
    exact .inl ⟨more, by simp only [write, format, dates, titles, formatted, stored, failed]⟩

/-- A text that vsnprintf cannot format costs the title its last character. -/
theorem write_unformatted (ready : Ready b) (room : b.buffer.length + 3 ≤ maxSize)
    (short : entry.date.length < 128) (formatted : entry.text = none) : ∃ next,
    write b entry = .ok (text (entry.head.dropLast ++ [10]), next) ∧ Ready next ∧
      b.buffer.length ≤ next.buffer.length ∧ next.buffer.length ≤ b.buffer.length + 3 := by
  obtain ⟨dated, titled, dates, titles, good, contents, first, size⟩ :=
    title_spec entry.level ready short
  have place := position good first
  have inside := good.inside
  have some : 0 < titled.contents.length := by
    rw [contents, List.length_append, level_title_length]
    omega
  have back : (titled.hasWritten (-1)).writePos = titled.contents.length - 1 := by
    show sizeT (titled.writePos + -1) = _
    unfold maxSize at room
    unfold sizeT
    omega
  have held : (titled.hasWritten (-1)).contents = entry.head.dropLast := by
    have same : entry.head = titled.contents := contents.symm
    have all : titled.contents = titled.buffer.take titled.contents.length := by
      rw [← place]
      conv_lhs => rw [Buffer.contents, first, List.drop_zero, Nat.sub_zero]
    rw [Buffer.contents, back, same, List.dropLast_eq_take]
    show (titled.buffer.drop titled.readPos).take (_ - titled.readPos) = _
    rw [first, List.drop_zero, Nat.sub_zero, all, List.take_take, ← all]
    congr 1
    omega
  have worded : (titled.hasWritten (-1)).WellFormed := by
    refine ⟨?_, ?_, good.small⟩
    · rw [back]
      exact first.le.trans (Nat.zero_le _)
    · rw [back]
      show _ ≤ titled.buffer.length
      omega
  obtain ⟨line, ended, print, after, lower, upper⟩ := end_line worded
    (ready.least.trans size.ge) (size.symm ▸ room)
  refine ⟨_, ?_, after, size.ge.trans lower, upper.trans (Nat.add_le_add_right size.le 3)⟩
  simp only [write, format, dates, titles, storeText, formatted, ended, print, held]

/-- What snprintf and vsnprintf return is an int, and the date fits in its room. -/
def Entry.Accepted (entry : Entry) : Prop :=
  entry.date.length < 128 ∧ ∀ str, entry.text = some str → str.length ≤ 2147483647

/-- The lines written since the start, with what was printed of them. -/
inductive Logged : List Entry → Bytes → Buffer → Prop where
  | start : Logged [] [] (Buffer.init 1024)
  | line {entries : List Entry} {out printed : Bytes} {b next : Buffer} (entry : Entry)
      (logged : Logged entries out b) (accepted : entry.Accepted)
      (went : write b entry = .ok (printed, next)) :
      Logged (entries ++ [entry]) (out ++ printed) next

theorem init_ready : Ready (Buffer.init 1024) ∧ (Buffer.init 1024).buffer.length = 1024 := by
  have size : (Buffer.init 1024).buffer.length = 1024 := List.length_replicate
  exact ⟨⟨rfl, rfl, size.ge, size.trans_le (by decide)⟩, size⟩

theorem Logged.ready {entries : List Entry} {out : Bytes} (logged : Logged entries out b)
    (few : 1024 + 3 * entries.length ≤ maxSize) :
    Ready b ∧ b.buffer.length ≤ 1024 + 3 * entries.length := by
  induction logged with
  | start => exact ⟨init_ready.1, init_ready.2.le⟩
  | @line entries out printed b next entry logged accepted went ih =>
      rw [List.length_append, List.length_singleton] at few ⊢
      obtain ⟨ready, size⟩ := ih (by omega)
      have room : b.buffer.length + 3 ≤ maxSize := by omega
      cases formatted : entry.text with
      | none =>
          obtain ⟨after, wrote, final, -, limit⟩ :=
            write_unformatted ready room accepted.1 formatted
          cases wrote.symm.trans went
          exact ⟨final, by omega⟩
      | some str =>
          rcases write_spec ready room accepted.1 formatted (accepted.2 str formatted) with
            ⟨-, failed⟩ | ⟨after, final, -, limit, ⟨-, wrote⟩ | ⟨-, wrote⟩⟩
          · cases failed.symm.trans went
          · cases wrote.symm.trans went
            exact ⟨final, by omega⟩
          · cases wrote.symm.trans went
            exact ⟨final, by omega⟩

/-- Log::write stores outside of its buffer exactly when the date, the title and the text
are longer than it. When they are shorter the line is printed whole, when they fill it
without the newline and the last character. -/
theorem log_line_outside {entries : List Entry} {out : Bytes} (logged : Logged entries out b)
    (few : 1024 + 3 * (entries.length + 1) ≤ maxSize) (accepted : entry.Accepted)
    (formatted : entry.text = some str) :
    (write b entry = .error .outside ↔ b.buffer.length < (entry.head ++ str).length) ∧
    ((entry.head ++ str).length < b.buffer.length →
      ∃ next, write b entry = .ok (text (entry.head ++ str ++ [10]), next)) ∧
    ((entry.head ++ str).length = b.buffer.length →
      ∃ next, write b entry = .ok (text (entry.head ++ str.dropLast), next)) := by
  obtain ⟨ready, size⟩ := logged.ready (by omega)
  rcases write_spec ready (by omega) accepted.1 formatted (accepted.2 str formatted) with
    ⟨more, failed⟩ | ⟨next, -, -, -, ⟨fits, wrote⟩ | ⟨full, wrote⟩⟩
  · exact ⟨iff_of_true failed more, fun fits => absurd fits (by omega),
      fun full => absurd full (by omega)⟩
  · exact ⟨iff_of_false (by rw [wrote]; simp) (by omega), fun _ => ⟨next, wrote⟩,
      fun full => absurd full (by omega)⟩
  · exact ⟨iff_of_false (by rw [wrote]; simp) (by omega), fun fits => absurd fits (by omega),
      fun _ => ⟨next, wrote⟩⟩

theorem log_line_outside_start :
    let entry : Entry :=
  ⟨1, ascii "2020-06-16 08:00:00.000000 ", some (ascii "Server start"), false⟩
    (write (Buffer.init 1024) entry = .error .outside ↔
      (Buffer.init 1024).buffer.length < (entry.head ++ ascii "Server start").length) ∧
    ((entry.head ++ ascii "Server start").length < (Buffer.init 1024).buffer.length →
      ∃ next, write (Buffer.init 1024) entry =
        .ok (text (entry.head ++ ascii "Server start" ++ [10]), next)) ∧
    ((entry.head ++ ascii "Server start").length = (Buffer.init 1024).buffer.length →
      ∃ next, write (Buffer.init 1024) entry =
        .ok (text (entry.head ++ (ascii "Server start").dropLast), next)) :=
  log_line_outside .start (by decide) ⟨by decide, fun str same => by cases same; decide⟩ rfl

end Write

end StudyWebServer.WebServer.LogLine
