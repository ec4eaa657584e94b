import StudyWebServer.Http.Operations
import StudyWebServer.Http.Rounds
import StudyWebServer.Http.Segmentation

/-!
One call of process_read on a connection in any state its operations leave it in:
what stays readable, and when all its stores stay in the arrays they name. Only
the NUL of parse_content can leave m_read_buf.
-/

namespace StudyWebServer

open ByteMemory CString MachineInt CrlfLines Layout

/-- A store that stays in the array it names. -/
def Effect.StoreInside : Effect → Prop
  | .store array index count => 0 ≤ index ∧ index + count ≤ array.size
  | _ => True

instance : DecidablePred Effect.StoreInside
  | .store array index count =>
      inferInstanceAs (Decidable (0 ≤ index ∧ index + count ≤ array.size))
  | .load _ | .sum _ | .addfd _ | .modfd _ _ | .removefd _ | .userCount _ | .sent _
  | .mmap _ _ | .munmap _ _ => inferInstanceAs (Decidable True)

def StoresInside (log : List Effect) : Prop := ∀ effect ∈ log, effect.StoreInside

@[simp] theorem stores_inside_nil : StoresInside [] := by simp [StoresInside]

@[simp] theorem stores_inside_cons {effect : Effect} {log : List Effect} :
    StoresInside (effect :: log) ↔ effect.StoreInside ∧ StoresInside log := by
  simp [StoresInside]

@[simp] theorem stores_inside_append {first second : List Effect} :
    StoresInside (first ++ second) ↔ StoresInside first ∧ StoresInside second := by
  simp only [StoresInside, List.mem_append, or_imp, forall_and]

theorem InBounds.stores {log : List Effect} (safe : InBounds log) : StoresInside log := by
  intro effect member
  have bounds := safe effect member
  cases effect with
  | store array index count => exact bounds
  | _ => trivial

/-- The reader that the members of a connection describe. -/
def readerOf (c : HttpConn) : Reader where
  phase := c.checkState
  start := c.startLine
  held := slice c.readBuf c.startLine (c.checkedIdx - c.startLine)
  unread := slice c.readBuf c.checkedIdx (c.readIdx - c.checkedIdx)
  url :=
    match c.url with
    | .readBuf offset => some ⟨offset, stringAt c.readBuf offset⟩
    | .null | .wild => none
  linger := c.linger
  contentLength := c.contentLength

def Readable (c : HttpConn) : Prop := Shows c (readerOf c)

theorem Shows.reader_eq {c : HttpConn} {r : Reader} (shows : Shows c r) : readerOf c = r := by
  have position : r.position = r.start + r.held.length := rfl
  have checked := shows.checked
  have arrived := shows.arrived
  have room := shows.room
  have held : slice c.readBuf c.startLine (c.checkedIdx - c.startLine) = r.held := by
    have count : c.checkedIdx - c.startLine = r.held.length := by
      rw [shows.start]
      omega
    rw [count, shows.start, shows.held]
  have unread : slice c.readBuf c.checkedIdx (c.readIdx - c.checkedIdx) = r.unread := by
    have count : c.readIdx - c.checkedIdx = r.unread.length := by omega
    rw [count, checked, shows.unread]
  have url : (readerOf c).url = r.url := by
    have shown := shows.url
    cases same : r.url with
    | none =>
        rw [same] at shown
        have null : c.url = .null := shown
        simp only [readerOf, null]
    | some url =>
        rw [same] at shown
        have string := Terminated.stringAt_eq shown.2 (by omega)
        simp only [readerOf, shown.1, string]
  cases r
  simp only [readerOf] at url ⊢
  rw [held, unread, url, shows.phase, shows.start, shows.linger, shows.length]

theorem Shows.readable {c : HttpConn} {r : Reader} (shows : Shows c r) : Readable c := by
  rw [Readable, shows.reader_eq]
  exact shows

section Kept
variable {c : HttpConn} {r : Reader}

/-- Members of the response side play no part. -/
theorem Shows.congr {d : HttpConn} (shows : Shows c r) (phase : d.checkState = c.checkState)
    (start : d.startLine = c.startLine) (checked : d.checkedIdx = c.checkedIdx)
    (arrived : d.readIdx = c.readIdx) (buffer : d.readBuf = c.readBuf) (url : d.url = c.url)
    (linger : d.linger = c.linger) (length : d.contentLength = c.contentLength) : Shows d r := by
  constructor
  · exact phase.trans shows.phase
  · exact start.trans shows.start
  · exact checked.trans shows.checked
  · exact arrived.trans shows.arrived
  · rw [arrived]
    exact shows.room
  · rw [buffer]
    exact shows.held
  · rw [buffer]
    exact shows.unread
  · rw [buffer]
    exact shows.passed
  · rw [buffer, url]
    exact shows.url
  · exact linger.trans shows.linger
  · exact length.trans shows.length
  · exact shows.fits

theorem Readable.congr {d : HttpConn} (readable : Readable c) (phase : d.checkState = c.checkState)
    (start : d.startLine = c.startLine) (checked : d.checkedIdx = c.checkedIdx)
    (arrived : d.readIdx = c.readIdx) (buffer : d.readBuf = c.readBuf) (url : d.url = c.url)
    (linger : d.linger = c.linger) (length : d.contentLength = c.contentLength) : Readable d :=
  (Shows.congr readable phase start checked arrived buffer url linger length).readable

theorem UrlShown.zeros {buffer other : Memory} {limit : Nat} {pointer : CharPtr} {url : Option Url}
    (shown : UrlShown buffer limit pointer url)
    (zeros : ∀ key, other key = buffer key ∨ other key = 0) :
    ∃ after, UrlShown other limit pointer after := by
  cases url with
  | none => exact ⟨none, shown⟩
  | some url =>
      have held := shown.2
      have nul : other (url.offset + (slice other url.offset url.string.length).length) = 0 := by
        rw [slice_length]
        rcases zeros (url.offset + url.string.length) with same | zero
        · rw [same, held.nul]
        · exact zero
      have room : url.offset + (slice other url.offset url.string.length).length < limit := by
        rw [slice_length]
        exact held.room
      have bytes : slice other url.offset (slice other url.offset url.string.length).length =
          slice other url.offset url.string.length := by rw [slice_length]
      exact ⟨some ⟨url.offset, text (slice other url.offset url.string.length)⟩, shown.1,
        terminated_text bytes nul room⟩

theorem clear_array_zeros (low high : Int) (offset size : Nat) (array : Memory) (key : Nat) :
    clearArray low high offset size array key = array key ∨
      clearArray low high offset size array key = 0 := by
  unfold clearArray
  split_ifs
  · exact .inr rfl
  · exact .inl rfl

/-- Zero bytes stored anywhere in the buffer leave other bytes to read. -/
theorem Shows.zeros (shows : Shows c r) {buffer : Memory}
    (zeros : ∀ key, buffer key = c.readBuf key ∨ buffer key = 0) :
    Readable { c with readBuf := buffer } := by
  obtain ⟨url, shown⟩ := shows.url.zeros zeros
  have position : r.position = r.start + r.held.length := rfl
  let after : Reader := { r with
    held := slice buffer r.start r.held.length
    unread := slice buffer r.position r.unread.length
    url := url }
  have same : after.position = r.position := by
    simp only [after, Reader.position, slice_length]
  have read : Shows { c with readBuf := buffer } after := by
    constructor
    · exact shows.phase
    · exact shows.start
    · rw [same]
      exact shows.checked
    · rw [same]
      simp only [after, slice_length]
      exact shows.arrived
    · exact shows.room
    · simp only [after, slice_length]
    · rw [same]
      simp only [after, slice_length]
    · intro key below
      rw [same] at below
      rcases zeros key with before | zero
      · simp only [before]
        exact shows.passed key below
      · simp only [zero]
        decide
    · exact shown
    · exact shows.linger
    · exact shows.length
    · exact shows.fits
  exact read.readable

end Kept

section Parse
variable {fs : FileSystem} {c : HttpConn} {r : Reader}

theorem parse_request_line_sockfd (text : Nat) (c : HttpConn) :
    (parseRequestLine text c).conn.sockfd = c.sockfd := by
  unfold parseRequestLine
  repeat' (first | rfl | split | simp only)

theorem parse_headers_sockfd (text : Nat) (c : HttpConn) :
    (parseHeaders text c).conn.sockfd = c.sockfd := by
  unfold parseHeaders
  repeat' (first | rfl | split | simp only)

/-- What a part of process_read did, as long as its stores stayed inside. -/
def Sound (c : HttpConn) (log : List Effect) (d : HttpConn) : Prop :=
  StoresInside log → InBounds log ∧ Readable d ∧ d.sockfd = c.sockfd

theorem Sound.then {b c d : HttpConn} {first second : List Effect} (before : Sound b first c)
    (after : Sound c second d) : Sound b (first ++ second) d := by
  intro inside
  obtain ⟨left, right⟩ := stores_inside_append.mp inside
  obtain ⟨safe, -, same⟩ := before left
  obtain ⟨more, readable, still⟩ := after right
  exact ⟨in_bounds_append.mpr ⟨safe, more⟩, readable, still.trans same⟩

theorem do_request_sound (fs : FileSystem) (readable : Readable c) :
    Sound c (doRequest fs c).log (doRequest fs c).conn := by
  intro _
  refine ⟨do_request_in_bounds c, ?_⟩
  rcases do_request_cases fs c with ⟨ret, stat, log, -, -, same⟩ |
      ⟨stat, address, log, -, -, same⟩
  · rw [same]
    exact ⟨Readable.congr readable rfl rfl rfl rfl rfl rfl rfl rfl, rfl⟩
  · rw [same]
    exact ⟨Readable.congr readable rfl rfl rfl rfl rfl rfl rfl rfl, rfl⟩

/-- Where parse_content stores its NUL, if it stores it in m_read_buf. -/
theorem content_nul_inside {text : Nat}
    (enough : toInt (c.contentLength + c.checkedIdx) ≤ c.readIdx)
    (inside : StoresInside (parseContent text c).log) :
    0 ≤ text + c.contentLength ∧ text + c.contentLength + 1 ≤ readBufferSize := by
  rw [parse_content_enough text enough] at inside
  simp only [stores_inside_cons, Effect.StoreInside, MemberArray.size, stores_inside_nil, and_true,
    true_and] at inside
  exact inside

theorem content_nul_before {place : Int} (inside : place + 1 ≤ readBufferSize) :
    (objectSize : Int) ≤ readBufOffset + place ∨ readBufOffset + place + 1 ≤ checkedIdxOffset := by
  unfold readBufferSize at inside
  simp only [readBufOffset, checkedIdxOffset]
  omega

/-- The one handler whose store may leave the buffer. -/
theorem parse_content_sound (shows : Shows c r) (text : Nat) :
    Sound c (parseContent text c).log (parseContent text c).conn := by
  have room := shows.room
  have fits := shows.fits
  have length := shows.length
  have checked : c.checkedIdx ≤ c.readIdx := by
    rw [shows.checked, shows.arrived]
    omega
  unfold FitsInt intMin intMax at fits
  unfold readBufferSize at room
  intro inside
  by_cases enough : toInt (c.contentLength + c.checkedIdx) ≤ c.readIdx
  · obtain ⟨lower, upper⟩ := content_nul_inside enough inside
    have below := content_nul_before upper
    rw [parse_content_enough text enough] at inside ⊢
    unfold readBufferSize at upper
    -- A store inside the buffer bounds the sum, so the sum has not overflowed either.
    have sum : FitsInt (c.contentLength + c.checkedIdx) := by
      unfold FitsInt intMin intMax
      omega
    have other : clearNat (readBufOffset + (text + c.contentLength))
        (readBufOffset + (text + c.contentLength) + 1) readIdxOffset 4 c.readIdx = c.readIdx := by
      apply clearNat_outside
      simp only [readBufOffset, readIdxOffset]
      omega
    have sockfd : clearInt (readBufOffset + (text + c.contentLength))
        (readBufOffset + (text + c.contentLength) + 1) 0 c.sockfd = c.sockfd := by
      apply clearInt_outside
      simp only [readBufOffset]
      omega
    refine ⟨?_, ?_, ?_⟩
    · simp only [in_bounds_cons, in_bounds_nil, and_true, Effect.InBounds, MemberArray.size,
        readBufferSize]
      exact ⟨sum, by omega⟩
    · rw [bzero_before_checked c below, other]
      exact Readable.congr (shows.zeros (clear_array_zeros _ _ _ _ c.readBuf))
        rfl rfl rfl rfl rfl rfl rfl rfl
    · rw [bzero_before_checked c below]
      exact sockfd
  · rw [parse_content_short text enough]
    refine ⟨?_, shows.readable, rfl⟩
    simp only [in_bounds_cons, in_bounds_nil, and_true, Effect.InBounds]
    unfold toInt at enough
    unfold FitsInt intMin intMax
    omega

/-- One line handled. Only in the body may the line lack its terminator. -/
theorem handle_line_sound (fs : FileSystem) {line : List UInt8} {text : Nat} (shows : Shows c r)
    (empty : r.held = [])
    (held : c.checkState ≠ .content → Terminated c.readBuf r.start text line) :
    match handleLine fs text c with
    | .inl next => Sound c next.log next.conn
    | .inr value => Sound c value.log value.conn := by
  have position : r.position = r.start := by simp [Reader.position, empty]
  have room : r.start ≤ readBufferSize := by
    have bound := shows.room
    have arrived := shows.arrived
    omega
  cases state : c.checkState with
  | requestline =>
      have parsed := parse_request_line_refines c (held (by rw [state]; decide)) room
      have sound : Sound c (parseRequestLine text c).log (parseRequestLine text c).conn := fun _ =>
        ⟨parsed.log, (shows.requestLine parsed rfl empty).readable,
          parse_request_line_sockfd text c⟩
      rw [handle_request_line state]
      split_ifs
      · exact sound
      · exact sound
  | header =>
      have terminated := held (by rw [state]; decide)
      have sound : Sound c (parseHeaders text c).log (parseHeaders text c).conn := by
        intro _
        refine ⟨?_, ?_, parse_headers_sockfd text c⟩
        all_goals
          -- The refinement lemma is about the lines that are not empty.
          by_cases blank : line = []
          · subst blank
            rw [parse_headers_blank terminated]
            split_ifs
            all_goals first
              | exact read_string_in_bounds terminated room
              | exact (shows.toPhase .content).readable
              | exact shows.readable
          · obtain ⟨-, shown, -, safe⟩ := parse_headers_refines shows terminated room blank
            first
              | exact safe
              | exact shown.readable
      rw [handle_header state]
      split_ifs
      · exact sound
      · intro inside
        have readable : Readable (parseHeaders text c).conn :=
          (sound (stores_inside_append.mp inside).1).2.1
        exact sound.then (do_request_sound fs readable) inside
      · exact sound
  | content =>
      have sound := parse_content_sound shows text
      rw [handle_content state]
      split_ifs
      · intro inside
        have readable : Readable (parseContent text c).conn :=
          (sound (stores_inside_append.mp inside).1).2.1
        exact sound.then (do_request_sound fs readable) inside
      · exact sound

/-- What the loop condition leaves for the handler of the line, or for the next call. -/
theorem next_line_sound (loop : ReadLoop) (readable : Readable loop.conn) :
    InBounds (nextLine loop).log ∧
    if (nextLine loop).ret = .lineOk then
      ∃ r line, Shows (startNextLine (nextLine loop).conn) r ∧ r.held = [] ∧
        ((nextLine loop).conn.checkState ≠ .content →
          Terminated (nextLine loop).conn.readBuf r.start (nextLine loop).conn.startLine line)
    else Readable (nextLine loop).conn := by
  have shows : Shows loop.conn (readerOf loop.conn) := readable
  by_cases skips : loop.conn.checkState = .content ∧ loop.lineStatus = .lineOk
  · have next : nextLine loop = ⟨.lineOk, loop.conn, []⟩ := if_pos skips
    rw [next]
    exact ⟨in_bounds_nil, _, [], shows.startNextLine, rfl, fun other => absurd skips.1 other⟩
  · have next : nextLine loop = parseLine loop.conn := if_neg skips
    obtain ⟨safe, scanned⟩ := shows.parse_line
    rw [next]
    refine ⟨safe, ?_⟩
    cases found : scan (readerOf loop.conn).unread with
    | line line rest =>
        rw [found] at scanned
        obtain ⟨turned, held⟩ := shows.nextLine found
        have start : (cutLine loop.conn (loop.conn.checkedIdx + line.length)).startLine =
            (readerOf loop.conn).start := shows.start
        rw [if_pos scanned.1, scanned.2, start]
        exact ⟨_, _, turned, rfl, fun _ => held⟩
    | stopped passed rest =>
        rw [found] at scanned
        rw [if_neg scanned.1, scanned.2]
        exact (shows.stop found).readable

theorem read_round_sound (fs : FileSystem) (loop : ReadLoop) :
    ∃ added, match readRound fs loop with
    | .inl next => next.log = loop.log ++ added ∧
        (Readable loop.conn → Sound loop.conn added next.conn)
    | .inr value => value.log = loop.log ++ added ∧
        (Readable loop.conn → Sound loop.conn added value.conn) := by
  have sockfd := (next_line_kept loop).sockfd
  by_cases complete : (nextLine loop).ret = .lineOk
  · have line_sound (readable : Readable loop.conn) :
        Sound loop.conn (nextLine loop).log (startNextLine (nextLine loop).conn) ∧
        match handleLine fs (nextLine loop).conn.startLine
            (startNextLine (nextLine loop).conn) with
        | .inl next => Sound (startNextLine (nextLine loop).conn) next.log next.conn
        | .inr value => Sound (startNextLine (nextLine loop).conn) value.log value.conn := by
      obtain ⟨safe, next⟩ := next_line_sound loop readable
      rw [if_pos complete] at next
      obtain ⟨r, line, shows, empty, held⟩ := next
      exact ⟨fun _ => ⟨safe, shows.readable, sockfd⟩, handle_line_sound fs shows empty held⟩
    rw [read_round_line complete]
    cases handled : handleLine fs (nextLine loop).conn.startLine
        (startNextLine (nextLine loop).conn) with
    | inl next =>
        rw [handled] at line_sound
        exact ⟨(nextLine loop).log ++ next.log, List.append_assoc ..,
          fun readable => (line_sound readable).1.then (line_sound readable).2⟩
    | inr value =>
        rw [handled] at line_sound
        exact ⟨(nextLine loop).log ++ value.log, List.append_assoc ..,
          fun readable => (line_sound readable).1.then (line_sound readable).2⟩
  · rw [read_round_stop complete]
    refine ⟨(nextLine loop).log, rfl, fun readable _ => ?_⟩
    obtain ⟨safe, next⟩ := next_line_sound loop readable
    rw [if_neg complete] at next
    exact ⟨safe, next, sockfd⟩

theorem process_read_sound (fs : FileSystem) (readable : Readable c) :
    Sound c (processRead fs c).log (processRead fs c).conn := by
  have run : ∃ added, (processRead fs c).log = [] ++ added ∧
      (Readable c → Sound c added (processRead fs c).conn) := by
    refine Loop.run_induction (motive := fun (loop : ReadLoop) (value : Outcome HttpCode) =>
      ∃ added, value.log = loop.log ++ added ∧
        (Readable loop.conn → Sound loop.conn added value.conn)) ?_ ?_ ⟨.lineOk, c, []⟩
    · intro loop next value round ih
      obtain ⟨first, step⟩ := read_round_sound fs loop
      rw [round] at step
      obtain ⟨second, log, later⟩ := ih
      refine ⟨first ++ second, by rw [log, step.1, List.append_assoc], fun readable inside => ?_⟩
      have between := (step.2 readable (stores_inside_append.mp inside).1).2.1
      exact (step.2 readable).then (later between) inside
    · intro loop value round
      obtain ⟨added, step⟩ := read_round_sound fs loop
      rw [round] at step
      exact ⟨added, step⟩
  obtain ⟨added, log, sound⟩ := run
  rw [log, List.nil_append]
  exact sound readable

end Parse

section Looks
variable {fs : FileSystem} {c : HttpConn} {r : Reader}

/-- The byte that is cleared if the look passes lies in the buffer. -/
def Look.Inside (look : Look) : Prop :=
  look.passes → 0 ≤ look.line + look.length ∧ look.line + look.length < readBufferSize

instance (look : Look) : Decidable look.Inside := inferInstanceAs (Decidable (_ → _ ∧ _))

/-- The looks of one call of process_read at a body. -/
def bodyLooks (r : Reader) : List Look :=
  if r.phase = .content then callLooks true r
  else
    match readHead r with
    | .waiting _ | .refused _ => []
    | .complete h => if h.contentLength = 0 then [] else callLooks true (h.toPhase .content)

/-- The declared length of the body puts the NUL behind it into the buffer. -/
def LengthInside (c : HttpConn) : Prop := ∀ look ∈ bodyLooks (readerOf c), look.Inside

instance (c : HttpConn) : Decidable (LengthInside c) :=
  inferInstanceAs (Decidable (∀ look ∈ _, Look.Inside look))

theorem read_request_looks (r : Reader) : (readRequest r).looks = bodyLooks r := by
  unfold readRequest bodyLooks
  split_ifs
  · exact (read_body_call true r).looks
  · cases readHead r with
    | waiting w => rfl
    | refused w => rfl
    | complete h =>
        simp only [afterHead]
        split_ifs
        · rfl
        · exact (read_body_call true (h.toPhase .content)).looks

theorem looks_along_fields {length : Int} {arrived line : Nat} {places : List Nat} {look : Look}
    (member : look ∈ looksAlong length arrived line places) :
    look.length = length ∧ look.arrived = arrived ∧ look.checked ∈ places := by
  induction places generalizing line with
  | nil => cases member
  | cons place places ih =>
      simp only [looksAlong] at member
      split_ifs at member
      · rw [List.mem_singleton.mp member]
        exact ⟨rfl, rfl, List.mem_cons_self⟩
      · rcases List.mem_cons.mp member with rfl | later
        · exact ⟨rfl, rfl, List.mem_cons_self⟩
        · obtain ⟨same, total, inside⟩ := ih later
          exact ⟨same, total, List.mem_cons_of_mem _ inside⟩

theorem call_looks_fields {look : Look} (member : look ∈ callLooks true r) :
    look.length = r.contentLength ∧ look.arrived = r.position + r.unread.length ∧
    look.checked ≤ look.arrived := by
  obtain ⟨length, arrived, place⟩ := looks_along_fields member
  refine ⟨length, arrived, ?_⟩
  rw [arrived]
  rcases List.mem_cons.mp place with here | later
  · omega
  · obtain ⟨offset, inside, same⟩ := List.mem_map.mp later
    have walked := pair_ends_le r.unread offset inside
    have bound := walk_le r.unread
    omega

/-- A sum that overflows passes, and its NUL falls outside. -/
theorem Look.safe_iff {look : Look} (fits : FitsInt look.length)
    (checked : look.checked ≤ look.arrived) (room : look.arrived ≤ readBufferSize) :
    look.Safe ↔ look.Inside := by
  unfold Look.Safe Look.Inside
  refine ⟨fun safe => safe.2, fun inside => ⟨?_, inside⟩⟩
  unfold Look.passes toInt at inside
  unfold readBufferSize at room inside
  unfold FitsInt intMin intMax at fits ⊢
  omega

theorem Shows.look_bounds (shows : Shows c r) {look : Look} (member : look ∈ bodyLooks r) :
    FitsInt look.length ∧ look.checked ≤ look.arrived ∧ look.arrived ≤ readBufferSize := by
  have room := shows.room
  have arrived := shows.arrived
  unfold bodyLooks at member
  split_ifs at member with body
  · obtain ⟨length, total, checked⟩ := call_looks_fields member
    exact ⟨length ▸ shows.fits, checked, by omega⟩
  · cases reached : readHead r with
    | waiting w => rw [reached] at member; cases member
    | refused w => rw [reached] at member; cases member
    | complete h =>
        have advanced := read_head_advanced r
        rw [reached] at member advanced
        dsimp only at member
        split_ifs at member
        · cases member
        · have behind : UrlBehind r := by
            intro url same
            have shown := shows.url
            rw [same] at shown
            exact shown.2.room.le
          have fits := (read_head_url behind shows.fits reached).2
          obtain ⟨length, total, checked⟩ := call_looks_fields member
          have same : h.position + h.unread.length = r.position + r.unread.length := advanced.total
          have moved : (h.toPhase .content).position + (h.toPhase .content).unread.length =
              h.position + h.unread.length := rfl
          refine ⟨?_, checked, by omega⟩
          rw [length]
          exact fits

/-- The stores of process_read stay in their arrays exactly when the declared length does. -/
theorem process_read_inside_iff (fs : FileSystem) (readable : Readable c) :
    StoresInside (processRead fs c).log ↔ LengthInside c := by
  have agrees : Agrees fs c (processRead fs c) (readRequest (readerOf c)) :=
    process_read_refines c (readerOf c) readable
  have looks : InBounds (processRead fs c).log ↔ LengthInside c := by
    rw [agrees.log, read_request_looks, LengthInside]
    refine forall₂_congr fun look member => ?_
    obtain ⟨fits, checked, room⟩ := Shows.look_bounds readable member
    exact Look.safe_iff fits checked room
  rw [← looks]
  exact ⟨fun inside => (process_read_sound fs readable inside).1, InBounds.stores⟩

end Looks

end StudyWebServer
