import StudyWebServer.Library.CrlfLines
import StudyWebServer.Library.Loop
import StudyWebServer.Http.RequestParser

/-!
What process_read does to the byte stream of a connection, in terms of the
stream: lines are lists of bytes, a pointer into the buffer is a string with
its offset. The head of a request and its body are two loops, since only the
head is read the same way whatever pieces it arrives in.
-/

namespace StudyWebServer

open ByteMemory CString MachineInt CrlfLines

structure Url where
  offset : Nat
  string : List UInt8
  deriving DecidableEq

structure Reader where
  phase : CheckState
  /-- m_start_line -/
  start : Nat
  /-- the bytes from m_start_line to m_checked_idx -/
  held : List UInt8
  /-- the bytes from m_checked_idx to m_read_idx -/
  unread : List UInt8
  url : Option Url
  linger : Bool
  contentLength : Int
  deriving DecidableEq

namespace Reader

def fresh : Reader := ⟨.requestline, 0, [], [], none, false, 0⟩

/-- m_checked_idx -/
def position (r : Reader) : Nat := r.start + r.held.length

def feed (r : Reader) (bytes : List UInt8) : Reader := { r with unread := r.unread ++ bytes }

/-- `count` bytes taken off, the next line starting behind them. -/
def turn (r : Reader) (count : Nat) (rest : List UInt8) : Reader :=
  { r with start := r.position + count, held := [], unread := rest }

/-- The scanner at rest in front of `rest`. -/
def stop (r : Reader) (passed rest : List UInt8) : Reader :=
  { r with held := r.held ++ passed, unread := rest }

def withUrl (r : Reader) (url : Option Url) : Reader := { r with url := url }

def toPhase (r : Reader) (phase : CheckState) : Reader := { r with phase := phase }

def withLinger (r : Reader) : Reader := { r with linger := true }

def withLength (r : Reader) (length : Int) : Reader := { r with contentLength := length }

end Reader

structure RequestLine where
  accepted : Bool
  url : Option Url
  deriving DecidableEq

/-- parse_request_line on a line that starts at the offset. -/
def requestLine (offset : Nat) (line : List UInt8) : RequestLine :=
  match strpbrk line blanks with
  | none => ⟨false, none⟩
  | some first =>
      let behind := line.drop (first + 1)
      let offset := offset + first + 1
      if strcasecmpEq (line.take first) (ascii "GET") then
        match strpbrk behind blanks with
        | none => ⟨false, some ⟨offset, behind⟩⟩
        | some second =>
            let url := behind.take second
            if strcasecmpEq (behind.drop (second + 1)) (ascii "HTTP/1.1") then
              if strncasecmpEq url (ascii "http://") 7 then
                match strchr (url.drop 7) 47 with
                | none => ⟨false, none⟩
                | some slash => ⟨true, some ⟨offset + 7 + slash, (url.drop 7).drop slash⟩⟩
              else ⟨url.head? = some 47, some ⟨offset, url⟩⟩
            else ⟨false, some ⟨offset, url⟩⟩
      else ⟨false, some ⟨offset, behind⟩⟩

/-- parse_headers on a line that is not empty. -/
def headerLine (line : List UInt8) (r : Reader) : Reader :=
  if strncasecmpEq line (ascii "Connection:") 11 then
    let value := line.drop 11
    if strcasecmpEq (value.drop (strspn value blanks)) (ascii "keep-alive") then r.withLinger else r
  else if strncasecmpEq line (ascii "Content-Length:") 15 then
    let value := line.drop 15
    r.withLength (toInt (atol (value.drop (strspn value blanks))))
  else r

/-- How far the head of a request has come. -/
inductive Head where
  | waiting (r : Reader)
  | refused (r : Reader)
  | complete (r : Reader)

/-- A line of the head, `next` being the reader behind it. -/
def headLine (line : List UInt8) (r next : Reader) : Reader ⊕ Head :=
  if r.phase = .requestline then
    let parsed := requestLine r.start line
    if parsed.accepted then .inl ((next.withUrl parsed.url).toPhase .header)
    else .inr (.refused (next.withUrl parsed.url))
  else if line = [] then .inr (.complete next)
  else .inl (headerLine line next)

def headRound (r : Reader) : Reader ⊕ Head :=
  match scan r.unread with
  | .line line rest => headLine (text (r.held ++ line)) r (r.turn (line.length + 2) rest)
  | .stopped passed rest => .inr (.waiting (r.stop passed rest))

@[simp] theorem header_line_unread (line : List UInt8) (r : Reader) :
    (headerLine line r).unread = r.unread := by
  unfold headerLine
  repeat' (first | rfl | split | simp only)

@[simp] theorem header_line_phase (line : List UInt8) (r : Reader) :
    (headerLine line r).phase = r.phase := by
  unfold headerLine
  repeat' (first | rfl | split | simp only)

theorem head_line_unread {line : List UInt8} {r next after : Reader}
    (again : headLine line r next = .inl after) : after.unread = next.unread := by
  unfold headLine at again
  dsimp only at again
  split_ifs at again
  · cases again
    rfl
  · cases again
    exact header_line_unread line next

theorem head_round_decreases : Loop.Decreases headRound fun r => r.unread.length := by
  intro r next again
  unfold headRound at again
  split at again
  · next line rest found =>
      have length := congrArg List.length (scan_line_split found).1
      simp only [List.length_append, List.length_cons] at length
      have kept : next.unread = rest := head_line_unread again
      simp only [kept]
      omega
  · cases again

def readHead (r : Reader) : Head :=
  Loop.run headRound (fun r => r.unread.length) head_round_decreases r

inductive Verdict where
  | wait | refuse | serve
  deriving DecidableEq

/-- One comparison of m_read_idx with `m_content_length + m_checked_idx`; `line` is
the offset of the line that parse_content was given. -/
structure Look where
  line : Nat
  checked : Nat
  arrived : Nat
  length : Int
  deriving DecidableEq

def Look.passes (look : Look) : Prop := toInt (look.length + look.checked) ≤ look.arrived

instance (look : Look) : Decidable look.passes := inferInstanceAs (Decidable (_ ≤ _))

structure Reading where
  verdict : Verdict
  reader : Reader
  looks : List Look

structure BodyLoop where
  /-- line_status is LINE_OK -/
  ready : Bool
  reader : Reader
  looks : List Look

def lookAt (line : Nat) (r : Reader) : Look :=
  ⟨line, r.position, r.position + r.unread.length, r.contentLength⟩

/-- The string up to a NUL stored at an index of the buffer. -/
def Url.cutAt (index : Int) (url : Url) : Url :=
  if url.offset ≤ index then ⟨url.offset, url.string.take (index - url.offset).toNat⟩ else url

/-- parse_content with the line at `line`, `next` being the reader behind it. -/
def bodyLook (line : Nat) (next : Reader) (looks : List Look) : BodyLoop ⊕ Reading :=
  let looks := looks ++ [lookAt line next]
  if (lookAt line next).passes then
    .inr ⟨.serve, next.withUrl (next.url.map (Url.cutAt (line + next.contentLength))), looks⟩
  else .inl ⟨false, next, looks⟩

def bodyRound (loop : BodyLoop) : BodyLoop ⊕ Reading :=
  let r := loop.reader
  if loop.ready then bodyLook r.start (r.turn 0 r.unread) loop.looks
  else
    match scan r.unread with
    | .line line rest => bodyLook r.start (r.turn (line.length + 2) rest) loop.looks
    | .stopped passed rest => .inr ⟨.wait, r.stop passed rest, loop.looks⟩

def bodyMeasure (loop : BodyLoop) : Nat :=
  loop.reader.unread.length + if loop.ready then 1 else 0

theorem body_look_again {line : Nat} {next : Reader} {looks : List Look} {after : BodyLoop}
    (again : bodyLook line next looks = .inl after) :
    ¬ (lookAt line next).passes ∧ after = ⟨false, next, looks ++ [lookAt line next]⟩ := by
  unfold bodyLook at again
  dsimp only at again
  split_ifs at again with passes
  cases again
  exact ⟨passes, rfl⟩

theorem body_round_decreases : Loop.Decreases bodyRound bodyMeasure := by
  intro loop next again
  unfold bodyRound at again
  dsimp only at again
  split at again
  · next ready =>
      obtain ⟨_, rfl⟩ := body_look_again again
      simp [bodyMeasure, ready, Reader.turn]
  · next waiting =>
      split at again
      · next line rest found =>
          obtain ⟨_, rfl⟩ := body_look_again again
          have length := congrArg List.length (scan_line_split found).1
          simp only [List.length_append, List.length_cons] at length
          simp only [bodyMeasure, waiting, Reader.turn]
          simp
          omega
      · cases again

def readBody (ready : Bool) (r : Reader) : Reading :=
  Loop.run bodyRound bodyMeasure body_round_decreases ⟨ready, r, []⟩

/-- The head first, unless it is already read; then the body, if there is one. -/
def afterHead : Head → Reading
  | .waiting r => ⟨.wait, r, []⟩
  | .refused r => ⟨.refuse, r, []⟩
  | .complete r =>
      if r.contentLength = 0 then ⟨.serve, r, []⟩ else readBody true (r.toPhase .content)

def readRequest (r : Reader) : Reading :=
  if r.phase = .content then readBody true r else afterHead (readHead r)

theorem read_head_again {r next : Reader} (round : headRound r = .inl next) :
    readHead r = readHead next := Loop.run_again round

theorem read_head_return {r : Reader} {head : Head} (round : headRound r = .inr head) :
    readHead r = head := Loop.run_return round

theorem head_round_line {r : Reader} {line rest : List UInt8}
    (found : scan r.unread = .line line rest) : headRound r =
      headLine (text (r.held ++ line)) r (r.turn (line.length + 2) rest) := by
  simp only [headRound, found]

theorem head_round_stopped {r : Reader} {passed rest : List UInt8}
    (found : scan r.unread = .stopped passed rest) :
    headRound r = .inr (.waiting (r.stop passed rest)) := by
  simp only [headRound, found]

theorem head_line_never_waits {line : List UInt8} {r next after : Reader} :
    headLine line r next ≠ .inr (.waiting after) := by
  unfold headLine
  dsimp only
  split_ifs <;> simp

theorem header_line_feed (line more : List UInt8) (r : Reader) :
    headerLine line (r.feed more) = (headerLine line r).feed more := by
  unfold headerLine
  dsimp only
  split_ifs <;> rfl

def Head.feed (more : List UInt8) : Head → Head
  | .waiting r => .waiting (r.feed more)
  | .refused r => .refused (r.feed more)
  | .complete r => .complete (r.feed more)

theorem head_line_feed (line : List UInt8) (r next : Reader) (more : List UInt8) :
    headLine line r (next.feed more) =
      (headLine line r next).map (Reader.feed · more) (Head.feed more) := by
  unfold headLine
  dsimp only
  rw [header_line_feed]
  split_ifs <;> rfl

theorem head_round_feed {r : Reader} {line rest : List UInt8}
    (found : scan r.unread = .line line rest) (more : List UInt8) :
    headRound (r.feed more) = (headRound r).map (Reader.feed · more) (Head.feed more) := by
  have longer : scan (r.feed more).unread = .line line (rest ++ more) := by
    show scan (r.unread ++ more) = _
    rw [scan_append, found]
  rw [head_round_line found, head_round_line longer]
  exact head_line_feed (text (r.held ++ line)) r (r.turn (line.length + 2) rest) more

/-- The scanner at rest and the scanner before it came to rest see the same lines. -/
theorem head_round_stop {r : Reader} {passed rest : List UInt8}
    (found : scan r.unread = .stopped passed rest) (more : List UInt8) :
    headRound (r.feed more) = headRound ((r.stop passed rest).feed more) := by
  have before : scan (r.feed more).unread = (scan (rest ++ more)).after passed := by
    show scan (r.unread ++ more) = _
    rw [scan_append, found]
  have after : ((r.stop passed rest).feed more).unread = rest ++ more := rfl
  have position : ((r.stop passed rest).feed more).position = r.position + passed.length := by
    simp only [Reader.position, Reader.feed, Reader.stop, List.length_append, Nat.add_assoc]
  unfold headRound
  rw [before, after]
  cases scan (rest ++ more) with
  | line line tail =>
      have turned : (r.feed more).turn ((passed ++ line).length + 2) tail =
          ((r.stop passed rest).feed more).turn (line.length + 2) tail := by
        simp only [Reader.turn, position]
        simp only [Reader.feed, Reader.stop, Reader.position, List.length_append]
        congr 1
        omega
      simp only [Scan.after]
      rw [turned, ← List.append_assoc]
      rfl
  | stopped further tail =>
      simp only [Scan.after, Reader.stop, Reader.feed, List.append_assoc]

theorem read_head_congr {r s : Reader} (same : headRound r = headRound s) :
    readHead r = readHead s := by
  cases round : headRound s with
  | inl next => rw [read_head_again round, read_head_again (same.trans round)]
  | inr head => rw [read_head_return round, read_head_return (same.trans round)]

/-- The head is read the same way whatever pieces it arrives in. -/
theorem read_head_feed (r : Reader) (more : List UInt8) :
    readHead (r.feed more) = match readHead r with
      | .waiting after => readHead (after.feed more)
      | .refused after => .refused (after.feed more)
      | .complete after => .complete (after.feed more) := by
  refine Loop.run_induction (motive := fun (r : Reader) (head : Head) =>
    readHead (r.feed more) = match head with
      | .waiting after => readHead (after.feed more)
      | .refused after => .refused (after.feed more)
      | .complete after => .complete (after.feed more)) ?_ ?_ r
  · intro r next head round ih
    rw [← ih]
    cases found : scan r.unread with
    | stopped passed rest =>
        rw [head_round_stopped found] at round
        cases round
    | line line rest =>
        apply read_head_again
        rw [head_round_feed found, round]
        rfl
  · intro r head round
    cases found : scan r.unread with
    | stopped passed rest =>
        rw [head_round_stopped found] at round
        cases round
        exact read_head_congr (head_round_stop found more)
    | line line rest =>
        have fed := head_round_feed found more
        rw [round] at fed
        cases head with
        | waiting after =>
            rw [head_round_line found] at round
            exact absurd round head_line_never_waits
        | refused after => exact read_head_return fed
        | complete after => exact read_head_return fed

/-- The reads of one request, until process_read returns something. -/
def readChunks : Reader → List (List UInt8) → Reading
  | r, [] => ⟨.wait, r, []⟩
  | r, chunk :: rest =>
      let reading := readRequest (r.feed chunk)
      if reading.verdict = .wait then
        let later := readChunks reading.reader rest
        ⟨later.verdict, later.reader, reading.looks ++ later.looks⟩
      else reading

theorem fresh_phase (bytes : List UInt8) : (Reader.fresh.feed bytes).phase ≠ .content := by
  simp [Reader.feed, Reader.fresh]

/-- The verdict of a single call is that of the reads. -/
theorem read_once_verdict (r : Reader) (bytes : List UInt8) :
    (readRequest (r.feed bytes)).verdict = (readChunks r [bytes]).verdict := by
  unfold readChunks
  dsimp only
  split_ifs with waits
  · rw [waits]
    rfl
  · rfl

end StudyWebServer
