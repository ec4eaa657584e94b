import StudyWebServer.Library.CString
import StudyWebServer.Library.Loop
import StudyWebServer.Http.Connection

/-!
The request side of http_conn.cpp: parse_line, the three line handlers, the
main state machine process_read and do_request. A `char*` into m_read_buf is
its offset. The printf calls of the source are left out.
-/

namespace StudyWebServer

open ByteMemory CString MachineInt Layout

/-- The line end at `index` replaced by two NULs, the scanner set behind it. -/
def cutLine (c : HttpConn) (index : Nat) : HttpConn :=
  { c with readBuf := store (store c.readBuf index 0) (index + 1) 0, checkedIdx := index + 2 }

def advance (c : HttpConn) : HttpConn := { c with checkedIdx := c.checkedIdx + 1 }

/-- The loop of parse_line with `count` bytes between m_checked_idx and m_read_idx. -/
def parseLineFrom : Nat → HttpConn → Outcome LineStatus
  | 0, c => ⟨.lineOpen, c, []⟩
  | count + 1, c =>
      let here := c.checkedIdx
      let temp := c.readBuf here
      if temp = 13 then
        if here + 1 = c.readIdx then ⟨.lineOpen, c, [.load here]⟩
        else if c.readBuf (here + 1) = 10 then
          ⟨.lineOk, cutLine c here,
            [.load here, .load (here + 1), .store .readBuf here 1, .store .readBuf (here + 1) 1]⟩
        else ⟨.lineBad, c, [.load here, .load (here + 1)]⟩
      else if temp = 10 then
        if 1 < here then
          if c.readBuf (here - 1) = 13 then
            ⟨.lineOk, cutLine c (here - 1),
              [.load here, .load (here - 1), .store .readBuf (here - 1) 1, .store .readBuf here 1]⟩
          else ⟨.lineBad, c, [.load here, .load (here - 1)]⟩
        else ⟨.lineBad, c, [.load here]⟩
      else
        let rest := parseLineFrom count (advance c)
        ⟨rest.ret, rest.conn, .load here :: rest.log⟩

def parseLine (c : HttpConn) : Outcome LineStatus := parseLineFrom (c.readIdx - c.checkedIdx) c

/-- The C string that starts at an offset of m_read_buf. -/
def stringAt (buffer : Memory) (offset : Nat) : List UInt8 := cstr buffer readBufferSize offset

/-- The bytes of that string and its terminator being read. -/
def readString (buffer : Memory) (offset : Nat) : List Effect :=
  (List.range ((stringAt buffer offset).length + 1)).map fun k => .load ((offset + k : Nat) : Int)

def blanks : List UInt8 := ascii " \t"

def parseRequestLine (text : Nat) (c : HttpConn) : Outcome HttpCode :=
  let line := stringAt c.readBuf text
  match strpbrk line blanks with
  | none => ⟨.badRequest, { c with url := .null }, readString c.readBuf text⟩
  | some first =>
      let cut := store c.readBuf (text + first) 0
      let url := text + first + 1
      let c := { c with readBuf := cut, url := .readBuf url }
      let log := readString c.readBuf text ++ [.store .readBuf ((text + first : Nat) : Int) 1]
      if strcasecmpEq (stringAt cut text) (ascii "GET") then
        let c := { c with method := .get }
        match strpbrk (stringAt cut url) blanks with
        | none => ⟨.badRequest, { c with version := .null }, log ++ readString cut url⟩
        | some second =>
            let cut := store cut (url + second) 0
            let version := url + second + 1
            let c := { c with readBuf := cut, version := .readBuf version }
            let log := log ++ readString c.readBuf url ++
              [.store .readBuf ((url + second : Nat) : Int) 1] ++ readString cut version
            if strcasecmpEq (stringAt cut version) (ascii "HTTP/1.1") then
              if strncasecmpEq (stringAt cut url) (ascii "http://") 7 then
                match strchr (stringAt cut (url + 7)) 47 with
                | none => ⟨.badRequest, { c with url := .null }, log⟩
                | some slash =>
                    ⟨.noRequest, { c with
                      url := .readBuf (url + 7 + slash), checkState := .header }, log⟩
              else if cut url = 47 then ⟨.noRequest, { c with checkState := .header }, log⟩
              else ⟨.badRequest, c, log⟩
            else ⟨.badRequest, c, log⟩
      else ⟨.badRequest, c, log⟩

def parseHeaders (text : Nat) (c : HttpConn) : Outcome HttpCode :=
  let line := stringAt c.readBuf text
  let log := readString c.readBuf text
  if c.readBuf text = 0 then
    if c.contentLength ≠ 0 then ⟨.noRequest, { c with checkState := .content }, log⟩
    else ⟨.getRequest, c, log⟩
  else if strncasecmpEq line (ascii "Connection:") 11 then
    let value := line.drop 11
    let value := value.drop (strspn value blanks)
    if strcasecmpEq value (ascii "keep-alive") then ⟨.noRequest, { c with linger := true }, log⟩
    else ⟨.noRequest, c, log⟩
  else if strncasecmpEq line (ascii "Content-Length:") 15 then
    let value := line.drop 15
    let value := value.drop (strspn value blanks)
    -- atol gives a long, m_content_length is an int
    ⟨.noRequest, { c with contentLength := toInt (atol value) }, log⟩
  else if strncasecmpEq line (ascii "Host:") 5 then
    let value := line.drop 5
    ⟨.noRequest, { c with host := .readBuf (text + 5 + strspn value blanks) }, log⟩
  else ⟨.noRequest, c, log⟩

/-- The addition wraps, and `text[m_content_length]` is a byte of the object, of
another slot or of neither, wherever the sign-extended index leads. What is here
is for a process that lives through the store; `Lands` says whether it does. -/
def parseContent (text : Nat) (c : HttpConn) : Outcome HttpCode :=
  let needed := c.contentLength + c.checkedIdx
  if toInt needed ≤ c.readIdx then
    let index := text + c.contentLength
    ⟨.getRequest, bzero (readBufOffset + index) (readBufOffset + index + 1) c,
      [.sum needed, .store .readBuf index 1]⟩
  else ⟨.noRequest, c, [.sum needed]⟩

def docRoot : List UInt8 := ascii "/home/ronnyz/Documents/Project/webserver/resources"

/-- `MAP_FAILED`, that is `(void*)-1` -/
def mapFailed : Nat := 18446744073709551615

/-- What stat, open and mmap answer, by path, and what memory around the object
the process may write. mmap is called with a null hint and never answers with the
null address. -/
structure FileSystem where
  stat : List UInt8 → Option FileStat
  mmap : List UInt8 → Nat → Nat
  mmap_ne_null : ∀ path length, mmap path length ≠ 0
  /-- the bytes of mapped files, by address -/
  pages : Memory
  /-- the string behind a pointer that does not point into m_read_buf -/
  elsewhere : List UInt8
  /-- the bytes outside of the object that may be written, by their distance from its start -/
  writable : Int → Bool

/-- A disk without files. The object has another slot of users on either side. -/
def FileSystem.empty : FileSystem where
  stat _ := none
  mmap _ _ := mapFailed
  mmap_ne_null _ _ := by decide
  pages _ := 0
  elsewhere := []
  writable place := decide (-(objectSize : Int) ≤ place ∧ place < 2 * objectSize)

/-- A disk may map every file at the one address 4096. -/
theorem one_page_mapped (_path : List UInt8) (_length : Nat) : 4096 ≠ 0 := by decide

/-- A byte of the object, or one that the process may write outside of it. -/
def FileSystem.MayWrite (fs : FileSystem) (place : Int) : Prop :=
  (0 ≤ place ∧ place < objectSize) ∨ fs.writable place = true

instance (fs : FileSystem) : DecidablePred fs.MayWrite := fun _ =>
  inferInstanceAs (Decidable (_ ∨ _))

/-- The process lives through it. Any other store is its end, and the end of the
call that makes it. -/
def Effect.Lands (fs : FileSystem) : Effect → Prop
  | .store array index count => ∀ k < count, fs.MayWrite (array.offset + index + k)
  | _ => True

def Lands (fs : FileSystem) (log : List Effect) : Prop := ∀ effect ∈ log, effect.Lands fs

def urlString (fs : FileSystem) (c : HttpConn) : List UInt8 :=
  match c.url with
  | .readBuf offset => stringAt c.readBuf offset
  | .null | .wild => fs.elsewhere

/-- The path in m_real_file. -/
def realPath (c : HttpConn) : List UInt8 := cstr c.realFile filenameLen 0

/-- strncpy: the string cut or padded to exactly `count` bytes. -/
def strncpyBytes (string : List UInt8) (count : Nat) : List UInt8 :=
  (string ++ List.replicate count 0).take count

def copyRealFile (url : List UInt8) (realFile : Memory) : Memory :=
  storeList (storeList realFile 0 (docRoot ++ [0])) docRoot.length
    (strncpyBytes url (filenameLen - docRoot.length - 1))

def doRequest (fs : FileSystem) (c : HttpConn) : Outcome HttpCode :=
  let c := { c with realFile := copyRealFile (urlString fs c) c.realFile }
  let copies := [.store .realFile 0 (docRoot.length + 1),
    .store .realFile docRoot.length (filenameLen - docRoot.length - 1)]
  match fs.stat (realPath c) with
  | none => ⟨.noResource, c, copies⟩
  | some stat =>
      let c := { c with fileStat := stat }
      -- S_IROTH, then S_ISDIR
      if stat.stMode &&& 4 = 0 then ⟨.forbiddenRequest, c, copies⟩
      else if stat.stMode &&& 61440 = 16384 then ⟨.badRequest, c, copies⟩
      else
        let address := fs.mmap (realPath c) stat.stSize
        let mapped := if address = mapFailed then [] else [.mmap address stat.stSize]
        ⟨.fileRequest, { c with fileAddress := address }, copies ++ mapped⟩

/-- The variables of process_read between two rounds of its loop. -/
structure ReadLoop where
  lineStatus : LineStatus
  conn : HttpConn
  log : List Effect

/-- The loop condition: its value in `ret`, with what parse_line did to get it. -/
def nextLine (loop : ReadLoop) : Outcome LineStatus :=
  if loop.conn.checkState = .content ∧ loop.lineStatus = .lineOk then ⟨.lineOk, loop.conn, []⟩
  else parseLine loop.conn

/-- get_line and the assignment behind it: the next line begins where the
scanner stands. -/
def startNextLine (c : HttpConn) : HttpConn := { c with startLine := c.checkedIdx }

/-- The switch of process_read. A value on the left goes round again. -/
def handleLine (fs : FileSystem) (text : Nat) (c : HttpConn) : ReadLoop ⊕ Outcome HttpCode :=
  match c.checkState with
  | .requestline =>
      let parsed := parseRequestLine text c
      if parsed.ret = .badRequest then .inr parsed else .inl ⟨.lineOk, parsed.conn, parsed.log⟩
  | .header =>
      let parsed := parseHeaders text c
      if parsed.ret = .badRequest then .inr parsed
      else if parsed.ret = .getRequest then .inr (parsed.andThen (doRequest fs))
      else .inl ⟨.lineOk, parsed.conn, parsed.log⟩
  | .content =>
      let parsed := parseContent text c
      if parsed.ret = .getRequest then .inr (parsed.andThen (doRequest fs))
      else .inl ⟨.lineOpen, parsed.conn, parsed.log⟩

def logged (log : List Effect) : ReadLoop ⊕ Outcome HttpCode → ReadLoop ⊕ Outcome HttpCode
  | .inl next => .inl { next with log := log ++ next.log }
  | .inr done => .inr { done with log := log ++ done.log }

def readRound (fs : FileSystem) (loop : ReadLoop) : ReadLoop ⊕ Outcome HttpCode :=
  let line := nextLine loop
  let log := loop.log ++ line.log
  if line.ret = .lineOk then
    logged log (handleLine fs line.conn.startLine (startNextLine line.conn))
  else .inr ⟨.noRequest, line.conn, log⟩

/-- Unread bytes count twice, so that a round in the body that reads none but
gives up LINE_OK still counts. -/
def readMeasure (loop : ReadLoop) : Nat :=
  2 * (loop.conn.readIdx - loop.conn.checkedIdx) + if loop.lineStatus = .lineOk then 1 else 0

section ParseLine
variable {count : Nat} {c : HttpConn}

theorem parse_line_plain (noCr : c.readBuf c.checkedIdx ≠ 13)
    (noLf : c.readBuf c.checkedIdx ≠ 10) :
    parseLineFrom (count + 1) c =
      ⟨(parseLineFrom count (advance c)).ret, (parseLineFrom count (advance c)).conn,
        .load c.checkedIdx :: (parseLineFrom count (advance c)).log⟩ := by
  simp [parseLineFrom, noCr, noLf]

theorem parse_line_cr_end (cr : c.readBuf c.checkedIdx = 13)
    (last : c.checkedIdx + 1 = c.readIdx) :
    parseLineFrom (count + 1) c = ⟨.lineOpen, c, [.load c.checkedIdx]⟩ := by
  simp only [parseLineFrom, cr, last, ↓reduceIte]

theorem parse_line_pair (cr : c.readBuf c.checkedIdx = 13)
    (more : c.checkedIdx + 1 ≠ c.readIdx) (lf : c.readBuf (c.checkedIdx + 1) = 10) :
    parseLineFrom (count + 1) c = ⟨.lineOk, cutLine c c.checkedIdx,
      [.load c.checkedIdx, .load (c.checkedIdx + 1), .store .readBuf c.checkedIdx 1,
        .store .readBuf (c.checkedIdx + 1) 1]⟩ := by
  simp only [parseLineFrom, cr, more, lf, ↓reduceIte]

theorem parse_line_cr_bad (cr : c.readBuf c.checkedIdx = 13)
    (more : c.checkedIdx + 1 ≠ c.readIdx) (noLf : c.readBuf (c.checkedIdx + 1) ≠ 10) :
    parseLineFrom (count + 1) c =
      ⟨.lineBad, c, [.load c.checkedIdx, .load (c.checkedIdx + 1)]⟩ := by
  simp only [parseLineFrom, cr, more, noLf, ↓reduceIte]

theorem parse_line_lf_pair (lf : c.readBuf c.checkedIdx = 10) (later : 1 < c.checkedIdx)
    (cr : c.readBuf (c.checkedIdx - 1) = 13) :
    parseLineFrom (count + 1) c = ⟨.lineOk, cutLine c (c.checkedIdx - 1),
      [.load c.checkedIdx, .load (c.checkedIdx - 1), .store .readBuf (c.checkedIdx - 1) 1,
        .store .readBuf c.checkedIdx 1]⟩ := by
  have noCr : c.readBuf c.checkedIdx ≠ 13 := by rw [lf]; decide
  simp only [parseLineFrom, if_neg noCr, if_pos lf, if_pos later, if_pos cr]

/-- A line feed with no return before it. The byte before it is read only from
index 2 on. -/
theorem parse_line_lf_bad (lf : c.readBuf c.checkedIdx = 10)
    (noCr : 1 < c.checkedIdx → c.readBuf (c.checkedIdx - 1) ≠ 13) :
    parseLineFrom (count + 1) c = ⟨.lineBad, c, if 1 < c.checkedIdx then
      [.load c.checkedIdx, .load (c.checkedIdx - 1)] else [.load c.checkedIdx]⟩ := by
  have here : c.readBuf c.checkedIdx ≠ 13 := by rw [lf]; decide
  by_cases later : 1 < c.checkedIdx
  · simp only [parseLineFrom, if_neg here, if_pos lf, if_pos later, if_neg (noCr later)]
  · simp only [parseLineFrom, if_neg here, if_pos lf, if_neg later]

end ParseLine

theorem parse_line_from_advances (count : Nat) (c : HttpConn)
    (unread : count = c.readIdx - c.checkedIdx)
    (complete : (parseLineFrom count c).ret = .lineOk) :
    c.checkedIdx < (parseLineFrom count c).conn.checkedIdx ∧
    (parseLineFrom count c).conn.checkedIdx ≤ c.readIdx ∧
    (parseLineFrom count c).conn.readIdx = c.readIdx := by
  induction count generalizing c with
  | zero => simp [parseLineFrom] at complete
  | succ count ih =>
      by_cases cr : c.readBuf c.checkedIdx = 13
      · by_cases last : c.checkedIdx + 1 = c.readIdx
        · rw [parse_line_cr_end cr last] at complete
          cases complete
        · by_cases lf : c.readBuf (c.checkedIdx + 1) = 10
          · rw [parse_line_pair cr last lf]
            simp only [cutLine, and_true]
            omega
          · rw [parse_line_cr_bad cr last lf] at complete
            cases complete
      · by_cases lf : c.readBuf c.checkedIdx = 10
        · by_cases paired : 1 < c.checkedIdx ∧ c.readBuf (c.checkedIdx - 1) = 13
          · rw [parse_line_lf_pair lf paired.1 paired.2]
            have later := paired.1
            simp only [cutLine, and_true]
            omega
          · rw [parse_line_lf_bad lf fun later cr => paired ⟨later, cr⟩] at complete
            cases complete
        · rw [parse_line_plain cr lf] at complete ⊢
          have moved : (advance c).checkedIdx = c.checkedIdx + 1 := rfl
          have kept : (advance c).readIdx = c.readIdx := rfl
          have rest := ih (advance c) (by rw [moved, kept]; omega) complete
          rw [moved, kept] at rest
          exact ⟨Nat.lt_of_succ_lt rest.1, rest.2⟩

theorem parse_line_advances (c : HttpConn) (complete : (parseLine c).ret = .lineOk) :
    c.checkedIdx < (parseLine c).conn.checkedIdx ∧
    (parseLine c).conn.checkedIdx ≤ c.readIdx ∧
    (parseLine c).conn.readIdx = c.readIdx :=
  parse_line_from_advances _ c rfl complete

theorem parse_request_line_indices (text : Nat) (c : HttpConn) :
    (parseRequestLine text c).conn.readIdx = c.readIdx ∧
    (parseRequestLine text c).conn.checkedIdx = c.checkedIdx := by
  unfold parseRequestLine
  repeat' (first | exact ⟨rfl, rfl⟩ | split | simp only)

theorem parse_headers_indices (text : Nat) (c : HttpConn) :
    (parseHeaders text c).conn.readIdx = c.readIdx ∧
    (parseHeaders text c).conn.checkedIdx = c.checkedIdx := by
  unfold parseHeaders
  repeat' (first | exact ⟨rfl, rfl⟩ | split | simp only)

theorem parse_content_enough (text : Nat) {c : HttpConn}
    (enough : toInt (c.contentLength + c.checkedIdx) ≤ c.readIdx) :
    parseContent text c = ⟨.getRequest,
      bzero (readBufOffset + (text + c.contentLength))
        (readBufOffset + (text + c.contentLength) + 1) c,
      [.sum (c.contentLength + c.checkedIdx), .store .readBuf (text + c.contentLength) 1]⟩ := by
  simp only [parseContent, enough, ↓reduceIte]

theorem parse_content_short (text : Nat) {c : HttpConn}
    (short : ¬ toInt (c.contentLength + c.checkedIdx) ≤ c.readIdx) :
    parseContent text c = ⟨.noRequest, c, [.sum (c.contentLength + c.checkedIdx)]⟩ := by
  simp only [parseContent, short, ↓reduceIte]

theorem parse_content_waits (text : Nat) (c : HttpConn)
    (waits : (parseContent text c).ret ≠ .getRequest) : (parseContent text c).conn = c := by
  by_cases enough : toInt (c.contentLength + c.checkedIdx) ≤ c.readIdx
  · rw [parse_content_enough text enough] at waits
    exact absurd rfl waits
  · rw [parse_content_short text enough]

/-- A line that does not end the loop leaves both indices, and in the body the
scanner has to run before the next round. -/
theorem handle_line_again {fs : FileSystem} {text : Nat} {c : HttpConn} {next : ReadLoop}
    (again : handleLine fs text c = .inl next) :
    next.conn.readIdx = c.readIdx ∧ next.conn.checkedIdx = c.checkedIdx ∧
    (c.checkState = .content → next.lineStatus = .lineOpen) := by
  unfold handleLine at again
  split at again
  · next line =>
      dsimp only at again
      split_ifs at again
      cases again
      exact ⟨(parse_request_line_indices text c).1, (parse_request_line_indices text c).2,
        fun body => by rw [line] at body; cases body⟩
  · next line =>
      dsimp only at again
      split_ifs at again
      cases again
      exact ⟨(parse_headers_indices text c).1, (parse_headers_indices text c).2,
        fun body => by rw [line] at body; cases body⟩
  · dsimp only at again
    split_ifs at again with enough
    cases again
    rw [parse_content_waits text c enough]
    exact ⟨rfl, rfl, fun _ => rfl⟩

theorem read_round_again {fs : FileSystem} {loop next : ReadLoop}
    (again : readRound fs loop = .inl next) :
    (nextLine loop).ret = .lineOk ∧ ∃ handled : ReadLoop,
      handleLine fs (nextLine loop).conn.startLine (startNextLine (nextLine loop).conn) =
        .inl handled ∧
      next = { handled with log := loop.log ++ (nextLine loop).log ++ handled.log } := by
  unfold readRound at again
  by_cases complete : (nextLine loop).ret = .lineOk
  · simp only [complete, if_true] at again
    cases line : handleLine fs (nextLine loop).conn.startLine
        (startNextLine (nextLine loop).conn) with
    | inl handled =>
        rw [line] at again
        exact ⟨complete, handled, rfl, (Sum.inl.inj again).symm⟩
    | inr done =>
        rw [line] at again
        cases again
  · simp [complete] at again

theorem read_round_decreases (fs : FileSystem) :
    Loop.Decreases (readRound fs) readMeasure := by
  intro loop next again
  obtain ⟨complete, handled, line, rfl⟩ := read_round_again again
  obtain ⟨readIdx, checkedIdx, body⟩ := handle_line_again line
  simp only [startNextLine] at readIdx checkedIdx body
  by_cases skipped : loop.conn.checkState = .content ∧ loop.lineStatus = .lineOk
  · have entered : nextLine loop = ⟨.lineOk, loop.conn, []⟩ := if_pos skipped
    rw [entered] at readIdx checkedIdx body
    simp [readMeasure, readIdx, checkedIdx, body skipped.1, skipped.2]
  · have scanned : nextLine loop = parseLine loop.conn := if_neg skipped
    rw [scanned] at complete readIdx checkedIdx
    have advanced := parse_line_advances loop.conn complete
    simp only [readMeasure, readIdx, checkedIdx, advanced.2.2]
    split_ifs <;> omega

/-- `line_status` and `m_check_state` as process_read finds them. -/
def processRead (fs : FileSystem) (c : HttpConn) : Outcome HttpCode :=
  Loop.run (readRound fs) readMeasure (read_round_decreases fs) ⟨.lineOk, c, []⟩

end StudyWebServer
