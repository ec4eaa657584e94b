import StudyWebServer.Http.Response

/-!
process_read of lesson05/http_conn.cpp and what it calls. The object has the
fields of the later one and parse_line is the same text, so both are taken from
there. The loop can go round for ever: process_read takes a number of rounds and
has no value when they do not suffice.
-/

namespace StudyWebServer.Lesson05

open ByteMemory CString MachineInt

def filenameLen : Nat := 1024

def tab : List UInt8 := ascii "\t"

def init (c : HttpConn) : HttpConn :=
  { resetFields c with
    readBuf := zeroed readBufferSize c.readBuf
    writeBuf := zeroed writeBufferSize c.writeBuf
    realFile := zeroed filenameLen c.realFile }

structure Parsed where
  ret : HttpCode
  conn : HttpConn

/-- The strings end at the end of m_read_buf at the latest: m_read_idx follows
it, and that of a full buffer begins with a NUL byte. -/
def parseRequestLine (text : Nat) (c : HttpConn) : Parsed :=
  match strpbrk (stringAt c.readBuf text) tab with
  | none => ⟨.badRequest, { c with url := .null }⟩
  | some first =>
      let cut := store c.readBuf (text + first) 0
      let url := text + first + 1
      let c := { c with readBuf := cut, url := .readBuf url }
      if strcasecmpEq (stringAt cut text) (ascii "GET") then
        let c := { c with method := .get }
        match strpbrk (stringAt cut url) tab with
        | none => ⟨.badRequest, { c with version := .null }⟩
        | some second =>
            let cut := store cut (url + second) 0
            let version := url + second + 1
            let c := { c with readBuf := cut, version := .readBuf version }
            if strcasecmpEq (stringAt cut version) (ascii "HTTP/1.1") then
              if strncasecmpEq (stringAt cut url) (ascii "http://") 7 then
                match strchr (stringAt cut (url + 7)) 47 with
                | none => ⟨.badRequest, { c with url := .null }⟩
                | some slash =>
                    ⟨.noRequest, { c with
                      url := .readBuf (url + 7 + slash), checkState := .header }⟩
              else if cut url = 47 then ⟨.noRequest, { c with checkState := .header }⟩
              else ⟨.badRequest, c⟩
            else ⟨.badRequest, c⟩
      else ⟨.badRequest, c⟩

/-- The test for an empty line assigns: its first byte becomes a NUL, and the
branch behind the test, that of the end of the head, is never taken. -/
def parseHeaders (text : Nat) (c : HttpConn) : Parsed :=
  let c := { c with readBuf := store c.readBuf text 0 }
  let line := stringAt c.readBuf text
  if strncasecmpEq line (ascii "Connection:") 11 then
    let value := line.drop 11
    let value := value.drop (strspn value tab)
    if strcasecmpEq value (ascii "keep-alive") then ⟨.noRequest, { c with linger := true }⟩
    else ⟨.noRequest, c⟩
  else if strncasecmpEq line (ascii "Content-Length:") 15 then
    let value := line.drop 15
    let value := value.drop (strspn value tab)
    ⟨.noRequest, { c with contentLength := toInt (atol value) }⟩
  else if strncasecmpEq line (ascii "Host:") 5 then
    let value := line.drop 5
    ⟨.noRequest, { c with host := .readBuf (text + 5 + strspn value tab) }⟩
  else ⟨.noRequest, c⟩

/-- A byte stored at an index of m_read_buf. An index outside it is left out of
the model, since no reachable state gets to the body of a request. -/
def storeIndex (buffer : Memory) (index : Int) : Memory :=
  if 0 ≤ index ∧ index < readBufferSize then store buffer index.toNat 0 else buffer

def parseContent (text : Nat) (c : HttpConn) : Parsed :=
  if toInt (c.contentLength + c.checkedIdx) ≤ c.readIdx then
    ⟨.getRequest, { c with readBuf := storeIndex c.readBuf (text + c.contentLength) }⟩
  else ⟨.noResource, c⟩

def docRoot : List UInt8 := ascii "/home/ronnyz/Documents/Project/lesson05/resources"

def doRequest (fs : FileSystem) (c : HttpConn) : Parsed :=
  let url := strncpyBytes (urlString fs c) (filenameLen - docRoot.length - 1)
  let realFile := storeList (storeList c.realFile 0 (docRoot ++ [0])) docRoot.length url
  let path := cstr realFile filenameLen 0
  let c := { c with realFile := realFile }
  match fs.stat path with
  | none => ⟨.noResource, c⟩
  | some stat =>
      let c := { c with fileStat := stat }
      -- S_IROTH, then S_ISDIR
      if stat.stMode &&& 4 = 0 then ⟨.forbiddenRequest, c⟩
      else if stat.stMode &&& 61440 = 16384 then ⟨.badRequest, c⟩
      else ⟨.fileRequest, { c with fileAddress := fs.mmap path stat.stSize }⟩

/-- How the loop of process_read is left. -/
inductive Exit where
  | reports (code : HttpCode) (conn : HttpConn)
  /-- `return do_request()` -/
  | request (conn : HttpConn)

def Exit.finish (fs : FileSystem) : Exit → Parsed
  | .reports code conn => ⟨code, conn⟩
  | .request conn => doRequest fs conn

/-- The variables of process_read between two rounds of its loop. -/
structure ReadLoop where
  lineStatus : LineStatus
  conn : HttpConn

/-- The loop condition and the object behind it. The result of parse_line is
compared with line_status where it should be assigned, and the truth of that is
compared with LINE_OK, which is 0. -/
def nextLine (loop : ReadLoop) : Bool × HttpConn :=
  if loop.conn.checkState = .content ∧ loop.lineStatus = .lineOk then (true, loop.conn)
  else
    let line := parseLine loop.conn
    (loop.lineStatus ≠ line.ret, line.conn)

/-- The switch of process_read. A value on the left goes round again. -/
def handleLine (lineStatus : LineStatus) (text : Nat) (c : HttpConn) : ReadLoop ⊕ Exit :=
  match c.checkState with
  | .requestline =>
      let parsed := parseRequestLine text c
      if parsed.ret = .badRequest then .inr (.reports .badRequest parsed.conn)
      else .inl ⟨lineStatus, parsed.conn⟩
  | .header =>
      let parsed := parseHeaders text c
      if parsed.ret = .badRequest then .inr (.reports .badRequest parsed.conn)
      else if parsed.ret = .getRequest then .inr (.request parsed.conn)
      else .inl ⟨lineStatus, parsed.conn⟩
  | .content =>
      let parsed := parseContent text c
      if parsed.ret = .getRequest then .inr (.request parsed.conn)
      else .inl ⟨.lineOpen, parsed.conn⟩

def readRound (loop : ReadLoop) : ReadLoop ⊕ Exit :=
  let (again, c) := nextLine loop
  if again then handleLine loop.lineStatus c.startLine (startNextLine c)
  else .inr (.reports .noRequest c)

def processRead (fs : FileSystem) (rounds : Nat) (c : HttpConn) : Option Parsed :=
  (Loop.attempt readRound rounds ⟨.lineOk, c⟩).map (Exit.finish fs)

section Handlers

/-- What parse_request_line makes of the object: tabs become NULs. -/
structure LineCut (c d : HttpConn) : Prop where
  start : d.startLine = c.startLine
  checked : d.checkedIdx = c.checkedIdx
  arrived : d.readIdx = c.readIdx
  bytes : ∀ key, d.readBuf key = c.readBuf key ∨ c.readBuf key = 9 ∧ d.readBuf key = 0

theorem tab_found {buffer : Memory} {text offset : Nat}
    (found : strpbrk (stringAt buffer text) tab = some offset) : buffer (text + offset) = 9 := by
  obtain ⟨-, -, inside, hit⟩ := strpbrk_some found
  have same : (stringAt buffer text)[offset] = buffer (text + offset) := cstr_get offset inside
  have only : tab = [9] := by decide
  rw [same, only] at hit
  simpa using hit

theorem store_tab {buffer other : Memory} {index : Nat} (tabbed : buffer index = 9)
    (before : ∀ key, buffer key = other key ∨ other key = 9 ∧ buffer key = 0) (key : Nat) :
    store buffer index 0 key = other key ∨ other key = 9 ∧ store buffer index 0 key = 0 := by
  by_cases same : key = index
  · subst same
    rcases before key with kept | ⟨-, zero⟩
    · exact .inr ⟨kept.symm.trans tabbed, store_same 0⟩
    · rw [tabbed] at zero
      cases zero
  · rw [store_other 0 same]
    exact before key

theorem parse_request_line_cut (text : Nat) (c : HttpConn) :
    LineCut c (parseRequestLine text c).conn := by
  have kept : ∀ key, c.readBuf key = c.readBuf key ∨ c.readBuf key = 9 ∧ c.readBuf key = 0 :=
    fun key => .inl rfl
  unfold parseRequestLine
  dsimp only
  split
  · exact ⟨rfl, rfl, rfl, kept⟩
  · next first found =>
      have once := store_tab (tab_found found) kept
      split
      · split
        · exact ⟨rfl, rfl, rfl, once⟩
        · next second again =>
            have twice := store_tab (tab_found again) once
            split
            · split
              · split <;> exact ⟨rfl, rfl, rfl, twice⟩
              · split <;> exact ⟨rfl, rfl, rfl, twice⟩
            · exact ⟨rfl, rfl, rfl, twice⟩
      · exact ⟨rfl, rfl, rfl, once⟩

theorem parse_request_line_ret (text : Nat) (c : HttpConn) :
    (parseRequestLine text c).ret = .badRequest ∧
      (parseRequestLine text c).conn.checkState = c.checkState ∨
    (parseRequestLine text c).ret = .noRequest ∧
      (parseRequestLine text c).conn.checkState = .header := by
  unfold parseRequestLine
  dsimp only
  repeat' (first | exact .inl ⟨rfl, rfl⟩ | exact .inr ⟨rfl, rfl⟩ | split)

/-- The verdict on a line is one on the bytes of the buffer. -/
theorem parse_request_line_same (text : Nat) {c d : HttpConn} (same : c.readBuf = d.readBuf) :
    (parseRequestLine text c).ret = (parseRequestLine text d).ret := by
  unfold parseRequestLine
  rw [same]
  dsimp only
  repeat' (first | rfl | split)

/-- Whatever the line holds, it is an empty one with an unknown header. -/
theorem parse_headers_eq (text : Nat) (c : HttpConn) :
    parseHeaders text c = ⟨.noRequest, { c with readBuf := store c.readBuf text 0 }⟩ := by
  have empty : stringAt (store c.readBuf text 0) text = [] := by
    by_cases inside : text < readBufferSize
    · exact (cstr_terminated (store_same 0) (show text + 0 < _ by omega)).trans rfl
    · rw [stringAt, cstr, Nat.sub_eq_zero_of_le (Nat.le_of_not_lt inside)]
      rfl
  unfold parseHeaders
  dsimp only
  rw [empty]
  rfl

end Handlers

end StudyWebServer.Lesson05
