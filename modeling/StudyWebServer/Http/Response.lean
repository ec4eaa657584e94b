import StudyWebServer.Http.RequestParser

/-!
The response side of http_conn.cpp and the public member functions: init,
close_conn, read, the add_ functions, process_write, unmap, write and process.
The results of recv and writev come from a script, one element a call; at its
end the socket has nothing more to give or to take.
-/

namespace StudyWebServer

open ByteMemory CString MachineInt Layout

/-- The assignments of init(). -/
def resetFields (c : HttpConn) : HttpConn :=
  { c with
    checkState := .requestline
    linger := false
    method := .get
    url := .null
    version := .null
    contentLength := 0
    host := .null
    startLine := 0
    checkedIdx := 0
    readIdx := 0
    writeIdx := 0 }

/-- The second bzero has the length of m_read_buf, as in the source. -/
def init (c : HttpConn) : Outcome Unit :=
  let c := bzero readBufOffset (readBufOffset + readBufferSize) (resetFields c)
  let c := bzero writeBufOffset (writeBufOffset + readBufferSize) c
  let c := bzero realFileOffset (realFileOffset + filenameLen) c
  ⟨(), c, [.store .readBuf 0 readBufferSize, .store .writeBuf 0 readBufferSize,
    .store .realFile 0 filenameLen]⟩

/-- What init leaves: it clears the file mapping and m_iv with the rest. -/
theorem init_conn (c : HttpConn) : (init c).conn = { resetFields c with
    readBuf := zeroed readBufferSize c.readBuf
    realFile := zeroed filenameLen c.realFile
    writeBuf := zeroed writeBufferSize c.writeBuf
    fileAddress := 0
    fileStat := ⟨0, 0⟩
    iv0 := ⟨.null, 0⟩
    iv1 := ⟨.null, 0⟩
    ivCount := 0 } := by
  simp only [init, bzero_read_buf, bzero_write_buf, bzero_real_file]
  rfl

def accepted (sockfd : Int) (addr : List UInt8) (c : HttpConn) : HttpConn :=
  { c with sockfd := sockfd, address := storeList c.address 0 addr }

/-- The public init, which main calls with a new connection. -/
def initConn (sockfd : Int) (addr : List UInt8) (c : HttpConn) : Outcome Unit :=
  Outcome.andThen ⟨(), accepted sockfd addr c, [.addfd sockfd, .userCount 1]⟩ init

def closeConn (c : HttpConn) : Outcome Unit :=
  if c.sockfd ≠ -1 then
    ⟨(), { c with sockfd := -1 }, [.removefd c.sockfd, .userCount (-1)]⟩
  else ⟨(), c, []⟩

/-- What recv answers: bytes, EAGAIN, another error, or an orderly end. -/
inductive Recv where
  | data (bytes : List UInt8)
  | again
  | failed
  | ended
  deriving DecidableEq

/-- recv's bytes placed behind the ones already read. -/
def appendRead (bytes : List UInt8) (c : HttpConn) : HttpConn :=
  { c with readBuf := storeList c.readBuf c.readIdx bytes, readIdx := c.readIdx + bytes.length }

/-- recv never hands over more than there is room for. Asked for no bytes at
all it answers 0 or EAGAIN. -/
def readLoop : List Recv → HttpConn → Outcome Bool
  | [], c => ⟨true, c, []⟩
  | result :: rest, c =>
      match result with
      | .again => ⟨true, c, []⟩
      | .failed | .ended => ⟨false, c, []⟩
      | .data bytes =>
          let taken := bytes.take (readBufferSize - c.readIdx)
          if taken = [] then ⟨false, c, []⟩
          else
            let loop := readLoop rest (appendRead taken c)
            ⟨loop.ret, loop.conn, .store .readBuf c.readIdx taken.length :: loop.log⟩

def read (results : List Recv) (c : HttpConn) : Outcome Bool :=
  if readBufferSize ≤ c.readIdx then ⟨false, c, []⟩ else readLoop results c

theorem append_read_again (first second : List UInt8) (c : HttpConn) :
    appendRead second (appendRead first c) = appendRead (first ++ second) c := by
  have buffer : storeList (storeList c.readBuf c.readIdx first) (c.readIdx + first.length) second =
      storeList c.readBuf c.readIdx (first ++ second) := by
    funext key
    by_cases before : key < c.readIdx
    · rw [store_list_before _ before, store_list_before _ (by omega), store_list_before _ before]
    · simp only [storeList, List.getElem?_append]
      split_ifs <;> first | omega | skip
      · rw [List.getElem?_eq_none (by omega : first.length ≤ key - c.readIdx), Option.getD_none,
          Nat.sub_add_eq]
      · rfl
  simp only [appendRead, buffer, List.length_append, Nat.add_assoc]

theorem append_read_nil (c : HttpConn) : appendRead [] c = c := by
  have buffer : storeList c.readBuf c.readIdx [] = c.readBuf := by
    funext key
    by_cases before : key < c.readIdx
    · exact store_list_before _ before
    · exact store_list_after _ (by simp only [List.length_nil]; omega)
  simp only [appendRead, buffer, List.length_nil, Nat.add_zero]

theorem read_loop_appends (results : List Recv) (c : HttpConn) (room : c.readIdx ≤ readBufferSize) :
    ∃ bytes, (readLoop results c).conn = appendRead bytes c ∧
      c.readIdx + bytes.length ≤ readBufferSize := by
  induction results generalizing c with
  | nil => exact ⟨[], (append_read_nil c).symm, room⟩
  | cons result rest ih =>
      cases result with
      | again => exact ⟨[], (append_read_nil c).symm, room⟩
      | failed => exact ⟨[], (append_read_nil c).symm, room⟩
      | ended => exact ⟨[], (append_read_nil c).symm, room⟩
      | data bytes =>
          by_cases none : bytes.take (readBufferSize - c.readIdx) = []
          · refine ⟨[], ?_, room⟩
            simp only [readLoop, none, ↓reduceIte, append_read_nil]
          · have length : (bytes.take (readBufferSize - c.readIdx)).length ≤
                readBufferSize - c.readIdx := List.length_take_le _ _
            have step : (readLoop (.data bytes :: rest) c).conn =
                (readLoop rest (appendRead (bytes.take (readBufferSize - c.readIdx)) c)).conn := by
              simp only [readLoop, none, ↓reduceIte]
            generalize bytes.take (readBufferSize - c.readIdx) = taken at none length step
            have moved : (appendRead taken c).readIdx = c.readIdx + taken.length := rfl
            obtain ⟨more, conn, fits⟩ := ih (appendRead taken c) (by omega)
            refine ⟨taken ++ more, ?_, by rw [List.length_append]; omega⟩
            rw [step, conn, append_read_again]

/-- Whatever recv answers, read() appends bytes that fit and changes nothing else. -/
theorem read_appends (results : List Recv) (c : HttpConn) (room : c.readIdx ≤ readBufferSize) :
    ∃ bytes, (read results c).conn = appendRead bytes c ∧
      c.readIdx + bytes.length ≤ readBufferSize := by
  unfold read
  split_ifs with full
  · exact ⟨[], (append_read_nil c).symm, room⟩
  · exact read_loop_appends results c room

/-- `add_response` with the text that vsnprintf makes of its arguments. What
does not fit is cut, with a NUL in the last byte of the size given. -/
def addResponse (formatted : List UInt8) (c : HttpConn) : Outcome Bool :=
  if writeBufferSize ≤ c.writeIdx then ⟨false, c, []⟩
  else
    let size := writeBufferSize - 1 - c.writeIdx
    let written := if size = 0 then [] else formatted.take (size - 1) ++ [0]
    let log := [.store .writeBuf c.writeIdx written.length]
    let c := { c with writeBuf := storeList c.writeBuf c.writeIdx written }
    if size ≤ formatted.length then ⟨false, c, log⟩
    else ⟨true, { c with writeIdx := c.writeIdx + formatted.length }, log⟩

/-- `%d` -/
def decimal (value : Int) : List UInt8 :=
  (if value < 0 then [45] else []) ++
    (Nat.toDigits 10 value.natAbs).map fun digit => digit.toNat.toUInt8

def crlf : List UInt8 := [13, 10]

def addStatusLine (status : Int) (title : List UInt8) : HttpConn → Outcome Bool :=
  addResponse (ascii "HTTP/1.1" ++ ascii " " ++ decimal status ++ ascii " " ++ title ++ crlf)

def addContentLength (contentLen : Int) : HttpConn → Outcome Bool :=
  addResponse (ascii "Content-Length: " ++ decimal contentLen ++ crlf)

def addContentType : HttpConn → Outcome Bool :=
  addResponse (ascii "Content-Type:" ++ ascii "text/html" ++ crlf)

def lingerText (linger : Bool) : List UInt8 :=
  ascii "Connection: " ++ (if linger then ascii "keep-alive" else ascii "close") ++ crlf

def addLinger (c : HttpConn) : Outcome Bool := addResponse (lingerText c.linger) c

def addBlankLine : HttpConn → Outcome Bool := addResponse crlf

def addContent (content : List UInt8) : HttpConn → Outcome Bool := addResponse content

/-- The function has no return statement; nothing reads its value. -/
def addHeaders (contentLen : Int) (c : HttpConn) : Outcome Bool :=
  (((addContentLength contentLen c).andThen addContentType).andThen addLinger).andThen addBlankLine

def setIov (c : HttpConn) : HttpConn :=
  { c with iv0 := ⟨.writeBuf, c.writeIdx⟩, ivCount := 1 }

def setIovFile (c : HttpConn) : HttpConn :=
  { c with
    iv0 := ⟨.writeBuf, c.writeIdx⟩
    iv1 := ⟨.file c.fileAddress, c.fileStat.stSize⟩
    ivCount := 2 }

/-- The branch of process_write for an answer without a file. -/
def writeForm (status : Int) (title form : List UInt8) (c : HttpConn) : Outcome Bool :=
  let body := ((addStatusLine status title c).andThen (addHeaders (toInt form.length))).andThen
    (addContent form)
  if body.ret then ⟨true, setIov body.conn, body.log⟩ else ⟨false, body.conn, body.log⟩

def error400Form : List UInt8 :=
  ascii "Your request has bad syntax or is inherently impossible to satisfy.\n"
def error403Form : List UInt8 :=
  ascii "You do not have permission to get file from this server.\n"
def error404Form : List UInt8 := ascii "The requested file was not found on this server.\n"
def error500Form : List UInt8 :=
  ascii "There was an unusual problem serving the requested file.\n"

def processWrite (ret : HttpCode) (c : HttpConn) : Outcome Bool :=
  match ret with
  | .internalError => writeForm 500 (ascii "Internal Error") error500Form c
  | .badRequest => writeForm 400 (ascii "Bad Request") error400Form c
  | .noResource => writeForm 404 (ascii "Not Found") error404Form c
  | .forbiddenRequest => writeForm 403 (ascii "Forbidden") error403Form c
  | .fileRequest =>
      let head := (addStatusLine 200 (ascii "OK") c).andThen
        (addHeaders (toInt c.fileStat.stSize))
      ⟨true, setIovFile head.conn, head.log⟩
  | .noRequest | .getRequest | .closedConnection => ⟨false, c, []⟩

/-- munmap of `MAP_FAILED` is refused and releases nothing. -/
def unmap (c : HttpConn) : Outcome Unit :=
  if c.fileAddress ≠ 0 then
    ⟨(), { c with fileAddress := 0 },
      if c.fileAddress = mapFailed then [] else [.munmap c.fileAddress c.fileStat.stSize]⟩
  else ⟨(), c, []⟩

/-- What writev returns, and whether errno is EAGAIN behind it. -/
structure Writev where
  ret : Int
  again : Bool
  deriving DecidableEq

def iovBytes (pages : Memory) (c : HttpConn) (iov : IoVec) : List SentByte :=
  match iov.base with
  | .writeBuf => (List.range iov.len).map fun k => ⟨.writeBuf, k, c.writeBuf k⟩
  | .file address => (List.range iov.len).map fun k => ⟨.file address, k, pages (address + k)⟩
  | .null | .wild => []

/-- The bytes that m_iv describes. -/
def gathered (pages : Memory) (c : HttpConn) : List SentByte :=
  if c.ivCount = 1 then iovBytes pages c c.iv0
  else if c.ivCount = 2 then iovBytes pages c c.iv0 ++ iovBytes pages c c.iv1
  else []

/-- The end of write(), with all that is to be sent counted as sent. -/
def finishWrite (c : HttpConn) : Outcome Bool :=
  let released := unmap c
  if released.conn.linger then
    let fresh := released.andThen init
    ⟨true, fresh.conn, fresh.log ++ [.modfd fresh.conn.sockfd .epollin]⟩
  else ⟨false, released.conn, released.log ++ [.modfd released.conn.sockfd .epollin]⟩

/-- A count that does not fit an `int` is taken for the error it looks like. -/
def writeLoop (pages : Memory) : List Writev → (bytesToSend bytesHaveSend : Int) → HttpConn →
    Outcome Bool
  | [], _, _, c => ⟨true, c, [.modfd c.sockfd .epollout]⟩
  | result :: rest, bytesToSend, bytesHaveSend, c =>
      let taken :=
        if 0 < result.ret then [.sent ((gathered pages c).take result.ret.toNat)] else []
      let temp := toInt result.ret
      let next :=
        if temp ≤ -1 then
          if result.again then ⟨true, c, [.modfd c.sockfd .epollout]⟩
          else ⟨false, (unmap c).conn, (unmap c).log⟩
        else
          let bytesToSend := toInt (bytesToSend - temp)
          let bytesHaveSend := toInt (bytesHaveSend + temp)
          if bytesToSend ≤ bytesHaveSend then finishWrite c
          else writeLoop pages rest bytesToSend bytesHaveSend c
      ⟨next.ret, next.conn, taken ++ next.log⟩

def write (pages : Memory) (results : List Writev) (c : HttpConn) : Outcome Bool :=
  if c.writeIdx = 0 then
    let fresh := init c
    ⟨true, fresh.conn, .modfd c.sockfd .epollin :: fresh.log⟩
  else writeLoop pages results c.writeIdx 0 c

/-- process() between process_read and the last modfd: the response, or no
connection any more. -/
def respond (ret : HttpCode) (c : HttpConn) : Outcome Unit :=
  let written := processWrite ret c
  if written.ret then ⟨(), written.conn, written.log⟩ else written.andThen closeConn

def process (fs : FileSystem) (c : HttpConn) : Outcome Unit :=
  let parsed := processRead fs c
  if parsed.ret = .noRequest then
    ⟨(), parsed.conn, parsed.log ++ [.modfd parsed.conn.sockfd .epollin]⟩
  else
    let done := parsed.andThen (respond parsed.ret)
    ⟨(), done.conn, done.log ++ [.modfd done.conn.sockfd .epollout]⟩

end StudyWebServer
