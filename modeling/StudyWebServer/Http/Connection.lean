import StudyWebServer.Library.ByteMemory
import StudyWebServer.Library.MachineInt

/-!
The connection object of webserver/http_conn.h. Fields are in the header's
order. `bzero` is a run of zero bytes over the object as the compiler lays it
out (x86-64, the layout of the checked-in binary), so a run that starts in one
member and leaves it clears the members behind it. Member functions return
their value, the object they leave and a log of what they did outside of
ordinary field assignments.
-/

namespace StudyWebServer

open ByteMemory MachineInt

def filenameLen : Nat := 200
def readBufferSize : Nat := 2048
def writeBufferSize : Nat := 1024

inductive Method where
  | get | post | head | put | delete | trace | options | connect
  deriving DecidableEq

inductive CheckState where
  | requestline | header | content
  deriving DecidableEq

inductive HttpCode where
  | noRequest | getRequest | badRequest | noResource | forbiddenRequest | fileRequest
  | internalError | closedConnection
  deriving DecidableEq

inductive LineStatus where
  | lineOk | lineBad | lineOpen
  deriving DecidableEq

/-- A `char*` member: null, or an offset in the object's own m_read_buf. Only
bytes cleared from outside make it point elsewhere. -/
inductive CharPtr where
  | null
  | readBuf (offset : Nat)
  | wild
  deriving DecidableEq

inductive IovBase where
  | null
  | writeBuf
  | file (address : Nat)
  | wild
  deriving DecidableEq

structure IoVec where
  base : IovBase
  len : Nat
  deriving DecidableEq

/-- The two members of struct stat that the server reads. -/
structure FileStat where
  stMode : Nat
  stSize : Nat
  deriving DecidableEq

structure HttpConn where
  sockfd : Int
  address : Memory
  readBuf : Memory
  readIdx : Nat
  checkedIdx : Nat
  startLine : Nat
  checkState : CheckState
  method : Method
  realFile : Memory
  url : CharPtr
  version : CharPtr
  host : CharPtr
  contentLength : Int
  linger : Bool
  writeBuf : Memory
  writeIdx : Nat
  fileAddress : Nat
  fileStat : FileStat
  iv0 : IoVec
  iv1 : IoVec
  ivCount : Nat

/-- An object of the users array before any connection used it. -/
def HttpConn.unused : HttpConn where
  sockfd := 0
  address _ := 0
  readBuf _ := 0
  readIdx := 0
  checkedIdx := 0
  startLine := 0
  checkState := .requestline
  method := .get
  realFile _ := 0
  url := .null
  version := .null
  host := .null
  contentLength := 0
  linger := false
  writeBuf _ := 0
  writeIdx := 0
  fileAddress := 0
  fileStat := ⟨0, 0⟩
  iv0 := ⟨.null, 0⟩
  iv1 := ⟨.null, 0⟩
  ivCount := 0

namespace Layout

def addressOffset : Nat := 4
def readBufOffset : Nat := 20
def readIdxOffset : Nat := 2068
def checkedIdxOffset : Nat := 2072
def startLineOffset : Nat := 2076
def checkStateOffset : Nat := 2080
def methodOffset : Nat := 2084
def realFileOffset : Nat := 2088
def urlOffset : Nat := 2288
def versionOffset : Nat := 2296
def hostOffset : Nat := 2304
def contentLengthOffset : Nat := 2312
def lingerOffset : Nat := 2316
def writeBufOffset : Nat := 2317
def writeIdxOffset : Nat := 3344
def fileAddressOffset : Nat := 3352
def stModeOffset : Nat := 3384
def stSizeOffset : Nat := 3408
def ivOffset : Nat := 3504
def ivCountOffset : Nat := 3536

/-- `sizeof(http_conn)` -/
def objectSize : Nat := 3544

end Layout

open Layout

section Clear
variable (low high : Int)

def clearArray (offset size : Nat) (array : Memory) : Memory :=
  fun index => if index < size ∧ covers low high (offset + index) then 0 else array index

def touches (offset width : Nat) : Bool :=
  (List.range width).any fun k => covers low high (offset + k)

def clearPtr (offset : Nat) (pointer : CharPtr) : CharPtr :=
  if touches low high offset 8 then
    if low ≤ offset ∧ (offset : Int) + 8 ≤ high ∨ pointer = .null then .null else .wild
  else pointer

def clearIovBase (offset : Nat) (base : IovBase) : IovBase :=
  if touches low high offset 8 then
    if low ≤ offset ∧ (offset : Int) + 8 ≤ high ∨ base = .null then .null else .wild
  else base

/-- The bytes of the object from offset `low` up to `high` set to zero. The
range may start before the object and end behind it. -/
def bzero (c : HttpConn) : HttpConn where
  sockfd := clearInt low high 0 c.sockfd
  address := clearArray low high addressOffset 16 c.address
  readBuf := clearArray low high readBufOffset readBufferSize c.readBuf
  readIdx := clearNat low high readIdxOffset 4 c.readIdx
  checkedIdx := clearNat low high checkedIdxOffset 4 c.checkedIdx
  startLine := clearNat low high startLineOffset 4 c.startLine
  checkState := if covers low high checkStateOffset then .requestline else c.checkState
  method := if covers low high methodOffset then .get else c.method
  realFile := clearArray low high realFileOffset filenameLen c.realFile
  url := clearPtr low high urlOffset c.url
  version := clearPtr low high versionOffset c.version
  host := clearPtr low high hostOffset c.host
  contentLength := clearInt low high contentLengthOffset c.contentLength
  linger := if covers low high lingerOffset then false else c.linger
  writeBuf := clearArray low high writeBufOffset writeBufferSize c.writeBuf
  writeIdx := clearNat low high writeIdxOffset 4 c.writeIdx
  fileAddress := clearNat low high fileAddressOffset 8 c.fileAddress
  fileStat := ⟨clearNat low high stModeOffset 4 c.fileStat.stMode,
    clearNat low high stSizeOffset 8 c.fileStat.stSize⟩
  iv0 := ⟨clearIovBase low high ivOffset c.iv0.base, clearNat low high (ivOffset + 8) 8 c.iv0.len⟩
  iv1 := ⟨clearIovBase low high (ivOffset + 16) c.iv1.base,
    clearNat low high (ivOffset + 24) 8 c.iv1.len⟩
  ivCount := clearNat low high ivCountOffset 4 c.ivCount

end Clear

/-- The events an epoll registration asks for, next to EPOLLRDHUP. -/
inductive Interest where
  | epollin | epollout
  deriving DecidableEq

/-- The member arrays that are written through pointers. -/
inductive MemberArray where
  | readBuf | realFile | writeBuf
  deriving DecidableEq

def MemberArray.offset : MemberArray → Nat
  | .readBuf => readBufOffset
  | .realFile => realFileOffset
  | .writeBuf => writeBufOffset

def MemberArray.size : MemberArray → Nat
  | .readBuf => readBufferSize
  | .realFile => filenameLen
  | .writeBuf => writeBufferSize

theorem array_end (array : MemberArray) : array.offset + array.size ≤ objectSize := by
  cases array <;> decide

/-- A byte the socket took, with the place it was taken from. -/
structure SentByte where
  base : IovBase
  offset : Nat
  byte : UInt8
  deriving DecidableEq

inductive Effect where
  /-- a byte of m_read_buf read by one of the parse functions -/
  | load (index : Int)
  /-- `count` bytes written, starting `index` bytes into the array named -/
  | store (array : MemberArray) (index : Int) (count : Nat)
  /-- the exact value of an `int` addition -/
  | sum (value : Int)
  | addfd (fd : Int)
  | modfd (fd : Int) (ev : Interest)
  | removefd (fd : Int)
  | userCount (change : Int)
  | sent (bytes : List SentByte)
  | mmap (address length : Nat)
  | munmap (address length : Nat)
  deriving DecidableEq

/-- Array accesses within the array that they name, `int` sums that do not overflow. -/
def Effect.InBounds : Effect → Prop
  | .load index => 0 ≤ index ∧ index < readBufferSize
  | .store array index count => 0 ≤ index ∧ index + count ≤ array.size
  | .sum value => FitsInt value
  | _ => True

instance : DecidablePred Effect.InBounds := fun effect => by
  cases effect <;> unfold Effect.InBounds <;> infer_instance

def InBounds (log : List Effect) : Prop := ∀ effect ∈ log, effect.InBounds

@[simp] theorem in_bounds_nil : InBounds [] := by simp [InBounds]

@[simp] theorem in_bounds_cons {effect : Effect} {log : List Effect} :
    InBounds (effect :: log) ↔ effect.InBounds ∧ InBounds log := by
  simp [InBounds]

@[simp] theorem in_bounds_append {first second : List Effect} :
    InBounds (first ++ second) ↔ InBounds first ∧ InBounds second := by
  simp only [InBounds, List.mem_append, or_imp, forall_and]

structure Outcome (Value : Type) where
  ret : Value
  conn : HttpConn
  log : List Effect

/-- One call after the other on the same object; the first value is dropped. -/
def Outcome.andThen {First Second : Type} (first : Outcome First)
    (next : HttpConn → Outcome Second) : Outcome Second :=
  let second := next first.conn
  ⟨second.ret, second.conn, first.log ++ second.log⟩

section AndThen
variable {First Second : Type} (first : Outcome First) (next : HttpConn → Outcome Second)

@[simp] theorem and_then_ret : (first.andThen next).ret = (next first.conn).ret := rfl

@[simp] theorem and_then_conn : (first.andThen next).conn = (next first.conn).conn := rfl

@[simp] theorem and_then_log :
    (first.andThen next).log = first.log ++ (next first.conn).log := rfl

end AndThen

theorem layout_values : addressOffset = 4 ∧ readBufOffset = 20 ∧ readIdxOffset = 2068 ∧
    checkedIdxOffset = 2072 ∧ startLineOffset = 2076 ∧ checkStateOffset = 2080 ∧
    methodOffset = 2084 ∧ realFileOffset = 2088 ∧ urlOffset = 2288 ∧ versionOffset = 2296 ∧
    hostOffset = 2304 ∧ contentLengthOffset = 2312 ∧ lingerOffset = 2316 ∧
    writeBufOffset = 2317 ∧ writeIdxOffset = 3344 ∧ fileAddressOffset = 3352 ∧
    stModeOffset = 3384 ∧ stSizeOffset = 3408 ∧ ivOffset = 3504 ∧ ivCountOffset = 3536 ∧
    objectSize = 3544 ∧ readBufferSize = 2048 ∧ filenameLen = 200 ∧ writeBufferSize = 1024 := by
  decide

theorem clearArray_outside {low high : Int} {offset size : Nat} (array : Memory)
    (outside : ((offset + size : Nat) : Int) ≤ low ∨ high ≤ offset) :
    clearArray low high offset size array = array := by
  funext index
  by_cases bound : index < size
  · have missed : covers low high (offset + index) = false := covers_false (by omega)
    simp [clearArray, missed]
  · simp [clearArray, bound]

theorem clearArray_inside {low high : Int} {offset size : Nat} (array : Memory)
    (lower : low ≤ offset) (upper : ((offset + size : Nat) : Int) ≤ high) :
    clearArray low high offset size array =
    fun index => if index < size then 0 else array index := by
  funext index
  by_cases bound : index < size
  · have hit : covers low high (offset + index) = true := covers_true (by omega) (by omega)
    simp [clearArray, bound, hit]
  · simp [clearArray, bound]

theorem clearIovBase_inside {low high : Int} {offset : Nat} (base : IovBase)
    (lower : low ≤ offset) (upper : ((offset + 8 : Nat) : Int) ≤ high) :
    clearIovBase low high offset base = .null := by
  have hit : touches low high offset 8 = true :=
    List.any_eq_true.mpr ⟨0, by simp, covers_true (by omega) (by omega)⟩
  simp only [clearIovBase, hit, ↓reduceIte]
  rw [if_pos (.inl ⟨lower, by omega⟩)]

theorem touches_outside {low high : Int} {offset width : Nat}
    (outside : ((offset + width : Nat) : Int) ≤ low ∨ high ≤ offset) :
    touches low high offset width = false := any_covers_false outside

/-- A range of zero bytes that misses the object leaves it alone. -/
theorem bzero_outside {low high : Int} (c : HttpConn)
    (outside : (objectSize : Int) ≤ low ∨ high ≤ 0) : bzero low high c = c := by
  simp only [layout_values] at outside
  simp (disch := (try simp only [layout_values]); first | done | omega) only [bzero,
    clearInt_outside, clearNat_outside, clearArray_outside, clearPtr, clearIovBase,
    touches_outside, covers_false,
    Bool.false_eq_true, if_false]

/-- A range that stays below m_checked_idx leaves all the members from there on. -/
theorem bzero_before_checked {low high : Int} (c : HttpConn)
    (outside : (objectSize : Int) ≤ low ∨ high ≤ checkedIdxOffset) :
    bzero low high c = { c with
      sockfd := clearInt low high 0 c.sockfd
      address := clearArray low high addressOffset 16 c.address
      readBuf := clearArray low high readBufOffset readBufferSize c.readBuf
      readIdx := clearNat low high readIdxOffset 4 c.readIdx } := by
  simp only [layout_values] at outside
  simp (disch := (try simp only [layout_values]); first | done | omega) only [bzero,
    clearInt_outside, clearNat_outside, clearArray_outside, clearPtr, clearIovBase,
    touches_outside, covers_false,
    Bool.false_eq_true, if_false]

/-- An array after a bzero of its first `size` bytes. -/
def zeroed (size : Nat) (array : Memory) : Memory :=
  fun index => if index < size then 0 else array index

theorem bzero_read_buf (c : HttpConn) : bzero readBufOffset (readBufOffset + readBufferSize) c =
    { c with readBuf := zeroed readBufferSize c.readBuf } := by
  simp (disch := (try simp only [layout_values]); first | done | omega) only [bzero,
    clearInt_outside, clearNat_outside, clearArray_outside, clearArray_inside, clearPtr,
    clearIovBase,
    touches_outside, covers_false, Bool.false_eq_true, if_false]
  rfl

theorem bzero_real_file (c : HttpConn) : bzero realFileOffset (realFileOffset + filenameLen) c =
    { c with realFile := zeroed filenameLen c.realFile } := by
  simp (disch := (try simp only [layout_values]); first | done | omega) only [bzero,
    clearInt_outside, clearNat_outside, clearArray_outside, clearArray_inside, clearPtr,
    clearIovBase,
    touches_outside, covers_false, Bool.false_eq_true, if_false]
  rfl

/-- The bzero of m_write_buf with the length of m_read_buf clears the rest of
the object behind that array. -/
theorem bzero_write_buf (c : HttpConn) :
    bzero writeBufOffset (writeBufOffset + readBufferSize) c = { c with
      writeBuf := zeroed writeBufferSize c.writeBuf
      writeIdx := 0
      fileAddress := 0
      fileStat := ⟨0, 0⟩
      iv0 := ⟨.null, 0⟩
      iv1 := ⟨.null, 0⟩
      ivCount := 0 } := by
  simp (disch := (try simp only [layout_values]); first | done | omega) only [bzero,
    clearInt_outside, clearNat_outside, clearArray_outside, clearPtr, touches_outside,
    covers_false,
    clearIovBase_inside, clearNat_inside, clearArray_inside, Bool.false_eq_true, if_false]
  rfl

end StudyWebServer
