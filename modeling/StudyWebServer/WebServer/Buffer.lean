import StudyWebServer.Library.MachineInt
import Mathlib.Data.List.Basic
import Mathlib.Tactic.SplitIfs

/-!
Buffer of WebServer-master/code/buffer: a vector of which the bytes from readPos_ up to
writePos_ are to be read. The positions are of the unsigned size_t, so differences wrap
around.
-/

namespace StudyWebServer.WebServer

abbrev Bytes := List UInt8

/-- What a size_t keeps of a value. -/
def sizeT (value : Int) : Nat := (value % 18446744073709551616).toNat

/-- The largest size of a vector, and of any object. -/
def maxSize : Nat := 9223372036854775807

inductive Fault where
  /-- a failing assertion -/
  | assertion
  /-- a load or store outside of the vector -/
  | outside
  /-- std::length_error -/
  | length
  deriving DecidableEq

structure Buffer where
  buffer : Bytes
  readPos : Nat
  writePos : Nat
  deriving DecidableEq

namespace Buffer

/-- `Buffer(int initBuffSize)` -/
def init (initBuffSize : Nat) : Buffer := ⟨List.replicate initBuffSize 0, 0, 0⟩

def readableBytes (b : Buffer) : Nat := sizeT (b.writePos - b.readPos)

def writableBytes (b : Buffer) : Nat := sizeT (b.buffer.length - b.writePos)

def prependableBytes (b : Buffer) : Nat := b.readPos

/-- The bytes of the vector from `pos` on, which have to be within it. -/
def load (b : Buffer) (pos len : Nat) : Except Fault Bytes :=
  if len = 0 ∨ pos + len ≤ b.buffer.length then .ok ((b.buffer.drop pos).take len)
  else .error .outside

def store (b : Buffer) (pos : Nat) (data : Bytes) : Except Fault Buffer :=
  if data.length = 0 ∨ pos + data.length ≤ b.buffer.length then
    .ok { b with buffer := b.buffer.take pos ++ data ++ b.buffer.drop (pos + data.length) }
  else .error .outside

/-- `std::vector<char>::resize` -/
def resize (b : Buffer) (size : Nat) : Except Fault Buffer :=
  if size ≤ maxSize then
    .ok { b with buffer := b.buffer.take size ++ List.replicate (size - b.buffer.length) 0 }
  else .error .length

def retrieve (b : Buffer) (len : Nat) : Except Fault Buffer :=
  if len ≤ b.readableBytes then .ok { b with readPos := sizeT (b.readPos + len) }
  else .error .assertion

/-- The end is given by its distance from Peek(). -/
def retrieveUntil (b : Buffer) (distance : Int) : Except Fault Buffer :=
  if 0 ≤ distance then b.retrieve (sizeT distance) else .error .assertion

def retrieveAll (b : Buffer) : Buffer := ⟨List.replicate b.buffer.length 0, 0, 0⟩

def retrieveAllToStr (b : Buffer) : Except Fault (Bytes × Buffer) :=
  match b.load b.readPos b.readableBytes with
  | .error fault => .error fault
  | .ok str => .ok (str, b.retrieveAll)

def hasWritten (b : Buffer) (len : Int) : Buffer :=
  { b with writePos := sizeT (b.writePos + len) }

def makeSpace (b : Buffer) (len : Nat) : Except Fault Buffer :=
  if sizeT (b.writableBytes + b.prependableBytes) < len then
    b.resize (sizeT (b.writePos + len + 1))
  else
    let readable := b.readableBytes
    match b.load b.readPos readable with
    | .error fault => .error fault
    | .ok data =>
        match b.store 0 data with
        | .error fault => .error fault
        | .ok moved =>
            let next := { moved with readPos := 0, writePos := readable }
            if readable = next.readableBytes then .ok next else .error .assertion

def ensureWriteable (b : Buffer) (len : Nat) : Except Fault Buffer :=
  let made := if b.writableBytes < len then b.makeSpace len else .ok b
  match made with
  | .error fault => .error fault
  | .ok next => if len ≤ next.writableBytes then .ok next else .error .assertion

def append (b : Buffer) (data : Bytes) : Except Fault Buffer :=
  match b.ensureWriteable data.length with
  | .error fault => .error fault
  | .ok room =>
      match room.store room.writePos data with
      | .error fault => .error fault
      | .ok next => .ok (next.hasWritten data.length)

/-- The bytes that readv got, if it did not fail. They fill the rest of the vector first. -/
def readFd (b : Buffer) : Option Bytes → Except Fault Buffer
  | none => .ok b
  | some data =>
      let writable := b.writableBytes
      match b.store b.writePos (data.take writable) with
      | .error fault => .error fault
      | .ok next =>
          if data.length ≤ writable then .ok (next.hasWritten data.length)
          else { next with writePos := next.buffer.length }.append (data.drop writable)

/-- The number of bytes that write took, if it did not fail. -/
def writeFd (b : Buffer) : Option Nat → Except Fault Buffer
  | none => .ok b
  | some len => .ok { b with readPos := sizeT (b.readPos + len) }

/-- The bytes to be read. -/
def contents (b : Buffer) : Bytes := (b.buffer.drop b.readPos).take (b.writePos - b.readPos)

structure WellFormed (b : Buffer) : Prop where
  order : b.readPos ≤ b.writePos
  inside : b.writePos ≤ b.buffer.length
  small : b.buffer.length ≤ maxSize

theorem init_well_formed {initBuffSize : Nat} (small : initBuffSize ≤ maxSize) :
    WellFormed (init initBuffSize) :=
  ⟨Nat.le_refl 0, Nat.zero_le _, by rwa [init, List.length_replicate]⟩

section Bounds
variable {b next : Buffer}

theorem WellFormed.readable (wellFormed : WellFormed b) :
    b.readableBytes = b.writePos - b.readPos := by
  obtain ⟨order, inside, small⟩ := wellFormed
  unfold maxSize at small
  unfold readableBytes sizeT
  omega

theorem WellFormed.writable (wellFormed : WellFormed b) :
    b.writableBytes = b.buffer.length - b.writePos := by
  obtain ⟨order, inside, small⟩ := wellFormed
  unfold maxSize at small
  unfold writableBytes sizeT
  omega

theorem WellFormed.contents_length (wellFormed : WellFormed b) :
    b.contents.length = b.readableBytes := by
  obtain ⟨order, inside, small⟩ := wellFormed
  rw [WellFormed.readable ⟨order, inside, small⟩, contents, List.length_take, List.length_drop]
  omega

theorem load_ok {pos len : Nat} (inside : pos + len ≤ b.buffer.length) :
    b.load pos len = .ok ((b.buffer.drop pos).take len) := if_pos (.inr inside)

theorem store_ok {pos : Nat} {data : Bytes} (inside : pos + data.length ≤ b.buffer.length) :
    b.store pos data = .ok { b with
      buffer := b.buffer.take pos ++ data ++ b.buffer.drop (pos + data.length) } :=
  if_pos (.inr inside)

end Bounds

section Operations
variable {b next : Buffer} {len : Nat} {data : Bytes}

/-- The vector grows behind the bytes to be read. -/
theorem resize_spec (wellFormed : WellFormed b) (larger : b.buffer.length ≤ len) :
    (maxSize < len ∧ b.resize len = .error .length) ∨ ∃ next, b.resize len = .ok next ∧
      WellFormed next ∧ next.contents = b.contents ∧ next.writePos = b.writePos ∧
      next.buffer.length = len := by
  obtain ⟨order, inside, small⟩ := wellFormed
  unfold resize
  by_cases room : len ≤ maxSize
  · rw [if_pos room, List.take_of_length_le larger]
    have size : (b.buffer ++ List.replicate (len - b.buffer.length) 0).length = len := by
      rw [List.length_append, List.length_replicate]
      omega
    refine .inr ⟨_, rfl, ⟨order, ?_, ?_⟩, ?_, rfl, size⟩
    · exact inside.trans (by rw [size]; exact larger)
    · exact size.trans_le room
    · unfold contents
      dsimp only
      rw [List.drop_append_of_le_length (order.trans inside),
        List.take_append_of_le_length (by rw [List.length_drop]; omega)]
  · rw [if_neg room]
    exact .inl ⟨by omega, rfl⟩

/-- The bytes to be read move to the front. -/
theorem compact_spec (wellFormed : WellFormed b)
    (room : ¬ b.buffer.length - b.contents.length < len) :
    ∃ next, b.makeSpace len = .ok next ∧ WellFormed next ∧ next.contents = b.contents ∧
      next.writePos = b.contents.length ∧ next.buffer.length = b.buffer.length := by
  have count := wellFormed.contents_length
  have readable := wellFormed.readable
  have writable := wellFormed.writable
  obtain ⟨order, inside, small⟩ := wellFormed
  have free : sizeT (b.writableBytes + b.prependableBytes) =
      b.buffer.length - b.contents.length := by
    unfold maxSize at small
    unfold sizeT prependableBytes
    omega
  have loaded : b.load b.readPos b.contents.length = .ok b.contents := by
    rw [load_ok (by omega), count, readable]
    rfl
  have stored : b.store 0 b.contents = .ok { b with
      buffer := b.contents ++ b.buffer.drop b.contents.length } := by
    rw [store_ok (by omega), List.take_zero, List.nil_append, Nat.zero_add]
  have size : (b.contents ++ b.buffer.drop b.contents.length).length = b.buffer.length := by
    rw [List.length_append, List.length_drop]
    omega
  refine ⟨⟨b.contents ++ b.buffer.drop b.contents.length, 0, b.contents.length⟩, ?_,
    ⟨Nat.zero_le _, ?_, size.trans_le small⟩, ?_, rfl, size⟩
  · have same : readableBytes
        ⟨b.contents ++ b.buffer.drop b.contents.length, 0, b.contents.length⟩ =
          b.contents.length := by
      unfold maxSize at small
      show sizeT ((b.contents.length : Int) - (0 : Nat)) = b.contents.length
      unfold sizeT
      omega
    simp only [makeSpace, free, room, if_false, ← count, loaded, stored, same, if_true]
  · exact (Nat.le_add_right _ _).trans (List.length_append).ge
  · unfold contents
    exact List.take_left' rfl

theorem ensure_writeable_spec (wellFormed : WellFormed b) (object : len ≤ maxSize) :
    (maxSize < b.writePos + len + 1 ∧ b.ensureWriteable len = .error .length) ∨
    ∃ next, b.ensureWriteable len = .ok next ∧ WellFormed next ∧ next.contents = b.contents ∧
      next.writePos + len ≤ next.buffer.length ∧
      next.buffer.length ≤ max b.buffer.length (2 * (b.contents.length + len)) ∧
      b.buffer.length ≤ next.buffer.length ∧ next.buffer.length ≤ b.buffer.length + len + 1 := by
  have count := wellFormed.contents_length
  have readable := wellFormed.readable
  have writable := wellFormed.writable
  have inside := wellFormed.inside
  have small := wellFormed.small
  have accept {next : Buffer} (good : WellFormed next)
      (room : next.writePos + len ≤ next.buffer.length) :
      len ≤ next.writableBytes := by
    rw [good.writable]
    omega
  unfold maxSize at object small
  by_cases full : b.writableBytes < len
  · by_cases grows : b.buffer.length - b.contents.length < len
    · have free : sizeT (b.writableBytes + b.prependableBytes) < len := by
        have order := wellFormed.order
        unfold sizeT prependableBytes
        omega
      have new : sizeT (b.writePos + len + 1) = b.writePos + len + 1 := by
        unfold sizeT
        omega
      have made : b.makeSpace len = b.resize (b.writePos + len + 1) := by
        rw [makeSpace, if_pos free, new]
      rcases @resize_spec b (b.writePos + len + 1) wellFormed (by omega) with ⟨large, failed⟩ |
        ⟨next, resized, good, same, position, size⟩
      · refine .inl ⟨large, ?_⟩
        simp only [ensureWriteable, full, if_true, made, failed]
      · have room : next.writePos + len ≤ next.buffer.length := by omega
        refine .inr ⟨next, ?_, good, same, room, by omega, by omega, by omega⟩
        simp only [ensureWriteable, full, if_true, made, resized, accept good room]
    · obtain ⟨next, made, good, same, position, size⟩ := compact_spec wellFormed grows
      have room : next.writePos + len ≤ next.buffer.length := by omega
      refine .inr ⟨next, ?_, good, same, room, by omega, by omega, by omega⟩
      simp only [ensureWriteable, full, if_true, made, accept good room]
  · have room : b.writePos + len ≤ b.buffer.length := by omega
    refine .inr ⟨b, ?_, wellFormed, rfl, room, by omega, by omega, by omega⟩
    simp only [ensureWriteable, full, if_false, accept wellFormed room, if_true]

theorem slice_store {bytes spare : Bytes} {first last : Nat} (order : first ≤ last)
    (inside : last ≤ bytes.length) :
    ((bytes.take last ++ (data ++ spare) ++ bytes.drop (last + (data ++ spare).length)).drop
      first).take (last + data.length - first) =
      (bytes.drop first).take (last - first) ++ data := by
  have front : first ≤ (bytes.take last).length := by
    rw [List.length_take]
    omega
  rw [List.append_assoc, List.append_assoc, List.drop_append_of_le_length front,
    ← List.append_assoc, List.drop_take]
  apply List.take_left'
  rw [List.length_append, List.length_take, List.length_drop]
  omega

/-- Bytes stored behind those to be read, of which the first ones are then among them. -/
theorem store_more {spare : Bytes} (wellFormed : WellFormed b)
    (room : b.writePos + (data ++ spare).length ≤ b.buffer.length) :
    ∃ next, b.store b.writePos (data ++ spare) = .ok next ∧
      WellFormed (next.hasWritten data.length) ∧
      (next.hasWritten data.length).contents = b.contents ++ data ∧
      next.writePos = b.writePos ∧ next.buffer.length = b.buffer.length := by
  obtain ⟨order, inside, small⟩ := wellFormed
  have size : (b.buffer.take b.writePos ++ (data ++ spare) ++
      b.buffer.drop (b.writePos + (data ++ spare).length)).length = b.buffer.length := by
    rw [List.length_append, List.length_append, List.length_take, List.length_drop]
    omega
  have part : data.length ≤ (data ++ spare).length := by
    rw [List.length_append]
    exact Nat.le_add_right _ _
  have position : sizeT (b.writePos + data.length) = b.writePos + data.length := by
    unfold maxSize at small
    unfold sizeT
    omega
  refine ⟨_, store_ok room, ⟨?_, ?_, size.trans_le small⟩, ?_, rfl, size⟩
  · show b.readPos ≤ sizeT (b.writePos + data.length)
    omega
  · show sizeT (b.writePos + data.length) ≤ List.length (b.buffer.take b.writePos ++
      (data ++ spare) ++ b.buffer.drop (b.writePos + (data ++ spare).length))
    rw [size, position]
    omega
  · show (List.drop b.readPos (b.buffer.take b.writePos ++ (data ++ spare) ++
      b.buffer.drop (b.writePos + (data ++ spare).length))).take
        (sizeT (b.writePos + data.length) - b.readPos) = b.contents ++ data
    rw [position, slice_store order inside]
    rfl

theorem store_spec (wellFormed : WellFormed b) (room : b.writePos + data.length ≤ b.buffer.length) :
    ∃ next, b.store b.writePos data = .ok next ∧ WellFormed (next.hasWritten data.length) ∧
      (next.hasWritten data.length).contents = b.contents ++ data ∧
      next.writePos = b.writePos ∧ next.buffer.length = b.buffer.length := by
  have none : data ++ [] = data := List.append_nil data
  have stored := @store_more b data [] wellFormed (none.symm ▸ room)
  rwa [none] at stored

theorem append_spec (wellFormed : WellFormed b) (object : data.length ≤ maxSize) :
    (maxSize < b.writePos + data.length + 1 ∧ b.append data = .error .length) ∨
    ∃ next, b.append data = .ok next ∧ WellFormed next ∧ next.contents = b.contents ++ data ∧
      next.buffer.length ≤ max b.buffer.length (2 * next.contents.length) ∧
      b.buffer.length ≤ next.buffer.length ∧
      next.buffer.length ≤ b.buffer.length + data.length + 1 := by
  rcases ensure_writeable_spec wellFormed object with ⟨large, failed⟩ |
    ⟨made, ensured, good, same, room, bound, grown, limit⟩
  · exact .inl ⟨large, by simp only [append, failed]⟩
  · obtain ⟨stored, store, final, contents, -, size⟩ := store_spec good room
    refine .inr ⟨_, by simp only [append, ensured, store], final, by rw [contents, same], ?_,
      grown.trans size.ge, size.trans_le limit⟩
    rw [contents, same, List.length_append]
    exact size.trans_le bound

/-- With room for the bytes nothing else is moved. -/
theorem append_fits (wellFormed : WellFormed b)
    (room : b.writePos + data.length ≤ b.buffer.length) :
    ∃ next, b.append data = .ok next ∧ WellFormed next ∧ next.contents = b.contents ++ data ∧
      next.readPos = b.readPos ∧ next.buffer.length = b.buffer.length := by
  have accept : data.length ≤ b.writableBytes := by
    rw [wellFormed.writable]
    omega
  have ensured : b.ensureWriteable data.length = .ok b := by
    simp only [ensureWriteable, Nat.not_lt.mpr accept, if_false, accept, if_true]
  obtain ⟨stored, store, final, contents, -, size⟩ := store_spec wellFormed room
  have first : stored.readPos = b.readPos := by
    cases (store_ok room).symm.trans store
    rfl
  exact ⟨_, by simp only [append, ensured, store], final, contents, first, size⟩

/-- Reading takes all bytes in, those that did not fit behind the others. -/
theorem read_fd_spec (wellFormed : WellFormed b) (object : data.length ≤ maxSize) :
    (maxSize < b.buffer.length + data.length + 1 ∧ b.readFd (some data) = .error .length) ∨
    ∃ next, b.readFd (some data) = .ok next ∧ WellFormed next ∧ next.contents = b.contents ++ data ∧
      next.buffer.length ≤ max b.buffer.length (2 * next.contents.length) := by
  have writable := wellFormed.writable
  have inside := wellFormed.inside
  have room : b.writePos + (data.take b.writableBytes).length ≤ b.buffer.length := by
    rw [List.length_take]
    omega
  obtain ⟨stored, store, final, contents, position, size⟩ := store_spec wellFormed room
  by_cases fits : data.length ≤ b.writableBytes
  · rw [List.take_of_length_le fits] at final contents store
    refine .inr ⟨stored.hasWritten data.length, ?_, final, contents,
      size.le.trans (le_max_left _ _)⟩
    simp only [readFd, List.take_of_length_le fits, store, fits, if_true]
  · have full : (data.take b.writableBytes).length = b.buffer.length - b.writePos := by
      rw [List.length_take]
      omega
    have filled : stored.hasWritten (data.take b.writableBytes).length =
        { stored with writePos := stored.buffer.length } := by
      have small := wellFormed.small
      have behind : sizeT (stored.writePos + (data.take b.writableBytes).length) =
          stored.buffer.length := by
        unfold maxSize at small
        unfold sizeT
        omega
      rw [hasWritten, behind]
    rw [filled] at final contents
    have rest : (data.drop b.writableBytes).length ≤ maxSize := by
      rw [List.length_drop]
      omega
    have went : b.readFd (some data) =
        ({ stored with writePos := stored.buffer.length } : Buffer).append
          (data.drop b.writableBytes) := by
      simp only [readFd, store, fits, if_false]
    rw [went]
    rcases append_spec final rest with ⟨large, failed⟩ | ⟨next, appended, good, same, bound, -⟩
    · refine .inl ⟨large.trans_le ?_, failed⟩
      rw [List.length_drop]
      show stored.buffer.length + _ + 1 ≤ _
      omega
    · refine .inr ⟨next, appended, good, ?_, bound.trans (max_le_max size.le (le_refl _))⟩
      rw [same, contents, List.append_assoc, List.take_append_drop]

theorem retrieve_spec (wellFormed : WellFormed b) (enough : len ≤ b.contents.length) :
    ∃ next, b.retrieve len = .ok next ∧ WellFormed next ∧ next.contents = b.contents.drop len ∧
      next.buffer.length = b.buffer.length := by
  have count := wellFormed.contents_length
  have readable := wellFormed.readable
  obtain ⟨order, inside, small⟩ := wellFormed
  have position : sizeT (b.readPos + len) = b.readPos + len := by
    unfold maxSize at small
    unfold sizeT
    omega
  refine ⟨{ b with readPos := b.readPos + len }, ?_, ⟨by dsimp only; omega, inside, small⟩, ?_, rfl⟩
  · rw [retrieve, if_pos (by omega), position]
  · unfold contents
    dsimp only
    rw [List.drop_take, List.drop_drop]
    congr 1
    omega

theorem retrieve_too_much (wellFormed : WellFormed b) (more : b.contents.length < len) :
    b.retrieve len = .error .assertion := by
  rw [retrieve, if_neg (by rw [← wellFormed.contents_length]; omega)]

theorem retrieve_all_spec (wellFormed : WellFormed b) : WellFormed b.retrieveAll ∧
    b.retrieveAll.contents = [] ∧ b.retrieveAll.buffer.length = b.buffer.length := by
  have size : b.retrieveAll.buffer.length = b.buffer.length := List.length_replicate
  exact ⟨⟨Nat.le_refl 0, Nat.zero_le _, size.trans_le wellFormed.small⟩, rfl, size⟩

theorem load_contents (wellFormed : WellFormed b) :
    b.load b.readPos b.readableBytes = .ok b.contents := by
  have readable := wellFormed.readable
  have inside := wellFormed.inside
  have order := wellFormed.order
  rw [load_ok (by omega), readable]
  rfl

theorem retrieve_all_to_str_spec (wellFormed : WellFormed b) :
    b.retrieveAllToStr = .ok (b.contents, b.retrieveAll) := by
  simp only [retrieveAllToStr, load_contents wellFormed]

end Operations

end Buffer

end StudyWebServer.WebServer
