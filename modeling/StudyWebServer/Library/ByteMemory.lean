import Mathlib.Data.List.Basic
import Mathlib.Data.List.TakeWhile

/-!
A character array seen as a function from index to byte, with single and block
stores, the bytes of an index range, and the C string at an index. The array's
extent is not part of the type: a C string takes the extent as its `limit` and
stops there when no terminator came first.
-/

namespace StudyWebServer.ByteMemory

abbrev Memory := Nat → UInt8

def store (memory : Memory) (index : Nat) (byte : UInt8) : Memory :=
  fun key => if key = index then byte else memory key

def storeList (memory : Memory) (index : Nat) (bytes : List UInt8) : Memory :=
  fun key => if index ≤ key then (bytes[key - index]?).getD (memory key) else memory key

def slice (memory : Memory) (index count : Nat) : List UInt8 :=
  (List.range' index count).map memory

/-- The text before the first NUL. -/
def text (bytes : List UInt8) : List UInt8 := bytes.takeWhile (· != 0)

def cstr (memory : Memory) (limit index : Nat) : List UInt8 :=
  text (slice memory index (limit - index))

variable {memory other : Memory} {index count limit : Nat}

@[simp] theorem store_same (byte : UInt8) : store memory index byte index = byte := by
  simp [store]

theorem store_other {key : Nat} (byte : UInt8) (different : key ≠ index) :
    store memory index byte key = memory key := by
  simp [store, different]

theorem store_list_before {key : Nat} (bytes : List UInt8) (before : key < index) :
    storeList memory index bytes key = memory key := by
  simp [storeList, Nat.not_le.mpr before]

theorem store_list_after {key : Nat} (bytes : List UInt8)
    (after : index + bytes.length ≤ key) : storeList memory index bytes key = memory key := by
  have past : bytes[key - index]? = none := List.getElem?_eq_none (by omega)
  simp [storeList, past]

theorem store_list_inside (bytes : List UInt8) (offset : Nat) (inside : offset < bytes.length) :
    storeList memory index bytes (index + offset) = bytes[offset] := by
  simp [storeList, List.getElem?_eq_getElem inside]

@[simp] theorem store_list_nil : storeList memory index [] = memory := by
  funext key
  simp [storeList]

/-- Two stores that meet are one. -/
theorem store_list_append (front back : List UInt8) :
    storeList (storeList memory index front) (index + front.length) back =
      storeList memory index (front ++ back) := by
  funext key
  simp only [storeList]
  by_cases low : index ≤ key
  · by_cases high : index + front.length ≤ key
    · have past : front[key - index]? = none := List.getElem?_eq_none (by omega)
      rw [if_pos high, if_pos low, if_pos low, past, Option.getD_none,
        List.getElem?_append_right (by omega), Nat.sub_sub]
    · rw [if_neg high, if_pos low, if_pos low, List.getElem?_append_left (by omega)]
  · rw [if_neg (by omega), if_neg low, if_neg low]

@[simp] theorem slice_length : (slice memory index count).length = count := by
  simp [slice]

@[simp] theorem slice_zero : slice memory index 0 = [] := rfl

theorem slice_succ : slice memory index (count + 1) =
    memory index :: slice memory (index + 1) count := rfl

theorem slice_add (more : Nat) : slice memory index (count + more) =
    slice memory index count ++ slice memory (index + count) more := by
  simp only [slice, ← List.map_append]
  rw [← @List.range'_append index count more 1, Nat.one_mul]

theorem slice_get (offset : Nat) (inside : offset < (slice memory index count).length) :
    (slice memory index count)[offset] = memory (index + offset) := by
  simp [slice]

theorem slice_congr (same : ∀ key, index ≤ key → key < index + count → memory key = other key) :
    slice memory index count = slice other index count := by
  apply List.map_congr_left
  intro key member
  have bounds := List.mem_range'_1.mp member
  exact same key bounds.1 bounds.2

theorem mem_slice {byte : UInt8} : byte ∈ slice memory index count ↔
    ∃ key, index ≤ key ∧ key < index + count ∧ memory key = byte := by
  simp only [slice, List.mem_map, List.mem_range'_1, and_assoc]

theorem slice_store_list (bytes : List UInt8) :
    slice (storeList memory index bytes) index bytes.length = bytes := by
  apply List.ext_getElem
  · simp
  · intro offset inside within
    rw [slice_get, store_list_inside bytes offset within]

/-- The bytes of an array behind a store at its start. -/
theorem slice_store_start {bytes : List UInt8} (room : bytes.length ≤ count) :
    slice (storeList memory 0 bytes) 0 count =
    bytes ++ (slice memory 0 count).drop bytes.length := by
  obtain ⟨more, rfl⟩ := Nat.exists_eq_add_of_le room
  have behind : slice (storeList memory 0 bytes) (0 + bytes.length) more =
      slice memory (0 + bytes.length) more :=
    slice_congr fun key lower _ => store_list_after bytes lower
  rw [slice_add, slice_store_list, slice_add, List.drop_left' slice_length, behind]

@[simp] theorem text_nil : text [] = [] := rfl

theorem text_append_nul (bytes rest : List UInt8) : text (bytes ++ 0 :: rest) = text bytes := by
  induction bytes with
  | nil => rfl
  | cons byte bytes ih =>
      by_cases nul : byte = 0
      · simp [text, nul]
      · simpa [text, nul] using ih

theorem text_of_nul_free {bytes : List UInt8} (free : (0 : UInt8) ∉ bytes) :
    text bytes = bytes := by
  apply List.takeWhile_eq_self_iff.mpr
  intro byte member
  have different : byte ≠ 0 := fun zero => free (zero ▸ member)
  simpa using different

theorem nul_not_mem_text (bytes : List UInt8) : (0 : UInt8) ∉ text bytes := by
  intro member
  have kept := List.mem_takeWhile_imp member
  simp at kept

theorem text_initial (bytes : List UInt8) : text bytes <+: bytes :=
  List.takeWhile_prefix _

/-- A terminator `count` bytes on cuts the C string down to the text of those bytes. -/
theorem cstr_terminated (nul : memory (index + count) = 0) (room : index + count < limit) :
    cstr memory limit index = text (slice memory index count) := by
  have split : limit - index = count + ((limit - index - count - 1) + 1) := by omega
  rw [cstr, split, slice_add, slice_succ, nul, text_append_nul]

theorem cstr_get (offset : Nat) (inside : offset < (cstr memory limit index).length) :
    (cstr memory limit index)[offset] = memory (index + offset) := by
  have taken := (text_initial (slice memory index (limit - index))).getElem inside
  have within : offset < (slice memory index (limit - index)).length :=
    Nat.lt_of_lt_of_le inside (text_initial _).length_le
  calc (cstr memory limit index)[offset]
      = (slice memory index (limit - index))[offset] := taken
    _ = memory (index + offset) := slice_get offset within

/-- The array holds the string at `index`, terminated below `limit`. -/
structure Terminated (memory : Memory) (limit index : Nat) (string : List UInt8) : Prop where
  bytes : slice memory index string.length = string
  nul : memory (index + string.length) = 0
  room : index + string.length < limit
  free : (0 : UInt8) ∉ string

namespace Terminated
variable {string : List UInt8}

theorem cstr_eq (held : Terminated memory limit index string) :
    cstr memory limit index = string := by
  rw [cstr_terminated held.nul held.room, held.bytes, text_of_nul_free held.free]

theorem weaken {wider : Nat} (held : Terminated memory limit index string)
    (wide : limit ≤ wider) : Terminated memory wider index string :=
  ⟨held.bytes, held.nul, Nat.lt_of_lt_of_le held.room wide, held.free⟩

theorem congr (held : Terminated memory limit index string)
    (same : ∀ key, index ≤ key → key < limit → memory key = other key) :
    Terminated other limit index string := by
  have room := held.room
  constructor
  · rw [← held.bytes, slice_length]
    exact (slice_congr fun key lower upper => same key lower (by omega)).symm
  · rw [← same _ (by omega) room, held.nul]
  · exact room
  · exact held.free

theorem drop (held : Terminated memory limit index string) (count : Nat)
    (short : count ≤ string.length) :
    Terminated memory limit (index + count) (string.drop count) := by
  have room := held.room
  have split : slice memory index (count + (string.length - count)) = _ := slice_add _
  rw [Nat.add_sub_cancel' short, held.bytes] at split
  constructor
  · rw [List.length_drop]
    conv_rhs => rw [split]
    rw [List.drop_left' slice_length]
  · rw [List.length_drop, Nat.add_assoc, Nat.add_sub_cancel' short, held.nul]
  · rw [List.length_drop]
    omega
  · exact fun member => held.free (List.mem_of_mem_drop member)

/-- A NUL stored into the string ends it there. -/
theorem cut (held : Terminated memory limit index string) (offset : Nat)
    (inside : offset < string.length) :
    Terminated (store memory (index + offset) 0) limit index (string.take offset) := by
  have room := held.room
  have length : (string.take offset).length = offset := by
    rw [List.length_take]
    omega
  constructor
  · have split : slice memory index (offset + (string.length - offset)) = _ := slice_add _
    rw [Nat.add_sub_cancel' inside.le, held.bytes] at split
    conv_rhs => rw [split, List.take_left' slice_length]
    rw [length]
    exact slice_congr fun key _ upper => store_other 0 (by omega)
  · rw [length, store_same]
  · omega
  · exact fun member => held.free (List.mem_of_mem_take member)

/-- What stands behind that NUL. -/
theorem behind_cut (held : Terminated memory limit index string) (offset : Nat)
    (inside : offset < string.length) :
    Terminated (store memory (index + offset) 0) limit (index + offset + 1)
      (string.drop (offset + 1)) :=
  (held.drop (offset + 1) inside).congr fun _ lower _ => (store_other 0 (by omega)).symm

end Terminated

/-- An array with a NUL in it holds the text in front of the first. -/
theorem terminated_iff {string : List UInt8} : Terminated memory limit 0 string ↔
    (0 : UInt8) ∈ slice memory 0 limit ∧ text (slice memory 0 limit) = string := by
  constructor
  · intro held
    have room := held.room
    refine ⟨mem_slice.mpr ⟨0 + string.length, by omega, by omega, held.nul⟩, ?_⟩
    exact held.cstr_eq
  · rintro ⟨nul, rfl⟩
    have split := List.takeWhile_append_dropWhile (p := (· != (0 : UInt8)))
      (l := slice memory 0 limit)
    cases behind : (slice memory 0 limit).dropWhile (· != 0) with
    | nil => exact absurd nul (by rw [← split, behind, List.append_nil]; exact nul_not_mem_text _)
    | cons byte rest =>
        have zero : byte = 0 := by
          have head := List.head_dropWhile_not (· != (0 : UInt8)) (l := slice memory 0 limit)
            (by rw [behind]; exact List.cons_ne_nil _ _)
          simpa [behind] using head
        rw [behind, zero, ← text] at split
        have lengths := congrArg List.length split
        rw [List.length_append, List.length_cons, slice_length] at lengths
        have parts : slice memory 0 ((text (slice memory 0 limit)).length + (rest.length + 1)) =
            text (slice memory 0 limit) ++ 0 :: rest := by rw [split, lengths]
        rw [slice_add, slice_succ] at parts
        obtain ⟨front, next⟩ := List.append_inj parts slice_length
        refine ⟨front, (List.cons.inj next).1, by omega, nul_not_mem_text _⟩

theorem terminated_text {bytes : List UInt8} (held : slice memory index bytes.length = bytes)
    (nul : memory (index + bytes.length) = 0) (room : index + bytes.length < limit) :
    Terminated memory limit index (text bytes) := by
  induction bytes generalizing index with
  | nil => exact ⟨rfl, by simpa using nul, by simpa using room, by simp⟩
  | cons byte bytes ih =>
      simp only [List.length_cons, slice_succ, List.cons.injEq] at held nul room
      by_cases zero : byte = 0
      · have empty : text (byte :: bytes) = [] := by simp [text, zero]
        rw [empty]
        exact ⟨rfl, held.1.trans zero, by simp only [List.length_nil]; omega, by simp⟩
      · have kept : text (byte :: bytes) = byte :: text bytes := by simp [text, zero]
        have rest := ih held.2 (by rw [← nul]; congr 1; omega) (by omega)
        rw [kept]
        constructor
        · rw [List.length_cons, slice_succ, rest.bytes, held.1]
        · rw [List.length_cons, ← rest.nul]
          congr 1
          omega
        · have bound := rest.room
          rw [List.length_cons]
          omega
        · rw [List.mem_cons, not_or]
          exact ⟨fun same => zero same.symm, rest.free⟩

end StudyWebServer.ByteMemory
