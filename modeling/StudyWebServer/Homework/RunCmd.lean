import StudyWebServer.Library.ByteMemory
import StudyWebServer.Library.CString
import StudyWebServer.Library.Loop

/-!
run_cmd of server.c: what the command prints, line by line in the block that malloc
returned. A store behind the block is kept, as one that the block does not hold.
-/

namespace StudyWebServer.Homework

open ByteMemory CString

/-- The size of the block in run_cmd. -/
def dataSize : Nat := 16384

/-- The size of a pointer, which is what run_cmd clears of the block. -/
def pointerSize : Nat := 8

def maxBuffer : Nat := 256

def newline : UInt8 := 10

/-- The C string at the start of an array. -/
def cString (bytes : List UInt8) : List UInt8 := bytes.takeWhile fun byte => byte != 0

theorem c_string_whole {text : List UInt8} (clean : (0 : UInt8) ∉ text) : cString text = text := by
  rw [cString, List.takeWhile_eq_self_iff]
  intro byte member
  rw [bne_iff_ne]
  rintro rfl
  exact clean member

/-- What fgets takes of the output that is left: a line, or as much as `buffer` holds. -/
def fgets (rest : List UInt8) : List UInt8 :=
  let fits := rest.take (maxBuffer - 1)
  match strchr fits newline with
  | some offset => fits.take (offset + 1)
  | none => fits

/-- What fgets took was ended by the end of the output. -/
def meetsEnd (line : List UInt8) : Bool := line.length < maxBuffer - 1 && !line.contains newline

/-- The variables of run_cmd, with the offset and the length of every store so far. -/
structure Filling where
  rest : List UInt8
  eof : Bool
  data : Memory
  dataIndex : Nat
  stores : List (Nat × Nat)

/-- The body of the loop. -/
def Filling.readLine (f : Filling) : Filling :=
  let line := fgets f.rest
  let text := cString line
  let read := { f with rest := f.rest.drop line.length, eof := meetsEnd line }
  -- nothing is left, and fgets returns a null pointer
  if line = [] then read
  else
    { read with
      data := storeList f.data f.dataIndex text
      dataIndex := f.dataIndex + text.length
      stores := f.stores ++ [(f.dataIndex, text.length)] }

def fillRound (f : Filling) : Filling ⊕ Filling := if f.eof then .inr f else .inl f.readLine

section Fgets
variable {rest : List UInt8}

theorem fgets_cases :
    (∃ offset, strchr (rest.take (maxBuffer - 1)) newline = some offset ∧
      fgets rest = (rest.take (maxBuffer - 1)).take (offset + 1)) ∨
    fgets rest = rest.take (maxBuffer - 1) := by
  unfold fgets
  cases found : strchr (rest.take (maxBuffer - 1)) newline with
  | some offset => exact .inl ⟨offset, rfl, by simp only [found]⟩
  | none => exact .inr (by simp only [found])

theorem fgets_initial : fgets rest <+: rest := by
  rcases @fgets_cases rest with ⟨offset, -, same⟩ | same
  · rw [same]
    exact (List.take_prefix ..).trans (List.take_prefix ..)
  · rw [same]
    exact List.take_prefix ..

theorem fgets_nil : fgets rest = [] ↔ rest = [] := by
  constructor
  · intro none
    rcases @fgets_cases rest with ⟨offset, found, same⟩ | same
    · obtain ⟨inside, -⟩ := strchr_some found
      have length := congrArg List.length (same.symm.trans none)
      rw [List.length_take, List.length_nil] at length
      omega
    · simpa [maxBuffer] using same.symm.trans none
  · rintro rfl
    rfl

/-- No newline and room for more: there is no more. -/
theorem meets_end (ends : meetsEnd (fgets rest) = true) : fgets rest = rest := by
  simp only [meetsEnd, Bool.and_eq_true, decide_eq_true_eq, Bool.not_eq_true',
    List.contains_eq_mem, decide_eq_false_iff_not] at ends
  obtain ⟨short, no_newline⟩ := ends
  rcases @fgets_cases rest with ⟨offset, found, same⟩ | same
  · obtain ⟨inside, hit⟩ := strchr_some found
    rw [same] at no_newline
    refine absurd (List.mem_iff_getElem.mpr ⟨offset, ?_, ?_⟩) no_newline
    · rw [List.length_take]
      omega
    · rw [List.getElem_take]
      exact hit
  · rw [same, List.length_take] at short
    rw [same]
    exact List.take_of_length_le (by omega)

theorem fgets_rest : fgets rest ++ rest.drop (fgets rest).length = rest :=
  List.prefix_iff_eq_append.mp fgets_initial

end Fgets

section Fill
variable {f : Filling}

/-- What is left to be read, and whether its end is still to be met. -/
def Filling.left (f : Filling) : Nat := 2 * f.rest.length + (!f.eof).toNat

theorem read_line_rest : f.readLine.rest = f.rest.drop (fgets f.rest).length := by
  simp only [Filling.readLine]
  split_ifs <;> rfl

theorem read_line_eof : f.readLine.eof = meetsEnd (fgets f.rest) := by
  simp only [Filling.readLine]
  split_ifs <;> rfl

theorem fill_decreases : Loop.Decreases fillRound Filling.left := by
  intro f next round
  unfold fillRound at round
  split_ifs at round with eof
  cases round
  have short := (@fgets_initial f.rest).length_le
  have running : f.eof = false := Bool.eq_false_iff.mpr eof
  simp only [Filling.left, read_line_rest, read_line_eof, List.length_drop, running,
    Bool.not_false, Bool.toNat_true]
  by_cases nothing : f.rest = []
  · rw [nothing]
    decide
  · have progress := List.length_pos_iff.mpr fun none => nothing (fgets_nil.mp none)
    have flag := Bool.toNat_le (!meetsEnd (fgets f.rest))
    omega

/-- The loop of run_cmd. -/
def fill (f : Filling) : Filling := Loop.run fillRound Filling.left fill_decreases f

theorem read_line_some (clean : (0 : UInt8) ∉ f.rest) (some : f.rest ≠ []) :
    f.readLine =
      { rest := f.rest.drop (fgets f.rest).length
        eof := meetsEnd (fgets f.rest)
        data := storeList f.data f.dataIndex (fgets f.rest)
        dataIndex := f.dataIndex + (fgets f.rest).length
        stores := f.stores ++ [(f.dataIndex, (fgets f.rest).length)] } := by
  have whole : cString (fgets f.rest) = fgets f.rest :=
    c_string_whole fun member => clean (fgets_initial.subset member)
  rw [Filling.readLine, whole, if_neg fun none => some (fgets_nil.mp none)]

/-- The stores so far are inside of a block of this size. -/
def Filling.Inside (f : Filling) (size : Nat) : Prop :=
  ∀ store ∈ f.stores, store.1 + store.2 ≤ size

instance (f : Filling) (size : Nat) : Decidable (f.Inside size) :=
  inferInstanceAs (Decidable (∀ store ∈ f.stores, _))

/-- There is no NUL to come, and nothing behind the end. -/
structure Filling.Ready (f : Filling) : Prop where
  clean : (0 : UInt8) ∉ f.rest
  ended : f.eof = true → f.rest = []

/-- The output that is left comes to stand in one piece, and all stores are inside of a
block that holds it. -/
structure Fills (f final : Filling) : Prop where
  data : final.data = storeList f.data f.dataIndex f.rest
  inside : ∀ size, final.Inside size ↔
    f.Inside size ∧ (f.rest = [] ∨ f.dataIndex + f.rest.length ≤ size)

theorem Filling.Ready.next (ready : f.Ready) : f.readLine.Ready := by
  constructor
  · rw [read_line_rest]
    exact fun member => ready.clean (List.mem_of_mem_drop member)
  · intro ends
    rw [read_line_eof] at ends
    rw [read_line_rest, meets_end ends, List.drop_length]

theorem Fills.next {final : Filling} (ready : f.Ready) (later : Fills f.readLine final) :
    Fills f final := by
  by_cases nothing : f.rest = []
  · have same : f.readLine = { f with rest := f.rest.drop (fgets f.rest).length
                                      eof := meetsEnd (fgets f.rest) } := by
      rw [Filling.readLine, if_pos (fgets_nil.mpr nothing)]
    rw [same, nothing] at later
    constructor
    · rw [later.data, nothing]
      rfl
    · intro size
      rw [later.inside, nothing]
      rfl
  · have split := @fgets_rest f.rest
    have lengths := congrArg List.length split
    rw [List.length_append] at lengths
    rw [read_line_some ready.clean nothing] at later
    constructor
    · rw [later.data, store_list_append, split]
    · intro size
      rw [later.inside]
      simp only [Filling.Inside, List.forall_mem_append, List.mem_singleton, forall_eq, nothing,
        false_or, and_assoc, and_congr_right_iff]
      intro _
      by_cases last : f.rest.drop (fgets f.rest).length = []
      · rw [last, List.length_nil] at lengths
        simp only [last, true_or, and_true]
        omega
      · simp only [last, false_or]
        omega

theorem fill_fills (f : Filling) (ready : f.Ready) : Fills f (fill f) := by
  revert ready
  apply Loop.run_induction (motive := fun f final => f.Ready → Fills f final)
  · intro f next final round ih ready
    unfold fillRound at round
    split_ifs at round
    cases round
    exact (ih ready.next).next ready
  · intro f final round ready
    unfold fillRound at round
    split_ifs at round with eof
    cases round
    constructor
    · rw [ready.ended eof, store_list_nil]
    · intro size
      simp [ready.ended eof]

end Fill

/-- run_cmd behind bzero, with the block that malloc returned. -/
def cleared (block : Memory) (output : List UInt8) : Filling where
  rest := output
  eof := false
  data := storeList block 0 (List.replicate pointerSize 0)
  dataIndex := 0
  stores := [(0, pointerSize)]

/-- run_cmd, as it returns. -/
def runCmdFilling (block : Memory) (output : List UInt8) : Filling := fill (cleared block output)

/-- All stores are inside of the block, and it holds the output, or what fits of it. -/
structure ReturnsOutput (block : Memory) (output : List UInt8) : Prop where
  inside : (runCmdFilling block output).Inside dataSize
  string : ∃ string, Terminated (runCmdFilling block output).data dataSize 0 string ∧
    (string = output ∨ dataSize ≤ output.length ∧ string <+: output)

section RunCmd
variable {block : Memory} {output : List UInt8}

theorem run_cmd_fills (clean : (0 : UInt8) ∉ output) :
    Fills (cleared block output) (runCmdFilling block output) :=
  fill_fills _ ⟨clean, fun eof => by cases eof⟩

theorem run_cmd_inside (clean : (0 : UInt8) ∉ output) :
    (runCmdFilling block output).Inside dataSize ↔ output.length ≤ dataSize := by
  have size : dataSize = 16384 := rfl
  have pointer : pointerSize = 8 := rfl
  rw [(run_cmd_fills clean).inside]
  simp only [cleared, Filling.Inside, List.mem_singleton, forall_eq, Nat.zero_add]
  constructor
  · rintro ⟨-, rfl | fits⟩
    · exact Nat.zero_le _
    · exact fits
  · exact fun fits => ⟨by omega, .inr fits⟩

/-- The byte behind the output: bzero cleared it, or it is what malloc left there. -/
theorem run_cmd_behind (clean : (0 : UInt8) ∉ output) :
    (runCmdFilling block output).data output.length = 0 ↔
      output.length < pointerSize ∨ block output.length = 0 := by
  have length : (List.replicate pointerSize (0 : UInt8)).length = pointerSize :=
    List.length_replicate
  rw [(run_cmd_fills clean).data]
  simp only [cleared]
  rw [store_list_after _ (by omega)]
  by_cases short : output.length < pointerSize
  · simp [storeList, short]
  · rw [store_list_after _ (by omega)]
    simp [short]

/-- run_cmd returns the output exactly if it is shorter than a pointer, or is followed
by a NUL that was in the block. -/
theorem returns_output_iff (block : Memory) (clean : (0 : UInt8) ∉ output) :
    ReturnsOutput block output ↔
      output.length < pointerSize ∨ output.length < dataSize ∧ block output.length = 0 := by
  have size : dataSize = 16384 := rfl
  have pointer : pointerSize = 8 := rfl
  have held : slice (runCmdFilling block output).data 0 output.length = output := by
    rw [(run_cmd_fills clean).data]
    exact slice_store_list output
  constructor
  · rintro ⟨inside, string, terminated, same | ⟨long, initial⟩⟩
    · subst same
      have nul := terminated.nul
      have room := terminated.room
      rw [Nat.zero_add] at nul room
      rcases (run_cmd_behind clean).mp nul with short | zero
      · exact .inl short
      · exact .inr ⟨room, zero⟩
    -- a part of the output is not followed by a NUL, but by the next byte
    · have room := terminated.room
      have within : string.length < (slice
          (runCmdFilling block output).data 0 output.length).length := by
        rw [slice_length]
        omega
      have next := slice_get string.length within
      rw [terminated.nul] at next
      exact absurd (held ▸ next ▸ List.getElem_mem within) clean
  · intro ends
    have room : output.length < dataSize := by omega
    refine ⟨(run_cmd_inside clean).mpr room.le, output, ⟨held, ?_, ?_, clean⟩, .inl rfl⟩
    · rw [Nat.zero_add, run_cmd_behind clean]
      exact ends.imp_right And.right
    · omega

theorem returns_output_short : ReturnsOutput (fun _ => 1) (ascii "a.c\n") :=
  (returns_output_iff _ (by decide)).mpr (.inl (by decide))

/-- Eight bytes, in a block without any NUL; and as many as the block has, in any. -/
theorem run_cmd_unended : ¬ ReturnsOutput (fun _ => 1) (ascii "main.c\nx") ∧
    ∀ block, ¬ ReturnsOutput block (List.replicate dataSize 97) := by
  constructor
  · rw [returns_output_iff _ (by decide)]
    decide
  · intro block
    rw [returns_output_iff _ fun member => absurd (List.eq_of_mem_replicate member) (by decide),
      List.length_replicate]
    exact fun ends => ends.elim (by decide) fun full => absurd full.1 (by decide)

end RunCmd

end StudyWebServer.Homework
