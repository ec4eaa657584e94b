import Mathlib.Data.List.Nodup
import Mathlib.Logic.Function.Basic

/-!
Doubly linked cells in a store that addresses name. A list of cells with what they
hold describes a run of linked cells; the links that lead into the run and out of
it are parameters, so that a run can be cut and its parts put together again.
-/

namespace StudyWebServer.LinkedList

universe u v

structure Cell (Addr : Type u) (Data : Type v) where
  data : Data
  prev : Option Addr
  next : Option Addr

/-- Nothing is at an address that was never given out, or was taken back. -/
abbrev Store (Addr : Type u) (Data : Type v) := Addr → Option (Cell Addr Data)

variable {Addr : Type u} {Data : Type v}

namespace Store
variable [DecidableEq Addr]

def change (mem : Store Addr Data) (cell : Addr) (f : Cell Addr Data → Cell Addr Data) :
    Store Addr Data := Function.update mem cell ((mem cell).map f)

def setPrev (mem : Store Addr Data) (cell : Addr) (prev : Option Addr) : Store Addr Data :=
  mem.change cell fun old => { old with prev := prev }

def setNext (mem : Store Addr Data) (cell : Addr) (next : Option Addr) : Store Addr Data :=
  mem.change cell fun old => { old with next := next }

def setData (mem : Store Addr Data) (cell : Addr) (data : Data) : Store Addr Data :=
  mem.change cell fun old => { old with data := data }

/-- A new cell without neighbours. -/
def create (mem : Store Addr Data) (cell : Addr) (data : Data) : Store Addr Data :=
  Function.update mem cell (some ⟨data, none, none⟩)

def delete (mem : Store Addr Data) (cell : Addr) : Store Addr Data :=
  Function.update mem cell none

end Store

abbrev addresses (cells : List (Addr × Data)) : List Addr := cells.map Prod.fst

/-- The address at which a run begins, `after` being what follows it. -/
def first : List (Addr × Data) → Option Addr → Option Addr
  | [], after => after
  | (cell, _) :: _, _ => some cell

/-- The address at which a run ends, `before` being what leads into it. -/
def last : Option Addr → List (Addr × Data) → Option Addr
  | before, [] => before
  | _, (cell, _) :: rest => last (some cell) rest

/-- The cells are linked to each other in this order, from `before` to `after`. -/
def Linked (mem : Store Addr Data) : Option Addr → List (Addr × Data) → Option Addr → Prop
  | _, [], _ => True
  | before, (cell, data) :: rest, after =>
      mem cell = some ⟨data, before, first rest after⟩ ∧ Linked mem (some cell) rest after

section Parts
variable {mem : Store Addr Data} {before after : Option Addr} {cells : List (Addr × Data)}

@[simp] theorem first_nil : first ([] : List (Addr × Data)) after = after := rfl

@[simp] theorem first_cons (cell : Addr) (data : Data) :
    first ((cell, data) :: cells) after = some cell := rfl

@[simp] theorem last_nil : last before ([] : List (Addr × Data)) = before := rfl

@[simp] theorem last_append_cons (cell : Addr) (data : Data) (front back : List (Addr × Data)) :
    last before (front ++ (cell, data) :: back) = last (some cell) back := by
  induction front generalizing before with
  | nil => rfl
  | cons other rest ih => exact ih

theorem first_append (front back : List (Addr × Data)) :
    first (front ++ back) after = first front (first back after) := by
  cases front <;> rfl

/-- A run in two parts. -/
theorem linked_append (front back : List (Addr × Data)) :
    Linked mem before (front ++ back) after ↔
      Linked mem before front (first back after) ∧ Linked mem (last before front) back after := by
  induction front generalizing before with
  | nil => simp [Linked]
  | cons head rest ih =>
      obtain ⟨cell, data⟩ := head
      show mem cell = some ⟨data, before, first (rest ++ back) after⟩ ∧
          Linked mem (some cell) (rest ++ back) after ↔
        (mem cell = some ⟨data, before, first rest (first back after)⟩ ∧
          Linked mem (some cell) rest (first back after)) ∧
          Linked mem (last (some cell) rest) back after
      rw [ih, first_append, and_assoc]

/-- The cell of a run that two parts meet at. -/
theorem linked_at {cell : Addr} {data : Data} {front back : List (Addr × Data)}
    (linked : Linked mem before (front ++ (cell, data) :: back) after) :
    mem cell = some ⟨data, last before front, first back after⟩ :=
  ((linked_append front _).mp linked).2.1

/-- Two cells of a run that stand next to each other. -/
theorem linked_adjacent {a b : Addr} {d e : Data} {front back : List (Addr × Data)}
    (linked : Linked mem before (front ++ (a, d) :: (b, e) :: back) after) :
    (mem a).bind Cell.next = some b ∧ (mem b).bind Cell.prev = some a := by
  have split : front ++ (a, d) :: (b, e) :: back = (front ++ [(a, d)]) ++ (b, e) :: back := by simp
  have a_here := linked_at linked
  rw [split] at linked
  have b_here := linked_at linked
  rw [last_append_cons] at b_here
  rw [a_here, b_here]
  exact ⟨rfl, rfl⟩

theorem first_mem (some_cell : cells ≠ []) : ∃ cell ∈ addresses cells,
    first cells after = some cell := by
  cases cells with
  | nil => exact absurd rfl some_cell
  | cons head rest => exact ⟨head.1, List.mem_cons_self, rfl⟩

theorem last_mem (some_cell : cells ≠ []) : ∃ cell ∈ addresses cells,
    last before cells = some cell := by
  induction cells generalizing before with
  | nil => exact absurd rfl some_cell
  | cons head rest ih =>
      by_cases more : rest = []
      · subst more
        exact ⟨head.1, List.mem_cons_self, rfl⟩
      · obtain ⟨cell, member, same⟩ := @ih (some head.1) more
        exact ⟨cell, List.mem_cons_of_mem _ member, same⟩

theorem nodup_middle {cell : Addr} {data : Data} {front back : List (Addr × Data)}
    (nodup : (addresses (front ++ (cell, data) :: back)).Nodup) :
    cell ∉ addresses front ∧ cell ∉ addresses back := by
  rw [addresses, List.map_append, List.map_cons, List.nodup_append] at nodup
  obtain ⟨-, behind, disjoint⟩ := nodup
  exact ⟨fun member => disjoint cell member cell List.mem_cons_self rfl,
    (List.nodup_cons.mp behind).1⟩

theorem away_sublist {cell : Addr} {some all : List (Addr × Data)} (away : cell ∉ addresses all)
    (sub : some.Sublist all) : cell ∉ addresses some :=
  fun member => away ((sub.map Prod.fst).subset member)

/-- A run does not depend on what is at other addresses. -/
theorem Linked.congr {other : Store Addr Data} (linked : Linked mem before cells after)
    (same : ∀ cell ∈ addresses cells, other cell = mem cell) :
    Linked other before cells after := by
  induction cells generalizing before with
  | nil => trivial
  | cons head rest ih =>
      obtain ⟨cell, data⟩ := head
      constructor
      · rw [same cell List.mem_cons_self]
        exact linked.1
      · exact ih linked.2 fun cell member => same cell (List.mem_cons_of_mem _ member)

end Parts

section Change
variable [DecidableEq Addr] {mem : Store Addr Data} {before after : Option Addr}
  {cells : List (Addr × Data)} {cell : Addr}

@[simp] theorem change_self (f : Cell Addr Data → Cell Addr Data) :
    mem.change cell f cell = (mem cell).map f := Function.update_self ..

theorem change_other {other : Addr} (away : other ≠ cell) (f : Cell Addr Data → Cell Addr Data) :
    mem.change cell f other = mem other := Function.update_of_ne away ..

theorem change_present (f : Cell Addr Data → Cell Addr Data) (other : Addr) :
    (mem.change cell f other).isSome = (mem other).isSome := by
  by_cases same : other = cell
  · subst same
    rw [change_self, Option.isSome_map]
  · rw [change_other same]

theorem Linked.change (linked : Linked mem before cells after)
    (away : cell ∉ addresses cells) (f : Cell Addr Data → Cell Addr Data) :
    Linked (mem.change cell f) before cells after :=
  linked.congr fun _ member => change_other (ne_of_mem_of_not_mem member away) f

theorem Linked.set_prev_away (linked : Linked mem before cells after)
    (away : cell ∉ addresses cells) (prev : Option Addr) :
    Linked (mem.setPrev cell prev) before cells after := linked.change away _

theorem Linked.set_next_away (linked : Linked mem before cells after)
    (away : cell ∉ addresses cells) (next : Option Addr) :
    Linked (mem.setNext cell next) before cells after := linked.change away _

theorem Linked.create (linked : Linked mem before cells after) (away : cell ∉ addresses cells)
    (data : Data) : Linked (mem.create cell data) before cells after :=
  linked.congr fun _ member => Function.update_of_ne (ne_of_mem_of_not_mem member away) ..

theorem Linked.delete (linked : Linked mem before cells after) (away : cell ∉ addresses cells) :
    Linked (mem.delete cell) before cells after :=
  linked.congr fun _ member => Function.update_of_ne (ne_of_mem_of_not_mem member away) ..

/-- A run after its first cell was told what leads into it. -/
theorem Linked.setPrev {data : Data} {back : List (Addr × Data)} {old : Option Addr}
    (linked : Linked mem old ((cell, data) :: back) after) (away : cell ∉ addresses back)
    (prev : Option Addr) : Linked (mem.setPrev cell prev) prev ((cell, data) :: back) after := by
  refine ⟨?_, linked.2.change away _⟩
  rw [Store.setPrev, change_self, linked.1]
  rfl

/-- A run after its last cell was told what follows it. -/
theorem Linked.setNext {data : Data} {front : List (Addr × Data)} {old : Option Addr}
    (linked : Linked mem before (front ++ [(cell, data)]) old) (away : cell ∉ addresses front)
    (next : Option Addr) :
    Linked (mem.setNext cell next) before (front ++ [(cell, data)]) next := by
  obtain ⟨ahead, here⟩ := (linked_append front _).mp linked
  refine (linked_append front _).mpr ⟨ahead.change away _, ?_, trivial⟩
  rw [Store.setNext, change_self, here.1]
  rfl

/-- A run in which one cell was given something else to hold. -/
theorem Linked.setData {data : Data} {front back : List (Addr × Data)}
    (linked : Linked mem before (front ++ (cell, data) :: back) after)
    (nodup : (addresses (front ++ (cell, data) :: back)).Nodup) (new : Data) :
    Linked (mem.setData cell new) before (front ++ (cell, new) :: back) after := by
  obtain ⟨ahead, behind⟩ := nodup_middle nodup
  obtain ⟨front_linked, here, back_linked⟩ := (linked_append front _).mp linked
  refine (linked_append front _).mpr ⟨front_linked.change ahead _, ?_, back_linked.change behind _⟩
  rw [Store.setData, change_self, here]
  rfl

end Change

section Present
variable [DecidableEq Addr] {mem : Store Addr Data} {cell other : Addr}

@[simp] theorem set_prev_isSome (prev : Option Addr) :
    (mem.setPrev cell prev other).isSome = (mem other).isSome := change_present _ other

@[simp] theorem set_next_isSome (next : Option Addr) :
    (mem.setNext cell next other).isSome = (mem other).isSome := change_present _ other

@[simp] theorem set_data_isSome (data : Data) :
    (mem.setData cell data other).isSome = (mem other).isSome := change_present _ other

@[simp] theorem set_prev_self (prev : Option Addr) :
    mem.setPrev cell prev cell = (mem cell).map fun old => { old with prev := prev } :=
  change_self _

@[simp] theorem set_next_self (next : Option Addr) :
    mem.setNext cell next cell = (mem cell).map fun old => { old with next := next } :=
  change_self _

theorem set_prev_other (away : other ≠ cell) (prev : Option Addr) :
    mem.setPrev cell prev other = mem other := change_other away _

theorem set_next_other (away : other ≠ cell) (next : Option Addr) :
    mem.setNext cell next other = mem other := change_other away _

/-- Links do not change what the cells hold. -/
theorem set_prev_data (prev : Option Addr) :
    (mem.setPrev cell prev other).map Cell.data = (mem other).map Cell.data := by
  by_cases same : other = cell
  · subst same
    rw [set_prev_self, Option.map_map]
    rfl
  · rw [set_prev_other same]

theorem set_next_data (next : Option Addr) :
    (mem.setNext cell next other).map Cell.data = (mem other).map Cell.data := by
  by_cases same : other = cell
  · subst same
    rw [set_next_self, Option.map_map]
    rfl
  · rw [set_next_other same]

end Present

/-- A list with a pointer to its first cell and one to its last. The pointer to the
last cell means nothing if there is none. -/
structure Whole (mem : Store Addr Data) (head tail : Option Addr)
    (cells : List (Addr × Data)) : Prop where
  nodup : (addresses cells).Nodup
  linked : Linked mem none cells none
  head : head = first cells none
  tail : cells ≠ [] → tail = last none cells

section Whole
variable {mem : Store Addr Data} {head tail : Option Addr} {cell : Addr} {data : Data}
  {front back : List (Addr × Data)}

/-- The pointer to the first cell tells whether anything is in front of a cell. -/
theorem Whole.head_iff (whole : Whole mem head tail (front ++ (cell, data) :: back)) :
    head = some cell ↔ front = [] := by
  rw [whole.head, first_append]
  constructor
  · intro here
    by_contra more
    obtain ⟨other, member, same⟩ := @first_mem _ _ (first ((cell, data) :: back) none) _ more
    cases same.symm.trans here
    exact (nodup_middle whole.nodup).1 member
  · intro none
    rw [none]
    rfl

theorem Whole.tail_iff (whole : Whole mem head tail (front ++ (cell, data) :: back)) :
    tail = some cell ↔ back = [] := by
  rw [whole.tail (by simp), last_append_cons]
  constructor
  · intro here
    by_contra more
    obtain ⟨other, member, same⟩ := @last_mem _ _ (some cell) _ more
    cases same.symm.trans here
    exact (nodup_middle whole.nodup).2 member
  · intro none
    rw [none]
    rfl

end Whole

end StudyWebServer.LinkedList
