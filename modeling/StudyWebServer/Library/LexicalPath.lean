import Mathlib.Data.List.Basic

/-!
Paths over any alphabet with a separator and a dot, resolved without looking at
a disk. The components passed so far are a stack, the last one on top. What a
relative path does to a stack does not depend on the stack: it pops some
components and pushes others.
-/

namespace StudyWebServer.LexicalPath

universe u
variable {Letter : Type u} [DecidableEq Letter] (slash dot : Letter)

/-- One component entered: empty ones and single dots stay, a double dot goes up. -/
def enter (stack : List (List Letter)) (name : List Letter) : List (List Letter) :=
  if name = [] ∨ name = [dot] then stack
  else if name = [dot, dot] then stack.tail
  else name :: stack

def resolve (path : List Letter) : List (List Letter) :=
  ((path.splitOn slash).foldl (enter dot) []).reverse

/-- The path is the root or lies below it. -/
def Below (root path : List Letter) : Prop := resolve slash dot root <+: resolve slash dot path

instance (root path : List Letter) : Decidable (Below slash dot root path) :=
  inferInstanceAs (Decidable (_ <+: _))

/-- How many components of the starting point are left, and the components
entered from there, the last one on top. -/
structure Climb (Letter : Type u) where
  ups : Nat
  names : List (List Letter)
  deriving DecidableEq

def Climb.stay : Climb Letter := ⟨0, []⟩

def Climb.enter (climb : Climb Letter) (name : List Letter) : Climb Letter :=
  if name = [] ∨ name = [dot] then climb
  else if name = [dot, dot] then
    if climb.names = [] then ⟨climb.ups + 1, []⟩ else ⟨climb.ups, climb.names.tail⟩
  else ⟨climb.ups, name :: climb.names⟩

def climb (path : List Letter) : Climb Letter :=
  (path.splitOn slash).foldl (Climb.enter dot) .stay

/-- The stack behind a climb that starts on top of `stack`. -/
def Climb.from (climb : Climb Letter) (stack : List (List Letter)) : List (List Letter) :=
  climb.names ++ stack.drop climb.ups

variable {slash dot}

theorem enter_from (climb : Climb Letter) (stack : List (List Letter)) (name : List Letter) :
    enter dot (climb.from stack) name = (climb.enter dot name).from stack := by
  unfold enter Climb.enter
  split_ifs with skip up bottom
  · rfl
  · simp only [Climb.from, bottom, List.nil_append, List.tail_drop]
  · simp only [Climb.from, List.tail_append_of_ne_nil bottom]
  · rfl

theorem fold_from (names : List (List Letter)) (climb : Climb Letter) (stack : List (List Letter)) :
    names.foldl (enter dot) (climb.from stack) =
      (names.foldl (Climb.enter dot) climb).from stack := by
  induction names generalizing climb with
  | nil => rfl
  | cons name rest ih =>
      rw [List.foldl_cons, List.foldl_cons, enter_from]
      exact ih (climb.enter dot name)

/-- A path that is empty or starts with a separator, appended to a root. -/
theorem resolve_append (root path : List Letter) (joined : path = [] ∨ path.head? = some slash) :
    resolve slash dot (root ++ path) =
      ((climb slash dot path).from (resolve slash dot root).reverse).reverse := by
  have start (stack : List (List Letter)) : Climb.stay.from stack = stack := rfl
  rcases joined with rfl | separated
  · simp only [List.append_nil, climb, List.splitOn_nil, List.foldl_cons, List.foldl_nil,
      resolve, List.reverse_reverse]
    rfl
  · obtain ⟨rest, rfl⟩ := List.head?_eq_some_iff.mp separated
    have first : (slash :: rest).splitOn slash = [] :: rest.splitOn slash := by
      simpa using List.splitOn_append_cons_self ([] : List Letter) rest (a := slash)
    have skipped : Climb.enter dot Climb.stay [] = (.stay : Climb Letter) := by simp [Climb.enter]
    simp only [resolve, climb, List.splitOn_append_cons_self, List.foldl_append, first,
      List.foldl_cons, skipped, List.reverse_reverse]
    rw [← fold_from, start]

/-- Whether a path stays below the root that it is appended to: the components
it enters begin with those of the root that it left. -/
theorem below_append_iff (root path : List Letter)
    (joined : path = [] ∨ path.head? = some slash) : Below slash dot root (root ++ path) ↔
      (resolve slash dot root).drop
          ((resolve slash dot root).length - (climb slash dot path).ups) <+:
        (climb slash dot path).names.reverse := by
  have kept : ((resolve slash dot root).reverse.drop (climb slash dot path).ups).reverse =
      (resolve slash dot root).take
        ((resolve slash dot root).length - (climb slash dot path).ups) := by
    rw [List.drop_reverse, List.reverse_reverse]
  rw [Below, resolve_append root path joined, Climb.from, List.reverse_append, kept]
  generalize resolve slash dot root = names
  generalize names.length - (climb slash dot path).ups = height
  calc names <+: names.take height ++ (climb slash dot path).names.reverse
      ↔ names.take height ++ names.drop height <+:
          names.take height ++ (climb slash dot path).names.reverse := by
        rw [List.take_append_drop]
    _ ↔ names.drop height <+: (climb slash dot path).names.reverse :=
        List.prefix_append_right_inj _

end StudyWebServer.LexicalPath
