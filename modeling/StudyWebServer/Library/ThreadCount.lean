import Mathlib.Algebra.BigOperators.Group.Finset.Piecewise
import Mathlib.Algebra.Order.BigOperators.Group.Finset
import Mathlib.Data.Fintype.Basic
import Mathlib.Logic.Function.Basic

/-!
How many of finitely many threads stand at a place with some property, and how
the number changes when one of them moves.
-/

namespace StudyWebServer.ThreadCount

variable {Thread Place : Type} [Fintype Thread]

def standing (spot : Thread → Place) (holds : Place → Bool) : Nat :=
  ∑ thread, (holds (spot thread)).toNat

variable {spot : Thread → Place} {holds : Place → Bool}

theorem standing_pos {thread : Thread} (here : holds (spot thread) = true) :
    0 < standing spot holds := by
  have one := Finset.single_le_sum (f := fun thread => (holds (spot thread)).toNat)
    (fun _ _ => Nat.zero_le _) (Finset.mem_univ thread)
  simp only [here, Bool.toNat_true] at one
  exact one

theorem standing_eq_zero (none : ∀ thread, holds (spot thread) = false) :
    standing spot holds = 0 := by
  apply Finset.sum_eq_zero
  intro thread _
  rw [none thread]
  rfl

theorem standing_mono {wider : Place → Bool}
    (within : ∀ place, holds place = true → wider place = true) :
    standing spot holds ≤ standing spot wider :=
  Finset.sum_le_sum fun thread _ => Bool.toNat_le_toNat (within (spot thread))

/-- Two threads stand there. -/
theorem standing_two {thread other : Thread} (apart : other ≠ thread)
    (here : holds (spot thread) = true)
    (there : holds (spot other) = true) : 2 ≤ standing spot holds := by
  have pair := Finset.add_le_sum (f := fun thread => (holds (spot thread)).toNat)
    (fun _ _ => Nat.zero_le _) (Finset.mem_univ other) (Finset.mem_univ thread) apart
  simp only [here, there, Bool.toNat_true] at pair
  exact pair

variable [DecidableEq Thread]

theorem standing_update (spot : Thread → Place) (holds : Place → Bool)
    (thread : Thread) (place : Place) :
    standing (Function.update spot thread place) holds + (holds (spot thread)).toNat =
      standing spot holds + (holds place).toNat := by
  have moved : (fun other => (holds (Function.update spot thread place other)).toNat) =
      Function.update (fun other => (holds (spot other)).toNat) thread (holds place).toNat := by
    funext other
    by_cases same : other = thread
    · subst same
      simp
    · simp [same]
  have others := Finset.add_sum_erase Finset.univ (fun other => (holds (spot other)).toNat)
    (Finset.mem_univ thread)
  unfold standing
  rw [moved, Finset.sum_update_of_mem (Finset.mem_univ thread), Finset.sdiff_singleton_eq_erase,
    ← others]
  omega

/-- A move between two places that the property does not tell apart. -/
theorem standing_stays {thread : Thread} {place : Place}
    (same : holds place = holds (spot thread)) :
    standing (Function.update spot thread place) holds = standing spot holds := by
  have moved := standing_update spot holds thread place
  rw [same] at moved
  omega

theorem standing_enters {thread : Thread} {place : Place} (before : holds (spot thread) = false)
    (after : holds place = true) :
    standing (Function.update spot thread place) holds = standing spot holds + 1 := by
  have moved := standing_update spot holds thread place
  rw [before, after] at moved
  exact moved

theorem standing_leaves {thread : Thread} {place : Place} (before : holds (spot thread) = true)
    (after : holds place = false) :
    standing (Function.update spot thread place) holds + 1 = standing spot holds := by
  have moved := standing_update spot holds thread place
  rw [before, after] at moved
  exact moved

/-- One item of a list, counted as a thread is. -/
theorem count_one {Item : Type} [DecidableEq Item] (item other : Item) :
    [item].count other = (decide (item = other)).toNat := by
  by_cases same : item = other
  · rw [same, List.count_singleton_self, decide_eq_true rfl]
    rfl
  · rw [decide_eq_false same]
    exact List.count_eq_zero_of_not_mem fun member => same (List.mem_singleton.mp member).symm

end StudyWebServer.ThreadCount
