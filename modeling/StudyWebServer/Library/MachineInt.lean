import Mathlib.Data.List.Basic
import Mathlib.Tactic.Linarith

/-!
Two's complement `int` arithmetic, and integers as the bytes that hold them in
memory: what is left of a value when some of its bytes are cleared.
-/

namespace StudyWebServer.MachineInt

def intMin : Int := -2147483648
def intMax : Int := 2147483647

/-- The value an `int` keeps of an integer. -/
def toInt (value : Int) : Int := (value + 2147483648) % 4294967296 - 2147483648

def FitsInt (value : Int) : Prop := intMin ≤ value ∧ value ≤ intMax

instance (value : Int) : Decidable (FitsInt value) :=
  inferInstanceAs (Decidable (intMin ≤ value ∧ value ≤ intMax))

theorem toInt_fits (value : Int) : FitsInt (toInt value) := by
  unfold FitsInt toInt intMin intMax
  omega

theorem toInt_of_fits {value : Int} (fits : FitsInt value) : toInt value = value := by
  unfold FitsInt intMin intMax at fits
  unfold toInt
  omega

/-- The byte at `offset` lies in the range from `low` up to, not including, `high`. -/
def covers (low high : Int) (offset : Nat) : Bool := decide (low ≤ offset ∧ (offset : Int) < high)

/-- An unsigned value of `width` bytes stored little-endian at `offset`, after
the bytes of the range from `low` to `high` were set to zero. -/
def clearNat (low high : Int) (offset width value : Nat) : Nat :=
  if (List.range width).any fun k => covers low high (offset + k) then
    ((List.range width).map fun k =>
      if covers low high (offset + k) then 0 else value / 256 ^ k % 256 * 256 ^ k).sum
  else value

/-- The same for an `int`. -/
def clearInt (low high : Int) (offset : Nat) (value : Int) : Int :=
  if (List.range 4).any fun k => covers low high (offset + k) then
    toInt (clearNat low high offset 4 (value % 4294967296).toNat)
  else value

theorem covers_false {low high : Int} {offset : Nat}
    (outside : (offset : Int) < low ∨ high ≤ offset) : covers low high offset = false := by
  simp only [covers, decide_eq_false_iff_not]
  omega

theorem covers_true {low high : Int} {offset : Nat}
    (lower : low ≤ offset) (upper : (offset : Int) < high) : covers low high offset = true := by
  simp only [covers, decide_eq_true_eq]
  exact ⟨lower, upper⟩

theorem any_covers_false {low high : Int} {offset width : Nat}
    (outside : ((offset + width : Nat) : Int) ≤ low ∨ high ≤ offset) :
    ((List.range width).any fun k => covers low high (offset + k)) = false := by
  simp only [List.any_eq_false, List.mem_range]
  intro k bound
  rw [covers_false (by omega)]
  simp

theorem clearNat_outside {low high : Int} {offset width : Nat} (value : Nat)
    (outside : ((offset + width : Nat) : Int) ≤ low ∨ high ≤ offset) :
    clearNat low high offset width value = value := by
  simp [clearNat, any_covers_false outside]

theorem clearInt_outside {low high : Int} {offset : Nat} (value : Int)
    (outside : ((offset + 4 : Nat) : Int) ≤ low ∨ high ≤ offset) :
    clearInt low high offset value = value := by
  simp [clearInt, any_covers_false outside]

theorem clearNat_inside {low high : Int} {offset width : Nat} (value : Nat)
    (lower : low ≤ offset) (upper : ((offset + width : Nat) : Int) ≤ high) (wide : 0 < width) :
    clearNat low high offset width value = 0 := by
  have hit : ((List.range width).any fun k => covers low high (offset + k)) = true :=
    List.any_eq_true.mpr ⟨0, List.mem_range.mpr wide, covers_true (by omega) (by omega)⟩
  have zeros : ((List.range width).map fun k => if covers low high (offset + k) then 0
      else value / 256 ^ k % 256 * 256 ^ k) = (List.range width).map fun _ => 0 := by
    apply List.map_congr_left
    intro k member
    have bound := List.mem_range.mp member
    have inside : covers low high (offset + k) = true := covers_true (by omega) (by omega)
    simp [inside]
  simp [clearNat, hit, zeros]

example : clearInt 0 1 0 258 = 256 := by decide

end StudyWebServer.MachineInt
