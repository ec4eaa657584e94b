import Mathlib.Logic.Equiv.Basic
import Mathlib.Order.Lattice
import Mathlib.Order.Nat

/-!
Binary heaps in an array: the keys by position, with the children of `i` at `2 * i + 1`
and `2 * i + 2`. The order may be broken at one position, from where a sift moves it up
or down by exchanging two positions.
-/

namespace StudyWebServer.BinaryHeap

universe u
variable {Key : Type u} {key other : Nat → Key} {n i j : Nat}

def parent (i : Nat) : Nat := (i - 1) / 2

theorem parent_lt (pos : 0 < i) : parent i < i := by
  unfold parent
  omega

/-- The positions below another. -/
theorem child_cases (pos : 0 < j) (below : parent j = i) : j = 2 * i + 1 ∨ j = 2 * i + 1 + 1 := by
  unfold parent at below
  omega

theorem swap_other {c : Nat} (first : c ≠ i) (second : c ≠ j) :
    (key ∘ Equiv.swap i j) c = key c := by
  rw [Function.comp_apply, Equiv.swap_apply_of_ne_of_ne first second]

theorem swap_left : (key ∘ Equiv.swap i j) i = key j := by
  rw [Function.comp_apply, Equiv.swap_apply_left]

theorem swap_right : (key ∘ Equiv.swap i j) j = key i := by
  rw [Function.comp_apply, Equiv.swap_apply_right]

variable [LinearOrder Key]

/-- No position has a smaller key than the one above it. -/
def Ordered (key : Nat → Key) (n : Nat) : Prop :=
  ∀ c, 0 < c → c < n → key (parent c) ≤ key c

/-- Ordered but for position `i`, whose neighbours are in order among themselves. -/
structure OrderedBut (key : Nat → Key) (n i : Nat) : Prop where
  rest : ∀ c, 0 < c → c < n → c ≠ i → parent c ≠ i → key (parent c) ≤ key c
  grand : 0 < i → ∀ c, 0 < c → c < n → parent c = i → key (parent i) ≤ key c

/-- What position `i` may be smaller than is above it only. -/
structure OrderedUp (key : Nat → Key) (n i : Nat) : Prop extends OrderedBut key n i where
  below : ∀ c, 0 < c → c < n → parent c = i → key i ≤ key c

/-- What it may be larger than is below it only. -/
structure OrderedDown (key : Nat → Key) (n i : Nat) : Prop extends OrderedBut key n i where
  above : 0 < i → key (parent i) ≤ key i

theorem Ordered.root_le (ordered : Ordered key n) (inside : i < n) : key 0 ≤ key i := by
  induction i using Nat.strongRecOn with
  | ind i ih =>
      rcases Nat.eq_zero_or_pos i with rfl | pos
      · exact le_refl _
      · have up := parent_lt pos
        exact (ih (parent i) up (up.trans inside)).trans (ordered i pos inside)

theorem Ordered.but (ordered : Ordered key n) (inside : i < n) : OrderedBut key n i := by
  constructor
  · exact fun c pos small _ _ => ordered c pos small
  · intro pos c c_pos small below
    have lower := ordered c c_pos small
    rw [below] at lower
    exact (ordered i pos inside).trans lower

/-- Only the key at the position itself differs. -/
theorem OrderedBut.congr (but : OrderedBut key n i) (same : ∀ c < n, c ≠ i → other c = key c)
    (inside : i < n) : OrderedBut other n i := by
  constructor
  · intro c pos small apart parent_apart
    rw [same _ ((parent_lt pos).trans small) parent_apart, same c small apart]
    exact but.rest c pos small apart parent_apart
  · intro pos c c_pos small below
    have up := parent_lt pos
    have apart : c ≠ i := by
      rintro rfl
      exact absurd below up.ne
    rw [same _ (up.trans inside) up.ne, same c small apart]
    exact but.grand pos c c_pos small below

/-- The positions from the last one on do not matter. -/
theorem Ordered.shorten (ordered : Ordered key (n + 1)) : Ordered key n :=
  fun c pos small => ordered c pos (small.trans (Nat.lt_succ_self n))

theorem OrderedBut.shorten (but : OrderedBut key (n + 1) i) : OrderedBut key n i :=
  ⟨fun c pos small => but.rest c pos (small.trans (Nat.lt_succ_self n)),
    fun i_pos c pos small => but.grand i_pos c pos (small.trans (Nat.lt_succ_self n))⟩

/-- Above the position the order holds up to the root. -/
theorem OrderedBut.root_le (but : OrderedBut key n i) (higher : j < i) (inside : j < n) :
    key 0 ≤ key j := by
  induction j using Nat.strongRecOn with
  | ind j ih =>
      rcases Nat.eq_zero_or_pos j with rfl | pos
      · exact le_refl _
      · have up := parent_lt pos
        have order := but.rest j pos inside higher.ne (up.trans higher).ne
        exact (ih (parent j) up (up.trans higher) (up.trans inside)).trans order

theorem OrderedBut.ordered (but : OrderedBut key n i) (above : 0 < i → key (parent i) ≤ key i)
    (below : ∀ c, 0 < c → c < n → parent c = i → key i ≤ key c) : Ordered key n := by
  intro c pos small
  by_cases apart : c = i
  · subst apart
    exact above pos
  · by_cases under : parent c = i
    · rw [under]
      exact below c pos small under
    · exact but.rest c pos small apart under

section Swap

/-- A key that is not above that of its parent changes places with it. -/
theorem OrderedUp.swap (up : OrderedUp key n i) (pos : 0 < i) (inside : i < n)
    (smaller : key i ≤ key (parent i)) :
    OrderedUp (key ∘ Equiv.swap i (parent i)) n (parent i) := by
  have higher := parent_lt pos
  have away : ∀ c, 0 < c → parent c = parent i → c ≠ parent i := by
    rintro c c_pos same rfl
    exact absurd same (parent_lt c_pos).ne
  constructor
  · constructor
    · intro c c_pos small apart under
      have top : parent c ≠ parent i := under
      by_cases here : parent c = i
      · have low : c ≠ i := by
          rintro rfl
          exact absurd here (parent_lt c_pos).ne
        rw [here, swap_left, swap_other low apart]
        exact up.grand pos c c_pos small here
      · have low : c ≠ i := by
          rintro rfl
          exact under rfl
        rw [swap_other here top, swap_other low apart]
        exact up.rest c c_pos small low here
    · intro top_pos c c_pos small under
      have top := parent_lt top_pos
      have order := up.rest (parent i) top_pos (higher.trans inside) higher.ne
        (top.trans higher).ne
      rw [swap_other (top.trans higher).ne top.ne]
      by_cases low : c = i
      · rw [low, swap_left]
        exact order
      · have sibling := up.rest c c_pos small low (by rw [under]; exact higher.ne)
        rw [under] at sibling
        rw [swap_other low (away c c_pos under)]
        exact order.trans sibling
  · intro c c_pos small under
    rw [swap_right]
    by_cases low : c = i
    · rw [low, swap_left]
      exact smaller
    · have sibling := up.rest c c_pos small low (by rw [under]; exact higher.ne)
      rw [under] at sibling
      rw [swap_other low (away c c_pos under)]
      exact smaller.trans sibling

/-- At the top, or below a key that is not larger, a sift up is done. -/
theorem OrderedUp.done (up : OrderedUp key n i) (above : 0 < i → key (parent i) ≤ key i) :
    Ordered key n := up.toOrderedBut.ordered above up.below

/-- A key changes places with the smallest one below it. -/
theorem OrderedBut.swap (but : OrderedBut key n i) (pos : 0 < j) (under : parent j = i)
    (inside : j < n) (least : ∀ c, 0 < c → c < n → parent c = i → key j ≤ key c)
    (smaller : key j ≤ key i) : OrderedDown (key ∘ Equiv.swap i j) n j := by
  have lower : i < j := under ▸ parent_lt pos
  constructor
  · constructor
    · intro c c_pos small apart low
      by_cases here : c = i
      · subst here
        have top := parent_lt c_pos
        rw [swap_left, swap_other top.ne (top.trans lower).ne]
        exact but.grand c_pos j pos inside under
      · rw [swap_other here apart]
        by_cases sibling : parent c = i
        · rw [sibling, swap_left]
          exact least c c_pos small sibling
        · rw [swap_other sibling low]
          exact but.rest c c_pos small here sibling
    · intro _ c c_pos small below
      have deeper : j < c := below ▸ parent_lt c_pos
      have order := but.rest c c_pos small (lower.trans deeper).ne' (by rw [below]; exact lower.ne')
      rw [below] at order
      rw [under, swap_left, swap_other (lower.trans deeper).ne' deeper.ne']
      exact order
  · intro _
    rw [under, swap_left, swap_right]
    exact smaller

theorem OrderedDown.done (down : OrderedDown key n i)
    (below : ∀ c, 0 < c → c < n → parent c = i → key i ≤ key c) : Ordered key n :=
  down.toOrderedBut.ordered down.above below

end Swap

end StudyWebServer.BinaryHeap
