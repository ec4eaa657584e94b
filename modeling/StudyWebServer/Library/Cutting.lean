import Mathlib.Data.List.Basic
import Mathlib.Data.List.Infix

/-!
A list cut at the first place where a separator occurs in it.
-/

namespace StudyWebServer.Cutting

universe u
variable {Item : Type u} [DecidableEq Item] {sep text rest items : List Item}

/-- What is before the first separator, and what is behind it when there is one. -/
def cut (sep : List Item) : List Item → List Item × Option (List Item)
  | [] => ([], none)
  | item :: items =>
      if sep.isPrefixOf (item :: items) then ([], some ((item :: items).drop sep.length))
      else (item :: (cut sep items).1, (cut sep items).2)

theorem cut_none (absent : ¬ sep <:+: items) : cut sep items = (items, none) := by
  induction items with
  | nil => rfl
  | cons item items ih =>
      have elsewhere := List.infix_cons_iff.not.mp absent
      rw [not_or] at elsewhere
      rw [cut, if_neg fun here => elsewhere.1 (List.isPrefixOf_iff_prefix.mp here), ih elsewhere.2]

/-- The text before the separator has none in it that starts earlier. -/
theorem cut_found (nonempty : sep ≠ [])
    (first : ¬ sep <:+: text ++ sep.dropLast) (rest : List Item) :
    cut sep (text ++ sep ++ rest) = (text, some rest) := by
  induction text with
  | nil =>
      cases sep with
      | nil => exact absurd rfl nonempty
      | cons item sep =>
          rw [List.nil_append, List.cons_append, cut, if_pos, ← List.cons_append, List.drop_left]
          exact List.isPrefixOf_iff_prefix.mpr (List.prefix_append (item :: sep) rest)
  | cons item text ih =>
      have elsewhere := List.infix_cons_iff.not.mp first
      rw [not_or] at elsewhere
      have later : ¬ sep <+: item :: (text ++ sep ++ rest) := fun here => by
        refine elsewhere.1 (List.prefix_of_prefix_length_le here ?_ ?_)
        · rw [List.cons_prefix_cons]
          refine ⟨rfl, ?_⟩
          rw [List.append_assoc]
          exact (List.prefix_append_right_inj text).mpr
            ((List.dropLast_prefix sep).trans (List.prefix_append sep rest))
        · show sep.length ≤ (text ++ sep.dropLast).length + 1
          rw [List.length_append, List.length_dropLast]
          omega
      rw [List.cons_append, List.cons_append, cut,
        if_neg fun here => later (List.isPrefixOf_iff_prefix.mp here), ih elsewhere.2]

theorem cut_join (found : (cut sep items).2 = some rest) :
    items = (cut sep items).1 ++ sep ++ rest := by
  induction items with
  | nil => cases found
  | cons item items ih =>
      rw [cut] at found ⊢
      split_ifs at found ⊢ with here
      · obtain ⟨behind, same⟩ := List.isPrefixOf_iff_prefix.mp here
        cases found
        rw [← same, List.drop_left]
        rfl
      · exact congrArg (item :: ·) (ih found)

theorem cut_whole (none_found : (cut sep items).2 = none) : (cut sep items).1 = items := by
  induction items with
  | nil => rfl
  | cons item items ih =>
      rw [cut] at none_found ⊢
      split_ifs at none_found ⊢ with here
      exact congrArg (item :: ·) (ih none_found)

theorem cut_prefix (sep items : List Item) : (cut sep items).1 <+: items := by
  cases found : (cut sep items).2 with
  | none => rw [cut_whole found]
  | some rest => exact ⟨sep ++ rest, by rw [← List.append_assoc]; exact (cut_join found).symm⟩

theorem cut_clear (nonempty : sep ≠ []) (items : List Item) : ¬ sep <:+: (cut sep items).1 := by
  induction items with
  | nil => exact fun inside => nonempty (List.infix_nil.mp inside)
  | cons item items ih =>
      rw [cut]
      split_ifs with here
      · exact fun inside => nonempty (List.infix_nil.mp inside)
      · intro inside
        rcases List.infix_cons_iff.mp inside with front | later
        · have longer : item :: (cut sep items).1 <+: item :: items :=
            List.cons_prefix_cons.mpr ⟨rfl, cut_prefix sep items⟩
          exact here (List.isPrefixOf_iff_prefix.mpr (front.trans longer))
        · exact ih later

/-- A separator of one item. -/
theorem cut_at {item : Item} (first : item ∉ text) (rest : List Item) :
    cut [item] (text ++ item :: rest) = (text, some rest) := by
  have absent : ¬ [item] <:+: text ++ [item].dropLast := by
    rw [show [item].dropLast = [] from rfl, List.append_nil]
    exact fun inside => first (inside.subset List.mem_cons_self)
  have found := cut_found (List.cons_ne_nil item []) absent rest
  rwa [List.append_assoc] at found

theorem cut_at_iff {item : Item} :
    cut [item] items = (text, some rest) ↔ items = text ++ item :: rest ∧ item ∉ text := by
  constructor
  · intro found
    have joined := cut_join (congrArg Prod.snd found)
    have clear : item ∉ (cut [item] items).1 := fun member => by
      obtain ⟨before, after, split⟩ := List.append_of_mem member
      refine cut_clear (List.cons_ne_nil item []) items ⟨before, after, ?_⟩
      rw [split, List.append_assoc]
      rfl
    rw [found] at joined clear
    rw [List.append_assoc] at joined
    exact ⟨joined, clear⟩
  · rintro ⟨rfl, first⟩
    exact cut_at first rest

end StudyWebServer.Cutting
