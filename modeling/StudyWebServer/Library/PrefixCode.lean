import Mathlib.Data.List.Basic
import Mathlib.Data.List.Infix

/-!
Words none of which begins with another one. A text of such words, the last of which may have
been cut off, can be read in one way only.
-/

namespace StudyWebServer.PrefixCode

universe u
variable {Item : Type u} {word : List Item → Prop}

structure Code (word : List Item → Prop) : Prop where
  apart : ∀ one other, word one → word other → one <+: other → one = other
  filled : ∀ one, word one → one ≠ []

theorem Code.first (code : Code word) {one other rest behind : List Item}
    (here : word one) (there : word other)
    (same : one ++ rest = other ++ behind) : one = other ∧ rest = behind := by
  have words : one = other := by
    have begins : one <+: other ++ behind := same ▸ List.prefix_append one rest
    rcases List.prefix_or_prefix_of_prefix begins
      (List.prefix_append other behind) with shorter | longer
    · exact code.apart one other here there shorter
    · exact (code.apart other one there here longer).symm
  subst words
  exact ⟨rfl, List.append_cancel_left same⟩

/-- A text of words with a proper part of one behind them. -/
def Unfinished (word : List Item → Prop) (part : List Item) : Prop :=
  part = [] ∨ ∃ rest, rest ≠ [] ∧ word (part ++ rest)

/-- Words that a text begins with are among those that it was made of, in their order. -/
theorem Code.read (code : Code word) {words others : List (List Item)} {part : List Item}
    (whole : ∀ one ∈ words, word one) (also : ∀ one ∈ others, word one)
    (unfinished : Unfinished word part)
    (begins : others.flatten <+: words.flatten ++ part) : others <+: words := by
  induction others generalizing words with
  | nil => exact List.nil_prefix
  | cons other others ih =>
      have other_word := also other List.mem_cons_self
      obtain ⟨left, same⟩ := begins
      rw [List.flatten_cons, List.append_assoc] at same
      cases words with
      | nil =>
          -- the part would have a whole word in it, and more of that word behind
          rw [List.flatten_nil, List.nil_append] at same
          rcases unfinished with none | ⟨rest, some, longer⟩
          · rw [none] at same
            exact absurd (List.append_eq_nil_iff.mp same).1 (code.filled other other_word)
          · rw [← same, List.append_assoc] at longer
            have alone := code.apart _ _ other_word longer (List.prefix_append _ _)
            have nothing := List.self_eq_append_right.mp alone
            exact absurd (List.append_eq_nil_iff.mp nothing).2 some
      | cons first words =>
          rw [List.flatten_cons, List.append_assoc] at same
          obtain ⟨rfl, rest⟩ := code.first other_word (whole first List.mem_cons_self) same
          exact List.cons_prefix_cons.mpr ⟨rfl, ih (fun one member => whole one (.tail _ member))
            (fun one member => also one (.tail _ member)) ⟨left, rest⟩⟩

/-- What is left of such a text when some of it was taken. -/
theorem taken {words : List (List Item)} {sent left : List Item} (whole : ∀ one ∈ words, word one)
    (same : sent ++ left = words.flatten) : ∃ (done : List (List Item))
    (part : List Item), (∀ one ∈ done, word one) ∧
      sent = done.flatten ++ part ∧ Unfinished word part := by
  rcases List.flatten_eq_append_iff.mp same.symm with ⟨done, after, rfl, sent, -⟩ |
    ⟨done, part, item, rest, after, rfl, sent, -⟩
  · exact ⟨done, [], fun one member => whole one (List.mem_append_left _ member),
      sent.trans (List.append_nil _).symm, .inl rfl⟩
  · exact ⟨done, part, fun one member => whole one (List.mem_append_left _ member), sent,
      .inr ⟨item :: rest, List.cons_ne_nil _ _,
        whole _ (List.mem_append_right _ List.mem_cons_self)⟩⟩

end StudyWebServer.PrefixCode
