import Mathlib.Logic.Basic

/-!
A lock that one thread at a time holds, and the places at which a thread must hold it.
-/

namespace StudyWebServer.Mutex

universe u
variable {Thread : Type u} {owner after : Option Thread}
  {inside next : Thread → Bool} {t u : Thread}

/-- Who is inside has the lock. -/
def Exclusive (owner : Option Thread) (inside : Thread → Bool) : Prop :=
  ∀ t, inside t = true → owner = some t

theorem Exclusive.alone (exclusive : Exclusive owner inside) (one : inside t = true)
    (two : inside u = true) : t = u :=
  Option.some.inj ((exclusive t one).symm.trans (exclusive u two))

/-- A step of one thread leaves the lock alone, takes it, or gives it back. -/
theorem Exclusive.move (exclusive : Exclusive owner inside) (t : Thread)
    (rule : after = owner ∧ next t = inside t ∨ owner = none ∧ after = some t ∨
      inside t = true ∧ next t = false)
    (others : ∀ u, u ≠ t → next u = inside u) : Exclusive after next := by
  intro u entered
  by_cases same : u = t
  · subst same
    rcases rule with ⟨owns, stays⟩ | ⟨-, owns⟩ | ⟨-, outside⟩
    · rw [owns, exclusive u (stays ▸ entered)]
    · exact owns
    · rw [outside] at entered
      cases entered
  · have before := others u same ▸ entered
    rcases rule with ⟨owns, -⟩ | ⟨free, -⟩ | ⟨held, -⟩
    -- another thread inside, so the lock was its own
    · rw [owns, exclusive u before]
    · exact absurd ((exclusive u before).symm.trans free) (by simp)
    · exact absurd (exclusive.alone before held) same

/-- Who has the lock is inside as well. -/
def Guards (owner : Option Thread) (inside : Thread → Bool) : Prop :=
  ∀ t, owner = some t ↔ inside t = true

theorem Guards.exclusive (guards : Guards owner inside) : Exclusive owner inside :=
  fun t => (guards t).mpr

theorem Guards.move (guards : Guards owner inside) (t : Thread)
    (rule : after = owner ∧ next t = inside t ∨ owner = none ∧ after = some t ∧ next t = true ∨
      inside t = true ∧ after = none ∧ next t = false)
    (others : ∀ u, u ≠ t → next u = inside u) : Guards after next := by
  refine fun u => ⟨fun owns => ?_, guards.exclusive.move t ?_ others u⟩
  · rcases rule with ⟨same, stays⟩ | ⟨-, taken, entered⟩ | ⟨-, given, -⟩
    · have before := (guards u).mp (same ▸ owns)
      by_cases mover : u = t
      · rw [mover, stays, ← mover, before]
      · rw [others u mover, before]
    · rw [← Option.some.inj (taken.symm.trans owns), entered]
    · exact absurd (given.symm.trans owns) (by simp)
  · rcases rule with stays | ⟨free, taken, -⟩ | ⟨held, -, left⟩
    · exact .inl stays
    · exact .inr (.inl ⟨free, taken⟩)
    · exact .inr (.inr ⟨held, left⟩)

end StudyWebServer.Mutex
