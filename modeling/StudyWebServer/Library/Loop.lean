import Mathlib.Logic.Basic

/-!
Loops whose body either goes round again or returns. A measure that every
further round decreases makes the loop a total function; the recursion is on
the value of the measure, so a closed run still evaluates. A loop without a
measure is given a number of rounds. The rules below are the only facts about
the recursion that a client needs.
-/

namespace StudyWebServer.Loop

universe u v
variable {State : Type u} {Value : Type v}

/-- Every further round of the body makes the measure smaller. -/
def Decreases (body : State → State ⊕ Value) (measure : State → Nat) : Prop :=
  ∀ state next, body state = .inl next → measure next < measure state

def runFrom (body : State → State ⊕ Value) (measure : State → Nat)
    (decreases : Decreases body measure) :
    (bound : Nat) → (state : State) → measure state < bound → Value
  | 0, _, room => absurd room (Nat.not_lt_zero _)
  | bound + 1, state, room =>
      match round : body state with
      | .inr value => value
      | .inl next => runFrom body measure decreases bound next
          (Nat.lt_of_lt_of_le (decreases state next round) (Nat.le_of_lt_succ room))

def run (body : State → State ⊕ Value) (measure : State → Nat)
    (decreases : Decreases body measure) (state : State) : Value :=
  runFrom body measure decreases (measure state + 1) state (Nat.lt_succ_self _)

variable {body : State → State ⊕ Value} {measure : State → Nat}
  {decreases : Decreases body measure}

theorem run_from_bound (bound other : Nat) (state : State)
    (room : measure state < bound) (also : measure state < other) :
    runFrom body measure decreases bound state room =
      runFrom body measure decreases other state also := by
  induction bound generalizing other state with
  | zero => exact absurd room (Nat.not_lt_zero _)
  | succ bound ih =>
      cases other with
      | zero => exact absurd also (Nat.not_lt_zero _)
      | succ other =>
          simp only [runFrom]
          split
          · rfl
          · exact ih other _ _ _

theorem run_return {state : State} {value : Value} (round : body state = .inr value) :
    run body measure decreases state = value := by
  simp only [run, runFrom]
  split
  · next returned same => exact Sum.inr.inj (same.symm.trans round)
  · next next same => exact absurd (same.symm.trans round) (by simp)

theorem run_again {state next : State} (round : body state = .inl next) :
    run body measure decreases state = run body measure decreases next := by
  have smaller := decreases state next round
  simp only [run]
  rw [runFrom]
  split
  · next value same => exact absurd (same.symm.trans round) (by simp)
  · next found same =>
      have equal : found = next := Sum.inl.inj (same.symm.trans round)
      subst equal
      exact run_from_bound _ _ _ _ _

/-- A relation between a state and the final value that every round pulls back
and every return establishes holds of the whole run. -/
theorem run_induction {motive : State → Value → Prop}
    (again : ∀ state next value, body state = .inl next → motive next value →
      motive state value)
    (returned : ∀ state value, body state = .inr value → motive state value)
    (state : State) : motive state (run body measure decreases state) := by
  induction size : measure state using Nat.strongRecOn generalizing state with
  | ind count ih =>
      cases round : body state with
      | inl next =>
          have smaller := decreases state next round
          rw [run_again round]
          exact again state next _ round (ih _ (by omega) next rfl)
      | inr value =>
          rw [run_return round]
          exact returned state value round

section Attempt

/-- At most that many rounds. -/
def attempt (body : State → State ⊕ Value) : (rounds : Nat) → State → Option Value
  | 0, _ => none
  | rounds + 1, state =>
      match body state with
      | .inr value => some value
      | .inl next => attempt body rounds next

/-- The loop comes to an end, with this value. -/
def Ends (body : State → State ⊕ Value) (state : State) (value : Value) : Prop :=
  ∃ rounds, attempt body rounds state = some value

theorem attempt_return {state : State} {value : Value} (round : body state = .inr value)
    (rounds : Nat) : attempt body (rounds + 1) state = some value := by
  simp only [attempt, round]

theorem attempt_again {state next : State} (round : body state = .inl next) (rounds : Nat) :
    attempt body (rounds + 1) state = attempt body rounds next := by
  simp only [attempt, round]

/-- Any measure that goes down bounds the rounds of the run. -/
theorem attempt_run {other : State → Nat} (goesDown : Decreases body other) {rounds : Nat}
    {state : State} (enough : other state < rounds) :
    attempt body rounds state = some (run body measure decreases state) := by
  induction rounds generalizing state with
  | zero => exact absurd enough (Nat.not_lt_zero _)
  | succ rounds ih =>
      cases round : body state with
      | inr value => rw [attempt_return round, run_return round]
      | inl next =>
          have smaller := goesDown state next round
          rw [attempt_again round, run_again round]
          exact ih (by omega)

theorem ends_return {state : State} {value : Value} (round : body state = .inr value) :
    Ends body state value := ⟨1, attempt_return round 0⟩

theorem ends_again {state next : State} {value : Value} (round : body state = .inl next) :
    Ends body state value ↔ Ends body next value := by
  constructor
  · rintro ⟨rounds, ends⟩
    cases rounds with
    | zero => cases ends
    | succ rounds =>
        rw [attempt_again round] at ends
        exact ⟨rounds, ends⟩
  · rintro ⟨rounds, ends⟩
    exact ⟨rounds + 1, (attempt_again round rounds).trans ends⟩

/-- What is left of a loop that ends, by the number of its rounds. -/
theorem ends_induction {motive : State → Value → Prop}
    (again : ∀ state next value, body state = .inl next → motive next value →
      motive state value)
    (returned : ∀ state value, body state = .inr value → motive state value)
    {state : State} {value : Value} (ends : Ends body state value) : motive state value := by
  obtain ⟨rounds, ends⟩ := ends
  induction rounds generalizing state with
  | zero => cases ends
  | succ rounds ih =>
      cases round : body state with
      | inl next =>
          rw [attempt_again round] at ends
          exact again state next value round (ih ends)
      | inr found =>
          rw [attempt_return round] at ends
          cases ends
          exact returned state _ round

theorem ends_unique {state : State} {value other : Value} (ends : Ends body state value)
    (also : Ends body state other) : value = other := by
  revert also
  apply ends_induction (motive := fun state value => Ends body state other →
    value = other) ?_ ?_ ends
  · intro state next value round ih also
    exact ih ((ends_again round).mp also)
  · intro state value round also
    obtain ⟨rounds, also⟩ := also
    cases rounds with
    | zero => cases also
    | succ rounds =>
        rw [attempt_return round] at also
        exact Option.some.inj also

/-- Rounds that keep an invariant and go down in a measure come to an end. -/
theorem ends_of_measure {invariant : State → Prop} (measure : State → Nat)
    (again : ∀ state next, invariant state → body state = .inl next →
      invariant next ∧ measure next < measure state)
    (state : State) (initial : invariant state) : ∃ value, Ends body state value := by
  induction size : measure state using Nat.strongRecOn generalizing state with
  | ind count ih =>
      cases round : body state with
      | inr value => exact ⟨value, ends_return round⟩
      | inl next =>
          obtain ⟨held, smaller⟩ := again state next initial round
          obtain ⟨value, ends⟩ := ih (measure next) (by omega) next held rfl
          exact ⟨value, (ends_again round).mpr ends⟩

/-- Rounds that keep an invariant and never return. -/
theorem never_ends {invariant : State → Prop}
    (again : ∀ state, invariant state → ∃ next, body state = .inl next ∧ invariant next)
    (state : State) (initial : invariant state) (value : Value) : ¬ Ends body state value := by
  intro ends
  revert initial
  apply ends_induction (motive := fun state _ => invariant state → False) ?_ ?_ ends
  · intro state next value round ih held
    obtain ⟨after, same, kept⟩ := again state held
    cases round.symm.trans same
    exact ih kept
  · intro state value round held
    obtain ⟨after, same, _⟩ := again state held
    cases round.symm.trans same

end Attempt

end StudyWebServer.Loop
