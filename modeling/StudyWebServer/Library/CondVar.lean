import StudyWebServer.Library.ThreadCount

/-!
A condition variable on which threads wait for something in store. As long as somebody is
asleep, no more may be in store than what the threads that are awake, and those that the
notifications still to come will wake, are going to look at.
-/

namespace StudyWebServer.CondVar

open ThreadCount

/-- What the condition variable needs to know of the places at which a thread stands. -/
structure Waiting (Place : Type) where
  asleep : Place → Bool
  /-- about to look at what is in store -/
  ready : Place → Bool
  /-- where a thread that was asleep goes on -/
  awake : Place → Place
  apart : ∀ place, asleep place = true → ready place = false
  wakes : ∀ place, asleep place = true → ready (awake place) = true

variable {Thread Place : Type} {waiting : Waiting Place} {spot after : Thread → Place}
  {store rest pending : Nat}

theorem Waiting.quiet (waiting : Waiting Place) {place : Place}
    (ready : waiting.ready place = true) :
    waiting.asleep place = false := by
  cases asleep : waiting.asleep place with
  | false => rfl
  | true => exact ready.symm.trans (waiting.apart place asleep)

/-- One of the threads that are asleep wakes up, if there is any. -/
inductive NotifyOne [DecidableEq Thread] (waiting : Waiting Place) (spot : Thread → Place) :
    (Thread → Place) → Prop where
  | one (thread : Thread) (asleep : waiting.asleep (spot thread) = true) :
      NotifyOne waiting spot (Function.update spot thread (waiting.awake (spot thread)))
  | nobody (awake : ∀ thread, waiting.asleep (spot thread) = false) : NotifyOne waiting spot spot

/-- notify_one with the thread that it wakes. -/
def notify [DecidableEq Thread] [Fintype Thread] (waiting : Waiting Place) (spot : Thread → Place) :
    Option Thread → Option (Thread → Place)
  | some thread =>
      if waiting.asleep (spot thread) then
        some (Function.update spot thread (waiting.awake (spot thread)))
      else none
  | none => if ∀ thread, waiting.asleep (spot thread) = false then some spot else none

theorem notify_one_of_notify [DecidableEq Thread] [Fintype Thread] {chosen : Option Thread}
    (notified : notify waiting spot chosen = some after) : NotifyOne waiting spot after := by
  cases chosen with
  | some thread =>
      obtain ⟨asleep, same⟩ := Option.ite_none_right_eq_some.mp notified
      cases same
      exact .one thread asleep
  | none =>
      obtain ⟨awake, same⟩ := Option.ite_none_right_eq_some.mp notified
      cases same
      exact .nobody awake

def notifyAll (waiting : Waiting Place) (spot : Thread → Place) (thread : Thread) : Place :=
  if waiting.asleep (spot thread) then waiting.awake (spot thread) else spot thread

theorem notify_all_awake (thread : Thread) :
    waiting.asleep (notifyAll waiting spot thread) = false := by
  unfold notifyAll
  split
  · next asleep => exact waiting.quiet (waiting.wakes _ asleep)
  · next awake => exact Bool.eq_false_iff.mpr awake

section Covered
variable [Fintype Thread]

/-- A property that does not tell the places of sleeping threads from those where they wake. -/
theorem standing_notify_all {holds : Place → Bool}
    (same : ∀ place, waiting.asleep place = true → holds (waiting.awake place) = holds place) :
    standing (notifyAll waiting spot) holds = standing spot holds := by
  apply Finset.sum_congr rfl
  intro thread _
  unfold notifyAll
  split
  · next asleep => rw [same _ asleep]
  · rfl

theorem NotifyOne.standing [DecidableEq Thread] {holds : Place → Bool}
    (same : ∀ place, waiting.asleep place = true → holds (waiting.awake place) = holds place)
    (notified : NotifyOne waiting spot after) : standing after holds = standing spot holds := by
  cases notified with
  | one thread asleep => exact standing_stays (same _ asleep)
  | nobody => rfl

/-- Nothing in store is overlooked while somebody is asleep. -/
def Covered (waiting : Waiting Place) (spot : Thread → Place) (store pending : Nat) : Prop :=
  ∀ thread, waiting.asleep (spot thread) = true → store ≤ standing spot waiting.ready + pending

theorem Covered.awake (awake : ∀ thread, waiting.asleep (spot thread) = false) :
    Covered waiting spot store pending := by
  intro thread asleep
  rw [awake thread] at asleep
  cases asleep

theorem Covered.nothing : Covered waiting spot 0 pending := fun _ _ => Nat.zero_le _

/-- One notification more than it takes. -/
theorem Covered.spare (covered : Covered waiting spot store pending) :
    Covered waiting spot store (pending + 1) :=
  fun thread asleep => (covered thread asleep).trans (Nat.le_succ _)

theorem Covered.fewer (covered : Covered waiting spot store pending) (fewer : rest ≤ store) :
    Covered waiting spot rest pending :=
  fun thread asleep => fewer.trans (covered thread asleep)

/-- Something is put in store, and a notification is to follow. -/
theorem Covered.produce (covered : Covered waiting spot store pending) :
    Covered waiting spot (store + 1) (pending + 1) :=
  fun thread asleep => Nat.succ_le_succ (covered thread asleep)

variable [DecidableEq Thread]

/-- A thread moves without going to sleep, and does not stop looking for more than it takes. -/
theorem Covered.move (covered : Covered waiting spot store pending)
    {thread : Thread} {place : Place}
    (stays : waiting.asleep place = false)
    (balance : rest + (waiting.ready (spot thread)).toNat ≤ store + (waiting.ready place).toNat) :
    Covered waiting (Function.update spot thread place) rest pending := by
  intro other asleep
  have apart : other ≠ thread := by
    rintro rfl
    rw [Function.update_self, stays] at asleep
    cases asleep
  rw [Function.update_of_ne apart] at asleep
  have before := covered other asleep
  have moved := standing_update spot waiting.ready thread place
  omega

/-- A notification has no fewer threads look at what is in store. -/
theorem Covered.notify (covered : Covered waiting spot store (pending + 1))
    (notified : NotifyOne waiting spot after) : Covered waiting after store pending := by
  cases notified with
  | nobody awake => exact .awake awake
  | one thread asleep =>
      have ready := waiting.wakes _ asleep
      intro other still
      have apart : other ≠ thread := by
        rintro rfl
        rw [Function.update_self, waiting.quiet ready] at still
        cases still
      rw [Function.update_of_ne apart] at still
      have before := covered other still
      have entered := standing_enters (waiting.apart _ asleep) ready
      omega

end Covered

end StudyWebServer.CondVar
