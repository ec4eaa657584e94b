import StudyWebServer.Library.CondVar
import Mathlib.Tactic.SplitIfs

/-!
BlockDeque of WebServer-master/code/log: a deque of limited size between any number of
threads that push and that pop, with a condition variable for each side. What is done
under the mutex is one step. The pop with a timeout is left out.
-/

namespace StudyWebServer.WebServer.BlockDeque

open CondVar

/-- Where a thread stands in push_back or push_front. -/
inductive PushAt (T : Type) where
  | idle
  /-- before it has the mutex, at first or woken up -/
  | entered (item : T) (front : Bool)
  /-- in `condProducer_.wait(locker)` -/
  | waiting (item : T) (front : Bool)
  deriving DecidableEq

/-- Where a thread stands in pop. -/
inductive PopAt where
  | idle
  | entered
  /-- in `condConsumer_.wait(locker)` -/
  | waiting
  /-- behind the wait, where isClose_ is looked at first -/
  | woken
  deriving DecidableEq

/-- Where Close stands. -/
inductive CloseAt where
  | outside
  | notifyingProducers
  | notifyingConsumers
  deriving DecidableEq

/-- How an item left the deque. -/
inductive Departure (T : Type) where
  | popped (item : T)
  /-- by clear or Close -/
  | dropped (item : T)
  deriving DecidableEq

def Departure.item {T : Type} : Departure T → T
  | .popped item => item
  | .dropped item => item

/-- push_front or push_back of std::deque -/
def put {T : Type} (deq : List T) (item : T) (front : Bool) : List T :=
  if front then item :: deq else deq ++ [item]

theorem put_length {T : Type} (deq : List T) (item : T) (front : Bool) :
    (put deq item front).length = deq.length + 1 := by
  cases front <;> simp [put]

structure Deque (P C T : Type) where
  deq : List T
  capacity : Nat
  isClose : Bool
  pushes : P → PushAt T
  pops : C → PopAt
  closing : CloseAt
  /-- the items in the order in which they were put in -/
  pushed : List T
  /-- in the order in which they left -/
  gone : List (Departure T)

inductive Action (P C T : Type) where
  | callPush (thread : P) (item : T) (front : Bool)
  /-- what push_back or push_front does under the mutex, with the consumer it wakes -/
  | push (thread : P) (woken : Option C)
  | callPop (thread : C)
  | pop (thread : C) (woken : Option P)
  | flush (woken : Option C)
  | clear
  | close
  | notifyProducers
  | notifyConsumers
  /-- a wait that returns without a notification -/
  | wakePush (thread : P)
  | wakePop (thread : C)

section Waiting
variable {T : Type}

def pushAsleep : PushAt T → Bool
  | .waiting _ _ => true
  | _ => false

def pushReady : PushAt T → Bool
  | .entered _ _ => true
  | _ => false

def pushAwake : PushAt T → PushAt T
  | .waiting item front => .entered item front
  | place => place

theorem push_apart (place : PushAt T) (asleep : pushAsleep place = true) :
    pushReady place = false := by
  cases place with
  | idle => rfl
  | entered => cases asleep
  | waiting => rfl

theorem push_wakes (place : PushAt T) (asleep : pushAsleep place = true) :
    pushReady (pushAwake place) = true := by
  cases place with
  | idle => cases asleep
  | entered => cases asleep
  | waiting => rfl

def condProducer (T : Type) : Waiting (PushAt T) :=
  ⟨pushAsleep, pushReady, pushAwake, push_apart, push_wakes⟩

def popAsleep (place : PopAt) : Bool := place = .waiting

def popReady : PopAt → Bool
  | .entered => true
  | .woken => true
  | _ => false

theorem pop_apart (place : PopAt) (asleep : popAsleep place = true) : popReady place = false := by
  cases of_decide_eq_true asleep
  rfl

def condConsumer : Waiting PopAt :=
  ⟨popAsleep, popReady, fun _ => .woken, pop_apart, fun _ _ => rfl⟩

end Waiting

namespace Deque
variable {P C T : Type}

def start (capacity : Nat) : Deque P C T where
  deq := []
  capacity := capacity
  isClose := false
  pushes _ := .idle
  pops _ := .idle
  closing := .outside
  pushed := []
  gone := []

variable [DecidableEq P] [DecidableEq C]

def pushTo (d : Deque P C T) (thread : P) (place : PushAt T) : Deque P C T :=
  { d with pushes := Function.update d.pushes thread place }

def popTo (d : Deque P C T) (thread : C) (place : PopAt) : Deque P C T :=
  { d with pops := Function.update d.pops thread place }

/-- All items at once. -/
def drop (d : Deque P C T) : Deque P C T :=
  { d with deq := [], gone := d.gone ++ d.deq.map .dropped }

def callPush (d : Deque P C T) (thread : P) (item : T) (front : Bool) : Option (Deque P C T) :=
  match d.pushes thread with
  | .idle => some (d.pushTo thread (.entered item front))
  | _ => none

def callPop (d : Deque P C T) (thread : C) : Option (Deque P C T) :=
  match d.pops thread with
  | .idle => some (d.popTo thread .entered)
  | _ => none

def wakePush (d : Deque P C T) (thread : P) : Option (Deque P C T) :=
  match d.pushes thread with
  | .waiting item front => some (d.pushTo thread (.entered item front))
  | _ => none

def wakePop (d : Deque P C T) (thread : C) : Option (Deque P C T) :=
  match d.pops thread with
  | .waiting => some (d.popTo thread .woken)
  | _ => none

def close (d : Deque P C T) : Option (Deque P C T) :=
  match d.closing with
  | .outside => some { d.drop with isClose := true, closing := .notifyingProducers }
  | _ => none

/-- A consumer that looks at the deque: behind a wait isClose_ is looked at first. -/
def Looks (d : Deque P C T) (thread : C) : Prop :=
  d.pops thread = .entered ∨ d.pops thread = .woken ∧ d.isClose = false

omit [DecidableEq P] [DecidableEq C] in
theorem Looks.ready {d : Deque P C T} {thread : C} (looks : d.Looks thread) :
    popReady (d.pops thread) = true := by
  rcases looks with entered | ⟨woken, -⟩
  · rw [entered]
    rfl
  · rw [woken]
    rfl

omit [DecidableEq P] [DecidableEq C] in
theorem Looks.not_closed {d : Deque P C T} {thread : C} (looks : d.Looks thread) :
    ¬ (d.pops thread = .woken ∧ d.isClose = true) := by
  rintro ⟨woken, closed⟩
  rcases looks with entered | ⟨-, isOpen⟩
  · rw [entered] at woken
    cases woken
  · rw [closed] at isOpen
    cases isOpen

/-- What a step can do, with the action it belongs to. -/
inductive Change (d : Deque P C T) : Action P C T → Deque P C T → Prop where
  | pushCalled (thread : P) (item : T) (front : Bool) (idle : d.pushes thread = .idle) :
      Change d (.callPush thread item front) (d.pushTo thread (.entered item front))
  | pushWaits (thread : P) (woken : Option C) (item : T) (front : Bool)
      (entered : d.pushes thread = .entered item front) (full : d.capacity ≤ d.deq.length) :
      Change d (.push thread woken) (d.pushTo thread (.waiting item front))
  | pushed (thread : P) (woken : Option C) (item : T) (front : Bool) (pops : C → PopAt)
      (entered : d.pushes thread = .entered item front) (room : d.deq.length < d.capacity)
      (notified : NotifyOne condConsumer d.pops pops) :
      Change d (.push thread woken) { d.pushTo thread .idle with
        deq := put d.deq item front
        pops := pops
        pushed := d.pushed ++ [item] }
  | popCalled (thread : C) (idle : d.pops thread = .idle) :
      Change d (.callPop thread) (d.popTo thread .entered)
  | popWaits (thread : C) (woken : Option P) (looks : d.Looks thread)
      (empty : d.deq = []) : Change d (.pop thread woken) (d.popTo thread .waiting)
  | popped (thread : C) (woken : Option P) (item : T) (rest : List T) (pushes : P → PushAt T)
      (looks : d.Looks thread) (items : d.deq = item :: rest)
      (notified : NotifyOne (condProducer T) d.pushes pushes) :
      Change d (.pop thread woken) { d.popTo thread .idle with
        deq := rest
        pushes := pushes
        gone := d.gone ++ [.popped item] }
  | popClosed (thread : C) (woken : Option P) (behind : d.pops thread = .woken)
      (closed : d.isClose = true) : Change d (.pop thread woken) (d.popTo thread .idle)
  | flushed (woken : Option C) (pops : C → PopAt) (notified : NotifyOne condConsumer d.pops pops) :
      Change d (.flush woken) { d with pops := pops }
  | cleared : Change d .clear d.drop
  | closed (outside : d.closing = .outside) :
      Change d .close { d.drop with isClose := true, closing := .notifyingProducers }
  | notifiedProducers (closing : d.closing = .notifyingProducers) :
      Change d .notifyProducers { d with
        pushes := notifyAll (condProducer T) d.pushes, closing := .notifyingConsumers }
  | notifiedConsumers (closing : d.closing = .notifyingConsumers) :
      Change d .notifyConsumers { d with
        pops := notifyAll condConsumer d.pops, closing := .outside }
  | pushWoken (thread : P) (item : T) (front : Bool)
      (waiting : d.pushes thread = .waiting item front) :
      Change d (.wakePush thread) (d.pushTo thread (.entered item front))
  | popWoken (thread : C) (waiting : d.pops thread = .waiting) :
      Change d (.wakePop thread) (d.popTo thread .woken)

variable [Fintype P] [Fintype C]

def push (d : Deque P C T) (thread : P) (woken : Option C) : Option (Deque P C T) :=
  match d.pushes thread with
  | .entered item front =>
      if d.capacity ≤ d.deq.length then some (d.pushTo thread (.waiting item front))
      else
        match notify condConsumer d.pops woken with
        | none => none
        | some pops => some { d.pushTo thread .idle with
            deq := put d.deq item front
            pops := pops
            pushed := d.pushed ++ [item] }
  | _ => none

/-- What pop does once it looks at the deque. -/
def take (d : Deque P C T) (thread : C) (woken : Option P) : Option (Deque P C T) :=
  match d.deq with
  | [] => some (d.popTo thread .waiting)
  | item :: rest =>
      match notify (condProducer T) d.pushes woken with
      | none => none
      | some pushes => some { d.popTo thread .idle with
          deq := rest
          pushes := pushes
          gone := d.gone ++ [.popped item] }

def pop (d : Deque P C T) (thread : C) (woken : Option P) : Option (Deque P C T) :=
  match d.pops thread with
  | .entered => d.take thread woken
  | .woken => if d.isClose then some (d.popTo thread .idle) else d.take thread woken
  | _ => none

def flush (d : Deque P C T) (woken : Option C) : Option (Deque P C T) :=
  (notify condConsumer d.pops woken).map fun pops => { d with pops := pops }

def notifyProducers (d : Deque P C T) : Option (Deque P C T) :=
  match d.closing with
  | .notifyingProducers => some { d with
      pushes := notifyAll (condProducer T) d.pushes, closing := .notifyingConsumers }
  | _ => none

def notifyConsumers (d : Deque P C T) : Option (Deque P C T) :=
  match d.closing with
  | .notifyingConsumers =>
      some { d with pops := notifyAll condConsumer d.pops, closing := .outside }
  | _ => none

def step (d : Deque P C T) : Action P C T → Option (Deque P C T)
  | .callPush thread item front => d.callPush thread item front
  | .push thread woken => d.push thread woken
  | .callPop thread => d.callPop thread
  | .pop thread woken => d.pop thread woken
  | .flush woken => d.flush woken
  | .clear => some d.drop
  | .close => d.close
  | .notifyProducers => d.notifyProducers
  | .notifyConsumers => d.notifyConsumers
  | .wakePush thread => d.wakePush thread
  | .wakePop thread => d.wakePop thread

omit [Fintype C] in
theorem change_of_take {d next : Deque P C T} {thread : C} {woken : Option P}
    (looks : d.Looks thread) (took : d.take thread woken = some next) :
    Change d (.pop thread woken) next := by
  unfold take at took
  split at took
  · next empty =>
      cases took
      exact .popWaits thread woken looks empty
  · next item rest items =>
      split at took
      · cases took
      · next pushes notified =>
          cases took
          exact .popped thread woken item rest pushes looks items (notify_one_of_notify notified)

theorem change_of_step {d next : Deque P C T} {action : Action P C T}
    (stepped : d.step action = some next) : Change d action next := by
  cases action with
  | callPush thread item front =>
      dsimp only [step] at stepped
      unfold callPush at stepped
      split at stepped
      · next idle =>
          cases stepped
          exact .pushCalled thread item front idle
      · cases stepped
  | push thread woken =>
      dsimp only [step] at stepped
      unfold push at stepped
      split at stepped
      · next item front entered =>
          split_ifs at stepped with full
          · cases stepped
            exact .pushWaits thread woken item front entered full
          · split at stepped
            · cases stepped
            · next pops notified =>
                cases stepped
                exact .pushed thread woken item front pops entered (Nat.lt_of_not_le full)
                  (notify_one_of_notify notified)
      · cases stepped
  | callPop thread =>
      dsimp only [step] at stepped
      unfold callPop at stepped
      split at stepped
      · next idle =>
          cases stepped
          exact .popCalled thread idle
      · cases stepped
  | pop thread woken =>
      dsimp only [step] at stepped
      unfold pop at stepped
      split at stepped
      · next entered => exact change_of_take (.inl entered) stepped
      · next behind =>
          split_ifs at stepped with closed
          · cases stepped
            exact .popClosed thread woken behind closed
          · exact change_of_take (.inr ⟨behind, Bool.eq_false_iff.mpr closed⟩) stepped
      · cases stepped
  | flush woken =>
      obtain ⟨pops, notified, same⟩ := Option.map_eq_some_iff.mp stepped
      cases same
      exact .flushed woken pops (notify_one_of_notify notified)
  | clear =>
      cases stepped
      exact .cleared
  | close =>
      dsimp only [step] at stepped
      unfold close at stepped
      split at stepped
      · next outside =>
          cases stepped
          exact .closed outside
      · cases stepped
  | notifyProducers =>
      dsimp only [step] at stepped
      unfold notifyProducers at stepped
      split at stepped
      · next closing =>
          cases stepped
          exact .notifiedProducers closing
      · cases stepped
  | notifyConsumers =>
      dsimp only [step] at stepped
      unfold notifyConsumers at stepped
      split at stepped
      · next closing =>
          cases stepped
          exact .notifiedConsumers closing
      · cases stepped
  | wakePush thread =>
      dsimp only [step] at stepped
      unfold wakePush at stepped
      split at stepped
      · next item front waiting =>
          cases stepped
          exact .pushWoken thread item front waiting
      · cases stepped
  | wakePop thread =>
      dsimp only [step] at stepped
      unfold wakePop at stepped
      split at stepped
      · next waiting =>
          cases stepped
          exact .popWoken thread waiting
      · cases stepped

/-- The states that steps of the allowed kinds lead to. -/
inductive Reached (allowed : Action P C T → Prop) (capacity : Nat) : Deque P C T → Prop where
  | start : Reached allowed capacity (start capacity)
  | step {d next : Deque P C T} (action : Action P C T) (reached : Reached allowed capacity d)
      (allows : allowed action) (stepped : d.step action = some next) :
      Reached allowed capacity next

end Deque

end StudyWebServer.WebServer.BlockDeque
