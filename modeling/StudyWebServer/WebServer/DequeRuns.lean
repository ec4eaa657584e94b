import StudyWebServer.WebServer.BlockDeque
import Mathlib.Data.List.Perm.Basic

/-!
What holds of the deque after any steps of its threads: it keeps to its capacity, loses
nothing but by clear and Close, and wakes a thread for every item and for every free place.
clear notifies no producer, and behind Close a consumer that was woken leaves at once.
-/

namespace StudyWebServer.WebServer.BlockDeque

open ThreadCount CondVar

namespace Deque
variable {P C T : Type} [DecidableEq P] [DecidableEq C] {d next : Deque P C T}
  {action : Action P C T}

section Items

/-- What a step does to the items. -/
theorem items_cases (change : Change d action next) : next.capacity = d.capacity ∧
    ((next.deq = d.deq ∧ next.gone = d.gone ∧ next.pushed = d.pushed) ∨
    (∃ thread woken item front, action = .push thread woken ∧
      d.pushes thread = .entered item front ∧
      d.deq.length < d.capacity ∧ next.deq = put d.deq item front ∧ next.gone = d.gone ∧
      next.pushed = d.pushed ++ [item]) ∨
    (∃ item, d.deq = item :: next.deq ∧ next.gone = d.gone ++ [Departure.popped item] ∧
      next.pushed = d.pushed) ∨
    (next.deq = [] ∧ next.gone = d.gone ++ d.deq.map .dropped ∧ next.pushed = d.pushed)) := by
  refine ⟨by cases change <;> rfl, ?_⟩
  cases change with
  | pushed thread woken item front pops entered room notified =>
      exact .inr (.inl ⟨thread, woken, item, front, rfl, entered, room, rfl, rfl, rfl⟩)
  | popped thread woken item rest pushes looks items notified =>
      exact .inr (.inr (.inl ⟨item, items, rfl, rfl⟩))
  | cleared => exact .inr (.inr (.inr ⟨rfl, rfl, rfl⟩))
  | closed => exact .inr (.inr (.inr ⟨rfl, rfl, rfl⟩))
  | pushCalled => exact .inl ⟨rfl, rfl, rfl⟩
  | pushWaits => exact .inl ⟨rfl, rfl, rfl⟩
  | popCalled => exact .inl ⟨rfl, rfl, rfl⟩
  | popWaits => exact .inl ⟨rfl, rfl, rfl⟩
  | popClosed => exact .inl ⟨rfl, rfl, rfl⟩
  | flushed => exact .inl ⟨rfl, rfl, rfl⟩
  | notifiedProducers => exact .inl ⟨rfl, rfl, rfl⟩
  | notifiedConsumers => exact .inl ⟨rfl, rfl, rfl⟩
  | pushWoken => exact .inl ⟨rfl, rfl, rfl⟩
  | popWoken => exact .inl ⟨rfl, rfl, rfl⟩

/-- The items that left, followed by those in the deque. -/
def items (d : Deque P C T) : List T := d.gone.map Departure.item ++ d.deq

/-- A step keeps the items as they are or puts one more in. -/
theorem items_step (change : Change d action next) :
    (next.items = d.items ∧ next.pushed = d.pushed) ∨
    ∃ thread woken item front, action = .push thread woken ∧ d.pushes thread = .entered item front ∧
      next.items = d.gone.map Departure.item ++ put d.deq item front ∧
      next.pushed = d.pushed ++ [item] := by
  obtain ⟨-, ⟨deq, gone, pushed⟩ | ⟨thread, woken, item, front, is_push,
    entered, -, deq, gone, pushed⟩ |
    ⟨item, deq, gone, pushed⟩ | ⟨deq, gone, pushed⟩⟩ := items_cases change
  · exact .inl ⟨by rw [items, deq, gone]; rfl, pushed⟩
  · exact .inr ⟨thread, woken, item, front, is_push, entered, by rw [items, deq, gone], pushed⟩
  · refine .inl ⟨?_, pushed⟩
    rw [items, items, gone, deq, List.map_append, List.append_assoc]
    rfl
  · refine .inl ⟨?_, pushed⟩
    rw [items, items, gone, deq, List.map_append, List.map_map, List.append_nil]
    exact congrArg _ (List.map_id _)

theorem length_step (change : Change d action next) (bounded : d.deq.length ≤ d.capacity) :
    next.deq.length ≤ next.capacity := by
  obtain ⟨capacity, ⟨deq, -⟩ | ⟨thread, woken, item, front, -, -, room, deq, -⟩ | ⟨item, deq, -⟩ |
    ⟨deq, -⟩⟩ := items_cases change
  · rwa [capacity, deq]
  · rw [capacity, deq, put_length]
    exact room
  · rw [deq, List.length_cons] at bounded
    rw [capacity]
    exact Nat.le_of_succ_le bounded
  · rw [deq]
    exact Nat.zero_le _

end Items

section Back

/-- Where a thread stands in a push to the front. -/
def pushesFront : PushAt T → Bool
  | .entered _ front => front
  | .waiting _ front => front
  | .idle => false

def BackOnly (d : Deque P C T) : Prop := ∀ thread, pushesFront (d.pushes thread) = false

omit [DecidableEq C] in
theorem back_only_update (back : BackOnly d) {thread : P} {place : PushAt T}
    (stays : pushesFront place = false) : BackOnly (d.pushTo thread place) := by
  intro other
  show pushesFront (Function.update d.pushes thread place other) = false
  by_cases same : other = thread
  · subst same
    rw [Function.update_self]
    exact stays
  · rw [Function.update_of_ne same]
    exact back other

theorem front_awake (place : PushAt T) : pushesFront (pushAwake place) = pushesFront place := by
  cases place <;> rfl

theorem back_only_step (change : Change d action next) (back : BackOnly d)
    (behind : ∀ thread item, action ≠ .callPush thread item true) : BackOnly next := by
  cases change with
  | pushCalled thread item front idle =>
      refine back_only_update back ?_
      cases front with
      | false => rfl
      | true => exact absurd rfl (behind thread item)
  | pushWaits thread woken item front entered full =>
      have same := back thread
      rw [entered] at same
      exact back_only_update back same
  | pushed thread woken item front pops entered room notified =>
      exact back_only_update back rfl
  | popped thread woken item rest pushes looks items notified =>
      cases notified with
      | nobody awake => exact back
      | one other asleep =>
          refine back_only_update (d := d) back ?_
          exact (front_awake _).trans (back other)
  | notifiedProducers closing =>
      intro other
      show pushesFront (notifyAll (condProducer T) d.pushes other) = false
      unfold notifyAll
      split
      · exact (front_awake _).trans (back other)
      · exact back other
  | pushWoken thread item front waiting =>
      have same := back thread
      rw [waiting] at same
      exact back_only_update back same
  | popCalled => exact back
  | popWaits => exact back
  | popClosed => exact back
  | flushed => exact back
  | cleared => exact back
  | closed => exact back
  | notifiedConsumers => exact back
  | popWoken => exact back

end Back

section Wakeups

/-- No item is overlooked while a consumer is asleep, unless the deque was closed. -/
def ItemsNoticed [Fintype C] (d : Deque P C T) : Prop :=
  d.isClose = false → Covered condConsumer d.pops d.deq.length 0

/-- No free place is overlooked while a producer is asleep. -/
def PlacesNoticed [Fintype P] (d : Deque P C T) : Prop :=
  d.isClose = false → Covered (condProducer T) d.pushes (d.capacity - d.deq.length) 0

theorem items_noticed_step [Fintype C] (change : Change d action next) (noticed : ItemsNoticed d) :
    ItemsNoticed next := by
  intro isOpen
  cases change with
  | pushed thread woken item front pops entered room notified =>
      show Covered condConsumer pops (put d.deq item front).length 0
      rw [put_length]
      exact (noticed isOpen).produce.notify notified
  | popped thread woken item rest pushes looks items notified =>
      have before := noticed isOpen
      rw [items, List.length_cons] at before
      refine before.move rfl ?_
      rw [show condConsumer.ready (d.pops thread) = true from looks.ready]
      exact Nat.le_refl _
  | popWaits thread woken looks empty =>
      show Covered condConsumer _ d.deq.length 0
      rw [empty]
      exact .nothing
  | popCalled thread idle =>
      refine (noticed isOpen).move rfl ?_
      rw [idle]
      exact Nat.le_succ _
  | popClosed thread woken behind closed =>
      rw [show d.isClose = false from isOpen] at closed
      cases closed
  | flushed woken pops notified => exact (noticed isOpen).spare.notify notified
  | notifiedConsumers => exact .awake fun thread => notify_all_awake thread
  | popWoken thread waiting =>
      refine (noticed isOpen).move rfl ?_
      rw [waiting]
      exact Nat.le_succ _
  | cleared => exact .nothing
  | closed => exact .nothing
  | pushCalled => exact noticed isOpen
  | pushWaits => exact noticed isOpen
  | notifiedProducers => exact noticed isOpen
  | pushWoken => exact noticed isOpen

theorem places_noticed_step [Fintype P] (change : Change d action next) (noticed : PlacesNoticed d)
    (kept : action ≠ .clear) : PlacesNoticed next := by
  intro isOpen
  cases change with
  | pushed thread woken item front pops entered room notified =>
      show Covered (condProducer T) (Function.update d.pushes thread .idle)
        (d.capacity - (put d.deq item front).length) 0
      rw [put_length]
      refine (noticed isOpen).move rfl ?_
      rw [show (condProducer T).ready (d.pushes thread) = true by rw [entered]; rfl]
      show d.capacity - (d.deq.length + 1) + 1 ≤ d.capacity - d.deq.length + 0
      omega
  | pushWaits thread woken item front entered full =>
      show Covered (condProducer T) _ (d.capacity - d.deq.length) 0
      rw [Nat.sub_eq_zero_of_le full]
      exact .nothing
  | popped thread woken item rest pushes looks items notified =>
      have before := noticed isOpen
      rw [items, List.length_cons] at before
      refine Covered.notify (before.produce.fewer ?_) notified
      show d.capacity - rest.length ≤ d.capacity - (rest.length + 1) + 1
      omega
  | pushCalled thread item front idle =>
      refine (noticed isOpen).move rfl ?_
      rw [idle]
      exact Nat.le_succ _
  | pushWoken thread item front waiting =>
      refine (noticed isOpen).move rfl ?_
      rw [waiting]
      exact Nat.le_succ _
  | notifiedProducers => exact .awake fun thread => notify_all_awake thread
  | cleared => exact absurd rfl kept
  | closed => cases isOpen
  | popWaits => exact noticed isOpen
  | popCalled => exact noticed isOpen
  | popClosed => exact noticed isOpen
  | flushed => exact noticed isOpen
  | notifiedConsumers => exact noticed isOpen
  | popWoken => exact noticed isOpen

end Wakeups

section Runs
variable [Fintype P] [Fintype C] {capacity : Nat} {allowed : Action P C T → Prop}

theorem Reached.bounded (reached : Reached allowed capacity d) :
    d.capacity = capacity ∧ d.deq.length ≤ d.capacity := by
  induction reached with
  | start => exact ⟨rfl, Nat.zero_le _⟩
  | step action reached allows stepped ih =>
      have change := change_of_step stepped
      exact ⟨(items_cases change).1.trans ih.1, length_step change ih.2⟩

/-- Every item that was put in is still in or left once, and there are never more in than the
capacity. With pushes at the back only, the items leave in the order in which they came. -/
theorem items_accounted (reached : Reached allowed capacity d) :
    d.deq.length ≤ capacity ∧ (d.gone.map Departure.item ++ d.deq).Perm d.pushed ∧
    ((∀ action, allowed action → ∀ thread item, action ≠ .callPush thread item true) →
      d.gone.map Departure.item ++ d.deq = d.pushed) := by
  refine ⟨reached.bounded.1 ▸ reached.bounded.2, ?_, fun behind => ?_⟩
  · induction reached with
    | start => exact .nil
    | @step d next action reached allows stepped ih =>
        rcases items_step (change_of_step stepped) with ⟨items, pushed⟩ |
          ⟨thread, woken, item, front, -, -, items, pushed⟩
        · rw [pushed, show next.gone.map Departure.item ++ next.deq = _ from items]
          exact ih
        · rw [pushed, show next.gone.map Departure.item ++ next.deq = _ from items]
          cases front with
          | false =>
              show (_ ++ (d.deq ++ [item])).Perm _
              rw [← List.append_assoc]
              exact ih.append_right [item]
          | true =>
              exact (List.perm_middle.trans (ih.cons item)).trans
                (List.perm_append_singleton item _).symm
  · suffices both : BackOnly d ∧ d.gone.map Departure.item ++ d.deq = d.pushed from both.2
    induction reached with
    | start => exact ⟨fun _ => rfl, rfl⟩
    | @step d next action reached allows stepped ih =>
        have change := change_of_step stepped
        refine ⟨back_only_step change ih.1 (behind action allows), ?_⟩
        rcases items_step change with ⟨items, pushed⟩ |
          ⟨thread, woken, item, front, -, entered, items,
          pushed⟩
        · rw [pushed]
          exact items.trans ih.2
        · have back := ih.1 thread
          rw [entered] at back
          rw [pushed, show next.gone.map Departure.item ++ next.deq = _ from items,
            show front = false from back, ← ih.2, List.append_assoc]
          rfl

theorem items_accounted_one : ∃ d : Deque Unit Unit Nat, d.deq.length ≤ 1 ∧
    (d.gone.map Departure.item ++ d.deq).Perm d.pushed ∧
    ((∀ action, (fun _ : Action Unit Unit Nat => True) action →
      ∀ thread item, action ≠ .callPush thread item true) →
        d.gone.map Departure.item ++ d.deq = d.pushed) :=
  have called : Reached (fun _ => True) 1 (_ : Deque Unit Unit Nat) :=
    .step (.callPush () 5 false) .start trivial rfl
  have pushed : Reached (fun _ => True) 1 (_ : Deque Unit Unit Nat) :=
    .step (.push () none) called trivial rfl
  ⟨_, items_accounted pushed⟩

/-- Before Close, and without clear, while a consumer sleeps there are as many others about to
look at the deque as there are items, and while a producer sleeps as many as free places. -/
theorem no_wakeup_lost (reached : Reached allowed capacity d)
    (kept : ∀ action, allowed action → action ≠ .clear) (isOpen : d.isClose = false) :
    (∀ thread, d.pops thread = .waiting → d.deq.length ≤ standing d.pops popReady) ∧
    ∀ thread item front, d.pushes thread = .waiting item front →
      capacity - d.deq.length ≤ standing d.pushes pushReady := by
  have noticed : ItemsNoticed d ∧ PlacesNoticed d := by
    clear isOpen
    induction reached with
    | start => exact ⟨fun _ => .nothing, fun _ => .awake fun _ => rfl⟩
    | step action reached allows stepped ih =>
        have change := change_of_step stepped
        exact ⟨items_noticed_step change ih.1,
          places_noticed_step change ih.2 (kept action allows)⟩
  have same := reached.bounded.1
  refine ⟨fun thread waiting => noticed.1 isOpen thread ?_, fun thread item front waiting => ?_⟩
  · show popAsleep (d.pops thread) = true
    rw [waiting]
    rfl
  · rw [← same]
    refine noticed.2 isOpen thread ?_
    rw [waiting]
    rfl

theorem no_wakeup_lost_one : ∃ d : Deque Unit Unit Nat,
    (∀ thread, d.pops thread = .waiting → d.deq.length ≤ standing d.pops popReady) ∧
    ∀ thread item front, d.pushes thread = .waiting item front →
      1 - d.deq.length ≤ standing d.pushes pushReady :=
  have called : Reached (fun action => action ≠ .clear) 1 (_ : Deque Unit Unit Nat) :=
    .step (.callPop ()) .start (by simp) rfl
  have waits : Reached (fun action => action ≠ .clear) 1 (_ : Deque Unit Unit Nat) :=
    .step (.pop () none) called (by simp) rfl
  ⟨_, no_wakeup_lost waits (fun _ allows => allows) rfl⟩

end Runs

end Deque

end StudyWebServer.WebServer.BlockDeque
