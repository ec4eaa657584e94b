import Mathlib.Logic.Function.Basic
import Mathlib.Logic.Relation
import Mathlib.Tactic.SplitIfs

/-!
The producers and customers of lesson03/14/semaphore.c, one statement at a time, for
any number of threads of either kind. The printf calls are left out, and malloc finds
memory. A thread that has to wait, or follows a bad pointer, has no step.
-/

namespace StudyWebServer.Lesson03

structure Node where
  num : Int
  next : Option Nat

/-- Where a thread stands in producer(). -/
inductive ProducerAt where
  /-- in sem_wait(&psem) -/
  | waiting
  | locking
  /-- before malloc -/
  | allocating
  /-- before `newNode->next = head` -/
  | linking (newNode : Nat)
  /-- before `newNode->num = rand() % 100` -/
  | numbering (newNode : Nat)
  /-- before `head = newNode` -/
  | heading (newNode : Nat)
  | unlocking
  | posting
  deriving DecidableEq

/-- Where a thread stands in customer(). -/
inductive CustomerAt where
  /-- in sem_wait(&csem) -/
  | waiting
  | locking
  /-- before `delNode = head` -/
  | saving
  /-- before `head = head->next` -/
  | advancing (delNode : Option Nat)
  /-- before free -/
  | freeing (delNode : Option Nat)
  | unlocking
  | posting
  deriving DecidableEq

structure Shop (P C : Type) where
  psem : Nat
  csem : Nat
  mutex : Option (P ⊕ C)
  head : Option Nat
  heap : Nat → Option Node
  producers : P → ProducerAt
  customers : C → CustomerAt

/-- A producer comes with what malloc and rand answer it. -/
inductive Action (P C : Type) where
  | produce (thread : P) (address : Nat) (content : Node) (random : Nat)
  | consume (thread : C)

section Steps
variable {P C : Type} [DecidableEq P] [DecidableEq C]

def Shop.produceTo (s : Shop P C) (thread : P) (place : ProducerAt) : Shop P C :=
  { s with producers := Function.update s.producers thread place }

def Shop.consumeTo (s : Shop P C) (thread : C) (place : CustomerAt) : Shop P C :=
  { s with customers := Function.update s.customers thread place }

def Shop.withHeap (s : Shop P C) (address : Nat) (content : Option Node) : Shop P C :=
  { s with heap := Function.update s.heap address content }

def Shop.produce (s : Shop P C) (thread : P) (address : Nat) (content : Node) (random : Nat) :
    Option (Shop P C) :=
  match s.producers thread with
  | .waiting =>
      match s.psem with
      | 0 => none
      | value + 1 => some { s.produceTo thread .locking with psem := value }
  | .locking =>
      if s.mutex.isNone then
        some { s.produceTo thread .allocating with mutex := some (.inl thread) }
      else none
  | .allocating =>
      if (s.heap address).isNone then
        some ((s.produceTo thread (.linking address)).withHeap address (some content))
      else none
  | .linking newNode =>
      match s.heap newNode with
      | none => none
      | some node =>
          some ((s.produceTo thread (.numbering newNode)).withHeap newNode
            (some { node with next := s.head }))
  | .numbering newNode =>
      match s.heap newNode with
      | none => none
      | some node =>
          some ((s.produceTo thread (.heading newNode)).withHeap newNode
            (some { node with num := random % 100 }))
  | .heading newNode => some { s.produceTo thread .unlocking with head := some newNode }
  | .unlocking => some { s.produceTo thread .posting with mutex := none }
  | .posting => some { s.produceTo thread .waiting with csem := s.csem + 1 }

def Shop.consume (s : Shop P C) (thread : C) : Option (Shop P C) :=
  match s.customers thread with
  | .waiting =>
      match s.csem with
      | 0 => none
      | value + 1 => some { s.consumeTo thread .locking with csem := value }
  | .locking =>
      if s.mutex.isNone then
        some { s.consumeTo thread .saving with mutex := some (.inr thread) }
      else none
  | .saving => some (s.consumeTo thread (.advancing s.head))
  | .advancing delNode =>
      match s.head.bind s.heap with
      | none => none
      | some node => some { s.consumeTo thread (.freeing delNode) with head := node.next }
  | .freeing delNode =>
      -- the printf before free reads delNode->num
      match delNode with
      | none => none
      | some node =>
          if (s.heap node).isSome then some ((s.consumeTo thread .unlocking).withHeap node none)
          else none
  | .unlocking => some { s.consumeTo thread .posting with mutex := none }
  | .posting => some { s.consumeTo thread .waiting with psem := s.psem + 1 }

def Shop.step (s : Shop P C) : Action P C → Option (Shop P C)
  | .produce thread address content random => s.produce thread address content random
  | .consume thread => s.consume thread

/-- Behind the sem_init calls of main. -/
def Shop.start : Shop P C where
  psem := 4
  csem := 0
  mutex := none
  head := none
  heap _ := none
  producers _ := .waiting
  customers _ := .waiting

/-- The shop with a record of its past, in which every node that malloc made has a
number of its own. -/
structure Watched (P C : Type) where
  shop : Shop P C
  made : Nat
  /-- the number of the node at an address -/
  serial : Nat → Nat
  /-- the numbers of the nodes that `head = head->next` took out -/
  removed : List Nat

def Watched.start : Watched P C := ⟨.start, 0, fun _ => 0, []⟩

def Watched.record (s : Watched P C) (next : Shop P C) : Action P C → Watched P C
  | .produce thread address _ _ =>
      match s.shop.producers thread with
      | .allocating => { s with
          shop := next
          made := s.made + 1
          serial := Function.update s.serial address s.made }
      | _ => { s with shop := next }
  | .consume thread =>
      match s.shop.customers thread, s.shop.head with
      | .advancing _, some first => { s with
          shop := next
          removed := s.removed ++ [s.serial first] }
      | _, _ => { s with shop := next }

def Watched.Step (s t : Watched P C) : Prop :=
  ∃ action next, s.shop.step action = some next ∧ t = s.record next action

def Reachable : Watched P C → Prop := Relation.ReflTransGen Watched.Step .start

end Steps

section Moves
variable {P C : Type} {s next : Shop P C}

/-- What one step of a producer can do. -/
inductive ProduceMove [DecidableEq P] (s : Shop P C) (thread : P) (address : Nat) :
    Shop P C → Prop where
  | wait (value : Nat) : s.producers thread = .waiting → s.psem = value + 1 →
      ProduceMove s thread address { s.produceTo thread .locking with psem := value }
  | lock : s.producers thread = .locking → s.mutex = none →
      ProduceMove s thread address
        { s.produceTo thread .allocating with mutex := some (.inl thread) }
  | malloc (content : Node) : s.producers thread = .allocating →
      s.heap address = none → ProduceMove s thread address
        ((s.produceTo thread (.linking address)).withHeap address (some content))
  | link (newNode : Nat) (node : Node) : s.producers thread = .linking newNode →
      s.heap newNode = some node → ProduceMove s thread address
        ((s.produceTo thread (.numbering newNode)).withHeap newNode
          (some { node with next := s.head }))
  | number (newNode : Nat) (node : Node) (num : Int) : s.producers thread = .numbering newNode →
      s.heap newNode = some node → ProduceMove s thread address
        ((s.produceTo thread (.heading newNode)).withHeap newNode (some { node with num := num }))
  | push (newNode : Nat) : s.producers thread = .heading newNode →
      ProduceMove s thread address { s.produceTo thread .unlocking with head := some newNode }
  | unlock : s.producers thread = .unlocking →
      ProduceMove s thread address { s.produceTo thread .posting with mutex := none }
  | post : s.producers thread = .posting →
      ProduceMove s thread address { s.produceTo thread .waiting with csem := s.csem + 1 }

theorem produce_moves [DecidableEq P] {thread : P} {address random : Nat} {content : Node}
    (step : s.produce thread address content random = some next) :
    ProduceMove s thread address next := by
  unfold Shop.produce at step
  cases here : s.producers thread with
  | waiting =>
      simp only [here] at step
      split at step
      · cases step
      · next value stands =>
          cases step
          exact .wait value here stands
  | locking =>
      simp only [here, Option.isNone_iff_eq_none] at step
      split_ifs at step with free
      cases step
      exact .lock here free
  | allocating =>
      simp only [here, Option.isNone_iff_eq_none] at step
      split_ifs at step with fresh
      cases step
      exact .malloc content here fresh
  | linking newNode =>
      simp only [here] at step
      split at step
      · cases step
      · next node live =>
          cases step
          exact .link newNode node here live
  | numbering newNode =>
      simp only [here] at step
      split at step
      · cases step
      · next node live =>
          cases step
          exact .number newNode node _ here live
  | heading newNode =>
      simp only [here, Option.some.injEq] at step
      exact step ▸ .push newNode here
  | unlocking =>
      simp only [here, Option.some.injEq] at step
      exact step ▸ .unlock here
  | posting =>
      simp only [here, Option.some.injEq] at step
      exact step ▸ .post here

/-- What one step of a customer can do. -/
inductive ConsumeMove [DecidableEq C] (s : Shop P C) (thread : C) : Shop P C → Prop where
  | wait (value : Nat) : s.customers thread = .waiting → s.csem = value + 1 →
      ConsumeMove s thread { s.consumeTo thread .locking with csem := value }
  | lock : s.customers thread = .locking → s.mutex = none →
      ConsumeMove s thread { s.consumeTo thread .saving with mutex := some (.inr thread) }
  | save : s.customers thread = .saving →
      ConsumeMove s thread (s.consumeTo thread (.advancing s.head))
  | advance (delNode : Option Nat) (first : Nat) (node : Node) :
      s.customers thread = .advancing delNode → s.head = some first → s.heap first = some node →
      ConsumeMove s thread { s.consumeTo thread (.freeing delNode) with head := node.next }
  | free (node : Nat) : s.customers thread = .freeing (some node) → (s.heap node).isSome →
      ConsumeMove s thread ((s.consumeTo thread .unlocking).withHeap node none)
  | unlock : s.customers thread = .unlocking →
      ConsumeMove s thread { s.consumeTo thread .posting with mutex := none }
  | post : s.customers thread = .posting →
      ConsumeMove s thread { s.consumeTo thread .waiting with psem := s.psem + 1 }

theorem consume_moves [DecidableEq C] {thread : C} (step : s.consume thread = some next) :
    ConsumeMove s thread next := by
  unfold Shop.consume at step
  cases here : s.customers thread with
  | waiting =>
      simp only [here] at step
      split at step
      · cases step
      · next value stands =>
          cases step
          exact .wait value here stands
  | locking =>
      simp only [here, Option.isNone_iff_eq_none] at step
      split_ifs at step with free
      cases step
      exact .lock here free
  | saving =>
      simp only [here, Option.some.injEq] at step
      exact step ▸ .save here
  | advancing delNode =>
      simp only [here] at step
      split at step
      · cases step
      · next node found =>
          cases step
          obtain ⟨first, head, live⟩ := Option.bind_eq_some_iff.mp found
          exact .advance delNode first node here head live
  | freeing delNode =>
      cases delNode with
      | none =>
          simp only [here] at step
          cases step
      | some node =>
          simp only [here] at step
          split_ifs at step with live
          cases step
          exact .free node here live
  | unlocking =>
      simp only [here, Option.some.injEq] at step
      exact step ▸ .unlock here
  | posting =>
      simp only [here, Option.some.injEq] at step
      exact step ▸ .post here

end Moves

section Record
variable {P C : Type} {s : Watched P C} {next : Shop P C} {thread : P} {customer : C}
  {address random : Nat} {content : Node}

theorem record_malloc (here : s.shop.producers thread = .allocating) :
    s.record next (.produce thread address content random) = { s with
      shop := next
      made := s.made + 1
      serial := Function.update s.serial address s.made } := by
  simp only [Watched.record, here]

theorem record_produce (other : s.shop.producers thread ≠ .allocating) :
    s.record next (.produce thread address content random) = { s with shop := next } := by
  unfold Watched.record
  dsimp only
  split
  · next here => exact absurd here other
  · rfl

theorem record_advance {delNode : Option Nat} {first : Nat}
    (here : s.shop.customers customer = .advancing delNode) (head : s.shop.head = some first) :
    s.record next (.consume customer) = { s with
      shop := next
      removed := s.removed ++ [s.serial first] } := by
  simp only [Watched.record, here, head]

theorem record_consume (other : ∀ delNode, s.shop.customers customer ≠ .advancing delNode) :
    s.record next (.consume customer) = { s with shop := next } := by
  unfold Watched.record
  dsimp only
  split
  · next delNode first here head => exact absurd here (other delNode)
  · rfl

end Record

end StudyWebServer.Lesson03
