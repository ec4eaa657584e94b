import StudyWebServer.Lesson03.Semaphore
import StudyWebServer.Library.Mutex
import StudyWebServer.Library.ThreadCount
import Mathlib.Data.List.Nodup

/-!
What holds of the list and the semaphores in every order of the steps: the counts of
psem and csem, who is alone under the mutex, and what the list is then.
-/

namespace StudyWebServer.Lesson03

section Count
variable {P C : Type} [Fintype P] [Fintype C] {s next : Shop P C}

open ThreadCount

/-- Between sem_wait and sem_post. -/
def ProducerAt.between : ProducerAt → Bool
  | .waiting => false
  | _ => true

def CustomerAt.between : CustomerAt → Bool
  | .waiting => false
  | _ => true

/-- Between `head = newNode` and sem_post. -/
def ProducerAt.unposted : ProducerAt → Bool
  | .unlocking | .posting => true
  | _ => false

/-- Between sem_wait and `head = head->next`. -/
def CustomerAt.unserved : CustomerAt → Bool
  | .locking | .saving | .advancing _ => true
  | _ => false

/-- Four places in all, and every node in the list has its count of csem, or a producer
that owes it, or a customer that took it. -/
structure Counted (s : Shop P C) (nodes : Nat) : Prop where
  total : s.psem + s.csem + standing s.producers ProducerAt.between +
    standing s.customers CustomerAt.between = 4
  list : nodes = s.csem + standing s.producers ProducerAt.unposted +
    standing s.customers CustomerAt.unserved

theorem Counted.produce [DecidableEq P] {thread : P} {place : ProducerAt} {nodes after : Nat}
    (counted : Counted s nodes) (moved : next.producers = Function.update s.producers thread place)
    (others : next.customers = s.customers)
    (total : next.psem + next.csem + place.between.toNat =
      s.psem + s.csem + (s.producers thread).between.toNat)
    (list : after + s.csem + (s.producers thread).unposted.toNat =
      nodes + next.csem + place.unposted.toNat) : Counted next after := by
  have between := standing_update s.producers ProducerAt.between thread place
  have unposted := standing_update s.producers ProducerAt.unposted thread place
  have all := counted.total
  have held := counted.list
  constructor
  · rw [moved, others]
    omega
  · rw [moved, others]
    omega

theorem Counted.consume [DecidableEq C] {thread : C} {place : CustomerAt} {nodes after : Nat}
    (counted : Counted s nodes) (moved : next.customers = Function.update s.customers thread place)
    (others : next.producers = s.producers)
    (total : next.psem + next.csem + place.between.toNat =
      s.psem + s.csem + (s.customers thread).between.toNat)
    (list : after + s.csem + (s.customers thread).unserved.toNat =
      nodes + next.csem + place.unserved.toNat) : Counted next after := by
  have between := standing_update s.customers CustomerAt.between thread place
  have unserved := standing_update s.customers CustomerAt.unserved thread place
  have all := counted.total
  have held := counted.list
  constructor
  · rw [moved, others]
    omega
  · rw [moved, others]
    omega

/-- The places before the wait are those of neither count. -/
theorem Counted.bounded {nodes : Nat} (counted : Counted s nodes) : nodes ≤ 4 := by
  have unposted : standing s.producers ProducerAt.unposted ≤
      standing s.producers ProducerAt.between :=
    standing_mono fun place => by cases place <;> simp [ProducerAt.unposted, ProducerAt.between]
  have unserved : standing s.customers CustomerAt.unserved ≤
      standing s.customers CustomerAt.between :=
    standing_mono fun place => by cases place <;> simp [CustomerAt.unserved, CustomerAt.between]
  have all := counted.total
  have held := counted.list
  omega

/-- How many nodes the next statement puts into the list. -/
def ProducerAt.adds : ProducerAt → Nat
  | .heading _ => 1
  | _ => 0

/-- How many it takes out. -/
def CustomerAt.takes : CustomerAt → Nat
  | .advancing _ => 1
  | _ => 0

theorem Counted.produces [DecidableEq P] {thread : P} {address nodes : Nat}
    (counted : Counted s nodes)
    (move : ProduceMove s thread address next) :
    Counted next (nodes + (s.producers thread).adds) := by
  have quiet {after : Shop P C} {place : ProducerAt}
      (values : after.psem = s.psem ∧ after.csem = s.csem)
      (moved : after.producers = Function.update s.producers thread place)
      (others : after.customers = s.customers)
      (stays : (s.producers thread).adds = 0 ∧ place.between = (s.producers thread).between ∧
        place.unposted = (s.producers thread).unposted) :
      Counted after (nodes + (s.producers thread).adds) := by
    refine counted.produce moved others ?_ ?_
    · rw [values.1, values.2, stays.2.1]
    · rw [values.2, stays.1, stays.2.2]
      rfl
  cases move with
  | lock here free => exact quiet ⟨rfl, rfl⟩ rfl rfl (by rw [here]; exact ⟨rfl, rfl, rfl⟩)
  | malloc content here fresh =>
      exact quiet ⟨rfl, rfl⟩ rfl rfl (by rw [here]; exact ⟨rfl, rfl, rfl⟩)
  | link newNode node here live =>
      exact quiet ⟨rfl, rfl⟩ rfl rfl (by rw [here]; exact ⟨rfl, rfl, rfl⟩)
  | number newNode node num here live =>
      exact quiet ⟨rfl, rfl⟩ rfl rfl (by rw [here]; exact ⟨rfl, rfl, rfl⟩)
  | unlock here => exact quiet ⟨rfl, rfl⟩ rfl rfl (by rw [here]; exact ⟨rfl, rfl, rfl⟩)
  | wait value here stands =>
      refine counted.produce rfl rfl ?_ ?_
      · rw [here, stands]
        show value + s.csem + 1 = value + 1 + s.csem + 0
        omega
      · rw [here]
        rfl
  | push newNode here =>
      refine counted.produce rfl rfl ?_ ?_
      · rw [here]
        rfl
      · rw [here]
        show nodes + 1 + s.csem + 0 = nodes + s.csem + 1
        omega
  | post here =>
      refine counted.produce rfl rfl ?_ ?_
      · rw [here]
        show s.psem + (s.csem + 1) + 0 = s.psem + s.csem + 1
        omega
      · rw [here]
        show nodes + 0 + s.csem + 1 = nodes + (s.csem + 1) + 0
        omega

theorem Counted.consumes [DecidableEq C] {thread : C} {nodes : Nat}
    (counted : Counted s (nodes + (s.customers thread).takes)) (move : ConsumeMove s thread next) :
    Counted next nodes := by
  have quiet {after : Shop P C} {place : CustomerAt}
      (values : after.psem = s.psem ∧ after.csem = s.csem)
      (moved : after.customers = Function.update s.customers thread place)
      (others : after.producers = s.producers)
      (stays : (s.customers thread).takes = 0 ∧ place.between = (s.customers thread).between ∧
        place.unserved = (s.customers thread).unserved) : Counted after nodes := by
    refine counted.consume moved others ?_ ?_
    · rw [values.1, values.2, stays.2.1]
    · rw [values.2, stays.1, stays.2.2]
      rfl
  cases move with
  | lock here free => exact quiet ⟨rfl, rfl⟩ rfl rfl (by rw [here]; exact ⟨rfl, rfl, rfl⟩)
  | save here => exact quiet ⟨rfl, rfl⟩ rfl rfl (by rw [here]; exact ⟨rfl, rfl, rfl⟩)
  | free node here live => exact quiet ⟨rfl, rfl⟩ rfl rfl (by rw [here]; exact ⟨rfl, rfl, rfl⟩)
  | unlock here => exact quiet ⟨rfl, rfl⟩ rfl rfl (by rw [here]; exact ⟨rfl, rfl, rfl⟩)
  | wait value here stands =>
      refine counted.consume rfl rfl ?_ ?_
      · rw [here, stands]
        show s.psem + value + 1 = s.psem + (value + 1) + 0
        omega
      · rw [here, stands]
        show nodes + (value + 1) + 0 = nodes + 0 + value + 1
        omega
  | advance delNode first node here head live =>
      refine counted.consume rfl rfl ?_ ?_
      · rw [here]
        rfl
      · rw [here]
        show nodes + s.csem + 1 = nodes + 1 + s.csem + 0
        omega
  | post here =>
      refine counted.consume rfl rfl ?_ ?_
      · rw [here]
        show s.psem + 1 + s.csem + 0 = s.psem + s.csem + 1
        omega
      · rw [here]
        rfl

end Count

section Lock
variable {P C : Type} {s next : Shop P C}

/-- Between pthread_mutex_lock and pthread_mutex_unlock. -/
def ProducerAt.inside : ProducerAt → Bool
  | .waiting | .locking | .posting => false
  | _ => true

def CustomerAt.inside : CustomerAt → Bool
  | .waiting | .locking | .posting => false
  | _ => true

def Shop.inside (s : Shop P C) : P ⊕ C → Bool
  | .inl thread => (s.producers thread).inside
  | .inr thread => (s.customers thread).inside

def Locked (s : Shop P C) : Prop := Mutex.Exclusive s.mutex s.inside

theorem Locked.producers (locked : Locked s) {thread other : P}
    (one : (s.producers thread).inside = true) (two : (s.producers other).inside = true) :
    other = thread := by
  have same := @Mutex.Exclusive.alone (P ⊕ C) _ _ (.inl other) (.inl thread) locked two one
  exact Sum.inl.inj same

theorem Locked.customers (locked : Locked s) {thread other : C}
    (one : (s.customers thread).inside = true) (two : (s.customers other).inside = true) :
    other = thread := by
  have same := @Mutex.Exclusive.alone (P ⊕ C) _ _ (.inr other) (.inr thread) locked two one
  exact Sum.inr.inj same

theorem Locked.apart (locked : Locked s) {producer : P} {customer : C}
    (one : (s.producers producer).inside = true) (two : (s.customers customer).inside = true) :
    False := by
  have same := @Mutex.Exclusive.alone (P ⊕ C) _ _ (.inl producer) (.inr customer) locked one two
  cases same

theorem Locked.produce [DecidableEq P] (locked : Locked s) {thread : P} {place : ProducerAt}
    (moved : next.producers = Function.update s.producers thread place)
    (others : next.customers = s.customers)
    (rule : next.mutex = s.mutex ∧ place.inside = (s.producers thread).inside ∨
      s.mutex = none ∧ next.mutex = some (.inl thread) ∨
      (s.producers thread).inside = true ∧ place.inside = false) : Locked next := by
  have here : next.inside (.inl thread) = place.inside := by
    simp only [Shop.inside, moved, Function.update_self]
  refine Mutex.Exclusive.move locked (.inl thread) (here ▸ rule) ?_
  rintro (other | other) different
  · have apart : other ≠ thread := fun same => different (by rw [same])
    simp only [Shop.inside, moved, Function.update_of_ne apart]
  · simp only [Shop.inside, others]

theorem Locked.consume [DecidableEq C] (locked : Locked s) {thread : C} {place : CustomerAt}
    (moved : next.customers = Function.update s.customers thread place)
    (others : next.producers = s.producers)
    (rule : next.mutex = s.mutex ∧ place.inside = (s.customers thread).inside ∨
      s.mutex = none ∧ next.mutex = some (.inr thread) ∨
      (s.customers thread).inside = true ∧ place.inside = false) : Locked next := by
  have here : next.inside (.inr thread) = place.inside := by
    simp only [Shop.inside, moved, Function.update_self]
  refine Mutex.Exclusive.move locked (.inr thread) (here ▸ rule) ?_
  rintro (other | other) different
  · simp only [Shop.inside, others]
  · have apart : other ≠ thread := fun same => different (by rw [same])
    simp only [Shop.inside, moved, Function.update_of_ne apart]

theorem Locked.produces [DecidableEq P] (locked : Locked s) {thread : P} {address : Nat}
    (move : ProduceMove s thread address next) : Locked next := by
  cases move with
  | wait value here stands => exact locked.produce rfl rfl (.inl ⟨rfl, by rw [here]; rfl⟩)
  | lock here free => exact locked.produce rfl rfl (.inr (.inl ⟨free, rfl⟩))
  | malloc content here fresh =>
      exact locked.produce rfl rfl (.inl ⟨rfl, by rw [here]; rfl⟩)
  | link newNode node here live => exact locked.produce rfl rfl (.inl ⟨rfl, by rw [here]; rfl⟩)
  | number newNode node num here live =>
      exact locked.produce rfl rfl (.inl ⟨rfl, by rw [here]; rfl⟩)
  | push newNode here => exact locked.produce rfl rfl (.inl ⟨rfl, by rw [here]; rfl⟩)
  | unlock here => exact locked.produce rfl rfl (.inr (.inr ⟨by rw [here]; rfl, rfl⟩))
  | post here => exact locked.produce rfl rfl (.inl ⟨rfl, by rw [here]; rfl⟩)

theorem Locked.consumes [DecidableEq C] (locked : Locked s) {thread : C}
    (move : ConsumeMove s thread next) : Locked next := by
  cases move with
  | wait value here stands => exact locked.consume rfl rfl (.inl ⟨rfl, by rw [here]; rfl⟩)
  | lock here free => exact locked.consume rfl rfl (.inr (.inl ⟨free, rfl⟩))
  | save here => exact locked.consume rfl rfl (.inl ⟨rfl, by rw [here]; rfl⟩)
  | advance delNode first node here head live =>
      exact locked.consume rfl rfl (.inl ⟨rfl, by rw [here]; rfl⟩)
  | free node here live => exact locked.consume rfl rfl (.inl ⟨rfl, by rw [here]; rfl⟩)
  | unlock here => exact locked.consume rfl rfl (.inr (.inr ⟨by rw [here]; rfl, rfl⟩))
  | post here => exact locked.consume rfl rfl (.inl ⟨rfl, by rw [here]; rfl⟩)

end Lock

/-- The nodes from a pointer on, in the order of their links. -/
def Chain (heap : Nat → Option Node) : Option Nat → List Nat → Prop
  | head, [] => head = none
  | head, first :: rest =>
      head = some first ∧ ∃ node, heap first = some node ∧ Chain heap node.next rest

section Chain
variable {heap other : Nat → Option Node} {head : Option Nat} {nodes : List Nat}

theorem Chain.congr (chain : Chain heap head nodes)
    (same : ∀ node ∈ nodes, other node = heap node) :
    Chain other head nodes := by
  induction nodes generalizing head with
  | nil => exact chain
  | cons first rest ih =>
      obtain ⟨here, node, live, later⟩ := chain
      refine ⟨here, node, (same first List.mem_cons_self).trans live,
        ih later fun node member => ?_⟩
      exact same node (List.mem_cons_of_mem _ member)

theorem Chain.live (chain : Chain heap head nodes) : ∀ node ∈ nodes, (heap node).isSome := by
  induction nodes generalizing head with
  | nil => exact fun node member => by cases member
  | cons first rest ih =>
      obtain ⟨-, node, live, later⟩ := chain
      intro address member
      rcases List.mem_cons.mp member with rfl | behind
      · rw [live]
        rfl
      · exact ih later address behind

theorem Chain.unique {others : List Nat} (chain : Chain heap head nodes)
    (also : Chain heap head others) : nodes = others := by
  induction nodes generalizing head others with
  | nil =>
      cases others with
      | nil => rfl
      | cons first rest => cases chain.symm.trans also.1
  | cons first rest ih =>
      obtain ⟨here, node, live, later⟩ := chain
      cases others with
      | nil => cases here.symm.trans also
      | cons second more =>
          obtain ⟨there, cell, found, behind⟩ := also
          cases here.symm.trans there
          cases live.symm.trans found
          rw [ih later behind]

/-- A node that is not in the list can be changed. -/
theorem Chain.update (chain : Chain heap head nodes) {address : Nat} (away : address ∉ nodes)
    (content : Option Node) : Chain (Function.update heap address content) head nodes :=
  chain.congr fun _ member => Function.update_of_ne (ne_of_mem_of_not_mem member away) ..

end Chain

section List
variable {P C : Type}

/-- What the threads share under the mutex, with its record. -/
structure View where
  heap : Nat → Option Node
  head : Option Nat
  made : Nat
  serial : Nat → Nat
  removed : List Nat

def Watched.view (s : Watched P C) : View :=
  ⟨s.shop.heap, s.shop.head, s.made, s.serial, s.removed⟩

/-- The numbers of the nodes that were taken out, and of those in the list. -/
def View.record (v : View) (nodes : List Nat) : List Nat := v.removed ++ nodes.map v.serial

/-- The list from head on, in which no number comes twice or comes again. -/
structure Recorded (v : View) (nodes : List Nat) : Prop where
  chain : Chain v.heap v.head nodes
  once : (v.record nodes).Nodup
  below : ∀ number ∈ v.record nodes, number < v.made

/-- A node that is not in the list, nor was. -/
structure Held (v : View) (nodes : List Nat) (newNode : Nat) : Prop where
  live : (v.heap newNode).isSome
  away : newNode ∉ nodes
  below : v.serial newNode < v.made
  unused : v.serial newNode ∉ v.record nodes

/-- What is true of the list while a thread stands at this place. -/
def ProducerAt.Fits (v : View) (nodes : List Nat) : ProducerAt → Prop
  | .linking newNode => Held v nodes newNode
  | .numbering newNode | .heading newNode =>
      Held v nodes newNode ∧ ∃ node, v.heap newNode = some node ∧ node.next = v.head
  | _ => True

def CustomerAt.Fits (v : View) (nodes : List Nat) : CustomerAt → Prop
  | .advancing delNode => delNode = v.head
  | .freeing delNode => ∃ node, delNode = some node ∧ (v.heap node).isSome ∧ node ∉ nodes
  | _ => True

theorem ProducerAt.fits_outside {v : View} {nodes : List Nat} {place : ProducerAt}
    (outside : place.inside = false) : place.Fits v nodes := by
  cases place <;> trivial

theorem CustomerAt.fits_outside {v : View} {nodes : List Nat} {place : CustomerAt}
    (outside : place.inside = false) : place.Fits v nodes := by
  cases place <;> trivial

section Recorded
variable {v : View} {nodes rest : List Nat} {newNode : Nat}

theorem Recorded.nodup (recorded : Recorded v nodes) : nodes.Nodup :=
  .of_map _ (List.nodup_append.mp recorded.once).2.1

/-- malloc makes a node that is not in the list. -/
theorem Recorded.malloc (recorded : Recorded v nodes)
    (fresh : v.heap newNode = none) (content : Node) :
    let w : View := { v with
      heap := Function.update v.heap newNode (some content)
      made := v.made + 1
      serial := Function.update v.serial newNode v.made }
    Recorded w nodes ∧ Held w nodes newNode := by
  have away : newNode ∉ nodes := by
    intro member
    have live := recorded.chain.live newNode member
    rw [fresh] at live
    cases live
  have same : nodes.map (Function.update v.serial newNode v.made) = nodes.map v.serial :=
    List.map_congr_left fun _ member => Function.update_of_ne (ne_of_mem_of_not_mem member away) ..
  have record : v.removed ++ nodes.map (Function.update v.serial newNode v.made) =
      v.record nodes := by
    rw [same]
    rfl
  refine ⟨⟨recorded.chain.update away _, ?_, ?_⟩, ⟨?_, away, ?_, ?_⟩⟩
  · show (v.removed ++ nodes.map (Function.update v.serial newNode v.made)).Nodup
    rw [record]
    exact recorded.once
  · show ∀ number ∈ v.removed ++ nodes.map (Function.update v.serial newNode v.made),
      number < v.made + 1
    rw [record]
    exact fun number member => Nat.lt_succ_of_lt (recorded.below number member)
  · show (Function.update v.heap newNode (some content) newNode).isSome
    rw [Function.update_self]
    rfl
  · show Function.update v.serial newNode v.made newNode < v.made + 1
    rw [Function.update_self]
    exact Nat.lt_succ_self _
  · show Function.update v.serial newNode v.made newNode ∉
      v.removed ++ nodes.map (Function.update v.serial newNode v.made)
    rw [record, Function.update_self]
    exact fun member => Nat.lt_irrefl _ (recorded.below _ member)

/-- A store to a node that a producer holds. -/
theorem Held.store (held : Held v nodes newNode) (recorded : Recorded v nodes) (content : Node) :
    let w : View := { v with heap := Function.update v.heap newNode (some content) }
    Recorded w nodes ∧ Held w nodes newNode := by
  refine ⟨⟨recorded.chain.update held.away _, recorded.once, recorded.below⟩,
    ⟨?_, held.away, held.below, held.unused⟩⟩
  show (Function.update v.heap newNode (some content) newNode).isSome
  rw [Function.update_self]
  rfl

theorem Held.push (held : Held v nodes newNode) (recorded : Recorded v nodes)
    (links : ∃ node, v.heap newNode = some node ∧ node.next = v.head) :
    Recorded { v with head := some newNode } (newNode :: nodes) := by
  obtain ⟨node, live, next⟩ := links
  have moved : ({ v with head := some newNode } : View).record (newNode :: nodes) =
      v.removed ++ v.serial newNode :: nodes.map v.serial := rfl
  have perm : (v.removed ++ v.serial newNode :: nodes.map v.serial).Perm
      (v.serial newNode :: v.record nodes) := List.perm_middle
  refine ⟨⟨rfl, node, live, next ▸ recorded.chain⟩, ?_, ?_⟩
  · rw [moved, perm.nodup_iff, List.nodup_cons]
    exact ⟨held.unused, recorded.once⟩
  · rw [moved]
    intro number member
    rcases List.mem_cons.mp (perm.mem_iff.mp member) with rfl | before
    · exact held.below
    · exact recorded.below number before

/-- The first node goes from the list to those that were taken out. -/
theorem Recorded.advance {node : Node} (recorded : Recorded v (newNode :: rest))
    (live : v.heap newNode = some node) :
    Recorded { v with
      head := node.next
      removed := v.removed ++ [v.serial newNode] } rest := by
  obtain ⟨-, cell, found, behind⟩ := recorded.chain
  cases live.symm.trans found
  have same : (v.removed ++ [v.serial newNode]) ++ rest.map v.serial =
      v.record (newNode :: rest) := by
    rw [List.append_assoc]
    rfl
  refine ⟨behind, ?_, ?_⟩
  · show ((v.removed ++ [v.serial newNode]) ++ rest.map v.serial).Nodup
    rw [same]
    exact recorded.once
  · show ∀ number ∈ (v.removed ++ [v.serial newNode]) ++ rest.map v.serial, number < v.made
    rw [same]
    exact recorded.below

theorem Recorded.free (recorded : Recorded v nodes) (away : newNode ∉ nodes) :
    Recorded { v with heap := Function.update v.heap newNode none } nodes :=
  ⟨recorded.chain.update away _, recorded.once, recorded.below⟩

end Recorded

end List

section Runs
variable {P C : Type} [Fintype P] [Fintype C] {s t : Watched P C} {next : Shop P C}
  {nodes after : List Nat}

structure Sound (s : Watched P C) (nodes : List Nat) : Prop where
  counted : Counted s.shop nodes.length
  locked : Locked s.shop
  recorded : Recorded s.view nodes
  producers : ∀ thread, (s.shop.producers thread).Fits s.view nodes
  customers : ∀ thread, (s.shop.customers thread).Fits s.view nodes

theorem Sound.start : Sound (Watched.start : Watched P C) [] := by
  refine ⟨⟨?_, ?_⟩, ?_, ⟨rfl, List.nodup_nil, fun _ member => by cases member⟩,
    fun _ => trivial, fun _ => trivial⟩
  · have producers : ThreadCount.standing
        (fun _ : P => ProducerAt.waiting) ProducerAt.between = 0 :=
      ThreadCount.standing_eq_zero fun _ => rfl
    have customers : ThreadCount.standing
        (fun _ : C => CustomerAt.waiting) CustomerAt.between = 0 :=
      ThreadCount.standing_eq_zero fun _ => rfl
    show 4 + 0 + _ + _ = 4
    exact congrArg₂ (4 + 0 + · + ·) producers customers
  · have producers : ThreadCount.standing
        (fun _ : P => ProducerAt.waiting) ProducerAt.unposted = 0 :=
      ThreadCount.standing_eq_zero fun _ => rfl
    have customers : ThreadCount.standing
        (fun _ : C => CustomerAt.waiting) CustomerAt.unserved = 0 :=
      ThreadCount.standing_eq_zero fun _ => rfl
    show 0 = 0 + _ + _
    exact (congrArg₂ (0 + · + ·) producers customers).symm
  · rintro (thread | thread) inside <;> cases inside

/-- Behind a step of a producer: either it was inside, and so alone, or it has not
changed what the threads share. -/
theorem Sound.produced [DecidableEq P] (sound : Sound s nodes) {thread : P} {place : ProducerAt}
    (moved : t.shop.producers = Function.update s.shop.producers thread place)
    (others : t.shop.customers = s.shop.customers) (counted : Counted t.shop after.length)
    (locked : Locked t.shop) (recorded : Recorded t.view after) (fits : place.Fits t.view after)
    (rule : (s.shop.producers thread).inside = true ∨ t.view = s.view ∧ after = nodes) :
    Sound t after := by
  refine ⟨counted, locked, recorded, fun other => ?_, fun other => ?_⟩
  · rw [moved]
    by_cases same : other = thread
    · rw [same, Function.update_self]
      exact fits
    · rw [Function.update_of_ne same]
      rcases rule with inside | ⟨view, rfl⟩
      · refine ProducerAt.fits_outside (Bool.eq_false_iff.mpr fun also => same ?_)
        exact sound.locked.producers inside also
      · exact view ▸ sound.producers other
  · rw [others]
    rcases rule with inside | ⟨view, rfl⟩
    · exact CustomerAt.fits_outside
        (Bool.eq_false_iff.mpr fun also => sound.locked.apart inside also)
    · exact view ▸ sound.customers other

theorem Sound.consumed [DecidableEq C] (sound : Sound s nodes) {thread : C} {place : CustomerAt}
    (moved : t.shop.customers = Function.update s.shop.customers thread place)
    (others : t.shop.producers = s.shop.producers) (counted : Counted t.shop after.length)
    (locked : Locked t.shop) (recorded : Recorded t.view after) (fits : place.Fits t.view after)
    (rule : (s.shop.customers thread).inside = true ∨ t.view = s.view ∧ after = nodes) :
    Sound t after := by
  refine ⟨counted, locked, recorded, fun other => ?_, fun other => ?_⟩
  · rw [others]
    rcases rule with inside | ⟨view, rfl⟩
    · exact ProducerAt.fits_outside
        (Bool.eq_false_iff.mpr fun also => sound.locked.apart also inside)
    · exact view ▸ sound.producers other
  · rw [moved]
    by_cases same : other = thread
    · rw [same, Function.update_self]
      exact fits
    · rw [Function.update_of_ne same]
      rcases rule with inside | ⟨view, rfl⟩
      · refine CustomerAt.fits_outside (Bool.eq_false_iff.mpr fun also => same ?_)
        exact sound.locked.customers inside also
      · exact view ▸ sound.customers other

/-- A step of a producer to a place where it has no node, with the list as it was. -/
theorem Sound.produced_quiet [DecidableEq P] (sound : Sound s nodes)
    {thread : P} {place : ProducerAt}
    {address random : Nat} {content : Node} (other : s.shop.producers thread ≠ .allocating)
    (moved : next.producers = Function.update s.shop.producers thread place)
    (others : next.customers = s.shop.customers)
    (list : next.heap = s.shop.heap ∧ next.head = s.shop.head)
    (counted : Counted next nodes.length) (locked : Locked next) (fits : place.Fits s.view nodes) :
    ∃ after, Sound (s.record next (.produce thread address content random)) after := by
  have view : ({ s with shop := next } : Watched P C).view = s.view := by
    simp only [Watched.view, list.1, list.2]
  rw [record_produce other]
  exact ⟨nodes, sound.produced moved others counted locked (view ▸ sound.recorded) (view ▸ fits)
    (.inr ⟨view, rfl⟩)⟩

theorem Sound.consumed_quiet [DecidableEq C] (sound : Sound s nodes)
    {thread : C} {place : CustomerAt}
    (other : ∀ delNode, s.shop.customers thread ≠ .advancing delNode)
    (moved : next.customers = Function.update s.shop.customers thread place)
    (others : next.producers = s.shop.producers)
    (list : next.heap = s.shop.heap ∧ next.head = s.shop.head)
    (counted : Counted next nodes.length) (locked : Locked next) (fits : place.Fits s.view nodes) :
    ∃ after, Sound (s.record next (.consume thread)) after := by
  have view : ({ s with shop := next } : Watched P C).view = s.view := by
    simp only [Watched.view, list.1, list.2]
  rw [record_consume other]
  exact ⟨nodes, sound.consumed moved others counted locked (view ▸ sound.recorded) (view ▸ fits)
    (.inr ⟨view, rfl⟩)⟩

theorem Sound.produce [DecidableEq P] {thread : P} {address random : Nat} {content : Node}
    (sound : Sound s nodes) (step : s.shop.produce thread address content random = some next) :
    ∃ after, Sound (s.record next (.produce thread address content random)) after := by
  have move := produce_moves step
  have counted := sound.counted.produces move
  have locked := sound.locked.produces move
  have recorded := sound.recorded
  have fits := sound.producers thread
  cases move with
  | wait value here stands =>
      rw [here] at counted
      exact sound.produced_quiet (by simp [here]) rfl rfl ⟨rfl, rfl⟩ counted locked trivial
  | lock here free =>
      rw [here] at counted
      exact sound.produced_quiet (by simp [here]) rfl rfl ⟨rfl, rfl⟩ counted locked trivial
  | malloc content here fresh =>
      rw [record_malloc here]
      rw [here] at counted
      obtain ⟨kept, held⟩ := recorded.malloc fresh content
      exact ⟨nodes, sound.produced rfl rfl counted locked kept held (.inl (by rw [here]; rfl))⟩
  | link newNode node here live =>
      rw [record_produce (by simp [here])]
      rw [here] at counted fits
      obtain ⟨kept, held⟩ := Held.store fits recorded { node with next := s.shop.head }
      refine ⟨nodes, sound.produced rfl rfl counted locked kept ⟨held, ?_⟩
        (.inl (by rw [here]; rfl))⟩
      exact ⟨_, Function.update_self .., rfl⟩
  | number newNode node num here live =>
      rw [record_produce (by simp [here])]
      rw [here] at counted fits
      obtain ⟨held, same, links, next⟩ := fits
      cases live.symm.trans links
      obtain ⟨kept, held⟩ := held.store recorded { node with num := num }
      refine ⟨nodes, sound.produced rfl rfl counted locked kept ⟨held, ?_⟩
        (.inl (by rw [here]; rfl))⟩
      exact ⟨_, Function.update_self .., next⟩
  | push newNode here =>
      rw [record_produce (by simp [here])]
      rw [here] at counted fits
      exact ⟨newNode :: nodes, sound.produced rfl rfl counted locked (fits.1.push recorded fits.2)
        trivial (.inl (by rw [here]; rfl))⟩
  | unlock here =>
      rw [here] at counted
      exact sound.produced_quiet (by simp [here]) rfl rfl ⟨rfl, rfl⟩ counted locked trivial
  | post here =>
      rw [here] at counted
      exact sound.produced_quiet (by simp [here]) rfl rfl ⟨rfl, rfl⟩ counted locked trivial

theorem Sound.consume [DecidableEq C] {thread : C} (sound : Sound s nodes)
    (step : s.shop.consume thread = some next) :
    ∃ after, Sound (s.record next (.consume thread)) after := by
  have move := consume_moves step
  have locked := sound.locked.consumes move
  have recorded := sound.recorded
  have fits := sound.customers thread
  have counted {after : List Nat}
      (length : nodes.length = after.length + (s.shop.customers thread).takes) :
      Counted next after.length := Counted.consumes (length ▸ sound.counted) move
  cases move with
  | wait value here stands =>
      exact sound.consumed_quiet (by simp [here]) rfl rfl ⟨rfl, rfl⟩
        (counted (by rw [here]; rfl)) locked
        trivial
  | lock here free =>
      exact sound.consumed_quiet (by simp [here]) rfl rfl ⟨rfl, rfl⟩
        (counted (by rw [here]; rfl)) locked
        trivial
  | save here =>
      exact sound.consumed_quiet (by simp [here]) rfl rfl ⟨rfl, rfl⟩
        (counted (by rw [here]; rfl)) locked
        rfl
  | advance delNode first node here head live =>
      rw [record_advance here head]
      rw [here] at fits
      -- the node that is taken out is the one that was saved
      have saved : delNode = some first := fits.trans head
      have chain := recorded.chain
      cases nodes with
      | nil => cases chain.symm.trans head
      | cons one rest =>
          cases chain.1.symm.trans head
          have away := (List.nodup_cons.mp recorded.nodup).1
          have present : (s.shop.heap first).isSome := by
            rw [live]
            rfl
          exact ⟨rest, sound.consumed rfl rfl (counted (by rw [here]; rfl)) locked
            (recorded.advance live) ⟨first, saved, present, away⟩ (.inl (by rw [here]; rfl))⟩
  | free node here live =>
      rw [record_consume (by simp [here])]
      rw [here] at fits
      obtain ⟨other, same, -, away⟩ := fits
      cases same
      exact ⟨nodes, sound.consumed rfl rfl (counted (by rw [here]; rfl)) locked (recorded.free away)
        trivial (.inl (by rw [here]; rfl))⟩
  | unlock here =>
      exact sound.consumed_quiet (by simp [here]) rfl rfl ⟨rfl, rfl⟩
        (counted (by rw [here]; rfl)) locked
        trivial
  | post here =>
      exact sound.consumed_quiet (by simp [here]) rfl rfl ⟨rfl, rfl⟩
        (counted (by rw [here]; rfl)) locked
        trivial

variable [DecidableEq P] [DecidableEq C]

theorem Reachable.sound (reachable : Reachable s) : ∃ nodes, Sound s nodes := by
  induction reachable with
  | refl => exact ⟨[], .start⟩
  | tail _ step ih =>
      obtain ⟨nodes, sound⟩ := ih
      obtain ⟨action, next, moved, rfl⟩ := step
      cases action with
      | produce thread address content random => exact sound.produce moved
      | consume thread => exact sound.consume moved

structure Safe (s : Watched P C) : Prop where
  /-- a customer that takes out the head has one -/
  found : ∀ thread delNode, s.shop.customers thread = .advancing delNode →
    ∃ first node, s.shop.head = some first ∧ s.shop.heap first = some node
  /-- and frees the node it took out, which is there -/
  freed : ∀ thread delNode, s.shop.customers thread = .freeing delNode →
    ∃ node, delNode = some node ∧ (s.shop.heap node).isSome
  list : ∃ nodes, Chain s.shop.heap s.shop.head nodes
  bounded : ∀ nodes, Chain s.shop.heap s.shop.head nodes → nodes.length ≤ 4
  once : s.removed.Nodup
  total : s.shop.psem + s.shop.csem + ThreadCount.standing s.shop.producers ProducerAt.between +
    ThreadCount.standing s.shop.customers CustomerAt.between = 4

/-- In any order of the steps, customers find a node, the list has at most four, none is
taken out twice, and the semaphores with the threads behind them come to four. -/
theorem semaphores_safe (s : Watched P C) (reachable : Reachable s) : Safe s := by
  obtain ⟨nodes, sound⟩ := reachable.sound
  have chain := sound.recorded.chain
  refine ⟨fun thread delNode here => ?_, fun thread delNode here => ?_, ⟨nodes, chain⟩,
    fun others also => ?_, (List.nodup_append.mp sound.recorded.once).1, sound.counted.total⟩
  -- the customer's count is one of a node in the list
  · have one : 0 < ThreadCount.standing s.shop.customers CustomerAt.unserved :=
      ThreadCount.standing_pos (by rw [here]; rfl)
    have list := sound.counted.list
    cases nodes with
    | nil =>
        rw [List.length_nil] at list
        omega
    | cons first rest =>
        obtain ⟨head, node, live, -⟩ := chain
        exact ⟨first, node, head, live⟩
  · have fits := sound.customers thread
    rw [here] at fits
    obtain ⟨node, saved, live, -⟩ := fits
    exact ⟨node, saved, live⟩
  · rw [also.unique chain]
    exact sound.counted.bounded

/-- One node comes and goes. -/
theorem semaphores_safe_one : ∃ s : Watched Unit Unit, s.removed = [0] ∧ Safe s := by
  have made : ∃ s : Watched Unit Unit, s.removed = [0] ∧ Reachable s := by
    refine ⟨_, rfl, .tail (.tail (.tail (.tail (.tail (.tail (.tail (.tail (.tail (.tail (.tail
      (.tail .refl
        ⟨.produce () 8 ⟨0, none⟩ 107, _, rfl, rfl⟩)
        ⟨.produce () 8 ⟨0, none⟩ 107, _, rfl, rfl⟩)
        ⟨.produce () 8 ⟨0, none⟩ 107, _, rfl, rfl⟩)
        ⟨.produce () 8 ⟨0, none⟩ 107, _, rfl, rfl⟩)
        ⟨.produce () 8 ⟨0, none⟩ 107, _, rfl, rfl⟩)
        ⟨.produce () 8 ⟨0, none⟩ 107, _, rfl, rfl⟩)
        ⟨.produce () 8 ⟨0, none⟩ 107, _, rfl, rfl⟩)
        ⟨.produce () 8 ⟨0, none⟩ 107, _, rfl, rfl⟩)
        ⟨.consume (), _, rfl, rfl⟩)
        ⟨.consume (), _, rfl, rfl⟩)
        ⟨.consume (), _, rfl, rfl⟩)
        ⟨.consume (), _, rfl, rfl⟩⟩
  obtain ⟨s, removed, reachable⟩ := made
  exact ⟨s, removed, semaphores_safe s reachable⟩

end Runs

end StudyWebServer.Lesson03
