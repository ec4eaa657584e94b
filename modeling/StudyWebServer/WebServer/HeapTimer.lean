import StudyWebServer.Library.BinaryHeap
import StudyWebServer.Library.Loop
import StudyWebServer.Library.MachineInt
import Mathlib.Logic.Function.Basic
import Mathlib.Tactic.SplitIfs

/-!
HeapTimer of WebServer-master/code/timer: a binary heap of timers in a vector, and where
the timer with an id stands in it. A failing assertion ends the program. siftup_ at the
first position reads the node at (0 - 1) / 2 of a size_t, outside of the vector; what
the reads outside find is a parameter.
-/

namespace StudyWebServer.WebServer

open BinaryHeap

structure TimerNode (Callback : Type) where
  id : Int
  /-- in nanoseconds -/
  expires : Int
  cb : Callback
  deriving DecidableEq

structure HeapTimer (Callback : Type) where
  heap : List (TimerNode Callback)
  ref : Int → Option Nat
  /-- the nodes whose callbacks were called -/
  fired : List (TimerNode Callback)
  /-- how often a node outside of the vector was read -/
  strays : Nat

/-- `MS(timeout)` as nanoseconds -/
def millis (timeout : Int) : Int := timeout * 1000000

/-- `std::chrono::duration_cast<MS>(d).count()` -/
def countMillis (d : Int) : Int := Int.tdiv d 1000000

namespace HeapTimer
variable {Callback : Type}

def empty : HeapTimer Callback := ⟨[], fun _ => none, [], 0⟩

def swapNode (h : HeapTimer Callback) (i j : Nat) : Option (HeapTimer Callback) :=
  match h.heap[i]?, h.heap[j]? with
  | some first, some second => some { h with
      heap := (h.heap.set i second).set j first
      ref := Function.update (Function.update h.ref second.id (some i)) first.id (some j) }
  | _, _ => none

/-- A node outside of the vector is read and, if it does not expire before, swapped,
which an assertion forbids. -/
def readOutside (stray : Nat → Bool) (h : HeapTimer Callback) : Option (HeapTimer Callback) :=
  if stray h.strays then some { h with strays := h.strays + 1 } else none

def siftupRound (stray : Nat → Bool) (s : HeapTimer Callback × Nat) :
    (HeapTimer Callback × Nat) ⊕ Option (HeapTimer Callback) :=
  if s.2 = 0 then .inr (s.1.readOutside stray)
  else
    let j := (s.2 - 1) / 2
    match s.1.heap[j]?, s.1.heap[s.2]? with
    | some above, some node =>
        if above.expires < node.expires then .inr (some s.1)
        else
          match s.1.swapNode s.2 j with
          | some next => .inl (next, j)
          | none => .inr none
    | _, _ => .inr none

theorem siftup_decreases (stray : Nat → Bool) :
    Loop.Decreases (@siftupRound Callback stray) Prod.snd := by
  intro s next round
  unfold siftupRound at round
  split_ifs at round with root
  dsimp only at round
  split at round
  · split_ifs at round
    split at round
    · cases round
      dsimp only
      omega
    · cases round
  · cases round

def siftup (stray : Nat → Bool) (h : HeapTimer Callback) (i : Nat) : Option (HeapTimer Callback) :=
  if i < h.heap.length then
    Loop.run (siftupRound stray) Prod.snd (siftup_decreases stray) (h, i)
  else none

/-- The child of `i` that the loop of siftdown_ takes. -/
def child (h : HeapTimer Callback) (i n : Nat) : Nat :=
  let j := i * 2 + 1
  match h.heap[j]?, h.heap[j + 1]? with
  | some left, some right => if j + 1 < n ∧ right.expires < left.expires then j + 1 else j
  | _, _ => j

def siftdownRound (n : Nat) (s : HeapTimer Callback × Nat) :
    (HeapTimer Callback × Nat) ⊕ Option (HeapTimer Callback × Nat) :=
  if s.2 * 2 + 1 < n then
    let j := s.1.child s.2 n
    match s.1.heap[s.2]?, s.1.heap[j]? with
    | some node, some below =>
        if node.expires < below.expires then .inr (some s)
        else
          match s.1.swapNode s.2 j with
          | some next => .inl (next, j)
          | none => .inr none
    | _, _ => .inr none
  else .inr (some s)

theorem child_cases (h : HeapTimer Callback) (i n : Nat) :
    h.child i n = i * 2 + 1 ∨ i * 2 + 1 + 1 < n ∧ h.child i n = i * 2 + 1 + 1 := by
  unfold child
  dsimp only
  split
  · split_ifs with right
    · exact .inr ⟨right.1, rfl⟩
    · exact .inl rfl
  · exact .inl rfl

theorem siftdown_decreases (n : Nat) :
    Loop.Decreases (@siftdownRound Callback n) fun s => n - s.2 := by
  intro s next round
  unfold siftdownRound at round
  split_ifs at round with inside
  dsimp only at round
  have lower := child_cases s.1 s.2 n
  split at round
  · split_ifs at round
    split at round
    · cases round
      dsimp only
      omega
    · cases round
  · cases round

/-- The second part of the result says whether the node was moved. -/
def siftdown (h : HeapTimer Callback) (index n : Nat) : Option (HeapTimer Callback × Bool) :=
  if index < h.heap.length ∧ n ≤ h.heap.length then
    (Loop.run (siftdownRound n) (fun s => n - s.2) (siftdown_decreases n) (h, index)).map
      fun s => (s.1, decide (index < s.2))
  else none

/-- `if(!siftdown_(i, n)) siftup_(i);` -/
def settle (stray : Nat → Bool) (h : HeapTimer Callback) (i n : Nat) :
    Option (HeapTimer Callback) :=
  match h.siftdown i n with
  | none => none
  | some (next, true) => some next
  | some (next, false) => next.siftup stray i

def setAt (h : HeapTimer Callback) (i : Nat) (node : TimerNode Callback) : HeapTimer Callback :=
  { h with heap := h.heap.set i node }

/-- Behind a reference that is not a position of the vector the program counts as ended. -/
def add (stray : Nat → Bool) (h : HeapTimer Callback) (id now timeout : Int) (cb : Callback) :
    Option (HeapTimer Callback) :=
  if id < 0 then none
  else
    match h.ref id with
    | none =>
        let i := h.heap.length
        siftup stray { h with
          ref := Function.update h.ref id (some i)
          heap := h.heap ++ [⟨id, now + millis timeout, cb⟩] } i
    | some i =>
        match h.heap[i]? with
        | none => none
        | some node =>
            let next := h.setAt i { node with expires := now + millis timeout, cb := cb }
            next.settle stray i next.heap.length

/-- `ref_.erase(heap_.back().id); heap_.pop_back();` -/
def dropBack (h : HeapTimer Callback) : Option (HeapTimer Callback) :=
  match h.heap.getLast? with
  | none => none
  | some back => some { h with
      ref := Function.update h.ref back.id none
      heap := h.heap.dropLast }

def del (stray : Nat → Bool) (h : HeapTimer Callback) (index : Nat) : Option (HeapTimer Callback) :=
  if index < h.heap.length then
    let n := h.heap.length - 1
    if index < n then
      match h.swapNode index n with
      | none => none
      | some swapped =>
          match swapped.settle stray index n with
          | none => none
          | some next => next.dropBack
    else h.dropBack
  else none

def fire (h : HeapTimer Callback) (node : TimerNode Callback) : HeapTimer Callback :=
  { h with fired := h.fired ++ [node] }

def doWork (stray : Nat → Bool) (h : HeapTimer Callback) (id : Int) : Option (HeapTimer Callback) :=
  match h.ref id with
  | none => some h
  | some i =>
      if h.heap = [] then some h
      else
        match h.heap[i]? with
        | none => none
        | some node => (h.fire node).del stray i

def adjust (h : HeapTimer Callback) (id now timeout : Int) : Option (HeapTimer Callback) :=
  match h.ref id with
  | none => none
  | some i =>
      match h.heap[i]? with
      | none => none
      | some node =>
          let next := h.setAt i { node with expires := now + millis timeout }
          (next.siftdown i next.heap.length).map Prod.fst

def pop (stray : Nat → Bool) (h : HeapTimer Callback) : Option (HeapTimer Callback) :=
  if h.heap = [] then none else h.del stray 0

def clear (h : HeapTimer Callback) : HeapTimer Callback :=
  { h with heap := [], ref := fun _ => none }

/-- `duration_cast<MS>(node.expires - now).count()` is not above zero. -/
def due (now : Int) (node : TimerNode Callback) : Bool := countMillis (node.expires - now) ≤ 0

section Length
variable {stray : Nat → Bool} {h next : HeapTimer Callback} {i n : Nat}

theorem swap_node_length {j : Nat} (swapped : h.swapNode i j = some next) :
    next.heap.length = h.heap.length := by
  unfold swapNode at swapped
  split at swapped
  · cases swapped
    simp
  · cases swapped

theorem siftup_length (sifted : h.siftup stray i = some next) :
    next.heap.length = h.heap.length := by
  unfold siftup at sifted
  split_ifs at sifted
  revert sifted
  apply Loop.run_induction (motive := fun (s : HeapTimer Callback × Nat) value =>
    value = some next → next.heap.length = s.1.heap.length) ?_ ?_ (h, i)
  · intro s after value round ih same
    unfold siftupRound at round
    split_ifs at round
    dsimp only at round
    split at round
    · split_ifs at round
      split at round
      · next swapped =>
          cases round
          exact (ih same).trans (swap_node_length swapped)
      · cases round
    · cases round
  · intro s value round same
    subst same
    unfold siftupRound at round
    split_ifs at round
    · unfold readOutside at round
      split_ifs at round
      · cases round
        rfl
      · cases round
    · dsimp only at round
      split at round
      · split_ifs at round
        · cases round
          rfl
        · split at round <;> cases round
      · cases round

theorem siftdown_length {moved : Bool} (sifted : h.siftdown i n = some (next, moved)) :
    next.heap.length = h.heap.length := by
  unfold siftdown at sifted
  split_ifs at sifted
  obtain ⟨s, ran, same⟩ := Option.map_eq_some_iff.mp sifted
  have first : s.1 = next := congrArg Prod.fst same
  rw [← first]
  clear same first
  revert ran
  apply Loop.run_induction (motive := fun (first : HeapTimer Callback × Nat) value =>
    value = some s → s.1.heap.length = first.1.heap.length) ?_ ?_ (h, i)
  · intro s after value round ih same
    unfold siftdownRound at round
    split_ifs at round
    dsimp only at round
    split at round
    · split_ifs at round
      split at round
      · next swapped =>
          cases round
          exact (ih same).trans (swap_node_length swapped)
      · cases round
    · cases round
  · intro s value round same
    subst same
    unfold siftdownRound at round
    split_ifs at round
    · dsimp only at round
      split at round
      · split_ifs at round
        · cases round
          rfl
        · split at round <;> cases round
      · cases round
    · cases round
      rfl

theorem settle_length (settled : h.settle stray i n = some next) :
    next.heap.length = h.heap.length := by
  unfold settle at settled
  split at settled
  · cases settled
  · next sifted =>
      cases settled
      exact siftdown_length sifted
  · next sifted => exact (siftup_length settled).trans (siftdown_length sifted)

theorem drop_back_length (dropped : h.dropBack = some next) :
    next.heap.length + 1 = h.heap.length := by
  unfold dropBack at dropped
  split at dropped
  · cases dropped
  · next found =>
      cases dropped
      have some := List.length_pos_of_mem (List.mem_of_getLast? found)
      rw [List.length_dropLast]
      omega

theorem del_length (deleted : h.del stray i = some next) :
    next.heap.length + 1 = h.heap.length := by
  unfold del at deleted
  dsimp only at deleted
  split_ifs at deleted
  · split at deleted
    · cases deleted
    · next swapped =>
        split at deleted
        · cases deleted
        · next settled =>
            rw [drop_back_length deleted, settle_length settled, swap_node_length swapped]
  · exact drop_back_length deleted

theorem pop_length (popped : h.pop stray = some next) : next.heap.length + 1 = h.heap.length := by
  unfold pop at popped
  split_ifs at popped
  exact del_length popped

end Length

/-- One round of the loop of tick, `k` being the number of rounds before it. -/
def tickRound (stray : Nat → Bool) (clock : Nat → Int) (s : HeapTimer Callback × Nat) :
    (HeapTimer Callback × Nat) ⊕ Option (HeapTimer Callback) :=
  match s.1.heap with
  | [] => .inr (some s.1)
  | node :: _ =>
      if due (clock s.2) node then
        match (s.1.fire node).pop stray with
        | some next => .inl (next, s.2 + 1)
        | none => .inr none
      else .inr (some s.1)

theorem tick_decreases (stray : Nat → Bool) (clock : Nat → Int) :
    Loop.Decreases (@tickRound Callback stray clock) fun s => s.1.heap.length := by
  intro s next round
  unfold tickRound at round
  split at round
  · cases round
  · next node rest front =>
      split_ifs at round
      split at round
      · next after popped =>
          cases round
          have same : (s.1.fire node).heap.length = s.1.heap.length := rfl
          have shorter := pop_length popped
          dsimp only
          omega
      · cases round

/-- `clock` are the readings of the clock, of which the k-th round takes one. -/
def tick (stray : Nat → Bool) (clock : Nat → Int) (h : HeapTimer Callback) :
    Option (HeapTimer Callback) :=
  Loop.run (tickRound stray clock) (fun s => s.1.heap.length) (tick_decreases stray clock) (h, 0)

/-- The value of GetNextTick behind its tick, with one more reading of the clock. The
result is a size_t, so it is not below zero, and is returned as an int. -/
def nextTick (h : HeapTimer Callback) (now : Int) : Int :=
  match h.heap with
  | [] => MachineInt.toInt (-1)
  | node :: _ => MachineInt.toInt (countMillis (node.expires - now))

def getNextTick (stray : Nat → Bool) (clock : Nat → Int) (now : Int) (h : HeapTimer Callback) :
    Option (HeapTimer Callback × Int) :=
  (h.tick stray clock).map fun next => (next, next.nextTick now)

end HeapTimer

end StudyWebServer.WebServer
