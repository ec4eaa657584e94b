import StudyWebServer.WebServer.TimerTable

/-!
Runs of calls to HeapTimer against the table of timers they stand for. tick takes timers
from the table in the order in which they expire, up to the first one that is not due.
-/

namespace StudyWebServer.WebServer

open BinaryHeap

abbrev Table (Callback : Type) := Int → Option (TimerNode Callback)

variable {Callback : Type}

/-- The timers that a tick takes, with the readings of the clock it makes. -/
structure Sweep (clock : Nat → Int) (before after : Table Callback)
    (gone : List (TimerNode Callback)) : Prop where
  were : ∀ node ∈ gone, before node.id = some node
  sorted : gone.Pairwise fun first second => first.expires ≤ second.expires ∧ first.id ≠ second.id
  due : ∀ k node, gone[k]? = some node → HeapTimer.due (clock k) node = true
  kept : ∀ id, after id = if id ∈ gone.map TimerNode.id then none else before id
  early : ∀ id node, after id = some node → HeapTimer.due (clock gone.length) node = false
  later : ∀ id node, after id = some node → ∀ first ∈ gone, first.expires ≤ node.expires

section Clock

theorem count_millis_nonneg {d : Int} (pos : 0 ≤ d) : countMillis d = d / 1000000 :=
  Int.tdiv_eq_ediv_of_nonneg pos

theorem count_millis_neg (d : Int) : countMillis (-d) = -countMillis d := Int.neg_tdiv d 1000000

theorem count_millis_pos_iff (d : Int) : 0 < countMillis d ↔ 1000000 ≤ d := by
  rcases Int.le_total 0 d with pos | neg
  · rw [count_millis_nonneg pos]
    omega
  · have same := count_millis_neg (-d)
    rw [Int.neg_neg, count_millis_nonneg (show 0 ≤ -d by omega)] at same
    omega

theorem count_millis_neg_iff (d : Int) : countMillis d < 0 ↔ d ≤ -1000000 := by
  have positive := count_millis_pos_iff (-d)
  rw [count_millis_neg] at positive
  omega

/-- A timer is due from less than one millisecond before it expires. -/
theorem due_iff {now : Int} {node : TimerNode Callback} :
    HeapTimer.due now node = true ↔ node.expires - now < 1000000 := by
  have positive := count_millis_pos_iff (node.expires - now)
  rw [HeapTimer.due, decide_eq_true_iff]
  omega

end Clock

namespace Sweep
variable {clock : Nat → Int} {before middle after : Table Callback}
  {first : TimerNode Callback} {gone : List (TimerNode Callback)}

theorem none (early : ∀ id node, before id = some node → HeapTimer.due (clock 0) node = false) :
    Sweep clock before before [] := by
  refine ⟨fun node member => ?_, .nil, fun k node found => ?_, fun id => ?_, early,
    fun _ _ _ first member => ?_⟩
  · cases member
  · cases found
  · simp
  · cases member

/-- A timer that is due and expires first goes before the others. -/
theorem cons (known : before first.id = some first)
    (least : ∀ id node, before id = some node → first.expires ≤ node.expires)
    (due : HeapTimer.due (clock 0) first = true)
    (rest : Sweep (fun k => clock (k + 1)) (Function.update before first.id .none) after gone) :
    Sweep clock before after (first :: gone) := by
  have apart (node : TimerNode Callback) (member : node ∈ gone) : node.id ≠ first.id := by
    intro same
    have were := rest.were node member
    rw [same, Function.update_self] at were
    cases were
  have old (node : TimerNode Callback) (member : node ∈ gone) : before node.id = some node := by
    have were := rest.were node member
    rwa [Function.update_of_ne (apart node member)] at were
  have kept (id : Int) : after id =
      if id ∈ (first :: gone).map TimerNode.id then .none else before id := by
    rw [rest.kept, List.map_cons]
    by_cases same : id = first.id
    · subst same
      simp
    · rw [Function.update_of_ne same]
      simp [same]
  refine ⟨?_, ?_, ?_, kept, rest.early, ?_⟩
  · intro node member
    rcases List.mem_cons.mp member with rfl | inner
    · exact known
    · exact old node inner
  · refine List.pairwise_cons.mpr ⟨fun node member => ?_, rest.sorted⟩
    exact ⟨least _ node (old node member), (apart node member).symm⟩
  · intro k node found
    cases k with
    | zero =>
        cases found
        exact due
    | succ k => exact rest.due k node found
  · intro id node left other member
    rcases List.mem_cons.mp member with rfl | inner
    · refine least id node ?_
      rw [kept] at left
      split_ifs at left
      exact left
    · exact rest.later id node left other inner

end Sweep

namespace HeapTimer
variable {stray : Nat → Bool} {clock : Nat → Int} {h next last : HeapTimer Callback}

/-- The first timer stands for one that expires first. -/
theorem WellFormed.first (wellFormed : WellFormed h) {front : TimerNode Callback}
    (here : h.heap[0]? = some front) : h.contents front.id = some front ∧
      ∀ id node, h.contents id = some node → front.expires ≤ node.expires := by
  refine ⟨(wellFormed.indexed.contents_iff _ _).mpr ⟨List.mem_of_getElem? here, rfl⟩,
    fun id node found => ?_⟩
  exact wellFormed.front here ((wellFormed.indexed.contents_iff id node).mp found).1

theorem WellFormed.contents_nil (wellFormed : WellFormed h) (empty : h.heap = []) (id : Int) :
    h.contents id = none := by
  cases found : h.contents id with
  | none => rfl
  | some node =>
      obtain ⟨member, -⟩ := (wellFormed.indexed.contents_iff id node).mp found
      rw [empty] at member
      cases member

theorem front_none (none : h.heap[0]? = none) : h.heap = [] :=
  List.eq_nil_of_length_eq_zero (Nat.le_zero.mp (List.getElem?_eq_none_iff.mp none))

/-- One round of tick takes the first timer or ends. -/
theorem tick_round (wellFormed : WellFormed h) (k : Nat) :
    (tickRound stray clock (h, k) = .inr (some h) ∧
      ∀ id node, h.contents id = some node → due (clock k) node = false) ∨
    ∃ first next, h.contents first.id = some first ∧
      (∀ id node, h.contents id = some node → first.expires ≤ node.expires) ∧
      due (clock k) first = true ∧
      Effect h next [first] (Function.update h.contents first.id none) ∧
      (tickRound stray clock (h, k) = .inr none ∨ ∃ last, Alike next last ∧
        tickRound stray clock (h, k) = .inl (last, k + 1)) ∧
      ((∀ k, stray k = true) → tickRound stray clock (h, k) ≠ .inr none) := by
  cases heap : h.heap with
  | nil =>
      refine .inl ⟨by simp only [tickRound, heap], fun id node found => ?_⟩
      rw [wellFormed.contents_nil heap id] at found
      cases found
  | cons front rest =>
      have here : h.heap[0]? = some front := by
        rw [heap]
        rfl
      obtain ⟨known, least⟩ := wellFormed.first here
      by_cases now : due (clock k) front = true
      · have fired : WellFormed (h.fire front) := ⟨wellFormed.ordered, wellFormed.indexed⟩
        obtain ⟨next, effect, yields⟩ := pop_spec stray fired here
        right
        refine ⟨front, next, known, least, now, ⟨effect.wellFormed, effect.contents, ?_⟩, ?_,
          fun calm => ?_⟩
        · rw [effect.fired, List.append_nil]
          rfl
        · cases popped : (h.fire front).pop stray with
          | none => exact .inl (by simp only [tickRound, heap, now, popped, if_true])
          | some last =>
              exact .inr ⟨last, yields.alike popped,
                by simp only [tickRound, heap, now, popped, if_true]⟩
        · obtain ⟨last, popped⟩ := yields.some calm
          simp only [tickRound, heap, now, popped, if_true]
          exact fun same => by cases same
      · refine .inl ⟨by simp only [tickRound, heap, now]; rfl, fun id node found => ?_⟩
        have order := least id node found
        rw [Bool.eq_false_iff, Ne, due_iff]
        rw [due_iff] at now
        omega

theorem tick_run (wellFormed : WellFormed h) (k : Nat) :
    (∀ last, Loop.run (tickRound stray clock) (fun s => s.1.heap.length)
        (tick_decreases stray clock) (h, k) = some last →
      ∃ gone after, Effect h last gone after ∧
      Sweep (fun m => clock (m + k)) h.contents after gone) ∧
    ((∀ m, stray m = true) → Loop.run (tickRound stray clock) (fun s => s.1.heap.length)
      (tick_decreases stray clock) (h, k) ≠ none) := by
  induction size : h.heap.length using Nat.strongRecOn generalizing h k with
  | ind count ih =>
      rcases @tick_round _ stray clock h wellFormed k with ⟨round, early⟩ |
        ⟨first, next, known, least, now, effect, result, calm⟩
      · rw [Loop.run_return round]
        refine ⟨fun last same => ?_, fun _ => Option.some_ne_none h⟩
        cases same
        refine ⟨[], h.contents, ⟨wellFormed, rfl, (List.append_nil _).symm⟩, .none ?_⟩
        rw [Nat.zero_add]
        exact early
      · rcases result with ended | ⟨last, alike, round⟩
        · rw [Loop.run_return ended]
          exact ⟨fun last same => (Option.some_ne_none last same.symm).elim,
            fun quiet => absurd ended (calm quiet)⟩
        · have went := effect.alike alike
          have smaller := tick_decreases stray clock (h, k) _ round
          obtain ⟨ran, total⟩ := ih _ (size ▸ smaller) went.wellFormed (k + 1) rfl
          rw [Loop.run_again round]
          refine ⟨fun final same => ?_, total⟩
          obtain ⟨gone, after, swept, sweep⟩ := ran final same
          rw [went.contents] at sweep
          refine ⟨first :: gone, after, ⟨swept.wellFormed, swept.contents, ?_⟩,
            .cons known least ?_ ?_⟩
          · rw [swept.fired, went.fired, List.append_assoc]
            rfl
          · rw [Nat.zero_add]
            exact now
          · have shifted : (fun m => clock (m + 1 + k)) = fun m => clock (m + (k + 1)) := by
              funext m
              congr 1
              omega
            rwa [shifted]

/-- tick fires the timers that are due, in the order in which they expire. -/
theorem tick_spec (wellFormed : WellFormed h) (went : h.tick stray clock = some next) :
    ∃ gone after, Effect h next gone after ∧ Sweep clock h.contents after gone :=
  (tick_run wellFormed 0).1 next went

theorem tick_some (wellFormed : WellFormed h) (calm : ∀ m, stray m = true) :
    ∃ next, h.tick stray clock = some next :=
  Option.ne_none_iff_exists'.mp ((tick_run wellFormed 0).2 calm)

end HeapTimer

inductive Call (Callback : Type) where
  | add (id now timeout : Int) (cb : Callback)
  | doWork (id : Int)
  | adjust (id now timeout : Int)
  | tick (clock : Nat → Int)
  | pop
  | clear

/-- The calls that leave the table in another state, with the timers they fire. -/
inductive Table.Step : Table Callback → Call Callback → List (TimerNode Callback) →
    Table Callback → Prop where
  | add {table : Table Callback} {id now timeout : Int} {cb : Callback} (valid : 0 ≤ id) :
      Step table (.add id now timeout cb) []
        (Function.update table id (some ⟨id, now + millis timeout, cb⟩))
  | work {table : Table Callback} {id : Int} {node : TimerNode Callback}
      (known : table id = some node) :
      Step table (.doWork id) [node] (Function.update table id none)
  | idle {table : Table Callback} {id : Int} (unknown : table id = none) :
      Step table (.doWork id) [] table
  | adjust {table : Table Callback} {id now timeout : Int} {node : TimerNode Callback}
      (known : table id = some node) : Step table (.adjust id now timeout) []
        (Function.update table id (some { node with expires := now + millis timeout }))
  | tick {table after : Table Callback} {clock : Nat → Int} {gone : List (TimerNode Callback)}
      (sweep : Sweep clock table after gone) : Step table (.tick clock) gone after
  | pop {table : Table Callback} {node : TimerNode Callback} (known : table node.id = some node)
      (least : ∀ id other, table id = some other → node.expires ≤ other.expires) :
      Step table .pop [] (Function.update table node.id none)
  | clear {table : Table Callback} : Step table .clear [] fun _ => none

inductive Table.Run : Table Callback → List (Call Callback) → List (TimerNode Callback) →
    Table Callback → Prop where
  | nil {table : Table Callback} : Run table [] [] table
  | cons {before middle after : Table Callback} {call : Call Callback} {rest : List (Call Callback)}
      {gone later : List (TimerNode Callback)} (step : Table.Step before call gone middle)
      (run : Run middle rest later after) : Run before (call :: rest) (gone ++ later) after

/-- No adjust makes a timer expire earlier than before. -/
def Call.Forward (table : Table Callback) : Call Callback → Prop
  | .adjust id now timeout => ∀ node, table id = some node → node.expires ≤ now + millis timeout
  | _ => True

/-- The assertions on the arguments hold. -/
def Call.Valid (table : Table Callback) : Call Callback → Prop
  | .add id _ _ _ => 0 ≤ id
  | .adjust id _ _ => table id ≠ none
  | .pop => ∃ id, table id ≠ none
  | _ => True

namespace HeapTimer
variable {stray : Nat → Bool} {h next last : HeapTimer Callback}

def step (stray : Nat → Bool) (h : HeapTimer Callback) : Call Callback → Option (HeapTimer Callback)
  | .add id now timeout cb => h.add stray id now timeout cb
  | .doWork id => h.doWork stray id
  | .adjust id now timeout => h.adjust id now timeout
  | .tick clock => h.tick stray clock
  | .pop => h.pop stray
  | .clear => some h.clear

theorem clear_effect : Effect h h.clear [] fun _ => none := by
  have indexed : Indexed h.clear := by
    intro id i
    constructor
    · exact fun found => (Option.some_ne_none i found.symm).elim
    · rintro ⟨node, found, -⟩
      cases found
  exact ⟨⟨fun c _ small => absurd small (Nat.not_lt_zero c), indexed⟩, rfl,
    (List.append_nil _).symm⟩

theorem add_invalid {id now timeout : Int} {cb : Callback} (invalid : ¬ 0 ≤ id) :
    h.add stray id now timeout cb = none := by
  simp only [add, not_le.mp invalid, if_true]

theorem add_effect (wellFormed : WellFormed h) {id now timeout : Int} {cb : Callback}
    (valid : 0 ≤ id) : ∃ next,
    Effect h next [] (Function.update h.contents id (some ⟨id, now + millis timeout, cb⟩)) ∧
      Yields stray next (h.add stray id now timeout cb) := by
  cases known : h.contents id with
  | none =>
      obtain ⟨next, effect, -, result⟩ := add_new now timeout stray cb wellFormed valid known
      refine ⟨next, effect, ?_⟩
      rw [result]
      split_ifs
      · exact .inr rfl
      · exact .inl rfl
  | some node => exact add_known now timeout stray cb wellFormed valid known

/-- An adjust to no earlier time keeps the heap in order. -/
theorem adjust_forward (wellFormed : WellFormed h) {id now timeout : Int}
    {node : TimerNode Callback}
    (known : h.contents id = some node) (forward : node.expires ≤ now + millis timeout) :
    ∃ next, h.adjust id now timeout = some next ∧ Effect h next []
      (Function.update h.contents id (some { node with expires := now + millis timeout })) := by
  obtain ⟨i, place, here⟩ := Option.bind_eq_some_iff.mp known
  have there : h.heap[i]? = some node := here
  obtain ⟨next, adjusted, contents, fired, ordered⟩ :=
    adjust_spec now timeout wellFormed place there
  refine ⟨next, adjusted, ordered.mpr fun pos => ?_, contents, by rw [fired, List.append_nil]⟩
  have order := wellFormed.ordered i pos (List.getElem?_eq_some_iff.mp there).1
  rw [expires_at there] at order
  exact order.trans forward

theorem adjust_unknown (wellFormed : WellFormed h) {id now timeout : Int}
    (unknown : h.contents id = none) : h.adjust id now timeout = none := by
  simp only [adjust, wellFormed.indexed.unknown.mp unknown]

/-- What a call that succeeds does to the heap it does to the table. -/
theorem step_effect (wellFormed : WellFormed h) {call : Call Callback}
    (forward : call.Forward h.contents) (stepped : h.step stray call = some last) :
    ∃ gone after, Effect h last gone after ∧ Table.Step h.contents call gone after := by
  cases call with
  | add id now timeout cb =>
      by_cases valid : 0 ≤ id
      · obtain ⟨next, effect, yields⟩ := add_effect wellFormed valid
        exact ⟨_, _, effect.alike (yields.alike stepped), .add valid⟩
      · cases (add_invalid valid).symm.trans stepped
  | doWork id =>
      cases known : h.contents id with
      | none =>
          cases (do_work_unknown wellFormed known).symm.trans stepped
          exact ⟨[], _, ⟨wellFormed, rfl, (List.append_nil _).symm⟩, .idle known⟩
      | some node =>
          obtain ⟨next, effect, yields⟩ := do_work_spec wellFormed known
          exact ⟨_, _, effect.alike (yields.alike stepped), .work known⟩
  | adjust id now timeout =>
      cases known : h.contents id with
      | none => cases (adjust_unknown wellFormed known).symm.trans stepped
      | some node =>
          obtain ⟨next, adjusted, effect⟩ := adjust_forward wellFormed known (forward node known)
          cases adjusted.symm.trans stepped
          exact ⟨_, _, effect, .adjust known⟩
  | tick clock =>
      obtain ⟨gone, after, effect, sweep⟩ := tick_spec wellFormed stepped
      exact ⟨gone, after, effect, .tick sweep⟩
  | pop =>
      cases here : h.heap[0]? with
      | none =>
          have empty : h.pop stray = none := if_pos (front_none here)
          cases empty.symm.trans stepped
      | some front =>
          obtain ⟨known, least⟩ := wellFormed.first here
          obtain ⟨next, effect, yields⟩ := pop_spec stray wellFormed here
          exact ⟨_, _, effect.alike (yields.alike stepped), .pop known least⟩
  | clear =>
      cases stepped
      exact ⟨[], _, clear_effect, .clear⟩

/-- A call with arguments its assertions accept ends the program only by a read outside. -/
theorem step_some (wellFormed : WellFormed h) {call : Call Callback}
    (valid : call.Valid h.contents) (calm : ∀ k, stray k = true) :
    ∃ last, h.step stray call = some last := by
  cases call with
  | add id now timeout cb =>
      obtain ⟨next, -, yields⟩ := add_effect wellFormed valid
      exact yields.some calm
  | doWork id =>
      cases known : h.contents id with
      | none => exact ⟨h, do_work_unknown wellFormed known⟩
      | some node =>
          obtain ⟨next, -, yields⟩ := do_work_spec wellFormed known
          exact yields.some calm
  | adjust id now timeout =>
      obtain ⟨node, known⟩ := Option.ne_none_iff_exists'.mp valid
      obtain ⟨i, place, here⟩ := Option.bind_eq_some_iff.mp known
      obtain ⟨next, adjusted, -⟩ := adjust_spec now timeout wellFormed place here
      exact ⟨next, adjusted⟩
  | tick clock => exact tick_some wellFormed calm
  | pop =>
      obtain ⟨id, known⟩ := valid
      cases here : h.heap[0]? with
      | none => exact absurd (wellFormed.contents_nil (front_none here) id) known
      | some front =>
          obtain ⟨next, -, yields⟩ := pop_spec stray wellFormed here
          exact yields.some calm
  | clear => exact ⟨_, rfl⟩

/-- A run of calls, in which no adjust makes a timer expire earlier. -/
inductive Runs (stray : Nat → Bool) : HeapTimer Callback → List (Call Callback) →
    HeapTimer Callback → Prop where
  | nil {h : HeapTimer Callback} : Runs stray h [] h
  | cons {h next last : HeapTimer Callback} {call : Call Callback} {rest : List (Call Callback)}
      (forward : call.Forward h.contents) (stepped : h.step stray call = some next)
      (runs : Runs stray next rest last) : Runs stray h (call :: rest) last

theorem Runs.effect {calls : List (Call Callback)} (runs : Runs stray h calls last)
    (wellFormed : WellFormed h) : WellFormed last ∧ ∃ gone, last.fired = h.fired ++ gone ∧
      Table.Run h.contents calls gone last.contents := by
  induction runs with
  | nil => exact ⟨wellFormed, [], (List.append_nil _).symm, .nil⟩
  | cons forward stepped runs ih =>
      obtain ⟨gone, after, effect, did⟩ := step_effect wellFormed forward stepped
      obtain ⟨final, later, fired, run⟩ := ih effect.wellFormed
      refine ⟨final, gone ++ later, ?_, .cons (effect.contents ▸ did) run⟩
      rw [fired, effect.fired, List.append_assoc]

/-- A run of calls is one of the table and leaves the heap in order. The next call ends the
program only by its arguments or by a read outside of the vector. -/
theorem runs_refine_table {calls : List (Call Callback)} (runs : Runs stray empty calls last) :
    WellFormed last ∧ Table.Run (fun _ => none) calls last.fired last.contents ∧
      ∀ call, Call.Valid last.contents call → (∀ k, stray k = true) →
        ∃ next, last.step stray call = some next := by
  obtain ⟨wellFormed, gone, fired, run⟩ := runs.effect empty_well_formed
  refine ⟨wellFormed, ?_, fun call valid calm => step_some wellFormed valid calm⟩
  rw [fired]
  exact run

theorem runs_refine_table_server : ∃ last : HeapTimer Nat, WellFormed last ∧
    Table.Run (fun _ => none) [.add 3 0 50 30, .add 4 1 10 40, .adjust 3 2 60,
      .tick fun _ => 20000000, .doWork 3] last.fired last.contents ∧
    ∀ call, Call.Valid last.contents call → (∀ k, (fun _ : Nat => true) k = true) →
      ∃ next, last.step (fun _ => true) call = some next :=
  ⟨_, runs_refine_table (.cons trivial rfl (.cons trivial rfl (.cons
    (fun node known => by cases known; decide) rfl (.cons trivial rfl (.cons trivial rfl .nil)))))⟩

section Reached
variable {calls : List (Call Callback)} {id now timeout : Int} {cb : Callback}

/-- add with a new id reads a node outside of the vector exactly when no timer expires before
the new one. What it finds there decides about the end of the program. -/
theorem add_reads_outside (runs : Runs stray empty calls h) (valid : 0 ≤ id)
    (unknown : h.contents id = none) :
    (h.add stray id now timeout cb = none ↔
      (∀ other node, h.contents other = some node → now + millis timeout ≤ node.expires) ∧
        stray h.strays = false) ∧
    ∀ next, h.add stray id now timeout cb = some next → (h.strays < next.strays ↔
      ∀ other node, h.contents other = some node → now + millis timeout ≤ node.expires) := by
  have wellFormed := (runs.effect empty_well_formed).1
  have members : (∀ other node, h.contents other = some node →
      now + millis timeout ≤ node.expires) ↔
      ∀ node ∈ h.heap, now + millis timeout ≤ node.expires := by
    constructor
    · exact fun first node member =>
        first node.id node ((wellFormed.indexed.contents_iff _ _).mpr ⟨member, rfl⟩)
    · exact fun first other node known =>
        first node ((wellFormed.indexed.contents_iff _ _).mp known).1
  obtain ⟨next, -, strays, result⟩ := add_new now timeout stray cb wellFormed valid unknown
  rw [members, result]
  by_cases first : ∀ node ∈ h.heap, now + millis timeout ≤ node.expires
  · rw [if_pos first, readOutside, strays]
    cases calm : stray h.strays with
    | true =>
        refine ⟨by simp, fun after same => ?_⟩
        cases same
        exact iff_of_true (strays ▸ Nat.lt_succ_self _) first
    | false => exact ⟨iff_of_true rfl ⟨first, rfl⟩, fun after same => by cases same⟩
  · rw [if_neg first]
    refine ⟨by simp [first], fun after same => ?_⟩
    cases same
    exact iff_of_false (strays ▸ Nat.lt_irrefl _) first

/-- Beside a timer of 50 ms, add reads outside for one of 10 ms and not for one of 60 ms. -/
theorem add_reads_outside_first : let stray : Nat → Bool := (· == 0)
    ∃ h : HeapTimer Unit, Runs stray empty [.add 3 0 50 ()] h ∧ h.add stray 4 0 10 () = none ∧
      ∃ next, h.add stray 4 0 60 () = some next ∧ ¬ h.strays < next.strays := by
  intro stray
  obtain ⟨h, stepped, heap, strays⟩ : ∃ h : HeapTimer Unit,
      empty.step stray (.add 3 0 50 ()) = some h ∧ h.heap = [⟨3, millis 50, ()⟩] ∧ h.strays = 1 :=
    ⟨_, rfl, rfl, rfl⟩
  have runs : Runs stray empty [.add 3 0 50 ()] h := .cons trivial stepped .nil
  have wellFormed := (runs.effect empty_well_formed).1
  have known : ∀ other node, h.contents other = some node ↔
      node = ⟨3, millis 50, ()⟩ ∧ node.id = other := by
    intro other node
    rw [wellFormed.indexed.contents_iff, heap, List.mem_singleton]
  have unknown : h.contents 4 = none := by
    refine Option.eq_none_iff_forall_ne_some.mpr fun node some => ?_
    obtain ⟨rfl, same⟩ := (known 4 node).mp some
    exact absurd same (by decide)
  have adds (timeout : Int) := @add_reads_outside _ _ _ _ 4 0 timeout () runs (by decide) unknown
  refine ⟨h, runs, (adds 10).1.mpr ⟨?_, by rw [strays]; rfl⟩, ?_⟩
  · intro other node some
    obtain ⟨rfl, -⟩ := (known other node).mp some
    decide
  · have later : ¬ ∀ other node, h.contents other = some node → 0 + millis 60 ≤ node.expires :=
      fun first => absurd (first 3 _ ((known 3 _).mpr ⟨rfl, rfl⟩)) (by decide)
    cases added : h.add stray 4 0 60 () with
    | none => exact absurd ((adds 60).1.mp added).1 later
    | some next => exact ⟨next, rfl, fun more => later (((adds 60).2 next added).mp more)⟩

/-- GetNextTick returns a value below zero, which makes the poller wait without a limit,
exactly when there is no timer or the first one expired a millisecond ago. Otherwise no
timer expires during the wait. -/
theorem get_next_tick_negative {clock : Nat → Int} {wait : Int}
    (runs : Runs stray empty calls h) (got : h.getNextTick stray clock now = some (next, wait))
    (fits : ∀ id node, next.contents id = some node →
      MachineInt.FitsInt (countMillis (node.expires - now))) :
    (wait < 0 ↔ (∀ id, next.contents id = none) ∨
      ∃ id node, next.contents id = some node ∧ node.expires + 1000000 ≤ now) ∧
    (0 ≤ wait → ∀ id node, next.contents id = some node →
      now + millis wait ≤ max now node.expires) := by
  have before := (runs.effect empty_well_formed).1
  obtain ⟨after, tick, same⟩ := Option.map_eq_some_iff.mp got
  cases same
  obtain ⟨gone, after, effect, -⟩ := tick_spec before tick
  have wellFormed := effect.wellFormed
  cases heap : next.heap with
  | nil =>
      have negative : next.nextTick now < 0 := by
        simp only [nextTick, heap]
        decide
      have empty := wellFormed.contents_nil heap
      exact ⟨iff_of_true negative (.inl empty), fun pos => absurd negative (by omega)⟩
  | cons front rest =>
      have here : next.heap[0]? = some front := by
        rw [heap]
        rfl
      obtain ⟨known, least⟩ := wellFormed.first here
      have value : next.nextTick now = countMillis (front.expires - now) := by
        simp only [nextTick, heap]
        exact MachineInt.toInt_of_fits (fits front.id front known)
      rw [value]
      refine ⟨?_, fun pos id node found => ?_⟩
      · rw [count_millis_neg_iff]
        constructor
        · exact fun passed => .inr ⟨front.id, front, known, by omega⟩
        · rintro (empty | ⟨id, node, found, passed⟩)
          · rw [empty] at known
            cases known
          · have order := least id node found
            omega
      · have order := least id node found
        unfold millis
        rcases Int.le_total 0 (front.expires - now) with above | below
        · rw [count_millis_nonneg above]
          omega
        · have positive := count_millis_pos_iff (front.expires - now)
          omega

theorem get_next_tick_negative_one : ∃ next : HeapTimer Unit,
    ((20 : Int) < 0 ↔ (∀ id, next.contents id = none) ∨
      ∃ id node, next.contents id = some node ∧ node.expires + 1000000 ≤ 30000000) ∧
    ((0 : Int) ≤ 20 → ∀ id node, next.contents id = some node →
      30000000 + millis 20 ≤ max 30000000 node.expires) :=
  have runs : Runs (fun _ => true) empty [.add 3 0 50 ()] _ := .cons trivial rfl .nil
  have got : getNextTick (fun _ => true) (fun _ => 0) 30000000 _ = some (_, 20) := rfl
  ⟨_, get_next_tick_negative runs got fun id node found => by
    change (Function.update (fun _ => none) 3 (some 0) id : Option Nat).bind _ = _ at found
    by_cases same : id = 3
    · subst same
      cases found
      decide
    · rw [Function.update_of_ne same] at found
      cases found⟩

end Reached

end HeapTimer

end StudyWebServer.WebServer
