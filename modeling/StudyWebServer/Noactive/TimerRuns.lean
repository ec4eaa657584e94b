import StudyWebServer.Noactive.TimerTick
import Mathlib.Logic.Relation

/-!
Runs of operations on a timer list that begins empty. In webserver the list stays
a sorted, doubly linked list of the timers there are. In lesson05 it does so as
long as no timer has to go between two others.
-/

namespace StudyWebServer

open LinkedList

namespace SortTimerLst
variable {Callback User : Type}

inductive TimerOp (Callback User : Type) where
  | add (timer : Nat) (task : Task Callback User)
  | postpone (timer : Nat) (expire : Int)
  | del (timer : Nat)
  | tick (cur : Int)

def TimerOp.run (source : Source Callback User) (rounds : Nat) :
    TimerOp Callback User → SortTimerLst Callback User → Option (SortTimerLst Callback User)
  | .add timer task, lst => (lst.create timer task).addTimer source rounds (some timer)
  | .postpone timer expire, lst => lst.postpone source rounds timer expire
  | .del timer, lst => lst.delTimer (some timer)
  | .tick cur, lst => (lst.tick rounds cur).map Ticked.lst

/-- A new timer is added, the others are members, and a time is not lowered. -/
def TimerOp.Fits (lst : SortTimerLst Callback User) : TimerOp Callback User → Prop
  | .add timer _ => lst.heap timer = none
  | .postpone timer expire => ∃ cell, lst.heap timer = some cell ∧ cell.data.expire ≤ expire
  | .del timer => (lst.heap timer).isSome
  | .tick _ => True

def Reached (source : Source Callback User)
    (allowed : SortTimerLst Callback User → TimerOp Callback User → Prop)
    (lst : SortTimerLst Callback User) : Prop :=
  Relation.ReflTransGen (fun before after => ∃ op rounds,
    op.Fits before ∧ allowed before op ∧ op.run source rounds before = some after) empty lst

def nextOf (lst : SortTimerLst Callback User) (timer : Nat) : Option Nat :=
  (lst.heap timer).bind Cell.next

def prevOf (lst : SortTimerLst Callback User) (timer : Nat) : Option Nat :=
  (lst.heap timer).bind Cell.prev

/-- The order in which the timers are met from head on, and what is true of it. -/
structure Proper (lst : SortTimerLst Callback User) : Prop where
  timers : ∃ timers, Keeps lst timers
  head : lst.head = none ↔ ∀ timer, lst.heap timer = none
  inverse : ∀ a b, lst.nextOf a = some b ↔ lst.prevOf b = some a

section Proper
variable {lst : SortTimerLst Callback User} {timers : Timers Callback User}

theorem Keeps.entry (keeps : Keeps lst timers) {timer : Nat} {cell : UtilTimer Callback User}
    (here : lst.heap timer = some cell) :
    ∃ front back, timers = front ++ (timer, cell.data) :: back ∧
      cell.prev = last none front ∧ cell.next = first back none := by
  have member : timer ∈ addresses timers := (keeps.live timer).mp (by rw [here]; rfl)
  obtain ⟨⟨_, task⟩, inside, rfl⟩ := List.mem_map.mp member
  obtain ⟨front, back, rfl⟩ := List.append_of_mem inside
  have same := (linked_at keeps.whole.linked).symm.trans here
  cases same
  exact ⟨front, back, rfl, rfl, rfl⟩

theorem Keeps.head_none (keeps : Keeps lst timers) :
    lst.head = none ↔ ∀ timer, lst.heap timer = none := by
  constructor
  · intro none timer
    cases here : lst.heap timer with
    | none => rfl
    | some cell =>
        obtain ⟨front, back, rfl, -⟩ := keeps.entry here
        have first := keeps.whole.head
        rw [none, first_append] at first
        cases front <;> cases first
  · intro none
    cases timers with
    | nil => exact keeps.whole.head
    | cons entry rest =>
        have here := keeps.whole.linked.1
        rw [none] at here
        cases here

theorem Keeps.inverse (keeps : Keeps lst timers) (a b : Nat) :
    lst.nextOf a = some b ↔ lst.prevOf b = some a := by
  constructor
  · intro next
    obtain ⟨cell, here, same⟩ := Option.bind_eq_some_iff.mp next
    obtain ⟨front, back, rfl, -, follows⟩ := keeps.entry here
    rw [same] at follows
    cases back with
    | nil => cases follows
    | cons entry rest =>
        cases follows
        exact (linked_adjacent keeps.whole.linked).2
  · intro prev
    obtain ⟨cell, here, same⟩ := Option.bind_eq_some_iff.mp prev
    obtain ⟨front, back, rfl, leads, -⟩ := keeps.entry here
    rw [same] at leads
    rcases List.eq_nil_or_concat front with none | ⟨front', entry, some_front⟩
    · subst none
      cases leads
    · rw [List.concat_eq_append] at some_front
      subst some_front
      rw [last_append_cons] at leads
      cases leads
      have linked := keeps.whole.linked
      rw [List.append_assoc] at linked
      exact (linked_adjacent linked).1

theorem Keeps.proper (keeps : Keeps lst timers) : Proper lst :=
  ⟨⟨timers, keeps⟩, keeps.head_none, keeps.inverse⟩

end Proper

section Unique
variable {source : Source Callback User} {lst one other : SortTimerLst Callback User}
  {m n timer lstHead : Nat}

theorem behind_unique (first : lst.addTimerBehind source m timer lstHead = some one)
    (second : lst.addTimerBehind source n timer lstHead = some other) : one = other := by
  simp only [addTimerBehind, Option.bind_eq_bind, Option.bind_eq_some_iff] at first second
  obtain ⟨cell, here, done, ends, rfl⟩ := first
  obtain ⟨same, also, after, ends', rfl⟩ := second
  cases here.symm.trans also
  exact Option.some.inj (Loop.ends_unique ⟨m, ends⟩ ⟨n, ends'⟩)

theorem add_unique (first : lst.addTimer source m (some timer) = some one)
    (second : lst.addTimer source n (some timer) = some other) : one = other := by
  cases head : lst.head with
  | none =>
      simp only [addTimer, head] at first second
      exact Option.some.inj (first.symm.trans second)
  | some p =>
      simp only [addTimer, head, Option.bind_eq_bind, Option.bind_eq_some_iff] at first second
      obtain ⟨cell, here, front, front_here, first⟩ := first
      obtain ⟨same, also, front', also', second⟩ := second
      cases here.symm.trans also
      cases front_here.symm.trans also'
      by_cases earlier : cell.data.expire < front.data.expire
      · rw [if_pos earlier] at first second
        exact Option.some.inj (first.symm.trans second)
      · rw [if_neg earlier] at first second
        exact behind_unique first second

theorem postpone_unique {expire : Int} (first : lst.postpone source m timer expire = some one)
    (second : lst.postpone source n timer expire = some other) : one = other := by
  simp only [SortTimerLst.postpone, Option.bind_eq_bind, Option.bind_eq_some_iff] at first second
  obtain ⟨later, sets, first⟩ := first
  obtain ⟨same, sets', second⟩ := second
  cases sets.symm.trans sets'
  simp only [adjustTimer, Option.bind_eq_bind, Option.bind_eq_some_iff] at first second
  obtain ⟨cell, here, first⟩ := first
  obtain ⟨same, also, second⟩ := second
  cases here.symm.trans also
  cases next : cell.next with
  | none =>
      simp only [next] at first second
      exact Option.some.inj (first.symm.trans second)
  | some tmp =>
      simp only [next, Option.bind_eq_some_iff] at first second
      obtain ⟨behind, behind_here, first⟩ := first
      obtain ⟨same, also, second⟩ := second
      cases behind_here.symm.trans also
      -- Each test reads the heap before the walk, so both runs take the same branch.
      by_cases earlier : cell.data.expire < behind.data.expire
      · rw [if_pos earlier] at first second
        exact Option.some.inj (first.symm.trans second)
      · rw [if_neg earlier] at first second
        by_cases head : later.head = some timer
        · rw [if_pos head] at first second
          simp only [Option.bind_eq_some_iff] at first second
          obtain ⟨a, set_a, b, set_b, first⟩ := first
          obtain ⟨a', set_a', b', set_b', second⟩ := second
          cases set_a.symm.trans set_a'
          cases set_b.symm.trans set_b'
          exact behind_unique first second
        · rw [if_neg head] at first second
          simp only [Option.bind_eq_some_iff] at first second
          obtain ⟨a, set_a, b, set_b, c, set_c, first⟩ := first
          obtain ⟨a', set_a', b', set_b', c', set_c', second⟩ := second
          cases set_a.symm.trans set_a'
          cases set_b.symm.trans set_b'
          cases set_c.symm.trans set_c'
          exact behind_unique first second

theorem tick_unique {cur : Int} {one other : Ticked Callback User}
    (first : lst.tick m cur = some one) (second : lst.tick n cur = some other) : one = other := by
  simp only [SortTimerLst.tick, Option.bind_eq_bind, Option.bind_eq_some_iff] at first second
  obtain ⟨done, ends, rfl⟩ := first
  obtain ⟨after, ends', rfl⟩ := second
  exact Option.some.inj (Loop.ends_unique ⟨m, ends⟩ ⟨n, ends'⟩)

/-- More rounds do not change what a call does. -/
theorem run_unique {op : TimerOp Callback User} (first : op.run source m lst = some one)
    (second : op.run source n lst = some other) : one = other := by
  cases op with
  | add timer task => exact add_unique first second
  | postpone timer expire => exact postpone_unique first second
  | del timer => exact Option.some.inj (first.symm.trans second)
  | tick cur =>
      simp only [TimerOp.run, Option.map_eq_some_iff] at first second
      obtain ⟨ticked, ticks, rfl⟩ := first
      obtain ⟨ticked', ticks', rfl⟩ := second
      rw [tick_unique ticks ticks']

end Unique

section Webserver
variable {lst lst' : SortTimerLst Callback User} {timers : Timers Callback User}
  {op : TimerOp Callback User}

theorem empty_keeps : Keeps (empty : SortTimerLst Callback User) [] where
  whole := ⟨List.nodup_nil, trivial, rfl, fun some => absurd rfl some⟩
  live timer := by simp [empty]
  sorted := List.Pairwise.nil

/-- An operation comes to an end, and leaves the list in order. -/
theorem Keeps.runs (keeps : Keeps lst timers) (fits : op.Fits lst) :
    ∃ rounds lst', op.run webserver rounds lst = some lst' ∧ ∃ timers, Keeps lst' timers := by
  cases op with
  | add timer task =>
      obtain ⟨rounds, lst', runs, kept⟩ := keeps.add fits task
      exact ⟨rounds, lst', runs, _, kept⟩
  | postpone timer expire =>
      obtain ⟨cell, here, raised⟩ := fits
      obtain ⟨front, back, rfl, -⟩ := keeps.entry here
      obtain ⟨rounds, lst', runs, kept⟩ := keeps.postpone raised
      exact ⟨rounds, lst', runs, _, kept⟩
  | del timer =>
      obtain ⟨cell, here⟩ := Option.isSome_iff_exists.mp fits
      obtain ⟨front, back, rfl, -⟩ := keeps.entry here
      obtain ⟨lst', runs, kept⟩ := keeps.del
      exact ⟨0, lst', runs, _, kept⟩
  | tick cur =>
      obtain ⟨rounds, lst', runs, kept⟩ := keeps.tick cur
      refine ⟨rounds, lst', ?_, _, kept⟩
      simp only [TimerOp.run, runs, Option.map_some]

theorem Keeps.run {rounds : Nat} (keeps : Keeps lst timers) (fits : op.Fits lst)
    (runs : op.run webserver rounds lst = some lst') : ∃ timers, Keeps lst' timers := by
  obtain ⟨enough, after, ends, kept⟩ := keeps.runs fits
  cases run_unique runs ends
  exact kept

theorem reached_keeps (reached : Reached webserver (fun _ _ => True) lst) :
    ∃ timers, Keeps lst timers := by
  induction reached with
  | refl => exact ⟨[], empty_keeps⟩
  | tail _ last ih =>
      obtain ⟨timers, keeps⟩ := ih
      obtain ⟨op, rounds, fits, -, runs⟩ := last
      exact keeps.run fits runs

/-- Whatever is done with the timers, the list is in order, and the next operation
comes to an end without following a bad pointer. -/
theorem timer_list_proper (reached : Reached webserver (fun _ _ => True) lst) :
    lst.Proper ∧ ∀ op : TimerOp Callback User, op.Fits lst →
      ∃ rounds lst', op.run webserver rounds lst = some lst' := by
  obtain ⟨timers, keeps⟩ := reached_keeps reached
  refine ⟨keeps.proper, fun op fits => ?_⟩
  obtain ⟨rounds, lst', runs, -⟩ := keeps.runs fits
  exact ⟨rounds, lst', runs⟩

/-- Three timers, the third of which goes between the others. -/
def threeTimers (source : Source Unit Unit) : Option (SortTimerLst Unit Unit) := do
  let lst ← (TimerOp.add 1 ⟨10, (), ()⟩).run source 3 empty
  let lst ← (TimerOp.add 2 ⟨30, (), ()⟩).run source 3 lst
  (TimerOp.add 3 ⟨20, (), ()⟩).run source 3 lst

theorem timer_list_proper_three : ∃ lst, threeTimers webserver = some lst ∧ lst.Proper := by
  have reached : ∃ lst, threeTimers webserver = some lst ∧
      Reached webserver (fun _ _ => True) lst := by
    refine ⟨_, rfl, .tail (.tail (.tail .refl ⟨.add 1 ⟨10, (), ()⟩, 3, rfl, trivial, rfl⟩)
      ⟨.add 2 ⟨30, (), ()⟩, 3, rfl, trivial, rfl⟩) ⟨.add 3 ⟨20, (), ()⟩, 3, rfl, trivial, rfl⟩⟩
  obtain ⟨lst, three, run⟩ := reached
  exact ⟨lst, three, (timer_list_proper run).1⟩

end Webserver

section Lesson05
variable {lst lst' : SortTimerLst Callback User} {timers : Timers Callback User}
  {op : TimerOp Callback User} {rounds timer p : Nat}

/-- No timer has to go between two others: it goes to an end of the list, and one
that is postponed stays where it is or goes from the first place to the last. -/
def TimerOp.Clean (lst : SortTimerLst Callback User) : TimerOp Callback User → Prop
  | .add _ task =>
      (∃ front ∈ lst.head.bind lst.heap, task.expire < front.data.expire) ∨
        ∀ other, ∀ cell ∈ lst.heap other, cell.data.expire ≤ task.expire
  | .postpone timer expire =>
      (∀ behind ∈ (lst.nextOf timer).bind lst.heap, expire < behind.data.expire) ∨
        lst.head = some timer ∧
          ∀ other ≠ timer, ∀ cell ∈ lst.heap other, cell.data.expire ≤ expire
  | .del _ | .tick _ => True

/-- The copies agree on a walk to the end of the list. -/
theorem behind_same (latest : ∀ own ∈ lst.heap timer, ∀ other, ∀ cell ∈ lst.heap other,
    cell.data.expire ≤ own.data.expire) :
    lst.addTimerBehind lesson05 rounds timer p = lst.addTimerBehind webserver rounds timer p := by
  have same : walkRound lesson05 timer lst = walkRound webserver timer lst := by
    funext walk
    unfold walkRound
    split
    · rfl
    · next tmp _ =>
        split
        · next own behind here there =>
            have order := latest own here tmp behind there
            rw [if_neg (Int.not_lt.mpr order), if_neg (Int.not_lt.mpr order)]
        · rfl
  rw [addTimerBehind, addTimerBehind, same]

theorem add_same (fresh : lst.heap timer = none) {task : Task Callback User}
    (clean : (TimerOp.add timer task).Clean lst) :
    (lst.create timer task).addTimer lesson05 rounds (some timer) =
      (lst.create timer task).addTimer webserver rounds (some timer) := by
  have here : (lst.create timer task).heap timer = some ⟨task, none, none⟩ :=
    Function.update_self ..
  have away {other : Nat} (apart : other ≠ timer) :
      (lst.create timer task).heap other = lst.heap other := Function.update_of_ne apart ..
  rcases clean with ⟨front, first, earlier⟩ | latest
  · obtain ⟨head, is_head, front_here⟩ := Option.bind_eq_some_iff.mp first
    have apart : head ≠ timer := by
      rintro rfl
      cases fresh.symm.trans front_here
    have head_eq : (lst.create timer task).head = some head := is_head
    simp only [addTimer, head_eq, here, away apart, front_here, earlier, ↓reduceIte,
      Option.bind_eq_bind, Option.bind_some]
  · have behind (p : Nat) : (lst.create timer task).addTimerBehind lesson05 rounds timer p =
        (lst.create timer task).addTimerBehind webserver rounds timer p := by
      apply behind_same
      intro own is_own other cell there
      cases here.symm.trans is_own
      by_cases apart : other = timer
      · subst apart
        cases here.symm.trans there
        exact Int.le_refl _
      · rw [away apart] at there
        exact latest other cell there
    unfold addTimer
    simp only [behind]

theorem set_prev_heap {after : SortTimerLst Callback User} {prev : Option Nat}
    (sets : lst.setPrev p prev = some after) : after.heap = lst.heap.setPrev p prev := by
  unfold setPrev at sets
  split_ifs at sets
  cases sets
  rfl

theorem set_next_heap {after : SortTimerLst Callback User} {next : Option Nat}
    (sets : lst.setNext p next = some after) : after.heap = lst.heap.setNext p next := by
  unfold setNext at sets
  split_ifs at sets
  cases sets
  rfl

theorem Keeps.postpone_same (keeps : Keeps lst timers) {expire : Int}
    (fits : (TimerOp.postpone timer expire).Fits lst)
    (clean : (TimerOp.postpone timer expire).Clean lst) :
    lst.postpone lesson05 rounds timer expire = lst.postpone webserver rounds timer expire := by
  obtain ⟨cell, here, raised⟩ := fits
  obtain ⟨later, is_later⟩ : ∃ later : Task Callback User,
      later = { cell.data with expire := expire } := ⟨_, rfl⟩
  have expires : later.expire = expire := by rw [is_later]
  have sets : lst.setExpire timer expire =
      some { lst with heap := lst.heap.setData timer later } := by
    simp only [setExpire, here, is_later, Option.bind_eq_bind, Option.bind_some]
  have here' : lst.heap.setData timer later timer = some { cell with data := later } := by
    simp [Store.setData, here]
  have away {other : Nat} (apart : other ≠ timer) :
      lst.heap.setData timer later other = lst.heap other := change_other apart _
  cases next : cell.next with
  | none =>
      simp only [SortTimerLst.postpone, sets, adjustTimer, here', next, Option.bind_eq_bind,
        Option.bind_some]
  | some tmp =>
      obtain ⟨front, back, rfl, -, follows⟩ := keeps.entry here
      have adjacent : lst.nextOf timer = some tmp := by rw [nextOf, here, ← next]; rfl
      obtain ⟨behind, there, -⟩ :=
        Option.bind_eq_some_iff.mp ((keeps.inverse timer tmp).mp adjacent)
      have apart : tmp ≠ timer := by
        rintro rfl
        rw [next] at follows
        cases back with
        | nil => cases follows
        | cons entry rest =>
            cases follows
            exact (nodup_middle keeps.whole.nodup).2 List.mem_cons_self
      -- A timer that stays in its place is not unlinked, so the two sources do the same;
      -- one that leaves is the head, whose unlinking they share, and the walk then
      -- finds every member no later than it and goes to the end of the list.
      rcases clean with stays | ⟨first, latest⟩
      · have earlier : later.expire < behind.data.expire := by
          rw [expires]
          exact stays behind (by rw [adjacent]; exact there)
        simp only [SortTimerLst.postpone, sets, adjustTimer, here', next, away apart, there,
          earlier, ↓reduceIte, Option.bind_eq_bind, Option.bind_some]
      · by_cases earlier : later.expire < behind.data.expire
        · simp only [SortTimerLst.postpone, sets, adjustTimer, here', next, away apart, there,
            earlier, ↓reduceIte, Option.bind_eq_bind, Option.bind_some]
        · simp only [SortTimerLst.postpone, sets, adjustTimer, here', next, away apart, there,
            earlier, first, ↓reduceIte, Option.bind_eq_bind, Option.bind_some]
          refine Option.bind_congr fun a set_a => Option.bind_congr fun b set_b => behind_same ?_
          -- The unlinking changes links only, so the times are those of lst.
          have heap (other : Nat) : (b.heap other).map Cell.data =
              (lst.heap.setData timer later other).map Cell.data := by
            rw [set_next_heap set_b, set_next_data, set_prev_heap set_a, set_prev_data]
          have holds {other : Nat} {found : UtilTimer Callback User} (at_ : found ∈ b.heap other) :
              (lst.heap.setData timer later other).map Cell.data = some found.data := by
            rw [← heap, at_]
            rfl
          intro own is_own other found is_found
          have own_data := holds is_own
          rw [here'] at own_data
          have own_later : later = own.data := Option.some.inj own_data
          have data := holds is_found
          by_cases same : other = timer
          · subst same
            rw [here', own_data] at data
            rw [Option.some.inj data]
          · rw [away same] at data
            obtain ⟨cell', there', same_data⟩ := Option.map_eq_some_iff.mp data
            rw [← same_data, ← own_later, expires]
            exact latest other same cell' there'

theorem Keeps.run_same (keeps : Keeps lst timers) (fits : op.Fits lst) (clean : op.Clean lst) :
    op.run lesson05 rounds lst = op.run webserver rounds lst := by
  cases op with
  | add timer task => exact add_same fits clean
  | postpone timer expire => exact keeps.postpone_same fits clean
  | del timer => rfl
  | tick cur => rfl

theorem reached_lesson05_keeps (reached : Reached lesson05 (fun lst op => op.Clean lst) lst) :
    ∃ timers, Keeps lst timers := by
  induction reached with
  | refl => exact ⟨[], empty_keeps⟩
  | tail _ last ih =>
      obtain ⟨timers, keeps⟩ := ih
      obtain ⟨op, rounds, fits, clean, runs⟩ := last
      rw [keeps.run_same fits clean] at runs
      exact keeps.run fits runs

/-- As long as no timer has to go between two others, the list of lesson05 is in
order, and every loop over it comes to an end. -/
theorem lesson05_timer_list_proper (reached : Reached lesson05 (fun lst op => op.Clean lst) lst) :
    lst.Proper ∧
      (∀ op : TimerOp Callback User, op.Fits lst → op.Clean lst →
        ∃ rounds lst', op.run lesson05 rounds lst = some lst') ∧
      ∃ rounds lst', lst.destroy rounds = some lst' := by
  obtain ⟨timers, keeps⟩ := reached_lesson05_keeps reached
  refine ⟨keeps.proper, fun op fits clean => ?_, ?_⟩
  · obtain ⟨rounds, lst', runs, -⟩ := keeps.runs fits
    exact ⟨rounds, lst', (keeps.run_same fits clean).trans runs⟩
  · obtain ⟨rounds, lst', destroyed, -⟩ := keeps.destroy
    exact ⟨rounds, lst', destroyed⟩

/-- The third timer is linked in front of the second, and the second in front of
the third. -/
theorem lesson05_timers_cycle : ¬ ∀ lst : SortTimerLst Unit Unit,
    Reached lesson05 (fun _ _ => True) lst → lst.Proper := by
  intro proper
  have reached : ∃ lst, threeTimers lesson05 = some lst ∧
      Reached lesson05 (fun _ _ => True) lst := by
    refine ⟨_, rfl, .tail (.tail (.tail .refl ⟨.add 1 ⟨10, (), ()⟩, 3, rfl, trivial, rfl⟩)
      ⟨.add 2 ⟨30, (), ()⟩, 3, rfl, trivial, rfl⟩) ⟨.add 3 ⟨20, (), ()⟩, 3, rfl, trivial, rfl⟩⟩
  obtain ⟨lst, three, run⟩ := reached
  have cycle : (threeTimers lesson05).map (fun lst => (lst.nextOf 3, lst.prevOf 2)) =
      some (some 2, some 1) := by decide
  rw [three] at cycle
  have links := Option.some.inj cycle
  have inverse := ((proper lst run).inverse 3 2).mp (Prod.mk.inj links).1
  rw [(Prod.mk.inj links).2] at inverse
  cases inverse

/-- Two timers, the later one added first. -/
theorem lesson05_timer_list_proper_two : ∃ one two : SortTimerLst Unit Unit,
    (TimerOp.add 1 ⟨30, (), ()⟩).run lesson05 3 empty = some one ∧
    (TimerOp.add 2 ⟨10, (), ()⟩).run lesson05 3 one = some two ∧ two.Proper := by
  refine ⟨_, _, rfl, rfl, (lesson05_timer_list_proper (.tail (.tail .refl
    ⟨.add 1 ⟨30, (), ()⟩, 3, rfl, ?_, rfl⟩) ⟨.add 2 ⟨10, (), ()⟩, 3, rfl, ?_, rfl⟩)).1⟩
  · exact .inr fun other cell there => by cases there
  · exact .inl ⟨_, rfl, by decide⟩

end Lesson05

end SortTimerLst

end StudyWebServer
