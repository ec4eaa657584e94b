import StudyWebServer.Noactive.TimerList
import Mathlib.Data.List.Sort

/-!
What the operations on the timer list mean: a list of timers in the order of their
times, in which a timer goes behind those that expire no later than it does. The
linked list is this list.
-/

namespace StudyWebServer

open LinkedList

namespace SortTimerLst
variable {Callback User : Type}

abbrev Timers (Callback User : Type) := List (Nat × Task Callback User)

def Earlier (a b : Nat × Task Callback User) : Prop := a.2.expire < b.2.expire

instance : DecidableRel (@Earlier Callback User) :=
  fun a b => inferInstanceAs (Decidable (a.2.expire < b.2.expire))

def insertTimer (timer : Nat × Task Callback User) (timers : Timers Callback User) :
    Timers Callback User := timers.orderedInsert Earlier timer

def Sorted (timers : Timers Callback User) : Prop :=
  timers.Pairwise fun a b => a.2.expire ≤ b.2.expire

/-- The linked list is this list, and there are no other timers. -/
structure Keeps (lst : SortTimerLst Callback User) (timers : Timers Callback User) : Prop where
  whole : Whole lst.heap lst.head lst.tail timers
  live : ∀ timer, (lst.heap timer).isSome ↔ timer ∈ addresses timers
  sorted : Sorted timers

/-- There is one more timer, outside of the list. -/
structure Loose (lst : SortTimerLst Callback User) (timer : Nat) (task : Task Callback User)
    (timers : Timers Callback User) : Prop where
  whole : Whole lst.heap lst.head lst.tail timers
  held : ∃ cell, lst.heap timer = some cell ∧ cell.data = task
  away : timer ∉ addresses timers
  live : ∀ other, (lst.heap other).isSome ↔ other = timer ∨ other ∈ addresses timers
  sorted : Sorted timers

section Insert
variable {timer : Nat × Task Callback User} {timers front back : Timers Callback User}

theorem insert_later {other : Nat × Task Callback User} (later : other.2.expire ≤ timer.2.expire) :
    insertTimer timer (other :: back) = other :: insertTimer timer back :=
  List.orderedInsert_of_not_le Earlier back (Int.not_lt.mpr later)

theorem insert_earlier {other : Nat × Task Callback User}
    (earlier : timer.2.expire < other.2.expire) :
    insertTimer timer (other :: back) = timer :: other :: back :=
  List.orderedInsert_cons_of_le Earlier back earlier

theorem insert_append (later : ∀ other ∈ front, other.2.expire ≤ timer.2.expire) :
    insertTimer timer (front ++ back) = front ++ insertTimer timer back := by
  induction front with
  | nil => rfl
  | cons other rest ih =>
      rw [List.cons_append, insert_later (later other List.mem_cons_self), List.cons_append,
        ih fun entry member => later entry (List.mem_cons_of_mem _ member)]

theorem insert_perm : (insertTimer timer timers).Perm (timer :: timers) :=
  List.perm_orderedInsert ..

theorem insert_sorted (sorted : Sorted timers) : Sorted (insertTimer timer timers) := by
  induction timers with
  | nil => exact List.pairwise_singleton _ _
  | cons other rest ih =>
      obtain ⟨above, rest_sorted⟩ := List.pairwise_cons.mp sorted
      by_cases earlier : timer.2.expire < other.2.expire
      · rw [insert_earlier earlier]
        refine List.pairwise_cons.mpr ⟨?_, sorted⟩
        intro entry member
        rcases List.mem_cons.mp member with rfl | later
        · exact Int.le_of_lt earlier
        · exact Int.le_trans (Int.le_of_lt earlier) (above entry later)
      · rw [insert_later (Int.not_lt.mp earlier)]
        refine List.pairwise_cons.mpr ⟨?_, ih rest_sorted⟩
        intro entry member
        rcases List.mem_cons.mp (insert_perm.mem_iff.mp member) with rfl | later
        · exact Int.not_lt.mp earlier
        · exact above entry later

theorem insert_addresses : (addresses (insertTimer timer timers)).Perm
    (timer.1 :: addresses timers) := insert_perm.map Prod.fst

end Insert

section Pointers
variable {lst : SortTimerLst Callback User} {timer : Nat}

theorem delete_present (present : (lst.heap timer).isSome) :
    lst.delete timer = some { lst with heap := lst.heap.delete timer } := if_pos present

end Pointers

section Behind
variable {lst : SortTimerLst Callback User} {timer p t : Nat}
  {task d e : Task Callback User} {front back : Timers Callback User}

theorem Loose.present (loose : Loose lst timer task front) {other : Nat}
    (known : other = timer ∨ other ∈ addresses front) : (lst.heap other).isSome :=
  (loose.live other).mpr known

theorem Loose.splice (loose : Loose lst timer task (front ++ (p, d) :: (t, e) :: back)) :
    ∃ lst', webserver.splice timer p t lst = some lst' ∧ lst'.head = lst.head ∧
      lst'.tail = lst.tail ∧
      Linked lst'.heap none (front ++ (p, d) :: (timer, task) :: (t, e) :: back) none ∧
      ∀ other, (lst'.heap other).isSome = (lst.heap other).isSome := by
  have middle (entry : Task Callback User) (rest : Timers Callback User) :
      front ++ (p, d) :: (t, entry) :: rest = (front ++ [(p, d)]) ++ (t, entry) :: rest := by simp
  have p_apart := nodup_middle loose.whole.nodup
  have t_apart := nodup_middle (middle e back ▸ loose.whole.nodup)
  have away := loose.away
  have timer_front : timer ∉ addresses (front ++ [(p, d)]) := away_sublist away (by simp)
  have timer_back : timer ∉ addresses ((t, e) :: back) := away_sublist away (by simp)
  have timer_p : timer ≠ p := fun same => away (by simp [same])
  have timer_t : timer ≠ t := fun same => away (by simp [same])
  have present {other : Nat} := @Loose.present _ _ _ _ _ _ loose other
  have writes : webserver.splice timer p t lst = some { lst with
      heap := (((lst.heap.setNext p (some timer)).setNext timer (some t)).setPrev t
        (some timer)).setPrev timer (some p) } := by
    have p_here : (lst.heap p).isSome := present (by simp)
    have t_here : (lst.heap t).isSome := present (by simp)
    have timer_here : (lst.heap timer).isSome := present (.inl rfl)
    simp only [webserver, setNext, setPrev, p_here, t_here, timer_here, set_next_isSome,
      set_prev_isSome, ↓reduceIte, Option.bind_eq_bind, Option.bind_some]
  obtain ⟨cell, held, data⟩ := loose.held
  have linked := loose.whole.linked
  rw [middle, linked_append, last_append_cons, first_cons] at linked
  obtain ⟨ahead, behind⟩ := linked
  refine ⟨_, writes, rfl, rfl, ?_, by simp⟩
  have middle' : front ++ (p, d) :: (timer, task) :: (t, e) :: back =
    (front ++ [(p, d)]) ++ (timer, task) :: (t, e) :: back := by simp
  rw [middle', linked_append, last_append_cons]
  refine ⟨?_, ?_, ?_⟩
  · exact (((ahead.setNext p_apart.1 _).set_next_away timer_front _).set_prev_away t_apart.1
      _).set_prev_away timer_front _
  · simp [set_prev_other timer_t, set_next_other timer_p, held, data]
  · exact (((behind.set_next_away p_apart.2 _).set_next_away timer_back _).setPrev t_apart.2
      _).set_prev_away timer_back _

theorem Loose.add_last (loose : Loose lst timer task (front ++ [(p, d)])) :
    ∃ lst', addLast timer p lst = some lst' ∧ lst'.head = lst.head ∧ lst'.tail = some timer ∧
      Linked lst'.heap none (front ++ [(p, d), (timer, task)]) none ∧
      ∀ other, (lst'.heap other).isSome = (lst.heap other).isSome := by
  have p_apart := nodup_middle loose.whole.nodup
  have timer_p : timer ≠ p := fun same => loose.away (by simp [same])
  have writes : addLast timer p lst = some { lst with
      tail := some timer
      heap := ((lst.heap.setNext p (some timer)).setPrev timer (some p)).setNext timer none } := by
    have p_here : (lst.heap p).isSome := loose.present (by simp)
    have timer_here : (lst.heap timer).isSome := loose.present (.inl rfl)
    simp only [addLast, setNext, setPrev, p_here, timer_here, set_next_isSome, set_prev_isSome,
      ↓reduceIte, Option.bind_eq_bind, Option.bind_some]
  obtain ⟨cell, held, data⟩ := loose.held
  refine ⟨_, writes, rfl, rfl, ?_, by simp⟩
  have two : front ++ [(p, d), (timer, task)] = (front ++ [(p, d)]) ++ [(timer, task)] := by simp
  rw [two, linked_append, last_append_cons]
  refine ⟨?_, ?_, trivial⟩
  · exact ((loose.whole.linked.setNext p_apart.1 _).set_prev_away loose.away _).set_next_away
      loose.away _
  · simp [set_next_other timer_p, held, data]

/-- The timer in its place. -/
theorem Loose.keeps {lst' : SortTimerLst Callback User}
    (loose : Loose lst timer task front)
    (linked : Linked lst'.heap none (insertTimer (timer, task) front) none)
    (head : lst'.head = first (insertTimer (timer, task) front) none)
    (tail : lst'.tail = last none (insertTimer (timer, task) front))
    (live : ∀ other, (lst'.heap other).isSome = (lst.heap other).isSome) :
    Keeps lst' (insertTimer (timer, task) front) where
  whole := by
    refine ⟨?_, linked, head, fun _ => tail⟩
    exact insert_addresses.nodup_iff.mpr (List.nodup_cons.mpr ⟨loose.away, loose.whole.nodup⟩)
  live other := by
    rw [live, loose.live, insert_addresses.mem_iff, List.mem_cons]
  sorted := insert_sorted loose.sorted

/-- Where a timer goes, seen from one that it goes behind. -/
theorem insert_behind (sorted : Sorted (front ++ (p, d) :: back))
    (later : d.expire ≤ task.expire) : insertTimer (timer, task) (front ++ (p, d) :: back) =
      front ++ (p, d) :: insertTimer (timer, task) back := by
  have ahead : ∀ other ∈ front, other.2.expire ≤ task.expire := by
    intro other member
    exact Int.le_trans ((List.pairwise_append.mp sorted).2.2 other member (p, d)
      List.mem_cons_self) later
  rw [insert_append ahead, insert_later later]

/-- The walk of the private add_timer from a timer of the list on. -/
theorem Loose.walk (loose : Loose lst timer task (front ++ (p, d) :: back))
    (later : d.expire ≤ task.expire) :
    ∃ lst', Loop.Ends (walkRound webserver timer lst) ⟨p, first back none⟩ (some lst') ∧
      Keeps lst' (insertTimer (timer, task) (front ++ (p, d) :: back)) := by
  obtain ⟨cell, held, data⟩ := loose.held
  -- Induction on what is still in front of the walk; the timers passed so far are in front.
  induction back generalizing front p d with
  | nil =>
      obtain ⟨lst', writes, head, tail, linked, live⟩ := loose.add_last
      refine ⟨lst', Loop.ends_return ?_, loose.keeps ?_ ?_ ?_ live⟩
      · simp only [walkRound, first_nil, writes]
      all_goals rw [insert_behind loose.sorted later]
      · exact linked
      · rw [head, loose.whole.head, first_append, first_append]
        rfl
      · rw [tail, last_append_cons]
        rfl
  | cons entry rest ih =>
      obtain ⟨t, e⟩ := entry
      have middle : front ++ (p, d) :: (t, e) :: rest = (front ++ [(p, d)]) ++ (t, e) :: rest := by
        simp
      have here : lst.heap t = some ⟨e, some p, first rest none⟩ := by
        have linked := loose.whole.linked
        rw [middle] at linked
        rw [linked_at linked, last_append_cons, last_nil]
      by_cases earlier : task.expire < e.expire
      -- The new timer goes between p and t.
      · obtain ⟨lst', writes, head, tail, linked, live⟩ := loose.splice
        refine ⟨lst', Loop.ends_return ?_, loose.keeps ?_ ?_ ?_ live⟩
        · simp only [walkRound, first_cons, held, here, data, earlier, ↓reduceIte, writes]
        all_goals rw [insert_behind loose.sorted later, insert_earlier earlier]
        · exact linked
        · rw [head, loose.whole.head, first_append, first_append]
          rfl
        · rw [tail, loose.whole.tail (by simp), last_append_cons, last_append_cons]
          rfl
      -- The walk passes t, which is then the timer behind which the rest is searched.
      · have not_earlier : ¬ cell.data.expire < e.expire := by rw [data]; exact earlier
        have again : walkRound webserver timer lst ⟨p, first ((t, e) :: rest) none⟩ =
            .inl ⟨t, first rest none⟩ := by
          simp only [walkRound, first_cons, held, here, not_earlier, ↓reduceIte]
        obtain ⟨lst', ends, keeps⟩ := ih (middle ▸ loose) (Int.not_lt.mp earlier)
        rw [← middle] at keeps
        exact ⟨lst', (Loop.ends_again again).mpr ends, keeps⟩

/-- The private add_timer, called with a timer of the list that expires no later. -/
theorem Loose.add_behind (loose : Loose lst timer task (front ++ (p, d) :: back))
    (later : d.expire ≤ task.expire) :
    ∃ rounds lst', lst.addTimerBehind webserver rounds timer p = some lst' ∧
      Keeps lst' (insertTimer (timer, task) (front ++ (p, d) :: back)) := by
  obtain ⟨lst', ⟨rounds, ends⟩, keeps⟩ := loose.walk later
  have here := linked_at loose.whole.linked
  refine ⟨rounds, lst', ?_, keeps⟩
  simp only [addTimerBehind, here, ends, Option.bind_eq_bind, Option.bind_some]

end Behind

section Operations
variable {lst : SortTimerLst Callback User} {timer q t : Nat}
  {task e f : Task Callback User} {timers front back : Timers Callback User}

theorem Keeps.create (keeps : Keeps lst timers) (fresh : lst.heap timer = none)
    (task : Task Callback User) : Loose (lst.create timer task) timer task timers where
  whole := by
    have away : timer ∉ addresses timers := by
      rw [← keeps.live, fresh]
      exact Bool.false_ne_true
    exact ⟨keeps.whole.nodup, keeps.whole.linked.create away task,
      keeps.whole.head, keeps.whole.tail⟩
  held := ⟨_, Function.update_self .., rfl⟩
  away := by
    rw [← keeps.live, fresh]
    exact Bool.false_ne_true
  live other := by
    by_cases same : other = timer
    · subst same
      simp [SortTimerLst.create, Store.create]
    · simp only [SortTimerLst.create, Store.create, Function.update_of_ne same, keeps.live, same,
        false_or]
  sorted := keeps.sorted

/-- add_timer on a new timer. -/
theorem Keeps.add (keeps : Keeps lst timers) (fresh : lst.heap timer = none)
    (task : Task Callback User) :
    ∃ rounds lst', (lst.create timer task).addTimer webserver rounds (some timer) = some lst' ∧
      Keeps lst' (insertTimer (timer, task) timers) := by
  have loose := keeps.create fresh task
  have here : (lst.create timer task).heap timer = some ⟨task, none, none⟩ :=
    Function.update_self ..
  have head : (lst.create timer task).head = first timers none := keeps.whole.head
  cases timers with
  | nil =>
      rw [first_nil] at head
      have writes : (lst.create timer task).addTimer webserver 0 (some timer) =
          some { lst.create timer task with head := some timer, tail := some timer } := by
        simp only [addTimer, head]
      exact ⟨0, _, writes, loose.keeps ⟨here, trivial⟩ rfl rfl fun _ => rfl⟩
  | cons entry rest =>
      obtain ⟨p, d⟩ := entry
      rw [first_cons] at head
      have front_here : (lst.create timer task).heap p = some ⟨d, none, first rest none⟩ :=
        loose.whole.linked.1
      by_cases earlier : task.expire < d.expire
      -- The new timer expires before the head and becomes the head.
      · have apart : timer ≠ p := fun same => loose.away (by simp [same])
        have writes : (lst.create timer task).addTimer webserver 0 (some timer) = some
            { lst.create timer task with
              head := some timer
              heap := ((lst.create timer task).heap.setNext timer (some p)).setPrev p
                (some timer) } := by
          simp only [addTimer, head, here, front_here, earlier, setNext, setPrev, set_next_isSome,
            Option.isSome_some, ↓reduceIte, Option.bind_eq_bind, Option.bind_some]
        refine ⟨0, _, writes, loose.keeps ?_ ?_ ?_ (by simp)⟩
        all_goals rw [insert_earlier earlier]
        · refine ⟨?_, (loose.whole.linked.set_next_away loose.away _).setPrev
            (List.nodup_cons.mp loose.whole.nodup).1 _⟩
          simp [set_prev_other apart, here]
        · rfl
        · exact keeps.whole.tail (by simp)
      -- Else the private add_timer walks from the head.
      · obtain ⟨rounds, lst', behind, kept⟩ :=
          @Loose.add_behind _ _ _ _ _ _ _ [] rest loose (Int.not_lt.mp earlier)
        refine ⟨rounds, lst', ?_, kept⟩
        simp only [addTimer, head, here, front_here, earlier, ↓reduceIte, Option.bind_eq_bind,
          Option.bind_some]
        exact behind

theorem webserver_unlink : (webserver : Source Callback User).unlink = unlink := rfl

/-- The statements that take a timer out of the middle. -/
theorem unlink_middle
    (linked : Linked lst.heap none (front ++ (q, f) :: (timer, task) :: (t, e) :: back) none)
    (nodup : (addresses (front ++ (q, f) :: (timer, task) :: (t, e) :: back)).Nodup) :
    ∃ heap, unlink timer lst = some { lst with heap := heap } ∧
      Linked heap none (front ++ (q, f) :: (t, e) :: back) none ∧
      heap timer = some ⟨task, some q, some t⟩ ∧
      ∀ other, (heap other).isSome = (lst.heap other).isSome := by
  have at_timer : front ++ (q, f) :: (timer, task) :: (t, e) :: back =
      (front ++ [(q, f)]) ++ (timer, task) :: (t, e) :: back := by simp
  have at_t : front ++ (q, f) :: (timer, task) :: (t, e) :: back =
      (front ++ [(q, f), (timer, task)]) ++ (t, e) :: back := by simp
  have q_apart := nodup_middle nodup
  have timer_apart := nodup_middle (at_timer ▸ nodup)
  have t_apart := nodup_middle (at_t ▸ nodup)
  have timer_q : timer ≠ q := fun same => timer_apart.1 (by simp [same])
  have timer_t : timer ≠ t := fun same => timer_apart.2 (by simp [same])
  have here : lst.heap timer = some ⟨task, some q, some t⟩ := by
    rw [at_timer] at linked
    rw [linked_at linked, last_append_cons]
    rfl
  have q_here := linked_at linked
  have t_here : lst.heap t = some ⟨e, some timer, first back none⟩ := by
    rw [at_t] at linked
    rw [linked_at linked, last_append_cons]
    rfl
  refine ⟨(lst.heap.setNext q (some t)).setPrev t (some q), ?_, ?_, ?_, by simp⟩
  · simp only [unlink, here, q_here, t_here, setNext, setPrev, set_next_isSome,
      set_next_other timer_q, Option.isSome_some, ↓reduceIte, Option.bind_eq_bind, Option.bind_some]
  · have whole : front ++ (q, f) :: (t, e) :: back =
        (front ++ [(q, f)]) ++ (t, e) :: back := by simp
    rw [at_timer, linked_append] at linked
    rw [whole, linked_append, last_append_cons]
    constructor
    · exact (linked.1.setNext q_apart.1 _).set_prev_away (away_sublist t_apart.1 (by simp)) _
    · exact (linked.2.2.set_next_away (away_sublist q_apart.2 (by simp)) _).setPrev t_apart.2 _
  · rw [set_prev_other timer_t, set_next_other timer_q, here]

theorem Sorted.without {entry : Nat × Task Callback User}
    (sorted : Sorted (front ++ entry :: back)) :
    Sorted (front ++ back) :=
  sorted.sublist (List.Sublist.append_left (List.sublist_cons_self entry back) front)

/-- A timer that is where it belongs with its new time. -/
theorem Keeps.stays (keeps : Keeps lst (front ++ (timer, task) :: back))
    {later : Task Callback User}
    (place : insertTimer (timer, later) (front ++ back) = front ++ (timer, later) :: back) :
    Keeps { lst with heap := lst.heap.setData timer later }
      (insertTimer (timer, later) (front ++ back)) where
  whole := by
    have whole := keeps.whole
    have same : addresses (front ++ (timer, later) :: back) =
        addresses (front ++ (timer, task) :: back) := by simp
    rw [place]
    refine ⟨same ▸ whole.nodup, whole.linked.setData whole.nodup later, ?_, fun _ => ?_⟩
    · rw [whole.head, first_append, first_append]
      rfl
    · rw [whole.tail (by simp), last_append_cons, last_append_cons]
  live other := by
    rw [place]
    simpa using keeps.live other
  sorted := insert_sorted keeps.sorted.without

/-- A timer that was taken out of the list. -/
theorem Keeps.loose {lst' : SortTimerLst Callback User}
    (keeps : Keeps lst (front ++ (timer, task) :: back)) {later : Task Callback User}
    (held : ∃ cell, lst'.heap timer = some cell ∧ cell.data = later)
    (linked : Linked lst'.heap none (front ++ back) none)
    (head : lst'.head = first (front ++ back) none)
    (tail : front ++ back ≠ [] → lst'.tail = last none (front ++ back))
    (live : ∀ other, (lst'.heap other).isSome = (lst.heap other).isSome) :
    Loose lst' timer later (front ++ back) := by
  have nodup := keeps.whole.nodup
  have perm : (addresses (front ++ (timer, task) :: back)).Perm
      (timer :: addresses (front ++ back)) := List.perm_middle.map Prod.fst
  obtain ⟨away, rest⟩ := List.nodup_cons.mp (perm.nodup_iff.mp nodup)
  refine ⟨⟨rest, linked, head, tail⟩, held, away, fun other => ?_, keeps.sorted.without⟩
  rw [live, keeps.live, perm.mem_iff, List.mem_cons]

/-- The statements that take a timer out of the middle leave it beside the list, in
whatever memory has the list with a time of its own for it. -/
theorem Keeps.unlinks {mem : Store Nat (Task Callback User)} {later : Task Callback User}
    (keeps : Keeps lst (front ++ (q, f) :: (timer, task) :: (t, e) :: back))
    (linked : Linked mem none (front ++ (q, f) :: (timer, later) :: (t, e) :: back) none)
    (live : ∀ other, (mem other).isSome = (lst.heap other).isSome) :
    ∃ heap, unlink timer { lst with heap := mem } = some { lst with heap := heap } ∧
      heap timer = some ⟨later, some q, some t⟩ ∧
      Loose { lst with heap := heap } timer later ((front ++ [(q, f)]) ++ (t, e) :: back) := by
  have whole := keeps.whole
  have same : addresses (front ++ (q, f) :: (timer, later) :: (t, e) :: back) =
      addresses (front ++ (q, f) :: (timer, task) :: (t, e) :: back) := by simp
  obtain ⟨heap, unlinks, joined, alone, kept⟩ := @unlink_middle _ _ { lst with heap := mem } timer
    q t later e f front back linked (same ▸ whole.nodup)
  have before : front ++ (q, f) :: (timer, task) :: (t, e) :: back =
      (front ++ [(q, f)]) ++ (timer, task) :: (t, e) :: back := by simp
  have behind : front ++ (q, f) :: (t, e) :: back = (front ++ [(q, f)]) ++ (t, e) :: back := by
    simp
  rw [behind] at joined
  rw [before] at keeps whole
  refine ⟨heap, unlinks, alone, keeps.loose ⟨_, alone, rfl⟩ joined ?_ ?_ fun other => ?_⟩
  · rw [whole.head, first_append, first_append, first_append, first_append]
    rfl
  · intro _
    rw [whole.tail (by simp), last_append_cons, last_append_cons]
    rfl
  · exact (kept other).trans (live other)

/-- The time of a timer is raised, and adjust_timer called on it. -/
theorem Keeps.postpone (keeps : Keeps lst (front ++ (timer, task) :: back)) {expire : Int}
    (raised : task.expire ≤ expire) :
    ∃ rounds lst', lst.postpone webserver rounds timer expire = some lst' ∧
      Keeps lst' (insertTimer (timer, { task with expire := expire }) (front ++ back)) := by
  have whole := keeps.whole
  obtain ⟨later, same⟩ : ∃ later : Task Callback User, later = { task with expire := expire } :=
    ⟨_, rfl⟩
  have expires : later.expire = expire := by rw [same]
  rw [← same]
  have ahead : ∀ other ∈ front, other.2.expire ≤ later.expire := by
    intro other member
    rw [expires]
    exact Int.le_trans ((List.pairwise_append.mp keeps.sorted).2.2 other member (timer, task)
      List.mem_cons_self) raised
  have sets : lst.setExpire timer expire =
      some { lst with heap := lst.heap.setData timer later } := by
    simp only [setExpire, linked_at whole.linked, same, Option.bind_eq_bind, Option.bind_some]
  have starts (rounds : Nat) : lst.postpone webserver rounds timer expire =
      { lst with heap := lst.heap.setData timer later }.adjustTimer webserver rounds
        (some timer) := by
    simp only [SortTimerLst.postpone, sets, Option.bind_eq_bind, Option.bind_some]
  have linked := whole.linked.setData whole.nodup later
  have here := linked_at linked
  cases back with
  -- The last timer stays where it is.
  | nil =>
      refine ⟨0, _, ?_, keeps.stays (insert_append ahead)⟩
      simp only [starts, adjustTimer, here, first_nil, Option.bind_eq_bind, Option.bind_some]
  | cons entry rest =>
      obtain ⟨t, e⟩ := entry
      have t_here : lst.heap.setData timer later t = some ⟨e, some timer, first rest none⟩ := by
        have at_t : front ++ (timer, later) :: (t, e) :: rest =
            (front ++ [(timer, later)]) ++ (t, e) :: rest := by simp
        rw [at_t] at linked
        rw [linked_at linked, last_append_cons]
        rfl
      by_cases earlier : later.expire < e.expire
      -- The timer behind still expires later, so nothing moves.
      · have place : insertTimer (timer, later) (front ++ (t, e) :: rest) =
            front ++ (timer, later) :: (t, e) :: rest := by
          rw [insert_append ahead, insert_earlier earlier]
        refine ⟨0, _, ?_, keeps.stays place⟩
        simp only [starts, adjustTimer, here, first_cons, t_here, earlier, ↓reduceIte,
          Option.bind_eq_bind, Option.bind_some]
      · have not_earlier := Int.not_lt.mp earlier
        rcases List.eq_nil_or_concat front with none | ⟨front', ⟨q, f⟩, some_front⟩
        -- The head leaves, and the walk starts from the new head.
        · subst none
          have head : lst.head = some timer := whole.head
          obtain ⟨timer_back, nodup_back⟩ := List.nodup_cons.mp whole.nodup
          have apart : timer ≠ t := fun same => timer_back (by simp [same])
          have loose : Loose { lst with
              head := some t
              heap :=
                ((lst.heap.setData timer later).setPrev t none).setNext timer none } timer later
              ([] ++ (t, e) :: rest) := by
            refine keeps.loose ⟨⟨later, none, none⟩, ?_, rfl⟩ ?_ rfl ?_ (by simp)
            · simp [set_prev_other apart, here]
            · exact (linked.2.setPrev (List.nodup_cons.mp nodup_back).1 _).set_next_away
                timer_back _
            · exact fun _ => whole.tail (by simp)
          obtain ⟨rounds, lst', behind, kept⟩ := loose.add_behind not_earlier
          refine ⟨rounds, lst', ?_, kept⟩
          rw [← behind]
          simp only [starts, adjustTimer, here, first_cons, t_here,
            Int.not_lt.mpr not_earlier, head,
            setPrev, setNext, set_prev_isSome, Option.isSome_some, ↓reduceIte, Option.bind_eq_bind,
            Option.bind_some]
        -- From the middle the walk starts at the timer behind the gap:
        -- all in front of the gap expire no later than the old time.
        · rw [List.concat_eq_append] at some_front
          subst some_front
          have whole_front : lst.head ≠ some timer := by
            intro first
            have none := whole.head_iff.mp first
            simp at none
          have split : (front' ++ [(q, f)]) ++ (timer, later) :: (t, e) :: rest =
              front' ++ (q, f) :: (timer, later) :: (t, e) :: rest := by simp
          have split' : (front' ++ [(q, f)]) ++ (timer, task) :: (t, e) :: rest =
              front' ++ (q, f) :: (timer, task) :: (t, e) :: rest := by simp
          obtain ⟨heap, unlinks, alone, loose⟩ := (split' ▸ keeps).unlinks (split ▸ linked)
            fun _ => set_data_isSome _
          obtain ⟨rounds, lst', behind, kept⟩ := loose.add_behind not_earlier
          refine ⟨rounds, lst', ?_, kept⟩
          rw [← behind]
          simp only [starts, adjustTimer, here, first_cons, t_here, Int.not_lt.mpr not_earlier,
            whole_front, webserver_unlink, unlinks, alone, ↓reduceIte, Option.bind_eq_bind,
            Option.bind_some]

/-- A timer that is outside of the list is deleted. -/
theorem Loose.drop (loose : Loose lst timer task timers) :
    lst.delete timer = some { lst with heap := lst.heap.delete timer } ∧
      Keeps { lst with heap := lst.heap.delete timer } timers := by
  refine ⟨delete_present (loose.present (.inl rfl)), ?_, fun other => ?_, loose.sorted⟩
  · exact ⟨loose.whole.nodup, loose.whole.linked.delete loose.away, loose.whole.head,
      loose.whole.tail⟩
  · by_cases same : other = timer
    · subst same
      simp [Store.delete, loose.away]
    · simp only [Store.delete, Function.update_of_ne same, loose.live, same, false_or]

/-- A timer that stays in the store with the same data, as it leaves the list. -/
theorem Keeps.held (keeps : Keeps lst (front ++ (timer, task) :: back)) :
    ∃ cell, lst.heap timer = some cell ∧ cell.data = task :=
  ⟨_, linked_at keeps.whole.linked, rfl⟩

/-- The first timer leaves the list, and the next one becomes its head. -/
theorem Keeps.behead (keeps : Keeps lst ((timer, task) :: (t, e) :: back)) :
    Loose { lst with head := some t, heap := lst.heap.setPrev t none } timer task
      ([] ++ (t, e) :: back) := by
  obtain ⟨timer_back, nodup_back⟩ := List.nodup_cons.mp keeps.whole.nodup
  have apart : timer ≠ t := fun same => timer_back (by simp [same])
  have linked := keeps.whole.linked.2
  refine @Keeps.loose _ _ lst timer task [] _ _ keeps task ?_ ?_ rfl ?_ (by simp)
  · obtain ⟨cell, here, data⟩ := @Keeps.held _ _ lst timer task [] _ keeps
    exact ⟨cell, (set_prev_other apart _).trans here, data⟩
  · exact linked.setPrev (List.nodup_cons.mp nodup_back).1 _
  · exact fun _ => keeps.whole.tail (by simp)

/-- The last timer leaves the list, and the one before becomes its tail. -/
theorem Keeps.betail (keeps : Keeps lst ((front ++ [(q, f)]) ++ [(timer, task)])) :
    Loose { lst with tail := some q, heap := lst.heap.setNext q none } timer task
      ((front ++ [(q, f)]) ++ []) := by
  have split : (front ++ [(q, f)]) ++ [(timer, task)] = front ++ (q, f) :: [(timer, task)] := by
    simp
  have nodup := keeps.whole.nodup
  have q_apart := nodup_middle (split ▸ nodup)
  have apart : timer ≠ q := fun same => (nodup_middle nodup).1 (by simp [same])
  refine keeps.loose ?_ ?_ ?_ ?_ (by simp)
  · obtain ⟨cell, here, data⟩ := keeps.held
    exact ⟨cell, (set_next_other apart _).trans here, data⟩
  · rw [List.append_nil]
    exact ((linked_append _ _).mp keeps.whole.linked).1.setNext q_apart.1 _
  · show lst.head = _
    rw [keeps.whole.head, first_append, first_append, first_append, first_append]
    rfl
  · intro _
    rw [List.append_nil, last_append_cons]
    rfl

/-- del_timer on a timer of the list. -/
theorem Keeps.del (keeps : Keeps lst (front ++ (timer, task) :: back)) :
    ∃ lst', lst.delTimer (some timer) = some lst' ∧ Keeps lst' (front ++ back) := by
  have whole := keeps.whole
  have here := linked_at whole.linked
  rcases List.eq_nil_or_concat front with none | ⟨front', ⟨q, f⟩, some_front⟩
  · subst none
    have head : lst.head = some timer := whole.head_iff.mpr rfl
    cases back with
    -- The only timer: head and tail become null.
    | nil =>
        have tail : lst.tail = some timer := whole.tail_iff.mpr rfl
        have gone : Loose { lst with head := none, tail := none } timer task ([] ++ []) :=
          keeps.loose keeps.held trivial rfl (fun some => absurd rfl some) fun _ => rfl
        refine ⟨_, ?_, gone.drop.2⟩
        have present : (lst.heap timer).isSome := by rw [here]; rfl
        simp only [delTimer, head, tail, and_self, ↓reduceIte, delete_present present,
          Option.bind_eq_bind, Option.bind_some]
    -- The head of several.
    | cons entry rest =>
        obtain ⟨t, e⟩ := entry
        have tail : lst.tail ≠ some timer := fun same => by cases whole.tail_iff.mp same
        have t_here : lst.heap t = some ⟨e, some timer, first rest none⟩ := whole.linked.2.1
        have loose := keeps.behead
        refine ⟨_, ?_, loose.drop.2⟩
        rw [← loose.drop.1]
        simp only [delTimer, head, tail, here, first_cons, t_here, setPrev, Option.isSome_some,
          and_false, ↓reduceIte, Option.bind_eq_bind, Option.bind_some]
  · rw [List.concat_eq_append] at some_front
    subst some_front
    have head : lst.head ≠ some timer := by
      intro first
      have none := whole.head_iff.mp first
      simp at none
    cases back with
    -- The tail of several.
    | nil =>
        have tail : lst.tail = some timer := whole.tail_iff.mpr rfl
        have q_here : (lst.heap q).isSome := (keeps.live q).mpr (by simp)
        have loose := keeps.betail
        refine ⟨_, ?_, loose.drop.2⟩
        rw [← loose.drop.1]
        simp only [delTimer, head, tail, here, last_append_cons, last_nil, setNext, q_here,
          false_and, ↓reduceIte, Option.bind_eq_bind, Option.bind_some]
    -- Between two others.
    | cons entry rest =>
        obtain ⟨t, e⟩ := entry
        have tail : lst.tail ≠ some timer := fun same => by cases whole.tail_iff.mp same
        have split : (front' ++ [(q, f)]) ++ (timer, task) :: (t, e) :: rest =
            front' ++ (q, f) :: (timer, task) :: (t, e) :: rest := by simp
        obtain ⟨heap, unlinks, -, loose⟩ := (split ▸ keeps).unlinks (split ▸ whole.linked)
          fun _ => rfl
        refine ⟨_, ?_, loose.drop.2⟩
        rw [← loose.drop.1]
        simp only [delTimer, head, tail, false_and, ↓reduceIte, unlinks, Option.bind_eq_bind,
          Option.bind_some]

/-- The destructor deletes every timer. -/
theorem destroy_linked {before : Option Nat} (linked : Linked lst.heap before timers none)
    (nodup : (addresses timers).Nodup) (head : lst.head = first timers none) :
    ∃ lst', Loop.Ends destroyRound lst (some lst') ∧ lst'.head = none ∧
      ∀ other, (lst'.heap other).isSome ↔ (lst.heap other).isSome ∧ other ∉ addresses timers := by
  induction timers generalizing lst before with
  | nil =>
      refine ⟨lst, Loop.ends_return ?_, head, fun other => by simp⟩
      rw [first_nil] at head
      simp only [destroyRound, head]
  | cons entry rest ih =>
      obtain ⟨timer, task⟩ := entry
      rw [first_cons] at head
      obtain ⟨away, rest_nodup⟩ := List.nodup_cons.mp nodup
      have here := linked.1
      have round : destroyRound lst = .inl
          ⟨first rest none, lst.tail, lst.heap.delete timer⟩ := by
        simp only [destroyRound, head, here, delete, Option.isSome_some, ↓reduceIte]
      obtain ⟨lst', ends, none, live⟩ := @ih ⟨first rest none, lst.tail, lst.heap.delete timer⟩
        (some timer) (linked.2.delete away) rest_nodup rfl
      refine ⟨lst', (Loop.ends_again round).mpr ends, none, fun other => ?_⟩
      rw [live]
      by_cases same : other = timer
      · subst same
        simp [Store.delete]
      · simp [Store.delete, same]

theorem Keeps.destroy (keeps : Keeps lst timers) :
    ∃ rounds lst', lst.destroy rounds = some lst' ∧ ∀ timer, lst'.heap timer = none := by
  obtain ⟨lst', ⟨rounds, ends⟩, -, live⟩ :=
    destroy_linked keeps.whole.linked keeps.whole.nodup keeps.whole.head
  refine ⟨rounds, lst', ?_, fun timer => ?_⟩
  · rw [SortTimerLst.destroy, ends]
    rfl
  · have gone := live timer
    rw [keeps.live, and_not_self_iff, iff_false] at gone
    simpa using gone

end Operations

end SortTimerLst

end StudyWebServer
