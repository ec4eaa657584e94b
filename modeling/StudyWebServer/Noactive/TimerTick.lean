import StudyWebServer.Noactive.TimerOrder

/-!
tick() on a timer list, whatever else is on the heap. The timers that are due are
called in their order and freed, and the list of the others is left.
-/

namespace StudyWebServer

open LinkedList

namespace SortTimerLst
variable {Callback User : Type}

def due (cur : Int) (timer : Nat × Task Callback User) : Bool := timer.2.expire ≤ cur

/-- A doubly linked list in the order of its times. -/
structure WellFormed (lst : SortTimerLst Callback User) (timers : Timers Callback User) : Prop where
  whole : Whole lst.heap lst.head lst.tail timers
  sorted : Sorted timers

/-- These timers were freed, and nothing else changed but for the cells of these others. -/
structure Frees (gone left : Timers Callback User) (before after : SortTimerLst Callback User) :
    Prop where
  freed : ∀ timer ∈ addresses gone, after.heap timer = none
  frame : ∀ other, other ∉ addresses gone → other ∉ addresses left →
    after.heap other = before.heap other

section Tick
variable {lst : SortTimerLst Callback User} {timer : Nat} {task : Task Callback User}
  {timers back : Timers Callback User}

/-- In a list in order the timers that are due stand before the others. -/
theorem take_drop_due (sorted : Sorted timers) (cur : Int) :
    timers.takeWhile (due cur) = timers.filter (due cur) ∧
      timers.dropWhile (due cur) = timers.filter fun timer => !due cur timer := by
  induction timers with
  | nil => exact ⟨rfl, rfl⟩
  | cons entry rest ih =>
      obtain ⟨above, rest_sorted⟩ := List.pairwise_cons.mp sorted
      by_cases late : due cur entry = true
      · obtain ⟨taken, left⟩ := ih rest_sorted
        simp [late, taken, left]
      · have early (other : Nat × Task Callback User) (member : other ∈ rest) :
            due cur other = false := by
          have order := above other member
          simp only [due, decide_eq_true_eq] at late
          simp only [due, decide_eq_false_iff_not]
          omega
        have none : rest.filter (due cur) = [] := by
          rw [List.filter_eq_nil_iff]
          intro other member
          simp [early other member]
        have all : rest.filter (fun timer => !due cur timer) = rest := by
          rw [List.filter_eq_self]
          intro other member
          simp [early other member]
        simp [late, none, all]

/-- The first timer leaves the list. -/
theorem WellFormed.drop_head (wellFormed : WellFormed lst ((timer, task) :: back)) :
    ∃ lst', lst.dropHead timer (first back none) = some lst' ∧ WellFormed lst' back ∧
      Frees [(timer, task)] back lst lst' := by
  have whole := wellFormed.whole
  obtain ⟨away, nodup_back⟩ := List.nodup_cons.mp whole.nodup
  have sorted_back := (List.pairwise_cons.mp wellFormed.sorted).2
  have present : (lst.heap timer).isSome := by
    rw [whole.linked.1]
    rfl
  cases back with
  | nil =>
      refine ⟨{ lst with head := none, heap := lst.heap.delete timer }, ?_, ?_, ?_⟩
      · have deleted := @delete_present _ _ { lst with head := none } timer present
        simp only [dropHead, first_nil, deleted, Option.bind_eq_bind, Option.bind_some]
      · exact ⟨⟨List.nodup_nil, trivial, rfl, fun some => absurd rfl some⟩, sorted_back⟩
      · constructor
        · simp [Store.delete]
        · intro other apart _
          exact Function.update_of_ne (by simpa using apart) ..
  | cons entry rest =>
      obtain ⟨t, e⟩ := entry
      have t_here : lst.heap t = some ⟨e, some timer, first rest none⟩ := whole.linked.2.1
      have linked := whole.linked.2.setPrev (List.nodup_cons.mp nodup_back).1 none
      have kept : ((lst.heap.setPrev t none) timer).isSome := by rwa [set_prev_isSome]
      have deleted := @delete_present _ _
        { lst with head := some t, heap := lst.heap.setPrev t none } timer kept
      refine ⟨{ lst with head := some t, heap := (lst.heap.setPrev t none).delete timer }, ?_,
        ⟨⟨nodup_back, linked.delete away, rfl, fun _ => whole.tail (by simp)⟩, sorted_back⟩, ?_⟩
      · simp only [dropHead, first_cons, setPrev, t_here, Option.isSome_some, ↓reduceIte, deleted,
          Option.bind_eq_bind, Option.bind_some]
      · constructor
        · simp [Store.delete]
        · intro other apart outside
          have not_timer : other ≠ timer := by simpa using apart
          have not_t : other ≠ t := by
            rintro rfl
            simp at outside
          exact (Function.update_of_ne not_timer ..).trans (set_prev_other not_t _)

/-- What is left of a list after its first timer, and what was freed with it. -/
theorem Frees.cons {gone left : Timers Callback User} {next lst' : SortTimerLst Callback User}
    (one : Frees [(timer, task)] (gone ++ left) lst next) (more : Frees gone left next lst')
    (away : timer ∉ addresses (gone ++ left)) : Frees ((timer, task) :: gone) left lst lst' := by
  have apart : timer ∉ addresses gone ∧ timer ∉ addresses left := by
    rwa [addresses, List.map_append, List.mem_append, not_or] at away
  constructor
  · intro other member
    rcases List.mem_cons.mp member with rfl | later
    · rw [more.frame _ apart.1 apart.2]
      exact one.freed _ List.mem_cons_self
    · exact more.freed other later
  · intro other outside_gone outside_left
    obtain ⟨not_timer, not_gone⟩ := not_or.mp fun member => outside_gone (List.mem_cons.mpr member)
    rw [more.frame other not_gone outside_left]
    apply one.frame other
    · simpa using not_timer
    · rw [addresses, List.map_append, List.mem_append, not_or]
      exact ⟨not_gone, outside_left⟩

/-- The loop of tick(), which goes as far as the first timer that is not due. -/
theorem WellFormed.ticks (cur : Int) (wellFormed : WellFormed lst timers)
    (calls : List (Callback × User)) :
    ∃ lst', (∀ rounds, timers.length < rounds →
        Loop.attempt (tickRound cur) rounds ⟨lst, lst.head, calls⟩ =
          some (some ⟨lst', calls ++ (timers.takeWhile (due cur)).map fun timer => timer.2.call⟩)) ∧
      WellFormed lst' (timers.dropWhile (due cur)) ∧
      Frees (timers.takeWhile (due cur)) (timers.dropWhile (due cur)) lst lst' := by
  induction timers generalizing lst calls with
  | nil =>
      have head : lst.head = none := wellFormed.whole.head
      refine ⟨lst, fun rounds enough => ?_, wellFormed, by simp, fun _ _ _ => rfl⟩
      obtain ⟨rounds, rfl⟩ := Nat.exists_eq_add_of_lt enough
      apply Loop.attempt_return
      simp only [tickRound, head, List.takeWhile_nil, List.map_nil, List.append_nil]
  | cons entry rest ih =>
      obtain ⟨timer, task⟩ := entry
      have head : lst.head = some timer := wellFormed.whole.head
      have here := wellFormed.whole.linked.1
      by_cases late : task.expire ≤ cur
      · have not_early : ¬ cur < task.expire := by omega
        have is_due : due cur (timer, task) = true := decide_eq_true late
        have away := (List.nodup_cons.mp wellFormed.whole.nodup).1
        obtain ⟨next, drops, kept, one⟩ := wellFormed.drop_head
        obtain ⟨lst', ends, later, more⟩ := ih kept (calls ++ [task.call])
        have again : tickRound cur ⟨lst, lst.head, calls⟩ =
            .inl ⟨next, next.head, calls ++ [task.call]⟩ := by
          simp only [tickRound, head, here, not_early, ↓reduceIte, drops]
        rw [List.takeWhile_cons_of_pos is_due, List.dropWhile_cons_of_pos is_due]
        refine ⟨lst', fun rounds enough => ?_, later, ?_⟩
        · obtain ⟨rounds, rfl⟩ : ∃ fewer, rounds = fewer + 1 := ⟨rounds - 1, by omega⟩
          rw [Loop.attempt_again again, ends rounds (by simpa using enough), List.append_assoc]
          rfl
        · rw [← List.takeWhile_append_dropWhile (p := due cur) (l := rest)] at one away
          exact one.cons more away
      · have early : cur < task.expire := by omega
        have not_due : ¬ due cur (timer, task) = true := by simpa [due] using late
        rw [List.takeWhile_cons_of_neg not_due, List.dropWhile_cons_of_neg not_due]
        refine ⟨lst, fun rounds enough => ?_, wellFormed, by simp, fun _ _ _ => rfl⟩
        obtain ⟨rounds, rfl⟩ : ∃ fewer, rounds = fewer + 1 := ⟨rounds - 1, by omega⟩
        apply Loop.attempt_return
        simp only [tickRound, head, here, early, ↓reduceIte, List.map_nil, List.append_nil]

theorem Keeps.wellFormed (keeps : Keeps lst timers) : WellFormed lst timers :=
  ⟨keeps.whole, keeps.sorted⟩

/-- tick() on a list that all timers are in. -/
theorem Keeps.tick (keeps : Keeps lst timers) (cur : Int) :
    ∃ rounds lst', lst.tick rounds cur =
        some ⟨lst', (timers.takeWhile (due cur)).map fun timer => timer.2.call⟩ ∧
      Keeps lst' (timers.dropWhile (due cur)) := by
  obtain ⟨lst', ends, left, frees⟩ := keeps.wellFormed.ticks cur []
  refine ⟨timers.length + 1, lst', ?_, left.whole, fun timer => ⟨fun live => ?_, fun member => ?_⟩,
    left.sorted⟩
  · rw [SortTimerLst.tick, ends _ (Nat.lt_succ_self _)]
    rfl
  · by_contra outside
    by_cases gone : timer ∈ addresses (timers.takeWhile (due cur))
    · rw [frees.freed timer gone] at live
      cases live
    · rw [frees.frame timer gone outside, keeps.live, ← List.takeWhile_append_dropWhile
        (p := due cur) (l := timers), addresses, List.map_append, List.mem_append] at live
      exact live.elim gone outside
  · obtain ⟨⟨_, task⟩, inside, rfl⟩ := List.mem_map.mp member
    obtain ⟨front, back, split⟩ := List.append_of_mem inside
    have linked := left.whole.linked
    rw [split] at linked
    rw [linked_at linked]
    rfl

/-- tick() calls cb_func for exactly the timers that are due, each once and in their
order, and leaves the others, in their order and well formed. -/
theorem tick_fires_due (wellFormed : WellFormed lst timers) (cur : Int) :
    ∃ lst', (∀ rounds, timers.length < rounds → lst.tick rounds cur =
        some ⟨lst', (timers.filter (due cur)).map fun timer => timer.2.call⟩) ∧
      WellFormed lst' (timers.filter fun timer => !due cur timer) ∧
      Frees (timers.filter (due cur)) (timers.filter fun timer => !due cur timer) lst lst' := by
  obtain ⟨taken, dropped⟩ := take_drop_due wellFormed.sorted cur
  obtain ⟨lst', ends, left, frees⟩ := wellFormed.ticks cur []
  rw [taken] at ends frees
  rw [dropped] at left frees
  refine ⟨lst', fun rounds enough => ?_, left, frees⟩
  rw [SortTimerLst.tick, ends rounds enough]
  rfl

/-- Three timers, two of which expire at the same time. -/
def tied : SortTimerLst Nat Unit where
  head := some 1
  tail := some 3
  heap
    | 1 => some ⟨⟨10, 0, ()⟩, none, some 2⟩
    | 2 => some ⟨⟨10, 1, ()⟩, some 1, some 3⟩
    | 3 => some ⟨⟨30, 2, ()⟩, some 2, none⟩
    | _ => none

theorem tick_fires_due_tied : ∃ lst', tied.tick 4 10 = some ⟨lst', [(0, ()), (1, ())]⟩ ∧
    WellFormed lst' [(3, ⟨30, 2, ()⟩)] := by
  have wellFormed : WellFormed tied [(1, ⟨10, 0, ()⟩), (2, ⟨10, 1, ()⟩), (3, ⟨30, 2, ()⟩)] :=
    ⟨⟨by decide, ⟨rfl, rfl, rfl, trivial⟩, rfl, fun _ => rfl⟩, by simp [Sorted]⟩
  obtain ⟨lst', ends, left, -⟩ := tick_fires_due wellFormed 10
  exact ⟨lst', ends 4 (by decide), left⟩

end Tick

end SortTimerLst

end StudyWebServer
