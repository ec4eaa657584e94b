import StudyWebServer.Library.Mutex
import StudyWebServer.WebServer.LogThread

/-!
What holds of the log after any steps of its threads: whoever has mtx_ gives it back by steps
of its own, so that it and the deque do not block each other; every line is written once; and
the destructor returns exactly when the writer was in a wait as Close notified it.
-/

namespace StudyWebServer.WebServer.LogThread

open BlockDeque CondVar ThreadCount Mutex

section Places
variable {L T : Type}

/-- Where a logger stands in push_back. -/
def placeOf : LoggerAt T → PushAt T
  | .pushing line => .entered line false
  | _ => .idle

def WriterAt.isPrinting : WriterAt T → Bool
  | .printing _ => true
  | _ => false

/-- A thread with the line in its hands. -/
def carries [DecidableEq T] (line : T) : LoggerAt T → Bool
  | .checking held => held = line
  | .pushing held => held = line
  | .printing held => held = line
  | _ => false

def WriterAt.carries [DecidableEq T] (line : T) : WriterAt T → Bool
  | .locking held => held = line
  | .printing held => held = line
  | _ => false

/-- The destructor behind its loop. -/
def MainAt.isEnding : MainAt → Bool
  | .closing => true
  | .joining => true
  | .joined => true
  | _ => false

/-- The thread whose step under mtx_ it is. -/
def Action.holder : Action L T → Option (Option L)
  | .check thread => some (some thread)
  | .push thread _ => some (some thread)
  | .print thread => some (some thread)
  | .unlock thread => some (some thread)
  | .writerPrint => some none
  | _ => none

theorem placed_awake (place : LoggerAt T) : (condProducer T).asleep (placeOf place) = false := by
  cases place <;> rfl

theorem pushed_not_idle (place : PushAt T) (line : T) : (Log.pushed place line).isIdle = false := by
  cases place <;> rfl

theorem LoggerAt.eq_idle {place : LoggerAt T} (idle : place.isIdle = true) : place = .idle := by
  cases place with
  | idle => rfl
  | checking => cases idle
  | pushing => cases idle
  | printing => cases idle
  | unlocking => cases idle

section Pop
variable {deque : Deque L Unit T} {line : T} {rest : List T}

theorem popped_waits (looks : deque.Looks ()) (empty : deque.deq = []) :
    Log.popped deque = .popping := by
  unfold Log.popped
  rw [if_neg looks.not_closed, empty]

theorem popped_line (looks : deque.Looks ()) (items : deque.deq = line :: rest) :
    Log.popped deque = .locking line := by
  unfold Log.popped
  rw [if_neg looks.not_closed, items]

theorem popped_closed (behind : deque.pops () = .woken) (closed : deque.isClose = true) :
    Log.popped deque = .exited := if_pos ⟨behind, closed⟩

end Pop

theorem popped_not_printing (deque : Deque L Unit T) : (Log.popped deque).isPrinting = false := by
  unfold Log.popped
  split_ifs
  · rfl
  · split <;> rfl

end Places

namespace Log
variable {L T : Type} [DecidableEq L] {g next : Log L T} {action : Action L T}

section Lock

omit [DecidableEq L] in
/-- Who is in a part of the code that needs mtx_. -/
def inside (g : Log L T) : Option L → Bool
  | some thread => !(g.loggers thread).isIdle
  | none => g.writer.isPrinting

theorem log_to_inside (g : Log L T) (thread : L) (place : LoggerAt T) :
    (g.logTo thread place).inside (some thread) = !place.isIdle := by
  show (!(Function.update g.loggers thread place thread).isIdle) = _
  rw [Function.update_self]

theorem log_to_others (g : Log L T) {thread : L} (place : LoggerAt T) (other : Option L)
    (apart : other ≠ some thread) : (g.logTo thread place).inside other = g.inside other := by
  cases other with
  | none => rfl
  | some other =>
      show (!(Function.update g.loggers thread place other).isIdle) = _
      rw [Function.update_of_ne fun same => apart (congrArg some same)]
      rfl

/-- A thread that has mtx_ before and after its step. -/
theorem guards_stays (guards : Guards g.mtx g.inside) {thread : L} (place : LoggerAt T)
    (before : (g.loggers thread).isIdle = false) (after : place.isIdle = false) :
    Guards g.mtx (g.logTo thread place).inside := by
  refine guards.move (some thread) (.inl ⟨rfl, ?_⟩) (log_to_others g place)
  rw [log_to_inside, after]
  show true = !(g.loggers thread).isIdle
  rw [before]
  rfl

theorem guards_step (change : Change g action next) (guards : Guards g.mtx g.inside) :
    Guards next.mtx next.inside := by
  have elsewhere {after : Log L T} (loggers : after.loggers = g.loggers) (other : Option L)
      (apart : other ≠ none) : after.inside other = g.inside other := by
    cases other with
    | none => exact absurd rfl apart
    | some other =>
        unfold inside
        rw [loggers]
  cases change with
  | locked thread line idle free outside =>
      exact guards.move (some thread) (.inr (.inl ⟨free, rfl, log_to_inside g thread _⟩))
        (log_to_others g _)
  | refused thread line checking full => exact guards_stays guards _ (by rw [checking]; rfl) rfl
  | checked thread line checking room =>
      exact guards_stays guards (.pushing line) (by rw [checking]; rfl) rfl
  | pushed thread line woken deque pushing push =>
      exact guards_stays guards (pushed (deque.pushes thread) line) (by rw [pushing]; rfl)
        (pushed_not_idle _ _)
  | printed thread line printing => exact guards_stays guards .unlocking (by rw [printing]; rfl) rfl
  | unlocked thread unlocking =>
      refine guards.move (some thread) (.inr (.inr ⟨?_, rfl, log_to_inside g thread _⟩))
        (log_to_others g _)
      show (!(g.loggers thread).isIdle) = true
      rw [unlocking]
      rfl
  | popped deque popping pop =>
      refine guards.move none (.inl ⟨rfl, ?_⟩) (elsewhere rfl)
      show (popped g.deque).isPrinting = g.writer.isPrinting
      rw [popped_not_printing, popping]
      rfl
  | writerLocked line locking free =>
      exact guards.move none (.inr (.inl ⟨free, rfl, rfl⟩)) (elsewhere rfl)
  | writerPrinted line printing =>
      refine guards.move none (.inr (.inr ⟨?_, rfl, rfl⟩)) (elsewhere rfl)
      show g.writer.isPrinting = true
      rw [printing]
      rfl
  | notified => exact guards
  | woken => exact guards
  | destructed => exact guards
  | drained => exact guards
  | closed => exact guards
  | notifiedProducers => exact guards
  | notifiedConsumers => exact guards
  | joined => exact guards

end Lock

section Handover

/-- The deque has its loggers where they are, and room for the one that pushes. -/
structure Placed (g : Log L T) : Prop where
  pushes : ∀ thread, g.deque.pushes thread = placeOf (g.loggers thread)
  room : ∀ thread line, g.loggers thread = .pushing line → g.deque.deq.length < g.deque.capacity

omit [DecidableEq L] in
theorem Placed.awake (placed : Placed g) (thread : L) :
    (condProducer T).asleep (g.deque.pushes thread) = false := by
  rw [placed.pushes]
  exact placed_awake _

variable {C : Type} [DecidableEq C]

/-- A push with room goes through. -/
theorem push_lands {d after : Deque L C T} {thread : L} {woken : Option C} {item : T} {front : Bool}
    (entered : d.pushes thread = .entered item front) (room : d.deq.length < d.capacity)
    (change : Deque.Change d (.push thread woken) after) :
    ∃ pops, NotifyOne condConsumer d.pops pops ∧ after = { d.pushTo thread .idle with
      deq := put d.deq item front
      pops := pops
      pushed := d.pushed ++ [item] } := by
  cases change with
  | pushWaits _ _ other front there full => exact absurd room (Nat.not_lt_of_le full)
  | pushed _ _ other front pops there _ notified =>
      cases entered.symm.trans there
      exact ⟨pops, notified, rfl⟩

/-- What a pop does when no producer is asleep. -/
theorem pop_cases {d after : Deque L C T} {thread : C} {woken : Option L}
    (awake : ∀ thread, (condProducer T).asleep (d.pushes thread) = false)
    (change : Deque.Change d (.pop thread woken) after) :
    (d.Looks thread ∧ d.deq = [] ∧ after = d.popTo thread .waiting) ∨
    (∃ item rest, d.Looks thread ∧ d.deq = item :: rest ∧ after = { d.popTo thread .idle with
      deq := rest
      gone := d.gone ++ [.popped item] }) ∨
    (d.pops thread = .woken ∧ d.isClose = true ∧ after = d.popTo thread .idle) := by
  cases change with
  | popWaits _ _ looks empty => exact .inl ⟨looks, empty, rfl⟩
  | popped _ _ item rest pushes looks items notified =>
      cases notified with
      | one other asleep =>
          rw [awake other] at asleep
          cases asleep
      | nobody => exact .inr (.inl ⟨item, rest, looks, items, rfl⟩)
  | popClosed _ _ behind closed => exact .inr (.inr ⟨behind, closed, rfl⟩)

theorem log_to_pushes (placed : Placed g) (thread : L) (place : LoggerAt T) (other : L) :
    Function.update g.deque.pushes thread (placeOf place) other =
      placeOf (Function.update g.loggers thread place other) := by
  by_cases same : other = thread
  · subst same
    rw [Function.update_self, Function.update_self]
  · rw [Function.update_of_ne same, Function.update_of_ne same]
    exact placed.pushes other

/-- A logger that moves between places outside of the deque. -/
theorem log_to_same (placed : Placed g) {thread : L} {place : LoggerAt T}
    (before : placeOf (g.loggers thread) = .idle) (after : placeOf place = .idle) (other : L) :
    g.deque.pushes other = placeOf (Function.update g.loggers thread place other) := by
  rw [← log_to_pushes placed, after, Function.update_eq_self_iff.mpr
    ((placed.pushes thread).trans before).symm]

theorem log_to_room (placed : Placed g) {thread : L} {place : LoggerAt T}
    (after : ∀ line, place = .pushing line → g.deque.deq.length < g.deque.capacity) (other : L)
    (line : T) (pushing : Function.update g.loggers thread place other = .pushing line) :
    g.deque.deq.length < g.deque.capacity := by
  by_cases same : other = thread
  · subst same
    rw [Function.update_self] at pushing
    exact after line pushing
  · rw [Function.update_of_ne same] at pushing
    exact placed.room other line pushing

theorem placed_stays (placed : Placed g) (thread : L) (place : LoggerAt T)
    (before : placeOf (g.loggers thread) = .idle) (after : placeOf place = .idle) :
    Placed (g.logTo thread place) :=
  ⟨log_to_same placed before after, log_to_room placed fun line pushing => by
    rw [pushing] at after
    cases after⟩

omit [DecidableEq L] in
/-- The logger that pushes has mtx_, so no other one is pushing. -/
theorem alone_pushing (guards : Guards g.mtx g.inside) {thread other : L} {line item : T}
    (one : g.loggers thread = .pushing line) (two : g.loggers other = .pushing item) :
    other = thread := by
  refine Option.some.inj (guards.exclusive.alone (t := some other) (u := some thread) ?_ ?_)
  · show (!(g.loggers other).isIdle) = true
    rw [two]
    rfl
  · show (!(g.loggers thread).isIdle) = true
    rw [one]
    rfl

theorem placed_step (change : Change g action next)
    (guards : Guards g.mtx g.inside) (placed : Placed g) :
    Placed next := by
  cases change with
  | locked thread line idle free outside =>
      have before : placeOf (g.loggers thread) = .idle := by
        rw [LoggerAt.eq_idle idle]
        rfl
      have moved := placed_stays placed thread (.checking line) before rfl
      exact ⟨moved.pushes, moved.room⟩
  | refused thread line checking full =>
      exact placed_stays placed thread _ (by rw [checking]; rfl) rfl
  | checked thread line checking room =>
      exact ⟨log_to_pushes placed thread (.pushing line), log_to_room placed fun _ _ => room⟩
  | pushed thread line woken deque pushing push =>
      have entered := (placed.pushes thread).trans (congrArg placeOf pushing)
      obtain ⟨pops, notified, same⟩ := push_lands entered (placed.room thread line pushing) push
      subst same
      show Placed
        { g.logTo thread (pushed (Function.update g.deque.pushes thread .idle thread) line) with
        deque := _ }
      rw [Function.update_self]
      refine ⟨log_to_pushes placed thread .unlocking, fun other item still => ?_⟩
      have there : Function.update g.loggers thread .unlocking other = .pushing item := still
      by_cases same : other = thread
      · subst same
        rw [Function.update_self] at there
        cases there
      · rw [Function.update_of_ne same] at there
        exact absurd (alone_pushing guards pushing there) same
  | printed thread line printing =>
      have moved := placed_stays placed thread .unlocking (by rw [printing]; rfl) rfl
      exact ⟨moved.pushes, moved.room⟩
  | unlocked thread unlocking =>
      have moved := placed_stays placed thread .idle (by rw [unlocking]; rfl) rfl
      exact ⟨moved.pushes, moved.room⟩
  | popped deque popping pop =>
      rcases pop_cases placed.awake pop with ⟨-, -, same⟩ |
        ⟨item, rest, -, items, same⟩ | ⟨-, -, same⟩
      · subst same
        exact ⟨placed.pushes, placed.room⟩
      · subst same
        refine ⟨placed.pushes, fun thread line pushing => ?_⟩
        have before := placed.room thread line pushing
        rw [items, List.length_cons] at before
        exact Nat.lt_of_succ_lt before
      · subst same
        exact ⟨placed.pushes, placed.room⟩
  | closed closing =>
      exact ⟨placed.pushes, fun thread line pushing =>
        Nat.zero_lt_of_lt (placed.room thread line pushing)⟩
  | notifiedProducers closing =>
      refine ⟨fun thread => ?_, placed.room⟩
      show notifyAll (condProducer T) g.deque.pushes thread = _
      unfold notifyAll
      rw [placed.awake thread]
      exact placed.pushes thread
  | notified => exact ⟨placed.pushes, placed.room⟩
  | writerLocked => exact ⟨placed.pushes, placed.room⟩
  | writerPrinted => exact ⟨placed.pushes, placed.room⟩
  | woken => exact ⟨placed.pushes, placed.room⟩
  | destructed => exact ⟨placed.pushes, placed.room⟩
  | drained => exact ⟨placed.pushes, placed.room⟩
  | notifiedConsumers => exact ⟨placed.pushes, placed.room⟩
  | joined => exact ⟨placed.pushes, placed.room⟩

end Handover

section Ending

structure Ordered (g : Log L T) : Prop where
  /-- the writer is in pop when the deque has it there -/
  popping : g.writer = .popping ↔ g.deque.pops () ≠ .idle
  quiet : g.main ≠ .outside → ∀ thread, (g.loggers thread).isIdle = true
  empty : g.main.isEnding = true → g.deque.deq = []
  notifying : g.deque.closing ≠ .outside → g.deque.isClose = true
  joined : g.main = .joined → g.writer = .exited

omit [DecidableEq L] in
theorem Ordered.outside (ordered : Ordered g) {thread : L}
    (there : (g.loggers thread).isIdle = false) : g.main = .outside := by
  by_contra behind
  rw [ordered.quiet behind thread] at there
  cases there

omit [DecidableEq L] in
/-- A step of a thread in Log::write. -/
theorem ordered_log (ordered : Ordered g) (outside : g.main = .outside)
    (main : next.main = g.main) (writer : next.writer = g.writer)
    (pops : next.deque.pops () ≠ .idle ↔ g.deque.pops () ≠ .idle)
    (closing : next.deque.closing = g.deque.closing)
    (isClose : next.deque.isClose = g.deque.isClose) :
    Ordered next where
  popping := by rw [writer, pops, ordered.popping]
  quiet behind := absurd (main.trans outside) behind
  empty ending := by
    rw [main, outside] at ending
    cases ending
  notifying := by rw [closing, isClose]; exact ordered.notifying
  joined done := by
    rw [main, outside] at done
    cases done

omit [DecidableEq L] in
theorem notified_idle {pops after : Unit → PopAt} (notified : NotifyOne condConsumer pops after) :
    after () ≠ .idle ↔ pops () ≠ .idle := by
  cases notified with
  | nobody awake => exact Iff.rfl
  | one thread asleep =>
      cases thread
      rw [Function.update_self, show pops () = .waiting from of_decide_eq_true asleep]
      exact iff_of_true nofun nofun

theorem ordered_step (change : Change g action next) (placed : Placed g) (ordered : Ordered g) :
    Ordered next := by
  cases change with
  | locked thread line idle free outside =>
      exact ordered_log ordered outside rfl rfl Iff.rfl rfl rfl
  | refused thread line checking full =>
      exact ordered_log ordered (ordered.outside (by rw [checking]; rfl)) rfl rfl Iff.rfl rfl rfl
  | checked thread line checking room =>
      exact ordered_log ordered (ordered.outside (by rw [checking]; rfl)) rfl rfl Iff.rfl rfl rfl
  | pushed thread line woken deque pushing push =>
      have entered := (placed.pushes thread).trans (congrArg placeOf pushing)
      obtain ⟨pops, notified, same⟩ := push_lands entered (placed.room thread line pushing) push
      subst same
      exact ordered_log ordered (ordered.outside (by rw [pushing]; rfl)) rfl rfl
        (notified_idle notified) rfl rfl
  | printed thread line printing =>
      exact ordered_log ordered (ordered.outside (by rw [printing]; rfl)) rfl rfl Iff.rfl rfl rfl
  | unlocked thread unlocking =>
      exact ordered_log ordered (ordered.outside (by rw [unlocking]; rfl)) rfl rfl Iff.rfl rfl rfl
  | notified action drains pops notified =>
      exact { ordered with popping := ordered.popping.trans (notified_idle notified).symm }
  | popped deque popping pop =>
      have unjoined : g.main ≠ .joined := fun done => by
        rw [ordered.joined done] at popping
        cases popping
      rcases pop_cases placed.awake pop with ⟨looks, empty, same⟩ |
        ⟨line, rest, looks, items, same⟩ |
        ⟨behind, closed, same⟩
      · subst same
        rw [popped_waits looks empty]
        exact { ordered with
          popping := iff_of_true rfl nofun
          joined := fun done => absurd done unjoined }
      · subst same
        rw [popped_line looks items]
        refine { ordered with
          popping := iff_of_false nofun fun inside => inside rfl
          joined := fun done => absurd done unjoined
          empty := fun ending => ?_ }
        rw [ordered.empty ending] at items
        cases items
      · subst same
        rw [popped_closed behind closed]
        exact { ordered with
          popping := iff_of_false nofun fun inside => inside rfl
          joined := fun done => absurd done unjoined }
  | writerLocked line locking free =>
      have elsewhere : ¬ g.deque.pops () ≠ .idle := fun inside => by
        rw [ordered.popping.mpr inside] at locking
        cases locking
      refine { ordered with popping := iff_of_false nofun elsewhere, joined := fun done => ?_ }
      rw [ordered.joined done] at locking
      cases locking
  | writerPrinted line printing =>
      refine { ordered with popping := iff_of_true rfl nofun, joined := fun done => ?_ }
      rw [ordered.joined done] at printing
      cases printing
  | woken waiting =>
      refine { ordered with popping := ordered.popping.trans (iff_of_true ?_ nofun) }
      rw [waiting]
      exact nofun
  | destructed outside idle =>
      exact { ordered with quiet := fun _ => idle, empty := nofun, joined := nofun }
  | drained woken draining empty =>
      exact { ordered with
        quiet := fun _ => ordered.quiet (by rw [draining]; exact nofun)
        empty := fun _ => empty
        joined := nofun }
  | closed closing => exact { ordered with empty := fun _ => rfl, notifying := fun _ => rfl }
  | notifiedProducers closing behind =>
      exact { ordered with notifying := fun _ => ordered.notifying (by rw [behind]; exact nofun) }
  | notifiedConsumers closing behind =>
      have idle : notifyAll condConsumer g.deque.pops () ≠ .idle ↔ g.deque.pops () ≠ .idle := by
        unfold notifyAll
        split
        · next asleep =>
            rw [show g.deque.pops () = .waiting from of_decide_eq_true asleep]
            exact iff_of_true nofun nofun
        · exact Iff.rfl
      exact {
        popping := ordered.popping.trans idle.symm
        quiet := fun _ => ordered.quiet (by rw [closing]; exact nofun)
        empty := fun _ => ordered.empty (by rw [closing]; rfl)
        notifying := fun away => absurd rfl away
        joined := nofun }
  | joined joining exited =>
      exact { ordered with
        quiet := fun _ => ordered.quiet (by rw [joining]; exact nofun)
        empty := fun _ => ordered.empty (by rw [joining]; rfl)
        joined := fun _ => exited }

end Ending

section Balance
variable [DecidableEq T] [Fintype L]

/-- Every line is in the file, in the deque or in somebody's hands, as often as it was written. -/
def Balanced (g : Log L T) : Prop := ∀ line, g.logged.count line = g.file.count line +
  g.deque.deq.count line + standing g.loggers (carries line) + (g.writer.carries line).toNat

theorem balance_step (change : Change g action next) (placed : Placed g) (ordered : Ordered g)
    (balanced : Balanced g) : Balanced next := by
  intro line
  have before := balanced line
  cases change with
  | locked thread item idle free outside =>
      have moved := standing_update g.loggers (carries line) thread (.checking item)
      rw [LoggerAt.eq_idle idle] at moved
      have hands : (carries line (.checking item)).toNat = (decide (item = line)).toNat := rfl
      show (g.logged ++ [item]).count line = g.file.count line + g.deque.deq.count line +
        standing (Function.update g.loggers thread (.checking item)) (carries line) +
        (g.writer.carries line).toNat
      rw [List.count_append, count_one, before]
      have none : (carries line .idle).toNat = 0 := rfl
      omega
  | refused thread item checking full =>
      show _ = _ + _ + standing (Function.update g.loggers thread _) (carries line) + _
      rw [standing_stays (by rw [checking]; rfl)]
      exact before
  | checked thread item checking room =>
      show _ = _ + _ + standing (Function.update g.loggers thread _) (carries line) + _
      rw [standing_stays (by rw [checking]; rfl)]
      exact before
  | pushed thread item woken deque pushing push =>
      have entered := (placed.pushes thread).trans (congrArg placeOf pushing)
      obtain ⟨pops, notified, same⟩ := push_lands entered (placed.room thread item pushing) push
      subst same
      have moved := standing_update g.loggers (carries line) thread .unlocking
      rw [pushing] at moved
      have hands : (carries line (.pushing item)).toNat = (decide (item = line)).toNat := rfl
      have none : (carries line .unlocking).toNat = 0 := rfl
      show g.logged.count line = g.file.count line + (g.deque.deq ++ [item]).count line +
        standing (Function.update g.loggers thread
          (pushed (Function.update g.deque.pushes thread .idle thread) item)) (carries line) +
        (g.writer.carries line).toNat
      rw [Function.update_self, List.count_append, count_one]
      show g.logged.count line = g.file.count line + (g.deque.deq.count line +
        (decide (item = line)).toNat) + standing (Function.update g.loggers thread .unlocking)
          (carries line) + (g.writer.carries line).toNat
      omega
  | printed thread item printing =>
      have moved := standing_update g.loggers (carries line) thread .unlocking
      rw [printing] at moved
      have hands : (carries line (.printing item)).toNat = (decide (item = line)).toNat := rfl
      have none : (carries line .unlocking).toNat = 0 := rfl
      show g.logged.count line = (g.file ++ [item]).count line + g.deque.deq.count line +
        standing (Function.update g.loggers thread .unlocking) (carries line) +
        (g.writer.carries line).toNat
      rw [List.count_append, count_one]
      omega
  | unlocked thread unlocking =>
      show _ = _ + _ + standing (Function.update g.loggers thread _) (carries line) + _
      rw [standing_stays (by rw [unlocking]; rfl)]
      exact before
  | popped deque popping pop =>
      rw [popping] at before
      rcases pop_cases placed.awake pop with ⟨looks, empty, same⟩ |
        ⟨item, rest, looks, items, same⟩ |
        ⟨behind, closed, same⟩
      · subst same
        rw [popped_waits looks empty]
        exact before
      · subst same
        rw [popped_line looks items]
        rw [items, ← List.singleton_append, List.count_append, count_one] at before
        have none : (WriterAt.popping.carries line).toNat = 0 := rfl
        show g.logged.count line = g.file.count line + rest.count line +
          standing g.loggers (carries line) + (decide (item = line)).toNat
        omega
      · subst same
        rw [popped_closed behind closed]
        exact before
  | writerLocked item locking free =>
      rw [locking] at before
      exact before
  | writerPrinted item printing =>
      rw [printing] at before
      have hands : ((WriterAt.printing item).carries line).toNat =
          (decide (item = line)).toNat := rfl
      show g.logged.count line = (g.file ++ [item]).count line + g.deque.deq.count line +
        standing g.loggers (carries line) + 0
      rw [List.count_append, count_one]
      omega
  | closed closing =>
      rw [ordered.empty (by rw [closing]; rfl)] at before
      exact before
  | notified => exact before
  | woken => exact before
  | destructed => exact before
  | drained => exact before
  | notifiedProducers => exact before
  | notifiedConsumers => exact before
  | joined => exact before

end Balance

section Runs
variable [DecidableEq T] [Fintype L] {capacity : Nat}

structure Sound (g : Log L T) : Prop where
  guards : Guards g.mtx g.inside
  placed : Placed g
  ordered : Ordered g
  balanced : Balanced g

omit [DecidableEq L] in
theorem sound_start : Sound (start capacity : Log L T) where
  guards thread := by
    cases thread with
    | none => exact iff_of_false nofun nofun
    | some thread => exact iff_of_false nofun nofun
  placed := ⟨fun _ => rfl, nofun⟩
  ordered := ⟨iff_of_true rfl nofun, fun _ _ => rfl, nofun, fun away => absurd rfl away, nofun⟩
  balanced line := by
    have none : standing (start capacity : Log L T).loggers (carries line) = 0 :=
      standing_eq_zero fun _ => rfl
    rw [none]
    rfl

theorem Reached.sound (reached : Reached capacity g) : Sound g := by
  induction reached with
  | start => exact sound_start
  | step action reached stepped ih =>
      have change := change_of_step stepped
      exact ⟨guards_step change ih.guards, placed_step change ih.guards ih.placed,
        ordered_step change ih.placed ih.ordered,
          balance_step change ih.placed ih.ordered ih.balanced⟩

/-- In every reached state each line is in the file, in the deque or in the hands of a thread
as often as it was written, and once the destructor has returned all are in the file. -/
theorem lines_accounted (reached : Reached capacity g) :
    (∀ line, g.logged.count line = g.file.count line + g.deque.deq.count line +
      standing g.loggers (carries line) + (g.writer.carries line).toNat) ∧
    (g.main = .joined → g.file.Perm g.logged) := by
  have sound := reached.sound
  refine ⟨sound.balanced, fun joined => List.perm_iff_count.mpr fun line => ?_⟩
  have balanced := sound.balanced line
  have nobody : standing g.loggers (carries line) = 0 := standing_eq_zero fun thread => by
    rw [LoggerAt.eq_idle (sound.ordered.quiet (by rw [joined]; exact nofun) thread)]
    rfl
  rw [sound.ordered.empty (by rw [joined]; rfl), nobody, sound.ordered.joined joined] at balanced
  exact balanced.symm

theorem lines_accounted_one : ∃ g : Log Unit Nat,
    (∀ line, g.logged.count line = g.file.count line + g.deque.deq.count line +
      standing g.loggers (carries line) + (g.writer.carries line).toNat) ∧
    (g.main = .joined → g.file.Perm g.logged) :=
  have locked : Reached 1 (_ : Log Unit Nat) := .step (.lock () 5) .start rfl
  have checked : Reached 1 (_ : Log Unit Nat) := .step (.check ()) locked rfl
  ⟨_, lines_accounted checked⟩

end Runs

section Holder
variable [Fintype L]

def run (g : Log L T) : List (Action L T) → Option (Log L T)
  | [] => some g
  | action :: rest => (g.step action).bind fun next => next.run rest

/-- The thread can give mtx_ back by at most so many steps of its own. -/
def GivesBack (g : Log L T) (thread : Option L) (bound : Nat) : Prop :=
  ∃ actions last, actions.length ≤ bound ∧ (∀ action ∈ actions, action.holder = some thread) ∧
    g.run actions = some last ∧ last.mtx = none

variable {thread : L} {who : Option L} {bound : Nat}

theorem GivesBack.step (action : Action L T) (by_holder : action.holder = some who)
    (stepped : g.step action = some next) (gives : GivesBack next who bound) :
    GivesBack g who (bound + 1) := by
  obtain ⟨actions, last, short, own, runs, free⟩ := gives
  refine ⟨action :: actions, last, Nat.succ_le_succ short, ?_, ?_, free⟩
  · intro other member
    rcases List.mem_cons.mp member with same | later
    · rw [same]
      exact by_holder
    · exact own other later
  · show (g.step action).bind _ = _
    rw [stepped]
    exact runs

theorem GivesBack.within (gives : GivesBack g who bound) {more : Nat} (fits : bound ≤ more) :
    GivesBack g who more := by
  obtain ⟨actions, last, short, rest⟩ := gives
  exact ⟨actions, last, short.trans fits, rest⟩

theorem gives_back_last (action : Action L T) (by_holder : action.holder = some who)
    (stepped : g.step action = some next) (free : next.mtx = none) : GivesBack g who 1 :=
  .step action by_holder stepped ⟨[], next, Nat.le_refl _, nofun, rfl, free⟩

theorem unlock_gives_back (unlocking : g.loggers thread = .unlocking) :
    GivesBack g (some thread) 1 := by
  have unlocked : g.step (.unlock thread) = some { g.logTo thread .idle with mtx := none } := by
    show g.unlock thread = _
    unfold unlock
    rw [unlocking]
  exact gives_back_last _ rfl unlocked rfl

theorem print_gives_back {line : T} (printing : g.loggers thread = .printing line) :
    GivesBack g (some thread) 2 := by
  have printed : g.step (.print thread) =
      some { g.logTo thread .unlocking with file := g.file ++ [line] } := by
    show g.print thread = _
    unfold print
    rw [printing]
  exact .step _ rfl printed (unlock_gives_back (Function.update_self ..))

/-- A notification finds the writer asleep or not. -/
theorem notify_writer (pops : Unit → PopAt) :
    ∃ woken after, notify condConsumer pops woken = some after := by
  cases asleep : condConsumer.asleep (pops ()) with
  | true => exact ⟨some (), _, if_pos asleep⟩
  | false => exact ⟨none, _, if_pos fun _ => asleep⟩

omit [Fintype L] in
/-- A push with room goes through at once. -/
theorem push_through {item : T} {front : Bool}
    (entered : g.deque.pushes thread = .entered item front)
    (room : g.deque.deq.length < g.deque.capacity) :
    ∃ woken deque, g.deque.push thread woken = some deque ∧ deque.pushes thread = .idle := by
  obtain ⟨woken, pops, notified⟩ := notify_writer g.deque.pops
  refine ⟨woken, { g.deque.pushTo thread .idle with
      deq := put g.deque.deq item front
      pops := pops
      pushed := g.deque.pushed ++ [item] }, ?_, Function.update_self ..⟩
  unfold Deque.push
  rw [entered]
  dsimp only
  rw [if_neg (Nat.not_le_of_lt room), notified]

theorem push_gives_back {line : T} (entered : g.deque.pushes thread = .entered line false)
    (room : g.deque.deq.length < g.deque.capacity) (pushing : g.loggers thread = .pushing line) :
    GivesBack g (some thread) 2 := by
  obtain ⟨woken, deque, lands, idle⟩ := push_through entered room
  have pushed : g.step (.push thread woken) =
      some { g.logTo thread .unlocking with deque := deque } := by
    show g.push thread woken = _
    unfold push
    rw [pushing]
    dsimp only
    rw [lands]
    dsimp only
    rw [idle]
    rfl
  exact .step _ rfl pushed (unlock_gives_back (Function.update_self ..))

theorem check_gives_back {line : T} (placed : Placed g)
    (checking : g.loggers thread = .checking line) :
    GivesBack g (some thread) 3 := by
  by_cases full : g.deque.capacity ≤ g.deque.deq.length
  · have refused : g.step (.check thread) = some (g.logTo thread (.printing line)) := by
      show g.check thread = _
      unfold check
      rw [checking]
      exact if_pos full
    exact .step _ rfl refused (print_gives_back (Function.update_self ..))
  · have checked : g.step (.check thread) = some { g.logTo thread (.pushing line) with
        deque := g.deque.pushTo thread (.entered line false) } := by
      have called : g.deque.callPush thread line false =
          some (g.deque.pushTo thread (.entered line false)) := by
        unfold Deque.callPush
        rw [placed.pushes, checking]
        rfl
      show g.check thread = _
      unfold check
      rw [checking]
      dsimp only
      rw [if_neg full, called]
    exact .step _ rfl checked (push_gives_back (Function.update_self ..) (Nat.lt_of_not_le full)
      (Function.update_self ..))

theorem writer_gives_back {line : T} (ordered : Ordered g) (printing : g.writer = .printing line) :
    GivesBack g none 1 := by
  have elsewhere : g.deque.pops () = .idle := by
    by_contra inside
    rw [ordered.popping.mpr inside] at printing
    cases printing
  have called : g.deque.callPop () = some (g.deque.popTo () .entered) := by
    unfold Deque.callPop
    rw [elsewhere]
  have printed : g.step .writerPrint = some { g with
      deque := g.deque.popTo () .entered, writer := .popping, mtx := none, file :=
        g.file ++ [line] } := by
    show g.writerPrint = _
    unfold writerPrint
    rw [printing]
    dsimp only
    rw [called]
  exact gives_back_last _ rfl printed rfl

/-- Whoever has mtx_ gives it back by at most three steps of its own, whatever the deque and
the other threads do: no push under mtx_ waits. -/
theorem holder_gives_back [DecidableEq T] {capacity : Nat} (reached : Reached capacity g)
    (who : Option L) (holds : g.mtx = some who) : GivesBack g who 3 := by
  have sound := reached.sound
  have isInside := (sound.guards who).mp holds
  cases who with
  | none =>
      have printing : g.writer.isPrinting = true := isInside
      cases place : g.writer with
      | printing line => exact (writer_gives_back sound.ordered place).within (by decide)
      | popping => rw [place] at printing; cases printing
      | locking => rw [place] at printing; cases printing
      | exited => rw [place] at printing; cases printing
  | some thread =>
      have busy : (!(g.loggers thread).isIdle) = true := isInside
      cases place : g.loggers thread with
      | idle => rw [place] at busy; cases busy
      | checking line => exact check_gives_back sound.placed place
      | pushing line =>
          exact (push_gives_back ((sound.placed.pushes thread).trans (congrArg placeOf place))
            (sound.placed.room thread line place) place).within (by decide)
      | printing line => exact (print_gives_back place).within (by decide)
      | unlocking => exact (unlock_gives_back place).within (by decide)

theorem holder_gives_back_one : ∃ g : Log Unit Nat, GivesBack g (some ()) 3 :=
  have locked : Reached 1 (_ : Log Unit Nat) := .step (.lock () 5) .start rfl
  ⟨_, holder_gives_back locked (some ()) rfl⟩

end Holder

section Destructor
variable [Fintype L]

inductive Steps : Nat → Log L T → Log L T → Prop where
  | zero {g : Log L T} : Steps 0 g g
  | succ {k : Nat} {g next last : Log L T} (action : Action L T) (quiet : action.isQuiet = true)
      (stepped : g.step action = some next) (steps : Steps k next last) : Steps (k + 1) g last

structure Behind (g : Log L T) : Prop where
  main : g.main = .joining ∨ g.main = .joined
  closed : g.deque.isClose = true

/-- The writer left its loop, or will when it goes on. -/
def Leaves (g : Log L T) : Prop := g.deque.pops () = .woken ∨ g.writer = .exited

/-- How many steps are left to the writer. -/
def writerLeft (writer : WriterAt T) (pop : PopAt) : Nat :=
  match writer, pop with
  | .locking _, _ => 3
  | .printing _, _ => 2
  | .popping, .waiting => 0
  | .popping, _ => 1
  | .exited, _ => 0

def left (g : Log L T) : Nat :=
  (if g.main = .joining then 1 else 0) + writerLeft g.writer (g.deque.pops ())

omit [DecidableEq L] [Fintype L] in
theorem left_le (g : Log L T) : left g ≤ 4 := by
  have most : writerLeft g.writer (g.deque.pops ()) ≤ 3 := by
    unfold writerLeft
    split <;> decide
  unfold left
  split <;> omega

omit [DecidableEq L] [Fintype L] in
theorem Behind.not_outside (behind : Behind g) : g.main ≠ .outside := by
  rcases behind.main with main | main <;> rw [main] <;> exact nofun

omit [DecidableEq L] [Fintype L] in
theorem Behind.past (behind : Behind g) {place : MainAt} (main : g.main = place)
    (before : place ≠ .joining) (apart : place ≠ .joined) : False := by
  rcases behind.main with joining | joined
  · exact before (main.symm.trans joining)
  · exact apart (main.symm.trans joined)

theorem quiet_step [DecidableEq T] (change : Change g action next) (quiet : action.isQuiet = true)
    (sound : Sound g) (behind : Behind g) :
    Behind next ∧ left next + 1 = left g ∧ (Leaves next ↔ Leaves g) := by
  have nobody {thread : L} (there : (g.loggers thread).isIdle = false) : False :=
    behind.not_outside (sound.ordered.outside there)
  have elsewhere (away : g.writer ≠ .popping) : g.deque.pops () = .idle := by
    by_contra inside
    exact away (sound.ordered.popping.mpr inside)
  cases change with
  | popped deque popping pop =>
      rcases pop_cases sound.placed.awake pop with ⟨looks, empty, same⟩ |
        ⟨line, rest, looks, items, same⟩ |
        ⟨woken, closed, same⟩
      · subst same
        rw [popped_waits looks empty]
        have entered : g.deque.pops () = .entered := by
          rcases looks with entered | ⟨-, isOpen⟩
          · exact entered
          · rw [behind.closed] at isOpen
            cases isOpen
        refine ⟨⟨behind.main, behind.closed⟩, ?_, iff_of_false ?_ ?_⟩
        · unfold left
          rw [popping, entered]
          rfl
        · rintro (woken | exited)
          · cases woken
          · cases exited
        · rintro (woken | exited)
          · cases entered.symm.trans woken
          · cases popping.symm.trans exited
      · have ending : g.main.isEnding = true := by
          rcases behind.main with main | main <;> rw [main] <;> rfl
        rw [sound.ordered.empty ending] at items
        cases items
      · subst same
        rw [popped_closed woken closed]
        refine ⟨⟨behind.main, behind.closed⟩, ?_, iff_of_true (.inr rfl) (.inl woken)⟩
        unfold left
        rw [popping, woken]
        rfl
  | writerLocked line locking free =>
      have idle := elsewhere (by rw [locking]; exact nofun)
      refine ⟨⟨behind.main, behind.closed⟩, ?_, iff_of_false ?_ ?_⟩
      · unfold left
        rw [locking]
        rfl
      · rintro (woken | exited)
        · cases idle.symm.trans woken
        · cases exited
      · rintro (woken | exited)
        · cases idle.symm.trans woken
        · cases locking.symm.trans exited
  | writerPrinted line printing =>
      have idle := elsewhere (by rw [printing]; exact nofun)
      refine ⟨⟨behind.main, behind.closed⟩, ?_, iff_of_false ?_ ?_⟩
      · unfold left
        rw [printing]
        rfl
      · rintro (woken | exited)
        · cases woken
        · cases exited
      · rintro (woken | exited)
        · cases idle.symm.trans woken
        · cases printing.symm.trans exited
  | joined joining exited =>
      refine ⟨⟨.inr rfl, behind.closed⟩, ?_, Iff.rfl⟩
      unfold left
      rw [joining, exited]
      rfl
  | locked thread line idle free outside => exact absurd outside behind.not_outside
  | refused thread line checking full => exact (nobody (by rw [checking]; rfl)).elim
  | checked thread line checking room => exact (nobody (by rw [checking]; rfl)).elim
  | pushed thread line woken deque pushing push => exact (nobody (by rw [pushing]; rfl)).elim
  | printed thread line printing => exact (nobody (by rw [printing]; rfl)).elim
  | unlocked thread unlocking => exact (nobody (by rw [unlocking]; rfl)).elim
  | notified action drains pops notified => exact (behind.past (drains quiet) nofun nofun).elim
  | woken waiting => cases quiet
  | destructed outside idle => exact absurd outside behind.not_outside
  | drained woken draining empty => exact (behind.past draining nofun nofun).elim
  | closed closing => exact (behind.past closing nofun nofun).elim
  | notifiedProducers closing => exact (behind.past closing nofun nofun).elim
  | notifiedConsumers closing => exact (behind.past closing nofun nofun).elim

theorem quiet_steps [DecidableEq T] {capacity k : Nat} {last : Log L T}
    (reached : Reached capacity g)
    (behind : Behind g) (steps : Steps k g last) :
    Reached capacity last ∧ Behind last ∧ left last + k = left g ∧ (Leaves last ↔ Leaves g) := by
  induction steps with
  | zero => exact ⟨reached, behind, rfl, Iff.rfl⟩
  | succ action quiet stepped steps ih =>
      obtain ⟨still, fewer, same⟩ := quiet_step (change_of_step stepped) quiet reached.sound behind
      obtain ⟨reaches, ends, count, leaves⟩ := ih (.step action reached stepped) still
      exact ⟨reaches, ends, by omega, leaves.trans same⟩

/-- When nothing is possible any more, the destructor is through if the writer left its loop. -/
theorem stuck_joined [DecidableEq T] (sound : Sound g) (behind : Behind g)
    (stuck : ∀ action, action.isQuiet = true → g.step action = none) :
    g.main = .joined ↔ Leaves g := by
  refine ⟨fun joined => .inr (sound.ordered.joined joined), ?_⟩
  rintro (woken | exited)
  · have popping := sound.ordered.popping.mpr (by rw [woken]; exact nofun)
    have none : g.pop = none := stuck .pop rfl
    unfold pop at none
    rw [popping] at none
    unfold Deque.pop at none
    rw [woken] at none
    dsimp only at none
    rw [if_pos behind.closed] at none
    cases none
  · rcases behind.main with joining | joined
    · have none : g.join = none := stuck .join rfl
      unfold join at none
      rw [joining, exited] at none
      cases none
    · exact joined

/-- When nothing is possible any more and the destructor is not through, the writer sleeps. -/
theorem stuck_sleeps [DecidableEq T] (sound : Sound g) (behind : Behind g)
    (stuck : ∀ action, action.isQuiet = true → g.step action = none) (stays : g.main ≠ .joined) :
    g.main = .joining ∧ g.writer = .popping ∧ g.deque.pops () = .waiting ∧
      g.deque.isClose = true := by
  have joining := behind.main.resolve_right stays
  have remains : ¬ Leaves g := fun leaves => stays ((stuck_joined sound behind stuck).mpr leaves)
  have elsewhere (away : g.writer ≠ .popping) : g.deque.pops () = .idle := by
    by_contra inside
    exact away (sound.ordered.popping.mpr inside)
  cases place : g.writer with
  | exited => exact absurd (.inr place) remains
  | printing line =>
      have blocked : g.writerPrint = none := stuck .writerPrint rfl
      have idle := elsewhere (by rw [place]; exact nofun)
      simp [writerPrint, place, Deque.callPop, idle] at blocked
  | locking line =>
      have blocked : g.writerLock = none := stuck .writerLock rfl
      have free : g.mtx = none := by
        by_contra held
        obtain ⟨thread, same⟩ := Option.ne_none_iff_exists'.mp held
        have inside := (sound.guards thread).mp same
        cases thread with
        | none =>
            rw [Log.inside, place] at inside
            cases inside
        | some thread =>
            rw [Log.inside, sound.ordered.quiet behind.not_outside thread] at inside
            cases inside
      simp [writerLock, place, free] at blocked
  | popping =>
      refine ⟨joining, rfl, ?_, behind.closed⟩
      cases pops : g.deque.pops () with
      | waiting => rfl
      | idle => exact absurd pops (sound.ordered.popping.mp place)
      | woken => exact absurd (.inl pops) remains
      | entered =>
          have blocked : g.pop = none := stuck .pop rfl
          have empty := sound.ordered.empty (by rw [joining]; rfl)
          simp [pop, place, Deque.pop, pops, Deque.take, empty] at blocked

/-- Once Close has notified the writer only four steps are left, and when none is possible any
more the destructor has returned exactly if the writer was in the wait of pop, or behind it, as
it was notified. Otherwise it has gone to sleep on the closed deque. -/
theorem destructor_returns [DecidableEq T] {capacity k : Nat} {after last : Log L T}
    (reached : Reached capacity g) (notified : g.step .notifyConsumers = some after)
    (steps : Steps k after last) : k ≤ 4 ∧
    ((∀ action, action.isQuiet = true → last.step action = none) →
      (last.main = .joined ↔
        g.deque.pops () = .waiting ∨ g.deque.pops () = .woken ∨ g.writer = .exited) ∧
      (last.main ≠ .joined → last.main = .joining ∧ last.writer = .popping ∧
        last.deque.pops () = .waiting ∧ last.deque.isClose = true)) := by
  have sound := reached.sound
  have behind : Behind after ∧ (Leaves after ↔
      g.deque.pops () = .waiting ∨ g.deque.pops () = .woken ∨ g.writer = .exited) := by
    cases change_of_step notified with
    | notified action drains pops =>
        have closing := (Option.ite_none_right_eq_some.mp notified).1
        cases (drains rfl).symm.trans closing
    | notifiedConsumers closing notifying =>
        refine ⟨⟨.inl rfl, sound.ordered.notifying (by rw [notifying]; exact nofun)⟩, ?_⟩
        show notifyAll condConsumer g.deque.pops () = .woken ∨ g.writer = .exited ↔ _
        cases place : g.deque.pops () with
        | waiting => exact iff_of_true (.inl (if_pos (by rw [place]; rfl))) (.inl rfl)
        | _ =>
            have same : notifyAll condConsumer g.deque.pops () = g.deque.pops () :=
              if_neg (by rw [place]; exact nofun)
            rw [same, place]
            simp
  obtain ⟨reaches, ends, count, leaves⟩ := quiet_steps (.step _ reached notified) behind.1 steps
  refine ⟨?_, fun stuck => ⟨(stuck_joined reaches.sound ends stuck).trans (leaves.trans behind.2),
    stuck_sleeps reaches.sound ends stuck⟩⟩
  have most := left_le after
  omega

/-- The writer is on its way into pop as the log is destroyed, and the destructor does not
return. -/
theorem destructor_returns_never : ∃ last : Log Unit Nat, last.main = .joining ∧
    last.writer = .popping ∧ last.deque.pops () = .waiting ∧ last.deque.isClose = true := by
  have destructed : Reached 1 (_ : Log Unit Nat) := .step .destruct .start rfl
  have drained : Reached 1 (_ : Log Unit Nat) := .step (.drain none) destructed rfl
  have closed : Reached 1 (_ : Log Unit Nat) := .step .close drained rfl
  have producers : Reached 1 (_ : Log Unit Nat) := .step .notifyProducers closed rfl
  refine ⟨_, ((destructor_returns producers rfl (.succ .pop rfl rfl .zero)).2 ?_).2 nofun⟩
  intro action quiet
  cases action <;> first | rfl | cases quiet

end Destructor

end Log

end StudyWebServer.WebServer.LogThread
