import StudyWebServer.WebServer.ThreadPool

/-!
What holds of the pool after any steps of its threads: every task is taken once, in order,
none waits while only sleeping workers could take it, and its end leaves none behind.
-/

namespace StudyWebServer.WebServer.ThreadPool

open ThreadCount CondVar

namespace Pool
variable {A W Task : Type} [DecidableEq W] {p next : Pool A W Task}

def notifying (place : AddAt) : Bool := place = .notifying

section Fifo

theorem fifo_step [DecidableEq A] (change : Change p next) (fifo : p.taken ++ p.tasks = p.added) :
    next.taken ++ next.tasks = next.added := by
  cases change with
  | added thread task idle outside =>
      show p.taken ++ (p.tasks ++ [task]) = p.added ++ [task]
      rw [← fifo, List.append_assoc]
  | taken worker task rest ready tasks =>
      show (p.taken ++ [task]) ++ rest = p.added
      rw [← fifo, tasks, List.append_assoc]
      rfl
  | slept => exact fifo
  | exited => exact fifo
  | finished => exact fifo
  | woken => exact fifo
  | notified => exact fifo
  | closed => exact fifo
  | notifiedAll => exact fifo

end Fifo

section Balance
variable [DecidableEq Task] [Fintype W]

def runs (task : Task) (place : WorkerAt Task) : Bool := place = .running task

theorem runs_awake (task : Task) (place : WorkerAt Task)
    (asleep : (cond Task).asleep place = true) :
    runs task ((cond Task).awake place) = runs task place := by
  cases place with
  | waiting => rfl
  | ready => cases asleep
  | running => cases asleep
  | exited => cases asleep

/-- A task that was taken came to an end or is running. -/
def Balanced (p : Pool A W Task) : Prop :=
  ∀ task, p.taken.count task = p.finished.count task + standing p.workers (runs task)

theorem balanced_of_stays {worker : W} {place : WorkerAt Task} (balanced : Balanced p)
    (before : ∀ task, p.workers worker ≠ .running task) (after : ∀ task, place ≠ .running task) :
    Balanced (p.workTo worker place) := by
  intro task
  have same : runs task place = runs task (p.workers worker) := by
    unfold runs
    rw [decide_eq_false (after task), decide_eq_false (before task)]
  show p.taken.count task = p.finished.count task +
    standing (Function.update p.workers worker place) (runs task)
  rw [standing_stays same]
  exact balanced task

theorem balance_step [DecidableEq A] (change : Change p next)
    (balanced : Balanced p) : Balanced next := by
  cases change with
  | added thread task idle outside => exact balanced
  | taken worker task rest ready tasks =>
      intro other
      show (p.taken ++ [task]).count other = p.finished.count other +
        standing (Function.update p.workers worker (.running task)) (runs other)
      have before : runs other (p.workers worker) = false := by
        rw [ready]
        rfl
      rw [List.count_append, balanced other]
      by_cases same : task = other
      · subst same
        rw [standing_enters before (decide_eq_true rfl), List.count_singleton_self]
        rfl
      · have apart : runs other (.running task) = false :=
          decide_eq_false fun equal => same (by cases equal; rfl)
        rw [standing_stays (apart.trans before.symm), List.count_eq_zero_of_not_mem
          (fun member => same (List.mem_singleton.mp member).symm)]
        rfl
  | slept worker ready empty isOpen =>
      exact balanced_of_stays balanced (by simp [ready]) (by simp)
  | exited worker ready empty closed =>
      exact balanced_of_stays balanced (by simp [ready]) (by simp)
  | finished worker task running =>
      intro other
      show p.taken.count other = (p.finished ++ [task]).count other +
        standing (Function.update p.workers worker .ready) (runs other)
      rw [List.count_append, balanced other]
      by_cases same : task = other
      · subst same
        have before : runs task (p.workers worker) = true := decide_eq_true running
        have left := standing_leaves before (show runs task .ready = false from rfl)
        rw [List.count_singleton_self]
        omega
      · have before : runs other (p.workers worker) = false := by
          rw [running]
          exact decide_eq_false fun equal => same (by cases equal; rfl)
        rw [standing_stays (before.symm ▸ rfl), List.count_eq_zero_of_not_mem
          (fun member => same (List.mem_singleton.mp member).symm), Nat.add_zero]
  | woken worker waiting => exact balanced_of_stays balanced (by simp [waiting]) (by simp)
  | notified thread workers called woken =>
      intro task
      exact (balanced task).trans
        (congrArg (p.finished.count task + ·) (woken.standing (runs_awake task)).symm)
  | closed => exact balanced
  | notifiedAll notifying =>
      intro task
      exact (balanced task).trans
        (congrArg (p.finished.count task + ·) (standing_notify_all (runs_awake task)).symm)

end Balance

section Wakeups
variable [DecidableEq A] [Fintype A] [Fintype W]

/-- No task is overlooked while a worker is asleep. -/
def Noticed (p : Pool A W Task) : Prop :=
  Covered (cond Task) p.workers p.tasks.length (standing p.adds notifying)

theorem noticed_step (change : Change p next) (noticed : Noticed p) : Noticed next := by
  unfold Noticed at noticed ⊢
  cases change with
  | added thread task idle outside =>
      have more : standing (Function.update p.adds thread .notifying) notifying =
          standing p.adds notifying + 1 := standing_enters (by rw [idle]; rfl) rfl
      show Covered _ p.workers (p.tasks ++ [task]).length
        (standing (Function.update p.adds thread .notifying) notifying)
      rw [more, List.length_append]
      exact noticed.produce
  | taken worker task rest ready tasks =>
      rw [tasks] at noticed
      refine noticed.move rfl ?_
      rw [ready]
      exact Nat.le_refl _
  | slept worker ready empty isOpen =>
      show Covered _ _ p.tasks.length _
      rw [empty]
      exact .nothing
  | exited worker ready empty closed =>
      show Covered _ _ p.tasks.length _
      rw [empty]
      exact .nothing
  | finished worker task running =>
      refine noticed.move rfl ?_
      rw [running]
      exact Nat.le_succ _
  | woken worker waiting =>
      refine noticed.move rfl ?_
      rw [waiting]
      exact Nat.le_succ _
  | notified thread workers called woken =>
      have fewer : standing (Function.update p.adds thread .idle) notifying + 1 =
          standing p.adds notifying := standing_leaves (by rw [called]; rfl) rfl
      rw [← fewer] at noticed
      exact noticed.notify woken
  | closed => exact noticed
  | notifiedAll called => exact .awake (fun worker => notify_all_awake worker)

end Wakeups

section Shutdown

/-- The end of the pool, as far as it has come. -/
structure Shutdown (p : Pool A W Task) : Prop where
  closed : p.isClosed = true ↔ p.destructor ≠ .outside
  idle : p.destructor ≠ .outside → ∀ thread, p.adds thread = .idle
  exited : ∀ worker, p.workers worker = .exited → p.isClosed = true ∧ p.tasks = []
  awake : p.destructor = .done → ∀ worker, waiting (p.workers worker) = false

/-- A worker moves to a place from where it goes on. -/
theorem Shutdown.work (shutdown : Shutdown p) {worker : W} {place : WorkerAt Task}
    (stays : place ≠ .exited) (awake : p.destructor = .done → waiting place = false) :
    Shutdown (p.workTo worker place) := by
  refine ⟨shutdown.closed, shutdown.idle, fun other exited => ?_, fun done other => ?_⟩
  · by_cases same : other = worker
    · subst same
      rw [work_to_same] at exited
      exact absurd exited stays
    · rw [work_to_other p same] at exited
      exact shutdown.exited other exited
  · by_cases same : other = worker
    · subst same
      rw [work_to_same]
      exact awake done
    · rw [work_to_other p same]
      exact shutdown.awake done other

omit [DecidableEq W] in
theorem Shutdown.outside (shutdown : Shutdown p) {thread : A}
    (called : p.adds thread = .notifying) :
    p.destructor = .outside := by
  by_contra behind
  rw [shutdown.idle behind thread] at called
  cases called

theorem shutdown_step [DecidableEq A] (change : Change p next)
    (shutdown : Shutdown p) : Shutdown next := by
  cases change with
  | added thread task idle outside =>
      have isOpen : ¬ p.isClosed = true := fun closed => shutdown.closed.mp closed outside
      exact ⟨shutdown.closed, fun behind => absurd outside behind,
        fun worker exited => absurd (shutdown.exited worker exited).1 isOpen, shutdown.awake⟩
  | taken worker task rest ready tasks =>
      have moved : Shutdown (p.workTo worker (.running task)) :=
        shutdown.work (by simp) fun _ => rfl
      refine ⟨moved.closed, moved.idle, fun other exited => ?_, moved.awake⟩
      -- whoever has left did so with no task in the queue
      have none := (moved.exited other exited).2
      rw [show (p.workTo worker (.running task)).tasks = p.tasks from rfl, tasks] at none
      cases none
  | slept worker ready empty isOpen =>
      have outside : p.destructor = .outside := by
        by_contra behind
        rw [shutdown.closed.mpr behind] at isOpen
        cases isOpen
      refine shutdown.work (by simp) fun done => ?_
      rw [outside] at done
      cases done
  | exited worker ready empty closed =>
      refine ⟨shutdown.closed, shutdown.idle, fun _ _ => ⟨closed, empty⟩, fun done other => ?_⟩
      by_cases same : other = worker
      · subst same
        rw [work_to_same]
        rfl
      · rw [work_to_other p same]
        exact shutdown.awake done other
  | finished worker task running =>
      have moved : Shutdown (p.workTo worker .ready) := shutdown.work (by simp) fun _ => rfl
      exact ⟨moved.closed, moved.idle, moved.exited, moved.awake⟩
  | woken worker asleep => exact shutdown.work (by simp) fun _ => rfl
  | notified thread workers called woken =>
      have outside := shutdown.outside called
      have before : Shutdown (p.addTo thread .idle) :=
        ⟨shutdown.closed, fun behind => absurd outside behind, shutdown.exited, shutdown.awake⟩
      cases woken with
      | one worker asleep => exact before.work (by simp [cond]) fun _ => rfl
      | nobody => exact before
  | closed outside idle =>
      refine ⟨iff_of_true rfl (by simp), fun _ => idle, fun worker exited => ?_,
        fun done => nomatch done⟩
      exact absurd outside (shutdown.closed.mp (shutdown.exited worker exited).1)
  | notifiedAll called =>
      have behind : p.destructor ≠ .outside := by simp [called]
      refine ⟨iff_of_true (shutdown.closed.mpr behind) (by simp), fun _ => shutdown.idle behind,
        fun worker exited => shutdown.exited worker ?_, fun _ worker => ?_⟩
      swap
      · exact (notify_all_awake worker : (cond Task).asleep
          (CondVar.notifyAll (cond Task) p.workers worker) = false)
      change CondVar.notifyAll (cond Task) p.workers worker = .exited at exited
      unfold CondVar.notifyAll at exited
      split at exited
      · cases exited
      · exact exited

end Shutdown

section Runs
variable [DecidableEq A] [DecidableEq Task] [Fintype A] [Fintype W]

structure Sound (p : Pool A W Task) : Prop where
  fifo : p.taken ++ p.tasks = p.added
  balanced : Balanced p
  noticed : Noticed p
  shutdown : Shutdown p

theorem Sound.step (sound : Sound p) (change : Change p next) : Sound next :=
  ⟨fifo_step change sound.fifo, balance_step change sound.balanced,
    noticed_step change sound.noticed, shutdown_step change sound.shutdown⟩

omit [DecidableEq W] [DecidableEq A] in
theorem sound_start : Sound (start : Pool A W Task) where
  fifo := rfl
  balanced := fun task => by
    have none : standing (start : Pool A W Task).workers (runs task) = 0 :=
      standing_eq_zero fun _ => rfl
    rw [none]
    rfl
  noticed := .nothing
  shutdown := ⟨iff_of_false (by simp [start]) (by simp [start]), fun _ _ => rfl,
    (fun _ exited => nomatch exited), fun _ _ => rfl⟩

theorem Reached.sound (reached : Reached p) : Sound p := by
  induction reached with
  | start => exact sound_start
  | step action reached stepped ih => exact ih.step (change_of_step stepped)

/-- The tasks are taken in the order of the calls to AddTask, each of them once, and each
that was taken is running or came to its end. -/
theorem tasks_taken_in_order (reached : Reached p) : p.taken ++ p.tasks = p.added ∧
    ∀ task, p.taken.count task = p.finished.count task + standing p.workers (runs task) :=
  ⟨reached.sound.fifo, reached.sound.balanced⟩

theorem tasks_taken_in_order_one : ∃ p : Pool Unit Unit Nat, p.taken ++ p.tasks = p.added ∧
    ∀ task, p.taken.count task = p.finished.count task + standing p.workers (runs task) :=
  have added : Reached (_ : Pool Unit Unit Nat) := .step (.addTask () 7) .start rfl
  have taken : Reached (_ : Pool Unit Unit Nat) := .step (.work ()) added rfl
  ⟨_, tasks_taken_in_order taken⟩

/-- While a worker sleeps there is for every task in the queue a worker that is about to look
at it, or a call to AddTask that is about to wake one. -/
theorem no_task_overlooked (reached : Reached p) (worker : W)
    (asleep : p.workers worker = .waiting) :
    p.tasks.length ≤ standing p.workers ready + standing p.adds notifying :=
  reached.sound.noticed worker (by rw [asleep]; rfl)

theorem no_task_overlooked_one : ∃ p : Pool Unit Unit Nat,
    p.tasks.length ≤ standing p.workers ready + standing p.adds notifying :=
  have slept : Reached (_ : Pool Unit Unit Nat) := .step (.work ()) .start rfl
  have added : Reached (_ : Pool Unit Unit Nat) := .step (.addTask () 7) slept rfl
  ⟨_, no_task_overlooked added () rfl⟩

end Runs

section End
variable [DecidableEq A] [Fintype W]

def busy : WorkerAt Task → Bool
  | .running _ => true
  | _ => false

/-- The steps that are left once the destructor has returned. -/
def left (p : Pool A W Task) : Nat :=
  2 * p.tasks.length + standing p.workers ready + 2 * standing p.workers busy

theorem left_decreases (change : Change p next) (shutdown : Shutdown p)
    (done : p.destructor = .done) : left next + 1 = left p ∧ next.destructor = .done := by
  have behind : p.destructor ≠ .outside := by simp [done]
  have awake := shutdown.awake done
  cases change with
  | added thread task idle outside => exact absurd outside behind
  | taken worker task rest isReady tasks =>
      have fewer : standing (Function.update p.workers worker (.running task)) ready + 1 =
          standing p.workers ready := standing_leaves (by rw [isReady]; rfl) rfl
      have more : standing (Function.update p.workers worker (.running task)) busy =
          standing p.workers busy + 1 := standing_enters (by rw [isReady]; rfl) rfl
      refine ⟨?_, done⟩
      show 2 * rest.length + _ + 2 * _ + 1 = 2 * p.tasks.length + _ + 2 * _
      rw [tasks, List.length_cons]
      show 2 * rest.length + standing (Function.update p.workers worker (.running task)) ready +
        2 * standing (Function.update p.workers worker (.running task)) busy + 1 = _
      omega
  | slept worker isReady empty isOpen =>
      rw [shutdown.closed.mpr behind] at isOpen
      cases isOpen
  | exited worker isReady empty closed =>
      have fewer : standing (Function.update p.workers worker .exited) ready + 1 =
          standing p.workers ready := standing_leaves (by rw [isReady]; rfl) rfl
      have same : standing (Function.update p.workers worker .exited) busy =
          standing p.workers busy := standing_stays (by rw [isReady]; rfl)
      refine ⟨?_, done⟩
      show 2 * p.tasks.length + standing (Function.update p.workers worker .exited) ready +
        2 * standing (Function.update p.workers worker .exited) busy + 1 = left p
      unfold left
      omega
  | finished worker task running =>
      have more : standing (Function.update p.workers worker .ready) ready =
          standing p.workers ready + 1 := standing_enters (by rw [running]; rfl) rfl
      have fewer : standing (Function.update p.workers worker .ready) busy + 1 =
          standing p.workers busy := standing_leaves (by rw [running]; rfl) rfl
      refine ⟨?_, done⟩
      show 2 * p.tasks.length + standing (Function.update p.workers worker .ready) ready +
        2 * standing (Function.update p.workers worker .ready) busy + 1 = left p
      unfold left
      omega
  | woken worker asleep =>
      have none := awake worker
      rw [asleep] at none
      cases none
  | notified thread workers called woken => exact absurd (shutdown.outside called) behind
  | closed outside idle => exact absurd outside behind
  | notifiedAll called =>
      rw [done] at called
      cases called

variable [Fintype A]

inductive Steps : Nat → Pool A W Task → Pool A W Task → Prop where
  | zero {p : Pool A W Task} : Steps 0 p p
  | succ {k : Nat} {p next last : Pool A W Task} (action : Action A W Task)
      (stepped : p.step action = some next) (steps : Steps k next last) : Steps (k + 1) p last

/-- Nothing can happen any more only when all workers have left. -/
theorem all_exited (shutdown : Shutdown p) (done : p.destructor = .done)
    (stuck : ∀ action, p.step action = none) (worker : W) : p.workers worker = .exited := by
  cases place : p.workers worker with
  | ready =>
      have none := stuck (.work worker)
      dsimp only [step] at none
      unfold work at none
      rw [place] at none
      dsimp only at none
      split at none <;> cases none
  | running task =>
      have none := stuck (.finish worker)
      dsimp only [step] at none
      unfold finish at none
      rw [place] at none
      cases none
  | waiting =>
      have none := shutdown.awake done worker
      rw [place] at none
      cases none
  | exited => rfl

/-- Behind the destructor only so many steps are left, and when no more is possible all
workers have left and every task has come to its end. -/
theorem shutdown_ends [DecidableEq Task] [Nonempty W] {k : Nat} (reached : Reached p)
    (done : p.destructor = .done) (steps : Steps k p next) : k ≤ left p ∧
    ((∀ action, next.step action = none) →
      (∀ worker, next.workers worker = .exited) ∧ next.finished.Perm next.added) := by
  induction steps with
  | @zero p =>
      have sound := reached.sound
      refine ⟨Nat.zero_le _, fun stuck => ?_⟩
      have exited := all_exited sound.shutdown done stuck
      refine ⟨exited, List.perm_iff_count.mpr fun task => ?_⟩
      have none : standing p.workers (runs task) = 0 := standing_eq_zero fun worker => by
        rw [exited worker]
        rfl
      have balanced := sound.balanced task
      have fifo := sound.fifo
      obtain ⟨worker⟩ := ‹Nonempty W›
      rw [(sound.shutdown.exited worker (exited worker)).2, List.append_nil] at fifo
      rw [none, fifo] at balanced
      exact balanced.symm
  | succ action stepped steps ih =>
      have change := change_of_step stepped
      obtain ⟨fewer, still⟩ := left_decreases change reached.sound.shutdown done
      obtain ⟨bound, ends⟩ := ih (.step action reached stepped) still
      exact ⟨by omega, ends⟩

/-- A task that nobody has taken when the destructor comes. -/
theorem shutdown_ends_one : ∃ p next : Pool Unit Unit Nat, p.tasks = [7] ∧ 3 ≤ left p ∧
    next.workers () = .exited ∧ next.finished.Perm [7] := by
  have added : Reached (_ : Pool Unit Unit Nat) := .step (.addTask () 7) .start rfl
  have notified : Reached (_ : Pool Unit Unit Nat) := .step (.notifyOne () none) added rfl
  have closed : Reached (_ : Pool Unit Unit Nat) := .step .close notified rfl
  have done : Reached (_ : Pool Unit Unit Nat) := .step .notifyAll closed rfl
  obtain ⟨bound, ends⟩ := shutdown_ends done rfl
    (.succ (.work ()) rfl (.succ (.finish ()) rfl (.succ (.work ()) rfl .zero)))
  obtain ⟨exited, finished⟩ := ends fun action => by
    cases action with
    | notifyOne thread woken => cases woken <;> rfl
    | _ => rfl
  exact ⟨_, _, rfl, bound, exited (), finished⟩

end End

end Pool

end StudyWebServer.WebServer.ThreadPool
