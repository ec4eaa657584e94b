import StudyWebServer.Library.CondVar
import Mathlib.Data.List.Perm.Basic
import Mathlib.Tactic.SplitIfs

/-!
ThreadPool of WebServer-master/code/pool: workers that take tasks from a queue and wait on
a condition variable while it is empty. What is done under the mutex is one step, since
nothing else touches the queue and isClosed, and the steps of all threads interleave.
-/

namespace StudyWebServer.WebServer.ThreadPool

open ThreadCount CondVar

/-- Where a thread stands in AddTask. -/
inductive AddAt where
  | idle
  /-- before notify_one -/
  | notifying
  deriving DecidableEq

/-- Where a worker stands in its loop. -/
inductive WorkerAt (Task : Type) where
  /-- before it has the mutex, at the start, behind a task or woken up -/
  | ready
  | running (task : Task)
  /-- in `cond.wait(locker)` -/
  | waiting
  | exited
  deriving DecidableEq

/-- Where the destructor stands. -/
inductive DestructorAt where
  | outside
  /-- before notify_all -/
  | notifying
  | done
  deriving DecidableEq

structure Pool (A W Task : Type) where
  tasks : List Task
  isClosed : Bool
  adds : A → AddAt
  workers : W → WorkerAt Task
  destructor : DestructorAt
  /-- the tasks in the order in which AddTask got them -/
  added : List Task
  /-- in the order in which the workers took them -/
  taken : List Task
  /-- in the order in which they came to an end -/
  finished : List Task

inductive Action (A W Task : Type) where
  | addTask (thread : A) (task : Task)
  /-- notify_one, with the worker that it wakes -/
  | notifyOne (thread : A) (woken : Option W)
  | work (worker : W)
  | finish (worker : W)
  /-- a wait that returns without a notification -/
  | wake (worker : W)
  | close
  | notifyAll

def waiting {Task : Type} : WorkerAt Task → Bool
  | .waiting => true
  | _ => false

def ready {Task : Type} : WorkerAt Task → Bool
  | .ready => true
  | _ => false

theorem waiting_not_ready {Task : Type} (place : WorkerAt Task) (asleep : waiting place = true) :
    ready place = false := by
  cases place with
  | ready => cases asleep
  | running => rfl
  | waiting => rfl
  | exited => rfl

/-- The condition variable. -/
def cond (Task : Type) : Waiting (WorkerAt Task) where
  asleep := waiting
  ready := ready
  awake _ := .ready
  apart := waiting_not_ready
  wakes _ _ := rfl

namespace Pool
variable {A W Task : Type}

def start : Pool A W Task where
  tasks := []
  isClosed := false
  adds _ := .idle
  workers _ := .ready
  destructor := .outside
  added := []
  taken := []
  finished := []

variable [DecidableEq W]

def workTo (p : Pool A W Task) (worker : W) (place : WorkerAt Task) : Pool A W Task :=
  { p with workers := Function.update p.workers worker place }

theorem work_to_same (p : Pool A W Task) (worker : W) (place : WorkerAt Task) :
    (p.workTo worker place).workers worker = place := Function.update_self ..

theorem work_to_other (p : Pool A W Task) {worker other : W} (apart : other ≠ worker)
    (place : WorkerAt Task) : (p.workTo worker place).workers other = p.workers other :=
  Function.update_of_ne apart ..

/-- What a worker does under the mutex. -/
def work (p : Pool A W Task) (worker : W) : Option (Pool A W Task) :=
  match p.workers worker with
  | .ready =>
      match p.tasks with
      | task :: rest =>
          some { p.workTo worker (.running task) with tasks := rest, taken := p.taken ++ [task] }
      | [] => some (p.workTo worker (if p.isClosed then .exited else .waiting))
  | _ => none

def finish (p : Pool A W Task) (worker : W) : Option (Pool A W Task) :=
  match p.workers worker with
  | .running task => some { p.workTo worker .ready with finished := p.finished ++ [task] }
  | _ => none

def wake (p : Pool A W Task) (worker : W) : Option (Pool A W Task) :=
  match p.workers worker with
  | .waiting => some (p.workTo worker .ready)
  | _ => none

variable [DecidableEq A]

def addTo (p : Pool A W Task) (thread : A) (place : AddAt) : Pool A W Task :=
  { p with adds := Function.update p.adds thread place }

/-- The pool is not used any more when it is destroyed. -/
def addTask (p : Pool A W Task) (thread : A) (task : Task) : Option (Pool A W Task) :=
  if p.adds thread = .idle ∧ p.destructor = .outside then
    some { p.addTo thread .notifying with tasks := p.tasks ++ [task], added := p.added ++ [task] }
  else none

/-- What a step can do. -/
inductive Change (p : Pool A W Task) : Pool A W Task → Prop where
  | added (thread : A) (task : Task) (idle : p.adds thread = .idle)
      (outside : p.destructor = .outside) : Change p { p.addTo thread .notifying with
        tasks := p.tasks ++ [task], added := p.added ++ [task] }
  | taken (worker : W) (task : Task) (rest : List Task) (ready : p.workers worker = .ready)
      (tasks : p.tasks = task :: rest) : Change p { p.workTo worker (.running task) with
        tasks := rest, taken := p.taken ++ [task] }
  | slept (worker : W) (ready : p.workers worker = .ready) (empty : p.tasks = [])
      (isOpen : p.isClosed = false) : Change p (p.workTo worker .waiting)
  | exited (worker : W) (ready : p.workers worker = .ready) (empty : p.tasks = [])
      (closed : p.isClosed = true) : Change p (p.workTo worker .exited)
  | finished (worker : W) (task : Task) (running : p.workers worker = .running task) :
      Change p { p.workTo worker .ready with finished := p.finished ++ [task] }
  | woken (worker : W) (waiting : p.workers worker = .waiting) : Change p (p.workTo worker .ready)
  | notified (thread : A) (workers : W → WorkerAt Task) (notifying : p.adds thread = .notifying)
      (woken : NotifyOne (cond Task) p.workers workers) :
      Change p { p.addTo thread .idle with workers := workers }
  | closed (outside : p.destructor = .outside) (idle : ∀ thread, p.adds thread = .idle) :
      Change p { p with isClosed := true, destructor := .notifying }
  | notifiedAll (notifying : p.destructor = .notifying) : Change p { p with
        workers := CondVar.notifyAll (cond Task) p.workers, destructor := .done }

variable [Fintype A] [Fintype W]

def notifyOne (p : Pool A W Task) (thread : A) (woken : Option W) : Option (Pool A W Task) :=
  if p.adds thread = .notifying then
    (notify (cond Task) p.workers woken).map fun workers =>
      { p.addTo thread .idle with workers := workers }
  else none

def close (p : Pool A W Task) : Option (Pool A W Task) :=
  if p.destructor = .outside ∧ ∀ thread, p.adds thread = .idle then
    some { p with isClosed := true, destructor := .notifying }
  else none

def notifyAll (p : Pool A W Task) : Option (Pool A W Task) :=
  if p.destructor = .notifying then
    some { p with workers := CondVar.notifyAll (cond Task) p.workers, destructor := .done }
  else none

def step (p : Pool A W Task) : Action A W Task → Option (Pool A W Task)
  | .addTask thread task => p.addTask thread task
  | .notifyOne thread woken => p.notifyOne thread woken
  | .work worker => p.work worker
  | .finish worker => p.finish worker
  | .wake worker => p.wake worker
  | .close => p.close
  | .notifyAll => p.notifyAll

inductive Reached : Pool A W Task → Prop where
  | start : Reached start
  | step {p next : Pool A W Task} (action : Action A W Task) (reached : Reached p)
      (stepped : p.step action = some next) : Reached next

theorem change_of_step {p next : Pool A W Task} {action : Action A W Task}
    (stepped : p.step action = some next) : Change p next := by
  cases action with
  | addTask thread task =>
      obtain ⟨⟨idle, outside⟩, same⟩ := Option.ite_none_right_eq_some.mp stepped
      cases same
      exact .added thread task idle outside
  | notifyOne thread woken =>
      obtain ⟨notifying, after⟩ := Option.ite_none_right_eq_some.mp stepped
      obtain ⟨workers, woken, same⟩ := Option.map_eq_some_iff.mp after
      cases same
      exact .notified thread workers notifying (notify_one_of_notify woken)
  | work worker =>
      dsimp only [step] at stepped
      unfold work at stepped
      split at stepped
      · next ready =>
          split at stepped
          · next task rest tasks =>
              cases stepped
              exact .taken worker task rest ready tasks
          · next empty =>
              cases stepped
              split_ifs with closed
              · exact .exited worker ready empty closed
              · exact .slept worker ready empty (Bool.eq_false_iff.mpr closed)
      · cases stepped
  | finish worker =>
      dsimp only [step] at stepped
      unfold finish at stepped
      split at stepped
      · next task running =>
          cases stepped
          exact .finished worker task running
      · cases stepped
  | wake worker =>
      dsimp only [step] at stepped
      unfold wake at stepped
      split at stepped
      · next waiting =>
          cases stepped
          exact .woken worker waiting
      · cases stepped
  | close =>
      obtain ⟨⟨outside, idle⟩, same⟩ := Option.ite_none_right_eq_some.mp stepped
      cases same
      exact .closed outside idle
  | notifyAll =>
      obtain ⟨notifying, same⟩ := Option.ite_none_right_eq_some.mp stepped
      cases same
      exact .notifiedAll notifying

end Pool

end StudyWebServer.WebServer.ThreadPool
