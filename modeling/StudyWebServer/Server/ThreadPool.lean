import StudyWebServer.Library.Mutex
import StudyWebServer.Library.ThreadCount
import Mathlib.Data.List.Range
import Mathlib.Logic.Relation

/-!
append and run of threadpool.h, one lock, list or semaphore operation at a time,
for any number of threads on either side. The destructor is left out, so that
m_stop stays false.
-/

namespace StudyWebServer.ThreadPool

open ThreadCount

/-- Where a thread stands in append(request). -/
inductive AppendAt (T : Type) where
  | idle
  | locking (request : Option T)
  | checking (request : Option T)
  /-- before the unlock and `return false` -/
  | refusing (request : Option T)
  | pushing (request : Option T)
  | unlocking (request : Option T)
  | posting (request : Option T)
  | returned (request : Option T) (result : Bool)

/-- Where a worker stands in run(). -/
inductive WorkerAt (T : Type) where
  /-- in m_queuestat.wait() -/
  | waiting
  | locking
  | checking
  /-- before the unlock and `continue` -/
  | skipping
  | taking
  | unlocking (request : Option T)
  | processing (request : T)

/-- A request is a pointer, which may be null. -/
structure Pool (A W T : Type) where
  maxRequests : Nat
  workqueue : List (Option T)
  /-- the thread that holds m_queuelocker -/
  queuelocker : Option (A ⊕ W)
  /-- the value of m_queuestat -/
  queuestat : Nat
  appends : A → AppendAt T
  workers : W → WorkerAt T

inductive Action (A W T : Type) where
  | call (thread : A) (request : Option T)
  | append (thread : A)
  | work (worker : W)

section Steps
variable {A W T : Type} [DecidableEq A] [DecidableEq W]

def Pool.appendTo (p : Pool A W T) (thread : A) (place : AppendAt T) : Pool A W T :=
  { p with appends := Function.update p.appends thread place }

def Pool.workTo (p : Pool A W T) (worker : W) (place : WorkerAt T) : Pool A W T :=
  { p with workers := Function.update p.workers worker place }

def Pool.withLock (p : Pool A W T) (owner : Option (A ⊕ W)) : Pool A W T :=
  { p with queuelocker := owner }

def Pool.withQueue (p : Pool A W T) (queue : List (Option T)) : Pool A W T :=
  { p with workqueue := queue }

def Pool.withValue (p : Pool A W T) (value : Nat) : Pool A W T := { p with queuestat := value }

def Pool.call (p : Pool A W T) (thread : A) (request : Option T) : Option (Pool A W T) :=
  match p.appends thread with
  | .idle | .returned _ _ => some (p.appendTo thread (.locking request))
  | _ => none

/-- The next operation of a thread in append; there is none while it has to wait
for the lock. -/
def Pool.append (p : Pool A W T) (thread : A) : Option (Pool A W T) :=
  match p.appends thread with
  | .idle | .returned _ _ => none
  | .locking request =>
      if p.queuelocker.isNone then
        some ((p.appendTo thread (.checking request)).withLock (some (.inl thread)))
      else none
  | .checking request =>
      if p.maxRequests < p.workqueue.length then some (p.appendTo thread (.refusing request))
      else some (p.appendTo thread (.pushing request))
  | .refusing request => some ((p.appendTo thread (.returned request false)).withLock none)
  | .pushing request =>
      some ((p.appendTo thread (.unlocking request)).withQueue (p.workqueue ++ [request]))
  | .unlocking request => some ((p.appendTo thread (.posting request)).withLock none)
  | .posting request =>
      some ((p.appendTo thread (.returned request true)).withValue (p.queuestat + 1))

/-- The next operation of a worker; front() on an empty queue has no meaning. -/
def Pool.work (p : Pool A W T) (worker : W) : Option (Pool A W T) :=
  match p.workers worker with
  | .waiting =>
      match p.queuestat with
      | 0 => none
      | value + 1 => some ((p.workTo worker .locking).withValue value)
  | .locking =>
      if p.queuelocker.isNone then
        some ((p.workTo worker .checking).withLock (some (.inr worker)))
      else none
  | .checking =>
      if p.workqueue.isEmpty then some (p.workTo worker .skipping)
      else some (p.workTo worker .taking)
  | .skipping => some ((p.workTo worker .waiting).withLock none)
  | .taking =>
      match p.workqueue with
      | [] => none
      | request :: rest => some ((p.workTo worker (.unlocking request)).withQueue rest)
  | .unlocking none => some ((p.workTo worker .waiting).withLock none)
  | .unlocking (some request) => some ((p.workTo worker (.processing request)).withLock none)
  | .processing _ => some (p.workTo worker .waiting)

def Pool.step (p : Pool A W T) : Action A W T → Option (Pool A W T)
  | .call thread request => p.call thread request
  | .append thread => p.append thread
  | .work worker => p.work worker

/-- The pool behind its constructor, the workers created. -/
def Pool.start (maxRequests : Nat) : Pool A W T where
  maxRequests := maxRequests
  workqueue := []
  queuelocker := none
  queuestat := 0
  appends _ := .idle
  workers _ := .waiting

structure Removal (W T : Type) where
  worker : W
  place : Nat
  request : Option T

/-- The pool with a record of its past. A request is named by its place among
those pushed, since the same pointer may come more than once. -/
structure Watched (A W T : Type) where
  pool : Pool A W T
  pushed : List (A × Option T)
  /-- the places of the requests in m_workqueue -/
  places : List Nat
  removed : List (Removal W T)
  /-- a step of the thread's last call changed the queue or the semaphore -/
  changed : A → Prop
  /-- the place that the thread's last call pushed to -/
  placed : A → Option Nat

def Watched.start (maxRequests : Nat) : Watched A W T :=
  ⟨.start maxRequests, [], [], [], fun _ => False, fun _ => none⟩

def Watched.recordAppend (s : Watched A W T) (thread : A) (next : Pool A W T) : Watched A W T :=
  let changed := Function.update s.changed thread (s.changed thread ∨
    next.workqueue ≠ s.pool.workqueue ∨ next.queuestat ≠ s.pool.queuestat)
  match s.pool.appends thread with
  | .pushing request => { s with
      pool := next
      pushed := s.pushed ++ [(thread, request)]
      places := s.places ++ [s.pushed.length]
      changed := changed
      placed := Function.update s.placed thread (some s.pushed.length) }
  | _ => { s with pool := next, changed := changed }

def Watched.recordWork (s : Watched A W T) (worker : W) (next : Pool A W T) : Watched A W T :=
  match s.pool.workers worker, s.pool.workqueue, s.places with
  | .taking, request :: _, place :: rest => { s with
      pool := next
      places := rest
      removed := s.removed ++ [⟨worker, place, request⟩] }
  | _, _, _ => { s with pool := next }

def Watched.record (s : Watched A W T) (action : Action A W T) (next : Pool A W T) :
    Watched A W T :=
  match action with
  | .call thread _ => { s with
      pool := next
      changed := Function.update s.changed thread False
      placed := Function.update s.placed thread none }
  | .append thread => s.recordAppend thread next
  | .work worker => s.recordWork worker next

def Watched.Step (s t : Watched A W T) : Prop :=
  ∃ action next, s.pool.step action = some next ∧ t = s.record action next

def Reachable (maxRequests : Nat) : Watched A W T → Prop :=
  Relation.ReflTransGen Watched.Step (.start maxRequests)

end Steps

section Moves
variable {A W T : Type} {p next : Pool A W T}

/-- What one step of a thread in append can do. -/
inductive AppendMove [DecidableEq A] (p : Pool A W T) (thread : A) : Pool A W T → Prop where
  | lock (request : Option T) : p.appends thread = .locking request → p.queuelocker = none →
      AppendMove p thread ((p.appendTo thread (.checking request)).withLock (some (.inl thread)))
  | full (request : Option T) : p.appends thread = .checking request →
      AppendMove p thread (p.appendTo thread (.refusing request))
  | room (request : Option T) : p.appends thread = .checking request →
      AppendMove p thread (p.appendTo thread (.pushing request))
  | refuse (request : Option T) : p.appends thread = .refusing request →
      AppendMove p thread ((p.appendTo thread (.returned request false)).withLock none)
  | push (request : Option T) : p.appends thread = .pushing request →
      AppendMove p thread
        ((p.appendTo thread (.unlocking request)).withQueue (p.workqueue ++ [request]))
  | unlock (request : Option T) : p.appends thread = .unlocking request →
      AppendMove p thread ((p.appendTo thread (.posting request)).withLock none)
  | post (request : Option T) : p.appends thread = .posting request →
      AppendMove p thread
        ((p.appendTo thread (.returned request true)).withValue (p.queuestat + 1))

theorem append_moves [DecidableEq A] {thread : A} (step : p.append thread = some next) :
    AppendMove p thread next := by
  unfold Pool.append at step
  cases here : p.appends thread with
  | idle => simp [here] at step
  | returned request result => simp [here] at step
  | locking request =>
      simp only [here, Option.isNone_iff_eq_none] at step
      split at step
      · next free =>
          cases step
          exact .lock request here free
      · cases step
  | checking request =>
      simp only [here] at step
      split at step
      · cases step
        exact .full request here
      · cases step
        exact .room request here
  | refusing request =>
      simp only [here, Option.some.injEq] at step
      exact step ▸ .refuse request here
  | pushing request =>
      simp only [here, Option.some.injEq] at step
      exact step ▸ .push request here
  | unlocking request =>
      simp only [here, Option.some.injEq] at step
      exact step ▸ .unlock request here
  | posting request =>
      simp only [here, Option.some.injEq] at step
      exact step ▸ .post request here

/-- What one step of a worker can do. -/
inductive WorkMove [DecidableEq W] (p : Pool A W T) (worker : W) : Pool A W T → Prop where
  | wake (value : Nat) : p.workers worker = .waiting → p.queuestat = value + 1 →
      WorkMove p worker ((p.workTo worker .locking).withValue value)
  | lock : p.workers worker = .locking → p.queuelocker = none →
      WorkMove p worker ((p.workTo worker .checking).withLock (some (.inr worker)))
  | empty : p.workers worker = .checking → p.workqueue = [] →
      WorkMove p worker (p.workTo worker .skipping)
  | some : p.workers worker = .checking → p.workqueue ≠ [] →
      WorkMove p worker (p.workTo worker .taking)
  | skip : p.workers worker = .skipping →
      WorkMove p worker ((p.workTo worker .waiting).withLock none)
  | take (request : Option T) (rest : List (Option T)) : p.workers worker = .taking →
      p.workqueue = request :: rest →
      WorkMove p worker ((p.workTo worker (.unlocking request)).withQueue rest)
  | unlock (request : Option T) (place : WorkerAt T) : p.workers worker = .unlocking request →
      place = .waiting ∨ (∃ found, place = .processing found) →
      WorkMove p worker ((p.workTo worker place).withLock none)
  | process (request : T) : p.workers worker = .processing request →
      WorkMove p worker (p.workTo worker .waiting)

theorem work_moves [DecidableEq W] {worker : W} (step : p.work worker = some next) :
    WorkMove p worker next := by
  unfold Pool.work at step
  cases here : p.workers worker with
  | waiting =>
      simp only [here] at step
      split at step
      · cases step
      · next value stands =>
          cases step
          exact .wake value here stands
  | locking =>
      simp only [here, Option.isNone_iff_eq_none] at step
      split at step
      · next free =>
          cases step
          exact .lock here free
      · cases step
  | checking =>
      simp only [here, List.isEmpty_iff] at step
      split at step
      · next none =>
          cases step
          exact .empty here none
      · next found =>
          cases step
          exact .some here found
  | skipping =>
      simp only [here, Option.some.injEq] at step
      exact step ▸ .skip here
  | taking =>
      simp only [here] at step
      split at step
      · cases step
      · next request rest queue =>
          cases step
          exact .take request rest here queue
  | unlocking request =>
      cases request with
      | none =>
          simp only [here, Option.some.injEq] at step
          exact step ▸ .unlock none .waiting here (.inl rfl)
      | some request =>
          simp only [here, Option.some.injEq] at step
          exact step ▸ .unlock _ _ here (.inr ⟨request, rfl⟩)
  | processing request =>
      simp only [here, Option.some.injEq] at step
      exact step ▸ .process request here

theorem call_moves [DecidableEq A] {thread : A} {request : Option T}
    (step : p.call thread request = some next) :
    next = p.appendTo thread (.locking request) ∧
      (p.appends thread = .idle ∨ ∃ before result, p.appends thread = .returned before result) := by
  unfold Pool.call at step
  cases here : p.appends thread with
  | idle =>
      simp only [here, Option.some.injEq] at step
      exact ⟨step.symm, .inl rfl⟩
  | returned before result =>
      simp only [here, Option.some.injEq] at step
      exact ⟨step.symm, .inr ⟨before, result, rfl⟩⟩
  | _ => simp [here] at step

end Moves

section Balance
variable {A W T : Type} [Fintype A] [Fintype W] {p next : Pool A W T}

/-- Between the end of wait() and pop_front. -/
def WorkerAt.between : WorkerAt T → Bool
  | .locking | .checking | .skipping | .taking => true
  | .waiting | .unlocking _ | .processing _ => false

/-- Between push_back and post(). -/
def AppendAt.unposted : AppendAt T → Bool
  | .unlocking _ | .posting _ => true
  | _ => false

/-- Every queued request has its count of the semaphore: still there, with a worker
that waited it away, or with a thread that has yet to post it. -/
structure Balanced (p : Pool A W T) : Prop where
  length : p.workqueue.length = p.queuestat + standing p.workers WorkerAt.between +
    standing p.appends AppendAt.unposted
  served : ∀ worker, p.workers worker ≠ .skipping

/-- A worker that was let through finds something. -/
theorem Balanced.found (balanced : Balanced p) {worker : W}
    (between : (p.workers worker).between = true) : p.workqueue ≠ [] := by
  have one := standing_pos between
  have length := balanced.length
  intro none
  rw [none, List.length_nil] at length
  omega

theorem Balanced.withLock (balanced : Balanced p) (owner : Option (A ⊕ W)) :
    Balanced (p.withLock owner) := ⟨balanced.length, balanced.served⟩

theorem Balanced.appends [DecidableEq A] (balanced : Balanced p) {thread : A} {place : AppendAt T}
    (same : place.unposted = (p.appends thread).unposted) :
    Balanced (p.appendTo thread place) := by
  refine ⟨?_, balanced.served⟩
  have length := balanced.length
  have stays : standing (Function.update p.appends thread place) AppendAt.unposted = _ :=
    standing_stays same
  show p.workqueue.length = p.queuestat + standing p.workers WorkerAt.between +
    standing (Function.update p.appends thread place) AppendAt.unposted
  rw [stays]
  exact length

omit [Fintype A] [Fintype W] in
theorem served_update [DecidableEq W] (served : ∀ worker, p.workers worker ≠ .skipping) {worker : W}
    {place : WorkerAt T} (other : place ≠ .skipping) :
    ∀ anyone, Function.update p.workers worker place anyone ≠ .skipping := by
  intro anyone
  by_cases same : anyone = worker
  · rw [same, Function.update_self]
    exact other
  · rw [Function.update_of_ne same]
    exact served anyone

theorem Balanced.works [DecidableEq W] (balanced : Balanced p) {worker : W} {place : WorkerAt T}
    (same : place.between = (p.workers worker).between) (served : place ≠ .skipping) :
    Balanced (p.workTo worker place) := by
  refine ⟨?_, served_update balanced.served served⟩
  have length := balanced.length
  have stays : standing (Function.update p.workers worker place) WorkerAt.between = _ :=
    standing_stays same
  show p.workqueue.length = p.queuestat +
    standing (Function.update p.workers worker place) WorkerAt.between +
    standing p.appends AppendAt.unposted
  rw [stays]
  exact length

theorem Balanced.call [DecidableEq A] {thread : A} {request : Option T} (balanced : Balanced p)
    (step : p.call thread request = some next) : Balanced next := by
  obtain ⟨rfl, here | ⟨before, result, here⟩⟩ := call_moves step
  · exact balanced.appends (by rw [here]; rfl)
  · exact balanced.appends (by rw [here]; rfl)

theorem Balanced.append [DecidableEq A] {thread : A} (balanced : Balanced p)
    (step : p.append thread = some next) : Balanced next := by
  have length := balanced.length
  cases append_moves step with
  | lock request here free => exact .withLock (balanced.appends (by rw [here]; rfl)) _
  | full request here => exact balanced.appends (by rw [here]; rfl)
  | room request here => exact balanced.appends (by rw [here]; rfl)
  | refuse request here => exact .withLock (balanced.appends (by rw [here]; rfl)) _
  | unlock request here => exact .withLock (balanced.appends (by rw [here]; rfl)) _
  | push request here =>
      refine ⟨?_, balanced.served⟩
      -- the thread that pushed owes the semaphore a post
      have enters : standing (Function.update p.appends thread (.unlocking request))
          AppendAt.unposted = _ := standing_enters (by rw [here]; rfl) rfl
      show (p.workqueue ++ [request]).length = p.queuestat + standing p.workers WorkerAt.between +
        standing (Function.update p.appends thread (.unlocking request)) AppendAt.unposted
      rw [enters, List.length_append, List.length_singleton]
      omega
  | post request here =>
      refine ⟨?_, balanced.served⟩
      have leaves : standing (Function.update p.appends thread (.returned request true))
          AppendAt.unposted + 1 = _ := standing_leaves (by rw [here]; rfl) rfl
      show p.workqueue.length = p.queuestat + 1 + standing p.workers WorkerAt.between +
        standing (Function.update p.appends thread (.returned request true)) AppendAt.unposted
      omega

theorem Balanced.work [DecidableEq W] {worker : W} (balanced : Balanced p)
    (step : p.work worker = some next) : Balanced next := by
  have length := balanced.length
  cases work_moves step with
  | lock here free => exact .withLock (balanced.works (by rw [here]; rfl) (by simp)) _
  | some here found => exact balanced.works (by rw [here]; rfl) (by simp)
  | process request here => exact balanced.works (by rw [here]; rfl) (by simp)
  -- the branch with the continue is never taken
  | empty here none => exact absurd none (balanced.found (by rw [here]; rfl))
  | skip here => exact absurd here (balanced.served worker)
  | unlock request place here goes =>
      rcases goes with rfl | ⟨found, rfl⟩
      · exact .withLock (balanced.works (by rw [here]; rfl) (by simp)) _
      · exact .withLock (balanced.works (by rw [here]; rfl) (by simp)) _
  | wake value here stands =>
      refine ⟨?_, served_update balanced.served (by simp)⟩
      -- the worker takes the count with it
      have enters : standing (Function.update p.workers worker .locking)
          WorkerAt.between = _ := standing_enters (by rw [here]; rfl) rfl
      show p.workqueue.length = value +
        standing (Function.update p.workers worker .locking) WorkerAt.between +
        standing p.appends AppendAt.unposted
      omega
  | take request rest here queue =>
      refine ⟨?_, served_update balanced.served (by simp)⟩
      have leaves : standing (Function.update p.workers worker (.unlocking request))
          WorkerAt.between + 1 = _ := standing_leaves (by rw [here]; rfl) rfl
      rw [queue, List.length_cons] at length
      show rest.length = p.queuestat +
        standing (Function.update p.workers worker (.unlocking request)) WorkerAt.between +
        standing p.appends AppendAt.unposted
      omega

end Balance

section Lock
variable {A W T : Type} {p q : Pool A W T}

/-- Between lock() and unlock(). -/
def AppendAt.inside : AppendAt T → Bool
  | .checking _ | .refusing _ | .pushing _ | .unlocking _ => true
  | .idle | .locking _ | .posting _ | .returned _ _ => false

def WorkerAt.inside : WorkerAt T → Bool
  | .checking | .skipping | .taking | .unlocking _ => true
  | .waiting | .locking | .processing _ => false

def Pool.inside (p : Pool A W T) : A ⊕ W → Bool
  | .inl thread => (p.appends thread).inside
  | .inr worker => (p.workers worker).inside

def Locked (p : Pool A W T) : Prop := ∀ t, p.inside t = true → p.queuelocker = some t

theorem Locked.alone (locked : Locked p) {t u : A ⊕ W} (one : p.inside t = true)
    (two : p.inside u = true) : t = u :=
  Mutex.Exclusive.alone locked one two

/-- What a step of one thread does to the lock: nothing, take it, or give it back. -/
inductive LockMove (p q : Pool A W T) (t : A ⊕ W) : Prop where
  | keeps : q.queuelocker = p.queuelocker → q.inside t = p.inside t → LockMove p q t
  | takes : p.queuelocker = none → q.queuelocker = some t → LockMove p q t
  | leaves : p.inside t = true → q.inside t = false → LockMove p q t

theorem LockMove.of_rule {t : A ⊕ W} {after : Bool} (here : q.inside t = after)
    (rule : q.queuelocker = p.queuelocker ∧ after = p.inside t ∨
      p.queuelocker = none ∧ q.queuelocker = some t ∨ p.inside t = true ∧ after = false) :
    LockMove p q t := by
  rcases rule with ⟨owner, same⟩ | ⟨free, owner⟩ | ⟨held, outside⟩
  · exact .keeps owner (here.trans same)
  · exact .takes free owner
  · exact .leaves held (here.trans outside)

theorem Locked.move (locked : Locked p) (t : A ⊕ W) (move : LockMove p q t)
    (others : ∀ u, u ≠ t → q.inside u = p.inside u) : Locked q := by
  refine Mutex.Exclusive.move locked t ?_ others
  cases move with
  | keeps owner stays => exact .inl ⟨owner, stays⟩
  | takes free owner => exact .inr (.inl ⟨free, owner⟩)
  | leaves held outside => exact .inr (.inr ⟨held, outside⟩)

theorem append_to_others [DecidableEq A] {thread : A} {place : AppendAt T} :
    ∀ u : A ⊕ W, u ≠ .inl thread → (p.appendTo thread place).inside u = p.inside u := by
  rintro (other | worker) different
  · have apart : other ≠ thread := fun same => different (by rw [same])
    simp only [Pool.inside, Pool.appendTo, Function.update_of_ne apart]
  · rfl

theorem append_to_inside [DecidableEq A] {thread : A} {place : AppendAt T} :
    (p.appendTo thread place).inside (.inl thread) = place.inside := by
  simp only [Pool.inside, Pool.appendTo, Function.update_self]

theorem work_to_others [DecidableEq W] {worker : W} {place : WorkerAt T} :
    ∀ u : A ⊕ W, u ≠ .inr worker → (p.workTo worker place).inside u = p.inside u := by
  rintro (thread | other) different
  · rfl
  · have apart : other ≠ worker := fun same => different (by rw [same])
    simp only [Pool.inside, Pool.workTo, Function.update_of_ne apart]

theorem work_to_inside [DecidableEq W] {worker : W} {place : WorkerAt T} :
    (p.workTo worker place).inside (.inr worker) = place.inside := by
  simp only [Pool.inside, Pool.workTo, Function.update_self]

/-- A step of append seen by the lock. -/
theorem Locked.appends [DecidableEq A] (locked : Locked p) {thread : A} {place : AppendAt T}
    (inside : q.inside = (p.appendTo thread place).inside)
    (rule : q.queuelocker = p.queuelocker ∧ place.inside = (p.appends thread).inside ∨
      p.queuelocker = none ∧ q.queuelocker = some (.inl thread) ∨
      (p.appends thread).inside = true ∧ place.inside = false) : Locked q := by
  have here : q.inside (.inl thread) = place.inside := by rw [inside, append_to_inside]
  refine locked.move (.inl thread) (.of_rule here rule) fun u different => ?_
  rw [inside]
  exact append_to_others u different

theorem Locked.works [DecidableEq W] (locked : Locked p) {worker : W} {place : WorkerAt T}
    (inside : q.inside = (p.workTo worker place).inside)
    (rule : q.queuelocker = p.queuelocker ∧ place.inside = (p.workers worker).inside ∨
      p.queuelocker = none ∧ q.queuelocker = some (.inr worker) ∨
      (p.workers worker).inside = true ∧ place.inside = false) : Locked q := by
  have here : q.inside (.inr worker) = place.inside := by rw [inside, work_to_inside]
  refine locked.move (.inr worker) (.of_rule here rule) fun u different => ?_
  rw [inside]
  exact work_to_others u different

theorem Locked.call [DecidableEq A] {thread : A} {request : Option T} (locked : Locked p)
    (step : p.call thread request = some q) : Locked q := by
  obtain ⟨rfl, here | ⟨before, result, here⟩⟩ := call_moves step
  · exact locked.appends rfl (.inl ⟨rfl, by rw [here]; rfl⟩)
  · exact locked.appends rfl (.inl ⟨rfl, by rw [here]; rfl⟩)

theorem Locked.append [DecidableEq A] {thread : A} (locked : Locked p)
    (step : p.append thread = some q) : Locked q := by
  cases append_moves step with
  | lock request here free => exact locked.appends rfl (.inr (.inl ⟨free, rfl⟩))
  | full request here => exact locked.appends rfl (.inl ⟨rfl, by rw [here]; rfl⟩)
  | room request here => exact locked.appends rfl (.inl ⟨rfl, by rw [here]; rfl⟩)
  | push request here => exact locked.appends rfl (.inl ⟨rfl, by rw [here]; rfl⟩)
  | post request here => exact locked.appends rfl (.inl ⟨rfl, by rw [here]; rfl⟩)
  | refuse request here => exact locked.appends rfl (.inr (.inr ⟨by rw [here]; rfl, rfl⟩))
  | unlock request here => exact locked.appends rfl (.inr (.inr ⟨by rw [here]; rfl, rfl⟩))

theorem Locked.work [DecidableEq W] {worker : W} (locked : Locked p)
    (step : p.work worker = some q) : Locked q := by
  cases work_moves step with
  | lock here free => exact locked.works rfl (.inr (.inl ⟨free, rfl⟩))
  | wake value here stands => exact locked.works rfl (.inl ⟨rfl, by rw [here]; rfl⟩)
  | empty here nothing => exact locked.works rfl (.inl ⟨rfl, by rw [here]; rfl⟩)
  | some here found => exact locked.works rfl (.inl ⟨rfl, by rw [here]; rfl⟩)
  | take request rest here queue => exact locked.works rfl (.inl ⟨rfl, by rw [here]; rfl⟩)
  | process request here => exact locked.works rfl (.inl ⟨rfl, by rw [here]; rfl⟩)
  | skip here => exact locked.works rfl (.inr (.inr ⟨by rw [here]; rfl, rfl⟩))
  | unlock request place here goes =>
      refine locked.works rfl (.inr (.inr ⟨by rw [here]; rfl, ?_⟩))
      rcases goes with rfl | ⟨found, rfl⟩ <;> rfl

end Lock

section Record
variable {A W T : Type} {s : Watched A W T} {next : Pool A W T}

/-- What was removed and what is queued is what was pushed, in that order. -/
structure Accounted (s : Watched A W T) : Prop where
  requests : s.pushed.map Prod.snd = s.removed.map Removal.request ++ s.pool.workqueue
  places : s.removed.map Removal.place ++ s.places = List.range s.pushed.length
  width : s.places.length = s.pool.workqueue.length

/-- The request that the thread's last call has pushed. -/
def AppendAt.pushed : AppendAt T → Option (Option T)
  | .unlocking request | .posting request | .returned request true => some request
  | _ => none

/-- In a call that has pushed nothing, or behind one that never did. -/
def AppendAt.untouched : AppendAt T → Bool
  | .locking _ | .checking _ | .refusing _ | .pushing _ | .returned _ false => true
  | _ => false

structure Called (s : Watched A W T) (thread : A) : Prop where
  pushed : ∀ request, (s.pool.appends thread).pushed = some request →
    ∃ place, s.placed thread = some place ∧ s.pushed[place]? = some (thread, request)
  untouched : (s.pool.appends thread).untouched = true → ¬ s.changed thread

/-- The record of a step of append that does not push. -/
theorem record_append_else [DecidableEq A] {thread : A}
    (other : ∀ request, s.pool.appends thread ≠ .pushing request) :
    s.recordAppend thread next = { s with
      pool := next
      changed := Function.update s.changed thread (s.changed thread ∨
        next.workqueue ≠ s.pool.workqueue ∨ next.queuestat ≠ s.pool.queuestat) } := by
  unfold Watched.recordAppend
  dsimp only
  split
  · next request here => exact absurd here (other request)
  · rfl

theorem record_append_push [DecidableEq A] {thread : A} {request : Option T}
    (here : s.pool.appends thread = .pushing request) : s.recordAppend thread next = { s with
      pool := next
      pushed := s.pushed ++ [(thread, request)]
      places := s.places ++ [s.pushed.length]
      changed := Function.update s.changed thread (s.changed thread ∨
        next.workqueue ≠ s.pool.workqueue ∨ next.queuestat ≠ s.pool.queuestat)
      placed := Function.update s.placed thread (some s.pushed.length) } := by
  unfold Watched.recordAppend
  rw [here]

theorem record_work_else {worker : W} (other : s.pool.workers worker ≠ .taking) :
    s.recordWork worker next = { s with pool := next } := by
  unfold Watched.recordWork
  split
  · next request queue place rest here _ _ => exact absurd here other
  · rfl

/-- A step that leaves the queue and the record of it alone. -/
theorem Accounted.stays {changed : A → Prop} (accounted : Accounted s)
    (queue : next.workqueue = s.pool.workqueue) :
    Accounted { s with pool := next, changed := changed } :=
  ⟨accounted.requests.trans (by rw [queue]), accounted.places,
    accounted.width.trans (by rw [queue])⟩

theorem Accounted.append [DecidableEq A] {thread : A} (accounted : Accounted s)
    (step : s.pool.append thread = some next) : Accounted (s.recordAppend thread next) := by
  have quiet : (∀ request, s.pool.appends thread ≠ .pushing request) →
      next.workqueue = s.pool.workqueue → Accounted (s.recordAppend thread next) := by
    intro other queue
    rw [record_append_else other]
    exact accounted.stays queue
  cases append_moves step with
  | push request here =>
      rw [record_append_push here]
      refine ⟨?_, ?_, ?_⟩
      · show (s.pushed ++ [(thread, request)]).map Prod.snd =
          s.removed.map Removal.request ++ (s.pool.workqueue ++ [request])
        rw [List.map_append, accounted.requests, List.append_assoc]
        rfl
      · show s.removed.map Removal.place ++ (s.places ++ [s.pushed.length]) =
          List.range (s.pushed ++ [(thread, request)]).length
        rw [← List.append_assoc, accounted.places, List.length_append, List.length_singleton,
          List.range_succ]
      · show (s.places ++ [s.pushed.length]).length = (s.pool.workqueue ++ [request]).length
        rw [List.length_append, List.length_append, accounted.width]
        rfl
  | lock request here free => exact quiet (by simp [here]) rfl
  | full request here => exact quiet (by simp [here]) rfl
  | room request here => exact quiet (by simp [here]) rfl
  | refuse request here => exact quiet (by simp [here]) rfl
  | unlock request here => exact quiet (by simp [here]) rfl
  | post request here => exact quiet (by simp [here]) rfl

theorem Accounted.work [DecidableEq W] {worker : W} (accounted : Accounted s)
    (step : s.pool.work worker = some next) : Accounted (s.recordWork worker next) := by
  have quiet : s.pool.workers worker ≠ .taking → next.workqueue = s.pool.workqueue →
      Accounted (s.recordWork worker next) := by
    intro other queue
    rw [record_work_else other]
    exact accounted.stays queue
  cases work_moves step with
  | take request rest here queue =>
      have width := accounted.width
      have places := accounted.places
      have requests := accounted.requests
      cases spots : s.places with
      | nil =>
          rw [spots, queue] at width
          cases width
      | cons place others =>
          have recorded : s.recordWork worker
              ((s.pool.workTo worker (.unlocking request)).withQueue rest) =
              { s with
                pool := (s.pool.workTo worker (.unlocking request)).withQueue rest
                places := others
                removed := s.removed ++ [⟨worker, place, request⟩] } := by
            unfold Watched.recordWork
            rw [here, queue, spots]
          -- the place at the head of the record goes with the request at the head of the queue
          rw [recorded]
          rw [spots] at places
          rw [spots, queue] at width
          rw [queue] at requests
          refine ⟨?_, ?_, Nat.succ.inj width⟩
          · show s.pushed.map Prod.snd =
              (s.removed ++ [Removal.mk worker place request]).map Removal.request ++ rest
            rw [requests, List.map_append, List.append_assoc]
            rfl
          · show (s.removed ++ [Removal.mk worker place request]).map Removal.place ++ others =
              List.range s.pushed.length
            rw [← places, List.map_append, List.append_assoc]
            rfl
  | wake value here stands => exact quiet (by simp [here]) rfl
  | lock here free => exact quiet (by simp [here]) rfl
  | empty here nothing => exact quiet (by simp [here]) rfl
  | some here found => exact quiet (by simp [here]) rfl
  | skip here => exact quiet (by simp [here]) rfl
  | unlock request place here goes => exact quiet (by simp [here]) rfl
  | process request here => exact quiet (by simp [here]) rfl

theorem Called.kept {t : Watched A W T} {thread : A} (called : Called s thread)
    (place : t.pool.appends thread = s.pool.appends thread)
    (placed : t.placed thread = s.placed thread) (changed : t.changed thread = s.changed thread)
    (longer : s.pushed <+: t.pushed) : Called t thread := by
  constructor
  · intro request done
    rw [place] at done
    obtain ⟨index, put, held⟩ := called.pushed request done
    obtain ⟨more, extended⟩ := longer
    obtain ⟨inside, -⟩ := List.getElem?_eq_some_iff.mp held
    exact ⟨index, placed.trans put, by
      rw [← extended, List.getElem?_append_left inside]; exact held⟩
  · intro untouched
    rw [place] at untouched
    rw [changed]
    exact called.untouched untouched

/-- Behind a step of the thread itself. -/
theorem Called.step [DecidableEq A] {thread : A} {place : AppendAt T} {changed : Prop}
    (called : Called s thread) (moved : next.appends = Function.update s.pool.appends thread place)
    (pushed : place.pushed = none ∨ place.pushed = (s.pool.appends thread).pushed)
    (untouched : place.untouched = true → (s.pool.appends thread).untouched = true ∧ ¬ changed) :
    Called { s with
      pool := next
      changed := Function.update s.changed thread (s.changed thread ∨ changed) } thread := by
  have here : next.appends thread = place := by rw [moved, Function.update_self]
  constructor
  · intro request done
    have done : place.pushed = some request := here ▸ done
    rcases pushed with none | same
    · rw [none] at done
      cases done
    · exact called.pushed request (same ▸ done)
  · intro quiet
    have quiet : place.untouched = true := here ▸ quiet
    obtain ⟨before, still⟩ := untouched quiet
    show ¬ Function.update s.changed thread (s.changed thread ∨ changed) thread
    rw [Function.update_self]
    exact not_or.mpr ⟨called.untouched before, still⟩

theorem Called.append [DecidableEq A] {thread : A} (called : ∀ other, Called s other)
    (step : s.pool.append thread = some next) (other : A) :
    Called (s.recordAppend thread next) other := by
  by_cases same : other = thread
  · subst same
    have quiet : ∀ {place : AppendAt T}, (∀ request, s.pool.appends other ≠ .pushing request) →
        next.appends = Function.update s.pool.appends other place →
        (place.pushed = none ∨ place.pushed = (s.pool.appends other).pushed) →
        (place.untouched = true → (s.pool.appends other).untouched = true ∧
          ¬ (next.workqueue ≠ s.pool.workqueue ∨ next.queuestat ≠ s.pool.queuestat)) →
        Called (s.recordAppend other next) other := by
      intro place elsewhere moved pushed untouched
      rw [record_append_else elsewhere]
      exact (called other).step moved pushed untouched
    cases append_moves step with
    | push request here =>
        rw [record_append_push here]
        constructor
        · intro found done
          have done : (Function.update s.pool.appends other (.unlocking request) other).pushed =
            some found := done
          rw [Function.update_self] at done
          cases done
          refine ⟨s.pushed.length, Function.update_self .., ?_⟩
          show (s.pushed ++ [(other, request)])[s.pushed.length]? = some (other, request)
          simp
        · intro untouched
          have untouched : (Function.update s.pool.appends other
              (.unlocking request) other).untouched = true := untouched
          rw [Function.update_self] at untouched
          cases untouched
    | lock request here free =>
        exact quiet (by simp [here]) rfl (.inl rfl) fun _ => ⟨by rw [here]; rfl, by
          simp [Pool.withLock, Pool.appendTo]⟩
    | full request here =>
        exact quiet (by simp [here]) rfl (.inl rfl) fun _ => ⟨by rw [here]; rfl, by
          simp [Pool.appendTo]⟩
    | room request here =>
        exact quiet (by simp [here]) rfl (.inl rfl) fun _ => ⟨by rw [here]; rfl, by
          simp [Pool.appendTo]⟩
    | refuse request here =>
        exact quiet (by simp [here]) rfl (.inl rfl) fun _ => ⟨by rw [here]; rfl, by
          simp [Pool.withLock, Pool.appendTo]⟩
    | unlock request here =>
        exact quiet (by simp [here]) rfl (.inr (by rw [here]; rfl)) (fun done => by cases done)
    | post request here =>
        exact quiet (by simp [here]) rfl (.inr (by rw [here]; rfl)) (fun done => by cases done)
  · have place : next.appends other = s.pool.appends other := by
      cases append_moves step <;> exact Function.update_of_ne same _ _
    -- a push makes the list of the pushed longer, and changes no place in it
    by_cases pushing : ∃ request, s.pool.appends thread = .pushing request
    · obtain ⟨request, here⟩ := pushing
      rw [record_append_push here]
      exact (called other).kept place (Function.update_of_ne same _ _)
        (Function.update_of_ne same _ _)
        (List.prefix_append _ _)
    · rw [record_append_else fun request here => pushing ⟨request, here⟩]
      exact (called other).kept place rfl (Function.update_of_ne same _ _) (List.prefix_refl _)

theorem Called.work [DecidableEq W] {worker : W} (called : ∀ other : A, Called s other)
    (step : s.pool.work worker = some next) (other : A) :
    Called (s.recordWork worker next) other := by
  have place : next.appends = s.pool.appends := by cases work_moves step <;> rfl
  have recorded : (s.recordWork worker next).pool = next ∧
      (s.recordWork worker next).pushed = s.pushed ∧
      (s.recordWork worker next).placed = s.placed ∧
      (s.recordWork worker next).changed = s.changed := by
    unfold Watched.recordWork
    split <;> exact ⟨rfl, rfl, rfl, rfl⟩
  obtain ⟨pool, pushed, placed, changed⟩ := recorded
  refine (called other).kept ?_ (by rw [placed]) (by rw [changed]) (by rw [pushed])
  rw [pool, place]

theorem Called.call [DecidableEq A] {thread : A} {request : Option T}
    (called : ∀ other : A, Called s other) (step : s.pool.call thread request = some next)
    (other : A) : Called { s with
      pool := next
      changed := Function.update s.changed thread False
      placed := Function.update s.placed thread none } other := by
  obtain ⟨rfl, -⟩ := call_moves step
  by_cases same : other = thread
  · subst same
    constructor
    · intro found done
      have done : (Function.update s.pool.appends other (.locking request) other).pushed =
        some found := done
      rw [Function.update_self] at done
      cases done
    · intro _ changed
      have changed : Function.update s.changed other False other := changed
      rw [Function.update_self] at changed
      exact changed
  · exact (called other).kept (Function.update_of_ne same _ _) (Function.update_of_ne same _ _)
      (Function.update_of_ne same _ _) (List.prefix_refl _)

theorem Accounted.order (accounted : Accounted s) :
    s.removed.map Removal.place = List.range s.removed.length := by
  have taken := congrArg (List.take s.removed.length) accounted.places
  have short : s.removed.length ≤ s.pushed.length := by
    have lengths := congrArg List.length accounted.requests
    simp only [List.length_append, List.length_map] at lengths
    omega
  rw [List.take_left' (by rw [List.length_map]), List.take_range, Nat.min_eq_left short] at taken
  exact taken

theorem Accounted.pushed (accounted : Accounted s) : ∀ removal ∈ s.removed, ∃ thread,
    s.pushed[removal.place]? = some (thread, removal.request) := by
  intro removal member
  obtain ⟨index, inside, rfl⟩ := List.getElem_of_mem member
  have place : s.removed[index].place = index := by
    have same := congrArg (·[index]?) accounted.order
    simpa [inside] using same
  have request : (s.pushed.map Prod.snd)[index]? = some s.removed[index].request := by
    rw [accounted.requests, List.getElem?_append_left (by rw [List.length_map]; exact inside)]
    simp [inside]
  rw [List.getElem?_map, Option.map_eq_some_iff] at request
  obtain ⟨entry, found, same⟩ := request
  exact ⟨entry.1, by rw [place, found, ← same]⟩

end Record

section Runs
variable {A W T : Type} [Fintype A] [Fintype W] {s t : Watched A W T}

structure Sound (s : Watched A W T) : Prop where
  balanced : Balanced s.pool
  locked : Locked s.pool
  accounted : Accounted s
  called : ∀ thread, Called s thread

theorem Sound.start (maxRequests : Nat) : Sound (Watched.start maxRequests : Watched A W T) := by
  refine ⟨⟨?_, by simp [Watched.start, Pool.start]⟩, ?_, ⟨rfl, rfl, rfl⟩, ?_⟩
  · have workers : standing (fun _ : W => (WorkerAt.waiting : WorkerAt T)) WorkerAt.between = 0 :=
      standing_eq_zero fun _ => rfl
    have appends : standing (fun _ : A => (AppendAt.idle : AppendAt T)) AppendAt.unposted = 0 :=
      standing_eq_zero fun _ => rfl
    show 0 = 0 + _ + _
    exact (congrArg₂ (0 + · + ·) workers appends).symm
  · rintro (thread | worker) inside <;> cases inside
  · intro thread
    exact ⟨fun request done => (by cases done), fun untouched => (by cases untouched)⟩

variable [DecidableEq A] [DecidableEq W]

theorem Sound.step (sound : Sound s) (step : s.Step t) : Sound t := by
  obtain ⟨action, next, moved, rfl⟩ := step
  cases action with
  | call thread request =>
      obtain ⟨same, -⟩ := call_moves moved
      have requests := sound.accounted.requests
      have width := sound.accounted.width
      exact ⟨sound.balanced.call moved, sound.locked.call moved,
        ⟨by rw [same]; exact requests, sound.accounted.places, by rw [same]; exact width⟩,
        Called.call sound.called moved⟩
  | append thread =>
      have pool : (s.recordAppend thread next).pool = next := by
        unfold Watched.recordAppend
        dsimp only
        split <;> rfl
      refine ⟨?_, ?_, sound.accounted.append moved, Called.append sound.called moved⟩
      · exact pool.symm ▸ sound.balanced.append moved
      · exact pool.symm ▸ sound.locked.append moved
  | work worker =>
      have pool : (s.recordWork worker next).pool = next := by
        unfold Watched.recordWork
        split <;> rfl
      refine ⟨?_, ?_, sound.accounted.work moved, Called.work sound.called moved⟩
      · exact pool.symm ▸ sound.balanced.work moved
      · exact pool.symm ▸ sound.locked.work moved

theorem Reachable.sound {maxRequests : Nat} (reachable : Reachable maxRequests s) : Sound s := by
  induction reachable with
  | refl => exact .start maxRequests
  | tail _ step ih => exact ih.step step

def AppendAt.finished : AppendAt T → Bool
  | .idle | .returned _ _ => true
  | _ => false

structure RunsOnce (s : Watched A W T) : Prop where
  /-- an append that returned true has pushed its request, to a place of its own -/
  accepted : ∀ thread request, s.pool.appends thread = .returned request true →
    ∃ place, s.placed thread = some place ∧ s.pushed[place]? = some (thread, request)
  /-- an append that returned false has changed neither the queue nor the semaphore -/
  refused : ∀ thread request, s.pool.appends thread = .returned request false →
    ¬ s.changed thread
  once : (s.removed.map Removal.place).Nodup
  order : s.removed.map Removal.place = List.range s.removed.length
  pushed : ∀ removal ∈ s.removed, ∃ thread,
    s.pushed[removal.place]? = some (thread, removal.request)
  /-- a worker that waited and has the lock finds a request -/
  found : ∀ worker, s.pool.workers worker = .checking → s.pool.workqueue ≠ []
  /-- and nobody else has the lock -/
  alone : ∀ t u, s.pool.inside t = true → s.pool.inside u = true → t = u
  woken : (∀ thread, (s.pool.appends thread).finished = true) →
    s.pool.queuestat + standing s.pool.workers WorkerAt.between = s.pool.workqueue.length

/-- Every request that append took is removed at most once and in the order of the
pushes, and no wake-up is lost, whatever the number of threads and their order. -/
theorem requests_run_once (maxRequests : Nat) (s : Watched A W T)
    (reachable : Reachable maxRequests s) : RunsOnce s := by
  have sound := Reachable.sound reachable
  have order := sound.accounted.order
  refine ⟨?_, ?_, ?_, order, sound.accounted.pushed, ?_, fun t u => sound.locked.alone, ?_⟩
  · intro thread request done
    exact (sound.called thread).pushed request (by rw [done]; rfl)
  · intro thread request done
    exact (sound.called thread).untouched (by rw [done]; rfl)
  · rw [order]
    exact List.nodup_range
  · intro worker checking
    exact sound.balanced.found (by rw [checking]; rfl)
  · intro finished
    have length := sound.balanced.length
    -- no thread owes a post
    have none : standing s.pool.appends AppendAt.unposted = 0 := by
      apply standing_eq_zero
      intro thread
      have done := finished thread
      cases place : s.pool.appends thread <;> rw [place] at done <;> first | rfl | cases done
    omega

/-- One thread appends a request and one worker takes it. -/
theorem requests_run_once_one : ∃ s : Watched Unit Unit Nat, s.removed.length = 1 ∧ RunsOnce s := by
  refine ⟨_, rfl, requests_run_once 1 _ (.tail (.tail (.tail (.tail (.tail (.tail (.tail (.tail
    (.tail (.tail .refl
      ⟨.call () (some 7), _, rfl, rfl⟩)
      ⟨.append (), _, rfl, rfl⟩)
      ⟨.append (), _, rfl, rfl⟩)
      ⟨.append (), _, rfl, rfl⟩)
      ⟨.append (), _, rfl, rfl⟩)
      ⟨.append (), _, rfl, rfl⟩)
      ⟨.work (), _, rfl, rfl⟩)
      ⟨.work (), _, rfl, rfl⟩)
      ⟨.work (), _, rfl, rfl⟩)
      ⟨.work (), _, rfl, rfl⟩)⟩

end Runs

end StudyWebServer.ThreadPool
