import StudyWebServer.Server.ThreadPool

/-!
How long m_workqueue gets. append refuses a request when the queue is longer
than m_max_requests, so a queue of just that length takes one more.
-/

namespace StudyWebServer.ThreadPool

section Bound
variable {A W T : Type} {limit : Nat} {p q next : Pool A W T}

/-- The queue is no longer than this, and a thread behind its check of the
length has room for its push. -/
structure Within (limit : Nat) (p : Pool A W T) : Prop where
  locked : Locked p
  bound : p.workqueue.length ≤ limit
  pushing : ∀ thread request, p.appends thread = .pushing request → p.workqueue.length < limit

/-- A queue that does not grow, with no thread newly at its push. -/
theorem Within.keep (within : Within limit p) (locked : Locked q)
    (shorter : q.workqueue.length ≤ p.workqueue.length)
    (pushing : ∀ thread request, q.appends thread = .pushing request →
      p.workqueue.length < limit) : Within limit q :=
  ⟨locked, shorter.trans within.bound,
    fun thread request here => Nat.lt_of_le_of_lt shorter (pushing thread request here)⟩

variable [DecidableEq A]

theorem pushing_elsewhere {thread other : A} {place : AppendAt T} {request : Option T}
    (away : ∀ request, place ≠ .pushing request)
    (here : Function.update p.appends thread place other = .pushing request) :
    p.appends other = .pushing request := by
  by_cases same : other = thread
  · rw [same, Function.update_self] at here
    exact absurd here (away request)
  · rwa [Function.update_of_ne same] at here

/-- A thread that goes anywhere but to its push, with the queue as it is. -/
theorem Within.elsewhere {thread : A} {place : AppendAt T} (within : Within limit p)
    (locked : Locked q) (moved : q.appends = Function.update p.appends thread place)
    (queue : q.workqueue = p.workqueue) (away : ∀ request, place ≠ .pushing request) :
    Within limit q := by
  refine within.keep locked (by rw [queue]) fun other request here => ?_
  rw [moved] at here
  exact within.pushing other request (pushing_elsewhere away here)

/-- Only a queue that is not too long lets a thread go on to its push. -/
theorem append_room {thread : A} {request : Option T} (here : p.appends thread = .checking request)
    (step : p.append thread = some (p.appendTo thread (.pushing request))) :
    p.workqueue.length ≤ p.maxRequests := by
  by_contra long
  have refused : p.append thread = some (p.appendTo thread (.refusing request)) := by
    simp only [Pool.append, here]
    rw [if_pos (Nat.lt_of_not_le long)]
  have places := congrArg (fun pool => pool.appends thread)
    (Option.some.inj (refused.symm.trans step))
  simp only [Pool.appendTo, Function.update_self] at places
  cases places

theorem Within.append {thread : A} (within : Within limit p) (step : p.append thread = some next)
    (check : ∀ request, p.appends thread = .checking request →
      p.workqueue.length ≤ p.maxRequests → p.workqueue.length < limit) : Within limit next := by
  have locked := within.locked.append step
  cases append_moves step with
  | lock request here free => exact within.elsewhere locked rfl rfl (by simp)
  | full request here => exact within.elsewhere locked rfl rfl (by simp)
  | room request here =>
      exact within.keep locked (Nat.le_refl _) fun _ _ _ =>
        check request here (append_room here step)
  | refuse request here => exact within.elsewhere locked rfl rfl (by simp)
  | unlock request here => exact within.elsewhere locked rfl rfl (by simp)
  | post request here => exact within.elsewhere locked rfl rfl (by simp)
  | push request here =>
      have room := within.pushing thread request here
      have longer : ((p.appendTo thread (.unlocking request)).withQueue
          (p.workqueue ++ [request])).workqueue.length = p.workqueue.length + 1 :=
        List.length_append
      refine ⟨locked, by omega, fun other found there => ?_⟩
      -- Both threads would have the lock.
      have one : ((p.appendTo thread (.unlocking request)).withQueue
          (p.workqueue ++ [request])).inside (.inl thread) = true := by
        simp only [Pool.inside, Pool.withQueue, Pool.appendTo, Function.update_self]
        rfl
      have also : ((p.appendTo thread (.unlocking request)).withQueue
          (p.workqueue ++ [request])).inside (.inl other) = true := by
        simp only [Pool.inside, there]
        rfl
      have same := Sum.inl.inj (locked.alone one also)
      subst same
      have away : Function.update p.appends thread (.unlocking request) thread = .pushing found :=
        there
      rw [Function.update_self] at away
      cases away

omit [DecidableEq A] in
theorem Within.work [DecidableEq W] {worker : W} (within : Within limit p)
    (step : p.work worker = some next) : Within limit next := by
  have locked := within.locked.work step
  have appends : next.appends = p.appends := by cases work_moves step <;> rfl
  have shorter : next.workqueue.length ≤ p.workqueue.length := by
    cases work_moves step with
    | take request rest here queue =>
        rw [queue, List.length_cons]
        exact Nat.le_succ _
    | _ => exact Nat.le_refl _
  refine within.keep locked shorter fun thread request here => ?_
  rw [appends] at here
  exact within.pushing thread request here

theorem Within.call {thread : A} {request : Option T} (within : Within limit p)
    (step : p.call thread request = some next) : Within limit next := by
  have locked := within.locked.call step
  obtain ⟨rfl, -⟩ := call_moves step
  exact within.elsewhere locked rfl rfl (by simp)

end Bound

section Runs
variable {A W T : Type} {limit : Nat} {s t : Watched A W T}

theorem within_start (maxRequests : Nat) : Within limit (Pool.start maxRequests : Pool A W T) := by
  refine ⟨?_, Nat.zero_le _, fun thread request here => by cases here⟩
  rintro (thread | worker) inside <;> cases inside

/-- append comparing the length while the queue holds exactly m_max_requests. -/
def FullCheck (p : Pool A W T) : Action A W T → Prop
  | .append thread => (∃ request, p.appends thread = .checking request) ∧
      p.workqueue.length = p.maxRequests
  | _ => False

variable [DecidableEq A]

theorem record_pool (s : Watched A W T) (action : Action A W T) (next : Pool A W T) :
    (s.record action next).pool = next := by
  cases action with
  | call thread request => rfl
  | append thread =>
      simp only [Watched.record, Watched.recordAppend]
      split <;> rfl
  | work worker =>
      simp only [Watched.record, Watched.recordWork]
      split <;> rfl

variable [DecidableEq W]

/-- A step with no such comparison. -/
def Watched.SpareStep (s t : Watched A W T) : Prop :=
  ∃ action next, s.pool.step action = some next ∧ t = s.record action next ∧
    ¬ FullCheck s.pool action

theorem step_max {p next : Pool A W T} {action : Action A W T}
    (step : p.step action = some next) : next.maxRequests = p.maxRequests := by
  cases action with
  | call thread request =>
      obtain ⟨rfl, -⟩ := call_moves step
      rfl
  | append thread => cases append_moves step <;> rfl
  | work worker => cases work_moves step <;> rfl

theorem Within.step {action : Action A W T} {p next : Pool A W T} (within : Within limit p)
    (step : p.step action = some next)
    (check : ∀ thread request, action = .append thread → p.appends thread = .checking request →
      p.workqueue.length ≤ p.maxRequests → p.workqueue.length < limit) : Within limit next := by
  cases action with
  | call thread request => exact within.call step
  | append thread => exact within.append step fun request => check thread request rfl
  | work worker => exact within.work step

/-- The queue never holds more than one request above m_max_requests. -/
theorem queue_bound_above (maxRequests : Nat) (reachable : Reachable maxRequests s) :
    s.pool.workqueue.length ≤ maxRequests + 1 := by
  have kept : Within (maxRequests + 1) s.pool ∧ s.pool.maxRequests = maxRequests := by
    induction reachable with
    | refl => exact ⟨within_start maxRequests, rfl⟩
    | tail _ step ih =>
        obtain ⟨action, next, moved, rfl⟩ := step
        rw [record_pool]
        refine ⟨ih.1.step moved fun thread request _ _ room => ?_, (step_max moved).trans ih.2⟩
        rw [ih.2] at room
        exact Nat.lt_succ_of_le room
  exact kept.1.bound

/-- As long as no append looks at a queue that is exactly full, the bound holds. -/
theorem queue_bound_spared (maxRequests : Nat) (s : Watched A W T)
    (run : Relation.ReflTransGen Watched.SpareStep (.start maxRequests) s) :
    s.pool.maxRequests = maxRequests ∧ s.pool.workqueue.length ≤ s.pool.maxRequests := by
  have kept : Within maxRequests s.pool ∧ s.pool.maxRequests = maxRequests := by
    induction run with
    | refl => exact ⟨within_start maxRequests, rfl⟩
    | @tail before after _ step ih =>
        obtain ⟨action, next, moved, rfl, spare⟩ := step
        rw [record_pool]
        refine ⟨ih.1.step moved fun thread request is here room => ?_, (step_max moved).trans ih.2⟩
        subst is
        -- The comparison is not the one at a full queue.
        have other : before.pool.workqueue.length ≠ before.pool.maxRequests :=
          fun full => spare ⟨⟨request, here⟩, full⟩
        rw [ih.2] at room other
        omega
  exact ⟨kept.2, by rw [kept.2]; exact kept.1.bound⟩

/-- One request in a queue for two. -/
theorem queue_bound_spared_one : ∃ s : Watched Unit Unit Nat, s.pool.workqueue = [some 7] ∧
    s.pool.maxRequests = 2 ∧ s.pool.workqueue.length ≤ s.pool.maxRequests := by
  refine ⟨_, ?queue, queue_bound_spared 2 _ (.tail (.tail (.tail (.tail .refl
    ⟨.call () (some 7), _, rfl, rfl, id⟩)
    ⟨.append (), _, rfl, rfl, fun full => by cases full.2⟩)
    ⟨.append (), _, rfl, rfl, fun full => by cases full.2⟩)
    ⟨.append (), _, rfl, rfl, fun full => by cases full.2⟩)⟩
  case queue => rfl

/-- A pool for one request that holds two. -/
theorem queue_overfull : ∃ s : Watched Unit Unit Nat,
    Reachable 1 s ∧ s.pool.maxRequests = 1 ∧ s.pool.workqueue = [some 7, some 8] := by
  refine ⟨_, .tail (.tail (.tail (.tail (.tail (.tail (.tail (.tail (.tail (.tail .refl
    ⟨.call () (some 7), _, rfl, rfl⟩)
    ⟨.append (), _, rfl, rfl⟩)
    ⟨.append (), _, rfl, rfl⟩)
    ⟨.append (), _, rfl, rfl⟩)
    ⟨.append (), _, rfl, rfl⟩)
    ⟨.append (), _, rfl, rfl⟩)
    ⟨.call () (some 8), _, rfl, rfl⟩)
    ⟨.append (), _, rfl, rfl⟩)
    ⟨.append (), _, rfl, rfl⟩)
    ⟨.append (), _, rfl, rfl⟩, ?_, ?_⟩
  · rfl
  · rfl

end Runs

end StudyWebServer.ThreadPool
