import StudyWebServer.Server.Handover

/-!
One thread at a time has a connection, as long as operations keep to their own
object. A worker gives its connection away with the last modfd of process() and
returns behind it, so it is in charge up to there.
-/

namespace StudyWebServer

open ByteMemory

/-- Operations that change the members of their own object only. -/
def alone : Touch := fun _ _ c => c

inductive Thread (W : Type) where
  | main
  | worker (w : W)
  deriving DecidableEq

/-- append is no member function of a connection. -/
def MainAt.Executes (fd : Nat) : MainAt → Prop
  | .serving stage other => other = fd ∧ stage ≠ .appending
  | .looping | .posting => False

def WorkerAt.Executes (fd : Nat) : WorkerAt → Prop
  | .processing _ other => other = fd
  | .waiting | .woken => False

namespace System
section Threads
variable {W : Type}

/-- The thread is in a member function of the object. -/
def Executes (s : System W) (fd : Nat) : Thread W → Prop
  | .main => s.main.Executes fd
  | .worker w => (s.workers w).Executes fd

/-- The same, for a worker up to the last modfd of process(). -/
def InCharge (s : System W) (fd : Nat) : Thread W → Prop
  | .main => s.main.Executes fd
  | .worker w => (s.workers w).Executes fd ∧ s.workers w ≠ .processing .leaving fd

structure SingleOwner (s : System W) (fd : Nat) (executes : Thread W → Prop) : Prop where
  one : ∀ a b, executes a → executes b → a = b
  queued : s.queue.count fd ≤ 1
  apart : (fd ∈ s.queue ∨ ∃ w, executes (.worker w)) → ¬ executes .main

end Threads

variable {W : Type} [DecidableEq W] {s : System W} {fd : Nat}

omit [DecidableEq W] in
theorem alone_quiet (s : System W) (action : Action W) : s.Quiet alone action :=
  fun _ _ _ _ _ _ => rfl

theorem reached_owned (reached : s.Reached alone LengthsInside) : s.Owned := by
  obtain ⟨live, conn, run⟩ := reached
  induction run with
  | refl => exact start_owned live conn
  | tail _ last ih =>
      obtain ⟨action, lengths, step⟩ := last
      exact (step_hands ih (alone_quiet _ action) lengths step).owned ih

omit [DecidableEq W] in
theorem InCharge.main_stage (charge : s.InCharge fd .main) :
    ∃ stage, s.main.stageAt fd = some stage := by
  have place : s.main.Executes fd := charge
  cases main : s.main with
  | serving stage other =>
      rw [main] at place
      exact ⟨stage, if_pos place.1⟩
  | looping => rw [main] at place; exact place.elim
  | posting => rw [main] at place; exact place.elim

omit [DecidableEq W] in
theorem InCharge.worker_stage {w : W} (charge : s.InCharge fd (.worker w)) :
    ∃ stage, (s.workers w).stageAt fd = some stage := by
  obtain ⟨place, still⟩ := charge
  cases worker : s.workers w with
  | processing stage other =>
      rw [worker] at place still
      have same : other = fd := place
      subst same
      exact ⟨stage, processing_here fun left => still (by rw [left])⟩
  | waiting => rw [worker] at place; exact place.elim
  | woken => rw [worker] at place; exact place.elim

theorem OwnedBy.main_in_charge {owner : Owner W} (owned : s.OwnedBy fd owner)
    (charge : s.InCharge fd .main) : ∃ stage, owner = .main stage := by
  obtain ⟨stage, place⟩ := charge.main_stage
  rw [owned.main] at place
  cases owner with
  | main stage => exact ⟨stage, rfl⟩
  | _ => cases place

theorem OwnedBy.worker_in_charge {owner : Owner W} {w : W} (owned : s.OwnedBy fd owner)
    (charge : s.InCharge fd (.worker w)) : ∃ stage, owner = .worker w stage := by
  obtain ⟨stage, place⟩ := charge.worker_stage
  rw [owned.worker w] at place
  cases owner with
  | worker v stage =>
      have same : v = w := by
        by_contra other
        simp [Owner.stageOf, other] at place
      exact ⟨stage, by rw [same]⟩
  | _ => cases place

/-- In every state that main and the workers reach, at most one thread is in
charge of a connection, it is in the queue at most once, and main keeps its hands
off it while it is queued or with a worker. -/
theorem single_owner (reached : s.Reached alone LengthsInside) (fd : Nat) :
    SingleOwner s fd (s.InCharge fd) := by
  have owns := reached_owned reached
  obtain ⟨owner, owned⟩ := owns.owner fd
  constructor
  · intro a b first second
    cases a with
    | main =>
        obtain ⟨stage, same⟩ := owned.main_in_charge first
        subst same
        cases b with
        | main => rfl
        | worker w =>
            obtain ⟨other, same⟩ := owned.worker_in_charge second
            cases same
    | worker w =>
        obtain ⟨stage, same⟩ := owned.worker_in_charge first
        subst same
        cases b with
        | main =>
            obtain ⟨other, same⟩ := owned.main_in_charge second
            cases same
        | worker v =>
            obtain ⟨other, same⟩ := owned.worker_in_charge second
            cases same
            rfl
  · exact List.nodup_iff_count_le_one.mp owns.queue fd
  · intro busy charge
    obtain ⟨stage, same⟩ := owned.main_in_charge charge
    subst same
    rcases busy with queued | ⟨w, worker⟩
    · cases owned.queued.mp queued
    · obtain ⟨other, same⟩ := owned.worker_in_charge worker
      cases same

section Runs

/-- Some actions, one after the other. -/
def follow (s : System W) (actions : List (Action W)) : Option (System W) :=
  actions.foldlM (fun before action => before.step alone action) s

theorem Reached.follow {allowed : System W → Action W → Prop} {before : System W}
    {actions : List (Action W)} (reached : before.Reached alone allowed)
    (follows : before.follow actions = some s)
    (may : ∀ action ∈ actions, ∀ before, allowed before action) : s.Reached alone allowed := by
  induction actions generalizing before with
  | nil =>
      cases follows
      exact reached
  | cons action rest ih =>
      simp only [System.follow, List.foldlM_cons, Option.bind_eq_bind,
        Option.bind_eq_some_iff] at follows
      obtain ⟨next, step, more⟩ := follows
      obtain ⟨live, conn, run⟩ := reached
      exact ih ⟨live, conn, run.tail ⟨action, may action List.mem_cons_self before, step⟩⟩ more
        fun other member => may other (List.mem_cons_of_mem _ member)

omit [DecidableEq W] in
theorem lengths_inside_other {action : Action W} (other : ∀ w fs, action ≠ .parse w fs)
    (s : System W) : s.LengthsInside action := by
  intro fd fs here
  cases action with
  | parse w fs => exact absurd rfl (other w fs)
  | _ =>
      simp only [called] at here
      repeat' (first | cases here | split at here)

/-- A connection whose first byte a worker is about to parse. -/
def firstByte : List (Action (Fin 1)) :=
  [.poll [.listening], .accept (some (5, [])), .initialise, .poll [.connection 5 .readable],
    .dispatch, .read [.data [71], .again], .append, .post, .wake 0, .take 0]

/-- The worker has armed it again, the next byte is there, and main reads it. -/
def secondByte : List (Action (Fin 1)) :=
  firstByte ++ [.parse 0 FileSystem.empty, .rearm 0, .poll [.connection 5 .readable], .dispatch]

/-- The worker is behind process(), and takes the connection once more. -/
def handedOver : List (Action (Fin 1)) :=
  [.rearm 0, .poll [.connection 5 .readable], .dispatch, .read [.data [69], .again], .append,
    .post, .leave 0, .wake 0, .take 0]

def idle : System (Fin 1) := start (fun _ => false) fun _ => .unused

theorem idle_reached {allowed : System (Fin 1) → Action (Fin 1) → Prop} :
    idle.Reached alone allowed := ⟨_, _, .refl⟩

/-- main is in read() of a connection while a worker is behind the last modfd of
its process(). -/
theorem worker_still_leaving : ¬ ∀ (s : System (Fin 1)), s.Reached alone (fun _ _ => True) →
    ∀ fd, SingleOwner s fd (s.Executes fd) := by
  intro single
  have places : (idle.follow secondByte).map (fun s => (s.main, s.workers 0)) =
      some (.serving .reading 5, .processing .leaving 5) := by decide +kernel
  obtain ⟨s, follows, same⟩ := Option.map_eq_some_iff.mp places
  obtain ⟨main, worker⟩ := Prod.mk.inj same
  have reading : s.Executes 5 .main := by
    show s.main.Executes 5
    rw [main]
    exact ⟨rfl, by decide⟩
  have leaving : s.Executes 5 (.worker 0) := by
    show (s.workers 0).Executes 5
    rw [worker]
    rfl
  have reached : s.Reached alone (fun _ _ => True) :=
    idle_reached.follow follows fun _ _ _ => trivial
  exact (single s reached 5).apart (.inr ⟨0, leaving⟩) reading

/-- Two bytes of a request, parsed one after the other. -/
theorem single_owner_parsing : ∃ s : System (Fin 1),
    idle.follow (firstByte ++ .parse 0 FileSystem.empty :: handedOver) = some s ∧
      s.workers 0 = .processing .parsing 5 ∧ SingleOwner s 5 (s.InCharge 5) := by
  have parsing : (idle.follow firstByte).map
      (fun s => (s.workers 0, decide (LengthInside (s.users.conn 5)))) =
        some (.processing .parsing 5, true) := by decide +kernel
  have place : (idle.follow (firstByte ++ .parse 0 FileSystem.empty :: handedOver)).map
      (fun s => s.workers 0) = some (.processing .parsing 5) := by decide +kernel
  obtain ⟨s, follows, worker⟩ := Option.map_eq_some_iff.mp place
  have others : ∀ actions ∈ [firstByte, handedOver], ∀ action ∈ actions,
      ∀ before : System (Fin 1), before.LengthsInside action := by
    intro actions list action member before
    apply lengths_inside_other
    rintro w fs rfl
    rcases List.mem_pair.mp list with rfl | rfl <;> simp [firstByte, handedOver] at member
  obtain ⟨first, toFirst, same⟩ := Option.map_eq_some_iff.mp parsing
  obtain ⟨called, inside⟩ := Prod.mk.inj same
  obtain ⟨live, conn, run⟩ := idle_reached.follow toFirst (others firstByte (by simp))
  have steps := follows
  rw [System.follow, List.foldlM_append] at steps
  obtain ⟨_, again, rest⟩ := Option.bind_eq_some_iff.mp steps
  cases toFirst.symm.trans again
  rw [List.foldlM_cons] at rest
  obtain ⟨second, parse, more⟩ := Option.bind_eq_some_iff.mp rest
  have lengths : first.LengthsInside (.parse 0 FileSystem.empty) := by
    intro fd fs here
    simp only [System.called, called, Option.some.injEq, Prod.mk.injEq] at here
    rw [← here.1]
    exact of_decide_eq_true inside
  have reached : second.Reached alone LengthsInside :=
    ⟨live, conn, run.tail ⟨_, lengths, parse⟩⟩
  exact ⟨s, follows, worker, single_owner (reached.follow more (others handedOver (by simp))) 5⟩

end Runs

end System

end StudyWebServer
