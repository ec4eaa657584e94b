import StudyWebServer.Server.Ownership
import Mathlib.Data.List.Nodup

/-!
How a connection passes from owner to owner, and that each action of the system
passes it on in one of these ways. This rests on no operation reaching the
members of another connection.
-/

namespace StudyWebServer

open ByteMemory

/-- The ways a connection changes hands; append may refuse it when the queue is `full`. -/
inductive Passes {W : Type} (full : Prop) : Owner W → Owner W → Prop where
  | accepted (addr : List UInt8) : Passes full .nobody (.main (.opening addr))
  | opened (addr : List UInt8) : Passes full (.main (.opening addr)) (.armed .epollin)
  | delivered (ev : Interest) (kind : Kind) : Passes full (.armed ev) (.reported kind)
  | dispatched (kind : Kind) : Passes full (.reported kind) (.main kind.stage)
  | filled : Passes full (.main .reading) (.main .appending)
  | failed : Passes full (.main .reading) (.main .closing)
  | appended : Passes full (.main .appending) .queued
  | refused (no : full) : Passes full (.main .appending) .lost
  | written (ev : Interest) : Passes full (.main .writing) (.armed ev)
  | finished : Passes full (.main .writing) (.main .closing)
  | closed : Passes full (.main .closing) .nobody
  | taken (w : W) : Passes full .queued (.worker w .parsing)
  | parsed (w : W) (stage : ProcessStage) : Passes full (.worker w .parsing) (.worker w stage)
  | answered (w : W) (ret : HttpCode) :
      Passes full (.worker w (.answering ret)) (.worker w (.rearming .epollout))
  | rearmed (w : W) (ev : Interest) : Passes full (.worker w (.rearming ev)) (.armed ev)

namespace System
variable {W : Type} {touch : Touch} {s t : System W} {fd : Nat} {full : Prop} {op : Operation}

/-- No other connection notices the operation that the action performs. -/
def Quiet (touch : Touch) (s : System W) (action : Action W) : Prop :=
  ∀ fd op, s.called action = some (fd, op) → ∀ other ≠ fd, s.users.initialised other = true →
    touch ((other : Int) - fd) (invoke op (s.users.conn fd)).log (s.users.conn other) =
      s.users.conn other

/-- A call of process_read keeps the NUL behind the body in m_read_buf. -/
def LengthsInside (s : System W) (action : Action W) : Prop :=
  ∀ fd fs, s.called action = some (fd, .processRead fs) → LengthInside (s.users.conn fd)

section Away
variable {other : Nat}

theorem serving_away {stage : MainStage} (away : other ≠ fd) :
    (MainAt.serving stage fd).stageAt other = none := if_neg (Ne.symm away)

theorem processing_away {stage : ProcessStage} (away : other ≠ fd) :
    (WorkerAt.processing stage fd).stageAt other = none := by
  cases stage with
  | leaving => rfl
  | _ => exact if_neg (Ne.symm away)

theorem processing_here {stage : ProcessStage} (still : stage ≠ .leaving) :
    (WorkerAt.processing stage fd).stageAt fd = some stage := by
  cases stage with
  | leaving => exact absurd rfl still
  | _ => exact if_pos rfl

/-- Only what the kernel keeps for one descriptor differs. -/
def ApartFrom (fd : Nat) (k k' : Kernel) : Prop :=
  ∀ other : Nat, other ≠ fd → k'.epoll other = k.epoll other ∧ k'.live other = k.live other

theorem apart_refl (fd : Nat) (k : Kernel) : ApartFrom fd k k := fun _ _ => ⟨rfl, rfl⟩

theorem apart_arm (fd : Nat) (k : Kernel) (ev : Interest) : ApartFrom fd k (k.arm fd ev) :=
  fun _ away => ⟨Function.update_of_ne (by exact_mod_cast away) _ _, rfl⟩

variable (touch)

def QuietOn (s : System W) (fd : Nat) (op : Operation) : Prop :=
  ∀ other ≠ fd, s.users.initialised other = true →
    touch ((other : Int) - fd) (invoke op (s.users.conn fd)).log (s.users.conn other) =
      s.users.conn other

variable {touch}

theorem call_users_away (away : other ≠ fd) (quiet : QuietOn touch s fd op) :
    (s.call touch fd op).users.initialised other = s.users.initialised other ∧
    (s.users.initialised other = true →
      (s.call touch fd op).users.conn other = s.users.conn other) := by
  constructor
  · simp [call, Users.afterBy, away]
  · intro initialised
    simp only [call, Users.afterBy, if_neg away]
    exact quiet other away initialised

/-- A call by main is not noticed on other connections. -/
theorem main_call_same {stage : MainStage} (m : MainAt) (place : s.main = .serving stage fd)
    (quiet : QuietOn touch s fd op)
    (kernel : ApartFrom fd s.kernel (s.call touch fd op).kernel)
    (next : ∀ other ≠ fd, m.stageAt other = none) :
    ∀ other ≠ fd, SameView s ((s.call touch fd op).mainTo m) other := by
  intro other away
  obtain ⟨initialised, conn⟩ := call_users_away away quiet
  constructor
  · exact (kernel other away).1
  · exact (kernel other away).2
  · exact initialised
  · exact conn
  · exact fun kind => Iff.rfl
  · rw [place, serving_away away]
    exact next other away
  · exact Iff.rfl
  · exact fun w => rfl

end Away

variable [DecidableEq W]

/-- Every object keeps its owner or passes to the next. -/
def Hands (full : Prop) (s t : System W) : Prop :=
  ∀ fd owner, s.OwnedBy fd owner → ∃ next, t.OwnedBy fd next ∧
    (next = owner ∨ Passes full owner next)

theorem hands_none (same : ∀ fd, SameView s t fd) : Hands full s t :=
  fun fd owner owned => ⟨owner, owned.same (same fd), .inl rfl⟩

/-- One object passes on, the others look the same. -/
theorem hands_one {before after : Owner W} (next : t.OwnedBy fd after)
    (passes : Passes full before after) (known : ∀ owner, s.OwnedBy fd owner → owner = before)
    (others : ∀ other ≠ fd, SameView s t other) : Hands full s t := by
  intro other owner owned
  by_cases same : other = fd
  · subst same
    rw [known owner owned]
    exact ⟨after, next, .inr passes⟩
  · exact ⟨owner, owned.same (others other same), .inl rfl⟩

theorem main_owner {stage : MainStage} (place : s.main = .serving stage fd) (owner : Owner W)
    (owned : s.OwnedBy fd owner) : owner = .main stage := by
  have same := owned.main
  rw [place] at same
  simp only [MainAt.stageAt, ↓reduceIte] at same
  cases owner with
  | main other => exact congrArg Owner.main (Option.some.inj same).symm
  | _ => cases same

theorem worker_owner {w : W} {stage : ProcessStage} (place : s.workers w = .processing stage fd)
    (still : stage ≠ .leaving) (owner : Owner W) (owned : s.OwnedBy fd owner) :
    owner = .worker w stage := by
  have same := owned.worker w
  have here : (WorkerAt.processing stage fd).stageAt fd = some stage := by
    cases stage with
    | leaving => exact absurd rfl still
    | _ => exact if_pos rfl
  rw [place, here] at same
  cases owner with
  | worker v other =>
      simp only [Owner.stageOf] at same
      split_ifs at same with equal
      rw [equal, Option.some.inj same]
  | _ => cases same

theorem worker_call_same {w : W} {stage next : ProcessStage}
    (place : s.workers w = .processing stage fd) (quiet : QuietOn touch s fd op)
    (kernel : ApartFrom fd s.kernel (s.call touch fd op).kernel) :
    ∀ other ≠ fd, SameView s ((s.call touch fd op).workerTo w (.processing next fd)) other := by
  intro other away
  obtain ⟨initialised, conn⟩ := call_users_away away quiet
  constructor
  · exact (kernel other away).1
  · exact (kernel other away).2
  · exact initialised
  · exact conn
  · exact fun kind => Iff.rfl
  · rfl
  · exact Iff.rfl
  · intro v
    by_cases same : v = w
    · subst same
      simp only [workerTo, Function.update_self, place]
      rw [processing_away away, processing_away away]
    · simp only [workerTo, Function.update_of_ne same]
      rfl

theorem main_call_owned {stage : MainStage} (m : MainAt) (after : Owner W)
    (owned : s.OwnedBy fd (.main stage)) (fits : after.Fits ((s.call touch fd op).view fd))
    (main : m.stageAt fd = after.mainStage) (pending : after.pending = none)
    (queued : after ≠ .queued) (worker : ∀ w, after.stageOf w = none) :
    ((s.call touch fd op).mainTo m).OwnedBy fd after := by
  constructor
  · exact fits
  · intro kind
    rw [pending]
    exact owned.reported kind
  · exact main
  · exact owned.queued.trans (iff_of_false (fun other => by cases other) queued)
  · exact fun w => (owned.worker w).trans (worker w).symm

theorem worker_call_owned {w : W} {stage next : ProcessStage} (still : next ≠ .leaving)
    (owned : s.OwnedBy fd (.worker w stage))
    (fits : (Owner.worker w next).Fits ((s.call touch fd op).view fd)) :
    ((s.call touch fd op).workerTo w (.processing next fd)).OwnedBy fd (.worker w next) := by
  constructor
  · exact fits
  · exact owned.reported
  · exact owned.main
  · exact owned.queued.trans (iff_of_false (fun other => by cases other) fun other => by
      cases other)
  · intro v
    by_cases same : v = w
    · subst same
      simp only [workerTo, Function.update_self, processing_here still, Owner.stageOf, ↓reduceIte]
    · have elsewhere : (s.workers v).stageAt fd = none := by
        rw [owned.worker v]
        exact if_neg (Ne.symm same)
      simp only [workerTo, Function.update_of_ne same, Owner.stageOf, if_neg (Ne.symm same)]
      exact elsewhere

section Kernel
variable {k : Kernel} {c : HttpConn}

theorem init_conn_kernel (absent : k.epoll fd = .absent) (addr : List UInt8) :
    k.run (initConn fd addr c).log = k.arm fd .epollin := by
  rw [← kernel_run_outside, init_conn_outside]
  exact if_pos absent

theorem read_kernel (results : List Recv) : k.run (read results c).log = k := by
  rw [← kernel_run_outside, read_outside]
  rfl

theorem process_read_kernel (fs : FileSystem) : k.run (processRead fs c).log = k := by
  rw [← kernel_run_outside, process_read_outside, kernel_run_created]

theorem process_write_kernel (ret : HttpCode) : k.run (processWrite ret c).log = k := by
  rw [← kernel_run_outside, process_write_outside]
  rfl

theorem act_modfd {sockfd : Int} (registered : k.epoll sockfd ≠ .absent) (ev : Interest) :
    k.act (.modfd sockfd ev) = k.arm sockfd ev := if_neg registered

theorem close_conn_kernel (sockfd : c.sockfd = fd) : k.run (closeConn c).log =
    ⟨Function.update k.live fd false, Function.update k.epoll fd .absent⟩ := by
  have held : c.sockfd ≠ -1 := by omega
  simp only [closeConn, held, ne_eq, not_false_eq_true, ↓reduceIte]
  rw [sockfd]
  rfl

theorem init_ready (c : HttpConn) : Ready (init c).conn :=
  ⟨by rw [init_conn]; rfl, init_readable c⟩

/-- write() arms the connection again, or leaves it to close_conn. -/
inductive WriteEnds (k : Kernel) (fd : Nat) (call : Outcome Bool) : Prop where
  | armed (ev : Interest) (ret : call.ret = true) (kernel : k.run call.log = k.arm fd ev)
      (ready : ev = .epollin → Ready call.conn)
  | failed (ret : call.ret = false) (kernel : k.run call.log = k)
  | finished (ret : call.ret = false) (kernel : k.run call.log = k.arm fd .epollin)

theorem write_ends (pages : Memory) (results : List Writev) (sockfd : c.sockfd = fd)
    (registered : k.epoll fd ≠ .absent) :
    (write pages results c).conn.sockfd = fd ∧ WriteEnds k fd (write pages results c) := by
  have rearmed (ev : Interest) : k.act (.modfd c.sockfd ev) = k.arm fd ev := by
    rw [sockfd]
    exact act_modfd registered ev
  have unmapped : (unmap c).conn.sockfd = fd := by rw [unmap_conn]; exact sockfd
  by_cases empty : c.writeIdx = 0
  · obtain ⟨ret, conn, log⟩ := write_nothing pages results empty
    rw [conn]
    refine ⟨(init_sockfd c).trans sockfd, .armed .epollin ret ?_ fun _ => conn ▸ init_ready c⟩
    rw [← kernel_run_outside, log, kernel_run_cons, rearmed]
    rfl
  · cases write_cases pages results empty with
    | waits sent only ret conn log =>
        rw [conn]
        refine ⟨sockfd, .armed .epollout ret ?_ fun other => by cases other⟩
        rw [← kernel_run_outside, log, kernel_run_append, kernel_run_sent only, kernel_run_cons,
          rearmed]
        rfl
    | failed sent only ret conn log =>
        rw [conn]
        refine ⟨unmapped, .failed ret ?_⟩
        rw [← kernel_run_outside, log, kernel_run_append, kernel_run_sent only, kernel_run_unmap]
    | kept sent only linger ret conn log =>
        rw [conn]
        refine ⟨(init_sockfd _).trans unmapped, .armed .epollin ret ?_ fun _ => conn ▸ init_ready _⟩
        rw [← kernel_run_outside, log, kernel_run_append, kernel_run_append, kernel_run_sent only,
          kernel_run_unmap, kernel_run_cons, rearmed]
        rfl
    | finished sent only linger ret conn log =>
        rw [conn]
        refine ⟨unmapped, .finished ret ?_⟩
        rw [← kernel_run_outside, log, kernel_run_append, kernel_run_append, kernel_run_sent only,
          kernel_run_unmap, kernel_run_cons, rearmed]
        rfl

end Kernel

section Main
variable {owner : Owner W}

theorem not_absent {registration : Registration} (disarmed : registration = .disarmed) :
    registration ≠ .absent := by
  rw [disarmed]
  decide

theorem OwnedBy.of_armed (owned : s.OwnedBy fd owner) (place : s.main = .looping) {ev : Interest}
    (armed : s.kernel.epoll fd = .armed ev) : owner = .armed ev := by
  have fits := owned.fits
  have main := owned.main
  rw [place] at main
  have other {registration : Registration} (held : (s.view fd).registration = registration)
      (different : registration ≠ .armed ev) : False := different (held.symm.trans armed)
  cases owner with
  | nobody => exact (other fits.1 (by simp)).elim
  | armed held =>
      have same : Registration.armed held = .armed ev := fits.1.symm.trans armed
      rw [Registration.armed.inj same]
  | reported kind => exact (other fits.1 (by simp)).elim
  | main stage => cases main
  | queued => exact (other fits.1 (by simp)).elim
  | worker w stage => exact (other fits.1 (by simp)).elim
  | lost => exact (other fits.1 (by simp)).elim

theorem mem_names {batch : List Report} :
    batch.any (Report.names fd) = true ↔ ∃ kind, .connection fd kind ∈ batch := by
  rw [List.any_eq_true]
  constructor
  · rintro ⟨report, member, names⟩
    cases report with
    | listening => cases names
    | connection other kind =>
        have same : other = fd := by simpa [Report.names] using names
        exact ⟨kind, same ▸ member⟩
  · exact fun ⟨kind, member⟩ => ⟨_, member, by simp [Report.names]⟩

theorem reports_armed {registration : Registration} {kind : Kind}
    (reports : registration.reports kind = true) :
    ∃ ev, registration = .armed ev ∧ (kind = .readable → ev = .epollin) := by
  cases registration with
  | absent => cases kind <;> cases reports
  | disarmed => cases kind <;> cases reports
  | armed ev =>
      refine ⟨ev, rfl, fun readable => ?_⟩
      subst readable
      cases ev with
      | epollin => rfl
      | epollout => cases reports

theorem mem_reported {batch : List Report} : fd ∈ batch.filterMap Report.fd? ↔
    ∃ kind, .connection fd kind ∈ batch := by
  rw [List.mem_filterMap]
  constructor
  · rintro ⟨report, member, same⟩
    cases report with
    | listening => cases same
    | connection other kind =>
        cases same
        exact ⟨kind, member⟩
  · exact fun ⟨kind, member⟩ => ⟨_, member, rfl⟩

/-- One event for a descriptor in a batch. -/
theorem reported_once {batch : List Report} (once : (batch.filterMap Report.fd?).Nodup)
    {kind other : Kind} (one : .connection fd kind ∈ batch) (two : .connection fd other ∈ batch) :
    kind = other := by
  induction batch with
  | nil => cases one
  | cons report rest ih =>
      cases report with
      | listening =>
          exact ih once (by simpa using one) (by simpa using two)
      | connection first also =>
          have split := List.nodup_cons.mp once
          rcases List.mem_cons.mp one with same | later
          · cases same
            rcases List.mem_cons.mp two with equal | behind
            · cases equal
              rfl
            · exact absurd (mem_reported.mpr ⟨_, behind⟩) split.1
          · rcases List.mem_cons.mp two with equal | behind
            · cases equal
              exact absurd (mem_reported.mpr ⟨_, later⟩) split.1
            · exact ih split.2 later behind

theorem poll_hands {batch : List Report} (place : s.main = .looping) (empty : s.batch = [])
    (delivers : s.kernel.delivers batch = true) :
    Hands full s { s with batch := batch, kernel := s.kernel.deliver batch } := by
  simp only [Kernel.delivers, Bool.and_eq_true, decide_eq_true_eq, List.all_eq_true] at delivers
  obtain ⟨⟨-, once⟩, reports⟩ := delivers
  intro fd owner owned
  by_cases member : ∃ kind, .connection fd kind ∈ batch
  · obtain ⟨kind, member⟩ := member
    obtain ⟨ev, armed, more⟩ := reports_armed (reports _ member)
    have this := owned.of_armed place armed
    subst this
    refine ⟨.reported kind, ?_, .inr (.delivered ev kind)⟩
    constructor
    · refine ⟨?_, owned.fits.2.1, fun readable => owned.fits.2.2 (more readable)⟩
      exact if_pos (mem_names.mpr ⟨kind, member⟩)
    · intro other
      exact ⟨fun also => congrArg some (reported_once once member also),
        fun same => (Option.some.inj same) ▸ member⟩
    · exact owned.main
    · exact owned.queued.trans (by simp)
    · exact owned.worker
  · refine ⟨owner, owned.same ?_, .inl rfl⟩
    constructor
    · exact if_neg fun inside => member (mem_names.mp inside)
    · rfl
    · rfl
    · exact fun _ => rfl
    · intro kind
      rw [empty]
      exact iff_of_false (fun inside => member ⟨kind, inside⟩) (by simp)
    · rfl
    · exact Iff.rfl
    · exact fun w => rfl

omit [DecidableEq W] in
/-- A report about the listening socket is none about a connection. -/
theorem listening_same {rest : List Report} (batch : s.batch = .listening :: rest) :
    ∀ fd, SameView s { s with batch := rest } fd := by
  intro fd
  refine ⟨rfl, rfl, rfl, fun _ => rfl, fun kind => ?_, rfl, Iff.rfl, fun w => rfl⟩
  rw [batch]
  simp

theorem OwnedBy.of_closed (owned : s.OwnedBy fd owner) (closed : s.kernel.live fd = false) :
    owner = .nobody := by
  have fits := owned.fits
  have shut : owner.Shut := by
    by_contra held
    have live : s.kernel.live fd = true := (fits.opened held).1
    rw [closed] at live
    cases live
  cases owner with
  | nobody => rfl
  | main stage =>
      cases stage with
      | opening addr =>
          have live : s.kernel.live fd = true := fits.1
          rw [closed] at live
          cases live
      | _ => exact shut.elim
  | _ => exact shut.elim

theorem accept_hands {rest : List Report} {addr : List UInt8} (place : s.main = .looping)
    (batch : s.batch = .listening :: rest) (closed : s.kernel.live fd = false)
    (owned : s.OwnedBy fd .nobody) :
    Hands full s { s with
      batch := rest
      kernel := { s.kernel with live := Function.update s.kernel.live fd true }
      main := .serving (.opening addr) fd } := by
  refine hands_one ?_ (.accepted addr) (fun owner owned => owned.of_closed closed) ?_
  · have same := listening_same batch fd
    constructor
    · exact ⟨Function.update_self _ _ _, owned.fits⟩
    · exact fun kind => (same.batch kind).trans (owned.reported kind)
    · exact if_pos rfl
    · exact owned.queued.trans (by simp)
    · exact owned.worker
  · intro other away
    have same := listening_same batch other
    refine ⟨rfl, ?_, rfl, fun _ => rfl, same.batch, ?_, Iff.rfl, fun w => rfl⟩
    · exact Function.update_of_ne (by exact_mod_cast away) _ _
    · rw [place]
      exact serving_away away

theorem initialise_hands {addr : List UInt8} (place : s.main = .serving (.opening addr) fd)
    (quiet : QuietOn touch s fd (.initConn fd addr))
    (owned : s.OwnedBy fd (.main (.opening addr))) :
    Hands full s ((s.call touch fd (.initConn fd addr)).mainTo .looping) := by
  have fits : s.kernel.live fd = true ∧ (s.view fd).Closed := owned.fits
  have kernel : (s.call touch fd (.initConn fd addr)).kernel = s.kernel.arm fd .epollin :=
    @init_conn_kernel fd s.kernel (s.users.conn fd) fits.2.1 addr
  refine hands_one (main_call_owned .looping (.armed .epollin) owned ?_ rfl rfl (by simp)
    fun w => rfl) (.opened addr) (main_owner place)
    (main_call_same .looping place quiet ?_ fun other away => rfl)
  · refine ⟨?_, ⟨?_, ?_, ?_⟩, fun _ => ?_⟩
    · simp only [view, kernel, Kernel.arm, Function.update_self]
    · simp only [view, kernel, Kernel.arm]
      exact fits.1
    · simp [view, call, Users.afterBy, Operation.initialises]
    · simp only [view, call, Users.afterBy, ↓reduceIte, invoke, initConn,
        and_then_conn, init_sockfd]
      rfl
    · simp only [view, call, Users.afterBy, ↓reduceIte, invoke, initConn, and_then_conn]
      exact init_ready _
  · rw [kernel]
    exact apart_arm fd s.kernel .epollin

theorem dispatch_hands {kind : Kind} {rest : List Report} (place : s.main = .looping)
    (batch : s.batch = .connection fd kind :: rest) (once : (s.batch.filterMap Report.fd?).Nodup)
    (owned : s.OwnedBy fd (.reported kind)) :
    Hands full s { s with batch := rest, main := .serving kind.stage fd } := by
  have fresh : fd ∉ rest.filterMap Report.fd? := by
    rw [batch] at once
    exact (List.nodup_cons.mp once).1
  have known (owner : Owner W) (also : s.OwnedBy fd owner) : owner = .reported kind := by
    have here := (also.reported kind).mp (by rw [batch]; exact List.mem_cons_self)
    cases owner with
    | reported other => exact congrArg Owner.reported (Option.some.inj here)
    | _ => cases here
  refine hands_one ?_ (.dispatched kind) known ?_
  · obtain ⟨disarmed, opened, ready⟩ := owned.fits
    constructor
    · cases kind with
      | hangUp => exact ⟨not_absent disarmed, opened⟩
      | readable => exact ⟨disarmed, opened, ready rfl⟩
      | writable => exact ⟨disarmed, opened⟩
    · intro other
      exact iff_of_false (fun member => fresh (mem_reported.mpr ⟨other, member⟩)) (by
        simp [Owner.pending])
    · exact if_pos rfl
    · exact owned.queued.trans (by simp)
    · exact owned.worker
  · intro other away
    refine ⟨rfl, rfl, rfl, fun _ => rfl, fun kind => ?_, ?_, Iff.rfl, fun w => rfl⟩
    · rw [batch, List.mem_cons]
      constructor
      · exact .inr
      · rintro (same | member)
        · cases same
          exact absurd rfl away
        · exact member
    · rw [place]
      exact serving_away away

theorem read_hands {results : List Recv} (place : s.main = .serving .reading fd)
    (quiet : QuietOn touch s fd (.read results)) (owned : s.OwnedBy fd (.main .reading)) :
    Hands full s ((s.call touch fd (.read results)).mainTo
      (.serving (if (read results (s.users.conn fd)).ret then .appending else .closing) fd)) := by
  obtain ⟨disarmed, ⟨live, initialised, sockfd⟩, empty, readable⟩ := owned.fits
  have kernel : (s.call touch fd (.read results)).kernel = s.kernel :=
    @read_kernel s.kernel (s.users.conn fd) results
  have others (stage : MainStage) := main_call_same (.serving stage fd) place quiet
    (by rw [kernel]; exact apart_refl fd _) fun other away => serving_away away
  have shows : Shows (s.users.conn fd) (readerOf (s.users.conn fd)) := readable
  obtain ⟨bytes, conn, fits⟩ := read_appends results (s.users.conn fd) shows.room
  have after : (s.call touch fd (.read results)).view fd =
      { s.view fd with conn := appendRead bytes (s.users.conn fd) } := by
    simp only [view, kernel]
    simp only [call, Users.afterBy, ↓reduceIte, invoke, Outcome.dropValue, conn]
    simp [Operation.initialises]
  by_cases more : (read results (s.users.conn fd)).ret = true
  · rw [if_pos more]
    refine hands_one (main_call_owned _ (.main .appending) owned ?_ (if_pos rfl) rfl (by simp)
      fun w => rfl) .filled (main_owner place) (others .appending)
    rw [Owner.Fits, after]
    exact ⟨disarmed, ⟨live, initialised, sockfd⟩, empty, (shows.feed bytes fits).readable⟩
  · rw [if_neg more]
    refine hands_one (main_call_owned _ (.main .closing) owned ?_ (if_pos rfl) rfl (by simp)
      fun w => rfl) .failed (main_owner place) (others .closing)
    rw [Owner.Fits, after]
    exact ⟨not_absent disarmed, live, initialised, sockfd⟩

theorem append_hands (place : s.main = .serving .appending fd)
    (owned : s.OwnedBy fd (.main .appending)) :
    Hands full s { s with queue := s.queue ++ [fd], main := .posting } := by
  obtain ⟨disarmed, opened, ready⟩ := owned.fits
  refine hands_one ?_ .appended (main_owner place) ?_
  · constructor
    · exact ⟨disarmed, opened, ready⟩
    · exact owned.reported
    · rfl
    · simp
    · exact owned.worker
  · intro other away
    refine ⟨rfl, rfl, rfl, fun _ => rfl, fun kind => Iff.rfl, ?_, ?_, fun w => rfl⟩
    · rw [place]
      exact (serving_away away).symm
    · simp [away]

theorem refuse_hands (place : s.main = .serving .appending fd) (no : full)
    (owned : s.OwnedBy fd (.main .appending)) : Hands full s (s.mainTo .looping) := by
  obtain ⟨disarmed, opened, ready⟩ := owned.fits
  refine hands_one ?_ (.refused no) (main_owner place) ?_
  · constructor
    · exact ⟨disarmed, opened⟩
    · exact owned.reported
    · rfl
    · exact owned.queued.trans (by simp)
    · exact owned.worker
  · intro other away
    refine ⟨rfl, rfl, rfl, fun _ => rfl, fun kind => Iff.rfl, ?_, Iff.rfl, fun w => rfl⟩
    rw [place]
    exact (serving_away away).symm

theorem post_hands (place : s.main = .posting) :
    Hands full s { s with posted := s.posted + 1, main := .looping } := by
  refine hands_none fun fd => ⟨rfl, rfl, rfl, fun _ => rfl, fun kind => Iff.rfl, ?_, Iff.rfl,
    fun w => rfl⟩
  rw [place]
  rfl

theorem write_hands {pages : Memory} {results : List Writev}
    (place : s.main = .serving .writing fd) (quiet : QuietOn touch s fd (.write pages results))
    (owned : s.OwnedBy fd (.main .writing)) :
    Hands full s ((s.call touch fd (.write pages results)).mainTo
      (if (write pages results (s.users.conn fd)).ret then .looping else
        .serving .closing fd)) := by
  obtain ⟨disarmed, live, initialised, sockfd⟩ := owned.fits
  have registered : s.kernel.epoll fd ≠ .absent := not_absent disarmed
  have descriptor : (s.users.conn fd).sockfd = fd := sockfd
  obtain ⟨kept, ends⟩ := write_ends pages results descriptor registered
  generalize result : write pages results (s.users.conn fd) = call at kept ends
  have kernel : (s.call touch fd (.write pages results)).kernel = s.kernel.run call.log := by
    rw [← result]
    rfl
  have after : (s.call touch fd (.write pages results)).view fd = { s.view fd with
      registration := (s.kernel.run call.log).epoll fd
      live := (s.kernel.run call.log).live fd
      conn := call.conn } := by
    simp only [view, kernel]
    simp only [System.call, Users.afterBy, ↓reduceIte, invoke, Outcome.dropValue, result]
    simp [Operation.initialises]
  have opened {k : Kernel} (same : s.kernel.run call.log = k) (still : k.live = s.kernel.live) :
      ((s.call touch fd (.write pages results)).view fd).Open := by
    rw [after]
    exact ⟨by rw [same, still]; exact live, initialised, kept⟩
  have apart {k : Kernel} (same : s.kernel.run call.log = k) (apart : ApartFrom fd s.kernel k) :
      ApartFrom fd s.kernel (s.call touch fd (.write pages results)).kernel := by
    rw [kernel, same]
    exact apart
  -- write() arms the descriptor and goes on, or asks main to close.
  cases ends with
  | armed ev ret armed ready =>
      rw [if_pos ret]
      refine hands_one (main_call_owned .looping (.armed ev) owned ?_ rfl rfl (by simp) fun w =>
        rfl)
        (.written ev) (main_owner place)
        (main_call_same .looping place quiet (apart armed (apart_arm fd _ ev)) fun other away =>
          rfl)
      refine ⟨?_, opened armed rfl, fun epollin => ?_⟩
      · rw [after, armed]
        exact Function.update_self ..
      · rw [after]
        exact ready epollin
  | failed ret same =>
      rw [if_neg (by rw [ret]; decide)]
      refine hands_one (main_call_owned _ (.main .closing) owned ?_ (if_pos rfl) rfl (by simp)
        fun w => rfl) .finished (main_owner place)
        (main_call_same _ place quiet (apart same (apart_refl fd _)) fun other => serving_away)
      refine ⟨?_, opened same rfl⟩
      rw [after, same]
      exact registered
  | finished ret armed =>
      rw [if_neg (by rw [ret]; decide)]
      refine hands_one (main_call_owned _ (.main .closing) owned ?_ (if_pos rfl) rfl (by simp)
        fun w => rfl) .finished (main_owner place)
        (main_call_same _ place quiet (apart armed (apart_arm fd _ _)) fun other => serving_away)
      refine ⟨?_, opened armed rfl⟩
      rw [after, armed]
      simp [Kernel.arm]

theorem close_hands (place : s.main = .serving .closing fd) (quiet : QuietOn touch s fd .closeConn)
    (owned : s.OwnedBy fd (.main .closing)) :
    Hands full s ((s.call touch fd .closeConn).mainTo .looping) := by
  obtain ⟨-, -, -, sockfd⟩ := owned.fits
  have kernel : (s.call touch fd .closeConn).kernel =
      ⟨Function.update s.kernel.live fd false, Function.update s.kernel.epoll fd .absent⟩ :=
    @close_conn_kernel fd s.kernel (s.users.conn fd) sockfd
  refine hands_one (main_call_owned .looping .nobody owned ?_ rfl rfl (by simp) fun w => rfl)
    .closed (main_owner place) (main_call_same .looping place quiet ?_ fun other away => rfl)
  · refine ⟨?_, fun _ => ?_⟩
    · simp only [view, kernel]
      exact Function.update_self ..
    · have held : (s.users.conn fd).sockfd ≠ -1 := by
        have same : (s.users.conn fd).sockfd = fd := sockfd
        omega
      simp [view, call, Users.afterBy, invoke, closeConn, held]
  · rw [kernel]
    intro other away
    have different : (other : Int) ≠ fd := by exact_mod_cast away
    exact ⟨Function.update_of_ne different _ _, Function.update_of_ne different _ _⟩

end Main

section Workers
variable {w : W}

theorem worker_to_stage (place : WorkerAt) (v : W) :
    (Function.update s.workers w place) v = if v = w then place else s.workers v := by
  by_cases same : v = w
  · subst same
    simp
  · simp [same]

/-- A worker that had no connection and has none now. -/
theorem idle_same {place : WorkerAt} (before : ∀ fd, (s.workers w).stageAt fd = none)
    (after : ∀ fd, place.stageAt fd = none) (posted : Nat) :
    ∀ fd, SameView s { s.workerTo w place with posted := posted } fd := by
  intro fd
  refine ⟨rfl, rfl, rfl, fun _ => rfl, fun kind => Iff.rfl, rfl, Iff.rfl, fun v => ?_⟩
  show ((Function.update s.workers w place) v).stageAt fd = _
  rw [worker_to_stage]
  split_ifs with same
  · rw [after, same, before]
  · rfl

theorem take_hands {rest : List Nat} (place : s.workers w = .woken) (queue : s.queue = fd :: rest)
    (once : s.queue.Nodup) (owned : s.OwnedBy fd .queued) :
    Hands full s { s.workerTo w (.processing .parsing fd) with queue := rest } := by
  have fresh : fd ∉ rest := by
    rw [queue] at once
    exact (List.nodup_cons.mp once).1
  have known (owner : Owner W) (also : s.OwnedBy fd owner) : owner = .queued :=
    also.queued.mp (by rw [queue]; exact List.mem_cons_self)
  refine hands_one ?_ (.taken w) known ?_
  · constructor
    · exact owned.fits
    · exact owned.reported
    · exact owned.main
    · exact iff_of_false fresh (by simp)
    · intro v
      show ((Function.update s.workers w _) v).stageAt fd = _
      rw [worker_to_stage, Owner.stageOf]
      split_ifs with same other other
      · exact if_pos rfl
      · exact absurd same.symm other
      · exact absurd other.symm same
      · exact owned.worker v
  · intro other away
    refine ⟨rfl, rfl, rfl, fun _ => rfl, fun kind => Iff.rfl, rfl, ?_, fun v => ?_⟩
    · rw [queue, List.mem_cons]
      exact ⟨.inr, fun member => member.resolve_left away⟩
    · show ((Function.update s.workers w _) v).stageAt other = _
      rw [worker_to_stage]
      split_ifs with same
      · rw [processing_away away, same, place]
        rfl
      · rfl

/-- A part of process() that only changes the object. -/
theorem worker_call_hands {stage next : ProcessStage} (place : s.workers w = .processing stage fd)
    (still : stage ≠ .leaving) (stays : next ≠ .leaving) (quiet : QuietOn touch s fd op)
    (kernel : (s.call touch fd op).kernel = s.kernel) (opens : op.initialises = false)
    (owned : s.OwnedBy fd (.worker w stage))
    (sockfd : (invoke op (s.users.conn fd)).conn.sockfd = (s.users.conn fd).sockfd)
    (fits : next.Fits { s.view fd with conn := (invoke op (s.users.conn fd)).conn })
    (passes : Passes full (.worker w stage) (.worker w next)) :
    Hands full s ((s.call touch fd op).workerTo w (.processing next fd)) := by
  obtain ⟨disarmed, ⟨live, initialised, descriptor⟩, -⟩ := owned.fits
  have after : (s.call touch fd op).view fd =
      { s.view fd with conn := (invoke op (s.users.conn fd)).conn } := by
    simp only [view, kernel]
    simp [call, Users.afterBy, opens]
  refine hands_one (worker_call_owned stays owned ?_) passes (worker_owner place still)
    (worker_call_same place quiet (by rw [kernel]; exact apart_refl fd _))
  rw [Owner.Fits, after]
  exact ⟨disarmed, ⟨live, initialised, sockfd.trans descriptor⟩, fits⟩

theorem parse_hands {fs : FileSystem} (place : s.workers w = .processing .parsing fd)
    (quiet : QuietOn touch s fd (.processRead fs)) (inside : LengthInside (s.users.conn fd))
    (owned : s.OwnedBy fd (.worker w .parsing)) :
    Hands full s ((s.call touch fd (.processRead fs)).workerTo w (.processing
      (if (processRead fs (s.users.conn fd)).ret = .noRequest then .rearming .epollin
        else .answering (processRead fs (s.users.conn fd)).ret) fd)) := by
  have ready : Ready (s.users.conn fd) := owned.fits.2.2
  obtain ⟨written, readable⟩ := ready
  have stores := (process_read_inside_iff fs readable).mpr inside
  have sockfd := (process_read_sound fs readable stores).2.2
  have hands {next : ProcessStage} (stays : next ≠ .leaving)
      (fits : next.Fits { s.view fd with conn := (processRead fs (s.users.conn fd)).conn }) :
      Hands full s ((s.call touch fd (.processRead fs)).workerTo w (.processing next fd)) :=
    worker_call_hands place (by simp) stays quiet (process_read_kernel fs) rfl owned sockfd fits
      (.parsed w next)
  cases process_read_parsed fs readable with
  | waits r shows ret same =>
      rw [if_pos ret]
      exact hands (by simp) ⟨same.writeIdx.trans written, shows.readable⟩
  | refused answer other fileAddress writeIdx =>
      have answers : (processRead fs (s.users.conn fd)).ret ≠ .noRequest := by
        rcases answer with ret | ret | ret | ret <;> rw [ret] <;> decide
      rw [if_neg answers]
      exact hands (by simp) ⟨writeIdx.trans written, answer⟩
  | file ret real writeIdx =>
      rw [if_neg (by rw [ret]; decide)]
      exact hands (by simp) ⟨writeIdx.trans written, .inr (.inr (.inr ret))⟩

theorem answer_hands {ret : HttpCode} (place : s.workers w = .processing (.answering ret) fd)
    (quiet : QuietOn touch s fd (.processWrite ret))
    (owned : s.OwnedBy fd (.worker w (.answering ret))) :
    Hands full s ((s.call touch fd (.processWrite ret)).workerTo w (.processing
      (if (processWrite ret (s.users.conn fd)).ret then .rearming .epollout else .closing) fd))
      := by
  have fits : (s.users.conn fd).writeIdx = 0 ∧ ret.Answer := owned.fits.2.2
  obtain ⟨written, answer⟩ := fits
  obtain ⟨writeBuf, writeIdx, iv0, iv1, ivCount, members⟩ :=
    process_write_members ret (s.users.conn fd)
  have sockfd : (invoke (.processWrite ret) (s.users.conn fd)).conn.sockfd =
      (s.users.conn fd).sockfd := by
    show (processWrite ret (s.users.conn fd)).conn.sockfd = _
    rw [members]
  rw [if_pos (process_write_succeeds written answer)]
  exact worker_call_hands place (by simp) (by simp) quiet
    (process_write_kernel ret) rfl owned sockfd
    trivial (.answered w ret)

/-- The last modfd gives the connection to the epoll instance. -/
theorem rearm_hands {ev : Interest} (place : s.workers w = .processing (.rearming ev) fd)
    (owned : s.OwnedBy fd (.worker w (.rearming ev))) :
    Hands full s { s.workerTo w (.processing .leaving fd) with
      kernel := s.kernel.act (.modfd (s.users.conn fd).sockfd ev) } := by
  obtain ⟨disarmed, opened, fits⟩ := owned.fits
  have descriptor : (s.users.conn fd).sockfd = fd := opened.2.2
  have registered : s.kernel.epoll fd ≠ .absent := not_absent disarmed
  have kernel : s.kernel.act (.modfd (s.users.conn fd).sockfd ev) = s.kernel.arm fd ev := by
    rw [descriptor]
    exact act_modfd registered ev
  rw [kernel]
  refine hands_one ?_ (.rearmed w ev) (worker_owner place (by simp)) ?_
  · constructor
    · refine ⟨Function.update_self .., opened, fun epollin => ?_⟩
      subst epollin
      exact fits
    · exact owned.reported
    · exact owned.main
    · exact owned.queued.trans (by simp)
    · intro v
      show ((Function.update s.workers w _) v).stageAt fd = _
      rw [worker_to_stage]
      split_ifs with same
      · rfl
      · rw [owned.worker v, Owner.stageOf, if_neg (Ne.symm same)]
        rfl
  · intro other away
    have apart := apart_arm fd s.kernel ev other away
    refine ⟨apart.1, apart.2, rfl, fun _ => rfl, fun kind => Iff.rfl, rfl, Iff.rfl, fun v => ?_⟩
    show ((Function.update s.workers w _) v).stageAt other = _
    rw [worker_to_stage]
    split_ifs with same
    · rw [same, place, processing_away away]
      exact (processing_away away).symm
    · rfl

end Workers

/-- append turns a connection away. -/
def Full (s : System W) : Action W → Prop
  | .append => maxRequests < s.queue.length
  | _ => False

/-- The system passes connections on, and leaves the queue and the batch without
repetitions. -/
structure Stepped (full : Prop) (s t : System W) : Prop where
  hands : Hands full s t
  queue : t.queue.Nodup
  batch : (t.batch.filterMap Report.fd?).Nodup

section Step
variable {action : Action W}

theorem poll_stepped (owned : s.Owned) {batch : List Report}
    (step : s.step touch (.poll batch) = some t) : Stepped full s t := by
  simp only [System.step] at step
  split_ifs at step with enabled
  obtain ⟨place, empty, delivers⟩ := enabled
  cases step
  refine ⟨poll_hands place empty delivers, owned.queue, ?_⟩
  simp only [Kernel.delivers, Bool.and_eq_true, decide_eq_true_eq] at delivers
  exact delivers.1.2

theorem accept_stepped (owned : s.Owned) {answer : Option (Nat × List UInt8)}
    (step : s.step touch (.accept answer) = some t) : Stepped full s t := by
  simp only [System.step] at step
  split at step
  · next rest place batch =>
      have once : (rest.filterMap Report.fd?).Nodup := by
        have before := owned.batch
        rw [batch] at before
        exact before
      split at step
      · cases step
        exact ⟨hands_none (listening_same batch), owned.queue, once⟩
      · next fd addr =>
          split_ifs at step with live limit
          · cases step
            exact ⟨hands_none (listening_same batch), owned.queue, once⟩
          · cases step
            have closed : s.kernel.live fd = false := by simpa using live
            obtain ⟨owner, held⟩ := owned.owner fd
            have nobody := held.of_closed closed
            subst nobody
            exact ⟨accept_hands place batch closed held, owned.queue, once⟩
  · cases step

theorem dispatch_stepped (owned : s.Owned) (step : s.step touch .dispatch = some t) :
    Stepped full s t := by
  simp only [System.step] at step
  split at step
  · next fd kind rest place batch =>
      cases step
      obtain ⟨owner, held⟩ := owned.owner fd
      have reported := (held.reported kind).mp (by rw [batch]; exact List.mem_cons_self)
      have this : owner = .reported kind := by
        cases owner with
        | reported other => exact congrArg Owner.reported (Option.some.inj reported)
        | _ => cases reported
      subst this
      refine ⟨dispatch_hands place batch owned.batch held, owned.queue, ?_⟩
      have before := owned.batch
      rw [batch] at before
      exact (List.nodup_cons.mp before).2
  · cases step

theorem Owned.main (owned : s.Owned) {stage : MainStage} (place : s.main = .serving stage fd) :
    s.OwnedBy fd (.main stage) := by
  obtain ⟨owner, held⟩ := owned.owner fd
  rw [← main_owner place owner held]
  exact held

theorem Owned.worker (owned : s.Owned) {w : W} {stage : ProcessStage}
    (place : s.workers w = .processing stage fd) (still : stage ≠ .leaving) :
    s.OwnedBy fd (.worker w stage) := by
  obtain ⟨owner, held⟩ := owned.owner fd
  rw [← worker_owner place still owner held]
  exact held

theorem append_stepped (owned : s.Owned) (step : s.step touch .append = some t) :
    Stepped (s.Full .append) s t := by
  simp only [System.step] at step
  split at step
  · next fd place =>
      have held := owned.main place
      split_ifs at step with full
      · cases step
        exact ⟨refuse_hands place full held, owned.queue, owned.batch⟩
      · cases step
        refine ⟨append_hands place held, ?_, owned.batch⟩
        have fresh : fd ∉ s.queue := fun member => by
          have queued := held.queued.mp member
          cases queued
        rw [← List.concat_eq_append]
        exact (List.nodup_concat s.queue fd).mpr ⟨fresh, owned.queue⟩
  · cases step

theorem take_stepped (owned : s.Owned) {w : W} (step : s.step touch (.take w) = some t) :
    Stepped full s t := by
  simp only [System.step] at step
  split at step
  · next place =>
      split at step
      · cases step
        have before (fd : Nat) : (s.workers w).stageAt fd = none := by rw [place]; rfl
        exact ⟨hands_none (idle_same before (fun fd => rfl) s.posted), owned.queue, owned.batch⟩
      · next fd rest queue =>
          cases step
          obtain ⟨owner, held⟩ := owned.owner fd
          have this := held.queued.mp (by rw [queue]; exact List.mem_cons_self)
          subst this
          refine ⟨take_hands place queue owned.queue held, ?_, owned.batch⟩
          have once := owned.queue
          rw [queue] at once
          exact (List.nodup_cons.mp once).2
  · cases step

theorem wake_stepped (owned : s.Owned) {w : W} (step : s.step touch (.wake w) = some t) :
    Stepped full s t := by
  simp only [System.step] at step
  split at step
  · next place =>
      split_ifs at step
      cases step
      have before (fd : Nat) : (s.workers w).stageAt fd = none := by rw [place]; rfl
      exact ⟨hands_none (idle_same before (fun fd => rfl) _), owned.queue, owned.batch⟩
  · cases step

theorem leave_stepped (owned : s.Owned) {w : W} (step : s.step touch (.leave w) = some t) :
    Stepped full s t := by
  simp only [System.step] at step
  split at step
  · next fd place =>
      cases step
      have before (fd : Nat) : (s.workers w).stageAt fd = none := by rw [place]; rfl
      exact ⟨hands_none (idle_same before (fun fd => rfl) s.posted), owned.queue, owned.batch⟩
  · cases step

end Step

/-- An action passes connections on, and leaves each with one owner. -/
theorem step_hands (owned : s.Owned) {action : Action W} (quiet : s.Quiet touch action)
    (inside : s.LengthsInside action) (step : s.step touch action = some t) :
    Stepped (s.Full action) s t := by
  cases action with
  | poll batch => exact poll_stepped owned step
  | accept answer => exact accept_stepped owned step
  | dispatch => exact dispatch_stepped owned step
  | append => exact append_stepped owned step
  | take w => exact take_stepped owned step
  | wake w => exact wake_stepped owned step
  | leave w => exact leave_stepped owned step
  | initialise =>
      simp only [System.step] at step
      split at step
      · next addr fd place =>
          cases step
          have apart := quiet fd (.initConn fd addr) (by simp only [called, place])
          exact ⟨initialise_hands place apart (owned.main place), owned.queue, owned.batch⟩
      · cases step
  | read results =>
      simp only [System.step] at step
      split at step
      · next fd place =>
          cases step
          have apart := quiet fd (.read results) (by simp only [called, place])
          exact ⟨read_hands place apart (owned.main place), owned.queue, owned.batch⟩
      · cases step
  | post =>
      simp only [System.step] at step
      split at step
      · next place =>
          cases step
          exact ⟨post_hands place, owned.queue, owned.batch⟩
      · cases step
  | write pages results =>
      simp only [System.step] at step
      split at step
      · next fd place =>
          cases step
          have apart := quiet fd (.write pages results) (by simp only [called, place])
          exact ⟨write_hands place apart (owned.main place), owned.queue, owned.batch⟩
      · cases step
  | close =>
      simp only [System.step] at step
      split at step
      · next fd place =>
          cases step
          have apart := quiet fd .closeConn (by simp only [called, place])
          exact ⟨close_hands place apart (owned.main place), owned.queue, owned.batch⟩
      · cases step
  | parse w fs =>
      simp only [System.step] at step
      split at step
      · next fd place =>
          cases step
          have here : s.called (.parse w fs) = some (fd, .processRead fs) := by
            simp only [called, place]
          exact ⟨parse_hands place (quiet fd _ here) (inside fd fs here)
            (owned.worker place (by simp)), owned.queue, owned.batch⟩
      · cases step
  | answer w =>
      simp only [System.step] at step
      split at step
      · next ret fd place =>
          cases step
          have apart := quiet fd (.processWrite ret) (by simp only [called, place])
          exact ⟨answer_hands place apart (owned.worker place (by simp)), owned.queue, owned.batch⟩
      · cases step
  | shut w =>
      simp only [System.step] at step
      split at step
      · next fd place =>
          -- no worker ever comes to close_conn
          exact ((owned.worker place (by simp)).fits.2.2).elim
      · cases step
  | rearm w =>
      simp only [System.step] at step
      split at step
      · next ev fd place =>
          cases step
          exact ⟨rearm_hands place (owned.worker place (by simp)), owned.queue, owned.batch⟩
      · cases step

theorem Stepped.owned (stepped : Stepped full s t) (owned : s.Owned) : t.Owned := by
  refine ⟨fun fd => ?_, stepped.queue, stepped.batch⟩
  obtain ⟨owner, held⟩ := owned.owner fd
  obtain ⟨next, holds, -⟩ := stepped.hands fd owner held
  exact ⟨next, holds⟩

theorem start_nobody (live : Int → Bool) (conn : Nat → HttpConn) (fd : Nat) :
    (start live conn : System W).OwnedBy fd .nobody := by
  constructor
  · exact ⟨rfl, fun initialised => by cases initialised⟩
  · exact fun kind => by simp [start, Owner.pending]
  · rfl
  · simp [start]
  · exact fun w => rfl

theorem start_owned (live : Int → Bool) (conn : Nat → HttpConn) :
    (start live conn : System W).Owned :=
  ⟨fun fd => ⟨.nobody, start_nobody live conn fd⟩, List.nodup_nil, List.nodup_nil⟩

end System

end StudyWebServer
