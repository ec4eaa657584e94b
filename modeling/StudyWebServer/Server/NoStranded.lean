import StudyWebServer.Server.Handover

/-!
No open connection is out of reach of every later event and thread, as long as
append takes what it is given. main does not look at what append returns, so a
connection that it turns away stays open, disarmed and in no queue.
-/

namespace StudyWebServer

open ByteMemory

namespace System
variable {W : Type}

def Open (s : System W) (fd : Nat) : Prop :=
  s.users.initialised fd = true ∧ (s.users.conn fd).sockfd ≠ -1

/-- Armed in epoll, with main, in the queue, or with a worker that has still to
arm it. -/
def Held (s : System W) (fd : Nat) : Prop :=
  (∃ ev, s.kernel.epoll fd = .armed ev) ∨
  ((∃ kind, .connection fd kind ∈ s.batch) ∨ ∃ stage, s.main.stageAt fd = some stage) ∨
  fd ∈ s.queue ∨ ∃ w stage, (s.workers w).stageAt fd = some stage

/-- append has room, and an operation stays within its object or runs in front of
one that was never used. -/
def Orderly (s : System W) (action : Action W) : Prop :=
  ¬ s.Full action ∧ ∀ fd op, s.called action = some (fd, op) →
    Contained (s.users.conn fd) op ∨
      (∀ fs, op ≠ .processRead fs) ∧ s.users.initialised (fd + 1) = false

variable [DecidableEq W] {s t : System W} {fd : Nat} {action : Action W}

theorem Owned.parsing_ready (owned : s.Owned) {fs : FileSystem}
    (here : s.called action = some (fd, .processRead fs)) : Ready (s.users.conn fd) := by
  cases action with
  | parse w fs =>
      simp only [called] at here
      split at here
      · next at_ place =>
          cases here
          exact (owned.worker place (by simp)).fits.2.2
      · cases here
  | _ =>
      simp only [called] at here
      repeat' (first | cases here | split at here)

/-- Orderly operations are not noticed by other connections. -/
theorem Orderly.quiet (orderly : s.Orderly action) (owned : s.Owned) :
    s.Quiet spilled action := by
  intro fd op here other away connection
  have distance : (other : Int) - fd ≠ 0 := by omega
  rcases orderly.2 fd op here with contained | ⟨parses, unused⟩
  · have readable (fs : FileSystem) (same : op = .processRead fs) :
        Readable (s.users.conn fd) := by
      subst same
      exact (owned.parsing_ready here).2
    exact spilled_inside distance ((invoke_contained_iff readable).mpr contained)
  · have beyond : (other : Int) - fd ≠ 1 := by
      intro next
      have same : other = fd + 1 := by omega
      rw [same, unused] at connection
      cases connection
    exact spilled_beyond distance beyond (overruns_without_parsing (s.users.conn fd) parses)

omit [DecidableEq W] in
theorem Orderly.lengths (orderly : s.Orderly action) : s.LengthsInside action := by
  intro fd fs here
  rcases orderly.2 fd _ here with contained | ⟨other, -⟩
  · exact contained
  · exact absurd rfl (other fs)

/-- Everything has one owner and nothing is lost. -/
structure Kept (s : System W) : Prop where
  owned : s.Owned
  held : ∀ fd, ∃ owner, owner ≠ .lost ∧ s.OwnedBy fd owner

theorem start_kept (live : Int → Bool) (conn : Nat → HttpConn) :
    (start live conn : System W).Kept :=
  ⟨start_owned live conn, fun fd => ⟨.nobody, by simp, start_nobody live conn fd⟩⟩

theorem Kept.step (kept : s.Kept) (orderly : s.Orderly action)
    (step : s.step spilled action = some t) : t.Kept := by
  have stepped := step_hands kept.owned (orderly.quiet kept.owned) orderly.lengths step
  refine ⟨stepped.owned kept.owned, fun fd => ?_⟩
  obtain ⟨owner, held, owned⟩ := kept.held fd
  obtain ⟨next, holds, passes⟩ := stepped.hands fd owner owned
  refine ⟨next, ?_, holds⟩
  rcases passes with same | passes
  · rw [same]
    exact held
  · cases passes with
    | refused full => exact absurd full orderly.1
    | _ => simp

theorem reached_kept (reached : s.Reached spilled Orderly) : s.Kept := by
  obtain ⟨live, conn, run⟩ := reached
  induction run with
  | refl => exact start_kept live conn
  | tail _ last ih =>
      obtain ⟨action, orderly, step⟩ := last
      exact ih.step orderly step

theorem OwnedBy.held {owner : Owner W} (owned : s.OwnedBy fd owner) (kept : owner ≠ .lost)
    (opened : s.Open fd) : s.Held fd := by
  have closed (shut : (s.view fd).Closed) : False := opened.2 (shut.2 opened.1)
  cases owner with
  | nobody => exact (closed owned.fits).elim
  | armed ev => exact .inl ⟨ev, owned.fits.1⟩
  | reported kind => exact .inr (.inl (.inl ⟨kind, (owned.reported kind).mpr rfl⟩))
  | main stage => exact .inr (.inl (.inr ⟨stage, owned.main⟩))
  | queued => exact .inr (.inr (.inl (owned.queued.mpr rfl)))
  | worker w stage => exact .inr (.inr (.inr ⟨w, stage, (owned.worker w).trans (if_pos rfl)⟩))
  | lost => exact absurd rfl kept

/-- In a run in which append turns nothing away and no operation stores into
another connection, something or someone has every open connection. -/
theorem no_stranded (reached : s.Reached spilled Orderly) (fd : Nat) (opened : s.Open fd) :
    s.Held fd := by
  obtain ⟨owner, kept, owned⟩ := (reached_kept reached).held fd
  exact owned.held kept opened

section Crowd
variable {n : Nat} {s t u : System (Fin 8)}

/-- Any action, with the stores of init() where they fall. -/
abbrev Leads (s t : System (Fin 8)) : Prop :=
  Relation.ReflTransGen
    (fun before after => ∃ action, True ∧ before.step spilled action = some after) s t

theorem Leads.then (before : Leads s t) (action : Action (Fin 8))
    (step : t.step spilled action = some u) : Leads s u := .tail before ⟨action, trivial, step⟩

/-- Connections on the descriptors from 5 on, all of them in the queue. -/
structure Crowd (n : Nat) (s : System (Fin 8)) : Prop where
  main : s.main = .looping
  batch : s.batch = []
  length : s.queue.length = n
  queue : ∀ fd ∈ s.queue, fd < n + 5
  fresh : ∀ fd : Nat, n + 5 ≤ fd → s.kernel.live fd = false ∧ s.kernel.epoll fd = .absent
  count : s.userCount = n
  workers : ∀ w, s.workers w = .waiting

/-- One more, read and about to be appended. -/
structure Arrived (n : Nat) (s : System (Fin 8)) : Prop where
  main : s.main = .serving .appending (n + 5)
  batch : s.batch = []
  length : s.queue.length = n
  queue : ∀ fd ∈ s.queue, fd < n + 5
  fresh : ∀ fd : Nat, n + 6 ≤ fd → s.kernel.live fd = false ∧ s.kernel.epoll fd = .absent
  count : s.userCount = n + 1
  workers : ∀ w, s.workers w = .waiting
  disarmed : s.kernel.epoll (n + 5 : Nat) = .disarmed
  opened : s.Open (n + 5)

/-- Accepted, and in front of init(). -/
def accepted (s : System (Fin 8)) (fd : Nat) : System (Fin 8) := { s with
  batch := []
  kernel := { s.kernel with live := Function.update s.kernel.live fd true }
  main := .serving (.opening []) fd }

def connected (s : System (Fin 8)) (fd : Nat) : System (Fin 8) :=
  ((s.accepted fd).call spilled fd (.initConn fd [])).mainTo .looping

def reported (s : System (Fin 8)) (fd : Nat) : System (Fin 8) := { s with
  kernel := s.kernel.deliver [.connection fd .readable]
  main := .serving .reading fd }

def received (s : System (Fin 8)) (fd : Nat) : System (Fin 8) :=
  (s.call spilled fd (.read [.data [71], .again])).mainTo (.serving .appending fd)

variable {fd : Nat}

theorem accept_leads (main : s.main = .looping) (batch : s.batch = [])
    (free : s.kernel.live fd = false) (room : s.userCount < maxFd) : Leads s (s.accepted fd) := by
  refine (Leads.then .refl (.poll [.listening])
    (u := { s with batch := [.listening] }) ?_).then (.accept (some (fd, []))) ?_
  · have delivers : s.kernel.delivers [.listening] = true := rfl
    exact if_pos ⟨main, batch, delivers⟩
  · have below : ¬ (maxFd : Int) ≤ s.userCount := by omega
    simp only [step, main, free, below, Bool.false_eq_true, ↓reduceIte]
    rfl

theorem connect_leads (s : System (Fin 8)) (fd : Nat) : Leads (s.accepted fd) (s.connected fd) :=
  Leads.then .refl .initialise rfl

theorem report_leads (main : s.main = .looping) (batch : s.batch = [])
    (armed : s.kernel.epoll fd = .armed .epollin) : Leads s (s.reported fd) := by
  refine (Leads.then .refl (.poll [.connection fd .readable]) (u := { s with
    batch := [.connection fd .readable]
    kernel := s.kernel.deliver [.connection fd .readable] }) ?_).then .dispatch ?_
  · have delivers : s.kernel.delivers [.connection fd .readable] = true := by
      simp [Kernel.delivers, maxEventNumber, Report.fd?, armed, Registration.reports]
    exact if_pos ⟨main, batch, delivers⟩
  · simp only [step, main]
    rw [reported, batch]
    rfl

theorem receive_leads (main : s.main = .serving .reading fd)
    (empty : (s.users.conn fd).readIdx = 0) : Leads s (s.received fd) := by
  have taken : (StudyWebServer.read [.data [71], .again] (s.users.conn fd)).ret = true := by
    simp [StudyWebServer.read, readLoop, empty, readBufferSize]
  refine Leads.then .refl (.read [.data [71], .again]) ?_
  simp only [step, main, taken, ↓reduceIte]
  rfl

theorem connected_kernel (absent : s.kernel.epoll fd = .absent) :
    (s.connected fd).kernel = (s.accepted fd).kernel.arm fd .epollin :=
  @init_conn_kernel fd (s.accepted fd).kernel (s.users.conn fd) absent []

theorem connected_conn (s : System (Fin 8)) (fd : Nat) :
    (s.connected fd).users.conn fd = (initConn fd [] (s.users.conn fd)).conn := by
  simp only [connected, mainTo, call, accepted, Users.afterBy, ↓reduceIte, invoke]

theorem connected_count (s : System (Fin 8)) (fd : Nat) :
    (s.connected fd).userCount = s.userCount + 1 := by
  simp only [connected, mainTo, call, accepted, invoke]
  rfl

theorem received_kernel (s : System (Fin 8)) (fd : Nat) : (s.received fd).kernel = s.kernel :=
  @read_kernel s.kernel (s.users.conn fd) _

theorem received_count (empty : (s.users.conn fd).readIdx = 0) :
    (s.received fd).userCount = s.userCount := by
  have log : (read [.data [71], .again] (s.users.conn fd)).log = [.store .readBuf 0 1] := by
    simp [StudyWebServer.read, readLoop, empty, readBufferSize]
  simp only [received, mainTo, call, invoke, Outcome.dropValue, log, List.map_cons, List.map_nil,
    userChange, List.sum_cons, List.sum_nil, Int.add_zero]

theorem received_sockfd (empty : (s.users.conn fd).readIdx = 0) :
    ((s.received fd).users.conn fd).sockfd = (s.users.conn fd).sockfd := by
  have conn : (read [.data [71], .again] (s.users.conn fd)).conn =
      appendRead [71] (s.users.conn fd) := by
    simp [StudyWebServer.read, readLoop, empty, readBufferSize]
  simp only [received, mainTo, call, Users.afterBy, ↓reduceIte, invoke, Outcome.dropValue, conn,
    appendRead]

theorem Crowd.arrives (crowd : Crowd n s) (room : n < maxFd) :
    ∃ t, Leads s t ∧ Arrived n t := by
  obtain ⟨free, absent⟩ := crowd.fresh (n + 5) (Nat.le_refl _)
  have arms := connected_kernel absent
  have conn := connected_conn s (n + 5)
  have empty : ((s.connected (n + 5)).users.conn (n + 5)).readIdx = 0 := by
    rw [conn]
    rfl
  have armed : (s.connected (n + 5)).kernel.epoll (n + 5 : Nat) = .armed .epollin := by
    rw [arms]
    exact Function.update_self _ _ _
  have accepts := accept_leads crowd.main crowd.batch free (by rw [crowd.count]; omega)
  have reports := report_leads (s := s.connected (n + 5)) rfl rfl armed
  have receives := receive_leads (s := (s.connected (n + 5)).reported (n + 5)) rfl empty
  have kernel : (((s.connected (n + 5)).reported (n + 5)).received (n + 5)).kernel =
      ((s.accepted (n + 5)).kernel.arm (n + 5 : Nat) .epollin).deliver
        [.connection (n + 5) .readable] := by
    rw [received_kernel, reported, arms]
  -- accept, init, the report of EPOLLIN and the read, in the order of main.
  refine ⟨_, ((accepts.trans (connect_leads s (n + 5))).trans reports).trans receives, ?_⟩
  constructor
  · rfl
  · rfl
  · exact crowd.length
  · exact crowd.queue
  · intro other beyond
    obtain ⟨closed, away⟩ := crowd.fresh other (by omega)
    have apart : (other : Int) ≠ (n + 5 : Nat) := by omega
    have unnamed : ((n + 5 : Nat) : Int) ≠ other := apart.symm
    rw [kernel]
    constructor
    · exact (Function.update_of_ne apart _ _).trans closed
    · simp only [Kernel.deliver, List.any_cons, List.any_nil, Report.names, Bool.or_false,
        beq_iff_eq, unnamed, ↓reduceIte]
      exact (Function.update_of_ne apart _ _).trans away
  · rw [received_count (s := (s.connected (n + 5)).reported (n + 5)) empty]
    show (s.connected (n + 5)).userCount = _
    rw [connected_count, crowd.count]
  · exact crowd.workers
  · rw [kernel]
    simp only [Kernel.deliver, List.any_cons, List.any_nil, Report.names, Bool.or_false,
      beq_self_eq_true, ↓reduceIte]
  · refine ⟨?_, ?_⟩
    · simp [received, reported, connected, accepted, mainTo, call, Users.afterBy,
        Operation.initialises]
    · have sockfd : ((s.connected (n + 5)).users.conn (n + 5)).sockfd = (n + 5 : Nat) := by
        rw [conn]
        rfl
      rw [received_sockfd (s := (s.connected (n + 5)).reported (n + 5)) empty]
      show ((s.connected (n + 5)).users.conn (n + 5)).sockfd ≠ -1
      rw [sockfd]
      omega

theorem Arrived.queues (arrived : Arrived n s) (room : n ≤ maxRequests) :
    ∃ t, Leads s t ∧ Crowd (n + 1) t := by
  have fits : ¬ maxRequests < s.queue.length := by
    rw [arrived.length]
    omega
  have appends : s.step spilled .append =
      some { s with queue := s.queue ++ [n + 5], main := .posting } := by
    simp only [step, arrived.main, fits, ↓reduceIte]
  refine ⟨_, (Leads.then .refl .append appends).then .post rfl, ?_⟩
  constructor
  · rfl
  · exact arrived.batch
  · simp [arrived.length]
  · intro fd member
    rcases List.mem_append.mp member with before | last
    · have below := arrived.queue fd before
      omega
    · have same := List.mem_singleton.mp last
      omega
  · exact fun fd beyond => arrived.fresh fd (by omega)
  · show s.userCount = _
    rw [arrived.count, Nat.cast_succ]
  · exact arrived.workers

theorem Arrived.refused (arrived : Arrived n s) (full : maxRequests < n) :
    ∃ t, Leads s t ∧ t.Open (n + 5) ∧ ¬ t.Held (n + 5) := by
  have refuses : s.step spilled .append = some (s.mainTo .looping) := by
    rw [← arrived.length] at full
    simp only [step, arrived.main, full, ↓reduceIte]
  refine ⟨_, Leads.then .refl .append refuses, arrived.opened, ?_⟩
  rintro (⟨ev, armed⟩ | (⟨kind, reported⟩ | ⟨stage, main⟩) | queued | ⟨w, stage, worker⟩)
  · cases arrived.disarmed.symm.trans armed
  · have none : s.batch = [] := arrived.batch
    simp [mainTo, none] at reported
  · cases main
  · have below := arrived.queue (n + 5) queued
    omega
  · have waits : s.workers w = .waiting := arrived.workers w
    simp [mainTo, waits, WorkerAt.stageAt] at worker

/-- The descriptors that main has before its loop. -/
def begun : System (Fin 8) := start (fun fd => decide (fd < 5)) fun _ => .unused

theorem begun_crowd : Crowd 0 begun where
  main := rfl
  batch := rfl
  length := rfl
  queue := by simp [begun, start]
  fresh fd beyond := ⟨decide_eq_false (by omega), rfl⟩
  count := rfl
  workers _ := rfl

/-- No worker has run yet, and connections keep coming. -/
theorem crowd_reached (room : n ≤ maxRequests + 1) : ∃ s, Leads begun s ∧ Crowd n s := by
  induction n with
  | zero => exact ⟨begun, .refl, begun_crowd⟩
  | succ n ih =>
      obtain ⟨s, run, crowd⟩ := ih (by omega)
      have slots : maxRequests + 1 < maxFd := by decide
      obtain ⟨t, arrives, arrived⟩ := crowd.arrives (by omega)
      obtain ⟨u, queues, next⟩ := arrived.queues (by omega)
      exact ⟨u, (run.trans arrives).trans queues, next⟩

/-- The 10002nd request is turned away, and its connection is stranded. -/
theorem connection_stranded : ¬ ∀ s : System (Fin 8), s.Reached spilled (fun _ _ => True) →
    ∀ fd, s.Open fd → s.Held fd := by
  intro held
  obtain ⟨s, run, crowd⟩ := crowd_reached (Nat.le_refl _)
  obtain ⟨t, arrives, arrived⟩ := crowd.arrives (by decide)
  obtain ⟨u, refuses, opened, stranded⟩ := arrived.refused (Nat.lt_succ_self _)
  exact stranded (held u ⟨_, _, (run.trans arrives).trans refuses⟩ _ opened)

/-- The first connection, in front of an object that no other one has used. -/
theorem no_stranded_first : (begun.connected 5).Held 5 := by
  have polled : begun.step spilled (.poll [.listening]) =
      some { begun with batch := [.listening] } := rfl
  have accepts : { begun with batch := [.listening] }.step spilled (.accept (some (5, []))) =
      some (begun.accepted 5) := rfl
  have reached : (begun.connected 5).Reached spilled Orderly := by
    refine ⟨_, _, .tail (.tail (.tail .refl ⟨_, ?_, polled⟩) ⟨_, ?_, accepts⟩)
      ⟨.initialise, ?_, rfl⟩⟩
    · exact ⟨id, fun fd op here => by cases here⟩
    · exact ⟨id, fun fd op here => by cases here⟩
    · refine ⟨id, fun fd op here => .inr ?_⟩
      cases here
      exact ⟨fun fs parses => (by cases parses), rfl⟩
  refine no_stranded reached 5 ⟨rfl, ?_⟩
  decide

end Crowd

end System

end StudyWebServer
