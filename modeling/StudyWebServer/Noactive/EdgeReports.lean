import StudyWebServer.Noactive.IdleClients

/-!
Edges and what is behind them. A descriptor is reported once for what has arrived
on it, and its handler takes one connection, or the bytes of one recv. What it does
not take stays until something else arrives.
-/

namespace StudyWebServer.IdleServer

open LinkedList SortTimerLst

namespace Server

/-- The events main has still to look at. -/
def reports (s : Server) : List Report :=
  match s.place with
  | .handling events => events
  | .waiting | .stopped => []

/-- Every registered descriptor has an edge that was not reported, or nothing to take. -/
structure Drained (s : Server) : Prop where
  listening : s.listenEdge = true ∨ s.backlog = []
  signals : s.pipeEdge = true ∨ s.pipe = []
  client : ∀ fd socket, s.sockets fd = some socket → s.edges fd = true ∨ socket.inbox = []

/-- A handler takes all there is, unless something has arrived since the report. -/
def TakesAll (s : Server) : Action → Prop
  | .accept _ _ => s.listenEdge = true ∨ s.backlog.length ≤ 1
  | .handleSignals => s.pipeEdge = true ∨ s.pipe.length ≤ signalsSize
  | .receive => ∀ fd rest socket, s.place = .handling (.client fd :: rest) →
      s.sockets fd = some socket → s.edges fd = true ∨ socket.inbox.length < bufferSize
  | _ => True

/-- What is there to take has an edge, or a report that main has still to look at. -/
structure Covered (s : Server) : Prop where
  listening : s.listenEdge = true ∨ s.backlog = [] ∨ .listening ∈ s.reports
  signals : s.pipeEdge = true ∨ s.pipe = [] ∨ .signals ∈ s.reports
  client : ∀ fd socket, s.sockets fd = some socket →
    s.edges fd = true ∨ socket.inbox = [] ∨ .client fd ∈ s.reports

/-- Nothing but that some clients are gone. -/
structure Shrinks (s after : Server) : Prop where
  listenEdge : after.listenEdge = s.listenEdge
  backlog : after.backlog = s.backlog
  pipeEdge : after.pipeEdge = s.pipeEdge
  pipe : after.pipe = s.pipe
  place : after.place = s.place
  client : ∀ fd socket, after.sockets fd = some socket →
    s.sockets fd = some socket ∧ after.edges fd = s.edges fd

section Shrinks
variable {s after : Server} {fd : Nat} {rest : List Report}

theorem Shrinks.refl (s : Server) : s.Shrinks s where
  listenEdge := rfl
  backlog := rfl
  pipeEdge := rfl
  pipe := rfl
  place := rfl
  client _ _ here := ⟨here, rfl⟩

theorem Shrinks.trans {between : Server} (first : s.Shrinks between)
    (second : between.Shrinks after) : s.Shrinks after where
  listenEdge := second.listenEdge.trans first.listenEdge
  backlog := second.backlog.trans first.backlog
  pipeEdge := second.pipeEdge.trans first.pipeEdge
  pipe := second.pipe.trans first.pipe
  place := second.place.trans first.place
  client fd socket here := by
    obtain ⟨before, edge⟩ := second.client fd socket here
    obtain ⟨earlier, same⟩ := first.client fd socket before
    exact ⟨earlier, edge.trans same⟩

theorem close_shrinks (s : Server) (fd : Nat) : s.Shrinks (s.close fd) where
  listenEdge := rfl
  backlog := rfl
  pipeEdge := rfl
  pipe := rfl
  place := rfl
  client other socket here := by
    by_cases same : other = fd
    · simp [Server.close, same] at here
    · simp only [Server.close, Function.update_of_ne same] at here ⊢
      exact ⟨here, trivial⟩

theorem cb_func_shrinks {user : Nat} (calls : s.cbFunc user = some after) : s.Shrinks after := by
  obtain ⟨data, -, result⟩ := Option.bind_eq_some_iff.mp calls
  cases result
  exact close_shrinks s data.sockfd

theorem call_backs_shrink (calls : List (Callback × Nat))
    (runs : calls.foldlM callBack s = some after) : s.Shrinks after := by
  induction calls generalizing s with
  | nil =>
      cases runs
      exact .refl _
  | cons call rest ih =>
      obtain ⟨⟨⟩, user⟩ := call
      rw [List.foldlM_cons] at runs
      obtain ⟨between, called, others⟩ := Option.bind_eq_some_iff.mp runs
      exact (cb_func_shrinks called).trans (ih others)

/-- A change of the parts that have nothing to do with epoll. -/
theorem Shrinks.elsewhere (shrinks : s.Shrinks after) (timers : SortTimerLst Callback Nat)
    (lastSeen : Nat → Int) : s.Shrinks { after with
      timers := timers
      lastSeen := lastSeen } :=
  ⟨shrinks.listenEdge, shrinks.backlog, shrinks.pipeEdge, shrinks.pipe, shrinks.place,
    shrinks.client⟩

theorem timer_handler_shrinks {rounds : Nat} (handled : s.timerHandler rounds = some after) :
    s.Shrinks after := by
  obtain ⟨ticked, -, runs⟩ := Option.bind_eq_some_iff.mp handled
  exact ((Shrinks.refl s).elsewhere ticked.lst s.lastSeen).trans (call_backs_shrink _ runs)

theorem recv_left (socket : Socket) (size : Nat) :
    (socket.recv size).2.inbox = socket.inbox.drop size := by
  unfold Socket.recv
  split_ifs with some
  · rfl
  all_goals
    rw [not_not.mp some, List.drop_nil]

/-- The branch for a client takes the bytes of one recv, and may close it. -/
theorem serve_client_shrinks {rounds : Nat} (served : s.serveClient rounds fd rest = some after) :
    ∃ socket left data bytes, s.sockets fd = some socket ∧
      left.inbox = socket.inbox.drop (bufferSize - 1) ∧
      (s.received fd data left bytes rest).Shrinks after := by
  obtain ⟨data, -, served⟩ := Option.bind_eq_some_iff.mp served
  obtain ⟨socket, here, served⟩ := Option.bind_eq_some_iff.mp served
  have left := recv_left socket (bufferSize - 1)
  have gone {result : Recv} {rest_socket : Socket}
      (recv : socket.recv (bufferSize - 1) = (result, rest_socket))
      (closes : ((s.received fd data rest_socket [] rest).cbFunc fd).bind (fun s =>
        (s.timers.delTimer data.timer).bind fun timers =>
          some { s with timers := timers }) = some after) :
      (s.received fd data rest_socket [] rest).Shrinks after := by
    obtain ⟨between, called, deletes⟩ := Option.bind_eq_some_iff.mp closes
    obtain ⟨lst, -, result⟩ := Option.bind_eq_some_iff.mp deletes
    cases result
    exact (cb_func_shrinks called).elsewhere lst between.lastSeen
  cases recv : socket.recv (bufferSize - 1) with
  | mk result rest_socket =>
      rw [recv] at served left
      cases result with
      | data bytes =>
          refine ⟨socket, rest_socket, data, bytes, here, left, ?_⟩
          cases timer : data.timer with
          | none =>
              simp only [timer] at served
              cases served
              exact (Shrinks.refl _).elsewhere _ _
          | some address =>
              simp only [timer] at served
              obtain ⟨lst, -, result⟩ := Option.bind_eq_some_iff.mp served
              cases result
              exact (Shrinks.refl _).elsewhere _ _
      | again =>
          cases served
          exact ⟨socket, rest_socket, data, [], here, left, .refl _⟩
      | failed => exact ⟨socket, rest_socket, data, [], here, left, gone recv served⟩
      | ended => exact ⟨socket, rest_socket, data, [], here, left, gone recv served⟩

theorem Covered.shrinks (covered : s.Covered) (shrinks : s.Shrinks after) : after.Covered := by
  have reports : after.reports = s.reports := by
    unfold reports
    rw [shrinks.place]
  constructor
  · rw [shrinks.listenEdge, shrinks.backlog, reports]
    exact covered.listening
  · rw [shrinks.pipeEdge, shrinks.pipe, reports]
    exact covered.signals
  · intro fd socket here
    obtain ⟨before, edge⟩ := shrinks.client fd socket here
    rw [edge, reports]
    exact covered.client fd socket before

end Shrinks

section Runs
variable {s after : Server} {fd : Nat} {rest : List Report}

/-- The events behind the one that is handled. -/
theorem reported_behind {head report : Report} (place : s.place = .handling (head :: rest))
    (later : after.place = .handling rest) (other : report ≠ head)
    (reported : report ∈ s.reports) : report ∈ after.reports := by
  simp only [reports, place, later] at reported ⊢
  exact (List.mem_cons.mp reported).resolve_left other

theorem Covered.deliver {events : List Report} (covered : s.Covered)
    (waits : s.place = .waiting) : (s.deliver events).Covered := by
  have none : s.reports = [] := by simp [reports, waits]
  -- an edge is either still there or in the batch
  have either {nothing : Prop} {pending : Bool} (report : Report)
      (before : pending = true ∨ nothing ∨ report ∈ s.reports) :
      (pending && !events.contains report) = true ∨ nothing ∨ report ∈ events := by
    rw [none] at before
    by_cases member : report ∈ events
    · exact .inr (.inr member)
    · rcases before with edge | empty | none
      · exact .inl (by simp [edge, member])
      · exact .inr (.inl empty)
      · cases none
  exact ⟨either .listening covered.listening, either .signals covered.signals,
    fun fd socket here => either (.client fd) (covered.client fd socket here)⟩

theorem Covered.accepts {connfd timer rounds : Nat} (covered : s.Covered)
    (place : s.place = .handling (.listening :: rest))
    (all : s.listenEdge = true ∨ s.backlog.length ≤ 1)
    (serves : s.serveListening rounds connfd timer rest = some after) : after.Covered := by
  obtain ⟨address, socket, backlog, lst, queue, -, -, -, -, rfl⟩ := serve_listening_some serves
  constructor
  -- the one connection that was queued is taken
  · refine all.imp_right fun short => .inl ?_
    rw [queue, List.length_cons] at short
    exact List.length_eq_zero_iff.mp (Nat.le_zero.mp (Nat.le_of_succ_le_succ short))
  · exact covered.signals.imp_right (Or.imp_right
      (reported_behind place rfl Report.noConfusion))
  · intro other otherSocket here
    by_cases same : other = connfd
    · subst same
      simp only [Function.update_self, Option.some.injEq] at here ⊢
      subst here
      -- epoll_ctl reports what has come before the accept
      by_cases empty : socket.inbox = []
      · exact .inr (.inl empty)
      · exact .inl (by simp [Socket.readable, empty])
    · simp only [Function.update_of_ne same] at here ⊢
      exact (covered.client other otherSocket here).imp_right (Or.imp_right
        (reported_behind place rfl Report.noConfusion))

theorem Covered.takes_signals (covered : s.Covered)
    (place : s.place = .handling (.signals :: rest))
    (all : s.pipeEdge = true ∨ s.pipe.length ≤ signalsSize) : (s.serveSignals rest).Covered := by
  constructor
  · exact covered.listening.imp_right (Or.imp_right
      (reported_behind place rfl Report.noConfusion))
  · exact all.imp_right fun short => .inl (List.drop_eq_nil_of_le short)
  · intro fd socket here
    exact (covered.client fd socket here).imp_right (Or.imp_right
      (reported_behind place rfl Report.noConfusion))

theorem Covered.receives {rounds : Nat} (covered : s.Covered)
    (place : s.place = .handling (.client fd :: rest)) (all : TakesAll s .receive)
    (served : s.serveClient rounds fd rest = some after) : after.Covered := by
  obtain ⟨socket, left, data, bytes, here, drops, shrinks⟩ := serve_client_shrinks served
  refine Covered.shrinks ?_ shrinks
  constructor
  · exact covered.listening.imp_right (Or.imp_right
      (reported_behind place rfl Report.noConfusion))
  · exact covered.signals.imp_right (Or.imp_right
      (reported_behind place rfl Report.noConfusion))
  · intro other otherSocket found
    by_cases same : other = fd
    · subst same
      simp only [received, Function.update_self, Option.some.injEq] at found ⊢
      subst found
      -- one recv takes all the bytes
      refine (all other rest socket place here).imp_right fun short => .inl ?_
      rw [drops]
      exact List.drop_eq_nil_of_le (Nat.le_sub_one_of_lt short)
    · simp only [received, Function.update_of_ne same] at found
      refine (covered.client other otherSocket found).imp_right (Or.imp_right
        (reported_behind place rfl fun equal => same ?_))
      exact Report.client.inj equal

theorem Covered.finishes {rounds : Nat} (covered : s.Covered) (place : s.place = .handling [])
    (finished : s.finishBatch rounds = some after) : after.Covered := by
  have between : ∃ handled, s.Shrinks handled ∧ after = { handled with
      timeout := false
      place := if handled.stopServer then .stopped else .waiting } := by
    by_cases late : s.timeout = true
    · simp only [finishBatch, late, ↓reduceIte, Option.bind_eq_bind,
        Option.bind_eq_some_iff] at finished
      obtain ⟨handled, handles, result⟩ := finished
      exact ⟨handled, timer_handler_shrinks handles, (Option.some.inj result).symm⟩
    · simp only [finishBatch, late, Bool.false_eq_true, ↓reduceIte, Option.bind_eq_bind,
        Option.bind_some] at finished
      exact ⟨s, .refl s, (Option.some.inj finished).symm⟩
  obtain ⟨handled, shrinks, rfl⟩ := between
  have held := covered.shrinks shrinks
  -- main has looked at every event
  have empty (report : Report) : report ∉ handled.reports := by
    simp [reports, shrinks.place, place]
  exact ⟨held.listening.imp_right (Or.imp_right fun reported => absurd reported (empty _)),
    held.signals.imp_right (Or.imp_right fun reported => absurd reported (empty _)),
    fun fd socket here => (held.client fd socket here).imp_right
      (Or.imp_right fun reported => absurd reported (empty _))⟩

theorem step_covered {action : Action} {rounds : Nat} (covered : s.Covered)
    (all : TakesAll s action) (step : s.step rounds action = some after) : after.Covered := by
  cases step_moves step with
  | clock time later => exact ⟨covered.listening, covered.signals, covered.client⟩
  | connect address => exact ⟨.inl rfl, covered.signals, covered.client⟩
  | early behind news =>
      refine ⟨covered.listening.imp_right (Or.imp_left fun empty => ?_), covered.signals,
        covered.client⟩
      show s.backlog.modify behind _ = []
      rw [empty, List.modify_nil]
  -- Bytes, an end or an error queue an edge for their descriptor.
  | news fd news socket found =>
      refine ⟨covered.listening, covered.signals, fun other otherSocket here => ?_⟩
      by_cases same : other = fd
      · exact .inl (by simp [same])
      · simp only [Function.update_of_ne same] at here ⊢
        exact covered.client other otherSocket here
  | wake fd opened =>
      refine ⟨covered.listening, covered.signals, fun other otherSocket here => ?_⟩
      by_cases same : other = fd
      · exact .inl (by simp [same])
      · simp only [Function.update_of_ne same]
        exact covered.client other otherSocket here
  | signal sig => exact ⟨covered.listening, .inl rfl, covered.client⟩
  -- A report takes the edge away, and the descriptor then stands among the events to handle.
  | wait events waits nodup room pending => exact covered.deliver waits
  | accept connfd timer rest after place serves => exact covered.accepts place all serves
  | handleSignals rest place => exact covered.takes_signals place all
  | receive fd rest after place served => exact covered.receives place all served
  | finish after place finished => exact covered.finishes place finished

theorem reached_covered (reached : Reached TakesAll s) : s.Covered := by
  obtain ⟨now, users, others, run⟩ := reached
  induction run with
  | refl =>
      refine ⟨.inr (.inl rfl), .inr (.inl rfl), fun fd socket here => ?_⟩
      cases here
  | tail run step ih =>
      obtain ⟨action, rounds, all, taken⟩ := step
      exact step_covered ih all taken

theorem Covered.drained (covered : s.Covered) (waits : s.place = .waiting) : s.Drained := by
  have none : s.reports = [] := by simp [reports, waits]
  constructor
  · simpa [none] using covered.listening
  · simpa [none] using covered.signals
  · intro fd socket here
    simpa [none] using covered.client fd socket here

/-- As long as every handler takes all there is, nothing that has arrived waits for
something else to arrive. -/
theorem edges_drained (reached : Reached TakesAll s) (waits : s.place = .waiting) : s.Drained :=
  (reached_covered reached).drained waits

/-- A client that has sent three bytes. -/
theorem edges_drained_three : ∃ s : Server, s.sockets 7 = some ⟨[], false, false⟩ ∧
    (s.users 7).buf.take 3 = [65, 66, 67] ∧ s.Drained :=
  ⟨_, rfl, rfl, edges_drained ⟨0, noUsers, mainsOwn, .tail (.tail (.tail (.tail (.tail (.tail
    (.tail (.tail .refl ⟨.connect [], 0, trivial, rfl⟩) ⟨.wait [.listening], 0, trivial, rfl⟩)
    ⟨.accept 7 0, 0, .inr (by decide), rfl⟩) ⟨.finish, 0, trivial, rfl⟩)
    ⟨.news 7 (.bytes [65, 66, 67]), 0, trivial, rfl⟩) ⟨.wait [.client 7], 0, trivial, rfl⟩)
    ⟨.receive, 0, fun _ _ _ place here => by cases place; cases here; exact .inr (by decide), rfl⟩)
    ⟨.finish, 0, trivial, rfl⟩⟩ rfl⟩

/-- Two connections that come at once: the second waits for a third. -/
theorem connection_left_queued :
    ¬ ∀ s, Reached (fun _ _ => True) s → s.place = .waiting → s.Drained := by
  intro drained
  have left : ∃ s : Server, Reached (fun _ _ => True) s ∧ s.place = .waiting ∧
      s.listenEdge = false ∧ s.backlog = [([], ⟨[], false, false⟩)] :=
    ⟨_, ⟨0, noUsers, mainsOwn, .tail (.tail (.tail (.tail (.tail .refl
      ⟨.connect [], 0, trivial, rfl⟩) ⟨.connect [], 0, trivial, rfl⟩)
      ⟨.wait [.listening], 0, trivial, rfl⟩) ⟨.accept 7 0, 0, trivial, rfl⟩)
      ⟨.finish, 0, trivial, rfl⟩⟩, rfl, rfl, rfl⟩
  obtain ⟨s, reached, waits, edge, backlog⟩ := left
  have listening := (drained s reached waits).listening
  rw [edge, backlog] at listening
  exact absurd listening (by decide)

/-- Sixty-four bytes that come at once: the last one waits for another. -/
theorem byte_left_unread : ∃ s : Server, Reached (fun _ _ => True) s ∧ s.place = .waiting ∧
    s.edges 7 = false ∧ s.sockets 7 = some ⟨[65], false, false⟩ :=
  ⟨_, ⟨0, noUsers, mainsOwn, .tail (.tail (.tail (.tail (.tail (.tail (.tail (.tail .refl
    ⟨.connect [], 0, trivial, rfl⟩) ⟨.wait [.listening], 0, trivial, rfl⟩)
    ⟨.accept 7 0, 0, trivial, rfl⟩) ⟨.finish, 0, trivial, rfl⟩)
    ⟨.news 7 (.bytes (List.replicate 64 65)), 0, trivial, rfl⟩)
    ⟨.wait [.client 7], 0, trivial, rfl⟩) ⟨.receive, 0, trivial, rfl⟩)
    ⟨.finish, 0, trivial, rfl⟩⟩, rfl, rfl, rfl⟩

end Runs

end Server

end StudyWebServer.IdleServer
