import StudyWebServer.Noactive.IdleServer

/-!
The clients of the server, their entries in users and their timers. Every open
client has one timer, with the time of its last accept or read, so that
timer_handler closes the clients that were idle for too long.
-/

namespace StudyWebServer.IdleServer

open LinkedList SortTimerLst

namespace Server

def Open (s : Server) (fd : Nat) : Prop := (s.sockets fd).isSome = true

instance (s : Server) : DecidablePred s.Open := fun _ => inferInstanceAs (Decidable (_ = true))

/-- The last accept or read is at least 3 * TIMESLOT seconds old. -/
def Stale (s : Server) (fd : Nat) : Prop := 3 * timeslot ≤ s.now - s.lastSeen fd

instance (s : Server) : DecidablePred s.Stale := fun _ => inferInstanceAs (Decidable (_ ≤ _))

/-- An open client has one timer in the list, users[fd].timer, whose user_data is
users[fd]; and there are no others. -/
structure Tracks (s : Server) (timers : Timers Callback Nat) : Prop where
  list : s.timers.Keeps timers
  client : ∀ fd, s.Open fd → ∃ data timer task, s.entry fd = some data ∧
    data.timer = some timer ∧ (timer, task) ∈ timers ∧ task.userData = fd ∧
    ∀ other ∈ timers, other.2.userData = fd → other = (timer, task)
  timer : ∀ entry ∈ timers, s.Open entry.2.userData

/-- timer_handler closes these clients and no others. -/
def Closes (s : Server) (idle : Nat → Prop) [DecidablePred idle] : Prop :=
  (∃ rounds after, s.timerHandler rounds = some after) ∧
  ∀ rounds after, s.timerHandler rounds = some after →
    ∀ fd, after.sockets fd = if idle fd then none else s.sockets fd

/-- accept and new answer with what is free, and an event is at its handler. -/
def Enabled (s : Server) : Action → Prop
  | .accept connfd timer => ∃ rest, s.place = .handling (.listening :: rest) ∧ s.backlog ≠ [] ∧
      ¬ s.Open connfd ∧ s.others connfd = false ∧ s.timers.heap timer = none
  | .receive => ∃ fd rest, s.place = .handling (.client fd :: rest)
  | .finish => s.place = .handling []
  | _ => False

/-- The clients are tracked, the idle ones are the ones timer_handler closes, and no
handler hangs or follows a bad pointer. -/
structure Sound (s : Server) : Prop where
  tracked : ∃ timers, s.Tracks timers
  handler : s.Closes s.Stale
  answers : ∀ action, s.Enabled action → ∃ rounds after, s.step rounds action = some after

/-- The descriptor of a new client is an index of users. -/
def Addressed (_ : Server) : Action → Prop
  | .accept connfd _ => connfd < fdLimit
  | _ => True

/-- The timer of a client. -/
def task (s : Server) (fd : Nat) : Task Callback Nat :=
  ⟨s.lastSeen fd + 3 * timeslot, .cbFunc, fd⟩

/-- The entries of the open clients, and the timers with the times that follow from
the last accept or read. -/
structure Table (s : Server) (timers : Timers Callback Nat) : Prop where
  keeps : s.timers.Keeps timers
  own : ∀ fd, s.Open fd → fd < fdLimit ∧ (s.users fd).sockfd = fd ∧ (s.users fd).timer ≠ none
  entries : ∀ entry, entry ∈ timers ↔ s.Open entry.2.userData ∧
    (s.users entry.2.userData).timer = some entry.1 ∧ entry.2 = s.task entry.2.userData
  seen : ∀ fd, s.Open fd → s.lastSeen fd ≤ s.now

/-- Only open clients are reported, and each once. -/
structure Queue (s : Server) : Prop where
  edges : ∀ fd, s.edges fd = true → s.Open fd
  events : ∀ events, s.place = .handling events →
    events.Nodup ∧ ∀ fd, .client fd ∈ events → s.Open fd

section Table
variable {s after : Server} {timers : Timers Callback Nat} {fd : Nat}

theorem entry_below (below : fd < fdLimit) : s.entry fd = some (s.users fd) := if_pos below

theorem store_entry_below {users : Nat → ClientData} (below : fd < fdLimit) (data : ClientData) :
    storeEntry users fd data = Function.update users fd data := if_pos below

theorem Table.timer (table : s.Table timers) (opened : s.Open fd) :
    ∃ timer, (s.users fd).timer = some timer ∧ (timer, s.task fd) ∈ timers := by
  obtain ⟨-, -, some⟩ := table.own fd opened
  obtain ⟨timer, timer_eq⟩ := Option.ne_none_iff_exists'.mp some
  exact ⟨timer, timer_eq, (table.entries _).mpr ⟨opened, timer_eq, rfl⟩⟩

theorem Table.tracks (table : s.Table timers) : s.Tracks timers where
  list := table.keeps
  client fd opened := by
    obtain ⟨below, -, -⟩ := table.own fd opened
    obtain ⟨timer, timer_eq, member⟩ := table.timer opened
    refine ⟨s.users fd, timer, s.task fd, entry_below below, timer_eq, member, rfl, ?_⟩
    intro other inside same
    -- a timer for this client is the one in its entry
    obtain ⟨-, address, data⟩ := (table.entries other).mp inside
    rw [same] at address data
    exact Prod.ext (Option.some.inj (address.symm.trans timer_eq)) data
  timer entry inside := ((table.entries entry).mp inside).1

/-- The timers left when one is taken out. -/
theorem mem_without {lst : SortTimerLst Callback Nat} {front back : Timers Callback Nat}
    {timer : Nat} {task : Task Callback Nat} (keeps : lst.Keeps (front ++ (timer, task) :: back))
    (entry : Nat × Task Callback Nat) :
    entry ∈ front ++ back ↔ entry ∈ front ++ (timer, task) :: back ∧ entry.1 ≠ timer := by
  have perm : (front ++ (timer, task) :: back).Perm ((timer, task) :: (front ++ back)) :=
    List.perm_middle
  have nodup : (addresses ((timer, task) :: (front ++ back))).Nodup :=
    (perm.map Prod.fst).nodup_iff.mp keeps.whole.nodup
  have away : ∀ other ∈ front ++ back, other.1 ≠ timer := by
    intro other member same
    have inside : other.1 ∈ addresses (front ++ back) := List.mem_map_of_mem member
    rw [same] at inside
    exact (List.nodup_cons.mp nodup).1 inside
  rw [perm.mem_iff, List.mem_cons]
  constructor
  · intro member
    exact ⟨.inr member, away entry member⟩
  · rintro ⟨rfl | member, other⟩
    · exact absurd rfl other
    · exact member

/-- A client gets its timer, or a later time for it. -/
theorem Table.sees {lst : SortTimerLst Callback Nat} {front back : Timers Callback Nat}
    {timer : Nat} (kept : lst.Keeps (insertTimer (timer, after.task fd) (front ++ back)))
    (others : ∀ entry, entry ∈ front ++ back ↔ entry ∈ timers ∧ entry.2.userData ≠ fd)
    (table : s.Table timers) (below : fd < fdLimit) (timersAre : after.timers = lst)
    (opens : ∀ other, after.Open other ↔ other = fd ∨ s.Open other)
    (here : (after.users fd).timer = some timer ∧ (after.users fd).sockfd = fd)
    (there : ∀ other, other ≠ fd → after.users other = s.users other ∧
      after.lastSeen other = s.lastSeen other)
    (now : s.now = after.now ∧ after.lastSeen fd = after.now) :
    after.Table (insertTimer (timer, after.task fd) (front ++ back)) where
  keeps := by
    rw [timersAre]
    exact kept
  own other opened := by
    by_cases same : other = fd
    · subst same
      refine ⟨below, here.2, ?_⟩
      rw [here.1]
      exact Option.some_ne_none _
    · rw [(there other same).1]
      exact table.own other (((opens other).mp opened).resolve_left same)
  entries entry := by
    -- the timer of this client is the new one, and the others are as they were
    rw [insert_perm.mem_iff, List.mem_cons, others, table.entries, opens]
    by_cases same : entry.2.userData = fd
    · rw [same, here.1]
      constructor
      · rintro (rfl | ⟨-, other⟩)
        · exact ⟨.inl rfl, rfl, rfl⟩
        · exact absurd rfl other
      · rintro ⟨-, address, data⟩
        exact .inl (Prod.ext (Option.some.inj address).symm data)
    · obtain ⟨users, lastSeen⟩ := there _ same
      have tasks : after.task entry.2.userData = s.task entry.2.userData := by
        simp only [task, lastSeen]
      rw [users, tasks]
      constructor
      · rintro (rfl | ⟨old, -⟩)
        · exact absurd rfl same
        · exact ⟨.inr old.1, old.2⟩
      · rintro ⟨opened, rest⟩
        exact .inr ⟨⟨opened.resolve_left same, rest⟩, same⟩
  seen other opened := by
    by_cases same : other = fd
    · subst same
      exact Int.le_of_eq now.2
    · rw [(there other same).2, ← now.1]
      exact table.seen other (((opens other).mp opened).resolve_left same)

/-- What the branch for the listening socket does. -/
theorem serve_listening_some {connfd timer rounds : Nat} {rest : List Report}
    (serves : s.serveListening rounds connfd timer rest = some after) :
    ∃ address socket backlog lst, s.backlog = (address, socket) :: backlog ∧
      ¬ s.Open connfd ∧ s.others connfd = false ∧ s.timers.heap timer = none ∧
      (s.timers.create timer ⟨s.now + 3 * timeslot, .cbFunc, connfd⟩).addTimer webserver rounds
        (some timer) = some lst ∧
      after = { s with
        backlog := backlog
        sockets := Function.update s.sockets connfd (some socket)
        edges := Function.update s.edges connfd socket.readable
        users := storeEntry s.users connfd
          { s.users connfd with
            address := address
            sockfd := connfd
            timer := some timer }
        timers := lst
        place := .handling rest
        lastSeen := Function.update s.lastSeen connfd s.now } := by
  unfold serveListening at serves
  cases queue : s.backlog with
  | nil =>
      rw [queue] at serves
      cases serves
  | cons first backlog =>
      obtain ⟨address, socket⟩ := first
      rw [queue] at serves
      dsimp only at serves
      split_ifs at serves with taken
      simp only [Bool.or_eq_true, not_or, Bool.not_eq_true, Option.isSome_eq_false_iff,
        Option.isNone_iff_eq_none] at taken
      obtain ⟨lst, adds, result⟩ := Option.bind_eq_some_iff.mp serves
      cases result
      refine ⟨address, socket, backlog, lst, rfl, ?_, taken.1.2, taken.2, adds, rfl⟩
      rw [Open, taken.1.1]
      exact Bool.false_ne_true

theorem Table.accepts {connfd timer rounds : Nat} {rest : List Report} (table : s.Table timers)
    (below : connfd < fdLimit)
    (serves : s.serveListening rounds connfd timer rest = some after) :
    ∃ later, after.Table later := by
  obtain ⟨address, socket, backlog, lst, -, closed, -, fresh, adds, rfl⟩ :=
    serve_listening_some serves
  -- whatever the rounds, the list is the one that add_timer leaves
  obtain ⟨rounds', lst', adds', kept⟩ := table.keeps.add fresh
    (⟨s.now + 3 * timeslot, .cbFunc, connfd⟩ : Task Callback Nat)
  cases add_unique adds adds'
  have same_task : (⟨s.now + 3 * timeslot, .cbFunc, connfd⟩ : Task Callback Nat) = task
      { s with lastSeen := Function.update s.lastSeen connfd s.now } connfd := by
    simp only [task, Function.update_self]
  rw [same_task, ← List.nil_append timers] at kept
  refine ⟨_, Table.sees kept ?_ table below rfl ?_ ?_ ?_ ?_⟩
  · intro entry
    rw [List.nil_append, iff_self_and]
    rintro member rfl
    exact closed ((table.entries entry).mp member).1
  · intro other
    by_cases same : other = connfd
    · simp [Open, same]
    · simp [Open, same]
  · simp [store_entry_below below]
  · intro other different
    simp [store_entry_below below, different]
  · simp

section Client
variable {socket left : Socket} {bytes : List UInt8} {rest : List Report} {rounds : Nat}

theorem serve_client_data (below : fd < fdLimit) (socket_eq : s.sockets fd = some socket)
    {timer : Nat} (timer_eq : (s.users fd).timer = some timer)
    (recv : socket.recv (bufferSize - 1) = (.data bytes, left)) :
    s.serveClient rounds fd rest =
      (s.timers.postpone webserver rounds timer (s.now + 3 * timeslot)).map fun lst =>
        { s.received fd (s.users fd) left bytes rest with
          lastSeen := Function.update s.lastSeen fd s.now
          timers := lst } := by
  simp only [serveClient, entry_below below, socket_eq, recv, timer_eq, Option.bind_eq_bind,
    Option.bind_some, Option.map_eq_bind]
  rfl

theorem serve_client_again (below : fd < fdLimit) (socket_eq : s.sockets fd = some socket)
    (recv : socket.recv (bufferSize - 1) = (.again, left)) :
    s.serveClient rounds fd rest = some (s.received fd (s.users fd) left [] rest) := by
  simp only [serveClient, entry_below below, socket_eq, recv, Option.bind_eq_bind, Option.bind_some]

theorem serve_client_over (below : fd < fdLimit) (socket_eq : s.sockets fd = some socket)
    (sockfd : (s.users fd).sockfd = fd) (gone : socket.recv (bufferSize - 1) = (.failed, left) ∨
      socket.recv (bufferSize - 1) = (.ended, left)) :
    s.serveClient rounds fd rest = (s.timers.delTimer (s.users fd).timer).map fun lst =>
      { (s.received fd (s.users fd) left [] rest).close fd with timers := lst } := by
  have closes : (s.received fd (s.users fd) left [] rest).cbFunc fd =
      some ((s.received fd (s.users fd) left [] rest).close fd) := by
    simp [cbFunc, entry, below, received, storeEntry, sockfd]
  rcases gone with recv | recv
  all_goals
    simp only [serveClient, entry_below below, socket_eq, recv, Option.bind_eq_bind,
      Option.bind_some, closes, Option.map_eq_bind]
    rfl

/-- The results of recv. -/
theorem recv_cases (socket : Socket) (size : Nat) :
    (∃ bytes left, socket.recv size = (.data bytes, left)) ∨
    (∃ left, socket.recv size = (.again, left)) ∨
    ∃ left, socket.recv size = (.failed, left) ∨ socket.recv size = (.ended, left) := by
  unfold Socket.recv
  split_ifs
  · exact .inl ⟨_, _, rfl⟩
  · exact .inr (.inr ⟨_, .inl rfl⟩)
  · exact .inr (.inr ⟨_, .inr rfl⟩)
  · exact .inr (.inl ⟨_, rfl⟩)

end Client

/-- Some clients go, and their timers with them. -/
theorem Table.forgets {lst : SortTimerLst Callback Nat} {kept : Timers Callback Nat}
    (gone : Nat → Prop) (table : s.Table timers) (keeps : lst.Keeps kept)
    (timersAre : after.timers = lst)
    (others : ∀ entry, entry ∈ kept ↔ entry ∈ timers ∧ ¬ gone entry.2.userData)
    (opens : ∀ fd, after.Open fd ↔ s.Open fd ∧ ¬ gone fd)
    (users : ∀ fd, ¬ gone fd → (after.users fd).timer = (s.users fd).timer ∧
      (after.users fd).sockfd = (s.users fd).sockfd)
    (lastSeen : after.lastSeen = s.lastSeen) (now : s.now ≤ after.now) : after.Table kept where
  keeps := by
    rw [timersAre]
    exact keeps
  own fd opened := by
    obtain ⟨before, stays⟩ := (opens fd).mp opened
    obtain ⟨timer, sockfd⟩ := users fd stays
    rw [timer, sockfd]
    exact table.own fd before
  entries entry := by
    rw [others, table.entries, opens]
    have tasks : after.task entry.2.userData = s.task entry.2.userData := by
      simp only [task, lastSeen]
    rw [tasks]
    constructor
    · rintro ⟨⟨before, address, data⟩, stays⟩
      exact ⟨⟨before, stays⟩, (users _ stays).1.trans address, data⟩
    · rintro ⟨⟨before, stays⟩, address, data⟩
      exact ⟨⟨before, (users _ stays).1.symm.trans address, data⟩, stays⟩
  seen fd opened := by
    rw [lastSeen]
    exact Int.le_trans (table.seen fd ((opens fd).mp opened).1) now

/-- What opens and closes no client, and changes no timer. -/
theorem Table.congr (table : s.Table timers) (timersAre : after.timers = s.timers)
    (opens : ∀ fd, after.Open fd ↔ s.Open fd)
    (users : ∀ fd, (after.users fd).timer = (s.users fd).timer ∧
      (after.users fd).sockfd = (s.users fd).sockfd)
    (lastSeen : after.lastSeen = s.lastSeen) (now : s.now ≤ after.now) : after.Table timers :=
  table.forgets (fun _ => False) table.keeps timersAre (by simp)
    (fun fd => by rw [opens, not_false_eq_true, and_true]) (fun fd _ => users fd) lastSeen now

/-- The entries of a list without the timer of one client. -/
theorem Table.mem_without {front back : Timers Callback Nat} {timer : Nat}
    {data : Task Callback Nat} (table : s.Table (front ++ (timer, data) :: back))
    (user : data.userData = fd) (entry : Nat × Task Callback Nat) :
    entry ∈ front ++ back ↔
      entry ∈ front ++ (timer, data) :: back ∧ entry.2.userData ≠ fd := by
  have own := (table.entries (timer, data)).mp (by simp)
  rw [Server.mem_without table.keeps]
  refine and_congr_right fun member => not_congr ?_
  constructor
  · intro same
    have both : entry ∈ front ++ back → False := fun inside =>
      ((Server.mem_without table.keeps entry).mp inside).2 same
    rcases List.mem_append.mp member with inside | inside
    · exact absurd (List.mem_append_left _ inside) both
    · rcases List.mem_cons.mp inside with rfl | inside
      · exact user
      · exact absurd (List.mem_append_right _ inside) both
  · intro same
    have address := ((table.entries entry).mp member).2.1
    rw [same, ← user, own.2.1] at address
    exact (Option.some.inj address).symm

/-- What an event on a client leaves alone. -/
structure Frame (s : Server) (fd : Nat) (rest : List Report) (after : Server) : Prop where
  place : after.place = .handling rest
  others : ∀ other, other ≠ fd → after.sockets other = s.sockets other ∧
    after.edges other = s.edges other
  edge : after.edges fd = true → after.Open fd

/-- An event on a client: its handler comes to an end, and its timer goes with it or
gets a later time. -/
theorem Table.receives {rest : List Report} (table : s.Table timers) (opened : s.Open fd) :
    (∃ rounds after, s.serveClient rounds fd rest = some after) ∧
    ∀ rounds after, s.serveClient rounds fd rest = some after →
      (∃ later, after.Table later) ∧ s.Frame fd rest after := by
  obtain ⟨socket, socket_eq⟩ := Option.isSome_iff_exists.mp opened
  obtain ⟨below, sockfd, -⟩ := table.own fd opened
  obtain ⟨timer, timer_eq, member⟩ := table.timer opened
  obtain ⟨front, back, rfl⟩ := List.append_of_mem member
  -- bytes, EAGAIN, or the end of the connection
  rcases recv_cases socket (bufferSize - 1) with ⟨bytes, left, recv⟩ | ⟨left, recv⟩ | ⟨left, gone⟩
  · have raised : (s.task fd).expire ≤ s.now + 3 * timeslot :=
      Int.add_le_add_right (table.seen fd opened) _
    obtain ⟨enough, lst, postpones, kept⟩ := table.keeps.postpone raised
    have serves (rounds : Nat) : s.serveClient rounds fd rest = _ :=
      serve_client_data below socket_eq timer_eq recv
    constructor
    · have ends := serves enough
      rw [postpones] at ends
      exact ⟨enough, _, ends⟩
    · intro rounds after served
      rw [serves rounds] at served
      obtain ⟨lst', postpones', rfl⟩ := Option.map_eq_some_iff.mp served
      cases postpone_unique postpones postpones'
      have same_task : { s.task fd with expire := s.now + 3 * timeslot } =
          task { s with lastSeen := Function.update s.lastSeen fd s.now } fd := by
        simp only [task, Function.update_self]
      rw [same_task] at kept
      have frame : s.Frame fd rest { s.received fd (s.users fd) left bytes rest with
          lastSeen := Function.update s.lastSeen fd s.now
          timers := lst } :=
        ⟨rfl, fun other different => ⟨Function.update_of_ne different _ _, rfl⟩,
          fun _ => by simp [Open, received]⟩
      refine ⟨⟨_, Table.sees kept (table.mem_without rfl) table below rfl ?_ ?_ ?_ ?_⟩, frame⟩
      · intro other
        by_cases same : other = fd
        · simp [Open, received, same]
        · simp [Open, received, same]
      · simp [received, store_entry_below below, timer_eq, sockfd]
      · intro other different
        simp [received, store_entry_below below, different]
      · simp [received]
  · have serves (rounds : Nat) : s.serveClient rounds fd rest = _ :=
      serve_client_again below socket_eq recv
    refine ⟨⟨0, _, serves 0⟩, fun rounds after served => ?_⟩
    rw [serves rounds] at served
    cases served
    have frame : s.Frame fd rest (s.received fd (s.users fd) left [] rest) :=
      ⟨rfl, fun other different => ⟨Function.update_of_ne different _ _, rfl⟩,
        fun _ => by simp [Open, received]⟩
    refine ⟨⟨_, table.congr rfl ?_ ?_ rfl (Int.le_refl _)⟩, frame⟩
    · intro other
      by_cases same : other = fd
      · simp [Open, received, same, socket_eq]
      · simp [Open, received, same]
    · intro other
      by_cases same : other = fd
      · simp [received, store_entry_below below, same]
      · simp [received, store_entry_below below, same]
  · obtain ⟨lst, deletes, kept⟩ := table.keeps.del
    have serves (rounds : Nat) : s.serveClient rounds fd rest = _ :=
      serve_client_over below socket_eq sockfd gone
    simp only [timer_eq, deletes, Option.map_some] at serves
    refine ⟨⟨0, _, serves 0⟩, fun rounds after served => ?_⟩
    rw [serves rounds] at served
    cases served
    have frame : s.Frame fd rest
        { (s.received fd (s.users fd) left [] rest).close fd with timers := lst } :=
      ⟨rfl, fun other different => by simp [Server.close, received, different],
        fun edge => by simp [Server.close] at edge⟩
    refine ⟨⟨_, table.forgets (· = fd) kept rfl (table.mem_without rfl) ?_ ?_ rfl
      (Int.le_refl _)⟩, frame⟩
    · intro other
      by_cases same : other = fd
      · simp [Open, received, Server.close, same]
      · simp [Open, received, Server.close, same]
    · intro other different
      simp [received, Server.close, store_entry_below below, different]

/-- cb_func for each of these clients. -/
theorem call_back_each (calls : List (Callback × Nat))
    (own : ∀ call ∈ calls, call.2 < fdLimit ∧ (s.users call.2).sockfd = call.2) :
    calls.foldlM callBack s = some { s with
      sockets := fun fd => if fd ∈ calls.map Prod.snd then none else s.sockets fd
      edges := fun fd => if fd ∈ calls.map Prod.snd then false else s.edges fd } := by
  induction calls generalizing s with
  | nil => simp
  | cons call rest ih =>
      obtain ⟨callback, user⟩ := call
      obtain ⟨below, sockfd⟩ := own (callback, user) List.mem_cons_self
      -- the descriptor in the entry is the client's own
      have closes : callBack s (callback, user) = some (s.close user) := by
        cases callback
        simp [callBack, cbFunc, entry_below below, sockfd]
      have others : ∀ call ∈ rest, call.2 < fdLimit ∧
          ((s.close user).users call.2).sockfd = call.2 :=
        fun call member => own call (List.mem_cons_of_mem _ member)
      rw [List.foldlM_cons, closes, Option.bind_eq_bind, Option.bind_some, ih others]
      simp only [Server.close, List.map_cons, List.mem_cons, Option.some.injEq, mk.injEq, true_and,
        and_true]
      constructor
      · funext fd
        by_cases same : fd = user
        · simp [same]
        · exact if_congr (by simp [same]) rfl (Function.update_of_ne same none s.sockets)
      · funext fd
        by_cases same : fd = user
        · simp [same]
        · exact if_congr (by simp [same]) rfl (Function.update_of_ne same false s.edges)

/-- The server without the clients that are stale. -/
def expire (s : Server) (lst : SortTimerLst Callback Nat) : Server :=
  { s with
    timers := lst
    sockets := fun fd => if s.Open fd ∧ s.Stale fd then none else s.sockets fd
    edges := fun fd => if s.Open fd ∧ s.Stale fd then false else s.edges fd }

theorem expire_open (s : Server) (lst : SortTimerLst Callback Nat) (fd : Nat) :
    (s.expire lst).Open fd ↔ s.Open fd ∧ ¬ (s.Open fd ∧ s.Stale fd) := by
  show (if s.Open fd ∧ s.Stale fd then none else s.sockets fd).isSome = true ↔ _
  split_ifs with gone
  · exact iff_of_false Bool.false_ne_true fun stays => stays.2 gone
  · exact (and_iff_left gone).symm

theorem due_iff (entry : Nat × Task Callback Nat) (data : entry.2 = s.task fd) :
    due s.now entry = true ↔ s.Stale fd := by
  simp only [due, data, task, Stale, decide_eq_true_eq]
  omega

/-- timer_handler comes to an end, without the stale clients and their timers. -/
theorem Table.expires (table : s.Table timers) :
    ∃ lst, (s.expire lst).Table (timers.filter fun entry => !due s.now entry) ∧
      (∃ rounds, s.timerHandler rounds = some (s.expire lst)) ∧
      ∀ rounds after, s.timerHandler rounds = some after → after = s.expire lst := by
  obtain ⟨enough, lst, ticks, kept⟩ := table.keeps.tick s.now
  obtain ⟨taken, dropped⟩ := take_drop_due table.keeps.sorted s.now
  rw [taken] at ticks
  rw [dropped] at kept
  -- the timers that are due are those of the stale clients
  have stale (fd : Nat) : fd ∈ ((timers.filter (due s.now)).map fun entry => entry.2.call).map
      Prod.snd ↔ s.Open fd ∧ s.Stale fd := by
    simp only [List.map_map, List.mem_map, List.mem_filter, Function.comp_apply, Task.call]
    constructor
    · rintro ⟨entry, ⟨member, late⟩, rfl⟩
      obtain ⟨opened, -, data⟩ := (table.entries entry).mp member
      exact ⟨opened, (due_iff entry data).mp late⟩
    · rintro ⟨opened, old⟩
      obtain ⟨timer, -, member⟩ := table.timer opened
      exact ⟨(timer, s.task fd), ⟨member, (due_iff (timer, s.task fd) rfl).mpr old⟩, rfl⟩
  have handles (rounds : Nat) (ends : s.timers.tick rounds s.now =
      some ⟨lst, (timers.filter (due s.now)).map fun entry => entry.2.call⟩) :
      s.timerHandler rounds = some (s.expire lst) := by
    rw [timerHandler, ends, Option.bind_eq_bind, Option.bind_some, call_back_each]
    · simp only [expire, stale]
    · intro call member
      have opened := ((stale call.2).mp (List.mem_map_of_mem member)).1
      exact ⟨(table.own _ opened).1, (table.own _ opened).2.1⟩
  refine ⟨lst, table.forgets (fun fd => s.Open fd ∧ s.Stale fd) kept rfl ?_
    (expire_open s lst) (fun _ _ => ⟨rfl, rfl⟩) rfl (Int.le_refl _),
      ⟨enough, handles enough ticks⟩, ?_⟩
  · intro entry
    rw [List.mem_filter]
    refine and_congr_right fun member => ?_
    obtain ⟨opened, -, data⟩ := (table.entries entry).mp member
    rw [Bool.not_eq_true', ← Bool.not_eq_true, due_iff entry data]
    simp [opened]
  · intro rounds after handled
    obtain ⟨ticked, ends, -⟩ := Option.bind_eq_some_iff.mp handled
    cases tick_unique ends ticks
    rw [handles rounds ends] at handled
    exact (Option.some.inj handled).symm

end Table

section Runs
variable {s after : Server} {timers : Timers Callback Nat} {fd : Nat} {rest : List Report}

theorem Queue.news {sockets : Nat → Option Socket} (queue : s.Queue) (opened : s.Open fd)
    (still : ∀ other, (sockets other).isSome = (s.sockets other).isSome) :
    Queue { s with
      sockets := sockets
      edges := Function.update s.edges fd true } where
  edges other edge := by
    show (sockets other).isSome = true
    rw [still]
    by_cases same : other = fd
    · rw [same]
      exact opened
    · exact queue.edges other ((Function.update_of_ne same _ s.edges).symm.trans edge)
  events events place := by
    obtain ⟨nodup, clients⟩ := queue.events events place
    refine ⟨nodup, fun other member => ?_⟩
    show (sockets other).isSome = true
    rw [still]
    exact clients other member

theorem Queue.deliver {events : List Report} (queue : s.Queue) (nodup : events.Nodup)
    (pending : ∀ report ∈ events, s.pending report = true) : (s.deliver events).Queue where
  edges fd edge := queue.edges fd (Bool.and_eq_true_iff.mp edge).1
  events _ place := by
    cases place
    exact ⟨nodup, fun fd member => queue.edges fd (pending _ member)⟩

theorem Queue.accepts {connfd timer rounds : Nat} (queue : s.Queue)
    (place : s.place = .handling (.listening :: rest))
    (serves : s.serveListening rounds connfd timer rest = some after) : after.Queue := by
  obtain ⟨address, socket, backlog, lst, -, -, -, -, -, rfl⟩ := serve_listening_some serves
  have opens (other : Nat) (opened : other = connfd ∨ s.Open other) :
      (Function.update s.sockets connfd (some socket) other).isSome = true := by
    by_cases same : other = connfd
    · simp [same]
    · rw [Function.update_of_ne same]
      exact opened.resolve_left same
  constructor
  · intro other edge
    apply opens
    by_cases same : other = connfd
    · exact .inl same
    · exact .inr (queue.edges other ((Function.update_of_ne same _ s.edges).symm.trans edge))
  · intro events handles
    cases handles
    obtain ⟨nodup, clients⟩ := queue.events _ place
    exact ⟨(List.nodup_cons.mp nodup).2, fun other member =>
      opens other (.inr (clients other (List.mem_cons_of_mem _ member)))⟩

theorem Queue.receives (queue : s.Queue) (place : s.place = .handling (.client fd :: rest))
    (frame : s.Frame fd rest after) : after.Queue := by
  have stays (other : Nat) (different : other ≠ fd) : after.Open other ↔ s.Open other := by
    rw [Open, (frame.others other different).1, Open]
  constructor
  · intro other edge
    by_cases same : other = fd
    · subst same
      exact frame.edge edge
    · rw [(frame.others other same).2] at edge
      exact (stays other same).mpr (queue.edges other edge)
  · intro events handles
    rw [frame.place] at handles
    cases handles
    obtain ⟨nodup, clients⟩ := queue.events _ place
    obtain ⟨away, rest_nodup⟩ := List.nodup_cons.mp nodup
    refine ⟨rest_nodup, fun other member => ?_⟩
    -- each descriptor is in the batch once
    have different : other ≠ fd := by
      rintro rfl
      exact away member
    exact (stays other different).mpr (clients other (List.mem_cons_of_mem _ member))

theorem Queue.expires (queue : s.Queue) (lst : SortTimerLst Callback Nat) (fd : Nat)
    (edge : (s.expire lst).edges fd = true) : (s.expire lst).Open fd := by
  rw [expire_open]
  simp only [expire] at edge
  split_ifs at edge with gone
  exact ⟨queue.edges fd edge, gone⟩

/-- What every action preserves. -/
structure Consistent (s : Server) : Prop where
  table : ∃ timers, s.Table timers
  queue : s.Queue

/-- The end of a batch, with a timer_handler that comes to an end. -/
theorem Consistent.finishes (held : s.Consistent) :
    (∃ rounds after, s.finishBatch rounds = some after) ∧
    ∀ rounds after, s.finishBatch rounds = some after → after.Consistent := by
  obtain ⟨timers, table⟩ := held.table
  obtain ⟨lst, later, ⟨enough, ends⟩, only⟩ := table.expires
  have nowhere (stop : Bool) (events : List Report) :
      (if stop = true then Place.stopped else Place.waiting) ≠ .handling events := by
    split_ifs <;> exact Place.noConfusion
  by_cases late : s.timeout = true
  · constructor
    · refine ⟨enough, { s.expire lst with
        timeout := false
        place := if (s.expire lst).stopServer then .stopped else .waiting }, ?_⟩
      simp only [finishBatch, late, ↓reduceIte, ends, Option.bind_eq_bind, Option.bind_some]
    · intro rounds after finished
      simp only [finishBatch, late, ↓reduceIte, Option.bind_eq_bind,
        Option.bind_eq_some_iff] at finished
      obtain ⟨handled, handles, result⟩ := finished
      cases only rounds handled handles
      cases result
      exact ⟨⟨_, later.congr rfl (fun _ => Iff.rfl) (fun _ => ⟨rfl, rfl⟩) rfl (Int.le_refl _)⟩,
        held.queue.expires lst, fun events place => absurd place (nowhere _ events)⟩
  · have closed (rounds : Nat) : s.finishBatch rounds = some { s with
        timeout := false
        place := if s.stopServer then .stopped else .waiting } := by
      simp only [finishBatch, late, Bool.false_eq_true, ↓reduceIte, Option.bind_eq_bind,
        Option.bind_some]
    refine ⟨⟨0, _, closed 0⟩, fun rounds after finished => ?_⟩
    rw [closed rounds] at finished
    cases finished
    exact ⟨⟨_, table.congr rfl (fun _ => Iff.rfl) (fun _ => ⟨rfl, rfl⟩) rfl (Int.le_refl _)⟩,
      held.queue.edges, fun events place => absurd place (nowhere _ events)⟩

theorem step_consistent {action : Action} {rounds : Nat} (held : s.Consistent)
    (addressed : Addressed s action) (step : s.step rounds action = some after) :
    after.Consistent := by
  obtain ⟨timers, table⟩ := held.table
  have queue := held.queue
  have same_users : ∀ fd, (s.users fd).timer = (s.users fd).timer ∧
    (s.users fd).sockfd = (s.users fd).sockfd := fun _ => ⟨rfl, rfl⟩
  cases step_moves step with
  -- The world moves: no handler runs, so the table and the list stay.
  | clock time later =>
      exact ⟨⟨timers, table.congr rfl (fun _ => Iff.rfl) same_users rfl later⟩, queue.edges,
        queue.events⟩
  | connect address =>
      exact ⟨⟨timers, table.congr rfl (fun _ => Iff.rfl) same_users rfl (Int.le_refl _)⟩,
        queue.edges, queue.events⟩
  | early behind news =>
      exact ⟨⟨timers, table.congr rfl (fun _ => Iff.rfl) same_users rfl (Int.le_refl _)⟩,
        queue.edges, queue.events⟩
  | signal sig =>
      exact ⟨⟨timers, table.congr rfl (fun _ => Iff.rfl) same_users rfl (Int.le_refl _)⟩,
        queue.edges, queue.events⟩
  | news fd news socket found =>
      have opened : s.Open fd := by
        rw [Open, found]
        rfl
      have still (other : Nat) :
          (Function.update s.sockets fd (some (socket.hear news)) other).isSome =
            (s.sockets other).isSome := by
        by_cases same : other = fd
        · simp [same, found]
        · rw [Function.update_of_ne same]
      exact ⟨⟨timers, table.congr rfl (fun other => by rw [Open, still, Open]) same_users rfl
        (Int.le_refl _)⟩, queue.news opened still⟩
  | wake fd opened =>
      exact ⟨⟨timers, table.congr rfl (fun _ => Iff.rfl) same_users rfl (Int.le_refl _)⟩,
        queue.news opened fun _ => rfl⟩
  | wait events waits nodup room pending =>
      exact ⟨⟨timers, table.congr rfl (fun _ => Iff.rfl) same_users rfl (Int.le_refl _)⟩,
        queue.deliver nodup pending⟩
  -- The handlers of main, each with its own lemma on the table and on the queue.
  | accept connfd timer rest after place serves =>
      exact ⟨table.accepts addressed serves, queue.accepts place serves⟩
  | handleSignals rest place =>
      obtain ⟨nodup, clients⟩ := queue.events _ place
      refine ⟨⟨timers, table.congr rfl (fun _ => Iff.rfl) same_users rfl (Int.le_refl _)⟩,
        queue.edges, fun events handles => ?_⟩
      cases handles
      exact ⟨(List.nodup_cons.mp nodup).2, fun other member =>
        clients other (List.mem_cons_of_mem _ member)⟩
  | receive fd rest after place served =>
      have opened := (queue.events _ place).2 fd List.mem_cons_self
      obtain ⟨later, frame⟩ := (table.receives opened).2 rounds after served
      exact ⟨later, queue.receives place frame⟩
  | finish after place finished => exact held.finishes.2 rounds after finished

theorem start_consistent (now : Int) (users : Nat → ClientData) (others : Nat → Bool) :
    (start now users others).Consistent where
  table := by
    refine ⟨[], empty_keeps, ?_, fun entry => ?_, ?_⟩
    · intro fd opened
      cases opened
    · exact iff_of_false List.not_mem_nil fun member => Bool.false_ne_true member.1
    · intro fd opened
      cases opened
  queue := by
    constructor
    · intro fd edge
      cases edge
    · intro events place
      cases place

theorem reached_consistent (reached : Reached Addressed s) : s.Consistent := by
  obtain ⟨now, users, others, run⟩ := reached
  induction run with
  | refl => exact start_consistent now users others
  | tail run step ih =>
      obtain ⟨action, rounds, addressed, taken⟩ := step
      exact step_consistent ih addressed taken

theorem Table.answers_accept {connfd timer : Nat} (table : s.Table timers) (queued : s.backlog ≠ [])
    (closed : ¬ s.Open connfd) (free : s.others connfd = false)
    (fresh : s.timers.heap timer = none) :
    ∃ rounds after, s.serveListening rounds connfd timer rest = some after := by
  obtain ⟨⟨address, socket⟩, backlog, queue⟩ := List.exists_cons_of_ne_nil queued
  obtain ⟨rounds, lst, adds, -⟩ := table.keeps.add fresh
    (⟨s.now + 3 * timeslot, .cbFunc, connfd⟩ : Task Callback Nat)
  have absent : (s.sockets connfd).isSome = false := by simpa [Open] using closed
  have unused : ¬ ((s.sockets connfd).isSome || s.others connfd ||
      (s.timers.heap timer).isSome) = true := by
    simp [absent, free, fresh]
  refine ⟨rounds, ?_⟩
  simp only [serveListening, queue, if_neg unused, adds, Option.bind_eq_bind, Option.bind_some]
  exact ⟨_, rfl⟩

theorem Consistent.answers {action : Action} (held : s.Consistent) (enabled : s.Enabled action) :
    ∃ rounds after, s.step rounds action = some after := by
  obtain ⟨timers, table⟩ := held.table
  cases action with
  | accept connfd timer =>
      obtain ⟨rest, place, queued, closed, free, fresh⟩ := enabled
      simp only [Server.step, place]
      exact table.answers_accept queued closed free fresh
  | receive =>
      obtain ⟨fd, rest, place⟩ := enabled
      simp only [Server.step, place]
      exact (table.receives ((held.queue.events _ place).2 fd List.mem_cons_self)).1
  | finish =>
      have place : s.place = .handling [] := enabled
      simp only [Server.step, place]
      exact held.finishes.1
  | _ => cases enabled

theorem Consistent.sound (held : s.Consistent) : s.Sound := by
  obtain ⟨timers, table⟩ := held.table
  obtain ⟨lst, -, ⟨enough, ends⟩, only⟩ := table.expires
  refine ⟨⟨timers, table.tracks⟩, ⟨⟨enough, _, ends⟩, ?_⟩, fun action => held.answers⟩
  intro rounds after handled fd
  rw [only rounds after handled]
  show (if s.Open fd ∧ s.Stale fd then none else s.sockets fd) = _
  by_cases opened : s.Open fd
  · simp only [opened, true_and]
  · have absent : s.sockets fd = none := by simpa [Open] using opened
    simp only [absent, ite_self]

/-- As long as the descriptors are indices of users, every open client has its timer,
and timer_handler closes the clients that were idle for 3 * TIMESLOT seconds. -/
theorem clients_tracked (reached : Reached Addressed s) : s.Sound :=
  (reached_consistent reached).sound

/-- users, as new has left it. -/
def noUsers : Nat → ClientData := fun _ => ⟨[], 0, [], none⟩

/-- The standard streams, the listening socket, the epoll instance and the pipe. -/
def mainsOwn (fd : Nat) : Bool := fd < 7

/-- A client on descriptor 7. -/
theorem clients_tracked_seven : ∃ s, Server.sockets s 7 = some ⟨[], false, false⟩ ∧
    s.Sound :=
  ⟨_, rfl, clients_tracked ⟨0, noUsers, mainsOwn, .tail (.tail (.tail (.tail .refl
    ⟨.connect [], 0, trivial, rfl⟩) ⟨.wait [.listening], 0, trivial, rfl⟩)
    ⟨.accept 7 0, 0, (by decide : 7 < fdLimit), rfl⟩) ⟨.finish, 0, trivial, rfl⟩⟩⟩

/-- A descriptor that is no index of users. -/
theorem client_without_entry :
    ¬ ∀ s, Reached (fun _ _ => True) s → s.place = .waiting → s.Sound := by
  intro sound
  have client : ∃ s, Reached (fun _ _ => True) s ∧ s.place = .waiting ∧ s.Open 65535 :=
    ⟨_, ⟨0, noUsers, mainsOwn, .tail (.tail (.tail (.tail .refl
      ⟨.connect [], 0, trivial, rfl⟩) ⟨.wait [.listening], 0, trivial, rfl⟩)
      ⟨.accept 65535 0, 0, trivial, rfl⟩) ⟨.finish, 0, trivial, rfl⟩⟩, rfl, rfl⟩
  obtain ⟨s, reached, place, opened⟩ := client
  obtain ⟨timers, tracks⟩ := (sound s reached place).tracked
  -- users has no entry with this number
  obtain ⟨data, timer, task, entry, -⟩ := tracks.client 65535 opened
  exact absurd entry (by simp [Server.entry, fdLimit])

end Runs

end Server

end StudyWebServer.IdleServer
