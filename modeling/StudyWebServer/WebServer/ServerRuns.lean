import StudyWebServer.Library.ThreadCount
import StudyWebServer.WebServer.ServerTimers
import Mathlib.Data.List.Count

/-!
The connections of the server as long as no timer closes one on which a task is pending. Each is
then in one place, armed, reported, in the queue or with a worker, so that the tasks on it are
done one after the other on what the last one left, and the connections are counted right.
-/

namespace StudyWebServer.WebServer

open ThreadCount

/-- The descriptor that a worker is busy with. -/
def heldFd {Data : Type} : WorkerAt Data → Option Int
  | .idle => none
  | .running task _ => some task.fd
  | .leaving fd _ => some fd
  | .closing fd => some fd

def holds {Data : Type} (fd : Int) (place : WorkerAt Data) : Bool := heldFd place = some fd

theorem holds_running {Data : Type} (fd : Int) (task : Task) (data : Data) :
    holds fd (.running task data) = decide (task.fd = fd) := by
  simp [holds, heldFd]

def isArmed : Registration → Bool
  | .armed _ => true
  | _ => false

/-- The events that are still to be handled. -/
def MainAt.events : MainAt → List (Int × Events)
  | .looping batch => batch
  | .listening batch => batch
  | .expiring _ => []

theorem MainAt.batch_eq (main : MainAt) : main.batch = main.events.map Prod.fst := by
  cases main <;> rfl

/-- What the connections of one descriptor go through with nobody else on it: their data, and the
event that they are due for next. A new connection finds the data of the last one. -/
inductive Session {Choice Data : Type} (setup : Setup Choice Data) : Data → Exit → Prop where
  | start : Session setup (setup.init setup.fresh) (some .epollin)
  | again {data : Data} {exit : Exit} (session : Session setup data exit) :
      Session setup (setup.init data) (some .epollin)
  | serve {data result : Data} {exit : Exit} (kind : TaskKind) (choice : Choice)
      (session : Session setup data (some kind.interest))
      (served : setup.serve kind choice data = some (result, exit)) : Session setup result exit

namespace Server
variable {W Choice Data : Type} {s next : Server W Data} {setup : Setup Choice Data}
  {fd other : Int}

/-- The events of the connection that are still to be handled. -/
def reported (setup : Setup Choice Data) (s : Server W Data) (fd : Int) : Nat :=
  if fd = setup.listenFd then 0 else s.main.batch.count fd

theorem reported_head {events : Events} {rest : List (Int × Events)}
    (first : s.main = .looping ((fd, events) :: rest)) (main : MainAt)
    (batch : main.batch = rest.map Prod.fst) :
    s.reported setup other = (s.mainTo main).reported setup other +
      (decide (fd = other ∧ other ≠ setup.listenFd)).toNat := by
  unfold reported
  have before : s.main.batch = fd :: rest.map Prod.fst := by
    rw [first]
    rfl
  show _ = (if other = setup.listenFd then 0 else main.batch.count other) + _
  rw [before, batch]
  by_cases listener : other = setup.listenFd
  · simp [listener]
  · rw [if_neg listener, if_neg listener]
    by_cases same : fd = other
    · subst same
      simp [listener]
    · simp [same]

theorem reported_same (batch : next.main.batch = s.main.batch) :
    next.reported setup fd = s.reported setup fd := by
  unfold reported
  rw [batch]

theorem reported_pos (member : fd ∈ s.main.batch) (conn : fd ≠ setup.listenFd) :
    0 < s.reported setup fd := by
  unfold reported
  rw [if_neg conn]
  exact List.count_pos_iff.mpr member

def dataOf (s : Server W Data) (fd : Int) : Option Data := (s.users fd).map HttpConn.data

/-- Whatever is about to happen to a connection is what its session is due for. -/
structure Fits (setup : Setup Choice Data) (s : Server W Data) : Prop where
  armed : ∀ fd interest data, s.epoll fd = .armed interest → s.dataOf fd = some data →
    Session setup data (some interest)
  events : ∀ report ∈ s.main.events, report.1 ≠ setup.listenFd →
    ∀ data, s.dataOf report.1 = some data →
    ∃ interest, Session setup data (some interest) ∧ (report.2.input = true → interest = .epollin) ∧
      (report.2.output = true → interest = .epollout)
  tasks : ∀ task ∈ s.tasks, ∀ data, s.dataOf task.fd = some data →
    Session setup data (some task.kind.interest)
  running : ∀ w task data, s.workers w = .running task data → s.dataOf task.fd = some data ∧
    Session setup data (some task.kind.interest)
  leaving : ∀ w fd exit, s.workers w = .leaving fd exit → ∀ data, s.dataOf fd = some data →
    Session setup data exit
  sessions : ∀ fd data, s.dataOf fd = some data → ∃ exit, Session setup data exit

section Data

theorem shut_data : (s.shut fd).dataOf other = s.dataOf other := by
  show (Function.update s.users fd _ other).map HttpConn.data = (s.users other).map HttpConn.data
  by_cases same : other = fd
  · subst same
    rw [Function.update_self]
    cases s.users other <;> rfl
  · rw [Function.update_of_ne same]

theorem close_conn_data : (s.closeConn fd).dataOf other = s.dataOf other := by
  rcases close_conn_cases s fd with ⟨-, same⟩ | ⟨-, same⟩
  · rw [same]
    exact shut_data
  · rw [same]
    rfl

theorem set_conn_data (conn : HttpConn Data) : (s.setConn fd conn).dataOf other =
    if other = fd then some conn.data else s.dataOf other := by
  show (Function.update s.users fd (some conn) other).map HttpConn.data = _
  rw [Function.update_apply]
  split_ifs <;> rfl

/-- A step that leaves the data of all connections and calls nobody to one. -/
theorem Fits.keeps (fits : Fits setup s) (data : ∀ other, next.dataOf other = s.dataOf other)
    (epoll : ∀ other interest, next.epoll other = .armed interest → s.epoll other = .armed interest)
    (events : next.main.events ⊆ s.main.events) (tasks : next.tasks ⊆ s.tasks)
    (workers : ∀ w, next.workers w = s.workers w ∨ next.workers w = .idle ∨
      ∃ fd, next.workers w = .closing fd) : Fits setup next where
  armed other interest found here has := fits.armed other interest found (epoll other interest here)
    ((data other).symm.trans has)
  events report member conn found has := fits.events report (events member) conn found
    ((data report.1).symm.trans has)
  tasks task member found has :=
    fits.tasks task (tasks member) found ((data task.fd).symm.trans has)
  running w task found here := by
    rw [data]
    rcases workers w with same | idle | ⟨fd, closing⟩
    · exact fits.running w task found (same.symm.trans here)
    · cases idle.symm.trans here
    · cases closing.symm.trans here
  leaving w other exit here found has := by
    rw [data] at has
    rcases workers w with same | idle | ⟨fd, closing⟩
    · exact fits.leaving w other exit (same.symm.trans here) found has
    · cases idle.symm.trans here
    · cases closing.symm.trans here
  sessions other found has := fits.sessions other found ((data other).symm.trans has)

theorem Fits.shuts (fits : Fits setup s) {main : MainAt} (events : main.events ⊆ s.main.events) :
    Fits setup ((s.closeConn fd).mainTo main) := by
  have still : (s.closeConn fd).tasks = s.tasks ∧ (s.closeConn fd).workers = s.workers := by
    rcases close_conn_cases s fd with ⟨-, same⟩ | ⟨-, same⟩ <;> rw [same] <;> exact ⟨rfl, rfl⟩
  refine fits.keeps (fun _ => close_conn_data) (fun other interest here => ?_) events
    (still.1 ▸ List.Subset.refl _) fun w => .inl (congrFun still.2 w)
  have there : (s.closeConn fd).epoll other = .armed interest := here
  rw [close_conn_epoll] at there
  split_ifs at there
  exact there

/-- A descriptor leaves the set, and a worker the connection. -/
theorem Fits.removed (fits : Fits setup s) (tasks : next.tasks = s.tasks)
    (main : next.main = s.main)
    (data : ∀ other, next.dataOf other = s.dataOf other)
    (epoll : next.epoll = Function.update s.epoll fd .absent)
    (workers : ∀ w, next.workers w = s.workers w ∨ next.workers w = .idle ∨
      ∃ fd, next.workers w = .closing fd) : Fits setup next := by
  refine fits.keeps data (fun other interest here => ?_) (main ▸ List.Subset.refl _)
    (tasks ▸ List.Subset.refl _) workers
  rw [epoll, Function.update_apply] at here
  split_ifs at here
  exact here

theorem Fits.waited (fits : Fits setup s) {reports : List (Int × Events)}
    (reportable : s.reportable setup reports = true) : Fits setup { s with
      main := .looping reports
      epoll := fun fd =>
        if fd ≠ setup.listenFd ∧ fd ∈ reports.map Prod.fst then .disarmed else s.epoll fd } := by
  refine ⟨fun other interest data here has => ?_, fun report member conn data has => ?_, fits.tasks,
    fits.running, fits.leaving, fits.sessions⟩
  · have there : (if other ≠ setup.listenFd ∧
        other ∈ reports.map Prod.fst then Registration.disarmed
        else s.epoll other) = .armed interest := here
    split_ifs at there
    exact fits.armed other interest data there has
  · have either := List.all_eq_true.mp (Bool.and_eq_true_iff.mp reportable).2 report member
    rw [Bool.or_eq_true, decide_eq_true_iff] at either
    have allowed := either.resolve_left conn
    unfold allows at allowed
    split at allowed
    · next interest here =>
        rw [Bool.and_eq_true_iff, Bool.and_eq_true_iff] at allowed
        refine ⟨interest, fits.armed _ interest data here has, fun input => ?_, fun output => ?_⟩
        · have only := allowed.1.2
          rw [input] at only
          exact of_decide_eq_true only
        · have only := allowed.2
          rw [output] at only
          exact of_decide_eq_true only
    · cases allowed

theorem Fits.dealt (fits : Fits setup s) {events : Events} {rest : List (Int × Events)}
    {kind : TaskKind} {timer : HeapTimer Int} {now : Int} {touched : Int → Int}
    (first : s.main = .looping ((fd, events) :: rest)) (conn : fd ≠ setup.listenFd)
    (event : match kind with | .onRead => events.input = true | .onWrite => events.output = true) :
    Fits setup { s with
      main := .looping rest
      tasks := s.tasks ++ [⟨fd, kind⟩]
      now := now
      touched := touched
      timer := timer } := by
  have head : s.main.events = (fd, events) :: rest := by
    rw [first]
    rfl
  refine ⟨fits.armed, fun report member => fits.events report
    (head ▸ List.mem_cons_of_mem _ member),
    fun task member data has => ?_, fits.running, fits.leaving, fits.sessions⟩
  rcases List.mem_append.mp member with old | new
  · exact fits.tasks task old data has
  · obtain rfl := List.mem_singleton.mp new
    obtain ⟨interest, session, input, output⟩ :=
      fits.events (fd, events) (head ▸ List.mem_cons_self) conn data has
    cases kind with
    | onRead =>
        rw [input event] at session
        exact session
    | onWrite =>
        rw [output event] at session
        exact session

end Data

section Threads
variable [Fintype W]

/-- The tasks on the connection that are pending. -/
def busy (s : Server W Data) (fd : Int) : Nat :=
  (s.tasks.map Task.fd).count fd + standing s.workers (holds fd)

/-- No timer closes a connection on which a task is pending. -/
def Calm (s : Server W Data) : Action W Choice → Prop
  | .expire => ∀ fd rest, s.main = .expiring (fd :: rest) → s.busy fd = 0
  | _ => True

/-- Each open connection is in one place. -/
structure Placed (setup : Setup Choice Data) (s : Server W Data) : Prop where
  placed : ∀ fd, (isArmed (s.epoll fd)).toNat + s.reported setup fd + s.busy fd =
    (s.isOpen fd).toNat
  gone : ∀ fd, s.isOpen fd = true → s.epoll fd = .absent → ∃ w, s.workers w = .closing fd
  flagged : ∀ report ∈ s.main.events, report.1 ≠ setup.listenFd →
    (report.2.hangup || report.2.input || report.2.output) = true

theorem busy_task {task : Task} (member : task ∈ s.tasks) : 0 < s.busy task.fd := by
  have inside := List.count_pos_iff.mpr (List.mem_map_of_mem (f := Task.fd) member)
  unfold busy
  omega

theorem busy_worker {w : W} (here : holds fd (s.workers w) = true) : 0 < s.busy fd := by
  have stands : 0 < standing s.workers (holds fd) := standing_pos here
  unfold busy
  omega

omit [Fintype W] in
theorem armed_none (none : (isArmed (s.epoll fd)).toNat = 0) : isArmed (s.epoll fd) = false := by
  cases armed : isArmed (s.epoll fd) with
  | false => rfl
  | true =>
      rw [armed] at none
      cases none

omit [Fintype W] in
theorem open_one (one : (s.isOpen fd).toNat = 1) : s.isOpen fd = true := by
  cases opens : s.isOpen fd with
  | true => rfl
  | false =>
      rw [opens] at one
      cases one

/-- A connection with a pending task is nowhere else. -/
theorem Placed.busy_alone (placed : Placed setup s) (filled : 0 < s.busy fd) :
    isArmed (s.epoll fd) = false ∧ s.reported setup fd = 0 ∧ s.busy fd = 1 ∧
    s.isOpen fd = true := by
  have place := placed.placed fd
  have most : (s.isOpen fd).toNat ≤ 1 := Bool.toNat_le _
  exact ⟨armed_none (by omega), by omega, by omega, open_one (by omega)⟩

theorem Placed.reported_alone (placed : Placed setup s) (filled : 0 < s.reported setup fd) :
    isArmed (s.epoll fd) = false ∧ s.reported setup fd = 1 ∧ s.busy fd = 0 ∧
    s.isOpen fd = true := by
  have place := placed.placed fd
  have most : (s.isOpen fd).toNat ≤ 1 := Bool.toNat_le _
  exact ⟨armed_none (by omega), by omega, by omega, open_one (by omega)⟩

/-- A step of the loop on which no connection moves. -/
theorem Placed.same (placed : Placed setup s) (epoll : next.epoll = s.epoll)
    (users : next.users = s.users)
    (tasks : next.tasks = s.tasks) (workers : next.workers = s.workers)
    (main : ∀ other, next.reported setup other = s.reported setup other)
    (events : next.main.events ⊆ s.main.events) : Placed setup next := by
  have opens (other : Int) : next.isOpen other = s.isOpen other := by
    unfold isOpen
    rw [users]
  have pending (other : Int) : next.busy other = s.busy other := by
    unfold busy
    rw [tasks, workers]
  refine ⟨fun other => ?_, fun other here absent => ?_,
    fun report member => placed.flagged report (events member)⟩
  · rw [epoll, main, pending, opens]
    exact placed.placed other
  · rw [workers]
    exact placed.gone other ((opens other).symm.trans here) (epoll ▸ absent)

omit [Fintype W] in
theorem close_conn_tasks : (s.closeConn fd).tasks = s.tasks := by
  rcases close_conn_cases s fd with ⟨-, same⟩ | ⟨-, same⟩ <;> rw [same] <;> rfl

omit [Fintype W] in
theorem close_conn_workers : (s.closeConn fd).workers = s.workers := by
  rcases close_conn_cases s fd with ⟨-, same⟩ | ⟨-, same⟩ <;> rw [same] <;> rfl

/-- The loop closes a connection that nobody works on. -/
theorem Placed.shuts (placed : Placed setup s) {main : MainAt} (quiet : s.busy fd = 0)
    (others : ∀ other, other ≠ fd → (s.mainTo main).reported setup other = s.reported setup other)
    (none : (s.mainTo main).reported setup fd = 0) (events : main.events ⊆ s.main.events) :
    Placed setup ((s.closeConn fd).mainTo main) := by
  have pending (other : Int) : ((s.closeConn fd).mainTo main).busy other = s.busy other := by
    show ((s.closeConn fd).tasks.map Task.fd).count other + standing
      (s.closeConn fd).workers (holds other) = _
    rw [close_conn_tasks, close_conn_workers]
    rfl
  have opens (other : Int) : ((s.closeConn fd).mainTo main).isOpen other =
      (s.isOpen other && other ≠ fd) :=
    close_conn_open
  have set (other : Int) : ((s.closeConn fd).mainTo main).epoll other =
      if other = fd then .absent else s.epoll other := close_conn_epoll
  refine ⟨fun other => ?_, fun other here absent => ?_,
    fun report member => placed.flagged report (events member)⟩
  · have moved : ((s.closeConn fd).mainTo main).reported setup other =
        (s.mainTo main).reported setup other :=
      reported_same rfl
    rw [set, moved, pending, opens]
    by_cases same : other = fd
    · subst same
      rw [if_pos rfl, none, quiet, decide_eq_false (not_not.mpr rfl), Bool.and_false]
      rfl
    · rw [if_neg same, others other same, decide_eq_true same, Bool.and_true]
      exact placed.placed other
  · rw [opens, Bool.and_eq_true_iff, decide_eq_true_iff] at here
    rw [set, if_neg here.2] at absent
    show ∃ w, (s.closeConn fd).workers w = _
    rw [close_conn_workers]
    exact placed.gone other here.1 absent

theorem Placed.waited (placed : Placed setup s) {reports : List (Int × Events)}
    (before : s.main = .expiring []) (reportable : s.reportable setup reports = true) :
    Placed setup { s with
      main := .looping reports
      epoll := fun fd =>
        if fd ≠ setup.listenFd ∧ fd ∈ reports.map Prod.fst then .disarmed else s.epoll fd } := by
  obtain ⟨once, allowed⟩ := Bool.and_eq_true_iff.mp reportable
  have allowed (report : Int × Events) (member : report ∈ reports)
      (conn : report.1 ≠ setup.listenFd) :
      allows (s.epoll report.1) report.2 = true := by
    have either := List.all_eq_true.mp allowed report member
    rw [Bool.or_eq_true, decide_eq_true_iff] at either
    exact either.resolve_left conn
  have armed (other : Int) (conn : other ≠ setup.listenFd) (member : other ∈ reports.map Prod.fst) :
      isArmed (s.epoll other) = true := by
    obtain ⟨report, inside, rfl⟩ := List.mem_map.mp member
    have reports := allowed report inside conn
    unfold allows at reports
    split at reports
    · next interest here => rw [here]; rfl
    · cases reports
  refine ⟨fun other => ?_, fun other here absent => ?_, fun report member conn => ?_⟩
  · have place := placed.placed other
    have nothing : s.reported setup other = 0 := by
      unfold reported
      rw [before]
      split_ifs <;> rfl
    rw [nothing] at place
    show (isArmed (if other ≠ setup.listenFd ∧ other ∈ reports.map Prod.fst then .disarmed
      else s.epoll other)).toNat + (if other =
        setup.listenFd then 0 else (reports.map Prod.fst).count other) +
        s.busy other = (s.isOpen other).toNat
    by_cases listener : other = setup.listenFd
    · rw [if_neg fun both => both.1 listener, if_pos listener]
      exact place
    · rw [if_neg listener]
      by_cases member : other ∈ reports.map Prod.fst
      · rw [if_pos ⟨listener, member⟩, List.count_eq_one_of_mem (of_decide_eq_true once) member]
        rw [armed other listener member] at place
        exact place
      · rw [if_neg fun both => member both.2, List.count_eq_zero_of_not_mem member]
        exact place
  · have there : (if other ≠ setup.listenFd ∧
        other ∈ reports.map Prod.fst then Registration.disarmed
        else s.epoll other) = .absent := absent
    split_ifs at there
    exact placed.gone other here there
  · have reports := allowed report member conn
    unfold allows at reports
    split at reports
    · rw [Bool.and_eq_true_iff, Bool.and_eq_true_iff] at reports
      exact reports.1.1
    · cases reports

theorem Placed.dealt (placed : Placed setup s) {events : Events} {rest : List (Int × Events)}
    {kind : TaskKind} {timer : HeapTimer Int} {now : Int} {touched : Int → Int}
    (first : s.main = .looping ((fd, events) :: rest)) (conn : fd ≠ setup.listenFd) :
    Placed setup { s with
      main := .looping rest
      tasks := s.tasks ++ [⟨fd, kind⟩]
      now := now
      touched := touched
      timer := timer } := by
  refine ⟨fun other => ?_, placed.gone, fun report member => placed.flagged report ?_⟩
  · have place := placed.placed other
    rw [reported_head first (.looping rest) rfl] at place
    show (isArmed (s.epoll other)).toNat + (s.mainTo (.looping rest)).reported setup other +
      (((s.tasks ++ [Task.mk fd kind]).map Task.fd).count other +
        standing s.workers (holds other)) =
        (s.isOpen other).toNat
    have moves : fd = other ∧ other ≠ setup.listenFd ↔ fd = other :=
      ⟨And.left, fun same => ⟨same, same ▸ conn⟩⟩
    rw [decide_eq_decide.mpr moves] at place
    have one : [(Task.mk fd kind).fd].count other = (decide (fd = other)).toNat :=
      count_one fd other
    rw [List.map_append, List.count_append, List.map_singleton, one]
    unfold busy at place
    omega
  · rw [first]
    exact List.mem_cons_of_mem _ member

/-- A new connection is armed. -/
theorem Placed.enters (placed : Placed setup s) {interest : Interest} (free : s.isOpen fd = false)
    (epoll : ∀ other, next.epoll other = if other = fd then .armed interest else s.epoll other)
    (opens : ∀ other, next.isOpen other = if other = fd then true else s.isOpen other)
    (tasks : next.tasks = s.tasks) (workers : next.workers = s.workers)
    (batch : next.main.batch = s.main.batch) (events : next.main.events = s.main.events) :
    Placed setup next := by
  have pending (other : Int) : next.busy other = s.busy other := by
    unfold busy
    rw [tasks, workers]
  have same_batch (other : Int) : next.reported setup other = s.reported setup other :=
    reported_same batch
  refine ⟨fun other => ?_, fun other here gone => ?_, events ▸ placed.flagged⟩
  · have place := placed.placed other
    rw [epoll, same_batch, pending, opens]
    by_cases same : other = fd
    · subst same
      rw [free, Bool.toNat_false] at place
      rw [if_pos rfl, if_pos rfl]
      show 1 + _ + _ = 1
      omega
    · rw [if_neg same, if_neg same]
      exact place
  · rw [epoll] at gone
    rw [opens] at here
    split_ifs at gone here with same
    rw [workers]
    exact placed.gone other here gone

theorem Placed.accepted (placed : Placed setup s) (watched : Watched setup s)
    {rest : List (Int × Events)}
    {timer : HeapTimer Int} {now : Int} {touched : Int → Int} {data : Data}
    (accepting : s.main = .listening rest) (free : s.isOpen fd = false) :
    Placed setup ({ s.setConn fd ⟨false, data⟩ with
      main := if setup.listenET then .listening rest else .looping rest
      userCount := s.userCount + 1
      now := now
      touched := touched
      timer := timer }.addFd fd) := by
  have absent : s.epoll fd = .absent := by
    by_contra here
    exact Bool.false_ne_true (free.symm.trans (watched.registered fd here))
  have main : (if setup.listenET then MainAt.listening rest else .looping rest).batch =
      s.main.batch ∧
      (if setup.listenET then MainAt.listening rest else .looping rest).events = s.main.events := by
    rw [accepting]
    split_ifs <;> exact ⟨rfl, rfl⟩
  rw [add_fd_absent (by exact absent)]
  exact placed.enters free (fun other => register_epoll _)
    (fun other => set_conn_open _) rfl rfl main.1 main.2

/-- Nothing is pending on a connection that is closed, so it can be opened again. -/
theorem Fits.accepted (fits : Fits setup s) (placed : Placed setup s) {rest : List (Int × Events)}
    {timer : HeapTimer Int} {now : Int} {touched : Int → Int} {data : Data}
    (begins : Session setup (setup.init data) (some .epollin))
    (accepting : s.main = .listening rest) (free : s.isOpen fd = false)
    (absent : s.epoll fd = .absent) :
    Fits setup ({ s.setConn fd ⟨false, setup.init data⟩ with
      main := if setup.listenET then .listening rest else .looping rest
      userCount := s.userCount + 1
      now := now
      touched := touched
      timer := timer }.addFd fd) := by
  have place := placed.placed fd
  rw [free, Bool.toNat_false] at place
  have quiet : s.busy fd = 0 := by omega
  have unreported : s.reported setup fd = 0 := by omega
  have main : (if setup.listenET then MainAt.listening rest else .looping rest).events =
      s.main.events := by
    rw [accepting]
    split_ifs <;> rfl
  rw [add_fd_absent (by exact absent)]
  have has {other : Int} {found : Data} (apart : other ≠ fd)
      (here : (s.setConn fd ⟨false, setup.init data⟩).dataOf other = some found) :
        s.dataOf other = some found := by
    rwa [set_conn_data, if_neg apart] at here
  refine ⟨fun other interest found armed here => ?_, fun report member conn found here => ?_,
    fun task member found here => ?_, fun w task found here => ?_,
      fun w other exit here found there => ?_,
    fun other found here => ?_⟩
  · have there : (s.setConn fd ⟨false, setup.init data⟩).dataOf other = some found := here
    rw [register_epoll] at armed
    by_cases same : other = fd
    · rw [if_pos same] at armed
      rw [set_conn_data, if_pos same] at there
      cases armed
      cases there
      exact begins
    · rw [if_neg same] at armed
      exact fits.armed other interest found armed (has same there)
  · have inside : report ∈ s.main.events := main ▸ member
    refine fits.events report inside conn found (has ?_ here)
    intro same
    have counted : 0 < s.reported setup report.1 :=
      reported_pos (s.main.batch_eq ▸ List.mem_map_of_mem inside) conn
    rw [same] at counted
    omega
  · refine fits.tasks task member found (has ?_ here)
    intro same
    have counted := busy_task member
    rw [same] at counted
    exact Nat.lt_irrefl 0 (quiet ▸ counted)
  · have stands : s.workers w = .running task found := here
    have apart : task.fd ≠ fd := by
      rintro rfl
      have counted : 0 < s.busy task.fd :=
        busy_worker (w := w) (by rw [stands, holds_running, decide_eq_true rfl])
      omega
    obtain ⟨old, session⟩ := fits.running w task found stands
    refine ⟨?_, session⟩
    show (s.setConn fd ⟨false, setup.init data⟩).dataOf task.fd = _
    rw [set_conn_data, if_neg apart]
    exact old
  · have stands : s.workers w = .leaving other exit := here
    refine fits.leaving w other exit stands found (has ?_ there)
    rintro rfl
    have counted : 0 < s.busy other := busy_worker (w := w) (by
      rw [stands]
      exact decide_eq_true rfl)
    omega
  · have there : (s.setConn fd ⟨false, setup.init data⟩).dataOf other = some found := here
    rw [set_conn_data] at there
    split_ifs at there with same
    · cases there
      exact ⟨_, begins⟩
    · exact fits.sessions other found there

omit [Fintype W] in
theorem user_data {conn : HttpConn Data} (user : s.users fd = some conn) :
    s.dataOf fd = some conn.data := by
  unfold dataOf
  rw [user]
  rfl

omit [Fintype W] in
/-- The data that the next connection of a descriptor starts from. -/
theorem Fits.begins (fits : Fits setup s) :
    Session setup (setup.init (s.dataAt setup fd)) (some .epollin) := by
  unfold dataAt
  cases user : s.users fd with
  | none => exact .start
  | some conn =>
      obtain ⟨exit, session⟩ := fits.sessions fd conn.data (user_data user)
      exact .again session

section Workers
variable [DecidableEq W]

theorem busy_moved (s : Server W Data) (w : W) (place : WorkerAt Data) (fd : Int) :
    (s.workerTo w place).busy fd + (holds fd (s.workers w)).toNat =
    s.busy fd + (holds fd place).toNat := by
  have moved := standing_update s.workers (holds fd) w place
  show (s.tasks.map Task.fd).count fd + standing
    (Function.update s.workers w place) (holds fd) + _ = _
  unfold busy
  omega

omit [Fintype W] in
/-- A worker that was not about to close goes elsewhere. -/
theorem closing_moved {w : W} {place : WorkerAt Data} (stays : ∀ fd, s.workers w ≠ .closing fd)
    (found : ∃ other, s.workers other = .closing fd) :
    ∃ other, Function.update s.workers w place other = .closing fd := by
  obtain ⟨other, closing⟩ := found
  refine ⟨other, ?_⟩
  rw [Function.update_of_ne]
  · exact closing
  · rintro rfl
    exact stays fd closing

/-- A worker lets go of a connection, or is about to close it. -/
theorem Placed.leaves (placed : Placed setup s) {w : W} (place : WorkerAt Data)
    (registration : Registration)
    (here : holds fd (s.workers w) = true)
    (epoll : ∀ other, next.epoll other = if other = fd then registration else s.epoll other)
    (opens : ∀ other, other ≠ fd → next.isOpen other = s.isOpen other)
    (tasks : next.tasks = s.tasks)
    (workers : next.workers = Function.update s.workers w place) (main : next.main = s.main)
    (elsewhere : ∀ other, other ≠ fd → holds other place = false)
    (balance : (isArmed registration).toNat + (holds fd place).toNat = (next.isOpen fd).toNat)
    (goes : next.isOpen fd = true → registration = .absent → place = .closing fd) :
    Placed setup next := by
  have pending (other : Int) : next.busy other = (s.workerTo w place).busy other := by
    unfold busy
    rw [tasks, workers]
    rfl
  have events (other : Int) : next.reported setup other = s.reported setup other :=
    reported_same (congrArg MainAt.batch main)
  refine ⟨fun other => ?_, fun other there absent => ?_, main ▸ placed.flagged⟩
  · have place_other := placed.placed other
    have moved := busy_moved s w place other
    rw [epoll, events, pending]
    by_cases same : other = fd
    · subst same
      obtain ⟨-, none, one, -⟩ := placed.busy_alone (busy_worker here)
      rw [here, Bool.toNat_true] at moved
      rw [if_pos rfl]
      omega
    · have not_here : holds other (s.workers w) = false := by
        cases both : holds other (s.workers w) with
        | false => rfl
        | true =>
            exact absurd (Option.some.inj ((of_decide_eq_true both).symm.trans
              (of_decide_eq_true here))) same
      rw [not_here, elsewhere other same, Bool.toNat_false] at moved
      rw [if_neg same, opens other same]
      omega
  · rw [workers]
    rw [epoll] at absent
    by_cases same : other = fd
    · subst same
      rw [if_pos rfl] at absent
      exact ⟨w, by rw [Function.update_self, goes there absent]⟩
    · rw [if_neg same] at absent
      obtain ⟨closer, closing⟩ := placed.gone other ((opens other same).symm.trans there) absent
      refine ⟨closer, ?_⟩
      rw [Function.update_of_ne]
      · exact closing
      · rintro rfl
        have held := of_decide_eq_true here
        rw [closing] at held
        exact same (Option.some.inj held)

theorem placed_step {action : Action W Choice}
    (change : Change setup s action next) (calm : s.Calm action)
    (watched : Watched setup s) (placed : Placed setup s) : Placed setup next := by
  cases change with
  | ticked clock last wait timer top timed went =>
      refine placed.same rfl rfl rfl rfl (fun other => reported_same ?_) (List.nil_subset _)
      rw [top]
      rfl
  | untimed clock last top off =>
      refine placed.same rfl rfl rfl rfl (fun other => reported_same ?_) (List.nil_subset _)
      rw [top]
      rfl
  | expired fd rest due =>
      refine placed.shuts (calm fd rest due)
        (fun other _ => reported_same ?_) ?_ (List.nil_subset _)
      · rw [due]
        rfl
      · unfold reported
        split_ifs <;> rfl
  | waited reports before reportable => exact placed.waited before reportable
  | listens fd now events rest first listener =>
      refine placed.same rfl rfl rfl rfl (fun other => ?_) ?_
      · rw [reported_head first (.listening rest) rfl, decide_eq_false fun both =>
          both.2 (both.1 ▸ listener)]
        rfl
      · rw [first]
        exact List.subset_cons_self _ _
  | hungUp fd now events rest first conn hangup =>
      have head (other : Int) : s.reported setup other =
          (s.mainTo (.looping rest)).reported setup other +
          (decide (fd = other ∧ other ≠ setup.listenFd)).toNat :=
            reported_head first (.looping rest) rfl
      have waiting : 0 < s.reported setup fd := by
        rw [head, decide_eq_true ⟨rfl, conn⟩]
        exact Nat.succ_pos _
      have alone := placed.reported_alone waiting
      refine placed.shuts alone.2.2.1 (fun other apart => ?_) ?_ ?_
      · rw [head, decide_eq_false fun both => apart both.1.symm]
        rfl
      · have one := alone.2.1
        rw [head, decide_eq_true ⟨rfl, conn⟩] at one
        exact Nat.succ.inj one
      · rw [first]
        exact List.subset_cons_self _ _
  | dealt fd now events rest kind timer first conn event extended => exact placed.dealt first conn
  | unexpected fd now events rest first conn none =>
      have flagged := placed.flagged (fd, events) (by rw [first]; exact List.mem_cons_self) conn
      rw [none] at flagged
      cases flagged
  | returned answer now rest accepting =>
      refine placed.same rfl rfl rfl rfl (fun other => reported_same ?_) ?_
      · rw [accepting]
        rfl
      · rw [accepting]
        exact List.Subset.refl _
  | accepted fd now rest timer accepting valid conn free room timed =>
      exact placed.accepted watched accepting free
  | taken w task rest conn idle first user =>
      refine ⟨fun other => ?_, fun other here absent => ?_, placed.flagged⟩
      · have place := placed.placed other
        have moved := standing_update s.workers (holds other) w (.running task conn.data)
        rw [idle, holds_running] at moved
        show _ + s.reported setup other + ((rest.map Task.fd).count other +
          standing (Function.update s.workers w (.running task conn.data)) (holds other)) = _
        unfold busy at place
        rw [first, List.map_cons, ← List.singleton_append, List.count_append, count_one] at place
        have joined : standing (Function.update s.workers w (.running task conn.data))
            (holds other) =
          standing s.workers (holds other) + (decide (task.fd = other)).toNat := moved
        show (isArmed (s.epoll other)).toNat + _ + _ = (s.isOpen other).toNat
        omega
      · exact closing_moved (fun fd closing => by cases idle.symm.trans closing)
          (placed.gone other here absent)
  | ran w choice task data result exit conn running user served =>
      have opens (other : Int) : (s.setConn task.fd { conn with data := result }).isOpen other =
          s.isOpen other := by
        rw [set_conn_open]
        split_ifs with same
        · unfold isOpen
          rw [same, user]
        · rfl
      refine ⟨fun other => ?_, fun other here absent => ?_, placed.flagged⟩
      · have moved := busy_moved s w (.leaving task.fd exit) other
        rw [running] at moved
        have kept : (s.workerTo w (.leaving task.fd exit)).busy other = s.busy other :=
          Nat.add_right_cancel moved
        show (isArmed (s.epoll other)).toNat + s.reported setup other +
          (s.workerTo w (.leaving task.fd exit)).busy other =
            ((s.setConn task.fd _).isOpen other).toNat
        rw [kept, opens]
        exact placed.placed other
      · exact closing_moved (fun fd closing => by cases running.symm.trans closing)
          (placed.gone other ((opens other).symm.trans here) absent)
  | rearmed w fd ev leaving =>
      have here : holds fd (s.workers w) = true := by
        rw [leaving]
        exact decide_eq_true rfl
      obtain ⟨unarmed, -, one, opens⟩ := placed.busy_alone (busy_worker here)
      have present : s.epoll fd ≠ .absent := by
        intro absent
        obtain ⟨other, closing⟩ := placed.gone fd opens absent
        have two : 2 ≤ standing s.workers (holds fd) := by
          refine standing_two (?_ : other ≠ w) here ?_
          · rintro rfl
            rw [leaving] at closing
            cases closing
          · rw [closing]
            exact decide_eq_true rfl
        unfold busy at one
        omega
      have same : s.modFd fd ev = s.register fd (.armed ev) := if_neg present
      rw [same]
      refine placed.leaves .idle (.armed ev) here (fun other => register_epoll _)
        (fun _ _ => rfl) rfl rfl rfl (fun _ _ => rfl) ?_ nofun
      show 1 + 0 = (s.isOpen fd).toNat
      rw [opens]
      rfl
  | quits w fd leaving opens =>
      have here : holds fd (s.workers w) = true := by
        rw [leaving]
        exact decide_eq_true rfl
      refine placed.leaves (.closing fd) .absent here (fun other => register_epoll _)
        (fun _ _ => rfl) rfl rfl rfl (fun other apart => decide_eq_false fun same => apart
          (Option.some.inj same).symm) ?_ fun _ _ => rfl
      show 0 + (holds fd (.closing fd : WorkerAt Data)).toNat = (s.isOpen fd).toNat
      rw [opens, holds, heldFd, decide_eq_true rfl, Nat.zero_add]
  | quit w fd leaving gone =>
      have here : holds fd (s.workers w) = true := by
        rw [leaving]
        exact decide_eq_true rfl
      exact absurd (placed.busy_alone (busy_worker here)).2.2.2 (Bool.eq_false_iff.mp gone)
  | closed w fd closing =>
      have here : holds fd (s.workers w) = true := by
        rw [closing]
        exact decide_eq_true rfl
      have shuts (other : Int) : (s.shut fd).isOpen other =
          (s.isOpen other && other ≠ fd) := shut_open
      refine placed.leaves .idle .absent here (fun other => register_epoll _)
        (fun other apart => ?_) rfl rfl rfl (fun _ _ => rfl) ?_ fun opens => ?_
      · show (s.shut fd).isOpen other = _
        rw [shuts, decide_eq_true apart, Bool.and_true]
      · show 0 + 0 = ((s.shut fd).isOpen fd).toNat
        rw [shuts, decide_eq_false (not_not.mpr rfl), Bool.and_false]
        rfl
      · have still : (s.shut fd).isOpen fd = true := opens
        rw [shuts, decide_eq_false (not_not.mpr rfl), Bool.and_false] at still
        cases still

omit [Fintype W] in
theorem Fits.taken (fits : Fits setup s) {w : W} {task : Task}
    {rest : List Task} {conn : HttpConn Data}
    (first : s.tasks = task :: rest) (user : s.users task.fd = some conn) :
    Fits setup { s.workerTo w (.running task conn.data) with tasks := rest } := by
  have has := user_data user
  refine ⟨fits.armed, fits.events,
    fun other member => fits.tasks other (first ▸ List.mem_cons_of_mem _ member),
    fun thread other data here => ?_, fun thread other exit here => ?_, fits.sessions⟩
  · have stands : Function.update s.workers w (.running task conn.data) thread =
        .running other data := here
    rw [Function.update_apply] at stands
    split_ifs at stands
    · cases stands
      exact ⟨has, fits.tasks task (first ▸ List.mem_cons_self) conn.data has⟩
    · exact fits.running thread other data stands
  · have stands : Function.update s.workers w (.running task conn.data) thread =
        .leaving other exit := here
    rw [Function.update_apply] at stands
    split_ifs at stands
    exact fits.leaving thread other exit stands

/-- A task is done on what the one before it left. -/
theorem Fits.ran (fits : Fits setup s) (placed : Placed setup s) {w : W}
    {choice : Choice} {task : Task}
    {data result : Data} {exit : Exit} {conn : HttpConn Data}
    (running : s.workers w = .running task data)
    (served : setup.serve task.kind choice data = some (result, exit)) :
    Fits setup ((s.setConn task.fd { conn with data := result }).workerTo w
      (.leaving task.fd exit)) := by
  have here : holds task.fd (s.workers w) = true := by
    rw [running, holds_running, decide_eq_true rfl]
  obtain ⟨unarmed, unreported, one, -⟩ := placed.busy_alone (busy_worker here)
  have session := Session.serve task.kind choice (fits.running w task data running).2 served
  have stands : 0 < standing s.workers (holds task.fd) := standing_pos here
  unfold busy at one
  have has {other : Int} {found : Data} (apart : other ≠ task.fd)
      (there : (s.setConn task.fd { conn with data := result }).dataOf other = some found) :
      s.dataOf other = some found := by
    rwa [set_conn_data, if_neg apart] at there
  have alone {thread : W} (apart : thread ≠ w) : heldFd (s.workers thread) ≠ some task.fd := by
    intro held
    have two : 2 ≤ standing s.workers (holds task.fd) :=
      standing_two apart here (decide_eq_true held)
    omega
  refine ⟨fun other interest found armed there => ?_, fun report member conn found there => ?_,
    fun other member found there => ?_, fun thread other found there => ?_,
    fun thread other exit there found what => ?_, fun other found there => ?_⟩
  · have before : s.epoll other = .armed interest := armed
    refine fits.armed other interest found before (has ?_ there)
    rintro rfl
    rw [before] at unarmed
    cases unarmed
  · refine fits.events report member conn found (has ?_ there)
    intro same
    have counted : 0 < s.reported setup report.1 :=
      reported_pos (s.main.batch_eq ▸ List.mem_map_of_mem member) conn
    rw [same] at counted
    omega
  · refine fits.tasks other member found (has ?_ there)
    intro same
    have inside : other ∈ s.tasks := member
    have counted := List.count_pos_iff.mpr (List.mem_map_of_mem (f := Task.fd) inside)
    rw [same] at counted
    omega
  · have moved : Function.update s.workers w (.leaving task.fd exit) thread =
        .running other found := there
    rw [Function.update_apply] at moved
    split_ifs at moved with same
    obtain ⟨old, before⟩ := fits.running thread other found moved
    refine ⟨?_, before⟩
    show (s.setConn task.fd { conn with data := result }).dataOf other.fd = _
    rw [set_conn_data, if_neg, old]
    intro is_task
    refine alone same ?_
    rw [moved, ← is_task]
    rfl
  · have moved : Function.update s.workers w (.leaving task.fd _) thread =
        .leaving other exit := there
    have now : (s.setConn task.fd { conn with data := result }).dataOf other = some found := what
    rw [Function.update_apply] at moved
    split_ifs at moved with same
    · cases moved
      rw [set_conn_data, if_pos rfl] at now
      cases now
      exact session
    · refine fits.leaving thread other exit moved found (has ?_ now)
      rintro rfl
      refine alone same ?_
      rw [moved]
      rfl
  · have now : (s.setConn task.fd { conn with data := result }).dataOf other = some found := there
    rw [set_conn_data] at now
    split_ifs at now
    · cases now
      exact ⟨_, session⟩
    · exact fits.sessions other found now

omit [Fintype W] in
theorem Fits.rearmed (fits : Fits setup s) {w : W} {interest : Interest}
    (leaving : s.workers w = .leaving fd (some interest)) :
    Fits setup ((s.modFd fd interest).workerTo w .idle) := by
  have armed : Fits setup (s.modFd fd interest) := by
    unfold modFd
    split_ifs
    · exact fits
    · refine ⟨fun other event data here has => ?_, fits.events, fits.tasks, fits.running,
        fits.leaving, fits.sessions⟩
      rw [register_epoll] at here
      split_ifs at here with same
      · cases here
        exact fits.leaving w fd _ leaving data (same ▸ has)
      · exact fits.armed other event data here has
  refine armed.keeps (fun _ => rfl) (fun _ _ here => here) (List.Subset.refl _) (List.Subset.refl _)
    fun thread => ?_
  by_cases same : thread = w
  · subst same
    exact .inr (.inl (Function.update_self ..))
  · exact .inl (Function.update_of_ne same _ _)

omit [Fintype W] in
theorem worker_cases (s : Server W Data) (w thread : W) (place : WorkerAt Data) :
    (s.workerTo w place).workers thread =
    s.workers thread ∨ (s.workerTo w place).workers thread = place := by
  by_cases same : thread = w
  · subst same
    exact .inr (Function.update_self ..)
  · exact .inl (Function.update_of_ne same _ _)

theorem fits_step {action : Action W Choice} (change : Change setup s action next)
    (watched : Watched setup s)
    (placed : Placed setup s) (fits : Fits setup s) : Fits setup next := by
  cases change with
  | ticked clock last wait timer top timed went =>
      exact fits.keeps (fun _ => rfl) (fun _ _ here => here)
        (List.nil_subset _) (List.Subset.refl _)
        fun _ => .inl rfl
  | untimed clock last top off =>
      exact fits.keeps (fun _ => rfl) (fun _ _ here => here)
        (List.nil_subset _) (List.Subset.refl _)
        fun _ => .inl rfl
  | expired fd rest due => exact fits.shuts (List.nil_subset _)
  | waited reports before reportable => exact fits.waited reportable
  | listens fd now events rest first listener =>
      refine fits.keeps (fun _ => rfl) (fun _ _ here => here) ?_
        (List.Subset.refl _) fun _ => .inl rfl
      rw [first]
      exact List.subset_cons_self _ _
  | hungUp fd now events rest first conn hangup =>
      refine fits.shuts ?_
      rw [first]
      exact List.subset_cons_self _ _
  | dealt fd now events rest kind timer first conn event extended =>
      exact fits.dealt first conn event
  | unexpected fd now events rest first conn none =>
      refine fits.keeps (fun _ => rfl) (fun _ _ here => here) ?_
        (List.Subset.refl _) fun _ => .inl rfl
      rw [first]
      exact List.subset_cons_self _ _
  | returned answer now rest accepting =>
      refine fits.keeps (fun _ => rfl) (fun _ _ here => here) ?_
        (List.Subset.refl _) fun _ => .inl rfl
      rw [accepting]
      exact List.Subset.refl _
  | accepted fd now rest timer accepting valid conn free room timed =>
      refine fits.accepted placed fits.begins accepting free ?_
      by_contra here
      exact Bool.false_ne_true (free.symm.trans (watched.registered fd here))
  | taken w task rest conn idle first user => exact fits.taken first user
  | ran w choice task data result exit conn running user served =>
      exact fits.ran placed running served
  | rearmed w fd ev leaving => exact fits.rearmed leaving
  | quits w fd leaving here =>
      exact fits.removed rfl rfl (fun _ => rfl) rfl fun thread =>
        (worker_cases s w thread _).imp_right fun same => .inr ⟨fd, same⟩
  | quit w fd leaving gone =>
      exact fits.removed rfl rfl (fun _ => rfl) rfl fun thread =>
        (worker_cases s w thread _).imp_right .inl
  | closed w fd closing =>
      exact fits.removed rfl rfl (fun _ => shut_data) rfl fun thread =>
        (worker_cases s w thread _).imp_right .inl

omit [DecidableEq W] in
theorem placed_start (epoch : Int) : Placed setup (start epoch : Server W Data) := by
  refine ⟨fun fd => ?_, fun fd here => ?_, fun report member => ?_⟩
  · have quiet : standing (start epoch : Server W Data).workers (holds fd) = 0 :=
      standing_eq_zero fun _ => rfl
    have unreported : (start epoch : Server W Data).reported setup fd = 0 := by
      unfold reported
      split_ifs <;> rfl
    rw [unreported, busy, quiet]
    rfl
  · cases here
  · cases member

omit [DecidableEq W] [Fintype W] in
theorem fits_start (epoch : Int) : Fits setup (start epoch : Server W Data) := by
  refine ⟨fun fd interest data armed => ?_, fun report member => ?_, fun task member => ?_,
    fun w task data here => ?_, fun w fd exit here => ?_, fun fd data has => ?_⟩
  · cases armed
  · cases member
  · cases member
  · cases here
  · cases here
  · cases has

theorem reached_sound (reached : Reached setup Calm s) : Placed setup s ∧ Fits setup s := by
  induction reached with
  | start epoch => exact ⟨placed_start epoch, fits_start epoch⟩
  | step action reached onward calm stepped ih =>
      have change := change_of_step stepped
      have watched := reached_watched reached
      exact ⟨placed_step change calm watched ih.1, fits_step change watched ih.1 ih.2⟩

/-- An open connection is armed, reported, in the queue or with a worker, and in one of these
places only. A task finds it as the task before left it, and is the one that it is due for, so
that OnWrite_ runs only when there is a response. -/
theorem connections_served_alone (reached : Reached setup Calm s) :
    (∀ fd, (isArmed (s.epoll fd)).toNat + s.reported setup fd + s.busy fd = (s.isOpen fd).toNat) ∧
    (∀ fd data, s.dataOf fd = some data → ∃ exit, Session setup data exit) ∧
    (∀ fd interest data, s.epoll fd = .armed interest → s.dataOf fd = some data →
      Session setup data (some interest)) ∧
    ∀ w task data, s.workers w = .running task data →
      s.dataOf task.fd = some data ∧ Session setup data (some task.kind.interest) := by
  obtain ⟨placed, fits⟩ := reached_sound reached
  exact ⟨placed.placed, fits.sessions, fits.armed, fits.running⟩

omit [Fintype W] [DecidableEq W] in
/-- A worker has begun with the first event of descriptor 5. -/
theorem served : ∃ s : Server Unit Unit, Reached (echoing 60000)
    (Calm : Server Unit Unit → Action Unit Exit → Prop) s ∧
    s.workers () = .running ⟨5, .onRead⟩ () := by
  have onward : (0 : Int) ≤ 0 ∧ (∀ _ : Nat, (0 : Int) ≤ 0) ∧ ∀ _ : Nat, (0 : Int) ≤ 0 :=
    ⟨Int.le_refl _, fun _ => Int.le_refl _, fun _ => Int.le_refl _⟩
  have ticked : Reached (echoing 60000) Calm (_ : Server Unit Unit) :=
    .step (.tick (fun _ => 0) 0) (.start 0) onward trivial rfl
  have waited : Reached (echoing 60000) Calm (_ : Server Unit Unit) :=
    .step (.wait [(3, ⟨false, true, false⟩)]) ticked trivial trivial rfl
  have listens : Reached (echoing 60000) Calm (_ : Server Unit Unit) :=
    .step (.handle 0) waited (Int.le_refl _) trivial rfl
  have accepted : Reached (echoing 60000) Calm (_ : Server Unit Unit) :=
    .step (.accept (some 5) 0) listens (Int.le_refl _) trivial rfl
  have again : Reached (echoing 60000) Calm (_ : Server Unit Unit) :=
    .step (.tick (fun _ => 0) 0) accepted onward trivial rfl
  have reports : Reached (echoing 60000) Calm (_ : Server Unit Unit) :=
    .step (.wait [(5, ⟨false, true, false⟩)]) again trivial trivial rfl
  have dealt : Reached (echoing 60000) Calm (_ : Server Unit Unit) :=
    .step (.handle 0) reports (Int.le_refl _) trivial rfl
  exact ⟨_, .step (.take ()) dealt trivial trivial rfl, rfl⟩

theorem connections_served_alone_one : ∃ s : Server Unit Unit, s.workers () =
    .running ⟨5, .onRead⟩ () ∧
    (∀ fd, (isArmed (s.epoll fd)).toNat + s.reported (echoing 60000) fd + s.busy fd =
      (s.isOpen fd).toNat) ∧
    (∀ fd data, s.dataOf fd = some data → ∃ exit, Session (echoing 60000) data exit) ∧
    (∀ fd interest data, s.epoll fd = .armed interest → s.dataOf fd = some data →
      Session (echoing 60000) data (some interest)) ∧
    ∀ w task data, s.workers w = .running task data →
      s.dataOf task.fd = some data ∧ Session (echoing 60000) data (some task.kind.interest) := by
  obtain ⟨s, reached, running⟩ := served
  exact ⟨s, running, connections_served_alone reached⟩

/-- The descriptors of the open connections are as many as are counted. -/
def Counted (s : Server W Data) : Prop :=
  ∃ fds : List Int, fds.Nodup ∧ (∀ fd, fd ∈ fds ↔ s.isOpen fd = true) ∧ s.userCount = fds.length ∧
    s.userCount ≤ maxFd

omit [DecidableEq W] [Fintype W] in
theorem Counted.same (counted : Counted s) (opens : ∀ fd, next.isOpen fd = s.isOpen fd)
    (count : next.userCount = s.userCount) : Counted next := by
  obtain ⟨fds, once, members, size, most⟩ := counted
  exact ⟨fds, once, fun fd => opens fd ▸ members fd, count.trans size, count ▸ most⟩

omit [DecidableEq W] [Fintype W] in
theorem Counted.drops (counted : Counted s) (here : s.isOpen fd = true)
    (opens : ∀ other, next.isOpen other = (s.isOpen other && other ≠ fd))
    (count : next.userCount = s.userCount - 1) : Counted next := by
  obtain ⟨fds, once, members, size, most⟩ := counted
  have member : fd ∈ fds := (members fd).mpr here
  have some := List.length_pos_of_mem member
  refine ⟨fds.erase fd, once.erase fd, fun other => ?_, ?_, by omega⟩
  · rw [once.mem_erase_iff, members, opens, Bool.and_eq_true_iff, decide_eq_true_iff, and_comm]
  · rw [count, size, List.length_erase_of_mem member]
    omega

omit [DecidableEq W] [Fintype W] in
theorem Counted.shuts (counted : Counted s) (main : MainAt) :
    Counted ((s.closeConn fd).mainTo main) := by
  have opens (other : Int) : ((s.closeConn fd).mainTo main).isOpen other =
      (s.isOpen other && other ≠ fd) :=
    close_conn_open
  rcases close_conn_cases s fd with ⟨here, same⟩ | ⟨gone, same⟩
  · exact counted.drops here opens (by rw [same]; rfl)
  · refine counted.same (fun other => ?_) (by rw [same]; rfl)
    rw [same]
    rfl

theorem counted_step {action : Action W Choice} (change : Change setup s action next)
    (watched : Watched setup s)
    (placed : Placed setup s) (counted : Counted s) : Counted next := by
  cases change with
  | ticked clock last wait timer top timed went => exact counted.same (fun _ => rfl) rfl
  | untimed clock last top off => exact counted.same (fun _ => rfl) rfl
  | expired fd rest due => exact counted.shuts _
  | waited reports before reportable => exact counted.same (fun _ => rfl) rfl
  | listens fd now events rest first listener => exact counted.same (fun _ => rfl) rfl
  | hungUp fd now events rest first conn hangup => exact counted.shuts _
  | dealt fd now events rest kind timer first conn event extended =>
      exact counted.same (fun _ => rfl) rfl
  | unexpected fd now events rest first conn none => exact counted.same (fun _ => rfl) rfl
  | returned answer now rest accepting => exact counted.same (fun _ => rfl) rfl
  | accepted fd now rest timer accepting valid conn free room timed =>
      have absent : s.epoll fd = .absent := by
        by_contra here
        exact Bool.false_ne_true (free.symm.trans (watched.registered fd here))
      obtain ⟨fds, once, members, size, most⟩ := counted
      have new : fd ∉ fds := fun member => Bool.false_ne_true
        (free.symm.trans ((members fd).mp member))
      rw [add_fd_absent (by exact absent)]
      refine ⟨fd :: fds, List.nodup_cons.mpr ⟨new, once⟩, fun other => ?_, ?_, ?_⟩
      · show _ ↔ (s.setConn fd ⟨false, setup.init (s.dataAt setup fd)⟩).isOpen other = true
        rw [set_conn_open, List.mem_cons, members]
        split_ifs with same
        · exact iff_of_true (.inl same) rfl
        · exact or_iff_right same
      · show s.userCount + 1 = ((fds.length + 1 : Nat) : Int)
        rw [size]
        rfl
      · show s.userCount + 1 ≤ maxFd
        omega
  | taken w task rest conn idle first user => exact counted.same (fun _ => rfl) rfl
  | ran w choice task data result exit conn running user served =>
      refine counted.same (fun other => ?_) rfl
      show (s.setConn task.fd { conn with data := result }).isOpen other = _
      rw [set_conn_open]
      split_ifs with same
      · unfold isOpen
        rw [same, user]
      · rfl
  | rearmed w fd ev leaving =>
      refine counted.same (fun other => ?_) ?_
      · show (s.modFd fd ev).isOpen other = _
        unfold modFd
        split_ifs <;> rfl
      · show (s.modFd fd ev).userCount = _
        unfold modFd
        split_ifs <;> rfl
  | quits w fd leaving here => exact counted.same (fun _ => rfl) rfl
  | quit w fd leaving gone => exact counted.same (fun _ => rfl) rfl
  | closed w fd closing =>
      have here : holds fd (s.workers w) = true := by
        rw [closing]
        exact decide_eq_true rfl
      have opens := (placed.busy_alone (busy_worker here)).2.2.2
      exact counted.drops opens (fun other => shut_open) rfl

/-- userCount is the number of open connections, and never above MAX_FD. -/
theorem user_count_exact (reached : Reached setup Calm s) :
    ∃ fds : List Int, fds.Nodup ∧ (∀ fd, fd ∈ fds ↔ s.isOpen fd = true) ∧ s.userCount = fds.length ∧
      s.userCount ≤ maxFd := by
  suffices counted : Counted s from counted
  induction reached with
  | start epoch =>
      refine ⟨[], List.nodup_nil, fun fd => iff_of_false List.not_mem_nil ?_, rfl, ?_⟩
      · exact Bool.false_ne_true
      · show (0 : Int) ≤ maxFd
        decide
  | step action reached onward calm stepped ih =>
      exact counted_step (change_of_step stepped) (reached_watched reached)
        (reached_sound reached).1 ih

theorem user_count_exact_one : ∃ s : Server Unit Unit, s.workers () = .running ⟨5, .onRead⟩ () ∧
    ∃ fds : List Int, fds.Nodup ∧ (∀ fd, fd ∈ fds ↔ s.isOpen fd = true) ∧ s.userCount = fds.length ∧
      s.userCount ≤ maxFd := by
  obtain ⟨s, reached, running⟩ := served
  exact ⟨s, running, user_count_exact reached⟩

end Workers

end Threads

end Server

end StudyWebServer.WebServer
