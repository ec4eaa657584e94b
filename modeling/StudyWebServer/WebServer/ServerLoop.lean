import StudyWebServer.Server.EventLoop
import StudyWebServer.WebServer.TimerRuns

/-!
WebServer of WebServer-master/code/server: the loop of Start with its timers, the epoll set
with EPOLLONESHOT, and the workers that run OnRead_ and OnWrite_. The queue of the pool hands
out the tasks in the order in which they were added. What a task does to its connection is a
parameter; it is done on the connection as it was when the task began, and written back before
the ModFd. In CloseConn_ a worker tests isClose_ and closes in two steps; in the loop they are
one, since DelFd keeps others from the connection.
-/

namespace StudyWebServer.WebServer

/-- What epoll_wait reports: EPOLLRDHUP, EPOLLHUP or EPOLLERR, EPOLLIN, EPOLLOUT. -/
structure Events where
  hangup : Bool
  input : Bool
  output : Bool
  deriving DecidableEq

def allows : Registration → Events → Bool
  | .armed interest, events => (events.hangup || events.input || events.output) &&
      (!events.input || interest = .epollin) && (!events.output || interest = .epollout)
  | _, _ => false

inductive TaskKind where
  | onRead
  | onWrite
  deriving DecidableEq

def TaskKind.interest : TaskKind → Interest
  | .onRead => .epollin
  | .onWrite => .epollout

structure Task where
  fd : Int
  kind : TaskKind
  deriving DecidableEq

/-- A ModFd for an event, or CloseConn_. -/
abbrev Exit := Option Interest

structure HttpConn (Data : Type) where
  isClose : Bool
  data : Data
  deriving DecidableEq

inductive WorkerAt (Data : Type) where
  | idle
  | running (task : Task) (data : Data)
  /-- before the ModFd or the CloseConn_ -/
  | leaving (fd : Int) (exit : Exit)
  /-- in Close, behind the test of isClose_ -/
  | closing (fd : Int)
  deriving DecidableEq

inductive MainAt where
  /-- with these events to be handled; at the head of the loop if there are none -/
  | looping (batch : List (Int × Events))
  /-- with the callbacks of these timers to be called; before epoll_wait if there are none -/
  | expiring (fds : List Int)
  | listening (batch : List (Int × Events))
  deriving DecidableEq

def maxFd : Int := 65536

structure Setup (Choice Data : Type) where
  listenFd : Int
  listenET : Bool
  timeoutMS : Int
  fresh : Data
  init : Data → Data
  serve : TaskKind → Choice → Data → Option (Data × Exit)
  stray : Nat → Bool

inductive Ended where
  | assertion
  /-- in siftup_, behind a read outside of the vector -/
  | stray
  | task
  deriving DecidableEq

structure Server (W Data : Type) where
  users : Int → Option (HttpConn Data)
  userCount : Int
  timer : HeapTimer Int
  epoll : Int → Registration
  tasks : List Task
  main : MainAt
  workers : W → WorkerAt Data
  now : Int
  /-- when a connection was accepted or last had an event -/
  touched : Int → Int

inductive Server.Action (W Choice : Type) where
  /-- with the readings of the clock in tick, and the one behind it -/
  | tick (clock : Nat → Int) (last : Int)
  | expire
  | wait (reports : List (Int × Events))
  | handle (now : Int)
  | accept (answer : Option Int) (now : Int)
  | take (w : W)
  | run (w : W) (choice : Choice)
  | leave (w : W)
  | close (w : W)

namespace Server
variable {W Choice Data : Type}

def start (epoch : Int) : Server W Data where
  users _ := none
  userCount := 0
  timer := .empty
  epoll _ := .absent
  tasks := []
  main := .looping []
  workers _ := .idle
  now := epoch
  touched _ := epoch

def isOpen (s : Server W Data) (fd : Int) : Bool :=
  match s.users fd with
  | some conn => !conn.isClose
  | none => false

def setConn (s : Server W Data) (fd : Int) (conn : HttpConn Data) : Server W Data :=
  { s with users := Function.update s.users fd (some conn) }

def register (s : Server W Data) (fd : Int) (registration : Registration) : Server W Data :=
  { s with epoll := Function.update s.epoll fd registration }

/-- `isClose_ = true; userCount--; close(fd_);` A descriptor that is closed leaves the set. -/
def shut (s : Server W Data) (fd : Int) : Server W Data :=
  { s.register fd .absent with
    users := Function.update s.users fd ((s.users fd).map fun conn => { conn with isClose := true })
    userCount := s.userCount - 1 }

def closeConn (s : Server W Data) (fd : Int) : Server W Data :=
  if s.isOpen fd then (s.register fd .absent).shut fd else s.register fd .absent

def mainTo (s : Server W Data) (main : MainAt) : Server W Data := { s with main := main }

section Loop
variable (setup : Setup Choice Data)

def tick (s : Server W Data) (clock : Nat → Int) (last : Int) :
    Option (Except Ended (Server W Data)) :=
  match s.main with
  | .looping [] =>
      if 0 < setup.timeoutMS then
        match s.timer.getNextTick setup.stray clock last with
        | none => some (.error .stray)
        | some (timer, _) => some (.ok { s with
            timer := timer
            main := .expiring ((timer.fired.drop s.timer.fired.length).map TimerNode.cb)
            now := last })
      else some (.ok { s with main := .expiring [], now := last })
  | _ => none

def expire (s : Server W Data) : Option (Except Ended (Server W Data)) :=
  match s.main with
  | .expiring (fd :: rest) => some (.ok ((s.closeConn fd).mainTo (.expiring rest)))
  | _ => none

def reportable (s : Server W Data) (reports : List (Int × Events)) : Bool :=
  (reports.map Prod.fst).Nodup &&
    reports.all fun report => report.1 = setup.listenFd || allows (s.epoll report.1) report.2

/-- What is reported of a connection disarms it. -/
def wait (s : Server W Data) (reports : List (Int × Events)) :
    Option (Except Ended (Server W Data)) :=
  match s.main with
  | .expiring [] =>
      if s.reportable setup reports then
        some (.ok { s with
          main := .looping reports
          epoll := fun fd =>
            if fd ≠ setup.listenFd ∧ fd ∈ reports.map Prod.fst then .disarmed else s.epoll fd })
      else none
  | _ => none

def deal (s : Server W Data) (fd : Int) (kind : TaskKind) (now : Int) :
    Except Ended (Server W Data) :=
  let added := { s with
    tasks := s.tasks ++ [⟨fd, kind⟩]
    now := now
    touched := Function.update s.touched fd now }
  if 0 < setup.timeoutMS then
    match s.timer.adjust fd now setup.timeoutMS with
    | none => .error .assertion
    | some timer => .ok { added with timer := timer }
  else .ok added

def handle (s : Server W Data) (now : Int) : Option (Except Ended (Server W Data)) :=
  match s.main with
  | .looping ((fd, events) :: rest) =>
      if fd = setup.listenFd then some (.ok (s.mainTo (.listening rest)))
      else if events.hangup then
        match s.users fd with
        | none => some (.error .assertion)
        | some _ => some (.ok ((s.closeConn fd).mainTo (.looping rest)))
      else if events.input then
        match s.users fd with
        | none => some (.error .assertion)
        | some _ => some ((s.mainTo (.looping rest)).deal setup fd .onRead now)
      else if events.output then
        match s.users fd with
        | none => some (.error .assertion)
        | some _ => some ((s.mainTo (.looping rest)).deal setup fd .onWrite now)
      else some (.ok (s.mainTo (.looping rest)))
  | _ => none

/-- EPOLL_CTL_ADD fails on a descriptor that is in the set. -/
def addFd (s : Server W Data) (fd : Int) : Server W Data :=
  if s.epoll fd = .absent then s.register fd (.armed .epollin) else s

/-- What `users_[fd]` holds, which makes a new connection where there is none. -/
def dataAt (s : Server W Data) (fd : Int) : Data :=
  match s.users fd with
  | some conn => conn.data
  | none => setup.fresh

def addClient (s : Server W Data) (fd now : Int) : Except Ended (Server W Data) :=
  let added := { s.setConn fd ⟨false, setup.init (s.dataAt setup fd)⟩ with
    userCount := s.userCount + 1
    now := now
    touched := Function.update s.touched fd now }
  if 0 < setup.timeoutMS then
    match s.timer.add setup.stray fd now setup.timeoutMS fd with
    | none => .error .stray
    | some timer => .ok ({ added with timer := timer }.addFd fd)
  else .ok (added.addFd fd)

/-- A new descriptor is none that is open. Behind a full table DealListen_ returns. -/
def accept (s : Server W Data) (answer : Option Int) (now : Int) :
    Option (Except Ended (Server W Data)) :=
  match s.main with
  | .listening rest =>
      match answer with
      | none => some (.ok (s.mainTo (.looping rest)))
      | some fd =>
          if fd ≤ 0 ∨ fd = setup.listenFd ∨ s.isOpen fd then none
          else if maxFd ≤ s.userCount then some (.ok (s.mainTo (.looping rest)))
          else some
            ((s.mainTo (if setup.listenET then .listening rest else .looping rest)).addClient
            setup fd now)
  | _ => none

end Loop

section Workers
variable [DecidableEq W]

def workerTo (s : Server W Data) (w : W) (place : WorkerAt Data) : Server W Data :=
  { s with workers := Function.update s.workers w place }

def take (s : Server W Data) (w : W) : Option (Except Ended (Server W Data)) :=
  match s.workers w, s.tasks with
  | .idle, task :: rest =>
      match s.users task.fd with
      | some conn => some (.ok { s.workerTo w (.running task conn.data) with tasks := rest })
      | none => none
  | _, _ => none

def run (setup : Setup Choice Data) (s : Server W Data) (w : W) (choice : Choice) :
    Option (Except Ended (Server W Data)) :=
  match s.workers w with
  | .running task data =>
      match setup.serve task.kind choice data, s.users task.fd with
      | none, _ => some (.error .task)
      | some (data, exit), some conn =>
          some (.ok ((s.setConn task.fd { conn with data := data }).workerTo w
            (.leaving task.fd exit)))
      | some _, none => none
  | _ => none

/-- EPOLL_CTL_MOD fails on a descriptor that is not in the set. -/
def modFd (s : Server W Data) (fd : Int) (ev : Interest) : Server W Data :=
  if s.epoll fd = .absent then s else s.register fd (.armed ev)

def leave (s : Server W Data) (w : W) : Option (Except Ended (Server W Data)) :=
  match s.workers w with
  | .leaving fd (some ev) => some (.ok ((s.modFd fd ev).workerTo w .idle))
  | .leaving fd none =>
      let place := if s.isOpen fd then .closing fd else .idle
      some (.ok ((s.register fd .absent).workerTo w place))
  | _ => none

def close (s : Server W Data) (w : W) : Option (Except Ended (Server W Data)) :=
  match s.workers w with
  | .closing fd => some (.ok ((s.shut fd).workerTo w .idle))
  | _ => none

def step (setup : Setup Choice Data) (s : Server W Data) :
    Action W Choice → Option (Except Ended (Server W Data))
  | .tick clock last => s.tick setup clock last
  | .expire => s.expire
  | .wait reports => s.wait setup reports
  | .handle now => s.handle setup now
  | .accept answer now => s.accept setup answer now
  | .take w => s.take w
  | .run w choice => s.run setup w choice
  | .leave w => s.leave w
  | .close w => s.close w

def Onward (s : Server W Data) : Action W Choice → Prop
  | .tick clock last => s.now ≤ clock 0 ∧ (∀ k, clock k ≤ clock (k + 1)) ∧ ∀ k, clock k ≤ last
  | .handle now => s.now ≤ now
  | .accept _ now => s.now ≤ now
  | _ => True

inductive Reached (setup : Setup Choice Data) (allowed : Server W Data → Action W Choice → Prop) :
    Server W Data → Prop where
  | start (epoch : Int) : Reached setup allowed (start epoch)
  | step {s next : Server W Data} (action : Action W Choice) (reached : Reached setup allowed s)
      (onward : s.Onward action) (may : allowed s action)
      (stepped : s.step setup action = some (.ok next)) : Reached setup allowed next

inductive Change (setup : Setup Choice Data) (s : Server W Data) :
    Action W Choice → Server W Data → Prop where
  | ticked (clock : Nat → Int) (last wait : Int) (timer : HeapTimer Int)
      (top : s.main = .looping [])
      (timed : 0 < setup.timeoutMS)
      (went : s.timer.getNextTick setup.stray clock last = some (timer, wait)) :
      Change setup s (.tick clock last) { s with
        timer := timer
        main := .expiring ((timer.fired.drop s.timer.fired.length).map TimerNode.cb)
        now := last }
  | untimed (clock : Nat → Int) (last : Int) (top : s.main = .looping [])
      (off : ¬ 0 < setup.timeoutMS) :
      Change setup s (.tick clock last) { s with main := .expiring [], now := last }
  | expired (fd : Int) (rest : List Int) (due : s.main = .expiring (fd :: rest)) :
      Change setup s .expire ((s.closeConn fd).mainTo (.expiring rest))
  | waited (reports : List (Int × Events)) (before : s.main = .expiring [])
      (reportable : s.reportable setup reports = true) : Change setup s (.wait reports) { s with
        main := .looping reports
        epoll := fun fd =>
          if fd ≠ setup.listenFd ∧ fd ∈ reports.map Prod.fst then .disarmed else s.epoll fd }
  | listens (fd now : Int) (events : Events) (rest : List (Int × Events))
      (first : s.main = .looping ((fd, events) :: rest)) (listener : fd = setup.listenFd) :
      Change setup s (.handle now) (s.mainTo (.listening rest))
  | hungUp (fd now : Int) (events : Events) (rest : List (Int × Events))
      (first : s.main = .looping ((fd, events) :: rest)) (conn : fd ≠ setup.listenFd)
      (hangup : events.hangup = true) :
      Change setup s (.handle now) ((s.closeConn fd).mainTo (.looping rest))
  | dealt (fd now : Int) (events : Events) (rest : List (Int × Events)) (kind : TaskKind)
      (timer : HeapTimer Int) (first : s.main = .looping ((fd, events) :: rest))
      (conn : fd ≠ setup.listenFd)
      (event : match kind with | .onRead => events.input = true | .onWrite => events.output = true)
      (extended : if 0 < setup.timeoutMS then s.timer.adjust fd now setup.timeoutMS = some timer
        else timer = s.timer) :
      Change setup s (.handle now) { s with
        main := .looping rest
        tasks := s.tasks ++ [⟨fd, kind⟩]
        now := now
        touched := Function.update s.touched fd now
        timer := timer }
  | unexpected (fd now : Int) (events : Events) (rest : List (Int × Events))
      (first : s.main = .looping ((fd, events) :: rest)) (conn : fd ≠ setup.listenFd)
      (none : events = ⟨false, false, false⟩) :
        Change setup s (.handle now) (s.mainTo (.looping rest))
  | returned (answer : Option Int) (now : Int) (rest : List (Int × Events))
      (accepting : s.main = .listening rest) : Change setup s (.accept answer now)
        (s.mainTo (.looping rest))
  | accepted (fd now : Int) (rest : List (Int × Events)) (timer : HeapTimer Int)
      (accepting : s.main = .listening rest) (valid : 0 < fd) (conn : fd ≠ setup.listenFd)
      (free : s.isOpen fd = false) (room : s.userCount < maxFd)
      (timed : if 0 < setup.timeoutMS then
          s.timer.add setup.stray fd now setup.timeoutMS fd = some timer
        else timer = s.timer) :
      Change setup s (.accept (some fd) now)
        ({ s.setConn fd ⟨false, setup.init (s.dataAt setup fd)⟩ with
        main := if setup.listenET then .listening rest else .looping rest
        userCount := s.userCount + 1
        now := now
        touched := Function.update s.touched fd now
        timer := timer }.addFd fd)
  | taken (w : W) (task : Task) (rest : List Task) (conn : HttpConn Data)
      (idle : s.workers w = .idle)
      (first : s.tasks = task :: rest) (user : s.users task.fd = some conn) :
      Change setup s (.take w) { s.workerTo w (.running task conn.data) with tasks := rest }
  | ran (w : W) (choice : Choice) (task : Task) (data result : Data)
      (exit : Exit) (conn : HttpConn Data)
      (running : s.workers w = .running task data) (user : s.users task.fd = some conn)
      (served : setup.serve task.kind choice data = some (result, exit)) :
      Change setup s (.run w choice)
        ((s.setConn task.fd { conn with data := result }).workerTo w (.leaving task.fd exit))
  | rearmed (w : W) (fd : Int) (ev : Interest) (leaving : s.workers w = .leaving fd (some ev)) :
      Change setup s (.leave w) ((s.modFd fd ev).workerTo w .idle)
  | quits (w : W) (fd : Int) (leaving : s.workers w = .leaving fd none)
      (here : s.isOpen fd = true) :
      Change setup s (.leave w) ((s.register fd .absent).workerTo w (.closing fd))
  | quit (w : W) (fd : Int) (leaving : s.workers w = .leaving fd none)
      (gone : s.isOpen fd = false) :
      Change setup s (.leave w) ((s.register fd .absent).workerTo w .idle)
  | closed (w : W) (fd : Int) (closing : s.workers w = .closing fd) :
      Change setup s (.close w) ((s.shut fd).workerTo w .idle)

theorem dealt_of_deal {setup : Setup Choice Data} {s next : Server W Data} {fd now : Int}
    {events : Events} {rest : List (Int × Events)} {kind : TaskKind}
    (first : s.main = .looping ((fd, events) :: rest)) (conn : fd ≠ setup.listenFd)
    (event : match kind with | .onRead => events.input = true | .onWrite => events.output = true)
    (dealt : (s.mainTo (.looping rest)).deal setup fd kind now = .ok next) :
    Change setup s (.handle now) next := by
  unfold deal at dealt
  split_ifs at dealt with timed
  · split at dealt
    · cases dealt
    · next timer went =>
        cases dealt
        exact .dealt fd now events rest kind timer first conn event ((if_pos timed).mpr went)
  · cases dealt
    exact .dealt fd now events rest kind s.timer first conn event ((if_neg timed).mpr rfl)

theorem accepted_of_add {setup : Setup Choice Data} {s next : Server W Data} {fd now : Int}
    {rest : List (Int × Events)} (accepting : s.main = .listening rest)
    (new : ¬ (fd ≤ 0 ∨ fd = setup.listenFd ∨ s.isOpen fd = true)) (room : ¬ maxFd ≤ s.userCount)
    (added : (s.mainTo (if setup.listenET then .listening rest else .looping rest)).addClient
      setup fd now = .ok next) : Change setup s (.accept (some fd) now) next := by
  rw [not_or, not_or] at new
  obtain ⟨valid, conn, free⟩ := new
  unfold addClient at added
  by_cases timed : 0 < setup.timeoutMS
  · dsimp only at added
    rw [if_pos timed] at added
    split at added
    · cases added
    · next timer went =>
        cases added
        exact .accepted fd now rest timer accepting (not_le.mp valid) conn
          (Bool.eq_false_iff.mpr free)
          (not_le.mp room) ((if_pos timed).mpr went)
  · dsimp only at added
    rw [if_neg timed] at added
    cases added
    exact .accepted fd now rest s.timer accepting (not_le.mp valid) conn
      (Bool.eq_false_iff.mpr free)
      (not_le.mp room) ((if_neg timed).mpr rfl)

theorem change_of_step {setup : Setup Choice Data} {s next : Server W Data}
    {action : Action W Choice}
    (stepped : s.step setup action = some (.ok next)) : Change setup s action next := by
  cases action with
  | tick clock last =>
      dsimp only [step] at stepped
      unfold tick at stepped
      split at stepped
      · next top =>
          split_ifs at stepped with timed
          · split at stepped
            · cases stepped
            · next timer wait went =>
                cases stepped
                exact .ticked clock last wait timer top timed went
          · cases stepped
            exact .untimed clock last top timed
      · cases stepped
  | expire =>
      dsimp only [step] at stepped
      unfold expire at stepped
      split at stepped
      · next fd rest due =>
          cases stepped
          exact .expired fd rest due
      · cases stepped
  | wait reports =>
      dsimp only [step] at stepped
      unfold wait at stepped
      split at stepped
      · next before =>
          split_ifs at stepped with reportable
          cases stepped
          exact .waited reports before reportable
      · cases stepped
  | handle now =>
      dsimp only [step] at stepped
      unfold handle at stepped
      split at stepped
      · next fd events rest first =>
          split_ifs at stepped with listener hangup input output
          · cases stepped
            exact .listens fd now events rest first listener
          · split at stepped
            · cases stepped
            · cases stepped
              exact .hungUp fd now events rest first listener hangup
          · split at stepped
            · cases stepped
            · exact dealt_of_deal first listener input (Option.some.inj stepped)
          · split at stepped
            · cases stepped
            · exact dealt_of_deal first listener output (Option.some.inj stepped)
          · cases stepped
            refine .unexpected fd now events rest first listener ?_
            obtain ⟨hung, readable, writable⟩ := events
            dsimp only at hangup input output
            rw [Bool.not_eq_true] at hangup input output
            rw [hangup, input, output]
      · cases stepped
  | accept answer now =>
      dsimp only [step] at stepped
      unfold accept at stepped
      split at stepped
      · next rest accepting =>
          split at stepped
          · cases stepped
            exact .returned none now rest accepting
          · next fd =>
              by_cases new : fd ≤ 0 ∨ fd = setup.listenFd ∨ s.isOpen fd = true
              · rw [if_pos new] at stepped
                cases stepped
              · rw [if_neg new] at stepped
                by_cases full : maxFd ≤ s.userCount
                · rw [if_pos full] at stepped
                  cases stepped
                  exact .returned (some fd) now rest accepting
                · rw [if_neg full] at stepped
                  exact accepted_of_add accepting new full (Option.some.inj stepped)
      · cases stepped
  | take w =>
      dsimp only [step] at stepped
      unfold take at stepped
      split at stepped
      · next task rest idle first =>
          split at stepped
          · next conn user =>
              cases stepped
              exact .taken w task rest conn idle first user
          · cases stepped
      · cases stepped
  | run w choice =>
      dsimp only [step] at stepped
      unfold run at stepped
      split at stepped
      · next task data running =>
          split at stepped
          · cases stepped
          · next result exit conn served user =>
              cases stepped
              exact .ran w choice task data result exit conn running user served
          · cases stepped
      · cases stepped
  | leave w =>
      dsimp only [step] at stepped
      unfold leave at stepped
      split at stepped
      · next fd ev leaving =>
          cases stepped
          exact .rearmed w fd ev leaving
      · next fd leaving =>
          cases stepped
          cases here : s.isOpen fd with
          | true => exact .quits w fd leaving here
          | false => exact .quit w fd leaving here
      · cases stepped
  | close w =>
      dsimp only [step] at stepped
      unfold close at stepped
      split at stepped
      · next fd closing =>
          cases stepped
          exact .closed w fd closing
      · cases stepped

end Workers

end Server

end StudyWebServer.WebServer
