import StudyWebServer.Http.Response
import StudyWebServer.Noactive.TimerRuns

/-!
The server of noactive/nonactive_conn.cpp with the part of the kernel it works
against: the queue of the listening socket, the bytes of each connection, the pipe
of the signal handler, and an epoll instance that reports edges. A handler is one
action. Between any two of them connections, bytes and signals arrive and the clock
goes on. What is printed is left out.
-/

namespace StudyWebServer.IdleServer

open SortTimerLst

def fdLimit : Nat := 65535

def maxEventNumber : Nat := 1024

def timeslot : Int := 5

def bufferSize : Nat := 64

/-- The size of `signals` in main. -/
def signalsSize : Nat := 1024

inductive Signal where
  | sigalrm
  | sigterm
  deriving DecidableEq

inductive Callback where
  | cbFunc
  deriving DecidableEq

structure ClientData where
  address : List UInt8
  sockfd : Nat
  buf : List UInt8
  timer : Option Nat

/-- A connection in the kernel: the bytes nobody has read, and what is behind them. -/
structure Socket where
  inbox : List UInt8
  ended : Bool
  failed : Bool
  deriving DecidableEq

inductive News where
  | bytes (received : List UInt8)
  | ended
  | failed

def Socket.hear (socket : Socket) : News → Socket
  | .bytes received => { socket with inbox := socket.inbox ++ received }
  | .ended => { socket with ended := true }
  | .failed => { socket with failed := true }

def Socket.readable (socket : Socket) : Bool :=
  !socket.inbox.isEmpty || socket.ended || socket.failed

def Socket.recv (size : Nat) (socket : Socket) : Recv × Socket :=
  if socket.inbox ≠ [] then
    (.data (socket.inbox.take size), { socket with inbox := socket.inbox.drop size })
  else if socket.failed then (.failed, socket)
  else if socket.ended then (.ended, socket)
  else (.again, socket)

inductive Report where
  | listening
  | signals
  | client (fd : Nat)
  deriving DecidableEq

inductive Place where
  | waiting
  | handling (events : List Report)
  | stopped
  deriving DecidableEq

structure Server where
  now : Int
  /-- the accept queue: addresses, and connections on which something may have come -/
  backlog : List (List UInt8 × Socket)
  listenEdge : Bool
  sockets : Nat → Option Socket
  edges : Nat → Bool
  others : Nat → Bool
  pipe : List Signal
  pipeEdge : Bool
  /-- users[0] to users[FD_LIMIT - 1] -/
  users : Nat → ClientData
  /-- timer_lst; user_data is an index of users -/
  timers : SortTimerLst Callback Nat
  timeout : Bool
  stopServer : Bool
  place : Place
  /-- when a client was accepted, or last read from; the program does not keep it -/
  lastSeen : Nat → Int

inductive Action where
  | clock (time : Int)
  | connect (address : List UInt8)
  /-- on the connection that many places behind the head of the accept queue -/
  | early (behind : Nat) (news : News)
  | news (fd : Nat) (news : News)
  | wake (fd : Nat)
  | signal (sig : Signal)
  | wait (events : List Report)
  /-- accept answers with `connfd`, and new with the address `timer` -/
  | accept (connfd timer : Nat)
  | handleSignals
  | receive
  | finish

/-- A store to `users[fd]`. Behind the end of the array it falls on other memory. -/
def storeEntry (users : Nat → ClientData) (fd : Nat) (data : ClientData) : Nat → ClientData :=
  if fd < fdLimit then Function.update users fd data else users

namespace Server

def start (now : Int) (users : Nat → ClientData) (others : Nat → Bool) : Server where
  now := now
  backlog := []
  listenEdge := false
  sockets _ := none
  edges _ := false
  others := others
  pipe := []
  pipeEdge := false
  users := users
  timers := .empty
  timeout := false
  stopServer := false
  place := .waiting
  lastSeen _ := now

section Steps
variable (s : Server)

/-- `users[fd]`, if the array has it. -/
def entry (fd : Nat) : Option ClientData := if fd < fdLimit then some (s.users fd) else none

def pending : Report → Bool
  | .listening => s.listenEdge
  | .signals => s.pipeEdge
  | .client fd => s.edges fd

def deliver (events : List Report) : Server :=
  { s with
    listenEdge := s.listenEdge && !events.contains .listening
    pipeEdge := s.pipeEdge && !events.contains .signals
    edges := fun fd => s.edges fd && !events.contains (.client fd)
    place := .handling events }

/-- close takes the registration in epoll away as well, which the EPOLL_CTL_DEL of
cb_func on the other epollfd does not. -/
def close (fd : Nat) : Server :=
  { s with
    sockets := Function.update s.sockets fd none
    edges := Function.update s.edges fd false }

def cbFunc (userData : Nat) : Option Server := do
  let data ← s.entry userData
  some (s.close data.sockfd)

def callBack (s : Server) : Callback × Nat → Option Server
  | (.cbFunc, userData) => s.cbFunc userData

/-- The SIGALRM of the new alarm comes at any time, as every signal does. -/
def timerHandler (rounds : Nat) : Option Server := do
  let ticked ← s.timers.tick rounds s.now
  ticked.calls.foldlM callBack { s with timers := ticked.lst }

def serveListening (rounds connfd timer : Nat) (rest : List Report) : Option Server :=
  match s.backlog with
  | [] => none
  | (address, socket) :: backlog =>
      if (s.sockets connfd).isSome || s.others connfd || (s.timers.heap timer).isSome then none
      else do
        let task := ⟨s.now + 3 * timeslot, .cbFunc, connfd⟩
        let timers ← (s.timers.create timer task).addTimer webserver rounds (some timer)
        let data := { s.users connfd with
          address := address
          sockfd := connfd
          timer := some timer }
        some { s with
          backlog := backlog
          sockets := Function.update s.sockets connfd (some socket)
          edges := Function.update s.edges connfd socket.readable
          users := storeEntry s.users connfd data
          timers := timers
          place := .handling rest
          lastSeen := Function.update s.lastSeen connfd s.now }

def serveSignals (rest : List Report) : Server :=
  let signals := s.pipe.take signalsSize
  { s with
    pipe := s.pipe.drop signalsSize
    timeout := s.timeout || signals.contains .sigalrm
    stopServer := s.stopServer || signals.contains .sigterm
    place := .handling rest }

def filled (bytes : List UInt8) : List UInt8 :=
  bytes ++ List.replicate (bufferSize - bytes.length) 0

/-- Behind recv, which has left `socket` and put `bytes` in the buffer. -/
def received (fd : Nat) (data : ClientData) (socket : Socket) (bytes : List UInt8)
    (rest : List Report) : Server :=
  { s with
    sockets := Function.update s.sockets fd (some socket)
    users := storeEntry s.users fd { data with buf := filled bytes }
    place := .handling rest }

def serveClient (rounds fd : Nat) (rest : List Report) : Option Server := do
  let data ← s.entry fd
  let socket ← s.sockets fd
  match socket.recv (bufferSize - 1) with
  | (.data bytes, socket) =>
      let s := { s.received fd data socket bytes rest with
        lastSeen := Function.update s.lastSeen fd s.now }
      match data.timer with
      | none => some s
      | some timer => do
          let timers ← s.timers.postpone webserver rounds timer (s.now + 3 * timeslot)
          some { s with timers := timers }
  | (.again, socket) => some (s.received fd data socket [] rest)
  | (.failed, socket) | (.ended, socket) => do
      let s ← (s.received fd data socket [] rest).cbFunc fd
      let timers ← s.timers.delTimer data.timer
      some { s with timers := timers }

def finishBatch (rounds : Nat) : Option Server := do
  let s ← if s.timeout then s.timerHandler rounds else some s
  some { s with
    timeout := false
    place := if s.stopServer then .stopped else .waiting }

def step (rounds : Nat) : Action → Option Server
  | .clock time => if s.now ≤ time then some { s with now := time } else none
  | .connect address =>
      some { s with
        backlog := s.backlog ++ [(address, ⟨[], false, false⟩)]
        listenEdge := true }
  | .early behind news =>
      some { s with backlog := s.backlog.modify behind fun queued =>
        (queued.1, queued.2.hear news) }
  | .news fd news => do
      let socket ← s.sockets fd
      some { s with
        sockets := Function.update s.sockets fd (some (socket.hear news))
        edges := Function.update s.edges fd true }
  | .wake fd =>
      if (s.sockets fd).isSome then some { s with edges := Function.update s.edges fd true }
      else none
  | .signal sig =>
      some { s with
        pipe := s.pipe ++ [sig]
        pipeEdge := true }
  | .wait events =>
      if s.place = .waiting ∧ events.Nodup ∧ events.length ≤ maxEventNumber ∧
          events.all s.pending then
        -- no events: a signal has interrupted the call
        some (s.deliver events)
      else none
  | .accept connfd timer =>
      match s.place with
      | .handling (.listening :: rest) => s.serveListening rounds connfd timer rest
      | _ => none
  | .handleSignals =>
      match s.place with
      | .handling (.signals :: rest) => some (s.serveSignals rest)
      | _ => none
  | .receive =>
      match s.place with
      | .handling (.client fd :: rest) => s.serveClient rounds fd rest
      | _ => none
  | .finish =>
      match s.place with
      | .handling [] => s.finishBatch rounds
      | _ => none

end Steps

section Moves

inductive Moves (s : Server) (rounds : Nat) : Action → Server → Prop
  | clock (time : Int) : s.now ≤ time → Moves s rounds (.clock time) { s with now := time }
  | connect (address : List UInt8) :
      Moves s rounds (.connect address) { s with
        backlog := s.backlog ++ [(address, ⟨[], false, false⟩)]
        listenEdge := true }
  | early (behind : Nat) (news : News) :
      Moves s rounds (.early behind news) { s with
        backlog := s.backlog.modify behind fun queued => (queued.1, queued.2.hear news) }
  | news (fd : Nat) (news : News) (socket : Socket) : s.sockets fd = some socket →
      Moves s rounds (.news fd news) { s with
        sockets := Function.update s.sockets fd (some (socket.hear news))
        edges := Function.update s.edges fd true }
  | wake (fd : Nat) : (s.sockets fd).isSome →
      Moves s rounds (.wake fd) { s with edges := Function.update s.edges fd true }
  | signal (sig : Signal) :
      Moves s rounds (.signal sig) { s with pipe := s.pipe ++ [sig], pipeEdge := true }
  | wait (events : List Report) : s.place = .waiting → events.Nodup →
      events.length ≤ maxEventNumber → (∀ report ∈ events, s.pending report = true) →
      Moves s rounds (.wait events) (s.deliver events)
  | accept (connfd timer : Nat) (rest : List Report) (after : Server) :
      s.place = .handling (.listening :: rest) →
      s.serveListening rounds connfd timer rest = some after →
      Moves s rounds (.accept connfd timer) after
  | handleSignals (rest : List Report) : s.place = .handling (.signals :: rest) →
      Moves s rounds .handleSignals (s.serveSignals rest)
  | receive (fd : Nat) (rest : List Report) (after : Server) :
      s.place = .handling (.client fd :: rest) → s.serveClient rounds fd rest = some after →
      Moves s rounds .receive after
  | finish (after : Server) : s.place = .handling [] → s.finishBatch rounds = some after →
      Moves s rounds .finish after

theorem step_moves {s after : Server} {action : Action} {rounds : Nat}
    (step : s.step rounds action = some after) : s.Moves rounds action after := by
  cases action with
  | clock time =>
      simp only [Server.step] at step
      split_ifs at step with later
      cases step
      exact .clock time later
  | connect address =>
      cases step
      exact .connect address
  | early behind news =>
      cases step
      exact .early behind news
  | news fd news =>
      obtain ⟨socket, here, result⟩ := Option.bind_eq_some_iff.mp step
      cases result
      exact .news fd news socket here
  | wake fd =>
      simp only [Server.step] at step
      split_ifs at step with opened
      cases step
      exact .wake fd opened
  | signal sig =>
      cases step
      exact .signal sig
  | wait events =>
      simp only [Server.step] at step
      split_ifs at step with waits
      cases step
      obtain ⟨waiting, nodup, room, pending⟩ := waits
      exact .wait events waiting nodup room (List.all_eq_true.mp pending)
  | accept connfd timer =>
      simp only [Server.step] at step
      split at step
      next rest place => exact .accept connfd timer rest after place step
      next => cases step
  | handleSignals =>
      simp only [Server.step] at step
      split at step
      next rest place =>
        cases step
        exact .handleSignals rest place
      next => cases step
  | receive =>
      simp only [Server.step] at step
      split at step
      next fd rest place => exact .receive fd rest after place step
      next => cases step
  | finish =>
      simp only [Server.step] at step
      split at step
      next place => exact .finish after place step
      next => cases step

end Moves

def Reached (allowed : Server → Action → Prop) (s : Server) : Prop :=
  ∃ now users others, Relation.ReflTransGen
    (fun before after => ∃ action rounds,
      allowed before action ∧ before.step rounds action = some after)
    (start now users others) s

end Server

end StudyWebServer.IdleServer
