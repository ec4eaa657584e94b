import StudyWebServer.Server.Users
import Mathlib.Logic.Relation
import Mathlib.Logic.Function.Basic

/-!
The loop of main.cpp, the pool of threadpool.h and what the kernel keeps for
them: open descriptors and the epoll instance, with EPOLLONESHOT. The system takes
one action at a time. A member function is one action from the place where its
thread has called it; process() is one for each of its parts, since an event on
the connection can come as soon as its modfd is through.
-/

namespace StudyWebServer

open ByteMemory

/-- `MAX_EVENT_NUMBER` -/
def maxEventNumber : Nat := 10000

/-- The default of `max_requests`. -/
def maxRequests : Nat := 10000

/-- What epoll keeps for a descriptor. A delivered event disarms it. -/
inductive Registration where
  | absent
  | armed (interest : Interest)
  | disarmed
  deriving DecidableEq

/-- The branches of main for an event on a connection. -/
inductive Kind where
  /-- EPOLLRDHUP, EPOLLHUP or EPOLLERR -/
  | hangUp
  | readable
  | writable
  deriving DecidableEq

/-- What an armed registration reports. -/
def Registration.reports : Registration → Kind → Bool
  | .armed _, .hangUp => true
  | .armed .epollin, .readable => true
  | .armed .epollout, .writable => true
  | _, _ => false

inductive Report where
  | listening
  | connection (fd : Nat) (kind : Kind)
  deriving DecidableEq

def Report.names (fd : Int) : Report → Bool
  | .listening => false
  | .connection other _ => other == fd

def Report.fd? : Report → Option Nat
  | .listening => none
  | .connection fd _ => some fd

structure Kernel where
  live : Int → Bool
  epoll : Int → Registration

def Kernel.arm (k : Kernel) (fd : Int) (ev : Interest) : Kernel :=
  { k with epoll := Function.update k.epoll fd (.armed ev) }

/-- EPOLL_CTL_ADD fails on a descriptor that is registered, EPOLL_CTL_MOD on one
that is not; neither result is looked at. -/
def Kernel.act (k : Kernel) : Effect → Kernel
  | .addfd fd => if k.epoll fd = .absent then k.arm fd .epollin else k
  | .modfd fd ev => if k.epoll fd = .absent then k else k.arm fd ev
  | .removefd fd => ⟨Function.update k.live fd false, Function.update k.epoll fd .absent⟩
  | _ => k

def Kernel.run (k : Kernel) (log : List Effect) : Kernel := log.foldl Kernel.act k

/-- An epoll_wait that returns these reports. -/
def Kernel.deliver (k : Kernel) (batch : List Report) : Kernel :=
  { k with epoll := fun fd => if batch.any (Report.names fd) then .disarmed else k.epoll fd }

def Kernel.delivers (k : Kernel) (batch : List Report) : Bool :=
  batch.length ≤ maxEventNumber && (batch.filterMap Report.fd?).Nodup &&
    batch.all fun
      | .listening => true
      | .connection fd kind => (k.epoll fd).reports kind

/-- Where main stands with a connection. -/
inductive MainStage where
  | opening (addr : List UInt8)
  | reading
  | appending
  | writing
  | closing
  deriving DecidableEq

inductive MainAt where
  /-- at the head of the loop over the events, or in epoll_wait if none is left -/
  | looping
  | serving (stage : MainStage) (fd : Nat)
  /-- in append, before m_queuestat.post() -/
  | posting
  deriving DecidableEq

/-- Where a worker stands in process(). -/
inductive ProcessStage where
  | parsing
  | answering (ret : HttpCode)
  | closing
  | rearming (ev : Interest)
  /-- behind the last modfd -/
  | leaving
  deriving DecidableEq

inductive WorkerAt where
  /-- in m_queuestat.wait() -/
  | waiting
  | woken
  | processing (stage : ProcessStage) (fd : Nat)
  deriving DecidableEq

structure System (W : Type) where
  users : Users
  /-- m_user_count -/
  userCount : Int
  kernel : Kernel
  /-- m_workqueue, as indices into users -/
  queue : List Nat
  /-- the count of m_queuestat -/
  posted : Nat
  /-- the events main has still to look at -/
  batch : List Report
  main : MainAt
  workers : W → WorkerAt

inductive Action (W : Type) where
  | poll (batch : List Report)
  | accept (answer : Option (Nat × List UInt8))
  | initialise
  | dispatch
  | read (results : List Recv)
  | append
  | post
  | write (pages : Memory) (results : List Writev)
  | close
  | wake (w : W)
  | take (w : W)
  | parse (w : W) (fs : FileSystem)
  | answer (w : W)
  | shut (w : W)
  | rearm (w : W)
  | leave (w : W)

/-- What main does about an event. -/
def Kind.stage : Kind → MainStage
  | .hangUp => .closing
  | .readable => .reading
  | .writable => .writing

def userChange : Effect → Int
  | .userCount change => change
  | _ => 0

namespace System
variable {W : Type}

/-- The loop begins with some descriptors open and no connection. -/
def start (live : Int → Bool) (conn : Nat → HttpConn) : System W where
  users := .unused conn
  userCount := 0
  kernel := ⟨live, fun _ => .absent⟩
  queue := []
  posted := 0
  batch := []
  main := .looping
  workers _ := .waiting

/-- The operation that an action performs, and the object it does so on. -/
def called (s : System W) : Action W → Option (Nat × Operation)
  | .initialise =>
      match s.main with
      | .serving (.opening addr) fd => some (fd, .initConn fd addr)
      | _ => none
  | .read results =>
      match s.main with
      | .serving .reading fd => some (fd, .read results)
      | _ => none
  | .write pages results =>
      match s.main with
      | .serving .writing fd => some (fd, .write pages results)
      | _ => none
  | .close =>
      match s.main with
      | .serving .closing fd => some (fd, .closeConn)
      | _ => none
  | .parse w fs =>
      match s.workers w with
      | .processing .parsing fd => some (fd, .processRead fs)
      | _ => none
  | .answer w =>
      match s.workers w with
      | .processing (.answering ret) fd => some (fd, .processWrite ret)
      | _ => none
  | .shut w =>
      match s.workers w with
      | .processing .closing fd => some (fd, .closeConn)
      | _ => none
  | _ => none

def mainTo (s : System W) (main : MainAt) : System W := { s with main := main }

section Step
variable (touch : Touch)

def call (s : System W) (fd : Nat) (op : Operation) : System W :=
  let log := (invoke op (s.users.conn fd)).log
  { s with
    users := s.users.afterBy touch fd op
    userCount := s.userCount + (log.map userChange).sum
    kernel := s.kernel.run log }

variable [DecidableEq W]

def workerTo (s : System W) (w : W) (place : WorkerAt) : System W :=
  { s with workers := Function.update s.workers w place }

def step (s : System W) : Action W → Option (System W)
  | .poll batch =>
      if s.main = .looping ∧ s.batch = [] ∧ s.kernel.delivers batch = true then
        some { s with batch := batch, kernel := s.kernel.deliver batch }
      else none
  | .accept answer =>
      match s.main, s.batch with
      | .looping, .listening :: rest =>
          match answer with
          | none => some { s with batch := rest }
          | some (fd, addr) =>
              if s.kernel.live fd then none
              else if maxFd ≤ s.userCount then some { s with batch := rest }
              else some { s with
                batch := rest
                kernel := { s.kernel with live := Function.update s.kernel.live fd true }
                main := .serving (.opening addr) fd }
      | _, _ => none
  | .initialise =>
      match s.main with
      | .serving (.opening addr) fd => some ((s.call touch fd (.initConn fd addr)).mainTo .looping)
      | _ => none
  | .dispatch =>
      match s.main, s.batch with
      | .looping, .connection fd kind :: rest =>
          some { s with batch := rest, main := .serving kind.stage fd }
      | _, _ => none
  | .read results =>
      match s.main with
      | .serving .reading fd =>
          let stage := if (StudyWebServer.read results (s.users.conn fd)).ret then
            .appending else .closing
          some ((s.call touch fd (.read results)).mainTo (.serving stage fd))
      | _ => none
  | .append =>
      match s.main with
      | .serving .appending fd =>
          -- what append returns is not looked at
          if maxRequests < s.queue.length then some (s.mainTo .looping)
          else some { s with queue := s.queue ++ [fd], main := .posting }
      | _ => none
  | .post =>
      match s.main with
      | .posting => some { s with posted := s.posted + 1, main := .looping }
      | _ => none
  | .write pages results =>
      match s.main with
      | .serving .writing fd =>
          let main := if (StudyWebServer.write pages results (s.users.conn fd)).ret then .looping
            else .serving .closing fd
          some ((s.call touch fd (.write pages results)).mainTo main)
      | _ => none
  | .close =>
      match s.main with
      | .serving .closing fd => some ((s.call touch fd .closeConn).mainTo .looping)
      | _ => none
  | .wake w =>
      match s.workers w with
      | .waiting => if s.posted = 0 then none else some
          { s.workerTo w .woken with posted := s.posted - 1 }
      | _ => none
  | .take w =>
      match s.workers w with
      | .woken =>
          match s.queue with
          | [] => some (s.workerTo w .waiting)
          | fd :: rest => some { s.workerTo w (.processing .parsing fd) with queue := rest }
      | _ => none
  | .parse w fs =>
      match s.workers w with
      | .processing .parsing fd =>
          let ret := (processRead fs (s.users.conn fd)).ret
          let stage := if ret = .noRequest then .rearming .epollin else .answering ret
          some ((s.call touch fd (.processRead fs)).workerTo w (.processing stage fd))
      | _ => none
  | .answer w =>
      match s.workers w with
      | .processing (.answering ret) fd =>
          let stage := if (processWrite ret (s.users.conn fd)).ret then
            .rearming .epollout else .closing
          some ((s.call touch fd (.processWrite ret)).workerTo w (.processing stage fd))
      | _ => none
  | .shut w =>
      match s.workers w with
      | .processing .closing fd =>
          some ((s.call touch fd .closeConn).workerTo w (.processing (.rearming .epollout) fd))
      | _ => none
  | .rearm w =>
      match s.workers w with
      | .processing (.rearming ev) fd =>
          some { s.workerTo w (.processing .leaving fd) with
            kernel := s.kernel.act (.modfd (s.users.conn fd).sockfd ev) }
      | _ => none
  | .leave w =>
      match s.workers w with
      | .processing .leaving _ => some (s.workerTo w .waiting)
      | _ => none

/-- The states that actions lead to which meet a condition. -/
def Reached (allowed : System W → Action W → Prop) (s : System W) : Prop :=
  ∃ live conn, Relation.ReflTransGen
    (fun before after => ∃ action, allowed before action ∧ before.step touch action = some after)
    (start live conn) s

end Step

end System

section Kernel
variable {k : Kernel}

@[simp] theorem kernel_run_nil : k.run [] = k := rfl

@[simp] theorem kernel_run_append (first second : List Effect) :
    k.run (first ++ second) = (k.run first).run second := List.foldl_append ..

@[simp] theorem kernel_run_cons (effect : Effect) (rest : List Effect) :
    k.run (effect :: rest) = (k.act effect).run rest := rfl

theorem kernel_run_outside (log : List Effect) : k.run (outside log) = k.run log := by
  induction log generalizing k with
  | nil => rfl
  | cons effect rest ih =>
      rw [kernel_run_cons, ← ih, outside, List.filter_cons]
      split_ifs with visible
      · rfl
      · have same : k.act effect = k := by
          cases effect with
          | load index => rfl
          | store array index count => rfl
          | sum value => rfl
          | _ => exact absurd rfl visible
        rw [same]
        rfl

theorem kernel_run_sent {sent : List Effect} (only : OnlySent sent) : k.run sent = k := by
  induction sent with
  | nil => rfl
  | cons effect rest ih =>
      obtain ⟨bytes, rfl⟩ := only effect List.mem_cons_self
      exact ih fun other member => only other (List.mem_cons_of_mem _ member)

theorem kernel_run_created (value : Outcome HttpCode) : k.run (created value) = k := by
  unfold created
  split_ifs <;> rfl

theorem kernel_run_unmap (c : HttpConn) : k.run (unmap c).log = k := by
  unfold unmap
  split_ifs <;> rfl

end Kernel

end StudyWebServer
