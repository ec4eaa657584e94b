import StudyWebServer.Server.EventLoop

/-!
Who has a connection. In every state each object of the array has one owner: the
epoll instance, an event that main has still to look at, main, the queue, a worker,
or nobody. The owner is read off the parts of the system that name the object.
-/

namespace StudyWebServer

open ByteMemory

def MainAt.stageAt (fd : Nat) : MainAt → Option MainStage
  | .serving stage other => if other = fd then some stage else none
  | .looping | .posting => none

/-- A worker behind its last modfd has given the connection away. -/
def WorkerAt.stageAt (fd : Nat) : WorkerAt → Option ProcessStage
  | .processing .leaving _ => none
  | .processing stage other => if other = fd then some stage else none
  | .waiting | .woken => none

inductive Owner (W : Type) where
  | nobody
  | armed (ev : Interest)
  | reported (kind : Kind)
  | main (stage : MainStage)
  | queued
  | worker (w : W) (stage : ProcessStage)
  /-- refused by append -/
  | lost

namespace Owner
variable {W : Type}

def pending : Owner W → Option Kind
  | .reported kind => some kind
  | _ => none

def mainStage : Owner W → Option MainStage
  | .main stage => some stage
  | _ => none

def stageOf [DecidableEq W] (w : W) : Owner W → Option ProcessStage
  | .worker v stage => if v = w then some stage else none
  | _ => none

end Owner

/-- A connection in front of a request, or in it. -/
def Ready (c : HttpConn) : Prop := c.writeIdx = 0 ∧ Readable c

/-- What the kernel and an object look like to their owner. -/
structure View where
  fd : Nat
  registration : Registration
  live : Bool
  initialised : Bool
  conn : HttpConn

def View.Open (v : View) : Prop :=
  v.live = true ∧ v.initialised = true ∧ v.conn.sockfd = v.fd

/-- m_sockfd of an object that was closed. -/
def View.Closed (v : View) : Prop :=
  v.registration = .absent ∧ (v.initialised = true → v.conn.sockfd = -1)

def MainStage.Fits (v : View) : MainStage → Prop
  | .opening _ => v.live = true ∧ v.Closed
  | .reading | .appending => v.registration = .disarmed ∧ v.Open ∧ Ready v.conn
  | .writing => v.registration = .disarmed ∧ v.Open
  | .closing => v.registration ≠ .absent ∧ v.Open

/-- The response to a request always fits, so no worker closes a connection. -/
def ProcessStage.Fits (v : View) : ProcessStage → Prop
  | .parsing | .rearming .epollin => Ready v.conn
  | .answering ret => v.conn.writeIdx = 0 ∧ ret.Answer
  | .rearming .epollout => True
  | .closing | .leaving => False

def Owner.Fits {W : Type} (v : View) : Owner W → Prop
  | .nobody => v.Closed
  | .armed ev => v.registration = .armed ev ∧ v.Open ∧ (ev = .epollin → Ready v.conn)
  | .reported kind => v.registration = .disarmed ∧ v.Open ∧ (kind = .readable → Ready v.conn)
  | .main stage => stage.Fits v
  | .queued => v.registration = .disarmed ∧ v.Open ∧ Ready v.conn
  | .worker _ stage => v.registration = .disarmed ∧ v.Open ∧ stage.Fits v
  | .lost => v.registration = .disarmed ∧ v.Open

/-- The owners of an object without a descriptor of its own in epoll. -/
def Owner.Shut {W : Type} : Owner W → Prop
  | .nobody | .main (.opening _) => True
  | _ => False

namespace System
section Owned
variable {W : Type}

def view (s : System W) (fd : Nat) : View where
  fd := fd
  registration := s.kernel.epoll fd
  live := s.kernel.live fd
  initialised := s.users.initialised fd
  conn := s.users.conn fd

variable [DecidableEq W]

/-- The parts of the system that name an object name it as its owner has it. -/
structure OwnedBy (s : System W) (fd : Nat) (owner : Owner W) : Prop where
  fits : owner.Fits (s.view fd)
  reported : ∀ kind, .connection fd kind ∈ s.batch ↔ owner.pending = some kind
  main : s.main.stageAt fd = owner.mainStage
  queued : fd ∈ s.queue ↔ owner = .queued
  worker : ∀ w, (s.workers w).stageAt fd = owner.stageOf w

structure Owned (s : System W) : Prop where
  owner : ∀ fd, ∃ owner, s.OwnedBy fd owner
  queue : s.queue.Nodup
  batch : (s.batch.filterMap Report.fd?).Nodup

end Owned

/-- Two states that look the same to the owner of an object. -/
structure SameView {W : Type} (s t : System W) (fd : Nat) : Prop where
  epoll : t.kernel.epoll fd = s.kernel.epoll fd
  live : t.kernel.live fd = s.kernel.live fd
  initialised : t.users.initialised fd = s.users.initialised fd
  conn : s.users.initialised fd = true → t.users.conn fd = s.users.conn fd
  batch : ∀ kind, .connection fd kind ∈ t.batch ↔ .connection fd kind ∈ s.batch
  main : t.main.stageAt fd = s.main.stageAt fd
  queue : fd ∈ t.queue ↔ fd ∈ s.queue
  workers : ∀ w, (t.workers w).stageAt fd = (s.workers w).stageAt fd

end System

section Views
variable {W : Type} {v : View}

theorem Owner.Fits.opened {owner : Owner W} (fits : owner.Fits v) (held : ¬ owner.Shut) :
    v.Open := by
  cases owner with
  | nobody => exact absurd trivial held
  | armed ev => exact fits.2.1
  | reported kind => exact fits.2.1
  | main stage =>
      cases stage with
      | opening addr => exact absurd trivial held
      | reading => exact fits.2.1
      | appending => exact fits.2.1
      | writing => exact fits.2
      | closing => exact fits.2
  | queued => exact fits.2.1
  | worker w stage => exact fits.2.1
  | lost => exact fits.2

end Views

namespace System
variable {W : Type} {s t : System W} {fd : Nat} {owner : Owner W}

theorem SameView.closed (same : SameView s t fd) (closed : (s.view fd).Closed) :
    (t.view fd).Closed := by
  refine ⟨same.epoll.trans closed.1, fun initialised => ?_⟩
  have before : s.users.initialised fd = true := same.initialised ▸ initialised
  have conn : (t.view fd).conn = s.users.conn fd := same.conn before
  rw [conn]
  exact closed.2 before

theorem SameView.view_eq (same : SameView s t fd) (opened : (s.view fd).Open) :
    t.view fd = s.view fd := by
  simp only [view, same.epoll, same.live, same.initialised, same.conn opened.2.1]

theorem OwnedBy.same [DecidableEq W] (owned : s.OwnedBy fd owner) (same : SameView s t fd) :
    t.OwnedBy fd owner := by
  constructor
  · by_cases shut : owner.Shut
    · have fits := owned.fits
      cases owner with
      | nobody => exact same.closed fits
      | main stage =>
          cases stage with
          | opening addr => exact ⟨same.live.trans fits.1, same.closed fits.2⟩
          | _ => exact shut.elim
      | _ => exact shut.elim
    · rw [same.view_eq (owned.fits.opened shut)]
      exact owned.fits
  · exact fun kind => (same.batch kind).trans (owned.reported kind)
  · exact same.main.trans owned.main
  · exact same.queue.trans owned.queued
  · exact fun w => (same.workers w).trans (owned.worker w)

end System

end StudyWebServer
