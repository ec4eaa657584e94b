import StudyWebServer.WebServer.DequeRuns

/-!
The asynchronous part of Log of WebServer-master/code/log: threads that write lines under
mtx_ and put them into the deque or, when it is full, into the file; the thread that takes
them out of it; and the destructor, which closes the deque and joins that thread. No line is
written any more when the log is destroyed.
-/

namespace StudyWebServer.WebServer.LogThread

open BlockDeque CondVar

/-- Where a thread stands in Log::write; it has mtx_ unless it is idle. -/
inductive LoggerAt (T : Type) where
  | idle
  /-- before `deque_->full()` -/
  | checking (line : T)
  /-- in `deque_->push_back` -/
  | pushing (line : T)
  /-- before `fputs(buff_.Peek(), fp_)` -/
  | printing (line : T)
  | unlocking
  deriving DecidableEq

def LoggerAt.isIdle {T : Type} : LoggerAt T → Bool
  | .idle => true
  | _ => false

/-- Where the thread of AsyncWrite_ stands. -/
inductive WriterAt (T : Type) where
  /-- in `deque_->pop` -/
  | popping
  /-- before it has mtx_ -/
  | locking (line : T)
  | printing (line : T)
  | exited
  deriving DecidableEq

/-- Where the destructor stands. -/
inductive MainAt where
  | outside
  /-- in the loop that waits for an empty deque -/
  | draining
  /-- in `deque_->Close()` -/
  | closing
  /-- in `writeThread_->join()` -/
  | joining
  | joined
  deriving DecidableEq

structure Log (L T : Type) where
  deque : Deque L Unit T
  /-- who has mtx_, the writer being `none` -/
  mtx : Option (Option L)
  loggers : L → LoggerAt T
  writer : WriterAt T
  main : MainAt
  file : List T
  /-- the lines in the order in which their threads got mtx_ -/
  logged : List T

inductive Action (L T : Type) where
  | lock (thread : L) (line : T)
  | check (thread : L)
  /-- the push, with whether it wakes the writer -/
  | push (thread : L) (woken : Option Unit)
  | print (thread : L)
  | unlock (thread : L)
  /-- `deque_->flush()` of LOG_BASE -/
  | flush (woken : Option Unit)
  | pop
  | writerLock
  | writerPrint
  /-- a wait of the writer that returns without a notification -/
  | wake
  | destruct
  | drain (woken : Option Unit)
  | close
  | notifyProducers
  | notifyConsumers
  | join

/-- Neither a wait that returns of itself nor a thread still in LOG_BASE. -/
def Action.isQuiet {L T : Type} : Action L T → Bool
  | .wake => false
  | .flush _ => false
  | _ => true

namespace Log
variable {L T : Type}

/-- The log behind init, the writer on its way into its first pop. -/
def start (capacity : Nat) : Log L T where
  deque := (Deque.start capacity).popTo () .entered
  mtx := none
  loggers _ := .idle
  writer := .popping
  main := .outside
  file := []
  logged := []

/-- A push that has to wait goes on in `condProducer_.wait`. -/
def pushed (place : PushAt T) (line : T) : LoggerAt T :=
  match place with
  | .idle => .unlocking
  | _ => .pushing line

/-- The writer has nothing in its hands behind a pop that returned false. -/
def popped (deque : Deque L Unit T) : WriterAt T :=
  if deque.pops () = .woken ∧ deque.isClose = true then .exited
  else
    match deque.deq with
    | line :: _ => .locking line
    | [] => .popping

def writerLock (g : Log L T) : Option (Log L T) :=
  match g.writer, g.mtx with
  | .locking line, none => some { g with writer := .printing line, mtx := some none }
  | _, _ => none

variable [DecidableEq L]

def logTo (g : Log L T) (thread : L) (place : LoggerAt T) : Log L T :=
  { g with loggers := Function.update g.loggers thread place }

def lock (g : Log L T) (thread : L) (line : T) : Option (Log L T) :=
  if (g.loggers thread).isIdle ∧ g.mtx = none ∧ g.main = .outside then
    some { g.logTo thread (.checking line) with
      mtx := some (some thread), logged := g.logged ++ [line] }
  else none

def check (g : Log L T) (thread : L) : Option (Log L T) :=
  match g.loggers thread with
  | .checking line =>
      if g.deque.capacity ≤ g.deque.deq.length then some (g.logTo thread (.printing line))
      else
        match g.deque.callPush thread line false with
        | none => none
        | some deque => some { g.logTo thread (.pushing line) with deque := deque }
  | _ => none

def print (g : Log L T) (thread : L) : Option (Log L T) :=
  match g.loggers thread with
  | .printing line => some { g.logTo thread .unlocking with file := g.file ++ [line] }
  | _ => none

def unlock (g : Log L T) (thread : L) : Option (Log L T) :=
  match g.loggers thread with
  | .unlocking => some { g.logTo thread .idle with mtx := none }
  | _ => none

/-- The line is in the file and mtx_ given back, and pop called again. -/
def writerPrint (g : Log L T) : Option (Log L T) :=
  match g.writer with
  | .printing line =>
      match g.deque.callPop () with
      | none => none
      | some deque => some { g with
          deque := deque, writer := .popping, mtx := none, file := g.file ++ [line] }
  | _ => none

def wake (g : Log L T) : Option (Log L T) :=
  match g.deque.wakePop () with
  | none => none
  | some deque => some { g with deque := deque }

def close (g : Log L T) : Option (Log L T) :=
  if g.main = .closing then g.deque.close.map fun deque => { g with deque := deque } else none

/-- What a step can do, with the action it belongs to. -/
inductive Change (g : Log L T) : Action L T → Log L T → Prop where
  | locked (thread : L) (line : T) (idle : (g.loggers thread).isIdle = true) (free : g.mtx = none)
      (outside : g.main = .outside) :
        Change g (.lock thread line) { g.logTo thread (.checking line) with
        mtx := some (some thread), logged := g.logged ++ [line] }
  | refused (thread : L) (line : T) (checking : g.loggers thread = .checking line)
      (full : g.deque.capacity ≤ g.deque.deq.length) :
        Change g (.check thread) (g.logTo thread (.printing line))
  | checked (thread : L) (line : T) (checking : g.loggers thread = .checking line)
      (room : g.deque.deq.length < g.deque.capacity) :
      Change g (.check thread) { g.logTo thread (.pushing line) with
        deque := g.deque.pushTo thread (.entered line false) }
  | pushed (thread : L) (line : T) (woken : Option Unit) (deque : Deque L Unit T)
      (pushing : g.loggers thread = .pushing line)
      (push : Deque.Change g.deque (.push thread woken) deque) :
      Change g (.push thread woken) { g.logTo thread
        (pushed (deque.pushes thread) line) with deque := deque }
  | printed (thread : L) (line : T) (printing : g.loggers thread = .printing line) :
      Change g (.print thread) { g.logTo thread .unlocking with file := g.file ++ [line] }
  | unlocked (thread : L) (unlocking : g.loggers thread = .unlocking) :
      Change g (.unlock thread) { g.logTo thread .idle with mtx := none }
  | notified (action : Action L T) (drains : action.isQuiet = true → g.main = .draining)
      (pops : Unit → PopAt) (notified : NotifyOne condConsumer g.deque.pops pops) :
      Change g action { g with deque := { g.deque with pops := pops } }
  | popped (deque : Deque L Unit T) (popping : g.writer = .popping)
      (pop : Deque.Change g.deque (.pop () none) deque) :
      Change g .pop { g with deque := deque, writer := popped g.deque }
  | writerLocked (line : T) (locking : g.writer = .locking line) (free : g.mtx = none) :
      Change g .writerLock { g with writer := .printing line, mtx := some none }
  | writerPrinted (line : T) (printing : g.writer = .printing line) : Change g .writerPrint { g with
        deque := g.deque.popTo () .entered
        writer := .popping
        mtx := none
        file := g.file ++ [line] }
  | woken (waiting : g.deque.pops () = .waiting) :
      Change g .wake { g with deque := g.deque.popTo () .woken }
  | destructed (outside : g.main = .outside) (idle : ∀ thread, (g.loggers thread).isIdle = true) :
      Change g .destruct { g with main := .draining }
  | drained (woken : Option Unit) (draining : g.main = .draining) (empty : g.deque.deq = []) :
      Change g (.drain woken) { g with main := .closing }
  | closed (closing : g.main = .closing) : Change g .close { g with
        deque := { g.deque.drop with isClose := true, closing := .notifyingProducers } }
  | notifiedProducers (closing : g.main = .closing)
      (behind : g.deque.closing = .notifyingProducers) :
        Change g .notifyProducers { g with deque := { g.deque with
        pushes := notifyAll (condProducer T) g.deque.pushes, closing := .notifyingConsumers } }
  | notifiedConsumers (closing : g.main = .closing)
      (behind : g.deque.closing = .notifyingConsumers) : Change g .notifyConsumers { g with
        deque := { g.deque with pops := notifyAll condConsumer g.deque.pops, closing := .outside }
        main := .joining }
  | joined (joining : g.main = .joining) (exited : g.writer = .exited) :
      Change g .join { g with main := .joined }

variable [Fintype L]

def push (g : Log L T) (thread : L) (woken : Option Unit) : Option (Log L T) :=
  match g.loggers thread with
  | .pushing line =>
      match g.deque.push thread woken with
      | none => none
      | some deque =>
          some { g.logTo thread (pushed (deque.pushes thread) line) with deque := deque }
  | _ => none

def flush (g : Log L T) (woken : Option Unit) : Option (Log L T) :=
  (g.deque.flush woken).map fun deque => { g with deque := deque }

/-- No producer ever waits, so none is woken. -/
def pop (g : Log L T) : Option (Log L T) :=
  match g.writer with
  | .popping =>
      match g.deque.pop () none with
      | none => none
      | some deque => some { g with deque := deque, writer := popped g.deque }
  | _ => none

def destruct (g : Log L T) : Option (Log L T) :=
  if g.main = .outside ∧ ∀ thread, (g.loggers thread).isIdle then some { g with main := .draining }
  else none

def drain (g : Log L T) (woken : Option Unit) : Option (Log L T) :=
  match g.main with
  | .draining => if g.deque.deq.isEmpty then some { g with main := .closing } else g.flush woken
  | _ => none

def notifyProducers (g : Log L T) : Option (Log L T) :=
  if g.main = .closing then g.deque.notifyProducers.map fun deque => { g with deque := deque }
  else none

def notifyConsumers (g : Log L T) : Option (Log L T) :=
  if g.main = .closing then
    g.deque.notifyConsumers.map fun deque => { g with deque := deque, main := .joining }
  else none

def join (g : Log L T) : Option (Log L T) :=
  match g.main, g.writer with
  | .joining, .exited => some { g with main := .joined }
  | _, _ => none

def step (g : Log L T) : Action L T → Option (Log L T)
  | .lock thread line => g.lock thread line
  | .check thread => g.check thread
  | .push thread woken => g.push thread woken
  | .print thread => g.print thread
  | .unlock thread => g.unlock thread
  | .flush woken => g.flush woken
  | .pop => g.pop
  | .writerLock => g.writerLock
  | .writerPrint => g.writerPrint
  | .wake => g.wake
  | .destruct => g.destruct
  | .drain woken => g.drain woken
  | .close => g.close
  | .notifyProducers => g.notifyProducers
  | .notifyConsumers => g.notifyConsumers
  | .join => g.join

omit [Fintype L] in
theorem change_of_flush {g next : Log L T} {action : Action L T} {woken : Option Unit}
    (drains : action.isQuiet = true → g.main = .draining) (flushed : g.flush woken = some next) :
    Change g action next := by
  obtain ⟨deque, did, same⟩ := Option.map_eq_some_iff.mp flushed
  obtain ⟨pops, notified, equal⟩ := Option.map_eq_some_iff.mp did
  cases same
  cases equal
  exact .notified action drains pops (notify_one_of_notify notified)

theorem change_of_step {g next : Log L T} {action : Action L T}
    (stepped : g.step action = some next) : Change g action next := by
  cases action with
  | lock thread line =>
      obtain ⟨⟨idle, free, outside⟩, same⟩ := Option.ite_none_right_eq_some.mp stepped
      cases same
      exact .locked thread line idle free outside
  | check thread =>
      dsimp only [step] at stepped
      unfold check at stepped
      split at stepped
      · next line checking =>
          split_ifs at stepped with full
          · cases stepped
            exact .refused thread line checking full
          · split at stepped
            · cases stepped
            · next deque called =>
                cases stepped
                unfold Deque.callPush at called
                split at called
                · cases called
                  exact .checked thread line checking (Nat.lt_of_not_le full)
                · cases called
      · cases stepped
  | push thread woken =>
      dsimp only [step] at stepped
      unfold push at stepped
      split at stepped
      · next line pushing =>
          split at stepped
          · cases stepped
          · next deque push =>
              cases stepped
              exact .pushed thread line woken deque pushing (Deque.change_of_step push)
      · cases stepped
  | print thread =>
      dsimp only [step] at stepped
      unfold print at stepped
      split at stepped
      · next line printing =>
          cases stepped
          exact .printed thread line printing
      · cases stepped
  | unlock thread =>
      dsimp only [step] at stepped
      unfold unlock at stepped
      split at stepped
      · next unlocking =>
          cases stepped
          exact .unlocked thread unlocking
      · cases stepped
  | flush woken => exact change_of_flush nofun stepped
  | pop =>
      dsimp only [step] at stepped
      unfold pop at stepped
      split at stepped
      · next popping =>
          split at stepped
          · cases stepped
          · next deque pop =>
              cases stepped
              exact .popped deque popping (Deque.change_of_step pop)
      · cases stepped
  | writerLock =>
      dsimp only [step] at stepped
      unfold writerLock at stepped
      split at stepped
      · next line locking free =>
          cases stepped
          exact .writerLocked line locking free
      · cases stepped
  | writerPrint =>
      dsimp only [step] at stepped
      unfold writerPrint at stepped
      split at stepped
      · next line printing =>
          split at stepped
          · cases stepped
          · next deque called =>
              cases stepped
              unfold Deque.callPop at called
              split at called
              · cases called
                exact .writerPrinted line printing
              · cases called
      · cases stepped
  | wake =>
      dsimp only [step] at stepped
      unfold wake at stepped
      split at stepped
      · cases stepped
      · next deque woke =>
          cases stepped
          unfold Deque.wakePop at woke
          split at woke
          · next waiting =>
              cases woke
              exact .woken waiting
          · cases woke
  | destruct =>
      obtain ⟨⟨outside, idle⟩, same⟩ := Option.ite_none_right_eq_some.mp stepped
      cases same
      exact .destructed outside idle
  | drain woken =>
      dsimp only [step] at stepped
      unfold drain at stepped
      split at stepped
      · next draining =>
          split_ifs at stepped with empty
          · cases stepped
            exact .drained woken draining (List.isEmpty_iff.mp empty)
          · exact change_of_flush (fun _ => draining) stepped
      · cases stepped
  | close =>
      obtain ⟨closing, same⟩ := Option.ite_none_right_eq_some.mp stepped
      obtain ⟨deque, did, equal⟩ := Option.map_eq_some_iff.mp same
      cases equal
      unfold Deque.close at did
      split at did
      · cases did
        exact .closed closing
      · cases did
  | notifyProducers =>
      obtain ⟨closing, same⟩ := Option.ite_none_right_eq_some.mp stepped
      obtain ⟨deque, did, equal⟩ := Option.map_eq_some_iff.mp same
      cases equal
      unfold Deque.notifyProducers at did
      split at did
      · next behind =>
          cases did
          exact .notifiedProducers closing behind
      · cases did
  | notifyConsumers =>
      obtain ⟨closing, same⟩ := Option.ite_none_right_eq_some.mp stepped
      obtain ⟨deque, did, equal⟩ := Option.map_eq_some_iff.mp same
      cases equal
      unfold Deque.notifyConsumers at did
      split at did
      · next behind =>
          cases did
          exact .notifiedConsumers closing behind
      · cases did
  | join =>
      dsimp only [step] at stepped
      unfold join at stepped
      split at stepped
      · next joining exited =>
          cases stepped
          exact .joined joining exited
      · cases stepped

inductive Reached (capacity : Nat) : Log L T → Prop where
  | start : Reached capacity (start capacity)
  | step {g next : Log L T} (action : Action L T) (reached : Reached capacity g)
      (stepped : g.step action = some next) : Reached capacity next

end Log

end StudyWebServer.WebServer.LogThread
