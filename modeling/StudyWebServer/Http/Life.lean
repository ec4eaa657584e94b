import StudyWebServer.Http.Operations

/-!
One slot of the users array through all that main and the workers do with it. An
event happens when the slot is armed for it: EPOLLONESHOT reports nothing more
until modfd is called again. A hang-up is reported whatever the slot is armed for.
-/

namespace StudyWebServer

inductive Phase where
  | closed
  /-- armed for EPOLLIN -/
  | reading
  /-- in m_workqueue -/
  | queued
  /-- armed for EPOLLOUT -/
  | writing
  /-- open, and neither armed nor in the queue -/
  | lost
  deriving DecidableEq

structure Slot where
  conn : HttpConn
  phase : Phase

def Slot.unused : Slot := ⟨.unused, .closed⟩

inductive Event where
  | accept (sockfd : Nat) (addr : List UInt8)
  | hangUp
  /-- EPOLLIN, with what recv answers and whether m_workqueue has room -/
  | readable (results : List Recv) (room : Bool)
  /-- a worker takes the slot from the queue -/
  | work (fs : FileSystem)
  | writable (pages : ByteMemory.Memory) (results : List Writev)

/-- The interest of the last modfd. -/
def lastInterest (log : List Effect) : Option Interest :=
  (log.filterMap fun
    | .modfd _ ev => some ev
    | _ => none).getLast?

def removed (log : List Effect) : Bool :=
  log.any fun
    | .removefd _ => true
    | _ => false

/-- What a slot waits for behind a call. -/
def rearmed (log : List Effect) : Phase :=
  if removed log then .closed
  else
    match lastInterest log with
    | some .epollin => .reading
    | some .epollout => .writing
    | none => .lost

def Slot.step (s : Slot) : Event → Option (Slot × List Effect)
  | .accept sockfd addr =>
      if s.phase = .closed then
        let call := initConn sockfd addr s.conn
        some (⟨call.conn, .reading⟩, call.log)
      else none
  | .hangUp =>
      if s.phase = .reading ∨ s.phase = .writing then
        let call := closeConn s.conn
        some (⟨call.conn, .closed⟩, call.log)
      else none
  | .readable results room =>
      if s.phase = .reading then
        let call := read results s.conn
        if call.ret then some (⟨call.conn, if room then .queued else .lost⟩, call.log)
        else
          let call := call.andThen closeConn
          some (⟨call.conn, .closed⟩, call.log)
      else none
  | .work fs =>
      if s.phase = .queued then
        let call := process fs s.conn
        some (⟨call.conn, rearmed call.log⟩, call.log)
      else none
  | .writable pages results =>
      if s.phase = .writing then
        let call := write pages results s.conn
        if call.ret then some (⟨call.conn, rearmed call.log⟩, call.log)
        else
          let call := call.andThen closeConn
          some (⟨call.conn, .closed⟩, call.log)
      else none

/-- The state and the log behind a list of events, each possible when it comes. -/
def Slot.run (s : Slot) : List Event → Option (Slot × List Effect)
  | [] => some (s, [])
  | event :: rest =>
      (s.step event).bind fun first =>
        (first.1.run rest).map fun last => (last.1, first.2 ++ last.2)

theorem last_interest_outside (log : List Effect) :
    lastInterest (outside log) = lastInterest log := by
  unfold lastInterest outside
  rw [List.filterMap_filter]
  congr 2
  funext effect
  cases effect <;> rfl

theorem removed_outside (log : List Effect) : removed (outside log) = removed log := by
  unfold removed outside
  rw [List.any_filter]
  congr 1
  funext effect
  cases effect <;> rfl

theorem rearmed_outside (log : List Effect) : rearmed (outside log) = rearmed log := by
  rw [rearmed, last_interest_outside, removed_outside]
  rfl

theorem rearmed_last {log : List Effect} (kept : removed log = false) (fd : Int) (ev : Interest) :
    rearmed (log ++ [.modfd fd ev]) = match ev with
      | .epollin => .reading
      | .epollout => .writing := by
  have open_ : removed (log ++ [.modfd fd ev]) = false := by
    unfold removed at kept ⊢
    rw [List.any_append, kept]
    rfl
  unfold rearmed lastInterest
  rw [open_, List.filterMap_append]
  cases ev <;> simp

theorem created_kept (value : Outcome HttpCode) : removed (created value) = false := by
  unfold created
  split_ifs <;> rfl

theorem only_sent_kept {sent : List Effect} (only : OnlySent sent) : removed sent = false := by
  rw [removed, List.any_eq_false]
  intro effect member
  obtain ⟨bytes, rfl⟩ := only effect member
  simp

theorem unmap_kept (c : HttpConn) : removed (unmap c).log = false := by
  unfold unmap
  split_ifs <;> rfl

theorem removed_append (first second : List Effect) :
    removed (first ++ second) = (removed first || removed second) := List.any_append ..

end StudyWebServer
