import StudyWebServer.Server.EventLoop
import Mathlib.Data.Finset.Card
import Mathlib.Data.Fintype.Basic

/-!
The array users and m_user_count under accepts and closes in any order. accept
answers with the lowest unused descriptor below the limit of the process. The other
descriptors of the process come and go as well, and the member functions that
neither open nor close a connection may be called between.
-/

namespace StudyWebServer.ConnectionTable

open ByteMemory

structure Table where
  users : Users
  /-- m_user_count -/
  userCount : Int
  kernel : Kernel
  /-- the slots that were initialised and not closed since -/
  opened : Finset Nat
  /-- what has indexed users -/
  indexed : List Nat

inductive Action where
  | accept (addr : List UInt8)
  | close (slot : Nat)
  | serve (slot : Nat) (op : Operation)
  /-- a descriptor that is no connection -/
  | openOther
  | closeOther (fd : Nat)

/-- The member functions that leave the number of users alone. -/
def Serves : Operation → Bool
  | .read _ | .processRead _ | .processWrite _ | .write _ _ => true
  | .initConn _ _ | .init | .closeConn => false

section Steps

def Table.start (live : Int → Bool) (conn : Nat → HttpConn) : Table where
  users := .unused conn
  userCount := 0
  kernel := ⟨live, fun _ => .absent⟩
  opened := ∅
  indexed := []

/-- The lowest descriptor below the limit that is not in use. -/
def Table.lowest (limit : Nat) (t : Table) : Option Nat :=
  (List.range limit).find? fun fd => !t.kernel.live fd

def Table.occupy (t : Table) (fd : Nat) : Table :=
  { t with kernel := { t.kernel with live := Function.update t.kernel.live fd true } }

def Table.call (t : Table) (slot : Nat) (op : Operation) : Table :=
  let log := (invoke op (t.users.conn slot)).log
  { t with
    users := t.users.after slot op
    userCount := t.userCount + (log.map userChange).sum
    kernel := t.kernel.run log
    indexed := slot :: t.indexed }

def Table.opens (t : Table) (fd : Nat) (addr : List UInt8) : Table :=
  { (t.occupy fd).call fd (.initConn fd addr) with opened := insert fd t.opened }

def Table.closes (t : Table) (slot : Nat) : Table :=
  { t.call slot .closeConn with opened := t.opened.erase slot }

def Table.step (limit : Nat) (t : Table) : Action → Option Table
  | .accept addr =>
      match t.lowest limit with
      | none => some t
      | some fd =>
          -- close(connfd) gives the descriptor back
          if maxFd ≤ t.userCount then some t else some (t.opens fd addr)
  | .close slot => if t.users.initialised slot then some (t.closes slot) else none
  | .serve slot op => if t.users.initialised slot && Serves op then some (t.call slot op) else none
  | .openOther =>
      match t.lowest limit with
      | none => some t
      | some fd => some (t.occupy fd)
  | .closeOther fd =>
      if fd ∈ t.opened then none else some { t with kernel := t.kernel.act (.removefd fd) }

/-- The tables that actions lead to which meet a condition. -/
def Reached (limit : Nat) (allowed : Table → Action → Prop) (t : Table) : Prop :=
  ∃ live conn, Relation.ReflTransGen
    (fun before after => ∃ action, allowed before action ∧ before.step limit action = some after)
    (.start live conn) t

end Steps

/-- Every index was inside of users, and the count is the number of open slots. -/
structure Counted (t : Table) : Prop where
  indexed : ∀ fd ∈ t.indexed, fd < maxFd
  count : t.userCount = t.opened.card

/-- The descriptors below MAX_FD in use that are no open slots. -/
def Table.others (t : Table) : Finset Nat :=
  (Finset.range maxFd).filter fun fd => t.kernel.live fd = true ∧ fd ∉ t.opened

/-- accept leaves room for the descriptors that are no connections, and close_conn
finds in m_sockfd what init or close_conn left there, or at least no other slot's. -/
def Allowed (limit : Nat) (t : Table) : Action → Prop
  | .accept _ => ∀ fd, t.lowest limit = some fd → t.userCount < maxFd →
      t.userCount + t.others.card < maxFd
  | .close slot => ((t.users.conn slot).sockfd = -1 ↔ slot ∉ t.opened) ∧
      ∀ other ∈ t.opened, (t.users.conn slot).sockfd = other → other = slot
  | .serve _ _ | .openOther | .closeOther _ => True

structure Sound (t : Table) : Prop extends Counted t where
  inside : ∀ fd ∈ t.opened, fd < maxFd
  live : ∀ fd ∈ t.opened, t.kernel.live fd = true
  initialised : ∀ fd, t.users.initialised fd = true → fd < maxFd

section Kernel

theorem changes_outside (log : List Effect) :
    ((outside log).map userChange).sum = (log.map userChange).sum := by
  induction log with
  | nil => rfl
  | cons effect rest ih =>
      rw [List.map_cons, List.sum_cons, ← ih, outside, List.filter_cons]
      split_ifs with visible
      · rfl
      · have silent : userChange effect = 0 := by
          cases effect with
          | userCount change => exact absurd rfl visible
          | _ => rfl
        rw [silent, zero_add]
        rfl

/-- Nothing in the log gives a descriptor back or counts a user. -/
def Quiet (log : List Effect) : Prop :=
  (log.map userChange).sum = 0 ∧ ∀ k : Kernel, (k.run log).live = k.live

theorem quiet_nil : Quiet [] := ⟨rfl, fun _ => rfl⟩

theorem Quiet.append {first second : List Effect} (one : Quiet first) (other : Quiet second) :
    Quiet (first ++ second) := by
  constructor
  · rw [List.map_append, List.sum_append, one.1, other.1, add_zero]
  · intro k
    rw [kernel_run_append, other.2, one.2]

theorem quiet_outside {log : List Effect} (quiet : Quiet (outside log)) : Quiet log := by
  constructor
  · rw [← changes_outside]
    exact quiet.1
  · intro k
    rw [← kernel_run_outside]
    exact quiet.2 k

theorem quiet_modfd (fd : Int) (ev : Interest) : Quiet [.modfd fd ev] := by
  refine ⟨rfl, fun k => ?_⟩
  rw [kernel_run_cons, kernel_run_nil]
  unfold Kernel.act
  dsimp only
  split_ifs <;> rfl

theorem quiet_unmap (c : HttpConn) : Quiet (unmap c).log := by
  refine ⟨?_, fun k => by rw [kernel_run_unmap]⟩
  unfold unmap
  split_ifs <;> rfl

theorem quiet_created (value : Outcome HttpCode) : Quiet (created value) := by
  refine ⟨?_, fun k => by rw [kernel_run_created]⟩
  unfold created
  split_ifs <;> rfl

theorem quiet_sent {sent : List Effect} (only : OnlySent sent) : Quiet sent := by
  refine ⟨?_, fun k => by rw [kernel_run_sent only]⟩
  induction sent with
  | nil => rfl
  | cons effect rest ih =>
      obtain ⟨bytes, rfl⟩ := only effect List.mem_cons_self
      rw [List.map_cons, List.sum_cons, ih fun other member => only other
        (List.mem_cons_of_mem _ member)]
      rfl

theorem quiet_write (pages : Memory) (results : List Writev) (c : HttpConn) :
    Quiet (write pages results c).log := by
  apply quiet_outside
  by_cases empty : c.writeIdx = 0
  · rw [(write_nothing pages results empty).2.2]
    exact quiet_modfd _ _
  · cases write_cases pages results empty with
    | waits sent only ret conn log =>
        rw [log]
        exact (quiet_sent only).append (quiet_modfd _ _)
    | failed sent only ret conn log =>
        rw [log]
        exact (quiet_sent only).append (quiet_unmap c)
    | kept sent only linger ret conn log =>
        rw [log]
        exact ((quiet_sent only).append (quiet_unmap c)).append (quiet_modfd _ _)
    | finished sent only linger ret conn log =>
        rw [log]
        exact ((quiet_sent only).append (quiet_unmap c)).append (quiet_modfd _ _)

theorem serves_quiet {op : Operation} (serves : Serves op = true) (c : HttpConn) :
    Quiet (invoke op c).log := by
  cases op with
  | initConn sockfd addr => cases serves
  | init => cases serves
  | closeConn => cases serves
  | read results =>
      apply quiet_outside
      have silent : outside (invoke (.read results) c).log = [] := read_outside results c
      rw [silent]
      exact quiet_nil
  | processRead fs =>
      apply quiet_outside
      have only : outside (invoke (.processRead fs) c).log = created (processRead fs c) :=
        process_read_outside fs c
      rw [only]
      exact quiet_created _
  | processWrite ret =>
      apply quiet_outside
      have silent : outside (invoke (.processWrite ret) c).log = [] := process_write_outside ret c
      rw [silent]
      exact quiet_nil
  | write pages results => exact quiet_write pages results c

end Kernel

section Lowest
variable {limit fd : Nat} {t : Table}

theorem lowest_some (lowest : t.lowest limit = some fd) :
    t.kernel.live fd = false ∧ ∀ other < fd, t.kernel.live other = true := by
  obtain ⟨unused, -, used⟩ := List.find?_range_eq_some.mp lowest
  refine ⟨by simpa using unused, fun other below => ?_⟩
  simpa using used other below

theorem others_apart (t : Table) : Disjoint t.opened t.others := by
  rw [Finset.disjoint_left]
  intro fd inside outside
  exact (Finset.mem_filter.mp outside).2.2 inside

/-- The open slots and the others are the descriptors in use below MAX_FD. -/
theorem mem_in_use (sound : Sound t) : fd ∈ t.opened ∪ t.others ↔
    fd < maxFd ∧ t.kernel.live fd = true := by
  simp only [Table.others, Finset.mem_union, Finset.mem_filter, Finset.mem_range]
  constructor
  · rintro (opened | ⟨below, live, -⟩)
    · exact ⟨sound.inside fd opened, sound.live fd opened⟩
    · exact ⟨below, live⟩
  · rintro ⟨below, live⟩
    by_cases opened : fd ∈ t.opened
    · exact .inl opened
    · exact .inr ⟨below, live, opened⟩

/-- The lowest unused descriptor is below MAX_FD exactly if fewer are in use there. -/
theorem lowest_below_iff (sound : Sound t) (lowest : t.lowest limit = some fd) :
    fd < maxFd ↔ t.userCount + t.others.card < maxFd := by
  obtain ⟨unused, used⟩ := lowest_some lowest
  have within : t.opened ∪ t.others ⊆ Finset.range maxFd := fun other member =>
    Finset.mem_range.mpr ((mem_in_use sound).mp member).1
  have count : ((t.opened ∪ t.others).card : Int) = t.userCount + t.others.card := by
    rw [Finset.card_union_of_disjoint (others_apart t), sound.count, Nat.cast_add]
  rw [← count, Nat.cast_lt]
  constructor
  · intro below
    rw [← Finset.card_range maxFd]
    apply Finset.card_lt_card
    rw [Finset.ssubset_iff_of_subset within]
    refine ⟨fd, Finset.mem_range.mpr below, fun member => ?_⟩
    rw [((mem_in_use sound).mp member).2] at unused
    cases unused
  · intro fewer
    by_contra beyond
    -- accept skips what is in use, so all of it is counted
    have all : Finset.range maxFd ⊆ t.opened ∪ t.others := fun other inside => by
      have below := Finset.mem_range.mp inside
      exact (mem_in_use sound).mpr ⟨below, used other (by omega)⟩
    have most := Finset.card_le_card all
    rw [Finset.card_range] at most
    omega

end Lowest

section Preserved
variable {limit : Nat} {before after : Table}

theorem opens_spec (t : Table) (fd : Nat) (addr : List UInt8) :
    (t.opens fd addr).userCount = t.userCount + 1 ∧
    ∀ other, (t.opens fd addr).kernel.live other =
      if other = (fd : Int) then true else t.kernel.live other := by
  constructor
  · show t.userCount + ((initConn fd addr (t.users.conn fd)).log.map userChange).sum = _
    rw [← changes_outside, init_conn_outside]
    rfl
  · intro other
    show ((t.occupy fd).kernel.run (initConn fd addr (t.users.conn fd)).log).live other = _
    rw [← kernel_run_outside, init_conn_outside, kernel_run_cons, kernel_run_cons, kernel_run_nil]
    have arm (k : Kernel) : (k.act (.addfd fd)).live = k.live := by
      unfold Kernel.act
      dsimp only
      split_ifs <;> rfl
    show (((t.occupy fd).kernel.act (.addfd fd)).live other) = _
    rw [arm]
    simp only [Table.occupy, Function.update_apply]

/-- An accepted connection keeps the table sound exactly if there was room for it. -/
theorem opens_sound_iff {t : Table} {fd : Nat} (addr : List UInt8) (sound : Sound t)
    (lowest : t.lowest limit = some fd) :
    Sound (t.opens fd addr) ↔ t.userCount + t.others.card < maxFd := by
  rw [← lowest_below_iff sound lowest]
  refine ⟨fun opened => opened.indexed fd List.mem_cons_self, fun below => ?_⟩
  obtain ⟨unused, -⟩ := lowest_some lowest
  have fresh : fd ∉ t.opened := fun opened => by
    rw [sound.live fd opened] at unused
    cases unused
  obtain ⟨count, live⟩ := opens_spec t fd addr
  refine ⟨⟨?_, ?_⟩, ?_, ?_, ?_⟩
  · intro other member
    rcases List.mem_cons.mp member with rfl | member
    · exact below
    · exact sound.indexed other member
  · rw [count, sound.count]
    show (t.opened.card : Int) + 1 = ((insert fd t.opened).card : Int)
    rw [Finset.card_insert_of_notMem fresh, Nat.cast_succ]
  · intro other member
    rcases Finset.mem_insert.mp member with rfl | member
    · exact below
    · exact sound.inside other member
  · intro other member
    rw [live]
    split_ifs with same
    · rfl
    · refine sound.live other ((Finset.mem_insert.mp member).resolve_left fun equal => ?_)
      exact same (by rw [equal])
  · intro other connected
    have either : t.users.initialised other = true ∨ other = fd := by
      simpa [Table.opens, Table.call, Table.occupy, Users.after, Users.afterBy,
        Operation.initialises] using connected
    rcases either with connected | rfl
    · exact sound.initialised other connected
    · exact below

/-- What close_conn does: nothing on a slot with -1 in m_sockfd, else it gives the
number there back. -/
theorem closes_spec (t : Table) (slot : Nat) :
    ((t.users.conn slot).sockfd = -1 ∧ (t.closes slot).userCount = t.userCount ∧
      (t.closes slot).kernel = t.kernel) ∨
    ((t.users.conn slot).sockfd ≠ -1 ∧ (t.closes slot).userCount = t.userCount - 1 ∧
      (t.closes slot).kernel = t.kernel.act (.removefd (t.users.conn slot).sockfd)) := by
  by_cases shut : (t.users.conn slot).sockfd = -1
  · have silent : (invoke .closeConn (t.users.conn slot)).log = [] := by
      show (closeConn (t.users.conn slot)).log = []
      rw [closeConn, if_neg (not_not_intro shut)]
    refine .inl ⟨shut, ?_, ?_⟩
    · simp [Table.closes, Table.call, silent]
    · simp [Table.closes, Table.call, silent]
  · have log : (invoke .closeConn (t.users.conn slot)).log =
        [.removefd (t.users.conn slot).sockfd, .userCount (-1)] := by
      show (closeConn (t.users.conn slot)).log = _
      rw [closeConn, if_pos shut]
    refine .inr ⟨shut, ?_, ?_⟩
    · simp only [Table.closes, Table.call, log]
      rfl
    · simp only [Table.closes, Table.call, log]
      rfl

theorem close_initialised (users : Users) (slot : Nat) :
    (users.after slot .closeConn).initialised = users.initialised := by
  funext other
  simp [Users.after, Users.afterBy, Operation.initialises]

/-- A close_conn keeps the table sound exactly if it finds -1 in a slot that is not
open, and no other slot's number in one that is. -/
theorem closes_sound_iff {t : Table} {slot : Nat} (sound : Sound t)
    (initialised : t.users.initialised slot = true) :
    Sound (t.closes slot) ↔ Allowed limit t (.close slot) := by
  have indexed : ∀ fd ∈ (t.closes slot).indexed, fd < maxFd := by
    intro fd member
    rcases List.mem_cons.mp member with rfl | member
    · exact sound.initialised fd initialised
    · exact sound.indexed fd member
  have connected : ∀ fd, (t.closes slot).users.initialised fd = true → fd < maxFd := by
    intro fd connected
    apply sound.initialised fd
    rw [← close_initialised t.users slot]
    exact connected
  -- with -1 in m_sockfd nothing happens, otherwise a user and a descriptor go
  rcases closes_spec t slot with ⟨shut, count, kernel⟩ | ⟨carries, count, kernel⟩
  · simp only [Allowed, shut, true_iff]
    constructor
    · intro closed
      refine ⟨fun opened => ?_, fun other _ same => absurd same (by omega)⟩
      -- an open slot would go uncounted
      have fewer : ((t.opened.erase slot).card : Int) = t.opened.card := by
        rw [← sound.count, ← count]
        exact closed.count.symm
      rw [Nat.cast_inj] at fewer
      have some := Finset.card_erase_lt_of_mem opened
      omega
    · rintro ⟨absent, -⟩
      have same : (t.closes slot).opened = t.opened := Finset.erase_eq_of_notMem absent
      refine ⟨⟨indexed, ?_⟩, ?_, ?_, connected⟩
      · rw [count, same, sound.count]
      · rw [same]
        exact sound.inside
      · rw [same, kernel]
        exact sound.live
  · simp only [Allowed, carries, false_iff, not_not]
    have live (other : Nat) : (t.closes slot).kernel.live other = true ↔
        t.kernel.live other = true ∧ (t.users.conn slot).sockfd ≠ other := by
      rw [kernel]
      simp only [Kernel.act, Function.update_apply]
      split_ifs with same
      · simp [same]
      · simp [Ne.symm same]
    constructor
    · intro closed
      -- a slot that is not open would be counted
      have opened : slot ∈ t.opened := by
        by_contra absent
        have same : (t.closes slot).opened = t.opened := Finset.erase_eq_of_notMem absent
        have counted := closed.count
        rw [same, count, sound.count] at counted
        omega
      refine ⟨opened, fun other member same => ?_⟩
      by_contra different
      exact ((live other).mp (closed.live other (Finset.mem_erase.mpr ⟨different, member⟩))).2 same
    · rintro ⟨opened, own⟩
      refine ⟨⟨indexed, ?_⟩, ?_, ?_, connected⟩
      · show _ = ((t.opened.erase slot).card : Int)
        rw [count, sound.count, Finset.card_erase_of_mem opened]
        have some := Finset.card_pos.mpr ⟨slot, opened⟩
        omega
      · intro other member
        exact sound.inside other (Finset.mem_of_mem_erase member)
      · intro other member
        obtain ⟨different, member⟩ := Finset.mem_erase.mp member
        exact (live other).mpr ⟨sound.live other member,
          fun same => different (own other member same)⟩

theorem serves_sound {t : Table} {slot : Nat} {op : Operation} (sound : Sound t)
    (initialised : t.users.initialised slot = true) (serves : Serves op = true) :
    Sound (t.call slot op) := by
  obtain ⟨counts, kernel⟩ := serves_quiet serves (t.users.conn slot)
  have keeps : (t.users.after slot op).initialised = t.users.initialised := by
    funext other
    have opens : op.initialises = false := by
      cases op with
      | initConn sockfd addr => cases serves
      | _ => rfl
    simp [Users.after, Users.afterBy, opens]
  refine ⟨⟨?_, ?_⟩, sound.inside, ?_, ?_⟩
  · intro fd member
    rcases List.mem_cons.mp member with rfl | member
    · exact sound.initialised fd initialised
    · exact sound.indexed fd member
  · show t.userCount + _ = _
    rw [counts, add_zero]
    exact sound.count
  · intro fd opened
    show (t.kernel.run _).live fd = true
    rw [kernel]
    exact sound.live fd opened
  · intro fd connected
    apply sound.initialised fd
    rw [← keeps]
    exact connected

theorem occupy_sound {t : Table} (fd : Nat) (sound : Sound t) : Sound (t.occupy fd) := by
  refine ⟨⟨sound.indexed, sound.count⟩, sound.inside, fun other opened => ?_, sound.initialised⟩
  simp only [Table.occupy, Function.update_apply]
  split_ifs
  · rfl
  · exact sound.live other opened

theorem close_other_sound {t : Table} {fd : Nat} (other : fd ∉ t.opened) (sound : Sound t) :
    Sound { t with kernel := t.kernel.act (.removefd fd) } := by
  refine ⟨⟨sound.indexed, sound.count⟩, sound.inside, fun slot opened => ?_, sound.initialised⟩
  have different : (slot : Int) ≠ fd := fun same => other (by
    rw [← Int.ofNat_inj.mp same]
    exact opened)
  show (Function.update t.kernel.live fd false) slot = true
  rw [Function.update_of_ne different]
  exact sound.live slot opened

theorem step_sound {action : Action} (sound : Sound before) (allowed : Allowed limit before action)
    (step : before.step limit action = some after) : Sound after := by
  cases action with
  | accept addr =>
      simp only [Table.step] at step
      cases lowest : before.lowest limit with
      | none =>
          rw [lowest] at step
          cases step
          exact sound
      | some fd =>
          rw [lowest] at step
          dsimp only at step
          split_ifs at step with full
          · cases step
            exact sound
          · cases step
            -- The guard has let the connection pass, and allowed is then the condition for
            -- a sound table.
            exact (opens_sound_iff addr sound lowest).mpr (allowed fd lowest (by omega))
  | close slot =>
      simp only [Table.step] at step
      split_ifs at step with initialised
      cases step
      exact (closes_sound_iff sound initialised).mpr allowed
  | serve slot op =>
      simp only [Table.step, Bool.and_eq_true] at step
      split_ifs at step with called
      cases step
      exact serves_sound sound called.1 called.2
  | openOther =>
      simp only [Table.step] at step
      cases lowest : before.lowest limit with
      | none =>
          rw [lowest] at step
          cases step
          exact sound
      | some fd =>
          rw [lowest] at step
          cases step
          exact occupy_sound fd sound
  | closeOther fd =>
      simp only [Table.step] at step
      split_ifs at step with opened
      cases step
      exact close_other_sound opened sound

theorem start_sound (live : Int → Bool) (conn : Nat → HttpConn) : Sound (.start live conn) where
  indexed fd member := by cases member
  count := rfl
  inside fd member := by simp [Table.start] at member
  live fd member := by simp [Table.start] at member
  initialised fd connected := by cases connected

theorem reached_sound {t : Table} (reached : Reached limit (Allowed limit) t) : Sound t := by
  obtain ⟨live, conn, run⟩ := reached
  induction run with
  | refl => exact start_sound live conn
  | tail run step ih =>
      obtain ⟨action, allowed, taken⟩ := step
      exact step_sound ih allowed taken

/-- As long as accepts leave room for the other descriptors and close_conn finds the
numbers of its slots, the indices stay inside of users and the count is right. -/
theorem connections_counted {t : Table} (reached : Reached limit (Allowed limit) t) : Counted t :=
  (reached_sound reached).toCounted

end Preserved

section Filling

/-- A process whose descriptors below count are in use. -/
def inUse (count : Nat) (fd : Int) : Bool := 0 ≤ fd && fd < count

theorem lowest_in_use {limit count : Nat} {t : Table} (live : t.kernel.live = inUse count)
    (below : count < limit) : t.lowest limit = some count := by
  apply List.find?_range_eq_some.mpr
  refine ⟨by simp [live, inUse], List.mem_range.mpr below, fun other less => ?_⟩
  simp [live, inUse, less]

/-- Standard input, output and error, the listening socket and the epoll instance. -/
abbrev atLoop : Table := .start (inUse 5) fun _ => .unused

/-- The first connection of main's loop. -/
theorem connections_counted_first : Counted (atLoop.opens 5 []) := by
  have lowest : atLoop.lowest 1024 = some 5 := lowest_in_use rfl (by decide)
  have few : atLoop.others ⊆ Finset.range 5 := by
    intro fd member
    have used : inUse 5 fd = true := (Finset.mem_filter.mp member).2.1
    simp only [inUse, Bool.and_eq_true, decide_eq_true_eq] at used
    exact Finset.mem_range.mpr (by omega)
  have most : atLoop.others.card ≤ 5 := by simpa using Finset.card_le_card few
  have room : atLoop.userCount + atLoop.others.card < maxFd := by
    show (0 : Int) + _ < 65536
    omega
  have reached : Reached 1024 (Allowed 1024) (atLoop.opens 5 []) := by
    refine ⟨inUse 5, fun _ => .unused, .tail .refl ⟨.accept [], fun fd _ _ => room, ?_⟩⟩
    simp only [Table.step, lowest]
    rfl
  exact connections_counted reached

/-- As many connections as there are descriptors, less the five. -/
theorem filled (count : Nat) (below : 5 + count ≤ maxFd + 1) :
    ∃ t, Reached (maxFd + 1) (fun _ _ => True) t ∧ t.kernel.live = inUse (5 + count) ∧
      t.userCount = count ∧ ∀ fd, 5 ≤ fd → fd < 5 + count → fd ∈ t.indexed := by
  -- each accept answers with the next number
  induction count with
  | zero =>
      refine ⟨atLoop, ⟨inUse 5, _, .refl⟩, rfl, rfl, ?_⟩
      intro fd low high
      omega
  | succ count ih =>
      obtain ⟨t, ⟨live, conn, run⟩, used, users, indexed⟩ := ih (by omega)
      have lowest : t.lowest (maxFd + 1) = some (5 + count) := lowest_in_use used (by omega)
      have room : ¬ (maxFd : Int) ≤ t.userCount := by omega
      obtain ⟨counted, kernel⟩ := opens_spec t (5 + count) []
      refine ⟨t.opens (5 + count) [], ⟨live, conn, .tail run ⟨.accept [], trivial, ?_⟩⟩, ?_, ?_, ?_⟩
      · simp only [Table.step, lowest, room, ↓reduceIte]
      · funext fd
        rw [kernel, used]
        simp only [inUse]
        split_ifs with same
        · symm
          simp only [Bool.and_eq_true, decide_eq_true_eq]
          omega
        · rw [Bool.eq_iff_iff]
          simp only [Bool.and_eq_true, decide_eq_true_eq]
          omega
      · rw [counted, users]
        rfl
      · intro fd low high
        by_cases last : fd = 5 + count
        · rw [last]
          exact List.mem_cons_self
        · exact List.mem_cons_of_mem _ (indexed fd low (by omega))

/-- The descriptors that are no connections leave the guard too high: the accept
that brings the users to 65532 indexes users with 65536. -/
theorem index_beyond_users : ¬ ∀ limit t, Reached limit (fun _ _ => True) t → Counted t := by
  intro counted
  obtain ⟨t, reached, -, -, indexed⟩ := filled 65532 (by decide)
  have inside := (counted _ t reached).indexed 65536 (indexed 65536 (by decide) (by decide))
  exact absurd inside (by decide)

/-- Two connections are opened and closed, and the first of them opened again. -/
def reopened : Table := ((((atLoop.opens 5 []).opens 6 []).closes 5).closes 6).opens 5 []

/-- The overrun has cleared m_sockfd of the closed slot behind. Another close_conn
there gives descriptor 0 back and takes an open connection off the count. -/
theorem close_uncounted : Reached 16 (fun _ _ => True) (reopened.closes 6) ∧
    ¬ Counted (reopened.closes 6) := by
  constructor
  · exact ⟨inUse 5, fun _ => .unused, .tail (.tail (.tail (.tail (.tail (.tail .refl
      ⟨.accept [], trivial, rfl⟩) ⟨.accept [], trivial, rfl⟩) ⟨.close 5, trivial, rfl⟩)
      ⟨.close 6, trivial, rfl⟩) ⟨.accept [], trivial, rfl⟩) ⟨.close 6, trivial, rfl⟩⟩
  · intro counted
    -- the sixth slot was closed before, and its m_sockfd is 0 again
    have none : (reopened.closes 6).userCount = 0 := by decide +kernel
    have one : (reopened.closes 6).opened.card = 1 := by decide +kernel
    have count := counted.count
    rw [none, one] at count
    exact absurd count (by decide)

end Filling

end StudyWebServer.ConnectionTable
