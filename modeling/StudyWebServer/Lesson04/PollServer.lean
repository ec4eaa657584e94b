import Mathlib.Data.List.Nodup
import Mathlib.Data.List.Perm.Subperm
import Mathlib.Data.List.Range
import Mathlib.Logic.Function.Basic
import Mathlib.Logic.Relation
import Mathlib.Tactic.SplitIfs

/-!
lesson04/27/server_poll.c: the table of poll and its two numberings. The other entries
of the process's own table of descriptors stay as they are, and accept takes the lowest
number that is free. What poll reports about a client is up to the system, and so is
what a later round reads of an entry that poll has not been asked about.
-/

namespace StudyWebServer.Lesson04.PollServer

/-- The number of entries of `fds`. -/
def size : Nat := 1024

/-- The process as it comes to its loop. -/
structure Host where
  /-- the limit on descriptors -/
  limit : Nat
  lfd : Nat
  /-- the descriptors that are open, lfd among them -/
  base : List Nat
  /-- socket() took the lowest number for lfd -/
  below : ∀ n ≤ lfd, n ∈ base

inductive At where
  | polling
  | accepting
  /-- in the second loop, at entry `i` -/
  | receiving (i : Nat)
  | exited
  /-- behind an access outside of `fds` -/
  | undefined
  deriving DecidableEq

structure Server where
  fds : Nat → Int
  nfds : Nat
  place : At
  /-- the descriptors of clients that are open -/
  clients : List Nat
  /-- all that accept has returned -/
  accepted : List Nat

inductive Action where
  /-- poll returns, and says whether a client waits at lfd -/
  | poll (ready : Bool)
  /-- poll or recv answers -1, or a signal ends the process -/
  | fail
  | accept
  /-- there is nothing to be received from an entry, or it is sent back -/
  | pass
  /-- recv answers 0 for this client -/
  | finish (client : Nat)

namespace Server

def start (host : Host) : Server where
  fds i := if i = 0 then host.lfd else -1
  nfds := 0
  place := .polling
  clients := []
  accepted := []

/-- The number that accept takes. -/
def lowest (host : Host) (s : Server) : Option Nat :=
  (List.range host.limit).find? fun n => n ∉ host.base ∧ n ∉ s.clients

/-- The entry that the search for a free one stops at. -/
def vacant (s : Server) : Option Nat := (List.range' 1 (size - 1)).find? fun i => s.fds i = -1

/-- The second loop, before the test of its condition. -/
def enter (s : Server) (i : Nat) : Server :=
  { s with place := if s.nfds < i then .polling else if size ≤ i then .undefined else .receiving i }

/-- `fds[i].fd = cfd` at a free entry, if there is one. -/
def store (s : Server) (cfd : Int) : Server :=
  match s.vacant with
  | none => s
  | some i => { s with fds := Function.update s.fds i cfd }

def accept (host : Host) (s : Server) : Server :=
  match s.lowest host with
  -- cfd is -1, and so is the entry, and nfds is larger
  | none => (s.store (-1)).enter 1
  | some cfd =>
      let s := s.store cfd
      { s with
        nfds := Nat.max s.nfds cfd
        clients := s.clients ++ [cfd]
        accepted := s.accepted ++ [cfd] }.enter 1

def step (host : Host) (s : Server) : Action → Option Server
  | .poll ready =>
      if s.place = .polling then
        if size < s.nfds + 1 then some { s with place := .undefined }
        else if ready then some { s with place := .accepting }
        else some (s.enter 1)
      else none
  | .accept => if s.place = .accepting then some (s.accept host) else none
  | .fail =>
      match s.place with
      | .polling | .receiving _ => some { s with place := .exited }
      | _ => none
  | .pass =>
      match s.place with
      | .receiving i => some (s.enter (i + 1))
      | _ => none
  | .finish client =>
      match s.place with
      | .receiving i =>
          if client ∈ s.clients ∧ s.fds i = client then
            some ({ s with
              fds := Function.update s.fds i (-1)
              clients := s.clients.erase client }.enter (i + 1))
          else none
      | _ => none

def Reached (host : Host) : Server → Prop :=
  Relation.ReflTransGen (fun before after => ∃ action, before.step host action = some after)
    (start host)

/-- Every client has one entry, which poll and the second loop come to, and they stay
inside of the table. -/
structure Watched (s : Server) : Prop where
  one : ∀ client ∈ s.clients, ∃ i, 1 ≤ i ∧ i ≤ s.nfds ∧ s.fds i = client ∧
    ∀ j < size, s.fds j = client → j = i
  inside : s.nfds + 1 ≤ size

section Moves
variable {host : Host} {s next : Server}

/-- What one step can do; but for accept and the end of a client it moves on in the loops. -/
inductive Move (host : Host) (s : Server) : Server → Prop where
  | on (place : At) : (∀ i, place = .receiving i → i < size) → Move host s { s with place := place }
  | accept : Move host s (s.accept host)
  | finish (i client : Nat) : s.place = .receiving i → client ∈ s.clients → s.fds i = client →
      Move host s ({ s with
        fds := Function.update s.fds i (-1)
        clients := s.clients.erase client }.enter (i + 1))

theorem enter_row (i j : Nat) (here : (s.enter i).place = .receiving j) : j < size := by
  simp only [enter] at here
  split_ifs at here with past outside
  cases here
  exact Nat.not_le.mp outside

theorem step_moves {action : Action}
    (step : s.step host action = some next) : Move host s next := by
  cases action with
  | poll ready =>
      simp only [Server.step] at step
      split_ifs at step
      · cases step
        exact .on _ fun i same => by cases same
      · cases step
        exact .on _ fun i same => by cases same
      · cases step
        exact .on _ (enter_row 1)
  | fail =>
      simp only [Server.step] at step
      split at step
      · cases step
        exact .on _ fun i same => by cases same
      · cases step
        exact .on _ fun i same => by cases same
      · cases step
  | accept =>
      simp only [Server.step] at step
      split_ifs at step
      cases step
      exact .accept
  | pass =>
      simp only [Server.step] at step
      split at step
      · next i here =>
          cases step
          exact .on _ (enter_row (i + 1))
      · cases step
  | finish client =>
      simp only [Server.step] at step
      split at step
      · next i here =>
          split_ifs at step with found
          cases step
          exact .finish i client here found.1 found.2
      · cases step

end Moves

section Numbers
variable {host : Host} {s next : Server} {cfd : Nat}

/-- The numbers of the clients, and the largest there has been. -/
structure Numbered (host : Host) (s : Server) : Prop where
  nodup : s.clients.Nodup
  client : ∀ client ∈ s.clients, client ∉ host.base ∧ client ≤ s.nfds
  largest : ∀ n, 0 < n → (s.nfds < n ↔ ∀ cfd ∈ s.accepted, cfd < n)
  row : ∀ i, s.place = .receiving i → i < size

theorem Numbered.pos (numbered : Numbered host s) : ∀ client ∈ s.clients, 0 < client := by
  intro client member
  rcases Nat.eq_zero_or_pos client with zero | pos
  · exact absurd (host.below client (zero ▸ Nat.zero_le _)) (numbered.client client member).1
  · exact pos

theorem lowest_unused (lowest : s.lowest host = some cfd) :
    cfd < host.limit ∧ cfd ∉ host.base ∧ cfd ∉ s.clients := by
  obtain ⟨unused, inside, -⟩ := List.find?_range_eq_some.mp lowest
  have unused := of_decide_eq_true unused
  exact ⟨List.mem_range.mp inside, unused⟩

/-- Clients have numbers above that of lfd. -/
theorem lowest_pos (lowest : s.lowest host = some cfd) : 0 < cfd := by
  rcases Nat.eq_zero_or_pos cfd with zero | pos
  · exact absurd (host.below cfd (zero ▸ Nat.zero_le _)) (lowest_unused lowest).2.1
  · exact pos

theorem vacant_some {i : Nat} (vacant : s.vacant = some i) :
    1 ≤ i ∧ i < size ∧ s.fds i = -1 ∧ ∀ j, 1 ≤ j → j < i → s.fds j ≠ -1 := by
  obtain ⟨free, inside, taken⟩ := List.find?_range'_eq_some.mp vacant
  have bounds := List.mem_range'_1.mp inside
  have limit : size = 1024 := rfl
  refine ⟨bounds.1, by omega, of_decide_eq_true free, fun j low high => ?_⟩
  simpa using taken j low high

theorem vacant_none (vacant : s.vacant = none) (i : Nat) (low : 1 ≤ i) (inside : i < size) :
    s.fds i ≠ -1 := by
  have taken := List.find?_eq_none.mp vacant i (List.mem_range'_1.mpr ⟨low, by omega⟩)
  simpa using taken

theorem store_less : s.store (-1) = s := by
  unfold store
  cases vacant : s.vacant with
  | none => rfl
  | some i =>
      have free := (vacant_some vacant).2.2.1
      show { s with fds := Function.update s.fds i (-1) } = s
      rw [← free, Function.update_eq_self]

theorem accept_none (lowest : s.lowest host = none) : s.accept host = s.enter 1 := by
  rw [accept, lowest]
  show (s.store (-1)).enter 1 = _
  rw [store_less]

/-- The fields of the server behind an accept that got a number. -/
theorem accept_some (lowest : s.lowest host = some cfd) :
    (s.accept host).fds = (s.store cfd).fds ∧ (s.accept host).nfds = Nat.max s.nfds cfd ∧
      (s.accept host).clients = s.clients ++ [cfd] ∧
      (s.accept host).accepted = s.accepted ++ [cfd] := by
  have kept : (s.store cfd).nfds = s.nfds ∧ (s.store cfd).clients = s.clients ∧
      (s.store cfd).accepted = s.accepted := by
    unfold store
    cases s.vacant <;> exact ⟨rfl, rfl, rfl⟩
  obtain ⟨nfds, clients, accepted⟩ := kept
  rw [accept, lowest]
  refine ⟨rfl, ?_, ?_, ?_⟩
  · show Nat.max (s.store cfd).nfds cfd = _
    rw [nfds]
  · show (s.store cfd).clients ++ [cfd] = _
    rw [clients]
  · show (s.store cfd).accepted ++ [cfd] = _
    rw [accepted]

theorem accept_enters : ∃ loop, s.accept host = Server.enter loop 1 := by
  unfold accept
  split
  · exact ⟨_, rfl⟩
  · exact ⟨_, rfl⟩

theorem accept_row (i : Nat) (here : (s.accept host).place = .receiving i) : i < size := by
  cases lowest : s.lowest host with
  | none => exact enter_row 1 i (accept_none lowest ▸ here)
  | some cfd =>
      rw [accept, lowest] at here
      exact enter_row 1 i here

theorem Numbered.start : Numbered host (start host) := by
  constructor
  · exact List.nodup_nil
  · exact fun client member => by cases member
  · exact fun n pos => iff_of_true pos fun cfd member => by cases member
  · exact fun i here => by cases here

theorem Numbered.move (numbered : Numbered host s) (move : Move host s next) :
    Numbered host next := by
  cases move with
  | on place row => exact ⟨numbered.nodup, numbered.client, numbered.largest, row⟩
  | finish i client here member same =>
      constructor
      · exact numbered.nodup.erase client
      · exact fun other kept => numbered.client other (List.mem_of_mem_erase kept)
      · exact numbered.largest
      · exact enter_row (i + 1)
  | accept =>
      cases lowest : s.lowest host with
      | none =>
          rw [accept_none lowest]
          exact ⟨numbered.nodup, numbered.client, numbered.largest, enter_row 1⟩
      | some cfd =>
          obtain ⟨-, outside, fresh⟩ := lowest_unused lowest
          obtain ⟨-, nfds, clients, accepted⟩ := accept_some lowest
          constructor
          · rw [clients]
            exact List.nodup_append.mpr ⟨numbered.nodup, List.nodup_singleton cfd,
              fun client member other single => by
                rw [List.mem_singleton.mp single]
                exact ne_of_mem_of_not_mem member fresh⟩
          · rw [clients, nfds]
            intro client member
            rcases List.mem_append.mp member with before | new
            · obtain ⟨apart, small⟩ := numbered.client client before
              exact ⟨apart, Nat.le_trans small (Nat.le_max_left ..)⟩
            · rw [List.mem_singleton.mp new]
              exact ⟨outside, Nat.le_max_right ..⟩
          · rw [nfds, accepted]
            intro n pos
            rw [List.forall_mem_append, List.forall_mem_singleton, ← numbered.largest n pos]
            exact Nat.max_lt
          · exact accept_row

end Numbers

section Entries
variable {host : Host} {s next : Server} {cfd : Nat}

/-- The entries, as long as the numbers stay inside of the table. -/
structure Stored (host : Host) (s : Server) : Prop where
  lfd : s.fds 0 = host.lfd
  entry : ∀ i, 1 ≤ i → i < size → s.fds i ≠ -1 → ∃ client ∈ s.clients, s.fds i = client
  client : ∀ client ∈ s.clients, ∃ i, 1 ≤ i ∧ i ≤ s.nfds ∧ s.fds i = client
  apart : ∀ i j, 1 ≤ i → i < size → 1 ≤ j → j < size → s.fds i ≠ -1 → s.fds i = s.fds j → i = j

theorem Stored.start : Stored host (start host) := by
  have empty (i : Nat) (low : 1 ≤ i) : (Server.start host).fds i = -1 := if_neg (by omega)
  constructor
  · rfl
  · exact fun i low _ taken => absurd (empty i low) taken
  · exact fun client member => by cases member
  · exact fun i j low _ _ _ taken => absurd (empty i low) taken

/-- The entries up to the first free one hold clients with numbers of their own, and
none of these is that of the new client. -/
theorem Stored.room (stored : Stored host s) (numbered : Numbered host s)
    (lowest : s.lowest host = some cfd) {m : Nat} (below : m < size)
    (taken : ∀ i, 1 ≤ i → i ≤ m → s.fds i ≠ -1) : m + 1 ≤ Nat.max s.nfds cfd := by
  have holds (i : Nat) (member : i ∈ List.range' 1 m) :
      1 ≤ i ∧ i < size ∧ s.fds i ≠ -1 ∧ ((s.fds i).toNat : Int) = s.fds i ∧
        (s.fds i).toNat ∈ s.clients := by
    obtain ⟨low, high⟩ := List.mem_range'_1.mp member
    have used := taken i low (by omega)
    obtain ⟨client, inside, same⟩ := stored.entry i low (by omega) used
    refine ⟨low, by omega, used, ?_, ?_⟩
    · rw [same, Int.toNat_natCast]
    · rw [same, Int.toNat_natCast]
      exact inside
  have nodup : (cfd :: (List.range' 1 m).map fun i => (s.fds i).toNat).Nodup := by
    rw [List.nodup_cons]
    constructor
    · intro member
      obtain ⟨i, inside, same⟩ := List.mem_map.mp member
      exact (lowest_unused lowest).2.2 (same ▸ (holds i inside).2.2.2.2)
    · refine List.Nodup.map_on (fun i left j right same => ?_) List.nodup_range'
      obtain ⟨i_low, i_high, i_used, i_cast, -⟩ := holds i left
      obtain ⟨j_low, j_high, -, j_cast, -⟩ := holds j right
      exact stored.apart i j i_low i_high j_low j_high i_used (by rw [← i_cast, ← j_cast, same])
  have within : (cfd :: (List.range' 1 m).map fun i => (s.fds i).toNat) ⊆
      List.range' 1 (Nat.max s.nfds cfd) := by
    intro n member
    have bounds : 1 ≤ n ∧ n ≤ Nat.max s.nfds cfd := by
      rcases List.mem_cons.mp member with rfl | behind
      · exact ⟨lowest_pos lowest, Nat.le_max_right ..⟩
      · obtain ⟨i, inside, rfl⟩ := List.mem_map.mp behind
        have client := (holds i inside).2.2.2.2
        exact ⟨numbered.pos _ client,
          Nat.le_trans (numbered.client _ client).2 (Nat.le_max_left ..)⟩
    exact List.mem_range'_1.mpr ⟨bounds.1, by omega⟩
  have lengths := (List.subperm_of_subset nodup within).length_le
  simpa using lengths

theorem Stored.same (stored : Stored host s) (fds : next.fds = s.fds)
    (nfds : next.nfds = s.nfds) (clients : next.clients = s.clients) : Stored host next := by
  constructor
  · rw [fds]
    exact stored.lfd
  · rw [fds, clients]
    exact stored.entry
  · rw [fds, nfds, clients]
    exact stored.client
  · rw [fds]
    exact stored.apart

/-- accept finds a free entry as long as the numbers stay inside of the table, and it is
one that poll and the second loop come to. -/
theorem Stored.vacancy (stored : Stored host s) (numbered : Numbered host s)
    (lowest : s.lowest host = some cfd) (inside : Nat.max s.nfds cfd < size) :
    ∃ i, s.vacant = some i ∧ i ≤ Nat.max s.nfds cfd := by
  cases vacant : s.vacant with
  | none =>
      have room := stored.room numbered lowest (m := size - 1) (by decide)
        fun i low high => vacant_none vacant i low (Nat.lt_of_le_of_lt high (by decide))
      rw [Nat.sub_add_cancel (by decide)] at room
      omega
  | some i =>
      obtain ⟨low, high, -, taken⟩ := vacant_some vacant
      have room := stored.room numbered lowest (m := i - 1) (by omega)
        fun j above below => taken j above (by omega)
      exact ⟨i, rfl, by omega⟩

theorem Stored.accept (stored : Stored host s) (numbered : Numbered host s)
    (inside : (s.accept host).nfds < size) : Stored host (s.accept host) := by
  cases lowest : s.lowest host with
  | none =>
      rw [accept_none lowest]
      exact stored.same rfl rfl rfl
  | some cfd =>
      obtain ⟨fds, nfds, clients, -⟩ := accept_some lowest
      rw [nfds] at inside
      obtain ⟨i, vacant, within⟩ := stored.vacancy numbered lowest inside
      obtain ⟨low, high, free, -⟩ := vacant_some vacant
      have stores : (s.store cfd).fds = Function.update s.fds i cfd := by
        rw [store, vacant]
      rw [stores] at fds
      have fresh := (lowest_unused lowest).2.2
      have here : (s.accept host).fds i = cfd := by rw [fds, Function.update_self]
      have other {j : Nat} (away : j ≠ i) : (s.accept host).fds j = s.fds j := by
        rw [fds, Function.update_of_ne away]
      -- no entry held this number before
      have new {j : Nat} (j_low : 1 ≤ j) (j_high : j < size) : s.fds j ≠ (cfd : Int) := by
        intro same
        obtain ⟨client, member, holds⟩ := stored.entry j j_low j_high (by omega)
        have equal : cfd = client := Int.ofNat.inj (same.symm.trans holds)
        exact fresh (equal ▸ member)
      constructor
      · rw [other (by omega)]
        exact stored.lfd
      · rw [clients]
        intro j j_low j_high used
        by_cases same : j = i
        · exact ⟨cfd, by simp, same ▸ here⟩
        · rw [other same] at used ⊢
          obtain ⟨client, member, holds⟩ := stored.entry j j_low j_high used
          exact ⟨client, List.mem_append_left _ member, holds⟩
      · rw [clients, nfds]
        intro client member
        rcases List.mem_append.mp member with before | last
        · obtain ⟨j, j_low, j_small, holds⟩ := stored.client client before
          have away : j ≠ i := by
            rintro rfl
            omega
          exact ⟨j, j_low, Nat.le_trans j_small (Nat.le_max_left ..), (other away).trans holds⟩
        · rw [List.mem_singleton.mp last]
          exact ⟨i, low, within, here⟩
      · intro j k j_low j_high k_low k_high used same
        by_cases j_here : j = i
        · by_cases k_here : k = i
          · rw [j_here, k_here]
          · rw [j_here, here, other k_here] at same
            exact absurd same.symm (new k_low k_high)
        · by_cases k_here : k = i
          · rw [k_here, here, other j_here] at same
            exact absurd same (new j_low j_high)
          · rw [other j_here] at used same
            rw [other k_here] at same
            exact stored.apart j k j_low j_high k_low k_high used same

/-- The entry of a client that has gone is free, and the others keep theirs. -/
theorem Stored.finish (stored : Stored host s) (numbered : Numbered host s) {i client : Nat}
    (high : i < size) (member : client ∈ s.clients) (holds : s.fds i = client) :
    Stored host ({ s with
      fds := Function.update s.fds i (-1)
      clients := s.clients.erase client }.enter (i + 1)) := by
  have low : 1 ≤ i := by
    rcases Nat.eq_zero_or_pos i with rfl | pos
    · have equal : client = host.lfd := Int.ofNat.inj (holds.symm.trans stored.lfd)
      exact absurd (host.below client equal.le) (numbered.client client member).1
    · exact pos
  have other {j : Nat} (away : j ≠ i) : Function.update s.fds i (-1) j = s.fds j :=
    Function.update_of_ne away ..
  have gone : Function.update s.fds i (-1) i = -1 := Function.update_self ..
  have elsewhere {j : Nat} (used : Function.update s.fds i (-1) j ≠ -1) : j ≠ i := by
    rintro rfl
    exact used gone
  constructor
  · exact (other (by omega)).trans stored.lfd
  · intro j j_low j_high used
    have away := elsewhere used
    have used : Function.update s.fds i (-1) j ≠ -1 := used
    rw [other away] at used
    obtain ⟨kept, inside, same⟩ := stored.entry j j_low j_high used
    refine ⟨kept, (numbered.nodup.mem_erase_iff).mpr ⟨fun equal => away ?_, inside⟩,
      (other away).trans same⟩
    exact stored.apart j i j_low j_high low high used (by rw [same, holds, equal])
  · intro kept kept_member
    obtain ⟨apart, inside⟩ := (numbered.nodup.mem_erase_iff).mp kept_member
    obtain ⟨j, j_low, j_small, same⟩ := stored.client kept inside
    have away : j ≠ i := by
      rintro rfl
      exact apart (Int.ofNat.inj (same.symm.trans holds))
    exact ⟨j, j_low, j_small, (other away).trans same⟩
  · intro j k j_low j_high k_low k_high used same
    have same : Function.update s.fds i (-1) j = Function.update s.fds i (-1) k := same
    have used : Function.update s.fds i (-1) j ≠ -1 := used
    have k_away := elsewhere (same ▸ used)
    have j_away := elsewhere used
    rw [other j_away] at used same
    rw [other k_away] at same
    exact stored.apart j k j_low j_high k_low k_high used same

theorem nfds_grows (move : Move host s next) : s.nfds ≤ next.nfds := by
  cases move with
  | on place row => exact Nat.le_refl _
  | finish i client here member same => exact Nat.le_refl _
  | accept =>
      cases lowest : s.lowest host with
      | none => exact (accept_none lowest).symm ▸ Nat.le_refl _
      | some cfd => exact (accept_some lowest).2.1 ▸ Nat.le_max_left ..

theorem Stored.move (stored : Stored host s) (numbered : Numbered host s)
    (move : Move host s next) (inside : next.nfds < size) : Stored host next := by
  cases move with
  | on place row => exact stored.same rfl rfl rfl
  | accept => exact stored.accept numbered inside
  | finish i client here member same =>
      exact stored.finish numbered (numbered.row i here) member same

theorem reached_numbered (reached : Reached host s) : Numbered host s := by
  induction reached with
  | refl => exact .start
  | tail _ step ih =>
      obtain ⟨action, moved⟩ := step
      exact ih.move (step_moves moved)

theorem reached_stored (reached : Reached host s) (inside : s.nfds < size) : Stored host s := by
  induction reached with
  | refl => exact .start
  | tail before step ih =>
      obtain ⟨action, moved⟩ := step
      have move := step_moves moved
      have kept := ih (Nat.lt_of_le_of_lt (nfds_grows move) inside)
      exact kept.move (reached_numbered before) move inside

theorem reached_watched (reached : Reached host s) (inside : s.nfds < size) : Watched s := by
  have numbered := reached_numbered reached
  have stored := reached_stored reached inside
  refine ⟨fun client member => ?_, inside⟩
  obtain ⟨i, low, small, holds⟩ := stored.client client member
  refine ⟨i, low, small, holds, fun j high same => ?_⟩
  rcases Nat.eq_zero_or_pos j with rfl | pos
  · have equal : client = host.lfd := Int.ofNat.inj (same.symm.trans stored.lfd)
    exact absurd (host.below client equal.le) (numbered.client client member).1
  · exact stored.apart j i pos high low (by omega) (by omega) (same.trans holds.symm)

/-- All that accept has returned is inside of the table. -/
theorem watched_iff (reached : Reached host s) :
    Watched s ↔ ∀ cfd ∈ s.accepted, cfd < size := by
  rw [← (reached_numbered reached).largest size (by decide)]
  exact ⟨Watched.inside, reached_watched reached⟩

end Entries

section Limit
variable {host : Host} {s next : Server}

theorem accepted_free (reached : Reached host s) :
    ∀ cfd ∈ s.accepted, cfd < host.limit ∧ cfd ∉ host.base := by
  induction reached with
  | refl => exact fun cfd member => by cases member
  | @tail last _ before step ih =>
      obtain ⟨action, moved⟩ := step
      cases step_moves moved with
      | on place row => exact ih
      | finish i client here member same => exact ih
      | accept =>
          cases lowest : last.lowest host with
          | none =>
              rw [accept_none lowest]
              exact ih
          | some cfd =>
              rw [(accept_some lowest).2.2.2]
              intro other member
              rcases List.mem_append.mp member with old | new
              · exact ih other old
              · rw [List.mem_singleton.mp new]
                exact ⟨(lowest_unused lowest).1, (lowest_unused lowest).2.1⟩

/-- The second loop comes to its end if nothing is there to be received. -/
theorem loop_ends (inside : s.nfds < size) (i : Nat) (reached : Reached host (s.enter i)) :
    Reached host { s with place := .polling } := by
  induction rounds : s.nfds + 1 - i generalizing i with
  | zero =>
      have past : s.enter i = { s with place := .polling } := by
        rw [enter, if_pos (by omega)]
      exact past ▸ reached
  | succ rounds ih =>
      have here : s.enter i = { s with place := .receiving i } := by
        rw [enter, if_neg (by omega), if_neg (by omega)]
      have step : (s.enter i).step host .pass = some (s.enter (i + 1)) := by
        rw [here]
        rfl
      exact ih (i + 1) (reached.tail ⟨.pass, step⟩) (by omega)

/-- As long as a number beyond the table is free, another client can come. -/
theorem another_client {n : Nat} (all : ∀ t, Reached host t → t.nfds < size) (beyond : size ≤ n)
    (below : n < host.limit) (free : n ∉ host.base) (reached : Reached host s)
    (polling : s.place = .polling) : ∃ t, Reached host t ∧ t.place = .polling ∧
      t.clients.length = s.clients.length + 1 := by
  have numbered := reached_numbered reached
  have room := all s reached
  have unused : n ∉ s.clients := by
    intro member
    have small := (numbered.client n member).2
    omega
  let waiting : Server := { s with place := .accepting }
  have step : s.step host (.poll true) = some waiting := by
    simp only [Server.step, polling, if_true, if_neg (by omega : ¬ size < s.nfds + 1)]
    rfl
  have accepting := reached.tail ⟨.poll true, step⟩
  cases lowest : waiting.lowest host with
  | none =>
      have used := List.find?_eq_none.mp lowest n (List.mem_range.mpr below)
      exact absurd (decide_eq_true (p := n ∉ host.base ∧ n ∉ s.clients) ⟨free, unused⟩) used
  | some cfd =>
      have accepted := accepting.tail ⟨.accept, (rfl : waiting.step host .accept = some _)⟩
      obtain ⟨-, -, clients, -⟩ := accept_some lowest
      obtain ⟨loop, enters⟩ := @accept_enters host waiting
      rw [enters] at accepted clients
      refine ⟨_, loop_ends (all _ accepted) 1 accepted, rfl, ?_⟩
      have length := congrArg List.length clients
      rw [List.length_append] at length
      exact length

theorem many_clients {n : Nat} (all : ∀ t, Reached host t → t.nfds < size) (beyond : size ≤ n)
    (below : n < host.limit) (free : n ∉ host.base) (count : Nat) :
    ∃ t, Reached host t ∧ t.place = .polling ∧ t.clients.length = count := by
  induction count with
  | zero => exact ⟨_, .refl, rfl, rfl⟩
  | succ count ih =>
      obtain ⟨t, reached, polling, length⟩ := ih
      rw [← length]
      exact another_client all beyond below free reached polling

/-- The clients are watched in every run exactly if no number beyond the table is free. -/
theorem watched_everywhere (host : Host) :
    (∀ s, Reached host s → Watched s) ↔ ∀ n, size ≤ n → n < host.limit → n ∈ host.base := by
  constructor
  · intro watched n beyond below
    by_contra free
    have all (t : Server) (reached : Reached host t) : t.nfds < size := (watched t reached).inside
    -- clients have numbers of their own, so there cannot be more than the table has entries
    obtain ⟨t, reached, -, length⟩ := many_clients all beyond below free (size + 1)
    have numbered := reached_numbered reached
    have within : t.clients ⊆ List.range size := fun client member =>
      List.mem_range.mpr (Nat.lt_of_le_of_lt (numbered.client client member).2 (all t reached))
    have lengths := (List.subperm_of_subset numbered.nodup within).length_le
    rw [length, List.length_range] at lengths
    exact Nat.not_succ_le_self _ lengths
  · intro used s reached
    refine (watched_iff reached).mpr fun cfd member => ?_
    obtain ⟨below, free⟩ := accepted_free reached cfd member
    by_contra beyond
    exact free (used cfd (Nat.not_lt.mp beyond) below)

/-- The clients are watched exactly as long as accept has returned no number beyond the
table, and whatever the clients do exactly if there is none that it could return. -/
theorem clients_watched (host : Host) :
    (∀ s, Reached host s → (Watched s ↔ ∀ cfd ∈ s.accepted, cfd < size)) ∧
      ((∀ s, Reached host s → Watched s) ↔
        ∀ n, size ≤ n → n < host.limit → n ∈ host.base) :=
  ⟨fun _ reached => watched_iff reached, watched_everywhere host⟩

/-- A process with the standard descriptors and lfd. -/
def plain (limit : Nat) : Host where
  limit := limit
  lfd := 3
  base := [0, 1, 2, 3]
  below n small := by
    have cases : n = 0 ∨ n = 1 ∨ n = 2 ∨ n = 3 := by omega
    simpa using cases

theorem clients_watched_plain : ∀ s, Reached (plain size) s → Watched s :=
  (clients_watched (plain size)).2.mpr fun _ beyond below => absurd below (Nat.not_lt.mpr beyond)

/-- With one descriptor more than the table has entries there are clients that are not
watched. -/
theorem clients_unwatched : ¬ ∀ s, Reached (plain (size + 1)) s → Watched s := by
  intro watched
  have used := (watched_everywhere (plain (size + 1))).mp watched size (Nat.le_refl _)
    (Nat.lt_succ_self _)
  exact absurd used (by decide)

end Limit

end Server

end StudyWebServer.Lesson04.PollServer
