import Mathlib.Data.List.Perm.Subperm
import Mathlib.Data.List.Nodup
import Mathlib.Data.List.Range
import Mathlib.Logic.Function.Basic
import Mathlib.Logic.Relation
import Mathlib.Tactic.SplitIfs

/-!
lesson04/21/server3.c: the main thread, which gives every client an entry of sockinfos
and a thread of its own, and these threads. An entry is its `fd`. What is read and
written back is left out; accept and pthread_create do not fail.
-/

namespace StudyWebServer.Lesson04.ThreadServer

/-- `max`, the number of entries. -/
def max : Nat := 128

/-- Where the main thread stands. -/
inductive MainAt where
  | accepting
  /-- in the loop over sockinfos, before the test of entry `i` -/
  | searching (i cfd : Nat)
  /-- before `pinfo->fd = cfd` -/
  | placing (i cfd : Nat)
  /-- before pthread_create -/
  | creating (i : Nat)
  deriving DecidableEq

/-- Where a thread stands in working(). -/
inductive WorkerAt where
  | reading
  /-- before `close(pinfo->fd)` -/
  | closing
  | returned
  deriving DecidableEq

structure Worker where
  /-- the entry that pinfo points to -/
  entry : Nat
  place : WorkerAt
  /-- the client is still there -/
  connected : Bool
  deriving DecidableEq

structure Server where
  /-- `sockinfos[i].fd` -/
  fds : Nat → Int
  main : MainAt
  /-- the threads, in the order in which they were created -/
  workers : List Worker
  exited : Bool
  /-- how often the main thread slept -/
  waits : Nat
  /-- how many clients have gone -/
  disconnects : Nat

inductive Action where
  | accept (cfd : Nat)
  /-- the next operation of the main thread -/
  | main
  | disconnect (worker : Nat)
  /-- the next operation of a thread -/
  | work (worker : Nat)
  /-- read answers -1 -/
  | fail (worker : Nat)

namespace Server

/-- Behind the loop that sets every `fd` to -1. -/
def start : Server where
  fds _ := -1
  main := .accepting
  workers := []
  exited := false
  waits := 0
  disconnects := 0

/-- How many clients are there. -/
def clients (s : Server) : Nat := s.workers.countP Worker.connected

def setWorker (s : Server) (k : Nat) (worker : Worker) : Server :=
  { s with workers := s.workers.set k worker }

def accept (s : Server) (cfd : Nat) : Option Server :=
  if s.main = .accepting ∧ s.clients < max then some { s with main := .searching 0 cfd } else none

def advance (s : Server) : Option Server :=
  match s.main with
  | .accepting => none
  | .searching i cfd =>
      if max ≤ i then none
      else if s.fds i = -1 then some { s with main := .placing i cfd }
      -- sleep(1), and --i undoes the ++i to come
      else if i = max - 1 then some { s with waits := s.waits + 1 }
      else some { s with main := .searching (i + 1) cfd }
  | .placing i cfd => some { s with
      fds := Function.update s.fds i cfd
      main := .creating i }
  | .creating i => some { s with
      workers := s.workers ++ [⟨i, .reading, true⟩]
      main := .accepting }

def disconnect (s : Server) (k : Nat) : Option Server :=
  match s.workers[k]? with
  | none => none
  | some worker =>
      if worker.connected then
        some { s.setWorker k { worker with connected := false } with
          disconnects := s.disconnects + 1 }
      else none

def work (s : Server) (k : Nat) : Option Server :=
  match s.workers[k]? with
  | none => none
  | some worker =>
      match worker.place with
      | .reading =>
          if worker.connected then some s
          else some (s.setWorker k { worker with place := .closing })
      -- the descriptor is closed, and its number stays in pinfo->fd
      | .closing => some (s.setWorker k { worker with place := .returned })
      | .returned => none

def fail (s : Server) (k : Nat) : Option Server :=
  match s.workers[k]? with
  | none => none
  | some worker => if worker.place = .reading then some { s with exited := true } else none

/-- A client arrives when fewer than `max` are there. -/
def step (s : Server) (action : Action) : Option Server :=
  if s.exited then none
  else
    match action with
    | .accept cfd => s.accept cfd
    | .main => s.advance
    | .disconnect worker => s.disconnect worker
    | .work worker => s.work worker
    | .fail worker => s.fail worker

def Reached : Server → Prop :=
  Relation.ReflTransGen (fun before after => ∃ action, before.step action = some after) start

/-- A thread that has not returned has this entry, or is about to be created for it. -/
def Uses (s : Server) (i : Nat) : Prop :=
  (∃ worker ∈ s.workers, worker.entry = i ∧ worker.place ≠ .returned) ∨ s.main = .creating i

structure SlotsReusable (s : Server) : Prop where
  /-- the search has found an entry without waiting -/
  noWait : s.waits = 0
  /-- the entry that it found is not in use -/
  apart : ∀ i cfd, s.main = .placing i cfd → ¬ s.Uses i
  free : ∀ i < max, s.fds i = -1 ↔ ¬ s.Uses i

/-- What one step can do. -/
inductive Move (s : Server) : Server → Prop where
  | accept (cfd : Nat) : s.main = .accepting → s.clients < max →
      Move s { s with main := .searching 0 cfd }
  | found (i cfd : Nat) : s.main = .searching i cfd → i < max → s.fds i = -1 →
      Move s { s with main := .placing i cfd }
  | wait (cfd : Nat) : s.main = .searching (max - 1) cfd → s.fds (max - 1) ≠ -1 →
      Move s { s with waits := s.waits + 1 }
  | next (i cfd : Nat) : s.main = .searching i cfd → i + 1 < max → s.fds i ≠ -1 →
      Move s { s with main := .searching (i + 1) cfd }
  | place (i cfd : Nat) : s.main = .placing i cfd → Move s { s with
      fds := Function.update s.fds i cfd
      main := .creating i }
  | create (i : Nat) : s.main = .creating i → Move s { s with
      workers := s.workers ++ [⟨i, .reading, true⟩]
      main := .accepting }
  | disconnect (k : Nat) (worker : Worker) : s.workers[k]? = some worker →
      Move s { s.setWorker k { worker with connected := false } with
        disconnects := s.disconnects + 1 }
  | serve : Move s s
  | finish (k : Nat) (worker : Worker) (place : WorkerAt) : s.workers[k]? = some worker →
      worker.connected = false ∨ worker.place = .closing →
      Move s (s.setWorker k { worker with place := place })
  | fail : Move s { s with exited := true }

section Moves
variable {s next : Server}

theorem advance_moves (step : s.advance = some next) : Move s next := by
  unfold advance at step
  split at step
  · cases step
  · next i cfd here =>
      split_ifs at step with outside free last
      · cases step
        exact .found i cfd here (Nat.not_le.mp outside) free
      · cases step
        subst last
        exact .wait cfd here free
      · cases step
        exact .next i cfd here (by omega) free
  · next i cfd here =>
      cases step
      exact .place i cfd here
  · next i here =>
      cases step
      exact .create i here

theorem work_moves {k : Nat} (step : s.work k = some next) : Move s next := by
  unfold work at step
  cases found : s.workers[k]? with
  | none => simp [found] at step
  | some worker =>
      simp only [found] at step
      cases place : worker.place with
      | reading =>
          simp only [place] at step
          split_ifs at step with connected
          · cases step
            exact .serve
          · cases step
            exact .finish k worker .closing found (.inl (Bool.eq_false_iff.mpr connected))
      | closing =>
          simp only [place, Option.some.injEq] at step
          exact step ▸ .finish k worker .returned found (.inr place)
      | returned => simp [place] at step

theorem step_moves {action : Action} (step : s.step action = some next) : Move s next := by
  unfold Server.step at step
  split_ifs at step
  cases action with
  | accept cfd =>
      simp only [Server.accept] at step
      split_ifs at step with ready
      cases step
      exact .accept cfd ready.1 ready.2
  | main => exact advance_moves step
  | disconnect k =>
      simp only [Server.disconnect] at step
      split at step
      · cases step
      · next worker found =>
          split_ifs at step
          cases step
          exact .disconnect k worker found
  | work k => exact work_moves step
  | fail k =>
      simp only [Server.fail] at step
      split at step
      · cases step
      · split_ifs at step
        cases step
        exact .fail

end Moves

section Entries
variable {s next : Server}

def entries (s : Server) : List Nat := s.workers.map Worker.entry

theorem entries_set {k : Nat} {worker other : Worker} (found : s.workers[k]? = some worker)
    (same : other.entry = worker.entry) : (s.setWorker k other).entries = s.entries := by
  obtain ⟨inside, here⟩ := List.getElem?_eq_some_iff.mp found
  have within : k < (s.workers.map Worker.entry).length := by rwa [List.length_map]
  have stands : worker.entry = (s.workers.map Worker.entry)[k] := by rw [List.getElem_map, here]
  show (s.workers.set k other).map Worker.entry = s.workers.map Worker.entry
  rw [List.map_set, same, stands, List.set_getElem_self]

/-- An entry belongs to the one thread it was ever given to. -/
structure Placed (s : Server) : Prop where
  nodup : s.entries.Nodup
  taken : ∀ i ∈ s.entries, i < max ∧ s.fds i ≠ -1
  given : ∀ i < max, s.fds i ≠ -1 → i ∈ s.entries ∨ s.main = .creating i
  searching : ∀ i cfd, s.main = .searching i cfd → i < max ∧ ∀ j < i, s.fds j ≠ -1
  placing : ∀ i cfd, s.main = .placing i cfd → i < max ∧ s.fds i = -1
  creating : ∀ i, s.main = .creating i → i < max ∧ s.fds i ≠ -1 ∧ i ∉ s.entries

theorem Placed.start : Placed start := by
  constructor
  · exact List.nodup_nil
  · exact fun i member => by cases member
  · exact fun i _ used => absurd rfl used
  · exact fun i cfd here => by cases here
  · exact fun i cfd here => by cases here
  · exact fun i here => by cases here

/-- What the threads and the clients do does not matter. -/
theorem Placed.same (placed : Placed s) (fds : next.fds = s.fds) (main : next.main = s.main)
    (entries : next.entries = s.entries) : Placed next := by
  constructor
  · rw [entries]
    exact placed.nodup
  · rw [entries, fds]
    exact placed.taken
  · rw [entries, fds, main]
    exact placed.given
  · rw [fds, main]
    exact placed.searching
  · rw [fds, main]
    exact placed.placing
  · rw [entries, fds, main]
    exact placed.creating

/-- Between two creations an entry that is in use has its thread. -/
theorem Placed.owned (placed : Placed s) (other : ∀ i, s.main ≠ .creating i) (i : Nat)
    (inside : i < max) (used : s.fds i ≠ -1) : i ∈ s.entries :=
  (placed.given i inside used).resolve_right (other i)

theorem Placed.move (placed : Placed s) (move : Move s next) : Placed next := by
  cases move with
  | accept cfd here room =>
      constructor
      · exact placed.nodup
      · exact placed.taken
      · exact fun i inside used => .inl (placed.owned (by simp [here]) i inside used)
      · intro i other same
        cases same
        exact ⟨by decide, fun j before => by omega⟩
      · exact fun i other same => by cases same
      · exact fun i same => by cases same
  | found i cfd here inside free =>
      constructor
      · exact placed.nodup
      · exact placed.taken
      · exact fun j within used => .inl (placed.owned (by simp [here]) j within used)
      · exact fun j other same => by cases same
      · intro j other same
        cases same
        exact ⟨inside, free⟩
      · exact fun j same => by cases same
  | next i cfd here inside used =>
      constructor
      · exact placed.nodup
      · exact placed.taken
      · exact fun j within other => .inl (placed.owned (by simp [here]) j within other)
      · intro j other same
        cases same
        refine ⟨inside, fun k before => ?_⟩
        rcases Nat.lt_succ_iff_lt_or_eq.mp before with earlier | rfl
        · exact (placed.searching i cfd here).2 k earlier
        · exact used
      · exact fun j other same => by cases same
      · exact fun j same => by cases same
  | place i cfd here =>
      obtain ⟨inside, free⟩ := placed.placing i cfd here
      -- no thread was given this entry, so its fd is still -1
      have fresh : i ∉ s.entries := fun member => (placed.taken i member).2 free
      have stays {j : Nat} (apart : j ≠ i) : Function.update s.fds i (cfd : Int) j = s.fds j :=
        Function.update_of_ne apart ..
      have set : Function.update s.fds i (cfd : Int) i ≠ -1 := by
        rw [Function.update_self]
        omega
      constructor
      · exact placed.nodup
      · intro j member
        have apart : j ≠ i := ne_of_mem_of_not_mem member fresh
        refine ⟨(placed.taken j member).1, ?_⟩
        show Function.update s.fds i (cfd : Int) j ≠ -1
        rw [stays apart]
        exact (placed.taken j member).2
      · intro j within used
        by_cases same : j = i
        · exact .inr (same ▸ rfl)
        · have used : Function.update s.fds i (cfd : Int) j ≠ -1 := used
          rw [stays same] at used
          exact .inl (placed.owned (by simp [here]) j within used)
      · exact fun j other same => by cases same
      · exact fun j other same => by cases same
      · intro j same
        cases same
        exact ⟨inside, set, fresh⟩
  | create i here =>
      obtain ⟨inside, used, fresh⟩ := placed.creating i here
      have entries : ({ s with
          workers := s.workers ++ [⟨i, .reading, true⟩]
          main := .accepting } : Server).entries = s.entries ++ [i] := by
        simp [Server.entries]
      constructor
      · rw [entries]
        exact List.nodup_append.mpr ⟨placed.nodup, List.nodup_singleton i,
          fun j member k single => by
          rw [List.mem_singleton.mp single]
          exact ne_of_mem_of_not_mem member fresh⟩
      · rw [entries]
        intro j member
        rcases List.mem_append.mp member with before | new
        · exact placed.taken j before
        · rw [List.mem_singleton.mp new]
          exact ⟨inside, used⟩
      · rw [entries]
        intro j within taken
        rcases placed.given j within taken with given | soon
        · exact .inl (List.mem_append_left _ given)
        · cases here.symm.trans soon
          exact .inl (List.mem_append_right _ (List.mem_singleton.mpr rfl))
      · exact fun j other same => by cases same
      · exact fun j other same => by cases same
      · exact fun j same => by cases same
  | wait cfd here used => exact placed.same rfl rfl rfl
  | disconnect k worker found => exact placed.same rfl rfl (entries_set found rfl)
  | serve => exact placed
  | finish k worker place found why => exact placed.same rfl rfl (entries_set found rfl)
  | fail => exact placed.same rfl rfl rfl

theorem reached_placed (reached : Reached s) : Placed s := by
  induction reached with
  | refl => exact .start
  | tail _ step ih =>
      obtain ⟨action, moved⟩ := step
      exact ih.move (step_moves moved)

theorem Placed.unused (placed : Placed s) {i : Nat} (free : s.fds i = -1) : ¬ s.Uses i := by
  rintro (⟨worker, member, rfl, -⟩ | creating)
  · exact (placed.taken _ (List.mem_map_of_mem member)).2 free
  · exact (placed.creating i creating).2.1 free

end Entries

section Reusable
variable {s next : Server}

/-- All clients are there, and there is an entry for one that has arrived. -/
structure Calm (s : Server) : Prop where
  serving : ∀ worker ∈ s.workers, worker.place = .reading ∧ worker.connected = true
  noWait : s.waits = 0
  room : s.main ≠ .accepting → s.workers.length < max

theorem Calm.move (calm : Calm s) (placed : Placed s) (move : Move s next)
    (stays : next.disconnects = 0) : Calm next := by
  have serving := calm.serving
  cases move with
  | accept cfd here room =>
      refine ⟨serving, calm.noWait, fun _ => ?_⟩
      have all : s.clients = s.workers.length :=
        List.countP_eq_length.mpr fun worker member => (serving worker member).2
      exact all ▸ room
  | found i cfd here inside free =>
      exact ⟨serving, calm.noWait, fun _ => calm.room (by simp [here])⟩
  | next i cfd here inside used =>
      exact ⟨serving, calm.noWait, fun _ => calm.room (by simp [here])⟩
  | place i cfd here => exact ⟨serving, calm.noWait, fun _ => calm.room (by simp [here])⟩
  | wait cfd here used =>
      -- all entries are in use, so each has a thread
      have all : List.range max ⊆ s.entries := by
        intro i member
        have inside := List.mem_range.mp member
        have taken : s.fds i ≠ -1 := by
          rcases Nat.lt_or_ge i (max - 1) with before | last
          · exact (placed.searching _ cfd here).2 i before
          · have same : i = max - 1 := by omega
            exact same ▸ used
        exact placed.owned (by simp [here]) i inside taken
      have lengths := (List.subperm_of_subset List.nodup_range all).length_le
      rw [List.length_range, entries, List.length_map] at lengths
      exact absurd lengths (Nat.not_le.mpr (calm.room (by simp [here])))
  | create i here =>
      refine ⟨fun worker member => ?_, calm.noWait, fun other => absurd rfl other⟩
      rcases List.mem_append.mp member with before | new
      · exact serving worker before
      · rw [List.mem_singleton.mp new]
        exact ⟨rfl, rfl⟩
  | disconnect k worker found => exact absurd stays (Nat.succ_ne_zero _)
  | serve => exact calm
  | finish k worker place found why =>
      obtain ⟨reading, connected⟩ := serving worker (List.mem_of_getElem? found)
      rcases why with gone | closing
      · cases connected.symm.trans gone
      · cases reading.symm.trans closing
  | fail => exact ⟨serving, calm.noWait, calm.room⟩

theorem disconnects_grow (move : Move s next) : s.disconnects ≤ next.disconnects := by
  cases move with
  | disconnect k worker found => exact Nat.le_succ _
  | _ => exact Nat.le_refl _

theorem reached_calm (reached : Reached s) (stays : s.disconnects = 0) : Calm s := by
  induction reached with
  | refl => exact ⟨fun worker member => (by cases member), rfl, fun other => absurd rfl other⟩
  | tail before step ih =>
      obtain ⟨action, moved⟩ := step
      have move := step_moves moved
      have none := Nat.le_zero.mp (stays ▸ disconnects_grow move)
      exact (ih none).move (reached_placed before) move stays

theorem Calm.reusable (calm : Calm s) (placed : Placed s) : SlotsReusable s := by
  refine ⟨calm.noWait, fun i cfd here => placed.unused (placed.placing i cfd here).2,
    fun i inside => ⟨placed.unused, fun unused => ?_⟩⟩
  by_contra taken
  rcases placed.given i inside taken with given | soon
  · obtain ⟨worker, member, rfl⟩ := List.mem_map.mp given
    refine unused (.inl ⟨worker, member, rfl, ?_⟩)
    rw [(calm.serving worker member).1]
    exact WorkerAt.noConfusion
  · exact unused (.inr soon)

/-- The entry of a thread that has returned stays taken. -/
theorem Placed.returned (placed : Placed s) {worker : Worker} (member : worker ∈ s.workers)
    (returned : worker.place = .returned) : ¬ SlotsReusable s := by
  intro reusable
  have given : worker.entry ∈ s.entries := List.mem_map_of_mem member
  obtain ⟨inside, taken⟩ := placed.taken _ given
  refine taken ((reusable.free _ inside).mpr ?_)
  rintro (⟨other, also, same, running⟩ | creating)
  · have one := List.inj_on_of_nodup_map placed.nodup also member same
    exact running (one ▸ returned)
  · exact (placed.creating _ creating).2.2 given

/-- The entries are reusable as long as no client has gone, and are not from the first
return of a thread on. -/
theorem slots_reusable (s : Server) (reached : Reached s) :
    (s.disconnects = 0 → SlotsReusable s) ∧
      ((∃ worker ∈ s.workers, worker.place = .returned) → ¬ SlotsReusable s) := by
  have placed := reached_placed reached
  constructor
  · exact fun stays => (reached_calm reached stays).reusable placed
  · rintro ⟨worker, member, returned⟩
    exact placed.returned member returned

/-- Two clients are served. -/
theorem slots_reusable_two : ∃ s, s.workers.length = 2 ∧ SlotsReusable s := by
  have run : ∃ s, s.workers.length = 2 ∧ s.disconnects = 0 ∧ Reached s := by
    refine ⟨_, rfl, rfl, .tail (.tail (.tail (.tail (.tail (.tail (.tail (.tail (.tail .refl
      ⟨.accept 4, rfl⟩)
      ⟨.main, rfl⟩)
      ⟨.main, rfl⟩)
      ⟨.main, rfl⟩)
      ⟨.accept 5, rfl⟩)
      ⟨.main, rfl⟩)
      ⟨.main, rfl⟩)
      ⟨.main, rfl⟩)
      ⟨.main, rfl⟩⟩
  obtain ⟨s, two, stays, reached⟩ := run
  exact ⟨s, two, (slots_reusable s reached).1 stays⟩

/-- One client comes and goes, and no thread is left, but its entry is not -1 again. -/
theorem slots_not_reusable : ¬ ∀ s, Reached s → SlotsReusable s := by
  intro all
  have run : ∃ s, Reached s ∧ ⟨0, .returned, false⟩ ∈ s.workers := by
    refine ⟨_, .tail (.tail (.tail (.tail (.tail (.tail (.tail .refl
      ⟨.accept 4, rfl⟩)
      ⟨.main, rfl⟩)
      ⟨.main, rfl⟩)
      ⟨.main, rfl⟩)
      ⟨.disconnect 0, rfl⟩)
      ⟨.work 0, rfl⟩)
      ⟨.work 0, rfl⟩, List.mem_singleton.mpr rfl⟩
  obtain ⟨s, reached, member⟩ := run
  exact (reached_placed reached).returned member rfl (all s reached)

end Reusable

end Server

end StudyWebServer.Lesson04.ThreadServer
