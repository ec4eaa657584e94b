import StudyWebServer.WebServer.SqlConnPool
import Mathlib.Data.List.Count
import Mathlib.Data.Fintype.Card

/-!
What holds of the pool after any steps of the threads in UserVerify: the semaphore counts what
is in the queue, and a connection is in the queue, or on its way back, once more for every call
that came to its end, also while a thread queries over it.
-/

namespace StudyWebServer.WebServer.SqlConnPool

open ThreadCount

section Places
variable {Conn : Type}

def isTaking : UserAt Conn → Bool
  | .taking => true
  | _ => false

def isReturning : UserAt Conn → Bool
  | .returning _ => true
  | _ => false

def returns [DecidableEq Conn] (sql : Conn) : UserAt Conn → Bool
  | .returning held => held = sql
  | _ => false

/-- The connection that a thread has in its hands. -/
def held : UserAt Conn → Option Conn
  | .returning sql => some sql
  | .querying sql => some sql
  | _ => none

end Places

namespace Pool
variable {A Conn : Type} [DecidableEq A] [Fintype A] [DecidableEq Conn] {p next : Pool A Conn}
  {connections : List (Option Conn)}

structure Sound (connections : List (Option Conn)) (p : Pool A Conn) : Prop where
  counted : p.connQue.length = p.semId + standing p.users isTaking
  grown : p.connQue.length + standing p.users isReturning = connections.length + p.finished.length
  placed : ∀ sql, p.connQue.count (some sql) + standing p.users (returns sql) =
    connections.count (some sql) + p.finished.count sql
  known : (∀ sql, some sql ∈ p.connQue → some sql ∈ connections) ∧
    ∀ thread sql, held (p.users thread) = some sql → some sql ∈ connections
  null : none ∈ p.connQue → none ∈ connections

omit [Fintype A] [DecidableEq Conn] in
theorem held_update (known : ∀ thread sql, held (p.users thread) =
    some sql → some sql ∈ connections)
    {thread : A} {place : UserAt Conn}
    (after : ∀ sql, held place = some sql → some sql ∈ connections)
    (other : A) (sql : Conn) (has : held (Function.update p.users thread place other) = some sql) :
    some sql ∈ connections := by
  by_cases same : other = thread
  · subst same
    rw [Function.update_self] at has
    exact after sql has
  · rw [Function.update_of_ne same] at has
    exact known other sql has

/-- A thread that moves without touching the pool. -/
theorem Sound.move (sound : Sound connections p) (thread : A) (place : UserAt Conn)
    (taking : isTaking place = isTaking (p.users thread))
    (returning : isReturning place = isReturning (p.users thread))
    (sqls : ∀ sql, returns sql place = returns sql (p.users thread))
    (holds : held place = none) : Sound connections (p.userTo thread place) where
  counted := sound.counted.trans (congrArg (p.semId + ·) (standing_stays taking).symm)
  grown := (congrArg (p.connQue.length + ·) (standing_stays returning)).trans sound.grown
  placed sql := (congrArg (p.connQue.count (some sql) + ·) (standing_stays (sqls sql))).trans
    (sound.placed sql)
  known := ⟨sound.known.1, held_update sound.known.2 fun sql has => by rw [holds] at has; cases has⟩
  null := sound.null

theorem count_some (sql other : Conn) :
    [some sql].count (some other) = (decide (sql = other)).toNat := by
  by_cases same : sql = other
  · subst same
    simp
  · simp [same]

omit [DecidableEq A] in
theorem known_freed (sound : Sound connections p) {sql : Conn} (member : some sql ∈ connections)
    (other : Conn) (freed : some other ∈ p.connQue ++ [some sql]) : some other ∈ connections := by
  rcases List.mem_append.mp freed with before | new
  · exact sound.known.1 other before
  · rw [List.mem_singleton.mp new]
    exact member

omit [DecidableEq A] in
theorem null_freed (sound : Sound connections p) {sql : Conn}
    (freed : none ∈ p.connQue ++ [some sql]) :
    none ∈ connections := by
  rcases List.mem_append.mp freed with before | new
  · exact sound.null before
  · cases List.mem_singleton.mp new

theorem sound_step (change : Change p next) (sound : Sound connections p)
    (alive : next.aborted = false) : Sound connections next := by
  cases change with
  | called thread idle =>
      exact sound.move thread .checking (by rw [idle]; rfl) (by rw [idle]; rfl)
        (fun _ => by rw [idle]; rfl) rfl
  | busy thread checking empty => cases alive
  | checked thread checking filled =>
      exact sound.move thread .waiting (by rw [checking]; rfl) (by rw [checking]; rfl)
        (fun _ => by rw [checking]; rfl) rfl
  | waited thread semId waiting free =>
      have enters : standing (Function.update p.users thread .taking) isTaking =
          standing p.users isTaking + 1 := standing_enters (by rw [waiting]; rfl) rfl
      have counted := sound.counted
      refine ⟨?_, ?_, fun sql => ?_, ⟨sound.known.1, held_update sound.known.2 nofun⟩, sound.null⟩
      · show p.connQue.length = semId + standing (Function.update p.users thread .taking) isTaking
        omega
      · exact (congrArg (p.connQue.length + ·)
          (standing_stays (by rw [waiting]; rfl))).trans sound.grown
      · exact (congrArg (p.connQue.count (some sql) + ·)
          (standing_stays (by rw [waiting]; rfl))).trans (sound.placed sql)
  | taken thread sql rest taking front =>
      have leaves : standing (Function.update p.users thread (.returning sql)) isTaking + 1 =
          standing p.users isTaking := standing_leaves (by rw [taking]; rfl) rfl
      have enters : standing (Function.update p.users thread (.returning sql)) isReturning =
          standing p.users isReturning + 1 := standing_enters (by rw [taking]; rfl) rfl
      have counted := sound.counted
      have grown := sound.grown
      rw [front, List.length_cons] at counted grown
      refine ⟨?_, ?_, fun other => ?_, ⟨fun other member => ?_, held_update sound.known.2 ?_⟩,
        fun member => ?_⟩
      · show rest.length = p.semId + standing
          (Function.update p.users thread (.returning sql)) isTaking
        omega
      · show rest.length + standing (Function.update p.users thread (.returning sql)) isReturning =
          connections.length + p.finished.length
        omega
      · have moved := standing_update p.users (returns other) thread (.returning sql)
        have placed := sound.placed other
        have none : (returns other (p.users thread)).toNat = 0 := by
          rw [taking]
          rfl
        have one : (returns other (.returning sql)).toNat = (decide (sql = other)).toNat := rfl
        rw [front, ← List.singleton_append, List.count_append, count_some] at placed
        show rest.count (some other) + standing (Function.update p.users thread (.returning sql))
          (returns other) = connections.count (some other) + p.finished.count other
        omega
      · exact sound.known.1 other (by rw [front]; exact List.mem_cons_of_mem _ member)
      · intro other same
        cases same
        exact sound.known.1 sql (by rw [front]; exact List.mem_cons_self)
      · exact sound.null (by rw [front]; exact List.mem_cons_of_mem _ member)
  | null thread rest taking front => cases alive
  | givenBack thread sql returning =>
      have some_known := sound.known.2 thread sql (by rw [returning]; rfl)
      have taking : standing (Function.update p.users thread (.querying sql)) isTaking =
          standing p.users isTaking := standing_stays (by rw [returning]; rfl)
      have leaves : standing (Function.update p.users thread (.querying sql)) isReturning + 1 =
          standing p.users isReturning := standing_leaves (by rw [returning]; rfl) rfl
      have counted := sound.counted
      have grown := sound.grown
      refine ⟨?_, ?_, fun other => ?_, ⟨known_freed sound some_known, held_update sound.known.2 ?_⟩,
        null_freed sound⟩
      · show (p.connQue ++ [some sql]).length =
          p.semId + 1 + standing (Function.update p.users thread (.querying sql)) isTaking
        rw [List.length_append, List.length_singleton]
        omega
      · show (p.connQue ++ [some sql]).length + standing
          (Function.update p.users thread (.querying sql))
          isReturning = connections.length + p.finished.length
        rw [List.length_append, List.length_singleton]
        omega
      · have moved := standing_update p.users (returns other) thread (.querying sql)
        have placed := sound.placed other
        have one : (returns other (p.users thread)).toNat = (decide (sql = other)).toNat := by
          rw [returning]
          rfl
        have none : (returns other (.querying sql)).toNat = 0 := rfl
        show (p.connQue ++ [some sql]).count (some other) + standing (Function.update p.users thread
          (.querying sql)) (returns other) = connections.count (some other) + p.finished.count other
        rw [List.count_append, count_some]
        omega
      · intro other same
        cases same
        exact some_known
  | failed thread sql querying =>
      exact sound.move thread .idle (by rw [querying]; rfl) (by rw [querying]; rfl)
        (fun _ => by rw [querying]; rfl) rfl
  | finished thread sql querying =>
      have some_known := sound.known.2 thread sql (by rw [querying]; rfl)
      have taking : standing (Function.update p.users thread .idle) isTaking =
          standing p.users isTaking := standing_stays (by rw [querying]; rfl)
      have returning : standing (Function.update p.users thread .idle) isReturning =
          standing p.users isReturning := standing_stays (by rw [querying]; rfl)
      have counted := sound.counted
      have grown := sound.grown
      refine ⟨?_, ?_, fun other => ?_,
        ⟨known_freed sound some_known, held_update sound.known.2 nofun⟩,
        null_freed sound⟩
      · show (p.connQue ++ [some sql]).length =
          p.semId + 1 + standing (Function.update p.users thread .idle) isTaking
        rw [List.length_append, List.length_singleton]
        omega
      · show (p.connQue ++ [some sql]).length + standing (Function.update p.users thread .idle)
          isReturning = connections.length + (p.finished ++ [sql]).length
        rw [List.length_append, List.length_singleton, List.length_append, List.length_singleton]
        omega
      · have same : standing (Function.update p.users thread .idle) (returns other) =
            standing p.users (returns other) := standing_stays (by rw [querying]; rfl)
        have placed := sound.placed other
        show (p.connQue ++ [some sql]).count (some other) + standing (Function.update p.users thread
          .idle) (returns other) = connections.count (some other) +
            (p.finished ++ [sql]).count other
        rw [List.count_append, count_some, List.count_append, count_one]
        omega

omit [DecidableEq A] in
theorem sound_start : Sound connections (start connections : Pool A Conn) := by
  have nobody {holds : UserAt Conn → Bool} (idle : holds .idle = false) :
      standing (start connections : Pool A Conn).users holds = 0 := standing_eq_zero fun _ => idle
  refine ⟨?_, ?_, fun sql => ?_, ⟨fun _ member => member, nofun⟩, fun member => member⟩
  · rw [nobody rfl]
    rfl
  · rw [nobody rfl]
    rfl
  · rw [nobody rfl]
    rfl

theorem Reached.sound (reached : Reached connections p) (alive : p.aborted = false) :
    Sound connections p := by
  induction reached with
  | start => exact sound_start
  | step action reached stepped ih =>
      obtain ⟨change, before⟩ := change_of_step stepped
      exact sound_step change (ih before) alive

/-- Until an assertion fails the queue is never empty for a thread that is past sem_wait, and
each connection is in it, or on its way back, once more for every call that came to its end
with it. -/
theorem connections_accounted (reached : Reached connections p) (alive : p.aborted = false) :
    p.connQue.length = p.semId + standing p.users isTaking ∧
    (∀ thread, p.users thread = .taking → p.connQue ≠ []) ∧
    p.connQue.length + standing p.users isReturning = connections.length + p.finished.length ∧
    ∀ sql, p.connQue.count (some sql) + standing p.users (returns sql) =
      connections.count (some sql) + p.finished.count sql := by
  have sound := reached.sound alive
  refine ⟨sound.counted, fun thread taking empty => ?_, sound.grown, sound.placed⟩
  have some_taking : 0 < standing p.users isTaking :=
    standing_pos (show isTaking (p.users thread) = true by rw [taking]; rfl)
  have counted := sound.counted
  rw [empty, List.length_nil] at counted
  omega

theorem connections_accounted_taken : ∃ p : Pool Unit Nat, p.connQue.length = p.semId +
      standing p.users isTaking ∧
    (∀ thread, p.users thread = .taking → p.connQue ≠ []) ∧
    p.connQue.length + standing p.users isReturning = 1 + p.finished.length ∧
    ∀ sql, p.connQue.count (some sql) + standing p.users (returns sql) =
      [some 4].count (some sql) + p.finished.count sql :=
  have called : Reached [some 4] (_ : Pool Unit Nat) := .step (.call ()) .start rfl
  have checked : Reached [some 4] (_ : Pool Unit Nat) := .step (.check ()) called rfl
  have waited : Reached [some 4] (_ : Pool Unit Nat) := .step (.wait ()) checked rfl
  ⟨_, connections_accounted waited rfl⟩

section Busy

end Busy

section Sharing

def run (p : Pool A Conn) : List (Action A) → Option (Pool A Conn)
  | [] => some p
  | action :: rest => (p.step action).bind fun next => next.run rest

variable {thread user : A} {sql front : Conn} {rest : List (Option Conn)} {semId : Nat}

omit [Fintype A] [DecidableEq Conn] in
theorem step_alive (alive : p.aborted = false) (action : Action A) : p.step action = p.act action :=
  if_neg (by rw [alive]; exact nofun)

omit [Fintype A] [DecidableEq Conn] in
theorem call_step (alive : p.aborted = false) (idle : p.users user = .idle) :
    p.step (.call user) = some (p.userTo user .checking) := by
  rw [step_alive alive]
  show p.call user = _
  unfold call
  rw [idle]

omit [Fintype A] [DecidableEq Conn] in
theorem check_step (alive : p.aborted = false) (checking : p.users user = .checking)
    (filled : p.connQue = some front :: rest) :
    p.step (.check user) = some (p.userTo user .waiting) := by
  rw [step_alive alive]
  show p.check user = _
  unfold check
  rw [checking, filled]
  rfl

omit [Fintype A] [DecidableEq Conn] in
theorem wait_step (alive : p.aborted = false) (waiting : p.users user = .waiting)
    (free : p.semId = semId + 1) :
    p.step (.wait user) = some { p.userTo user .taking with semId := semId } := by
  rw [step_alive alive]
  show p.wait user = _
  unfold wait
  rw [waiting, free]

omit [Fintype A] [DecidableEq Conn] in
theorem take_step (alive : p.aborted = false) (taking : p.users user = .taking)
    (filled : p.connQue = some front :: rest) :
    p.step (.take user) = some { p.userTo user (.returning front) with connQue := rest } := by
  rw [step_alive alive]
  show p.take user = _
  unfold take
  rw [taking, filled]

omit [Fintype A] [DecidableEq Conn] in
theorem give_back_step (alive : p.aborted = false) (returning : p.users user = .returning sql) :
    p.step (.giveBack user) = some ((p.userTo user (.querying sql)).freeConn sql) := by
  rw [step_alive alive]
  show p.giveBack user = _
  unfold giveBack
  rw [returning]

omit [Fintype A] [DecidableEq Conn] in
theorem finish_step (alive : p.aborted = false) (querying : p.users user = .querying sql) :
    ∃ after, p.step (.finish user) = some after ∧ after.users = Function.update p.users user .idle ∧
      after.connQue = p.connQue ++ [some sql] ∧ after.semId = p.semId + 1 ∧
      after.aborted = false := by
  refine ⟨{ (p.userTo user .idle).freeConn sql with finished := p.finished ++ [sql] }, ?_,
    rfl, rfl, rfl,
    alive⟩
  rw [step_alive alive]
  show p.finish user = _
  unfold finish
  rw [querying]

omit [Fintype A] [DecidableEq Conn] in
theorem run_step {action : Action A} {actions : List (Action A)} {last : Pool A Conn}
    (stepped : p.step action = some next) (runs : next.run actions = some last) :
    p.run (action :: actions) = some last := by
  show (p.step action).bind _ = _
  rw [stepped]
  exact runs

omit [Fintype A] [DecidableEq Conn] in
theorem run_append {actions later : List (Action A)} {last : Pool A Conn}
    (first : p.run actions = some next) (second : next.run later = some last) :
    p.run (actions ++ later) = some last := by
  induction actions generalizing p with
  | nil =>
      cases first
      exact second
  | cons action actions ih =>
      obtain ⟨middle, stepped, runs⟩ := Option.bind_eq_some_iff.mp first
      exact run_step stepped (ih runs)

/-- The steps of a thread up to its first query. -/
def acquiring (thread : A) : List (Action A) :=
  [.call thread, .check thread, .wait thread, .take thread, .giveBack thread]

omit [Fintype A] [DecidableEq Conn] in
/-- A thread alone queries over the first connection, which goes to the back of the queue. -/
theorem acquires (alive : p.aborted = false) (idle : p.users user = .idle) (free : 0 < p.semId)
    (items : p.connQue = some front :: rest) : ∃ last, p.run (acquiring user) = some last ∧
    last.users = Function.update p.users user (.querying front) ∧
    last.connQue = rest ++ [some front] ∧ last.semId = p.semId ∧ last.aborted = false := by
  obtain ⟨semId, counted⟩ := Nat.exists_eq_add_one_of_ne_zero (Nat.ne_of_gt free)
  have at_place (users : A → UserAt Conn) (place : UserAt Conn) :
      Function.update users user place user = place := Function.update_self ..
  refine ⟨_, run_step (call_step alive idle) (run_step (check_step alive (at_place ..) items)
    (run_step (wait_step alive (at_place ..) counted)
      (run_step (take_step alive (at_place ..) items)
      (run_step (give_back_step alive (at_place ..)) rfl)))), ?_, rfl, counted.symm, alive⟩
  simp only [freeConn, userTo, Function.update_idem]

omit [DecidableEq A] [Fintype A] [DecidableEq Conn] in
theorem acquiring_own (action : Action A) (member : action ∈ acquiring user) :
    action.thread = user := by
  simp only [acquiring, List.mem_cons, List.not_mem_nil, or_false] at member
  rcases member with rfl | rfl | rfl | rfl | rfl <;> rfl

omit [Fintype A] [DecidableEq Conn] in
/-- Call after call takes the next connection from the front and puts it in twice at the back,
so that a thread alone comes to each that is in the queue. -/
theorem comes_to (ahead : List (Option Conn)) (behind : List (Option Conn))
    (connected : none ∉ ahead)
    (alive : p.aborted = false) (idle : p.users user = .idle) (free : 0 < p.semId)
    (items : p.connQue = ahead ++ some sql :: behind) :
    ∃ actions last, (∀ action ∈ actions, action.thread = user) ∧ p.run actions = some last ∧
      last.users user = .querying sql ∧ ∀ other, other ≠ user →
      last.users other = p.users other := by
  induction ahead generalizing p behind with
  | nil =>
      obtain ⟨last, runs, users, -, -, -⟩ := acquires alive idle free items
      refine ⟨_, last, acquiring_own, runs, ?_, fun other apart => ?_⟩
      · rw [users, Function.update_self]
      · rw [users, Function.update_of_ne apart]
  | cons first ahead ih =>
      cases first with
      | none => exact absurd List.mem_cons_self connected
      | some front =>
          have filled : p.connQue = some front :: (ahead ++ some sql :: behind) := items
          obtain ⟨middle, acquired, users, queue, -, living⟩ := acquires alive idle free filled
          obtain ⟨after, finished, places, queued, semId, lives⟩ :=
            finish_step living (by rw [users, Function.update_self])
          have ahead_now : after.connQue =
              ahead ++ some sql :: (behind ++ [some front, some front]) := by
            rw [queued, queue, List.append_assoc, List.append_assoc]
            rfl
          obtain ⟨actions, last, own, runs, querying, others⟩ := ih _
            (fun member => connected (List.mem_cons_of_mem _ member)) lives
            (by rw [places, Function.update_self]) (by rw [semId]; exact Nat.succ_pos _) ahead_now
          refine ⟨acquiring user ++ .finish user :: actions, last, ?_,
            run_append acquired (run_step finished runs), querying, fun other apart => ?_⟩
          · intro action member
            rcases List.mem_append.mp member with before | later
            · exact acquiring_own action before
            · rcases List.mem_cons.mp later with same | after
              · rw [same]
                rfl
              · exact own action after
          · rw [others other apart, places, Function.update_of_ne apart, users,
              Function.update_of_ne apart]

/-- A connection over which a thread queries is in the queue, or another thread is about to put
it there. When nobody is between sem_wait and the end of the SqlConnRAII, any thread that calls
UserVerify often enough comes to query over it as well, while the first still does. -/
theorem connection_shared (reached : Reached connections p) (alive : p.aborted = false)
    (querying : p.users thread = .querying sql) :
    (some sql ∈ p.connQue ∨ ∃ other, p.users other = .returning sql) ∧
    ((∀ other, isTaking (p.users other) = false ∧ isReturning (p.users other) = false) →
      none ∉ connections → ∀ user, p.users user = .idle →
      ∃ actions last, (∀ action ∈ actions, action.thread = user) ∧ p.run actions = some last ∧
        last.users thread = .querying sql ∧ last.users user = .querying sql) := by
  have sound := reached.sound alive
  have member : some sql ∈ connections := sound.known.2 thread sql (by rw [querying]; rfl)
  have somewhere : 0 < p.connQue.count (some sql) + standing p.users (returns sql) := by
    rw [sound.placed]
    exact Nat.add_pos_left (List.count_pos_iff.mpr member) _
  have free : some sql ∈ p.connQue ∨ ∃ other, p.users other = .returning sql := by
    by_contra nowhere
    rw [not_or, not_exists] at nowhere
    have none : standing p.users (returns sql) = 0 := standing_eq_zero fun other => by
      cases place : p.users other with
      | returning held =>
          refine decide_eq_false fun same => nowhere.2 other ?_
          rw [place, same]
      | _ => rfl
    rw [none, List.count_eq_zero_of_not_mem nowhere.1] at somewhere
    exact absurd somewhere (Nat.lt_irrefl 0)
  refine ⟨free, fun quiet connected user idle => ?_⟩
  have queued : some sql ∈ p.connQue := by
    rcases free with queued | ⟨other, returning⟩
    · exact queued
    · have none := (quiet other).2
      rw [returning] at none
      cases none
  obtain ⟨ahead, behind, items⟩ := List.append_of_mem queued
  have counted := sound.counted
  rw [standing_eq_zero fun other => (quiet other).1, items, List.length_append,
    List.length_cons] at counted
  obtain ⟨actions, last, own, runs, uses, others⟩ := comes_to ahead behind
    (fun null => connected (sound.null (by rw [items]; exact List.mem_append_left _ null)))
    alive idle (by omega) items
  refine ⟨actions, last, own, runs, ?_, uses⟩
  have apart : thread ≠ user := fun same => by
    rw [same, idle] at querying
    cases querying
  rw [others thread apart, querying]

theorem connection_shared_two : ∃ p : Pool Bool Nat,
    (some 4 ∈ p.connQue ∨ ∃ other, p.users other = .returning 4) ∧
    ((∀ other, isTaking (p.users other) = false ∧ isReturning (p.users other) = false) →
      none ∉ [some 4] → ∀ user, p.users user = .idle →
      ∃ actions last, (∀ action ∈ actions, action.thread = user) ∧ p.run actions = some last ∧
        last.users true = .querying 4 ∧ last.users user = .querying 4) :=
  have called : Reached [some 4] (_ : Pool Bool Nat) := .step (.call true) .start rfl
  have checked : Reached [some 4] (_ : Pool Bool Nat) := .step (.check true) called rfl
  have waited : Reached [some 4] (_ : Pool Bool Nat) := .step (.wait true) checked rfl
  have taken : Reached [some 4] (_ : Pool Bool Nat) := .step (.take true) waited rfl
  have back : Reached [some 4] (_ : Pool Bool Nat) := .step (.giveBack true) taken rfl
  ⟨_, connection_shared back rfl rfl⟩

end Sharing

end Pool

end StudyWebServer.WebServer.SqlConnPool
