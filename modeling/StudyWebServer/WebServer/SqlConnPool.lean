import StudyWebServer.Library.ThreadCount
import Mathlib.Tactic.SplitIfs

/-!
SqlConnPool of WebServer-master/code/pool and the threads that take a connection from it in
UserVerify of WebServer-master/code/http/httprequest.cpp. What is done under the mutex is one
step. SqlConnRAII is made there without a name, so that its destructor gives the connection
back before it is used; FreeConn at the end gives it back once more.
-/

namespace StudyWebServer.WebServer.SqlConnPool

open ThreadCount

/-- Where a thread stands in UserVerify. -/
inductive UserAt (Conn : Type) where
  | idle
  /-- before `connQue_.empty()` -/
  | checking
  /-- in `sem_wait(&semId_)` -/
  | waiting
  /-- behind it, before the mutex -/
  | taking
  /-- in the destructor of the SqlConnRAII -/
  | returning (sql : Conn)
  /-- from the first query on -/
  | querying (sql : Conn)
  deriving DecidableEq

structure Pool (A Conn : Type) where
  /-- a connection that failed is a null pointer -/
  connQue : List (Option Conn)
  semId : Nat
  users : A → UserAt Conn
  /-- `assert(sql)` has failed -/
  aborted : Bool
  /-- the connections of the calls that came to the FreeConn at the end -/
  finished : List Conn

inductive Action (A : Type) where
  | call (thread : A)
  | check (thread : A)
  | wait (thread : A)
  | take (thread : A)
  | giveBack (thread : A)
  /-- the first query fails -/
  | fail (thread : A)
  | finish (thread : A)

def Action.thread {A : Type} : Action A → A
  | .call thread => thread
  | .check thread => thread
  | .wait thread => thread
  | .take thread => thread
  | .giveBack thread => thread
  | .fail thread => thread
  | .finish thread => thread

namespace Pool
variable {A Conn : Type}

/-- The pool behind Init. -/
def start (connections : List (Option Conn)) : Pool A Conn where
  connQue := connections
  semId := connections.length
  users _ := .idle
  aborted := false
  finished := []

variable [DecidableEq A]

def userTo (p : Pool A Conn) (thread : A) (place : UserAt Conn) : Pool A Conn :=
  { p with users := Function.update p.users thread place }

def call (p : Pool A Conn) (thread : A) : Option (Pool A Conn) :=
  match p.users thread with
  | .idle => some (p.userTo thread .checking)
  | _ => none

/-- The first test of GetConn; the null pointer fails the assertion in UserVerify. -/
def check (p : Pool A Conn) (thread : A) : Option (Pool A Conn) :=
  match p.users thread with
  | .checking =>
      if p.connQue.isEmpty then some { p with aborted := true }
      else some (p.userTo thread .waiting)
  | _ => none

def wait (p : Pool A Conn) (thread : A) : Option (Pool A Conn) :=
  match p.users thread, p.semId with
  | .waiting, semId + 1 => some { p.userTo thread .taking with semId := semId }
  | _, _ => none

/-- There is no step on an empty queue: what front() and pop() do then is not defined. -/
def take (p : Pool A Conn) (thread : A) : Option (Pool A Conn) :=
  match p.users thread, p.connQue with
  | .taking, some sql :: rest => some { p.userTo thread (.returning sql) with connQue := rest }
  | .taking, none :: rest => some { p with connQue := rest, aborted := true }
  | _, _ => none

def freeConn (p : Pool A Conn) (sql : Conn) : Pool A Conn :=
  { p with connQue := p.connQue ++ [some sql], semId := p.semId + 1 }

def giveBack (p : Pool A Conn) (thread : A) : Option (Pool A Conn) :=
  match p.users thread with
  | .returning sql => some ((p.userTo thread (.querying sql)).freeConn sql)
  | _ => none

def fail (p : Pool A Conn) (thread : A) : Option (Pool A Conn) :=
  match p.users thread with
  | .querying _ => some (p.userTo thread .idle)
  | _ => none

def finish (p : Pool A Conn) (thread : A) : Option (Pool A Conn) :=
  match p.users thread with
  | .querying sql => some { (p.userTo thread .idle).freeConn sql with
      finished := p.finished ++ [sql] }
  | _ => none

def act (p : Pool A Conn) : Action A → Option (Pool A Conn)
  | .call thread => p.call thread
  | .check thread => p.check thread
  | .wait thread => p.wait thread
  | .take thread => p.take thread
  | .giveBack thread => p.giveBack thread
  | .fail thread => p.fail thread
  | .finish thread => p.finish thread

def step (p : Pool A Conn) (action : Action A) : Option (Pool A Conn) :=
  if p.aborted then none else p.act action

/-- What a step can do. -/
inductive Change (p : Pool A Conn) : Pool A Conn → Prop where
  | called (thread : A) (idle : p.users thread = .idle) : Change p (p.userTo thread .checking)
  | busy (thread : A) (checking : p.users thread = .checking) (empty : p.connQue = []) :
      Change p { p with aborted := true }
  | checked (thread : A) (checking : p.users thread = .checking) (filled : p.connQue ≠ []) :
      Change p (p.userTo thread .waiting)
  | waited (thread : A) (semId : Nat) (waiting : p.users thread = .waiting)
      (free : p.semId = semId + 1) : Change p { p.userTo thread .taking with semId := semId }
  | taken (thread : A) (sql : Conn) (rest : List (Option Conn)) (taking : p.users thread = .taking)
      (front : p.connQue = some sql :: rest) :
      Change p { p.userTo thread (.returning sql) with connQue := rest }
  | null (thread : A) (rest : List (Option Conn)) (taking : p.users thread = .taking)
      (front : p.connQue = none :: rest) : Change p { p with connQue := rest, aborted := true }
  | givenBack (thread : A) (sql : Conn) (returning : p.users thread = .returning sql) :
      Change p ((p.userTo thread (.querying sql)).freeConn sql)
  | failed (thread : A) (sql : Conn) (querying : p.users thread = .querying sql) :
      Change p (p.userTo thread .idle)
  | finished (thread : A) (sql : Conn) (querying : p.users thread = .querying sql) :
      Change p { (p.userTo thread .idle).freeConn sql with finished := p.finished ++ [sql] }

theorem change_of_step {p next : Pool A Conn} {action : Action A}
    (stepped : p.step action = some next) :
    Change p next ∧ p.aborted = false := by
  obtain ⟨alive, stepped⟩ := Option.ite_none_left_eq_some.mp stepped
  refine ⟨?_, Bool.eq_false_iff.mpr alive⟩
  cases action with
  | call thread =>
      dsimp only [act] at stepped
      unfold call at stepped
      split at stepped
      · next idle =>
          cases stepped
          exact .called thread idle
      · cases stepped
  | check thread =>
      dsimp only [act] at stepped
      unfold check at stepped
      split at stepped
      · next checking =>
          split_ifs at stepped with empty
          · cases stepped
            exact .busy thread checking (List.isEmpty_iff.mp empty)
          · cases stepped
            exact .checked thread checking fun nothing => empty (List.isEmpty_iff.mpr nothing)
      · cases stepped
  | wait thread =>
      dsimp only [act] at stepped
      unfold wait at stepped
      split at stepped
      · next semId waiting free =>
          cases stepped
          exact .waited thread semId waiting free
      · cases stepped
  | take thread =>
      dsimp only [act] at stepped
      unfold take at stepped
      split at stepped
      · next sql rest taking front =>
          cases stepped
          exact .taken thread sql rest taking front
      · next rest taking front =>
          cases stepped
          exact .null thread rest taking front
      · cases stepped
  | giveBack thread =>
      dsimp only [act] at stepped
      unfold giveBack at stepped
      split at stepped
      · next sql returning =>
          cases stepped
          exact .givenBack thread sql returning
      · cases stepped
  | fail thread =>
      dsimp only [act] at stepped
      unfold fail at stepped
      split at stepped
      · next sql querying =>
          cases stepped
          exact .failed thread sql querying
      · cases stepped
  | finish thread =>
      dsimp only [act] at stepped
      unfold finish at stepped
      split at stepped
      · next sql querying =>
          cases stepped
          exact .finished thread sql querying
      · cases stepped

inductive Reached (connections : List (Option Conn)) : Pool A Conn → Prop where
  | start : Reached connections (start connections)
  | step {p next : Pool A Conn} (action : Action A) (reached : Reached connections p)
      (stepped : p.step action = some next) : Reached connections next

end Pool

end StudyWebServer.WebServer.SqlConnPool
