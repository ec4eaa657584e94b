import Mathlib.Data.List.Basic
import Mathlib.Logic.Function.Basic
import Mathlib.Logic.Relation
import Mathlib.Tactic.SplitIfs

/-!
lesson04/31/epoll_et.c: what is read from a client and what is written back, over the
EPOLLIN events of any number of clients. A write takes all it is given. The printf calls
are left out.
-/

namespace StudyWebServer.Lesson04.EpollEcho

/-- The size of `buf`. -/
def bufSize : Nat := 5

structure Buf where
  bytes : List UInt8
  size : bytes.length = bufSize

/-- What a read with a result above zero returns. -/
structure Received where
  bytes : List UInt8
  some : bytes ≠ []
  fits : bytes.length ≤ bufSize

/-- The result of the read that ends the loop. -/
inductive Ending where
  /-- -1 with EAGAIN -/
  | again
  /-- 0 -/
  | closed
  /-- -1 with another error -/
  | failed

/-- An EPOLLIN event with the results of its reads. -/
structure Event (Client : Type) where
  client : Client
  reads : List Received
  ending : Ending

/-- `char buf[5] = {0}` -/
def Buf.zeros : Buf := ⟨List.replicate bufSize 0, List.length_replicate⟩

/-- A read stores its bytes at the start of `buf`. -/
def Buf.fill (buf : Buf) (read : Received) : Buf where
  bytes := read.bytes ++ buf.bytes.drop read.bytes.length
  size := by
    have fits := read.fits
    rw [List.length_append, List.length_drop, buf.size]
    omega

/-- What the loop writes: each time the whole of `buf`. -/
def echo : Buf → List Received → List UInt8
  | _, [] => []
  | buf, read :: rest => (buf.fill read).bytes ++ echo (buf.fill read) rest

structure Server (Client : Type) where
  /-- the reads from a client so far -/
  received : Client → List Received
  /-- the bytes written to it -/
  written : Client → List UInt8
  closed : Client → Bool
  exited : Bool

namespace Server
variable {Client : Type}

def start : Server Client where
  received _ := []
  written _ := []
  closed _ := false
  exited := false

def handle [DecidableEq Client] (s : Server Client) (event : Event Client) :
    Option (Server Client) :=
  if s.exited ∨ s.closed event.client then none
  else
    let s := { s with
      received := Function.update s.received event.client (s.received event.client ++ event.reads)
      written := Function.update s.written event.client
        (s.written event.client ++ echo .zeros event.reads) }
    match event.ending with
    | .again => some s
    | .closed => some { s with closed := Function.update s.closed event.client true }
    | .failed => some { s with exited := true }

def Reached [DecidableEq Client] : Server Client → Prop :=
  Relation.ReflTransGen (fun before after => ∃ event, before.handle event = some after) start

/-- The bytes that were read from a client. -/
def stream (s : Server Client) (client : Client) : List UInt8 :=
  (s.received client).flatMap Received.bytes

end Server

section Echo
variable {buf : Buf} {reads : List Received}

/-- A read that fills `buf` leaves nothing of it. -/
theorem fill_full {read : Received} (full : read.bytes.length = bufSize) :
    (buf.fill read).bytes = read.bytes := by
  show read.bytes ++ buf.bytes.drop read.bytes.length = read.bytes
  rw [full, ← buf.size, List.drop_length, List.append_nil]

theorem echo_full (full : ∀ read ∈ reads, read.bytes.length = bufSize) :
    echo buf reads = reads.flatMap Received.bytes := by
  induction reads generalizing buf with
  | nil => rfl
  | cons read rest ih =>
      have first := full read List.mem_cons_self
      have later := fun other member => full other (List.mem_cons_of_mem read member)
      rw [echo, fill_full first, ih later, List.flatMap_cons]

/-- Every read is answered with as many bytes as `buf` has. -/
theorem echo_length : (echo buf reads).length = bufSize * reads.length := by
  induction reads generalizing buf with
  | nil => rfl
  | cons read rest ih =>
      rw [echo, List.length_append, ih, (buf.fill read).size, List.length_cons, Nat.mul_succ,
        Nat.add_comm]

/-- That is more than was read, unless every read filled `buf`. -/
theorem stream_length : (reads.flatMap Received.bytes).length ≤ bufSize * reads.length ∧
    ((reads.flatMap Received.bytes).length = bufSize * reads.length →
      ∀ read ∈ reads, read.bytes.length = bufSize) := by
  induction reads with
  | nil => exact ⟨Nat.le_refl _, fun _ read member => by cases member⟩
  | cons read rest ih =>
      obtain ⟨bounded, exact_rest⟩ := ih
      have fits := read.fits
      rw [List.flatMap_cons, List.length_append, List.length_cons, Nat.mul_succ]
      refine ⟨by omega, fun same other member => ?_⟩
      rcases List.mem_cons.mp member with rfl | later
      · omega
      · exact exact_rest (by omega) other later

end Echo

namespace Server
variable {Client : Type} {s next : Server Client}

/-- A client was sent `buf` for each of its reads, and what it sent if all filled `buf`. -/
structure Echoes (s : Server Client) : Prop where
  length : ∀ client, (s.written client).length = bufSize * (s.received client).length
  same : ∀ client, (∀ read ∈ s.received client, read.bytes.length = bufSize) →
    s.written client = s.stream client

theorem Echoes.exact_iff (echoes : Echoes s) (client : Client) :
    s.written client = s.stream client ↔
      ∀ read ∈ s.received client, read.bytes.length = bufSize := by
  constructor
  · intro same
    have lengths := congrArg List.length same
    rw [echoes.length] at lengths
    exact stream_length.2 lengths.symm
  · exact echoes.same client

variable [DecidableEq Client]

theorem handle_cases {event : Event Client} (step : s.handle event = some next) :
    next.received = Function.update s.received event.client
    (s.received event.client ++ event.reads) ∧
      next.written = Function.update s.written event.client
        (s.written event.client ++ echo .zeros event.reads) := by
  simp only [handle] at step
  split_ifs at step
  cases ending : event.ending <;> rw [ending] at step <;> cases step <;> exact ⟨rfl, rfl⟩

theorem Echoes.handle {event : Event Client} (echoes : Echoes s)
    (step : s.handle event = some next) :
    Echoes next := by
  obtain ⟨received, written⟩ := handle_cases step
  constructor
  · intro client
    rw [received, written]
    by_cases same : client = event.client
    · subst same
      rw [Function.update_self, Function.update_self, List.length_append, List.length_append,
        echoes.length, echo_length, Nat.mul_add]
    · rw [Function.update_of_ne same, Function.update_of_ne same]
      exact echoes.length client
  · intro client
    rw [stream, received, written]
    by_cases same : client = event.client
    · subst same
      rw [Function.update_self, Function.update_self]
      intro full
      obtain ⟨before, now⟩ := List.forall_mem_append.mp full
      rw [echoes.same _ before, echo_full now, List.flatMap_append, stream]
    · rw [Function.update_of_ne same, Function.update_of_ne same]
      exact echoes.same client

theorem reached_echoes (reached : Reached s) : Echoes s := by
  induction reached with
  | refl => exact ⟨fun _ => rfl, fun _ _ => rfl⟩
  | tail _ step ih =>
      obtain ⟨event, handled⟩ := step
      exact ih.handle handled

/-- What was written to a client is what was read from it exactly if every read filled
`buf`, over any events. -/
theorem echo_exact (s : Server Client) (reached : Reached s) (client : Client) :
    s.written client = s.stream client ↔
      ∀ read ∈ s.received client, read.bytes.length = bufSize :=
  (reached_echoes reached).exact_iff client

def hello : Received := ⟨[104, 101, 108, 108, 111], by decide, by decide⟩

def hi : Received := ⟨[104, 105], by decide, by decide⟩

theorem echo_exact_hello : ∃ s : Server Unit, s.received () = [hello, hello] ∧
    s.written () = s.stream () := by
  have run : ∃ s : Server Unit, s.received () = [hello, hello] ∧ Reached s :=
    ⟨_, rfl, .tail .refl ⟨⟨(), [hello, hello], .again⟩, rfl⟩⟩
  obtain ⟨s, received, reached⟩ := run
  refine ⟨s, received, (echo_exact s reached ()).mpr ?_⟩
  rw [received]
  intro read member
  rcases List.mem_cons.mp member with rfl | last
  · rfl
  · rw [List.mem_singleton.mp last]
    rfl

/-- Seven bytes come back as ten: behind the two of the second read stand three of the
first. -/
theorem echo_stale : ¬ ∀ s : Server Unit, Reached s → s.written () = s.stream () := by
  intro all
  have run : ∃ s : Server Unit, s.written () = [104, 101, 108, 108, 111, 104, 105, 108, 108, 111] ∧
      s.received () = [hello, hi] ∧ Reached s :=
    ⟨_, rfl, rfl, .tail .refl ⟨⟨(), [hello, hi], .again⟩, rfl⟩⟩
  obtain ⟨s, written, received, reached⟩ := run
  have same := all s reached
  rw [written, stream, received] at same
  exact absurd same (by decide)

end Server

end StudyWebServer.Lesson04.EpollEcho
