import StudyWebServer.Library.Loop
import StudyWebServer.WebServer.Buffer

/-!
HttpConn::write of WebServer-master/code/http, and OnWrite_ of the server, which calls it
for each EPOLLOUT event. The results of writev are a parameter: an error number, or how
many bytes it takes of those it is given.
-/

namespace StudyWebServer.WebServer

inductive Errno where
  | again
  | other
  deriving DecidableEq

structure ConnWrite where
  writeBuff : Buffer
  /-- what `iov_[0]` and `iov_[1]` still hold -/
  head : Bytes
  file : Bytes
  /-- `iovCnt_` is 2 -/
  both : Bool
  /-- the bytes that writev took -/
  sent : Bytes
  deriving DecidableEq

abbrev Writev := Errno ⊕ Nat

namespace ConnWrite

/-- What the call before returned, and the state of the loop. -/
structure WriteLoop where
  conn : ConnWrite
  /-- the number of calls to writev -/
  calls : Nat

def toWriteBytes (c : ConnWrite) : Int :=
  MachineInt.toInt (sizeT (c.head.length + c.file.length))

/-- The bytes that writev is given. -/
def given (c : ConnWrite) : Bytes := if c.both then c.head ++ c.file else c.head

/-- The vectors and the buffer after writev took `len` bytes. -/
def advance (c : ConnWrite) (len : Nat) : Except Fault ConnWrite :=
  let c := { c with sent := c.sent ++ c.given.take len }
  if c.head.length < len then
    .ok { c with
      file := c.file.drop (len - c.head.length)
      writeBuff := if c.head.length = 0 then c.writeBuff else c.writeBuff.retrieveAll
      head := [] }
  else
    match c.writeBuff.retrieve len with
    | .error fault => .error fault
    | .ok writeBuff => .ok { c with head := c.head.drop len, writeBuff := writeBuff }

/-- The result of writev: no more than what it was given. -/
def taken (c : ConnWrite) : Writev → Writev
  | .inl errno => .inl errno
  | .inr len => .inr (min len c.given.length)

def writeRound (isET : Bool) (os : Nat → Writev) (s : WriteLoop) :
    WriteLoop ⊕ Except Fault (ConnWrite × Writev) :=
  match s.conn.taken (os s.calls) with
  | .inl errno => .inr (.ok (s.conn, .inl errno))
  | .inr len =>
      if len = 0 then .inr (.ok (s.conn, .inr 0))
      else
        if sizeT (s.conn.head.length + s.conn.file.length) = 0 then .inr (.ok (s.conn, .inr len))
        else
          match s.conn.advance len with
          | .error fault => .inr (.error fault)
          | .ok next =>
              if isET ∨ 10240 < next.toWriteBytes then .inl ⟨next, s.calls + 1⟩
              else .inr (.ok (next, .inr len))

/-- The bytes that writev takes are the first ones. -/
theorem advance_given {c next : ConnWrite} {len : Nat} (most : len ≤ c.given.length)
    (went : c.advance len = .ok next) : next.given = c.given.drop len ∧ next.both = c.both ∧
      next.sent = c.sent ++ c.given.take len := by
  unfold advance at went
  dsimp only at went
  by_cases behind : c.head.length < len
  · rw [if_pos behind] at went
    cases went
    refine ⟨?_, rfl, rfl⟩
    cases vectors : c.both with
    | true =>
        simp only [given, vectors, if_true, List.nil_append]
        rw [List.drop_append, List.drop_eq_nil_of_le behind.le, List.nil_append]
    | false =>
        simp only [given, vectors] at most
        exact absurd behind (Nat.not_lt.mpr most)
  · rw [if_neg behind] at went
    split at went
    · cases went
    · cases went
      refine ⟨?_, rfl, rfl⟩
      cases vectors : c.both with
      | true =>
          simp only [given, vectors, if_true]
          rw [List.drop_append_of_le_length (Nat.not_lt.mp behind)]
      | false => simp [given, vectors]

theorem write_decreases (isET : Bool) (os : Nat → Writev) :
    Loop.Decreases (writeRound isET os) fun s => s.conn.given.length := by
  intro s next round
  unfold writeRound at round
  split at round
  · cases round
  · next len taken =>
      split_ifs at round with none empty
      split at round
      · cases round
      · next after went =>
          split_ifs at round
          cases round
          have most : len ≤ s.conn.given.length := by
            unfold ConnWrite.taken at taken
            split at taken
            · cases taken
            · cases taken
              exact Nat.min_le_right _ _
          dsimp only
          rw [(advance_given most went).1, List.length_drop]
          omega

/-- The result of the last call to writev is returned, with the bytes it took. -/
def write (isET : Bool) (os : Nat → Writev) (c : ConnWrite) : Except Fault (ConnWrite × Writev) :=
  Loop.run (writeRound isET os) (fun s => s.conn.given.length) (write_decreases isET os) ⟨c, 0⟩

/-- How OnWrite_ goes on: with the next request, with EPOLLOUT again, or by closing. -/
inductive Outcome where
  | process
  | writable
  | close
  deriving DecidableEq

def onWrite (isET keepAlive : Bool) (os : Nat → Writev) (c : ConnWrite) :
    Except Fault (ConnWrite × Outcome) :=
  match c.write isET os with
  | .error fault => .error fault
  | .ok (next, ret) =>
      if next.toWriteBytes = 0 then .ok (next, if keepAlive then .process else .close)
      else if ret = .inl .again then .ok (next, .writable)
      else .ok (next, .close)

/-- A response that process() has set up, or what is left of it, whose second vector is empty
unless writev takes it, and whose bytes ToWriteBytes can count. -/
structure Armed (c : ConnWrite) : Prop where
  wellFormed : c.writeBuff.WellFormed
  head : c.head = c.writeBuff.contents
  single : c.both = false → c.file = []
  small : c.given.length ≤ 2147483647

section Steps
variable {c next : ConnWrite} {len : Nat} {isET : Bool} {os : Nat → Writev} {ret : Writev}

theorem Armed.given_eq (armed : Armed c) : c.given = c.head ++ c.file := by
  cases vectors : c.both with
  | true => simp [given, vectors]
  | false => simp [given, vectors, armed.single vectors]

theorem Armed.size (armed : Armed c) : sizeT (c.head.length + c.file.length) = c.given.length := by
  have small := armed.small
  rw [armed.given_eq, List.length_append] at small ⊢
  unfold sizeT
  omega

theorem Armed.to_write_bytes (armed : Armed c) : c.toWriteBytes = c.given.length := by
  have small := armed.small
  rw [toWriteBytes, armed.size]
  exact MachineInt.toInt_of_fits
    (by unfold MachineInt.FitsInt MachineInt.intMin MachineInt.intMax; omega)

/-- The first vector stands for what the buffer holds. -/
structure Aligned (c : ConnWrite) : Prop where
  wellFormed : c.writeBuff.WellFormed
  head : c.head = c.writeBuff.contents

theorem advance_aligned (len : Nat) (aligned : Aligned c) :
    ∃ next, c.advance len = .ok next ∧ Aligned next ∧ (c.file = [] → next.file = []) ∧
      next.head.length ≤ c.head.length ∧ next.file.length ≤ c.file.length ∧
      next.writeBuff.buffer.length = c.writeBuff.buffer.length := by
  obtain ⟨wellFormed, head⟩ := aligned
  by_cases behind : c.head.length < len
  · obtain ⟨cleared, empty, size⟩ := Buffer.retrieve_all_spec wellFormed
    refine ⟨_, if_pos behind, ⟨?_, ?_⟩, fun none => ?_, Nat.zero_le _, ?_, ?_⟩
    · show Buffer.WellFormed (if c.head.length = 0 then c.writeBuff else c.writeBuff.retrieveAll)
      split_ifs
      · exact wellFormed
      · exact cleared
    · show [] = Buffer.contents (if c.head.length = 0 then c.writeBuff else c.writeBuff.retrieveAll)
      split_ifs with nothing
      · rw [← head, List.eq_nil_of_length_eq_zero nothing]
      · exact empty.symm
    · show c.file.drop _ = []
      rw [none, List.drop_nil]
    · show (c.file.drop _).length ≤ _
      rw [List.length_drop]
      exact Nat.sub_le _ _
    · show (if c.head.length = 0 then c.writeBuff else c.writeBuff.retrieveAll).buffer.length = _
      split_ifs
      · rfl
      · exact size
  · have enough : len ≤ c.writeBuff.contents.length := by
      rw [← head]
      omega
    obtain ⟨writeBuff, retrieved, good, contents, size⟩ := Buffer.retrieve_spec wellFormed enough
    refine ⟨{ c with
      sent := c.sent ++ c.given.take len, head := c.head.drop len, writeBuff := writeBuff }, ?_,
      ⟨good, ?_⟩, id, ?_, Nat.le_refl _, size⟩
    · unfold advance
      dsimp only
      rw [if_neg behind, retrieved]
    · show c.head.drop len = writeBuff.contents
      rw [contents, head]
    · show (c.head.drop len).length ≤ _
      rw [List.length_drop]
      exact Nat.sub_le _ _

theorem advance_armed (armed : Armed c) (most : len ≤ c.given.length) :
    ∃ next, c.advance len = .ok next ∧ Armed next := by
  obtain ⟨wellFormed, head, single, small⟩ := armed
  obtain ⟨next, went, aligned, alone, -⟩ := advance_aligned len ⟨wellFormed, head⟩
  obtain ⟨rest, vectors, -⟩ := advance_given most went
  refine ⟨next, went, aligned.wellFormed, aligned.head,
    fun one => alone (single (vectors ▸ one)), ?_⟩
  rw [rest, List.length_drop]
  omega

/-- What a call to write leaves, with the result of its last writev. -/
structure Wrote (isET : Bool) (os : Nat → Writev) (c next : ConnWrite) (ret : Writev) : Prop where
  armed : Armed next
  bytes : next.sent ++ next.given = c.sent ++ c.given
  failed : ∀ errno, ret = .inl errno → ∃ k, os k = .inl errno
  none : ret = .inr 0 → next.given = []
  stopped : ∀ len, ret = .inr (len + 1) → isET = false ∧ next.given.length ≤ 10240

/-- A round of the loop ends it with an error, with nothing left to write, or, unless the
connection is edge-triggered, with little left. -/
theorem write_run (takes : ∀ k, os k ≠ .inr 0) (armed : Armed c) (k : Nat) : ∃ next ret,
    Loop.run (writeRound isET os) (fun s => s.conn.given.length) (write_decreases isET os) ⟨c, k⟩ =
      .ok (next, ret) ∧ Wrote isET os c next ret := by
  induction size : c.given.length using Nat.strongRecOn generalizing c k with
  | ind count ih =>
      cases result : os k with
      | inl errno =>
          refine ⟨c, .inl errno, Loop.run_return ?_, armed, rfl, fun _ same => ⟨k, same ▸ result⟩,
            (fun same => nomatch same), (fun len same => nomatch same)⟩
          simp only [writeRound, taken, result]
      | inr len =>
          have some : len ≠ 0 := by
            rintro rfl
            exact takes k result
          rcases Nat.eq_zero_or_pos c.given.length with empty | filled
          · refine ⟨c, .inr 0, Loop.run_return ?_, armed, rfl, (fun _ same => nomatch same),
              fun _ => List.eq_nil_of_length_eq_zero empty,
                fun len same => nomatch Sum.inr.inj same⟩
            simp only [writeRound, taken, result, empty, Nat.min_zero, if_true]
          · have most : min len c.given.length ≤ c.given.length := Nat.min_le_right _ _
            have goes : min len c.given.length ≠ 0 := by omega
            have whole : sizeT (c.head.length + c.file.length) ≠ 0 := by
              rw [armed.size]
              exact filled.ne'
            obtain ⟨next, went, good⟩ := advance_armed armed most
            obtain ⟨rest, -, sent⟩ := advance_given most went
            have bytes : next.sent ++ next.given = c.sent ++ c.given := by
              rw [sent, rest, List.append_assoc, List.take_append_drop]
            by_cases more : isET = true ∨ 10240 < next.toWriteBytes
            · have round : writeRound isET os ⟨c, k⟩ = .inl ⟨next, k + 1⟩ := by
                simp only [writeRound, taken, result, goes, whole, if_false, went, more, if_true]
              have smaller := write_decreases isET os ⟨c, k⟩ _ round
              obtain ⟨last, ret, ran, wrote⟩ := ih _ (size ▸ smaller) good (k + 1) rfl
              exact ⟨last, ret, (Loop.run_again round).trans ran, wrote.armed,
                wrote.bytes.trans bytes, wrote.failed, wrote.none, wrote.stopped⟩
            · refine ⟨next, .inr (min len c.given.length), Loop.run_return ?_, good, bytes,
                (fun _ same => nomatch same), ?_, ?_⟩
              · simp only [writeRound, taken, result, goes, whole, if_false, went, more]
              · exact fun same => absurd (Sum.inr.inj same) goes
              · intro _ _
                rw [not_or, good.to_write_bytes] at more
                exact ⟨Bool.eq_false_iff.mpr more.1, by omega⟩

end Steps

/-- What an EPOLLOUT event does, with the result of its last writev. -/
theorem on_write_spec {c : ConnWrite} {os : Nat → Writev} (isET keepAlive : Bool)
    (takes : ∀ k, os k ≠ .inr 0) (armed : Armed c) : ∃ next ret,
    Wrote isET os c next ret ∧ c.onWrite isET keepAlive os = .ok (next,
      if next.given = [] then if keepAlive then .process else .close
      else if ret = .inl .again then .writable else .close) := by
  obtain ⟨next, ret, ran, wrote⟩ := @write_run c isET os takes armed 0
  refine ⟨next, ret, wrote, ?_⟩
  have empty : next.toWriteBytes = 0 ↔ next.given = [] := by
    rw [wrote.armed.to_write_bytes]
    exact Int.natCast_eq_zero.trans List.length_eq_zero_iff
  simp only [onWrite, write, ran]
  split_ifs <;> simp_all

/-- EPOLLOUT events, after each of which the connection waits for another one. -/
inductive Sending (isET keepAlive : Bool) (c : ConnWrite) : ConnWrite → Prop where
  | start : Sending isET keepAlive c c
  | event {b next : ConnWrite} {os : Nat → Writev} (sending : Sending isET keepAlive c b)
      (takes : ∀ k, os k ≠ .inr 0) (went : b.onWrite isET keepAlive os = .ok (next, .writable)) :
      Sending isET keepAlive c next

section Runs
variable {c b : ConnWrite} {isET keepAlive : Bool} {os : Nat → Writev}

theorem Sending.kept (sending : Sending isET keepAlive c b) (armed : Armed c) :
    Armed b ∧ b.sent ++ b.given = c.sent ++ c.given := by
  induction sending with
  | start => exact ⟨armed, rfl⟩
  | @event b after os sending takes went ih =>
      obtain ⟨good, bytes⟩ := ih
      obtain ⟨next, ret, wrote, result⟩ := on_write_spec isET keepAlive takes good
      obtain rfl : next = after := congrArg Prod.fst (Except.ok.inj (result.symm.trans went))
      exact ⟨wrote.armed, wrote.bytes.trans bytes⟩

/-- When level-triggered, a writev that leaves no more than 10240 bytes has the connection
closed before they are sent. -/
theorem level_triggered_cuts (keepAlive : Bool) (armed : Armed c) {len : Nat}
    (first : os 0 = .inr len) (some : 0 < len) (part : len < c.given.length)
    (little : c.given.length ≤ len + 10240) :
    ∃ next, c.onWrite false keepAlive os = .ok (next, .close) ∧
      next.sent = c.sent ++ c.given.take len ∧ next.given = c.given.drop len ∧ next.given ≠ [] := by
  obtain ⟨next, went, good⟩ := advance_armed armed part.le
  obtain ⟨rest, -, sent⟩ := advance_given part.le went
  have left : next.given.length = c.given.length - len := by
    rw [rest, List.length_drop]
  have whole : sizeT (c.head.length + c.file.length) ≠ 0 := by
    rw [armed.size]
    omega
  have ends : ¬ (false = true ∨ 10240 < next.toWriteBytes) := by
    rw [good.to_write_bytes]
    rintro (absurd | more)
    · cases absurd
    · omega
  have wrote : c.write false os = .ok (next, .inr len) := by
    apply Loop.run_return
    simp only [writeRound, taken, first, Nat.min_eq_left part.le, some.ne', whole, if_false, went,
      ends]
  have waits : next.toWriteBytes ≠ 0 := by
    rw [good.to_write_bytes]
    omega
  refine ⟨next, ?_, sent, rest, ?_⟩
  · simp only [onWrite, wrote, waits, if_false]
    rfl
  · rintro empty
    rw [empty] at left
    simp only [List.length_nil] at left
    omega

/-- A response goes out in order and without loss. The next request is taken up exactly when
all of it was sent on a connection to be kept. It is closed with bytes left only after an
error or, when level-triggered, with no more than 10240 of them, and then always. -/
theorem response_sent (armed : Armed c) (sending : Sending isET keepAlive c b)
    (takes : ∀ k, os k ≠ .inr 0) : ∃ next outcome,
    b.onWrite isET keepAlive os = .ok (next, outcome) ∧
      next.sent ++ next.given = c.sent ++ c.given ∧
      (outcome = .process ↔ next.given = [] ∧ keepAlive = true) ∧
      (outcome = .close → next.given = [] ∨ (∃ k, os k = .inl .other) ∨
        isET = false ∧ next.given.length ≤ 10240) ∧
      (∀ len, os 0 = .inr len → len < b.given.length → b.given.length ≤ len + 10240 →
        isET = false → outcome = .close ∧ next.given ≠ []) := by
  obtain ⟨good, bytes⟩ := sending.kept armed
  obtain ⟨next, ret, wrote, result⟩ := on_write_spec isET keepAlive takes good
  refine ⟨next, _, result, wrote.bytes.trans bytes, ?_, fun closed => ?_,
    fun len first part little level => ?_⟩
  · by_cases all : next.given = []
    · cases keepAlive <;> simp [all]
    · by_cases again : ret = .inl .again <;> simp [all, again]
  · by_cases all : next.given = []
    · exact .inl all
    · right
      cases ret with
      | inl errno =>
          cases errno with
          | again => simp [all] at closed
          | other => exact .inl (wrote.failed .other rfl)
      | inr len =>
          cases len with
          | zero => exact absurd (wrote.none rfl) all
          | succ len => exact .inr (wrote.stopped len rfl)
  · have some : 0 < len := Nat.pos_of_ne_zero fun zero => takes 0 (zero ▸ first)
    subst level
    obtain ⟨last, cut, -, -, left⟩ :=
      level_triggered_cuts keepAlive good first some part little
    obtain ⟨rfl, closed⟩ := Prod.mk.inj (Except.ok.inj (result.symm.trans cut))
    exact ⟨closed, left⟩

/-- A connection that process() has set up for a response with a header of four bytes and a
file of three. -/
def small : ConnWrite where
  writeBuff := ⟨[72, 84, 84, 80], 0, 4⟩
  head := [72, 84, 84, 80]
  file := [1, 2, 3]
  both := true
  sent := []

theorem small_armed : Armed small :=
  ⟨⟨by decide, by decide, by decide⟩, rfl, (fun vectors => nomatch vectors), by decide⟩

/-- The first writev takes five of its seven bytes. -/
theorem response_sent_small : ∃ next,
    small.onWrite false true (fun k => if k = 0 then .inr 5 else .inl .again) = .ok (next, .close) ∧
      next.sent ++ next.given = [72, 84, 84, 80, 1, 2, 3] ∧ next.given ≠ [] := by
  obtain ⟨next, outcome, result, bytes, -, -, cut⟩ := @response_sent small small false true
    (fun k => if k = 0 then .inr 5 else .inl .again) small_armed .start fun k => by split <;> simp
  obtain ⟨rfl, left⟩ := cut 5 rfl (by decide) (by decide) rfl
  exact ⟨next, result, bytes, left⟩

end Runs

end ConnWrite

end StudyWebServer.WebServer
