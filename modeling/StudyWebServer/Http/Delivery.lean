import Mathlib.Data.List.Nodup
import Mathlib.Data.List.TakeDrop
import StudyWebServer.Http.ProcessWrite

/-!
write() over all the calls it takes to send one response. Each writev offers
m_iv from its start, and the loop ends when twice the bytes sent reach the
length of the header. The bytes the socket took are kept with the places they
came from, so that a byte sent twice shows.
-/

namespace StudyWebServer

open ByteMemory CString MachineInt Layout

def Effect.taken : Effect → List SentByte
  | .sent bytes => bytes
  | _ => []

/-- The bytes that the socket took. -/
def sentBytes (log : List Effect) : List SentByte := log.flatMap Effect.taken

/-- write() in its finished branch: with m_write_idx not 0 no other branch asks
for EPOLLIN. -/
def Effect.Finishes : Effect → Prop
  | .modfd _ .epollin => True
  | _ => False

def headerBytes (c : HttpConn) : List SentByte :=
  (List.range c.writeIdx).map fun k => ⟨.writeBuf, k, c.writeBuf k⟩

def fileBytes (pages : Memory) (c : HttpConn) : List SentByte :=
  (List.range c.fileStat.stSize).map fun k =>
    ⟨.file c.fileAddress, k, pages (c.fileAddress + k)⟩

/-- The header, and behind it the file when the answer is one. -/
def response (pages : Memory) (ret : HttpCode) (c : HttpConn) : List SentByte :=
  headerBytes c ++ if ret = .fileRequest then fileBytes pages c else []

/-- Calls of write(), each on the EPOLLOUT that the one before it asked for. -/
def writeCalls (pages : Memory) : List (List Writev) → HttpConn → Outcome Bool
  | [], c => ⟨true, c, []⟩
  | results :: later, c =>
      let call := write pages results c
      if call.log.getLast? = some (.modfd c.sockfd .epollout) then
        call.andThen (writeCalls pages later)
      else call

/-- In order, nothing twice, and finished only when everything was taken. -/
structure DeliveredOnce (response : List SentByte) (log : List Effect) : Prop where
  inOrder : ∀ count, sentBytes (log.take count) <+: response
  complete : ∀ before effect after, log = before ++ effect :: after → effect.Finishes →
    sentBytes before = response

/-- EAGAIN, or a count from 1 up to the bytes that m_iv describes. -/
def Writev.Allowed (total : Nat) (result : Writev) : Prop :=
  (result.ret = -1 ∧ result.again = true) ∨ (1 ≤ result.ret ∧ result.ret ≤ total)

/-- No byte is taken in any of the calls. -/
def Refused (calls : List (List Writev)) : Prop :=
  ∀ results ∈ calls, ∀ first rest, results = first :: rest → first.ret = -1

/-- The first count taken ends the response when it is all of it; when it is
less than half of the header, nothing must be taken after it. -/
def TakenAtOnce (header total : Nat) : List (List Writev) → Prop
  | [] => True
  | [] :: later => TakenAtOnce header total later
  | (first :: rest) :: later =>
      if first.ret = -1 then TakenAtOnce header total later
      else if (header : Int) ≤ 2 * toInt first.ret then first.ret = total
      else if 0 ≤ toInt first.ret then Refused (rest :: later)
      -- a count that an int does not hold is taken for an error
      else if first.again then Refused later
      else True

section Bytes

theorem header_bytes_nodup (c : HttpConn) : (headerBytes c).Nodup := by
  refine List.Nodup.map ?_ List.nodup_range
  intro one other same
  exact congrArg SentByte.offset same

theorem file_bytes_nodup (pages : Memory) (c : HttpConn) : (fileBytes pages c).Nodup := by
  refine List.Nodup.map ?_ List.nodup_range
  intro one other same
  exact congrArg SentByte.offset same

theorem response_nodup (pages : Memory) (ret : HttpCode) (c : HttpConn) :
    (response pages ret c).Nodup := by
  unfold response
  split_ifs
  · refine List.Nodup.append (header_bytes_nodup c) (file_bytes_nodup pages c) ?_
    intro byte inHeader inFile
    obtain ⟨_, _, rfl⟩ := List.mem_map.mp inHeader
    obtain ⟨_, _, same⟩ := List.mem_map.mp inFile
    exact absurd (congrArg SentByte.base same) (by simp)
  · rw [List.append_nil]
    exact header_bytes_nodup c

/-- m_iv describes the response that process_write prepared. -/
theorem Prepared.gathered {pages : Memory} {ret : HttpCode} {b c : HttpConn}
    (prepared : Prepared ret b c) : gathered pages c = response pages ret c := by
  by_cases file : ret = .fileRequest
  · obtain ⟨iv, count⟩ := prepared.file file
    simp [StudyWebServer.gathered, response, iovBytes, headerBytes, fileBytes, count,
      prepared.header, iv, file]
  · simp [StudyWebServer.gathered, response, iovBytes, headerBytes, prepared.form file,
      prepared.header, file]

/-- Two non-empty takes from the start of a list without repetitions are not in
its order. -/
theorem take_twice_not_initial {bytes : List SentByte} (nodup : bytes.Nodup) {first second : Nat}
    (one : 0 < first) (other : 0 < second) (nonempty : bytes ≠ []) :
    ¬ (bytes.take first ++ bytes.take second) <+: bytes := by
  intro initial
  have distinct := initial.sublist.nodup nodup
  obtain ⟨byte, rest, rfl⟩ := List.exists_cons_of_ne_nil nonempty
  obtain ⟨first, rfl⟩ := Nat.exists_eq_succ_of_ne_zero one.ne'
  obtain ⟨second, rfl⟩ := Nat.exists_eq_succ_of_ne_zero other.ne'
  exact (List.disjoint_of_nodup_append distinct) (a := byte) (by simp) (by simp)

end Bytes

section Logs
variable {response : List SentByte}

/-- An effect that neither hands over bytes nor ends the response. -/
def Effect.Silent (effect : Effect) : Prop := effect.taken = [] ∧ ¬ effect.Finishes

@[simp] theorem sent_bytes_nil : sentBytes [] = [] := rfl

@[simp] theorem sent_bytes_cons (effect : Effect) (log : List Effect) :
    sentBytes (effect :: log) = effect.taken ++ sentBytes log := rfl

@[simp] theorem sent_bytes_append (first second : List Effect) :
    sentBytes (first ++ second) = sentBytes first ++ sentBytes second := List.flatMap_append

theorem sent_bytes_none {log : List Effect} (none : ∀ effect ∈ log, effect.taken = []) :
    sentBytes log = [] := List.flatMap_eq_nil_iff.mpr none

theorem delivered_nil : DeliveredOnce response [] := by
  constructor
  · intro count
    rw [List.take_nil]
    exact List.nil_prefix
  · intro before effect after split
    cases before <;> cases split

theorem delivered_cons_silent {effect : Effect} (silent : effect.Silent) (log : List Effect) :
    DeliveredOnce response (effect :: log) ↔ DeliveredOnce response log := by
  constructor
  · intro delivered
    constructor
    · intro count
      have longer := delivered.inOrder (count + 1)
      rwa [List.take_succ_cons, sent_bytes_cons, silent.1, List.nil_append] at longer
    · intro before last after split finishes
      have longer := delivered.complete (effect :: before) last after (by rw [split]; rfl) finishes
      rwa [sent_bytes_cons, silent.1, List.nil_append] at longer
  · intro delivered
    constructor
    · intro count
      cases count with
      | zero => exact List.nil_prefix
      | succ count =>
          rw [List.take_succ_cons, sent_bytes_cons, silent.1, List.nil_append]
          exact delivered.inOrder count
    · intro before last after split finishes
      cases before with
      | nil =>
          rw [List.nil_append] at split
          cases split
          exact absurd finishes silent.2
      | cons first before =>
          rw [List.cons_append] at split
          obtain ⟨rfl, rest⟩ := List.cons.inj split
          rw [sent_bytes_cons, silent.1, List.nil_append]
          exact delivered.complete before last after rest finishes

/-- One stretch of bytes, and then nothing more: the end must not come unless
the stretch was all there is. -/
theorem delivered_once_taken {count : Nat} {log : List Effect}
    (none : ∀ effect ∈ log, effect.taken = []) :
    DeliveredOnce response (.sent (response.take count) :: log) ↔
      ((∃ effect ∈ log, effect.Finishes) → response.take count = response) := by
  constructor
  · rintro delivered ⟨effect, member, finishes⟩
    obtain ⟨before, after, rfl⟩ := List.append_of_mem member
    have complete := delivered.complete (.sent (response.take count) :: before) effect after rfl
      finishes
    have quiet : sentBytes before = [] := sent_bytes_none fun effect inside =>
      none effect (List.mem_append_left _ inside)
    rwa [sent_bytes_cons, quiet, List.append_nil] at complete
  · intro whole
    constructor
    · intro place
      cases place with
      | zero => exact List.nil_prefix
      | succ place =>
          have quiet : sentBytes (log.take place) = [] := sent_bytes_none fun effect inside =>
            none effect (List.mem_of_mem_take inside)
          rw [List.take_succ_cons, sent_bytes_cons, quiet, List.append_nil]
          exact List.take_prefix _ _
    · intro before last after split finishes
      cases before with
      | nil =>
          rw [List.nil_append] at split
          cases split
          exact absurd finishes id
      | cons first before =>
          rw [List.cons_append] at split
          obtain ⟨rfl, rfl⟩ := List.cons.inj split
          have quiet : sentBytes before = [] := sent_bytes_none fun effect inside =>
            none effect (List.mem_append_left _ inside)
          rw [sent_bytes_cons, quiet, List.append_nil]
          exact whole ⟨last, List.mem_append_right _ List.mem_cons_self, finishes⟩

/-- A second stretch starts from the first byte again. -/
theorem not_delivered_twice {first second : Nat} {between after : List Effect}
    (nodup : response.Nodup) (one : 0 < first) (other : 0 < second) (nonempty : response ≠ [])
    (none : ∀ effect ∈ between, effect.taken = []) :
    ¬ DeliveredOnce response (.sent (response.take first) ::
      (between ++ .sent (response.take second) :: after)) := by
  intro delivered
  have all := delivered.inOrder (between.length + 2)
  have cut : (between ++ Effect.sent (response.take second) :: after).take (between.length + 1) =
      between ++ [.sent (response.take second)] := by
    rw [List.take_append, List.take_of_length_le (Nat.le_succ _), Nat.add_sub_cancel_left]
    rfl
  rw [List.take_succ_cons, cut, sent_bytes_cons, sent_bytes_append, sent_bytes_none none,
    List.nil_append, sent_bytes_cons, sent_bytes_nil, List.append_nil] at all
  exact take_twice_not_initial nodup one other nonempty all

end Logs

section Calls
variable {pages : Memory} {c : HttpConn} {total : Nat}

theorem unmap_log (c : HttpConn) : ∀ effect ∈ (unmap c).log,
    effect = .munmap c.fileAddress c.fileStat.stSize := by
  unfold unmap
  split_ifs <;> simp

theorem finish_write_log (c : HttpConn) : (∀ effect ∈ (finishWrite c).log, effect.taken = []) ∧
    ∃ fd, (finishWrite c).log.getLast? = some (.modfd fd .epollin) := by
  have released := unmap_log c
  have cleared : ∀ c : HttpConn, ∀ effect ∈ (init c).log, effect.taken = [] := by
    intro c effect member
    simp only [init, List.mem_cons, List.not_mem_nil, or_false] at member
    rcases member with rfl | rfl | rfl <;> rfl
  unfold finishWrite
  dsimp only
  split_ifs
  · refine ⟨?_, _, List.getLast?_concat⟩
    intro effect member
    rcases List.mem_append.mp member with earlier | last
    · rcases List.mem_append.mp earlier with inUnmap | inInit
      · rw [released effect inUnmap]
        rfl
      · exact cleared _ effect inInit
    · rw [List.mem_singleton.mp last]
      rfl
  · refine ⟨?_, _, List.getLast?_concat⟩
    intro effect member
    rcases List.mem_append.mp member with inUnmap | last
    · rw [released effect inUnmap]
      rfl
    · rw [List.mem_singleton.mp last]
      rfl

theorem write_loop_refused {first : Writev} {rest : List Writev} {toSend haveSend : Int}
    (refused : first.ret = -1) (again : first.again = true) :
    writeLoop pages (first :: rest) toSend haveSend c =
      ⟨true, c, [.modfd c.sockfd .epollout]⟩ := by
  have temp : toInt (-1) = -1 := by decide
  simp [writeLoop, refused, again, temp]

theorem allowed_positive {total : Nat} {result : Writev} (allowed : result.Allowed total)
    (taken : result.ret ≠ -1) : 0 < result.ret := by
  rcases allowed with refused | counted
  · exact absurd refused.1 taken
  · omega

theorem refused_call {results : List Writev} {toSend haveSend : Int} {total : Nat}
    (allowed : ∀ result ∈ results, result.Allowed total)
    (refused : ∀ first rest, results = first :: rest → first.ret = -1) :
    writeLoop pages results toSend haveSend c = ⟨true, c, [.modfd c.sockfd .epollout]⟩ := by
  cases results with
  | nil => rfl
  | cons first rest =>
      have ret := refused first rest rfl
      refine write_loop_refused ret ?_
      rcases allowed first List.mem_cons_self with again | counted
      · exact again.2
      · omega

/-- write() behind a writev that took something. -/
def afterTaken (pages : Memory) (first : Writev) (rest : List Writev) (toSend haveSend : Int)
    (c : HttpConn) : Outcome Bool :=
  if 0 ≤ toInt first.ret then
    if toInt (toSend - toInt first.ret) ≤ toInt (haveSend + toInt first.ret) then finishWrite c
    else writeLoop pages rest (toInt (toSend - toInt first.ret))
      (toInt (haveSend + toInt first.ret)) c
  else if first.again then ⟨true, c, [.modfd c.sockfd .epollout]⟩
  else ⟨false, (unmap c).conn, (unmap c).log⟩

theorem write_loop_taken {first : Writev} {rest : List Writev} {toSend haveSend : Int}
    (taken : 0 < first.ret) : writeLoop pages (first :: rest) toSend haveSend c =
      ⟨(afterTaken pages first rest toSend haveSend c).ret,
        (afterTaken pages first rest toSend haveSend c).conn,
        .sent ((gathered pages c).take first.ret.toNat) ::
          (afterTaken pages first rest toSend haveSend c).log⟩ := by
  by_cases counted : 0 ≤ toInt first.ret
  · have error : ¬ toInt first.ret ≤ -1 := by omega
    simp only [writeLoop, afterTaken, taken, counted, error, ↓reduceIte, List.cons_append,
      List.nil_append]
  · have error : toInt first.ret ≤ -1 := by omega
    simp only [writeLoop, afterTaken, taken, counted, error, ↓reduceIte, List.cons_append,
      List.nil_append]

/-- The calls that follow a call, if it asked for EPOLLOUT. -/
def thenCalls (pages : Memory) (later : List (List Writev)) (sockfd : Int)
    (call : Outcome Bool) : Outcome Bool :=
  if call.log.getLast? = some (.modfd sockfd .epollout) then
    call.andThen (writeCalls pages later)
  else call

theorem write_calls_cons (written : c.writeIdx ≠ 0) (results : List Writev)
    (later : List (List Writev)) : writeCalls pages (results :: later) c =
      thenCalls pages later c.sockfd (writeLoop pages results c.writeIdx 0 c) := by
  simp only [writeCalls, write, written, ↓reduceIte, thenCalls]

theorem then_calls_waiting (later : List (List Writev)) :
    (thenCalls pages later c.sockfd ⟨true, c, [.modfd c.sockfd .epollout]⟩).log =
      .modfd c.sockfd .epollout :: (writeCalls pages later c).log := by
  simp only [thenCalls, List.getLast?_singleton, ↓reduceIte, Outcome.andThen, List.cons_append,
    List.nil_append]

theorem then_calls_sent {later : List (List Writev)} {sockfd : Int} {bytes : List SentByte}
    (call : Outcome Bool) :
    (thenCalls pages later sockfd ⟨call.ret, call.conn, .sent bytes :: call.log⟩).log =
      .sent bytes :: (thenCalls pages later sockfd call).log := by
  have last : (Effect.sent bytes :: call.log).getLast? = some (.modfd sockfd .epollout) ↔
      call.log.getLast? = some (.modfd sockfd .epollout) := by
    cases call.log with
    | nil => simp
    | cons effect log => rw [List.getLast?_cons_cons]
  by_cases waits : call.log.getLast? = some (.modfd sockfd .epollout)
  · simp only [thenCalls, last, waits, ↓reduceIte, Outcome.andThen, List.cons_append]
  · simp only [thenCalls, last, waits, ↓reduceIte]

/-- A call that begins with a count. -/
theorem taken_call {later : List (List Writev)} {results : List Writev} {toSend haveSend : Int}
    (allowed : ∀ script ∈ results :: later, ∀ result ∈ script, result.Allowed total)
    (taken : ¬ ∀ first rest, results = first :: rest → first.ret = -1) :
    ∃ between count after, 0 < count ∧ (∀ effect ∈ between, effect.taken = []) ∧
      (thenCalls pages later c.sockfd (writeLoop pages results toSend haveSend c)).log =
        between ++ .sent ((gathered pages c).take count) :: after := by
  simp only [not_forall] at taken
  obtain ⟨first, rest, rfl, other⟩ := taken
  have positive := allowed_positive (allowed _ List.mem_cons_self first List.mem_cons_self) other
  refine ⟨[], first.ret.toNat,
    (thenCalls pages later c.sockfd (afterTaken pages first rest toSend haveSend c)).log,
    by omega, by simp, ?_⟩
  rw [write_loop_taken positive, then_calls_sent]
  rfl

/-- Calls that find the socket full. -/
theorem refused_calls (later : List (List Writev)) (results : List Writev)
    (toSend haveSend : Int) (written : c.writeIdx ≠ 0)
    (allowed : ∀ script ∈ results :: later, ∀ result ∈ script, result.Allowed total)
    (refused : Refused (results :: later)) :
    ∀ effect ∈ (thenCalls pages later c.sockfd (writeLoop pages results toSend haveSend c)).log,
      effect = .modfd c.sockfd .epollout := by
  have waits := @refused_call pages c results toSend haveSend total
    (allowed _ List.mem_cons_self) (refused _ List.mem_cons_self)
  induction later generalizing results toSend haveSend with
  | nil =>
      rw [waits, then_calls_waiting]
      simp [writeCalls]
  | cons next later ih =>
      rw [waits, then_calls_waiting, write_calls_cons written]
      intro effect member
      rcases List.mem_cons.mp member with first | rest
      · exact first
      · have allowed' := fun script inside => allowed script (List.mem_cons_of_mem _ inside)
        have refused' : Refused (next :: later) := fun script inside =>
          refused script (List.mem_cons_of_mem _ inside)
        exact ih next c.writeIdx 0 allowed' refused' (refused_call
          (allowed' _ List.mem_cons_self) (refused' _ List.mem_cons_self)) effect rest

/-- Otherwise some bytes are taken, and what comes before them is silent. -/
theorem taken_calls (later : List (List Writev)) (results : List Writev)
    (toSend haveSend : Int) (written : c.writeIdx ≠ 0)
    (allowed : ∀ script ∈ results :: later, ∀ result ∈ script, result.Allowed total)
    (taken : ¬ Refused (results :: later)) :
    ∃ between count after, 0 < count ∧ (∀ effect ∈ between, effect.taken = []) ∧
      (thenCalls pages later c.sockfd (writeLoop pages results toSend haveSend c)).log =
        between ++ .sent ((gathered pages c).take count) :: after := by
  induction later generalizing results toSend haveSend with
  | nil =>
      by_cases refused : ∀ first rest, results = first :: rest → first.ret = -1
      · refine absurd ?_ taken
        intro script inside
        rw [List.mem_singleton.mp inside]
        exact refused
      · exact taken_call allowed refused
  | cons next later ih =>
      by_cases refused : ∀ first rest, results = first :: rest → first.ret = -1
      · have others : ¬ Refused (next :: later) := by
          intro all
          refine taken fun script inside => ?_
          rcases List.mem_cons.mp inside with rfl | rest
          · exact refused
          · exact all script rest
        obtain ⟨between, count, after, positive, silent, log⟩ := ih next c.writeIdx 0
          (fun script inside => allowed script (List.mem_cons_of_mem _ inside)) others
        refine ⟨.modfd c.sockfd .epollout :: between, count, after, positive, ?_, ?_⟩
        · intro effect member
          rcases List.mem_cons.mp member with rfl | rest
          · rfl
          · exact silent effect rest
        · rw [refused_call (allowed _ List.mem_cons_self) refused, then_calls_waiting,
            write_calls_cons written, log]
          rfl
      · exact taken_call allowed refused

/-- What a first count leaves to be decided by the calls behind it. -/
theorem taken_first_iff {first : Writev} {rest : List Writev} {later : List (List Writev)}
    (written : 0 < c.writeIdx) (inside : c.writeIdx < writeBufferSize)
    (nodup : (gathered pages c).Nodup) (nonempty : gathered pages c ≠ [])
    (allowed : ∀ script ∈ (first :: rest) :: later, ∀ result ∈ script,
      result.Allowed (gathered pages c).length)
    (taken : first.ret ≠ -1) :
    DeliveredOnce (gathered pages c) (writeCalls pages ((first :: rest) :: later) c).log ↔
      if (c.writeIdx : Int) ≤ 2 * toInt first.ret then first.ret = (gathered pages c).length
      else if 0 ≤ toInt first.ret then Refused (rest :: later)
      else if first.again then Refused later
      else True := by
  have ok := allowed _ List.mem_cons_self first List.mem_cons_self
  have positive := allowed_positive ok taken
  have bound : first.ret ≤ (gathered pages c).length := by
    rcases ok with refused | counted
    · exact absurd refused.1 taken
    · exact counted.2
  have fits := toInt_fits first.ret
  have stays : c.writeIdx ≠ 0 := by omega
  simp only [writeBufferSize] at inside
  rw [write_calls_cons stays, write_loop_taken positive, then_calls_sent]
  have restAllowed : ∀ script ∈ rest :: later, ∀ result ∈ script,
      result.Allowed (gathered pages c).length := by
    intro script member result among
    rcases List.mem_cons.mp member with rfl | other
    · exact allowed _ List.mem_cons_self result (List.mem_cons_of_mem _ among)
    · exact allowed script (List.mem_cons_of_mem _ other) result among
  -- Behind the first count, waiting alone leaves the bytes delivered once.
  have refusedSilent (log : List Effect) (quiet : ∀ effect ∈ log,
      effect = .modfd c.sockfd .epollout) :
      DeliveredOnce (gathered pages c)
        (.sent ((gathered pages c).take first.ret.toNat) :: log) := by
    rw [delivered_once_taken fun effect member => by rw [quiet effect member]; rfl]
    rintro ⟨effect, member, finishes⟩
    rw [quiet effect member] at finishes
    exact absurd finishes id
  -- The count is at least 0 as an int, so bytes_to_send and bytes_have_send
  -- are the differences and sums without wrapping; else temp is taken for an error.
  by_cases counted : 0 ≤ toInt first.ret
  · have difference : toInt (c.writeIdx - toInt first.ret) = c.writeIdx - toInt first.ret := by
      apply toInt_of_fits
      unfold FitsInt intMin intMax at *
      omega
    have sum : toInt (0 + toInt first.ret) = toInt first.ret := by
      rw [Int.zero_add]
      exact toInt_of_fits fits
    by_cases finishes : (c.writeIdx : Int) ≤ 2 * toInt first.ret
    -- The loop believes that all is written and ends the request.
    · have done : c.writeIdx - toInt first.ret ≤ toInt first.ret := by omega
      obtain ⟨silent, fd, last⟩ := finish_write_log c
      have call : thenCalls pages later c.sockfd
          (afterTaken pages first rest c.writeIdx 0 c) = finishWrite c := by
        simp only [afterTaken, counted, difference, sum, done, ↓reduceIte, thenCalls, last,
          Option.some.injEq, Effect.modfd.injEq, reduceCtorEq, and_false]
      rw [call, if_pos finishes, delivered_once_taken silent]
      have ends : ∃ effect ∈ (finishWrite c).log, effect.Finishes :=
        ⟨_, List.mem_of_getLast? last, trivial⟩
      rw [forall_prop_of_true ends, List.take_eq_self_iff]
      omega
    -- It writes all again, and what the later calls take is delivered twice.
    · have more : ¬ c.writeIdx - toInt first.ret ≤ toInt first.ret := by omega
      have call : afterTaken pages first rest c.writeIdx 0 c = writeLoop pages rest
          (c.writeIdx - toInt first.ret) (toInt first.ret) c := by
        simp only [afterTaken, counted, difference, sum, more, ↓reduceIte]
      rw [call, if_neg finishes, if_pos counted]
      constructor
      · intro delivered
        by_contra other
        obtain ⟨between, count, after, some, silent, log⟩ :=
          taken_calls later rest _ _ stays restAllowed other
        rw [log] at delivered
        exact not_delivered_twice nodup (by omega) some nonempty silent delivered
      · intro refused
        exact refusedSilent _ (refused_calls later rest _ _ stays restAllowed refused)
  · have other : ¬ (c.writeIdx : Int) ≤ 2 * toInt first.ret := by omega
    rw [if_neg other, if_neg counted]
    by_cases again : first.again = true
    · -- the same as a call that takes nothing
      have call : afterTaken pages first rest c.writeIdx 0 c = writeLoop pages [] 0 0 c := by
        simp only [afterTaken, counted, again, ↓reduceIte, writeLoop]
      have empty : Refused ([] :: later) ↔ Refused later := by
        constructor
        · exact fun all script member => all script (List.mem_cons_of_mem _ member)
        · intro all script member
          rcases List.mem_cons.mp member with rfl | rest
          · exact fun first rest same => by cases same
          · exact all script rest
      have emptyAllowed : ∀ script ∈ [] :: later, ∀ result ∈ script,
          result.Allowed (gathered pages c).length := by
        intro script member result among
        rcases List.mem_cons.mp member with rfl | rest
        · cases among
        · exact restAllowed script (List.mem_cons_of_mem _ rest) result among
      rw [call, if_pos again, ← empty]
      constructor
      · intro delivered
        by_contra more
        obtain ⟨between, count, after, some, silent, log⟩ :=
          taken_calls later [] _ _ stays emptyAllowed more
        rw [log] at delivered
        exact not_delivered_twice nodup (by omega) some nonempty silent delivered
      · intro refused
        exact refusedSilent _ (refused_calls later [] _ _ stays emptyAllowed refused)
    -- No EAGAIN: the mapping is released, and nothing more is written.
    · have released := unmap_log c
      have call : (thenCalls pages later c.sockfd
          (afterTaken pages first rest c.writeIdx 0 c)).log = (unmap c).log := by
        have last : (unmap c).log.getLast? ≠ some (.modfd c.sockfd .epollout) := fun same =>
          absurd (released _ (List.mem_of_getLast? same)) (by simp)
        simp only [afterTaken, counted, again, ↓reduceIte, thenCalls, last, Bool.false_eq_true]
      rw [call, if_neg again, delivered_once_taken fun effect member => by
        rw [released effect member]; rfl]
      refine iff_true_intro ?_
      rintro ⟨effect, member, finishes⟩
      rw [released effect member] at finishes
      exact absurd finishes id

end Calls

/-- A response is delivered once exactly when nothing of it is taken, or the
first count is all of it, or less than half of its header and the last. -/
theorem delivered_once_iff (pages : Memory) (ret : HttpCode) (c : HttpConn)
    (inside : c.writeIdx < writeBufferSize) (prepared : (processWrite ret c).ret = true)
    (calls : List (List Writev))
    (allowed : ∀ script ∈ calls, ∀ result ∈ script,
      result.Allowed (response pages ret (processWrite ret c).conn).length) :
    DeliveredOnce (response pages ret (processWrite ret c).conn)
        (writeCalls pages calls (processWrite ret c).conn).log ↔
      TakenAtOnce (processWrite ret c).conn.writeIdx
        (response pages ret (processWrite ret c).conn).length calls := by
  have ready := process_write_prepared prepared
  have nodup := response_nodup pages ret (processWrite ret c).conn
  have written := ready.written
  have room := ready.inside inside
  have nonempty : response pages ret (processWrite ret c).conn ≠ [] := by
    intro empty
    have header : (headerBytes (processWrite ret c).conn).length = 0 := by
      rw [(List.append_eq_nil_iff.mp empty).1]
      rfl
    rw [headerBytes, List.length_map, List.length_range] at header
    omega
  rw [← ready.gathered] at nodup nonempty allowed ⊢
  generalize (processWrite ret c).conn = d at written room nodup nonempty allowed ⊢
  have stays : d.writeIdx ≠ 0 := by omega
  -- Induction on the calls of write up to the first that takes something.
  induction calls with
  | nil => exact iff_of_true delivered_nil trivial
  | cons script later ih =>
      have after := ih fun script member => allowed script (List.mem_cons_of_mem _ member)
      cases script with
      | nil =>
          rw [write_calls_cons stays, writeLoop, then_calls_waiting,
            delivered_cons_silent ⟨rfl, id⟩]
          exact after
      | cons first rest =>
          by_cases refused : first.ret = -1
          · have again : first.again = true := by
              rcases allowed _ List.mem_cons_self first List.mem_cons_self with again | counted
              · exact again.2
              · omega
            rw [write_calls_cons stays, write_loop_refused refused again, then_calls_waiting,
              delivered_cons_silent ⟨rfl, id⟩, TakenAtOnce, if_pos refused]
            exact after
          · rw [taken_first_iff written room nodup nonempty allowed refused, TakenAtOnce,
              if_neg refused]

/-- A file of ten bytes, mapped. -/
def smallFile : HttpConn :=
  { HttpConn.unused with fileAddress := 4096, fileStat := ⟨33188, 10⟩ }

set_option maxRecDepth 4000 in
theorem small_file_sizes : (processWrite .fileRequest smallFile).conn.writeIdx = 82 ∧
    (response (fun _ => 0) .fileRequest (processWrite .fileRequest smallFile).conn).length =
    92 := by
  decide

/-- Fifty of the 92 bytes of a response, and write() takes it for sent. -/
theorem half_header_finishes : ¬ ∀ (pages : Memory) (ret : HttpCode) (c : HttpConn),
    c.writeIdx < writeBufferSize → (processWrite ret c).ret = true →
    ∀ calls : List (List Writev), (∀ script ∈ calls, ∀ result ∈ script,
        result.Allowed (response pages ret (processWrite ret c).conn).length) →
      DeliveredOnce (response pages ret (processWrite ret c).conn)
        (writeCalls pages calls (processWrite ret c).conn).log := by
  intro delivered
  obtain ⟨header, total⟩ := small_file_sizes
  have ready : Prepared .fileRequest smallFile _ := process_write_prepared rfl
  have allowed : ∀ script ∈ [[Writev.mk 50 false]], ∀ result ∈ script, result.Allowed (response
      (fun _ => 0) .fileRequest (processWrite .fileRequest smallFile).conn).length := by
    rw [total]
    simp [Writev.Allowed]
  have once := delivered (fun _ => 0) .fileRequest smallFile (by decide) rfl _ allowed
  have nonempty : response (fun _ => 0) .fileRequest
      (processWrite .fileRequest smallFile).conn ≠ [] := by
    intro empty
    rw [empty] at total
    cases total
  rw [← ready.gathered] at once nonempty allowed total
  have nodup := response_nodup (fun _ => 0) .fileRequest (processWrite .fileRequest smallFile).conn
  rw [← ready.gathered] at nodup
  rw [taken_first_iff ready.written (ready.inside (by decide)) nodup nonempty allowed (by decide),
    header, total, if_pos (by decide)] at once
  exact absurd once (by decide)

/-- The socket full at first, and then taking all of it. -/
theorem delivered_once_whole : DeliveredOnce
    (response (fun _ => 0) .fileRequest (processWrite .fileRequest smallFile).conn)
    (writeCalls (fun _ => 0) [[⟨-1, true⟩], [⟨92, false⟩]]
      (processWrite .fileRequest smallFile).conn).log := by
  obtain ⟨header, total⟩ := small_file_sizes
  refine (delivered_once_iff (fun _ => 0) .fileRequest smallFile (by decide) rfl _ ?_).mpr ?_
  · rw [total]
    simp [Writev.Allowed]
  · rw [header, total, TakenAtOnce, if_pos rfl, TakenAtOnce, if_neg (by decide),
      if_pos (by decide)]
    rfl

end StudyWebServer
