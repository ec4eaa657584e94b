import StudyWebServer.Http.ProcessWrite
import StudyWebServer.Http.ReaderRefinement

/-!
What each member function does outside of the object: calls on the epoll
instance, the socket, the user count and the mappings. The parse functions and
the add_ functions do nothing there.
-/

namespace StudyWebServer

open ByteMemory CString MachineInt Layout

def Effect.outside : Effect → Bool
  | .load _ | .store _ _ _ | .sum _ => false
  | _ => true

def outside (log : List Effect) : List Effect := log.filter Effect.outside

@[simp] theorem outside_nil : outside [] = [] := rfl

@[simp] theorem outside_append (first second : List Effect) :
    outside (first ++ second) = outside first ++ outside second := List.filter_append ..

@[simp] theorem outside_load (index : Int) (log : List Effect) :
    outside (.load index :: log) = outside log := rfl

@[simp] theorem outside_store (array : MemberArray) (index : Int) (count : Nat)
    (log : List Effect) : outside (.store array index count :: log) = outside log := rfl

@[simp] theorem outside_sum (value : Int) (log : List Effect) :
    outside (.sum value :: log) = outside log := rfl

section Parse
variable {fs : FileSystem}

@[simp] theorem parse_line_from_outside (count : Nat) (c : HttpConn) :
    outside (parseLineFrom count c).log = [] := by
  induction count generalizing c with
  | zero => rfl
  | succ count ih =>
      unfold parseLineFrom
      dsimp only
      split_ifs <;> simp [ih]

@[simp] theorem next_line_outside (loop : ReadLoop) : outside (nextLine loop).log = [] := by
  unfold nextLine parseLine
  split_ifs <;> simp

@[simp] theorem read_string_outside (buffer : Memory) (offset : Nat) :
    outside (readString buffer offset) = [] := by
  rw [outside, List.filter_eq_nil_iff]
  intro effect member
  obtain ⟨_, _, rfl⟩ := List.mem_map.mp member
  simp [Effect.outside]

@[simp] theorem parse_request_line_outside (text : Nat) (c : HttpConn) :
    outside (parseRequestLine text c).log = [] := by
  unfold parseRequestLine
  repeat' (first | simp only [outside_append, outside_store, read_string_outside, outside_nil,
    List.append_nil] | split)

@[simp] theorem parse_headers_outside (text : Nat) (c : HttpConn) :
    outside (parseHeaders text c).log = [] := by
  unfold parseHeaders
  repeat' (first | exact read_string_outside _ _ | split | dsimp only)

@[simp] theorem parse_content_outside (text : Nat) (c : HttpConn) :
    outside (parseContent text c).log = [] := by
  unfold parseContent
  dsimp only
  split_ifs <;> rfl

/-- The mapping behind a value of process_read. -/
def created (value : Outcome HttpCode) : List Effect :=
  if value.ret = .fileRequest ∧ value.conn.fileAddress ≠ mapFailed then
    [.mmap value.conn.fileAddress value.conn.fileStat.stSize]
  else []

def copiedPath (fs : FileSystem) (c : HttpConn) : HttpConn :=
  { c with realFile := copyRealFile (urlString fs c) c.realFile }

/-- do_request either maps a file or leaves m_file_address. -/
theorem do_request_cases (fs : FileSystem) (c : HttpConn) :
    (∃ ret stat log, ret ≠ .fileRequest ∧ outside log = [] ∧
      doRequest fs c = ⟨ret, { copiedPath fs c with fileStat := stat }, log⟩) ∨
    ∃ stat address log, address ≠ 0 ∧
      outside log = (if address = mapFailed then [] else [.mmap address stat.stSize]) ∧
      doRequest fs c =
        ⟨.fileRequest, { copiedPath fs c with fileAddress := address, fileStat := stat }, log⟩ := by
  unfold doRequest
  dsimp only
  split
  · exact .inl ⟨.noResource, c.fileStat, _, by decide, rfl, rfl⟩
  · next stat found =>
      split_ifs with unreadable directory failed
      · exact .inl ⟨.forbiddenRequest, stat, _, by decide, rfl, rfl⟩
      · exact .inl ⟨.badRequest, stat, _, by decide, rfl, rfl⟩
      · exact .inr ⟨stat, _, _, fs.mmap_ne_null _ _, by rw [if_pos failed]; rfl, rfl⟩
      · exact .inr ⟨stat, _, _, fs.mmap_ne_null _ _, by rw [if_neg failed]; rfl, rfl⟩

theorem do_request_outside (c : HttpConn) :
    outside (doRequest fs c).log = created (doRequest fs c) := by
  rcases do_request_cases fs c with ⟨ret, stat, log, other, silent, same⟩ |
      ⟨stat, address, log, _, mapped, same⟩
  · rw [same, silent, created, if_neg fun file => other file.1]
  · rw [same, mapped, created]
    by_cases failed : address = mapFailed
    · rw [if_pos failed, if_neg fun file => file.2 failed]
    · rw [if_neg failed, if_pos ⟨rfl, failed⟩]

theorem parse_content_then (text : Nat) (c : HttpConn) :
    outside ((parseContent text c).andThen (doRequest fs)).log =
      created ((parseContent text c).andThen (doRequest fs)) := by
  simp only [Outcome.andThen, outside_append, parse_content_outside, List.nil_append]
  exact do_request_outside _

theorem parse_headers_then (text : Nat) (c : HttpConn) :
    outside ((parseHeaders text c).andThen (doRequest fs)).log =
      created ((parseHeaders text c).andThen (doRequest fs)) := by
  simp only [Outcome.andThen, outside_append, parse_headers_outside, List.nil_append]
  exact do_request_outside _

theorem created_none {value : Outcome HttpCode} (other : value.ret ≠ .fileRequest) :
    created value = [] := if_neg fun file => other file.1

variable (fs) in
theorem handle_line_outside (text : Nat) (c : HttpConn) :
    match handleLine fs text c with
    | .inl next => outside next.log = []
    | .inr done => outside done.log = created done := by
  cases state : c.checkState with
  | requestline =>
      rw [handle_request_line state]
      split_ifs with refused
      · show outside (parseRequestLine text c).log = created (parseRequestLine text c)
        rw [parse_request_line_outside, created_none (by rw [refused]; decide)]
      · exact parse_request_line_outside text c
  | header =>
      rw [handle_header state]
      split_ifs with refused complete
      · show outside (parseHeaders text c).log = created (parseHeaders text c)
        rw [parse_headers_outside, created_none (by rw [refused]; decide)]
      · exact parse_headers_then text c
      · exact parse_headers_outside text c
  | content =>
      rw [handle_content state]
      split_ifs with complete
      · exact parse_content_then text c
      · exact parse_content_outside text c

theorem process_read_outside (fs : FileSystem) (c : HttpConn) :
    outside (processRead fs c).log = created (processRead fs c) := by
  refine Loop.run_induction (motive := fun (loop : ReadLoop) (value : Outcome HttpCode) =>
    outside loop.log = [] → outside value.log = created value) ?_ ?_ _ rfl
  · intro loop next value round ih held
    obtain ⟨_, handled, line, rfl⟩ := read_round_again round
    have silent := handle_line_outside fs (nextLine loop).conn.startLine
      (startNextLine (nextLine loop).conn)
    rw [line] at silent
    apply ih
    simp only [outside_append, held, next_line_outside, List.nil_append]
    exact silent
  · intro loop value round held
    by_cases complete : (nextLine loop).ret = .lineOk
    · rw [read_round_line complete] at round
      have done := handle_line_outside fs (nextLine loop).conn.startLine
        (startNextLine (nextLine loop).conn)
      cases line : handleLine fs (nextLine loop).conn.startLine
          (startNextLine (nextLine loop).conn) with
      | inl next =>
          rw [line] at round
          cases round
      | inr value =>
          rw [line] at round done
          cases round
          simp only [outside_append, held, next_line_outside, List.nil_append]
          exact done
    · rw [read_round_stop complete] at round
      cases round
      simp only [outside_append, held, next_line_outside, List.append_nil]
      exact (created_none (by simp)).symm

end Parse

section Values
variable {fs : FileSystem} {c : HttpConn}

/-- The values of process_read on a connection that is being read. -/
inductive Parsed (c : HttpConn) (value : Outcome HttpCode) : Prop where
  | waits (r : Reader) (shows : Shows value.conn r) (ret : value.ret = .noRequest)
      (same : ResponseSame c value.conn)
  | refused (answer : value.ret.Answer) (other : value.ret ≠ .fileRequest)
      (fileAddress : value.conn.fileAddress = c.fileAddress)
      (writeIdx : value.conn.writeIdx = c.writeIdx)
  | file (ret : value.ret = .fileRequest) (real : value.conn.fileAddress ≠ 0)
      (writeIdx : value.conn.writeIdx = c.writeIdx)

theorem do_request_answer (fs : FileSystem) (c : HttpConn) : (doRequest fs c).ret.Answer := by
  unfold doRequest
  dsimp only
  split
  · exact .inr (.inl rfl)
  · split_ifs
    · exact .inr (.inr (.inl rfl))
    · exact .inl rfl
    · exact .inr (.inr (.inr rfl))
    · exact .inr (.inr (.inr rfl))

theorem Agrees.parsed {value : Outcome HttpCode} {reading : Reading}
    (agrees : Agrees fs c value reading) : Parsed c value := by
  have result := agrees.result
  cases verdict : reading.verdict with
  | wait =>
      rw [verdict] at result
      exact .waits _ result.2.1 result.1 result.2.2
  | refuse =>
      rw [verdict] at result
      exact .refused (.inl result.1) (by rw [result.1]; decide) result.2.2.fileAddress
        result.2.2.writeIdx
  | serve =>
      rw [verdict] at result
      obtain ⟨d, ret, conn, -, same⟩ := result
      have answer := do_request_answer fs d
      rcases do_request_cases fs d with ⟨code, stat, log, other, -, equal⟩ |
          ⟨stat, address, log, real, -, equal⟩
      · rw [equal] at ret conn answer
        exact .refused (ret ▸ answer) (ret ▸ other) (by rw [conn]; exact same.fileAddress)
          (by rw [conn]; exact same.writeIdx)
      · rw [equal] at ret conn
        exact .file ret (by rw [conn]; exact real) (by rw [conn]; exact same.writeIdx)

theorem process_read_parsed (fs : FileSystem) {r : Reader} (shows : Shows c r) :
    Parsed c (processRead fs c) := (process_read_refines c r shows).parsed

end Values

section Calls

theorem process_write_outside (ret : HttpCode) (c : HttpConn) :
    outside (processWrite ret c).log = [] := by
  rw [outside, List.filter_eq_nil_iff]
  intro effect member
  obtain ⟨_, index, count, rfl⟩ := process_write_log ret c effect member
  simp [Effect.outside]

@[simp] theorem init_outside (c : HttpConn) : outside (init c).log = [] := rfl

theorem init_conn_outside (sockfd : Int) (addr : List UInt8) (c : HttpConn) :
    outside (initConn sockfd addr c).log = [.addfd sockfd, .userCount 1] := rfl

@[simp] theorem close_conn_outside (c : HttpConn) :
    outside (closeConn c).log = (closeConn c).log := by
  unfold closeConn
  split_ifs <;> rfl

@[simp] theorem unmap_outside (c : HttpConn) : outside (unmap c).log = (unmap c).log := by
  unfold unmap
  split_ifs <;> rfl

theorem read_loop_outside (results : List Recv) (c : HttpConn) :
    outside (readLoop results c).log = [] := by
  induction results generalizing c with
  | nil => rfl
  | cons result rest ih =>
      cases result with
      | data bytes =>
          simp only [readLoop]
          split_ifs
          · rfl
          · exact ih _
      | again => rfl
      | failed => rfl
      | ended => rfl

theorem read_outside (results : List Recv) (c : HttpConn) : outside (read results c).log = [] := by
  unfold read
  split_ifs
  · rfl
  · exact read_loop_outside results c

/-- process() without a request: nothing but the registration for more. -/
theorem process_waits {fs : FileSystem} {c : HttpConn}
    (waits : (processRead fs c).ret = .noRequest) :
    (process fs c).conn = (processRead fs c).conn ∧
    outside (process fs c).log = [.modfd (processRead fs c).conn.sockfd .epollin] := by
  have none : outside (processRead fs c).log = [] := by
    rw [process_read_outside, created_none (by rw [waits]; decide)]
  simp only [process, waits, ↓reduceIte, outside_append, none]
  exact ⟨trivial, rfl⟩

/-- process() with a response. -/
theorem process_answers {fs : FileSystem} {c : HttpConn}
    (answers : (processRead fs c).ret ≠ .noRequest)
    (written : (processWrite (processRead fs c).ret (processRead fs c).conn).ret = true) :
    (process fs c).conn = (processWrite (processRead fs c).ret (processRead fs c).conn).conn ∧
    outside (process fs c).log = created (processRead fs c) ++
      [.modfd (process fs c).conn.sockfd .epollout] := by
  simp only [process, answers, ↓reduceIte, respond, written, and_then_conn, and_then_log,
    outside_append, process_read_outside, process_write_outside, List.append_nil, true_and]
  rfl

def OnlySent (log : List Effect) : Prop := ∀ effect ∈ log, ∃ bytes, effect = .sent bytes

/-- The ends of a call of write() that has something to send. -/
inductive Wrote (c : HttpConn) (call : Outcome Bool) : Prop where
  | waits (sent : List Effect) (only : OnlySent sent) (ret : call.ret = true)
      (conn : call.conn = c)
      (log : outside call.log = sent ++ [.modfd c.sockfd .epollout])
  | failed (sent : List Effect) (only : OnlySent sent) (ret : call.ret = false)
      (conn : call.conn = (unmap c).conn)
      (log : outside call.log = sent ++ (unmap c).log)
  | kept (sent : List Effect) (only : OnlySent sent) (linger : c.linger = true)
      (ret : call.ret = true) (conn : call.conn = (init (unmap c).conn).conn)
      (log : outside call.log = sent ++ (unmap c).log ++ [.modfd c.sockfd .epollin])
  | finished (sent : List Effect) (only : OnlySent sent) (linger : c.linger = false)
      (ret : call.ret = false) (conn : call.conn = (unmap c).conn)
      (log : outside call.log = sent ++ (unmap c).log ++ [.modfd c.sockfd .epollin])

theorem unmap_conn (c : HttpConn) : (unmap c).conn = { c with fileAddress := 0 } := by
  unfold unmap
  by_cases mapped : c.fileAddress = 0
  · simp only [mapped, ne_eq, not_true_eq_false, ↓reduceIte]
    rw [← mapped]
  · simp only [mapped, ne_eq, not_false_eq_true, ↓reduceIte]

@[simp] theorem init_sockfd (c : HttpConn) : (init c).conn.sockfd = c.sockfd := by
  rw [init_conn]
  rfl

theorem finish_write_cases (c : HttpConn) : Wrote c (finishWrite c) := by
  have none : OnlySent [] := fun effect member => by cases member
  have linger : (unmap c).conn.linger = c.linger := by rw [unmap_conn]
  have sockfd : (unmap c).conn.sockfd = c.sockfd := by rw [unmap_conn]
  by_cases keep : c.linger = true
  · refine .kept [] none keep ?_ ?_ ?_
    · simp only [finishWrite, linger, keep, ↓reduceIte]
    · simp only [finishWrite, linger, keep, ↓reduceIte, and_then_conn]
    · simp only [finishWrite, linger, keep, ↓reduceIte, and_then_conn, and_then_log, outside_append,
        unmap_outside, init_outside, init_sockfd, sockfd, List.append_nil, List.nil_append]
      rfl
  · have close : c.linger = false := by simpa using keep
    refine .finished [] none close ?_ ?_ ?_
    · simp only [finishWrite, linger, close, Bool.false_eq_true, ↓reduceIte]
    · simp only [finishWrite, linger, close, Bool.false_eq_true, ↓reduceIte]
    · simp only [finishWrite, linger, close, Bool.false_eq_true, ↓reduceIte, outside_append,
        unmap_outside, sockfd, List.nil_append]
      rfl

theorem Wrote.after {c : HttpConn} {call : Outcome Bool} {sent : List Effect} (wrote : Wrote c call)
    (only : OnlySent sent) : Wrote c ⟨call.ret, call.conn, sent ++ call.log⟩ := by
  have kept : outside sent = sent := by
    rw [outside, List.filter_eq_self]
    intro effect member
    obtain ⟨bytes, rfl⟩ := only effect member
    rfl
  have both {other : List Effect} (also : OnlySent other) : OnlySent (sent ++ other) := by
    intro effect member
    rcases List.mem_append.mp member with first | second
    · exact only effect first
    · exact also effect second
  cases wrote with
  | waits other also ret conn log =>
      exact .waits (sent ++ other) (both also) ret conn (by
        rw [outside_append, kept, log, List.append_assoc])
  | failed other also ret conn log =>
      exact .failed (sent ++ other) (both also) ret conn (by
        rw [outside_append, kept, log, List.append_assoc])
  | kept other also linger ret conn log =>
      exact .kept (sent ++ other) (both also) linger ret conn (by
        rw [outside_append, kept, log]
        simp only [List.append_assoc])
  | finished other also linger ret conn log =>
      exact .finished (sent ++ other) (both also) linger ret conn (by
        rw [outside_append, kept, log]
        simp only [List.append_assoc])

theorem write_loop_cases (pages : Memory) (results : List Writev) (toSend haveSend : Int)
    (c : HttpConn) : Wrote c (writeLoop pages results toSend haveSend c) := by
  have none : OnlySent [] := fun effect member => by cases member
  induction results generalizing toSend haveSend with
  | nil => exact .waits [] none rfl rfl rfl
  | cons result rest ih =>
      unfold writeLoop
      dsimp only
      refine Wrote.after ?_ ?_
      · split_ifs
        · exact .waits [] none rfl rfl rfl
        · exact .failed [] none rfl rfl (by rw [unmap_outside]; rfl)
        · exact finish_write_cases c
        · exact ih _ _
      · intro effect member
        split_ifs at member
        · exact ⟨_, List.mem_singleton.mp member⟩
        · cases member

theorem write_cases (pages : Memory) (results : List Writev) {c : HttpConn}
    (written : c.writeIdx ≠ 0) : Wrote c (write pages results c) := by
  rw [write, if_neg written]
  exact write_loop_cases pages results _ _ c

/-- A call with nothing to send resets the connection. -/
theorem write_nothing (pages : Memory) (results : List Writev) {c : HttpConn}
    (empty : c.writeIdx = 0) : (write pages results c).ret = true ∧
      (write pages results c).conn = (init c).conn ∧
      outside (write pages results c).log = [.modfd c.sockfd .epollin] := by
  rw [write, if_pos empty]
  exact ⟨rfl, rfl, rfl⟩

end Calls

end StudyWebServer
