import StudyWebServer.Http.Life
import StudyWebServer.Http.MalformedLine
import StudyWebServer.Http.RequestAnswer

/-!
Several requests on one connection. The end of write() runs init(), which drops
whatever process_read left unread, so a request survives only when no byte of it
came in the read that completed the one before.
-/

namespace StudyWebServer

open ByteMemory CString MachineInt CrlfLines

def keepAliveLine (line : List UInt8) : Bool :=
  let value := line.drop 11
  strncasecmpEq line (ascii "Connection:") 11 &&
    strcasecmpEq (value.drop (strspn value blanks)) (ascii "keep-alive")

def lengthLine (line : List UInt8) : Bool := strncasecmpEq line (ascii "Content-Length:") 15

/-- A complete GET request without a body that asks for the connection to be
kept: an accepted request line, header lines, an empty line. -/
structure KeepAliveGet (request : List UInt8) : Prop where
  parts : ∃ first headers, request = joinLines (first :: headers) ++ crlf ∧
    (∀ line ∈ first :: headers, Plain line) ∧ (requestLine 0 (text first)).accepted = true ∧
    (∀ line ∈ headers, text line ≠ [] ∧ lengthLine (text line) = false) ∧
    ∃ line ∈ headers, keepAliveLine (text line) = true

section Head

theorem header_line_linger (line : List UInt8) (r : Reader) :
    (headerLine line r).linger = (r.linger || keepAliveLine line) := by
  unfold headerLine keepAliveLine
  dsimp only
  split_ifs with connection keeps length <;>
    simp_all [Reader.withLinger, Reader.withLength]

theorem header_line_length {line : List UInt8} (other : lengthLine line = false) (r : Reader) :
    (headerLine line r).contentLength = r.contentLength := by
  unfold lengthLine at other
  unfold headerLine
  dsimp only
  split_ifs with connection keeps length
  · rfl
  · rfl
  · rw [other] at length
    cases length
  · rfl

theorem take_headers_length (headers : List (List UInt8)) (r : Reader)
    (other : ∀ line ∈ headers, lengthLine (text line) = false) :
    (headers.foldl takeHeader r).contentLength = r.contentLength := by
  induction headers generalizing r with
  | nil => rfl
  | cons line headers ih =>
      rw [List.foldl_cons, ih _ fun later member => other later (List.mem_cons_of_mem _ member),
        takeHeader, header_line_length (other line List.mem_cons_self)]
      rfl

theorem take_headers_linger (headers : List (List UInt8)) (r : Reader) :
    (headers.foldl takeHeader r).linger =
      (r.linger || headers.any fun line => keepAliveLine (text line)) := by
  induction headers generalizing r with
  | nil => simp
  | cons line headers ih =>
      have taken : (r.takeLine line).linger = r.linger := rfl
      rw [List.foldl_cons, ih, takeHeader, header_line_linger, taken, List.any_cons, Bool.or_assoc]

theorem read_head_blank {r : Reader} (facing : Facing r .header crlf) :
    ∃ h, readHead r = .complete h ∧ h.unread = [] ∧ h.contentLength = r.contentLength ∧
      h.linger = r.linger := by
  have found : scan r.unread = .line [] [] := by
    rw [facing.unread]
    rfl
  have other : r.phase ≠ .requestline := by rw [facing.phase]; simp
  refine ⟨r.turn 2 [], ?_, rfl, rfl, rfl⟩
  apply read_head_return
  rw [head_round_line found, facing.held, headLine, if_neg other]
  rfl

/-- The whole of such a request is its head. -/
theorem KeepAliveGet.complete {request : List UInt8} (get : KeepAliveGet request) :
    ∃ h, readHead (Reader.fresh.feed request) = .complete h ∧ h.unread = [] ∧
      h.contentLength = 0 ∧ h.linger = true := by
  obtain ⟨first, headers, rfl, plain, accepted, others, keeps⟩ := get.parts
  have facing : Facing (Reader.fresh.feed (joinLines (first :: headers) ++ crlf)) .requestline
      (joinLines (first :: headers) ++ crlf) := ⟨rfl, rfl, rfl⟩
  obtain ⟨same, behind⟩ := read_head_lines facing plain accepted
    fun line member => (others line member).1
  obtain ⟨h, complete, unread, length, linger⟩ := read_head_blank behind
  refine ⟨h, same.trans complete, unread, ?_, ?_⟩
  · rw [length, takeHead, take_headers_length headers _ fun line member => (others line member).2]
    rfl
  · rw [linger, takeHead, take_headers_linger]
    obtain ⟨line, member, kept⟩ := keeps
    rw [List.any_eq_true.mpr ⟨line, member, kept⟩, Bool.or_true]

end Head

/-- The responses of a connection whose bytes come in these reads, each response
taken by one writev. -/
def serve (fs : FileSystem) : Slot → List (List UInt8) → List (List SentByte)
  | _, [] => []
  | s, chunk :: rest =>
      match s.run [.readable [.data chunk, .again] true, .work fs] with
      | none => []
      | some (t, _) =>
          if t.phase = .writing then
            match t.step (.writable fs.pages [⟨(gathered fs.pages t.conn).length, false⟩]) with
            | none => []
            | some (u, log) => sentBytes log :: serve fs u rest
          else serve fs t rest

section Steps
variable {fs : FileSystem} {c : HttpConn}

theorem read_chunk {chunk : List UInt8} (some : chunk ≠ [])
    (room : c.readIdx + chunk.length ≤ readBufferSize) :
    (read [.data chunk, .again] c).ret = true ∧
      (read [.data chunk, .again] c).conn = appendRead chunk c := by
  have length := List.length_pos_of_ne_nil some
  have open_ : ¬ readBufferSize ≤ c.readIdx := by omega
  have whole : chunk.take (readBufferSize - c.readIdx) = chunk :=
    List.take_of_length_le (by omega)
  rw [read, if_neg open_]
  simp only [readLoop, whole, some, ↓reduceIte]
  exact ⟨trivial, trivial⟩

/-- A read and its process() in one. -/
theorem run_read {chunk : List UInt8} (some : chunk ≠ [])
    (room : c.readIdx + chunk.length ≤ readBufferSize) :
    ∃ log, (Slot.mk c .reading).run [.readable [.data chunk, .again] true, .work fs] =
      Option.some (⟨(process fs (appendRead chunk c)).conn,
        rearmed (process fs (appendRead chunk c)).log⟩, log) := by
  obtain ⟨ret, conn⟩ := read_chunk some room
  simp only [Slot.run, Slot.step, ret, conn, ↓reduceIte, Option.bind_some, Option.map_some]
  exact ⟨_, rfl⟩

theorem finish_write_kept (linger : c.linger = true) :
    (finishWrite c).ret = true ∧ (finishWrite c).conn = (init (unmap c).conn).conn ∧
      rearmed (finishWrite c).log = .reading := by
  have kept : (unmap c).conn.linger = true := by rw [unmap_conn]; exact linger
  refine ⟨?_, ?_, ?_⟩
  · simp only [finishWrite, kept, ↓reduceIte]
  · simp only [finishWrite, kept, ↓reduceIte, and_then_conn]
  · simp only [finishWrite, kept, ↓reduceIte, and_then_log]
    rw [rearmed_last]
    rw [removed_append, unmap_kept]
    rfl

/-- A response that goes out at once. -/
theorem write_whole {pages : Memory} (linger : c.linger = true) (written : 0 < c.writeIdx)
    (inside : c.writeIdx < writeBufferSize) (holds : c.writeIdx ≤ (gathered pages c).length)
    (fits : ((gathered pages c).length : Int) ≤ intMax) :
    ∃ log, (Slot.mk c .writing).step
        (.writable pages [⟨(gathered pages c).length, false⟩]) =
          some (⟨(init (unmap c).conn).conn, .reading⟩, log) ∧
          sentBytes log = gathered pages c := by
  obtain ⟨ret, conn, phase⟩ := finish_write_kept linger
  obtain ⟨silent, -⟩ := finish_write_log c
  have stays : c.writeIdx ≠ 0 := by omega
  have positive : (0 : Int) < (gathered pages c).length := by omega
  simp only [writeBufferSize, intMax] at inside fits
  have count : toInt ((gathered pages c).length : Int) = (gathered pages c).length := by
    apply toInt_of_fits
    unfold FitsInt intMin intMax
    omega
  have difference : toInt (c.writeIdx - (gathered pages c).length) =
      c.writeIdx - (gathered pages c).length := by
    apply toInt_of_fits
    unfold FitsInt intMin intMax
    omega
  have done : (c.writeIdx : Int) - (gathered pages c).length ≤ (gathered pages c).length := by omega
  have nonnegative : (0 : Int) ≤ (gathered pages c).length := by omega
  have call : write pages [⟨(gathered pages c).length, false⟩] c = ⟨(finishWrite c).ret,
      (finishWrite c).conn, .sent (gathered pages c) :: (finishWrite c).log⟩ := by
    rw [write, if_neg stays, write_loop_taken positive]
    simp only [afterTaken, count, difference, Int.zero_add, nonnegative, done, ↓reduceIte,
      Int.toNat_natCast, List.take_length]
  refine ⟨.sent (gathered pages c) :: (finishWrite c).log, ?_, ?_⟩
  · have again : rearmed (.sent (gathered pages c) :: (finishWrite c).log) = .reading := by
      rw [← phase]
      rfl
    simp only [Slot.step, call, ret, conn, again, ↓reduceIte]
  · rw [sent_bytes_cons, sent_bytes_none silent, List.append_nil]
    rfl

end Steps

/-- No file is larger than what one writev hands over. -/
def FilesFit (fs : FileSystem) : Prop :=
  ∀ path stat, fs.stat path = some stat → (stat.stSize : Int) + writeBufferSize ≤ intMax

section Serve
variable {fs : FileSystem} {c : HttpConn}

theorem stat_at_fits (files : FilesFit fs) (path : List UInt8) :
    ((statAt fs path).stSize : Int) + writeBufferSize ≤ intMax := by
  unfold statAt
  cases found : fs.stat path with
  | none => decide
  | some stat => exact files path stat found

theorem response_length (pages : Memory) (ret : HttpCode) (c : HttpConn) :
    c.writeIdx ≤ (response pages ret c).length ∧
      (response pages ret c).length ≤ c.writeIdx + c.fileStat.stSize := by
  unfold response headerBytes
  split_ifs
  · simp only [fileBytes, List.length_append, List.length_map, List.length_range]
    omega
  · simp

theorem serve_wait {chunk : List UInt8} (rest : List (List UInt8)) (some : chunk ≠ [])
    (room : c.readIdx + chunk.length ≤ readBufferSize)
    (waits : (processRead fs (appendRead chunk c)).ret = .noRequest) :
    serve fs ⟨c, .reading⟩ (chunk :: rest) =
      serve fs ⟨(processRead fs (appendRead chunk c)).conn, .reading⟩ rest := by
  obtain ⟨log, run⟩ := @run_read fs c chunk some room
  obtain ⟨conn, quiet⟩ := process_waits waits
  have phase : rearmed (process fs (appendRead chunk c)).log = .reading := by
    rw [← rearmed_outside, quiet]
    rfl
  rw [phase, conn] at run
  simp only [serve, run]
  rfl

theorem serve_answer {chunk path : List UInt8} (rest : List (List UInt8)) (some : chunk ≠ [])
    (room : c.readIdx + chunk.length ≤ readBufferSize) (files : FilesFit fs)
    (answered : AnsweredAt fs path true (processRead fs (appendRead chunk c))) :
    ∃ d, serve fs ⟨c, .reading⟩ (chunk :: rest) =
      responseFor fs (processRead fs (appendRead chunk c)) ::
        serve fs ⟨(init d).conn, .reading⟩ rest := by
  obtain ⟨log, run⟩ := @run_read fs c chunk some room
  generalize appendRead chunk c = b at run answered ⊢
  obtain ⟨written, ready, inside⟩ := answered.prepared
  have code : (processRead fs b).ret ≠ .noRequest := by
    have answer : (processRead fs b).ret.Answer := answered.ret ▸ answer_for_answer fs path
    rcases answer with ret | ret | ret | ret <;> rw [ret] <;> decide
  obtain ⟨conn, effects⟩ := process_answers code written
  -- The worker arms EPOLLOUT, so the next step of the connection is write().
  have phase : rearmed (process fs b).log = .writing := by
    rw [← rearmed_outside, effects, rearmed_last (created_kept _)]
  have linger : (process fs b).conn.linger = true := by
    rw [conn, ready.same]
    exact answered.linger
  have stat : (process fs b).conn.fileStat = statAt fs path := by
    rw [conn, ready.same]
    exact answered.fileStat
  have bytes : gathered fs.pages (process fs b).conn = responseFor fs (processRead fs b) := by
    rw [conn]
    exact ready.gathered
  obtain ⟨lower, upper⟩ := response_length fs.pages (processRead fs b).ret (process fs b).conn
  have same : response fs.pages (processRead fs b).ret (process fs b).conn =
      gathered fs.pages (process fs b).conn := by
    rw [bytes, conn]
    rfl
  rw [same, stat] at upper
  rw [same] at lower
  rw [← conn] at inside
  have fits := stat_at_fits files path
  -- One writev takes the response, unmap and init follow, and the slot reads again.
  obtain ⟨log', step, sent⟩ := write_whole linger (by rw [conn]; exact ready.written) inside lower
    (by simp only [writeBufferSize] at inside fits; omega)
  refine ⟨(unmap (process fs b).conn).conn, ?_⟩
  rw [phase] at run
  simp only [serve, run, ↓reduceIte, step, sent]
  rw [bytes]

theorem read_waits {r : Reader} (shows : Shows c r) (waits : (processRead fs c).ret = .noRequest) :
    ∃ next, Shows (processRead fs c).conn next ∧ (processRead fs c).conn.readIdx = c.readIdx := by
  have agrees : Agrees fs c (processRead fs c) (readRequest r) := process_read_refines c r shows
  have verdict := agrees.no_request_iff.mp waits
  have result := agrees.result
  rw [verdict] at result
  refine ⟨_, result.2.1, ?_⟩
  rw [result.2.1.arrived, read_request_total verdict, shows.arrived]

/-- Reads of which the last one completes a request. -/
theorem serve_pieces {path : List UInt8} (pieces : List (List UInt8)) (more : List (List UInt8))
    {r : Reader} (shows : Shows c r) (some : ∀ piece ∈ pieces, piece ≠ [])
    (room : c.readIdx + pieces.flatten.length ≤ readBufferSize) (files : FilesFit fs)
    (waits : ∀ earlier later, pieces = earlier ++ later → later ≠ [] →
      (receive fs c earlier).ret = .noRequest)
    (answered : AnsweredAt fs path true (receive fs c pieces)) :
    ∃ d, serve fs ⟨c, .reading⟩ (pieces ++ more) = responseFor fs (receive fs c pieces) ::
      serve fs ⟨(init d).conn, .reading⟩ more := by
  -- Induction on the pieces: all but the last leave the request unfinished.
  induction pieces generalizing c r with
  | nil =>
      have code : (receive fs c []).ret.Answer := answered.ret ▸ answer_for_answer fs path
      simp [HttpCode.Answer, receive] at code
  | cons chunk rest ih =>
      rw [List.flatten_cons, List.length_append] at room
      have first := some chunk List.mem_cons_self
      by_cases last : rest = []
      · subst last
        by_cases ret : (processRead fs (appendRead chunk c)).ret = .noRequest
        · have code : (receive fs c [chunk]).ret.Answer := answered.ret ▸ answer_for_answer fs path
          simp [HttpCode.Answer, receive, ret] at code
        · have value : receive fs c [chunk] = processRead fs (appendRead chunk c) := by
            simp only [receive, ret, ↓reduceIte]
          rw [value] at answered ⊢
          exact serve_answer more first (by omega) files answered
      · have ret : (processRead fs (appendRead chunk c)).ret = .noRequest := by
          have once := waits [chunk] rest rfl last
          by_contra other
          simp only [receive, other, ↓reduceIte] at once
        have step (chunks : List (List UInt8)) : receive fs c (chunk :: chunks) =
            (processRead fs (appendRead chunk c)).andThen fun conn => receive fs conn chunks := by
          simp only [receive, ret, ↓reduceIte]
        obtain ⟨next, shown, length⟩ := read_waits (shows.feed chunk (by omega)) ret
        have moved : (appendRead chunk c).readIdx = c.readIdx + chunk.length := rfl
        have tail := ih shown (fun piece member => some piece (List.mem_cons_of_mem _ member))
          (by omega) ?_ ?_
        · obtain ⟨d, served⟩ := tail
          refine ⟨d, ?_⟩
          rw [List.cons_append, serve_wait (rest ++ more) first (by omega) ret, served, step]
          rfl
        · intro earlier later split behind
          have before := waits (chunk :: earlier) later (by rw [split]; rfl) behind
          rw [step] at before
          exact before
        · rw [step] at answered
          exact ⟨answered.ret, answered.linger, answered.fileAddress, answered.fileStat,
            answered.writeIdx, answered.writeBuf⟩

/-- No request is complete before its last byte. -/
theorem KeepAliveGet.waits_before {start behind : List UInt8}
    (get : KeepAliveGet (start ++ behind)) (some : behind ≠ []) :
    ∃ w, readHead (Reader.fresh.feed start) = .waiting w := by
  obtain ⟨h, complete, unread, -⟩ := get.complete
  rw [feed_append, read_head_feed] at complete
  cases before : readHead (Reader.fresh.feed start) with
  | waiting w => exact ⟨w, rfl⟩
  | refused w =>
      rw [before] at complete
      cases complete
  | complete g =>
      rw [before] at complete
      cases complete
      exact absurd (List.append_eq_nil_iff.mp unread).2 some

theorem serve_request (pieces more : List (List UInt8)) (c : HttpConn)
    (some : ∀ piece ∈ pieces, piece ≠ []) (get : KeepAliveGet pieces.flatten)
    (room : pieces.flatten.length ≤ readBufferSize) (files : FilesFit fs) :
    ∃ d, serve fs ⟨(init c).conn, .reading⟩ (pieces ++ more) =
      responseTo fs pieces.flatten :: serve fs ⟨(init d).conn, .reading⟩ more := by
  obtain ⟨h, complete, -, empty, linger⟩ := get.complete
  have answered := @request_answered_at fs c pieces h complete room empty
  have alone : [pieces.flatten].flatten = pieces.flatten := List.append_nil _
  have once := @request_answered_at fs .unused [pieces.flatten] h
    (by rw [alone]; exact complete) (by rw [alone]; exact room) empty
  rw [linger] at answered once
  have waits : ∀ earlier later, pieces = earlier ++ later → later ≠ [] →
      (receive fs (init c).conn earlier).ret = .noRequest := by
    intro earlier later split behind
    have bytes : later.flatten ≠ [] := by
      obtain ⟨piece, others, rfl⟩ := List.exists_cons_of_ne_nil behind
      have first := some piece (by rw [split]; simp)
      rw [List.flatten_cons]
      exact List.append_ne_nil_of_left_ne_nil first _
    have whole : pieces.flatten = earlier.flatten ++ later.flatten := by
      rw [split, List.flatten_append]
    rw [whole, List.length_append] at room
    obtain ⟨w, head⟩ := (whole ▸ get).waits_before bytes
    exact waiting_receives c (by omega) head
  have start : (init c).conn.readIdx = 0 := (shows_init c).arrived
  obtain ⟨d, served⟩ := serve_pieces pieces more (shows_init c) some
    (by rw [start, Nat.zero_add]; exact room) files waits answered
  refine ⟨d, ?_⟩
  rw [served, response_for_same answered once]
  rfl

end Serve

/-- Every request is answered, in order, when each read ends with the request it
completes or before it. -/
theorem keep_alive_served (fs : FileSystem) (files : FilesFit fs) (c : HttpConn)
    (requests : List (List (List UInt8)))
    (reads : ∀ pieces ∈ requests, (∀ piece ∈ pieces, piece ≠ []) ∧ KeepAliveGet pieces.flatten ∧
      pieces.flatten.length ≤ readBufferSize) :
    serve fs ⟨(init c).conn, .reading⟩ requests.flatten =
      requests.map fun pieces => responseTo fs pieces.flatten := by
  induction requests generalizing c with
  | nil => rfl
  | cons pieces rest ih =>
      obtain ⟨some, get, room⟩ := reads pieces List.mem_cons_self
      obtain ⟨d, served⟩ := serve_request pieces rest.flatten c some get room files
      rw [List.flatten_cons, served, List.map_cons,
        ih d fun other member => reads other (List.mem_cons_of_mem _ member)]

def indexRequest : List UInt8 := ascii "GET / HTTP/1.1\r\nConnection: keep-alive\r\n\r\n"

theorem index_request_get : KeepAliveGet indexRequest :=
  ⟨ascii "GET / HTTP/1.1", [ascii "Connection: keep-alive"], by decide, by decide, by decide,
    by decide, by decide⟩

theorem empty_files_fit : FilesFit .empty := fun _ _ found => by cases found

set_option maxRecDepth 20000 in
theorem both_requests_served : (serve .empty ⟨(init .unused).conn, .reading⟩
    [indexRequest ++ indexRequest]).length = 1 := by decide +kernel

/-- Two requests in one read are answered with one response. -/
theorem second_request_dropped : ¬ ∀ (fs : FileSystem), FilesFit fs → ∀ (c : HttpConn)
    (requests reads : List (List UInt8)), (∀ request ∈ requests, KeepAliveGet request) →
    reads.flatten = requests.flatten → (∀ read ∈ reads, read ≠ []) →
    reads.flatten.length ≤ readBufferSize →
    serve fs ⟨(init c).conn, .reading⟩ reads = requests.map (responseTo fs) := by
  intro served
  have all := served .empty empty_files_fit .unused [indexRequest, indexRequest]
    [indexRequest ++ indexRequest]
    (by
      intro request member
      rcases List.mem_cons.mp member with rfl | rest
      · exact index_request_get
      · rw [List.mem_singleton.mp rest]
        exact index_request_get)
    (by decide) (by decide) (by decide)
  have count := both_requests_served
  rw [all] at count
  cases count

/-- One request at once and one in two pieces. -/
theorem keep_alive_served_twice : serve .empty ⟨(init .unused).conn, .reading⟩
    [indexRequest, indexRequest.take 10, indexRequest.drop 10] =
      [responseTo .empty indexRequest, responseTo .empty indexRequest] := by
  have whole : [indexRequest].flatten = indexRequest := List.append_nil _
  have cut : [indexRequest.take 10, indexRequest.drop 10].flatten = indexRequest := by decide
  have served := keep_alive_served .empty empty_files_fit .unused
    [[indexRequest], [indexRequest.take 10, indexRequest.drop 10]] ?_
  · rw [List.map_cons, List.map_cons, List.map_nil, whole, cut] at served
    exact served
  · intro pieces member
    rcases List.mem_cons.mp member with rfl | rest
    · exact ⟨by decide, whole.symm ▸ index_request_get, by decide⟩
    · rw [List.mem_singleton.mp rest]
      exact ⟨by decide, cut.symm ▸ index_request_get, by decide⟩

end StudyWebServer
