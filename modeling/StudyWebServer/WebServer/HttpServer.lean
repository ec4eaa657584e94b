import StudyWebServer.WebServer.BufferRuns
import StudyWebServer.WebServer.ConnProcess
import StudyWebServer.WebServer.ServerRuns

/-!
The server with its HttpConn: what OnRead_, OnProcess and OnWrite_ do with what readv, writev
and the disk answer, and what a client gets from it over any number of requests.
-/

namespace StudyWebServer.WebServer

open CString

/-- With the head of a response, a file of this length still fits into an int. -/
def maxFile : Nat := 2147482623

/-- What the system answers in one task. -/
structure Calls where
  /-- what the calls of readv bring -/
  pieces : List Bytes
  /-- how they end; at the end of the stream without an error -/
  last : Option Errno
  writev : Nat → Writev
  disk : Disk
  small : ∀ name file, disk name = some file → file.content.length ≤ maxFile

namespace ConnData

/-- `read()` of HttpConn, with the result of its last ReadFd. -/
def read (isET : Bool) (last : Option Errno) :
    List Bytes → Buffer → Except Fault ((Errno ⊕ Nat) × Buffer)
  | [], buff =>
      .ok (match last with
        | some errno => .inl errno
        | none => .inr 0, buff)
  | piece :: pieces, buff =>
      let piece := piece.take (min maxSize (buff.writableBytes + Buffer.Call.spare))
      if piece = [] then .ok (.inr 0, buff)
      else
        match buff.readFd (some piece) with
        | .error fault => .error fault
        | .ok buff => if isET then read isET last pieces buff else .ok (.inr piece.length, buff)

section Tasks
variable (verify : Bytes → Bytes → Bool → Bool) (srcDir : Bytes) (isET : Bool)

def onProcess (disk : Disk) (c : ConnData) : Except Fault (ConnData × Exit) :=
  match c.process verify disk srcDir with
  | .error fault => .error fault
  | .ok (answered, c) => .ok (c, some (if answered then .epollout else .epollin))

def onRead (calls : Calls) (c : ConnData) : Except Fault (ConnData × Exit) :=
  match read isET calls.last calls.pieces c.readBuff with
  | .error fault => .error fault
  | .ok (ret, readBuff) =>
      let c := { c with readBuff := readBuff }
      match ret with
      | .inl .again => onProcess verify srcDir calls.disk c
      | .inl .other => .ok (c, none)
      | .inr len =>
          if MachineInt.toInt len ≤ 0 then .ok (c, none) else onProcess verify srcDir calls.disk c

def onWrite (calls : Calls) (c : ConnData) : Except Fault (ConnData × Exit) :=
  match c.conn.onWrite isET c.request.isKeepAlive calls.writev with
  | .error fault => .error fault
  | .ok (conn, outcome) =>
      let c := { c with conn := conn }
      match outcome with
      | .process => onProcess verify srcDir calls.disk c
      | .writable => .ok (c, some .epollout)
      | .close => .ok (c, none)

def serve (kind : TaskKind) (calls : Calls) (c : ConnData) : Option (ConnData × Exit) :=
  match kind with
  | .onRead => (onRead verify srcDir isET calls c).toOption
  | .onWrite => (onWrite verify srcDir isET calls c).toOption

end Tasks

/-- A connection as it is constructed, which does not set `iov_[1]`. -/
def fresh (stale : Bytes) : ConnData :=
  ⟨Buffer.init 1024, HttpRequest.init, ⟨Buffer.init 1024, [], stale, false, []⟩⟩

/-- The vectors stay as they were. The client is another one, which nothing was sent to yet. -/
def init (c : ConnData) : ConnData :=
  { c with
    readBuff := c.readBuff.retrieveAll
    conn := { c.conn with writeBuff := c.conn.writeBuff.retrieveAll, sent := [] } }

end ConnData

/-- The server, with what it is started with. -/
def httpServer (verify : Bytes → Bytes → Bool → Bool) (srcDir stale : Bytes) (listenFd : Int)
    (listenET isET : Bool) (timeoutMS : Int) (stray : Nat → Bool) : Setup Calls ConnData where
  listenFd := listenFd
  listenET := listenET
  timeoutMS := timeoutMS
  fresh := .fresh stale
  init := .init
  serve := ConnData.serve verify srcDir isET
  stray := stray

namespace HttpResponse
variable {disk : Disk} {r : HttpResponse} {body : Bytes}

theorem error_body_length (known : r.code = 200 ∨ r.code = 400 ∨ r.code = 403 ∨ r.code = 404) :
    (r.errorBody (ascii "File NotFound!")).length ≤ 256 := by
  unfold errorBody
  rcases known with code | code | code | code <;> rw [code] <;> decide +kernel

theorem file_type_length (r : HttpResponse) : r.getFileType.length ≤ 32 := by
  have types : ∀ entry ∈ suffixType, entry.2.length ≤ 32 := by decide +kernel
  rcases file_type_mem r with plain | ⟨entry, member, same⟩
  · rw [plain]
    decide
  · rw [same]
    exact types entry member

theorem text_length (known : r.code = 200 ∨ r.code = 400 ∨ r.code = 403 ∨ r.code = 404)
    (small : body.length ≤ 2147483647) : (r.text body).length ≤ 512 + body.length := by
  have status : r.stateLine.length ≤ 64 := by
    unfold stateLine
    rcases known with code | code | code | code <;> rw [code] <;> decide +kernel
  have headers : r.headerLines.flatten.length ≤ 128 := by
    have type := file_type_length r
    have name : (ascii "Content-type: ").length = 14 := by decide
    have ends : crlf.length = 2 := rfl
    have first : ([ascii "Connection: "] ++
        (if r.isKeepAlive then [ascii "keep-alive" ++ crlf,
          ascii "keep-alive: max=6, timeout=120" ++ crlf]
          else [ascii "close" ++ crlf])).flatten.length ≤ 64 := by
      split_ifs <;> decide
    unfold headerLines
    rw [List.flatten_append, List.length_append, List.flatten_singleton,
      List.length_append, List.length_append]
    omega
  have number : (decimal body.length).length ≤ 11 := by
    refine decimal_length ?_
    unfold MachineInt.FitsInt MachineInt.intMin MachineInt.intMax
    omega
  have name : (ascii "Content-length: ").length = 16 := by decide
  have ends : crlf.length = 2 := rfl
  unfold text head contentLength
  simp only [List.length_append, name, ends]
  omega

theorem body_length (known : r.code = 200 ∨ r.code = 400 ∨ r.code = 403 ∨ r.code = 404)
    (small : ∀ name file, disk name = some file → file.content.length ≤ maxFile)
    (found : r.bodyOf disk = some body) : body.length ≤ maxFile := by
  have page : (r.errorBody (ascii "File NotFound!")).length ≤ maxFile :=
    (error_body_length known).trans (by decide)
  unfold bodyOf at found
  split at found
  · cases found
    exact page
  · next file opened =>
      split_ifs at found
      · cases found
        exact page
      · cases found
        exact small _ file (Option.filter_eq_some_iff.mp opened).1

end HttpResponse

namespace ConnWrite
variable {c next : ConnWrite} {isET keepAlive : Bool} {os : Nat → Writev}
  {ret : Writev} {outcome : Outcome}

/-- What holds of a connection all the time. -/
structure Fit (c : ConnWrite) : Prop where
  wellFormed : c.writeBuff.WellFormed
  size : c.writeBuff.buffer.length ≤ 2048
  file : c.file.length ≤ maxFile

/-- A response is to be sent. The second vector may be left from one before the connection. -/
structure Loaded (c : ConnWrite) : Prop extends Fit c where
  head : c.head = c.writeBuff.contents
  short : c.head.length ≤ 1024

theorem Loaded.advanced (loaded : Loaded c) {len : Nat} (most : len ≤ c.given.length) :
    ∃ next, c.advance len = .ok next ∧ Loaded next ∧
    next.sent ++ next.given = c.sent ++ c.given := by
  obtain ⟨next, went, aligned, -, head, file, size⟩ :=
    advance_aligned len ⟨loaded.wellFormed, loaded.head⟩
  obtain ⟨rest, -, sent⟩ := advance_given most went
  refine ⟨next, went, ⟨⟨aligned.wellFormed, size.trans_le loaded.size, file.trans loaded.file⟩,
    aligned.head,
    head.trans loaded.short⟩, ?_⟩
  rw [sent, rest, List.append_assoc, List.take_append_drop]

/-- A round moves bytes from what is given to what was sent, if any. -/
theorem write_round_loaded (isET : Bool) (os : Nat → Writev) {s : WriteLoop}
    (loaded : Loaded s.conn) :
    ∃ next, Loaded next ∧ next.sent ++ next.given = s.conn.sent ++ s.conn.given ∧
      (writeRound isET os s = .inl ⟨next, s.calls + 1⟩ ∨ ∃ ret, writeRound isET os s =
        .inr (.ok (next, ret))) := by
  unfold writeRound
  cases taken : s.conn.taken (os s.calls) with
  | inl errno => exact ⟨s.conn, loaded, rfl, .inr ⟨_, rfl⟩⟩
  | inr len =>
      have most : len ≤ s.conn.given.length := by
        unfold ConnWrite.taken at taken
        split at taken
        · cases taken
        · cases taken
          exact Nat.min_le_right _ _
      dsimp only
      by_cases none : len = 0
      · rw [if_pos none]
        exact ⟨s.conn, loaded, rfl, .inr ⟨_, rfl⟩⟩
      · rw [if_neg none]
        by_cases empty : sizeT (s.conn.head.length + s.conn.file.length) = 0
        · rw [if_pos empty]
          exact ⟨s.conn, loaded, rfl, .inr ⟨_, rfl⟩⟩
        · rw [if_neg empty]
          obtain ⟨next, went, good, bytes⟩ := loaded.advanced most
          refine ⟨next, good, bytes, ?_⟩
          rw [went]
          dsimp only
          split_ifs
          · exact .inl rfl
          · exact .inr ⟨_, rfl⟩

theorem write_loaded (loaded : Loaded c) :
    ∃ next ret, c.write isET os = .ok (next, ret) ∧ Loaded next ∧
    next.sent ++ next.given = c.sent ++ c.given := by
  refine Loop.run_induction (motive := fun (s : WriteLoop) value => Loaded s.conn → ∃ next ret,
    value = Except.ok (next, ret) ∧ Loaded next ∧ next.sent ++ next.given =
      s.conn.sent ++ s.conn.given)
    ?_ ?_ ⟨c, 0⟩ loaded
  · intro s later value round ih good
    obtain ⟨next, fine, bytes, again | ⟨ret, ends⟩⟩ := write_round_loaded isET os good
    · cases again.symm.trans round
      obtain ⟨last, ret, result, loaded, all⟩ := ih fine
      exact ⟨last, ret, result, loaded, all.trans bytes⟩
    · cases ends.symm.trans round
  · intro s value round good
    obtain ⟨next, fine, bytes, again | ⟨ret, ends⟩⟩ := write_round_loaded isET os good
    · cases again.symm.trans round
    · cases ends.symm.trans round
      exact ⟨next, ret, rfl, fine, bytes⟩

/-- The int of ToWriteBytes is right. -/
theorem Loaded.to_write_bytes (loaded : Loaded c) : c.toWriteBytes =
    (c.head.length + c.file.length : Nat) := by
  have head := loaded.short
  have file := loaded.file
  have limit : maxFile = 2147482623 := rfl
  have whole : sizeT (c.head.length + c.file.length) = c.head.length + c.file.length := by
    unfold sizeT
    omega
  rw [toWriteBytes, whole]
  exact MachineInt.toInt_of_fits
    (by unfold MachineInt.FitsInt MachineInt.intMin MachineInt.intMax; omega)

theorem on_write_loaded (loaded : Loaded c) :
    ∃ next outcome, c.onWrite isET keepAlive os = .ok (next, outcome) ∧
    Loaded next ∧ next.sent ++ next.given = c.sent ++ c.given ∧
    (outcome = .process → next.head = [] ∧ next.file = []) := by
  obtain ⟨next, ret, went, good, bytes⟩ := @write_loaded c isET os loaded
  have outcome : ∃ outcome, c.onWrite isET keepAlive os = .ok (next, outcome) ∧
      (outcome = .process → next.toWriteBytes = 0) := by
    unfold onWrite
    rw [went]
    dsimp only
    split_ifs with sent keep again
    · exact ⟨_, rfl, fun _ => sent⟩
    · exact ⟨_, rfl, nofun⟩
    · exact ⟨_, rfl, nofun⟩
    · exact ⟨_, rfl, nofun⟩
  obtain ⟨outcome, result, sent⟩ := outcome
  refine ⟨next, outcome, result, good, bytes, fun goesOn => ?_⟩
  have total := good.to_write_bytes.symm.trans (sent goesOn)
  exact ⟨List.eq_nil_of_length_eq_zero (by omega), List.eq_nil_of_length_eq_zero (by omega)⟩

end ConnWrite

namespace ConnData
variable {verify : Bytes → Bytes → Bool → Bool} {srcDir : Bytes} {isET : Bool}
  {c next : ConnData} {exit : Exit}

/-- Whole responses, one after the other. -/
def Streams (bytes : Bytes) : Prop :=
  ∃ responses : List Bytes, (∀ response ∈ responses, HttpResponse.Framed response) ∧
    bytes = responses.flatten

theorem Streams.add {bytes response : Bytes} (streams : Streams bytes)
    (framed : HttpResponse.Framed response) :
    Streams (bytes ++ response) := by
  obtain ⟨responses, whole, rfl⟩ := streams
  refine ⟨responses ++ [response], fun other member => ?_, by simp⟩
  rcases List.mem_append.mp member with before | last
  · exact whole other before
  · rw [List.mem_singleton.mp last]
    exact framed

/-- A connection that is due for this. -/
structure Sound (c : ConnData) (exit : Exit) : Prop where
  readBuff : c.readBuff.WellFormed
  fit : ConnWrite.Fit c.conn
  told : match exit with
    | some .epollin => c.conn.writeBuff.contents = [] ∧ Streams c.conn.sent
    | some .epollout => ConnWrite.Loaded c.conn ∧ Streams (c.conn.sent ++ c.conn.given)
    | none => ∃ rest, Streams (c.conn.sent ++ rest)

theorem Sound.streams (sound : Sound c exit) : ∃ rest, Streams (c.conn.sent ++ rest) := by
  have told := sound.told
  match exit, told with
  | some .epollin, told => exact ⟨[], by rw [List.append_nil]; exact told.2⟩
  | some .epollout, told => exact ⟨_, told.2⟩
  | none, told => exact told

theorem answer_code {b readBuff : Buffer} {answer : HttpRequest.Answer} {request : HttpRequest}
    (parsed : HttpRequest.process verify b = .ok (some answer, request, readBuff)) :
    answer.code = 200 ∨ answer.code = 400 := by
  unfold HttpRequest.process at parsed
  split_ifs at parsed
  · cases parsed
  · split at parsed
    · cases parsed
    · cases parsed
      exact .inl rfl
    · cases parsed
      exact .inr rfl

theorem answered_sound {disk : Disk} {answer : HttpRequest.Answer}
    {request : HttpRequest} {readBuff : Buffer}
    {body : Bytes} (sound : Sound c (some .epollin)) (wellFormed : readBuff.WellFormed)
    (known : answer.code = 200 ∨ answer.code = 400) (size : body.length ≤ maxFile)
    (answered : Answered c next request readBuff (responseTo disk srcDir answer) body) :
    Sound next (some .epollout) := by
  obtain ⟨empty, streams⟩ := sound.told
  have limit : maxFile = 2147482623 := rfl
  have codes : (answer.code : Int) = 200 ∨ (answer.code : Int) = 400 := by omega
  have chosen : (responseTo disk srcDir answer).code = 200 ∨
      (responseTo disk srcDir answer).code = 400 ∨
      (responseTo disk srcDir answer).code = 403 ∨ (responseTo disk srcDir answer).code = 404 :=
    HttpResponse.chosen_code_cases codes
  have given : next.conn.given = (responseTo disk srcDir answer).text body := by
    rw [answered.given, empty, List.nil_append]
  have int : body.length ≤ 2147483647 := by omega
  have long := HttpResponse.text_length chosen int
  have short : next.conn.head.length ≤ 1024 := by
    rcases answered.file with ⟨both, file⟩ | ⟨single, -, message⟩
    · have whole : next.conn.head ++ next.conn.file =
          (responseTo disk srcDir answer).text body := by
        rw [← given, ConnWrite.given, if_pos both]
      have lengths := congrArg List.length whole
      rw [List.length_append, file] at lengths
      omega
    · have whole : next.conn.head = (responseTo disk srcDir answer).text body := by
        rw [← given, ConnWrite.given, if_neg (Bool.eq_false_iff.mp single)]
      have page := HttpResponse.error_body_length chosen
      rw [← message] at page
      rw [whole]
      omega
  have file : next.conn.file.length ≤ maxFile := by
    rcases answered.file with ⟨-, file⟩ | ⟨-, same, -⟩
    · rw [file]
      exact size
    · rw [same]
      exact sound.fit.file
  have bound := sound.fit.size
  have grown := answered.size
  have fit : ConnWrite.Fit next.conn := ⟨answered.wellFormed, by omega, file⟩
  refine ⟨answered.readBuff ▸ wellFormed, fit, ⟨fit, answered.head, short⟩, ?_⟩
  rw [answered.sent, given]
  exact streams.add (HttpResponse.chosen_framed codes body)

theorem on_process_sound {disk : Disk} (dir : srcDir ≠ [])
    (small : ∀ name file, disk name = some file → file.content.length ≤ maxFile)
    (sound : Sound c (some .epollin)) (went : onProcess verify srcDir disk c = .ok (next, exit)) :
    Sound next exit := by
  unfold onProcess at went
  cases parsed : HttpRequest.process verify c.readBuff with
  | error fault =>
      unfold process at went
      rw [parsed] at went
      cases went
  | ok result =>
      obtain ⟨answer, request, readBuff⟩ := result
      have wellFormed := HttpRequest.process_well_formed verify sound.readBuff parsed
      cases answer with
      | none =>
          unfold process at went
          rw [parsed] at went
          cases went
          exact ⟨wellFormed, sound.fit, sound.told⟩
      | some answer =>
          have known := answer_code parsed
          have codes : (answer.code : Int) = 200 ∨ (answer.code : Int) = 400 := by omega
          have sizes (body : Bytes) (found : (responseTo disk srcDir answer).bodyOf disk =
              some body) :
              body.length ≤ maxFile :=
            HttpResponse.body_length (HttpResponse.chosen_code_cases codes) small found
          have least : ((((responseTo disk srcDir answer).bodyOf disk).getD []).length) ≤
              maxFile := by
            cases found : (responseTo disk srcDir answer).bodyOf disk with
            | none => exact Nat.zero_le _
            | some body => exact sizes body found
          have limit : maxFile = 2147482623 := rfl
          have most : maxSize = 9223372036854775807 := rfl
          have long := HttpResponse.text_length (r := responseTo disk srcDir answer)
            (HttpResponse.chosen_code_cases codes) (least.trans (by omega))
          have bound := sound.fit.size
          have room : c.conn.writeBuff.buffer.length + ((responseTo disk srcDir answer).text
              (((responseTo disk srcDir answer).bodyOf disk).getD [])).length + 7 ≤
                maxSize := by omega
          have answered := process_answer parsed known dir sound.fit.wellFormed room
          cases found : (responseTo disk srcDir answer).bodyOf disk with
          | none =>
              rw [found] at answered
              dsimp only at answered
              rw [answered] at went
              cases went
          | some body =>
              rw [found] at answered
              obtain ⟨other, processed, answered⟩ := answered
              rw [processed] at went
              cases went
              exact answered_sound sound wellFormed known (sizes body found) answered

theorem read_fd_well_formed {buff after : Buffer} {piece : Bytes} {len : Nat}
    (wellFormed : buff.WellFormed)
    (went : buff.readFd (some (piece.take (min maxSize len))) = .ok after) : after.WellFormed := by
  have object : (piece.take (min maxSize len)).length ≤ maxSize := by
    rw [List.length_take]
    omega
  rcases Buffer.read_fd_spec wellFormed object with ⟨-, failed⟩ | ⟨next, took, good, -⟩
  · cases failed.symm.trans went
  · cases took.symm.trans went
    exact good

theorem read_well_formed {last : Option Errno} {pieces : List Bytes}
    {buff after : Buffer} {ret : Errno ⊕ Nat}
    (wellFormed : buff.WellFormed) (went : read isET last pieces buff = .ok (ret, after)) :
    after.WellFormed := by
  induction pieces generalizing buff with
  | nil =>
      cases went
      exact wellFormed
  | cons piece pieces ih =>
      unfold read at went
      dsimp only at went
      split_ifs at went with none edge
      · cases went
        exact wellFormed
      · split at went
        · cases went
        · next next taken => exact ih (read_fd_well_formed wellFormed taken) went
      · split at went
        · cases went
        · next next taken =>
            cases went
            exact read_fd_well_formed wellFormed taken

theorem on_read_sound {calls : Calls} (dir : srcDir ≠ []) (sound : Sound c (some .epollin))
    (went : onRead verify srcDir isET calls c = .ok (next, exit)) : Sound next exit := by
  unfold onRead at went
  split at went
  · cases went
  · next ret readBuff taken =>
      have filled : Sound { c with readBuff := readBuff } (some .epollin) :=
        ⟨read_well_formed sound.readBuff taken, sound.fit, sound.told⟩
      have closed : Sound { c with readBuff := readBuff } none :=
        ⟨filled.readBuff, filled.fit, [], by rw [List.append_nil]; exact filled.told.2⟩
      dsimp only at went
      split at went
      · exact on_process_sound dir calls.small filled went
      · cases went
        exact closed
      · split_ifs at went
        · cases went
          exact closed
        · exact on_process_sound dir calls.small filled went

theorem on_write_sound {calls : Calls} (dir : srcDir ≠ []) (sound : Sound c (some .epollout))
    (went : onWrite verify srcDir isET calls c = .ok (next, exit)) : Sound next exit := by
  obtain ⟨loaded, streams⟩ := sound.told
  obtain ⟨conn, outcome, wrote, good, bytes, sent⟩ := ConnWrite.on_write_loaded loaded
  rw [← bytes] at streams
  unfold onWrite at went
  rw [wrote] at went
  dsimp only at went
  cases outcome with
  | process =>
      obtain ⟨head, file⟩ := sent rfl
      have empty : conn.given = [] := by
        unfold ConnWrite.given
        rw [head, file]
        split_ifs <;> rfl
      rw [empty, List.append_nil] at streams
      exact @on_process_sound _ _ { c with conn := conn } _ _ _ dir calls.small
        ⟨sound.readBuff, good.toFit, good.head.symm.trans head, streams⟩ went
  | writable =>
      cases went
      exact ⟨sound.readBuff, good.toFit, good, streams⟩
  | close =>
      cases went
      exact ⟨sound.readBuff, good.toFit, conn.given, streams⟩

theorem serve_sound {kind : TaskKind} {calls : Calls} (dir : srcDir ≠ [])
    (sound : Sound c (some kind.interest))
    (served : serve verify srcDir isET kind calls c = some (next, exit)) : Sound next exit := by
  unfold serve at served
  cases kind with
  | onRead =>
      cases result : onRead verify srcDir isET calls c with
      | error fault =>
          rw [result] at served
          cases served
      | ok pair =>
          rw [result] at served
          cases served
          exact on_read_sound dir sound result
  | onWrite =>
      cases result : onWrite verify srcDir isET calls c with
      | error fault =>
          rw [result] at served
          cases served
      | ok pair =>
          rw [result] at served
          cases served
          exact on_write_sound dir sound result

theorem init_sound (readBuff : c.readBuff.WellFormed) (fit : ConnWrite.Fit c.conn) :
    Sound c.init (some .epollin) := by
  obtain ⟨cleared, -, -⟩ := Buffer.retrieve_all_spec readBuff
  obtain ⟨wellFormed, empty, size⟩ := Buffer.retrieve_all_spec fit.wellFormed
  exact ⟨cleared, ⟨wellFormed, size.trans_le fit.size, fit.file⟩, empty, [], nofun, rfl⟩

theorem fresh_fit {stale : Bytes} (garbage : stale.length ≤ maxFile) :
    (fresh stale).readBuff.WellFormed ∧ ConnWrite.Fit (fresh stale).conn := by
  have room : (Buffer.init 1024).buffer.length = 1024 := List.length_replicate
  have wellFormed : (Buffer.init 1024).WellFormed :=
    ⟨Nat.le_refl 0, Nat.zero_le _, room.trans_le (by decide)⟩
  exact ⟨wellFormed, wellFormed, room.trans_le (by decide), garbage⟩

end ConnData

section Runs
variable {verify : Bytes → Bytes → Bool → Bool} {srcDir stale : Bytes} {listenFd : Int}
  {listenET isET : Bool} {timeoutMS : Int} {stray : Nat → Bool}

theorem session_sound (dir : srcDir ≠ []) (garbage : stale.length ≤ maxFile)
    {c : ConnData} {exit : Exit}
    (session : Session
      (httpServer verify srcDir stale listenFd listenET isET timeoutMS stray) c exit) :
    ConnData.Sound c exit := by
  induction session with
  | start =>
      obtain ⟨readBuff, fit⟩ := ConnData.fresh_fit garbage
      exact ConnData.init_sound readBuff fit
  | again session ih => exact ConnData.init_sound ih.readBuff ih.fit
  | serve kind calls session served ih => exact ConnData.serve_sound dir ih served

namespace Server
variable {W : Type} [Fintype W] [DecidableEq W] {s : Server W ConnData} {fd : Int} {c : ConnData}

theorem sent_whole (dir : srcDir ≠ []) (garbage : stale.length ≤ maxFile)
    (reached : Reached
      (httpServer verify srcDir stale listenFd listenET isET timeoutMS stray) Calm s)
    (here : s.dataOf fd = some c) : ∃ (responses : List Bytes) (part : Bytes),
    (∀ response ∈ responses, HttpResponse.Framed response) ∧ c.conn.sent =
    responses.flatten ++ part ∧
      PrefixCode.Unfinished HttpResponse.Framed part ∧
      (s.epoll fd = .armed .epollin → part = []) := by
  obtain ⟨-, fits⟩ := reached_sound reached
  by_cases armed : s.epoll fd = .armed .epollin
  · obtain ⟨-, responses, whole, sent⟩ :=
      (session_sound dir garbage (fits.armed fd _ c armed here)).told
    exact ⟨responses, [], whole, by rw [sent, List.append_nil], .inl rfl, fun _ => rfl⟩
  · obtain ⟨exit, session⟩ := fits.sessions fd c here
    obtain ⟨rest, responses, whole, sent⟩ := (session_sound dir garbage session).streams
    obtain ⟨done, part, finished, taken, unfinished⟩ := PrefixCode.taken whole sent
    exact ⟨done, part, finished, taken, unfinished, fun there => absurd there armed⟩

/-- What a client has got is whole responses and a part of one, however the loop, the timers and
the workers take turns, and a client that takes whole responses off it takes these, in their
order. A connection that waits for a request has sent no part. -/
theorem responses_whole (dir : srcDir ≠ []) (garbage : stale.length ≤ maxFile)
    (reached : Reached
      (httpServer verify srcDir stale listenFd listenET isET timeoutMS stray) Calm s)
    (here : s.dataOf fd = some c) : ∃ responses : List Bytes, ∃ part rest,
    (∀ response ∈ responses, HttpResponse.Framed response) ∧
      c.conn.sent = responses.flatten ++ part ∧
      (part = [] ∨ HttpResponse.Framed (part ++ rest)) ∧
      (s.epoll fd = .armed .epollin → part = []) ∧
      ∀ others : List Bytes, (∀ other ∈ others, HttpResponse.Framed other) →
        others.flatten <+: c.conn.sent → others <+: responses := by
  obtain ⟨responses, part, whole, sent, unfinished, waits⟩ :=
    sent_whole dir garbage reached here
  have takes : ∀ others : List Bytes, (∀ other ∈ others, HttpResponse.Framed other) →
      others.flatten <+: c.conn.sent → others <+: responses := fun others also begins =>
    HttpResponse.framed_code.read whole also unfinished (sent ▸ begins)
  rcases unfinished with none | ⟨rest, -, framed⟩
  · exact ⟨responses, part, [], whole, sent, .inl none, waits, takes⟩
  · exact ⟨responses, part, rest, whole, sent, .inr framed, waits, takes⟩

omit [Fintype W] in
theorem run_served {Choice Data : Type} {setup : Setup Choice Data} {s : Server W Data}
    {w : W} {choice : Choice}
    {task : Task} {data result : Data} {exit : Exit} {conn : HttpConn Data}
    (running : s.workers w = .running task data) (user : s.users task.fd = some conn)
    (served : setup.serve task.kind choice data = some (result, exit)) :
    s.step setup (.run w choice) =
      some (.ok ((s.setConn task.fd { conn with data := result }).workerTo w
        (.leaving task.fd exit))) := by
  show s.run setup w choice = _
  unfold run
  rw [running]
  dsimp only
  rw [served, user]

/-- A client says hello, which is no request, to a server without files. -/
def hello : Calls where
  pieces := [ascii "hello"]
  last := some .again
  writev _ := .inr 1024
  disk _ := none
  small := nofun

def helloServer : Setup Calls ConnData :=
  httpServer (fun _ _ _ => false) (ascii "/srv") [] 3 false true 0 fun _ => true

theorem hello_served : ∃ read sent : ConnData,
    helloServer.serve .onRead hello (helloServer.init helloServer.fresh) =
    some (read, some .epollout) ∧
    helloServer.serve .onWrite hello read = some (sent, none) ∧
    sent.conn.sent.take 22 = ascii "HTTP/1.1 404 Not Found" := by
  have whole :
      ((helloServer.serve .onRead hello (helloServer.init helloServer.fresh)).bind fun one =>
      (helloServer.serve .onWrite hello one.1).map fun two =>
        (one.2, two.2, two.1.conn.sent.take 22)) =
        some (some .epollout, none, ascii "HTTP/1.1 404 Not Found") := by decide +kernel
  obtain ⟨⟨read, one⟩, reads, whole⟩ := Option.bind_eq_some_iff.mp whole
  obtain ⟨⟨sent, two⟩, sends, whole⟩ := Option.map_eq_some_iff.mp whole
  rw [Prod.mk.injEq, Prod.mk.injEq] at whole
  obtain ⟨rfl, rfl, status⟩ := whole
  exact ⟨read, sent, reads, sends, status⟩

theorem hello_reached : ∃ (s : Server Unit ConnData) (c : ConnData),
    Reached helloServer (Calm : Server Unit ConnData → Action Unit Calls → Prop) s ∧
    s.dataOf 5 = some c ∧
    c.conn.sent.take 22 = ascii "HTTP/1.1 404 Not Found" := by
  obtain ⟨read, sent, reads, sends, status⟩ := hello_served
  have onward : (0 : Int) ≤ 0 ∧ (∀ _ : Nat, (0 : Int) ≤ 0) ∧ ∀ _ : Nat, (0 : Int) ≤ 0 :=
    ⟨Int.le_refl _, fun _ => Int.le_refl _, fun _ => Int.le_refl _⟩
  have ticked : Reached helloServer Calm (_ : Server Unit ConnData) :=
    .step (.tick (fun _ => 0) 0) (.start 0) onward trivial rfl
  have waited : Reached helloServer Calm (_ : Server Unit ConnData) :=
    .step (.wait [(3, ⟨false, true, false⟩)]) ticked trivial trivial rfl
  have listens : Reached helloServer Calm (_ : Server Unit ConnData) :=
    .step (.handle 0) waited (Int.le_refl _) trivial rfl
  have accepted : Reached helloServer Calm (_ : Server Unit ConnData) :=
    .step (.accept (some 5) 0) listens (Int.le_refl _) trivial rfl
  have again : Reached helloServer Calm (_ : Server Unit ConnData) :=
    .step (.tick (fun _ => 0) 0) accepted onward trivial rfl
  have reports : Reached helloServer Calm (_ : Server Unit ConnData) :=
    .step (.wait [(5, ⟨false, true, false⟩)]) again trivial trivial rfl
  have dealt : Reached helloServer Calm (_ : Server Unit ConnData) :=
    .step (.handle 0) reports (Int.le_refl _) trivial rfl
  have taken : Reached helloServer Calm (_ : Server Unit ConnData) :=
    .step (.take ()) dealt trivial trivial rfl
  have ran : Reached helloServer Calm (_ : Server Unit ConnData) :=
    .step (.run () hello) taken trivial trivial (run_served rfl rfl reads)
  have left : Reached helloServer Calm (_ : Server Unit ConnData) :=
    .step (.leave ()) ran trivial trivial rfl
  have next : Reached helloServer Calm (_ : Server Unit ConnData) :=
    .step (.tick (fun _ => 0) 0) left onward trivial rfl
  have writable : Reached helloServer Calm (_ : Server Unit ConnData) :=
    .step (.wait [(5, ⟨false, false, true⟩)]) next trivial trivial rfl
  have due : Reached helloServer Calm (_ : Server Unit ConnData) :=
    .step (.handle 0) writable (Int.le_refl _) trivial rfl
  have back : Reached helloServer Calm (_ : Server Unit ConnData) :=
    .step (.take ()) due trivial trivial rfl
  exact ⟨_, sent, .step (.run () hello) back trivial trivial
    (run_served rfl rfl sends), rfl, status⟩

theorem responses_whole_hello : ∃ (s : Server Unit ConnData) (c : ConnData), s.dataOf 5 = some c ∧
    c.conn.sent.take 22 = ascii "HTTP/1.1 404 Not Found" ∧ ∃ responses : List Bytes, ∃ part rest,
    (∀ response ∈ responses, HttpResponse.Framed response) ∧
      c.conn.sent = responses.flatten ++ part ∧
      (part = [] ∨ HttpResponse.Framed (part ++ rest)) ∧
      (s.epoll 5 = .armed .epollin → part = []) ∧
      ∀ others : List Bytes, (∀ other ∈ others, HttpResponse.Framed other) →
        others.flatten <+: c.conn.sent → others <+: responses := by
  obtain ⟨s, c, reached, here, status⟩ := hello_reached
  exact ⟨s, c, here, status, responses_whole (by decide) (Nat.zero_le _) reached here⟩

end Server

end Runs

end StudyWebServer.WebServer
