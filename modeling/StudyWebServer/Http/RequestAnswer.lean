import StudyWebServer.Http.Delivery
import StudyWebServer.Http.Operations
import StudyWebServer.Http.WebRoot

/-!
What a request is answered with depends on its head and on the disk alone: not
on the pieces it came in, and not on what the object held before init().
-/

namespace StudyWebServer

open ByteMemory CString MachineInt CrlfLines

/-- The members that process_write reads. -/
structure SameAnswer (c d : HttpConn) : Prop where
  linger : c.linger = d.linger
  fileAddress : c.fileAddress = d.fileAddress
  fileStat : c.fileStat = d.fileStat
  writeIdx : c.writeIdx = d.writeIdx
  writeBuf : ∀ key < writeBufferSize, c.writeBuf key = d.writeBuf key

/-- The same text added to both. -/
def AddsSame (add : HttpConn → Outcome Bool) : Prop :=
  ∀ c d, SameAnswer c d → (add c).ret = (add d).ret ∧ SameAnswer (add c).conn (add d).conn

theorem AddsSame.andThen {first second : HttpConn → Outcome Bool} (one : AddsSame first)
    (other : AddsSame second) : AddsSame fun c => (first c).andThen second := by
  intro c d same
  exact other _ _ (one c d same).2

theorem store_list_same {first second : Memory} {limit : Nat} (index : Nat) (bytes : List UInt8)
    (same : ∀ key < limit, first key = second key) :
    ∀ key < limit, storeList first index bytes key = storeList second index bytes key := by
  intro key below
  simp only [storeList, same key below]

theorem add_response_same (formatted : List UInt8) : AddsSame (addResponse formatted) := by
  intro c d same
  by_cases full : writeBufferSize ≤ d.writeIdx
  · simp only [addResponse, same.writeIdx, full, ↓reduceIte]
    exact ⟨trivial, same⟩
  · simp only [addResponse, same.writeIdx, full, ↓reduceIte]
    generalize (if writeBufferSize - 1 - d.writeIdx = 0 then [] else
      formatted.take (writeBufferSize - 1 - d.writeIdx - 1) ++ [(0 : UInt8)]) = written
    have buffer := store_list_same d.writeIdx written same.writeBuf
    split_ifs
    · exact ⟨rfl, same.linger, same.fileAddress, same.fileStat, rfl, buffer⟩
    · exact ⟨rfl, same.linger, same.fileAddress, same.fileStat, rfl, buffer⟩

theorem add_headers_same (contentLen : Int) : AddsSame (addHeaders contentLen) := by
  have length : AddsSame (addContentLength contentLen) := add_response_same _
  have type : AddsSame addContentType := add_response_same _
  have linger : AddsSame addLinger := by
    intro c d same
    have text : addLinger c = addResponse (lingerText d.linger) c := by
      rw [addLinger, same.linger]
    rw [text]
    exact add_response_same (lingerText d.linger) c d same
  have blank : AddsSame addBlankLine := add_response_same _
  exact ((length.andThen type).andThen linger).andThen blank

theorem add_head_same (status : Int) (title : List UInt8) (contentLen : Int) :
    AddsSame fun c => (addStatusLine status title c).andThen (addHeaders contentLen) :=
  AddsSame.andThen (add_response_same _) (add_headers_same contentLen)

/-- The bytes of a response from the same answer are the same. -/
theorem SameAnswer.response {c d : HttpConn} (pages : Memory) (ret : HttpCode)
    (same : SameAnswer c d) (inside : d.writeIdx ≤ writeBufferSize) :
    response pages ret c = response pages ret d := by
  have header : headerBytes c = headerBytes d := by
    unfold headerBytes
    rw [same.writeIdx]
    apply List.map_congr_left
    intro key member
    rw [same.writeBuf key (Nat.lt_of_lt_of_le (List.mem_range.mp member) inside)]
  have file : fileBytes pages c = fileBytes pages d := by
    unfold fileBytes
    rw [same.fileAddress, same.fileStat]
  rw [StudyWebServer.response, header, file]
  rfl

theorem write_form_same (status : Int) (title form : List UInt8) {c d : HttpConn}
    (same : SameAnswer c d) :
    SameAnswer (writeForm status title form c).conn (writeForm status title form d).conn := by
  have both : AddsSame fun c => ((addStatusLine status title c).andThen
      (addHeaders (toInt form.length))).andThen (addContent form) :=
    (add_head_same status title (toInt form.length)).andThen (add_response_same form)
  obtain ⟨ret, conn⟩ := both c d same
  unfold writeForm
  dsimp only at ret conn ⊢
  generalize ((addStatusLine status title c).andThen (addHeaders (toInt form.length))).andThen
    (addContent form) = one at ret conn ⊢
  generalize ((addStatusLine status title d).andThen (addHeaders (toInt form.length))).andThen
    (addContent form) = other at ret conn ⊢
  rw [ret]
  split_ifs
  · exact ⟨conn.linger, conn.fileAddress, conn.fileStat, conn.writeIdx, conn.writeBuf⟩
  · exact conn

theorem SameAnswer.setIovFile {c d : HttpConn} (same : SameAnswer c d) :
    SameAnswer (setIovFile c) (setIovFile d) :=
  ⟨same.linger, same.fileAddress, same.fileStat, same.writeIdx, same.writeBuf⟩

theorem write_file_same {c d : HttpConn} (same : SameAnswer c d) :
    SameAnswer (processWrite .fileRequest c).conn (processWrite .fileRequest d).conn := by
  have answer (c : HttpConn) : (processWrite .fileRequest c).conn = setIovFile
      ((addStatusLine 200 (ascii "OK") c).andThen (addHeaders (toInt c.fileStat.stSize))).conn :=
        rfl
  rw [answer, answer, same.fileStat]
  exact (add_head_same 200 (ascii "OK") (toInt d.fileStat.stSize) c d same).2.setIovFile

theorem process_write_same (ret : HttpCode) {c d : HttpConn} (same : SameAnswer c d) :
    SameAnswer (processWrite ret c).conn (processWrite ret d).conn := by
  cases write_branch ret with
  | form status title body text other short form =>
      rw [form, form]
      exact write_form_same status title body same
  | file is =>
      rw [is]
      exact write_file_same same
  | none other form =>
      rw [form, form]
      exact same

section Disk
variable {fs : FileSystem} {c : HttpConn}

def statAt (fs : FileSystem) (path : List UInt8) : FileStat := (fs.stat path).getD ⟨0, 0⟩

def mappedAt (fs : FileSystem) (path : List UInt8) : Nat :=
  if answerFor fs path = .fileRequest then fs.mmap path (statAt fs path).stSize else 0

/-- An object as init() leaves it for process_read and process_write. -/
structure Cleared (c : HttpConn) : Prop where
  last : c.realFile (filenameLen - 1) = 0
  fileAddress : c.fileAddress = 0
  fileStat : c.fileStat = ⟨0, 0⟩
  writeIdx : c.writeIdx = 0
  writeBuf : ∀ key < writeBufferSize, c.writeBuf key = 0

theorem init_cleared (c : HttpConn) : Cleared (init c).conn := by
  rw [init_conn]
  exact ⟨rfl, rfl, rfl, rfl, fun key below => if_pos below⟩

theorem Cleared.keep {d : HttpConn} (cleared : Cleared c) (same : ResponseSame c d) : Cleared d :=
  ⟨by rw [same.realFile, cleared.last], same.fileAddress.trans cleared.fileAddress,
    same.fileStat.trans cleared.fileStat, same.writeIdx.trans cleared.writeIdx,
    fun key below => by rw [same.writeBuf, cleared.writeBuf key below]⟩

/-- The members behind process_read for a request for this path. -/
structure AnsweredAt (fs : FileSystem) (path : List UInt8) (linger : Bool)
    (value : Outcome HttpCode) : Prop where
  ret : value.ret = answerFor fs path
  linger : value.conn.linger = linger
  fileAddress : value.conn.fileAddress = mappedAt fs path
  fileStat : value.conn.fileStat = statAt fs path
  writeIdx : value.conn.writeIdx = 0
  writeBuf : ∀ key < writeBufferSize, value.conn.writeBuf key = 0

theorem do_request_answered_at (rooted : Rooted (urlString fs c)) (cleared : Cleared c) :
    AnsweredAt fs (docRoot ++ (urlString fs c).take urlRoom) c.linger (doRequest fs c) := by
  have copied := (copy_real_file_path rooted.free cleared.last).cstr_eq
  rw [← copied]
  unfold doRequest
  dsimp only
  split
  -- stat fails.
  · next missing =>
      have code : answerFor fs (cstr (copyRealFile (urlString fs c) c.realFile) filenameLen 0) =
          .noResource := by
        unfold answerFor
        unfold realPath at missing
        rw [missing]
      unfold realPath at missing
      refine ⟨code.symm, rfl, ?_, ?_, cleared.writeIdx, cleared.writeBuf⟩
      · rw [mappedAt, code, if_neg (by decide)]
        exact cleared.fileAddress
      · rw [statAt, missing]
        exact cleared.fileStat
  -- stat succeeds; then come the tests of S_IROTH and S_ISDIR, and the mapping.
  · next stat found =>
      unfold realPath at found
      have same : statAt fs (cstr (copyRealFile (urlString fs c) c.realFile) filenameLen 0) =
          stat := by
        rw [statAt, found]
        rfl
      have code : answerFor fs (cstr (copyRealFile (urlString fs c) c.realFile) filenameLen 0) =
          if stat.stMode &&& 4 = 0 then .forbiddenRequest
          else if stat.stMode &&& 61440 = 16384 then .badRequest else .fileRequest := by
        unfold answerFor
        rw [found]
      by_cases unreadable : stat.stMode &&& 4 = 0
      · rw [if_pos unreadable] at code ⊢
        refine ⟨code.symm, rfl, ?_, same.symm, cleared.writeIdx, cleared.writeBuf⟩
        rw [mappedAt, code, if_neg (by decide)]
        exact cleared.fileAddress
      · rw [if_neg unreadable] at code ⊢
        by_cases directory : stat.stMode &&& 61440 = 16384
        · rw [if_pos directory] at code ⊢
          refine ⟨code.symm, rfl, ?_, same.symm, cleared.writeIdx, cleared.writeBuf⟩
          rw [mappedAt, code, if_neg (by decide)]
          exact cleared.fileAddress
        · rw [if_neg directory] at code ⊢
          refine ⟨code.symm, rfl, ?_, same.symm, cleared.writeIdx, cleared.writeBuf⟩
          rw [mappedAt, code, if_pos rfl, same]
          rfl

end Disk

section Request
variable {fs : FileSystem}

def headUrl (h : Reader) : List UInt8 := (h.url.map Url.string).getD []

/-- A request without a body, whatever pieces it came in. -/
theorem request_answered_at (c : HttpConn) {chunks : List (List UInt8)} {h : Reader}
    (complete : readHead (Reader.fresh.feed chunks.flatten) = .complete h)
    (room : chunks.flatten.length ≤ readBufferSize) (empty : h.contentLength = 0) :
    AnsweredAt fs (docRoot ++ (headUrl h).take urlRoom) h.linger
      (receive fs (init c).conn chunks) := by
  have agrees := init_receives fs c chunks room
  have reads := request_reads chunks complete room
  have served := reads.served.mpr (.inl empty)
  obtain ⟨url, found, rooted⟩ := read_head_rooted complete rfl
  have same : servedUrl h = h.url := if_neg (by omega)
  have result := agrees.result
  rw [served] at result
  obtain ⟨d, ret, conn, answered, kept⟩ := result
  have string : urlString fs d = headUrl h := by
    rw [answered.url, reads.url served, same, found]
    rw [headUrl, found]
    rfl
  have linger : d.linger = h.linger := answered.linger.trans reads.linger
  have disk := @do_request_answered_at fs d
    (by rw [string, headUrl, found]; exact rooted) ((init_cleared c).keep kept)
  rw [string, linger] at disk
  exact ⟨ret.trans disk.ret, conn ▸ disk.linger, conn ▸ disk.fileAddress, conn ▸ disk.fileStat,
    conn ▸ disk.writeIdx, fun key below => conn ▸ disk.writeBuf key below⟩

theorem AnsweredAt.same {path : List UInt8} {linger : Bool} {one other : Outcome HttpCode}
    (first : AnsweredAt fs path linger one) (second : AnsweredAt fs path linger other) :
    SameAnswer one.conn other.conn :=
  ⟨first.linger.trans second.linger.symm, first.fileAddress.trans second.fileAddress.symm,
    first.fileStat.trans second.fileStat.symm, first.writeIdx.trans second.writeIdx.symm,
    fun key below => (first.writeBuf key below).trans (second.writeBuf key below).symm⟩

theorem answer_for_answer (fs : FileSystem) (path : List UInt8) : (answerFor fs path).Answer := by
  unfold answerFor
  split
  · exact .inr (.inl rfl)
  · split_ifs
    · exact .inr (.inr (.inl rfl))
    · exact .inl rfl
    · exact .inr (.inr (.inr rfl))

/-- The response that process_write makes of a value of process_read. -/
def responseFor (fs : FileSystem) (value : Outcome HttpCode) : List SentByte :=
  response fs.pages value.ret (processWrite value.ret value.conn).conn

/-- The response to a request that a connection gets alone and at once. -/
def responseTo (fs : FileSystem) (request : List UInt8) : List SentByte :=
  responseFor fs (receive fs (init .unused).conn [request])

theorem AnsweredAt.prepared {path : List UInt8} {linger : Bool} {value : Outcome HttpCode}
    (answered : AnsweredAt fs path linger value) :
    (processWrite value.ret value.conn).ret = true ∧
      Prepared value.ret value.conn (processWrite value.ret value.conn).conn ∧
      (processWrite value.ret value.conn).conn.writeIdx < writeBufferSize := by
  have code : value.ret.Answer := answered.ret ▸ answer_for_answer fs path
  have written := process_write_succeeds answered.writeIdx code
  have ready := process_write_prepared written
  refine ⟨written, ready, ready.inside ?_⟩
  rw [answered.writeIdx]
  decide

theorem response_for_same {path : List UInt8} {linger : Bool} {one other : Outcome HttpCode}
    (first : AnsweredAt fs path linger one) (second : AnsweredAt fs path linger other) :
    responseFor fs one = responseFor fs other := by
  have code : one.ret = other.ret := first.ret.trans second.ret.symm
  have answer := process_write_same other.ret (first.same second)
  rw [responseFor, responseFor, code]
  exact answer.response fs.pages other.ret second.prepared.2.2.le

end Request

end StudyWebServer
