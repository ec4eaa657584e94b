import StudyWebServer.Http.Response

/-!
process_write: what the add_ functions leave of the object, and the response
that a true result stands for.
-/

namespace StudyWebServer

open ByteMemory CString MachineInt Layout

/-- An add_ function moves m_write_idx forward in m_write_buf and leaves the
other members. -/
structure Added (c d : HttpConn) : Prop where
  same : d = { c with writeBuf := d.writeBuf, writeIdx := d.writeIdx }
  grows : c.writeIdx ≤ d.writeIdx
  inside : c.writeIdx < writeBufferSize → d.writeIdx < writeBufferSize

theorem Added.refl (c : HttpConn) : Added c c := ⟨rfl, Nat.le_refl _, id⟩

theorem Added.trans {b c d : HttpConn} (first : Added b c) (second : Added c d) : Added b d := by
  refine ⟨?_, first.grows.trans second.grows, fun inside => second.inside (first.inside inside)⟩
  conv_lhs => rw [second.same, first.same]

/-- Nothing but stores inside of m_write_buf. -/
def WriteBufStores (log : List Effect) : Prop :=
  ∀ effect ∈ log, effect.InBounds ∧ ∃ index count, effect = .store .writeBuf index count

theorem write_buf_stores_append {first second : List Effect} (one : WriteBufStores first)
    (other : WriteBufStores second) : WriteBufStores (first ++ second) := by
  intro effect member
  rcases List.mem_append.mp member with inFirst | inSecond
  · exact one effect inFirst
  · exact other effect inSecond

/-- An add_ function, or several in a row. -/
def Adds (add : HttpConn → Outcome Bool) : Prop :=
  ∀ c, Added c (add c).conn ∧ WriteBufStores (add c).log

theorem Adds.andThen {first second : HttpConn → Outcome Bool} (one : Adds first)
    (other : Adds second) : Adds fun c => (first c).andThen second := by
  intro c
  exact ⟨(one c).1.trans (other (first c).conn).1,
    write_buf_stores_append (one c).2 (other (first c).conn).2⟩

theorem add_response_adds (formatted : List UInt8) : Adds (addResponse formatted) := by
  intro c
  by_cases full : writeBufferSize ≤ c.writeIdx
  · simp only [addResponse, full, ↓reduceIte]
    exact ⟨.refl c, fun effect member => by cases member⟩
  · have bound : (if writeBufferSize - 1 - c.writeIdx = 0 then [] else
        formatted.take (writeBufferSize - 1 - c.writeIdx - 1) ++ [(0 : UInt8)]).length ≤
          writeBufferSize - c.writeIdx := by
      split_ifs
      · exact Nat.zero_le _
      · simp only [List.length_append, List.length_take, List.length_singleton]
        omega
    simp only [addResponse, full, ↓reduceIte]
    generalize (if writeBufferSize - 1 - c.writeIdx = 0 then [] else
      formatted.take (writeBufferSize - 1 - c.writeIdx - 1) ++ [(0 : UInt8)]) = written at bound ⊢
    split_ifs with cut
    all_goals
      refine ⟨⟨rfl, ?_, ?_⟩, fun effect member => ?_⟩
      · simp only
        omega
      · simp only
        omega
      · rw [List.mem_singleton.mp member]
        refine ⟨⟨Int.natCast_nonneg _, ?_⟩, _, _, rfl⟩
        simp only [MemberArray.size]
        omega

theorem add_headers_adds (contentLen : Int) : Adds (addHeaders contentLen) := by
  have length : Adds (addContentLength contentLen) := add_response_adds _
  have type : Adds addContentType := add_response_adds _
  have linger : Adds addLinger := fun c => add_response_adds (lingerText c.linger) c
  have blank : Adds addBlankLine := add_response_adds _
  exact ((length.andThen type).andThen linger).andThen blank

/-- The head of a response. -/
theorem add_head_adds (status : Int) (title : List UInt8) (contentLen : Int) :
    Adds fun c => (addStatusLine status title c).andThen (addHeaders contentLen) :=
  Adds.andThen (add_response_adds _) (add_headers_adds contentLen)

/-- A response as process_write leaves it for write(). -/
structure Prepared (ret : HttpCode) (c d : HttpConn) : Prop where
  same : d = { c with
    writeBuf := d.writeBuf
    writeIdx := d.writeIdx
    iv0 := d.iv0
    iv1 := d.iv1
    ivCount := d.ivCount }
  written : 0 < d.writeIdx
  inside : c.writeIdx < writeBufferSize → d.writeIdx < writeBufferSize
  header : d.iv0 = ⟨.writeBuf, d.writeIdx⟩
  file : ret = .fileRequest → d.iv1 = ⟨.file d.fileAddress, d.fileStat.stSize⟩ ∧ d.ivCount = 2
  form : ret ≠ .fileRequest → d.ivCount = 1

theorem add_response_succeeds {formatted : List UInt8} {c : HttpConn}
    (success : (addResponse formatted c).ret = true) :
    (addResponse formatted c).conn.writeIdx = c.writeIdx + formatted.length := by
  unfold addResponse at success ⊢
  dsimp only at success ⊢
  split_ifs at success ⊢ <;> rfl

theorem add_response_fits {formatted : List UInt8} {c : HttpConn}
    (room : c.writeIdx + formatted.length + 1 < writeBufferSize) :
    (addResponse formatted c).ret = true := by
  have start : ¬ writeBufferSize ≤ c.writeIdx := by omega
  have fits : ¬ writeBufferSize - 1 - c.writeIdx ≤ formatted.length := by omega
  simp only [addResponse, start, fits, ↓reduceIte]

theorem add_response_le (formatted : List UInt8) (c : HttpConn) :
    (addResponse formatted c).conn.writeIdx ≤ c.writeIdx + formatted.length := by
  unfold addResponse
  dsimp only
  split_ifs <;> simp only <;> omega

theorem Added.setIov {ret : HttpCode} {c d : HttpConn} (added : Added c d)
    (written : 0 < d.writeIdx) (other : ret ≠ .fileRequest) : Prepared ret c (setIov d) := by
  refine ⟨?_, written, added.inside, rfl, fun file => absurd file other, fun _ => rfl⟩
  rw [added.same]
  rfl

theorem Added.setIovFile {c d : HttpConn} (added : Added c d) (written : 0 < d.writeIdx) :
    Prepared .fileRequest c (setIovFile d) := by
  refine ⟨?_, written, added.inside, rfl, fun _ => ⟨rfl, rfl⟩, fun other => absurd rfl other⟩
  rw [added.same]
  rfl

theorem write_form_prepared {ret : HttpCode} {status : Int} {title form : List UInt8}
    {c : HttpConn} (other : ret ≠ .fileRequest) (text : form ≠ [])
    (success : (writeForm status title form c).ret = true) :
    Prepared ret c (writeForm status title form c).conn := by
  have head : Added c ((addStatusLine status title c).andThen
      (addHeaders (toInt form.length))).conn := (add_head_adds status title _ c).1
  unfold writeForm at success ⊢
  dsimp only at success ⊢
  generalize (addStatusLine status title c).andThen (addHeaders (toInt form.length)) = top
    at head success ⊢
  have added := head.trans (add_response_adds form top.conn).1
  by_cases sent : (addResponse form top.conn).ret = true
  · have moved := add_response_succeeds sent
    have length := List.length_pos_of_ne_nil text
    have whole : (top.andThen (addContent form)).ret = true := sent
    simp only [whole, ↓reduceIte]
    exact added.setIov (by omega) other
  · have whole : ¬ (top.andThen (addContent form)).ret = true := sent
    simp only [whole] at success
    cases success

theorem write_form_log (status : Int) (title form : List UInt8) (c : HttpConn) :
    WriteBufStores (writeForm status title form c).log := by
  have head := (add_head_adds status title (toInt form.length) c).2
  have content := (add_response_adds form
    ((addStatusLine status title c).andThen (addHeaders (toInt form.length))).conn).2
  unfold writeForm
  dsimp only
  split_ifs <;> exact write_buf_stores_append head content

def statusLineText (status : Int) (title : List UInt8) : List UInt8 :=
  ascii "HTTP/1.1" ++ ascii " " ++ decimal status ++ ascii " " ++ title ++ crlf

def contentLengthText (contentLen : Int) : List UInt8 :=
  ascii "Content-Length: " ++ decimal contentLen ++ crlf

theorem linger_text_length (linger : Bool) : (lingerText linger).length ≤ 24 := by
  cases linger <;> decide

theorem add_headers_le (contentLen : Int) (c : HttpConn) :
    (addHeaders contentLen c).conn.writeIdx ≤
      c.writeIdx + ((contentLengthText contentLen).length + 50) := by
  have length := add_response_le (contentLengthText contentLen) c
  generalize (contentLengthText contentLen).length = count at length ⊢
  have type := add_response_le (ascii "Content-Type:" ++ ascii "text/html" ++ crlf)
    (addContentLength contentLen c).conn
  have linger (d : HttpConn) : (addLinger d).conn.writeIdx ≤ d.writeIdx + 24 :=
    (add_response_le _ d).trans (Nat.add_le_add_left (linger_text_length d.linger) d.writeIdx)
  calc (addHeaders contentLen c).conn.writeIdx
      ≤ (addLinger (addContentType (addContentLength contentLen c).conn).conn).conn.writeIdx + 2 :=
        add_response_le crlf _
    _ ≤ (addContentType (addContentLength contentLen c).conn).conn.writeIdx + 24 + 2 :=
        Nat.add_le_add_right (linger _) 2
    _ ≤ (addContentLength contentLen c).conn.writeIdx + 24 + 24 + 2 :=
        Nat.add_le_add_right (Nat.add_le_add_right type 24) 2
    _ ≤ c.writeIdx + count + 24 + 24 + 2 :=
        Nat.add_le_add_right (Nat.add_le_add_right (Nat.add_le_add_right length 24) 24) 2
    _ = c.writeIdx + (count + 50) := by simp only [Nat.add_assoc]

/-- The lines of an answer without a file fit into m_write_buf. -/
theorem write_form_succeeds {status : Int} {title form : List UInt8} {c : HttpConn}
    (start : c.writeIdx = 0)
    (short : (statusLineText status title).length +
      ((contentLengthText (toInt form.length)).length + 50) + form.length + 1 < writeBufferSize) :
    (writeForm status title form c).ret = true := by
  have line : (addStatusLine status title c).conn.writeIdx ≤
      c.writeIdx + (statusLineText status title).length := add_response_le _ c
  have headers := add_headers_le (toInt form.length) (addStatusLine status title c).conn
  rw [← and_then_conn] at headers
  unfold writeForm
  generalize (addStatusLine status title c).andThen (addHeaders (toInt form.length)) = top
    at headers ⊢
  have content : (top.andThen (addContent form)).ret = true := by
    apply add_response_fits
    omega
  dsimp only
  rw [if_pos content]

/-- The codes that process_read returns for a request it is done with. -/
def HttpCode.Answer (code : HttpCode) : Prop :=
  code = .badRequest ∨ code = .noResource ∨ code = .forbiddenRequest ∨ code = .fileRequest

/-- The branches of process_write. -/
inductive WriteBranch (ret : HttpCode) : Prop where
  | form (status : Int) (title body : List UInt8) (text : body ≠ []) (other : ret ≠ .fileRequest)
      (short : (statusLineText status title).length +
        ((contentLengthText (toInt body.length)).length + 50) + body.length + 1 < writeBufferSize)
      (same : ∀ c, processWrite ret c = writeForm status title body c)
  | file (same : ret = .fileRequest)
  | none (other : ¬ ret.Answer) (same : ∀ c, processWrite ret c = ⟨false, c, []⟩)

theorem write_branch (ret : HttpCode) : WriteBranch ret := by
  cases ret with
  | internalError =>
      exact .form 500 (ascii "Internal Error") error500Form (by decide) (by decide) (by decide)
        fun _ => rfl
  | badRequest =>
      exact .form 400 (ascii "Bad Request") error400Form (by decide) (by decide) (by decide)
        fun _ => rfl
  | noResource =>
      exact .form 404 (ascii "Not Found") error404Form (by decide) (by decide) (by decide)
        fun _ => rfl
  | forbiddenRequest =>
      exact .form 403 (ascii "Forbidden") error403Form (by decide) (by decide) (by decide)
        fun _ => rfl
  | fileRequest => exact .file rfl
  | noRequest => exact .none (by simp [HttpCode.Answer]) fun _ => rfl
  | getRequest => exact .none (by simp [HttpCode.Answer]) fun _ => rfl
  | closedConnection => exact .none (by simp [HttpCode.Answer]) fun _ => rfl

theorem write_file_prepared (c : HttpConn) :
    Prepared .fileRequest c (processWrite .fileRequest c).conn := by
  have added := (add_head_adds 200 (ascii "OK") (toInt c.fileStat.stSize) c).1
  have headers := (add_headers_adds (toInt c.fileStat.stSize)
    (addStatusLine 200 (ascii "OK") c).conn).1.grows
  have written : 0 < ((addStatusLine 200 (ascii "OK") c).andThen
      (addHeaders (toInt c.fileStat.stSize))).conn.writeIdx := by
    by_cases start : c.writeIdx = 0
    · have moved := add_response_succeeds (@add_response_fits
        (statusLineText 200 (ascii "OK")) c (by rw [start]; decide))
      refine Nat.lt_of_lt_of_le ?_ headers
      rw [addStatusLine, ← statusLineText, moved, start]
      decide
    · exact Nat.lt_of_lt_of_le (Nat.pos_of_ne_zero start) added.grows
  exact added.setIovFile written

theorem process_write_prepared {ret : HttpCode} {c : HttpConn}
    (success : (processWrite ret c).ret = true) : Prepared ret c (processWrite ret c).conn := by
  cases write_branch ret with
  | form status title body text other short same =>
      rw [same] at success ⊢
      exact write_form_prepared other text success
  | file same =>
      rw [same]
      exact write_file_prepared c
  | none other same =>
      rw [same] at success
      cases success

theorem write_form_members (status : Int) (title form : List UInt8) (c : HttpConn) :
    ∃ writeBuf writeIdx iv0 ivCount, (writeForm status title form c).conn = { c with
      writeBuf := writeBuf
      writeIdx := writeIdx
      iv0 := iv0
      ivCount := ivCount } := by
  have head : Added c ((addStatusLine status title c).andThen
      (addHeaders (toInt form.length))).conn := (add_head_adds status title _ c).1
  unfold writeForm
  dsimp only
  generalize (addStatusLine status title c).andThen (addHeaders (toInt form.length)) = top at head ⊢
  have added := head.trans (add_response_adds form top.conn).1
  have last : (top.andThen (addContent form)).conn = (addResponse form top.conn).conn := rfl
  rw [last]
  generalize (addResponse form top.conn).conn = d at added ⊢
  split_ifs
  · refine ⟨d.writeBuf, d.writeIdx, ⟨.writeBuf, d.writeIdx⟩, 1, ?_⟩
    conv_lhs => rw [added.same]
    rfl
  · exact ⟨d.writeBuf, d.writeIdx, c.iv0, c.ivCount, added.same⟩

/-- With or without success, process_write leaves all but the response's members. -/
theorem process_write_members (ret : HttpCode) (c : HttpConn) :
    ∃ writeBuf writeIdx iv0 iv1 ivCount, (processWrite ret c).conn = { c with
      writeBuf := writeBuf
      writeIdx := writeIdx
      iv0 := iv0
      iv1 := iv1
      ivCount := ivCount } := by
  cases write_branch ret with
  | form status title body text other short same =>
      obtain ⟨writeBuf, writeIdx, iv0, ivCount, members⟩ := write_form_members status title body c
      exact ⟨writeBuf, writeIdx, iv0, c.iv1, ivCount, by rw [same, members]⟩
  | file same =>
      subst same
      have prepared := write_file_prepared c
      generalize (processWrite .fileRequest c).conn = d at prepared ⊢
      exact ⟨d.writeBuf, d.writeIdx, d.iv0, d.iv1, d.ivCount, prepared.same⟩
  | none other same =>
      exact ⟨c.writeBuf, c.writeIdx, c.iv0, c.iv1, c.ivCount, by rw [same]⟩

theorem process_write_log (ret : HttpCode) (c : HttpConn) :
    WriteBufStores (processWrite ret c).log := by
  cases write_branch ret with
  | form status title body text other short same =>
      rw [same]
      exact write_form_log status title body c
  | file same =>
      rw [same]
      exact (add_head_adds 200 (ascii "OK") (toInt c.fileStat.stSize) c).2
  | none other same =>
      rw [same]
      exact fun effect member => by cases member

theorem process_write_succeeds {ret : HttpCode} {c : HttpConn} (start : c.writeIdx = 0)
    (answer : ret.Answer) : (processWrite ret c).ret = true := by
  cases write_branch ret with
  | form status title body text other short same =>
      rw [same]
      exact write_form_succeeds start short
  | file same =>
      rw [same]
      rfl
  | none other same => exact absurd answer other

end StudyWebServer
