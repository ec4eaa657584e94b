import StudyWebServer.Http.ResponseText
import StudyWebServer.Library.PrefixCode
import StudyWebServer.WebServer.ConnWrite
import StudyWebServer.WebServer.HttpResponse
import StudyWebServer.WebServer.RequestText

/-!
From the text of a request to the text of its response: process() of HttpConn with what
HttpResponse makes of the path, for a client that reads lines and then as many bytes as
Content-length says.
-/

namespace StudyWebServer.WebServer

open CString Cutting

namespace HttpResponse
variable {disk : Disk} {r : HttpResponse} {b : Buffer}

/-- The lines before the blank one. -/
def lines (r : HttpResponse) (size : Nat) : List Bytes :=
  [ascii "HTTP/1.1 " ++ decimal r.code ++ ascii " " ++
    (codeStatus r.code).getD (ascii "Bad Request")] ++
    (if r.isKeepAlive then [ascii "Connection: keep-alive", ascii "keep-alive: max=6, timeout=120"]
      else [ascii "Connection: close"]) ++
    [ascii "Content-type: " ++ r.getFileType, ascii "Content-length: " ++ decimal size]

theorem text_lines (body : Bytes) :
    r.text body = HttpRequest.text (r.lines body.length) ++ HttpRequest.crlf ++ body := by
  have ends : crlf = HttpRequest.crlf := rfl
  have joined : ascii "Connection: keep-alive" = ascii "Connection: " ++ ascii "keep-alive" := by
    decide
  have closed : ascii "Connection: close" = ascii "Connection: " ++ ascii "close" := by decide
  unfold text head stateLine headerLines contentLength lines HttpRequest.text
  rw [ends, joined, closed]
  split_ifs <;> simp only [List.flatten_append, List.flatten_cons,
    List.flatten_nil, List.flatMap_append,
    List.flatMap_cons, List.flatMap_nil, List.append_assoc, List.append_nil]

theorem lines_head (code : Int) {status : Bytes} {size : Nat} (same : r.code = code)
    (begins : ascii "HTTP/1.1 " ++ decimal code ++ ascii " " ++
      (codeStatus code).getD (ascii "Bad Request") =
      status) : (r.lines size).head? = some status := by
  subst same
  exact congrArg some begins

theorem one_line_plain {line : Bytes} (plain : (13 : UInt8) ∉ line) : HttpRequest.OneLine line :=
  fun inside => plain (inside.subset (show (13 : UInt8) ∈ HttpRequest.crlf by decide))

theorem decimal_plain (size : Nat) : (13 : UInt8) ∉ decimal size := by
  rw [decimal_natural (by omega)]
  intro member
  obtain ⟨c, digit, same⟩ := List.mem_map.mp member
  have bounds : 48 ≤ c.toNat ∧ c.toNat ≤ 57 :=
    Char.isDigit_iff_toNat.mp (Nat.isDigit_of_mem_toDigits (by decide) (by decide) digit)
  have byte : c.toNat.toUInt8.toNat = c.toNat := by
    rw [Nat.toUInt8, UInt8.toNat_ofNat']
    omega
  rw [same] at byte
  have small : (13 : UInt8).toNat = 13 := rfl
  omega

theorem file_type_mem (r : HttpResponse) :
    r.getFileType = ascii "text/plain" ∨ ∃ entry ∈ suffixType, r.getFileType = entry.2 := by
  unfold getFileType
  split_ifs with dotted
  · dsimp only
    cases found : suffixType.lookup (46 :: (r.path.reverse.takeWhile (· ≠ 46)).reverse) with
    | none => exact .inl rfl
    | some type =>
        obtain ⟨before, after, split, -⟩ := List.lookup_eq_some_iff.mp found
        have member := split ▸ List.mem_append_right before List.mem_cons_self
        exact .inr ⟨(_, type), member, rfl⟩
  · exact .inl rfl

/-- None of the lines has an end in it, and none is blank. -/
theorem lines_plain (known : r.code = 200 ∨ r.code = 400 ∨ r.code = 403 ∨ r.code = 404)
    (size : Nat) :
    ∀ line ∈ r.lines size, HttpRequest.OneLine line ∧ line ≠ [] := by
  have status : HttpRequest.OneLine (ascii "HTTP/1.1 " ++ decimal r.code ++ ascii " " ++
      (codeStatus r.code).getD (ascii "Bad Request")) := by
    rcases known with code | code | code | code <;> rw [code] <;> decide +kernel
  have types : ∀ entry ∈ suffixType, HttpRequest.OneLine (ascii "Content-type: " ++ entry.2) := by
    decide +kernel
  have type : HttpRequest.OneLine (ascii "Content-type: " ++ r.getFileType) := by
    rcases file_type_mem r with plain | ⟨entry, member, same⟩
    · rw [plain]
      decide
    · rw [same]
      exact types entry member
  have length : HttpRequest.OneLine (ascii "Content-length: " ++ decimal size) := by
    refine one_line_plain fun member => ?_
    rcases List.mem_append.mp member with name | number
    · exact absurd name (by decide)
    · exact decimal_plain size number
  have filled {start : Bytes} (some : start ≠ []) (rest : Bytes) : start ++ rest ≠ [] :=
    List.append_ne_nil_of_left_ne_nil some rest
  intro line member
  unfold lines at member
  rcases List.mem_append.mp member with first | last
  · rcases List.mem_append.mp first with first | connection
    · rw [List.mem_singleton.mp first]
      refine ⟨status, ?_⟩
      rw [List.append_assoc, List.append_assoc]
      exact filled (by decide) _
    · split_ifs at connection
      · rcases List.mem_cons.mp connection with rfl | connection
        · exact ⟨by decide, by decide⟩
        · rw [List.mem_singleton.mp connection]
          exact ⟨by decide, by decide⟩
      · rw [List.mem_singleton.mp connection]
        exact ⟨by decide, by decide⟩
  · rcases List.mem_cons.mp last with rfl | last
    · exact ⟨type, filled (by decide) _⟩
    · rw [List.mem_singleton.mp last]
      exact ⟨length, filled (by decide) _⟩

theorem chosen_code_cases (known : r.code = 200 ∨ r.code = 400) : (r.chosen disk).code = 200 ∨
    (r.chosen disk).code = 400 ∨ (r.chosen disk).code = 403 ∨ (r.chosen disk).code = 404 := by
  rw [chosen_code_eq]
  exact judge_code disk known

/-- A whole response: lines, the last of which says how many bytes there are behind the blank
line that follows. -/
def Framed (bytes : Bytes) : Prop :=
  ∃ lines body, bytes = HttpRequest.text lines ++ HttpRequest.crlf ++ body ∧
    (∀ line ∈ lines, HttpRequest.OneLine line ∧ line ≠ []) ∧
    lines.getLast? = some (ascii "Content-length: " ++ decimal body.length)

theorem cut_blank (rest : Bytes) :
    cut HttpRequest.crlf (HttpRequest.text [] ++ HttpRequest.crlf ++ rest) = ([], some rest) :=
  HttpRequest.cut_line (show HttpRequest.OneLine [] by decide) rest

theorem cut_text {line : Bytes} (single : HttpRequest.OneLine line)
    (lines : List Bytes) (rest : Bytes) :
    cut HttpRequest.crlf (HttpRequest.text (line :: lines) ++ HttpRequest.crlf ++ rest) =
      (line, some (HttpRequest.text lines ++ HttpRequest.crlf ++ rest)) := by
  have first := HttpRequest.cut_line single (HttpRequest.text lines ++ HttpRequest.crlf ++ rest)
  rw [← first]
  unfold HttpRequest.text
  simp only [List.flatMap_cons, List.append_assoc]

/-- The blank line is the first one that is blank. -/
theorem lines_apart {one other : List Bytes} {rest behind : Bytes}
    (plain : ∀ line ∈ one, HttpRequest.OneLine line ∧ line ≠ [])
    (also : ∀ line ∈ other, HttpRequest.OneLine line ∧ line ≠ [])
    (same : HttpRequest.text one ++ HttpRequest.crlf ++ rest =
      HttpRequest.text other ++ HttpRequest.crlf ++ behind) :
    one = other ∧ rest = behind := by
  have cuts := congrArg (cut HttpRequest.crlf) same
  induction one generalizing other with
  | nil =>
      rw [cut_blank] at cuts
      cases other with
      | nil =>
          rw [cut_blank] at cuts
          cases cuts
          exact ⟨rfl, rfl⟩
      | cons line lines =>
          obtain ⟨single, filled⟩ := also line List.mem_cons_self
          rw [cut_text single] at cuts
          exact absurd (congrArg Prod.fst cuts).symm filled
  | cons line lines ih =>
      obtain ⟨single, filled⟩ := plain line List.mem_cons_self
      rw [cut_text single] at cuts
      cases other with
      | nil =>
          rw [cut_blank] at cuts
          exact absurd (congrArg Prod.fst cuts) filled
      | cons first others =>
          rw [cut_text (also first List.mem_cons_self).1] at cuts
          obtain ⟨rfl, later⟩ := Prod.mk.inj cuts
          have later := Option.some.inj later
          obtain ⟨rfl, bodies⟩ := ih (fun line member => plain line (.tail _ member))
            (fun line member => also line (.tail _ member)) later (congrArg _ later)
          exact ⟨rfl, bodies⟩

/-- A client can tell where a response ends. -/
theorem framed_code : PrefixCode.Code Framed := by
  refine ⟨?_, ?_⟩
  · rintro _ _ ⟨lines, body, rfl, plain, length⟩ ⟨others, content, rfl, also, size⟩ ⟨rest, same⟩
    rw [List.append_assoc] at same
    obtain ⟨rfl, bodies⟩ := lines_apart plain also same
    have digits := List.append_cancel_left (Option.some.inj (length.symm.trans size))
    have lengths : body.length = content.length := Int.ofNat_inj.mp (decimal_injective digits)
    have bodies_same : body = content := List.IsPrefix.eq_of_length ⟨rest, bodies⟩ lengths
    rw [bodies_same]
  · rintro _ ⟨lines, body, rfl, -, -⟩ none
    have ends := (List.append_eq_nil_iff.mp (List.append_eq_nil_iff.mp none).1).2
    cases ends

theorem chosen_framed (known : r.code = 200 ∨ r.code = 400) (body : Bytes) :
    Framed ((r.chosen disk).text body) :=
  ⟨(r.chosen disk).lines body.length, body, text_lines body,
    lines_plain (chosen_code_cases known) _,
    List.getLast?_append_cons ..⟩

end HttpResponse

/-- What a connection holds besides its descriptor. -/
structure ConnData where
  readBuff : Buffer
  request : HttpRequest
  conn : ConnWrite

namespace ConnData
variable (verify : Bytes → Bytes → Bool → Bool) (disk : Disk) (srcDir : Bytes)

/-- A response without a file leaves `iov_[1]` as it was. -/
def process (c : ConnData) : Except Fault (Bool × ConnData) :=
  match HttpRequest.process verify c.readBuff with
  | .error fault => .error fault
  | .ok (none, request, readBuff) =>
      .ok (false, { c with request := request, readBuff := readBuff })
  | .ok (some answer, request, readBuff) =>
      match HttpResponse.init srcDir answer.path answer.isKeepAlive answer.code with
      | .error fault => .error fault
      | .ok response =>
          match response.makeResponse disk c.conn.writeBuff with
          | .error fault => .error fault
          | .ok (response, writeBuff) =>
              let file := if 0 < response.size then response.mmFile else none
              .ok (true, ⟨readBuff, request, { c.conn with
                writeBuff := writeBuff
                head := writeBuff.contents
                file := file.getD c.conn.file
                both := file.isSome }⟩)

variable {verify disk srcDir} {c : ConnData} {request : HttpRequest} {readBuff : Buffer}

/-- process() has set up this response with this body. -/
structure Answered (c next : ConnData) (request : HttpRequest)
    (readBuff : Buffer) (r : HttpResponse)
    (body : Bytes) : Prop where
  request : next.request = request
  readBuff : next.readBuff = readBuff
  sent : next.conn.sent = c.conn.sent
  given : next.conn.given = c.conn.writeBuff.contents ++ r.text body
  wellFormed : next.conn.writeBuff.WellFormed
  head : next.conn.head = next.conn.writeBuff.contents
  size : next.conn.writeBuff.buffer.length ≤ max c.conn.writeBuff.buffer.length
    (2 * next.conn.head.length)
  file : next.conn.both = true ∧ next.conn.file = body ∨
    next.conn.both = false ∧ next.conn.file = c.conn.file ∧
      body = r.errorBody (ascii "File NotFound!")

/-- The response that HttpResponse decides on for an answer. -/
def responseTo (disk : Disk) (srcDir : Bytes) (answer : HttpRequest.Answer) : HttpResponse :=
  HttpResponse.chosen disk ⟨answer.code, answer.isKeepAlive, answer.path, srcDir, none, 0⟩

theorem process_answer {answer : HttpRequest.Answer}
    (parsed : HttpRequest.process verify c.readBuff = .ok (some answer, request, readBuff))
    (known : answer.code = 200 ∨ answer.code = 400) (dir : srcDir ≠ [])
    (wellFormed : c.conn.writeBuff.WellFormed)
    (room : c.conn.writeBuff.buffer.length + ((responseTo disk srcDir answer).text
      (((responseTo disk srcDir answer).bodyOf disk).getD [])).length + 7 ≤ maxSize) :
    match (responseTo disk srcDir answer).bodyOf disk with
    | none => c.process verify disk srcDir = .error .outside
    | some body => ∃ next, c.process verify disk srcDir = .ok (true, next) ∧
        Answered c next request readBuff (responseTo disk srcDir answer) body := by
  have codes : (answer.code : Int) = 200 ∨ (answer.code : Int) = 400 := by omega
  have spec := @HttpResponse.make_response_spec disk
    ⟨answer.code, answer.isKeepAlive, answer.path, srcDir, none, 0⟩ _ codes rfl wellFormed room
  have begins : HttpResponse.init srcDir answer.path answer.isKeepAlive answer.code =
      .ok ⟨answer.code, answer.isKeepAlive, answer.path, srcDir, none, 0⟩ := if_neg dir
  unfold process
  rw [parsed]
  dsimp only
  rw [begins]
  dsimp only
  change match (responseTo disk srcDir answer).bodyOf disk with | none => _ | some body => _ at spec
  cases found : (responseTo disk srcDir answer).bodyOf disk with
  | none =>
      rw [found] at spec
      dsimp only at spec ⊢
      rw [spec]
  | some body =>
      rw [found] at spec
      obtain ⟨response, writeBuff, head, made, appended, whole, mapped⟩ := spec
      dsimp only
      rw [made]
      have given : writeBuff.contents ++ response.mmFile.getD [] =
          c.conn.writeBuff.contents ++ (responseTo disk srcDir answer).text body := by
        rw [appended.contents, List.append_assoc, whole]
        rfl
      rcases mapped with ⟨unmapped, message⟩ | ⟨mapped, filled⟩
      · have without : (if 0 < response.size then response.mmFile else none) = none := by
          rw [unmapped, ite_self]
        rw [unmapped, Option.getD_none, List.append_nil] at given
        dsimp only
        rw [without]
        exact ⟨_, rfl, rfl, rfl, rfl, given, appended.wellFormed, rfl, appended.size,
          .inr ⟨rfl, rfl, message⟩⟩
      · have file : (if 0 < response.size then response.mmFile else none) = some body := by
          rw [if_pos filled, mapped]
        rw [mapped, Option.getD_some] at given
        dsimp only
        rw [file]
        exact ⟨_, rfl, rfl, rfl, rfl, given, appended.wellFormed, rfl,
          appended.size, .inl ⟨rfl, rfl⟩⟩

/-- What OnWrite_ then has to send, unless a vector of an earlier response is in the way. -/
theorem Answered.armed {next : ConnData} {r : HttpResponse} {body : Bytes}
    (answered : Answered c next request readBuff r body)
    (whole : next.conn.both = true ∨ c.conn.file = [])
    (small : next.conn.given.length ≤ 2147483647) : ConnWrite.Armed next.conn := by
  refine ⟨answered.wellFormed, answered.head, fun single => ?_, small⟩
  rcases answered.file with ⟨both, -⟩ | ⟨-, same, -⟩
  · cases both.symm.trans single
  · rw [same]
    exact whole.resolve_left (Bool.eq_false_iff.mp single)

section Ends
variable {first method path version : Bytes} {lines : List Bytes}
  {fields : List (Bytes × Bytes)} {file : DiskFile}

/-- The answer to a name that is missing, or that is a directory, is the page for 404. -/
theorem response_to_missing {answer : HttpRequest.Answer}
    (missing : ∀ file,
      disk ((srcDir ++ answer.path).takeWhile (· ≠ 0)) = some file → file.isDir = true) :
    ∃ size, responseTo disk srcDir answer =
      ⟨404, answer.isKeepAlive, ascii "/404.html", srcDir, none, size⟩ := by
  have judged : ∃ size, HttpResponse.judge disk
      ⟨answer.code, answer.isKeepAlive, answer.path, srcDir, none, 0⟩ =
      ⟨404, answer.isKeepAlive, answer.path, srcDir, none, size⟩ := by
    unfold HttpResponse.judge
    split
    · exact ⟨0, rfl⟩
    · next file found =>
        obtain ⟨size, same⟩ := HttpResponse.stat_resizes disk
          ⟨answer.code, answer.isKeepAlive, answer.path, srcDir, none, 0⟩
        rw [if_pos (missing file found), same]
        exact ⟨size, rfl⟩
  obtain ⟨size, judged⟩ := judged
  obtain ⟨last, same⟩ := HttpResponse.stat_resizes disk
    ⟨404, answer.isKeepAlive, ascii "/404.html", srcDir, none, size⟩
  refine ⟨last, ?_⟩
  unfold responseTo HttpResponse.chosen
  rw [judged]
  exact same

/-- A web root with one page. -/
def site : Disk :=
  fun name => if name = ascii "/srv/index.html" then some ⟨ascii "hi", false, true, true⟩ else none

/-- A fresh connection that these bytes have come to. -/
def reached (bytes : Bytes) : ConnData :=
  ⟨HttpRequest.arrived bytes, HttpRequest.init, ⟨HttpRequest.arrived [], [], [], false, []⟩⟩

/-- The page for 404, whatever size stat finds. -/
def notFound (srcDir : Bytes) (keep : Bool) : HttpResponse :=
  ⟨404, keep, ascii "/404.html", srcDir, none, 0⟩

theorem not_found_answered {answer : HttpRequest.Answer}
    (parsed : HttpRequest.process verify c.readBuff = .ok (some answer, request, readBuff))
    (known : answer.code = 200 ∨ answer.code = 400) (dir : srcDir ≠ [])
    (good : c.conn.writeBuff.WellFormed)
    (missing : ∀ file,
      disk ((srcDir ++ answer.path).takeWhile (· ≠ 0)) = some file → file.isDir = true)
    (room : c.conn.writeBuff.buffer.length + ((notFound srcDir answer.isKeepAlive).text
      (((notFound srcDir answer.isKeepAlive).bodyOf disk).getD [])).length + 7 ≤ maxSize) :
    match (notFound srcDir answer.isKeepAlive).bodyOf disk with
    | none => c.process verify disk srcDir = .error .outside
    | some body => ∃ next, c.process verify disk srcDir = .ok (true, next) ∧
        next.request = request ∧ next.readBuff = readBuff ∧ next.conn.given =
          c.conn.writeBuff.contents ++ (notFound srcDir answer.isKeepAlive).text body := by
  obtain ⟨size, page⟩ := response_to_missing missing
  have body_of : (responseTo disk srcDir answer).bodyOf disk =
      (notFound srcDir answer.isKeepAlive).bodyOf disk := by
    rw [page]
    rfl
  have text_of (body : Bytes) :
      (responseTo disk srcDir answer).text body =
        (notFound srcDir answer.isKeepAlive).text body := by
    rw [page]
    rfl
  have answered := process_answer parsed known dir good (by rw [body_of, text_of]; exact room)
  rw [body_of] at answered
  cases found : (notFound srcDir answer.isKeepAlive).bodyOf disk with
  | none =>
      rw [found] at answered
      exact answered
  | some body =>
      rw [found] at answered
      obtain ⟨next, went, answered⟩ := answered
      exact ⟨next, went, answered.request, answered.readBuff, by rw [answered.given, text_of]⟩

/-- A request line that is not one gets 400 from parse, but its path is then the web root itself,
a directory: the client reads 404. -/
theorem refused_not_found (wellFormed : c.readBuff.WellFormed) (filled : c.readBuff.contents ≠ [])
    (refused : HttpRequest.matchRequestLine (cut HttpRequest.crlf c.readBuff.contents).1 = none)
    (dir : srcDir ≠ [])
    (root : ∀ file, disk (srcDir.takeWhile (· ≠ 0)) = some file → file.isDir = true)
    (good : c.conn.writeBuff.WellFormed) (room : c.conn.writeBuff.buffer.length +
      ((notFound srcDir false).text (((notFound srcDir false).bodyOf disk).getD [])).length + 7 ≤
        maxSize) :
    match (notFound srcDir false).bodyOf disk with
    | none => c.process verify disk srcDir = .error .outside
    | some body => ∃ next head, c.process verify disk srcDir = .ok (true, next) ∧
        next.readBuff = c.readBuff ∧
        next.conn.given = c.conn.writeBuff.contents ++
          (HttpRequest.text head ++ HttpRequest.crlf ++ body) ∧
        head.head? = some (ascii "HTTP/1.1 404 Not Found") ∧ ascii "Connection: close" ∈ head := by
  have parsed := HttpRequest.process_refused verify wellFormed filled refused
  rw [← List.append_nil srcDir] at root
  have answered := not_found_answered parsed (.inr rfl) dir good root room
  dsimp only at answered
  cases found : (notFound srcDir false).bodyOf disk with
  | none =>
      rw [found] at answered
      exact answered
  | some body =>
      rw [found] at answered
      obtain ⟨next, went, -, kept, given⟩ := answered
      refine ⟨next, (notFound srcDir false).lines body.length, went, kept, ?_, ?_, ?_⟩
      · rw [given, HttpResponse.text_lines]
      · exact HttpResponse.lines_head 404 rfl (by decide +kernel)
      · exact .tail _ (.head _)

theorem refused_not_found_hello : ∃ next head,
    (reached (ascii "hello")).process (fun _ _ _ => false) site (ascii "/srv") = .ok (true, next) ∧
    head.head? = some (ascii "HTTP/1.1 404 Not Found") ∧
    next.conn.given = HttpRequest.text head ++ HttpRequest.crlf ++
      (notFound (ascii "/srv") false).errorBody (ascii "File NotFound!") := by
  have root : site ((ascii "/srv").takeWhile (· ≠ 0)) = none := by decide +kernel
  obtain ⟨next, head, went, -, given, status, -⟩ := @refused_not_found (fun _ _ _ => false)
    site (ascii "/srv") (reached (ascii "hello"))
    (HttpRequest.arrived_well_formed (by decide)) (by decide) (by decide) (by decide)
    (fun file found => by rw [root] at found; cases found)
      (HttpRequest.arrived_well_formed (by decide))
    (by decide +kernel)
  exact ⟨next, head, went, status, given⟩

end Ends

end ConnData

end StudyWebServer.WebServer
