import StudyWebServer.Http.Response
import StudyWebServer.WebServer.HttpRequest

/-!
HttpResponse of WebServer-master/code/http. The files are a parameter: what stat, open and mmap
find under a name, which does not change while a response is made. The result of mmap is tested
by reading an int at it.
-/

namespace StudyWebServer.WebServer

open CString

structure DiskFile where
  content : Bytes
  isDir : Bool
  /-- `S_IROTH` -/
  readable : Bool
  /-- open() succeeds -/
  opens : Bool
  deriving DecidableEq

abbrev Disk := Bytes → Option DiskFile

structure HttpResponse where
  code : Int
  isKeepAlive : Bool
  path : Bytes
  srcDir : Bytes
  mmFile : Option Bytes
  /-- `mmFileStat_.st_size` -/
  size : Nat
  deriving DecidableEq

namespace HttpResponse

/-- SUFFIX_TYPE -/
def suffixType : List (Bytes × Bytes) :=
  [(".html", "text/html"), (".xml", "text/xml"), (".xhtml", "application/xhtml+xml"),
    (".txt", "text/plain"), (".rtf", "application/rtf"), (".pdf", "application/pdf"),
    (".word", "application/nsword"), (".png", "image/png"), (".gif", "image/gif"),
    (".jpg", "image/jpeg"), (".jpeg", "image/jpeg"), (".au", "audio/basic"),
    (".mpeg", "video/mpeg"), (".mpg", "video/mpeg"), (".avi", "video/x-msvideo"),
    (".gz", "application/x-gzip"), (".tar", "application/x-tar"), (".css", "text/css "),
    (".js", "text/javascript ")].map fun entry => (ascii entry.1, ascii entry.2)

/-- CODE_STATUS -/
def codeStatus (code : Int) : Option Bytes :=
  if code = 200 then some (ascii "OK")
  else if code = 400 then some (ascii "Bad Request")
  else if code = 403 then some (ascii "Forbidden")
  else if code = 404 then some (ascii "Not Found")
  else none

/-- CODE_PATH -/
def codePath (code : Int) : Option Bytes :=
  if code = 400 then some (ascii "/400.html")
  else if code = 403 then some (ascii "/403.html")
  else if code = 404 then some (ascii "/404.html")
  else none

def init (srcDir path : Bytes) (isKeepAlive : Bool) (code : Int) : Except Fault HttpResponse :=
  if srcDir = [] then .error .assertion else .ok ⟨code, isKeepAlive, path, srcDir, none, 0⟩

/-- The name that stat and open are given, which ends before a zero byte. -/
def name (r : HttpResponse) : Bytes := (r.srcDir ++ r.path).takeWhile (· ≠ 0)

/-- A failing stat leaves the structure as it is. -/
def stat (disk : Disk) (r : HttpResponse) : HttpResponse :=
  match disk r.name with
  | some file => { r with size := file.content.length }
  | none => r

/-- The first part of MakeResponse. -/
def judge (disk : Disk) (r : HttpResponse) : HttpResponse :=
  match disk r.name with
  | none => { r with code := 404 }
  | some file =>
      if file.isDir then { r.stat disk with code := 404 }
      else if !file.readable then { r.stat disk with code := 403 }
      else if r.code = -1 then { r.stat disk with code := 200 }
      else r.stat disk

def errorHtml (disk : Disk) (r : HttpResponse) : HttpResponse :=
  match codePath r.code with
  | some path => { r with path := path }.stat disk
  | none => r

/-- The Appends of a member function, one after the other. -/
def appendAll (buff : Buffer) (pieces : List Bytes) : Except Fault Buffer :=
  pieces.foldlM Buffer.append buff

/-- The code 400 stands in for one that has no status. -/
def addStateLine (r : HttpResponse) (buff : Buffer) : Except Fault (HttpResponse × Buffer) :=
  let (r, status) := match codeStatus r.code with
    | some status => (r, status)
    | none => ({ r with code := 400 }, ascii "Bad Request")
  match appendAll buff [ascii "HTTP/1.1 " ++ decimal r.code ++ ascii " " ++ status ++ crlf] with
  | .error fault => .error fault
  | .ok buff => .ok (r, buff)

def getFileType (r : HttpResponse) : Bytes :=
  if (46 : UInt8) ∈ r.path then
    let suffix := 46 :: (r.path.reverse.takeWhile (· ≠ 46)).reverse
    (suffixType.lookup suffix).getD (ascii "text/plain")
  else ascii "text/plain"

/-- What AddHeader_ appends. -/
def headerLines (r : HttpResponse) : List Bytes :=
  [ascii "Connection: "] ++
    (if r.isKeepAlive then
      [ascii "keep-alive" ++ crlf, ascii "keep-alive: max=6, timeout=120" ++ crlf]
    else [ascii "close" ++ crlf]) ++
    [ascii "Content-type: " ++ r.getFileType ++ crlf]

def addHeader (r : HttpResponse) (buff : Buffer) : Except Fault Buffer :=
  appendAll buff r.headerLines

def errorBody (r : HttpResponse) (message : Bytes) : Bytes :=
  ascii "<html><title>Error</title>" ++ ascii "<body bgcolor=\"ffffff\">" ++
    (decimal r.code ++ ascii " : " ++ (codeStatus r.code).getD
      (ascii "Bad Request") ++ ascii "\n") ++
    (ascii "<p>" ++ message ++ ascii "</p>") ++ ascii "<hr><em>TinyWebServer</em></body></html>"

def contentLength (size : Nat) : Bytes := ascii "Content-length: " ++ decimal size ++ crlf ++ crlf

def errorContent (r : HttpResponse) (message : Bytes) (buff : Buffer) : Except Fault Buffer :=
  appendAll buff [contentLength (r.errorBody message).length, r.errorBody message]

/-- `*mmRet == -1`, which for a short file reads the zeros behind it. -/
def looksFailed (mapped : Bytes) : Bool := mapped.take 4 = [255, 255, 255, 255]

/-- mmap fails for no bytes at all and for a directory, and the int is then read at MAP_FAILED. -/
def addContent (disk : Disk) (r : HttpResponse) (buff : Buffer) :
    Except Fault (HttpResponse × Buffer) :=
  match (disk r.name).filter DiskFile.opens with
  | none => (r.errorContent (ascii "File NotFound!") buff).map (r, ·)
  | some file =>
      if r.size = 0 ∨ file.isDir then .error .outside
      else if looksFailed (file.content.take r.size) then
        (r.errorContent (ascii "File NotFound!") buff).map (r, ·)
      else
        (appendAll buff [contentLength r.size]).map
          ({ r with mmFile := some (file.content.take r.size) }, ·)

def makeResponse (disk : Disk) (r : HttpResponse) (buff : Buffer) :
    Except Fault (HttpResponse × Buffer) :=
  match ((r.judge disk).errorHtml disk).addStateLine buff with
  | .error fault => .error fault
  | .ok (r, buff) =>
      match r.addHeader buff with
      | .error fault => .error fault
      | .ok buff => r.addContent disk buff

/-- The answer that MakeResponse decides on. -/
def chosen (disk : Disk) (r : HttpResponse) : HttpResponse := (r.judge disk).errorHtml disk

def stateLine (r : HttpResponse) : Bytes :=
  ascii "HTTP/1.1 " ++ decimal r.code ++ ascii " " ++ (codeStatus r.code).getD
    (ascii "Bad Request") ++ crlf

/-- The status line and the headers up to the length. -/
def head (r : HttpResponse) : Bytes := r.stateLine ++ r.headerLines.flatten

/-- A response with this body. -/
def text (r : HttpResponse) (body : Bytes) : Bytes := r.head ++ (contentLength body.length ++ body)

/-- The body, unless the program ends. -/
def bodyOf (disk : Disk) (r : HttpResponse) : Option Bytes :=
  match (disk r.name).filter DiskFile.opens with
  | none => some (r.errorBody (ascii "File NotFound!"))
  | some file =>
      if file.content = [] ∨ file.isDir then none
      else if looksFailed file.content then some (r.errorBody (ascii "File NotFound!"))
      else some file.content

section Appends
open Buffer
variable {b next last : Buffer} {bytes more : Bytes}

/-- The bytes came behind the others, in a vector that grew no more than it had to. -/
structure Appended (b next : Buffer) (bytes : Bytes) : Prop where
  wellFormed : WellFormed next
  contents : next.contents = b.contents ++ bytes
  size : next.buffer.length ≤ max b.buffer.length (2 * next.contents.length)

theorem Appended.trans (one : Appended b next bytes) (two : Appended next last more) :
    Appended b last (bytes ++ more) := by
  have contents : last.contents = b.contents ++ (bytes ++ more) := by
    rw [two.contents, one.contents, List.append_assoc]
  have longer : next.contents.length ≤ last.contents.length := by
    rw [two.contents, List.length_append]
    exact Nat.le_add_right _ _
  have first := one.size
  have second := two.size
  exact ⟨two.wellFormed, contents, by omega⟩

theorem append_all_spec (pieces : List Bytes) (wellFormed : WellFormed b)
    (room : b.buffer.length + pieces.flatten.length + pieces.length ≤ maxSize) :
    ∃ next, appendAll b pieces = .ok next ∧ Appended b next pieces.flatten ∧
      next.buffer.length ≤ b.buffer.length + pieces.flatten.length + pieces.length := by
  induction pieces generalizing b with
  | nil => exact ⟨b, rfl, ⟨wellFormed, (List.append_nil _).symm, le_max_left _ _⟩, Nat.le_refl _⟩
  | cons piece pieces ih =>
      rw [List.flatten_cons, List.length_append, List.length_cons] at room ⊢
      have inside := wellFormed.inside
      rcases append_spec wellFormed (by omega : piece.length ≤ maxSize) with ⟨large, -⟩ |
        ⟨middle, appended, good, contents, bound, -, grown⟩
      · omega
      · obtain ⟨next, rest, fine, size⟩ := ih good (by omega)
        refine ⟨next, ?_, Appended.trans ⟨good, contents, bound⟩ fine, by omega⟩
        unfold appendAll
        rw [List.foldlM_cons, appended]
        exact rest

end Appends

section Choice
variable {disk : Disk} {r : HttpResponse}

theorem judge_code (disk : Disk) (known : r.code = 200 ∨ r.code = 400) : (r.judge disk).code = 200 ∨
    (r.judge disk).code = 400 ∨ (r.judge disk).code = 403 ∨ (r.judge disk).code = 404 := by
  unfold judge
  split
  · exact .inr (.inr (.inr rfl))
  · next file found =>
      have same : (r.stat disk).code = r.code := by
        unfold stat
        split <;> rfl
      split_ifs with dir hidden none
      · exact .inr (.inr (.inr rfl))
      · exact .inr (.inr (.inl rfl))
      · exact .inl rfl
      · rw [same]
        exact known.imp_right .inl

theorem stat_resizes (disk : Disk) (r : HttpResponse) : ∃ size, r.stat disk =
    { r with size := size } := by
  unfold stat
  split
  · exact ⟨_, rfl⟩
  · exact ⟨r.size, rfl⟩

theorem stat_code : (r.stat disk).code = r.code := by
  unfold stat
  split <;> rfl

theorem stat_name : (r.stat disk).name = r.name := by
  unfold stat
  split <;> rfl

theorem stat_size {file : DiskFile} (found : disk r.name = some file) :
    (r.stat disk).size = file.content.length := by
  unfold stat
  rw [found]

theorem chosen_code_eq : (r.chosen disk).code = (r.judge disk).code := by
  unfold chosen errorHtml
  split
  · exact stat_code
  · rfl

theorem chosen_code (disk : Disk) (known : r.code = 200 ∨ r.code = 400) :
    ∃ status, codeStatus (r.chosen disk).code = some status := by
  rw [chosen_code_eq]
  rcases judge_code disk known with code | code | code | code <;> rw [code] <;> exact ⟨_, rfl⟩

theorem stat_mm_file : (r.stat disk).mmFile = r.mmFile := by
  unfold stat
  split <;> rfl

theorem chosen_mm_file : (r.chosen disk).mmFile = r.mmFile := by
  have judged : (r.judge disk).mmFile = r.mmFile := by
    unfold judge
    split
    · rfl
    · split_ifs <;> exact stat_mm_file
  unfold chosen errorHtml
  split
  · exact stat_mm_file.trans judged
  · exact judged

theorem judge_name : (r.judge disk).name = r.name := by
  unfold judge
  split
  · rfl
  · split_ifs <;> exact stat_name

theorem judge_size {file : DiskFile} (found : disk r.name = some file) :
    (r.judge disk).size = file.content.length := by
  unfold judge
  split
  · next missing => cases missing.symm.trans found
  · split_ifs <;> exact stat_size found

/-- What was found out last about the size is about the file that is opened. -/
theorem chosen_size {file : DiskFile} (found : disk (r.chosen disk).name = some file) :
    (r.chosen disk).size = file.content.length := by
  unfold chosen errorHtml at found ⊢
  split at found
  · rw [stat_name] at found
    exact stat_size found
  · rw [judge_name] at found
    exact judge_size found

end Choice

section Responses
open Buffer
variable {disk : Disk} {r : HttpResponse} {b : Buffer}

theorem add_state_line_spec (known : ∃ status, codeStatus r.code = some status)
    (wellFormed : WellFormed b)
    (room : b.buffer.length + r.stateLine.length + 1 ≤ maxSize) :
    ∃ next, r.addStateLine b = .ok (r, next) ∧ Appended b next r.stateLine ∧
      next.buffer.length ≤ b.buffer.length + r.stateLine.length + 1 := by
  obtain ⟨status, known⟩ := known
  obtain ⟨next, went, appended, size⟩ := append_all_spec [r.stateLine] wellFormed
    (by rw [List.flatten_singleton]; exact room)
  rw [List.flatten_singleton] at appended size
  refine ⟨next, ?_, appended, size⟩
  unfold stateLine at went
  rw [known, Option.getD_some] at went
  unfold addStateLine
  rw [known]
  dsimp only
  rw [went]

theorem header_lines_length : r.headerLines.length ≤ 4 := by
  unfold headerLines
  split_ifs
  · exact Nat.le_refl 4
  · exact Nat.le_succ 3

theorem error_content_spec (message : Bytes) (wellFormed : WellFormed b)
    (room : b.buffer.length + (contentLength (r.errorBody message).length ++
      r.errorBody message).length + 2 ≤
      maxSize) : ∃ next, r.errorContent message b = .ok next ∧
      Appended b next (contentLength (r.errorBody message).length ++ r.errorBody message) := by
  have flat : [contentLength (r.errorBody message).length, r.errorBody message].flatten =
      contentLength (r.errorBody message).length ++ r.errorBody message := by simp
  rw [← flat] at room ⊢
  obtain ⟨next, went, appended, -⟩ := append_all_spec _ wellFormed room
  exact ⟨next, went, appended⟩

/-- The text has come to the buffer, as far as it is not a mapped file behind it. -/
def Gives (b : Buffer) (text body : Bytes) (r : HttpResponse)
    (result : Except Fault (HttpResponse × Buffer)) :
    Prop :=
  ∃ next last head, result = .ok (next, last) ∧ Appended b last head ∧
    head ++ next.mmFile.getD [] = text ∧
    (next.mmFile = none ∧ body = r.errorBody (ascii "File NotFound!") ∨ next.mmFile =
      some body ∧ 0 < next.size)

theorem gives_error (none : r.mmFile = none) (wellFormed : WellFormed b)
    (room : b.buffer.length + (contentLength (r.errorBody (ascii "File NotFound!")).length ++
      r.errorBody (ascii "File NotFound!")).length + 2 ≤ maxSize) :
    Gives b (contentLength (r.errorBody (ascii "File NotFound!")).length ++ r.errorBody
      (ascii "File NotFound!"))
      (r.errorBody (ascii "File NotFound!")) r
      ((r.errorContent (ascii "File NotFound!") b).map (r, ·)) := by
  obtain ⟨last, went, appended⟩ := error_content_spec (ascii "File NotFound!") wellFormed room
  refine ⟨r, last, _, by rw [went]; rfl, appended, ?_, .inl ⟨none, rfl⟩⟩
  rw [none, Option.getD_none, List.append_nil]

theorem gives_file {content : Bytes} (filled : 0 < r.size) (wellFormed : WellFormed b)
    (room : b.buffer.length + (contentLength content.length ++ content).length + 2 ≤ maxSize) :
    Gives b (contentLength content.length ++ content) content r
      ((appendAll b [contentLength content.length]).map
        ({ r with mmFile := some content }, ·)) := by
  rw [List.length_append] at room
  obtain ⟨last, went, appended, -⟩ := append_all_spec
    [contentLength content.length] wellFormed (by
      rw [List.flatten_singleton, List.length_singleton]
      omega)
  rw [List.flatten_singleton] at appended
  exact ⟨{ r with mmFile := some content }, last, _, by
    rw [went]; rfl, appended, rfl, .inr ⟨rfl, filled⟩⟩

/-- AddContent_, with the file as it was found. -/
theorem add_content_spec (size : ∀ file, disk r.name = some file → r.size = file.content.length)
    (none : r.mmFile = none) (wellFormed : WellFormed b) :
    match r.bodyOf disk with
    | .none => r.addContent disk b = .error .outside
    | some body => b.buffer.length + (contentLength body.length ++ body).length + 2 ≤ maxSize →
        Gives b (contentLength body.length ++ body) body r (r.addContent disk b) := by
  unfold bodyOf addContent
  cases found : (disk r.name).filter DiskFile.opens with
  | none => exact gives_error none wellFormed
  | some file =>
      have known := size file (Option.filter_eq_some_iff.mp found).1
      have empty : r.size = 0 ↔ file.content = [] := by rw [known, List.length_eq_zero_iff]
      have whole : file.content.take r.size = file.content := by rw [known, List.take_length]
      dsimp only
      rw [if_congr (or_congr_left empty) rfl rfl, whole]
      by_cases crash : file.content = [] ∨ file.isDir = true
      · rw [if_pos crash, if_pos crash]
      · rw [if_neg crash, if_neg crash]
        by_cases failed : looksFailed file.content = true
        · rw [if_pos failed, if_pos failed]
          exact gives_error none wellFormed
        · rw [if_neg failed, if_neg failed]
          rw [show contentLength r.size = contentLength file.content.length from congrArg _ known]
          exact gives_file (Nat.pos_of_ne_zero fun none => crash (.inl (empty.mp none))) wellFormed

/-- MakeResponse as a whole. -/
theorem make_response_spec (known : r.code = 200 ∨ r.code = 400) (fresh : r.mmFile = none)
    (wellFormed : WellFormed b) (room : b.buffer.length +
      ((r.chosen disk).text (((r.chosen disk).bodyOf disk).getD [])).length + 7 ≤ maxSize) :
    match (r.chosen disk).bodyOf disk with
    | none => r.makeResponse disk b = .error .outside
    | some body => Gives b ((r.chosen disk).text body) body (r.chosen disk)
        (r.makeResponse disk b) := by
  have same : (r.chosen disk).mmFile = none := chosen_mm_file.trans fresh
  unfold text head at room ⊢
  rw [List.length_append, List.length_append] at room
  obtain ⟨first, line, status, size⟩ := add_state_line_spec
    (chosen_code disk known) wellFormed (by omega)
  have few := header_lines_length (r := r.chosen disk)
  obtain ⟨second, added, headers, more⟩ :=
    append_all_spec (r.chosen disk).headerLines status.wellFormed
    (by omega)
  have rest := add_content_spec (b := second) (fun _ => chosen_size) same headers.wellFormed
  have runs : r.makeResponse disk b = (r.chosen disk).addContent disk second := by
    unfold makeResponse addHeader
    rw [show (r.judge disk).errorHtml disk = r.chosen disk from rfl, line]
    dsimp only
    rw [added]
  rw [runs]
  cases body : (r.chosen disk).bodyOf disk with
  | none =>
      rw [body] at rest
      exact rest
  | some bytes =>
      rw [body] at rest room
      obtain ⟨next, last, content, went, behind, whole, mapped⟩ := rest (by
        rw [Option.getD_some] at room
        omega)
      refine ⟨next, last, _, went, (status.trans headers).trans behind, ?_, mapped⟩
      rw [List.append_assoc, whole]

end Responses

end HttpResponse

end StudyWebServer.WebServer
