import StudyWebServer.Library.LexicalPath
import StudyWebServer.Http.Segmentation

/-!
The path that do_request hands to stat, open and mmap: doc_root and the start of
the URL, as they are. Nothing resolves the components of the URL or compares the
result with doc_root, so the URL alone decides whether the path stays below.
-/

namespace StudyWebServer

open ByteMemory CString MachineInt CrlfLines LexicalPath

/-- The bytes of a URL that m_real_file has room for. -/
def urlRoom : Nat := filenameLen - docRoot.length - 1

/-- The answer to a request for a path. -/
def answerFor (fs : FileSystem) (path : List UInt8) : HttpCode :=
  match fs.stat path with
  | none => .noResource
  | some stat =>
      if stat.stMode &&& 4 = 0 then .forbiddenRequest
      else if stat.stMode &&& 61440 = 16384 then .badRequest
      else .fileRequest

/-- The path is doc_root or lies below it, its dots resolved. -/
def BelowDocRoot (path : List UInt8) : Prop := Below 47 46 docRoot path

instance (path : List UInt8) : Decidable (BelowDocRoot path) :=
  inferInstanceAs (Decidable (Below _ _ _ _))

/-- A URL that comes back, by name, through every component of doc_root that
its double dots left. -/
def ReturnsToDocRoot (url : List UInt8) : Prop :=
  (resolve 47 46 docRoot).drop ((resolve 47 46 docRoot).length - (climb 47 46 url).ups) <+:
    (climb 47 46 url).names.reverse

/-- A string that m_url can point to behind parse_request_line. -/
structure Rooted (url : List UInt8) : Prop where
  free : (0 : UInt8) ∉ url
  joined : url = [] ∨ url.head? = some 47

theorem Rooted.take {url : List UInt8} (rooted : Rooted url) (count : Nat) :
    Rooted (url.take count) := by
  constructor
  · exact fun member => rooted.free (List.mem_of_mem_take member)
  · cases count with
    | zero => exact .inl List.take_zero
    | succ count =>
        rcases rooted.joined with empty | slash
        · exact .inl (by rw [empty, List.take_nil])
        · obtain ⟨rest, rfl⟩ := List.head?_eq_some_iff.mp slash
          exact .inr rfl

/-- What a request that do_request answered was answered with. -/
structure PathServed (fs : FileSystem) (value : Outcome HttpCode) : Prop where
  rooted : Rooted (urlString fs value.conn)
  path : realPath value.conn = docRoot ++ (urlString fs value.conn).take urlRoom
  ret : value.ret = answerFor fs (realPath value.conn)
  mapped : value.ret = .fileRequest → value.conn.fileAddress =
    fs.mmap (realPath value.conn) value.conn.fileStat.stSize

theorem PathServed.below_iff {fs : FileSystem} {value : Outcome HttpCode}
    (served : PathServed fs value) : BelowDocRoot (realPath value.conn) ↔
      ReturnsToDocRoot ((urlString fs value.conn).take urlRoom) := by
  rw [BelowDocRoot, served.path]
  exact below_append_iff docRoot _ (served.rooted.take urlRoom).joined

section Copy

theorem strncpy_bytes_get {url : List UInt8} {count : Nat} (short : url.length < count) :
    (strncpyBytes url count)[url.length]? = some 0 := by
  simp [strncpyBytes, short]

theorem strncpy_bytes_take (url : List UInt8) (count : Nat) :
    (strncpyBytes url count).take (url.take count).length = url.take count := by
  have short : min count url.length ≤ count := by omega
  rw [strncpyBytes, List.take_take, List.length_take, min_eq_left short]
  rw [List.take_append_of_le_length (by omega), List.take_eq_take_iff]
  omega

/-- strcpy and strncpy leave a terminated path when the last byte of the array,
which they do not reach, is a NUL. -/
theorem copy_real_file_path {url : List UInt8} {realFile : Memory} (free : (0 : UInt8) ∉ url)
    (last : realFile (filenameLen - 1) = 0) :
    Terminated (copyRealFile url realFile) filenameLen 0 (docRoot ++ url.take urlRoom) := by
  have width : (strncpyBytes url urlRoom).length = urlRoom := by simp [strncpyBytes]
  have total : docRoot.length + urlRoom + 1 = filenameLen := by decide
  have short : (url.take urlRoom).length ≤ urlRoom := List.length_take_le _ _
  have root : slice (copyRealFile url realFile) 0 docRoot.length = docRoot := by
    have stored := @slice_store_list realFile 0 (docRoot ++ [0])
    rw [List.length_append, slice_add] at stored
    have first := (List.append_inj stored slice_length).1
    conv_rhs => rw [← first]
    exact slice_congr fun key _ upper => store_list_before _ (by omega)
  constructor
  · have tail : slice (copyRealFile url realFile) docRoot.length urlRoom =
        strncpyBytes url urlRoom := by
      conv_rhs => rw [← @slice_store_list (storeList realFile 0 (docRoot ++ [0]))
        docRoot.length (strncpyBytes url urlRoom), width]
      rfl
    have split : urlRoom = (url.take urlRoom).length + (urlRoom - (url.take urlRoom).length) := by
      omega
    rw [split, slice_add, ← split] at tail
    have start := congrArg (List.take (url.take urlRoom).length) tail
    rw [List.take_left' slice_length, strncpy_bytes_take] at start
    rw [List.length_append, slice_add, root, Nat.zero_add, start]
  · rw [List.length_append, Nat.zero_add]
    -- strncpy pads a short URL with NULs; a long one ends at the last byte of the array.
    by_cases whole : url.length < urlRoom
    · rw [List.take_of_length_le whole.le]
      have padded := strncpy_bytes_get whole
      simp only [copyRealFile, storeList]
      rw [if_pos (Nat.le_add_right _ _), Nat.add_sub_cancel_left]
      show ((strncpyBytes url urlRoom)[url.length]?).getD _ = 0
      rw [padded]
      rfl
    · rw [List.length_take, min_eq_left (by omega)]
      have end_ : docRoot.length + urlRoom = filenameLen - 1 := by omega
      rw [end_, ← last]
      have first : docRoot.length + (strncpyBytes url urlRoom).length ≤ filenameLen - 1 := by omega
      have second : 0 + (docRoot ++ [0]).length ≤ filenameLen - 1 := by decide
      exact (store_list_after _ first).trans (store_list_after _ second)
  · rw [List.length_append]
    omega
  · intro member
    rcases List.mem_append.mp member with inRoot | inUrl
    · exact absurd inRoot (by decide)
    · exact free (List.mem_of_mem_take inUrl)

end Copy

theorem do_request_path {fs : FileSystem} {c : HttpConn} (rooted : Rooted (urlString fs c))
    (last : c.realFile (filenameLen - 1) = 0) : PathServed fs (doRequest fs c) := by
  have copied := (copy_real_file_path rooted.free last).cstr_eq
  have url : urlString fs (doRequest fs c).conn = urlString fs c := by
    unfold doRequest
    dsimp only
    split
    · rfl
    · split_ifs <;> rfl
  have path : realPath (doRequest fs c).conn = docRoot ++ (urlString fs c).take urlRoom := by
    rw [← copied]
    unfold doRequest
    dsimp only
    split
    · rfl
    · split_ifs <;> rfl
  refine ⟨url.symm ▸ rooted, by rw [url]; exact path, ?_, ?_⟩
  · rw [path, ← copied]
    unfold doRequest answerFor realPath
    dsimp only
    cases found : fs.stat (cstr (copyRealFile (urlString fs c) c.realFile) filenameLen 0) with
    | none => rfl
    | some stat =>
        dsimp only
        split_ifs <;> rfl
  · rw [path, ← copied]
    unfold doRequest realPath
    dsimp only
    intro file
    split
    · next missing =>
        rw [missing] at file
        cases file
    · next stat found =>
        rw [found] at file
        dsimp only at file
        split_ifs at file ⊢ <;> rfl

/-- A request line that parse_request_line takes points m_url to a slash. -/
theorem request_line_rooted {offset : Nat} {line : List UInt8} (free : (0 : UInt8) ∉ line)
    (accepted : (requestLine offset line).accepted = true) :
    ∃ url, (requestLine offset line).url = some url ∧ Rooted url.string := by
  unfold requestLine at accepted ⊢
  cases first : strpbrk line blanks with
  | none => simp [first] at accepted
  | some place =>
      have behind : (0 : UInt8) ∉ line.drop (place + 1) := fun member =>
        free (List.mem_of_mem_drop member)
      simp only [first] at accepted ⊢
      split_ifs at accepted with method
      simp only [method, ↓reduceIte] at accepted ⊢
      cases second : strpbrk (line.drop (place + 1)) blanks with
      | none => simp [second] at accepted
      | some next =>
          have inUrl : (0 : UInt8) ∉ (line.drop (place + 1)).take next := fun member =>
            behind (List.mem_of_mem_take member)
          simp only [second] at accepted ⊢
          split_ifs at accepted with version absolute
          · -- the absolute form: m_url moves to the slash behind the host
            simp only [version, absolute, ↓reduceIte] at accepted ⊢
            cases last : strchr (((line.drop (place + 1)).take next).drop 7) 47 with
            | none => simp [last] at accepted
            | some slash =>
                obtain ⟨inside, found⟩ := strchr_some last
                refine ⟨_, rfl, fun member => inUrl ?_, .inr ?_⟩
                · exact List.mem_of_mem_drop (List.mem_of_mem_drop member)
                · rw [List.head?_drop, List.getElem?_eq_getElem inside, found]
          · simp only [version, absolute, ↓reduceIte] at accepted ⊢
            exact ⟨_, rfl, inUrl, .inr (of_decide_eq_true accepted)⟩

theorem read_head_rooted {r h : Reader} (complete : readHead r = .complete h)
    (start : r.phase = .requestline) : ∃ url, h.url = some url ∧ Rooted url.string := by
  refine Loop.run_induction (motive := fun (r : Reader) (head : Head) =>
    (r.phase = .requestline ∨ ∃ url, r.url = some url ∧ Rooted url.string) →
      ∀ h, head = .complete h → ∃ url, h.url = some url ∧ Rooted url.string)
    ?_ ?_ r (.inl start) h complete
  · intro r next head round ih held
    cases found : scan r.unread with
    | stopped passed rest =>
        rw [head_round_stopped found] at round
        cases round
    | line line rest =>
        rw [head_round_line found] at round
        unfold headLine at round
        dsimp only at round
        split_ifs at round with requestline accepted empty
        · cases round
          exact ih (.inr (request_line_rooted (nul_not_mem_text _) accepted))
        · cases round
          apply ih
          rw [header_line_phase, header_line_url]
          exact held
  · intro r head round held h same
    subst same
    cases found : scan r.unread with
    | stopped passed rest =>
        rw [head_round_stopped found] at round
        cases round
    | line line rest =>
        rw [head_round_line found] at round
        unfold headLine at round
        dsimp only at round
        split_ifs at round with requestline accepted empty
        · cases round
        · cases round
          exact held.resolve_left requestline

/-- The NUL of a negative Content-Length can only shorten the URL. -/
theorem served_url_rooted {h : Reader} (found : ∃ url, h.url = some url ∧ Rooted url.string) :
    ∃ url, servedUrl h = some url ∧ Rooted url.string := by
  obtain ⟨url, same, rooted⟩ := found
  unfold servedUrl
  split_ifs with negative
  · rw [same]
    refine ⟨_, rfl, ?_⟩
    unfold Url.cutAt
    split_ifs with before
    · exact rooted.take _
    · exact rooted
  · exact ⟨url, same, rooted⟩

/-- The requests that end in do_request, and those that do not get there. -/
theorem request_path (fs : FileSystem) (c : HttpConn) (chunks : List (List UInt8))
    (room : chunks.flatten.length ≤ readBufferSize)
    (answered : (receive fs (init c).conn chunks).ret ≠ .noRequest) :
    if declared chunks.flatten = none then
      (receive fs (init c).conn chunks).ret = .badRequest ∧
      (receive fs (init c).conn chunks).conn.realFile = (init c).conn.realFile
    else PathServed fs (receive fs (init c).conn chunks) := by
  have agrees := init_receives fs c chunks room
  have head := read_chunks_head chunks Reader.fresh fresh_at_rest (by simp [Reader.fresh])
  cases reached : readHead (Reader.fresh.feed chunks.flatten) with
  | waiting w =>
      rw [reached] at head
      exact absurd (agrees.no_request_iff.mpr (by rw [head])) answered
  | refused w =>
      rw [reached] at head
      obtain ⟨v, reading, -⟩ := head
      have none : declared chunks.flatten = none := by simp [declared, reached]
      have result := agrees.result
      simp only [reading] at result
      rw [if_pos none]
      exact ⟨result.1, result.2.2.realFile⟩
  | complete h =>
      have some : declared chunks.flatten ≠ none := by simp [declared, reached]
      have reads := request_reads chunks reached room
      have served : (readChunks Reader.fresh chunks).verdict = .serve := by
        by_contra other
        exact answered (agrees.no_request_iff.mpr (reads.waited other).1)
      obtain ⟨url, cut, rooted⟩ := served_url_rooted (read_head_rooted reached rfl)
      have result := agrees.result
      rw [served] at result
      obtain ⟨d, ret, conn, answer, same⟩ := result
      have string : urlString fs d = url.string := by
        rw [answer.url, reads.url served, cut]
        rfl
      -- init() has cleared m_real_file, and nothing before do_request stores to it.
      have last : d.realFile (filenameLen - 1) = 0 := by
        rw [same.realFile, init_conn]
        rfl
      have path := do_request_path (string.symm ▸ rooted) last
      rw [if_neg some]
      exact ⟨conn ▸ path.rooted, conn ▸ path.path, by rw [ret, conn]; exact path.ret,
        by rw [ret, conn]; exact path.mapped⟩

/-- The path of every request is doc_root and the URL up to the room there is;
the answer is what the disk says of that path. Whether it lies below doc_root
depends on the URL alone, and the answer does not ask. -/
theorem request_path_unconfined (fs : FileSystem) (c : HttpConn) (chunks : List (List UInt8))
    (room : chunks.flatten.length ≤ readBufferSize)
    (accepted : declared chunks.flatten ≠ none)
    (answered : (receive fs (init c).conn chunks).ret ≠ .noRequest) :
    let value := receive fs (init c).conn chunks
    let url := (urlString fs value.conn).take urlRoom
    (url = [] ∨ url.head? = some 47) ∧ realPath value.conn = docRoot ++ url ∧
      (BelowDocRoot (realPath value.conn) ↔ ReturnsToDocRoot url) ∧
      value.ret = answerFor fs (realPath value.conn) ∧
      (value.ret = .fileRequest → value.conn.fileAddress =
        fs.mmap (realPath value.conn) value.conn.fileStat.stSize) := by
  have served := request_path fs c chunks room answered
  rw [if_neg accepted] at served
  exact ⟨(served.rooted.take urlRoom).joined, served.path, served.below_iff, served.ret,
    served.mapped⟩

def passwdPath : List UInt8 := ascii "/../../../../../../etc/passwd"

def passwdRequest : List UInt8 := ascii "GET " ++ passwdPath ++ ascii " HTTP/1.1\r\n\r\n"

/-- A disk with one world-readable file, the one behind that path. -/
def passwdDisk : FileSystem where
  stat path := if path = docRoot ++ passwdPath then some ⟨33188, 1000⟩ else none
  mmap _ _ := 4096
  mmap_ne_null := one_page_mapped
  pages _ := 0
  elsewhere := []
  writable := FileSystem.empty.writable

set_option maxRecDepth 4000 in
theorem passwd_request_reads : declared [passwdRequest].flatten ≠ none ∧
    (readChunks Reader.fresh [passwdRequest]).verdict = .serve ∧
    (readChunks Reader.fresh [passwdRequest]).reader.url = some ⟨4, passwdPath⟩ := by decide

/-- do_request serves a file outside of doc_root. -/
theorem passwd_served : ¬ ∀ (fs : FileSystem) (c : HttpConn) (chunks : List (List UInt8)),
    chunks.flatten.length ≤ readBufferSize → declared chunks.flatten ≠ none →
      (receive fs (init c).conn chunks).ret = .fileRequest →
      BelowDocRoot (realPath (receive fs (init c).conn chunks).conn) := by
  intro confined
  obtain ⟨accepted, served, url⟩ := passwd_request_reads
  have room : [passwdRequest].flatten.length ≤ readBufferSize := by decide
  have agrees := init_receives passwdDisk .unused [passwdRequest] room
  have answered : (receive passwdDisk (init .unused).conn [passwdRequest]).ret ≠ .noRequest := by
    rw [Ne, agrees.no_request_iff, served]
    decide
  have path := request_path passwdDisk .unused [passwdRequest] room answered
  rw [if_neg accepted] at path
  have string : urlString passwdDisk
      (receive passwdDisk (init .unused).conn [passwdRequest]).conn = passwdPath := by
    rw [agrees.answered.url, url]
    rfl
  have real := path.path
  rw [string] at real
  have file := path.ret
  rw [real] at file
  have below := confined passwdDisk .unused [passwdRequest] room accepted (file.trans (by decide))
  rw [real] at below
  exact absurd below (by decide)

/-- The same request on a disk without files. -/
theorem request_path_unconfined_no_file :
    (receive .empty (init .unused).conn [passwdRequest]).ret = answerFor .empty
      (realPath (receive .empty (init .unused).conn [passwdRequest]).conn) := by
  have served := passwd_request_reads.2.1
  have agrees := init_receives .empty .unused [passwdRequest] (by decide)
  refine (request_path_unconfined .empty .unused [passwdRequest] (by decide)
    passwd_request_reads.1 ?_).2.2.2.1
  rw [Ne, agrees.no_request_iff, served]
  decide

end StudyWebServer
