import Mathlib.Data.List.TakeDrop
import StudyWebServer.Http.WebRoot

/-!
m_real_file against its description in http_conn.h, doc_root + m_url. strncpy
copies no more of the URL than there is room for, and nothing compares the two,
so a long URL names the file of its beginning.
-/

namespace StudyWebServer

open ByteMemory CString

/-- The string that m_url denotes when the request gets to do_request. -/
def requestUrl (bytes : List UInt8) : List UInt8 :=
  match readHead (Reader.fresh.feed bytes) with
  | .complete h => ((servedUrl h).map Url.string).getD []
  | .waiting _ | .refused _ => []

/-- A request that process_read accepts, in the pieces that it came in. -/
structure AcceptedRequest (fs : FileSystem) (c : HttpConn) (chunks : List (List UInt8)) : Prop where
  room : chunks.flatten.length ≤ readBufferSize
  head : declared chunks.flatten ≠ none
  answered : (receive fs (init c).conn chunks).ret ≠ .noRequest

/-- The path passed to stat is doc_root and the whole of m_url, or the answer is
an error code. -/
def NamesFile (fs : FileSystem) (value : Outcome HttpCode) : Prop :=
  realPath value.conn = docRoot ++ urlString fs value.conn ∨ value.ret ≠ .fileRequest

/-- A URL that m_real_file has room for, or whose beginning names no file. -/
def WholeOrRefused (fs : FileSystem) (url : List UInt8) : Prop :=
  url.length ≤ urlRoom ∨ answerFor fs (docRoot ++ url.take urlRoom) ≠ .fileRequest

theorem AcceptedRequest.url {fs : FileSystem} {c : HttpConn} {chunks : List (List UInt8)}
    (accepted : AcceptedRequest fs c chunks) :
    urlString fs (receive fs (init c).conn chunks).conn = requestUrl chunks.flatten := by
  have agrees := init_receives fs c chunks accepted.room
  have head := accepted.head
  unfold declared at head
  unfold requestUrl
  cases reached : readHead (Reader.fresh.feed chunks.flatten) with
  | waiting w =>
      rw [reached] at head
      exact absurd rfl head
  | refused w =>
      rw [reached] at head
      exact absurd rfl head
  | complete h =>
      have reads := request_reads chunks reached accepted.room
      have served : (readChunks Reader.fresh chunks).verdict = .serve := by
        by_contra other
        exact accepted.answered (agrees.no_request_iff.mpr (reads.waited other).1)
      obtain ⟨url, cut, -⟩ := served_url_rooted (read_head_rooted reached rfl)
      rw [agrees.answered.url, reads.url served]
      dsimp only
      rw [cut]
      rfl

theorem AcceptedRequest.served {fs : FileSystem} {c : HttpConn} {chunks : List (List UInt8)}
    (accepted : AcceptedRequest fs c chunks) :
    PathServed fs (receive fs (init c).conn chunks) := by
  have served := request_path fs c chunks accepted.room accepted.answered
  rwa [if_neg accepted.head] at served

/-- The path is the described one just when the URL was not cut. -/
theorem PathServed.names_iff {fs : FileSystem} {value : Outcome HttpCode}
    (served : PathServed fs value) :
    NamesFile fs value ↔ WholeOrRefused fs (urlString fs value.conn) := by
  unfold NamesFile WholeOrRefused
  rw [served.ret, served.path, List.append_cancel_left_eq, List.take_eq_self_iff]

theorem AcceptedRequest.names_iff {fs : FileSystem} {c : HttpConn} {chunks : List (List UInt8)}
    (accepted : AcceptedRequest fs c chunks) :
    NamesFile fs (receive fs (init c).conn chunks) ↔
      WholeOrRefused fs (requestUrl chunks.flatten) := by
  rw [accepted.served.names_iff, accepted.url]

/-- Two requests, each maybe at another state of the disk: the paths are the
described ones, and two URLs are not served from one path. -/
structure NamedApart (fs gs : FileSystem) (one other : Outcome HttpCode) : Prop where
  first : NamesFile fs one
  second : NamesFile gs other
  apart : urlString fs one.conn ≠ urlString gs other.conn → one.ret = .fileRequest →
    other.ret = .fileRequest → realPath one.conn ≠ realPath other.conn

theorem real_file_names_url_exact (fs gs : FileSystem) (c d : HttpConn)
    (one other : List (List UInt8)) (first : AcceptedRequest fs c one)
    (second : AcceptedRequest gs d other) :
    NamedApart fs gs (receive fs (init c).conn one) (receive gs (init d).conn other) ↔
      WholeOrRefused fs (requestUrl one.flatten) ∧
      WholeOrRefused gs (requestUrl other.flatten) := by
  constructor
  · intro named
    exact ⟨first.names_iff.mp named.first, second.names_iff.mp named.second⟩
  · rintro ⟨whole, also⟩
    have names := first.names_iff.mpr whole
    have namesOther := second.names_iff.mpr also
    refine ⟨names, namesOther, fun different file fileOther same => different ?_⟩
    -- Neither URL was cut, so the paths tell them apart.
    have path := names.resolve_right fun error => error file
    have pathOther := namesOther.resolve_right fun error => error fileOther
    rw [path, pathOther] at same
    exact List.append_cancel_left same

/-- URLs of 150 bytes that differ in the last one. -/
def longUrl (last : UInt8) : List UInt8 := 47 :: List.replicate 148 97 ++ [last]

def longRequest (last : UInt8) : List UInt8 :=
  ascii "GET " ++ longUrl last ++ ascii " HTTP/1.1\r\n\r\n"

/-- A disk on which every path is a world-readable file. -/
def fullDisk : FileSystem where
  stat _ := some ⟨33188, 10⟩
  mmap _ _ := 4096
  mmap_ne_null := one_page_mapped
  pages _ := 0
  elsewhere := []
  writable := FileSystem.empty.writable

theorem answer_full_disk (path : List UInt8) : answerFor fullDisk path = .fileRequest := rfl

theorem long_request_reads (last : UInt8) (letter : last = 98 ∨ last = 99) :
    declared [longRequest last].flatten ≠ none ∧
    (readChunks Reader.fresh [longRequest last]).verdict = .serve ∧
    requestUrl [longRequest last].flatten = longUrl last := by
  rcases letter with rfl | rfl <;> decide +kernel

theorem long_request_accepted {last : UInt8} (letter : last = 98 ∨ last = 99) :
    AcceptedRequest fullDisk .unused [longRequest last] := by
  obtain ⟨head, served, -⟩ := long_request_reads last letter
  have room : [longRequest last].flatten.length ≤ readBufferSize := by
    rcases letter with rfl | rfl <;> decide +kernel
  refine ⟨room, head, ?_⟩
  rw [Ne, (init_receives fullDisk .unused [longRequest last] room).no_request_iff, served]
  decide

/-- What both are answered with. -/
theorem long_request_path {last : UInt8} (letter : last = 98 ∨ last = 99) :
    urlString fullDisk (receive fullDisk (init .unused).conn [longRequest last]).conn =
      longUrl last ∧
    realPath (receive fullDisk (init .unused).conn [longRequest last]).conn =
      docRoot ++ 47 :: List.replicate 148 97 ∧
    (receive fullDisk (init .unused).conn [longRequest last]).ret = .fileRequest := by
  have accepted := long_request_accepted letter
  have served := accepted.served
  have url := accepted.url.trans (long_request_reads last letter).2.2
  have cut : (longUrl last).take urlRoom = 47 :: List.replicate 148 97 := by
    rcases letter with rfl | rfl <;> decide
  exact ⟨url, by rw [served.path, url, cut], served.ret.trans (answer_full_disk _)⟩

/-- Both are served the file of the bytes they have in common. -/
theorem long_urls_share_file :
    AcceptedRequest fullDisk .unused [longRequest 98] ∧
    AcceptedRequest fullDisk .unused [longRequest 99] ∧ longUrl 98 ≠ longUrl 99 ∧
    realPath (receive fullDisk (init .unused).conn [longRequest 98]).conn =
      realPath (receive fullDisk (init .unused).conn [longRequest 99]).conn ∧
    ¬ NamedApart fullDisk fullDisk (receive fullDisk (init .unused).conn [longRequest 98])
      (receive fullDisk (init .unused).conn [longRequest 99]) := by
  obtain ⟨url, path, file⟩ := long_request_path (.inl rfl : (98 : UInt8) = 98 ∨ _)
  obtain ⟨url', path', file'⟩ := long_request_path (.inr rfl : (99 : UInt8) = 98 ∨ _)
  have different : longUrl 98 ≠ longUrl 99 := by decide
  refine ⟨long_request_accepted (.inl rfl), long_request_accepted (.inr rfl), different,
    path.trans path'.symm, fun named => ?_⟩
  exact named.apart (by rw [url, url']; exact different) file file' (path.trans path'.symm)

/-- Two short URLs, each served its own file. -/
theorem real_file_names_url_exact_short :
    let one := [passwdRequest]
    let other := [ascii "GET /a HTTP/1.1\r\n\r\n"]
    requestUrl one.flatten ≠ requestUrl other.flatten ∧
      NamedApart fullDisk fullDisk (receive fullDisk (init .unused).conn one)
        (receive fullDisk (init .unused).conn other) := by
  intro one other
  have accepted : ∀ chunks ∈ [one, other], AcceptedRequest fullDisk .unused chunks ∧
      (requestUrl chunks.flatten).length ≤ urlRoom := by
    intro chunks member
    have reads : chunks.flatten.length ≤ readBufferSize ∧ declared chunks.flatten ≠ none ∧
        (readChunks Reader.fresh chunks).verdict = .serve ∧
        (requestUrl chunks.flatten).length ≤ urlRoom := by
      rcases List.mem_pair.mp member with rfl | rfl <;> decide +kernel
    obtain ⟨room, head, served, short⟩ := reads
    refine ⟨⟨room, head, ?_⟩, short⟩
    rw [Ne, (init_receives fullDisk .unused chunks room).no_request_iff, served]
    decide
  obtain ⟨first, short⟩ := accepted one (by simp)
  obtain ⟨second, shortToo⟩ := accepted other (by simp)
  exact ⟨by decide +kernel, (real_file_names_url_exact fullDisk fullDisk .unused .unused one other
    first second).mpr ⟨.inl short, .inl shortToo⟩⟩

end StudyWebServer
