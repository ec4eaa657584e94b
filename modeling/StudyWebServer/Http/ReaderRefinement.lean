import StudyWebServer.Http.RequestReader
import StudyWebServer.Http.Response

/-!
process_read refines the reader of byte streams. `Shows` relates the object to
the reader: the buffer holds the reader's bytes, no carriage return is left
behind the scanner, and the URL is a terminated string before the current line.
-/

namespace StudyWebServer

open ByteMemory CString MachineInt CrlfLines Layout

def UrlShown (buffer : Memory) (limit : Nat) (pointer : CharPtr) : Option Url → Prop
  | none => pointer = .null
  | some url => pointer = .readBuf url.offset ∧ Terminated buffer limit url.offset url.string

structure Shows (c : HttpConn) (r : Reader) : Prop where
  phase : c.checkState = r.phase
  start : c.startLine = r.start
  checked : c.checkedIdx = r.position
  arrived : c.readIdx = r.position + r.unread.length
  room : c.readIdx ≤ readBufferSize
  held : slice c.readBuf r.start r.held.length = r.held
  unread : slice c.readBuf r.position r.unread.length = r.unread
  passed : ∀ key < r.position, c.readBuf key ≠ 13
  url : UrlShown c.readBuf r.start c.url r.url
  linger : c.linger = r.linger
  length : c.contentLength = r.contentLength
  fits : FitsInt r.contentLength

/-- The half of the object that parsing leaves to the response. -/
structure ResponseSame (c d : HttpConn) : Prop where
  realFile : d.realFile = c.realFile
  writeBuf : d.writeBuf = c.writeBuf
  writeIdx : d.writeIdx = c.writeIdx
  fileAddress : d.fileAddress = c.fileAddress
  fileStat : d.fileStat = c.fileStat
  iv0 : d.iv0 = c.iv0
  iv1 : d.iv1 = c.iv1
  ivCount : d.ivCount = c.ivCount

theorem ResponseSame.refl (c : HttpConn) : ResponseSame c c :=
  ⟨rfl, rfl, rfl, rfl, rfl, rfl, rfl, rfl⟩

theorem ResponseSame.trans {b c d : HttpConn} (first : ResponseSame b c)
    (second : ResponseSame c d) : ResponseSame b d :=
  ⟨second.realFile.trans first.realFile, second.writeBuf.trans first.writeBuf,
    second.writeIdx.trans first.writeIdx, second.fileAddress.trans first.fileAddress,
    second.fileStat.trans first.fileStat, second.iv0.trans first.iv0,
    second.iv1.trans first.iv1, second.ivCount.trans first.ivCount⟩

section Scanner

/-- parse_line come to a stop `count` bytes further on. -/
def skip (count : Nat) (c : HttpConn) : HttpConn := { c with checkedIdx := c.checkedIdx + count }

theorem skip_advance (count : Nat) (c : HttpConn) :
    skip count (advance c) = skip (count + 1) c := by
  simp only [skip, advance]
  congr 1
  omega

theorem load_in_bounds {index : Nat} (limit : Nat) (inside : index < limit)
    (room : limit ≤ readBufferSize) : (Effect.load index).InBounds := by
  simp only [Effect.InBounds]
  omega

theorem store_in_bounds {index : Nat} (limit : Nat) (inside : index < limit)
    (room : limit ≤ readBufferSize) : (Effect.store .readBuf index 1).InBounds := by
  simp only [Effect.InBounds, MemberArray.size]
  omega

theorem parse_line_from_scan (count : Nat) (c : HttpConn)
    (unread : count = c.readIdx - c.checkedIdx) (room : c.readIdx ≤ readBufferSize)
    (passed : ∀ key < c.checkedIdx, c.readBuf key ≠ 13) :
    InBounds (parseLineFrom count c).log ∧
    match scan (slice c.readBuf c.checkedIdx count) with
    | .line line _ => (parseLineFrom count c).ret = .lineOk ∧
        (parseLineFrom count c).conn = cutLine c (c.checkedIdx + line.length)
    | .stopped passed _ => (parseLineFrom count c).ret ≠ .lineOk ∧
        (parseLineFrom count c).conn = skip passed.length c := by
  -- Induction on the bytes left to scan, as parse_line advances over them.
  induction count generalizing c with
  | zero => exact ⟨in_bounds_nil, by simp [parseLineFrom], rfl⟩
  | succ count ih =>
      have here : (Effect.load c.checkedIdx).InBounds := load_in_bounds _ (by omega) room
      rw [slice_succ]
      by_cases cr : c.readBuf c.checkedIdx = 13
      · rw [cr]
        by_cases last : c.checkedIdx + 1 = c.readIdx
        -- CR is the last byte that has come: LINE_OPEN on the CR.
        · have none : count = 0 := by omega
          subst none
          rw [parse_line_cr_end cr last]
          exact ⟨by simpa using here, by simp, rfl⟩
        -- CR with a byte behind it: the pair is cut, or the line is bad.
        · obtain ⟨more, rfl⟩ : ∃ more, count = more + 1 := ⟨count - 1, by omega⟩
          have next : (Effect.load (c.checkedIdx + 1 : Nat)).InBounds :=
            load_in_bounds _ (by omega) room
          rw [slice_succ]
          by_cases lf : c.readBuf (c.checkedIdx + 1) = 10
          · rw [parse_line_pair cr last lf, lf]
            have first : (Effect.store .readBuf c.checkedIdx 1).InBounds :=
              store_in_bounds _ (by omega) room
            have second : (Effect.store .readBuf (c.checkedIdx + 1 : Nat) 1).InBounds :=
              store_in_bounds _ (by omega) room
            exact ⟨by simpa using ⟨here, next, first, second⟩, rfl, rfl⟩
          · rw [parse_line_cr_bad cr last lf,
              scan_unpaired (by simpa [Unpaired] using lf)]
            exact ⟨by simpa using ⟨here, next⟩, by simp, rfl⟩
      · by_cases lf : c.readBuf c.checkedIdx = 10
        -- No CR was passed, so the look back of the LF branch finds none.
        · have noCr : 1 < c.checkedIdx → c.readBuf (c.checkedIdx - 1) ≠ 13 :=
            fun later => passed _ (by omega)
          rw [parse_line_lf_bad lf noCr, lf, scan_unpaired rfl]
          refine ⟨?_, by simp, rfl⟩
          split_ifs with later
          · have before : (Effect.load ((c.checkedIdx : Int) - 1)).InBounds := by
              simp only [Effect.InBounds] at here ⊢
              omega
            simpa using ⟨here, before⟩
          · simpa using here
        -- A plain byte is passed by both.
        · rw [parse_line_plain cr lf, scan_plain cr lf]
          have moved : (advance c).checkedIdx = c.checkedIdx + 1 := rfl
          have rest := ih (advance c) (by rw [moved]; show count = c.readIdx - _; omega) room (by
            intro key below
            rcases Nat.lt_succ_iff_lt_or_eq.mp below with before | rfl
            · exact passed key before
            · exact cr)
          rw [moved] at rest
          refine ⟨in_bounds_cons.mpr ⟨here, rest.1⟩, ?_⟩
          have found := rest.2
          change match (scan (slice c.readBuf (c.checkedIdx + 1) count)).after _ with
            | .line line _ => _
            | .stopped passed _ => _
          cases result : scan (slice c.readBuf (c.checkedIdx + 1) count) with
          | line line tail =>
              simp only [advance] at found
              rw [result] at found
              refine ⟨found.1, found.2.trans ?_⟩
              simp only [cutLine, List.length_append, List.length_singleton, Nat.add_assoc]
          | stopped passed tail =>
              simp only [advance] at found
              rw [result] at found
              refine ⟨found.1, found.2.trans ?_⟩
              rw [List.singleton_append, List.length_cons, ← skip_advance]
              rfl

end Scanner

section Line
variable {c : HttpConn} {r : Reader}

theorem slice_eq_append {memory : Memory} {index : Nat} {first second : List UInt8}
    (both : slice memory index (first ++ second).length = first ++ second) :
    slice memory index first.length = first ∧
    slice memory (index + first.length) second.length = second := by
  rw [List.length_append, slice_add] at both
  exact List.append_inj both slice_length

theorem slice_append_eq {memory : Memory} {index : Nat} {first second : List UInt8}
    (left : slice memory index first.length = first)
    (right : slice memory (index + first.length) second.length = second) :
    slice memory index (first ++ second).length = first ++ second := by
  rw [List.length_append, slice_add, left, right]

theorem UrlShown.congr {buffer other : Memory} {limit wider : Nat} {pointer : CharPtr}
    {url : Option Url} (shown : UrlShown buffer limit pointer url)
    (same : ∀ key < limit, buffer key = other key) (wide : limit ≤ wider) :
    UrlShown other wider pointer url := by
  cases url with
  | none => exact shown
  | some url => exact ⟨shown.1, (shown.2.congr fun key _ below => same key below).weaken wide⟩

theorem Shows.nextLine (shows : Shows c r) {line rest : List UInt8}
    (found : scan r.unread = .line line rest) :
    Shows (startNextLine (cutLine c (c.checkedIdx + line.length)))
      (r.turn (line.length + 2) rest) ∧
    Terminated (cutLine c (c.checkedIdx + line.length)).readBuf (r.position + line.length + 2)
      r.start (text (r.held ++ line)) := by
  obtain ⟨split, plain⟩ := scan_line_split found
  have length : r.unread.length = line.length + (rest.length + 2) := by
    rw [split]
    simp
  have whole := shows.unread
  rw [split] at whole
  obtain ⟨head, tail⟩ := slice_eq_append whole
  have behind : slice c.readBuf (r.position + line.length + 2) rest.length = rest := by
    have two : slice c.readBuf (r.position + line.length) ([13, 10] ++ rest).length =
        [13, 10] ++ rest := tail
    exact (slice_eq_append two).2
  have start : r.start + r.held.length = r.position := rfl
  -- The two stores of parse_line change the pair CR LF and nothing else.
  have same : ∀ key < r.position + line.length,
      (cutLine c (c.checkedIdx + line.length)).readBuf key = c.readBuf key := by
    intro key below
    simp only [cutLine, shows.checked]
    rw [store_other 0 (by omega), store_other 0 (by omega)]
  have after : ∀ key, r.position + line.length + 2 ≤ key →
      (cutLine c (c.checkedIdx + line.length)).readBuf key = c.readBuf key := by
    intro key below
    simp only [cutLine, shows.checked]
    rw [store_other 0 (by omega), store_other 0 (by omega)]
  have nul : ∀ key, r.position + line.length ≤ key → key < r.position + line.length + 2 →
      (cutLine c (c.checkedIdx + line.length)).readBuf key = 0 := by
    intro key lower upper
    simp only [cutLine, shows.checked]
    by_cases second : key = r.position + line.length + 1
    · rw [second, store_same]
    · have first : key = r.position + line.length := by omega
      rw [first, store_other 0 (by omega), store_same]
  have moved : (cutLine c (c.checkedIdx + line.length)).checkedIdx =
      r.position + line.length + 2 := by
    simp only [cutLine, shows.checked]
  constructor
  · constructor
    · exact shows.phase
    · exact moved
    · exact moved
    · show c.readIdx = r.position + (line.length + 2) + 0 + rest.length
      rw [shows.arrived, length]
      omega
    · exact shows.room
    · rfl
    · rw [← behind]
      simp only [Reader.turn, Reader.position, List.length_nil, Nat.add_zero, slice_length]
      exact slice_congr fun key lower _ => after key (by omega)
    -- No CR is left in front of the scanner: the one of the pair is now a NUL.
    · intro key below
      simp only [Reader.turn, Reader.position, List.length_nil, Nat.add_zero] at below
      show (cutLine c (c.checkedIdx + line.length)).readBuf key ≠ 13
      by_cases early : key < r.position
      · rw [same key (by omega)]
        exact shows.passed key early
      · by_cases inside : key < r.position + line.length
        · rw [same key inside]
          intro cr
          exact plain.1 (head ▸ mem_slice.mpr ⟨key, by omega, inside, cr⟩)
        · rw [nul key (by omega) (by omega)]
          decide
    · have before : ∀ key < r.start, c.readBuf key =
          (cutLine c (c.checkedIdx + line.length)).readBuf key :=
        fun key below => (same key (by omega)).symm
      exact shows.url.congr before (show r.start ≤ r.position + (line.length + 2) by omega)
    · exact shows.linger
    · exact shows.length
    · exact shows.fits
  -- The line as a C string: the held bytes and those just passed, up to the NUL of the cut.
  · apply terminated_text
    · rw [← slice_append_eq shows.held (start ▸ head)]
      simp only [slice_length]
      exact slice_congr fun key _ upper => same key (by
        simp only [List.length_append] at upper
        omega)
    · apply nul <;> simp only [List.length_append] <;> omega
    · simp only [List.length_append]
      omega

/-- The next line begun where the scanner stands, with no line end behind it. -/
theorem Shows.startNextLine (shows : Shows c r) :
    Shows (startNextLine c) (r.turn 0 r.unread) :=
  ⟨shows.phase, shows.checked, shows.checked, shows.arrived, shows.room, rfl, shows.unread,
    shows.passed, shows.url.congr (fun _ _ => rfl) (Nat.le_add_right _ _), shows.linger,
    shows.length, shows.fits⟩

theorem Shows.stop (shows : Shows c r) {passed rest : List UInt8}
    (found : scan r.unread = .stopped passed rest) :
    Shows (skip passed.length c) (r.stop passed rest) := by
  obtain ⟨split, plain, _⟩ := scan_stopped_split found
  have whole := shows.unread
  rw [split] at whole
  obtain ⟨head, tail⟩ := slice_eq_append whole
  have length : r.unread.length = passed.length + rest.length := by rw [split, List.length_append]
  have moved : (r.stop passed rest).position = r.position + passed.length := by
    simp only [Reader.stop, Reader.position, List.length_append, Nat.add_assoc]
  constructor
  · exact shows.phase
  · exact shows.start
  · rw [moved, ← shows.checked]
    rfl
  · rw [moved]
    exact shows.arrived.trans (by rw [length]; simp only [Reader.stop]; omega)
  · exact shows.room
  · exact slice_append_eq shows.held head
  · rw [moved]
    exact tail
  · intro key below
    rw [moved] at below
    by_cases early : key < r.position
    · exact shows.passed key early
    · intro cr
      exact plain.1 (head ▸ mem_slice.mpr ⟨key, by omega, below, cr⟩)
  · exact shows.url
  · exact shows.linger
  · exact shows.length
  · exact shows.fits

end Line

section Handlers

theorem Terminated.stringAt_eq {buffer : Memory} {limit offset : Nat} {string : List UInt8}
    (held : Terminated buffer limit offset string) (room : limit ≤ readBufferSize) :
    stringAt buffer offset = string := (held.weaken room).cstr_eq

theorem read_string_in_bounds {buffer : Memory} {limit offset : Nat} {string : List UInt8}
    (held : Terminated buffer limit offset string) (room : limit ≤ readBufferSize) :
    InBounds (readString buffer offset) := by
  intro effect member
  rw [readString, Terminated.stringAt_eq held room] at member
  obtain ⟨count, bound, rfl⟩ := List.mem_map.mp member
  have inside := held.room
  have short := List.mem_range.mp bound
  exact load_in_bounds limit (by omega) room

/-- What the handler of a line that ends below `limit` leaves of the object: it
writes NULs into the line and no others of the fields compared here. -/
structure Kept (limit : Nat) (c d : HttpConn) : Prop where
  readIdx : d.readIdx = c.readIdx
  checkedIdx : d.checkedIdx = c.checkedIdx
  startLine : d.startLine = c.startLine
  behind : ∀ key, limit ≤ key → d.readBuf key = c.readBuf key
  zeros : ∀ key, d.readBuf key = c.readBuf key ∨ d.readBuf key = 0
  response : ResponseSame c d

/-- parse_request_line against its reading on lists. -/
structure RequestLineAgrees (limit : Nat) (c : HttpConn) (parsed : Outcome HttpCode)
    (line : RequestLine) : Prop where
  ret : parsed.ret = if line.accepted then .noRequest else .badRequest
  state : parsed.conn.checkState = if line.accepted then .header else c.checkState
  url : UrlShown parsed.conn.readBuf limit parsed.conn.url line.url
  linger : parsed.conn.linger = c.linger
  length : parsed.conn.contentLength = c.contentLength
  kept : Kept limit c parsed.conn
  log : InBounds parsed.log

theorem store_nul_behind {buffer : Memory} {limit index : Nat} (below : index < limit)
    (key : Nat) (behind : limit ≤ key) : store buffer index 0 key = buffer key :=
  store_other 0 (by omega)

theorem store_nul_zeros {buffer other : Memory} (index key : Nat)
    (before : buffer key = other key ∨ buffer key = 0) :
    store buffer index 0 key = other key ∨ store buffer index 0 key = 0 := by
  by_cases same : key = index
  · rw [same, store_same]
    exact .inr rfl
  · rw [store_other 0 same]
    exact before

theorem first_byte {buffer : Memory} {limit offset : Nat} {string : List UInt8}
    (held : Terminated buffer limit offset string) (byte : UInt8) (visible : byte ≠ 0) :
    buffer offset = byte ↔ string.head? = some byte := by
  cases string with
  | nil =>
      have nul : buffer offset = 0 := held.nul
      simp [nul, visible.symm]
  | cons first rest =>
      have bytes := held.bytes
      rw [List.length_cons, slice_succ] at bytes
      simp [(List.cons.inj bytes).1]

theorem parse_request_line_refines (c : HttpConn) {limit offset : Nat} {line : List UInt8}
    (held : Terminated c.readBuf limit offset line) (room : limit ≤ readBufferSize) :
    RequestLineAgrees limit c (parseRequestLine offset c) (requestLine offset line) := by
  have readLine := read_string_in_bounds held room
  unfold parseRequestLine requestLine
  rw [Terminated.stringAt_eq held room]
  dsimp only
  -- One case for each way out of parse_request_line, in its order.
  cases found : strpbrk line blanks with
  | none =>
      exact ⟨rfl, rfl, rfl, rfl, rfl, ⟨rfl, rfl, rfl, fun _ _ => rfl, fun _ => .inl rfl,
        ⟨rfl, rfl, rfl, rfl, rfl, rfl, rfl, rfl⟩⟩, readLine⟩
  | some first =>
      obtain ⟨inside, -, -⟩ := strpbrk_some found
      have bound := held.room
      -- The store at the blank ends the method and leaves the URL as a C string of its own.
      have cut := held.cut first inside
      have behind := held.behind_cut first inside
      have readMethod := read_string_in_bounds cut room
      have readBehind := read_string_in_bounds behind room
      have cutStore : (Effect.store .readBuf ((offset + first : Nat) : Int) 1).InBounds :=
        store_in_bounds limit (by omega) room
      have zeros : ∀ key, store c.readBuf (offset + first) 0 key = c.readBuf key ∨
          store c.readBuf (offset + first) 0 key = 0 := fun key => store_nul_zeros _ key (.inl rfl)
      have after : ∀ key, limit ≤ key → store c.readBuf (offset + first) 0 key = c.readBuf key :=
        store_nul_behind (by omega)
      dsimp only
      rw [Terminated.stringAt_eq cut room, Terminated.stringAt_eq behind room]
      by_cases get : strcasecmpEq (line.take first) (ascii "GET") = true
      · simp only [get, ↓reduceIte]
        cases more : strpbrk (line.drop (first + 1)) blanks with
        | none =>
            exact ⟨rfl, rfl, ⟨rfl, behind⟩, rfl, rfl, ⟨rfl, rfl, rfl, after, zeros,
              ⟨rfl, rfl, rfl, rfl, rfl, rfl, rfl, rfl⟩⟩, by
              simp only [in_bounds_append, in_bounds_cons, in_bounds_nil, and_self, *]⟩
        | some second =>
            obtain ⟨within, -, -⟩ := strpbrk_some more
            have room' := behind.room
            -- The same at the second blank, for the URL and the version.
            have url := behind.cut second within
            have version := behind.behind_cut second within
            have readUrl := read_string_in_bounds url room
            have readVersion := read_string_in_bounds version room
            have secondStore :
                (Effect.store .readBuf ((offset + first + 1 + second : Nat) : Int) 1).InBounds :=
              store_in_bounds limit (by omega) room
            have zeros : ∀ key, store (store c.readBuf (offset + first) 0)
                (offset + first + 1 + second) 0 key = c.readBuf key ∨ store (store c.readBuf
                (offset + first) 0) (offset + first + 1 + second) 0 key = 0 :=
              fun key => store_nul_zeros _ key (zeros key)
            have after : ∀ key, limit ≤ key → store (store c.readBuf (offset + first) 0)
                (offset + first + 1 + second) 0 key = c.readBuf key :=
              fun key far => (store_nul_behind (by omega) key far).trans (after key far)
            dsimp only
            rw [Terminated.stringAt_eq version room, Terminated.stringAt_eq url room]
            by_cases http11 : strcasecmpEq ((line.drop (first + 1)).drop (second + 1))
                (ascii "HTTP/1.1") = true
            · simp only [http11, ↓reduceIte]
              by_cases absolute : strncasecmpEq ((line.drop (first + 1)).take second)
                  (ascii "http://") 7 = true
              -- The prefix matched, so m_url += 7 stays in the string.
              · have long := strncasecmp_length absolute (by decide)
                have host := url.drop 7 long
                simp only [absolute, ↓reduceIte]
                rw [Terminated.stringAt_eq host room]
                cases last : strchr (((line.drop (first + 1)).take second).drop 7) 47 with
                | none =>
                    exact ⟨rfl, rfl, rfl, rfl, rfl, ⟨rfl, rfl, rfl, after, zeros,
                      ⟨rfl, rfl, rfl, rfl, rfl, rfl, rfl, rfl⟩⟩, by
              simp only [in_bounds_append, in_bounds_cons, in_bounds_nil, and_self, *]⟩
                | some slash =>
                    obtain ⟨slashInside, -⟩ := strchr_some last
                    exact ⟨rfl, rfl, ⟨rfl, host.drop slash slashInside.le⟩, rfl, rfl,
                      ⟨rfl, rfl, rfl, after, zeros,
                        ⟨rfl, rfl, rfl, rfl, rfl, rfl, rfl, rfl⟩⟩, by
              simp only [in_bounds_append, in_bounds_cons, in_bounds_nil, and_self, *]⟩
              · simp only [absolute, Bool.false_eq_true, ↓reduceIte]
                have byte := first_byte url 47 (by decide)
                by_cases slash : ((line.drop (first + 1)).take second).head? = some 47
                · simp only [slash, byte.mpr slash, decide_true, ↓reduceIte]
                  exact ⟨rfl, rfl, ⟨rfl, url⟩, rfl, rfl, ⟨rfl, rfl, rfl, after, zeros,
                    ⟨rfl, rfl, rfl, rfl, rfl, rfl, rfl, rfl⟩⟩, by
              simp only [in_bounds_append, in_bounds_cons, in_bounds_nil, and_self, *]⟩
                · have other : ¬ store (store c.readBuf (offset + first) 0)
                      (offset + first + 1 + second) 0 (offset + first + 1) = 47 :=
                    fun same => slash (byte.mp same)
                  simp only [slash, other, decide_false, ↓reduceIte]
                  exact ⟨rfl, rfl, ⟨rfl, url⟩, rfl, rfl, ⟨rfl, rfl, rfl, after, zeros,
                    ⟨rfl, rfl, rfl, rfl, rfl, rfl, rfl, rfl⟩⟩, by
              simp only [in_bounds_append, in_bounds_cons, in_bounds_nil, and_self, *]⟩
            · simp only [http11, Bool.false_eq_true, ↓reduceIte]
              exact ⟨rfl, rfl, ⟨rfl, url⟩, rfl, rfl, ⟨rfl, rfl, rfl, after, zeros,
                ⟨rfl, rfl, rfl, rfl, rfl, rfl, rfl, rfl⟩⟩, by
              simp only [in_bounds_append, in_bounds_cons, in_bounds_nil, and_self, *]⟩
      · simp only [get, Bool.false_eq_true, ↓reduceIte]
        exact ⟨rfl, rfl, ⟨rfl, behind⟩, rfl, rfl, ⟨rfl, rfl, rfl, after, zeros,
          ⟨rfl, rfl, rfl, rfl, rfl, rfl, rfl, rfl⟩⟩, by
              simp only [in_bounds_append, in_bounds_cons, in_bounds_nil, and_self, *]⟩

end Handlers

section Headers
variable {c : HttpConn} {r : Reader} {limit offset : Nat} {line : List UInt8}

theorem parse_headers_blank (held : Terminated c.readBuf limit offset []) :
    parseHeaders offset c = if c.contentLength ≠ 0 then
      ⟨.noRequest, { c with checkState := .content }, readString c.readBuf offset⟩
    else ⟨.getRequest, c, readString c.readBuf offset⟩ := by
  have nul : c.readBuf offset = 0 := held.nul
  simp only [parseHeaders, nul, ↓reduceIte]

theorem Shows.withLinger (shows : Shows c r) : Shows { c with linger := true } r.withLinger :=
  ⟨shows.phase, shows.start, shows.checked, shows.arrived, shows.room, shows.held, shows.unread,
    shows.passed, shows.url, rfl, shows.length, shows.fits⟩

theorem Shows.withLength (shows : Shows c r) {length : Int} (fits : FitsInt length) :
    Shows { c with contentLength := length } (r.withLength length) :=
  ⟨shows.phase, shows.start, shows.checked, shows.arrived, shows.room, shows.held, shows.unread,
    shows.passed, shows.url, shows.linger, rfl, fits⟩

theorem Shows.withHost (shows : Shows c r) (host : CharPtr) : Shows { c with host := host } r :=
  ⟨shows.phase, shows.start, shows.checked, shows.arrived, shows.room, shows.held, shows.unread,
    shows.passed, shows.url, shows.linger, shows.length, shows.fits⟩

theorem Shows.toPhase (shows : Shows c r) (phase : CheckState) :
    Shows { c with checkState := phase } (r.toPhase phase) :=
  ⟨rfl, shows.start, shows.checked, shows.arrived, shows.room, shows.held, shows.unread,
    shows.passed, shows.url, shows.linger, shows.length, shows.fits⟩

theorem parse_headers_refines (shows : Shows c r) (held : Terminated c.readBuf limit offset line)
    (room : limit ≤ readBufferSize) (nonempty : line ≠ []) :
    (parseHeaders offset c).ret = .noRequest ∧
    Shows (parseHeaders offset c).conn (headerLine line r) ∧
    ResponseSame c (parseHeaders offset c).conn ∧ InBounds (parseHeaders offset c).log := by
  have readLine := read_string_in_bounds held room
  have visible : c.readBuf offset ≠ 0 := by
    cases line with
    | nil => exact absurd rfl nonempty
    | cons first rest =>
        have bytes := held.bytes
        rw [List.length_cons, slice_succ] at bytes
        have same := (List.cons.inj bytes).1
        intro nul
        exact held.free (by rw [← same, nul]; exact List.mem_cons_self)
  unfold parseHeaders headerLine
  rw [Terminated.stringAt_eq held room]
  simp only [visible, ↓reduceIte]
  split_ifs
  · exact ⟨rfl, shows.withLinger, ⟨rfl, rfl, rfl, rfl, rfl, rfl, rfl, rfl⟩, readLine⟩
  · exact ⟨rfl, shows, ResponseSame.refl c, readLine⟩
  · exact ⟨rfl, shows.withLength (toInt_fits _), ⟨rfl, rfl, rfl, rfl, rfl, rfl, rfl, rfl⟩, readLine⟩
  · exact ⟨rfl, shows.withHost _, ⟨rfl, rfl, rfl, rfl, rfl, rfl, rfl, rfl⟩, readLine⟩
  · exact ⟨rfl, shows, ResponseSame.refl c, readLine⟩

end Headers

section Content

/-- The sum does not overflow and the byte that is cleared lies in the buffer. -/
def Look.Safe (look : Look) : Prop :=
  FitsInt (look.length + look.checked) ∧
    (look.passes → 0 ≤ look.line + look.length ∧ look.line + look.length < readBufferSize)

instance (look : Look) : Decidable look.Safe :=
  inferInstanceAs (Decidable (_ ∧ (_ → _ ∧ _)))

/-- The request as the response side sees it. -/
structure Answered (fs : FileSystem) (c : HttpConn) (r : Reader) : Prop where
  url : urlString fs c = (r.url.map Url.string).getD fs.elsewhere
  linger : c.linger = r.linger
  length : c.contentLength = r.contentLength

theorem UrlShown.urlString_eq {fs : FileSystem} {c : HttpConn} {limit : Nat} {url : Option Url}
    (shown : UrlShown c.readBuf limit c.url url) (room : limit ≤ readBufferSize) :
    urlString fs c = (url.map Url.string).getD fs.elsewhere := by
  cases url with
  | none =>
      have null : c.url = .null := shown
      simp [urlString, null]
  | some url =>
      simp only [urlString, shown.1, Option.map_some, Option.getD_some]
      exact Terminated.stringAt_eq shown.2 room

theorem Shows.answered {c : HttpConn} {r : Reader} (fs : FileSystem) (shows : Shows c r) :
    Answered fs c r := by
  have room := shows.room
  have arrived := shows.arrived
  have position : r.position = r.start + r.held.length := rfl
  exact ⟨shows.url.urlString_eq (by omega), shows.linger, shows.length⟩

theorem clear_byte (index : Int) (buffer : Memory) (key : Nat) :
    clearArray (readBufOffset + index) (readBufOffset + index + 1) readBufOffset readBufferSize
      buffer key = if key < readBufferSize ∧ (key : Int) = index then 0 else buffer key := by
  unfold clearArray covers
  congr 1
  simp only [decide_eq_true_eq, eq_iff_iff]
  push_cast
  constructor
  · rintro ⟨below, lower, upper⟩
    exact ⟨below, by omega⟩
  · rintro ⟨below, same⟩
    exact ⟨below, by omega, by omega⟩

/-- A NUL stored anywhere in the buffer ends the URL there, if it falls into it. -/
theorem UrlShown.clear {buffer : Memory} {limit : Nat} {pointer : CharPtr} {url : Option Url}
    (shown : UrlShown buffer limit pointer url) (room : limit ≤ readBufferSize) (index : Int) :
    UrlShown (clearArray (readBufOffset + index) (readBufOffset + index + 1) readBufOffset
      readBufferSize buffer) limit pointer (url.map (Url.cutAt index)) := by
  cases url with
  | none => exact shown
  | some url =>
      refine ⟨?_, ?_⟩
      · rw [shown.1]
        simp only [Url.cutAt]
        split_ifs <;> rfl
      · have held := shown.2
        have bound := held.room
        by_cases from_ : (url.offset : Int) ≤ index
        · obtain ⟨place, rfl⟩ := Int.eq_ofNat_of_zero_le (Int.le_trans (Int.natCast_nonneg _) from_)
          have base : url.offset ≤ place := by omega
          have taken : ((place : Int) - url.offset).toNat = place - url.offset := by omega
          simp only [Url.cutAt, from_, ↓reduceIte, taken]
          by_cases inside : place - url.offset < url.string.length
          · refine (held.cut _ inside).congr fun key _ below => ?_
            rw [clear_byte, Nat.add_sub_cancel' base]
            by_cases same : key = place
            · rw [same, store_same, if_pos ⟨by omega, rfl⟩]
            · rw [store_other 0 same, if_neg (by omega)]
          · rw [List.take_of_length_le (by omega)]
            have short : Terminated buffer (url.offset + url.string.length + 1) url.offset
                url.string := ⟨held.bytes, held.nul, Nat.lt_succ_self _, held.free⟩
            refine (short.congr fun key _ below => ?_).weaken bound
            rw [clear_byte]
            split_ifs with hit
            · have last : key = url.offset + url.string.length := by omega
              rw [last, held.nul]
            · rfl
        · simp only [Url.cutAt, from_, ↓reduceIte]
          refine held.congr fun key lower _ => ?_
          rw [clear_byte, if_neg (by omega)]

theorem parse_content_refines {c : HttpConn} {r : Reader} (shows : Shows c r) {line : Nat}
    (before : line ≤ r.position) :
    (InBounds (parseContent line c).log ↔ (lookAt line r).Safe) ∧
    if (lookAt line r).passes then
      (parseContent line c).ret = .getRequest ∧
      ResponseSame c (parseContent line c).conn ∧
      ∀ fs, Answered fs (parseContent line c).conn
        (r.withUrl (r.url.map (Url.cutAt (line + r.contentLength))))
    else (parseContent line c).ret = .noRequest ∧ (parseContent line c).conn = c := by
  have room := shows.room
  have arrived := shows.arrived
  have fits := shows.fits
  have position : r.position = r.start + r.held.length := rfl
  unfold FitsInt intMin intMax at fits
  unfold readBufferSize at room
  -- Both compare m_content_length + m_checked_idx with m_read_idx, as int.
  by_cases passes : (lookAt line r).passes
  · have enough : toInt (c.contentLength + c.checkedIdx) ≤ c.readIdx := by
      simpa [Look.passes, lookAt, shows.length, shows.checked, shows.arrived] using passes
    rw [parse_content_enough line enough, if_pos passes]
    refine ⟨?_, rfl, ?_, ?_⟩
    · have safe : (lookAt line r).Safe ↔ FitsInt (r.contentLength + r.position) ∧
          0 ≤ line + r.contentLength ∧ line + r.contentLength < readBufferSize :=
        ⟨fun all => ⟨all.1, all.2 passes⟩, fun all => ⟨all.1, fun _ => all.2⟩⟩
      simp only [safe, in_bounds_cons, in_bounds_nil, and_true, Effect.InBounds, shows.length,
        shows.checked, MemberArray.size, Nat.cast_one, Int.add_one_le_iff]
    all_goals
      -- The sum is at most m_read_idx, so the store falls before m_checked_idx, or behind
      -- the object where the sum has wrapped.
      have outside : (objectSize : Int) ≤ readBufOffset + (line + c.contentLength) ∨
          readBufOffset + (line + c.contentLength) + 1 ≤ checkedIdxOffset := by
        have length := shows.length
        have checked := shows.checked
        unfold toInt at enough
        simp only [objectSize, readBufOffset, checkedIdxOffset]
        omega
      rw [bzero_before_checked c outside]
    · exact ⟨rfl, rfl, rfl, rfl, rfl, rfl, rfl, rfl⟩
    · intro fs
      have limit : r.start ≤ readBufferSize := by unfold readBufferSize; omega
      have shown := shows.url.clear limit (line + c.contentLength)
      refine ⟨?_, shows.linger, shows.length⟩
      rw [← shows.length]
      exact UrlShown.urlString_eq shown limit
  · have short : ¬ toInt (c.contentLength + c.checkedIdx) ≤ c.readIdx := by
      simpa [Look.passes, lookAt, shows.length, shows.checked, shows.arrived] using passes
    rw [parse_content_short line short, if_neg passes]
    have safe : (lookAt line r).Safe ↔ FitsInt (r.contentLength + r.position) :=
      ⟨fun all => all.1, fun fits => ⟨fits, fun passed => absurd passed passes⟩⟩
    refine ⟨?_, rfl, rfl⟩
    simp only [safe, in_bounds_cons, in_bounds_nil, and_true, Effect.InBounds, shows.length,
      shows.checked]

end Content

section Rounds
variable {fs : FileSystem}

theorem Shows.parse_line {c : HttpConn} {r : Reader} (shows : Shows c r) :
    InBounds (parseLine c).log ∧
    match scan r.unread with
    | .line line _ => (parseLine c).ret = .lineOk ∧
        (parseLine c).conn = cutLine c (c.checkedIdx + line.length)
    | .stopped passed _ => (parseLine c).ret ≠ .lineOk ∧
        (parseLine c).conn = skip passed.length c := by
  have checked := shows.checked
  have arrived := shows.arrived
  have scanned := parse_line_from_scan (c.readIdx - c.checkedIdx) c rfl shows.room
    (by rw [checked]; exact shows.passed)
  have bytes : slice c.readBuf c.checkedIdx (c.readIdx - c.checkedIdx) = r.unread := by
    have count : c.readIdx - c.checkedIdx = r.unread.length := by omega
    rw [count, checked, shows.unread]
  rw [bytes] at scanned
  exact scanned

theorem Shows.requestLine {c d : HttpConn} {r : Reader} {line : RequestLine}
    {parsed : Outcome HttpCode}
    (shows : Shows c r) (agrees : RequestLineAgrees r.start c parsed line)
    (same : parsed.conn = d) (empty : r.held = []) :
    Shows d ((r.withUrl line.url).toPhase (if line.accepted then .header else r.phase)) := by
  subst same
  have kept := agrees.kept
  have position : r.position = r.start := by simp [Reader.position, empty]
  constructor
  · rw [agrees.state, shows.phase]
    rfl
  · exact kept.startLine.trans shows.start
  · exact kept.checkedIdx.trans shows.checked
  · exact kept.readIdx.trans shows.arrived
  · rw [kept.readIdx]
    exact shows.room
  · show slice _ r.start r.held.length = r.held
    rw [empty]
    rfl
  · show slice _ r.position r.unread.length = r.unread
    conv_rhs => rw [← shows.unread]
    exact slice_congr fun key lower _ => kept.behind key (by omega)
  · intro key below
    rcases kept.zeros key with before | zero
    · rw [before]
      exact shows.passed key below
    · rw [zero]
      decide
  · exact agrees.url
  · exact agrees.linger.trans shows.linger
  · exact agrees.length.trans shows.length
  · exact shows.fits

/-- The value of process_read against the reading of the stream. -/
structure Agrees (fs : FileSystem) (c : HttpConn) (value : Outcome HttpCode) (reading : Reading) :
    Prop where
  log : InBounds value.log ↔ ∀ look ∈ reading.looks, look.Safe
  result : match reading.verdict with
    | .wait => value.ret = .noRequest ∧ Shows value.conn reading.reader ∧ ResponseSame c value.conn
    | .refuse => value.ret = .badRequest ∧ Answered fs value.conn reading.reader ∧
        ResponseSame c value.conn
    | .serve => ∃ d, value.ret = (doRequest fs d).ret ∧ value.conn = (doRequest fs d).conn ∧
        Answered fs d reading.reader ∧ ResponseSame c d

theorem Agrees.trans {b c : HttpConn} {value : Outcome HttpCode} {reading : Reading}
    (agrees : Agrees fs c value reading) (same : ResponseSame b c) : Agrees fs b value reading := by
  refine ⟨agrees.log, ?_⟩
  have result := agrees.result
  cases verdict : reading.verdict with
  | wait =>
      rw [verdict] at result
      exact ⟨result.1, result.2.1, same.trans result.2.2⟩
  | refuse =>
      rw [verdict] at result
      exact ⟨result.1, result.2.1, same.trans result.2.2⟩
  | serve =>
      rw [verdict] at result
      obtain ⟨d, ret, conn, answered, response⟩ := result
      exact ⟨d, ret, conn, answered, same.trans response⟩

theorem read_round_line {loop : ReadLoop} (complete : (nextLine loop).ret = .lineOk) :
    readRound fs loop = logged (loop.log ++ (nextLine loop).log)
      (handleLine fs (nextLine loop).conn.startLine (startNextLine (nextLine loop).conn)) := by
  simp only [readRound, complete, ↓reduceIte]

theorem read_round_stop {loop : ReadLoop} (stopped : (nextLine loop).ret ≠ .lineOk) :
    readRound fs loop =
      .inr ⟨.noRequest, (nextLine loop).conn, loop.log ++ (nextLine loop).log⟩ := by
  simp only [readRound, stopped, ↓reduceIte]

theorem handle_request_line {start : Nat} {c : HttpConn} (state : c.checkState = .requestline) :
    handleLine fs start c = if (parseRequestLine start c).ret = .badRequest
      then .inr (parseRequestLine start c)
      else .inl ⟨.lineOk, (parseRequestLine start c).conn, (parseRequestLine start c).log⟩ := by
  simp only [handleLine, state]

theorem handle_header {start : Nat} {c : HttpConn} (state : c.checkState = .header) :
    handleLine fs start c = if (parseHeaders start c).ret = .badRequest
      then .inr (parseHeaders start c)
      else if (parseHeaders start c).ret = .getRequest
      then .inr ((parseHeaders start c).andThen (doRequest fs))
      else .inl ⟨.lineOk, (parseHeaders start c).conn, (parseHeaders start c).log⟩ := by
  simp only [handleLine, state]

theorem handle_content {start : Nat} {c : HttpConn} (state : c.checkState = .content) :
    handleLine fs start c = if (parseContent start c).ret = .getRequest
      then .inr ((parseContent start c).andThen (doRequest fs))
      else .inl ⟨.lineOpen, (parseContent start c).conn, (parseContent start c).log⟩ := by
  simp only [handleLine, state]

theorem do_request_in_bounds (c : HttpConn) : InBounds (doRequest fs c).log := by
  have whole : (Effect.store .realFile 0 (docRoot.length + 1)).InBounds := by decide
  have url : (Effect.store .realFile docRoot.length
      (filenameLen - docRoot.length - 1)).InBounds := by
    decide
  unfold doRequest
  dsimp only
  split
  · simp only [in_bounds_cons, in_bounds_nil, and_true]
    exact ⟨whole, url⟩
  · split_ifs <;>
      simp only [in_bounds_append, in_bounds_cons, in_bounds_nil, and_true] <;>
      first | exact ⟨whole, url⟩ | exact ⟨⟨whole, url⟩, trivial⟩

/-- A request handed to do_request. -/
theorem agrees_serve {c d : HttpConn} {r : Reader} {log first : List Effect} {ret : HttpCode}
    {looks : List Look} (answered : Answered fs d r) (same : ResponseSame c d)
    (safe : InBounds (first ++ log) ↔ ∀ look ∈ looks, look.Safe) :
    Agrees fs c ⟨(Outcome.andThen ⟨ret, d, log⟩ (doRequest fs)).ret,
      (Outcome.andThen ⟨ret, d, log⟩ (doRequest fs)).conn,
      first ++ (Outcome.andThen ⟨ret, d, log⟩ (doRequest fs)).log⟩ ⟨.serve, r, looks⟩ := by
  refine ⟨?_, d, rfl, rfl, answered, same⟩
  show InBounds (first ++ (log ++ (doRequest fs d).log)) ↔ _
  rw [← List.append_assoc, in_bounds_append]
  exact (and_iff_left (do_request_in_bounds d)).trans safe

variable (fs) in
/-- One round in the head of a request. -/
theorem head_round_refines (loop : ReadLoop) (r : Reader) (shows : Shows loop.conn r)
    (head : r.phase ≠ .content) (safe : InBounds loop.log) :
    match readRound fs loop, headRound r with
    | .inl next, .inl after => Shows next.conn after ∧ after.phase ≠ .content ∧
        InBounds next.log ∧ ResponseSame loop.conn next.conn
    | .inl next, .inr (.complete after) => after.contentLength ≠ 0 ∧ next.lineStatus = .lineOk ∧
        Shows next.conn (after.toPhase .content) ∧ InBounds next.log ∧
        ResponseSame loop.conn next.conn
    | .inr value, .inr found =>
        Agrees fs loop.conn value (afterHead found)
    | _, _ => False := by
  -- In the head the loop condition always calls parse_line.
  have scans : nextLine loop = parseLine loop.conn := by
    unfold nextLine
    rw [if_neg fun both => head (shows.phase ▸ both.1)]
  obtain ⟨lineSafe, scanned⟩ := shows.parse_line
  cases found : scan r.unread with
  -- No line end: the round is over, and process_read waits.
  | stopped passed rest =>
      rw [found] at scanned
      have round : headRound r = .inr (.waiting (r.stop passed rest)) := by
        simp only [headRound, found]
      rw [read_round_stop (by rw [scans]; exact scanned.1), round]
      refine ⟨?_, rfl, ?_, ?_⟩
      · rw [scans]
        simpa [afterHead] using ⟨safe, lineSafe⟩
      · rw [scans, scanned.2]
        exact shows.stop found
      · rw [scans, scanned.2]
        exact ⟨rfl, rfl, rfl, rfl, rfl, rfl, rfl, rfl⟩
  | line line rest =>
      rw [found] at scanned
      obtain ⟨showsNext, held⟩ := shows.nextLine found
      have round : headRound r =
          headLine (text (r.held ++ line)) r (r.turn (line.length + 2) rest) := by
        simp only [headRound, found]
      rw [read_round_line (by rw [scans]; exact scanned.1), round, scans, scanned.2]
      have start : (cutLine loop.conn (loop.conn.checkedIdx + line.length)).startLine = r.start :=
        shows.start
      rw [start]
      -- The round goes on from the state in which parse_line has cut the line.
      generalize opened : startNextLine (cutLine loop.conn (loop.conn.checkedIdx + line.length)) = d
        at showsNext
      have same : ResponseSame loop.conn d := by
        rw [← opened]
        exact ⟨rfl, rfl, rfl, rfl, rfl, rfl, rfl, rfl⟩
      have heldNext : Terminated d.readBuf (r.turn (line.length + 2) rest).start r.start
          (text (r.held ++ line)) := by
        rw [← opened]
        exact held
      have empty : (r.turn (line.length + 2) rest).held = [] := rfl
      have phase : (r.turn (line.length + 2) rest).phase = r.phase := rfl
      have room : (r.turn (line.length + 2) rest).start ≤ readBufferSize := by
        have bound := showsNext.room
        have arrived := showsNext.arrived
        have position : (r.turn (line.length + 2) rest).position =
          (r.turn (line.length + 2) rest).start := rfl
        omega
      have before : InBounds (loop.log ++ (parseLine loop.conn).log) :=
        in_bounds_append.mpr ⟨safe, lineSafe⟩
      generalize r.turn (line.length + 2) rest = next at *
      -- CHECK_STATE_REQUESTLINE against CHECK_STATE_HEADER.
      by_cases state : r.phase = .requestline
      · have parsed := parse_request_line_refines d heldNext room
        have response := same.trans parsed.kept.response
        rw [handle_request_line (by rw [showsNext.phase, phase, state]), headLine, if_pos state,
          parsed.ret]
        generalize requestLine r.start (text (r.held ++ line)) = request at parsed ⊢
        by_cases accepted : request.accepted = true
        · simp only [accepted, ↓reduceIte, reduceCtorEq, logged]
          have shown := showsNext.requestLine parsed rfl empty
          rw [if_pos accepted] at shown
          exact ⟨shown, by simp [Reader.toPhase], in_bounds_append.mpr
            ⟨before, parsed.log⟩, response⟩
        · simp only [accepted, Bool.false_eq_true, ↓reduceIte, logged]
          refine ⟨?_, ?_, ⟨parsed.url.urlString_eq room, parsed.linger.trans showsNext.linger,
            parsed.length.trans showsNext.length⟩, response⟩
          · simpa [afterHead] using ⟨safe, lineSafe, parsed.log⟩
          · rw [parsed.ret, if_neg accepted]
      · have header : d.checkState = .header := by
          rw [showsNext.phase, phase]
          cases state' : r.phase with
          | requestline => exact absurd state' state
          | header => rfl
          | content => exact absurd state' head
        rw [handle_header header, headLine, if_neg state]
        by_cases blank : text (r.held ++ line) = []
        · rw [blank] at heldNext
          have readLine := read_string_in_bounds heldNext room
          rw [parse_headers_blank heldNext, if_pos blank]
          -- An empty line: do_request, or the body when a length was declared.
          by_cases length : d.contentLength = 0
          · simp only [length, ne_eq, not_true_eq_false, ↓reduceIte, reduceCtorEq, logged,
              afterHead, showsNext.length ▸ length]
            exact agrees_serve (showsNext.answered fs) same
              (by simpa using ⟨safe, lineSafe, readLine⟩)
          · simp only [length, ne_eq, not_false_eq_true, ↓reduceIte, reduceCtorEq, logged]
            exact ⟨showsNext.length ▸ length, trivial, showsNext.toPhase .content,
              in_bounds_append.mpr ⟨before, readLine⟩,
              same.trans ⟨rfl, rfl, rfl, rfl, rfl, rfl, rfl, rfl⟩⟩
        · obtain ⟨ret, shown, response, log⟩ :=
            parse_headers_refines showsNext heldNext room blank
          rw [if_neg blank, ret]
          simp only [↓reduceIte, reduceCtorEq, logged]
          refine ⟨shown, ?_, in_bounds_append.mpr ⟨before, log⟩, same.trans response⟩
          rw [header_line_phase, phase]
          exact head

/-- One round in the body against its reading. -/
def BodyAgrees (fs : FileSystem) (c : HttpConn) :
    ReadLoop ⊕ Outcome HttpCode → BodyLoop ⊕ Reading → Prop
  | .inl next, .inl found => Shows next.conn found.reader ∧ found.reader.phase = .content ∧
      next.lineStatus = .lineOpen ∧ found.ready = false ∧
      (InBounds next.log ↔ ∀ look ∈ found.looks, look.Safe) ∧ ResponseSame c next.conn
  | .inr value, .inr reading => Agrees fs c value reading
  | _, _ => False

/-- One look of parse_content, on the way round or out of the loop. -/
theorem body_look_refines {b c : HttpConn} {next : Reader} {line : Nat} {log : List Effect}
    {looks : List Look} (same : ResponseSame b c) (shows : Shows c next)
    (body : next.phase = .content) (before : line ≤ next.position)
    (safe : InBounds log ↔ ∀ look ∈ looks, look.Safe) :
    BodyAgrees fs b (logged log (handleLine fs line c)) (bodyLook line next looks) := by
  obtain ⟨log', parsed⟩ := parse_content_refines shows before
  have all : InBounds (log ++ (parseContent line c).log) ↔
      ∀ look ∈ looks ++ [lookAt line next], look.Safe := by
    simp only [in_bounds_append, List.mem_append, List.mem_singleton, or_imp, forall_and,
      forall_eq, safe, log']
  rw [handle_content (shows.phase.trans body), bodyLook]
  by_cases passes : (lookAt line next).passes
  · rw [if_pos passes] at parsed
    simp only [passes, parsed.1, ↓reduceIte, logged]
    exact agrees_serve (parsed.2.2 fs) (same.trans parsed.2.1) all
  · rw [if_neg passes] at parsed
    simp only [passes, parsed.1, parsed.2, ↓reduceIte, reduceCtorEq, logged]
    exact ⟨shows, body, rfl, rfl, all, same⟩

variable (fs) in
theorem body_round_refines (loop : ReadLoop) (r : Reader) (looks : List Look)
    (shows : Shows loop.conn r) (body : r.phase = .content)
    (safe : InBounds loop.log ↔ ∀ look ∈ looks, look.Safe) :
    BodyAgrees fs loop.conn (readRound fs loop)
      (bodyRound ⟨loop.lineStatus = .lineOk, r, looks⟩) := by
  -- In the body parse_line is called unless line_status is still LINE_OK.
  by_cases ready : loop.lineStatus = .lineOk
  · have skips : nextLine loop = ⟨.lineOk, loop.conn, []⟩ := by
      unfold nextLine
      rw [if_pos ⟨shows.phase.trans body, ready⟩]
    have turned := shows.startNextLine
    rw [read_round_line (by rw [skips]), skips]
    have round : bodyRound ⟨loop.lineStatus = .lineOk, r, looks⟩ =
        bodyLook r.start (r.turn 0 r.unread) looks := by
      simp only [bodyRound, ready, decide_true, ↓reduceIte]
    rw [round, List.append_nil, shows.start]
    exact body_look_refines ⟨rfl, rfl, rfl, rfl, rfl, rfl, rfl, rfl⟩ turned body
      (Nat.le_add_right _ _) safe
  · have scans : nextLine loop = parseLine loop.conn := by
      unfold nextLine
      rw [if_neg fun both => ready both.2]
    obtain ⟨lineSafe, scanned⟩ := shows.parse_line
    have logs : InBounds (loop.log ++ (parseLine loop.conn).log) ↔ ∀ look ∈ looks, look.Safe := by
      rw [in_bounds_append, and_iff_left lineSafe]
      exact safe
    cases found : scan r.unread with
    | stopped passed rest =>
        rw [found] at scanned
        have round : bodyRound ⟨loop.lineStatus = .lineOk, r, looks⟩ =
            .inr ⟨.wait, r.stop passed rest, looks⟩ := by
          simp only [bodyRound, ready, decide_false, Bool.false_eq_true, ↓reduceIte, found]
        rw [read_round_stop (by rw [scans]; exact scanned.1), round, scans, scanned.2]
        exact ⟨logs, rfl, shows.stop found, ⟨rfl, rfl, rfl, rfl, rfl, rfl, rfl, rfl⟩⟩
    | line line rest =>
        rw [found] at scanned
        obtain ⟨showsNext, -⟩ := shows.nextLine found
        have round : bodyRound ⟨loop.lineStatus = .lineOk, r, looks⟩ =
            bodyLook r.start (r.turn (line.length + 2) rest) looks := by
          simp only [bodyRound, ready, decide_false, Bool.false_eq_true, ↓reduceIte, found]
        rw [read_round_line (by rw [scans]; exact scanned.1), round, scans, scanned.2]
        have start : (cutLine loop.conn (loop.conn.checkedIdx + line.length)).startLine = r.start :=
          shows.start
        have later : r.start ≤ (r.turn (line.length + 2) rest).position := by
          simp only [Reader.turn, Reader.position]
          omega
        rw [start]
        exact body_look_refines ⟨rfl, rfl, rfl, rfl, rfl, rfl, rfl, rfl⟩ showsNext body later logs

/-- The reading from the middle of a process_read. -/
def readingFrom (status : LineStatus) (looks : List Look) (r : Reader) : Reading :=
  if r.phase = .content then
    Loop.run bodyRound bodyMeasure body_round_decreases ⟨status = .lineOk, r, looks⟩
  else afterHead (readHead r)

/-- Where the comparison fails, its sum was right and nothing is stored. -/
theorem look_fails_safe {c : HttpConn} {r : Reader} (shows : Shows c r) {line : Nat}
    (fails : ¬ (lookAt line r).passes) : (lookAt line r).Safe := by
  refine ⟨?_, fun passes => absurd passes fails⟩
  have fits := shows.fits
  have room := shows.room
  have arrived := shows.arrived
  simp only [Look.passes, lookAt] at fails ⊢
  unfold FitsInt intMin intMax at *
  unfold readBufferSize at room
  unfold toInt at fails
  omega

theorem body_round_again {loop after : BodyLoop} (again : bodyRound loop = .inl after) :
    ∃ line, ¬ (lookAt line after.reader).passes ∧
      after.looks = loop.looks ++ [lookAt line after.reader] := by
  unfold bodyRound at again
  dsimp only at again
  split at again
  · obtain ⟨fails, rfl⟩ := body_look_again again
    exact ⟨_, fails, rfl⟩
  · split at again
    · obtain ⟨fails, rfl⟩ := body_look_again again
      exact ⟨_, fails, rfl⟩
    · cases again

/-- The reading behind a round that goes on. The reader has no round of its own for
the turn from head to body. -/
structure GoesOn (loop next : ReadLoop) (looks : List Look) (r after : Reader) (more : List Look) :
    Prop where
  shows : Shows next.conn after
  head : after.phase ≠ .content → looks ++ more = []
  safe : InBounds next.log ↔ ∀ look ∈ looks ++ more, look.Safe
  fails : ∀ look ∈ more, ¬ look.passes ∧ look.Safe
  same : ResponseSame loop.conn next.conn
  reading : readingFrom loop.lineStatus looks r = readingFrom next.lineStatus (looks ++ more) after

theorem read_round_goes {loop next : ReadLoop} {looks : List Look} {r : Reader}
    (round : readRound fs loop = .inl next) (shows : Shows loop.conn r)
    (head : r.phase ≠ .content → looks = [])
    (safe : InBounds loop.log ↔ ∀ look ∈ looks, look.Safe) :
    ∃ after more, GoesOn loop next looks r after more := by
  by_cases body : r.phase = .content
  · have step := body_round_refines fs loop r looks shows body safe
    rw [round] at step
    cases found : bodyRound ⟨loop.lineStatus = .lineOk, r, looks⟩ with
    | inl after =>
        rw [found] at step
        obtain ⟨shown, content, status, ready, logs, response⟩ := step
        obtain ⟨line, failed, more⟩ := body_round_again found
        refine ⟨after.reader, [lookAt line after.reader], shown, fun no => absurd content no,
          more ▸ logs, ?_, response, ?_⟩
        · exact List.forall_mem_singleton.mpr ⟨failed, look_fails_safe shown failed⟩
        · rw [readingFrom, if_pos body, Loop.run_again found, readingFrom, if_pos content, status]
          -- A round in the body that goes on has set line_status to LINE_OPEN.
          congr 1
          cases after
          simp_all
    | inr reading => rw [found] at step; exact step.elim
  · have none := head body
    subst none
    have step := head_round_refines fs loop r shows body (safe.mpr (by simp))
    rw [round] at step
    cases found : headRound r with
    | inl after =>
        rw [found] at step
        obtain ⟨shown, content, logs, response⟩ := step
        refine ⟨after, [], shown, fun _ => rfl, by simpa using logs, by simp, response, ?_⟩
        rw [readingFrom, if_neg body, readingFrom, if_neg content, read_head_again found]
    | inr reached =>
        rw [found] at step
        cases reached with
        | complete after =>
            obtain ⟨length, status, shown, logs, response⟩ := step
            have content : (after.toPhase .content).phase = .content := rfl
            refine ⟨after.toPhase .content, [], shown, fun _ => rfl, by simpa using logs, by simp,
              response, ?_⟩
            rw [readingFrom, if_neg body, read_head_return found, afterHead, if_neg length,
              readingFrom, if_pos content, status]
            rfl
        | waiting after => exact step.elim
        | refused after => exact step.elim

/-- process_read reads the stream as the reader does. -/
theorem process_read_refines (c : HttpConn) (r : Reader) (shows : Shows c r) :
    Agrees fs c (processRead fs c) (readRequest r) := by
  -- Induction on the rounds of the main loop.
  refine Loop.run_induction (motive := fun (loop : ReadLoop) (value : Outcome HttpCode) =>
    ∀ r looks, Shows loop.conn r → (r.phase ≠ .content → looks = []) →
      (InBounds loop.log ↔ ∀ look ∈ looks, look.Safe) →
      Agrees fs loop.conn value (readingFrom loop.lineStatus looks r)) ?_ ?_
    (⟨.lineOk, c, []⟩ : ReadLoop) r [] shows (fun _ => rfl) (by simp)
  · intro loop next value round ih r looks shows head safe
    obtain ⟨after, more, goes⟩ := read_round_goes round shows head safe
    rw [goes.reading]
    exact (ih after (looks ++ more) goes.shows goes.head goes.safe).trans goes.same
  · intro loop value round r looks shows head safe
    by_cases body : r.phase = .content
    · have step := body_round_refines fs loop r looks shows body safe
      rw [round] at step
      rw [readingFrom, if_pos body]
      cases found : bodyRound ⟨loop.lineStatus = .lineOk, r, looks⟩ with
      | inl after => rw [found] at step; exact step.elim
      | inr reading =>
          rw [found] at step
          rw [Loop.run_return found]
          exact step
    · have none := head body
      subst none
      have step := head_round_refines fs loop r shows body (safe.mpr (by simp))
      rw [round] at step
      rw [readingFrom, if_neg body]
      cases found : headRound r with
      | inl after => rw [found] at step; exact step.elim
      | inr reached =>
          rw [found] at step
          rw [read_head_return found]
          cases reached <;> exact step

end Rounds

section Runs
variable {fs : FileSystem}

/-- The reads of one request: bytes appended and process_read called, until it
returns something other than NO_REQUEST. -/
def receive (fs : FileSystem) : HttpConn → List (List UInt8) → Outcome HttpCode
  | c, [] => ⟨.noRequest, c, []⟩
  | c, chunk :: rest =>
      let parsed := processRead fs (appendRead chunk c)
      if parsed.ret = .noRequest then parsed.andThen fun conn => receive fs conn rest else parsed

theorem shows_init (c : HttpConn) : Shows (init c).conn Reader.fresh := by
  rw [init_conn]
  constructor
  all_goals first
    | rfl
    | exact Nat.zero_le _
    | (intro key below; exact absurd below (Nat.not_lt_zero _))
    | decide

theorem Shows.feed {c : HttpConn} {r : Reader} (shows : Shows c r) (chunk : List UInt8)
    (room : c.readIdx + chunk.length ≤ readBufferSize) :
    Shows (appendRead chunk c) (r.feed chunk) := by
  have arrived := shows.arrived
  have position : r.position = r.start + r.held.length := rfl
  have before : ∀ key < c.readIdx, (appendRead chunk c).readBuf key = c.readBuf key :=
    fun key below => store_list_before chunk below
  constructor
  · exact shows.phase
  · exact shows.start
  · exact shows.checked
  · show c.readIdx + chunk.length = r.position + (r.unread ++ chunk).length
    rw [List.length_append]
    omega
  · exact room
  · show slice (appendRead chunk c).readBuf r.start r.held.length = r.held
    conv_rhs => rw [← shows.held]
    exact slice_congr fun key _ upper => before key (by omega)
  · apply slice_append_eq
    · conv_rhs => rw [← shows.unread]
      exact slice_congr fun key _ upper => before key (by
        have same : (r.feed chunk).position = r.position := rfl
        omega)
    · show slice (appendRead chunk c).readBuf (r.position + r.unread.length) chunk.length = chunk
      rw [← arrived]
      exact slice_store_list chunk
  · intro key below
    have same : (r.feed chunk).position = r.position := rfl
    rw [before key (by omega)]
    exact shows.passed key (by omega)
  · exact shows.url.congr (fun key below => (before key (by omega)).symm) (Nat.le_refl _)
  · exact shows.linger
  · exact shows.length
  · exact shows.fits

/-- The first bytes behind init(). -/
theorem init_shows_feed (c : HttpConn) {bytes : List UInt8}
    (room : bytes.length ≤ readBufferSize) :
    Shows (appendRead bytes (init c).conn) (Reader.fresh.feed bytes) := by
  have fresh : (init c).conn.readIdx = 0 := (shows_init c).arrived
  exact (shows_init c).feed bytes (by omega)

theorem do_request_answers (c : HttpConn) : (doRequest fs c).ret ≠ .noRequest := by
  unfold doRequest
  dsimp only
  split
  · simp
  · split_ifs <;> simp

end Runs

end StudyWebServer
