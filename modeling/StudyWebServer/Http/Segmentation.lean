import StudyWebServer.Http.BodyReads

/-!
One request arriving in pieces and arriving at once. The head does not care. The
body does: after a read that leaves it incomplete, parse_line runs over its
bytes and moves m_checked_idx, from where the next read counts m_content_length
again.
-/

namespace StudyWebServer

open ByteMemory CString MachineInt CrlfLines

/-- The length of the head and the declared length of the body, once the head of
the stream is complete. -/
def declared (stream : List UInt8) : Option (Nat × Int) :=
  match readHead (Reader.fresh.feed stream) with
  | .complete h => some (h.position, h.contentLength)
  | .waiting _ | .refused _ => none

/-- The URL of a request that is served: a negative length cuts a NUL into it. -/
def servedUrl (h : Reader) : Option Url :=
  if h.contentLength < 0 then h.url.map (Url.cutAt (h.position + h.contentLength)) else h.url

/-- The reads of a request with a complete head. -/
structure RequestReads (h : Reader) (chunks : List (List UInt8)) (reading : Reading) : Prop where
  served : reading.verdict = .serve ↔
    h.contentLength = 0 ∨ BodyTaken h.position h.contentLength chunks
  waited : reading.verdict ≠ .serve → reading.verdict = .wait ∧ reading.reader.url = h.url
  linger : reading.reader.linger = h.linger
  length : reading.reader.contentLength = h.contentLength
  url : reading.verdict = .serve → reading.reader.url = servedUrl h

/-- A URL ends before the line that stands behind it. -/
def UrlBehind (r : Reader) : Prop :=
  ∀ url, r.url = some url → url.offset + url.string.length ≤ r.start

theorem request_line_url {offset : Nat} {line : List UInt8} {url : Url}
    (found : (requestLine offset line).url = some url) :
    url.offset + url.string.length ≤ offset + line.length := by
  unfold requestLine at found
  cases first : strpbrk line blanks with
  | none => simp [first] at found
  | some place =>
      obtain ⟨inside, -, -⟩ := strpbrk_some first
      simp only [first] at found
      split_ifs at found
      · cases second : strpbrk (line.drop (place + 1)) blanks with
        | none =>
            simp only [second, Option.some.injEq] at found
            subst found
            simp only [List.length_drop]
            omega
        | some next =>
            obtain ⟨within, -, -⟩ := strpbrk_some second
            simp only [second] at found
            split_ifs at found
            · cases last : strchr (((line.drop (place + 1)).take next).drop 7) 47 with
              | none => simp [last] at found
              | some slash =>
                  obtain ⟨slashInside, -⟩ := strchr_some last
                  simp only [last, Option.some.injEq] at found
                  subst found
                  simp only [List.length_drop, List.length_take] at slashInside within ⊢
                  omega
            all_goals
              simp only [Option.some.injEq] at found
              subst found
              simp only [List.length_take, List.length_drop] at within ⊢
              omega
      · simp only [Option.some.injEq] at found
        subst found
        simp only [List.length_drop]
        omega

theorem text_length_le (bytes : List UInt8) : (text bytes).length ≤ bytes.length :=
  (text_initial bytes).length_le

@[simp] theorem header_line_url (line : List UInt8) (r : Reader) :
    (headerLine line r).url = r.url := by
  unfold headerLine
  repeat' (first | rfl | split | simp only)

@[simp] theorem header_line_start (line : List UInt8) (r : Reader) :
    (headerLine line r).start = r.start := by
  unfold headerLine
  repeat' (first | rfl | split | simp only)

/-- A head leaves its URL in front of what follows it, and a declared length that
is an `int`. -/
theorem read_head_url {r h : Reader} (behind : UrlBehind r) (fits : FitsInt r.contentLength)
    (complete : readHead r = .complete h) : UrlBehind h ∧ FitsInt h.contentLength := by
  refine Loop.run_induction (motive := fun (r : Reader) (head : Head) =>
    UrlBehind r → FitsInt r.contentLength → ∀ h, head = .complete h →
      UrlBehind h ∧ FitsInt h.contentLength) ?_ ?_ r behind fits h complete
  · intro r next head round ih behind fits
    cases found : scan r.unread with
    | stopped passed rest =>
        rw [head_round_stopped found] at round
        cases round
    | line line rest =>
        have start : r.start ≤ (r.turn (line.length + 2) rest).start := by
          show r.start ≤ r.start + r.held.length + (line.length + 2)
          omega
        rw [head_round_line found] at round
        unfold headLine at round
        dsimp only at round
        split_ifs at round
        -- The request line: the URL is a part of it, so it ends before the next line starts.
        · cases round
          refine ih ?_ fits
          intro url same
          have bound := request_line_url same
          have short := text_length_le (r.held ++ line)
          rw [List.length_append] at short
          show _ ≤ r.start + r.held.length + (line.length + 2)
          omega
        -- A header line keeps the URL, and sets the length to an atoi at most.
        · cases round
          apply ih
          · intro url same
            rw [header_line_url] at same
            rw [header_line_start]
            exact Nat.le_trans (behind url same) start
          · have fits : FitsInt (r.turn (line.length + 2) rest).contentLength := fits
            unfold headerLine
            dsimp only
            split_ifs
            · exact fits
            · exact fits
            · exact toInt_fits _
            · exact fits
  · intro r head round behind fits h same
    subst same
    cases found : scan r.unread with
    | stopped passed rest =>
        rw [head_round_stopped found] at round
        cases round
    | line line rest =>
        rw [head_round_line found] at round
        unfold headLine at round
        dsimp only at round
        split_ifs at round
        · cases round
        · cases round
          refine ⟨fun url same => Nat.le_trans (behind url same) ?_, fits⟩
          show r.start ≤ r.start + r.held.length + (line.length + 2)
          omega

theorem cut_behind {url : Option Url} {index : Int}
    (behind : ∀ found, url = some found → (found.offset + found.string.length : Nat) ≤ index) :
    url.map (Url.cutAt index) = url := by
  cases url with
  | none => rfl
  | some url =>
      have bound := behind url rfl
      have taken : url.string.take (index - url.offset).toNat = url.string :=
        List.take_of_length_le (by push_cast at bound; omega)
      simp only [Option.map_some, Url.cutAt, taken]
      split_ifs <;> rfl

section Request

/-- The reads up to the one that completes the head, and what it leaves. -/
structure HeadReads (chunks : List (List UInt8)) (h : Reader) (earlier : List (List UInt8))
    (chunk : List UInt8) (later : List (List UInt8)) (g : Reader) : Prop where
  split : HeadSplit h.position chunks earlier chunk later g.unread
  fed : h = g.feed later.flatten
  start : g.start = h.position
  run : readChunks Reader.fresh chunks = resume (afterHead (.complete g)) later

theorem head_reads {chunks : List (List UInt8)} {h : Reader}
    (complete : readHead (Reader.fresh.feed chunks.flatten) = .complete h) :
    ∃ earlier chunk later g, HeadReads chunks h earlier chunk later g := by
  have reads := read_chunks_head chunks Reader.fresh fresh_at_rest (by simp [Reader.fresh])
  rw [complete] at reads
  obtain ⟨earlier, chunk, later, g, split, found, fed, before, run⟩ := reads
  have position : h.position = g.position := by rw [fed]; rfl
  obtain ⟨total, behind⟩ := read_head_splits found
  refine ⟨earlier, chunk, later, g, ⟨split, ?_, ?_, ?_⟩, fed, ?_, run⟩
  · have none : Reader.fresh.position + Reader.fresh.unread.length = 0 := rfl
    omega
  · omega
  · rw [position, behind]
  · rw [position, Reader.position, (read_head_complete found).1, List.length_nil, Nat.add_zero]

theorem HeadReads.served_empty {chunks earlier later : List (List UInt8)} {h g : Reader}
    {chunk : List UInt8} (reads : HeadReads chunks h earlier chunk later g)
    (empty : h.contentLength = 0) : readChunks Reader.fresh chunks = ⟨.serve, g, []⟩ := by
  have length : g.contentLength = 0 := by
    rw [← empty, reads.fed]
    rfl
  rw [reads.run, afterHead, if_pos length]
  rfl

/-- Behind the head the reads are those of a reader in front of the body. -/
theorem HeadReads.body {chunks earlier later : List (List UInt8)} {h g : Reader}
    {chunk : List UInt8} (reads : HeadReads chunks h earlier chunk later g)
    (declares : h.contentLength ≠ 0) : ∃ b, BodyAt h.position h.contentLength [] b ∧
      readChunks Reader.fresh chunks = readChunks b (g.unread :: later) ∧
      b.start = h.position ∧ b.url = h.url ∧ b.linger = h.linger := by
  have length : h.contentLength = g.contentLength := by rw [reads.fed]; rfl
  have position : h.position = g.position := by rw [reads.fed]; rfl
  refine ⟨{ g with phase := .content, unread := [] }, ?_, ?_, reads.start, ?_, ?_⟩
  · exact ⟨rfl, position.symm, rfl, length.symm, reads.start.ge⟩
  · rw [reads.run, afterHead, if_neg (length ▸ declares), read_chunks_cons, read_request_body rfl]
    rfl
  · rw [reads.fed]
    rfl
  · rw [reads.fed]
    rfl

theorem request_reads (chunks : List (List UInt8)) {h : Reader}
    (complete : readHead (Reader.fresh.feed chunks.flatten) = .complete h)
    (room : chunks.flatten.length ≤ readBufferSize) :
    RequestReads h chunks (readChunks Reader.fresh chunks) := by
  obtain ⟨behind, fits⟩ := read_head_url (fun url same => by cases same)
    (show FitsInt 0 by decide) complete
  obtain ⟨earlier, chunk, later, g, reads⟩ := head_reads complete
  have url : h.url = g.url := by rw [reads.fed]; rfl
  have start : h.start = h.position := by
    rw [← reads.start, reads.fed]
    rfl
  by_cases empty : h.contentLength = 0
  · rw [reads.served_empty empty]
    constructor
    · exact ⟨fun _ => .inl empty, fun _ => rfl⟩
    · exact fun other => absurd rfl other
    · rw [reads.fed]
      rfl
    · rw [reads.fed]
      rfl
    · intro _
      rw [servedUrl, if_neg (by omega)]
      exact url.symm
  · obtain ⟨b, reached, run, line, kept, linger⟩ := reads.body empty
    have total : h.position + ([] ++ (g.unread :: later).flatten).length ≤ readBufferSize := by
      rw [List.nil_append, reads.split.total]
      exact room
    have body := body_reads (g.unread :: later) fits reached total
    rw [run]
    constructor
    · rw [body.served, body_taken_iff reads.split, or_iff_right empty]
      simp only [List.nil_append]
    -- Reads that do not serve leave the URL of the head alone.
    · intro unserved
      obtain ⟨waits, same⟩ := body.waited unserved
      exact ⟨waits, same.trans kept⟩
    · exact body.same.linger.trans linger
    · exact body.same.length.trans reached.length
    · intro served
      obtain ⟨place, lower, first, cut⟩ := body.url served
      rw [cut, kept, servedUrl]
      -- A negative length cuts where the first look stood, any other behind the URL.
      split_ifs with negative
      · rw [(first negative rfl).trans line]
      · apply cut_behind
        intro found same
        have bound := behind found same
        omega

end Request

section Outcomes
variable {fs : FileSystem}

structure SameOutcome (fs : FileSystem) (first second : Outcome HttpCode) : Prop where
  ret : first.ret = second.ret
  url : urlString fs first.conn = urlString fs second.conn
  linger : first.conn.linger = second.conn.linger
  length : first.conn.contentLength = second.conn.contentLength

theorem do_request_ret {c d : HttpConn} (url : urlString fs c = urlString fs d)
    (realFile : c.realFile = d.realFile) : (doRequest fs c).ret = (doRequest fs d).ret := by
  have path : realPath { c with realFile := copyRealFile (urlString fs c) c.realFile } =
      realPath { d with realFile := copyRealFile (urlString fs d) d.realFile } := by
    simp only [realPath, url, realFile]
  unfold doRequest
  dsimp only
  rw [path]
  split
  · rfl
  · split_ifs <;> rfl

theorem do_request_answered {c : HttpConn} {r : Reader} (answered : Answered fs c r) :
    Answered fs (doRequest fs c).conn r := by
  have kept : (doRequest fs c).conn.url = c.url ∧ (doRequest fs c).conn.readBuf = c.readBuf ∧
      (doRequest fs c).conn.linger = c.linger ∧
      (doRequest fs c).conn.contentLength = c.contentLength := by
    unfold doRequest
    dsimp only
    split
    · exact ⟨rfl, rfl, rfl, rfl⟩
    · split_ifs <;> exact ⟨rfl, rfl, rfl, rfl⟩
  obtain ⟨url, buffer, linger, length⟩ := kept
  refine ⟨?_, linger.trans answered.linger, length.trans answered.length⟩
  rw [← answered.url]
  simp only [urlString, url, buffer]

theorem Agrees.answered {c : HttpConn} {value : Outcome HttpCode} {reading : Reading}
    (agrees : Agrees fs c value reading) : Answered fs value.conn reading.reader := by
  have result := agrees.result
  cases verdict : reading.verdict with
  | wait =>
      rw [verdict] at result
      exact result.2.1.answered fs
  | refuse =>
      rw [verdict] at result
      exact result.2.1
  | serve =>
      rw [verdict] at result
      obtain ⟨d, -, conn, answered, -⟩ := result
      rw [conn]
      exact do_request_answered answered

theorem Agrees.no_request_iff {c : HttpConn} {value : Outcome HttpCode} {reading : Reading}
    (agrees : Agrees fs c value reading) :
    value.ret = .noRequest ↔ reading.verdict = .wait := by
  have result := agrees.result
  cases verdict : reading.verdict with
  | wait =>
      rw [verdict] at result
      simp [result.1]
  | refuse =>
      rw [verdict] at result
      simp [result.1]
  | serve =>
      rw [verdict] at result
      obtain ⟨d, ret, -⟩ := result
      simp [ret, do_request_answers]

theorem same_outcome {c : HttpConn} {first second : Outcome HttpCode} {one other : Reading}
    (agrees : Agrees fs c first one) (also : Agrees fs c second other)
    (verdict : one.verdict = other.verdict) (url : one.reader.url = other.reader.url)
    (linger : one.reader.linger = other.reader.linger)
    (length : one.reader.contentLength = other.reader.contentLength) :
    SameOutcome fs first second := by
  constructor
  · have left := agrees.result
    have right := also.result
    rw [verdict] at left
    cases reached : other.verdict with
    | wait =>
        rw [reached] at left right
        rw [left.1, right.1]
    | refuse =>
        rw [reached] at left right
        rw [left.1, right.1]
    | serve =>
        rw [reached] at left right
        obtain ⟨d, ret, -, answered, same⟩ := left
        obtain ⟨e, ret', -, answered', same'⟩ := right
        rw [ret, ret']
        apply do_request_ret
        · rw [answered.url, answered'.url, url]
        · rw [same.realFile, same'.realFile]
  · rw [agrees.answered.url, also.answered.url, url]
  · rw [agrees.answered.linger, also.answered.linger, linger]
  · rw [agrees.answered.length, also.answered.length, length]

theorem init_receives (fs : FileSystem) (c : HttpConn) (chunks : List (List UInt8))
    (room : chunks.flatten.length ≤ readBufferSize) :
    Agrees fs (init c).conn (receive fs (init c).conn chunks) (readChunks Reader.fresh chunks) := by
  have none : (init c).conn.readIdx = 0 := (shows_init c).arrived
  exact receive_refines chunks (init c).conn Reader.fresh (shows_init c)
    (by rw [none, Nat.zero_add]; exact room)

end Outcomes

/-- The pieces a request arrives in make no difference exactly when they make
none to its body: no body declared, or taken from the pieces as it is taken from
the whole. -/
theorem segmentation_harmless_iff (fs : FileSystem) (c : HttpConn) (stream : List UInt8)
    (short : stream.length < readBufferSize) (chunks : List (List UInt8))
    (cut : chunks.flatten = stream) :
    SameOutcome fs (receive fs (init c).conn chunks) (receive fs (init c).conn [stream]) ↔
      ∀ head length, declared stream = some (head, length) →
        length = 0 ∨ (BodyTaken head length [stream] ↔ BodyTaken head length chunks) := by
  have whole : [stream].flatten = stream := List.append_nil stream
  have pieces := init_receives fs c chunks (by rw [cut]; exact short.le)
  have once := init_receives fs c [stream] (by rw [whole]; exact short.le)
  have headPieces := read_chunks_head chunks Reader.fresh fresh_at_rest (by simp [Reader.fresh])
  have headOnce := read_chunks_head [stream] Reader.fresh fresh_at_rest (by simp [Reader.fresh])
  rw [cut] at headPieces
  rw [whole] at headOnce
  cases reached : readHead (Reader.fresh.feed stream) with
  -- No complete head, and no body that the pieces could change.
  | waiting w =>
      rw [reached] at headPieces headOnce
      rw [headPieces] at pieces
      rw [headOnce] at once
      have none : declared stream = none := by simp [declared, reached]
      refine iff_of_true (same_outcome pieces once rfl rfl rfl rfl) ?_
      intro head length some
      rw [none] at some
      cases some
  | refused w =>
      rw [reached] at headPieces headOnce
      obtain ⟨v, reading, url, same⟩ := headPieces
      obtain ⟨v', reading', url', same'⟩ := headOnce
      rw [reading] at pieces
      rw [reading'] at once
      have none : declared stream = none := by simp [declared, reached]
      refine iff_of_true (same_outcome pieces once rfl (url.trans url'.symm)
        (same.linger.symm.trans same'.linger) (same.length.symm.trans same'.length)) ?_
      intro head length some
      rw [none] at some
      cases some
  | complete h =>
      have some : declared stream = some (h.position, h.contentLength) := by
        simp [declared, reached]
      have reads := request_reads chunks (h := h) (by rw [cut]; exact reached)
        (by rw [cut]; exact short.le)
      have read := request_reads [stream] (h := h) (by rw [whole]; exact reached)
        (by rw [whole]; exact short.le)
      -- The condition on the body is the same verdict for the pieces and for the whole.
      have taken : (∀ head length, declared stream = Option.some (head, length) → length = 0 ∨
          (BodyTaken head length [stream] ↔ BodyTaken head length chunks)) ↔
          ((readChunks Reader.fresh [stream]).verdict = .serve ↔
            (readChunks Reader.fresh chunks).verdict = .serve) := by
        rw [read.served, reads.served]
        constructor
        · intro all
          rcases all _ _ some with empty | same
          · simp [empty]
          · rw [same]
        · intro same head length found
          rw [some] at found
          cases found
          by_cases empty : h.contentLength = 0
          · exact .inl empty
          · rw [or_iff_right empty, or_iff_right empty] at same
            exact .inr same
      rw [taken]
      constructor
      · intro outcome
        have waits : (readChunks Reader.fresh chunks).verdict = .wait ↔
            (readChunks Reader.fresh [stream]).verdict = .wait := by
          rw [← pieces.no_request_iff, ← once.no_request_iff, outcome.ret]
        by_cases served : (readChunks Reader.fresh chunks).verdict = .serve
        · refine iff_of_true ?_ served
          by_contra other
          have wait := waits.mpr (read.waited other).1
          rw [served] at wait
          cases wait
        · refine iff_of_false ?_ served
          intro other
          have wait := waits.mp (reads.waited served).1
          rw [other] at wait
          cases wait
      · intro same
        by_cases served : (readChunks Reader.fresh chunks).verdict = .serve
        · have also := same.mpr served
          exact same_outcome pieces once (served.trans also.symm)
            ((reads.url served).trans (read.url also).symm) (reads.linger.trans read.linger.symm)
            (reads.length.trans read.length.symm)
        · have other : (readChunks Reader.fresh [stream]).verdict ≠ .serve :=
            fun also => served (same.mp also)
          obtain ⟨waits, url⟩ := reads.waited served
          obtain ⟨waits', url'⟩ := read.waited other
          exact same_outcome pieces once (waits.trans waits'.symm) (url.trans url'.symm)
            (reads.linger.trans read.linger.symm) (reads.length.trans read.length.symm)

/-- A body of two bytes that arrives one by one. -/
def splitBody : List (List UInt8) :=
  [ascii "GET / HTTP/1.1\r\nContent-Length: 2\r\n\r\nh", ascii "i"]

set_option maxRecDepth 4000 in
theorem split_body_reads : (readChunks Reader.fresh splitBody).verdict = .wait ∧
    (readChunks Reader.fresh [splitBody.flatten]).verdict = .serve := by decide

/-- Independence of the pieces fails for that body. -/
theorem split_body_waits : ¬ ∀ (fs : FileSystem) (c : HttpConn) (stream : List UInt8),
    stream.length < readBufferSize → ∀ chunks : List (List UInt8), chunks.flatten = stream →
      (∀ chunk ∈ chunks, chunk ≠ []) →
      SameOutcome fs (receive fs (init c).conn chunks) (receive fs (init c).conn [stream]) := by
  intro independent
  have same := (independent .empty .unused splitBody.flatten (by decide) splitBody rfl
    (by decide)).ret
  have waits := (init_receives .empty .unused splitBody (by decide)).no_request_iff.mpr
    split_body_reads.1
  have served := (init_receives .empty .unused [splitBody.flatten] (by decide)).no_request_iff
  rw [split_body_reads.2, ← same, waits] at served
  exact absurd (served.mp rfl) (by simp)

/-- A body that is read at once, and its head in two pieces. -/
theorem segmentation_harmless_split_head : SameOutcome .empty
    (receive .empty (init .unused).conn
      [ascii "GET / HTTP/1.1\r", ascii "\nContent-Length: 2\r\n\r\nhi"])
    (receive .empty (init .unused).conn
      [ascii "GET / HTTP/1.1\r\nContent-Length: 2\r\n\r\nhi"]) := by
  have found : declared (ascii "GET / HTTP/1.1\r\nContent-Length: 2\r\n\r\nhi") = some (37, 2) := by
    decide
  refine (segmentation_harmless_iff .empty .unused
    (ascii "GET / HTTP/1.1\r\nContent-Length: 2\r\n\r\nhi") (by decide) _ (by decide)).mpr ?_
  intro head length some
  rw [found] at some
  cases some
  refine .inr (iff_of_true ?_ ?_)
  · exact ⟨[], _, [], rfl, by decide, .inl (by decide)⟩
  · exact ⟨[ascii "GET / HTTP/1.1\r"], _, [], rfl, by decide, .inl (by decide)⟩

end StudyWebServer
