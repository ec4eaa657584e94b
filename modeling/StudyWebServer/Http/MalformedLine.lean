import StudyWebServer.Http.ReaderRuns

/-!
Heads given line by line, and what becomes of a malformed one: LINE_BAD ends
the loop of process_read as LINE_OPEN does, so that the connection waits for
bytes that cannot change anything.
-/

namespace StudyWebServer

open ByteMemory CString MachineInt CrlfLines

section Lines

def joinLines (lines : List (List UInt8)) : List UInt8 := lines.flatMap fun line => line ++ crlf

/-- The reader behind a line. -/
def Reader.takeLine (line : List UInt8) (r : Reader) : Reader :=
  r.turn (line.length + 2) (r.unread.drop (line.length + 2))

def takeHeader (r : Reader) (line : List UInt8) : Reader :=
  headerLine (text line) (r.takeLine line)

/-- A reader at the start of a line, with these bytes in front of it. -/
structure Facing (r : Reader) (phase : CheckState) (bytes : List UInt8) : Prop where
  phase : r.phase = phase
  held : r.held = []
  unread : r.unread = bytes

theorem facing_line {r : Reader} {phase : CheckState} {line rest : List UInt8}
    (facing : Facing r phase (line ++ crlf ++ rest)) (plain : Plain line) :
    scan r.unread = .line line rest ∧ r.takeLine line = r.turn (line.length + 2) rest := by
  have split : line ++ crlf ++ rest = line ++ 13 :: 10 :: rest := by simp [crlf]
  have width : (line ++ crlf).length = line.length + 2 := by simp [crlf]
  constructor
  · rw [facing.unread, split]
    exact scan_line plain rest
  · rw [Reader.takeLine, facing.unread, ← width, List.drop_left]

theorem take_line_unread {r : Reader} {phase : CheckState} {line rest : List UInt8}
    (facing : Facing r phase (line ++ crlf ++ rest)) (plain : Plain line) :
    (r.takeLine line).unread = rest := congrArg Reader.unread (facing_line facing plain).2

@[simp] theorem header_line_held (line : List UInt8) (r : Reader) :
    (headerLine line r).held = r.held := by
  unfold headerLine
  repeat' (first | rfl | split | simp only)

theorem read_head_header {r : Reader} {line rest : List UInt8}
    (facing : Facing r .header (line ++ crlf ++ rest)) (plain : Plain line)
    (visible : text line ≠ []) :
    readHead r = readHead (takeHeader r line) ∧ Facing (takeHeader r line) .header rest := by
  obtain ⟨found, taken⟩ := facing_line facing plain
  have other : r.phase ≠ .requestline := by rw [facing.phase]; simp
  constructor
  · apply read_head_again
    rw [head_round_line found, facing.held, List.nil_append, headLine, if_neg other,
      if_neg visible, ← taken]
    rfl
  · constructor
    · exact (header_line_phase _ _).trans facing.phase
    · exact header_line_held _ _
    · rw [takeHeader, header_line_unread, taken]
      rfl

theorem read_head_headers (headers : List (List UInt8)) {r : Reader} {rest : List UInt8}
    (facing : Facing r .header (joinLines headers ++ rest)) (plain : ∀ line ∈ headers, Plain line)
    (visible : ∀ line ∈ headers, text line ≠ []) :
    readHead r = readHead (headers.foldl takeHeader r) ∧
      Facing (headers.foldl takeHeader r) .header rest := by
  induction headers generalizing r with
  | nil => exact ⟨rfl, facing⟩
  | cons line headers ih =>
      have first : Facing r .header (line ++ crlf ++ (joinLines headers ++ rest)) := by
        constructor
        · exact facing.phase
        · exact facing.held
        · rw [facing.unread]
          simp [joinLines]
      obtain ⟨same, next⟩ := read_head_header first (plain line List.mem_cons_self)
        (visible line List.mem_cons_self)
      obtain ⟨later, last⟩ := ih next (fun other member => plain other
        (List.mem_cons_of_mem _ member))
        (fun other member => visible other (List.mem_cons_of_mem _ member))
      exact ⟨same.trans later, last⟩

def takeRequestLine (r : Reader) (line : List UInt8) : Reader :=
  ((r.takeLine line).withUrl (requestLine r.start (text line)).url).toPhase .header

theorem read_head_request_line {r : Reader} {line rest : List UInt8}
    (facing : Facing r .requestline (line ++ crlf ++ rest)) (plain : Plain line)
    (accepted : (requestLine r.start (text line)).accepted = true) :
    readHead r = readHead (takeRequestLine r line) ∧
      Facing (takeRequestLine r line) .header rest := by
  obtain ⟨found, taken⟩ := facing_line facing plain
  constructor
  · apply read_head_again
    rw [head_round_line found, facing.held, List.nil_append, headLine, if_pos facing.phase, ← taken]
    simp only [accepted, ↓reduceIte]
    rfl
  · exact ⟨rfl, by rw [takeRequestLine, taken]; rfl, by rw [takeRequestLine, taken]; rfl⟩

/-- The reader behind a request line and header lines, from the start of a request. -/
def takeHead (first : List UInt8) (headers : List (List UInt8)) (r : Reader) : Reader :=
  headers.foldl takeHeader (takeRequestLine r first)

theorem read_head_lines {first : List UInt8} {headers : List (List UInt8)} {r : Reader}
    {rest : List UInt8}
    (facing : Facing r .requestline (joinLines (first :: headers) ++ rest))
    (plain : ∀ line ∈ first :: headers, Plain line)
    (accepted : (requestLine r.start (text first)).accepted = true)
    (visible : ∀ line ∈ headers, text line ≠ []) :
    readHead r = readHead (takeHead first headers r) ∧
      Facing (takeHead first headers r) .header rest := by
  have opening : Facing r .requestline (first ++ crlf ++ (joinLines headers ++ rest)) :=
    ⟨facing.phase, facing.held, by rw [facing.unread]; simp [joinLines]⟩
  obtain ⟨same, next⟩ := read_head_request_line opening (plain first List.mem_cons_self) accepted
  obtain ⟨later, last⟩ := read_head_headers headers next
    (fun line member => plain line (List.mem_cons_of_mem _ member)) visible
  exact ⟨same.trans later, last⟩

end Lines

/-- Acceptable lines, the first a request line, with a line behind them that
holds an unpaired carriage return or line feed. -/
structure Malformed (stream : List UInt8) : Prop where
  parts : ∃ lines start tail, stream = joinLines lines ++ (start ++ tail) ∧
    (∀ line ∈ lines, Plain line) ∧
      (∀ first ∈ lines.head?, (requestLine 0 (text first)).accepted = true) ∧
    (∀ line ∈ lines.tail, text line ≠ []) ∧ Plain start ∧ Unpaired tail = true

theorem read_head_unpaired {r : Reader} {phase : CheckState} {start tail : List UInt8}
    (facing : Facing r phase (start ++ tail)) (plain : Plain start)
    (unpaired : Unpaired tail = true) :
    ∃ w, readHead r = .waiting w ∧ Unpaired w.unread = true := by
  have found : scan r.unread = .stopped start tail := by
    rw [facing.unread, scan_plain_append plain, scan_unpaired unpaired, Scan.after, List.append_nil]
  exact ⟨r.stop start tail, read_head_return (head_round_stopped found), unpaired⟩

theorem malformed_stuck {stream : List UInt8} (malformed : Malformed stream) :
    ∃ w, readHead (Reader.fresh.feed stream) = .waiting w ∧ Unpaired w.unread = true := by
  obtain ⟨lines, start, tail, rfl, plain, accepted, visible, plainStart, unpaired⟩ :=
    malformed.parts
  have facing : Facing (Reader.fresh.feed (joinLines lines ++ (start ++ tail))) .requestline
      (joinLines lines ++ (start ++ tail)) := ⟨rfl, rfl, rfl⟩
  cases lines with
  | nil =>
      have direct : Facing _ .requestline (start ++ tail) := facing
      exact read_head_unpaired direct plainStart unpaired
  | cons first headers =>
      obtain ⟨same, next⟩ := read_head_lines facing plain (accepted first rfl) visible
      rw [same]
      exact read_head_unpaired next plainStart unpaired

/-- The reads of a connection whose reader comes to wait for good. -/
theorem waiting_receives {fs : FileSystem} (c : HttpConn) {chunks : List (List UInt8)}
    (room : chunks.flatten.length ≤ readBufferSize) {w : Reader}
    (waits : readHead (Reader.fresh.feed chunks.flatten) = .waiting w) :
    (receive fs (init c).conn chunks).ret = .noRequest := by
  have fresh : (init c).conn.readIdx = 0 := (shows_init c).arrived
  have agrees : Agrees fs _ _ _ := receive_refines chunks (init c).conn Reader.fresh (shows_init c)
    (by rw [fresh, Nat.zero_add]; exact room)
  have reads := read_chunks_head chunks Reader.fresh fresh_at_rest (by simp [Reader.fresh])
  rw [waits] at reads
  rw [reads] at agrees
  exact agrees.result.1

theorem malformed_waits {fs : FileSystem} (c : HttpConn) {stream further : List UInt8}
    (malformed : Malformed stream) {chunks : List (List UInt8)}
    (bytes : chunks.flatten = stream ++ further) (room : chunks.flatten.length ≤ readBufferSize) :
    (receive fs (init c).conn chunks).ret = .noRequest := by
  obtain ⟨w, waits, stuck⟩ := malformed_stuck malformed
  apply waiting_receives c room
  rw [bytes, feed_append, read_head_feed, waits]
  exact stuck_feed stuck further

/-- A malformed line is never answered. Whatever pieces the bytes come in, the
calls return NO_REQUEST and leave a state from which every further one does. -/
theorem malformed_never_answered (fs : FileSystem) (c : HttpConn) (stream : List UInt8)
    (malformed : Malformed stream) (chunks : List (List UInt8)) (bytes : chunks.flatten = stream)
    (room : stream.length ≤ readBufferSize) :
    (receive fs (init c).conn chunks).ret ≠ .badRequest ∧
    (receive fs (init c).conn chunks).ret = .noRequest ∧
    ∀ more : List (List UInt8), stream.length + more.flatten.length ≤ readBufferSize →
      (receive fs (receive fs (init c).conn chunks).conn more).ret = .noRequest := by
  have waits : (receive fs (init c).conn chunks).ret = .noRequest :=
    malformed_waits c malformed (by rw [bytes, List.append_nil]) (bytes ▸ room)
  refine ⟨?_, waits, ?_⟩
  · rw [waits]
    simp
  · intro more fits
    have all : (chunks ++ more).flatten = stream ++ more.flatten := by
      rw [List.flatten_append, bytes]
    rw [← receive_append more waits]
    exact malformed_waits c malformed all (by rw [all, List.length_append]; exact fits)

/-- A header line that ends in a bare line feed. -/
def bareLineFeed : List UInt8 := ascii "GET / HTTP/1.1\r\nHost: a\n"

theorem bare_line_feed_malformed : Malformed bareLineFeed :=
  ⟨[ascii "GET / HTTP/1.1"], ascii "Host: a", [10], by decide, by decide, by decide, by decide,
    by decide, by decide⟩

theorem malformed_never_answered_bare_line_feed : (receive .empty (init .unused).conn
    [bareLineFeed]).ret ≠ .badRequest ∧
    (receive .empty (init .unused).conn [bareLineFeed]).ret = .noRequest ∧
    ∀ more : List (List UInt8), bareLineFeed.length + more.flatten.length ≤ readBufferSize →
      (receive .empty (receive .empty (init .unused).conn [bareLineFeed]).conn more).ret =
        .noRequest :=
  malformed_never_answered .empty .unused bareLineFeed bare_line_feed_malformed [bareLineFeed]
    (List.append_nil _) (by decide)

/-- An answer of BAD_REQUEST to every malformed line is not what happens here. -/
theorem bare_line_feed_unanswered : ¬ ∀ (fs : FileSystem) (c : HttpConn) (stream : List UInt8),
    Malformed stream → ∀ chunks : List (List UInt8), chunks.flatten = stream →
      stream.length ≤ readBufferSize → (receive fs (init c).conn chunks).ret = .badRequest := by
  intro answered
  have refused := answered .empty .unused bareLineFeed bare_line_feed_malformed [bareLineFeed]
    (List.append_nil _) (by decide)
  have waits : (receive .empty (init .unused).conn [bareLineFeed]).ret = .noRequest :=
    malformed_waits .unused bare_line_feed_malformed
      (by rw [List.append_nil]; exact List.append_nil _) (by decide)
  rw [waits] at refused
  cases refused

end StudyWebServer
