import Mathlib.Logic.Relation
import StudyWebServer.Http.Containment
import StudyWebServer.Http.RequestLine
import StudyWebServer.Http.RequestLanguage
import StudyWebServer.Http.Rounds
import StudyWebServer.Server.Users

/-!
The parse state of a connection between any two rounds of process_read, over all
sequences of read() and process_read since init(). The pointers into m_read_buf
stay in front of m_start_line and end in a NUL there, and do_request is called
only for a request line and the empty line behind its headers.
-/

namespace StudyWebServer

open ByteMemory CString MachineInt Layout

variable {fs : FileSystem} {c d : HttpConn} {loop : ReadLoop}

/-- A pointer that is null or denotes a string which ends before m_start_line. -/
def PtrBelow (c : HttpConn) (pointer : CharPtr) : Prop :=
  pointer = .null ∨ ∃ offset nul, pointer = .readBuf offset ∧ offset ≤ nul ∧ nul < c.startLine ∧
    c.readBuf nul = 0

theorem PtrBelow.keep {pointer : CharPtr} (below : PtrBelow c pointer)
    (start : c.startLine ≤ d.startLine)
    (zeros : ∀ key < c.startLine, c.readBuf key = 0 → d.readBuf key = 0) :
    PtrBelow d pointer := by
  rcases below with null | ⟨offset, nul, same, ends, before, zero⟩
  · exact .inl null
  · exact .inr ⟨offset, nul, same, ends, by omega, zeros nul before zero⟩

theorem Readable.url_below (readable : Readable c) : PtrBelow c c.url := by
  have shown := readable.url
  cases same : (readerOf c).url with
  | none =>
      rw [same] at shown
      exact .inl shown
  | some url =>
      rw [same] at shown
      exact .inr ⟨_, _, shown.1, Nat.le_add_right _ _, shown.2.room, shown.2.nul⟩

/-- The two pointers that process_read sets and no part of the server reads. -/
structure PointersBelow (c : HttpConn) : Prop where
  version : PtrBelow c c.version
  host : PtrBelow c c.host

theorem PointersBelow.keep (below : PointersBelow c) (version : d.version = c.version)
    (host : d.host = c.host) (start : c.startLine ≤ d.startLine)
    (zeros : ∀ key < c.startLine, c.readBuf key = 0 → d.readBuf key = 0) : PointersBelow d :=
  ⟨version ▸ below.version.keep start zeros, host ▸ below.host.keep start zeros⟩

section Handlers
variable {text limit : Nat} {line : List UInt8}

/-- m_version behind parse_request_line: the old one, null, or a place in the line. -/
theorem parse_request_line_version (held : Terminated c.readBuf limit text line)
    (room : limit ≤ readBufferSize) :
    (parseRequestLine text c).conn.version = c.version ∨
    (parseRequestLine text c).conn.version = .null ∨
    ∃ offset ≤ text + line.length, (parseRequestLine text c).conn.version = .readBuf offset := by
  unfold parseRequestLine
  rw [Terminated.stringAt_eq held room]
  dsimp only
  cases found : strpbrk line blanks with
  | none => exact .inl rfl
  | some first =>
      have inside := (strpbrk_some found).1
      have behind := held.behind_cut first inside
      dsimp only
      rw [Terminated.stringAt_eq behind room]
      split_ifs
      · cases more : strpbrk (line.drop (first + 1)) blanks with
        | none => exact .inr (.inl rfl)
        | some second =>
            have within := (strpbrk_some more).1
            rw [List.length_drop] at within
            refine .inr (.inr ⟨text + first + 1 + second + 1, by omega, ?_⟩)
            dsimp only
            split_ifs
            · split <;> rfl
            · rfl
            · rfl
            · rfl
      · exact .inl rfl

theorem parse_request_line_host (text : Nat) (c : HttpConn) :
    (parseRequestLine text c).conn.host = c.host := by
  unfold parseRequestLine
  repeat' (first | rfl | split | simp only)

theorem parse_request_line_pointers (held : Terminated c.readBuf limit text line)
    (room : limit ≤ readBufferSize) (start : limit ≤ c.startLine) (below : PointersBelow c) :
    PointersBelow (parseRequestLine text c).conn := by
  have kept := (parse_request_line_refines c held room).kept
  have zeros : ∀ key, c.readBuf key = 0 → (parseRequestLine text c).conn.readBuf key = 0 := by
    intro key zero
    rcases kept.zeros key with same | cleared
    · rw [same, zero]
    · exact cleared
  have inside := held.room
  have startLine := kept.startLine
  constructor
  · rcases parse_request_line_version held room with same | null | ⟨offset, ends, same⟩
    · rw [same]
      exact below.version.keep startLine.ge fun key _ => zeros key
    · exact .inl null
    -- The version is the end of the line, whose NUL is in front of the next one.
    · exact .inr ⟨offset, text + line.length, same, ends, by omega, zeros _ held.nul⟩
  · rw [parse_request_line_host]
    exact below.host.keep startLine.ge fun key _ => zeros key

/-- What parse_headers does, as far as the pointers and the state go. -/
structure HeadersKept (text : Nat) (c d : HttpConn) : Prop where
  readBuf : d.readBuf = c.readBuf
  startLine : d.startLine = c.startLine
  url : d.url = c.url
  version : d.version = c.version
  checkState : d.checkState = c.checkState ∨ d.checkState = .content ∧ c.readBuf text = 0

theorem parse_headers_kept (text : Nat) (c : HttpConn) :
    HeadersKept text c (parseHeaders text c).conn := by
  unfold parseHeaders
  dsimp only
  split_ifs with blank
  · exact ⟨rfl, rfl, rfl, rfl, .inr ⟨rfl, blank⟩⟩
  all_goals exact ⟨rfl, rfl, rfl, rfl, .inl rfl⟩

theorem parse_headers_get (complete : (parseHeaders text c).ret = .getRequest) :
    c.readBuf text = 0 := by
  unfold parseHeaders at complete
  dsimp only at complete
  split_ifs at complete with blank
  exact blank

theorem parse_headers_host (held : Terminated c.readBuf limit text line)
    (room : limit ≤ readBufferSize) : (parseHeaders text c).conn.host = c.host ∨
    ∃ offset ≤ text + line.length, (parseHeaders text c).conn.host = .readBuf offset := by
  unfold parseHeaders
  rw [Terminated.stringAt_eq held room]
  dsimp only
  split_ifs with blank length connection keepAlive contentLength host
  · exact .inl rfl
  · exact .inl rfl
  · exact .inl rfl
  · exact .inl rfl
  · exact .inl rfl
  · have long := strncasecmp_length host (by decide : 5 ≤ (ascii "Host:").length)
    have skipped : strspn (line.drop 5) blanks ≤ (line.drop 5).length :=
      (List.takeWhile_prefix _).length_le
    rw [List.length_drop] at skipped
    exact .inr ⟨_, by omega, rfl⟩
  · exact .inl rfl

theorem parse_headers_pointers (held : Terminated c.readBuf limit text line)
    (room : limit ≤ readBufferSize) (start : limit ≤ c.startLine) (below : PointersBelow c) :
    PointersBelow (parseHeaders text c).conn := by
  have kept := parse_headers_kept text c
  have zeros : ∀ key, c.readBuf key = 0 → (parseHeaders text c).conn.readBuf key = 0 := by
    intro key zero
    rw [kept.readBuf, zero]
  have inside := held.room
  have startLine := kept.startLine
  constructor
  · rw [kept.version]
    exact below.version.keep startLine.ge fun key _ => zeros key
  · rcases parse_headers_host held room with same | ⟨offset, ends, same⟩
    · rw [same]
      exact below.host.keep startLine.ge fun key _ => zeros key
    · exact .inr ⟨offset, text + line.length, same, ends, by omega, zeros _ held.nul⟩

/-- What parse_content leaves alone as long as its NUL goes into the buffer. -/
structure ContentKept (c d : HttpConn) : Prop where
  pointers : d.url = c.url ∧ d.version = c.version ∧ d.host = c.host
  startLine : d.startLine = c.startLine
  checkState : d.checkState = c.checkState
  zeros : ∀ key, c.readBuf key = 0 → d.readBuf key = 0

theorem parse_content_kept (text : Nat) (c : HttpConn)
    (inside : StoresInside (parseContent text c).log) :
    ContentKept c (parseContent text c).conn := by
  by_cases enough : toInt (c.contentLength + c.checkedIdx) ≤ c.readIdx
  · have before := content_nul_before (content_nul_inside enough inside).2
    rw [parse_content_enough text enough, bzero_before_checked c before]
    refine ⟨⟨rfl, rfl, rfl⟩, rfl, rfl, fun key zero => ?_⟩
    rcases clear_array_zeros (readBufOffset + (text + c.contentLength))
      (readBufOffset + (text + c.contentLength) + 1) readBufOffset readBufferSize c.readBuf key
      with same | cleared
    · exact same.trans zero
    · exact cleared
  · rw [parse_content_short text enough]
    exact ⟨⟨rfl, rfl, rfl⟩, rfl, rfl, fun _ => id⟩

theorem parse_content_pointers {text : Nat} (inside : StoresInside (parseContent text c).log)
    (below : PointersBelow c) : PointersBelow (parseContent text c).conn := by
  have kept := parse_content_kept text c inside
  exact below.keep kept.pointers.2.1 kept.pointers.2.2 kept.startLine.ge fun key _ => kept.zeros key

end Handlers

section Round

/-- do_request leaves all that the parse state is made of. -/
theorem do_request_pointers (fs : FileSystem) (below : PointersBelow c) :
    PointersBelow (doRequest fs c).conn := by
  rcases do_request_cases fs c with ⟨ret, stat, log, -, -, same⟩ |
      ⟨stat, address, log, -, -, same⟩
  · rw [same]
    exact below.keep rfl rfl (Nat.le_refl _) fun _ _ => id
  · rw [same]
    exact below.keep rfl rfl (Nat.le_refl _) fun _ _ => id

theorem do_request_parse_state (fs : FileSystem) (c : HttpConn) :
    (doRequest fs c).conn.checkState = c.checkState ∧ (doRequest fs c).conn.url = c.url := by
  rcases do_request_cases fs c with ⟨ret, stat, log, -, -, same⟩ |
      ⟨stat, address, log, -, -, same⟩ <;>
    exact same ▸ ⟨rfl, rfl⟩

/-- The ways out of a round: no line, a line handled, and do_request behind it. -/
inductive RoundLeaves (fs : FileSystem) (loop : ReadLoop) : HttpConn → List Effect → Prop where
  | stopped : (nextLine loop).ret ≠ .lineOk →
      RoundLeaves fs loop (nextLine loop).conn (loop.log ++ (nextLine loop).log)
  | line : (nextLine loop).ret = .lineOk → RoundLeaves fs loop (handled loop).conn
      (loop.log ++ (nextLine loop).log ++ (handled loop).log)
  | served : (nextLine loop).ret = .lineOk → (handled loop).ret = .getRequest →
      RoundLeaves fs loop (doRequest fs (handled loop).conn).conn
        (loop.log ++ (nextLine loop).log ++
          ((handled loop).log ++ (doRequest fs (handled loop).conn).log))

theorem read_round_leaves (fs : FileSystem) (loop : ReadLoop) : match readRound fs loop with
    | .inl next => RoundLeaves fs loop next.conn next.log
    | .inr value => RoundLeaves fs loop value.conn value.log := by
  by_cases complete : (nextLine loop).ret = .lineOk
  · have line := @RoundLeaves.line fs loop complete
    have served := @RoundLeaves.served fs loop complete
    rw [read_round_line complete]
    cases state : (nextLine loop).conn.checkState with
    | requestline =>
        have next : (startNextLine (nextLine loop).conn).checkState = .requestline := state
        rw [handled_request_line state] at line
        rw [handle_request_line next]
        split_ifs <;> exact line
    | header =>
        have next : (startNextLine (nextLine loop).conn).checkState = .header := state
        rw [handled_header state] at line served
        rw [handle_header next]
        split_ifs with bad get
        · exact line
        · exact served get
        · exact line
    | content =>
        have next : (startNextLine (nextLine loop).conn).checkState = .content := state
        rw [handled_content state] at line served
        rw [handle_content next]
        split_ifs with get
        · exact served get
        · exact line
  · rw [read_round_stop complete]
    exact .stopped complete

/-- The moves of m_check_state. -/
def CheckMove (before after : CheckState) : Prop :=
  after = before ∨ before = .requestline ∧ after = .header ∨ before = .header ∧ after = .content

/-- The round's line is a request line and is accepted. -/
def AcceptsLine (loop : ReadLoop) : Prop :=
  (nextLine loop).ret = .lineOk ∧ (nextLine loop).conn.checkState = .requestline ∧
    (handled loop).ret = .noRequest

/-- The round's line is an empty one among the headers. -/
def SeesBlank (loop : ReadLoop) : Prop :=
  (nextLine loop).ret = .lineOk ∧ (nextLine loop).conn.checkState = .header ∧
    (nextLine loop).conn.readBuf (nextLine loop).conn.startLine = 0

/-- What the handler of a line makes of the state. -/
structure HandledState (loop : ReadLoop) : Prop where
  moves : CheckMove loop.conn.checkState (handled loop).conn.checkState
  url : loop.conn.checkState ≠ .requestline → (handled loop).conn.url = loop.conn.url
  accepts : loop.conn.checkState = .requestline → (handled loop).conn.checkState ≠ .requestline →
    AcceptsLine loop ∧ ∃ offset, (handled loop).conn.url = .readBuf offset
  blank : (handled loop).conn.checkState = .content →
    loop.conn.checkState = .content ∨ SeesBlank loop
  asks : (handled loop).ret = .getRequest → loop.conn.checkState ≠ .requestline ∧
    (loop.conn.checkState = .content ∨ SeesBlank loop)

/-- The line of a round in the head, terminated in front of the next one. -/
theorem next_line_held (readable : Readable loop.conn) (complete : (nextLine loop).ret = .lineOk)
    (head : loop.conn.checkState ≠ .content) :
    (nextLine loop).conn.checkedIdx ≤ readBufferSize ∧
    ∃ line, Terminated (nextLine loop).conn.readBuf (nextLine loop).conn.checkedIdx
      (nextLine loop).conn.startLine line := by
  obtain ⟨-, sound⟩ := next_line_sound loop readable
  rw [if_pos complete] at sound
  obtain ⟨r, line, shows, empty, held⟩ := sound
  have state : (nextLine loop).conn.checkState ≠ .content := by
    rw [(next_line_kept loop).checkState]
    exact head
  have start : (nextLine loop).conn.checkedIdx = r.start := shows.start
  have room : (nextLine loop).conn.readIdx ≤ readBufferSize := shows.room
  have arrived : (nextLine loop).conn.readIdx = r.position + r.unread.length := shows.arrived
  have position : r.position = r.start := by simp [Reader.position, empty]
  exact ⟨by omega, line, by rw [start]; exact held state⟩

theorem handled_state_requestline (readable : Readable loop.conn)
    (complete : (nextLine loop).ret = .lineOk) (state : loop.conn.checkState = .requestline) :
    HandledState loop := by
  have here : (nextLine loop).conn.checkState = .requestline :=
    (next_line_kept loop).checkState.trans state
  obtain ⟨room, line, held⟩ := next_line_held readable complete (by rw [state]; decide)
  have parsed := parse_request_line_refines (startNextLine (nextLine loop).conn) held room
  rw [← handled_request_line here] at parsed
  have after := parsed.state
  have ret := parsed.ret
  have stays : (startNextLine (nextLine loop).conn).checkState = .requestline := here
  by_cases accepted : (requestLine (nextLine loop).conn.startLine line).accepted = true
  · rw [if_pos accepted] at after ret
    obtain ⟨method, url, version, start, grammar⟩ := request_line_accepted accepted
    have shown := parsed.url
    rw [request_line_accepts _ grammar] at shown
    refine ⟨?_, fun other => absurd state other, fun _ _ => ⟨⟨complete, here, ret⟩, _, shown.1⟩,
      fun content => ?_, fun get => ?_⟩
    · rw [state, after]
      exact .inr (.inl ⟨rfl, rfl⟩)
    · rw [after] at content
      cases content
    · rw [ret] at get
      cases get
  · rw [if_neg accepted] at after ret
    rw [stays] at after
    refine ⟨.inl (after.trans state.symm), fun other => absurd state other,
      fun _ moved => absurd after moved, fun content => ?_, fun get => ?_⟩
    · rw [after] at content
      cases content
    · rw [ret] at get
      cases get

theorem handled_state_header (complete : (nextLine loop).ret = .lineOk)
    (state : loop.conn.checkState = .header) : HandledState loop := by
  have kept := next_line_kept loop
  have here : (nextLine loop).conn.checkState = .header := kept.checkState.trans state
  have parsed := parse_headers_kept (nextLine loop).conn.startLine
    (startNextLine (nextLine loop).conn)
  have blank := @parse_headers_get (startNextLine (nextLine loop).conn)
    (nextLine loop).conn.startLine
  rw [← handled_header here] at parsed blank
  have stays : (startNextLine (nextLine loop).conn).checkState = .header := here
  refine ⟨?_, fun _ => parsed.url.trans kept.url, fun other => ?_, fun content => ?_,
    fun get => ⟨by rw [state]; decide, .inr ⟨complete, here, blank get⟩⟩⟩
  · rw [state]
    rcases parsed.checkState with same | ⟨moved, -⟩
    · exact .inl (same.trans stays)
    · exact .inr (.inr ⟨rfl, moved⟩)
  · rw [state] at other
    cases other
  -- Only the empty line moves on to the body.
  · rcases parsed.checkState with same | ⟨-, empty⟩
    · rw [same, stays] at content
      cases content
    · exact .inr ⟨complete, here, empty⟩

theorem handled_state_content (inside : StoresInside (handled loop).log)
    (state : loop.conn.checkState = .content) : HandledState loop := by
  have kept := next_line_kept loop
  have here : (nextLine loop).conn.checkState = .content := kept.checkState.trans state
  rw [handled_content here] at inside
  have parsed := parse_content_kept _ _ inside
  rw [← handled_content here] at parsed
  refine ⟨.inl (parsed.checkState.trans kept.checkState), fun _ => parsed.pointers.1.trans kept.url,
    fun other => ?_, fun _ => .inl state, fun _ => ⟨by rw [state]; decide, .inl state⟩⟩
  rw [state] at other
  cases other

theorem handled_state (readable : Readable loop.conn) (complete : (nextLine loop).ret = .lineOk)
    (inside : StoresInside (handled loop).log) : HandledState loop := by
  cases state : loop.conn.checkState with
  | requestline => exact handled_state_requestline readable complete state
  | header => exact handled_state_header complete state
  | content => exact handled_state_content inside state

/-- m_start_line only moves forward. -/
theorem next_line_start (readable : Readable loop.conn) (complete : (nextLine loop).ret = .lineOk) :
    loop.conn.startLine ≤ (nextLine loop).conn.checkedIdx := by
  have start := readable.start
  have checked : loop.conn.checkedIdx = (readerOf loop.conn).position := readable.checked
  have position : (readerOf loop.conn).position =
    (readerOf loop.conn).start + (readerOf loop.conn).held.length := rfl
  by_cases skipped : loop.conn.checkState = .content ∧ loop.lineStatus = .lineOk
  · have next : nextLine loop = ⟨.lineOk, loop.conn, []⟩ := if_pos skipped
    rw [next]
    dsimp only
    omega
  · have moved := (scans_of_parse_line (if_neg skipped) complete).moved
    omega

theorem handled_pointers (readable : Readable loop.conn) (complete : (nextLine loop).ret = .lineOk)
    (inside : StoresInside (handled loop).log) (below : PointersBelow loop.conn) :
    PointersBelow (handled loop).conn := by
  have kept := next_line_kept loop
  have before : PointersBelow (startNextLine (nextLine loop).conn) :=
    below.keep kept.version kept.host (next_line_start readable complete) fun key _ =>
      kept.zeros key
  cases state : loop.conn.checkState with
  | requestline =>
      obtain ⟨room, line, held⟩ := next_line_held readable complete (by rw [state]; decide)
      rw [handled_request_line (kept.checkState.trans state)]
      exact parse_request_line_pointers held room (Nat.le_refl _) before
  | header =>
      obtain ⟨room, line, held⟩ := next_line_held readable complete (by rw [state]; decide)
      rw [handled_header (kept.checkState.trans state)]
      exact parse_headers_pointers held room (Nat.le_refl _) before
  | content =>
      rw [handled_content (kept.checkState.trans state)] at inside ⊢
      exact parse_content_pointers inside before

end Round

section Session

/-- A connection between two calls, or in the loop of a process_read, with what
was seen since init(). -/
structure Session where
  loop : ReadLoop
  running : Bool
  lineAccepted : Prop
  blankSeen : Prop

namespace Session

def start (c : HttpConn) : Session := ⟨⟨.lineOk, (init c).conn, []⟩, false, False, False⟩

/-- The session behind a round. -/
def after (s : Session) (loop : ReadLoop) (running : Bool) : Session :=
  ⟨loop, running, s.lineAccepted ∨ AcceptsLine s.loop, s.blankSeen ∨ SeesBlank s.loop⟩

/-- read(), the start of a process_read, and a round of it that goes on or
returns. The stores of a round stay in the arrays that they name. -/
inductive Step : Session → Session → Prop where
  | read (s : Session) (results : List Recv) : s.running = false →
      Step s { s with loop := { s.loop with conn := (read results s.loop.conn).conn } }
  | enter (s : Session) : s.running = false →
      Step s { s with loop := ⟨.lineOk, s.loop.conn, []⟩, running := true }
  | again (s : Session) (fs : FileSystem) (next : ReadLoop) : s.running = true →
      readRound fs s.loop = .inl next → StoresInside next.log → Step s (s.after next true)
  | leave (s : Session) (fs : FileSystem) (value : Outcome HttpCode) : s.running = true →
      readRound fs s.loop = .inr value → StoresInside value.log →
      Step s (s.after ⟨s.loop.lineStatus, value.conn, value.log⟩ false)

def Reached (c : HttpConn) : Session → Prop := Relation.ReflTransGen Step (start c)

structure Sound (s : Session) : Prop where
  readable : Readable s.loop.conn
  below : PointersBelow s.loop.conn
  accepted : s.loop.conn.checkState ≠ .requestline →
    s.lineAccepted ∧ ∃ offset, s.loop.conn.url = .readBuf offset
  blank : s.loop.conn.checkState = .content → s.blankSeen

theorem Sound.start (c : HttpConn) : Sound (start c) := by
  have shows := shows_init c
  refine ⟨shows.readable, ?_, fun other => ?_, fun content => ?_⟩
  · show PointersBelow (init c).conn
    rw [init_conn]
    exact ⟨.inl rfl, .inl rfl⟩
  · exact absurd shows.phase other
  · have state : (init c).conn.checkState = .requestline := shows.phase
    have content : (init c).conn.checkState = .content := content
    rw [state] at content
    cases content

variable {s t : Session}

/-- What a round does to the state and the pointers, with its line or without one. -/
theorem Sound.leaves {d : HttpConn} {log : List Effect} (sound : Sound s)
    (leaves : RoundLeaves fs s.loop d log) (inside : StoresInside log) :
    CheckMove s.loop.conn.checkState d.checkState ∧ PointersBelow d ∧
    (d.checkState ≠ .requestline → (s.lineAccepted ∨ AcceptsLine s.loop) ∧
      ∃ offset, d.url = .readBuf offset) ∧
    (d.checkState = .content → s.blankSeen ∨ SeesBlank s.loop) := by
  have kept := next_line_kept s.loop
  -- The handler's part, for a round that ends with it and for one that asks do_request.
  have line (complete : (nextLine s.loop).ret = .lineOk)
      (inside : StoresInside (handled s.loop).log) :
      CheckMove s.loop.conn.checkState (handled s.loop).conn.checkState ∧
      PointersBelow (handled s.loop).conn ∧
      ((handled s.loop).conn.checkState ≠ .requestline →
        (s.lineAccepted ∨ AcceptsLine s.loop) ∧
        ∃ offset, (handled s.loop).conn.url = .readBuf offset) ∧
      ((handled s.loop).conn.checkState = .content → s.blankSeen ∨ SeesBlank s.loop) := by
    have state := handled_state sound.readable complete inside
    refine ⟨state.moves, handled_pointers sound.readable complete inside sound.below,
      fun behind => ?_, fun content => ?_⟩
    · by_cases first : s.loop.conn.checkState = .requestline
      · obtain ⟨accepts, url⟩ := state.accepts first behind
        exact ⟨.inr accepts, url⟩
      · obtain ⟨accepted, url⟩ := sound.accepted first
        exact ⟨.inl accepted, by rw [state.url first]; exact url⟩
    · exact (state.blank content).imp_left sound.blank
  cases leaves with
  | stopped stops =>
      refine ⟨.inl kept.checkState, sound.below.keep kept.version kept.host kept.startLine.ge
        fun key _ => kept.zeros key, fun behind => ?_, fun content => ?_⟩
      · rw [kept.checkState] at behind
        rw [kept.url]
        exact (sound.accepted behind).imp_left .inl
      · rw [kept.checkState] at content
        exact .inl (sound.blank content)
  | line complete => exact line complete (stores_inside_append.mp inside).2
  | served complete get =>
      have handlerInside := (stores_inside_append.mp (stores_inside_append.mp inside).2).1
      obtain ⟨state, url⟩ := do_request_parse_state fs (handled s.loop).conn
      rw [state, url]
      obtain ⟨moves, below, accepted, blank⟩ := line complete handlerInside
      exact ⟨moves, do_request_pointers fs below, accepted, blank⟩

/-- The session behind a round, whether it goes on or returns. -/
theorem Sound.behind {status : LineStatus} {d : HttpConn} {log : List Effect} {running : Bool}
    (sound : Sound s) (leaves : RoundLeaves fs s.loop d log) (inside : StoresInside log)
    (readable : Readable d) : Sound (s.after ⟨status, d, log⟩ running) ∧
      CheckMove s.loop.conn.checkState d.checkState := by
  obtain ⟨moves, below, accepted, blank⟩ := sound.leaves leaves inside
  exact ⟨⟨readable, below, accepted, blank⟩, moves⟩

/-- The stores of a whole round are among those of the call so far. -/
theorem round_readable (readable : Readable s.loop.conn) : match readRound fs s.loop with
    | .inl next => StoresInside next.log → Readable next.conn
    | .inr value => StoresInside value.log → Readable value.conn := by
  obtain ⟨added, round⟩ := read_round_sound fs s.loop
  cases result : readRound fs s.loop with
  | inl next =>
      rw [result] at round
      intro inside
      rw [round.1, stores_inside_append] at inside
      exact (round.2 readable inside.2).2.1
  | inr value =>
      rw [result] at round
      intro inside
      rw [round.1, stores_inside_append] at inside
      exact (round.2 readable inside.2).2.1

theorem read_below (results : List Recv) (readable : Readable c) (below : PointersBelow c) :
    PointersBelow (read results c).conn ∧ (read results c).conn.checkState = c.checkState ∧
      (read results c).conn.url = c.url := by
  obtain ⟨bytes, conn, -⟩ := read_appends results c readable.room
  rw [conn]
  refine ⟨below.keep rfl rfl (Nat.le_refl _) fun key before zero => ?_, rfl, rfl⟩
  -- The bytes received go behind m_read_idx.
  have start := readable.start
  have arrived := readable.arrived
  have position : (readerOf c).position = (readerOf c).start + (readerOf c).held.length := rfl
  exact (store_list_before bytes (by omega)).trans zero

theorem Sound.step (sound : Sound s) (step : Step s t) :
    Sound t ∧ CheckMove s.loop.conn.checkState t.loop.conn.checkState := by
  cases step with
  | read results idle =>
      obtain ⟨below, state, url⟩ := read_below results sound.readable sound.below
      have accepted := sound.accepted
      have blank := sound.blank
      rw [← state] at accepted blank
      rw [← url] at accepted
      exact ⟨⟨read_readable results sound.readable, below, accepted, blank⟩, .inl state⟩
  | enter idle => exact ⟨⟨sound.readable, sound.below, sound.accepted, sound.blank⟩, .inl rfl⟩
  | again fs next running round inside =>
      have leaves := read_round_leaves fs s.loop
      have readable := @round_readable fs s sound.readable
      rw [round] at leaves readable
      exact sound.behind leaves inside (readable inside)
  | leave fs value running round inside =>
      have leaves := read_round_leaves fs s.loop
      have readable := @round_readable fs s sound.readable
      rw [round] at leaves readable
      exact sound.behind leaves inside (readable inside)

theorem Reached.sound (reached : Reached c s) : Sound s := by
  induction reached with
  | refl => exact .start c
  | tail _ step ih => exact (ih.step step).1

/-- A call of process_read whose stores stay inside, round by round. -/
theorem process_read_steps (fs : FileSystem) (idle : s.running = false)
    (inside : StoresInside (processRead fs s.loop.conn).log) :
    ∃ t, Relation.ReflTransGen Step s t ∧ t.running = false ∧
      t.loop.conn = (processRead fs s.loop.conn).conn := by
  have run : ∀ t : Session, t.loop = ⟨.lineOk, s.loop.conn, []⟩ → t.running = true →
      Relation.ReflTransGen Step s t → ∃ u, Relation.ReflTransGen Step s u ∧ u.running = false ∧
        u.loop.conn = (processRead fs s.loop.conn).conn := by
    refine Loop.run_induction (motive := fun (loop : ReadLoop) (value : Outcome HttpCode) =>
      (∃ added, value.log = loop.log ++ added) ∧ (StoresInside value.log →
        ∀ t : Session, t.loop = loop → t.running = true → Relation.ReflTransGen Step s t →
        ∃ u, Relation.ReflTransGen Step s u ∧ u.running = false ∧ u.loop.conn = value.conn))
      ?_ ?_ (⟨.lineOk, s.loop.conn, []⟩ : ReadLoop) |>.2 inside
    · intro loop next value round ih
      obtain ⟨first, step⟩ := read_round_sound fs loop
      rw [round] at step
      obtain ⟨⟨second, log⟩, later⟩ := ih
      refine ⟨⟨first ++ second, by rw [log, step.1, List.append_assoc]⟩,
        fun inside t same running path => ?_⟩
      have part : StoresInside next.log := by
        rw [log] at inside
        exact (stores_inside_append.mp inside).1
      subst same
      exact later inside _ rfl rfl (path.tail (.again t fs next running round part))
    · intro loop value round
      obtain ⟨added, step⟩ := read_round_sound fs loop
      rw [round] at step
      refine ⟨⟨added, step.1⟩, fun inside t same running path => ?_⟩
      subst same
      exact ⟨_, path.tail (.leave t fs value running round inside), rfl, rfl⟩
  exact run _ rfl rfl (.single (.enter s idle))

/-- A first read() and the process_read behind it. -/
theorem read_parsed (c : HttpConn) (fs : FileSystem) (results : List Recv)
    (inside : LengthInside (read results (init c).conn).conn) :
    ∃ t, Reached c t ∧ t.running = false ∧
      t.loop.conn = (processRead fs (read results (init c).conn).conn).conn := by
  have readable := read_readable results (shows_init c).readable
  have arrives := Step.read (start c) results rfl
  obtain ⟨t, steps, idle, conn⟩ :=
    process_read_steps
      (s := { start c with loop := ⟨.lineOk, (read results (init c).conn).conn, []⟩ })
      fs rfl ((process_read_inside_iff fs readable).mpr inside)
  exact ⟨t, .head arrives steps, idle, conn⟩

/-- The state between any two rounds, and the calls of do_request. -/
structure Ordered (s : Session) : Prop where
  started : s.loop.conn.startLine ≤ s.loop.conn.checkedIdx
  checked : s.loop.conn.checkedIdx ≤ s.loop.conn.readIdx
  room : s.loop.conn.readIdx ≤ readBufferSize
  url : PtrBelow s.loop.conn s.loop.conn.url
  version : PtrBelow s.loop.conn s.loop.conn.version
  host : PtrBelow s.loop.conn s.loop.conn.host
  moves : ∀ t, Step s t → CheckMove s.loop.conn.checkState t.loop.conn.checkState
  /-- the object handed to do_request is the one that the handler leaves -/
  asks : s.running = true → (nextLine s.loop).ret = .lineOk → (handled s.loop).ret = .getRequest →
    StoresInside (handled s.loop).log → s.lineAccepted ∧ (s.blankSeen ∨ SeesBlank s.loop) ∧
      ∃ offset, (handled s.loop).conn.url = .readBuf offset

theorem parse_state_ordered (c : HttpConn) (s : Session) (reached : Reached c s) : Ordered s := by
  have sound := reached.sound
  have start := sound.readable.start
  have position : (readerOf s.loop.conn).position =
    (readerOf s.loop.conn).start + (readerOf s.loop.conn).held.length := rfl
  have checked := sound.readable.checked
  have arrived := sound.readable.arrived
  refine ⟨by omega, by omega, sound.readable.room, sound.readable.url_below, sound.below.version,
    sound.below.host, fun t step => (sound.step step).2, fun _ complete get inside => ?_⟩
  have state := handled_state sound.readable complete inside
  obtain ⟨behind, blank⟩ := state.asks get
  obtain ⟨accepted, url⟩ := sound.accepted behind
  exact ⟨accepted, blank.imp_left sound.blank, by rw [state.url behind]; exact url⟩

/-- A request line and half a header, behind the call of process_read that parses them. -/
theorem parse_state_ordered_read : ∃ t, Reached .unused t ∧ t.running = false ∧
    t.loop.conn.checkState = .header ∧ Ordered t := by
  obtain ⟨t, reached, idle, conn⟩ := read_parsed .unused .empty
    [.data (ascii "GET / HTTP/1.1\r\nHost"), .again] (by decide +kernel)
  refine ⟨t, reached, idle, ?_, parse_state_ordered .unused t reached⟩
  rw [conn]
  decide +kernel

end Session

end Session

end StudyWebServer
