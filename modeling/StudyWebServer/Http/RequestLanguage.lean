import StudyWebServer.Http.KeepAlive

/-!
Which bytes process_read takes for a request without a body. The rounds of its
loop that lead to do_request are a relation of their own, since the value of
do_request can look like a refusal.
-/

namespace StudyWebServer

open ByteMemory CString MachineInt CrlfLines Layout

section DoRequest

/-- The handler that the switch of process_read calls in a round. -/
def handled (loop : ReadLoop) : Outcome HttpCode :=
  let c := (nextLine loop).conn
  match c.checkState with
  | .requestline => parseRequestLine c.startLine (startNextLine c)
  | .header => parseHeaders c.startLine (startNextLine c)
  | .content => parseContent c.startLine (startNextLine c)

theorem handled_request_line {loop : ReadLoop}
    (state : (nextLine loop).conn.checkState = .requestline) :
    handled loop = parseRequestLine (nextLine loop).conn.startLine
      (startNextLine (nextLine loop).conn) := by
  simp only [handled, state]

theorem handled_header {loop : ReadLoop}
    (state : (nextLine loop).conn.checkState = .header) :
    handled loop = parseHeaders (nextLine loop).conn.startLine
      (startNextLine (nextLine loop).conn) := by
  simp only [handled, state]

theorem handled_content {loop : ReadLoop}
    (state : (nextLine loop).conn.checkState = .content) :
    handled loop = parseContent (nextLine loop).conn.startLine
      (startNextLine (nextLine loop).conn) := by
  simp only [handled, state]

/-- Some round hands the object to do_request, with this log of what the call did
in front of it. -/
inductive Reaches (fs : FileSystem) : ReadLoop → List Effect → HttpConn → Prop where
  | again {loop next : ReadLoop} {log : List Effect} {d : HttpConn} :
      readRound fs loop = .inl next → Reaches fs next log d → Reaches fs loop log d
  | here {loop : ReadLoop} : (nextLine loop).ret = .lineOk → (handled loop).ret = .getRequest →
      Reaches fs loop (loop.log ++ (nextLine loop).log ++ (handled loop).log) (handled loop).conn

/-- process_read comes to do_request, and no store in front of it ends the process. -/
def ReachesDoRequest (fs : FileSystem) (c d : HttpConn) : Prop :=
  ∃ log, Reaches fs ⟨.lineOk, c, []⟩ log d ∧ Lands fs log

theorem parse_request_line_never_get (start : Nat) (c : HttpConn) :
    (parseRequestLine start c).ret ≠ .getRequest := by
  unfold parseRequestLine
  dsimp only
  repeat' (first | split | simp)

theorem parse_headers_never_bad (start : Nat) (c : HttpConn) :
    (parseHeaders start c).ret ≠ .badRequest := by
  unfold parseHeaders
  dsimp only
  split_ifs <;> simp

variable {fs : FileSystem}

/-- A round that hands the object to do_request returns what do_request does. -/
theorem read_round_here (fs : FileSystem) {loop : ReadLoop}
    (complete : (nextLine loop).ret = .lineOk)
    (get : (handled loop).ret = .getRequest) :
    readRound fs loop = .inr ⟨(doRequest fs (handled loop).conn).ret,
      (doRequest fs (handled loop).conn).conn,
      loop.log ++ (nextLine loop).log ++ (handled loop).log ++
        (doRequest fs (handled loop).conn).log⟩ := by
  rw [read_round_line complete, List.append_assoc _ (handled loop).log]
  unfold handled at get ⊢
  dsimp only at get ⊢
  cases state : (nextLine loop).conn.checkState with
  | requestline =>
      rw [state] at get
      exact absurd get (parse_request_line_never_get _ _)
  | header =>
      rw [state] at get
      dsimp only at get ⊢
      have next : (startNextLine (nextLine loop).conn).checkState = .header := state
      rw [handle_header next, get]
      rfl
  | content =>
      rw [state] at get
      dsimp only at get ⊢
      have next : (startNextLine (nextLine loop).conn).checkState = .content := state
      rw [handle_content next, get]
      rfl

/-- A round that returns without do_request reports NO_REQUEST or BAD_REQUEST. -/
theorem read_round_else {loop : ReadLoop} {value : Outcome HttpCode}
    (round : readRound fs loop = .inr value)
    (other : ¬ ((nextLine loop).ret = .lineOk ∧ (handled loop).ret = .getRequest)) :
    value.ret = .noRequest ∨ value.ret = .badRequest := by
  by_cases complete : (nextLine loop).ret = .lineOk
  · have none : (handled loop).ret ≠ .getRequest := fun get => other ⟨complete, get⟩
    rw [read_round_line complete] at round
    unfold handled at none
    dsimp only at none
    cases state : (nextLine loop).conn.checkState with
    | requestline =>
        have next : (startNextLine (nextLine loop).conn).checkState = .requestline := state
        rw [handle_request_line next] at round
        split at round
        · next bad =>
            cases round
            exact .inr bad
        · cases round
    | header =>
        rw [state] at none
        have next : (startNextLine (nextLine loop).conn).checkState = .header := state
        rw [handle_header next, if_neg (parse_headers_never_bad _ _), if_neg none] at round
        cases round
    | content =>
        rw [state] at none
        have next : (startNextLine (nextLine loop).conn).checkState = .content := state
        rw [handle_content next, if_neg none] at round
        cases round
  · rw [read_round_stop complete] at round
    cases round
    exact .inl rfl

theorem Reaches.value {loop : ReadLoop} {log : List Effect} {d : HttpConn}
    (reaches : Reaches fs loop log d) :
    Loop.run (readRound fs) readMeasure (read_round_decreases fs) loop =
      ⟨(doRequest fs d).ret, (doRequest fs d).conn, log ++ (doRequest fs d).log⟩ := by
  induction reaches with
  | again round _ ih => rwa [Loop.run_again round]
  | here complete get => rw [Loop.run_return (read_round_here fs complete get)]

theorem reaches_or_reports (fs : FileSystem) (loop : ReadLoop) :
    (∃ log d, Reaches fs loop log d) ∨
    (Loop.run (readRound fs) readMeasure (read_round_decreases fs) loop).ret = .noRequest ∨
    (Loop.run (readRound fs) readMeasure (read_round_decreases fs) loop).ret = .badRequest := by
  refine Loop.run_induction (motive := fun loop (value : Outcome HttpCode) =>
    (∃ log d, Reaches fs loop log d) ∨ value.ret = .noRequest ∨ value.ret = .badRequest) ?_ ?_ loop
  · intro loop next value round ih
    rcases ih with ⟨log, d, reaches⟩ | reports
    · exact .inl ⟨log, d, .again round reaches⟩
    · exact .inr reports
  · intro loop value round
    by_cases here : (nextLine loop).ret = .lineOk ∧ (handled loop).ret = .getRequest
    · exact .inl ⟨_, _, .here here.1 here.2⟩
    · exact .inr (read_round_else round here)

theorem Reaches.unique {loop : ReadLoop} {first second : List Effect} {d e : HttpConn}
    (one : Reaches fs loop first d) (two : Reaches fs loop second e) : d = e := by
  induction one with
  | again round _ ih =>
      cases two with
      | again round' later =>
          rw [round] at round'
          cases round'
          exact ih later
      | here complete get =>
          rw [read_round_here fs complete get] at round
          cases round
  | here complete get =>
      cases two with
      | again round' later =>
          rw [read_round_here fs complete get] at round'
          cases round'
      | here => rfl

/-- No round looks at the disk before do_request does. -/
theorem read_round_next {loop next : ReadLoop} (round : readRound fs loop = .inl next)
    (other : FileSystem) : readRound other loop = .inl next := by
  by_cases complete : (nextLine loop).ret = .lineOk
  · rw [read_round_line complete] at round ⊢
    unfold handleLine at round ⊢
    dsimp only at round ⊢
    split at round
    all_goals
      split_ifs at round ⊢ <;> first | exact round | (cases round)
  · rw [read_round_stop complete] at round
    cases round

theorem Reaches.disk {loop : ReadLoop} {log : List Effect} {d : HttpConn}
    (reaches : Reaches fs loop log d) (other : FileSystem) : Reaches other loop log d := by
  induction reaches with
  | again round _ ih => exact .again (read_round_next round other) ih
  | here complete get => exact .here complete get

/-- Where a round hands the object to do_request the reading of the stream is served. -/
theorem reaches_iff_served (fs : FileSystem) {c : HttpConn} {r : Reader} (shows : Shows c r) :
    (∃ log d, Reaches fs ⟨.lineOk, c, []⟩ log d) ↔ (readRequest r).verdict = .serve := by
  have agrees : Agrees .empty c _ _ := process_read_refines c r shows
  have result := agrees.result
  constructor
  · rintro ⟨log, d, reaches⟩
    have missing : (processRead .empty c).ret = .noResource :=
      congrArg Outcome.ret (reaches.disk .empty).value
    cases verdict : (readRequest r).verdict with
    | wait =>
        rw [verdict] at result
        rw [missing] at result
        exact absurd result.1 (by simp)
    | refuse =>
        rw [verdict] at result
        rw [missing] at result
        exact absurd result.1 (by simp)
    | serve => rfl
  · intro verdict
    rw [verdict] at result
    obtain ⟨d, ret, -⟩ := result
    have missing : (processRead .empty c).ret = .noResource := ret
    rcases reaches_or_reports .empty ⟨.lineOk, c, []⟩ with ⟨log, e, reaches⟩ | waits | refuses
    · exact ⟨log, e, reaches.disk fs⟩
    · exact absurd (missing.symm.trans waits) (by simp)
    · exact absurd (missing.symm.trans refuses) (by simp)

section Landing

/-- The NUL of parse_content behind this look. -/
def Look.Lands (fs : FileSystem) (look : Look) : Prop :=
  fs.MayWrite (readBufOffset + (look.line + look.length))

theorem InBounds.lands {log : List Effect} (safe : InBounds log) : Lands fs log := by
  intro effect member
  have inside := safe effect member
  cases effect with
  | store array index count =>
      intro k below
      have fits := array_end array
      obtain ⟨lower, upper⟩ := inside
      exact .inl ⟨by omega, by omega⟩
  | _ => trivial

theorem lands_append {first second : List Effect} :
    Lands fs (first ++ second) ↔ Lands fs first ∧ Lands fs second := by
  simp only [Lands, List.mem_append, or_imp, forall_and]

theorem parse_content_lands (fs : FileSystem) {c : HttpConn} {r : Reader}
    (shows : Shows c r) {line : Nat}
    (get : (parseContent line c).ret = .getRequest) : (lookAt line r).passes ∧
      (Lands fs (parseContent line c).log ↔ (lookAt line r).Lands fs) := by
  by_cases enough : toInt (c.contentLength + c.checkedIdx) ≤ c.readIdx
  · refine ⟨?_, ?_⟩
    · simpa [Look.passes, lookAt, shows.length, shows.checked, shows.arrived] using enough
    · rw [parse_content_enough line enough]
      simp [Lands, Effect.Lands, Look.Lands, lookAt, MemberArray.offset, shows.length]
  · rw [parse_content_short line enough] at get
    cases get

theorem body_look_passes {line : Nat} {next : Reader} (looks : List Look)
    (passes : (lookAt line next).passes) : ∃ reading, bodyLook line next looks = .inr reading ∧
      reading.looks = looks ++ [lookAt line next] :=
  ⟨_, if_pos passes, rfl⟩

/-- The round in the body that hands the object to do_request. -/
theorem body_round_here (fs : FileSystem) {loop : ReadLoop} {r : Reader} (looks : List Look)
    (shows : Shows loop.conn r) (body : r.phase = .content) (safe : InBounds loop.log)
    (complete : (nextLine loop).ret = .lineOk) (get : (handled loop).ret = .getRequest) :
    ∃ look reading, bodyRound ⟨loop.lineStatus = .lineOk, r, looks⟩ = .inr reading ∧
      reading.looks = looks ++ [look] ∧ look.passes ∧
      (Lands fs (loop.log ++ (nextLine loop).log ++ (handled loop).log) ↔ look.Lands fs) := by
  have state : loop.conn.checkState = .content := shows.phase.trans body
  by_cases ready : loop.lineStatus = .lineOk
  · have skips : nextLine loop = ⟨.lineOk, loop.conn, []⟩ := if_pos ⟨state, ready⟩
    rw [handled_content (by rw [skips]; exact state), skips, shows.start] at get ⊢
    obtain ⟨passes, lands⟩ := parse_content_lands fs shows.startNextLine get
    obtain ⟨reading, look, all⟩ := body_look_passes looks passes
    refine ⟨_, reading, ?_, all, passes, ?_⟩
    · simp only [bodyRound, ready, decide_true, ↓reduceIte]
      exact look
    · rw [List.append_nil, lands_append, and_iff_right safe.lands]
      exact lands
  · have scans : nextLine loop = parseLine loop.conn := if_neg fun both => ready both.2
    obtain ⟨lineSafe, scanned⟩ := shows.parse_line
    cases found : scan r.unread with
    | stopped passed rest =>
        rw [found] at scanned
        rw [scans] at complete
        exact absurd complete scanned.1
    | line line rest =>
        rw [found] at scanned
        obtain ⟨showsNext, -⟩ := shows.nextLine found
        have start : (parseLine loop.conn).conn.startLine = r.start := by
          rw [scanned.2]
          exact shows.start
        have kept : (nextLine loop).conn.checkState = .content := by
          rw [scans, scanned.2]
          exact state
        rw [handled_content kept, scans, start, scanned.2] at get ⊢
        obtain ⟨passes, lands⟩ := parse_content_lands fs showsNext get
        obtain ⟨reading, look, all⟩ := body_look_passes looks passes
        refine ⟨_, reading, ?_, all, passes, ?_⟩
        · simp only [bodyRound, ready, decide_false, Bool.false_eq_true, ↓reduceIte, found]
          exact look
        · rw [lands_append, lands_append, and_iff_right ⟨safe.lands, lineSafe.lands⟩]
          exact lands

/-- The round in the head that hands the object to do_request, behind an empty line. -/
theorem head_round_here {loop : ReadLoop} {r : Reader} (shows : Shows loop.conn r)
    (head : r.phase ≠ .content) (safe : InBounds loop.log)
    (complete : (nextLine loop).ret = .lineOk) (get : (handled loop).ret = .getRequest) :
    ∃ after, headRound r = .inr (.complete after) ∧ after.contentLength = 0 ∧
      InBounds (loop.log ++ (nextLine loop).log ++ (handled loop).log) := by
  have scans : nextLine loop = parseLine loop.conn := if_neg fun both => head (shows.phase ▸ both.1)
  obtain ⟨lineSafe, scanned⟩ := shows.parse_line
  cases found : scan r.unread with
  | stopped passed rest =>
      rw [found] at scanned
      rw [scans] at complete
      exact absurd complete scanned.1
  | line line rest =>
      rw [found] at scanned
      obtain ⟨showsNext, held⟩ := shows.nextLine found
      have start : (parseLine loop.conn).conn.startLine = r.start := by
        rw [scanned.2]
        exact shows.start
      have phase : (nextLine loop).conn.checkState = r.phase := by
        rw [scans, scanned.2]
        exact shows.phase
      have header : r.phase = .header := by
        cases state : r.phase with
        | requestline =>
            rw [handled_request_line (phase.trans state)] at get
            exact absurd get (parse_request_line_never_get _ _)
        | header => rfl
        | content => exact absurd state head
      have room : r.position + line.length + 2 ≤ readBufferSize := by
        have bound := showsNext.room
        have arrived := showsNext.arrived
        have place : (r.turn (line.length + 2) rest).position = r.position + (line.length + 2) :=
          rfl
        omega
      rw [handled_header (phase.trans header), scans, start, scanned.2] at get ⊢
      rw [head_round_line found, headLine, if_neg (by rw [header]; simp)]
      by_cases blank : text (r.held ++ line) = []
      · rw [blank] at held
        have readLine := read_string_in_bounds held room
        have parsed := parse_headers_blank
          (c := startNextLine (cutLine loop.conn (loop.conn.checkedIdx + line.length))) held
        rw [parsed] at get ⊢
        have empty : r.contentLength = 0 := by
          by_contra declares
          rw [if_pos (showsNext.length ▸ declares)] at get
          cases get
        rw [if_pos blank, if_neg (not_not_intro (showsNext.length.trans empty))]
        exact ⟨_, rfl, empty, in_bounds_append.mpr
          ⟨in_bounds_append.mpr ⟨safe, lineSafe⟩, readLine⟩⟩
      · rw [(parse_headers_refines showsNext held room blank).1] at get
        cases get

/-- Of the stores in front of do_request only the one in the body can miss the object. -/
theorem Reaches.lands_iff {loop : ReadLoop} {log : List Effect} {d : HttpConn}
    (reaches : Reaches fs loop log d) : ∀ r looks, Shows loop.conn r →
      (r.phase ≠ .content → looks = []) →
      (InBounds loop.log ↔ ∀ look ∈ looks, look.Safe) →
      (∀ look ∈ looks, ¬ look.passes ∧ look.Safe) →
      (Lands fs log ↔ ∀ look ∈ (readingFrom loop.lineStatus looks r).looks,
        look.passes → look.Lands fs) := by
  -- Induction on the rounds, the looks so far having failed.
  induction reaches with
  | again round _ ih =>
      intro r looks shows head safe fails
      obtain ⟨after, more, goes⟩ := read_round_goes round shows head safe
      have rest := ih after (looks ++ more) goes.shows goes.head goes.safe
        (List.forall_mem_append.mpr ⟨fails, goes.fails⟩)
      rwa [← goes.reading] at rest
  | @here loop complete get =>
      intro r looks shows head safe fails
      by_cases body : r.phase = .content
      · obtain ⟨look, reading, round, all, passes, lands⟩ := body_round_here fs looks shows
          body (safe.mpr fun look member => (fails look member).2) complete get
        rw [readingFrom, if_pos body, Loop.run_return round, all, lands]
        constructor
        · intro stored other member passed
          rcases List.mem_append.mp member with earlier | last
          · exact absurd passed (fails other earlier).1
          · rwa [List.mem_singleton.mp last]
        · exact fun every => every look (by simp) passes
      · have none := head body
        subst none
        obtain ⟨after, round, empty, log⟩ :=
          head_round_here shows body (safe.mpr (by simp)) complete get
        rw [readingFrom, if_neg body, read_head_return round, afterHead, if_pos empty]
        exact iff_of_true log.lands (by simp)

/-- The call comes to do_request if the reading is served and the NUL of each look
that passes lands. -/
theorem reaches_do_request_iff (fs : FileSystem) {c : HttpConn} {r : Reader} (shows : Shows c r) :
    (∃ d, ReachesDoRequest fs c d) ↔ (readRequest r).verdict = .serve ∧
      ∀ look ∈ (readRequest r).looks, look.passes → look.Lands fs := by
  have start : ∀ {log d}, Reaches fs ⟨.lineOk, c, []⟩ log d →
      (Lands fs log ↔ ∀ look ∈ (readRequest r).looks, look.passes → look.Lands fs) :=
    fun reaches => reaches.lands_iff r [] shows (fun _ => rfl) (by simp) (by simp)
  rw [← reaches_iff_served fs shows]
  constructor
  · rintro ⟨d, log, reaches, lands⟩
    exact ⟨⟨log, d, reaches⟩, (start reaches).mp lands⟩
  · rintro ⟨⟨log, d, reaches⟩, lands⟩
    exact ⟨d, log, reaches, (start reaches).mpr lands⟩

end Landing

theorem do_request_same (fs : FileSystem) (d : HttpConn) :
    urlString fs (doRequest fs d).conn = urlString fs d ∧
    (doRequest fs d).conn.linger = d.linger ∧
    (doRequest fs d).conn.contentLength = d.contentLength := by
  unfold doRequest
  dsimp only
  split
  · exact ⟨rfl, rfl, rfl⟩
  · split_ifs <;> exact ⟨rfl, rfl, rfl⟩

theorem ReachesDoRequest.unique {c d e : HttpConn} (one : ReachesDoRequest fs c d)
    (two : ReachesDoRequest fs c e) : d = e := by
  obtain ⟨_, one, -⟩ := one
  obtain ⟨_, two, -⟩ := two
  exact one.unique two

theorem ReachesDoRequest.answered {c d : HttpConn} {r : Reader}
    (reaches : ReachesDoRequest fs c d) (shows : Shows c r) :
    Answered fs d (readRequest r).reader := by
  obtain ⟨log, reaches, -⟩ := reaches
  have agrees : Agrees fs c _ _ := process_read_refines c r shows
  have result := agrees.result
  rw [(reaches_iff_served fs shows).mp ⟨log, d, reaches⟩] at result
  obtain ⟨e, -, conn, answered, -⟩ := result
  have same : (doRequest fs d).conn = (doRequest fs e).conn :=
    (congrArg Outcome.conn reaches.value).symm.trans conn
  obtain ⟨url, linger, length⟩ := do_request_same fs d
  obtain ⟨url', linger', length'⟩ := do_request_same fs e
  rw [same] at url linger length
  exact ⟨url.symm.trans (url'.trans answered.url),
    linger.symm.trans (linger'.trans answered.linger),
    length.symm.trans (length'.trans answered.length)⟩

end DoRequest

section Lines

/-- The object after init() with nothing but the text of this line in its buffer. -/
def lineAlone (line : List UInt8) : HttpConn := appendRead (text line) (init .unused).conn

/-- parse_request_line takes the line. -/
def Acceptable (line : List UInt8) : Prop := (parseRequestLine 0 (lineAlone line)).ret = .noRequest

instance (line : List UInt8) : Decidable (Acceptable line) := inferInstanceAs (Decidable (_ = _))

/-- The string at m_url behind that. -/
def urlOf (fs : FileSystem) (line : List UInt8) : List UInt8 :=
  urlString fs (parseRequestLine 0 (lineAlone line)).conn

/-- The bytes begin with a request line, header lines and a line without text. -/
structure BodyLess (bytes first : List UInt8) (headers : List (List UInt8))
    (last behind : List UInt8) : Prop where
  bytes : bytes = joinLines (first :: headers) ++ (last ++ crlf ++ behind)
  plain : ∀ line ∈ first :: headers, Plain line
  plainLast : Plain last
  acceptable : Acceptable first
  visible : ∀ line ∈ headers, text line ≠ []
  blank : text last = []

/-- None of the lines that the bytes begin with gives a length. -/
def NoLength (bytes : List UInt8) : Prop :=
  ∀ lines behind, bytes = joinLines lines ++ behind → (∀ line ∈ lines, Plain line) →
    ∀ line ∈ lines, lengthLine (text line) = false

/-- Connection: and keep-alive with blanks and tabs between them. -/
def KeepAlive (line : List UInt8) : Prop :=
  ∃ name gap value, line = name ++ gap ++ value ∧ strcasecmpEq name (ascii "Connection:") = true ∧
    (∀ byte ∈ gap, byte = 32 ∨ byte = 9) ∧ strcasecmpEq value (ascii "keep-alive") = true

theorem no_length_stopped {bytes passed rest : List UInt8}
    (found : scan bytes = .stopped passed rest) : NoLength bytes := by
  intro lines behind parts plain line member
  cases lines with
  | nil => cases member
  | cons first later =>
      have complete := scan_line (plain first List.mem_cons_self) (joinLines later ++ behind)
      have same : bytes = first ++ 13 :: 10 :: (joinLines later ++ behind) := by
        rw [parts]
        simp [joinLines, crlf]
      rw [← same, found] at complete
      cases complete

theorem no_length_line {bytes first rest : List UInt8} (found : scan bytes = .line first rest)
    (other : lengthLine (text first) = false) (later : NoLength rest) : NoLength bytes := by
  intro lines behind parts plain line member
  cases lines with
  | nil => cases member
  | cons head tail =>
      have complete := scan_line (plain head List.mem_cons_self) (joinLines tail ++ behind)
      have same : bytes = head ++ 13 :: 10 :: (joinLines tail ++ behind) := by
        rw [parts]
        simp [joinLines, crlf]
      rw [← same, found] at complete
      cases complete
      rcases List.mem_cons.mp member with rfl | inside
      · exact other
      · exact later tail behind rfl (fun line member => plain line (List.mem_cons_of_mem _ member))
          line inside

theorem mem_blanks {byte : UInt8} : byte ∈ blanks ↔ byte = 32 ∨ byte = 9 := by
  have both : blanks = [32, 9] := by decide
  simp [both]

/-- What stands behind the name of a header and the blanks. -/
theorem header_value {name gap value : List UInt8} {count : Nat} (width : name.length = count)
    (blank : ∀ byte ∈ gap, byte = 32 ∨ byte = 9) (starts : ∀ byte ∈ value.head?, byte ∉ blanks) :
    ((name ++ (gap ++ value)).drop count).drop
      (strspn ((name ++ (gap ++ value)).drop count) blanks) = value := by
  have skipped : strspn (gap ++ value) blanks = gap.length :=
    strspn_append (fun byte member => mem_blanks.mpr (blank byte member)) starts
  rw [← width, List.drop_left, skipped, List.drop_left]

theorem keep_alive_starts {value : List UInt8}
    (same : strcasecmpEq value (ascii "keep-alive") = true) :
    ∀ byte ∈ value.head?, byte ∉ blanks := by
  intro byte head blank
  cases value with
  | nil => cases head
  | cons first rest =>
      have head : first = byte := by simpa using head
      subst head
      have lower : (first :: rest).map toLower = (ascii "keep-alive").map toLower := by
        simpa [strcasecmpEq] using same
      have key : toLower first = 107 := (List.cons.inj lower).1
      rcases mem_blanks.mp blank with rfl | rfl <;> exact absurd key (by decide)

theorem keep_alive_line_iff (line : List UInt8) : keepAliveLine line = true ↔ KeepAlive line := by
  unfold keepAliveLine
  dsimp only
  rw [Bool.and_eq_true]
  constructor
  · rintro ⟨name, value⟩
    refine ⟨line.take 11, (line.drop 11).take (strspn (line.drop 11) blanks),
      (line.drop 11).drop (strspn (line.drop 11) blanks), ?_, name, ?_, value⟩
    · rw [List.append_assoc, List.take_append_drop, List.take_append_drop]
    · intro byte member
      have prefixed : (line.drop 11).take (strspn (line.drop 11) blanks) =
          (line.drop 11).takeWhile fun byte => blanks.contains byte :=
        (List.prefix_iff_eq_take.mp (List.takeWhile_prefix _)).symm
      rw [prefixed] at member
      exact mem_blanks.mp (by simpa using List.mem_takeWhile_imp member)
  · rintro ⟨name, gap, value, rfl, named, blank, kept⟩
    have width : name.length = 11 := strcasecmp_length named
    rw [List.append_assoc]
    have taken : (name ++ (gap ++ value)).take 11 = name := by rw [← width, List.take_left]
    constructor
    · rw [strncasecmpEq, taken]
      exact named
    · rw [header_value width blank (keep_alive_starts kept)]
      exact kept

theorem line_alone_held {line : List UInt8} (short : line.length < readBufferSize) :
    Terminated (lineAlone line).readBuf readBufferSize 0 (text line) := by
  have narrow : (text line).length ≤ line.length := (List.takeWhile_prefix _).length_le
  have fresh : (init .unused).conn.readIdx = 0 := (shows_init .unused).arrived
  have stored : (lineAlone line).readBuf = storeList (init .unused).conn.readBuf 0 (text line) := by
    rw [lineAlone, appendRead, fresh]
  constructor
  · rw [stored]
    exact slice_store_list (text line)
  · rw [stored, store_list_after (text line) (Nat.le_refl _), init_conn]
    exact if_pos (by omega)
  · omega
  · intro member
    have visible : ((0 : UInt8) != 0) = true := List.mem_takeWhile_imp (p := (· != 0)) member
    exact absurd visible (by decide)

theorem acceptable_iff {line : List UInt8} (short : line.length < readBufferSize) :
    Acceptable line ↔ (requestLine 0 (text line)).accepted = true := by
  have parsed := parse_request_line_refines (lineAlone line) (line_alone_held short) (Nat.le_refl _)
  rw [Acceptable, parsed.ret]
  split <;> simp [*]

theorem url_of_eq (fs : FileSystem) {line : List UInt8} (short : line.length < readBufferSize) :
    urlOf fs line = ((requestLine 0 (text line)).url.map Url.string).getD fs.elsewhere :=
  (parse_request_line_refines (lineAlone line) (line_alone_held short)
    (Nat.le_refl _)).url.urlString_eq
    (Nat.le_refl _)

end Lines

section Head

/-- Header lines and the line without text behind them. -/
structure HeaderBlock (bytes : List UInt8) (headers : List (List UInt8))
    (last behind : List UInt8) :
    Prop where
  bytes : bytes = joinLines headers ++ (last ++ crlf ++ behind)
  plain : ∀ line ∈ headers, Plain line
  plainLast : Plain last
  visible : ∀ line ∈ headers, text line ≠ []
  blank : text last = []

/-- The line without text that ends a head. -/
theorem read_head_last {r : Reader} {last behind : List UInt8}
    (facing : Facing r .header (last ++ crlf ++ behind)) (plain : Plain last)
    (blank : text last = []) : readHead r = .complete (r.takeLine last) := by
  obtain ⟨found, taken⟩ := facing_line facing plain
  have other : r.phase ≠ .requestline := by rw [facing.phase]; simp
  apply read_head_return
  rw [head_round_line found, facing.held, List.nil_append, headLine,
    if_neg other, if_pos blank, taken]

/-- A complete head read from a line's start consists of header lines and a line
without text. -/
theorem complete_headers (r : Reader) : ∀ bytes h, Facing r .header bytes →
    readHead r = .complete h → ∃ headers last behind, HeaderBlock bytes headers last behind := by
  -- along the rounds of the head, whose bytes are what the scanner has in front of it
  refine Loop.run_induction (motive := fun (r : Reader) (head : Head) => ∀ bytes h,
    Facing r .header bytes → head = .complete h →
      ∃ headers last behind, HeaderBlock bytes headers last behind) ?_ ?_ r
  · intro r next head round ih bytes h facing complete
    have other : r.phase ≠ .requestline := by rw [facing.phase]; simp
    cases found : scan r.unread with
    | stopped passed rest =>
        rw [head_round_stopped found] at round
        cases round
    | line line rest =>
        obtain ⟨parts, plain⟩ := scan_line_split found
        rw [head_round_line found, facing.held, List.nil_append, headLine, if_neg other] at round
        by_cases visible : text line = []
        · rw [if_pos visible] at round
          cases round
        · rw [if_neg visible] at round
          cases round
          have next : Facing (headerLine (text line)
              (r.turn (line.length + 2) rest)) .header rest :=
            ⟨(header_line_phase _ _).trans facing.phase, header_line_held _ _,
              header_line_unread _ _⟩
          obtain ⟨headers, last, behind, block⟩ := ih rest h next complete
          refine ⟨line :: headers, last, behind, ?_, List.forall_mem_cons.mpr ⟨plain, block.plain⟩,
            block.plainLast, List.forall_mem_cons.mpr ⟨visible, block.visible⟩, block.blank⟩
          rw [← facing.unread, parts, block.bytes]
          simp [joinLines, crlf]
  · intro r head round bytes h facing complete
    have other : r.phase ≠ .requestline := by rw [facing.phase]; simp
    cases found : scan r.unread with
    | stopped passed rest =>
        rw [head_round_stopped found] at round
        cases round
        cases complete
    | line line rest =>
        obtain ⟨parts, plain⟩ := scan_line_split found
        rw [head_round_line found, facing.held, List.nil_append, headLine, if_neg other] at round
        by_cases blank : text line = []
        · refine ⟨[], line, rest, ?_, by simp, plain, by simp, blank⟩
          rw [← facing.unread, parts]
          simp [joinLines, crlf]
        · rw [if_neg blank] at round
          cases round

theorem complete_lines {bytes : List UInt8} {h : Reader}
    (complete : readHead (Reader.fresh.feed bytes) = .complete h) :
    ∃ first rest, bytes = first ++ crlf ++ rest ∧ Plain first ∧
      (requestLine 0 (text first)).accepted = true ∧
      ∃ headers last behind, HeaderBlock rest headers last behind := by
  cases found : scan bytes with
  | stopped passed rest =>
      rw [read_head_return (head_round_stopped (r := Reader.fresh.feed bytes) found)] at complete
      cases complete
  | line first rest =>
      obtain ⟨parts, plain⟩ := scan_line_split found
      have split : bytes = first ++ crlf ++ rest := by
        rw [parts]
        simp [crlf]
      have facing : Facing (Reader.fresh.feed bytes) .requestline (first ++ crlf ++ rest) :=
        ⟨rfl, rfl, split⟩
      by_cases accepted : (requestLine 0 (text first)).accepted = true
      · obtain ⟨same, next⟩ := read_head_request_line facing plain accepted
        exact ⟨first, rest, split, plain, accepted,
          complete_headers _ rest h next (same.symm.trans complete)⟩
      · have round := head_round_line (r := Reader.fresh.feed bytes) found
        rw [headLine, if_pos facing.phase] at round
        have refused : ¬ (requestLine (Reader.fresh.feed bytes).start
          (text ((Reader.fresh.feed bytes).held ++ first))).accepted = true := accepted
        dsimp only at round
        rw [if_neg refused] at round
        rw [read_head_return round] at complete
        cases complete

theorem take_headers_url (headers : List (List UInt8)) (r : Reader) :
    (headers.foldl takeHeader r).url = r.url := by
  induction headers generalizing r with
  | nil => rfl
  | cons line headers ih =>
      rw [List.foldl_cons, ih, takeHeader, header_line_url]
      rfl

variable {bytes first last behind : List UInt8} {headers : List (List UInt8)}

theorem BodyLess.first_short (request : BodyLess bytes first headers last behind)
    (short : bytes.length ≤ readBufferSize) : first.length < readBufferSize := by
  have parts := congrArg List.length request.bytes
  have two : crlf.length = 2 := rfl
  simp only [joinLines, List.flatMap_cons, List.length_append] at parts
  omega

theorem BodyLess.complete (request : BodyLess bytes first headers last behind)
    (short : bytes.length ≤ readBufferSize) : readHead (Reader.fresh.feed bytes) =
      .complete ((takeHead first headers (Reader.fresh.feed bytes)).takeLine last) := by
  have facing : Facing (Reader.fresh.feed bytes) .requestline
      (joinLines (first :: headers) ++ (last ++ crlf ++ behind)) := ⟨rfl, rfl, request.bytes⟩
  obtain ⟨same, next⟩ := read_head_lines facing request.plain
    ((acceptable_iff (request.first_short short)).mp request.acceptable) request.visible
  exact same.trans (read_head_last next request.plainLast request.blank)

/-- What is served, the header lines giving no length. -/
theorem BodyLess.served (request : BodyLess bytes first headers last behind)
    (short : bytes.length ≤ readBufferSize)
    (noLength : ∀ line ∈ headers, lengthLine (text line) = false) :
    (readRequest (Reader.fresh.feed bytes)).verdict = .serve ∧
    (readRequest (Reader.fresh.feed bytes)).looks = [] ∧
    (readRequest (Reader.fresh.feed bytes)).reader =
      (takeHead first headers (Reader.fresh.feed bytes)).takeLine last := by
  have length : ((takeHead first headers (Reader.fresh.feed bytes)).takeLine last).contentLength =
      0 :=
    take_headers_length headers _ noLength
  rw [readRequest, if_neg (fresh_phase bytes), request.complete short, afterHead, if_pos length]
  exact ⟨rfl, rfl, rfl⟩

end Head

section Language
variable {fs : FileSystem} {bytes first last behind : List UInt8} {headers : List (List UInt8)}

theorem BodyLess.reaches (fs : FileSystem) (request : BodyLess bytes first headers last behind)
    (short : bytes.length ≤ readBufferSize)
    (noLength : ∀ line ∈ headers, lengthLine (text line) = false) (c : HttpConn) :
    ∃ d, (∀ e, ReachesDoRequest fs (appendRead bytes (init c).conn) e ↔ e = d) ∧
      urlString fs d = urlOf fs first ∧
      (d.linger = true ↔ ∃ line ∈ headers, KeepAlive (text line)) := by
  have shows := init_shows_feed c short
  obtain ⟨served, looks, reader⟩ := request.served short noLength
  obtain ⟨d, reaches⟩ := (reaches_do_request_iff fs shows).mpr ⟨served, by simp [looks]⟩
  have answered := reaches.answered shows
  rw [reader] at answered
  refine ⟨d, fun e => ⟨fun other => other.unique reaches, fun same => same ▸ reaches⟩, ?_, ?_⟩
  · have url : ((takeHead first headers (Reader.fresh.feed bytes)).takeLine last).url =
        (requestLine 0 (text first)).url := take_headers_url headers _
    rw [answered.url, url, url_of_eq fs (request.first_short short)]
  · have linger : ((takeHead first headers (Reader.fresh.feed bytes)).takeLine last).linger =
        (false || headers.any fun line => keepAliveLine (text line)) :=
          take_headers_linger headers _
    rw [answered.linger, linger, Bool.false_or, List.any_eq_true]
    simp only [keep_alive_line_iff]

/-- process_read comes to do_request for the body-less requests and for no other
bytes, with the URL of the request line and keep-alive if a header line asks for
it. What follows the empty line has no part in it. -/
theorem body_less_requests (fs : FileSystem) (c : HttpConn) (bytes : List UInt8)
    (short : bytes.length < readBufferSize) (noLength : NoLength bytes) :
    ((∃ d, ReachesDoRequest fs (appendRead bytes (init c).conn) d) ↔
      ∃ first headers last behind, BodyLess bytes first headers last behind) ∧
    ∀ first headers last behind, BodyLess bytes first headers last behind →
      ∀ other, (joinLines (first :: headers) ++ (last ++ crlf ++ other)).length < readBufferSize →
        ∃ d, (∀ e, ReachesDoRequest fs (appendRead
            (joinLines (first :: headers) ++ (last ++ crlf ++ other)) (init c).conn) e ↔ e = d) ∧
          urlString fs d = urlOf fs first ∧
          (d.linger = true ↔ ∃ line ∈ headers, KeepAlive (text line)) := by
  have lengths : ∀ {first headers last behind}, BodyLess bytes first headers last behind →
      ∀ line ∈ headers, lengthLine (text line) = false := fun request line member =>
    noLength _ _ request.bytes request.plain line (List.mem_cons_of_mem _ member)
  refine ⟨⟨?_, ?_⟩, ?_⟩
  · rintro reached
    have served :=
      ((reaches_do_request_iff fs (init_shows_feed c (Nat.le_of_lt short))).mp reached).1
    -- The reader serves only behind a complete head, and its lines are those of the request.
    rw [readRequest, if_neg (fresh_phase bytes)] at served
    cases head : readHead (Reader.fresh.feed bytes) with
    | waiting w =>
        rw [head] at served
        cases served
    | refused w =>
        rw [head] at served
        cases served
    | complete h =>
        obtain ⟨first, rest, parts, plain, accepted, headers, last, behind, block⟩ :=
          complete_lines head
        have firstShort : first.length < readBufferSize := by
          have total := congrArg List.length parts
          simp only [List.length_append] at total
          omega
        refine ⟨first, headers, last, behind, ?_, List.forall_mem_cons.mpr ⟨plain, block.plain⟩,
          block.plainLast, (acceptable_iff firstShort).mpr accepted, block.visible, block.blank⟩
        rw [parts, block.bytes]
        simp [joinLines]
  · rintro ⟨first, headers, last, behind, request⟩
    obtain ⟨d, only, -⟩ := request.reaches fs (Nat.le_of_lt short) (lengths request) c
    exact ⟨d, (only d).mpr rfl⟩
  · intro first headers last behind request other otherShort
    have same : BodyLess (joinLines (first :: headers) ++
        (last ++ crlf ++ other)) first headers last
        other := ⟨rfl, request.plain, request.plainLast, request.acceptable, request.visible,
          request.blank⟩
    exact same.reaches fs (Nat.le_of_lt otherShort) (lengths request) c

def keepAliveRequest : List UInt8 := ascii "GET /a HTTP/1.1\r\nConnection: Keep-Alive\r\n\r\nmore"

theorem keep_alive_request_no_length : NoLength keepAliveRequest := by
  have behind : scan (ascii "more") = .stopped (ascii "more") [] := by decide
  have blank : scan (ascii "\r\nmore") = .line [] (ascii "more") := by decide
  have header : scan (ascii "Connection: Keep-Alive\r\n\r\nmore") =
    .line (ascii "Connection: Keep-Alive") (ascii "\r\nmore") := by decide
  have first : scan keepAliveRequest =
    .line (ascii "GET /a HTTP/1.1") (ascii "Connection: Keep-Alive\r\n\r\nmore") := by decide
  exact no_length_line first (by decide) (no_length_line header (by decide)
    (no_length_line blank (by decide) (no_length_stopped behind)))

/-- It is served for its URL, and its connection is to be kept. -/
theorem body_less_requests_keep_alive : ∃ d,
    ReachesDoRequest .empty (appendRead keepAliveRequest (init .unused).conn) d ∧
      urlString .empty d = ascii "/a" ∧ d.linger = true := by
  have request : BodyLess keepAliveRequest (ascii "GET /a HTTP/1.1")
      [ascii "Connection: Keep-Alive"]
      [] (ascii "more") :=
    ⟨by decide, by decide, by decide, by decide +kernel, by decide, by decide⟩
  obtain ⟨d, only, url, linger⟩ := (body_less_requests .empty .unused keepAliveRequest (by decide)
    keep_alive_request_no_length).2 _ _ _ _ request (ascii "more") (by decide)
  rw [← request.bytes] at only
  refine ⟨d, (only d).mpr rfl, url.trans (by decide +kernel),
    linger.mpr ⟨_, List.mem_singleton_self _, ?_⟩⟩
  exact (keep_alive_line_iff _).mp (by decide)

end Language

end StudyWebServer
