import StudyWebServer.Http.RequestLanguage
import StudyWebServer.Http.Segmentation
import StudyWebServer.Lesson05.Termination

/-!
The two versions of process_read on the same bytes after init(). The earlier one
never comes to do_request, since the test for an empty line assigns. It agrees
with the later one only where that one waits for more.
-/

namespace StudyWebServer

open ByteMemory CString MachineInt CrlfLines

/-- How process_read of the later version is left. -/
def Leaves (fs : FileSystem) (c : HttpConn) : Lesson05.Exit → Prop
  | .reports code d => (∀ e, ¬ ReachesDoRequest fs c e) ∧ (processRead fs c).ret = code ∧
      (processRead fs c).conn = d
  | .request d => ReachesDoRequest fs c d

/-- The same report, or do_request on the same URL with the same m_linger and
m_content_length. -/
def SameExit (fs : FileSystem) : Lesson05.Exit → Lesson05.Exit → Prop
  | .reports code _, .reports other _ => code = other
  | .request c, .request d => urlString fs c = urlString fs d ∧ c.linger = d.linger ∧
      c.contentLength = d.contentLength
  | _, _ => False

/-- Both versions return, and in the same way. -/
def ParsersAgree (fs : FileSystem) (c d : HttpConn) (bytes : List UInt8) : Prop :=
  ∃ exit other, Loop.Ends Lesson05.readRound ⟨.lineOk, appendRead bytes (Lesson05.init c)⟩ exit ∧
    Leaves fs (appendRead bytes (init d).conn) other ∧ SameExit fs exit other

/-- m_content_length behind a header line. -/
def lengthBehind (length : Int) (line : List UInt8) : Int :=
  if strncasecmpEq line (ascii "Connection:") 11 then length
  else if lengthLine line then
    let value := line.drop 15
    toInt (atol (value.drop (strspn value blanks)))
  else length

def givenLength (headers : List (List UInt8)) : Int :=
  headers.foldl (fun length line => lengthBehind length (text line)) 0

/-- Behind the first line the head does not end, or it gives a length that the
bytes behind it do not reach. -/
def Unfinished (bytes rest : List UInt8) : Prop :=
  ∀ headers last behind, HeaderBlock rest headers last behind →
    givenLength headers ≠ 0 ∧
      ¬ Taken (bytes.length - behind.length) (givenLength headers) [] behind

/-- The bytes begin with a line that webserver takes, and the request goes on. -/
def FirstLineTaken (bytes : List UInt8) : Prop :=
  ∃ first rest, bytes = first ++ crlf ++ rest ∧ Plain first ∧ Acceptable first ∧
    Unfinished bytes rest

/-- The bytes do not begin with a line, lesson05 takes them for one all the same,
and there is a CR LF further on. -/
def LineTakenEarly (c : HttpConn) (bytes : List UInt8) : Prop :=
  (∀ first rest, bytes = first ++ crlf ++ rest → ¬ Plain first) ∧
  (Lesson05.parseRequestLine 0 (appendRead bytes (Lesson05.init c))).ret = .noRequest ∧
  ∃ before behind, bytes = before ++ crlf ++ behind

section Later
variable {fs : FileSystem} {bytes : List UInt8}

theorem header_line_given (line : List UInt8) (r : Reader) :
    (headerLine line r).contentLength = lengthBehind r.contentLength line := by
  unfold headerLine lengthBehind lengthLine
  dsimp only
  split_ifs <;> rfl

theorem take_headers_given (headers : List (List UInt8)) (r : Reader) :
    (headers.foldl takeHeader r).contentLength =
      headers.foldl (fun length line => lengthBehind length (text line)) r.contentLength := by
  induction headers generalizing r with
  | nil => rfl
  | cons line headers ih =>
      rw [List.foldl_cons, List.foldl_cons, ih, takeHeader, header_line_given]
      rfl

theorem read_head_never_refused (r : Reader) : r.phase = .header → ∀ w,
    readHead r ≠ .refused w := by
  refine Loop.run_induction (motive := fun (r : Reader) (head : Head) => r.phase = .header →
    ∀ w, head ≠ .refused w) ?_ ?_ r
  · intro r next head round ih header
    have other : r.phase ≠ .requestline := by rw [header]; simp
    cases found : scan r.unread with
    | stopped passed rest =>
        rw [head_round_stopped found] at round
        cases round
    | line line rest =>
        rw [head_round_line found, headLine, if_neg other] at round
        split_ifs at round
        cases round
        exact ih ((header_line_phase _ _).trans header)
  · intro r head round header w
    have other : r.phase ≠ .requestline := by rw [header]; simp
    cases found : scan r.unread with
    | stopped passed rest =>
        rw [head_round_stopped found] at round
        cases round
        simp
    | line line rest =>
        rw [head_round_line found, headLine, if_neg other] at round
        split_ifs at round
        cases round
        simp

theorem stopped_waits {passed rest : List UInt8} (found : scan bytes = .stopped passed rest) :
    (readRequest (Reader.fresh.feed bytes)).verdict = .wait := by
  rw [readRequest, if_neg (fresh_phase bytes),
    read_head_return (head_round_stopped (r := Reader.fresh.feed bytes) found)]
  rfl

theorem line_refused {first rest : List UInt8} (parts : bytes = first ++ crlf ++ rest)
    (plain : Plain first) (refused : ¬ (requestLine 0 (text first)).accepted = true) :
    (readRequest (Reader.fresh.feed bytes)).verdict = .refuse := by
  have facing : Facing (Reader.fresh.feed bytes) .requestline (first ++ crlf ++ rest) :=
    ⟨rfl, rfl, parts⟩
  have round := head_round_line (facing_line facing plain).1
  have bad : ¬ (requestLine (Reader.fresh.feed bytes).start
    (text ((Reader.fresh.feed bytes).held ++ first))).accepted = true := refused
  rw [headLine, if_pos facing.phase] at round
  dsimp only at round
  rw [if_neg bad] at round
  rw [readRequest, if_neg (fresh_phase bytes), read_head_return round]
  rfl

/-- The head that a block of header lines completes. -/
theorem block_complete {first rest : List UInt8} (parts : bytes = first ++ crlf ++ rest)
    (plain : Plain first) (accepted : (requestLine 0 (text first)).accepted = true)
    {headers : List (List UInt8)} {last behind : List UInt8}
    (block : HeaderBlock rest headers last behind) :
    ∃ h, readHead (Reader.fresh.feed bytes) = .complete h ∧ h.contentLength = givenLength headers ∧
      h.position = bytes.length - behind.length ∧ bytes.drop h.position = behind := by
  have facing : Facing (Reader.fresh.feed bytes) .requestline (first ++ crlf ++ rest) :=
    ⟨rfl, rfl, parts⟩
  obtain ⟨same, next⟩ := read_head_request_line facing plain accepted
  have blockFacing : Facing (takeRequestLine (Reader.fresh.feed bytes) first) .header
      (joinLines headers ++ (last ++ crlf ++ behind)) :=
        ⟨next.phase, next.held, block.bytes ▸ next.unread⟩
  obtain ⟨later, lastFacing⟩ := read_head_headers headers blockFacing block.plain block.visible
  have complete := read_head_last lastFacing block.plainLast block.blank
  have whole := same.trans (later.trans complete)
  have left := take_line_unread lastFacing block.plainLast
  obtain ⟨total, drop⟩ := read_head_splits whole
  rw [left] at total drop
  exact ⟨_, whole, take_headers_given headers _, Nat.eq_sub_of_add_eq total, drop⟩

theorem line_waits_iff {first rest : List UInt8} (parts : bytes = first ++ crlf ++ rest)
    (plain : Plain first) (accepted : (requestLine 0 (text first)).accepted = true)
    (room : bytes.length ≤ readBufferSize) :
    (readRequest (Reader.fresh.feed bytes)).verdict = .wait ↔ Unfinished bytes rest := by
  have facing : Facing (Reader.fresh.feed bytes) .requestline (first ++ crlf ++ rest) :=
    ⟨rfl, rfl, parts⟩
  obtain ⟨same, next⟩ := read_head_request_line facing plain accepted
  have whole : [bytes].flatten = bytes := List.append_nil bytes
  cases head : readHead (Reader.fresh.feed bytes) with
  | waiting w =>
      refine iff_of_true ?_ ?_
      · rw [readRequest, if_neg (fresh_phase bytes), head]
        rfl
      · intro headers last behind block
        obtain ⟨h, complete, -⟩ := block_complete parts plain accepted block
        rw [head] at complete
        cases complete
  | refused w => exact absurd (same.symm.trans head) (read_head_never_refused _ next.phase w)
  | complete h =>
      obtain ⟨headers, last, behind, block⟩ := complete_headers _ rest h next (same.symm.trans head)
      have reads := request_reads [bytes] (h := h) (by rw [whole]; exact head)
        (by rw [whole]; exact room)
      have verdict := read_once_verdict Reader.fresh bytes
      -- any other block of header lines completes the same head
      have taken {headers : List (List UInt8)} {last behind : List UInt8}
          (block : HeaderBlock rest headers last behind) :
          ¬ (h.contentLength = 0 ∨ BodyTaken h.position h.contentLength [bytes]) ↔
            givenLength headers ≠ 0 ∧
              ¬ Taken (bytes.length - behind.length) (givenLength headers) [] behind := by
        obtain ⟨g, complete, length, position, drop⟩ := block_complete parts plain accepted block
        obtain rfl : h = g := by
          rw [head] at complete
          cases complete
          rfl
        have inside : h.position ≤ bytes.length := by omega
        rw [body_taken_once _ inside, drop, length, position, not_or]
      have unserved : Unfinished bytes rest ↔
          ¬ (h.contentLength = 0 ∨ BodyTaken h.position h.contentLength [bytes]) :=
        ⟨fun unfinished => (taken block).mpr (unfinished headers last behind block),
          fun unserved headers last behind block => (taken block).mp unserved⟩
      rw [unserved, ← reads.served, verdict]
      constructor
      · intro waits
        rw [waits]
        simp
      · intro other
        exact (reads.waited other).1

/-- The later version reports NO_REQUEST, and nothing else that agrees with that. -/
theorem leaves_waiting_iff {c d : HttpConn} {r : Reader} (shows : Shows c r) :
    (∃ other, Leaves fs c other ∧ SameExit fs (.reports .noRequest d) other) ↔
      (readRequest r).verdict = .wait := by
  have agrees : Agrees fs c _ _ := process_read_refines c r shows
  have result := agrees.result
  constructor
  · rintro ⟨other, leaves, same⟩
    cases other with
    | request e => exact same.elim
    | reports code e =>
        obtain ⟨-, ret, -⟩ := leaves
        have none : (processRead fs c).ret = .noRequest := ret.trans same.symm
        cases verdict : (readRequest r).verdict with
        | wait => rfl
        | refuse =>
            rw [verdict] at result
            exact absurd (result.1.symm.trans none) (by simp)
        | serve =>
            rw [verdict] at result
            obtain ⟨e, answer, -⟩ := result
            exact absurd (answer.symm.trans none) (do_request_answers e)
  · intro verdict
    rw [verdict] at result
    refine ⟨.reports .noRequest _, ⟨?_, result.1, rfl⟩, rfl⟩
    intro e reaches
    have served := ((reaches_do_request_iff fs shows).mp ⟨e, reaches⟩).1
    rw [verdict] at served
    cases served

theorem leaves_refused {c d : HttpConn} {r : Reader} (shows : Shows c r)
    (waits : (readRequest r).verdict = .wait) :
    ¬ ∃ other, Leaves fs c other ∧ SameExit fs (.reports .badRequest d) other := by
  have agrees : Agrees fs c _ _ := process_read_refines c r shows
  have result := agrees.result
  rw [waits] at result
  rintro ⟨other, leaves, same⟩
  cases other with
  | request e => exact same
  | reports code e =>
      have refused : (processRead fs c).ret = .badRequest := leaves.2.1.trans same.symm
      exact absurd (result.1.symm.trans refused) (by simp)

end Later

section Earlier
open Lesson05 (PairAt PairAhead Scanning Passes Round InHeaders)
variable {bytes : List UInt8} {c : HttpConn}

/-- lesson05's object behind init() and one read. -/
def fed (c : HttpConn) (bytes : List UInt8) : HttpConn := appendRead bytes (Lesson05.init c)

theorem fed_byte {key : Nat} (inside : key < bytes.length) :
    (fed c bytes).readBuf key = bytes[key] := by
  have stored : storeList (Lesson05.init c).readBuf 0 bytes (0 + key) = bytes[key] :=
    store_list_inside bytes key inside
  rw [Nat.zero_add] at stored
  exact stored

theorem fed_arrived : (fed c bytes).readIdx = bytes.length := Nat.zero_add bytes.length

theorem fed_scanning (c : HttpConn) (bytes : List UInt8) : Scanning (fed c bytes) :=
  ⟨by simp [fed, appendRead, Lesson05.init, resetFields], Nat.le_refl _, Nat.zero_le _,
    fun key below => absurd below (Nat.not_lt_zero _)⟩

theorem fed_pair {before behind : List UInt8} (parts : bytes = before ++ crlf ++ behind) :
    PairAt (fed c bytes) before.length := by
  have length := congrArg List.length parts
  simp only [List.length_append, crlf, List.length_cons, List.length_nil] at length
  refine ⟨Nat.zero_le _, by rw [fed_arrived]; omega, ?_, ?_⟩
  · rw [fed_byte (by omega)]
    simp [parts, crlf]
  · rw [fed_byte (by omega)]
    simp [parts, crlf]

theorem pair_splits {key : Nat} (pair : PairAt (fed c bytes) key) :
    bytes = bytes.take key ++ crlf ++ bytes.drop (key + 2) := by
  obtain ⟨-, upper, cr, lf⟩ := pair
  rw [fed_arrived] at upper
  rw [fed_byte (by omega)] at cr
  rw [fed_byte upper] at lf
  have split : bytes.drop key = 13 :: 10 :: bytes.drop (key + 2) := by
    rw [List.drop_eq_getElem_cons (by omega), List.drop_eq_getElem_cons upper, cr, lf]
  conv_lhs => rw [← List.take_append_drop key bytes, split]
  simp [crlf]

theorem fed_plain {first rest : List UInt8} (parts : bytes = first ++ crlf ++ rest)
    (plain : Plain first) {key : Nat} (inside : key < first.length) :
    (fed c bytes).readBuf key ≠ 13 ∧ (fed c bytes).readBuf key ≠ 10 := by
  have length := congrArg List.length parts
  simp only [List.length_append] at length
  have byte : (fed c bytes).readBuf key = first[key] := by
    rw [fed_byte (by omega)]
    simp [parts, List.getElem_append_left, inside]
  have member : first[key] ∈ first := List.getElem_mem inside
  rw [byte]
  exact ⟨fun cr => plain.1 (cr ▸ member), fun lf => plain.2 (lf ▸ member)⟩

/-- A first line makes process_read of lesson05 report NO_REQUEST at once. -/
theorem first_line_reports {first rest : List UInt8} (parts : bytes = first ++ crlf ++ rest)
    (plain : Plain first) :
    ∃ conn, Lesson05.readRound ⟨.lineOk, fed c bytes⟩ = .inr (.reports .noRequest conn) := by
  obtain ⟨stop, passes, round⟩ := (fed_scanning c bytes).round
  have pair : PairAt (fed c bytes) first.length := fed_pair parts
  have upper := pair.2.1
  -- parse_line can stop neither before the pair nor behind it
  have reached : ¬ PairAt (fed c bytes) stop →
      ¬ (stop < (fed c bytes).readIdx → (fed c bytes).readBuf stop = 13 ∨
        (fed c bytes).readBuf stop = 10) := by
    intro none byte
    have before : stop < first.length := passes.pair_behind none pair
    have plainByte := fed_plain (c := c) parts plain before
    rcases byte (by omega) with cr | lf
    · exact plainByte.1 cr
    · exact plainByte.2 lf
  generalize Lesson05.readRound ⟨.lineOk, fed c bytes⟩ = result at round ⊢
  cases round with
  | line pair => exact ⟨_, rfl⟩
  | refused none byte => exact absurd byte (reached none)
  | accepted none byte => exact absurd byte (reached none)
  | header none byte => exact absurd byte (reached none)

theorem no_line_no_pair {stop : Nat} (passes : Passes (fed c bytes) stop)
    (none : ∀ first rest, bytes = first ++ crlf ++ rest → ¬ Plain first) :
    ¬ PairAt (fed c bytes) stop := by
  intro pair
  have upper := pair.2.1
  rw [fed_arrived] at upper
  refine none _ _ (pair_splits pair) ⟨?_, ?_⟩
  all_goals
    intro member
    obtain ⟨key, inside, byte⟩ := List.getElem_of_mem member
    rw [List.length_take] at inside
    rw [List.getElem_take] at byte
    have plain := passes.plain key (Nat.zero_le _) (by omega)
    rw [fed_byte (by omega), byte] at plain
  · exact plain.1 rfl
  · exact plain.2 rfl

/-- Without a first line lesson05 takes what there is for one: it refuses it, or
goes on to the next pair. -/
theorem no_line_exits (none : ∀ first rest, bytes = first ++ crlf ++ rest → ¬ Plain first) :
    ((Lesson05.parseRequestLine 0 (fed c bytes)).ret = .badRequest ∧ ∃ conn,
      Lesson05.readRound ⟨.lineOk, fed c bytes⟩ = .inr (.reports .badRequest conn)) ∨
    ((Lesson05.parseRequestLine 0 (fed c bytes)).ret = .noRequest ∧ ∃ next,
      Lesson05.readRound ⟨.lineOk, fed c bytes⟩ = .inl next ∧ InHeaders next ∧
      (PairAhead next.conn ↔ PairAhead (fed c bytes))) := by
  obtain ⟨stop, passes, round⟩ := (fed_scanning c bytes).round
  have noPair := no_line_no_pair passes none
  cases result : Lesson05.readRound ⟨.lineOk, fed c bytes⟩ with
  | inr exit =>
      rw [result] at round
      cases round with
      | line pair => exact absurd pair noPair
      | refused _ _ _ bad => exact .inl ⟨bad, _, rfl⟩
  | inl next =>
      rw [result] at round
      obtain ⟨status, goes, -⟩ := round.goes (Nat.zero_le stop)
      have inside : InHeaders next :=
        ⟨status, goes.scanning passes (fed_scanning c bytes), goes.state⟩
      have same := Lesson05.pair_ahead_kept passes noPair goes.checked goes.arrived goes.bytes
      cases round with
      | accepted _ _ _ good => exact .inr ⟨good, _, rfl, inside, same⟩
      | header _ _ state =>
          have first : (fed c bytes).checkState = .requestline := rfl
          exact absurd (first.symm.trans state) (by simp)

theorem pair_ahead_iff : PairAhead (fed c bytes) ↔ ∃ before behind,
    bytes = before ++ crlf ++ behind := by
  constructor
  · rintro ⟨key, pair⟩
    exact ⟨_, _, pair_splits pair⟩
  · rintro ⟨before, behind, parts⟩
    exact ⟨_, fed_pair parts⟩

end Earlier

section Agreement
variable {fs : FileSystem} {bytes : List UInt8} {c d : HttpConn}

theorem agree_after_exit {exit : Lesson05.Exit}
    (ends : Loop.Ends Lesson05.readRound ⟨.lineOk, fed c bytes⟩ exit) :
    ParsersAgree fs c d bytes ↔
      ∃ other, Leaves fs (appendRead bytes (init d).conn) other ∧ SameExit fs exit other := by
  constructor
  · rintro ⟨found, other, also, leaves, same⟩
    obtain rfl := Loop.ends_unique ends also
    exact ⟨other, leaves, same⟩
  · rintro ⟨other, leaves, same⟩
    exact ⟨exit, other, ends, leaves, same⟩

theorem agree_with_line {first rest : List UInt8} (parts : bytes = first ++ crlf ++ rest)
    (plain : Plain first) (room : bytes.length ≤ readBufferSize) :
    ParsersAgree fs c d bytes ↔ Acceptable first ∧ Unfinished bytes rest := by
  obtain ⟨conn, round⟩ := first_line_reports (c := c) parts plain
  have short : first.length < readBufferSize := by
    have length := congrArg List.length parts
    simp only [List.length_append, crlf, List.length_cons, List.length_nil] at length
    omega
  rw [agree_after_exit (Loop.ends_return round), leaves_waiting_iff (init_shows_feed d room),
    acceptable_iff short]
  by_cases accepted : (requestLine 0 (text first)).accepted = true
  · rw [line_waits_iff parts plain accepted room, and_iff_right accepted]
  · rw [line_refused parts plain accepted]
    simp [accepted]

theorem agree_without_line (none : ∀ first rest, bytes = first ++ crlf ++ rest → ¬ Plain first)
    (room : bytes.length ≤ readBufferSize) :
    ParsersAgree fs c d bytes ↔ (Lesson05.parseRequestLine 0 (fed c bytes)).ret = .noRequest ∧
      ∃ before behind, bytes = before ++ crlf ++ behind := by
  have waits : (readRequest (Reader.fresh.feed bytes)).verdict = .wait := by
    rcases scan_split bytes with ⟨first, rest, -, parts, plain⟩ | ⟨passed, rest, found, -⟩
    · exact absurd plain (none first rest (by rw [parts]; simp [crlf]))
    · exact stopped_waits found
  have shows := init_shows_feed d room
  rcases no_line_exits (c := c) none with ⟨bad, conn, round⟩ | ⟨good, next, round, inside, same⟩
  · rw [agree_after_exit (Loop.ends_return round), bad]
    exact iff_of_false (leaves_refused shows waits) (by simp)
  · rw [and_iff_right good, ← pair_ahead_iff (c := c), ← same]
    constructor
    · rintro ⟨exit, -, ends, -⟩
      by_contra nothing
      exact Lesson05.headers_never_end inside nothing exit ((Loop.ends_again round).mp ends)
    · intro ahead
      obtain ⟨conn, ends⟩ := Lesson05.headers_end inside ahead
      rw [agree_after_exit ((Loop.ends_again round).mpr ends)]
      exact (leaves_waiting_iff shows).mpr waits

/-- The two versions agree exactly on the requests that the later one waits for,
where the earlier one returns NO_REQUEST as well: at a first line, or at a CR LF
behind a line that it took before its end. -/
theorem parsers_agree_iff (fs : FileSystem) (c d : HttpConn) (bytes : List UInt8)
    (room : bytes.length ≤ readBufferSize) :
    ParsersAgree fs c d bytes ↔ FirstLineTaken bytes ∨ LineTakenEarly c bytes := by
  by_cases line : ∃ first rest, bytes = first ++ crlf ++ rest ∧ Plain first
  · obtain ⟨first, rest, parts, plain⟩ := line
    have other : ¬ LineTakenEarly c bytes := fun early => early.1 first rest parts plain
    rw [agree_with_line parts plain room, or_iff_left other]
    constructor
    · rintro ⟨acceptable, unfinished⟩
      exact ⟨first, rest, parts, plain, acceptable, unfinished⟩
    · rintro ⟨also, tail, parts', plain', acceptable, unfinished⟩
      have one := scan_line plain rest
      have two := scan_line plain' tail
      have same : first ++ 13 :: 10 :: rest = also ++ 13 :: 10 :: tail := by
        simpa [crlf] using parts.symm.trans parts'
      rw [same, two] at one
      cases one
      exact ⟨acceptable, unfinished⟩
  · have none : ∀ first rest, bytes = first ++ crlf ++ rest → ¬ Plain first :=
      fun first rest parts plain => line ⟨first, rest, parts, plain⟩
    have other : ¬ FirstLineTaken bytes := by
      rintro ⟨first, rest, parts, plain, -⟩
      exact none first rest parts plain
    rw [agree_without_line none room, or_iff_right other]
    exact ⟨fun held => ⟨none, held⟩, fun early => early.2⟩

/-- A first line alone. -/
theorem parsers_agree_line : ParsersAgree .empty .unused .unused (ascii "GET / HTTP/1.1\r\n") := by
  refine (parsers_agree_iff .empty .unused .unused _ (by decide)).mpr (.inl ?_)
  refine ⟨ascii "GET / HTTP/1.1", [], rfl, by decide, ?_, ?_⟩
  · decide +kernel
  · intro headers last behind block
    have length := congrArg List.length block.bytes
    simp [crlf] at length

/-- A whole request, served by the later version only. -/
def wholeRequest : List UInt8 := ascii "GET / HTTP/1.1\r\n\r\n"

theorem whole_request_differs : ¬ ∀ (fs : FileSystem) (c d : HttpConn) (bytes : List UInt8),
    bytes.length ≤ readBufferSize → ParsersAgree fs c d bytes := by
  intro agree
  have parts : wholeRequest = ascii "GET / HTTP/1.1" ++ crlf ++ crlf := by decide
  have taken := (agree_with_line parts (by decide) (by decide)).mp
    (agree .empty .unused .unused wholeRequest (by decide))
  have block : HeaderBlock crlf [] [] [] := ⟨rfl, by simp, plain_nil, by simp, rfl⟩
  exact (taken.2 [] [] [] block).1 rfl

end Agreement

end StudyWebServer
