import StudyWebServer.Lesson05.RequestParser

/-!
When process_read of lesson05 comes to an end. Its loop goes on as long as
parse_line does not find a line, so what stops it is a pair of CR and LF in
front of the scanner, or a request line that is refused.
-/

namespace StudyWebServer.Lesson05

open ByteMemory CString MachineInt

def PairAt (c : HttpConn) (key : Nat) : Prop :=
  c.checkedIdx ≤ key ∧ key + 1 < c.readIdx ∧ c.readBuf key = 13 ∧ c.readBuf (key + 1) = 10

/-- A pair of CR and LF among the bytes not yet scanned. -/
def PairAhead (c : HttpConn) : Prop := ∃ key, PairAt c key

structure Scanning (c : HttpConn) : Prop where
  head : c.checkState ≠ .content
  order : c.startLine ≤ c.checkedIdx
  arrived : c.checkedIdx ≤ c.readIdx
  passed : ∀ key < c.checkedIdx, c.readBuf key ≠ 13

section ParseLine

def stopAt (stop : Nat) (c : HttpConn) : HttpConn := { c with checkedIdx := stop }

/-- Where parse_line stops: in front of a pair, which it takes, or where it finds
neither a pair nor a byte to pass. -/
inductive Stops (c : HttpConn) (stop : Nat) (ret : LineStatus) (conn : HttpConn) : Prop where
  | pair : PairAt c stop → ret = .lineOk → conn = cutLine c stop → Stops c stop ret conn
  | stuck : ¬ PairAt c stop → (stop < c.readIdx → c.readBuf stop = 13 ∨ c.readBuf stop = 10) →
      ret ≠ .lineOk → conn = stopAt stop c → Stops c stop ret conn

/-- The bytes up to there are passed. -/
structure Passes (c : HttpConn) (stop : Nat) : Prop where
  lower : c.checkedIdx ≤ stop
  upper : stop ≤ c.readIdx
  plain : ∀ key, c.checkedIdx ≤ key → key < stop → c.readBuf key ≠ 13 ∧ c.readBuf key ≠ 10

theorem parse_line_from_stops (count : Nat) (c : HttpConn)
    (unread : c.checkedIdx + count = c.readIdx)
    (passed : ∀ key < c.checkedIdx, c.readBuf key ≠ 13) :
    ∃ stop, Passes c stop ∧ Stops c stop (parseLineFrom count c).ret
    (parseLineFrom count c).conn := by
  -- Induction on the bytes left to scan, as parse_line advances over them.
  induction count generalizing c with
  | zero =>
      have none : ¬ PairAt c c.checkedIdx := fun pair => by
        have inside := pair.2.1
        omega
      exact ⟨c.checkedIdx, ⟨Nat.le_refl _, by omega, fun key lower upper => by omega⟩,
        .stuck none (fun inside => by omega) (by simp [parseLineFrom]) rfl⟩
  | succ count ih =>
      have here : Passes c c.checkedIdx :=
        ⟨Nat.le_refl _, by omega, fun key lower upper => by omega⟩
      by_cases cr : c.readBuf c.checkedIdx = 13
      · by_cases last : c.checkedIdx + 1 = c.readIdx
        · have none : ¬ PairAt c c.checkedIdx := fun pair => by
            have inside := pair.2.1
            omega
          rw [parse_line_cr_end cr last]
          exact ⟨_, here, .stuck none (fun _ => .inl cr) (by simp) rfl⟩
        · by_cases lf : c.readBuf (c.checkedIdx + 1) = 10
          · rw [parse_line_pair cr last lf]
            exact ⟨_, here, .pair ⟨Nat.le_refl _, by omega, cr, lf⟩ rfl rfl⟩
          · rw [parse_line_cr_bad cr last lf]
            exact ⟨_, here, .stuck (fun pair => lf pair.2.2.2) (fun _ => .inl cr) (by simp) rfl⟩
      · by_cases lf : c.readBuf c.checkedIdx = 10
        · have noCr : 1 < c.checkedIdx → c.readBuf (c.checkedIdx - 1) ≠ 13 :=
            fun later => passed _ (by omega)
          rw [parse_line_lf_bad lf noCr]
          exact ⟨_, here, .stuck (fun pair => cr pair.2.2.1) (fun _ => .inr lf) (by simp) rfl⟩
        -- A plain byte: the stop found behind it is the stop from here.
        · rw [parse_line_plain cr lf]
          have moved : (advance c).checkedIdx = c.checkedIdx + 1 := rfl
          have rest := ih (advance c) (by rw [moved]; show _ = c.readIdx; omega) fun key below => by
            rcases Nat.lt_succ_iff_lt_or_eq.mp below with before | rfl
            · exact passed key before
            · exact cr
          obtain ⟨stop, passes, stops⟩ := rest
          have lower : c.checkedIdx < stop := passes.lower
          refine ⟨stop, ⟨by omega, passes.upper, ?_⟩, ?_⟩
          · intro key behind upper
            rcases Nat.eq_or_lt_of_le behind with rfl | later
            · exact ⟨cr, lf⟩
            · exact passes.plain key later upper
          · cases stops with
            | pair pair ret conn => exact .pair ⟨lower.le, pair.2⟩ ret conn
            | stuck none byte ret conn =>
                exact .stuck (fun pair => none ⟨lower, pair.2⟩) byte ret conn

theorem Scanning.parse_line {c : HttpConn} (scanning : Scanning c) :
    ∃ stop, Passes c stop ∧ Stops c stop (parseLine c).ret (parseLine c).conn :=
  parse_line_from_stops _ c (by have arrived := scanning.arrived; omega) scanning.passed

end ParseLine

section Rounds

/-- The object that the handlers get, parse_line having stopped without a line. -/
def stuckAt (stop : Nat) (c : HttpConn) : HttpConn := startNextLine (stopAt stop c)

/-- What a round of the loop can do in the head of a request. -/
inductive Round (c : HttpConn) (stop : Nat) : ReadLoop ⊕ Exit → Prop where
  | line : PairAt c stop → Round c stop (.inr (.reports .noRequest (cutLine c stop)))
  | refused : ¬ PairAt c stop → (stop < c.readIdx → c.readBuf stop = 13 ∨ c.readBuf stop = 10) →
      c.checkState = .requestline → (parseRequestLine c.startLine c).ret = .badRequest →
      Round c stop
        (.inr (.reports .badRequest (parseRequestLine c.startLine (stuckAt stop c)).conn))
  | accepted : ¬ PairAt c stop → (stop < c.readIdx → c.readBuf stop = 13 ∨ c.readBuf stop = 10) →
      c.checkState = .requestline → (parseRequestLine c.startLine c).ret = .noRequest →
      (parseRequestLine c.startLine (stuckAt stop c)).conn.checkState = .header →
      Round c stop (.inl ⟨.lineOk, (parseRequestLine c.startLine (stuckAt stop c)).conn⟩)
  | header : ¬ PairAt c stop → (stop < c.readIdx → c.readBuf stop = 13 ∨ c.readBuf stop = 10) →
      c.checkState = .header →
      Round c stop (.inl ⟨.lineOk,
        { stuckAt stop c with readBuf := store c.readBuf c.startLine 0 }⟩)

theorem handle_header {lineStatus : LineStatus} {text : Nat} {c : HttpConn}
    (state : c.checkState = .header) : handleLine lineStatus text c =
      .inl ⟨lineStatus, { c with readBuf := store c.readBuf text 0 }⟩ := by
  have parsed := parse_headers_eq text c
  generalize ({ c with readBuf := store c.readBuf text 0 } : HttpConn) = d at parsed ⊢
  unfold handleLine
  rw [state]
  dsimp only
  rw [parsed, if_neg (by simp), if_neg (by simp)]

theorem Scanning.round {c : HttpConn} (scanning : Scanning c) :
    ∃ stop, Passes c stop ∧ Round c stop (readRound ⟨.lineOk, c⟩) := by
  obtain ⟨stop, passes, stops⟩ := scanning.parse_line
  refine ⟨stop, passes, ?_⟩
  have line : nextLine ⟨.lineOk, c⟩ =
      (decide (LineStatus.lineOk ≠ (parseLine c).ret), (parseLine c).conn) := by
    simp [nextLine, scanning.head]
  cases stops with
  | pair pair ret conn =>
      have round : readRound ⟨.lineOk, c⟩ = .inr (.reports .noRequest (cutLine c stop)) := by
        simp [readRound, line, ret, conn]
      rw [round]
      exact .line pair
  | stuck none byte ret conn =>
      have round : readRound ⟨.lineOk, c⟩ = handleLine .lineOk c.startLine (stuckAt stop c) := by
        simp [readRound, line, ret.symm, conn, stuckAt, stopAt]
      rw [round]
      cases state : c.checkState with
      | content => exact absurd state scanning.head
      | header =>
          have next : (stuckAt stop c).checkState = .header := state
          rw [handle_header next]
          exact .header none byte state
      | requestline =>
          have next : (stuckAt stop c).checkState = .requestline := state
          have same : (parseRequestLine c.startLine (stuckAt stop c)).ret =
            (parseRequestLine c.startLine c).ret := parse_request_line_same c.startLine rfl
          simp only [handleLine, next]
          rcases parse_request_line_ret c.startLine (stuckAt stop c) with ⟨bad, -⟩ | ⟨good, after⟩
          · rw [if_pos bad]
            exact .refused none byte state (same.symm.trans bad)
          · rw [if_neg (by rw [good]; simp)]
            exact .accepted none byte state (same.symm.trans good) after

variable {c : HttpConn} {stop : Nat}

theorem Passes.pair_behind (passes : Passes c stop) (none : ¬ PairAt c stop) {key : Nat}
    (pair : PairAt c key) : stop < key := by
  by_contra early
  rcases Nat.eq_or_lt_of_le (Nat.le_of_not_lt early) with rfl | before
  · exact none pair
  · exact (passes.plain key pair.1 before).1 pair.2.2.1

/-- The pairs in front of the scanner are not touched by a round that goes on. -/
theorem pair_ahead_kept {d : HttpConn} (passes : Passes c stop) (none : ¬ PairAt c stop)
    (checked : d.checkedIdx = stop) (arrived : d.readIdx = c.readIdx)
    (bytes : ∀ key, d.readBuf key = c.readBuf key ∨
      d.readBuf key = 0 ∧ (key ≤ stop ∨ c.readBuf key = 9)) :
    PairAhead d ↔ PairAhead c := by
  constructor
  · rintro ⟨key, lower, upper, cr, lf⟩
    refine ⟨key, by have low := passes.lower; omega, by omega, ?_, ?_⟩
    · rcases bytes key with same | ⟨zero, -⟩
      · exact same.symm.trans cr
      · rw [zero] at cr
        cases cr
    · rcases bytes (key + 1) with same | ⟨zero, -⟩
      · exact same.symm.trans lf
      · rw [zero] at lf
        cases lf
  · rintro ⟨key, pair⟩
    have behind := passes.pair_behind none pair
    obtain ⟨lower, upper, cr, lf⟩ := pair
    refine ⟨key, by omega, by omega, ?_, ?_⟩
    · rcases bytes key with same | ⟨-, early | tabbed⟩
      · exact same.trans cr
      · omega
      · rw [cr] at tabbed
        cases tabbed
    · rcases bytes (key + 1) with same | ⟨-, early | tabbed⟩
      · exact same.trans lf
      · omega
      · rw [lf] at tabbed
        cases tabbed

theorem Passes.no_return (passes : Passes c stop) (scanning : Scanning c) :
    ∀ key < stop, c.readBuf key ≠ 13 := by
  intro key below
  by_cases before : key < c.checkedIdx
  · exact scanning.passed key before
  · exact (passes.plain key (Nat.le_of_not_lt before) below).1

/-- The object of a round that goes on: the scanner has come to `stop`, bytes were
set to NUL no further than there or where a tab stood. -/
structure Goes (c : HttpConn) (stop : Nat) (d : HttpConn) : Prop where
  state : d.checkState = .header
  start : d.startLine = stop
  checked : d.checkedIdx = stop
  arrived : d.readIdx = c.readIdx
  bytes : ∀ key, d.readBuf key = c.readBuf key ∨
    d.readBuf key = 0 ∧ (key ≤ stop ∨ c.readBuf key = 9)

theorem Goes.scanning {d : HttpConn} (goes : Goes c stop d) (passes : Passes c stop)
    (scanning : Scanning c) : Scanning d := by
  refine ⟨by rw [goes.state]; simp, by rw [goes.start, goes.checked], ?_, ?_⟩
  · rw [goes.checked, goes.arrived]
    exact passes.upper
  · intro key below
    rw [goes.checked] at below
    rcases goes.bytes key with same | ⟨zero, -⟩
    · rw [same]
      exact passes.no_return scanning key below
    · rw [zero]
      decide

theorem cut_scanning (scanning : Scanning c) (passes : Passes c stop) (pair : PairAt c stop) :
    Scanning (cutLine c stop) := by
  have order := scanning.order
  have lower := passes.lower
  refine ⟨scanning.head, ?_, pair.2.1, ?_⟩
  · show c.startLine ≤ stop + 2
    omega
  · intro key below
    have below : key < stop + 2 := below
    show store (store c.readBuf stop 0) (stop + 1) 0 key ≠ 13
    by_cases last : key = stop + 1
    · rw [last, store_same]
      decide
    · rw [store_other 0 last]
      by_cases first : key = stop
      · rw [first, store_same]
        decide
      · rw [store_other 0 first]
        exact passes.no_return scanning key (by omega)

theorem Round.goes {next : ReadLoop} (round : Round c stop (.inl next))
    (order : c.startLine ≤ stop) :
    next.lineStatus = .lineOk ∧ Goes c stop next.conn ∧ ¬ PairAt c stop := by
  cases round with
  | accepted none byte state good after =>
      have cut := parse_request_line_cut c.startLine (stuckAt stop c)
      refine ⟨rfl, ⟨after, cut.start, cut.checked, cut.arrived, ?_⟩, none⟩
      intro key
      rcases cut.bytes key with same | ⟨tabbed, zero⟩
      · exact .inl same
      · exact .inr ⟨zero, .inr tabbed⟩
  | header none byte state =>
      refine ⟨rfl, ⟨state, rfl, rfl, rfl, ?_⟩, none⟩
      intro key
      by_cases here : key = c.startLine
      · subst here
        exact .inr ⟨store_same 0, .inl order⟩
      · exact .inl (store_other 0 here)

theorem Round.left {exit : Exit} (round : Round c stop (.inr exit)) (passes : Passes c stop)
    (scanning : Scanning c) : ∃ code conn, exit = .reports code conn ∧ Scanning conn := by
  cases round with
  | line pair => exact ⟨_, _, rfl, cut_scanning scanning passes pair⟩
  | refused none byte state bad =>
      have cut := parse_request_line_cut c.startLine (stuckAt stop c)
      refine ⟨_, _, rfl, ?_, ?_, ?_, ?_⟩
      · rcases parse_request_line_ret c.startLine (stuckAt stop c) with ⟨-, same⟩ | ⟨-, header⟩
        · rw [same]
          exact scanning.head
        · rw [header]
          simp
      · rw [cut.start, cut.checked]
        exact Nat.le_refl _
      · rw [cut.checked, cut.arrived]
        exact passes.upper
      · intro key below
        rw [cut.checked] at below
        rcases cut.bytes key with same | ⟨-, zero⟩
        · rw [same]
          exact passes.no_return scanning key below
        · rw [zero]
          decide

end Rounds

section Runs

/-- What the rounds behind the request line use up: bytes in front of the scanner,
then the way of m_start_line to it, then the byte that the scanner is stuck at. -/
def roundsLeft (c : HttpConn) : Nat :=
  2 * (c.readIdx - c.checkedIdx) + (if c.startLine = c.checkedIdx then 0 else 1) +
    if c.readBuf c.checkedIdx = 13 ∨ c.readBuf c.checkedIdx = 10 then 1 else 0

theorem rounds_left_decreases {c : HttpConn} {stop : Nat} (passes : Passes c stop)
    (order : c.startLine ≤ c.checkedIdx) (inside : stop < c.readIdx)
    (stuck : c.readBuf stop = 13 ∨ c.readBuf stop = 10) :
    roundsLeft { stuckAt stop c with readBuf := store c.readBuf c.startLine 0 } < roundsLeft c := by
  have lower := passes.lower
  have after : roundsLeft { stuckAt stop c with readBuf := store c.readBuf c.startLine 0 } =
      2 * (c.readIdx - stop) + 0 + if store c.readBuf c.startLine 0 stop = 13 ∨
        store c.readBuf c.startLine 0 stop = 10 then 1 else 0 := by
    show 2 * (c.readIdx - stop) + (if stop = stop then 0 else 1) + _ = _
    rw [if_pos rfl]
    rfl
  rw [after]
  by_cases moved : c.checkedIdx < stop
  · unfold roundsLeft
    split_ifs <;> omega
  · have here : c.checkedIdx = stop := Nat.le_antisymm lower (Nat.le_of_not_lt moved)
    by_cases reached : c.startLine = stop
    · -- the byte the scanner is stuck at is overwritten
      have gone : ¬ (store c.readBuf c.startLine 0 stop = 13 ∨
          store c.readBuf c.startLine 0 stop = 10) := by
        rw [reached, store_same]
        decide
      rw [if_neg gone]
      simp only [roundsLeft, here, reached, if_pos stuck]
      omega
    · simp only [roundsLeft, here, if_neg reached, if_pos stuck]
      split_ifs <;> omega

/-- Past the request line the loop goes round as long as there is no pair. -/
structure InHeaders (loop : ReadLoop) : Prop where
  status : loop.lineStatus = .lineOk
  scanning : Scanning loop.conn
  state : loop.conn.checkState = .header

theorem InHeaders.round {loop : ReadLoop} (inside : InHeaders loop) :
    ∃ stop, Passes loop.conn stop ∧ Round loop.conn stop (readRound loop) := by
  obtain ⟨status, c⟩ := loop
  obtain rfl : status = .lineOk := inside.status
  exact inside.scanning.round

theorem InHeaders.next {loop next : ReadLoop} (inside : InHeaders loop)
    (round : readRound loop = .inl next) : InHeaders next ∧
      (PairAhead next.conn ↔ PairAhead loop.conn) ∧
      (PairAhead loop.conn → roundsLeft next.conn < roundsLeft loop.conn) := by
  obtain ⟨stop, passes, can⟩ := inside.round
  have order := inside.scanning.order
  rw [round] at can
  obtain ⟨status, goes, none⟩ := can.goes (Nat.le_trans order passes.lower)
  refine ⟨⟨status, goes.scanning passes inside.scanning, goes.state⟩,
    pair_ahead_kept passes none goes.checked goes.arrived goes.bytes, ?_⟩
  rintro ⟨key, pair⟩
  have behind := passes.pair_behind none pair
  have upper := pair.2.1
  have state := inside.state
  cases can with
  | accepted _ _ first => exact absurd (state.symm.trans first) (by simp)
  | header _ byte =>
      exact rounds_left_decreases passes order (by omega) (byte (by omega))

theorem InHeaders.left {loop : ReadLoop} {exit : Exit} (inside : InHeaders loop)
    (round : readRound loop = .inr exit) :
    PairAhead loop.conn ∧ ∃ conn, exit = .reports .noRequest conn := by
  obtain ⟨stop, passes, can⟩ := inside.round
  have state := inside.state
  rw [round] at can
  cases can with
  | line pair => exact ⟨⟨stop, pair⟩, _, rfl⟩
  | refused _ _ first => exact absurd (state.symm.trans first) (by simp)

theorem headers_end {loop : ReadLoop} (inside : InHeaders loop) (ahead : PairAhead loop.conn) :
    ∃ conn, Loop.Ends readRound loop (.reports .noRequest conn) := by
  have again : ∀ loop next, InHeaders loop ∧ PairAhead loop.conn → readRound loop = .inl next →
      (InHeaders next ∧ PairAhead next.conn) ∧ roundsLeft next.conn < roundsLeft loop.conn := by
    intro loop next held round
    obtain ⟨later, same, smaller⟩ := held.1.next round
    exact ⟨⟨later, same.mpr held.2⟩, smaller held.2⟩
  obtain ⟨exit, ends⟩ := Loop.ends_of_measure (fun loop : ReadLoop => roundsLeft loop.conn) again
    loop ⟨inside, ahead⟩
  have reports : InHeaders loop → ∃ conn, exit = .reports .noRequest conn := by
    refine Loop.ends_induction (motive := fun loop (exit : Exit) => InHeaders loop →
      ∃ conn, exit = .reports .noRequest conn) ?_ ?_ ends
    · intro loop next exit round ih held
      exact ih (held.next round).1
    · intro loop exit round held
      exact (held.left round).2
  obtain ⟨conn, rfl⟩ := reports inside
  exact ⟨conn, ends⟩

theorem headers_never_end {loop : ReadLoop} (inside : InHeaders loop)
    (none : ¬ PairAhead loop.conn) (exit : Exit) : ¬ Loop.Ends readRound loop exit := by
  have again : ∀ loop, InHeaders loop ∧ ¬ PairAhead loop.conn →
      ∃ next, readRound loop = .inl next ∧ InHeaders next ∧ ¬ PairAhead next.conn := by
    intro loop held
    cases round : readRound loop with
    | inl next =>
        obtain ⟨later, same, -⟩ := held.1.next round
        exact ⟨next, rfl, later, fun ahead => held.2 (same.mp ahead)⟩
    | inr exit => exact absurd (held.1.left round).1 held.2
  exact Loop.never_ends again loop ⟨inside, none⟩ exit

/-- The first line is refused or the headers are gone through, or it is neither. -/
theorem Scanning.ends_iff {c : HttpConn} (scanning : Scanning c) :
    (∃ exit, Loop.Ends readRound ⟨.lineOk, c⟩ exit) ↔ PairAhead c ∨
      c.checkState = .requestline ∧ (parseRequestLine c.startLine c).ret = .badRequest := by
  obtain ⟨stop, passes, can⟩ := scanning.round
  cases round : readRound ⟨.lineOk, c⟩ with
  | inr exit =>
      rw [round] at can
      refine iff_of_true ⟨exit, Loop.ends_return round⟩ ?_
      cases can with
      | line pair => exact .inl ⟨stop, pair⟩
      | refused none byte first bad => exact .inr ⟨first, bad⟩
  | inl next =>
      rw [round] at can
      obtain ⟨status, goes, none⟩ := can.goes (Nat.le_trans scanning.order passes.lower)
      have inside : InHeaders next := ⟨status, goes.scanning passes scanning, goes.state⟩
      have same := pair_ahead_kept passes none goes.checked goes.arrived goes.bytes
      have later : (∃ exit, Loop.Ends readRound ⟨.lineOk, c⟩ exit) ↔ PairAhead c := by
        constructor
        · rintro ⟨exit, ends⟩
          by_contra nothing
          exact headers_never_end inside (fun ahead => nothing (same.mp ahead)) exit
            ((Loop.ends_again round).mp ends)
        · intro ahead
          obtain ⟨conn, ends⟩ := headers_end inside (same.mpr ahead)
          exact ⟨_, (Loop.ends_again round).mpr ends⟩
      have taken : ¬ (c.checkState = .requestline ∧
          (parseRequestLine c.startLine c).ret = .badRequest) := by
        rintro ⟨first, bad⟩
        cases can with
        | accepted _ _ _ good => exact absurd (bad.symm.trans good) (by simp)
        | header _ _ state => exact absurd (first.symm.trans state) (by simp)
      exact later.trans (or_iff_left taken).symm

theorem ends_scanning {loop : ReadLoop} {exit : Exit} (ends : Loop.Ends readRound loop exit)
    (status : loop.lineStatus = .lineOk) (scanning : Scanning loop.conn) :
    ∃ code conn, exit = .reports code conn ∧ Scanning conn := by
  revert status scanning
  refine Loop.ends_induction (motive := fun loop exit => loop.lineStatus = .lineOk →
    Scanning loop.conn → ∃ code conn, exit = .reports code conn ∧ Scanning conn) ?_ ?_ ends
  · rintro ⟨status, c⟩ next exit round ih rfl scanning
    obtain ⟨stop, passes, can⟩ := scanning.round
    rw [round] at can
    obtain ⟨status, goes, -⟩ := can.goes (Nat.le_trans scanning.order passes.lower)
    exact ih status (goes.scanning passes scanning)
  · rintro ⟨status, c⟩ exit round rfl scanning
    obtain ⟨stop, passes, can⟩ := scanning.round
    rw [round] at can
    exact can.left passes scanning

end Runs

/-- The states that init() and calls of process_read lead to, whatever bytes are
received between the calls. -/
inductive Reachable (fs : FileSystem) : HttpConn → Prop where
  | init (c : HttpConn) : Reachable fs (init c)
  | read {c : HttpConn} (bytes : List UInt8) : Reachable fs c →
      c.readIdx + bytes.length ≤ readBufferSize → Reachable fs (appendRead bytes c)
  | processRead {c : HttpConn} {rounds : Nat} {parsed : Parsed} : Reachable fs c →
      processRead fs rounds c = some parsed → Reachable fs parsed.conn

section Reachable
variable {fs : FileSystem} {c : HttpConn}

theorem process_read_ends {rounds : Nat} {parsed : Parsed}
    (returned : processRead fs rounds c = some parsed) :
    ∃ exit, Loop.Ends readRound ⟨.lineOk, c⟩ exit ∧ exit.finish fs = parsed := by
  obtain ⟨exit, ends, finished⟩ := Option.map_eq_some_iff.mp returned
  exact ⟨exit, ⟨rounds, ends⟩, finished⟩

theorem returns_iff_ends : (∃ rounds parsed, processRead fs rounds c = some parsed) ↔
    ∃ exit, Loop.Ends readRound ⟨.lineOk, c⟩ exit := by
  constructor
  · rintro ⟨rounds, parsed, returned⟩
    obtain ⟨exit, ends, -⟩ := process_read_ends returned
    exact ⟨exit, ends⟩
  · rintro ⟨exit, rounds, ends⟩
    exact ⟨rounds, exit.finish fs, by rw [processRead, ends]; rfl⟩

theorem Reachable.scanning (reachable : Reachable fs c) : Scanning c := by
  induction reachable with
  | init c =>
      have first : CheckState.requestline ≠ .content := by simp
      exact ⟨first, Nat.le_refl _, Nat.le_refl _, fun key below => absurd below (Nat.not_lt_zero _)⟩
  | @read c bytes _ room ih =>
      refine ⟨ih.head, ih.order, Nat.le_trans ih.arrived (Nat.le_add_right _ _), ?_⟩
      intro key below
      have arrived := ih.arrived
      have kept : (appendRead bytes c).readBuf key = c.readBuf key :=
        store_list_before bytes (Nat.lt_of_lt_of_le below arrived)
      rw [kept]
      exact ih.passed key below
  | processRead _ returned ih =>
      obtain ⟨exit, ends, finished⟩ := process_read_ends returned
      obtain ⟨code, conn, rfl, scanning⟩ := ends_scanning ends rfl ih
      cases finished
      exact scanning

/-- process_read returns from a reachable state exactly when a pair of CR and LF
is among the bytes it has not scanned, or the request line is still to be read
and parse_request_line refuses the text at hand. -/
theorem process_read_returns_iff (fs : FileSystem) (c : HttpConn) (reachable : Reachable fs c) :
    (∃ rounds parsed, processRead fs rounds c = some parsed) ↔ PairAhead c ∨
      c.checkState = .requestline ∧ (parseRequestLine c.startLine c).ret = .badRequest :=
  returns_iff_ends.trans reachable.scanning.ends_iff

end Reachable

/-- A request line behind which the loop finds its end. -/
theorem process_read_returns_line :
    let c := appendRead (ascii "GET\t/\tHTTP/1.1\r\n") (init .unused)
    ∃ rounds parsed, processRead .empty rounds c = some parsed := by
  intro c
  have reached : Reachable .empty c := .read _ (.init .unused) (by decide)
  refine (process_read_returns_iff .empty c reached).mpr (.inl ?_)
  exact ⟨14, by decide, by decide, by decide, by decide⟩

/-- A request line without its end. -/
def unfinishedLine : HttpConn := appendRead (ascii "GET\t/\tHTTP/1.1") (init .unused)

theorem unfinished_line_reachable : Reachable .empty unfinishedLine :=
  .read _ (.init .unused) (by decide)

theorem unfinished_line_no_pair : ¬ PairAhead unfinishedLine := by
  rintro ⟨key, -, upper, cr, -⟩
  have short : key < 14 := by
    have length : unfinishedLine.readIdx = 14 := by decide
    omega
  have plain : ∀ key < 14, unfinishedLine.readBuf key ≠ 13 := by decide
  exact plain key short cr

/-- The loop goes round for ever on it. -/
theorem unfinished_line_never_returns : ¬ ∀ (fs : FileSystem) (c : HttpConn), Reachable fs c →
    ∃ rounds parsed, processRead fs rounds c = some parsed := by
  intro returns
  have ends := returns_iff_ends.mp (returns .empty unfinishedLine unfinished_line_reachable)
  rcases unfinished_line_reachable.scanning.ends_iff.mp ends with ahead | ⟨-, bad⟩
  · exact unfinished_line_no_pair ahead
  · exact absurd bad (by decide)

end StudyWebServer.Lesson05
