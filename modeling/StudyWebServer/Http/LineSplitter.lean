import Mathlib.Order.Basic
import StudyWebServer.Http.ReaderRefinement

/-!
parse_line as a splitter at CR LF: what it answers depends on the first line end
byte that has come, and a call that stopped for want of bytes has lost nothing
for the next one.
-/

namespace StudyWebServer

open ByteMemory

variable {c : HttpConn}

def EndByte (byte : UInt8) : Prop := byte = 13 ∨ byte = 10

instance (byte : UInt8) : Decidable (EndByte byte) := inferInstanceAs (Decidable (_ ∨ _))

/-- No CR or LF from one index up to another. -/
def PlainBytes (buffer : Memory) (low high : Nat) : Prop :=
  ∀ key, low ≤ key → key < high → ¬ EndByte (buffer key)

/-- Where parse_line is called in the head of a request. -/
structure AtLine (c : HttpConn) : Prop where
  started : c.startLine ≤ c.checkedIdx
  arrived : c.checkedIdx ≤ c.readIdx
  plain : PlainBytes c.readBuf c.startLine c.checkedIdx
  behindCut : c.startLine = 0 ∨
    2 ≤ c.startLine ∧ c.readBuf (c.startLine - 2) = 0 ∧ c.readBuf (c.startLine - 1) = 0

/-- The first CR or LF that has come, from m_checked_idx on. -/
structure FirstEnd (c : HttpConn) (index : Nat) : Prop where
  lower : c.checkedIdx ≤ index
  arrived : index < c.readIdx
  found : EndByte (c.readBuf index)
  first : PlainBytes c.readBuf c.checkedIdx index

def LinePairAt (c : HttpConn) (index : Nat) : Prop :=
  FirstEnd c index ∧ c.readBuf index = 13 ∧ index + 1 < c.readIdx ∧ c.readBuf (index + 1) = 10

def BadAt (c : HttpConn) (index : Nat) : Prop :=
  FirstEnd c index ∧ (c.readBuf index = 10 ∨
    c.readBuf index = 13 ∧ index + 1 < c.readIdx ∧ c.readBuf (index + 1) ≠ 10)

theorem FirstEnd.unique {one other : Nat} (first : FirstEnd c one) (second : FirstEnd c other) :
    one = other := by
  rcases Nat.lt_trichotomy one other with before | same | behind
  · exact absurd first.found (second.first one first.lower before)
  · exact same
  · exact absurd second.found (first.first other second.lower behind)

theorem first_end_or_plain (c : HttpConn) :
    (∃ index, FirstEnd c index) ∨ PlainBytes c.readBuf c.checkedIdx c.readIdx := by
  by_cases exist : ∃ key, c.checkedIdx ≤ key ∧ key < c.readIdx ∧ EndByte (c.readBuf key)
  · obtain ⟨lower, arrived, found⟩ := Nat.find_spec exist
    refine .inl ⟨Nat.find exist, lower, arrived, found, fun key low high ends => ?_⟩
    exact Nat.find_min exist high ⟨low, by omega, ends⟩
  · exact .inr fun key low high ends => exist ⟨key, low, high, ends⟩

/-- The byte before the scanner is no CR: it is a plain byte of the line or the
NUL that ended the line before. -/
theorem AtLine.no_return (line : AtLine c) (later : 0 < c.checkedIdx) :
    c.readBuf (c.checkedIdx - 1) ≠ 13 := by
  have started := line.started
  by_cases inside : c.startLine < c.checkedIdx
  · exact fun cr => line.plain (c.checkedIdx - 1) (by omega) (by omega) (.inl cr)
  · have same : c.checkedIdx = c.startLine := by omega
    rcases line.behindCut with first | ⟨-, -, nul⟩
    · omega
    · rw [same, nul]
      decide

/-- Plain bytes may be passed beforehand. -/
theorem parse_line_skip (count : Nat) (c : HttpConn)
    (plain : PlainBytes c.readBuf c.checkedIdx (c.checkedIdx + count))
    (arrived : c.checkedIdx + count ≤ c.readIdx) :
    (parseLine c).ret = (parseLine (skip count c)).ret ∧
      (parseLine c).conn = (parseLine (skip count c)).conn := by
  induction count generalizing c with
  | zero => exact ⟨rfl, rfl⟩
  | succ count ih =>
      have here := plain c.checkedIdx (Nat.le_refl _) (by omega)
      have unread : c.readIdx - c.checkedIdx = (c.readIdx - (c.checkedIdx + 1)) + 1 := by omega
      have step : (parseLine c).ret = (parseLine (advance c)).ret ∧
          (parseLine c).conn = (parseLine (advance c)).conn := by
        rw [parseLine, unread, parse_line_plain (fun cr => here (.inl cr))
          (fun lf => here (.inr lf))]
        exact ⟨rfl, rfl⟩
      have later := ih (advance c)
        (fun key low high => plain key (by simp only [advance] at low; omega)
          (by simp only [advance] at high; omega))
        (by simp only [advance]; omega)
      rw [skip_advance] at later
      exact ⟨step.1.trans later.1, step.2.trans later.2⟩

/-- parse_line with the scanner on a byte that has come. -/
theorem parse_line_here (arrived : c.checkedIdx < c.readIdx) :
    parseLine c = parseLineFrom (c.readIdx - c.checkedIdx - 1 + 1) c := by
  rw [parseLine]
  congr 1
  omega

/-- What parse_line finds, and what it leaves. -/
inductive LineResult (c : HttpConn) : Prop where
  | pair (index : Nat) (found : LinePairAt c index) (ret : (parseLine c).ret = .lineOk)
      (conn : (parseLine c).conn = cutLine c index)
  | bad (index : Nat) (found : BadAt c index) (ret : (parseLine c).ret = .lineBad)
  | cr (index : Nat) (found : FirstEnd c index) (isReturn : c.readBuf index = 13)
      (last : index + 1 = c.readIdx) (ret : (parseLine c).ret = .lineOpen)
      (conn : (parseLine c).conn = skip (index - c.checkedIdx) c)
  | plain (none : PlainBytes c.readBuf c.checkedIdx c.readIdx)
      (ret : (parseLine c).ret = .lineOpen)
      (conn : (parseLine c).conn = skip (c.readIdx - c.checkedIdx) c)

theorem parse_line_result (line : AtLine c) : LineResult c := by
  rcases first_end_or_plain c with ⟨index, found⟩ | plain
  · obtain ⟨passed, rfl⟩ := Nat.exists_eq_add_of_le found.lower
    have arrived := found.arrived
    obtain ⟨ret, conn⟩ := parse_line_skip passed c found.first (by omega)
    have stands : (skip passed c).checkedIdx = c.checkedIdx + passed := rfl
    have buffer : (skip passed c).readBuf = c.readBuf := rfl
    have limit : (skip passed c).readIdx = c.readIdx := rfl
    rw [@parse_line_here (skip passed c) (by omega)] at ret conn
    by_cases cr : c.readBuf (c.checkedIdx + passed) = 13
    · by_cases last : c.checkedIdx + passed + 1 = c.readIdx
      · rw [parse_line_cr_end (c := skip passed c) cr last] at ret conn
        exact .cr _ found cr last ret (by rw [Nat.add_sub_cancel_left]; exact conn)
      · by_cases lf : c.readBuf (c.checkedIdx + passed + 1) = 10
        · rw [parse_line_pair (c := skip passed c) cr last lf] at ret conn
          exact .pair _ ⟨found, cr, by omega, lf⟩ ret conn
        · rw [parse_line_cr_bad (c := skip passed c) cr last lf] at ret
          exact .bad _ ⟨found, .inr ⟨cr, by omega, lf⟩⟩ ret
    · have lf : c.readBuf (c.checkedIdx + passed) = 10 := found.found.resolve_left cr
      -- The look back finds a byte of this line, or the NUL in front of it.
      have noCr : 1 < (skip passed c).checkedIdx →
          (skip passed c).readBuf ((skip passed c).checkedIdx - 1) ≠ 13 := by
        intro later
        rw [stands] at later ⊢
        rw [buffer]
        by_cases none : passed = 0
        · subst none
          exact line.no_return (by omega)
        · exact fun cr => found.first (c.checkedIdx + passed - 1) (by omega) (by omega)
            (.inl cr)
      rw [parse_line_lf_bad (c := skip passed c) lf noCr] at ret
      exact .bad _ ⟨found, .inl lf⟩ ret
  · have arrived := line.arrived
    obtain ⟨ret, conn⟩ := parse_line_skip (c.readIdx - c.checkedIdx) c
      (by rwa [Nat.add_sub_cancel' arrived]) (by omega)
    have finished : parseLine (skip (c.readIdx - c.checkedIdx) c) =
        ⟨.lineOpen, skip (c.readIdx - c.checkedIdx) c, []⟩ := by
      have none : (skip (c.readIdx - c.checkedIdx) c).readIdx -
          (skip (c.readIdx - c.checkedIdx) c).checkedIdx = 0 := by
        simp only [skip]
        omega
      rw [parseLine, none]
      rfl
    rw [finished] at ret conn
    exact .plain plain ret conn

theorem append_read_before (more : List UInt8) {key : Nat} (before : key < c.readIdx) :
    (appendRead more c).readBuf key = c.readBuf key := store_list_before more before

/-- A call that passed plain bytes only is caught up with by a call on more bytes. -/
theorem parse_line_resumes {count : Nat} (more : List UInt8)
    (plain : PlainBytes c.readBuf c.checkedIdx (c.checkedIdx + count))
    (arrived : c.checkedIdx + count ≤ c.readIdx) (stopped : (parseLine c).conn = skip count c) :
    (parseLine (appendRead more (parseLine c).conn)).ret = (parseLine (appendRead more c)).ret ∧
      (parseLine (appendRead more (parseLine c).conn)).conn =
        (parseLine (appendRead more c)).conn := by
  have longer : appendRead more (skip count c) = skip count (appendRead more c) := rfl
  have still : PlainBytes (appendRead more c).readBuf (appendRead more c).checkedIdx
      ((appendRead more c).checkedIdx + count) := by
    intro key low high
    have high : key < c.checkedIdx + count := high
    rw [append_read_before more (by omega)]
    exact plain key low high
  have enough : (appendRead more c).checkedIdx + count ≤ (appendRead more c).readIdx := by
    simp only [appendRead]
    omega
  obtain ⟨ret, conn⟩ := parse_line_skip count (appendRead more c) still enough
  rw [stopped, longer]
  exact ⟨ret.symm, conn.symm⟩

/-- parse_line as a splitter that can be taken up again. -/
structure SplitsLines (c : HttpConn) : Prop where
  ok : (parseLine c).ret = .lineOk ↔ ∃ index, LinePairAt c index
  cut : ∀ index, LinePairAt c index → (parseLine c).conn = cutLine c index
  bad : (parseLine c).ret = .lineBad ↔ ∃ index, BadAt c index
  opens : (parseLine c).ret = .lineOpen ↔
    (¬ ∃ index, LinePairAt c index) ∧ ¬ ∃ index, BadAt c index
  unchanged : (parseLine c).ret = .lineOpen → (parseLine c).conn.readBuf = c.readBuf
  resumes : (parseLine c).ret = .lineOpen → ∀ more,
    (parseLine (appendRead more (parseLine c).conn)).ret = (parseLine (appendRead more c)).ret ∧
    (parseLine (appendRead more (parseLine c).conn)).conn = (parseLine (appendRead more c)).conn

theorem LinePairAt.not_bad {one other : Nat} (pair : LinePairAt c one)
    (bad : BadAt c other) : False := by
  have same := pair.1.unique bad.1
  subst same
  rcases bad.2 with lf | ⟨-, -, noLf⟩
  · exact absurd (pair.2.1.symm.trans lf) (by decide)
  · exact noLf pair.2.2.2

/-- The two ways of stopping with LINE_OPEN. -/
theorem SplitsLines.of_open {count : Nat} (noPair : ¬ ∃ index, LinePairAt c index)
    (noBad : ¬ ∃ index, BadAt c index) (ret : (parseLine c).ret = .lineOpen)
    (plain : PlainBytes c.readBuf c.checkedIdx (c.checkedIdx + count))
    (arrived : c.checkedIdx + count ≤ c.readIdx) (conn : (parseLine c).conn = skip count c) :
    SplitsLines c where
  ok := iff_of_false (by rw [ret]; decide) noPair
  cut index pair := absurd ⟨index, pair⟩ noPair
  bad := iff_of_false (by rw [ret]; decide) noBad
  opens := iff_of_true ret ⟨noPair, noBad⟩
  unchanged _ := by rw [conn]; rfl
  resumes _ more := parse_line_resumes more plain arrived conn

theorem parse_line_splits (c : HttpConn) (line : AtLine c) : SplitsLines c := by
  have arrived := line.arrived
  cases parse_line_result line with
  | pair index found ret conn =>
      have noBad : ¬ ∃ index, BadAt c index := fun ⟨other, bad⟩ => found.not_bad bad
      have closed : ¬ (parseLine c).ret = .lineOpen := by rw [ret]; decide
      refine ⟨iff_of_true ret ⟨index, found⟩, fun other pair => ?_,
        iff_of_false (by rw [ret]; decide) noBad,
        iff_of_false closed fun neither => neither.1 ⟨index, found⟩,
        fun opened => absurd opened closed, fun opened => absurd opened closed⟩
      rw [pair.1.unique found.1]
      exact conn
  | bad index found ret =>
      have noPair : ¬ ∃ index, LinePairAt c index := fun ⟨other, pair⟩ => pair.not_bad found
      have closed : ¬ (parseLine c).ret = .lineOpen := by rw [ret]; decide
      exact ⟨iff_of_false (by rw [ret]; decide) noPair,
        fun other pair => absurd ⟨other, pair⟩ noPair,
        iff_of_true ret ⟨index, found⟩, iff_of_false closed fun neither => neither.2 ⟨index, found⟩,
        fun opened => absurd opened closed, fun opened => absurd opened closed⟩
  | cr index found isReturn last ret conn =>
      have here := found.lower
      refine .of_open ?_ ?_ ret (by rw [Nat.add_sub_cancel' here]; exact found.first)
        (by omega) conn
      · rintro ⟨other, pair⟩
        have same := pair.1.unique found
        have inside := pair.2.2.1
        omega
      · rintro ⟨other, bad⟩
        have same := bad.1.unique found
        subst same
        rcases bad.2 with lf | ⟨-, inside, -⟩
        · exact absurd (isReturn.symm.trans lf) (by decide)
        · omega
  | plain none ret conn =>
      have noEnd (index : Nat) : ¬ FirstEnd c index :=
        fun found => none index found.lower found.arrived found.found
      exact .of_open (fun ⟨index, pair⟩ => noEnd index pair.1)
        (fun ⟨index, bad⟩ => noEnd index bad.1)
        ret (by rwa [Nat.add_sub_cancel' arrived]) (by omega) conn

/-- A line whose CR has come without its LF. -/
theorem parse_line_splits_half : SplitsLines { HttpConn.unused with
    readBuf := storeList (fun _ => 0) 0 [71, 69, 84, 13]
    readIdx := 4
    checkedIdx := 1 } :=
  parse_line_splits _ ⟨by decide, by decide, by
    intro key low high
    have start : key = 0 := Nat.lt_one_iff.mp high
    subst start
    decide, .inl rfl⟩

end StudyWebServer
