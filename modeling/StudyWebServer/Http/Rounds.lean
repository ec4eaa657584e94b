import StudyWebServer.Http.RequestParser

/-!
The rounds of one call of process_read. A round begins with a line that the
scanner has just found, so it takes bytes off the buffer; only the first round
in the body state may be one that did not scan.
-/

namespace StudyWebServer

open ByteMemory

variable {fs : FileSystem} {c : HttpConn} {loop next : ReadLoop}

/-- What the loop stands at between two rounds, and whether a round of this call
has run in the body state. -/
inductive Visited (fs : FileSystem) (c : HttpConn) : (inBody : Prop) → ReadLoop → Prop where
  | start : Visited fs c False ⟨.lineOk, c, []⟩
  | round {inBody : Prop} {loop next : ReadLoop} : Visited fs c inBody loop →
      readRound fs loop = .inl next → Visited fs c (inBody ∨ loop.conn.checkState = .content) next

/-- The round was let in by the scanner, which moved over at least one byte. -/
structure Scans (loop : ReadLoop) : Prop where
  line : nextLine loop = parseLine loop.conn
  moved : loop.conn.checkedIdx < (nextLine loop).conn.checkedIdx
  arrived : (nextLine loop).conn.checkedIdx ≤ loop.conn.readIdx

/-- What parse_line leaves alone: the bytes that are NUL, and all but m_checked_idx. -/
structure LineKept (c d : HttpConn) : Prop where
  checkState : d.checkState = c.checkState
  startLine : d.startLine = c.startLine
  url : d.url = c.url
  version : d.version = c.version
  host : d.host = c.host
  sockfd : d.sockfd = c.sockfd
  zeros : ∀ key, c.readBuf key = 0 → d.readBuf key = 0

theorem LineKept.refl (c : HttpConn) : LineKept c c := ⟨rfl, rfl, rfl, rfl, rfl, rfl, fun _ => id⟩

theorem cut_line_kept (c : HttpConn) (index : Nat) : LineKept c (cutLine c index) := by
  refine ⟨rfl, rfl, rfl, rfl, rfl, rfl, fun key nul => ?_⟩
  simp only [cutLine, store]
  split_ifs <;> first | rfl | exact nul

theorem parse_line_from_kept (count : Nat) (c : HttpConn) :
    LineKept c (parseLineFrom count c).conn := by
  induction count generalizing c with
  | zero => exact .refl c
  | succ count ih =>
      simp only [parseLineFrom]
      split_ifs
      all_goals first
        | exact .refl c
        | exact cut_line_kept c _
        | exact ⟨(ih (advance c)).checkState, (ih (advance c)).startLine, (ih (advance c)).url,
            (ih (advance c)).version, (ih (advance c)).host, (ih (advance c)).sockfd,
            (ih (advance c)).zeros⟩

theorem next_line_kept (loop : ReadLoop) : LineKept loop.conn (nextLine loop).conn := by
  unfold nextLine
  split_ifs
  · exact .refl loop.conn
  · exact parse_line_from_kept _ loop.conn

/-- A round in the body that goes round again leaves the scanner to decide. -/
theorem body_round_open (body : loop.conn.checkState = .content)
    (again : readRound fs loop = .inl next) :
    next.conn.checkState = .content ∧ next.lineStatus = .lineOpen := by
  obtain ⟨-, handled, line, rfl⟩ := read_round_again again
  have state : (startNextLine (nextLine loop).conn).checkState = .content :=
    (next_line_kept loop).checkState.trans body
  refine ⟨?_, (handle_line_again line).2.2 state⟩
  unfold handleLine at line
  rw [state] at line
  dsimp only at line
  split_ifs at line with enough
  cases line
  rw [parse_content_waits _ _ enough]
  exact state

/-- Behind a round in the body the loop goes on only past the scanner. -/
theorem Visited.after_body {inBody : Prop} (visited : Visited fs c inBody loop) (ran : inBody) :
    loop.conn.checkState = .content ∧ loop.lineStatus = .lineOpen := by
  induction visited with
  | start => exact ran.elim
  | round before again ih =>
      rcases ran with earlier | now
      · exact body_round_open (ih earlier).1 again
      · exact body_round_open now again

theorem scans_of_parse_line (line : nextLine loop = parseLine loop.conn)
    (entered : (nextLine loop).ret = .lineOk) : Scans loop := by
  rw [line] at entered
  have advances := parse_line_advances loop.conn entered
  exact ⟨line, by rw [line]; exact advances.1, by rw [line]; exact advances.2.1⟩

/-- The bytes the scanner has not passed, and one for the round that does not scan. -/
def roundMeasure (loop : ReadLoop) : Nat :=
  (loop.conn.readIdx - loop.conn.checkedIdx) +
    if loop.conn.checkState = .content ∧ loop.lineStatus ≠ .lineOk then 0 else 1

theorem round_measure_decreases (fs : FileSystem) : Loop.Decreases (readRound fs) roundMeasure := by
  intro loop next again
  obtain ⟨complete, handled, line, same⟩ := read_round_again again
  obtain ⟨readIdx, checkedIdx, -⟩ := handle_line_again line
  have unread : next.conn.readIdx = (nextLine loop).conn.readIdx := by rw [same]; exact readIdx
  have passed : next.conn.checkedIdx = (nextLine loop).conn.checkedIdx := by
    rw [same]; exact checkedIdx
  unfold roundMeasure
  rw [unread, passed]
  by_cases skipped : loop.conn.checkState = .content ∧ loop.lineStatus = .lineOk
  -- the round that does not scan: no byte, but the scanner has to run before the next one
  · obtain ⟨body, waiting⟩ := body_round_open skipped.1 again
    have entered : nextLine loop = ⟨.lineOk, loop.conn, []⟩ := if_pos skipped
    rw [entered, if_pos ⟨body, by rw [waiting]; decide⟩, if_neg fun other => other.2 skipped.2]
    exact Nat.lt_succ_self _
  · have scanned : nextLine loop = parseLine loop.conn := if_neg skipped
    rw [scanned] at complete ⊢
    have advanced := parse_line_advances loop.conn complete
    rw [advanced.2.2]
    by_cases body : loop.conn.checkState = .content
    -- a line found in the body: the state stays, and the byte counts
    · obtain ⟨stays, waiting⟩ := body_round_open body again
      rw [if_pos ⟨stays, by rw [waiting]; decide⟩]
      omega
    · rw [if_neg fun other : loop.conn.checkState = .content ∧ _ => body other.1]
      split_ifs <;> omega

/-- A call runs few rounds, and each takes bytes but for one. -/
structure Terminates (fs : FileSystem) (c : HttpConn) : Prop where
  returns : Loop.attempt (readRound fs) (c.readIdx - c.checkedIdx + 2) ⟨.lineOk, c, []⟩ =
    some (processRead fs c)
  consumes : ∀ inBody loop, Visited fs c inBody loop → (nextLine loop).ret = .lineOk →
    Scans loop ∨ loop.conn.checkState = .content ∧ ¬ inBody

theorem process_read_terminates (fs : FileSystem) (c : HttpConn) : Terminates fs c := by
  constructor
  · apply Loop.attempt_run (round_measure_decreases fs)
    unfold roundMeasure
    dsimp only
    split_ifs <;> omega
  · intro inBody loop visited entered
    by_cases skipped : loop.conn.checkState = .content ∧ loop.lineStatus = .lineOk
    · refine .inr ⟨skipped.1, fun ran => ?_⟩
      have waiting := (visited.after_body ran).2
      rw [skipped.2] at waiting
      cases waiting
    · exact .inl (scans_of_parse_line (if_neg skipped) entered)

end StudyWebServer
