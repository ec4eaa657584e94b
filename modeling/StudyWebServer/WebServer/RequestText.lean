import StudyWebServer.WebServer.FormFields

/-!
What parse makes of the text of a request. A request that is complete is read to the blank line
and one line beyond it, whatever that is; one that is not is taken for complete at the end of the
buffer.
-/

namespace StudyWebServer.WebServer.HttpRequest

open CString Cutting Buffer

section Lines
variable {line rest key value : Bytes}

/-- No end of a line in it. -/
def OneLine (line : Bytes) : Prop := ¬ crlf <:+: line

instance (line : Bytes) : Decidable (OneLine line) := inferInstanceAs (Decidable (¬ _))

theorem cut_line (one : OneLine line) (rest : Bytes) :
    cut crlf (line ++ crlf ++ rest) = (line, some rest) := by
  refine cut_found (by decide) (fun inside => ?_) rest
  rcases List.infix_concat_iff.mp inside with ⟨before, same⟩ | earlier
  · have last := congrArg List.getLast? same
    rw [List.getLast?_append, List.getLast?_append] at last
    simp [crlf] at last
  · exact one earlier

theorem cut_last (one : OneLine line) : cut crlf line = (line, none) := cut_none one

/-- What the regular expression of the request line says. -/
theorem match_request_line_iff {method path version : Bytes} :
    matchRequestLine line = some (method, path, version) ↔
      line = method ++ 32 :: (path ++ 32 :: (ascii "HTTP/" ++ version)) ∧
        (32 : UInt8) ∉ method ∧ (32 : UInt8) ∉ path ∧ (32 : UInt8) ∉ version := by
  unfold matchRequestLine
  constructor
  · intro matched
    split at matched
    · next found behind first =>
        split at matched
        · next other last second =>
            split_ifs at matched with http
            cases matched
            obtain ⟨tail, rfl⟩ := List.isPrefixOf_iff_prefix.mp http.1
            rw [cut_at_iff] at first second
            refine ⟨?_, first.2, second.2, fun member => http.2 (List.mem_append_right _ member)⟩
            rw [first.1, second.1]
            rfl
        · cases matched
    · cases matched
  · rintro ⟨rfl, noMethod, noPath, noVersion⟩
    rw [cut_at noMethod]
    dsimp only
    rw [cut_at noPath]
    dsimp only
    have last : (32 : UInt8) ∉ ascii "HTTP/" ++ version := fun member => by
      rcases List.mem_append.mp member with http | later
      · exact absurd http (by decide)
      · exact noVersion later
    exact if_pos ⟨List.isPrefixOf_iff_prefix.mpr (List.prefix_append _ _), last⟩

theorem without_space_cases (behind : Bytes) : behind = 32 :: withoutSpace behind ∨
    withoutSpace behind = behind ∧ behind.head? ≠ some 32 := by
  unfold withoutSpace
  split_ifs with space
  · obtain ⟨tail, rfl⟩ := List.head?_eq_some_iff.mp space
    exact .inl rfl
  · exact .inr ⟨rfl, space⟩

/-- What the regular expression of a header says. -/
theorem match_header_iff : matchHeader line = some (key, value) ↔
    (line = key ++ 58 :: 32 :: value ∨ line = key ++ 58 :: value ∧ value.head? ≠ some 32) ∧
      (58 : UInt8) ∉ key ∧ (10 : UInt8) ∉ value ∧ (13 : UInt8) ∉ value := by
  unfold matchHeader
  constructor
  · intro matched
    split at matched
    · next found behind first =>
        split_ifs at matched with plain
        cases matched
        rw [cut_at_iff] at first
        rcases without_space_cases behind with same | ⟨same, noSpace⟩
        · have within {ch : UInt8} (member : ch ∈ withoutSpace behind) : ch ∈ behind := by
            rw [same]
            exact List.mem_cons_of_mem _ member
          exact ⟨.inl (first.1.trans (congrArg (key ++ 58 :: ·) same)), first.2,
            fun member => plain.1 (within member), fun member => plain.2 (within member)⟩
        · rw [same]
          exact ⟨.inr ⟨first.1, noSpace⟩, first.2, plain⟩
    · cases matched
  · rintro ⟨rfl | ⟨rfl, noSpace⟩, noColon, noLf, noCr⟩
    · rw [cut_at noColon]
      dsimp only
      rw [if_pos]
      · rfl
      · simp [noLf, noCr]
    · rw [cut_at noColon]
      dsimp only
      rw [if_pos ⟨noLf, noCr⟩, withoutSpace, if_neg noSpace]

end Lines

section Rounds
variable {verify : Bytes → Bytes → Bool → Bool} {r after : HttpRequest}
  {b : Buffer} {line rest : Bytes}

theorem readable_zero (wellFormed : WellFormed b) : b.readableBytes = 0 ↔ b.contents = [] := by
  rw [← List.length_eq_zero_iff, wellFormed.contents_length]

variable (verify) in
theorem round_done (wellFormed : WellFormed b) (ended : b.contents = [] ∨ r.state = .finish) :
    parseRound verify (r, b) = .inr (.ok (true, r, b)) := by
  rw [← readable_zero wellFormed] at ended
  unfold parseRound
  exact if_pos ended

theorem round_reads (wellFormed : WellFormed b) (some_bytes : b.contents ≠ [])
    (unfinished : r.state ≠ .finish) : parseRound verify (r, b) =
      match r.takeLine verify (cut crlf b.contents).1 b.contents.length with
      | .error fault => .inr (.error fault)
      | .ok none => .inr (.ok (false, r, b))
      | .ok (some r) =>
          match (cut crlf b.contents).2 with
          | none => .inr (.ok (true, r, b))
          | some _ =>
              match b.retrieveUntil ((cut crlf b.contents).1.length + 2) with
              | .error fault => .inr (.error fault)
              | .ok b => .inl (r, b) := by
  have going : ¬ (b.readableBytes = 0 ∨ r.state = .finish) := by
    rw [readable_zero wellFormed]
    exact fun ended => ended.elim some_bytes unfinished
  unfold parseRound
  dsimp only
  rw [if_neg going, load_contents wellFormed]
  exact wellFormed.contents_length ▸ rfl

theorem round_line (wellFormed : WellFormed b) (one : OneLine line)
    (bytes : b.contents = line ++ crlf ++ rest) (unfinished : r.state ≠ .finish)
    (take : r.takeLine verify line b.contents.length = .ok (some after)) :
    ∃ next, parseRound verify (r, b) = .inl (after, next) ∧ WellFormed next ∧
    next.contents = rest := by
  have some_bytes : b.contents ≠ [] := by
    rw [bytes]
    simp [crlf]
  have inside : (line ++ crlf).length ≤ b.contents.length := by
    rw [bytes]
    exact (List.prefix_append (line ++ crlf) rest).length_le
  obtain ⟨next, went, good, contents, -⟩ := retrieve_spec wellFormed inside
  refine ⟨next, ?_, good, ?_⟩
  · have distance : b.retrieveUntil ((line.length : Int) + 2) = .ok next := by
      have size : sizeT ((line.length : Int) + 2) = (line ++ crlf).length := by
        have readable := wellFormed.contents_length
        unfold readableBytes at readable
        have bound : b.contents.length < 18446744073709551616 := by
          rw [readable]
          unfold sizeT
          omega
        rw [List.length_append] at inside ⊢
        change line.length + 2 ≤ _ at inside
        show _ = line.length + 2
        unfold sizeT
        omega
      unfold retrieveUntil
      rw [if_pos (by omega), size, went]
    rw [round_reads wellFormed some_bytes unfinished, bytes, cut_line one rest]
    dsimp only
    rw [← bytes, take, distance]
  · rw [contents, bytes, List.drop_left]

theorem round_last (wellFormed : WellFormed b) (one : OneLine b.contents)
    (some_bytes : b.contents ≠ [])
    (unfinished : r.state ≠ .finish)
    (take : r.takeLine verify b.contents b.contents.length = .ok (some after)) :
    parseRound verify (r, b) = .inr (.ok (true, after, b)) := by
  rw [round_reads wellFormed some_bytes unfinished, cut_last one]
  dsimp only
  rw [take]

theorem round_refused (wellFormed : WellFormed b) (some_bytes : b.contents ≠ [])
    (unfinished : r.state ≠ .finish)
    (take : r.takeLine verify (cut crlf b.contents).1 b.contents.length = .ok none) :
    parseRound verify (r, b) = .inr (.ok (false, r, b)) := by
  rw [round_reads wellFormed some_bytes unfinished, take]

end Rounds

section Heads
variable (verify : Bytes → Bytes → Bool → Bool) {r : HttpRequest} {b : Buffer}
  {first method path version rest : Bytes} {lines : List Bytes} {fields : List (Bytes × Bytes)}

/-- Lines with the fields that they hold. -/
def Headers (lines : List Bytes) (fields : List (Bytes × Bytes)) : Prop :=
  List.Forall₂ (fun line field => OneLine line ∧ matchHeader line = some field) lines fields

def text (lines : List Bytes) : Bytes := lines.flatMap (· ++ crlf)

/-- The request when these headers are read. -/
def headOf (state : ParseState) (method path version : Bytes) (fields : List (Bytes × Bytes)) :
    HttpRequest :=
  { init with
    state := state
    method := method
    path := htmlPath path
    version := version
    header := putFields init.header fields }

theorem header_not_blank {line : Bytes} {field : Bytes × Bytes}
    (matched : matchHeader line = some field) : 0 < line.length := by
  obtain ⟨rfl | ⟨rfl, -⟩, -⟩ := match_header_iff.mp matched <;> simp

theorem read_headers (headers : Headers lines fields) (wellFormed : WellFormed b)
    (state : r.state = .headers) (bytes : b.contents = text lines ++ rest) :
    ∃ next, parseLines verify (r, b) =
        parseLines verify ({ r with header := putFields r.header fields }, next) ∧
      WellFormed next ∧ next.contents = rest := by
  induction headers generalizing r b with
  | nil => exact ⟨b, rfl, wellFormed, bytes⟩
  | @cons line field lines fields matched headers ih =>
      obtain ⟨one, matched⟩ := matched
      have front : b.contents = line ++ crlf ++ (text lines ++ rest) := by
        rw [bytes]
        simp [text]
      have longer : ¬ b.contents.length ≤ 2 := by
        have filled := header_not_blank matched
        rw [front, List.length_append, List.length_append]
        show ¬ line.length + 2 + _ ≤ 2
        omega
      have take : r.takeLine verify line b.contents.length =
          .ok (some { r with header := Function.update r.header field.1 (some field.2) }) := by
        unfold takeLine
        rw [state]
        dsimp only
        rw [if_neg longer, parseHeader, matched, ← state]
      obtain ⟨next, round, good, after⟩ :=
        round_line wellFormed one front (by rw [state]; exact nofun) take
      obtain ⟨last, runs, fine, contents⟩ := ih (r := { r with
        header := Function.update r.header field.1 (some field.2) }) good state after
      exact ⟨last, (Loop.run_again round).trans runs, fine, contents⟩

theorem read_head (matched : matchRequestLine first = some (method, path, version))
    (one : OneLine first)
    (headers : Headers lines fields) (wellFormed : WellFormed b)
    (bytes : b.contents = text (first :: lines) ++ rest) :
    ∃ next, parse verify init b = parseLines verify
    (headOf .headers method path version fields, next) ∧
      WellFormed next ∧ next.contents = rest := by
  have front : b.contents = first ++ crlf ++ (text lines ++ rest) := by
    rw [bytes]
    simp [text]
  have take : init.takeLine verify first b.contents.length =
      .ok (some (headOf .headers method path version [])) := by
    show Except.ok ((init.parseRequestLine first).map parsePath) = _
    rw [parseRequestLine, matched]
    rfl
  obtain ⟨middle, round, good, after⟩ :=
    round_line wellFormed one front (fun same => by cases same) take
  obtain ⟨next, runs, fine, contents⟩ :=
    read_headers verify headers good (r := headOf .headers method path version []) rfl after
  refine ⟨next, ?_, fine, contents⟩
  have some_bytes : ¬ b.readableBytes = 0 := by
    rw [readable_zero wellFormed, front]
    simp [crlf]
  unfold parse
  rw [if_neg some_bytes]
  exact (Loop.run_again round).trans runs

/-- What is left in the buffer of what follows the blank line. -/
def behind (rest : Bytes) : Bytes := (cut crlf rest).2.getD rest

/-- The blank line: the request is finished when nothing follows it. -/
theorem take_blank (state : r.state = .headers) (readable : Nat) :
    r.takeLine verify [] readable =
      .ok (some { r with state := if readable ≤ 2 then .finish else .body }) := by
  unfold takeLine
  rw [state]
  dsimp only
  rw [show r.parseHeader [] = { r with state := .body } from rfl]
  split <;> rfl

theorem cut_cases (bytes : Bytes) : (∃ line rest, cut crlf bytes = (line, some rest) ∧
    bytes = line ++ crlf ++ rest ∧ OneLine line) ∨
    (cut crlf bytes = (bytes, none) ∧ OneLine bytes) := by
  have clear := cut_clear (show crlf ≠ [] by decide) bytes
  cases found : (cut crlf bytes).2 with
  | some rest => exact .inl ⟨_, rest, Prod.ext rfl found, cut_join found, clear⟩
  | none =>
      have whole := cut_whole found
      rw [whole] at clear
      exact .inr ⟨Prod.ext whole found, clear⟩

theorem parse_body_finish {line : Bytes} {after : HttpRequest}
    (parsed : r.parseBody verify line = .ok after) :
    after.state = .finish := by
  unfold parseBody at parsed
  split at parsed
  · cases parsed
  · cases parsed
    rfl

theorem read_body (wellFormed : WellFormed b) (state : r.state = .body)
    (some_bytes : b.contents ≠ []) :
    match r.parseBody verify (cut crlf b.contents).1 with
    | .error fault => parseLines verify (r, b) = .error fault
    | .ok after => ∃ next, parseLines verify (r, b) = .ok (true, after, next) ∧ WellFormed next ∧
        next.contents = behind b.contents := by
  have unfinished : r.state ≠ .finish := by
    rw [state]
    exact nofun
  have takes (line : Bytes) (readable : Nat) :
      r.takeLine verify line readable = (parseBody verify r line).map some := by
    unfold takeLine
    rw [state]
  cases parsed : r.parseBody verify (cut crlf b.contents).1 with
  | error fault =>
      refine Loop.run_return ?_
      rw [round_reads wellFormed some_bytes unfinished, takes, parsed]
      rfl
  | ok after =>
      have take := takes (cut crlf b.contents).1 b.contents.length
      rw [parsed] at take
      rcases cut_cases b.contents with ⟨line, rest, found, bytes, one⟩ | ⟨found, one⟩
      · rw [found] at take
        obtain ⟨next, round, good, contents⟩ := round_line wellFormed one bytes unfinished take
        have done := round_done verify good (.inr (parse_body_finish verify parsed))
        refine ⟨next, (Loop.run_again round).trans (Loop.run_return done), good, ?_⟩
        rw [contents, behind, found]
        rfl
      · rw [found] at take
        refine ⟨b, Loop.run_return (round_last wellFormed one some_bytes unfinished take),
          wellFormed, ?_⟩
        rw [behind, found]
        rfl

/-- The lines up to the blank one. -/
theorem parse_head (matched : matchRequestLine first = some (method, path, version))
    (one : OneLine first) (headers : Headers lines fields) (wellFormed : WellFormed b)
    (bytes : b.contents = text (first :: lines) ++ crlf ++ rest) :
    ∃ next, parse verify init b = parseLines verify
        (headOf (if rest = [] then .finish else .body) method path version fields, next) ∧
      WellFormed next ∧ next.contents = rest := by
  rw [List.append_assoc] at bytes
  obtain ⟨middle, parses, good, contents⟩ := read_head verify matched one headers wellFormed bytes
  have size : middle.contents.length = rest.length + 2 := by
    rw [contents, List.length_append]
    exact Nat.add_comm ..
  have take := take_blank verify (r := headOf .headers method path version fields) rfl
    middle.contents.length
  obtain ⟨next, round, fine, after⟩ := round_line good (show OneLine [] by decide) contents
    (fun same => by cases same) take
  refine ⟨next, (parses.trans (Loop.run_again round)).trans ?_, fine, after⟩
  have nothing : middle.contents.length ≤ 2 ↔ rest = [] := by
    rw [size, ← List.length_eq_zero_iff]
    omega
  rw [if_congr nothing rfl rfl]
  rfl

/-- More follows the blank line. -/
theorem parse_followed (matched : matchRequestLine first = some (method, path, version))
    (one : OneLine first) (headers : Headers lines fields) (wellFormed : WellFormed b)
    (bytes : b.contents = text (first :: lines) ++ crlf ++ rest) (more : rest ≠ []) :
    match (headOf .body method path version fields).parseBody verify (cut crlf rest).1 with
    | .error fault => parse verify init b = .error fault
    | .ok r => ∃ next, parse verify init b = .ok (true, r, next) ∧ WellFormed next ∧
        next.contents = behind rest := by
  obtain ⟨next, parses, fine, after⟩ := parse_head verify matched one headers wellFormed bytes
  rw [if_neg more] at parses
  have body := read_body verify fine (r := headOf .body method path version fields) rfl (by
    rw [after]
    exact more)
  rw [after] at body
  split at body
  · exact parses.trans body
  · obtain ⟨last, runs, well, left⟩ := body
    exact ⟨last, parses.trans runs, well, left⟩

/-- Nothing follows the blank line. -/
theorem parse_alone (matched : matchRequestLine first = some (method, path, version))
    (one : OneLine first) (headers : Headers lines fields) (wellFormed : WellFormed b)
    (bytes : b.contents = text (first :: lines) ++ crlf) :
    ∃ next, parse verify init b = .ok (true, headOf .finish method path version fields, next) ∧
      WellFormed next ∧ next.contents = [] := by
  obtain ⟨next, parses, fine, after⟩ := parse_head verify matched one headers wellFormed
    (bytes.trans (List.append_nil _).symm)
  exact ⟨next, parses.trans (Loop.run_return (round_done verify fine (.inr rfl))), fine, after⟩

/-- A complete request is read with its headers, the last of a name being kept. When more
follows the blank line, its first line is taken for the body; without an end it is not taken out
of the buffer. -/
theorem parse_request (matched : matchRequestLine first = some (method, path, version))
    (one : OneLine first) (headers : Headers lines fields) (wellFormed : WellFormed b)
    (bytes : b.contents = text (first :: lines) ++ crlf ++ rest) :
    (rest = [] → ∃ next, parse verify init b =
      .ok (true, headOf .finish method path version fields, next) ∧
      WellFormed next ∧ next.contents = []) ∧
    (rest ≠ [] →
      match (headOf .body method path version fields).parseBody verify (cut crlf rest).1 with
      | .error fault => parse verify init b = .error fault
      | .ok r => ∃ next, parse verify init b = .ok (true, r, next) ∧ WellFormed next ∧
          next.contents = behind rest) := by
  refine ⟨fun nothing => ?_, parse_followed verify matched one headers wellFormed bytes⟩
  subst nothing
  exact parse_alone verify matched one headers wellFormed (bytes.trans (List.append_nil _))

end Heads

section Answers
variable (verify : Bytes → Bytes → Bool → Bool) {r : HttpRequest} {b : Buffer}
  {first method path version rest started piece : Bytes} {lines : List Bytes}
  {fields : List (Bytes × Bytes)}

theorem parse_header_path (r : HttpRequest)
    (line : Bytes) : (r.parseHeader line).path = r.path := by
  unfold parseHeader
  split <;> rfl

theorem retrieve_well_formed {b next : Buffer} {len : Nat} (wellFormed : WellFormed b)
    (went : b.retrieve len = .ok next) : WellFormed next := by
  by_cases enough : len ≤ b.contents.length
  · obtain ⟨other, same, good, -⟩ := retrieve_spec wellFormed enough
    cases same.symm.trans went
    exact good
  · cases (retrieve_too_much wellFormed (Nat.not_le.mp enough)).symm.trans went

theorem round_well_formed {s next : HttpRequest × Buffer} (wellFormed : WellFormed s.2)
    (round : parseRound verify s = .inl next) : WellFormed next.2 := by
  unfold parseRound at round
  dsimp only at round
  split_ifs at round
  split at round
  · cases round
  · split at round
    · cases round
    · cases round
    · split at round
      · cases round
      · split at round
        · cases round
        · next went =>
            cases round
            unfold retrieveUntil at went
            split_ifs at went
            exact retrieve_well_formed wellFormed went

theorem return_same {s : HttpRequest × Buffer} {done : Bool} {after : HttpRequest} {next : Buffer}
    (round : parseRound verify s = .inr (.ok (done, after, next))) : next = s.2 := by
  unfold parseRound at round
  dsimp only at round
  split_ifs at round
  · cases round
    rfl
  · split at round
    · cases round
    · split at round
      · cases round
      · cases round
        rfl
      · split at round
        · cases round
          rfl
        · split at round <;> cases round

/-- Whatever came, parse leaves a buffer as it should be. -/
theorem parse_well_formed {r after : HttpRequest} {b next : Buffer} {done : Bool}
    (wellFormed : WellFormed b)
    (parsed : parse verify r b = .ok (done, after, next)) : WellFormed next := by
  have lines (s : HttpRequest × Buffer) : WellFormed s.2 → ∀ done after next,
      parseLines verify s = .ok (done, after, next) → WellFormed next := by
    refine Loop.run_induction (motive := fun (s : HttpRequest × Buffer) value => WellFormed s.2 →
      ∀ done after next, value = Except.ok (done, after, next) → WellFormed next) ?_ ?_ s
    · intro s next value round ih good
      exact ih (round_well_formed verify good round)
    · intro s value round good done after next same
      subst same
      rw [return_same verify round]
      exact good
  unfold parse at parsed
  split_ifs at parsed
  · cases parsed
    exact wellFormed
  · exact lines (r, b) wellFormed done after next parsed

theorem process_well_formed {answer : Option Answer} {after : HttpRequest} {b next : Buffer}
    (wellFormed : WellFormed b) (went : process verify b = .ok (answer, after, next)) :
    WellFormed next := by
  unfold process at went
  split_ifs at went
  · cases went
    exact wellFormed
  · split at went
    · cases went
    · next parsed =>
        cases went
        exact parse_well_formed verify wellFormed parsed
    · next parsed =>
        cases went
        exact parse_well_formed verify wellFormed parsed

theorem process_parsed {after : HttpRequest} {next : Buffer} (wellFormed : WellFormed b)
    (filled : b.contents ≠ []) (parsed : parse verify init b = .ok (true, after, next)) :
    process verify b = .ok (some ⟨200, after.path, after.isKeepAlive⟩, after, next) := by
  unfold process
  rw [if_neg ((readable_zero wellFormed).not.mpr filled), parsed]

/-- A first line that is not a request line stays in the buffer. -/
theorem process_refused (wellFormed : WellFormed b) (filled : b.contents ≠ [])
    (refused : matchRequestLine (cut crlf b.contents).1 = none) :
    process verify b = .ok (some ⟨400, [], false⟩, init, b) := by
  have some_bytes := (readable_zero wellFormed).not.mpr filled
  have take : init.takeLine verify (cut crlf b.contents).1 b.contents.length = .ok none := by
    show Except.ok ((init.parseRequestLine (cut crlf b.contents).1).map parsePath) = _
    rw [parseRequestLine, refused]
    rfl
  have parsed : parse verify init b = .ok (false, init, b) := by
    unfold parse
    rw [if_neg some_bytes]
    exact Loop.run_return (round_refused wellFormed filled (fun same => by cases same) take)
  unfold process
  rw [if_neg some_bytes, parsed]
  rfl

/-- A request line with a header. -/
def shortLines : List Bytes := [ascii "GET / HTTP/1.1", ascii "A:b"]

theorem short_first : matchRequestLine (ascii "GET / HTTP/1.1") =
    some (ascii "GET", ascii "/", ascii "1.1") :=
  match_request_line_iff.mpr ⟨by decide, by decide, by decide, by decide⟩

theorem short_headers : Headers [ascii "A:b"] [(ascii "A", ascii "b")] :=
  .cons ⟨by decide, by decide⟩ .nil

/-- The buffer when these bytes have come. -/
def arrived (bytes : Bytes) : Buffer := ⟨bytes, 0, bytes.length⟩

theorem arrived_well_formed {bytes : Bytes} (small : bytes.length ≤ maxSize) :
    WellFormed (arrived bytes) :=
  ⟨Nat.zero_le _, Nat.le_refl _, small⟩

theorem arrived_contents (bytes : Bytes) : (arrived bytes).contents = bytes := by
  unfold contents arrived
  rw [List.drop_zero, Nat.sub_zero, List.take_length]

theorem parse_request_short : ∃ next, parse (fun _ _ _ => false) init
      (arrived (text shortLines ++ crlf ++ [])) =
      .ok (true, headOf .finish (ascii "GET") (ascii "/")
        (ascii "1.1") [(ascii "A", ascii "b")], next) ∧ WellFormed next ∧ next.contents = [] :=
  (parse_request _ short_first (by decide) short_headers (arrived_well_formed (by decide))
    (arrived_contents _)).1 rfl

/-- A request that is cut within its headers is answered at once, and what comes later is then
answered by 400 unless a request line happens to be next. -/
theorem split_request_answered (matched : matchRequestLine first = some (method, path, version))
    (one : OneLine first) (headers : Headers lines fields) (wellFormed : WellFormed b)
    (bytes : b.contents = text (first :: lines) ++ started) (unended : OneLine started) :
    ∃ r next, process verify b = .ok (some ⟨200, htmlPath path, r.isKeepAlive⟩, r, next) ∧
      next.contents = started ∧
      ∀ piece again, WellFormed again → again.contents = started ++ piece → piece ≠ [] →
        matchRequestLine (cut crlf (started ++ piece)).1 = none →
        process verify again = .ok (some ⟨400, [], false⟩, init, again) := by
  have filled : b.contents ≠ [] := by
    rw [bytes]
    simp [text, crlf]
  obtain ⟨middle, parses, good, contents⟩ := read_head verify matched one headers wellFormed bytes
  have later (piece : Bytes) (again : Buffer) (fine : WellFormed again)
      (holds : again.contents = started ++ piece) (some_bytes : piece ≠ [])
      (refused : matchRequestLine (cut crlf (started ++ piece)).1 = none) :
      process verify again = .ok (some ⟨400, [], false⟩, init, again) := by
    rw [← holds] at refused
    refine process_refused verify fine ?_ refused
    rw [holds]
    exact List.append_ne_nil_of_right_ne_nil started some_bytes
  by_cases empty : started = []
  · have done := round_done verify (r := headOf .headers method path version fields) good
      (.inl (contents.trans empty))
    exact ⟨_, middle, process_parsed verify wellFormed filled
      (parses.trans (Loop.run_return done)), contents, later⟩
  · obtain ⟨after, take, kept⟩ : ∃ after,
      (headOf .headers method path version fields).takeLine verify
        middle.contents middle.contents.length = .ok (some after) ∧ after.path = htmlPath path := by
      refine ⟨_, rfl, ?_⟩
      split
      · exact parse_header_path _ _
      · exact parse_header_path _ _
    have last := round_last good (contents ▸ unended) (contents ▸ empty)
      (fun same => by cases same) take
    refine ⟨after, middle, ?_, contents, later⟩
    rw [← kept]
    exact process_parsed verify wellFormed filled (parses.trans (Loop.run_return last))

/-- The blank line of a request comes later than the lines before it. -/
theorem split_request_answered_short :
    ∃ r next, process (fun _ _ _ => false) (arrived (text shortLines ++
      [])) = .ok (some ⟨200, ascii "/index.html", r.isKeepAlive⟩, r, next) ∧
    process (fun _ _ _ => false) (arrived crlf) =
    .ok (some ⟨400, [], false⟩, init, arrived crlf) := by
  obtain ⟨r, next, first, -, second⟩ := split_request_answered (fun _ _ _ => false) short_first
    (by decide) short_headers (arrived_well_formed (by decide))
      (arrived_contents (text shortLines ++ []))
    (by decide)
  exact ⟨r, next, first, second crlf (arrived crlf)
    (arrived_well_formed (by decide)) (arrived_contents crlf)
    (by decide) (by decide)⟩

end Answers

section Forms
variable (verify : Bytes → Bytes → Bool → Bool) {r : HttpRequest} {b : Buffer}
  {first method path version : Bytes} {lines : List Bytes}
  {fields raws texts : List (Bytes × Bytes)}

end Forms

end StudyWebServer.WebServer.HttpRequest
