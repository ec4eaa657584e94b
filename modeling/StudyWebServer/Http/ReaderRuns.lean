import StudyWebServer.Http.ReaderRefinement

/-!
The reader over the reads of one request. Bytes are neither lost nor read twice,
a head that is not complete leaves the reader at rest in front of what the next
read continues, and a call in the body serves the request if one of its looks
passes.
-/

namespace StudyWebServer

open ByteMemory CString MachineInt CrlfLines

/-- `w` stands further on in the bytes of `r`. -/
def Advanced (r w : Reader) : Prop :=
  ∃ consumed, r.unread = consumed ++ w.unread ∧ w.position = r.position + consumed.length

theorem Advanced.trans {r s t : Reader} (first : Advanced r s) (second : Advanced s t) :
    Advanced r t := by
  obtain ⟨before, unread, position⟩ := first
  obtain ⟨after, later, moved⟩ := second
  refine ⟨before ++ after, by rw [unread, later, List.append_assoc], ?_⟩
  rw [moved, position, List.length_append, Nat.add_assoc]

theorem Advanced.total {r w : Reader} (advanced : Advanced r w) :
    w.position + w.unread.length = r.position + r.unread.length := by
  obtain ⟨consumed, unread, position⟩ := advanced
  rw [position, unread, List.length_append, Nat.add_assoc]

section Head

theorem turn_advanced {r : Reader} {line rest : List UInt8}
    (found : scan r.unread = .line line rest) : Advanced r (r.turn (line.length + 2) rest) := by
  refine ⟨line ++ [13, 10], ?_, ?_⟩
  · rw [(scan_line_split found).1]
    simp [Reader.turn]
  · simp [Reader.turn, Reader.position]

theorem stop_advanced {r : Reader} {passed rest : List UInt8}
    (found : scan r.unread = .stopped passed rest) : Advanced r (r.stop passed rest) := by
  refine ⟨passed, (scan_stopped_split found).1, ?_⟩
  simp only [Reader.stop, Reader.position, List.length_append, Nat.add_assoc]

@[simp] theorem header_line_position (line : List UInt8) (r : Reader) :
    (headerLine line r).position = r.position := by
  unfold headerLine
  repeat' (first | rfl | split | simp only)

/-- What a line of the head leaves standing where the line left it. -/
def Head.reader : Head → Reader
  | .waiting r => r
  | .refused r => r
  | .complete r => r

theorem head_line_advanced (line : List UInt8) (r next : Reader) :
    match headLine line r next with
    | .inl after => after.unread = next.unread ∧ after.position = next.position
    | .inr head => head.reader.unread = next.unread ∧ head.reader.position = next.position := by
  unfold headLine
  dsimp only
  split_ifs
  · exact ⟨rfl, rfl⟩
  · exact ⟨rfl, rfl⟩
  · exact ⟨rfl, rfl⟩
  · exact ⟨header_line_unread _ _, header_line_position _ _⟩

theorem advanced_congr {r s t : Reader} (advanced : Advanced r s)
    (same : t.unread = s.unread ∧ t.position = s.position) : Advanced r t := by
  obtain ⟨consumed, unread, position⟩ := advanced
  exact ⟨consumed, by rw [unread, same.1], by rw [same.2, position]⟩

theorem head_round_advanced (r : Reader) :
    match headRound r with
    | .inl after => Advanced r after
    | .inr head => Advanced r head.reader := by
  cases found : scan r.unread with
  | stopped passed rest =>
      rw [head_round_stopped found]
      exact stop_advanced found
  | line line rest =>
      have step := head_line_advanced (text (r.held ++ line)) r (r.turn (line.length + 2) rest)
      rw [head_round_line found]
      cases result : headLine (text (r.held ++ line)) r (r.turn (line.length + 2) rest) with
      | inl after =>
          rw [result] at step
          exact advanced_congr (turn_advanced found) step
      | inr head =>
          rw [result] at step
          exact advanced_congr (turn_advanced found) step

theorem read_head_advanced (r : Reader) : Advanced r (readHead r).reader := by
  refine Loop.run_induction (motive := fun (r : Reader) (head : Head) => Advanced r head.reader)
    ?_ ?_ r
  · intro r next head round ih
    have step := head_round_advanced r
    rw [round] at step
    exact step.trans ih
  · intro r head round
    have step := head_round_advanced r
    rw [round] at step
    exact step

/-- The bytes of a request, taken apart where its head ends. -/
theorem read_head_splits {bytes : List UInt8} {h : Reader}
    (complete : readHead (Reader.fresh.feed bytes) = .complete h) :
    h.position + h.unread.length = bytes.length ∧ bytes.drop h.position = h.unread := by
  obtain ⟨consumed, split, moved⟩ := read_head_advanced (Reader.fresh.feed bytes)
  rw [complete] at split moved
  have parts : bytes = consumed ++ h.unread := split
  have position : h.position = consumed.length := moved.trans (Nat.zero_add _)
  constructor
  · rw [position, ← List.length_append, ← parts]
  · rw [position]
    conv_lhs => rw [parts]
    exact List.drop_left

/-- A complete head ends with a line of its own, and no byte behind it is held. -/
theorem read_head_complete {r h : Reader} (complete : readHead r = .complete h) :
    h.held = [] ∧ r.position + 2 ≤ h.position := by
  refine Loop.run_induction (motive := fun (r : Reader) (head : Head) =>
    ∀ h, head = .complete h → h.held = [] ∧ r.position + 2 ≤ h.position) ?_ ?_ r h complete
  · intro r next head round ih h same
    have step := head_round_advanced r
    rw [round] at step
    obtain ⟨consumed, -, moved⟩ := step
    have rest := ih h same
    exact ⟨rest.1, by omega⟩
  · intro r head round h same
    subst same
    cases found : scan r.unread with
    | stopped passed rest =>
        rw [head_round_stopped found] at round
        cases round
    | line line rest =>
        rw [head_round_line found] at round
        unfold headLine at round
        dsimp only at round
        split_ifs at round
        · cases round
        · cases round
          refine ⟨rfl, ?_⟩
          show r.position + 2 ≤ r.position + (line.length + 2) + 0
          omega

theorem head_line_phase (line : List UInt8) (r : Reader) {next : Reader}
    (head : next.phase ≠ .content) :
    match headLine line r next with
    | .inl after => after.phase ≠ .content
    | .inr reached => reached.reader.phase ≠ .content := by
  unfold headLine
  dsimp only
  split_ifs
  · simp [Reader.toPhase]
  · exact head
  · exact head
  · simpa using head

theorem head_round_phase (r : Reader) (head : r.phase ≠ .content) :
    match headRound r with
    | .inl after => after.phase ≠ .content
    | .inr reached => reached.reader.phase ≠ .content := by
  cases found : scan r.unread with
  | stopped passed rest =>
      rw [head_round_stopped found]
      exact head
  | line line rest =>
      have turned : (r.turn (line.length + 2) rest).phase ≠ .content := head
      rw [head_round_line found]
      exact head_line_phase (text (r.held ++ line)) r turned

theorem read_head_phase {r : Reader} (head : r.phase ≠ .content) :
    (readHead r).reader.phase ≠ .content := by
  refine Loop.run_induction (motive := fun (r : Reader) (reached : Head) =>
    r.phase ≠ .content → reached.reader.phase ≠ .content) ?_ ?_ r head
  · intro r next reached round ih head
    have step := head_round_phase r head
    rw [round] at step
    exact ih step
  · intro r reached round head
    have step := head_round_phase r head
    rw [round] at step
    exact step

/-- The reader has gone as far as the bytes at hand allow. -/
def AtRest (r : Reader) : Prop := scan r.unread = .stopped [] r.unread

theorem fresh_at_rest : AtRest Reader.fresh := rfl

theorem AtRest.read_head {r : Reader} (rest : AtRest r) : readHead r = .waiting r := by
  apply read_head_return
  rw [head_round_stopped rest]
  simp [Reader.stop]

theorem scan_stopped_again {bytes passed rest : List UInt8}
    (found : scan bytes = .stopped passed rest) : scan rest = .stopped [] rest := by
  obtain ⟨-, -, why⟩ := scan_stopped_split found
  rcases why with rfl | rfl | unpaired
  · rfl
  · rfl
  · exact scan_unpaired unpaired

theorem read_head_rest {r w : Reader} (waits : readHead r = .waiting w) : AtRest w := by
  refine Loop.run_induction (motive := fun (_ : Reader) (head : Head) =>
    ∀ w, head = .waiting w → AtRest w) ?_ ?_ r w waits
  · intro r next head round ih w same
    exact ih w same
  · intro r head round w same
    subst same
    cases found : scan r.unread with
    | stopped passed rest =>
        rw [head_round_stopped found] at round
        cases round
        exact scan_stopped_again found
    | line line rest =>
        rw [head_round_line found] at round
        exact absurd round head_line_never_waits

@[simp] theorem feed_nil (r : Reader) : r.feed [] = r := by
  simp [Reader.feed]

theorem feed_append (r : Reader) (first second : List UInt8) :
    r.feed (first ++ second) = (r.feed first).feed second := by
  simp [Reader.feed]

/-- A reader stopped for good stays stopped whatever arrives. -/
theorem stuck_feed {r : Reader} (stuck : Unpaired r.unread = true) (more : List UInt8) :
    readHead (r.feed more) = .waiting (r.feed more) :=
  AtRest.read_head (scan_unpaired (unpaired_append stuck more))

/-- A head that becomes complete ends behind all the bytes that were there before. -/
theorem complete_behind {r g : Reader} {chunk : List UInt8} (rest : AtRest r)
    (complete : readHead (r.feed chunk) = .complete g) :
    r.position + r.unread.length < g.position := by
  have width := (read_head_complete complete).2
  have same : (r.feed chunk).position = r.position := rfl
  obtain ⟨-, -, why⟩ := scan_stopped_split rest
  rcases why with empty | single | unpaired
  · rw [empty, List.length_nil]
    omega
  · rw [single, List.length_singleton]
    omega
  · rw [stuck_feed unpaired] at complete
    cases complete

end Head

section Body

/-- The looks at these places, up to one that passes. Each leaves the next line
to begin where it was taken. -/
def looksAlong (length : Int) (arrived : Nat) : Nat → List Nat → List Look
  | _, [] => []
  | line, place :: places =>
      let look : Look := ⟨line, place, arrived, length⟩
      if look.passes then [look] else look :: looksAlong length arrived place places

/-- Where a call in the body looks: at once, unless the last look failed, and
behind every line end on the way. -/
def lookPlaces (ready : Bool) (r : Reader) : List Nat :=
  (if ready then [r.position] else []) ++ (pairEnds r.unread).map (r.position + ·)

def callLooks (ready : Bool) (r : Reader) : List Look :=
  looksAlong r.contentLength (r.position + r.unread.length) r.start (lookPlaces ready r)

/-- What stays as it was while the body is read. -/
structure SameRequest (r w : Reader) : Prop where
  phase : w.phase = r.phase
  linger : w.linger = r.linger
  length : w.contentLength = r.contentLength

/-- A call in the body, from any of its rounds on. -/
structure BodyCall (ready : Bool) (r : Reader) (looks : List Look) (reading : Reading) : Prop where
  looks : reading.looks = looks ++ callLooks ready r
  same : SameRequest r reading.reader
  served : (∃ look ∈ callLooks ready r, look.passes) → reading.verdict = .serve ∧
    ∃ look ∈ callLooks ready r, look.passes ∧
      reading.reader.url = r.url.map (Url.cutAt (look.line + r.contentLength))
  waited : (∀ look ∈ callLooks ready r, ¬ look.passes) → reading.verdict = .wait ∧
    reading.reader.url = r.url ∧
    reading.reader.start = (lookPlaces ready r).getLastD r.start ∧
    reading.reader.position = r.position + walk r.unread ∧
    reading.reader.unread = r.unread.drop (walk r.unread)

/-- The rounds behind a look that does not pass. -/
theorem body_call_again {ready : Bool} {r next : Reader} {looks : List Look} {reading : Reading}
    (later : BodyCall false next (looks ++ [lookAt r.start next]) reading)
    (places : lookPlaces ready r = next.position :: lookPlaces false next)
    (fails : ¬ (lookAt r.start next).passes) (same : SameRequest r next) (url : next.url = r.url)
    (start : next.start = next.position) (advanced : Advanced r next)
    (walked : r.position + walk r.unread = next.position + walk next.unread)
    (dropped : r.unread.drop (walk r.unread) = next.unread.drop (walk next.unread)) :
    BodyCall ready r looks reading := by
  have total := advanced.total
  have split : callLooks ready r = lookAt r.start next :: callLooks false next := by
    have arrived : r.position + r.unread.length = next.position + next.unread.length := total.symm
    simp only [callLooks, places, looksAlong, arrived, ← same.length]
    have look : (⟨r.start, next.position, next.position + next.unread.length,
      next.contentLength⟩ : Look) = lookAt r.start next := rfl
    rw [look, if_neg fails, start]
  constructor
  · rw [later.looks, split, List.append_assoc]
    rfl
  · exact ⟨later.same.phase.trans same.phase, later.same.linger.trans same.linger,
      later.same.length.trans same.length⟩
  · rintro ⟨look, member, passes⟩
    rw [split] at member
    rcases List.mem_cons.mp member with rfl | member
    · exact absurd passes fails
    · obtain ⟨verdict, found, inside, passed, cut⟩ := later.served ⟨look, member, passes⟩
      refine ⟨verdict, found, ?_, passed, ?_⟩
      · rw [split]
        exact List.mem_cons_of_mem _ inside
      · rw [cut, url, same.length]
  · intro none
    rw [split] at none
    obtain ⟨verdict, kept, line, position, unread⟩ :=
      later.waited fun look member => none look (List.mem_cons_of_mem _ member)
    refine ⟨verdict, kept.trans url, ?_, position.trans walked.symm, unread.trans dropped.symm⟩
    rw [line, places, start]
    cases lookPlaces false next <;> rfl

/-- The round of a look that passes. -/
theorem body_call_served {ready : Bool} {r next : Reader} {looks : List Look} {places : List Nat}
    (first : lookPlaces ready r = next.position :: places)
    (passes : (lookAt r.start next).passes) (same : SameRequest r next) (url : next.url = r.url)
    (advanced : Advanced r next) : BodyCall ready r looks
      ⟨.serve, next.withUrl (next.url.map (Url.cutAt (r.start + next.contentLength))),
        looks ++ [lookAt r.start next]⟩ := by
  have split : callLooks ready r = [lookAt r.start next] := by
    have arrived : r.position + r.unread.length = next.position + next.unread.length :=
      advanced.total.symm
    simp only [callLooks, first, looksAlong, arrived, ← same.length]
    have look : (⟨r.start, next.position, next.position + next.unread.length,
      next.contentLength⟩ : Look) = lookAt r.start next := rfl
    rw [look, if_pos passes]
  constructor
  · rw [split]
  · exact ⟨same.phase, same.linger, same.length⟩
  · intro _
    refine ⟨rfl, lookAt r.start next, ?_, passes, ?_⟩
    · rw [split]
      exact List.mem_singleton_self _
    · rw [← url, ← same.length]
      rfl
  · intro none
    rw [split] at none
    exact absurd passes (none _ (List.mem_singleton_self _))

theorem turn_same (r : Reader) (count : Nat) (rest : List UInt8) :
    SameRequest r (r.turn count rest) := ⟨rfl, rfl, rfl⟩

theorem turn_position (r : Reader) (count : Nat) (rest : List UInt8) :
    (r.turn count rest).position = r.position + count := rfl

/-- Behind a line of the body, the scans go on as over the whole of it. -/
theorem walk_turn {r : Reader} {line rest : List UInt8} (found : scan r.unread = .line line rest) :
    r.position + walk r.unread =
      (r.turn (line.length + 2) rest).position + walk (r.turn (line.length + 2) rest).unread ∧
    r.unread.drop (walk r.unread) = (r.turn (line.length + 2) rest).unread.drop
      (walk (r.turn (line.length + 2) rest).unread) := by
  have width : (line ++ [13, 10]).length = line.length + 2 := by simp
  have split : r.unread = (line ++ [13, 10]) ++ rest := by
    rw [(scan_line_split found).1]
    simp
  rw [(walk_line found).1, turn_position]
  constructor
  · simp only [Reader.turn]
    omega
  · show r.unread.drop _ = rest.drop (walk rest)
    rw [split, ← width, ← List.drop_drop, List.drop_left]

theorem body_run (loop : BodyLoop) : BodyCall loop.ready loop.reader loop.looks
    (Loop.run bodyRound bodyMeasure body_round_decreases loop) := by
  -- Induction on the rounds, each of which takes one look.
  refine Loop.run_induction (motive := fun (loop : BodyLoop) (reading : Reading) =>
    BodyCall loop.ready loop.reader loop.looks reading) ?_ ?_ loop
  · intro loop next reading round ih
    obtain ⟨ready, r, looks⟩ := loop
    unfold bodyRound at round
    dsimp only at round
    cases ready with
    | true =>
        obtain ⟨fails, rfl⟩ := body_look_again round
        exact body_call_again ih rfl fails (turn_same _ _ _) rfl rfl ⟨[], rfl, rfl⟩ rfl rfl
    | false =>
        cases found : scan r.unread with
        | stopped passed rest => simp [found] at round
        | line line rest =>
            simp only [found, Bool.false_eq_true, ↓reduceIte] at round
            obtain ⟨fails, rfl⟩ := body_look_again round
            refine body_call_again ih ?_ fails (turn_same _ _ _) rfl rfl (turn_advanced found)
              (walk_turn found).1 (walk_turn found).2
            simp only [lookPlaces, (walk_line found).2, turn_position, Bool.false_eq_true,
              ↓reduceIte, List.nil_append, List.map_cons, List.map_map, Function.comp_def,
              Nat.add_assoc]
            rfl
  · intro loop reading round
    obtain ⟨ready, r, looks⟩ := loop
    unfold bodyRound at round
    dsimp only at round
    cases ready with
    | true =>
        simp only [↓reduceIte, bodyLook] at round
        split_ifs at round with passes
        cases round
        exact body_call_served rfl passes (turn_same _ _ _) rfl ⟨[], rfl, rfl⟩
    | false =>
        cases found : scan r.unread with
        | stopped passed rest =>
            simp only [found, Bool.false_eq_true, ↓reduceIte] at round
            cases round
            have none : callLooks false r = [] := by
              simp [callLooks, lookPlaces, (walk_scan_stopped found).2, looksAlong]
            constructor
            · rw [none, List.append_nil]
            · exact ⟨rfl, rfl, rfl⟩
            · rintro ⟨look, member, -⟩
              rw [none] at member
              cases member
            · intro _
              refine ⟨rfl, rfl, ?_, ?_, ?_⟩
              · simp [lookPlaces, (walk_scan_stopped found).2, Reader.stop]
              · rw [(walk_scan_stopped found).1]
                simp only [Reader.stop, Reader.position, List.length_append, Nat.add_assoc]
              · rw [(walk_scan_stopped found).1, (scan_stopped_split found).1, List.drop_left]
                rfl
        | line line rest =>
            simp only [found, Bool.false_eq_true, ↓reduceIte, bodyLook] at round
            split_ifs at round with passes
            cases round
            have places : lookPlaces false r = (r.turn (line.length + 2) rest).position ::
                (pairEnds rest).map (r.position + (line.length + 2) + ·) := by
              simp only [lookPlaces, (walk_line found).2, turn_position, Bool.false_eq_true,
                ↓reduceIte, List.nil_append, List.map_cons, List.map_map, Function.comp_def,
                Nat.add_assoc]
            exact body_call_served places passes (turn_same _ _ _) rfl (turn_advanced found)

theorem read_body_call (ready : Bool) (r : Reader) : BodyCall ready r [] (readBody ready r) :=
  body_run ⟨ready, r, []⟩

end Body

section Runs
variable {fs : FileSystem}

theorem BodyCall.wait_iff {ready : Bool} {r : Reader} {looks : List Look} {reading : Reading}
    (call : BodyCall ready r looks reading) :
    reading.verdict = .wait ↔ ∀ look ∈ callLooks ready r, ¬ look.passes := by
  constructor
  · intro waits look member passes
    have served := (call.served ⟨look, member, passes⟩).1
    rw [waits] at served
    cases served
  · exact fun none => (call.waited none).1

theorem body_total {ready : Bool} {r : Reader} {looks : List Look} {reading : Reading}
    (call : BodyCall ready r looks reading) (waits : reading.verdict = .wait) :
    reading.reader.position + reading.reader.unread.length = r.position + r.unread.length := by
  obtain ⟨-, -, -, position, unread⟩ := call.waited (call.wait_iff.mp waits)
  have bound := walk_le r.unread
  rw [position, unread, List.length_drop]
  omega

theorem read_request_total {r : Reader} (waits : (readRequest r).verdict = .wait) :
    (readRequest r).reader.position + (readRequest r).reader.unread.length =
      r.position + r.unread.length := by
  unfold readRequest at waits ⊢
  split_ifs at waits ⊢ with body
  · exact body_total (read_body_call true r) waits
  · have advanced := read_head_advanced r
    cases reached : readHead r with
    | waiting w =>
        rw [reached] at advanced
        exact advanced.total
    | refused w =>
        rw [reached] at waits
        cases waits
    | complete h =>
        rw [reached] at advanced waits
        unfold afterHead at waits ⊢
        dsimp only at waits ⊢
        split_ifs at waits ⊢
        exact (body_total (read_body_call true (h.toPhase .content)) waits).trans advanced.total

theorem receive_refines (chunks : List (List UInt8)) (c : HttpConn) (r : Reader)
    (shows : Shows c r) (room : c.readIdx + chunks.flatten.length ≤ readBufferSize) :
    Agrees fs c (receive fs c chunks) (readChunks r chunks) := by
  -- Induction on the reads; a read that answers is the last one of the request.
  induction chunks generalizing c r with
  | nil => exact ⟨by simp [receive, readChunks], rfl, shows, ResponseSame.refl c⟩
  | cons chunk rest ih =>
      rw [List.flatten_cons, List.length_append] at room
      have fed := shows.feed chunk (by omega)
      have appended : ResponseSame c (appendRead chunk c) :=
        ⟨rfl, rfl, rfl, rfl, rfl, rfl, rfl, rfl⟩
      have call : Agrees fs _ _ _ := process_read_refines (appendRead chunk c) (r.feed chunk) fed
      by_cases waits : (readRequest (r.feed chunk)).verdict = .wait
      · have result := call.result
        rw [waits] at result
        obtain ⟨ret, shown, same⟩ := result
        have total := read_request_total waits
        have arrived := shown.arrived
        have before := fed.arrived
        have length : (appendRead chunk c).readIdx = c.readIdx + chunk.length := rfl
        have later := ih (processRead fs (appendRead chunk c)).conn
          (readRequest (r.feed chunk)).reader shown (by omega)
        have run : receive fs c (chunk :: rest) = (processRead fs (appendRead chunk c)).andThen
            fun conn => receive fs conn rest := by
          simp only [receive, ret, ↓reduceIte]
        have reading : readChunks r (chunk :: rest) =
            ⟨(readChunks (readRequest (r.feed chunk)).reader rest).verdict,
              (readChunks (readRequest (r.feed chunk)).reader rest).reader,
              (readRequest (r.feed chunk)).looks ++
                (readChunks (readRequest (r.feed chunk)).reader rest).looks⟩ := by
          simp only [readChunks, waits, ↓reduceIte]
        rw [run, reading]
        have carried := (later.trans same).trans appended
        refine ⟨?_, carried.result⟩
        simp only [Outcome.andThen, in_bounds_append, call.log, later.log, List.mem_append, or_imp,
          forall_and]
      · have answered : (processRead fs (appendRead chunk c)).ret ≠ .noRequest := by
          have result := call.result
          cases verdict : (readRequest (r.feed chunk)).verdict with
          | wait => exact absurd verdict waits
          | refuse =>
              rw [verdict] at result
              rw [result.1]
              simp
          | serve =>
              rw [verdict] at result
              obtain ⟨d, ret, -⟩ := result
              rw [ret]
              exact do_request_answers d
        have run : receive fs c (chunk :: rest) = processRead fs (appendRead chunk c) := by
          simp only [receive, answered, ↓reduceIte]
        have reading : readChunks r (chunk :: rest) = readRequest (r.feed chunk) := by
          simp only [readChunks, waits, ↓reduceIte]
        rw [run, reading]
        exact call.trans appended

theorem receive_append {chunks : List (List UInt8)} (more : List (List UInt8)) {c : HttpConn}
    (waits : (receive fs c chunks).ret = .noRequest) :
    (receive fs c (chunks ++ more)).ret = (receive fs (receive fs c chunks).conn more).ret := by
  induction chunks generalizing c with
  | nil => rfl
  | cons chunk chunks ih =>
      rw [List.cons_append]
      by_cases ret : (processRead fs (appendRead chunk c)).ret = .noRequest
      · simp only [receive, ret, ↓reduceIte, Outcome.andThen] at waits ⊢
        exact ih waits
      · simp only [receive, ret, ↓reduceIte] at waits

/-- The reads that follow a call. -/
def resume (reading : Reading) (chunks : List (List UInt8)) : Reading :=
  if reading.verdict = .wait then
    let later := readChunks reading.reader chunks
    ⟨later.verdict, later.reader, reading.looks ++ later.looks⟩
  else reading

theorem read_chunks_cons (r : Reader) (chunk : List UInt8) (rest : List (List UInt8)) :
    readChunks r (chunk :: rest) = resume (readRequest (r.feed chunk)) rest := rfl

theorem resume_served {reading : Reading} (served : reading.verdict = .serve)
    (chunks : List (List UInt8)) : resume reading chunks = reading := by
  rw [resume, if_neg (by rw [served]; simp)]

theorem resume_waits {reading : Reading} (waits : reading.verdict = .wait)
    (chunks : List (List UInt8)) : resume reading chunks =
      ⟨(readChunks reading.reader chunks).verdict, (readChunks reading.reader chunks).reader,
        reading.looks ++ (readChunks reading.reader chunks).looks⟩ := by
  rw [resume, if_pos waits]

/-- Up to the end of the head the reads add up to one read of all the bytes.
From there on the calls are those of the body. -/
theorem read_chunks_head (chunks : List (List UInt8)) (r : Reader) (rest : AtRest r)
    (head : r.phase ≠ .content) :
    match readHead (r.feed chunks.flatten) with
    | .waiting w => readChunks r chunks = ⟨.wait, w, []⟩
    | .refused w => ∃ v, readChunks r chunks = ⟨.refuse, v, []⟩ ∧ v.url = w.url ∧
        SameRequest v w
    | .complete h => ∃ earlier chunk later g, chunks = earlier ++ chunk :: later ∧
        readHead (r.feed (earlier.flatten ++ chunk)) = .complete g ∧ h = g.feed later.flatten ∧
        r.position + r.unread.length + earlier.flatten.length < h.position ∧
        readChunks r chunks = resume (afterHead (.complete g)) later := by
  induction chunks generalizing r with
  | nil =>
      rw [List.flatten_nil, feed_nil, rest.read_head]
      rfl
  | cons chunk chunks ih =>
      -- Reading the head of what is appended goes on where the first read stopped.
      rw [List.flatten_cons, feed_append, read_head_feed, read_chunks_cons]
      have before : (r.feed chunk).phase ≠ .content := head
      have request : readRequest (r.feed chunk) = afterHead (readHead (r.feed chunk)) :=
        if_neg before
      have phase := read_head_phase before
      have advanced := read_head_advanced (r.feed chunk)
      rw [request]
      cases reached : readHead (r.feed chunk) with
      | waiting w =>
          rw [reached] at phase advanced
          have total := advanced.total
          have fed : (r.feed chunk).unread.length = r.unread.length + chunk.length :=
            List.length_append
          have same : (r.feed chunk).position = r.position := rfl
          have later := ih w (read_head_rest reached) phase
          have run : resume (afterHead (.waiting w)) chunks = readChunks w chunks := rfl
          rw [run]
          dsimp only
          cases final : readHead (w.feed chunks.flatten) with
          | waiting v => rw [final] at later; exact later
          | refused v => rw [final] at later; exact later
          | complete h =>
              rw [final] at later
              obtain ⟨earlier, next, behind, g, split, complete, fedRest, bound, run⟩ := later
              refine ⟨chunk :: earlier, next, behind, g, by rw [split]; rfl, ?_, fedRest, ?_, run⟩
              · rw [List.flatten_cons, List.append_assoc, feed_append, read_head_feed, reached]
                exact complete
              · rw [List.flatten_cons, List.length_append]
                simp only [Head.reader] at total
                omega
      | refused w => exact ⟨w, rfl, rfl, ⟨rfl, rfl, rfl⟩⟩
      -- The read that completes the head; what comes later is fed behind it.
      | complete g =>
          have behind := complete_behind rest reached
          have same : (g.feed chunks.flatten).position = g.position := rfl
          refine ⟨[], chunk, chunks, g, rfl, reached, rfl, ?_, rfl⟩
          rw [same, List.flatten_nil, List.length_nil]
          exact behind

end Runs

end StudyWebServer
