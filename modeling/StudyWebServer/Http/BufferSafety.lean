import StudyWebServer.Http.Segmentation

/-!
Which requests keep the parse functions inside m_read_buf. The head never
leaves it. The body does in three ways: a negative Content-Length that reaches
back before the buffer, one whose sum with m_checked_idx overflows, and one that
ends exactly with the full buffer, whose terminator falls behind the last byte.
-/

namespace StudyWebServer

open ByteMemory CString MachineInt CrlfLines

/-- The scanner has not moved since the last look, or there was none. -/
def Settled (head : Nat) (earlier : List (List UInt8)) : Prop :=
  earlier.flatten.length < head ∨ walk (earlier.flatten.drop head) ∈
    walk (earlier.dropLast.flatten.drop head) :: pairEnds (earlier.flatten.drop head)

/-- Some sum of m_content_length and m_checked_idx overflows. -/
def SumOverflows (head : Nat) (length : Int) (chunks : List (List UInt8)) : Prop :=
  ∃ earlier chunk later, chunks = earlier ++ chunk :: later ∧
    head ≤ (earlier.flatten ++ chunk).length ∧
    Overflows head length (earlier.flatten.drop head) ((earlier.flatten ++ chunk).drop head)

/-- A body that is complete with the last byte of the buffer, counted from where
its line starts. -/
def FillsBuffer (head : Nat) (length : Int) (chunks : List (List UInt8)) : Prop :=
  ∃ earlier chunk later, chunks = earlier ++ chunk :: later ∧
    head ≤ (earlier.flatten ++ chunk).length ∧
    (earlier.flatten ++ chunk).length = readBufferSize ∧
    head + walk (earlier.flatten.drop head) + length = readBufferSize ∧
    ¬ BodyTaken head length earlier ∧ Settled head earlier

section Call
variable {head : Nat} {length : Int} {body chunk : List UInt8} {b : Reader}

/-- A call in the body with every access inside the buffer, `line` being where
its first line starts. -/
def CallSafe (head : Nat) (length : Int) (line : Nat) (before now : List UInt8) : Prop :=
  ¬ Overflows head length before now ∧
    ¬ (length + walk before ≤ now.length ∧ (readBufferSize : Int) ≤ line + length)

theorem looks_along_safe {arrived line : Nat} {places : List Nat}
    (fits : FitsInt length)
    (inside : ∀ place ∈ places, place ≤ readBufferSize)
    (more : ∀ place ∈ places, ¬ length + place ≤ (arrived : Int)) :
    (∀ look ∈ looksAlong length arrived line places, look.Safe) ↔
      ∀ place ∈ places, ¬ intMax < length + place := by
  have low := fits.1
  induction places generalizing line with
  | nil => simp [looksAlong]
  | cons place places ih =>
      have bound := inside place List.mem_cons_self
      have short := more place List.mem_cons_self
      have passes := passes_iff arrived fits bound
      rw [or_iff_right short] at passes
      by_cases exceeds : intMax < length + place
      · refine iff_of_false ?_ fun none => none place List.mem_cons_self exceeds
        intro safe
        have passed : Look.passes ⟨line, place, arrived, length⟩ := passes.mpr exceeds
        have first := safe ⟨line, place, arrived, length⟩ (by
          rw [looksAlong, if_pos passed]
          exact List.mem_singleton_self _)
        exact absurd first.1.2 (by show ¬ length + place ≤ intMax; omega)
      · have fails : ¬ Look.passes ⟨line, place, arrived, length⟩ := fun passed =>
          exceeds (passes.mp passed)
        have safe : Look.Safe ⟨line, place, arrived, length⟩ :=
          ⟨⟨by show intMin ≤ length + place; omega, by show length + place ≤ intMax; omega⟩,
            fun passed => absurd passed fails⟩
        simp only [looksAlong, fails, ↓reduceIte, List.forall_mem_cons, safe, exceeds,
          not_false_eq_true, true_and]
        exact ih (fun other member => inside other (List.mem_cons_of_mem _ member))
          (fun other member => more other (List.mem_cons_of_mem _ member))

theorem BodyAt.call_safe (reached : BodyAt head length body b)
    (chunk : List UInt8) (fits : FitsInt length)
    (positive : 0 < length) (line : b.start ≤ head + walk body)
    (room : head + (body ++ chunk).length ≤ readBufferSize) :
    (∀ look ∈ callLooks true (b.feed chunk), look.Safe) ↔
      CallSafe head length b.start body (body ++ chunk) := by
  have kept : (b.feed chunk).contentLength = length := reached.length
  have low := fits.1
  rw [CallSafe, reached.overflows_iff, callLooks, kept, reached.total]
  by_cases enough : length + walk body ≤ (body ++ chunk).length
  · -- the first look passes, and no sum is near the limit
    have none : ¬ ∃ place ∈ lookPlaces true (b.feed chunk), intMax < length + place := by
      rintro ⟨place, member, exceeds⟩
      have bounds := reached.places_le chunk place member
      unfold readBufferSize at room
      unfold intMax at exceeds
      omega
    have place : head + walk body ≤ readBufferSize := by omega
    have passed : Look.passes ⟨b.start, head + walk body, head + (body ++ chunk).length, length⟩ :=
      (passes_iff _ fits place).mpr (.inl (by push_cast; omega))
    have start : (b.feed chunk).start = b.start := rfl
    rw [reached.places, List.map_cons, looksAlong, start, if_pos passed, and_iff_right]
    · simp only [List.mem_singleton, forall_eq, enough, true_and, not_le]
      constructor
      · exact fun safe => (safe.2 passed).2
      · intro short
        refine ⟨⟨?_, ?_⟩, fun _ => ⟨?_, short⟩⟩
        · show intMin ≤ length + (head + walk body : Nat)
          omega
        · show length + (head + walk body : Nat) ≤ intMax
          unfold readBufferSize at room
          unfold intMax
          push_cast
          omega
        · show 0 ≤ (b.start : Int) + length
          omega
    · rw [← List.map_cons, ← reached.places]
      exact none
  -- No look passes, so nothing is stored and only the sums can go wrong.
  · have unmet : ¬ (length + walk body ≤ (body ++ chunk).length ∧
        (readBufferSize : Int) ≤ b.start + length) := fun both => enough both.1
    rw [and_iff_left unmet, looks_along_safe fits]
    · simp only [not_exists, not_and]
    · intro place member
      have bounds := reached.places_le chunk place member
      omega
    · intro place member
      have bounds := reached.places_le chunk place member
      push_cast
      omega

theorem BodyAt.next_start (reached : BodyAt head length body b)
    (none : ∀ look ∈ callLooks true (b.feed chunk), ¬ look.passes) :
    (readBody true (b.feed chunk)).reader.start =
      head + (walk body + (pairEnds (body.drop (walk body) ++ chunk)).getLastD 0) := by
  rw [(reached.next none).2, reached.places, List.map_cons, List.getLastD_cons, List.map_map,
    List.getLastD_eq_getLast?, List.getLastD_eq_getLast?, List.getLast?_map]
  cases (pairEnds (body.drop (walk body) ++ chunk)).getLast? <;> rfl

/-- The last look was taken where the scanner came to rest. -/
theorem BodyAt.settled_next (reached : BodyAt head length body b)
    (none : ∀ look ∈ callLooks true (b.feed chunk), ¬ look.passes) :
    (readBody true (b.feed chunk)).reader.start ≤ head + walk (body ++ chunk) ∧
    ((readBody true (b.feed chunk)).reader.start = head + walk (body ++ chunk) ↔
      walk (body ++ chunk) ∈ walk body :: pairEnds (body ++ chunk)) := by
  have start := reached.next_start none
  have walked := (walk_append body chunk).1
  have ends := (walk_append body chunk).2
  have upper := pair_ends_le (body.drop (walk body) ++ chunk)
  have lower := pair_ends_pos (body.drop (walk body) ++ chunk)
  have last := pair_ends_last (body.drop (walk body) ++ chunk)
  have lastLe : (pairEnds (body.drop (walk body) ++ chunk)).getLastD 0 ≤
      walk (body.drop (walk body) ++ chunk) := by
    rw [List.getLastD_eq_getLast?]
    cases found : (pairEnds (body.drop (walk body) ++ chunk)).getLast? with
    | none => exact Nat.zero_le _
    | some place => exact upper place (List.mem_of_getLast? found)
  refine ⟨by omega, ?_⟩
  rw [start, walked, ends, List.mem_cons, List.mem_append]
  constructor
  · intro same
    rw [List.getLastD_eq_getLast?] at same lastLe
    cases found : (pairEnds (body.drop (walk body) ++ chunk)).getLast? with
    | none =>
        rw [found] at same
        left
        simp only [Option.getD_none] at same
        omega
    | some place =>
        rw [found] at same
        right; right
        refine List.mem_map.mpr ⟨place, List.mem_of_getLast? found, ?_⟩
        simp only [Option.getD_some] at same
        omega
  -- Still where it was, at a pair of an earlier read, or at one of this read.
  · rintro (still | earlier | later)
    · cases found : pairEnds (body.drop (walk body) ++ chunk) with
      | nil => simp only [List.getLastD_nil]; omega
      | cons place places =>
          have inside : place ∈ pairEnds (body.drop (walk body) ++ chunk) := by simp [found]
          have positive := lower place inside
          have bound := upper place inside
          omega
    · have bound := pair_ends_le body _ earlier
      have none : pairEnds (body.drop (walk body) ++ chunk) = [] := by
        apply List.eq_nil_iff_forall_not_mem.mpr
        intro place inside
        have positive := lower place inside
        have bound := upper place inside
        omega
      rw [none, List.getLastD_nil]
      omega
    · obtain ⟨place, inside, same⟩ := List.mem_map.mp later
      have bound := last place inside
      omega

end Call

section Reads
variable {head : Nat} {length : Int} {body : List UInt8} {b : Reader}

def ReadsOverflow (head : Nat) (length : Int) (body : List UInt8) (chunks : List (List UInt8)) :
    Prop :=
  ∃ before next behind, chunks = before ++ next :: behind ∧
    Overflows head length (body ++ before.flatten) (body ++ before.flatten ++ next)

def ReadsTaken (head : Nat) (length : Int) (body : List UInt8) (chunks : List (List UInt8)) :
    Prop :=
  ∃ before next behind, chunks = before ++ next :: behind ∧
    Taken head length (body ++ before.flatten) (body ++ before.flatten ++ next)

def ReadsSettled (head start : Nat) (body : List UInt8) (before : List (List UInt8)) : Prop :=
  if before = [] then start = head + walk body
  else walk (body ++ before.flatten) ∈
    walk (body ++ before.dropLast.flatten) :: pairEnds (body ++ before.flatten)

/-- The read that fills the buffer, and the body with it. -/
def FillsAt (head start : Nat) (length : Int) (body : List UInt8) (before : List (List UInt8))
    (next : List UInt8) : Prop :=
  head + (body ++ before.flatten ++ next).length = readBufferSize ∧
    head + walk (body ++ before.flatten) + length = readBufferSize ∧
    ¬ ReadsTaken head length body before ∧ ReadsSettled head start body before

def ReadsFill (head start : Nat) (length : Int) (body : List UInt8)
    (chunks : List (List UInt8)) : Prop :=
  ∃ before next behind, chunks = before ++ next :: behind ∧
    FillsAt head start length body before next

theorem reads_overflow_cons {chunk : List UInt8} {chunks : List (List UInt8)} :
    ReadsOverflow head length body (chunk :: chunks) ↔
      Overflows head length body (body ++ chunk) ∨
        ReadsOverflow head length (body ++ chunk) chunks := by
  rw [ReadsOverflow, exists_read_cons chunk chunks fun before next =>
    Overflows head length (body ++ before.flatten) (body ++ before.flatten ++ next)]
  simp only [List.flatten_nil, List.append_nil, List.flatten_cons, ← List.append_assoc]
  rfl

theorem reads_taken_cons {chunk : List UInt8} {chunks : List (List UInt8)} :
    ReadsTaken head length body (chunk :: chunks) ↔
      Taken head length body (body ++ chunk) ∨ ReadsTaken head length (body ++ chunk) chunks := by
  rw [ReadsTaken, exists_read_cons chunk chunks fun before next =>
    Taken head length (body ++ before.flatten) (body ++ before.flatten ++ next)]
  simp only [List.flatten_nil, List.append_nil, List.flatten_cons, ← List.append_assoc]
  rfl

theorem reads_settled_cons {start later : Nat} {chunk : List UInt8} {before : List (List UInt8)}
    (settled : later = head + walk (body ++ chunk) ↔
      walk (body ++ chunk) ∈ walk body :: pairEnds (body ++ chunk)) :
    ReadsSettled head start body (chunk :: before) ↔
      ReadsSettled head later (body ++ chunk) before := by
  unfold ReadsSettled
  rw [settled, if_neg (List.cons_ne_nil chunk before)]
  cases before with
  | nil => simp
  | cons first before =>
      rw [if_neg (List.cons_ne_nil first before),
        List.dropLast_cons_of_ne_nil (List.cons_ne_nil first before)]
      simp only [List.flatten_cons, List.append_assoc]

theorem reads_fill_cons {start later : Nat} {chunk : List UInt8} {chunks : List (List UInt8)}
    (untaken : ¬ Taken head length body (body ++ chunk))
    (settled : later = head + walk (body ++ chunk) ↔
      walk (body ++ chunk) ∈ walk body :: pairEnds (body ++ chunk)) :
    ReadsFill head start length body (chunk :: chunks) ↔
      FillsAt head start length body [] chunk ∨
        ReadsFill head later length (body ++ chunk) chunks := by
  rw [ReadsFill, exists_read_cons chunk chunks fun before next =>
    FillsAt head start length body before next]
  have shift : ∀ before next, FillsAt head start length body (chunk :: before) next ↔
      FillsAt head later length (body ++ chunk) before next := by
    intro before next
    unfold FillsAt
    rw [reads_taken_cons, reads_settled_cons settled, or_iff_right untaken]
    simp only [List.flatten_cons, List.append_assoc]
  simp only [shift]
  rfl

theorem CallSafe.fill_iff {line : Nat} {before now : List UInt8}
    (lower : line ≤ head + walk before) (room : head + now.length ≤ readBufferSize) :
    (length + walk before ≤ now.length ∧ (readBufferSize : Int) ≤ line + length) ↔
      head + now.length = readBufferSize ∧ head + walk before + length = readBufferSize ∧
        line = head + walk before := by
  constructor
  · rintro ⟨enough, full⟩
    exact ⟨by omega, by omega, by omega⟩
  · rintro ⟨full, ends, same⟩
    exact ⟨by omega, by omega⟩

theorem no_overflow_short (short : length ≤ readBufferSize) {before now : List UInt8}
    (room : head + now.length ≤ readBufferSize) (within : walk before ≤ now.length) :
    ¬ Overflows head length before now := by
  rintro ⟨place, member, exceeds⟩
  have bound : place ≤ now.length := by
    rcases List.mem_cons.mp member with rfl | later
    · exact within
    · exact Nat.le_trans (pair_ends_le now place later) (walk_le now)
  unfold readBufferSize at room short
  unfold intMax at exceeds
  omega

/-- All the accesses of the body reads stay inside, or one of the ways out is taken. -/
theorem body_reads_safe (chunks : List (List UInt8)) (fits : FitsInt length)
    (positive : 0 < length) (reached : BodyAt head length body b)
    (line : b.start ≤ head + walk body)
    (room : head + (body ++ chunks.flatten).length ≤ readBufferSize) :
    (∀ look ∈ (readChunks b chunks).looks, look.Safe) ↔
      ¬ ReadsOverflow head length body chunks ∧ ¬ ReadsFill head b.start length body chunks := by
  -- Induction on the reads; the body so far grows by each of them.
  induction chunks generalizing body b with
  | nil =>
      refine iff_of_true (by simp [readChunks]) ⟨?_, ?_⟩
      · rintro ⟨before, next, behind, split, -⟩
        simp at split
      · rintro ⟨before, next, behind, split, -⟩
        simp at split
  | cons chunk chunks ih =>
      have whole := room
      obtain ⟨fitsNow, room⟩ := room_cons room
      have content : (b.feed chunk).phase = .content := reached.phase
      have call := read_body_call true (b.feed chunk)
      have safe := reached.call_safe chunk fits positive line fitsNow
      have opening : FillsAt head b.start length body [] chunk ↔
          head + (body ++ chunk).length = readBufferSize ∧
            head + walk body + length = readBufferSize ∧ b.start = head + walk body := by
        unfold FillsAt ReadsTaken ReadsSettled
        simp
      have first : CallSafe head length b.start body (body ++ chunk) ↔
          ¬ Overflows head length body (body ++ chunk) ∧
            ¬ FillsAt head b.start length body [] chunk := by
        rw [CallSafe, CallSafe.fill_iff line fitsNow, opening]
      rw [read_chunks_cons, read_request_body content]
      by_cases taken : Taken head length body (body ++ chunk)
      · have verdict := (call.served ((reached.passes fits fitsNow).mpr taken)).1
        rw [resume_served verdict, call.looks, List.nil_append, safe, first]
        rcases taken with enough | exceeds
        · -- short enough for no sum to overflow, and the reads end here
          have short : length ≤ readBufferSize := by omega
          have none : ¬ ReadsOverflow head length body (chunk :: chunks) := by
            rintro ⟨before, next, behind, split, exceeds⟩
            have part : head + (body ++ before.flatten ++ next).length ≤ readBufferSize := by
              rw [split] at whole
              simp only [List.flatten_append, List.flatten_cons, List.length_append] at whole ⊢
              omega
            refine no_overflow_short short part ?_ exceeds
            have bound := walk_le (body ++ before.flatten)
            rw [List.length_append]
            omega
          have some : ¬ Overflows head length body (body ++ chunk) := by
            intro exceeds
            exact none (reads_overflow_cons.mpr (.inl exceeds))
          rw [and_iff_right some, and_iff_right none, ReadsFill,
            exists_read_cons chunk chunks fun before next =>
              FillsAt head b.start length body before next]
          refine not_congr ⟨.inl, ?_⟩
          rintro (fills | ⟨between, next, behind, -, -, -, untaken, -⟩)
          · exact fills
          · exact absurd (reads_taken_cons.mpr (.inl (.inl enough))) untaken
        · refine iff_of_false (fun both => both.1 exceeds) fun both => both.1 ?_
          exact reads_overflow_cons.mpr (.inl exceeds)
      -- No look passes, so process_read waits and the next read goes on.
      · have none : ∀ look ∈ callLooks true (b.feed chunk), ¬ look.passes :=
          fun look member passes => taken ((reached.passes fits fitsNow).mp ⟨look, member, passes⟩)
        obtain ⟨verdict, -⟩ := call.waited none
        have settled := reached.settled_next none
        have later := ih (reached.next none).1 settled.1 room
        rw [resume_waits verdict, call.looks, List.nil_append]
        simp only [List.mem_append, or_imp, forall_and]
        rw [safe, first, later, reads_overflow_cons,
          reads_fill_cons taken settled.2, not_or, not_or]
        exact and_and_and_comm

end Reads

section Request
variable {head : Nat} {length : Int} {chunks earlier later : List (List UInt8)}
  {chunk first : List UInt8}

theorem reads_overflow_iff (opens : HeadSplit head chunks earlier chunk later first) :
    SumOverflows head length chunks ↔ ReadsOverflow head length [] (first :: later) := by
  rw [SumOverflows, opens.exists_read fun before next => Overflows head length
    (before.flatten.drop head) ((before.flatten ++ next).drop head), ReadsOverflow,
    exists_read_cons first later fun before next =>
      Overflows head length ([] ++ before.flatten) ([] ++ before.flatten ++ next)]
  have opening : Overflows head length (earlier.flatten.drop head)
      ((earlier.flatten ++ chunk).drop head) ↔ Overflows head length [] first := by
    rw [opens.none, opens.bytes]
  have going : ∀ between next, Overflows head length
      ((earlier ++ chunk :: between).flatten.drop head)
      (((earlier ++ chunk :: between).flatten ++ next).drop head) ↔
      Overflows head length (first :: between).flatten ((first :: between).flatten ++ next) := by
    intro between next
    rw [List.drop_append_of_le_length (opens.reached_behind between), opens.behind]
  simp only [going]
  exact or_congr_left opening

theorem settled_iff (opens : HeadSplit head chunks earlier chunk later first)
    (between : List (List UInt8)) : Settled head (earlier ++ chunk :: between) ↔
      ReadsSettled head head [] (first :: between) := by
  have short : ¬ (earlier ++ chunk :: between).flatten.length < head :=
    Nat.not_lt.mpr (opens.reached_behind between)
  unfold Settled ReadsSettled
  rw [or_iff_right short, if_neg (List.cons_ne_nil first between), opens.behind,
    List.nil_append, List.nil_append, List.dropLast_append_cons]
  cases between with
  | nil => simp [opens.none]
  | cons other between =>
      rw [List.dropLast_cons_of_ne_nil (List.cons_ne_nil other between),
        List.dropLast_cons_of_ne_nil (List.cons_ne_nil other between), opens.behind]

theorem reads_fill_iff (opens : HeadSplit head chunks earlier chunk later first) :
    FillsBuffer head length chunks ↔ ReadsFill head head length [] (first :: later) := by
  rw [FillsBuffer, opens.exists_read fun before next =>
    (before.flatten ++ next).length = readBufferSize ∧
      head + walk (before.flatten.drop head) + length = readBufferSize ∧
      ¬ BodyTaken head length before ∧ Settled head before, ReadsFill,
    exists_read_cons first later fun before next => FillsAt head head length [] before next]
  have untaken : ¬ BodyTaken head length earlier := by
    rintro ⟨before, next, behind, rfl, enough, -⟩
    have short := opens.before
    simp only [List.flatten_append, List.flatten_cons, List.length_append] at short enough
    omega
  have width : first.length = (earlier.flatten ++ chunk).length - head := by
    rw [← opens.bytes, List.length_drop]
  have reached := opens.reached
  -- The read that brings the end of the head is the first read of the body.
  have opening : ((earlier.flatten ++ chunk).length = readBufferSize ∧
      head + walk (earlier.flatten.drop head) + length = readBufferSize ∧
      ¬ BodyTaken head length earlier ∧ Settled head earlier) ↔
      FillsAt head head length [] [] first := by
    have settled : Settled head earlier := .inl opens.before
    have none : ¬ ReadsTaken head length [] [] := by
      rintro ⟨before, next, behind, split, -⟩
      simp at split
    have start : ReadsSettled head head [] [] := by
      rw [ReadsSettled, if_pos rfl]
      rfl
    have full : head + first.length = (earlier.flatten ++ chunk).length := by omega
    simp only [FillsAt, opens.none, untaken, settled, none, start, not_false_eq_true, and_true,
      List.flatten_nil, List.append_nil, List.nil_append, full]
  -- Every later read is one with the head in front of it.
  have going : ∀ between next, (((earlier ++ chunk :: between).flatten ++ next).length =
      readBufferSize ∧
      head + walk ((earlier ++ chunk :: between).flatten.drop head) + length = readBufferSize ∧
      ¬ BodyTaken head length (earlier ++ chunk :: between) ∧
      Settled head (earlier ++ chunk :: between)) ↔
      FillsAt head head length [] (first :: between) next := by
    intro between next
    have total := (opens.truncate between).total
    have full : head + ((first :: between).flatten ++ next).length =
        ((earlier ++ chunk :: between).flatten ++ next).length := by
      rw [List.length_append, List.length_append]
      omega
    rw [FillsAt, opens.behind, body_taken_iff (opens.truncate between), settled_iff opens,
      List.nil_append, full, ReadsTaken]
    simp only [List.nil_append]
  simp only [going]
  exact or_congr_left opening

/-- A length that is no more than the buffer lets no sum overflow, and one below zero
does not end with it. -/
theorem no_sum_overflows (head : Nat) (short : length ≤ readBufferSize)
    (room : chunks.flatten.length ≤ readBufferSize) :
    ¬ SumOverflows head length chunks ∧ ¬ (length < 0 ∧ FillsBuffer head length chunks) := by
  constructor
  · rintro ⟨before, next, behind, rfl, enough, exceeds⟩
    simp only [List.flatten_append, List.flatten_cons, List.length_append] at room enough
    refine no_overflow_short short ?_ ?_ exceeds
    · simp only [List.length_drop, List.length_append]
      omega
    · have bound := walk_le (before.flatten.drop head)
      simp only [List.length_drop, List.length_append] at bound ⊢
      omega
  · rintro ⟨negative, before, next, behind, rfl, enough, full, ends, -⟩
    have bound := walk_le (before.flatten.drop head)
    simp only [List.length_drop, List.length_append] at bound full enough
    omega

end Request

/-- No byte of m_read_buf outside the array is read or written and no sum
overflows, over the reads of a request, exactly when its body, if it declares
one, takes none of the three ways out. -/
theorem parsing_in_bounds_iff (fs : FileSystem) (c : HttpConn) (chunks : List (List UInt8))
    (room : chunks.flatten.length ≤ readBufferSize) :
    InBounds (receive fs (init c).conn chunks).log ↔
      ∀ head length, declared chunks.flatten = some (head, length) → length = 0 ∨
        (0 ≤ head + length ∧ ¬ SumOverflows head length chunks ∧
          ¬ FillsBuffer head length chunks) := by
  rw [(init_receives fs c chunks room).log]
  have reads := read_chunks_head chunks Reader.fresh fresh_at_rest (by simp [Reader.fresh])
  cases reached : readHead (Reader.fresh.feed chunks.flatten) with
  -- Without a complete head no body is looked at, and parse_line stays inside.
  | waiting w =>
      rw [reached] at reads
      rw [reads]
      simp [declared, reached]
  | refused w =>
      rw [reached] at reads
      obtain ⟨v, reading, -⟩ := reads
      rw [reading]
      simp [declared, reached]
  | complete h =>
      have some : declared chunks.flatten = some (h.position, h.contentLength) := by
        simp [declared, reached]
      have fits := (read_head_url (fun url same => by cases same) (show FitsInt 0 by decide)
        reached).2
      obtain ⟨earlier, chunk, later, g, reads⟩ := head_reads reached
      -- The head that was read is the one that the statement speaks of.
      have only : (∀ head length, declared chunks.flatten = Option.some (head, length) →
          length = 0 ∨ (0 ≤ head + length ∧ ¬ SumOverflows head length chunks ∧
            ¬ FillsBuffer head length chunks)) ↔
          h.contentLength = 0 ∨ (0 ≤ h.position + h.contentLength ∧
            ¬ SumOverflows h.position h.contentLength chunks ∧
            ¬ FillsBuffer h.position h.contentLength chunks) := by
        constructor
        · exact fun all => all _ _ some
        · intro holds head length found
          rw [some] at found
          cases found
          exact holds
      rw [only]
      by_cases empty : h.contentLength = 0
      · refine iff_of_true ?_ (.inl empty)
        rw [reads.served_empty empty]
        simp
      · obtain ⟨b, body, run, start, -⟩ := reads.body empty
        have total : h.position + ([] ++ (g.unread :: later).flatten).length ≤ readBufferSize := by
          rw [List.nil_append, reads.split.total]
          exact room
        rw [run, or_iff_right empty]
        by_cases positive : 0 < h.contentLength
        · have line : b.start ≤ h.position + walk [] := start.le
          rw [body_reads_safe (g.unread :: later) fits positive body line total,
            reads_overflow_iff reads.split, reads_fill_iff reads.split, start]
          exact (and_iff_right (by omega)).symm
        · -- a negative length passes the first look
          have negative : h.contentLength < 0 := by omega
          have fitsNow : h.position + ([] ++ g.unread).length ≤ readBufferSize := by
            simp only [List.flatten_cons, List.nil_append, List.length_append] at total ⊢
            omega
          obtain ⟨looks, passes⟩ := body.negative fits negative fitsNow
          have call := read_body_call true (b.feed g.unread)
          have served :=
            (call.served (by rw [looks]; exact ⟨_, List.mem_singleton_self _, passes⟩)).1
          have content : (b.feed g.unread).phase = .content := body.phase
          have short : h.contentLength ≤ readBufferSize := by omega
          have none := no_sum_overflows h.position short room
          rw [read_chunks_cons, read_request_body content, resume_served served,
            call.looks, looks, and_iff_left ⟨none.1, fun fills => none.2 ⟨negative, fills⟩⟩]
          rw [start] at passes ⊢
          simp only [List.nil_append, List.mem_singleton, forall_eq, Look.Safe]
          constructor
          · exact fun safe => (safe.2 passes).1
          · intro inside
            have low := fits.1
            have empty : walk [] = 0 := rfl
            unfold readBufferSize at fitsNow ⊢
            simp only [List.nil_append, empty, Nat.add_zero] at fitsNow ⊢
            refine ⟨⟨?_, ?_⟩, fun _ => ⟨inside, by omega⟩⟩
            · omega
            · unfold intMax
              omega

/-- A request that reaches back a hundred bytes from the end of its head. -/
def negativeLength : List UInt8 := ascii "GET / HTTP/1.1\r\nContent-Length: -100\r\n\r\n"

set_option maxRecDepth 4000 in
theorem negative_length_unsafe :
    ¬ ∀ look ∈ (readChunks Reader.fresh [negativeLength]).looks, look.Safe := by decide

/-- Safety for every request fails there. -/
theorem negative_length_out_of_bounds : ¬ ∀ (fs : FileSystem) (c : HttpConn)
    (chunks : List (List UInt8)), chunks.flatten.length ≤ readBufferSize →
      InBounds (receive fs (init c).conn chunks).log := by
  intro safe
  have inside := safe .empty .unused [negativeLength] (by decide)
  have reads := init_receives .empty .unused [negativeLength] (by decide)
  exact negative_length_unsafe (reads.log.mp inside)

/-- A head and its body, received one after the other. -/
def bodyChunks : List (List UInt8) :=
  [ascii "GET / HTTP/1.1\r\nContent-Length: 2\r\n\r\n", ascii "hi"]

set_option maxRecDepth 4000 in
theorem parsing_in_bounds_body : declared bodyChunks.flatten = some (37, 2) ∧
    InBounds (receive .empty (init .unused).conn bodyChunks).log := by
  have found : declared bodyChunks.flatten = some (37, 2) := by decide
  refine ⟨found, (parsing_in_bounds_iff .empty .unused bodyChunks (by decide)).mpr ?_⟩
  intro head length some
  rw [found] at some
  cases some
  refine .inr ⟨by decide, (no_sum_overflows 37 (by decide) (by decide)).1, ?_⟩
  -- The request is over long before the buffer is.
  rintro ⟨before, next, behind, same, -, full, -⟩
  have length : bodyChunks.flatten.length = 39 := by decide
  rw [same] at length
  simp only [List.flatten_append, List.flatten_cons, List.length_append] at length full
  unfold readBufferSize at full
  omega

end StudyWebServer
