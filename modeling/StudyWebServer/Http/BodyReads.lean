import StudyWebServer.Http.ReaderRuns

/-!
The body over the reads of a request, in terms of the bytes alone. A read serves
the request if the declared length is there behind the place the scanner has
walked to over the body bytes of the reads before it, and also if the `int` sum
of the comparison overflows at a place where the body state looks.
-/

namespace StudyWebServer

open ByteMemory CString MachineInt CrlfLines

/-- The sum overflows at a look of the read that brings the body from `before` to `now`. -/
def Overflows (head : Nat) (length : Int) (before now : List UInt8) : Prop :=
  ∃ place ∈ walk before :: pairEnds now, intMax < length + (head + place : Nat)

def Taken (head : Nat) (length : Int) (before now : List UInt8) : Prop :=
  length + walk before ≤ now.length ∨ Overflows head length before now

/-- Some read takes the body. -/
def BodyTaken (head : Nat) (length : Int) (chunks : List (List UInt8)) : Prop :=
  ∃ earlier chunk later, chunks = earlier ++ chunk :: later ∧
    head ≤ (earlier.flatten ++ chunk).length ∧
    Taken head length (earlier.flatten.drop head) ((earlier.flatten ++ chunk).drop head)

/-- The reader in the body, `body` being the bytes of it looked at without success. -/
structure BodyAt (head : Nat) (length : Int) (body : List UInt8) (b : Reader) : Prop where
  phase : b.phase = .content
  position : b.position = head + walk body
  unread : b.unread = body.drop (walk body)
  length : b.contentLength = length
  start : head ≤ b.start

variable {head : Nat} {length : Int} {body chunk : List UInt8} {b : Reader}

theorem passes_iff {place : Nat} (arrived : Nat) (fits : FitsInt length)
    (place_le : place ≤ readBufferSize) :
    toInt (length + place) ≤ arrived ↔
      length + place ≤ arrived ∨ intMax < length + place := by
  unfold FitsInt intMin intMax at fits
  unfold readBufferSize at place_le
  unfold toInt intMax
  omega

theorem looks_along_passes (length : Int) (arrived line : Nat) (places : List Nat) :
    (∃ look ∈ looksAlong length arrived line places, look.passes) ↔
      ∃ place ∈ places, toInt (length + place) ≤ arrived := by
  induction places generalizing line with
  | nil => simp [looksAlong]
  | cons place places ih =>
      by_cases passes : Look.passes ⟨line, place, arrived, length⟩
      · simp only [looksAlong, passes, ↓reduceIte]
        constructor
        · exact fun _ => ⟨place, List.mem_cons_self, passes⟩
        · exact fun _ => ⟨_, List.mem_singleton_self _, passes⟩
      · simp only [looksAlong, passes, ↓reduceIte, List.mem_cons, exists_eq_or_imp, ih place,
          false_or]
        constructor
        · rintro ⟨later, member, passed⟩
          exact .inr ⟨later, member, passed⟩
        · rintro (here | later)
          · exact absurd here passes
          · exact later

namespace BodyAt

theorem feed_unread (reached : BodyAt head length body b) (chunk : List UInt8) :
    (b.feed chunk).unread = (body ++ chunk).drop (walk body) := by
  show b.unread ++ chunk = _
  rw [reached.unread, List.drop_append_of_le_length (walk_le body)]

theorem total (reached : BodyAt head length body b) (chunk : List UInt8) :
    (b.feed chunk).position + (b.feed chunk).unread.length = head + (body ++ chunk).length := by
  have bound := walk_le body
  have position : (b.feed chunk).position = head + walk body := reached.position
  rw [position, reached.feed_unread, List.length_drop, List.length_append]
  omega

theorem places (reached : BodyAt head length body b) (chunk : List UInt8) :
    lookPlaces true (b.feed chunk) = (walk body ::
      (pairEnds (body.drop (walk body) ++ chunk)).map (walk body + ·)).map (head + ·) := by
  have position : (b.feed chunk).position = head + walk body := reached.position
  have unread : (b.feed chunk).unread = body.drop (walk body) ++ chunk := by
    show b.unread ++ chunk = _
    rw [reached.unread]
  simp only [lookPlaces, position, unread, ↓reduceIte, List.singleton_append, List.map_cons,
    List.map_map, Function.comp_def, Nat.add_assoc]

/-- Every place of the earlier line ends lies before the place of the first look. -/
theorem overflows_iff (reached : BodyAt head length body b) (chunk : List UInt8) :
    Overflows head length body (body ++ chunk) ↔
      ∃ place ∈ lookPlaces true (b.feed chunk), intMax < length + place := by
  rw [reached.places, Overflows, (walk_append body chunk).2]
  simp only [List.mem_map, List.mem_cons, List.mem_append]
  constructor
  · rintro ⟨place, here | earlier | later, exceeds⟩
    · exact ⟨_, ⟨place, .inl here, rfl⟩, exceeds⟩
    · have bound := pair_ends_le body place earlier
      exact ⟨_, ⟨walk body, .inl rfl, rfl⟩, by push_cast at exceeds ⊢; omega⟩
    · exact ⟨_, ⟨place, .inr later, rfl⟩, exceeds⟩
  · rintro ⟨_, ⟨place, here | later, rfl⟩, exceeds⟩
    · exact ⟨place, .inl here, exceeds⟩
    · exact ⟨place, .inr (.inr later), exceeds⟩

theorem places_le (reached : BodyAt head length body b) (chunk : List UInt8) :
    ∀ place ∈ lookPlaces true (b.feed chunk),
      head + walk body ≤ place ∧ place ≤ head + (body ++ chunk).length := by
  have total := walk_le (body ++ chunk)
  have split := (walk_append body chunk).1
  intro place member
  rw [reached.places] at member
  simp only [List.map_cons, List.mem_cons, List.mem_map] at member
  rcases member with rfl | ⟨_, ⟨offset, inside, rfl⟩, rfl⟩
  · omega
  · have bound := pair_ends_le _ offset inside
    omega

theorem passes (reached : BodyAt head length body b) (fits : FitsInt length)
    (room : head + (body ++ chunk).length ≤ readBufferSize) :
    (∃ look ∈ callLooks true (b.feed chunk), look.passes) ↔
      Taken head length body (body ++ chunk) := by
  have first : head + walk body ∈ lookPlaces true (b.feed chunk) := by
    rw [reached.places]
    exact List.mem_cons_self
  have kept : (b.feed chunk).contentLength = length := reached.length
  rw [callLooks, kept, reached.total, looks_along_passes, Taken, reached.overflows_iff]
  constructor
  · rintro ⟨place, member, passed⟩
    have bounds := reached.places_le chunk place member
    rcases (passes_iff _ fits (by omega)).mp passed with enough | exceeds
    · left
      push_cast at enough
      omega
    · exact .inr ⟨place, member, exceeds⟩
  · rintro (enough | ⟨place, member, exceeds⟩)
    · refine ⟨_, first, (passes_iff _ fits ?_).mpr (.inl ?_)⟩
      · have bounds := reached.places_le chunk _ first
        omega
      · push_cast
        omega
    · have bounds := reached.places_le chunk place member
      exact ⟨place, member, (passes_iff _ fits (by omega)).mpr (.inr exceeds)⟩

/-- Where a read without success leaves the reader. -/
theorem next (reached : BodyAt head length body b)
    (none : ∀ look ∈ callLooks true (b.feed chunk), ¬ look.passes) :
    BodyAt head length (body ++ chunk) (readBody true (b.feed chunk)).reader ∧
    (readBody true (b.feed chunk)).reader.start =
      (lookPlaces true (b.feed chunk)).getLastD (b.feed chunk).start := by
  have call := read_body_call true (b.feed chunk)
  obtain ⟨-, -, start, position, unread⟩ := call.waited none
  have walked := (walk_append body chunk).1
  have held : (b.feed chunk).unread = body.drop (walk body) ++ chunk := by
    rw [reached.feed_unread, List.drop_append_of_le_length (walk_le body)]
  have before : (b.feed chunk).position = head + walk body := reached.position
  rw [held] at position unread
  refine ⟨⟨call.same.phase.trans reached.phase, ?_, ?_, call.same.length.trans reached.length, ?_⟩,
    start⟩
  · rw [position, before, walked, Nat.add_assoc]
  · rw [unread, walked, ← List.drop_drop, List.drop_append_of_le_length (walk_le body)]
  · rw [start, reached.places]
    have all : ∀ place ∈ (walk body ::
        (pairEnds (body.drop (walk body) ++ chunk)).map (walk body + ·)).map (head + ·),
        head ≤ place := by
      intro place member
      obtain ⟨offset, -, rfl⟩ := List.mem_map.mp member
      omega
    generalize (walk body :: (pairEnds (body.drop (walk body) ++ chunk)).map
      (walk body + ·)).map (head + ·) = places at all ⊢
    cases last : places.getLast? with
    | none =>
        rw [List.getLastD_eq_getLast?, last]
        exact reached.start
    | some place =>
        rw [List.getLastD_eq_getLast?, last]
        exact all place (List.mem_of_getLast? last)

end BodyAt

section Reads

/-- The body reads of a request end with the request served or waiting. -/
structure BodyReads (head : Nat) (length : Int) (body : List UInt8) (b : Reader)
    (chunks : List (List UInt8)) (reading : Reading) : Prop where
  served : reading.verdict = .serve ↔ ∃ earlier chunk later, chunks = earlier ++ chunk :: later ∧
    Taken head length (body ++ earlier.flatten) (body ++ earlier.flatten ++ chunk)
  waited : reading.verdict ≠ .serve → reading.verdict = .wait ∧ reading.reader.url = b.url
  same : SameRequest b reading.reader
  url : reading.verdict = .serve → ∃ line, head ≤ line ∧ (length < 0 → body = [] → line = b.start) ∧
    reading.reader.url = b.url.map (Url.cutAt (line + length))

theorem looks_along_line {length : Int} {arrived line : Nat} {places : List Nat}
    (lower : head ≤ line) (all : ∀ place ∈ places, head ≤ place) :
    ∀ look ∈ looksAlong length arrived line places, head ≤ look.line := by
  induction places generalizing line with
  | nil => simp [looksAlong]
  | cons place places ih =>
      intro look member
      by_cases passes : Look.passes ⟨line, place, arrived, length⟩
      · simp only [looksAlong, passes, ↓reduceIte, List.mem_singleton] at member
        exact member ▸ lower
      · simp only [looksAlong, passes, ↓reduceIte, List.mem_cons] at member
        rcases member with rfl | member
        · exact lower
        · exact ih (all place List.mem_cons_self)
            (fun other inside => all other (List.mem_cons_of_mem _ inside)) look member

theorem read_request_body {r : Reader} (body : r.phase = .content) :
    readRequest r = readBody true r := if_pos body

/-- A negative length passes the first look. -/
theorem BodyAt.negative (reached : BodyAt head length body b) (fits : FitsInt length)
    (negative : length < 0) (room : head + (body ++ chunk).length ≤ readBufferSize) :
    callLooks true (b.feed chunk) = [⟨b.start, head + walk body,
      head + (body ++ chunk).length, length⟩] ∧
    Look.passes ⟨b.start, head + walk body, head + (body ++ chunk).length, length⟩ := by
  have bound := walk_le body
  have passes : Look.passes ⟨b.start, head + walk body, head + (body ++ chunk).length, length⟩ := by
    have place : head + walk body ≤ readBufferSize := by
      rw [List.length_append] at room
      omega
    refine (passes_iff _ fits place).mpr (.inl ?_)
    simp only [List.length_append]
    omega
  have kept : (b.feed chunk).contentLength = length := reached.length
  refine ⟨?_, passes⟩
  rw [callLooks, kept, reached.total, reached.places, List.map_cons, looksAlong]
  exact if_pos passes

/-- Room for all the reads is room for the first, and for the others behind it. -/
theorem room_cons {chunk : List UInt8} {chunks : List (List UInt8)}
    (room : head + (body ++ (chunk :: chunks).flatten).length ≤ readBufferSize) :
    head + (body ++ chunk).length ≤ readBufferSize ∧
      head + (body ++ chunk ++ chunks.flatten).length ≤ readBufferSize := by
  rw [List.flatten_cons, ← List.append_assoc] at room
  refine ⟨?_, room⟩
  rw [List.length_append] at room
  omega

theorem body_reads (chunks : List (List UInt8)) (fits : FitsInt length)
    (reached : BodyAt head length body b)
    (room : head + (body ++ chunks.flatten).length ≤ readBufferSize) :
    BodyReads head length body b chunks (readChunks b chunks) := by
  induction chunks generalizing body b with
  | nil =>
      constructor
      · constructor
        · exact fun served => by cases served
        · rintro ⟨earlier, chunk, later, split, -⟩
          simp at split
      · exact fun _ => ⟨rfl, rfl⟩
      · exact ⟨rfl, rfl, rfl⟩
      · exact fun served => by cases served
  | cons chunk chunks ih =>
      obtain ⟨fitsNow, room⟩ := room_cons room
      have call := read_body_call true (b.feed chunk)
      have content : (b.feed chunk).phase = .content := reached.phase
      have kept : (b.feed chunk).contentLength = length := reached.length
      rw [read_chunks_cons, read_request_body content]
      by_cases taken : Taken head length body (body ++ chunk)
      · have passed := (reached.passes fits fitsNow).mpr taken
        obtain ⟨verdict, look, member, passes, url⟩ := call.served passed
        rw [resume_served verdict]
        constructor
        · constructor
          · exact fun _ => ⟨[], chunk, chunks, rfl, by simpa using taken⟩
          · exact fun _ => verdict
        · exact fun other => absurd verdict other
        · exact ⟨call.same.phase, call.same.linger, call.same.length⟩
        · intro _
          rw [kept] at url
          refine ⟨look.line, ?_, ?_, url⟩
          · exact looks_along_line reached.start
              (fun place inside => Nat.le_trans (Nat.le_add_right _ _)
                (reached.places_le chunk place inside).1) look member
          · intro negative _
            rw [(reached.negative fits negative fitsNow).1] at member
            rw [List.mem_singleton.mp member]
      · have none : ∀ look ∈ callLooks true (b.feed chunk), ¬ look.passes :=
          fun look member passes => taken ((reached.passes fits fitsNow).mp ⟨look, member, passes⟩)
        obtain ⟨verdict, url, -⟩ := call.waited none
        have later := ih (reached.next none).1 room
        rw [resume_waits verdict]
        constructor
        · rw [later.served]
          constructor
          · rintro ⟨earlier, next, behind, rfl, taken⟩
            refine ⟨chunk :: earlier, next, behind, rfl, ?_⟩
            rw [List.flatten_cons, ← List.append_assoc]
            exact taken
          · rintro ⟨earlier, next, behind, split, taken'⟩
            cases earlier with
            | nil =>
                obtain ⟨rfl, rfl⟩ := List.cons.inj split
                simp only [List.flatten_nil, List.append_nil] at taken'
                exact absurd taken' taken
            | cons first earlier =>
                obtain ⟨rfl, rfl⟩ := List.cons.inj split
                refine ⟨earlier, next, behind, rfl, ?_⟩
                rw [List.flatten_cons, ← List.append_assoc] at taken'
                exact taken'
        · intro unserved
          obtain ⟨waits, kept⟩ := later.waited unserved
          exact ⟨waits, kept.trans url⟩
        · exact ⟨later.same.phase.trans call.same.phase, later.same.linger.trans call.same.linger,
            later.same.length.trans call.same.length⟩
        · intro served
          obtain ⟨line, lower, -, cut⟩ := later.url served
          refine ⟨line, lower, ?_, by rw [cut, url]; rfl⟩
          intro negative empty
          -- a negative length is taken by the first read
          exact absurd ((reached.passes fits fitsNow).mp ⟨_, by
            rw [(reached.negative fits negative fitsNow).1]
            exact List.mem_singleton_self _, (reached.negative fits negative fitsNow).2⟩) taken

end Reads

section Splits

/-- The read of `chunk` completes the head and brings the first bytes of the body. -/
structure HeadSplit (head : Nat) (chunks earlier : List (List UInt8)) (chunk : List UInt8)
    (later : List (List UInt8)) (first : List UInt8) : Prop where
  split : chunks = earlier ++ chunk :: later
  before : earlier.flatten.length < head
  reached : head ≤ (earlier.flatten ++ chunk).length
  bytes : (earlier.flatten ++ chunk).drop head = first

variable {chunks earlier later : List (List UInt8)} {first : List UInt8}

theorem HeadSplit.total (opens : HeadSplit head chunks earlier chunk later first) :
    head + (first :: later).flatten.length = chunks.flatten.length := by
  have reached := opens.reached
  rw [opens.split, ← opens.bytes]
  simp only [List.flatten_append, List.flatten_cons, List.length_append, List.length_drop] at *
  omega

theorem HeadSplit.none (opens : HeadSplit head chunks earlier chunk later first) :
    earlier.flatten.drop head = [] := List.drop_eq_nil_of_le opens.before.le

theorem HeadSplit.behind (opens : HeadSplit head chunks earlier chunk later first)
    (more : List (List UInt8)) :
    (earlier ++ chunk :: more).flatten.drop head = (first :: more).flatten := by
  have flat : (earlier ++ chunk :: more).flatten = earlier.flatten ++ chunk ++ more.flatten := by
    simp
  rw [flat, List.drop_append_of_le_length opens.reached, opens.bytes, List.flatten_cons]

/-- The same reads, cut short behind the head. -/
theorem HeadSplit.truncate (opens : HeadSplit head chunks earlier chunk later first)
    (more : List (List UInt8)) :
    HeadSplit head (earlier ++ chunk :: more) earlier chunk more first :=
  ⟨rfl, opens.before, opens.reached, opens.bytes⟩

theorem HeadSplit.reached_behind (opens : HeadSplit head chunks earlier chunk later first)
    (more : List (List UInt8)) : head ≤ (earlier ++ chunk :: more).flatten.length := by
  have reached := opens.reached
  simp only [List.flatten_append, List.flatten_cons, List.length_append] at reached ⊢
  omega

/-- A read that reaches behind the head is the one that completes it or a later one. -/
theorem HeadSplit.exists_read (opens : HeadSplit head chunks earlier chunk later first)
    (holds : List (List UInt8) → List UInt8 → Prop) :
    (∃ before next behind, chunks = before ++ next :: behind ∧
      head ≤ (before.flatten ++ next).length ∧ holds before next) ↔
    holds earlier chunk ∨ ∃ between next behind, later = between ++ next :: behind ∧
      holds (earlier ++ chunk :: between) next := by
  constructor
  · rintro ⟨before, next, behind, split, enough, held⟩
    have both : earlier ++ chunk :: later = before ++ next :: behind := opens.split.symm.trans split
    rcases List.append_eq_append_iff.mp both with ⟨more, rfl, rest⟩ | ⟨more, same, rest⟩
    · cases more with
      | nil =>
          obtain ⟨rfl, rfl⟩ := List.cons.inj rest
          rw [List.append_nil] at held
          exact .inl held
      | cons other more =>
          obtain ⟨rfl, rfl⟩ := List.cons.inj rest
          exact .inr ⟨more, next, behind, rfl, held⟩
    · cases more with
      | nil =>
          obtain ⟨rfl, rfl⟩ := List.cons.inj rest
          rw [List.append_nil] at same
          exact .inl (same ▸ held)
      | cons other more =>
          -- the head would have been complete before
          obtain ⟨rfl, -⟩ := List.cons.inj rest
          have short := opens.before
          rw [same] at short
          simp only [List.flatten_append, List.flatten_cons, List.length_append] at short enough
          omega
  · rintro (held | ⟨between, next, behind, rfl, held⟩)
    · exact ⟨earlier, chunk, later, opens.split, opens.reached, held⟩
    · refine ⟨earlier ++ chunk :: between, next, behind, ?_, ?_, held⟩
      · rw [opens.split, List.append_assoc, List.cons_append]
      · have reached := opens.reached
        simp only [List.flatten_append, List.flatten_cons, List.length_append] at reached ⊢
        omega

theorem exists_read_cons (first : List UInt8) (later : List (List UInt8))
    (holds : List (List UInt8) → List UInt8 → Prop) :
    (∃ before next behind, first :: later = before ++ next :: behind ∧ holds before next) ↔
    holds [] first ∨ ∃ between next behind, later = between ++ next :: behind ∧
      holds (first :: between) next := by
  constructor
  · rintro ⟨before, next, behind, split, held⟩
    cases before with
    | nil =>
        obtain ⟨rfl, rfl⟩ := List.cons.inj split
        exact .inl held
    | cons other before =>
        obtain ⟨rfl, rfl⟩ := List.cons.inj split
        exact .inr ⟨before, next, behind, rfl, held⟩
  · rintro (held | ⟨between, next, behind, rfl, held⟩)
    · exact ⟨[], first, later, rfl, held⟩
    · exact ⟨first :: between, next, behind, rfl, held⟩

/-- The body reads counted over all the reads of the request. -/
theorem body_taken_iff (opens : HeadSplit head chunks earlier chunk later first) (length : Int) :
    BodyTaken head length chunks ↔ ∃ before next behind, first :: later = before ++ next :: behind ∧
      Taken head length before.flatten (before.flatten ++ next) := by
  rw [BodyTaken, opens.exists_read fun before next => Taken head length
    (before.flatten.drop head) ((before.flatten ++ next).drop head), exists_read_cons first later
    fun before next => Taken head length before.flatten (before.flatten ++ next)]
  have opening : Taken head length (earlier.flatten.drop head)
      ((earlier.flatten ++ chunk).drop head)
      ↔ Taken head length [] ([] ++ first) := by
    rw [opens.none, opens.bytes, List.nil_append]
  have going : ∀ between next, Taken head length ((earlier ++ chunk :: between).flatten.drop head)
      (((earlier ++ chunk :: between).flatten ++ next).drop head) ↔
      Taken head length (first :: between).flatten ((first :: between).flatten ++ next) := by
    intro between next
    rw [List.drop_append_of_le_length (opens.reached_behind between), opens.behind]
  simp only [going]
  exact or_congr_left opening

/-- One read brings the body if its length is there, or the sum overflows. -/
theorem body_taken_once {bytes : List UInt8} (length : Int) (inside : head ≤ bytes.length) :
    BodyTaken head length [bytes] ↔ Taken head length [] (bytes.drop head) := by
  constructor
  · rintro ⟨earlier, chunk, later, parts, -, taken⟩
    cases earlier with
    | nil =>
        cases parts
        simpa using taken
    | cons first earlier => simp at parts
  · intro taken
    exact ⟨[], bytes, [], rfl, inside, by simpa using taken⟩

end Splits

end StudyWebServer
