import StudyWebServer.WebServer.Buffer

/-!
Runs of calls to Buffer: it is a queue of bytes, its vector no larger than twice what the
queue has held or made room for.
-/

namespace StudyWebServer.WebServer.Buffer

inductive Call where
  | append (str : Bytes)
  /-- with what readv got -/
  | readFd (result : Option Bytes)
  /-- with what write took -/
  | writeFd (result : Option Nat)
  | retrieve (len : Nat)
  | retrieveUntil (distance : Int)
  | retrieveAll
  | retrieveAllToStr
  | ensureWriteable (len : Nat)
  /-- behind these bytes stored at BeginWrite() -/
  | hasWritten (stored : Bytes)

namespace Call

/-- The size of ReadFd's second buffer. -/
def spare : Nat := 65535

/-- The arguments are objects of the program, and readv and write keep to their limits. -/
def Accepted (b : Buffer) : Call → Prop
  | .append str => str.length ≤ maxSize
  | .readFd (some data) => data.length ≤ maxSize ∧ data.length ≤ b.writableBytes + spare
  | .writeFd (some len) => len ≤ b.contents.length
  | .retrieve len => len ≤ maxSize
  | .retrieveUntil distance => distance ≤ maxSize
  | .ensureWriteable len => len ≤ maxSize
  | .hasWritten stored => stored.length ≤ b.writableBytes
  | _ => True

instance (b : Buffer) : (call : Call) → Decidable (call.Accepted b)
  | .append str => inferInstanceAs (Decidable (str.length ≤ maxSize))
  | .readFd (some data) =>
      inferInstanceAs (Decidable (data.length ≤ maxSize ∧ data.length ≤ b.writableBytes + spare))
  | .writeFd (some len) => inferInstanceAs (Decidable (len ≤ b.contents.length))
  | .retrieve len => inferInstanceAs (Decidable (len ≤ maxSize))
  | .retrieveUntil distance => inferInstanceAs (Decidable (distance ≤ maxSize))
  | .ensureWriteable len => inferInstanceAs (Decidable (len ≤ maxSize))
  | .hasWritten stored => inferInstanceAs (Decidable (stored.length ≤ b.writableBytes))
  | .readFd none => .isTrue trivial
  | .writeFd none => .isTrue trivial
  | .retrieveAll => .isTrue trivial
  | .retrieveAllToStr => .isTrue trivial

/-- The bytes that enter the queue. -/
def enters : Call → Bytes
  | .append str => str
  | .readFd (some data) => data
  | .hasWritten stored => stored
  | _ => []

/-- How many bytes are to find room behind those in the queue. -/
def makesRoom : Call → Nat
  | .ensureWriteable len => len
  | _ => 0

/-- How many bytes are to leave it. -/
def leaves (queue : Bytes) : Call → Int
  | .writeFd (some len) => len
  | .retrieve len => len
  | .retrieveUntil distance => distance
  | .retrieveAll => queue.length
  | .retrieveAllToStr => queue.length
  | _ => 0

end Call

def step (b : Buffer) : Call → Except Fault Buffer
  | .append str => b.append str
  | .readFd result => b.readFd result
  | .writeFd result => b.writeFd result
  | .retrieve len => b.retrieve len
  | .retrieveUntil distance => b.retrieveUntil distance
  | .retrieveAll => .ok b.retrieveAll
  | .retrieveAllToStr => b.retrieveAllToStr.map Prod.snd
  | .ensureWriteable len => b.ensureWriteable len
  | .hasWritten stored => (b.store b.writePos stored).map (hasWritten · stored.length)

/-- What a call on a queue does: bytes enter behind, or leave in front. -/
structure Advance (b next : Buffer) (call : Call) : Prop where
  wellFormed : WellFormed next
  least : 0 ≤ call.leaves b.contents
  enough : call.leaves b.contents ≤ b.contents.length
  contents : next.contents = b.contents.drop (call.leaves b.contents).toNat ++ call.enters
  bound : next.buffer.length ≤ max b.buffer.length (2 * (next.contents.length + call.makesRoom))

variable {b next : Buffer} {call : Call}

theorem Advance.of_enters (wellFormed : WellFormed next) (none : call.leaves b.contents = 0)
    (contents : next.contents = b.contents ++ call.enters)
    (bound : next.buffer.length ≤ max b.buffer.length
      (2 * (next.contents.length + call.makesRoom))) :
    Advance b next call := by
  refine ⟨wellFormed, by omega, by omega, ?_, bound⟩
  rw [contents, none]
  rfl

theorem Advance.of_leaves {len : Nat} (wellFormed : WellFormed next)
    (count : call.leaves b.contents = len) (none : call.enters = [])
    (enough : len ≤ b.contents.length) (contents : next.contents = b.contents.drop len)
    (size : next.buffer.length = b.buffer.length) : Advance b next call := by
  refine ⟨wellFormed, by omega, by omega, ?_, size.le.trans (le_max_left _ _)⟩
  rw [contents, count, none, List.append_nil]
  rfl

/-- A call on a well formed buffer is one on the queue, asks for too many bytes, or for a
vector that is too large. -/
theorem step_cases (wellFormed : WellFormed b) (accepted : call.Accepted b) :
    (∃ next, b.step call = .ok next ∧ Advance b next call) ∨
    (b.step call = .error .assertion ∧
      (call.leaves b.contents < 0 ∨ b.contents.length < call.leaves b.contents)) ∨
    (b.step call = .error .length ∧
      maxSize < b.buffer.length + call.enters.length + call.makesRoom + 1 ∧
      call.leaves b.contents = 0) := by
  have inside := wellFormed.inside
  cases call with
  | append str =>
      rcases append_spec wellFormed accepted with ⟨large, failed⟩ |
        ⟨next, went, good, same, bound, -⟩
      · exact .inr (.inr ⟨failed, by dsimp only [Call.enters, Call.makesRoom]; omega, rfl⟩)
      · exact .inl ⟨next, went, .of_enters good rfl same bound⟩
  | readFd result =>
      cases result with
      | none =>
          exact .inl ⟨b, rfl, .of_enters wellFormed rfl (List.append_nil _).symm (le_max_left _ _)⟩
      | some data =>
          rcases read_fd_spec wellFormed accepted.1 with ⟨large, failed⟩ |
            ⟨next, went, good, same, bound⟩
          · exact .inr (.inr ⟨failed, large, rfl⟩)
          · exact .inl ⟨next, went, .of_enters good rfl same bound⟩
  | writeFd result =>
      cases result with
      | none =>
          exact .inl ⟨b, rfl, .of_enters wellFormed rfl (List.append_nil _).symm (le_max_left _ _)⟩
      | some len =>
          obtain ⟨next, went, good, same, size⟩ := retrieve_spec wellFormed accepted
          have written : b.step (.writeFd (some len)) = .ok next := by
            rw [retrieve, if_pos (wellFormed.contents_length ▸ accepted)] at went
            exact went
          exact .inl ⟨next, written, .of_leaves good rfl rfl accepted same size⟩
  | retrieve len =>
      rcases Nat.lt_or_ge b.contents.length len with more | enough
      · exact .inr (.inl ⟨retrieve_too_much wellFormed more, .inr (Int.ofNat_lt.mpr more)⟩)
      · obtain ⟨next, went, good, same, size⟩ := retrieve_spec wellFormed enough
        exact .inl ⟨next, went, .of_leaves good rfl rfl enough same size⟩
  | retrieveUntil distance =>
      rcases Int.lt_or_le distance 0 with behind | front
      · exact .inr (.inl ⟨if_neg (by omega), .inl behind⟩)
      · obtain ⟨len, rfl⟩ := Int.eq_ofNat_of_zero_le front
        have position : sizeT len = len := by
          have small : (len : Int) ≤ maxSize := accepted
          unfold maxSize at small
          unfold sizeT
          omega
        have same : b.step (.retrieveUntil len) = b.retrieve len := by
          rw [step, retrieveUntil, if_pos front, position]
        rw [same]
        rcases Nat.lt_or_ge b.contents.length len with more | enough
        · exact .inr (.inl ⟨retrieve_too_much wellFormed more, .inr (Int.ofNat_lt.mpr more)⟩)
        · obtain ⟨next, went, good, same, size⟩ := retrieve_spec wellFormed enough
          exact .inl ⟨next, went, .of_leaves good rfl rfl enough same size⟩
  | retrieveAll =>
      obtain ⟨good, empty, size⟩ := retrieve_all_spec wellFormed
      exact .inl ⟨_, rfl, .of_leaves good rfl rfl (Nat.le_refl _)
        (empty.trans (List.drop_length).symm) size⟩
  | retrieveAllToStr =>
      obtain ⟨good, empty, size⟩ := retrieve_all_spec wellFormed
      have went : b.step .retrieveAllToStr = .ok b.retrieveAll := by
        rw [step, retrieve_all_to_str_spec wellFormed]
        rfl
      exact .inl ⟨_, went, .of_leaves good rfl rfl (Nat.le_refl _)
        (empty.trans (List.drop_length).symm) size⟩
  | ensureWriteable len =>
      rcases ensure_writeable_spec wellFormed accepted with ⟨large, failed⟩ |
        ⟨next, went, good, same, -, bound, -⟩
      · exact .inr (.inr ⟨failed, by
          dsimp only [Call.enters, Call.makesRoom, List.length_nil]; omega,
          rfl⟩)
      · rw [← same] at bound
        exact .inl ⟨next, went, .of_enters good rfl (same.trans (List.append_nil _).symm) bound⟩
  | hasWritten stored =>
      have room : b.writePos + stored.length ≤ b.buffer.length := by
        have fits : stored.length ≤ b.writableBytes := accepted
        rw [wellFormed.writable] at fits
        omega
      obtain ⟨filled, went, good, same, -, size⟩ := store_spec wellFormed room
      refine .inl ⟨filled.hasWritten stored.length, ?_,
        .of_enters good rfl same (size.le.trans (le_max_left _ _))⟩
      rw [step, went]
      rfl

/-- A buffer, what went through it and the most it held or made room for. -/
structure Trace where
  b : Buffer
  entered : Bytes
  gone : Bytes
  peak : Nat

def Trace.after (t : Trace) (call : Call) (next : Buffer) : Trace where
  b := next
  entered := t.entered ++ call.enters
  gone := t.gone ++ t.b.contents.take (call.leaves t.b.contents).toNat
  peak := max t.peak (next.contents.length + call.makesRoom)

inductive Reached (initBuffSize : Nat) : Trace → Prop where
  | start : Reached initBuffSize ⟨init initBuffSize, [], [], 0⟩
  | step {t : Trace} {next : Buffer} (call : Call) (reached : Reached initBuffSize t)
      (accepted : call.Accepted t.b) (stepped : t.b.step call = .ok next) :
      Reached initBuffSize (t.after call next)

variable {initBuffSize : Nat} {t : Trace}

/-- What holds of a buffer and what went through it. -/
structure Queue (initBuffSize : Nat) (t : Trace) : Prop where
  wellFormed : WellFormed t.b
  fifo : t.gone ++ t.b.contents = t.entered
  held : t.b.contents.length ≤ t.peak
  bound : t.b.buffer.length ≤ max initBuffSize (2 * t.peak)

theorem Queue.after (queue : Queue initBuffSize t) (advance : Advance t.b next call) :
    Queue initBuffSize (t.after call next) := by
  refine ⟨advance.wellFormed, ?_, (Nat.le_add_right _ _).trans (le_max_right _ _), ?_⟩
  · show t.gone ++ _ ++ next.contents = t.entered ++ call.enters
    rw [advance.contents, ← queue.fifo, List.append_assoc, ← List.append_assoc (List.take _ _),
      List.take_append_drop, List.append_assoc]
  · have before := queue.bound
    have size := advance.bound
    show next.buffer.length ≤
      max initBuffSize (2 * max t.peak (next.contents.length + call.makesRoom))
    omega

theorem Reached.queue (small : initBuffSize ≤ maxSize) (reached : Reached initBuffSize t) :
    Queue initBuffSize t := by
  induction reached with
  | start =>
      refine ⟨init_well_formed small, rfl, Nat.le_refl 0, ?_⟩
      show (List.replicate initBuffSize 0).length ≤ _
      rw [List.length_replicate]
      exact le_max_left _ _
  | step call reached accepted stepped ih =>
      rcases step_cases ih.wellFormed accepted with ⟨next, went, advance⟩ |
        ⟨failed, -⟩ | ⟨failed, -⟩
      · cases went.symm.trans stepped
        exact ih.after advance
      · cases failed.symm.trans stepped
      · cases failed.symm.trans stepped

end StudyWebServer.WebServer.Buffer
