import StudyWebServer.Http.Response

/-!
What read() makes of the outcomes of recv. Each outcome is an answer to the
length asked for, and a length of zero is answered with zero.
-/

namespace StudyWebServer

open ByteMemory

/-- Outcomes that recv can have one after the other, with so much room at the
first call. With no room the length asked for is zero. -/
def Answers : List Recv → (room : Nat) → Prop
  | [], room => 0 < room
  | .again :: _, room => 0 < room
  | .failed :: _, room => 0 < room
  | .ended :: _, _ => True
  | .data bytes :: rest, room => bytes.length ≤ room ∧
      (room = 0 ∨ bytes ≠ [] ∧ Answers rest (room - bytes.length))

/-- The bytes handed over before recv has none. -/
def received : List Recv → List UInt8
  | .data bytes :: rest => if bytes = [] then [] else bytes ++ received rest
  | _ => []

/-- The peer closed, or recv failed with another error than EAGAIN. -/
def gone : List Recv → Bool
  | .data bytes :: rest => bytes ≠ [] && gone rest
  | .failed :: _ => true
  | .ended :: _ => true
  | _ => false

/-- What a loop that reads until there is no more data should do. A true result
is what main hands over to the pool on EPOLLIN. -/
structure AcceptsAll (results : List Recv) (c : HttpConn) : Prop where
  appends : (read results c).conn = appendRead (received results) c
  inside : (read results c).conn.readIdx ≤ readBufferSize
  refuses : (read results c).ret = false → gone results = true

/-- read() gives up on a connection that is gone, and on a buffer that it has
just filled: it asks again, for no bytes, and takes the zero for the peer's end. -/
theorem read_loop_result (results : List Recv) (c : HttpConn) (room : c.readIdx ≤ readBufferSize)
    (answers : Answers results (readBufferSize - c.readIdx)) :
    (readLoop results c).conn = appendRead (received results) c ∧
      c.readIdx + (received results).length ≤ readBufferSize ∧
      ((readLoop results c).ret = false ↔
        gone results = true ∨ c.readIdx + (received results).length = readBufferSize) := by
  induction results generalizing c with
  | nil =>
      have space : 0 < readBufferSize - c.readIdx := answers
      refine ⟨(append_read_nil c).symm, room, iff_of_false (by simp [readLoop]) ?_⟩
      simp only [gone, received, List.length_nil, Bool.false_eq_true, false_or]
      omega
  | cons result rest ih =>
      cases result with
      | again =>
          have space : 0 < readBufferSize - c.readIdx := answers
          refine ⟨(append_read_nil c).symm, room, iff_of_false (by simp [readLoop]) ?_⟩
          simp only [gone, received, List.length_nil, Bool.false_eq_true, false_or]
          omega
      | failed => exact ⟨(append_read_nil c).symm, room, iff_of_true rfl (.inl rfl)⟩
      | ended => exact ⟨(append_read_nil c).symm, room, iff_of_true rfl (.inl rfl)⟩
      | data bytes =>
          obtain ⟨fits, full | ⟨nonempty, later⟩⟩ := answers
          · have none : bytes = [] := List.eq_nil_of_length_eq_zero (by omega)
            subst none
            refine ⟨?_, room, iff_of_true (by simp [readLoop]) (.inr ?_)⟩
            · simp only [readLoop, received, List.take_nil, if_true, append_read_nil]
            · simp only [received, if_true, List.length_nil]
              omega
          · have whole : bytes.take (readBufferSize - c.readIdx) = bytes :=
              List.take_of_length_le fits
            have moved : (appendRead bytes c).readIdx = c.readIdx + bytes.length := rfl
            rw [Nat.sub_sub, ← moved] at later
            obtain ⟨conn, inside, ret⟩ := ih (appendRead bytes c) (by omega) later
            have step : (readLoop (.data bytes :: rest) c).conn =
                  (readLoop rest (appendRead bytes c)).conn ∧
                (readLoop (.data bytes :: rest) c).ret =
                  (readLoop rest (appendRead bytes c)).ret := by
              simp only [readLoop, whole, if_neg nonempty, and_self]
            have bytesReceived : received (.data bytes :: rest) = bytes ++ received rest :=
              if_neg nonempty
            have same : gone (.data bytes :: rest) = gone rest := by simp [gone, nonempty]
            rw [step.1, step.2, bytesReceived, same, List.length_append, ← Nat.add_assoc, ← moved]
            exact ⟨conn.trans (append_read_again bytes _ c), inside, ret⟩

theorem read_result {results : List Recv} {c : HttpConn} (entry : c.readIdx < readBufferSize)
    (answers : Answers results (readBufferSize - c.readIdx)) :
    (read results c).conn = appendRead (received results) c ∧
      c.readIdx + (received results).length ≤ readBufferSize ∧
      ((read results c).ret = false ↔
        gone results = true ∨ c.readIdx + (received results).length = readBufferSize) := by
  rw [read, if_neg (by omega)]
  exact read_loop_result results c entry.le answers

/-- Bytes that leave room for one more are read and passed on. -/
theorem read_accepts_exact (results : List Recv) (c : HttpConn) (entry : c.readIdx < readBufferSize)
    (answers : Answers results (readBufferSize - c.readIdx)) :
    AcceptsAll results c ↔
      c.readIdx + (received results).length < readBufferSize ∨ gone results = true := by
  obtain ⟨conn, inside, ret⟩ := read_result entry answers
  constructor
  · intro accepts
    by_cases full : c.readIdx + (received results).length = readBufferSize
    · exact .inr (accepts.refuses (ret.mpr (.inr full)))
    · exact .inl (by omega)
  · intro spare
    refine ⟨conn, by rw [conn]; exact inside, fun refused => ?_⟩
    rcases ret.mp refused with left | full
    · exact left
    · exact spare.resolve_left (by omega)

/-- Two pieces of a request. -/
theorem read_accepts_exact_short :
    AcceptsAll [.data [71, 69], .data [84], .again] (init .unused).conn := by
  refine (read_accepts_exact [.data [71, 69], .data [84], .again] (init .unused).conn (by decide)
    ⟨by decide, .inr ⟨by decide, by decide, .inr ⟨by decide, ?_⟩⟩⟩).mpr (.inl (by decide))
  exact (by decide : 0 < readBufferSize - 0 - 2 - 1)

/-- A request that fills m_read_buf, and the zero that recv answers behind it. -/
def fillingRequest : List Recv := [.data (List.replicate readBufferSize 97), .data []]

theorem filling_request_refused :
    Answers fillingRequest (readBufferSize - (init .unused).conn.readIdx) ∧
      gone fillingRequest = false ∧ (read fillingRequest (init .unused).conn).ret = false ∧
      ¬ AcceptsAll fillingRequest (init .unused).conn := by
  have start : (init .unused).conn.readIdx = 0 := rfl
  have nonempty : List.replicate readBufferSize (97 : UInt8) ≠ [] :=
    List.ne_nil_of_length_pos (by rw [List.length_replicate]; decide)
  have answers : Answers fillingRequest (readBufferSize - (init .unused).conn.readIdx) := by
    refine ⟨by rw [List.length_replicate, start]; exact Nat.le_refl _, .inr ⟨nonempty, ?_, .inl ?_⟩⟩
    · exact Nat.zero_le _
    · rw [List.length_replicate, start, Nat.sub_zero, Nat.sub_self]
  have present : gone fillingRequest = false := by simp [fillingRequest, gone]
  have all : received fillingRequest = List.replicate readBufferSize 97 := by
    simp only [fillingRequest, received, if_neg nonempty, if_true, List.append_nil]
  have refused : (read fillingRequest (init .unused).conn).ret = false := by
    rw [(read_result (by rw [start]; decide) answers).2.2]
    exact .inr (by rw [all, List.length_replicate, start, Nat.zero_add])
  refine ⟨answers, present, refused, fun accepts => ?_⟩
  rw [accepts.refuses refused] at present
  cases present

end StudyWebServer
