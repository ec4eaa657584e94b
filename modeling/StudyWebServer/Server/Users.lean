import StudyWebServer.Http.Containment

/-!
The array users of main.cpp, and what an operation on one of its objects does to
the others. The objects lie one behind the other, so bytes stored behind the end
of one are bytes of the next.
-/

namespace StudyWebServer

open ByteMemory CString MachineInt Layout

/-- `MAX_FD` -/
def maxFd : Nat := 65536

/-- The member functions, with what the operating system answers in them. -/
inductive Operation where
  | initConn (sockfd : Int) (addr : List UInt8)
  | init
  | read (results : List Recv)
  | processRead (fs : FileSystem)
  | processWrite (ret : HttpCode)
  | write (pages : Memory) (results : List Writev)
  | closeConn

def Outcome.dropValue {Value : Type} (call : Outcome Value) : Outcome Unit :=
  ⟨(), call.conn, call.log⟩

def invoke : Operation → HttpConn → Outcome Unit
  | .initConn sockfd addr, c => initConn sockfd addr c
  | .init, c => init c
  | .read results, c => (read results c).dropValue
  | .processRead fs, c => (processRead fs c).dropValue
  | .processWrite ret, c => (processWrite ret c).dropValue
  | .write pages results, c => (write pages results c).dropValue
  | .closeConn, c => closeConn c

/-- A store of one object as it falls on the object `distance` places behind it.
What leaves an array is zero bytes: the bzero calls of init() and the NUL of
parse_content. -/
def spill (distance : Int) (c : HttpConn) : Effect → HttpConn
  | .store array index count =>
      let low := array.offset + index - objectSize * distance
      bzero low (low + count) c
  | _ => c

def spilled (distance : Int) (log : List Effect) (c : HttpConn) : HttpConn :=
  log.foldl (spill distance) c

structure Users where
  conn : Nat → HttpConn
  /-- the public init() was called on the object -/
  initialised : Nat → Bool

/-- `new http_conn[MAX_FD]` leaves the members of its objects as they are. -/
def Users.unused (conn : Nat → HttpConn) : Users := ⟨conn, fun _ => false⟩

def Operation.initialises : Operation → Bool
  | .initConn _ _ => true
  | _ => false

/-- How an operation reaches the object `distance` behind its own. -/
abbrev Touch := (distance : Int) → List Effect → HttpConn → HttpConn

def Users.afterBy (touch : Touch) (users : Users) (a : Nat) (op : Operation) : Users where
  conn b :=
    if b = a then (invoke op (users.conn a)).conn
    else touch ((b : Int) - a) (invoke op (users.conn a)).log (users.conn b)
  initialised b := users.initialised b || (op.initialises && b == a)

def Users.after (users : Users) (a : Nat) (op : Operation) : Users :=
  users.afterBy spilled a op

/-- The program calls the other operations on connections only. -/
def Operation.CalledOn (op : Operation) (users : Users) (a : Nat) : Prop :=
  a < maxFd ∧ (op.initialises = true ∨ users.initialised a = true)

/-- The arrays that operations lead to, in any order on any connections, as long
as no declared length has put a NUL outside of m_read_buf. -/
inductive Users.Reached : Users → Prop where
  | unused (conn : Nat → HttpConn) : (Users.unused conn).Reached
  | after {users : Users} (reached : users.Reached) (a : Nat) (op : Operation)
      (called : op.CalledOn users a)
      (inside : ∀ fs, op = .processRead fs → LengthInside (users.conn a)) :
      (users.after a op).Reached

/-- The operation changes no other object, and stores inside the arrays it names. -/
def Isolated (users : Users) (a : Nat) (op : Operation) : Prop :=
  (∀ b < maxFd, b ≠ a → (users.after a op).conn b = users.conn b) ∧
    StoresInside (invoke op (users.conn a)).log

/-- The replies of writev bring the loop of write() to its end. -/
def countsAll : (bytesToSend bytesHaveSend : Int) → List Writev → Bool
  | _, _, [] => false
  | bytesToSend, bytesHaveSend, result :: rest =>
      let temp := toInt result.ret
      if temp ≤ -1 then false
      else
        let bytesToSend := toInt (bytesToSend - temp)
        let bytesHaveSend := toInt (bytesHaveSend + temp)
        if bytesToSend ≤ bytesHaveSend then true else countsAll bytesToSend bytesHaveSend rest

/-- No init(), on its own or behind the end of a response, and a declared length
that stays in the buffer. -/
def Contained (c : HttpConn) : Operation → Prop
  | .initConn _ _ | .init => False
  | .read _ | .processWrite _ | .closeConn => True
  | .processRead _ => LengthInside c
  | .write _ results =>
      c.writeIdx ≠ 0 ∧ ¬ (c.linger = true ∧ countsAll c.writeIdx 0 results = true)

section Stores
variable {c : HttpConn}

theorem read_loop_stores (results : List Recv) (c : HttpConn) :
    StoresInside (readLoop results c).log := by
  induction results generalizing c with
  | nil => exact stores_inside_nil
  | cons result rest ih =>
      cases result with
      | data bytes =>
          simp only [readLoop]
          split_ifs
          · exact stores_inside_nil
          · next some =>
              have taken : (bytes.take (readBufferSize - c.readIdx)).length ≤
                  readBufferSize - c.readIdx := List.length_take_le _ _
              have nonempty := List.length_pos_of_ne_nil some
              refine stores_inside_cons.mpr ⟨⟨Int.natCast_nonneg _, ?_⟩, ih _⟩
              simp only [MemberArray.size]
              omega
      | again => exact stores_inside_nil
      | failed => exact stores_inside_nil
      | ended => exact stores_inside_nil

theorem read_stores (results : List Recv) (c : HttpConn) : StoresInside (read results c).log := by
  unfold read
  split_ifs
  · exact stores_inside_nil
  · exact read_loop_stores results c

theorem process_write_stores (ret : HttpCode) (c : HttpConn) :
    StoresInside (processWrite ret c).log :=
  InBounds.stores fun effect member => (process_write_log ret c effect member).1

theorem close_conn_stores (c : HttpConn) : StoresInside (closeConn c).log := by
  unfold closeConn
  split_ifs
  · simp [Effect.StoreInside]
  · exact stores_inside_nil

theorem unmap_stores (c : HttpConn) : StoresInside (unmap c).log := by
  unfold unmap
  split_ifs
  · exact stores_inside_nil
  · simp [Effect.StoreInside]
  · exact stores_inside_nil

/-- The bzero of m_write_buf with the length of m_read_buf. -/
def overrun : Effect := .store .writeBuf 0 readBufferSize

def OnlyOverruns (log : List Effect) : Prop :=
  ∀ effect ∈ log, effect.StoreInside ∨ effect = overrun

theorem StoresInside.only_overruns {log : List Effect} (inside : StoresInside log) :
    OnlyOverruns log := fun effect member => .inl (inside effect member)

theorem OnlyOverruns.append {first second : List Effect} (one : OnlyOverruns first)
    (other : OnlyOverruns second) : OnlyOverruns (first ++ second) := by
  intro effect member
  rcases List.mem_append.mp member with inFirst | inSecond
  · exact one effect inFirst
  · exact other effect inSecond

theorem init_log (c : HttpConn) : (init c).log =
    [.store .readBuf 0 readBufferSize, overrun, .store .realFile 0 filenameLen] := rfl

theorem init_overruns (c : HttpConn) : OnlyOverruns (init c).log := by
  have readBuf : (Effect.store .readBuf 0 readBufferSize).StoreInside := by decide
  have realFile : (Effect.store .realFile 0 filenameLen).StoreInside := by decide
  intro effect member
  rw [init_log] at member
  simp only [List.mem_cons, List.not_mem_nil, or_false] at member
  rcases member with rfl | rfl | rfl
  · exact .inl readBuf
  · exact .inr rfl
  · exact .inl realFile

theorem init_stores (c : HttpConn) : ¬ StoresInside (init c).log := by
  intro inside
  have second : overrun.StoreInside := inside overrun (by simp [init_log])
  exact absurd second (by decide)

theorem finish_write_stores (c : HttpConn) :
    OnlyOverruns (finishWrite c).log ∧
    (StoresInside (finishWrite c).log ↔ ¬ c.linger = true) := by
  have linger : (unmap c).conn.linger = c.linger := by rw [unmap_conn]
  have released := unmap_stores c
  have armed : StoresInside [.modfd (unmap c).conn.sockfd .epollin] := by simp [Effect.StoreInside]
  by_cases keep : c.linger = true
  · have log : (finishWrite c).log = (unmap c).log ++ (init (unmap c).conn).log ++
        [.modfd (init (unmap c).conn).conn.sockfd .epollin] := by
      simp only [finishWrite, linger, keep, ↓reduceIte, and_then_log, and_then_conn]
    rw [log]
    constructor
    · refine (released.only_overruns.append (init_overruns _)).append ?_
      exact StoresInside.only_overruns (by simp [Effect.StoreInside])
    · refine iff_of_false (fun inside => ?_) (not_not_intro keep)
      exact init_stores _ (stores_inside_append.mp (stores_inside_append.mp inside).1).2
  · have log : (finishWrite c).log = (unmap c).log ++ [.modfd (unmap c).conn.sockfd .epollin] := by
      simp only [finishWrite, linger, keep, Bool.false_eq_true, ↓reduceIte]
    have inside : StoresInside (finishWrite c).log := by
      rw [log]
      exact stores_inside_append.mpr ⟨released, armed⟩
    exact ⟨inside.only_overruns, iff_of_true inside keep⟩

theorem write_loop_stores (pages : Memory) (results : List Writev) (toSend haveSend : Int)
    (c : HttpConn) :
    OnlyOverruns (writeLoop pages results toSend haveSend c).log ∧
    (StoresInside (writeLoop pages results toSend haveSend c).log ↔
      ¬ (c.linger = true ∧ countsAll toSend haveSend results = true)) := by
  -- Induction on the results of writev; only the round that ends the response runs init().
  induction results generalizing toSend haveSend with
  | nil =>
      have quiet : StoresInside [.modfd c.sockfd .epollout] := by simp [Effect.StoreInside]
      exact ⟨quiet.only_overruns, iff_of_true quiet (by simp [countsAll])⟩
  | cons result rest ih =>
      unfold writeLoop countsAll
      dsimp only
      have taken : StoresInside (if 0 < result.ret then
          [.sent ((gathered pages c).take result.ret.toNat)] else []) := by
        split_ifs <;> simp [Effect.StoreInside]
      have quiet {log : List Effect} {ends : Prop} (inside : StoresInside log) (goesOn : ¬ ends) :
          OnlyOverruns log ∧ (StoresInside log ↔ ¬ (c.linger = true ∧ ends)) :=
        ⟨inside.only_overruns, iff_of_true inside fun both => goesOn both.2⟩
      have behind {log : List Effect} {ends : Bool} (after : OnlyOverruns log ∧
          (StoresInside log ↔ ¬ (c.linger = true ∧ ends = true))) :
          OnlyOverruns ((if 0 < result.ret then
            [.sent ((gathered pages c).take result.ret.toNat)] else []) ++ log) ∧
          (StoresInside ((if 0 < result.ret then
            [.sent ((gathered pages c).take result.ret.toNat)] else []) ++ log) ↔
              ¬ (c.linger = true ∧ ends = true)) := by
        refine ⟨taken.only_overruns.append after.1, ?_⟩
        rw [stores_inside_append, and_iff_right taken]
        exact after.2
      apply behind
      by_cases stop : toInt result.ret ≤ -1
      · by_cases again : result.again = true
        · simp only [stop, again, ↓reduceIte]
          exact quiet (by simp [Effect.StoreInside]) Bool.false_ne_true
        · simp only [stop, again, Bool.false_eq_true, ↓reduceIte]
          exact quiet (unmap_stores c) id
      · by_cases ends : toInt (toSend - toInt result.ret) ≤ toInt (haveSend + toInt result.ret)
        · simp only [stop, ends, ↓reduceIte, and_true]
          exact finish_write_stores c
        · simp only [stop, ends, ↓reduceIte]
          exact ih _ _

theorem write_stores (pages : Memory) (results : List Writev) (c : HttpConn) :
    OnlyOverruns (write pages results c).log ∧
    (StoresInside (write pages results c).log ↔ Contained c (.write pages results)) := by
  unfold write Contained
  by_cases empty : c.writeIdx = 0
  · simp only [empty, ↓reduceIte, ne_eq, not_true_eq_false, false_and, iff_false]
    have armed : StoresInside [.modfd c.sockfd .epollin] := by simp [Effect.StoreInside]
    refine ⟨armed.only_overruns.append (init_overruns c), fun inside => ?_⟩
    exact init_stores c (stores_inside_cons.mp inside).2
  · simp only [empty, ↓reduceIte, ne_eq, not_false_eq_true, true_and]
    exact write_loop_stores pages results c.writeIdx 0 c

end Stores

section Spill
variable {distance : Int} {c : HttpConn}

/-- Two objects of the array are at least one object apart. -/
theorem objects_apart (away : distance ≠ 0) :
    objectSize * distance ≤ -(objectSize : Int) ∨ (objectSize : Int) ≤ objectSize * distance := by
  rcases Int.lt_or_gt_of_ne away with before | behind
  · have far : (objectSize : Int) * distance ≤ objectSize * -1 :=
      Int.mul_le_mul_of_nonneg_left (by omega) (Int.natCast_nonneg _)
    exact .inl (by omega)
  · have far : (objectSize : Int) * 1 ≤ objectSize * distance :=
      Int.mul_le_mul_of_nonneg_left (by omega) (Int.natCast_nonneg _)
    exact .inr (by omega)

theorem spill_inside {effect : Effect} (away : distance ≠ 0) (inside : effect.StoreInside) :
    spill distance c effect = c := by
  cases effect with
  | store array index count =>
      obtain ⟨lower, upper⟩ := inside
      have fits := array_end array
      apply bzero_outside
      rcases objects_apart away with before | behind
      · exact .inl (by omega)
      · exact .inr (by omega)
  | _ => rfl

theorem spilled_inside {log : List Effect} (away : distance ≠ 0) (inside : StoresInside log) :
    spilled distance log c = c := by
  induction log with
  | nil => rfl
  | cons effect rest ih =>
      obtain ⟨first, others⟩ := stores_inside_cons.mp inside
      show spilled distance rest (spill distance c effect) = c
      rw [spill_inside away first, ih others]

/-- The overrun does not reach beyond the next object. -/
theorem overrun_misses (away : distance ≠ 0) (far : distance ≠ 1) :
    spill distance c overrun = c := by
  apply bzero_outside
  have base : (MemberArray.writeBuf.offset : Int) = 2317 := rfl
  rw [base]
  simp only [layout_values]
  omega

theorem spilled_beyond {log : List Effect} (away : distance ≠ 0) (far : distance ≠ 1)
    (overruns : OnlyOverruns log) : spilled distance log c = c := by
  induction log with
  | nil => rfl
  | cons effect rest ih =>
      have same : spill distance c effect = c := by
        rcases overruns effect List.mem_cons_self with inside | exceeds
        · exact spill_inside away inside
        · rw [exceeds, overrun_misses away far]
      show spilled distance rest (spill distance c effect) = c
      rw [same]
      exact ih fun other member => overruns other (List.mem_cons_of_mem _ member)

/-- The overrun ends in m_read_buf of the next object. -/
theorem overrun_readable (away : distance ≠ 0) (readable : Readable c) :
    Readable (spill distance c overrun) := by
  have low : ((MemberArray.writeBuf.offset : Int) + 0 - objectSize * distance) =
      writeBufOffset - objectSize * distance := by
    rw [Int.add_zero]
    rfl
  unfold spill overrun
  simp only [low]
  have range : (objectSize : Int) ≤ writeBufOffset - objectSize * distance ∨
      writeBufOffset - objectSize * distance + readBufferSize ≤ readIdxOffset := by
    rcases objects_apart away with before | behind
    · exact .inl (by omega)
    · refine .inr ?_
      simp only [layout_values] at behind ⊢
      omega
  generalize writeBufOffset - (objectSize : Int) * distance = start at range
  have before : (objectSize : Int) ≤ start ∨ start + readBufferSize ≤ checkedIdxOffset := by
    simp only [layout_values] at range ⊢
    omega
  have arrived : clearNat start (start + readBufferSize) readIdxOffset 4 c.readIdx = c.readIdx := by
    apply clearNat_outside
    simp only [layout_values] at range ⊢
    omega
  rw [bzero_before_checked c before, arrived]
  exact Readable.congr (Shows.zeros readable (clear_array_zeros _ _ _ _ c.readBuf))
    rfl rfl rfl rfl rfl rfl rfl rfl

theorem spilled_readable {log : List Effect} (away : distance ≠ 0) (overruns : OnlyOverruns log)
    (readable : Readable c) : Readable (spilled distance log c) := by
  induction log generalizing c with
  | nil => exact readable
  | cons effect rest ih =>
      have others : OnlyOverruns rest := fun other member =>
        overruns other (List.mem_cons_of_mem _ member)
      apply ih others
      rcases overruns effect List.mem_cons_self with inside | exceeds
      · rw [spill_inside away inside]
        exact readable
      · rw [exceeds]
        exact overrun_readable away readable

end Spill

section Invariant
variable {c : HttpConn}

theorem init_readable (c : HttpConn) : Readable (init c).conn := (shows_init c).readable

theorem unmap_readable (readable : Readable c) : Readable (unmap c).conn := by
  rw [unmap_conn]
  exact readable.congr rfl rfl rfl rfl rfl rfl rfl rfl

theorem write_readable (pages : Memory) (results : List Writev) (readable : Readable c) :
    Readable (write pages results c).conn := by
  by_cases empty : c.writeIdx = 0
  · rw [(write_nothing pages results empty).2.1]
    exact init_readable c
  · cases write_cases pages results empty with
    | waits sent only ret conn log => rw [conn]; exact readable
    | failed sent only ret conn log => rw [conn]; exact unmap_readable readable
    | kept sent only linger ret conn log => rw [conn]; exact init_readable _
    | finished sent only linger ret conn log => rw [conn]; exact unmap_readable readable

theorem close_conn_readable (readable : Readable c) : Readable (closeConn c).conn := by
  unfold closeConn
  split_ifs
  · exact readable.congr rfl rfl rfl rfl rfl rfl rfl rfl
  · exact readable

theorem process_write_readable (ret : HttpCode) (readable : Readable c) :
    Readable (processWrite ret c).conn := by
  obtain ⟨writeBuf, writeIdx, iv0, iv1, ivCount, members⟩ := process_write_members ret c
  rw [members]
  exact readable.congr rfl rfl rfl rfl rfl rfl rfl rfl

theorem read_readable (results : List Recv) (readable : Readable c) :
    Readable (read results c).conn := by
  have shows : Shows c (readerOf c) := readable
  obtain ⟨bytes, conn, fits⟩ := read_appends results c shows.room
  rw [conn]
  exact (shows.feed bytes fits).readable

/-- The operations on a connection that can be read, and the public init(). -/
def Sane (op : Operation) (c : HttpConn) : Prop :=
  (op.initialises = true ∨ Readable c) ∧ ∀ fs, op = .processRead fs → LengthInside c

/-- The operations other than process_read, on any object. -/
theorem overruns_without_parsing {op : Operation} (c : HttpConn)
    (other : ∀ fs, op ≠ .processRead fs) : OnlyOverruns (invoke op c).log := by
  cases op with
  | initConn sockfd addr =>
      have quiet : StoresInside [.addfd sockfd, .userCount 1] := by simp [Effect.StoreInside]
      exact quiet.only_overruns.append (init_overruns _)
  | init => exact init_overruns c
  | read results => exact (read_stores results c).only_overruns
  | processRead fs => exact absurd rfl (other fs)
  | processWrite ret => exact (process_write_stores ret c).only_overruns
  | write pages results => exact (write_stores pages results c).1
  | closeConn => exact (close_conn_stores c).only_overruns

theorem invoke_overruns {op : Operation} (sane : Sane op c) : OnlyOverruns (invoke op c).log := by
  by_cases parses : ∃ fs, op = .processRead fs
  · obtain ⟨fs, rfl⟩ := parses
    have readable := sane.1.resolve_left Bool.false_ne_true
    exact ((process_read_inside_iff fs readable).mpr (sane.2 fs rfl)).only_overruns
  · exact overruns_without_parsing c fun fs same => parses ⟨fs, same⟩

theorem invoke_readable {op : Operation} (sane : Sane op c) : Readable (invoke op c).conn := by
  have readable : op.initialises = false → Readable c := fun other =>
    sane.1.resolve_left (by rw [other]; exact Bool.false_ne_true)
  cases op with
  | initConn sockfd addr => exact init_readable _
  | init => exact init_readable c
  | read results => exact read_readable results (readable rfl)
  | processRead fs =>
      have inside := (process_read_inside_iff fs (readable rfl)).mpr (sane.2 fs rfl)
      exact (process_read_sound fs (readable rfl) inside).2.1
  | processWrite ret => exact process_write_readable ret (readable rfl)
  | write pages results => exact write_readable pages results (readable rfl)
  | closeConn => exact close_conn_readable (readable rfl)

/-- Whatever was done to the array, a connection can be read. -/
theorem reached_readable {users : Users} (reached : users.Reached) (b : Nat)
    (connected : users.initialised b = true) : Readable (users.conn b) := by
  induction reached generalizing b with
  | unused conn => cases connected
  | @after users reached a op called inside ih =>
      have sane : Sane op (users.conn a) := by
        refine ⟨?_, inside⟩
        rcases called.2 with opens | connection
        · exact .inl opens
        · exact .inr (ih a connection)
      by_cases same : b = a
      · subst same
        simp only [Users.after, Users.afterBy, ↓reduceIte]
        exact invoke_readable sane
      · have before : users.initialised b = true := by
          simpa [Users.after, Users.afterBy, same] using connected
        simp only [Users.after, Users.afterBy, same, ↓reduceIte]
        exact spilled_readable (by omega) (invoke_overruns sane) (ih b before)

end Invariant

section Isolation
variable {users : Users} {a : Nat}

theorem invoke_contained_iff {op : Operation} {c : HttpConn}
    (readable : ∀ fs, op = .processRead fs → Readable c) :
    StoresInside (invoke op c).log ↔ Contained c op := by
  cases op with
  | initConn sockfd addr =>
      refine iff_of_false (fun inside => ?_) id
      exact init_stores _ (stores_inside_append.mp inside).2
  | init => exact iff_of_false (init_stores c) id
  | read results => exact iff_of_true (read_stores results c) trivial
  | processRead fs => exact process_read_inside_iff fs (readable fs rfl)
  | processWrite ret => exact iff_of_true (process_write_stores ret c) trivial
  | write pages results => exact (write_stores pages results c).2
  | closeConn => exact iff_of_true (close_conn_stores c) trivial

theorem stores_inside_isolates {op : Operation}
    (inside : StoresInside (invoke op (users.conn a)).log) : Isolated users a op := by
  refine ⟨fun b _ other => ?_, inside⟩
  simp only [Users.after, Users.afterBy, other, ↓reduceIte]
  exact spilled_inside (by omega) inside

/-- An operation leaves all other connections as they are, and stores inside the
arrays of its own, exactly when it runs no init() and puts no NUL outside. -/
theorem operation_isolated_iff {users : Users} (reached : users.Reached) {a : Nat}
    {op : Operation} (called : op.CalledOn users a) :
    Isolated users a op ↔ Contained (users.conn a) op := by
  have readable (fs : FileSystem) (parses : op = .processRead fs) : Readable (users.conn a) := by
    subst parses
    exact reached_readable reached a (called.2.resolve_left Bool.false_ne_true)
  rw [← invoke_contained_iff readable]
  exact ⟨fun isolated => isolated.2, stores_inside_isolates⟩

/-- A connection on descriptor 6, accepted before one on descriptor 5. -/
def sixAccepted : Users := (Users.unused fun _ => .unused).after 6 (.initConn 6 [])

theorem six_accepted_reached : sixAccepted.Reached := by
  apply Users.Reached.after (.unused fun _ => .unused)
  · exact ⟨by decide, .inl rfl⟩
  · exact fun fs other => by cases other

/-- The bzero behind m_write_buf of the fifth object clears m_sockfd of the sixth. -/
theorem neighbour_cleared : ¬ ∀ (users : Users) (a : Nat) (op : Operation), users.Reached →
    op.CalledOn users a → Isolated users a op := by
  intro isolated
  have kept := (isolated sixAccepted 5 (.initConn 5 []) six_accepted_reached
    ⟨by decide, .inl rfl⟩).1 6 (by decide) (by decide)
  have cleared : ((sixAccepted.after 5 (.initConn 5 [])).conn 6).sockfd = 0 := by decide
  rw [kept] at cleared
  exact absurd cleared (by decide)

theorem operation_isolated_read : Isolated sixAccepted 6 (.read [.data (ascii "GET")]) :=
  (operation_isolated_iff six_accepted_reached ⟨by decide, .inr rfl⟩).mpr trivial

end Isolation

end StudyWebServer
