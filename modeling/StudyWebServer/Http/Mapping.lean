import StudyWebServer.Library.ResourcePairing
import StudyWebServer.Http.Life

/-!
The file mappings of a slot. do_request creates them, write() releases them;
close_conn on a hang-up does not, and the next init() clears m_file_address with
the rest of the object.
-/

namespace StudyWebServer

open ByteMemory CString MachineInt ResourcePairing

/-- A mapping is an address and a length. -/
def Effect.mappingUse : Effect → List (Use (Nat × Nat))
  | .mmap address length => [.acquire (address, length)]
  | .munmap address length => [.release (address, length)]
  | _ => []

def mappingUses (log : List Effect) : List (Use (Nat × Nat)) := log.flatMap Effect.mappingUse

/-- The mapping behind m_file_address. -/
def mapped (c : HttpConn) : List (Nat × Nat) :=
  if c.fileAddress = 0 ∨ c.fileAddress = mapFailed then []
  else [(c.fileAddress, c.fileStat.stSize)]

/-- Whatever is released is held, and a slot that is closed holds nothing. -/
def MappingsPaired (s : Slot) (events : List Event) : Prop :=
  ∀ count after log, s.run (events.take count) = some (after, log) →
    ∃ held, holding [] (mappingUses log) = some held ∧ (after.phase = .closed → held = [])

/-- No hang-up finds a mapping. -/
def NoMappingHungUp (s : Slot) (events : List Event) : Prop :=
  ∀ count after log, s.run (events.take count) = some (after, log) →
    events[count]? = some .hangUp → mapped after.conn = []

section Uses

@[simp] theorem mapping_uses_nil : mappingUses [] = [] := rfl

@[simp] theorem mapping_uses_append (first second : List Effect) :
    mappingUses (first ++ second) = mappingUses first ++ mappingUses second :=
  List.flatMap_append

theorem mapping_uses_outside (log : List Effect) : mappingUses (outside log) = mappingUses log := by
  induction log with
  | nil => rfl
  | cons effect rest ih =>
      have split (log : List Effect) :
          mappingUses (effect :: log) = effect.mappingUse ++ mappingUses log := rfl
      rw [split, ← ih, outside, List.filter_cons]
      split_ifs with visible
      · exact split _
      · have none : effect.mappingUse = [] := by
          cases effect with
          | load index => rfl
          | store array index count => rfl
          | sum value => rfl
          | _ => exact absurd rfl visible
        rw [none, List.nil_append]
        rfl

theorem close_conn_uses (c : HttpConn) : mappingUses (closeConn c).log = [] := by
  unfold closeConn
  split_ifs <;> rfl

theorem only_sent_uses {sent : List Effect} (only : OnlySent sent) : mappingUses sent = [] := by
  rw [mappingUses, List.flatMap_eq_nil_iff]
  intro effect member
  obtain ⟨bytes, rfl⟩ := only effect member
  rfl

theorem unmap_uses (c : HttpConn) : mappingUses (unmap c).log = (mapped c).map .release := by
  unfold unmap mapped
  by_cases none : c.fileAddress = 0
  · simp [none]
  · by_cases failed : c.fileAddress = mapFailed
    · have nonzero : mapFailed ≠ 0 := by decide
      simp [failed, nonzero]
    · simp [none, failed]
      rfl

theorem created_uses (value : Outcome HttpCode) (fresh : value.ret ≠ .fileRequest →
      value.conn.fileAddress = 0) (real : value.ret = .fileRequest → value.conn.fileAddress ≠ 0) :
    mappingUses (created value) = (mapped value.conn).map .acquire := by
  unfold created mapped
  by_cases file : value.ret = .fileRequest
  · by_cases failed : value.conn.fileAddress = mapFailed
    · simp [file, failed]
    · simp [file, failed, real file]
      rfl
  · simp [file, fresh file]

/-- Releasing what is held, and nothing else is. -/
theorem holding_release_mapped (c : HttpConn) :
    holding (mapped c) ((mapped c).map .release) = some [] := by
  unfold mapped
  split_ifs
  · rfl
  · simp [holding]

theorem holding_acquire_mapped (c : HttpConn) :
    holding [] ((mapped c).map .acquire) = some (mapped c) := by
  unfold mapped
  split_ifs <;> rfl

end Uses

/-- The invariant of a slot that holds `held`. -/
def Slot.Holds (s : Slot) (held : List (Nat × Nat)) : Prop :=
  match s.phase with
  | .closed | .lost => held = []
  | .reading | .queued =>
      held = [] ∧ s.conn.fileAddress = 0 ∧ s.conn.writeIdx = 0 ∧ ∃ r, Shows s.conn r
  | .writing => held = mapped s.conn ∧ s.conn.writeIdx ≠ 0

theorem Slot.Holds.closed {s : Slot} {held : List (Nat × Nat)} (holds : s.Holds held)
    (closed : s.phase = .closed) : held = [] := by
  unfold Slot.Holds at holds
  rw [closed] at holds
  exact holds

/-- What a step leaves held, and that it releases nothing else. -/
def Keeps (held : List (Nat × Nat)) (s : Slot) (log : List Effect) : Prop :=
  ∃ after, holding held (mappingUses log) = some after ∧ s.Holds after

theorem keeps_quiet {held : List (Nat × Nat)} {s : Slot} {log : List Effect}
    (quiet : mappingUses log = []) (holds : s.Holds held) : Keeps held s log :=
  ⟨held, by rw [quiet]; rfl, holds⟩

section Steps
variable {c : HttpConn}

theorem init_holds (c : HttpConn) : (Slot.mk (init c).conn .reading).Holds [] :=
  ⟨rfl, by rw [init_conn], by rw [init_conn]; rfl, Reader.fresh, shows_init c⟩

theorem accept_keeps (sockfd : Int) (addr : List UInt8) (c : HttpConn) :
    Keeps [] ⟨(initConn sockfd addr c).conn, .reading⟩ (initConn sockfd addr c).log :=
  keeps_quiet (by rw [← mapping_uses_outside, init_conn_outside]; rfl) (init_holds _)

theorem readable_keeps (results : List Recv) {phase : Phase} (waits : phase = .reading)
    (open_ : Slot.Holds ⟨c, phase⟩ []) (room : Bool) :
    Keeps [] ⟨(read results c).conn, if room then .queued else .lost⟩ (read results c).log := by
  subst waits
  obtain ⟨-, address, start, r, shows⟩ := open_
  refine keeps_quiet (by rw [← mapping_uses_outside, read_outside]; rfl) ?_
  obtain ⟨bytes, conn, fits⟩ := read_appends results c shows.room
  rw [conn]
  cases room with
  | true => exact ⟨rfl, address, start, _, shows.feed bytes fits⟩
  | false => rfl

theorem created_keeps {value : Outcome HttpCode} (none : c.fileAddress = 0)
    (parsed : Parsed c value) :
    mappingUses (created value) = (mapped value.conn).map .acquire := by
  apply created_uses
  · intro other
    cases parsed with
    | waits r shows ret same => rw [same.fileAddress, none]
    | refused answer other fileAddress writeIdx => rw [fileAddress, none]
    | file ret real writeIdx => exact absurd ret other
  · intro file
    cases parsed with
    | waits r shows ret same => rw [ret] at file; cases file
    | refused answer other fileAddress writeIdx => exact absurd file other
    | file ret real writeIdx => exact real

theorem work_keeps (fs : FileSystem) (open_ : (Slot.mk c .queued).Holds []) :
    Keeps [] ⟨(process fs c).conn, rearmed (process fs c).log⟩ (process fs c).log := by
  obtain ⟨-, none, start, r, shows⟩ := open_
  have parsed := process_read_parsed fs shows
  have uses := created_keeps none parsed
  have answered (answer : (processRead fs c).ret.Answer)
      (writeIdx : (processRead fs c).conn.writeIdx = c.writeIdx) :
      Keeps [] ⟨(process fs c).conn, rearmed (process fs c).log⟩ (process fs c).log := by
    have waits : (processRead fs c).ret ≠ .noRequest := by
      rcases answer with ret | ret | ret | ret <;> rw [ret] <;> decide
    have written := process_write_succeeds (writeIdx.trans start) answer
    have ready := process_write_prepared written
    obtain ⟨conn, log⟩ := process_answers waits written
    have kept : mapped (process fs c).conn = mapped (processRead fs c).conn := by
      rw [conn, ready.same]
      rfl
    refine ⟨mapped (process fs c).conn, ?_, ?_⟩
    · rw [← mapping_uses_outside, log, mapping_uses_append, uses, kept]
      exact (List.append_nil _).symm ▸ holding_acquire_mapped _
    · rw [← rearmed_outside, log, rearmed_last (created_kept _)]
      exact ⟨rfl, by rw [conn]; exact ready.written.ne'⟩
  cases parsed with
  | waits next shows ret same =>
      obtain ⟨conn, log⟩ := process_waits ret
      refine keeps_quiet (by rw [← mapping_uses_outside, log]; rfl) ?_
      rw [← rearmed_outside, log, conn]
      exact ⟨rfl, same.fileAddress.trans none, same.writeIdx.trans start, next, shows⟩
  | refused answer other fileAddress writeIdx => exact answered answer writeIdx
  | file ret real writeIdx => exact answered (.inr (.inr (.inr ret))) writeIdx

/-- write() releases what is mapped when it is done, one way or the other. -/
theorem writable_keeps (pages : Memory) (results : List Writev) (written : c.writeIdx ≠ 0) :
    if (write pages results c).ret then
      Keeps (mapped c) ⟨(write pages results c).conn, rearmed (write pages results c).log⟩
        (write pages results c).log
    else
      Keeps (mapped c) ⟨((write pages results c).andThen closeConn).conn, .closed⟩
        ((write pages results c).andThen closeConn).log := by
  have released (sent : List Effect) (only : OnlySent sent) :
      holding (mapped c) (mappingUses (sent ++ (unmap c).log)) = some [] := by
    rw [mapping_uses_append, only_sent_uses only, List.nil_append, unmap_uses]
    exact holding_release_mapped c
  -- One case for each way out of write(): only the one that waits keeps the mapping.
  cases write_cases pages results written with
  | waits sent only ret conn log =>
      rw [if_pos ret]
      refine keeps_quiet ?_ ?_
      · rw [← mapping_uses_outside, log, mapping_uses_append, only_sent_uses only]
        rfl
      · rw [← rearmed_outside, log, rearmed_last (only_sent_kept only), conn]
        exact ⟨rfl, written⟩
  | failed sent only ret conn log =>
      rw [if_neg (by rw [ret]; decide)]
      refine ⟨[], ?_, rfl⟩
      rw [and_then_log, mapping_uses_append, close_conn_uses, List.append_nil,
        ← mapping_uses_outside, log, released sent only]
  | kept sent only linger ret conn log =>
      rw [if_pos ret]
      have open_ : removed (sent ++ (unmap c).log) = false := by
        rw [removed_append, only_sent_kept only, unmap_kept]
        rfl
      refine ⟨[], ?_, ?_⟩
      · rw [← mapping_uses_outside, log, mapping_uses_append]
        exact (List.append_nil _).symm ▸ released sent only
      · rw [← rearmed_outside, log, rearmed_last open_, conn]
        exact init_holds _
  | finished sent only linger ret conn log =>
      rw [if_neg (by rw [ret]; decide)]
      refine ⟨[], ?_, rfl⟩
      rw [and_then_log, mapping_uses_append, close_conn_uses, List.append_nil,
        ← mapping_uses_outside, log, mapping_uses_append]
      exact (List.append_nil _).symm ▸ released sent only

end Steps

section Runs

theorem step_keeps {s after : Slot} {event : Event} {log : List Effect} {held : List (Nat × Nat)}
    (step : s.step event = some (after, log)) (holds : s.Holds held)
    (released : event = .hangUp → mapped s.conn = []) : Keeps held after log := by
  obtain ⟨c, phase⟩ := s
  cases event with
  | accept sockfd addr =>
      simp only [Slot.step] at step
      split_ifs at step with closed
      cases step
      rw [holds.closed closed]
      exact accept_keeps sockfd addr c
  -- The step that releases nothing: released says that there is nothing to release.
  | hangUp =>
      simp only [Slot.step] at step
      split_ifs at step with waits
      cases step
      refine keeps_quiet (close_conn_uses c) ?_
      rcases waits with rfl | rfl
      · exact holds.1
      · exact holds.1.trans (released rfl)
  | readable results room =>
      by_cases waits : phase = .reading
      · subst waits
        have empty : held = [] := holds.1
        subst empty
        by_cases more : (read results c).ret = true
        · simp only [Slot.step, more, ↓reduceIte] at step
          cases step
          exact readable_keeps results rfl holds room
        · simp only [Slot.step, more, ↓reduceIte] at step
          cases step
          have quiet : mappingUses (read results c).log = [] := by
            rw [← mapping_uses_outside, read_outside]
            rfl
          refine keeps_quiet ?_ rfl
          rw [and_then_log, mapping_uses_append, quiet, close_conn_uses]
          rfl
      · simp only [Slot.step, waits, ↓reduceIte] at step
        cases step
  | work fs =>
      simp only [Slot.step] at step
      split_ifs at step with waits
      subst waits
      cases step
      have empty : held = [] := holds.1
      subst empty
      exact work_keeps fs holds
  | writable pages results =>
      simp only [Slot.step] at step
      split_ifs at step with waits more
      all_goals
        subst waits
        obtain ⟨same, written⟩ := holds
        subst same
        cases step
        have kept := writable_keeps pages results written
      · rw [if_pos more] at kept
        exact kept
      · rw [if_neg more] at kept
        exact kept

/-- A hang-up that finds a mapping loses it. -/
theorem hang_up_loses {s after : Slot} {log : List Effect} {held : List (Nat × Nat)}
    (step : s.step .hangUp = some (after, log)) (holds : s.Holds held)
    (unreleased : mapped s.conn ≠ []) :
    held ≠ [] ∧ mappingUses log = [] ∧ after.phase = .closed := by
  obtain ⟨c, phase⟩ := s
  simp only [Slot.step] at step
  split_ifs at step with waits
  cases step
  refine ⟨?_, close_conn_uses c, rfl⟩
  rcases waits with rfl | rfl
  · have none : mapped c = [] := if_pos (.inl holds.2.1)
    exact absurd none unreleased
  · rw [show held = mapped c from holds.1]
    exact unreleased

/-- The property of the whole run, from a slot that holds something already. -/
def PairedFrom (s : Slot) (held : List (Nat × Nat)) (events : List Event) : Prop :=
  ∀ count after log, s.run (events.take count) = some (after, log) →
    ∃ still, holding held (mappingUses log) = some still ∧ (after.phase = .closed → still = [])

theorem run_cons {s : Slot} {event : Event} {rest : List Event} {after : Slot} {log : List Effect} :
    s.run (event :: rest) = some (after, log) ↔ ∃ next first last,
      s.step event = some (next, first) ∧ next.run rest = some (after, last) ∧
        log = first ++ last := by
  simp only [Slot.run, Option.bind_eq_some_iff, Option.map_eq_some_iff, Prod.exists,
    Prod.mk.injEq]
  constructor
  · rintro ⟨next, first, step, found, last, run, rfl, rfl⟩
    exact ⟨next, first, last, step, run, rfl⟩
  · rintro ⟨next, first, last, step, run, rfl⟩
    exact ⟨next, first, step, after, last, run, rfl, rfl⟩

theorem paired_from_iff (events : List Event) (s : Slot) (held : List (Nat × Nat))
    (holds : s.Holds held) (possible : s.run events ≠ none) :
    PairedFrom s held events ↔ NoMappingHungUp s events := by
  -- Induction on the events, with what is held passed from step to step.
  induction events generalizing s held with
  | nil =>
      refine iff_of_true ?_ ?_
      · intro count after log run
        rw [List.take_nil] at run
        cases run
        exact ⟨held, rfl, holds.closed⟩
      · intro count after log run hangs
        cases hangs
  | cons event rest ih =>
      obtain ⟨⟨last, all⟩, run⟩ := Option.ne_none_iff_exists'.mp possible
      obtain ⟨next, first, later, step, tail, -⟩ := run_cons.mp run
      -- A hang-up on a mapping closes the slot with the mapping still held.
      by_cases lost : event = .hangUp ∧ mapped s.conn ≠ []
      · obtain ⟨rfl, unreleased⟩ := lost
        obtain ⟨some, quiet, closed⟩ := hang_up_loses step holds unreleased
        refine iff_of_false ?_ ?_
        · intro paired
          obtain ⟨still, found, empty⟩ := paired 1 next (first ++ [])
            (run_cons.mpr ⟨next, first, [], step, rfl, rfl⟩)
          rw [List.append_nil, quiet] at found
          cases found
          exact some (empty closed)
        · intro never
          exact unreleased (never 0 s [] rfl rfl)
      · have released : event = .hangUp → mapped s.conn = [] := fun hangs => by
          by_contra unreleased
          exact lost ⟨hangs, unreleased⟩
        obtain ⟨between, kept, nextHolds⟩ := step_keeps step holds released
        have tailIff := ih next between nextHolds (by rw [tail]; simp)
        constructor
        · intro paired
          have tailPaired : PairedFrom next between rest := by
            intro count after log run
            obtain ⟨still, found, empty⟩ := paired (count + 1) after (first ++ log)
              (run_cons.mpr ⟨next, first, log, step, run, rfl⟩)
            rw [mapping_uses_append, holding_append, kept] at found
            exact ⟨still, found, empty⟩
          intro count after log run hangs
          cases count with
          | zero =>
              cases run
              exact released (Option.some.inj hangs)
          | succ count =>
              obtain ⟨other, one, log, step', run, -⟩ := run_cons.mp run
              rw [step] at step'
              cases step'
              exact tailIff.mp tailPaired count after log run hangs
        · intro never
          have tailNever : NoMappingHungUp next rest := by
            intro count after log run hangs
            exact never (count + 1) after (first ++ log)
              (run_cons.mpr ⟨next, first, log, step, run, rfl⟩) hangs
          intro count after log run
          cases count with
          | zero =>
              cases run
              exact ⟨held, rfl, holds.closed⟩
          | succ count =>
              obtain ⟨other, one, rest', step', run', rfl⟩ := run_cons.mp run
              rw [step] at step'
              cases step'
              obtain ⟨still, found, empty⟩ := tailIff.mpr tailNever count after rest' run'
              refine ⟨still, ?_, empty⟩
              rw [mapping_uses_append, holding_append, kept]
              exact found

end Runs

/-- In the runs of a slot the mappings are paired exactly when no hang-up comes
while a response with a mapping waits to be sent. -/
theorem mappings_paired_iff (events : List Event) (possible : Slot.unused.run events ≠ none) :
    MappingsPaired .unused events ↔ NoMappingHungUp .unused events :=
  paired_from_iff events .unused [] rfl possible

/-- A disk where every path is the same small file. -/
def smallFileDisk : FileSystem where
  stat _ := some ⟨33188, 10⟩
  mmap _ _ := 4096
  mmap_ne_null := one_page_mapped
  pages _ := 0
  elsewhere := []
  writable := FileSystem.empty.writable

/-- A request for it, up to the response. -/
def requested : List Event :=
  [.accept 5 [], .readable [.data (ascii "GET / HTTP/1.1\r\n\r\n"), .again] true,
    .work smallFileDisk]

set_option maxRecDepth 20000 in
theorem requested_hung_up : ((Slot.unused.run (requested ++ [.hangUp])).map fun last =>
    (holding [] (mappingUses last.2), last.1.phase)) = some (some [(4096, 10)], .closed) := by
  decide +kernel

/-- The client hangs up before the response is sent. -/
theorem hung_up_mapping_kept : ¬ ∀ events : List Event, Slot.unused.run events ≠ none →
    MappingsPaired .unused events := by
  intro paired
  obtain ⟨⟨after, log⟩, run, last⟩ := Option.map_eq_some_iff.mp requested_hung_up
  obtain ⟨held, found, empty⟩ :=
    paired (requested ++ [Event.hangUp]) (by rw [run]; simp) 4 after log run
  obtain ⟨kept, closed⟩ := Prod.mk.inj last
  rw [kept] at found
  cases found
  exact absurd (empty closed) (by simp)

set_option maxRecDepth 20000 in
/-- The same request with its response sent. -/
theorem mappings_paired_sent : MappingsPaired .unused
    (requested ++ [.writable (fun _ => 0) [⟨92, false⟩]]) := by
  refine (mappings_paired_iff _ (by decide +kernel)).mpr ?_
  intro count after log run hangs
  have member := List.mem_of_getElem? hangs
  simp [requested] at member

end StudyWebServer
