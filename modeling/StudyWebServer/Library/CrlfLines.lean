import Mathlib.Data.List.Basic

/-!
Lines that end in CR LF, in a byte stream that arrives in pieces. `scan` takes
the first line off the bytes at hand, or says how far it came. It stops before
a carriage return that nothing follows yet, and for good at an unpaired one and
at a line feed without a carriage return.
-/

namespace StudyWebServer.CrlfLines

inductive Scan where
  | line (text rest : List UInt8)
  | stopped (passed rest : List UInt8)
  deriving DecidableEq

/-- The same scan with bytes passed before it. -/
def Scan.after (passed : List UInt8) : Scan → Scan
  | .line text rest => .line (passed ++ text) rest
  | .stopped more rest => .stopped (passed ++ more) rest

def scan : List UInt8 → Scan
  | [] => .stopped [] []
  | byte :: bytes =>
      if byte = 13 then
        match bytes with
        | 10 :: rest => .line [] rest
        | _ => .stopped [] (byte :: bytes)
      else if byte = 10 then .stopped [] (byte :: bytes)
      else (scan bytes).after [byte]

/-- Bytes of one line, its end not among them. -/
def Plain (bytes : List UInt8) : Prop := (13 : UInt8) ∉ bytes ∧ (10 : UInt8) ∉ bytes

instance (bytes : List UInt8) : Decidable (Plain bytes) :=
  inferInstanceAs (Decidable (_ ∧ _))

/-- A carriage return or line feed in the first place that no pair will take. -/
def Unpaired : List UInt8 → Bool
  | 10 :: _ => true
  | 13 :: byte :: _ => byte != 10
  | _ => false

@[simp] theorem after_nil (result : Scan) : result.after [] = result := by
  cases result <;> rfl

theorem after_append (first second : List UInt8) (result : Scan) :
    result.after (first ++ second) = (result.after second).after first := by
  cases result <;> simp [Scan.after]

theorem plain_nil : Plain [] := by simp [Plain]

theorem plain_cons {byte : UInt8} {bytes : List UInt8} :
    Plain (byte :: bytes) ↔ byte ≠ 13 ∧ byte ≠ 10 ∧ Plain bytes := by
  simp only [Plain, List.mem_cons, not_or, ne_eq, eq_comm (b := byte)]
  tauto

theorem scan_plain {byte : UInt8} (noCr : byte ≠ 13) (noLf : byte ≠ 10) (bytes : List UInt8) :
    scan (byte :: bytes) = (scan bytes).after [byte] := by
  rw [scan.eq_def]
  simp only [if_neg noCr, if_neg noLf]

theorem scan_plain_append {passed : List UInt8} (plain : Plain passed) (rest : List UInt8) :
    scan (passed ++ rest) = (scan rest).after passed := by
  induction passed with
  | nil => simp
  | cons byte passed ih =>
      obtain ⟨noCr, noLf, plain⟩ := plain_cons.mp plain
      rw [List.cons_append, scan_plain noCr noLf, ih plain]
      exact (after_append [byte] passed _).symm

theorem scan_line {text : List UInt8} (plain : Plain text) (rest : List UInt8) :
    scan (text ++ 13 :: 10 :: rest) = .line text rest := by
  rw [scan_plain_append plain]
  simp [scan, Scan.after]

theorem unpaired_cases {bytes : List UInt8} (unpaired : Unpaired bytes = true) :
    (∃ tail, bytes = 10 :: tail) ∨ ∃ byte tail, bytes = 13 :: byte :: tail ∧ byte ≠ 10 := by
  unfold Unpaired at unpaired
  split at unpaired
  · exact .inl ⟨_, rfl⟩
  · exact .inr ⟨_, _, rfl, by simpa using unpaired⟩
  · cases unpaired

theorem scan_unpaired {bytes : List UInt8} (unpaired : Unpaired bytes = true) :
    scan bytes = .stopped [] bytes := by
  rcases unpaired_cases unpaired with ⟨tail, rfl⟩ | ⟨byte, tail, rfl, other⟩
  · simp [scan]
  · unfold scan
    simp [other]

theorem unpaired_append {bytes : List UInt8} (unpaired : Unpaired bytes = true)
    (more : List UInt8) : Unpaired (bytes ++ more) = true := by
  rcases unpaired_cases unpaired with ⟨tail, rfl⟩ | ⟨byte, tail, rfl, other⟩
  · rfl
  · simpa [Unpaired] using other

/-- What a scan found is what the bytes are made of. -/
theorem scan_split (bytes : List UInt8) :
    (∃ text rest, scan bytes = .line text rest ∧ bytes = text ++ 13 :: 10 :: rest ∧ Plain text) ∨
    (∃ passed rest, scan bytes = .stopped passed rest ∧ bytes = passed ++ rest ∧ Plain passed ∧
      (rest = [] ∨ rest = [13] ∨ Unpaired rest = true)) := by
  induction bytes with
  | nil => exact .inr ⟨[], [], rfl, rfl, plain_nil, .inl rfl⟩
  | cons byte bytes ih =>
      by_cases cr : byte = 13
      · subst cr
        match bytes with
        | [] => exact .inr ⟨[], [13], rfl, rfl, plain_nil, .inr (.inl rfl)⟩
        | next :: tail =>
            by_cases lf : next = 10
            · subst lf
              exact .inl ⟨[], tail, rfl, rfl, plain_nil⟩
            · have unpaired : Unpaired (13 :: next :: tail) = true := by simpa [Unpaired] using lf
              exact .inr ⟨[], _, scan_unpaired unpaired, rfl, plain_nil, .inr (.inr unpaired)⟩
      · by_cases lf : byte = 10
        · subst lf
          exact .inr ⟨[], _, rfl, rfl, plain_nil, .inr (.inr rfl)⟩
        · have step := scan_plain cr lf bytes
          rcases ih with ⟨text, rest, found, split, plain⟩ |
            ⟨passed, rest, found, split, plain, why⟩
          · exact .inl ⟨byte :: text, rest, by rw [step, found]; rfl, by rw [split]; rfl,
              plain_cons.mpr ⟨cr, lf, plain⟩⟩
          · exact .inr ⟨byte :: passed, rest, by rw [step, found]; rfl, by rw [split]; rfl,
              plain_cons.mpr ⟨cr, lf, plain⟩, why⟩

theorem scan_line_split {bytes text rest : List UInt8} (found : scan bytes = .line text rest) :
    bytes = text ++ 13 :: 10 :: rest ∧ Plain text := by
  rcases scan_split bytes with ⟨_, _, same, split⟩ | ⟨_, _, same, _⟩
  · cases found.symm.trans same
    exact split
  · cases found.symm.trans same

theorem scan_stopped_split {bytes passed rest : List UInt8}
    (found : scan bytes = .stopped passed rest) :
    bytes = passed ++ rest ∧ Plain passed ∧
      (rest = [] ∨ rest = [13] ∨ Unpaired rest = true) := by
  rcases scan_split bytes with ⟨_, _, same, _⟩ | ⟨_, _, same, split⟩
  · cases found.symm.trans same
  · cases found.symm.trans same
    exact split

/-- More bytes behind a complete line only lengthen what follows it; behind a
stopped scan the scan goes on where it stopped. -/
theorem scan_append (bytes more : List UInt8) :
    scan (bytes ++ more) = match scan bytes with
      | .line text rest => .line text (rest ++ more)
      | .stopped passed rest => (scan (rest ++ more)).after passed := by
  rcases scan_split bytes with ⟨text, rest, found, split, plain⟩ |
    ⟨passed, rest, found, split, plain, _⟩
  · rw [found, split, List.append_assoc, List.cons_append, List.cons_append, scan_line plain]
  · rw [found, split, List.append_assoc, scan_plain_append plain]

/-- How many bytes scan after scan passes. -/
def walk : List UInt8 → Nat
  | [] => 0
  | byte :: bytes =>
      if byte = 13 then
        match bytes with
        | 10 :: rest => 2 + walk rest
        | _ => 0
      else if byte = 10 then 0
      else 1 + walk bytes

/-- The places behind the line ends passed on the way. -/
def pairEnds : List UInt8 → List Nat
  | [] => []
  | byte :: bytes =>
      if byte = 13 then
        match bytes with
        | 10 :: rest => 2 :: (pairEnds rest).map (2 + ·)
        | _ => []
      else if byte = 10 then []
      else (pairEnds bytes).map (1 + ·)

theorem walk_plain {byte : UInt8} (noCr : byte ≠ 13) (noLf : byte ≠ 10) (bytes : List UInt8) :
    walk (byte :: bytes) = 1 + walk bytes ∧
    pairEnds (byte :: bytes) = (pairEnds bytes).map (1 + ·) := by
  rw [walk.eq_def, pairEnds.eq_def]
  simp only [if_neg noCr, if_neg noLf, and_self]

theorem walk_plain_append {passed : List UInt8} (plain : Plain passed) (rest : List UInt8) :
    walk (passed ++ rest) = passed.length + walk rest := by
  induction passed with
  | nil => simp
  | cons byte passed ih =>
      obtain ⟨noCr, noLf, plain⟩ := plain_cons.mp plain
      rw [List.cons_append, (walk_plain noCr noLf _).1, ih plain, List.length_cons]
      omega

theorem pair_ends_plain_append {passed : List UInt8} (plain : Plain passed) (rest : List UInt8) :
    pairEnds (passed ++ rest) = (pairEnds rest).map (passed.length + ·) := by
  induction passed with
  | nil => simp
  | cons byte passed ih =>
      obtain ⟨noCr, noLf, plain⟩ := plain_cons.mp plain
      rw [List.cons_append, (walk_plain noCr noLf _).2, ih plain, List.map_map]
      apply List.map_congr_left
      intro place _
      simp only [Function.comp_apply, List.length_cons]
      omega

theorem walk_stopped {rest : List UInt8} (why : rest = [] ∨ rest = [13] ∨ Unpaired rest = true) :
    walk rest = 0 ∧ pairEnds rest = [] := by
  rcases why with rfl | rfl | unpaired
  · exact ⟨rfl, rfl⟩
  · exact ⟨rfl, rfl⟩
  · rcases unpaired_cases unpaired with ⟨tail, rfl⟩ | ⟨byte, tail, rfl, other⟩
    · rw [walk.eq_def, pairEnds.eq_def]
      exact ⟨rfl, rfl⟩
    · rw [walk.eq_def, pairEnds.eq_def]
      simp [other]

theorem walk_line {bytes text rest : List UInt8} (found : scan bytes = .line text rest) :
    walk bytes = text.length + 2 + walk rest ∧
    pairEnds bytes = (text.length + 2) :: (pairEnds rest).map (text.length + 2 + ·) := by
  obtain ⟨rfl, plain⟩ := scan_line_split found
  rw [walk_plain_append plain, pair_ends_plain_append plain]
  simp only [walk, pairEnds, ↓reduceIte, List.map_cons, List.map_map, Function.comp_def]
  constructor
  · omega
  · simp only [Nat.add_assoc]

theorem walk_scan_stopped {bytes passed rest : List UInt8}
    (found : scan bytes = .stopped passed rest) :
    walk bytes = passed.length ∧ pairEnds bytes = [] := by
  obtain ⟨rfl, plain, why⟩ := scan_stopped_split found
  rw [walk_plain_append plain, pair_ends_plain_append plain, (walk_stopped why).1,
    (walk_stopped why).2]
  exact ⟨rfl, rfl⟩

/-- Scans go on, over more bytes, from where they came to a stop. -/
theorem walk_append (bytes more : List UInt8) :
    walk (bytes ++ more) = walk bytes + walk (bytes.drop (walk bytes) ++ more) ∧
    pairEnds (bytes ++ more) =
      pairEnds bytes ++ (pairEnds (bytes.drop (walk bytes) ++ more)).map (walk bytes + ·) := by
  induction size : bytes.length using Nat.strongRecOn generalizing bytes with
  | ind count ih =>
      rcases scan_split bytes with ⟨text, rest, found, split, plain⟩ |
          ⟨passed, rest, found, split, plain, why⟩
      · have shorter : rest.length < count := by
          rw [← size, split]
          simp only [List.length_append, List.length_cons]
          omega
        have tail := ih rest.length shorter rest rfl
        have longer : scan (bytes ++ more) = .line text (rest ++ more) := by
          rw [scan_append, found]
        have left : bytes.drop (text.length + 2 + walk rest) = rest.drop (walk rest) := by
          have again : bytes = (text ++ [13, 10]) ++ rest := by simp [split]
          have width : (text ++ [13, 10]).length = text.length + 2 := by simp
          rw [again, ← width, ← List.drop_drop, List.drop_left]
        rw [(walk_line longer).1, (walk_line longer).2, (walk_line found).1, (walk_line found).2,
          left, tail.1, tail.2]
        constructor
        · omega
        · simp only [List.map_append, List.cons_append, List.map_map, Function.comp_def,
            Nat.add_assoc]
      · rw [(walk_scan_stopped found).1, (walk_scan_stopped found).2, split,
          List.drop_left, List.append_assoc, walk_plain_append plain, pair_ends_plain_append plain]
        exact ⟨rfl, rfl⟩

theorem walk_le (bytes : List UInt8) : walk bytes ≤ bytes.length := by
  induction size : bytes.length using Nat.strongRecOn generalizing bytes with
  | ind count ih =>
      rcases scan_split bytes with ⟨text, rest, found, split, _⟩ | ⟨passed, rest, found, split, _⟩
      · have length := congrArg List.length split
        simp only [List.length_append, List.length_cons] at length
        have tail := ih rest.length (by omega) rest rfl
        rw [(walk_line found).1]
        omega
      · rw [(walk_scan_stopped found).1, ← size, split, List.length_append]
        omega

theorem pair_ends_le (bytes : List UInt8) : ∀ place ∈ pairEnds bytes, place ≤ walk bytes := by
  induction size : bytes.length using Nat.strongRecOn generalizing bytes with
  | ind count ih =>
      intro place member
      rcases scan_split bytes with ⟨text, rest, found, split, _⟩ | ⟨passed, rest, found, _⟩
      · have length := congrArg List.length split
        simp only [List.length_append, List.length_cons] at length
        rw [(walk_line found).2] at member
        rw [(walk_line found).1]
        rcases List.mem_cons.mp member with rfl | later
        · omega
        · obtain ⟨earlier, inside, rfl⟩ := List.mem_map.mp later
          have bound := ih rest.length (by omega) rest rfl earlier inside
          omega
      · rw [(walk_scan_stopped found).2] at member
        cases member

theorem pair_ends_pos (bytes : List UInt8) : ∀ place ∈ pairEnds bytes, 0 < place := by
  intro place member
  rcases scan_split bytes with ⟨text, rest, found, _⟩ | ⟨passed, rest, found, _⟩
  · rw [(walk_line found).2] at member
    rcases List.mem_cons.mp member with rfl | later
    · omega
    · obtain ⟨earlier, _, rfl⟩ := List.mem_map.mp later
      omega
  · rw [(walk_scan_stopped found).2] at member
    cases member

theorem pair_ends_last (bytes : List UInt8) :
    ∀ place ∈ pairEnds bytes, place ≤ (pairEnds bytes).getLastD 0 := by
  induction size : bytes.length using Nat.strongRecOn generalizing bytes with
  | ind count ih =>
      intro place member
      rcases scan_split bytes with ⟨text, rest, found, split, _⟩ | ⟨passed, rest, found, _⟩
      · have length := congrArg List.length split
        simp only [List.length_append, List.length_cons] at length
        have tail := ih rest.length (by omega) rest rfl
        rw [(walk_line found).2] at member ⊢
        cases ends : pairEnds rest with
        | nil =>
            rw [ends, List.map_nil, List.mem_singleton] at member
            exact Nat.le_of_eq member
        | cons first others =>
            have last : ((text.length + 2) :: (pairEnds rest).map
                (text.length + 2 + ·)).getLastD 0 =
                text.length + 2 + (pairEnds rest).getLastD 0 := by
              rw [ends, List.getLastD_cons, List.map_cons, List.getLastD_cons, List.getLastD_cons,
                List.getLastD_eq_getLast?, List.getLastD_eq_getLast?, List.getLast?_map]
              cases others.getLast? <;> rfl
            rw [← ends, last]
            rcases List.mem_cons.mp member with rfl | later
            · omega
            · obtain ⟨earlier, inside, rfl⟩ := List.mem_map.mp later
              have bound := tail earlier inside
              omega
      · rw [(walk_scan_stopped found).2] at member
        cases member

example : walk [98, 13, 10, 99, 10, 99] = 4 := by decide

end StudyWebServer.CrlfLines
