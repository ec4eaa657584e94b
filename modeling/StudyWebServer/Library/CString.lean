import Mathlib.Data.List.Basic
import Mathlib.Data.List.TakeWhile

/-!
The string.h and stdlib.h functions on C strings, a string being the list of
its bytes before the terminator. A search returns the offset of the byte it
found, `none` being the null pointer. Letter case is that of the "C" locale.
-/

namespace StudyWebServer.CString

/-- The bytes of a character literal. -/
def ascii (literal : String) : List UInt8 := literal.toList.map fun c => c.toNat.toUInt8

def toLower (byte : UInt8) : UInt8 := if 65 ≤ byte ∧ byte ≤ 90 then byte + 32 else byte

def strpbrk (string accept : List UInt8) : Option Nat :=
  string.findIdx? fun byte => accept.contains byte

def strchr (string : List UInt8) (byte : UInt8) : Option Nat :=
  string.findIdx? fun other => other == byte

def strspn (string accept : List UInt8) : Nat :=
  (string.takeWhile fun byte => accept.contains byte).length

/-- `strncmp(left, right, count) == 0` -/
def strncmpEq (left right : List UInt8) (count : Nat) : Bool := left.take count == right.take count

/-- `strcasecmp(left, right) == 0` -/
def strcasecmpEq (left right : List UInt8) : Bool := left.map toLower == right.map toLower

/-- `strncasecmp(left, right, count) == 0` -/
def strncasecmpEq (left right : List UInt8) (count : Nat) : Bool :=
  strcasecmpEq (left.take count) (right.take count)

def isSpace (byte : UInt8) : Bool := byte == 32 || (9 ≤ byte && byte ≤ 13)

def isDigit (byte : UInt8) : Bool := 48 ≤ byte && byte ≤ 57

def digits (value : Nat) : List UInt8 → Nat
  | [] => value
  | byte :: rest =>
      if isDigit byte then digits (value * 10 + (byte.toNat - 48)) rest else value

def longMax : Int := 9223372036854775807
def longMin : Int := -9223372036854775808

/-- `atol`: white space, an optional sign, digits. A value that a `long`
cannot hold becomes `LONG_MAX` or `LONG_MIN`, as `strtol` does it. -/
def atol (string : List UInt8) : Int :=
  match string.dropWhile isSpace with
  | [] => 0
  | byte :: rest =>
      if byte = 45 then max longMin (-(digits 0 rest : Int))
      else if byte = 43 then min longMax (digits 0 rest)
      else min longMax (digits 0 (byte :: rest))

theorem strpbrk_some {string accept : List UInt8} {offset : Nat}
    (found : strpbrk string accept = some offset) :
    offset < string.length ∧ (∀ byte ∈ string.take offset, byte ∉ accept) ∧
      ∃ inside : offset < string.length, string[offset] ∈ accept := by
  obtain ⟨inside, hit, before⟩ := List.findIdx?_eq_some_iff_getElem.mp found
  refine ⟨inside, ?_, inside, by simpa using hit⟩
  intro byte member
  obtain ⟨position, bound, same⟩ := List.getElem_of_mem member
  have earlier : position < offset := by simp at bound; omega
  have missed := before position earlier
  rw [List.getElem_take] at same
  simpa [same] using missed

theorem strchr_some {string : List UInt8} {byte : UInt8} {offset : Nat}
    (found : strchr string byte = some offset) :
    ∃ inside : offset < string.length, string[offset] = byte := by
  obtain ⟨inside, hit, _⟩ := List.findIdx?_eq_some_iff_getElem.mp found
  exact ⟨inside, by simpa using hit⟩

theorem strpbrk_append {string rest accept : List UInt8} {stop : UInt8}
    (plain : ∀ byte ∈ string, byte ∉ accept) (found : stop ∈ accept) :
    strpbrk (string ++ stop :: rest) accept = some string.length := by
  have hit : accept.contains stop = true := by simpa using found
  have missed : string.findIdx? (fun byte => accept.contains byte) = none := by
    rw [List.findIdx?_eq_none_iff]
    intro byte member
    simpa using plain byte member
  rw [strpbrk, List.findIdx?_append, missed, List.findIdx?_cons, hit]
  simp

/-- The string taken apart at the byte that a search found. -/
theorem strpbrk_split {string accept : List UInt8} {offset : Nat}
    (found : strpbrk string accept = some offset) : ∃ stop ∈ accept,
      string = string.take offset ++ stop :: string.drop (offset + 1) := by
  obtain ⟨-, -, inside, hit⟩ := strpbrk_some found
  exact ⟨string[offset], hit, by rw [← List.drop_eq_getElem_cons inside, List.take_append_drop]⟩

/-- A search from `low` on finds the first such byte there is. -/
theorem strchr_drop {string : List UInt8} {byte : UInt8} {low offset : Nat} :
    strchr (string.drop low) byte = some offset ↔ string[low + offset]? = some byte ∧
      ∀ index, low ≤ index → index < low + offset → string[index]? ≠ some byte := by
  rw [strchr, List.findIdx?_eq_some_iff_getElem]
  constructor
  · rintro ⟨inside, hit, before⟩
    rw [List.length_drop] at inside
    have hit : string[low + offset] = byte := by simpa using hit
    refine ⟨by rw [List.getElem?_eq_getElem (by omega), hit], fun index lower upper same => ?_⟩
    obtain ⟨within, same⟩ := List.getElem?_eq_some_iff.mp same
    have missed := before (index - low) (by omega)
    simp only [List.getElem_drop, Nat.add_sub_cancel' lower, same] at missed
    simp at missed
  · rintro ⟨hit, before⟩
    obtain ⟨within, same⟩ := List.getElem?_eq_some_iff.mp hit
    refine ⟨by rw [List.length_drop]; omega, by simpa using same, fun index earlier => ?_⟩
    have missed := before (low + index) (by omega) (by omega)
    rw [List.getElem?_eq_getElem (by omega)] at missed
    simpa using missed

/-- With the length of the first string this is a test for the beginning of the second. -/
theorem strncmp_length_iff {left right : List UInt8} :
    strncmpEq left right left.length = true ↔ left <+: right := by
  rw [strncmpEq, List.take_length, beq_iff_eq, List.prefix_iff_eq_take]

theorem strspn_append {gap rest accept : List UInt8} (skipped : ∀ byte ∈ gap, byte ∈ accept)
    (stops : ∀ byte ∈ rest.head?, byte ∉ accept) : strspn (gap ++ rest) accept = gap.length := by
  induction gap with
  | nil =>
      cases rest with
      | nil => rfl
      | cons byte rest =>
          have other : accept.contains byte = false := by simpa using stops byte rfl
          simp only [strspn, List.nil_append, List.takeWhile_cons, other, Bool.false_eq_true,
            if_false, List.length_nil]
  | cons byte gap ih =>
      have hit : accept.contains byte = true := by simpa using skipped byte List.mem_cons_self
      have later := ih fun other member => skipped other (List.mem_cons_of_mem _ member)
      simp only [strspn, List.cons_append, List.takeWhile_cons, hit, if_true,
        List.length_cons] at later ⊢
      rw [later]

theorem strcasecmp_length {left right : List UInt8} (same : strcasecmpEq left right = true) :
    left.length = right.length := by
  have mapped : left.map toLower = right.map toLower := by simpa [strcasecmpEq] using same
  simpa using congrArg List.length mapped

/-- A string that matches the first `count` bytes of a longer one has them. -/
theorem strncasecmp_length {left right : List UInt8} {count : Nat}
    (same : strncasecmpEq left right count = true) (long : count ≤ right.length) :
    count ≤ left.length := by
  have lengths := strcasecmp_length same
  simp only [List.length_take] at lengths
  omega

/-- The value of a numeral, most significant digit first. -/
def numeralValue (numeral : List UInt8) : Nat :=
  numeral.foldl (fun value byte => value * 10 + (byte.toNat - 48)) 0

theorem digits_numeral (value : Nat) {numeral tail : List UInt8}
    (decimal : ∀ byte ∈ numeral, isDigit byte = true)
    (stops : ∀ byte ∈ tail.head?, isDigit byte = false) :
    digits value (numeral ++ tail) =
      numeral.foldl (fun value byte => value * 10 + (byte.toNat - 48)) value := by
  induction numeral generalizing value with
  | nil =>
      cases tail with
      | nil => rfl
      | cons byte rest =>
          rw [List.nil_append, digits, if_neg (by rw [stops byte rfl]; decide), List.foldl_nil]
  | cons byte rest ih =>
      rw [List.cons_append, digits, if_pos (decimal byte List.mem_cons_self), List.foldl_cons]
      exact ih _ fun other member => decimal other (List.mem_cons_of_mem _ member)

theorem digit_bounds {byte : UInt8} (digit : isDigit byte = true) :
    48 ≤ byte.toNat ∧ byte.toNat ≤ 57 := by
  simpa [isDigit, UInt8.le_iff_toNat_le] using digit

/-- A digit is none of the bytes that atol takes in front of a numeral. -/
theorem digit_starts {byte : UInt8} (digit : isDigit byte = true) :
    isSpace byte = false ∧ byte ≠ 45 ∧ byte ≠ 43 := by
  have bounds := digit_bounds digit
  have differs (other : UInt8) (low : other.toNat < 48) : byte ≠ other := by
    rintro rfl
    omega
  refine ⟨?_, differs 45 (by decide), differs 43 (by decide)⟩
  have high : ¬ byte ≤ 13 := by
    rw [UInt8.le_iff_toNat_le]
    have limit : (13 : UInt8).toNat = 13 := rfl
    omega
  simp [isSpace, differs 32 (by decide), high]

/-- `atol` of a numeral is its value, or the largest `long`. -/
theorem atol_numeral {numeral tail : List UInt8} (some : numeral ≠ [])
    (decimal : ∀ byte ∈ numeral, isDigit byte = true)
    (stops : ∀ byte ∈ tail.head?, isDigit byte = false) :
    atol (numeral ++ tail) = min longMax (numeralValue numeral : Int) := by
  cases numeral with
  | nil => exact absurd rfl some
  | cons byte rest =>
      obtain ⟨noSpace, minus, plus⟩ := digit_starts (decimal byte List.mem_cons_self)
      have all := digits_numeral 0 decimal stops
      rw [List.cons_append] at all
      simp only [atol, List.cons_append, List.dropWhile_cons, noSpace, Bool.false_eq_true, if_false,
        if_neg minus, if_neg plus, all]
      rfl

/-- The digits that a natural number is printed with are read back. -/
theorem digits_chars (value : Nat) {chars : List Char} (decimal : ∀ c ∈ chars, c.isDigit = true) :
    digits value (chars.map fun c => c.toNat.toUInt8) = Nat.ofDigitChars 10 chars value := by
  induction chars generalizing value with
  | nil => rfl
  | cons c chars ih =>
      have bounds : 48 ≤ c.toNat ∧ c.toNat ≤ 57 :=
        Char.isDigit_iff_toNat.mp (decimal c List.mem_cons_self)
      have byte : c.toNat.toUInt8.toNat = c.toNat := by
        rw [Nat.toUInt8, UInt8.toNat_ofNat']
        omega
      have digit : isDigit c.toNat.toUInt8 = true := by
        simp only [isDigit, Bool.and_eq_true, decide_eq_true_eq, UInt8.le_iff_toNat_le, byte]
        exact bounds
      rw [List.map_cons, digits, if_pos digit, byte, Nat.ofDigitChars_cons, Nat.mul_comm]
      exact ih _ fun other member => decimal other (List.mem_cons_of_mem _ member)

example : atol (ascii " -12x") = -12 := by decide

end StudyWebServer.CString
