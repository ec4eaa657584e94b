import StudyWebServer.Http.RequestLanguage
import StudyWebServer.Http.Segmentation

/-!
Content-Length framing of a request that comes in one read. The numeral goes
through a `long` into an `int`, and the sum with m_checked_idx is an `int` again:
a length that is lost on the way completes a request whose body is not there,
unless the NUL that parse_content stores for it ends the process.
-/

namespace StudyWebServer

open ByteMemory CString MachineInt CrlfLines Layout

/-- A Content-Length header with the numeral as its value, blanks and tabs around it. -/
def LengthHeader (line numeral : List UInt8) : Prop :=
  ∃ name gap tail, line = name ++ (gap ++ (numeral ++ tail)) ∧
    strcasecmpEq name (ascii "Content-Length:") = true ∧
    (∀ byte ∈ gap, byte = 32 ∨ byte = 9) ∧ ∀ byte ∈ tail, byte = 32 ∨ byte = 9

/-- A head that process_read takes, with the numeral in its only Content-Length
header, and a body behind it. -/
structure LengthRequest (bytes first : List UInt8) (headers : List (List UInt8))
    (last body numeral : List UInt8) : Prop where
  head : BodyLess bytes first headers last body
  some : numeral ≠ []
  decimal : ∀ byte ∈ numeral, isDigit byte = true
  only : ∃ before line after, headers = before ++ line :: after ∧
    LengthHeader (text line) numeral ∧ ∀ other ∈ before ++ after, lengthLine (text other) = false

section Header
variable {line numeral : List UInt8}

theorem length_header_other (header : LengthHeader line numeral) :
    strncasecmpEq line (ascii "Connection:") 11 = false := by
  obtain ⟨name, gap, tail, rfl, named, -, -⟩ := header
  have width : name.length = 15 := strcasecmp_length named
  have lower : name.map toLower = (ascii "Content-Length:").map toLower := by
    simpa [strcasecmpEq] using named
  have start : (name ++ (gap ++ (numeral ++ tail))).take 11 = name.take 11 :=
    List.take_append_of_le_length (by omega)
  rw [strncasecmpEq, strcasecmpEq, start, List.map_take, lower]
  decide

theorem length_header_line (header : LengthHeader line numeral) : lengthLine line = true := by
  obtain ⟨name, gap, tail, rfl, named, -, -⟩ := header
  have width : name.length = 15 := strcasecmp_length named
  have start : (name ++ (gap ++ (numeral ++ tail))).take 15 = name := by
    rw [← width, List.take_left]
  rw [lengthLine, strncasecmpEq, start]
  exact named

/-- The header leaves its number in m_content_length, as far as an `int` keeps it. -/
theorem header_line_kept (header : LengthHeader line numeral) (some : numeral ≠ [])
    (decimal : ∀ byte ∈ numeral, isDigit byte = true) (r : Reader) :
    (headerLine line r).contentLength = toInt (min longMax (numeralValue numeral : Int)) := by
  have connection := length_header_other header
  have length : strncasecmpEq line (ascii "Content-Length:") 15 = true := length_header_line header
  obtain ⟨name, gap, tail, rfl, named, gapBlank, tailBlank⟩ := header
  have width : name.length = 15 := strcasecmp_length named
  have digitNotBlank : ∀ byte, isDigit byte = true → byte ∉ blanks := by
    intro byte digit blank
    rcases mem_blanks.mp blank with rfl | rfl <;> exact absurd digit (by decide)
  have starts : ∀ byte ∈ (numeral ++ tail).head?, byte ∉ blanks := by
    intro byte found
    rw [List.head?_append_of_ne_nil _ some] at found
    exact digitNotBlank byte (decimal byte (List.mem_of_mem_head? found))
  have stops : ∀ byte ∈ tail.head?, isDigit byte = false := by
    intro byte found
    rcases tailBlank byte (List.mem_of_mem_head? found) with rfl | rfl <;> decide
  rw [headerLine, if_neg (by rw [connection]; decide), if_pos length]
  simp only [Reader.withLength]
  rw [header_value width gapBlank starts, atol_numeral some decimal stops]

theorem take_headers_kept {before after : List (List UInt8)}
    (header : LengthHeader (text line) numeral) (some : numeral ≠ [])
    (decimal : ∀ byte ∈ numeral, isDigit byte = true)
    (others : ∀ other ∈ before ++ after, lengthLine (text other) = false) (r : Reader) :
    ((before ++ line :: after).foldl takeHeader r).contentLength =
      toInt (min longMax (numeralValue numeral : Int)) := by
  rw [List.foldl_append, List.foldl_cons, take_headers_length after _
    fun other member => others other (List.mem_append_right _ member)]
  exact header_line_kept header some decimal _

end Header

section Framing
variable {bytes first last body numeral : List UInt8} {headers : List (List UInt8)}

/-- What the head of the request leaves. -/
structure HeadLeaves (bytes body numeral : List UInt8) (h : Reader) : Prop where
  complete : readHead (Reader.fresh.feed bytes) = .complete h
  length : h.contentLength = toInt (min longMax (numeralValue numeral : Int))
  position : h.position + body.length = bytes.length
  behind : bytes.drop h.position = body

theorem LengthRequest.leaves (request : LengthRequest bytes first headers last body numeral)
    (short : bytes.length ≤ readBufferSize) : ∃ h, HeadLeaves bytes body numeral h := by
  have complete := request.head.complete short
  obtain ⟨before, line, after, rfl, header, others⟩ := request.only
  have facing : Facing (Reader.fresh.feed bytes) .requestline
      (joinLines (first :: (before ++ line :: after)) ++ (last ++ crlf ++ body)) :=
    ⟨rfl, rfl, request.head.bytes⟩
  obtain ⟨-, next⟩ := read_head_lines facing request.head.plain
    ((acceptable_iff (request.head.first_short short)).mp request.head.acceptable)
      request.head.visible
  obtain ⟨total, behind⟩ := read_head_splits complete
  rw [take_line_unread next request.head.plainLast] at total behind
  exact ⟨_, complete, take_headers_kept header request.some request.decimal others _, total, behind⟩

/-- The comparison holds at this place of the body, or its sum overflows there. -/
def PassesAt (head : Nat) (length : Int) (body : List UInt8) (place : Nat) : Prop :=
  length + place ≤ body.length ∨ intMax < length + (head + place : Nat)

instance (head : Nat) (length : Int) (body : List UInt8) :
    DecidablePred (PassesAt head length body) :=
  fun _ => inferInstanceAs (Decidable (_ ∨ _))

/-- The place in the body where the line begins that parse_content is given when
it first passes, the looks being at these places. -/
def passingLine (head : Nat) (length : Int) (body : List UInt8) : Nat → List Nat → Option Nat
  | _, [] => none
  | line, place :: places =>
      if PassesAt head length body place then some line
      else passingLine head length body place places

/-- The NUL that parse_content stores behind that line ends the process. -/
def StoreLost (fs : FileSystem) (head : Nat) (length : Int) (body : List UInt8) : Prop :=
  ∃ line ∈ passingLine head length body 0 (0 :: pairEnds body),
    ¬ fs.MayWrite (readBufOffset + (head + line + length))

instance (fs : FileSystem) (head : Nat) (length : Int) (body : List UInt8) :
    Decidable (StoreLost fs head length body) :=
  inferInstanceAs (Decidable (∃ line ∈ _, ¬ _))

theorem looks_along_lands {fs : FileSystem} {head : Nat} {length : Int} (fits : FitsInt length)
    (line : Nat) (places : List Nat)
    (room : ∀ place ∈ places, head + place ≤ readBufferSize) :
    (∀ look ∈ looksAlong length (head + body.length) (head + line) (places.map (head + ·)),
        look.passes → look.Lands fs) ↔
      ∀ found ∈ passingLine head length body line places,
        fs.MayWrite (readBufOffset + (head + found + length)) := by
  -- Induction on the places; the looks end at the first that passes.
  induction places generalizing line with
  | nil => simp [looksAlong, passingLine]
  | cons place places ih =>
      have here := passes_iff (head + body.length) fits (room place List.mem_cons_self)
      have same : Look.passes ⟨head + line, head + place, head + body.length, length⟩ ↔
          PassesAt head length body place := by
        rw [Look.passes, here, PassesAt]
        push_cast
        exact or_congr_left (by omega)
      rw [List.map_cons, looksAlong, passingLine]
      by_cases passes : PassesAt head length body place
      · rw [if_pos (same.mpr passes), if_pos passes]
        simp only [List.mem_singleton, forall_eq, Option.mem_some_iff, forall_eq', Look.Lands,
          same.mpr passes, true_imp_iff, Nat.cast_add]
      · rw [if_neg (mt same.mp passes), if_neg passes, List.forall_mem_cons]
        rw [ih place fun other member => room other (List.mem_cons_of_mem _ member)]
        exact and_iff_right fun passed => absurd (same.mp passed) passes

/-- Behind a body that is there the store falls on the object. -/
theorem enough_lands (fs : FileSystem) {head : Nat} {length : Int} (lower : 0 ≤ length)
    (enough : length ≤ body.length) (room : head + body.length ≤ readBufferSize) :
    ¬ StoreLost fs head length body := by
  have first : PassesAt head length body 0 := .inl (by omega)
  rintro ⟨line, found, lost⟩
  rw [passingLine, if_pos first] at found
  cases found
  refine lost (.inl ?_)
  simp only [layout_values] at room ⊢
  omega

/-- The looks at the body of a request that comes in one read. -/
theorem HeadLeaves.lands_iff {h : Reader} (fs : FileSystem)
    (leaves : HeadLeaves bytes body numeral h)
    (short : bytes.length ≤ readBufferSize) :
    (∀ look ∈ (readRequest (Reader.fresh.feed bytes)).looks, look.passes → look.Lands fs) ↔
      ¬ StoreLost fs (bytes.length - body.length) (toInt (min longMax (numeralValue numeral : Int)))
        body := by
  have split := leaves.position
  have head : bytes.length - body.length = h.position := by omega
  rw [← leaves.length, head, readRequest, if_neg (fresh_phase bytes), leaves.complete, afterHead]
  by_cases empty : h.contentLength = 0
  · rw [if_pos empty]
    exact iff_of_true (by simp) (enough_lands fs empty.ge (by omega) (by omega))
  · have call := read_body_call true (h.toPhase .content)
    have held := (read_head_complete leaves.complete).1
    have start : h.start = h.position := by
      rw [Reader.position, held, List.length_nil, Nat.add_zero]
    have unread : h.unread = body := by
      rw [← leaves.behind]
      exact (read_head_splits leaves.complete).2.symm
    have looks : callLooks true (h.toPhase .content) = looksAlong h.contentLength
        (h.position + body.length) (h.position + 0)
          ((0 :: pairEnds body).map (h.position + ·)) := by
      show looksAlong h.contentLength (h.position + h.unread.length) h.start
        (lookPlaces true (h.toPhase .content)) = _
      rw [start, unread, ← unread]
      rfl
    rw [if_neg empty, call.looks, List.nil_append, looks, looks_along_lands]
    · simp only [StoreLost, not_exists, not_and, not_not]
    · rw [leaves.length]
      exact toInt_fits _
    · intro place member
      have walked := walk_le body
      rcases List.mem_cons.mp member with rfl | behind
      · omega
      · have bound := pair_ends_le body place behind
        omega

/-- One read: what of the number is left decides. -/
theorem LengthRequest.reaches_iff (fs : FileSystem) (c : HttpConn)
    (request : LengthRequest bytes first headers last body numeral)
    (short : bytes.length ≤ readBufferSize) :
    (∃ d, ReachesDoRequest fs (appendRead bytes (init c).conn) d) ↔
      (toInt (min longMax (numeralValue numeral : Int)) = 0 ∨
        Taken (bytes.length - body.length) (toInt (min longMax (numeralValue numeral : Int))) []
          body) ∧
      ¬ StoreLost fs (bytes.length - body.length) (toInt (min longMax (numeralValue numeral : Int)))
        body := by
  obtain ⟨h, leaves⟩ := request.leaves short
  have position : h.position = bytes.length - body.length := by
    have sum := leaves.position
    omega
  have whole : [bytes].flatten = bytes := by simp
  have reads := request_reads [bytes] (h := h) (by rw [whole]; exact leaves.complete)
    (by rw [whole]; exact short)
  rw [reaches_do_request_iff fs (init_shows_feed c short), leaves.lands_iff fs short,
    read_once_verdict, reads.served,
    body_taken_once _ (by rw [← leaves.position]; exact Nat.le_add_right _ _), leaves.behind,
    leaves.length, ← position]

/-- What an `int` keeps of the number asks for more than the body still, and stays
an `int` where m_checked_idx is added: at the body, and behind the lines in it. -/
def AsksForMore (head : Nat) (body : List UInt8) (number : Nat) : Prop :=
  (number : Int) < longMax ∧ body.length < number % 2 ^ 32 ∧
    ∀ place ∈ 0 :: pairEnds body, ((number % 2 ^ 32 + head + place : Nat) : Int) ≤ intMax

instance (head : Nat) (body : List UInt8) (number : Nat) :
    Decidable (AsksForMore head body number) :=
  inferInstanceAs (Decidable (_ ∧ _ ∧ ∀ place ∈ _, _))

/-- A number of which a negative `int` is left. -/
def TurnsNegative (number : Nat) : Prop := longMax ≤ number ∨ 2 ^ 31 ≤ number % 2 ^ 32

theorem kept_negative {number : Nat} (negative : TurnsNegative number) :
    toInt (min longMax (number : Int)) < 0 := by
  unfold TurnsNegative longMax at negative
  unfold toInt longMax
  omega

theorem kept_remainder {number : Nat} (stays : ¬ TurnsNegative number) :
    toInt (min longMax (number : Int)) = (number % 2 ^ 32 : Nat) := by
  unfold TurnsNegative longMax at stays
  unfold toInt longMax
  omega

theorem asks_for_more_stays {head number : Nat} (asks : AsksForMore head body number) :
    ¬ TurnsNegative number := by
  obtain ⟨small, -, sums⟩ := asks
  have first := sums 0 List.mem_cons_self
  unfold intMax at first
  unfold TurnsNegative
  omega

theorem asks_for_more_less {head number : Nat} (asks : AsksForMore head body number) :
    body.length < number := Nat.lt_of_lt_of_le asks.2.1 (Nat.mod_le _ _)

theorem taken_iff {head number : Nat} :
    (toInt (min longMax (number : Int)) = 0 ∨
        Taken head (toInt (min longMax (number : Int))) [] body) ↔
      ¬ AsksForMore head body number := by
  have start : walk [] = 0 := rfl
  by_cases negative : TurnsNegative number
  -- A negative length passes the first look, at whatever place it is.
  · have below := kept_negative negative
    constructor
    · exact fun _ asks => asks_for_more_stays asks negative
    · exact fun _ => .inr (.inl (by rw [start]; omega))
  · rw [kept_remainder negative]
    constructor
    · rintro (zero | enough | ⟨place, member, exceeds⟩) ⟨-, more, sums⟩
      · omega
      · rw [start] at enough
        omega
      · have bound := sums place member
        push_cast at bound exceeds
        omega
    · intro satisfied
      by_contra waits
      obtain ⟨-, untaken⟩ := not_or.mp waits
      refine satisfied ⟨?_, ?_, fun place member => ?_⟩
      · unfold TurnsNegative at negative
        omega
      · by_contra enough
        exact untaken (.inl (by rw [start]; omega))
      · by_contra exceeds
        exact untaken (.inr ⟨place, member, by push_cast at exceeds ⊢; omega⟩)

/-- Framing of the request by the number that its header gives. -/
structure Framed (fs : FileSystem) (c : HttpConn) (bytes body : List UInt8)
    (number : Nat) : Prop where
  exact : (∃ d, ReachesDoRequest fs (appendRead bytes (init c).conn) d) ↔ number ≤ body.length
  never : readBufferSize < number → ¬ ∃ d, ReachesDoRequest fs (appendRead bytes (init c).conn) d

/-- A body that is there completes the request. For one that is not, process_read
waits just as long as the `int` goes on asking for it, or it is ended by its store. -/
theorem content_length_framed (fs : FileSystem) (c : HttpConn) (bytes first : List UInt8)
    (headers : List (List UInt8)) (last body numeral : List UInt8)
    (request : LengthRequest bytes first headers last body numeral)
    (short : bytes.length ≤ readBufferSize) :
    Framed fs c bytes body (numeralValue numeral) ↔ numeralValue numeral ≤ body.length ∨
      AsksForMore (bytes.length - body.length) body (numeralValue numeral) ∨
      StoreLost fs (bytes.length - body.length) (toInt (min longMax (numeralValue numeral : Int)))
        body := by
  have reaches := (request.reaches_iff fs c short).trans (and_congr_left' taken_iff)
  have inside : body.length ≤ bytes.length := by
    rw [request.head.bytes, List.length_append, List.length_append]
    omega
  constructor
  · intro framed
    by_cases asks : AsksForMore (bytes.length - body.length) body (numeralValue numeral)
    · exact .inr (.inl asks)
    by_cases lost : StoreLost fs (bytes.length - body.length)
        (toInt (min longMax (numeralValue numeral : Int))) body
    · exact .inr (.inr lost)
    · exact .inl (framed.exact.mp (reaches.mpr ⟨asks, lost⟩))
  · intro right
    have exact : (∃ d, ReachesDoRequest fs (appendRead bytes (init c).conn) d) ↔
        numeralValue numeral ≤ body.length := by
      rw [reaches]
      constructor
      · rintro ⟨satisfied, lands⟩
        exact right.resolve_right fun other => other.elim satisfied lands
      · intro enough
        have kept : toInt (min longMax (numeralValue numeral : Int)) = numeralValue numeral := by
          unfold readBufferSize at short
          unfold toInt longMax
          omega
        refine ⟨fun asks => Nat.not_lt.mpr enough (asks_for_more_less asks), ?_⟩
        rw [kept]
        exact enough_lands fs (Int.natCast_nonneg _) (Int.ofNat_le.mpr enough) (by omega)
    refine ⟨exact, fun large reached => ?_⟩
    -- m_read_buf would hold more bytes than it has room for
    have enough := exact.mp reached
    omega

/-- A request with nothing but this header in its head. -/
def requestWith (numeral body : List UInt8) : List UInt8 :=
  ascii "GET /a HTTP/1.1\r\nContent-Length: " ++ numeral ++ ascii "\r\n\r\n" ++ body

theorem request_with_length {numeral : List UInt8} (body : List UInt8) (some : numeral ≠ [])
    (decimal : ∀ byte ∈ numeral, isDigit byte = true) : LengthRequest (requestWith numeral body)
      (ascii "GET /a HTTP/1.1") [ascii "Content-Length: " ++ numeral] [] body numeral := by
  have away (byte : UInt8) (other : isDigit byte = false)
      (outside : byte ∉ ascii "Content-Length: ") :
      byte ∉ ascii "Content-Length: " ++ numeral := by
    intro member
    rcases List.mem_append.mp member with named | digit
    · exact outside named
    · rw [decimal byte digit] at other
      cases other
  have plain : Plain (ascii "Content-Length: " ++ numeral) :=
    ⟨away 13 (by decide) (by decide), away 10 (by decide) (by decide)⟩
  have shown : text (ascii "Content-Length: " ++ numeral) = ascii "Content-Length: " ++ numeral :=
    text_of_nul_free (away 0 (by decide) (by decide))
  have opening : ascii "GET /a HTTP/1.1\r\nContent-Length: " =
      ascii "GET /a HTTP/1.1" ++ crlf ++ ascii "Content-Length: " := by decide
  have closing : ascii "\r\n\r\n" = crlf ++ crlf := by decide
  refine ⟨⟨?_, ?_, plain_nil, by decide, ?_, rfl⟩, some, decimal, [], _, [], rfl,
    ⟨ascii "Content-Length:", [32], [], ?_, by decide, ?_, ?_⟩, ?_⟩
  · simp [requestWith, opening, closing, joinLines]
  · exact List.forall_mem_cons.mpr ⟨by decide, List.forall_mem_singleton.mpr plain⟩
  · rw [List.forall_mem_singleton, shown]
    exact List.append_ne_nil_of_left_ne_nil (by decide) _
  · rw [shown, List.append_nil]
    rfl
  · exact fun _ member => .inl (List.mem_singleton.mp member)
  · exact fun _ member => by cases member
  · exact fun _ member => by cases member

/-- A body of five bytes, and a length of which the `int` keeps -1. -/
theorem content_length_framed_hello :
    Framed .empty .unused (requestWith (ascii "5") (ascii "hello")) (ascii "hello") 5 ∧
    ¬ Framed .empty .unused (requestWith (ascii "4294967295") []) [] 4294967295 := by
  constructor
  · exact (content_length_framed .empty .unused _ _ _ _ _ (ascii "5")
      (request_with_length (ascii "hello") (by decide) (List.all_eq_true.mp (by decide)))
      (by decide)).mpr (.inl (by decide))
  · intro framed
    have right := (content_length_framed .empty .unused _ _ _ _ _ (ascii "4294967295")
      (request_with_length [] (by decide) (List.all_eq_true.mp (by decide))) (by decide)).mp framed
    exact absurd right (by decide)

/-- The sum wraps, and the store falls 2 GiB behind the object. -/
example : StoreLost .empty 47 2147483647 [] := by decide

/-- 2^32 leaves 0 in m_content_length, so the head is a whole request. -/
theorem wrapped_length_served : ¬ ∀ (fs : FileSystem) (c : HttpConn) (bytes first : List UInt8)
    (headers : List (List UInt8)) (last body numeral : List UInt8),
    LengthRequest bytes first headers last body numeral → bytes.length ≤ readBufferSize →
      Framed fs c bytes body (numeralValue numeral) := by
  intro all
  have request := @request_with_length (ascii "4294967296") [] (by decide)
    (List.all_eq_true.mp (by decide))
  have short : (requestWith (ascii "4294967296") []).length ≤ readBufferSize := by decide
  have framed := all .empty .unused _ _ _ _ _ _ request short
  have gone : toInt (min longMax (numeralValue (ascii "4294967296") : Int)) = 0 := by decide
  have reached := (request.reaches_iff .empty .unused short).mpr ⟨.inl gone, by decide⟩
  exact absurd (framed.exact.mp reached) (by decide)

end Framing

end StudyWebServer
