import StudyWebServer.Http.ReaderRefinement

/-!
The grammar of a request line: method, blank, URL, blank, version, each blank a
single one. parse_request_line accepts the lines of this grammar and no others.
-/

namespace StudyWebServer

open ByteMemory CString

/-- Where m_url begins in the URL of the line: at its slash, or at the first one
behind the seven bytes of `http://`. -/
def PathStarts (url : List UInt8) (start : Nat) : Prop :=
  start = 0 ∧ url.head? = some 47 ∨
  strncasecmpEq url (ascii "http://") 7 = true ∧ 7 ≤ start ∧ url[start]? = some 47 ∧
    ∀ index, 7 ≤ index → index < start → url[index]? ≠ some 47

structure RequestGrammar (line method url version : List UInt8) (start : Nat) : Prop where
  split : ∃ first ∈ blanks, ∃ second ∈ blanks,
    line = method ++ first :: (url ++ second :: version)
  methodPlain : ∀ byte ∈ method, byte ∉ blanks
  urlPlain : ∀ byte ∈ url, byte ∉ blanks
  get : strcasecmpEq method (ascii "GET") = true
  http11 : strcasecmpEq version (ascii "HTTP/1.1") = true
  path : PathStarts url start

/-- A URL that begins with a slash is not an absolute one. -/
theorem slash_not_absolute {url : List UInt8} (slash : url.head? = some 47) :
    strncasecmpEq url (ascii "http://") 7 = false := by
  obtain ⟨rest, rfl⟩ := List.head?_eq_some_iff.mp slash
  have differs : ((47 : UInt8) :: rest).take 7 = 47 :: rest.take 6 := rfl
  rw [strncasecmpEq, differs, strcasecmpEq, List.map_cons]
  exact beq_eq_false_iff_ne.mpr fun same => absurd (List.cons.inj same).1 (by decide)

theorem request_line_accepts {line method url version : List UInt8} {start : Nat} (offset : Nat)
    (grammar : RequestGrammar line method url version start) :
    requestLine offset line =
      ⟨true, some ⟨offset + method.length + 1 + start, url.drop start⟩⟩ := by
  obtain ⟨first, isFirst, second, isSecond, rfl⟩ := grammar.split
  have behind : (method ++ first :: (url ++ second :: version)).drop (method.length + 1) =
      url ++ second :: version := by
    rw [List.drop_append, List.drop_of_length_le (by omega), Nat.add_sub_cancel_left]
    rfl
  have tail : (url ++ second :: version).drop (url.length + 1) = version := by
    rw [List.drop_append, List.drop_of_length_le (by omega), Nat.add_sub_cancel_left]
    rfl
  simp only [requestLine, strpbrk_append grammar.methodPlain isFirst, behind,
    strpbrk_append grammar.urlPlain isSecond, tail, List.take_left, grammar.get, grammar.http11,
    if_true]
  rcases grammar.path with ⟨rfl, slash⟩ | ⟨absolute, low, hit, before⟩
  · rw [if_neg (by rw [slash_not_absolute slash]; decide)]
    simp only [slash, decide_true, Nat.add_zero, List.drop_zero]
  · obtain ⟨slash, rfl⟩ := Nat.exists_eq_add_of_le low
    rw [if_pos absolute, strchr_drop.mpr ⟨hit, before⟩]
    simp only [List.drop_drop, Nat.add_assoc]

/-- What parse_request_line accepts is taken apart by the two searches. -/
theorem request_line_accepted {offset : Nat} {line : List UInt8}
    (accepted : (requestLine offset line).accepted = true) :
    ∃ method url version start, RequestGrammar line method url version start := by
  unfold requestLine at accepted
  cases one : strpbrk line blanks with
  | none => simp [one] at accepted
  | some first =>
      obtain ⟨firstBlank, isFirst, whole⟩ := strpbrk_split one
      have methodPlain := (strpbrk_some one).2.1
      simp only [one] at accepted
      split_ifs at accepted with get
      cases two : strpbrk (line.drop (first + 1)) blanks with
      | none => simp [two] at accepted
      | some second =>
          obtain ⟨secondBlank, isSecond, rest⟩ := strpbrk_split two
          have urlPlain := (strpbrk_some two).2.1
          simp only [two] at accepted
          have grammar (start : Nat) (http11 : strcasecmpEq
              ((line.drop (first + 1)).drop (second + 1))
                (ascii "HTTP/1.1") = true)
              (path : PathStarts ((line.drop (first + 1)).take second) start) :
              RequestGrammar line (line.take first) ((line.drop (first + 1)).take second)
                ((line.drop (first + 1)).drop (second + 1)) start :=
            ⟨⟨firstBlank, isFirst, secondBlank, isSecond, by rw [← rest]; exact whole⟩, methodPlain,
              urlPlain, get, http11, path⟩
          split_ifs at accepted with http11 absolute
          -- http:// and a slash behind it
          · cases slashed : strchr (((line.drop (first + 1)).take second).drop 7) 47 with
            | none => simp [slashed] at accepted
            | some slash =>
                obtain ⟨hit, before⟩ := strchr_drop.mp slashed
                exact ⟨_, _, _, _, grammar (7 + slash) http11
                  (.inr ⟨absolute, Nat.le_add_right _ _, hit, before⟩)⟩
          -- a slash at once
          · exact ⟨_, _, _, _, grammar 0 http11 (.inl ⟨rfl, by simpa using accepted⟩)⟩

/-- parse_request_line against the grammar of the line at `offset`. -/
structure ParsesGrammar (offset : Nat) (line : List UInt8) (c : HttpConn) : Prop where
  accepts : ((parseRequestLine offset c).ret = .noRequest ∧
      (parseRequestLine offset c).conn.checkState = .header) ↔
    ∃ method url version start, RequestGrammar line method url version start
  url : ∀ method url version start, RequestGrammar line method url version start →
    (parseRequestLine offset c).conn.url = .readBuf (offset + method.length + 1 + start) ∧
    stringAt (parseRequestLine offset c).conn.readBuf (offset + method.length + 1 + start) =
      url.drop start
  refuses : (¬ ∃ method url version start, RequestGrammar line method url version start) →
    (parseRequestLine offset c).ret = .badRequest ∧
    (parseRequestLine offset c).conn.checkState = c.checkState

/-- Over any NUL-terminated line of m_read_buf. -/
theorem parse_request_line_grammar (c : HttpConn) (limit offset : Nat) (line : List UInt8)
    (held : Terminated c.readBuf limit offset line) (room : limit ≤ readBufferSize) :
    ParsesGrammar offset line c := by
  have agrees := parse_request_line_refines c held room
  constructor
  · constructor
    · rintro ⟨ret, -⟩
      refine @request_line_accepted offset line ?_
      by_contra refused
      rw [agrees.ret, if_neg refused] at ret
      cases ret
    · rintro ⟨method, url, version, start, grammar⟩
      have ret := agrees.ret
      have state := agrees.state
      rw [request_line_accepts offset grammar] at ret state
      exact ⟨ret, state⟩
  · intro method url version start grammar
    have shown := agrees.url
    rw [request_line_accepts offset grammar] at shown
    exact ⟨shown.1, Terminated.stringAt_eq shown.2 room⟩
  · intro outside
    have refused : ¬ (requestLine offset line).accepted = true :=
      fun accepted => outside (request_line_accepted accepted)
    exact ⟨by rw [agrees.ret, if_neg refused], by rw [agrees.state, if_neg refused]⟩

theorem parse_request_line_grammar_page : ParsesGrammar 0 (ascii "GET http://a/b HTTP/1.1")
    { HttpConn.unused with
      readBuf := storeList (fun _ => 0) 0 (ascii "GET http://a/b HTTP/1.1") } :=
  parse_request_line_grammar _ 24 0 _
    ⟨by decide, by decide, by decide, by decide⟩ (by decide)

end StudyWebServer
