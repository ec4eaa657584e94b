import StudyWebServer.WebServer.HttpRequest

/-!
What ParseFromUrlencoded_ makes of a form. An escape of a byte is not decoded: its percent sign
stays and two other characters are written behind it. The last field is not stored when it is
empty or its name was there before, and a form that ends within an escape is written past its end.
-/

namespace StudyWebServer.WebServer.HttpRequest

/-- What becomes of a name or a value, in which `=` and `&` are part of escapes only. -/
def decodeText : Bytes → Option Bytes
  | [] => some []
  | ch :: rest =>
      if ch = 61 ∨ ch = 38 then none
      else if ch = 43 then (decodeText rest).map (32 :: ·)
      else if ch = 37 then
        match rest with
        | high :: low :: more =>
            (decodeText more).map (37 :: (escaped high low).1 :: (escaped high low).2 :: ·)
        | _ => none
      else (decodeText rest).map (ch :: ·)

/-- The string ends within an escape. -/
def endsInEscape : Bytes → Bool
  | [] => false
  | ch :: rest =>
      if ch = 37 then
        match rest with
        | _ :: _ :: more => endsInEscape more
        | _ => true
      else endsInEscape rest

section Rounds
variable {d : Decoding} {before behind : Bytes}

theorem run_round {next : Decoding} (round : decodeRound d = .inl next) : decode d = decode next :=
  Loop.run_again round

theorem char_here (ch : UInt8) : (before ++ ch :: behind)[before.length]? = some ch := by simp

theorem set_here (ch other : UInt8) :
    (before ++ ch :: behind).set before.length other = before ++ other :: behind := by simp

theorem round_end (ended : d.body[d.i]? = none) : decodeRound d = .inr (.ok d) := by
  unfold decodeRound
  rw [ended]

theorem round_equals (here : d.body[d.i]? = some 61) :
    decodeRound d = .inl { d with key := d.substr, j := d.i + 1, i := d.i + 1 } := by
  unfold decodeRound
  rw [here]
  exact if_pos rfl

theorem round_plus (here : d.body[d.i]? = some 43) :
    decodeRound d = .inl { d with body := d.body.set d.i 32, i := d.i + 1 } := by
  unfold decodeRound
  rw [here]
  exact (if_neg (by decide)).trans (if_pos rfl)

theorem round_escape {high low : UInt8} (here : d.body[d.i]? = some 37)
    (first : d.body[d.i + 1]? = some high) (second : d.body[d.i + 2]? = some low) :
    decodeRound d = .inl { d with
      body := (d.body.set (d.i + 2) (escaped high low).2).set (d.i + 1) (escaped high low).1
      i := d.i + 3 } := by
  unfold decodeRound
  rw [here, first, second]
  exact (if_neg (by decide)).trans ((if_neg (by decide)).trans (if_pos rfl))

theorem round_and (here : d.body[d.i]? = some 38) :
    decodeRound d = .inl { d with
      post := Function.update d.post d.key (some d.substr), j := d.i + 1, i := d.i + 1 } := by
  unfold decodeRound
  rw [here]
  exact (if_neg (by decide)).trans
    ((if_neg (by decide)).trans ((if_neg (by decide)).trans (if_pos rfl)))

theorem round_other {ch : UInt8} (here : d.body[d.i]? = some ch) (equals : ch ≠ 61) (plus : ch ≠ 43)
    (percent : ch ≠ 37) (ampersand : ch ≠ 38) : decodeRound d = .inl { d with i := d.i + 1 } := by
  unfold decodeRound
  rw [here]
  dsimp only
  rw [if_neg equals, if_neg plus, if_neg percent, if_neg ampersand]

end Rounds

theorem decode_text_length {text out : Bytes} (decodes : decodeText text = some out) :
    out.length = text.length := by
  induction size : text.length using Nat.strongRecOn generalizing text out with
  | ind count ih =>
      cases text with
      | nil =>
          cases decodes
          exact size
      | cons ch rest =>
          rw [List.length_cons] at size
          unfold decodeText at decodes
          split_ifs at decodes with split_at plus percent
          · obtain ⟨more, same, rfl⟩ := Option.map_eq_some_iff.mp decodes
            rw [List.length_cons, ih rest.length (by omega) same rfl]
            exact size
          · match rest with
            | high :: low :: more =>
                obtain ⟨found, same, rfl⟩ := Option.map_eq_some_iff.mp decodes
                simp only [List.length_cons] at size ⊢
                rw [ih more.length (by omega) same rfl]
                exact size
            | [] => cases decodes
            | [_] => cases decodes
          · obtain ⟨more, same, rfl⟩ := Option.map_eq_some_iff.mp decodes
            rw [List.length_cons, ih rest.length (by omega) same rfl]
            exact size

/-- The loop as far as it has come. -/
def Decoding.reached (d : Decoding) (body : Bytes) (i : Nat) : Decoding :=
  { d with body := body, i := i }

/-- A name or a value is rewritten in its place. -/
theorem scan_text {text out before behind : Bytes} {d : Decoding}
    (decodes : decodeText text = some out)
    (body : d.body = before ++ (text ++ behind)) (place : d.i = before.length) :
    decode d = decode (d.reached (before ++ (out ++ behind)) (before.length + text.length)) := by
  induction size : text.length using Nat.strongRecOn generalizing text out before d with
  | ind count ih =>
      cases text with
      | nil =>
          cases decodes
          subst size
          obtain ⟨_, _, _, _, _⟩ := d
          cases body
          cases place
          rfl
      | cons ch rest =>
          rw [List.length_cons] at size
          have here : d.body[d.i]? = some ch := by
            rw [body, place]
            exact char_here ch
          unfold decodeText at decodes
          split_ifs at decodes with split_at plus percent
          · obtain ⟨more, same, rfl⟩ := Option.map_eq_some_iff.mp decodes
            subst plus
            have moved : d.body.set d.i 32 = (before ++ [32]) ++ (rest ++ behind) := by
              rw [body, place, List.append_assoc]
              exact set_here 43 32
            rw [run_round (round_plus here),
              ih rest.length (by omega) same moved (by simp [place]) rfl]
            exact congrArg decode (congrArg₂ d.reached (by simp) (by simp; omega))
          · match rest with
            | high :: low :: more =>
                obtain ⟨found, same, rfl⟩ := Option.map_eq_some_iff.mp decodes
                subst percent
                rw [List.length_cons, List.length_cons] at size
                have first : d.body[d.i + 1]? = some high := by simp [body, place]
                have second : d.body[d.i + 2]? = some low := by simp [body, place]
                have moved : (d.body.set (d.i + 2) (escaped high low).2).set (d.i + 1)
                    (escaped high low).1 =
                    (before ++ [37, (escaped high low).1, (escaped high low).2]) ++
                      (more ++ behind) := by
                  simp [body, place]
                rw [run_round (round_escape here first second),
                  ih more.length (by omega) same moved (by simp [place]) rfl]
                exact congrArg decode (congrArg₂ d.reached (by simp) (by simp; omega))
            | [] => cases decodes
            | [_] => cases decodes
          · obtain ⟨more, same, rfl⟩ := Option.map_eq_some_iff.mp decodes
            rw [not_or] at split_at
            have moved : d.body = (before ++ [ch]) ++ (rest ++ behind) := by simp [body]
            rw [run_round (round_other here split_at.1 plus percent split_at.2),
              ih rest.length (by omega) (d := { d with i := d.i + 1 }) same moved
                (by simp [place]) rfl]
            exact congrArg decode (congrArg₂ d.reached (by simp) (by simp; omega))

/-- The fields with `=` and `&` between them. -/
def form : List (Bytes × Bytes) → Bytes
  | [] => []
  | [(name, value)] => name ++ 61 :: value
  | (name, value) :: rest => name ++ 61 :: (value ++ 38 :: form rest)

def putFields (header : Bytes → Option Bytes)
    (fields : List (Bytes × Bytes)) : Bytes → Option Bytes :=
  fields.foldl (fun header field => Function.update header field.1 (some field.2)) header

/-- The fields as they are put into the map, where the last one is treated differently. -/
def stored : List (Bytes × Bytes) → (Bytes → Option Bytes) → Bytes → Option Bytes
  | [], post => post
  | [(name, value)], post =>
      if post name = none ∧ value ≠ [] then Function.update post name (some value) else post
  | (name, value) :: rest, post => stored rest (Function.update post name (some value))

theorem form_ne_nil {fields : List (Bytes × Bytes)}
    (some_field : fields ≠ []) : form fields ≠ [] := by
  match fields with
  | [] => exact absurd rfl some_field
  | [(name, value)] => simp [form]
  | (name, value) :: _ :: _ => simp [form]

def Decodes (field text : Bytes × Bytes) : Prop :=
  decodeText field.1 = some text.1 ∧ decodeText field.2 = some text.2

section Fields
variable {before behind name value : Bytes} {text : Bytes × Bytes} {d : Decoding}

theorem substr_between {start inside after : Bytes} {key : Bytes} {post : Bytes → Option Bytes} :
    Decoding.substr ⟨start ++ (inside ++ after), start.length + inside.length, start.length, key,
      post⟩ = inside := by
  simp [Decoding.substr]

/-- One field, up to what follows its value. -/
theorem scan_field (decodes : Decodes (name, value) text)
    (body : d.body = before ++ (name ++ 61 :: (value ++ behind))) (i : d.i = before.length)
    (j : d.j = before.length) : decode d = decode
      ⟨(before ++ text.1 ++ [61]) ++ (text.2 ++ behind),
        (before ++ text.1 ++ [61]).length + text.2.length,
        (before ++ text.1 ++ [61]).length, text.1, d.post⟩ := by
  have names := decode_text_length decodes.1
  have values := decode_text_length decodes.2
  dsimp only at names values
  rw [scan_text decodes.1 body i]
  have here : (before ++ (text.1 ++ 61 :: (value ++ behind)))[before.length + name.length]? =
      some 61 := by
    rw [← names, ← List.append_assoc, ← List.length_append]
    exact char_here 61
  have key : (d.reached (before ++ (text.1 ++ 61 :: (value ++ behind)))
      (before.length + name.length)).substr = text.1 := by
    unfold Decoding.reached
    rw [j, ← names]
    exact substr_between
  have place : before.length + name.length + 1 = (before ++ text.1 ++ [61]).length := by
    simp [names]
    omega
  have same : before ++ (text.1 ++ 61 :: (value ++ behind)) =
      (before ++ text.1 ++ [61]) ++ (value ++ behind) := by simp
  rw [run_round (round_equals here), key]
  show decode ⟨before ++ (text.1 ++ 61 :: (value ++ behind)), before.length + name.length + 1,
    before.length + name.length + 1, text.1, d.post⟩ = _
  rw [place, same, scan_text decodes.2 rfl rfl, values]
  rfl

theorem scan_fields {fields texts : List (Bytes × Bytes)}
    (decodes : List.Forall₂ Decodes fields texts)
    (some_field : fields ≠ []) (body : d.body = before ++ form fields) (i : d.i = before.length)
    (j : d.j = before.length) : ∃ last, decode d = .ok last ∧ last.body = before ++ form texts ∧
      last.j ≤ last.i ∧ (if last.post last.key = none ∧ last.j < last.i then
        Function.update last.post last.key (some last.substr) else last.post) =
        stored texts d.post := by
  induction decodes generalizing d before with
  | nil => exact absurd rfl some_field
  | @cons field text fields texts first rest ih =>
      obtain ⟨name, value⟩ := field
      obtain ⟨textName, textValue⟩ := text
      cases rest with
      | nil =>
          have whole : d.body = before ++ (name ++ 61 :: (value ++ [])) := by
            rw [List.append_nil]
            exact body
          rw [scan_field first whole i j]
          have ended : (before ++ textName ++ [61] ++ (textValue ++ []))[(before ++ textName ++
              [61]).length + textValue.length]? = none := by
            rw [List.append_nil, ← List.length_append]
            exact List.getElem?_eq_none (Nat.le_refl _)
          refine ⟨_, Loop.run_return (round_end ended), by simp [form], Nat.le_add_right _ _, ?_⟩
          have longer : (before ++ textName ++ [61]).length <
              (before ++ textName ++ [61]).length + textValue.length ↔ textValue ≠ [] := by
            rw [Nat.lt_add_right_iff_pos, List.length_pos_iff]
          dsimp only
          rw [substr_between]
          exact if_congr (and_congr_right' longer) rfl rfl
      | @cons second other more others next_decodes rest =>
          have whole : d.body = before ++ (name ++ 61 :: (value ++ 38 :: form (second :: more))) :=
            body
          rw [scan_field first whole i j]
          have here : (before ++ textName ++ [61] ++
              (textValue ++ 38 :: form (second :: more)))[(before ++
              textName ++ [61]).length + textValue.length]? = some 38 := by
            rw [← List.append_assoc, ← List.length_append]
            exact char_here 38
          rw [run_round (round_and here), substr_between]
          have joined : before ++ textName ++ [61] ++ (textValue ++ 38 :: form (second :: more)) =
              (before ++ textName ++ [61] ++ textValue ++ [38]) ++ form (second :: more) := by simp
          have place : (before ++ textName ++ [61]).length + textValue.length + 1 =
              (before ++ textName ++ [61] ++ textValue ++ [38]).length := by
            simp
            omega
          obtain ⟨last, runs, done, order, fields⟩ := ih (d := ⟨_, _, _, textName, _⟩)
            (List.cons_ne_nil _ _) joined place place
          refine ⟨last, runs, done.trans (by simp [form]), order, fields⟩

end Fields

/-- The whole form is scanned from its start. -/
theorem read_form {fields texts : List (Bytes × Bytes)}
    (decodes : List.Forall₂ Decodes fields texts)
    (r : HttpRequest) (body : r.body = form fields) (some_field : fields ≠ []) :
    r.parseFromUrlencoded = .ok { r with body := form texts, post := stored texts r.post } := by
  have filled : r.body.length ≠ 0 := by
    rw [body]
    exact List.length_eq_zero_iff.not.mpr (form_ne_nil some_field)
  obtain ⟨last, runs, done, order, fields⟩ := scan_fields (d := ⟨r.body, 0, 0, [], r.post⟩) decodes
    some_field (show r.body = [] ++ form fields from body) rfl rfl
  unfold parseFromUrlencoded
  rw [if_neg filled, runs]
  dsimp only
  rw [if_pos order, fields, done]
  rfl

theorem stored_append (front : List (Bytes × Bytes)) (name value : Bytes)
    (post : Bytes → Option Bytes) :
    stored (front ++ [(name, value)]) post = if putFields post front name = none ∧ value ≠ [] then
      Function.update (putFields post front) name (some value) else putFields post front := by
  induction front generalizing post with
  | nil => rfl
  | cons field front ih =>
      rw [show putFields post (field :: front) =
        putFields (Function.update post field.1 (some field.2)) front from rfl, ← ih]
      cases front with
      | nil => rfl
      | cons => rfl

/-- A form is read back field by field, with the escapes left in, but the last field only when it
has a value and its name is new. -/
theorem form_fields {fields front : List (Bytes × Bytes)} {name value : Bytes}
    (decodes : List.Forall₂ Decodes fields (front ++ [(name, value)])) (r : HttpRequest)
    (body : r.body = form fields) : ∃ after, r.parseFromUrlencoded = .ok after ∧
      after.body = form (front ++ [(name, value)]) ∧
      after.post = if putFields r.post front name = none ∧ value ≠ [] then
        Function.update (putFields r.post front) name (some value) else putFields r.post front := by
  have some_field : fields ≠ [] := by
    rintro rfl
    cases front with
    | nil => cases decodes
    | cons => cases decodes
  exact ⟨_, read_form decodes r body some_field, rfl, stored_append front name value r.post⟩

/-- `%41` is left as it is but for the two digits. -/
theorem form_fields_one : ∃ after,
    parseFromUrlencoded { init with body := form [([97], [98]), ([99], [37, 52, 49])] } =
        .ok after ∧
      after.body = form ([([97], [98])] ++ [([99], [37, 136, 49])]) ∧
      after.post = if putFields init.post [([97], [98])] [99] = none ∧ [37, 136, 49] ≠ [] then
        Function.update (putFields init.post [([97], [98])]) [99] (some [37, 136, 49])
        else putFields init.post [([97], [98])] :=
  have first : Decodes ([97], [98]) ([97], [98]) := ⟨by decide, by decide⟩
  have second : Decodes ([99], [37, 52, 49]) ([99], [37, 136, 49]) := ⟨by decide, by decide⟩
  form_fields (.cons first (.cons second .nil)) _ rfl

section Outside
variable {d next : Decoding}

theorem drop_here {bytes : Bytes} {i : Nat} {ch : UInt8} (here : bytes[i]? = some ch) :
    bytes.drop i = ch :: bytes.drop (i + 1) := by
  obtain ⟨inside, same⟩ := List.getElem?_eq_some_iff.mp here
  rw [List.drop_eq_getElem_cons inside, same]

theorem ends_in_escape_skip {high low : UInt8} {more : Bytes} :
    endsInEscape (37 :: high :: low :: more) = endsInEscape more := by
  rw [endsInEscape.eq_def]
  exact if_pos rfl

theorem ends_in_escape_other {ch : UInt8} (percent : ch ≠ 37) (rest : Bytes) :
    endsInEscape (ch :: rest) = endsInEscape rest := by
  rw [endsInEscape.eq_def]
  exact if_neg percent

/-- What a round leaves to be read ends in an escape if what it found did. -/
theorem round_again (round : decodeRound d = .inl next) (order : d.j ≤ d.i) : next.j ≤ next.i ∧
    endsInEscape (next.body.drop next.i) = endsInEscape (d.body.drop d.i) := by
  unfold decodeRound at round
  split at round
  · cases round
  · next ch here =>
      split_ifs at round with equals plus percent ampersand
      · cases round
        refine ⟨Nat.le_refl _, ?_⟩
        rw [drop_here here, equals, ends_in_escape_other (by decide)]
      · cases round
        refine ⟨Nat.le_succ_of_le order, ?_⟩
        dsimp only
        rw [drop_here here, plus, ends_in_escape_other (by decide),
          List.drop_set_of_lt (Nat.lt_succ_self _)]
      · split at round
        · next high low first second =>
            cases round
            refine ⟨order.trans (Nat.le_add_right _ _), ?_⟩
            dsimp only
            rw [drop_here here, drop_here first, drop_here second, percent, ends_in_escape_skip,
              List.drop_set_of_lt (by omega), List.drop_set_of_lt (by omega)]
        · cases round
      · cases round
        refine ⟨Nat.le_refl _, ?_⟩
        rw [drop_here here, ampersand, ends_in_escape_other (by decide)]
      · cases round
        refine ⟨Nat.le_succ_of_le order, ?_⟩
        rw [drop_here here, ends_in_escape_other percent]

theorem round_returned {value : Except Fault Decoding} (round : decodeRound d = .inr value) :
    if endsInEscape (d.body.drop d.i) = true then value = .error .outside else value = .ok d := by
  unfold decodeRound at round
  split at round
  · next ended =>
      cases round
      rw [List.drop_eq_nil_of_le (List.getElem?_eq_none_iff.mp ended)]
      rfl
  · next ch here =>
      split_ifs at round with equals plus percent ampersand
      split at round
      · cases round
      · next short =>
          cases round
          have cuts : endsInEscape (d.body.drop d.i) = true := by
            rw [drop_here here, percent, endsInEscape.eq_def]
            refine (if_pos rfl).trans ?_
            cases rest : d.body.drop (d.i + 1) with
            | nil => rfl
            | cons high tail =>
                cases tail with
                | nil => rfl
                | cons low more =>
                    have first : d.body[d.i + 1]? = some high := by
                      rw [← List.head?_drop, rest]
                      rfl
                    have second : d.body[d.i + 2]? = some low := by
                      rw [← List.head?_drop, show d.i + 2 =
                        d.i + 1 + 1 from rfl, ← List.drop_drop, rest]
                      rfl
                    exact (short high low first second).elim
          rw [if_pos cuts]

def Decoded (d : Decoding) (value : Except Fault Decoding) : Prop :=
  if endsInEscape (d.body.drop d.i) = true then value = .error .outside
  else ∃ last, value = .ok last ∧ last.j ≤ last.i

theorem decode_outside (d : Decoding) (order : d.j ≤ d.i) : Decoded d (decode d) := by
  revert order
  refine Loop.run_induction (motive := fun d value => d.j ≤ d.i → Decoded d value) ?_ ?_ d
  · intro d next value round later order
    obtain ⟨still, same⟩ := round_again round order
    unfold Decoded
    rw [← same]
    exact later still
  · intro d value round order
    have returned := round_returned round
    unfold Decoded
    split_ifs at returned ⊢ with cuts
    · exact returned
    · exact ⟨d, returned, order⟩

/-- The form is read and written past its end exactly when it ends within an escape; no other
fault and no failing assertion is possible. -/
theorem form_outside (r : HttpRequest) :
    (r.parseFromUrlencoded = .error .outside ↔ endsInEscape r.body = true) ∧
    (endsInEscape r.body = false → ∃ body post,
      r.parseFromUrlencoded = .ok { r with body := body, post := post }) := by
  by_cases empty : r.body.length = 0
  · have none : r.body = [] := List.eq_nil_of_length_eq_zero empty
    have returns : r.parseFromUrlencoded = .ok r := if_pos empty
    rw [returns, none]
    exact ⟨iff_of_false nofun nofun, fun _ => ⟨_, _, rfl⟩⟩
  · have outcome := decode_outside ⟨r.body, 0, 0, [], r.post⟩ (Nat.le_refl 0)
    unfold Decoded at outcome
    rw [show Decoding.body ⟨r.body, 0, 0, [], r.post⟩ = r.body from rfl, List.drop_zero] at outcome
    unfold parseFromUrlencoded
    rw [if_neg empty]
    split_ifs at outcome with cuts
    · rw [outcome, cuts]
      exact ⟨iff_of_true rfl rfl, nofun⟩
    · obtain ⟨last, runs, order⟩ := outcome
      rw [runs]
      dsimp only
      rw [if_pos order]
      exact ⟨iff_of_false nofun cuts, fun _ => ⟨_, _, rfl⟩⟩

end Outside

end StudyWebServer.WebServer.HttpRequest
