import StudyWebServer.Homework.CommandLink

/-!
Where one command ends and the next begins. The client sends no mark for it, and
the server takes what a read gives it as one command.
-/

namespace StudyWebServer.Homework

open CString

/-- A line with a command, as fgets returns it. -/
def IsCommand (line : List UInt8) : Prop :=
  ∃ text, line = text ++ [newline] ∧ text ≠ [] ∧ 0 ∉ text ∧ newline ∉ text ∧
    text.length < bufSize ∧ text ≠ ascii "quit"

/-- The lines that are typed are commands. -/
def Commands (_ : Link) : Action → Prop
  | .type line => IsCommand line
  | _ => True

/-- The server has dispatched what was typed, but for what is still on its way to a
server that reads. -/
def Agree (l : Link) : Prop :=
  l.dispatched <+: l.typed ∧ (l.wire = [] ∨ l.server ≠ .serving → l.dispatched = l.typed)

/-- The server is there after this command. -/
def Survived (world : World) (text : List UInt8) : Prop :=
  (text <+: ascii "ls" → (runCmd world).isSome = true) ∧
    (text <+: ascii "pwd" → world.cwd.isSome = true ∧ world.frees = true) ∧
    text ≠ ascii "cd" ∧ world.sends = true

/-- A command is no beginning of quit and there is a server for it; a read takes the
bytes of one command, which leaves the server in place unless it is the last. -/
def Framed (l : Link) : Action → Prop
  | .type line => IsCommand line ∧ ¬ sendBuf line <+: ascii "quit" ∧ l.server = .serving
  | .display n harmless => n < maxLine ∨ harmless = true
  | .read n world => ∃ text, l.typed[l.dispatched.length]? = some text ∧ l.wire.take n = text ∧
      (Survived world text ∨ l.typed.length = l.dispatched.length + 1)
  | .readEnd | .readFails => True

/-- What has not been dispatched is on its way, and one command is not cut. -/
structure InStep (l : Link) : Prop where
  order : ∃ pending, l.typed = l.dispatched ++ pending ∧
    (l.server = .serving → l.wire = pending.flatten) ∧ (l.server ≠ .serving → pending = [])
  client : l.server = .serving → l.client = .running
  commands : ∀ text ∈ l.typed, text ≠ [] ∧ 0 ∉ text ∧ text.length < bufSize

section Programs
variable {text : List UInt8}

/-- fgets leaves the newline in the buffer, and the client takes it out. -/
theorem send_buf_command {line : List UInt8} (clean : (0 : UInt8) ∉ text)
    (line_eq : line = text ++ [newline]) : cString line = line ∧ sendBuf line = text := by
  have whole : cString line = line := by
    apply c_string_whole
    rw [line_eq, List.mem_append, List.mem_singleton, not_or]
    exact ⟨clean, by decide⟩
  refine ⟨whole, ?_⟩
  unfold sendBuf
  rw [whole, line_eq]
  simp only [List.getLast?_concat, ↓reduceIte, List.dropLast_concat]

theorem respond_serves (world : World) (bytes : List UInt8) :
    (respond world bytes).server = .serving ↔ world.sends = true := by
  unfold respond
  split_ifs with sends
  · exact iff_of_true rfl sends
  · exact iff_of_false (fun same => by cases same) sends

/-- The server goes on exactly behind the commands that it survives. -/
theorem survived_iff (world : World) (some : text ≠ []) (clean : (0 : UInt8) ∉ text)
    (short : text.length < bufSize) :
    ((commandOf text).answer world).server = .serving ↔ Survived world text := by
  rw [command_of_message clean short]
  unfold Survived
  by_cases ls : text <+: ascii "ls"
  · -- no command begins both ls and another one
    have others : ¬ text <+: ascii "pwd" ∧ text ≠ ascii "cd" := by
      rcases (prefix_ls some).mp ls with rfl | rfl <;> decide
    rw [if_pos ls]
    cases result : runCmd world with
    | none => simp [Command.answer, result, ls]
    | some string => simp [Command.answer, result, others, respond_serves]
  rw [if_neg ls]
  by_cases pwd : text <+: ascii "pwd"
  · have other : text ≠ ascii "cd" := by
      rintro rfl
      exact absurd pwd (by decide)
    rw [if_pos pwd]
    cases path : world.cwd with
    | none => simp [Command.answer, path, pwd]
    | some bytes => cases frees : world.frees <;>
        simp [Command.answer, path, frees, ls, pwd, other, respond_serves]
  rw [if_neg pwd]
  by_cases cd : text = ascii "cd"
  · simp [Command.answer, cd]
  · simp [Command.answer, ls, pwd, cd, respond_serves]

end Programs

section Runs
variable {l before after : Link}

theorem InStep.agree (inStep : InStep l) : Agree l := by
  obtain ⟨pending, typed, serves, stopped⟩ := inStep.order
  refine ⟨⟨pending, typed.symm⟩, fun through => ?_⟩
  -- commands are not empty, so without bytes on the way there are none
  have none : pending = [] := by
    by_cases serving : l.server = .serving
    · rw [List.eq_nil_iff_forall_not_mem]
      intro text member
      have some := (inStep.commands text (by simp [typed, member])).1
      have wire := through.resolve_right (not_not_intro serving)
      rw [serves serving, List.flatten_eq_nil_iff] at wire
      exact some (wire text member)
    · exact stopped serving
  rw [typed, none, List.append_nil]

theorem InStep.type {line : List UInt8} (inStep : InStep l) (framed : Framed l (.type line)) :
    InStep (l.type line) := by
  obtain ⟨⟨text, line_eq, some, clean, -, short, -⟩, goes_on, serving⟩ := framed
  obtain ⟨whole, buffer⟩ := send_buf_command clean line_eq
  rw [buffer] at goes_on
  have written : l.type line = { l with
      wire := l.wire ++ text
      typed := l.typed ++ [text] } := by
    have filled : cString line ≠ [] := by
      rw [whole, line_eq]
      exact List.concat_ne_nil _ _
    have stays : ¬ quits text = true := fun compared => goes_on (strncmp_length_iff.mp compared)
    simp only [Link.type, buffer, if_neg filled, if_neg stays]
  obtain ⟨pending, typed, serves, -⟩ := inStep.order
  rw [written]
  refine ⟨⟨pending ++ [text], ?_, fun _ => ?_, fun stopped => absurd serving stopped⟩,
    inStep.client, ?_⟩
  · simp only [typed, List.append_assoc]
  · simp [serves serving]
  · intro other member
    rcases List.mem_append.mp member with earlier | last
    · exact inStep.commands other earlier
    · rw [List.mem_singleton.mp last]
      exact ⟨some, clean, short⟩

theorem InStep.read {n : Nat} {world : World} (inStep : InStep l) (serving : l.server = .serving)
    (there : n ≤ l.wire.length) (framed : Framed l (.read n world)) :
    InStep (l.read n world) := by
  obtain ⟨text, next, taken, stays⟩ := framed
  obtain ⟨pending, typed, serves, -⟩ := inStep.order
  -- the oldest command on its way is the one that was read
  obtain ⟨rest, rfl⟩ : ∃ rest, pending = text :: rest := by
    rw [typed, List.getElem?_append_right (Nat.le_refl _), Nat.sub_self] at next
    exact ⟨pending.tail, (List.cons_head?_tail (by simpa [List.head?_eq_getElem?] using next)).symm⟩
  obtain ⟨some, clean, short⟩ := inStep.commands text (by simp [typed])
  have length : text.length = n := by
    rw [← taken, List.length_take, Nat.min_eq_left there]
  have left : l.wire.drop n = rest.flatten := by
    rw [serves serving, List.flatten_cons, ← length, List.drop_left]
  have inside : ¬ (n = bufSize ∧ world.harmless = false) := by omega
  have reads : l.read n world = { l with
      wire := rest.flatten
      answers := l.answers ++ ((commandOf text).answer world).bytes
      server := ((commandOf text).answer world).server
      dispatched := l.dispatched ++ [text] } := by
    simp only [Link.read, if_neg inside, taken, c_string_received clean short, left]
  rw [reads]
  refine ⟨⟨rest, ?_, fun _ => rfl, fun stopped => ?_⟩, fun _ => inStep.client serving,
    inStep.commands⟩
  · simp only [typed, List.append_assoc, List.cons_append, List.nil_append]
  -- a server that stops has taken the last command
  · rcases stays with survived | last
    · exact absurd ((survived_iff world some clean short).mpr survived) stopped
    · rw [typed, List.length_append, List.length_cons] at last
      exact List.length_eq_zero_iff.mp (by omega)

theorem step_in_step {action : Action} (inStep : InStep before) (framed : Framed before action)
    (step : before.step action = some after) : InStep after := by
  cases action with
  | type line =>
      simp only [Link.step] at step
      split_ifs at step
      cases step
      exact inStep.type framed
  | display n harmless =>
      simp only [Link.step] at step
      split_ifs at step with shown
      cases step
      obtain ⟨running, -, -, ended⟩ := shown
      refine ⟨inStep.order, fun serving => ?_, inStep.commands⟩
      have some : n ≠ 0 := fun none => (ended none).2 serving
      have lives : ¬ (n = maxLine ∧ harmless = false) := by
        rintro ⟨full, harms⟩
        rcases framed with short | unharmed
        · exact Nat.ne_of_lt short full
        · rw [harms] at unharmed
          cases unharmed
      simp only [Link.display, if_neg some, if_neg lives]
      exact running
  | read n world =>
      simp only [Link.step] at step
      split_ifs at step with called
      cases step
      exact inStep.read called.1 called.2.2.2 framed
  | readEnd =>
      simp only [Link.step] at step
      split_ifs at step with called
      exact absurd (inStep.client called.1) called.2.2
  | readFails =>
      simp only [Link.step] at step
      split_ifs at step with called
      exact absurd (inStep.client called.1) called.2

theorem start_in_step : InStep .start :=
  ⟨⟨[], rfl, fun _ => rfl, fun _ => rfl⟩, fun _ => rfl, fun text member => by cases member⟩

/-- As long as every read takes one command, and no command ends the client or leaves
others without a server, the server dispatches what was typed. -/
theorem dispatched_as_typed (reached : Link.Reached Framed l) : Agree l := by
  have inStep : InStep l := by
    induction reached with
    | refl => exact start_in_step
    | tail _ last ih =>
        obtain ⟨action, framed, step⟩ := last
        exact step_in_step ih framed step
  exact inStep.agree

/-- A server that can always send and lives through free, in an empty directory. -/
def quiet : World where
  output := []
  block _ := 0
  beyond := none
  cwd := some (ascii "/")
  frees := true
  sends := true
  harmless := true

theorem survived_pwd : Survived quiet (ascii "pwd") :=
  ⟨fun begins => absurd begins (by decide), fun _ => ⟨rfl, rfl⟩, by decide, rfl⟩

/-- pwd and date typed at once; the server lives through free and takes date as well. -/
theorem dispatched_as_typed_pwd :
    ∃ l : Link, l.dispatched = [ascii "pwd", ascii "date"] ∧ l.server = .serving ∧ Agree l :=
  ⟨_, rfl, rfl, dispatched_as_typed (.tail (.tail (.tail (.tail .refl
    ⟨.type (ascii "pwd" ++ [newline]),
      ⟨⟨ascii "pwd", rfl, by decide, by decide, by decide, by decide, by decide⟩, by decide, rfl⟩,
      rfl⟩)
    ⟨.type (ascii "date" ++ [newline]),
      ⟨⟨ascii "date", rfl, by decide, by decide, by decide, by decide, by decide⟩, by decide, rfl⟩,
      rfl⟩)
    ⟨.read 3 quiet, ⟨ascii "pwd", rfl, rfl, .inl survived_pwd⟩, rfl⟩)
    ⟨.read 4 quiet, ⟨ascii "date", rfl, rfl, .inr rfl⟩, rfl⟩)⟩

/-- ls and pwd, which arrive in one read. -/
theorem commands_coalesced : ¬ ∀ l, Link.Reached Commands l → Agree l := by
  intro agree
  have together : ∃ l : Link, Link.Reached Commands l ∧ l.wire = [] ∧
      l.typed = [ascii "ls", ascii "pwd"] ∧ l.dispatched = [ascii "lspwd"] :=
    ⟨_, .tail (.tail (.tail .refl ⟨.type (ascii "ls" ++ [newline]), ⟨ascii "ls", rfl, by decide,
      by decide, by decide, by decide, by decide⟩, rfl⟩) ⟨.type (ascii "pwd" ++ [newline]),
      ⟨ascii "pwd", rfl, by decide, by decide, by decide, by decide, by decide⟩, rfl⟩)
      ⟨.read 5 quiet, trivial, rfl⟩, rfl, rfl, rfl⟩
  obtain ⟨l, reached, wire, typed, dispatched⟩ := together
  have same := (agree l reached).2 (.inl wire)
  rw [typed, dispatched] at same
  exact absurd same (by decide)

end Runs

end StudyWebServer.Homework
