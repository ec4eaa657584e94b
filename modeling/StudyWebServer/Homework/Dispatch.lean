import StudyWebServer.Homework.RunCmd
import Mathlib.Data.List.Infix

/-!
Which command the main of server.c takes a message for, and what it copies into
`target`. A message is what one read puts into the cleared buffer.
-/

namespace StudyWebServer.Homework

open CString

/-- The size of `buf` in server.c. -/
def bufSize : Nat := 256

def targetSize : Nat := 256

/-- How many values a size_t has. -/
def sizeValues : Nat := 18446744073709551616

inductive Command where
  | ls
  | pwd
  /-- the length for memcpy, and what chdir gets if the copy stays inside of `target` -/
  | cd (count : Nat) (target : Option (List UInt8))
  /-- the error text -/
  | unknown
  deriving DecidableEq

/-- `buf` behind bzero, read and `buf[n] = 0`. -/
def received (message : List UInt8) : List UInt8 :=
  message ++ List.replicate (bufSize - message.length) 0

/-- `strlen(buf) - 3` -/
def copyCount (text : List UInt8) : Nat := (sizeValues + text.length - 3) % sizeValues

/-- The string in `target` behind bzero and `memcpy(target, buf + 3, count)`. -/
def copied (buf : List UInt8) (count : Nat) : Option (List UInt8) :=
  if count ≤ targetSize then
    some (cString ((buf.drop 3).take count ++ List.replicate (targetSize - count) 0))
  else none

/-- The tests of main, in their order, on `n` bytes in `buf`. -/
def dispatch (n : Nat) (buf : List UInt8) : Command :=
  let text := cString buf
  if strncmpEq text (ascii "ls") n then .ls
  else if strncmpEq text (ascii "pwd") n then .pwd
  else if strncmpEq text (ascii "cd") 3 then .cd (copyCount text) (copied buf (copyCount text))
  else .unknown

/-- What a message is dispatched to. -/
def commandOf (message : List UInt8) : Command := dispatch message.length (received message)

/-- The message asks to change to this directory. -/
def ChangesTo (message path : List UInt8) : Prop := path ≠ [] ∧ message = ascii "cd " ++ path

/-- The message is taken for the command it is, and a copy stays inside of `target`. -/
structure Dispatches (message : List UInt8) : Prop where
  ls : commandOf message = .ls ↔ message = ascii "ls"
  pwd : commandOf message = .pwd ↔ message = ascii "pwd"
  cd : ∀ path, (∃ count, commandOf message = .cd count (some path)) ↔ ChangesTo message path
  unknown : commandOf message = .unknown ↔
    message ≠ ascii "ls" ∧ message ≠ ascii "pwd" ∧ ∀ path, ¬ ChangesTo message path
  fits : ∀ count target, commandOf message = .cd count target → count ≤ targetSize

section Dispatch
variable {message path : List UInt8}

theorem c_string_received (clean : (0 : UInt8) ∉ message) (short : message.length < bufSize) :
    cString (received message) = message := by
  obtain ⟨more, room⟩ := Nat.exists_eq_add_of_lt short
  have ends : received message = message ++ 0 :: List.replicate more 0 := by
    rw [received, room, show message.length + more + 1 - message.length = more + 1 by omega]
    rfl
  have kept (byte : UInt8) (member : byte ∈ message) : (byte != 0) = true := by
    rw [bne_iff_ne]
    rintro rfl
    exact clean member
  rw [ends, cString, List.takeWhile_append_of_pos kept]
  simp

/-- The third byte that is compared is the NUL behind cd. -/
theorem cd_alone (compared : strncmpEq message (ascii "cd") 3 = true) : message = ascii "cd" := by
  have same : message.take 3 = ascii "cd" := by
    rw [strncmpEq, beq_iff_eq] at compared
    exact compared.trans (by decide)
  have length := congrArg List.length same
  rw [List.length_take, show (ascii "cd").length = 2 from by decide] at length
  rw [← same, List.take_of_length_le (by omega)]

theorem cd_iff : strncmpEq message (ascii "cd") 3 = true ↔ message = ascii "cd" :=
  ⟨cd_alone, fun same => by rw [same]; decide⟩

/-- strlen(buf) - 3 is less than zero. -/
theorem copy_count_cd : copyCount (ascii "cd") = sizeValues - 1 := by decide

theorem copied_cd (buf : List UInt8) : copied buf (copyCount (ascii "cd")) = none := by
  rw [copied, copy_count_cd, if_neg (by decide)]

/-- The dispatch, by what the comparisons mean for a message. -/
theorem command_of_message (clean : (0 : UInt8) ∉ message) (short : message.length < bufSize) :
    commandOf message =
      if message <+: ascii "ls" then .ls
      else if message <+: ascii "pwd" then .pwd
      else if message = ascii "cd" then .cd (sizeValues - 1) none
      else .unknown := by
  rw [commandOf, dispatch, c_string_received clean short]
  simp only [strncmp_length_iff, cd_iff]
  split_ifs with ls pwd cd
  · rfl
  · rfl
  · rw [cd, copied_cd, copy_count_cd]
  · rfl

/-- The messages that the comparison takes for ls. -/
theorem prefix_ls (some : message ≠ []) :
    message <+: ascii "ls" ↔ message = ascii "l" ∨ message = ascii "ls" := by
  rw [← List.mem_inits, show (ascii "ls").inits = [[], ascii "l", ascii "ls"] from rfl]
  simp [some]

theorem prefix_pwd (some : message ≠ []) :
    message <+: ascii "pwd" ↔
      message = ascii "p" ∨ message = ascii "pw" ∨ message = ascii "pwd" := by
  rw [← List.mem_inits,
    show (ascii "pwd").inits = [[], ascii "p", ascii "pw", ascii "pwd"] from rfl]
  simp [some]

/-- chdir is not called on anything. -/
theorem never_changes (clean : (0 : UInt8) ∉ message) (short : message.length < bufSize)
    (count : Nat) : commandOf message ≠ .cd count (some path) := by
  rw [command_of_message clean short]
  split_ifs <;> exact fun same => by cases same

/-- The commands for which there is a comparison that says what it should, or no
comparison at all. -/
theorem dispatches_plain (clean : (0 : UInt8) ∉ message) (short : message.length < bufSize)
    (some : message ≠ []) (plain : message ∉ [ascii "l", ascii "p", ascii "pw", ascii "cd"])
    (stays : ∀ path, ¬ ChangesTo message path) : Dispatches message := by
  simp only [List.mem_cons, List.not_mem_nil, or_false, not_or] at plain
  obtain ⟨not_l, not_p, not_pw, not_cd⟩ := plain
  have taken := command_of_message clean short
  simp only [prefix_ls some, prefix_pwd some, not_l, not_p, not_pw, not_cd, false_or, if_false]
    at taken
  have apart : ascii "pwd" ≠ ascii "ls" := by decide
  constructor
  · rw [taken]
    split_ifs with ls pwd <;> simp [ls]
  · rw [taken]
    split_ifs with ls pwd
    · simp [ls, apart.symm]
    · simp [pwd]
    · simp [pwd]
  · exact fun path => iff_of_false (fun ⟨count, same⟩ => never_changes clean short count same)
      (stays path)
  · rw [taken]
    split_ifs with ls pwd
    · simp [ls]
    · simp [pwd]
    · simp [ls, pwd, stays]
  · intro count target same
    rw [taken] at same
    split_ifs at same

/-- The dispatch is right exactly for messages other than the beginnings of ls and pwd,
cd alone, and those that ask for a directory. -/
theorem dispatches_iff (some : message ≠ []) (short : message.length < bufSize)
    (clean : (0 : UInt8) ∉ message) :
    Dispatches message ↔ message ∉ [ascii "l", ascii "p", ascii "pw", ascii "cd"] ∧
      ∀ path ≠ [], message ≠ ascii "cd " ++ path := by
  constructor
  · intro right
    refine ⟨fun listed => ?_, fun path long same => ?_⟩
    · have taken := command_of_message clean short
      simp only [List.mem_cons, List.not_mem_nil, or_false] at listed
      rcases listed with l | p | pw | cd
      · have ls := right.ls.mp (taken.trans (if_pos ((prefix_ls some).mpr (.inl l))))
        exact absurd (l.symm.trans ls) (by decide)
      · have not_ls : ¬ message <+: ascii "ls" := by rw [p]; decide
        rw [if_neg not_ls, if_pos ((prefix_pwd some).mpr (.inl p))] at taken
        exact absurd (p.symm.trans (right.pwd.mp taken)) (by decide)
      · have not_ls : ¬ message <+: ascii "ls" := by rw [pw]; decide
        rw [if_neg not_ls, if_pos ((prefix_pwd some).mpr (.inr (.inl pw)))] at taken
        exact absurd (pw.symm.trans (right.pwd.mp taken)) (by decide)
      · have apart : ¬ message <+: ascii "ls" ∧ ¬ message <+: ascii "pwd" := by
          rw [cd]
          decide
        rw [if_neg apart.1, if_neg apart.2, if_pos cd] at taken
        exact absurd (right.fits _ _ taken) (by decide)
    · obtain ⟨count, taken⟩ := (right.cd path).mpr ⟨long, same⟩
      exact never_changes clean short count taken
  · rintro ⟨plain, stays⟩
    exact dispatches_plain clean short some plain fun path changes => stays path changes.1 changes.2

theorem dispatches_iff_quit : Dispatches (ascii "quit") := by
  apply (dispatches_iff (by decide) (by decide) (by decide)).mpr
  refine ⟨by decide, fun path _ same => ?_⟩
  have first := congrArg List.head? same
  rw [List.head?_append, show (ascii "cd ").head? = some 99 from by decide, Option.some_or] at first
  exact absurd first (by decide)

/-- A directory is asked for and the error text comes; a beginning of ls lists; cd
alone copies as many bytes as a size_t can count, but for one. -/
theorem dispatch_misses : commandOf (ascii "cd /") = .unknown ∧ commandOf (ascii "l") = .ls ∧
    commandOf (ascii "cd") = .cd (sizeValues - 1) none ∧ ¬ Dispatches (ascii "cd /") := by
  have unknown : commandOf (ascii "cd /") = .unknown := by
    rw [command_of_message (by decide) (by decide)]
    decide
  refine ⟨unknown, ?_, ?_, fun right => ?_⟩
  · rw [command_of_message (by decide) (by decide)]
    decide
  · rw [command_of_message (by decide) (by decide)]
    decide
  · exact (right.unknown.mp unknown).2.2 (ascii "/") ⟨by decide, by decide⟩

end Dispatch

end StudyWebServer.Homework
