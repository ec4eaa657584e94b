import StudyWebServer.Homework.Dispatch
import Mathlib.Logic.Relation

/-!
client.c and server.c of homework, and the connection between them. The bytes of
either direction come in order; how many of them a read takes is up to the
connection. Where a program leaves C behind and may live through it, whether it
does is up to the system. What is printed, and the variable `count` of server.c,
is left out.
-/

namespace StudyWebServer.Homework

open ByteMemory CString

def maxLine : Nat := 1024

inductive ClientAt where
  | running
  | closed
  /-- killed, or behind a store outside of its arrays that it has not lived through -/
  | undefined
  deriving DecidableEq

inductive ServerAt where
  | serving
  | accepting
  | stopped
  deriving DecidableEq

section Client

/-- What the client has in sendBuf of a line that fgets has read. -/
def sendBuf (line : List UInt8) : List UInt8 :=
  let text := cString line
  if text.getLast? = some newline then text.dropLast else text

/-- `strncmp(sendBuf, "quit", strlen(sendBuf)) == 0` -/
def quits (text : List UInt8) : Bool := strncmpEq text (ascii "quit") text.length

end Client

section Server

structure World where
  output : List UInt8
  block : Memory
  /-- the string of a result that leaves the block, if the server lives through that -/
  beyond : Option (List UInt8)
  cwd : Option (List UInt8)
  /-- free lives through an address that malloc did not return -/
  frees : Bool
  sends : Bool
  /-- the server lives through a NUL stored behind buf -/
  harmless : Bool

/-- The string that run_cmd("ls") returns. -/
def runCmd (world : World) : Option (List UInt8) :=
  let filled := runCmdFilling world.block world.output
  let string := cstr filled.data dataSize 0
  if filled.Inside dataSize ∧ string.length < dataSize then some string else world.beyond

structure Answer where
  bytes : List UInt8
  server : ServerAt

/-- A send whose failure makes main return. -/
def respond (world : World) (bytes : List UInt8) : Answer :=
  if world.sends then ⟨bytes, .serving⟩ else ⟨[], .stopped⟩

def Command.answer (world : World) : Command → Answer
  | .ls =>
      match runCmd world with
      | none => ⟨[], .stopped⟩
      | some result => respond world result
  | .pwd =>
      match world.cwd with
      -- strlen of a null pointer
      | none => ⟨[], .stopped⟩
      -- free gets the address of buf
      | some path =>
          if world.frees then respond world path else ⟨(respond world path).bytes, .stopped⟩
  -- no copy of this length ends
  | .cd _ none => ⟨[], .stopped⟩
  | .cd _ (some _) => ⟨[], .serving⟩
  | .unknown => respond world (ascii "error: unknow input type")

end Server

structure Link where
  client : ClientAt
  wire : List UInt8
  answers : List UInt8
  server : ServerAt
  typed : List (List UInt8)
  /-- the commands the server has taken out of its reads -/
  dispatched : List (List UInt8)

inductive Action where
  /-- fgets returns a line, with its newline if that fits -/
  | type (line : List UInt8)
  /-- the client reads `n` bytes, or the end of the stream; a NUL stored behind
  recvBuf is harmless or not -/
  | display (n : Nat) (harmless : Bool)
  | read (n : Nat) (world : World)
  | readEnd
  /-- the connection was reset -/
  | readFails

namespace Link

def start : Link where
  client := .running
  wire := []
  answers := []
  server := .serving
  typed := []
  dispatched := []

def type (l : Link) (line : List UInt8) : Link :=
  let text := sendBuf line
  -- strlen(sendBuf) - 1 is no index
  if cString line = [] then { l with client := .undefined }
  else if quits text then
    -- write comes behind the shutdown, and SIGPIPE ends the client
    { l with
      client := .closed
      typed := l.typed ++ [text] }
  else
    { l with
      wire := l.wire ++ text
      typed := l.typed ++ [text] }

def display (l : Link) (n : Nat) (harmless : Bool) : Link :=
  { l with
    answers := l.answers.drop n
    client :=
      if n = 0 then .closed
      else if n = maxLine ∧ harmless = false then .undefined
      else l.client }

def read (l : Link) (n : Nat) (world : World) : Link :=
  let message := l.wire.take n
  let answer := (commandOf message).answer world
  -- buf[n] = 0
  if n = bufSize ∧ world.harmless = false then
    { l with
      wire := l.wire.drop n
      server := .stopped }
  else
    { l with
      wire := l.wire.drop n
      answers := l.answers ++ answer.bytes
      server := answer.server
      dispatched := l.dispatched ++ [cString (received message)] }

def step (l : Link) : Action → Option Link
  | .type line =>
      if l.client = .running ∧ line ≠ [] ∧ line.length < maxLine ∧ newline ∉ line.dropLast then
        some (l.type line)
      else none
  | .display n harmless =>
      if l.client = .running ∧ n ≤ maxLine ∧ n ≤ l.answers.length ∧
          (n = 0 → l.answers = [] ∧ l.server ≠ .serving) then
        some (l.display n harmless)
      else none
  | .read n world =>
      if l.server = .serving ∧ 0 < n ∧ n ≤ bufSize ∧ n ≤ l.wire.length then
        some (l.read n world)
      else none
  | .readEnd =>
      if l.server = .serving ∧ l.wire = [] ∧ l.client ≠ .running then
        some { l with server := .accepting }
      else none
  | .readFails =>
      -- n is -1, and no index of buf either
      if l.server = .serving ∧ l.client ≠ .running then some { l with server := .stopped } else none

def Reached (allowed : Link → Action → Prop) (l : Link) : Prop :=
  Relation.ReflTransGen
    (fun before after => ∃ action, allowed before action ∧ before.step action = some after) start l

end Link

end StudyWebServer.Homework
