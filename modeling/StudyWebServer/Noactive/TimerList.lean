import StudyWebServer.Library.LinkedList
import StudyWebServer.Library.Loop

/-!
The timer list of noactive/lst_timer.h, in webserver and in lesson05. A call that
follows a null pointer or one to a deleted timer has no result, nor has one whose
loop is not through after the rounds it is given. The printf of tick() is left out.
-/

namespace StudyWebServer

open LinkedList

/-- What a util_timer holds besides its links. -/
structure Task (Callback User : Type) where
  expire : Int
  cbFunc : Callback
  userData : User
  deriving DecidableEq

/-- The call `cb_func(user_data)`. -/
def Task.call {Callback User : Type} (task : Task Callback User) : Callback × User :=
  (task.cbFunc, task.userData)

abbrev UtilTimer (Callback User : Type) := Cell Nat (Task Callback User)

structure SortTimerLst (Callback User : Type) where
  head : Option Nat
  tail : Option Nat
  heap : Store Nat (Task Callback User)

namespace SortTimerLst
variable {Callback User : Type}

def empty : SortTimerLst Callback User := ⟨none, none, fun _ => none⟩

section Pointers
variable (lst : SortTimerLst Callback User) (timer : Nat)

/-- `new util_timer`, with the members that its creator sets. -/
def create (task : Task Callback User) : SortTimerLst Callback User :=
  { lst with heap := lst.heap.create timer task }

def delete : Option (SortTimerLst Callback User) :=
  if (lst.heap timer).isSome then some { lst with heap := lst.heap.delete timer } else none

def setPrev (prev : Option Nat) : Option (SortTimerLst Callback User) :=
  if (lst.heap timer).isSome then some { lst with heap := lst.heap.setPrev timer prev } else none

def setNext (next : Option Nat) : Option (SortTimerLst Callback User) :=
  if (lst.heap timer).isSome then some { lst with heap := lst.heap.setNext timer next } else none

/-- `timer->expire = expire` -/
def setExpire (expire : Int) : Option (SortTimerLst Callback User) := do
  let cell ← lst.heap timer
  some { lst with heap := lst.heap.setData timer { cell.data with expire := expire } }

end Pointers

/-- The statements in which the two copies of the file differ: how the private
add_timer links a timer in front of `tmp`, and how adjust_timer takes one out that
is not the first. -/
structure Source (Callback User : Type) where
  splice : (timer prev tmp : Nat) → SortTimerLst Callback User →
    Option (SortTimerLst Callback User)
  unlink : (timer : Nat) → SortTimerLst Callback User → Option (SortTimerLst Callback User)

/-- Both copies of del_timer take a timer out of the middle like this. -/
def unlink (timer : Nat) (lst : SortTimerLst Callback User) :
    Option (SortTimerLst Callback User) := do
  let cell ← lst.heap timer
  let prev ← cell.prev
  let lst ← lst.setNext prev cell.next
  let cell ← lst.heap timer
  let next ← cell.next
  lst.setPrev next cell.prev

/-- webserver/noactive/lst_timer.h -/
def webserver : Source Callback User where
  splice timer prev tmp lst := do
    let lst ← lst.setNext prev (some timer)
    let lst ← lst.setNext timer (some tmp)
    let lst ← lst.setPrev tmp (some timer)
    lst.setPrev timer (some prev)
  unlink := unlink

/-- lesson05/noactive/lst_timer.h: `tmp->next` is set where `tmp->prev` was meant,
and `timer->next->next` where `timer->next->prev` was. -/
def lesson05 : Source Callback User where
  splice timer prev tmp lst := do
    let lst ← lst.setNext prev (some timer)
    let lst ← lst.setNext timer (some tmp)
    let lst ← lst.setNext tmp (some timer)
    lst.setPrev timer (some prev)
  unlink timer lst := do
    let cell ← lst.heap timer
    let prev ← cell.prev
    let lst ← lst.setNext prev cell.next
    let cell ← lst.heap timer
    let next ← cell.next
    lst.setNext next cell.prev

/-- The statements behind the loop of the private add_timer. -/
def addLast (timer prev : Nat) (lst : SortTimerLst Callback User) :
    Option (SortTimerLst Callback User) := do
  let lst ← lst.setNext prev (some timer)
  let lst ← lst.setPrev timer (some prev)
  let lst ← lst.setNext timer none
  some { lst with tail := some timer }

/-- The variables of the private add_timer. -/
structure Walk where
  prev : Nat
  tmp : Option Nat

section Source
variable (source : Source Callback User) (rounds : Nat)

def walkRound (timer : Nat) (lst : SortTimerLst Callback User) (walk : Walk) :
    Walk ⊕ Option (SortTimerLst Callback User) :=
  match walk.tmp with
  | none => .inr (addLast timer walk.prev lst)
  | some tmp =>
      match lst.heap timer, lst.heap tmp with
      | some cell, some behind =>
          if cell.data.expire < behind.data.expire then .inr (source.splice timer walk.prev tmp lst)
          else .inl ⟨tmp, behind.next⟩
      | _, _ => .inr none

/-- The private add_timer, behind `lst_head`. -/
def addTimerBehind (timer lstHead : Nat) (lst : SortTimerLst Callback User) :
    Option (SortTimerLst Callback User) := do
  let cell ← lst.heap lstHead
  let done ← Loop.attempt (walkRound source timer lst) rounds ⟨lstHead, cell.next⟩
  done

def addTimer (timer : Option Nat) (lst : SortTimerLst Callback User) :
    Option (SortTimerLst Callback User) :=
  match timer with
  | none => some lst
  | some timer =>
      match lst.head with
      | none => some { lst with head := some timer, tail := some timer }
      | some head => do
          let cell ← lst.heap timer
          let front ← lst.heap head
          if cell.data.expire < front.data.expire then
            let lst ← lst.setNext timer (some head)
            let lst ← lst.setPrev head (some timer)
            some { lst with head := some timer }
          else lst.addTimerBehind source rounds timer head

def adjustTimer (timer : Option Nat) (lst : SortTimerLst Callback User) :
    Option (SortTimerLst Callback User) :=
  match timer with
  | none => some lst
  | some timer => do
      let cell ← lst.heap timer
      match cell.next with
      | none => some lst
      | some tmp =>
          let behind ← lst.heap tmp
          if cell.data.expire < behind.data.expire then some lst
          else if lst.head = some timer then
            -- the new head is timer->next
            let lst ← { lst with head := some tmp }.setPrev tmp none
            let lst ← lst.setNext timer none
            lst.addTimerBehind source rounds timer tmp
          else
            let lst ← source.unlink timer lst
            let cell ← lst.heap timer
            let lstHead ← cell.next
            lst.addTimerBehind source rounds timer lstHead

/-- What the server does with a timer whose client sent something. -/
def postpone (timer : Nat) (expire : Int) (lst : SortTimerLst Callback User) :
    Option (SortTimerLst Callback User) := do
  let lst ← lst.setExpire timer expire
  lst.adjustTimer source rounds (some timer)

end Source

def delTimer (timer : Option Nat) (lst : SortTimerLst Callback User) :
    Option (SortTimerLst Callback User) :=
  match timer with
  | none => some lst
  | some timer =>
      if lst.head = some timer ∧ lst.tail = some timer then do
        let lst ← lst.delete timer
        some { lst with head := none, tail := none }
      else if lst.head = some timer then do
        let cell ← lst.heap timer
        let head ← cell.next
        let lst ← { lst with head := some head }.setPrev head none
        lst.delete timer
      else if lst.tail = some timer then do
        let cell ← lst.heap timer
        let tail ← cell.prev
        let lst ← { lst with tail := some tail }.setNext tail none
        lst.delete timer
      else do
        let lst ← lst.unlink timer
        lst.delete timer

/-- The list in tick(), its variable `tmp`, and the calls of cb_func so far. -/
structure Ticking (Callback User : Type) where
  lst : SortTimerLst Callback User
  tmp : Option Nat
  calls : List (Callback × User)

structure Ticked (Callback User : Type) where
  lst : SortTimerLst Callback User
  calls : List (Callback × User)

/-- The timer at the head leaves the list. -/
def dropHead (timer : Nat) (next : Option Nat) (lst : SortTimerLst Callback User) :
    Option (SortTimerLst Callback User) := do
  let lst := { lst with head := next }
  let lst ← match next with
    | none => some lst
    | some head => lst.setPrev head none
  lst.delete timer

def tickRound (cur : Int) (loop : Ticking Callback User) :
    Ticking Callback User ⊕ Option (Ticked Callback User) :=
  match loop.tmp with
  | none => .inr (some ⟨loop.lst, loop.calls⟩)
  | some tmp =>
      match loop.lst.heap tmp with
      | none => .inr none
      | some cell =>
          if cur < cell.data.expire then .inr (some ⟨loop.lst, loop.calls⟩)
          else
            match loop.lst.dropHead tmp cell.next with
            | none => .inr none
            | some lst => .inl ⟨lst, lst.head, loop.calls ++ [cell.data.call]⟩

/-- `cur` is what time() answers. -/
def tick (rounds : Nat) (cur : Int) (lst : SortTimerLst Callback User) :
    Option (Ticked Callback User) := do
  let done ← Loop.attempt (tickRound cur) rounds ⟨lst, lst.head, []⟩
  done

/-- The loop of the destructor, over head, in which `tmp` is always head again. -/
def destroyRound (lst : SortTimerLst Callback User) :
    SortTimerLst Callback User ⊕ Option (SortTimerLst Callback User) :=
  match lst.head with
  | none => .inr (some lst)
  | some tmp =>
      match lst.heap tmp with
      | none => .inr none
      | some cell =>
          let lst := { lst with head := cell.next }
          match lst.delete tmp with
          | none => .inr none
          | some lst => .inl lst

def destroy (rounds : Nat) (lst : SortTimerLst Callback User) :
    Option (SortTimerLst Callback User) := do
  let done ← Loop.attempt destroyRound rounds lst
  done

end SortTimerLst

end StudyWebServer
