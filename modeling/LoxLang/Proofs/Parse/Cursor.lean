import LoxLang.Parse

/-!
# Parsing over a cursor

The parsers of this language as they work their way along a list of tokens that stays as it is. A cursor
says where they are. A token is looked at by its index, and to look where there is none is a crash;
every loop and every recursion counts down what it is allowed and gives up at zero. What becomes of
the cursor is recorded from the start, and so are the declarations that have failed.

Main definition: `Descent`, a way along tokens on which the parsers are those of `Parse`.
-/

namespace LoxLang

/-- A call for a declaration that has failed, by the indices at which the cursor was. -/
structure Failure where
  start : Nat
  stuck : Nat
  resumed : Nat
  deriving DecidableEq, Repr

namespace Descent

/-- A moment on the way. -/
inductive Event where
  /-- the cursor is at an index -/
  | stands (cursor : Nat)
  /-- the token before the cursor is looked at -/
  | looksBack (cursor : Nat)
  /-- a call for a declaration has failed, and reading goes on -/
  | fails (failure : Failure)
  /-- a call for a declaration has begun at one index and come back at another -/
  | declares (start stop : Nat)
  deriving DecidableEq, Repr

/-- The failure of a declaration, if the moment is one. -/
def Event.failure? : Event → Option Failure
  | .fails failure => some failure
  | .stands _ => none
  | .looksBack _ => none
  | .declares _ _ => none

/-- Where a parser is, the errors it has reported, and all that has happened. -/
structure State where
  cursor : Nat
  errors : List SyntaxError
  events : List Event

/-- How a parser ends. -/
inductive Answer (α : Type) where
  | done (value : α) (state : State)
  | failed (state : State)
  /-- an index was not one of a token -/
  | crashed
  | exhausted

end Descent

open Descent

/-- A parser over a cursor into a list of tokens. -/
def Descent (α : Type) := List Token → State → Answer α

namespace Descent

@[inline] protected def pure (a : α) : Descent α := fun _ s => .done a s

@[inline] protected def bind (m : Descent α) (f : α → Descent β) : Descent β := fun slice s =>
  match m slice s with
  | .done a s => f a slice s
  | .failed s => .failed s
  | .crashed => .crashed
  | .exhausted => .exhausted

instance : Monad Descent where
  pure := Descent.pure
  bind := Descent.bind

/-! ### The cursor -/

/-- Where a parser begins. -/
def State.start : State := { cursor := 0, errors := [], events := [.stands 0] }

def State.record (s : State) (event : Event) : State := { s with events := s.events ++ [event] }

/-- The declarations that have failed, in the order in which they did. A call that fails comes after those
that have failed within it. -/
def State.failures (s : State) : List Failure := s.events.filterMap Event.failure?

/-- Gives up for want of rounds. -/
protected def exhausted : Descent α := fun _ _ => .exhausted

def position : Descent Nat := fun _ s => .done s.cursor s

/-- The token at the cursor. -/
protected def peek : Descent Token := fun slice s =>
  match slice[s.cursor]? with
  | some t => .done t s
  | none => .crashed

/-- The token before the cursor. -/
def previous : Descent Token := fun slice s =>
  match s.cursor with
  | 0 => .crashed
  | i + 1 =>
    match slice[i]? with
    | some t => .done t (s.record (.looksBack (i + 1)))
    | none => .crashed

protected def atEnd : Descent Bool := do return (← Descent.peek).isEof

/-- Moves the cursor by one token. -/
def move : Descent Unit := fun _ s =>
  .done () ({ s with cursor := s.cursor + 1 }.record (.stands (s.cursor + 1)))

/-- Passes over the token at the cursor, unless that ends the program. -/
protected def advance : Descent Token := do
  if ← Descent.atEnd then previous
  else
    move
    previous

/-! ### Recovery -/

/-- Passes over tokens up to a boundary of statements. -/
def boundary : Nat → Descent Unit
  | 0 => Descent.exhausted
  | n + 1 => do
    if ← Descent.atEnd then return ()
    else if (← previous).kind == .semicolon then return ()
    else if Parse.startsStatement (← Descent.peek).kind then return ()
    else
      let _ ← Descent.advance
      boundary n

/-- Passes over tokens up to a boundary of statements, and over one token at least since `start`. -/
def synchronize (n start : Nat) : Descent Unit := do
  if (← position) = start then
    let _ ← Descent.advance
  boundary n

protected def recovering (n : Nat) (m : Descent α) : Descent (Option α) := fun slice s =>
  match m slice s with
  | .done a t => .done (some a) (t.record (.declares s.cursor t.cursor))
  | .failed t =>
    match synchronize n s.cursor slice t with
    | .done _ u =>
      let failure := { start := s.cursor, stuck := t.cursor, resumed := u.cursor }
      .done none ((u.record (.fails failure)).record (.declares s.cursor u.cursor))
    | .failed u => .failed u
    | .crashed => .crashed
    | .exhausted => .exhausted
  | .crashed => .crashed
  | .exhausted => .exhausted

instance : Parse Descent where
  peek := Descent.peek
  atEnd := Descent.atEnd
  advance := Descent.advance
  report error _ s := .done () { s with errors := s.errors ++ [error] }
  fail _ s := .failed s
  exhausted := Descent.exhausted
  recovering := Descent.recovering

/-! ### Parsers in sequence -/

theorem run_bind (m : Descent α) (f : α → Descent β) (slice : List Token) (s : State) :
    (m >>= f) slice s =
      match m slice s with
      | .done a s => f a slice s
      | .failed s => .failed s
      | .crashed => .crashed
      | .exhausted => .exhausted := rfl

theorem bind_of_done {m : Descent α} {slice : List Token} {s t : State} {a : α}
    (h : m slice s = .done a t) (f : α → Descent β) : (m >>= f) slice s = f a slice t := by
  rw [run_bind, h]

theorem bind_of_crashed {m : Descent α} {slice : List Token} {s : State} (h : m slice s = .crashed)
    (f : α → Descent β) : (m >>= f) slice s = .crashed := by
  rw [run_bind, h]

@[simp] theorem later_eq (m : Unit → Descent α) : Parse.later m = m () := rfl

theorem recovering_eq (n : Nat) (m : Descent α) : Parse.recovering n m = Descent.recovering n m := rfl

/-! ### Tokens to start with -/

/-- The tokens that a parser goes along: those given, and an end token after them unless the last one
is an end token. -/
def slice (tokens : List Token) : List Token :=
  if (tokens.getLast?.map (·.isEof)).getD false then tokens
  else tokens ++ [Parse.impliedEnd tokens]

end Descent

end LoxLang
