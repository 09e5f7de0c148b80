import LoxLang.Options
import LoxLang.Run.Fault
import LoxLang.Store

/-!
# Computations of a running program

A computation takes the state of a run and ends with a result, with an error, or not within its allowance of
steps. The first two leave a state: the store, the active calls and what has been printed.

Main statements: `run_bind`, how two computations follow each other, and `run_assign`, what assigning
does to the store.
-/

namespace LoxLang

/-- The state of a run. Of the active calls, the innermost is the last. -/
structure RunState where
  store : Store
  frames : Array Frame := #[]
  output : String := ""

/-- How a computation ends. -/
inductive Outcome (α : Type) where
  | done (value : α) (state : RunState)
  | failed (error : RuntimeError) (state : RunState)
  | exhausted

/-- A computation of a running program. -/
def Run (α : Type) := RunState → Outcome α

namespace Run

@[inline] protected def pure (a : α) : Run α := fun s => .done a s

@[inline] protected def bind (m : Run α) (f : α → Run β) : Run β := fun s =>
  match m s with
  | .done a s => f a s
  | .failed e s => .failed e s
  | .exhausted => .exhausted

instance : Monad Run where
  pure := Run.pure
  bind := Run.bind

/-- Gives up for want of steps. -/
def exhausted : Run α := fun _ => .exhausted

/-- Ends with an error. -/
def fail (token : Token) (fault : Fault) : Run α := fun s => .failed { token, fault } s

/-- Reads something off the store. -/
@[inline] def read (f : Store → α) : Run α := fun s => .done (f s.store) s

/-- Changes the store. -/
@[inline] def change (f : Store → Store) : Run Unit := fun s =>
  .done () { s with store := f s.store }

/-- Makes something in the store. -/
@[inline] def make (f : Store → α × Store) : Run α := fun s =>
  let (a, store) := f s.store
  .done a { s with store }

/-- Prints a line. -/
def print (text : String) : Run Unit := fun s =>
  .done () { s with output := s.output ++ text ++ "\n" }

/-- The value of a variable. -/
def lookup (scope : ScopeId) (name : Token) : Run Value := fun s =>
  match s.store.lookup? scope name.lexeme with
  | some v => .done v s
  | none => .failed { token := name, fault := .undefinedVariable name.lexeme } s

/-- Assigns to a variable, where it is bound. -/
def assign (scope : ScopeId) (name : Token) (value : Value) : Run Unit := fun s =>
  match s.store.holder? scope name.lexeme with
  | some holder => .done () { s with store := s.store.define holder name.lexeme value }
  | none => .failed { token := name, fault := .undefinedVariable name.lexeme } s

/-- Runs a computation as a call: one more call is active while it runs, and an error that comes out
of it takes the active calls along if traces are on. -/
def within (o : Options) (frame : Frame) (m : Run α) : Run α := fun s =>
  match m { s with frames := s.frames.push frame } with
  | .done a s => .done a { s with frames := s.frames.pop }
  | .failed e s =>
    .failed (if o.trace then e.traced s.frames.toList.reverse else e)
      { s with frames := s.frames.pop }
  | .exhausted => .exhausted

/-- Refuses a call if as many as allowed are active. -/
def guardDepth (o : Options) (paren : Token) : Run Unit := fun s =>
  if o.allowsCall s.frames.size then .done () s
  else .failed { token := paren, fault := .stackOverflow } s

theorem run_pure (a : α) (s : RunState) : (pure a : Run α) s = .done a s := rfl

theorem run_bind (m : Run α) (f : α → Run β) (s : RunState) :
    (m >>= f) s =
      match m s with
      | .done a s => f a s
      | .failed e s => .failed e s
      | .exhausted => .exhausted := rfl

/-- Assigning is the store's assignment, and fails where the store refuses. -/
theorem run_assign (scope : ScopeId) (name : Token) (value : Value) (s : RunState) :
    assign scope name value s =
      match s.store.assign? scope name.lexeme value with
      | some store => .done () { s with store }
      | none => .failed { token := name, fault := .undefinedVariable name.lexeme } s := by
  unfold assign Store.assign?
  cases s.store.holder? scope name.lexeme <;> rfl

end Run

end LoxLang
