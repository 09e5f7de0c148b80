import LoxLang.Parse.Basic
import LoxLang.Placement
import LoxLang.Run.Fault
import LoxLang.Token.Scan

/-!
# Diagnostics

What a run has to say when it does not succeed, whatever the stage: lexical, syntax and placement
errors, run-time errors, several errors at once, or a failure of the system around it. A diagnostic has
a text, falls into categories, and determines the exit code of a run. Several errors together have
the texts and the categories of all of them.

Main statement: `anyIsA_eq_any`, that several errors are in a category if one of them is.
-/

namespace LoxLang

/-- Why a run did not succeed. -/
inductive Diagnostic where
  | lexical (line : Int) (message : String)
  | syntactic (line : Int) (place message : String)
  | semantic (token : Token) (message : String)
  | runtime (token : Token) (message : String) (overflow : Bool) (trace : List Frame)
  | several (members : List Diagnostic)
  | system (message : String)

/-- What diagnostics can be asked for. -/
inductive Category where
  | lexical | syntactic | semantic | runtime | stackOverflow
  deriving DecidableEq, Repr

/-- The name of a category. -/
def Category.name : Category → String
  | .lexical => "lex error"
  | .syntactic => "syntax error"
  | .semantic => "semantic error"
  | .runtime => "runtime error"
  | .stackOverflow => "stack overflow"

/-- All categories. -/
def Category.all : List Category := [.lexical, .syntactic, .semantic, .runtime, .stackOverflow]

/-- A lexical error as a diagnostic. -/
def LexicalError.diagnostic (e : LexicalError) : Diagnostic := .lexical e.line e.problem.message

/-- A syntax error as a diagnostic. -/
def SyntaxError.diagnostic (e : SyntaxError) : Diagnostic :=
  .syntactic e.token.line e.place e.problem.message

/-- A misplaced construct as a diagnostic. -/
def PlacementError.diagnostic (e : PlacementError) : Diagnostic :=
  .semantic e.token e.problem.message

/-- A run-time error as a diagnostic. -/
def RuntimeError.diagnostic (e : RuntimeError) : Diagnostic :=
  .runtime e.token e.fault.message (e.fault == .stackOverflow) e.trace

namespace Diagnostic

/-- A line number in brackets. -/
def lineText (line : Int) : String := "[line " ++ toString line ++ "]"

mutual

/-- The text of a diagnostic. -/
def text : Diagnostic → String
  | .lexical line message => lineText line ++ " Error: " ++ message
  | .syntactic line place message => lineText line ++ " Error" ++ place ++ ": " ++ message
  | .semantic token message =>
    lineText token.line ++ " Error at '" ++ token.lexeme ++ "': " ++ message
  | .runtime token message _ _ => message ++ "\n" ++ lineText token.line
  | .several members => String.intercalate "\n" (texts members)
  | .system message => message

/-- The texts of several diagnostics. -/
def texts : List Diagnostic → List String
  | [] => []
  | d :: ds => d.text :: texts ds

end

mutual

/-- Whether a diagnostic falls into a category. -/
def isA (category : Category) : Diagnostic → Bool
  | .lexical _ _ => category == .lexical
  | .syntactic _ _ _ => category == .syntactic
  | .semantic _ _ => category == .semantic
  | .runtime _ _ overflow _ => category == .runtime || (overflow && category == .stackOverflow)
  | .several members => anyIsA category members
  | .system _ => false

/-- Whether one of several diagnostics falls into a category. -/
def anyIsA (category : Category) : List Diagnostic → Bool
  | [] => false
  | d :: ds => isA category d || anyIsA category ds

end

/-- The categories of a diagnostic. -/
def categories (d : Diagnostic) : List Category := Category.all.filter fun c => isA c d

/-- The exit code of a run that ended with a diagnostic, or without one. -/
def exitCode : Option Diagnostic → Nat
  | none => 0
  | some d =>
    if isA .runtime d then 70
    else if isA .lexical d || isA .syntactic d || isA .semantic d then 65
    else 74

theorem anyIsA_eq_any (category : Category) (ds : List Diagnostic) :
    anyIsA category ds = ds.any (isA category) := by
  induction ds with
  | nil => rfl
  | cons d ds ih => simp [anyIsA, ih]

end Diagnostic

end LoxLang
