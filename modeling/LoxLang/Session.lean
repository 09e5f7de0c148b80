import LoxLang.Diagnostic
import LoxLang.File
import LoxLang.Parse
import LoxLang.Run.Evaluate
import LoxLang.Text.Utf8

/-!
# Sessions

A session runs one source after another; what one of them declares, the next ones see. A source is
compiled first: only a source without lexical, syntax and placement errors runs at all, and
one with any of them changes nothing.

Main statement: `run_of_compile_error`, the last of these.
-/

namespace LoxLang

/-- The program of a source, or all errors of the first stage that finds any. The scanner and the
parser are one stage: both always have their say. -/
def compile (source : List Char) : Except (List Diagnostic) (List Stmt) :=
  let scanned := scan source
  let parsed := parse scanned.tokens
  let errors := scanned.errors.map (·.diagnostic) ++ parsed.errors.map (·.diagnostic)
  if errors.isEmpty then
    let misplaced := placementErrors parsed.statements
    if misplaced.isEmpty then .ok parsed.statements else .error (misplaced.map (·.diagnostic))
  else .error errors

/-- What one run in a session shows. -/
structure Step where
  output : String
  error : Option Diagnostic

/-- The options and the state that the runs of a session share. -/
structure Session where
  options : Options
  state : RunState

namespace Session

/-- The outermost scope, which all runs of a session share. -/
def globals : ScopeId := 0

/-- A store with nothing but the outermost scope. -/
def freshStore : Store := (({} : Store).newScope none).2

/-- A session with these options, or the usual ones, that starts from a store. -/
def start (options : Option Options) (store : Store) : Session :=
  { options := (options.getD {}).normalized, state := { store } }

/-- Runs a program and takes what it printed. Without a result, the allowance was used up. -/
def interpret (fuel : Nat) (s : Session) (program : List Stmt) : Option (Step × Session) :=
  match Run.program s.options fuel globals program { s.state with output := "" } with
  | .done _ state => some ({ output := state.output, error := none }, { s with state })
  | .failed e state =>
    some ({ output := state.output, error := some e.diagnostic }, { s with state })
  | .exhausted => none

/-- A step that did not get to run. -/
def refuse (s : Session) (d : Diagnostic) : Step × Session := ({ output := "", error := some d }, s)

/-- Compiles a source and runs it. -/
def run (fuel : Nat) (s : Session) (source : List Char) : Option (Step × Session) :=
  match compile source with
  | .ok program => s.interpret fuel program
  | .error errors => some (s.refuse (.several errors))

/-- Runs a file. -/
def runFile (fuel : Nat) (s : Session) (path : String) (content : FileContent) :
    Option (Step × Session) :=
  match content.read path with
  | .ok bytes => s.run fuel (Text.decode bytes)
  | .error message => some (s.refuse (.system message))

/-- A source that does not compile leaves the session as it was. -/
theorem run_of_compile_error {source : List Char} {errors : List Diagnostic}
    (h : compile source = .error errors) (fuel : Nat) (s : Session) :
    s.run fuel source = some ({ output := "", error := some (.several errors) }, s) := by
  simp [run, h, refuse]

end Session

end LoxLang
