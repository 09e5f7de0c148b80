import LoxLang.Diagnostic

/-!
# Reports

A diagnostic as it is shown to a person: a line for each error, and after a run-time error a line for each
active call. In colour, static errors are red, run-time errors yellow, and the calls faint; the
line end comes after the colour has been taken back.
-/

namespace LoxLang.Diagnostic

/-- Escape sequences to put around a text. -/
structure Paint where
  on : String
  off : String

def Paint.red : Paint := ⟨"\x1b[31m", "\x1b[0m"⟩

def Paint.yellow : Paint := ⟨"\x1b[33m", "\x1b[0m"⟩

def Paint.faint : Paint := ⟨"\x1b[2m", "\x1b[22m"⟩

/-- A text as a line of its own, painted if wanted. -/
def paintLine (colored : Bool) (paint : Paint) (text : String) : String :=
  (if colored then paint.on ++ text ++ paint.off else text) ++ "\n"

/-- The lines of a report, put together. -/
def join (lines : List String) : String := lines.foldl (· ++ ·) ""

/-- The report of a diagnostic. -/
def report (colored : Bool) : Diagnostic → String
  | .several members => join ((texts members).map (paintLine colored .red))
  | .runtime token message overflow trace =>
    paintLine colored .yellow (text (.runtime token message overflow trace)) ++
      join (trace.map fun frame => paintLine colored .faint ("    " ++ frame.text))
  | d => paintLine colored .red d.text

/-- The report of a run: none if it succeeded. -/
def reportOption (colored : Bool) : Option Diagnostic → String
  | none => ""
  | some d => d.report colored

end LoxLang.Diagnostic
