import LoxLang.Diagnostic.Report
import LoxLang.Session

/-!
# The prompt

Without a script, a session reads its input line by line and runs each line; errors end the line and not the
session. A mark comes before every line, and a line end after the last one. The return that
some systems put at the end of a line does not count as part of it. A line must be shorter than
`lineLimit` bytes: a longer one ends the session.
-/

namespace LoxLang.CommandLine

/-- What an invocation has written so far. -/
structure Transcript where
  stdout : String := ""
  stderr : String := ""

/-- The number of bytes at which a line is too long. -/
def lineLimit : Nat := 65536

/-- A line without the return at its end. -/
def dropReturn (line : List UInt8) : List UInt8 :=
  if line.getLast? = some 13 then line.dropLast else line

/-- The lines of an input, each with its return; the last one need not be ended. -/
def inputLines (input : List UInt8) : List (List UInt8) :=
  let lines := input.splitOn 10
  if lines.getLast? = some [] then lines.dropLast else lines

/-- The mark before a line. -/
def promptMark : String := "> "

/-- The words for a line that is too long. -/
def lineTooLong : String := "glox: bufio.Scanner: token too long\n"

/-- Runs one line: what it printed, what it reported, and the session after it. -/
def answer (fuel : Nat) (colored : Bool) (s : Session) (line : List UInt8) :
    Option (Transcript × Session) :=
  (s.run fuel (Text.decode (dropReturn line))).map fun (step, s) =>
    ({ stdout := step.output, stderr := Diagnostic.reportOption colored step.error }, s)

/-- Runs line after line, and yields the exit code. -/
def prompt (fuel : Nat) (colored : Bool) (s : Session) (t : Transcript) :
    List (List UInt8) → Option (Nat × Transcript)
  | [] => some (0, { t with stdout := t.stdout ++ promptMark ++ "\n" })
  | line :: lines =>
    if lineLimit ≤ line.length then
      some (74, { stdout := t.stdout ++ promptMark ++ "\n", stderr := t.stderr ++ lineTooLong })
    else
      match answer fuel colored s line with
      | some (shown, s) =>
        prompt fuel colored s
          { stdout := t.stdout ++ promptMark ++ shown.stdout, stderr := t.stderr ++ shown.stderr }
          lines
      | none => none

end LoxLang.CommandLine
