import LoxLang.CommandLine

/-!
# The program

Reads what an invocation needs from the system and writes what comes out of it. All that is decided is decided
in `LoxLang.CommandLine`; only the prompt is driven from here, so that each answer is shown before the next
line is read.
-/

namespace LoxLang.CommandLine

/-- Asks the system for a file. -/
def readFile (path : String) : IO FileContent := do
  try
    return .bytes (← IO.FS.readBinFile path).toList
  catch
    | .noFileOrDirectory .. => return .missing
    | _ => return .directory

/-- Asks the system for all files that an invocation may read. -/
def readFiles (args : List String) : IO Files := do
  let contents ← (paths args).mapM fun path => return (path, ← readFile path)
  return fun path => (contents.lookup path).getD .missing

/-- Reads a line byte by byte, without its line end. Without a result, the input has ended. -/
partial def readLine (input : IO.FS.Stream) (line : Array UInt8) : IO (Option (List UInt8)) := do
  match (← input.read 1).toList with
  | [] => return if line.isEmpty then none else some line.toList
  | 10 :: _ => return some line.toList
  | b :: _ =>
    if lineLimit ≤ line.size then return some line.toList else readLine input (line.push b)

/-- Writes what a line has shown. -/
def emit (t : Transcript) : IO Unit := do
  IO.print t.stdout
  IO.eprint t.stderr

/-- Answers line after line until the input ends. -/
partial def converse (colored : Bool) (s : Session) : IO UInt32 := do
  IO.print promptMark
  (← IO.getStdout).flush
  match ← readLine (← IO.getStdin) #[] with
  | none =>
    IO.println ""
    return 0
  | some line =>
    if lineLimit ≤ line.length then
      emit { stdout := "\n", stderr := lineTooLong }
      return 74
    match answer Run.ample colored s line with
    | some (shown, s) =>
      emit shown
      converse colored s
    | none => return 70

/-- Runs one invocation and yields its exit code. -/
def invoke (args : List String) : IO UInt32 := do
  let files ← readFiles args
  let terminal ← (← IO.getStderr).isTty
  match plan files args with
  | .prompt s => converse (usesColor terminal s) (Session.start (some s.options) Session.freshStore)
  | _ =>
    match run Run.ample files terminal [] args with
    | some result =>
      emit { stdout := result.stdout, stderr := result.stderr }
      return result.exit.toUInt32
    | none => return 70

end LoxLang.CommandLine

/-- The entry point of the program. -/
def main (args : List String) : IO UInt32 := LoxLang.CommandLine.invoke args
