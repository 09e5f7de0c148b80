import LoxLang.CommandLine.Prompt
import LoxLang.CommandLine.Settings
import LoxLang.Config.Document
import LoxLang.Tree.Dump

/-!
# Invocations

An invocation runs a script, lists its tokens or its tree, or starts a prompt. All that it needs from the
system is handed in: the files, the standard input, and whether diagnostics go to a terminal that can show
colours; and so is how arguments and settings files are read. What comes out is an exit code and the two
output streams.
-/

namespace LoxLang.CommandLine

/-- How to invoke the program. -/
def usage : String :=
  "usage: glox [-h] [-t | -a] [-n] [-T] [-c config.yml] [-d depth] [script]\n" ++
  "\n" ++
  "Runs script, or starts an interactive prompt when no script is given.\n" ++
  "\n" ++
  "  -a          print the syntax tree instead of running\n" ++
  "  -c file     load options from a YAML file\n" ++
  "  -d depth    maximum call depth\n" ++
  "  -h          show this help\n" ++
  "  -n          disable colored diagnostics\n" ++
  "  -t          print the tokens instead of running\n" ++
  "  -T          print a call trace on runtime errors\n"

/-- What an invocation leaves behind. -/
structure Result where
  exit : Nat
  stdout : String := ""
  stderr : String := ""

/-- A message of the program about itself. -/
def complaint (message : String) : String := "glox: " ++ message ++ "\n"

/-- The end of an invocation that never started. -/
def Stop.result {ε : Type} [Config.DecodeError ε] : Stop ε → Result
  | .badFlag message => { exit := 64, stderr := complaint message ++ usage }
  | .badConfig path e => { exit := 74, stderr := complaint (e.message path) }
  | .badDepth =>
    { exit := 64
      stderr := complaint ("invalid -d parameter, expected 1 to " ++ toString Options.depthLimit) }
  | .help => { exit := 0, stdout := usage }

/-- Lists the tokens of a source. -/
def listTokens (colored : Bool) (source : List Char) : Result :=
  let scanned := scan source
  let listing := scanned.tokens.foldl (fun text t => text ++ t.text ++ "\n") ""
  if scanned.errors.isEmpty then { exit := 0, stdout := listing }
  else
    { exit := 65
      stdout := listing
      stderr := (Diagnostic.several (scanned.errors.map (·.diagnostic))).report colored }

/-- Lists the tree of a source. -/
def listTree (colored : Bool) (source : List Char) : Result :=
  match compile source with
  | .ok program => { exit := 0, stdout := dumpProgram program }
  | .error errors => { exit := 65, stderr := (Diagnostic.several errors).report colored }

/-- Runs a source. -/
def runSource (fuel : Nat) (colored : Bool) (options : Options) (source : List Char) :
    Option Result :=
  ((Session.start (some options) Session.freshStore).run fuel source).map fun (step, _) =>
    { exit := Diagnostic.exitCode step.error
      stdout := step.output
      stderr := Diagnostic.reportOption colored step.error }

/-- Does with a script what was asked for. -/
def runScript (fuel : Nat) (colored : Bool) (s : Settings) (path : String) (content : FileContent) :
    Option Result :=
  match content.read path with
  | .error message => some { exit := 74, stderr := complaint message }
  | .ok bytes =>
    let source := Text.decode bytes
    if s.dumpTokens then some (listTokens colored source)
    else if s.dumpTree then some (listTree colored source)
    else runSource fuel colored s.options source

/-- What an invocation is about to do, once its arguments are understood. -/
inductive Plan where
  | stop (result : Result)
  | script (settings : Settings) (path : String)
  | prompt (settings : Settings)

/-- How an invocation reads its arguments and its settings files. -/
structure Readers (ε : Type) where
  /-- arguments as flags and operands, or the words for what is wrong with them -/
  split : List String → Except String (List Flag × List String)
  /-- the content of a settings file -/
  decode : Config.Decoder ε

/-- Whether diagnostics are coloured: only for a terminal, and only if wanted. -/
def usesColor (terminal : Bool) (s : Settings) : Bool := s.options.color && terminal

namespace Readers

variable {ε : Type} [Config.DecodeError ε] (r : Readers ε)

/-- What to do once settings and operands are known. -/
def planFor (s : Settings) : List String → Plan
  | [] =>
    if s.dumpTokens || s.dumpTree then
      .stop { exit := 64, stderr := complaint "-t and -a need a script" ++ usage }
    else .prompt s
  | [path] => .script s path
  | _ => .stop { exit := 64, stderr := usage }

/-- Understands the arguments of an invocation. -/
def plan (files : Files) (args : List String) : Plan :=
  match r.split args with
  | .error message => .stop (Stop.badFlag message : Stop ε).result
  | .ok (given, operands) =>
    match settings r.decode files given with
    | .error stop => .stop stop.result
    | .ok s => planFor s operands

/-- A whole invocation. Without a result, the allowance of steps was used up. -/
def run (fuel : Nat) (files : Files) (terminal : Bool) (stdin : List UInt8) (args : List String) :
    Option Result :=
  match r.plan files args with
  | .stop result => some result
  | .script s path => runScript fuel (usesColor terminal s) s path (files path)
  | .prompt s =>
    (prompt fuel (usesColor terminal s) (Session.start (some s.options) Session.freshStore) {}
        (inputLines stdin)).map
      fun (exit, t) => { exit, stdout := t.stdout, stderr := t.stderr }

/-- The paths that an invocation may read. -/
def paths (args : List String) : List String :=
  match r.split args with
  | .error _ => []
  | .ok (given, operands) =>
    (given.filterMap fun
      | .config path => some path
      | _ => none) ++ operands

end Readers

/-- The readers of the program. -/
def readers : Readers Config.DocumentError where
  split args := (flags args).mapError FlagError.message
  decode := Config.decode

/-- Understands the arguments of an invocation of the program. -/
def plan (files : Files) (args : List String) : Plan := readers.plan files args

/-- A whole invocation of the program. -/
def run (fuel : Nat) (files : Files) (terminal : Bool) (stdin : List UInt8) (args : List String) :
    Option Result :=
  readers.run fuel files terminal stdin args

/-- The paths that an invocation of the program may read. -/
def paths (args : List String) : List String := readers.paths args

end LoxLang.CommandLine
