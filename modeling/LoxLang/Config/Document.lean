import LoxLang.Config.Load
import LoxLang.Text.Quoted
import LoxLang.Text.Utf8
import LoxLang.Yaml.Parse

/-!
# Options in a document

Settings are a mapping with the keys `max_call_depth`, `color` and `trace`; what is not set keeps its
usual value, and so does what is set to nothing. All problems of a document are found, in the order in
which they stand: an unknown key, or a value of the wrong type. A key that occurs twice in a mapping is
found before anything else of it is read, and then nothing is. Mappings under a merge key come last and
set only what is not set beside it.
-/

namespace LoxLang.Config

open Yaml

/-- What a node is wanted for. -/
inductive Target where
  | int | bool | options | key

/-- The name of a target in messages. -/
def Target.name : Target → String
  | .int => "int"
  | .bool => "bool"
  | .options => "lox.Options"
  | .key => "string"

/-- A problem with a document that keeps nothing else from being read. -/
inductive Problem where
  | unknownField (line : Nat) (name : String)
  | fieldTwice (line : Nat) (name : String)
  | duplicateKey (line : Nat) (name : String) (first : Nat)
  | wrongCollection (line : Nat) (tag : String) (target : Target)
  | wrongScalar (line : Nat) (tag text : String) (target : Target)

/-- A problem with a document that ends its reading. -/
inductive Refusal where
  | fault (fault : Yaml.Fault)
  | tag (mismatch : TagMismatch)
  | merge
  | cycle (name : String)

/-- A text of more than ten bytes, cut after seven. -/
def abbreviate (text : String) : String :=
  let bytes := text.toUTF8.toList
  if 10 < bytes.length then String.ofList (Text.decode (bytes.take 7)) ++ "..." else text

/-- A line as the beginning of a message. -/
def atLine (line : Nat) (message : String) : String := "line " ++ toString line ++ ": " ++ message

/-- The words for a problem. -/
def Problem.message : Problem → String
  | .unknownField line name =>
    atLine line ("field " ++ name ++ " not found in type " ++ Target.options.name)
  | .fieldTwice line name =>
    atLine line ("field " ++ name ++ " already set in type " ++ Target.options.name)
  | .duplicateKey line name first =>
    atLine line
      ("mapping key " ++ Text.quote name ++ " already defined at line " ++ toString first)
  | .wrongCollection line tag target =>
    atLine line ("cannot unmarshal " ++ tag ++ " into " ++ target.name)
  | .wrongScalar line tag text target =>
    atLine line
      ("cannot unmarshal " ++ tag ++ " `" ++ abbreviate text ++ "` into " ++ target.name)

/-- The words for a refusal. -/
def Refusal.message : Refusal → String
  | .fault f => f.message
  | .tag m => "cannot decode " ++ m.found ++ " `" ++ m.text ++ "` as a " ++ m.wanted
  | .merge => "map merge requires map or sequence of maps as the value"
  | .cycle name => "anchor '" ++ name ++ "' value contains itself"

/-- The keys that occur again after themselves, each with every later occurrence. -/
def duplicates : List Node → List Problem
  | [] => []
  | key :: later =>
    (later.filter (·.keyText == key.keyText)).map
        (fun again => .duplicateKey again.line again.keyText.2 key.line) ++
      duplicates later

/-- The problem of a node with some tag and text. A tag of its own is told with a text, even that of a
collection. -/
def wrong (line : Nat) (tag text : String) (target : Target) : Problem :=
  if tag == Tag.sequence || tag == Tag.mapping then .wrongCollection line tag target
  else .wrongScalar line tag text target

/-- What is found when a node cannot be read as a target. -/
def mismatch (target : Target) : Node → List Problem
  | .scalar line tag text => [wrong line tag text target]
  | .sequence line tag _ => [wrong line tag "" target]
  | .mapping line tag entries =>
    match duplicates (entries.map (·.1)) with
    | [] => [wrong line tag "" target]
    | problems => problems
  | .alias _ _ _ node => mismatch target node

/-- The least number of 64 bits. -/
def minInt : Int := -0x8000000000000000

/-- A floating-point number as a whole one, the fraction dropped. What is too small for 64 bits, or just
too large, becomes the least number. -/
def truncate? (x : Float) : Option Int :=
  if x ≤ 9223372036854775808 then
    if -9223372036854775808 ≤ x && x < 9223372036854775808 then some x.toInt64.toInt else some minInt
  else none

/-- The whole number that a scalar stands for. -/
def intOf? : Scalar → Option Int
  | .int n => if n < Integer.wordLimit then some n else none
  | .float x => truncate? x
  | _ => none

/-- The truth value that a scalar stands for. -/
def boolOf? : Scalar → Option Bool
  | .bool b => some b
  | .string text =>
    if ["y", "Y", "yes", "Yes", "YES", "on", "On", "ON"].contains text then some true
    else if ["n", "N", "no", "No", "NO", "off", "Off", "OFF"].contains text then some false
    else none
  | _ => none

/-- What reading something yields: a result and the problems found, or a refusal. -/
abbrev Loading (α : Type) := Except Refusal (α × List Problem)

/-- What a scalar of the document denotes. -/
def denoted (tag text : String) : Except Refusal Scalar :=
  match resolveAs tag text with
  | .ok s => .ok s
  | .error m => .error (.tag m)

/-- Reads a node as a value of some type; nothing keeps what was there. -/
def readAs (target : Target) (read : Scalar → Option α) (keep : α) : Node → Loading α
  | .scalar line tag text =>
    match denoted tag text with
    | .error e => .error e
    | .ok .null => .ok (keep, [])
    | .ok s =>
      match read s with
      | some a => .ok (a, [])
      | none => .ok (keep, [wrong line tag text target])
  | .alias _ _ _ node => readAs target read keep node
  | node => .ok (keep, mismatch target node)

/-- Reads the name that a key is, if it is one. A key that denotes nothing is passed over. -/
def readKey : Node → Loading (Option String)
  | .scalar _ tag text =>
    match denoted tag text with
    | .error e => .error e
    | .ok .null => .ok (none, [])
    | .ok _ => .ok (some text, [])
  | .alias _ _ _ node => readKey node
  | node => .ok (none, mismatch .key node)

/-- Reads the value of a field. -/
def readField (o : Options) (line : Nat) (name : String) (value : Node) : Loading Options :=
  match name with
  | "max_call_depth" =>
    (readAs .int intOf? o.maxCallDepth value).map fun (n, found) =>
      ({ o with maxCallDepth := n }, found)
  | "color" =>
    (readAs .bool boolOf? o.color value).map fun (b, found) => ({ o with color := b }, found)
  | "trace" =>
    (readAs .bool boolOf? o.trace value).map fun (b, found) => ({ o with trace := b }, found)
  | name => .ok (o, [.unknownField line name])

/-- The settings read so far: their problems, the names of this mapping, and, while mappings are being merged,
the names that are taken. -/
structure Progress where
  options : Options
  problems : List Problem := []
  seen : List String := []
  taken : Option (List String) := none

/-- Takes a name, unless another mapping has it. -/
def Progress.take? (p : Progress) (name : String) : Option Progress :=
  match p.taken with
  | some names => if names.contains name then none else some { p with taken := some (name :: names) }
  | none => some p

/-- Adds problems. -/
def Progress.note (p : Progress) (found : List Problem) : Progress :=
  { p with problems := p.problems ++ found }

/-- The names that are settings. -/
def fieldNames : List String := ["max_call_depth", "color", "trace"]

/-- Reads one entry of the settings that is not a merge. -/
def readEntry (p : Progress) (key value : Node) : Except Refusal Progress := do
  let (name, found) ← readKey key
  match name with
  | none => return p.note found
  | some name =>
    match p.take? name with
    | none => return p
    | some p =>
      if fieldNames.contains name && p.seen.contains name then
        return p.note [.fieldTwice key.line name]
      else
        let (options, found) ← readField p.options key.line name value
        return { p.note found with options, seen := name :: p.seen }

/-- Reads the entries of the settings that are not merges. -/
def readEntries (p : Progress) : List (Node × Node) → Except Refusal Progress
  | [] => .ok p
  | (key, value) :: rest =>
    if key.isMerge then readEntries p rest
    else do readEntries (← readEntry p key value) rest

/-- The text that a key denotes, if it denotes one. -/
def textKey? : Node → Option String
  | .scalar _ tag text =>
    match resolveAs tag text with
    | .ok (.string text) => some text
    | _ => none
  | .alias _ _ _ node => textKey? node
  | _ => none

/-- The value of the merge key. -/
def mergeValue? (entries : List (Node × Node)) : Option Node :=
  (entries.reverse.find? (·.1.isMerge)).map (·.2)

mutual

/-- Reads a mapping as settings. -/
def readMapping : Nat → Progress → List (Node × Node) → Except Refusal Progress
  | 0, p, _ => .ok p
  | n + 1, p, entries =>
    match duplicates (entries.map (·.1)) with
    | [] => do
      let outer := p.seen
      let p ← readEntries { p with seen := [] } entries
      let p := { p with seen := outer }
      match mergeValue? entries with
      | none => return p
      | some value =>
        let before := p.taken
        let taken := before.getD (entries.filterMap fun (key, _) => textKey? key)
        let p ← mergeValue n { p with taken := some taken } value
        return if before.isNone then { p with taken := none } else p
    | problems => .ok (p.note problems)

/-- Merges what stands under a merge key: a mapping, or several. -/
def mergeValue : Nat → Progress → Node → Except Refusal Progress
  | 0, p, _ => .ok p
  | n + 1, p, .sequence _ _ items => mergeAll n p items
  | n + 1, p, value => mergeOne n p value

/-- Merges one mapping. -/
def mergeOne : Nat → Progress → Node → Except Refusal Progress
  | 0, p, _ => .ok p
  | n + 1, p, .mapping _ _ entries => readMapping n p entries
  | n + 1, p, .alias _ name inside (.mapping _ _ entries) =>
    if inside then .error (.cycle name) else readMapping n p entries
  | _ + 1, _, _ => .error .merge

/-- Merges one mapping after another. -/
def mergeAll : Nat → Progress → List Node → Except Refusal Progress
  | 0, p, _ => .ok p
  | _ + 1, p, [] => .ok p
  | n + 1, p, value :: rest => do mergeAll n (← mergeOne n p value) rest

end

/-- Reads a document over the options that there are. The allowance bounds how deep merges go. -/
def readDocument (fuel : Nat) (o : Options) : Node → Loading Options
  | .mapping _ _ entries =>
    (readMapping fuel { options := o } entries).map fun p => (p.options, p.problems)
  | .scalar line tag text =>
    match denoted tag text with
    | .error e => .error e
    | .ok .null => .ok (o, [])
    | .ok _ => .ok (o, [wrong line tag text .options])
  | node => .ok (o, mismatch .options node)

/-- Why a document could not be read as options. -/
inductive DocumentError where
  | unreadable
  | refused (refusal : Refusal)
  | problems (found : List Problem)

/-- The words for why the document of a file could not be read. -/
def DocumentError.message (path : String) : DocumentError → String
  | .unreadable => "yaml: input error: " ++ FileContent.directoryText path
  | .refused refusal => "yaml: " ++ refusal.message
  | .problems found =>
    "yaml: unmarshal errors:" ++ (found.map fun p => "\n  " ++ p.message).foldl (· ++ ·) ""

instance : DecodeError DocumentError := ⟨DocumentError.message⟩

/-- What reading the root of a document, if there is one, over some options comes to. -/
def decoding (fuel : Nat) (o : Options) : Option Node → Decoding DocumentError
  | none => .ended o
  | some root =>
    match readDocument fuel o root with
    | .error refusal => .failed (.refused refusal)
    | .ok (o, []) => .decoded o
    | .ok (_, found) => .failed (.problems found)

/-- Reads the options of a document. -/
def decode : Decoder DocumentError
  | none, _ => .failed .unreadable
  | some content, o =>
    match Yaml.parse content with
    | .error fault => .failed (.refused (.fault fault))
    | .ok root => decoding (2 * content.length + 2) o root

/-- Loads options from the content of a file. -/
def load (content : FileContent) : Except (LoadError DocumentError) Options := loadWith decode content

end LoxLang.Config
