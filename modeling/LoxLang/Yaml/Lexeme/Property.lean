import LoxLang.Number.Decimal
import LoxLang.Token.Character
import LoxLang.Yaml.Lexeme

/-!
# Names, tags and directives

What stands before a node or before a document: the name of an anchor or alias, a tag in one of its
spellings, and a line that begins with a percent sign.
-/

namespace LoxLang.Yaml

/-- Whether the name of an anchor may end before this. -/
def endsName (c : Option Char) : Bool :=
  endsWord c || c.any fun x => ['?', ':', ',', ']', '\x7d', '%', '@', '\x60'].contains x

/-- Reads the name of an anchor or alias from its sign on. -/
def readName (c : Cursor) : Reading String :=
  let (name, after) := (c.skip 1).span isNameChar
  if name.isEmpty || !endsName after.next? then flawed .anchorName c.mark after
  else .ok (String.ofList name, after)

/-- The characters of a tag. -/
def isTagChar (c : Char) : Bool :=
  isNameChar c || [';', '/', '?', ':', '@', '&', '=', '+', '$', ',', '.', '!', '~', '*', '\x27', '(',
    ')', '[', ']', '%'].contains c

/-- Reads the handle at the start of a tag: an exclamation mark, or a name between two of them. What
has no second one is not a handle, though it is read as far. -/
def readHandle (inDirective : Bool) (began : Mark) (c : Cursor) : Reading (List Char) :=
  if !c.sees '!' then flawed .tagMark began c
  else
    let (name, after) := (c.skip 1).span isNameChar
    if after.sees '!' then .ok ('!' :: name ++ ['!'], after.skip 1)
    else if inDirective && !name.isEmpty then flawed .tagMark began after
    else .ok ('!' :: name, after)

/-- Reads the characters of a tag, at least one of them unless some came before. -/
def readTagChars (began : Mark) (before : Bool) (c : Cursor) : Reading (List Char) :=
  let (text, after) := c.span isTagChar
  if text.isEmpty && !before then flawed .tagUri began after else .ok (text, after)

/-- Whether a handle is complete. -/
def isHandle (handle : List Char) : Bool := 1 < handle.length && handle.getLast? == some '!'

/-- Reads a tag in angle brackets from the first of them on. -/
def readVerbatimTag (began : Mark) (c : Cursor) : Except Fault (Sign × Cursor) := do
  let (text, c) ← readTagChars began false c
  if c.sees '>' then return (.tag "" (String.ofList text), c.skip 1) else flawed .tagClose began c

/-- Reads a tag that is not in angle brackets. A lone exclamation mark has no handle. -/
def readShortTag (began : Mark) (c : Cursor) : Except Fault (Sign × Cursor) := do
  let (handle, c) ← readHandle false began c
  if isHandle handle then
    let (suffix, c) ← readTagChars began false c
    return (.tag (String.ofList handle) (String.ofList suffix), c)
  else
    let (more, c) ← readTagChars began true c
    let suffix := handle.drop 1 ++ more
    if suffix.isEmpty then return (.tag "" "!", c)
    else return (.tag "!" (String.ofList suffix), c)

/-- Reads a tag. -/
def readTag (c : Cursor) : Except Fault (Sign × Cursor) := do
  let began := c.mark
  let (sign, c) ←
    if c.ahead? 1 == some '<' then readVerbatimTag began (c.skip 2) else readShortTag began c
  if endsWord c.next? then return (sign, c) else flawed .tagEnd began c

/-- Reads one of the two numbers of a version. -/
def readVersionNumber (began : Mark) (c : Cursor) : Reading Nat :=
  let (digits, after) := c.span LoxLang.Token.isDigit
  if digits.isEmpty then flawed .versionNumber began c
  else if 2 < digits.length then flawed .versionLength began c
  else .ok (Decimal.ofDigits digits, after)

/-- Reads the version in a directive. -/
def readVersion (began : Mark) (c : Cursor) : Except Fault (Sign × Cursor) := do
  let (major, c) ← readVersionNumber began (c.skipWhile isBlank)
  if !c.sees '.' then flawed .versionPoint began c
  else
    let (minor, c) ← readVersionNumber began (c.skip 1)
    return (.version major minor, c)

/-- Reads a handle and what it stands for in a directive. -/
def readHandleMeaning (began : Mark) (c : Cursor) : Except Fault (Sign × Cursor) := do
  let (handle, c) ← readHandle true began (c.skipWhile isBlank)
  if !(c.next?.any isBlank) then flawed .tagSpace began c
  else
    let (expansion, c) ← readTagChars began false (c.skipWhile isBlank)
    if endsWord c.next? then return (.handle (String.ofList handle) (String.ofList expansion), c)
    else flawed .tagEnd began c

/-- Reads a directive from its percent sign on. -/
def readDirective (c : Cursor) : Except Fault (Sign × Cursor) := do
  let began := c.mark
  let (name, c) := (c.skip 1).span isNameChar
  if name.isEmpty then flawed .directiveName began c
  else if !endsWord c.next? then flawed .directiveLetter began c
  else
    let (sign, c) ← match String.ofList name with
      | "YAML" => readVersion began c
      | "TAG" => readHandleMeaning began c
      | _ => flawed .directiveUnknown began c
    let c := (c.skipWhile isBlank).skipComment
    if c.isDone || c.seesBreak then return (sign, c.takeBreak.2) else flawed .directiveEnd began c

end LoxLang.Yaml
