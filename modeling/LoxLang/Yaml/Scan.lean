import LoxLang.Yaml.Lexeme.Block
import LoxLang.Yaml.Lexeme.Plain
import LoxLang.Yaml.Lexeme.Property
import LoxLang.Yaml.Lexeme.Quoted

/-!
# Scanning a document

A text becomes a list of lexemes. Outside brackets, indentation opens and closes collections: a line that is
deeper than the innermost one and starts an entry or a key opens a collection, and a line that is less deep
closes those that are deeper. A scalar may turn out to be a key when a colon follows it on its
line; its place is remembered until then, one place for each level of brackets.

Scanning stops at the first fault. What was found before it still counts, because a reader of the lexemes
may come to an end or to a fault of its own without looking as far.
-/

namespace LoxLang.Yaml

/-- The place of something that may turn out to be a key. It must be one if it is where the keys of the
collection around it are. -/
structure PossibleKey where
  required : Bool
  number : Nat
  mark : Mark

/-- A scan under way: where it is, what it has found, the columns of the open collections from the
innermost outwards, the possible key of each level of brackets likewise, whether a key may stand here, and
the required keys that have no colon yet. -/
structure ScanState where
  cursor : Cursor
  found : Array Lexeme := #[]
  indent : Int := -1
  outer : List Int := []
  keys : List (Option PossibleKey) := [none]
  keyAllowed : Bool := true
  owed : List PossibleKey := []

/-- A step of a scan. -/
abbrev ScanStep := Except Fault ScanState

/-- How far a key may be from its colon. -/
def keyReach : Nat := 1024

namespace ScanState

/-- Whether the scan is inside brackets. -/
def inFlow (s : ScanState) : Bool := 1 < s.keys.length

/-- The place of the scan. -/
def mark (s : ScanState) : Mark := s.cursor.mark

/-- A fault at the place of the scan. -/
def fault (s : ScanState) (flaw : Flaw) : ScanStep := .error (.ofText flaw s.mark s.mark)

/-- Adds a lexeme. -/
def push (s : ScanState) (sign : Sign) (line : Nat) : ScanState :=
  { s with found := s.found.push ⟨sign, line⟩ }

/-- Inserts a lexeme before one that was found earlier. -/
def insert (s : ScanState) (number : Nat) (sign : Sign) (line : Nat) : ScanState :=
  { s with found := s.found.take number ++ #[⟨sign, line⟩] ++ s.found.drop number }

/-- Adds a sign of some characters and passes over them. -/
def pushSign (s : ScanState) (sign : Sign) (length : Nat) : ScanState :=
  { s.push sign s.mark.line with cursor := s.cursor.skip length }

/-- The possible key of the innermost level. -/
def key? (s : ScanState) : Option PossibleKey := s.keys.head?.join

/-- Sets the possible key of the innermost level. -/
def setKey (s : ScanState) (key : Option PossibleKey) : ScanState :=
  { s with keys := key :: s.keys.drop 1 }

/-- The fault of a key that has no colon. -/
def missingColon (s : ScanState) (key : PossibleKey) : Fault := .ofText .noColon key.mark s.mark

/-- Gives up the possible key of the innermost level. -/
def dropKey (s : ScanState) : ScanStep :=
  match s.key? with
  | some key => if key.required then .error (s.missingColon key) else .ok (s.setKey none)
  | none => .ok s

/-- Remembers this place if a key may stand here. -/
def saveKey (s : ScanState) : ScanStep :=
  if s.keyAllowed then do
    let required := !s.inFlow && s.indent == s.mark.column
    let key := { required, number := s.found.size, mark := s.mark }
    let s := (← s.dropKey).setKey (some key)
    return if required then { s with owed := key :: s.owed } else s
  else .ok s

/-- Whether a colon at the place of the scan would still belong to a key. -/
def reaches (s : ScanState) (key : PossibleKey) : Bool :=
  key.mark.line == s.mark.line && s.mark.index ≤ key.mark.index + keyReach

/-- Opens a collection at a column, unless the innermost one is as deep. -/
def roll (s : ScanState) (column : Nat) (number : Nat) (sign : Sign) (line : Nat) : ScanState :=
  if s.inFlow || (column : Int) ≤ s.indent then s
  else { s.insert number sign line with indent := column, outer := s.indent :: s.outer }

/-- Closes the collections among some that are deeper than a column. -/
def unrollFrom (column : Int) (line : Nat) : List Int → ScanState → ScanState
  | [], s => s
  | i :: is, s =>
    if column < s.indent then
      unrollFrom column line is { s.push .blockEnd line with indent := i, outer := is }
    else s

/-- Closes the collections that are deeper than a column. -/
def unroll (s : ScanState) (column : Int) (line : Nat) : ScanState :=
  if s.inFlow then s else unrollFrom column line s.outer s

/-- Whether a comment here stands beside the last lexeme, outside brackets. -/
def besideLexeme (s : ScanState) : Bool :=
  !s.keyAllowed && (s.found.back?).any (·.sign.takesComment)

/-- Passes over blanks, comments and breaks. A tab counts as a blank only where no key may stand, or
between two comments; but not after a comment that stands beside a lexeme. -/
def toNext : Nat → ScanState → ScanState
  | 0, s => s
  | n + 1, s =>
    let tabs := s.inFlow || !s.keyAllowed
    let c := s.cursor.skipWhile fun x => x == ' ' || (tabs && x == '\t')
    let c := if s.besideLexeme then c.skipComment else c.skipComments (c.rest.length + 1)
    if c.seesBreak then
      toNext n { s with cursor := c.takeBreak.2, keyAllowed := s.keyAllowed || !s.inFlow }
    else { s with cursor := c }

/-- Ends all collections, as the marker of a document and the end of the text do. -/
def finishBlocks (s : ScanState) : ScanStep := do
  return { ← (s.unroll (-1) s.mark.line).dropKey with keyAllowed := false }

/-- The end of the text, which starts a line of its own. -/
def fetchEnd (s : ScanState) : ScanStep := do
  let mark := if s.mark.column == 0 then s.mark
    else { s.mark with line := s.mark.line + 1, column := 0 }
  let s ← { s with cursor := { s.cursor with mark } }.finishBlocks
  return s.push .streamEnd s.mark.line

/-- A directive. -/
def fetchDirective (s : ScanState) : ScanStep := do
  let line := s.mark.line
  let s ← s.finishBlocks
  let (sign, cursor) ← readDirective s.cursor
  return { s.push sign line with cursor }

/-- The marker of a document. -/
def fetchMarker (s : ScanState) (sign : Sign) : ScanStep := do
  return (← s.finishBlocks).pushSign sign 3

/-- An opening bracket, which starts a level. -/
def fetchOpen (s : ScanState) (sign : Sign) : ScanStep := do
  let s ← s.saveKey
  return { s with keys := none :: s.keys, keyAllowed := true }.pushSign sign 1

/-- A closing bracket, which ends a level if there is one. -/
def fetchClose (s : ScanState) (sign : Sign) : ScanStep := do
  let s ← s.dropKey
  let keys := if s.inFlow then s.keys.drop 1 else s.keys
  return { s with keys, keyAllowed := false }.pushSign sign 1

/-- A comma. -/
def fetchComma (s : ScanState) : ScanStep := do
  return { ← s.dropKey with keyAllowed := true }.pushSign .flowEntry 1

/-- A dash before an entry. -/
def fetchEntry (s : ScanState) : ScanStep := do
  if !s.inFlow && !s.keyAllowed then s.fault .noEntryHere
  else
    let s := s.roll s.mark.column s.found.size .blockSequence s.mark.line
    return { ← s.dropKey with keyAllowed := true }.pushSign .blockEntry 1

/-- A question mark before a key. -/
def fetchKey (s : ScanState) : ScanStep := do
  if !s.inFlow && !s.keyAllowed then s.fault .noKeyHere
  else
    let s := s.roll s.mark.column s.found.size .blockMapping s.mark.line
    return { ← s.dropKey with keyAllowed := !s.inFlow }.pushSign .key 1

/-- A colon after something that turns out to be a key. -/
def fetchValueOf (s : ScanState) (key : PossibleKey) : ScanState :=
  let s := { s with owed := s.owed.filter (·.number != key.number) }
  let s := s.insert key.number .key key.mark.line
  let s := s.roll key.mark.column key.number .blockMapping key.mark.line
  { s.setKey none with keyAllowed := false }.pushSign .value 1

/-- A colon that no key on its line belongs to. -/
def fetchBareValue (s : ScanState) : ScanStep :=
  if !s.inFlow && !s.keyAllowed then s.fault .noValueHere
  else
    let s := s.roll s.mark.column s.found.size .blockMapping s.mark.line
    .ok ({ s with keyAllowed := !s.inFlow }.pushSign .value 1)

/-- A colon. -/
def fetchValue (s : ScanState) : ScanStep :=
  match s.key? with
  | some key =>
    if s.reaches key then .ok (s.fetchValueOf key)
    else if key.required then .error (s.missingColon key)
    else (s.setKey none).fetchBareValue
  | none => s.fetchBareValue

/-- Something that may be a key, read by a reader of its own. -/
def fetchWith (s : ScanState) (read : Cursor → Reading Sign) : ScanStep := do
  let line := s.mark.line
  let s ← s.saveKey
  let (sign, cursor) ← read s.cursor
  return { s.push sign line with cursor, keyAllowed := false }

/-- A reader whose result becomes a sign. -/
def reading (make : α → Sign) (read : Cursor → Reading α) (c : Cursor) :
    Except Fault (Sign × Cursor) := do
  let (a, c) ← read c
  return (make a, c)

/-- A block scalar, after which a line starts. -/
def fetchBlock (s : ScanState) (folds : Bool) : ScanStep := do
  let line := s.mark.line
  let s ← s.dropKey
  let (text, cursor) ← readBlock folds s.indent s.cursor
  return { s.push (.scalar text .text) line with cursor, keyAllowed := true }

/-- A plain scalar; a key may follow it on a line of its own. -/
def fetchPlain (s : ScanState) : ScanStep := do
  let line := s.mark.line
  let s ← s.saveKey
  let (scalar, cursor) ← readPlain s.inFlow (s.indent + 1).toNat s.cursor
  return { s.push (.scalar (String.ofList scalar.text) .plain) line with
    cursor, keyAllowed := scalar.broken }

/-- The characters that no plain scalar starts with. -/
def isIndicator (c : Char) : Bool :=
  ['-', '?', ':', ',', '[', ']', '\x7b', '\x7d', '#', '&', '*', '!', '|', '>', '\x27', '"', '%', '@',
   '\x60'].contains c

/-- Whether a plain scalar may start with a character before another one. -/
def startsPlain (inFlow : Bool) (c : Char) (after : Option Char) : Bool :=
  !(isBlank c || isBreak c || isIndicator c) || (c == '-' && !(after.any isBlank)) ||
    (!inFlow && (c == '?' || c == ':') && !endsWord after)

/-- The next lexeme, which starts with a character here. -/
def fetchFrom (s : ScanState) (c : Char) : ScanStep :=
  let after := s.cursor.ahead? 1
  if s.mark.column == 0 && c == '%' then s.fetchDirective
  else if s.cursor.seesMarker '-' then s.fetchMarker .documentStart
  else if s.cursor.seesMarker '.' then s.fetchMarker .documentEnd
  else if c == '[' then s.fetchOpen .openBracket
  else if c == '\x7b' then s.fetchOpen .openBrace
  else if c == ']' then s.fetchClose .closeBracket
  else if c == '\x7d' then s.fetchClose .closeBrace
  else if c == ',' then s.fetchComma
  else if c == '-' && endsWord after then s.fetchEntry
  else if c == '?' && (s.inFlow || endsWord after) then s.fetchKey
  else if c == ':' && (s.inFlow || endsWord after) then s.fetchValue
  else if c == '*' then s.fetchWith (reading .alias readName)
  else if c == '&' then s.fetchWith (reading .anchor readName)
  else if c == '!' then s.fetchWith readTag
  else if c == '|' && !s.inFlow then s.fetchBlock false
  else if c == '>' && !s.inFlow then s.fetchBlock true
  else if c == '\x27' then s.fetchWith (reading (.scalar · .text) (readQuoted .single))
  else if c == '"' then s.fetchWith (reading (.scalar · .text) (readQuoted .double))
  else if startsPlain s.inFlow c after then s.fetchPlain
  else s.fault .badStart

/-- The next lexeme. -/
def fetch (s : ScanState) : ScanStep :=
  let line := s.mark.line
  let s := toNext (s.cursor.rest.length + 1) s
  let s := s.unroll s.mark.column line
  match s.cursor.next? with
  | none => s.fetchEnd
  | some c => s.fetchFrom c

/-- The possible keys for which a colon may still come. -/
def pending (s : ScanState) : List Nat :=
  s.keys.filterMap fun key => key.bind fun k => if s.reaches k then some k.number else none

end ScanState

/-- What scanning finds: lexemes, the fault that kept it from going on with the lexemes that may be keys
for all that is known, and the lexemes that had to be keys and are not. -/
structure Scanned where
  lexemes : Array Lexeme
  fault : Option Fault := none
  pending : List Nat := []
  owed : List PossibleKey := []

/-- Fetches lexemes to the end of the text. -/
def scanFrom : Nat → ScanState → Scanned
  | 0, s => { lexemes := s.found }
  | n + 1, s =>
    match s.fetch with
    | .error fault =>
      { lexemes := s.found, fault := some fault, pending := s.pending, owed := s.owed }
    | .ok s' =>
      if (s'.found.back?).any (·.sign == .streamEnd) then { lexemes := s'.found, owed := s'.owed }
      else scanFrom n s'

/-- The lexemes of a text. -/
def scan (text : List Char) : Scanned :=
  scanFrom (text.length + 1)
    { cursor := .start text, found := #[⟨.streamStart, 0⟩] }

end LoxLang.Yaml
