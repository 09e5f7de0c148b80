/-!
# Places in a document

A cursor is a place in a text and the characters from there on. Lines end with a line feed, a carriage return,
both of them, or one of the three separators that Unicode has for the purpose. A fault is something wrong at a
place, reported with the line where it began or else where it was noticed.
-/

namespace LoxLang.Yaml

/-- A place in a text. Lines, columns and characters count from zero. -/
structure Mark where
  line : Nat := 0
  column : Nat := 0
  index : Nat := 0

/-- A place and what follows it. -/
structure Cursor where
  mark : Mark
  rest : List Char

def isBlank (c : Char) : Bool := c == ' ' || c == '\t'

def isBreak (c : Char) : Bool :=
  c == '\n' || c == '\r' || c == '\x85' || c == '\u2028' || c == '\u2029'

/-- Letters and digits of ASCII, the underscore and the dash. -/
def isNameChar (c : Char) : Bool :=
  ('0' ≤ c && c ≤ '9') || ('a' ≤ c && c ≤ 'z') || ('A' ≤ c && c ≤ 'Z') || c == '_' || c == '-'

/-- Whether no character, a blank or a break comes next. -/
def endsWord : Option Char → Bool
  | none => true
  | some c => isBlank c || isBreak c

namespace Cursor

/-- The start of a text. -/
def start (text : List Char) : Cursor := ⟨{}, text⟩

/-- The next character. -/
def next? (c : Cursor) : Option Char := c.rest.head?

/-- The character some places on. -/
def ahead? (c : Cursor) (k : Nat) : Option Char := c.rest[k]?

/-- Whether a character comes next. -/
def sees (c : Cursor) (x : Char) : Bool := c.next? == some x

/-- Whether no character is left. -/
def isDone (c : Cursor) : Bool := c.rest.isEmpty

/-- Whether a break comes next. -/
def seesBreak (c : Cursor) : Bool := c.next?.any isBreak

/-- Passes over some characters of a line. -/
def skip (k : Nat) (c : Cursor) : Cursor :=
  ⟨{ c.mark with column := c.mark.column + k, index := c.mark.index + k }, c.rest.drop k⟩

/-- The characters of a line up to the first that is not of some class, and the place after them. -/
def span (p : Char → Bool) (c : Cursor) : List Char × Cursor :=
  let found := c.rest.takeWhile p
  (found, c.skip found.length)

/-- Passes over the characters of a line that are of some class. -/
def skipWhile (p : Char → Bool) (c : Cursor) : Cursor := (c.span p).2

/-- Passes over the break that comes next, if one does. A break is a line feed in what is read, unless it is
one of the separators of Unicode. -/
def takeBreak (c : Cursor) : List Char × Cursor :=
  let after (k : Nat) : Cursor :=
    ⟨{ line := c.mark.line + 1, column := 0, index := c.mark.index + k }, c.rest.drop k⟩
  match c.rest with
  | '\r' :: '\n' :: _ => (['\n'], after 2)
  | x :: _ =>
    if isBreak x then ([if x == '\u2028' || x == '\u2029' then x else '\n'], after 1) else ([], c)
  | [] => ([], c)

/-- Passes over a comment, if one comes next. -/
def skipComment (c : Cursor) : Cursor := if c.sees '#' then c.skipWhile (!isBreak ·) else c

/-- Passes over blanks and breaks. -/
def skipGap : Nat → Cursor → Cursor
  | 0, c => c
  | n + 1, c =>
    let c := c.skipWhile isBlank
    if c.seesBreak then skipGap n c.takeBreak.2 else c

/-- Passes over a comment and those on later lines that only blanks and breaks keep apart. -/
def skipComments : Nat → Cursor → Cursor
  | 0, c => c
  | n + 1, c =>
    let after := c.skipComment
    let later := after.skipGap (after.rest.length + 1)
    if c.sees '#' && later.sees '#' then skipComments n later else after

/-- Whether the marker of a document stands here: three equal characters at the start of a line. -/
def seesMarker (c : Cursor) (x : Char) : Bool :=
  c.mark.column == 0 && c.rest.take 3 == [x, x, x] && endsWord (c.ahead? 3)

/-- Whether a document starts or ends here. -/
def seesDocument (c : Cursor) : Bool := c.seesMarker '-' || c.seesMarker '.'

end Cursor

/-- What can be wrong with a document. -/
inductive Flaw where
  | leadingOctet | trailingOctet | incompleteSequence | sequenceLength | character
  | controlCharacter
  | badStart | noColon | noEntryHere | noKeyHere | noValueHere
  | anchorName | tagEnd | tagUri | tagClose | tagMark | tagSpace
  | directiveName | directiveEnd | directiveUnknown | directiveLetter
  | versionNumber | versionLength | versionPoint
  | quotedDocument | quotedEnd | escapeUnknown | escapeDigits | escapeRange
  | blockZero | blockHeader | blockTab | plainTab
  | documentStart | content | key | dash | commaOrBracket | commaOrBrace
  | tagHandle | version | versionTwice
  | unknownAnchor (name : String)
  deriving DecidableEq, Repr

/-- The words for what is wrong. -/
def Flaw.message : Flaw → String
  | .leadingOctet => "invalid leading UTF-8 octet"
  | .trailingOctet => "invalid trailing UTF-8 octet"
  | .incompleteSequence => "incomplete UTF-8 octet sequence"
  | .sequenceLength => "invalid length of a UTF-8 sequence"
  | .character => "invalid Unicode character"
  | .controlCharacter => "control characters are not allowed"
  | .badStart => "found character that cannot start any token"
  | .noColon => "could not find expected ':'"
  | .noEntryHere => "block sequence entries are not allowed in this context"
  | .noKeyHere => "mapping keys are not allowed in this context"
  | .noValueHere => "mapping values are not allowed in this context"
  | .anchorName => "did not find expected alphabetic or numeric character"
  | .tagEnd => "did not find expected whitespace or line break"
  | .tagUri => "did not find expected tag URI"
  | .tagClose => "did not find the expected '>'"
  | .tagMark => "did not find expected '!'"
  | .tagSpace => "did not find expected whitespace"
  | .directiveName => "could not find expected directive name"
  | .directiveEnd => "did not find expected comment or line break"
  | .directiveUnknown => "found unknown directive name"
  | .directiveLetter => "found unexpected non-alphabetical character"
  | .versionNumber => "did not find expected version number"
  | .versionLength => "found extremely long version number"
  | .versionPoint => "did not find expected digit or '.' character"
  | .quotedDocument => "found unexpected document indicator"
  | .quotedEnd => "found unexpected end of stream"
  | .escapeUnknown => "found unknown escape character"
  | .escapeDigits => "did not find expected hexdecimal number"
  | .escapeRange => "found invalid Unicode character escape code"
  | .blockZero => "found an indentation indicator equal to 0"
  | .blockHeader => "did not find expected comment or line break"
  | .blockTab => "found a tab character where an indentation space is expected"
  | .plainTab => "found a tab character that violates indentation"
  | .documentStart => "did not find expected <document start>"
  | .content => "did not find expected node content"
  | .key => "did not find expected key"
  | .dash => "did not find expected '-' indicator"
  | .commaOrBracket => "did not find expected ',' or ']'"
  | .commaOrBrace => "did not find expected ',' or '\x7d'"
  | .tagHandle => "found undefined tag handle"
  | .version => "found incompatible YAML document"
  | .versionTwice => "found duplicate %YAML directive"
  | .unknownAnchor name => "unknown anchor '" ++ name ++ "' referenced"

/-- A flaw and the line that is told with it, if one is. -/
structure Fault where
  flaw : Flaw
  line? : Option Nat := none
  deriving Repr

/-- The words for a fault. -/
def Fault.message (f : Fault) : String :=
  match f.line? with
  | some line => "line " ++ toString line ++ ": " ++ f.flaw.message
  | none => f.flaw.message

/-- The first of two lines that is not the first line of the text. -/
def laterLine? (began noticed : Nat) : Option Nat :=
  if began ≠ 0 then some began else if noticed ≠ 0 then some noticed else none

/-- A fault in the characters of a text; its line counts from one. -/
def Fault.ofText (flaw : Flaw) (began noticed : Mark) : Fault :=
  ⟨flaw, (laterLine? began.line noticed.line).map (· + 1)⟩

/-- A fault in the order of tokens; its line counts from zero, as those of tokens do. -/
def Fault.ofTokens (flaw : Flaw) (began noticed : Nat) : Fault := ⟨flaw, laterLine? began noticed⟩

end LoxLang.Yaml
