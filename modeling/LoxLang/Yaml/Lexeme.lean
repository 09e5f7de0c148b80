import LoxLang.Yaml.Cursor

/-!
# Lexemes of a document

The signs of a document and its scalars. Some lexemes stand for no sign: those that open and close a
collection which is told by indentation alone, and the one before a key, which is known to be one only
when its colon has been seen.
-/

namespace LoxLang.Yaml

/-- How a scalar is written: all but plain ones are texts, whatever they look like. -/
inductive Style where
  | plain
  | text
  deriving DecidableEq, Repr

/-- What a lexeme is. -/
inductive Sign where
  | streamStart | streamEnd
  | version (major minor : Nat)
  | handle (name expansion : String)
  | documentStart | documentEnd
  | blockSequence | blockMapping | blockEnd
  | openBracket | closeBracket | openBrace | closeBrace
  | blockEntry | flowEntry | key | value
  | alias (name : String)
  | anchor (name : String)
  | tag (handle suffix : String)
  | scalar (text : String) (style : Style)
  deriving DecidableEq, Repr

/-- Whether a comment on the line of a lexeme belongs to it alone, and not to what comes next. -/
def Sign.takesComment : Sign → Bool
  | .streamStart | .version _ _ | .handle _ _ | .documentStart | .documentEnd | .blockEntry => false
  | _ => true

/-- A lexeme and its line, counted from zero. -/
structure Lexeme where
  sign : Sign
  line : Nat
  deriving Repr

/-- What reading at a place yields: a result and the place after it, or a fault. -/
abbrev Reading (α : Type) := Except Fault (α × Cursor)

/-- A fault that began at one place and was noticed at another. -/
def flawed (flaw : Flaw) (began : Mark) (here : Cursor) : Reading α :=
  .error (.ofText flaw began here.mark)

/-- The blanks and breaks between two words: the blanks before the first break, that break, and the later
ones. A gap is broken if it has a break, written or escaped. -/
structure Gap where
  blanks : List Char := []
  first : List Char := []
  later : List Char := []
  broken : Bool := false

/-- What a gap reads as: blanks stay, one break is a space, and of several the first is dropped. -/
def Gap.text (g : Gap) : List Char :=
  if !g.broken then g.blanks
  else if g.first == ['\n'] then (if g.later.isEmpty then [' '] else g.later)
  else g.first ++ g.later

/-- A gap with one more break at its end. -/
def Gap.addBreak (g : Gap) (text : List Char) : Gap :=
  if g.broken then { g with later := g.later ++ text }
  else { g with blanks := [], first := text, broken := true }

/-- A gap with blanks at its end, which count only before the first break. -/
def Gap.addBlanks (g : Gap) (text : List Char) : Gap :=
  if g.broken then g else { g with blanks := g.blanks ++ text }

/-- Whether a tab stands before some column on a later line of a gap. -/
def tabBefore (least : Nat) (g : Gap) (blanks : List Char) (c : Cursor) : Bool :=
  g.broken && (blanks.zipIdx.any fun (x, k) => x == '\t' && c.mark.column + k < least)

/-- Reads the gap from here on, in which no tab may stand before column `least` of a line. -/
def readGap (began : Mark) (least : Nat) : Nat → Gap → Cursor → Reading Gap
  | 0, g, c => .ok (g, c)
  | n + 1, g, c =>
    let (blanks, after) := c.span isBlank
    if tabBefore least g blanks c then
      let clean := (blanks.takeWhile (· != '\t')).length
      flawed .plainTab began (c.skip clean)
    else if after.seesBreak then
      let (text, after) := after.takeBreak
      readGap began least n ((g.addBlanks blanks).addBreak text) after
    else .ok (g.addBlanks blanks, after)

end LoxLang.Yaml
