import LoxLang.Number.Decimal
import LoxLang.Token.Character
import LoxLang.Yaml.Lexeme

/-!
# Block scalars

A text on lines of its own, below a bar that keeps its line breaks or a bracket that folds them. A sign
after these tells what becomes of the breaks at the end, and a digit how deep the lines are; without one the
first line tells.
-/

namespace LoxLang.Yaml

/-- What becomes of the breaks at the end of a block scalar. -/
inductive Chomping where
  | strip | clip | keep
  deriving DecidableEq, Repr

/-- What the header of a block scalar says. -/
structure BlockHeader where
  chomping : Chomping := .clip
  depth : Nat := 0

/-- The chomping that a sign asks for. -/
def chomping? : Option Char → Option Chomping
  | some '+' => some .keep
  | some '-' => some .strip
  | _ => none

/-- Reads the digit of a header, if it has one. -/
def readDepth (began : Mark) (c : Cursor) : Reading Nat :=
  match c.next? with
  | some d =>
    if d == '0' then flawed .blockZero began c
    else if LoxLang.Token.isDigit d then .ok (Decimal.digitValue d, c.skip 1)
    else .ok (0, c)
  | none => .ok (0, c)

/-- Reads a header, in which sign and digit may come in either order. -/
def readBlockHeader (began : Mark) (c : Cursor) : Reading BlockHeader :=
  match chomping? c.next? with
  | some chomping =>
    match readDepth began (c.skip 1) with
    | .ok (depth, c) => .ok ({ chomping, depth }, c)
    | .error e => .error e
  | none =>
    match readDepth began c with
    | .ok (0, c) => .ok ({}, c)
    | .ok (depth, c) =>
      match chomping? c.next? with
      | some chomping => .ok ({ chomping, depth }, c.skip 1)
      | none => .ok ({ depth }, c)
    | .error e => .error e

/-- Passes over the rest of the line of a header. -/
def endHeader (began : Mark) (c : Cursor) : Reading Unit :=
  let c := (c.skipWhile isBlank).skipComment
  if c.isDone || c.seesBreak then .ok ((), c.takeBreak.2) else flawed .blockHeader began c

/-- The breaks of empty lines, and how deep the spaces on them go. -/
structure Emptiness where
  breaks : List Char := []
  deepest : Nat := 0

/-- Reads the indentation of the next line that is not empty, and the empty lines before it. Of spaces only
those before column `depth` are passed over, or all if that is zero. -/
def readEmptiness (began : Mark) (depth : Nat) : Nat → Emptiness → Cursor → Reading Emptiness
  | 0, e, c => .ok (e, c)
  | n + 1, e, c =>
    let spaces := (c.rest.takeWhile (· == ' ')).length
    let c := c.skip (if depth == 0 then spaces else min spaces (depth - c.mark.column))
    let e := { e with deepest := max e.deepest c.mark.column }
    if (depth == 0 || c.mark.column < depth) && c.sees '\t' then flawed .blockTab began c
    else if c.seesBreak then
      let (text, c) := c.takeBreak
      readEmptiness began depth n { e with breaks := e.breaks ++ text } c
    else .ok (e, c)

/-- A block scalar as far as it has been read: its text, the break after the last line, the breaks of the
empty lines after that, and whether the last line began with a blank. -/
structure BlockText where
  text : List Char := []
  lastBreak : List Char := []
  emptyBreaks : List Char := []
  afterBlank : Bool := false

/-- The text with all that came before a new line: a break between two lines that start with no blank
is folded. -/
def BlockText.joined (t : BlockText) (folds startsBlank : Bool) : List Char :=
  let between :=
    if folds && !t.afterBlank && !startsBlank && t.lastBreak == ['\n'] then
      (if t.emptyBreaks.isEmpty then [' '] else [])
    else t.lastBreak
  t.text ++ between ++ t.emptyBreaks

/-- The whole text, its end chomped. -/
def BlockText.chomp (t : BlockText) : Chomping → List Char
  | .strip => t.text
  | .clip => t.text ++ t.lastBreak
  | .keep => t.text ++ t.lastBreak ++ t.emptyBreaks

/-- Reads the lines that stand at column `depth`. -/
def readBlockLines (folds : Bool) (began : Mark) (depth : Nat) :
    Nat → BlockText → Cursor → Reading BlockText
  | 0, t, c => .ok (t, c)
  | n + 1, t, c =>
    if c.mark.column == depth && !c.isDone then
      let startsBlank := c.next?.any isBlank
      let (line, c) := c.span (!isBreak ·)
      let (lastBreak, c) := c.takeBreak
      match readEmptiness began depth (c.rest.length + 1) {} c with
      | .error e => .error e
      | .ok (e, c) =>
        readBlockLines folds began depth n
          { text := t.joined folds startsBlank ++ line, lastBreak, emptyBreaks := e.breaks,
            afterBlank := startsBlank } c
    else .ok (t, c)

/-- Reads a block scalar from its sign on, inside a collection at column `indent`. -/
def readBlock (folds : Bool) (indent : Int) (c : Cursor) : Except Fault (String × Cursor) := do
  let began := c.mark
  let (header, c) ← readBlockHeader began (c.skip 1)
  let (_, c) ← endHeader began c
  let told := if header.depth == 0 then 0 else indent.toNat + header.depth
  let (e, c) ← readEmptiness began told (c.rest.length + 1) {} c
  let depth := if told == 0 then max (max e.deepest (indent + 1).toNat) 1 else told
  let (t, c) ← readBlockLines folds began depth (c.rest.length + 1) { emptyBreaks := e.breaks } c
  return (String.ofList (t.chomp header.chomping), c)

end LoxLang.Yaml
