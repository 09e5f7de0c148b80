import LoxLang.Yaml.Lexeme

/-!
# Plain scalars

A plain scalar has no quotes and may go over several lines, each of them deeper than the collection around
it. It ends before a comment, before a colon that ends a word, and inside brackets also before a
sign of theirs.
-/

namespace LoxLang.Yaml

/-- The signs that mean something inside brackets. -/
def isFlowSign (c : Char) : Bool := [',', '?', '[', ']', '\x7b', '\x7d'].contains c

/-- The length of the plain word at the start of a text. -/
def plainLength (inFlow : Bool) : List Char → Nat
  | [] => 0
  | c :: cs =>
    if isBlank c || isBreak c || (c == ':' && endsWord cs.head?) || (inFlow && isFlowSign c) then 0
    else plainLength inFlow cs + 1

/-- A plain scalar, and whether a break has followed it. -/
structure PlainScalar where
  text : List Char
  broken : Bool

/-- Reads words and the gaps between them; `gap` is the one before here. -/
def readPlainFrom (inFlow : Bool) (least : Nat) (began : Mark) :
    Nat → List Char → Gap → Cursor → Reading PlainScalar
  | 0, text, gap, c => .ok (⟨text, gap.broken⟩, c)
  | n + 1, text, gap, c =>
    if c.seesDocument || c.sees '#' then .ok (⟨text, gap.broken⟩, c)
    else
      let length := plainLength inFlow c.rest
      if length == 0 then .ok (⟨text, gap.broken⟩, c)
      else
        let text := text ++ gap.text ++ c.rest.take length
        let c := c.skip length
        match readGap began least (c.rest.length + 1) {} c with
        | .error e => .error e
        | .ok (gap, c) =>
          if !inFlow && c.mark.column < least then .ok (⟨text, gap.broken⟩, c)
          else readPlainFrom inFlow least began n text gap c

/-- Reads a plain scalar whose later lines start at column `least` or deeper. -/
def readPlain (inFlow : Bool) (least : Nat) (c : Cursor) : Reading PlainScalar :=
  readPlainFrom inFlow least c.mark (c.rest.length + 1) [] {} c

end LoxLang.Yaml
