import LoxLang.Number.Integer
import LoxLang.Yaml.Lexeme

/-!
# Quoted scalars

A text between single quotes, in which a quote is written twice, or between double quotes, in which a
backslash escapes. Line breaks are folded.
-/

namespace LoxLang.Yaml

/-- Which quotes are around a text. -/
inductive Quotes where
  | single
  | double
  deriving DecidableEq, Repr

/-- The quote itself. -/
def Quotes.mark : Quotes → Char
  | .single => '\x27'
  | .double => '"'

/-- The character that an escape of one letter stands for. -/
def letterEscape? : Char → Option Char
  | '0' => some '\x00'
  | 'a' => some '\x07'
  | 'b' => some '\x08'
  | 't' => some '\t'
  | '\t' => some '\t'
  | 'n' => some '\n'
  | 'v' => some '\x0b'
  | 'f' => some '\x0c'
  | 'r' => some '\r'
  | 'e' => some '\x1b'
  | ' ' => some ' '
  | '"' => some '"'
  | '\x27' => some '\x27'
  | '\\' => some '\\'
  | 'N' => some '\x85'
  | '_' => some '\xa0'
  | 'L' => some '\u2028'
  | 'P' => some '\u2029'
  | _ => none

/-- How many hexadecimal digits an escape takes, if it takes any. -/
def escapeWidth? : Char → Option Nat
  | 'x' => some 2
  | 'u' => some 4
  | 'U' => some 8
  | _ => none

/-- Reads an escape with hexadecimal digits from the digits on. -/
def readCode (began : Mark) (width : Nat) (c : Cursor) : Reading Char :=
  match Integer.natIn? 16 (c.rest.take width) with
  | some n =>
    if c.rest.length < width then flawed .escapeDigits began c
    else if n.isValidChar then .ok (Char.ofNat n, c.skip width)
    else flawed .escapeRange began c
  | none => flawed .escapeDigits began c

/-- Reads an escape from the backslash on. -/
def readEscape (began : Mark) (c : Cursor) : Reading Char :=
  match c.ahead? 1 with
  | none => flawed .escapeUnknown began c
  | some x =>
    match letterEscape? x, escapeWidth? x with
    | some y, _ => .ok (y, c.skip 2)
    | none, some width => readCode began width (c.skip 2)
    | none, none => flawed .escapeUnknown began c

/-- Reads a word up to a blank, a break or the closing quote. An escaped break ends a word too and begins the
gap after it. -/
def readWord (quotes : Quotes) (began : Mark) :
    Nat → List Char → Cursor → Reading (List Char × Gap)
  | 0, word, c => .ok ((word, {}), c)
  | n + 1, word, c =>
    match c.next? with
    | none => .ok ((word, {}), c)
    | some x =>
      if isBlank x || isBreak x then .ok ((word, {}), c)
      else if x == quotes.mark then
        if quotes == .single && c.ahead? 1 == some x then
          readWord quotes began n (word ++ [x]) (c.skip 2)
        else .ok ((word, {}), c)
      else if quotes == .double && x == '\\' then
        if (c.ahead? 1).any isBreak then
          .ok ((word, { broken := true }), (c.skip 1).takeBreak.2)
        else
          match readEscape began c with
          | .ok (y, c) => readWord quotes began n (word ++ [y]) c
          | .error e => .error e
      else readWord quotes began n (word ++ [x]) (c.skip 1)

/-- Reads words and gaps up to the closing quote. -/
def readQuotedFrom (quotes : Quotes) (began : Mark) :
    Nat → List Char → Cursor → Reading (List Char)
  | 0, _, c => flawed .quotedEnd began c
  | n + 1, text, c =>
    if c.seesDocument then flawed .quotedDocument began c
    else if c.isDone then flawed .quotedEnd began c
    else
      match readWord quotes began (c.rest.length + 1) [] c with
      | .error e => .error e
      | .ok ((word, gap), c) =>
        if c.sees quotes.mark then .ok (text ++ word, c.skip 1)
        else
          match readGap began 0 (c.rest.length + 1) gap c with
          | .error e => .error e
          | .ok (gap, c) => readQuotedFrom quotes began n (text ++ word ++ gap.text) c

/-- Reads a quoted text from its opening quote on. -/
def readQuoted (quotes : Quotes) (c : Cursor) : Reading String :=
  match readQuotedFrom quotes c.mark (c.rest.length + 1) [] (c.skip 1) with
  | .ok (text, c) => .ok (String.ofList text, c)
  | .error e => .error e

end LoxLang.Yaml
