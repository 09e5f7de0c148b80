import LoxLang.Number.Decimal
import LoxLang.Number.Integer
import LoxLang.Yaml.Timestamp

/-!
# What scalars denote

A plain scalar denotes nothing, a truth value, a whole number, a floating-point number, a point in time, or
itself, by its looks. Underscores in a number do not count. A whole number has a sign and a base,
told by `0x`, `0o`, `0b` or a leading zero, and must fit 64 bits; one that does not is a floating-point number
like any other with decimal digits. A tag says what a scalar has to denote.
-/

namespace LoxLang.Yaml

/-- What a scalar denotes. -/
inductive Scalar where
  | null
  | bool (b : Bool)
  | int (n : Int)
  | float (x : Float)
  | timestamp
  | mergeMark
  | string (text : String)

namespace Tag

def null : String := "!!null"
def bool : String := "!!bool"
def int : String := "!!int"
def float : String := "!!float"
def timestamp : String := "!!timestamp"
def merge : String := "!!merge"
def string : String := "!!str"
def sequence : String := "!!seq"
def mapping : String := "!!map"

/-- What the short form of a tag stands for. -/
def longForm : String := "tag:yaml.org,2002:"

/-- The short form of a tag, if it has one. -/
def short (tag : String) : String :=
  if longForm.toList.isPrefixOf tag.toList then
    "!!" ++ String.ofList (tag.toList.drop longForm.length)
  else tag

end Tag

/-- The tag of what a scalar denotes. -/
def Scalar.tag : Scalar → String
  | .null => Tag.null
  | .bool _ => Tag.bool
  | .int _ => Tag.int
  | .float _ => Tag.float
  | .timestamp => Tag.timestamp
  | .mergeMark => Tag.merge
  | .string _ => Tag.string

open Integer

/-- A whole number without a sign, in the base that its first characters tell. -/
def unsigned? : List Char → Option Nat
  | [] => none
  | '0' :: mark :: d :: ds =>
    match mark with
    | 'b' | 'B' => natIn? 2 (d :: ds)
    | 'o' | 'O' => natIn? 8 (d :: ds)
    | 'x' | 'X' => natIn? 16 (d :: ds)
    | c => natIn? 8 (c :: d :: ds)
  | '0' :: ds => natIn? 8 ds
  | ds => natIn? 10 ds

/-- A sign that stands after the mark of the base instead of before it. -/
def lateSign? (base : Nat) : List Char → Option Int
  | '+' :: d :: ds => (natIn? base (d :: ds)).bind (signed? false)
  | '-' :: d :: ds => (natIn? base (d :: ds)).bind (signed? true)
  | _ => none

/-- A whole number of at most 64 bits. -/
def int? : List Char → Option Int
  | '+' :: ds => (unsigned? ds).bind (signed? false)
  | '-' :: ds => (unsigned? ds).bind (signed? true)
  | ds =>
    match unsigned? ds with
    | some n => if n < 2 * wordLimit then some n else none
    | none =>
      match ds with
      | '0' :: 'b' :: rest => lateSign? 2 rest
      | '0' :: 'o' :: rest => lateSign? 8 rest
      | _ => none

/-- Beyond this, a power of ten decides that a number of the length of a line is zero or out of
range. -/
def powerBound : Nat := 100000

/-- The power of ten at the end of a floating-point number. -/
def power? : List Char → Option Int
  | [] => some 0
  | mark :: cs =>
    let (negative, ds) := takeSign cs
    if (mark == 'e' || mark == 'E') && !ds.isEmpty && ds.all Token.isDigit then
      let n := min (Decimal.ofDigits ds) powerBound
      some (if negative then -n else n)
    else none

/-- A floating-point number with decimal digits, if it is in range. -/
def float? (cs : List Char) : Option Float :=
  let (negative, cs) := takeSign cs
  let whole := cs.takeWhile Token.isDigit
  let (fraction, rest) := match cs.dropWhile Token.isDigit with
    | '.' :: r => (r.takeWhile Token.isDigit, r.dropWhile Token.isDigit)
    | r => ([], r)
  if whole.isEmpty && fraction.isEmpty then none
  else do
    let power ← power? rest
    let literal := Decimal.ofLiteral whole fraction
    let x ← (Decimal.mk literal.coefficient (literal.exponent + power)).toFloat?
    return if negative then -x else x

/-- Whether every underscore stands between two digits; `digit` tells whether one comes just before. -/
def joinsDigits (digit : Bool) : List Char → Bool
  | [] => true
  | '_' :: d :: cs => digit && Token.isDigit d && joinsDigits true cs
  | ['_'] => false
  | c :: cs => joinsDigits (Token.isDigit c) cs

/-- Words with a meaning of their own. -/
def reserved : List (String × Scalar) :=
  [("", .null), ("~", .null), ("null", .null), ("Null", .null), ("NULL", .null),
   ("true", .bool true), ("True", .bool true), ("TRUE", .bool true),
   ("false", .bool false), ("False", .bool false), ("FALSE", .bool false),
   (".nan", .float (0 / 0)), (".NaN", .float (0 / 0)), (".NAN", .float (0 / 0)),
   (".inf", .float (1 / 0)), (".Inf", .float (1 / 0)), (".INF", .float (1 / 0)),
   ("+.inf", .float (1 / 0)), ("+.Inf", .float (1 / 0)), ("+.INF", .float (1 / 0)),
   ("-.inf", .float (-1 / 0)), ("-.Inf", .float (-1 / 0)), ("-.INF", .float (-1 / 0))]

/-- What a text that starts like a number denotes. One that starts with a point may have underscores
only between digits. -/
def numeral? (times : Bool) (cs : List Char) : Option Scalar :=
  let plain := cs.filter (· != '_')
  match cs with
  | [] => none
  | c :: _ =>
    if c == '.' then (if joinsDigits false cs then (float? plain).map .float else none)
    else if c == '+' || c == '-' || Token.isDigit c then
      if times && Timestamp.isTimestamp cs then some .timestamp
      else
        match int? plain with
        | some n => some (.int n)
        | none => (float? plain).map .float
    else none

/-- What a text looks like; points in time count only if asked for. -/
def look (times : Bool) (text : String) : Scalar :=
  match reserved.lookup text with
  | some s => s
  | none => (numeral? times text.toList).getD (.string text)

/-- What a plain scalar without a tag denotes. -/
def resolve (text : String) : Scalar := if text == "<<" then .mergeMark else look true text

/-- A scalar that does not look like what its tag says. -/
structure TagMismatch where
  found : String
  text : String
  wanted : String

/-- The tags that say what a scalar has to look like. -/
def isDemanding (tag : String) : Bool :=
  [Tag.null, Tag.bool, Tag.int, Tag.float, Tag.timestamp].contains tag

/-- What a scalar with a tag denotes: a whole number may stand for a floating-point one, and with a tag
that demands nothing a scalar denotes itself. -/
def resolveAs (tag text : String) : Except TagMismatch Scalar :=
  if isDemanding tag then
    let s := look (tag == Tag.timestamp) text
    if s.tag == tag then .ok s
    else
      match s with
      | .int n =>
        if tag == Tag.float && n < wordLimit then .ok (.float (Float.ofInt n))
        else .error ⟨s.tag, text, tag⟩
      | s => .error ⟨s.tag, text, tag⟩
  else .ok (.string text)

end LoxLang.Yaml
