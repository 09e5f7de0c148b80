import LoxLang.Parse.Basic

/-!
# Parsing expressions

From the loosest to the tightest: assignment, `or`, `and`, equality, comparison, sum, product, prefix
operators, calls and properties, and what stands alone. Each level is a parser in terms of the next, and
of `nested`, the parser for a whole expression further inside. `expression` ties the knot: its
argument bounds how deep expressions may nest and how often a level may repeat, and any
number above that of the tokens left is as good as any other, since every repetition reads one.
-/

namespace LoxLang.Parse

variable {m : Type → Type} [Parse m]

/-- The most parameters and arguments that go without complaint. -/
def maxArguments : Nat := 255

/-- One or more items with commas between them, of which `count` came before; a `limit` is reported
before each item that is one too many. -/
def commaSeparated (item : m α) (limit : SyntaxProblem) : Nat → Nat → m (List α)
  | 0, _ => exhausted
  | n + 1, count => do
    if maxArguments ≤ count then reportHere limit
    let first ← item
    match ← accept? [.comma] with
    | some _ => return first :: (← commaSeparated item limit n (count + 1))
    | none => return [first]

/-- Operands joined by operators of one level, grouped to the left; `left` is what came before. -/
def joined (operand : m Expr) (operators : List Token.Kind)
    (join : Expr → Token → Expr → Expr) : Nat → Expr → m Expr
  | 0, _ => exhausted
  | n + 1, left => do
    match ← accept? operators with
    | some op =>
      let right ← operand
      joined operand operators join n (join left op right)
    | none => return left

/-- A level of binary operators. -/
def level (n : Nat) (operators : List Token.Kind) (join : Expr → Token → Expr → Expr)
    (operand : m Expr) : m Expr := do
  let left ← operand
  joined operand operators join n left

/-- What stands alone: a literal, a name, `this`, a method of the superclass, or parentheses. -/
def primary (nested : m Expr) : m Expr := do
  let t ← peek
  match t.kind with
  | .kwFalse => let _ ← advance; return .literal (.bool false)
  | .kwTrue => let _ ← advance; return .literal (.bool true)
  | .kwNil => let _ ← advance; return .literal .nil
  | .number | .string => let _ ← advance; return .literal t.literal
  | .kwThis => let _ ← advance; return .this t
  | .kwSuper =>
    let _ ← advance
    let _ ← expect .dot .superDot
    let method ← expect .identifier .superMethod
    return .super t method
  | .identifier => let _ ← advance; return .name t
  | .leftParen =>
    let _ ← advance
    let inner ← nested
    let _ ← expect .rightParen .groupingClose
    return .grouping inner
  | _ => missing .expression

/-- The arguments of a call and the parenthesis that closes it. -/
def arguments (n : Nat) (nested : m Expr) : m (Token × List Expr) := do
  let args ← if ← check .rightParen then pure [] else commaSeparated nested .tooManyArguments n 0
  let paren ← expect .rightParen .argumentsClose
  return (paren, args)

/-- Calls and properties that follow an expression. -/
def suffixes (n : Nat) (nested : m Expr) : Nat → Expr → m Expr
  | 0, _ => exhausted
  | k + 1, e => do
    match ← accept? [.leftParen, .dot] with
    | some t =>
      if t.kind = .leftParen then
        let (paren, args) ← arguments n nested
        suffixes n nested k (.call e paren args)
      else
        let name ← expect .identifier .propertyName
        suffixes n nested k (.get e name)
    | none => return e

/-- A call, a property, or what stands alone. -/
def call (n : Nat) (nested : m Expr) : m Expr := do
  let e ← primary nested
  suffixes n nested n e

/-- Negations before a call. -/
def unary (operand : m Expr) : Nat → m Expr
  | 0 => exhausted
  | n + 1 => do
    match ← accept? [.bang, .minus] with
    | some op => return .unary op (← unary operand n)
    | none => operand

/-- All levels of operators. -/
def operators (n : Nat) (nested : m Expr) : m Expr :=
  level n [.kwOr] .logical <|
  level n [.kwAnd] .logical <|
  level n [.bangEqual, .equalEqual] .binary <|
  level n [.greater, .greaterEqual, .less, .lessEqual] .binary <|
  level n [.minus, .plus] .binary <|
  level n [.slash, .star] .binary <|
  unary (call n nested) n

/-- The assignment of a value to an expression: to a name or to a property. Anything else is
reported at the equals sign and stands as it is. -/
def assignTo (equals : Token) (value : Expr) : Expr → m Expr
  | .name n => return .assign n value
  | .get object n => return .set object n value
  | target => do
    report ⟨equals, .invalidTarget⟩
    return target

/-- An assignment, or an expression without one. -/
def assignment (n : Nat) (nested : m Expr) : m Expr := do
  let target ← operators n nested
  match ← accept? [.equal] with
  | some equals =>
    let value ← nested
    assignTo equals value target
  | none => return target

/-- An expression. -/
def expression : Nat → m Expr
  | 0 => exhausted
  | n + 1 => later fun _ => assignment (n + 1) (expression n)

end LoxLang.Parse
