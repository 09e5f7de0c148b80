import LoxLang.Run.Basic

/-!
# Operators

What the unary and binary operators do with values. Which operator a token is depends on its kind alone;
its text only appears in messages. Equality takes any two values, addition two numbers or two
strings, and all other operators two numbers.
-/

namespace LoxLang.Run

/-- Applies a unary operator. -/
def applyUnary (op : Token) (v : Value) : Run Value :=
  match op.kind, v with
  | .bang, v => return .bool (!v.truthy)
  | .minus, .number x => return .number (-x)
  | .minus, v => fail op (.negation v.kind)
  | _, _ => fail op (.unknownUnary op.lexeme)

/-- Adds two numbers or joins two strings. -/
def applyPlus (op : Token) : Value → Value → Run Value
  | .number x, .number y => return .number (x + y)
  | .string s, .string t => return .string (s ++ t)
  | l, r => fail op (.addition l.kind r.kind)

/-- Applies an operator that takes two numbers. -/
def applyNumeric (op : Token) (x y : Float) : Run Value :=
  match op.kind with
  | .minus => return .number (x - y)
  | .star => return .number (x * y)
  | .slash => return .number (x / y)
  | .greater => return .bool (x > y)
  | .greaterEqual => return .bool (x ≥ y)
  | .less => return .bool (x < y)
  | .lessEqual => return .bool (x ≤ y)
  | _ => fail op (.unknownBinary op.lexeme)

/-- Applies a binary operator. -/
def applyBinary (op : Token) (l r : Value) : Run Value :=
  match op.kind with
  | .equalEqual => return .bool (l.equals r)
  | .bangEqual => return .bool (!l.equals r)
  | .plus => applyPlus op l r
  | _ =>
    match l, r with
    | .number x, .number y => applyNumeric op x y
    | l, r => fail op (.arithmetic op.lexeme l.kind r.kind)

/-- Whether the left side of a conjunction or disjunction decides it. -/
def decides (op : Token) (left : Value) : Bool :=
  if op.kind = .kwOr then left.truthy else !left.truthy

end LoxLang.Run
