import LoxLang.Number.Display

/-!
# Run-time values

What a variable, a field or a literal holds. Numbers and strings are plain data; functions, classes and
instances live in the store, and a value only refers to them. A reference carries the name under which
its object is printed, so that the text of a value needs no store; two references are the
same when they lead to the same object.

Main statements: `equals_nil`, that nil equals only nil, and `truthy_iff`, that nil and false are
the two values that count as false.
-/

namespace LoxLang

/-- A way to an object of the store, and the name it is printed under. -/
structure Ref where
  id : Nat
  name : String
  deriving DecidableEq, Repr

/-- Any value of a program. -/
inductive Value where
  | nil
  | bool (b : Bool)
  | number (x : Float)
  | string (text : String)
  | functionRef (ref : Ref)
  | classRef (ref : Ref)
  | instanceRef (ref : Ref)
  deriving Repr, Inhabited

namespace Value

/-- The sorts of values that messages tell apart. -/
inductive Kind where
  | nil | boolean | number | string | function | «class» | «instance»
  deriving DecidableEq, Repr

/-- The name of a sort of values. -/
def Kind.name : Kind → String
  | .nil => "nil"
  | .boolean => "boolean"
  | .number => "number"
  | .string => "string"
  | .function => "function"
  | .class => "class"
  | .instance => "instance"

/-- The sort of a value. -/
def kind : Value → Kind
  | .nil => .nil
  | .bool _ => .boolean
  | .number _ => .number
  | .string _ => .string
  | .functionRef _ => .function
  | .classRef _ => .class
  | .instanceRef _ => .instance

/-- The text of a value as a program prints it. -/
def display : Value → String
  | .nil => "nil"
  | .bool b => if b then "true" else "false"
  | .number x => Number.display x
  | .string text => text
  | .functionRef ref => "<fn " ++ ref.name ++ ">"
  | .classRef ref => ref.name
  | .instanceRef ref => ref.name ++ " instance"

/-- The text of a value in a listing of tokens. -/
def listing : Value → String
  | .number x => Number.listing x
  | v => v.display

/-- Whether a condition with this value holds. -/
def truthy : Value → Bool
  | .nil => false
  | .bool b => b
  | _ => true

/-- Equality as a program sees it: numbers compare as doubles, objects by identity. -/
def equals : Value → Value → Bool
  | .nil, .nil => true
  | .bool a, .bool b => a == b
  | .number x, .number y => x == y
  | .string s, .string t => s == t
  | .functionRef r, .functionRef s => r.id == s.id
  | .classRef r, .classRef s => r.id == s.id
  | .instanceRef r, .instanceRef s => r.id == s.id
  | _, _ => false

/-- Whether a value is nil. -/
def isNil : Value → Bool
  | .nil => true
  | _ => false

theorem equals_nil (v : Value) : v.equals .nil = v.isNil := by
  cases v <;> rfl

theorem truthy_iff (v : Value) : v.truthy = true ↔ v ≠ .nil ∧ v ≠ .bool false := by
  cases v <;> simp [truthy]

end Value

end LoxLang
