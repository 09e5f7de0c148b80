import LoxLang.Token

/-!
# Run-time errors

What can go wrong while a program runs, at which token, and, if it was asked for, which calls were
active then.
-/

namespace LoxLang

/-- What went wrong. -/
inductive Fault where
  | undefinedVariable (name : String)
  | undefinedProperty (name : String)
  | noProperties (got : Value.Kind)
  | noFields (got : Value.Kind)
  | negation (got : Value.Kind)
  | addition (left right : Value.Kind)
  | arithmetic (op : String) (left right : Value.Kind)
  | unknownUnary (op : String)
  | unknownBinary (op : String)
  | notCallable (got : Value.Kind)
  | wrongArity (expected got : Nat)
  | stackOverflow
  | superclassNotClass
  | superOutsideMethod
  | initializerReturn
  | topLevelReturn
  deriving DecidableEq, Repr

/-- The words for what went wrong. -/
def Fault.message : Fault → String
  | .undefinedVariable name => "Undefined variable '" ++ name ++ "'."
  | .undefinedProperty name => "Undefined property '" ++ name ++ "'."
  | .noProperties got => "Only instances have properties, got " ++ got.name ++ "."
  | .noFields got => "Only instances have fields, got " ++ got.name ++ "."
  | .negation got => "Operand of '-' must be a number, got " ++ got.name ++ "."
  | .addition left right =>
    "Operands of '+' must be two numbers or two strings, got " ++ left.name ++ " and " ++
      right.name ++ "."
  | .arithmetic op left right =>
    "Operands of '" ++ op ++ "' must be numbers, got " ++ left.name ++ " and " ++ right.name ++ "."
  | .unknownUnary op => "Unknown unary operator '" ++ op ++ "'."
  | .unknownBinary op => "Unknown binary operator '" ++ op ++ "'."
  | .notCallable got => "Can only call functions and classes, got " ++ got.name ++ "."
  | .wrongArity expected got =>
    "Expected " ++ toString expected ++ " arguments but got " ++ toString got ++ "."
  | .stackOverflow => "Stack overflow."
  | .superclassNotClass => "Superclass must be a class."
  | .superOutsideMethod => "Can't use 'super' outside of a method."
  | .initializerReturn => "Can't return a value from an initializer."
  | .topLevelReturn => "Can't return from top-level code."

/-- An active call: what was called, and the line of the call. -/
structure Frame where
  name : String
  line : Int
  deriving DecidableEq, Repr

/-- The text of an active call. -/
def Frame.text (f : Frame) : String := "[line " ++ toString f.line ++ "] in " ++ f.name

/-- A run-time error, at its token. The trace lists the active calls from the innermost outwards and
is empty where none was kept. -/
structure RuntimeError where
  token : Token
  fault : Fault
  trace : List Frame := []
  deriving Repr

/-- The error with the active calls as its trace, unless it has one. -/
def RuntimeError.traced (e : RuntimeError) (active : List Frame) : RuntimeError :=
  if e.trace.isEmpty then { e with trace := active } else e

end LoxLang
