import LoxLang.Value

/-!
# Tokens

A token is a piece of source text with its kind, the line it ends on and, for a number or a string, the
value that it denotes. The kinds are numbered in the order of `Kind.named`; a number beyond the last
of them is a kind too, one that no rule of the language mentions.

Main statements: `Kind.ofCode_code`, that the numbering loses nothing, and `Kind.code_lt`, where the
named kinds lie.
-/

namespace LoxLang

namespace Token

/-- What a token is for the grammar. -/
inductive Kind where
  | leftParen | rightParen | leftBrace | rightBrace
  | comma | dot | minus | plus | semicolon | slash | star
  | bang | bangEqual | equal | equalEqual
  | greater | greaterEqual | less | lessEqual
  | identifier | string | number
  | kwAnd | kwClass | kwElse | kwFalse | kwFun | kwFor | kwIf | kwNil | kwOr
  | kwPrint | kwReturn | kwSuper | kwThis | kwTrue | kwVar | kwWhile
  | eof
  | unnamed (excess : Nat)
  deriving DecidableEq, Repr, Inhabited

namespace Kind

/-- The kinds that have a name, in the order of their numbers. -/
def named : List Kind :=
  [.leftParen, .rightParen, .leftBrace, .rightBrace, .comma, .dot, .minus, .plus, .semicolon,
   .slash, .star, .bang, .bangEqual, .equal, .equalEqual, .greater, .greaterEqual, .less, .lessEqual,
   .identifier, .string, .number, .kwAnd, .kwClass, .kwElse, .kwFalse, .kwFun, .kwFor, .kwIf, .kwNil,
   .kwOr, .kwPrint, .kwReturn, .kwSuper, .kwThis, .kwTrue, .kwVar, .kwWhile, .eof]

/-- The number of a kind. -/
def code : Kind → Nat
  | .leftParen => 0 | .rightParen => 1 | .leftBrace => 2 | .rightBrace => 3
  | .comma => 4 | .dot => 5 | .minus => 6 | .plus => 7 | .semicolon => 8 | .slash => 9 | .star => 10
  | .bang => 11 | .bangEqual => 12 | .equal => 13 | .equalEqual => 14
  | .greater => 15 | .greaterEqual => 16 | .less => 17 | .lessEqual => 18
  | .identifier => 19 | .string => 20 | .number => 21
  | .kwAnd => 22 | .kwClass => 23 | .kwElse => 24 | .kwFalse => 25 | .kwFun => 26 | .kwFor => 27
  | .kwIf => 28 | .kwNil => 29 | .kwOr => 30 | .kwPrint => 31 | .kwReturn => 32 | .kwSuper => 33
  | .kwThis => 34 | .kwTrue => 35 | .kwVar => 36 | .kwWhile => 37
  | .eof => 38
  | .unnamed excess => 39 + excess

/-- The kind with a given number. -/
def ofCode (n : Nat) : Kind := (named[n]?).getD (.unnamed (n - 39))

/-- A 64-bit word as a signed number. -/
def signedWord (n : Nat) : Int := if n < 0x8000000000000000 then n else (n : Int) - 0x10000000000000000

/-- The name of a kind; one beyond the last goes by its number, read as a signed word. -/
def name : Kind → String
  | .leftParen => "LeftParen"
  | .rightParen => "RightParen"
  | .leftBrace => "LeftBrace"
  | .rightBrace => "RightBrace"
  | .comma => "Comma"
  | .dot => "Dot"
  | .minus => "Minus"
  | .plus => "Plus"
  | .semicolon => "Semicolon"
  | .slash => "Slash"
  | .star => "Star"
  | .bang => "Bang"
  | .bangEqual => "BangEqual"
  | .equal => "Equal"
  | .equalEqual => "EqualEqual"
  | .greater => "Greater"
  | .greaterEqual => "GreaterEqual"
  | .less => "Less"
  | .lessEqual => "LessEqual"
  | .identifier => "Identifier"
  | .string => "String"
  | .number => "Number"
  | .kwAnd => "And"
  | .kwClass => "Class"
  | .kwElse => "Else"
  | .kwFalse => "False"
  | .kwFun => "Fun"
  | .kwFor => "For"
  | .kwIf => "If"
  | .kwNil => "Nil"
  | .kwOr => "Or"
  | .kwPrint => "Print"
  | .kwReturn => "Return"
  | .kwSuper => "Super"
  | .kwThis => "This"
  | .kwTrue => "True"
  | .kwVar => "Var"
  | .kwWhile => "While"
  | .eof => "EOF"
  | .unnamed excess => "TokenType(" ++ toString (signedWord (39 + excess)) ++ ")"

/-- The kind with a given name. -/
def ofName? (name : String) : Option Kind := named.find? (·.name == name)

theorem code_lt {k : Kind} (h : ∀ excess, k ≠ .unnamed excess) : k.code < 39 := by
  cases k with
  | unnamed excess => exact absurd rfl (h excess)
  | _ => decide

theorem ofCode_code (k : Kind) : ofCode k.code = k := by
  cases k with
  | unnamed excess => simp [ofCode, code, named]
  | _ => rfl

end Kind

end Token

/-- A token of a source text. Lines count from one; a token that stands for no text has line zero. -/
structure Token where
  kind : Token.Kind
  lexeme : String
  line : Int
  literal : Value := .nil
  deriving Repr, Inhabited

namespace Token

/-- The text of a token in a listing. -/
def text (t : Token) : String :=
  if t.literal.isNil then t.kind.name ++ " " ++ t.lexeme
  else t.kind.name ++ " " ++ t.lexeme ++ " " ++ t.literal.listing

/-- Whether a token ends the program. -/
def isEof (t : Token) : Bool := t.kind == .eof

/-- The token that names the receiver of a method where the source does not. -/
def receiver : Token := { kind := .kwThis, lexeme := "this", line := 0 }

/-- The name under which a method finds the superclass of its class. -/
def superName : String := "super"

end Token

end LoxLang
