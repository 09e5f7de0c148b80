import LoxLang.Parse.Statement

/-!
# Parsing what is left

A parser over the tokens that are left answers with a tree or a failure, the tokens that it left, and the
errors that it reported. The tokens are those before the end of the program.

Main statement: `run_bind`, how two parsers follow each other.
-/

namespace LoxLang.Parse

/-- The answer of a parser. -/
structure Reply (α : Type) where
  result : Option α
  rest : List Token
  errors : List SyntaxError

/-- A parser, given the token that ends the program and the tokens before it. -/
def Parser (α : Type) := Token → List Token → Reply α

/-- The next token, which is the end of the program if no other is left. -/
def next (eof : Token) (ts : List Token) : Token := ts.head?.getD eof

/-! ### Going on after a failure -/

/-- The kinds of tokens that start a statement and nothing else. -/
def startsStatement : Token.Kind → Bool
  | .kwClass | .kwFun | .kwVar | .kwFor | .kwIf | .kwWhile | .kwPrint | .kwReturn => true
  | _ => false

/-- Passes over tokens to the next boundary: the place after a semicolon, or before a token that
starts a statement. The last token passed over so far is `last`. -/
def toBoundary (last : Token) : List Token → List Token
  | [] => []
  | t :: ts =>
    if last.kind == .semicolon || startsStatement t.kind then t :: ts else toBoundary t ts

/-- Where reading goes on after a failure that began at `start` and left `rest`: at the first boundary
from there on, at least one token after the start. -/
def resume (start rest : List Token) : List Token :=
  match start.drop (start.length - rest.length - 1) with
  | [] => []
  | last :: after => toBoundary last after

namespace Parser

/-- Reads nothing and answers with a tree. -/
@[inline] protected def pure (a : α) : Parser α := fun _ ts => ⟨some a, ts, []⟩

/-- Two parsers in sequence; a failure of the first is a failure of both. -/
@[inline] protected def bind (p : Parser α) (f : α → Parser β) : Parser β := fun eof ts =>
  match p eof ts with
  | ⟨none, rest, errors⟩ => ⟨none, rest, errors⟩
  | ⟨some a, rest, errors⟩ =>
    let reply := f a eof rest
    { reply with errors := errors ++ reply.errors }

/-- Turns the failure of a parser into the absence of a result. -/
protected def recovering (p : Parser α) : Parser (Option α) := fun eof ts =>
  match p eof ts with
  | ⟨some a, rest, errors⟩ => ⟨some (some a), rest, errors⟩
  | ⟨none, rest, errors⟩ => ⟨some none, resume ts rest, errors⟩

end Parser

instance : Parse Parser where
  pure := Parser.pure
  bind := Parser.bind
  peek eof ts := ⟨some (next eof ts), ts, []⟩
  atEnd _ ts := ⟨some ts.isEmpty, ts, []⟩
  advance eof ts := ⟨some (next eof ts), ts.tail, []⟩
  report error _ ts := ⟨some (), ts, [error]⟩
  fail _ ts := ⟨none, ts, []⟩
  exhausted _ ts := ⟨none, ts, []⟩
  recovering _ p := p.recovering

theorem run_pure (a : α) (eof : Token) (ts : List Token) :
    (pure a : Parser α) eof ts = ⟨some a, ts, []⟩ := rfl

theorem run_bind (p : Parser α) (f : α → Parser β) (eof : Token) (ts : List Token) :
    (p >>= f) eof ts =
      match p eof ts with
      | ⟨none, rest, errors⟩ => ⟨none, rest, errors⟩
      | ⟨some a, rest, errors⟩ =>
        { f a eof rest with errors := errors ++ (f a eof rest).errors } := rfl

end LoxLang.Parse
