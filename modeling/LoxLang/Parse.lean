import LoxLang.Parse.Parser

/-!
# Parsing programs

A program is all the declarations before its end. The end is the first end token of the list; a list
whose last token is none gets one, on the line of its last token. Parsing always comes to an
answer: the statements that could be read, and the errors in the order in which they were met.
-/

namespace LoxLang

/-- What parsing finds in a list of tokens. -/
structure Parsed where
  statements : List Stmt
  errors : List SyntaxError

namespace Parse

/-- The tokens before the end of the program. -/
def body (tokens : List Token) : List Token := tokens.takeWhile fun t => !t.isEof

/-- The end token of a list that has none: after the last token, or on the first line. -/
def impliedEnd (tokens : List Token) : Token :=
  { kind := .eof, lexeme := "", line := (tokens.getLast?.map (·.line)).getD 1 }

/-- The token that ends the program. -/
def ending (tokens : List Token) : Token := (tokens.find? (·.isEof)).getD (impliedEnd tokens)

/-- An allowance that no list of this length uses up. -/
def allowance (tokens : List Token) : Nat := 4 * tokens.length + 4

end Parse

/-- Parses a list of tokens. -/
def parse (tokens : List Token) : Parsed :=
  let n := Parse.allowance tokens
  let program : Parse.Parser (List Stmt) := Parse.program (Parse.declaration n) n
  let reply := program (Parse.ending tokens) (Parse.body tokens)
  ⟨reply.result.getD [], reply.errors⟩

end LoxLang
