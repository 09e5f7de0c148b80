import LoxLang.Text.Quoted
import LoxLang.Tree

/-!
# Trees as text

A tree written out with every node in parentheses, its label first: `(print (+ 1 (group x)))`.
Strings are quoted and all other literals appear as a program would print them.
-/

namespace LoxLang

/-- A node with its label and its parts. -/
def parenthesize (label : String) (parts : List String) : String :=
  "(" ++ parts.foldl (fun text part => text ++ " " ++ part) label ++ ")"

/-- A literal as it is written in a tree. -/
def Value.dump : Value → String
  | .string text => Text.quote text
  | v => v.display

mutual

/-- The text of an expression. -/
def Expr.dump : Expr → String
  | .literal v => v.dump
  | .grouping e => parenthesize "group" [e.dump]
  | .name t => t.lexeme
  | .assign n e => parenthesize ("= " ++ n.lexeme) [e.dump]
  | .unary op e => parenthesize op.lexeme [e.dump]
  | .binary l op r => parenthesize op.lexeme [l.dump, r.dump]
  | .logical l op r => parenthesize op.lexeme [l.dump, r.dump]
  | .call f _ args => parenthesize "call" (f.dump :: Expr.dumpAll args)
  | .get e n => parenthesize "." [e.dump, n.lexeme]
  | .set e n v => parenthesize ".=" [e.dump, n.lexeme, v.dump]
  | .this _ => "this"
  | .super _ m => "(super " ++ m.lexeme ++ ")"

/-- The texts of several expressions. -/
def Expr.dumpAll : List Expr → List String
  | [] => []
  | e :: es => e.dump :: Expr.dumpAll es

end

/-- The parameters of a function between parentheses. -/
def dumpParams (params : List Token) : String :=
  "(" ++ String.intercalate " " (params.map (·.lexeme)) ++ ")"

mutual

/-- The text of a statement. -/
def Stmt.dump : Stmt → String
  | .expression e => parenthesize ";" [e.dump]
  | .print e => parenthesize "print" [e.dump]
  | .var n none => "(var " ++ n.lexeme ++ ")"
  | .var n (some e) => parenthesize ("var " ++ n.lexeme) [e.dump]
  | .block body => parenthesize "block" (Stmt.dumpAll body)
  | .ifThen c yes => parenthesize "if" [c.dump, yes.dump]
  | .ifElse c yes no => parenthesize "if" [c.dump, yes.dump, no.dump]
  | .loop c body => parenthesize "while" [c.dump, body.dump]
  | .function f => f.dump "fun"
  | .ret _ none => "(return)"
  | .ret _ (some e) => parenthesize "return" [e.dump]
  | .classDecl n none methods => parenthesize ("class " ++ n.lexeme) (FunctionDecl.dumpAll methods)
  | .classDecl n (some s) methods =>
    parenthesize ("class " ++ n.lexeme ++ " < " ++ s.lexeme) (FunctionDecl.dumpAll methods)

/-- The texts of several statements. -/
def Stmt.dumpAll : List Stmt → List String
  | [] => []
  | s :: ss => s.dump :: Stmt.dumpAll ss

/-- The text of a function, labelled by what it is. -/
def FunctionDecl.dump (label : String) : FunctionDecl → String
  | ⟨name, params, body⟩ =>
    parenthesize (label ++ " " ++ name.lexeme) (dumpParams params :: Stmt.dumpAll body)

/-- The texts of the methods of a class. -/
def FunctionDecl.dumpAll : List FunctionDecl → List String
  | [] => []
  | f :: fs => f.dump "method" :: FunctionDecl.dumpAll fs

end

/-- The text of a program, a line for each of its statements. -/
def dumpProgram (program : List Stmt) : String :=
  (program.map fun s => s.dump ++ "\n").foldl (· ++ ·) ""

end LoxLang
