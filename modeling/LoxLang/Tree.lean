import LoxLang.Token

/-!
# Programs as trees

Expressions and statements as the grammar builds them. Every node that a message may point at keeps its
token. There is no node for a counting loop: it is expressed through a block and a conditional
loop.
-/

namespace LoxLang

/-- An expression. -/
inductive Expr where
  | literal (value : Value)
  | grouping (inner : Expr)
  | name (token : Token)
  | assign (name : Token) (value : Expr)
  | unary (op : Token) (operand : Expr)
  | binary (left : Expr) (op : Token) (right : Expr)
  /-- a conjunction or disjunction, whose right side may stay unevaluated -/
  | logical (left : Expr) (op : Token) (right : Expr)
  /-- a call, with the parenthesis that closes it -/
  | call (callee : Expr) (paren : Token) (arguments : List Expr)
  | get (object : Expr) (name : Token)
  | set (object : Expr) (name : Token) (value : Expr)
  | this (keyword : Token)
  | super (keyword method : Token)
  deriving Repr, Inhabited

mutual

/-- A statement. -/
inductive Stmt where
  | expression (value : Expr)
  | print (value : Expr)
  | var (name : Token) (initial : Option Expr)
  | block (body : List Stmt)
  | ifThen (condition : Expr) (yes : Stmt)
  | ifElse (condition : Expr) (yes no : Stmt)
  | loop (condition : Expr) (body : Stmt)
  | function (declaration : FunctionDecl)
  | ret (keyword : Token) (value : Option Expr)
  | classDecl (name : Token) (superclass : Option Token) (methods : List FunctionDecl)

/-- A function or method: its name, its parameters and the statements of its body. -/
structure FunctionDecl where
  name : Token
  params : List Token
  body : List Stmt

end

instance : Inhabited Stmt := ⟨.block []⟩

/-- How many arguments a function takes. -/
def FunctionDecl.arity (f : FunctionDecl) : Nat := f.params.length

end LoxLang
