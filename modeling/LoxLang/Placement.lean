import LoxLang.Tree

/-!
# Statements and expressions out of place

Three constructs are grammatical everywhere and meaningful only in places: a `return` belongs into a
function, `this` into a class, and `super` into a class that has a superclass. A class moreover must
not name itself as its superclass. The check walks a program with what surrounds each node and lists the
offences in the order of the walk; the value of a field assignment comes before its object.
-/

namespace LoxLang

/-- What is wrong with a construct where it stands. -/
inductive PlacementProblem where
  | returnOutsideFunction
  | thisOutsideClass
  | superOutsideClass
  | superWithoutSuperclass
  | inheritsFromItself
  deriving DecidableEq, Repr

/-- The words for a misplaced construct. -/
def PlacementProblem.message : PlacementProblem → String
  | .returnOutsideFunction => "Can't return from top-level code."
  | .thisOutsideClass => "Can't use 'this' outside of a class."
  | .superOutsideClass => "Can't use 'super' outside of a class."
  | .superWithoutSuperclass => "Can't use 'super' in a class with no superclass."
  | .inheritsFromItself => "A class can't inherit from itself."

/-- A misplaced construct, at its token. -/
structure PlacementError where
  token : Token
  problem : PlacementProblem
  deriving Repr

namespace Placement

/-- The innermost class around a node. -/
inductive ClassContext where
  | outside
  | plain
  | derived
  deriving DecidableEq, Repr

/-- What surrounds a node. -/
structure Context where
  inFunction : Bool := false
  inClass : ClassContext := .outside
  deriving Repr

/-- The offence of `this` in a context. -/
def thisErrors (context : ClassContext) (keyword : Token) : List PlacementError :=
  match context with
  | .outside => [⟨keyword, .thisOutsideClass⟩]
  | _ => []

/-- The offence of `super` in a context. -/
def superErrors (context : ClassContext) (keyword : Token) : List PlacementError :=
  match context with
  | .outside => [⟨keyword, .superOutsideClass⟩]
  | .plain => [⟨keyword, .superWithoutSuperclass⟩]
  | .derived => []

/-- The offence of a `return` in a context. -/
def returnErrors (context : Context) (keyword : Token) : List PlacementError :=
  if context.inFunction then [] else [⟨keyword, .returnOutsideFunction⟩]

/-- The offence of a class that names itself as its superclass. -/
def inheritanceErrors (name : Token) : Option Token → List PlacementError
  | some superclass =>
    if superclass.lexeme == name.lexeme then [⟨superclass, .inheritsFromItself⟩] else []
  | none => []

/-- The context that a class with this superclass gives its methods. -/
def ClassContext.ofSuperclass : Option Token → ClassContext
  | some _ => .derived
  | none => .plain

mutual

/-- The offences in an expression. -/
def exprErrors (context : ClassContext) : Expr → List PlacementError
  | .literal _ => []
  | .name _ => []
  | .grouping e => exprErrors context e
  | .assign _ e => exprErrors context e
  | .unary _ e => exprErrors context e
  | .binary l _ r => exprErrors context l ++ exprErrors context r
  | .logical l _ r => exprErrors context l ++ exprErrors context r
  | .call f _ args => exprErrors context f ++ exprListErrors context args
  | .get e _ => exprErrors context e
  | .set e _ v => exprErrors context v ++ exprErrors context e
  | .this keyword => thisErrors context keyword
  | .super keyword _ => superErrors context keyword

/-- The offences in the arguments of a call. -/
def exprListErrors (context : ClassContext) : List Expr → List PlacementError
  | [] => []
  | e :: es => exprErrors context e ++ exprListErrors context es

end

/-- The offences in an expression that may be missing. -/
def optionErrors (context : ClassContext) : Option Expr → List PlacementError
  | some e => exprErrors context e
  | none => []

mutual

/-- The offences in a statement. -/
def stmtErrors (context : Context) : Stmt → List PlacementError
  | .expression e => exprErrors context.inClass e
  | .print e => exprErrors context.inClass e
  | .var _ initial => optionErrors context.inClass initial
  | .block body => stmtListErrors context body
  | .ifThen c yes => exprErrors context.inClass c ++ stmtErrors context yes
  | .ifElse c yes no =>
    exprErrors context.inClass c ++ stmtErrors context yes ++ stmtErrors context no
  | .loop c body => exprErrors context.inClass c ++ stmtErrors context body
  | .function f => functionErrors context f
  | .ret keyword value => returnErrors context keyword ++ optionErrors context.inClass value
  | .classDecl name superclass methods =>
    inheritanceErrors name superclass ++
      functionListErrors { context with inClass := .ofSuperclass superclass } methods

/-- The offences in several statements. -/
def stmtListErrors (context : Context) : List Stmt → List PlacementError
  | [] => []
  | s :: ss => stmtErrors context s ++ stmtListErrors context ss

/-- The offences in the body of a function. -/
def functionErrors (context : Context) : FunctionDecl → List PlacementError
  | ⟨_, _, body⟩ => stmtListErrors { context with inFunction := true } body

/-- The offences in the methods of a class. -/
def functionListErrors (context : Context) : List FunctionDecl → List PlacementError
  | [] => []
  | f :: fs => functionErrors context f ++ functionListErrors context fs

end

end Placement

/-- The misplaced constructs of a program. -/
def placementErrors (program : List Stmt) : List PlacementError :=
  Placement.stmtListErrors {} program

end LoxLang
