import LoxLang.Placement

/-!
# The check for misplaced constructs as a walk

The same check with what surrounds a node kept in a state: a function and a class change it before their parts
are visited and put it back after them. Wherever a walk starts, it adds the offences that the check lists for
what surrounds it there, and leaves the surroundings as they were.

Main statements: `visitStmt_eq`, `visitExpr_eq` and `analyze_eq`.
-/

namespace LoxLang.Placement

/-- The innermost function around a node. -/
inductive FunctionContext where
  | none
  | plain
  | method
  deriving DecidableEq, Repr

/-- The state of a walk: what surrounds the node that it visits, and the offences found so far. -/
structure Walk where
  function : FunctionContext := .none
  inClass : ClassContext := .outside
  errors : List PlacementError := []

namespace Walk

/-- Notes an offence. -/
def report (token : Token) (problem : PlacementProblem) (w : Walk) : Walk :=
  { w with errors := w.errors ++ [⟨token, problem⟩] }

/-- Visits `this`. -/
def visitThis (keyword : Token) (w : Walk) : Walk :=
  if w.inClass = .outside then w.report keyword .thisOutsideClass else w

/-- Visits `super`. -/
def visitSuper (keyword : Token) (w : Walk) : Walk :=
  match w.inClass with
  | .outside => w.report keyword .superOutsideClass
  | .plain => w.report keyword .superWithoutSuperclass
  | .derived => w

mutual

/-- Visits an expression. -/
def visitExpr : Expr → Walk → Walk
  | .literal _, w => w
  | .name _, w => w
  | .grouping e, w => visitExpr e w
  | .assign _ e, w => visitExpr e w
  | .unary _ e, w => visitExpr e w
  | .binary l _ r, w => visitExpr r (visitExpr l w)
  | .logical l _ r, w => visitExpr r (visitExpr l w)
  | .call f _ args, w => visitExprs args (visitExpr f w)
  | .get e _, w => visitExpr e w
  | .set e _ v, w => visitExpr e (visitExpr v w)
  | .this keyword, w => visitThis keyword w
  | .super keyword _, w => visitSuper keyword w

/-- Visits the arguments of a call. -/
def visitExprs : List Expr → Walk → Walk
  | [], w => w
  | e :: es, w => visitExprs es (visitExpr e w)

end

/-- Visits an expression that may be missing. -/
def visitOption : Option Expr → Walk → Walk
  | some e, w => visitExpr e w
  | none, w => w

/-- Visits the keyword of a `return`. -/
def visitReturn (keyword : Token) (w : Walk) : Walk :=
  if w.function = .none then w.report keyword .returnOutsideFunction else w

/-- Enters a class, whose superclass is only then looked at. -/
def enterClass (name : Token) (superclass : Option Token) (w : Walk) : Walk :=
  let inside := { w with inClass := .plain }
  match superclass with
  | none => inside
  | some parent =>
    let seen := if parent.lexeme == name.lexeme then inside.report parent .inheritsFromItself else inside
    { seen with inClass := .derived }

mutual

/-- Visits a statement. -/
def visitStmt : Stmt → Walk → Walk
  | .expression e, w => visitExpr e w
  | .print e, w => visitExpr e w
  | .var _ initial, w => visitOption initial w
  | .block body, w => visitStmts body w
  | .ifThen c yes, w => visitStmt yes (visitExpr c w)
  | .ifElse c yes no, w => visitStmt no (visitStmt yes (visitExpr c w))
  | .loop c body, w => visitStmt body (visitExpr c w)
  | .function f, w => visitFunction .plain f w
  | .ret keyword value, w =>
    visitOption value (visitReturn keyword w)
  | .classDecl name superclass methods, w =>
    { visitMethods methods (enterClass name superclass w) with inClass := w.inClass }

/-- Visits several statements. -/
def visitStmts : List Stmt → Walk → Walk
  | [], w => w
  | s :: ss, w => visitStmts ss (visitStmt s w)

/-- Visits the body of a function. -/
def visitFunction (kind : FunctionContext) : FunctionDecl → Walk → Walk
  | ⟨_, _, body⟩, w => { visitStmts body { w with function := kind } with function := w.function }

/-- Visits the methods of a class. -/
def visitMethods : List FunctionDecl → Walk → Walk
  | [], w => w
  | f :: fs, w => visitMethods fs (visitFunction .method f w)

end

/-- What the check knows of the surroundings. -/
def context (w : Walk) : Context := ⟨w.function ≠ .none, w.inClass⟩

/-- The walk after some more offences, in the same surroundings. -/
def adding (w : Walk) (es : List PlacementError) : Walk := { w with errors := w.errors ++ es }

@[simp] theorem adding_nil (w : Walk) : w.adding [] = w := by
  simp [adding]

@[simp] theorem adding_adding (w : Walk) (es es' : List PlacementError) :
    (w.adding es).adding es' = w.adding (es ++ es') := by
  simp [adding]

@[simp] theorem adding_inClass (w : Walk) (es : List PlacementError) :
    (w.adding es).inClass = w.inClass := rfl

@[simp] theorem adding_context (w : Walk) (es : List PlacementError) :
    (w.adding es).context = w.context := rfl

@[simp] theorem context_inClass (w : Walk) : w.context.inClass = w.inClass := rfl

theorem visitThis_eq (keyword : Token) (w : Walk) :
    visitThis keyword w = w.adding (thisErrors w.inClass keyword) := by
  unfold visitThis thisErrors
  cases w.inClass <;> simp [report, adding]

theorem visitSuper_eq (keyword : Token) (w : Walk) :
    visitSuper keyword w = w.adding (superErrors w.inClass keyword) := by
  unfold visitSuper superErrors
  cases w.inClass <;> simp [report, adding]

mutual

/-- Visiting an expression adds its offences and nothing else. -/
theorem visitExpr_eq : ∀ (e : Expr) (w : Walk), visitExpr e w = w.adding (exprErrors w.inClass e)
  | .literal _, w | .name _, w => by simp [visitExpr, exprErrors]
  | .grouping e, w | .assign _ e, w | .unary _ e, w | .get e _, w => by
    simp only [visitExpr, exprErrors, visitExpr_eq e]
  | .binary l _ r, w | .logical l _ r, w => by
    simp [visitExpr, exprErrors, visitExpr_eq l, visitExpr_eq r]
  | .call f _ args, w => by
    simp [visitExpr, exprErrors, visitExpr_eq f, visitExprs_eq args]
  | .set e _ v, w => by
    simp [visitExpr, exprErrors, visitExpr_eq v, visitExpr_eq e]
  | .this keyword, w => by
    rw [visitExpr, exprErrors, visitThis_eq]
  | .super keyword _, w => by
    rw [visitExpr, exprErrors, visitSuper_eq]

theorem visitExprs_eq : ∀ (es : List Expr) (w : Walk),
    visitExprs es w = w.adding (exprListErrors w.inClass es)
  | [], w => by simp [visitExprs, exprListErrors]
  | e :: es, w => by simp [visitExprs, exprListErrors, visitExpr_eq e, visitExprs_eq es]

end

theorem visitOption_eq (e : Option Expr) (w : Walk) :
    visitOption e w = w.adding (optionErrors w.inClass e) := by
  cases e with
  | none => simp [visitOption, optionErrors]
  | some e => exact visitExpr_eq e w

theorem visitReturn_eq (keyword : Token) (w : Walk) :
    visitReturn keyword w = w.adding (returnErrors w.context keyword) := by
  by_cases h : w.function = .none <;> simp [visitReturn, returnErrors, context, report, adding, h]

theorem enterClass_eq (name : Token) (superclass : Option Token) (w : Walk) :
    enterClass name superclass w =
      { w.adding (inheritanceErrors name superclass) with inClass := .ofSuperclass superclass } := by
  cases superclass with
  | none => simp [enterClass, inheritanceErrors, adding, ClassContext.ofSuperclass]
  | some parent =>
    by_cases h : parent.lexeme = name.lexeme <;>
      simp [enterClass, inheritanceErrors, adding, ClassContext.ofSuperclass, report, h]

mutual

/-- Visiting a statement adds its offences and nothing else: what surrounds it is put back. -/
theorem visitStmt_eq : ∀ (s : Stmt) (w : Walk), visitStmt s w = w.adding (stmtErrors w.context s)
  | .expression e, w | .print e, w => by
    simp [visitStmt, stmtErrors, visitExpr_eq]
  | .var _ initial, w => by
    simp [visitStmt, stmtErrors, visitOption_eq]
  | .block body, w => by
    simp [visitStmt, stmtErrors, visitStmts_eq body]
  | .ifThen c yes, w => by
    simp [visitStmt, stmtErrors, visitExpr_eq, visitStmt_eq yes]
  | .ifElse c yes no, w => by
    simp [visitStmt, stmtErrors, visitExpr_eq, visitStmt_eq yes, visitStmt_eq no]
  | .loop c body, w => by
    simp [visitStmt, stmtErrors, visitExpr_eq, visitStmt_eq body]
  | .function f, w => by
    rw [visitStmt, stmtErrors, visitFunction_eq .plain (by decide) f]
  | .ret keyword value, w => by
    rw [visitStmt, stmtErrors, visitReturn_eq, visitOption_eq]
    simp
  | .classDecl name superclass methods, w => by
    rw [visitStmt, stmtErrors, visitMethods_eq methods, enterClass_eq]
    simp only [adding, List.append_assoc]
    rfl

theorem visitStmts_eq : ∀ (ss : List Stmt) (w : Walk),
    visitStmts ss w = w.adding (stmtListErrors w.context ss)
  | [], w => by simp [visitStmts, stmtListErrors]
  | s :: ss, w => by simp [visitStmts, stmtListErrors, visitStmt_eq s, visitStmts_eq ss]

theorem visitFunction_eq : ∀ (kind : FunctionContext), kind ≠ .none → ∀ (f : FunctionDecl) (w : Walk),
    visitFunction kind f w = w.adding (functionErrors w.context f)
  | kind, hkind, ⟨_, _, body⟩, w => by
    rw [visitFunction, functionErrors, visitStmts_eq body]
    simp [adding, context, hkind]

theorem visitMethods_eq : ∀ (fs : List FunctionDecl) (w : Walk),
    visitMethods fs w = w.adding (functionListErrors w.context fs)
  | [], w => by simp [visitMethods, functionListErrors]
  | f :: fs, w => by
    simp [visitMethods, functionListErrors, visitFunction_eq .method (by decide) f, visitMethods_eq fs]

end

/-- The offences of a program, found by a walk from no surroundings. -/
def analyze (program : List Stmt) : List PlacementError := (visitStmts program {}).errors

theorem analyze_eq (program : List Stmt) : analyze program = placementErrors program := by
  rw [analyze, visitStmts_eq]
  rfl

end Walk

end LoxLang.Placement
