import LoxLang.Run.Object
import LoxLang.Run.Operator

/-!
# Running programs

Statements and expressions are evaluated directly off the tree, from left to right. The number that every
function here takes first is an allowance of steps: it goes down by one with every evaluation
inside another and every round of a loop, and whoever finds it used up gives up. A result
that is reached with some allowance is reached with any larger one.
-/

namespace LoxLang.Run

mutual

/-- Executes a statement in a scope. -/
def exec (o : Options) : Nat → ScopeId → Stmt → Run Completion
  | 0, _, _ => exhausted
  | n + 1, scope, .expression e => do
    let _ ← eval o n scope e
    return .normal
  | n + 1, scope, .print e => do
    let v ← eval o n scope e
    print v.display
    return .normal
  | n + 1, scope, .var name initial => do
    let v ← evalOption o n scope initial
    change (·.define scope name.lexeme v)
    return .normal
  | n + 1, scope, .block body => do
    let inner ← make (·.newScope (some scope))
    execAll o n inner body
  | n + 1, scope, .ifThen condition yes => do
    let c ← eval o n scope condition
    if c.truthy then exec o n scope yes else return .normal
  | n + 1, scope, .ifElse condition yes no => do
    let c ← eval o n scope condition
    if c.truthy then exec o n scope yes else exec o n scope no
  | n + 1, scope, .loop condition body => execLoop o n scope condition body
  | _ + 1, scope, .function f => do
    let v ← make (·.newFunction { declaration := f, scope, isInitializer := false })
    change (·.define scope f.name.lexeme v)
    return .normal
  | n + 1, scope, .ret keyword value => do
    let v ← evalOption o n scope value
    return .returned keyword v
  | _ + 1, scope, .classDecl name superclass methods => do
    declareClass scope name superclass methods
    return .normal

/-- Executes statements in a scope until one of them returns. -/
def execAll (o : Options) : Nat → ScopeId → List Stmt → Run Completion
  | 0, _, _ => exhausted
  | _ + 1, _, [] => return .normal
  | n + 1, scope, s :: ss => do
    match ← exec o n scope s with
    | .normal => execAll o n scope ss
    | .returned keyword v => return .returned keyword v

/-- Executes the body of a loop as long as the condition holds. -/
def execLoop (o : Options) : Nat → ScopeId → Expr → Stmt → Run Completion
  | 0, _, _, _ => exhausted
  | n + 1, scope, condition, body => do
    let c ← eval o n scope condition
    if c.truthy then
      match ← exec o n scope body with
      | .normal => execLoop o n scope condition body
      | .returned keyword v => return .returned keyword v
    else return .normal

/-- Evaluates an expression in a scope. -/
def eval (o : Options) : Nat → ScopeId → Expr → Run Value
  | 0, _, _ => exhausted
  | _ + 1, _, .literal v => return v
  | n + 1, scope, .grouping e => eval o n scope e
  | _ + 1, scope, .name t => lookup scope t
  | n + 1, scope, .assign name e => do
    let v ← eval o n scope e
    assign scope name v
    return v
  | n + 1, scope, .unary op e => do
    let v ← eval o n scope e
    applyUnary op v
  | n + 1, scope, .binary l op r => do
    let a ← eval o n scope l
    let b ← eval o n scope r
    applyBinary op a b
  | n + 1, scope, .logical l op r => do
    let a ← eval o n scope l
    if decides op a then return a else eval o n scope r
  | n + 1, scope, .call f paren args => do
    let callee ← eval o n scope f
    let values ← evalAll o n scope args
    call o n callee paren values
  | n + 1, scope, .get object name => do
    let v ← eval o n scope object
    property v name
  | n + 1, scope, .set object name e => do
    let v ← eval o n scope object
    let owner ← fieldOwner v name
    let v ← eval o n scope e
    change (·.setField owner name.lexeme v)
    return v
  | _ + 1, scope, .this keyword => lookup scope keyword
  | _ + 1, scope, .super keyword method => superMethod scope keyword method

/-- Evaluates an expression that may be missing, and is nil then. -/
def evalOption (o : Options) : Nat → ScopeId → Option Expr → Run Value
  | 0, _, _ => exhausted
  | _ + 1, _, none => return .nil
  | n + 1, scope, some e => eval o n scope e

/-- Evaluates the arguments of a call. -/
def evalAll (o : Options) : Nat → ScopeId → List Expr → Run (List Value)
  | 0, _, _ => exhausted
  | _ + 1, _, [] => return []
  | n + 1, scope, e :: es => do
    let v ← eval o n scope e
    let vs ← evalAll o n scope es
    return v :: vs

/-- Calls a value: it must be callable, take as many arguments as there are, and not be one call too
many. -/
def call (o : Options) : Nat → Value → Token → List Value → Run Value
  | 0, _, _, _ => exhausted
  | n + 1, callee, paren, args => do
    match ← read (·.arity? callee) with
    | none => fail paren (.notCallable callee.kind)
    | some arity =>
      if args.length = arity then
        guardDepth o paren
        within o { name := callee.display, line := paren.line } (apply o n callee args)
      else fail paren (.wrongArity arity args.length)

/-- Applies a callable value: a function runs, and a class makes an instance and has its initializer
set it up. -/
def apply (o : Options) : Nat → Value → List Value → Run Value
  | 0, _, _ => exhausted
  | n + 1, .functionRef ref, args => do
    match ← read (·.functions[ref.id]?) with
    | some f => runBody o n f args
    | none => return .nil
  | n + 1, .classRef ref, args => do
    let receiver ← make (·.newInstance ref)
    match ← read (·.method? ref.id Store.initializerName) with
    | some initializer =>
      let bound ← make (·.bind initializer receiver)
      let _ ← runBody o n bound args
      return .instanceRef receiver
    | none => return .instanceRef receiver
  | _ + 1, _, _ => return .nil

/-- Runs the body of a function. -/
def runBody (o : Options) : Nat → Closure → List Value → Run Value
  | 0, _, _ => exhausted
  | n + 1, f, args => do
    let scope ← enter f args
    let c ← execAll o n scope f.declaration.body
    leave f c

end

/-- Runs the statements of a program one by one; a return has nowhere to go. -/
def program (o : Options) (n : Nat) (scope : ScopeId) : List Stmt → Run Unit
  | [] => return ()
  | s :: ss => do
    match ← exec o n scope s with
    | .normal => program o n scope ss
    | .returned keyword _ => fail keyword .topLevelReturn

/-- An allowance that no program uses up in the time there is. -/
def ample : Nat := 1000000000000000

end LoxLang.Run
