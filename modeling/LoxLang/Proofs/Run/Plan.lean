import LoxLang.Run.Evaluate

/-!
# What running consists of

Running a program is a tree of activities: executing a statement begins the evaluation of its
expressions, a call begins the application of what is called, and so on. The plan of an activity lists
what it does itself and what it begins, in order, each item depending on the results of those
before it. What is said of plans, by induction on their three forms, then holds of every construct
of the language.

A plan is a view of the evaluator and not another one. Main statement: `run_eq_plan`, that carrying
out the plan of an activity is the activity.
-/

namespace LoxLang

/-! ### Laws of computations -/

namespace Run

instance : LawfulMonad Run :=
  LawfulMonad.mk' Run
    (fun m => by
      funext s
      change Run.bind m (fun a => Run.pure (id a)) s = m s
      rw [Run.bind]
      cases m s <;> rfl)
    (fun _ _ => rfl)
    (fun m f g => by
      funext s
      simp only [run_bind]
      cases m s <;> rfl)

/-- Declaring a class that has no superclass. -/
theorem declareClass_none (scope : ScopeId) (name : Token) (methods : List FunctionDecl) :
    declareClass scope name none methods = (do
      change (·.define scope name.lexeme .nil)
      let ref ← make (·.newClass
        { name := name.lexeme, superclass := none, methods := methodTable scope methods })
      change (·.define scope name.lexeme (.classRef ref))) := rfl

/-- Declaring a class that has a superclass. -/
theorem declareClass_some (scope : ScopeId) (name superName : Token) (methods : List FunctionDecl) :
    declareClass scope name (some superName) methods = (do
      let c ← superclassNamed scope superName
      change (·.define scope name.lexeme .nil)
      let inner ← make fun s =>
        let (inner, s) := s.newScope (some scope)
        (inner, s.define inner Token.superName (.classRef c))
      let ref ← make (·.newClass
        { name := name.lexeme, superclass := some c.id, methods := methodTable inner methods })
      change (·.define scope name.lexeme (.classRef ref))) := by
  simp [declareClass]

end Run

/-! ### Activities -/

/-- Anything that is begun and ends while a program runs. -/
inductive Activity where
  | exec (n : Nat) (scope : ScopeId) (statement : Stmt)
  | execAll (n : Nat) (scope : ScopeId) (statements : List Stmt)
  | execLoop (n : Nat) (scope : ScopeId) (condition : Expr) (body : Stmt)
  | eval (n : Nat) (scope : ScopeId) (expression : Expr)
  | evalOption (n : Nat) (scope : ScopeId) (expression : Option Expr)
  | evalAll (n : Nat) (scope : ScopeId) (expressions : List Expr)
  | call (n : Nat) (callee : Value) (paren : Token) (args : List Value)
  | apply (n : Nat) (callee : Value) (args : List Value)
  | runBody (n : Nat) (f : Closure) (args : List Value)
  | program (n : Nat) (scope : ScopeId) (statements : List Stmt)

namespace Activity

/-- What an activity yields. -/
@[reducible] def Result : Activity → Type
  | .exec _ _ _ | .execAll _ _ _ | .execLoop _ _ _ _ => Completion
  | .eval _ _ _ | .evalOption _ _ _ | .call _ _ _ _ | .apply _ _ _ | .runBody _ _ _ => Value
  | .evalAll _ _ _ => List Value
  | .program _ _ _ => Unit

/-- Carries an activity out. -/
def run (o : Options) : (a : Activity) → Run a.Result
  | .exec n scope s => Run.exec o n scope s
  | .execAll n scope ss => Run.execAll o n scope ss
  | .execLoop n scope c body => Run.execLoop o n scope c body
  | .eval n scope e => Run.eval o n scope e
  | .evalOption n scope e => Run.evalOption o n scope e
  | .evalAll n scope es => Run.evalAll o n scope es
  | .call n callee paren args => Run.call o n callee paren args
  | .apply n callee args => Run.apply o n callee args
  | .runBody n f args => Run.runBody o n f args
  | .program n scope ss => Run.program o n scope ss

/-- Carries an activity out, as a call if it has an active call of its own. -/
def runAs (o : Options) (a : Activity) : Option Frame → Run a.Result
  | none => a.run o
  | some frame => Run.within o frame (a.run o)

/-- A bound on how deep an activity can nest others. -/
def size : Activity → Nat
  | .exec n _ _ | .execAll n _ _ | .execLoop n _ _ _ => n
  | .eval n _ _ | .evalOption n _ _ | .evalAll n _ _ => n
  | .call n _ _ _ | .apply n _ _ | .runBody n _ _ => n
  | .program n _ ss => n + 1 + ss.length

end Activity

/-! ### Plans -/

/-- What remains to be done for a result. -/
inductive Plan (α : Type) where
  | done (value : α)
  /-- do something that begins no activity, and go on with what it gives -/
  | move {β : Type} (m : Run β) (next : β → Plan α)
  /-- begin an activity, with an active call of its own or without, and go on with what it yields -/
  | begin (call : Option Frame) (a : Activity) (next : a.Result → Plan α)

namespace Plan

/-- The plan to do one thing that begins no activity. -/
@[reducible] def just (m : Run α) : Plan α := .move m .done

/-- The plan to turn into another activity. -/
@[reducible] def become (a : Activity) : Plan a.Result := .begin none a .done

/-- Carries a plan out. -/
def run (o : Options) : Plan α → Run α
  | .done a => pure a
  | .move m next => m >>= fun b => (next b).run o
  | .begin call a next => a.runAs o call >>= fun b => (next b).run o

theorem run_ite (o : Options) (c : Prop) [Decidable c] (p q : Plan α) :
    (if c then p else q).run o = if c then p.run o else q.run o := by
  split <;> rfl

end Plan

/-- What an activity does itself and what it begins. -/
def Activity.plan (o : Options) : (a : Activity) → Plan a.Result
  | .exec 0 _ _ | .execAll 0 _ _ | .execLoop 0 _ _ _ => .just Run.exhausted
  | .eval 0 _ _ | .evalOption 0 _ _ | .evalAll 0 _ _ => .just Run.exhausted
  | .call 0 _ _ _ | .apply 0 _ _ | .runBody 0 _ _ => .just Run.exhausted
  | .exec (n + 1) scope (.expression e) => .begin none (.eval n scope e) fun _ => .done .normal
  | .exec (n + 1) scope (.print e) =>
    .begin none (.eval n scope e) fun v => .move (Run.print v.display) fun _ => .done .normal
  | .exec (n + 1) scope (.var name initial) =>
    .begin none (.evalOption n scope initial) fun v =>
      .move (Run.change (·.define scope name.lexeme v)) fun _ => .done .normal
  | .exec (n + 1) scope (.block body) =>
    .move (Run.make (·.newScope (some scope))) fun inner => .become (.execAll n inner body)
  | .exec (n + 1) scope (.ifThen condition yes) =>
    .begin none (.eval n scope condition) fun c =>
      if c.truthy then .become (.exec n scope yes) else .done .normal
  | .exec (n + 1) scope (.ifElse condition yes no) =>
    .begin none (.eval n scope condition) fun c =>
      if c.truthy then .become (.exec n scope yes) else .become (.exec n scope no)
  | .exec (n + 1) scope (.loop condition body) => .become (.execLoop n scope condition body)
  | .exec (_ + 1) scope (.function f) =>
    .move (Run.make (·.newFunction { declaration := f, scope, isInitializer := false })) fun v =>
      .move (Run.change (·.define scope f.name.lexeme v)) fun _ => .done .normal
  | .exec (n + 1) scope (.ret keyword value) =>
    .begin none (.evalOption n scope value) fun v => .done (.returned keyword v)
  | .exec (_ + 1) scope (.classDecl name superclass methods) =>
    .move (Run.declareClass scope name superclass methods) fun _ => .done .normal
  | .execAll (_ + 1) _ [] => .done .normal
  | .execAll (n + 1) scope (s :: ss) =>
    .begin none (.exec n scope s) fun
      | .normal => .become (.execAll n scope ss)
      | .returned keyword v => .done (.returned keyword v)
  | .execLoop (n + 1) scope condition body =>
    .begin none (.eval n scope condition) fun c =>
      if c.truthy then
        .begin none (.exec n scope body) fun
          | .normal => .become (.execLoop n scope condition body)
          | .returned keyword v => .done (.returned keyword v)
      else .done .normal
  | .eval (_ + 1) _ (.literal v) => .done v
  | .eval (n + 1) scope (.grouping e) => .become (.eval n scope e)
  | .eval (_ + 1) scope (.name t) => .just (Run.lookup scope t)
  | .eval (n + 1) scope (.assign name e) =>
    .begin none (.eval n scope e) fun v => .move (Run.assign scope name v) fun _ => .done v
  | .eval (n + 1) scope (.unary op e) =>
    .begin none (.eval n scope e) fun v => .just (Run.applyUnary op v)
  | .eval (n + 1) scope (.binary l op r) =>
    .begin none (.eval n scope l) fun a => .begin none (.eval n scope r) fun b =>
      .just (Run.applyBinary op a b)
  | .eval (n + 1) scope (.logical l op r) =>
    .begin none (.eval n scope l) fun a =>
      if Run.decides op a then .done a else .become (.eval n scope r)
  | .eval (n + 1) scope (.call f paren args) =>
    .begin none (.eval n scope f) fun callee => .begin none (.evalAll n scope args) fun values =>
      .become (.call n callee paren values)
  | .eval (n + 1) scope (.get object name) =>
    .begin none (.eval n scope object) fun v => .just (Run.property v name)
  | .eval (n + 1) scope (.set object name e) =>
    .begin none (.eval n scope object) fun v => .move (Run.fieldOwner v name) fun owner =>
      .begin none (.eval n scope e) fun v =>
        .move (Run.change (·.setField owner name.lexeme v)) fun _ => .done v
  | .eval (_ + 1) scope (.this keyword) => .just (Run.lookup scope keyword)
  | .eval (_ + 1) scope (.super keyword method) => .just (Run.superMethod scope keyword method)
  | .evalOption (_ + 1) _ none => .done .nil
  | .evalOption (n + 1) scope (some e) => .become (.eval n scope e)
  | .evalAll (_ + 1) _ [] => .done []
  | .evalAll (n + 1) scope (e :: es) =>
    .begin none (.eval n scope e) fun v => .begin none (.evalAll n scope es) fun vs => .done (v :: vs)
  | .call (n + 1) callee paren args =>
    .move (Run.read (·.arity? callee)) fun
      | none => .just (Run.fail paren (.notCallable callee.kind))
      | some arity =>
        if args.length = arity then
          .move (Run.guardDepth o paren) fun _ =>
            .begin (some { name := callee.display, line := paren.line }) (.apply n callee args)
              .done
        else .just (Run.fail paren (.wrongArity arity args.length))
  | .apply (n + 1) (.functionRef ref) args =>
    .move (Run.read (·.functions[ref.id]?)) fun
      | some f => .become (.runBody n f args)
      | none => .done .nil
  | .apply (n + 1) (.classRef ref) args =>
    .move (Run.make (·.newInstance ref)) fun receiver =>
      .move (Run.read (·.method? ref.id Store.initializerName)) fun
        | some initializer =>
          .move (Run.make (·.bind initializer receiver)) fun bound =>
            .begin none (.runBody n bound args) fun _ => .done (.instanceRef receiver)
        | none => .done (.instanceRef receiver)
  | .apply (_ + 1) _ _ => .done .nil
  | .runBody (n + 1) f args =>
    .move (Run.enter f args) fun scope =>
      .begin none (.execAll n scope f.declaration.body) fun c => .just (Run.leave f c)
  | .program _ _ [] => .done ()
  | .program n scope (s :: ss) =>
    .begin none (.exec n scope s) fun
      | .normal => .become (.program n scope ss)
      | .returned keyword _ => .just (Run.fail keyword .topLevelReturn)

namespace Activity

/-- Carrying out the plan of an activity is the activity. -/
theorem run_eq_plan (o : Options) (a : Activity) : a.run o = (a.plan o).run o := by
  cases a with
  | exec n scope s =>
    cases n with
    | zero => simp [run, Run.exec, plan, Plan.run]
    | succ n => cases s <;> simp [run, Run.exec, plan, Plan.run, Plan.run_ite, runAs]
  | execAll n scope ss =>
    cases n with
    | zero => simp [run, Run.execAll, plan, Plan.run]
    | succ n =>
      cases ss with
      | nil => simp [run, Run.execAll, plan, Plan.run]
      | cons s ss =>
        simp only [run, Run.execAll, plan, Plan.run, runAs]
        refine bind_congr fun c => ?_
        cases c <;> simp [run, Plan.run, runAs]
  | execLoop n scope c body =>
    cases n with
    | zero => simp [run, Run.execLoop, plan, Plan.run]
    | succ n =>
      simp only [run, Run.execLoop, plan, Plan.run, Plan.run_ite, runAs]
      refine bind_congr fun v => ?_
      split
      · refine bind_congr fun c => ?_
        cases c <;> simp [run, Plan.run, runAs]
      · rfl
  | eval n scope e =>
    cases n with
    | zero => simp [run, Run.eval, plan, Plan.run]
    | succ n => cases e <;> simp [run, Run.eval, plan, Plan.run, Plan.run_ite, runAs]
  | evalOption n scope e =>
    cases n with
    | zero => simp [run, Run.evalOption, plan, Plan.run]
    | succ n => cases e <;> simp [run, Run.evalOption, plan, Plan.run, runAs]
  | evalAll n scope es =>
    cases n with
    | zero => simp [run, Run.evalAll, plan, Plan.run]
    | succ n => cases es <;> simp [run, Run.evalAll, plan, Plan.run, runAs]
  | call n callee paren args =>
    cases n with
    | zero => simp [run, Run.call, plan, Plan.run]
    | succ n =>
      simp only [run, Run.call, plan, Plan.run]
      refine bind_congr fun arity => ?_
      cases arity <;> simp [run, Plan.run, Plan.run_ite, runAs]
  | apply n callee args =>
    cases n with
    | zero => simp [run, Run.apply, plan, Plan.run]
    | succ n =>
      cases callee with
      | functionRef ref =>
        simp only [run, Run.apply, plan, Plan.run]
        refine bind_congr fun f => ?_
        cases f <;> simp [run, Plan.run, runAs]
      | classRef ref =>
        simp only [run, Run.apply, plan, Plan.run]
        refine bind_congr fun receiver => bind_congr fun initializer => ?_
        cases initializer <;> simp [run, Plan.run, runAs]
      | _ => simp [run, Run.apply, plan, Plan.run]
  | runBody n f args =>
    cases n with
    | zero => simp [run, Run.runBody, plan, Plan.run]
    | succ n => simp [run, Run.runBody, plan, Plan.run, runAs]
  | program n scope ss =>
    cases ss with
    | nil => simp [run, Run.program, plan, Plan.run]
    | cons s ss =>
      simp only [run, Run.program, plan, Plan.run, runAs]
      refine bind_congr fun c => ?_
      cases c <;> simp [run, Plan.run, runAs]

end Activity

end LoxLang
