import LoxLang.Placement
import Mathlib.Data.List.Forall2

/-!
# Trees alike but for their tokens

Two trees are alike under a relation if they have one shape and each token of the first is related to
the token in its place in the second; the relation may depend on the part that the token plays. A
tree alike to itself is one whose tokens all have some property.

Main statements: `Stmt.Alike.refl`, that under a reflexive relation every tree is alike to itself,
`Stmt.Alike.join`, that trees alike to one tree are alike, and `Stmt.Alike.errors`, that two trees alike have
the same misplaced constructs.
-/

namespace LoxLang

/-- The parts that tokens play in a tree. -/
inductive Part where
  /-- a name: of a variable, a property, a method, a parameter, a function or a class -/
  | name
  | unary | binary | logical
  /-- the parenthesis that closes a call -/
  | paren
  | this | super | ret
  deriving DecidableEq, Repr

namespace Part

open Token (Kind)

/-- The kinds of the tokens that play a part. -/
def kinds : Part → List Kind
  | .name => [.identifier]
  | .unary => [.bang, .minus]
  | .binary =>
    [.bangEqual, .equalEqual, .greater, .greaterEqual, .less, .lessEqual, .minus, .plus, .slash, .star]
  | .logical => [.kwOr, .kwAnd]
  | .paren => [.rightParen]
  | .this => [.kwThis]
  | .super => [.kwSuper]
  | .ret => [.kwReturn]

end Part

variable {R : Part → Token → Token → Prop}

/-- Expressions alike. -/
inductive Expr.Alike (R : Part → Token → Token → Prop) : Expr → Expr → Prop where
  | literal : Alike R (.literal v) (.literal v)
  | grouping (inner : Alike R e e') : Alike R (.grouping e) (.grouping e')
  | name (h : R .name t t') : Alike R (.name t) (.name t')
  | assign (h : R .name t t') (value : Alike R e e') : Alike R (.assign t e) (.assign t' e')
  | unary (h : R .unary t t') (operand : Alike R e e') : Alike R (.unary t e) (.unary t' e')
  | binary (left : Alike R l l') (h : R .binary t t') (right : Alike R r r') :
      Alike R (.binary l t r) (.binary l' t' r')
  | logical (left : Alike R l l') (h : R .logical t t') (right : Alike R r r') :
      Alike R (.logical l t r) (.logical l' t' r')
  | call (callee : Alike R f f') (h : R .paren t t') (args : List.Forall₂ (Alike R) as as') :
      Alike R (.call f t as) (.call f' t' as')
  | get (object : Alike R e e') (h : R .name t t') : Alike R (.get e t) (.get e' t')
  | set (object : Alike R e e') (h : R .name t t') (value : Alike R v v') :
      Alike R (.set e t v) (.set e' t' v')
  | this (h : R .this t t') : Alike R (.this t) (.this t')
  | super (h : R .super t t') (method : R .name m m') : Alike R (.super t m) (.super t' m')

mutual

/-- Statements alike. -/
inductive Stmt.Alike (R : Part → Token → Token → Prop) : Stmt → Stmt → Prop where
  | expression (value : Expr.Alike R e e') : Stmt.Alike R (.expression e) (.expression e')
  | print (value : Expr.Alike R e e') : Stmt.Alike R (.print e) (.print e')
  | var (h : R .name t t') (initial : Option.Rel (Expr.Alike R) i i') :
      Stmt.Alike R (.var t i) (.var t' i')
  | block (body : List.Forall₂ (Stmt.Alike R) ss ss') : Stmt.Alike R (.block ss) (.block ss')
  | ifThen (condition : Expr.Alike R c c') (yes : Stmt.Alike R s s') :
      Stmt.Alike R (.ifThen c s) (.ifThen c' s')
  | ifElse (condition : Expr.Alike R c c') (yes : Stmt.Alike R s s') (no : Stmt.Alike R u u') :
      Stmt.Alike R (.ifElse c s u) (.ifElse c' s' u')
  | loop (condition : Expr.Alike R c c') (body : Stmt.Alike R s s') :
      Stmt.Alike R (.loop c s) (.loop c' s')
  | function (declaration : FunctionDecl.Alike R f f') : Stmt.Alike R (.function f) (.function f')
  | ret (h : R .ret t t') (value : Option.Rel (Expr.Alike R) i i') :
      Stmt.Alike R (.ret t i) (.ret t' i')
  | classDecl (h : R .name t t') (superclass : Option.Rel (R .name) p p')
      (methods : List.Forall₂ (FunctionDecl.Alike R) fs fs') :
      Stmt.Alike R (.classDecl t p fs) (.classDecl t' p' fs')

/-- Functions alike. -/
inductive FunctionDecl.Alike (R : Part → Token → Token → Prop) :
    FunctionDecl → FunctionDecl → Prop where
  | mk (h : R .name t t') (params : List.Forall₂ (R .name) ps ps')
      (body : List.Forall₂ (Stmt.Alike R) ss ss') : FunctionDecl.Alike R ⟨t, ps, ss⟩ ⟨t', ps', ss'⟩

end

/-! ### Every tree is alike to itself -/

mutual

theorem Expr.Alike.refl (hR : ∀ part t, R part t t) : (e : Expr) → e.Alike R e
  | .literal _ => .literal
  | .grouping e => .grouping (Expr.Alike.refl hR e)
  | .name t => .name (hR _ t)
  | .assign t e => .assign (hR _ t) (Expr.Alike.refl hR e)
  | .unary t e => .unary (hR _ t) (Expr.Alike.refl hR e)
  | .binary l t r => .binary (Expr.Alike.refl hR l) (hR _ t) (Expr.Alike.refl hR r)
  | .logical l t r => .logical (Expr.Alike.refl hR l) (hR _ t) (Expr.Alike.refl hR r)
  | .call f t args => .call (Expr.Alike.refl hR f) (hR _ t) (Expr.Alike.refl_list hR args)
  | .get e t => .get (Expr.Alike.refl hR e) (hR _ t)
  | .set e t v => .set (Expr.Alike.refl hR e) (hR _ t) (Expr.Alike.refl hR v)
  | .this t => .this (hR _ t)
  | .super t m => .super (hR _ t) (hR _ m)

theorem Expr.Alike.refl_list (hR : ∀ part t, R part t t) :
    (es : List Expr) → List.Forall₂ (Expr.Alike R) es es
  | [] => .nil
  | e :: es => .cons (Expr.Alike.refl hR e) (Expr.Alike.refl_list hR es)

end

theorem Expr.Alike.refl_option (hR : ∀ part t, R part t t) :
    (e : Option Expr) → Option.Rel (Expr.Alike R) e e
  | none => .none
  | some e => .some (Expr.Alike.refl hR e)

mutual

theorem Stmt.Alike.refl (hR : ∀ part t, R part t t) : (s : Stmt) → s.Alike R s
  | .expression e => .expression (Expr.Alike.refl hR e)
  | .print e => .print (Expr.Alike.refl hR e)
  | .var t i => .var (hR _ t) (Expr.Alike.refl_option hR i)
  | .block ss => .block (Stmt.Alike.refl_list hR ss)
  | .ifThen c s => .ifThen (Expr.Alike.refl hR c) (Stmt.Alike.refl hR s)
  | .ifElse c s u => .ifElse (Expr.Alike.refl hR c) (Stmt.Alike.refl hR s) (Stmt.Alike.refl hR u)
  | .loop c s => .loop (Expr.Alike.refl hR c) (Stmt.Alike.refl hR s)
  | .function f => .function (FunctionDecl.Alike.refl hR f)
  | .ret t i => .ret (hR _ t) (Expr.Alike.refl_option hR i)
  | .classDecl t p fs =>
    .classDecl (hR _ t) (by cases p <;> constructor; exact hR _ _) (FunctionDecl.Alike.refl_list hR fs)

theorem Stmt.Alike.refl_list (hR : ∀ part t, R part t t) :
    (ss : List Stmt) → List.Forall₂ (Stmt.Alike R) ss ss
  | [] => .nil
  | s :: ss => .cons (Stmt.Alike.refl hR s) (Stmt.Alike.refl_list hR ss)

theorem FunctionDecl.Alike.refl (hR : ∀ part t, R part t t) : (f : FunctionDecl) → f.Alike R f
  | ⟨t, _, ss⟩ => .mk (hR _ t) (List.forall₂_same.2 fun p _ => hR _ p) (Stmt.Alike.refl_list hR ss)

theorem FunctionDecl.Alike.refl_list (hR : ∀ part t, R part t t) :
    (fs : List FunctionDecl) → List.Forall₂ (FunctionDecl.Alike R) fs fs
  | [] => .nil
  | f :: fs => .cons (FunctionDecl.Alike.refl hR f) (FunctionDecl.Alike.refl_list hR fs)

end

/-! ### Looser relations -/

section Mono

variable {S : Part → Token → Token → Prop}

mutual

theorem Expr.Alike.mono (hS : ∀ {part t t'}, R part t t' → S part t t') :
    {e e' : Expr} → e.Alike R e' → e.Alike S e'
  | _, _, .literal => .literal
  | _, _, .grouping inner => .grouping (inner.mono hS)
  | _, _, .name h => .name (hS h)
  | _, _, .assign h value => .assign (hS h) (value.mono hS)
  | _, _, .unary h operand => .unary (hS h) (operand.mono hS)
  | _, _, .binary left h right => .binary (left.mono hS) (hS h) (right.mono hS)
  | _, _, .logical left h right => .logical (left.mono hS) (hS h) (right.mono hS)
  | _, _, .call callee h args => .call (callee.mono hS) (hS h) (Expr.Alike.mono_list hS args)
  | _, _, .get object h => .get (object.mono hS) (hS h)
  | _, _, .set object h value => .set (object.mono hS) (hS h) (value.mono hS)
  | _, _, .this h => .this (hS h)
  | _, _, .super h method => .super (hS h) (hS method)

theorem Expr.Alike.mono_list (hS : ∀ {part t t'}, R part t t' → S part t t') :
    {es es' : List Expr} → List.Forall₂ (Expr.Alike R) es es' → List.Forall₂ (Expr.Alike S) es es'
  | _, _, .nil => .nil
  | _, _, .cons e es => .cons (e.mono hS) (Expr.Alike.mono_list hS es)

end

theorem Expr.Alike.mono_option (hS : ∀ {part t t'}, R part t t' → S part t t')
    {e e' : Option Expr} (h : Option.Rel (Expr.Alike R) e e') :
    Option.Rel (Expr.Alike S) e e' := by
  cases h with
  | none => exact .none
  | some h => exact .some (h.mono hS)

mutual

/-- Trees that are alike are so under any looser relation. -/
theorem Stmt.Alike.mono (hS : ∀ {part t t'}, R part t t' → S part t t') :
    {s s' : Stmt} → s.Alike R s' → s.Alike S s'
  | _, _, .expression value => .expression (value.mono hS)
  | _, _, .print value => .print (value.mono hS)
  | _, _, .var h initial => .var (hS h) (Expr.Alike.mono_option hS initial)
  | _, _, .block body => .block (Stmt.Alike.mono_list hS body)
  | _, _, .ifThen condition yes => .ifThen (condition.mono hS) (yes.mono hS)
  | _, _, .ifElse condition yes no => .ifElse (condition.mono hS) (yes.mono hS) (no.mono hS)
  | _, _, .loop condition body => .loop (condition.mono hS) (body.mono hS)
  | _, _, .function declaration => .function (declaration.mono hS)
  | _, _, .ret h value => .ret (hS h) (Expr.Alike.mono_option hS value)
  | _, _, .classDecl h superclass methods =>
    .classDecl (hS h) (by cases superclass with | none => exact .none | some h => exact .some (hS h))
      (FunctionDecl.Alike.mono_list hS methods)

theorem Stmt.Alike.mono_list (hS : ∀ {part t t'}, R part t t' → S part t t') :
    {ss ss' : List Stmt} → List.Forall₂ (Stmt.Alike R) ss ss' → List.Forall₂ (Stmt.Alike S) ss ss'
  | _, _, .nil => .nil
  | _, _, .cons s ss => .cons (s.mono hS) (Stmt.Alike.mono_list hS ss)

theorem FunctionDecl.Alike.mono (hS : ∀ {part t t'}, R part t t' → S part t t') :
    {f f' : FunctionDecl} → f.Alike R f' → f.Alike S f'
  | _, _, .mk h params body =>
    .mk (hS h) (params.imp fun _ _ => hS) (Stmt.Alike.mono_list hS body)

theorem FunctionDecl.Alike.mono_list (hS : ∀ {part t t'}, R part t t' → S part t t') :
    {fs fs' : List FunctionDecl} → List.Forall₂ (FunctionDecl.Alike R) fs fs' →
      List.Forall₂ (FunctionDecl.Alike S) fs fs'
  | _, _, .nil => .nil
  | _, _, .cons f fs => .cons (f.mono hS) (FunctionDecl.Alike.mono_list hS fs)

end

end Mono

/-! ### Trees alike to one tree -/

section Join

variable {S T : Part → Token → Token → Prop}

/-- Tokens that are related to one token are related. -/
def Part.Joins (R S T : Part → Token → Token → Prop) : Prop :=
  ∀ part t t' u, R part t u → S part t' u → T part t t'

mutual

theorem Expr.Alike.join (h : Part.Joins R S T) :
    {e e' u : Expr} → e.Alike R u → e'.Alike S u → e.Alike T e'
  | _, _, _, .literal, .literal => .literal
  | _, _, _, .grouping e, .grouping e' => .grouping (e.join h e')
  | _, _, _, .name t, .name t' => .name (h _ _ _ _ t t')
  | _, _, _, .assign t e, .assign t' e' => .assign (h _ _ _ _ t t') (e.join h e')
  | _, _, _, .unary t e, .unary t' e' => .unary (h _ _ _ _ t t') (e.join h e')
  | _, _, _, .binary l t r, .binary l' t' r' => .binary (l.join h l') (h _ _ _ _ t t') (r.join h r')
  | _, _, _, .logical l t r, .logical l' t' r' => .logical (l.join h l') (h _ _ _ _ t t') (r.join h r')
  | _, _, _, .call f t args, .call f' t' args' =>
    .call (f.join h f') (h _ _ _ _ t t') (Expr.Alike.join_list h args args')
  | _, _, _, .get e t, .get e' t' => .get (e.join h e') (h _ _ _ _ t t')
  | _, _, _, .set e t v, .set e' t' v' => .set (e.join h e') (h _ _ _ _ t t') (v.join h v')
  | _, _, _, .this t, .this t' => .this (h _ _ _ _ t t')
  | _, _, _, .super t m, .super t' m' => .super (h _ _ _ _ t t') (h _ _ _ _ m m')

theorem Expr.Alike.join_list (h : Part.Joins R S T) :
    {es es' us : List Expr} → List.Forall₂ (Expr.Alike R) es us → List.Forall₂ (Expr.Alike S) es' us →
      List.Forall₂ (Expr.Alike T) es es'
  | _, _, _, .nil, .nil => .nil
  | _, _, _, .cons e es, .cons e' es' => .cons (e.join h e') (Expr.Alike.join_list h es es')

end

theorem Expr.Alike.join_option (h : Part.Joins R S T) :
    {i i' j : Option Expr} → Option.Rel (Expr.Alike R) i j → Option.Rel (Expr.Alike S) i' j →
      Option.Rel (Expr.Alike T) i i'
  | _, _, _, .none, .none => .none
  | _, _, _, .some e, .some e' => .some (e.join h e')

theorem Part.join_option {part : Part} (h : Part.Joins R S T) :
    {i i' j : Option Token} → Option.Rel (R part) i j → Option.Rel (S part) i' j → Option.Rel (T part) i i'
  | _, _, _, .none, .none => .none
  | _, _, _, .some t, .some t' => .some (h _ _ _ _ t t')

theorem Part.join_list {part : Part} (h : Part.Joins R S T) :
    {ts ts' us : List Token} → List.Forall₂ (R part) ts us → List.Forall₂ (S part) ts' us →
      List.Forall₂ (T part) ts ts'
  | _, _, _, .nil, .nil => .nil
  | _, _, _, .cons t ts, .cons t' ts' => .cons (h _ _ _ _ t t') (Part.join_list h ts ts')

mutual

/-- Two trees alike to a third one are alike. -/
theorem Stmt.Alike.join (h : Part.Joins R S T) :
    {s s' u : Stmt} → s.Alike R u → s'.Alike S u → s.Alike T s'
  | _, _, _, .expression e, h' => by
    cases h' with
    | expression e' => exact .expression (e.join h e')
  | _, _, _, .print e, h' => by
    cases h' with
    | print e' => exact .print (e.join h e')
  | _, _, _, .var t i, h' => by
    cases h' with
    | var t' i' => exact .var (h _ _ _ _ t t') (Expr.Alike.join_option h i i')
  | _, _, _, .block ss, h' => by
    cases h' with
    | block ss' => exact .block (Stmt.Alike.join_list h ss ss')
  | _, _, _, .ifThen c s, h' => by
    cases h' with
    | ifThen c' s' => exact .ifThen (c.join h c') (s.join h s')
  | _, _, _, .ifElse c s u, h' => by
    cases h' with
    | ifElse c' s' u' => exact .ifElse (c.join h c') (s.join h s') (u.join h u')
  | _, _, _, .loop c s, h' => by
    cases h' with
    | loop c' s' => exact .loop (c.join h c') (s.join h s')
  | _, _, _, .function f, h' => by
    cases h' with
    | function f' => exact .function (f.join h f')
  | _, _, _, .ret t i, h' => by
    cases h' with
    | ret t' i' => exact .ret (h _ _ _ _ t t') (Expr.Alike.join_option h i i')
  | _, _, _, .classDecl t p fs, h' => by
    cases h' with
    | classDecl t' p' fs' =>
      exact .classDecl (h _ _ _ _ t t') (Part.join_option h p p') (FunctionDecl.Alike.join_list h fs fs')

theorem Stmt.Alike.join_list (h : Part.Joins R S T) :
    {ss ss' us : List Stmt} → List.Forall₂ (Stmt.Alike R) ss us → List.Forall₂ (Stmt.Alike S) ss' us →
      List.Forall₂ (Stmt.Alike T) ss ss'
  | _, _, _, .nil, .nil => .nil
  | _, _, _, .cons s ss, .cons s' ss' => .cons (s.join h s') (Stmt.Alike.join_list h ss ss')

theorem FunctionDecl.Alike.join (h : Part.Joins R S T) :
    {f f' u : FunctionDecl} → f.Alike R u → f'.Alike S u → f.Alike T f'
  | _, _, _, .mk t ps ss, .mk t' ps' ss' =>
    .mk (h _ _ _ _ t t') (Part.join_list h ps ps') (Stmt.Alike.join_list h ss ss')

theorem FunctionDecl.Alike.join_list (h : Part.Joins R S T) :
    {fs fs' us : List FunctionDecl} → List.Forall₂ (FunctionDecl.Alike R) fs us →
      List.Forall₂ (FunctionDecl.Alike S) fs' us → List.Forall₂ (FunctionDecl.Alike T) fs fs'
  | _, _, _, .nil, .nil => .nil
  | _, _, _, .cons f fs, .cons f' fs' => .cons (f.join h f') (FunctionDecl.Alike.join_list h fs fs')

end

end Join

/-! ### Misplaced constructs -/

/-- The same complaints, at tokens that are related in some part. -/
def PlacementError.Alike (R : Part → Token → Token → Prop) (e e' : PlacementError) : Prop :=
  (∃ part, R part e.token e'.token) ∧ e'.problem = e.problem

section Errors

open Placement
open List (Forall₂)

theorem thisErrors_alike (context : ClassContext) {t t' : Token} (h : R .this t t') :
    Forall₂ (PlacementError.Alike R) (thisErrors context t) (thisErrors context t') := by
  cases context
  case outside => exact .cons ⟨⟨_, h⟩, rfl⟩ .nil
  all_goals exact .nil

theorem superErrors_alike (context : ClassContext) {t t' : Token} (h : R .super t t') :
    Forall₂ (PlacementError.Alike R) (superErrors context t) (superErrors context t') := by
  cases context
  case derived => exact .nil
  all_goals exact .cons ⟨⟨_, h⟩, rfl⟩ .nil

theorem returnErrors_alike (context : Context) {t t' : Token} (h : R .ret t t') :
    Forall₂ (PlacementError.Alike R) (returnErrors context t) (returnErrors context t') := by
  rw [returnErrors, returnErrors]
  split
  · exact .nil
  · exact .cons ⟨⟨_, h⟩, rfl⟩ .nil

/-- Whether a class names itself as its superclass depends on the texts of the names only. -/
theorem inheritanceErrors_alike (hR : ∀ {t t'}, R .name t t' → t'.lexeme = t.lexeme) {t t' : Token}
    (ht : R .name t t') {p p' : Option Token} (hp : Option.Rel (R .name) p p') :
    Forall₂ (PlacementError.Alike R) (inheritanceErrors t p) (inheritanceErrors t' p') := by
  cases hp with
  | none => exact .nil
  | some hp =>
    rw [inheritanceErrors, inheritanceErrors, hR ht, hR hp]
    split
    · exact .cons ⟨⟨_, hp⟩, rfl⟩ .nil
    · exact .nil

theorem ofSuperclass_eq {p p' : Option Token} (hp : Option.Rel (R .name) p p') :
    ClassContext.ofSuperclass p' = ClassContext.ofSuperclass p := by
  cases hp <;> rfl

mutual

theorem Expr.Alike.errors (context : ClassContext) : {e e' : Expr} → e.Alike R e' →
    Forall₂ (PlacementError.Alike R) (exprErrors context e) (exprErrors context e')
  | _, _, .literal => .nil
  | _, _, .name _ => .nil
  | _, _, .grouping inner => inner.errors context
  | _, _, .assign _ value => value.errors context
  | _, _, .unary _ operand => operand.errors context
  | _, _, .binary left _ right => List.rel_append (left.errors context) (right.errors context)
  | _, _, .logical left _ right => List.rel_append (left.errors context) (right.errors context)
  | _, _, .call callee _ args =>
    List.rel_append (callee.errors context) (Expr.Alike.listErrors context args)
  | _, _, .get object _ => object.errors context
  | _, _, .set object _ value => List.rel_append (value.errors context) (object.errors context)
  | _, _, .this h => thisErrors_alike context h
  | _, _, .super h _ => superErrors_alike context h

theorem Expr.Alike.listErrors (context : ClassContext) :
    {es es' : List Expr} → Forall₂ (Expr.Alike R) es es' →
      Forall₂ (PlacementError.Alike R) (exprListErrors context es) (exprListErrors context es')
  | _, _, .nil => .nil
  | _, _, .cons e es => List.rel_append (e.errors context) (Expr.Alike.listErrors context es)

end

theorem Expr.Alike.optionErrors (context : ClassContext) {e e' : Option Expr}
    (he : Option.Rel (Expr.Alike R) e e') :
    Forall₂ (PlacementError.Alike R) (optionErrors context e) (optionErrors context e') := by
  cases he with
  | none => exact .nil
  | some he => exact he.errors context

mutual

/-- Two statements alike have the same misplaced constructs. -/
theorem Stmt.Alike.errors (hR : ∀ {t t'}, R .name t t' → t'.lexeme = t.lexeme) (context : Context) :
    {s s' : Stmt} → s.Alike R s' →
      Forall₂ (PlacementError.Alike R) (stmtErrors context s) (stmtErrors context s')
  | _, _, .expression value => value.errors _
  | _, _, .print value => value.errors _
  | _, _, .var _ initial => Expr.Alike.optionErrors _ initial
  | _, _, .block body => Stmt.Alike.listErrors hR context body
  | _, _, .ifThen condition yes =>
    List.rel_append (condition.errors _) (Stmt.Alike.errors hR context yes)
  | _, _, .ifElse condition yes no =>
    List.rel_append (List.rel_append (condition.errors _) (Stmt.Alike.errors hR context yes))
      (Stmt.Alike.errors hR context no)
  | _, _, .loop condition body =>
    List.rel_append (condition.errors _) (Stmt.Alike.errors hR context body)
  | _, _, .function declaration => FunctionDecl.Alike.errors hR context declaration
  | _, _, .ret h value =>
    List.rel_append (returnErrors_alike context h) (Expr.Alike.optionErrors _ value)
  | _, _, .classDecl name superclass methods => by
    refine List.rel_append (inheritanceErrors_alike hR name superclass) ?_
    rw [ofSuperclass_eq superclass]
    exact FunctionDecl.Alike.listErrors hR _ methods

theorem Stmt.Alike.listErrors (hR : ∀ {t t'}, R .name t t' → t'.lexeme = t.lexeme) (context : Context) :
    {ss ss' : List Stmt} → Forall₂ (Stmt.Alike R) ss ss' →
      Forall₂ (PlacementError.Alike R) (stmtListErrors context ss) (stmtListErrors context ss')
  | _, _, .nil => .nil
  | _, _, .cons s ss =>
    List.rel_append (Stmt.Alike.errors hR context s) (Stmt.Alike.listErrors hR context ss)

theorem FunctionDecl.Alike.errors (hR : ∀ {t t'}, R .name t t' → t'.lexeme = t.lexeme) (context : Context) :
    {f f' : FunctionDecl} → f.Alike R f' →
      Forall₂ (PlacementError.Alike R) (functionErrors context f) (functionErrors context f')
  | _, _, .mk _ _ body => Stmt.Alike.listErrors hR _ body

theorem FunctionDecl.Alike.listErrors (hR : ∀ {t t'}, R .name t t' → t'.lexeme = t.lexeme)
    (context : Context) : {fs fs' : List FunctionDecl} → Forall₂ (FunctionDecl.Alike R) fs fs' →
      Forall₂ (PlacementError.Alike R) (functionListErrors context fs) (functionListErrors context fs')
  | _, _, .nil => .nil
  | _, _, .cons f fs =>
    List.rel_append (FunctionDecl.Alike.errors hR context f) (FunctionDecl.Alike.listErrors hR context fs)

end

end Errors

end LoxLang
