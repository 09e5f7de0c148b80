import LoxLang.Proofs.Placement.Store
import LoxLang.Proofs.Run.Discipline

/-!
# What misplaced constructs would have led to does not happen

The check of placement lets a program pass only if each `this`, `super` and `return` stands where it
has a meaning. This is the discipline that makes the check worth having: every activity is of a tree
in a place, in a scope that provides what the place lets be asked for, in a sound store. Under it, no
error is about a receiver, a superclass, a stray return or an operator that is none.

Main statement: `placement_kept`, that every plan keeps this discipline.
-/

namespace LoxLang

open Placement
open List (Forall₂)

/-! ### Trees in their places -/

/-- An expression with proper tokens and nothing misplaced, in a place. -/
structure Expr.InPlace (context : ClassContext) (e : Expr) : Prop where
  errors : exprErrors context e = []
  proper : e.Alike Token.Proper e

/-- A statement with proper tokens and nothing misplaced, in a place. -/
structure Stmt.InPlace (context : Context) (s : Stmt) : Prop where
  errors : stmtErrors context s = []
  proper : s.Alike Token.Proper s

theorem exprListErrors_eq_nil {context : ClassContext} {es : List Expr} :
    exprListErrors context es = [] ↔ ∀ e ∈ es, exprErrors context e = [] := by
  induction es with
  | nil => simp [exprListErrors]
  | cons e es ih => simp [exprListErrors, ih]

theorem stmtListErrors_eq_nil {context : Context} {ss : List Stmt} :
    stmtListErrors context ss = [] ↔ ∀ s ∈ ss, stmtErrors context s = [] := by
  induction ss with
  | nil => simp [stmtListErrors]
  | cons s ss ih => simp [stmtListErrors, ih]

theorem functionListErrors_eq_nil {context : Context} {fs : List FunctionDecl} :
    functionListErrors context fs = [] ↔ ∀ f ∈ fs, functionErrors context f = [] := by
  induction fs with
  | nil => simp [functionListErrors]
  | cons f fs ih => simp [functionListErrors, ih]

theorem stmts_inPlace {context : Context} {ss : List Stmt} (h : stmtListErrors context ss = [])
    (hp : Forall₂ (Stmt.Alike Token.Proper) ss ss) : ∀ s ∈ ss, s.InPlace context :=
  fun s hs => ⟨stmtListErrors_eq_nil.1 h s hs, List.forall₂_same.1 hp s hs⟩

theorem exprs_inPlace {context : ClassContext} {es : List Expr} (h : exprListErrors context es = [])
    (hp : Forall₂ (Expr.Alike Token.Proper) es es) : ∀ e ∈ es, e.InPlace context :=
  fun e he => ⟨exprListErrors_eq_nil.1 h e he, List.forall₂_same.1 hp e he⟩

/-- An expression that may be missing is in place if it is there. -/
theorem option_inPlace {context : ClassContext} {e : Option Expr} (h : optionErrors context e = [])
    (hp : Option.Rel (Expr.Alike Token.Proper) e e) : ∀ e' ∈ e, e'.InPlace context := by
  cases e with
  | none => simp
  | some e =>
    intro e' he
    cases he
    cases hp with
    | some hp => exact ⟨h, hp⟩

/-- The statements of a function are in a function. -/
theorem FunctionDecl.InPlace.body {context : ClassContext} {f : FunctionDecl} (h : f.InPlace context) :
    ∀ s ∈ f.body, s.InPlace { inFunction := true, inClass := context } := by
  obtain ⟨herrors, hproper⟩ := h
  cases hproper with
  | mk _ _ hbody => exact stmts_inPlace herrors hbody

/-! ### Errors and results -/

/-- An error that a program without misplaced constructs may end with. -/
structure RuntimeError.Proper (e : RuntimeError) : Prop where
  this : e.token.kind ≠ .kwThis
  super : e.token.kind ≠ .kwSuper
  ret : e.fault ≠ .topLevelReturn
  unary : ∀ op, e.fault ≠ .unknownUnary op
  binary : ∀ op, e.fault ≠ .unknownBinary op

/-- A statement ends with a return only where it is not clean of them, and then at a return. -/
def Completion.Within (clean : Prop) : Completion → Prop
  | .normal => True
  | .returned keyword _ => keyword.kind = .kwReturn ∧ ¬ clean

theorem Completion.Within.mono {clean clean' : Prop} {c : Completion} (h : c.Within clean)
    (hc : clean' → clean) : c.Within clean' := by
  cases c with
  | normal => trivial
  | returned keyword v => exact ⟨h.1, fun h' => h.2 (hc h')⟩

namespace Activity

/-- An activity of a tree in a place, in a scope that provides what the place lets be asked for. -/
def Fits (σ : Store) : Activity → Prop
  | .exec _ scope s =>
    ∃ context : Context, s.InPlace context ∧ σ.Provides scope context.inClass
  | .execAll _ scope ss =>
    ∃ context : Context, (∀ s ∈ ss, s.InPlace context) ∧ σ.Provides scope context.inClass
  | .execLoop _ scope c body =>
    ∃ context : Context, c.InPlace context.inClass ∧ body.InPlace context ∧
      σ.Provides scope context.inClass
  | .eval _ scope e => ∃ context, e.InPlace context ∧ σ.Provides scope context
  | .evalOption _ scope e => ∃ context, (∀ e' ∈ e, e'.InPlace context) ∧ σ.Provides scope context
  | .evalAll _ scope es => ∃ context, (∀ e ∈ es, e.InPlace context) ∧ σ.Provides scope context
  | .call _ _ paren _ => paren.kind = .rightParen
  | .apply _ _ _ => True
  | .runBody _ f _ => f.Fits σ
  | .program _ _ ss => ∀ s ∈ ss, s.InPlace {}

/-- What is clean of returns outside functions does not return. -/
def Yields : (a : Activity) → a.Result → Prop
  | .exec _ _ s, c =>
    c.Within (∃ context, stmtErrors { inFunction := false, inClass := context } s = [])
  | .execAll _ _ ss, c =>
    c.Within (∃ context, ∀ s ∈ ss, stmtErrors { inFunction := false, inClass := context } s = [])
  | .execLoop _ _ _ body, c =>
    c.Within (∃ context, stmtErrors { inFunction := false, inClass := context } body = [])
  | .eval _ _ _, _ | .evalOption _ _ _, _ | .evalAll _ _ _, _ => True
  | .call _ _ _ _, _ | .apply _ _ _, _ | .runBody _ _ _, _ | .program _ _ _, _ => True

end Activity

/-- The discipline that the check of placement is for. -/
def placement : Discipline where
  keeps s t := Store.Extends s.store t.store ∧ t.store.Sound
  fits s a := a.Fits s.store
  yields := Activity.Yields
  proper := RuntimeError.Proper
  keeps_self h := ⟨.refl _, h.2⟩
  keeps_trans h h' := ⟨h.1.trans h'.1, h'.2⟩
  keeps_entering call h := by cases call <;> exact ⟨.refl _, h.2⟩
  keeps_leaving call h := by cases call <;> exact ⟨.refl _, h.2⟩
  fits_entering call h := by cases call <;> exact h
  proper_same h h' := ⟨h.1 ▸ h'.this, h.1 ▸ h'.super, h.2 ▸ h'.ret, h.2 ▸ h'.unary, h.2 ▸ h'.binary⟩

/-! ### What is done without beginning an activity -/

namespace Token

theorem Proper.kind {part : Part} {t t' : Token} (h : Token.Proper part t t') : t.kind ∈ part.kinds := h.2

/-- A name is neither the receiver nor the superclass. -/
theorem Proper.name {t t' : Token} (h : Token.Proper .name t t') :
    t.kind = .identifier ∧ t.lexeme ≠ receiver.lexeme ∧ t.lexeme ≠ superName := by
  have hk : t.kind = .identifier := by simpa [Part.kinds] using h.2
  exact ⟨hk, h.1.2.name hk⟩

theorem Proper.this {t t' : Token} (h : Token.Proper .this t t') : t.lexeme = receiver.lexeme :=
  h.1.2.this (by simpa [Part.kinds] using h.2)

theorem Proper.super {t t' : Token} (h : Token.Proper .super t t') : t.lexeme = superName :=
  h.1.2.super (by simpa [Part.kinds] using h.2)

/-- Whatever a name is bound to, it may be. -/
theorem Proper.admits {t t' : Token} (h : Token.Proper .name t t') (v : Value) :
    Store.Admits t.lexeme v :=
  ⟨fun hr => absurd hr h.name.2.1, fun hr => absurd hr h.name.2.2⟩

end Token

section Moves

variable {s : RunState} {scope : ScopeId} {t : Token} {v : Value}

/-- An error at a name, where it is about something that may go wrong. -/
theorem proper_at_name (h : Token.Proper .name t t) {fault : Fault} (ret : fault ≠ .topLevelReturn)
    (unary : ∀ op, fault ≠ .unknownUnary op) (binary : ∀ op, fault ≠ .unknownBinary op) :
    RuntimeError.Proper { token := t, fault } :=
  ⟨by simp [h.name.1], by simp [h.name.1], ret, unary, binary⟩

theorem guards_lookup_found (hs : s.store.Sound) (h : s.store.lookup? scope t.lexeme = some v) :
    placement.Guards (fun w u => w = v ∧ u = s) (Run.lookup scope t) s :=
  Discipline.guards_of_done (by simp [Run.lookup, h]) ⟨.refl _, hs⟩ ⟨rfl, rfl⟩

theorem guards_lookup (hs : s.store.Sound) (h : Token.Proper .name t t) :
    placement.Guards (fun _ u => u = s) (Run.lookup scope t) s := by
  cases hl : s.store.lookup? scope t.lexeme with
  | none =>
    refine Discipline.guards_of_failed (t := s) (by simp only [Run.lookup, hl]; rfl) ⟨.refl _, hs⟩ ?_
    exact proper_at_name h (by simp) (by simp) (by simp)
  | some v => exact (guards_lookup_found hs hl).mono fun _ _ _ h => h.2

theorem guards_define (hs : s.store.Sound) (h : Token.Proper .name t t) (scope : ScopeId)
    (v : Value) :
    placement.Guards (fun _ _ => True) (Run.change (·.define scope t.lexeme v)) s :=
  Discipline.guards_of_done rfl ⟨.define .., hs.define scope (h.admits v)⟩ trivial

theorem guards_assign (hs : s.store.Sound) (h : Token.Proper .name t t) :
    placement.Guards (fun _ _ => True) (Run.assign scope t v) s := by
  cases hh : s.store.holder? scope t.lexeme with
  | none =>
    refine Discipline.guards_of_failed (t := s) (by simp only [Run.assign, hh]; rfl) ⟨.refl _, hs⟩ ?_
    exact proper_at_name h (by simp) (by simp) (by simp)
  | some holder =>
    refine Discipline.guards_of_done (by simp only [Run.assign, hh]; rfl) ⟨.define .., ?_⟩ trivial
    exact hs.define holder (h.admits v)

theorem guards_fail {goal : α → RunState → Prop} {fault : Fault} (hs : s.store.Sound)
    (h : RuntimeError.Proper { token := t, fault }) : placement.Guards goal (Run.fail t fault) s :=
  Discipline.guards_of_failed rfl ⟨.refl _, hs⟩ h

theorem guards_pure {a : α} (hs : s.store.Sound) :
    placement.Guards (fun _ _ => True) (pure a : Run α) s :=
  Discipline.guards_of_done rfl ⟨.refl _, hs⟩ trivial

theorem guards_applyUnary (hs : s.store.Sound) (h : Token.Proper .unary t t) :
    placement.Guards (fun _ _ => True) (Run.applyUnary t v) s := by
  have hk : t.kind = .bang ∨ t.kind = .minus := by simpa [Part.kinds] using h.kind
  unfold Run.applyUnary
  split
  · exact guards_pure hs
  · exact guards_pure hs
  · next hm _ => exact guards_fail hs ⟨by simp [hm], by simp [hm], by simp, by simp, by simp⟩
  · next hb hm => simp_all

theorem guards_applyBinary (hs : s.store.Sound) (h : Token.Proper .binary t t) (l r : Value) :
    placement.Guards (fun _ _ => True) (Run.applyBinary t l r) s := by
  have hk := h.kind
  have herror {fault : Fault} (ret : fault ≠ .topLevelReturn) (unary : ∀ op, fault ≠ .unknownUnary op)
      (binary : ∀ op, fault ≠ .unknownBinary op) : RuntimeError.Proper { token := t, fault } := by
    refine ⟨?_, ?_, ret, unary, binary⟩ <;> intro hkw <;> rw [show t.kind = _ from hkw] at hk <;>
      exact absurd hk (by decide)
  unfold Run.applyBinary
  split
  · exact guards_pure hs
  · exact guards_pure hs
  · unfold Run.applyPlus
    split
    · exact guards_pure hs
    · exact guards_pure hs
    · exact guards_fail hs (herror (by simp) (by simp) (by simp))
  · split
    · rw [Run.applyNumeric]
      split
      case h_8 => simp_all [Part.kinds]
      all_goals exact guards_pure hs
    · exact guards_fail hs (herror (by simp) (by simp) (by simp))

theorem guards_read {goal : α → RunState → Prop} {f : Store → α} (hs : s.store.Sound)
    (h : goal (f s.store) s) : placement.Guards goal (Run.read f) s :=
  Discipline.guards_of_done rfl ⟨.refl _, hs⟩ h

theorem guards_bindMethod (hs : s.store.Sound) {m : Closure} (hm : m.FitsMethod s.store)
    (receiver : Ref) : placement.Guards (fun _ _ => True) (Run.bindMethod m receiver) s := by
  refine Discipline.guards_of_done rfl ⟨?_, ?_⟩ trivial
  · exact (Store.Extends.bind s.store m receiver).trans (.of_scopes_eq rfl)
  · exact (hs.bind m receiver).newFunction (Store.bind_fits hm receiver)

theorem guards_property (hs : s.store.Sound) (h : Token.Proper .name t t) (object : Value) :
    placement.Guards (fun _ _ => True) (Run.property object t) s := by
  unfold Run.property
  split
  · next receiver =>
    refine .bind (guards_read hs ?_)
    cases hf : s.store.field? receiver t.lexeme with
    | some v => exact guards_pure hs
    | none =>
      refine .bind (guards_read hs ?_)
      cases hm : s.store.methodOf? receiver t.lexeme with
      | some m =>
        refine guards_bindMethod hs ?_ receiver
        rw [Store.methodOf?] at hm
        split at hm
        · exact hs.method hm
        · cases hm
      | none => exact guards_fail hs (proper_at_name h (by simp) (by simp) (by simp))
  · exact guards_fail hs (proper_at_name h (by simp) (by simp) (by simp))

theorem guards_fieldOwner (hs : s.store.Sound) (h : Token.Proper .name t t) (object : Value) :
    placement.Guards (fun _ _ => True) (Run.fieldOwner object t) s := by
  unfold Run.fieldOwner
  split
  · exact guards_pure hs
  · exact guards_fail hs (proper_at_name h (by simp) (by simp) (by simp))

/-- In a class with a superclass, asking for a method of the superclass fails only for want of it. -/
theorem guards_superMethod (hs : s.store.Sound) (hp : s.store.Provides scope .derived)
    (h : Token.Proper .super t t) {method : Token} (hm : Token.Proper .name method method) :
    placement.Guards (fun _ _ => True) (Run.superMethod scope t method) s := by
  obtain ⟨c, hc⟩ := hs.lookup_superclass hp.2
  obtain ⟨r, hr⟩ := hs.lookup_receiver hp.1
  rw [← h.super] at hc
  rw [Run.superMethod]
  refine .bind ((guards_lookup_found hs hc).mono ?_)
  rintro _ _ - ⟨rfl, rfl⟩
  refine .bind ((guards_lookup_found hs hr).mono ?_)
  rintro _ _ - ⟨rfl, rfl⟩
  refine .bind (guards_read hs ?_)
  cases hmethod : Store.method? _ c.id method.lexeme with
  | some m => exact guards_bindMethod hs (hs.method hmethod) r
  | none => exact guards_fail hs (proper_at_name hm (by simp) (by simp) (by simp))

theorem guards_superclassNamed (hs : s.store.Sound) (h : Token.Proper .name t t) :
    placement.Guards (fun _ u => u = s) (Run.superclassNamed scope t) s := by
  refine .bind ((guards_lookup hs h).mono ?_)
  rintro v _ - rfl
  split
  · exact Discipline.guards_of_done rfl ⟨.refl _, hs⟩ rfl
  · exact guards_fail hs (proper_at_name h (by simp) (by simp) (by simp))

/-- What the table of a class has under a name is a method of the class with that name, marked if it sets up
new instances. -/
theorem exists_of_get?_methodTable {methods : List FunctionDecl} {name : String} {m : Closure}
    (h : (Run.methodTable scope methods).get? name = some m) : ∃ f ∈ methods, f.name.lexeme = name ∧
      m = { declaration := f, scope, isInitializer := name == Store.initializerName } := by
  suffices ∀ (all : List FunctionDecl) (table : Bindings Closure), methods ⊆ all →
      (∀ {name m}, table.get? name = some m → ∃ f ∈ all, f.name.lexeme = name ∧
        m = { declaration := f, scope, isInitializer := name == Store.initializerName }) →
      ∀ {name m}, (methods.foldl (fun table f => table.put f.name.lexeme
        { declaration := f, scope, isInitializer := f.name.lexeme == Store.initializerName })
          table).get? name = some m → ∃ f ∈ all, f.name.lexeme = name ∧
        m = { declaration := f, scope, isInitializer := name == Store.initializerName } from
    this methods {} (List.Subset.refl _) (fun h => by simp [Bindings.get?] at h) h
  clear h
  induction methods with
  | nil => exact fun all table _ htable => htable
  | cons f fs ih =>
    intro all table hall htable
    refine ih all _ (fun g hg => hall (List.mem_cons_of_mem _ hg)) ?_
    intro name m h
    by_cases hn : name = f.name.lexeme
    · subst hn
      rw [Bindings.get?_put_self] at h
      cases h
      exact ⟨f, hall List.mem_cons_self, rfl, rfl⟩
    · rw [Bindings.get?_put_of_ne _ hn] at h
      exact htable h

/-- What holds of all methods of a class holds of whatever its table has under a name. -/
theorem get?_methodTable {P : Closure → Prop} {methods : List FunctionDecl}
    (hm : ∀ f ∈ methods, ∀ isInitializer, P { declaration := f, scope, isInitializer })
    {name : String} {m : Closure} (h : (Run.methodTable scope methods).get? name = some m) : P m := by
  obtain ⟨f, hf, -, rfl⟩ := exists_of_get?_methodTable h
  exact hm f hf _

theorem guards_newClass (hs : s.store.Sound) {context : ClassContext}
    (hin : context ≠ .outside) (hd : context = .derived → s.store.Finds scope Token.superName)
    {methods : List FunctionDecl} (hm : ∀ f ∈ methods, f.InPlace context) (name : String)
    (superclass : Option Nat) :
    placement.Guards (fun _ _ => True) (Run.make (·.newClass
      { name, superclass, methods := Run.methodTable scope methods })) s := by
  refine Discipline.guards_of_done rfl ⟨.of_scopes_eq rfl, hs.newClass ?_⟩ trivial
  intro name m h
  exact get?_methodTable (P := fun m => m.FitsMethod s.store)
    (fun f hf _ => ⟨context, hm f hf, hin, hd⟩) h

theorem guards_declareClass (hs : s.store.Sound) {context : Context} {superclass : Option Token}
    {methods : List FunctionDecl} (h : (Stmt.classDecl t superclass methods).InPlace context) :
    placement.Guards (fun _ _ => True) (Run.declareClass scope t superclass methods) s := by
  obtain ⟨herrors, hproper⟩ := h
  cases hproper with
  | classDecl ht hsuper hmethods =>
  have hm : ∀ f ∈ methods, f.InPlace (.ofSuperclass superclass) := by
    intro f hf
    have := functionListErrors_eq_nil.1 (List.append_eq_nil_iff.1 herrors).2 f hf
    refine ⟨?_, List.forall₂_same.1 hmethods f hf⟩
    cases f
    exact this
  cases superclass with
  | none =>
    rw [Run.declareClass_none]
    refine .bind ((guards_define hs ht scope .nil).mono fun _ u hu _ => ?_)
    refine .bind ((guards_newClass hu.2 (by simp [ClassContext.ofSuperclass])
      (by simp [ClassContext.ofSuperclass]) hm _ _).mono fun ref w hw _ => ?_)
    exact guards_define hw.2 ht scope _
  | some superName =>
    cases hsuper with
    | some hsuper =>
    rw [Run.declareClass_some]
    refine .bind ((guards_superclassNamed hs hsuper).mono ?_)
    rintro c _ - rfl
    refine .bind ((guards_define hs ht scope .nil).mono fun _ u hu _ => ?_)
    refine .bind (Discipline.guards_of_done rfl ⟨?_, ?_⟩ ?_)
    · exact (Store.Extends.newScope _ _).trans (.define ..)
    · exact (hu.2.newScope (some scope)).define _ (Store.admits_superclass c)
    refine .bind ((guards_newClass ?_ (by simp [ClassContext.ofSuperclass]) ?_ hm _ _).mono
      fun ref w hw _ => guards_define hw.2 ht scope _)
    · exact (hu.2.newScope (some scope)).define _ (Store.admits_superclass c)
    · exact fun _ => Store.finds_define_self _ (by simp) _ _

theorem define_params {σ : Store} (hs : σ.Sound) (scope : ScopeId) (bound : List (Token × Value))
    (h : ∀ b ∈ bound, Token.Proper .name b.1 b.1) :
    Store.Extends σ (bound.foldl (fun σ (p, v) => σ.define scope p.lexeme v) σ) ∧
      (bound.foldl (fun σ (p, v) => σ.define scope p.lexeme v) σ).Sound := by
  induction bound generalizing σ with
  | nil => exact ⟨.refl _, hs⟩
  | cons b bound ih =>
    have hb := h b List.mem_cons_self
    obtain ⟨he, hsound⟩ := ih (hs.define scope (hb.admits b.2))
      fun b' hb' => h b' (List.mem_cons_of_mem _ hb')
    exact ⟨(Store.Extends.define ..).trans he, hsound⟩

/-- The scope of a call provides what the place of the function lets be asked for. -/
theorem guards_enter {context : ClassContext} {f : Closure} (hs : s.store.Sound)
    (hf : f.FitsIn s.store context) (args : List Value) :
    placement.Guards (fun inner u => u.store.Provides inner context) (Run.enter f args) s := by
  have hparams : ∀ b ∈ f.declaration.params.zip args, Token.Proper .name b.1 b.1 := by
    intro b hb
    obtain ⟨⟨name, params, body⟩, fscope, isInitializer⟩ := f
    cases hf.inPlace.proper with
    | mk _ hp _ => exact List.forall₂_same.1 hp b.1 (List.of_mem_zip hb).1
  obtain ⟨he, hsound⟩ := define_params (hs.newScope (some f.scope)) s.store.scopes.size
    (f.declaration.params.zip args) hparams
  refine Discipline.guards_of_done rfl ⟨(Store.Extends.newScope ..).trans he, hsound⟩ ?_
  exact (hf.provides.newScope).mono he

theorem guards_leave {f : Closure} (hs : s.store.Sound) (hf : f.Fits s.store) {c : Completion}
    {clean : Prop} (hc : c.Within clean) :
    placement.Guards (fun _ _ => True) (Run.leave f c) s := by
  obtain ⟨context, hf⟩ := hf
  rw [Run.leave]
  split
  · next hi =>
    obtain ⟨r, hr⟩ := hs.lookup_receiver (hf.initializer hi)
    refine .bind ((guards_lookup_found hs hr).mono ?_)
    rintro _ _ - ⟨rfl, rfl⟩
    split
    · next keyword v =>
      split
      · exact guards_pure hs
      · exact guards_fail hs ⟨by simp [hc.1], by simp [hc.1], by simp, by simp, by simp⟩
    · exact guards_pure hs
  · exact guards_pure hs

end Moves

/-! ### Plans -/

section Plans

variable {o : Options} {n : Nat} {scope : ScopeId} {s : RunState}

theorem safe_exec {context : Context} {st : Stmt} (hs : s.store.Sound) (h : st.InPlace context)
    (hp : s.store.Provides scope context.inClass) :
    placement.Safe (placement.yields (.exec (n + 1) scope st)) ((Activity.exec (n + 1) scope st).plan o)
      s := by
  obtain ⟨herrors, hproper⟩ := h
  cases hproper with
  | expression value => exact ⟨⟨_, ⟨herrors, value⟩, hp⟩, fun v t ht _ => trivial⟩
  | print value =>
    refine ⟨⟨_, ⟨herrors, value⟩, hp⟩, fun v t ht _ => ?_⟩
    exact Discipline.guards_of_done rfl ⟨.refl _, ht.2⟩ trivial
  | var hname initial =>
    refine ⟨⟨_, option_inPlace herrors initial, hp⟩, fun v t ht _ => ?_⟩
    exact (guards_define ht.2 hname scope v).mono fun _ _ _ _ => trivial
  | block body =>
    refine Discipline.guards_of_done rfl ⟨.newScope .., hs.newScope _⟩ ?_
    refine ⟨⟨context, stmts_inPlace herrors body, hp.newScope⟩, fun c t ht hc => ?_⟩
    exact hc.mono fun ⟨k, hk⟩ => ⟨k, stmtListErrors_eq_nil.1 hk⟩
  | ifThen condition yes =>
    obtain ⟨hc, hy⟩ := List.append_eq_nil_iff.1 herrors
    refine ⟨⟨_, ⟨hc, condition⟩, hp⟩, fun v t ht _ => ?_⟩
    dsimp only
    split
    · refine ⟨⟨context, ⟨hy, yes⟩, hp.mono ht.1⟩, fun c u hu hc => ?_⟩
      exact hc.mono fun ⟨k, hk⟩ => ⟨k, (List.append_eq_nil_iff.1 hk).2⟩
    · trivial
  | ifElse condition yes no =>
    obtain ⟨hcy, hn⟩ := List.append_eq_nil_iff.1 herrors
    obtain ⟨hc, hy⟩ := List.append_eq_nil_iff.1 hcy
    refine ⟨⟨_, ⟨hc, condition⟩, hp⟩, fun v t ht _ => ?_⟩
    dsimp only
    split
    · refine ⟨⟨context, ⟨hy, yes⟩, hp.mono ht.1⟩, fun c u hu hc => ?_⟩
      exact hc.mono fun ⟨k, hk⟩ =>
        ⟨k, (List.append_eq_nil_iff.1 (List.append_eq_nil_iff.1 hk).1).2⟩
    · refine ⟨⟨context, ⟨hn, no⟩, hp.mono ht.1⟩, fun c u hu hc => ?_⟩
      exact hc.mono fun ⟨k, hk⟩ => ⟨k, (List.append_eq_nil_iff.1 hk).2⟩
  | loop condition body =>
    obtain ⟨hc, hb⟩ := List.append_eq_nil_iff.1 herrors
    refine ⟨⟨context, ⟨hc, condition⟩, ⟨hb, body⟩, hp⟩, fun c t ht hc => ?_⟩
    exact hc.mono fun ⟨k, hk⟩ => ⟨k, (List.append_eq_nil_iff.1 hk).2⟩
  | function declaration =>
    cases declaration with
    | mk hname hparams hbody =>
    refine Discipline.guards_of_done rfl ⟨.of_scopes_eq rfl, hs.newFunction ?_⟩ ?_
    · exact ⟨context.inClass, ⟨herrors, .mk hname hparams hbody⟩, hp, fun h => by cases h⟩
    · refine (guards_define ?_ hname scope _).mono fun _ _ _ _ => trivial
      exact hs.newFunction
        ⟨context.inClass, ⟨herrors, .mk hname hparams hbody⟩, hp, fun h => by cases h⟩
  | ret hkeyword value =>
    obtain ⟨hr, hv⟩ := List.append_eq_nil_iff.1 herrors
    have hkind := hkeyword.kind
    refine ⟨⟨_, option_inPlace hv value, hp⟩, fun v t ht _ => ⟨by simpa [Part.kinds] using hkind, ?_⟩⟩
    rintro ⟨k, hk⟩
    exact absurd (List.append_eq_nil_iff.1 hk).1 (by simp [returnErrors])
  | classDecl hname hsuper hmethods =>
    exact (guards_declareClass hs ⟨herrors, .classDecl hname hsuper hmethods⟩).mono
      fun _ _ _ _ => trivial

theorem safe_execAll {context : Context} {ss : List Stmt} (h : ∀ st ∈ ss, st.InPlace context)
    (hp : s.store.Provides scope context.inClass) :
    placement.Safe (placement.yields (.execAll (n + 1) scope ss))
      ((Activity.execAll (n + 1) scope ss).plan o) s := by
  cases ss with
  | nil => trivial
  | cons st ss =>
    refine ⟨⟨context, h st List.mem_cons_self, hp⟩, fun c t ht hc => ?_⟩
    cases c with
    | normal =>
      refine ⟨⟨context, fun st hst => h st (List.mem_cons_of_mem _ hst), hp.mono ht.1⟩, ?_⟩
      exact fun c u hu hc => hc.mono fun ⟨k, hk⟩ => ⟨k, fun st hst => hk st (List.mem_cons_of_mem _ hst)⟩
    | returned keyword v =>
      exact ⟨hc.1, fun ⟨k, hk⟩ => hc.2 ⟨k, hk st List.mem_cons_self⟩⟩

theorem safe_execLoop {context : Context} {c : Expr} {body : Stmt} (hc : c.InPlace context.inClass)
    (hb : body.InPlace context) (hp : s.store.Provides scope context.inClass) :
    placement.Safe (placement.yields (.execLoop (n + 1) scope c body))
      ((Activity.execLoop (n + 1) scope c body).plan o) s := by
  refine ⟨⟨_, hc, hp⟩, fun v t ht _ => ?_⟩
  dsimp only
  split
  · refine ⟨⟨context, hb, hp.mono ht.1⟩, fun r u hu hr => ?_⟩
    have hpu := (hp.mono ht.1).mono hu.1
    cases r with
    | normal => exact ⟨⟨context, hc, hb, hpu⟩, fun r w hw hr => hr⟩
    | returned keyword v => exact hr
  · trivial

theorem safe_eval {context : ClassContext} {e : Expr} (hs : s.store.Sound) (h : e.InPlace context)
    (hp : s.store.Provides scope context) :
    placement.Safe (placement.yields (.eval (n + 1) scope e)) ((Activity.eval (n + 1) scope e).plan o)
      s := by
  obtain ⟨herrors, hproper⟩ := h
  cases hproper with
  | literal => trivial
  | grouping inner => exact ⟨⟨context, ⟨herrors, inner⟩, hp⟩, fun v t ht _ => trivial⟩
  | name ht => exact (guards_lookup hs ht).mono fun _ _ _ _ => trivial
  | assign hname value =>
    refine ⟨⟨context, ⟨herrors, value⟩, hp⟩, fun v t ht _ => ?_⟩
    exact (guards_assign ht.2 hname).mono fun _ _ _ _ => trivial
  | unary hop operand =>
    refine ⟨⟨context, ⟨herrors, operand⟩, hp⟩, fun v t ht _ => ?_⟩
    exact (guards_applyUnary ht.2 hop).mono fun _ _ _ _ => trivial
  | binary left hop right =>
    obtain ⟨hl, hr⟩ := List.append_eq_nil_iff.1 herrors
    refine ⟨⟨context, ⟨hl, left⟩, hp⟩, fun a t ht _ => ?_⟩
    refine ⟨⟨context, ⟨hr, right⟩, hp.mono ht.1⟩, fun b u hu _ => ?_⟩
    exact (guards_applyBinary hu.2 hop a b).mono fun _ _ _ _ => trivial
  | logical left hop right =>
    obtain ⟨hl, hr⟩ := List.append_eq_nil_iff.1 herrors
    refine ⟨⟨context, ⟨hl, left⟩, hp⟩, fun a t ht _ => ?_⟩
    dsimp only
    split
    · trivial
    · exact ⟨⟨context, ⟨hr, right⟩, hp.mono ht.1⟩, fun b u hu _ => trivial⟩
  | call callee hparen args =>
    obtain ⟨hf, ha⟩ := List.append_eq_nil_iff.1 herrors
    refine ⟨⟨context, ⟨hf, callee⟩, hp⟩, fun a t ht _ => ?_⟩
    refine ⟨⟨context, exprs_inPlace ha args, hp.mono ht.1⟩, fun b u hu _ => ?_⟩
    exact ⟨List.mem_singleton.1 hparen.kind, fun _ _ _ _ => trivial⟩
  | get object hname =>
    refine ⟨⟨context, ⟨herrors, object⟩, hp⟩, fun v t ht _ => ?_⟩
    exact (guards_property ht.2 hname v).mono fun _ _ _ _ => trivial
  | set object hname value =>
    obtain ⟨hv, ho⟩ := List.append_eq_nil_iff.1 herrors
    refine ⟨⟨context, ⟨ho, object⟩, hp⟩, fun v t ht _ => ?_⟩
    refine (guards_fieldOwner ht.2 hname v).mono fun owner u hu _ => ?_
    refine ⟨⟨context, ⟨hv, value⟩, (hp.mono ht.1).mono hu.1⟩, fun w x hx _ => ?_⟩
    exact Discipline.guards_of_done rfl ⟨.of_scopes_eq rfl, hx.2.setField ..⟩ trivial
  | this hkeyword =>
    have hfinds : s.store.Finds scope Token.receiver.lexeme := by
      cases context with
      | outside => cases herrors
      | plain => exact hp
      | derived => exact hp.1
    obtain ⟨r, hr⟩ := hs.lookup_receiver hfinds
    rw [← hkeyword.this] at hr
    exact (guards_lookup_found hs hr).mono fun _ _ _ _ => trivial
  | super hkeyword hmethod =>
    cases context with
    | outside => cases herrors
    | plain => cases herrors
    | derived => exact (guards_superMethod hs hp hkeyword hmethod).mono fun _ _ _ _ => trivial

theorem safe_call {callee : Value} {paren : Token} {args : List Value} (hs : s.store.Sound)
    (h : paren.kind = .rightParen) :
    placement.Safe (placement.yields (.call (n + 1) callee paren args))
      ((Activity.call (n + 1) callee paren args).plan o) s := by
  have herror {fault : Fault} (ret : fault ≠ .topLevelReturn) (unary : ∀ op, fault ≠ .unknownUnary op)
      (binary : ∀ op, fault ≠ .unknownBinary op) : RuntimeError.Proper { token := paren, fault } :=
    ⟨by simp [h], by simp [h], ret, unary, binary⟩
  refine guards_read hs ?_
  cases s.store.arity? callee with
  | none => exact guards_fail hs (herror (by simp) (by simp) (by simp))
  | some arity =>
    dsimp only
    split
    · cases hd : o.allowsCall s.frames.size with
      | true =>
        refine Discipline.guards_of_done (r := ()) (t := s) (by simp [Run.guardDepth, hd])
          ⟨.refl _, hs⟩ ?_
        exact ⟨trivial, fun _ _ _ _ => trivial⟩
      | false =>
        refine Discipline.guards_of_failed (t := s) (by simp only [Run.guardDepth, hd]; rfl)
          ⟨.refl _, hs⟩ (herror (by simp) (by simp) (by simp))
    · exact guards_fail hs (herror (by simp) (by simp) (by simp))

theorem safe_apply {callee : Value} {args : List Value} (hs : s.store.Sound) :
    placement.Safe (placement.yields (.apply (n + 1) callee args))
      ((Activity.apply (n + 1) callee args).plan o) s := by
  cases callee with
  | functionRef ref =>
    refine guards_read hs ?_
    cases hf : s.store.functions[ref.id]? with
    | none => trivial
    | some f => exact ⟨hs.functions (Array.mem_of_getElem? hf), fun _ _ _ _ => trivial⟩
  | classRef ref =>
    refine Discipline.guards_of_done rfl ⟨.of_scopes_eq rfl, hs.newInstance ref⟩ ?_
    refine guards_read (hs.newInstance ref) ?_
    dsimp only
    split
    · next m hm =>
      have hfits := (hs.newInstance ref).method hm
      refine Discipline.guards_of_done rfl ⟨.bind .., (hs.newInstance ref).bind ..⟩ ?_
      exact ⟨Store.bind_fits hfits _, fun _ _ _ _ => trivial⟩
    · trivial
  | _ => trivial

theorem safe_runBody {f : Closure} {args : List Value} (hs : s.store.Sound) (h : f.Fits s.store) :
    placement.Safe (placement.yields (.runBody (n + 1) f args))
      ((Activity.runBody (n + 1) f args).plan o) s := by
  obtain ⟨context, hf⟩ := h
  refine (guards_enter hs hf args).mono fun scope t ht hp => ?_
  refine ⟨⟨{ inFunction := true, inClass := context }, hf.inPlace.body, hp⟩, fun c u hu hc => ?_⟩
  have hfits : f.Fits u.store := Closure.Fits.mono (Closure.Fits.mono ⟨context, hf⟩ ht.1) hu.1
  exact (guards_leave hu.2 hfits hc).mono fun _ _ _ _ => trivial

theorem safe_program {ss : List Stmt} (h : ∀ st ∈ ss, st.InPlace {}) :
    placement.Safe (placement.yields (.program n scope ss)) ((Activity.program n scope ss).plan o)
      s := by
  cases ss with
  | nil => trivial
  | cons st ss =>
    refine ⟨⟨{}, h st List.mem_cons_self, trivial⟩, fun c t ht hc => ?_⟩
    cases c with
    | normal =>
      exact ⟨fun st hst => h st (List.mem_cons_of_mem _ hst), fun _ _ _ _ => trivial⟩
    | returned keyword v => exact absurd ⟨_, (h st List.mem_cons_self).errors⟩ hc.2

/-- Every plan keeps the discipline that the check of placement is for. -/
theorem placement_kept (o : Options) : placement.Kept o := by
  intro a s hs h
  cases a with
  | exec n scope st =>
    cases n with
    | zero => exact Discipline.guards_exhausted
    | succ n =>
      obtain ⟨context, hst, hp⟩ := h
      exact safe_exec hs.2 hst hp
  | execAll n scope ss =>
    cases n with
    | zero => exact Discipline.guards_exhausted
    | succ n =>
      obtain ⟨context, hss, hp⟩ := h
      exact safe_execAll hss hp
  | execLoop n scope c body =>
    cases n with
    | zero => exact Discipline.guards_exhausted
    | succ n =>
      obtain ⟨context, hc, hb, hp⟩ := h
      exact safe_execLoop hc hb hp
  | eval n scope e =>
    cases n with
    | zero => exact Discipline.guards_exhausted
    | succ n =>
      obtain ⟨context, he, hp⟩ := h
      exact safe_eval hs.2 he hp
  | evalOption n scope e =>
    cases n with
    | zero => exact Discipline.guards_exhausted
    | succ n =>
      obtain ⟨context, he, hp⟩ := h
      cases e with
      | none => trivial
      | some e => exact ⟨⟨context, he e rfl, hp⟩, fun _ _ _ _ => trivial⟩
  | evalAll n scope es =>
    cases n with
    | zero => exact Discipline.guards_exhausted
    | succ n =>
      obtain ⟨context, hes, hp⟩ := h
      cases es with
      | nil => trivial
      | cons e es =>
        refine ⟨⟨context, hes e List.mem_cons_self, hp⟩, fun v t ht _ => ?_⟩
        exact ⟨⟨context, fun e he => hes e (List.mem_cons_of_mem _ he), hp.mono ht.1⟩,
          fun _ _ _ _ => trivial⟩
  | call n callee paren args =>
    cases n with
    | zero => exact Discipline.guards_exhausted
    | succ n => exact safe_call hs.2 h
  | apply n callee args =>
    cases n with
    | zero => exact Discipline.guards_exhausted
    | succ n => exact safe_apply hs.2
  | runBody n f args =>
    cases n with
    | zero => exact Discipline.guards_exhausted
    | succ n => exact safe_runBody hs.2 h
  | program n scope ss => exact safe_program h

end Plans

end LoxLang
