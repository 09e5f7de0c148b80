import LoxLang.Proofs.Run.Plan
import LoxLang.Proofs.Store.Alike

/-!
# Runs alike but for tokens

Evaluation looks at the kinds and the texts of tokens. It copies them into the store and into errors,
and their lines into active calls, and has no other use for them. So running trees alike in stores
alike ends in the same way, whatever was printed before, and leaves stores alike.

Main statements: `mirrored`, for all parts of the evaluator, and `program_mirrors`.
-/

namespace LoxLang

open List (Forall₂)

variable {ι : Type} {R : ι → Part → Token → Token → Prop} {i : ι} {before : String}

/-! ### States and outcomes -/

/-- States alike, in the second of which something was printed before. -/
structure RunState.Alike (R : ι → Part → Token → Token → Prop) (before : String)
    (s s' : RunState) : Prop where
  store : s.store.Alike R s'.store
  frames : Forall₂ (Frame.Alike R) s.frames.toList s'.frames.toList
  output : s'.output = before ++ s.output

/-- The same error at tokens alike. -/
structure RuntimeError.Alike (R : ι → Part → Token → Token → Prop) (e e' : RuntimeError) : Prop where
  token : e.token.Alike R e'.token
  fault : e'.fault = e.fault
  trace : Forall₂ (Frame.Alike R) e.trace e'.trace

/-- The same run-time error as a diagnostic, at tokens alike. -/
inductive Diagnostic.Alike (R : ι → Part → Token → Token → Prop) : Diagnostic → Diagnostic → Prop where
  | runtime (token : t.Alike R t') (trace : Forall₂ (Frame.Alike R) fs fs') :
      Diagnostic.Alike R (.runtime t message overflow fs) (.runtime t' message overflow fs')

/-- Ends of statements alike, with the same value if any. -/
inductive Completion.Alike (R : ι → Part → Token → Token → Prop) : Completion → Completion → Prop where
  | normal : Completion.Alike R .normal .normal
  | returned (h : keyword.Alike R keyword') :
      Completion.Alike R (.returned keyword v) (.returned keyword' v)

/-- Ends of computations, with results related in some way and states alike. -/
inductive Outcome.Alike (R : ι → Part → Token → Token → Prop) (before : String) (A : α → α → Prop) :
    Outcome α → Outcome α → Prop where
  | done (result : A r r') (state : s.Alike R before s') :
      Outcome.Alike R before A (.done r s) (.done r' s')
  | failed (error : e.Alike R e') (state : s.Alike R before s') :
      Outcome.Alike R before A (.failed e s) (.failed e' s')
  | exhausted : Outcome.Alike R before A .exhausted .exhausted

/-- From states alike, the second computation ends as the first one does. -/
def Run.Mirrors (R : ι → Part → Token → Token → Prop) (before : String) (A : α → α → Prop)
    (m m' : Run α) : Prop :=
  ∀ s s' : RunState, s.Alike R before s' → (m s).Alike R before A (m' s')

theorem Token.Alike.lexeme (hR : Unseen R) {t t' : Token} (h : t.Alike R t') :
    t'.lexeme = t.lexeme := by
  obtain ⟨i, part, h⟩ := h
  exact hR.lexeme h

theorem Token.Alike.kind (hR : Unseen R) {t t' : Token} (h : t.Alike R t') : t'.kind = t.kind := by
  obtain ⟨i, part, h⟩ := h
  exact hR.kind h

theorem RuntimeError.Alike.diagnostic {e e' : RuntimeError} (h : e.Alike R e') :
    e.diagnostic.Alike R e'.diagnostic := by
  rw [RuntimeError.diagnostic, RuntimeError.diagnostic, h.fault]
  exact .runtime h.token h.trace

theorem Diagnostic.Alike.categories {d d' : Diagnostic} (h : d.Alike R d') :
    d'.categories = d.categories := by
  cases h
  rfl

theorem Completion.Alike.value {c c' : Completion} (h : c.Alike R c') : c'.value = c.value := by
  cases h <;> rfl

namespace Run

variable {A : α → α → Prop} {B : β → β → Prop}

/-! ### Single steps -/

theorem mirrors_pure {r r' : α} (h : A r r') :
    Mirrors R before A (pure r : Run α) (pure r') :=
  fun _ _ hs => .done h hs

theorem Mirrors.bind {m m' : Run β} {f f' : β → Run α} (h : Mirrors R before B m m')
    (hf : ∀ r r', B r r' → Mirrors R before A (f r) (f' r')) :
    Mirrors R before A (m >>= f) (m' >>= f') := by
  intro s s' hs
  have hm := h s s' hs
  rw [run_bind, run_bind]
  cases hms : m s <;> cases hms' : m' s' <;> rw [hms, hms'] at hm <;> cases hm
  · next hr ht => exact hf _ _ hr _ _ ht
  · next he ht => exact .failed he ht
  · exact .exhausted

/-- Going on after a result that is the same. -/
theorem Mirrors.bind_eq {m m' : Run β} {f f' : β → Run α} (h : Mirrors R before Eq m m')
    (hf : ∀ r, Mirrors R before A (f r) (f' r)) : Mirrors R before A (m >>= f) (m' >>= f') := by
  refine h.bind ?_
  rintro r _ rfl
  exact hf r

theorem mirrors_exhausted : Mirrors R before A (exhausted : Run α) exhausted :=
  fun _ _ _ => .exhausted

theorem mirrors_fail {t t' : Token} (h : t.Alike R t') (fault : Fault) :
    Mirrors R before A (fail t fault) (fail t' fault) :=
  fun _ _ hs => .failed ⟨h, rfl, .nil⟩ hs

theorem mirrors_read {f f' : Store → α} (h : ∀ {σ σ'}, σ.Alike R σ' → A (f σ) (f' σ')) :
    Mirrors R before A (read f) (read f') :=
  fun _ _ hs => .done (h hs.store) hs

theorem mirrors_change {f f' : Store → Store} (h : ∀ {σ σ'}, σ.Alike R σ' → (f σ).Alike R (f' σ')) :
    Mirrors R before Eq (change f) (change f') :=
  fun _ _ hs => .done rfl ⟨h hs.store, hs.frames, hs.output⟩

theorem mirrors_make {f f' : Store → α × Store}
    (h : ∀ {σ σ'}, σ.Alike R σ' → A (f σ).1 (f' σ').1 ∧ (f σ).2.Alike R (f' σ').2) :
    Mirrors R before A (make f) (make f') :=
  fun _ _ hs => .done (h hs.store).1 ⟨(h hs.store).2, hs.frames, hs.output⟩

theorem mirrors_print (text : String) : Mirrors R before Eq (print text) (print text) := by
  intro s s' hs
  refine .done rfl ⟨hs.store, hs.frames, ?_⟩
  simp only [hs.output, String.append_assoc]

theorem mirrors_guardDepth (o : Options) {t t' : Token} (h : t.Alike R t') :
    Mirrors R before Eq (guardDepth o t) (guardDepth o t') := by
  intro s s' hs
  simp only [guardDepth, size_eq hs.frames]
  split
  · exact .done rfl hs
  · exact .failed ⟨h, rfl, .nil⟩ hs

theorem traced_alike {e e' : RuntimeError} (h : e.Alike R e') {active active' : List Frame}
    (ha : Forall₂ (Frame.Alike R) active active') : (e.traced active).Alike R (e'.traced active') := by
  obtain ⟨token, fault, trace⟩ := e
  obtain ⟨token', fault', trace'⟩ := e'
  have htrace : Forall₂ (Frame.Alike R) trace trace' := h.trace
  cases htrace with
  | nil => exact ⟨h.token, h.fault, ha⟩
  | cons _ _ => exact h

theorem mirrors_within (o : Options) {f f' : Frame} (hf : f.Alike R f') {m m' : Run α}
    (h : Mirrors R before A m m') : Mirrors R before A (within o f m) (within o f' m') := by
  intro s s' hs
  have hm := h { s with frames := s.frames.push f } { s' with frames := s'.frames.push f' }
    ⟨hs.store, forall₂_push hs.frames hf, hs.output⟩
  rw [within, within]
  generalize m { s with frames := s.frames.push f } = r, m' { s' with frames := s'.frames.push f' } = r'
    at hm
  cases hm with
  | done hr ht => exact .done hr ⟨ht.store, forall₂_pop ht.frames, ht.output⟩
  | failed he ht =>
    refine .failed ?_ ⟨ht.store, forall₂_pop ht.frames, ht.output⟩
    split
    · exact traced_alike he (List.forall₂_reverse_iff.2 ht.frames)
    · exact he
  | exhausted => exact .exhausted

theorem mirrors_fieldOwner (object : Value) {t t' : Token} (h : t.Alike R t') :
    Mirrors R before Eq (fieldOwner object t) (fieldOwner object t') := by
  cases object with
  | instanceRef receiver => exact mirrors_pure rfl
  | _ => exact mirrors_fail h _

theorem mirrors_applyPlus {t t' : Token} (h : t.Alike R t') (l r : Value) :
    Mirrors R before Eq (applyPlus t l r) (applyPlus t' l r) := by
  unfold applyPlus
  split <;> first | exact mirrors_pure rfl | exact mirrors_fail h _

/-! ### Names -/

section Unseen

variable (hR : Unseen R)

include hR

theorem mirrors_lookup (scope : ScopeId) {t t' : Token} (h : t.Alike R t') :
    Mirrors R before Eq (lookup scope t) (lookup scope t') := by
  intro s s' hs
  simp only [lookup, h.lexeme hR, Store.lookup?_congr hs.store.scopes]
  cases s.store.lookup? scope t.lexeme with
  | some v => exact .done rfl hs
  | none => exact .failed ⟨h, rfl, .nil⟩ hs

theorem mirrors_assign (scope : ScopeId) {t t' : Token} (h : t.Alike R t') (v : Value) :
    Mirrors R before Eq (assign scope t v) (assign scope t' v) := by
  intro s s' hs
  simp only [assign, h.lexeme hR, Store.holder?_congr hs.store.scopes]
  cases s.store.holder? scope t.lexeme with
  | some holder => exact .done rfl ⟨hs.store.define _ _ _, hs.frames, hs.output⟩
  | none => exact .failed ⟨h, rfl, .nil⟩ hs

/-! ### Objects -/

theorem mirrors_bindMethod {m m' : Closure} (h : m.Alike R m') (receiver : Ref) :
    Mirrors R before Eq (bindMethod m receiver) (bindMethod m' receiver) := by
  refine mirrors_make fun hσ => ?_
  obtain ⟨hbound, hstore⟩ := hσ.bind h receiver
  obtain ⟨hv, hnew⟩ := hstore.newFunction hR hbound
  exact ⟨hv.symm, hnew⟩

theorem mirrors_property (object : Value) {t t' : Token} (h : t.Alike R t') :
    Mirrors R before Eq (property object t) (property object t') := by
  unfold property
  cases object with
  | instanceRef receiver =>
    simp only [h.lexeme hR]
    refine (mirrors_read (A := Eq) fun hσ => (hσ.field? receiver t.lexeme).symm).bind_eq fun field => ?_
    cases field with
    | some v => exact mirrors_pure rfl
    | none =>
      refine (mirrors_read (fun hσ => hσ.methodOf? receiver t.lexeme)).bind fun m m' hm => ?_
      cases hm with
      | some hm => exact mirrors_bindMethod hR hm receiver
      | none => exact mirrors_fail h _
  | _ => exact mirrors_fail h _

theorem mirrors_superMethod (scope : ScopeId) {keyword keyword' : Token} (h : keyword.Alike R keyword')
    {t t' : Token} (ht : t.Alike R t') :
    Mirrors R before Eq (superMethod scope keyword t) (superMethod scope keyword' t') := by
  rw [superMethod, superMethod]
  refine (mirrors_lookup hR scope h).bind_eq fun superclass => ?_
  cases superclass with
  | classRef superclass =>
    refine (mirrors_lookup hR scope hR.receiver).bind_eq fun receiver => ?_
    cases receiver with
    | instanceRef receiver =>
      simp only [ht.lexeme hR]
      refine (mirrors_read (fun hσ => hσ.method? superclass.id t.lexeme)).bind fun m m' hm => ?_
      cases hm with
      | some hm => exact mirrors_bindMethod hR hm receiver
      | none => exact mirrors_fail ht _
    | _ => exact mirrors_fail h _
  | _ => exact mirrors_fail h _

theorem methodTable_alike (scope : ScopeId) {fs fs' : List FunctionDecl}
    (h : Forall₂ (FunctionDecl.Alike (R i)) fs fs') :
    (methodTable scope fs).Alike R (methodTable scope fs') := by
  refine List.rel_foldl (P := Bindings.Alike R) ?_ .nil h
  intro b b' hb f f' hf
  have hmethod : Closure.Alike R ⟨f, scope, f.name.lexeme == Store.initializerName⟩
      ⟨f', scope, f.name.lexeme == Store.initializerName⟩ := ⟨⟨_, hf⟩, rfl, rfl⟩
  simp only [hf.name hR]
  exact hb.put _ hmethod

theorem mirrors_superclassNamed (scope : ScopeId) {t t' : Token} (h : t.Alike R t') :
    Mirrors R before Eq (superclassNamed scope t) (superclassNamed scope t') := by
  rw [superclassNamed, superclassNamed]
  refine (mirrors_lookup hR scope h).bind_eq fun v => ?_
  cases v with
  | classRef c => exact mirrors_pure rfl
  | _ => exact mirrors_fail h _

/-- The part of declaring a class that comes once its superclass is known. -/
theorem mirrors_newClass (scope : ScopeId) {t t' : Token} (ht : t.Alike R t')
    (parent : Option Nat) {fs fs' : List FunctionDecl}
    (h : Forall₂ (FunctionDecl.Alike (R i)) fs fs') (inner : ScopeId) :
    Mirrors R before Eq
      (do
        let ref ← make (·.newClass
          { name := t.lexeme, superclass := parent, methods := methodTable inner fs })
        change (·.define scope t.lexeme (.classRef ref)))
      (do
        let ref ← make (·.newClass
          { name := t'.lexeme, superclass := parent, methods := methodTable inner fs' })
        change (·.define scope t'.lexeme (.classRef ref))) := by
  rw [ht.lexeme hR]
  refine (mirrors_make (A := Eq) fun hσ => ?_).bind_eq fun ref =>
    mirrors_change fun hσ => hσ.define _ _ _
  have hc : ClassObject.Alike R ⟨t.lexeme, parent, methodTable inner fs⟩
      ⟨t.lexeme, parent, methodTable inner fs'⟩ := ⟨rfl, rfl, methodTable_alike hR inner h⟩
  obtain ⟨href, hnew⟩ := hσ.newClass hc
  exact ⟨href.symm, hnew⟩

theorem mirrors_declareClass (scope : ScopeId) {t t' : Token} (ht : t.Alike R t')
    {p p' : Option Token} (hp : Option.Rel (R i .name) p p') {fs fs' : List FunctionDecl}
    (h : Forall₂ (FunctionDecl.Alike (R i)) fs fs') :
    Mirrors R before Eq (declareClass scope t p fs) (declareClass scope t' p' fs') := by
  have hname : Mirrors R before Eq (change (·.define scope t.lexeme .nil))
      (change (·.define scope t'.lexeme .nil)) := by
    rw [ht.lexeme hR]
    exact mirrors_change fun hσ => hσ.define _ _ _
  cases hp with
  | none =>
    rw [declareClass_none, declareClass_none]
    exact hname.bind_eq fun _ => mirrors_newClass hR scope ht none h scope
  | some hp =>
    rw [declareClass_some, declareClass_some]
    refine (mirrors_superclassNamed hR scope ⟨_, _, hp⟩).bind_eq fun c => hname.bind_eq fun _ => ?_
    refine (mirrors_make (A := Eq) fun hσ => ?_).bind_eq fun inner =>
      mirrors_newClass hR scope ht _ h inner
    obtain ⟨hinner, hstore⟩ := hσ.newScope (some scope)
    refine ⟨hinner.symm, ?_⟩
    simp only [hinner]
    exact hstore.define _ _ _

theorem defineAll_alike (scope : ScopeId) {ps ps' : List Token}
    (h : Forall₂ (R i .name) ps ps') (args : List Value) {σ σ' : Store} (hσ : σ.Alike R σ') :
    ((ps.zip args).foldl (fun σ (p, v) => σ.define scope p.lexeme v) σ).Alike R
      ((ps'.zip args).foldl (fun σ (p, v) => σ.define scope p.lexeme v) σ') := by
  induction h generalizing args σ σ' with
  | nil => exact hσ
  | @cons p p' _ _ hp _ ih =>
    cases args with
    | nil => exact hσ
    | cons v args =>
      have hlexeme : p'.lexeme = p.lexeme := hR.lexeme hp
      simp only [List.zip_cons_cons, List.foldl_cons, hlexeme]
      exact ih args (hσ.define _ _ _)

theorem mirrors_enter {f f' : Closure} (h : f.Alike R f') (args : List Value) :
    Mirrors R before Eq (enter f args) (enter f' args) := by
  refine mirrors_make fun hσ => ?_
  obtain ⟨hscope, hstore⟩ := hσ.newScope (some f.scope)
  obtain ⟨⟨t, ps, ss⟩, scope, init⟩ := f
  obtain ⟨⟨t', ps', ss'⟩, scope', init'⟩ := f'
  obtain ⟨⟨i, ⟨-, hparams, -⟩⟩, rfl, -⟩ := h
  refine ⟨hscope.symm, ?_⟩
  dsimp only at hscope hstore ⊢
  rw [hscope]
  exact defineAll_alike hR _ hparams args hstore

theorem mirrors_leave {f f' : Closure} (h : f.Alike R f') {c c' : Completion} (hc : c.Alike R c') :
    Mirrors R before Eq (leave f c) (leave f' c') := by
  rw [leave, leave]
  rw [h.isInitializer, h.scope]
  split
  · refine (mirrors_lookup hR f.scope hR.receiver).bind_eq fun receiver => ?_
    cases hc with
    | normal => exact mirrors_pure rfl
    | @returned keyword keyword' v hk =>
      dsimp only
      split
      · exact mirrors_pure rfl
      · exact mirrors_fail hk _
  · rw [hc.value]
    exact mirrors_pure rfl

/-! ### Operators -/

theorem mirrors_applyUnary {t t' : Token} (h : t.Alike R t') (v : Value) :
    Mirrors R before Eq (applyUnary t v) (applyUnary t' v) := by
  unfold applyUnary
  rw [h.kind hR, h.lexeme hR]
  split <;> first | exact mirrors_pure rfl | exact mirrors_fail h _

theorem mirrors_applyNumeric {t t' : Token} (h : t.Alike R t') (x y : Float) :
    Mirrors R before Eq (applyNumeric t x y) (applyNumeric t' x y) := by
  rw [applyNumeric, applyNumeric]
  rw [h.kind hR, h.lexeme hR]
  split <;> first | exact mirrors_pure rfl | exact mirrors_fail h _

theorem mirrors_applyBinary {t t' : Token} (h : t.Alike R t') (l r : Value) :
    Mirrors R before Eq (applyBinary t l r) (applyBinary t' l r) := by
  unfold applyBinary
  rw [h.kind hR, h.lexeme hR]
  split
  · exact mirrors_pure rfl
  · exact mirrors_pure rfl
  · exact mirrors_applyPlus h l r
  · split
    · exact mirrors_applyNumeric hR h _ _
    · exact mirrors_fail h _

theorem decides_alike {t t' : Token} (h : t.Alike R t') (v : Value) : decides t' v = decides t v := by
  rw [decides, decides, h.kind hR]

end Unseen

/-! ### The evaluator -/

/-- With an allowance of `n`, every part of the evaluator ends in the same way on what is alike. -/
structure Mirrored (o : Options) (R : ι → Part → Token → Token → Prop) (before : String)
    (n : Nat) : Prop where
  exec : ∀ {i scope s s'}, s.Alike (R i) s' →
    Mirrors R before (Completion.Alike R) (exec o n scope s) (exec o n scope s')
  execAll : ∀ {i scope ss ss'}, Forall₂ (Stmt.Alike (R i)) ss ss' →
    Mirrors R before (Completion.Alike R) (execAll o n scope ss) (execAll o n scope ss')
  execLoop : ∀ {i scope c c' s s'}, c.Alike (R i) c' →
    s.Alike (R i) s' →
    Mirrors R before (Completion.Alike R) (execLoop o n scope c s) (execLoop o n scope c' s')
  eval : ∀ {i scope e e'}, e.Alike (R i) e' →
    Mirrors R before Eq (eval o n scope e) (eval o n scope e')
  evalOption : ∀ {i scope e e'}, Option.Rel (Expr.Alike (R i)) e e' →
    Mirrors R before Eq (evalOption o n scope e) (evalOption o n scope e')
  evalAll : ∀ {i scope es es'}, Forall₂ (Expr.Alike (R i)) es es' →
    Mirrors R before Eq (evalAll o n scope es) (evalAll o n scope es')
  call : ∀ {callee t t' args}, t.Alike R t' →
    Mirrors R before Eq (call o n callee t args) (call o n callee t' args)
  apply : ∀ {callee args}, Mirrors R before Eq (apply o n callee args) (apply o n callee args)
  runBody : ∀ {f f' args}, f.Alike R f' →
    Mirrors R before Eq (runBody o n f args) (runBody o n f' args)

section Step

variable {o : Options} {n : Nat} {scope : ScopeId} (ih : Mirrored o R before n)

include ih

theorem exec_mirrors (hR : Unseen R) {s s' : Stmt} (h : s.Alike (R i) s') :
    Mirrors R before (Completion.Alike R) (exec o (n + 1) scope s) (exec o (n + 1) scope s') := by
  cases h with
  | expression value =>
    simp only [Run.exec]
    exact (ih.eval value).bind_eq fun _ => mirrors_pure .normal
  | print value =>
    simp only [Run.exec]
    exact (ih.eval value).bind_eq fun v =>
      (mirrors_print v.display).bind_eq fun _ => mirrors_pure .normal
  | var ht initial =>
    simp only [Run.exec, hR.lexeme ht]
    exact (ih.evalOption initial).bind_eq fun v =>
      (mirrors_change fun hσ => hσ.define _ _ _).bind_eq fun _ => mirrors_pure .normal
  | block body =>
    simp only [Run.exec]
    refine (mirrors_make (A := Eq) fun hσ => ?_).bind_eq fun inner => ih.execAll body
    obtain ⟨hinner, hstore⟩ := hσ.newScope (some scope)
    exact ⟨hinner.symm, hstore⟩
  | ifThen condition yes =>
    simp only [Run.exec]
    refine (ih.eval condition).bind_eq fun c => ?_
    split
    · exact ih.exec yes
    · exact mirrors_pure .normal
  | ifElse condition yes no =>
    simp only [Run.exec]
    refine (ih.eval condition).bind_eq fun c => ?_
    split
    · exact ih.exec yes
    · exact ih.exec no
  | loop condition body =>
    simp only [Run.exec]
    exact ih.execLoop condition body
  | @function f f' declaration =>
    simp only [Run.exec, declaration.name hR]
    refine (mirrors_make (A := Eq) fun hσ => ?_).bind_eq fun v =>
      (mirrors_change fun hσ => hσ.define _ _ _).bind_eq fun _ => mirrors_pure .normal
    have hf : Closure.Alike R ⟨f, scope, false⟩ ⟨f', scope, false⟩ := ⟨⟨_, declaration⟩, rfl, rfl⟩
    obtain ⟨hv, hnew⟩ := hσ.newFunction hR hf
    exact ⟨hv.symm, hnew⟩
  | ret ht value =>
    simp only [Run.exec]
    exact (ih.evalOption value).bind_eq fun v => mirrors_pure (.returned ⟨_, _, ht⟩)
  | classDecl ht superclass methods =>
    simp only [Run.exec]
    exact (mirrors_declareClass hR scope ⟨_, _, ht⟩ superclass methods).bind_eq fun _ =>
      mirrors_pure .normal

theorem execAll_mirrors {ss ss' : List Stmt}
    (h : Forall₂ (Stmt.Alike (R i)) ss ss') :
    Mirrors R before (Completion.Alike R) (execAll o (n + 1) scope ss)
      (execAll o (n + 1) scope ss') := by
  cases h with
  | nil =>
    simp only [Run.execAll]
    exact mirrors_pure .normal
  | cons first rest =>
    simp only [Run.execAll]
    refine (ih.exec first).bind fun c c' hc => ?_
    cases hc with
    | normal => exact ih.execAll rest
    | returned hk => exact mirrors_pure (.returned hk)

theorem execLoop_mirrors {c c' : Expr} (hc : c.Alike (R i) c') {s s' : Stmt}
    (hs : s.Alike (R i) s') :
    Mirrors R before (Completion.Alike R) (execLoop o (n + 1) scope c s)
      (execLoop o (n + 1) scope c' s') := by
  simp only [Run.execLoop]
  refine (ih.eval hc).bind_eq fun v => ?_
  split
  · refine (ih.exec hs).bind fun r r' hr => ?_
    cases hr with
    | normal => exact ih.execLoop hc hs
    | returned hk => exact mirrors_pure (.returned hk)
  · exact mirrors_pure .normal

theorem eval_mirrors (hR : Unseen R) {e e' : Expr} (h : e.Alike (R i) e') :
    Mirrors R before Eq (eval o (n + 1) scope e) (eval o (n + 1) scope e') := by
  cases h with
  | literal =>
    simp only [Run.eval]
    exact mirrors_pure rfl
  | grouping inner =>
    simp only [Run.eval]
    exact ih.eval inner
  | name ht =>
    simp only [Run.eval]
    exact mirrors_lookup hR scope ⟨_, _, ht⟩
  | assign ht value =>
    simp only [Run.eval]
    exact (ih.eval value).bind_eq fun v =>
      (mirrors_assign hR scope ⟨_, _, ht⟩ v).bind_eq fun _ => mirrors_pure rfl
  | unary ht operand =>
    simp only [Run.eval]
    exact (ih.eval operand).bind_eq fun v => mirrors_applyUnary hR ⟨_, _, ht⟩ v
  | binary left ht right =>
    simp only [Run.eval]
    exact (ih.eval left).bind_eq fun a => (ih.eval right).bind_eq fun b =>
      mirrors_applyBinary hR ⟨_, _, ht⟩ a b
  | logical left ht right =>
    simp only [Run.eval, decides_alike hR ⟨_, _, ht⟩]
    refine (ih.eval left).bind_eq fun a => ?_
    split
    · exact mirrors_pure rfl
    · exact ih.eval right
  | call callee ht args =>
    simp only [Run.eval]
    exact (ih.eval callee).bind_eq fun f => (ih.evalAll args).bind_eq fun vs =>
      ih.call ⟨_, _, ht⟩
  | get object ht =>
    simp only [Run.eval]
    exact (ih.eval object).bind_eq fun v => mirrors_property hR v ⟨_, _, ht⟩
  | set object ht value =>
    simp only [Run.eval, hR.lexeme ht]
    exact (ih.eval object).bind_eq fun v =>
      (mirrors_fieldOwner v ⟨_, _, ht⟩).bind_eq fun owner => (ih.eval value).bind_eq fun w =>
        (mirrors_change fun hσ => hσ.setField _ _ _).bind_eq fun _ => mirrors_pure rfl
  | this ht =>
    simp only [Run.eval]
    exact mirrors_lookup hR scope ⟨_, _, ht⟩
  | super ht method =>
    simp only [Run.eval]
    exact mirrors_superMethod hR scope ⟨_, _, ht⟩ ⟨_, _, method⟩

theorem evalOption_mirrors {e e' : Option Expr}
    (h : Option.Rel (Expr.Alike (R i)) e e') :
    Mirrors R before Eq (evalOption o (n + 1) scope e) (evalOption o (n + 1) scope e') := by
  cases h with
  | none =>
    simp only [Run.evalOption]
    exact mirrors_pure rfl
  | some h =>
    simp only [Run.evalOption]
    exact ih.eval h

theorem evalAll_mirrors {es es' : List Expr}
    (h : Forall₂ (Expr.Alike (R i)) es es') :
    Mirrors R before Eq (evalAll o (n + 1) scope es) (evalAll o (n + 1) scope es') := by
  cases h with
  | nil =>
    simp only [Run.evalAll]
    exact mirrors_pure rfl
  | cons first rest =>
    simp only [Run.evalAll]
    exact (ih.eval first).bind_eq fun v => (ih.evalAll rest).bind_eq fun vs => mirrors_pure rfl

theorem call_mirrors {t t' : Token} (h : t.Alike R t') (callee : Value) (args : List Value) :
    Mirrors R before Eq (call o (n + 1) callee t args) (call o (n + 1) callee t' args) := by
  simp only [Run.call]
  refine (mirrors_read (A := Eq) fun hσ => (hσ.arity? callee).symm).bind_eq fun arity => ?_
  cases arity with
  | none => exact mirrors_fail h _
  | some arity =>
    dsimp only
    split
    · have hframe : Frame.Alike R ⟨callee.display, t.line⟩ ⟨callee.display, t'.line⟩ := by
        exact ⟨rfl, t, t', h, rfl, rfl⟩
      exact (mirrors_guardDepth o h).bind_eq fun _ => mirrors_within o hframe ih.apply
    · exact mirrors_fail h _

theorem apply_mirrors (callee : Value) (args : List Value) :
    Mirrors R before Eq (apply o (n + 1) callee args) (apply o (n + 1) callee args) := by
  cases callee with
  | functionRef ref =>
    simp only [Run.apply]
    refine (mirrors_read fun hσ => hσ.function? ref.id).bind fun f f' hf => ?_
    cases hf with
    | some hf => exact ih.runBody hf
    | none => exact mirrors_pure rfl
  | classRef ref =>
    simp only [Run.apply]
    refine (mirrors_make (A := Eq) fun hσ => ?_).bind_eq fun receiver => ?_
    · obtain ⟨hreceiver, hstore⟩ := hσ.newInstance ref
      exact ⟨hreceiver.symm, hstore⟩
    refine (mirrors_read fun hσ => hσ.method? ref.id Store.initializerName).bind fun m m' hm => ?_
    cases hm with
    | some hm =>
      refine (mirrors_make fun hσ => hσ.bind hm receiver).bind fun f f' hf => ?_
      exact (ih.runBody hf).bind_eq fun _ => mirrors_pure rfl
    | none => exact mirrors_pure rfl
  | _ =>
    simp only [Run.apply]
    exact mirrors_pure rfl

theorem runBody_mirrors (hR : Unseen R) {f f' : Closure} (h : f.Alike R f') (args : List Value) :
    Mirrors R before Eq (runBody o (n + 1) f args) (runBody o (n + 1) f' args) := by
  simp only [Run.runBody]
  refine (mirrors_enter hR h args).bind_eq fun scope => ?_
  obtain ⟨i, hdecl⟩ := h.declaration
  exact (ih.execAll hdecl.body).bind fun c c' hc => mirrors_leave hR h hc

end Step

/-- Evaluation does not depend on anything else of a token than its kind and its text. -/
theorem mirrored (hR : Unseen R) (o : Options) (before : String) (n : Nat) : Mirrored o R before n := by
  induction n with
  | zero =>
    constructor <;> intros <;>
      simp only [Run.exec, Run.execAll, Run.execLoop, Run.eval, Run.evalOption, Run.evalAll, Run.call,
        Run.apply, Run.runBody] <;>
      exact mirrors_exhausted
  | succ n ih =>
    exact
      { exec := fun h => exec_mirrors ih hR h
        execAll := fun h => execAll_mirrors ih h
        execLoop := fun hc h => execLoop_mirrors ih hc h
        eval := fun h => eval_mirrors ih hR h
        evalOption := fun h => evalOption_mirrors ih h
        evalAll := fun h => evalAll_mirrors ih h
        call := fun h => call_mirrors ih h _ _
        apply := apply_mirrors ih _ _
        runBody := fun h => runBody_mirrors ih hR h _ }

/-- Programs alike end in the same way. -/
theorem program_mirrors (hR : Unseen R) (o : Options) (n : Nat) (scope : ScopeId)
    {ss ss' : List Stmt} (h : Forall₂ (Stmt.Alike (R i)) ss ss') :
    Mirrors R before Eq (program o n scope ss) (program o n scope ss') := by
  induction h with
  | nil => exact mirrors_pure rfl
  | cons first _ ih =>
    simp only [program]
    refine ((mirrored hR o before n).exec first).bind fun c c' hc => ?_
    cases hc with
    | normal => exact ih
    | returned hk => exact mirrors_fail hk _

end Run

end LoxLang
