import LoxLang.Proofs.Hygiene
import LoxLang.Proofs.Run.Deepen
import LoxLang.Proofs.Store.Spread

/-!
# Runs do not notice blank scopes

Running the same activity in two stores of which the second has blank scopes besides prints the same, ends in
the same way and leaves two stores of this kind. Scopes that an activity makes get their place in a
longer layout, so what is claimed holds in every layout that goes on where a given one ends.

The two runs may have different allowances. Then one of them may give up where the other does not, and flags
say which.

Main statements: `spreading`, for every part of the evaluator with the same allowance on both sides, and
`spreads_any`, for different ones.
-/

namespace LoxLang

open List (Forall₂)

/-- States that differ in blank scopes at most. -/
structure RunState.Spread (w : Layout) (s s' : RunState) : Prop where
  store : s.store.Spread w s'.store
  frames : s'.frames = s.frames
  output : s'.output = s.output

/-- Ends of two computations, the same but for blank scopes in a layout that goes on where `w` ends, with
results related in that layout. The first may give up before the second if `p`, the second before the
first if `q`. -/
inductive Outcome.Spread (p q : Prop) (w : Layout) (A : Layout → α → α → Prop) :
    Outcome α → Outcome α → Prop where
  | done (hu : w <+: u) (result : A u a a') (state : s.Spread u s') :
      Outcome.Spread p q w A (.done a s) (.done a' s')
  | failed (hu : w <+: u) (state : s.Spread u s') : Outcome.Spread p q w A (.failed e s) (.failed e s')
  | exhausted : Outcome.Spread p q w A .exhausted .exhausted
  | first (hp : p) : Outcome.Spread p q w A .exhausted r'
  | second (hq : q) : Outcome.Spread p q w A r .exhausted

/-- From states that differ in blank scopes at most, two computations end in the same way. -/
def Run.Spreads (p q : Prop) (w : Layout) (A : Layout → α → α → Prop) (m m' : Run α) : Prop :=
  ∀ u, w <+: u → ∀ s s', s.Spread u s' → (m s).Spread p q u A (m' s')

/-- The same result, whatever the layout. -/
def Layout.Same (_ : Layout) (a a' : α) : Prop := a' = a

/-- A statement may be executed in a scope and in one that sees the same: in its twin, or anywhere if it
declares nothing in its scope. -/
def Layout.Hosts (w : Layout) (st : Stmt) (i j : ScopeId) : Prop :=
  w.Twin i j ∨ w.Sees i j ∧ st.declarations = []

variable {p q : Prop} {w u : Layout} {i j : ScopeId} {A : Layout → α → α → Prop} {B : Layout → β → β → Prop}

theorem Layout.Hosts.sees {st : Stmt} (h : w.Hosts st i j) : w.Sees i j := h.elim .inl (·.1)

theorem Layout.Hosts.twin {st : Stmt} (h : w.Hosts st i j) (hd : st.declarations ≠ []) : w.Twin i j :=
  h.resolve_right fun h => hd h.2

theorem Layout.Hosts.mono {st : Stmt} (h : w.Hosts st i j) (hu : w <+: u) : u.Hosts st i j :=
  h.imp (·.mono hu) fun h => ⟨h.1.mono hu, h.2⟩

theorem Layout.Hosts.part {st part : Stmt} (h : w.Hosts st i j)
    (hd : st.declarations = [] → part.declarations = []) : w.Hosts part i j :=
  h.imp_right fun h => ⟨h.1, hd h.2⟩

theorem Outcome.Spread.of_longer {r r' : Outcome α} (h : r.Spread p q u A r') (hu : w <+: u) :
    r.Spread p q w A r' := by
  cases h with
  | done hv result state => exact .done (hu.trans hv) result state
  | failed hv state => exact .failed (hu.trans hv) state
  | exhausted => exact .exhausted
  | first hp => exact .first hp
  | second hq => exact .second hq

section Strict

variable {r r' : Outcome α}

theorem Outcome.Spread.weaken (h : r.Spread False False w A r') : r.Spread p q w A r' := by
  cases h with
  | done hu result state => exact .done hu result state
  | failed hu state => exact .failed hu state
  | exhausted => exact .exhausted
  | first hp => exact hp.elim
  | second hq => exact hq.elim

theorem Outcome.Spread.eq_exhausted_of_first (h : Outcome.Spread False False w A .exhausted r') :
    r' = .exhausted := by
  cases h with
  | first hp => exact hp.elim
  | _ => rfl

theorem Outcome.Spread.eq_exhausted_of_second (h : r.Spread False False w A .exhausted) :
    r = .exhausted := by
  cases h with
  | second hq => exact hq.elim
  | _ => rfl

end Strict

namespace Run

/-! ### Single steps -/

theorem Spreads.bind {m m' : Run β} {f f' : β → Run α} (h : Spreads p q w B m m')
    (hf : ∀ u, w <+: u → ∀ b b', B u b b' → Spreads p q u A (f b) (f' b')) :
    Spreads p q w A (m >>= f) (m' >>= f') := by
  intro u hu s s' hs
  have hm := h u hu s s' hs
  rw [run_bind, run_bind]
  generalize m s = r, m' s' = r' at hm
  cases hm with
  | @done v b b' t t' hv hb ht =>
    have hlater := hf v (hu.trans hv) b b' hb v (List.prefix_refl v) t t' ht
    exact hlater.of_longer hv
  | failed hv ht => exact .failed hv ht
  | exhausted => exact .exhausted
  | first hp => exact .first hp
  | second hq => exact .second hq

/-- Going on after a result that is the same. -/
theorem Spreads.bind_same {m m' : Run β} {f f' : β → Run α} (h : Spreads p q w Layout.Same m m')
    (hf : ∀ u, w <+: u → ∀ b, Spreads p q u A (f b) (f' b)) : Spreads p q w A (m >>= f) (m' >>= f') := by
  refine h.bind ?_
  rintro u hu _ b rfl
  exact hf u hu b

theorem spreads_pure (a : α) : Spreads p q w Layout.Same (pure a) (pure a) :=
  fun u _ _ _ hs => .done (List.prefix_refl u) rfl hs

theorem spreads_fail (token : Token) (fault : Fault) :
    Spreads p q w A (fail token fault) (fail token fault) :=
  fun u _ _ _ hs => .failed (List.prefix_refl u) hs

theorem spreads_exhausted : Spreads p q w A (exhausted : Run α) exhausted := fun _ _ _ _ _ => .exhausted

theorem spreads_read {f f' : Store → α} (h : ∀ {u σ τ}, σ.Spread u τ → A u (f σ) (f' τ)) :
    Spreads p q w A (read f) (read f') :=
  fun u _ _ _ hs => .done (List.prefix_refl u) (h hs.store) hs

theorem spreads_change {f f' : Store → Store}
    (h : ∀ {u σ τ}, w <+: u → σ.Spread u τ → (f σ).Spread u (f' τ)) :
    Spreads p q w Layout.Same (change f) (change f') :=
  fun u hu _ _ hs => .done (List.prefix_refl u) rfl ⟨h hu hs.store, hs.frames, hs.output⟩

theorem spreads_make {f f' : Store → α × Store}
    (h : ∀ {u σ τ}, w <+: u → σ.Spread u τ →
      ∃ v, u <+: v ∧ A v (f σ).1 (f' τ).1 ∧ (f σ).2.Spread v (f' τ).2) :
    Spreads p q w A (make f) (make f') := by
  intro u hu s s' hs
  obtain ⟨v, hv, hresult, hstore⟩ := h hu hs.store
  exact .done hv hresult ⟨hstore, hs.frames, hs.output⟩

/-- Making something that is the same in both stores. -/
theorem spreads_make_same {f f' : Store → α × Store}
    (h : ∀ {u σ τ}, w <+: u → σ.Spread u τ → (f' τ).1 = (f σ).1 ∧ (f σ).2.Spread u (f' τ).2) :
    Spreads p q w Layout.Same (make f) (make f') :=
  spreads_make fun {u _ _} hu hσ => ⟨u, List.prefix_refl u, (h hu hσ).1, (h hu hσ).2⟩

theorem spreads_define (ht : w.Twin i j) (name : String) (v : Value) :
    Spreads p q w Layout.Same (change (·.define i name v)) (change (·.define j name v)) :=
  spreads_change fun hu hσ => hσ.define (ht.mono hu) name v

theorem spreads_newScope (hs : w.Sees i j) :
    Spreads p q w Layout.Twin (make (·.newScope (some i))) (make (·.newScope (some j))) := by
  refine spreads_make fun {u σ τ} hu hσ => ?_
  exact ⟨_, Layout.isPrefix_append u _, hσ.twin_new, hσ.newScope (hs.mono hu)⟩

theorem spreads_print (text : String) : Spreads p q w Layout.Same (print text) (print text) :=
  fun u _ _ _ hs => .done (List.prefix_refl u) rfl ⟨hs.store, hs.frames, by simp only [hs.output]⟩

theorem spreads_guardDepth (o : Options) (paren : Token) :
    Spreads p q w Layout.Same (guardDepth o paren) (guardDepth o paren) := by
  intro u _ s s' hs
  rw [guardDepth, guardDepth]
  rw [hs.frames]
  split
  · exact .done (List.prefix_refl u) rfl hs
  · exact .failed (List.prefix_refl u) hs

theorem Spreads.within {m m' : Run α} (o : Options) (frame : Frame) (h : Spreads p q w A m m') :
    Spreads p q w A (within o frame m) (within o frame m') := by
  intro u hu s s' hs
  have hm := h u hu { s with frames := s.frames.push frame } { s' with frames := s'.frames.push frame }
    ⟨hs.store, by rw [hs.frames], hs.output⟩
  rw [Run.within, Run.within]
  generalize m { s with frames := s.frames.push frame } = r,
    m' { s' with frames := s'.frames.push frame } = r' at hm
  cases hm with
  | done hv result ht => exact .done hv result ⟨ht.store, by rw [ht.frames], ht.output⟩
  | failed hv ht =>
    dsimp only
    rw [ht.frames]
    exact .failed hv ⟨ht.store, rfl, ht.output⟩
  | exhausted => exact .exhausted
  | first hp => exact .first hp
  | second hq => exact .second hq

/-! ### Names and objects -/

theorem spreads_lookup (hs : w.Sees i j) (name : Token) :
    Spreads p q w Layout.Same (lookup i name) (lookup j name) := by
  intro u hu s s' h
  simp only [lookup, h.store.lookup? (hs.mono hu)]
  cases s.store.lookup? i name.lexeme with
  | some v => exact .done (List.prefix_refl u) rfl h
  | none => exact .failed (List.prefix_refl u) h

theorem spreads_assign (hs : w.Sees i j) (name : Token) (v : Value) :
    Spreads p q w Layout.Same (assign i name v) (assign j name v) := by
  intro u hu s s' h
  have hholder := h.store.holder? (hs.mono hu) name.lexeme
  rw [assign, assign]
  generalize s.store.holder? i name.lexeme = k, s'.store.holder? j name.lexeme = k' at hholder
  cases hholder with
  | some ht => exact .done (List.prefix_refl u) rfl ⟨h.store.define ht _ _, h.frames, h.output⟩
  | none => exact .failed (List.prefix_refl u) h

theorem spreads_bindMethod {m m' : Closure} (hm : m.Spread w m') (r : Ref) :
    Spreads p q w Layout.Same (bindMethod m r) (bindMethod m' r) := by
  refine spreads_make fun {u σ τ} hu hσ => ?_
  obtain ⟨hbound, hstore⟩ := hσ.bind (hm.mono hu) r
  obtain ⟨hv, hnew⟩ := hstore.newFunction hbound
  exact ⟨_, Layout.isPrefix_append u _, hv, hnew⟩

theorem spreads_fieldOwner (object : Value) (name : Token) :
    Spreads p q w Layout.Same (fieldOwner object name) (fieldOwner object name) := by
  unfold fieldOwner
  split
  · exact spreads_pure _
  · exact spreads_fail _ _

theorem spreads_property (object : Value) (name : Token) :
    Spreads p q w Layout.Same (property object name) (property object name) := by
  unfold property
  split
  · next receiver =>
    refine (spreads_read fun hσ => hσ.field? receiver name.lexeme).bind_same fun u _ field => ?_
    cases field with
    | some v => exact spreads_pure v
    | none =>
      refine (spreads_read fun hσ => hσ.methodOf? receiver name.lexeme).bind fun u _ m m' hm => ?_
      cases hm with
      | some hm => exact spreads_bindMethod hm receiver
      | none => exact spreads_fail _ _
  · exact spreads_fail _ _

theorem spreads_superMethod (hs : w.Sees i j) (keyword method : Token) :
    Spreads p q w Layout.Same (superMethod i keyword method) (superMethod j keyword method) := by
  rw [superMethod, superMethod]
  refine (spreads_lookup hs keyword).bind_same fun u hu superclass => ?_
  split
  · next superclass =>
    refine (spreads_lookup (hs.mono hu) Token.receiver).bind_same fun v hv receiver => ?_
    split
    · next receiver =>
      refine (spreads_read fun hσ => hσ.method? superclass.id method.lexeme).bind fun _ _ m m' hm => ?_
      cases hm with
      | some hm => exact spreads_bindMethod hm receiver
      | none => exact spreads_fail _ _
    · exact spreads_fail _ _
  · exact spreads_fail _ _

theorem spreads_superclassNamed (hs : w.Sees i j) (name : Token) :
    Spreads p q w Layout.Same (superclassNamed i name) (superclassNamed j name) := by
  refine (spreads_lookup hs name).bind_same fun u _ v => ?_
  split
  · exact spreads_pure _
  · exact spreads_fail _ _

theorem methodTable_spread (hs : w.Sees i j) (methods : List FunctionDecl) (name : String) :
    Option.Rel (Closure.Spread w) ((methodTable i methods).get? name)
      ((methodTable j methods).get? name) := by
  suffices ∀ b b' : Bindings Closure, (∀ name, Option.Rel (Closure.Spread w) (b.get? name) (b'.get? name)) →
      ∀ name, Option.Rel (Closure.Spread w)
        ((methods.foldl (fun table m => table.put m.name.lexeme
          { declaration := m, scope := i, isInitializer := m.name.lexeme == Store.initializerName })
          b).get? name)
        ((methods.foldl (fun table m => table.put m.name.lexeme
          { declaration := m, scope := j, isInitializer := m.name.lexeme == Store.initializerName })
          b').get? name) from
    this {} {} (fun _ => .none) name
  induction methods with
  | nil => exact fun b b' hb => hb
  | cons f fs ih =>
    intro b b' hb
    refine ih _ _ fun name => ?_
    by_cases hn : name = f.name.lexeme
    · subst hn
      rw [Bindings.get?_put_self, Bindings.get?_put_self]
      exact .some ⟨rfl, hs, rfl⟩
    · rw [Bindings.get?_put_of_ne _ hn, Bindings.get?_put_of_ne _ hn]
      exact hb name

/-- The part of declaring a class that comes once its superclass is known. -/
theorem spreads_newClass (ht : w.Twin i j) {k k' : ScopeId} (hs : w.Sees k k') (name : Token)
    (parent : Option Nat) (methods : List FunctionDecl) :
    Spreads p q w Layout.Same
      (do
        let ref ← make (·.newClass
          { name := name.lexeme, superclass := parent, methods := methodTable k methods })
        change (·.define i name.lexeme (.classRef ref)))
      (do
        let ref ← make (·.newClass
          { name := name.lexeme, superclass := parent, methods := methodTable k' methods })
        change (·.define j name.lexeme (.classRef ref))) := by
  have hnew : Spreads p q w Layout.Same
      (make (·.newClass { name := name.lexeme, superclass := parent, methods := methodTable k methods }))
      (make (·.newClass { name := name.lexeme, superclass := parent, methods := methodTable k' methods })) :=
    spreads_make_same fun hu hσ =>
      hσ.newClass ⟨rfl, rfl, methodTable_spread (hs.mono hu) methods⟩
  exact hnew.bind_same fun u hu ref => spreads_define (ht.mono hu) _ _

theorem spreads_declareClass (ht : w.Twin i j) (name : Token) (superclass : Option Token)
    (methods : List FunctionDecl) :
    Spreads p q w Layout.Same (declareClass i name superclass methods)
      (declareClass j name superclass methods) := by
  cases superclass with
  | none =>
    rw [declareClass_none, declareClass_none]
    exact (spreads_define ht _ _).bind_same fun u hu _ =>
      spreads_newClass (ht.mono hu) (ht.mono hu).sees name none methods
  | some superName =>
    rw [declareClass_some, declareClass_some]
    refine (spreads_superclassNamed ht.sees superName).bind_same fun u hu c => ?_
    refine (spreads_define (ht.mono hu) _ _).bind_same fun v hv _ => ?_
    have ht' := (ht.mono hu).mono hv
    refine Spreads.bind (B := Layout.Twin) (spreads_make fun {u σ τ} hu hσ => ?_) ?_
    · have hstore := (hσ.newScope (ht'.mono hu).sees).define hσ.twin_new Token.superName (.classRef c)
      exact ⟨_, Layout.isPrefix_append u _, hσ.twin_new, hstore⟩
    · intro u hu k k' hk
      exact spreads_newClass (ht'.mono hu) hk.sees name _ methods

theorem spreads_enter {f f' : Closure} (hf : f.Spread w f') (args : List Value) :
    Spreads p q w Layout.Twin (enter f args) (enter f' args) := by
  refine spreads_make fun {u σ τ} hu hσ => ?_
  rw [hf.declaration]
  have hstore := (hσ.newScope (hf.scope.mono hu)).defineAll hσ.twin_new (f.declaration.params.zip args)
  exact ⟨_, Layout.isPrefix_append u _, hσ.twin_new, hstore⟩

theorem spreads_leave {f f' : Closure} (hf : f.Spread w f') (c : Completion) :
    Spreads p q w Layout.Same (leave f c) (leave f' c) := by
  rw [leave, leave]
  rw [hf.isInitializer]
  split
  · refine (spreads_lookup hf.scope Token.receiver).bind_same fun u _ receiver => ?_
    split
    · split
      · exact spreads_pure _
      · exact spreads_fail _ _
    · exact spreads_pure _
  · exact spreads_pure _

/-! ### Operators -/

theorem spreads_applyUnary (op : Token) (v : Value) :
    Spreads p q w Layout.Same (applyUnary op v) (applyUnary op v) := by
  unfold applyUnary
  split <;> first | exact spreads_pure _ | exact spreads_fail _ _

theorem spreads_applyBinary (op : Token) (l r : Value) :
    Spreads p q w Layout.Same (applyBinary op l r) (applyBinary op l r) := by
  unfold applyBinary
  split
  · exact spreads_pure _
  · exact spreads_pure _
  · unfold applyPlus
    split <;> first | exact spreads_pure _ | exact spreads_fail _ _
  · split
    · unfold applyNumeric
      split <;> first | exact spreads_pure _ | exact spreads_fail _ _
    · exact spreads_fail _ _

/-! ### The evaluator -/

/-- With an allowance of `n`, every part of the evaluator does the same in scopes from which the same can be
seen. -/
structure Spreading (p q : Prop) (o : Options) (n : Nat) : Prop where
  exec : ∀ {w i j st}, w.Hosts st i j → Spreads p q w Layout.Same (exec o n i st) (exec o n j st)
  execAll : ∀ {w i j}, w.Twin i j → ∀ ss,
    Spreads p q w Layout.Same (execAll o n i ss) (execAll o n j ss)
  execLoop : ∀ {w i j condition body}, w.Hosts body i j →
    Spreads p q w Layout.Same (execLoop o n i condition body) (execLoop o n j condition body)
  eval : ∀ {w i j}, w.Sees i j → ∀ e, Spreads p q w Layout.Same (eval o n i e) (eval o n j e)
  evalOption : ∀ {w i j}, w.Sees i j → ∀ e,
    Spreads p q w Layout.Same (evalOption o n i e) (evalOption o n j e)
  evalAll : ∀ {w i j}, w.Sees i j → ∀ es,
    Spreads p q w Layout.Same (evalAll o n i es) (evalAll o n j es)
  call : ∀ {w} callee paren args,
    Spreads p q w Layout.Same (call o n callee paren args) (call o n callee paren args)
  apply : ∀ {w} callee args, Spreads p q w Layout.Same (apply o n callee args) (apply o n callee args)
  runBody : ∀ {w f f'}, f.Spread w f' → ∀ args,
    Spreads p q w Layout.Same (runBody o n f args) (runBody o n f' args)

section Step

variable {o : Options} {n : Nat} (ih : Spreading p q o n)

include ih

theorem exec_spreads {st : Stmt} (h : w.Hosts st i j) :
    Spreads p q w Layout.Same (exec o (n + 1) i st) (exec o (n + 1) j st) := by
  cases st with
  | expression e =>
    simp only [Run.exec]
    exact (ih.eval h.sees e).bind_same fun _ _ _ => spreads_pure _
  | print e =>
    simp only [Run.exec]
    exact (ih.eval h.sees e).bind_same fun _ _ v =>
      (spreads_print v.display).bind_same fun _ _ _ => spreads_pure _
  | var name initial =>
    have ht := h.twin (by simp [Stmt.declarations])
    simp only [Run.exec]
    exact (ih.evalOption h.sees initial).bind_same fun _ hu v =>
      (spreads_define (ht.mono hu) _ v).bind_same fun _ _ _ => spreads_pure _
  | block body =>
    simp only [Run.exec]
    exact (spreads_newScope h.sees).bind fun _ _ _ _ hinner => ih.execAll hinner body
  | ifThen condition yes =>
    simp only [Run.exec]
    refine (ih.eval h.sees condition).bind_same fun u hu c => ?_
    split
    · exact ih.exec ((h.part fun hd => hd).mono hu)
    · exact spreads_pure _
  | ifElse condition yes no =>
    simp only [Run.exec]
    refine (ih.eval h.sees condition).bind_same fun u hu c => ?_
    split
    · exact ih.exec ((h.part fun hd => (List.append_eq_nil_iff.1 hd).1).mono hu)
    · exact ih.exec ((h.part fun hd => (List.append_eq_nil_iff.1 hd).2).mono hu)
  | loop condition body =>
    simp only [Run.exec]
    exact ih.execLoop (h.part fun hd => hd)
  | function f =>
    have ht := h.twin (by simp [Stmt.declarations])
    have hnew : Spreads p q w Layout.Same
        (make (·.newFunction { declaration := f, scope := i, isInitializer := false }))
        (make (·.newFunction { declaration := f, scope := j, isInitializer := false })) :=
      spreads_make_same fun hu hσ => hσ.newFunction ⟨rfl, (ht.mono hu).sees, rfl⟩
    simp only [Run.exec]
    exact hnew.bind_same fun _ hu v =>
      (spreads_define (ht.mono hu) _ v).bind_same fun _ _ _ => spreads_pure _
  | ret keyword value =>
    simp only [Run.exec]
    exact (ih.evalOption h.sees value).bind_same fun _ _ v => spreads_pure _
  | classDecl name superclass methods =>
    have ht := h.twin (by simp [Stmt.declarations])
    simp only [Run.exec]
    exact (spreads_declareClass ht name superclass methods).bind_same fun _ _ _ => spreads_pure _

theorem execAll_spreads (h : w.Twin i j) (ss : List Stmt) :
    Spreads p q w Layout.Same (execAll o (n + 1) i ss) (execAll o (n + 1) j ss) := by
  cases ss with
  | nil =>
    simp only [Run.execAll]
    exact spreads_pure _
  | cons st ss =>
    simp only [Run.execAll]
    refine (ih.exec (.inl h)).bind_same fun u hu c => ?_
    cases c with
    | normal => exact ih.execAll (h.mono hu) ss
    | returned keyword v => exact spreads_pure _

theorem execLoop_spreads {condition : Expr} {body : Stmt} (h : w.Hosts body i j) :
    Spreads p q w Layout.Same (execLoop o (n + 1) i condition body)
      (execLoop o (n + 1) j condition body) := by
  simp only [Run.execLoop]
  refine (ih.eval h.sees condition).bind_same fun u hu v => ?_
  split
  · refine (ih.exec (h.mono hu)).bind_same fun u' hu' c => ?_
    cases c with
    | normal => exact ih.execLoop ((h.mono hu).mono hu')
    | returned keyword v => exact spreads_pure _
  · exact spreads_pure _

theorem eval_spreads (h : w.Sees i j) (e : Expr) :
    Spreads p q w Layout.Same (eval o (n + 1) i e) (eval o (n + 1) j e) := by
  cases e with
  | literal v =>
    simp only [Run.eval]
    exact spreads_pure v
  | grouping inner =>
    simp only [Run.eval]
    exact ih.eval h inner
  | name t =>
    simp only [Run.eval]
    exact spreads_lookup h t
  | assign name value =>
    simp only [Run.eval]
    exact (ih.eval h value).bind_same fun _ hu v =>
      (spreads_assign (h.mono hu) name v).bind_same fun _ _ _ => spreads_pure v
  | unary op operand =>
    simp only [Run.eval]
    exact (ih.eval h operand).bind_same fun _ _ v => spreads_applyUnary op v
  | binary left op right =>
    simp only [Run.eval]
    exact (ih.eval h left).bind_same fun _ hu a => (ih.eval (h.mono hu) right).bind_same fun _ _ b =>
      spreads_applyBinary op a b
  | logical left op right =>
    simp only [Run.eval]
    refine (ih.eval h left).bind_same fun _ hu a => ?_
    split
    · exact spreads_pure a
    · exact ih.eval (h.mono hu) right
  | call callee paren args =>
    simp only [Run.eval]
    exact (ih.eval h callee).bind_same fun _ hu f =>
      (ih.evalAll (h.mono hu) args).bind_same fun _ _ vs => ih.call f paren vs
  | get object name =>
    simp only [Run.eval]
    exact (ih.eval h object).bind_same fun _ _ v => spreads_property v name
  | set object name value =>
    simp only [Run.eval]
    refine (ih.eval h object).bind_same fun _ hu v => ?_
    refine (spreads_fieldOwner v name).bind_same fun _ hu' owner => ?_
    refine (ih.eval ((h.mono hu).mono hu') value).bind_same fun _ _ w => ?_
    exact (spreads_change fun _ hσ => hσ.setField owner name.lexeme w).bind_same fun _ _ _ => spreads_pure w
  | this keyword =>
    simp only [Run.eval]
    exact spreads_lookup h keyword
  | super keyword method =>
    simp only [Run.eval]
    exact spreads_superMethod h keyword method

theorem evalOption_spreads (h : w.Sees i j) (e : Option Expr) :
    Spreads p q w Layout.Same (evalOption o (n + 1) i e) (evalOption o (n + 1) j e) := by
  cases e with
  | none =>
    simp only [Run.evalOption]
    exact spreads_pure _
  | some e =>
    simp only [Run.evalOption]
    exact ih.eval h e

theorem evalAll_spreads (h : w.Sees i j) (es : List Expr) :
    Spreads p q w Layout.Same (evalAll o (n + 1) i es) (evalAll o (n + 1) j es) := by
  cases es with
  | nil =>
    simp only [Run.evalAll]
    exact spreads_pure _
  | cons e es =>
    simp only [Run.evalAll]
    exact (ih.eval h e).bind_same fun _ hu v => (ih.evalAll (h.mono hu) es).bind_same fun _ _ vs =>
      spreads_pure _

theorem call_spreads (callee : Value) (paren : Token) (args : List Value) :
    Spreads p q w Layout.Same (call o (n + 1) callee paren args) (call o (n + 1) callee paren args) := by
  simp only [Run.call]
  refine (spreads_read fun hσ => hσ.arity? callee).bind_same fun _ _ arity => ?_
  cases arity with
  | none => exact spreads_fail _ _
  | some arity =>
    dsimp only
    split
    · exact (spreads_guardDepth o paren).bind_same fun _ _ _ => (ih.apply callee args).within o _
    · exact spreads_fail _ _

theorem apply_spreads (callee : Value) (args : List Value) :
    Spreads p q w Layout.Same (apply o (n + 1) callee args) (apply o (n + 1) callee args) := by
  cases callee with
  | functionRef ref =>
    simp only [Run.apply]
    refine (spreads_read fun hσ => hσ.function? ref.id).bind fun _ _ f f' hf => ?_
    cases hf with
    | some hf => exact ih.runBody hf args
    | none => exact spreads_pure _
  | classRef ref =>
    simp only [Run.apply]
    refine (spreads_make_same fun _ hσ => hσ.newInstance ref).bind_same fun _ _ receiver => ?_
    refine (spreads_read fun hσ => hσ.method? ref.id Store.initializerName).bind fun _ _ m m' hm => ?_
    cases hm with
    | some hm =>
      refine Spreads.bind (B := Closure.Spread) (spreads_make fun {u σ τ} hu hσ => ?_) ?_
      · obtain ⟨hbound, hstore⟩ := hσ.bind (hm.mono hu) receiver
        exact ⟨_, Layout.isPrefix_append u _, hbound, hstore⟩
      · intro _ _ f f' hf
        exact (ih.runBody hf args).bind_same fun _ _ _ => spreads_pure _
    | none => exact spreads_pure _
  | _ =>
    simp only [Run.apply]
    exact spreads_pure _

theorem runBody_spreads {f f' : Closure} (hf : f.Spread w f') (args : List Value) :
    Spreads p q w Layout.Same (runBody o (n + 1) f args) (runBody o (n + 1) f' args) := by
  simp only [Run.runBody]
  refine (spreads_enter hf args).bind fun u hu inner inner' hinner => ?_
  rw [hf.declaration]
  exact (ih.execAll hinner f.declaration.body).bind_same fun _ hu' c =>
    spreads_leave ((hf.mono hu).mono hu') c

end Step

/-- Evaluation does not notice blank scopes. -/
theorem spreading (p q : Prop) (o : Options) (n : Nat) : Spreading p q o n := by
  induction n with
  | zero =>
    constructor <;> intros <;>
      simp only [Run.exec, Run.execAll, Run.execLoop, Run.eval, Run.evalOption, Run.evalAll, Run.call,
        Run.apply, Run.runBody] <;>
      exact spreads_exhausted
  | succ n ih =>
    exact
      { exec := fun h => exec_spreads ih h
        execAll := fun h ss => execAll_spreads ih h ss
        execLoop := fun h => execLoop_spreads ih h
        eval := fun h e => eval_spreads ih h e
        evalOption := fun h e => evalOption_spreads ih h e
        evalAll := fun h es => evalAll_spreads ih h es
        call := fun callee paren args => call_spreads ih callee paren args
        apply := fun callee args => apply_spreads ih callee args
        runBody := fun hf args => runBody_spreads ih hf args }

theorem program_spreads (o : Options) (n : Nat) (h : w.Twin i j) (ss : List Stmt) :
    Spreads p q w Layout.Same (program o n i ss) (program o n j ss) := by
  induction ss generalizing w with
  | nil => exact spreads_pure ()
  | cons st ss ih =>
    simp only [program]
    refine ((spreading p q o n).exec (.inl h)).bind_same fun u hu c => ?_
    cases c with
    | normal => exact ih (h.mono hu)
    | returned keyword v => exact spreads_fail _ _

/-! ### Different allowances -/

theorem Deepens.eq_of_ends {o : Options} {m m' : Run α} (h : Deepens o o m m') {s : RunState}
    (hends : m s ≠ .exhausted) : m' s = m s := by
  have hs := h.ends s
  cases hm : m s with
  | done a t =>
    rw [hm] at hs
    exact hs
  | failed e t =>
    rw [hm] at hs
    rcases hs with ⟨e', he', -, htrace⟩ | ⟨-, hlt, -⟩
    · rw [he', htrace rfl]
    · exact absurd hlt (Int.lt_irrefl _)
  | exhausted => exact absurd hm hends

/-- If the second of two computations gets more of an allowance, the first may give up before it. -/
theorem Spreads.more_second {o : Options} {m m' m'' : Run α} (h : Spreads False False w A m m')
    (hmore : Deepens o o m' m'') (hp : p) : Spreads p q w A m m'' := by
  intro u hu s s' hs
  have hm := h u hu s s' hs
  by_cases hends : m' s' = .exhausted
  · rw [hends] at hm
    rw [hm.eq_exhausted_of_second]
    exact .first hp
  · rw [hmore.eq_of_ends hends]
    exact hm.weaken

/-- If the first of two computations gets more of an allowance, the second may give up before it. -/
theorem Spreads.more_first {o : Options} {m m' m'' : Run α} (h : Spreads False False w A m m')
    (hmore : Deepens o o m m'') (hq : q) : Spreads p q w A m'' m' := by
  intro u hu s s' hs
  have hm := h u hu s s' hs
  by_cases hends : m s = .exhausted
  · rw [hends] at hm
    rw [hm.eq_exhausted_of_first]
    exact .second hq
  · rw [hmore.eq_of_ends hends]
    exact hm.weaken

/-- With different allowances, the one that has less may give up before the other. -/
theorem spreads_any {o : Options} {m m' : Nat → Run α}
    (hspreads : ∀ n, Spreads False False w A (m n) (m' n))
    (hm : ∀ {n n'}, n ≤ n' → Deepens o o (m n) (m n'))
    (hm' : ∀ {n n'}, n ≤ n' → Deepens o o (m' n) (m' n')) {n n' : Nat} (hp : n < n' → p)
    (hq : n' < n → q) : Spreads p q w A (m n) (m' n') := by
  rcases Nat.lt_trichotomy n n' with hlt | rfl | hlt
  · exact (hspreads n).more_second (hm' (Nat.le_of_lt hlt)) (hp hlt)
  · exact fun u hu s s' hs => (hspreads n u hu s s' hs).weaken
  · exact (hspreads n').more_first (hm (Nat.le_of_lt hlt)) (hq hlt)

section Any

variable (o : Options) {n n' : Nat} (hp : n < n' → p) (hq : n' < n → q)

include hp hq

theorem exec_spreads_any {st : Stmt} (h : w.Hosts st i j) :
    Spreads p q w Layout.Same (exec o n i st) (exec o n' j st) :=
  spreads_any (m := fun n => exec o n i st) (fun n => (spreading False False o n).exec h)
    (fun hn => (deepened (Int.le_refl _) hn).exec i st)
    (fun hn => (deepened (Int.le_refl _) hn).exec j st) hp hq

theorem eval_spreads_any (h : w.Sees i j) (e : Expr) :
    Spreads p q w Layout.Same (eval o n i e) (eval o n' j e) :=
  spreads_any (m := fun n => eval o n i e) (fun n => (spreading False False o n).eval h e)
    (fun hn => (deepened (Int.le_refl _) hn).eval i e)
    (fun hn => (deepened (Int.le_refl _) hn).eval j e) hp hq

end Any

end Run

end LoxLang
