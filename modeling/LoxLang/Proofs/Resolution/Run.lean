import LoxLang.Proofs.Placement.Run
import LoxLang.Proofs.Resolution.Store
import LoxLang.Proofs.Run.Quiet

/-!
# Runs leave the scopes of receivers and of superclasses alone

Statements are executed in plain scopes only, and what they declare there is a name, never one of the two
words. So no activity of a program without misplaced constructs touches a scope that is not plain,
once it is made.

Main statement: `resolution_kept`, that every plan keeps this discipline, along with that of placement.
-/

namespace LoxLang

open Store

theorem Token.Proper.not_reserved {t t' : Token} (h : Token.Proper .name t t') :
    ¬ Token.Reserved t.lexeme := by
  rintro (hr | hr)
  · exact h.name.2.1 hr
  · exact h.name.2.2 hr

/-- What is executed is executed in a plain scope. -/
def Activity.InPlainScope (σ : Store) : Activity → Prop
  | .exec _ scope _ | .execAll _ scope _ | .execLoop _ scope _ _ | .program _ scope _ => σ.Plain scope
  | .eval _ _ _ | .evalOption _ _ _ | .evalAll _ _ _ => True
  | .call _ _ _ _ | .apply _ _ _ | .runBody _ _ _ => True

/-- The discipline of leaving alone what is not plain. -/
def anchoring : Discipline where
  keeps s t := Fixes s.store t.store ∧ t.store.Anchored
  fits s a := a.InPlainScope s.store
  yields _ _ := True
  proper _ := True
  keeps_self h := ⟨.refl _, h.2⟩
  keeps_trans h h' := ⟨h.1.trans h'.1, h'.2⟩
  keeps_entering call h := by cases call <;> exact ⟨.refl _, h.2⟩
  keeps_leaving call h := by cases call <;> exact ⟨.refl _, h.2⟩
  fits_entering call h := by cases call <;> exact h
  proper_same _ _ := trivial

section Moves

variable {s : RunState} {scope : ScopeId}

theorem anchoring_quiet {goal : α → RunState → Prop} {m : Run α} (hs : s.store.Anchored) (hm : m.Quiet)
    (hg : ∀ r t, m s = .done r t → goal r t) : anchoring.Guards goal m s := by
  refine Discipline.guards_of_quiet hm (fun t ht => ?_) (fun _ => trivial) hg
  exact ⟨.of_eq (by rw [ht]) (by rw [ht]), hs.of_eq (by rw [ht]) (by rw [ht])⟩

theorem anchored_of_quiet {m : Run α} {r : α} {t : RunState} (hs : s.store.Anchored) (hm : m.Quiet)
    (h : m s = .done r t) : t.store.Anchored := by
  rw [hm.done h]
  exact hs

theorem anchoring_define (hs : s.store.Anchored) (hscope : s.store.Plain scope) {name : String}
    (hname : ¬ Token.Reserved name) (v : Value) :
    anchoring.Guards (fun _ _ => True) (Run.change (·.define scope name v)) s :=
  Discipline.guards_of_done rfl
    ⟨.define hscope.all hname v, hs.define hscope.all hname v⟩ trivial

theorem anchoring_assign (hs : s.store.Anchored) {name : Token} (hname : ¬ Token.Reserved name.lexeme)
    (v : Value) : anchoring.Guards (fun _ _ => True) (Run.assign scope name v) s := by
  cases hh : s.store.holder? scope name.lexeme with
  | none =>
    exact Discipline.guards_of_failed (t := s) (by simp only [Run.assign, hh]; rfl) ⟨.refl _, hs⟩ trivial
  | some holder =>
    have hplain := hs.plain_of_holder? hname hh
    refine Discipline.guards_of_done (by simp only [Run.assign, hh]; rfl) ?_ trivial
    exact ⟨.define hplain hname v, hs.define hplain hname v⟩

theorem anchoring_bindMethod (hs : s.store.Anchored) (m : Closure) (receiver : Ref) :
    anchoring.Guards (fun _ _ => True) (Run.bindMethod m receiver) s := by
  have hscopes := scopes_bind s.store m receiver
  exact Discipline.guards_of_done rfl
    ⟨.push hscopes rfl, hs.push hscopes rfl (.receiver m.scope receiver)⟩ trivial

theorem anchoring_property (hs : s.store.Anchored) (object : Value) (name : Token) :
    anchoring.Guards (fun _ _ => True) (Run.property object name) s := by
  unfold Run.property
  split
  · next receiver =>
    refine .bind (anchoring_quiet hs (Run.quiet_read _) ?_)
    rintro _ _ ⟨⟩
    split
    · exact anchoring_quiet hs (Run.quiet_pure _) fun _ _ _ => trivial
    · refine .bind (anchoring_quiet hs (Run.quiet_read _) ?_)
      rintro _ _ ⟨⟩
      split
      · exact anchoring_bindMethod hs _ receiver
      · exact anchoring_quiet hs (Run.quiet_fail _ _) fun _ _ _ => trivial
  · exact anchoring_quiet hs (Run.quiet_fail _ _) fun _ _ _ => trivial

theorem anchoring_superMethod (hs : s.store.Anchored) (keyword method : Token) :
    anchoring.Guards (fun _ _ => True) (Run.superMethod scope keyword method) s := by
  rw [Run.superMethod]
  refine .bind (anchoring_quiet hs (Run.quiet_lookup _ _) fun v t ht => ?_)
  have hs := anchored_of_quiet hs (Run.quiet_lookup _ _) ht
  split
  · refine .bind (anchoring_quiet hs (Run.quiet_lookup _ _) fun w u hu => ?_)
    have hs := anchored_of_quiet hs (Run.quiet_lookup _ _) hu
    split
    · refine .bind (anchoring_quiet hs (Run.quiet_read _) ?_)
      rintro _ _ ⟨⟩
      split
      · exact anchoring_bindMethod hs _ _
      · exact anchoring_quiet hs (Run.quiet_fail _ _) fun _ _ _ => trivial
    · exact anchoring_quiet hs (Run.quiet_fail _ _) fun _ _ _ => trivial
  · exact anchoring_quiet hs (Run.quiet_fail _ _) fun _ _ _ => trivial

theorem anchoring_newClass (hs : s.store.Anchored) {K : ClassObject}
    (hK : ∀ {p}, K.superclass = some p → ∃ outer r, r.id = p ∧
      ∀ {name m}, K.methods.get? name = some m →
        s.store.scopes[m.scope]? = some (.ofSuperclass outer r)) :
    anchoring.Guards (fun _ _ => True) (Run.make (·.newClass K)) s :=
  Discipline.guards_of_done rfl ⟨.newClass _ _, hs.newClass hK⟩ trivial

/-- A derived class has a scope made for it, with the superclass in it. -/
theorem anchoring_declareClass (hs : s.store.Anchored) (hscope : s.store.Plain scope) {name : Token}
    (hname : ¬ Token.Reserved name.lexeme) (superclass : Option Token) (methods : List FunctionDecl) :
    anchoring.Guards (fun _ _ => True) (Run.declareClass scope name superclass methods) s := by
  cases superclass with
  | none =>
    rw [Run.declareClass_none]
    refine .bind ((anchoring_define hs hscope hname .nil).mono fun _ t ht _ => ?_)
    refine .bind ((anchoring_newClass ht.2 (by rintro _ ⟨⟩)).mono fun ref u hu _ => ?_)
    exact anchoring_define hu.2 (hu.1.plain (ht.1.plain hscope)) hname _
  | some superName =>
    rw [Run.declareClass_some]
    refine .bind (anchoring_quiet hs (Run.quiet_superclassNamed _ _) fun c t ht => ?_)
    have hsame := (Run.quiet_superclassNamed _ _).done ht
    rw [← hsame] at hs hscope
    refine .bind ((anchoring_define hs hscope hname .nil).mono fun _ u hu _ => ?_)
    -- the scope of the superclass
    let σ := (u.store.newScope (some scope)).2.define (u.store.newScope (some scope)).1 Token.superName
      (.classRef c)
    have hscopes : σ.scopes = u.store.scopes.push (.ofSuperclass scope c) :=
      scopes_newScope_define u.store (some scope) Token.superName (.classRef c)
    have hpush : Fixes u.store σ := .push hscopes rfl
    have hσ : σ.Anchored := hu.2.push hscopes rfl (.superclass scope c)
    have hinner : σ.scopes[u.store.scopes.size]? = some (.ofSuperclass scope c) := by
      rw [hscopes, Array.getElem?_push, if_pos rfl]
    refine .bind (Discipline.guards_of_done rfl ⟨hpush, hσ⟩ ?_)
    refine .bind (Discipline.Guards.mono (anchoring_newClass ?_ ?_) fun ref w hw _ => ?_)
    · exact hσ
    · rintro _ ⟨⟩
      refine ⟨scope, c, rfl, fun {method m} hm => ?_⟩
      exact get?_methodTable (P := fun m => σ.scopes[m.scope]? = some (.ofSuperclass scope c))
        (fun f _ _ => hinner) hm
    · exact anchoring_define hw.2 (hw.1.plain (hpush.plain (hu.1.plain hscope))) hname _

theorem anchored_params {σ : Store} (hs : σ.Anchored) {i : ScopeId} (hi : σ.Plain i)
    (bound : List (Token × Value)) (h : ∀ b ∈ bound, ¬ Token.Reserved b.1.lexeme) :
    Fixes σ (bound.foldl (fun σ (p, v) => σ.define i p.lexeme v) σ) ∧
      (bound.foldl (fun σ (p, v) => σ.define i p.lexeme v) σ).Anchored := by
  induction bound generalizing σ with
  | nil => exact ⟨.refl σ, hs⟩
  | cons b bound ih =>
    have hb := h b List.mem_cons_self
    have hfirst : Fixes σ (σ.define i b.1.lexeme b.2) := .define hi.all hb b.2
    obtain ⟨hfixes, hanchored⟩ := ih (hs.define hi.all hb b.2) (hfirst.plain hi)
      fun b' hb' => h b' (List.mem_cons_of_mem _ hb')
    exact ⟨hfirst.trans hfixes, hanchored⟩

theorem plain_newScope (σ : Store) (parent : Option ScopeId) :
    (σ.newScope parent).2.Plain (σ.newScope parent).1 :=
  ⟨{ parent }, by simp [Store.newScope], Scope.plain_of_empty parent⟩

theorem anchored_newScope {σ : Store} (hs : σ.Anchored) (parent : Option ScopeId) :
    Fixes σ (σ.newScope parent).2 ∧ (σ.newScope parent).2.Anchored := by
  have hscopes : (σ.newScope parent).2.scopes = σ.scopes.push { parent } := rfl
  exact ⟨.push hscopes rfl, hs.push hscopes rfl (.plain (Scope.plain_of_empty parent))⟩

/-- The body of a function is executed in a plain scope. -/
theorem anchoring_enter (hs : s.store.Anchored) {f : Closure} (hf : f.Fits s.store) (args : List Value) :
    anchoring.Guards (fun inner t => t.store.Plain inner) (Run.enter f args) s := by
  obtain ⟨context, hf⟩ := hf
  have hparams : ∀ b ∈ f.declaration.params.zip args, ¬ Token.Reserved b.1.lexeme := by
    intro b hb
    obtain ⟨⟨name, params, body⟩, fscope, isInitializer⟩ := f
    cases hf.inPlace.proper with
    | mk _ hp _ => exact Token.Proper.not_reserved (List.forall₂_same.1 hp b.1 (List.of_mem_zip hb).1)
  have hplain := plain_newScope s.store (some f.scope)
  obtain ⟨hnew, hs⟩ := anchored_newScope hs (some f.scope)
  obtain ⟨hfixes, hanchored⟩ := anchored_params hs hplain (f.declaration.params.zip args) hparams
  exact Discipline.guards_of_done rfl ⟨hnew.trans hfixes, hanchored⟩ (hfixes.plain hplain)

end Moves

section Plans

variable {o : Options} {s : RunState} {n : Nat} {scope : ScopeId}

theorem anchoring_exec {st : Stmt} (hs : s.store.Anchored) (hp : st.Alike Token.Proper st)
    (hscope : s.store.Plain scope) :
    anchoring.Safe (fun _ => True) ((Activity.exec (n + 1) scope st).plan o) s := by
  cases hp with
  | expression _ => exact ⟨trivial, fun _ _ _ _ => trivial⟩
  | print _ =>
    exact ⟨trivial, fun v t ht _ => anchoring_quiet ht.2 (Run.quiet_print _) fun _ _ _ => trivial⟩
  | var hname _ =>
    refine ⟨trivial, fun v t ht _ => ?_⟩
    exact anchoring_define ht.2 (ht.1.plain hscope) hname.not_reserved v
  | block _ =>
    refine Discipline.guards_of_done rfl (anchored_newScope hs (some scope)) ?_
    exact ⟨plain_newScope s.store (some scope), fun _ _ _ _ => trivial⟩
  | ifThen _ _ =>
    refine ⟨trivial, fun c t ht _ => ?_⟩
    dsimp only
    split
    · exact ⟨ht.1.plain hscope, fun _ _ _ _ => trivial⟩
    · trivial
  | ifElse _ _ _ =>
    refine ⟨trivial, fun c t ht _ => ?_⟩
    dsimp only
    split
    · exact ⟨ht.1.plain hscope, fun _ _ _ _ => trivial⟩
    · exact ⟨ht.1.plain hscope, fun _ _ _ _ => trivial⟩
  | loop _ _ => exact ⟨hscope, fun _ _ _ _ => trivial⟩
  | function hf =>
    refine Discipline.guards_of_done rfl ⟨.of_eq rfl rfl, hs.of_eq rfl rfl⟩ ?_
    cases hf with
    | mk hname _ _ =>
      refine anchoring_define ?_ ?_ hname.not_reserved _
      · exact hs.of_eq rfl rfl
      · exact hscope
  | ret _ _ => exact ⟨trivial, fun _ _ _ _ => trivial⟩
  | classDecl hname _ _ => exact anchoring_declareClass hs hscope hname.not_reserved _ _

theorem anchoring_eval {expression : Expr} (hs : s.store.Anchored)
    (hp : expression.Alike Token.Proper expression) :
    anchoring.Safe (fun _ => True) ((Activity.eval (n + 1) scope expression).plan o) s := by
  cases hp with
  | literal => trivial
  | grouping _ => exact ⟨trivial, fun _ _ _ _ => trivial⟩
  | name _ => exact anchoring_quiet hs (Run.quiet_lookup _ _) fun _ _ _ => trivial
  | assign hname _ => exact ⟨trivial, fun v t ht _ => anchoring_assign ht.2 hname.not_reserved v⟩
  | unary _ _ =>
    exact ⟨trivial, fun v t ht _ =>
      anchoring_quiet ht.2 (Run.quiet_applyUnary _ _) fun _ _ _ => trivial⟩
  | binary _ _ _ =>
    refine ⟨trivial, fun a t ht _ => ⟨trivial, fun b u hu _ => ?_⟩⟩
    exact anchoring_quiet hu.2 (Run.quiet_applyBinary _ _ _) fun _ _ _ => trivial
  | logical _ _ _ =>
    refine ⟨trivial, fun a t ht _ => ?_⟩
    dsimp only
    split
    · trivial
    · exact ⟨trivial, fun _ _ _ _ => trivial⟩
  | call _ _ _ =>
    exact ⟨trivial, fun _ _ _ _ => ⟨trivial, fun _ _ _ _ => ⟨trivial, fun _ _ _ _ => trivial⟩⟩⟩
  | get _ _ => exact ⟨trivial, fun v t ht _ => anchoring_property ht.2 v _⟩
  | set _ _ _ =>
    refine ⟨trivial, fun v t ht _ => ?_⟩
    refine anchoring_quiet ht.2 (Run.quiet_fieldOwner _ _) fun owner u hu => ?_
    refine ⟨trivial, fun w x hx _ => ?_⟩
    exact Discipline.guards_of_done rfl ⟨.of_eq rfl rfl, hx.2.of_eq rfl rfl⟩ trivial
  | this _ => exact anchoring_quiet hs (Run.quiet_lookup _ _) fun _ _ _ => trivial
  | super _ _ => exact anchoring_superMethod hs _ _

theorem anchoring_call {callee : Value} {paren : Token} {args : List Value} (hs : s.store.Anchored) :
    anchoring.Safe (fun _ => True) ((Activity.call (n + 1) callee paren args).plan o) s := by
  refine anchoring_quiet hs (Run.quiet_read _) ?_
  rintro _ _ ⟨⟩
  dsimp only
  split
  · exact anchoring_quiet hs (Run.quiet_fail _ _) fun _ _ _ => trivial
  · split
    · refine anchoring_quiet hs (Run.quiet_guardDepth _ _) fun _ _ _ => ?_
      exact ⟨trivial, fun _ _ _ _ => trivial⟩
    · exact anchoring_quiet hs (Run.quiet_fail _ _) fun _ _ _ => trivial

theorem anchoring_apply {callee : Value} {args : List Value} (hs : s.store.Anchored) :
    anchoring.Safe (fun _ => True) ((Activity.apply (n + 1) callee args).plan o) s := by
  cases callee with
  | functionRef ref =>
    refine anchoring_quiet hs (Run.quiet_read _) ?_
    rintro _ _ ⟨⟩
    dsimp only
    split
    · exact ⟨trivial, fun _ _ _ _ => trivial⟩
    · trivial
  | classRef ref =>
    have hs : (s.store.newInstance ref).2.Anchored := hs.of_eq rfl rfl
    refine Discipline.guards_of_done rfl ⟨.of_eq rfl rfl, hs⟩ ?_
    refine anchoring_quiet hs (Run.quiet_read _) ?_
    rintro _ _ ⟨⟩
    dsimp only
    split
    · next m _ =>
      have hscopes := scopes_bind (s.store.newInstance ref).2 m (s.store.newInstance ref).1
      refine Discipline.guards_of_done rfl ⟨.push hscopes rfl, ?_⟩ ?_
      · exact hs.push hscopes rfl (.receiver _ _)
      · exact ⟨trivial, fun _ _ _ _ => trivial⟩
    · trivial
  | _ => trivial

/-- Every plan of an activity in its place leaves alone what is not plain. -/
theorem anchoring_safe (o : Options) (a : Activity) (s : RunState) (h : a.Fits s.store)
    (hs : s.store.Anchored) (hscope : a.InPlainScope s.store) :
    anchoring.Safe (fun _ => True) (a.plan o) s := by
  cases a with
  | exec n scope st =>
    cases n with
    | zero => exact Discipline.guards_exhausted
    | succ n =>
      obtain ⟨context, hst, -⟩ := h
      exact anchoring_exec hs hst.proper hscope
  | execAll n scope ss =>
    cases n with
    | zero => exact Discipline.guards_exhausted
    | succ n =>
      cases ss with
      | nil => trivial
      | cons st ss =>
        refine ⟨hscope, fun c t ht _ => ?_⟩
        cases c with
        | normal => exact ⟨ht.1.plain hscope, fun _ _ _ _ => trivial⟩
        | returned keyword v => trivial
  | execLoop n scope condition body =>
    cases n with
    | zero => exact Discipline.guards_exhausted
    | succ n =>
      refine ⟨trivial, fun c t ht _ => ?_⟩
      dsimp only
      split
      · refine ⟨ht.1.plain hscope, fun c u hu _ => ?_⟩
        cases c with
        | normal => exact ⟨hu.1.plain (ht.1.plain hscope), fun _ _ _ _ => trivial⟩
        | returned keyword v => trivial
      · trivial
  | eval n scope expression =>
    cases n with
    | zero => exact Discipline.guards_exhausted
    | succ n =>
      obtain ⟨context, he, -⟩ := h
      exact anchoring_eval hs he.proper
  | evalOption n scope expression =>
    cases n with
    | zero => exact Discipline.guards_exhausted
    | succ n =>
      cases expression with
      | none => trivial
      | some expression => exact ⟨trivial, fun _ _ _ _ => trivial⟩
  | evalAll n scope expressions =>
    cases n with
    | zero => exact Discipline.guards_exhausted
    | succ n =>
      cases expressions with
      | nil => trivial
      | cons _ _ => exact ⟨trivial, fun _ _ _ _ => ⟨trivial, fun _ _ _ _ => trivial⟩⟩
  | call n callee paren args =>
    cases n with
    | zero => exact Discipline.guards_exhausted
    | succ n => exact anchoring_call hs
  | apply n callee args =>
    cases n with
    | zero => exact Discipline.guards_exhausted
    | succ n => exact anchoring_apply hs
  | runBody n f args =>
    cases n with
    | zero => exact Discipline.guards_exhausted
    | succ n =>
      refine (anchoring_enter hs h args).mono fun scope t ht hscope => ?_
      refine ⟨hscope, fun c u hu _ => ?_⟩
      exact anchoring_quiet hu.2 (Run.quiet_leave _ _) fun _ _ _ => trivial
  | program n scope ss =>
    cases ss with
    | nil => trivial
    | cons st ss =>
      refine ⟨hscope, fun c t ht _ => ?_⟩
      cases c with
      | normal => exact ⟨ht.1.plain hscope, fun _ _ _ _ => trivial⟩
      | returned keyword v =>
        exact anchoring_quiet ht.2 (Run.quiet_fail _ _) fun _ _ _ => trivial

end Plans

/-- The discipline of placement, and what is not plain is left alone. -/
def resolution : Discipline := placement.and anchoring

theorem resolution_kept (o : Options) : resolution.Kept o :=
  (placement_kept o).and fun a s hfits hs hscope => anchoring_safe o a s hfits hs.2 hscope

end LoxLang
