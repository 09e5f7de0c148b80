import LoxLang.Proofs.Placement.Run
import LoxLang.Proofs.Run.Discipline
import LoxLang.Proofs.Run.Quiet
import LoxLang.Proofs.Store.Founded

/-!
# Runs keep stores founded

Whatever a program makes is younger than what it refers to, and whatever a program gets hold of is
there. So every step of a run leaves the store founded, and every value that an activity yields is one
of the store that it yields it in.

Main statement: `founding_left`.
-/

namespace LoxLang

open Store

/-- An activity that begins in a store refers to nothing that is not there. -/
def Activity.Founded (σ : Store) : Activity → Prop
  | .exec _ scope st => scope < σ.scopes.size ∧ st.Data
  | .execAll _ scope ss | .program _ scope ss => scope < σ.scopes.size ∧ ∀ st ∈ ss, st.Data
  | .execLoop _ scope condition body => scope < σ.scopes.size ∧ condition.Data ∧ body.Data
  | .eval _ scope e => scope < σ.scopes.size ∧ e.Data
  | .evalOption _ scope i => scope < σ.scopes.size ∧ Expr.OptionData i
  | .evalAll _ scope es => scope < σ.scopes.size ∧ ∀ e ∈ es, e.Data
  | .call _ callee _ args | .apply _ callee args => callee.Within σ ∧ ∀ v ∈ args, v.Within σ
  | .runBody _ f args => f.Within σ ∧ ∀ v ∈ args, v.Within σ

/-- An activity that ends in a store yields nothing that is not there. -/
def Activity.YieldsWithin (σ : Store) : (a : Activity) → a.Result → Prop
  | .exec _ _ _, c | .execAll _ _ _, c | .execLoop _ _ _ _, c => c.value.Within σ
  | .eval _ _ _, v | .evalOption _ _ _, v | .call _ _ _ _, v | .apply _ _ _, v | .runBody _ _ _, v =>
    v.Within σ
  | .evalAll _ _ _, vs => ∀ v ∈ vs, v.Within σ
  | .program _ _ _, _ => True

/-- The discipline of keeping the store founded. -/
def founding : Discipline where
  keeps s t := s.store.Grows t.store ∧ t.store.Founded
  fits s a := a.Founded s.store
  yields _ _ := True
  proper _ := True
  keeps_self h := ⟨.refl _, h.2⟩
  keeps_trans h h' := ⟨h.1.trans h'.1, h'.2⟩
  keeps_entering call h := by cases call <;> exact ⟨.refl _, h.2⟩
  keeps_leaving call h := by cases call <;> exact ⟨.refl _, h.2⟩
  fits_entering call h := by cases call <;> exact h
  proper_same _ _ := trivial

/-- Values are of the store that they come in, and of those after it. -/
def foundedResults : Discipline.Legacy founding where
  leaves a r s := a.YieldsWithin s.store r
  leaves_keeps {a r s t} h hk := by
    cases a with
    | evalAll n scope es => exact fun v hv => (h v hv).mono hk.1
    | program n scope ss => trivial
    | _ => exact Value.Within.mono h hk.1

section Moves

variable {s : RunState} {scope : ScopeId}

theorem founding_quiet {goal : α → RunState → Prop} {m : Run α} (hs : s.store.Founded) (hm : m.Quiet)
    (hg : ∀ r t, m s = .done r t → goal r t) : founding.Guards goal m s := by
  refine Discipline.guards_of_quiet hm (fun t ht => ?_) (fun _ => trivial) hg
  exact ⟨ht ▸ .refl _, ht ▸ hs⟩

theorem founding_pure {goal : α → RunState → Prop} {a : α} (hs : s.store.Founded) (h : goal a s) :
    founding.Guards goal (pure a) s :=
  Discipline.guards_of_done rfl ⟨.refl _, hs⟩ h

theorem founding_fail {goal : α → RunState → Prop} (hs : s.store.Founded) (token : Token) (fault : Fault) :
    founding.Guards goal (Run.fail token fault) s :=
  Discipline.guards_of_failed rfl ⟨.refl _, hs⟩ trivial

theorem founding_read (hs : s.store.Founded) (f : Store → α) :
    founding.Guards (fun a t => t = s ∧ a = f s.store) (Run.read f) s :=
  Discipline.guards_of_done rfl ⟨.refl _, hs⟩ ⟨rfl, rfl⟩

theorem founding_lookup (hs : s.store.Founded) (name : Token) :
    founding.Guards (fun v t => t = s ∧ v.Within s.store) (Run.lookup scope name) s := by
  cases hv : s.store.lookup? scope name.lexeme with
  | some v =>
    exact Discipline.guards_of_done (by simp only [Run.lookup, hv]) ⟨.refl _, hs⟩ ⟨rfl, hs.lookup hv⟩
  | none =>
    exact Discipline.guards_of_failed (by simp only [Run.lookup, hv]; rfl) ⟨.refl _, hs⟩ trivial

theorem founding_define (hs : s.store.Founded) {v : Value} (hv : v.Within s.store) (name : String) :
    founding.Guards (fun _ _ => True) (Run.change (·.define scope name v)) s :=
  Discipline.guards_of_done rfl ⟨grows_define _ _ _ _, hs.define hv scope name⟩ trivial

theorem founding_assign (hs : s.store.Founded) (name : Token) {v : Value} (hv : v.Within s.store) :
    founding.Guards (fun _ _ => True) (Run.assign scope name v) s := by
  cases hh : s.store.holder? scope name.lexeme with
  | none =>
    exact Discipline.guards_of_failed (t := s) (by simp only [Run.assign, hh]; rfl) ⟨.refl _, hs⟩ trivial
  | some holder =>
    refine Discipline.guards_of_done (by simp only [Run.assign, hh]; rfl) ?_ trivial
    exact ⟨grows_define _ _ _ _, hs.define hv holder _⟩

theorem founding_bindMethod (hs : s.store.Founded) {m : Closure} (hm : m.Within s.store) {r : Ref}
    (hr : r.id < s.store.instances.size) :
    founding.Guards (fun v t => v.Within t.store) (Run.bindMethod m r) s := by
  obtain ⟨hstore, hbound⟩ := hs.bind hm hr
  have hgrows := (grows_bind s.store m r).trans (grows_newFunction _ (s.store.bind m r).1)
  refine Discipline.guards_of_done rfl ⟨hgrows, hstore.newFunction hbound⟩ ?_
  simp [Value.Within]

theorem founding_property (hs : s.store.Founded) {object : Value} (ho : object.Within s.store)
    (name : Token) : founding.Guards (fun v t => v.Within t.store) (Run.property object name) s := by
  unfold Run.property
  split
  · next receiver =>
    refine .bind ((founding_read hs _).mono ?_)
    rintro field _ - ⟨rfl, hfield⟩
    split
    · exact founding_pure hs (hs.field hfield.symm)
    · refine .bind ((founding_read hs _).mono ?_)
      rintro method _ - ⟨rfl, hmethod⟩
      split
      · exact founding_bindMethod hs (hs.methodOf hmethod.symm) ho
      · exact founding_fail hs _ _
  · exact founding_fail hs _ _

theorem founding_fieldOwner (hs : s.store.Founded) (object : Value) (name : Token) :
    founding.Guards (fun _ t => t = s) (Run.fieldOwner object name) s := by
  unfold Run.fieldOwner
  split
  · exact founding_pure hs rfl
  · exact founding_fail hs _ _

theorem founding_superMethod (hs : s.store.Founded) (keyword method : Token) :
    founding.Guards (fun v t => v.Within t.store) (Run.superMethod scope keyword method) s := by
  rw [Run.superMethod]
  refine .bind ((founding_lookup hs _).mono ?_)
  rintro v _ - ⟨rfl, hv⟩
  split
  · refine .bind ((founding_lookup hs _).mono ?_)
    rintro w _ - ⟨rfl, hw⟩
    split
    · refine .bind ((founding_read hs _).mono ?_)
      rintro m _ - ⟨rfl, hm⟩
      split
      · exact founding_bindMethod hs (hs.method hm.symm) hw
      · exact founding_fail hs _ _
    · exact founding_fail hs _ _
  · exact founding_fail hs _ _

theorem founding_superclassNamed (hs : s.store.Founded) (name : Token) :
    founding.Guards (fun c t => t = s ∧ c.id < s.store.classes.size) (Run.superclassNamed scope name) s := by
  rw [Run.superclassNamed]
  refine .bind ((founding_lookup hs _).mono ?_)
  rintro v _ - ⟨rfl, hv⟩
  split
  · exact founding_pure hs ⟨rfl, hv⟩
  · exact founding_fail hs _ _

theorem founding_newClass (hs : s.store.Founded) {K : ClassObject}
    (hK : K.FoundedAt s.store s.store.classes.size) :
    founding.Guards (fun ref t => ref.id < t.store.classes.size) (Run.make (·.newClass K)) s := by
  refine Discipline.guards_of_done rfl ⟨grows_newClass _ _, hs.newClass hK⟩ ?_
  simp

theorem methodTable_within {σ : Store} (hscope : scope < σ.scopes.size) {methods : List FunctionDecl}
    (hm : ∀ f ∈ methods, f.Data) {name : String} {m : Closure}
    (h : (Run.methodTable scope methods).get? name = some m) : m.Within σ :=
  get?_methodTable (P := fun m => m.Within σ) (fun f hf _ => ⟨hscope, hm f hf⟩) h

theorem founding_declareClass (hs : s.store.Founded) (hscope : scope < s.store.scopes.size) (name : Token)
    (superclass : Option Token) {methods : List FunctionDecl} (hm : ∀ f ∈ methods, f.Data) :
    founding.Guards (fun _ _ => True) (Run.declareClass scope name superclass methods) s := by
  cases superclass with
  | none =>
    rw [Run.declareClass_none]
    refine .bind ((founding_define hs (v := .nil) trivial name.lexeme).mono fun _ t ht _ => ?_)
    have hK : ClassObject.FoundedAt t.store t.store.classes.size
        ⟨name.lexeme, none, Run.methodTable scope methods⟩ :=
      ⟨by rintro _ ⟨⟩, methodTable_within (Nat.lt_of_lt_of_le hscope ht.1.scopes) hm⟩
    refine .bind ((founding_newClass ht.2 hK).mono fun ref u hu href => ?_)
    exact founding_define hu.2 (v := .classRef ref) href name.lexeme
  | some superName =>
    rw [Run.declareClass_some]
    refine .bind ((founding_superclassNamed hs superName).mono ?_)
    rintro c _ - ⟨rfl, hc⟩
    refine .bind ((founding_define hs (v := .nil) trivial name.lexeme).mono fun _ t ht _ => ?_)
    have hclass : c.id < t.store.classes.size := Nat.lt_of_lt_of_le hc ht.1.classes
    -- the scope of the superclass
    let inner := (t.store.newScope (some scope)).1
    let σ := (t.store.newScope (some scope)).2.define inner Token.superName (.classRef c)
    have hgrows : t.store.Grows σ := (grows_newScope _ _).trans (grows_define _ _ _ _)
    have hσ : σ.Founded :=
      (ht.2.newScope (Nat.lt_of_lt_of_le hscope ht.1.scopes)).define (v := .classRef c) hclass _ _
    have hinner : inner < σ.scopes.size := by simp [σ, inner, Store.newScope, Store.define]
    refine .bind (Discipline.guards_of_done rfl ⟨hgrows, hσ⟩ ?_)
    have hK : ClassObject.FoundedAt σ σ.classes.size
        ⟨name.lexeme, some c.id, Run.methodTable inner methods⟩ :=
      ⟨by rintro _ ⟨⟩; exact hclass, methodTable_within hinner hm⟩
    refine .bind (Discipline.Guards.mono (founding_newClass ?_ hK) fun ref u hu href => ?_)
    · exact hσ
    · exact founding_define hu.2 (v := .classRef ref) href name.lexeme

theorem founded_params {σ : Store} (hs : σ.Founded) (i : ScopeId) {bound : List (Token × Value)}
    (h : ∀ b ∈ bound, b.2.Within σ) :
    σ.Grows (bound.foldl (fun σ (p, v) => σ.define i p.lexeme v) σ) ∧
      (bound.foldl (fun σ (p, v) => σ.define i p.lexeme v) σ).Founded := by
  induction bound generalizing σ with
  | nil => exact ⟨.refl σ, hs⟩
  | cons b bound ih =>
    have hg := grows_define σ i b.1.lexeme b.2
    obtain ⟨hgrows, hfounded⟩ := ih (hs.define (h b List.mem_cons_self) i b.1.lexeme)
      fun b' hb' => (h b' (List.mem_cons_of_mem _ hb')).mono hg
    exact ⟨hg.trans hgrows, hfounded⟩

theorem founding_enter (hs : s.store.Founded) {f : Closure} (hf : f.Within s.store) {args : List Value}
    (ha : ∀ v ∈ args, v.Within s.store) :
    founding.Guards (fun inner t => inner < t.store.scopes.size) (Run.enter f args) s := by
  have hnew := grows_newScope s.store (some f.scope)
  have hbound : ∀ b ∈ f.declaration.params.zip args, b.2.Within (s.store.newScope (some f.scope)).2 :=
    fun b hb => (ha b.2 (List.of_mem_zip hb).2).mono hnew
  obtain ⟨hgrows, hfounded⟩ := founded_params (hs.newScope hf.scope) s.store.scopes.size hbound
  refine Discipline.guards_of_done rfl ⟨hnew.trans hgrows, hfounded⟩ ?_
  exact Nat.lt_of_lt_of_le (by simp [Store.newScope]) hgrows.scopes

theorem founding_leave (hs : s.store.Founded) (f : Closure) {c : Completion}
    (hc : c.value.Within s.store) :
    founding.Guards (fun v t => v.Within t.store) (Run.leave f c) s := by
  unfold Run.leave
  split
  · refine .bind ((founding_lookup hs _).mono ?_)
    rintro receiver _ - ⟨rfl, hreceiver⟩
    split
    · split
      · exact founding_pure hs hreceiver
      · exact founding_fail hs _ _
    · exact founding_pure hs hreceiver
  · exact founding_pure hs hc

theorem founding_applyUnary (hs : s.store.Founded) (op : Token) (v : Value) :
    founding.Guards (fun v t => v.Within t.store) (Run.applyUnary op v) s := by
  unfold Run.applyUnary
  split
  · exact founding_pure hs trivial
  · exact founding_pure hs trivial
  · exact founding_fail hs _ _
  · exact founding_fail hs _ _

theorem founding_applyBinary (hs : s.store.Founded) (op : Token) (l r : Value) :
    founding.Guards (fun v t => v.Within t.store) (Run.applyBinary op l r) s := by
  unfold Run.applyBinary
  split
  · exact founding_pure hs trivial
  · exact founding_pure hs trivial
  · unfold Run.applyPlus
    split
    · exact founding_pure hs trivial
    · exact founding_pure hs trivial
    · exact founding_fail hs _ _
  · split
    · unfold Run.applyNumeric
      split
      case h_8 => exact founding_fail hs _ _
      all_goals exact founding_pure hs trivial
    · exact founding_fail hs _ _

end Moves

section Plans

variable {o : Options} {s : RunState} {n : Nat} {scope : ScopeId}

theorem assures_exec {st : Stmt} (hs : s.store.Founded) (hscope : scope < s.store.scopes.size)
    (hd : st.Data) :
    foundedResults.Assures (fun c t => c.value.Within t.store)
      ((Activity.exec (n + 1) scope st).plan o) s := by
  have hlater {t : RunState} (ht : founding.keeps s t) : scope < t.store.scopes.size :=
    Nat.lt_of_lt_of_le hscope ht.1.scopes
  cases hd with
  | expression value => exact ⟨⟨hscope, value⟩, fun _ _ _ _ => trivial⟩
  | print value =>
    exact ⟨⟨hscope, value⟩, fun v t ht _ => founding_quiet ht.2 (Run.quiet_print _) fun _ _ _ => trivial⟩
  | var initial =>
    exact ⟨⟨hscope, initial⟩, fun v t ht hv => (founding_define ht.2 hv _).mono fun _ _ _ _ => trivial⟩
  | block body =>
    refine Discipline.guards_of_done rfl ⟨grows_newScope _ _, hs.newScope hscope⟩ ?_
    exact ⟨⟨by simp [RunState.entering], body⟩, fun _ _ _ hc => hc⟩
  | ifThen condition yes =>
    refine ⟨⟨hscope, condition⟩, fun c t ht _ => ?_⟩
    dsimp only
    split
    · exact ⟨⟨hlater ht, yes⟩, fun _ _ _ hc => hc⟩
    · trivial
  | ifElse condition yes no =>
    refine ⟨⟨hscope, condition⟩, fun c t ht _ => ?_⟩
    dsimp only
    split
    · exact ⟨⟨hlater ht, yes⟩, fun _ _ _ hc => hc⟩
    · exact ⟨⟨hlater ht, no⟩, fun _ _ _ hc => hc⟩
  | loop condition body => exact ⟨⟨hscope, condition, body⟩, fun _ _ _ hc => hc⟩
  | @function f declaration =>
    have hf : Closure.Within s.store { declaration := f, scope, isInitializer := false } :=
      ⟨hscope, declaration⟩
    refine Discipline.guards_of_done rfl ⟨grows_newFunction _ _, hs.newFunction hf⟩ ?_
    refine Discipline.Guards.mono (founding_define ?_ ?_ _) fun _ _ _ _ => trivial
    · exact hs.newFunction hf
    · simp [Value.Within]
  | ret value => exact ⟨⟨hscope, value⟩, fun v t ht hv => hv⟩
  | classDecl methods =>
    exact (founding_declareClass hs hscope _ _ methods).mono fun _ _ _ _ => trivial

theorem assures_eval {e : Expr} (hs : s.store.Founded) (hscope : scope < s.store.scopes.size)
    (hd : e.Data) :
    foundedResults.Assures (fun v t => v.Within t.store) ((Activity.eval (n + 1) scope e).plan o) s := by
  have hlater {t : RunState} (ht : founding.keeps s t) : scope < t.store.scopes.size :=
    Nat.lt_of_lt_of_le hscope ht.1.scopes
  have hlookup (name : Token) :
      foundedResults.Assures (fun v t => v.Within t.store) (.just (Run.lookup scope name)) s := by
    refine (founding_lookup hs name).mono ?_
    rintro v _ - ⟨rfl, hv⟩
    exact hv
  cases hd with
  | literal h => exact Value.within_of_isData h
  | grouping inner => exact ⟨⟨hscope, inner⟩, fun _ _ _ hv => hv⟩
  | name => exact hlookup _
  | assign value =>
    refine ⟨⟨hscope, value⟩, fun v t ht hv => ?_⟩
    exact (founding_assign ht.2 _ hv).mono fun _ u hu _ => Value.Within.mono hv hu.1
  | unary operand => exact ⟨⟨hscope, operand⟩, fun v t ht _ => founding_applyUnary ht.2 _ v⟩
  | binary left right =>
    refine ⟨⟨hscope, left⟩, fun a t ht _ => ⟨⟨hlater ht, right⟩, fun b u hu _ => ?_⟩⟩
    exact founding_applyBinary hu.2 _ a b
  | logical left right =>
    refine ⟨⟨hscope, left⟩, fun a t ht ha => ?_⟩
    dsimp only
    split
    · exact ha
    · exact ⟨⟨hlater ht, right⟩, fun _ _ _ hv => hv⟩
  | call callee args =>
    refine ⟨⟨hscope, callee⟩, fun f t ht hf => ⟨⟨hlater ht, args⟩, fun vs u hu hvs => ?_⟩⟩
    exact ⟨⟨Value.Within.mono hf hu.1, hvs⟩, fun _ _ _ hv => hv⟩
  | get object => exact ⟨⟨hscope, object⟩, fun v t ht hv => founding_property ht.2 hv _⟩
  | set object value =>
    refine ⟨⟨hscope, object⟩, fun v t ht hv => (founding_fieldOwner ht.2 v _).mono ?_⟩
    rintro owner _ - rfl
    refine ⟨⟨hlater ht, value⟩, fun w u hu hw => ?_⟩
    refine Discipline.guards_of_done rfl ⟨grows_setField _ _ _ _, hu.2.setField hw _ _⟩ ?_
    exact Value.Within.mono hw (grows_setField _ _ _ _)
  | this => exact hlookup _
  | super => exact founding_superMethod hs _ _

theorem assures_call {callee : Value} {args : List Value} (hs : s.store.Founded) (hc : callee.Within s.store)
    (ha : ∀ v ∈ args, v.Within s.store) (paren : Token) :
    foundedResults.Assures (fun v t => v.Within t.store)
      ((Activity.call (n + 1) callee paren args).plan o) s := by
  refine (founding_read hs _).mono ?_
  rintro arity _ - ⟨rfl, -⟩
  cases arity with
  | none => exact founding_fail hs _ _
  | some arity =>
    dsimp only
    split
    · refine (founding_quiet hs (Run.quiet_guardDepth _ _) fun _ _ _ => trivial).mono fun _ t ht _ => ?_
      refine ⟨⟨?_, ?_⟩, fun _ _ _ hv => hv⟩
      · exact hc.mono ht.1
      · exact fun v hv => (ha v hv).mono ht.1
    · exact founding_fail hs _ _

theorem assures_apply {callee : Value} {args : List Value} (hs : s.store.Founded) (hc : callee.Within s.store)
    (ha : ∀ v ∈ args, v.Within s.store) :
    foundedResults.Assures (fun v t => v.Within t.store)
      ((Activity.apply (n + 1) callee args).plan o) s := by
  cases callee with
  | functionRef ref =>
    refine (founding_read hs _).mono ?_
    rintro f _ - ⟨rfl, hf⟩
    cases f with
    | some f => exact ⟨⟨hs.functions hf.symm, ha⟩, fun _ _ _ hv => hv⟩
    | none => trivial
  | classRef ref =>
    have hnew := grows_newInstance s.store ref
    refine Discipline.guards_of_done rfl ⟨hnew, hs.newInstance hc⟩ ?_
    refine Discipline.Guards.mono (founding_read ?_ _) ?_
    · exact hs.newInstance hc
    rintro m t - ⟨rfl, hm⟩
    have ht : (s.store.newInstance ref).2.Founded := hs.newInstance hc
    have hreceiver : (s.store.newInstance ref).1.id < (s.store.newInstance ref).2.instances.size := by
      simp [Store.newInstance]
    cases m with
    | some m =>
      have hbound := ht.bind (ht.method hm.symm) hreceiver
      have hgrows := grows_bind (s.store.newInstance ref).2 m (s.store.newInstance ref).1
      refine Discipline.guards_of_done rfl ⟨hgrows, hbound.1⟩ ?_
      refine ⟨⟨hbound.2, fun v hv => ((ha v hv).mono hnew).mono hgrows⟩, fun v u hu _ => ?_⟩
      exact Nat.lt_of_lt_of_le (Nat.lt_of_lt_of_le hreceiver hgrows.instances) hu.1.instances
    | none => exact hreceiver
  | _ => trivial

/-- Every plan keeps the store founded and yields values of the store that it ends in. -/
theorem founding_left (o : Options) : foundedResults.Left o := by
  intro a s hs hfits
  have hexhausted {α : Type} {goal : α → RunState → Prop} :
      foundedResults.Assures goal (.just (Run.exhausted : Run α)) s := Discipline.guards_exhausted
  cases a with
  | program n scope ss =>
    cases ss with
    | nil => trivial
    | cons first rest =>
      refine ⟨⟨hfits.1, hfits.2 first List.mem_cons_self⟩, fun c t ht _ => ?_⟩
      cases c with
      | normal =>
        have hrest : ∀ st ∈ rest, st.Data := fun st hst => hfits.2 st (List.mem_cons_of_mem _ hst)
        exact ⟨⟨Nat.lt_of_lt_of_le hfits.1 ht.1.scopes, hrest⟩, fun _ _ _ _ => trivial⟩
      | returned keyword v => exact founding_fail ht.2 _ _
  | exec n scope st =>
    cases n with
    | zero => exact hexhausted
    | succ n => exact assures_exec hs.2 hfits.1 hfits.2
  | execAll n scope ss =>
    cases n with
    | zero => exact hexhausted
    | succ n =>
      cases ss with
      | nil => trivial
      | cons first rest =>
        refine ⟨⟨hfits.1, hfits.2 first List.mem_cons_self⟩, fun c t ht hc => ?_⟩
        cases c with
        | normal =>
          have hrest : ∀ st ∈ rest, st.Data := fun st hst => hfits.2 st (List.mem_cons_of_mem _ hst)
          exact ⟨⟨Nat.lt_of_lt_of_le hfits.1 ht.1.scopes, hrest⟩, fun _ _ _ hc => hc⟩
        | returned keyword v => exact hc
  | execLoop n scope condition body =>
    cases n with
    | zero => exact hexhausted
    | succ n =>
      obtain ⟨hscope, hcondition, hbody⟩ := hfits
      refine ⟨⟨hscope, hcondition⟩, fun c t ht _ => ?_⟩
      dsimp only
      split
      · have ht' := Nat.lt_of_lt_of_le hscope ht.1.scopes
        refine ⟨⟨ht', hbody⟩, fun r u hu hr => ?_⟩
        cases r with
        | normal =>
          exact ⟨⟨Nat.lt_of_lt_of_le ht' hu.1.scopes, hcondition, hbody⟩, fun _ _ _ hc => hc⟩
        | returned keyword v => exact hr
      · trivial
  | eval n scope e =>
    cases n with
    | zero => exact hexhausted
    | succ n => exact assures_eval hs.2 hfits.1 hfits.2
  | evalOption n scope i =>
    cases n with
    | zero => exact hexhausted
    | succ n =>
      cases i with
      | none => trivial
      | some e => exact ⟨⟨hfits.1, hfits.2 e rfl⟩, fun _ _ _ hv => hv⟩
  | evalAll n scope es =>
    cases n with
    | zero => exact hexhausted
    | succ n =>
      cases es with
      | nil => exact fun v hv => absurd hv List.not_mem_nil
      | cons e es =>
        refine ⟨⟨hfits.1, hfits.2 e List.mem_cons_self⟩, fun v t ht hv => ?_⟩
        have hes : ∀ e ∈ es, e.Data := fun e he => hfits.2 e (List.mem_cons_of_mem _ he)
        refine ⟨⟨Nat.lt_of_lt_of_le hfits.1 ht.1.scopes, hes⟩, fun vs u hu hvs => ?_⟩
        intro w hw
        rcases List.mem_cons.1 hw with rfl | hw
        · exact Value.Within.mono hv hu.1
        · exact hvs w hw
  | call n callee paren args =>
    cases n with
    | zero => exact hexhausted
    | succ n => exact assures_call hs.2 hfits.1 hfits.2 paren
  | apply n callee args =>
    cases n with
    | zero => exact hexhausted
    | succ n => exact assures_apply hs.2 hfits.1 hfits.2
  | runBody n f args =>
    cases n with
    | zero => exact hexhausted
    | succ n =>
      refine (founding_enter hs.2 hfits.1 hfits.2).mono fun inner t ht hinner => ?_
      exact ⟨⟨hinner, hfits.1.data.body⟩, fun c u hu hc => founding_leave hu.2 f hc⟩

end Plans

end LoxLang
