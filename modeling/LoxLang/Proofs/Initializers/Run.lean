import LoxLang.Proofs.Resolution.Run
import LoxLang.Proofs.Store.Founded

/-!
# Functions that set up instances

A class marks the methods that set up its instances, by their name, and the mark stays on a method as it is
bound. Nothing else that runs is marked, and instances stay instances of their classes. Only what
makes a class, a function or an instance matters for this, and what does make one is a small part of
all that programs do.

Main statement: `initialization_kept`, that every plan keeps this discipline, along with that of resolution.
-/

namespace LoxLang

open Store

/-! ### Marks -/

namespace Store

variable {σ τ : Store} {f : Closure} {i : Ref}

/-- A function is a method that sets up instances of some class, bound to an instance. -/
def Initializes (σ : Store) (f : Closure) (i : Ref) : Prop :=
  ∃ k m, σ.ownMethod? k initializerName = some m ∧ f = { m with scope := f.scope } ∧
    σ.scopes[f.scope]? = some (.ofReceiver m.scope i)

/-- If a function is marked, it is bound to an instance to set it up. -/
def Explains (σ : Store) (f : Closure) : Prop := f.isInitializer = true → ∃ i, σ.Initializes f i

/-- Methods are marked by their name, and functions that are marked are bound methods. -/
structure Initialized (σ : Store) : Prop where
  methods : ∀ {k name m}, σ.ownMethod? k name = some m → m.isInitializer = (name == initializerName)
  functions : ∀ {j : Nat} {f : Closure}, σ.functions[j]? = some f → σ.Explains f

/-- Instances stay instances of their classes. -/
def Retains (σ τ : Store) : Prop := ∀ (j : Nat) (I : InstanceObject), σ.instances[j]? = some I →
  ∃ I', τ.instances[j]? = some I' ∧ I'.classId = I.classId

/-- What a store may turn into: instances stay instances of their classes, new classes have their methods
marked, and new functions are not marked without reason. -/
structure Marks (σ τ : Store) : Prop where
  instances : σ.Retains τ
  classes : ∀ {k : Nat} {K : ClassObject}, τ.classes[k]? = some K →
    σ.classes[k]? = some K ∨ ∃ scope methods, K.methods = Run.methodTable scope methods
  functions : σ.Initialized → ∀ {j : Nat} {f : Closure}, τ.functions[j]? = some f →
    σ.functions[j]? = some f ∨ τ.Explains f

theorem Retains.refl (σ : Store) : σ.Retains σ := fun _ I h => ⟨I, h, rfl⟩

theorem Retains.trans {υ : Store} (h : σ.Retains τ) (h' : τ.Retains υ) : σ.Retains υ := by
  intro j I hI
  obtain ⟨I', hI', hclass⟩ := h j I hI
  obtain ⟨I'', hI'', hclass'⟩ := h' j I' hI'
  exact ⟨I'', hI'', hclass'.trans hclass⟩

theorem ownMethod?_eq_some {k : Nat} {name : String} {m : Closure} :
    σ.ownMethod? k name = some m ↔ ∃ K, σ.classes[k]? = some K ∧ K.methods.get? name = some m := by
  rw [ownMethod?]
  constructor
  · intro h
    split at h
    · next K hK => exact ⟨K, hK, h⟩
    · cases h
  · rintro ⟨K, hK, h⟩
    rw [hK]
    exact h

theorem Initializes.mono (h : σ.Initializes f i) (hf : Fixes σ τ) : τ.Initializes f i := by
  obtain ⟨k, m, hm, heq, hscope⟩ := h
  obtain ⟨K, hK, hget⟩ := ownMethod?_eq_some.1 hm
  exact ⟨k, m, ownMethod?_eq_some.2 ⟨K, hf.classes hK, hget⟩, heq,
    hf.fixed hscope (Scope.not_plain_ofReceiver m.scope i)⟩

theorem Initializes.marked (h : σ.Initializes f i) (hσ : σ.Initialized) : f.isInitializer = true := by
  obtain ⟨k, m, hm, heq, -⟩ := h
  rw [heq]
  exact (hσ.methods hm).trans (beq_self_eq_true _)

theorem Explains.mono (h : σ.Explains f) (hf : Fixes σ τ) : τ.Explains f := by
  intro hmarked
  obtain ⟨i, hi⟩ := h hmarked
  exact ⟨i, hi.mono hf⟩

theorem Initialized.step (h : σ.Initialized) (hf : Fixes σ τ) (hm : Marks σ τ) : τ.Initialized where
  methods {k name m} hown := by
    obtain ⟨K, hK, hget⟩ := ownMethod?_eq_some.1 hown
    rcases hm.classes hK with hold | ⟨scope, methods, htable⟩
    · exact h.methods (ownMethod?_eq_some.2 ⟨K, hold, hget⟩)
    · rw [htable] at hget
      obtain ⟨g, -, -, rfl⟩ := exists_of_get?_methodTable hget
      rfl
  functions hget := by
    rcases hm.functions h hget with hold | hnew
    · exact (h.functions hold).mono hf
    · exact hnew

/-- A store that differs in its scopes alone. -/
theorem Marks.of_eq (hi : τ.instances = σ.instances) (hc : τ.classes = σ.classes)
    (hf : τ.functions = σ.functions) : Marks σ τ where
  instances _ I h := ⟨I, hi ▸ h, rfl⟩
  classes h := .inl (hc ▸ h)
  functions _ _ _ h := .inl (hf ▸ h)

theorem Marks.refl (σ : Store) : Marks σ σ := .of_eq rfl rfl rfl

theorem marks_newClass {scope : ScopeId} {methods : List FunctionDecl} {K : ClassObject}
    (hi : τ.instances = σ.instances) (hc : τ.classes = σ.classes.push K) (hf : τ.functions = σ.functions)
    (hK : K.methods = Run.methodTable scope methods) : Marks σ τ where
  instances _ I h := ⟨I, hi ▸ h, rfl⟩
  classes h := by
    rw [hc] at h
    rcases getElem?_push_cases h with hold | ⟨-, rfl⟩
    · exact .inl hold
    · exact .inr ⟨scope, methods, hK⟩
  functions _ _ _ h := .inl (hf ▸ h)

theorem marks_newFunction (σ : Store) (h : f.isInitializer = false) : Marks σ (σ.newFunction f).2 where
  instances _ I h := ⟨I, h, rfl⟩
  classes h := .inl h
  functions _ _ g hg := by
    refine (getElem?_push_cases hg).imp_right ?_
    rintro ⟨-, rfl⟩ hmarked
    rw [h] at hmarked
    cases hmarked

/-- Binding a method keeps its mark. -/
theorem explains_bind {c : Nat} {name : String} {m : Closure} (hσ : σ.Initialized)
    (hm : σ.method? c name = some m) (i : Ref) : (σ.bind m i).2.Explains (σ.bind m i).1 := by
  intro hmarked
  obtain ⟨k, K, hK, hget⟩ := exists_class_of_method? hm
  have hown : σ.ownMethod? k name = some m := ownMethod?_eq_some.2 ⟨K, hK, hget⟩
  have hname : name = initializerName := eq_of_beq ((hσ.methods hown).symm.trans hmarked)
  subst hname
  refine ⟨i, k, m, hown, rfl, ?_⟩
  have hscope : (σ.bind m i).1.scope = σ.scopes.size := rfl
  rw [hscope, scopes_bind, Array.getElem?_push]
  exact if_pos rfl

theorem marks_bindMethod {c : Nat} {name : String} {m : Closure} (hm : σ.method? c name = some m) (i : Ref) :
    Marks σ ((σ.bind m i).2.newFunction (σ.bind m i).1).2 where
  instances _ I h := ⟨I, h, rfl⟩
  classes h := .inl h
  functions hσ _ g hg := by
    refine (getElem?_push_cases hg).imp_right ?_
    rintro ⟨-, rfl⟩
    exact (explains_bind hσ hm i).mono (.of_eq rfl rfl)

theorem marks_newInstance (σ : Store) (r : Ref) : Marks σ (σ.newInstance r).2 where
  instances j I h := by
    refine ⟨I, ?_, rfl⟩
    rw [newInstance, Array.getElem?_push, if_neg (Nat.ne_of_lt (Array.getElem?_eq_some_iff.1 h).1)]
    exact h
  classes h := .inl h
  functions _ _ _ h := .inl h

theorem marks_setField (σ : Store) (r : Ref) (name : String) (v : Value) :
    Marks σ (σ.setField r name v) where
  instances j I h := by
    rw [setField, Array.getElem?_modify]
    split
    · exact ⟨{ I with fields := I.fields.put name v }, by rw [h]; rfl, rfl⟩
    · exact ⟨I, h, rfl⟩
  classes h := .inl h
  functions _ _ _ h := .inl h

end Store

/-! ### Computations -/

/-- A computation ends with a store that the store before may turn into, and does not complain about what an
initializer returns. -/
def Outcome.Tame (σ : Store) : Outcome α → Prop
  | .done _ t => Marks σ t.store
  | .failed e t => Marks σ t.store ∧ e.fault ≠ .initializerReturn
  | .exhausted => True

namespace Run

/-- However a computation ends, it leaves a store that the store before may turn into. -/
structure Marking (m : Run α) : Prop where
  done : ∀ {s r t}, m s = .done r t → Marks s.store t.store
  failed : ∀ {s e t}, m s = .failed e t → Marks s.store t.store

/-- A computation ends as it should, whatever state it starts in. -/
def Tame (m : Run α) : Prop := ∀ s, (m s).Tame s.store

theorem Quiet.marking {m : Run α} (h : m.Quiet) : m.Marking where
  done hs := .of_eq (by rw [h.done hs]) (by rw [h.done hs]) (by rw [h.done hs])
  failed hs := .of_eq (by rw [h.failed hs]) (by rw [h.failed hs]) (by rw [h.failed hs])

theorem Tame.marking {m : Run α} (h : m.Tame) : m.Marking where
  done {s r t} hs := by
    have := h s
    rw [hs] at this
    exact this
  failed {s e t} hs := by
    have := h s
    rw [hs] at this
    exact this.1

theorem Tame.fault_ne {m : Run α} (h : m.Tame) {s t : RunState} {e : RuntimeError} (hs : m s = .failed e t) :
    e.fault ≠ .initializerReturn := by
  have := h s
  rw [hs] at this
  exact this.2

@[simp] theorem tame_pure (a : α) : (pure a : Run α).Tame := fun _ => .refl _

@[simp] theorem tame_exhausted : (exhausted : Run α).Tame := fun _ => trivial

@[simp] theorem tame_fail (token : Token) {fault : Fault} (h : fault ≠ .initializerReturn) :
    (fail token fault : Run α).Tame := fun _ => ⟨.refl _, h⟩

@[simp] theorem tame_read (f : Store → α) : (read f).Tame := fun _ => .refl _

@[simp] theorem tame_print (text : String) : (print text).Tame := fun _ => .refl _

theorem tame_make {f : Store → α × Store} (h : ∀ σ, Marks σ (f σ).2) : (make f).Tame := fun s => h s.store

theorem tame_change {f : Store → Store} (h : ∀ σ, Marks σ (f σ)) : (change f).Tame := fun s => h s.store

@[simp] theorem tame_define (scope : ScopeId) (name : String) (v : Value) :
    (change (·.define scope name v)).Tame :=
  tame_change fun _ => .of_eq rfl rfl rfl

@[simp] theorem tame_newScope (parent : Option ScopeId) : (make (·.newScope parent)).Tame :=
  tame_make fun _ => .of_eq rfl rfl rfl

@[simp] theorem tame_newFunction (declaration : FunctionDecl) (scope : ScopeId) :
    (make (·.newFunction { declaration, scope, isInitializer := false })).Tame :=
  tame_make fun σ => marks_newFunction σ rfl

@[simp] theorem tame_newInstance (r : Ref) : (make (·.newInstance r)).Tame :=
  tame_make fun σ => marks_newInstance σ r

@[simp] theorem tame_bind (m : Closure) (i : Ref) : (make (·.bind m i)).Tame :=
  tame_make fun _ => .of_eq rfl rfl rfl

@[simp] theorem tame_setField (i : Ref) (name : String) (v : Value) : (change (·.setField i name v)).Tame :=
  tame_change fun σ => marks_setField σ i name v

@[simp] theorem tame_lookup (scope : ScopeId) (name : Token) : (lookup scope name).Tame := by
  intro s
  rw [lookup]
  split
  · exact .refl _
  · exact ⟨.refl _, by simp⟩

@[simp] theorem tame_assign (scope : ScopeId) (name : Token) (v : Value) : (assign scope name v).Tame := by
  intro s
  rw [assign]
  split
  · exact .of_eq rfl rfl rfl
  · exact ⟨.refl _, by simp⟩

@[simp] theorem tame_guardDepth (o : Options) (paren : Token) : (guardDepth o paren).Tame := by
  intro s
  rw [guardDepth]
  split
  · exact .refl _
  · exact ⟨.refl _, by simp⟩

@[simp] theorem tame_fieldOwner (object : Value) (name : Token) : (fieldOwner object name).Tame := by
  unfold fieldOwner
  split
  · exact tame_pure _
  · exact tame_fail _ nofun

@[simp] theorem tame_applyUnary (op : Token) (v : Value) : (applyUnary op v).Tame := by
  unfold applyUnary
  split
  · exact tame_pure _
  · exact tame_pure _
  · exact tame_fail _ nofun
  · exact tame_fail _ nofun

@[simp] theorem tame_applyBinary (op : Token) (l r : Value) : (applyBinary op l r).Tame := by
  unfold applyBinary
  split
  · exact tame_pure _
  · exact tame_pure _
  · unfold applyPlus
    split
    · exact tame_pure _
    · exact tame_pure _
    · exact tame_fail _ nofun
  · split
    · unfold applyNumeric
      split
      case h_8 => exact tame_fail _ nofun
      all_goals exact tame_pure _
    · exact tame_fail _ nofun

@[simp] theorem tame_property (object : Value) (name : Token) : (property object name).Tame := by
  intro s
  unfold property
  split
  · next receiver =>
    rw [run_bind, read]
    dsimp only
    cases s.store.field? receiver name.lexeme with
    | some v => exact .refl _
    | none =>
      dsimp only
      rw [run_bind, read]
      dsimp only
      cases hm : s.store.methodOf? receiver name.lexeme with
      | some m =>
        rw [methodOf?] at hm
        split at hm
        · exact marks_bindMethod hm receiver
        · cases hm
      | none => exact ⟨.refl _, by simp⟩
  · exact ⟨.refl _, by simp⟩

/-- Looking a name up makes no difference to what comes after it. -/
theorem tame_lookup_bind {f : Value → Run α} {s : RunState} (h : ∀ v, (f v s).Tame s.store) (scope : ScopeId)
    (name : Token) : ((lookup scope name >>= f) s).Tame s.store := by
  rw [run_bind, lookup]
  cases s.store.lookup? scope name.lexeme with
  | some v => exact h v
  | none => exact ⟨.refl _, by simp⟩

@[simp] theorem tame_superMethod (scope : ScopeId) (keyword method : Token) :
    (superMethod scope keyword method).Tame := by
  intro s
  rw [superMethod]
  refine tame_lookup_bind (fun v => ?_) scope keyword
  split
  · next c =>
    refine tame_lookup_bind (fun v => ?_) scope Token.receiver
    split
    · next i =>
      rw [run_bind, read]
      dsimp only
      cases hm : s.store.method? c.id method.lexeme with
      | some m => exact marks_bindMethod hm i
      | none => exact ⟨.refl _, by simp⟩
    · exact ⟨.refl _, by simp⟩
  · exact ⟨.refl _, by simp⟩

@[simp] theorem tame_declareClass (scope : ScopeId) (name : Token) (superclass : Option Token)
    (methods : List FunctionDecl) : (declareClass scope name superclass methods).Tame := by
  intro s
  cases superclass with
  | none => exact marks_newClass rfl rfl rfl rfl
  | some superName =>
    rw [declareClass_some, superclassNamed, bind_assoc]
    refine tame_lookup_bind (fun v => ?_) scope superName
    cases v with
    | classRef c => exact marks_newClass rfl rfl rfl rfl
    | _ => exact ⟨.refl _, by simp⟩

/-- Binding parameters changes scopes alone. -/
theorem marks_params (bound : List (Token × Value)) (i : ScopeId) {σ τ : Store}
    (hi : τ.instances = σ.instances) (hc : τ.classes = σ.classes) (hf : τ.functions = σ.functions) :
    Marks σ (bound.foldl (fun σ (p, v) => σ.define i p.lexeme v) τ) := by
  induction bound generalizing τ with
  | nil => exact .of_eq hi hc hf
  | cons b bound ih => exact ih hi hc hf

@[simp] theorem tame_enter (f : Closure) (args : List Value) : (enter f args).Tame :=
  tame_make fun _ => marks_params _ _ rfl rfl rfl

end Run

/-! ### Plans -/

namespace Activity

/-- The running of a body. -/
def isBody : Activity → Bool
  | .runBody _ _ _ => true
  | _ => false

/-- The application of a value. -/
def isApply : Activity → Bool
  | .apply _ _ _ => true
  | _ => false

open Run

/-- All that programs do is as it should be, the ends of bodies apart. -/
theorem plan_tame (o : Options) (a : Activity) (h : a.isBody = false) :
    (a.plan o).All (fun m => m.Tame) (fun _ _ => True) := by
  unfold plan
  split <;> try simp [Plan.All]
  -- what is left branches on a result, or is the running of a body
  case h_22 =>
    intro c
    split
    · exact ⟨trivial, fun c => by cases c <;> simp [Plan.All]⟩
    · trivial
  case h_43 => cases h
  all_goals
    intros
    repeat' split
    all_goals simp [Plan.All]

/-- Bodies are begun by applications only. -/
theorem plan_isBody (o : Options) (a : Activity) (h : a.isApply = false) :
    (a.plan o).All (fun _ => True) (fun _ b => b.isBody = false) := by
  unfold plan
  split <;> try simp [Plan.All, isBody]
  -- what is left branches on a result, or is an application
  case h_22 =>
    intro c
    split
    · exact ⟨rfl, fun c => by cases c <;> simp [Plan.All]⟩
    · trivial
  case h_40 => cases h
  case h_41 => cases h
  all_goals
    intros
    repeat' split
    all_goals simp [Plan.All]

/-- Whatever programs do, the store is one that the store before may turn into. -/
theorem plan_marking (o : Options) (a : Activity) :
    (a.plan o).All (fun m => m.Marking) (fun _ _ => True) := by
  cases hbody : a.isBody with
  | false => exact (plan_tame o a hbody).mono (fun _ h => h.marking) fun _ _ h => h
  | true =>
    cases a with
    | runBody n f args =>
      cases n with
      | zero => exact ⟨tame_exhausted.marking, fun _ => trivial⟩
      | succ n =>
        refine ⟨(tame_enter f args).marking, fun scope => ⟨trivial, fun c => ?_⟩⟩
        exact ⟨(quiet_leave f c).marking, fun _ => trivial⟩
    | _ => cases hbody

end Activity

/-! ### The discipline -/

/-- The discipline of resolution, and what sets up instances is marked. -/
def initialization : Discipline where
  keeps s t := resolution.keeps s t ∧ s.store.Retains t.store ∧ t.store.Initialized
  fits s a := resolution.fits s a ∧ ∀ n f args, a = .runBody n f args → s.store.Explains f
  yields := resolution.yields
  proper := resolution.proper
  keeps_self h := ⟨resolution.keeps_self h.1, .refl _, h.2.2⟩
  keeps_trans h h' := ⟨resolution.keeps_trans h.1 h'.1, h.2.1.trans h'.2.1, h'.2.2⟩
  keeps_entering call h := ⟨resolution.keeps_entering call h.1, by cases call <;> exact h.2⟩
  keeps_leaving call h := ⟨resolution.keeps_leaving call h.1, by cases call <;> exact h.2⟩
  fits_entering call h := ⟨resolution.fits_entering call h.1, by cases call <;> exact h.2⟩
  proper_same := resolution.proper_same

section Plans

variable {o : Options} {s t : RunState} {goal : α → Prop}

/-- What resolution makes sure of goes together with marks. -/
theorem initialization_step {m : Run β} {next : β → Plan α} (hm : m.Marking) (hi : s.store.Initialized)
    (h : resolution.Guards (fun b t => resolution.Safe goal (next b) t) m s)
    (hnext : ∀ b t, m s = .done b t → t.store.Initialized → resolution.Safe goal (next b) t →
      initialization.Safe goal (next b) t) : initialization.Safe goal (.move m next) s := by
  constructor
  · intro b t hdone
    obtain ⟨hk, hsafe⟩ := h.done hdone
    have hmarks := hm.done hdone
    have ht := hi.step hk.2.1 hmarks
    exact ⟨⟨hk, hmarks.instances, ht⟩, hnext b t hdone ht hsafe⟩
  · intro e t hfailed
    obtain ⟨hk, hp⟩ := h.failed hfailed
    have hmarks := hm.failed hfailed
    exact ⟨⟨hk, hmarks.instances, hi.step hk.2.1 hmarks⟩, hp⟩

/-- A plan that begins no body keeps the discipline. -/
theorem initialization_safe {p : Plan α} (hi : s.store.Initialized) (h : resolution.Safe goal p s)
    (hp : p.All (fun m => m.Marking) (fun _ b => b.isBody = false)) : initialization.Safe goal p s := by
  induction p generalizing s with
  | done r => exact h
  | move m next ih => exact initialization_step hp.1 hi h fun b t _ ht hsafe => ih b ht hsafe (hp.2 b)
  | begin call a next ih =>
    refine ⟨⟨h.1, ?_⟩, fun b t hk hy => ih b hk.2.2 (h.2 b t hk.1 hy) (hp.2 b)⟩
    rintro n f args rfl
    cases hp.1

/-- Applying a function runs its body, and applying a class that of an initializer bound to a new instance. -/
theorem initialization_apply {n : Nat} {callee : Value} {args : List Value} {goal : Value → Prop}
    (hi : s.store.Initialized)
    (h : resolution.Safe goal ((Activity.apply (n + 1) callee args).plan o) s) :
    initialization.Safe goal ((Activity.apply (n + 1) callee args).plan o) s := by
  cases callee with
  | functionRef ref =>
    refine initialization_step (Run.tame_read _).marking hi h fun f t hf ht hsafe => ?_
    cases hf
    dsimp only at hsafe ⊢
    cases hget : s.store.functions[ref.id]? with
    | none =>
      rw [hget] at hsafe
      exact hsafe
    | some f =>
      rw [hget] at hsafe
      refine ⟨⟨hsafe.1, ?_⟩, fun v u hk hy => hsafe.2 v u hk.1 hy⟩
      rintro _ _ _ ⟨⟩
      exact hi.functions hget
  | classRef ref =>
    refine initialization_step (Run.tame_newInstance _).marking hi h fun receiver t hr ht hsafe => ?_
    refine initialization_step (Run.tame_read _).marking ht hsafe fun initializer u hu _ hsafe => ?_
    cases hu
    dsimp only at hsafe ⊢
    cases hm : t.store.method? ref.id initializerName with
    | none =>
      rw [hm] at hsafe
      exact hsafe
    | some m =>
      rw [hm] at hsafe
      refine initialization_step (Run.tame_bind m receiver).marking ht hsafe fun bound u hb hu hsafe => ?_
      cases hb
      refine ⟨⟨hsafe.1, ?_⟩, fun v u hk hy => hsafe.2 v u hk.1 hy⟩
      rintro _ _ _ ⟨⟩
      exact explains_bind ht hm receiver
  | _ => exact h

end Plans

theorem initialization_kept (o : Options) : initialization.Kept o := by
  intro a s hs hfits
  have hsafe := resolution_kept o a s hs.1 hfits.1
  cases happly : a.isApply with
  | false =>
    have hmarking := (a.plan_marking o).and (a.plan_isBody o happly)
    exact initialization_safe hs.2.2 hsafe (hmarking.mono (fun _ h => h.1) fun _ _ h => h.2)
  | true =>
    cases a with
    | apply n callee args =>
      cases n with
      | zero => exact Discipline.guards_exhausted
      | succ n => exact initialization_apply hs.2.2 hsafe
    | _ => cases happly

end LoxLang
