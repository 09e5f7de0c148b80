import LoxLang.Proofs.Parse.Data
import LoxLang.Proofs.Placement.Store

/-!
# Stores in which every way leads back

In a store everything leads to what is there already: a scope to an older scope around it, a class to an
older superclass, and functions, methods, instances, variables and fields to scopes and objects that
exist. So whoever follows links from one scope or class to the next comes to an end, even where nobody
checks that the links lead back.

Main statements: `Founded`, with a lemma for each operation of a store, and `Founded.search_lookup`,
`Founded.search_holder` and `Founded.search_method`, that the three searches, as loops that follow
links wherever they lead, end with the answers of the store.
-/

namespace LoxLang

/-! ### What is in a store -/

/-- A value that leads to an object of the store, if it leads to any. -/
def Value.Within (σ : Store) : Value → Prop
  | .nil | .bool _ | .number _ | .string _ => True
  | .functionRef r => r.id < σ.functions.size
  | .classRef r => r.id < σ.classes.size
  | .instanceRef r => r.id < σ.instances.size

/-- A function whose scope is in the store. -/
structure Closure.Within (σ : Store) (f : Closure) : Prop where
  scope : f.scope < σ.scopes.size
  data : f.declaration.Data

/-- The `i`-th scope lies in an older one, if in any, and its variables have values of the store. -/
structure Scope.FoundedAt (σ : Store) (i : ScopeId) (sc : Scope) : Prop where
  parent : ∀ {p}, sc.parent = some p → p < i
  bindings : ∀ {name v}, sc.bindings.get? name = some v → v.Within σ

/-- The `k`-th class has an older superclass, if it has any, and methods of the store. -/
structure ClassObject.FoundedAt (σ : Store) (k : Nat) (K : ClassObject) : Prop where
  superclass : ∀ {p}, K.superclass = some p → p < k
  methods : ∀ {name m}, K.methods.get? name = some m → m.Within σ

/-- An instance whose class is in the store, and with it the values of the fields. -/
structure InstanceObject.Within (σ : Store) (I : InstanceObject) : Prop where
  classId : I.classId < σ.classes.size
  fields : ∀ {name v}, I.fields.get? name = some v → v.Within σ

/-- Every link leads to something older, and everything else to something that is there. -/
structure Store.Founded (σ : Store) : Prop where
  scopes : ∀ {i : ScopeId} {sc}, σ.scopes[i]? = some sc → sc.FoundedAt σ i
  functions : ∀ {k : Nat} {f}, σ.functions[k]? = some f → f.Within σ
  classes : ∀ {k : Nat} {K}, σ.classes[k]? = some K → K.FoundedAt σ k
  instances : ∀ {k : Nat} {I}, σ.instances[k]? = some I → I.Within σ

/-- Nothing is lost from a store. -/
structure Store.Grows (σ τ : Store) : Prop where
  scopes : σ.scopes.size ≤ τ.scopes.size
  functions : σ.functions.size ≤ τ.functions.size
  classes : σ.classes.size ≤ τ.classes.size
  instances : σ.instances.size ≤ τ.instances.size

variable {σ τ υ : Store}

namespace Store

theorem Grows.refl (σ : Store) : Grows σ σ := ⟨Nat.le_refl _, Nat.le_refl _, Nat.le_refl _, Nat.le_refl _⟩

theorem Grows.trans (h : Grows σ τ) (h' : Grows τ υ) : Grows σ υ :=
  ⟨Nat.le_trans h.scopes h'.scopes, Nat.le_trans h.functions h'.functions,
    Nat.le_trans h.classes h'.classes, Nat.le_trans h.instances h'.instances⟩

end Store

theorem Value.within_of_isData {v : Value} (h : v.isData = true) : v.Within σ := by
  cases v <;> trivial

theorem Value.Within.mono {v : Value} (h : v.Within σ) (hg : σ.Grows τ) : v.Within τ := by
  cases v with
  | functionRef r => exact Nat.lt_of_lt_of_le h hg.functions
  | classRef r => exact Nat.lt_of_lt_of_le h hg.classes
  | instanceRef r => exact Nat.lt_of_lt_of_le h hg.instances
  | _ => trivial

theorem Closure.Within.mono {f : Closure} (h : f.Within σ) (hg : σ.Grows τ) : f.Within τ :=
  ⟨Nat.lt_of_lt_of_le h.scope hg.scopes, h.data⟩

theorem Scope.FoundedAt.mono {i : ScopeId} {sc : Scope} (h : sc.FoundedAt σ i) (hg : σ.Grows τ) :
    sc.FoundedAt τ i :=
  ⟨h.parent, fun hv => (h.bindings hv).mono hg⟩

theorem ClassObject.FoundedAt.mono {k : Nat} {K : ClassObject} (h : K.FoundedAt σ k) (hg : σ.Grows τ) :
    K.FoundedAt τ k :=
  ⟨h.superclass, fun hm => (h.methods hm).mono hg⟩

theorem InstanceObject.Within.mono {I : InstanceObject} (h : I.Within σ) (hg : σ.Grows τ) :
    I.Within τ :=
  ⟨Nat.lt_of_lt_of_le h.classId hg.classes, fun hv => (h.fields hv).mono hg⟩

theorem Bindings.get?_put_cases {b : Bindings α} {name other : String} {a a' : α}
    (h : (b.put name a).get? other = some a') : a' = a ∨ b.get? other = some a' := by
  by_cases hname : other = name
  · subst hname
    rw [get?_put_self] at h
    cases h
    exact .inl rfl
  · rw [b.get?_put_of_ne hname] at h
    exact .inr h

theorem getElem?_push_cases {as : Array α} {a b : α} {i : Nat} (h : (as.push a)[i]? = some b) :
    as[i]? = some b ∨ i = as.size ∧ b = a := by
  rw [Array.getElem?_push] at h
  split at h
  · next hi =>
    cases h
    exact .inr ⟨hi, rfl⟩
  · exact .inl h

namespace Store

variable {i : ScopeId} {name : String} {v : Value}

/-! ### Operations -/

/-- A store stays founded if it grows and all that is new or changed is founded. -/
theorem Founded.step (h : σ.Founded) (hg : Grows σ τ)
    (hscopes : ∀ {i : ScopeId} {sc}, τ.scopes[i]? = some sc →
      σ.scopes[i]? = some sc ∨ sc.FoundedAt τ i)
    (hfunctions : ∀ {k : Nat} {f}, τ.functions[k]? = some f → σ.functions[k]? = some f ∨ f.Within τ)
    (hclasses : ∀ {k : Nat} {K}, τ.classes[k]? = some K → σ.classes[k]? = some K ∨ K.FoundedAt τ k)
    (hinstances : ∀ {k : Nat} {I}, τ.instances[k]? = some I → σ.instances[k]? = some I ∨ I.Within τ) :
    τ.Founded where
  scopes hi := (hscopes hi).elim (fun hi => (h.scopes hi).mono hg) id
  functions hk := (hfunctions hk).elim (fun hk => (h.functions hk).mono hg) id
  classes hk := (hclasses hk).elim (fun hk => (h.classes hk).mono hg) id
  instances hk := (hinstances hk).elim (fun hk => (h.instances hk).mono hg) id

theorem grows_newScope (σ : Store) (parent : Option ScopeId) : Grows σ (σ.newScope parent).2 :=
  ⟨by simp [newScope], Nat.le_refl _, Nat.le_refl _, Nat.le_refl _⟩

theorem Founded.newScope (h : σ.Founded) (hi : i < σ.scopes.size) :
    (σ.newScope (some i)).2.Founded := by
  refine h.step (grows_newScope σ _) (fun {j sc} hj => ?_) .inl .inl .inl
  refine (getElem?_push_cases hj).imp_right ?_
  rintro ⟨rfl, rfl⟩
  exact ⟨fun hp => Option.some.inj hp ▸ hi, fun hv => by simp [Bindings.get?] at hv⟩

theorem grows_define (σ : Store) (i : ScopeId) (name : String) (v : Value) :
    Grows σ (σ.define i name v) :=
  ⟨by simp [define], Nat.le_refl _, Nat.le_refl _, Nat.le_refl _⟩

theorem Founded.define (h : σ.Founded) (hv : v.Within σ) (i : ScopeId) (name : String) :
    (σ.define i name v).Founded := by
  have hg := grows_define σ i name v
  refine h.step hg (fun {j sc} hj => ?_) .inl .inl .inl
  rw [scopes_define] at hj
  obtain ⟨sc, hsc, rfl⟩ := Option.map_eq_some_iff.1 hj
  split
  · refine .inr ⟨(h.scopes hsc).parent, fun hget => ?_⟩
    rcases Bindings.get?_put_cases hget with rfl | hget
    · exact hv.mono hg
    · exact ((h.scopes hsc).bindings hget).mono hg
  · exact .inl hsc

theorem grows_newFunction (σ : Store) (f : Closure) : Grows σ (σ.newFunction f).2 :=
  ⟨Nat.le_refl _, by simp [newFunction], Nat.le_refl _, Nat.le_refl _⟩

theorem Founded.newFunction (h : σ.Founded) {f : Closure} (hf : f.Within σ) :
    (σ.newFunction f).2.Founded := by
  have hg := grows_newFunction σ f
  refine h.step hg .inl (fun {k g} hk => ?_) .inl .inl
  refine (getElem?_push_cases hk).imp_right ?_
  rintro ⟨-, rfl⟩
  exact hf.mono hg

theorem grows_newClass (σ : Store) (K : ClassObject) : Grows σ (σ.newClass K).2 :=
  ⟨Nat.le_refl _, Nat.le_refl _, by simp [newClass], Nat.le_refl _⟩

theorem Founded.newClass (h : σ.Founded) {K : ClassObject} (hK : K.FoundedAt σ σ.classes.size) :
    (σ.newClass K).2.Founded := by
  have hg := grows_newClass σ K
  refine h.step hg .inl .inl (fun {k L} hk => ?_) .inl
  refine (getElem?_push_cases hk).imp_right ?_
  rintro ⟨rfl, rfl⟩
  exact hK.mono hg

theorem grows_newInstance (σ : Store) (c : Ref) : Grows σ (σ.newInstance c).2 :=
  ⟨Nat.le_refl _, Nat.le_refl _, Nat.le_refl _, by simp [newInstance]⟩

theorem Founded.newInstance (h : σ.Founded) {c : Ref} (hc : c.id < σ.classes.size) :
    (σ.newInstance c).2.Founded := by
  refine h.step (grows_newInstance σ c) .inl .inl .inl (fun {k I} hk => ?_)
  refine (getElem?_push_cases hk).imp_right ?_
  rintro ⟨-, rfl⟩
  exact ⟨hc, fun hv => by simp [Bindings.get?] at hv⟩

theorem grows_setField (σ : Store) (r : Ref) (name : String) (v : Value) :
    Grows σ (σ.setField r name v) :=
  ⟨Nat.le_refl _, Nat.le_refl _, Nat.le_refl _, by simp [setField]⟩

theorem Founded.setField (h : σ.Founded) (hv : v.Within σ) (r : Ref) (name : String) :
    (σ.setField r name v).Founded := by
  have hg := grows_setField σ r name v
  refine h.step hg .inl .inl .inl (fun {k I} hk => ?_)
  rw [Store.setField, Array.getElem?_modify] at hk
  split at hk
  · obtain ⟨I, hI, rfl⟩ := Option.map_eq_some_iff.1 hk
    refine .inr ⟨Nat.lt_of_lt_of_le (h.instances hI).classId hg.classes, fun hget => ?_⟩
    rcases Bindings.get?_put_cases hget with rfl | hget
    · exact hv.mono hg
    · exact ((h.instances hI).fields hget).mono hg
  · exact .inl hk

theorem grows_bind (σ : Store) (m : Closure) (r : Ref) : Grows σ (σ.bind m r).2 :=
  (grows_newScope σ (some m.scope)).trans (grows_define _ _ _ _)

theorem Founded.bind (h : σ.Founded) {m : Closure} (hm : m.Within σ) {r : Ref}
    (hr : r.id < σ.instances.size) :
    (σ.bind m r).2.Founded ∧ (σ.bind m r).1.Within (σ.bind m r).2 := by
  constructor
  · exact (h.newScope hm.scope).define (v := .instanceRef r) hr _ _
  · exact ⟨by simp [Store.bind, Store.newScope, Store.define], hm.data⟩

/-! ### Asking -/

theorem Founded.lookup (h : σ.Founded) (hv : σ.lookup? i name = some v) : v.Within σ := by
  rw [lookup?] at hv
  split at hv
  · next j _ =>
    rw [own?] at hv
    split at hv
    · next sc hsc => exact (h.scopes hsc).bindings hv
    · cases hv
  · cases hv

theorem Founded.field (h : σ.Founded) {r : Ref} (hv : σ.field? r name = some v) : v.Within σ := by
  rw [field?] at hv
  split at hv
  · next I hI => exact (h.instances hI).fields hv
  · cases hv

theorem Founded.method (h : σ.Founded) {c : Nat} {m : Closure} (hm : σ.method? c name = some m) :
    m.Within σ := by
  obtain ⟨k, K, hK, hm⟩ := exists_class_of_method? hm
  exact (h.classes hK).methods hm

theorem Founded.methodOf (h : σ.Founded) {r : Ref} {m : Closure} (hm : σ.methodOf? r name = some m) :
    m.Within σ := by
  rw [methodOf?] at hm
  split at hm
  · exact h.method hm
  · cases hm

/-! ### Searches that follow links wherever they lead -/

/-- The loop of all searches: from one number on to the next until one has what is wanted or there is no
next one. If that takes more rounds than allowed there is no answer. -/
def search (found : Nat → Option α) (next : Nat → Option Nat) : Nat → Option Nat → Option (Option α)
  | _, none => some none
  | 0, some _ => none
  | rounds + 1, some i =>
    match found i with
    | some a => some (some a)
    | none => search found next rounds (next i)

/-- The scope around a scope, wherever it is. -/
def enclosing? (σ : Store) (i : ScopeId) : Option ScopeId := (σ.scopes[i]?).bind (·.parent)

/-- The superclass of a class, wherever it is. -/
def inherits? (σ : Store) (c : Nat) : Option Nat := (σ.classes[c]?).bind (·.superclass)

theorem search_of_none {found : Nat → Option α} {next : Nat → Option Nat} (rounds : Nat) :
    search found next rounds none = some none := by
  cases rounds <;> rfl

/-- Where the next number is always a smaller one, a search that starts at a number ends within one round
for each number up to that, with any answer that is the same before and after each round. -/
theorem search_ends {found : Nat → Option α} {next : Nat → Option Nat} (answer : Nat → Option α)
    (hnext : ∀ {i p}, next i = some p → p < i)
    (hanswer : ∀ i, answer i = (found i).or ((next i).bind answer)) (i : Nat) {rounds : Nat}
    (hi : i < rounds) : search found next rounds (some i) = some (answer i) := by
  induction i using Nat.strongRecOn generalizing rounds with
  | ind i ih =>
    obtain ⟨rounds, rfl⟩ := Nat.exists_eq_add_one_of_ne_zero (Nat.ne_zero_of_lt hi)
    rw [search, hanswer i]
    cases hf : found i with
    | some a => rfl
    | none =>
      cases hp : next i with
      | none => exact search_of_none rounds
      | some p =>
        have hlt := hnext hp
        exact ih p hlt (by omega)

theorem Founded.enclosing_lt (h : σ.Founded) {p : ScopeId} (hp : σ.enclosing? i = some p) : p < i := by
  obtain ⟨sc, hsc, hparent⟩ := Option.bind_eq_some_iff.1 hp
  exact (h.scopes hsc).parent hparent

theorem Founded.inherits_lt (h : σ.Founded) {c p : Nat} (hp : σ.inherits? c = some p) : p < c := by
  obtain ⟨K, hK, hsuper⟩ := Option.bind_eq_some_iff.1 hp
  exact (h.classes hK).superclass hsuper

theorem Founded.outer_eq (h : σ.Founded) (i : ScopeId) : σ.outer? i = σ.enclosing? i := by
  rw [outer?_eq, enclosing?]
  refine Option.bind_congr fun sc hsc => ?_
  cases hp : sc.parent with
  | none => rfl
  | some p => simp [Option.filter, (h.scopes hsc).parent hp]

theorem Founded.superclass_eq (h : σ.Founded) (c : Nat) : σ.superclass? c = σ.inherits? c := by
  rw [superclass?_eq]
  change (σ.inherits? c).filter _ = σ.inherits? c
  cases hp : σ.inherits? c with
  | none => rfl
  | some p => simp [Option.filter, h.inherits_lt hp]

/-- The search for the scope that binds a name. -/
theorem Founded.search_holder (h : σ.Founded) (name : String) (i : ScopeId) {rounds : Nat}
    (hi : i < rounds) :
    search (fun j => if σ.binds j name then some j else none) σ.enclosing? rounds (some i) =
      some (σ.holder? i name) := by
  refine search_ends (fun j => σ.holder? j name) h.enclosing_lt (fun j => ?_) i hi
  rw [← h.outer_eq, holder?_eq]
  split <;> rfl

/-- The search for what a name stands for. -/
theorem Founded.search_lookup (h : σ.Founded) (name : String) (i : ScopeId) {rounds : Nat}
    (hi : i < rounds) :
    search (fun j => σ.own? j name) σ.enclosing? rounds (some i) = some (σ.lookup? i name) := by
  refine search_ends (fun j => σ.lookup? j name) h.enclosing_lt (fun j => ?_) i hi
  rw [← h.outer_eq, lookup?_eq]

/-- The search for a method. -/
theorem Founded.search_method (h : σ.Founded) (name : String) (c : Nat) {rounds : Nat}
    (hc : c < rounds) :
    search (fun k => σ.ownMethod? k name) σ.inherits? rounds (some c) = some (σ.method? c name) := by
  refine search_ends (fun k => σ.method? k name) h.inherits_lt (fun k => ?_) c hc
  rw [← h.superclass_eq, method?_eq]

end Store

end LoxLang
