import LoxLang.Proofs.Placement.Store

/-!
# The scopes of receivers and of superclasses

Around the body of a method there are two scopes that no declaration ever reaches. One binds the
receiver and nothing else, and the one around it binds the superclass and nothing else. All other
scopes bind neither. So what the two words stand for in the body, and in whatever is nested in it,
is settled when the method is bound.

Main statements: `Fixes`, what never changes, with a lemma for each operation of a store, and
`lookup?_receiver` and `lookup?_superclass`, where the two words lead from below a bound method.
-/

namespace LoxLang

/-- The two words that are bound by no declaration. -/
def Token.Reserved (name : String) : Prop := name = receiver.lexeme ∨ name = superName

/-! ### Sorts of scopes -/

namespace Scope

variable {sc : Scope} {name : String} {outer : ScopeId} {r : Ref}

/-- A scope that binds neither the receiver nor the superclass. -/
def Plain (sc : Scope) : Prop := ∀ name, Token.Reserved name → sc.bindings.get? name = none

/-- The scope that a bound method closes over: within the scope of the method, with the receiver in it. -/
def ofReceiver (outer : ScopeId) (r : Ref) : Scope :=
  { parent := some outer, bindings := ⟨[(Token.receiver.lexeme, .instanceRef r)]⟩ }

/-- The scope that the methods of a derived class close over: within the scope of the class, with the
superclass in it. -/
def ofSuperclass (outer : ScopeId) (r : Ref) : Scope :=
  { parent := some outer, bindings := ⟨[(Token.superName, .classRef r)]⟩ }

/-- All the scopes that there are. -/
inductive Sorted : Scope → Prop where
  | plain {plain : Scope} (h : plain.Plain) : Sorted plain
  | receiver (outer : ScopeId) (r : Ref) : Sorted (ofReceiver outer r)
  | superclass (outer : ScopeId) (r : Ref) : Sorted (ofSuperclass outer r)

theorem plain_of_empty (parent : Option ScopeId) : Plain { parent } := fun _ _ => rfl

theorem Plain.put (h : sc.Plain) (hname : ¬ Token.Reserved name) (v : Value) :
    Plain { sc with bindings := sc.bindings.put name v } := by
  intro other hother
  have hne : other ≠ name := by
    rintro rfl
    exact hname hother
  rw [sc.bindings.get?_put_of_ne hne]
  exact h other hother

theorem not_plain_ofReceiver (outer : ScopeId) (r : Ref) : ¬ (ofReceiver outer r).Plain := by
  intro h
  have := h Token.receiver.lexeme (.inl rfl)
  simp [ofReceiver, Bindings.get?] at this

theorem not_plain_ofSuperclass (outer : ScopeId) (r : Ref) : ¬ (ofSuperclass outer r).Plain := by
  intro h
  have := h Token.superName (.inr rfl)
  simp [ofSuperclass, Bindings.get?] at this

/-- A scope that binds any other name is plain. -/
theorem Sorted.plain_of_contains (h : sc.Sorted) (hname : ¬ Token.Reserved name)
    (hb : sc.bindings.contains name = true) : sc.Plain := by
  cases h with
  | plain h => exact h
  | receiver outer r =>
    have hne : (name == Token.receiver.lexeme) = false := beq_false_of_ne fun heq => hname (.inl heq)
    simp [ofReceiver, Bindings.contains, Bindings.get?, List.lookup_cons, hne] at hb
  | superclass outer r =>
    have hne : (name == Token.superName) = false := beq_false_of_ne fun heq => hname (.inr heq)
    simp [ofSuperclass, Bindings.contains, Bindings.get?, List.lookup_cons, hne] at hb

end Scope

namespace Store

variable {σ τ υ : Store} {i j : ScopeId} {name : String} {v : Value} {sc : Scope} {r : Ref}

/-- There is a scope, and it is plain. -/
def Plain (σ : Store) (i : ScopeId) : Prop := ∃ sc, σ.scopes[i]? = some sc ∧ sc.Plain

theorem Plain.all (h : σ.Plain i) : ∀ sc, σ.scopes[i]? = some sc → sc.Plain := by
  intro sc hsc
  obtain ⟨sc', hsc', hplain⟩ := h
  cases hsc.symm.trans hsc'
  exact hplain

theorem Plain.lt (h : σ.Plain i) : i < σ.scopes.size := by
  obtain ⟨sc, hsc, -⟩ := h
  exact (Array.getElem?_eq_some_iff.1 hsc).1

/-! ### What never changes -/

/-- Each scope keeps its place and stays plain if it is plain, and as it is if it is not. Classes stay as
they are. -/
structure Fixes (σ τ : Store) : Prop where
  scopes : ∀ {i : ScopeId} {sc : Scope}, σ.scopes[i]? = some sc →
    ∃ sc', τ.scopes[i]? = some sc' ∧ sc'.parent = sc.parent ∧ (sc.Plain → sc'.Plain) ∧
      (¬ sc.Plain → sc' = sc)
  classes : ∀ {k : Nat} {K : ClassObject}, σ.classes[k]? = some K → τ.classes[k]? = some K

theorem Fixes.of_eq (hs : τ.scopes = σ.scopes) (hc : τ.classes = σ.classes) : Fixes σ τ := by
  constructor
  · intro i sc h
    exact ⟨sc, hs ▸ h, rfl, id, fun _ => rfl⟩
  · intro k K h
    exact hc ▸ h

theorem Fixes.refl (σ : Store) : Fixes σ σ := .of_eq rfl rfl

theorem Fixes.trans (h : Fixes σ τ) (h' : Fixes τ υ) : Fixes σ υ := by
  constructor
  · intro i sc hi
    obtain ⟨sc', hi', hparent, hplain, hfixed⟩ := h.scopes hi
    obtain ⟨sc'', hi'', hparent', hplain', hfixed'⟩ := h'.scopes hi'
    refine ⟨sc'', hi'', hparent'.trans hparent, fun hsc => hplain' (hplain hsc), fun hsc => ?_⟩
    obtain rfl := hfixed hsc
    exact hfixed' hsc
  · intro k K hk
    exact h'.classes (h.classes hk)

theorem Fixes.push (hs : τ.scopes = σ.scopes.push sc) (hc : τ.classes = σ.classes) : Fixes σ τ := by
  constructor
  · intro i sc' h
    have hlt := (Array.getElem?_eq_some_iff.1 h).1
    refine ⟨sc', ?_, rfl, id, fun _ => rfl⟩
    rw [hs, Array.getElem?_push, if_neg (Nat.ne_of_lt hlt)]
    exact h
  · intro k K h
    exact hc ▸ h

theorem Fixes.define (hi : ∀ sc, σ.scopes[i]? = some sc → sc.Plain) (hname : ¬ Token.Reserved name)
    (v : Value) : Fixes σ (σ.define i name v) := by
  constructor
  · intro j sc h
    rw [scopes_define, h]
    by_cases hij : i = j
    · subst hij
      have hplain := hi sc h
      refine ⟨{ sc with bindings := sc.bindings.put name v }, by simp, rfl, fun _ => ?_, fun hn => ?_⟩
      · exact hplain.put hname v
      · exact absurd hplain hn
    · exact ⟨sc, by simp [hij], rfl, id, fun _ => rfl⟩
  · intro k K h
    exact h

theorem Fixes.newClass (σ : Store) (K : ClassObject) : Fixes σ (σ.newClass K).2 := by
  constructor
  · intro i sc h
    exact ⟨sc, h, rfl, id, fun _ => rfl⟩
  · intro k K' h
    have hlt := (Array.getElem?_eq_some_iff.1 h).1
    rw [Store.newClass, Array.getElem?_push, if_neg (Nat.ne_of_lt hlt)]
    exact h

theorem Fixes.plain (h : Fixes σ τ) (hi : σ.Plain i) : τ.Plain i := by
  obtain ⟨sc, hsc, hplain⟩ := hi
  obtain ⟨sc', hsc', -, hkeep, -⟩ := h.scopes hsc
  exact ⟨sc', hsc', hkeep hplain⟩

theorem Fixes.lt (h : Fixes σ τ) (hi : i < σ.scopes.size) : i < τ.scopes.size := by
  obtain ⟨sc, hsc, -⟩ := h.scopes (Array.getElem?_eq_getElem hi)
  exact (Array.getElem?_eq_some_iff.1 hsc).1

theorem Fixes.size_classes_le (h : Fixes σ τ) : σ.classes.size ≤ τ.classes.size := by
  by_contra hlt
  have hlast := h.classes (Array.getElem?_eq_getElem (Nat.lt_of_not_le hlt))
  exact Nat.lt_irrefl _ (Array.getElem?_eq_some_iff.1 hlast).1

/-- A scope that is not plain stays as it is. -/
theorem Fixes.fixed (h : Fixes σ τ) (hi : σ.scopes[i]? = some sc) (hsc : ¬ sc.Plain) :
    τ.scopes[i]? = some sc := by
  obtain ⟨sc', hsc', -, -, hfixed⟩ := h.scopes hi
  rw [hsc', hfixed hsc]

theorem Fixes.outer? (h : Fixes σ τ) {p : ScopeId} (hp : σ.outer? i = some p) : τ.outer? i = some p := by
  rw [outer?_eq] at hp ⊢
  cases hi : σ.scopes[i]? with
  | none => simp [hi] at hp
  | some sc =>
    obtain ⟨sc', hsc', hparent, -, -⟩ := h.scopes hi
    rw [hi] at hp
    rw [hsc', Option.bind_some, hparent]
    exact hp

/-- What a class has as its methods never changes. -/
theorem Fixes.method? (h : Fixes σ τ) {c : Nat} (hc : c < σ.classes.size) (name : String) :
    τ.method? c name = σ.method? c name := by
  induction c using Nat.strongRecOn with
  | ind c ih =>
    have hsame : τ.classes[c]? = σ.classes[c]? := by
      rw [h.classes (Array.getElem?_eq_getElem hc), Array.getElem?_eq_getElem hc]
    have hown : τ.ownMethod? c name = σ.ownMethod? c name := by rw [ownMethod?, ownMethod?, hsame]
    have hsuper : τ.superclass? c = σ.superclass? c := by rw [superclass?, superclass?, hsame]
    rw [method?_eq τ, method?_eq σ, hown, hsuper]
    cases hp : σ.superclass? c with
    | none => rfl
    | some p =>
      have hlt := superclass?_lt hp
      rw [Option.bind_some, Option.bind_some, ih p hlt (Nat.lt_trans hlt hc)]

/-! ### Stores in order -/

/-- Every scope is of one of the sorts, and the methods of a derived class close over the scope of its
superclass. -/
structure Anchored (σ : Store) : Prop where
  scopes : ∀ {i : ScopeId} {sc : Scope}, σ.scopes[i]? = some sc → sc.Sorted
  classes : ∀ {k : Nat} {K : ClassObject} {p : Nat}, σ.classes[k]? = some K → K.superclass = some p →
    ∃ outer r, r.id = p ∧ ∀ {name m}, K.methods.get? name = some m →
      σ.scopes[m.scope]? = some (.ofSuperclass outer r)

/-- A store stays in order if its scopes go on from those before and are of the sorts, and so do the
methods of new classes. -/
theorem Anchored.step (h : σ.Anchored) (hf : Fixes σ τ)
    (hs : ∀ {i : ScopeId} {sc : Scope}, τ.scopes[i]? = some sc → sc.Sorted)
    (hc : ∀ {k : Nat} {K : ClassObject} {p : Nat}, τ.classes[k]? = some K → K.superclass = some p →
      σ.classes[k]? = some K ∨ ∃ outer r, r.id = p ∧ ∀ {name m}, K.methods.get? name = some m →
        σ.scopes[m.scope]? = some (.ofSuperclass outer r)) : τ.Anchored where
  scopes := hs
  classes {k K p} hk hp := by
    have hold : ∃ outer r, r.id = p ∧ ∀ {name m}, K.methods.get? name = some m →
        σ.scopes[m.scope]? = some (.ofSuperclass outer r) := by
      rcases hc hk hp with hk | hnew
      · exact h.classes hk hp
      · exact hnew
    obtain ⟨outer, r, hr, hm⟩ := hold
    exact ⟨outer, r, hr, fun hget => hf.fixed (hm hget) (Scope.not_plain_ofSuperclass outer r)⟩

theorem Anchored.of_eq (h : σ.Anchored) (hs : τ.scopes = σ.scopes) (hc : τ.classes = σ.classes) :
    τ.Anchored :=
  h.step (.of_eq hs hc) (fun hi => h.scopes (hs ▸ hi)) fun hk _ => .inl (hc ▸ hk)

theorem Anchored.push (h : σ.Anchored) (hs : τ.scopes = σ.scopes.push sc) (hc : τ.classes = σ.classes)
    (hsc : sc.Sorted) : τ.Anchored := by
  refine h.step (.push hs hc) ?_ fun hk _ => .inl (hc ▸ hk)
  intro i sc' hi
  rw [hs, Array.getElem?_push] at hi
  split at hi
  · cases hi
    exact hsc
  · exact h.scopes hi

theorem Anchored.define (h : σ.Anchored) (hi : ∀ sc, σ.scopes[i]? = some sc → sc.Plain)
    (hname : ¬ Token.Reserved name) (v : Value) : (σ.define i name v).Anchored := by
  refine h.step (.define hi hname v) ?_ fun hk _ => .inl hk
  intro j sc hj
  rw [scopes_define] at hj
  obtain ⟨sc', hsc', rfl⟩ := Option.map_eq_some_iff.1 hj
  split
  · next hij =>
    subst hij
    exact .plain ((hi sc' hsc').put hname v)
  · exact h.scopes hsc'

theorem Anchored.newClass (h : σ.Anchored) {K : ClassObject}
    (hK : ∀ {p}, K.superclass = some p → ∃ outer r, r.id = p ∧
      ∀ {name m}, K.methods.get? name = some m → σ.scopes[m.scope]? = some (.ofSuperclass outer r)) :
    (σ.newClass K).2.Anchored := by
  refine h.step (.newClass σ K) h.scopes ?_
  intro k K' p hk hp
  rw [Store.newClass, Array.getElem?_push] at hk
  split at hk
  · cases hk
    exact .inr (hK hp)
  · exact .inl hk

/-- The scope that holds any other name is plain. -/
theorem Anchored.plain_of_holder? (h : σ.Anchored) (hname : ¬ Token.Reserved name)
    (hj : σ.holder? i name = some j) : ∀ sc, σ.scopes[j]? = some sc → sc.Plain := by
  intro sc hsc
  have hb := binds_of_holder? hj
  rw [binds, hsc] at hb
  exact (h.scopes hsc).plain_of_contains hname hb

/-! ### Scopes made with one binding -/

theorem scopes_newScope_define (σ : Store) (parent : Option ScopeId) (name : String) (v : Value) :
    ((σ.newScope parent).2.define (σ.newScope parent).1 name v).scopes =
      σ.scopes.push { parent, bindings := ⟨[(name, v)]⟩ } := by
  refine Array.ext_getElem? fun i => ?_
  rw [scopes_define, newScope, Array.getElem?_push, Array.getElem?_push]
  by_cases hi : i = σ.scopes.size
  · rw [if_pos hi, if_pos hi, hi]
    simp [Bindings.put, Bindings.putEntry]
  · rw [if_neg hi, if_neg hi]
    simp [Ne.symm hi]

/-- Binding a method makes a scope for the receiver. -/
theorem scopes_bind (σ : Store) (m : Closure) (receiver : Ref) :
    (σ.bind m receiver).2.scopes = σ.scopes.push (.ofReceiver m.scope receiver) :=
  scopes_newScope_define σ (some m.scope) _ _

/-! ### Where the two words lead -/

/-- A scope lies below another one if only plain scopes are in between. -/
inductive Under (σ : Store) (base : ScopeId) : ScopeId → Prop where
  | here : Under σ base base
  | inner {inner outer : ScopeId} (hp : σ.outer? inner = some outer) (hi : σ.Plain inner)
      (h : Under σ base outer) : Under σ base inner

theorem Under.mono {base : ScopeId} (h : σ.Under base i) (hf : Fixes σ τ) : τ.Under base i := by
  induction h with
  | here => exact .here
  | inner hp hi _ ih => exact .inner (hf.outer? hp) (hf.plain hi) ih

theorem Under.lt {base : ScopeId} (h : σ.Under base i) (hbase : base < σ.scopes.size) :
    i < σ.scopes.size := by
  cases h with
  | here => exact hbase
  | inner _ hi _ => exact hi.lt

theorem Plain.binds (h : σ.Plain i) (hname : Token.Reserved name) : σ.binds i name = false := by
  obtain ⟨sc, hsc, hplain⟩ := h
  rw [binds_eq_isSome, own?, hsc]
  simp [hplain name hname]

/-- Plain scopes pass both words on. -/
theorem Under.lookup? {base : ScopeId} (h : σ.Under base i) (hname : Token.Reserved name) :
    σ.lookup? i name = σ.lookup? base name := by
  induction h with
  | here => rfl
  | inner hp hi _ ih =>
    rw [Store.lookup?, holder?_of_outer (hi.binds hname) hp]
    exact ih

/-- From below a bound method, the receiver is the one that it is bound to. -/
theorem lookup?_receiver {base outer : ScopeId} (hbase : σ.scopes[base]? = some (.ofReceiver outer r))
    (h : σ.Under base i) : σ.lookup? i Token.receiver.lexeme = some (.instanceRef r) := by
  have hown : σ.own? base Token.receiver.lexeme = some (.instanceRef r) := by
    rw [own?, hbase]
    simp [Scope.ofReceiver, Bindings.get?]
  have hb : σ.binds base Token.receiver.lexeme = true := by rw [binds_eq_isSome, hown]; rfl
  rw [h.lookup? (.inl rfl), Store.lookup?, holder?_of_binds hb]
  exact hown

/-- From below a bound method of a derived class, the superclass is the one of the class. -/
theorem lookup?_superclass {base inner outer : ScopeId} {p : Ref}
    (hbase : σ.scopes[base]? = some (.ofReceiver inner r)) (hlt : inner < base)
    (hinner : σ.scopes[inner]? = some (.ofSuperclass outer p)) (h : σ.Under base i) :
    σ.lookup? i Token.superName = some (.classRef p) := by
  have hnone : σ.binds base Token.superName = false := by
    rw [binds_eq_isSome, own?, hbase]
    have hne : (Token.superName == Token.receiver.lexeme) = false := by decide
    simp [Scope.ofReceiver, Bindings.get?, List.lookup_cons, hne]
  have houter : σ.outer? base = some inner := by
    rw [outer?_eq, hbase]
    simp [Scope.ofReceiver, Option.filter, hlt]
  have hown : σ.own? inner Token.superName = some (.classRef p) := by
    rw [own?, hinner]
    simp [Scope.ofSuperclass, Bindings.get?]
  have hb : σ.binds inner Token.superName = true := by rw [binds_eq_isSome, hown]; rfl
  rw [h.lookup? (.inr rfl), Store.lookup?, holder?_of_outer hnone houter, holder?_of_binds hb]
  exact hown

end Store

end LoxLang
