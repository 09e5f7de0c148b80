import LoxLang.Proofs.Compile
import LoxLang.Proofs.Store.Basic

/-!
# Stores that methods can rely on

A store is sound if each function in it finds, from the scope it was made in, what the place of its
declaration lets it ask for: inside a class the receiver, inside a class with a superclass that
superclass too. The two words are bound to instances and to classes only, so whoever finds them
finds the right sort of value. Scopes never lose a binding and never move, so what can be found once
can be found from then on.

Main statements: `Extends.finds`, and that making and changing things keeps a store sound
(`Sound.define`, `Sound.newFunction`, `Sound.newClass`, `Sound.bind`).
-/

namespace LoxLang

open Placement
open List (Forall₂)

namespace Store

variable {σ τ υ : Store} {i p : ScopeId} {name : String} {v : Value}

/-! ### Finding names -/

/-- A name is bound in a scope or around it. -/
def Finds (σ : Store) (scope : ScopeId) (name : String) : Prop := (σ.holder? scope name).isSome = true

theorem finds_of_binds (h : σ.binds i name = true) : σ.Finds i name := by
  simp [Finds, holder?_of_binds h]

theorem finds_of_outer (hp : σ.outer? i = some p) (h : σ.Finds p name) : σ.Finds i name := by
  by_cases hb : σ.binds i name = true
  · exact finds_of_binds hb
  · rw [Finds, holder?_of_outer (by simpa using hb) hp]
    exact h

theorem finds_cases (h : σ.Finds i name) :
    σ.binds i name = true ∨ ∃ p, σ.outer? i = some p ∧ σ.Finds p name := by
  by_cases hb : σ.binds i name = true
  · exact .inl hb
  · have hb' : σ.binds i name = false := by simpa using hb
    cases hp : σ.outer? i with
    | none => simp [Finds, holder?_of_root hb' hp] at h
    | some p => exact .inr ⟨p, rfl, by rwa [Finds, holder?_of_outer hb' hp] at h⟩

/-- What is found is a binding of the scope that holds the name. -/
theorem exists_own?_of_finds (h : σ.Finds i name) :
    ∃ j v, σ.lookup? i name = some v ∧ σ.own? j name = some v := by
  induction i using Nat.strongRecOn with
  | ind i ih =>
    by_cases hb : σ.binds i name = true
    · have hown : ∃ v, σ.own? i name = some v := by
        rw [binds] at hb
        rw [own?]
        split at hb
        · exact Option.isSome_iff_exists.1 hb
        · cases hb
      obtain ⟨v, hv⟩ := hown
      exact ⟨i, v, by simp [lookup?, holder?_of_binds hb, hv], hv⟩
    · obtain hb' | ⟨p, hp, hfinds⟩ := finds_cases h
      · exact absurd hb' hb
      · obtain ⟨j, v, hlookup, hv⟩ := ih p (outer?_lt hp) hfinds
        refine ⟨j, v, ?_, hv⟩
        rw [lookup?, holder?_of_outer (by simpa using hb) hp]
        exact hlookup

/-- The scope that holds a name binds it. -/
theorem binds_of_holder? {j : ScopeId} (h : σ.holder? i name = some j) : σ.binds j name = true := by
  induction i using Nat.strongRecOn with
  | ind i ih =>
    by_cases hb : σ.binds i name = true
    · rw [holder?_of_binds hb] at h
      cases h
      exact hb
    · have hb' : σ.binds i name = false := by simpa using hb
      cases hp : σ.outer? i with
      | none =>
        rw [holder?_of_root hb' hp] at h
        cases h
      | some p =>
        rw [holder?_of_outer hb' hp] at h
        exact ih p (outer?_lt hp) h

/-- Only a scope of the store finds anything. -/
theorem lt_of_finds (h : σ.Finds i name) : i < σ.scopes.size := by
  rcases finds_cases h with hb | ⟨p, hp, -⟩
  · exact lt_of_binds hb
  · exact lt_of_outer? hp

/-! ### Stores that go on from others -/

/-- Every scope is where it was, with at least the bindings that it had. -/
structure Extends (σ τ : Store) : Prop where
  outer : ∀ {i p}, σ.outer? i = some p → τ.outer? i = some p
  binds : ∀ {i name}, σ.binds i name = true → τ.binds i name = true

theorem Extends.refl (σ : Store) : Extends σ σ := ⟨id, id⟩

theorem Extends.trans (h : Extends σ τ) (h' : Extends τ υ) : Extends σ υ :=
  ⟨fun hp => h'.outer (h.outer hp), fun hb => h'.binds (h.binds hb)⟩

/-- What can be found once can be found from then on. -/
theorem Extends.finds (h : Extends σ τ) (hf : σ.Finds i name) : τ.Finds i name := by
  induction i using Nat.strongRecOn with
  | ind i ih =>
    rcases finds_cases hf with hb | ⟨p, hp, hfinds⟩
    · exact finds_of_binds (h.binds hb)
    · exact finds_of_outer (h.outer hp) (ih p (outer?_lt hp) hfinds)

theorem Extends.of_scopes_eq (h : τ.scopes = σ.scopes) : Extends σ τ := by
  constructor
  · intro i p hp
    rwa [outer?, h]
  · intro i name hb
    rwa [Store.binds, h]

/-! ### What operations do to scopes -/

theorem Extends.define (σ : Store) (i : ScopeId) (name : String) (v : Value) :
    Extends σ (σ.define i name v) := by
  constructor
  · intro j p hp
    rwa [outer?_define]
  · intro j other hb
    rw [binds_eq_isSome] at hb ⊢
    rw [own?_define]
    split
    · rfl
    · exact hb

theorem Extends.newScope (σ : Store) (parent : Option ScopeId) :
    Extends σ (σ.newScope parent).2 := by
  constructor
  · intro j p hp
    rwa [outer?_newScope_of_lt σ parent (lt_of_outer? hp)]
  · intro j name hb
    rwa [binds_eq_isSome, own?_newScope, ← binds_eq_isSome]

/-- From a new scope everything can be found that can be found from the scope around it. -/
theorem finds_newScope (h : σ.Finds i name) :
    (σ.newScope (some i)).2.Finds (σ.newScope (some i)).1 name :=
  finds_of_outer (outer?_newScope σ (lt_of_finds h)) ((Extends.newScope σ (some i)).finds h)

/-! ### Sound stores -/

/-- What a place lets be asked for can be found from a scope. -/
def Provides (σ : Store) (scope : ScopeId) : ClassContext → Prop
  | .outside => True
  | .plain => σ.Finds scope Token.receiver.lexeme
  | .derived => σ.Finds scope Token.receiver.lexeme ∧ σ.Finds scope Token.superName

theorem Provides.mono {context : ClassContext} (h : σ.Provides i context) (he : Extends σ τ) :
    τ.Provides i context := by
  cases context with
  | outside => trivial
  | plain => exact he.finds h
  | derived => exact ⟨he.finds h.1, he.finds h.2⟩

theorem Provides.newScope {context : ClassContext} (h : σ.Provides i context) :
    (σ.newScope (some i)).2.Provides (σ.newScope (some i)).1 context := by
  cases context with
  | outside => trivial
  | plain => exact finds_newScope h
  | derived => exact ⟨finds_newScope h.1, finds_newScope h.2⟩

/-- The receiver is an instance and the superclass a class; other names stand for anything. -/
structure Admits (name : String) (v : Value) : Prop where
  receiver : name = Token.receiver.lexeme → ∃ r, v = .instanceRef r
  superclass : name = Token.superName → ∃ r, v = .classRef r

end Store

/-- A function with proper tokens and nothing misplaced, in a place. -/
structure FunctionDecl.InPlace (context : ClassContext) (f : FunctionDecl) : Prop where
  errors : functionErrors { inClass := context } f = []
  proper : f.Alike Token.Proper f

/-- A function finds what its place lets it ask for, and an initializer its receiver. -/
structure Closure.FitsIn (σ : Store) (context : ClassContext) (f : Closure) : Prop where
  inPlace : f.declaration.InPlace context
  provides : σ.Provides f.scope context
  initializer : f.isInitializer = true → σ.Finds f.scope Token.receiver.lexeme

/-- A function finds what its place lets it ask for, whatever the place. -/
def Closure.Fits (σ : Store) (f : Closure) : Prop := ∃ context, f.FitsIn σ context

/-- A method lacks at most its receiver. -/
structure Closure.FitsMethodIn (σ : Store) (context : ClassContext) (m : Closure) : Prop where
  inPlace : m.declaration.InPlace context
  inside : context ≠ .outside
  superclass : context = .derived → σ.Finds m.scope Token.superName

/-- A method lacks at most its receiver, whatever its class. -/
def Closure.FitsMethod (σ : Store) (m : Closure) : Prop := ∃ context, m.FitsMethodIn σ context

/-- The receiver and the superclass are bound as they must be, and all functions and methods fit. -/
structure Store.Sound (σ : Store) : Prop where
  admits : ∀ {i name v}, σ.own? i name = some v → Admits name v
  functions : ∀ {f}, f ∈ σ.functions → f.Fits σ
  methods : ∀ {c}, c ∈ σ.classes → ∀ {name m}, c.methods.get? name = some m → m.FitsMethod σ

theorem Closure.Fits.mono {σ τ : Store} {f : Closure} (h : f.Fits σ) (he : Store.Extends σ τ) :
    f.Fits τ := by
  obtain ⟨context, hf⟩ := h
  exact ⟨context, hf.inPlace, hf.provides.mono he, fun hi => he.finds (hf.initializer hi)⟩

theorem Closure.FitsMethod.mono {σ τ : Store} {m : Closure} (h : m.FitsMethod σ)
    (he : Store.Extends σ τ) : m.FitsMethod τ := by
  obtain ⟨context, hm⟩ := h
  exact ⟨context, hm.inPlace, hm.inside, fun hd => he.finds (hm.superclass hd)⟩

namespace Store

variable {σ τ : Store} {i : ScopeId} {name : String} {v : Value}

/-- The receiver that can be found is an instance. -/
theorem Sound.lookup_receiver (h : σ.Sound) (hf : σ.Finds i Token.receiver.lexeme) :
    ∃ r, σ.lookup? i Token.receiver.lexeme = some (.instanceRef r) := by
  obtain ⟨j, v, hlookup, hown⟩ := exists_own?_of_finds hf
  obtain ⟨r, rfl⟩ := (h.admits hown).receiver rfl
  exact ⟨r, hlookup⟩

/-- The superclass that can be found is a class. -/
theorem Sound.lookup_superclass (h : σ.Sound) (hf : σ.Finds i Token.superName) :
    ∃ r, σ.lookup? i Token.superName = some (.classRef r) := by
  obtain ⟨j, v, hlookup, hown⟩ := exists_own?_of_finds hf
  obtain ⟨r, rfl⟩ := (h.admits hown).superclass rfl
  exact ⟨r, hlookup⟩

theorem Sound.method (h : σ.Sound) {c : Nat} {m : Closure} (hm : σ.method? c name = some m) :
    m.FitsMethod σ := by
  obtain ⟨k, K, hK, hm⟩ := exists_class_of_method? hm
  exact h.methods (Array.mem_of_getElem? hK) hm

/-- A store keeps sound if its scopes go on from those before and all that is new fits. -/
theorem Sound.step (h : σ.Sound) (he : Extends σ τ)
    (hadmits : ∀ {i name v}, τ.own? i name = some v → Admits name v)
    (hfunctions : ∀ {f}, f ∈ τ.functions → f ∈ σ.functions ∨ f.Fits τ)
    (hmethods : ∀ {c}, c ∈ τ.classes → c ∈ σ.classes ∨
      ∀ {name m}, c.methods.get? name = some m → m.FitsMethod τ) : τ.Sound where
  admits := hadmits
  functions hf := (hfunctions hf).elim (fun hf => (h.functions hf).mono he) id
  methods hc _ _ hm := (hmethods hc).elim (fun hc => (h.methods hc hm).mono he) fun h => h hm

theorem Sound.define (h : σ.Sound) (i : ScopeId) (hv : Admits name v) :
    (σ.define i name v).Sound := by
  refine h.step (.define σ i name v) ?_ .inl .inl
  intro j other w hw
  rw [own?_define] at hw
  split at hw
  · next heq =>
    cases hw
    exact heq.2.1 ▸ hv
  · exact h.admits hw

theorem Sound.newScope (h : σ.Sound) (parent : Option ScopeId) : (σ.newScope parent).2.Sound := by
  refine h.step (.newScope σ parent) ?_ .inl .inl
  intro j other w hw
  rw [own?_newScope] at hw
  exact h.admits hw

theorem Sound.newFunction (h : σ.Sound) {f : Closure} (hf : f.Fits σ) : (σ.newFunction f).2.Sound := by
  have he : Extends σ (σ.newFunction f).2 := .of_scopes_eq rfl
  refine h.step he h.admits ?_ .inl
  intro g hg
  rcases Array.mem_push.1 hg with hg | rfl
  · exact .inl hg
  · exact .inr (hf.mono he)

theorem Sound.newClass (h : σ.Sound) {c : ClassObject}
    (hc : ∀ {name m}, c.methods.get? name = some m → m.FitsMethod σ) : (σ.newClass c).2.Sound := by
  have he : Extends σ (σ.newClass c).2 := .of_scopes_eq rfl
  refine h.step he h.admits .inl ?_
  intro d hd
  rcases Array.mem_push.1 hd with hd | rfl
  · exact .inl hd
  · exact .inr fun hm => (hc hm).mono he

theorem Sound.newInstance (h : σ.Sound) (c : Ref) : (σ.newInstance c).2.Sound :=
  h.step (.of_scopes_eq rfl) h.admits .inl .inl

theorem Sound.setField (h : σ.Sound) (receiver : Ref) (name : String) (v : Value) :
    (σ.setField receiver name v).Sound :=
  h.step (.of_scopes_eq rfl) h.admits .inl .inl

theorem admits_receiver (r : Ref) : Admits Token.receiver.lexeme (.instanceRef r) :=
  ⟨fun _ => ⟨r, rfl⟩, fun h => absurd h (by decide)⟩

theorem admits_superclass (r : Ref) : Admits Token.superName (.classRef r) :=
  ⟨fun h => absurd h (by decide), fun _ => ⟨r, rfl⟩⟩

theorem finds_define_self (σ : Store) {i : ScopeId} (hi : i < σ.scopes.size) (name : String) (v : Value) :
    (σ.define i name v).Finds i name := by
  apply finds_of_binds
  rw [binds_eq_isSome, own?_define, if_pos ⟨rfl, rfl, hi⟩]
  rfl

theorem Extends.bind (σ : Store) (m : Closure) (receiver : Ref) :
    Extends σ (σ.bind m receiver).2 :=
  (Extends.newScope σ (some m.scope)).trans (.define _ _ _ _)

theorem Sound.bind (h : σ.Sound) (m : Closure) (receiver : Ref) : (σ.bind m receiver).2.Sound :=
  (h.newScope (some m.scope)).define _ (admits_receiver receiver)

/-- A method with its receiver fits. -/
theorem bind_fits {m : Closure} (h : m.FitsMethod σ) (receiver : Ref) :
    (σ.bind m receiver).1.Fits (σ.bind m receiver).2 := by
  obtain ⟨context, hm⟩ := h
  have hthis : (σ.bind m receiver).2.Finds (σ.bind m receiver).1.scope Token.receiver.lexeme :=
    finds_define_self _ (by simp []) _ _
  refine ⟨context, hm.inPlace, ?_, fun _ => hthis⟩
  cases context with
  | outside => exact absurd rfl hm.inside
  | plain => exact hthis
  | derived => exact ⟨hthis, (Extends.define _ _ _ _).finds (finds_newScope (hm.superclass rfl))⟩

end Store

end LoxLang
