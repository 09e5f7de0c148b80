import LoxLang.Proofs.Compile
import LoxLang.Proofs.Store.Basic

/-!
# Stores alike but for tokens

Where trees differ in their tokens, the functions that a run makes of them differ too. Two stores are
alike under a family of relations between tokens if they have the same values in the same places and
each function of the first is alike to its counterpart under one of the relations. As long as related
tokens have one kind and one text, all that a program can ask a store for is the same.

Main statements: `Alike.refl`; `lookup?_congr`, `Alike.method?` and `Alike.arity?`, on asking;
`Alike.define`, `Alike.newFunction`, `Alike.newClass` and `Alike.bind`, on making.
-/

namespace LoxLang

open List (Forall₂)

variable {ι : Type} {R : ι → Part → Token → Token → Prop}

/-! ### What is alike -/

/-- Related tokens have the same kind and the same text, and the receiver is related to itself. -/
structure Unseen (R : ι → Part → Token → Token → Prop) : Prop where
  kind : ∀ {i part t t'}, R i part t t' → t'.kind = t.kind
  lexeme : ∀ {i part t t'}, R i part t t' → t'.lexeme = t.lexeme
  receiver : ∃ i part, R i part Token.receiver Token.receiver

/-- Tokens that are related in some part. -/
def Token.Alike (R : ι → Part → Token → Token → Prop) (t t' : Token) : Prop := ∃ i part, R i part t t'

/-- Active calls of the same name, with the lines of tokens alike. -/
structure Frame.Alike (R : ι → Part → Token → Token → Prop) (f f' : Frame) : Prop where
  name : f'.name = f.name
  line : ∃ t t', Token.Alike R t t' ∧ f.line = t.line ∧ f'.line = t'.line

/-- Functions alike, each as a whole under one of the relations. -/
structure Closure.Alike (R : ι → Part → Token → Token → Prop) (f f' : Closure) : Prop where
  declaration : ∃ i, f.declaration.Alike (R i) f'.declaration
  scope : f'.scope = f.scope
  isInitializer : f'.isInitializer = f.isInitializer

/-- Methods alike, under the same names. -/
def Bindings.Alike (R : ι → Part → Token → Token → Prop) (b b' : Bindings Closure) : Prop :=
  Forall₂ (fun m m' => m'.1 = m.1 ∧ m.2.Alike R m'.2) b.entries b'.entries

/-- Classes with methods alike. -/
structure ClassObject.Alike (R : ι → Part → Token → Token → Prop) (c c' : ClassObject) : Prop where
  name : c'.name = c.name
  superclass : c'.superclass = c.superclass
  methods : c.methods.Alike R c'.methods

/-- Stores with the same values in the same places and functions alike. -/
structure Store.Alike (R : ι → Part → Token → Token → Prop) (σ σ' : Store) : Prop where
  scopes : σ'.scopes = σ.scopes
  instances : σ'.instances = σ.instances
  functions : Forall₂ (Closure.Alike R) σ.functions.toList σ'.functions.toList
  classes : Forall₂ (ClassObject.Alike R) σ.classes.toList σ'.classes.toList

section Refl

variable {i : ι} (hR : ∀ part t, R i part t t)

include hR

theorem Frame.Alike.refl (f : Frame) : f.Alike R f :=
  ⟨rfl, { Token.receiver with line := f.line }, _, ⟨i, .name, hR _ _⟩, rfl, rfl⟩

theorem Closure.Alike.refl (f : Closure) : f.Alike R f :=
  ⟨⟨i, FunctionDecl.Alike.refl hR _⟩, rfl, rfl⟩

theorem ClassObject.Alike.refl (c : ClassObject) : c.Alike R c :=
  ⟨rfl, rfl, List.forall₂_same.2 fun m _ => ⟨rfl, .refl hR m.2⟩⟩

/-- A store is alike to itself, if one of the relations is reflexive. -/
theorem Store.Alike.refl (σ : Store) : σ.Alike R σ where
  scopes := rfl
  instances := rfl
  functions := List.forall₂_same.2 fun f _ => .refl hR f
  classes := List.forall₂_same.2 fun c _ => .refl hR c

end Refl

/-! ### Lists and arrays -/

theorem forall₂_getElem? {R : α → α → Prop} {as as' : List α} (h : Forall₂ R as as') (i : Nat) :
    Option.Rel R as[i]? as'[i]? := by
  induction h generalizing i with
  | nil => exact .none
  | cons h _ ih =>
    cases i with
    | zero => exact .some h
    | succ i => exact ih i

theorem size_eq {R : α → α → Prop} {as as' : Array α} (h : Forall₂ R as.toList as'.toList) :
    as'.size = as.size := by
  simpa using h.length_eq.symm

theorem forall₂_push {R : α → α → Prop} {as as' : Array α} (h : Forall₂ R as.toList as'.toList)
    {a a' : α} (ha : R a a') : Forall₂ R (as.push a).toList (as'.push a').toList := by
  rw [Array.toList_push, Array.toList_push]
  exact List.rel_append h (.cons ha .nil)

theorem forall₂_pop {R : α → α → Prop} {as as' : Array α} (h : Forall₂ R as.toList as'.toList) :
    Forall₂ R as.pop.toList as'.pop.toList := by
  rw [Array.toList_pop, Array.toList_pop, List.dropLast_eq_take, List.dropLast_eq_take, h.length_eq]
  exact List.forall₂_take _ h

/-! ### Functions and methods -/

theorem FunctionDecl.Alike.arity {S : Part → Token → Token → Prop} {f f' : FunctionDecl}
    (h : f.Alike S f') : f'.arity = f.arity := by
  cases h with
  | mk _ params _ => exact params.length_eq.symm

theorem FunctionDecl.Alike.body {S : Part → Token → Token → Prop} {f f' : FunctionDecl}
    (h : f.Alike S f') : Forall₂ (Stmt.Alike S) f.body f'.body := by
  cases h with
  | mk _ _ body => exact body

theorem FunctionDecl.Alike.name (hR : Unseen R) {i : ι} {f f' : FunctionDecl} (h : f.Alike (R i) f') :
    f'.name.lexeme = f.name.lexeme := by
  cases h with
  | mk h _ _ => exact hR.lexeme h

theorem Closure.Alike.arity {f f' : Closure} (h : f.Alike R f') :
    f'.declaration.arity = f.declaration.arity := by
  obtain ⟨i, hi⟩ := h.declaration
  exact hi.arity

theorem Closure.Alike.name (hR : Unseen R) {f f' : Closure} (h : f.Alike R f') :
    f'.declaration.name.lexeme = f.declaration.name.lexeme := by
  obtain ⟨i, hi⟩ := h.declaration
  exact hi.name hR

namespace Bindings

theorem Alike.get? {b b' : Bindings Closure} (h : b.Alike R b') (name : String) :
    Option.Rel (Closure.Alike R) (b.get? name) (b'.get? name) := by
  obtain ⟨entries⟩ := b
  obtain ⟨entries'⟩ := b'
  simp only [Bindings.Alike, Bindings.get?] at h ⊢
  induction h with
  | nil => exact .none
  | @cons m m' ms ms' hm _ ih =>
    obtain ⟨n, f⟩ := m
    obtain ⟨n', f'⟩ := m'
    obtain ⟨rfl, hf⟩ := hm
    simp only [List.lookup_cons]
    split
    · exact .some hf
    · exact ih

theorem Alike.put {b b' : Bindings Closure} (h : b.Alike R b') (name : String) {f f' : Closure}
    (hf : f.Alike R f') : (b.put name f).Alike R (b'.put name f') := by
  obtain ⟨entries⟩ := b
  obtain ⟨entries'⟩ := b'
  simp only [Bindings.Alike, Bindings.put] at h ⊢
  induction h with
  | nil => exact .cons ⟨rfl, hf⟩ .nil
  | @cons m m' ms ms' hm hms ih =>
    obtain ⟨n, g⟩ := m
    obtain ⟨n', g'⟩ := m'
    obtain ⟨rfl, hg⟩ := hm
    simp only [putEntry]
    split
    · exact .cons ⟨rfl, hf⟩ hms
    · exact .cons ⟨rfl, hg⟩ ih

end Bindings

/-! ### Asking a store -/

namespace Store

variable {σ σ' : Store}

theorem Alike.function? (h : σ.Alike R σ') (i : Nat) :
    Option.Rel (Closure.Alike R) σ.functions[i]? σ'.functions[i]? := by
  simpa using forall₂_getElem? h.functions i

theorem Alike.class? (h : σ.Alike R σ') (i : Nat) :
    Option.Rel (ClassObject.Alike R) σ.classes[i]? σ'.classes[i]? := by
  simpa using forall₂_getElem? h.classes i

theorem Alike.ownMethod? (h : σ.Alike R σ') (c : Nat) (name : String) :
    Option.Rel (Closure.Alike R) (σ.ownMethod? c name) (σ'.ownMethod? c name) := by
  have hc := h.class? c
  rw [Store.ownMethod?, Store.ownMethod?]
  generalize σ.classes[c]? = cls, σ'.classes[c]? = cls' at hc
  cases hc with
  | none => exact .none
  | some hc => exact hc.methods.get? name

theorem superclass?_rel {C : ClassObject → ClassObject → Prop}
    (hC : ∀ {K K'}, C K K' → K'.superclass = K.superclass) {c : Nat}
    (h : Option.Rel C σ.classes[c]? σ'.classes[c]?) : σ'.superclass? c = σ.superclass? c := by
  rw [superclass?_eq, superclass?_eq]
  generalize σ.classes[c]? = K, σ'.classes[c]? = K' at h
  cases h with
  | none => rfl
  | some h => rw [Option.bind_some, Option.bind_some, hC h]

theorem Alike.superclass? (h : σ.Alike R σ') (c : Nat) : σ'.superclass? c = σ.superclass? c :=
  superclass?_rel ClassObject.Alike.superclass (h.class? c)

/-- Methods correspond where those of each class by itself do and superclasses are the same. -/
theorem method?_rel {A : Closure → Closure → Prop}
    (hown : ∀ c name, Option.Rel A (σ.ownMethod? c name) (σ'.ownMethod? c name))
    (hsuper : ∀ c, σ'.superclass? c = σ.superclass? c) (c : Nat) (name : String) :
    Option.Rel A (σ.method? c name) (σ'.method? c name) := by
  induction c using Nat.strongRecOn with
  | ind c ih =>
    have hm := hown c name
    rw [method?_eq σ, method?_eq σ', hsuper]
    generalize σ.ownMethod? c name = m, σ'.ownMethod? c name = m' at hm
    cases hm with
    | some hm => exact .some hm
    | none =>
      cases hp : σ.superclass? c with
      | none => exact .none
      | some p => exact ih p (superclass?_lt hp)

theorem Alike.method? (h : σ.Alike R σ') (c : Nat) (name : String) :
    Option.Rel (Closure.Alike R) (σ.method? c name) (σ'.method? c name) :=
  method?_rel h.ownMethod? h.superclass? c name

theorem Alike.methodOf? (h : σ.Alike R σ') (receiver : Ref) (name : String) :
    Option.Rel (Closure.Alike R) (σ.methodOf? receiver name) (σ'.methodOf? receiver name) := by
  rw [Store.methodOf?, Store.methodOf?]
  rw [h.instances]
  split
  · exact h.method? _ name
  · exact .none

theorem Alike.field? (h : σ.Alike R σ') (receiver : Ref) (name : String) :
    σ'.field? receiver name = σ.field? receiver name := by
  rw [Store.field?, Store.field?, h.instances]

/-- Values take as many arguments where functions and methods that correspond do. -/
theorem arity?_rel {A : Closure → Closure → Prop}
    (hA : ∀ {f f'}, A f f' → f'.declaration.arity = f.declaration.arity)
    (hf : ∀ k : Nat, Option.Rel A σ.functions[k]? σ'.functions[k]?)
    (hm : ∀ c name, Option.Rel A (σ.method? c name) (σ'.method? c name)) (callee : Value) :
    σ'.arity? callee = σ.arity? callee := by
  cases callee with
  | functionRef ref =>
    have hf := hf ref.id
    simp only [Store.arity?]
    generalize σ.functions[ref.id]? = f, σ'.functions[ref.id]? = f' at hf ⊢
    cases hf with
    | none => rfl
    | some hf => simp [hA hf]
  | classRef ref =>
    have hm := hm ref.id initializerName
    simp only [Store.arity?]
    generalize σ.method? ref.id initializerName = m, σ'.method? ref.id initializerName = m' at hm ⊢
    cases hm with
    | none => rfl
    | some hm => simp [hA hm]
  | _ => rfl

theorem Alike.arity? (h : σ.Alike R σ') (callee : Value) : σ'.arity? callee = σ.arity? callee :=
  arity?_rel Closure.Alike.arity h.function? h.method? callee

/-! ### Making and changing -/

theorem Alike.newScope (h : σ.Alike R σ') (parent : Option ScopeId) :
    (σ'.newScope parent).1 = (σ.newScope parent).1 ∧
      (σ.newScope parent).2.Alike R (σ'.newScope parent).2 := by
  simp only [Store.newScope, h.scopes, true_and]
  exact ⟨rfl, h.instances, h.functions, h.classes⟩

theorem Alike.define (h : σ.Alike R σ') (i : ScopeId) (name : String) (v : Value) :
    (σ.define i name v).Alike R (σ'.define i name v) := by
  refine ⟨?_, h.instances, h.functions, h.classes⟩
  rw [Store.define, Store.define, h.scopes]

theorem Alike.setField (h : σ.Alike R σ') (receiver : Ref) (name : String) (v : Value) :
    (σ.setField receiver name v).Alike R (σ'.setField receiver name v) := by
  refine ⟨h.scopes, ?_, h.functions, h.classes⟩
  rw [Store.setField, Store.setField, h.instances]

theorem Alike.newFunction (hR : Unseen R) (h : σ.Alike R σ') {f f' : Closure} (hf : f.Alike R f') :
    (σ'.newFunction f').1 = (σ.newFunction f).1 ∧
      (σ.newFunction f).2.Alike R (σ'.newFunction f').2 := by
  refine ⟨?_, h.scopes, h.instances, forall₂_push h.functions hf, h.classes⟩
  rw [Store.newFunction, Store.newFunction, hf.name hR, size_eq h.functions]

theorem Alike.newClass (h : σ.Alike R σ') {c c' : ClassObject} (hc : c.Alike R c') :
    (σ'.newClass c').1 = (σ.newClass c).1 ∧ (σ.newClass c).2.Alike R (σ'.newClass c').2 := by
  refine ⟨?_, h.scopes, h.instances, h.functions, forall₂_push h.classes hc⟩
  rw [Store.newClass, Store.newClass, hc.name, size_eq h.classes]

theorem Alike.newInstance (h : σ.Alike R σ') (ofClass : Ref) :
    (σ'.newInstance ofClass).1 = (σ.newInstance ofClass).1 ∧
      (σ.newInstance ofClass).2.Alike R (σ'.newInstance ofClass).2 := by
  simp only [Store.newInstance, h.instances, true_and]
  exact ⟨h.scopes, rfl, h.functions, h.classes⟩

theorem Alike.bind (h : σ.Alike R σ') {m m' : Closure} (hm : m.Alike R m') (receiver : Ref) :
    (σ.bind m receiver).1.Alike R (σ'.bind m' receiver).1 ∧
      (σ.bind m receiver).2.Alike R (σ'.bind m' receiver).2 := by
  obtain ⟨hscope, hstore⟩ := h.newScope (some m.scope)
  simp only [Store.bind, hm.scope]
  refine ⟨⟨hm.declaration, hscope, hm.isInitializer⟩, ?_⟩
  rw [hscope]
  exact hstore.define _ _ _

end Store

end LoxLang
