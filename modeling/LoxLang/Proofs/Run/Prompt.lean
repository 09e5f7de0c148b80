import LoxLang.Proofs.Placement.Run
import LoxLang.Proofs.Store.Founded

/-!
# What ends at once

All that running a program does besides beginning something smaller ends at once, prints nothing and leaves
the active calls alone. It makes functions and classes only of declarations that it is given
or that it finds in the store, so what holds of all declarations in the store goes on holding.

Main statement: `Prompt.bind`, and that all that an activity does itself is `Prompt`.
-/

namespace LoxLang

/-- A property of all functions and methods that the objects of a store are made of. -/
structure Store.Declares (P : FunctionDecl → Prop) (σ : Store) : Prop where
  functions : ∀ {k : Nat} {f}, σ.functions[k]? = some f → P f.declaration
  methods : ∀ {k : Nat} {K name m}, σ.classes[k]? = some K → K.methods.get? name = some m →
    P m.declaration

/-- A computation comes to an end, with a result of some kind or with an error, and in a state of some
kind. -/
def Outcome.Ends (goal : α → Prop) (after : RunState → Prop) : Outcome α → Prop
  | .done a s => goal a ∧ after s
  | .failed _ s => after s
  | .exhausted => False

/-- A state that differs from an earlier one in its store at most, and there has functions and methods of the
same kind. -/
structure RunState.Settled (P : FunctionDecl → Prop) (s t : RunState) : Prop where
  store : t.store.Declares P
  frames : t.frames = s.frames
  output : t.output = s.output

/-- A computation that ends at once. -/
def Run.Prompt (P : FunctionDecl → Prop) (goal : α → Prop) (m : Run α) : Prop :=
  ∀ s, s.store.Declares P → (m s).Ends goal (s.Settled P)

variable {P : FunctionDecl → Prop}

namespace Store

variable {σ τ : Store}

theorem Declares.of_eq (h : σ.Declares P) (hf : τ.functions = σ.functions) (hc : τ.classes = σ.classes) :
    τ.Declares P :=
  ⟨fun hk => h.functions (hf ▸ hk), fun hk => h.methods (hc ▸ hk)⟩

theorem Declares.newFunction (h : σ.Declares P) {f : Closure} (hf : P f.declaration) :
    (σ.newFunction f).2.Declares P := by
  refine ⟨fun {k g} hk => ?_, h.methods⟩
  rcases getElem?_push_cases hk with hk | ⟨-, rfl⟩
  · exact h.functions hk
  · exact hf

theorem Declares.newClass (h : σ.Declares P) {K : ClassObject}
    (hK : ∀ {name m}, K.methods.get? name = some m → P m.declaration) :
    (σ.newClass K).2.Declares P := by
  refine ⟨h.functions, fun {k L name m} hk hm => ?_⟩
  rcases getElem?_push_cases hk with hk | ⟨-, rfl⟩
  · exact h.methods hk hm
  · exact hK hm

theorem Declares.method (h : σ.Declares P) {c : Nat} {name : String} {m : Closure}
    (hm : σ.method? c name = some m) : P m.declaration := by
  obtain ⟨k, K, hK, hm⟩ := exists_class_of_method? hm
  exact h.methods hK hm

/-- Binding names declares nothing. -/
theorem foldl_define_eq (i : ScopeId) (bound : List (Token × Value)) (σ : Store) :
    (bound.foldl (fun σ (p, v) => σ.define i p.lexeme v) σ).functions = σ.functions ∧
      (bound.foldl (fun σ (p, v) => σ.define i p.lexeme v) σ).classes = σ.classes := by
  induction bound generalizing σ with
  | nil => exact ⟨rfl, rfl⟩
  | cons b bound ih => exact ih (σ.define i b.1.lexeme b.2)

theorem Declares.methodOf (h : σ.Declares P) {r : Ref} {name : String} {m : Closure}
    (hm : σ.methodOf? r name = some m) : P m.declaration := by
  rw [methodOf?] at hm
  split at hm
  · exact h.method hm
  · cases hm

end Store

theorem RunState.Settled.self {s : RunState} (h : s.store.Declares P) : s.Settled P s := ⟨h, rfl, rfl⟩

theorem RunState.Settled.trans {s t u : RunState} (h : s.Settled P t) (h' : t.Settled P u) :
    s.Settled P u :=
  ⟨h'.store, h'.frames.trans h.frames, h'.output.trans h.output⟩

theorem Outcome.Ends.mono {goal goal' : α → Prop} {after after' : RunState → Prop} {r : Outcome α}
    (h : r.Ends goal after) (hg : ∀ a, goal a → goal' a) (ha : ∀ s, after s → after' s) :
    r.Ends goal' after' := by
  cases r with
  | done a s => exact ⟨hg a h.1, ha s h.2⟩
  | failed e s => exact ha s h
  | exhausted => exact h

namespace Run

variable {scope : ScopeId}

theorem Prompt.bind {goal : α → Prop} {goal' : β → Prop} {m : Run α} {f : α → Run β}
    (hm : Prompt P goal m) (hf : ∀ a, goal a → Prompt P goal' (f a)) : Prompt P goal' (m >>= f) := by
  intro s hs
  have hms := hm s hs
  rw [run_bind]
  cases h : m s with
  | done a t =>
    rw [h] at hms
    exact (hf a hms.1 t hms.2.store).mono (fun _ => id) fun u hu => hms.2.trans hu
  | failed e t =>
    rw [h] at hms
    exact hms
  | exhausted =>
    rw [h] at hms
    exact hms

theorem prompt_pure {goal : α → Prop} {a : α} (h : goal a) : Prompt P goal (pure a) :=
  fun _ hs => ⟨h, .self hs⟩

theorem prompt_fail {goal : α → Prop} (token : Token) (fault : Fault) :
    Prompt P goal (fail token fault) :=
  fun _ hs => .self hs

theorem prompt_read (f : Store → α) : Prompt P (fun _ => True) (read f) := fun _ hs => ⟨trivial, .self hs⟩

/-- Looking for a function or a method, and finding one of the store if any. -/
theorem prompt_find {f : Store → Option Closure}
    (h : ∀ {σ m}, σ.Declares P → f σ = some m → P m.declaration) :
    Prompt P (fun found => ∀ m, found = some m → P m.declaration) (read f) :=
  fun _ hs => ⟨fun _ hm => h hs hm, .self hs⟩

/-- Making something, in a store that has the same functions and methods before and after that. -/
theorem prompt_make_of_eq {f : Store → α × Store} (hf : ∀ σ, (f σ).2.functions = σ.functions)
    (hc : ∀ σ, (f σ).2.classes = σ.classes) : Prompt P (fun _ => True) (make f) :=
  fun _ hs => ⟨trivial, hs.of_eq (hf _) (hc _), rfl, rfl⟩

theorem prompt_define (name : String) (v : Value) :
    Prompt P (fun _ => True) (change (·.define scope name v)) :=
  fun _ hs => ⟨trivial, hs.of_eq rfl rfl, rfl, rfl⟩

theorem prompt_setField (r : Ref) (name : String) (v : Value) :
    Prompt P (fun _ => True) (change (·.setField r name v)) :=
  fun _ hs => ⟨trivial, hs.of_eq rfl rfl, rfl, rfl⟩

theorem prompt_newFunction {f : Closure} (hf : P f.declaration) :
    Prompt P (fun _ => True) (make (·.newFunction f)) :=
  fun _ hs => ⟨trivial, hs.newFunction hf, rfl, rfl⟩

theorem prompt_newClass {K : ClassObject} (hK : ∀ {name m}, K.methods.get? name = some m → P m.declaration) :
    Prompt P (fun _ => True) (make (·.newClass K)) :=
  fun _ hs => ⟨trivial, hs.newClass hK, rfl, rfl⟩

/-- Binding a method to its receiver. -/
theorem prompt_bind {m : Closure} (hm : P m.declaration) (r : Ref) :
    Prompt P (fun bound => P bound.declaration) (make (·.bind m r)) :=
  fun _ hs => ⟨hm, hs.of_eq rfl rfl, rfl, rfl⟩

theorem prompt_bindMethod {m : Closure} (hm : P m.declaration) (r : Ref) :
    Prompt P (fun _ => True) (bindMethod m r) := by
  intro s hs
  have hbound : (s.store.bind m r).2.Declares P := hs.of_eq rfl rfl
  exact ⟨trivial, hbound.newFunction hm, rfl, rfl⟩

theorem prompt_lookup (name : Token) : Prompt P (fun _ => True) (lookup scope name) := by
  intro s hs
  cases hv : s.store.lookup? scope name.lexeme with
  | some v =>
    simp only [lookup, hv]
    exact ⟨trivial, .self hs⟩
  | none =>
    simp only [lookup, hv]
    exact .self hs

theorem prompt_assign (name : Token) (v : Value) : Prompt P (fun _ => True) (assign scope name v) := by
  intro s hs
  cases hh : s.store.holder? scope name.lexeme with
  | some holder =>
    simp only [assign, hh]
    exact ⟨trivial, hs.of_eq rfl rfl, rfl, rfl⟩
  | none =>
    simp only [assign, hh]
    exact .self hs

theorem prompt_property (object : Value) (name : Token) :
    Prompt P (fun _ => True) (property object name) := by
  unfold property
  split
  · refine (prompt_read _).bind fun field _ => ?_
    split
    · exact prompt_pure trivial
    · refine (prompt_find fun h => h.methodOf).bind fun method hmethod => ?_
      split
      · exact prompt_bindMethod (hmethod _ rfl) _
      · exact prompt_fail _ _
  · exact prompt_fail _ _

theorem prompt_fieldOwner (object : Value) (name : Token) :
    Prompt P (fun _ => True) (fieldOwner object name) := by
  unfold fieldOwner
  split
  · exact prompt_pure trivial
  · exact prompt_fail _ _

theorem prompt_superMethod (keyword method : Token) :
    Prompt P (fun _ => True) (superMethod scope keyword method) := by
  rw [superMethod]
  refine (prompt_lookup keyword).bind fun superclass _ => ?_
  split
  · refine (prompt_lookup Token.receiver).bind fun receiver _ => ?_
    split
    · refine (prompt_find fun h => h.method).bind fun m hm => ?_
      split
      · exact prompt_bindMethod (hm _ rfl) _
      · exact prompt_fail _ _
    · exact prompt_fail _ _
  · exact prompt_fail _ _

theorem prompt_superclassNamed (name : Token) :
    Prompt P (fun _ => True) (superclassNamed scope name) := by
  refine (prompt_lookup name).bind fun v _ => ?_
  split
  · exact prompt_pure trivial
  · exact prompt_fail _ _

theorem prompt_declareClass (name : Token) (superclass : Option Token) {methods : List FunctionDecl}
    (hm : ∀ f ∈ methods, P f) :
    Prompt P (fun _ => True) (declareClass scope name superclass methods) := by
  have htable {i : ScopeId} {name m} (h : (methodTable i methods).get? name = some m) : P m.declaration :=
    get?_methodTable (P := fun m => P m.declaration) (fun f hf _ => hm f hf) h
  cases superclass with
  | none =>
    rw [declareClass_none]
    refine (prompt_define _ _).bind fun _ _ => ?_
    exact (prompt_newClass htable).bind fun ref _ => prompt_define _ _
  | some superName =>
    rw [declareClass_some]
    refine (prompt_superclassNamed _).bind fun c _ => (prompt_define _ _).bind fun _ _ => ?_
    refine .bind (prompt_make_of_eq (fun _ => rfl) fun _ => rfl) fun inner _ => ?_
    exact (prompt_newClass htable).bind fun ref _ => prompt_define _ _

theorem prompt_enter (f : Closure) (args : List Value) : Prompt P (fun _ => True) (enter f args) :=
  prompt_make_of_eq (fun _ => (Store.foldl_define_eq _ _ _).1) fun _ => (Store.foldl_define_eq _ _ _).2

theorem prompt_leave (f : Closure) (c : Completion) : Prompt P (fun _ => True) (leave f c) := by
  unfold leave
  split
  · refine (prompt_lookup Token.receiver).bind fun receiver _ => ?_
    split
    · split
      · exact prompt_pure trivial
      · exact prompt_fail _ _
    · exact prompt_pure trivial
  · exact prompt_pure trivial

theorem prompt_applyUnary (op : Token) (v : Value) : Prompt P (fun _ => True) (applyUnary op v) := by
  unfold applyUnary
  split
  · exact prompt_pure trivial
  · exact prompt_pure trivial
  · exact prompt_fail _ _
  · exact prompt_fail _ _

theorem prompt_applyBinary (op : Token) (l r : Value) :
    Prompt P (fun _ => True) (applyBinary op l r) := by
  unfold applyBinary
  split
  · exact prompt_pure trivial
  · exact prompt_pure trivial
  · unfold applyPlus
    split
    · exact prompt_pure trivial
    · exact prompt_pure trivial
    · exact prompt_fail _ _
  · split
    · unfold applyNumeric
      split
      case h_8 => exact prompt_fail _ _
      all_goals exact prompt_pure trivial
    · exact prompt_fail _ _

end Run

end LoxLang
