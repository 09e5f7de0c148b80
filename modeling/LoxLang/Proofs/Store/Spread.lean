import LoxLang.Proofs.Placement.Store
import LoxLang.Proofs.Store.Alike

/-!
# Stores that differ in blank scopes

A second store may have more scopes than a first one: besides a counterpart of each scope of the first, its
twin, there may be blank ones, which bind nothing. They stand between scopes, and whoever looks for a name
from such a scope goes right through it. The two stores have the same functions, classes and
instances in the same order, so that values of the one mean the same in the other.

Main statements: `Spread.lookup?` and `Spread.holder?`, on asking; `Spread.define`, `Spread.newScope`,
`Spread.newBlank`, `Spread.newFunction`, `Spread.newClass` and `Spread.bind`, on making.
-/

namespace LoxLang

open List (Forall₂)

/-- What a scope of the second store is. -/
inductive Seat where
  /-- the twin of a scope of the first store -/
  | twin (i : ScopeId)
  /-- a blank scope, from which as much can be seen as from a scope of the first store -/
  | blank (i : ScopeId)

/-- What the scopes of the second store are, one after another. -/
abbrev Layout := List Seat

namespace Layout

/-- A scope of the second store is the twin of one of the first. -/
def Twin (w : Layout) (i j : ScopeId) : Prop := w[j]? = some (.twin i)

/-- From a scope of the second store as much can be seen as from one of the first. -/
def Sees (w : Layout) (i j : ScopeId) : Prop := w.Twin i j ∨ w[j]? = some (.blank i)

/-- A layout for two stores that are the same. -/
def same (size : Nat) : Layout := (List.range size).map .twin

variable {w u : Layout} {i j : ScopeId}

theorem getElem?_of_isPrefix (h : w <+: u) {seat : Seat} (hj : w[j]? = some seat) :
    u[j]? = some seat := by
  obtain ⟨more, rfl⟩ := h
  have hlt := (List.getElem?_eq_some_iff.1 hj).1
  rw [List.getElem?_append_left hlt, hj]

theorem Twin.mono (h : w.Twin i j) (hu : w <+: u) : u.Twin i j := getElem?_of_isPrefix hu h

theorem Twin.sees (h : w.Twin i j) : w.Sees i j := .inl h

theorem Sees.mono (h : w.Sees i j) (hu : w <+: u) : u.Sees i j :=
  h.imp (fun h => h.mono hu) (getElem?_of_isPrefix hu)

theorem Sees.lt (h : w.Sees i j) : j < w.length :=
  h.elim (fun h => (List.getElem?_eq_some_iff.1 h).1) fun h => (List.getElem?_eq_some_iff.1 h).1

theorem isPrefix_append (w : Layout) (seat : Seat) : w <+: w ++ [seat] := ⟨[seat], rfl⟩

theorem getElem?_append_cases {j : Nat} {seat other : Seat} (h : (w ++ [seat])[j]? = some other) :
    w[j]? = some other ∨ j = w.length ∧ other = seat := by
  rcases Nat.lt_or_ge j w.length with hj | hj
  · rw [List.getElem?_append_left hj] at h
    exact .inl h
  · rw [List.getElem?_append_right hj] at h
    obtain ⟨hlt, rfl⟩ := List.getElem?_eq_some_iff.1 h
    rw [List.length_singleton] at hlt
    exact .inr ⟨by omega, List.getElem_singleton _⟩

theorem getElem?_append_self (w : Layout) (seat : Seat) : (w ++ [seat])[w.length]? = some seat := by simp

theorem same_twin {size : Nat} : (same size).Twin i j ↔ i = j ∧ j < size := by
  rw [Twin, same, List.getElem?_map]
  constructor
  · intro h
    obtain ⟨k, hk, heq⟩ := Option.map_eq_some_iff.1 h
    obtain ⟨hlt, rfl⟩ := List.getElem?_eq_some_iff.1 hk
    simp only [List.getElem_range, Seat.twin.injEq] at heq
    exact ⟨heq.symm, by simpa using hlt⟩
  · rintro ⟨rfl, hlt⟩
    simp [hlt]

theorem same_not_blank {size : Nat} : (same size)[j]? ≠ some (.blank i) := by
  rw [same, List.getElem?_map]
  intro h
  obtain ⟨k, -, heq⟩ := Option.map_eq_some_iff.1 h
  cases heq

end Layout

/-! ### Stores -/

/-- One function, in scopes from which the same can be seen. -/
structure Closure.Spread (w : Layout) (f f' : Closure) : Prop where
  declaration : f'.declaration = f.declaration
  scope : w.Sees f.scope f'.scope
  isInitializer : f'.isInitializer = f.isInitializer

/-- One class, with methods in scopes from which the same can be seen. -/
structure ClassObject.Spread (w : Layout) (K K' : ClassObject) : Prop where
  name : K'.name = K.name
  superclass : K'.superclass = K.superclass
  methods : ∀ name, Option.Rel (Closure.Spread w) (K.methods.get? name) (K'.methods.get? name)

/-- Each scope of the first store has one twin in the second, which binds the same and lies in a scope that
sees the same. The other scopes of the second store are blank. The rest is the same in both. -/
structure Store.Spread (w : Layout) (σ τ : Store) : Prop where
  size : w.length = τ.scopes.size
  lt : ∀ {i j}, w.Twin i j → i < σ.scopes.size
  own : ∀ {i j}, w.Twin i j → ∀ name, τ.own? j name = σ.own? i name
  outer : ∀ {i j}, w.Twin i j → Option.Rel w.Sees (σ.outer? i) (τ.outer? j)
  blank : ∀ {i j : ScopeId}, w[j]? = some (.blank i) →
    (∀ name, τ.own? j name = none) ∧ ∃ q, τ.outer? j = some q ∧ w.Sees i q
  every : ∀ {i}, i < σ.scopes.size → ∃ j, w.Twin i j
  once : ∀ {i j k}, w.Twin i j → w.Twin i k → j = k
  functions : Forall₂ (Closure.Spread w) σ.functions.toList τ.functions.toList
  classes : Forall₂ (ClassObject.Spread w) σ.classes.toList τ.classes.toList
  instances : τ.instances = σ.instances

/-- The functions and methods of a store belong to scopes that are there. -/
structure Store.Scoped (σ : Store) : Prop where
  functions : ∀ {k : Nat} {f}, σ.functions[k]? = some f → f.scope < σ.scopes.size
  methods : ∀ {k : Nat} {K name m}, σ.classes[k]? = some K → K.methods.get? name = some m →
    m.scope < σ.scopes.size

variable {w u : Layout} {σ τ : Store} {i j : ScopeId}

theorem Closure.Spread.mono {f f' : Closure} (h : f.Spread w f') (hu : w <+: u) : f.Spread u f' :=
  ⟨h.declaration, h.scope.mono hu, h.isInitializer⟩

theorem rel_mono {R S : α → α → Prop} {a a' : Option α} (h : Option.Rel R a a')
    (hRS : ∀ a a', R a a' → S a a') : Option.Rel S a a' := by
  cases h with
  | some h => exact .some (hRS _ _ h)
  | none => exact .none

theorem ClassObject.Spread.mono {K K' : ClassObject} (h : K.Spread w K') (hu : w <+: u) : K.Spread u K' :=
  ⟨h.name, h.superclass, fun name => rel_mono (h.methods name) fun _ _ hm => hm.mono hu⟩

namespace Store

theorem outer?_newScope_self (σ : Store) (hi : i < σ.scopes.size) :
    (σ.newScope (some i)).2.outer? σ.scopes.size = some i := outer?_newScope σ hi

/-- Every store in which functions belong to scopes that are there is the same as itself. -/
theorem Scoped.spread (h : σ.Scoped) : σ.Spread (Layout.same σ.scopes.size) σ where
  size := by simp [Layout.same]
  lt htwin := by
    obtain ⟨rfl, hlt⟩ := Layout.same_twin.1 htwin
    exact hlt
  own htwin name := by
    obtain ⟨rfl, -⟩ := Layout.same_twin.1 htwin
    rfl
  outer {i j} htwin := by
    obtain ⟨rfl, hlt⟩ := Layout.same_twin.1 htwin
    cases hp : σ.outer? i with
    | none => exact .none
    | some p => exact .some (.inl (Layout.same_twin.2 ⟨rfl, Nat.lt_trans (outer?_lt hp) hlt⟩))
  blank hblank := absurd hblank Layout.same_not_blank
  every {i} hi := ⟨i, Layout.same_twin.2 ⟨rfl, hi⟩⟩
  once hj hk := (Layout.same_twin.1 hj).1.symm.trans (Layout.same_twin.1 hk).1
  functions := by
    refine List.forall₂_same.2 fun f hf => ⟨rfl, .inl (Layout.same_twin.2 ⟨rfl, ?_⟩), rfl⟩
    obtain ⟨k, hk⟩ := List.getElem?_of_mem hf
    exact h.functions (by simpa using hk)
  classes := by
    refine List.forall₂_same.2 fun K hK => ⟨rfl, rfl, fun name => ?_⟩
    obtain ⟨k, hk⟩ := List.getElem?_of_mem hK
    cases hm : K.methods.get? name with
    | none => exact .none
    | some m =>
      exact .some ⟨rfl, .inl (Layout.same_twin.2 ⟨rfl, h.methods (by simpa using hk) hm⟩), rfl⟩
  instances := rfl

/-! ### Asking -/

/-- Whoever looks for a name finds it in scopes that are twins. -/
theorem Spread.holder? (h : σ.Spread w τ) (hs : w.Sees i j) (name : String) :
    Option.Rel w.Twin (σ.holder? i name) (τ.holder? j name) := by
  induction j using Nat.strongRecOn generalizing i with
  | ind j ih =>
    rcases hs with hs | hs
    · have hbinds : τ.binds j name = σ.binds i name := by
        rw [binds_eq_isSome, binds_eq_isSome, h.own hs]
      cases hb : σ.binds i name with
      | true =>
        rw [holder?_of_binds hb, holder?_of_binds (hbinds.trans hb)]
        exact .some hs
      | false =>
        have houter := h.outer hs
        generalize hp : σ.outer? i = p, hq : τ.outer? j = q at houter
        cases houter with
        | none =>
          rw [holder?_of_root hb hp, holder?_of_root (hbinds.trans hb) hq]
          exact .none
        | some hsees =>
          rw [holder?_of_outer hb hp, holder?_of_outer (hbinds.trans hb) hq]
          exact ih _ (outer?_lt hq) hsees
    · obtain ⟨hown, q, hq, hsees⟩ := h.blank hs
      have hb : τ.binds j name = false := by rw [binds_eq_isSome, hown]; rfl
      rw [holder?_of_outer hb hq]
      exact ih q (outer?_lt hq) hsees

theorem Spread.lookup? (h : σ.Spread w τ) (hs : w.Sees i j) (name : String) :
    τ.lookup? j name = σ.lookup? i name := by
  have hholder := h.holder? hs name
  rw [Store.lookup?, Store.lookup?]
  generalize σ.holder? i name = k, τ.holder? j name = k' at hholder
  cases hholder with
  | none => rfl
  | some htwin => exact h.own htwin name

theorem Spread.function? (h : σ.Spread w τ) (k : Nat) :
    Option.Rel (Closure.Spread w) σ.functions[k]? τ.functions[k]? := by
  simpa using forall₂_getElem? h.functions k

theorem Spread.class? (h : σ.Spread w τ) (k : Nat) :
    Option.Rel (ClassObject.Spread w) σ.classes[k]? τ.classes[k]? := by
  simpa using forall₂_getElem? h.classes k

theorem Spread.ownMethod? (h : σ.Spread w τ) (c : Nat) (name : String) :
    Option.Rel (Closure.Spread w) (σ.ownMethod? c name) (τ.ownMethod? c name) := by
  have hc := h.class? c
  rw [Store.ownMethod?, Store.ownMethod?]
  generalize σ.classes[c]? = K, τ.classes[c]? = K' at hc
  cases hc with
  | none => exact .none
  | some hc => exact hc.methods name

theorem Spread.method? (h : σ.Spread w τ) (c : Nat) (name : String) :
    Option.Rel (Closure.Spread w) (σ.method? c name) (τ.method? c name) :=
  method?_rel h.ownMethod? (fun c => superclass?_rel ClassObject.Spread.superclass (h.class? c)) c name

theorem Spread.methodOf? (h : σ.Spread w τ) (r : Ref) (name : String) :
    Option.Rel (Closure.Spread w) (σ.methodOf? r name) (τ.methodOf? r name) := by
  rw [Store.methodOf?, Store.methodOf?]
  rw [h.instances]
  split
  · exact h.method? _ name
  · exact .none

theorem Spread.field? (h : σ.Spread w τ) (r : Ref) (name : String) : τ.field? r name = σ.field? r name := by
  rw [Store.field?, Store.field?, h.instances]

theorem Spread.arity? (h : σ.Spread w τ) (callee : Value) : τ.arity? callee = σ.arity? callee :=
  arity?_rel (fun hf => by rw [hf.declaration]) h.function? h.method? callee

/-! ### Making and changing -/

/-- Stores stay spread where nothing but functions, classes and instances change. -/
theorem Spread.of_scopes (h : σ.Spread w τ) {σ' τ' : Store} (hσ : σ'.scopes = σ.scopes)
    (hτ : τ'.scopes = τ.scopes)
    (hfunctions : Forall₂ (Closure.Spread w) σ'.functions.toList τ'.functions.toList)
    (hclasses : Forall₂ (ClassObject.Spread w) σ'.classes.toList τ'.classes.toList)
    (hinstances : τ'.instances = σ'.instances) : σ'.Spread w τ' where
  size := by rw [h.size, hτ]
  lt htwin := by
    rw [hσ]
    exact h.lt htwin
  own htwin name := by
    have := h.own htwin name
    simpa only [own?, hσ, hτ] using this
  outer htwin := by
    rw [outer?_congr hσ, outer?_congr hτ]
    exact h.outer htwin
  blank hblank := by
    rw [outer?_congr hτ]
    have := h.blank hblank
    simpa only [own?, hτ] using this
  every hi := h.every (hσ ▸ hi)
  once := h.once
  functions := hfunctions
  classes := hclasses
  instances := hinstances

theorem Spread.define (h : σ.Spread w τ) (ht : w.Twin i j) (name : String) (v : Value) :
    (σ.define i name v).Spread w (τ.define j name v) where
  size := by simpa [Store.define] using h.size
  lt htwin := by simpa [Store.define] using h.lt htwin
  own {i' j'} htwin other := by
    have hiff : (i = i' ∧ name = other ∧ i' < σ.scopes.size) ↔
        (j = j' ∧ name = other ∧ j' < τ.scopes.size) := by
      constructor
      · rintro ⟨rfl, hname, -⟩
        exact ⟨h.once ht htwin, hname, h.size ▸ htwin.sees.lt⟩
      · rintro ⟨rfl, hname, -⟩
        exact ⟨by simpa using Option.some.inj (ht.symm.trans htwin), hname, h.lt htwin⟩
    rw [own?_define, own?_define, h.own htwin]
    simp only [hiff]
  outer htwin := by
    rw [outer?_define, outer?_define]
    exact h.outer htwin
  blank {i' j'} hblank := by
    obtain ⟨hown, houter⟩ := h.blank hblank
    refine ⟨fun other => ?_, by rwa [outer?_define]⟩
    have hne : j ≠ j' := by
      rintro rfl
      cases ht.symm.trans hblank
    rw [own?_define, if_neg fun heq => hne heq.1, hown]
  every hi := h.every (by simpa [Store.define] using hi)
  once := h.once
  functions := h.functions
  classes := h.classes
  instances := h.instances

theorem Spread.lt_of_sees (h : σ.Spread w τ) (hs : w.Sees i j) : i < σ.scopes.size := by
  induction j using Nat.strongRecOn with
  | ind j ih =>
    rcases hs with hs | hs
    · exact h.lt hs
    · obtain ⟨-, q, hq, hsees⟩ := h.blank hs
      exact ih q (outer?_lt hq) hsees

theorem outer_mono {a a' : Option ScopeId} (h : Option.Rel w.Sees a a') (hu : w <+: u) :
    Option.Rel u.Sees a a' :=
  rel_mono h fun _ _ hs => hs.mono hu

/-- Blank scopes stay blank, and go on seeing what they see, when another scope is added. -/
theorem Spread.blank_newScope (h : σ.Spread w τ) {parent : Option ScopeId} (hu : w <+: u)
    (hblank : w[j]? = some (.blank i)) :
    (∀ name, (τ.newScope parent).2.own? j name = none) ∧
      ∃ q, (τ.newScope parent).2.outer? j = some q ∧ u.Sees i q := by
  have hlt : j < τ.scopes.size := h.size ▸ (List.getElem?_eq_some_iff.1 hblank).1
  obtain ⟨hown, q, hq, hsees⟩ := h.blank hblank
  refine ⟨fun name => by rw [own?_newScope, hown], q, ?_, hsees.mono hu⟩
  rw [outer?_newScope_of_lt τ parent hlt, hq]

theorem Spread.defineAll (h : σ.Spread w τ) (ht : w.Twin i j) (bound : List (Token × Value)) :
    (bound.foldl (fun σ (p, v) => σ.define i p.lexeme v) σ).Spread w
      (bound.foldl (fun σ (p, v) => σ.define j p.lexeme v) τ) := by
  induction bound generalizing σ τ with
  | nil => exact h
  | cons b bound ih => exact ih (h.define ht b.1.lexeme b.2)

/-- A scope in the first store and its twin in the second. -/
theorem Spread.newScope (h : σ.Spread w τ) (hs : w.Sees i j) :
    (σ.newScope (some i)).2.Spread (w ++ [.twin σ.scopes.size]) (τ.newScope (some j)).2 := by
  have hw := Layout.isPrefix_append w (.twin σ.scopes.size)
  have hi := h.lt_of_sees hs
  have hj : j < τ.scopes.size := h.size ▸ hs.lt
  -- twins are old ones, or both are the new scopes
  have hcases {i' j'} (htwin : (w ++ [.twin σ.scopes.size] : Layout).Twin i' j') :
      w.Twin i' j' ∨ i' = σ.scopes.size ∧ j' = τ.scopes.size := by
    rcases Layout.getElem?_append_cases htwin with htwin | ⟨rfl, heq⟩
    · exact .inl htwin
    · exact .inr ⟨by simpa using heq, h.size⟩
  refine ⟨by simp [Store.newScope, h.size], ?_, ?_, ?_, ?_, ?_, ?_, ?_, ?_, h.instances⟩
  case refine_1 =>
    intro i' j' htwin
    rw [Store.newScope, Array.size_push]
    rcases hcases htwin with htwin | ⟨rfl, -⟩
    · exact Nat.lt_succ_of_lt (h.lt htwin)
    · exact Nat.lt_succ_self _
  case refine_2 =>
    intro i' j' htwin name
    rw [own?_newScope, own?_newScope]
    rcases hcases htwin with htwin | ⟨rfl, rfl⟩
    · exact h.own htwin name
    · rw [own?_of_le τ (Nat.le_refl _), own?_of_le σ (Nat.le_refl _)]
  case refine_3 =>
    intro i' j' htwin
    rcases hcases htwin with htwin | ⟨rfl, rfl⟩
    · rw [outer?_newScope_of_lt σ _ (h.lt htwin), outer?_newScope_of_lt τ _ (h.size ▸ htwin.sees.lt)]
      exact outer_mono (h.outer htwin) hw
    · rw [outer?_newScope_self σ hi, outer?_newScope_self τ hj]
      exact .some (hs.mono hw)
  case refine_4 =>
    intro i' j' hblank
    rcases Layout.getElem?_append_cases hblank with hblank | ⟨-, heq⟩
    · exact h.blank_newScope hw hblank
    · cases heq
  case refine_5 =>
    intro i' hi'
    rw [Store.newScope, Array.size_push] at hi'
    rcases Nat.lt_succ_iff_lt_or_eq.1 hi' with hlt | rfl
    · obtain ⟨j', htwin⟩ := h.every hlt
      exact ⟨j', htwin.mono hw⟩
    · exact ⟨w.length, Layout.getElem?_append_self w _⟩
  case refine_6 =>
    intro i' j' k' htwin htwin'
    rcases hcases htwin with htwin | ⟨rfl, rfl⟩
    · rcases hcases htwin' with htwin' | ⟨rfl, -⟩
      · exact h.once htwin htwin'
      · exact absurd (h.lt htwin) (Nat.lt_irrefl _)
    · rcases hcases htwin' with htwin' | ⟨-, rfl⟩
      · exact absurd (h.lt htwin') (Nat.lt_irrefl _)
      · rfl
  case refine_7 => exact h.functions.imp fun _ _ hf => hf.mono hw
  case refine_8 => exact h.classes.imp fun _ _ hK => hK.mono hw

/-- The scopes that are new in both stores are twins. -/
theorem Spread.twin_new (h : σ.Spread w τ) :
    (w ++ [.twin σ.scopes.size] : Layout).Twin σ.scopes.size τ.scopes.size :=
  h.size ▸ Layout.getElem?_append_self w _

/-- A blank scope in the second store. -/
theorem Spread.newBlank (h : σ.Spread w τ) (hs : w.Sees i j) :
    σ.Spread (w ++ [.blank i]) (τ.newScope (some j)).2 := by
  have hw := Layout.isPrefix_append w (.blank i)
  have hj : j < τ.scopes.size := h.size ▸ hs.lt
  have hold {i' j'} (htwin : (w ++ [.blank i] : Layout).Twin i' j') : w.Twin i' j' := by
    rcases Layout.getElem?_append_cases htwin with htwin | ⟨-, heq⟩
    · exact htwin
    · cases heq
  refine ⟨by simp [Store.newScope, h.size], fun htwin => h.lt (hold htwin), ?_, ?_, ?_, ?_, ?_, ?_, ?_,
    h.instances⟩
  case refine_1 =>
    intro i' j' htwin name
    rw [own?_newScope]
    exact h.own (hold htwin) name
  case refine_2 =>
    intro i' j' htwin
    rw [outer?_newScope_of_lt τ _ (h.size ▸ (hold htwin).sees.lt)]
    exact outer_mono (h.outer (hold htwin)) hw
  case refine_3 =>
    intro i' j' hblank
    rcases Layout.getElem?_append_cases hblank with hblank | ⟨rfl, heq⟩
    · exact h.blank_newScope hw hblank
    · cases heq
      refine ⟨fun name => ?_, j, ?_, hs.mono hw⟩
      · rw [own?_newScope, own?_of_le τ (Nat.le_of_eq h.size.symm)]
      · rw [h.size, outer?_newScope_self τ hj]
  case refine_4 =>
    intro i' hi'
    obtain ⟨j', htwin⟩ := h.every hi'
    exact ⟨j', htwin.mono hw⟩
  case refine_5 => exact fun htwin htwin' => h.once (hold htwin) (hold htwin')
  case refine_6 => exact h.functions.imp fun _ _ hf => hf.mono hw
  case refine_7 => exact h.classes.imp fun _ _ hK => hK.mono hw

theorem Spread.newFunction (h : σ.Spread w τ) {f f' : Closure} (hf : f.Spread w f') :
    (τ.newFunction f').1 = (σ.newFunction f).1 ∧
      (σ.newFunction f).2.Spread w (τ.newFunction f').2 := by
  refine ⟨?_, h.of_scopes rfl rfl (forall₂_push h.functions hf) h.classes h.instances⟩
  rw [Store.newFunction, Store.newFunction, hf.declaration, size_eq h.functions]

theorem Spread.newClass (h : σ.Spread w τ) {K K' : ClassObject} (hK : K.Spread w K') :
    (τ.newClass K').1 = (σ.newClass K).1 ∧ (σ.newClass K).2.Spread w (τ.newClass K').2 := by
  refine ⟨?_, h.of_scopes rfl rfl h.functions (forall₂_push h.classes hK) h.instances⟩
  rw [Store.newClass, Store.newClass, hK.name, size_eq h.classes]

theorem Spread.newInstance (h : σ.Spread w τ) (ofClass : Ref) :
    (τ.newInstance ofClass).1 = (σ.newInstance ofClass).1 ∧
      (σ.newInstance ofClass).2.Spread w (τ.newInstance ofClass).2 := by
  rw [Store.newInstance, Store.newInstance, h.instances]
  exact ⟨rfl, h.of_scopes rfl rfl h.functions h.classes rfl⟩

theorem Spread.setField (h : σ.Spread w τ) (receiver : Ref) (name : String) (v : Value) :
    (σ.setField receiver name v).Spread w (τ.setField receiver name v) := by
  refine h.of_scopes rfl rfl h.functions h.classes ?_
  rw [Store.setField, Store.setField, h.instances]

theorem Spread.bind (h : σ.Spread w τ) {m m' : Closure} (hm : m.Spread w m') (receiver : Ref) :
    (σ.bind m receiver).1.Spread (w ++ [.twin σ.scopes.size]) (τ.bind m' receiver).1 ∧
      (σ.bind m receiver).2.Spread (w ++ [.twin σ.scopes.size]) (τ.bind m' receiver).2 := by
  have hstore := (h.newScope hm.scope).define h.twin_new Token.receiver.lexeme (.instanceRef receiver)
  exact ⟨⟨hm.declaration, h.twin_new.sees, hm.isInitializer⟩, hstore⟩

end Store

end LoxLang
