import LoxLang.Store

/-!
# The store, one step at a time

The searches of a store as equations for one step, and what binding a name and making a scope do to what
scopes bind and where they lie.

Main statements: `holder?_eq`, `lookup?_eq` and `method?_eq`, for the searches, and
`exists_class_of_method?`, where a method comes from.
-/

namespace LoxLang

theorem Bindings.mem_names_of_contains {b : Bindings α} {name : String} (h : b.contains name = true) :
    name ∈ b.names := by
  obtain ⟨v, hv⟩ := Option.isSome_iff_exists.1 h
  obtain ⟨before, after, heq, -⟩ := List.lookup_eq_some_iff.1 hv
  rw [names, heq]
  simp

namespace Store

variable {σ σ' : Store} {i : ScopeId} {name : String}

/-! ### The search for a name -/

theorem outer?_eq (σ : Store) (i : ScopeId) :
    σ.outer? i = (σ.scopes[i]?).bind fun sc => sc.parent.filter (· < i) := by
  rw [outer?]
  cases σ.scopes[i]? with
  | none => rfl
  | some sc =>
    obtain ⟨parent, bindings⟩ := sc
    cases parent with
    | none => rfl
    | some p => simp [Option.filter]

theorem binds_eq_isSome (σ : Store) (i : ScopeId) (name : String) :
    σ.binds i name = (σ.own? i name).isSome := by
  rw [binds, own?]
  split <;> rfl

/-- A name is bound in a scope or around it. -/
theorem holder?_eq (σ : Store) (i : ScopeId) (name : String) :
    σ.holder? i name =
      if σ.binds i name then some i else (σ.outer? i).bind fun p => σ.holder? p name := by
  cases hb : σ.binds i name with
  | true => rw [holder?_of_binds hb, if_pos rfl]
  | false =>
    rw [if_neg Bool.false_ne_true]
    cases hp : σ.outer? i with
    | none => rw [holder?_of_root hb hp, Option.bind_none]
    | some p => rw [holder?_of_outer hb hp, Option.bind_some]

/-- A name stands for what a scope binds it to, or else for what it stands for around the scope. -/
theorem lookup?_eq (σ : Store) (i : ScopeId) (name : String) :
    σ.lookup? i name = (σ.own? i name).or ((σ.outer? i).bind fun p => σ.lookup? p name) := by
  rw [lookup?, holder?_eq, binds_eq_isSome]
  cases hown : σ.own? i name with
  | some v => exact hown
  | none => cases σ.outer? i <;> rfl

theorem lt_of_binds (h : σ.binds i name = true) : i < σ.scopes.size := by
  rw [binds] at h
  split at h
  · next hi => exact (Array.getElem?_eq_some_iff.1 hi).1
  · cases h

theorem lt_of_outer? {p : ScopeId} (h : σ.outer? i = some p) : i < σ.scopes.size := by
  rw [outer?_eq] at h
  obtain ⟨sc, hi, -⟩ := Option.bind_eq_some_iff.1 h
  exact (Array.getElem?_eq_some_iff.1 hi).1

section Scopes

variable (h : σ'.scopes = σ.scopes)

include h

theorem binds_congr (i : ScopeId) (name : String) : σ'.binds i name = σ.binds i name := by
  rw [binds, binds, h]

theorem outer?_congr (i : ScopeId) : σ'.outer? i = σ.outer? i := by
  rw [outer?, outer?, h]

/-- The search for a name looks at scopes only. -/
theorem holder?_congr (i : ScopeId) (name : String) : σ'.holder? i name = σ.holder? i name := by
  induction i using Nat.strongRecOn with
  | ind i ih =>
    rw [holder?_eq σ', holder?_eq σ, binds_congr h, outer?_congr h]
    cases hp : σ.outer? i with
    | none => rfl
    | some p => rw [Option.bind_some, Option.bind_some, ih p (outer?_lt hp)]

theorem lookup?_congr (i : ScopeId) (name : String) : σ'.lookup? i name = σ.lookup? i name := by
  simp only [lookup?, own?, holder?_congr h, h]

end Scopes

/-! ### The search for a method -/

theorem superclass?_eq (σ : Store) (c : Nat) :
    σ.superclass? c = ((σ.classes[c]?).bind (·.superclass)).filter (· < c) := by
  rw [superclass?]
  cases σ.classes[c]? with
  | none => rfl
  | some K =>
    obtain ⟨name, superclass, methods⟩ := K
    cases superclass with
    | none => rfl
    | some p => simp [Option.filter]

/-- A class has a method by itself or by its superclass. -/
theorem method?_eq (σ : Store) (c : Nat) (name : String) :
    σ.method? c name =
      (σ.ownMethod? c name).or ((σ.superclass? c).bind fun p => σ.method? p name) := by
  rw [Store.method?]
  cases σ.ownMethod? c name with
  | some m => rfl
  | none =>
    simp only [Option.none_or]
    split
    · next p hp => rw [hp, Option.bind_some]
    · next hp => rw [hp, Option.bind_none]

theorem method?_of_own {c : Nat} {m : Closure} (h : σ.ownMethod? c name = some m) :
    σ.method? c name = some m := by
  rw [method?_eq, h, Option.some_or]

theorem method?_of_superclass {c p : Nat} (h : σ.ownMethod? c name = none) (hp : σ.superclass? c = some p) :
    σ.method? c name = σ.method? p name := by
  rw [method?_eq, h, hp, Option.none_or, Option.bind_some]

/-- A class has its methods from itself or from its ancestors. -/
theorem exists_class_of_method? {c : Nat} {m : Closure} (hm : σ.method? c name = some m) :
    ∃ (k : Nat) (K : ClassObject), σ.classes[k]? = some K ∧ K.methods.get? name = some m := by
  induction c using Nat.strongRecOn with
  | ind c ih =>
    rw [method?_eq] at hm
    rcases Option.or_eq_some_iff.1 hm with hown | ⟨-, hinherited⟩
    · rw [ownMethod?] at hown
      split at hown
      · next K hK => exact ⟨c, K, hK, hown⟩
      · cases hown
    · obtain ⟨p, hp, hm⟩ := Option.bind_eq_some_iff.1 hinherited
      exact ih p (superclass?_lt hp) hm

/-! ### Binding names and making scopes -/

theorem scopes_define (σ : Store) (i j : ScopeId) (name : String) (v : Value) :
    (σ.define i name v).scopes[j]? = (σ.scopes[j]?).map fun sc =>
      if i = j then { sc with bindings := sc.bindings.put name v } else sc := by
  simp only [define, Array.getElem?_modify]
  split
  · rfl
  · simp

theorem outer?_define (σ : Store) (i j : ScopeId) (name : String) (v : Value) :
    (σ.define i name v).outer? j = σ.outer? j := by
  rw [outer?_eq, outer?_eq, scopes_define]
  cases σ.scopes[j]? with
  | none => rfl
  | some sc =>
    by_cases hi : i = j <;> simp [hi]

theorem own?_define (σ : Store) (i j : ScopeId) (name other : String) (v : Value) :
    (σ.define i name v).own? j other =
      if i = j ∧ name = other ∧ j < σ.scopes.size then some v else σ.own? j other := by
  rw [own?, own?]
  rw [scopes_define]
  cases hj : σ.scopes[j]? with
  | none =>
    have := Array.getElem?_eq_none_iff.1 hj
    simp only [Option.map_none]
    rw [if_neg fun h => absurd h.2.2 (Nat.not_lt.2 this)]
  | some sc =>
    have hlt := (Array.getElem?_eq_some_iff.1 hj).1
    simp only [Option.map_some, hlt, and_true]
    by_cases hi : i = j
    · by_cases hn : name = other
      · subst hn
        simp [hi]
      · have := sc.bindings.get?_put_of_ne (Ne.symm hn) v
        simp [hi, hn, this]
    · simp [hi]

theorem own?_newScope (σ : Store) (parent : Option ScopeId) (j : ScopeId) (name : String) :
    (σ.newScope parent).2.own? j name = σ.own? j name := by
  unfold own? newScope
  by_cases hj : j = σ.scopes.size
  · subst hj
    simp [Bindings.get?]
  · simp [Array.getElem?_push, hj]

theorem own?_of_le (σ : Store) (hi : σ.scopes.size ≤ i) (name : String) : σ.own? i name = none := by
  rw [own?]
  simp [hi]

theorem outer?_newScope_of_lt (σ : Store) (parent : Option ScopeId) (hi : i < σ.scopes.size) :
    (σ.newScope parent).2.outer? i = σ.outer? i := by
  simp [outer?_eq, Store.newScope, Array.getElem?_push, Nat.ne_of_lt hi]

theorem outer?_newScope (σ : Store) {scope : ScopeId} (h : scope < σ.scopes.size) :
    (σ.newScope (some scope)).2.outer? (σ.newScope (some scope)).1 = some scope := by
  simp [outer?, newScope, h]

/-! ### The names of a scope -/

/-- The names of a scope, if there is one. -/
def names? (σ : Store) (i : ScopeId) : Option (List String) := (σ.scopes[i]?).map (·.bindings.names)

theorem names?_define (σ : Store) (i j : ScopeId) (name : String) (v : Value) :
    (σ.define i name v).names? j =
      (σ.names? j).map fun names => if i = j ∧ name ∉ names then names ++ [name] else names := by
  rw [names?, scopes_define, names?, Option.map_map, Option.map_map]
  congr 1
  funext sc
  by_cases hij : i = j <;> by_cases hn : name ∈ sc.bindings.names <;>
    simp [hij, hn, Bindings.names_put]

theorem names?_define_of_ne (h : i ≠ j) : (σ.define i name v).names? j = σ.names? j := by
  rw [names?_define]
  simp [h]

theorem size_define (σ : Store) (i : ScopeId) (name : String) (v : Value) :
    (σ.define i name v).scopes.size = σ.scopes.size := by
  simp [define]

/-- Binding anew a name that is bound adds none. -/
theorem names?_define_of_binds (h : σ.binds i name = true) (v : Value) (j : ScopeId) :
    (σ.define i name v).names? j = σ.names? j := by
  by_cases hij : i = j
  · subst hij
    rw [names?_define, names?]
    rw [binds] at h
    split at h
    · next sc hsc => simp [hsc, Bindings.mem_names_of_contains h]
    · cases h
  · exact names?_define_of_ne hij

end Store

end LoxLang
