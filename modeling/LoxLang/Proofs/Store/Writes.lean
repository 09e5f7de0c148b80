import LoxLang.Proofs.Store.Basic
import LoxLang.Run.Basic

/-!
# Variables and what was last written to them

What a name stands for in a scope is told from the history of all scopes alone, from what was made,
defined and assigned in which order, without looking at a store: the nearest scope outwards on which the
name has been defined holds it, and the last definition there or assignment that went there counts.

Main statement: `lexical_binding`, where reading and assigning do what the history says.
-/

namespace LoxLang

/-- An operation on the scopes of a program. -/
inductive ScopeOp where
  | new (parent : Option ScopeId)
  | define (scope : ScopeId) (name : String) (value : Value)
  | assign (scope : ScopeId) (name : Token) (value : Value)
  | get (scope : ScopeId) (name : Token)

namespace ScopeOp

/-! ### Histories -/

/-- An operation as the computation of a running program. -/
def run : ScopeOp → Run Unit
  | .new parent => do
    let _ ← Run.make (·.newScope parent)
  | .define scope name value => Run.change (·.define scope name value)
  | .assign scope name value => Run.assign scope name value
  | .get scope name => do
    let _ ← Run.lookup scope name

/-- The state that an operation leaves, whether it fails or not. -/
def after (op : ScopeOp) (s : RunState) : RunState :=
  match op.run s with
  | .done _ s' | .failed _ s' => s'
  | .exhausted => s

/-- The state after a history, the last operation of which stands first. -/
def replay (s : RunState) : List ScopeOp → RunState
  | [] => s
  | op :: earlier => op.after (replay s earlier)

/-- The scopes that a history makes, in the order of their numbers, by the scopes around them. -/
def parents : List ScopeOp → List (Option ScopeId)
  | [] => []
  | .new parent :: earlier => parents earlier ++ [parent]
  | _ :: earlier => parents earlier

/-- An operation is about scopes below a number. -/
def Within (n : Nat) : ScopeOp → Prop
  | .new parent => ∀ p, parent = some p → p < n
  | .define scope _ _ | .assign scope _ _ | .get scope _ => scope < n

/-- Each operation of a history is about scopes that have been made before it. -/
def Legal : List ScopeOp → Prop
  | [] => True
  | op :: earlier => op.Within (parents earlier).length ∧ Legal earlier

/-! ### What a history says of a variable -/

/-- A name has been defined on a scope. -/
def Defined (history : List ScopeOp) (scope : ScopeId) (name : String) : Prop :=
  ∃ value, .define scope name value ∈ history

/-- The nearest scope, from a scope outwards, on which a name has been defined. -/
inductive Nearest (history : List ScopeOp) (name : String) : ScopeId → ScopeId → Prop
  | here : Defined history scope name → Nearest history name scope scope
  | outside : ¬ Defined history scope name → (parents history)[scope]? = some (some parent) →
    Nearest history name parent holder → Nearest history name scope holder

/-- After a history, an operation writes a value to the name that a scope holds. An assignment writes
to the nearest scope that its name has been defined on by then. -/
inductive Writes (history : List ScopeOp) : ScopeOp → ScopeId → String → Value → Prop
  | define : Writes history (.define scope name value) scope name value
  | assign : Nearest history name.lexeme scope holder →
    Writes history (.assign scope name value) holder name.lexeme value

/-- The value that was last written to the name that a scope holds. -/
inductive LastWritten : List ScopeOp → ScopeId → String → Value → Prop
  | now : Writes earlier op scope name value → LastWritten (op :: earlier) scope name value
  | before : (∀ other, ¬ Writes earlier op scope name other) → LastWritten earlier scope name value →
    LastWritten (op :: earlier) scope name value

variable {history : List ScopeOp} {op : ScopeOp} {scope holder : ScopeId} {name : String} {value : Value}

theorem Nearest.defined (h : Nearest history name scope holder) : Defined history holder name := by
  induction h with
  | here h => exact h
  | outside _ _ _ ih => exact ih

theorem Nearest.unique {other : ScopeId} (h : Nearest history name scope holder)
    (h' : Nearest history name scope other) : holder = other := by
  induction h with
  | here hd =>
    cases h' with
    | here => rfl
    | outside hnot => exact absurd hd hnot
  | outside hnot hparent _ ih =>
    cases h' with
    | here hd => exact absurd hd hnot
    | outside _ hparent' h' =>
      cases hparent.symm.trans hparent'
      exact ih h'

theorem Defined.cons (h : Defined history scope name) (op : ScopeOp) :
    Defined (op :: history) scope name :=
  let ⟨value, h⟩ := h
  ⟨value, List.mem_cons_of_mem op h⟩

/-- Only what has been defined gets written to. -/
theorem Writes.defined (h : Writes history op scope name value) :
    Defined (op :: history) scope name := by
  cases h with
  | define => exact ⟨value, List.mem_cons_self⟩
  | assign h => exact h.defined.cons _

/-- A name has a value on the scopes on which it has been defined. -/
theorem exists_lastWritten_iff : (∃ value, LastWritten history scope name value) ↔
    Defined history scope name := by
  constructor
  · rintro ⟨value, h⟩
    induction h with
    | now h => exact h.defined
    | before _ _ ih => exact ih.cons _
  · rintro ⟨value, h⟩
    induction history with
    | nil => cases h
    | cons op earlier ih =>
      by_cases hw : ∃ other, Writes earlier op scope name other
      · obtain ⟨other, hw⟩ := hw
        exact ⟨other, .now hw⟩
      · rcases List.mem_cons.1 h with rfl | h
        · exact absurd ⟨value, .define⟩ hw
        · obtain ⟨last, h⟩ := ih h
          exact ⟨last, .before (not_exists.1 hw) h⟩

/-! ### The store follows the history -/

/-- A store holds what a history says. -/
structure Follows (history : List ScopeOp) (σ : Store) : Prop where
  size : σ.scopes.size = (parents history).length
  outer : ∀ scope, σ.outer? scope = (parents history)[scope]?.join
  own : ∀ scope name value,
    σ.own? scope name = some value ↔ LastWritten history scope name value

namespace Follows

variable {σ : Store}

theorem start (h : σ.scopes = #[]) : Follows [] σ where
  size := by rw [h]; rfl
  outer scope := by simp [Store.outer?, h, parents]
  own scope name value := by
    constructor
    · intro hown
      simp [Store.own?, h] at hown
    · intro hlast
      cases hlast

variable (hf : Follows history σ)

include hf

theorem binds_iff (scope : ScopeId) (name : String) :
    σ.binds scope name = true ↔ Defined history scope name := by
  rw [Store.binds_eq_isSome, Option.isSome_iff_exists, ← exists_lastWritten_iff]
  simp only [hf.own]

/-- Searching from a scope outwards finds the nearest scope on which the name has been defined. -/
theorem holder?_iff (scope : ScopeId) (name : String) (holder : ScopeId) :
    σ.holder? scope name = some holder ↔ Nearest history name scope holder := by
  induction scope using Nat.strongRecOn with
  | ind scope ih =>
    rw [Store.holder?_eq]
    by_cases hd : Defined history scope name
    · rw [if_pos ((hf.binds_iff scope name).2 hd)]
      constructor
      · rintro ⟨⟩
        exact .here hd
      · rintro (_ | ⟨hnot, -, -⟩)
        · rfl
        · exact absurd hd hnot
    · rw [if_neg (hd ∘ (hf.binds_iff scope name).1), Option.bind_eq_some_iff]
      constructor
      · rintro ⟨parent, hparent, hholder⟩
        have hmade := Option.join_eq_some_iff.1 (hf.outer scope ▸ hparent)
        exact .outside hd hmade ((ih parent (Store.outer?_lt hparent)).1 hholder)
      · rintro (h | @⟨_, parent, _, _, hmade, hnearest⟩)
        · exact absurd h hd
        · have hparent := (hf.outer scope).trans (Option.join_eq_some_iff.2 hmade)
          exact ⟨parent, hparent, (ih parent (Store.outer?_lt hparent)).2 hnearest⟩

theorem holder?_eq_none_iff (scope : ScopeId) (name : String) :
    σ.holder? scope name = none ↔ ∀ holder, ¬ Nearest history name scope holder := by
  rw [Option.eq_none_iff_forall_ne_some]
  simp only [ne_eq, hf.holder?_iff]

/-- An operation that writes nothing and makes no scope changes nothing that a history says. -/
theorem quiet (hparents : parents (op :: history) = parents history)
    (hwrites : ∀ scope name value, ¬ Writes history op scope name value) : Follows (op :: history) σ where
  size := by rw [hparents, hf.size]
  outer scope := by rw [hparents, hf.outer]
  own scope name value := by
    rw [hf.own]
    constructor
    · exact .before (hwrites scope name)
    · rintro (hw | ⟨-, h⟩)
      · exact absurd hw (hwrites scope name value)
      · exact h

theorem newScope {parent : Option ScopeId} (hparent : ∀ p, parent = some p → p < (parents history).length) :
    Follows (.new parent :: history) (σ.newScope parent).2 where
  size := by simp [Store.newScope, parents, hf.size]
  outer scope := by
    rcases Nat.lt_trichotomy scope (parents history).length with hlt | rfl | hgt
    · rw [Store.outer?_newScope_of_lt σ parent (hf.size ▸ hlt), hf.outer, parents,
        List.getElem?_append_left hlt]
    · cases parent with
      | none => simp [Store.outer?, Store.newScope, parents, ← hf.size]
      | some p => simp [Store.outer?, Store.newScope, parents, ← hf.size, hf.size ▸ hparent p rfl]
    · have hsize : (σ.newScope parent).2.scopes.size ≤ scope := by
        simp only [Store.newScope, Array.size_push, hf.size]
        exact hgt
      have hlength : (parents (.new parent :: history)).length ≤ scope := by
        simp only [parents, List.length_append, List.length_singleton]
        exact hgt
      rw [Store.outer?_eq, Array.getElem?_eq_none hsize, List.getElem?_eq_none hlength]
      rfl
  own scope name value := by
    rw [Store.own?_newScope, hf.own]
    constructor
    · refine .before fun other hw => ?_
      cases hw
    · rintro (hw | ⟨-, h⟩)
      · cases hw
      · exact h

/-- Writing to the name that a scope holds is what an operation does that writes just there. -/
theorem define (hmade : holder < (parents history).length)
    (hparents : parents (op :: history) = parents history)
    (hwrites : ∀ scope other v,
      Writes history op scope other v ↔ scope = holder ∧ other = name ∧ v = value) :
    Follows (op :: history) (σ.define holder name value) where
  size := by rw [hparents, ← hf.size, Store.define, Array.size_modify]
  outer scope := by rw [Store.outer?_define, hparents, hf.outer]
  own scope other v := by
    rw [Store.own?_define, hf.size]
    by_cases hhere : scope = holder ∧ other = name
    · obtain ⟨rfl, rfl⟩ := hhere
      rw [if_pos ⟨rfl, rfl, hmade⟩]
      constructor
      · rintro ⟨⟩
        exact .now ((hwrites _ _ _).2 ⟨rfl, rfl, rfl⟩)
      · rintro (hw | ⟨hnot, -⟩)
        · rw [((hwrites _ _ _).1 hw).2.2]
        · exact absurd ((hwrites _ _ _).2 ⟨rfl, rfl, rfl⟩) (hnot value)
    · have hnot : ∀ w, ¬ Writes history op scope other w := fun w hw =>
        hhere ⟨((hwrites _ _ _).1 hw).1, ((hwrites _ _ _).1 hw).2.1⟩
      rw [if_neg fun h => hhere ⟨h.1.symm, h.2.1.symm⟩, hf.own]
      constructor
      · exact .before hnot
      · rintro (hw | ⟨-, h⟩)
        · exact absurd hw (hnot v)
        · exact h

theorem lookup?_eq_some_iff (scope : ScopeId) (name : String) (value : Value) :
    σ.lookup? scope name = some value ↔
      ∃ holder, Nearest history name scope holder ∧ LastWritten history holder name value := by
  rw [Store.lookup?]
  cases hh : σ.holder? scope name with
  | none =>
    constructor
    · intro h
      cases h
    · rintro ⟨holder, hnearest, -⟩
      exact absurd hnearest ((hf.holder?_eq_none_iff scope name).1 hh holder)
  | some holder =>
    constructor
    · intro h
      exact ⟨holder, (hf.holder?_iff scope name holder).1 hh, (hf.own _ _ _).1 h⟩
    · rintro ⟨other, hother, hlast⟩
      cases hh.symm.trans ((hf.holder?_iff scope name other).2 hother)
      exact (hf.own _ _ _).2 hlast

theorem lt_of_nearest (h : Nearest history name scope holder) : holder < (parents history).length :=
  hf.size ▸ Store.lt_of_binds ((hf.binds_iff holder name).2 h.defined)

end Follows

/-- The store goes on following the history with each operation. -/
theorem Follows.step {s : RunState} (hf : Follows history s.store)
    (hop : op.Within (parents history).length) : Follows (op :: history) (op.after s).store := by
  cases op with
  | new parent => exact hf.newScope hop
  | define scope name value =>
    refine hf.define hop rfl fun _ _ _ => ⟨?_, ?_⟩
    · rintro ⟨⟩
      exact ⟨rfl, rfl, rfl⟩
    · rintro ⟨rfl, rfl, rfl⟩
      exact .define
  | assign scope name value =>
    cases hh : s.store.holder? scope name.lexeme with
    | none =>
      have hsame : (ScopeOp.assign scope name value).after s = s := by simp only [after, run, Run.assign, hh]
      rw [hsame]
      refine hf.quiet rfl fun _ _ _ hw => ?_
      cases hw with
      | assign h => exact (hf.holder?_eq_none_iff _ _).1 hh _ h
    | some holder =>
      have hnearest := (hf.holder?_iff _ _ _).1 hh
      have hstore : ((ScopeOp.assign scope name value).after s).store =
          s.store.define holder name.lexeme value := by simp only [after, run, Run.assign, hh]
      rw [hstore]
      refine hf.define (hf.lt_of_nearest hnearest) rfl fun _ _ _ => ⟨?_, ?_⟩
      · rintro ⟨⟩
        next h => exact ⟨Option.some.inj (((hf.holder?_iff _ _ _).2 h).symm.trans hh), rfl, rfl⟩
      · rintro ⟨rfl, rfl, rfl⟩
        exact .assign hnearest
  | get scope name =>
    have hsame : (ScopeOp.get scope name).after s = s := by
      simp only [after, run, Run.run_bind, Run.lookup]
      cases s.store.lookup? scope name.lexeme <;> rfl
    rw [hsame]
    refine hf.quiet rfl fun _ _ _ hw => ?_
    cases hw

/-- The store follows every legal history. -/
theorem follows_replay {s : RunState} (hs : s.store.scopes = #[]) (hlegal : Legal history) :
    Follows history (replay s history).store := by
  induction history with
  | nil => exact .start hs
  | cons op earlier ih => exact (ih hlegal.2).step hlegal.1

end ScopeOp

open ScopeOp

/-- A state differs from another in what one name that a scope binds stands for, and in nothing else. -/
structure Rebinds (scope : ScopeId) (name : String) (value : Value) (s t : RunState) : Prop where
  rest : t = { s with store := { s.store with scopes := t.store.scopes } }
  size : t.store.scopes.size = s.store.scopes.size
  outer : ∀ i, t.store.outer? i = s.store.outer? i
  names : ∀ i, t.store.names? i = s.store.names? i
  own : ∀ i other, t.store.own? i other =
    if i = scope ∧ other = name then some value else s.store.own? i other

theorem Rebinds.define {s : RunState} {scope : ScopeId} {name : String} (h : s.store.binds scope name = true)
    (value : Value) : Rebinds scope name value s { s with store := s.store.define scope name value } where
  rest := rfl
  size := Store.size_define ..
  outer i := Store.outer?_define ..
  names i := Store.names?_define_of_binds h value i
  own i other := by
    rw [Store.own?_define]
    by_cases hhere : i = scope ∧ other = name
    · rw [if_pos hhere, if_pos ⟨hhere.1.symm, hhere.2.symm, hhere.1 ▸ Store.lt_of_binds h⟩]
    · rw [if_neg hhere, if_neg fun h => hhere ⟨h.1.symm, h.2.1.symm⟩]

/-- Whatever has been done with scopes: a name reads as what was last written to it on the nearest scope
outwards that it has been defined on, and assigning writes there and changes nothing else. If it
has been defined on no such scope, both fail and change nothing. -/
theorem lexical_binding {start : RunState} {history : List ScopeOp} (hstart : start.store.scopes = #[])
    (hlegal : Legal history) (scope : ScopeId) (name : Token) (value : Value) :
    let now := replay start history
    (∀ holder, Nearest history name.lexeme scope holder →
      (∃ last, LastWritten history holder name.lexeme last ∧
        (∀ other, LastWritten history holder name.lexeme other → other = last) ∧
        Run.lookup scope name now = .done last now) ∧
      ∃ next, Run.assign scope name value now = .done () next ∧
        Rebinds holder name.lexeme value now next) ∧
    ((∀ holder, ¬ Nearest history name.lexeme scope holder) →
      ∃ e : RuntimeError, e.token = name ∧
        e.fault.message = "Undefined variable '" ++ name.lexeme ++ "'." ∧
        Run.lookup scope name now = .failed e now ∧
        Run.assign scope name value now = .failed e now) := by
  intro now
  have hf : Follows history now.store := follows_replay hstart hlegal
  constructor
  · intro holder hnearest
    have hholder := (hf.holder?_iff scope name.lexeme holder).2 hnearest
    constructor
    · obtain ⟨last, hlast⟩ := exists_lastWritten_iff.2 hnearest.defined
      refine ⟨last, hlast, fun other hother => ?_, ?_⟩
      · have hown := (hf.own _ _ _).2 hother
        exact Option.some.inj (hown.symm.trans ((hf.own _ _ _).2 hlast))
      · have hlookup := (hf.lookup?_eq_some_iff scope name.lexeme last).2 ⟨holder, hnearest, hlast⟩
        simp only [Run.lookup, hlookup]
    · have hbinds := (hf.binds_iff holder name.lexeme).2 hnearest.defined
      exact ⟨_, by simp only [Run.assign, hholder], .define hbinds value⟩
  · intro hnone
    have hholder := (hf.holder?_eq_none_iff scope name.lexeme).2 hnone
    refine ⟨⟨name, .undefinedVariable name.lexeme, []⟩, rfl, rfl, ?_, ?_⟩
    · simp only [Run.lookup, Store.lookup?, hholder]
    · simp only [Run.assign, hholder]

/-- A variable of the outermost scope, seen from three scopes below it: one of them defines the name for
itself, and another assigns to it from two scopes further in. -/
def sharedVariable : List ScopeOp :=
  [.assign 3 (named "a") (.bool true), .define 2 "a" .nil, .new (some 1), .new (some 0), .new (some 0),
    .define 0 "a" (.bool false), .new none]
where named (name : String) : Token := { kind := .identifier, lexeme := name, line := 1 }

theorem sharedVariable_binds :
    let named := sharedVariable.named
    let now := replay { store := {} } sharedVariable
    Legal sharedVariable ∧
    Run.lookup 1 (named "a") now = .done (.bool true) now ∧
    Run.lookup 2 (named "a") now = .done .nil now ∧
    (∃ next, Run.assign 1 (named "a") .nil now = .done () next ∧ Rebinds 0 "a" .nil now next) ∧
    ∃ e : RuntimeError, e.token = named "b" ∧ e.fault.message = "Undefined variable 'b'." ∧
      Run.lookup 3 (named "b") now = .failed e now ∧ Run.assign 3 (named "b") .nil now = .failed e now := by
  intro named now
  have hlegal : Legal sharedVariable := by simp [Legal, Within, parents, sharedVariable]
  have hstart : ({ store := {} } : RunState).store.scopes = #[] := rfl
  have hbinding := fun scope name => lexical_binding hstart hlegal scope (named name) .nil
  have hone : Nearest sharedVariable "a" 1 0 :=
    .outside (by simp [Defined, sharedVariable]) rfl (.here (by simp [Defined, sharedVariable]))
  have hthree : Nearest sharedVariable.tail "a" 3 0 :=
    .outside (by simp [Defined, sharedVariable]) rfl <|
      .outside (by simp [Defined, sharedVariable]) rfl (.here (by simp [Defined, sharedVariable]))
  have htwo : Nearest sharedVariable "a" 2 2 := .here (by simp [Defined, sharedVariable])
  have hshared : LastWritten sharedVariable 0 "a" (.bool true) := .now (.assign hthree)
  have hshadow : LastWritten sharedVariable 2 "a" .nil := by
    refine .before (fun other hw => ?_) (.now .define)
    cases hw with
    | assign h => exact absurd (hthree.unique h) (by decide)
  have hfree : ∀ holder, ¬ Nearest sharedVariable "b" 3 holder := by
    intro holder h
    have := h.defined
    simp [Defined, sharedVariable] at this
  obtain ⟨⟨last, -, huniq, hread⟩, hwrite⟩ := (hbinding 1 "a").1 0 hone
  obtain ⟨⟨last', -, huniq', hread'⟩, -⟩ := (hbinding 2 "a").1 2 htwo
  rw [← huniq _ hshared] at hread
  rw [← huniq' _ hshadow] at hread'
  exact ⟨hlegal, hread, hread', hwrite, (hbinding 3 "b").2 hfree⟩

end LoxLang
