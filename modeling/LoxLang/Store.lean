import LoxLang.Store.Bindings
import LoxLang.Tree

/-!
# The store

All that a running program has made and may still share: scopes, functions, classes and instances, each
kind numbered in the order of creation. A scope looks for a name among its own bindings and then in its
parent, and a class for a method in itself and then in its superclass; a link is only ever
followed to an older object, so both searches end.

Main statements: the equations for one step of the search for a name (`holder?_of_binds`,
`holder?_of_outer`, `holder?_of_root`).
-/

namespace LoxLang

/-- A scope by its number. -/
abbrev ScopeId := Nat

/-- Bindings of names, and the scope around them. -/
structure Scope where
  parent : Option ScopeId := none
  bindings : Bindings Value := {}

/-- A function or method with the scope that it was declared in. -/
structure Closure where
  declaration : FunctionDecl
  scope : ScopeId
  isInitializer : Bool

/-- A class. -/
structure ClassObject where
  name : String
  superclass : Option Nat := none
  methods : Bindings Closure := {}

/-- An instance of a class. -/
structure InstanceObject where
  classId : Nat
  fields : Bindings Value := {}

/-- Everything that a running program shares. -/
structure Store where
  scopes : Array Scope := #[]
  functions : Array Closure := #[]
  classes : Array ClassObject := #[]
  instances : Array InstanceObject := #[]

namespace Store

/-! ### Scopes -/

/-- A new, empty scope. -/
def newScope (s : Store) (parent : Option ScopeId) : ScopeId × Store :=
  (s.scopes.size, { s with scopes := s.scopes.push { parent } })

/-- Whether a scope itself binds a name. -/
def binds (s : Store) (scope : ScopeId) (name : String) : Bool :=
  match s.scopes[scope]? with
  | some sc => sc.bindings.contains name
  | none => false

/-- The scope around a scope, if it is older. -/
def outer? (s : Store) (scope : ScopeId) : Option ScopeId :=
  match s.scopes[scope]? with
  | some { parent := some p, .. } => if p < scope then some p else none
  | _ => none

theorem outer?_lt {s : Store} {scope p : ScopeId} (h : s.outer? scope = some p) : p < scope := by
  unfold outer? at h
  split at h
  · split at h
    · simp_all
    · simp at h
  · simp at h

/-- The nearest scope from a scope outwards that binds a name. -/
def holder? (s : Store) (scope : ScopeId) (name : String) : Option ScopeId :=
  if s.binds scope name then some scope
  else
    match _hp : s.outer? scope with
    | some p => s.holder? p name
    | none => none
termination_by scope
decreasing_by exact outer?_lt _hp

/-- Binds a name in a scope, or binds it anew. -/
def define (s : Store) (scope : ScopeId) (name : String) (value : Value) : Store :=
  { s with scopes := s.scopes.modify scope fun sc =>
      { sc with bindings := sc.bindings.put name value } }

/-- What a scope itself binds a name to. -/
def own? (s : Store) (scope : ScopeId) (name : String) : Option Value :=
  match s.scopes[scope]? with
  | some sc => sc.bindings.get? name
  | none => none

/-- What a name stands for in a scope. -/
def lookup? (s : Store) (scope : ScopeId) (name : String) : Option Value :=
  match s.holder? scope name with
  | some holder => s.own? holder name
  | none => none

/-- Changes what a name stands for, where it is bound. -/
def assign? (s : Store) (scope : ScopeId) (name : String) (value : Value) : Option Store :=
  (s.holder? scope name).map fun holder => s.define holder name value

/-! ### Functions, classes and instances -/

/-- A new function. -/
def newFunction (s : Store) (f : Closure) : Value × Store :=
  (.functionRef ⟨s.functions.size, f.declaration.name.lexeme⟩,
   { s with functions := s.functions.push f })

/-- A new class. -/
def newClass (s : Store) (c : ClassObject) : Ref × Store :=
  (⟨s.classes.size, c.name⟩, { s with classes := s.classes.push c })

/-- A new instance of a class, without fields. -/
def newInstance (s : Store) (ofClass : Ref) : Ref × Store :=
  (⟨s.instances.size, ofClass.name⟩,
   { s with instances := s.instances.push { classId := ofClass.id } })

/-- The superclass of a class, if it is older. -/
def superclass? (s : Store) (classId : Nat) : Option Nat :=
  match s.classes[classId]? with
  | some { superclass := some p, .. } => if p < classId then some p else none
  | _ => none

theorem superclass?_lt {s : Store} {c p : Nat} (h : s.superclass? c = some p) : p < c := by
  unfold superclass? at h
  split at h
  · split at h
    · simp_all
    · simp at h
  · simp at h

/-- The method that a class itself declares. -/
def ownMethod? (s : Store) (classId : Nat) (name : String) : Option Closure :=
  match s.classes[classId]? with
  | some c => c.methods.get? name
  | none => none

/-- The method of a class or of the nearest of its ancestors that declares it. -/
def method? (s : Store) (classId : Nat) (name : String) : Option Closure :=
  match s.ownMethod? classId name with
  | some m => some m
  | none =>
    match _hp : s.superclass? classId with
    | some p => s.method? p name
    | none => none
termination_by classId
decreasing_by exact superclass?_lt _hp

/-- The name of the method that sets up a new instance. -/
def initializerName : String := "init"

/-- How many arguments a value takes when called, if it can be. -/
def arity? (s : Store) : Value → Option Nat
  | .functionRef ref => (s.functions[ref.id]?).map (·.declaration.arity)
  | .classRef ref => some ((s.method? ref.id initializerName).elim 0 (·.declaration.arity))
  | _ => none

/-- A method with its receiver: a scope that binds the receiver stands between the method and the
scope it was declared in. -/
def bind (s : Store) (method : Closure) (receiver : Ref) : Closure × Store :=
  let (scope, s) := s.newScope (some method.scope)
  ({ method with scope }, s.define scope Token.receiver.lexeme (.instanceRef receiver))

/-- The field of an instance. -/
def field? (s : Store) (receiver : Ref) (name : String) : Option Value :=
  match s.instances[receiver.id]? with
  | some i => i.fields.get? name
  | none => none

/-- Sets a field of an instance. -/
def setField (s : Store) (receiver : Ref) (name : String) (value : Value) : Store :=
  { s with instances := s.instances.modify receiver.id fun i =>
      { i with fields := i.fields.put name value } }

/-- The method that an instance has by its class. -/
def methodOf? (s : Store) (receiver : Ref) (name : String) : Option Closure :=
  match s.instances[receiver.id]? with
  | some i => s.method? i.classId name
  | none => none

/-! ### One step of a search -/

theorem holder?_of_binds {s : Store} {scope : ScopeId} {name : String}
    (h : s.binds scope name = true) : s.holder? scope name = some scope := by
  rw [holder?]
  simp [h]

theorem holder?_of_outer {s : Store} {scope p : ScopeId} {name : String}
    (h : s.binds scope name = false) (hp : s.outer? scope = some p) :
    s.holder? scope name = s.holder? p name := by
  rw [holder?]
  simp only [h, Bool.false_eq_true, if_false]
  split
  · next q hq => rw [hp] at hq; simp_all
  · next hq => rw [hp] at hq; simp at hq

theorem holder?_of_root {s : Store} {scope : ScopeId} {name : String}
    (h : s.binds scope name = false) (hp : s.outer? scope = none) :
    s.holder? scope name = none := by
  rw [holder?]
  simp only [h, Bool.false_eq_true, if_false]
  split
  · next q hq => rw [hp] at hq; simp at hq
  · rfl

end Store

end LoxLang
