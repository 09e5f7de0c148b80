import LoxLang.Run.Basic

/-!
# Classes, instances and methods at work

The parts of running a program that concern objects and evaluate nothing: reading and writing
properties, finding methods of a superclass, declaring classes, and what a function that has come to its
end yields.
-/

namespace LoxLang

/-- How a statement ends when it ends without an error. -/
inductive Completion where
  | normal
  | returned (keyword : Token) (value : Value)

/-- The value that a function yields. -/
def Completion.value : Completion → Value
  | .normal => .nil
  | .returned _ v => v

namespace Run

/-- A method bound to its receiver, as a value. -/
def bindMethod (method : Closure) (receiver : Ref) : Run Value :=
  make fun s =>
    let (bound, s) := s.bind method receiver
    s.newFunction bound

/-- A property: the field of an instance or else a method of its class. -/
def property (object : Value) (name : Token) : Run Value := do
  match object with
  | .instanceRef receiver =>
    match ← read (·.field? receiver name.lexeme) with
    | some v => return v
    | none =>
      match ← read (·.methodOf? receiver name.lexeme) with
      | some method => bindMethod method receiver
      | none => fail name (.undefinedProperty name.lexeme)
  | v => fail name (.noProperties v.kind)

/-- The instance whose field is about to be set. -/
def fieldOwner (object : Value) (name : Token) : Run Ref :=
  match object with
  | .instanceRef receiver => return receiver
  | v => fail name (.noFields v.kind)

/-- A method of the superclass of the class around, bound to the receiver of the method around. -/
def superMethod (scope : ScopeId) (keyword method : Token) : Run Value := do
  match ← lookup scope keyword with
  | .classRef superclass =>
    match ← lookup scope Token.receiver with
    | .instanceRef receiver =>
      match ← read (·.method? superclass.id method.lexeme) with
      | some m => bindMethod m receiver
      | none => fail method (.undefinedProperty method.lexeme)
    | _ => fail keyword .superOutsideMethod
  | _ => fail keyword .superclassNotClass

/-- The methods of a class with the scope around them; of two with one name the later counts. -/
def methodTable (scope : ScopeId) (methods : List FunctionDecl) : Bindings Closure :=
  methods.foldl (fun table m => table.put m.name.lexeme
    { declaration := m, scope, isInitializer := m.name.lexeme == Store.initializerName }) {}

/-- The class that a name stands for, where a superclass is wanted. -/
def superclassNamed (scope : ScopeId) (name : Token) : Run Ref := do
  match ← lookup scope name with
  | .classRef c => return c
  | _ => fail name .superclassNotClass

/-- Declares a class. Its methods see its superclass through a scope of their own. -/
def declareClass (scope : ScopeId) (name : Token) (superclass : Option Token)
    (methods : List FunctionDecl) : Run Unit := do
  let parent ← match superclass with
    | some superName => some <$> superclassNamed scope superName
    | none => pure none
  change (·.define scope name.lexeme .nil)
  let methodScope ← match parent with
    | some c => make fun s =>
      let (inner, s) := s.newScope (some scope)
      (inner, s.define inner Token.superName (.classRef c))
    | none => pure scope
  let ref ← make (·.newClass
    { name := name.lexeme, superclass := parent.map (·.id), methods := methodTable methodScope methods })
  change (·.define scope name.lexeme (.classRef ref))

/-- Opens the scope of a call and binds the parameters to the arguments. -/
def enter (f : Closure) (args : List Value) : Run ScopeId :=
  make fun s =>
    let (scope, s) := s.newScope (some f.scope)
    (scope, (f.declaration.params.zip args).foldl (fun s (p, v) => s.define scope p.lexeme v) s)

/-- What a call yields once the body has ended. An initializer yields its receiver and must not
return anything else. -/
def leave (f : Closure) (c : Completion) : Run Value := do
  if f.isInitializer then
    let receiver ← lookup f.scope Token.receiver
    match c with
    | .returned keyword v =>
      if v.isNil || v.equals receiver then return receiver
      else fail keyword .initializerReturn
    | .normal => return receiver
  else return c.value

end Run

end LoxLang
