import LoxLang.Proofs.Parse.Literals
import LoxLang.Proofs.Scan

/-!
# Trees whose literals are data

A literal of a program is nil, a truth value, a number or a string, and none leads to an object of a
running program. That is so of the tokens of every source, and parsing puts no other values into a tree
than the literals of tokens, whether or not it finds errors.

Main statements: `scan_data` and `parse_data`.
-/

namespace LoxLang

/-- A value that leads to no object. -/
def Value.isData : Value → Bool
  | .nil | .bool _ | .number _ | .string _ => true
  | .functionRef _ | .classRef _ | .instanceRef _ => false

/-- A token whose literal leads to no object. -/
def Token.Data (t : Token) : Prop := t.literal.isData = true

/-- Expressions whose literals lead to no object. -/
inductive Expr.Data : Expr → Prop where
  | literal (h : v.isData = true) : Data (.literal v)
  | grouping (inner : Data e) : Data (.grouping e)
  | name : Data (.name t)
  | assign (value : Data e) : Data (.assign t e)
  | unary (operand : Data e) : Data (.unary t e)
  | binary (left : Data l) (right : Data r) : Data (.binary l t r)
  | logical (left : Data l) (right : Data r) : Data (.logical l t r)
  | call (callee : Data f) (args : ∀ a ∈ as, Data a) : Data (.call f t as)
  | get (object : Data e) : Data (.get e t)
  | set (object : Data e) (value : Data v) : Data (.set e t v)
  | this : Data (.this t)
  | super : Data (.super t m)

/-- Expressions whose literals lead to no object, or none. -/
def Expr.OptionData (i : Option Expr) : Prop := ∀ e ∈ i, e.Data

mutual

/-- Statements whose literals lead to no object. -/
inductive Stmt.Data : Stmt → Prop where
  | expression (value : e.Data) : Stmt.Data (.expression e)
  | print (value : e.Data) : Stmt.Data (.print e)
  | var (initial : Expr.OptionData i) : Stmt.Data (.var t i)
  | block (body : ∀ s ∈ ss, Stmt.Data s) : Stmt.Data (.block ss)
  | ifThen (condition : c.Data) (yes : Stmt.Data s) : Stmt.Data (.ifThen c s)
  | ifElse (condition : c.Data) (yes : Stmt.Data s) (no : Stmt.Data u) : Stmt.Data (.ifElse c s u)
  | loop (condition : c.Data) (body : Stmt.Data s) : Stmt.Data (.loop c s)
  | function (declaration : FunctionDecl.Data f) : Stmt.Data (.function f)
  | ret (value : Expr.OptionData i) : Stmt.Data (.ret t i)
  | classDecl (methods : ∀ f ∈ fs, FunctionDecl.Data f) : Stmt.Data (.classDecl t p fs)

/-- Functions whose literals lead to no object. -/
inductive FunctionDecl.Data : FunctionDecl → Prop where
  | mk (body : ∀ s ∈ ss, Stmt.Data s) : FunctionDecl.Data ⟨t, ps, ss⟩

end

theorem FunctionDecl.Data.body {f : FunctionDecl} : f.Data → ∀ s ∈ f.body, s.Data
  | .mk body => body

/-! ### Tokens of sources -/

theorem Lexical.Denotes.isData {kind : Token.Kind} {text : List Char} {v : Value}
    (h : Lexical.Denotes kind text v) : v.isData = true := by
  cases h <;> rfl

/-- No literal of a source leads to an object. -/
theorem scan_data (source : List Char) : ∀ t ∈ (scan source).tokens, t.Data := by
  intro t ht
  rcases scan_lexed t ht with ⟨-, hnil⟩ | ⟨-, hv⟩
  · rw [Token.Data, hnil]
    rfl
  · exact hv.isData

/-! ### Trees of parsers -/

theorem Expr.Literals.data {e : Expr} : e.Literals (·.isData = true) → e.Data
  | .nil => .literal rfl
  | .bool => .literal rfl
  | .token h => .literal h
  | .grouping inner => .grouping inner.data
  | .name => .name
  | .assign value => .assign value.data
  | .unary operand => .unary operand.data
  | .binary left right => .binary left.data right.data
  | .logical left right => .logical left.data right.data
  | .call callee args => .call callee.data fun a ha => (args a ha).data
  | .get object => .get object.data
  | .set object value => .set object.data value.data
  | .this => .this
  | .super => .super

theorem Expr.OptionLiterals.data {i : Option Expr} (h : Expr.OptionLiterals (·.isData = true) i) :
    Expr.OptionData i := fun e he => (h e he).data

mutual

theorem Stmt.Literals.data {s : Stmt} : s.Literals (·.isData = true) → s.Data
  | .expression value => .expression value.data
  | .print value => .print value.data
  | .var initial => .var initial.data
  | .block body => .block fun s hs => (body s hs).data
  | .ifThen condition yes => .ifThen condition.data yes.data
  | .ifElse condition yes no => .ifElse condition.data yes.data no.data
  | .loop condition body => .loop condition.data body.data
  | .function declaration => .function declaration.data
  | .ret value => .ret value.data
  | .classDecl methods => .classDecl fun f hf => (methods f hf).data

theorem FunctionDecl.Literals.data {f : FunctionDecl} : f.Literals (·.isData = true) → f.Data
  | .mk body => .mk fun s hs => (body s hs).data

end

/-- Whatever statements are read from tokens whose literals are data have no other literals. -/
theorem parse_data {tokens : List Token} (h : ∀ t ∈ tokens, t.Data) :
    ∀ s ∈ (parse tokens).statements, s.Data :=
  fun s hs => (parse_literals (V := (·.isData = true)) rfl h s hs).data

end LoxLang
