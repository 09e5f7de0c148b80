import LoxLang.Tree.Dump

/-!
# Trees as nested lists

The text of a tree is that of a nested list. Its leaves are words, that is labels, operators, names and
`this`, and the values of literals. A node is the list of its label, which can be several words, and
of what stands under it.

Main statements: `Stmt.chars_form` and `toList_dumpProgram`.
-/

namespace LoxLang

/-- A nested list of words and values. -/
inductive Form where
  | word (text : String)
  | value (v : Value)
  | list (parts : List Form)

namespace Form

mutual

/-- The characters of a form. -/
@[simp] def chars : Form → List Char
  | .word text => text.toList
  | .value v => v.dump.toList
  | .list parts => '(' :: ((charsAll parts).drop 1 ++ [')'])

/-- The characters of several forms, a blank before each of them. -/
@[simp] def charsAll : List Form → List Char
  | [] => []
  | p :: ps => ' ' :: (p.chars ++ charsAll ps)

end

/-- A token as a word. -/
@[simp] def ofToken (t : Token) : Form := .word t.lexeme

end Form

/-! ### The forms of trees -/

mutual

/-- The form of an expression. -/
def Expr.form : Expr → Form
  | .literal v => .value v
  | .grouping e => .list [.word "group", e.form]
  | .name t => .ofToken t
  | .assign n e => .list [.word "=", .ofToken n, e.form]
  | .unary op e => .list [.ofToken op, e.form]
  | .binary l op r => .list [.ofToken op, l.form, r.form]
  | .logical l op r => .list [.ofToken op, l.form, r.form]
  | .call f _ args => .list (.word "call" :: f.form :: Expr.formAll args)
  | .get e n => .list [.word ".", e.form, .ofToken n]
  | .set e n v => .list [.word ".=", e.form, .ofToken n, v.form]
  | .this _ => .word "this"
  | .super _ m => .list [.word "super", .ofToken m]

/-- The forms of several expressions. -/
def Expr.formAll : List Expr → List Form
  | [] => []
  | e :: es => e.form :: Expr.formAll es

end

mutual

/-- The form of a statement. -/
def Stmt.form : Stmt → Form
  | .expression e => .list [.word ";", e.form]
  | .print e => .list [.word "print", e.form]
  | .var n none => .list [.word "var", .ofToken n]
  | .var n (some e) => .list [.word "var", .ofToken n, e.form]
  | .block body => .list (.word "block" :: Stmt.formAll body)
  | .ifThen c yes => .list [.word "if", c.form, yes.form]
  | .ifElse c yes no => .list [.word "if", c.form, yes.form, no.form]
  | .loop c body => .list [.word "while", c.form, body.form]
  | .function f => f.form "fun"
  | .ret _ none => .list [.word "return"]
  | .ret _ (some e) => .list [.word "return", e.form]
  | .classDecl n none methods => .list (.word "class" :: .ofToken n :: FunctionDecl.formAll methods)
  | .classDecl n (some s) methods =>
    .list (.word "class" :: .ofToken n :: .word "<" :: .ofToken s :: FunctionDecl.formAll methods)

/-- The forms of several statements. -/
def Stmt.formAll : List Stmt → List Form
  | [] => []
  | s :: ss => s.form :: Stmt.formAll ss

/-- The form of a function, labelled by what it is. -/
def FunctionDecl.form (label : String) : FunctionDecl → Form
  | ⟨name, params, body⟩ =>
    .list (.word label :: .ofToken name :: .list (params.map .ofToken) :: Stmt.formAll body)

/-- The forms of the methods of a class. -/
def FunctionDecl.formAll : List FunctionDecl → List Form
  | [] => []
  | f :: fs => f.form "method" :: FunctionDecl.formAll fs

end

/-! ### Their texts -/

@[simp] theorem toList_parenthesize (label : String) (parts : List String) :
    (parenthesize label parts).toList =
      '(' :: (label.toList ++ (parts.flatMap fun p => ' ' :: p.toList) ++ [')']) := by
  have hparts (text : String) : (parts.foldl (fun text part => text ++ " " ++ part) text).toList =
      text.toList ++ parts.flatMap fun p => ' ' :: p.toList := by
    induction parts generalizing text with
    | nil => simp
    | cons p ps ih => simp [ih]
  simp [parenthesize, hparts]

theorem toList_dumpParams (params : List Token) :
    (dumpParams params).toList = (Form.list (params.map .ofToken)).chars := by
  have hnames (t : Token) (ts : List Token) : List.intercalate [' '] ((t :: ts).map (·.lexeme.toList)) =
      t.lexeme.toList ++ Form.charsAll (ts.map .ofToken) := by
    induction ts generalizing t with
    | nil => simp
    | cons u us ih => simpa [List.intercalate_cons_cons] using ih u
  cases params with
  | nil => rfl
  | cons t ts =>
    simpa [dumpParams, String.toList_intercalate, Function.comp_def, ← List.append_assoc] using hnames t ts

mutual

theorem Expr.chars_form : (e : Expr) → e.form.chars = e.dump.toList
  | .literal _ => rfl
  | .name _ => rfl
  | .this _ => rfl
  | .grouping e => by simp [form, dump, chars_form e]
  | .assign n e => by simp [form, dump, chars_form e]
  | .unary op e => by simp [form, dump, chars_form e]
  | .binary l op r => by simp [form, dump, chars_form l, chars_form r]
  | .logical l op r => by simp [form, dump, chars_form l, chars_form r]
  | .call f _ args => by simp [form, dump, chars_form f, charsAll_form args]
  | .get e n => by simp [form, dump, chars_form e]
  | .set e n v => by simp [form, dump, chars_form e, chars_form v]
  | .super _ m => by simp [form, dump]

theorem Expr.charsAll_form : (es : List Expr) →
    Form.charsAll (Expr.formAll es) = (Expr.dumpAll es).flatMap fun p => ' ' :: p.toList
  | [] => rfl
  | e :: es => by simp [formAll, dumpAll, chars_form e, charsAll_form es]

end

mutual

/-- The form of a statement has its text. -/
theorem Stmt.chars_form : (s : Stmt) → s.form.chars = s.dump.toList
  | .expression e => by simp [Stmt.form, Stmt.dump, e.chars_form]
  | .print e => by simp [Stmt.form, Stmt.dump, e.chars_form]
  | .var n none => by simp [Stmt.form, Stmt.dump]
  | .var n (some e) => by simp [Stmt.form, Stmt.dump, e.chars_form]
  | .block body => by simp [Stmt.form, Stmt.dump, Stmt.charsAll_form body]
  | .ifThen c yes => by simp [Stmt.form, Stmt.dump, c.chars_form, Stmt.chars_form yes]
  | .ifElse c yes no => by simp [Stmt.form, Stmt.dump, c.chars_form, Stmt.chars_form yes, Stmt.chars_form no]
  | .loop c body => by simp [Stmt.form, Stmt.dump, c.chars_form, Stmt.chars_form body]
  | .function f => FunctionDecl.chars_form "fun" f
  | .ret _ none => by simp [Stmt.form, Stmt.dump]
  | .ret _ (some e) => by simp [Stmt.form, Stmt.dump, e.chars_form]
  | .classDecl n none methods => by simp [Stmt.form, Stmt.dump, FunctionDecl.charsAll_form methods]
  | .classDecl n (some s) methods => by simp [Stmt.form, Stmt.dump, FunctionDecl.charsAll_form methods]

theorem Stmt.charsAll_form : (ss : List Stmt) →
    Form.charsAll (Stmt.formAll ss) = (Stmt.dumpAll ss).flatMap fun p => ' ' :: p.toList
  | [] => rfl
  | s :: ss => by simp [Stmt.formAll, Stmt.dumpAll, Stmt.chars_form s, Stmt.charsAll_form ss]

theorem FunctionDecl.chars_form (label : String) :
    (f : FunctionDecl) → (f.form label).chars = (f.dump label).toList
  | ⟨name, params, body⟩ => by
    simp [FunctionDecl.form, FunctionDecl.dump, toList_dumpParams, Stmt.charsAll_form body]

theorem FunctionDecl.charsAll_form : (fs : List FunctionDecl) →
    Form.charsAll (FunctionDecl.formAll fs) = (FunctionDecl.dumpAll fs).flatMap fun p => ' ' :: p.toList
  | [] => rfl
  | f :: fs => by simp [FunctionDecl.formAll, FunctionDecl.dumpAll, FunctionDecl.chars_form "method" f,
    FunctionDecl.charsAll_form fs]

end

/-- The text of a program is that of the forms of its statements, each on a line of its own. -/
theorem toList_dumpProgram (program : List Stmt) :
    (dumpProgram program).toList = (program.map Stmt.form).flatMap fun p => p.chars ++ ['\n'] := by
  have hlines (text : String) (lines : List String) :
      (lines.foldl (· ++ ·) text).toList = text.toList ++ lines.flatMap String.toList := by
    induction lines generalizing text with
    | nil => simp
    | cons line lines ih => simp [ih]
  simp [dumpProgram, hlines, List.flatMap_map, Stmt.chars_form]

end LoxLang
