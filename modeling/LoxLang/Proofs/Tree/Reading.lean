import LoxLang.Proofs.Tree.Legible

/-!
# Trees from their forms

A tree can be rebuilt from its form, but for the lines of its tokens. The first word of a list tells what
node it is, together with the number of its parts; a word that labels no node of its own is an
operator. The tokens that a form leaves out have one text each.

Main statement: `Stmt.Alike.read_form`.
-/

namespace LoxLang

open Token (ofWord)
open List (Forall₂)

/-! ### Expressions -/

namespace Expr

/-- The node of an operator, by the number of its operands. -/
def ofOperator (op : Token) : List Expr → Expr
  | [e] => .unary op e
  | [l, r] => if op.kind ∈ Part.logical.kinds then .logical l op r else .binary l op r
  | _ => default

/-- The node with a label, from what stands under it and from the expressions that this is read as. -/
def ofParts (label : String) (parts : List Form) (es : List Expr) : Expr :=
  match label, parts, es with
  | "group", _, [e] => .grouping e
  | "=", .word n :: _, [_, e] => .assign (ofWord n) e
  | "call", _, f :: args => .call f (ofWord ")") args
  | ".", [_, .word n], e :: _ => .get e (ofWord n)
  | ".=", [_, .word n, _], [e, _, v] => .set e (ofWord n) v
  | "super", [.word m], _ => .super (ofWord "super") (ofWord m)
  | op, _, es => ofOperator (ofWord op) es

mutual

/-- The expression that has a form. -/
def read : Form → Expr
  | .word text => if text = "this" then .this (ofWord text) else .name (ofWord text)
  | .value v => .literal v
  | .list (.word label :: parts) => ofParts label parts (readAll parts)
  | .list _ => default

/-- The expressions that have some forms. -/
def readAll : List Form → List Expr
  | [] => []
  | p :: ps => read p :: readAll ps

end

end Expr

theorem Token.Legible.restored {part : Part} {t : Token} (h : t.Legible part t) :
    Elsewhere () part t (ofWord t.lexeme) := h.2.1.sameButLine

/-- A token of a part that only one kind plays is told by the text of that kind. -/
theorem Token.Legible.restored_as {part : Part} {t : Token} {kind : Kind} {text : String}
    (h : t.Legible part t) (hpart : part.kinds = [kind]) (hk : (text, kind) ∈ fixedTexts)
    (hn : kind ≠ .identifier) : Elsewhere () part t (ofWord text) := by
  obtain rfl : t.kind = kind := by simpa [hpart] using h.2.2
  rw [← h.2.1.lexeme_eq hk hn]
  exact h.restored

theorem Token.Legible.name_ne {t : Token} (h : t.Legible .name t) : t.lexeme ≠ "this" := by
  have hname : t.kind = .identifier := by simpa [Part.kinds] using h.2.2
  have hthis : ("this", Kind.kwThis) ∈ fixedTexts := by decide
  intro htext
  exact (h.2.1.name hname).2 .kwThis (htext ▸ hthis)

/-- The text of an operator labels no node of its own. -/
theorem Expr.ofParts_operator {t : Token} (h : t.Told) (hk : t.kind ∈ Form.operatorKinds) (parts : List Form)
    (es : List Expr) : Expr.ofParts t.lexeme parts es = .ofOperator (ofWord t.lexeme) es := by
  have hmem := Form.mem_operators h hk
  generalize t.lexeme = text at hmem
  simp only [Form.operators, List.mem_cons, List.not_mem_nil, or_false] at hmem
  rcases hmem with rfl | rfl | rfl | rfl | rfl | rfl | rfl | rfl | rfl | rfl | rfl | rfl | rfl <;> rfl

mutual

theorem Expr.Alike.read_form : {e : Expr} → e.Alike Token.Legible e →
    e.Alike (Token.Elsewhere ()) (Expr.read e.form)
  | _, .literal => .literal
  | _, .grouping e => .grouping e.read_form
  | .name t, .name h => by
    rw [Expr.form, Form.ofToken, Expr.read, if_neg h.name_ne]
    exact .name h.restored
  | _, .assign h e => .assign h.restored e.read_form
  | .unary op e, .unary h he => by
    rw [Expr.form, Form.ofToken, Expr.read, Expr.ofParts_operator h.2.1 (by simp [Form.operatorKinds, h.2.2])]
    exact .unary h.restored he.read_form
  | .binary l op r, .binary hl h hr => by
    have hdisjoint : ∀ kind ∈ Part.binary.kinds, kind ∉ Part.logical.kinds := by decide
    have hkind : (ofWord op.lexeme).kind ∉ Part.logical.kinds := h.restored.kind ▸ hdisjoint _ h.2.2
    rw [Expr.form, Form.ofToken, Expr.read, Expr.ofParts_operator h.2.1 (by simp [Form.operatorKinds, h.2.2]),
      Expr.readAll, Expr.readAll, Expr.readAll, Expr.ofOperator, if_neg hkind]
    exact .binary hl.read_form h.restored hr.read_form
  | .logical l op r, .logical hl h hr => by
    have hkind : (ofWord op.lexeme).kind ∈ Part.logical.kinds := h.restored.kind ▸ h.2.2
    rw [Expr.form, Form.ofToken, Expr.read, Expr.ofParts_operator h.2.1 (by simp [Form.operatorKinds, h.2.2]),
      Expr.readAll, Expr.readAll, Expr.readAll, Expr.ofOperator, if_pos hkind]
    exact .logical hl.read_form h.restored hr.read_form
  | _, .call f h args =>
    .call f.read_form (h.restored_as rfl (by decide) (by decide)) (Expr.Alike.read_formAll args)
  | _, .get e h => .get e.read_form h.restored
  | _, .set e h v => .set e.read_form h.restored v.read_form
  | _, .this h => .this (h.restored_as rfl (by decide) (by decide))
  | _, .super h m => .super (h.restored_as rfl (by decide) (by decide)) m.restored

theorem Expr.Alike.read_formAll : {es : List Expr} → Forall₂ (Expr.Alike Token.Legible) es es →
    Forall₂ (Expr.Alike (Token.Elsewhere ())) es (Expr.readAll (Expr.formAll es))
  | [], _ => .nil
  | _ :: _, .cons e es => .cons e.read_form (Expr.Alike.read_formAll es)

end

theorem Expr.Alike.read_formOption {i : Option Expr} (h : Option.Rel (Expr.Alike Token.Legible) i i) :
    Option.Rel (Expr.Alike (Token.Elsewhere ())) i (i.map fun e => Expr.read e.form) := by
  cases h with
  | none => exact .none
  | some h => exact .some h.read_form

/-! ### Statements -/

/-- The name that a word stands for. -/
def Form.name : Form → Token
  | .word text => ofWord text
  | _ => default

/-- The function with some parts behind its label, from what these are read as. -/
def FunctionDecl.ofParts : List Form → List Stmt → FunctionDecl
  | n :: .list params :: _, _ :: _ :: body => ⟨n.name, params.map Form.name, body⟩
  | _, _ => ⟨default, [], []⟩

/-- The node with a label, from what stands under it and from what this is read as. -/
def Stmt.ofParts (label : String) (parts : List Form) (es : List Expr) (ss : List Stmt)
    (fs : List FunctionDecl) : Stmt :=
  match label, parts, es, ss with
  | ";", _, [e], _ => .expression e
  | "print", _, [e], _ => .print e
  | "var", [n], _, _ => .var n.name none
  | "var", [n, _], [_, e], _ => .var n.name (some e)
  | "block", _, _, ss => .block ss
  | "if", _, c :: _, [_, yes] => .ifThen c yes
  | "if", _, c :: _, [_, yes, no] => .ifElse c yes no
  | "while", _, c :: _, [_, body] => .loop c body
  | "fun", parts, _, ss => .function (FunctionDecl.ofParts parts ss)
  | "return", [], _, _ => .ret (ofWord "return") none
  | "return", _, [e], _ => .ret (ofWord "return") (some e)
  | "class", n :: .word _ :: p :: _, _, _ => .classDecl n.name (some p.name) (fs.drop 3)
  | "class", n :: _, _, _ => .classDecl n.name none (fs.drop 1)
  | _, _, _, _ => default

mutual

/-- The statement that has a form. -/
def Stmt.read : Form → Stmt
  | .list (.word label :: parts) =>
    Stmt.ofParts label parts (Expr.readAll parts) (Stmt.readAll parts) (FunctionDecl.readAll parts)
  | _ => default

/-- The statements that have some forms. -/
def Stmt.readAll : List Form → List Stmt
  | [] => []
  | p :: ps => Stmt.read p :: Stmt.readAll ps

/-- The function that has a form. -/
def FunctionDecl.read : Form → FunctionDecl
  | .list (_ :: parts) => FunctionDecl.ofParts parts (Stmt.readAll parts)
  | _ => ⟨default, [], []⟩

/-- The functions that have some forms. -/
def FunctionDecl.readAll : List Form → List FunctionDecl
  | [] => []
  | p :: ps => FunctionDecl.read p :: FunctionDecl.readAll ps

end

theorem Token.Legible.restored_params {params : List Token}
    (h : Forall₂ (Token.Legible .name) params params) :
    Forall₂ (Elsewhere () .name) params ((params.map .ofToken).map Form.name) := by
  rw [List.map_map, List.forall₂_map_right_iff]
  exact List.forall₂_same.2 fun t ht => (List.forall₂_same.1 h t ht).restored

mutual

theorem Stmt.Alike.read_form : {s : Stmt} → s.Alike Token.Legible s →
    s.Alike (Token.Elsewhere ()) (Stmt.read s.form)
  | _, .expression e => .expression e.read_form
  | _, .print e => .print e.read_form
  | .var _ none, .var h _ => .var h.restored .none
  | .var _ (some _), .var h i => .var h.restored (Expr.Alike.read_formOption i)
  | _, .block ss => .block (Stmt.Alike.read_formAll ss)
  | _, .ifThen c s => .ifThen c.read_form s.read_form
  | _, .ifElse c s u => .ifElse c.read_form s.read_form u.read_form
  | _, .loop c s => .loop c.read_form s.read_form
  | .function ⟨_, _, _⟩, .function f => .function (FunctionDecl.Alike.read_form "fun" f)
  | .ret _ none, .ret h _ => .ret (h.restored_as rfl (by decide) (by decide)) .none
  | .ret _ (some _), .ret h i =>
    .ret (h.restored_as rfl (by decide) (by decide)) (Expr.Alike.read_formOption i)
  | .classDecl _ none [], .classDecl h _ _ => .classDecl h.restored .none .nil
  | .classDecl _ none (⟨_, _, _⟩ :: _), .classDecl h _ fs =>
    .classDecl h.restored .none (FunctionDecl.Alike.read_formAll fs)
  | .classDecl _ (some _) _, .classDecl h (.some hp) fs =>
    .classDecl h.restored (.some hp.restored) (FunctionDecl.Alike.read_formAll fs)

theorem Stmt.Alike.read_formAll : {ss : List Stmt} → Forall₂ (Stmt.Alike Token.Legible) ss ss →
    Forall₂ (Stmt.Alike (Token.Elsewhere ())) ss (Stmt.readAll (Stmt.formAll ss))
  | [], _ => .nil
  | _ :: _, .cons s ss => .cons s.read_form (Stmt.Alike.read_formAll ss)

theorem FunctionDecl.Alike.read_form (label : String) : {f : FunctionDecl} → f.Alike Token.Legible f →
    f.Alike (Token.Elsewhere ()) (FunctionDecl.read (f.form label))
  | _, .mk h params body =>
    .mk h.restored (Token.Legible.restored_params params) (Stmt.Alike.read_formAll body)

theorem FunctionDecl.Alike.read_formAll : {fs : List FunctionDecl} →
    Forall₂ (FunctionDecl.Alike Token.Legible) fs fs →
    Forall₂ (FunctionDecl.Alike (Token.Elsewhere ())) fs (FunctionDecl.readAll (FunctionDecl.formAll fs))
  | [], _ => .nil
  | _ :: _, .cons f fs => .cons (FunctionDecl.Alike.read_form "method" f) (FunctionDecl.Alike.read_formAll fs)

end

end LoxLang
