import LoxLang.Proofs.Layout
import LoxLang.Proofs.Parse.Literals
import LoxLang.Proofs.Tree.Readable

/-!
# Trees that can be read

A token that is no string and no number is told by its text, but for its line: it is the symbol or keyword
with that text, or else a name. The forms of trees of such tokens can be read, since names are no values
and neither names nor labels hold a character that would end them.

Main statements: `Token.Told.sameButLine`, `Token.told_of_pattern` and `Stmt.Alike.readable`.
-/

namespace LoxLang

open Lexical (Pattern Denotes Word symbols)
open Token (keywords isDigit isLetter isWordChar)
open List (Forall₂)

/-! ### Words -/

/-- The texts of symbols and keywords. -/
def Token.fixedTexts : List (String × Kind) := symbols ++ keywords

/-- The token that has a text: a symbol or a keyword, or else a name. -/
def Token.ofWord (text : String) : Token :=
  { kind := (fixedTexts.lookup text).getD .identifier, lexeme := text, line := 0 }

/-- A token is told by its text, but for its line. -/
structure Token.Told (t : Token) : Prop where
  literal : t.literal = .nil
  text : (t.lexeme, t.kind) ∈ fixedTexts ∨
    t.kind = .identifier ∧ Word t.lexeme.toList ∧ ∀ kind, (t.lexeme, kind) ∉ fixedTexts

namespace Token

/-- No symbol or keyword is a name. -/
theorem Told.name {t : Token} (h : t.Told) (hk : t.kind = .identifier) :
    Word t.lexeme.toList ∧ ∀ kind, (t.lexeme, kind) ∉ fixedTexts := by
  have hfixed : ∀ entry ∈ fixedTexts, entry.2 ≠ .identifier := by decide
  rcases h.text with hmem | ⟨-, hname⟩
  · exact absurd hk (hfixed _ hmem)
  · exact hname

theorem lookup_of_mem {entry : String × Kind} (h : entry ∈ fixedTexts) :
    fixedTexts.lookup entry.1 = some entry.2 :=
  (by decide : ∀ entry ∈ fixedTexts, fixedTexts.lookup entry.1 = some entry.2) entry h

theorem text_unique {text text' : String} {kind : Kind} (h : (text, kind) ∈ fixedTexts)
    (h' : (text', kind) ∈ fixedTexts) : text = text' := by
  have hall : ∀ entry ∈ fixedTexts, ∀ entry' ∈ fixedTexts, entry.2 = entry'.2 → entry.1 = entry'.1 := by
    decide
  exact hall _ h _ h' rfl

theorem lookup_eq_none [BEq α] [LawfulBEq α] {table : List (α × β)} {a : α} (h : ∀ b, (a, b) ∉ table) :
    table.lookup a = none := by
  rw [List.lookup_eq_none_iff]
  rintro ⟨a', b⟩ hmem
  rw [bne_iff_ne]
  rintro rfl
  exact h b hmem

theorem Told.sameButLine {t : Token} (h : t.Told) : t.SameButLine (.ofWord t.lexeme) where
  kind := by
    rcases h.text with hfixed | ⟨hname, -, hfree⟩
    · rw [ofWord, lookup_of_mem hfixed]
      rfl
    · rw [ofWord, lookup_eq_none hfree, hname]
      rfl
  lexeme := rfl
  literal := h.literal.symm

/-- What is no name has the text that its kind has. -/
theorem Told.lexeme_eq {t : Token} {text : String} (h : t.Told) (hk : (text, t.kind) ∈ fixedTexts)
    (hn : t.kind ≠ .identifier) : t.lexeme = text := by
  rcases h.text with hfixed | ⟨hname, -⟩
  · exact text_unique hfixed hk
  · exact absurd hname hn

/-- A token is told by its text unless its value counts. -/
theorem told_of_pattern {t : Token} (h : Pattern t.kind t.lexeme.toList)
    (hv : Denotes t.kind t.lexeme.toList t.literal) (hs : t.kind ≠ .string) (hn : t.kind ≠ .number) :
    t.Told := by
  refine ⟨hv.eq_nil hs hn, ?_⟩
  obtain ⟨kind, lexeme, line, literal⟩ := t
  dsimp only at h hs hn ⊢
  generalize htext : lexeme.toList = text at h
  cases h with
  | symbol h =>
    obtain rfl := String.toList_inj.1 htext
    exact .inl (List.mem_append_left _ h)
  | keyword h =>
    obtain rfl := String.toList_inj.1 htext
    exact .inl (List.mem_append_right _ h)
  | string => exact absurd rfl hs
  | whole | decimal => exact absurd rfl hn
  | name h h' =>
    subst htext
    refine .inr ⟨rfl, h, fun kind hmem => ?_⟩
    rcases List.mem_append.1 hmem with hsymbol | hkeyword
    · obtain ⟨c, hc, hletter⟩ := h.head
      obtain ⟨cs, hcs⟩ := List.head?_eq_some_iff.1 hc
      rw [← String.ofList_toList (s := lexeme), hcs] at hsymbol
      rw [(Lexical.symbols_head hsymbol).2.1] at hletter
      cases hletter
    · exact h' kind (by rwa [String.ofList_toList])

end Token

/-- A token of a tree is told by its text and of a kind for its part. -/
def Token.Legible (part : Part) (t t' : Token) : Prop := t = t' ∧ t.Told ∧ t.kind ∈ part.kinds

/-! ### Words of forms -/

namespace Form

theorem isWord_of {text : String} (hne : text.toList ≠ []) (hall : text.toList.all isPlain = true)
    (hdigit : text.toList.head?.any isDigit = false) (hconstant : constants.lookup text.toList = none) :
    IsWord text where
  plain := ⟨hne, List.all_eq_true.1 hall⟩
  ofText := by rw [ofText, hdigit, hconstant, Option.elim_none, String.ofList_toList]; rfl

/-- The texts of the operators that have operands. -/
def operators : List String := ["!", "-", "!=", "==", ">", ">=", "<", "<=", "+", "/", "*", "or", "and"]

/-- The words that stand in front of the parts of a node, or for a whole one. -/
def labels : List String :=
  ["group", "=", "call", ".", ".=", "super", "this", ";", "print", "var", "block", "if", "while", "fun",
   "return", "class", "method"] ++ operators

/-- The kinds of the operators that have operands. -/
def operatorKinds : List Token.Kind := Part.unary.kinds ++ Part.binary.kinds ++ Part.logical.kinds

theorem isWord_label {text : String} (h : text ∈ labels) : IsWord text := by
  have hall : ∀ text ∈ labels, text.toList ≠ [] ∧ text.toList.all isPlain = true ∧
      text.toList.head?.any isDigit = false ∧ constants.lookup text.toList = none := by
    decide
  obtain ⟨hne, hplain, hdigit, hconstant⟩ := hall text h
  exact isWord_of hne hplain hdigit hconstant

theorem isPlain_of_isWordChar {c : Char} (h : isWordChar c = true) : isPlain c = true := by
  rw [isPlain, decide_eq_true_eq]
  simp only [List.mem_cons, List.not_mem_nil, or_false]
  rintro (rfl | rfl | rfl | rfl | rfl) <;> exact absurd h (by decide)

/-- A name is a word that is no value. -/
theorem isWord_name {t : Token} (h : t.Told) (hk : t.kind = .identifier) : IsWord t.lexeme := by
  obtain ⟨hword, hfree⟩ := h.name hk
  obtain ⟨c, hc, hletter⟩ := hword.head
  obtain ⟨cs, hcs⟩ := List.head?_eq_some_iff.1 hc
  refine isWord_of (by simp [hcs]) ?_ ?_ ?_
  · exact List.all_eq_true.2 fun c hc => isPlain_of_isWordChar (hword.all c hc)
  · rw [hcs, List.head?_cons, Option.any_some, Bool.eq_false_iff]
    intro hdigit
    rw [Lexical.not_isLetter_of_isDigit hdigit] at hletter
    cases hletter
  · have hkeywords : ∀ entry ∈ constants, ∃ kind, (String.ofList entry.1, kind) ∈ Token.fixedTexts := by
      simp [constants, Token.fixedTexts, keywords]
    refine Token.lookup_eq_none fun v hmem => ?_
    obtain ⟨kind, hkind⟩ := hkeywords _ hmem
    exact hfree kind (by rwa [String.ofList_toList] at hkind)

theorem mem_operators {t : Token} (h : t.Told) (hk : t.kind ∈ operatorKinds) : t.lexeme ∈ operators := by
  have hentry : ∀ entry ∈ Token.fixedTexts, entry.2 ∈ operatorKinds → entry.1 ∈ operators := by decide
  obtain hmem | ⟨hname, -⟩ := h.text
  · exact hentry _ hmem hk
  · exact absurd (hname ▸ hk) (by decide)

theorem Readable.cons {p : Form} {ps : List Form} (h : p.Readable) (hs : ∀ q ∈ ps, q.Readable) :
    ∀ q ∈ p :: ps, q.Readable :=
  List.forall_mem_cons.2 ⟨h, hs⟩

theorem readable_nil : ∀ q ∈ ([] : List Form), q.Readable := by simp

theorem Readable.node {label : String} {parts : List Form} (h : label ∈ labels)
    (hparts : ∀ p ∈ parts, p.Readable) : (Form.list (.word label :: parts)).Readable :=
  .list (.cons (.word (isWord_label h)) hparts)

theorem Readable.name {t : Token} (h : Token.Legible .name t t) : (ofToken t).Readable :=
  .word (isWord_name h.2.1 (by simpa [Part.kinds] using h.2.2))

theorem Readable.operation {t : Token} {parts : List Form} (h : t.Told) (hk : t.kind ∈ operatorKinds)
    (hparts : ∀ p ∈ parts, p.Readable) : (Form.list (ofToken t :: parts)).Readable :=
  .node (List.mem_append_right _ (mem_operators h hk)) hparts

end Form

/-! ### The forms of trees can be read -/

open Form (readable_nil)

mutual

theorem Expr.Alike.readable : {e : Expr} → e.Alike Token.Legible e → e.Literals Value.Readable →
    e.form.Readable
  | _, .literal, .nil => .value .nil
  | _, .literal, .bool => .value .bool
  | _, .literal, .token h => .value h
  | _, .grouping e, .grouping he => .node (by decide) (.cons (e.readable he) readable_nil)
  | _, .name h, .name => .name h
  | _, .assign h e, .assign he =>
    .node (by decide) (.cons (.name h) (.cons (e.readable he) readable_nil))
  | _, .unary h e, .unary he =>
    .operation h.2.1 (by simp [Form.operatorKinds, h.2.2]) (.cons (e.readable he) readable_nil)
  | _, .binary l h r, .binary hl hr =>
    .operation h.2.1 (by simp [Form.operatorKinds, h.2.2])
      (.cons (l.readable hl) (.cons (r.readable hr) readable_nil))
  | _, .logical l h r, .logical hl hr =>
    .operation h.2.1 (by simp [Form.operatorKinds, h.2.2])
      (.cons (l.readable hl) (.cons (r.readable hr) readable_nil))
  | _, .call f _ args, .call hf hargs =>
    .node (by decide) (.cons (f.readable hf) (Expr.Alike.readableAll args hargs))
  | _, .get e h, .get he => .node (by decide) (.cons (e.readable he) (.cons (.name h) readable_nil))
  | _, .set e h v, .set he hv =>
    .node (by decide)
      (.cons (e.readable he) (.cons (.name h) (.cons (v.readable hv) readable_nil)))
  | _, .this _, .this => .word (Form.isWord_label (by decide))
  | _, .super _ h, .super => .node (by decide) (.cons (.name h) readable_nil)

theorem Expr.Alike.readableAll : {es : List Expr} → Forall₂ (Expr.Alike Token.Legible) es es →
    (∀ e ∈ es, e.Literals Value.Readable) → ∀ p ∈ Expr.formAll es, p.Readable
  | [], _, _ => readable_nil
  | _ :: _, .cons e es, h =>
    .cons (e.readable (h _ List.mem_cons_self))
      (Expr.Alike.readableAll es fun e he => h e (List.mem_cons_of_mem _ he))

end

theorem Expr.Alike.readableOption {i : Option Expr} (h : Option.Rel (Expr.Alike Token.Legible) i i)
    (hl : Expr.OptionLiterals Value.Readable i) : ∀ e ∈ i, e.form.Readable := by
  rintro e rfl
  cases h with
  | some h => exact h.readable (hl e rfl)

theorem readable_params {params : List Token} (h : Forall₂ (Token.Legible .name) params params) :
    (Form.list (params.map .ofToken)).Readable := by
  refine .list fun p hp => ?_
  obtain ⟨t, ht, rfl⟩ := List.mem_map.1 hp
  exact .name (List.forall₂_same.1 h t ht)

mutual

theorem Stmt.Alike.readable : {s : Stmt} → s.Alike Token.Legible s → s.Literals Value.Readable →
    s.form.Readable
  | _, .expression e, .expression he => .node (by decide) (.cons (e.readable he) readable_nil)
  | _, .print e, .print he => .node (by decide) (.cons (e.readable he) readable_nil)
  | .var _ none, .var h _, .var _ => .node (by decide) (.cons (.name h) readable_nil)
  | .var _ (some e), .var h i, .var hi =>
    .node (by decide) (.cons (.name h) (.cons (Expr.Alike.readableOption i hi e rfl) readable_nil))
  | _, .block ss, .block hs => .node (by decide) (Stmt.Alike.readableAll ss hs)
  | _, .ifThen c s, .ifThen hc hs =>
    .node (by decide) (.cons (c.readable hc) (.cons (s.readable hs) readable_nil))
  | _, .ifElse c s u, .ifElse hc hs hu =>
    .node (by decide) (.cons (c.readable hc) (.cons (s.readable hs) (.cons (u.readable hu) readable_nil)))
  | _, .loop c s, .loop hc hs =>
    .node (by decide) (.cons (c.readable hc) (.cons (s.readable hs) readable_nil))
  | _, .function f, .function hf => FunctionDecl.Alike.readable (by decide) f hf
  | .ret _ none, .ret _ _, .ret _ => .node (by decide) readable_nil
  | .ret _ (some e), .ret _ i, .ret hi =>
    .node (by decide) (.cons (Expr.Alike.readableOption i hi e rfl) readable_nil)
  | .classDecl _ none _, .classDecl h _ fs, .classDecl hfs =>
    .node (by decide) (.cons (.name h) (FunctionDecl.Alike.readableAll fs hfs))
  | .classDecl _ (some _) _, .classDecl h (.some hp) fs, .classDecl hfs =>
    .node (by decide) (.cons (.name h) (.cons (.word (Form.isWord_label (by decide)))
      (.cons (.name hp) (FunctionDecl.Alike.readableAll fs hfs))))

theorem Stmt.Alike.readableAll : {ss : List Stmt} → Forall₂ (Stmt.Alike Token.Legible) ss ss →
    (∀ s ∈ ss, s.Literals Value.Readable) → ∀ p ∈ Stmt.formAll ss, p.Readable
  | [], _, _ => readable_nil
  | _ :: _, .cons s ss, h =>
    .cons (s.readable (h _ List.mem_cons_self))
      (Stmt.Alike.readableAll ss fun s hs => h s (List.mem_cons_of_mem _ hs))

theorem FunctionDecl.Alike.readable {label : String} (hlabel : label ∈ Form.labels) :
    {f : FunctionDecl} → f.Alike Token.Legible f → f.Literals Value.Readable → (f.form label).Readable
  | _, .mk h params body, .mk hbody =>
    .node hlabel (.cons (.name h) (.cons (readable_params params) (Stmt.Alike.readableAll body hbody)))

theorem FunctionDecl.Alike.readableAll : {fs : List FunctionDecl} →
    Forall₂ (FunctionDecl.Alike Token.Legible) fs fs → (∀ f ∈ fs, f.Literals Value.Readable) →
    ∀ p ∈ FunctionDecl.formAll fs, p.Readable
  | [], _, _ => readable_nil
  | _ :: _, .cons f fs, h =>
    .cons (FunctionDecl.Alike.readable (by decide) f (h _ List.mem_cons_self))
      (FunctionDecl.Alike.readableAll fs fun f hf => h f (List.mem_cons_of_mem _ hf))

end

end LoxLang
