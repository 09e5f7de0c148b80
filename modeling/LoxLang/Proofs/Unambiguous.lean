import LoxLang.Proofs.Scan.Lines
import LoxLang.Proofs.Tree.Reading

/-!
# The text of a program tells the program

Whatever statements parsing leaves, with or without errors, their tokens are told by their texts and their
literals are values that a source can give. So the text that is written for them has one reading,
and two programs that are written alike differ at most in the lines of their tokens.

Main statement: `dumpProgram_eq_iff`.
-/

namespace LoxLang

open Lexical (Pattern Denotes)
open List (Forall₂)

/-! ### Tokens of sources -/

theorem Lexical.Denotes.readable {kind : Token.Kind} {text : List Char} {v : Value}
    (h : Denotes kind text v) : v.Readable := by
  cases h with
  | string => exact .string
  | number h => exact .number h
  | other => exact .nil

theorem Token.Lexed.readable {t : Token} (h : t.Lexed) : t.literal.Readable := by
  rcases h with ⟨-, hnil⟩ | ⟨-, hv⟩
  · rw [hnil]
    exact .nil
  · exact hv.readable

/-- Tokens with a part in a tree are legible. -/
theorem Token.Lexed.legible {part : Part} {t t' : Token}
    (h : Grammar.Placed (fun t t' => t = t' ∧ t.Lexed) part t t') : Legible part t t' := by
  obtain ⟨⟨rfl, hlexed⟩, hkind⟩ := h
  have hkinds : ∀ kind ∈ part.kinds, kind ≠ .eof ∧ kind ≠ .string ∧ kind ≠ .number := by
    cases part <;> decide
  obtain ⟨heof, hstring, hnumber⟩ := hkinds _ hkind
  rcases hlexed with ⟨hend, -⟩ | ⟨hp, hv⟩
  · exact absurd hend heof
  · exact ⟨rfl, told_of_pattern hp hv hstring hnumber, hkind⟩

/-! ### What parsing leaves -/

theorem parse_legible (source : List Char) :
    Forall₂ (Stmt.Alike Token.Legible) (parse (scan source).tokens).statements
      (parse (scan source).tokens).statements :=
  Stmt.Alike.mono_list Token.Lexed.legible (parse_tokens scan_lexed).1

theorem parse_readable (source : List Char) :
    ∀ p ∈ (parse (scan source).tokens).statements.map Stmt.form, p.Readable := by
  intro p hp
  obtain ⟨s, hs, rfl⟩ := List.mem_map.1 hp
  exact (List.forall₂_same.1 (parse_legible source) s hs).readable
    (parse_literals .nil (fun t ht => (scan_lexed t ht).readable) s hs)

/-- Statements of one form differ at most in lines. -/
theorem alike_of_form_eq {s s' : Stmt} (h : s.Alike Token.Legible s) (h' : s'.Alike Token.Legible s')
    (heq : s.form = s'.form) : s.Alike (Token.Elsewhere ()) s' := by
  have hjoins : Part.Joins (Token.Elsewhere ()) (Token.Elsewhere ()) (Token.Elsewhere ()) :=
    fun _ _ _ _ ht ht' => ⟨ht'.kind.symm.trans ht.kind, ht'.lexeme.symm.trans ht.lexeme,
      ht'.literal.symm.trans ht.literal⟩
  exact h.read_form.join hjoins (heq ▸ h'.read_form)

theorem alike_of_map_form_eq {ss ss' : List Stmt} (h : Forall₂ (Stmt.Alike Token.Legible) ss ss)
    (h' : Forall₂ (Stmt.Alike Token.Legible) ss' ss') (heq : ss.map Stmt.form = ss'.map Stmt.form) :
    Forall₂ (Stmt.Alike (Token.Elsewhere ())) ss ss' := by
  induction ss generalizing ss' with
  | nil =>
    cases ss' with
    | nil => exact .nil
    | cons s' ss' => cases heq
  | cons s ss ih =>
    cases ss' with
    | nil => cases heq
    | cons s' ss' =>
      obtain ⟨hfirst, hothers⟩ := List.cons.inj heq
      cases h with
      | cons hs hss =>
        cases h' with
        | cons hs' hss' => exact .cons (alike_of_form_eq hs hs' hfirst) (ih hss hss' hothers)

/-! ### Programs that differ in lines -/

mutual

theorem Expr.Alike.form_eq : {e e' : Expr} → e.Alike (Token.Elsewhere ()) e' → e'.form = e.form
  | _, _, .literal => rfl
  | _, _, .this _ => rfl
  | _, _, .grouping e => by rw [Expr.form, Expr.form, e.form_eq]
  | _, _, .name h => by simp [Expr.form, h.lexeme]
  | _, _, .assign h e => by simp [Expr.form, h.lexeme, e.form_eq]
  | _, _, .unary h e => by simp [Expr.form, h.lexeme, e.form_eq]
  | _, _, .binary l h r => by simp [Expr.form, h.lexeme, l.form_eq, r.form_eq]
  | _, _, .logical l h r => by simp [Expr.form, h.lexeme, l.form_eq, r.form_eq]
  | _, _, .call f _ args => by rw [Expr.form, Expr.form, f.form_eq, Expr.Alike.formAll_eq args]
  | _, _, .get e h => by simp [Expr.form, h.lexeme, e.form_eq]
  | _, _, .set e h v => by simp [Expr.form, h.lexeme, e.form_eq, v.form_eq]
  | _, _, .super _ h => by simp [Expr.form, h.lexeme]

theorem Expr.Alike.formAll_eq : {es es' : List Expr} → Forall₂ (Expr.Alike (Token.Elsewhere ())) es es' →
    Expr.formAll es' = Expr.formAll es
  | _, _, .nil => rfl
  | _, _, .cons e es => by rw [Expr.formAll, Expr.formAll, e.form_eq, Expr.Alike.formAll_eq es]

end

theorem map_ofToken_eq {ps ps' : List Token} (h : Forall₂ (Token.Elsewhere () .name) ps ps') :
    ps'.map Form.ofToken = ps.map .ofToken := by
  induction h with
  | nil => rfl
  | cons h _ ih => rw [List.map_cons, List.map_cons, ih, Form.ofToken, Form.ofToken, h.lexeme]

mutual

/-- Statements that differ at most in lines have one form. -/
theorem Stmt.Alike.form_eq : {s s' : Stmt} → s.Alike (Token.Elsewhere ()) s' → s'.form = s.form
  | _, _, .expression e => by rw [Stmt.form, Stmt.form, e.form_eq]
  | _, _, .print e => by rw [Stmt.form, Stmt.form, e.form_eq]
  | _, _, .var h initial => by
    cases initial with
    | none => simp [Stmt.form, h.lexeme]
    | some e => simp [Stmt.form, h.lexeme, e.form_eq]
  | _, _, .block ss => by rw [Stmt.form, Stmt.form, Stmt.Alike.formAll_eq ss]
  | _, _, .ifThen c s => by rw [Stmt.form, Stmt.form, c.form_eq, s.form_eq]
  | _, _, .ifElse c s u => by rw [Stmt.form, Stmt.form, c.form_eq, s.form_eq, u.form_eq]
  | _, _, .loop c s => by rw [Stmt.form, Stmt.form, c.form_eq, s.form_eq]
  | _, _, .function f => by rw [Stmt.form, Stmt.form, FunctionDecl.Alike.form_eq "fun" f]
  | _, _, .ret _ value => by
    cases value with
    | none => rfl
    | some e => rw [Stmt.form, Stmt.form, e.form_eq]
  | _, _, .classDecl h superclass fs => by
    cases superclass with
    | none => simp [Stmt.form, h.lexeme, FunctionDecl.Alike.formAll_eq fs]
    | some p => simp [Stmt.form, h.lexeme, p.lexeme, FunctionDecl.Alike.formAll_eq fs]

theorem Stmt.Alike.formAll_eq : {ss ss' : List Stmt} → Forall₂ (Stmt.Alike (Token.Elsewhere ())) ss ss' →
    Stmt.formAll ss' = Stmt.formAll ss
  | _, _, .nil => rfl
  | _, _, .cons s ss => by rw [Stmt.formAll, Stmt.formAll, s.form_eq, Stmt.Alike.formAll_eq ss]

theorem FunctionDecl.Alike.form_eq (label : String) : {f f' : FunctionDecl} →
    f.Alike (Token.Elsewhere ()) f' → f'.form label = f.form label
  | _, _, .mk h params body => by
    simp [FunctionDecl.form, h.lexeme, map_ofToken_eq params, Stmt.Alike.formAll_eq body]

theorem FunctionDecl.Alike.formAll_eq : {fs fs' : List FunctionDecl} →
    Forall₂ (FunctionDecl.Alike (Token.Elsewhere ())) fs fs' →
      FunctionDecl.formAll fs' = FunctionDecl.formAll fs
  | _, _, .nil => rfl
  | _, _, .cons f fs => by
    rw [FunctionDecl.formAll, FunctionDecl.formAll, FunctionDecl.Alike.form_eq "method" f,
      FunctionDecl.Alike.formAll_eq fs]

end

theorem map_form_eq {ss ss' : List Stmt} (h : Forall₂ (Stmt.Alike (Token.Elsewhere ())) ss ss') :
    ss.map Stmt.form = ss'.map Stmt.form := by
  induction h with
  | nil => rfl
  | cons h _ ih => rw [List.map_cons, List.map_cons, ih, h.form_eq]

/-- The statements that parsing leaves of two sources, be there errors or not, are written alike exactly if
they differ at most in the lines of their tokens. -/
theorem dumpProgram_eq_iff (a b : List Char) :
    dumpProgram (parse (scan a).tokens).statements = dumpProgram (parse (scan b).tokens).statements ↔
      Forall₂ (Stmt.Alike (Token.Elsewhere ())) (parse (scan a).tokens).statements
        (parse (scan b).tokens).statements := by
  rw [← String.toList_inj, toList_dumpProgram, toList_dumpProgram]
  constructor
  · intro h
    have hforms := Form.lines_inj (parse_readable a) (parse_readable b) h
    exact alike_of_map_form_eq (parse_legible a) (parse_legible b) hforms
  · intro h
    rw [map_form_eq h]

example : dumpProgram (parse (scan "-a - (\"- a)\");".toList).tokens).statements =
    "(; (- (- a) (group \"- a)\")))\n" := by
  decide +kernel

end LoxLang
