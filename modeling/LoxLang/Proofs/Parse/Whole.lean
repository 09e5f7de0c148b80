import LoxLang.Proofs.Parse.Descent

/-!
# Parsing to the end, without allowances

Any two allowances that the tokens before the end do not use up give the same answer, so there is one answer
for an end and the tokens before it. After declarations that the grammar derives, whatever it complains
of, the answer is that for the tokens after them, with what the declarations add.

Main statements: `program_eq_declarations` and `declarations_append`.
-/

namespace LoxLang.Parse

open Grammar

variable {eof : Token} {ts : List Token} {n n' m m' : Nat}

/-- The answer for the tokens before an end. -/
def declarations (eof : Token) (ts : List Token) : Reply (List Stmt) :=
  program (m := Parser) (declaration (allowance ts)) (allowance ts) eof ts

/-- With allowances that are enough, the answer is that of the parser over a cursor. -/
theorem tape_answers (T : Descent.Tape) (hn : 2 * T.before.length + 3 ≤ n)
    (hn' : 2 * T.before.length + 3 ≤ n') (hm : T.before.length < m) (hm' : T.before.length < m') :
    ∃ ss t, program (m := Parser) (declaration n) m T.eof T.before = ⟨some ss, [], t.errors⟩ ∧
      program (m := Descent) (declaration n') m' T.slice .start = .done ss t := by
  have hat : T.At .start T.before := ⟨Nat.zero_le _, rfl⟩
  have hitem := (Descent.agrees_statement_declaration (T := T) n).2 hn hn'
  obtain ⟨ss, es, t, hreply, hdone, hleads, -⟩ := Descent.program_eq (Descent.declaration_isSome (by omega))
    Descent.declaration_records hitem hat (Nat.le_refl _) hm hm'
  have herrors : t.errors = es := hleads.errors
  exact ⟨ss, t, by rw [herrors]; exact hreply, hdone⟩

theorem program_answers (heof : eof.isEof = true) (hts : ∀ t ∈ ts, t.isEof = false)
    (hn : 2 * ts.length + 3 ≤ n) (hn' : 2 * ts.length + 3 ≤ n') (hm : ts.length < m) :
    ∃ ss t, program (m := Parser) (declaration n) m eof ts = ⟨some ss, [], t.errors⟩ ∧
      program (m := Descent) (declaration n') n' (ts ++ [eof]) .start = .done ss t :=
  tape_answers ⟨ts, eof, [], hts, heof⟩ hn hn' hm (show ts.length < n' by omega)

/-- No allowance that is enough makes a difference. -/
theorem program_congr (heof : eof.isEof = true) (hts : ∀ t ∈ ts, t.isEof = false)
    (hn : 2 * ts.length + 3 ≤ n) (hn' : 2 * ts.length + 3 ≤ n') (hm : ts.length < m)
    (hm' : ts.length < m') :
    program (m := Parser) (declaration n) m eof ts = program (m := Parser) (declaration n') m' eof ts := by
  obtain ⟨ss, t, hreply, hdone⟩ := program_answers heof hts hn (Nat.le_refl _) hm
  obtain ⟨ss', t', hreply', hdone'⟩ := program_answers heof hts hn' (Nat.le_refl _) hm'
  rw [hdone] at hdone'
  cases hdone'
  rw [hreply, hreply']

theorem program_eq_declarations (heof : eof.isEof = true) (hts : ∀ t ∈ ts, t.isEof = false)
    (hn : 2 * ts.length + 3 ≤ n) (hm : ts.length < m) :
    program (m := Parser) (declaration n) m eof ts = declarations eof ts :=
  program_congr heof hts hn (by unfold allowance; omega) hm (by unfold allowance; omega)

/-- There is always an answer, and nothing is left. -/
theorem exists_declarations (heof : eof.isEof = true) (hts : ∀ t ∈ ts, t.isEof = false) :
    ∃ ss es, declarations eof ts = ⟨some ss, [], es⟩ := by
  obtain ⟨ss, t, hreply, -⟩ := program_answers heof hts (n := allowance ts) (m := allowance ts)
    (by unfold allowance; omega) (Nat.le_refl _) (by unfold allowance; omega)
  exact ⟨ss, _, hreply⟩

/-- What a call for a declaration leaves is parsed next. -/
theorem declarations_of_item {rest : List Token} {r : Option Stmt} {es : List SyntaxError}
    (heof : eof.isEof = true) (hrest : ∀ t ∈ rest, t.isEof = false) (hlen : rest.length < ts.length)
    (h : ∀ {n}, 2 * ts.length + 3 ≤ n → declaration (m := Parser) n eof ts = ⟨some r, rest, es⟩) :
    declarations eof ts = (declarations eof rest).following r.toList es := by
  have hts : ts ≠ [] := List.ne_nil_of_length_pos (Nat.zero_lt_of_lt hlen)
  obtain ⟨m, hm⟩ : ∃ m, allowance ts = m + 1 := Nat.exists_eq_add_one.2 (by unfold allowance; omega)
  have hitem := h (n := m + 1) (by rw [← hm]; unfold allowance; omega)
  rw [declarations, hm, program_of_item hts hitem, program_eq_declarations heof hrest
    (by unfold allowance at hm; omega) (by unfold allowance at hm; omega)]

/-- After declarations that a phrase is, the answer is that for the rest. -/
theorem declarations_append {rest : List Token} {ss : List Stmt} {es : List SyntaxError}
    (heof : eof.isEof = true) (hrest : ∀ t ∈ rest, t.isEof = false) (h : Sequence Declaration ts ss es)
    (helse : ∀ t ∈ rest.head?, t.kind ≠ .kwElse) :
    declarations eof (ts ++ rest) = (declarations eof rest).following ss es := by
  have hnext : (next eof rest).kind ≠ .kwElse := by
    cases rest with
    | nil =>
      rw [next, List.head?_nil, Option.getD_none, eq_of_beq heof]
      decide
    | cons t rest => exact helse t rfl
  have hlen : (ts ++ rest).length = ts.length + rest.length := List.length_append
  obtain ⟨k, hk, heq⟩ := program_reads h hnext (m := allowance (ts ++ rest)) (n := allowance (ts ++ rest))
    (by unfold allowance; omega) (by unfold allowance; omega)
  rw [declarations, heq, program_eq_declarations heof hrest (by unfold allowance; omega)
    (by unfold allowance at hk; omega)]

theorem declarations_nil : declarations eof [] = ⟨some [], [], []⟩ := rfl

/-- Declarations that a phrase is are the answer, with the complaints that the phrase draws. -/
theorem declarations_of_sequence {ss : List Stmt} {es : List SyntaxError} (heof : eof.isEof = true)
    (h : Sequence Declaration ts ss es) : declarations eof ts = ⟨some ss, [], es⟩ := by
  have hread : declarations eof (ts ++ []) = (declarations eof []).following ss es :=
    declarations_append heof (by simp) h (by simp)
  rw [List.append_nil, declarations_nil] at hread
  simpa [Reply.following] using hread

/-! ### Lists of tokens with an end -/

theorem body_eq_takeWhile (tokens : List Token) :
    body tokens = tokens.takeWhile fun t => t.kind ≠ .eof := by
  unfold body Token.isEof
  congr
  funext t
  cases h : t.kind == .eof <;> simpa using h

theorem body_isEof (tokens : List Token) : ∀ t ∈ body tokens, t.isEof = false := by
  intro t ht
  simpa using List.mem_takeWhile_imp ht

theorem ending_isEof (tokens : List Token) : (ending tokens).isEof = true :=
  beq_iff_eq.2 (ending_kind tokens)

theorem body_append_end (hts : ∀ t ∈ ts, t.kind ≠ .eof) (heof : eof.kind = .eof) :
    body (ts ++ [eof]) = ts := by
  have hall : ∀ t ∈ ts, (!t.isEof) = true := by
    intro t ht
    simpa [Token.isEof] using hts t ht
  rw [body, List.takeWhile_append_of_pos hall, List.takeWhile_cons_of_neg (by simp [Token.isEof, heof]),
    List.append_nil]

theorem ending_append_end (hts : ∀ t ∈ ts, t.kind ≠ .eof) (heof : eof.kind = .eof) :
    ending (ts ++ [eof]) = eof := by
  have hnone : ts.find? (·.isEof) = none := by
    rw [List.find?_eq_none]
    intro t ht
    simpa [Token.isEof] using hts t ht
  rw [ending, List.find?_append, hnone]
  simp [Token.isEof, heof]

/-- What is parsed of a list of tokens is the answer for those before its end. -/
theorem parse_of_declarations {tokens : List Token} {ss : List Stmt} {rest : List Token}
    {es : List SyntaxError} (h : declarations (ending tokens) (body tokens) = ⟨some ss, rest, es⟩) :
    parse tokens = ⟨ss, es⟩ := by
  have hlen := body_length tokens
  rw [← program_eq_declarations (ending_isEof tokens) (body_isEof tokens) (n := allowance tokens)
    (m := allowance tokens) (by unfold allowance; omega) (by unfold allowance; omega)] at h
  simp only [parse, h, Option.getD_some]

end LoxLang.Parse
