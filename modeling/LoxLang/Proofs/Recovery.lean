import LoxLang.Proofs.Parse.Whole
import LoxLang.Proofs.Scan.Kinds

/-!
# Statements that lack their semicolon

If the semicolon of a statement is missing and a word that starts another statement comes next, or the end,
then the parser complains once, where the semicolon is missing, drops this statement and goes on at that
word. So in a program of which some statements lack their semicolon, each of these is reported once, and
all that is in order is found.

Main statement: `parse_of_patchwork`.
-/

namespace LoxLang

open Grammar

/-- What is asked for where a statement that ends with a semicolon lacks it. After a `return` alone that is a
value. -/
def Stmt.missed? : Stmt → Option Expectation
  | .expression _ => some .expressionEnd
  | .print _ => some .printEnd
  | .var _ _ => some .variableEnd
  | .ret _ (some _) => some .returnEnd
  | .ret _ none => some .expression
  | _ => none

/-- Tokens before an end in which declarations that are in order mix with statements that lack their
semicolon, these only where a word that starts a statement or nothing comes next: with the declarations
that are in order and, for each of the others, the error at the token after it. -/
inductive Patchwork (eof : Token) : List Token → List Stmt → List SyntaxError → Prop where
  | nil : Patchwork eof [] [] []
  | whole (first : parse ts = ⟨[s], []⟩) (others : Patchwork eof us ss es) :
      Patchwork eof (ts ++ us) (s :: ss) es
  | unfinished (hsemi : semi.kind = .semicolon) (first : parse (ts ++ [semi]) = ⟨[s], []⟩)
      (hmissed : s.missed? = some missed) (hnext : ∀ t ∈ us.head?, Parse.startsStatement t.kind = true)
      (others : Patchwork eof us ss es) :
      Patchwork eof (ts ++ us) ss (⟨Parse.next eof us, .missing missed⟩ :: es)

theorem Grammar.Sequence.of_singleton {item : List Token → α → List SyntaxError → Prop} {ts : List Token}
    {a : α} {es : List SyntaxError} (h : Sequence item ts [a] es) : item ts a es := by
  cases h with
  | cons first others =>
    cases others
    simpa using first

namespace Parse

variable {eof : Token} {ts rest : List Token} {n : Nat}

/-! ### Before words that start statements -/

/-- The next token starts a statement, or is the end. -/
def Bounded (eof : Token) (rest : List Token) : Prop :=
  (next eof rest).kind = .eof ∨ startsStatement (next eof rest).kind = true

theorem bounded_of_head (heof : eof.isEof = true) (h : ∀ t ∈ rest.head?, startsStatement t.kind = true) :
    Bounded eof rest := by
  cases rest with
  | nil => exact .inl (eq_of_beq heof)
  | cons t rest => exact .inr (h t rfl)

/-- No word that starts a statement ends one or is in an expression. -/
theorem startsStatement_cases {kind : Token.Kind} (h : startsStatement kind = true) :
    kind ∉ .semicolon :: .equal :: Level.assignment.starts ∧ continued? kind = none := by
  cases kind <;> first | decide | cases h

theorem Bounded.not_mem (h : Bounded eof rest) :
    (next eof rest).kind ∉ .semicolon :: .equal :: Level.assignment.starts := by
  rcases h with h | h
  · rw [h]
    decide
  · exact (startsStatement_cases h).1

theorem Bounded.ne_semicolon (h : Bounded eof rest) : (next eof rest).kind ≠ .semicolon := by
  intro hk
  exact h.not_mem (by simp [hk])

theorem Bounded.not_starts (h : Bounded eof rest) : (next eof rest).kind ∉ Level.assignment.starts := by
  intro hk
  exact h.not_mem (List.mem_cons_of_mem _ (List.mem_cons_of_mem _ hk))

/-- Expressions end at a boundary. -/
theorem Bounded.stops (h : Bounded eof rest) : Level.assignment.Stops (next eof rest).kind := by
  rcases h with h | h
  · rw [h]
    exact stops_closer (by decide) _
  · intro l hl
    rw [(startsStatement_cases h).2] at hl
    cases hl

/-- Passing over tokens ends at a boundary at once. -/
theorem resume_of_bounded (hts : ts ≠ []) (h : ∀ t ∈ rest.head?, startsStatement t.kind = true) :
    resume (ts ++ rest) rest = rest := by
  obtain ⟨us, last, rfl⟩ := (List.eq_nil_or_concat ts).resolve_left hts
  -- the search begins with the last token that was read
  have hdrop : (us.concat last ++ rest).drop ((us.concat last ++ rest).length - rest.length - 1) =
      last :: rest := by
    have hcount : (us.concat last ++ rest).length - rest.length - 1 = us.length := by
      simp only [List.concat_eq_append, List.length_append, List.length_cons, List.length_nil]
      omega
    rw [hcount, List.concat_eq_append, List.append_assoc]
    exact List.drop_left
  rw [resume, hdrop]
  cases rest with
  | nil => rfl
  | cons t rest =>
    dsimp only
    rw [toBoundary, h t rfl, Bool.or_true, if_pos rfl]

/-! ### Parsers that fail -/

/-- What starts no expression is not read as one. -/
theorem primary_of_not_starts {nested : Parser Expr} (h : (next eof rest).kind ∉ atoms) :
    primary nested eof rest = missing (m := Parser) .expression eof rest := by
  have hpeek : peek (m := Parser) eof rest = ⟨some (next eof rest), rest, []⟩ := rfl
  rw [primary, bind_of_some hpeek]
  cases hkind : (next eof rest).kind <;> rw [hkind] at h <;> first | rfl | exact absurd (by decide) h

theorem unary_of_not_starts {operand : Parser Expr} (h : (next eof rest).kind ∉ [.bang, .minus])
    (hoperand : operand eof rest = missing (m := Parser) .expression eof rest) (k : Nat) :
    unary operand (k + 1) eof rest = missing (m := Parser) .expression eof rest := by
  rw [unary, accept?_bind_of_not_mem h]
  exact hoperand

theorem expression_of_not_starts (h : (next eof rest).kind ∉ Level.assignment.starts) :
    expression (m := Parser) (n + 1) eof rest = missing (m := Parser) .expression eof rest := by
  have hatom : (next eof rest).kind ∉ atoms := fun hk => h (Level.starts_subset_assignment .call hk)
  have hsign : (next eof rest).kind ∉ [.bang, .minus] := by
    intro hk
    exact h (List.mem_append_left atoms hk)
  have hcall :
      call (m := Parser) (n + 1) (expression n) eof rest = missing (m := Parser) .expression eof rest :=
    bind_of_none (primary_of_not_starts hatom) _
  have hunary := unary_of_not_starts hsign hcall n
  have hoperators :
      operators (m := Parser) (n + 1) (expression n) eof rest =
        missing (m := Parser) .expression eof rest := by
    -- each of the six levels of binary operators begins with its left operand
    iterate 6 refine bind_of_none ?_ _
    exact hunary
  exact bind_of_none hoperators _

/-! ### Statements that lack their semicolon -/

section

variable {es : List SyntaxError} {missed : Expectation} {s : Stmt}

theorem terminated_of_bounded {e : Expr} (h : Expression .assignment ts e es) (hn : ts.length < n)
    (hnext : Bounded eof rest) (finish : Expectation) :
    terminated (m := Parser) n finish eof (ts ++ rest) =
      (missing (m := Parser) finish eof rest).after es := by
  rw [terminated, bind_of_some (expression_reads n h hn hnext.stops),
    bind_of_none (expect_of_ne hnext.ne_semicolon finish)]
  rfl

theorem varDecl_of_bounded (h : Variable ts s es) (hn : ts.length ≤ n) (hnext : Bounded eof rest) :
    varDecl (m := Parser) n eof (ts.dropLast ++ rest) =
      (missing (m := Parser) .variableEnd eof rest).after es := by
  have hend := expect_of_ne hnext.ne_semicolon .variableEnd
  cases h with
  | @plain name _ hname _ =>
    have hequal : (next eof rest).kind ∉ [.equal] := by
      intro hk
      exact hnext.not_mem (by simp [List.mem_singleton.1 hk])
    show varDecl (m := Parser) n eof (name :: rest) = _
    rw [varDecl, expect_bind hname, accept?_bind_of_not_mem hequal]
    exact bind_of_none hend _
  | initialized hname hequal value _ =>
    simp only [List.length_append, List.length_cons, List.length_nil] at hn
    have hvalue := map_of_some (expression_reads n value (by omega) hnext.stops) some
    rw [← List.cons_append, ← List.cons_append, List.dropLast_concat, varDecl, List.cons_append,
      expect_bind hname, List.cons_append, accept?_bind_of_mem (by simp [hequal])]
    dsimp only
    rw [bind_of_some hvalue, bind_of_none hend]
    rfl

theorem returnStmt_of_bounded {e : Option Expr} {kw : Token} (h : Clause ts e es) (hn : ts.length < n)
    (hnext : Bounded eof rest) (hmissed : (Stmt.ret kw e).missed? = some missed) :
    returnStmt (m := Parser) n kw eof (ts ++ rest) = (missing (m := Parser) missed eof rest).after es := by
  cases h with
  | none =>
    cases hmissed
    obtain ⟨n, rfl⟩ : ∃ m, n = m + 1 := Nat.exists_eq_add_one.2 hn
    -- without a semicolon to end it at once, a value is looked for
    refine bind_of_none ?_ _
    rw [unlessNext, check_bind, List.nil_append, beq_eq_false_iff_ne.2 hnext.ne_semicolon,
      if_neg (by decide)]
    exact bind_of_none (expression_of_not_starts hnext.not_starts) _
  | @some _ e _ value =>
    cases hmissed
    have hread : unlessNext (m := Parser) n .semicolon eof (ts ++ rest) = ⟨some (some e), rest, es⟩ := by
      have hstarts : Token.Kind.semicolon ∉ Level.assignment.starts := by decide
      obtain ⟨t, us, rfl, hne⟩ := value.head_ne hstarts
      rw [unlessNext, check_bind, List.cons_append, next_cons, beq_eq_false_iff_ne.2 hne,
        if_neg (by decide), ← List.cons_append, bind_of_some (expression_reads n value hn hnext.stops)]
      exact after_pure ..
    rw [returnStmt, bind_of_some hread, bind_of_none (expect_of_ne hnext.ne_semicolon .returnEnd)]
    rfl

theorem missed?_variable (h : Variable ts s es) : s.missed? = some .variableEnd := by
  cases h <;> rfl

theorem missed?_counting (i : Option Stmt) (c n : Option Expr) (s : Stmt) :
    (counting i c n s).missed? = none := by
  cases i <;> rfl

theorem statementWith_of_bounded {b : Bool} {nested : Parser Stmt} {inner : Parser (Option Stmt)}
    (h : Statement b ts s es) (hn : ts.length ≤ n) (hnext : Bounded eof rest)
    (hmissed : s.missed? = some missed) :
    statementWith n nested inner eof (ts.dropLast ++ rest) =
      (missing (m := Parser) missed eof rest).after es := by
  cases h with
  | expression value _ =>
    cases hmissed
    simp only [List.length_append, List.length_cons, List.length_nil] at hn
    have hend := terminated_of_bounded (n := n) value (by omega) hnext .expressionEnd
    rw [List.dropLast_concat]
    obtain ⟨t, us, rfl, ht⟩ := value.head
    rw [List.cons_append, statementWith_expression ht, ← List.cons_append]
    exact bind_of_none hend _
  | print hkw value _ =>
    cases hmissed
    simp only [List.length_append, List.length_cons, List.length_nil] at hn
    have hend := terminated_of_bounded (n := n) value (by omega) hnext .printEnd
    rw [← List.cons_append, List.dropLast_concat, statementWith, List.cons_append, peek_bind, hkw]
    dsimp only
    rw [advance_bind]
    exact bind_of_none hend _
  | ret hkw value _ =>
    simp only [List.length_append, List.length_cons, List.length_nil] at hn
    rw [← List.cons_append, List.dropLast_concat, statementWith, List.cons_append, peek_bind, hkw]
    dsimp only
    rw [advance_bind]
    exact returnStmt_of_bounded value (by omega) hnext hmissed
  | counting =>
    rw [missed?_counting] at hmissed
    cases hmissed
  | block | ifThen | ifElse | loop => cases hmissed

theorem declarationWith_of_bounded {t semi : Token} {inner : Parser (Option Stmt)}
    (h : Declaration (t :: (ts ++ [semi])) s es) (hn : ts.length + 3 ≤ n) (hnext : Bounded eof rest)
    (hmissed : s.missed? = some missed) :
    declarationWith n (statement n) inner eof (t :: (ts ++ rest)) =
      (missing (m := Parser) missed eof rest).after es := by
  have hlen : (ts ++ [semi]).length = ts.length + 1 := List.length_append
  generalize hus : t :: (ts ++ [semi]) = us at h
  cases h with
  | statement h =>
    obtain ⟨t', us, rfl, ht⟩ := h.head
    cases hus
    obtain ⟨n, rfl⟩ : ∃ m, n = m + 1 := Nat.exists_eq_add_one.2 (by omega)
    have hread : statementWith (m := Parser) n (statement n) (declaration n) eof
        ((t :: (ts ++ [semi])).dropLast ++ rest) = (missing (m := Parser) missed eof rest).after es :=
      statementWith_of_bounded h (by rw [List.length_cons]; omega) hnext hmissed
    rw [← List.cons_append, List.dropLast_concat] at hread
    rw [declarationWith_statement ht, statement]
    exact hread
  | varDecl hkw decl =>
    cases hus
    have hread := varDecl_of_bounded (n := n) decl (by omega) hnext
    rw [List.dropLast_concat] at hread
    rw [declarationWith, peek_bind, hkw]
    dsimp only
    rw [missed?_variable decl] at hmissed
    cases hmissed
    rw [advance_bind, hread]
  | function | classDecl => cases hmissed

/-- Before its last semicolon, a declaration is not empty. -/
theorem head_of_semicolon {semi : Token} (hsemi : semi.kind = .semicolon)
    (h : Declaration (ts ++ [semi]) s es) : ∃ t us, ts = t :: us ∧ t.kind ∈ declarationStarts := by
  obtain ⟨t, us, heq, ht⟩ := h.head
  cases ts with
  | nil =>
    cases heq
    rw [hsemi] at ht
    exact absurd ht (by decide)
  | cons u ts =>
    cases heq
    exact ⟨t, ts, rfl, ht⟩

/-- A declaration that lacks its semicolon is reported and dropped. -/
theorem declaration_of_bounded {semi : Token} (hsemi : semi.kind = .semicolon)
    (h : Declaration (ts ++ [semi]) s es) (hn : ts.length + 3 ≤ n) (heof : eof.isEof = true)
    (hrest : ∀ t ∈ rest.head?, startsStatement t.kind = true) (hmissed : s.missed? = some missed) :
    declaration (m := Parser) n eof (ts ++ rest) =
      ⟨some none, rest, es ++ [⟨next eof rest, .missing missed⟩]⟩ := by
  obtain ⟨n, rfl⟩ : ∃ m, n = m + 1 := Nat.exists_eq_add_one.2 (by omega)
  obtain ⟨t, us, rfl, -⟩ := head_of_semicolon hsemi h
  have hfailed : declarationWith (m := Parser) n (statement n) (declaration n) eof (t :: (us ++ rest)) =
      (missing (m := Parser) missed eof rest).after es :=
    declarationWith_of_bounded h (by simpa using hn) (bounded_of_head heof hrest) hmissed
  have hresume := resume_of_bounded (List.cons_ne_nil t us) hrest
  rw [List.cons_append] at hresume ⊢
  rw [declaration, later_eq, recovering_eq, hfailed, missing_eq]
  simp only [Reply.after_mk, hresume]

end

/-! ### Programs that lack semicolons -/

/-- Tokens that are parsed to one statement without complaint are a declaration. -/
theorem declaration_of_parse {s : Stmt} (hts : ∀ t ∈ ts, t.isEof = false) (h : parse ts = ⟨[s], []⟩) :
    Declaration ts s [] := by
  have hbody : body ts = ts := List.takeWhile_eq_self_iff.2 (by simpa using hts)
  have hprogram : Program (body ts) (parse ts).statements := program_of_parse (by rw [h])
  rw [hbody, h] at hprogram
  exact hprogram.of_singleton

theorem declaration_of_parse_semicolon {s : Stmt} {semi : Token} (hsemi : semi.kind = .semicolon)
    (hts : ∀ t ∈ ts, t.isEof = false) (h : parse (ts ++ [semi]) = ⟨[s], []⟩) :
    Declaration (ts ++ [semi]) s [] := by
  refine declaration_of_parse ?_ h
  intro t ht
  rcases List.mem_append.1 ht with ht | ht
  · exact hts t ht
  · rw [List.mem_singleton.1 ht, Token.isEof, hsemi]
    rfl

theorem head_ne_of_patchwork {ss : List Stmt} {es : List SyntaxError} (h : Patchwork eof ts ss es)
    (hts : ∀ t ∈ ts, t.isEof = false) : ∀ t ∈ ts.head?, t.kind ≠ .kwElse := by
  have hstart : ts = [] ∨ ∃ t us, ts = t :: us ∧ t.kind ∈ declarationStarts := by
    cases h with
    | nil => exact .inl rfl
    | whole first others =>
      obtain ⟨t, us, rfl, ht⟩ := (declaration_of_parse (fun t ht => hts t (by simp [ht])) first).head
      exact .inr ⟨t, _, rfl, ht⟩
    | unfinished hsemi first _ _ _ =>
      have hfirst := declaration_of_parse_semicolon hsemi (fun t ht => hts t (by simp [ht])) first
      obtain ⟨t, us, rfl, ht⟩ := head_of_semicolon hsemi hfirst
      exact .inr ⟨t, _, rfl, ht⟩
  intro t ht helse
  rcases hstart with rfl | ⟨_, us, rfl, hstart⟩
  · cases ht
  · cases ht
    rw [helse] at hstart
    exact absurd hstart (by decide)

theorem declarations_of_patchwork {ss : List Stmt} {es : List SyntaxError} (heof : eof.isEof = true)
    (h : Patchwork eof ts ss es) (hts : ∀ t ∈ ts, t.isEof = false) :
    declarations eof ts = ⟨some ss, [], es⟩ := by
  induction h with
  | nil => exact declarations_nil
  | whole first others ih =>
    simp only [List.mem_append, or_imp, forall_and] at hts
    have hfirst : Sequence Declaration _ [_] [] := .cons (declaration_of_parse hts.1 first) .nil
    rw [List.append_nil] at hfirst
    rw [declarations_append heof hts.2 hfirst (head_ne_of_patchwork others hts.2), ih hts.2]
    rfl
  | unfinished hsemi first hmissed hnext others ih =>
    simp only [List.mem_append, or_imp, forall_and] at hts
    have hfirst := declaration_of_parse_semicolon hsemi hts.1 first
    obtain ⟨t, ts, rfl, -⟩ := head_of_semicolon hsemi hfirst
    have hread := declarations_of_item heof hts.2 (by simp only [List.length_append, List.length_cons]; omega)
      fun hn => declaration_of_bounded hsemi hfirst
        (by simp only [List.length_append, List.length_cons] at hn ⊢; omega) heof hnext hmissed
    rw [hread, ih hts.2]
    rfl

end Parse

/-- A program of which some statements lack their semicolon, each of them last or before a word that starts a
statement, is parsed to the statements that are in order, and each of the others is reported
once, at the token after it. -/
theorem parse_of_patchwork {tokens : List Token} {ss : List Stmt} {es : List SyntaxError}
    (h : Patchwork (Parse.ending tokens) (tokens.takeWhile fun t => t.kind ≠ .eof) ss es) :
    parse tokens = ⟨ss, es⟩ := by
  rw [← Parse.body_eq_takeWhile] at h
  exact Parse.parse_of_declarations
    (Parse.declarations_of_patchwork (Parse.ending_isEof tokens) h (Parse.body_isEof tokens))

theorem exists_of_missed {p : Parsed} (missed : Option Expectation) (hfine : p.errors.isEmpty = true)
    (h : p.statements.map Stmt.missed? = [missed]) : ∃ s, p = ⟨[s], []⟩ ∧ s.missed? = missed := by
  rcases p with ⟨_ | ⟨s, _ | _⟩, _ | _⟩ <;> simp at h hfine
  exact ⟨s, rfl, h⟩

/-- A variable, a `return`, an expression and a `print` that lack their semicolons, and what is in order
between them. -/
def careless : List (List Token) :=
  ["var a = f(1)", "print a;", "return", "class B < A \x7b \x7d", "a.b = -c", "fun f() \x7b \x7d",
    "print c"].map fun text => Token.ofText text.toList

/-- Each of the four is reported once, and the other three are found. -/
theorem careless_recovered :
    ∃ ss es, Patchwork (Token.endOf []) careless.flatten ss es ∧
      parse (careless.flatten ++ [Token.endOf []]) = ⟨ss, es⟩ ∧
      ss.map Stmt.missed? = [some .printEnd, none, none] ∧
      es.map (fun e => (e.token.lexeme, e.problem)) =
        [("print", .missing .variableEnd), ("class", .missing .expression),
          ("fun", .missing .expressionEnd), ("", .missing .printEnd)] := by
  let semi : Token := { kind := .semicolon, lexeme := ";", line := 1 }
  have lacking (text : String) (missed : Expectation)
      (hfine : (parse (Token.ofText text.toList ++ [semi])).errors.isEmpty = true)
      (h : (parse (Token.ofText text.toList ++ [semi])).statements.map Stmt.missed? = [some missed]) :=
    exists_of_missed _ hfine h
  obtain ⟨s₁, h₁, hmissed₁⟩ := lacking "var a = f(1)" .variableEnd (by decide +kernel) (by decide +kernel)
  obtain ⟨s₂, h₂, hmissed₂⟩ := exists_of_missed (p := parse (Token.ofText "print a;".toList))
    (some .printEnd) (by decide +kernel) (by decide +kernel)
  obtain ⟨s₃, h₃, hmissed₃⟩ := lacking "return" .expression (by decide +kernel) (by decide +kernel)
  obtain ⟨s₄, h₄, hmissed₄⟩ := exists_of_missed (p := parse (Token.ofText "class B < A \x7b \x7d".toList))
    none (by decide +kernel) (by decide +kernel)
  obtain ⟨s₅, h₅, hmissed₅⟩ := lacking "a.b = -c" .expressionEnd (by decide +kernel) (by decide +kernel)
  obtain ⟨s₆, h₆, hmissed₆⟩ := exists_of_missed (p := parse (Token.ofText "fun f() \x7b \x7d".toList))
    none (by decide +kernel) (by decide +kernel)
  obtain ⟨s₇, h₇, hmissed₇⟩ := lacking "print c" .printEnd (by decide +kernel) (by decide +kernel)
  have hpatch : Patchwork (Token.endOf []) _ _ _ :=
    .unfinished rfl h₁ hmissed₁ (by decide +kernel) <| .whole h₂ <|
    .unfinished rfl h₃ hmissed₃ (by decide +kernel) <| .whole h₄ <|
    .unfinished rfl h₅ hmissed₅ (by decide +kernel) <| .whole h₆ <|
    .unfinished rfl h₇ hmissed₇ (by decide +kernel) <| .nil
  have heof : ∀ t ∈ careless.flatten, t.kind ≠ .eof := by decide +kernel
  refine ⟨_, _, hpatch, parse_of_patchwork ?_, ?_, ?_⟩
  · rw [Parse.ending_append_end heof rfl, ← Parse.body_eq_takeWhile, Parse.body_append_end heof rfl]
    exact hpatch
  · simp [hmissed₂, hmissed₄, hmissed₆]
  · decide +kernel

end LoxLang
