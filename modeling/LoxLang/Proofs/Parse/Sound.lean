import LoxLang.Proofs.Parse.Basic

/-!
# What the parser accepts is grammatical

A parser that reports nothing has found a phrase: it has read some tokens from the left, and they
derive the tree it answers with. `Accepts` says this of one parser at one place, and follows the
structure of parsers through `Accepts.bind`. The numbers that bound the recursion appear as
bounds on the tokens left: a parser that is given more steps than there are tokens does not fail for
want of steps.

Main statement: `program_accepts`.
-/

namespace LoxLang.Parse

open Grammar

/-- If the parser reports nothing here, before an end token, it reads some tokens, answers with a tree,
and the tokens, the tree and what is left satisfy the relation. -/
def Accepts (p : Parser α) (eof : Token) (ts : List Token)
    (R : List Token → α → List Token → Prop) : Prop :=
  eof.kind = .eof → (p eof ts).errors = [] →
    ∃ us a rest, p eof ts = ⟨some a, rest, []⟩ ∧ ts = us ++ rest ∧ R us a rest

namespace Accepts

variable {p : Parser α} {f : α → Parser β} {eof : Token} {ts : List Token}

theorem bind {R : List Token → α → List Token → Prop} {S : List Token → β → List Token → Prop}
    (hp : Accepts p eof ts R)
    (hf : ∀ us a rest, ts = us ++ rest → R us a rest →
      Accepts (f a) eof rest fun vs b rest' => S (us ++ vs) b rest') :
    Accepts (p >>= f) eof ts S := by
  intro heof h
  rw [run_bind] at h ⊢
  rcases hr : p eof ts with ⟨_ | a, rest, errors⟩
  · rw [hr] at h
    obtain ⟨us, a, rest, hpe, -, -⟩ := hp heof (by rw [hr]; exact h)
    rw [hr] at hpe
    simp at hpe
  · rw [hr] at h
    simp only [List.append_eq_nil_iff] at h
    obtain ⟨us, a', rest', hpe, hts, hR⟩ := hp heof (by rw [hr]; exact h.1)
    rw [hr] at hpe
    cases hpe
    obtain ⟨vs, b, rest', hfe, hrest, hS⟩ := hf us a rest hts hR heof h.2
    exact ⟨us ++ vs, b, rest', by simp [hfe], by rw [hts, hrest, List.append_assoc], hS⟩

theorem pure {a : α} {R : List Token → α → List Token → Prop} (h : R [] a ts) :
    Accepts (Pure.pure a) eof ts R :=
  fun _ _ => ⟨[], a, ts, rfl, rfl, h⟩

theorem pure_bind {a : α} {S : List Token → β → List Token → Prop}
    (h : Accepts (f a) eof ts S) : Accepts (Pure.pure a >>= f) eof ts S := h

theorem map {g : α → β} {R : List Token → α → List Token → Prop}
    {S : List Token → β → List Token → Prop} (hp : Accepts p eof ts R)
    (h : ∀ us a rest, ts = us ++ rest → R us a rest → S us (g a) rest) :
    Accepts (g <$> p) eof ts S :=
  bind hp fun us a rest hts hR => pure (by simpa using h us a rest hts hR)

theorem mono {R S : List Token → α → List Token → Prop} (hp : Accepts p eof ts R)
    (h : ∀ us a rest, ts = us ++ rest → R us a rest → S us a rest) : Accepts p eof ts S := by
  intro heof he
  obtain ⟨us, a, rest, hpe, hts, hR⟩ := hp heof he
  exact ⟨us, a, rest, hpe, hts, h us a rest hts hR⟩

theorem peek_bind {g : Token → Parser β} {S : List Token → β → List Token → Prop}
    (h : Accepts (g (next eof ts)) eof ts S) : Accepts (peek >>= g) eof ts S := h

theorem advance_bind {g : Token → Parser β} {t : Token} {S : List Token → β → List Token → Prop}
    (h : Accepts (g t) eof ts fun us b rest => S (t :: us) b rest) :
    Accepts (advance >>= g) eof (t :: ts) S := by
  intro heof he
  obtain ⟨us, b, rest, hg, hts, hS⟩ := h heof he
  exact ⟨t :: us, b, rest, hg, by rw [hts, List.cons_append], hS⟩

theorem missing {expected : Expectation} {R : List Token → α → List Token → Prop} :
    Accepts (missing expected) eof ts R :=
  fun _ h => absurd h (by simp [missing_eq])

theorem report_bind {e : SyntaxError} {g : Unit → Parser β} {R : List Token → β → List Token → Prop} :
    Accepts (report e >>= g) eof ts R :=
  fun _ h => by simp [bind_of_some (report_eq e eof ts), Reply.after] at h

theorem reportHere_bind {problem : SyntaxProblem} {g : Unit → Parser β}
    {R : List Token → β → List Token → Prop} : Accepts (reportHere problem >>= g) eof ts R :=
  fun _ h => by simp [bind_of_some (reportHere_eq problem eof ts), Reply.after] at h

theorem expect (kind : Token.Kind) (expected : Expectation) (hkind : kind ≠ .eof) :
    Accepts (expect kind expected) eof ts fun us t _ => us = [t] ∧ t.kind = kind := by
  intro heof h
  by_cases hk : (next eof ts).kind = kind
  · cases ts with
    | nil => exact absurd (hk.symm.trans heof) hkind
    | cons t ts => exact ⟨[t], t, ts, expect_of_kind hk expected eof ts, rfl, rfl, hk⟩
  · rw [expect_of_ne hk] at h
    cases h

theorem accept? (kinds : List Token.Kind) (hkinds : Token.Kind.eof ∉ kinds) :
    Accepts (accept? kinds) eof ts fun us r rest =>
      (∃ t, r = some t ∧ us = [t] ∧ t.kind ∈ kinds) ∨
        (r = none ∧ us = [] ∧ ∀ t ∈ rest.head?, t.kind ∉ kinds) := by
  intro heof h
  by_cases hk : (next eof ts).kind ∈ kinds
  · cases ts with
    | nil => exact absurd (heof ▸ hk) hkinds
    | cons t ts => exact ⟨[t], some t, ts, accept?_of_mem hk, rfl, .inl ⟨t, rfl, rfl, hk⟩⟩
  · refine ⟨[], none, ts, accept?_of_not_mem hk, rfl, .inr ⟨rfl, rfl, fun t ht => ?_⟩⟩
    rwa [next, Option.mem_def.1 ht] at hk

theorem check (kind : Token.Kind) :
    Accepts (check kind) eof ts fun us b rest =>
      us = [] ∧ rest = ts ∧ b = ((next eof ts).kind == kind) :=
  fun _ _ => ⟨[], _, ts, rfl, rfl, rfl, rfl, rfl⟩

theorem atEnd : Accepts atEnd eof ts fun us b rest => us = [] ∧ rest = ts ∧ b = ts.isEmpty :=
  fun _ _ => ⟨[], _, ts, rfl, rfl, rfl, rfl, rfl⟩

end Accepts

/-! ### Expressions -/

section

variable {eof : Token} {b : Nat}

/-- The relation of a parser for expressions of a level. -/
abbrev Phrase (l : Level) (us : List Token) (e : Expr) (_ : List Token) : Prop :=
  Expression l us e []

theorem surplus_eq_nil {limit : SyntaxProblem} {count : Nat} {ts : List Token}
    (h : ¬ maxArguments ≤ count) : surplus limit count ts = [] :=
  if_neg h

theorem commaSeparated_accepts {item : Parser α} {I : List Token → α → List SyntaxError → Prop}
    (limit : SyntaxProblem)
    (hitem : ∀ ts, ts.length < b → Accepts item eof ts fun us a _ => I us a []) :
    ∀ (n count : Nat) (ts : List Token), ts.length < n → ts.length < b →
      Accepts (commaSeparated item limit n count) eof ts
        fun us as _ => Items I limit count us as [] := by
  intro n
  induction n with
  | zero => intro count ts hn; omega
  | succ n ih =>
    intro count ts hn hb
    rw [commaSeparated]
    dsimp only
    split
    · exact .reportHere_bind
    next hcount =>
    refine .bind (hitem ts hb) ?_
    rintro us a rest rfl hI
    refine .bind (.accept? [.comma] (by decide)) ?_
    rintro _ _ vs rfl (⟨comma, rfl, rfl, hcomma⟩ | ⟨rfl, rfl, -⟩)
    · simp only [List.length_append, List.length_cons, List.length_nil] at hn hb
      refine .bind (ih (count + 1) vs (by omega) (by omega)) ?_
      rintro ws as _ rfl hItems
      have more := Items.more hI (List.mem_singleton.1 hcomma) hItems
      rw [surplus_eq_nil hcount] at more
      exact .pure (by simpa using more)
    · have last : Items I limit count us [a] (surplus limit count us ++ []) := .last hI
      rw [surplus_eq_nil hcount] at last
      exact .pure (by simpa using last)

theorem joined_accepts {operand : Parser Expr} {tier : Tier}
    (hoperand : ∀ ts, ts.length < b → Accepts operand eof ts (Phrase tier.operand)) :
    ∀ (n : Nat) (us : List Token) (left : Expr) (ts : List Token), ts.length < n → ts.length < b →
      Expression (.binary tier) us left [] →
      Accepts (joined operand tier.operators tier.node n left) eof ts
        fun vs e _ => Expression (.binary tier) (us ++ vs) e [] := by
  intro n
  induction n with
  | zero => intro us left ts hn; omega
  | succ n ih =>
    intro us left ts hn hb hleft
    refine .bind (.accept? tier.operators tier.eof_not_mem) ?_
    rintro _ _ rest rfl (⟨op, rfl, rfl, hop⟩ | ⟨rfl, rfl, -⟩)
    · simp only [List.length_append, List.length_cons, List.length_nil] at hn hb
      refine .bind (hoperand rest (by omega)) ?_
      rintro vs right rest' rfl hright
      simp only [List.length_append] at hn hb
      refine .mono (ih (us ++ op :: vs) _ rest' (by omega) (by omega) (.binary hleft hop hright)) ?_
      intro ws e _ _ h
      simpa using h
    · exact .pure (by simpa using hleft)

theorem level_accepts {operand : Parser Expr} (tier : Tier) {n : Nat} (hn : b ≤ n)
    (hoperand : ∀ ts, ts.length < b → Accepts operand eof ts (Phrase tier.operand)) :
    ∀ ts, ts.length < b →
      Accepts (level n tier.operators tier.node operand) eof ts (Phrase (.binary tier)) := by
  intro ts hb
  refine .bind (hoperand ts hb) ?_
  rintro us left rest rfl hleft
  simp only [List.length_append] at hb
  exact joined_accepts hoperand n us left rest (by omega) (by omega) (.tighter rfl hleft)

theorem unary_accepts {operand : Parser Expr}
    (hoperand : ∀ ts, ts.length < b → Accepts operand eof ts (Phrase .call)) :
    ∀ (n : Nat) (ts : List Token), ts.length < n → ts.length < b →
      Accepts (unary operand n) eof ts (Phrase .unary) := by
  intro n
  induction n with
  | zero => intro ts hn; omega
  | succ n ih =>
    intro ts hn hb
    refine .bind (.accept? [.bang, .minus] (by decide)) ?_
    rintro _ _ rest rfl (⟨op, rfl, rfl, hop⟩ | ⟨rfl, rfl, -⟩)
    · simp only [List.length_append, List.length_cons, List.length_nil] at hn hb
      refine .bind (ih rest (by omega) (by omega)) ?_
      rintro us e _ rfl he
      exact .pure (by simpa using .unary (by simpa using hop) he)
    · exact .mono (hoperand _ hb) fun _ _ _ _ h => .tighter rfl h

theorem listing_accepts {item : Parser α} {I : List Token → α → List SyntaxError → Prop}
    (close : Token.Kind) (limit : SyntaxProblem)
    (hitem : ∀ ts, ts.length < b → Accepts item eof ts fun us a _ => I us a []) {n : Nat}
    {ts : List Token} (hn : ts.length < n) (hb : ts.length < b) :
    Accepts (listing close (commaSeparated item limit n 0)) eof ts
      fun us as _ => Listing I limit us as [] := by
  refine .bind (.check close) ?_
  rintro _ c _ - ⟨rfl, rfl, -⟩
  split
  · exact .pure .empty
  · exact .mono (commaSeparated_accepts limit hitem n 0 _ hn hb) fun _ _ _ _ h => .items h

variable {nested : Parser Expr}

theorem arguments_accepts (hnested : ∀ ts, ts.length < b → Accepts nested eof ts (Phrase .assignment))
    {n : Nat} {ts : List Token} (hn : ts.length < n) (hb : ts.length < b) :
    Accepts (arguments n nested) eof ts fun us r _ => ∃ vs, us = vs ++ [r.1] ∧
      r.1.kind = .rightParen ∧ Listing (Expression .assignment) .tooManyArguments vs r.2 [] := by
  rw [arguments_eq]
  refine .bind (listing_accepts .rightParen .tooManyArguments hnested hn hb) ?_
  rintro us args rest rfl hargs
  refine .bind (.expect .rightParen .argumentsClose (by decide)) ?_
  rintro _ paren _ rfl ⟨rfl, hparen⟩
  exact .pure ⟨us, by simp, hparen, hargs⟩

theorem suffixes_accepts (hnested : ∀ ts, ts.length < b → Accepts nested eof ts (Phrase .assignment))
    {n : Nat} (hn : b ≤ n) :
    ∀ (k : Nat) (us : List Token) (e : Expr) (ts : List Token), ts.length < k → ts.length < b →
      Expression .call us e [] →
      Accepts (suffixes n nested k e) eof ts fun vs e' _ => Expression .call (us ++ vs) e' [] := by
  intro k
  induction k with
  | zero => intro us e ts hk; omega
  | succ k ih =>
    intro us e ts hk hb he
    refine .bind (.accept? [.leftParen, .dot] (by decide)) ?_
    rintro _ _ rest rfl (⟨t, rfl, rfl, ht⟩ | ⟨rfl, rfl, -⟩)
    · simp only [List.length_append, List.length_cons, List.length_nil] at hk hb
      dsimp only
      split
      next hparen =>
        refine .bind (arguments_accepts hnested (by omega) (by omega)) ?_
        rintro _ ⟨paren, args⟩ rest' rfl ⟨vs, rfl, hclose, hargs⟩
        simp only [List.length_append] at hk hb
        refine .mono (ih (us ++ t :: (vs ++ [paren])) _ rest' (by omega) (by omega)
          (.call he hparen hargs hclose)) ?_
        intro ws e' _ _ h
        simpa using h
      next hparen =>
        have hdot : t.kind = .dot := by simpa [hparen] using ht
        refine .bind (.expect .identifier .propertyName (by decide)) ?_
        rintro _ name rest' rfl ⟨rfl, hname⟩
        simp only [List.length_append] at hk hb
        refine .mono (ih (us ++ [t, name]) _ rest' (by omega) (by omega) (.get he hdot hname)) ?_
        intro ws e' _ _ h
        simpa using h
    · exact .pure (by simpa using he)

/-- In what follows, parsers further inside may be relied on for shorter lists of tokens. -/
theorem primary_accepts {ts : List Token}
    (hnested : ∀ us, us.length < ts.length → Accepts nested eof us (Phrase .assignment)) :
    Accepts (primary nested) eof ts (Phrase .primary) := by
  refine .peek_bind ?_
  match ts, hnested with
  | [], _ =>
    intro heof
    simp only [next, List.head?_nil, Option.getD_none, heof]
    exact Accepts.missing heof
  | t :: ts, hnested =>
    simp only [next, List.head?_cons, Option.getD_some]
    split
    · next h => exact .advance_bind (.pure (.no h))
    · next h => exact .advance_bind (.pure (.yes h))
    · next h => exact .advance_bind (.pure (.nil h))
    · next h => exact .advance_bind (.pure (.number h))
    · next h => exact .advance_bind (.pure (.string h))
    · next h => exact .advance_bind (.pure (.this h))
    · next h =>
      refine .advance_bind (.bind (.expect .dot .superDot (by decide)) ?_)
      rintro _ dot _ rfl ⟨rfl, hdot⟩
      refine .bind (.expect .identifier .superMethod (by decide)) ?_
      rintro _ m _ rfl ⟨rfl, hm⟩
      exact .pure (.super h hdot hm)
    · next h => exact .advance_bind (.pure (.name h))
    · next h =>
      refine .advance_bind (.bind (hnested ts (by simp)) ?_)
      rintro us e _ rfl he
      refine .bind (.expect .rightParen .groupingClose (by decide)) ?_
      rintro _ rpar _ rfl ⟨rfl, hrp⟩
      exact .pure (by simpa using .grouping h he hrp)
    · exact .missing

theorem call_accepts {n : Nat} (hnested : ∀ ts, ts.length < b → Accepts nested eof ts (Phrase .assignment))
    (hn : b < n) {ts : List Token} (hb : ts.length < b + 1) :
    Accepts (call n nested) eof ts (Phrase .call) := by
  refine .bind (primary_accepts fun us hus => hnested us (by omega)) ?_
  rintro us e rest rfl he
  have := List.length_pos_iff.2 he.ne_nil
  simp only [List.length_append] at hb
  exact suffixes_accepts hnested (by omega) n us e rest (by omega) (by omega) (.tighter rfl he)

theorem operators_accepts {n : Nat}
    (hnested : ∀ ts, ts.length < b → Accepts nested eof ts (Phrase .assignment)) (hn : b < n)
    {ts : List Token} (hb : ts.length < b + 1) :
    Accepts (operators n nested) eof ts (Phrase (.binary .disjunction)) := by
  have hcall : ∀ ts, ts.length < b + 1 → Accepts (call n nested) eof ts (Phrase .call) :=
    fun ts hb => call_accepts hnested hn hb
  have hunary : ∀ ts, ts.length < b + 1 → Accepts (unary (call n nested) n) eof ts (Phrase .unary) :=
    fun ts hb => unary_accepts hcall n ts (by omega) hb
  have hproduct := level_accepts .product hn hunary
  have hsum := level_accepts .sum hn hproduct
  have hcomparison := level_accepts .comparison hn hsum
  have hequality := level_accepts .equality hn hcomparison
  have hconjunction := level_accepts .conjunction hn hequality
  exact level_accepts .disjunction hn hconjunction ts hb

theorem assignTo_accepts {us vs ts : List Token} {equals : Token} {target value : Expr}
    (htarget : Expression (.binary .disjunction) us target []) (heq : equals.kind = .equal)
    (hvalue : Expression .assignment vs value []) :
    Accepts (assignTo equals value target) eof ts
      fun ws e _ => ws = [] ∧ Expression .assignment (us ++ equals :: vs) e [] := by
  cases target with
  | name n => exact .pure ⟨rfl, .assignName htarget heq hvalue⟩
  | get o n => exact .pure ⟨rfl, .assignProperty htarget heq hvalue⟩
  | _ => exact .report_bind

theorem assignment_accepts {n : Nat}
    (hnested : ∀ ts, ts.length < b → Accepts nested eof ts (Phrase .assignment)) (hn : b < n)
    {ts : List Token} (hb : ts.length < b + 1) :
    Accepts (assignment n nested) eof ts (Phrase .assignment) := by
  refine .bind (operators_accepts hnested hn hb) ?_
  rintro us target rest rfl htarget
  refine .bind (.accept? [.equal] (by decide)) ?_
  rintro _ _ rest rfl (⟨equals, rfl, rfl, heq⟩ | ⟨rfl, rfl, -⟩)
  · simp only [List.length_append, List.length_cons, List.length_nil] at hb
    refine .bind (hnested rest (by omega)) ?_
    rintro vs value rest' rfl hvalue
    refine .mono (assignTo_accepts htarget (List.mem_singleton.1 heq) hvalue) ?_
    rintro ws e _ - ⟨rfl, h⟩
    simpa using h
  · exact .pure (by simpa using .tighter rfl htarget)

theorem expression_accepts (n : Nat) :
    ∀ ts, ts.length < n → Accepts (expression n) eof ts (Phrase .assignment) := by
  induction n with
  | zero => intro ts hn; omega
  | succ n ih => exact fun ts hn => assignment_accepts ih (Nat.lt_succ_self n) hn

end

/-! ### Clauses -/

theorem superclass_accepts {eof : Token} {ts : List Token} :
    Accepts superclass eof ts fun us c _ => Superclass us c := by
  refine .bind (.accept? [.less] (by decide)) ?_
  rintro _ _ rest rfl (⟨less, rfl, rfl, hless⟩ | ⟨rfl, rfl, -⟩)
  · refine .map (.expect .identifier .superclassName (by decide)) ?_
    rintro _ name _ - ⟨rfl, hname⟩
    exact .some (List.mem_singleton.1 hless) hname
  · exact .pure .none

section

variable {eof : Token} {n : Nat} {ts : List Token}

theorem terminated_accepts (finish : Expectation) (hn : ts.length < n) :
    Accepts (terminated n finish) eof ts fun us e _ => ∃ vs semi, us = vs ++ [semi] ∧
      semi.kind = .semicolon ∧ Expression .assignment vs e [] := by
  refine .bind (expression_accepts n ts hn) ?_
  rintro us e _ rfl he
  refine .bind (.expect .semicolon finish (by decide)) ?_
  rintro _ semi _ rfl ⟨rfl, hsemi⟩
  exact .pure ⟨us, semi, by simp, hsemi, he⟩

theorem unlessNext_accepts (kind : Token.Kind) (hn : ts.length < n) :
    Accepts (unlessNext n kind) eof ts fun us e _ => Clause us e [] := by
  refine .bind (.check kind) ?_
  rintro _ _ _ - ⟨rfl, rfl, -⟩
  split
  · exact .pure .none
  · refine .bind (expression_accepts n _ hn) ?_
    rintro us e _ - he
    exact .pure (by simpa using .some he)

theorem varDecl_accepts (hn : ts.length < n) :
    Accepts (varDecl n) eof ts fun us s _ => Variable us s [] := by
  refine .bind (.expect .identifier .variableName (by decide)) ?_
  rintro _ name rest rfl ⟨rfl, hname⟩
  refine .bind (.accept? [.equal] (by decide)) ?_
  rintro _ _ rest rfl (⟨equals, rfl, rfl, heq⟩ | ⟨rfl, rfl, -⟩)
  · simp only [List.length_append, List.length_cons, List.length_nil] at hn
    have hvalue : Accepts (some <$> expression n) eof rest
        fun us e _ => ∃ v, e = some v ∧ Expression .assignment us v [] :=
      .map (expression_accepts n rest (by omega)) fun us v _ _ hv => ⟨v, rfl, hv⟩
    refine .bind hvalue ?_
    rintro us _ _ rfl ⟨v, rfl, hv⟩
    refine .bind (.expect .semicolon .variableEnd (by decide)) ?_
    rintro _ semi _ rfl ⟨rfl, hsemi⟩
    exact .pure (by simpa using .initialized hname (List.mem_singleton.1 heq) hv hsemi)
  · refine .pure_bind (.bind (.expect .semicolon .variableEnd (by decide)) ?_)
    rintro _ semi _ rfl ⟨rfl, hsemi⟩
    exact .pure (.plain hname hsemi)

theorem expressionStmt_accepts (hn : ts.length < n) :
    Accepts (expressionStmt n) eof ts fun us s _ => ∃ e vs semi, s = .expression e ∧
      us = vs ++ [semi] ∧ semi.kind = .semicolon ∧ Expression .assignment vs e [] := by
  refine .bind (terminated_accepts .expressionEnd hn) ?_
  rintro _ e _ rfl ⟨us, semi, rfl, hsemi, he⟩
  exact .pure ⟨e, us, semi, rfl, by simp, hsemi, he⟩

theorem forInitial_accepts (hn : ts.length < n) :
    Accepts (forInitial n) eof ts fun us i _ => Initial us i [] := by
  refine .bind (.accept? [.semicolon, .kwVar] (by decide)) ?_
  rintro _ _ rest rfl (⟨t, rfl, rfl, ht⟩ | ⟨rfl, rfl, -⟩)
  · simp only [List.length_append, List.length_cons, List.length_nil] at hn
    dsimp only
    split
    · next hsemi => exact .pure (.none hsemi)
    · next hsemi =>
      have hvar : t.kind = .kwVar := by simpa [hsemi] using ht
      exact .map (varDecl_accepts (by omega)) fun us s _ _ hs => .varDecl hvar hs
  · refine .map (expressionStmt_accepts hn) ?_
    rintro _ _ _ - ⟨e, us, semi, rfl, rfl, hsemi, he⟩
    exact .expression he hsemi

end

/-! ### Statements and declarations -/

section

variable {eof : Token} {b : Nat}

/-- The relation of a parser for statements: an open statement is not followed by an `else`, which it
would have taken. -/
def Sentence (us : List Token) (s : Stmt) (rest : List Token) : Prop :=
  ∃ b, Statement b us s [] ∧ (b = true → ∀ t ∈ rest.head?, t.kind ≠ .kwElse)

theorem Sentence.closed {us rest : List Token} {s : Stmt} (h : Statement false us s []) :
    Sentence us s rest :=
  ⟨false, h, by simp⟩

theorem untilBrace_accepts {item : Parser α} {I : List Token → α → List SyntaxError → Prop}
    (hne : ∀ us a, I us a [] → us ≠ [])
    (hitem : ∀ ts, ts.length < b → Accepts item eof ts fun us a _ => I us a []) :
    ∀ (n : Nat) (ts : List Token), ts.length < n → ts.length < b →
      Accepts (untilBrace item n) eof ts fun us as _ => Sequence I us as [] := by
  intro n
  induction n with
  | zero => intro ts hn; omega
  | succ n ih =>
    intro ts hn hb
    refine .bind (.check .rightBrace) ?_
    rintro _ _ _ - ⟨rfl, rfl, -⟩
    refine .bind .atEnd ?_
    rintro _ _ _ - ⟨rfl, rfl, -⟩
    split
    · exact .pure .nil
    · refine .bind (hitem _ hb) ?_
      rintro us a rest rfl ha
      have := List.length_pos_iff.2 (hne us a ha)
      simp only [List.length_append] at hn hb
      refine .bind (ih rest (by omega) (by omega)) ?_
      rintro vs as _ - has
      exact .pure (by simpa using .cons ha has)

theorem block_accepts {inner : Parser (Option Stmt)} {n : Nat} {ts : List Token}
    (hinner : ∀ ts, ts.length < b → Accepts inner eof ts fun us r _ => Recovered us r [])
    (hn : ts.length < n) (hb : ts.length < b) :
    Accepts (block n inner) eof ts fun us ss _ => ∃ vs rb, us = vs ++ [rb] ∧
      rb.kind = .rightBrace ∧ Sequence Declaration vs ss [] := by
  refine .bind (untilBrace_accepts (fun us r h => h.ne_nil) hinner n ts hn hb) ?_
  rintro us found _ rfl hfound
  refine .bind (.expect .rightBrace .blockEnd (by decide)) ?_
  rintro _ rb _ rfl ⟨rfl, hrb⟩
  exact .pure ⟨us, rb, by simp, hrb, Recovered.declarations hfound⟩

theorem function_accepts {inner : Parser (Option Stmt)} {n : Nat} {ts : List Token}
    (noun : FunctionNoun)
    (hinner : ∀ ts, ts.length < b → Accepts inner eof ts fun us r _ => Recovered us r [])
    (hn : ts.length < n) (hb : ts.length < b + 1) :
    Accepts (function n inner noun) eof ts fun us f _ => Function us f [] := by
  rw [function_eq]
  refine .bind (.expect .identifier (.functionName noun) (by decide)) ?_
  rintro _ name rest rfl ⟨rfl, hname⟩
  refine .bind (.expect .leftParen (.parametersOpen noun) (by decide)) ?_
  rintro _ lpar rest rfl ⟨rfl, hlp⟩
  simp only [List.length_append, List.length_cons, List.length_nil] at hn hb
  have hparam : ∀ ts, ts.length < b → Accepts (expect .identifier .parameterName) eof ts
      fun us t _ => Parameter us t [] := by
    intro ts _
    refine .mono (.expect .identifier .parameterName (by decide)) ?_
    rintro _ t _ - ⟨rfl, ht⟩
    exact .name ht
  refine .bind (listing_accepts .rightParen .tooManyParameters hparam (by omega) (by omega)) ?_
  rintro us params rest rfl hparams
  refine .bind (.expect .rightParen .parametersClose (by decide)) ?_
  rintro _ rpar rest rfl ⟨rfl, hrp⟩
  refine .bind (.expect .leftBrace (.functionBody noun) (by decide)) ?_
  rintro _ lb rest rfl ⟨rfl, hlb⟩
  simp only [List.length_append, List.length_cons, List.length_nil] at hn hb
  refine .bind (block_accepts hinner (by omega) (by omega)) ?_
  rintro _ body _ - ⟨vs, rb, rfl, hrb, hbody⟩
  exact .pure (by simpa using .mk hname hlp hparams hrp hlb hbody hrb)

theorem classDecl_accepts {inner : Parser (Option Stmt)} {n : Nat} {ts : List Token} {kw : Token}
    (hkw : kw.kind = .kwClass)
    (hinner : ∀ ts, ts.length < b → Accepts inner eof ts fun us r _ => Recovered us r [])
    (hn : ts.length < n) (hb : ts.length < b + 1) :
    Accepts (classDecl n inner) eof ts fun us s _ => Declaration (kw :: us) s [] := by
  refine .bind (.expect .identifier .className (by decide)) ?_
  rintro _ name rest rfl ⟨rfl, hname⟩
  refine .bind superclass_accepts ?_
  rintro us parent rest rfl hparent
  refine .bind (.expect .leftBrace .classBody (by decide)) ?_
  rintro _ lb rest rfl ⟨rfl, hlb⟩
  simp only [List.length_append, List.length_cons, List.length_nil] at hn hb
  have hmethod : ∀ ts, ts.length < min n (b + 1) → Accepts (function n inner .method) eof ts
      fun us f _ => Function us f [] :=
    fun ts hts => function_accepts .method hinner (by omega) (by omega)
  refine .bind (untilBrace_accepts (fun us f h => h.ne_nil) hmethod n rest (by omega) (by omega)) ?_
  rintro vs methods _ rfl hmethods
  refine .bind (.expect .rightBrace .classEnd (by decide)) ?_
  rintro _ rb _ rfl ⟨rfl, hrb⟩
  exact .pure (by simpa using .classDecl hkw hname hparent hlb hmethods hrb)

variable {nested : Parser Stmt} {n : Nat} {ts : List Token} {kw : Token}

theorem forStmt_accepts (hkw : kw.kind = .kwFor)
    (hnested : ∀ ts, ts.length < b → Accepts nested eof ts Sentence) (hn : ts.length < n)
    (hb : ts.length < b) :
    Accepts (forStmt n nested) eof ts fun us s rest => Sentence (kw :: us) s rest := by
  refine .bind (.expect .leftParen .forOpen (by decide)) ?_
  rintro _ lpar rest rfl ⟨rfl, hlp⟩
  simp only [List.length_append] at hn hb
  refine .bind (forInitial_accepts (by omega)) ?_
  rintro us initial rest rfl hinitial
  simp only [List.length_append] at hn hb
  refine .bind (unlessNext_accepts .semicolon (by omega)) ?_
  rintro vs condition rest rfl hcondition
  refine .bind (.expect .semicolon .forConditionEnd (by decide)) ?_
  rintro _ semi rest rfl ⟨rfl, hsemi⟩
  simp only [List.length_append] at hn hb
  refine .bind (unlessNext_accepts .rightParen (by omega)) ?_
  rintro ws increment rest rfl hincrement
  refine .bind (.expect .rightParen .forClose (by decide)) ?_
  rintro _ rpar rest rfl ⟨rfl, hrp⟩
  simp only [List.length_append] at hn hb
  refine .bind (hnested rest (by omega)) ?_
  rintro xs body rest rfl ⟨isOpen, hbody, helse⟩
  rw [lowerFor_eq]
  refine .pure ⟨isOpen, ?_, helse⟩
  simpa using .counting hkw hlp hinitial hcondition hsemi hincrement hrp hbody

theorem ifStmt_accepts (hkw : kw.kind = .kwIf)
    (hnested : ∀ ts, ts.length < b → Accepts nested eof ts Sentence) (hn : ts.length < n)
    (hb : ts.length < b) :
    Accepts (ifStmt n nested) eof ts fun us s rest => Sentence (kw :: us) s rest := by
  refine .bind (.expect .leftParen .ifOpen (by decide)) ?_
  rintro _ lpar rest rfl ⟨rfl, hlp⟩
  simp only [List.length_append] at hn hb
  refine .bind (expression_accepts n rest (by omega)) ?_
  rintro us condition rest rfl hcondition
  refine .bind (.expect .rightParen .ifClose (by decide)) ?_
  rintro _ rpar rest rfl ⟨rfl, hrp⟩
  simp only [List.length_append] at hn hb
  refine .bind (hnested rest (by omega)) ?_
  rintro vs yes rest rfl ⟨isOpen, hyes, helse⟩
  refine .bind (.accept? [.kwElse] (by decide)) ?_
  rintro _ _ rest rfl (⟨el, rfl, rfl, hel⟩ | ⟨rfl, rfl, hrest⟩)
  · have hel := List.mem_singleton.1 hel
    -- an open branch would have taken this `else` itself
    have hclosed : isOpen = false := by
      cases isOpen with
      | false => rfl
      | true => exact absurd hel (helse rfl el rfl)
    subst hclosed
    simp only [List.length_append] at hn hb
    refine .bind (hnested rest (by omega)) ?_
    rintro ws no _ rfl ⟨isOpen, hno, helse⟩
    refine .pure ⟨isOpen, ?_, helse⟩
    simpa using .ifElse hkw hlp hcondition hrp hyes hel hno
  · refine .pure ⟨true, ?_, fun _ t ht => ?_⟩
    · simpa using .ifThen hkw hlp hcondition hrp hyes
    · simpa using hrest t ht

theorem whileStmt_accepts (hkw : kw.kind = .kwWhile)
    (hnested : ∀ ts, ts.length < b → Accepts nested eof ts Sentence) (hn : ts.length < n)
    (hb : ts.length < b) :
    Accepts (whileStmt n nested) eof ts fun us s rest => Sentence (kw :: us) s rest := by
  refine .bind (.expect .leftParen .whileOpen (by decide)) ?_
  rintro _ lpar rest rfl ⟨rfl, hlp⟩
  simp only [List.length_append] at hn hb
  refine .bind (expression_accepts n rest (by omega)) ?_
  rintro us condition rest rfl hcondition
  refine .bind (.expect .rightParen .whileClose (by decide)) ?_
  rintro _ rpar rest rfl ⟨rfl, hrp⟩
  simp only [List.length_append] at hn hb
  refine .bind (hnested rest (by omega)) ?_
  rintro vs body rest rfl ⟨isOpen, hbody, helse⟩
  refine .pure ⟨isOpen, ?_, helse⟩
  simpa using .loop hkw hlp hcondition hrp hbody

theorem returnStmt_accepts (hkw : kw.kind = .kwReturn)
    (hn : ts.length < n) :
    Accepts (returnStmt n kw) eof ts fun us s rest => Sentence (kw :: us) s rest := by
  refine .bind (unlessNext_accepts .semicolon hn) ?_
  rintro us value rest rfl hvalue
  refine .bind (.expect .semicolon .returnEnd (by decide)) ?_
  rintro _ semi _ rfl ⟨rfl, hsemi⟩
  exact .pure (.closed (by simpa using .ret hkw hvalue hsemi))

theorem statementWith_accepts {inner : Parser (Option Stmt)}
    (hnested : ∀ ts, ts.length < b → Accepts nested eof ts Sentence)
    (hinner : ∀ ts, ts.length < b → Accepts inner eof ts fun us r _ => Recovered us r [])
    (hn : ts.length < n)
    (hb : ts.length < b + 1) : Accepts (statementWith n nested inner) eof ts Sentence := by
  refine .peek_bind ?_
  have hother : Accepts (expressionStmt n) eof ts Sentence := by
    refine .mono (expressionStmt_accepts hn) ?_
    rintro _ _ _ - ⟨e, us, semi, rfl, rfl, hsemi, he⟩
    exact .closed (.expression he hsemi)
  match ts, hother with
  | [], hother =>
    intro heof
    simp only [next, List.head?_nil, Option.getD_none, heof]
    exact hother heof
  | t :: ts, hother =>
    simp only [List.length_cons] at hn hb
    simp only [next, List.head?_cons, Option.getD_some]
    split
    · next h => exact .advance_bind (forStmt_accepts h hnested (by omega) (by omega))
    · next h => exact .advance_bind (ifStmt_accepts h hnested (by omega) (by omega))
    · next h =>
      refine .advance_bind (.bind (terminated_accepts .printEnd (by omega)) ?_)
      rintro _ e _ - ⟨us, semi, rfl, hsemi, he⟩
      exact .pure (.closed (by simpa using .print h he hsemi))
    · next h => exact .advance_bind (returnStmt_accepts h (by omega))
    · next h => exact .advance_bind (whileStmt_accepts h hnested (by omega) (by omega))
    · next h =>
      refine .advance_bind (.bind (block_accepts hinner (by omega) (by omega)) ?_)
      rintro _ ss _ - ⟨us, rb, rfl, hrb, hbody⟩
      exact .pure (.closed (by simpa using .block h hbody hrb))
    · exact hother

theorem declarationWith_accepts {inner : Parser (Option Stmt)}
    (hnested : Accepts nested eof ts Sentence)
    (hinner : ∀ ts, ts.length < b → Accepts inner eof ts fun us r _ => Recovered us r [])
    (hn : ts.length < n)
    (hb : ts.length < b + 1) :
    Accepts (declarationWith n nested inner) eof ts fun us s _ => Declaration us s [] := by
  refine .peek_bind ?_
  have hother : Accepts nested eof ts fun us s _ => Declaration us s [] :=
    .mono hnested fun _ _ _ _ ⟨_, h, _⟩ => .statement h
  match ts, hother with
  | [], hother =>
    intro heof
    simp only [next, List.head?_nil, Option.getD_none, heof]
    exact hother heof
  | t :: ts, hother =>
    simp only [List.length_cons] at hn hb
    simp only [next, List.head?_cons, Option.getD_some]
    split
    · next h => exact .advance_bind (classDecl_accepts h hinner (by omega) (by omega))
    · next h =>
      refine .advance_bind (.bind (function_accepts .function hinner (by omega) (by omega)) ?_)
      rintro us f _ - hf
      exact .pure (by simpa using .function h hf)
    · next h =>
      exact .advance_bind (.mono (varDecl_accepts (by omega)) fun _ _ _ _ hs => .varDecl h hs)
    · exact hother

theorem recovering_accepts {p : Parser Stmt} (rounds : Nat)
    (hp : Accepts p eof ts fun us s _ => Declaration us s []) :
    Accepts (recovering rounds p) eof ts fun us r _ => Recovered us r [] := by
  intro heof h
  rw [recovering_eq] at h ⊢
  have hnil : (p eof ts).errors = [] := by
    rcases hr : p eof ts with ⟨_ | s, rest, errors⟩ <;> simpa [hr] using h
  obtain ⟨us, s, rest, hpe, hts, hs⟩ := hp heof hnil
  exact ⟨us, some s, rest, by rw [hpe], hts, .mk hs⟩

theorem statement_accepts_and : ∀ n : Nat,
    (∀ ts, 2 * ts.length + 1 < n → Accepts (statement n) eof ts Sentence) ∧
      ∀ ts, 2 * ts.length + 2 < n → Accepts (declaration n) eof ts fun us r _ => Recovered us r [] := by
  intro n
  induction n with
  | zero => exact ⟨fun ts h => by omega, fun ts h => by omega⟩
  | succ n ih =>
    -- one level of nesting costs two steps: a block holds declarations, and these hold statements
    have hstatement : ∀ ts, ts.length < n / 2 → Accepts (statement n) eof ts Sentence :=
      fun ts h => ih.1 ts (by omega)
    have hdeclaration : ∀ ts, ts.length < (n - 1) / 2 →
        Accepts (declaration n) eof ts fun us r _ => Recovered us r [] :=
      fun ts h => ih.2 ts (by omega)
    refine ⟨fun ts h => ?_, fun ts h => ?_⟩
    · rw [statement, later_eq]
      exact statementWith_accepts (b := (n - 1) / 2) (fun ts h => hstatement ts (by omega))
        hdeclaration (by omega) (by omega)
    · rw [declaration, later_eq]
      exact recovering_accepts n (declarationWith_accepts (b := (n - 1) / 2) (hstatement ts (by omega))
        hdeclaration (by omega) (by omega))

end

/-! ### Programs -/

theorem program_accepts {eof : Token} {n : Nat} :
    ∀ (m : Nat) (ts : List Token), ts.length < m → 2 * ts.length + 2 < n →
      Accepts (program (declaration n) m) eof ts fun us ss rest => rest = [] ∧ Program us ss := by
  intro m
  induction m with
  | zero => intro ts hm; omega
  | succ m ih =>
    intro ts hm hn
    refine .bind .atEnd ?_
    rintro _ _ _ - ⟨rfl, rfl, rfl⟩
    split
    · next h => exact .pure ⟨List.isEmpty_iff.1 h, .nil⟩
    · refine .bind ((statement_accepts_and n).2 _ hn) ?_
      rintro us _ rest rfl ⟨hs⟩
      have := List.length_pos_iff.2 hs.ne_nil
      simp only [List.length_append] at hm hn
      refine .bind (ih rest (by omega) (by omega)) ?_
      rintro vs ss _ - ⟨rfl, hss⟩
      exact .pure ⟨rfl, by simpa using .cons hs hss⟩

end LoxLang.Parse
