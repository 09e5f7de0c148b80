import LoxLang.Proofs.Parse.Basic

/-!
# What is grammatical the parser accepts

A parser in front of a phrase reads exactly the phrase, builds its tree and reports its complaints,
whatever comes after it, as long as the next token does not continue the phrase. Levels of
operators are left-recursive in the grammar and loops in the parser; there the induction runs over
the derivation with the rest of the loop as what is left to do.

Main statement: `program_reads`.
-/

namespace LoxLang.Parse

open Grammar

/-! ### Expressions -/

/-- In front of a phrase with fewer than `b` tokens that ends where it does, the parser reads it. -/
def Reads (p : Parser α) (b : Nat) (phrase : List Token → α → List SyntaxError → Prop)
    (stops : Token.Kind → Prop) : Prop :=
  ∀ ⦃eof ts rest a es⦄, phrase ts a es → ts.length < b → stops (next eof rest).kind →
    p eof (ts ++ rest) = ⟨some a, rest, es⟩

theorem Reads.bind {p : Parser α} {b : Nat} {phrase : List Token → α → List SyntaxError → Prop}
    {stops : Token.Kind → Prop} (hp : Reads p b phrase stops) {eof : Token} {ts rest : List Token}
    {a : α} {es : List SyntaxError} (h : phrase ts a es) (hb : ts.length < b)
    (hstops : stops (next eof rest).kind) (f : α → Parser β) :
    (p >>= f) eof (ts ++ rest) = (f a eof rest).after es :=
  bind_of_some (hp h hb hstops) f

/-- The case in which the token after the phrase is known. -/
theorem Reads.cons {p : Parser α} {b : Nat} {phrase : List Token → α → List SyntaxError → Prop}
    {stops : Token.Kind → Prop} (hp : Reads p b phrase stops) {ts : List Token} {a : α}
    {es : List SyntaxError} (h : phrase ts a es) (hb : ts.length < b) {t : Token}
    {kind : Token.Kind} (ht : t.kind = kind) (hstops : stops kind) (eof : Token)
    (rest : List Token) : p eof (ts ++ t :: rest) = ⟨some a, t :: rest, es⟩ :=
  hp h hb (by rw [next_cons, ht]; exact hstops)

theorem Reads.bind_cons {p : Parser α} {b : Nat}
    {phrase : List Token → α → List SyntaxError → Prop} {stops : Token.Kind → Prop}
    (hp : Reads p b phrase stops) {ts : List Token} {a : α} {es : List SyntaxError}
    (h : phrase ts a es) (hb : ts.length < b) {t : Token} {kind : Token.Kind} (ht : t.kind = kind)
    (hstops : stops kind) (f : α → Parser β) (eof : Token) (rest : List Token) :
    (p >>= f) eof (ts ++ t :: rest) = (f a eof (t :: rest)).after es :=
  bind_of_some (hp.cons h hb ht hstops eof rest) f

/-- Where a list goes on or is closed. -/
theorem stops_closer {kind : Token.Kind}
    (h : kind ∈ [.comma, .rightParen, .rightBrace, .semicolon, .leftBrace, .eof]) (l : Level) :
    l.Stops kind := by
  simp only [List.mem_cons, List.not_mem_nil, or_false] at h
  rcases h with rfl | rfl | rfl | rfl | rfl | rfl <;> intro l' hl' <;> cases hl'

section

variable {b : Nat} {nested : Parser Expr}

theorem primary_reads (hnested : Reads nested b (Expression .assignment) Level.assignment.Stops) :
    Reads (primary nested) (b + 1) (Expression .primary) fun _ => True := by
  intro eof ts rest e es he hb _
  cases he with
  | no h | yes h | nil h | number h | string h | this h | name h =>
    rw [primary, List.cons_append, peek_bind, h]
    rfl
  | super h hdot hm =>
    rw [primary, List.cons_append, peek_bind, h]
    dsimp only
    rw [advance_bind, List.cons_append, expect_bind hdot, List.cons_append, expect_bind hm]
    rfl
  | grouping hopen inner hclose =>
    simp only [List.length_append, List.length_cons, List.length_nil] at hb
    rw [primary, List.cons_append, peek_bind, hopen]
    dsimp only
    rw [advance_bind, List.append_assoc, List.singleton_append,
      hnested.bind_cons inner (by omega) hclose (stops_closer (by decide) _), expect_bind hclose,
      run_pure, Reply.after_mk, List.append_nil]
  | tighter hl => cases hl

theorem reportSurplus_eq {limit : SyntaxProblem} {count : Nat} {ts : List Token} (hts : ts ≠ [])
    (f : Unit → Parser α) (eof : Token) (rest : List Token) :
    (if maxArguments ≤ count then reportHere limit >>= f else f ()) eof (ts ++ rest) =
      (f () eof (ts ++ rest)).after (surplus limit count ts) := by
  obtain ⟨t, us, rfl⟩ := List.exists_cons_of_ne_nil hts
  by_cases h : maxArguments ≤ count
  · have : surplus limit count (t :: us) = [⟨t, limit⟩] := if_pos h
    rw [if_pos h, this]
    rfl
  · have : surplus limit count (t :: us) = [] := if_neg h
    rw [if_neg h, this]
    rfl

theorem commaSeparated_reads {item : Parser α} {I : List Token → α → List SyntaxError → Prop}
    {stops : Token.Kind → Prop} {limit : SyntaxProblem} (hitem : Reads item b I stops)
    (hne : ∀ {ts a es}, I ts a es → ts ≠ []) (hcomma : stops .comma) {count : Nat}
    {ts : List Token} {as : List α} {es : List SyntaxError} (h : Items I limit count ts as es) :
    ∀ {n : Nat} {eof : Token} {rest : List Token}, ts.length ≤ n → ts.length < b →
      stops (next eof rest).kind → (next eof rest).kind ≠ .comma →
      commaSeparated item limit n count eof (ts ++ rest) = ⟨some as, rest, es⟩ := by
  induction h with
  | last first =>
    intro n eof rest hn hb hstops hrest
    obtain ⟨n, rfl⟩ : ∃ m, n = m + 1 :=
      Nat.exists_eq_add_one.2 (Nat.lt_of_lt_of_le (List.length_pos_iff.2 (hne first)) hn)
    rw [commaSeparated, reportSurplus_eq (hne first)]
    dsimp only
    rw [hitem.bind first hb hstops, accept?_bind_of_not_mem (by simpa using hrest)]
    dsimp only
    rw [run_pure, Reply.after_mk, Reply.after_mk, List.append_nil]
  | more first hc others ih =>
    intro n eof rest hn hb hstops hrest
    have hpos := List.length_pos_iff.2 (hne first)
    simp only [List.length_append, List.length_cons] at hn hb
    obtain ⟨n, rfl⟩ : ∃ m, n = m + 1 := Nat.exists_eq_add_one.2 (by omega)
    rw [List.append_assoc, List.cons_append, commaSeparated, reportSurplus_eq (hne first)]
    dsimp only
    rw [hitem.bind_cons first (by omega) hc hcomma, accept?_bind_of_mem (by simp [hc])]
    dsimp only
    rw [bind_of_some (ih (by omega) (by omega) hstops hrest), run_pure, Reply.after_mk,
      Reply.after_mk, Reply.after_mk, List.append_nil]

theorem listing_reads {item : Parser α} {I : List Token → α → List SyntaxError → Prop}
    {stops : Token.Kind → Prop} {limit : SyntaxProblem} (hitem : Reads item b I stops)
    (hhead : ∀ {ts a es}, I ts a es → ∃ t us, ts = t :: us ∧ t.kind ≠ .rightParen)
    (hcomma : stops .comma) (hparen : stops .rightParen) {n : Nat} {us : List Token} {as : List α}
    {es : List SyntaxError} {rp : Token} (h : Listing I limit us as es)
    (hclose : rp.kind = .rightParen) (hn : us.length ≤ n) (hb : us.length < b) (eof : Token)
    (rest : List Token) :
    listing .rightParen (commaSeparated item limit n 0) eof (us ++ rp :: rest) =
      ⟨some as, rp :: rest, es⟩ := by
  rw [listing, check_bind]
  cases h with
  | empty => simp [hclose, run_pure]
  | items some =>
    obtain ⟨t, us, rfl, ht⟩ := some.head hhead
    simp only [List.cons_append, next_cons, beq_eq_false_iff_ne.2 ht, Bool.false_eq_true, if_false]
    refine commaSeparated_reads hitem ?_ hcomma some hn hb ?_ ?_
    · intro ts a es ha
      obtain ⟨t, us, rfl, -⟩ := hhead ha
      simp
    · rw [next_cons, hclose]
      exact hparen
    · rw [next_cons, hclose]
      decide

theorem arguments_reads (hnested : Reads nested b (Expression .assignment) Level.assignment.Stops)
    {us : List Token} {as : List Expr} {es : List SyntaxError} {rp : Token}
    (h : Listing (Expression .assignment) .tooManyArguments us as es) (hclose : rp.kind = .rightParen)
    {n : Nat} (hn : us.length ≤ n) (hb : us.length < b) (eof : Token) (rest : List Token) :
    arguments n nested eof (us ++ rp :: rest) = ⟨some (rp, as), rest, es⟩ := by
  have hlist := listing_reads hnested (fun h => h.head_ne (by decide)) (stops_closer (by decide) _)
    (stops_closer (by decide) _) h hclose hn hb eof rest
  rw [arguments_eq, bind_of_some hlist, expect_bind hclose, run_pure, Reply.after_mk,
    List.append_nil]

/-- After the call that a phrase is, the loop over suffixes goes on. -/
theorem call_reads_suffixes
    (hnested : Reads nested b (Expression .assignment) Level.assignment.Stops) (n : Nat)
    (eof : Token) : ∀ {ts : List Token} {e : Expr} {es : List SyntaxError} (rest : List Token),
      Expression .call ts e es → ts.length ≤ n → ts.length < b + 1 →
      ∃ m, n ≤ m + ts.length ∧
        call n nested eof (ts ++ rest) = (suffixes n nested m e eof rest).after es
  | _, _, _, rest, .tighter hl inner, hn, hb => by
    cases hl
    exact ⟨n, by omega, (primary_reads hnested).bind inner hb trivial _⟩
  | _, _, _, rest, .call callee hopen args hclose, hn, hb => by
    simp only [List.length_append, List.length_cons, List.length_nil] at hn hb
    obtain ⟨m, hm, heq⟩ := call_reads_suffixes hnested n eof _ callee (by omega) (by omega)
    obtain ⟨m, rfl⟩ : ∃ k, m = k + 1 := Nat.exists_eq_add_one.2 (by omega)
    refine ⟨m, by simp only [List.length_append, List.length_cons, List.length_nil]; omega, ?_⟩
    rw [List.append_assoc, List.cons_append, List.append_assoc, List.singleton_append, heq, suffixes,
      accept?_bind_of_mem (by simp [hopen])]
    dsimp only
    rw [if_pos hopen, bind_of_some (arguments_reads hnested args hclose (by omega) (by omega) eof _)]
    rw [Reply.after_after]
  | _, _, _, rest, .get object hdot hn', hn, hb => by
    simp only [List.length_append, List.length_cons, List.length_nil] at hn hb
    obtain ⟨m, hm, heq⟩ := call_reads_suffixes hnested n eof _ object (by omega) (by omega)
    obtain ⟨m, rfl⟩ : ∃ k, m = k + 1 := Nat.exists_eq_add_one.2 (by omega)
    refine ⟨m, by simp only [List.length_append, List.length_cons, List.length_nil]; omega, ?_⟩
    rw [List.append_assoc, List.cons_append, List.singleton_append, heq, suffixes,
      accept?_bind_of_mem (by simp [hdot])]
    dsimp only
    rw [if_neg (by simp [hdot]), expect_bind hn']

theorem call_reads (hnested : Reads nested b (Expression .assignment) Level.assignment.Stops)
    {n : Nat} (hn : b < n) : Reads (call n nested) (b + 1) (Expression .call) Level.call.Stops := by
  intro eof ts rest e es he hb hstops
  obtain ⟨m, hm, heq⟩ := call_reads_suffixes hnested n eof rest he (by omega) hb
  obtain ⟨m, rfl⟩ : ∃ k, m = k + 1 := Nat.exists_eq_add_one.2 (by omega)
  have hnext : (next eof rest).kind ∉ [.leftParen, .dot] := by
    intro hmem
    simp only [List.mem_cons, List.not_mem_nil, or_false] at hmem
    rcases hmem with h | h <;> exact Nat.lt_irrefl _ (hstops .call (by rw [h]; rfl))
  rw [heq, suffixes, accept?_bind_of_not_mem hnext]
  exact after_pure ..

theorem unary_reads {operand : Parser Expr}
    (hoperand : Reads operand b (Expression .call) Level.call.Stops) {eof : Token} :
    ∀ {n : Nat} {ts rest : List Token} {e : Expr} {es : List SyntaxError},
      Expression .unary ts e es → ts.length ≤ n → ts.length < b →
      Level.unary.Stops (next eof rest).kind →
      unary operand n eof (ts ++ rest) = ⟨some e, rest, es⟩
  | 0, _, _, _, _, h, hn, _, _ => absurd (List.length_pos_iff.2 h.ne_nil) (by omega)
  | n + 1, _, rest, _, _, .unary h inner, hn, hb, hstops => by
    simp only [List.length_cons] at hn hb
    rw [List.cons_append, unary, accept?_bind_of_mem (by simpa using h)]
    dsimp only
    rw [bind_of_some (unary_reads hoperand inner (by omega) (by omega) hstops), run_pure,
      Reply.after_mk, List.append_nil]
  | n + 1, ts, rest, _, _, .tighter hl inner, hn, hb, hstops => by
    have hcall := hoperand (by cases hl; exact inner) hb (hstops.tighter rfl)
    obtain ⟨t, us, rfl, ht⟩ := inner.head
    have hnot : t.kind ∉ [.bang, .minus] := by
      cases hl
      intro hmem
      simp only [List.mem_cons, List.not_mem_nil, or_false] at hmem
      rcases hmem with h | h <;> rw [h] at ht <;> exact absurd ht (by decide)
    rw [unary, accept?_bind_of_not_mem (by simpa using hnot)]
    exact hcall

/-- After the operands that a phrase joins, the loop over operators goes on. -/
theorem level_reads_joined {operand : Parser Expr} {tier : Tier}
    (hoperand : Reads operand b (Expression tier.operand) tier.operand.Stops) (n : Nat)
    (eof : Token) : ∀ {ts : List Token} (rest : List Token) {e : Expr} {es : List SyntaxError},
      Expression (.binary tier) ts e es → ts.length ≤ n → ts.length < b →
      tier.operand.Stops (next eof rest).kind →
      ∃ m, n ≤ m + ts.length ∧ level n tier.operators tier.node operand eof (ts ++ rest) =
        (joined operand tier.operators tier.node m e eof rest).after es
  | _, _, _, _, .tighter hl inner, hn, hb, hstops => by
    cases hl
    exact ⟨n, by omega, hoperand.bind inner hb hstops _⟩
  | _, rest, _, _, @Expression.binary _ _ _ _ us _ _ op left hop right, hn, hb, hstops => by
    simp only [List.length_append, List.length_cons] at hn hb
    obtain ⟨m, hm, heq⟩ := level_reads_joined hoperand n eof (op :: (us ++ rest)) left (by omega)
      (by omega) (Tier.stops_operand hop)
    obtain ⟨m, rfl⟩ : ∃ k, m = k + 1 := Nat.exists_eq_add_one.2 (by omega)
    refine ⟨m, by simp only [List.length_append, List.length_cons]; omega, ?_⟩
    rw [List.append_assoc, List.cons_append, heq, joined, accept?_bind_of_mem hop]
    dsimp only
    rw [hoperand.bind right (by omega) hstops, Reply.after_after]
termination_by ts => ts.length
decreasing_by simp only [List.length_append, List.length_cons]; omega

theorem level_reads (tier : Tier) {operand : Parser Expr}
    (hoperand : Reads operand b (Expression tier.operand) tier.operand.Stops) {n : Nat}
    (hn : b ≤ n) :
    Reads (level n tier.operators tier.node operand) b (Expression (.binary tier))
      (Level.binary tier).Stops := by
  intro eof ts rest e es he hb hstops
  obtain ⟨m, hm, heq⟩ := level_reads_joined hoperand n eof rest he (by omega) hb (hstops.tighter rfl)
  obtain ⟨m, rfl⟩ : ∃ k, m = k + 1 := Nat.exists_eq_add_one.2 (by omega)
  rw [heq, joined, accept?_bind_of_not_mem hstops.not_mem]
  exact after_pure ..

theorem operators_reads (hnested : Reads nested b (Expression .assignment) Level.assignment.Stops)
    {n : Nat} (hn : b < n) : Reads (operators n nested) (b + 1) (Expression (.binary .disjunction))
      (Level.binary .disjunction).Stops := by
  have hcall := call_reads hnested hn
  have hunary : Reads (unary (call n nested) n) (b + 1) (Expression .unary) Level.unary.Stops :=
    fun eof ts rest e es he hb hstops => unary_reads hcall he (by omega) hb hstops
  have hproduct := level_reads .product hunary (n := n) (by omega)
  have hsum := level_reads .sum hproduct (n := n) (by omega)
  have hcomparison := level_reads .comparison hsum (n := n) (by omega)
  have hequality := level_reads .equality hcomparison (n := n) (by omega)
  have hconjunction := level_reads .conjunction hequality (n := n) (by omega)
  exact level_reads .disjunction hconjunction (n := n) (by omega)

theorem stops_equal : (Level.binary .disjunction).Stops .equal := by
  intro l hl
  cases hl
  decide

theorem assignTo_of_other {e : Expr} (h : isTarget e = false) (equals : Token) (value : Expr)
    (eof : Token) (rest : List Token) :
    assignTo (m := Parser) equals value e eof rest = ⟨some e, rest, [⟨equals, .invalidTarget⟩]⟩ := by
  cases e with
  | name n => cases h
  | get o n => cases h
  | _ => rfl

theorem assignment_reads (hnested : Reads nested b (Expression .assignment) Level.assignment.Stops)
    {n : Nat} (hn : b < n) :
    Reads (assignment n nested) (b + 1) (Expression .assignment) Level.assignment.Stops := by
  have hoperators := operators_reads hnested hn
  intro eof ts rest e es he hb hstops
  cases he with
  | tighter hl inner =>
    cases hl
    have hnext : (next eof rest).kind ∉ [.equal] := by
      intro hmem
      exact Nat.lt_irrefl _ (hstops .assignment (by rw [List.mem_singleton.1 hmem]; rfl))
    rw [assignment, hoperators.bind inner hb (hstops.tighter rfl), accept?_bind_of_not_mem hnext]
    exact after_pure ..
  | assignName target heq value | assignProperty target heq value =>
    simp only [List.length_append, List.length_cons] at hb
    rw [assignment, List.append_assoc, List.cons_append,
      hoperators.bind_cons target (by omega) heq stops_equal, accept?_bind_of_mem (by simp [heq])]
    dsimp only
    rw [hnested.bind value (by omega) hstops, Reply.after_after]
    exact after_pure ..
  | assignOther target hother heq value =>
    simp only [List.length_append, List.length_cons] at hb
    rw [assignment, List.append_assoc, List.cons_append,
      hoperators.bind_cons target (by omega) heq stops_equal, accept?_bind_of_mem (by simp [heq])]
    dsimp only
    rw [hnested.bind value (by omega) hstops, assignTo_of_other hother, Reply.after_after,
      Reply.after_mk, List.append_assoc]

theorem expression_reads (n : Nat) :
    Reads (expression n) n (Expression .assignment) Level.assignment.Stops := by
  induction n with
  | zero => intro eof ts rest e es he hb; omega
  | succ n ih => exact assignment_reads ih (Nat.lt_succ_self n)

end

/-! ### Clauses -/

section

variable {n : Nat} {ts rest : List Token} {es : List SyntaxError} {eof : Token}

theorem terminated_reads {e : Expr} (h : Expression .assignment ts e es) (hn : ts.length < n)
    {semi : Token} (hsemi : semi.kind = .semicolon) (finish : Expectation) :
    terminated (m := Parser) n finish eof (ts ++ semi :: rest) = ⟨some e, rest, es⟩ := by
  rw [terminated, (expression_reads n).bind_cons h hn hsemi (stops_closer (by decide) _),
    expect_bind hsemi]
  exact after_pure ..

theorem expressionStmt_reads {e : Expr} (h : Expression .assignment ts e es) (hn : ts.length < n)
    {semi : Token} (hsemi : semi.kind = .semicolon) :
    expressionStmt (m := Parser) n eof (ts ++ semi :: rest) = ⟨some (.expression e), rest, es⟩ := by
  rw [expressionStmt, bind_of_some (terminated_reads h hn hsemi .expressionEnd)]
  exact after_pure ..

theorem unlessNext_reads {e : Option Expr} (h : Clause ts e es) (hn : ts.length < n)
    {t : Token} {kind : Token.Kind} (ht : t.kind = kind)
    (hkind : kind ∈ [.semicolon, .rightParen]) :
    unlessNext (m := Parser) n kind eof (ts ++ t :: rest) = ⟨some e, t :: rest, es⟩ := by
  have hstarts : kind ∉ Level.assignment.starts := by
    simp only [List.mem_cons, List.not_mem_nil, or_false] at hkind
    rcases hkind with rfl | rfl <;> decide
  have hstops : Level.assignment.Stops kind := by
    refine stops_closer ?_ _
    simp only [List.mem_cons, List.not_mem_nil, or_false] at hkind ⊢
    rcases hkind with rfl | rfl <;> simp
  rw [unlessNext, check_bind]
  cases h with
  | none =>
    rw [List.nil_append, next_cons, ht, beq_self_eq_true, if_pos rfl]
    rfl
  | some value =>
    obtain ⟨t', us, rfl, hne⟩ := value.head_ne hstarts
    rw [List.cons_append, next_cons, beq_eq_false_iff_ne.2 hne, if_neg (by decide),
      ← List.cons_append, (expression_reads n).bind_cons value hn ht hstops]
    exact after_pure ..

theorem varDecl_reads {s : Stmt} (h : Variable ts s es) (hn : ts.length ≤ n) :
    varDecl (m := Parser) n eof (ts ++ rest) = ⟨some s, rest, es⟩ := by
  cases h with
  | plain hname hsemi =>
    rw [varDecl, List.cons_append, expect_bind hname, List.cons_append,
      accept?_bind_of_not_mem (by simp [hsemi])]
    exact expect_bind hsemi ..
  | initialized hname heq value hsemi =>
    simp only [List.length_append, List.length_cons, List.length_nil] at hn
    have hvalue := map_of_some ((expression_reads n).cons value (by omega) hsemi
      (stops_closer (by decide) _) eof rest) some
    rw [varDecl, List.cons_append, expect_bind hname, List.cons_append,
      accept?_bind_of_mem (by simp [heq]), List.append_assoc, List.singleton_append]
    dsimp only
    rw [bind_of_some hvalue, expect_bind hsemi]
    exact after_pure ..

theorem forInitial_reads {i : Option Stmt} (h : Initial ts i es) (hn : ts.length ≤ n) :
    forInitial (m := Parser) n eof (ts ++ rest) = ⟨some i, rest, es⟩ := by
  cases h with
  | none hsemi =>
    rw [forInitial, List.cons_append, accept?_bind_of_mem (by simp [hsemi])]
    dsimp only
    rw [if_pos hsemi]
    rfl
  | varDecl hkw decl =>
    simp only [List.length_cons] at hn
    rw [forInitial, List.cons_append, accept?_bind_of_mem (by simp [hkw])]
    dsimp only
    rw [if_neg (by simp [hkw]), map_of_some (varDecl_reads decl (by omega))]
  | expression value hsemi =>
    simp only [List.length_append, List.length_cons, List.length_nil] at hn
    obtain ⟨t, us, rfl, ht⟩ := value.head
    have hnot : t.kind ∉ [.semicolon, .kwVar] := by
      intro hmem
      simp only [List.mem_cons, List.not_mem_nil, or_false] at hmem
      rcases hmem with h | h <;> rw [h] at ht <;> exact absurd ht (by decide)
    rw [forInitial, accept?_bind_of_not_mem (by simpa using hnot), List.append_assoc,
      List.singleton_append]
    exact map_of_some (expressionStmt_reads value (by omega) hsemi) some

theorem superclass_reads {c : Option Token} (h : Superclass ts c)
    (hnext : (next eof rest).kind ≠ .less) :
    superclass (m := Parser) eof (ts ++ rest) = ⟨some c, rest, []⟩ := by
  cases h with
  | none =>
    rw [superclass, List.nil_append, accept?_bind_of_not_mem (by simpa using hnext)]
    rfl
  | some hless hname =>
    rw [superclass, List.cons_append, accept?_bind_of_mem (by simp [hless])]
    exact map_of_some (expect_of_kind hname .superclassName eof rest) some

end

/-! ### Statements and declarations -/

section

variable {b n : Nat} {ts rest : List Token} {es : List SyntaxError} {eof : Token}

theorem untilBrace_reads {item : Parser α} {I : List Token → α → List SyntaxError → Prop}
    (hitem : Reads item b I (· ≠ .kwElse))
    (hhead : ∀ {ts a es}, I ts a es →
      ∃ t us, ts = t :: us ∧ t.kind ≠ .rightBrace ∧ t.kind ≠ .kwElse)
    {as : List α} (h : Sequence I ts as es) {rb : Token} (hrb : rb.kind = .rightBrace) :
    ∀ {n : Nat}, ts.length < n → ts.length < b →
      untilBrace item n eof (ts ++ rb :: rest) = ⟨some as, rb :: rest, es⟩ := by
  induction h with
  | nil =>
    intro n hn _
    obtain ⟨n, rfl⟩ : ∃ m, n = m + 1 := Nat.exists_eq_add_one.2 (by omega)
    rw [untilBrace, List.nil_append, check_bind, atEnd_bind, next_cons, hrb]
    rfl
  | @cons ts a es us as es' first others ih =>
    intro n hn hb
    obtain ⟨t, ts, rfl, hne, -⟩ := hhead first
    simp only [List.length_append, List.length_cons] at hn hb
    obtain ⟨n, rfl⟩ : ∃ m, n = m + 1 := Nat.exists_eq_add_one.2 (by omega)
    -- the next token is that of the next item or the brace, and neither is an `else`
    have hnext : (next eof (us ++ rb :: rest)).kind ≠ .kwElse := by
      cases others with
      | nil => simp [hrb]
      | cons first' _ =>
        obtain ⟨t', us', rfl, -, helse⟩ := hhead first'
        exact helse
    rw [untilBrace, check_bind, atEnd_bind, List.append_assoc, List.cons_append, next_cons,
      beq_eq_false_iff_ne.2 hne, if_neg (by simp), ← List.cons_append,
      hitem.bind first (by simpa using by omega) hnext, bind_of_some (ih (by omega) (by omega))]
    rw [Reply.after_after]
    exact after_pure ..

theorem block_reads {inner : Parser (Option Stmt)} (hinner : Reads inner b Recovered (· ≠ .kwElse))
    {ss : List Stmt} (h : Sequence Declaration ts ss es) {rb : Token} (hrb : rb.kind = .rightBrace)
    (hn : ts.length < n) (hb : ts.length < b) :
    block n inner eof (ts ++ rb :: rest) = ⟨some ss, rest, es⟩ := by
  rw [block, bind_of_some (untilBrace_reads hinner Recovered.head (Recovered.of_declarations h) hrb
    hn hb), expect_bind hrb, after_pure]
  simp

theorem function_reads {inner : Parser (Option Stmt)}
    (hinner : Reads inner b Recovered (· ≠ .kwElse)) (noun : FunctionNoun) {f : FunctionDecl}
    (h : Function ts f es) (hn : ts.length ≤ n) (hb : ts.length ≤ b) :
    function n inner noun eof (ts ++ rest) = ⟨some f, rest, es⟩ := by
  obtain ⟨hname, hlp, hparams, hrp, hlb, hbody, hrb⟩ := h
  simp only [List.length_append, List.length_cons, List.length_nil] at hn hb
  have hparam : Reads (expect .identifier .parameterName) b Parameter fun _ => True := by
    intro eof ts rest t es ht _ _
    cases ht with
    | name ht => exact expect_of_kind ht ..
  have hlist := listing_reads hparam (fun h => h.head) trivial trivial hparams hrp (n := n)
    (by omega) (by omega) eof
  simp only [function_eq, List.cons_append, List.append_assoc]
  rw [expect_bind hname, expect_bind hlp, bind_of_some (hlist _), expect_bind hrp, expect_bind hlb,
    bind_of_some (block_reads hinner hbody hrb (by omega) (by omega)), Reply.after_after]
  exact after_pure ..

theorem classDecl_reads {inner : Parser (Option Stmt)}
    (hinner : Reads inner b Recovered (· ≠ .kwElse)) {name lb rb : Token} {us : List Token}
    {parent : Option Token} {methods : List FunctionDecl} (hname : name.kind = .identifier)
    (hparent : Superclass ts parent) (hlb : lb.kind = .leftBrace)
    (hmethods : Sequence Function us methods es) (hrb : rb.kind = .rightBrace)
    (hn : us.length < n) (hb : us.length < b) :
    classDecl n inner eof (name :: (ts ++ lb :: (us ++ rb :: rest))) =
      ⟨some (.classDecl name parent methods), rest, es⟩ := by
  have hmethod : Reads (function n inner .method) (min n b) Function (· ≠ .kwElse) :=
    fun eof ts rest f es hf hlen _ => function_reads hinner .method hf (by omega) (by omega)
  rw [classDecl, expect_bind hname, bind_of_some (superclass_reads hparent (by simp [hlb])),
    expect_bind hlb, bind_of_some (untilBrace_reads hmethod (fun h => h.head_ne) hmethods hrb hn
      (by omega)), expect_bind hrb]
  exact after_pure ..

variable {nested : Parser Stmt} {inner : Parser (Option Stmt)}

/-- In front of a statement with fewer than `b` tokens, the parser reads it, unless an `else` follows
that belongs to it. -/
def ReadsStatements (p : Parser Stmt) (b : Nat) : Prop :=
  ∀ ⦃isOpen eof ts rest s es⦄, Statement isOpen ts s es → ts.length < b →
    (isOpen = true → (next eof rest).kind ≠ .kwElse) → p eof (ts ++ rest) = ⟨some s, rest, es⟩

theorem statementWith_expression {t : Token} (h : t.kind ∈ Level.assignment.starts) :
    statementWith n nested inner eof (t :: ts) = expressionStmt (m := Parser) n eof (t :: ts) := by
  rw [statementWith, peek_bind]
  simp only [Level.starts, atoms, List.mem_cons, List.not_mem_nil, or_false] at h
  rcases h with h | h | h | h | h | h | h | h | h | h | h <;> rw [h]

theorem statementWith_reads (hnested : ReadsStatements nested b)
    (hinner : Reads inner b Recovered (· ≠ .kwElse)) (hn : b < n) :
    ReadsStatements (statementWith n nested inner) (b + 1) := by
  intro isOpen eof ts rest s es h hb hnext
  cases h with
  | expression value hsemi =>
    simp only [List.length_append, List.length_cons, List.length_nil] at hb
    obtain ⟨t, us, rfl, ht⟩ := value.head
    rw [List.append_assoc, List.singleton_append, List.cons_append, statementWith_expression ht,
      ← List.cons_append]
    exact expressionStmt_reads value (by omega) hsemi
  | print hkw value hsemi =>
    simp only [List.length_append, List.length_cons, List.length_nil] at hb
    rw [statementWith, List.cons_append, peek_bind, hkw]
    dsimp only
    rw [advance_bind, List.append_assoc, List.singleton_append,
      bind_of_some (terminated_reads value (by omega) hsemi .printEnd)]
    exact after_pure ..
  | ret hkw value hsemi =>
    simp only [List.length_append, List.length_cons, List.length_nil] at hb
    rw [statementWith, List.cons_append, peek_bind, hkw]
    dsimp only
    rw [advance_bind, List.append_assoc, List.singleton_append, returnStmt,
      bind_of_some (unlessNext_reads value (by omega) hsemi (by simp)), expect_bind hsemi]
    exact after_pure ..
  | block hopen body hclose =>
    simp only [List.length_append, List.length_cons, List.length_nil] at hb
    rw [statementWith, List.cons_append, peek_bind, hopen]
    dsimp only
    rw [advance_bind, List.append_assoc, List.singleton_append,
      bind_of_some (block_reads hinner body hclose (by omega) (by omega))]
    exact after_pure ..
  | ifThen hkw hopen condition hclose yes =>
    simp only [List.length_append, List.length_cons] at hb
    rw [statementWith, List.cons_append, peek_bind, hkw]
    dsimp only
    rw [advance_bind, List.cons_append, ifStmt, expect_bind hopen, List.append_assoc, List.cons_append,
      (expression_reads n).bind_cons condition (by omega) hclose (stops_closer (by decide) _),
      expect_bind hclose, bind_of_some (hnested yes (by omega) fun _ => hnext rfl),
      accept?_bind_of_not_mem (by simpa using hnext rfl), Reply.after_after]
    exact after_pure ..
  | ifElse hkw hopen condition hclose yes helse no =>
    simp only [List.length_append, List.length_cons] at hb
    rw [statementWith, List.cons_append, peek_bind, hkw]
    dsimp only
    rw [advance_bind, List.cons_append, ifStmt, expect_bind hopen, List.append_assoc, List.cons_append,
      (expression_reads n).bind_cons condition (by omega) hclose (stops_closer (by decide) _),
      expect_bind hclose, List.append_assoc, List.cons_append,
      bind_of_some (hnested yes (by omega) (by simp)), accept?_bind_of_mem (by simp [helse])]
    dsimp only
    rw [bind_of_some (hnested no (by omega) hnext), Reply.after_after, Reply.after_after,
      List.append_assoc]
    exact after_pure ..
  | loop hkw hopen condition hclose body =>
    simp only [List.length_append, List.length_cons] at hb
    rw [statementWith, List.cons_append, peek_bind, hkw]
    dsimp only
    rw [advance_bind, List.cons_append, whileStmt, expect_bind hopen, List.append_assoc,
      List.cons_append,
      (expression_reads n).bind_cons condition (by omega) hclose (stops_closer (by decide) _),
      expect_bind hclose, bind_of_some (hnested body (by omega) hnext), Reply.after_after]
    exact after_pure ..
  | counting hkw hopen initial condition hsemi increment hclose body =>
    simp only [List.length_append, List.length_cons] at hb
    rw [statementWith, List.cons_append, peek_bind, hkw]
    dsimp only
    simp only [List.cons_append, List.append_assoc]
    rw [advance_bind, forStmt, expect_bind hopen, bind_of_some (forInitial_reads initial (by omega)),
      bind_of_some (unlessNext_reads condition (by omega) hsemi (by simp)), expect_bind hsemi,
      bind_of_some (unlessNext_reads increment (by omega) hclose (by simp)), expect_bind hclose,
      bind_of_some (hnested body (by omega) hnext), lowerFor_eq]
    simp only [Reply.after_after]
    exact after_pure ..

theorem declarationWith_statement {t : Token} (h : t.kind ∈ statementStarts) :
    declarationWith n nested inner eof (t :: ts) = nested eof (t :: ts) := by
  rw [declarationWith, peek_bind]
  simp only [statementStarts, Level.starts, atoms, List.mem_cons, List.not_mem_nil, or_false] at h
  rcases h with h | h | h | h | h | h | h | h | h | h | h | h | h | h | h | h | h <;> rw [h]

theorem declarationWith_reads (hnested : ReadsStatements nested (b + 1))
    (hinner : Reads inner b Recovered (· ≠ .kwElse)) (hn : b < n) :
    Reads (declarationWith n nested inner) (b + 1) Declaration (· ≠ .kwElse) := by
  intro eof ts rest s es h hb hnext
  cases h with
  | statement h =>
    obtain ⟨t, us, rfl, ht⟩ := h.head
    rw [List.cons_append, declarationWith_statement ht, ← List.cons_append]
    exact hnested h hb fun _ => hnext
  | varDecl hkw decl =>
    simp only [List.length_cons] at hb
    rw [declarationWith, List.cons_append, peek_bind, hkw]
    dsimp only
    rw [advance_bind, varDecl_reads decl (by omega)]
  | function hkw decl =>
    simp only [List.length_cons] at hb
    rw [declarationWith, List.cons_append, peek_bind, hkw]
    dsimp only
    rw [advance_bind, bind_of_some (function_reads hinner .function decl (by omega) (by omega))]
    exact after_pure ..
  | classDecl hkw hname hparent hopen methods hclose =>
    simp only [List.length_append, List.length_cons, List.length_nil] at hb
    rw [declarationWith, List.cons_append, peek_bind, hkw]
    dsimp only
    simp only [List.cons_append, List.append_assoc, List.nil_append]
    rw [advance_bind]
    exact classDecl_reads hinner hname hparent hopen methods hclose (by omega) (by omega)

theorem recovering_reads {p : Parser Stmt} (rounds : Nat) (hp : Reads p b Declaration (· ≠ .kwElse)) :
    Reads (recovering rounds p) b Recovered (· ≠ .kwElse) := by
  rintro eof ts rest _ es ⟨h⟩ hb hnext
  rw [recovering_eq, hp h hb hnext]

theorem statement_reads_and (n : Nat) :
    ReadsStatements (statement n) (n / 2) ∧
      Reads (declaration n) ((n - 1) / 2) Recovered (· ≠ .kwElse) := by
  induction n with
  | zero =>
    refine ⟨?_, ?_⟩
    · intro isOpen eof ts rest s es h hb
      omega
    · intro eof ts rest s es h hb
      omega
  | succ n ih =>
    refine ⟨?_, ?_⟩
    · intro isOpen eof ts rest s es h hb hnext
      rw [statement, later_eq]
      refine statementWith_reads (b := (n - 1) / 2) ?_ ih.2 (by omega) h (by omega) hnext
      exact fun _ _ _ _ _ _ h hb hnext => ih.1 h (by omega) hnext
    · rw [declaration, later_eq]
      refine recovering_reads n ?_
      intro eof ts rest s es h hb hnext
      refine declarationWith_reads (b := n / 2 - 1) ?_ ?_ (by omega) h (by omega) hnext
      · exact fun _ _ _ _ _ _ h hb hnext => ih.1 h (by omega) hnext
      · exact fun _ _ _ _ _ h hb hnext => ih.2 h (by omega) hnext

end

/-! ### Programs -/

/-- An answer after some statements and errors that came before. -/
def Reply.following (ss : List Stmt) (es : List SyntaxError) (r : Reply (List Stmt)) :
    Reply (List Stmt) :=
  ⟨r.result.map (ss ++ ·), r.rest, es ++ r.errors⟩

theorem Reply.following_following (ss ss' : List Stmt) (es es' : List SyntaxError)
    (r : Reply (List Stmt)) :
    (r.following ss' es').following ss es = r.following (ss ++ ss') (es ++ es') := by
  rcases r with ⟨_ | _, rest, errors⟩ <;> simp [Reply.following]

theorem program_of_item {item : Parser (Option Stmt)} {eof : Token} {ts rest : List Token}
    {r : Option Stmt} {es : List SyntaxError} (hts : ts ≠ []) (h : item eof ts = ⟨some r, rest, es⟩)
    (n : Nat) :
    program item (n + 1) eof ts = (program item n eof rest).following r.toList es := by
  rw [program, atEnd_bind, if_neg (by simp [hts]), bind_of_some h, run_bind]
  rcases program item n eof rest with ⟨_ | ss, rest', errors⟩
  · rfl
  · simp [Reply.following, run_pure]

/-- After the declarations that a phrase is, the loop over declarations goes on with the rest. -/
theorem program_reads {n : Nat} {eof : Token} {rest ts : List Token} {ss : List Stmt}
    {es : List SyntaxError} (h : Sequence Declaration ts ss es)
    (hnext : (next eof rest).kind ≠ .kwElse) : ∀ {m : Nat}, ts.length < m →
      2 * ts.length + 2 < n → ∃ k, m ≤ k + ts.length ∧
        program (m := Parser) (declaration n) m eof (ts ++ rest) =
          (program (m := Parser) (declaration n) k eof rest).following ss es := by
  induction h with
  | nil =>
    intro m _ _
    refine ⟨m, by omega, ?_⟩
    rcases hr : program (m := Parser) (declaration n) m eof rest with ⟨_ | ss, rest', errors⟩ <;>
      simp [Reply.following, hr]
  | @cons ts s es us ss es' first others ih =>
    intro m hm hn
    have hpos := List.length_pos_iff.2 first.ne_nil
    simp only [List.length_append] at hm hn
    obtain ⟨m, rfl⟩ : ∃ k, m = k + 1 := Nat.exists_eq_add_one.2 (by omega)
    obtain ⟨k, hk, heq⟩ := ih (m := m) (by omega) (by omega)
    refine ⟨k, by simp only [List.length_append]; omega, ?_⟩
    have hnext' : (next eof (us ++ rest)).kind ≠ .kwElse := by
      cases others with
      | nil => exact hnext
      | cons first' _ =>
        obtain ⟨t, us', rfl, -, helse⟩ := (Recovered.mk first').head
        exact helse
    have hfirst := (statement_reads_and n).2 (.mk first) (by omega) hnext'
    rw [List.append_assoc, program_of_item (by simp [first.ne_nil]) hfirst, heq,
      Reply.following_following]
    rfl

end LoxLang.Parse
