import LoxLang.Proofs.Grammar

/-!
# Parsers step by step

How a parser runs when it begins with something that is known to succeed, and the parsers for lists
with commas and for counting loops in the form in which the grammar has them.
-/

namespace LoxLang.Parse

open Grammar

/-! ### Running parsers in sequence -/

/-- An answer after some errors that were reported before. -/
def Reply.after (errors : List SyntaxError) (r : Reply α) : Reply α :=
  { r with errors := errors ++ r.errors }

@[simp] theorem Reply.after_after (es es' : List SyntaxError) (r : Reply α) :
    (r.after es').after es = r.after (es ++ es') := by
  simp [Reply.after]

@[simp] theorem Reply.after_mk (es es' : List SyntaxError) (a : Option α) (rest : List Token) :
    (⟨a, rest, es'⟩ : Reply α).after es = ⟨a, rest, es ++ es'⟩ := rfl

theorem after_pure (a : α) (es : List SyntaxError) (eof : Token) (ts : List Token) :
    ((pure a : Parser α) eof ts).after es = ⟨some a, ts, es⟩ := by
  rw [run_pure, Reply.after_mk, List.append_nil]

theorem bind_of_some {p : Parser α} {eof : Token} {ts rest : List Token} {a : α}
    {es : List SyntaxError} (h : p eof ts = ⟨some a, rest, es⟩) (f : α → Parser β) :
    (p >>= f) eof ts = (f a eof rest).after es := by
  rw [run_bind, h]
  rfl

theorem bind_of_none {p : Parser α} {eof : Token} {ts rest : List Token} {es : List SyntaxError}
    (h : p eof ts = ⟨none, rest, es⟩) (f : α → Parser β) : (p >>= f) eof ts = ⟨none, rest, es⟩ := by
  rw [run_bind, h]

theorem map_of_some {p : Parser α} {eof : Token} {ts rest : List Token} {a : α}
    {es : List SyntaxError} (h : p eof ts = ⟨some a, rest, es⟩) (f : α → β) :
    (f <$> p) eof ts = ⟨some (f a), rest, es⟩ := by
  show (p >>= fun a => pure (f a)) eof ts = _
  rw [bind_of_some h, run_pure, Reply.after_mk, List.append_nil]

/-! ### Single steps -/

@[simp] theorem later_eq (p : Unit → Parser α) : later p = p () := rfl

theorem check_eq (kind : Token.Kind) (eof : Token) (ts : List Token) :
    check (m := Parser) kind eof ts = ⟨some ((next eof ts).kind == kind), ts, []⟩ := rfl

theorem exhausted_eq (eof : Token) (ts : List Token) : (exhausted : Parser α) eof ts = ⟨none, ts, []⟩ := rfl

theorem missing_eq (expected : Expectation) (eof : Token) (ts : List Token) :
    (missing expected : Parser α) eof ts = ⟨none, ts, [⟨next eof ts, .missing expected⟩]⟩ := rfl

theorem report_eq (error : SyntaxError) (eof : Token) (ts : List Token) :
    report (m := Parser) error eof ts = ⟨some (), ts, [error]⟩ := rfl

theorem reportHere_eq (problem : SyntaxProblem) (eof : Token) (ts : List Token) :
    reportHere (m := Parser) problem eof ts = ⟨some (), ts, [⟨next eof ts, problem⟩]⟩ := rfl

theorem recovering_eq (n : Nat) (p : Parser α) (eof : Token) (ts : List Token) :
    recovering n p eof ts =
      match p eof ts with
      | ⟨some a, rest, errors⟩ => ⟨some (some a), rest, errors⟩
      | ⟨none, rest, errors⟩ => ⟨some none, resume ts rest, errors⟩ := rfl

theorem accept?_of_mem {kinds : List Token.Kind} {eof : Token} {ts : List Token}
    (h : (next eof ts).kind ∈ kinds) :
    accept? (m := Parser) kinds eof ts = ⟨some (some (next eof ts)), ts.tail, []⟩ := by
  induction kinds with
  | nil => cases h
  | cons kind kinds ih =>
    rw [accept?, bind_of_some (check_eq kind eof ts)]
    by_cases hkind : (next eof ts).kind = kind
    · rw [beq_iff_eq.2 hkind]
      rfl
    · rw [beq_eq_false_iff_ne.2 hkind, if_neg Bool.false_ne_true,
        ih ((List.mem_cons.1 h).resolve_left hkind)]
      rfl

theorem accept?_of_not_mem {kinds : List Token.Kind} {eof : Token} {ts : List Token}
    (h : (next eof ts).kind ∉ kinds) : accept? (m := Parser) kinds eof ts = ⟨some none, ts, []⟩ := by
  induction kinds with
  | nil => rfl
  | cons kind kinds ih =>
    rw [List.mem_cons, not_or] at h
    rw [accept?, bind_of_some (check_eq kind eof ts), beq_eq_false_iff_ne.2 h.1,
      if_neg Bool.false_ne_true, ih h.2]
    rfl

theorem expect_of_eq {kind : Token.Kind} {eof : Token} {ts : List Token} (h : (next eof ts).kind = kind)
    (expected : Expectation) :
    expect (m := Parser) kind expected eof ts = ⟨some (next eof ts), ts.tail, []⟩ := by
  rw [expect, bind_of_some (check_eq kind eof ts), beq_iff_eq.2 h]
  rfl

theorem expect_of_ne {kind : Token.Kind} {eof : Token} {ts : List Token} (h : (next eof ts).kind ≠ kind)
    (expected : Expectation) :
    expect (m := Parser) kind expected eof ts = ⟨none, ts, [⟨next eof ts, .missing expected⟩]⟩ := by
  rw [expect, bind_of_some (check_eq kind eof ts), beq_eq_false_iff_ne.2 h]
  rfl

@[simp] theorem next_cons (eof t : Token) (ts : List Token) : next eof (t :: ts) = t := rfl

theorem expect_of_kind {t : Token} {kind : Token.Kind} (h : t.kind = kind) (expected : Expectation)
    (eof : Token) (ts : List Token) :
    expect (m := Parser) kind expected eof (t :: ts) = ⟨some t, ts, []⟩ := by
  have hnext : (next eof (t :: ts)).kind = kind := h
  exact expect_of_eq hnext expected

theorem expect_bind {t : Token} {kind : Token.Kind} (h : t.kind = kind) (expected : Expectation)
    (f : Token → Parser β) (eof : Token) (ts : List Token) :
    (expect kind expected >>= f) eof (t :: ts) = f t eof ts :=
  bind_of_some (expect_of_kind h expected eof ts) f

theorem accept?_bind_of_mem {t : Token} {kinds : List Token.Kind} (h : t.kind ∈ kinds)
    (f : Option Token → Parser β) (eof : Token) (ts : List Token) :
    (accept? kinds >>= f) eof (t :: ts) = f (some t) eof ts := by
  have hnext : (next eof (t :: ts)).kind ∈ kinds := h
  exact bind_of_some (accept?_of_mem hnext) f

theorem accept?_bind_of_not_mem {kinds : List Token.Kind} {eof : Token} {ts : List Token}
    (h : (next eof ts).kind ∉ kinds) (f : Option Token → Parser β) :
    (accept? kinds >>= f) eof ts = f none eof ts :=
  bind_of_some (accept?_of_not_mem h) f

theorem check_bind (kind : Token.Kind) (f : Bool → Parser β) (eof : Token) (ts : List Token) :
    (check kind >>= f) eof ts = f ((next eof ts).kind == kind) eof ts := rfl

theorem atEnd_bind (f : Bool → Parser β) (eof : Token) (ts : List Token) :
    (atEnd >>= f) eof ts = f ts.isEmpty eof ts := rfl

theorem peek_bind (f : Token → Parser β) (eof t : Token) (ts : List Token) :
    (peek >>= f) eof (t :: ts) = f t eof (t :: ts) := rfl

theorem advance_bind (f : Token → Parser β) (eof t : Token) (ts : List Token) :
    (advance >>= f) eof (t :: ts) = f t eof ts := rfl

/-! ### Lists and loops as the grammar has them -/

/-- Declarations as a parser answers with them that goes on after an error. -/
inductive Recovered : List Token → Option Stmt → List SyntaxError → Prop where
  | mk (h : Declaration ts s es) : Recovered ts (some s) es

theorem Recovered.ne_nil {ts : List Token} {r : Option Stmt} {es : List SyntaxError} :
    Recovered ts r es → ts ≠ []
  | .mk h => h.ne_nil

theorem Recovered.head {ts : List Token} {r : Option Stmt} {es : List SyntaxError} :
    Recovered ts r es → ∃ t us, ts = t :: us ∧ t.kind ≠ .rightBrace ∧ t.kind ≠ .kwElse
  | .mk h => by
    obtain ⟨t, us, rfl, ht⟩ := h.head
    refine ⟨t, us, rfl, ?_, ?_⟩ <;> intro hk <;> rw [hk] at ht <;> exact absurd ht (by decide)

theorem Recovered.of_declarations {ts : List Token} {ss : List Stmt} {es : List SyntaxError}
    (h : Sequence Declaration ts ss es) : Sequence Recovered ts (ss.map some) es := by
  induction h with
  | nil => exact .nil
  | cons first _ ih => exact .cons (.mk first) ih

theorem Recovered.declarations {ts : List Token} {rs : List (Option Stmt)} {es : List SyntaxError}
    (h : Sequence Recovered ts rs es) : Sequence Declaration ts (rs.filterMap id) es := by
  induction h with
  | nil => exact .nil
  | cons first _ ih =>
    cases first with
    | mk first => exact .cons first ih

/-- A list with commas, unless the token that closes it comes first. -/
def listing (close : Token.Kind) (items : Parser (List α)) : Parser (List α) := do
  if ← check close then return []
  items

theorem arguments_eq (n : Nat) (nested : Parser Expr) :
    arguments n nested = (do
      let args ← listing .rightParen (commaSeparated nested .tooManyArguments n 0)
      let paren ← expect .rightParen .argumentsClose
      return (paren, args)) := by
  funext eof ts
  simp only [arguments, listing, run_bind, check_eq]
  cases (next eof ts).kind == .rightParen <;> rfl

theorem function_eq (n : Nat) (inner : Parser (Option Stmt)) (noun : FunctionNoun) :
    function n inner noun = (do
      let name ← expect .identifier (.functionName noun)
      let _ ← expect .leftParen (.parametersOpen noun)
      let params ← listing .rightParen
        (commaSeparated (expect .identifier .parameterName) .tooManyParameters n 0)
      let _ ← expect .rightParen .parametersClose
      let _ ← expect .leftBrace (.functionBody noun)
      let body ← block n inner
      return ⟨name, params, body⟩) := by
  rw [function, listing]
  congr
  funext name
  congr
  funext _ eof ts
  simp only [run_bind, check_eq]
  cases (next eof ts).kind == .rightParen <;> rfl

theorem lowerFor_eq (initial : Option Stmt) (condition increment : Option Expr) (body : Stmt) :
    lowerFor initial condition increment body = counting initial condition increment body := by
  cases initial <;> cases increment <;> rfl

end LoxLang.Parse
