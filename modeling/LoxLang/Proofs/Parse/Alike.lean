import LoxLang.Proofs.Parse.Basic
import LoxLang.Proofs.Tree.Alike

/-!
# Parsing tokens alike

The parser looks at the kinds of tokens, and at the values of literals, and at nothing else of them, also
where it reports an error and passes over tokens after it. Hence it makes trees alike of tokens alike, and
has the same complaints at tokens alike. Every token stands in its tree in a part that its kind allows.

Main statement: `parse_alike`.
-/

namespace LoxLang

open List (Forall₂)

namespace Grammar

/-- A relation between tokens that the grammar cannot tell apart. -/
structure Indistinct (R : Token → Token → Prop) : Prop where
  kind : ∀ {t t'}, R t t' → t'.kind = t.kind
  literal : ∀ {t t'}, R t t' → t'.literal = t.literal

/-- Tokens are related, and of a kind for their part. -/
def Placed (R : Token → Token → Prop) (part : Part) (t t' : Token) : Prop :=
  R t t' ∧ t.kind ∈ part.kinds

/-- Complaints are the same, at tokens related. -/
def Complaint (R : Token → Token → Prop) (e e' : SyntaxError) : Prop :=
  R e.token e'.token ∧ e'.problem = e.problem

theorem counting_alike {S : Part → Token → Token → Prop} {i i' : Option Stmt} {c c' n n' : Option Expr}
    {s s' : Stmt} (hi : Option.Rel (Stmt.Alike S) i i') (hc : Option.Rel (Expr.Alike S) c c')
    (hn : Option.Rel (Expr.Alike S) n n') (hs : s.Alike S s') :
    (counting i c n s).Alike S (counting i' c' n' s') := by
  have hround : (n.elim s fun e => .block [s, .expression e]).Alike S
      (n'.elim s' fun e => .block [s', .expression e]) := by
    cases hn with
    | none => exact hs
    | some hn => exact .block (.cons hs (.cons (.expression hn) .nil))
  have hcond : (c.getD (.literal (.bool true))).Alike S (c'.getD (.literal (.bool true))) := by
    cases hc with
    | none => exact .literal
    | some hc => exact hc
  cases hi with
  | none => exact .loop hcond hround
  | some hi => exact .block (.cons hi (.cons (.loop hcond hround) .nil))

end Grammar

open Grammar

namespace Parse

/-- Answers alike: results that are related, if there are any, and tokens left and complaints that are. -/
structure Reply.Alike (R : Token → Token → Prop) (A : α → α → Prop) (r r' : Reply α) : Prop where
  result : Option.Rel A r.result r'.result
  rest : Forall₂ R r.rest r'.rest
  errors : Forall₂ (Complaint R) r.errors r'.errors

/-- Given tokens that are related, the second parser answers as the first one does. -/
def Mirrors (R : Token → Token → Prop) (A : α → α → Prop) (p p' : Parser α) : Prop :=
  ∀ eof eof' ts ts', R eof eof' → Forall₂ R ts ts' → (p eof ts).Alike R A (p' eof' ts')

variable {R : Token → Token → Prop} {A : α → α → Prop} {B : β → β → Prop}

/-! ### Single steps -/

theorem Mirrors.bind {p p' : Parser α} {f f' : α → Parser β} (h : Mirrors R A p p')
    (hf : ∀ {a a'}, A a a' → Mirrors R B (f a) (f' a')) : Mirrors R B (p >>= f) (p' >>= f') := by
  intro eof eof' ts ts' heof hts
  rw [run_bind, run_bind]
  have hp := h _ _ _ _ heof hts
  rcases hr : p eof ts with ⟨a, rest, errors⟩
  rcases hr' : p' eof' ts' with ⟨a', rest', errors'⟩
  rw [hr, hr'] at hp
  obtain ⟨ha, hrest, herrors⟩ := hp
  cases ha with
  | none => exact ⟨.none, hrest, herrors⟩
  | some ha =>
    have hnext := hf ha _ _ _ _ heof hrest
    exact ⟨hnext.result, hnext.rest, List.rel_append herrors hnext.errors⟩

/-- Going on after a result that is the same. -/
theorem Mirrors.bind_eq {p p' : Parser α} {f f' : α → Parser β} (h : Mirrors R Eq p p')
    (hf : ∀ a, Mirrors R B (f a) (f' a)) : Mirrors R B (p >>= f) (p' >>= f') := by
  refine h.bind ?_
  rintro a _ rfl
  exact hf a

theorem mirrors_pure {a a' : α} (h : A a a') : Mirrors R A (pure a) (pure a') :=
  fun _ _ _ _ _ hts => ⟨.some h, hts, .nil⟩

theorem Mirrors.map {p p' : Parser α} {f f' : α → β} (h : Mirrors R A p p')
    (hf : ∀ {a a'}, A a a' → B (f a) (f' a')) : Mirrors R B (f <$> p) (f' <$> p') :=
  h.bind fun ha => mirrors_pure (hf ha)

theorem Mirrors.mono {A' : α → α → Prop} {p p' : Parser α} (h : Mirrors R A p p')
    (hA : ∀ {a a'}, A a a' → A' a a') : Mirrors R A' p p' := by
  intro eof eof' ts ts' heof hts
  obtain ⟨ha, hrest, herrors⟩ := h _ _ _ _ heof hts
  refine ⟨?_, hrest, herrors⟩
  generalize (p eof ts).result = a, (p' eof' ts').result = a' at ha
  cases ha with
  | none => exact .none
  | some ha => exact .some (hA ha)

theorem next_alike {eof eof' : Token} {ts ts' : List Token} (heof : R eof eof') (hts : Forall₂ R ts ts') :
    R (next eof ts) (next eof' ts') := by
  cases hts with
  | nil => exact heof
  | cons h _ => exact h

theorem tail_alike {ts ts' : List Token} (hts : Forall₂ R ts ts') : Forall₂ R ts.tail ts'.tail := by
  cases hts with
  | nil => exact .nil
  | cons _ h => exact h

theorem mirrors_peek : Mirrors R R peek peek :=
  fun _ _ _ _ heof hts => ⟨.some (next_alike heof hts), hts, .nil⟩

theorem mirrors_atEnd : Mirrors R Eq atEnd atEnd := by
  intro eof eof' ts ts' _ hts
  cases hts with
  | nil => exact ⟨.some rfl, .nil, .nil⟩
  | cons h hts => exact ⟨.some rfl, .cons h hts, .nil⟩

theorem mirrors_advance : Mirrors R R advance advance :=
  fun _ _ _ _ heof hts => ⟨.some (next_alike heof hts), tail_alike hts, .nil⟩

theorem mirrors_report {t t' : Token} (h : R t t') (problem : SyntaxProblem) :
    Mirrors R Eq (report ⟨t, problem⟩) (report ⟨t', problem⟩) :=
  fun _ _ _ _ _ hts => ⟨.some rfl, hts, .cons ⟨h, rfl⟩ .nil⟩

theorem mirrors_reportHere (problem : SyntaxProblem) :
    Mirrors R Eq (reportHere problem) (reportHere problem) :=
  fun _ _ _ _ heof hts => ⟨.some rfl, hts, .cons ⟨next_alike heof hts, rfl⟩ .nil⟩

theorem mirrors_missing (expected : Expectation) : Mirrors R A (missing expected) (missing expected) :=
  fun _ _ _ _ heof hts => ⟨.none, hts, .cons ⟨next_alike heof hts, rfl⟩ .nil⟩

theorem mirrors_exhausted : Mirrors R A exhausted exhausted :=
  fun _ _ _ _ _ hts => ⟨.none, hts, .nil⟩

/-- What joins operands of one level makes trees alike of trees alike. -/
def Joins (R : Token → Token → Prop) (operators : List Token.Kind) (join : Expr → Token → Expr → Expr) :
    Prop :=
  ∀ {l l' t t' r r'}, l.Alike (Placed R) l' → R t t' → t.kind ∈ operators → r.Alike (Placed R) r' →
    (join l t r).Alike (Placed R) (join l' t' r')

theorem joins_binary {operators : List Token.Kind} (h : operators ⊆ Part.binary.kinds) :
    Joins R operators .binary :=
  fun hl ht hk hr => .binary hl ⟨ht, h hk⟩ hr

theorem joins_logical {operators : List Token.Kind} (h : operators ⊆ Part.logical.kinds) :
    Joins R operators .logical :=
  fun hl ht hk hr => .logical hl ⟨ht, h hk⟩ hr

section Kinds

variable (hR : Indistinct R)

include hR

theorem mirrors_check (kind : Token.Kind) : Mirrors R Eq (check kind) (check kind) :=
  fun _ _ _ _ heof hts => ⟨.some (by rw [hR.kind (next_alike heof hts)]), hts, .nil⟩

theorem mirrors_accept? (kinds : List Token.Kind) :
    Mirrors R (Option.Rel fun t t' => R t t' ∧ t.kind ∈ kinds) (accept? kinds) (accept? kinds) := by
  intro eof eof' ts ts' heof hts
  have hnext := next_alike heof hts
  by_cases h : (next eof ts).kind ∈ kinds
  · rw [accept?_of_mem h, accept?_of_mem (hR.kind hnext ▸ h)]
    exact ⟨.some (.some ⟨hnext, h⟩), tail_alike hts, .nil⟩
  · rw [accept?_of_not_mem h, accept?_of_not_mem (hR.kind hnext ▸ h)]
    exact ⟨.some .none, hts, .nil⟩

theorem mirrors_expect (kind : Token.Kind) (expected : Expectation) :
    Mirrors R (fun t t' => R t t' ∧ t.kind = kind) (expect kind expected) (expect kind expected) := by
  intro eof eof' ts ts' heof hts
  have hnext := next_alike heof hts
  by_cases h : (next eof ts).kind = kind
  · rw [expect_of_eq h, expect_of_eq ((hR.kind hnext).trans h)]
    exact ⟨.some ⟨hnext, h⟩, tail_alike hts, .nil⟩
  · rw [expect_of_ne h, expect_of_ne (hR.kind hnext ▸ h)]
    exact ⟨.none, hts, .cons ⟨hnext, rfl⟩ .nil⟩

/-- A name. -/
theorem mirrors_name (expected : Expectation) :
    Mirrors R (Placed R .name) (expect .identifier expected) (expect .identifier expected) :=
  (mirrors_expect hR .identifier expected).mono fun h => ⟨h.1, by simp [Part.kinds, h.2]⟩

/-! ### Expressions -/

/-- An item and, after a comma, the rest. -/
theorem mirrors_item {item item' : Parser α} {rest rest' : Parser (List α)} (h : Mirrors R A item item')
    (hrest : Mirrors R (Forall₂ A) rest rest') :
    Mirrors R (Forall₂ A)
      (do
        let first ← item
        match ← accept? [.comma] with
        | some _ => return first :: (← rest)
        | none => return [first])
      (do
        let first ← item'
        match ← accept? [.comma] with
        | some _ => return first :: (← rest')
        | none => return [first]) := by
  refine h.bind fun ha => (mirrors_accept? hR _).bind fun hcomma => ?_
  cases hcomma with
  | none => exact mirrors_pure (.cons ha .nil)
  | some _ => exact hrest.bind fun has => mirrors_pure (.cons ha has)

theorem mirrors_commaSeparated {item item' : Parser α} (h : Mirrors R A item item') (limit : SyntaxProblem)
    (n count : Nat) :
    Mirrors R (Forall₂ A) (commaSeparated item limit n count) (commaSeparated item' limit n count) := by
  induction n generalizing count with
  | zero => exact mirrors_exhausted
  | succ n ih =>
    have hfirst := mirrors_item hR h (ih (count + 1))
    rw [commaSeparated, commaSeparated]
    split
    · exact (mirrors_reportHere _).bind_eq fun _ => hfirst
    · exact hfirst

theorem mirrors_listing {items items' : Parser (List α)} (close : Token.Kind)
    (h : Mirrors R (Forall₂ A) items items') :
    Mirrors R (Forall₂ A) (listing close items) (listing close items') := by
  refine (mirrors_check hR close).bind_eq fun none => ?_
  cases none with
  | true => exact mirrors_pure .nil
  | false => exact h

theorem mirrors_joined {operand operand' : Parser Expr}
    (h : Mirrors R (Expr.Alike (Placed R)) operand operand') {operators : List Token.Kind}
    {join : Expr → Token → Expr → Expr} (hjoin : Joins R operators join) (n : Nat) {left left' : Expr}
    (hleft : left.Alike (Placed R) left') :
    Mirrors R (Expr.Alike (Placed R)) (joined operand operators join n left)
      (joined operand' operators join n left') := by
  induction n generalizing left left' with
  | zero => exact mirrors_exhausted
  | succ n ih =>
    refine (mirrors_accept? hR _).bind fun hop => ?_
    cases hop with
    | none => exact mirrors_pure hleft
    | some hop => exact h.bind fun hright => ih (hjoin hleft hop.1 hop.2 hright)

theorem mirrors_level {operand operand' : Parser Expr}
    (h : Mirrors R (Expr.Alike (Placed R)) operand operand') {operators : List Token.Kind}
    {join : Expr → Token → Expr → Expr} (hjoin : Joins R operators join) (n : Nat) :
    Mirrors R (Expr.Alike (Placed R)) (level n operators join operand) (level n operators join operand') :=
  h.bind fun hleft => mirrors_joined hR h hjoin n hleft

section Nested

variable {nested nested' : Parser Expr} (h : Mirrors R (Expr.Alike (Placed R)) nested nested') (n : Nat)

include h

theorem mirrors_primary : Mirrors R (Expr.Alike (Placed R)) (primary nested) (primary nested') := by
  refine mirrors_peek.bind fun {t t'} ht => ?_
  have hread {e e' : Expr} (he : e.Alike (Placed R) e') :
      Mirrors R (Expr.Alike (Placed R)) (advance >>= fun _ => pure e) (advance >>= fun _ => pure e') :=
    mirrors_advance.bind fun _ => mirrors_pure he
  rw [hR.kind ht]
  split
  · exact hread .literal
  · exact hread .literal
  · exact hread .literal
  · rw [hR.literal ht]
    exact hread .literal
  · rw [hR.literal ht]
    exact hread .literal
  · next hk => exact hread (.this ⟨ht, by simp [Part.kinds, hk]⟩)
  · next hk =>
    exact mirrors_advance.bind fun _ => (mirrors_expect hR _ _).bind fun _ =>
      (mirrors_name hR _).bind fun hm => mirrors_pure (.super ⟨ht, by simp [Part.kinds, hk]⟩ hm)
  · next hk => exact hread (.name ⟨ht, by simp [Part.kinds, hk]⟩)
  · exact mirrors_advance.bind fun _ => h.bind fun he => (mirrors_expect hR _ _).bind fun _ =>
      mirrors_pure (.grouping he)
  · exact mirrors_missing _

theorem mirrors_arguments :
    Mirrors R (fun r r' => Placed R .paren r.1 r'.1 ∧ Forall₂ (Expr.Alike (Placed R)) r.2 r'.2)
      (arguments n nested) (arguments n nested') := by
  rw [arguments_eq, arguments_eq]
  exact (mirrors_listing hR _ (mirrors_commaSeparated hR h _ n 0)).bind fun has =>
    (mirrors_expect hR _ _).bind fun hp =>
      mirrors_pure ⟨⟨hp.1, by simp [Part.kinds, hp.2]⟩, has⟩

theorem mirrors_suffixes (k : Nat) {e e' : Expr} (he : e.Alike (Placed R) e') :
    Mirrors R (Expr.Alike (Placed R)) (suffixes n nested k e) (suffixes n nested' k e') := by
  induction k generalizing e e' with
  | zero => exact mirrors_exhausted
  | succ k ih =>
    refine (mirrors_accept? hR _).bind fun ht => ?_
    cases ht with
    | none => exact mirrors_pure he
    | some ht =>
      dsimp only
      rw [hR.kind ht.1]
      split
      · exact (mirrors_arguments hR h n).bind fun hr => ih (.call he hr.1 hr.2)
      · exact (mirrors_name hR _).bind fun hn => ih (.get he hn)

theorem mirrors_call : Mirrors R (Expr.Alike (Placed R)) (call n nested) (call n nested') :=
  (mirrors_primary hR h).bind fun he => mirrors_suffixes hR h n n he

theorem mirrors_unary (k : Nat) :
    Mirrors R (Expr.Alike (Placed R)) (unary nested k) (unary nested' k) := by
  induction k with
  | zero => exact mirrors_exhausted
  | succ k ih =>
    refine (mirrors_accept? hR _).bind fun hop => ?_
    cases hop with
    | none => exact h
    | some hop => exact ih.bind fun he => mirrors_pure (.unary hop he)

theorem mirrors_operators :
    Mirrors R (Expr.Alike (Placed R)) (operators n nested) (operators n nested') :=
  mirrors_level hR (mirrors_level hR (mirrors_level hR (mirrors_level hR (mirrors_level hR (mirrors_level hR
    (mirrors_unary hR (mirrors_call hR h n) n)
    (joins_binary (by decide)) n) (joins_binary (by decide)) n) (joins_binary (by decide)) n)
    (joins_binary (by decide)) n) (joins_logical (by decide)) n) (joins_logical (by decide)) n

omit hR h in
theorem mirrors_assignTo {equals equals' : Token} (hequals : R equals equals') {value value' : Expr}
    (hvalue : value.Alike (Placed R) value') {target target' : Expr}
    (htarget : target.Alike (Placed R) target') :
    Mirrors R (Expr.Alike (Placed R)) (assignTo equals value target) (assignTo equals' value' target') := by
  cases htarget with
  | name hn => exact mirrors_pure (.assign hn hvalue)
  | get object hn => exact mirrors_pure (.set object hn hvalue)
  | _ =>
    exact (mirrors_report hequals _).bind_eq fun _ => mirrors_pure (by constructor <;> assumption)

theorem mirrors_assignment :
    Mirrors R (Expr.Alike (Placed R)) (assignment n nested) (assignment n nested') := by
  refine (mirrors_operators hR h n).bind fun htarget => (mirrors_accept? hR _).bind fun hequals => ?_
  cases hequals with
  | none => exact mirrors_pure htarget
  | some hequals => exact h.bind fun hvalue => mirrors_assignTo hequals.1 hvalue htarget

end Nested

theorem mirrors_expression (n : Nat) : Mirrors R (Expr.Alike (Placed R)) (expression n) (expression n) := by
  induction n with
  | zero => exact mirrors_exhausted
  | succ n ih => exact mirrors_assignment hR ih (n + 1)

/-! ### Statements -/

theorem mirrors_terminated (n : Nat) (finish : Expectation) :
    Mirrors R (Expr.Alike (Placed R)) (terminated n finish) (terminated n finish) :=
  (mirrors_expression hR n).bind fun he => (mirrors_expect hR _ _).bind fun _ => mirrors_pure he

theorem mirrors_unlessNext (n : Nat) (kind : Token.Kind) :
    Mirrors R (Option.Rel (Expr.Alike (Placed R))) (unlessNext n kind) (unlessNext n kind) := by
  refine (mirrors_check hR kind).bind_eq fun none => ?_
  cases none with
  | true => exact mirrors_pure .none
  | false => exact (mirrors_expression hR n).bind fun he => mirrors_pure (.some he)

theorem mirrors_varDecl (n : Nat) : Mirrors R (Stmt.Alike (Placed R)) (varDecl n) (varDecl n) := by
  refine (mirrors_name hR _).bind fun {name name'} hn => (mirrors_accept? hR _).bind fun hequals => ?_
  have hend {i i' : Option Expr} (hi : Option.Rel (Expr.Alike (Placed R)) i i') :
      Mirrors R (Stmt.Alike (Placed R)) (expect .semicolon .variableEnd >>= fun _ => pure (.var name i))
        (expect .semicolon .variableEnd >>= fun _ => pure (.var name' i')) :=
    (mirrors_expect hR _ _).bind fun _ => mirrors_pure (.var hn hi)
  cases hequals with
  | none => exact hend .none
  | some _ => exact ((mirrors_expression hR n).map .some).bind hend

theorem mirrors_expressionStmt (n : Nat) :
    Mirrors R (Stmt.Alike (Placed R)) (expressionStmt n) (expressionStmt n) :=
  (mirrors_terminated hR n _).bind fun he => mirrors_pure (.expression he)

/-! ### Going on after a failure -/

theorem toBoundary_alike {last last' : Token} (hlast : R last last') {ts ts' : List Token}
    (hts : Forall₂ R ts ts') : Forall₂ R (toBoundary last ts) (toBoundary last' ts') := by
  induction hts generalizing last last' with
  | nil => exact .nil
  | cons h hts ih =>
    rw [toBoundary, toBoundary, hR.kind hlast, hR.kind h]
    split
    · exact .cons h hts
    · exact ih h

theorem resume_alike {start start' rest rest' : List Token} (hstart : Forall₂ R start start')
    (hrest : Forall₂ R rest rest') : Forall₂ R (resume start rest) (resume start' rest') := by
  have hdrop := List.forall₂_drop (start.length - rest.length - 1) hstart
  rw [resume, resume, ← hstart.length_eq, ← hrest.length_eq]
  generalize start.drop (start.length - rest.length - 1) = us,
    start'.drop (start.length - rest.length - 1) = us' at hdrop
  cases hdrop with
  | nil => exact .nil
  | cons hlast hafter => exact toBoundary_alike hR hlast hafter

theorem mirrors_recovering {p p' : Parser α} (h : Mirrors R A p p') (rounds : Nat) :
    Mirrors R (Option.Rel A) (recovering rounds p) (recovering rounds p') := by
  intro eof eof' ts ts' heof hts
  have hp := h _ _ _ _ heof hts
  rw [recovering_eq, recovering_eq]
  rcases hr : p eof ts with ⟨a, rest, errors⟩
  rcases hr' : p' eof' ts' with ⟨a', rest', errors'⟩
  rw [hr, hr'] at hp
  obtain ⟨ha, hrest, herrors⟩ := hp
  cases ha with
  | none => exact ⟨.some .none, resume_alike hR hts hrest, herrors⟩
  | some ha => exact ⟨.some (.some ha), hrest, herrors⟩

theorem mirrors_untilBrace {item item' : Parser α} (h : Mirrors R A item item') (n : Nat) :
    Mirrors R (Forall₂ A) (untilBrace item n) (untilBrace item' n) := by
  induction n with
  | zero => exact mirrors_exhausted
  | succ n ih =>
    refine (mirrors_check hR _).bind_eq fun brace => mirrors_atEnd.bind_eq fun ended => ?_
    split
    · exact mirrors_pure .nil
    · exact h.bind fun ha => ih.bind fun has => mirrors_pure (.cons ha has)

/-! ### What holds other statements -/

section Inner

variable {nested nested' : Parser Stmt} {inner inner' : Parser (Option Stmt)}
  (hnested : Mirrors R (Stmt.Alike (Placed R)) nested nested')
  (hinner : Mirrors R (Option.Rel (Stmt.Alike (Placed R))) inner inner') (n : Nat)

section

include hinner

theorem mirrors_block : Mirrors R (Forall₂ (Stmt.Alike (Placed R))) (block n inner) (block n inner') :=
  (mirrors_untilBrace hR hinner n).bind fun hfound => (mirrors_expect hR _ _).bind fun _ =>
    mirrors_pure (List.rel_filterMap (fun _ _ h => h) hfound)

theorem mirrors_function (noun : FunctionNoun) :
    Mirrors R (FunctionDecl.Alike (Placed R)) (function n inner noun) (function n inner' noun) := by
  rw [function_eq, function_eq]
  exact (mirrors_name hR _).bind fun hname => (mirrors_expect hR _ _).bind fun _ =>
    (mirrors_listing hR _ (mirrors_commaSeparated hR (mirrors_name hR _) _ n 0)).bind fun hparams =>
      (mirrors_expect hR _ _).bind fun _ => (mirrors_expect hR _ _).bind fun _ =>
        (mirrors_block hR hinner n).bind fun hbody => mirrors_pure (.mk hname hparams hbody)

omit hinner in
theorem mirrors_superclass : Mirrors R (Option.Rel (Placed R .name)) superclass superclass := by
  refine (mirrors_accept? hR _).bind fun hless => ?_
  cases hless with
  | none => exact mirrors_pure .none
  | some _ => exact (mirrors_name hR _).map .some

theorem mirrors_classDecl : Mirrors R (Stmt.Alike (Placed R)) (classDecl n inner) (classDecl n inner') :=
  (mirrors_name hR _).bind fun hname => (mirrors_superclass hR).bind fun hsuper =>
    (mirrors_expect hR _ _).bind fun _ =>
      (mirrors_untilBrace hR (mirrors_function hR hinner n .method) n).bind fun hmethods =>
        (mirrors_expect hR _ _).bind fun _ => mirrors_pure (.classDecl hname hsuper hmethods)

end

theorem mirrors_forInitial :
    Mirrors R (Option.Rel (Stmt.Alike (Placed R))) (forInitial n) (forInitial n) := by
  refine (mirrors_accept? hR _).bind fun ht => ?_
  cases ht with
  | none => exact (mirrors_expressionStmt hR n).map .some
  | some ht =>
    dsimp only
    rw [hR.kind ht.1]
    split
    · exact mirrors_pure .none
    · exact (mirrors_varDecl hR n).map .some

include hnested

theorem mirrors_forStmt : Mirrors R (Stmt.Alike (Placed R)) (forStmt n nested) (forStmt n nested') :=
  (mirrors_expect hR _ _).bind fun _ => (mirrors_forInitial hR n).bind fun hi =>
    (mirrors_unlessNext hR n _).bind fun hc => (mirrors_expect hR _ _).bind fun _ =>
      (mirrors_unlessNext hR n _).bind fun hk => (mirrors_expect hR _ _).bind fun _ =>
        hnested.bind fun hb => mirrors_pure (by
          rw [lowerFor_eq, lowerFor_eq]
          exact counting_alike hi hc hk hb)

theorem mirrors_ifStmt : Mirrors R (Stmt.Alike (Placed R)) (ifStmt n nested) (ifStmt n nested') := by
  refine (mirrors_expect hR _ _).bind fun _ => (mirrors_expression hR n).bind fun hc =>
    (mirrors_expect hR _ _).bind fun _ => hnested.bind fun hyes =>
      (mirrors_accept? hR _).bind fun hother => ?_
  cases hother with
  | none => exact mirrors_pure (.ifThen hc hyes)
  | some _ => exact hnested.bind fun hno => mirrors_pure (.ifElse hc hyes hno)

theorem mirrors_whileStmt :
    Mirrors R (Stmt.Alike (Placed R)) (whileStmt n nested) (whileStmt n nested') :=
  (mirrors_expect hR _ _).bind fun _ => (mirrors_expression hR n).bind fun hc =>
    (mirrors_expect hR _ _).bind fun _ => hnested.bind fun hb => mirrors_pure (.loop hc hb)

omit hnested in
theorem mirrors_returnStmt {t t' : Token} (ht : Placed R .ret t t') :
    Mirrors R (Stmt.Alike (Placed R)) (returnStmt n t) (returnStmt n t') :=
  (mirrors_unlessNext hR n _).bind fun he => (mirrors_expect hR _ _).bind fun _ => mirrors_pure (.ret ht he)

include hinner

theorem mirrors_statementWith :
    Mirrors R (Stmt.Alike (Placed R)) (statementWith n nested inner) (statementWith n nested' inner') := by
  refine mirrors_peek.bind fun {t t'} ht => ?_
  rw [hR.kind ht]
  split
  · exact mirrors_advance.bind fun _ => mirrors_forStmt hR hnested n
  · exact mirrors_advance.bind fun _ => mirrors_ifStmt hR hnested n
  · exact mirrors_advance.bind fun _ => (mirrors_terminated hR n _).bind fun he => mirrors_pure (.print he)
  · next hk => exact mirrors_advance.bind fun _ => mirrors_returnStmt hR n ⟨ht, by simp [Part.kinds, hk]⟩
  · exact mirrors_advance.bind fun _ => mirrors_whileStmt hR hnested n
  · exact mirrors_advance.bind fun _ => (mirrors_block hR hinner n).bind fun hb => mirrors_pure (.block hb)
  · exact mirrors_expressionStmt hR n

theorem mirrors_declarationWith :
    Mirrors R (Stmt.Alike (Placed R)) (declarationWith n nested inner)
      (declarationWith n nested' inner') := by
  refine mirrors_peek.bind fun {t t'} ht => ?_
  rw [hR.kind ht]
  split
  · exact mirrors_advance.bind fun _ => mirrors_classDecl hR hinner n
  · exact mirrors_advance.bind fun _ => (mirrors_function hR hinner n _).bind fun hf =>
      mirrors_pure (.function hf)
  · exact mirrors_advance.bind fun _ => mirrors_varDecl hR n
  · exact hnested

end Inner

theorem mirrors_statement_and (n : Nat) :
    Mirrors R (Stmt.Alike (Placed R)) (statement n) (statement n) ∧
      Mirrors R (Option.Rel (Stmt.Alike (Placed R))) (declaration n) (declaration n) := by
  induction n with
  | zero => exact ⟨mirrors_exhausted, mirrors_exhausted⟩
  | succ n ih =>
    exact ⟨mirrors_statementWith hR ih.1 ih.2 n,
      mirrors_recovering hR (mirrors_declarationWith hR ih.1 ih.2 n) n⟩

omit hR in
theorem mirrors_program {item item' : Parser (Option Stmt)}
    (h : Mirrors R (Option.Rel (Stmt.Alike (Placed R))) item item') (n : Nat) :
    Mirrors R (Forall₂ (Stmt.Alike (Placed R))) (program item n) (program item' n) := by
  induction n with
  | zero => exact mirrors_exhausted
  | succ n ih =>
    refine mirrors_atEnd.bind_eq fun ended => ?_
    cases ended with
    | true => exact mirrors_pure .nil
    | false =>
      refine h.bind fun hfirst => ih.bind fun hrest => mirrors_pure ?_
      cases hfirst with
      | none => exact hrest
      | some hfirst => exact .cons hfirst hrest

theorem body_alike {ts ts' : List Token} (hts : Forall₂ R ts ts') : Forall₂ R (body ts) (body ts') := by
  induction hts with
  | nil => exact .nil
  | cons h _ ih =>
    simp only [body, List.takeWhile_cons, Token.isEof, hR.kind h] at ih ⊢
    split
    · exact .cons h ih
    · exact .nil

theorem find_alike {ts ts' : List Token} (hts : Forall₂ R ts ts') :
    Option.Rel R (ts.find? (·.isEof)) (ts'.find? (·.isEof)) := by
  induction hts with
  | nil => exact .none
  | cons h _ ih =>
    simp only [List.find?_cons, Token.isEof, hR.kind h] at ih ⊢
    split
    · exact .some h
    · exact ih

/-- Tokens alike end alike, if there is an end among them. -/
theorem ending_alike {ts ts' : List Token} (hts : Forall₂ R ts ts') (h : ∃ t ∈ ts, t.isEof = true) :
    R (ending ts) (ending ts') := by
  have hfind := find_alike hR hts
  rw [ending, ending]
  generalize hr : ts.find? (·.isEof) = r, ts'.find? (·.isEof) = r' at hfind
  cases hfind with
  | none =>
    obtain ⟨t, ht, hend⟩ := h
    exact absurd hend (List.find?_eq_none.1 hr t ht)
  | some h => exact h

end Kinds

end Parse

/-- Tokens alike, which end alike, are read as statements alike, with the same complaints at tokens alike. -/
theorem parse_alike {R : Token → Token → Prop} (hR : Indistinct R) {ts ts' : List Token}
    (hts : Forall₂ R ts ts') (hend : R (Parse.ending ts) (Parse.ending ts')) :
    Forall₂ (Stmt.Alike (Placed R)) (parse ts).statements (parse ts').statements ∧
      Forall₂ (Complaint R) (parse ts).errors (parse ts').errors := by
  have hn : Parse.allowance ts' = Parse.allowance ts := by
    rw [Parse.allowance, Parse.allowance, hts.length_eq]
  obtain ⟨hresult, -, herrors⟩ :=
    Parse.mirrors_program (Parse.mirrors_statement_and hR (Parse.allowance ts)).2 (Parse.allowance ts)
      _ _ _ _ hend (Parse.body_alike hR hts)
  simp only [parse, hn]
  refine ⟨?_, herrors⟩
  generalize (Parse.program (m := Parse.Parser) _ _ _ (Parse.body ts)).result = r,
    (Parse.program (m := Parse.Parser) _ _ _ (Parse.body ts')).result = r' at hresult
  cases hresult with
  | none => exact .nil
  | some h => exact h

end LoxLang
