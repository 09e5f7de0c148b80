import LoxLang.Proofs.Parse.Basic

/-!
# The literals of trees

Parsing puts no other values into a tree than nil, truth values and the literals of tokens, whether or not it
finds errors.

Main statement: `parse_literals`.
-/

namespace LoxLang

variable {V : Value → Prop}

/-- Expressions whose literals, but for nil and truth values, have a property. -/
inductive Expr.Literals (V : Value → Prop) : Expr → Prop where
  | nil : Literals V (.literal .nil)
  | bool : Literals V (.literal (.bool b))
  | token (h : V v) : Literals V (.literal v)
  | grouping (inner : Literals V e) : Literals V (.grouping e)
  | name : Literals V (.name t)
  | assign (value : Literals V e) : Literals V (.assign t e)
  | unary (operand : Literals V e) : Literals V (.unary t e)
  | binary (left : Literals V l) (right : Literals V r) : Literals V (.binary l t r)
  | logical (left : Literals V l) (right : Literals V r) : Literals V (.logical l t r)
  | call (callee : Literals V f) (args : ∀ a ∈ as, Literals V a) : Literals V (.call f t as)
  | get (object : Literals V e) : Literals V (.get e t)
  | set (object : Literals V e) (value : Literals V v) : Literals V (.set e t v)
  | this : Literals V (.this t)
  | super : Literals V (.super t m)

/-- The same of an expression that may be missing. -/
def Expr.OptionLiterals (V : Value → Prop) (i : Option Expr) : Prop := ∀ e ∈ i, e.Literals V

mutual

/-- Statements whose literals, but for nil and truth values, have a property. -/
inductive Stmt.Literals (V : Value → Prop) : Stmt → Prop where
  | expression (value : e.Literals V) : Stmt.Literals V (.expression e)
  | print (value : e.Literals V) : Stmt.Literals V (.print e)
  | var (initial : Expr.OptionLiterals V i) : Stmt.Literals V (.var t i)
  | block (body : ∀ s ∈ ss, Stmt.Literals V s) : Stmt.Literals V (.block ss)
  | ifThen (condition : c.Literals V) (yes : Stmt.Literals V s) : Stmt.Literals V (.ifThen c s)
  | ifElse (condition : c.Literals V) (yes : Stmt.Literals V s) (no : Stmt.Literals V u) :
      Stmt.Literals V (.ifElse c s u)
  | loop (condition : c.Literals V) (body : Stmt.Literals V s) : Stmt.Literals V (.loop c s)
  | function (declaration : FunctionDecl.Literals V f) : Stmt.Literals V (.function f)
  | ret (value : Expr.OptionLiterals V i) : Stmt.Literals V (.ret t i)
  | classDecl (methods : ∀ f ∈ fs, FunctionDecl.Literals V f) : Stmt.Literals V (.classDecl t p fs)

/-- Functions whose literals, but for nil and truth values, have a property. -/
inductive FunctionDecl.Literals (V : Value → Prop) : FunctionDecl → Prop where
  | mk (body : ∀ s ∈ ss, Stmt.Literals V s) : FunctionDecl.Literals V ⟨t, ps, ss⟩

end

namespace Parse

/-- Given tokens whose literals have a property, a parser leaves only such tokens, and whatever it answers
with reaches a goal. -/
structure Yields (V : Value → Prop) (goal : α → Prop) (p : Parser α) : Prop where
  rest : ∀ {eof ts}, V eof.literal → (∀ t ∈ ts, V t.literal) → ∀ t ∈ (p eof ts).rest, V t.literal
  result : ∀ {eof ts}, V eof.literal → (∀ t ∈ ts, V t.literal) → ∀ a ∈ (p eof ts).result, goal a

section Yields

variable {goal : α → Prop} {goal' : β → Prop}

theorem Yields.bind {p : Parser α} {f : α → Parser β} (hp : Yields V goal p)
    (hf : ∀ a, goal a → Yields V goal' (f a)) : Yields V goal' (p >>= f) := by
  constructor <;> intro eof ts heof hts <;> rw [run_bind] <;>
    have hrest := hp.rest heof hts <;> have hresult := hp.result heof hts
  · rcases hr : p eof ts with ⟨_ | a, rest, errors⟩ <;> rw [hr] at hrest hresult
    · exact hrest
    · exact (hf a (hresult a rfl)).rest heof hrest
  · rcases hr : p eof ts with ⟨_ | a, rest, errors⟩ <;> rw [hr] at hrest hresult
    · simp
    · exact (hf a (hresult a rfl)).result heof hrest

/-- What leaves the tokens alone, or reads one, leaves only tokens that were there. -/
theorem Yields.of_reply {p : Parser α}
    (h : ∀ eof ts, V eof.literal → (∀ t ∈ ts, V t.literal) →
      ((p eof ts).rest = ts ∨ (p eof ts).rest = ts.tail) ∧ ∀ a ∈ (p eof ts).result, goal a) :
    Yields V goal p := by
  constructor <;> intro eof ts heof hts
  · rcases (h eof ts heof hts).1 with heq | heq <;> rw [heq]
    · exact hts
    · exact fun t ht => hts t (List.mem_of_mem_tail ht)
  · exact (h eof ts heof hts).2

theorem yields_pure {a : α} (h : goal a) : Yields V goal (pure a) :=
  .of_reply fun _ _ _ _ => ⟨.inl rfl, fun _ hb => Option.some.inj hb ▸ h⟩

theorem Yields.map {p : Parser α} {f : α → β} (h : Yields V goal p) (hf : ∀ a, goal a → goal' (f a)) :
    Yields V goal' (f <$> p) :=
  h.bind fun a ha => yields_pure (hf a ha)

theorem next_literal {eof : Token} {ts : List Token} (heof : V eof.literal) (hts : ∀ t ∈ ts, V t.literal) :
    V (next eof ts).literal := by
  cases ts with
  | nil => exact heof
  | cons t ts => exact hts t List.mem_cons_self

theorem yields_peek : Yields V (fun t => V t.literal) peek :=
  .of_reply fun _ _ heof hts => ⟨.inl rfl, fun _ ht => Option.some.inj ht ▸ next_literal heof hts⟩

theorem yields_check (kind : Token.Kind) : Yields V (fun _ => True) (check kind) :=
  .of_reply fun _ _ _ _ => ⟨.inl rfl, fun _ _ => trivial⟩

theorem yields_atEnd : Yields V (fun _ => True) atEnd :=
  .of_reply fun _ _ _ _ => ⟨.inl rfl, fun _ _ => trivial⟩

theorem yields_advance : Yields V (fun _ => True) advance :=
  .of_reply fun _ _ _ _ => ⟨.inr rfl, fun _ _ => trivial⟩

theorem yields_report (error : SyntaxError) : Yields V (fun _ => True) (report error) :=
  .of_reply fun _ _ _ _ => ⟨.inl rfl, fun _ _ => trivial⟩

theorem yields_reportHere (problem : SyntaxProblem) : Yields V (fun _ => True) (reportHere problem) :=
  .of_reply fun _ _ _ _ => ⟨.inl rfl, fun _ _ => trivial⟩

theorem yields_missing (expected : Expectation) : Yields V goal (missing expected) :=
  .of_reply fun _ _ _ _ => ⟨.inl rfl, by simp [missing_eq]⟩

theorem yields_exhausted : Yields V goal exhausted :=
  .of_reply fun eof ts _ _ => ⟨.inl rfl, by simp [exhausted_eq eof ts]⟩

theorem yields_accept? (kinds : List Token.Kind) : Yields V (fun _ => True) (accept? kinds) := by
  refine .of_reply fun eof ts _ _ => ⟨?_, fun _ _ => trivial⟩
  by_cases h : (next eof ts).kind ∈ kinds
  · exact .inr (by rw [accept?_of_mem h])
  · exact .inl (by rw [accept?_of_not_mem h])

theorem yields_expect (kind : Token.Kind) (expected : Expectation) :
    Yields V (fun _ => True) (expect kind expected) := by
  refine .of_reply fun eof ts _ _ => ⟨?_, fun _ _ => trivial⟩
  by_cases h : (next eof ts).kind = kind
  · exact .inr (by rw [expect_of_eq h])
  · exact .inl (by rw [expect_of_ne h])

/-! ### Expressions -/

/-- An item and, after a comma, the rest. -/
theorem yields_item {item : Parser α} {rest : Parser (List α)} (h : Yields V goal item)
    (hrest : Yields V (fun as => ∀ a ∈ as, goal a) rest) :
    Yields V (fun as => ∀ a ∈ as, goal a) (do
      let first ← item
      match ← accept? [.comma] with
      | some _ => return first :: (← rest)
      | none => return [first]) := by
  refine h.bind fun a ha => (yields_accept? _).bind fun comma _ => ?_
  cases comma with
  | none => exact yields_pure (by simpa using ha)
  | some _ => exact hrest.bind fun as has => yields_pure (by simpa using ⟨ha, has⟩)

theorem yields_commaSeparated {item : Parser α} (h : Yields V goal item) (limit : SyntaxProblem)
    (n count : Nat) : Yields V (fun as => ∀ a ∈ as, goal a) (commaSeparated item limit n count) := by
  induction n generalizing count with
  | zero => exact yields_exhausted
  | succ n ih =>
    have hfirst := yields_item h (ih (count + 1))
    rw [commaSeparated]
    split
    · exact (yields_reportHere _).bind fun _ _ => hfirst
    · exact hfirst

theorem yields_joined {operand : Parser Expr} (h : Yields V (Expr.Literals V) operand)
    (operators : List Token.Kind) {join : Expr → Token → Expr → Expr}
    (hjoin : ∀ {l t r}, l.Literals V → r.Literals V → (join l t r).Literals V) (n : Nat)
    {left : Expr} (hleft : left.Literals V) :
    Yields V (Expr.Literals V) (joined operand operators join n left) := by
  induction n generalizing left with
  | zero => exact yields_exhausted
  | succ n ih =>
    refine (yields_accept? _).bind fun op _ => ?_
    cases op with
    | none => exact yields_pure hleft
    | some op => exact h.bind fun right hright => ih (hjoin hleft hright)

theorem yields_level {operand : Parser Expr} (h : Yields V (Expr.Literals V) operand)
    (operators : List Token.Kind) {join : Expr → Token → Expr → Expr}
    (hjoin : ∀ {l t r}, l.Literals V → r.Literals V → (join l t r).Literals V) (n : Nat) :
    Yields V (Expr.Literals V) (level n operators join operand) :=
  h.bind fun _ hleft => yields_joined h operators hjoin n hleft

section Nested

variable {nested : Parser Expr} (h : Yields V (Expr.Literals V) nested) (n : Nat)

include h

theorem yields_primary : Yields V (Expr.Literals V) (primary nested) := by
  refine yields_peek.bind fun t ht => ?_
  have hread {e : Expr} (he : e.Literals V) : Yields V (Expr.Literals V) (advance >>= fun _ => pure e) :=
    yields_advance.bind fun _ _ => yields_pure he
  split
  · exact hread .bool
  · exact hread .bool
  · exact hread .nil
  · exact hread (.token ht)
  · exact hread (.token ht)
  · exact hread .this
  · exact yields_advance.bind fun _ _ => (yields_expect _ _).bind fun _ _ =>
      (yields_expect _ _).bind fun _ _ => yields_pure .super
  · exact hread .name
  · exact yields_advance.bind fun _ _ => h.bind fun _ he => (yields_expect _ _).bind fun _ _ =>
      yields_pure (.grouping he)
  · exact yields_missing _

theorem yields_arguments : Yields V (fun r => ∀ a ∈ r.2, a.Literals V) (arguments n nested) := by
  have hitems := yields_commaSeparated h .tooManyArguments n 0
  refine (yields_check _).bind fun none _ => ?_
  cases none with
  | true => exact (yields_expect _ _).bind fun _ _ => yields_pure (by simp)
  | false => exact hitems.bind fun as has => (yields_expect _ _).bind fun _ _ => yields_pure has

theorem yields_suffixes (k : Nat) {e : Expr} (he : e.Literals V) :
    Yields V (Expr.Literals V) (suffixes n nested k e) := by
  induction k generalizing e with
  | zero => exact yields_exhausted
  | succ k ih =>
    refine (yields_accept? _).bind fun t _ => ?_
    cases t with
    | none => exact yields_pure he
    | some t =>
      dsimp only
      split
      · exact (yields_arguments h n).bind fun r hr => ih (.call he hr)
      · exact (yields_expect _ _).bind fun _ _ => ih (.get he)

theorem yields_call : Yields V (Expr.Literals V) (call n nested) :=
  (yields_primary h).bind fun _ he => yields_suffixes h n n he

theorem yields_unary (k : Nat) : Yields V (Expr.Literals V) (unary nested k) := by
  induction k with
  | zero => exact yields_exhausted
  | succ k ih =>
    refine (yields_accept? _).bind fun op _ => ?_
    cases op with
    | none => exact h
    | some op => exact ih.bind fun _ he => yields_pure (.unary he)

theorem yields_operators : Yields V (Expr.Literals V) (operators n nested) :=
  yields_level (yields_level (yields_level (yields_level (yields_level (yields_level
    (yields_unary (yields_call h n) n) _ .binary n) _ .binary n) _ .binary n) _ .binary n) _ .logical n)
    _ .logical n

theorem yields_assignment : Yields V (Expr.Literals V) (assignment n nested) := by
  refine (yields_operators h n).bind fun target htarget => (yields_accept? _).bind fun equals _ => ?_
  cases equals with
  | none => exact yields_pure htarget
  | some equals =>
    refine h.bind fun value hvalue => ?_
    cases htarget with
    | name => exact yields_pure (.assign hvalue)
    | get object => exact yields_pure (.set object hvalue)
    | _ => exact (yields_report _).bind fun _ _ => yields_pure (by constructor <;> assumption)

end Nested

theorem yields_expression (n : Nat) : Yields V (Expr.Literals V) (expression n) := by
  induction n with
  | zero => exact yields_exhausted
  | succ n ih => exact yields_assignment ih (n + 1)

/-! ### Statements -/

theorem yields_terminated (n : Nat) (finish : Expectation) :
    Yields V (Expr.Literals V) (terminated n finish) :=
  (yields_expression n).bind fun _ he => (yields_expect _ _).bind fun _ _ => yields_pure he

theorem yields_unlessNext (n : Nat) (kind : Token.Kind) :
    Yields V (Expr.OptionLiterals V) (unlessNext n kind) := by
  refine (yields_check kind).bind fun none _ => ?_
  cases none with
  | true => exact yields_pure (by simp [Expr.OptionLiterals])
  | false =>
    exact (yields_expression n).bind fun e he => yields_pure (by simpa [Expr.OptionLiterals] using he)

theorem yields_varDecl (n : Nat) : Yields V (Stmt.Literals V) (varDecl n) := by
  refine (yields_expect _ _).bind fun _ _ => (yields_accept? _).bind fun equals _ => ?_
  have hend {name : Token} {i : Option Expr} (hi : Expr.OptionLiterals V i) :
      Yields V (Stmt.Literals V) (expect .semicolon .variableEnd >>= fun _ => pure (.var name i)) :=
    (yields_expect _ _).bind fun _ _ => yields_pure (.var hi)
  cases equals with
  | none => exact hend (by simp [Expr.OptionLiterals])
  | some _ =>
    have hinitial : Yields V (Expr.OptionLiterals V) (some <$> expression n) :=
      (yields_expression n).map fun e he => by simpa [Expr.OptionLiterals] using he
    exact hinitial.bind fun i hi => hend hi

theorem yields_expressionStmt (n : Nat) : Yields V (Stmt.Literals V) (expressionStmt n) :=
  (yields_terminated n _).bind fun _ he => yields_pure (.expression he)

theorem toBoundary_subset (last : Token) (ts : List Token) : toBoundary last ts ⊆ ts := by
  induction ts generalizing last with
  | nil => exact fun _ h => h
  | cons t ts ih =>
    rw [toBoundary]
    split
    · exact fun _ h => h
    · exact fun _ h => List.mem_cons_of_mem _ (ih t h)

theorem resume_subset (start rest : List Token) : resume start rest ⊆ start := by
  rw [resume]
  split
  · simp
  · next last after h =>
    intro t ht
    refine List.mem_of_mem_drop (i := start.length - rest.length - 1) ?_
    rw [h]
    exact List.mem_cons_of_mem _ (toBoundary_subset last after ht)

theorem yields_recovering {p : Parser α} (h : Yields V goal p) (rounds : Nat) :
    Yields V (fun r => ∀ a ∈ r, goal a) (recovering rounds p) := by
  constructor <;> intro eof ts heof hts <;> rw [recovering_eq] <;>
    have hrest := h.rest heof hts <;> have hresult := h.result heof hts
  · split
    · next hr =>
      rw [hr] at hrest
      exact hrest
    · exact fun t ht => hts t (resume_subset _ _ ht)
  · split
    · next a rest errors hr =>
      rw [hr] at hresult
      rintro _ ⟨⟩
      exact hresult
    · rintro _ ⟨⟩
      simp

theorem yields_untilBrace {item : Parser α} (h : Yields V goal item) (n : Nat) :
    Yields V (fun as => ∀ a ∈ as, goal a) (untilBrace item n) := by
  induction n with
  | zero => exact yields_exhausted
  | succ n ih =>
    refine (yields_check _).bind fun brace _ => yields_atEnd.bind fun ended _ => ?_
    split
    · exact yields_pure (by simp)
    · exact h.bind fun a ha => ih.bind fun as has => yields_pure (by simpa using ⟨ha, has⟩)

section Inner

variable {nested : Parser Stmt} {inner : Parser (Option Stmt)} (hnested : Yields V (Stmt.Literals V) nested)
  (hinner : Yields V (fun r => ∀ s ∈ r, s.Literals V) inner) (n : Nat)

section

include hinner

theorem yields_block : Yields V (fun ss => ∀ s ∈ ss, s.Literals V) (block n inner) := by
  refine (yields_untilBrace hinner n).bind fun found hfound => (yields_expect _ _).bind fun _ _ =>
    yields_pure fun s hs => ?_
  obtain ⟨r, hr, heq⟩ := List.mem_filterMap.1 hs
  exact hfound r hr s heq

theorem yields_function (noun : FunctionNoun) :
    Yields V (FunctionDecl.Literals V) (function n inner noun) := by
  refine (yields_expect _ _).bind fun name _ => (yields_expect _ _).bind fun _ _ =>
    (yields_check _).bind fun none _ => ?_
  have hrest {params : List Token} : Yields V (FunctionDecl.Literals V) (do
      let _ ← expect .rightParen .parametersClose
      let _ ← expect .leftBrace (.functionBody noun)
      let body ← block n inner
      return ⟨name, params, body⟩) :=
    (yields_expect _ _).bind fun _ _ => (yields_expect _ _).bind fun _ _ =>
      (yields_block hinner n).bind fun _ hbody => yields_pure (.mk hbody)
  cases none with
  | true => exact hrest
  | false => exact (yields_commaSeparated (yields_expect _ _) _ n 0).bind fun _ _ => hrest

theorem yields_classDecl : Yields V (Stmt.Literals V) (classDecl n inner) := by
  have hsuper : Yields V (fun _ => True) superclass := by
    refine (yields_accept? _).bind fun less _ => ?_
    cases less with
    | none => exact yields_pure trivial
    | some _ => exact (yields_expect _ _).map fun _ _ => trivial
  exact (yields_expect _ _).bind fun _ _ => hsuper.bind fun _ _ => (yields_expect _ _).bind fun _ _ =>
    (yields_untilBrace (yields_function hinner n .method) n).bind fun _ hmethods =>
      (yields_expect _ _).bind fun _ _ => yields_pure (.classDecl hmethods)

end

theorem yields_forInitial : Yields V (fun i => ∀ s ∈ i, s.Literals V) (forInitial n) := by
  refine (yields_accept? _).bind fun t _ => ?_
  cases t with
  | none => exact (yields_expressionStmt n).map fun s hs => by simpa using hs
  | some t =>
    dsimp only
    split
    · exact yields_pure (by simp)
    · exact (yields_varDecl n).map fun s hs => by simpa using hs

theorem lowerFor_literals {initial : Option Stmt} {condition increment : Option Expr} {body : Stmt}
    (hi : ∀ s ∈ initial, s.Literals V) (hc : Expr.OptionLiterals V condition)
    (hn : Expr.OptionLiterals V increment) (hb : body.Literals V) :
    (lowerFor initial condition increment body).Literals V := by
  have hround : (increment.elim body fun e => .block [body, .expression e]).Literals V := by
    cases increment with
    | none => exact hb
    | some e => exact .block (by simpa using ⟨hb, .expression (hn e rfl)⟩)
  have hcondition : (condition.getD (.literal (.bool true))).Literals V := by
    cases condition with
    | none => exact .bool
    | some e => exact hc e rfl
  rw [lowerFor_eq]
  cases initial with
  | none => exact .loop hcondition hround
  | some first => exact .block (by simpa using ⟨hi first rfl, .loop hcondition hround⟩)

include hnested

theorem yields_forStmt : Yields V (Stmt.Literals V) (forStmt n nested) :=
  (yields_expect _ _).bind fun _ _ => (yields_forInitial n).bind fun _ hi =>
    (yields_unlessNext n _).bind fun _ hc => (yields_expect _ _).bind fun _ _ =>
      (yields_unlessNext n _).bind fun _ hn => (yields_expect _ _).bind fun _ _ =>
        hnested.bind fun _ hb => yields_pure (lowerFor_literals hi hc hn hb)

theorem yields_ifStmt : Yields V (Stmt.Literals V) (ifStmt n nested) := by
  refine (yields_expect _ _).bind fun _ _ => (yields_expression n).bind fun _ hc =>
    (yields_expect _ _).bind fun _ _ => hnested.bind fun _ hyes => (yields_accept? _).bind fun other _ => ?_
  cases other with
  | none => exact yields_pure (.ifThen hc hyes)
  | some _ => exact hnested.bind fun _ hno => yields_pure (.ifElse hc hyes hno)

theorem yields_whileStmt : Yields V (Stmt.Literals V) (whileStmt n nested) :=
  (yields_expect _ _).bind fun _ _ => (yields_expression n).bind fun _ hc =>
    (yields_expect _ _).bind fun _ _ => hnested.bind fun _ hb => yields_pure (.loop hc hb)

include hinner

theorem yields_statementWith : Yields V (Stmt.Literals V) (statementWith n nested inner) := by
  refine yields_peek.bind fun t _ => ?_
  split
  · exact yields_advance.bind fun _ _ => yields_forStmt hnested n
  · exact yields_advance.bind fun _ _ => yields_ifStmt hnested n
  · exact yields_advance.bind fun _ _ => (yields_terminated n _).bind fun _ he => yields_pure (.print he)
  · exact yields_advance.bind fun _ _ => (yields_unlessNext n _).bind fun _ he =>
      (yields_expect _ _).bind fun _ _ => yields_pure (.ret he)
  · exact yields_advance.bind fun _ _ => yields_whileStmt hnested n
  · exact yields_advance.bind fun _ _ => (yields_block hinner n).bind fun _ hb => yields_pure (.block hb)
  · exact yields_expressionStmt n

theorem yields_declarationWith : Yields V (Stmt.Literals V) (declarationWith n nested inner) := by
  refine yields_peek.bind fun t _ => ?_
  split
  · exact yields_advance.bind fun _ _ => yields_classDecl hinner n
  · exact yields_advance.bind fun _ _ =>
      (yields_function hinner n _).bind fun _ hf => yields_pure (.function hf)
  · exact yields_advance.bind fun _ _ => yields_varDecl n
  · exact hnested

end Inner

theorem yields_statement_and (n : Nat) :
    Yields V (Stmt.Literals V) (statement n) ∧
      Yields V (fun r => ∀ s ∈ r, s.Literals V) (declaration n) := by
  induction n with
  | zero => exact ⟨yields_exhausted, yields_exhausted⟩
  | succ n ih =>
    exact ⟨yields_statementWith ih.1 ih.2 n, yields_recovering (yields_declarationWith ih.1 ih.2 n) n⟩

theorem yields_program {item : Parser (Option Stmt)} (h : Yields V (fun r => ∀ s ∈ r, s.Literals V) item)
    (n : Nat) : Yields V (fun ss => ∀ s ∈ ss, s.Literals V) (program item n) := by
  induction n with
  | zero => exact yields_exhausted
  | succ n ih =>
    refine yields_atEnd.bind fun ended _ => ?_
    cases ended with
    | true => exact yields_pure (by simp)
    | false =>
      refine h.bind fun first hfirst => ih.bind fun rest hrest => yields_pure fun s hs => ?_
      rcases List.mem_append.1 hs with hs | hs
      · exact hfirst s (Option.mem_toList.1 hs)
      · exact hrest s hs

end Yields

theorem ending_literal (hV : V .nil) {tokens : List Token} (h : ∀ t ∈ tokens, V t.literal) :
    V (ending tokens).literal := by
  rw [ending]
  cases hf : tokens.find? (·.isEof) with
  | none => exact hV
  | some t => exact h t (List.mem_of_find?_eq_some hf)

end Parse

/-- Whatever statements are read, their literals are nil, truth values and literals of the tokens. -/
theorem parse_literals (hV : V .nil) {tokens : List Token} (h : ∀ t ∈ tokens, V t.literal) :
    ∀ s ∈ (parse tokens).statements, s.Literals V := by
  have hbody : ∀ t ∈ Parse.body tokens, V t.literal := fun t ht =>
    h t ((List.takeWhile_sublist _).subset ht)
  have hprogram := (Parse.yields_program (Parse.yields_statement_and (Parse.allowance tokens)).2
    (Parse.allowance tokens)).result (Parse.ending_literal hV h) hbody
  intro s hs
  cases hr : (Parse.program (m := Parse.Parser) (Parse.declaration (Parse.allowance tokens))
      (Parse.allowance tokens) (Parse.ending tokens) (Parse.body tokens)).result with
  | none => simp [parse, hr] at hs
  | some ss =>
    rw [hr] at hprogram
    simp only [parse, hr, Option.getD_some] at hs
    exact hprogram ss rfl s hs

end LoxLang
