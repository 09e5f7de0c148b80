import LoxLang.Parse

/-!
# The grammar

Which token lists are phrases of the language, and of which trees, said without reading them from
left to right. A level of binary operators is left-recursive, assignment is right-recursive, and an
`else` belongs to a conditional only if the branch before it does not itself end in a conditional
that could take the `else`.

A phrase comes with the complaints that it draws: one at the equals sign of each assignment to
something other than a variable or a property, whose tree is then its left side alone, and one at
each parameter or argument after the 255th of its list. A phrase without complaints has
neither.

Main definitions: `Expression`, `Statement`, `Declaration`, and `Program`, the phrases that are
programs.
-/

namespace LoxLang.Grammar

open Token (Kind)

/-! ### Levels of expressions -/

/-- The levels of binary operators, from the loosest to the tightest. -/
inductive Tier where
  | disjunction | conjunction | equality | comparison | sum | product
  deriving DecidableEq, Repr

/-- The levels of expressions, from the loosest to the tightest. -/
inductive Level where
  | assignment
  | binary (tier : Tier)
  | unary
  | call
  | primary
  deriving DecidableEq, Repr

/-- The operators of a level. -/
def Tier.operators : Tier → List Kind
  | .disjunction => [.kwOr]
  | .conjunction => [.kwAnd]
  | .equality => [.bangEqual, .equalEqual]
  | .comparison => [.greater, .greaterEqual, .less, .lessEqual]
  | .sum => [.minus, .plus]
  | .product => [.slash, .star]

/-- The tree of an operator between two operands. -/
def Tier.node : Tier → Expr → Token → Expr → Expr
  | .disjunction | .conjunction => .logical
  | .equality | .comparison | .sum | .product => .binary

/-- The level of the operands of a level of binary operators. -/
def Tier.operand : Tier → Level
  | .disjunction => .binary .conjunction
  | .conjunction => .binary .equality
  | .equality => .binary .comparison
  | .comparison => .binary .sum
  | .sum => .binary .product
  | .product => .unary

/-- The next tighter level, whose phrases are phrases of the level too. -/
def Level.tighter : Level → Option Level
  | .assignment => some (.binary .disjunction)
  | .binary tier => some tier.operand
  | .unary => some .call
  | .call => some .primary
  | .primary => none

/-- Whether a tree can be assigned to. -/
def isTarget : Expr → Bool
  | .name _ | .get _ _ => true
  | _ => false

/-! ### Lists -/

/-- The complaint that an item draws if at least 255 came before it. -/
def surplus (limit : SyntaxProblem) (count : Nat) (ts : List Token) : List SyntaxError :=
  if 255 ≤ count then ts.head?.toList.map (⟨·, limit⟩) else []

/-- One or more items with commas between them, of which `count` came before. -/
inductive Items {α : Type} (item : List Token → α → List SyntaxError → Prop)
    (limit : SyntaxProblem) : Nat → List Token → List α → List SyntaxError → Prop where
  | last (first : item ts a es) : Items item limit count ts [a] (surplus limit count ts ++ es)
  | more (first : item ts a es) (hcomma : comma.kind = .comma)
      (others : Items item limit (count + 1) us as es') :
      Items item limit count (ts ++ comma :: us) (a :: as) (surplus limit count ts ++ (es ++ es'))

/-- Items with commas between them, or nothing. -/
inductive Listing {α : Type} (item : List Token → α → List SyntaxError → Prop)
    (limit : SyntaxProblem) : List Token → List α → List SyntaxError → Prop where
  | empty : Listing item limit [] [] []
  | items (some : Items item limit 0 ts as es) : Listing item limit ts as es

/-- Items one after another. -/
inductive Sequence {α : Type} (item : List Token → α → List SyntaxError → Prop) :
    List Token → List α → List SyntaxError → Prop where
  | nil : Sequence item [] [] []
  | cons (first : item ts a es) (others : Sequence item us as es') :
      Sequence item (ts ++ us) (a :: as) (es ++ es')

/-! ### Expressions -/

/-- Expressions of a level. -/
inductive Expression : Level → List Token → Expr → List SyntaxError → Prop where
  | no (h : t.kind = .kwFalse) : Expression .primary [t] (.literal (.bool false)) []
  | yes (h : t.kind = .kwTrue) : Expression .primary [t] (.literal (.bool true)) []
  | nil (h : t.kind = .kwNil) : Expression .primary [t] (.literal .nil) []
  | number (h : t.kind = .number) : Expression .primary [t] (.literal t.literal) []
  | string (h : t.kind = .string) : Expression .primary [t] (.literal t.literal) []
  | this (h : t.kind = .kwThis) : Expression .primary [t] (.this t) []
  | super (h : t.kind = .kwSuper) (hdot : dot.kind = .dot) (hm : m.kind = .identifier) :
      Expression .primary [t, dot, m] (.super t m) []
  | name (h : t.kind = .identifier) : Expression .primary [t] (.name t) []
  | grouping (hopen : lpar.kind = .leftParen) (inner : Expression .assignment ts e es)
      (hclose : rpar.kind = .rightParen) :
      Expression .primary (lpar :: (ts ++ [rpar])) (.grouping e) es
  | call (callee : Expression .call ts f es) (hopen : lpar.kind = .leftParen)
      (args : Listing (Expression .assignment) .tooManyArguments us as es')
      (hclose : rpar.kind = .rightParen) :
      Expression .call (ts ++ lpar :: (us ++ [rpar])) (.call f rpar as) (es ++ es')
  | get (object : Expression .call ts e es) (hdot : dot.kind = .dot) (hn : n.kind = .identifier) :
      Expression .call (ts ++ [dot, n]) (.get e n) es
  | unary (h : op.kind = .bang ∨ op.kind = .minus) (operand : Expression .unary ts e es) :
      Expression .unary (op :: ts) (.unary op e) es
  | binary (left : Expression (.binary tier) ts l es) (hop : op.kind ∈ tier.operators)
      (right : Expression tier.operand us r es') :
      Expression (.binary tier) (ts ++ op :: us) (tier.node l op r) (es ++ es')
  | assignName (target : Expression (.binary .disjunction) ts (.name n) es)
      (heq : eq.kind = .equal) (value : Expression .assignment us v es') :
      Expression .assignment (ts ++ eq :: us) (.assign n v) (es ++ es')
  | assignProperty (target : Expression (.binary .disjunction) ts (.get o n) es)
      (heq : eq.kind = .equal) (value : Expression .assignment us v es') :
      Expression .assignment (ts ++ eq :: us) (.set o n v) (es ++ es')
  | assignOther (target : Expression (.binary .disjunction) ts e es) (hother : isTarget e = false)
      (heq : eq.kind = .equal) (value : Expression .assignment us v es') :
      Expression .assignment (ts ++ eq :: us) e (es ++ (es' ++ [⟨eq, .invalidTarget⟩]))
  | tighter (hl : l.tighter = some l') (inner : Expression l' ts e es) : Expression l ts e es

/-- An expression that may be missing. -/
inductive Clause : List Token → Option Expr → List SyntaxError → Prop where
  | none : Clause [] none []
  | some (value : Expression .assignment ts e es) : Clause ts (some e) es

/-! ### Statements and declarations -/

/-- The parts of a variable declaration after its keyword. -/
inductive Variable : List Token → Stmt → List SyntaxError → Prop where
  | plain (hn : n.kind = .identifier) (hsemi : semi.kind = .semicolon) :
      Variable [n, semi] (.var n none) []
  | initialized (hn : n.kind = .identifier) (heq : eq.kind = .equal)
      (value : Expression .assignment ts e es) (hsemi : semi.kind = .semicolon) :
      Variable (n :: eq :: (ts ++ [semi])) (.var n (some e)) es

/-- The first clause of a counting loop. -/
inductive Initial : List Token → Option Stmt → List SyntaxError → Prop where
  | none (hsemi : semi.kind = .semicolon) : Initial [semi] none []
  | varDecl (hkw : kw.kind = .kwVar) (decl : Variable ts s es) : Initial (kw :: ts) (some s) es
  | expression (value : Expression .assignment ts e es) (hsemi : semi.kind = .semicolon) :
      Initial (ts ++ [semi]) (some (.expression e)) es

/-- The superclass clause of a class. -/
inductive Superclass : List Token → Option Token → Prop where
  | none : Superclass [] none
  | some (hless : less.kind = .less) (hn : n.kind = .identifier) : Superclass [less, n] (some n)

/-- A parameter. -/
inductive Parameter : List Token → Token → List SyntaxError → Prop where
  | name (h : t.kind = .identifier) : Parameter [t] t []

/-- A counting loop as a tree: after each round comes the increment, a missing condition is true, and
the initial clause comes first, in a block around the loop. -/
def counting (initial : Option Stmt) (condition increment : Option Expr) (body : Stmt) : Stmt :=
  let round := increment.elim body fun e => .block [body, .expression e]
  let loop := .loop (condition.getD (.literal (.bool true))) round
  initial.elim loop fun first => .block [first, loop]

mutual

/-- Statements. The first argument tells whether the statement is open: it ends in a conditional
without `else`, to which an `else` right after the statement would belong. -/
inductive Statement : Bool → List Token → Stmt → List SyntaxError → Prop where
  | expression (value : Expression .assignment ts e es) (hsemi : semi.kind = .semicolon) :
      Statement false (ts ++ [semi]) (.expression e) es
  | print (hkw : kw.kind = .kwPrint) (value : Expression .assignment ts e es)
      (hsemi : semi.kind = .semicolon) : Statement false (kw :: (ts ++ [semi])) (.print e) es
  | ret (hkw : kw.kind = .kwReturn) (value : Clause ts e es) (hsemi : semi.kind = .semicolon) :
      Statement false (kw :: (ts ++ [semi])) (.ret kw e) es
  | block (hopen : lb.kind = .leftBrace) (body : Sequence Declaration ts ss es)
      (hclose : rb.kind = .rightBrace) : Statement false (lb :: (ts ++ [rb])) (.block ss) es
  | ifThen (hkw : kw.kind = .kwIf) (hopen : lpar.kind = .leftParen)
      (condition : Expression .assignment ts c es) (hclose : rpar.kind = .rightParen)
      (yes : Statement b us s es') :
      Statement true (kw :: lpar :: (ts ++ rpar :: us)) (.ifThen c s) (es ++ es')
  | ifElse (hkw : kw.kind = .kwIf) (hopen : lpar.kind = .leftParen)
      (condition : Expression .assignment ts c es) (hclose : rpar.kind = .rightParen)
      (yes : Statement false us s es') (helse : el.kind = .kwElse)
      (no : Statement b vs s' es'') :
      Statement b (kw :: lpar :: (ts ++ rpar :: (us ++ el :: vs))) (.ifElse c s s')
        (es ++ (es' ++ es''))
  | loop (hkw : kw.kind = .kwWhile) (hopen : lpar.kind = .leftParen)
      (condition : Expression .assignment ts c es) (hclose : rpar.kind = .rightParen)
      (body : Statement b us s es') :
      Statement b (kw :: lpar :: (ts ++ rpar :: us)) (.loop c s) (es ++ es')
  | counting (hkw : kw.kind = .kwFor) (hopen : lpar.kind = .leftParen) (initial : Initial ts i es)
      (condition : Clause us c es') (hsemi : semi.kind = .semicolon) (increment : Clause vs n es'')
      (hclose : rpar.kind = .rightParen) (body : Statement b ws s es''') :
      Statement b (kw :: lpar :: (ts ++ (us ++ semi :: (vs ++ rpar :: ws)))) (counting i c n s)
        (es ++ (es' ++ (es'' ++ es''')))

/-- Declarations, of which statements are a part. -/
inductive Declaration : List Token → Stmt → List SyntaxError → Prop where
  | statement (inner : Statement b ts s es) : Declaration ts s es
  | varDecl (hkw : kw.kind = .kwVar) (decl : Variable ts s es) : Declaration (kw :: ts) s es
  | function (hkw : kw.kind = .kwFun) (decl : Function ts f es) :
      Declaration (kw :: ts) (.function f) es
  | classDecl (hkw : kw.kind = .kwClass) (hn : n.kind = .identifier) (parent : Superclass ts p)
      (hopen : lb.kind = .leftBrace) (methods : Sequence Function us fs es)
      (hclose : rb.kind = .rightBrace) :
      Declaration (kw :: n :: (ts ++ lb :: (us ++ [rb]))) (.classDecl n p fs) es

/-- Functions and methods, from their names on. -/
inductive Function : List Token → FunctionDecl → List SyntaxError → Prop where
  | mk (hn : n.kind = .identifier) (hopen : lpar.kind = .leftParen)
      (params : Listing Parameter .tooManyParameters ts ps es) (hclose : rpar.kind = .rightParen)
      (hbody : lb.kind = .leftBrace) (body : Sequence Declaration us ss es')
      (hend : rb.kind = .rightBrace) :
      Function (n :: lpar :: (ts ++ rpar :: lb :: (us ++ [rb]))) ⟨n, ps, ss⟩ (es ++ es')

end

/-- Programs: declarations that draw no complaint. -/
def Program (ts : List Token) (program : List Stmt) : Prop := Sequence Declaration ts program []

/-! ### First and next tokens -/

/-- The kinds of tokens that an expression without an operator in front starts with. -/
def atoms : List Kind :=
  [.kwFalse, .kwTrue, .kwNil, .number, .string, .kwThis, .kwSuper, .identifier, .leftParen]

/-- The kinds of tokens that an expression of a level starts with. -/
def Level.starts : Level → List Kind
  | .call | .primary => atoms
  | .assignment | .binary _ | .unary => .bang :: .minus :: atoms

/-- The looseness of a level, from the loosest on. -/
def Level.rank : Level → Nat
  | .assignment => 0
  | .binary .disjunction => 1
  | .binary .conjunction => 2
  | .binary .equality => 3
  | .binary .comparison => 4
  | .binary .sum => 5
  | .binary .product => 6
  | .unary => 7
  | .call => 8
  | .primary => 9

/-- The level on which a token of some kind continues an expression. -/
def continued? : Kind → Option Level
  | .equal => some .assignment
  | .kwOr => some (.binary .disjunction)
  | .kwAnd => some (.binary .conjunction)
  | .bangEqual | .equalEqual => some (.binary .equality)
  | .greater | .greaterEqual | .less | .lessEqual => some (.binary .comparison)
  | .minus | .plus => some (.binary .sum)
  | .slash | .star => some (.binary .product)
  | .leftParen | .dot => some .call
  | _ => none

/-- Whether an expression of a level ends before a token of some kind. -/
def Level.Stops (l : Level) (kind : Kind) : Prop := ∀ l', continued? kind = some l' → l'.rank < l.rank

theorem Level.rank_lt_of_tighter {l l' : Level} (h : l.tighter = some l') : l.rank < l'.rank := by
  cases l with
  | binary tier => cases tier <;> cases h <;> decide
  | primary => cases h
  | _ => cases h; decide

theorem Level.Stops.tighter {l l' : Level} {kind : Kind} (h : l.Stops kind)
    (hl : l.tighter = some l') : l'.Stops kind :=
  fun k hk => Nat.lt_trans (h k hk) (rank_lt_of_tighter hl)

theorem continued?_of_mem {tier : Tier} {kind : Kind} (h : kind ∈ tier.operators) :
    continued? kind = some (.binary tier) := by
  cases tier <;> simp only [Tier.operators, List.mem_cons, List.not_mem_nil, or_false] at h <;>
    rcases h with rfl | rfl | rfl | rfl <;> rfl

/-- Before an operator of their level, operands end. -/
theorem Tier.eof_not_mem (tier : Tier) : Kind.eof ∉ tier.operators := by cases tier <;> decide

theorem Tier.stops_operand {tier : Tier} {kind : Kind} (h : kind ∈ tier.operators) :
    tier.operand.Stops kind := by
  intro l hl
  rw [continued?_of_mem h] at hl
  cases hl
  exact Level.rank_lt_of_tighter (l := .binary tier) rfl

/-- No operator of a level stands where an expression of the level ends. -/
theorem Level.Stops.not_mem {tier : Tier} {kind : Kind} (h : (Level.binary tier).Stops kind) :
    kind ∉ tier.operators :=
  fun hk => Nat.lt_irrefl _ (h _ (continued?_of_mem hk))

theorem Level.starts_subset {l l' : Level} {kind : Kind} (hl : l.tighter = some l')
    (h : kind ∈ l'.starts) : kind ∈ l.starts := by
  cases l with
  | binary tier => cases tier <;> cases hl <;> exact h
  | primary => cases hl
  | assignment => cases hl; exact h
  | unary => cases hl; exact List.mem_cons_of_mem _ (List.mem_cons_of_mem _ h)
  | call => cases hl; exact h

theorem Level.starts_subset_assignment (l : Level) {kind : Kind} (h : kind ∈ l.starts) :
    kind ∈ Level.assignment.starts := by
  cases l with
  | call | primary => exact List.mem_cons_of_mem _ (List.mem_cons_of_mem _ h)
  | assignment | binary | unary => exact h

theorem Expression.head : Expression l ts e es → ∃ t us, ts = t :: us ∧ t.kind ∈ l.starts
  | .no h | .yes h | .nil h | .number h | .string h | .this h | .super h _ _ | .name h
  | .grouping h _ _ => ⟨_, _, rfl, by simp [Level.starts, atoms, h]⟩
  | .call callee _ _ _ => by
    obtain ⟨t, us, rfl, ht⟩ := callee.head
    exact ⟨t, _, rfl, ht⟩
  | .get object _ _ => by
    obtain ⟨t, us, rfl, ht⟩ := object.head
    exact ⟨t, _, rfl, ht⟩
  | .unary h _ => ⟨_, _, rfl, by rcases h with h | h <;> simp [Level.starts, h]⟩
  | .binary left _ _ => by
    obtain ⟨t, us, rfl, ht⟩ := left.head
    exact ⟨t, _, rfl, ht⟩
  | .assignName target _ _ => by
    obtain ⟨t, us, rfl, ht⟩ := target.head
    exact ⟨t, _, rfl, ht⟩
  | .assignProperty target _ _ => by
    obtain ⟨t, us, rfl, ht⟩ := target.head
    exact ⟨t, _, rfl, ht⟩
  | .assignOther target _ _ _ => by
    obtain ⟨t, us, rfl, ht⟩ := target.head
    exact ⟨t, _, rfl, ht⟩
  | .tighter hl inner => by
    obtain ⟨t, us, rfl, ht⟩ := inner.head
    exact ⟨t, us, rfl, Level.starts_subset hl ht⟩

/-- An expression starts with none of the tokens that no expression starts with. -/
theorem Expression.head_ne (h : Expression l ts e es) {kind : Kind}
    (hkind : kind ∉ Level.assignment.starts) : ∃ t us, ts = t :: us ∧ t.kind ≠ kind := by
  obtain ⟨t, us, rfl, ht⟩ := h.head
  refine ⟨t, us, rfl, ?_⟩
  rintro rfl
  exact hkind (l.starts_subset_assignment ht)

theorem Items.head {item : List Token → α → List SyntaxError → Prop} {P : Token → Prop}
    (hitem : ∀ {ts a es}, item ts a es → ∃ t us, ts = t :: us ∧ P t) :
    Items item limit count ts as es → ∃ t us, ts = t :: us ∧ P t
  | .last first => hitem first
  | .more first _ _ => by
    obtain ⟨t, us, rfl, ht⟩ := hitem first
    exact ⟨t, _, rfl, ht⟩

/-- The kinds of tokens that a statement starts with. -/
def statementStarts : List Kind :=
  .kwFor :: .kwIf :: .kwPrint :: .kwReturn :: .kwWhile :: .leftBrace :: Level.assignment.starts

/-- The kinds of tokens that a declaration starts with. -/
def declarationStarts : List Kind := .kwClass :: .kwFun :: .kwVar :: statementStarts

theorem Statement.head : Statement b ts s es → ∃ t us, ts = t :: us ∧ t.kind ∈ statementStarts
  | .expression value _ => by
    obtain ⟨t, us, rfl, ht⟩ := value.head
    exact ⟨t, _, rfl, by simp [statementStarts, ht]⟩
  | .print h _ _ | .ret h _ _ | .block h _ _ | .ifThen h _ _ _ _ | .ifElse h _ _ _ _ _ _
  | .loop h _ _ _ _ | .counting h _ _ _ _ _ _ _ => ⟨_, _, rfl, by simp [statementStarts, h]⟩

theorem Declaration.head : Declaration ts s es → ∃ t us, ts = t :: us ∧ t.kind ∈ declarationStarts
  | .statement inner => by
    obtain ⟨t, us, rfl, ht⟩ := inner.head
    exact ⟨t, us, rfl, by simp [declarationStarts, ht]⟩
  | .varDecl h _ | .function h _ | .classDecl h _ _ _ _ _ =>
    ⟨_, _, rfl, by simp [declarationStarts, h]⟩

theorem Function.head : Function ts f es → ∃ t us, ts = t :: us ∧ t.kind = .identifier
  | .mk h _ _ _ _ _ _ => ⟨_, _, rfl, h⟩

theorem Function.head_ne (h : Function ts f es) :
    ∃ t us, ts = t :: us ∧ t.kind ≠ .rightBrace ∧ t.kind ≠ .kwElse := by
  obtain ⟨t, us, rfl, ht⟩ := h.head
  exact ⟨t, us, rfl, by simp [ht], by simp [ht]⟩

theorem Parameter.head : Parameter ts t es → ∃ t us, ts = t :: us ∧ t.kind ≠ .rightParen
  | .name h => ⟨_, [], rfl, by simp [h]⟩

/-! ### No phrase is empty -/

theorem Expression.ne_nil (h : Expression l ts e es) : ts ≠ [] := by
  obtain ⟨t, us, rfl, -⟩ := h.head
  simp

theorem Declaration.ne_nil (h : Declaration ts s es) : ts ≠ [] := by
  obtain ⟨t, us, rfl, -⟩ := h.head
  simp

theorem Function.ne_nil (h : Function ts f es) : ts ≠ [] := by
  obtain ⟨t, us, rfl, -⟩ := h.head
  simp

end LoxLang.Grammar
