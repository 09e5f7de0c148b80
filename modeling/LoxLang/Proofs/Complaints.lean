import Mathlib.Data.List.Perm.Subperm
import LoxLang.Proofs.Parse.Whole
import LoxLang.Proofs.Scan.Kinds

/-!
# Complaints that do not disturb

An assignment to something that cannot be assigned to, and a parameter or argument too many, are reported
where they stand, and the parser goes on as if nothing had been wrong: what the grammar derives with
complaints is parsed to the tree of the derivation, and the errors are these complaints.

Main statement: `parse_of_complaints`.
-/

namespace LoxLang

namespace Grammar

/-- The kinds of tokens at which a complaint that does not disturb can be made. -/
def Fits : SyntaxProblem → Token.Kind → Prop
  | .invalidTarget, kind => kind = .equal
  | .tooManyParameters, kind => kind = .identifier
  | .tooManyArguments, kind => kind ∈ Level.assignment.starts
  | .missing _, _ => False

/-- Complaints at tokens among some, of which none has two, each at a token that it fits. -/
structure Among (ts : List Token) (es : List SyntaxError) : Prop where
  tokens : (es.map (·.token)).Subperm ts
  fits : ∀ e ∈ es, Fits e.problem e.token.kind

namespace Among

variable {ts us : List Token} {es es' : List SyntaxError} {t : Token}

theorem nil : Among ts [] := ⟨List.nil_subperm, by simp⟩

theorem singleton {problem : SyntaxProblem} (h : Fits problem t.kind) :
    Among [t] [⟨t, problem⟩] :=
  ⟨List.Subperm.refl _, by simpa using h⟩

theorem mono (h : Among ts es) (hts : ts.Subperm us) : Among us es := ⟨h.tokens.trans hts, h.fits⟩

theorem append (h : Among ts es) (h' : Among us es') : Among (ts ++ us) (es ++ es') := by
  refine ⟨?_, ?_⟩
  · rw [List.map_append]
    exact h.tokens.append h'.tokens
  · intro e he
    rcases List.mem_append.1 he with he | he
    · exact h.fits e he
    · exact h'.fits e he

theorem cons (h : Among ts es) : Among (t :: ts) es := h.mono List.subperm_cons_self

theorem left (h : Among ts es) : Among (ts ++ us) es :=
  h.mono (List.sublist_append_left ts us).subperm

theorem right (h : Among us es) : Among (ts ++ us) es :=
  h.mono (List.sublist_append_right ts us).subperm

theorem of_tail (h : Among ts.tail es) : Among ts es := h.mono (List.tail_sublist ts).subperm

theorem tail_append (hts : ts ≠ []) (h : Among ts.tail es) (h' : Among us es') :
    Among (ts ++ us).tail (es ++ es') := by
  rw [List.tail_append_of_ne_nil hts]
  exact h.append h'

/-- A complaint at the first token comes before those at the others. -/
theorem surplus {limit : SyntaxProblem} (hhead : ∀ t ∈ ts.head?, Fits limit t.kind)
    (h : Among ts.tail es) (count : Nat) : Among ts (surplus limit count ts ++ es) := by
  unfold Grammar.surplus
  cases ts with
  | nil => simpa using h
  | cons t ts =>
    split
    · exact (singleton (hhead t rfl)).append h
    · exact h.of_tail

end Among

/-! ### Expressions -/

theorem Expression.fits_head (h : Expression l ts e es) :
    ∀ t ∈ ts.head?, Fits .tooManyArguments t.kind := by
  obtain ⟨t, us, rfl, ht⟩ := h.head
  simpa [Fits] using l.starts_subset_assignment ht

mutual

/-- No complaint of an expression is at its first token, so that an argument too many can be reported
there. -/
theorem Expression.among_tail : Expression l ts e es → Among ts.tail es
  | .no _ | .yes _ | .nil _ | .number _ | .string _ | .this _ | .super _ _ _ | .name _ => .nil
  | .grouping _ inner _ => inner.among_tail.of_tail.left
  | .call callee _ args _ => .tail_append callee.ne_nil callee.among_tail args.among_arguments.left.cons
  | .get object _ _ => by
    rw [List.tail_append_of_ne_nil object.ne_nil]
    exact object.among_tail.left
  | .unary _ operand => operand.among_tail.of_tail
  | .binary left _ right => .tail_append left.ne_nil left.among_tail right.among_tail.of_tail.cons
  | .assignName target _ value | .assignProperty target _ value =>
    .tail_append target.ne_nil target.among_tail value.among_tail.of_tail.cons
  | @Expression.assignOther ts _ es us _ es' eq target _ heq value => by
    -- the complaint about an assignment comes after those about its value, whose tokens come after it
    have hequal : Among [eq] [⟨eq, .invalidTarget⟩] := .singleton heq
    have hvalue : Among (us ++ [eq]) (es' ++ [⟨eq, .invalidTarget⟩]) :=
      value.among_tail.of_tail.append hequal
    exact .tail_append target.ne_nil target.among_tail
      (hvalue.mono (List.perm_append_singleton eq us).subperm)
  | .tighter _ inner => inner.among_tail

theorem Listing.among_arguments : Listing (Expression .assignment) .tooManyArguments ts as es → Among ts es
  | .empty => .nil
  | .items args => args.among_arguments

theorem Items.among_arguments :
    Items (Expression .assignment) .tooManyArguments count ts as es → Among ts es
  | .last first => .surplus first.fits_head first.among_tail count
  | .more first _ others => by
    rw [← List.append_assoc]
    exact (Among.surplus first.fits_head first.among_tail count).append others.among_arguments.cons

end

theorem Expression.among (h : Expression l ts e es) : Among ts es := h.among_tail.of_tail

theorem Clause.among (h : Clause ts e es) : Among ts es := by
  cases h with
  | none => exact .nil
  | some value => exact value.among

/-! ### Statements and declarations -/

theorem Variable.among (h : Variable ts s es) : Among ts es := by
  cases h with
  | plain => exact .nil
  | initialized _ _ value _ => exact value.among.left.cons.cons

theorem Initial.among (h : Initial ts s es) : Among ts es := by
  cases h with
  | none => exact .nil
  | varDecl _ decl => exact decl.among.cons
  | expression value _ => exact value.among.left

theorem Parameter.among_tail (h : Parameter ts t es) : Among ts.tail es := by
  cases h with
  | name => exact .nil

theorem Parameter.fits_head (h : Parameter ts t es) : ∀ t ∈ ts.head?, Fits .tooManyParameters t.kind := by
  cases h with
  | name h => simpa [Fits] using h

theorem Items.among_parameters (h : Items Parameter .tooManyParameters count ts ps es) : Among ts es := by
  induction h with
  | last first => exact .surplus first.fits_head first.among_tail _
  | more first _ _ ih =>
    rw [← List.append_assoc]
    exact (Among.surplus first.fits_head first.among_tail _).append ih.cons

theorem Listing.among_parameters (h : Listing Parameter .tooManyParameters ts ps es) : Among ts es := by
  cases h with
  | empty => exact .nil
  | items params => exact params.among_parameters

mutual

theorem Statement.among : Statement b ts s es → Among ts es
  | .expression value _ => value.among.left
  | .print _ value _ => value.among.left.cons
  | .ret _ value _ => value.among.left.cons
  | .block _ body _ => body.among_declarations.left.cons
  | .ifThen _ _ condition _ yes => (condition.among.append yes.among.cons).cons.cons
  | .ifElse _ _ condition _ yes _ no =>
    (condition.among.append (yes.among.append no.among.cons).cons).cons.cons
  | .loop _ _ condition _ body => (condition.among.append body.among.cons).cons.cons
  | .counting _ _ initial condition _ increment _ body =>
    (initial.among.append (condition.among.append (increment.among.append body.among.cons).cons)).cons.cons

theorem Declaration.among : Declaration ts s es → Among ts es
  | .statement inner => inner.among
  | .varDecl _ decl => decl.among.cons
  | .function _ decl => decl.among.cons
  | .classDecl _ _ _ _ methods _ => methods.among_methods.left.cons.right.cons.cons

theorem Function.among : Function ts f es → Among ts es
  | .mk _ _ params _ _ body _ =>
    (params.among_parameters.append body.among_declarations.left.cons.cons).cons.cons

theorem Sequence.among_declarations : Sequence Declaration ts ss es → Among ts es
  | .nil => .nil
  | .cons first others => first.among.append others.among_declarations

theorem Sequence.among_methods : Sequence Function ts fs es → Among ts es
  | .nil => .nil
  | .cons first others => first.among.append others.among_methods

end

end Grammar

open Grammar

/-- What the grammar derives with complaints is parsed to the program of the derivation, and the errors
are these complaints in order: an assignment to something that cannot be assigned to, at its equals sign,
a parameter too many, at its name, and an argument too many, at its first token. No token is complained of
twice. -/
theorem parse_of_complaints {tokens : List Token} {program : List Stmt} {complaints : List SyntaxError}
    (h : Sequence Declaration (tokens.takeWhile fun t => t.kind ≠ .eof) program complaints) :
    parse tokens = ⟨program, complaints⟩ ∧
      (∀ e ∈ complaints, Fits e.problem e.token.kind) ∧
      (complaints.map (·.token)).Subperm tokens := by
  have hamong := h.among_declarations
  rw [← Parse.body_eq_takeWhile] at h hamong
  have hread := Parse.declarations_of_sequence (Parse.ending_isEof tokens) h
  exact ⟨Parse.parse_of_declarations hread, hamong.fits,
    hamong.tokens.trans (List.takeWhile_sublist _).subperm⟩

/-! ### A call with too many arguments that is assigned to -/

namespace Crowded

/-- A token on the first line. -/
def token (kind : Token.Kind) (lexeme : String) : Token := { kind := kind, lexeme := lexeme, line := 1 }

/-- A name. -/
def name (lexeme : String) : Token := token .identifier lexeme

/-- One more argument than this number, all of them the same. -/
def arguments : Nat → List Token
  | 0 => [name "x"]
  | k + 1 => name "x" :: token .comma "," :: arguments k

/-- The tokens of a call with 256 arguments. -/
def call : List Token := [name "f"] ++ token .leftParen "(" :: (arguments 255 ++ [token .rightParen ")"])

/-- The tree of the call. -/
def tree : Expr :=
  .call (.name (name "f")) (token .rightParen ")") (List.replicate 256 (.name (name "x")))

/-- An assignment to the call. -/
def tokens : List Token := call ++ token .equal "=" :: [name "y"] ++ [token .semicolon ";"]

theorem binary_of_call {ts : List Token} {e : Expr} {es : List SyntaxError} (h : Expression .call ts e es)
    (tier : Tier) : Expression (.binary tier) ts e es := by
  have product : Expression (.binary .product) ts e es := .tighter rfl (.tighter (l := .unary) rfl h)
  have sum : Expression (.binary .sum) ts e es := .tighter rfl product
  have comparison : Expression (.binary .comparison) ts e es := .tighter rfl sum
  have equality : Expression (.binary .equality) ts e es := .tighter rfl comparison
  have conjunction : Expression (.binary .conjunction) ts e es := .tighter rfl equality
  cases tier with
  | disjunction => exact .tighter rfl conjunction
  | _ => assumption

theorem assignment_of_name (lexeme : String) :
    Expression .assignment [name lexeme] (.name (name lexeme)) [] :=
  .tighter rfl (binary_of_call (.tighter rfl (.name rfl)) .disjunction)

/-- Of `k + 1` arguments after `count` others, those after the 255th of all are one too many. -/
theorem items_arguments (k count : Nat) :
    Items (Expression .assignment) .tooManyArguments count (arguments k)
      (List.replicate (k + 1) (.name (name "x")))
      (List.replicate (k + 1 - (255 - count)) ⟨name "x", .tooManyArguments⟩) := by
  induction k generalizing count with
  | zero =>
    have last : Items (Expression .assignment) .tooManyArguments count [name "x"] _ _ :=
      .last (assignment_of_name "x")
    by_cases h : 255 ≤ count
    · simpa [surplus, h, arguments, Nat.sub_eq_zero_of_le h] using last
    · have hnone : 1 - (255 - count) = 0 := by omega
      simpa [surplus, h, arguments, hnone] using last
  | succ k ih =>
    have more : Items (Expression .assignment) .tooManyArguments count
        ([name "x"] ++ token .comma "," :: arguments k) _ _ :=
      .more (assignment_of_name "x") rfl (ih (count + 1))
    by_cases h : 255 ≤ count
    · have hall : 255 - (count + 1) = 0 := by omega
      simpa [surplus, h, arguments, Nat.sub_eq_zero_of_le h, hall, List.replicate_succ] using more
    · have hsame : k + 1 + 1 - (255 - count) = k + 1 - (255 - (count + 1)) := by omega
      simpa [surplus, h, arguments, hsame, List.replicate_succ] using more

theorem expression_call : Expression .call call tree [⟨name "x", .tooManyArguments⟩] :=
  .call (.tighter rfl (.name rfl)) rfl (.items (items_arguments 255 0)) rfl

theorem declarations_tokens :
    Sequence Declaration tokens [.expression tree]
      [⟨name "x", .tooManyArguments⟩, ⟨token .equal "=", .invalidTarget⟩] := by
  have hassign : Expression .assignment (call ++ token .equal "=" :: [name "y"]) tree _ :=
    .assignOther (binary_of_call expression_call .disjunction) rfl rfl (assignment_of_name "y")
  have hstatement : Declaration tokens (.expression tree) _ := .statement (.expression hassign rfl)
  have hprogram := Sequence.cons hstatement .nil
  rw [List.append_nil] at hprogram
  exact hprogram

end Crowded

/-- The 256th argument is complained of, and then the assignment; the tree is that of the call, with all its
arguments. -/
theorem crowded_parse :
    parse Crowded.tokens =
      ⟨[.expression Crowded.tree],
        [⟨Crowded.name "x", .tooManyArguments⟩, ⟨Crowded.token .equal "=", .invalidTarget⟩]⟩ := by
  have heof : ∀ t ∈ Crowded.tokens, t.kind ≠ .eof := by decide +kernel
  refine (parse_of_complaints ?_).1
  rw [List.takeWhile_eq_self_iff.2 (by simpa using heof)]
  exact Crowded.declarations_tokens

end LoxLang
