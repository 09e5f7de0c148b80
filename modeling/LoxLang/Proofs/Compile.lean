import LoxLang.Proofs.Parse
import LoxLang.Proofs.Parse.Alike
import LoxLang.Proofs.Scan.Join
import LoxLang.Session

/-!
# Sources that compile

A source compiles if its pieces are all in order, its tokens derive a program and nothing in the program
is misplaced. In the tree of such a source every token has a kind for its part, the keywords have
their own texts, and no name has the text of `this` or `super`. Two such sources, one below the
other, compile to the one program and then the other.

Main statements: `compile_eq_ok_iff`, `parse_tokens`, `compile_proper` and `compile_newline`.
-/

namespace LoxLang

open Grammar
open List (Forall₂)

/-- What it takes to compile. -/
theorem compile_eq_ok_iff {source : List Char} {program : List Stmt} :
    compile source = .ok program ↔
      (scan source).errors = [] ∧ Program (Token.ofText source) program ∧
        placementErrors program = [] := by
  rw [← body_scan]
  rw [compile]
  constructor
  · intro h
    dsimp only at h
    split at h
    · next herrors =>
      simp only [List.isEmpty_iff, List.append_eq_nil_iff, List.map_eq_nil_iff] at herrors
      split at h
      · next hplaced =>
        cases h
        exact ⟨herrors.1, Parse.program_of_parse herrors.2, by simpa using hplaced⟩
      · cases h
    · cases h
  · rintro ⟨herrors, hprogram, hplaced⟩
    simp [herrors, Parse.parse_of_program hprogram, hplaced]

theorem exists_program {source : List Char} (h : (compile source).isOk = true) :
    ∃ program, compile source = .ok program := by
  cases hc : compile source with
  | ok program => exact ⟨program, rfl⟩
  | error errors => simp [hc, Except.isOk, Except.toBool] at h

/-- Tokens that are the same, with the right text and of a kind for their part. -/
def Token.Proper : Part → Token → Token → Prop := Placed fun t t' => t = t' ∧ t.Spelled

/-- Every source ends with an end. -/
theorem exists_end (source : List Char) : ∃ t ∈ (scan source).tokens, t.isEof = true :=
  ⟨Token.endOf source, by simp [scan_tokens], rfl⟩

/-- What holds of all tokens of a source holds of those in its tree, each of which is of a kind for its part,
and of those that the parser complains of. -/
theorem parse_tokens {P : Token → Prop} {source : List Char} (hP : ∀ t ∈ (scan source).tokens, P t) :
    Forall₂ (Stmt.Alike (Placed fun t t' => t = t' ∧ P t)) (parse (scan source).tokens).statements
        (parse (scan source).tokens).statements ∧
      ∀ e ∈ (parse (scan source).tokens).errors, P e.token := by
  have hR : Indistinct fun t t' => t = t' ∧ P t := ⟨fun h => by rw [h.1], fun h => by rw [h.1]⟩
  have htokens : Forall₂ (fun t t' => t = t' ∧ P t) (scan source).tokens (scan source).tokens :=
    List.forall₂_same.2 fun t ht => ⟨rfl, hP t ht⟩
  obtain ⟨halike, hcomplaints⟩ :=
    parse_alike hR htokens (Parse.ending_alike hR htokens (exists_end source))
  exact ⟨halike, fun e he => (List.forall₂_same.1 hcomplaints e he).1.2⟩

theorem statements_of_compile {source : List Char} {program : List Stmt} (h : compile source = .ok program) :
    (parse (scan source).tokens).statements = program := by
  obtain ⟨-, hprogram, -⟩ := compile_eq_ok_iff.1 h
  rw [← body_scan] at hprogram
  rw [Parse.parse_of_program hprogram]

/-- A source that compiles has a tree of proper tokens, and nothing in it is misplaced. -/
theorem compile_proper {source : List Char} {program : List Stmt} (h : compile source = .ok program) :
    placementErrors program = [] ∧ Forall₂ (Stmt.Alike Token.Proper) program program := by
  refine ⟨(compile_eq_ok_iff.1 h).2.2, ?_⟩
  rw [← statements_of_compile h]
  exact (parse_tokens fun t => scan_spelled).1

/-! ### One source below another -/

/-- The second token is the first one so many lines further down. -/
def Token.Later (d : Int) (_ : Part) (t t' : Token) : Prop := t' = t.later d

theorem Token.forall₂_later (d : Int) (ts : List Token) :
    Forall₂ (fun t t' => t' = Token.later d t) ts (ts.map (.later d)) := by
  rw [List.forall₂_map_right_iff]
  exact List.forall₂_same.2 fun _ _ => rfl

theorem body_later (d : Int) (ts : List Token) :
    Parse.body (ts.map (.later d)) = (Parse.body ts).map (.later d) := by
  rw [Parse.body, List.takeWhile_map]
  rfl

theorem sequence_append {α : Type} {item : List Token → α → List SyntaxError → Prop}
    {ts us : List Token} {as bs : List α} {es es' : List SyntaxError} :
    Sequence item ts as es → Sequence item us bs es' →
      Sequence item (ts ++ us) (as ++ bs) (es ++ es')
  | .nil, h => h
  | .cons first others, h => by
    simpa only [List.append_assoc, List.cons_append] using .cons first (sequence_append others h)

theorem stmtListErrors_append (context : Placement.Context) (ss us : List Stmt) :
    Placement.stmtListErrors context (ss ++ us) =
      Placement.stmtListErrors context ss ++ Placement.stmtListErrors context us := by
  induction ss with
  | nil => rfl
  | cons s ss ih => simp [Placement.stmtListErrors, ih]

/-- Two sources that compile do so together, the second one below the first. -/
theorem compile_newline {a b : List Char} {pa pb : List Stmt} (ha : compile a = .ok pa)
    (hb : compile b = .ok pb) :
    ∃ pb', compile (a ++ '\n' :: b) = .ok (pa ++ pb') ∧
      Forall₂ (Stmt.Alike (Token.Later ((Token.newlines a + 1 : Nat) : Int))) pb pb' := by
  obtain ⟨haerrors, haprogram, haplaced⟩ := compile_eq_ok_iff.1 ha
  obtain ⟨hberrors, hbprogram, hbplaced⟩ := compile_eq_ok_iff.1 hb
  obtain ⟨herrors, htokens⟩ := scan_newline haerrors hberrors
  have hR : Indistinct fun t t' => t' = Token.later ((Token.newlines a + 1 : Nat) : Int) t :=
    ⟨fun h => by rw [h]; rfl, fun h => by rw [h]; rfl⟩
  have hmoved := Token.forall₂_later ((Token.newlines a + 1 : Nat) : Int) (scan b).tokens
  obtain ⟨halike, hcomplaints⟩ := parse_alike hR hmoved (Parse.ending_alike hR hmoved (exists_end b))
  rw [← body_scan] at hbprogram
  rw [Parse.parse_of_program hbprogram] at halike hcomplaints
  have hprogram := Parse.program_of_parse (List.forall₂_nil_left_iff.1 hcomplaints)
  rw [body_later, body_scan] at hprogram
  have hlater := Stmt.Alike.mono_list (S := Token.Later ((Token.newlines a + 1 : Nat) : Int))
    (fun h => h.1) halike
  refine ⟨_, compile_eq_ok_iff.2 ⟨herrors, ?_, ?_⟩, hlater⟩
  · rw [htokens]
    exact sequence_append haprogram hprogram
  · have hmisplaced := Stmt.Alike.listErrors (fun h => by rw [h]; rfl) {} hlater
    rw [show Placement.stmtListErrors {} pb = [] from hbplaced, List.forall₂_nil_left_iff] at hmisplaced
    exact (stmtListErrors_append _ _ _).trans (List.append_eq_nil_iff.2 ⟨haplaced, hmisplaced⟩)

end LoxLang
