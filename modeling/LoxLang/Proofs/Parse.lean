import LoxLang.Proofs.Parse.Complete
import LoxLang.Proofs.Parse.Sound

/-!
# The parser and the grammar

Main statement: `parse_iff_program`, that the parser reports nothing and answers with a program exactly
if the tokens before the end derive this program.
-/

namespace LoxLang

open Grammar

namespace Parse

theorem ending_kind (tokens : List Token) : (ending tokens).kind = .eof := by
  rw [ending]
  cases h : tokens.find? (·.isEof) with
  | none => rfl
  | some t =>
    have ht : t.isEof = true := by simpa using List.find?_some h
    exact eq_of_beq ht

theorem body_length (tokens : List Token) : (body tokens).length ≤ tokens.length :=
  (List.takeWhile_sublist _).length_le

/-- If nothing is reported, the tokens before the end derive the answer. -/
theorem program_of_parse {tokens : List Token} (h : (parse tokens).errors = []) :
    Program (body tokens) (parse tokens).statements := by
  have hlen := body_length tokens
  obtain ⟨us, ss, rest, heq, hts, rfl, hss⟩ := program_accepts (n := allowance tokens)
    (allowance tokens) (body tokens) (by unfold allowance; omega) (by unfold allowance; omega)
    (ending_kind tokens) h
  rw [List.append_nil] at hts
  rw [hts]
  simpa [parse, heq] using hss

/-- What the tokens before the end derive is the answer, and nothing is reported. -/
theorem parse_of_program {tokens : List Token} {program : List Stmt}
    (h : Program (body tokens) program) : parse tokens = ⟨program, []⟩ := by
  have hlen := body_length tokens
  have hnext : (next (ending tokens) []).kind ≠ .kwElse := by
    show (ending tokens).kind ≠ _
    rw [ending_kind]
    decide
  obtain ⟨k, hk, heq⟩ := program_reads h hnext (m := allowance tokens) (n := allowance tokens)
    (by unfold allowance; omega) (by unfold allowance; omega)
  obtain ⟨k, rfl⟩ : ∃ m, k = m + 1 := Nat.exists_eq_add_one.2 (by unfold allowance at hk; omega)
  rw [List.append_nil] at heq
  simp only [parse, heq]
  simp [Reply.following, Parse.program, atEnd_bind, run_pure]

end Parse

/-- The parser accepts exactly the grammar and builds the tree of the derivation: a program is derived
by the tokens before the first end token if and only if parsing reports no error and answers with
this program. -/
theorem parse_iff_program (tokens : List Token) (program : List Stmt) :
    Program (tokens.takeWhile fun t => t.kind ≠ .eof) program ↔
      (parse tokens).errors = [] ∧ (parse tokens).statements = program := by
  have hbody : (tokens.takeWhile fun t => t.kind ≠ .eof) = Parse.body tokens := by
    unfold Parse.body Token.isEof
    congr
    funext t
    cases h : t.kind == .eof <;> simpa using h
  rw [hbody]
  constructor
  · intro h
    rw [Parse.parse_of_program h]
    exact ⟨rfl, rfl⟩
  · rintro ⟨herrors, rfl⟩
    exact Parse.program_of_parse herrors

end LoxLang
