import LoxLang.Proofs.Parse.Whole
import LoxLang.Proofs.Scan.Kinds

/-!
# Tokens after a program that is in order

No construct looks past its end, except that a conditional looks for an `else`. So whatever comes after a
program that draws no complaint is parsed as if it came first, also where it is no program and where
the parser passes over some of it.

Main statement: `parse_append_of_errors_eq_nil`.
-/

namespace LoxLang

open Grammar

namespace Parse

variable {ts : List Token} {eof : Token}

/-- The answer for some tokens is what is parsed of them and the end. -/
theorem declarations_eq (hts : ∀ t ∈ ts, t.kind ≠ .eof) (heof : eof.kind = .eof) :
    declarations eof ts =
      ⟨some (parse (ts ++ [eof])).statements, [], (parse (ts ++ [eof])).errors⟩ := by
  have hisEof : ∀ t ∈ ts, t.isEof = false := by
    intro t ht
    simpa [Token.isEof] using hts t ht
  obtain ⟨ss, es, h⟩ := exists_declarations (beq_iff_eq.2 heof) hisEof
  have hparse : parse (ts ++ [eof]) = ⟨ss, es⟩ := by
    have hread : declarations (ending (ts ++ [eof])) (body (ts ++ [eof])) = ⟨some ss, [], es⟩ := by
      rw [ending_append_end hts heof, body_append_end hts heof, h]
    exact parse_of_declarations hread
  rw [hparse, h]

end Parse

/-- If tokens before an end are parsed without complaint, and others that do not begin with an `else` are put
between them and the end, then these are parsed as if they came first: their statements come after
those of the tokens before them, and the errors are theirs. -/
theorem parse_append_of_errors_eq_nil {before after : List Token} {eof : Token}
    (hbefore : ∀ t ∈ before, t.kind ≠ .eof) (hafter : ∀ t ∈ after, t.kind ≠ .eof)
    (heof : eof.kind = .eof) (hfine : (parse (before ++ [eof])).errors = [])
    (helse : ∀ t ∈ after.head?, t.kind ≠ .kwElse) :
    (parse (before ++ after ++ [eof])).statements =
        (parse (before ++ [eof])).statements ++ (parse (after ++ [eof])).statements ∧
      (parse (before ++ after ++ [eof])).errors = (parse (after ++ [eof])).errors := by
  have hprogram := Parse.program_of_parse hfine
  rw [Parse.body_append_end hbefore heof] at hprogram
  have hboth : ∀ t ∈ before ++ after, t.kind ≠ .eof := by
    intro t ht
    rcases List.mem_append.1 ht with ht | ht
    · exact hbefore t ht
    · exact hafter t ht
  have hisEof : ∀ t ∈ after, t.isEof = false := by
    intro t ht
    simpa [Token.isEof] using hafter t ht
  have hread := Parse.declarations_append (beq_iff_eq.2 heof) hisEof hprogram helse
  rw [Parse.declarations_eq hboth heof, Parse.declarations_eq hafter heof] at hread
  simp only [Parse.Reply.following, Option.map_some, List.nil_append, Parse.Reply.mk.injEq,
    Option.some.injEq] at hread
  exact ⟨hread.1, hread.2.2⟩

/-- A conditional that would take an `else`, and a function. -/
def inOrder : List Token := Token.ofText "if (a) b = 1; fun f(c) \x7b return c; \x7d".toList

/-- Errors that are passed over, with a declaration and an `else` among them, and a statement without its
end. -/
def outOfOrder : List Token := Token.ofText ") d; else var e = 2; fun print e".toList

/-- After `inOrder`, the four errors of `outOfOrder` and the declaration between them are what they are
without it. -/
theorem inOrder_outOfOrder :
    let eof := Token.endOf []
    (parse (inOrder ++ [eof])).errors = [] ∧ (parse (outOfOrder ++ [eof])).errors.length = 4 ∧
      (parse (inOrder ++ outOfOrder ++ [eof])).statements =
        (parse (inOrder ++ [eof])).statements ++ (parse (outOfOrder ++ [eof])).statements ∧
      (parse (inOrder ++ outOfOrder ++ [eof])).errors = (parse (outOfOrder ++ [eof])).errors := by
  intro eof
  have hfine : (parse (inOrder ++ [eof])).errors.isEmpty = true := by decide +kernel
  have hfine := List.isEmpty_iff.1 hfine
  have herrors : (parse (outOfOrder ++ [eof])).errors.length = 4 := by decide +kernel
  exact ⟨hfine, herrors, parse_append_of_errors_eq_nil (by decide +kernel) (by decide +kernel) rfl hfine
    (by decide +kernel)⟩

end LoxLang
