import LoxLang.Proofs.Scan.Lexer

/-!
# The line counters of the scanner

The scanner counts lines in two places: it adds a line feed to the line of the next character when it has
read one between tokens or in a string, and it sets the line of the last character whenever it reads. In
every state, whatever it is in the middle of, the first is one more than the line feeds in what was
read and the second one more than those in front of the last character read.

Main statements: `Counted.step`, what one step keeps, `counted_of_reached`, what all of them keep, and
`endOf_line`, the line of the end token.
-/

namespace LoxLang

open Token

namespace Lexer

/-- The states that a scanner of a source text gets into. -/
inductive Reached (source : List Char) : State → Lexer → Prop
  | start : Reached source .default (start source)
  | step {state next : State} {l l' : Lexer} (h : Reached source state l)
      (hstep : step state l = (some next, l')) : Reached source next l'

/-- Both counters are right for the part of a source text that was read. -/
def Counted (source : List Char) (l : Lexer) : Prop :=
  ∃ read, read ++ l.input = source ∧ l.line = 1 + newlines read ∧
    l.lastLine = 1 + newlines read.dropLast

section Counted

variable {source : List Char} {l : Lexer}

/-! ### What one step keeps -/

theorem counted_start (source : List Char) : Counted source (start source) := ⟨[], rfl, rfl, rfl⟩

theorem Counted.past (h : Counted source l) {text rest : List Char} (hinput : l.input = text ++ rest) :
    Counted source (l.past text rest) := by
  obtain ⟨read, hread, hline, hlast⟩ := h
  refine ⟨read ++ text, by rw [input_past, List.append_assoc, ← hinput, hread], ?_, ?_⟩
  · rw [newlines_append, ← Nat.add_assoc, ← hline]
    rfl
  · rcases List.eq_nil_or_concat text with rfl | ⟨text, c, rfl⟩
    · simpa [Lexer.past] using hlast
    · simp [Lexer.past, ← List.append_assoc, newlines_append, hline, Nat.add_assoc]

theorem Counted.reset (h : Counted source l) : Counted source l.reset := h

theorem Counted.emit (h : Counted source l) {kind : Token.Kind} {literal : Value} :
    Counted source (l.emit kind literal) := h

theorem Counted.report (h : Counted source l) {problem : LexicalProblem} :
    Counted source (l.report problem) := h

theorem Counted.next (h : Counted source l) (hc : l.peek ≠ some '\n') : Counted source l.next := by
  cases hinput : l.input with
  | nil =>
    rw [Lexer.next, hinput]
    exact h
  | cons c cs =>
    have hne : c ≠ '\n' := by simpa [peek, hinput] using hc
    rw [next_eq_past hinput hne]
    exact h.past hinput

theorem Counted.accept (h : Counted source l) {c : Char} (hc : c ≠ '\n') :
    Counted source (l.accept c).2 := by
  unfold Lexer.accept
  split
  · next hpeek => exact h.next (by simpa [hpeek] using hc)
  · exact h

theorem Counted.acceptWhile (h : Counted source l) {p : Char → Bool} (hp : p '\n' = false) :
    Counted source (l.acceptWhile p) := by
  rw [acceptWhile_eq_past hp]
  exact h.past (List.takeWhile_append_dropWhile).symm

theorem Counted.acceptQuoted (h : Counted source l) : Counted source l.acceptQuoted := by
  rw [acceptQuoted_eq_past]
  exact h.past (List.takeWhile_append_dropWhile).symm

theorem Counted.acceptFraction (h : Counted source l) : Counted source l.acceptFraction := by
  rw [← past_nil (l := l) rfl, acceptFraction_past]
  exact h.past (cutFraction_append [] l.input).symm

theorem Counted.finishString (h : Counted source l) : Counted source l.finishString := by
  have hquoted := h.acceptQuoted
  have hpeek : l.acceptQuoted.peek ≠ some '\n' := by
    rw [acceptQuoted_eq_past, peek, input_past]
    intro hhead
    have hnot := List.head?_dropWhile_not (· != '"') l.input
    rw [hhead] at hnot
    simp at hnot
  unfold Lexer.finishString closeString
  split
  · exact hquoted.report
  · exact (hquoted.next hpeek).emit

theorem Counted.emitNumber (h : Counted source l) (value : Option Float) :
    Counted source (l.emitNumber value) := by
  cases value with
  | none => exact h.report
  | some x => exact h.emit

theorem Counted.finishNumber (h : Counted source l) : Counted source l.finishNumber :=
  (h.acceptWhile (by decide)).acceptFraction.emitNumber _

theorem Counted.finishWord (h : Counted source l) : Counted source l.finishWord :=
  (h.acceptWhile (by decide)).emit

theorem Counted.finishSymbol (h : Counted source l) (c : Char) : Counted source (l.finishSymbol c) := by
  have haccept := h.accept (by decide : '=' ≠ '\n')
  unfold Lexer.finishSymbol
  split
  · exact h.emit
  · split <;> next heq => rw [heq] at haccept; exact haccept.emit
  · exact h.report

theorem Counted.dispatch (h : Counted source l) {c : Char} (hc : c ≠ '\n') :
    Counted source (l.dispatch c).2 := by
  have haccept := h.accept (by decide : '/' ≠ '\n')
  unfold Lexer.dispatch
  rw [if_neg hc]
  split
  · exact h
  split
  · split <;> next heq => rw [heq] at haccept; exact haccept
  repeat
    split
    · exact h
  exact h.finishSymbol c

/-- No step puts a counter out. -/
theorem Counted.step (h : Counted source l) (state : State) : Counted source (Lexer.step state l).2 := by
  cases state with
  | default =>
    rw [Lexer.step]
    split
    · exact h
    · next c hpeek =>
      by_cases hc : c = '\n'
      · -- a line feed is read and counted in the same step
        subst hc
        obtain ⟨cs, hinput⟩ := List.head?_eq_some_iff.1 hpeek
        have hpast := past_singleton hinput
        rw [if_pos rfl] at hpast
        have hdispatch : (l.reset.next.dispatch '\n').2 = l.reset.next.newline := rfl
        rw [hdispatch, hpast]
        exact h.reset.past hinput
      · exact (h.reset.next (by simpa [hpeek] using hc)).dispatch hc
  | lineComment => exact h.acceptWhile (by decide)
  | string => exact h.finishString
  | number => exact h.finishNumber
  | word => exact h.finishWord

/-! ### What a run keeps -/

/-- In every state that is reached both counters are right. -/
theorem counted_of_reached {state : State} (h : Reached source state l) : Counted source l := by
  induction h with
  | start => exact counted_start source
  | @step state _ l _ _ hstep ih =>
    have hcounted := ih.step state
    rwa [hstep] at hcounted

/-- A run ends between two tokens, where nothing is left to read. -/
theorem Reached.run {state : State} (h : Reached source state l) :
    ∃ l', Reached source .default l' ∧ l'.input = [] ∧ Lexer.run state l = l'.reset.emitEnd := by
  fun_induction Lexer.run state l with
  | case1 state l next l' hstep ih => exact ih (h.step hstep)
  | case2 state l l' hstep =>
    cases state with
    | default =>
      rw [Lexer.step] at hstep
      split at hstep
      · next hpeek =>
        cases hstep
        exact ⟨l, h, List.head?_eq_none_iff.1 hpeek, rfl⟩
      · cases hstep
    | lineComment | string | number | word => cases hstep

end Counted

end Lexer

/-- The end token is on the line of the last character. -/
theorem Token.endOf_line (source : List Char) :
    (endOf source).line = ((1 + newlines source.dropLast : Nat) : Int) := by
  obtain ⟨l, hreached, hinput, hrun⟩ := (@Lexer.Reached.start source).run
  obtain ⟨read, hread, -, hlast⟩ := Lexer.counted_of_reached hreached
  rw [hinput, List.append_nil] at hread
  rw [endOf, hrun, ← hread, ← hlast]
  rfl

end LoxLang
