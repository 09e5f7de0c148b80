import LoxLang.Proofs.Parse.Failure
import LoxLang.Proofs.Parse.Whole
import LoxLang.Proofs.Scan.Kinds

/-!
# Reading on after errors

A declaration that fails, at the top or in any block or body, draws one error of its own, at the token where
it got stuck. Reading goes on at the first boundary between statements from there on, and behind the token
at which the declaration began.

Main statement: `recovery_resumes_at_boundary`.
-/

namespace LoxLang

open Descent Parse

namespace Descent

/-- A call for a declaration that begins at `s` gets stuck at `t` and lets reading go on at `u`. Within it
these declarations have failed, and these errors come before its own. -/
structure Resumes (tokens : List Token) (n : Nat) (s t u : State) (fs : List Failure) (es : List SyntaxError)
    (own : SyntaxError) : Prop where
  stuck : declarationWith (m := Descent) n (statement n) (declaration n) (slice tokens) s = .failed t
  resumed : declaration (m := Descent) (n + 1) (slice tokens) s = .done none u
  /-- over the tokens left the same are left -/
  rest : declaration (m := Parser) (n + 1) (ending tokens) ((body tokens).drop s.cursor) =
    ⟨some none, (body tokens).drop u.cursor, es ++ [own]⟩
  /-- reading goes on at the first boundary from where the call got stuck, though not where it began -/
  least : IsLeast {i | max t.cursor (s.cursor + 1) ≤ i ∧ Boundary (slice tokens) i} u.cursor
  errors : u.errors = s.errors ++ (es ++ [own])
  own_stuck : own.StuckAt (slice tokens) t.cursor
  owned : Owned (slice tokens) es fs
  failures_within : t.failures = s.failures ++ fs
  failures : u.failures = s.failures ++ (fs ++ [⟨s.cursor, t.cursor, u.cursor⟩])
  recovers : ∀ f ∈ fs, f.Recovers (slice tokens) ∧ s.cursor ≤ f.start ∧ f.resumed ≤ t.cursor

/-- A list of tokens is parsed, and at the end each error that makes a declaration fail is that of a
failure. -/
structure Accounted (tokens : List Token) (t : State) : Prop where
  parsed : program (m := Descent) (declaration (allowance tokens)) (allowance tokens) (slice tokens) .start =
    .done (parse tokens).statements t
  errors : t.errors = (parse tokens).errors
  owned : Owned (slice tokens) (parse tokens).errors t.failures
  recovers : ∀ f ∈ t.failures, f.Recovers (slice tokens)

/-- Recovery always comes to an end, at the first boundary, and reports nothing. -/
theorem exists_resumed {T : Tape} {n : Nat} {s t : State} (hs : s.cursor < firstEnd T.slice)
    (hle : s.cursor ≤ t.cursor) (hend : t.cursor ≤ firstEnd T.slice) (hn : firstEnd T.slice - s.cursor < n) :
    ∃ u, synchronize n s.cursor T.slice t = .done () u ∧
      IsLeast {i | max t.cursor (s.cursor + 1) ≤ i ∧ Boundary T.slice i} u.cursor ∧
      u.cursor ≤ firstEnd T.slice ∧ Quiet t u := by
  have hresyncs := synchronize_resyncs n hs hle hend
  rw [T.firstEnd_slice] at hs hend hn
  have hat : T.At t (T.before.drop t.cursor) := ⟨hend, rfl⟩
  have hstart : T.At s (T.before[s.cursor] :: T.before.drop (s.cursor + 1)) :=
    ⟨Nat.le_of_lt hs, List.drop_eq_getElem_cons hs⟩
  obtain ⟨u, hu, -⟩ := synchronize_eq (n := n) hstart hat hle (by rw [List.length_drop]; omega)
  rw [hu] at hresyncs
  cases hresyncs with
  | done hleast hend hquiet => exact ⟨u, hu, hleast, hend, hquiet⟩

/-- A call for a declaration that fails comes back, and one error and one failure more have come up. -/
theorem declaration_of_failed {T : Tape} {n : Nat} {s v : State} (hs : s.cursor < firstEnd T.slice)
    (hn : firstEnd T.slice - s.cursor < n)
    (h : declarationWith (m := Descent) n (statement n) (declaration n) T.slice s = .failed v) :
    ∃ t u fs es own, v = { t with errors := t.errors ++ [own] } ∧ Passes T.slice s t es fs ∧
      own.StuckAt T.slice t.cursor ∧
      IsLeast {i | max t.cursor (s.cursor + 1) ≤ i ∧ Boundary T.slice i} u.cursor ∧
      declaration (m := Descent) (n + 1) T.slice s = .done none u ∧
      Passes T.slice s u (es ++ [own]) (fs ++ [⟨s.cursor, t.cursor, u.cursor⟩]) := by
  obtain ⟨hnested, hinner⟩ : Faithful T.slice (statement n) ∧ FaithfulBefore T.slice (declaration n) :=
    faithful_statement_declaration n
  have haccounts := (faithful_declarationWith hnested hinner n).accounts (Nat.le_of_lt hs)
  rw [h] at haccounts
  cases haccounts with
  | @failed t es own fs hpasses hown =>
    let v := { t with errors := t.errors ++ [own] }
    obtain ⟨u, hu, hleast, hend, hquiet⟩ := exists_resumed (t := v) hs hpasses.le hpasses.le_end hn
    let stop := (u.record (.fails ⟨s.cursor, t.cursor, u.cursor⟩)).record (.declares s.cursor u.cursor)
    have hcall : declaration (m := Descent) (n + 1) T.slice s = .done none stop :=
      recovering_of_failed (t := v) h hu
    have hall := hpasses.failure hs hown hend hleast hquiet
    have hstop : Passes T.slice s stop _ _ := hall.record rfl
    exact ⟨t, stop, fs, es, own, rfl, hpasses, hown, hleast, hcall, hstop⟩

/-- What is found over the tokens left not to be a declaration is where the cursor gets stuck. -/
theorem exists_failed {T : Tape} {n : Nat} {s : State} (hs : s.cursor < firstEnd T.slice)
    (hn : 2 * (firstEnd T.slice - s.cursor) + 2 ≤ n)
    (h : (declarationWith (m := Parser) n (statement n) (declaration n) T.eof
      (T.before.drop s.cursor)).result = none) :
    ∃ t, declarationWith (m := Descent) n (statement n) (declaration n) T.slice s = .failed t := by
  rw [T.firstEnd_slice] at hs hn
  have hat : T.At s (T.before.drop s.cursor) := ⟨Nat.le_of_lt hs, rfl⟩
  have hlen := hat.length
  obtain ⟨hstatement, hdeclaration⟩ := agrees_statement_declaration (T := T) n
  have hagrees : Agrees T (T.before.drop s.cursor).length 1
      (declarationWith n (statement n) (declaration n)) (declarationWith n (statement n) (declaration n)) :=
    agrees_declarationWith (hstatement (by omega) (by omega))
      (fun _ => hdeclaration (by omega) (by omega)) (by omega) (by omega)
  have hmirrors := hagrees.mirrors hat (Nat.le_refl _)
  generalize declarationWith (m := Parser) n (statement n) (declaration n) T.eof (T.before.drop s.cursor) =
    reply at h hmirrors
  generalize declarationWith (m := Descent) n (statement n) (declaration n) T.slice s = answer at hmirrors
  cases hmirrors with
  | done => cases h
  | failed => exact ⟨_, rfl⟩

/-- Over the tokens left a call for a declaration leaves those from the cursor on. -/
theorem reply_of_done {T : Tape} {n : Nat} {s u : State} {r : Option Stmt} {es : List SyntaxError}
    (hs : s.cursor < firstEnd T.slice) (hn : 2 * (firstEnd T.slice - s.cursor) + 2 ≤ n)
    (h : declaration (m := Descent) (n + 1) T.slice s = .done r u) (hes : u.errors = s.errors ++ es) :
    declaration (m := Parser) (n + 1) T.eof (T.before.drop s.cursor) =
      ⟨some r, T.before.drop u.cursor, es⟩ := by
  rw [T.firstEnd_slice] at hs hn
  have hat : T.At s (T.before[s.cursor] :: T.before.drop (s.cursor + 1)) :=
    ⟨Nat.le_of_lt hs, List.drop_eq_getElem_cons hs⟩
  have hlen := hat.length
  have hagrees : AgreesBefore T (T.before.length - s.cursor) 1 T.before[s.cursor]
      (declaration (n + 1)) (declaration (n + 1)) :=
    (agrees_statement_declaration (n + 1)).2 (by omega) (by omega) _
  have hmirrors := hagrees.mirrors hat (by omega)
  rw [h, ← hat.rest] at hmirrors
  generalize declaration (m := Parser) (n + 1) T.eof (T.before.drop s.cursor) = reply at hmirrors
  cases hmirrors with
  | @done rest errors _ _ hleads _ =>
    rw [← hleads.at_rest.rest, List.append_cancel_left (hes.symm.trans hleads.errors)]

theorem exists_resumes {tokens : List Token} {n : Nat} {s : State} (hs : s.cursor < firstEnd (slice tokens))
    (hn : 2 * (firstEnd (slice tokens) - s.cursor) + 2 ≤ n)
    (h : (declarationWith (m := Parser) n (statement n) (declaration n) (ending tokens)
      ((body tokens).drop s.cursor)).result = none) :
    ∃ t u fs es own, Resumes tokens n s t u fs es own := by
  obtain ⟨T, hslice, hbefore, heof⟩ := exists_tape tokens
  rw [← hslice] at hs hn
  rw [← hbefore, ← heof] at h
  obtain ⟨v, hfailed⟩ := exists_failed hs hn h
  obtain ⟨t, u, fs, es, own, rfl, hpasses, hown, hleast, hcall, hall⟩ :=
    declaration_of_failed hs (by omega) hfailed
  have hrest := reply_of_done hs hn hcall hall.errors
  rw [hslice] at hfailed hcall hown hleast hpasses
  rw [hbefore, heof] at hrest
  exact ⟨_, u, fs, es, own, hfailed, hcall, hrest, hleast, hall.errors, hown, hpasses.own, hpasses.failures,
    hall.failures, hpasses.recovers⟩

theorem exists_accounted (tokens : List Token) : ∃ t, Accounted tokens t := by
  obtain ⟨T, hslice, hbefore, heof⟩ := exists_tape tokens
  have hlen : T.before.length ≤ tokens.length := hbefore ▸ body_length tokens
  have hallowed : 2 * T.before.length + 3 ≤ allowance tokens := by
    unfold allowance
    omega
  have hrounds : T.before.length < allowance tokens := by omega
  obtain ⟨ss, t, hreply, hdone⟩ := tape_answers T hallowed hallowed hrounds hrounds
  have hparse : parse tokens = ⟨ss, t.errors⟩ := by
    rw [parse, ← hbefore, ← heof, hreply]
    rfl
  have haccounts : Accounts (slice tokens) .start
      (program (m := Descent) (declaration (allowance tokens)) (allowance tokens) (slice tokens) .start) :=
    (faithful_program (faithful_statement_declaration _).2 _).accounts (Nat.zero_le _)
  rw [← hslice, hdone] at haccounts
  cases haccounts with
  | @done _ _ es fs h =>
    have herrors : t.errors = es := h.errors
    have hfailures : t.failures = fs := h.failures
    rw [hslice] at hdone h
    refine ⟨t, ?_, ?_, ?_, fun f hf => (h.recovers f (hfailures ▸ hf)).1⟩
    · rw [hparse]
      exact hdone
    · rw [hparse]
    · rw [hparse, herrors, hfailures]
      exact h.own

end Descent

/-- Panic mode resumes at the first boundary. Along any list of tokens, let a call for a declaration, with
rounds enough for the tokens left, begin before the end, wherever that is and whatever has been reported,
and let it fail. Over a cursor, it gets stuck somewhere and lets reading go on at the least index, not
before where it got stuck and behind where it began, that has an end token or a keyword that starts a
statement, or a semicolon before it. It reports one error of its own, at the token where it got stuck: all
other errors within it that make declarations fail are those of the declarations that have failed within
it, one for each. Over the tokens left, it leaves those from that index on and reports the same errors. So
it is in parsing the whole list, where all failures are recorded: each began before the end and resumed at
the first boundary, and the errors that make declarations fail are theirs, one for each, in their order.
-/
theorem recovery_resumes_at_boundary (tokens : List Token) :
    (∀ n s, s.cursor < firstEnd (slice tokens) → 2 * (firstEnd (slice tokens) - s.cursor) + 2 ≤ n →
      (declarationWith (m := Parser) n (statement n) (declaration n) (ending tokens)
        ((body tokens).drop s.cursor)).result = none →
      ∃ t u fs es own, Resumes tokens n s t u fs es own) ∧
    ∃ t, Accounted tokens t :=
  ⟨fun _ _ hs hn h => exists_resumes hs hn h, exists_accounted tokens⟩

/-- The declarations that have failed by the time a parser ends. -/
def Descent.Answer.failures : Answer α → List Failure
  | .done _ s => s.failures
  | .failed s => s.failures
  | .crashed => []
  | .exhausted => []

/-- A block that is not closed, in which a variable has no name, a number is assigned to, and nothing is
printed. -/
def openBlock : List Token := Token.ofText "\x7b var; 1 = 2; print".toList

/-- The block fails at the end, after the two failures in it, of which the first resumes behind the semicolon.
It has one error of its own besides theirs, and the assignment has the fourth. -/
theorem openBlock_resumes :
    (0 < firstEnd (slice openBlock) ∧ 2 * (firstEnd (slice openBlock) - 0) + 2 ≤ 20 ∧
      (declarationWith (m := Parser) 20 (statement 20) (declaration 20) (ending openBlock)
        ((body openBlock).drop 0)).result = none) ∧
      (∃ t u es own, Resumes openBlock 20 .start t u [⟨1, 2, 3⟩, ⟨7, 8, 8⟩] es own) ∧
      ∃ t, Accounted openBlock t ∧ t.errors.length = 4 ∧
        t.failures = [⟨1, 2, 3⟩, ⟨7, 8, 8⟩, ⟨0, 8, 8⟩] := by
  obtain ⟨hcalls, v, hv⟩ := recovery_resumes_at_boundary openBlock
  have hstart : 0 < firstEnd (slice openBlock) := by decide +kernel
  have hrounds : 2 * (firstEnd (slice openBlock) - 0) + 2 ≤ 20 := by decide +kernel
  have hfails : (declarationWith (m := Parser) 20 (statement 20) (declaration 20) (ending openBlock)
      ((body openBlock).drop 0)).result.isNone = true := by
    decide +kernel
  have hfails := Option.isNone_iff_eq_none.1 hfails
  obtain ⟨t, u, fs, es, own, h⟩ := hcalls 20 .start hstart hrounds hfails
  have hnoted : (declaration (m := Descent) 21 (slice openBlock) .start).failures =
      [⟨1, 2, 3⟩, ⟨7, 8, 8⟩, ⟨0, 8, 8⟩] := by
    decide +kernel
  have hall : (program (m := Descent) (declaration (allowance openBlock)) (allowance openBlock)
      (slice openBlock) .start).failures = [⟨1, 2, 3⟩, ⟨7, 8, 8⟩, ⟨0, 8, 8⟩] := by
    decide +kernel
  have herrors : (parse openBlock).errors.length = 4 := by decide +kernel
  rw [h.resumed] at hnoted
  rw [hv.parsed] at hall
  have hfs : fs ++ [⟨0, t.cursor, u.cursor⟩] = [⟨1, 2, 3⟩, ⟨7, 8, 8⟩] ++ [⟨0, 8, 8⟩] :=
    h.failures.symm.trans hnoted
  obtain ⟨rfl, -⟩ := List.append_inj' hfs rfl
  exact ⟨⟨hstart, hrounds, hfails⟩, ⟨t, u, es, own, h⟩, v, hv, by rw [hv.errors, herrors], hall⟩

end LoxLang
