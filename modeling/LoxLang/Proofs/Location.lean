import LoxLang.Proofs.Placement
import LoxLang.Proofs.Refusal
import LoxLang.Proofs.Run.Alike
import LoxLang.Proofs.Run.Provenance
import LoxLang.Proofs.Scan.Lines
import LoxLang.Proofs.Trace

/-!
# Where diagnostics point

What is wrong with a source before it runs is said of its own tokens. A run may fail in a function of an
earlier source, so its error is at a token of some source of the session, and so are the calls in the
trace. No diagnostic is about the token that stands for a receiver where no source names it.

Main statement: `diagnostics_point_into_sources`.
-/

namespace LoxLang

open List (Forall₂)

/-- A token that is found in a source, on one of its lines. A line end at the very end begins no line. -/
structure Token.StandsIn (source : List Char) (t : Token) : Prop where
  mem : t ∈ (scan source).tokens
  line_pos : 1 ≤ t.line
  line_le : t.line ≤ 1 + Token.newlines source.dropLast

/-- A diagnostic of a source that is run after some others is at its tokens, before it runs, or at tokens
of any of them. -/
inductive Diagnostic.PointsInto (earlier : List (List Char)) (source : List Char) : Diagnostic → Prop where
  | lexical {line : Int} (h : 1 ≤ line) (h' : line ≤ 1 + Token.newlines source) :
      PointsInto earlier source (.lexical line message)
  | syntactic {t : Token} (h : t.StandsIn source) :
      PointsInto earlier source (.syntactic t.line place message)
  | semantic {t : Token} (h : t.StandsIn source) : PointsInto earlier source (.semantic t message)
  /-- active calls have the lines of the parentheses that close them -/
  | runtime {t : Token} {fs : List Frame} (h : ∃ origin ∈ source :: earlier, t.StandsIn origin)
      (trace : ∀ f ∈ fs, ∃ origin ∈ source :: earlier, ∃ paren : Token,
        paren.StandsIn origin ∧ paren.kind = .rightParen ∧ f.line = paren.line) :
      PointsInto earlier source (.runtime t message overflow fs)
  | several (h : ∀ d ∈ ds, PointsInto earlier source d) : PointsInto earlier source (.several ds)

/-! ### The lines of a source -/

section Lines

open Token Lexical

/-- Every token of a source is on one of its lines. -/
theorem Token.standsIn {source : List Char} {t : Token} (h : t ∈ (scan source).tokens) :
    t.StandsIn source := by
  have hlines : 1 ≤ t.line ∧ t.line ≤ 1 + newlines source.dropLast := by
    rw [scan_tokens, List.mem_append, List.mem_singleton] at h
    rcases h with h | rfl
    · obtain ⟨q, hq, -, hline⟩ := exists_mem_of_forall₂ (forall₂_tokenAt_ofText source) h
      have hle := (factors_iff_pieces.2 rfl).newlines_dropLast_le (List.mem_of_mem_filter hq)
      omega
    · rw [endOf_line]
      omega
  exact ⟨h, hlines.1, hlines.2⟩

theorem LexicalError.line_of_mem {source : List Char} {e : LexicalError} (h : e ∈ (scan source).errors) :
    1 ≤ e.line ∧ e.line ≤ 1 + newlines source := by
  obtain ⟨q, hq, -, hline⟩ := exists_mem_of_forall₂ (forall₂_errorAt_errors source) h
  have hle := (factors_iff_pieces.2 rfl).newlines_le (List.mem_of_mem_filter hq)
  omega

end Lines

/-! ### Before a source runs -/

section Refused

variable {earlier : List (List Char)} {source : List Char}

/-- All that is wrong with a source is said of its tokens. -/
theorem Flawed.pointsInto {errors : List Diagnostic} (h : Flawed source errors) :
    ∀ d ∈ errors, d.PointsInto earlier source := by
  obtain ⟨halike, hcomplaints⟩ :=
    parse_tokens fun t (ht : t ∈ (scan source).tokens) => Token.standsIn ht
  intro d hd
  cases h with
  | unread =>
    rcases List.mem_append.1 hd with hd | hd <;> obtain ⟨e, he, rfl⟩ := List.mem_map.1 hd
    · obtain ⟨hpos, hle⟩ := LexicalError.line_of_mem he
      exact .lexical hpos hle
    · exact .syntactic (hcomplaints e he)
  | misplaced =>
    obtain ⟨e, he, rfl⟩ := List.mem_map.1 hd
    have hmisplaced := Stmt.Alike.listErrors (fun h => by rw [h.1.1]) {} halike
    obtain ⟨⟨part, ⟨-, hstands⟩, -⟩, -⟩ := List.forall₂_same.1 hmisplaced e he
    exact .semantic hstands

end Refused

/-! ### What a run finds in the store -/

/-- The same token, which stands in one of some sources or for a receiver, and is of a kind for its part. -/
def Token.Here (sources : List (List Char)) (_ : Unit) : Part → Token → Token → Prop :=
  Grammar.Placed fun t t' => t = t' ∧ ((∃ origin ∈ sources, t.StandsIn origin) ∨ t = Token.receiver)

theorem Token.unseen_here (sources : List (List Char)) : Unseen (Token.Here sources) where
  kind h := by rw [h.1.1]
  lexeme h := by rw [h.1.1]
  receiver := ⟨(), .this, ⟨rfl, .inr rfl⟩, by decide⟩

theorem compile_here {sources : List (List Char)} {source : List Char} {program : List Stmt}
    (hsource : source ∈ sources) (h : compile source = .ok program) :
    Forall₂ (Stmt.Alike (Token.Here sources ())) program program := by
  rw [← statements_of_compile h]
  exact (parse_tokens fun t ht => .inl ⟨source, hsource, Token.standsIn ht⟩).1

namespace Session

/-- The sessions with some options that have run some sources, the last one first. -/
inductive HasRun (options : Option Options) : List (List Char) → Session → Prop where
  | start : HasRun options [] (start options freshStore)
  | run (before : HasRun options earlier s) (h : s.run fuel source = some (step, t)) :
      HasRun options (source :: earlier) t

variable {options : Option Options} {sources : List (List Char)} {source : List Char} {s : Session}
  {fuel : Nat} {program : List Stmt}

theorem HasRun.after (h : HasRun options sources s) : After options s := by
  induction h with
  | start => exact .start
  | run _ hr ih => exact .run ih hr

theorem HasRun.frames_eq (h : HasRun options sources s) : s.state.frames = #[] := by
  induction h with
  | start => rfl
  | run _ hr ih =>
    rcases run_eq_some hr with ⟨program, -, hr⟩ | ⟨errors, -, -, rfl⟩
    · exact (frames_of_interpret hr).trans ih
    · exact ih

/-- A session that is alike to itself and has no active calls runs a program alike to itself as itself. -/
theorem program_here (fuel : Nat) (hstore : s.state.store.Alike (Token.Here sources) s.state.store)
    (hframes : s.state.frames = #[])
    (hprogram : Forall₂ (Stmt.Alike (Token.Here sources ())) program program) :
    (Run.program s.options fuel globals program s.ready).Alike (Token.Here sources) "" Eq
      (Run.program s.options fuel globals program s.ready) := by
  refine Run.program_mirrors (Token.unseen_here sources) s.options fuel globals hprogram _ _ ⟨hstore, ?_, ?_⟩
  · rw [ready, hframes]
    exact .nil
  · simp

/-- All that a session keeps comes from the sources that it has run. -/
theorem HasRun.store_alike (h : HasRun options sources s) {all : List (List Char)} (hall : sources ⊆ all) :
    s.state.store.Alike (Token.Here all) s.state.store := by
  induction h with
  | start => exact ⟨rfl, rfl, .nil, .nil⟩
  | @run sources s fuel source step t before hr ih =>
    obtain ⟨hsource, hsources⟩ := List.cons_subset.1 hall
    rcases run_eq_some hr with ⟨program, hc, hr⟩ | ⟨errors, -, -, rfl⟩
    · have halike := program_here fuel (ih hsources) before.frames_eq (compile_here hsource hc)
      rcases (interpret_eq_some hr).2 with ⟨-, hrun⟩ | ⟨e, -, hrun⟩
      · rw [hrun] at halike
        cases halike with
        | done _ hstate => exact hstate.store
      · rw [hrun] at halike
        cases halike with
        | failed _ hstate => exact hstate.store
    · exact ih hsources

/-! ### Run-time errors -/

section Failed

variable {earlier : List (List Char)} {e : RuntimeError} {u : RunState}

/-- A run-time error is at a token of a source: only an error at a `this` could be at another one. -/
theorem HasRun.token_standsIn (hs : HasRun options earlier s) (hc : compile source = .ok program)
    (h : Run.program s.options fuel globals program s.ready = .failed e u) :
    ∃ origin ∈ source :: earlier, e.token.StandsIn origin := by
  have hprogram : Forall₂ (Stmt.Alike (Token.Here (source :: earlier) ())) program program :=
    compile_here List.mem_cons_self hc
  have halike := program_here fuel (hs.store_alike (List.subset_cons_self source earlier))
    hs.frames_eq hprogram
  rw [h] at halike
  cases halike with
  | failed herror _ =>
    obtain ⟨-, -, ⟨-, horigin | hreceiver⟩, -⟩ := herror.token
    · exact horigin
    · -- a receiver that no token names is always found
      have hplaced := Discipline.run_keeps (placement_kept s.options) (.program fuel globals program) s.ready
        ⟨.refl _, hs.after.sound⟩ (fits_program hc _ _ _)
      refine absurd ?_ (hplaced.failed h).2.this
      rw [hreceiver]
      rfl

/-- The calls in the trace of a run-time error have the lines of parentheses of sources. -/
theorem HasRun.trace_standsIn (hs : HasRun options earlier s) (hc : compile source = .ok program)
    (h : Run.program s.options fuel globals program s.ready = .failed e u) :
    ∀ f ∈ e.trace, ∃ origin ∈ source :: earlier, ∃ paren : Token,
      paren.StandsIn origin ∧ paren.kind = .rightParen ∧ f.line = paren.line := by
  intro f hf
  have hprogram : Forall₂ (Stmt.Alike (Token.Here (source :: earlier) ())) program program :=
    compile_here List.mem_cons_self hc
  have hstore := (hs.store_alike (List.subset_cons_self source earlier)).declares
  obtain ⟨n, callee, paren, args, w, hreach, rfl⟩ :=
    Activity.reaches_call_of_mem_trace (a := .program fuel globals program) (s := s.ready) hs.frames_eq h hf
  obtain ⟨⟨-, horigin⟩, hkind⟩ := paren_known (s := s.ready) hstore hprogram hreach
  have hparen : paren.kind = .rightParen := List.mem_singleton.1 hkind
  rcases horigin with ⟨origin, hmem, hstands⟩ | rfl
  · exact ⟨origin, hmem, paren, hstands, hparen, rfl⟩
  · cases hparen

end Failed

end Session

/-- Whatever a session has run before, what a source that it runs shows is at the tokens of the source, or,
if it is a run-time error, at a token of that source or of an earlier one, with a trace of calls on the lines
of their closing parentheses; and each of these tokens is on a line of the source that it is a token of. -/
theorem diagnostics_point_into_sources {options : Option Options} {earlier : List (List Char)} {s t : Session}
    (hs : Session.HasRun options earlier s) {fuel : Nat} {source : List Char} {step : Step}
    (h : s.run fuel source = some (step, t)) : ∀ d, step.error = some d → d.PointsInto earlier source := by
  intro d hd
  rcases Session.run_eq_some h with ⟨program, hc, hr⟩ | ⟨errors, hc, herrors, -⟩
  · rcases (Session.interpret_eq_some hr).2 with ⟨hnone, -⟩ | ⟨e, he, hrun⟩
    · rw [hnone] at hd
      cases hd
    · rw [he] at hd
      cases hd
      exact .runtime (hs.token_standsIn hc hrun) (hs.trace_standsIn hc hrun)
  · rw [herrors] at hd
    cases hd
    exact .several (compile_eq_error_iff.1 hc).pointsInto

/-- The line that a run-time error is on, and those in its trace. -/
def Diagnostic.lines : Diagnostic → List Int
  | .runtime token _ _ trace => token.line :: trace.map (·.line)
  | _ => []

/-- A method that looks for a field, and below it a function that calls the method. -/
def looksForField : List Char :=
  "class A \x7b\n  f() \x7b\n    this.b; \x7d\n\x7d\nfun g() \x7b\n  A().f();\n\x7d".toList

/-- A later source of one line calls the function. The field is missed on the third line of the earlier one,
and the inner call of the trace is closed on its sixth. -/
theorem looksForField_located :
    ∃ s step t token message overflow trace,
      Session.HasRun (some { trace := true }) [looksForField] s ∧
      s.run 40 "g();".toList = some (step, t) ∧
      step.error = some (.runtime token message overflow trace) ∧ trace.map (·.line) = [6, 1] ∧
      token.StandsIn looksForField ∧ token.line = 3 ∧
      ∃ paren : Token, paren.StandsIn looksForField ∧ paren.kind = .rightParen ∧ paren.line = 6 := by
  have hruns : ((Session.start (some { trace := true }) Session.freshStore).run 40 looksForField).any
      (fun r => (r.2.run 40 "g();".toList).any fun r => r.1.error.any fun d => d.lines = [3, 6, 1]) =
        true := by
    decide +kernel
  obtain ⟨⟨step₁, s⟩, h₁, hnext⟩ := Option.any_eq_true _ _ |>.1 hruns
  obtain ⟨⟨step, t⟩, h, herror⟩ := Option.any_eq_true _ _ |>.1 hnext
  obtain ⟨d, hd, hlines⟩ := Option.any_eq_true _ _ |>.1 herror
  rw [decide_eq_true_eq] at hlines
  have hs : Session.HasRun (some { trace := true }) [looksForField] s := .run .start h₁
  have hlong {t : Token} (ht : ∃ origin ∈ ["g();".toList, looksForField], t.StandsIn origin)
      (hline : 1 < t.line) : t.StandsIn looksForField := by
    obtain ⟨origin, horigin, hstands⟩ := ht
    rcases List.mem_cons.1 horigin with rfl | horigin
    · have hone : Token.newlines "g();".toList.dropLast = 0 := by decide
      have := hstands.line_le
      omega
    · rwa [List.mem_singleton.1 horigin] at hstands
  cases diagnostics_point_into_sources hs h d hd with
  | @runtime message overflow token trace htoken htrace =>
    obtain ⟨hline, hcalls⟩ := List.cons.inj hlines
    have hinner : 6 ∈ trace.map (·.line) := hcalls ▸ List.mem_cons_self
    obtain ⟨f, hf, hsix⟩ := List.mem_map.1 hinner
    obtain ⟨origin, horigin, paren, hparen, hkind, hparenLine⟩ := htrace f hf
    exact ⟨s, step, t, token, message, overflow, trace, hs, h, hd, hcalls, hlong htoken (by omega), hline,
      paren, hlong ⟨origin, horigin, hparen⟩ (by omega), hkind, by omega⟩
  | _ => cases hlines

end LoxLang
