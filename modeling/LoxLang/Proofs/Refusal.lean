import LoxLang.Proofs.Compile
import LoxLang.Proofs.Termination

/-!
# Sources that do not run

A source is refused exactly if there is something wrong with it before it runs. Then it shows all that is
wrong and nothing else, and the session goes on as if it had not been there. Every other source runs, and
fails, if it does, with a run-time error.

Main statement: `static_gate`.
-/

namespace LoxLang

/-- What is wrong with a source before it runs: all that the scanner and the parser complain of, and if
there is no such thing, all that is misplaced. -/
inductive Flawed (source : List Char) : List Diagnostic → Prop where
  | unread (h : (scan source).errors ≠ [] ∨ (parse (scan source).tokens).errors ≠ []) :
      Flawed source ((scan source).errors.map (·.diagnostic) ++
        (parse (scan source).tokens).errors.map (·.diagnostic))
  | misplaced (hscan : (scan source).errors = []) (hparse : (parse (scan source).tokens).errors = [])
      (h : placementErrors (parse (scan source).tokens).statements ≠ []) :
      Flawed source ((placementErrors (parse (scan source).tokens).statements).map (·.diagnostic))

theorem compile_of_nil {source : List Char} (hscan : (scan source).errors = [])
    (hparse : (parse (scan source).tokens).errors = [])
    (hplaced : placementErrors (parse (scan source).tokens).statements = []) :
    compile source = .ok (parse (scan source).tokens).statements := by
  simp [compile, hscan, hparse, hplaced]

/-- A source compiles to what the parser makes of it, unless something is wrong with it. -/
theorem compile_cases (source : List Char) :
    (∃ errors, Flawed source errors ∧ compile source = .error errors) ∨
      (∀ errors, ¬ Flawed source errors) ∧
        compile source = .ok (parse (scan source).tokens).statements := by
  by_cases hread : (scan source).errors = [] ∧ (parse (scan source).tokens).errors = []
  · by_cases hplaced : placementErrors (parse (scan source).tokens).statements = []
    · refine .inr ⟨?_, compile_of_nil hread.1 hread.2 hplaced⟩
      rintro _ (⟨h | h⟩ | ⟨-, -, h⟩)
      · exact h hread.1
      · exact h hread.2
      · exact h hplaced
    · exact .inl ⟨_, .misplaced hread.1 hread.2 hplaced, by simp [compile, hread, hplaced]⟩
  · refine .inl ⟨_, .unread (by tauto), ?_⟩
    simp only [compile, List.isEmpty_iff, List.append_eq_nil_iff, List.map_eq_nil_iff, hread, if_false]

theorem compile_eq_error_iff {source : List Char} {errors : List Diagnostic} :
    compile source = .error errors ↔ Flawed source errors := by
  rcases compile_cases source with ⟨errors', hflawed', herror⟩ | ⟨hfine, hok⟩
  · rw [herror, Except.error.injEq]
    refine ⟨fun h => h ▸ hflawed', fun h => ?_⟩
    -- there is only one list of what is wrong
    cases hflawed' <;> cases h <;> simp_all
  · simp [hok, hfine errors]

namespace Flawed

variable {source : List Char} {errors : List Diagnostic}

theorem ne_nil (h : Flawed source errors) : errors ≠ [] := by
  cases h with
  | unread h => simpa [or_iff_not_imp_left] using h
  | misplaced _ _ h => simpa using h

/-- What is wrong before a source runs can be asked for, and is no run-time error. -/
theorem static (h : Flawed source errors) {d : Diagnostic} (hd : d ∈ errors) :
    d.isA .runtime = false ∧ (d.isA .lexical || d.isA .syntactic || d.isA .semantic) = true := by
  cases h with
  | unread =>
    rcases List.mem_append.1 hd with hd | hd <;> obtain ⟨e, -, rfl⟩ := List.mem_map.1 hd <;>
      exact ⟨rfl, rfl⟩
  | misplaced =>
    obtain ⟨e, -, rfl⟩ := List.mem_map.1 hd
    exact ⟨rfl, rfl⟩

theorem exitCode_eq (h : Flawed source errors) : Diagnostic.exitCode (some (.several errors)) = 65 := by
  have hruntime : Diagnostic.isA .runtime (.several errors) = false := by
    rw [Diagnostic.isA, Diagnostic.anyIsA_eq_any, List.any_eq_false]
    intro d hd
    simp [(h.static hd).1]
  obtain ⟨d, hd⟩ := List.exists_mem_of_ne_nil _ h.ne_nil
  have hstatic : (Diagnostic.isA .lexical (.several errors) || Diagnostic.isA .syntactic (.several errors) ||
      Diagnostic.isA .semantic (.several errors)) = true := by
    have := (h.static hd).2
    simp only [Diagnostic.isA, Diagnostic.anyIsA_eq_any, Bool.or_eq_true, List.any_eq_true] at this ⊢
    exact this.imp (Or.imp (⟨d, hd, ·⟩) (⟨d, hd, ·⟩)) (⟨d, hd, ·⟩)
  rw [Diagnostic.exitCode, if_neg (by simp [hruntime]), if_pos hstatic]

end Flawed

theorem RuntimeError.exitCode_diagnostic (e : RuntimeError) :
    Diagnostic.exitCode (some e.diagnostic) = 70 := by
  simp [diagnostic, Diagnostic.exitCode, Diagnostic.isA]

namespace Session

variable {s t : Session} {fuel : Nat} {source : List Char} {errors : List Diagnostic} {step : Step}

/-- A program that is run to its end has succeeded or failed with a run-time error. -/
theorem error_of_interpret {program : List Stmt} (h : s.interpret fuel program = some (step, t)) :
    step.error = none ∨ ∃ e : RuntimeError, step.error = some e.diagnostic := by
  rcases (interpret_eq_some h).2 with ⟨hnone, -⟩ | ⟨e, he, -⟩
  · exact .inl hnone
  · exact .inr ⟨e, he⟩

theorem run_of_flawed (h : Flawed source errors) (fuel : Nat) (s : Session) :
    s.run fuel source = some ({ output := "", error := some (.several errors) }, s) :=
  run_of_compile_error (compile_eq_error_iff.2 h) fuel s

theorem run_of_not_flawed (h : ∀ errors, ¬ Flawed source errors) (fuel : Nat) (s : Session) :
    s.run fuel source = s.interpret fuel (parse (scan source).tokens).statements := by
  rcases compile_cases source with ⟨errors, hflawed, -⟩ | ⟨-, hok⟩
  · exact absurd hflawed (h errors)
  · rw [run, hok]

/-- A session goes through its other sources as if a refused one was not there. -/
theorem runAll_append_flawed (h : Flawed source errors) (fuel : Nat) (s : Session)
    (before after : List (List Char)) :
    s.runAll fuel (before ++ after) =
      (s.runAll fuel (before ++ source :: after)).map (·.eraseIdx before.length) := by
  induction before generalizing s with
  | nil =>
    simp only [List.nil_append, runAll, run_of_flawed h, Option.bind_eq_bind, Option.bind_some]
    cases s.runAll fuel after <;> rfl
  | cons first before ih =>
    simp only [List.cons_append, runAll]
    cases s.run fuel first with
    | none => rfl
    | some r =>
      simp only [Option.bind_eq_bind, Option.bind_some, ih r.2]
      cases r.2.runAll fuel (before ++ source :: after) <;> rfl

end Session

/-- Whatever the session, a source shows several errors exactly if something is wrong with it before it
runs. These are then all that is wrong, at least one, with an exit code of their own; nothing is printed,
the session is as before, and any session goes through its other sources as if this one was not there.
Every other source runs as the program that the parser makes of it, and if its run ends, it has succeeded
or failed with a run-time error. So no source has the exit code of a failure of the system. -/
theorem static_gate (fuel : Nat) (s : Session) (source : List Char) :
    (∀ output errors t,
      s.run fuel source = some ({ output, error := some (.several errors) }, t) ↔
        Flawed source errors ∧ output = "" ∧ t = s) ∧
    (∀ errors, Flawed source errors →
      errors ≠ [] ∧ Diagnostic.exitCode (some (.several errors)) = 65 ∧
      ∀ before after, s.runAll fuel (before ++ after) =
        (s.runAll fuel (before ++ source :: after)).map (·.eraseIdx before.length)) ∧
    ((∀ errors, ¬ Flawed source errors) →
      s.run fuel source = s.interpret fuel (parse (scan source).tokens).statements ∧
      ∀ step t, s.run fuel source = some (step, t) →
        (step.error = none ∧ Diagnostic.exitCode step.error = 0) ∨
          ∃ e : RuntimeError, step.error = some e.diagnostic ∧ Diagnostic.exitCode step.error = 70) ∧
    ∀ step t, s.run fuel source = some (step, t) → Diagnostic.exitCode step.error ≠ 74 := by
  have runs (hfine : ∀ errors, ¬ Flawed source errors) {step t} (h : s.run fuel source = some (step, t)) :
      (step.error = none ∧ Diagnostic.exitCode step.error = 0) ∨
        ∃ e : RuntimeError, step.error = some e.diagnostic ∧ Diagnostic.exitCode step.error = 70 := by
    rw [Session.run_of_not_flawed hfine] at h
    rcases Session.error_of_interpret h with hnone | ⟨e, he⟩
    · exact .inl ⟨hnone, by rw [hnone]; rfl⟩
    · exact .inr ⟨e, he, by rw [he, e.exitCode_diagnostic]⟩
  refine ⟨fun output errors t => ⟨fun h => ?_, ?_⟩, fun errors h => ⟨h.ne_nil, h.exitCode_eq,
    Session.runAll_append_flawed h fuel s⟩, fun hfine => ⟨Session.run_of_not_flawed hfine fuel s,
    fun step t => runs hfine⟩, fun step t h => ?_⟩
  · by_cases hflawed : ∃ errors', Flawed source errors'
    · obtain ⟨errors', hflawed⟩ := hflawed
      rw [Session.run_of_flawed hflawed] at h
      cases h
      exact ⟨hflawed, rfl, rfl⟩
    · rcases runs (by simpa using hflawed) h with ⟨hnone, -⟩ | ⟨e, he, -⟩
      · cases hnone
      · cases he
  · rintro ⟨hflawed, rfl, rfl⟩
    exact Session.run_of_flawed hflawed fuel _
  · by_cases hflawed : ∃ errors, Flawed source errors
    · obtain ⟨errors, hflawed⟩ := hflawed
      rw [Session.run_of_flawed hflawed] at h
      cases h
      simp [hflawed.exitCode_eq]
    · rcases runs (by simpa using hflawed) h with ⟨-, hcode⟩ | ⟨e, -, hcode⟩ <;> simp [hcode]

/-- A character that belongs to no token, and an operand that is missing. -/
def brokenLine : List Char := "print @ + ;".toList

/-- `brokenLine` between two sources shows errors and leaves no trace, and an undefined variable is for the
run to find. -/
theorem brokenLine_refused :
    let s := Session.start none Session.freshStore
    (∃ errors steps, Flawed brokenLine errors ∧ Diagnostic.exitCode (some (.several errors)) = 65 ∧
      s.run 20 brokenLine = some ({ output := "", error := some (.several errors) }, s) ∧
      s.runAll 20 ["var a = 1;".toList, "print a;".toList] = some steps ∧
      steps.map (·.1.output) = ["", "1\n"]) ∧
    ∃ step t, s.run 20 "print b;".toList = some (step, t) ∧ Diagnostic.exitCode step.error = 70 := by
  intro s
  constructor
  · have herrors : (scan brokenLine).errors.isEmpty = false := by decide +kernel
    have hflawed : Flawed brokenLine _ := .unread (.inl (by simpa using herrors))
    have hrun : (s.runAll 20 ["var a = 1;".toList, brokenLine, "print a;".toList]).any
        (fun steps => (steps.eraseIdx 1).map (·.1.output) = ["", "1\n"]) = true := by
      decide +kernel
    obtain ⟨steps, h, hsteps⟩ := Option.any_eq_true _ _ |>.1 hrun
    obtain ⟨hgate, hrefused, -⟩ := static_gate 20 s brokenLine
    obtain ⟨-, hcode, hall⟩ := hrefused _ hflawed
    have hothers : s.runAll 20 ["var a = 1;".toList, "print a;".toList] = some (steps.eraseIdx 1) :=
      (hall ["var a = 1;".toList] ["print a;".toList]).trans (congrArg (Option.map (·.eraseIdx 1)) h)
    exact ⟨_, _, hflawed, hcode, (hgate "" _ s).2 ⟨hflawed, rfl, rfl⟩, hothers, by simpa using hsteps⟩
  · have hrun : (s.run 20 "print b;".toList).any (fun r => r.1.error.isSome) = true := by decide +kernel
    obtain ⟨⟨step, t⟩, h, herror⟩ := Option.any_eq_true _ _ |>.1 hrun
    have hok : (compile "print b;".toList).isOk = true := by decide +kernel
    have hfine : ∀ errors, ¬ Flawed "print b;".toList errors := fun errors hflawed => by
      rw [compile_eq_error_iff.2 hflawed] at hok
      cases hok
    obtain ⟨-, -, hruns, -⟩ := static_gate 20 s "print b;".toList
    rcases (hruns hfine).2 step t h with ⟨hnone, -⟩ | ⟨e, -, hcode⟩
    · simp [hnone] at herror
    · exact ⟨step, t, h, hcode⟩

end LoxLang
