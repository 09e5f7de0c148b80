import LoxLang.Proofs.CallStack
import LoxLang.Proofs.Run.Deepen
import LoxLang.Proofs.Termination

/-!
# Options and meaning

Options say how deep calls may nest and what diagnostics look like. They do not change what a program
means: sessions under two sets of options go through the same steps, as long as the one with the lower
limit does not run into it, and a run that does has printed what the other one prints first.

Main statement: `options_keep_meaning`.
-/

namespace LoxLang

open List (Forall₂)

/-- A diagnostic without the list of the calls that were active. -/
def Diagnostic.untraced : Diagnostic → Diagnostic
  | .runtime token message overflow _ => .runtime token message overflow []
  | d => d

/-- Two diagnostics of one kind that point at the same token, say the same and can be asked for in the
same way. Only their traces may differ. -/
structure Diagnostic.Agrees (d d' : Diagnostic) : Prop where
  untraced : d'.untraced = d.untraced
  text : d'.text = d.text
  categories : d'.categories = d.categories

theorem Diagnostic.Agrees.refl (d : Diagnostic) : d.Agrees d := ⟨rfl, rfl, rfl⟩

theorem Diagnostic.agrees_of_untraced {d d' : Diagnostic} (h : d'.untraced = d.untraced) : d.Agrees d' := by
  have htext (d : Diagnostic) : d.untraced.text = d.text := by cases d <;> rfl
  have hcategories (d : Diagnostic) : d.untraced.categories = d.categories := by cases d <;> rfl
  refine ⟨h, ?_, ?_⟩
  · rw [← htext d', h, htext]
  · rw [← hcategories d', h, hcategories]

theorem RuntimeError.Same.diagnostic_agrees {e e' : RuntimeError} (h : e'.Same e) :
    e.diagnostic.Agrees e'.diagnostic :=
  Diagnostic.agrees_of_untraced (by simp [diagnostic, Diagnostic.untraced, h.1, h.2])

/-- A step that shows an overflow. -/
def Step.overflows (step : Step) : Bool := step.error.any (·.isA .stackOverflow)

namespace Session

/-- Two runs that show the same and leave the same behind. Only the traces of their errors may differ. -/
structure Agrees (r r' : Step × Session) : Prop where
  output : r'.1.output = r.1.output
  error : Option.Rel Diagnostic.Agrees r.1.error r'.1.error
  state : r'.2.state = r.2.state

/-- How a run of a source under other options, and with no less allowance, compares with a run of it: it
agrees with it, or that run overflows and this one goes on from there. -/
def Deepens (s' : Session) (source : List Char) (fuel' : Nat) (s : Session) (r : Step × Session) : Prop :=
  (∃ r', s'.run fuel' source = some r' ∧ Agrees r r' ∧ r'.2.options = s'.options ∧
      (s'.options.trace = s.options.trace → r'.1 = r.1)) ∨
    r.1.overflows = true ∧ s.options.maxCallDepth < s'.options.maxCallDepth ∧
      ∀ r', s'.run fuel' source = some r' → ∃ more, r'.1.output = r.1.output ++ more

theorem agrees_with_same (i : Option Diagnostic) : Option.Rel Diagnostic.Agrees i i := by
  cases i with
  | none => exact .none
  | some d => exact .some (.refl d)

variable {o o' : Options} {state : RunState} {source : List Char} {fuel fuel' : Nat} {r : Step × Session}

theorem run_deepens (hdepth : o.maxCallDepth ≤ o'.maxCallDepth) (hfuel : fuel ≤ fuel')
    (h : run fuel ⟨o, state⟩ source = some r) : Deepens ⟨o', state⟩ source fuel' ⟨o, state⟩ r := by
  cases hc : compile source with
  | error errors =>
    rw [run_of_compile_error hc] at h
    cases h
    exact .inl ⟨_, run_of_compile_error hc fuel' _, ⟨rfl, agrees_with_same _, rfl⟩, rfl, fun _ => rfl⟩
  | ok program =>
    have hends := (Run.program_deepens hdepth hfuel globals program).ends { state with output := "" }
    simp only [Deepens, run, hc, interpret] at h ⊢
    cases hr : Run.program o fuel globals program { state with output := "" } with
    | done a t =>
      rw [hr] at hends h
      cases h
      rw [show Run.program o' fuel' globals program _ = .done a t from hends]
      exact .inl ⟨_, rfl, ⟨rfl, .none, rfl⟩, rfl, fun _ => rfl⟩
    | failed e t =>
      rw [hr] at hends h
      cases h
      rcases hends with ⟨e', he', hsame, htrace⟩ | ⟨hover, hlt, hprints⟩
      · rw [he']
        refine .inl ⟨_, rfl, ⟨rfl, .some hsame.diagnostic_agrees, rfl⟩, rfl, fun ho => ?_⟩
        rw [htrace ho]
      · refine .inr ⟨(isA_stackOverflow_diagnostic e).2 hover, hlt, fun r' hr' => ?_⟩
        cases hr'' : Run.program o' fuel' globals program { state with output := "" } with
        | exhausted =>
          rw [hr''] at hr'
          cases hr'
        | _ =>
          rw [hr''] at hr' hprints
          cases hr'
          exact hprints
    | exhausted =>
      rw [hr] at h
      cases h

/-- A run that ends with some allowance ends in the same way with any larger one. -/
theorem run_mono {s : Session} (hfuel : fuel ≤ fuel') (h : s.run fuel source = some r) :
    s.run fuel' source = some r := by
  rcases run_deepens (Int.le_refl s.options.maxCallDepth) hfuel h with
    ⟨⟨step', t'⟩, hr', hagrees, hoptions, hstep⟩ | ⟨-, hlt, -⟩
  · obtain ⟨step, options, state⟩ := r
    obtain ⟨options', state'⟩ := t'
    obtain rfl : step' = step := hstep rfl
    obtain rfl : state' = state := hagrees.state
    obtain rfl : options' = options := hoptions.trans (run_options h).symm
    exact hr'
  · exact absurd hlt (Int.lt_irrefl _)

theorem runAll_cons_eq_some {s : Session} {rest : List (List Char)} {steps : List (Step × Session)} :
    s.runAll fuel (source :: rest) = some steps ↔ ∃ r later, s.run fuel source = some r ∧
      r.2.runAll fuel rest = some later ∧ steps = r :: later := by
  rw [runAll]
  cases h : s.run fuel source with
  | none => simp
  | some r =>
    cases h' : r.2.runAll fuel rest with
    | none => simp [h']
    | some later => simp [h', eq_comm]

theorem runAll_mono {s : Session} {sources : List (List Char)} {steps : List (Step × Session)}
    (hfuel : fuel ≤ fuel') (h : s.runAll fuel sources = some steps) :
    s.runAll fuel' sources = some steps := by
  induction sources generalizing s steps with
  | nil => exact h
  | cons source rest ih =>
    obtain ⟨r, later, hr, hlater, rfl⟩ := runAll_cons_eq_some.1 h
    exact runAll_cons_eq_some.2 ⟨r, later, run_mono hfuel hr, ih hlater, rfl⟩

/-- A session that goes through its runs without an overflow goes through the same runs where calls may nest
as deep or deeper. -/
theorem runAll_agrees {s s' : Session} {sources : List (List Char)} {steps : List (Step × Session)}
    (hdepth : s.options.maxCallDepth ≤ s'.options.maxCallDepth) (hstate : s'.state = s.state)
    (h : s.runAll fuel sources = some steps) (hover : ∀ r ∈ steps, r.1.overflows = false) :
    ∃ steps', s'.runAll fuel sources = some steps' ∧ Forall₂ Agrees steps steps' := by
  induction sources generalizing s s' steps with
  | nil =>
    cases h
    exact ⟨[], rfl, .nil⟩
  | cons source rest ih =>
    obtain ⟨r, later, hr, hlater, rfl⟩ := runAll_cons_eq_some.1 h
    obtain ⟨o, state⟩ := s
    obtain ⟨o', state'⟩ := s'
    obtain rfl : state' = state := hstate
    rcases run_deepens hdepth (Nat.le_refl fuel) hr with ⟨r', hr', hagrees, hoptions, -⟩ | ⟨hoverflows, -⟩
    · have hdepth' : r.2.options.maxCallDepth ≤ r'.2.options.maxCallDepth := by
        rw [run_options hr, hoptions]
        exact hdepth
      obtain ⟨later', hlater', hall⟩ := ih hdepth' hagrees.state hlater
        fun q hq => hover q (List.mem_cons_of_mem _ hq)
      exact ⟨r' :: later', runAll_cons_eq_some.2 ⟨r', later', hr', hlater', rfl⟩, .cons hagrees hall⟩
    · rw [hover r List.mem_cons_self] at hoverflows
      cases hoverflows

end Session

/-- Under two sets of options, or none, of which the second lets calls nest as deep as the first or
deeper: a session that goes through its sources without an overflow under the first prints the
same, shows the same errors, and leaves the same variables, functions, classes and instances behind
with the same active calls, step by step, under the second, whose runs end with every allowance that is
large enough. And a run from a fresh start that ends in an overflow under the first has printed a
beginning of what the run prints under the second, if that comes to an end. -/
theorem options_keep_meaning {options options' : Option Options}
    (hdepth : (options.getD {}).normalized.maxCallDepth ≤ (options'.getD {}).normalized.maxCallDepth) :
    (∀ sources fuel steps, (Session.start options Session.freshStore).runAll fuel sources = some steps →
      (∀ r ∈ steps, r.1.overflows = false) →
      ∃ steps', Forall₂ Session.Agrees steps steps' ∧ ∀ fuel', fuel ≤ fuel' →
        (Session.start options' Session.freshStore).runAll fuel' sources = some steps') ∧
    ∀ source fuel fuel' r r', (Session.start options Session.freshStore).run fuel source = some r →
      r.1.overflows = true →
      (Session.start options' Session.freshStore).run fuel' source = some r' →
      ∃ more, r'.1.output = r.1.output ++ more := by
  constructor
  · intro sources fuel steps h hover
    obtain ⟨steps', h', hagrees⟩ : ∃ steps', (Session.start options' Session.freshStore).runAll fuel sources =
        some steps' ∧ Forall₂ Session.Agrees steps steps' :=
      Session.runAll_agrees (s := Session.start options Session.freshStore) hdepth rfl h hover
    exact ⟨steps', hagrees, fun fuel' hfuel => Session.runAll_mono hfuel h'⟩
  · intro source fuel fuel' r r' h _ h'
    -- with the larger of the two allowances both runs end as they do
    have hr := Session.run_mono (Nat.le_max_left fuel fuel') h
    have hr' := Session.run_mono (Nat.le_max_right fuel fuel') h'
    rcases Session.run_deepens hdepth (Nat.le_refl _) hr with ⟨r'', hr'', hagrees, -⟩ | ⟨-, -, hmore⟩
    · obtain rfl : r'' = r' := Option.some.inj (hr''.symm.trans hr')
      exact ⟨"", by rw [hagrees.output, String.append_empty]⟩
    · exact hmore r' hr'

/-- A function that calls itself once more if it is told to. -/
def callsOnceMore : List Char :=
  "fun f(more) \x7b print more; if (more) f(false); \x7d".toList

/-- With a limit of one call, `f(false)` runs as with a limit of two, and `f(true)` overflows after it has
printed a line. -/
theorem callsOnceMore_keeps_meaning :
    let s := Session.start (some { maxCallDepth := 1 }) Session.freshStore
    let s' := Session.start (some { maxCallDepth := 2, trace := true }) Session.freshStore
    let calls : List Char := callsOnceMore ++ "f(true);".toList
    (∃ steps steps', s.runAll 20 [callsOnceMore, "f(false);".toList] = some steps ∧
      s'.runAll 20 [callsOnceMore, "f(false);".toList] = some steps' ∧
      Forall₂ Session.Agrees steps steps') ∧
    ∃ r r', s.run 20 calls = some r ∧ r.1.overflows = true ∧ s'.run 20 calls = some r' ∧
      ∃ more, r'.1.output = r.1.output ++ more := by
  intro s s' calls
  have hdepth : s.options.maxCallDepth ≤ s'.options.maxCallDepth := by decide
  have hmeaning := @options_keep_meaning (some { maxCallDepth := 1 })
    (some { maxCallDepth := 2, trace := true }) hdepth
  constructor
  · have hrun : (s.runAll 20 [callsOnceMore, "f(false);".toList]).any
        (fun steps => steps.all fun r => !r.1.overflows) = true := by
      decide +kernel
    obtain ⟨steps, h, hover⟩ := Option.any_eq_true _ _ |>.1 hrun
    obtain ⟨steps', hagrees, h'⟩ := hmeaning.1 _ 20 steps h fun r hr => by
      simpa using List.all_eq_true.1 hover r hr
    exact ⟨steps, steps', h, h' 20 (Nat.le_refl _), hagrees⟩
  · have hrun : (s.run 20 calls).any (fun r => r.1.overflows) = true := by decide +kernel
    have hrun' : (s'.run 20 calls).isSome = true := by decide +kernel
    obtain ⟨r, h, hover⟩ := Option.any_eq_true _ _ |>.1 hrun
    obtain ⟨r', h'⟩ := Option.isSome_iff_exists.1 hrun'
    exact ⟨r, r', h, hover, h', hmeaning.2 calls 20 20 r r' h hover h'⟩

end LoxLang
