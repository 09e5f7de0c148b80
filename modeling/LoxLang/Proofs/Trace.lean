import LoxLang.Proofs.CallStack

/-!
# Traces

An error comes up without a trace. If traces are wanted, the innermost call that it comes out of gives it
one, the list of the calls active then, and none of the outer calls changes that. So the trace of an error
lists the calls that were active where the error came up, and there is none if no call was.

Main statement: `trace_lists_active_calls`.
-/

namespace LoxLang

/-- The error as it looks once it has come out of some calls, if it came up while some were active. -/
def RuntimeError.outOf (o : Options) (active passed : List Frame) (e : RuntimeError) : RuntimeError :=
  { e with trace := if o.trace = true ∧ passed ≠ [] then active.reverse else [] }

theorem RuntimeError.outOf_nil (o : Options) (active : List Frame) {e : RuntimeError} (h : e.trace = []) :
    e.outOf o active [] = e := by
  rw [outOf, if_neg (fun hc => hc.2 rfl), ← h]

/-- The first call that an error comes out of gives it its trace, and no other call does. -/
theorem RuntimeError.traced_outOf {o : Options} (e : RuntimeError) {before passed : List Frame} {f : Frame} :
    (if o.trace then (e.outOf o (before ++ f :: passed) passed).traced (before ++ [f]).reverse
      else e.outOf o (before ++ f :: passed) passed) = e.outOf o (before ++ f :: passed) (f :: passed) := by
  by_cases ho : o.trace = true
  · cases passed with
    | nil => simp [outOf, traced, ho]
    | cons g passed => simp [outOf, traced, ho]
  · simp [outOf, ho]

namespace Activity

/-- The active call that an activity has while what it begins is under way. -/
def frame? : Activity → Option Frame
  | .call _ callee paren _ => some { name := callee.display, line := paren.line }
  | _ => none

/-- The active calls of some activities. -/
def frames (path : List Activity) : List Frame := path.filterMap frame?

/-- While an activity runs, another one begins inside it, and in between are those that are under way then,
from the outermost inwards. -/
inductive Encloses (o : Options) :
    Activity → RunState → List Activity → Activity → RunState → Prop where
  | here : Encloses o a s [] a s
  | later (h : Begins o a s b t) (rest : Encloses o b t path c u) : Encloses o a s (a :: path) c u

/-- An activity comes to a state in which something that it does itself fails. -/
def Raises (o : Options) (a : Activity) (s : RunState) (e : RuntimeError) (v : RunState) : Prop :=
  ∃ (β : Type) (m : Run β) (next : β → Plan a.Result) (w : RunState),
    (a.plan o).Leads o s (.move m next) v ∧ m v = .failed e w

variable {o : Options} {a b c : Activity} {s t u v w : RunState} {e : RuntimeError}
  {path outer inner : List Activity}

/-! ### What is under way -/

/-- Only a call has an active call of its own while what it begins is under way, and only the evaluation of
a call expression begins a call. -/
theorem plan_calls (o : Options) (a : Activity) :
    (a.plan o).All (fun _ => True) (fun call b => call = a.frame? ∧
      ∀ n callee paren args, b = .call n callee paren args →
        ∃ m scope f as, a = .eval m scope (.call f paren as)) := by
  unfold plan
  split <;> simp only [Plan.All, frame?, reduceCtorEq, false_imp_iff, implies_true, and_self, true_and]
  -- what is left branches on a result
  case h_22 =>
    intro c
    split
    · exact ⟨by simp, fun c => by cases c <;> simp [Plan.All]⟩
    · trivial
  case h_45 => exact fun c => by cases c <;> simp [Plan.All]
  all_goals
    intros
    repeat' split
    all_goals simp_all [Plan.All]

theorem begins_entering (h : a.Begins o s b t) :
    ∃ next u, (a.plan o).Leads o s (.begin a.frame? b next) u ∧ t = u.entering a.frame? := by
  obtain ⟨call, next, u, hl, rfl⟩ := h
  obtain rfl : call = a.frame? := ((plan_calls o a).of_leads hl).1.1
  exact ⟨next, u, hl, rfl⟩

theorem eval_of_begins_call {n : Nat} {callee : Value} {paren : Token} {args : List Value}
    (h : a.Begins o s (.call n callee paren args) t) :
    ∃ m scope f as, a = .eval m scope (.call f paren as) := by
  obtain ⟨call, next, u, hl, rfl⟩ := h
  exact ((plan_calls o a).of_leads hl).1.2 n callee paren args rfl

theorem frames_of_begins (h : a.Begins o s b t) :
    t.frames.toList = s.frames.toList ++ a.frame?.toList := by
  obtain ⟨next, u, hl, rfl⟩ := begins_entering h
  rw [← frames_of_leads hl]
  cases a.frame? <;> simp [RunState.entering]

/-- The active calls are those of the calls under way. -/
theorem Encloses.frames_eq (h : a.Encloses o s path b t) :
    t.frames.toList = s.frames.toList ++ frames path := by
  induction h with
  | here => simp [frames]
  | @later a s b t path c u hb _ ih =>
    rw [ih, frames_of_begins hb, List.append_assoc]
    cases ha : a.frame? <;> simp [frames, ha]

/-- Every call under way, unless it is the first activity, is the one that evaluating its call expression
has begun. -/
theorem Encloses.caller (h : a.Encloses o s path b t) {n : Nat} {callee : Value} {paren : Token}
    {args : List Value} (hc : .call n callee paren args ∈ path) :
    a = .call n callee paren args ∨ ∃ m scope f as,
      [.eval m scope (.call f paren as), .call n callee paren args] <:+: path := by
  induction h with
  | here => cases hc
  | @later a s b t path c u hb hrest ih =>
    rcases List.mem_cons.1 hc with rfl | hc
    · exact .inl rfl
    refine .inr ?_
    rcases ih hc with rfl | ⟨m, scope, f, as, hinfix⟩
    · obtain ⟨m, scope, f, as, rfl⟩ := eval_of_begins_call hb
      cases hrest with
      | here => simp at hc
      | later _ _ => exact ⟨m, scope, f, as, [], _, rfl⟩
    · exact ⟨m, scope, f, as, hinfix.trans (List.infix_cons (List.infix_refl path))⟩

theorem Reaches.encloses (h : Reaches o a s b t) : ∃ path, a.Encloses o s path b t := by
  induction h with
  | here => exact ⟨[], .here⟩
  | later hb _ ih =>
    obtain ⟨path, hpath⟩ := ih
    exact ⟨_, .later hb hpath⟩

theorem Encloses.reaches (h : a.Encloses o s path b t) : Reaches o a s b t := by
  induction h with
  | here => exact .here
  | later hb _ ih => exact .later hb ih

theorem Encloses.reaches_of_mem (h : a.Encloses o s path b t) (hc : c ∈ path) :
    ∃ u, Reaches o a s c u := by
  induction h with
  | here => cases hc
  | later hb _ ih =>
    rcases List.mem_cons.1 hc with rfl | hc
    · exact ⟨_, .here⟩
    · obtain ⟨u, hu⟩ := ih hc
      exact ⟨u, .later hb hu⟩

/-! ### Errors on their way out -/

/-- Whatever an activity does itself, its errors have no trace yet, and it overflows only where no call is
allowed any more. -/
theorem plan_raises (o : Options) (a : Activity) :
    (a.plan o).All (fun m => ∀ {s e t}, m s = .failed e t →
      e.trace = [] ∧ (e.fault = .stackOverflow → o.allowsCall s.frames.size = false))
      (fun _ _ => True) := by
  have steady {β : Type} {m : Run β} (hm : m.Steady) {s t e} (h : m s = .failed e t) :
      e.trace = [] ∧ (e.fault = .stackOverflow → o.allowsCall s.frames.size = false) :=
    ⟨hm.untraced h, fun he => absurd he (hm.no_overflow h)⟩
  by_cases h : ∃ n callee paren args, a = .call n callee paren args
  · obtain ⟨n, callee, paren, args, rfl⟩ := h
    cases n with
    | zero => exact ⟨steady Run.steady_exhausted, fun _ => trivial⟩
    | succ n =>
      refine ⟨steady (Run.steady_read _), fun arity => ?_⟩
      cases arity with
      | none => exact ⟨steady (Run.steady_fail paren (by simp)), fun _ => trivial⟩
      | some k =>
        dsimp only
        split
        · refine ⟨fun {s e t} hf => ?_, fun _ => ⟨trivial, fun _ => trivial⟩⟩
          rw [Run.guardDepth] at hf
          split at hf
          · cases hf
          · next hfull =>
            cases hf
            exact ⟨rfl, fun _ => by simpa using hfull⟩
        · exact ⟨steady (Run.steady_fail paren (by simp)), fun _ => trivial⟩
  · exact (plan_steady o (by simpa using h)).mono (fun m hm => steady hm) (fun _ _ _ => trivial)

theorem Raises.untraced (h : b.Raises o u e v) : e.trace = [] := by
  obtain ⟨β, m, next, w, hl, hm⟩ := h
  exact (((plan_raises o b).of_leads hl).1 hm).1

/-- An overflow comes up while as many calls as allowed are active. -/
theorem Raises.size_eq_of_overflow (h : b.Raises o u e v) (he : e.fault = .stackOverflow)
    (hu : (u.frames.size : Int) ≤ o.maxCallDepth) : (v.frames.size : Int) = o.maxCallDepth := by
  obtain ⟨β, m, next, w, hl, hm⟩ := h
  have hfull := (((plan_raises o b).of_leads hl).1 hm).2 he
  rw [Options.allowsCall, decide_eq_false_iff_not] at hfull
  rw [← frames_of_leads hl] at hu
  omega

theorem Raises.frames_eq (h : b.Raises o u e v) : v.frames = u.frames := by
  obtain ⟨β, m, next, w, hl, -⟩ := h
  exact frames_of_leads hl

/-- What an activity does itself fails the activity. -/
theorem Raises.run_eq (h : b.Raises o u e v) : ∃ w, b.run o u = .failed e w := by
  obtain ⟨β, m, next, w, hl, hm⟩ := h
  exact ⟨w, by rw [run_eq_plan, hl.run_eq, Plan.run, Run.run_bind, hm]⟩

/-- An error that has come out of some calls comes out of the one that it came up in next. -/
theorem runAs_of_outOf {call : Option Frame} {passed : List Frame}
    (h : b.run o (s.entering call) =
      .failed (e.outOf o ((s.entering call).frames.toList ++ passed) passed) t) :
    b.runAs o call s =
      .failed (e.outOf o ((s.entering call).frames.toList ++ passed) (call.toList ++ passed))
        (t.leaving call) := by
  cases call with
  | none => exact h
  | some f =>
    have hactive : t.frames.toList = s.frames.toList ++ [f] := by
      rw [(run_balanced o b).failed h, RunState.entering, Array.toList_push]
    have hentering : (s.entering (some f)).frames.toList ++ passed = s.frames.toList ++ f :: passed := by
      rw [RunState.entering, Array.toList_push, List.append_assoc, List.singleton_append]
    rw [hentering] at h ⊢
    simp only [RunState.entering] at h
    simp only [runAs, Run.within, h, hactive, RunState.leaving, Option.toList_some, List.singleton_append]
    rw [e.traced_outOf]

theorem run_of_begins_failed {passed : List Frame} (hb : a.Begins o s b t)
    (h : b.run o t = .failed (e.outOf o (t.frames.toList ++ passed) passed) w) :
    a.run o s =
      .failed (e.outOf o (t.frames.toList ++ passed) (a.frame?.toList ++ passed)) (w.leaving a.frame?) := by
  obtain ⟨next, u, hl, rfl⟩ := begins_entering hb
  rw [run_eq_plan, hl.run_eq, Plan.run, Run.run_bind, runAs_of_outOf h]

/-- An error that comes up in a run comes out of all calls under way, and is the error of the run. -/
theorem run_of_raises (h : a.Encloses o s path b t) (hr : b.Raises o t e v) :
    ∃ w, a.run o s = .failed (e.outOf o v.frames.toList (frames path)) w := by
  induction h with
  | here =>
    obtain ⟨w, hw⟩ := hr.run_eq
    refine ⟨w, hw.trans ?_⟩
    rw [frames, List.filterMap_nil, RuntimeError.outOf_nil o _ hr.untraced]
  | @later a s b t path c u hb hrest ih =>
    have hactive : v.frames.toList = t.frames.toList ++ frames path := by
      rw [hr.frames_eq, hrest.frames_eq]
    have hpath : frames (a :: path) = a.frame?.toList ++ frames path := by
      cases ha : a.frame? <;> simp [frames, ha]
    obtain ⟨w, hw⟩ := ih hr
    rw [hactive] at hw ⊢
    rw [hpath]
    exact ⟨_, run_of_begins_failed hb hw⟩

/-- Every error of a run comes up somewhere in it. -/
theorem exists_raises {e' : RuntimeError} (h : a.run o s = .failed e' t) :
    ∃ path b u e v, a.Encloses o s path b u ∧ b.Raises o u e v := by
  obtain ⟨b, u, hr, β, m, next, v, w, e, hl, hm, -⟩ := exists_failed_move h
  obtain ⟨path, hpath⟩ := hr.encloses
  exact ⟨path, b, u, e, v, hpath, β, m, next, w, hl, hm⟩

/-- The trace of an error is of calls that the run has come to. -/
theorem reaches_call_of_mem_trace (hs : s.frames = #[]) (h : a.run o s = .failed e t) {f : Frame}
    (hf : f ∈ e.trace) : ∃ n callee paren args u,
      Reaches o a s (.call n callee paren args) u ∧ f = { name := callee.display, line := paren.line } := by
  obtain ⟨path, b, u, e₀, v, hpath, hb⟩ := exists_raises h
  obtain ⟨w, hw⟩ := run_of_raises hpath hb
  have hactive : v.frames.toList = frames path := by
    rw [hb.frames_eq, hpath.frames_eq, hs, List.nil_append]
  have herror : e = e₀.outOf o v.frames.toList (frames path) := by
    rw [h] at hw
    cases hw
    rfl
  have hmem : f ∈ frames path := by
    rw [herror, RuntimeError.outOf, hactive] at hf
    dsimp only at hf
    split at hf
    · exact List.mem_reverse.1 hf
    · cases hf
  obtain ⟨c, hc, hframe⟩ := List.mem_filterMap.1 hmem
  obtain ⟨w, hreach⟩ := hpath.reaches_of_mem hc
  cases c with
  | call n callee paren args =>
    cases hframe
    exact ⟨n, callee, paren, args, w, hreach, rfl⟩
  | _ => cases hframe

end Activity

/-! ### Sessions -/

/-- An error of a run comes up somewhere in it. The active calls are then those of the calls under way, each
of which is the evaluation of a call expression and gives what is called and the line of its closing
parenthesis. If traces are on, they are the trace of the error from the innermost outwards, which is
therefore empty if there are none; otherwise it is empty. The first call that the error comes out of gives it
its trace, and the calls outside of that one leave it alone. The trace of an overflow is as long as calls may
nest. -/
theorem trace_lists_active_calls {options : Option Options} {store : Store} {s t : Session} {fuel : Nat}
    {program : List Stmt} {step : Step} (hs : Session.Follows (Session.start options store) s)
    (h : s.interpret fuel program = some (step, t)) :
    let a := Activity.program fuel Session.globals program
    (∀ d, step.error = some d →
      ∃ path b u e v, a.Encloses s.options s.ready path b u ∧ b.Raises s.options u e v) ∧
    ∀ path b u e v, a.Encloses s.options s.ready path b u → b.Raises s.options u e v →
      v.frames.toList = Activity.frames path ∧
      (∀ n callee paren args, .call n callee paren args ∈ path → ∃ m scope f as,
        [.eval m scope (.call f paren as), .call n callee paren args] <:+: path) ∧
      step.error = some (.runtime e.token e.fault.message (e.fault == .stackOverflow)
        (if s.options.trace then v.frames.toList.reverse else [])) ∧
      (∀ outer c w inner, a.Encloses s.options s.ready outer c w → c.Encloses s.options w inner b u →
        ∃ w', c.run s.options w =
          .failed (e.outOf s.options v.frames.toList (Activity.frames inner)) w') ∧
      (e.fault = .stackOverflow → (v.frames.size : Int) = s.options.maxCallDepth) := by
  intro a
  have hframes : s.ready.frames = #[] := hs.frames_eq
  have hdepth : (s.ready.frames.size : Int) ≤ s.options.maxCallDepth := by
    have := (Options.normalized_depth (options.getD {})).1
    rw [hs.options_eq, hframes]
    exact Int.le_trans (by decide) this
  have hrun := (Session.interpret_eq_some h).2
  constructor
  · intro d hd
    rcases hrun with ⟨hnone, -⟩ | ⟨e, -, hf⟩
    · rw [hnone] at hd
      cases hd
    · exact Activity.exists_raises (a := a) hf
  intro path b u e v hpath hb
  have hactive : v.frames.toList = Activity.frames path := by
    rw [hb.frames_eq, hpath.frames_eq, hframes, List.nil_append]
  refine ⟨hactive, ?_, ?_, fun _ c w inner _ hinner => Activity.run_of_raises hinner hb,
    fun he => hb.size_eq_of_overflow he (Activity.frames_le_of_reaches hdepth hpath.reaches)⟩
  · intro n callee paren args hc
    rcases hpath.caller hc with hprogram | hcaller
    · exact absurd hprogram (by simp [a])
    · exact hcaller
  · obtain ⟨w, hw⟩ := Activity.run_of_raises hpath hb
    rcases hrun with ⟨-, hdone⟩ | ⟨e', he', hf⟩
    · rw [Activity.run, hdone] at hw
      cases hw
    · rw [Activity.run, hf] at hw
      cases hw
      rw [he', RuntimeError.diagnostic, RuntimeError.outOf, ← hactive]
      by_cases ho : s.options.trace = true <;> by_cases hv : v.frames.toList = [] <;> simp [ho, hv]

/-- The trace that a diagnostic comes with. -/
def Diagnostic.trace : Diagnostic → List Frame
  | .runtime _ _ _ trace => trace
  | _ => []

/-- A function that calls another one, which calls nothing. -/
def nestedCalls : List Char := "fun a() \x7b\n  b();\n\x7d\nfun b() \x7b\n  nil();\n\x7d\na();".toList

/-- What is called cannot be called while both functions are active, and the trace lists both. -/
theorem nestedCalls_traced :
    let s := Session.start (some { trace := true }) Session.freshStore
    let program := (parse (scan nestedCalls).tokens).statements
    ∃ path b u e v, (Activity.program 40 Session.globals program).Encloses s.options s.ready path b u ∧
      b.Raises s.options u e v ∧ Activity.frames path = [⟨"<fn a>", 7⟩, ⟨"<fn b>", 2⟩] := by
  intro s program
  have hrun : (s.interpret 40 program).any (fun r => r.1.error.any fun d =>
      d.trace = [⟨"<fn b>", 2⟩, ⟨"<fn a>", 7⟩]) = true := by
    decide +kernel
  obtain ⟨⟨step, t⟩, h, herror⟩ := Option.any_eq_true _ _ |>.1 hrun
  obtain ⟨d, hd, htrace⟩ := Option.any_eq_true _ _ |>.1 herror
  obtain ⟨hraised, hall⟩ := trace_lists_active_calls (s := s) .here h
  obtain ⟨path, b, u, e, v, hpath, hb⟩ := hraised d hd
  obtain ⟨hactive, -, hshown, -⟩ := hall path b u e v hpath hb
  have htraces : s.options.trace = true := by decide
  refine ⟨path, b, u, e, v, hpath, hb, ?_⟩
  rw [hd, if_pos htraces, Option.some_inj] at hshown
  rw [hshown, Diagnostic.trace, decide_eq_true_eq, List.reverse_eq_iff] at htrace
  rw [← hactive, htrace]
  rfl

end LoxLang
