import LoxLang.Proofs.Run.Course

/-!
# The call stack

Calls nest, and only so deep. Whatever begins while a program runs leaves the active calls as it found
them when it ends, whether or not with an error; only a call adds one to them, and only below the
limit.

Main statement: `call_stack_discipline`.
-/

namespace LoxLang

/-! ### What leaves the active calls alone -/

namespace Run

/-- Whatever way a computation ends, the active calls are those it began with. -/
structure Balanced (m : Run α) : Prop where
  done : ∀ {s a t}, m s = .done a t → t.frames = s.frames
  failed : ∀ {s e t}, m s = .failed e t → t.frames = s.frames

/-- A balanced computation that does not complain of too many calls, and whose errors have no trace yet. -/
structure Steady (m : Run α) : Prop extends Balanced m where
  no_overflow : ∀ {s e t}, m s = .failed e t → e.fault ≠ .stackOverflow
  untraced : ∀ {s e t}, m s = .failed e t → e.trace = []

theorem Balanced.bind {m : Run α} {f : α → Run β} (hm : Balanced m) (hf : ∀ a, Balanced (f a)) :
    Balanced (m >>= f) := by
  constructor
  · intro s b t h
    rw [run_bind] at h
    cases hs : m s with
    | done a u =>
      rw [hs] at h
      exact ((hf a).done h).trans (hm.done hs)
    | failed e u => simp [hs] at h
    | exhausted => simp [hs] at h
  · intro s e t h
    rw [run_bind] at h
    cases hs : m s with
    | done a u =>
      rw [hs] at h
      exact ((hf a).failed h).trans (hm.done hs)
    | failed e' u =>
      rw [hs] at h
      cases h
      exact hm.failed hs
    | exhausted => simp [hs] at h

theorem Steady.bind {m : Run α} {f : α → Run β} (hm : Steady m) (hf : ∀ a, Steady (f a)) :
    Steady (m >>= f) := by
  -- whichever of the two has failed
  have hfailed {s e t} (h : (m >>= f) s = .failed e t) : e.fault ≠ .stackOverflow ∧ e.trace = [] := by
    rw [run_bind] at h
    cases hs : m s with
    | done a u =>
      rw [hs] at h
      exact ⟨(hf a).no_overflow h, (hf a).untraced h⟩
    | failed e' u =>
      rw [hs] at h
      cases h
      exact ⟨hm.no_overflow hs, hm.untraced hs⟩
    | exhausted => simp [hs] at h
  exact ⟨hm.toBalanced.bind fun a => (hf a).toBalanced, fun h => (hfailed h).1, fun h => (hfailed h).2⟩

/-- What always succeeds without touching the active calls is steady. -/
theorem Steady.of_done {m : Run α} (h : ∀ s, ∃ a t, m s = .done a t ∧ t.frames = s.frames) :
    Steady m := by
  refine ⟨⟨?_, ?_⟩, ?_, ?_⟩ <;> intro s r t hs <;> obtain ⟨a, u, hu, hf⟩ := h s <;> rw [hu] at hs
  · cases hs
    exact hf
  · cases hs
  · cases hs
  · cases hs

@[simp] theorem steady_pure (a : α) : Steady (pure a) := .of_done fun s => ⟨a, s, rfl, rfl⟩

@[simp] theorem steady_read (f : Store → α) : Steady (read f) := .of_done fun s => ⟨_, s, rfl, rfl⟩

@[simp] theorem steady_change (f : Store → Store) : Steady (change f) :=
  .of_done fun _ => ⟨_, _, rfl, rfl⟩

@[simp] theorem steady_make (f : Store → α × Store) : Steady (make f) :=
  .of_done fun _ => ⟨_, _, rfl, rfl⟩

@[simp] theorem steady_print (text : String) : Steady (print text) :=
  .of_done fun _ => ⟨_, _, rfl, rfl⟩

@[simp] theorem steady_exhausted : Steady (exhausted : Run α) := by
  refine ⟨⟨?_, ?_⟩, ?_, ?_⟩ <;> intro s r t hs <;> cases hs

theorem steady_fail (token : Token) {fault : Fault} (h : fault ≠ .stackOverflow) :
    Steady (fail token fault : Run α) := by
  refine ⟨⟨?_, ?_⟩, ?_, ?_⟩ <;> intro s r t hs <;> cases hs
  · rfl
  · exact h
  · rfl

@[simp] theorem steady_lookup (scope : ScopeId) (name : Token) : Steady (lookup scope name) := by
  refine ⟨⟨?_, ?_⟩, ?_, ?_⟩ <;> intro s r t hs <;> unfold lookup at hs <;> split at hs <;> cases hs
  · rfl
  · rfl
  · simp
  · rfl

@[simp] theorem steady_assign (scope : ScopeId) (name : Token) (v : Value) :
    Steady (assign scope name v) := by
  refine ⟨⟨?_, ?_⟩, ?_, ?_⟩ <;> intro s r t hs <;> unfold assign at hs <;> split at hs <;> cases hs
  · rfl
  · rfl
  · simp
  · rfl

@[simp] theorem steady_property (object : Value) (name : Token) :
    Steady (property object name) := by
  unfold property
  split
  · refine .bind (by simp) fun field => ?_
    split
    · simp
    refine .bind (by simp) fun method => ?_
    split
    · simp [bindMethod]
    · exact steady_fail name (by simp)
  · exact steady_fail name (by simp)

@[simp] theorem steady_fieldOwner (object : Value) (name : Token) :
    Steady (fieldOwner object name) := by
  unfold fieldOwner
  split
  · simp
  · exact steady_fail name (by simp)

@[simp] theorem steady_superMethod (scope : ScopeId) (keyword method : Token) :
    Steady (superMethod scope keyword method) := by
  rw [superMethod]
  refine .bind (by simp) fun superclass => ?_
  split
  · refine .bind (by simp) fun receiver => ?_
    split
    · refine .bind (by simp) fun m => ?_
      split
      · simp [bindMethod]
      · exact steady_fail method (by simp)
    · exact steady_fail keyword (by simp)
  · exact steady_fail keyword (by simp)

@[simp] theorem steady_superclassNamed (scope : ScopeId) (name : Token) :
    Steady (superclassNamed scope name) := by
  rw [superclassNamed]
  refine .bind (by simp) fun v => ?_
  split
  · simp
  · exact steady_fail name (by simp)

@[simp] theorem steady_declareClass (scope : ScopeId) (name : Token) (superclass : Option Token)
    (methods : List FunctionDecl) : Steady (declareClass scope name superclass methods) := by
  cases superclass with
  | none =>
    rw [declareClass_none]
    exact .bind (by simp) fun _ => .bind (by simp) fun ref => by simp
  | some superName =>
    rw [declareClass_some]
    exact .bind (by simp) fun c => .bind (by simp) fun _ => .bind (by simp) fun inner =>
      .bind (by simp) fun ref => by simp

@[simp] theorem steady_enter (f : Closure) (args : List Value) : Steady (enter f args) :=
  steady_make _

@[simp] theorem steady_leave (f : Closure) (c : Completion) : Steady (leave f c) := by
  rw [leave]
  split
  · refine .bind (by simp) fun receiver => ?_
    split
    · split
      · simp
      · exact steady_fail _ (by simp)
    · simp
  · simp

@[simp] theorem steady_applyUnary (op : Token) (v : Value) : Steady (applyUnary op v) := by
  unfold applyUnary
  split
  · simp
  · simp
  · exact steady_fail op (by simp)
  · exact steady_fail op (by simp)

@[simp] theorem steady_applyBinary (op : Token) (l r : Value) : Steady (applyBinary op l r) := by
  unfold applyBinary
  split
  · simp
  · simp
  · unfold applyPlus
    split
    · simp
    · simp
    · exact steady_fail op (by simp)
  · split
    · rw [applyNumeric]
      split
      case h_8 => exact steady_fail op (by simp)
      all_goals simp
    · exact steady_fail op (by simp)

theorem balanced_guardDepth (o : Options) (paren : Token) : Balanced (guardDepth o paren) := by
  constructor <;> intro s r t hs <;> unfold guardDepth at hs <;> split at hs <;> cases hs <;> rfl

end Run

namespace Activity

variable {o : Options} {a b : Activity} {s t : RunState}

/-- Whatever is no call is steady in all that it does itself, and begins nothing as a call. -/
theorem plan_steady (o : Options) (h : ∀ n callee paren args, a ≠ .call n callee paren args) :
    (a.plan o).All Run.Steady (fun call _ => call = none) := by
  unfold plan
  split <;> simp only [Plan.All, Run.steady_exhausted, Run.steady_print, Run.steady_change,
    Run.steady_make, Run.steady_read, Run.steady_lookup, Run.steady_assign, Run.steady_property,
    Run.steady_fieldOwner, Run.steady_superMethod, Run.steady_declareClass, Run.steady_enter,
    Run.steady_leave, Run.steady_applyUnary, Run.steady_applyBinary, implies_true, and_self,
    true_and]
  -- what is left branches on a result
  case h_22 =>
    intro c
    split
    · exact ⟨rfl, fun c => by cases c <;> simp [Plan.All]⟩
    · trivial
  case h_39 => exact absurd rfl (h _ _ _ _)
  case h_45 =>
    intro c
    cases c with
    | normal => simp [Plan.All]
    | returned keyword v => exact ⟨Run.steady_fail keyword (by simp), fun _ => trivial⟩
  all_goals
    intros
    repeat' split
    all_goals simp [Plan.All]

theorem plan_balanced (o : Options) (a : Activity) :
    (a.plan o).All Run.Balanced (fun _ _ => True) := by
  by_cases h : ∃ n callee paren args, a = .call n callee paren args
  · obtain ⟨n, callee, paren, args, rfl⟩ := h
    cases n with
    | zero => exact ⟨Run.steady_exhausted.toBalanced, fun _ => trivial⟩
    | succ n =>
      refine ⟨(Run.steady_read _).toBalanced, fun arity => ?_⟩
      cases arity with
      | none => exact ⟨(Run.steady_fail paren (by simp)).toBalanced, fun _ => trivial⟩
      | some k =>
        dsimp only
        split
        · exact ⟨Run.balanced_guardDepth o paren, fun _ => ⟨trivial, fun _ => trivial⟩⟩
        · exact ⟨(Run.steady_fail paren (by simp)).toBalanced, fun _ => trivial⟩
  · refine (plan_steady o ?_).mono (fun m hm => hm.toBalanced) (fun _ _ _ => trivial)
    simpa using h

theorem balanced_runAs (h : Run.Balanced (a.run o)) (call : Option Frame) :
    Run.Balanced (a.runAs o call) := by
  have hpop (s u : RunState) (hu : u.frames = (s.entering call).frames) :
      (u.leaving call).frames = s.frames := by
    cases call with
    | none => exact hu
    | some frame => simp [RunState.leaving, hu, RunState.entering]
  constructor
  · intro s r t ht
    obtain ⟨u, hu, rfl⟩ := runAs_done ht
    exact hpop _ u (h.done hu)
  · intro s e t ht
    obtain ⟨e', u, hu, rfl, -⟩ := runAs_failed ht
    exact hpop _ u (h.failed hu)

theorem balanced_plan {p : Plan α} (hp : p.All Run.Balanced (fun _ a => Run.Balanced (a.run o))) :
    Run.Balanced (p.run o) := by
  induction p with
  | done a => exact (Run.steady_pure a).toBalanced
  | move m next ih => exact hp.1.bind fun b => ih b (hp.2 b)
  | begin call a next ih => exact (balanced_runAs hp.1 call).bind fun b => ih b (hp.2 b)

/-- Whatever ends leaves the active calls as it found them. -/
theorem run_balanced (o : Options) (a : Activity) : Run.Balanced (a.run o) := by
  induction a using induction_on_size with
  | h a ih =>
    rw [run_eq_plan]
    exact balanced_plan (((plan_balanced o a).and (plan_below o a)).mono (fun m hm => hm.1)
      (fun call b hb => ih b hb.2))

theorem frames_of_leads {q : Plan a.Result} (h : (a.plan o).Leads o s q t) :
    t.frames = s.frames := by
  have hp := plan_balanced o a
  generalize a.plan o = p at h hp
  induction h with
  | here => rfl
  | move hm _ ih => exact (ih (hp.2 _)).trans (hp.1.done hm)
  | begin ha _ ih => exact (ih (hp.2 _)).trans ((balanced_runAs (run_balanced o _) _).done ha)

/-! ### Calls -/

section Call

variable {n : Nat} {callee : Value} {paren : Token} {args : List Value}

/-- A call that passes its checks while as many calls as allowed are active fails at once. -/
theorem run_call_of_full (ha : s.store.arity? callee = some args.length)
    (hd : o.allowsCall s.frames.size = false) :
    (call (n + 1) callee paren args).run o s = .failed { token := paren, fault := .stackOverflow } s := by
  simp [run, Run.call, Run.run_bind, Run.read, ha, Run.guardDepth, hd]

/-- A call that passes its checks below the limit applies what is called. -/
theorem call_begins (ha : s.store.arity? callee = some args.length)
    (hd : o.allowsCall s.frames.size = true) :
    (call (n + 1) callee paren args).Begins o s (.apply n callee args)
      (s.entering (some { name := callee.display, line := paren.line })) := by
  refine ⟨some _, .done, s, ?_, rfl⟩
  rw [plan, Plan.leads_move]
  refine .inr ⟨_, s, rfl, ?_⟩
  simp only [ha, if_true]
  exact .move (by simp [Run.guardDepth, hd]; rfl) .here

/-- A call begins nothing else, and nothing unless it passes its checks below the limit. -/
theorem begins_of_call (h : (call (n + 1) callee paren args).Begins o s b t) :
    s.store.arity? callee = some args.length ∧ o.allowsCall s.frames.size = true ∧
      b = .apply n callee args ∧
      t = s.entering (some { name := callee.display, line := paren.line }) := by
  obtain ⟨c, next, u, hl, rfl⟩ := h
  rw [plan, Plan.leads_move] at hl
  rcases hl with ⟨h, -⟩ | ⟨arity, t, h, hl⟩
  · cases h
  cases h
  cases ha : s.store.arity? callee with
  | none => simp [ha, Plan.leads_move, Run.fail] at hl
  | some k =>
    simp only [ha] at hl
    split at hl
    · next hk =>
      subst hk
      rw [Plan.leads_move] at hl
      rcases hl with ⟨h, -⟩ | ⟨_, v, h, hl⟩
      · cases h
      rw [Run.guardDepth] at h
      split at h
      · next hd =>
        cases h
        rw [Plan.leads_begin] at hl
        rcases hl with ⟨h, rfl⟩ | ⟨r, w, -, hl⟩
        · cases h
          exact ⟨rfl, hd, rfl, rfl⟩
        · simp [Plan.leads_done] at hl
      · cases h
    · simp [Plan.leads_move, Run.fail] at hl

end Call

/-- No more calls are active than allowed when an activity begins, if none were before. -/
theorem frames_le_of_begins (hs : (s.frames.size : Int) ≤ o.maxCallDepth) (h : a.Begins o s b t) :
    (t.frames.size : Int) ≤ o.maxCallDepth := by
  by_cases hc : ∃ n callee paren args, a = .call n callee paren args
  · obtain ⟨n, callee, paren, args, rfl⟩ := hc
    cases n with
    | zero =>
      obtain ⟨c, next, u, hl, rfl⟩ := h
      simp [plan, Plan.leads_move, Run.exhausted] at hl
    | succ n =>
      obtain ⟨-, hd, -, rfl⟩ := begins_of_call h
      simp only [Options.allowsCall, decide_eq_true_eq] at hd
      simp only [RunState.entering, Array.size_push]
      omega
  · obtain ⟨c, next, u, hl, rfl⟩ := h
    obtain rfl : c = none := ((plan_steady o (by simpa using hc)).of_leads hl).1
    rw [RunState.entering, frames_of_leads hl]
    exact hs

theorem frames_le_of_reaches (hs : (s.frames.size : Int) ≤ o.maxCallDepth)
    (h : Reaches o a s b t) : (t.frames.size : Int) ≤ o.maxCallDepth := by
  induction h with
  | here => exact hs
  | later hb _ ih => exact ih (frames_le_of_begins hs hb)

/-- At no moment are more calls active than allowed. -/
theorem frames_le_of_visits (hs : (s.frames.size : Int) ≤ o.maxCallDepth) (h : a.Visits o s t) :
    (t.frames.size : Int) ≤ o.maxCallDepth := by
  obtain ⟨b, u, hr, q, hl⟩ := h
  rw [frames_of_leads hl]
  exact frames_le_of_reaches hs hr

/-! ### Overflow -/

/-- A call that passes its checks is attempted in a run while as many as allowed are active. -/
def ReachesFullCall (o : Options) (a : Activity) (s : RunState) : Prop :=
  ∃ n callee paren args t, Reaches o a s (.call (n + 1) callee paren args) t ∧
    t.store.arity? callee = some args.length ∧ (t.frames.size : Int) = o.maxCallDepth

theorem ReachesFullCall.of_begins (h : a.Begins o s b t) (hb : b.ReachesFullCall o t) :
    a.ReachesFullCall o s := by
  obtain ⟨n, callee, paren, args, u, hr, hu⟩ := hb
  exact ⟨n, callee, paren, args, u, .later h hr, hu⟩

theorem fails_of_reachesFullCall (h : a.ReachesFullCall o s) :
    ∃ e t, a.run o s = .failed e t ∧ e.fault = .stackOverflow := by
  obtain ⟨n, callee, paren, args, t, hr, ha, ht⟩ := h
  have hd : o.allowsCall t.frames.size = false := by simp [Options.allowsCall, ht]
  obtain ⟨e, u, hf, he⟩ := fails_of_reaches hr (run_call_of_full ha hd)
  exact ⟨e, u, hf, he.2⟩

theorem reachesFullCall_of_failed {e : RuntimeError} (hs : (s.frames.size : Int) ≤ o.maxCallDepth)
    (h : a.run o s = .failed e t) (he : e.fault = .stackOverflow) : a.ReachesFullCall o s := by
  induction a using induction_on_size generalizing s e t with
  | h a ih =>
    -- an overflow of something that the activity begins
    have below {b : Activity} {c : Option Frame} {u : RunState}
        (hb : a.Begins o s b (u.entering c)) (hf : b.runAs o c u = .failed e t) :
        a.ReachesFullCall o s := by
      obtain ⟨e', t', hf', -, hsame⟩ := runAs_failed hf
      exact .of_begins hb (ih b (size_lt_of_begins hb) (frames_le_of_begins hs hb) hf'
        (hsame.2 ▸ he))
    by_cases hc : ∃ n callee paren args, a = .call n callee paren args
    · obtain ⟨n, callee, paren, args, rfl⟩ := hc
      cases n with
      | zero => simp [run, Run.call, Run.exhausted] at h
      | succ n =>
        simp only [run, Run.call, Run.run_bind, Run.read] at h
        cases ha : s.store.arity? callee with
        | none =>
          rw [ha] at h
          cases h
          cases he
        | some k =>
          simp only [ha] at h
          split at h
          · next hk =>
            subst hk
            by_cases hd : o.allowsCall s.frames.size = true
            · simp only [Run.run_bind, Run.guardDepth, hd, if_true] at h
              exact below (c := some _) (call_begins ha hd) h
            · refine ⟨n, callee, paren, args, s, .here, ha, ?_⟩
              simp only [Options.allowsCall, decide_eq_true_eq] at hd
              omega
          · cases h
            cases he
    · rw [run_eq_plan] at h
      rcases Plan.failed_cases h with ⟨β, m, next, u, hl, hm⟩ | ⟨call, b, next, u, hl, hb⟩
      · have hsteady := ((plan_steady o (by simpa using hc)).of_leads hl).1
        exact absurd he (hsteady.no_overflow hm)
      · exact below ⟨call, next, u, hl, rfl⟩ hb

end Activity

/-! ### Sessions -/

namespace Session

/-- A session comes from another one by running programs, whichever they are. -/
inductive Follows : Session → Session → Prop where
  | here : Follows s s
  | later (earlier : Follows s t) (h : t.interpret fuel program = some (step, u)) : Follows s u

variable {s t : Session}

theorem frames_of_interpret {fuel : Nat} {program : List Stmt} {step : Step}
    (h : s.interpret fuel program = some (step, t)) : t.state.frames = s.state.frames := by
  have hb := Activity.run_balanced s.options (.program fuel globals program)
  change t.state.frames = s.ready.frames
  rcases interpret_eq_some h with ⟨-, ⟨-, hr⟩ | ⟨e, -, hr⟩⟩
  · exact hb.done hr
  · exact hb.failed hr

theorem Follows.options_eq (h : Follows s t) : t.options = s.options := by
  induction h with
  | here => rfl
  | later _ h ih => exact (interpret_eq_some h).1.trans ih

theorem Follows.frames_eq (h : Follows s t) : t.state.frames = s.state.frames := by
  induction h with
  | here => rfl
  | later _ h ih => exact (frames_of_interpret h).trans ih

theorem isA_stackOverflow_diagnostic (e : RuntimeError) :
    e.diagnostic.isA .stackOverflow = true ↔ e.fault = .stackOverflow := by
  simp [RuntimeError.diagnostic, Diagnostic.isA]

/-- A run shows an overflow exactly if it comes to a call that is one too many. -/
theorem shows_overflow_iff {fuel : Nat} {program : List Stmt} {step : Step}
    (hs : (s.ready.frames.size : Int) ≤ s.options.maxCallDepth)
    (h : s.interpret fuel program = some (step, t)) :
    (∃ d, step.error = some d ∧ d.isA .stackOverflow = true) ↔
      (Activity.program fuel globals program).ReachesFullCall s.options s.ready := by
  have hr := (interpret_eq_some h).2
  constructor
  · rintro ⟨d, hd, hover⟩
    rcases hr with ⟨hnone, -⟩ | ⟨e, he, hf⟩
    · simp [hnone] at hd
    · obtain rfl : e.diagnostic = d := by simpa [he] using hd
      exact Activity.reachesFullCall_of_failed hs hf ((isA_stackOverflow_diagnostic e).1 hover)
  · intro hfull
    obtain ⟨e, u, hf, he⟩ := Activity.fails_of_reachesFullCall hfull
    rcases hr with ⟨-, hdone⟩ | ⟨e', he', hf'⟩
    · simp [Activity.run, hdone] at hf
    · obtain ⟨rfl, -⟩ : e' = e ∧ t.state = u := by simpa [Activity.run, hf'] using hf
      exact ⟨e'.diagnostic, he', (isA_stackOverflow_diagnostic e').2 he⟩

end Session

/-- With any options, or none, the limit on active calls lies between 1 and 10000. Whatever begins
while a program runs leaves the active calls as it found them, however it ends, and never are more of
them active than allowed. Overflow is the error of exactly those runs in which a call that passes its
checks is attempted at the limit; such a call begins nothing and changes nothing. After every run
of a session no call is active. -/
theorem call_stack_discipline (options : Option Options) (store : Store) :
    let o := (Session.start options store).options
    (1 ≤ o.maxCallDepth ∧ o.maxCallDepth ≤ 10000) ∧
    (∀ (a : Activity) (s : RunState), (∀ r t, a.run o s = .done r t → t.frames = s.frames) ∧
      ∀ e t, a.run o s = .failed e t → t.frames = s.frames) ∧
    (∀ (a : Activity) (s : RunState), (s.frames.size : Int) ≤ o.maxCallDepth →
      (∀ t, a.Visits o s t → (t.frames.size : Int) ≤ o.maxCallDepth) ∧
      ((∃ e t, a.run o s = .failed e t ∧ e.fault = .stackOverflow) ↔ a.ReachesFullCall o s)) ∧
    (∀ n callee paren args (s : RunState), s.store.arity? callee = some args.length →
      (s.frames.size : Int) = o.maxCallDepth →
      (Activity.call (n + 1) callee paren args).run o s =
          .failed { token := paren, fault := .stackOverflow } s ∧
        ∀ b t, ¬ (Activity.call (n + 1) callee paren args).Begins o s b t) ∧
    ∀ s, Session.Follows (Session.start options store) s →
      s.options = o ∧ s.state.frames = #[] ∧
      ∀ fuel program step t, s.interpret fuel program = some (step, t) →
        t.state.frames = #[] ∧
        ((∃ d, step.error = some d ∧ d.isA .stackOverflow = true) ↔
          (Activity.program fuel Session.globals program).ReachesFullCall o s.ready) := by
  intro o
  refine ⟨Options.normalized_depth _, ?_, ?_, ?_, ?_⟩
  · intro a s
    have hb := a.run_balanced o
    exact ⟨fun _ _ => hb.done, fun _ _ => hb.failed⟩
  · intro a s hs
    refine ⟨fun t => Activity.frames_le_of_visits hs, ?_, Activity.fails_of_reachesFullCall⟩
    rintro ⟨e, t, h, he⟩
    exact Activity.reachesFullCall_of_failed hs h he
  · intro n callee paren args s ha hs
    have hd : o.allowsCall s.frames.size = false := by simp [Options.allowsCall, hs]
    refine ⟨Activity.run_call_of_full ha hd, fun b t h => ?_⟩
    simp [(Activity.begins_of_call h).2.1] at hd
  · intro s hs
    have hframes : s.state.frames = #[] := hs.frames_eq
    have ho : s.options = o := hs.options_eq
    have hdepth : (s.ready.frames.size : Int) ≤ s.options.maxCallDepth := by
      have := (Options.normalized_depth (options.getD {})).1
      simp only [ho, Session.ready, hframes, List.size_toArray, List.length_nil]
      exact Int.le_trans (by decide) this
    refine ⟨ho, hframes, fun fuel program step t h => ⟨?_, ?_⟩⟩
    · exact (Session.frames_of_interpret h).trans hframes
    · rw [← ho]
      exact Session.shows_overflow_iff hdepth h

/-- A function that calls itself, and a call of it. -/
def selfCall : List Stmt :=
  let f : Token := { kind := .identifier, lexeme := "f", line := 1 }
  let call : Stmt := .expression (.call (.name f) { kind := .rightParen, lexeme := ")", line := 1 } [])
  [.function { name := f, params := [], body := [call] }, call]

/-- With a limit of one, the second call of `selfCall` is the one too many. -/
theorem selfCall_reachesFullCall :
    let s := Session.start (some { maxCallDepth := 1 }) Session.freshStore
    (Activity.program 20 Session.globals selfCall).ReachesFullCall s.options s.ready := by
  intro s
  have hrun : (s.interpret 20 selfCall).any (fun r => r.1.error.any (·.isA .stackOverflow)) = true := by
    decide +kernel
  obtain ⟨⟨step, t⟩, h, hover⟩ := Option.any_eq_true _ _ |>.1 hrun
  obtain ⟨d, hd, hA⟩ := Option.any_eq_true _ _ |>.1 hover
  have hsession := (call_stack_discipline (some { maxCallDepth := 1 }) Session.freshStore).2.2.2.2
  exact ((hsession s .here).2.2 20 selfCall step t h).2.1 ⟨d, hd, hA⟩

end LoxLang
