import LoxLang.Proofs.Run.Plan
import LoxLang.Session

/-!
# The course of a run

Which activities a run comes to, and in which states. An activity begins only smaller ones, so what
holds of an activity as soon as it holds of all smaller ones holds of every activity.

Main statements: `size_lt_of_begins`; `fails_of_reaches`, that an error anywhere in a run ends the run
with that error; `exists_failed_move`, that every error has come up in a place like that; and
`Session.run_eq_some`, on how a source that was run has ended.
-/

namespace LoxLang

/-! ### States and what remains to be done -/

/-- The state in which an activity begins, with one more active call if it has one of its own. -/
def RunState.entering (s : RunState) : Option Frame → RunState
  | none => s
  | some frame => { s with frames := s.frames.push frame }

/-- Carrying out a plan in a state comes to what remains of it in another state. -/
inductive Plan.Leads (o : Options) {α : Type} : Plan α → RunState → Plan α → RunState → Prop where
  | here {p : Plan α} : Leads o p s p s
  | move {m : Run β} {next : β → Plan α} (h : m s = .done b t) (rest : Leads o (next b) t q u) :
      Leads o (.move m next) s q u
  | begin {a : Activity} {b : a.Result} {next : a.Result → Plan α}
      (h : a.runAs o call s = .done b t) (rest : Leads o (next b) t q u) :
      Leads o (.begin call a next) s q u

/-- The state in which an activity leaves off, its active call gone if it had one of its own. -/
def RunState.leaving (s : RunState) : Option Frame → RunState
  | none => s
  | some _ => { s with frames := s.frames.pop }

/-- Two errors that differ at most in their traces. -/
def RuntimeError.Same (e f : RuntimeError) : Prop := e.token = f.token ∧ e.fault = f.fault

theorem RuntimeError.Same.trans {e f g : RuntimeError} (h : e.Same f) (h' : f.Same g) : e.Same g :=
  ⟨h.1.trans h'.1, h.2.trans h'.2⟩

theorem RuntimeError.traced_same (e : RuntimeError) (active : List Frame) :
    (e.traced active).Same e := by
  rw [traced]
  split <;> exact ⟨rfl, rfl⟩

namespace Activity

/-- An activity in a state begins another one in a state. -/
def Begins (o : Options) (a : Activity) (s : RunState) (b : Activity) (t : RunState) : Prop :=
  ∃ call next u, (a.plan o).Leads o s (.begin call b next) u ∧ t = u.entering call

/-- The activities that an activity in a state begins, those that they begin, and so on. -/
inductive Reaches (o : Options) : Activity → RunState → Activity → RunState → Prop where
  | here : Reaches o a s a s
  | later (h : Begins o a s b t) (rest : Reaches o b t c u) : Reaches o a s c u

/-- The states that an activity passes through, itself or in what it begins. -/
def Visits (o : Options) (a : Activity) (s t : RunState) : Prop :=
  ∃ b u, Reaches o a s b u ∧ ∃ q, (b.plan o).Leads o u q t

end Activity

namespace Plan

variable {o : Options} {s t : RunState}

theorem leads_done {a : α} {q : Plan α} : (done a).Leads o s q t ↔ q = done a ∧ t = s := by
  constructor
  · rintro ⟨⟩
    exact ⟨rfl, rfl⟩
  · rintro ⟨rfl, rfl⟩
    exact .here

theorem leads_move {m : Run β} {next : β → Plan α} {q : Plan α} :
    (move m next).Leads o s q t ↔
      (q = move m next ∧ t = s) ∨ ∃ b u, m s = .done b u ∧ (next b).Leads o u q t := by
  constructor
  · rintro (_ | ⟨h, rest⟩)
    · exact .inl ⟨rfl, rfl⟩
    · exact .inr ⟨_, _, h, rest⟩
  · rintro (⟨rfl, rfl⟩ | ⟨b, u, h, rest⟩)
    · exact .here
    · exact .move h rest

theorem leads_begin {call : Option Frame} {a : Activity} {next : a.Result → Plan α} {q : Plan α} :
    (begin call a next).Leads o s q t ↔
      (q = begin call a next ∧ t = s) ∨
        ∃ b u, a.runAs o call s = .done b u ∧ (next b).Leads o u q t := by
  constructor
  · rintro (_ | _ | ⟨h, rest⟩)
    · exact .inl ⟨rfl, rfl⟩
    · exact .inr ⟨_, _, h, rest⟩
  · rintro (⟨rfl, rfl⟩ | ⟨b, u, h, rest⟩)
    · exact .here
    · exact .begin h rest

/-- What remains of a plan ends as the plan does. -/
theorem Leads.run_eq {p q : Plan α} (h : p.Leads o s q t) : p.run o s = q.run o t := by
  induction h with
  | here => rfl
  | move hm _ ih => rw [run, Run.run_bind, hm, ← ih]
  | begin ha _ ih => rw [run, Run.run_bind, ha, ← ih]

/-- All that a plan does itself is of one kind, and all that it begins of another. -/
def All (P : {β : Type} → Run β → Prop) (Q : Option Frame → Activity → Prop) : Plan α → Prop
  | .done _ => True
  | .move m next => P m ∧ ∀ b, (next b).All P Q
  | .begin call a next => Q call a ∧ ∀ b, (next b).All P Q

section All

variable {P P' : {β : Type} → Run β → Prop} {Q Q' : Option Frame → Activity → Prop} {p q : Plan α}

theorem All.of_leads (hp : p.All P Q) (h : p.Leads o s q t) : q.All P Q := by
  induction h with
  | here => exact hp
  | move _ _ ih => exact ih (hp.2 _)
  | begin _ _ ih => exact ih (hp.2 _)

theorem All.and (h : p.All P Q) (h' : p.All P' Q') :
    p.All (fun m => P m ∧ P' m) (fun call a => Q call a ∧ Q' call a) := by
  induction p with
  | done a => trivial
  | move m next ih => exact ⟨⟨h.1, h'.1⟩, fun b => ih b (h.2 b) (h'.2 b)⟩
  | begin call a next ih => exact ⟨⟨h.1, h'.1⟩, fun b => ih b (h.2 b) (h'.2 b)⟩

theorem All.mono (h : p.All P Q) (hP : ∀ {β : Type} (m : Run β), P m → P' m)
    (hQ : ∀ call a, Q call a → Q' call a) : p.All P' Q' := by
  induction p with
  | done a => trivial
  | move m next ih => exact ⟨hP m h.1, fun b => ih b (h.2 b)⟩
  | begin call a next ih => exact ⟨hQ call a h.1, fun b => ih b (h.2 b)⟩

end All

/-- Where a plan that fails has come to when it does. -/
theorem failed_cases {p : Plan α} {e : RuntimeError} (h : p.run o s = .failed e t) :
    (∃ (β : Type) (m : Run β) (next : β → Plan α) (u : RunState),
        p.Leads o s (.move m next) u ∧ m u = .failed e t) ∨
      ∃ (call : Option Frame) (a : Activity) (next : a.Result → Plan α) (u : RunState),
        p.Leads o s (.begin call a next) u ∧ a.runAs o call u = .failed e t := by
  induction p generalizing s with
  | done a => simp [run, Run.run_pure] at h
  | move m next ih =>
    rw [run, Run.run_bind] at h
    cases hm : m s with
    | done b s' =>
      rw [hm] at h
      rcases ih b h with ⟨β, m', k, u, hl, hf⟩ | ⟨call, a, k, u, hl, hf⟩
      · exact .inl ⟨β, m', k, u, .move hm hl, hf⟩
      · exact .inr ⟨call, a, k, u, .move hm hl, hf⟩
    | failed e' s' =>
      rw [hm] at h
      cases h
      exact .inl ⟨_, m, next, s, .here, hm⟩
    | exhausted => simp [hm] at h
  | begin call a next ih =>
    rw [run, Run.run_bind] at h
    cases ha : a.runAs o call s with
    | done b s' =>
      rw [ha] at h
      rcases ih b h with ⟨β, m', k, u, hl, hf⟩ | ⟨call', a', k, u, hl, hf⟩
      · exact .inl ⟨β, m', k, u, .begin ha hl, hf⟩
      · exact .inr ⟨call', a', k, u, .begin ha hl, hf⟩
    | failed e' s' =>
      rw [ha] at h
      cases h
      exact .inr ⟨call, a, next, s, .here, ha⟩
    | exhausted => simp [ha] at h

end Plan

namespace Activity

variable {o : Options} {a b : Activity} {s t u : RunState}

/-- An activity begins only smaller ones. -/
theorem plan_below (o : Options) (a : Activity) :
    (a.plan o).All (fun _ => True) (fun _ b => b.size < a.size) := by
  unfold plan
  split <;> simp only [Plan.All, size, List.length_cons, Nat.lt_succ_self, implies_true, and_self,
    true_and]
  -- what is left branches on a result
  case h_22 =>
    intro c
    split
    · exact ⟨Nat.lt_succ_self _, fun c => by cases c <;> simp [Plan.All]⟩
    · trivial
  case h_45 => exact ⟨by omega, fun c => by cases c <;> simp [Plan.All]⟩
  all_goals
    intros
    repeat' split
    all_goals simp [Plan.All]

theorem size_lt_of_begins (h : a.Begins o s b t) : b.size < a.size := by
  obtain ⟨call, next, u, hl, -⟩ := h
  exact ((plan_below o a).of_leads hl).1

theorem induction_on_size {P : Activity → Prop}
    (h : ∀ a, (∀ b, b.size < a.size → P b) → P a) (a : Activity) : P a :=
  h a fun b _ => induction_on_size h b
termination_by a.size

/-! ### Errors -/

theorem runAs_done {call : Option Frame} {r : a.Result} (h : a.runAs o call s = .done r t) :
    ∃ u, a.run o (s.entering call) = .done r u ∧ t = u.leaving call := by
  cases call with
  | none => exact ⟨t, h, rfl⟩
  | some frame =>
    simp only [runAs, Run.within] at h
    split at h
    · next u hu =>
      cases h
      exact ⟨u, hu, rfl⟩
    · cases h
    · cases h

theorem runAs_failed {call : Option Frame} {e : RuntimeError}
    (h : a.runAs o call s = .failed e t) :
    ∃ e' u, a.run o (s.entering call) = .failed e' u ∧ t = u.leaving call ∧ e.Same e' := by
  cases call with
  | none => exact ⟨e, t, h, rfl, rfl, rfl⟩
  | some frame =>
    simp only [runAs, Run.within] at h
    split at h
    · cases h
    · next e' u hu =>
      cases h
      refine ⟨e', u, hu, rfl, ?_⟩
      split
      · exact RuntimeError.traced_same e' _
      · exact ⟨rfl, rfl⟩
    · cases h

theorem runAs_of_failed {e : RuntimeError} (call : Option Frame)
    (h : a.run o (s.entering call) = .failed e t) :
    ∃ e' u, a.runAs o call s = .failed e' u ∧ e'.Same e := by
  cases call with
  | none => exact ⟨e, t, h, rfl, rfl⟩
  | some frame =>
    refine ⟨if o.trace then e.traced t.frames.toList.reverse else e, t.leaving (some frame), ?_, ?_⟩
    · simp only [runAs, Run.within]
      rw [show a.run o { s with frames := s.frames.push frame } = .failed e t from h]
      rfl
    · split
      · exact RuntimeError.traced_same e _
      · exact ⟨rfl, rfl⟩

/-- An error of a begun activity is one of the activity that began it. -/
theorem fails_of_begins {e : RuntimeError} (h : a.Begins o s b t) (hb : b.run o t = .failed e u) :
    ∃ e' u', a.run o s = .failed e' u' ∧ e'.Same e := by
  obtain ⟨call, next, v, hl, rfl⟩ := h
  obtain ⟨e', u', hf, he⟩ := runAs_of_failed call hb
  refine ⟨e', u', ?_, he⟩
  rw [run_eq_plan, hl.run_eq, Plan.run, Run.run_bind, hf]

/-- An error anywhere in a run ends the run. -/
theorem fails_of_reaches {e : RuntimeError} (h : Reaches o a s b t)
    (hb : b.run o t = .failed e u) : ∃ e' u', a.run o s = .failed e' u' ∧ e'.Same e := by
  induction h with
  | here => exact ⟨e, u, hb, rfl, rfl⟩
  | later h _ ih =>
    obtain ⟨e₁, u₁, h₁, he₁⟩ := ih hb
    obtain ⟨e₂, u₂, h₂, he₂⟩ := fails_of_begins h h₁
    exact ⟨e₂, u₂, h₂, he₂.trans he₁⟩

/-- An error of a run has come up in something that one of its activities did itself. -/
theorem exists_failed_move {e : RuntimeError} (h : a.run o s = .failed e u) :
    ∃ b t, Reaches o a s b t ∧ ∃ (β : Type) (m : Run β) (next : β → Plan b.Result) (v w : RunState)
      (e' : RuntimeError), (b.plan o).Leads o t (.move m next) v ∧ m v = .failed e' w ∧ e.Same e' := by
  induction a using induction_on_size generalizing s e u with
  | h a ih =>
    rw [run_eq_plan] at h
    rcases Plan.failed_cases h with ⟨β, m, next, v, hl, hm⟩ | ⟨call, b, next, v, hl, hb⟩
    · exact ⟨a, s, .here, β, m, next, v, u, e, hl, hm, rfl, rfl⟩
    · have hab : a.Begins o s b (v.entering call) := ⟨call, next, v, hl, rfl⟩
      obtain ⟨e', u', hb', -, he⟩ := runAs_failed hb
      obtain ⟨c, t, hr, β, m, k, v', w, e'', hl', hm, he'⟩ := ih b (size_lt_of_begins hab) hb'
      exact ⟨c, t, .later hab hr, β, m, k, v', w, e'', hl', hm, he.trans he'⟩

end Activity

/-! ### Sessions -/

namespace Session

/-- The state in which a session runs its next program. -/
def ready (s : Session) : RunState := { s.state with output := "" }

/-- How a program that was run has ended. -/
theorem interpret_eq_some {s t : Session} {fuel : Nat} {program : List Stmt} {step : Step}
    (h : s.interpret fuel program = some (step, t)) :
    t.options = s.options ∧
      ((step.error = none ∧ Run.program s.options fuel globals program s.ready = .done () t.state) ∨
        ∃ e, step.error = some e.diagnostic ∧
          Run.program s.options fuel globals program s.ready = .failed e t.state) := by
  rw [interpret] at h
  split at h
  · next state hs =>
    cases h
    exact ⟨rfl, .inl ⟨rfl, hs⟩⟩
  · next e state hs =>
    cases h
    exact ⟨rfl, .inr ⟨e, rfl, hs⟩⟩
  · cases h

/-- A source that was run was refused, or its program was run. -/
theorem run_eq_some {s t : Session} {fuel : Nat} {source : List Char} {step : Step}
    (h : s.run fuel source = some (step, t)) :
    (∃ program, compile source = .ok program ∧ s.interpret fuel program = some (step, t)) ∨
      ∃ errors, compile source = .error errors ∧ step.error = some (.several errors) ∧ t = s := by
  rw [run] at h
  split at h
  · next program hc => exact .inl ⟨program, hc, h⟩
  · next errors hc =>
    cases h
    exact .inr ⟨errors, hc, rfl, rfl⟩

theorem run_options {s t : Session} {fuel : Nat} {source : List Char} {step : Step}
    (h : s.run fuel source = some (step, t)) : t.options = s.options := by
  rcases run_eq_some h with ⟨program, -, hr⟩ | ⟨errors, -, -, rfl⟩
  · exact (interpret_eq_some hr).1
  · rfl

end Session

end LoxLang
