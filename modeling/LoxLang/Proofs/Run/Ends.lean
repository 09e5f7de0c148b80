import LoxLang.Proofs.Run.Course

/-!
# How activities end

An activity that comes to an end does so with a result or with an error, and leaves a state either way.

Main statements: `Activity.ends_iff_plan` and the laws for the forms of a plan.
-/

namespace LoxLang

/-- An activity that begins in a state ends in another, with a result or with an error. -/
def Activity.Ends (o : Options) (a : Activity) (s t : RunState) : Prop :=
  (∃ r, a.run o s = .done r t) ∨ ∃ e, a.run o s = .failed e t

/-- Carrying out a plan in a state ends in another, with a result or with an error. -/
def Plan.Ends (o : Options) (p : Plan α) (s t : RunState) : Prop :=
  (∃ r, p.run o s = .done r t) ∨ ∃ e, p.run o s = .failed e t

section Ends

variable {o : Options} {s t : RunState}

theorem Activity.ends_iff_plan {a : Activity} : a.Ends o s t ↔ (a.plan o).Ends o s t := by
  rw [Activity.Ends, Plan.Ends, Activity.run_eq_plan]

theorem Plan.ends_done {r : α} : (Plan.done r).Ends o s t ↔ t = s := by
  constructor
  · rintro (⟨r', h⟩ | ⟨e, h⟩) <;> cases h
    rfl
  · rintro rfl
    exact .inl ⟨r, rfl⟩

theorem Plan.ends_move {m : Run β} {next : β → Plan α} :
    (Plan.move m next).Ends o s t ↔
      (∃ e, m s = .failed e t) ∨ ∃ b u, m s = .done b u ∧ (next b).Ends o u t := by
  rw [Plan.Ends, Plan.run, Run.run_bind]
  cases hm : m s with
  | done b u =>
    constructor
    · intro h
      exact .inr ⟨b, u, rfl, h⟩
    · rintro (⟨e, h⟩ | ⟨b', u', h, hnext⟩)
      · cases h
      · cases h
        exact hnext
  | failed e u => simp
  | exhausted => simp

theorem Plan.ends_begin {call : Option Frame} {a : Activity} {next : a.Result → Plan α} :
    (Plan.begin call a next).Ends o s t ↔
      (∃ e, a.runAs o call s = .failed e t) ∨
        ∃ r u, a.runAs o call s = .done r u ∧ (next r).Ends o u t := by
  rw [Plan.Ends, Plan.run, Run.run_bind]
  cases ha : a.runAs o call s with
  | done r u =>
    constructor
    · intro h
      exact .inr ⟨r, u, rfl, h⟩
    · rintro (⟨e, h⟩ | ⟨r', u', h, hnext⟩)
      · cases h
      · cases h
        exact hnext
  | failed e u => simp
  | exhausted => simp

theorem Plan.ends_become {a : Activity} : (Plan.become a).Ends o s t ↔ a.Ends o s t := by
  rw [Plan.ends_begin, Activity.Ends]
  simp only [Plan.ends_done]
  constructor
  · rintro (h | ⟨r, u, h, rfl⟩)
    · exact .inr h
    · exact .inl ⟨r, h⟩
  · rintro (⟨r, h⟩ | h)
    · exact .inr ⟨r, t, h, rfl⟩
    · exact .inl h

end Ends

end LoxLang
