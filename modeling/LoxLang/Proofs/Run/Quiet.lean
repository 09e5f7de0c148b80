import LoxLang.Proofs.Run.Discipline

/-!
# Computations that only look

Reading a variable, applying an operator, printing or complaining leaves everything that the program
shares as it is.

Main statement: `Discipline.guards_of_quiet`, that a discipline that is about the store alone is kept
by such computations.
-/

namespace LoxLang

namespace Run

/-- Whatever way a computation ends, the store is the one it began with. -/
structure Quiet (m : Run α) : Prop where
  done : ∀ {s r t}, m s = .done r t → t.store = s.store
  failed : ∀ {s e t}, m s = .failed e t → t.store = s.store

theorem Quiet.bind {m : Run α} {f : α → Run β} (hm : Quiet m) (hf : ∀ a, Quiet (f a)) :
    Quiet (m >>= f) := by
  constructor
  · intro s r t h
    rw [run_bind] at h
    cases hs : m s with
    | done a u =>
      rw [hs] at h
      exact ((hf a).done h).trans (hm.done hs)
    | failed e u => simp [hs] at h
    | exhausted => simp [hs] at h
  · intro s e t h
    rw [run_bind] at h
    cases hs : m s with
    | done a u =>
      rw [hs] at h
      exact ((hf a).failed h).trans (hm.done hs)
    | failed e' u =>
      rw [hs] at h
      cases h
      exact hm.failed hs
    | exhausted => simp [hs] at h

theorem quiet_pure (a : α) : Quiet (pure a : Run α) := by
  constructor <;> intro s r t h <;> cases h
  rfl

theorem quiet_fail (token : Token) (fault : Fault) : Quiet (fail token fault : Run α) := by
  constructor <;> intro s r t h <;> cases h
  rfl

theorem quiet_read (f : Store → α) : Quiet (read f) := by
  constructor <;> intro s r t h <;> cases h
  rfl

theorem quiet_print (text : String) : Quiet (print text) := by
  constructor <;> intro s r t h <;> cases h
  rfl

theorem quiet_lookup (scope : ScopeId) (name : Token) : Quiet (lookup scope name) := by
  constructor <;> intro s r t h <;> rw [lookup] at h <;> split at h <;> cases h <;> rfl

theorem quiet_guardDepth (o : Options) (paren : Token) : Quiet (guardDepth o paren) := by
  constructor <;> intro s r t h <;> rw [guardDepth] at h <;> split at h <;> cases h <;> rfl

theorem quiet_fieldOwner (object : Value) (name : Token) : Quiet (fieldOwner object name) := by
  unfold fieldOwner
  split
  · exact quiet_pure _
  · exact quiet_fail _ _

theorem quiet_applyUnary (op : Token) (v : Value) : Quiet (applyUnary op v) := by
  unfold applyUnary
  split
  · exact quiet_pure _
  · exact quiet_pure _
  · exact quiet_fail _ _
  · exact quiet_fail _ _

theorem quiet_applyBinary (op : Token) (l r : Value) : Quiet (applyBinary op l r) := by
  unfold applyBinary
  split
  · exact quiet_pure _
  · exact quiet_pure _
  · unfold applyPlus
    split
    · exact quiet_pure _
    · exact quiet_pure _
    · exact quiet_fail _ _
  · split
    · unfold applyNumeric
      split
      case h_8 => exact quiet_fail _ _
      all_goals exact quiet_pure _
    · exact quiet_fail _ _

theorem quiet_superclassNamed (scope : ScopeId) (name : Token) : Quiet (superclassNamed scope name) := by
  refine (quiet_lookup scope name).bind fun v => ?_
  split
  · exact quiet_pure _
  · exact quiet_fail _ _

theorem quiet_leave (f : Closure) (c : Completion) : Quiet (leave f c) := by
  unfold leave
  split
  · refine (quiet_lookup f.scope Token.receiver).bind fun receiver => ?_
    split
    · split
      · exact quiet_pure _
      · exact quiet_fail _ _
    · exact quiet_pure _
  · exact quiet_pure _

end Run

/-- A computation that only looks keeps whatever is claimed of the store alone. -/
theorem Discipline.guards_of_quiet {D : Discipline} {goal : α → RunState → Prop} {m : Run α}
    {s : RunState} (hm : m.Quiet) (hk : ∀ t, t.store = s.store → D.keeps s t) (hp : ∀ e, D.proper e)
    (hg : ∀ r t, m s = .done r t → goal r t) : D.Guards goal m s :=
  ⟨fun h => ⟨hk _ (hm.done h), hg _ _ h⟩, fun h => ⟨hk _ (hm.failed h), hp _⟩⟩

end LoxLang
