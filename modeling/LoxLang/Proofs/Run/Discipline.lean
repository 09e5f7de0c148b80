import LoxLang.Proofs.Run.Course

/-!
# Disciplines of a run

To show that something holds throughout every run, it is enough to look at one plan at a time and to
take for granted what is claimed of the activities that the plan begins, which are smaller. A
discipline says what is claimed: how states may change, which activities may begin in a state,
what each of them yields, and which errors may come up.

What a discipline claims of a result it claims whatever the state. A reference means something only
together with the store that it leads into, and goes on meaning it as long as the store changes as
it may. A legacy says what each activity leaves behind in this way. Whole runs are dealt with for
legacies, and a discipline alone is the case in which results do not depend on states.

Main statements: `run_leaves`, that what every single plan leaves is left by whole runs, and for
disciplines `run_keeps`, that a discipline kept by every single plan is kept by whole runs, and
`reaches_fits`, that then only what may begin does begin.
-/

namespace LoxLang

/-- What is claimed of all activities. A state that a state may turn into may turn into itself. -/
structure Discipline where
  /-- a state may turn into another -/
  keeps : RunState → RunState → Prop
  /-- an activity may begin in a state -/
  fits : RunState → Activity → Prop
  /-- an activity may have a result -/
  yields : (a : Activity) → a.Result → Prop
  /-- an error may come up -/
  proper : RuntimeError → Prop
  keeps_self : ∀ {s t}, keeps s t → keeps t t
  keeps_trans : ∀ {s t u}, keeps s t → keeps t u → keeps s u
  keeps_entering : ∀ {s} call, keeps s s → keeps s (s.entering call)
  keeps_leaving : ∀ {s} call, keeps s s → keeps s (s.leaving call)
  fits_entering : ∀ {s a} call, fits s a → fits (s.entering call) a
  proper_same : ∀ {e e'}, e.Same e' → proper e' → proper e

namespace Discipline

variable (D : Discipline) {o : Options} {s t : RunState}

/-- A computation keeps the discipline and, if it does not fail, reaches a goal. -/
structure Guards (goal : α → RunState → Prop) (m : Run α) (s : RunState) : Prop where
  done : ∀ {r t}, m s = .done r t → D.keeps s t ∧ goal r t
  failed : ∀ {e t}, m s = .failed e t → D.keeps s t ∧ D.proper e

variable {D}

theorem Guards.bind {goal : β → RunState → Prop} {m : Run α} {f : α → Run β}
    (h : D.Guards (fun a t => D.Guards goal (f a) t) m s) : D.Guards goal (m >>= f) s := by
  constructor
  · intro r t hr
    rw [Run.run_bind] at hr
    cases hm : m s with
    | done a u =>
      rw [hm] at hr
      obtain ⟨hk, hg⟩ := h.done hm
      exact ⟨D.keeps_trans hk (hg.done hr).1, (hg.done hr).2⟩
    | failed e u => simp [hm] at hr
    | exhausted => simp [hm] at hr
  · intro e t hr
    rw [Run.run_bind] at hr
    cases hm : m s with
    | done a u =>
      rw [hm] at hr
      obtain ⟨hk, hg⟩ := h.done hm
      exact ⟨D.keeps_trans hk (hg.failed hr).1, (hg.failed hr).2⟩
    | failed e' u =>
      rw [hm] at hr
      cases hr
      exact h.failed hm
    | exhausted => simp [hm] at hr

theorem Guards.mono {goal goal' : α → RunState → Prop} {m : Run α} (h : D.Guards goal m s)
    (hg : ∀ r t, D.keeps s t → goal r t → goal' r t) : D.Guards goal' m s :=
  ⟨fun hr => ⟨(h.done hr).1, hg _ _ (h.done hr).1 (h.done hr).2⟩, h.failed⟩

theorem guards_of_done {goal : α → RunState → Prop} {m : Run α} {r : α} (h : m s = .done r t)
    (hk : D.keeps s t) (hg : goal r t) : D.Guards goal m s := by
  constructor
  · intro r' t' hr
    cases h.symm.trans hr
    exact ⟨hk, hg⟩
  · intro e t' hr
    cases h.symm.trans hr

theorem guards_of_failed {goal : α → RunState → Prop} {m : Run α} {e : RuntimeError}
    (h : m s = .failed e t) (hk : D.keeps s t) (he : D.proper e) : D.Guards goal m s := by
  constructor
  · intro r t' hr
    cases h.symm.trans hr
  · intro e' t' hr
    cases h.symm.trans hr
    exact ⟨hk, he⟩

theorem guards_exhausted {goal : α → RunState → Prop} : D.Guards goal Run.exhausted s := by
  constructor <;> intro r t h <;> cases h

/-! ### Results that mean something in a state -/

/-- What is claimed of results together with the states that they come in, beyond a discipline. -/
structure Legacy (D : Discipline) where
  /-- an activity may have a result in a state -/
  leaves : (a : Activity) → a.Result → RunState → Prop
  leaves_keeps : ∀ {a r s t}, leaves a r s → D.keeps s t → leaves a r t

namespace Legacy

variable (L : Legacy D)

/-- A plan keeps the discipline and reaches a goal, if all that it begins does and leaves what it should. -/
def Assures (goal : α → RunState → Prop) : Plan α → RunState → Prop
  | .done r, s => goal r s
  | .move m next, s => D.Guards (fun b t => Assures goal (next b) t) m s
  | .begin call a next, s =>
    D.fits (s.entering call) a ∧ ∀ b t, D.keeps s t → L.leaves a b t → Assures goal (next b) t

/-- Every single plan keeps the discipline and leaves what it should. -/
def Left (o : Options) : Prop :=
  ∀ a s, D.keeps s s → D.fits s a → L.Assures (L.leaves a) (a.plan o) s

variable {L}

/-- With its own call or without, an activity leaves the same. -/
theorem guards_runAs {a : Activity} (hs : D.keeps s s) (call : Option Frame)
    (h : D.Guards (L.leaves a) (a.run o) (s.entering call)) :
    D.Guards (L.leaves a) (a.runAs o call) s := by
  have hkeeps {u : RunState} (hu : D.keeps (s.entering call) u) :
      D.keeps s (u.leaving call) ∧ D.keeps u (u.leaving call) := by
    have hleaving := D.keeps_leaving call (D.keeps_self hu)
    exact ⟨D.keeps_trans (D.keeps_trans (D.keeps_entering call hs) hu) hleaving, hleaving⟩
  constructor
  · intro r t hr
    obtain ⟨u, hu, rfl⟩ := Activity.runAs_done hr
    obtain ⟨hk, hr⟩ := h.done hu
    exact ⟨(hkeeps hk).1, L.leaves_keeps hr (hkeeps hk).2⟩
  · intro e t hr
    obtain ⟨e', u, hu, rfl, he⟩ := Activity.runAs_failed hr
    obtain ⟨hk, hp⟩ := h.failed hu
    exact ⟨(hkeeps hk).1, D.proper_same he hp⟩

theorem guards_plan {goal : α → RunState → Prop} {p : Plan α} {k : Nat}
    (ih : ∀ a, a.size < k → ∀ s, D.keeps s s → D.fits s a → D.Guards (L.leaves a) (a.run o) s)
    (hk : p.All (fun _ => True) (fun _ a => a.size < k)) (hs : D.keeps s s)
    (h : L.Assures goal p s) : D.Guards goal (p.run o) s := by
  induction p generalizing s with
  | done r =>
    constructor
    · intro r' t hr
      cases hr
      exact ⟨hs, h⟩
    · intro e t hr
      cases hr
  | move m next ihp =>
    refine .bind (h.mono fun b t ht hb => ?_)
    exact ihp b (hk.2 b) (D.keeps_self ht) hb
  | begin call a next ihp =>
    obtain ⟨hfits, hnext⟩ := h
    have ha := guards_runAs hs call (ih a hk.1 _ (D.keeps_self (D.keeps_entering call hs)) hfits)
    refine .bind (ha.mono fun b t ht hb => ?_)
    exact ihp b (hk.2 b) (D.keeps_self ht) (hnext b t ht hb)

/-- What every single plan leaves is left by whole runs. -/
theorem run_leaves (hL : L.Left o) (a : Activity) (s : RunState) (hs : D.keeps s s)
    (hfits : D.fits s a) : D.Guards (L.leaves a) (a.run o) s := by
  induction a using Activity.induction_on_size generalizing s with
  | h a ih =>
    rw [Activity.run_eq_plan]
    exact guards_plan ih (a.plan_below o) hs (hL a s hs hfits)

theorem leads_assures {goal : α → RunState → Prop} {p q : Plan α} (hL : L.Left o) (hs : D.keeps s s)
    (h : L.Assures goal p s) (hl : p.Leads o s q t) : D.keeps s t ∧ L.Assures goal q t := by
  induction hl with
  | here => exact ⟨hs, h⟩
  | move hm _ ih =>
    obtain ⟨hk, hn⟩ := h.done hm
    obtain ⟨hk', hq⟩ := ih (D.keeps_self hk) hn
    exact ⟨D.keeps_trans hk hk', hq⟩
  | begin ha _ ih =>
    obtain ⟨hk, hb⟩ := (guards_runAs hs _ (run_leaves hL _ _
      (D.keeps_self (D.keeps_entering _ hs)) h.1)).done ha
    obtain ⟨hk', hq⟩ := ih (D.keeps_self hk) (h.2 _ _ hk hb)
    exact ⟨D.keeps_trans hk hk', hq⟩

/-- Only what may begin does begin. -/
theorem reaches_fits {a b : Activity} (hL : L.Left o) (hs : D.keeps s s) (hfits : D.fits s a)
    (h : a.Reaches o s b t) : D.keeps s t ∧ D.fits t b := by
  induction h with
  | here => exact ⟨hs, hfits⟩
  | later hb _ ih =>
    obtain ⟨call, next, u, hl, rfl⟩ := hb
    obtain ⟨hk, hu⟩ := leads_assures hL hs (hL _ _ hs hfits) hl
    have hk' := D.keeps_trans hk (D.keeps_entering call (D.keeps_self hk))
    obtain ⟨ht, hf⟩ := ih (D.keeps_self hk') hu.1
    exact ⟨D.keeps_trans hk' ht, hf⟩

/-- A run passes only through states that the discipline allows. -/
theorem visits_keeps {a : Activity} (hL : L.Left o) (hs : D.keeps s s) (hfits : D.fits s a)
    (h : a.Visits o s t) : D.keeps s t := by
  obtain ⟨b, u, hr, q, hl⟩ := h
  obtain ⟨hk, hb⟩ := reaches_fits hL hs hfits hr
  have hu := D.keeps_self hk
  exact D.keeps_trans hk (leads_assures hL hu (hL b u hu hb) hl).1

end Legacy

/-! ### Results whatever the state -/

variable (D)

/-- A plan keeps the discipline, if all that it begins does. -/
def Safe (goal : α → Prop) : Plan α → RunState → Prop
  | .done r, _ => goal r
  | .move m next, s => D.Guards (fun b t => Safe goal (next b) t) m s
  | .begin _ a next, s => D.fits s a ∧ ∀ b t, D.keeps s t → D.yields a b → Safe goal (next b) t

/-- Every single plan keeps the discipline. -/
def Kept (o : Options) : Prop :=
  ∀ a s, D.keeps s s → D.fits s a → D.Safe (D.yields a) (a.plan o) s

/-- The results of a discipline as a legacy. -/
def plain : Legacy D where
  leaves a r _ := D.yields a r
  leaves_keeps h _ := h

variable {D}

theorem Safe.assures {goal : α → Prop} {p : Plan α} (h : D.Safe goal p s) :
    D.plain.Assures (fun r _ => goal r) p s := by
  induction p generalizing s with
  | done r => exact h
  | move m next ih => exact h.mono fun b t _ hb => ih b hb
  | begin call a next ih => exact ⟨D.fits_entering call h.1, fun b t hk hb => ih b (h.2 b t hk hb)⟩

theorem Kept.left (hD : D.Kept o) : D.plain.Left o := fun a s hs hfits => (hD a s hs hfits).assures

/-- With its own call or without, an activity changes the state only as it may. -/
theorem guards_runAs {a : Activity} (hs : D.keeps s s) (call : Option Frame)
    (h : D.Guards (fun r _ => D.yields a r) (a.run o) (s.entering call)) :
    D.Guards (fun r _ => D.yields a r) (a.runAs o call) s :=
  Legacy.guards_runAs (L := D.plain) hs call h

/-- A discipline that every single plan keeps is kept by whole runs. -/
theorem run_keeps (hD : D.Kept o) (a : Activity) (s : RunState) (hs : D.keeps s s)
    (hfits : D.fits s a) : D.Guards (fun r _ => D.yields a r) (a.run o) s :=
  Legacy.run_leaves hD.left a s hs hfits

/-- While an activity runs, the state changes only as it may. -/
theorem leads_keeps {a : Activity} {q : Plan a.Result} (hD : D.Kept o) (hs : D.keeps s s)
    (hfits : D.fits s a) (hl : (a.plan o).Leads o s q t) : D.keeps s t :=
  (Legacy.leads_assures hD.left hs (hD.left a s hs hfits) hl).1

/-- Only what may begin does begin. -/
theorem reaches_fits {a b : Activity} (hD : D.Kept o) (hs : D.keeps s s) (hfits : D.fits s a)
    (h : a.Reaches o s b t) : D.keeps s t ∧ D.fits t b :=
  Legacy.reaches_fits hD.left hs hfits h

/-! ### Two disciplines at once -/

/-- Both disciplines. -/
def and (D E : Discipline) : Discipline where
  keeps s t := D.keeps s t ∧ E.keeps s t
  fits s a := D.fits s a ∧ E.fits s a
  yields a r := D.yields a r ∧ E.yields a r
  proper e := D.proper e ∧ E.proper e
  keeps_self h := ⟨D.keeps_self h.1, E.keeps_self h.2⟩
  keeps_trans h h' := ⟨D.keeps_trans h.1 h'.1, E.keeps_trans h.2 h'.2⟩
  keeps_entering call h := ⟨D.keeps_entering call h.1, E.keeps_entering call h.2⟩
  keeps_leaving call h := ⟨D.keeps_leaving call h.1, E.keeps_leaving call h.2⟩
  fits_entering call h := ⟨D.fits_entering call h.1, E.fits_entering call h.2⟩
  proper_same h h' := ⟨D.proper_same h h'.1, E.proper_same h h'.2⟩

variable {E : Discipline}

theorem Guards.and {goal goal' : α → RunState → Prop} {m : Run α} (h : D.Guards goal m s)
    (h' : E.Guards goal' m s) : (D.and E).Guards (fun r t => goal r t ∧ goal' r t) m s := by
  constructor
  · intro r t hr
    exact ⟨⟨(h.done hr).1, (h'.done hr).1⟩, (h.done hr).2, (h'.done hr).2⟩
  · intro e t hr
    exact ⟨⟨(h.failed hr).1, (h'.failed hr).1⟩, (h.failed hr).2, (h'.failed hr).2⟩

theorem Safe.and {goal goal' : α → Prop} {p : Plan α} (h : D.Safe goal p s) (h' : E.Safe goal' p s) :
    (D.and E).Safe (fun r => goal r ∧ goal' r) p s := by
  induction p generalizing s with
  | done r => exact ⟨h, h'⟩
  | move m next ih => exact (Guards.and h h').mono fun b t _ hb => ih b hb.1 hb.2
  | begin call a next ih =>
    refine ⟨⟨h.1, h'.1⟩, fun b t hk hy => ?_⟩
    exact ih b (h.2 b t hk.1 hy.1) (h'.2 b t hk.2 hy.2)

/-- The second of two disciplines may count on what the first one says of the activity at hand. -/
theorem Kept.and (hD : D.Kept o) (hE : ∀ a s, D.fits s a → E.keeps s s → E.fits s a →
    E.Safe (E.yields a) (a.plan o) s) : (D.and E).Kept o :=
  fun a s hs hfits => (hD a s hs.1 hfits.1).and (hE a s hfits.1 hs.2 hfits.2)

end Discipline

end LoxLang
