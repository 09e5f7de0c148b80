import LoxLang.Proofs.Run.Discipline
import LoxLang.Proofs.Run.Ends

/-!
# The history of a run

All that happens while a program runs, in the order of time: which activities begin, and what is done
that begins none. A run that never ends has a history too, as far as its allowance reaches. The
histories of the runs of a session, one after another, are the history of the session.

Main statements: `began_mem_history_iff`, that exactly the activities that a run comes to have a place in
its history; and `orders_history`, that along the history of a session a discipline that every plan keeps
is kept from each moment to every later one.
-/

namespace LoxLang

/-- Something that happens while a program runs. -/
inductive Moment where
  /-- an activity begins in a state -/
  | began (a : Activity) (s : RunState)
  /-- something that begins no activity turns a state into another -/
  | did (s t : RunState)

namespace Moment

/-- The state that a moment finds. -/
def before : Moment → RunState
  | .began _ s => s
  | .did s _ => s

/-- The state that a moment leaves. -/
def after : Moment → RunState
  | .began _ s => s
  | .did _ t => t

end Moment

/-- What happens as a plan is carried out, with what happens in the activities that it begins. -/
def Plan.course (o : Options) (inside : Activity → RunState → List Moment) :
    Plan α → RunState → List Moment
  | .done _, _ => []
  | .move m next, s =>
    match m s with
    | .done b t => .did s t :: (next b).course o inside t
    | .failed _ t => [.did s t]
    | .exhausted => []
  | .begin call a next, s =>
    inside a (s.entering call) ++
      match a.runAs o call s with
      | .done b t => (next b).course o inside t
      | .failed _ _ => []
      | .exhausted => []

namespace Activity

/-- What happens in an activity and in those of its parts that are followed, down to some depth. -/
def course (o : Options) (follow : Activity → Bool) : Nat → Activity → RunState → List Moment
  | 0, _, _ => []
  | k + 1, a, s =>
    .began a s :: (a.plan o).course o (fun b t => if follow b then b.course o follow k t else []) s

/-- All that happens while an activity runs. -/
def history (o : Options) (a : Activity) (s : RunState) : List Moment :=
  a.course o (fun _ => true) (a.size + 1) s

end Activity

/-- The history of a session that runs some sources, each with its allowance. -/
def Session.history : Session → List (Nat × List Char) → List Moment
  | _, [] => []
  | s, (fuel, source) :: sources =>
    (match compile source with
      | .ok program => (Activity.program fuel globals program).history s.options s.ready
      | .error _ => []) ++
    match s.run fuel source with
    | some (_, t) => t.history sources
    | none => []

/-- One moment comes before another in a history. -/
def Precedes (l : List Moment) (e e' : Moment) : Prop := [e, e'].Sublist l

theorem Precedes.left {l : List Moment} {e e' : Moment} (h : Precedes l e e') : e ∈ l :=
  h.subset List.mem_cons_self

theorem Precedes.right {l : List Moment} {e e' : Moment} (h : Precedes l e e') : e' ∈ l :=
  h.subset (List.mem_cons_of_mem _ List.mem_cons_self)

/-! ### Histories and the activities that a run comes to -/

section Course

variable {o : Options} {a b : Activity} {s t u : RunState} {follow : Activity → Bool} {k : Nat}

/-- What remains of a plan happens in it. -/
theorem Plan.Leads.course_sublist {p q : Plan α} {inside : Activity → RunState → List Moment}
    (h : p.Leads o s q t) : (q.course o inside t).Sublist (p.course o inside s) := by
  induction h with
  | here => exact List.Sublist.refl _
  | move hm _ ih =>
    rw [course, hm]
    exact ih.trans (List.sublist_cons_self _ _)
  | begin ha _ ih =>
    rw [course, ha]
    exact ih.trans (List.sublist_append_right _ _)

/-- What happens in a begun activity happens in the one that began it. -/
theorem Activity.course_sublist_of_begins (h : a.Begins o s b t) (hb : follow b = true) :
    (b.course o follow k t).Sublist (a.course o follow (k + 1) s) := by
  obtain ⟨call, next, u, hl, rfl⟩ := h
  rw [course]
  refine List.Sublist.trans ?_ (hl.course_sublist.trans (List.sublist_cons_self _ _))
  rw [Plan.course, if_pos hb]
  exact List.sublist_append_left _ _

theorem Plan.begins_of_mem_course {p : Plan α} {inside : Activity → RunState → List Moment} {e : Moment}
    (he : e ∈ p.course o inside s) :
    (∃ (call : Option Frame) (c : Activity) (next : c.Result → Plan α) (v : RunState),
      p.Leads o s (.begin call c next) v ∧ e ∈ inside c (v.entering call)) ∨ ∃ v w, e = .did v w := by
  induction p generalizing s with
  | done r => cases he
  | move m next ih =>
    rw [course] at he
    split at he
    · next r t hm =>
      rcases List.mem_cons.1 he with rfl | he
      · exact .inr ⟨s, t, rfl⟩
      · rcases ih r he with ⟨call, c, next', v, hl, hin⟩ | hdid
        · exact .inl ⟨call, c, next', v, .move hm hl, hin⟩
        · exact .inr hdid
    · exact .inr ⟨s, _, List.mem_singleton.1 he⟩
    · cases he
  | begin call c next ih =>
    rw [course] at he
    rcases List.mem_append.1 he with he | he
    · exact .inl ⟨call, c, next, s, .here, he⟩
    · split at he
      · next r t hc =>
        rcases ih r he with ⟨call', c', next', v, hl, hin⟩ | hdid
        · exact .inl ⟨call', c', next', v, .begin hc hl, hin⟩
        · exact .inr hdid
      · cases he
      · cases he

/-- What passes from an activity to those of its parts that are followed holds of all that begin. -/
theorem Activity.course_induction {P : Activity → RunState → Prop}
    (hstep : ∀ {a s b t}, P a s → a.Begins o s b t → follow b = true → P b t) (ha : P a s)
    (h : .began b t ∈ a.course o follow k s) : P b t := by
  induction k generalizing a s with
  | zero => cases h
  | succ k ih =>
    rw [course] at h
    rcases List.mem_cons.1 h with heq | h
    · cases heq
      exact ha
    · rcases Plan.begins_of_mem_course h with ⟨call, c, next, v, hl, hin⟩ | ⟨v, w, heq⟩
      · split at hin
        · next hc => exact ih (hstep ha ⟨call, next, v, hl, rfl⟩ hc) hin
        · cases hin
      · cases heq

theorem Activity.Reaches.snoc (h : a.Reaches o s b t) {c : Activity} (hc : b.Begins o t c u) :
    a.Reaches o s c u := by
  induction h with
  | here => exact .later hc .here
  | later hb _ ih => exact .later hb (ih hc)

/-- A history names exactly the activities that a run comes to. -/
theorem Activity.began_mem_history_iff : .began b t ∈ a.history o s ↔ a.Reaches o s b t := by
  constructor
  · exact course_induction (P := a.Reaches o s) (fun h hb _ => h.snoc hb) .here
  · intro h
    suffices ∀ k, a.size < k → .began b t ∈ a.course o (fun _ => true) k s from this _ (Nat.lt_succ_self _)
    induction h with
    | here =>
      intro k hk
      obtain ⟨k, rfl⟩ := Nat.exists_eq_add_one_of_ne_zero (Nat.ne_zero_of_lt hk)
      exact List.mem_cons_self
    | later hb _ ih =>
      intro k hk
      obtain ⟨k, rfl⟩ := Nat.exists_eq_add_one_of_ne_zero (Nat.ne_zero_of_lt hk)
      have hsize := size_lt_of_begins hb
      exact (course_sublist_of_begins hb rfl).subset (ih k (by omega))

/-- Wherever an activity begins in a course, its own course is a part of that. -/
theorem Activity.course_sublist_of_mem (hk : a.size < k) (h : .began b t ∈ a.course o follow k s) :
    ∃ j, b.size < j ∧ (b.course o follow j t).Sublist (a.course o follow k s) := by
  refine course_induction (P := fun b t => ∃ j, b.size < j ∧
    (b.course o follow j t).Sublist (a.course o follow k s)) ?_ ⟨k, hk, List.Sublist.refl _⟩ h
  rintro b t c u ⟨j, hj, hsub⟩ hc hfollow
  obtain ⟨j, rfl⟩ := Nat.exists_eq_add_one_of_ne_zero (Nat.ne_zero_of_lt hj)
  have hsize := size_lt_of_begins hc
  exact ⟨j, by omega, (course_sublist_of_begins hc hfollow).trans hsub⟩

end Course

namespace Session

variable {s : Session} {sources : List (Nat × List Char)} {a b : Activity} {t u : RunState}

/-- Wherever an activity begins in a session, its course is a part of the history. -/
theorem course_sublist_history (h : .began a t ∈ s.history sources) :
    ∃ j, a.size < j ∧ (a.course s.options (fun _ => true) j t).Sublist (s.history sources) := by
  induction sources generalizing s with
  | nil => cases h
  | cons first sources ih =>
    obtain ⟨fuel, source⟩ := first
    rw [history] at h ⊢
    rcases List.mem_append.1 h with h | h
    · split at h
      · next program hc =>
        obtain ⟨j, hj, hsub⟩ := Activity.course_sublist_of_mem (Nat.lt_succ_self _) h
        exact ⟨j, hj, hsub.trans (List.sublist_append_left _ _)⟩
      · cases h
    · split at h
      · next step next hr =>
        obtain ⟨j, hj, hsub⟩ := ih h
        rw [run_options hr] at hsub
        exact ⟨j, hj, hsub.trans (List.sublist_append_right _ _)⟩
      · cases h

/-- What is begun in a session has a place in its history. -/
theorem began_of_begins (h : .began a t ∈ s.history sources) (hb : a.Begins s.options t b u) :
    .began b u ∈ s.history sources := by
  obtain ⟨j, hj, hsub⟩ := course_sublist_history h
  obtain ⟨j, rfl⟩ := Nat.exists_eq_add_one_of_ne_zero (Nat.ne_zero_of_lt hj)
  have hsize := Activity.size_lt_of_begins hb
  obtain ⟨j, rfl⟩ := Nat.exists_eq_add_one_of_ne_zero (by omega : j ≠ 0)
  exact ((Activity.course_sublist_of_begins hb rfl).trans hsub).subset List.mem_cons_self

end Session

/-! ### Histories under a discipline -/

namespace Discipline

variable {D : Discipline} {o : Options} {s t : RunState} {l l' : List Moment} {ends : RunState → Prop}

/-- Along what happens from a state on, a discipline is kept from each moment to every later one and to
the end, and only what may begin does. -/
structure Orders (D : Discipline) (s : RunState) (l : List Moment) (ends : RunState → Prop) : Prop where
  before : ∀ e ∈ l, D.keeps s e.before
  across : ∀ e ∈ l, D.keeps e.before e.after
  fits : ∀ {a t}, .began a t ∈ l → D.fits t a
  ordered : l.Pairwise fun e e' => D.keeps e.after e'.before
  ended : ∀ e ∈ l, ∀ t, ends t → D.keeps e.after t

theorem orders_nil : D.Orders s [] ends where
  before _ h := by cases h
  across _ h := by cases h
  fits h := by cases h
  ordered := .nil
  ended _ h := by cases h

theorem Orders.cons {e : Moment} (hbefore : D.keeps s e.before) (hacross : D.keeps e.before e.after)
    (hfits : ∀ {a t}, e = .began a t → D.fits t a) (hended : ∀ t, ends t → D.keeps e.after t)
    (h : D.Orders e.after l ends) : D.Orders s (e :: l) ends where
  before e' he' := by
    rcases List.mem_cons.1 he' with rfl | he'
    · exact hbefore
    · exact D.keeps_trans (D.keeps_trans hbefore hacross) (h.before e' he')
  across e' he' := by
    rcases List.mem_cons.1 he' with rfl | he'
    · exact hacross
    · exact h.across e' he'
  fits he' := by
    rcases List.mem_cons.1 he' with heq | he'
    · exact hfits heq.symm
    · exact h.fits he'
  ordered := List.pairwise_cons.2 ⟨h.before, h.ordered⟩
  ended e' he' := by
    rcases List.mem_cons.1 he' with rfl | he'
    · exact hended
    · exact h.ended e' he'

/-- What happens up to a state, and what happens from there on. -/
theorem Orders.append {ends' : RunState → Prop} (h : D.Orders s l ends') (ht : ends' t)
    (hs : D.keeps s t) (hended : ∀ u, ends u → D.keeps t u) (h' : D.Orders t l' ends) :
    D.Orders s (l ++ l') ends where
  before e he := by
    rcases List.mem_append.1 he with he | he
    · exact h.before e he
    · exact D.keeps_trans hs (h'.before e he)
  across e he := (List.mem_append.1 he).elim (h.across e) (h'.across e)
  fits he := (List.mem_append.1 he).elim h.fits h'.fits
  ordered := by
    refine List.pairwise_append.2 ⟨h.ordered, h'.ordered, fun e he e' he' => ?_⟩
    exact D.keeps_trans (h.ended e he t ht) (h'.before e' he')
  ended e he u hu := by
    rcases List.mem_append.1 he with he | he
    · exact D.keeps_trans (h.ended e he t ht) (hended u hu)
    · exact h'.ended e he u hu

theorem Orders.mono {ends' : RunState → Prop} (h : D.Orders s l ends) (he : ∀ t, ends' t → ends t) :
    D.Orders s l ends' :=
  ⟨h.before, h.across, h.fits, h.ordered, fun e hmem t ht => h.ended e hmem t (he t ht)⟩

theorem Orders.of_keeps (hs : D.keeps s t) (h : D.Orders t l ends) : D.Orders s l ends :=
  ⟨fun e he => D.keeps_trans hs (h.before e he), h.across, h.fits, h.ordered, h.ended⟩

theorem Orders.keeps (h : D.Orders s l ends) {e e' : Moment} (he : Precedes l e e') :
    D.keeps e.after e'.before :=
  List.pairwise_iff_forall_sublist.1 h.ordered he

theorem guards_begun {a : Activity} (hD : D.Kept o) (hs : D.keeps s s) (h : D.fits s a)
    (call : Option Frame) : D.Guards (fun r _ => D.yields a r) (a.runAs o call) s :=
  guards_runAs hs call (run_keeps hD a _ (D.keeps_self (D.keeps_entering call hs)) (D.fits_entering call h))

theorem keeps_of_ends {goal : α → Prop} {p : Plan α} (hD : D.Kept o) (hs : D.keeps s s)
    (h : D.Safe goal p s) (ht : p.Ends o s t) : D.keeps s t := by
  induction p generalizing s with
  | done r =>
    rw [Plan.ends_done.1 ht]
    exact hs
  | move m next ih =>
    rcases Plan.ends_move.1 ht with ⟨e, hm⟩ | ⟨b, u, hm, hnext⟩
    · exact (h.failed hm).1
    · obtain ⟨hk, hb⟩ := h.done hm
      exact D.keeps_trans hk (ih b (D.keeps_self hk) hb hnext)
  | begin call a next ih =>
    have ha := guards_begun hD hs h.1 call
    rcases Plan.ends_begin.1 ht with ⟨e, hrun⟩ | ⟨b, u, hrun, hnext⟩
    · exact (ha.failed hrun).1
    · obtain ⟨hk, hb⟩ := ha.done hrun
      exact D.keeps_trans hk (ih b (D.keeps_self hk) (h.2 b u hk hb) hnext)

/-- The end of an activity with an active call of its own, from the end of the activity. -/
theorem ends_of_runAs {call : Option Frame} {a : Activity}
    (h : (∃ r, a.runAs o call s = .done r t) ∨ ∃ e, a.runAs o call s = .failed e t) :
    ∃ u, a.Ends o (s.entering call) u ∧ t = u.leaving call := by
  rcases h with ⟨r, h⟩ | ⟨e, h⟩
  · obtain ⟨u, hu, heq⟩ := Activity.runAs_done h
    exact ⟨u, .inl ⟨r, hu⟩, heq⟩
  · obtain ⟨e', u, hu, heq, -⟩ := Activity.runAs_failed h
    exact ⟨u, .inr ⟨e', hu⟩, heq⟩

theorem orders_plan {goal : α → Prop} {p : Plan α} {inside : Activity → RunState → List Moment}
    (hinside : ∀ a s, D.keeps s s → D.fits s a → D.Orders s (inside a s) (a.Ends o s)) (hD : D.Kept o)
    (hs : D.keeps s s) (h : D.Safe goal p s) : D.Orders s (p.course o inside s) (p.Ends o s) := by
  induction p generalizing s with
  | done r => exact orders_nil
  | move m next ih =>
    rw [Plan.course]
    split
    · next b t hm =>
      obtain ⟨hk, hb⟩ := h.done hm
      have hends {u : RunState} (hu : (Plan.move m next).Ends o s u) : (next b).Ends o t u := by
        rcases Plan.ends_move.1 hu with ⟨e, hf⟩ | ⟨b', t', hd, hnext⟩
        · cases hm.symm.trans hf
        · cases hm.symm.trans hd
          exact hnext
      refine .cons hs hk (by rintro _ _ ⟨⟩) (fun u hu => ?_) ((ih b (D.keeps_self hk) hb).mono fun u => hends)
      exact keeps_of_ends hD (D.keeps_self hk) hb (hends hu)
    · next e t hm =>
      obtain ⟨hk, -⟩ := h.failed hm
      refine .cons hs hk (by rintro _ _ ⟨⟩) (fun u hu => ?_) orders_nil
      rcases Plan.ends_move.1 hu with ⟨e', hf⟩ | ⟨b', t', hd, -⟩
      · cases hm.symm.trans hf
        exact D.keeps_self hk
      · cases hm.symm.trans hd
    · exact orders_nil
  | begin call a next ih =>
    have henter := D.keeps_entering call hs
    have hbegun := hinside a _ (D.keeps_self henter) (D.fits_entering call h.1)
    have hguards := guards_begun hD hs h.1 call
    -- what happens inside is over when the call is left
    have hends {u : RunState}
        (hu : (∃ r, a.runAs o call s = .done r u) ∨ ∃ e, a.runAs o call s = .failed e u) :
        D.Orders s (inside a (s.entering call)) (· = u) := by
      obtain ⟨w, hw, rfl⟩ := ends_of_runAs hu
      refine ⟨fun e he => D.keeps_trans henter (hbegun.before e he), hbegun.across, hbegun.fits,
        hbegun.ordered, ?_⟩
      rintro e he _ rfl
      have hk := hbegun.ended e he w hw
      exact D.keeps_trans hk (D.keeps_leaving call (D.keeps_self hk))
    rw [Plan.course]
    split
    · next b t hrun =>
      obtain ⟨hk, hb⟩ := hguards.done hrun
      have hrest := h.2 b t hk hb
      have hnext {u : RunState} (hu : (Plan.begin call a next).Ends o s u) : (next b).Ends o t u := by
        rcases Plan.ends_begin.1 hu with ⟨e, hf⟩ | ⟨b', t', hd, hnext⟩
        · cases hrun.symm.trans hf
        · cases hrun.symm.trans hd
          exact hnext
      refine (hends (.inl ⟨b, hrun⟩)).append rfl hk (fun u hu => ?_) ((ih b (D.keeps_self hk) hrest).mono
        fun u => hnext)
      exact keeps_of_ends hD (D.keeps_self hk) hrest (hnext hu)
    · next e t hrun =>
      rw [List.append_nil]
      refine (hends (.inr ⟨e, hrun⟩)).mono fun u hu => ?_
      rcases Plan.ends_begin.1 hu with ⟨e', hf⟩ | ⟨b', t', hd, -⟩
      · cases hrun.symm.trans hf
        rfl
      · cases hrun.symm.trans hd
    · next hrun =>
      rw [List.append_nil]
      refine (hbegun.of_keeps henter).mono fun u hu => ?_
      rcases Plan.ends_begin.1 hu with ⟨e, hf⟩ | ⟨b', t', hd, -⟩
      · cases hrun.symm.trans hf
      · cases hrun.symm.trans hd

/-- While an activity runs, a discipline is kept from each moment to every later one. -/
theorem orders_course (hD : D.Kept o) (follow : Activity → Bool) (k : Nat) (a : Activity)
    (hs : D.keeps s s) (hfits : D.fits s a) : D.Orders s (a.course o follow k s) (a.Ends o s) := by
  induction k generalizing a s with
  | zero => exact orders_nil
  | succ k ih =>
    have hsafe := hD a s hs hfits
    rw [Activity.course]
    refine .cons hs hs ?_ (fun t ht => keeps_of_ends hD hs hsafe (Activity.ends_iff_plan.1 ht)) ?_
    · rintro _ _ ⟨⟩
      exact hfits
    · refine (orders_plan (fun b t ht hb => ?_) hD hs hsafe).mono fun t => Activity.ends_iff_plan.1
      split
      · exact ih b ht hb
      · exact orders_nil

end Discipline

/-- Throughout a session, a discipline is kept from each moment to every later one. -/
theorem Session.orders_history {D : Discipline} {s : Session} (hD : D.Kept s.options)
    (hs : D.keeps s.state s.state) (hready : ∀ {t} output, D.keeps t t → D.keeps t { t with output })
    (hfits : ∀ {t source program} fuel, D.keeps s.state t → compile source = .ok program →
      D.fits t (.program fuel globals program))
    (sources : List (Nat × List Char)) :
    D.Orders s.state (s.history sources) (fun _ => False) := by
  induction sources generalizing s with
  | nil => exact Discipline.orders_nil
  | cons first sources ih =>
    obtain ⟨fuel, source⟩ := first
    rw [history, run]
    cases hc : compile source with
    | error errors => exact ih hD hs hfits
    | ok program =>
      have hstart : D.keeps s.state s.ready := hready "" hs
      have hprogram := hfits fuel hstart hc
      have hrun := Discipline.orders_course hD (fun _ => true)
        ((Activity.program fuel globals program).size + 1) (.program fuel globals program)
        (D.keeps_self hstart) hprogram
      dsimp only
      cases hi : s.interpret fuel program with
      | none =>
        rw [List.append_nil]
        exact (hrun.of_keeps hstart).mono fun _ => False.elim
      | some result =>
        obtain ⟨step, t⟩ := result
        obtain ⟨hoptions, hends⟩ := interpret_eq_some hi
        have ht : (Activity.program fuel globals program).Ends s.options s.ready t.state := by
          rcases hends with ⟨-, hdone⟩ | ⟨e, -, hfailed⟩
          · exact .inl ⟨(), hdone⟩
          · exact .inr ⟨e, hfailed⟩
        have hkeeps : D.keeps s.state t.state := D.keeps_trans hstart
          (Discipline.keeps_of_ends hD (D.keeps_self hstart) (hD _ _ (D.keeps_self hstart) hprogram)
            (Activity.ends_iff_plan.1 ht))
        refine (hrun.of_keeps hstart).append ht hkeeps (fun _ => False.elim) ?_
        exact ih (hoptions ▸ hD) (D.keeps_self hkeeps) fun fuel hu => hfits fuel (D.keeps_trans hkeeps hu)

end LoxLang
