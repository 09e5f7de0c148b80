import LoxLang.Proofs.Placement.Run

/-!
# What the check of placement is worth

Over a whole session, whatever sources it has run, refused or seen fail, a source that compiles ends
without an error that its check of placement should have ruled out.

Main statement: `compiled_program_sound`.
-/

namespace LoxLang

open Placement

/-- Where an activity asks for the receiver it finds an instance, and where it asks for the superclass
it finds a class, with a receiver around; an initializer finds its receiver all the time that it
runs; and no statement of a program ends with a return. -/
def Activity.Resolves (o : Options) (s : RunState) : Activity → Prop
  | .eval _ scope (.this keyword) => ∃ r, s.store.lookup? scope keyword.lexeme = some (.instanceRef r)
  | .eval _ scope (.super keyword _) =>
    (∃ c, s.store.lookup? scope keyword.lexeme = some (.classRef c)) ∧
      ∃ r, s.store.lookup? scope Token.receiver.lexeme = some (.instanceRef r)
  | .runBody n f args => f.isInitializer = true →
    ∀ q t, ((Activity.runBody n f args).plan o).Leads o s q t →
      ∃ r, t.store.lookup? f.scope Token.receiver.lexeme = some (.instanceRef r)
  | .program n scope (first :: _) =>
    ∀ keyword v t, Run.exec o n scope first s ≠ .done (.returned keyword v) t
  | _ => True

theorem Activity.Fits.resolves {o : Options} {s : RunState} {a : Activity} (hs : s.store.Sound)
    (h : a.Fits s.store) : a.Resolves o s := by
  unfold Activity.Resolves
  split
  · next scope keyword =>
    obtain ⟨context, ⟨herrors, hproper⟩, hp⟩ := h
    cases hproper with
    | this hkeyword =>
      rw [hkeyword.this]
      cases context with
      | outside => cases herrors
      | plain => exact hs.lookup_receiver hp
      | derived => exact hs.lookup_receiver hp.1
  · next scope keyword method =>
    obtain ⟨context, ⟨herrors, hproper⟩, hp⟩ := h
    cases hproper with
    | super hkeyword _ =>
      rw [hkeyword.super]
      cases context with
      | outside => cases herrors
      | plain => cases herrors
      | derived => exact ⟨hs.lookup_superclass hp.2, hs.lookup_receiver hp.1⟩
  · next n f args =>
    intro hi q t hl
    have hk := Discipline.leads_keeps (D := placement) (a := .runBody n f args) (placement_kept o)
      ⟨.refl _, hs⟩ h hl
    obtain ⟨context, hf⟩ := h
    exact hk.2.lookup_receiver (hk.1.finds (hf.initializer hi))
  · next n scope first rest =>
    intro keyword v t hr
    have hfirst := h first List.mem_cons_self
    have hrun := Discipline.run_keeps (placement_kept o) (.exec n scope first) s ⟨.refl _, hs⟩
      ⟨{}, hfirst, trivial⟩
    exact (hrun.done hr).2.2 ⟨_, hfirst.errors⟩
  · trivial

/-! ### The words of errors -/

/-- The words that the message of a fault begins with, whatever else it names. -/
def Fault.opening : Fault → String
  | .undefinedVariable _ => "Undefined variable '"
  | .undefinedProperty _ => "Undefined property '"
  | .noProperties _ => "Only instances have properties, got "
  | .noFields _ => "Only instances have fields, got "
  | .negation _ => "Operand of '-' must be a number, got "
  | .addition _ _ => "Operands of '+' must be two numbers or two strings, got "
  | .arithmetic _ _ _ => "Operands of '"
  | .unknownUnary _ => "Unknown unary operator '"
  | .unknownBinary _ => "Unknown binary operator '"
  | .notCallable _ => "Can only call functions and classes, got "
  | .wrongArity _ _ => "Expected "
  | .stackOverflow => "Stack overflow."
  | .superclassNotClass => "Superclass must be a class."
  | .superOutsideMethod => "Can't use 'super' outside of a method."
  | .initializerReturn => "Can't return a value from an initializer."
  | .topLevelReturn => "Can't return from top-level code."

theorem isPrefix_append {words text : String} (h : words.toList <+: text.toList) (more : String) :
    words.toList <+: (text ++ more).toList := by
  rw [String.toList_append]
  exact h.trans (List.prefix_append _ _)

theorem Fault.opening_isPrefix (f : Fault) : f.opening.toList <+: f.message.toList := by
  have h := List.prefix_rfl (l := f.opening.toList)
  cases f with
  | arithmetic op left right =>
    have h := isPrefix_append (isPrefix_append h op) "' must be numbers, got "
    exact isPrefix_append (isPrefix_append (isPrefix_append (isPrefix_append h _) _) _) _
  | addition left right | wrongArity expected got =>
    exact isPrefix_append (isPrefix_append (isPrefix_append (isPrefix_append h _) _) _) _
  | stackOverflow | superclassNotClass | superOutsideMethod | initializerReturn | topLevelReturn =>
    exact h
  | _ => exact isPrefix_append (isPrefix_append h _) _

/-- What the messages of the faults that a compiled program cannot have begin with. -/
def ruledOutWords : List String :=
  ["Can't return from top-level code.", "Unknown unary operator", "Unknown binary operator"]

theorem RuntimeError.Proper.message {e : RuntimeError} (h : e.Proper) :
    ∀ words ∈ ruledOutWords, ¬ words.toList <+: e.fault.message.toList := by
  intro words hw hm
  have hclash : ∀ words ∈ ruledOutWords,
      ¬ (words.toList <+: e.fault.opening.toList ∨ e.fault.opening.toList <+: words.toList) := by
    obtain ⟨-, -, hret, hunary, hbinary⟩ := h
    cases hf : e.fault with
    | topLevelReturn => exact absurd hf hret
    | unknownUnary op => exact absurd hf (hunary op)
    | unknownBinary op => exact absurd hf (hbinary op)
    | _ =>
      simp only [Fault.opening]
      decide
  exact hclash words hw (List.prefix_or_prefix_of_prefix hm e.fault.opening_isPrefix)

/-! ### Sessions -/

namespace Session

/-- The sessions with some options that have run some sources, whatever came of it. -/
inductive After (options : Option Options) : Session → Prop where
  | start : After options (start options freshStore)
  | run (earlier : After options s) (h : s.run fuel source = some (step, t)) : After options t

theorem sound_freshStore : freshStore.Sound where
  admits {i name v} h := by
    rw [freshStore, Store.own?_newScope] at h
    simp [Store.own?] at h
  functions h := by simp [freshStore, Store.newScope] at h
  methods h := by simp [freshStore, Store.newScope] at h

/-- A compiled program may be run in any sound state. -/
theorem fits_program {source : List Char} {program : List Stmt} (h : compile source = .ok program)
    (s : RunState) (fuel : Nat) (scope : ScopeId) :
    placement.fits s (.program fuel scope program) := by
  obtain ⟨herrors, hproper⟩ := compile_proper h
  exact stmts_inPlace herrors hproper

theorem After.sound {options : Option Options} {s : Session} (h : After options s) :
    s.state.store.Sound := by
  induction h with
  | start => exact sound_freshStore
  | @run s fuel source step t _ hr ih =>
    rcases run_eq_some hr with ⟨program, hc, hr⟩ | ⟨errors, -, -, rfl⟩
    · have hkeeps := Discipline.run_keeps (placement_kept s.options) (.program fuel globals program)
        s.ready ⟨.refl _, ih⟩ (fits_program hc _ _ _)
      rcases interpret_eq_some hr with ⟨-, ⟨-, hrun⟩ | ⟨e, -, hrun⟩⟩
      · exact (hkeeps.done hrun).1.2
      · exact (hkeeps.failed hrun).1.2
    · exact ih

end Session

/-- A source that compiles, run in a session that has run other sources before, ends, if it ends, with
no error at a `this` or a `super` and with none of the words that the check of placement rules
out; and whatever activity begins on the way finds the receivers and the superclasses it needs. -/
theorem compiled_program_sound {options : Option Options} {s : Session}
    (h : Session.After options s) {source : List Char} {program : List Stmt}
    (hc : compile source = .ok program) (fuel : Nat) :
    (∀ step t, s.run fuel source = some (step, t) → ∀ d, step.error = some d →
      ∃ token message overflow trace, d = .runtime token message overflow trace ∧
        token.kind ≠ .kwThis ∧ token.kind ≠ .kwSuper ∧
        ∀ words ∈ ruledOutWords, ¬ words.toList <+: message.toList) ∧
    ∀ a t, (Activity.program fuel Session.globals program).Reaches s.options s.ready a t →
      a.Resolves s.options t := by
  have hs : placement.keeps s.ready s.ready := ⟨.refl _, h.sound⟩
  have hfits := Session.fits_program hc s.ready fuel Session.globals
  constructor
  · intro step t hr d hd
    rw [Session.run] at hr
    rw [hc] at hr
    rcases Session.interpret_eq_some hr with ⟨-, ⟨hnone, -⟩ | ⟨e, hsome, hrun⟩⟩
    · rw [hnone] at hd
      cases hd
    · rw [hsome] at hd
      cases hd
      have hproper : e.Proper :=
        ((Discipline.run_keeps (placement_kept s.options) _ _ hs hfits).failed hrun).2
      exact ⟨_, _, _, _, rfl, hproper.this, hproper.super, hproper.message⟩
  · intro a t hr
    obtain ⟨hk, ha⟩ := Discipline.reaches_fits (placement_kept s.options) hs hfits hr
    exact Activity.Fits.resolves hk.2 ha

/-- A class, and an error that does not take it away again. -/
def leavesClass : List Char :=
  "class A \x7b init() \x7b this.a = this; \x7d self() \x7b return this; \x7d \x7d a;".toList

/-- A class derived from that one, and a property that its instances lack. -/
def derivesClass : List Char :=
  "class B < A \x7b self() \x7b return super.self(); \x7d \x7d B().self().b;".toList

/-- After a run that failed, the error of the next one is still none of those ruled out. -/
theorem derivesClass_sound :
    ∃ s step t program, Session.After none s ∧ compile derivesClass = .ok program ∧
      s.run 40 derivesClass = some (step, t) ∧
      (∃ token message overflow trace, step.error = some (.runtime token message overflow trace) ∧
        token.kind ≠ .kwThis ∧ token.kind ≠ .kwSuper ∧
        ∀ words ∈ ruledOutWords, ¬ words.toList <+: message.toList) ∧
      ∀ a u, (Activity.program 40 Session.globals program).Reaches s.options s.ready a u →
        a.Resolves s.options u := by
  have hruns : ((Session.start none Session.freshStore).run 40 leavesClass).any (fun r =>
      r.1.error.isSome && (r.2.run 40 derivesClass).any fun r => r.1.error.isSome) = true := by
    decide +kernel
  obtain ⟨⟨step, s⟩, h, hnext⟩ := Option.any_eq_true _ _ |>.1 hruns
  obtain ⟨⟨step', t⟩, h', herror⟩ := Option.any_eq_true _ _ |>.1 (Bool.and_eq_true_iff.1 hnext).2
  obtain ⟨d, hd⟩ := Option.isSome_iff_exists.1 herror
  have hs : Session.After none s := .run .start h
  have hok : (compile derivesClass).isOk = true := by decide +kernel
  obtain ⟨program, hc⟩ := exists_program hok
  have hsound := compiled_program_sound hs hc 40
  obtain ⟨token, message, overflow, trace, rfl, hproper⟩ := hsound.1 step' t h' d hd
  exact ⟨s, step', t, program, hs, hc, h', ⟨_, _, _, _, hd, hproper⟩, hsound.2⟩

end LoxLang
