import LoxLang.Proofs.Run.Course
import LoxLang.Proofs.Run.Prompt

/-!
# Running under other options

The options decide how deep calls may nest and whether errors come with a trace. So two runs of the same
activity, the second with the deeper limit and with no less allowance, are the same run up to
where the first one may come to a call that is one too many for it; the second one may go on from
there, and can only add to what is printed.

Main statements: `deepened`, for every part of the evaluator, and `program_deepens`.
-/

namespace LoxLang

/-- A computation prints nothing but what follows on this. -/
def Outcome.Prints (before : String) : Outcome α → Prop
  | .done _ t | .failed _ t => ∃ more, t.output = before ++ more
  | .exhausted => True

/-- How a computation ends under other options: as it did, with an error that differs in its trace at most; or
in any way that goes on printing, where it used to end with an overflow and calls may now nest
deeper. Without an end there is nothing to compare with. -/
def Outcome.Deepens (o o' : Options) : Outcome α → Outcome α → Prop
  | .done a t, r' => r' = .done a t
  | .failed e t, r' =>
    (∃ e', r' = .failed e' t ∧ e'.Same e ∧ (o'.trace = o.trace → e' = e)) ∨
      e.fault = .stackOverflow ∧ o.maxCallDepth < o'.maxCallDepth ∧ r'.Prints t.output
  | .exhausted, _ => True

/-- A computation under other options, and with no less allowance. -/
structure Run.Deepens (o o' : Options) (m m' : Run α) : Prop where
  ends : ∀ s, (m s).Deepens o o' (m' s)
  prints : ∀ s, (m' s).Prints s.output

theorem Outcome.Prints.trans {before after : String} {r : Outcome α} (h : r.Prints after)
    (hb : ∃ more, after = before ++ more) : r.Prints before := by
  obtain ⟨more, rfl⟩ := hb
  cases r with
  | exhausted => trivial
  | _ =>
    obtain ⟨rest, hrest⟩ := h
    exact ⟨more ++ rest, by rw [hrest, String.append_assoc]⟩

theorem RuntimeError.Same.symm {e f : RuntimeError} (h : e.Same f) : f.Same e := ⟨h.1.symm, h.2.symm⟩

theorem RuntimeError.keptTrace_same (o : Options) (e : RuntimeError) (active : List Frame) :
    (if o.trace then e.traced active else e).Same e := by
  split
  · exact e.traced_same active
  · exact ⟨rfl, rfl⟩

theorem Store.declares_true (σ : Store) : σ.Declares fun _ => True := ⟨fun _ => trivial, fun _ _ => trivial⟩

namespace Run

variable {o o' : Options}

theorem prints_bind {before : String} {m : Run α} {f : α → Run β} {s : RunState}
    (hm : (m s).Prints before) (hf : ∀ a t, (f a t).Prints t.output) : ((m >>= f) s).Prints before := by
  rw [run_bind]
  cases h : m s with
  | done a t =>
    rw [h] at hm
    exact (hf a t).trans hm
  | failed e t =>
    rw [h] at hm
    exact hm
  | exhausted => trivial

theorem Deepens.bind {m m' : Run α} {f f' : α → Run β} (hm : Deepens o o' m m')
    (hf : ∀ a, Deepens o o' (f a) (f' a)) : Deepens o o' (m >>= f) (m' >>= f') := by
  constructor
  · intro s
    have hends := hm.ends s
    rw [run_bind]
    cases h : m s with
    | done a t =>
      rw [h] at hends
      rw [run_bind, show m' s = .done a t from hends]
      exact (hf a).ends t
    | failed e t =>
      rw [h] at hends
      rcases hends with ⟨e', he', hsame⟩ | ⟨hover, hdepth, hprints⟩
      · exact .inl ⟨e', by rw [run_bind, he'], hsame⟩
      · exact .inr ⟨hover, hdepth, prints_bind hprints fun a => (hf a).prints⟩
    | exhausted => trivial
  · exact fun s => prints_bind (hm.prints s) fun a => (hf a).prints

/-- What ends at once and asks for no options is the same under all. -/
theorem deepens_prompt {goal : α → Prop} {m : Run α} (hm : Prompt (fun _ => True) goal m) :
    Deepens o o' m m := by
  constructor
  · intro s
    cases m s with
    | done a t => rfl
    | failed e t => exact .inl ⟨e, rfl, ⟨rfl, rfl⟩, fun _ => rfl⟩
    | exhausted => trivial
  · intro s
    have hs := hm s s.store.declares_true
    cases h : m s with
    | done a t =>
      rw [h] at hs
      exact ⟨"", by rw [hs.2.output, String.append_empty]⟩
    | failed e t =>
      rw [h] at hs
      exact ⟨"", by rw [hs.output, String.append_empty]⟩
    | exhausted => trivial

theorem deepens_pure (a : α) : Deepens o o' (pure a) (pure a) := by
  have hp : Prompt (fun _ => True) (fun _ => True) (pure a) := prompt_pure trivial
  exact deepens_prompt hp

theorem deepens_fail (token : Token) (fault : Fault) :
    Deepens o o' (fail token fault : Run α) (fail token fault) := by
  have hp : Prompt (fun _ => True) (fun _ => True) (fail token fault : Run α) := prompt_fail token fault
  exact deepens_prompt hp

theorem deepens_print (text : String) : Deepens o o' (print text) (print text) :=
  ⟨fun _ => rfl, fun _ => ⟨text ++ "\n", by simp only [String.append_assoc]⟩⟩

theorem deepens_guardDepth (hdepth : o.maxCallDepth ≤ o'.maxCallDepth) (paren : Token) :
    Deepens o o' (guardDepth o paren) (guardDepth o' paren) := by
  constructor
  · intro s
    simp only [guardDepth, Options.allowsCall, decide_eq_true_eq]
    by_cases h : (s.frames.size : Int) < o.maxCallDepth
    · rw [if_pos h, if_pos (Int.lt_of_lt_of_le h hdepth)]
      rfl
    · rw [if_neg h]
      by_cases h' : (s.frames.size : Int) < o'.maxCallDepth
      · refine .inr ⟨rfl, by omega, ?_⟩
        rw [if_pos h']
        exact ⟨"", by simp⟩
      · rw [if_neg h']
        exact .inl ⟨_, rfl, ⟨rfl, rfl⟩, fun _ => rfl⟩
  · intro s
    unfold guardDepth
    split <;> exact ⟨"", by simp⟩

theorem prints_within {before : String} {frame : Frame} {m : Run α} {s : RunState}
    (h : (m { s with frames := s.frames.push frame }).Prints before) :
    (within o frame m s).Prints before := by
  unfold within
  split
  · next h' =>
    rw [h'] at h
    exact h
  · next h' =>
    rw [h'] at h
    exact h
  · trivial

theorem Deepens.within {m m' : Run α} (frame : Frame) (h : Deepens o o' m m') :
    Deepens o o' (within o frame m) (within o' frame m') := by
  constructor
  · intro s
    have hends := h.ends { s with frames := s.frames.push frame }
    cases hm : m { s with frames := s.frames.push frame } with
    | done a t =>
      rw [hm] at hends
      simp only [Run.within, hm, show m' _ = .done a t from hends]
      rfl
    | failed e t =>
      rw [hm] at hends
      have hsame := e.keptTrace_same o t.frames.toList.reverse
      rcases hends with ⟨e', he', hsame', htrace⟩ | ⟨hover, hdepth, hmore⟩
      · simp only [Run.within, hm, he']
        refine .inl ⟨_, rfl, ?_, fun ho => by rw [ho, htrace ho]⟩
        exact ((e'.keptTrace_same o' _).trans hsame').trans hsame.symm
      · have hprints := prints_within (o := o') hmore
        simp only [Run.within, hm]
        exact .inr ⟨hsame.2.trans hover, hdepth, hprints⟩
    | exhausted =>
      simp only [Run.within, hm]
      trivial
  · exact fun s => prints_within (h.prints _)

/-! ### The evaluator -/

/-- With an allowance of `n'` and other options, every part of the evaluator does as with one of `n`. -/
structure Deepened (o o' : Options) (n n' : Nat) : Prop where
  exec : ∀ scope st, Deepens o o' (exec o n scope st) (exec o' n' scope st)
  execAll : ∀ scope ss, Deepens o o' (execAll o n scope ss) (execAll o' n' scope ss)
  execLoop : ∀ scope c body, Deepens o o' (execLoop o n scope c body) (execLoop o' n' scope c body)
  eval : ∀ scope e, Deepens o o' (eval o n scope e) (eval o' n' scope e)
  evalOption : ∀ scope i, Deepens o o' (evalOption o n scope i) (evalOption o' n' scope i)
  evalAll : ∀ scope es, Deepens o o' (evalAll o n scope es) (evalAll o' n' scope es)
  call : ∀ callee paren args, Deepens o o' (call o n callee paren args) (call o' n' callee paren args)
  apply : ∀ callee args, Deepens o o' (apply o n callee args) (apply o' n' callee args)
  runBody : ∀ f args, Deepens o o' (runBody o n f args) (runBody o' n' f args)

section Step

variable {n n' : Nat} {scope : ScopeId} (ih : Deepened o o' n n')

include ih

theorem exec_deepens (st : Stmt) : Deepens o o' (exec o (n + 1) scope st) (exec o' (n' + 1) scope st) := by
  cases st with
  | expression e =>
    simp only [Run.exec]
    exact (ih.eval scope e).bind fun _ => deepens_pure _
  | print e =>
    simp only [Run.exec]
    exact (ih.eval scope e).bind fun v => (deepens_print v.display).bind fun _ => deepens_pure _
  | var name initial =>
    simp only [Run.exec]
    exact (ih.evalOption scope initial).bind fun v =>
      (deepens_prompt (prompt_define name.lexeme v)).bind fun _ => deepens_pure _
  | block body =>
    simp only [Run.exec]
    exact (deepens_prompt (prompt_make_of_eq (fun _ => rfl) fun _ => rfl)).bind fun inner =>
      ih.execAll inner body
  | ifThen condition yes =>
    simp only [Run.exec]
    refine (ih.eval scope condition).bind fun c => ?_
    split
    · exact ih.exec scope yes
    · exact deepens_pure _
  | ifElse condition yes no =>
    simp only [Run.exec]
    refine (ih.eval scope condition).bind fun c => ?_
    split
    · exact ih.exec scope yes
    · exact ih.exec scope no
  | loop condition body =>
    simp only [Run.exec]
    exact ih.execLoop scope condition body
  | function f =>
    simp only [Run.exec]
    exact (deepens_prompt (prompt_newFunction trivial)).bind fun v =>
      (deepens_prompt (prompt_define f.name.lexeme v)).bind fun _ => deepens_pure _
  | ret keyword value =>
    simp only [Run.exec]
    exact (ih.evalOption scope value).bind fun v => deepens_pure _
  | classDecl name superclass methods =>
    simp only [Run.exec]
    exact (deepens_prompt (prompt_declareClass name superclass fun _ _ => trivial)).bind fun _ =>
      deepens_pure _

theorem execAll_deepens (ss : List Stmt) :
    Deepens o o' (execAll o (n + 1) scope ss) (execAll o' (n' + 1) scope ss) := by
  cases ss with
  | nil =>
    simp only [Run.execAll]
    exact deepens_pure _
  | cons st ss =>
    simp only [Run.execAll]
    refine (ih.exec scope st).bind fun c => ?_
    cases c with
    | normal => exact ih.execAll scope ss
    | returned keyword v => exact deepens_pure _

theorem execLoop_deepens (condition : Expr) (body : Stmt) :
    Deepens o o' (execLoop o (n + 1) scope condition body) (execLoop o' (n' + 1) scope condition body) := by
  simp only [Run.execLoop]
  refine (ih.eval scope condition).bind fun v => ?_
  split
  · refine (ih.exec scope body).bind fun c => ?_
    cases c with
    | normal => exact ih.execLoop scope condition body
    | returned keyword v => exact deepens_pure _
  · exact deepens_pure _

theorem eval_deepens (e : Expr) : Deepens o o' (eval o (n + 1) scope e) (eval o' (n' + 1) scope e) := by
  cases e with
  | literal v =>
    simp only [Run.eval]
    exact deepens_pure v
  | grouping inner =>
    simp only [Run.eval]
    exact ih.eval scope inner
  | name t =>
    simp only [Run.eval]
    exact deepens_prompt (prompt_lookup t)
  | assign name value =>
    simp only [Run.eval]
    exact (ih.eval scope value).bind fun v =>
      (deepens_prompt (prompt_assign name v)).bind fun _ => deepens_pure v
  | unary op operand =>
    simp only [Run.eval]
    exact (ih.eval scope operand).bind fun v => deepens_prompt (prompt_applyUnary op v)
  | binary left op right =>
    simp only [Run.eval]
    exact (ih.eval scope left).bind fun a => (ih.eval scope right).bind fun b =>
      deepens_prompt (prompt_applyBinary op a b)
  | logical left op right =>
    simp only [Run.eval]
    refine (ih.eval scope left).bind fun a => ?_
    split
    · exact deepens_pure a
    · exact ih.eval scope right
  | call callee paren args =>
    simp only [Run.eval]
    exact (ih.eval scope callee).bind fun f => (ih.evalAll scope args).bind fun vs => ih.call f paren vs
  | get object name =>
    simp only [Run.eval]
    exact (ih.eval scope object).bind fun v => deepens_prompt (prompt_property v name)
  | set object name value =>
    simp only [Run.eval]
    exact (ih.eval scope object).bind fun v =>
      (deepens_prompt (prompt_fieldOwner v name)).bind fun owner => (ih.eval scope value).bind fun w =>
        (deepens_prompt (prompt_setField owner name.lexeme w)).bind fun _ => deepens_pure w
  | this keyword =>
    simp only [Run.eval]
    exact deepens_prompt (prompt_lookup keyword)
  | super keyword method =>
    simp only [Run.eval]
    exact deepens_prompt (prompt_superMethod keyword method)

theorem evalOption_deepens (i : Option Expr) :
    Deepens o o' (evalOption o (n + 1) scope i) (evalOption o' (n' + 1) scope i) := by
  cases i with
  | none =>
    simp only [Run.evalOption]
    exact deepens_pure _
  | some e =>
    simp only [Run.evalOption]
    exact ih.eval scope e

theorem evalAll_deepens (es : List Expr) :
    Deepens o o' (evalAll o (n + 1) scope es) (evalAll o' (n' + 1) scope es) := by
  cases es with
  | nil =>
    simp only [Run.evalAll]
    exact deepens_pure _
  | cons e es =>
    simp only [Run.evalAll]
    exact (ih.eval scope e).bind fun v => (ih.evalAll scope es).bind fun vs => deepens_pure _

theorem call_deepens (hdepth : o.maxCallDepth ≤ o'.maxCallDepth) (callee : Value) (paren : Token)
    (args : List Value) :
    Deepens o o' (call o (n + 1) callee paren args) (call o' (n' + 1) callee paren args) := by
  simp only [Run.call]
  refine (deepens_prompt (prompt_read _)).bind fun arity => ?_
  cases arity with
  | none => exact deepens_fail _ _
  | some arity =>
    dsimp only
    split
    · exact (deepens_guardDepth hdepth paren).bind fun _ => .within _ (ih.apply callee args)
    · exact deepens_fail _ _

theorem apply_deepens (callee : Value) (args : List Value) :
    Deepens o o' (apply o (n + 1) callee args) (apply o' (n' + 1) callee args) := by
  cases callee with
  | functionRef ref =>
    simp only [Run.apply]
    refine (deepens_prompt (prompt_read _)).bind fun f => ?_
    cases f with
    | some f => exact ih.runBody f args
    | none => exact deepens_pure _
  | classRef ref =>
    simp only [Run.apply]
    refine (deepens_prompt (prompt_make_of_eq (fun _ => rfl) fun _ => rfl)).bind fun receiver => ?_
    refine (deepens_prompt (prompt_read _)).bind fun m => ?_
    cases m with
    | some m =>
      refine (deepens_prompt (prompt_make_of_eq (fun _ => rfl) fun _ => rfl)).bind fun bound => ?_
      exact (ih.runBody bound args).bind fun _ => deepens_pure _
    | none => exact deepens_pure _
  | _ =>
    simp only [Run.apply]
    exact deepens_pure _

theorem runBody_deepens (f : Closure) (args : List Value) :
    Deepens o o' (runBody o (n + 1) f args) (runBody o' (n' + 1) f args) := by
  simp only [Run.runBody]
  exact (deepens_prompt (prompt_enter f args)).bind fun inner =>
    (ih.execAll inner f.declaration.body).bind fun c => deepens_prompt (prompt_leave f c)

end Step

theorem Deepened.succ {n n' : Nat} (ih : Deepened o o' n n') (hdepth : o.maxCallDepth ≤ o'.maxCallDepth) :
    Deepened o o' (n + 1) (n' + 1) where
  exec _ st := exec_deepens ih st
  execAll _ ss := execAll_deepens ih ss
  execLoop _ c body := execLoop_deepens ih c body
  eval _ e := eval_deepens ih e
  evalOption _ i := evalOption_deepens ih i
  evalAll _ es := evalAll_deepens ih es
  call callee paren args := call_deepens ih hdepth callee paren args
  apply callee args := apply_deepens ih callee args
  runBody f args := runBody_deepens ih f args

/-- Without any allowance there is no end to compare with. -/
theorem deepens_exhausted {m : Run α} (hm : ∀ s, (m s).Prints s.output) : Deepens o o' exhausted m :=
  ⟨fun _ => trivial, hm⟩

theorem Deepened.zero {n' : Nat} (h : Deepened o' o' n' n') : Deepened o o' 0 n' := by
  constructor <;> intros <;>
    simp only [Run.exec, Run.execAll, Run.execLoop, Run.eval, Run.evalOption, Run.evalAll, Run.call,
      Run.apply, Run.runBody] <;>
    refine deepens_exhausted ?_
  case exec => exact (h.exec _ _).prints
  case execAll => exact (h.execAll _ _).prints
  case execLoop => exact (h.execLoop _ _ _).prints
  case eval => exact (h.eval _ _).prints
  case evalOption => exact (h.evalOption _ _).prints
  case evalAll => exact (h.evalAll _ _).prints
  case call => exact (h.call _ _ _).prints
  case apply => exact (h.apply _ _).prints
  case runBody => exact (h.runBody _ _).prints

/-- Under the same options, an activity does as it does. -/
theorem deepened_self (o : Options) (n : Nat) : Deepened o o n n := by
  induction n with
  | zero =>
    constructor <;> intros <;>
      simp only [Run.exec, Run.execAll, Run.execLoop, Run.eval, Run.evalOption, Run.evalAll, Run.call,
        Run.apply, Run.runBody] <;>
      exact deepens_exhausted fun _ => trivial
  | succ n ih => exact ih.succ (Int.le_refl _)

/-- A deeper limit and more allowance make no difference before a call comes that used to be one too many. -/
theorem deepened (hdepth : o.maxCallDepth ≤ o'.maxCallDepth) {n n' : Nat} (hn : n ≤ n') :
    Deepened o o' n n' := by
  induction n generalizing n' with
  | zero => exact .zero (deepened_self o' n')
  | succ n ih =>
    obtain ⟨n', rfl⟩ := Nat.exists_eq_add_of_le' hn
    exact (ih (Nat.le_add_left n n')).succ hdepth

theorem program_deepens (hdepth : o.maxCallDepth ≤ o'.maxCallDepth) {n n' : Nat} (hn : n ≤ n')
    (scope : ScopeId) (ss : List Stmt) : Deepens o o' (program o n scope ss) (program o' n' scope ss) := by
  induction ss with
  | nil => exact deepens_pure ()
  | cons st ss ih =>
    simp only [program]
    refine ((deepened hdepth hn).exec scope st).bind fun c => ?_
    cases c with
    | normal => exact ih
    | returned keyword v => exact deepens_fail _ _

end Run

end LoxLang
