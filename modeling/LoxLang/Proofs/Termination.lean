import LoxLang.Proofs.Run.Prompt
import LoxLang.Session

/-!
# Programs without loops

A program that contains no loop ends, whatever it calls and however its functions call each other: calls
nest only so deep, and between one call and the next there is only so much to evaluate. The proof
goes down first by the number of calls that are still allowed and then by the tree. That
works because no body that a call enters contains a loop either, wherever the function comes from.

Main statement: `loopFree_ends`.
-/

namespace LoxLang

/-! ### Programs without loops -/

mutual

/-- Nowhere in a statement is there a loop, not even in the functions that it declares. -/
def Stmt.loopFree : Stmt → Bool
  | .loop _ _ => false
  | .block body => stmtsLoopFree body
  | .ifThen _ yes => yes.loopFree
  | .ifElse _ yes no => yes.loopFree && no.loopFree
  | .function f => f.loopFree
  | .classDecl _ _ methods => functionsLoopFree methods
  | _ => true

/-- Nowhere in statements is there a loop. -/
def stmtsLoopFree : List Stmt → Bool
  | [] => true
  | s :: ss => s.loopFree && stmtsLoopFree ss

/-- Nowhere in a function is there a loop. -/
def FunctionDecl.loopFree : FunctionDecl → Bool
  | ⟨_, _, body⟩ => stmtsLoopFree body

/-- Nowhere in functions is there a loop. -/
def functionsLoopFree : List FunctionDecl → Bool
  | [] => true
  | f :: fs => f.loopFree && functionsLoopFree fs

end

theorem functionsLoopFree_iff {fs : List FunctionDecl} :
    functionsLoopFree fs = true ↔ ∀ f ∈ fs, f.loopFree = true := by
  induction fs with
  | nil => simp [functionsLoopFree]
  | cons f fs ih => simp [functionsLoopFree, ih]

/-- No function in the store contains a loop, and these calls are active. -/
structure RunState.LoopFree (active : Array Frame) (s : RunState) : Prop where
  store : s.store.Declares fun f => f.loopFree = true
  frames : s.frames = active

/-! ### Coming to an end -/

namespace Run

/-- With enough allowance a computation comes to an end, and with more to the same one. -/
def Settles (active : Array Frame) (m : Nat → Run α) (s : RunState) : Prop :=
  ∃ k r, r.Ends (fun _ => True) (RunState.LoopFree active) ∧ ∀ n, k ≤ n → m n s = r

variable {active : Array Frame} {s : RunState}

theorem Settles.bind {m : Nat → Run α} {f : Nat → α → Run β} (hm : Settles active m s)
    (hf : ∀ a t, t.LoopFree active → Settles active (fun n => f n a) t) :
    Settles active (fun n => m n >>= f n) s := by
  obtain ⟨k, r, hr, hk⟩ := hm
  cases r with
  | done a t =>
    obtain ⟨k', r', hr', hk'⟩ := hf a t hr.2
    refine ⟨max k k', r', hr', fun n hn => ?_⟩
    simp only [run_bind, hk n (Nat.le_trans (Nat.le_max_left _ _) hn)]
    exact hk' n (Nat.le_trans (Nat.le_max_right _ _) hn)
  | failed e t => exact ⟨k, .failed e t, hr, fun n hn => by simp only [run_bind, hk n hn]⟩
  | exhausted => exact hr.elim

/-- An evaluation takes one step of its allowance and leaves the rest to what it consists of. -/
theorem Settles.of_succ {m : Nat → Run α} (h : Settles active (fun n => m (n + 1)) s) :
    Settles active m s := by
  obtain ⟨k, r, hr, hk⟩ := h
  refine ⟨k + 1, r, hr, fun n hn => ?_⟩
  obtain ⟨n, rfl⟩ := Nat.exists_eq_add_of_le' hn
  exact hk (n + k) (Nat.le_add_left k n)

/-- What a computation reads it may go by. -/
theorem Settles.read {f : Store → α} {m : Nat → α → Run β}
    (h : Settles active (fun n => m n (f s.store)) s) : Settles active (fun n => read f >>= m n) s := h

/-- What a computation makes it may go by. -/
theorem Settles.make {f : Store → α × Store} {m : Nat → α → Run β}
    (h : Settles active (fun n => m n (f s.store).1) { s with store := (f s.store).2 }) :
    Settles active (fun n => make f >>= m n) s := h

theorem settles_prompt {goal : α → Prop} {m : Run α}
    (hm : Prompt (fun f => f.loopFree = true) goal m) (hs : s.LoopFree active) :
    Settles active (fun _ => m) s := by
  refine ⟨0, m s, (hm s hs.store).mono (fun _ _ => trivial) fun t ht => ?_, fun _ _ => rfl⟩
  exact ⟨ht.store, ht.frames.trans hs.frames⟩

theorem settles_pure (a : α) (hs : s.LoopFree active) : Settles active (fun _ => pure a) s :=
  have hp : Prompt (fun f => f.loopFree = true) (fun _ => True) (pure a) := prompt_pure trivial
  settles_prompt hp hs

theorem settles_fail (token : Token) (fault : Fault) (hs : s.LoopFree active) :
    Settles active (fun _ => (fail token fault : Run α)) s :=
  ⟨0, .failed { token, fault } s, hs, fun _ _ => rfl⟩

theorem settles_print (text : String) (hs : s.LoopFree active) : Settles active (fun _ => print text) s :=
  ⟨0, .done () { s with output := s.output ++ text ++ "\n" }, ⟨trivial, hs.store, hs.frames⟩, fun _ _ => rfl⟩

/-- A call comes to an end if what is called does, with one more call active. -/
theorem Settles.within {m : Nat → Run α} {frame : Frame} (o : Options) (hs : s.LoopFree active)
    (hm : ∀ t, t.LoopFree (active.push frame) → Settles (active.push frame) m t) :
    Settles active (fun n => within o frame (m n)) s := by
  obtain ⟨k, r, hr, hk⟩ := hm { s with frames := s.frames.push frame } ⟨hs.store, by rw [hs.frames]⟩
  have hpop {t : RunState} (ht : t.LoopFree (active.push frame)) :
      RunState.LoopFree active { t with frames := t.frames.pop } :=
    ⟨ht.store, by simp [ht.frames]⟩
  cases r with
  | done a t =>
    refine ⟨k, .done a { t with frames := t.frames.pop }, ⟨trivial, hpop hr.2⟩, fun n hn => ?_⟩
    simp only [Run.within, hk n hn]
  | failed e t =>
    refine ⟨k, .failed (if o.trace then e.traced t.frames.toList.reverse else e)
      { t with frames := t.frames.pop }, hpop hr, fun n hn => ?_⟩
    simp only [Run.within, hk n hn]
  | exhausted => exact hr.elim

/-- While these calls are active, every further call comes to an end. -/
def CallsSettle (o : Options) (active : Array Frame) : Prop :=
  ∀ callee paren args s, s.LoopFree active → Settles active (fun n => call o n callee paren args) s

/-! ### Evaluating what contains no loop -/

section Tree

variable {o : Options} {scope : ScopeId}

mutual

theorem settles_eval (hcalls : CallsSettle o active) (e : Expr) {s : RunState} (hs : s.LoopFree active) :
    Settles active (fun n => eval o n scope e) s := by
  refine .of_succ ?_
  cases e with
  | literal v =>
    simp only [eval]
    exact settles_pure v hs
  | grouping inner =>
    simp only [eval]
    exact settles_eval hcalls inner hs
  | name t =>
    simp only [eval]
    exact settles_prompt (prompt_lookup t) hs
  | assign name value =>
    simp only [eval]
    refine (settles_eval hcalls value hs).bind fun v t ht => ?_
    exact (settles_prompt (prompt_assign name v) ht).bind fun _ u hu => settles_pure v hu
  | unary op operand =>
    simp only [eval]
    exact (settles_eval hcalls operand hs).bind fun v t ht => settles_prompt (prompt_applyUnary op v) ht
  | binary left op right =>
    simp only [eval]
    refine (settles_eval hcalls left hs).bind fun a t ht => ?_
    exact (settles_eval hcalls right ht).bind fun b u hu => settles_prompt (prompt_applyBinary op a b) hu
  | logical left op right =>
    simp only [eval]
    refine (settles_eval hcalls left hs).bind fun a t ht => ?_
    split
    · exact settles_pure a ht
    · exact settles_eval hcalls right ht
  | call callee paren args =>
    simp only [eval]
    refine (settles_eval hcalls callee hs).bind fun f t ht => ?_
    exact (settles_evalAll hcalls args ht).bind fun vs u hu => hcalls f paren vs u hu
  | get object name =>
    simp only [eval]
    exact (settles_eval hcalls object hs).bind fun v t ht => settles_prompt (prompt_property v name) ht
  | set object name value =>
    simp only [eval]
    refine (settles_eval hcalls object hs).bind fun v t ht => ?_
    refine (settles_prompt (prompt_fieldOwner v name) ht).bind fun owner u hu => ?_
    refine (settles_eval hcalls value hu).bind fun w u hu => ?_
    exact (settles_prompt (prompt_setField owner name.lexeme w) hu).bind fun _ u hu => settles_pure w hu
  | this keyword =>
    simp only [eval]
    exact settles_prompt (prompt_lookup keyword) hs
  | super keyword method =>
    simp only [eval]
    exact settles_prompt (prompt_superMethod keyword method) hs

theorem settles_evalAll (hcalls : CallsSettle o active) (es : List Expr) {s : RunState}
    (hs : s.LoopFree active) : Settles active (fun n => evalAll o n scope es) s := by
  refine .of_succ ?_
  cases es with
  | nil =>
    simp only [evalAll]
    exact settles_pure [] hs
  | cons e es =>
    simp only [evalAll]
    refine (settles_eval hcalls e hs).bind fun v t ht => ?_
    exact (settles_evalAll hcalls es ht).bind fun vs u hu => settles_pure (v :: vs) hu

end

theorem settles_evalOption (hcalls : CallsSettle o active) (i : Option Expr) (hs : s.LoopFree active) :
    Settles active (fun n => evalOption o n scope i) s := by
  refine .of_succ ?_
  cases i with
  | none =>
    simp only [evalOption]
    exact settles_pure _ hs
  | some e =>
    simp only [evalOption]
    exact settles_eval hcalls e hs

mutual

theorem settles_exec (hcalls : CallsSettle o active) (st : Stmt) (hst : st.loopFree = true)
    {scope : ScopeId} {s : RunState} (hs : s.LoopFree active) :
    Settles active (fun n => exec o n scope st) s := by
  refine .of_succ ?_
  cases st with
  | expression e =>
    simp only [exec]
    exact (settles_eval hcalls e hs).bind fun _ t ht => settles_pure _ ht
  | print e =>
    simp only [exec]
    refine (settles_eval hcalls e hs).bind fun v t ht => ?_
    exact (settles_print v.display ht).bind fun _ u hu => settles_pure _ hu
  | var name initial =>
    simp only [exec]
    refine (settles_evalOption hcalls initial hs).bind fun v t ht => ?_
    exact (settles_prompt (prompt_define name.lexeme v) ht).bind fun _ u hu => settles_pure _ hu
  | block body =>
    rw [Stmt.loopFree] at hst
    simp only [exec]
    refine (settles_prompt (prompt_make_of_eq (fun _ => rfl) fun _ => rfl) hs).bind fun inner t ht => ?_
    exact settles_execAll hcalls body hst ht
  | ifThen condition yes =>
    rw [Stmt.loopFree] at hst
    simp only [exec]
    refine (settles_eval hcalls condition hs).bind fun c t ht => ?_
    split
    · exact settles_exec hcalls yes hst ht
    · exact settles_pure _ ht
  | ifElse condition yes no =>
    rw [Stmt.loopFree, Bool.and_eq_true] at hst
    simp only [exec]
    refine (settles_eval hcalls condition hs).bind fun c t ht => ?_
    split
    · exact settles_exec hcalls yes hst.1 ht
    · exact settles_exec hcalls no hst.2 ht
  | loop condition body => simp [Stmt.loopFree] at hst
  | function f =>
    rw [Stmt.loopFree] at hst
    simp only [exec]
    refine (settles_prompt (prompt_newFunction hst) hs).bind fun v t ht => ?_
    exact (settles_prompt (prompt_define f.name.lexeme v) ht).bind fun _ u hu => settles_pure _ hu
  | ret keyword value =>
    simp only [exec]
    exact (settles_evalOption hcalls value hs).bind fun v t ht => settles_pure _ ht
  | classDecl name superclass methods =>
    rw [Stmt.loopFree, functionsLoopFree_iff] at hst
    simp only [exec]
    refine (settles_prompt (prompt_declareClass name superclass hst) hs).bind fun _ t ht => ?_
    exact settles_pure _ ht

theorem settles_execAll (hcalls : CallsSettle o active) (ss : List Stmt)
    (hss : stmtsLoopFree ss = true) {scope : ScopeId} {s : RunState} (hs : s.LoopFree active) :
    Settles active (fun n => execAll o n scope ss) s := by
  refine .of_succ ?_
  cases ss with
  | nil =>
    simp only [execAll]
    exact settles_pure _ hs
  | cons st ss =>
    rw [stmtsLoopFree, Bool.and_eq_true] at hss
    simp only [execAll]
    refine (settles_exec hcalls st hss.1 hs).bind fun c t ht => ?_
    cases c with
    | normal => exact settles_execAll hcalls ss hss.2 ht
    | returned keyword v => exact settles_pure _ ht

end

end Tree

/-! ### Calls -/

section Calls

variable {o : Options}

theorem settles_runBody (hcalls : CallsSettle o active) {f : Closure} (hf : f.declaration.loopFree = true)
    (args : List Value) (hs : s.LoopFree active) :
    Settles active (fun n => runBody o n f args) s := by
  refine .of_succ ?_
  simp only [runBody]
  refine (settles_prompt (prompt_enter f args) hs).bind fun inner t ht => ?_
  have hbody : stmtsLoopFree f.declaration.body = true := by
    rw [← hf]
    cases f.declaration
    rfl
  refine (settles_execAll hcalls f.declaration.body hbody ht).bind fun c u hu => ?_
  exact settles_prompt (prompt_leave f c) hu

theorem settles_apply (hcalls : CallsSettle o active) (callee : Value) (args : List Value)
    (hs : s.LoopFree active) : Settles active (fun n => apply o n callee args) s := by
  refine .of_succ ?_
  cases callee with
  | functionRef ref =>
    simp only [apply]
    refine .read ?_
    cases hf : s.store.functions[ref.id]? with
    | some f => exact settles_runBody hcalls (hs.store.functions hf) args hs
    | none => exact settles_pure _ hs
  | classRef ref =>
    simp only [apply]
    refine (settles_prompt (prompt_make_of_eq (fun _ => rfl) fun _ => rfl) hs).bind fun receiver t ht => ?_
    refine .read ?_
    cases hm : t.store.method? ref.id Store.initializerName with
    | some m =>
      have hu : RunState.LoopFree active { t with store := (t.store.bind m receiver).2 } :=
        ⟨ht.store.of_eq rfl rfl, ht.frames⟩
      refine .make (.bind (settles_runBody hcalls ?_ args hu) fun _ w hw => settles_pure _ hw)
      exact ht.store.method (m := m) hm
    | none => exact settles_pure _ ht
  | _ =>
    simp only [apply]
    exact settles_pure _ hs

/-- What follows the check for too many calls may count on there being room for one more. -/
theorem Settles.guardDepth {m : Nat → Run α} (paren : Token) (hs : s.LoopFree active)
    (h : o.allowsCall active.size = true → Settles active m s) :
    Settles active (fun n => guardDepth o paren >>= fun _ => m n) s := by
  by_cases hroom : o.allowsCall active.size = true
  · have hdone : Run.guardDepth o paren s = .done () s := by
      rw [Run.guardDepth, hs.frames, if_pos hroom]
    obtain ⟨k, r, hr, hk⟩ := h hroom
    exact ⟨k, r, hr, fun n hn => by simp only [run_bind, hdone, hk n hn]⟩
  · have hfailed : Run.guardDepth o paren s = .failed { token := paren, fault := .stackOverflow } s := by
      rw [Run.guardDepth, hs.frames, if_neg hroom]
    exact ⟨0, .failed { token := paren, fault := .stackOverflow } s, hs,
      fun n _ => by simp only [run_bind, hfailed]⟩

/-- Calls come to an end if those that they make themselves do, as far as there is room for such calls. -/
theorem callsSettle_of_deeper
    (h : o.allowsCall active.size = true → ∀ frame, CallsSettle o (active.push frame)) :
    CallsSettle o active := by
  intro callee paren args s hs
  refine .of_succ ?_
  simp only [call]
  refine .read ?_
  cases s.store.arity? callee with
  | none => exact settles_fail _ _ hs
  | some arity =>
    dsimp only
    split
    · refine .guardDepth paren hs fun hroom => .within o hs fun t ht => ?_
      exact settles_apply (h hroom _) callee args ht
    · exact settles_fail _ _ hs

/-- Whatever calls are active, further calls come to an end, as there is only so much room for them. -/
theorem callsSettle (o : Options) (active : Array Frame) : CallsSettle o active := by
  suffices ∀ (room : Nat) (active : Array Frame), o.maxCallDepth ≤ active.size + room →
      CallsSettle o active from
    this (o.maxCallDepth - active.size).toNat active (by omega)
  intro room
  induction room with
  | zero =>
    intro active hfull
    refine callsSettle_of_deeper fun hroom => ?_
    simp only [Options.allowsCall, decide_eq_true_eq] at hroom
    omega
  | succ room ih =>
    intro active hroom
    refine callsSettle_of_deeper fun _ frame => ih _ ?_
    rw [Array.size_push]
    omega

theorem settles_program (o : Options) (scope : ScopeId) (ss : List Stmt) (hss : stmtsLoopFree ss = true)
    (hs : s.LoopFree active) : Settles active (fun n => program o n scope ss) s := by
  induction ss generalizing s with
  | nil => exact settles_pure () hs
  | cons st ss ih =>
    rw [stmtsLoopFree, Bool.and_eq_true] at hss
    simp only [program]
    refine (settles_exec (callsSettle o active) st hss.1 hs).bind fun c t ht => ?_
    cases c with
    | normal => exact ih hss.2 ht
    | returned keyword v => exact settles_fail _ _ ht

end Calls

end Run

/-! ### Sessions -/

namespace Session

/-- Runs sources one after another. Of every run there is what it shows and the session after it. -/
def runAll (fuel : Nat) (s : Session) : List (List Char) → Option (List (Step × Session))
  | [] => some []
  | source :: rest => do
    let (step, t) ← s.run fuel source
    let later ← t.runAll fuel rest
    return (step, t) :: later

/-- A source without loops comes to an end, and so do then all that follow it. -/
theorem run_ends {s : Session} {active : Array Frame} (hs : s.state.LoopFree active) {source : List Char}
    (h : ∀ program, compile source = .ok program → stmtsLoopFree program = true) :
    ∃ k step t, t.state.LoopFree active ∧ ∀ n, k ≤ n → s.run n source = some (step, t) := by
  cases hc : compile source with
  | error errors =>
    exact ⟨0, _, s, hs, fun n _ => run_of_compile_error hc n s⟩
  | ok program =>
    have hready : s.ready.LoopFree active := ⟨hs.store, hs.frames⟩
    obtain ⟨k, r, hr, hk⟩ := Run.settles_program s.options globals program (h program hc) hready
    simp only [ready] at hk
    cases r with
    | done a t =>
      refine ⟨k, { output := t.output, error := none }, { s with state := t }, hr.2, fun n hn => ?_⟩
      simp only [run, hc, interpret, hk n hn]
    | failed e t =>
      refine ⟨k, { output := t.output, error := some e.diagnostic }, { s with state := t }, hr,
        fun n hn => ?_⟩
      simp only [run, hc, interpret, hk n hn]
    | exhausted => exact hr.elim

theorem runAll_ends {s : Session} {active : Array Frame} (hs : s.state.LoopFree active)
    {sources : List (List Char)} (h : ∀ source ∈ sources, ∀ program, compile source = .ok program →
      stmtsLoopFree program = true) :
    ∃ k steps, ∀ n, k ≤ n → s.runAll n sources = some steps := by
  induction sources generalizing s with
  | nil => exact ⟨0, [], fun _ _ => rfl⟩
  | cons source rest ih =>
    obtain ⟨k, step, t, ht, hk⟩ := run_ends hs (h source List.mem_cons_self)
    obtain ⟨k', steps, hk'⟩ := ih ht fun source hsource => h source (List.mem_cons_of_mem _ hsource)
    refine ⟨max k k', (step, t) :: steps, fun n hn => ?_⟩
    rw [runAll, hk n (Nat.le_trans (Nat.le_max_left _ _) hn)]
    simp only [Option.bind_eq_bind, Option.bind_some, hk' n (Nat.le_trans (Nat.le_max_right _ _) hn)]
    rfl

theorem loopFree_freshStore : freshStore.Declares fun f => f.loopFree = true where
  functions h := by simp [freshStore, Store.newScope] at h
  methods h := by simp [freshStore, Store.newScope] at h

end Session

/-- With any options, a session whose sources contain no loop comes to an end: from some allowance on, every
run of it ends, and in the same way whatever the allowance. -/
theorem loopFree_ends (options : Option Options) {sources : List (List Char)}
    (h : ∀ source ∈ sources, ∀ program, compile source = .ok program → stmtsLoopFree program = true) :
    ∃ fuel steps, ∀ n, fuel ≤ n →
      (Session.start options Session.freshStore).runAll n sources = some steps :=
  Session.runAll_ends ⟨Session.loopFree_freshStore, rfl⟩ h

/-- A function that calls the function that it is given, and hands it itself. -/
def selfApplication : List Char :=
  "fun f(g) \x7b g(g); \x7d\nclass A \x7b init() \x7b A(); \x7d \x7d\nf(f);\nA();".toList

/-- `selfApplication` and what it leaves behind, called once more, come to an end. -/
theorem selfApplication_ends :
    ∃ fuel steps, ∀ n, fuel ≤ n →
      (Session.start none Session.freshStore).runAll n [selfApplication, "A();".toList] = some steps := by
  refine loopFree_ends none fun source hsource program hprogram => ?_
  have hfree : ([selfApplication, "A();".toList].all fun source =>
      (compile source).toOption.all stmtsLoopFree) = true := by
    decide +kernel
  have := List.all_eq_true.1 hfree source hsource
  simpa [hprogram, Except.toOption] using this

end LoxLang
