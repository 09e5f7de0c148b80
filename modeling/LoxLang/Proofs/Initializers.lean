import LoxLang.Proofs.Initializers.Run
import LoxLang.Proofs.Resolution

/-!
# What initializers yield

A method that sets up an instance yields that instance, however it is called and as often as it is called. It
may return early, and it may return the instance itself; what else it returns is an error, and nothing
else is this error. So calling a class gives a new instance of the class, whatever its initializer
does.

Main statement: `initializers_yield`.
-/

namespace LoxLang

open Store

/-! ### The ends of bodies -/

/-- A body ends by returning something that is neither nil nor a certain instance. -/
def Completion.Strays (i : Ref) (c : Completion) : Prop :=
  ∃ keyword v, c = .returned keyword v ∧ v ≠ .nil ∧ ∀ r, v = .instanceRef r → r.id ≠ i.id

/-- The body of a function by itself, before it is settled what the function yields. -/
def Run.body (o : Options) (n : Nat) (f : Closure) (args : List Value) : Run Completion := do
  let scope ← enter f args
  execAll o n scope f.declaration.body

section Ends

variable {o : Options} {n : Nat} {f : Closure} {args : List Value} {s t u : RunState} {i : Ref}
  {c : Completion}

theorem Run.runBody_eq (o : Options) (n : Nat) (f : Closure) (args : List Value) :
    Run.runBody o (n + 1) f args = Run.body o n f args >>= Run.leave f := by
  simp [Run.runBody, Run.body]

/-- No other error goes by these words. -/
theorem Fault.message_iff {fault : Fault} :
    fault.message = "Can't return a value from an initializer." ↔ fault = .initializerReturn := by
  constructor
  · intro h
    have hopening := fault.opening_isPrefix
    rw [h] at hopening
    cases fault with
    | initializerReturn => rfl
    | _ => exact absurd hopening (by simp only [Fault.opening]; decide)
  · rintro rfl
    rfl

theorem equals_instanceRef (v : Value) (i : Ref) :
    v.equals (.instanceRef i) = true ↔ ∃ r, v = .instanceRef r ∧ r.id = i.id := by
  cases v with
  | instanceRef r => simp [Value.equals]
  | _ => simp [Value.equals]

theorem isNil_iff (v : Value) : v.isNil = true ↔ v = .nil := by
  cases v <;> simp [Value.isNil]

/-- A body that ends by returning something strays, or the value may be returned. -/
theorem strays_returned (keyword : Token) (v : Value) :
    (Completion.returned keyword v).Strays i ↔ (v.isNil || v.equals (.instanceRef i)) = false := by
  rw [Bool.or_eq_false_iff, ← Bool.not_eq_true, ← Bool.not_eq_true, isNil_iff, equals_instanceRef]
  constructor
  · rintro ⟨_, _, heq, hnil, hother⟩
    cases heq
    exact ⟨hnil, fun ⟨r, hr, hid⟩ => hother r hr hid⟩
  · rintro ⟨hnil, hother⟩
    exact ⟨keyword, v, rfl, hnil, fun r hr hid => hother ⟨r, hr, hid⟩⟩

/-- An initializer yields the instance, or it complains about what its body returned. -/
theorem Run.leave_initializer {outer : ScopeId} (hf : f.isInitializer = true)
    (hscope : s.store.scopes[f.scope]? = some (.ofReceiver outer i)) (c : Completion) :
    (¬ c.Strays i ∧ Run.leave f c s = .done (.instanceRef i) s) ∨
      c.Strays i ∧ ∃ keyword,
        Run.leave f c s = .failed { token := keyword, fault := .initializerReturn } s := by
  have hlookup : Run.lookup f.scope Token.receiver s = .done (.instanceRef i) s := by
    rw [Run.lookup, lookup?_receiver hscope .here]
  rw [Run.leave, if_pos hf, Run.run_bind, hlookup]
  dsimp only
  cases c with
  | normal =>
    refine .inl ⟨?_, rfl⟩
    rintro ⟨_, _, heq, -⟩
    cases heq
  | returned keyword v =>
    rw [strays_returned]
    dsimp only
    cases v.isNil || v.equals (.instanceRef i) with
    | true => exact .inl ⟨Bool.false_ne_true.symm, rfl⟩
    | false => exact .inr ⟨rfl, keyword, rfl⟩

/-- What is not an initializer does not complain. -/
theorem Run.isInitializer_of_leave {e : RuntimeError} (h : Run.leave f c s = .failed e t) :
    f.isInitializer = true := by
  rw [Run.leave] at h
  split at h
  · next hf => exact hf
  · cases h

theorem Run.body_eq (o : Options) (n : Nat) (f : Closure) (args : List Value) (s : RunState) :
    ∃ scope t, Run.enter f args s = .done scope t ∧
      Run.body o n f args s = Run.execAll o n scope f.declaration.body t :=
  ⟨_, _, rfl, rfl⟩

/-- Once the body has ended, it remains to settle what the function yields. -/
theorem leads_of_body (h : Run.body o n f args s = .done c t) :
    ((Activity.runBody (n + 1) f args).plan o).Leads o s (.move (Run.leave f c) .done) t := by
  obtain ⟨scope, u, henter, hbody⟩ := Run.body_eq o n f args s
  rw [hbody] at h
  exact .move henter (.begin h .here)

/-- What remains of the running of a body when it fails in something that it does itself. -/
theorem body_of_leads {β : Type} {m : Run β} {next : β → Plan Value} {e : RuntimeError}
    (hl : ((Activity.runBody (n + 1) f args).plan o).Leads o s (.move m next) t) (hm : m t = .failed e u) :
    ∃ c, Run.body o n f args s = .done c t ∧ Run.leave f c t = .failed e u := by
  obtain ⟨scope, v, henter, hbody⟩ := Run.body_eq o n f args s
  rw [Activity.plan, Plan.leads_move] at hl
  rcases hl with ⟨heq, rfl⟩ | ⟨scope', v', hm', hl⟩
  · cases heq
    cases hm
  · cases henter.symm.trans hm'
    rw [Plan.leads_begin] at hl
    rcases hl with ⟨heq, -⟩ | ⟨c, w, hrun, hl⟩
    · cases heq
    · rw [Plan.leads_move] at hl
      rcases hl with ⟨heq, rfl⟩ | ⟨r, x, -, hl⟩
      · cases heq
        exact ⟨c, hbody.trans hrun, hm⟩
      · cases hl

end Ends

/-! ### Calls -/

/-- A plan that has a result comes to it. -/
theorem Plan.leads_of_done {o : Options} {p : Plan α} {r : α} {s t : RunState} (h : p.run o s = .done r t) :
    p.Leads o s (.done r) t := by
  induction p generalizing s with
  | done r' =>
    cases h
    exact .here
  | move m next ih =>
    rw [run, Run.run_bind] at h
    cases hm : m s with
    | done b u =>
      rw [hm] at h
      exact .move hm (ih b h)
    | failed e u => simp [hm] at h
    | exhausted => simp [hm] at h
  | begin call a next ih =>
    rw [run, Run.run_bind] at h
    cases ha : a.runAs o call s with
    | done b u =>
      rw [ha] at h
      exact .begin ha (ih b h)
    | failed e u => simp [ha] at h
    | exhausted => simp [ha] at h

theorem Activity.leads_of_done {o : Options} {a : Activity} {r : a.Result} {s t : RunState}
    (h : a.run o s = .done r t) : (a.plan o).Leads o s (.done r) t :=
  Plan.leads_of_done (by rw [← Activity.run_eq_plan]; exact h)

section Calls

variable {o : Options} {n : Nat} {args : List Value} {paren : Token} {callee v : Value} {s t : RunState}
  {ref : Ref}

/-- A call that succeeds applies what is called, and yields what that yields. -/
theorem apply_of_call (h : Run.call o n callee paren args s = .done v t) :
    ∃ m frame u,
      (Activity.call n callee paren args).Begins o s (.apply m callee args) (s.entering (some frame)) ∧
      Run.apply o m callee args (s.entering (some frame)) = .done v u ∧ t = u.leaving (some frame) := by
  have hl := Activity.leads_of_done (a := .call n callee paren args) h
  cases n with
  | zero =>
    rw [Activity.plan, Plan.leads_move] at hl
    rcases hl with ⟨heq, -⟩ | ⟨_, _, hm, -⟩
    · cases heq
    · cases hm
  | succ n =>
    rw [Activity.plan, Plan.leads_move] at hl
    rcases hl with ⟨heq, -⟩ | ⟨arity, u, hread, hl⟩
    · cases heq
    cases hread
    cases harity : s.store.arity? callee with
    | none =>
      simp only [harity] at hl
      rcases Plan.leads_move.1 hl with ⟨heq, -⟩ | ⟨_, _, hm, -⟩
      · cases heq
      · cases hm
    | some arity =>
      simp only [harity] at hl
      split at hl
      · next hlength =>
        rcases Plan.leads_move.1 hl with ⟨heq, -⟩ | ⟨_, u, hguard, hl⟩
        · cases heq
        have hu : u = s := by
          rw [Run.guardDepth] at hguard
          split at hguard
          · cases hguard
            rfl
          · cases hguard
        rw [hu] at hguard hl
        rcases Plan.leads_begin.1 hl with ⟨heq, -⟩ | ⟨w, x, hrun, hl⟩
        · cases heq
        obtain ⟨y, hy, rfl⟩ := Activity.runAs_done hrun
        obtain ⟨hdone, rfl⟩ := Plan.leads_done.1 hl
        cases hdone
        refine ⟨n, { name := callee.display, line := paren.line }, y, ?_, hy, rfl⟩
        refine ⟨_, .done, s, .move rfl ?_, rfl⟩
        simp only [harity, if_pos hlength]
        exact .move hguard .here
      · rcases Plan.leads_move.1 hl with ⟨heq, -⟩ | ⟨_, _, hm, -⟩
        · cases heq
        · cases hm

/-- Applying a function runs its body. -/
theorem body_of_apply {f : Closure} (hf : s.store.functions[ref.id]? = some f)
    (h : Run.apply o n (.functionRef ref) args s = .done v t) :
    ∃ m, (Activity.apply n (.functionRef ref) args).Begins o s (.runBody m f args) s ∧
      Run.runBody o m f args s = .done v t := by
  cases n with
  | zero =>
    rw [Run.apply] at h
    cases h
  | succ n =>
    rw [Run.apply, Run.run_bind, Run.read, hf] at h
    refine ⟨n, ⟨none, .done, s, .move rfl ?_, rfl⟩, h⟩
    simp only [hf]
    exact .here

/-- Applying a class makes an instance, which is what it yields. If the class has an initializer, its body
runs for that instance first. -/
theorem instance_of_apply (h : Run.apply o n (.classRef ref) args s = .done v t) :
    let σ := (s.store.newInstance ref).2
    let i := (s.store.newInstance ref).1
    v = .instanceRef i ∧ (t = { s with store := σ } ∨ ∃ m k w, σ.method? ref.id initializerName = some m ∧
      (Activity.apply n (.classRef ref) args).Begins o s (.runBody k (σ.bind m i).1 args)
        { s with store := (σ.bind m i).2 } ∧
      Run.runBody o k (σ.bind m i).1 args { s with store := (σ.bind m i).2 } = .done w t) := by
  intro σ i
  cases n with
  | zero =>
    rw [Run.apply] at h
    cases h
  | succ n =>
    rw [Run.apply, Run.run_bind, Run.make] at h
    dsimp only at h
    rw [Run.run_bind, Run.read] at h
    dsimp only at h
    cases hm : σ.method? ref.id initializerName with
    | none =>
      rw [hm] at h
      cases h
      exact ⟨rfl, .inl rfl⟩
    | some m =>
      rw [hm] at h
      dsimp only at h
      rw [Run.run_bind, Run.make] at h
      dsimp only at h
      rw [Run.run_bind] at h
      cases hrun : Run.runBody o n (σ.bind m i).1 args { s with store := (σ.bind m i).2 } with
      | done w u =>
        rw [hrun] at h
        cases h
        refine ⟨rfl, .inr ⟨m, n, w, rfl, ⟨none, fun _ => .done (.instanceRef i), _, ?_, rfl⟩, hrun⟩⟩
        refine .move (b := i) (t := { s with store := σ }) rfl ?_
        refine .move (b := some m) (t := { s with store := σ }) (by rw [Run.read, hm]) ?_
        exact .move rfl .here
      | failed e u =>
        rw [hrun] at h
        cases h
      | exhausted =>
        rw [hrun] at h
        cases h

end Calls

/-! ### Initializers in a run -/

/-- What the running of a body, with its arguments in a state, comes to for the instance that it sets up. -/
structure Run.SetsUp (o : Options) (n : Nat) (f : Closure) (args : List Value) (s : RunState) (i : Ref) :
    Prop where
  /-- the instance is all that it yields -/
  only : ∀ v t, Run.runBody o (n + 1) f args s = .done v t → v = .instanceRef i
  /-- it complains exactly if the body strays -/
  complains_iff : ∀ c t, Run.body o n f args s = .done c t →
    (c.Strays i ↔ ∃ e, Run.runBody o (n + 1) f args s = .failed e t ∧
      e.fault.message = "Can't return a value from an initializer.")
  yields : ∀ c t, Run.body o n f args s = .done c t → ¬ c.Strays i →
    Run.runBody o (n + 1) f args s = .done (.instanceRef i) t
  /-- an error of the body itself is passed on -/
  fails : ∀ e t, Run.body o n f args s = .failed e t → Run.runBody o (n + 1) f args s = .failed e t

section Runs

variable {o : Options} {n : Nat} {f : Closure} {args : List Value} {s t : RunState} {i : Ref}
  {c : Completion} {v : Value}

/-- Once the body of an initializer has ended, it yields its instance or complains about what was returned. -/
theorem runBody_of_body (hs : initialization.keeps s s)
    (hfits : initialization.fits s (.runBody (n + 1) f args)) (hi : s.store.Initializes f i)
    (h : Run.body o n f args s = .done c t) :
    (¬ c.Strays i ∧ Run.runBody o (n + 1) f args s = .done (.instanceRef i) t) ∨ c.Strays i ∧
      ∃ keyword, Run.runBody o (n + 1) f args s =
        .failed { token := keyword, fault := .initializerReturn } t := by
  have hkeeps := Discipline.leads_keeps (initialization_kept o) hs hfits (leads_of_body h)
  obtain ⟨k, m, -, -, hscope⟩ := hi.mono hkeeps.1.2.1
  rw [Run.runBody_eq, Run.run_bind, h]
  exact Run.leave_initializer (hi.marked hs.2.2) hscope c

/-- What the running of an initializer yields is its instance. -/
theorem runBody_yields (hs : initialization.keeps s s) (hfits : initialization.fits s (.runBody n f args))
    (hi : s.store.Initializes f i) (h : Run.runBody o n f args s = .done v t) : v = .instanceRef i := by
  cases n with
  | zero =>
    rw [Run.runBody] at h
    cases h
  | succ n =>
    have hbody := h
    rw [Run.runBody_eq, Run.run_bind] at hbody
    cases hc : Run.body o n f args s with
    | done c u =>
      rcases runBody_of_body hs hfits hi hc with ⟨-, hyields⟩ | ⟨-, keyword, hfails⟩
      · cases h.symm.trans hyields
        rfl
      · cases h.symm.trans hfails
    | failed e u => simp [hc] at hbody
    | exhausted => simp [hc] at hbody

/-- Whatever its body does, the running of an initializer sets up its instance. -/
theorem runBody_setsUp (hs : initialization.keeps s s)
    (hfits : initialization.fits s (.runBody (n + 1) f args)) (hi : s.store.Initializes f i) :
    Run.SetsUp o n f args s i := by
  refine ⟨fun v t h => runBody_yields hs hfits hi h, fun c t hbody => ?_, fun c t hbody hc => ?_,
    fun e t hbody => ?_⟩
  · rcases runBody_of_body hs hfits hi hbody with ⟨hnot, hyields⟩ | ⟨hstrays, keyword, hfails⟩
    · refine ⟨fun h => absurd h hnot, ?_⟩
      rintro ⟨e, he, -⟩
      cases hyields.symm.trans he
    · exact ⟨fun _ => ⟨_, hfails, rfl⟩, fun _ => hstrays⟩
  · rcases runBody_of_body hs hfits hi hbody with ⟨-, hyields⟩ | ⟨hstrays, -⟩
    · exact hyields
    · exact absurd hstrays hc
  · rw [Run.runBody_eq, Run.run_bind, hbody]

/-- An activity complains about what an initializer returns exactly if it comes to the running of an
initializer whose body strays. -/
theorem complains_iff {a : Activity} (hs : initialization.keeps s s) (hfits : initialization.fits s a) :
    (∃ e t, a.run o s = .failed e t ∧ e.fault.message = "Can't return a value from an initializer.") ↔
      ∃ n f args u i c t, a.Reaches o s (.runBody (n + 1) f args) u ∧ u.store.Initializes f i ∧
        Run.body o n f args u = .done c t ∧ c.Strays i := by
  constructor
  · rintro ⟨e, t, hfails, hmessage⟩
    obtain ⟨b, u, hreaches, β, m, next, w, x, e', hl, hm, -, hsame⟩ := Activity.exists_failed_move hfails
    have hfault : e'.fault = .initializerReturn := hsame.symm.trans (Fault.message_iff.1 hmessage)
    obtain ⟨hu, hb⟩ := Discipline.reaches_fits (initialization_kept o) hs hfits hreaches
    cases hbody : b.isBody with
    | false => exact absurd hfault (((b.plan_tame o hbody).of_leads hl).1.fault_ne hm)
    | true =>
      cases b with
      | runBody n f args =>
        cases n with
        | zero =>
          rw [Activity.plan, Plan.leads_move] at hl
          rcases hl with ⟨heq, -⟩ | ⟨_, _, hdone, -⟩
          · cases heq
            cases hm
          · cases hdone
        | succ n =>
          obtain ⟨c, hc, hleave⟩ := body_of_leads hl hm
          obtain ⟨i, hi⟩ := hb.2 _ f args rfl (Run.isInitializer_of_leave hleave)
          refine ⟨n, f, args, u, i, c, w, hreaches, hi, hc, ?_⟩
          rcases runBody_of_body (initialization.keeps_self hu) hb hi hc with ⟨-, hyields⟩ | ⟨hstrays, -⟩
          · rw [Run.runBody_eq, Run.run_bind, hc] at hyields
            cases hleave.symm.trans hyields
          · exact hstrays
      | _ => cases hbody
  · rintro ⟨n, f, args, u, i, c, t, hreaches, hi, hc, hstrays⟩
    obtain ⟨hu, hb⟩ := Discipline.reaches_fits (initialization_kept o) hs hfits hreaches
    rcases runBody_of_body (initialization.keeps_self hu) hb hi hc with ⟨hnot, -⟩ | ⟨-, keyword, hfails⟩
    · exact absurd hstrays hnot
    · obtain ⟨e, x, he, -, hfault⟩ := Activity.fails_of_reaches hreaches (b := .runBody (n + 1) f args) hfails
      exact ⟨e, x, he, Fault.message_iff.2 hfault⟩

end Runs

/-! ### Sessions -/

/-- Throughout a session the discipline is kept. -/
theorem Session.orders_initialization (options : Option Options) (sources : List (Nat × List Char)) :
    initialization.Orders (start options freshStore).state ((start options freshStore).history sources)
      (fun _ => False) := by
  have hinitialized : freshStore.Initialized := by
    constructor
    · intro k name m h
      simp [freshStore, newScope, ownMethod?] at h
    · intro j f h
      simp [freshStore, newScope] at h
  refine orders_history (initialization_kept _) ⟨sound_start options, .refl _, hinitialized⟩ ?_ ?_ sources
  · intro t output ht
    exact ⟨resolution_output output ht.1, .refl _, ht.2.2⟩
  · intro t source program fuel ht hc
    exact ⟨resolution_fits fuel ht.1 hc, by simp⟩

/-- In what happened under some options, initializers yield the instances that they are bound to. -/
structure InitializersYield (o : Options) (l : List Moment) : Prop where
  /-- what an instance is bound to by the name of initializers stays an initializer of that instance -/
  bound : ∀ s t k m i f, .did s t ∈ l → s.store.method? k initializerName = some m →
    s.store.Binds m i f t.store → Lasts l (.did s t) fun σ => σ.Initializes f i
  /-- nothing else is run as an initializer -/
  marked : ∀ n f args s, .began (.runBody n f args) s ∈ l → f.isInitializer = true →
    ∃ i, s.store.Initializes f i
  setsUp : ∀ n f args s i, .began (.runBody (n + 1) f args) s ∈ l → s.store.Initializes f i →
    Run.SetsUp o n f args s i
  /-- an activity ends with the complaint exactly if it comes to an initializer whose body strays -/
  complains_iff : ∀ a s, .began a s ∈ l →
    ((∃ e t, a.run o s = .failed e t ∧ e.fault.message = "Can't return a value from an initializer.") ↔
      ∃ n f args u i c t, a.Reaches o s (.runBody (n + 1) f args) u ∧ u.store.Initializes f i ∧
        Run.body o n f args u = .done c t ∧ c.Strays i)
  /-- a call of an initializer, wherever it was kept, yields the instance -/
  called : ∀ n ref f paren args s i v t, .began (.call n (.functionRef ref) paren args) s ∈ l →
    s.store.functions[ref.id]? = some f → s.store.Initializes f i →
    Run.call o n (.functionRef ref) paren args s = .done v t → v = .instanceRef i
  /-- a call of a class yields an instance of that class that was not there before -/
  fresh : ∀ n ref paren args s v t, .began (.call n (.classRef ref) paren args) s ∈ l →
    Run.call o n (.classRef ref) paren args s = .done v t →
    ∃ i, v = .instanceRef i ∧ s.store.instances[i.id]? = none ∧
      ∃ I, t.store.instances[i.id]? = some I ∧ I.classId = ref.id

/-- In every session, whatever sources it runs, initializers yield the instances that they are bound to:
from a class that is called, by their name, by `super` or out of a variable or field. They complain exactly
about what is neither nil nor the instance, and nothing else complains of that. A call of a class that
succeeds yields a new instance of it. -/
theorem initializers_yield (options : Option Options) (sources : List (Nat × List Char)) :
    let session := Session.start options Session.freshStore
    InitializersYield session.options (session.history sources) := by
  intro session
  have hl := Session.orders_initialization options sources
  have hkeeps {a s} (h : .began a s ∈ session.history sources) : initialization.keeps s s :=
    initialization.keeps_self (hl.before _ h)
  constructor
  case bound =>
    intro s t k m i f hdid hm hbinds
    obtain ⟨j, K, hK, hget⟩ := exists_class_of_method? hm
    refine lasts_of_fixes (Session.orders_resolution options sources) ?_ fun hf h => h.mono hf
    have hown := ownMethod?_eq_some.2 ⟨K, (hl.across _ hdid).1.2.1.classes hK, hget⟩
    exact ⟨j, m, hown, by rw [hbinds.1]; rfl, hbinds.getElem?.2⟩
  case marked =>
    intro n f args s hbegan hf
    exact (hl.fits hbegan).2 n f args rfl hf
  case setsUp =>
    intro n f args s i hbegan hi
    exact runBody_setsUp (hkeeps hbegan) (hl.fits hbegan) hi
  case complains_iff =>
    intro a s hbegan
    exact complains_iff (hkeeps hbegan) (hl.fits hbegan)
  case called =>
    intro n ref f paren args s i v t hbegan hf hi h
    obtain ⟨m, frame, u, hbegins, happly, -⟩ := apply_of_call h
    have happlied := Session.began_of_begins hbegan hbegins
    obtain ⟨k, hbody, hrun⟩ := body_of_apply (s := s.entering (some frame)) hf happly
    have hrunning := Session.began_of_begins happlied hbody
    exact runBody_yields (hkeeps hrunning) (hl.fits hrunning) hi hrun
  case fresh =>
    intro n ref paren args s v t hbegan h
    obtain ⟨m, frame, u, hbegins, happly, rfl⟩ := apply_of_call h
    have happlied := Session.began_of_begins hbegan hbegins
    obtain ⟨rfl, hu⟩ := instance_of_apply happly
    refine ⟨_, rfl, by simp [newInstance, RunState.entering], ?_⟩
    rcases hu with rfl | ⟨m, k, w, -, hbody, hrun⟩
    · exact ⟨{ classId := ref.id }, by simp [newInstance, RunState.entering, RunState.leaving], rfl⟩
    · have hrunning := Session.began_of_begins happlied hbody
      have hkept := Discipline.run_keeps (initialization_kept session.options) _ _ (hkeeps hrunning)
        (hl.fits hrunning)
      obtain ⟨⟨-, hretains, -⟩, -⟩ := hkept.done hrun
      exact hretains s.store.instances.size { classId := ref.id }
        (by simp [newInstance, RunState.entering, Store.bind, newScope, define])

/-- Whether a computation has ended with a result. -/
def Outcome.isDone : Outcome α → Bool
  | .done _ _ => true
  | .failed _ _ => false
  | .exhausted => false

/-- A call of a class with an initializer that succeeds. -/
def callsClass (o : Options) : Activity → RunState → Bool
  | .call n (.classRef ref) paren args, s =>
    (Run.call o n (.classRef ref) paren args s).isDone &&
      ((s.store.newInstance ref).2.method? ref.id initializerName).isSome
  | _, _ => false

/-- A call of a function that is an initializer, and that succeeds. -/
def callsInitializer (o : Options) : Activity → RunState → Bool
  | .call n (.functionRef ref) paren args, s =>
    (Run.call o n (.functionRef ref) paren args s).isDone &&
      (s.store.functions[ref.id]?).any (·.isInitializer)
  | _, _ => false

/-- A program that fails for what an initializer returns. -/
def complains (o : Options) : Activity → RunState → Bool
  | .program n scope ss, s =>
    match Run.program o n scope ss s with
    | .failed e _ => e.fault == .initializerReturn
    | _ => false
  | _, _ => false

/-- An initializer that a class inherits is kept in a variable, and called again when the class has lost
its name. The initializer of another class returns a number. -/
def keptInitializer : List (Nat × List Char) :=
  [(20, ("class A \x7b init(more) \x7b this.init = 0; if (more) return this; \x7d \x7d " ++
      "class B < A \x7b\x7d var kept = B(true); kept = B(false); " ++
      "class C \x7b init() \x7b\x7d \x7d kept = C().init; var C; kept();").toList),
    (20, "class D \x7b init() \x7b return 1; \x7d \x7d D();".toList)]

theorem Outcome.exists_of_isDone {outcome : Outcome α} (h : outcome.isDone = true) :
    ∃ r t, outcome = .done r t := by
  cases outcome with
  | done r t => exact ⟨r, t, rfl⟩
  | failed e t => cases h
  | exhausted => cases h

section Tests

variable {o : Options} {a : Activity} {s : RunState}

theorem exists_of_callsClass (h : callsClass o a s = true) :
    ∃ n ref paren args v t m, a = .call n (.classRef ref) paren args ∧
      Run.call o n (.classRef ref) paren args s = .done v t ∧
      (s.store.newInstance ref).2.method? ref.id initializerName = some m := by
  unfold callsClass at h
  split at h
  · next n ref paren args =>
    rw [Bool.and_eq_true] at h
    obtain ⟨v, t, hcall⟩ := Outcome.exists_of_isDone h.1
    obtain ⟨m, hm⟩ := Option.isSome_iff_exists.1 h.2
    exact ⟨n, ref, paren, args, v, t, m, rfl, hcall, hm⟩
  · cases h

theorem exists_of_callsInitializer (h : callsInitializer o a s = true) :
    ∃ n ref paren args v t f, a = .call n (.functionRef ref) paren args ∧
      Run.call o n (.functionRef ref) paren args s = .done v t ∧
      s.store.functions[ref.id]? = some f ∧ f.isInitializer = true := by
  unfold callsInitializer at h
  split at h
  · next n ref paren args =>
    rw [Bool.and_eq_true] at h
    obtain ⟨v, t, hcall⟩ := Outcome.exists_of_isDone h.1
    obtain ⟨f, hf, hmark⟩ := Option.any_eq_true _ _ |>.1 h.2
    exact ⟨n, ref, paren, args, v, t, f, rfl, hcall, hf, hmark⟩
  · cases h

theorem exists_of_complains (h : complains o a s = true) :
    ∃ n scope ss e t, a = .program n scope ss ∧ Run.program o n scope ss s = .failed e t ∧
      e.fault.message = "Can't return a value from an initializer." := by
  unfold complains at h
  split at h
  · next n scope ss =>
    split at h
    · next e t hprogram => exact ⟨n, scope, ss, e, t, rfl, hprogram, Fault.message_iff.2 (eq_of_beq h)⟩
    · cases h
  · cases h

end Tests

/-- In `keptInitializer` the calls of classes yield new instances, the calls of what is kept yield the
instance that it is bound to, and the last program ends with the complaint. -/
theorem keptInitializer_yields :
    let session := Session.start none Session.freshStore
    let o := session.options
    let l := session.history keptInitializer
    (∃ s t k m i f, .did s t ∈ l ∧ s.store.method? k initializerName = some m ∧
      s.store.Binds m i f t.store ∧ t.store.Initializes f i) ∧
    (∃ n ref f paren args s i t, .began (.call n (.functionRef ref) paren args) s ∈ l ∧
      s.store.functions[ref.id]? = some f ∧ s.store.Initializes f i ∧
      Run.call o n (.functionRef ref) paren args s = .done (.instanceRef i) t ∧
      ∃ k u w, .began (.runBody (k + 1) f args) u ∈ l ∧
        Run.runBody o (k + 1) f args u = .done (.instanceRef i) w ∧
        ∀ c x, Run.body o k f args u = .done c x → ¬ c.Strays i) ∧
    (∃ n ref paren args s i t, .began (.call n (.classRef ref) paren args) s ∈ l ∧
      Run.call o n (.classRef ref) paren args s = .done (.instanceRef i) t ∧
      s.store.instances[i.id]? = none) ∧
    ∃ n scope ss s e t u k f args c i v, .began (.program n scope ss) s ∈ l ∧
      Run.program o n scope ss s = .failed e t ∧
      e.fault.message = "Can't return a value from an initializer." ∧
      (Activity.program n scope ss).Reaches o s (.runBody (k + 1) f args) u ∧
      Run.body o k f args u = .done c v ∧ c.Strays i := by
  intro session o l
  have hyield := initializers_yield none keptInitializer
  have hcheck : someBegins l (callsClass o) = true ∧ someBegins l (callsInitializer o) = true ∧
      someBegins l (complains o) = true := by decide +kernel
  refine ⟨?_, ?_, ?_, ?_⟩
  · obtain ⟨a, s, hbegan, htest⟩ := exists_of_someBegins hcheck.1
    obtain ⟨n, ref, paren, args, v, t, m, rfl, h, hm⟩ := exists_of_callsClass htest
    obtain ⟨k, frame, u, hbegins, happly, -⟩ := apply_of_call h
    cases k with
    | zero =>
      rw [Run.apply] at happly
      cases happly
    | succ k =>
      have hdid := (Session.initializer_bound (Session.began_of_begins hbegan hbegins) hm).left
      have hbinds := binds_bind ((s.entering (some frame)).store.newInstance ref).2 m
        ((s.entering (some frame)).store.newInstance ref).1
      exact ⟨_, _, ref.id, m, _, _, hdid, hm, hbinds, (hyield.bound _ _ ref.id m _ _ hdid hm hbinds).1⟩
  · obtain ⟨a, s, hbegan, htest⟩ := exists_of_someBegins hcheck.2.1
    obtain ⟨n, ref, paren, args, v, t, f, rfl, h, hf, hmark⟩ := exists_of_callsInitializer htest
    obtain ⟨m, frame, u, hbegins, happly, -⟩ := apply_of_call h
    obtain ⟨k, hbody, hrun⟩ := body_of_apply (s := s.entering (some frame)) hf happly
    have hrunning := Session.began_of_begins (Session.began_of_begins hbegan hbegins) hbody
    cases k with
    | zero =>
      rw [Run.runBody] at hrun
      cases hrun
    | succ k =>
      obtain ⟨i, hi⟩ := hyield.marked _ f args _ hrunning hmark
      obtain rfl := hyield.called n ref f paren args s i v t hbegan hf hi h
      refine ⟨n, ref, f, paren, args, s, i, t, hbegan, hf, hi, h, k, _, u, hrunning, hrun, ?_⟩
      intro c x hc hstrays
      obtain ⟨e, he, -⟩ := ((hyield.setsUp k f args _ i hrunning hi).complains_iff c x hc).1 hstrays
      cases hrun.symm.trans he
  · obtain ⟨a, s, hbegan, htest⟩ := exists_of_someBegins hcheck.1
    obtain ⟨n, ref, paren, args, v, t, m, rfl, h, -⟩ := exists_of_callsClass htest
    obtain ⟨i, rfl, hnone, -⟩ := hyield.fresh n ref paren args s v t hbegan h
    exact ⟨n, ref, paren, args, s, i, t, hbegan, h, hnone⟩
  · obtain ⟨a, s, hbegan, htest⟩ := exists_of_someBegins hcheck.2.2
    obtain ⟨n, scope, ss, e, t, rfl, h, hmessage⟩ := exists_of_complains htest
    obtain ⟨k, f, args, u, i, c, v, hreaches, -, hbody, hstrays⟩ :=
      (hyield.complains_iff (.program n scope ss) s hbegan).1 ⟨e, t, h, hmessage⟩
    exact ⟨n, scope, ss, s, e, t, u, k, f, args, c, i, v, hbegan, h, hmessage, hreaches, hbody, hstrays⟩

end LoxLang
