import LoxLang.Proofs.Placement
import LoxLang.Proofs.Resolution.Run
import LoxLang.Proofs.Run.History

/-!
# Which superclass and which receiver

Methods are looked for by name at run time, and so are the two words `super` and `this`. All the same, which
superclass an evaluation of `super` asks for its method is settled by the class around it alone, and
which receiver the method is bound to by the instance that the method around it is bound to.

Main statement: `super_resolution`.
-/

namespace LoxLang

open Store

/-! ### Bodies of closures -/

/-- A step from a store to another binds a method to a receiver as a closure, which may have become a
function of the store by that. -/
def Store.Binds (σ : Store) (m : Closure) (receiver : Ref) (f : Closure) (τ : Store) : Prop :=
  f = (σ.bind m receiver).1 ∧
    (τ = (σ.bind m receiver).2 ∨ τ = ((σ.bind m receiver).2.newFunction f).2)

theorem Store.binds_bind (σ : Store) (m : Closure) (receiver : Ref) :
    σ.Binds m receiver (σ.bind m receiver).1 (σ.bind m receiver).2 := ⟨rfl, .inl rfl⟩

namespace Activity

def isCall : Activity → Bool
  | .call _ _ _ _ => true
  | _ => false

/-- What happens in an activity without the calls in it. -/
def own (o : Options) (a : Activity) (s : RunState) : List Moment :=
  a.course o (fun b => !b.isCall) (a.size + 1) s

/-- The scope that an activity takes place in, or, for the body of a function, the one around it. -/
def scope? : Activity → Option ScopeId
  | .exec _ scope _ | .execAll _ scope _ | .execLoop _ scope _ _ => some scope
  | .eval _ scope _ | .evalOption _ scope _ | .evalAll _ scope _ => some scope
  | .program _ scope _ => some scope
  | .runBody _ f _ => some f.scope
  | .call _ _ _ _ | .apply _ _ _ => none

/-- What an activity begins may be in another scope. -/
def opens : Activity → Bool
  | .exec _ _ (.block _) | .call _ _ _ _ | .apply _ _ _ | .runBody _ _ _ => true
  | _ => false

theorem plan_scope (o : Options) (a : Activity) : (a.plan o).All (fun _ => True)
    (fun _ b => a.opens = true ∨ b.isCall = true ∨ b.scope? = a.scope?) := by
  unfold plan
  split <;> simp only [Plan.All, opens, isCall, scope?, or_true, true_or, implies_true, and_self, true_and]
  -- what is left branches on a result
  case h_22 =>
    intro c
    split
    · exact ⟨by simp, fun c => by cases c <;> simp [Plan.All]⟩
    · trivial
  all_goals
    intros
    repeat' split
    all_goals simp [Plan.All]

/-- An activity takes place in a scope below another. -/
def Below (σ : Store) (base : ScopeId) (a : Activity) : Prop := ∃ i, a.scope? = some i ∧ σ.Under base i

theorem outer?_params (bound : List (Token × Value)) (σ : Store) (i j : ScopeId) :
    (bound.foldl (fun σ (p, v) => σ.define i p.lexeme v) σ).outer? j = σ.outer? j := by
  induction bound generalizing σ with
  | nil => rfl
  | cons b bound ih => rw [List.foldl_cons, ih, outer?_define]

variable {o : Options} {a b : Activity} {s t u : RunState} {base : ScopeId}

/-- What an activity begins, a call apart, takes place below a scope if the activity does. -/
theorem below_of_begins (hs : resolution.keeps s s) (hfits : resolution.fits s a)
    (hbase : base < s.store.scopes.size) (h : a.Below s.store base) (hb : a.Begins o s b t)
    (hcall : b.isCall = false) : b.Below t.store base := by
  obtain ⟨hkeeps, hplain⟩ := Discipline.reaches_fits (resolution_kept o) hs hfits (.later hb .here)
  obtain ⟨i, hi, hunder⟩ := h
  have hlt := hunder.lt hbase
  have hlater := hunder.mono hkeeps.2.1
  obtain ⟨call, next, v, hl, rfl⟩ := hb
  rcases ((plan_scope o a).of_leads hl).1 with hopens | hb | hsame
  · cases a with
    | exec n scope st =>
      cases st with
      | block body =>
        cases n with
        | zero => simp [plan, Plan.leads_move, Run.exhausted] at hl
        | succ n =>
          cases hi
          rw [plan, Plan.leads_move] at hl
          rcases hl with ⟨h, -⟩ | ⟨inner, w, hm, hl⟩
          · cases h
          cases hm
          rw [Plan.leads_begin] at hl
          rcases hl with ⟨h, rfl⟩ | ⟨r, w, -, hl⟩
          · cases h
            exact ⟨_, rfl, .inner (outer?_newScope _ hlt) hplain.2 hlater⟩
          · simp [Plan.leads_done] at hl
      | _ => cases hopens
    | runBody n f args =>
      cases n with
      | zero => simp [plan, Plan.leads_move, Run.exhausted] at hl
      | succ n =>
        cases hi
        rw [plan, Plan.leads_move] at hl
        rcases hl with ⟨h, -⟩ | ⟨inner, w, hm, hl⟩
        · cases h
        cases hm
        rw [Plan.leads_begin] at hl
        rcases hl with ⟨h, rfl⟩ | ⟨r, w, -, hl⟩
        · cases h
          refine ⟨_, rfl, .inner ?_ hplain.2 hlater⟩
          exact (outer?_params _ _ _ _).trans (outer?_newScope _ hlt)
        · simp [Plan.leads_move, Plan.leads_done] at hl
    | call n callee paren args => cases hi
    | apply n callee args => cases hi
    | _ => cases hopens
  · cases hcall.symm.trans hb
  · exact ⟨i, hsame.trans hi, hlater⟩

end Activity

/-- An activity belongs to the body of a closure that was made at some moment: it is a part of a later run
of that body, calls apart, or of a still later run of a function that closes over a scope in which a
statement of that body was executed, and so on. -/
inductive Inside (o : Options) (l : List Moment) (made : Moment) (f : Closure) :
    Activity → RunState → Prop where
  | body {n : Nat} {args : List Value} {s : RunState}
      (h : Precedes l made (.began (.runBody n f args) s)) : Inside o l made f (.runBody n f args) s
  | part {a b : Activity} {s t : RunState} (h : Inside o l made f a s) (hb : .began b t ∈ a.own o s) :
      Inside o l made f b t
  | nested {n k : Nat} {st : Stmt} {g : Closure} {args : List Value} {s t : RunState}
      (h : Inside o l made f (.exec n g.scope st) s)
      (hrun : Precedes l (.began (.exec n g.scope st) s) (.began (.runBody k g args) t)) :
      Inside o l made f (.runBody k g args) t

/-- From some moment on the store has a property. -/
def Lasts (l : List Moment) (e : Moment) (P : Store → Prop) : Prop :=
  P e.after.store ∧ ∀ e', Precedes l e e' → P e'.before.store ∧ P e'.after.store

section Histories

variable {o : Options} {l : List Moment} {s₀ : RunState} {ends : RunState → Prop}

/-- What no operation changes lasts. -/
theorem lasts_of_fixes {e : Moment} {P : Store → Prop} (hl : resolution.Orders s₀ l ends)
    (hP : P e.after.store) (hmono : ∀ {σ τ}, Fixes σ τ → P σ → P τ) : Lasts l e P := by
  refine ⟨hP, fun e' he' => ?_⟩
  have hbefore := hmono (hl.keeps he').2.1 hP
  exact ⟨hbefore, hmono (hl.across e' he'.right).2.1 hbefore⟩

/-- Whatever belongs to the body of a closure takes place below the scope of the closure. -/
theorem below_of_inside {made : Moment} {f : Closure} {a : Activity} {s : RunState}
    (hl : resolution.Orders s₀ l ends) (hf : f.scope < made.after.store.scopes.size)
    (h : Inside o l made f a s) :
    resolution.keeps made.after s ∧ resolution.fits s a ∧ a.Below s.store f.scope := by
  induction h with
  | body h => exact ⟨hl.keeps h, hl.fits h.right, f.scope, rfl, .here⟩
  | @part a b s t _ hb ih =>
    refine Activity.course_induction (P := fun a s => resolution.keeps made.after s ∧
      resolution.fits s a ∧ a.Below s.store f.scope) ?_ ih hb
    rintro a s b t ⟨hkeeps, hfits, hbelow⟩ hbegins hfollow
    have hs := resolution.keeps_self hkeeps
    obtain ⟨ht, hb⟩ := Discipline.reaches_fits (resolution_kept o) hs hfits (.later hbegins .here)
    refine ⟨resolution.keeps_trans hkeeps ht, hb, ?_⟩
    exact Activity.below_of_begins hs hfits (hkeeps.2.1.lt hf) hbelow hbegins (by simpa using hfollow)
  | nested _ hrun ih =>
    obtain ⟨hkeeps, -, i, hi, hunder⟩ := ih
    cases hi
    have hlater := hl.keeps hrun
    exact ⟨resolution.keeps_trans hkeeps hlater, hl.fits hrun.right, _, rfl, hunder.mono hlater.2.1⟩

/-- What finds more classes than something else has left happens later. -/
theorem precedes_of_classes_lt {e e' : Moment} (hl : resolution.Orders s₀ l ends) (he : e ∈ l) (he' : e' ∈ l)
    (hlt : e.after.store.classes.size < e'.before.store.classes.size) : Precedes l e e' := by
  obtain ⟨before, after, rfl⟩ := List.append_of_mem he
  rcases List.mem_append.1 he' with h | h
  · -- the other one would have found no more
    have hprecedes : Precedes (before ++ e :: after) e' e :=
      (List.singleton_sublist.2 h).append (List.singleton_sublist.2 List.mem_cons_self)
    have hfirst := (hl.across e' he').2.1.size_classes_le
    have hsecond := (hl.keeps hprecedes).2.1.size_classes_le
    have hthird := (hl.across e he).2.1.size_classes_le
    omega
  · rcases List.mem_cons.1 h with rfl | h
    · have hsame := (hl.across e' he').2.1.size_classes_le
      omega
    · exact ((List.singleton_sublist.2 h).cons_cons e).trans (List.sublist_append_right _ _)

end Histories

/-! ### Sessions -/

/-- A class is derived from another one and declares a method. -/
def Store.DerivedMethod (σ : Store) (k p : Nat) (m : Closure) : Prop :=
  ∃ K name, σ.classes[k]? = some K ∧ K.superclass = some p ∧ K.methods.get? name = some m

theorem Store.derivedMethod_of_superclass? {σ : Store} {k p : Nat} {name : String} {m : Closure}
    (hp : σ.superclass? k = some p) (hm : σ.ownMethod? k name = some m) : σ.DerivedMethod k p m := by
  rw [superclass?] at hp
  split at hp
  · next K hK =>
    split at hp
    · cases hp
      rw [ownMethod?, hK] at hm
      exact ⟨_, name, hK, rfl, hm⟩
    · cases hp
  · cases hp

theorem Store.Anchored.derivedMethod {σ : Store} (h : σ.Anchored) {k p : Nat} {m : Closure}
    (hm : σ.DerivedMethod k p m) :
    ∃ outer r, r.id = p ∧ σ.scopes[m.scope]? = some (.ofSuperclass outer r) := by
  obtain ⟨K, name, hK, hp, hget⟩ := hm
  obtain ⟨outer, r, hr, hall⟩ := h.classes hK hp
  exact ⟨outer, r, hr, hall hget⟩

/-- A bound method closes over the scope that was made for its receiver. -/
theorem Store.Binds.getElem? {σ τ : Store} {m f : Closure} {i : Ref} (h : σ.Binds m i f τ) :
    f.scope = σ.scopes.size ∧ τ.scopes[f.scope]? = some (.ofReceiver m.scope i) := by
  obtain ⟨rfl, hτ⟩ := h
  have hscopes : τ.scopes = σ.scopes.push (.ofReceiver m.scope i) := by
    rcases hτ with rfl | rfl <;> exact scopes_bind σ m i
  refine ⟨rfl, ?_⟩
  rw [hscopes, Array.getElem?_push]
  exact if_pos rfl

theorem Session.sound_start (options : Option Options) :
    resolution.keeps (start options freshStore).state (start options freshStore).state := by
  refine ⟨⟨.refl _, sound_freshStore⟩, .refl _, ?_, ?_⟩
  · intro i sc hsc
    obtain rfl : sc = { parent := none } := by
      have hmem := Array.mem_of_getElem? hsc
      simpa [start, freshStore, newScope] using hmem
    exact .plain (Scope.plain_of_empty none)
  · intro k K p hK
    simp [start, freshStore, newScope] at hK

/-- What a session has printed makes no difference. -/
theorem Session.resolution_output {t : RunState} (output : String) (ht : resolution.keeps t t) :
    resolution.keeps t { t with output } :=
  ⟨⟨.refl _, ht.1.2⟩, .refl _, ht.2.2⟩

/-- Programs that compile may be run. -/
theorem Session.resolution_fits {options : Option Options} {t : RunState} {source : List Char}
    {program : List Stmt} (fuel : Nat) (ht : resolution.keeps (start options freshStore).state t)
    (hc : compile source = .ok program) : resolution.fits t (.program fuel globals program) := by
  have hglobals : (start options freshStore).state.store.Plain globals :=
    ⟨{ parent := none }, rfl, Scope.plain_of_empty none⟩
  exact ⟨fits_program hc t fuel globals, ht.2.1.plain hglobals⟩

/-- Throughout a session the discipline is kept. -/
theorem Session.orders_resolution (options : Option Options) (sources : List (Nat × List Char)) :
    resolution.Orders (start options freshStore).state ((start options freshStore).history sources)
      (fun _ => False) :=
  orders_history (resolution_kept _) (sound_start options) resolution_output
    (fun fuel ht hc => resolution_fits fuel ht hc) sources

/-- Where the two words are found, the evaluation of `super` asks that superclass and binds to that
receiver. -/
theorem Run.superMethod_of_lookup {scope : ScopeId} {keyword method : Token} {s : RunState} {c i : Ref}
    (hc : s.store.lookup? scope keyword.lexeme = some (.classRef c))
    (hi : s.store.lookup? scope Token.receiver.lexeme = some (.instanceRef i)) :
    Run.superMethod scope keyword method s =
      match s.store.method? c.id method.lexeme with
      | some inherited => Run.bindMethod inherited i s
      | none => Run.fail method (.undefinedProperty method.lexeme) s := by
  have hkeyword : Run.lookup scope keyword s = .done (.classRef c) s := by rw [Run.lookup, hc]
  have hreceiver : Run.lookup scope Token.receiver s = .done (.instanceRef i) s := by
    rw [Run.lookup, hi]
  rw [Run.superMethod, Run.run_bind, hkeyword]
  dsimp only
  rw [Run.run_bind, hreceiver]
  dsimp only
  rw [Run.run_bind, Run.read]
  dsimp only
  cases s.store.method? c.id method.lexeme <;> rfl

theorem Session.own_subset_history {session : Session} {sources : List (Nat × List Char)} {a b : Activity}
    {s t : RunState} (ha : .began a s ∈ session.history sources) (hb : .began b t ∈ a.own session.options s) :
    .began b t ∈ session.history sources :=
  Activity.course_induction (P := fun b t => .began b t ∈ session.history sources)
    (fun h hc _ => began_of_begins h hc) ha hb

/-- What happens as an instance is set up: the initializer is bound to it, and the body runs. -/
theorem Session.initializer_bound {session : Session} {sources : List (Nat × List Char)} {n : Nat} {ref : Ref}
    {args : List Value} {s : RunState} {m : Closure}
    (h : .began (.apply (n + 1) (.classRef ref) args) s ∈ session.history sources)
    (hm : (s.store.newInstance ref).2.method? ref.id initializerName = some m) :
    let σ := (s.store.newInstance ref).2
    let bound := σ.bind m (s.store.newInstance ref).1
    Precedes (session.history sources) (.did { s with store := σ } { s with store := bound.2 })
      (.began (.runBody n bound.1 args) { s with store := bound.2 }) := by
  intro σ bound
  obtain ⟨j, hj, hsub⟩ := course_sublist_history h
  have hj : n + 1 < j := hj
  obtain ⟨j, rfl⟩ := Nat.exists_eq_add_one_of_ne_zero (Nat.ne_zero_of_lt hj)
  obtain ⟨j, rfl⟩ := Nat.exists_eq_add_one_of_ne_zero (by omega : j ≠ 0)
  refine List.Sublist.trans ?_ hsub
  rw [Activity.course, Activity.plan]
  simp only [Plan.course, Run.make, Run.read, hm]
  refine (((List.Sublist.cons_cons _ ?_).cons _).cons _).cons _
  exact List.singleton_sublist.2 (List.mem_append_left _ List.mem_cons_self)

/-- In every session, whatever sources it runs: the methods of a derived class close over a scope that
from then on binds the superclass and nothing else; a bound method closes over a scope, within that of the
method, that from then on binds the receiver and nothing else; and what a class has as its methods never
changes. So wherever `super` is evaluated inside the body of a method of a derived class, in blocks and in
functions that are called however late, it is the superclass of that class that is asked for the method, and
the receiver of the method around that it is bound to, whatever class that is an instance of, and
whatever the names of the classes stand for by then. -/
theorem super_resolution (options : Option Options) (sources : List (Nat × List Char)) :
    let session := Session.start options Session.freshStore
    let l := session.history sources
    (∀ e ∈ l, ∀ k p m, e.after.store.DerivedMethod k p m → ∃ outer r, r.id = p ∧
      Lasts l e fun σ =>
        σ.DerivedMethod k p m ∧ σ.scopes[m.scope]? = some (.ofSuperclass outer r)) ∧
    (∀ s t m i f, .did s t ∈ l → s.store.Binds m i f t.store →
      Lasts l (.did s t) fun σ => σ.scopes[f.scope]? = some (.ofReceiver m.scope i)) ∧
    (∀ e ∈ l, ∀ c < e.after.store.classes.size, ∀ name,
      Lasts l e fun σ => σ.method? c name = e.after.store.method? c name) ∧
    ∀ s t m i f k p, .did s t ∈ l → s.store.Binds m i f t.store → s.store.DerivedMethod k p m →
      ∀ n scope keyword method u,
        Inside session.options l (.did s t) f (.eval (n + 1) scope (.super keyword method)) u →
        Run.eval session.options (n + 1) scope (.super keyword method) u =
          match u.store.method? p method.lexeme with
          | some inherited => Run.bindMethod inherited i u
          | none => Run.fail method (.undefinedProperty method.lexeme) u := by
  intro session l
  have hl := Session.orders_resolution options sources
  refine ⟨?_, ?_, ?_, ?_⟩
  · intro e he k p m hm
    obtain ⟨outer, r, hr, hscope⟩ := (hl.across e he).2.2.derivedMethod hm
    refine ⟨outer, r, hr, lasts_of_fixes hl ⟨hm, hscope⟩ fun hf hP => ⟨?_, ?_⟩⟩
    · obtain ⟨⟨K, name, hK, hrest⟩, -⟩ := hP
      exact ⟨K, name, hf.classes hK, hrest⟩
    · exact hf.fixed hP.2 (Scope.not_plain_ofSuperclass outer r)
  · intro s t m i f _ hbinds
    exact lasts_of_fixes hl hbinds.getElem?.2 fun hf hP =>
      hf.fixed hP (Scope.not_plain_ofReceiver m.scope i)
  · intro e _ c hc name
    have hlasts : Lasts l e fun σ => c < σ.classes.size ∧
        σ.method? c name = e.after.store.method? c name := by
      refine lasts_of_fixes hl ⟨hc, rfl⟩ fun hf hP => ⟨?_, (hf.method? hP.1 name).trans hP.2⟩
      exact (Array.getElem?_eq_some_iff.1 (hf.classes (Array.getElem?_eq_getElem hP.1))).1
    exact ⟨hlasts.1.2, fun e' he' => ⟨(hlasts.2 e' he').1.2, (hlasts.2 e' he').2.2⟩⟩
  · intro s t m i f k p hdid hbinds hm n scope keyword method u hinside
    obtain ⟨outer, r, rfl, hscope⟩ := (hl.before _ hdid).2.2.derivedMethod hm
    obtain ⟨hf, hreceiver⟩ := hbinds.getElem?
    have hlt : m.scope < f.scope := by
      rw [hf]
      exact (Array.getElem?_eq_some_iff.1 hscope).1
    obtain ⟨hkeeps, hfits, j, hj, hunder⟩ :=
      below_of_inside hl (Array.getElem?_eq_some_iff.1 hreceiver).1 hinside
    cases hj
    -- both scopes are still there
    have hreceiver := hkeeps.2.1.fixed hreceiver (Scope.not_plain_ofReceiver m.scope i)
    have hscope := hkeeps.2.1.fixed ((hl.across _ hdid).2.1.fixed hscope
      (Scope.not_plain_ofSuperclass outer r)) (Scope.not_plain_ofSuperclass outer r)
    obtain ⟨context, ⟨-, hproper⟩, -⟩ := hfits.1
    cases hproper with
    | super hkeyword _ =>
      have hc : u.store.lookup? scope keyword.lexeme = some (.classRef r) := by
        rw [hkeyword.super]
        exact lookup?_superclass hreceiver hlt hscope hunder
      rw [Run.eval]
      exact Run.superMethod_of_lookup hc (lookup?_receiver hreceiver hunder)

/-- Some activity that begins in a history passes a test. -/
def someBegins (l : List Moment) (test : Activity → RunState → Bool) : Bool :=
  l.any fun
    | .began a s => test a s
    | .did _ _ => false

theorem exists_of_someBegins {l : List Moment} {test : Activity → RunState → Bool}
    (h : someBegins l test = true) : ∃ a s, .began a s ∈ l ∧ test a s = true := by
  obtain ⟨e, he, htest⟩ := List.any_eq_true.1 h
  cases e with
  | began a s => exact ⟨a, s, he, htest⟩
  | did s t => cases htest

/-- The evaluation of a `super` for which the first class has a method, while the name `A` does not mean
that class. -/
def asksFirstClass : Activity → RunState → Bool
  | .eval (_ + 1) _ (.super _ method), u =>
    (u.store.method? 0 method.lexeme).isSome && !(u.store.lookup? Session.globals "A").any fun
      | .classRef r => r.id == 0
      | _ => false
  | _, _ => false

/-- The run of a function that closes over a scope and has such an evaluation in it, when there are more
classes than in a state. -/
def runsLater (o : Options) (scope : ScopeId) (s : RunState) : Activity → RunState → Bool
  | .runBody n g args, t =>
    g.scope == scope && decide (s.store.classes.size < t.store.classes.size) &&
      someBegins ((Activity.runBody n g args).own o t) asksFirstClass
  | _, _ => false

/-- An instance of the third class is set up by the initializer of the second one, and a function that
closes over a scope of its body runs later. -/
def setsUpThird (o : Options) (l : List Moment) : Activity → RunState → Bool
  | .apply (n + 1) (.classRef ref) args, s =>
    let σ := (s.store.newInstance ref).2
    ref.id == 2 && σ.superclass? 2 == some 1 && σ.superclass? 1 == some 0 &&
      (σ.ownMethod? 2 initializerName).isNone &&
      (σ.ownMethod? 1 initializerName).any fun m =>
        let bound := σ.bind m (s.store.newInstance ref).1
        someBegins ((Activity.runBody n bound.1 args).own o { s with store := bound.2 }) fun
          | .exec _ scope _, t => someBegins l (runsLater o scope t)
          | _, _ => false
  | _, _ => false

theorem inside_of_runsLater {o : Options} {l : List Moment} {made : Moment} {f : Closure} {n : Nat}
    {scope : ScopeId} {st : Stmt} {a : Activity} {s t s₀ : RunState} {ends : RunState → Prop}
    (hl : resolution.Orders s₀ l ends) (h : Inside o l made f (.exec n scope st) s)
    (hs : .began (.exec n scope st) s ∈ l) (ha : .began a t ∈ l) (htest : runsLater o scope s a t = true) :
    ∃ b u, Inside o l made f b u ∧ asksFirstClass b u = true := by
  unfold runsLater at htest
  split at htest
  · next k g args t =>
    simp only [Bool.and_eq_true, beq_iff_eq, decide_eq_true_eq] at htest
    obtain ⟨⟨rfl, hlt⟩, hasks⟩ := htest
    obtain ⟨b, u, hb, hb'⟩ := exists_of_someBegins hasks
    have hprecedes := precedes_of_classes_lt hl hs ha hlt
    exact ⟨b, u, .part (.nested h hprecedes) hb, hb'⟩
  · cases htest

/-- A class whose initializer makes a function that asks the superclass for a method, and an instance of
a class derived from it. Then the names of the classes come to mean something else, and the function
is called. -/
def lateSuper : List (Nat × List Char) :=
  [(30, ("class A \x7b m() \x7b\x7d \x7d class B < A \x7b init() \x7b fun late() \x7b " ++
      "\x7b return super.m; \x7d \x7d this.late = late; \x7d \x7d " ++
      "class C < B \x7b m() \x7b\x7d \x7d var c = C();").toList),
    (30, "class A \x7b m() \x7b\x7d \x7d var B; var C; c.late();".toList)]

/-- In `lateSuper` the function finds the method of the first class and binds it to the instance. -/
theorem lateSuper_resolution :
    let session := Session.start none Session.freshStore
    let l := session.history lateSuper
    ∃ s t m i f n scope keyword method u inherited,
      .did s t ∈ l ∧ s.store.Binds m i f t.store ∧ s.store.DerivedMethod 1 0 m ∧
        (t.store.instances[i.id]?).map (·.classId) = some 2 ∧
        Inside session.options l (.did s t) f (.eval (n + 1) scope (.super keyword method)) u ∧
        (∀ r, u.store.lookup? Session.globals "A" = some (.classRef r) → r.id ≠ 0) ∧
        u.store.method? 0 method.lexeme = some inherited ∧
        Run.eval session.options (n + 1) scope (.super keyword method) u =
          Run.bindMethod inherited i u := by
  intro session l
  have hl := Session.orders_resolution none lateSuper
  have hcheck : someBegins l (setsUpThird session.options l) = true := by decide +kernel
  obtain ⟨a, s, ha, htest⟩ := exists_of_someBegins hcheck
  unfold setsUpThird at htest
  split at htest
  · next n ref args =>
    simp only [Bool.and_eq_true, beq_iff_eq, Option.isNone_iff_eq_none] at htest
    obtain ⟨⟨⟨⟨href, hsecond⟩, hfirst⟩, hnone⟩, hany⟩ := htest
    obtain ⟨m, hm, hbody⟩ := Option.any_eq_true _ _ |>.1 hany
    have hmethod : (s.store.newInstance ref).2.method? ref.id initializerName = some m := by
      rw [href, method?_of_superclass hnone hsecond]
      exact method?_of_own hm
    have hbound := Session.initializer_bound ha hmethod
    have hderived := derivedMethod_of_superclass? hfirst hm
    obtain ⟨b, t, hb, hlater⟩ := exists_of_someBegins hbody
    split at hlater
    · next k scope st =>
      obtain ⟨c, u, hc, hruns⟩ := exists_of_someBegins hlater
      have hexec := Session.own_subset_history hbound.right hb
      obtain ⟨d, v, hd, hasks⟩ := inside_of_runsLater hl (.part (.body hbound) hb) hexec hc hruns
      unfold asksFirstClass at hasks
      split at hasks
      · next j i keyword method =>
        rw [Bool.and_eq_true] at hasks
        obtain ⟨inherited, hinherited⟩ := Option.isSome_iff_exists.1 hasks.1
        have hbinds := binds_bind (s.store.newInstance ref).2 m (s.store.newInstance ref).1
        have heval := (super_resolution none lateSuper).2.2.2 _ _ m _ _ 1 0 hbound.left hbinds hderived
          j i keyword method v hd
        rw [hinherited] at heval
        refine ⟨_, _, m, _, _, j, i, keyword, method, v, inherited, hbound.left, hbinds, hderived, ?_, hd, ?_,
          hinherited, heval⟩
        · simp [Store.bind, Store.newScope, Store.define, Store.newInstance, href]
        · intro r hr hid
          have hother := hasks.2
          rw [hr] at hother
          simp [hid] at hother
      · cases hasks
    · cases hlater
  · cases htest

end LoxLang
