import LoxLang.Proofs.Placement.Store
import LoxLang.Proofs.Run.Ends
import LoxLang.Proofs.Run.Quiet

/-!
# The names of scopes

Which names a scope has is the business of the declarations that stand in it. Whatever an expression
runs, no scope that was there before has other names afterwards, and a statement gives names only
to the scope it is executed in, those of the declarations at its own level that came to their end.

Main statement: `scope_hygiene`.
-/

namespace LoxLang

/-! ### Declarations -/

namespace Stmt

/-- The declarations at the level of a statement itself: not those in a block, or in the body of a
function or of a method. -/
def declarations : Stmt → List Stmt
  | .var name initial => [.var name initial]
  | .function f => [.function f]
  | .classDecl name superclass methods => [.classDecl name superclass methods]
  | .ifThen _ yes => yes.declarations
  | .ifElse _ yes no => yes.declarations ++ no.declarations
  | .loop _ body => body.declarations
  | .expression _ | .print _ | .block _ | .ret _ _ => []

/-- The name that a declaration declares. -/
def declared? : Stmt → Option String
  | .var name _ => some name.lexeme
  | .function f => some f.name.lexeme
  | .classDecl name _ _ => some name.lexeme
  | _ => none

end Stmt

/-! ### Names -/

namespace Store

variable {N : Nat} {e : Option ScopeId} {σ τ υ : Store} {i j : ScopeId} {name : String} {v : Value}

/-- Of the first `N` scopes none but perhaps `e` has other names than before. -/
structure Spares (N : Nat) (e : Option ScopeId) (σ τ : Store) : Prop where
  before : N ≤ σ.scopes.size
  after : N ≤ τ.scopes.size
  names : ∀ i < N, some i ≠ e → τ.names? i = σ.names? i

/-- A scope that may get names: `e`, or one that is not among the first `N`. -/
def MayName (N : Nat) (e : Option ScopeId) (i : ScopeId) : Prop := some i = e ∨ N ≤ i

theorem Spares.trans (h : Spares N e σ τ) (h' : Spares N e τ υ) : Spares N e σ υ :=
  ⟨h.before, h'.after, fun i hi he => (h'.names i hi he).trans (h.names i hi he)⟩

theorem Spares.of_scopes_eq (hN : N ≤ σ.scopes.size) (h : τ.scopes = σ.scopes) : Spares N e σ τ :=
  ⟨hN, h ▸ hN, fun i _ _ => by rw [names?, names?, h]⟩

theorem Spares.define (hN : N ≤ σ.scopes.size) (hi : MayName N e i) (name : String) (v : Value) :
    Spares N e σ (σ.define i name v) := by
  refine ⟨hN, by rwa [size_define], fun j hj he => names?_define_of_ne ?_⟩
  rintro rfl
  rcases hi with hi | hi
  · exact he hi
  · omega

theorem Spares.assign (hN : N ≤ σ.scopes.size) (h : σ.holder? i name = some j) (v : Value) :
    Spares N e σ (σ.define j name v) :=
  ⟨hN, by rwa [size_define], fun k _ _ => names?_define_of_binds (binds_of_holder? h) v k⟩

theorem Spares.newScope (hN : N ≤ σ.scopes.size) (parent : Option ScopeId) :
    Spares N e σ (σ.newScope parent).2 := by
  refine ⟨hN, by simp [Store.newScope]; omega, fun i hi _ => ?_⟩
  have hne : i ≠ σ.scopes.size := by omega
  simp [names?, Store.newScope, Array.getElem?_push, hne]

theorem Spares.bind (hN : N ≤ σ.scopes.size) (m : Closure) (receiver : Ref) :
    Spares N e σ (σ.bind m receiver).2 := by
  have hnew := Spares.newScope (e := e) hN (some m.scope)
  exact hnew.trans (.define hnew.after (.inr hN) _ _)

/-- The names of the parameters go to the scope of the call. -/
theorem Spares.foldl_define (hN : N ≤ σ.scopes.size) (hi : MayName N e i)
    (entries : List (Token × Value)) :
    Spares N e σ (entries.foldl (fun σ (p, v) => σ.define i p.lexeme v) σ) := by
  induction entries generalizing σ with
  | nil => exact .of_scopes_eq hN rfl
  | cons entry entries ih =>
    have hfirst := Spares.define hN hi entry.1.lexeme entry.2
    exact hfirst.trans (ih hfirst.after)

/-- A scope has kept its names and got some more, all of them of some kind. -/
def Gains (P : String → Prop) (i : ScopeId) (σ τ : Store) : Prop :=
  ∃ added, τ.names? i = (σ.names? i).map (· ++ added) ∧ ∀ name ∈ added, P name

theorem Gains.of_eq {P : String → Prop} (h : τ.names? i = σ.names? i) : Gains P i σ τ := by
  refine ⟨[], ?_, by simp⟩
  rw [h]
  simp

theorem Gains.trans {P : String → Prop} (h : Gains P i σ τ) (h' : Gains P i τ υ) : Gains P i σ υ := by
  obtain ⟨added, heq, hadded⟩ := h
  obtain ⟨more, heq', hmore⟩ := h'
  refine ⟨added ++ more, ?_, fun name hname => (List.mem_append.1 hname).elim (hadded name) (hmore name)⟩
  rw [heq', heq, Option.map_map]
  congr 1
  funext names
  simp

theorem Gains.mono {P Q : String → Prop} (h : Gains P i σ τ) (hPQ : ∀ name, P name → Q name) :
    Gains Q i σ τ := by
  obtain ⟨added, heq, hadded⟩ := h
  exact ⟨added, heq, fun name hname => hPQ name (hadded name hname)⟩

theorem Gains.define {P : String → Prop} (h : P name) (σ : Store) (i : ScopeId) (v : Value) :
    Gains P i σ (σ.define i name v) := by
  cases hi : σ.names? i with
  | none => exact .of_eq (by rw [names?_define, hi]; rfl)
  | some names =>
    by_cases hmem : name ∈ names
    · exact .of_eq (by simp [names?_define, hi, hmem])
    · exact ⟨[name], by simp [names?_define, hi, hmem], by simpa using h⟩

end Store

open Store

/-! ### What may give names to which scope -/

/-- An activity gives names at most to a scope that may get them. -/
def Activity.Stays (N : Nat) (e : Option ScopeId) : Activity → Prop
  | .exec _ scope st => st.declarations = [] ∨ MayName N e scope
  | .execLoop _ scope _ body => body.declarations = [] ∨ MayName N e scope
  | .execAll _ scope _ | .program _ scope _ => MayName N e scope
  | .eval _ _ _ | .evalOption _ _ _ | .evalAll _ _ _ => True
  | .call _ _ _ _ | .apply _ _ _ | .runBody _ _ _ => True

/-- The discipline of giving names to one of the first `N` scopes at most. -/
def hygiene (N : Nat) (e : Option ScopeId) : Discipline where
  keeps s t := Spares N e s.store t.store
  fits _ a := a.Stays N e
  yields _ _ := True
  proper _ := True
  keeps_self h := .of_scopes_eq h.after rfl
  keeps_trans := Spares.trans
  keeps_entering call h := by cases call <;> exact h
  keeps_leaving call h := by cases call <;> exact h
  fits_entering _ h := h
  proper_same _ _ := trivial

section Moves

variable {N : Nat} {e : Option ScopeId} {s : RunState} {scope : ScopeId}

theorem hygiene_quiet {goal : α → RunState → Prop} {m : Run α} (hN : N ≤ s.store.scopes.size)
    (hm : m.Quiet) (hg : ∀ r t, m s = .done r t → goal r t) : (hygiene N e).Guards goal m s :=
  Discipline.guards_of_quiet hm (fun _ ht => .of_scopes_eq hN (by rw [ht])) (fun _ => trivial) hg

theorem hygiene_define (hN : N ≤ s.store.scopes.size) (hscope : MayName N e scope) (name : String)
    (v : Value) : (hygiene N e).Guards (fun _ _ => True) (Run.change (·.define scope name v)) s :=
  Discipline.guards_of_done rfl (Spares.define hN hscope name v) trivial

theorem hygiene_assign (hN : N ≤ s.store.scopes.size) (name : Token) (v : Value) :
    (hygiene N e).Guards (fun _ _ => True) (Run.assign scope name v) s := by
  cases hh : s.store.holder? scope name.lexeme with
  | none =>
    exact Discipline.guards_of_failed (t := s) (by simp only [Run.assign, hh]; rfl)
      (Spares.of_scopes_eq hN rfl) trivial
  | some holder =>
    refine Discipline.guards_of_done (by simp only [Run.assign, hh]; rfl) ?_ trivial
    exact Spares.assign hN hh v

theorem hygiene_bindMethod (hN : N ≤ s.store.scopes.size) (m : Closure) (receiver : Ref) :
    (hygiene N e).Guards (fun _ _ => True) (Run.bindMethod m receiver) s := by
  refine Discipline.guards_of_done rfl ?_ trivial
  have hbind := Spares.bind (e := e) hN m receiver
  exact hbind.trans (.of_scopes_eq hbind.after rfl)

theorem hygiene_property (hN : N ≤ s.store.scopes.size) (object : Value) (name : Token) :
    (hygiene N e).Guards (fun _ _ => True) (Run.property object name) s := by
  unfold Run.property
  split
  · next receiver =>
    refine .bind (hygiene_quiet hN (Run.quiet_read _) ?_)
    rintro _ _ ⟨⟩
    split
    · exact hygiene_quiet hN (Run.quiet_pure _) fun _ _ _ => trivial
    · refine .bind (hygiene_quiet hN (Run.quiet_read _) ?_)
      rintro _ _ ⟨⟩
      split
      · exact hygiene_bindMethod hN _ receiver
      · exact hygiene_quiet hN (Run.quiet_fail _ _) fun _ _ _ => trivial
  · exact hygiene_quiet hN (Run.quiet_fail _ _) fun _ _ _ => trivial

theorem size_of_quiet {m : Run α} (hm : m.Quiet) (hN : N ≤ s.store.scopes.size) {r : α} {t : RunState}
    (h : m s = .done r t) : N ≤ t.store.scopes.size := by
  rwa [hm.done h]

theorem hygiene_superMethod (hN : N ≤ s.store.scopes.size) (keyword method : Token) :
    (hygiene N e).Guards (fun _ _ => True) (Run.superMethod scope keyword method) s := by
  rw [Run.superMethod]
  refine .bind (hygiene_quiet hN (Run.quiet_lookup _ _) fun v t ht => ?_)
  have hN := size_of_quiet (Run.quiet_lookup _ _) hN ht
  split
  · refine .bind (hygiene_quiet hN (Run.quiet_lookup _ _) fun w u hu => ?_)
    have hN := size_of_quiet (Run.quiet_lookup _ _) hN hu
    split
    · refine .bind (hygiene_quiet hN (Run.quiet_read _) ?_)
      rintro _ _ ⟨⟩
      split
      · exact hygiene_bindMethod hN _ _
      · exact hygiene_quiet hN (Run.quiet_fail _ _) fun _ _ _ => trivial
    · exact hygiene_quiet hN (Run.quiet_fail _ _) fun _ _ _ => trivial
  · exact hygiene_quiet hN (Run.quiet_fail _ _) fun _ _ _ => trivial

theorem hygiene_declareClass (hN : N ≤ s.store.scopes.size) (hscope : MayName N e scope) (name : Token)
    (superclass : Option Token) (methods : List FunctionDecl) :
    (hygiene N e).Guards (fun _ _ => True) (Run.declareClass scope name superclass methods) s := by
  cases superclass with
  | none =>
    rw [Run.declareClass_none]
    refine .bind ((hygiene_define hN hscope name.lexeme .nil).mono fun _ t ht _ => ?_)
    refine .bind (Discipline.guards_of_done rfl (Spares.of_scopes_eq ht.after rfl) ?_)
    refine hygiene_define ?_ hscope name.lexeme _
    exact ht.after
  | some superName =>
    rw [Run.declareClass_some]
    refine .bind (hygiene_quiet hN (Run.quiet_superclassNamed _ _) fun c u hu => ?_)
    have hN := size_of_quiet (Run.quiet_superclassNamed _ _) hN hu
    refine .bind ((hygiene_define hN hscope name.lexeme .nil).mono fun _ t ht _ => ?_)
    have hnew := Spares.newScope (e := e) ht.after (some scope)
    have hinner := hnew.trans (.define hnew.after (.inr ht.after) Token.superName (.classRef c))
    refine .bind (Discipline.guards_of_done rfl hinner ?_)
    refine .bind (Discipline.guards_of_done rfl (Spares.of_scopes_eq hinner.after rfl) ?_)
    refine hygiene_define ?_ hscope name.lexeme _
    exact hinner.after

theorem hygiene_enter (hN : N ≤ s.store.scopes.size) (f : Closure) (args : List Value) :
    (hygiene N e).Guards (fun scope _ => MayName N e scope) (Run.enter f args) s := by
  refine Discipline.guards_of_done rfl ?_ (.inr hN)
  have hnew := Spares.newScope (e := e) hN (some f.scope)
  exact hnew.trans (.foldl_define hnew.after (.inr hN) _)

end Moves

section Plans

variable {N : Nat} {e : Option ScopeId} {o : Options} {s : RunState} {n : Nat} {scope : ScopeId}

theorem hygiene_exec {st : Stmt} (hN : N ≤ s.store.scopes.size)
    (h : st.declarations = [] ∨ MayName N e scope) :
    (hygiene N e).Safe (fun _ => True) ((Activity.exec (n + 1) scope st).plan o) s := by
  have hmay (hst : st.declarations ≠ []) : MayName N e scope := h.resolve_left hst
  cases st with
  | expression value => exact ⟨trivial, fun _ _ _ _ => trivial⟩
  | print value =>
    exact ⟨trivial, fun v t ht _ => hygiene_quiet ht.after (Run.quiet_print _) fun _ _ _ => trivial⟩
  | var name initial =>
    refine ⟨trivial, fun v t ht _ => ?_⟩
    exact hygiene_define ht.after (hmay (by simp [Stmt.declarations])) name.lexeme v
  | block body =>
    refine Discipline.guards_of_done rfl (Spares.newScope hN (some scope)) ?_
    exact ⟨.inr hN, fun _ _ _ _ => trivial⟩
  | ifThen condition yes =>
    refine ⟨trivial, fun c t ht _ => ?_⟩
    dsimp only
    split
    · exact ⟨h, fun _ _ _ _ => trivial⟩
    · trivial
  | ifElse condition yes no =>
    have hyes : yes.declarations = [] ∨ MayName N e scope :=
      h.imp_left fun h => (List.append_eq_nil_iff.1 h).1
    have hno : no.declarations = [] ∨ MayName N e scope :=
      h.imp_left fun h => (List.append_eq_nil_iff.1 h).2
    refine ⟨trivial, fun c t ht _ => ?_⟩
    dsimp only
    split
    · exact ⟨hyes, fun _ _ _ _ => trivial⟩
    · exact ⟨hno, fun _ _ _ _ => trivial⟩
  | loop condition body => exact ⟨h, fun _ _ _ _ => trivial⟩
  | function f =>
    refine Discipline.guards_of_done rfl (Spares.of_scopes_eq hN rfl) ?_
    refine hygiene_define ?_ (hmay (by simp [Stmt.declarations])) f.name.lexeme _
    exact hN
  | ret keyword value => exact ⟨trivial, fun _ _ _ _ => trivial⟩
  | classDecl name superclass methods =>
    exact hygiene_declareClass hN (hmay (by simp [Stmt.declarations])) name superclass methods

theorem hygiene_eval {expression : Expr} (hN : N ≤ s.store.scopes.size) :
    (hygiene N e).Safe (fun _ => True) ((Activity.eval (n + 1) scope expression).plan o) s := by
  cases expression with
  | literal v => trivial
  | grouping inner => exact ⟨trivial, fun _ _ _ _ => trivial⟩
  | name t => exact hygiene_quiet hN (Run.quiet_lookup _ _) fun _ _ _ => trivial
  | assign name value => exact ⟨trivial, fun v t ht _ => hygiene_assign ht.after name v⟩
  | unary op operand =>
    exact ⟨trivial, fun v t ht _ =>
      hygiene_quiet ht.after (Run.quiet_applyUnary _ _) fun _ _ _ => trivial⟩
  | binary l op r =>
    refine ⟨trivial, fun a t ht _ => ⟨trivial, fun b u hu _ => ?_⟩⟩
    exact hygiene_quiet hu.after (Run.quiet_applyBinary _ _ _) fun _ _ _ => trivial
  | logical l op r =>
    refine ⟨trivial, fun a t ht _ => ?_⟩
    dsimp only
    split
    · trivial
    · exact ⟨trivial, fun _ _ _ _ => trivial⟩
  | call f paren args =>
    exact ⟨trivial, fun _ _ _ _ => ⟨trivial, fun _ _ _ _ => ⟨trivial, fun _ _ _ _ => trivial⟩⟩⟩
  | get object name => exact ⟨trivial, fun v t ht _ => hygiene_property ht.after v name⟩
  | set object name value =>
    refine ⟨trivial, fun v t ht _ => ?_⟩
    refine hygiene_quiet ht.after (Run.quiet_fieldOwner _ _) fun owner u _ => ?_
    refine ⟨trivial, fun w x hx _ => ?_⟩
    exact Discipline.guards_of_done rfl (Spares.of_scopes_eq hx.after rfl) trivial
  | this keyword => exact hygiene_quiet hN (Run.quiet_lookup _ _) fun _ _ _ => trivial
  | super keyword method => exact hygiene_superMethod hN keyword method

theorem hygiene_call {callee : Value} {paren : Token} {args : List Value}
    (hN : N ≤ s.store.scopes.size) :
    (hygiene N e).Safe (fun _ => True) ((Activity.call (n + 1) callee paren args).plan o) s := by
  refine hygiene_quiet hN (Run.quiet_read _) ?_
  rintro _ _ ⟨⟩
  dsimp only
  split
  · exact hygiene_quiet hN (Run.quiet_fail _ _) fun _ _ _ => trivial
  · split
    · refine hygiene_quiet hN (Run.quiet_guardDepth _ _) fun _ _ _ => ?_
      exact ⟨trivial, fun _ _ _ _ => trivial⟩
    · exact hygiene_quiet hN (Run.quiet_fail _ _) fun _ _ _ => trivial

theorem hygiene_apply {callee : Value} {args : List Value} (hN : N ≤ s.store.scopes.size) :
    (hygiene N e).Safe (fun _ => True) ((Activity.apply (n + 1) callee args).plan o) s := by
  cases callee with
  | functionRef ref =>
    refine hygiene_quiet hN (Run.quiet_read _) ?_
    rintro _ _ ⟨⟩
    dsimp only
    split
    · exact ⟨trivial, fun _ _ _ _ => trivial⟩
    · trivial
  | classRef ref =>
    refine Discipline.guards_of_done rfl (Spares.of_scopes_eq hN rfl) ?_
    refine hygiene_quiet hN (Run.quiet_read _) ?_
    rintro _ _ ⟨⟩
    dsimp only
    split
    · refine Discipline.guards_of_done rfl ?_ ?_
      · exact Spares.bind (σ := (s.store.newInstance ref).2) hN _ _
      · exact ⟨trivial, fun _ _ _ _ => trivial⟩
    · trivial
  | _ => trivial

/-- Every plan gives names to the scopes that may get them at most. -/
theorem hygiene_kept (N : Nat) (e : Option ScopeId) (o : Options) : (hygiene N e).Kept o := by
  intro a s hs h
  cases a with
  | exec n scope st =>
    cases n with
    | zero => exact Discipline.guards_exhausted
    | succ n => exact hygiene_exec hs.before h
  | execAll n scope ss =>
    cases n with
    | zero => exact Discipline.guards_exhausted
    | succ n =>
      cases ss with
      | nil => trivial
      | cons st ss =>
        refine ⟨.inr h, fun c t _ _ => ?_⟩
        cases c with
        | normal => exact ⟨h, fun _ _ _ _ => trivial⟩
        | returned keyword v => trivial
  | execLoop n scope condition body =>
    cases n with
    | zero => exact Discipline.guards_exhausted
    | succ n =>
      refine ⟨trivial, fun c t _ _ => ?_⟩
      dsimp only
      split
      · refine ⟨h, fun c u _ _ => ?_⟩
        cases c with
        | normal => exact ⟨h, fun _ _ _ _ => trivial⟩
        | returned keyword v => trivial
      · trivial
  | eval n scope expression =>
    cases n with
    | zero => exact Discipline.guards_exhausted
    | succ n => exact hygiene_eval hs.before
  | evalOption n scope expression =>
    cases n with
    | zero => exact Discipline.guards_exhausted
    | succ n =>
      cases expression with
      | none => trivial
      | some expression => exact ⟨trivial, fun _ _ _ _ => trivial⟩
  | evalAll n scope expressions =>
    cases n with
    | zero => exact Discipline.guards_exhausted
    | succ n =>
      cases expressions with
      | nil => trivial
      | cons _ _ => exact ⟨trivial, fun _ _ _ _ => ⟨trivial, fun _ _ _ _ => trivial⟩⟩
  | call n callee paren args =>
    cases n with
    | zero => exact Discipline.guards_exhausted
    | succ n => exact hygiene_call hs.before
  | apply n callee args =>
    cases n with
    | zero => exact Discipline.guards_exhausted
    | succ n => exact hygiene_apply hs.before
  | runBody n f args =>
    cases n with
    | zero => exact Discipline.guards_exhausted
    | succ n =>
      refine (hygiene_enter hs.before f args).mono fun scope t ht hscope => ?_
      refine ⟨hscope, fun c u hu _ => ?_⟩
      exact hygiene_quiet hu.after (Run.quiet_leave _ _) fun _ _ _ => trivial
  | program n scope ss =>
    cases ss with
    | nil => trivial
    | cons st ss =>
      refine ⟨.inr h, fun c t ht _ => ?_⟩
      cases c with
      | normal => exact ⟨h, fun _ _ _ _ => trivial⟩
      | returned keyword v =>
        exact hygiene_quiet ht.after (Run.quiet_fail _ _) fun _ _ _ => trivial

end Plans

/-! ### What becomes of names in a run -/

namespace Activity

variable {o : Options} {a b : Activity} {s t u : RunState}

theorem spares_of_ends {N : Nat} {e : Option ScopeId} (hN : N ≤ s.store.scopes.size)
    (h : a.Stays N e) (ht : a.Ends o s t) : Spares N e s.store t.store := by
  have hrun := Discipline.run_keeps (hygiene_kept N e o) a s (.of_scopes_eq hN rfl) h
  rcases ht with ⟨r, hr⟩ | ⟨e, he⟩
  · exact (hrun.done hr).1
  · exact (hrun.failed he).1

/-- Declaring a name in a scope is part of an activity, and comes to its end. -/
def Declares (o : Options) (a : Activity) (s : RunState) (scope : ScopeId) (d : Stmt) (name : String) :
    Prop :=
  d.declared? = some name ∧ ∃ n u t, a.Reaches o s (.exec n scope d) u ∧
    Run.exec o n scope d u = .done .normal t

theorem Declares.of_begins {scope : ScopeId} {d : Stmt} {name : String} (h : a.Begins o s b t)
    (hd : b.Declares o t scope d name) : a.Declares o s scope d name := by
  obtain ⟨hname, n, u, v, hr, hrun⟩ := hd
  exact ⟨hname, n, u, v, .later h hr, hrun⟩

/-- What an activity declares in a scope by some declarations. -/
def DeclaresOf (o : Options) (a : Activity) (s : RunState) (scope : ScopeId) (ds : List Stmt)
    (name : String) : Prop :=
  ∃ d ∈ ds, a.Declares o s scope d name

/-- What is begun by what a condition has chosen. -/
theorem begins_after_condition {n : Nat} {scope : ScopeId} {condition : Expr} {c : Value}
    {next : Value → Plan a.Result} {chosen : Plan a.Result} {k : b.Result → Plan a.Result}
    (hplan : a.plan o = .begin none (.eval n scope condition) next)
    (h : Run.eval o n scope condition s = .done c u) (hnext : next c = chosen)
    (hb : chosen.Leads o u (.begin none b k) t) : a.Begins o s b t := by
  refine ⟨none, k, t, ?_, rfl⟩
  rw [hplan]
  refine .begin h ?_
  rwa [hnext]

/-- What a begun activity declares is declared by the one that began it. -/
theorem gains_of_begins {scope : ScopeId} {ds ds' : List Stmt} (h : a.Begins o s b u)
    (hds : ∀ d ∈ ds, d ∈ ds') (hb : Gains (b.DeclaresOf o u scope ds) scope u.store t.store) :
    Gains (a.DeclaresOf o s scope ds') scope u.store t.store := by
  refine hb.mono fun name hname => ?_
  obtain ⟨d, hd, hdecl⟩ := hname
  exact ⟨d, hds d hd, hdecl.of_begins h⟩

end Activity

/-! ### Statements -/

section Statements

variable {o : Options} {n : Nat} {scope : ScopeId} {s t u : RunState}

/-- No scope that was there has other names than before. -/
def Store.SameNames (σ τ : Store) : Prop := ∀ i < σ.scopes.size, τ.names? i = σ.names? i

theorem sameNames_of_ends {a : Activity} (h : a.Stays s.store.scopes.size none) (ht : a.Ends o s t) :
    s.store.scopes.size ≤ t.store.scopes.size ∧ s.store.SameNames t.store := by
  have hspares := Activity.spares_of_ends (Nat.le_refl _) h ht
  exact ⟨hspares.after, fun i hi => hspares.names i hi (by simp)⟩

theorem gains_declareClass {name : Token} {superclass : Option Token} {methods : List FunctionDecl}
    {r : Unit} (hscope : scope < s.store.scopes.size)
    (h : Run.declareClass scope name superclass methods s = .done r t) :
    Gains (name.lexeme = ·) scope s.store t.store := by
  have hdefine (σ : Store) (v : Value) : Gains (name.lexeme = ·) scope σ (σ.define scope name.lexeme v) :=
    .define rfl σ scope v
  cases superclass with
  | none =>
    rw [Run.declareClass_none] at h
    cases h
    exact (hdefine s.store .nil).trans (hdefine _ _)
  | some superName =>
    rw [Run.declareClass_some, Run.run_bind] at h
    cases hc : Run.superclassNamed scope superName s with
    | done c u =>
      rw [hc] at h
      cases h
      have hu := (Run.quiet_superclassNamed _ _).done hc
      rw [← hu] at hscope ⊢
      have hN : scope + 1 ≤ (u.store.define scope name.lexeme .nil).scopes.size := by
        rw [size_define]
        exact hscope
      have hnew := Spares.newScope (e := none) hN (some scope)
      have hinner := hnew.trans (.define hnew.after (.inr hN) Token.superName (.classRef c))
      have hsame := hinner.names scope (Nat.lt_succ_self _) (by simp)
      exact ((hdefine u.store .nil).trans (.of_eq hsame)).trans (hdefine _ _)
    | failed e u => simp [hc] at h
    | exhausted => simp [hc] at h

theorem store_eq_of_declareClass_failed {name : Token} {superclass : Option Token}
    {methods : List FunctionDecl} {e : RuntimeError}
    (h : Run.declareClass scope name superclass methods s = .failed e t) : t.store = s.store := by
  cases superclass with
  | none =>
    rw [Run.declareClass_none] at h
    cases h
  | some superName =>
    rw [Run.declareClass_some, Run.run_bind] at h
    cases hc : Run.superclassNamed scope superName s with
    | done c u =>
      rw [hc] at h
      cases h
    | failed e u =>
      rw [hc] at h
      cases h
      exact (Run.quiet_superclassNamed _ _).failed hc
    | exhausted => simp [hc] at h

/-- A declaration declares its name, or fails and declares nothing. -/
theorem exec_declaration {d : Stmt} {name : String} (hd : d.declared? = some name)
    (ht : (Activity.exec n scope d).Ends o s t) :
    (∃ e, Run.exec o n scope d s = .failed e t ∧ s.store.SameNames t.store) ∨
      Run.exec o n scope d s = .done .normal t ∧
        (scope < s.store.scopes.size → Gains (name = ·) scope s.store t.store) := by
  change (∃ c, Run.exec o n scope d s = .done c t) ∨ ∃ e, Run.exec o n scope d s = .failed e t at ht
  cases n with
  | zero => rcases ht with ⟨c, h⟩ | ⟨e, h⟩ <;> rw [Run.exec] at h <;> cases h
  | succ n =>
    cases d with
    | var name initial =>
      cases hd
      have hsame {u : RunState} (h : (Activity.evalOption n scope initial).Ends o s u) :
          s.store.SameNames u.store :=
        (sameNames_of_ends (a := .evalOption n scope initial) trivial h).2
      rw [Run.exec, Run.run_bind] at ht ⊢
      cases hv : Run.evalOption o n scope initial s with
      | done v u =>
        rw [hv] at ht
        rcases ht with ⟨c, h⟩ | ⟨e, h⟩ <;> cases h
        refine .inr ⟨rfl, fun hscope => ?_⟩
        exact (Gains.of_eq (hsame (.inl ⟨v, hv⟩) scope hscope)).trans (.define rfl u.store scope v)
      | failed e u =>
        rw [hv] at ht
        rcases ht with ⟨c, h⟩ | ⟨e, h⟩ <;> cases h
        exact .inl ⟨_, rfl, hsame (.inr ⟨_, hv⟩)⟩
      | exhausted =>
        rw [hv] at ht
        rcases ht with ⟨c, h⟩ | ⟨e, h⟩ <;> cases h
    | function f =>
      cases hd
      rw [Run.exec] at ht ⊢
      rcases ht with ⟨c, h⟩ | ⟨e, h⟩ <;> cases h
      refine .inr ⟨rfl, fun _ => ?_⟩
      exact Gains.define rfl (s.store.newFunction ⟨f, scope, false⟩).2 scope _
    | classDecl name superclass methods =>
      cases hd
      rw [Run.exec, Run.run_bind] at ht ⊢
      cases hc : Run.declareClass scope name superclass methods s with
      | done r u =>
        rw [hc] at ht
        rcases ht with ⟨c, h⟩ | ⟨e, h⟩ <;> cases h
        exact .inr ⟨rfl, fun hscope => gains_declareClass hscope hc⟩
      | failed e u =>
        rw [hc] at ht
        rcases ht with ⟨c, h⟩ | ⟨e, h⟩ <;> cases h
        refine .inl ⟨_, rfl, fun i _ => ?_⟩
        rw [store_eq_of_declareClass_failed hc]
      | exhausted =>
        rw [hc] at ht
        rcases ht with ⟨c, h⟩ | ⟨e, h⟩ <;> cases h
    | _ => cases hd

/-- A declaration gives its scope no name but its own, and that one only if it comes to its end. -/
theorem gains_declaration {d : Stmt} {name : String} (hd : d.declared? = some name)
    (hscope : scope < s.store.scopes.size) (ht : (Activity.exec n scope d).Ends o s t) :
    Gains ((Activity.exec n scope d).DeclaresOf o s scope [d]) scope s.store t.store := by
  rcases exec_declaration hd ht with ⟨e, -, hsame⟩ | ⟨hdone, hgains⟩
  · exact .of_eq (hsame scope hscope)
  · refine (hgains hscope).mono ?_
    rintro _ rfl
    exact ⟨d, List.mem_singleton_self d, hd, n, s, t, .here, hdone⟩

/-- With this allowance, executing a statement gives a scope only names that the statement declares. -/
def ExecGains (o : Options) (n : Nat) : Prop :=
  ∀ {scope : ScopeId} {st : Stmt} {s t : RunState}, scope < s.store.scopes.size →
    (Activity.exec n scope st).Ends o s t →
    Gains ((Activity.exec n scope st).DeclaresOf o s scope st.declarations) scope s.store t.store

/-- With this allowance, a loop gives a scope only names that its body declares. -/
def LoopGains (o : Options) (n : Nat) : Prop :=
  ∀ {scope : ScopeId} {condition : Expr} {body : Stmt} {s t : RunState}, scope < s.store.scopes.size →
    (Activity.execLoop n scope condition body).Ends o s t →
    Gains ((Activity.execLoop n scope condition body).DeclaresOf o s scope body.declarations) scope
      s.store t.store

/-- Of an activity that begins with a condition, only what follows the condition gives names. -/
theorem gains_after_condition {a : Activity} {condition : Expr} {next : Value → Plan a.Result}
    {P : String → Prop} (hplan : a.plan o = .begin none (.eval n scope condition) next)
    (hscope : scope < s.store.scopes.size) (ht : a.Ends o s t)
    (hnext : ∀ c u, Run.eval o n scope condition s = .done c u → scope < u.store.scopes.size →
      (next c).Ends o u t → Gains P scope u.store t.store) : Gains P scope s.store t.store := by
  rw [Activity.ends_iff_plan, hplan, Plan.ends_begin] at ht
  rcases ht with ⟨e, h⟩ | ⟨c, u, h, hc⟩
  · obtain ⟨-, hsame⟩ := sameNames_of_ends (a := .eval n scope condition) trivial (.inr ⟨e, h⟩)
    exact .of_eq (hsame scope hscope)
  · obtain ⟨hsize, hsame⟩ := sameNames_of_ends (a := .eval n scope condition) trivial (.inl ⟨c, h⟩)
    exact (Gains.of_eq (hsame scope hscope)).trans (hnext c u h (Nat.lt_of_lt_of_le hscope hsize) hc)

theorem execGains_succ (ihExec : ExecGains o n) (ihLoop : LoopGains o n) : ExecGains o (n + 1) := by
  intro scope st s t hscope ht
  have hnone (hst : st.declarations = []) :
      Gains ((Activity.exec (n + 1) scope st).DeclaresOf o s scope st.declarations) scope s.store
        t.store := by
    have hstays : (Activity.exec (n + 1) scope st).Stays s.store.scopes.size none := .inl hst
    exact .of_eq ((sameNames_of_ends hstays ht).2 scope hscope)
  cases st with
  | expression value | print value | block body | ret keyword value => exact hnone rfl
  | var name initial => exact gains_declaration rfl hscope ht
  | function f => exact gains_declaration rfl hscope ht
  | classDecl name superclass methods => exact gains_declaration rfl hscope ht
  | ifThen condition yes =>
    refine gains_after_condition rfl hscope ht fun c u h hu hc => ?_
    by_cases htrue : c.truthy = true
    · rw [if_pos htrue] at hc
      have hyes := Activity.begins_after_condition (a := .exec (n + 1) scope (.ifThen condition yes)) rfl h
        (if_pos htrue) .here
      exact Activity.gains_of_begins hyes (fun _ => id) (ihExec hu (Plan.ends_become.1 hc))
    · rw [if_neg htrue] at hc
      exact .of_eq (by rw [Plan.ends_done.1 hc])
  | ifElse condition yes no =>
    refine gains_after_condition rfl hscope ht fun c u h hu hc => ?_
    by_cases htrue : c.truthy = true
    · rw [if_pos htrue] at hc
      have hyes := Activity.begins_after_condition (a := .exec (n + 1) scope (.ifElse condition yes no)) rfl h
        (if_pos htrue) .here
      exact Activity.gains_of_begins hyes (fun _ => List.mem_append_left _)
        (ihExec hu (Plan.ends_become.1 hc))
    · rw [if_neg htrue] at hc
      have hno := Activity.begins_after_condition (a := .exec (n + 1) scope (.ifElse condition yes no)) rfl h
        (if_neg htrue) .here
      exact Activity.gains_of_begins hno (fun _ => List.mem_append_right _)
        (ihExec hu (Plan.ends_become.1 hc))
  | loop condition body =>
    have hbegins : (Activity.exec (n + 1) scope (.loop condition body)).Begins o s
        (.execLoop n scope condition body) s := ⟨none, .done, s, .here, rfl⟩
    have hloop := Plan.ends_become.1 (Activity.ends_iff_plan.1 ht)
    exact Activity.gains_of_begins hbegins (fun _ => id) (ihLoop hscope hloop)

theorem loopGains_succ (ihExec : ExecGains o n) (ihLoop : LoopGains o n) : LoopGains o (n + 1) := by
  intro scope condition body s t hscope ht
  refine gains_after_condition rfl hscope ht fun c u h hu hc => ?_
  by_cases htrue : c.truthy = true
  · rw [if_pos htrue] at hc
    have hbody := Activity.begins_after_condition (a := .execLoop (n + 1) scope condition body) rfl h
        (if_pos htrue) .here
    rcases Plan.ends_begin.1 hc with ⟨e, he⟩ | ⟨r, w, hr, hround⟩
    · exact Activity.gains_of_begins hbody (fun _ => id) (ihExec hu (.inr ⟨e, he⟩))
    refine (Activity.gains_of_begins hbody (fun _ => id) (ihExec hu (.inl ⟨r, hr⟩))).trans ?_
    cases r with
    | normal =>
      have hmore := Activity.begins_after_condition (a := .execLoop (n + 1) scope condition body) rfl h
        (if_pos htrue) (.begin hr .here)
      have hw : scope < w.store.scopes.size := by
        have hstays : (Activity.exec n scope body).Stays (scope + 1) (some scope) := .inr (.inl rfl)
        exact (Activity.spares_of_ends hu hstays (.inl ⟨_, hr⟩)).after
      exact Activity.gains_of_begins hmore (fun _ => id) (ihLoop hw (Plan.ends_become.1 hround))
    | returned keyword v => exact .of_eq (by rw [Plan.ends_done.1 hround])
  · rw [if_neg htrue] at hc
    exact .of_eq (by rw [Plan.ends_done.1 hc])

/-- Executing a statement gives its scope only names that the statement declares. -/
theorem gains_exec (n : Nat) : ExecGains o n ∧ LoopGains o n := by
  induction n with
  | zero =>
    constructor
    · intro scope st s t _ ht
      rcases Plan.ends_move.1 (Activity.ends_iff_plan.1 ht) with ⟨e, h⟩ | ⟨r, u, h, -⟩ <;> cases h
    · intro scope condition body s t _ ht
      rcases Plan.ends_move.1 (Activity.ends_iff_plan.1 ht) with ⟨e, h⟩ | ⟨r, u, h, -⟩ <;> cases h
  | succ n ih => exact ⟨execGains_succ ih.1 ih.2, loopGains_succ ih.1 ih.2⟩

end Statements

/-- Evaluating an expression in any scope and any state, and all the code that it runs, leaves the names
of every scope that was there as they are, whether it ends with a value or with an error. Executing
a statement gives names to no such scope but the one it is executed in, and to that one only names
of declarations at its own level which have come to their end. A block, a counting loop with a
variable of its own, a call and a declaration that fails give none. -/
theorem scope_hygiene (o : Options) (n : Nat) (scope : ScopeId) (s t : RunState) :
    (∀ e, (Activity.eval n scope e).Ends o s t → s.store.SameNames t.store) ∧
    (∀ st, (Activity.exec n scope st).Ends o s t →
      (∀ i < s.store.scopes.size, i ≠ scope → t.store.names? i = s.store.names? i) ∧
      (scope < s.store.scopes.size → ∃ added,
        t.store.names? scope = (s.store.names? scope).map (· ++ added) ∧
        ∀ name ∈ added, ∃ d ∈ st.declarations, (Activity.exec n scope st).Declares o s scope d name)) ∧
    (∀ body, (Activity.exec n scope (.block body)).Ends o s t → s.store.SameNames t.store) ∧
    (∀ name initial condition increment body,
      (Activity.exec n scope
        (Parse.lowerFor (some (.var name initial)) condition increment body)).Ends o s t →
      s.store.SameNames t.store) ∧
    (∀ callee paren args, (Activity.call n callee paren args).Ends o s t →
      s.store.SameNames t.store) ∧
    (∀ d name e, d.declared? = some name → Run.exec o n scope d s = .failed e t →
      s.store.SameNames t.store) := by
  have hnone {st : Stmt} (hst : st.declarations = []) (h : (Activity.exec n scope st).Ends o s t) :
      s.store.SameNames t.store := by
    have hstays : (Activity.exec n scope st).Stays s.store.scopes.size none := .inl hst
    exact (sameNames_of_ends hstays h).2
  refine ⟨fun e h => ?_, fun st h => ⟨?_, fun hscope => ?_⟩, fun body h => ?_, ?_, ?_, ?_⟩
  · exact (sameNames_of_ends (a := .eval n scope e) trivial h).2
  · have hstays : (Activity.exec n scope st).Stays s.store.scopes.size (some scope) := .inr (.inl rfl)
    intro i hi hne
    exact (Activity.spares_of_ends (Nat.le_refl _) hstays h).names i hi (by simpa using hne)
  · exact (gains_exec n).1 hscope h
  · exact hnone rfl h
  · exact fun name initial condition increment body h => hnone rfl h
  · exact fun callee paren args h => (sameNames_of_ends (a := .call n callee paren args) trivial h).2
  · intro d name e hd h
    rcases exec_declaration hd (.inr ⟨e, h⟩) with ⟨-, -, hsame⟩ | ⟨hdone, -⟩
    · exact hsame
    · rw [h] at hdone
      cases hdone

/-- A function with a variable of its own, `fun f() \x7b var own; return true; \x7d`. -/
def declaresOwn : Stmt :=
  let f : Token := { kind := .identifier, lexeme := "f", line := 1 }
  let own : Token := { kind := .identifier, lexeme := "own", line := 1 }
  let keyword : Token := { kind := .kwReturn, lexeme := "return", line := 1 }
  .function { name := f, params := [], body := [.var own none, .ret keyword (some (.literal (.bool true)))] }

/-- The variable of a loop, to begin with what that function yields, `var i = f();`. -/
def callsForInitial : Token × Option Expr :=
  let f : Token := { kind := .identifier, lexeme := "f", line := 2 }
  let paren : Token := { kind := .rightParen, lexeme := ")", line := 2 }
  ({ kind := .identifier, lexeme := "i", line := 2 }, some (.call (.name f) paren []))

/-- The loop comes to its end, and the global scope has the name of the function and no other. -/
theorem callsForInitial_names :
    let o := (Session.start none Session.freshStore).options
    let name := callsForInitial.1
    let loop := Parse.lowerFor (some (.var name callsForInitial.2)) (some (.name name))
      (some (.assign name (.literal (.bool false)))) (.block [.var name none])
    ∃ s t, Run.exec o 30 Session.globals loop s = .done .normal t ∧
      s.store.names? Session.globals = some ["f"] ∧ t.store.names? Session.globals = some ["f"] := by
  intro o name loop
  have hruns : ((Session.start none Session.freshStore).interpret 30 [declaresOwn]).any (fun r =>
      r.2.state.store.names? Session.globals == some ["f"] &&
        match Run.exec o 30 Session.globals loop r.2.state with
        | .done .normal _ => true
        | _ => false) = true := by
    decide +kernel
  obtain ⟨⟨step, s⟩, -, hs⟩ := Option.any_eq_true _ _ |>.1 hruns
  rw [Bool.and_eq_true, beq_iff_eq] at hs
  obtain ⟨hnames, hdone⟩ := hs
  split at hdone
  · next t ht =>
    have hglobals : Session.globals < s.state.store.scopes.size := by
      rw [names?] at hnames
      obtain ⟨sc, hsc, -⟩ := Option.map_eq_some_iff.1 hnames
      exact (Array.getElem?_eq_some_iff.1 hsc).1
    have hsame := (scope_hygiene o 30 Session.globals s.state t).2.2.2.1 name callsForInitial.2
      (some (.name name)) (some (.assign name (.literal (.bool false)))) (.block [.var name none])
      (.inl ⟨_, ht⟩)
    exact ⟨s.state, t, ht, hnames, (hsame Session.globals hglobals).trans hnames⟩
  · cases hdone

end LoxLang
