import LoxLang.Proofs.Run.Prompt
import LoxLang.Proofs.Run.Quiet
import LoxLang.Proofs.Store.Alike

/-!
# Where the tokens of activities come from

A tree is alike to itself exactly if each of its tokens is related to itself in its part. If that is so of a
program and of all functions and methods in the store, it is so of all that a run of the program begins and
of the parentheses of all its calls, since a run makes no tokens of its own in trees.

Main statements: `provenance_kept` and `paren_known`.
-/

namespace LoxLang

open List (Forall₂)

variable {R : Part → Token → Token → Prop}

/-- A function that is alike to itself. -/
def FunctionDecl.Known (R : Part → Token → Token → Prop) (f : FunctionDecl) : Prop := f.Alike R f

/-- An activity of a tree that is alike to itself, or the call of a parenthesis that is. -/
def Activity.Known (R : Part → Token → Token → Prop) : Activity → Prop
  | .exec _ _ s => s.Alike R s
  | .execAll _ _ ss => Forall₂ (Stmt.Alike R) ss ss
  | .execLoop _ _ c body => c.Alike R c ∧ body.Alike R body
  | .eval _ _ e => e.Alike R e
  | .evalOption _ _ e => Option.Rel (Expr.Alike R) e e
  | .evalAll _ _ es => Forall₂ (Expr.Alike R) es es
  | .call _ _ paren _ => R .paren paren paren
  | .apply _ _ _ => True
  | .runBody _ f _ => f.declaration.Known R
  | .program _ _ ss => Forall₂ (Stmt.Alike R) ss ss

/-- In a store that is alike to itself all functions and methods are. -/
theorem Store.Alike.declares {R : Unit → Part → Token → Token → Prop} {σ : Store} (h : σ.Alike R σ) :
    σ.Declares (FunctionDecl.Known (R ())) := by
  have hdecl {f : Closure} (hf : f.Alike R f) : f.declaration.Known (R ()) := by
    obtain ⟨_, hi⟩ := hf.declaration
    exact hi
  constructor
  · intro k f hk
    have hf := h.function? k
    rw [hk] at hf
    cases hf with
    | some hf => exact hdecl hf
  · intro k K name m hk hm
    have hK := h.class? k
    rw [hk] at hK
    cases hK with
    | some hK =>
      have hmethod := hK.methods.get? name
      rw [hm] at hmethod
      cases hmethod with
      | some hmethod => exact hdecl hmethod

/-- The discipline of trees that are alike to themselves. -/
def provenance (R : Part → Token → Token → Prop) : Discipline where
  keeps _ t := t.store.Declares (FunctionDecl.Known R)
  fits _ a := a.Known R
  yields _ _ := True
  proper _ := True
  keeps_self h := h
  keeps_trans _ h := h
  keeps_entering call h := by cases call <;> exact h
  keeps_leaving call h := by cases call <;> exact h
  fits_entering _ h := h
  proper_same _ _ := trivial

namespace Activity

variable {s : RunState} {o : Options} {n : Nat} {scope : ScopeId}

/-! ### Steps of plans -/

theorem guards_of_prompt {goal : α → Prop} {m : Run α} (hs : s.store.Declares (FunctionDecl.Known R))
    (hm : m.Prompt (FunctionDecl.Known R) goal) : (provenance R).Guards (fun r _ => goal r) m s := by
  have hends := hm s hs
  constructor
  · intro r t h
    rw [h] at hends
    exact ⟨hends.2.store, hends.1⟩
  · intro e t h
    rw [h] at hends
    exact ⟨hends.store, trivial⟩

/-- A plan that does something that ends at once and goes on. -/
theorem safe_move {goal : α → Prop} {found : β → Prop} {m : Run β} {next : β → Plan α}
    (hs : s.store.Declares (FunctionDecl.Known R)) (hm : m.Prompt (FunctionDecl.Known R) found)
    (hnext : ∀ b t, t.store.Declares (FunctionDecl.Known R) → found b →
      (provenance R).Safe goal (next b) t) : (provenance R).Safe goal (.move m next) s :=
  (guards_of_prompt hs hm).mono fun b t ht hb => hnext b t ht hb

/-- A plan that looks at something and goes on. -/
theorem safe_look {goal : α → Prop} {m : Run β} {next : β → Plan α}
    (hs : s.store.Declares (FunctionDecl.Known R)) (hm : m.Quiet)
    (hnext : ∀ b t, t.store.Declares (FunctionDecl.Known R) → (provenance R).Safe goal (next b) t) :
    (provenance R).Safe goal (.move m next) s := by
  have hquiet : (provenance R).Guards (fun _ _ => True) m s :=
    Discipline.guards_of_quiet hm (fun t ht => hs.of_eq (by rw [ht]) (by rw [ht])) (fun _ => trivial)
      fun _ _ _ => trivial
  exact hquiet.mono fun b t ht _ => hnext b t ht

theorem safe_just {m : Run α} (hs : s.store.Declares (FunctionDecl.Known R))
    (hm : m.Prompt (FunctionDecl.Known R) fun _ => True) : (provenance R).Safe (fun _ => True) (.just m) s :=
  safe_move hs hm fun _ _ _ _ => trivial

theorem safe_become {a : Activity} (h : a.Known R) : (provenance R).Safe (fun _ => True) (.become a) s :=
  ⟨h, fun _ _ _ _ => trivial⟩

/-! ### Plans -/

section Plans

variable (hs : s.store.Declares (FunctionDecl.Known R))

include hs

theorem safe_exec_known {st : Stmt} (h : st.Alike R st) :
    (provenance R).Safe (fun _ => True) ((Activity.exec (n + 1) scope st).plan o) s := by
  cases h with
  | expression value => exact ⟨value, fun _ _ _ _ => trivial⟩
  | print value => exact ⟨value, fun v t ht _ => safe_look ht (Run.quiet_print _) fun _ _ _ => trivial⟩
  | var hname initial =>
    exact ⟨initial, fun v t ht _ => safe_move ht (Run.prompt_define _ _) fun _ _ _ _ => trivial⟩
  | block body =>
    exact safe_move hs (Run.prompt_make_of_eq (fun _ => rfl) fun _ => rfl) fun _ _ _ _ => safe_become body
  | ifThen condition yes =>
    refine ⟨condition, fun c t ht _ => ?_⟩
    dsimp only
    split
    · exact safe_become yes
    · trivial
  | ifElse condition yes no =>
    refine ⟨condition, fun c t ht _ => ?_⟩
    dsimp only
    split
    · exact safe_become yes
    · exact safe_become no
  | loop condition body => exact safe_become ⟨condition, body⟩
  | function declaration =>
    exact safe_move hs (Run.prompt_newFunction declaration) fun v t ht _ =>
      safe_move ht (Run.prompt_define _ _) fun _ _ _ _ => trivial
  | ret hkeyword value => exact ⟨value, fun _ _ _ _ => trivial⟩
  | classDecl hname superclass methods =>
    have hmethods : ∀ f ∈ _, FunctionDecl.Known R f := fun f hf => List.forall₂_same.1 methods f hf
    exact safe_move hs (Run.prompt_declareClass _ _ hmethods) fun _ _ _ _ => trivial

theorem safe_eval_known {e : Expr} (h : e.Alike R e) :
    (provenance R).Safe (fun _ => True) ((Activity.eval (n + 1) scope e).plan o) s := by
  cases h with
  | literal => trivial
  | grouping inner => exact safe_become inner
  | name _ => exact safe_just hs (Run.prompt_lookup _)
  | assign _ value =>
    exact ⟨value, fun v t ht _ => safe_move ht (Run.prompt_assign _ _) fun _ _ _ _ => trivial⟩
  | unary _ operand => exact ⟨operand, fun v t ht _ => safe_just ht (Run.prompt_applyUnary _ _)⟩
  | binary left _ right =>
    exact ⟨left, fun a t ht _ => ⟨right, fun b u hu _ => safe_just hu (Run.prompt_applyBinary _ _ _)⟩⟩
  | logical left _ right =>
    refine ⟨left, fun a t ht _ => ?_⟩
    dsimp only
    split
    · trivial
    · exact safe_become right
  | call callee hparen args =>
    exact ⟨callee, fun v t ht _ => ⟨args, fun vs u hu _ => safe_become hparen⟩⟩
  | get object _ => exact ⟨object, fun v t ht _ => safe_just ht (Run.prompt_property _ _)⟩
  | set object _ value =>
    exact ⟨object, fun v t ht _ => safe_move ht (Run.prompt_fieldOwner _ _) fun owner u hu _ =>
      ⟨value, fun w x hx _ => safe_move hx (Run.prompt_setField _ _ _) fun _ _ _ _ => trivial⟩⟩
  | this _ => exact safe_just hs (Run.prompt_lookup _)
  | super _ _ => exact safe_just hs (Run.prompt_superMethod _ _)

theorem safe_call_known {callee : Value} {paren : Token} {args : List Value} :
    (provenance R).Safe (fun _ => True) ((Activity.call (n + 1) callee paren args).plan o) s := by
  refine safe_look hs (Run.quiet_read _) fun arity t ht => ?_
  cases arity with
  | none => exact safe_just ht (Run.prompt_fail _ _)
  | some k =>
    dsimp only
    split
    · exact safe_look ht (Run.quiet_guardDepth _ _) fun _ _ _ => ⟨trivial, fun _ _ _ _ => trivial⟩
    · exact safe_just ht (Run.prompt_fail _ _)

/-- What a reference leads to in the store has been declared. -/
theorem safe_apply_known {callee : Value} {args : List Value} :
    (provenance R).Safe (fun _ => True) ((Activity.apply (n + 1) callee args).plan o) s := by
  cases callee with
  | functionRef ref =>
    refine safe_move hs (Run.prompt_find fun h hm => h.functions hm) fun f t ht hf => ?_
    cases f with
    | none => trivial
    | some f => exact safe_become (hf f rfl)
  | classRef ref =>
    refine safe_move hs (Run.prompt_make_of_eq (fun _ => rfl) fun _ => rfl) fun receiver t ht _ => ?_
    refine safe_move ht (Run.prompt_find fun h hm => h.method hm) fun m u hu hm => ?_
    cases m with
    | none => trivial
    | some m =>
      exact safe_move hu (Run.prompt_bind (hm m rfl) receiver) fun bound v _ hbound =>
        ⟨hbound, fun _ _ _ _ => trivial⟩
  | _ => trivial

theorem safe_runBody_known {f : Closure} {args : List Value} (h : f.declaration.Known R) :
    (provenance R).Safe (fun _ => True) ((Activity.runBody (n + 1) f args).plan o) s :=
  safe_move hs (Run.prompt_enter f args) fun _ _ _ _ =>
    ⟨FunctionDecl.Alike.body h, fun c _ hu _ => safe_just hu (Run.prompt_leave f c)⟩

end Plans

end Activity

open Activity

/-- Every plan keeps the discipline of trees that are alike to themselves. -/
theorem provenance_kept (R : Part → Token → Token → Prop) (o : Options) : (provenance R).Kept o := by
  intro a s hs h
  cases a with
  | exec n scope st =>
    cases n with
    | zero => exact Discipline.guards_exhausted
    | succ n => exact safe_exec_known hs h
  | execAll n scope ss =>
    cases n with
    | zero => exact Discipline.guards_exhausted
    | succ n =>
      cases h with
      | nil => trivial
      | cons first rest =>
        refine ⟨first, fun c t ht _ => ?_⟩
        cases c with
        | normal => exact safe_become rest
        | returned keyword v => trivial
  | execLoop n scope c body =>
    cases n with
    | zero => exact Discipline.guards_exhausted
    | succ n =>
      refine ⟨h.1, fun v t ht _ => ?_⟩
      dsimp only
      split
      · refine ⟨h.2, fun c u hu _ => ?_⟩
        cases c with
        | normal => exact safe_become h
        | returned keyword v => trivial
      · trivial
  | eval n scope e =>
    cases n with
    | zero => exact Discipline.guards_exhausted
    | succ n => exact safe_eval_known hs h
  | evalOption n scope e =>
    cases n with
    | zero => exact Discipline.guards_exhausted
    | succ n =>
      cases h with
      | none => trivial
      | some he => exact safe_become he
  | evalAll n scope es =>
    cases n with
    | zero => exact Discipline.guards_exhausted
    | succ n =>
      cases h with
      | nil => trivial
      | cons first rest => exact ⟨first, fun v t ht _ => ⟨rest, fun _ _ _ _ => trivial⟩⟩
  | call n callee paren args =>
    cases n with
    | zero => exact Discipline.guards_exhausted
    | succ n => exact safe_call_known hs
  | apply n callee args =>
    cases n with
    | zero => exact Discipline.guards_exhausted
    | succ n => exact safe_apply_known hs
  | runBody n f args =>
    cases n with
    | zero => exact Discipline.guards_exhausted
    | succ n => exact safe_runBody_known hs h
  | program n scope ss =>
    cases h with
    | nil => trivial
    | cons first rest =>
      refine ⟨first, fun c t ht _ => ?_⟩
      cases c with
      | normal => exact safe_become rest
      | returned keyword v => exact safe_just ht (Run.prompt_fail _ _)

/-- The parentheses of all calls that a run of a program comes to are known. -/
theorem paren_known {o : Options} {n m : Nat} {scope : ScopeId} {ss : List Stmt} {s t : RunState}
    {callee : Value} {paren : Token} {args : List Value} (hs : s.store.Declares (FunctionDecl.Known R))
    (h : Forall₂ (Stmt.Alike R) ss ss)
    (hr : (Activity.program n scope ss).Reaches o s (.call m callee paren args) t) : R .paren paren paren :=
  (Discipline.reaches_fits (D := provenance R) (a := .program n scope ss) (provenance_kept R o) hs h hr).2

end LoxLang
