import LoxLang.Proofs.Founded
import LoxLang.Proofs.Parse.Basic
import LoxLang.Proofs.Run.Spread

/-!
# Counting loops as blocks and conditional loops

Trees have no node for a counting loop, and the parser puts one together from blocks and a conditional
loop. Here such a loop runs as it reads instead: one scope, if there is an initial clause, and in that scope
the condition, the body and the increment, over and over. The tree has one more scope in each round
with an increment, around the body, in which nothing is ever declared: a body is a statement, not a
declaration. So the two leave stores that differ in blank scopes at most.

Main statements: `counting_spreads`, for any allowances of the two, and `lowerFor_keeps_meaning`.
-/

namespace LoxLang

namespace Grammar

theorem counting_declarations {initial : Option Stmt} {condition increment : Option Expr} {body : Stmt}
    (hbody : body.declarations = []) :
    (counting initial condition increment body).declarations = [] := by
  cases initial with
  | some first => rfl
  | none =>
    cases increment with
    | some e => rfl
    | none => exact hbody

/-- A statement declares nothing in the scope that it is executed in. -/
theorem Statement.declarations_eq_nil : Statement b ts s es → s.declarations = []
  | .counting _ _ _ _ _ _ _ body => counting_declarations body.declarations_eq_nil
  | .loop _ _ _ _ body => body.declarations_eq_nil
  | .ifThen _ _ _ _ yes => yes.declarations_eq_nil
  | .ifElse _ _ _ _ yes _ no => List.append_eq_nil_iff.2 ⟨yes.declarations_eq_nil, no.declarations_eq_nil⟩
  | .expression _ _ | .print _ _ _ | .ret _ _ _ | .block _ _ _ => rfl

end Grammar

namespace Run

/-! ### Running the loop as it reads -/

namespace Counting

/-- The value of the condition. A missing one is true. -/
def test (o : Options) (n : Nat) (scope : ScopeId) : Option Expr → Run Value
  | some condition => eval o n scope condition
  | none => return .bool true

/-- One round: the body and, if it ends normally, the increment. -/
def round (o : Options) (n : Nat) (scope : ScopeId) (body : Stmt) : Option Expr → Run Completion
  | some increment => do
    match ← exec o n scope body with
    | .normal => do
      let _ ← eval o n scope increment
      return .normal
    | .returned keyword v => return .returned keyword v
  | none => exec o n scope body

/-- Rounds as long as the condition holds and no round returns. -/
def rounds (o : Options) : Nat → ScopeId → Option Expr → Option Expr → Stmt → Run Completion
  | 0, _, _, _, _ => exhausted
  | n + 1, scope, condition, increment, body => do
    let c ← test o n scope condition
    if c.truthy then
      match ← round o n scope body increment with
      | .normal => rounds o n scope condition increment body
      | .returned keyword v => return .returned keyword v
    else return .normal

/-- The whole loop. An initial clause has a scope of its own, and all of the loop is in there. -/
def run (o : Options) (n : Nat) (scope : ScopeId) (condition increment : Option Expr) (body : Stmt) :
    Option Stmt → Run Completion
  | some first => do
    let inner ← make (·.newScope (some scope))
    let _ ← exec o n inner first
    rounds o n inner condition increment body
  | none => rounds o n scope condition increment body

end Counting

/-! ### Blocks of two statements -/

variable {p q : Prop} {w : Layout} {i j : ScopeId} {A : Layout → α → α → Prop} {o : Options} {n N : Nat}

/-- The second of two computations may give up before the first, and does. -/
theorem spreads_exhausted_second (hq : q) (m : Run α) : Spreads p q w A m exhausted :=
  fun _ _ _ _ _ => .second hq

theorem spreads_exec_zero (hq : q) (m : Run Completion) (st : Stmt) :
    Spreads p q w Layout.Same m (exec o 0 j st) := by
  simp only [exec]
  exact spreads_exhausted_second hq m

/-- A blank scope that only the second of two computations makes. -/
theorem Spreads.blank_second {m : Run α} {f : ScopeId → Run α} (hs : w.Sees i j)
    (hf : ∀ (u : Layout) k, w <+: u → u.Sees i k → Spreads p q u A m (f k)) :
    Spreads p q w A m (make (·.newScope (some j)) >>= f) := by
  intro u hu s s' h
  have hlonger := Layout.isPrefix_append u (.blank i)
  have hblank : (u ++ [.blank i] : Layout).Sees i s'.store.scopes.size :=
    .inr (h.store.size ▸ Layout.getElem?_append_self u _)
  have hstate : s.Spread (u ++ [.blank i]) { s' with store := (s'.store.newScope (some j)).2 } :=
    ⟨h.store.newBlank (hs.mono hu), h.frames, h.output⟩
  exact (hf _ _ (hu.trans hlonger) hblank _ (List.prefix_refl _) _ _ hstate).of_longer hlonger

/-- The last statement in a row ends as the row does. -/
theorem execAll_single (o : Options) (n : Nat) (scope : ScopeId) (st : Stmt) :
    execAll o (n + 2) scope [st] = exec o (n + 1) scope st := by
  funext s
  simp only [execAll, run_bind]
  cases exec o (n + 1) scope st s with
  | done c t => cases c <;> rfl
  | _ => rfl

/-- Two statements in a row. With an allowance of less than three the second one is not reached. -/
theorem spreads_execAll_pair {m rest : Run Completion} {first last : Stmt} (hq : N < 3 → q)
    (hfirst : ∀ M, N = M + 1 → Spreads p q w Layout.Same m (exec o M j first))
    (hlast : ∀ M u, w <+: u → N = M + 2 → Spreads p q u Layout.Same rest (exec o M j last)) :
    Spreads p q w Layout.Same
      (do match ← m with
          | .normal => rest
          | .returned keyword v => return .returned keyword v)
      (execAll o N j [first, last]) := by
  cases N with
  | zero =>
    simp only [execAll]
    exact spreads_exhausted_second (hq (by omega)) _
  | succ M =>
    rw [execAll]
    refine (hfirst M rfl).bind_same fun u hu c => ?_
    cases c with
    | returned keyword v => exact spreads_pure _
    | normal =>
      cases M with
      | zero =>
        simp only [execAll]
        exact spreads_exhausted_second (hq (by omega)) _
      | succ M =>
        cases M with
        | zero =>
          simp only [execAll, exec]
          exact spreads_exhausted_second (hq (by omega)) _
        | succ M =>
          simp only [execAll_single]
          exact hlast (M + 1) u hu rfl

/-! ### Both ways of running the loop -/

variable {condition increment : Option Expr} {body : Stmt}

theorem test_spreads (hs : w.Sees i j) (hp : n < N → p) (hq : N < n + 1 → q) :
    Spreads p q w Layout.Same (Counting.test o n i condition)
      (eval o N j (condition.getD (.literal (.bool true)))) := by
  cases condition with
  | some e => exact eval_spreads_any o hp (fun h => hq (Nat.lt_succ_of_lt h)) hs e
  | none =>
    cases N with
    | zero =>
      simp only [eval]
      exact spreads_exhausted_second (hq (Nat.succ_pos n)) _
    | succ N =>
      simp only [Option.getD_none, eval]
      exact spreads_pure _

theorem round_spreads (h : w.Twin i j) (hbody : body.declarations = []) (hp : n < N → p)
    (hq : N < n + 4 → q) :
    Spreads p q w Layout.Same (Counting.round o n i body increment)
      (exec o N j (increment.elim body fun e => .block [body, .expression e])) := by
  cases increment with
  | none => exact exec_spreads_any o hp (fun h => hq (by omega)) (.inl h)
  | some e =>
    cases N with
    | zero => exact spreads_exec_zero (hq (by omega)) _ _
    | succ N =>
      simp only [Option.elim_some, exec]
      refine Spreads.blank_second h.sees fun u k hu hk => ?_
      refine spreads_execAll_pair (fun _ => hq (by omega)) ?_ ?_
      · -- the tree executes the body in the blank scope, where nothing gets declared
        rintro M rfl
        exact exec_spreads_any o (fun h => hp (by omega)) (fun h => hq (by omega)) (.inr ⟨hk, hbody⟩)
      · rintro M v hv rfl
        cases M with
        | zero => exact spreads_exec_zero (hq (by omega)) _ _
        | succ M =>
          have he : Spreads p q v Layout.Same (eval o n i e) (eval o M k e) :=
            eval_spreads_any o (fun h => hp (by omega)) (fun h => hq (by omega)) (hk.mono hv) e
          simp only [exec]
          exact he.bind_same fun _ _ _ => spreads_pure _

theorem rounds_spreads (h : w.Twin i j) (hbody : body.declarations = []) (hp : n < N → p)
    (hq : N < n + 4 → q) :
    Spreads p q w Layout.Same (Counting.rounds o n i condition increment body)
      (execLoop o N j (condition.getD (.literal (.bool true)))
        (increment.elim body fun e => .block [body, .expression e])) := by
  induction n generalizing N w with
  | zero =>
    cases N with
    | zero =>
      simp only [Counting.rounds, execLoop]
      exact spreads_exhausted
    | succ N => exact fun _ _ _ _ _ => .first (hp (Nat.succ_pos N))
  | succ n ih =>
    cases N with
    | zero =>
      simp only [execLoop]
      exact spreads_exhausted_second (hq (by omega)) _
    | succ N =>
      simp only [Counting.rounds, execLoop]
      refine (test_spreads h.sees (fun h => hp (by omega)) fun h => hq (by omega)).bind_same
        fun u hu c => ?_
      split
      · refine (round_spreads (h.mono hu) hbody (fun h => hp (by omega)) fun h => hq (by omega)).bind_same
          fun v hv c => ?_
        cases c with
        | normal => exact ih ((h.mono hu).mono hv) (fun h => hp (by omega)) fun h => hq (by omega)
        | returned keyword v => exact spreads_pure _
      · exact spreads_pure _

/-- An initial clause ends normally, if it ends without an error. -/
theorem eq_normal_of_initial {first : Stmt} (h : Grammar.Initial ts (some first) es) {scope : ScopeId}
    (hrun : exec o n scope first s = .done c t) : c = .normal := by
  cases n with
  | zero =>
    simp only [exec] at hrun
    cases hrun
  | succ n =>
    cases h with
    | varDecl hkw decl =>
      cases decl <;> simp only [exec, run_bind] at hrun <;> split at hrun <;> cases hrun <;> rfl
    | expression value hsemi =>
      simp only [exec, run_bind] at hrun
      split at hrun <;> cases hrun
      rfl

/-- So what comes after it need not ask how it ended. -/
theorem exec_initial {first : Stmt} (h : Grammar.Initial ts (some first) es) (scope : ScopeId)
    (rest : Run Completion) :
    (do let _ ← exec o n scope first; rest) = (do
      match ← exec o n scope first with
      | .normal => rest
      | .returned keyword v => return .returned keyword v) := by
  funext s
  rw [run_bind, run_bind]
  cases hrun : exec o n scope first s with
  | done c t =>
    obtain rfl := eq_normal_of_initial h hrun
    rfl
  | _ => rfl

/-- The loop as it reads gives up before the tree only if it has the smaller allowance, and the tree before
the loop only if its allowance is not larger by enough for the steps between blocks and what is in them. -/
theorem counting_spreads {initial : Option Stmt} (hinitial : Grammar.Initial ts initial es)
    (h : w.Twin i j) (hbody : body.declarations = []) (hp : n < N → p) (hq : N < n + 8 → q) :
    Spreads p q w Layout.Same (Counting.run o n i condition increment body initial)
      (exec o N j (Grammar.counting initial condition increment body)) := by
  cases initial with
  | none =>
    cases N with
    | zero => exact spreads_exec_zero (hq (by omega)) _ _
    | succ N =>
      simp only [Grammar.counting, Option.elim_none, exec]
      exact rounds_spreads h hbody (fun h => hp (by omega)) fun h => hq (by omega)
  | some first =>
    cases N with
    | zero => exact spreads_exec_zero (hq (by omega)) _ _
    | succ N =>
      simp only [Grammar.counting, Option.elim_some, Counting.run, exec, exec_initial hinitial]
      refine (spreads_newScope h.sees).bind fun u hu k k' hk => ?_
      refine spreads_execAll_pair (fun _ => hq (by omega)) ?_ ?_
      · rintro M rfl
        exact exec_spreads_any o (fun h => hp (by omega)) (fun h => hq (by omega)) (.inl hk)
      · rintro M v hv rfl
        cases M with
        | zero => exact spreads_exec_zero (hq (by omega)) _ _
        | succ M =>
          simp only [exec]
          exact rounds_spreads (hk.mono hv) hbody (fun h => hp (by omega)) fun h => hq (by omega)

end Run

/-- If neither of two computations gives up where it may, they end in the same way. -/
theorem Outcome.Spread.strict {p q : Prop} {w : Layout} {A : Layout → α → α → Prop} {r r' : Outcome α}
    (h : r.Spread p q w A r') (hp : p → r ≠ .exhausted) (hq : q → r' ≠ .exhausted) :
    r.Spread False False w A r' := by
  cases h with
  | done hu result state => exact .done hu result state
  | failed hu state => exact .failed hu state
  | exhausted => exact .exhausted
  | first h => exact absurd rfl (hp h)
  | second h => exact absurd rfl (hq h)

theorem Store.Founded.scoped {σ : Store} (h : σ.Founded) : σ.Scoped where
  functions hf := (h.functions hf).scope
  methods hK hm := ((h.classes hK).methods hm).scope

end LoxLang
