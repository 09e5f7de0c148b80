import LoxLang.Proofs.Placement.Nodes
import LoxLang.Proofs.Placement.Walk

/-!
# Which constructs are misplaced

Whether a construct is misplaced depends on the nodes around it alone: a `return` in no function or
method, `this` in no class, `super` in no class or with an innermost class that has no superclass, and a
class that bears the name of its superclass. The check reports each of these once and nothing else, and a
walk that keeps what surrounds it in a state leaves that state as it found it.

Main statement: `placementErrors_exact`.
-/

namespace LoxLang

namespace Placement

open Node (surroundings)

/-- No function or method is among these nodes. -/
def OutsideFunctions (around : List Node) : Prop := ∀ f, Node.function f ∉ around

/-- No class is among these nodes. -/
def OutsideClasses (around : List Node) : Prop :=
  ∀ name superclass methods, Node.stmt (.classDecl name superclass methods) ∉ around

/-- The offences of a node inside of others, the innermost of them first. -/
inductive Offence (around : List Node) : Node → PlacementError → Prop where
  | ret (houtside : OutsideFunctions around) :
      Offence around (.stmt (.ret keyword value)) ⟨keyword, .returnOutsideFunction⟩
  | this (houtside : OutsideClasses around) :
      Offence around (.expr (.this keyword)) ⟨keyword, .thisOutsideClass⟩
  | superOutside (houtside : OutsideClasses around) :
      Offence around (.expr (.super keyword method)) ⟨keyword, .superOutsideClass⟩
  | superPlain (hinner : OutsideClasses within)
      (hplain : around = within ++ .stmt (.classDecl name none methods) :: outer) :
      Offence around (.expr (.super keyword method)) ⟨keyword, .superWithoutSuperclass⟩
  | inherits (hname : superclass.lexeme = name.lexeme) :
      Offence around (.stmt (.classDecl name (some superclass) methods)) ⟨superclass, .inheritsFromItself⟩

/-! ### What the check knows of the surroundings -/

theorem enter_inFunction (node : Node) :
    (∃ f, node = .function f) ∨
      (∀ f, node ≠ .function f) ∧ ∀ context, (node.enter context).inFunction = context.inFunction := by
  cases node with
  | function f => exact .inl ⟨f, rfl⟩
  | stmt s => cases s <;> exact .inr ⟨by simp, fun _ => rfl⟩
  | _ => exact .inr ⟨by simp, fun _ => rfl⟩

theorem enter_inClass (node : Node) :
    (∃ name superclass methods, node = .stmt (.classDecl name superclass methods)) ∨
      (∀ name superclass methods, node ≠ .stmt (.classDecl name superclass methods)) ∧
        ∀ context, (node.enter context).inClass = context.inClass := by
  cases node with
  | stmt s =>
    cases s with
    | classDecl name superclass methods => exact .inl ⟨name, superclass, methods, rfl⟩
    | _ => exact .inr ⟨by simp, fun _ => rfl⟩
  | _ => exact .inr ⟨by simp, fun _ => rfl⟩

theorem outsideFunctions_cons {node : Node} {around : List Node} :
    OutsideFunctions (node :: around) ↔ (∀ f, node ≠ .function f) ∧ OutsideFunctions around := by
  simp only [OutsideFunctions, List.mem_cons, not_or, forall_and, ne_comm]

theorem outsideClasses_cons {node : Node} {around : List Node} :
    OutsideClasses (node :: around) ↔
      (∀ name superclass methods, node ≠ .stmt (.classDecl name superclass methods)) ∧
        OutsideClasses around := by
  simp only [OutsideClasses, List.mem_cons, not_or, forall_and, ne_comm]

theorem surroundings_inFunction (around : List Node) :
    (surroundings around).inFunction = false ↔ OutsideFunctions around := by
  induction around with
  | nil => simp [surroundings, OutsideFunctions]
  | cons node around ih =>
    rw [surroundings, List.foldr_cons, ← surroundings, outsideFunctions_cons]
    rcases enter_inFunction node with ⟨f, rfl⟩ | ⟨hne, hsame⟩
    · simp [Node.enter]
    · rw [hsame, ih]
      exact ⟨fun h => ⟨hne, h⟩, And.right⟩

theorem surroundings_outside (around : List Node) :
    (surroundings around).inClass = .outside ↔ OutsideClasses around := by
  induction around with
  | nil => simp [surroundings, OutsideClasses]
  | cons node around ih =>
    rw [surroundings, List.foldr_cons, ← surroundings, outsideClasses_cons]
    rcases enter_inClass node with ⟨name, superclass, methods, rfl⟩ | ⟨hne, hsame⟩
    · cases superclass <;> simp [Node.enter, ClassContext.ofSuperclass]
    · rw [hsame, ih]
      exact ⟨fun h => ⟨hne, h⟩, And.right⟩

theorem surroundings_plain (around : List Node) :
    (surroundings around).inClass = .plain ↔
      ∃ within name methods outer, OutsideClasses within ∧
        around = within ++ .stmt (.classDecl name none methods) :: outer := by
  induction around with
  | nil => simp [surroundings]
  | cons node around ih =>
    rw [surroundings, List.foldr_cons, ← surroundings]
    rcases enter_inClass node with ⟨name, superclass, methods, rfl⟩ | ⟨hne, hsame⟩
    · constructor
      · intro h
        cases superclass with
        | none => exact ⟨[], name, methods, around, by simp [OutsideClasses], rfl⟩
        | some _ => cases h
      · rintro ⟨_ | ⟨_, within⟩, name', methods', outer, hinner, heq⟩
        · cases heq
          rfl
        · cases heq
          exact absurd rfl ((outsideClasses_cons.1 hinner).1 name superclass methods)
    · rw [hsame, ih]
      constructor
      · rintro ⟨within, name, methods, outer, hinner, rfl⟩
        exact ⟨node :: within, name, methods, outer, outsideClasses_cons.2 ⟨hne, hinner⟩, rfl⟩
      · rintro ⟨_ | ⟨_, within⟩, name, methods, outer, hinner, heq⟩
        · cases heq
          exact absurd rfl (hne name none methods)
        · cases heq
          exact ⟨within, name, methods, outer, (outsideClasses_cons.1 hinner).2, rfl⟩

/-! ### The offences of a node itself -/

theorem mem_thisErrors {context : ClassContext} {keyword : Token} {e : PlacementError} :
    e ∈ thisErrors context keyword ↔ context = .outside ∧ e = ⟨keyword, .thisOutsideClass⟩ := by
  cases context <;> simp [thisErrors]

theorem mem_superErrors {context : ClassContext} {keyword : Token} {e : PlacementError} :
    e ∈ superErrors context keyword ↔
      context = .outside ∧ e = ⟨keyword, .superOutsideClass⟩ ∨
        context = .plain ∧ e = ⟨keyword, .superWithoutSuperclass⟩ := by
  cases context <;> simp [superErrors]

theorem mem_returnErrors {context : Context} {keyword : Token} {e : PlacementError} :
    e ∈ returnErrors context keyword ↔
      context.inFunction = false ∧ e = ⟨keyword, .returnOutsideFunction⟩ := by
  cases h : context.inFunction <;> simp [returnErrors, h]

theorem mem_inheritanceErrors {name : Token} {superclass : Option Token} {e : PlacementError} :
    e ∈ inheritanceErrors name superclass ↔
      ∃ parent, superclass = some parent ∧ parent.lexeme = name.lexeme ∧
        e = ⟨parent, .inheritsFromItself⟩ := by
  cases superclass with
  | none => simp [inheritanceErrors]
  | some parent => by_cases h : parent.lexeme = name.lexeme <;> simp [inheritanceErrors, h]

/-- What the check makes of the surroundings decides which nodes offend. -/
theorem mem_own_iff (around : List Node) (node : Node) (e : PlacementError) :
    e ∈ node.own (surroundings around) ↔ Offence around node e := by
  constructor
  · intro h
    unfold Node.own at h
    split at h
    · obtain ⟨hcontext, rfl⟩ := mem_thisErrors.1 h
      exact .this ((surroundings_outside around).1 hcontext)
    · rcases mem_superErrors.1 h with ⟨hcontext, rfl⟩ | ⟨hcontext, rfl⟩
      · exact .superOutside ((surroundings_outside around).1 hcontext)
      · obtain ⟨within, name, methods, outer, hinner, hplain⟩ := (surroundings_plain around).1 hcontext
        exact .superPlain hinner hplain
    · obtain ⟨hcontext, rfl⟩ := mem_returnErrors.1 h
      exact .ret ((surroundings_inFunction around).1 hcontext)
    · obtain ⟨parent, rfl, hname, rfl⟩ := mem_inheritanceErrors.1 h
      exact .inherits hname
    · cases h
  · intro h
    cases h with
    | ret houtside => exact mem_returnErrors.2 ⟨(surroundings_inFunction around).2 houtside, rfl⟩
    | this houtside => exact mem_thisErrors.2 ⟨(surroundings_outside around).2 houtside, rfl⟩
    | superOutside houtside => exact mem_superErrors.2 (.inl ⟨(surroundings_outside around).2 houtside, rfl⟩)
    | superPlain hinner hplain =>
      have hcontext := (surroundings_plain around).2 ⟨_, _, _, _, hinner, hplain⟩
      exact mem_superErrors.2 (.inr ⟨hcontext, rfl⟩)
    | inherits hname => exact mem_inheritanceErrors.2 ⟨_, rfl, hname, rfl⟩

end Placement

open Placement

/-- The check reports exactly the nodes that offend: its errors belong to the paths of these nodes, to
each path one. A walk that keeps what surrounds a node in a state makes the same errors, and after any
statement and any expression it is in the surroundings in which it was before. -/
theorem placementErrors_exact :
    (∀ program : List Stmt, ∃ found : List (List Nat × PlacementError),
      found.map Prod.snd = placementErrors program ∧ (found.map Prod.fst).Nodup ∧
        ∀ path e, (path, e) ∈ found ↔ ∃ around node,
          (Node.program program).at? [] path = some (around, node) ∧ Offence around node e) ∧
      (∀ program : List Stmt, Walk.analyze program = placementErrors program) ∧
      (∀ (s : Stmt) (w : Walk),
        (w.visitStmt s).function = w.function ∧ (w.visitStmt s).inClass = w.inClass) ∧
      (∀ (e : Expr) (w : Walk),
        (w.visitExpr e).function = w.function ∧ (w.visitExpr e).inClass = w.inClass) := by
  refine ⟨?_, Walk.analyze_eq, ?_, ?_⟩
  · intro program
    obtain ⟨found, hfound⟩ := (Node.program program).exists_found []
    refine ⟨found, hfound.errors, hfound.nodup, ?_⟩
    intro path e
    simp only [hfound.mem_iff, Node.OffendsAt, mem_own_iff]
  · intro s w
    rw [Walk.visitStmt_eq]
    exact ⟨rfl, rfl⟩
  · intro e w
    rw [Walk.visitExpr_eq]
    exact ⟨rfl, rfl⟩

end LoxLang
