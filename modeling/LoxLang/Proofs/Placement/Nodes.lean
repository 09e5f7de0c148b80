import Mathlib.Data.List.Nodup
import LoxLang.Placement

/-!
# The nodes of a program

Every part of a program stands at a path from its root, inside of other nodes. The offences in a node are
its own, if what surrounds it makes it one, and those in its children, which have the node itself around
them as well. So they correspond to the paths of the nodes that offend, each to one.

Main statements: `Node.errors_eq` and `Node.exists_found`.
-/

namespace LoxLang.Placement

/-- A node of a program: the program itself, or a statement, a function or method, or an expression in it. -/
inductive Node where
  | program (statements : List Stmt)
  | stmt (statement : Stmt)
  | function (declaration : FunctionDecl)
  | expr (expression : Expr)

namespace Node

/-- The nodes directly inside of an expression, in the order of evaluation but for the value of a field, which
comes before its object. -/
def ofExpr : Expr → List Node
  | .literal _ | .name _ | .this _ | .super _ _ => []
  | .grouping e | .assign _ e | .unary _ e | .get e _ => [expr e]
  | .binary l _ r | .logical l _ r => [expr l, expr r]
  | .call f _ args => expr f :: args.map expr
  | .set e _ v => [expr v, expr e]

/-- The nodes directly inside of a statement. -/
def ofStmt : Stmt → List Node
  | .expression e | .print e => [expr e]
  | .var _ e | .ret _ e => e.toList.map expr
  | .block body => body.map stmt
  | .ifThen c yes => [expr c, stmt yes]
  | .ifElse c yes no => [expr c, stmt yes, stmt no]
  | .loop c body => [expr c, stmt body]
  | .function f => [function f]
  | .classDecl _ _ methods => methods.map function

/-- The nodes directly inside of a node. -/
def children : Node → List Node
  | program ss => ss.map stmt
  | stmt s => ofStmt s
  | function f => f.body.map stmt
  | expr e => ofExpr e

/-- The node at a path, and the nodes around it, from the innermost outwards. A path counts the children
at each node on the way. -/
def at? (around : List Node) (node : Node) : List Nat → Option (List Node × Node)
  | [] => some (around, node)
  | i :: path =>
    match node.children[i]? with
    | some child => at? (node :: around) child path
    | none => none

/-! ### Children are smaller -/

theorem sizeOf_le_of_mem_map {α : Type} [SizeOf α] {wrap : α → Node}
    (hwrap : ∀ a, sizeOf (wrap a) = 1 + sizeOf a) {as : List α} {child : Node} (h : child ∈ as.map wrap) :
    sizeOf child ≤ sizeOf as := by
  obtain ⟨a, ha, rfl⟩ := List.mem_map.1 h
  have hlt := List.sizeOf_lt_of_mem ha
  rw [hwrap]
  omega

theorem sizeOf_lt_ofExpr (e : Expr) : ∀ child ∈ ofExpr e, sizeOf child < sizeOf (expr e) := by
  cases e with
  | call f paren args =>
    intro child h
    rw [expr.sizeOf_spec, Expr.call.sizeOf_spec]
    rcases List.mem_cons.1 h with rfl | h
    · rw [expr.sizeOf_spec]
      omega
    · have hle := sizeOf_le_of_mem_map expr.sizeOf_spec h
      omega
  | _ =>
    simp [ofExpr]
    try omega

theorem sizeOf_lt_ofStmt (s : Stmt) : ∀ child ∈ ofStmt s, sizeOf child < sizeOf (stmt s) := by
  cases s with
  | block body =>
    intro child h
    have hle := sizeOf_le_of_mem_map stmt.sizeOf_spec h
    rw [stmt.sizeOf_spec, Stmt.block.sizeOf_spec]
    omega
  | classDecl name superclass methods =>
    intro child h
    have hle := sizeOf_le_of_mem_map function.sizeOf_spec h
    rw [stmt.sizeOf_spec, Stmt.classDecl.sizeOf_spec]
    omega
  | var _ e | ret _ e =>
    cases e <;> simp [ofStmt]
    omega
  | _ =>
    simp [ofStmt]
    try omega

theorem sizeOf_lt (node : Node) : ∀ child ∈ node.children, sizeOf child < sizeOf node := by
  cases node with
  | program ss =>
    intro child h
    have hle := sizeOf_le_of_mem_map stmt.sizeOf_spec h
    rw [program.sizeOf_spec]
    omega
  | stmt s => exact sizeOf_lt_ofStmt s
  | function f =>
    intro child h
    obtain ⟨name, params, body⟩ := f
    have hle : sizeOf child ≤ sizeOf body := sizeOf_le_of_mem_map stmt.sizeOf_spec h
    rw [function.sizeOf_spec, FunctionDecl.mk.sizeOf_spec]
    omega
  | expr e => exact sizeOf_lt_ofExpr e

/-- What holds of a node if it holds of its children holds of every node. -/
@[elab_as_elim]
theorem induct {motive : Node → Prop}
    (node : ∀ n : Node, (∀ child ∈ n.children, motive child) → motive n) (n : Node) : motive n :=
  node n fun child h =>
    have : sizeOf child < sizeOf n := sizeOf_lt n child h
    induct node child
termination_by sizeOf n

/-! ### Offences by nodes -/

/-- What a node makes of the surroundings for its children. -/
def enter (context : Context) : Node → Context
  | function _ => { context with inFunction := true }
  | stmt (.classDecl _ superclass _) => { context with inClass := .ofSuperclass superclass }
  | _ => context

/-- What the check knows of the nodes around a node. -/
def surroundings (around : List Node) : Context := around.foldr (fun node context => node.enter context) {}

/-- The offences of a node itself. -/
def own (context : Context) : Node → List PlacementError
  | expr (.this keyword) => thisErrors context.inClass keyword
  | expr (.super keyword _) => superErrors context.inClass keyword
  | stmt (.ret keyword _) => returnErrors context keyword
  | stmt (.classDecl name superclass _) => inheritanceErrors name superclass
  | _ => []

/-- The offences in a node. -/
def errors (context : Context) : Node → List PlacementError
  | program ss => stmtListErrors context ss
  | stmt s => stmtErrors context s
  | function f => functionErrors context f
  | expr e => exprErrors context.inClass e

theorem eq_flatMap_map {α : Type} {context : Context} {wrap : α → Node}
    {listErrors : List α → List PlacementError} (hnil : listErrors [] = [])
    (hcons : ∀ a as, listErrors (a :: as) = (wrap a).errors context ++ listErrors as) (as : List α) :
    listErrors as = (as.map wrap).flatMap (errors context) := by
  induction as with
  | nil => exact hnil
  | cons a as ih => rw [hcons, ih, List.map_cons, List.flatMap_cons]

theorem exprListErrors_eq (context : Context) (es : List Expr) :
    exprListErrors context.inClass es = (es.map expr).flatMap (errors context) :=
  eq_flatMap_map rfl (fun _ _ => rfl) es

theorem optionErrors_eq (context : Context) (e : Option Expr) :
    optionErrors context.inClass e = (e.toList.map expr).flatMap (errors context) := by
  cases e <;> simp [optionErrors, errors]

theorem stmtListErrors_eq (context : Context) (ss : List Stmt) :
    stmtListErrors context ss = (ss.map stmt).flatMap (errors context) :=
  eq_flatMap_map rfl (fun _ _ => rfl) ss

theorem functionListErrors_eq (context : Context) (fs : List FunctionDecl) :
    functionListErrors context fs = (fs.map function).flatMap (errors context) :=
  eq_flatMap_map rfl (fun _ _ => rfl) fs

theorem exprErrors_eq (context : Context) (e : Expr) :
    exprErrors context.inClass e = (expr e).own context ++ (ofExpr e).flatMap (errors context) := by
  cases e with
  | call f paren args =>
    rw [exprErrors, exprListErrors_eq, ofExpr, List.flatMap_cons]
    rfl
  | _ => simp [exprErrors, ofExpr, own, errors]

theorem stmtErrors_eq (context : Context) (s : Stmt) :
    stmtErrors context s =
      (stmt s).own context ++ (ofStmt s).flatMap (errors ((stmt s).enter context)) := by
  cases s with
  | var name e => exact optionErrors_eq context e
  | block body => exact stmtListErrors_eq context body
  | ret keyword e =>
    rw [stmtErrors, optionErrors_eq]
    rfl
  | classDecl name superclass methods =>
    rw [stmtErrors, functionListErrors_eq]
    rfl
  | _ => simp [stmtErrors, ofStmt, own, enter, errors]

/-- The offences in a node are its own and then those in its children, in the surroundings that it makes. -/
theorem errors_eq (context : Context) (node : Node) :
    node.errors context = node.own context ++ node.children.flatMap (errors (node.enter context)) := by
  cases node with
  | program ss => exact stmtListErrors_eq context ss
  | stmt s => exact stmtErrors_eq context s
  | function f =>
    obtain ⟨name, params, body⟩ := f
    exact stmtListErrors_eq _ body
  | expr e => exact exprErrors_eq context e

theorem length_own_le (context : Context) (node : Node) : (node.own context).length ≤ 1 := by
  unfold own
  split
  · unfold thisErrors
    split <;> simp
  · unfold superErrors
    split <;> simp
  · unfold returnErrors
    split <;> simp
  · unfold inheritanceErrors
    repeat' split
    all_goals simp
  · simp

end Node

/-! ### Offences by paths -/

/-- Paths and offences, no path twice, of which the offences are those of a list, and which are related
exactly where some relation holds. -/
structure Finds (offends : List Nat → PlacementError → Prop) (errors : List PlacementError)
    (found : List (List Nat × PlacementError)) : Prop where
  errors : found.map Prod.snd = errors
  nodup : (found.map Prod.fst).Nodup
  mem_iff : ∀ path e, (path, e) ∈ found ↔ offends path e

namespace Finds

variable {R R' : List Nat → PlacementError → Prop} {es es' : List PlacementError}
  {found found' : List (List Nat × PlacementError)}

theorem nil (h : ∀ path e, ¬ R path e) : Finds R [] [] :=
  ⟨rfl, List.nodup_nil, fun path e => by simpa using h path e⟩

theorem congr (h : Finds R es found) (hR : ∀ path e, R path e ↔ R' path e) : Finds R' es found :=
  ⟨h.errors, h.nodup, fun path e => (h.mem_iff path e).trans (hR path e)⟩

/-- Offences at paths and at others. -/
theorem append (h : Finds R es found) (h' : Finds R' es' found')
    (hdisjoint : ∀ path e e', R path e → ¬ R' path e') :
    Finds (fun path e => R path e ∨ R' path e) (es ++ es') (found ++ found') := by
  refine ⟨?_, ?_, ?_⟩
  · rw [List.map_append, h.errors, h'.errors]
  · rw [List.map_append]
    refine h.nodup.append h'.nodup ?_
    intro path hpath hpath'
    obtain ⟨⟨_, e⟩, hmem, rfl⟩ := List.mem_map.1 hpath
    obtain ⟨⟨_, e'⟩, hmem', heq⟩ := List.mem_map.1 hpath'
    cases heq
    exact hdisjoint _ e e' ((h.mem_iff _ e).1 hmem) ((h'.mem_iff _ e').1 hmem')
  · intro path e
    rw [List.mem_append, h.mem_iff, h'.mem_iff]

/-- One offence at most, where one is. -/
theorem here (hlen : es.length ≤ 1) :
    Finds (fun path e => path = [] ∧ e ∈ es) es (es.map fun e => ([], e)) := by
  rcases es with _ | ⟨e, _ | ⟨e', es⟩⟩
  · exact .nil (by simp)
  · exact ⟨rfl, List.nodup_singleton _, by simp⟩
  · simp at hlen

/-- One step further down. -/
theorem below (h : Finds R es found) (i : Nat) :
    Finds (fun path e => ∃ rest, path = i :: rest ∧ R rest e) es
      (found.map fun p => (i :: p.1, p.2)) := by
  refine ⟨?_, ?_, ?_⟩
  · rw [List.map_map, ← h.errors]
    rfl
  · have hcons : (found.map fun p => (i :: p.1, p.2)).map Prod.fst =
        (found.map Prod.fst).map (i :: ·) := by
      simp
    rw [hcons]
    exact h.nodup.map (fun _ _ => List.tail_eq_of_cons_eq)
  · intro path e
    constructor
    · intro hmem
      obtain ⟨⟨rest, _⟩, hrest, heq⟩ := List.mem_map.1 hmem
      cases heq
      exact ⟨rest, rfl, (h.mem_iff rest _).1 hrest⟩
    · rintro ⟨rest, rfl, hR⟩
      exact List.mem_map.2 ⟨(rest, e), (h.mem_iff rest e).2 hR, rfl⟩

/-- What is found in each of some nodes, at paths that count on from some number. -/
theorem of_children {R : Node → List Nat → PlacementError → Prop} {f : Node → List PlacementError}
    {nodes : List Node} (h : ∀ node ∈ nodes, ∃ found, Finds (R node) (f node) found) (k : Nat) :
    ∃ found,
      Finds (fun path e => ∃ i rest node, path = (k + i) :: rest ∧ nodes[i]? = some node ∧ R node rest e)
        (nodes.flatMap f) found := by
  induction nodes generalizing k with
  | nil => exact ⟨[], .nil (by simp)⟩
  | cons node nodes ih =>
    obtain ⟨here, hhere⟩ := h node List.mem_cons_self
    obtain ⟨there, hthere⟩ := ih (fun node hnode => h node (List.mem_cons_of_mem _ hnode)) (k + 1)
    rw [List.flatMap_cons]
    refine ⟨_, ((hhere.below k).append hthere ?_).congr ?_⟩
    · rintro _ e e' ⟨rest, rfl, -⟩ ⟨i, rest', _, heq, -⟩
      have hhead := List.head_eq_of_cons_eq heq
      omega
    · intro path e
      constructor
      · rintro (⟨rest, rfl, hR⟩ | ⟨i, rest, node', rfl, hnode, hR⟩)
        · exact ⟨0, rest, node, rfl, rfl, hR⟩
        · exact ⟨i + 1, rest, node', by rw [Nat.add_assoc, Nat.add_comm 1], hnode, hR⟩
      · rintro ⟨i, rest, node', rfl, hnode, hR⟩
        cases i with
        | zero =>
          cases hnode
          exact .inl ⟨rest, rfl, hR⟩
        | succ i => exact .inr ⟨i, rest, node', by rw [Nat.add_assoc, Nat.add_comm 1], hnode, hR⟩

end Finds

/-- The offence of the node at a path, if it is one. -/
def Node.OffendsAt (around : List Node) (node : Node) (path : List Nat) (e : PlacementError) : Prop :=
  ∃ around' inner, node.at? around path = some (around', inner) ∧ e ∈ inner.own (surroundings around')

theorem Node.offendsAt_iff (node : Node) (around : List Node) (path : List Nat) (e : PlacementError) :
    node.OffendsAt around path e ↔
      (path = [] ∧ e ∈ node.own (surroundings around)) ∨
        ∃ i rest child, path = (0 + i) :: rest ∧ node.children[i]? = some child ∧
          child.OffendsAt (node :: around) rest e := by
  cases path with
  | nil => simp [OffendsAt, at?]
  | cons i path =>
    cases hchild : node.children[i]? with
    | none => simp [OffendsAt, at?, hchild]
    | some child => simp [OffendsAt, at?, hchild]

/-- The offences in a node correspond to the paths of those nodes in it that offend. -/
theorem Node.exists_found (node : Node) (around : List Node) :
    ∃ found, Finds (node.OffendsAt around) (node.errors (surroundings around)) found := by
  induction node using Node.induct generalizing around with
  | node node ih =>
    obtain ⟨there, hthere⟩ := Finds.of_children (fun child hchild => ih child hchild (node :: around)) 0
    have hhere := Finds.here (node.length_own_le (surroundings around))
    have hall := hhere.append hthere (by rintro _ _ _ ⟨rfl, -⟩; simp)
    rw [errors_eq]
    exact ⟨_, hall.congr fun path e => (node.offendsAt_iff around path e).symm⟩

end LoxLang.Placement
