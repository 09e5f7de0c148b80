import LoxLang.Yaml.Scalar

/-!
# Nodes of a document

A document is a tree of scalars, sequences and mappings, in which an alias stands for a node with a name. A
node knows its line and its tag; a plain scalar without a tag gets the one that it looks like. An
alias inside the very node that it names is told apart, and then stands for that node without what it
holds.
-/

namespace LoxLang.Yaml

/-- A node. Lines count from one. -/
inductive Node where
  | scalar (line : Nat) (tag text : String)
  | sequence (line : Nat) (tag : String) (items : List Node)
  | mapping (line : Nat) (tag : String) (entries : List (Node × Node))
  | alias (line : Nat) (name : String) (inside : Bool) (target : Node)
  deriving Inhabited

namespace Node

/-- A scalar that is not written. -/
def absent (line : Nat) : Node := .scalar line Tag.null ""

/-- The node without what it holds. -/
def shell : Node → Node
  | .sequence line tag _ => .sequence line tag []
  | .mapping line tag _ => .mapping line tag []
  | node => node

/-- The line of a node. -/
def line : Node → Nat
  | .scalar line _ _ => line
  | .sequence line _ _ => line
  | .mapping line _ _ => line
  | .alias line _ _ _ => line

/-- What is compared of two keys: their sort, and the text of a scalar or the name of an alias. -/
def keyText : Node → Nat × String
  | .scalar _ _ text => (0, text)
  | .sequence _ _ _ => (1, "")
  | .mapping _ _ _ => (2, "")
  | .alias _ name _ _ => (3, name)

/-- Whether a key asks for other mappings to be merged into its own. -/
def isMerge : Node → Bool
  | .scalar _ tag text => tag == Tag.merge && text == "<<"
  | _ => false

end Node

end LoxLang.Yaml
