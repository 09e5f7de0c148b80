import LoxLang.Yaml.Character
import LoxLang.Yaml.Node
import LoxLang.Yaml.Scan

/-!
# Parsing a document

The lexemes of a text become the node of its first document, or nothing if the text holds none. What comes
after that document is of no interest, but a few lexemes beyond each that is read have to be there: a
fault of scanning within `lookahead` of the place counts.
-/

namespace LoxLang.Yaml

/-- How many lexemes have to be there from each that is looked at. -/
def lookahead : Nat := 3

/-- A name and the node that has it, with a number that tells nodes of one name apart. -/
structure Anchor where
  name : String
  number : Nat
  isOpen : Bool
  node : Node

/-- A parse under way: the place among the lexemes, the names that have come up, the latest first, and
what handles stand for. -/
structure ParseState where
  scanned : Scanned
  place : Nat := 0
  anchors : List Anchor := []
  handles : List (String × String) := []

/-- The handles that need no directive. -/
def usualHandles : List (String × String) := [("!", "!"), ("!!", Tag.longForm)]

/-- What comes before the content of a node. -/
structure Properties where
  line : Nat
  anchor : Option String := none
  tag : Option String := none

/-- A parser of something. -/
abbrev Parser (α : Type) := ParseState → Except Fault (α × ParseState)

namespace ParseState

/-- The fault of scanning, if it is within reach of the place. -/
def faultAhead? (s : ParseState) : Option Fault :=
  if s.scanned.lexemes.size < s.place + lookahead || s.scanned.pending.contains s.place then
    s.scanned.fault
  else none

/-- The fault of a lexeme here that had to be a key. -/
def owedHere? (s : ParseState) : Option Fault :=
  (s.scanned.owed.find? (·.number == s.place)).map fun key => .ofText .noColon key.mark key.mark

/-- The lexeme at the place of the parse. -/
def peek (s : ParseState) : Except Fault Lexeme :=
  match s.faultAhead?, s.owedHere? with
  | some fault, _ => .error fault
  | none, some fault => .error fault
  | none, none => .ok (s.scanned.lexemes[s.place]?.getD ⟨.streamEnd, 0⟩)

/-- The place after the next lexeme. -/
def skip (s : ParseState) : ParseState := { s with place := s.place + 1 }

/-- The latest node with a name. -/
def anchor? (s : ParseState) (name : String) : Option Anchor := s.anchors.find? (·.name == name)

/-- Gives a node a name while it is being read. -/
def openAnchor (s : ParseState) (name : Option String) (node : Node) : ParseState :=
  match name with
  | some name => { s with anchors := ⟨name, s.place, true, node⟩ :: s.anchors }
  | none => s

/-- Completes the node that got its name at some place. -/
def closeAnchor (s : ParseState) (number : Nat) (node : Node) : ParseState :=
  { s with anchors := s.anchors.map fun a =>
      if a.number == number then { a with isOpen := false, node } else a }

/-- Gives a finished node a name. -/
def addAnchor (s : ParseState) (name : Option String) (node : Node) : ParseState :=
  match name with
  | some name => { s with anchors := ⟨name, s.place, false, node⟩ :: s.anchors }
  | none => s

end ParseState

/-- The tag that a handle and what follows it stand for. -/
def expandTag (s : ParseState) (line tagLine : Nat) (handle suffix : String) :
    Except Fault String :=
  if handle.isEmpty then .ok suffix
  else
    match (s.handles ++ usualHandles).lookup handle with
    | some expansion => .ok (expansion ++ suffix)
    | none => .error (.ofTokens .tagHandle line tagLine)

/-- A tag, unless it is the one that says nothing. -/
def tag? (tag : String) : Option String := if tag == "!" then none else some (Tag.short tag)

/-- Reads a tag and an anchor, in either order, before the content of a node that starts on a line. -/
def properties (s : ParseState) (line : Nat) : Except Fault (Properties × ParseState × Bool) := do
  match (← s.peek).sign with
  | .anchor name =>
    let s := s.skip
    let t ← s.peek
    match t.sign with
    | .tag handle suffix =>
      let tag ← expandTag s line t.line handle suffix
      return ({ line, anchor := some name, tag := tag? tag }, s.skip, true)
    | _ => return ({ line, anchor := some name }, s, true)
  | .tag handle suffix =>
    let tagLine := line
    let s := s.skip
    match (← s.peek).sign with
    | .anchor name =>
      let tag ← expandTag s line tagLine handle suffix
      let _ ← s.skip.peek
      return ({ line, anchor := some name, tag := tag? tag }, s.skip, true)
    | _ =>
      let tag ← expandTag s line tagLine handle suffix
      return ({ line, tag := tag? tag }, s, true)
  | _ => return ({ line }, s, false)

/-- A scalar with its properties. -/
def scalarNode (p : Properties) (text : String) (style : Style) : Node :=
  let looks := match style with
    | .plain => (resolve text).tag
    | .text => Tag.string
  .scalar (p.line + 1) (p.tag.getD looks) text

/-- An alias for the node with a name. -/
def aliasNode (s : ParseState) (line : Nat) (name : String) : Except Fault (Node × ParseState) :=
  match s.anchor? name with
  | some a => .ok (.alias (line + 1) name a.isOpen (if a.isOpen then a.node.shell else a.node), s.skip)
  | none => .error ⟨.unknownAnchor name, none⟩

/-- Whether a sign is one of those that stand where a node is left out. -/
def leavesOut (signs : List Sign) (t : Lexeme) : Bool := signs.contains t.sign

/-- A node, or an absent one where a sign shows that none is written. -/
def unlessLeftOut (signs : List Sign) (line : Nat) (node : Parser Node) : Parser Node := fun s => do
  if leavesOut signs (← s.peek) then return (.absent (line + 1), s) else node s

/-- Finishes a collection: gives it its name while its content is read by `content`, and for good after
that. -/
def collection (p : Properties) (make : List α → Node) (content : Parser (List α)) :
    Parser Node := fun s => do
  let number := s.place
  let (items, s) ← content ((s.openAnchor p.anchor (make [])).skip)
  let node := make items
  return (node, if p.anchor.isSome then s.closeAnchor number node else s)

mutual

/-- A node. One that is told by indentation may stand only outside brackets, and a sequence without an
indentation of its own only as the value of a key. -/
def node : Nat → Bool → Bool → Parser Node
  | 0, _, _, s => return (.absent 0, s)
  | n + 1, block, indentless, s => do
    let t ← s.peek
    match t.sign with
    | .alias name => aliasNode s t.line name
    | _ =>
      let (p, s, any) ← properties s t.line
      let t ← s.peek
      let sequence := Node.sequence (p.line + 1) (p.tag.getD Tag.sequence)
      let mapping := Node.mapping (p.line + 1) (p.tag.getD Tag.mapping)
      match t.sign, block with
      | .scalar text style, _ =>
        let made := scalarNode p text style
        return (made, (s.addAnchor p.anchor made).skip)
      | .openBracket, _ => collection p sequence (flowItems n t.line true) s
      | .openBrace, _ => collection p mapping (flowEntries n t.line true) s
      | .blockSequence, true => collection p sequence (blockItems n t.line) s
      | .blockMapping, true => collection p mapping (blockEntries n t.line) s
      | .blockEntry, true =>
        if indentless then
          let number := s.place
          let (items, s) ← indentlessItems n (s.openAnchor p.anchor (sequence []))
          let made := sequence items
          return (made, if p.anchor.isSome then s.closeAnchor number made else s)
        else if any then
          let made := Node.scalar (p.line + 1) (p.tag.getD Tag.null) ""
          return (made, s.addAnchor p.anchor made)
        else .error (.ofTokens .content p.line t.line)
      | _, _ =>
        if any then
          let made := Node.scalar (p.line + 1) (p.tag.getD Tag.null) ""
          return (made, s.addAnchor p.anchor made)
        else .error (.ofTokens .content p.line t.line)

/-- The items of a sequence that is told by indentation; it began on a line. -/
def blockItems : Nat → Nat → Parser (List Node)
  | 0, _, s => return ([], s)
  | n + 1, began, s => do
    let t ← s.peek
    match t.sign with
    | .blockEntry =>
      let (first, s) ← unlessLeftOut [.blockEntry, .blockEnd] t.line (node n true false) s.skip
      let (more, s) ← blockItems n began s
      return (first :: more, s)
    | .blockEnd => return ([], s.skip)
    | _ => .error (.ofTokens .dash began t.line)

/-- The items of a sequence without an indentation of its own. -/
def indentlessItems : Nat → Parser (List Node)
  | 0, s => return ([], s)
  | n + 1, s => do
    let t ← s.peek
    match t.sign with
    | .blockEntry =>
      let (first, s) ←
        unlessLeftOut [.blockEntry, .key, .value, .blockEnd] t.line (node n true false) s.skip
      let (more, s) ← indentlessItems n s
      return (first :: more, s)
    | _ => return ([], s)

/-- The entries of a mapping that is told by indentation; it began on a line. -/
def blockEntries : Nat → Nat → Parser (List (Node × Node))
  | 0, _, s => return ([], s)
  | n + 1, began, s => do
    let t ← s.peek
    match t.sign with
    | .key =>
      let (key, s) ← unlessLeftOut [.key, .value, .blockEnd] t.line (node n true true) s.skip
      let (value, s) ← blockValue n s
      let (more, s) ← blockEntries n began s
      return ((key, value) :: more, s)
    | .blockEnd => return ([], s.skip)
    | _ => .error (.ofTokens .key began t.line)

/-- The value of a key outside brackets. -/
def blockValue : Nat → Parser Node
  | 0, s => return (.absent 0, s)
  | n + 1, s => do
    let t ← s.peek
    match t.sign with
    | .value => unlessLeftOut [.key, .value, .blockEnd] t.line (node n true true) s.skip
    | _ => return (.absent (t.line + 1), s)

/-- The items of a sequence in brackets that began on a line. An entry of a mapping may stand for a
mapping with that entry alone. -/
def flowItems : Nat → Nat → Bool → Parser (List Node)
  | 0, _, _, s => return ([], s)
  | n + 1, began, first, s => do
    let t ← s.peek
    match t.sign, first with
    | .closeBracket, _ => return ([], s.skip)
    | .flowEntry, false =>
      match (← s.skip.peek).sign with
      | .closeBracket => return ([], s.skip.skip)
      | _ => flowItem n began s.skip
    | _, true => flowItem n began s
    | _, false => .error (.ofTokens .commaOrBracket began t.line)

/-- An item of a sequence in brackets, and those after it. -/
def flowItem : Nat → Nat → Parser (List Node)
  | 0, _, s => return ([], s)
  | n + 1, began, s => do
    let t ← s.peek
    match t.sign with
    | .key =>
      let s := s.skip
      let k ← s.peek
      let (key, s) ←
        if leavesOut [.value, .flowEntry, .closeBracket] k then
          pure (Node.absent (k.line + 1), s.skip)
        else node n false false s
      let (value, s) ← flowValue n .closeBracket s
      let (more, s) ← flowItems n began false s
      return (.mapping (t.line + 1) Tag.mapping [(key, value)] :: more, s)
    | _ =>
      let (item, s) ← node n false false s
      let (more, s) ← flowItems n began false s
      return (item :: more, s)

/-- The value of a key inside brackets. -/
def flowValue : Nat → Sign → Parser Node
  | 0, _, s => return (.absent 0, s)
  | n + 1, close, s => do
    let t ← s.peek
    match t.sign with
    | .value => unlessLeftOut [.flowEntry, close] t.line (node n false false) s.skip
    | _ => return (.absent (t.line + 1), s)

/-- The entries of a mapping in brackets that began on a line. -/
def flowEntries : Nat → Nat → Bool → Parser (List (Node × Node))
  | 0, _, _, s => return ([], s)
  | n + 1, began, first, s => do
    let t ← s.peek
    match t.sign, first with
    | .closeBrace, _ => return ([], s.skip)
    | .flowEntry, false =>
      match (← s.skip.peek).sign with
      | .closeBrace => return ([], s.skip.skip)
      | _ => flowKey n began s.skip
    | _, true => flowKey n began s
    | _, false => .error (.ofTokens .commaOrBrace began t.line)

/-- An entry of a mapping in brackets, and those after it. A key that is not marked as one has no
value. -/
def flowKey : Nat → Nat → Parser (List (Node × Node))
  | 0, _, s => return ([], s)
  | n + 1, began, s => do
    let t ← s.peek
    match t.sign with
    | .key =>
      let (key, s) ←
        unlessLeftOut [.value, .flowEntry, .closeBrace] t.line (node n false false) s.skip
      let (value, s) ← flowValue n .closeBrace s
      let (more, s) ← flowEntries n began false s
      return ((key, value) :: more, s)
    | _ =>
      let (key, s) ← node n false false s
      let next ← s.peek
      let (more, s) ← flowEntries n began false s
      return ((key, .absent (next.line + 1)) :: more, s)

end

/-- Reads the directives before a document; `versioned` once one has told the version. -/
def directives : Nat → Bool → Parser Unit
  | 0, _, s => return ((), s)
  | n + 1, versioned, s => do
    let t ← s.peek
    match t.sign with
    | .version major minor =>
      if versioned then .error (.ofTokens .versionTwice 0 t.line)
      else if major ≠ 1 ∨ minor ≠ 1 then .error (.ofTokens .version 0 t.line)
      else directives n true s.skip
    | .handle name expansion =>
      directives n versioned { s.skip with handles := (name, expansion) :: s.handles }
    | _ => return ((), s)

/-- The first document, if there is one. -/
def firstDocument (n : Nat) (s : ParseState) : Except Fault (Option Node × ParseState) := do
  match (← s.peek).sign with
  | .streamEnd => return (none, s)
  | .version _ _ | .handle _ _ | .documentStart =>
    let (_, s) ← directives n false s
    let t ← s.peek
    if t.sign ≠ .documentStart then .error (.ofTokens .documentStart 0 t.line)
    else
      let s := s.skip
      match (← s.peek).sign with
      | .version _ _ | .handle _ _ | .documentStart | .documentEnd | .streamEnd =>
        return (some (.absent (t.line + 1)), s)
      | _ =>
        let (root, s) ← node n true false s
        return (some root, s)
  | _ =>
    let (root, s) ← node n true false s
    return (some root, s)

/-- The root of the first document of some content, if it has one. -/
def parse (content : List UInt8) : Except Fault (Option Node) := do
  let scanned := scan (← characters content)
  let n := 4 * scanned.lexemes.size + 4
  let s : ParseState := { scanned }
  let _ ← s.peek
  let (root, s) ← firstDocument n s.skip
  let _ ← s.peek
  return root

end LoxLang.Yaml
