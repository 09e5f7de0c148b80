import LoxLang.Parse.Expression

/-!
# Parsing statements and declarations

Statements are parsed in terms of `nested`, the parser for a statement further inside, and `inner`, the
one for a declaration further inside. A declaration never fails: when what it holds does, the
tokens up to the next likely start of a statement are passed over and nothing is returned.
`statement` and `declaration` tie the knot as `expression` does.
-/

namespace LoxLang.Parse

variable {m : Type → Type} [Parse m]

/-- Items up to a closing brace or the end of the program. -/
def untilBrace (item : m α) : Nat → m (List α)
  | 0 => exhausted
  | n + 1 => do
    if (← check .rightBrace) || (← atEnd) then return []
    let first ← item
    return first :: (← untilBrace item n)

/-- The declarations of a block whose brace is open, and the brace that closes it. -/
def block (n : Nat) (inner : m (Option Stmt)) : m (List Stmt) := do
  let found ← untilBrace inner n
  let _ ← expect .rightBrace .blockEnd
  return found.filterMap id

/-- An expression and the semicolon after it. -/
def terminated (n : Nat) (finish : Expectation) : m Expr := do
  let e ← expression n
  let _ ← expect .semicolon finish
  return e

/-- An expression, unless a token of some kind comes first. -/
def unlessNext (n : Nat) (kind : Token.Kind) : m (Option Expr) := do
  if ← check kind then return none
  return some (← expression n)

/-- A variable declaration after its keyword. -/
def varDecl (n : Nat) : m Stmt := do
  let name ← expect .identifier .variableName
  let initial ← match ← accept? [.equal] with
    | some _ => some <$> expression n
    | none => pure none
  let _ ← expect .semicolon .variableEnd
  return .var name initial

/-- An expression as a statement. -/
def expressionStmt (n : Nat) : m Stmt := return .expression (← terminated n .expressionEnd)

/-- A function or method from its name on. -/
def function (n : Nat) (inner : m (Option Stmt)) (noun : FunctionNoun) :
    m FunctionDecl := do
  let name ← expect .identifier (.functionName noun)
  let _ ← expect .leftParen (.parametersOpen noun)
  let params ← if ← check .rightParen then pure []
    else commaSeparated (expect .identifier .parameterName) .tooManyParameters n 0
  let _ ← expect .rightParen .parametersClose
  let _ ← expect .leftBrace (.functionBody noun)
  let body ← block n inner
  return ⟨name, params, body⟩

/-- The name of a superclass, if there is one. -/
def superclass : m (Option Token) := do
  match ← accept? [.less] with
  | some _ => some <$> expect .identifier .superclassName
  | none => return none

/-- A class after its keyword. -/
def classDecl (n : Nat) (inner : m (Option Stmt)) : m Stmt := do
  let name ← expect .identifier .className
  let superclass ← superclass
  let _ ← expect .leftBrace .classBody
  let methods ← untilBrace (function n inner .method) n
  let _ ← expect .rightBrace .classEnd
  return .classDecl name superclass methods

/-- The first clause of a counting loop. -/
def forInitial (n : Nat) : m (Option Stmt) := do
  match ← accept? [.semicolon, .kwVar] with
  | some t => if t.kind = .semicolon then return none else some <$> varDecl n
  | none => some <$> expressionStmt n

/-- A counting loop as a conditional one: the increment follows the body in a block, a missing
condition is true, and the initial clause comes first in a block around it all. -/
def lowerFor (initial : Option Stmt) (condition increment : Option Expr) (body : Stmt) : Stmt :=
  let body := match increment with
    | some e => .block [body, .expression e]
    | none => body
  let loop := .loop (condition.getD (.literal (.bool true))) body
  match initial with
  | some first => .block [first, loop]
  | none => loop

/-- A counting loop after its keyword. -/
def forStmt (n : Nat) (nested : m Stmt) : m Stmt := do
  let _ ← expect .leftParen .forOpen
  let initial ← forInitial n
  let condition ← unlessNext n .semicolon
  let _ ← expect .semicolon .forConditionEnd
  let increment ← unlessNext n .rightParen
  let _ ← expect .rightParen .forClose
  let body ← nested
  return lowerFor initial condition increment body

/-- A conditional after its keyword. An `else` belongs to the nearest one. -/
def ifStmt (n : Nat) (nested : m Stmt) : m Stmt := do
  let _ ← expect .leftParen .ifOpen
  let condition ← expression n
  let _ ← expect .rightParen .ifClose
  let yes ← nested
  match ← accept? [.kwElse] with
  | some _ => return .ifElse condition yes (← nested)
  | none => return .ifThen condition yes

/-- A conditional loop after its keyword. -/
def whileStmt (n : Nat) (nested : m Stmt) : m Stmt := do
  let _ ← expect .leftParen .whileOpen
  let condition ← expression n
  let _ ← expect .rightParen .whileClose
  return .loop condition (← nested)

/-- A return after its keyword. -/
def returnStmt (n : Nat) (keyword : Token) : m Stmt := do
  let value ← unlessNext n .semicolon
  let _ ← expect .semicolon .returnEnd
  return .ret keyword value

/-- A statement, in terms of those further inside. -/
def statementWith (n : Nat) (nested : m Stmt) (inner : m (Option Stmt)) :
    m Stmt := do
  let t ← peek
  match t.kind with
  | .kwFor => let _ ← advance; forStmt n nested
  | .kwIf => let _ ← advance; ifStmt n nested
  | .kwPrint => let _ ← advance; return .print (← terminated n .printEnd)
  | .kwReturn => let _ ← advance; returnStmt n t
  | .kwWhile => let _ ← advance; whileStmt n nested
  | .leftBrace => let _ ← advance; return .block (← block n inner)
  | _ => expressionStmt n

/-- A declaration or statement, in terms of those further inside. -/
def declarationWith (n : Nat) (nested : m Stmt) (inner : m (Option Stmt)) :
    m Stmt := do
  let t ← peek
  match t.kind with
  | .kwClass => let _ ← advance; classDecl n inner
  | .kwFun => let _ ← advance; return .function (← function n inner .function)
  | .kwVar => let _ ← advance; varDecl n
  | _ => nested

mutual

/-- A statement. -/
def statement : Nat → m Stmt
  | 0 => exhausted
  | n + 1 => later fun _ => statementWith n (statement n) (declaration n)

/-- A declaration or statement, or nothing after an error. -/
def declaration : Nat → m (Option Stmt)
  | 0 => exhausted
  | n + 1 => later fun _ => recovering n (declarationWith n (statement n) (declaration n))

end

/-- Declarations up to the end of the program. -/
def program (item : m (Option Stmt)) : Nat → m (List Stmt)
  | 0 => exhausted
  | n + 1 => do
    if ← atEnd then return []
    let first ← item
    return first.toList ++ (← program item n)

end LoxLang.Parse
