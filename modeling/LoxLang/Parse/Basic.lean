import LoxLang.Tree

/-!
# Parsers over tokens

Parsers go along tokens from the left. They are written once, over what every way along tokens has: the
next token can be looked at and read, errors are reported, which need not mean failure, and after a failure
reading goes on at a place further along. The end of the program is a token that is there to be pointed at and
never read.

Main definition: `Parse`.
-/

namespace LoxLang

/-- What function declarations are called in messages. -/
inductive FunctionNoun where
  | function
  | method
  deriving DecidableEq, Repr

/-- The word itself. -/
def FunctionNoun.word : FunctionNoun → String
  | .function => "function"
  | .method => "method"

/-- What the grammar asks for at some place. -/
inductive Expectation where
  | className | superclassName | classBody | classEnd
  | functionName (noun : FunctionNoun)
  | parametersOpen (noun : FunctionNoun)
  | parameterName | parametersClose
  | functionBody (noun : FunctionNoun)
  | variableName | variableEnd
  | forOpen | forConditionEnd | forClose
  | ifOpen | ifClose
  | printEnd | returnEnd
  | whileOpen | whileClose
  | expressionEnd | blockEnd
  | propertyName | argumentsClose
  | superDot | superMethod
  | groupingClose | expression
  deriving DecidableEq, Repr

/-- The words for what was asked for. -/
def Expectation.message : Expectation → String
  | .className => "Expect class name."
  | .superclassName => "Expect superclass name."
  | .classBody => "Expect '\x7b' before class body."
  | .classEnd => "Expect '\x7d' after class body."
  | .functionName noun => "Expect " ++ noun.word ++ " name."
  | .parametersOpen noun => "Expect '(' after " ++ noun.word ++ " name."
  | .parameterName => "Expect parameter name."
  | .parametersClose => "Expect ')' after parameters."
  | .functionBody noun => "Expect '\x7b' before " ++ noun.word ++ " body."
  | .variableName => "Expect variable name."
  | .variableEnd => "Expect ';' after variable declaration."
  | .forOpen => "Expect '(' after 'for'."
  | .forConditionEnd => "Expect ';' after loop condition."
  | .forClose => "Expect ')' after for clauses."
  | .ifOpen => "Expect '(' after 'if'."
  | .ifClose => "Expect ')' after if condition."
  | .printEnd => "Expect ';' after value."
  | .returnEnd => "Expect ';' after return value."
  | .whileOpen => "Expect '(' after 'while'."
  | .whileClose => "Expect ')' after condition."
  | .expressionEnd => "Expect ';' after expression."
  | .blockEnd => "Expect '\x7d' after block."
  | .propertyName => "Expect property name after '.'."
  | .argumentsClose => "Expect ')' after arguments."
  | .superDot => "Expect '.' after 'super'."
  | .superMethod => "Expect superclass method name."
  | .groupingClose => "Expect ')' after expression."
  | .expression => "Expect expression."

/-- Why a token is an error. -/
inductive SyntaxProblem where
  | missing (expected : Expectation)
  | tooManyParameters
  | tooManyArguments
  | invalidTarget
  deriving DecidableEq, Repr

/-- The words for a syntax error. -/
def SyntaxProblem.message : SyntaxProblem → String
  | .missing expected => expected.message
  | .tooManyParameters => "Can't have more than 255 parameters."
  | .tooManyArguments => "Can't have more than 255 arguments."
  | .invalidTarget => "Invalid assignment target."

/-- A syntax error, at its token. -/
structure SyntaxError where
  token : Token
  problem : SyntaxProblem
  deriving Repr

/-- Where a syntax error is, in words. -/
def SyntaxError.place (e : SyntaxError) : String :=
  if e.token.isEof then " at end" else " at '" ++ e.token.lexeme ++ "'"

/-- A way along tokens, for parsers to be written over. -/
class Parse (m : Type → Type) extends Monad m where
  /-- the next token, which is the end of the program if no other is left -/
  peek : m Token
  /-- whether no token is left -/
  atEnd : m Bool
  /-- reads the next token -/
  advance : m Token
  /-- reports an error and goes on -/
  report (error : SyntaxError) : m Unit
  /-- fails, the errors being reported -/
  fail {α : Type} : m α
  /-- gives up for want of rounds -/
  exhausted {α : Type} : m α
  /-- goes on after a failure at the next boundary of statements, and has some rounds to get there -/
  recovering {α : Type} (rounds : Nat) (parser : m α) : m (Option α)

namespace Parse

variable {m : Type → Type} [Parse m]

/-- A parser that is built when it runs and not before. Those that recur into each other are. -/
def later (parser : Unit → m α) : m α := pure () >>= parser

/-- Whether the next token is of some kind. -/
def check (kind : Token.Kind) : m Bool := return (← peek).kind == kind

/-- Reads the next token if it is of one of these kinds. -/
def accept? : List Token.Kind → m (Option Token)
  | [] => return none
  | kind :: kinds => do
    if ← check kind then some <$> advance else accept? kinds

/-- Reports an error at the next token and goes on. -/
def reportHere (problem : SyntaxProblem) : m Unit := do report ⟨← peek, problem⟩

/-- Reports that something is missing at the next token, and fails. -/
def missing (expected : Expectation) : m α := do
  reportHere (.missing expected)
  fail

/-- Reads a token of some kind, or fails. -/
def expect (kind : Token.Kind) (expected : Expectation) : m Token := do
  if ← check kind then advance else missing expected

end Parse

end LoxLang
