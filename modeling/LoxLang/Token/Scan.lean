import LoxLang.Token.Character

/-!
# Scanning

The scanner reads a source text once from left to right. It is always in one of five states: between
tokens, or inside a comment, a string, a number or a word. It keeps the characters of the token at hand
and two line numbers, that of the character to be read next and that of the character read last. A token
gets the first when it is complete, and so does an error when it is found; the end token gets the
second. An error does not stop the scanner.

Main statement: `Lexer.weight_step`, that every step but the last reads a character or ends a token.
-/

namespace LoxLang

/-- Why a piece of source text is not a token. -/
inductive LexicalProblem where
  | unexpected (c : Char)
  | unterminatedString
  | numberOutOfRange (text : String)
  deriving DecidableEq, Repr

/-- The words for a lexical problem. -/
def LexicalProblem.message : LexicalProblem → String
  | .unexpected c => "Unexpected character '" ++ c.toString ++ "'."
  | .unterminatedString => "Unterminated string."
  | .numberOutOfRange text => "Invalid number '" ++ text ++ "'."

/-- A lexical problem and its line. -/
structure LexicalError where
  line : Int
  problem : LexicalProblem
  deriving DecidableEq, Repr

/-- What scanning finds in a source text. -/
structure Scan where
  tokens : List Token
  errors : List LexicalError

/-- A scanner at work. -/
structure Lexer where
  /-- the text not yet read -/
  input : List Char
  tokens : Array Token
  errors : Array LexicalError
  /-- the characters of the token at hand -/
  lexeme : Array Char
  /-- the line of the next character -/
  line : Nat
  /-- the line of the character read last -/
  lastLine : Nat

namespace Lexer

open Token (isDigit isLetter isWordChar wordKind punctuation? operator?)

/-- What a scanner is in the middle of. -/
inductive State where
  | default
  | lineComment
  | string
  | number
  | word
  deriving DecidableEq, Repr

/-- A scanner that has read nothing. -/
def start (source : List Char) : Lexer :=
  { input := source, tokens := #[], errors := #[], lexeme := #[], line := 1, lastLine := 1 }

variable (l : Lexer)

/-! ### Reading -/

/-- Starts a token. -/
def reset : Lexer := { l with lexeme := #[] }

def peek : Option Char := l.input.head?

/-- Reads a character, if there is one left. -/
def next : Lexer :=
  match l.input with
  | [] => l
  | c :: cs => { l with input := cs, lexeme := l.lexeme.push c, lastLine := l.line }

/-- Counts a line feed that was read. -/
def newline : Lexer := { l with line := l.line + 1 }

/-- Reads a character if it is the expected one, and tells whether it is. -/
def accept (expected : Char) : Bool × Lexer :=
  if l.peek = some expected then (true, l.next) else (false, l)

theorem length_next {l : Lexer} {c : Char} (h : l.peek = some c) :
    l.next.input.length < l.input.length := by
  obtain ⟨cs, hcs⟩ := List.head?_eq_some_iff.1 h
  simp [next, hcs]

/-- Reads characters as long as they pass a test. -/
def acceptWhile (p : Char → Bool) (l : Lexer) : Lexer :=
  match _h : l.peek with
  | none => l
  | some c => if p c then acceptWhile p l.next else l
termination_by l.input.length
decreasing_by exact length_next _h

/-- Reads up to the next quote, and counts the line feeds. -/
def acceptQuoted (l : Lexer) : Lexer :=
  match _h : l.peek with
  | none => l
  | some c =>
    if c = '"' then l
    else if c = '\n' then acceptQuoted l.next.newline
    else acceptQuoted l.next
termination_by l.input.length
decreasing_by all_goals exact length_next _h

/-- Whether a point comes next and a digit after it. -/
def atFraction : Bool :=
  match l.input with
  | '.' :: c :: _ => isDigit c
  | _ => false

/-- Reads a point and digits. A point counts only before a digit. -/
def acceptFraction : Lexer :=
  if l.atFraction then l.next.acceptWhile isDigit else l

/-! ### Finding -/

/-- The token at hand. -/
def token (kind : Token.Kind) (literal : Value) : Token :=
  { kind, lexeme := String.ofList l.lexeme.toList, line := l.line, literal }

def emit (kind : Token.Kind) (literal : Value) : Lexer :=
  { l with tokens := l.tokens.push (l.token kind literal) }

/-- The token after the last one. -/
def endToken : Token := { kind := .eof, lexeme := "", line := l.lastLine }

def emitEnd : Lexer := { l with tokens := l.tokens.push l.endToken }

def report (problem : LexicalProblem) : Lexer :=
  { l with errors := l.errors.push ⟨l.line, problem⟩ }

/-- The double that the digits at hand denote, unless it is out of range. -/
def float? : Option Float :=
  let text := l.lexeme.toList
  (Decimal.ofLiteral (text.takeWhile isDigit) ((text.dropWhile isDigit).drop 1)).toFloat?

/-- The characters at hand without the quotes around them. -/
def unquoted : String := String.ofList l.lexeme.toList.tail.dropLast

/-! ### States -/

/-- Closes a string that was read up to its closing quote. -/
def closeString : Lexer :=
  match l.peek with
  | none => l.report .unterminatedString
  | some _ => l.next.emit .string (.string l.next.unquoted)

/-- Ends a string whose opening quote was read. -/
def finishString : Lexer := l.acceptQuoted.closeString

/-- Adds the number at hand, given the double that it denotes. -/
def emitNumber : Option Float → Lexer
  | none => l.report (.numberOutOfRange (String.ofList l.lexeme.toList))
  | some x => l.emit .number (.number x)

/-- Closes a number that was read to its end. -/
def closeNumber : Lexer := l.emitNumber l.float?

/-- Ends a number whose first digit was read. -/
def finishNumber : Lexer := (l.acceptWhile isDigit).acceptFraction.closeNumber

/-- Adds the word at hand. -/
def emitWord : Lexer := l.emit (wordKind l.lexeme.toList) .nil

/-- Ends a word whose first letter was read. -/
def finishWord : Lexer := (l.acceptWhile isWordChar).emitWord

/-- Ends a symbol other than the slash that starts with a character that was read. -/
def finishSymbol (c : Char) : Lexer :=
  match punctuation? c, operator? c with
  | some kind, _ => l.emit kind .nil
  | none, some (short, long) =>
    match l.accept '=' with
    | (true, l) => l.emit long .nil
    | (false, l) => l.emit short .nil
  | none, none => l.report (.unexpected c)

/-- What follows a character that was read between tokens. -/
def dispatch (c : Char) : State × Lexer :=
  if c = ' ' ∨ c = '\r' ∨ c = '\t' then (.default, l)
  else if c = '\n' then (.default, l.newline)
  else if c = '/' then
    match l.accept '/' with
    | (true, l) => (.lineComment, l)
    | (false, l) => (.default, l.emit .slash .nil)
  else if c = '"' then (.string, l)
  else if isDigit c then (.number, l)
  else if isLetter c then (.word, l)
  else (.default, l.finishSymbol c)

/-- The next state, unless the text is at its end. -/
def step : State → Lexer → Option State × Lexer
  | .default, l =>
    match l.reset.peek with
    | none => (none, l.reset.emitEnd)
    | some c => ((l.reset.next.dispatch c).1, (l.reset.next.dispatch c).2)
  | .lineComment, l => (some .default, l.acceptWhile (· != '\n'))
  | .string, l => (some .default, l.finishString)
  | .number, l => (some .default, l.finishNumber)
  | .word, l => (some .default, l.finishWord)

/-! ### Runs -/

section Input

variable {l}

@[simp] theorem input_reset : l.reset.input = l.input := rfl

@[simp] theorem input_newline : l.newline.input = l.input := rfl

@[simp] theorem input_emit {kind : Token.Kind} {literal : Value} :
    (l.emit kind literal).input = l.input := rfl

@[simp] theorem input_report {problem : LexicalProblem} : (l.report problem).input = l.input := rfl

@[simp] theorem input_next : l.next.input = l.input.tail := by
  unfold next
  split <;> simp [*]

theorem suffix_next (l : Lexer) : l.next.input <:+ l.input := by
  rw [input_next]
  exact List.tail_suffix _

theorem suffix_accept (c : Char) (l : Lexer) : (l.accept c).2.input <:+ l.input := by
  unfold accept
  split
  · exact l.suffix_next
  · exact List.suffix_rfl

theorem suffix_acceptWhile (p : Char → Bool) (l : Lexer) : (l.acceptWhile p).input <:+ l.input := by
  fun_induction acceptWhile p l with
  | case1 | case3 => exact List.suffix_rfl
  | case2 l _ _ _ ih => exact ih.trans l.suffix_next

theorem suffix_acceptQuoted (l : Lexer) : l.acceptQuoted.input <:+ l.input := by
  fun_induction acceptQuoted l with
  | case1 | case2 => exact List.suffix_rfl
  | case3 l _ _ ih => exact ih.trans l.suffix_next
  | case4 l _ _ _ _ ih => exact ih.trans l.suffix_next

theorem suffix_closeString (l : Lexer) : l.closeString.input <:+ l.input := by
  unfold closeString
  split
  · exact List.suffix_rfl
  · exact l.suffix_next

theorem suffix_acceptFraction (l : Lexer) : l.acceptFraction.input <:+ l.input := by
  unfold acceptFraction
  split
  · exact (l.next.suffix_acceptWhile isDigit).trans l.suffix_next
  · exact List.suffix_rfl

@[simp] theorem input_emitNumber {value : Option Float} : (l.emitNumber value).input = l.input := by
  cases value <;> rfl

theorem suffix_finishString (l : Lexer) : l.finishString.input <:+ l.input :=
  l.acceptQuoted.suffix_closeString.trans l.suffix_acceptQuoted

theorem suffix_finishNumber (l : Lexer) : l.finishNumber.input <:+ l.input := by
  rw [finishNumber, closeNumber, input_emitNumber]
  exact (suffix_acceptFraction _).trans (l.suffix_acceptWhile isDigit)

theorem suffix_finishSymbol (c : Char) (l : Lexer) : (l.finishSymbol c).input <:+ l.input := by
  unfold finishSymbol
  split
  · exact List.suffix_rfl
  · next short long _ _ =>
    have h := l.suffix_accept '='
    split <;> next heq => simpa [heq] using h
  · exact List.suffix_rfl

theorem suffix_dispatch (c : Char) (l : Lexer) : (l.dispatch c).2.input <:+ l.input := by
  unfold dispatch
  split
  · exact List.suffix_rfl
  split
  · exact List.suffix_rfl
  split
  · have h := l.suffix_accept '/'
    split <;> next heq => simpa [heq] using h
  repeat
    split
    · exact List.suffix_rfl
  exact l.suffix_finishSymbol c

end Input

/-- How far a scanner is from the end of its text: inside a token it need not read on. -/
def weight : State → Lexer → Nat
  | .default, l => 2 * l.input.length
  | .lineComment, l | .string, l | .number, l | .word, l => 2 * l.input.length + 1

theorem weight_le (state : State) (l : Lexer) : weight state l ≤ 2 * l.input.length + 1 := by
  cases state <;> simp [weight]

/-- Every step but the last reads a character or ends a token. -/
theorem weight_step {state next : State} {l l' : Lexer} (h : step state l = (some next, l')) :
    weight next l' < weight state l := by
  cases state with
  | default =>
    rw [step] at h
    split at h
    · cases h
    · next c hpeek =>
      cases h
      have hnext := length_next hpeek
      have hread := (suffix_dispatch c l.reset.next).length_le
      calc weight (l.reset.next.dispatch c).1 (l.reset.next.dispatch c).2
        _ ≤ 2 * (l.reset.next.dispatch c).2.input.length + 1 := weight_le _ _
        _ < 2 * l.reset.input.length := by omega
  | lineComment =>
    cases h
    have hlength := (l.suffix_acceptWhile (· != '\n')).length_le
    exact Nat.lt_succ_of_le (Nat.mul_le_mul_left 2 hlength)
  | string =>
    cases h
    exact Nat.lt_succ_of_le (Nat.mul_le_mul_left 2 l.suffix_finishString.length_le)
  | number =>
    cases h
    exact Nat.lt_succ_of_le (Nat.mul_le_mul_left 2 l.suffix_finishNumber.length_le)
  | word =>
    cases h
    exact Nat.lt_succ_of_le (Nat.mul_le_mul_left 2 (l.suffix_acceptWhile isWordChar).length_le)

/-- Takes steps until there is none. -/
def run (state : State) (l : Lexer) : Lexer :=
  match _h : step state l with
  | (some next, l') => run next l'
  | (none, l') => l'
termination_by weight state l
decreasing_by exact weight_step _h

end Lexer

/-- Scans a source text. -/
def scan (source : List Char) : Scan :=
  let l := Lexer.run .default (Lexer.start source)
  { tokens := l.tokens.toList, errors := l.errors.toList }

end LoxLang
