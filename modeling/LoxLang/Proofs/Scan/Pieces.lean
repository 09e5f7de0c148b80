import LoxLang.Token.Scan

/-!
# Source text in pieces

A source text is cut into pieces, each the longest at its place: a token, a blank, a comment, or a
stretch that is no token. No character is dropped, and none is looked at twice by two pieces.

Main statements: `munch_append`, that a piece and what follows it make up the text, `flatten_pieces`,
that the pieces do, and `text_ne_nil`, that no piece is empty.
-/

namespace LoxLang.Token

/-- What a piece of source text is. -/
inductive Role where
  /-- a space, tab, carriage return or line feed -/
  | blank
  /-- two slashes and the rest of the line -/
  | comment
  | token (kind : Kind) (literal : Value)
  /-- a character that starts no token -/
  | stray
  /-- a quote that no later quote closes, and all that follows it -/
  | openString
  /-- a number too large for a double -/
  | hugeNumber

/-- A stretch of source text. -/
structure Piece where
  role : Role
  text : List Char

/-- A piece of source text and what follows it. -/
abbrev Cut := Piece × List Char

/-- Cuts after a slash. -/
def cutSlash : List Char → Cut
  | '/' :: cs =>
    (⟨.comment, '/' :: '/' :: cs.takeWhile (· != '\n')⟩, cs.dropWhile (· != '\n'))
  | cs => (⟨.token .slash .nil, ['/']⟩, cs)

/-- Cuts after an opening quote. -/
def cutString (cs : List Char) : Cut :=
  let inner := cs.takeWhile (· != '"')
  match cs.dropWhile (· != '"') with
  | [] => (⟨.openString, '"' :: inner⟩, [])
  | quote :: rest =>
    (⟨.token .string (.string (String.ofList inner)), '"' :: inner ++ [quote]⟩, rest)

/-- The fraction that follows the whole digits of a number: a point counts only before a digit. -/
def cutFraction : List Char → List Char × List Char
  | '.' :: d :: cs =>
    if isDigit d then (d :: cs.takeWhile isDigit, cs.dropWhile isDigit) else ([], '.' :: d :: cs)
  | cs => ([], cs)

/-- The text of a number with these digits. -/
def numberText (whole fraction : List Char) : List Char :=
  if fraction.isEmpty then whole else whole ++ '.' :: fraction

/-- What the digits of a number denote. -/
def numberRole (whole fraction : List Char) : Role :=
  (Decimal.ofLiteral whole fraction).toFloat?.elim .hugeNumber fun x => .token .number (.number x)

/-- Cuts after the first digit of a number. -/
def cutNumber (c : Char) (cs : List Char) : Cut :=
  let whole := c :: cs.takeWhile isDigit
  let (fraction, rest) := cutFraction (cs.dropWhile isDigit)
  (⟨numberRole whole fraction, numberText whole fraction⟩, rest)

/-- Cuts after the first letter of a word. -/
def cutWord (c : Char) (cs : List Char) : Cut :=
  let word := c :: cs.takeWhile isWordChar
  (⟨.token (wordKind word) .nil, word⟩, cs.dropWhile isWordChar)

/-- Cuts after a character that may be an operator. -/
def cutSymbol (c : Char) (cs : List Char) : Cut :=
  match punctuation? c, operator? c, cs with
  | some kind, _, cs => (⟨.token kind .nil, [c]⟩, cs)
  | none, some (_, long), '=' :: cs => (⟨.token long .nil, [c, '=']⟩, cs)
  | none, some (short, _), cs => (⟨.token short .nil, [c]⟩, cs)
  | none, none, cs => (⟨.stray, [c]⟩, cs)

/-- The first piece of a text and what follows it. -/
def munch (c : Char) (cs : List Char) : Cut :=
  if isBlank c then (⟨.blank, [c]⟩, cs)
  else if c == '/' then cutSlash cs
  else if c == '"' then cutString cs
  else if isDigit c then cutNumber c cs
  else if isLetter c then cutWord c cs
  else cutSymbol c cs

theorem cutSlash_append (cs : List Char) :
    (cutSlash cs).1.text ++ (cutSlash cs).2 = '/' :: cs := by
  unfold cutSlash
  split
  · simp [List.takeWhile_append_dropWhile]
  · simp

theorem cutString_append (cs : List Char) :
    (cutString cs).1.text ++ (cutString cs).2 = '"' :: cs := by
  have h := List.takeWhile_append_dropWhile (p := (· != '"')) (l := cs)
  unfold cutString
  split
  · next hd =>
    rw [hd, List.append_nil] at h
    simp [h]
  · next quote rest hd =>
    rw [hd] at h
    simp [h]

theorem cutFraction_append (whole cs : List Char) :
    numberText whole (cutFraction cs).1 ++ (cutFraction cs).2 = whole ++ cs := by
  unfold cutFraction
  split
  · split
    · simp [numberText, List.takeWhile_append_dropWhile]
    · simp [numberText]
  · simp [numberText]

theorem cutNumber_append (c : Char) (cs : List Char) :
    (cutNumber c cs).1.text ++ (cutNumber c cs).2 = c :: cs := by
  simp [cutNumber, cutFraction_append, List.takeWhile_append_dropWhile]

theorem cutWord_append (c : Char) (cs : List Char) :
    (cutWord c cs).1.text ++ (cutWord c cs).2 = c :: cs := by
  simp [cutWord, List.takeWhile_append_dropWhile]

theorem cutSymbol_append (c : Char) (cs : List Char) :
    (cutSymbol c cs).1.text ++ (cutSymbol c cs).2 = c :: cs := by
  unfold cutSymbol
  split <;> simp

/-- The first piece and what follows it are the text. -/
theorem munch_append (c : Char) (cs : List Char) :
    (munch c cs).1.text ++ (munch c cs).2 = c :: cs := by
  unfold munch
  split
  · simp
  split
  · next h => rw [cutSlash_append, eq_of_beq h]
  split
  · next h => rw [cutString_append, eq_of_beq h]
  split
  · exact cutNumber_append c cs
  split
  · exact cutWord_append c cs
  · exact cutSymbol_append c cs

theorem numberText_ne_nil {whole : List Char} (fraction : List Char) (h : whole ≠ []) :
    numberText whole fraction ≠ [] := by
  unfold numberText
  split <;> simp [h]

/-- No piece is empty. -/
theorem text_ne_nil (c : Char) (cs : List Char) : (munch c cs).1.text ≠ [] := by
  unfold munch
  split
  · simp
  split
  · unfold cutSlash
    split <;> simp
  split
  · unfold cutString
    split <;> simp
  split
  · exact numberText_ne_nil _ (by simp)
  split
  · simp [cutWord]
  · unfold cutSymbol
    split <;> simp

/-- What follows a piece is shorter than the text. -/
theorem munch_length (c : Char) (cs : List Char) : (munch c cs).2.length ≤ cs.length := by
  have h := congrArg List.length (munch_append c cs)
  have hpos := List.length_pos_iff.2 (text_ne_nil c cs)
  simp only [List.length_append, List.length_cons] at h
  omega

/-- The pieces of a source text, in order. -/
def pieces : List Char → List Piece
  | [] => []
  | c :: cs => (munch c cs).1 :: pieces (munch c cs).2
termination_by cs => cs.length
decreasing_by
  have := munch_length c cs
  simp only [List.length_cons]
  omega

@[simp] theorem pieces_nil : pieces [] = [] := by simp [pieces]

theorem pieces_cons (c : Char) (cs : List Char) :
    pieces (c :: cs) = (munch c cs).1 :: pieces (munch c cs).2 := by
  rw [pieces]

/-- The pieces make up the text. -/
theorem flatten_pieces (cs : List Char) : (pieces cs).flatMap (·.text) = cs := by
  fun_induction pieces cs with
  | case1 => rfl
  | case2 c cs ih => rw [List.flatMap_cons, ih, munch_append]

end LoxLang.Token
