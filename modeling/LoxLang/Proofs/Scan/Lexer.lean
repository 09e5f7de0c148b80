import LoxLang.Proofs.Scan.Pieces
import Mathlib.Data.List.TakeWhile

/-!
# The scanner and the pieces

From one token to the next the scanner reads one piece of its text, and what it finds there is the token or
the error that the piece is, on the line reached after the piece. What it finds in a text is so what the
pieces of the text are.

Main statements: `exists_turn`, for one piece, and `run_eq`, for all that is left of a text.
-/

namespace LoxLang

open Token

namespace Token

/-- The number of line ends in a text. -/
def newlines (text : List Char) : Nat := text.count '\n'

@[simp] theorem newlines_nil : newlines [] = 0 := rfl

theorem newlines_append (a b : List Char) : newlines (a ++ b) = newlines a + newlines b :=
  List.count_append

theorem newlines_eq_zero {text : List Char} (h : '\n' ∉ text) : newlines text = 0 :=
  List.count_eq_zero.2 h

/-- The pieces with the lines on which they end, the first one starting on `line`. -/
def numbered (line : Nat) : List Piece → List (Nat × Piece)
  | [] => []
  | p :: ps => (line + newlines p.text, p) :: numbered (line + newlines p.text) ps

/-- The token that a numbered piece is. -/
def ofPiece? : Nat × Piece → Option Token
  | (line, ⟨.token kind literal, text⟩) =>
    some { kind, lexeme := String.ofList text, line, literal }
  | _ => none

/-- The error that a numbered piece is. -/
def errorOfPiece? : Nat × Piece → Option LexicalError
  | (line, ⟨.stray, c :: _⟩) => some ⟨line, .unexpected c⟩
  | (line, ⟨.openString, _⟩) => some ⟨line, .unterminatedString⟩
  | (line, ⟨.hugeNumber, text⟩) => some ⟨line, .numberOutOfRange (String.ofList text)⟩
  | _ => none

end Token

namespace Lexer

/-! ### Reading a text -/

/-- The scanner after it has read a text that `rest` follows. -/
def past (l : Lexer) (text rest : List Char) : Lexer :=
  { l with
    input := rest
    lexeme := l.lexeme ++ text.toArray
    line := l.line + newlines text
    lastLine := if text = [] then l.lastLine else l.line + newlines text.dropLast }

section Past

variable {l : Lexer} {c : Char} {cs text more rest : List Char}

theorem past_nil (h : l.input = rest) : l.past [] rest = l := by
  subst h
  simp [past]

@[simp] theorem input_past : (l.past text rest).input = rest := rfl

theorem past_past : (l.past text cs).past more rest = l.past (text ++ more) rest := by
  rcases List.eq_nil_or_concat more with rfl | ⟨more, c, rfl⟩
  · simp [past]
  · simp [past, newlines_append, Nat.add_assoc]

/-- Reading a character and, if it is a line feed, counting it. -/
theorem past_singleton (h : l.input = c :: cs) :
    (if c = '\n' then l.next.newline else l.next) = l.past [c] cs := by
  by_cases hc : c = '\n'
  · subst hc
    simp [past, next, newline, h, newlines]
  · simp [past, next, h, hc, newlines]

theorem next_eq_past (h : l.input = c :: cs) (hc : c ≠ '\n') : l.next = l.past [c] cs := by
  rw [← past_singleton h, if_neg hc]

theorem accept_past_of_eq (hc : c ≠ '\n') :
    (l.past text (c :: cs)).accept c = (true, l.past (text ++ [c]) cs) := by
  rw [accept, if_pos (show (l.past text (c :: cs)).peek = some c from rfl), next_eq_past rfl hc, past_past]

theorem accept_past_of_ne (h : rest.head? ≠ some c) :
    (l.past text rest).accept c = (false, l.past text rest) :=
  if_neg h

theorem acceptWhile_eq_past {p : Char → Bool} (hp : p '\n' = false) (l : Lexer) :
    l.acceptWhile p = l.past (l.input.takeWhile p) (l.input.dropWhile p) := by
  fun_induction acceptWhile p l with
  | case1 l h =>
    have hinput : l.input = [] := List.head?_eq_none_iff.1 h
    rw [hinput, List.takeWhile_nil, List.dropWhile_nil, past_nil hinput]
  | case2 l c h hc ih =>
    obtain ⟨cs, hinput⟩ := List.head?_eq_some_iff.1 h
    have hnewline : c ≠ '\n' := by
      rintro rfl
      simp [hp] at hc
    rw [ih, input_next, next_eq_past hinput hnewline, past_past, hinput, List.tail_cons,
      List.takeWhile_cons_of_pos hc, List.dropWhile_cons_of_pos hc, List.singleton_append]
  | case3 l c h hc =>
    obtain ⟨cs, hinput⟩ := List.head?_eq_some_iff.1 h
    rw [hinput, List.takeWhile_cons_of_neg hc, List.dropWhile_cons_of_neg hc, past_nil hinput]

theorem acceptWhile_past {p : Char → Bool} (hp : p '\n' = false) :
    (l.past text rest).acceptWhile p = l.past (text ++ rest.takeWhile p) (rest.dropWhile p) := by
  rw [acceptWhile_eq_past hp, past_past, input_past]

theorem acceptQuoted_eq_past (l : Lexer) :
    l.acceptQuoted = l.past (l.input.takeWhile (· != '"')) (l.input.dropWhile (· != '"')) := by
  have hstep {l l' : Lexer} {c : Char} {cs : List Char} (hinput : l.input = c :: cs) (hc : c ≠ '"')
      (hl' : l' = l.past [c] cs) :
      l'.past (l'.input.takeWhile (· != '"')) (l'.input.dropWhile (· != '"')) =
        l.past (l.input.takeWhile (· != '"')) (l.input.dropWhile (· != '"')) := by
    have hrest : l'.input = cs := by rw [hl', past]
    rw [hrest, hl', past_past, hinput, List.takeWhile_cons_of_pos (by simpa using hc),
      List.dropWhile_cons_of_pos (by simpa using hc), List.singleton_append]
  fun_induction acceptQuoted l with
  | case1 l h =>
    have hinput : l.input = [] := List.head?_eq_none_iff.1 h
    rw [hinput, List.takeWhile_nil, List.dropWhile_nil, past_nil hinput]
  | case2 l h =>
    obtain ⟨cs, hinput⟩ := List.head?_eq_some_iff.1 h
    rw [hinput, List.takeWhile_cons_of_neg (by simp), List.dropWhile_cons_of_neg (by simp),
      past_nil hinput]
  | case3 l h hc ih =>
    obtain ⟨cs, hinput⟩ := List.head?_eq_some_iff.1 h
    rw [ih]
    exact hstep hinput hc (by rw [← past_singleton hinput, if_pos rfl])
  | case4 l c h hc hnewline ih =>
    obtain ⟨cs, hinput⟩ := List.head?_eq_some_iff.1 h
    rw [ih, hstep hinput hc (next_eq_past hinput hnewline)]

theorem acceptQuoted_past :
    (l.past text rest).acceptQuoted =
      l.past (text ++ rest.takeWhile (· != '"')) (rest.dropWhile (· != '"')) := by
  rw [acceptQuoted_eq_past, past_past, input_past]

end Past

/-- The point and the digits of a fraction, if there are any. -/
theorem numberText_eq (whole fraction : List Char) :
    numberText whole fraction = whole ++ numberText [] fraction := by
  unfold numberText
  split <;> simp

theorem acceptFraction_past {l : Lexer} {whole rest : List Char} :
    (l.past whole rest).acceptFraction =
      l.past (numberText whole (cutFraction rest).1) (cutFraction rest).2 := by
  unfold cutFraction
  split
  · next d cs =>
    by_cases hd : isDigit d = true
    · have hat : (l.past whole ('.' :: d :: cs)).atFraction = true := hd
      rw [acceptFraction, if_pos hat, next_eq_past rfl (by decide), past_past, acceptWhile_past (by decide)]
      simp [hd, numberText]
    · have hat : (l.past whole ('.' :: d :: cs)).atFraction = false :=
        Bool.eq_false_iff.2 hd
      simp [acceptFraction, hat, hd, numberText]
  · next hpoint =>
    have hat : (l.past whole rest).atFraction = false := by
      unfold atFraction
      split
      · next d cs hinput => exact absurd hinput (hpoint d cs)
      · rfl
    simp [acceptFraction, hat, numberText]

/-- From one token to the next: a piece was read, and added if it is a token or an error. -/
structure Turn (cut : Cut) (l l' : Lexer) : Prop where
  input : l'.input = cut.2
  line : l'.line = l.line + newlines cut.1.text
  tokens : l'.tokens.toList = l.tokens.toList ++ (ofPiece? (l'.line, cut.1)).toList
  errors : l'.errors.toList = l.errors.toList ++ (errorOfPiece? (l'.line, cut.1)).toList

section Turn

variable {l : Lexer} {text rest : List Char}

theorem turn_skip {role : Role} (h : role = .blank ∨ role = .comment) :
    Turn (⟨role, text⟩, rest) l (l.reset.past text rest) := by
  rcases h with rfl | rfl <;> exact ⟨rfl, rfl, (List.append_nil _).symm, (List.append_nil _).symm⟩

theorem turn_emit {kind : Token.Kind} {literal : Value} :
    Turn (⟨.token kind literal, text⟩, rest) l ((l.reset.past text rest).emit kind literal) where
  input := rfl
  line := rfl
  tokens := by simp [emit, token, past, reset, ofPiece?]
  errors := (List.append_nil _).symm

theorem turn_stray {c : Char} :
    Turn (⟨.stray, [c]⟩, rest) l ((l.reset.past [c] rest).report (.unexpected c)) where
  input := rfl
  line := rfl
  tokens := (List.append_nil _).symm
  errors := by simp [report, past, reset, errorOfPiece?]

theorem turn_openString :
    Turn (⟨.openString, text⟩, rest) l ((l.reset.past text rest).report .unterminatedString) where
  input := rfl
  line := rfl
  tokens := (List.append_nil _).symm
  errors := by simp [report, past, reset, errorOfPiece?]

theorem turn_hugeNumber :
    Turn (⟨.hugeNumber, text⟩, rest) l
      ((l.reset.past text rest).report (.numberOutOfRange (String.ofList text))) where
  input := rfl
  line := rfl
  tokens := (List.append_nil _).symm
  errors := by simp [report, past, reset, errorOfPiece?]

theorem turn_number (value : Option Float) :
    Turn (⟨value.elim .hugeNumber fun x => .token .number (.number x), text⟩, rest) l
      ((l.reset.past text rest).emitNumber value) := by
  cases value with
  | none =>
    have htext : (l.reset.past text rest).lexeme.toList = text := by simp [past, reset]
    rw [emitNumber, htext]
    exact turn_hugeNumber
  | some x => exact turn_emit

end Turn

/-! ### Runs -/

theorem run_step {state next : State} {l l' : Lexer} (h : step state l = (some next, l')) :
    run state l = run next l' := by
  rw [run]
  split <;> next heq => cases h.symm.trans heq <;> rfl

theorem run_end {state : State} {l l' : Lexer} (h : step state l = (none, l')) : run state l = l' := by
  rw [run]
  split <;> next heq => cases h.symm.trans heq <;> rfl

section Run

variable {l : Lexer} {c : Char} {cs : List Char}

theorem run_default (h : l.input = c :: cs) :
    run .default l = run (l.reset.next.dispatch c).1 (l.reset.next.dispatch c).2 := by
  have hpeek : l.reset.peek = some c := by rw [peek, input_reset, h, List.head?_cons]
  exact run_step (by rw [step, hpeek])

theorem exists_turn_slash (h : l.input = '/' :: cs) :
    ∃ l', run .default l = run .default l' ∧ Turn (cutSlash cs) l l' := by
  have hnext : l.reset.next = l.reset.past ['/'] cs := next_eq_past h (by decide)
  rw [run_default h, hnext]
  unfold cutSlash
  split
  · next cs =>
    have hdispatch : (l.reset.past ['/'] ('/' :: cs)).dispatch '/' =
        (.lineComment, l.reset.past ['/', '/'] cs) := by
      rw [dispatch, accept_past_of_eq (by decide)]
      rfl
    rw [hdispatch, run_step rfl, acceptWhile_past (by decide)]
    exact ⟨_, rfl, turn_skip (.inr rfl)⟩
  · next hslash =>
    have hhead : cs.head? ≠ some '/' := fun hhead =>
      let ⟨more, hmore⟩ := List.head?_eq_some_iff.1 hhead
      hslash more hmore
    have hdispatch : (l.reset.past ['/'] cs).dispatch '/' =
        (.default, (l.reset.past ['/'] cs).emit .slash .nil) := by
      rw [dispatch, accept_past_of_ne hhead]
      rfl
    rw [hdispatch]
    exact ⟨_, rfl, turn_emit⟩

theorem exists_turn_string (h : l.input = '"' :: cs) :
    ∃ l', run .default l = run .default l' ∧ Turn (cutString cs) l l' := by
  have hnext : l.reset.next = l.reset.past ['"'] cs := next_eq_past h (by decide)
  have hdispatch : (l.reset.past ['"'] cs).dispatch '"' = (.string, l.reset.past ['"'] cs) := rfl
  rw [run_default h, hnext, hdispatch, run_step rfl, finishString, acceptQuoted_past]
  refine ⟨_, rfl, ?_⟩
  unfold cutString
  generalize cs.takeWhile (· != '"') = inner
  cases hrest : cs.dropWhile (· != '"') with
  | nil => exact turn_openString
  | cons quote rest =>
    have hquote := List.head?_dropWhile_not (· != '"') cs
    obtain rfl : quote = '"' := by simpa [hrest] using hquote
    have hread : (l.reset.past ('"' :: inner) ('"' :: rest)).next =
        l.reset.past ('"' :: inner ++ ['"']) rest := by
      rw [next_eq_past rfl (by decide), past_past]
    have hunquoted : (l.reset.past ('"' :: inner ++ ['"']) rest).unquoted = String.ofList inner := by
      simp [unquoted, past, reset]
    have hclose : (l.reset.past ('"' :: inner) ('"' :: rest)).closeString =
        (l.reset.past ('"' :: inner ++ ['"']) rest).emit .string (.string (String.ofList inner)) := by
      rw [← hunquoted, ← hread]
      rfl
    rw [List.singleton_append, hclose]
    exact turn_emit

theorem takeWhile_numberText {whole : List Char} (hw : ∀ d ∈ whole, isDigit d = true) (fraction : List Char) :
    (numberText whole fraction).takeWhile isDigit = whole ∧
      ((numberText whole fraction).dropWhile isDigit).drop 1 = fraction := by
  rw [numberText_eq, List.takeWhile_append_of_pos hw, List.dropWhile_append_of_pos hw]
  cases fraction with
  | nil => simp [numberText]
  | cons d ds =>
    have hpoint : isDigit '.' = false := by decide
    simp [numberText, hpoint]

theorem float?_past_numberText {whole fraction rest : List Char}
    (hw : ∀ d ∈ whole, isDigit d = true) :
    (l.reset.past (numberText whole fraction) rest).float? =
      (Decimal.ofLiteral whole fraction).toFloat? := by
  obtain ⟨hwhole, hfraction⟩ := takeWhile_numberText hw fraction
  have htext : (l.reset.past (numberText whole fraction) rest).lexeme.toList =
      numberText whole fraction := by
    simp [past, reset]
  simp only [float?]
  rw [htext, hwhole, hfraction]

theorem exists_turn_number (h : l.input = c :: cs) (hdigit : isDigit c = true)
    (hdispatch : ∀ l : Lexer, l.dispatch c = (.number, l)) :
    ∃ l', run .default l = run .default l' ∧ Turn (cutNumber c cs) l l' := by
  have hc : c ≠ '\n' := by
    rintro rfl
    exact absurd hdigit (by decide)
  have hwhole : ∀ d ∈ c :: cs.takeWhile isDigit, isDigit d = true := by
    intro d hd
    rcases List.mem_cons.1 hd with rfl | hd
    · exact hdigit
    · exact List.mem_takeWhile_imp hd
  have hnext : l.reset.next = l.reset.past [c] cs := next_eq_past h hc
  rw [run_default h, hnext, hdispatch, run_step rfl, finishNumber, acceptWhile_past (by decide),
    acceptFraction_past, List.singleton_append, closeNumber, float?_past_numberText hwhole]
  exact ⟨_, rfl, turn_number _⟩

theorem exists_turn_word (h : l.input = c :: cs) (hletter : isLetter c = true)
    (hdispatch : ∀ l : Lexer, l.dispatch c = (.word, l)) :
    ∃ l', run .default l = run .default l' ∧ Turn (cutWord c cs) l l' := by
  have hc : c ≠ '\n' := by
    rintro rfl
    exact absurd hletter (by decide)
  have hnext : l.reset.next = l.reset.past [c] cs := next_eq_past h hc
  have htext : (l.reset.past (c :: cs.takeWhile isWordChar) (cs.dropWhile isWordChar)).lexeme.toList =
      c :: cs.takeWhile isWordChar := by
    simp [past, reset]
  rw [run_default h, hnext, hdispatch, run_step rfl, finishWord, acceptWhile_past (by decide),
    List.singleton_append, emitWord, htext]
  exact ⟨_, rfl, turn_emit⟩

theorem turn_symbol (c : Char) (cs : List Char) (l : Lexer) :
    Turn (cutSymbol c cs) l ((l.reset.past [c] cs).finishSymbol c) := by
  unfold cutSymbol finishSymbol
  cases punctuation? c with
  | some kind => exact turn_emit
  | none =>
    cases operator? c with
    | none => exact turn_stray
    | some kinds =>
      cases cs with
      | nil =>
        rw [accept_past_of_ne (by simp)]
        exact turn_emit
      | cons d ds =>
        obtain ⟨short, long⟩ := kinds
        by_cases hd : d = '='
        · subst hd
          rw [accept_past_of_eq (by decide)]
          exact turn_emit
        · rw [accept_past_of_ne (by simpa using hd)]
          simpa [hd] using turn_emit

/-- Between two tokens the scanner reads the next piece. -/
theorem exists_turn (h : l.input = c :: cs) :
    ∃ l', run .default l = run .default l' ∧ Turn (munch c cs) l l' := by
  unfold munch
  by_cases hnewline : c = '\n'
  · subst hnewline
    have hpast := past_singleton (l := l.reset) h
    rw [if_pos rfl] at hpast
    exact ⟨l.reset.next.newline, run_default h, hpast ▸ turn_skip (.inl rfl)⟩
  have hnext : l.reset.next = l.reset.past [c] cs := next_eq_past h hnewline
  by_cases hspace : c = ' ' ∨ c = '\r' ∨ c = '\t'
  · have hblank : isBlank c = true := by
      rcases hspace with rfl | rfl | rfl <;> rfl
    have hdispatch : l.reset.next.dispatch c = (.default, l.reset.next) := if_pos hspace
    rw [run_default h, hdispatch, hnext, if_pos hblank]
    exact ⟨_, rfl, turn_skip (.inl rfl)⟩
  have hblank : isBlank c = false := by
    simpa [isBlank, hnewline, and_assoc, and_comm, and_left_comm] using hspace
  split
  · simp_all
  split
  · next hslash =>
    obtain rfl := eq_of_beq hslash
    exact exists_turn_slash h
  split
  · next hquote =>
    obtain rfl := eq_of_beq hquote
    exact exists_turn_string h
  next hslash hquote =>
  split
  · next hdigit => exact exists_turn_number h hdigit fun l => by simp_all [dispatch]
  split
  · next hletter => exact exists_turn_word h hletter fun l => by simp_all [dispatch]
  · next hdigit hletter =>
    have hdispatch : l.reset.next.dispatch c = (.default, l.reset.next.finishSymbol c) := by
      simp_all [dispatch]
    rw [run_default h, hdispatch, hnext]
    exact ⟨_, rfl, turn_symbol c cs l⟩

end Run

/-! ### What is found -/

theorem run_nil {l : Lexer} (h : l.input = []) : run .default l = l.reset.emitEnd := by
  have hpeek : l.reset.peek = none := by rw [peek, input_reset, h, List.head?_nil]
  exact run_end (by rw [step, hpeek])

/-- The tokens and the errors found in all that is left of a text are those among its pieces, and the end
token comes last. -/
theorem run_eq (l : Lexer) :
    (run .default l).tokens.toList =
        l.tokens.toList ++ (numbered l.line (pieces l.input)).filterMap ofPiece? ++
          [(run .default l).endToken] ∧
      (run .default l).errors.toList =
        l.errors.toList ++ (numbered l.line (pieces l.input)).filterMap errorOfPiece? := by
  generalize hinput : l.input = source
  fun_induction pieces source generalizing l with
  | case1 =>
    rw [run_nil hinput]
    simp [numbered, emitEnd, reset, endToken]
  | case2 c cs ih =>
    obtain ⟨l', hrun, hturn⟩ := exists_turn hinput
    obtain ⟨htokens, herrors⟩ := ih l' hturn.input
    rw [hrun, htokens, herrors, hturn.tokens, hturn.errors, hturn.line, numbered]
    constructor
    · cases hp : ofPiece? (l.line + newlines (munch c cs).1.text, (munch c cs).1) <;>
        simp [hp]
    · cases hp : errorOfPiece? (l.line + newlines (munch c cs).1.text, (munch c cs).1) <;>
        simp [hp]

end Lexer

namespace Token

/-- The token after the last one of a source text. -/
def endOf (source : List Char) : Token := (Lexer.run .default (Lexer.start source)).endToken

@[simp] theorem kind_endOf (source : List Char) : (endOf source).kind = .eof := rfl

@[simp] theorem lexeme_endOf (source : List Char) : (endOf source).lexeme = "" := rfl

/-- The tokens of a text without the end token. -/
def ofText (source : List Char) : List Token := (numbered 1 (pieces source)).filterMap ofPiece?

end Token

theorem scan_tokens (source : List Char) :
    (scan source).tokens = Token.ofText source ++ [Token.endOf source] :=
  (Lexer.run_eq (Lexer.start source)).1

theorem scan_errors (source : List Char) :
    (scan source).errors = (numbered 1 (pieces source)).filterMap errorOfPiece? :=
  (Lexer.run_eq (Lexer.start source)).2

theorem scan_tokens_getLast (source : List Char) :
    (scan source).tokens.getLast? = some (Token.endOf source) := by
  simp [scan_tokens]

end LoxLang
