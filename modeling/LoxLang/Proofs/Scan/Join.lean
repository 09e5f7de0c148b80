import LoxLang.Proofs.Scan.Kinds
import LoxLang.Text.Utf8

/-!
# Two source texts on top of each other

A line feed ends whatever it does not belong to. Neither a character nor, if no string is left open, a
piece of source text reaches across it. So two texts with a line feed between them are read as the
one and then the other, and only the lines of the second count on from where the first has ended.

Main statements: `Text.decode_newline`, for bytes, `Token.pieces_newline`, for characters, and
`scan_newline`, for tokens.
-/

namespace LoxLang

/-! ### Bytes -/

namespace Text

/-- The byte that is a line feed. -/
def newline : UInt8 := 10

theorem isContinuation_newline : isContinuation newline = false := by decide

/-- A sequence that is cut short is not completed by a line feed. -/
theorem sequence?_newline (b : UInt8) (rest more : List UInt8) :
    sequence? b (rest ++ newline :: more) =
      (sequence? b rest).map fun r => (r.1, r.2 ++ newline :: more) := by
  unfold sequence?
  by_cases h₁ : b < 0x80
  · simp [h₁]
  by_cases h₂ : b < 0xc0
  · simp [h₁, h₂]
  simp only [h₁, h₂, if_false]
  by_cases h₃ : b < 0xe0
  · rcases rest with _ | ⟨b₁, rest⟩
    · simp [h₃, isContinuation_newline]
    · cases hc : isContinuation b₁ <;> simp [h₃, hc, Function.comp_def]
  by_cases h₄ : b < 0xf0
  · rcases rest with _ | ⟨b₁, _ | ⟨b₂, rest⟩⟩
    · cases more <;> simp [h₃, h₄, isContinuation_newline]
    · simp [h₃, h₄, isContinuation_newline]
    · cases hc : isContinuation b₁ && isContinuation b₂ <;> simp [h₃, h₄, hc, Function.comp_def]
  by_cases h₅ : b < 0xf8
  · rcases rest with _ | ⟨b₁, _ | ⟨b₂, _ | ⟨b₃, rest⟩⟩⟩
    · rcases more with _ | ⟨c₁, _ | ⟨c₂, more⟩⟩ <;> simp [h₃, h₄, h₅, isContinuation_newline]
    · cases more <;> simp [h₃, h₄, h₅, isContinuation_newline]
    · simp [h₃, h₄, h₅, isContinuation_newline]
    · cases hc : isContinuation b₁ && isContinuation b₂ && isContinuation b₃ <;>
        simp [h₃, h₄, h₅, hc, Function.comp_def]
  · simp [h₃, h₄, h₅]

theorem first_newline (b : UInt8) (rest more : List UInt8) :
    first b (rest ++ newline :: more) = ((first b rest).1, (first b rest).2 ++ newline :: more) := by
  rw [first, first]
  rw [sequence?_newline]
  cases sequence? b rest <;> rfl

/-- What stands before a line feed and what stands after it are read separately. -/
theorem decode_newline (a b : List UInt8) :
    decode (a ++ newline :: b) = decode a ++ '\n' :: decode b := by
  fun_induction decode a with
  | case1 =>
    rw [List.nil_append, decode_cons]
    rfl
  | case2 c rest ih => rw [List.cons_append, decode_cons, first_newline, ih, List.cons_append]

end Text

/-! ### Pieces of source text -/

namespace Token

section While

variable {p : Char → Bool} {x : Char}

/-- A character that ends a stretch ends it at the latest where it stands. -/
theorem takeWhile_append_stop (hx : p x = false) (cs more : List Char) :
    (cs ++ x :: more).takeWhile p = cs.takeWhile p := by
  induction cs with
  | nil => simp [hx]
  | cons c cs ih => cases hc : p c <;> simp [hc, ih]

theorem dropWhile_append_stop (hx : p x = false) (cs more : List Char) :
    (cs ++ x :: more).dropWhile p = cs.dropWhile p ++ x :: more := by
  induction cs with
  | nil => simp [hx]
  | cons c cs ih => cases hc : p c <;> simp [hc, ih]

/-- A stretch that has ended does not go on after the text. -/
theorem takeWhile_append_ended {cs : List Char} (h : cs.dropWhile p ≠ []) (more : List Char) :
    (cs ++ more).takeWhile p = cs.takeWhile p := by
  induction cs with
  | nil => simp at h
  | cons c cs ih =>
    cases hc : p c with
    | false => simp [hc]
    | true => simpa [hc] using ih (by simpa [hc] using h)

theorem dropWhile_append_ended {cs : List Char} (h : cs.dropWhile p ≠ []) (more : List Char) :
    (cs ++ more).dropWhile p = cs.dropWhile p ++ more := by
  induction cs with
  | nil => simp at h
  | cons c cs ih =>
    cases hc : p c with
    | false => simp [hc]
    | true => simpa [hc] using ih (by simpa [hc] using h)

end While

/-- A cut that the text after a line feed does not change. -/
def Cut.before (cut : Cut) (more : List Char) : Cut := (cut.1, cut.2 ++ '\n' :: more)

theorem cutSlash_newline (cs more : List Char) :
    cutSlash (cs ++ '\n' :: more) = (cutSlash cs).before more := by
  have hstop : ('\n' != '\n') = false := by decide
  rcases cs with _ | ⟨c, cs⟩
  · rfl
  · by_cases hc : c = '/'
    · subst hc
      simp only [List.cons_append, cutSlash, Cut.before, takeWhile_append_stop (p := (· != '\n')) hstop,
        dropWhile_append_stop (p := (· != '\n')) hstop]
    · simp [cutSlash, Cut.before, hc]

theorem cutString_newline {cs : List Char} (h : (cutString cs).1.role ≠ .openString)
    (more : List Char) : cutString (cs ++ '\n' :: more) = (cutString cs).before more := by
  unfold cutString at h ⊢
  cases hd : cs.dropWhile (· != '"') with
  | nil => simp [hd] at h
  | cons quote rest =>
    have hne : cs.dropWhile (· != '"') ≠ [] := by simp [hd]
    simp [takeWhile_append_ended hne, dropWhile_append_ended hne, hd, Cut.before]

theorem cutFraction_newline (cs more : List Char) :
    cutFraction (cs ++ '\n' :: more) = ((cutFraction cs).1, (cutFraction cs).2 ++ '\n' :: more) := by
  have hstop : isDigit '\n' = false := by decide
  rcases cs with _ | ⟨c, _ | ⟨d, cs⟩⟩
  · rfl
  · by_cases hc : c = '.'
    · subst hc
      simp [cutFraction, hstop]
    · simp [cutFraction, hc]
  · by_cases hc : c = '.'
    · subst hc
      cases hd : isDigit d <;>
        simp [cutFraction, hd, takeWhile_append_stop hstop, dropWhile_append_stop hstop]
    · simp [cutFraction, hc]

theorem cutNumber_newline (c : Char) (cs more : List Char) :
    cutNumber c (cs ++ '\n' :: more) = (cutNumber c cs).before more := by
  have hstop : isDigit '\n' = false := by decide
  simp only [cutNumber, takeWhile_append_stop hstop, dropWhile_append_stop hstop,
    cutFraction_newline, Cut.before]

theorem cutWord_newline (c : Char) (cs more : List Char) :
    cutWord c (cs ++ '\n' :: more) = (cutWord c cs).before more := by
  have hstop : isWordChar '\n' = false := by decide
  simp only [cutWord, takeWhile_append_stop hstop, dropWhile_append_stop hstop, Cut.before]

theorem cutSymbol_newline (c : Char) (cs more : List Char) :
    cutSymbol c (cs ++ '\n' :: more) = (cutSymbol c cs).before more := by
  unfold cutSymbol
  cases punctuation? c with
  | some kind => rfl
  | none =>
    cases operator? c with
    | none => rfl
    | some kinds =>
      rcases cs with _ | ⟨d, cs⟩
      · rfl
      · by_cases hd : d = '='
        · subst hd
          rfl
        · simp [hd, Cut.before]

/-- Unless it is a string left open, a piece ends before a line feed that follows it. -/
theorem munch_newline {c : Char} {cs : List Char} (h : (munch c cs).1.role ≠ .openString)
    (more : List Char) : munch c (cs ++ '\n' :: more) = (munch c cs).before more := by
  unfold munch at h ⊢
  by_cases hb : isBlank c = true
  · simp [hb, Cut.before]
  by_cases hslash : (c == '/') = true
  · simp [hb, hslash, cutSlash_newline]
  by_cases hquote : (c == '"') = true
  · simp only [hb, hslash, hquote, Bool.false_eq_true, if_false, if_true] at h ⊢
    exact cutString_newline h more
  by_cases hdigit : isDigit c = true
  · simp [hb, hslash, hquote, hdigit, cutNumber_newline]
  by_cases hletter : isLetter c = true
  · simp [hb, hslash, hquote, hdigit, hletter, cutWord_newline]
  · simp [hb, hslash, hquote, hdigit, hletter, cutSymbol_newline]

/-- The piece that is a line feed. -/
def newlinePiece : Piece := ⟨.blank, ['\n']⟩

/-- Texts with a line feed between them are cut separately, if the first leaves no string open. -/
theorem pieces_newline {a : List Char} (h : ∀ p ∈ pieces a, p.role ≠ .openString) (b : List Char) :
    pieces (a ++ '\n' :: b) = pieces a ++ newlinePiece :: pieces b := by
  fun_induction pieces a with
  | case1 =>
    rw [List.nil_append, pieces_cons]
    rfl
  | case2 c cs ih =>
    have hc := munch_newline (h _ List.mem_cons_self) b
    have ih := ih fun p hp => h p (List.mem_cons_of_mem _ hp)
    rw [List.cons_append, pieces_cons, hc, List.cons_append, ← ih]
    rfl

/-! ### Lines -/

/-- The token as many lines further down. -/
def later (d : Int) (t : Token) : Token := { t with line := t.line + d }

theorem numbered_append (line : Nat) (ps qs : List Piece) :
    numbered line (ps ++ qs) =
      numbered line ps ++ numbered (line + newlines (ps.flatMap (·.text))) qs := by
  induction ps generalizing line with
  | nil => simp [numbered, newlines]
  | cons p ps ih => simp [numbered, ih, newlines, Nat.add_assoc]

theorem numbered_add (line k : Nat) (ps : List Piece) :
    numbered (line + k) ps = (numbered line ps).map fun q => (q.1 + k, q.2) := by
  induction ps generalizing line with
  | nil => rfl
  | cons p ps ih =>
    have hline : line + k + newlines p.text = line + newlines p.text + k := by omega
    simp [numbered, hline, ih]

theorem ofPiece?_add (k : Nat) (q : Nat × Piece) :
    ofPiece? (q.1 + k, q.2) = (ofPiece? q).map (later k) := by
  obtain ⟨line, ⟨role, text⟩⟩ := q
  cases role <;> simp [ofPiece?, later]

theorem filterMap_ofPiece?_add (k : Nat) (qs : List (Nat × Piece)) :
    (qs.map fun q => (q.1 + k, q.2)).filterMap ofPiece? = (qs.filterMap ofPiece?).map (later k) := by
  rw [List.filterMap_map, List.map_filterMap]
  congr 1
  funext q
  exact ofPiece?_add k q

/-- The tokens of two texts with a line feed between them. -/
theorem ofText_newline {a : List Char} (h : ∀ p ∈ pieces a, p.role ≠ .openString) (b : List Char) :
    ofText (a ++ '\n' :: b) = ofText a ++ (ofText b).map (later ((newlines a + 1 : Nat) : Int)) := by
  unfold ofText
  rw [pieces_newline h, numbered_append, flatten_pieces, List.filterMap_append]
  congr 1
  have hline : numbered (1 + newlines a) (newlinePiece :: pieces b) =
      (1 + newlines a + 1, newlinePiece) :: numbered (1 + (newlines a + 1)) (pieces b) := by
    simp [numbered, newlinePiece, newlines, Nat.add_assoc]
  rw [hline, numbered_add, List.filterMap_cons_none rfl, filterMap_ofPiece?_add]

/-- The roles of pieces that are errors. -/
def Role.isError : Role → Bool
  | .stray | .openString | .hugeNumber => true
  | _ => false

theorem errorOfPiece?_eq_none {q : Nat × Piece} (h : q.2.text ≠ []) :
    errorOfPiece? q = none ↔ q.2.role.isError = false := by
  obtain ⟨line, ⟨role, text⟩⟩ := q
  cases text with
  | nil => exact absurd rfl h
  | cons c cs => cases role <;> simp [errorOfPiece?, Role.isError]

theorem pieces_ne_nil {source : List Char} {p : Piece} (h : p ∈ pieces source) : p.text ≠ [] := by
  fun_induction pieces source with
  | case1 => simp at h
  | case2 c cs ih =>
    rcases List.mem_cons.1 h with rfl | h
    · exact text_ne_nil c cs
    · exact ih h

theorem map_snd_numbered (line : Nat) (ps : List Piece) : (numbered line ps).map Prod.snd = ps := by
  induction ps generalizing line with
  | nil => rfl
  | cons p ps ih => simp [numbered, ih]

/-- A text has no lexical errors if none of its pieces is one, whatever the lines. -/
theorem scan_errors_eq_nil {source : List Char} :
    (scan source).errors = [] ↔ ∀ p ∈ pieces source, p.role.isError = false := by
  rw [scan_errors, List.filterMap_eq_nil_iff]
  constructor
  · intro h p hp
    rw [← map_snd_numbered 1 (pieces source)] at hp
    obtain ⟨q, hq, rfl⟩ := List.mem_map.1 hp
    exact (errorOfPiece?_eq_none (pieces_ne_nil (mem_of_mem_numbered hq))).1 (h q hq)
  · intro h q hq
    have hp := mem_of_mem_numbered hq
    exact (errorOfPiece?_eq_none (pieces_ne_nil hp)).2 (h q.2 hp)

theorem closed_of_errors {a : List Char} (h : (scan a).errors = []) :
    ∀ p ∈ pieces a, p.role ≠ .openString := by
  intro p hp hrole
  have := scan_errors_eq_nil.1 h p hp
  rw [hrole] at this
  cases this

end Token

/-- Two texts without lexical errors have none with a line feed between them, and their tokens are
those of the first and those of the second further down. -/
theorem scan_newline {a b : List Char} (ha : (scan a).errors = []) (hb : (scan b).errors = []) :
    (scan (a ++ '\n' :: b)).errors = [] ∧
      Token.ofText (a ++ '\n' :: b) =
        Token.ofText a ++ (Token.ofText b).map (.later ((Token.newlines a + 1 : Nat) : Int)) := by
  have hclosed := Token.closed_of_errors ha
  refine ⟨?_, Token.ofText_newline hclosed b⟩
  rw [Token.scan_errors_eq_nil] at *
  intro p hp
  rw [Token.pieces_newline hclosed, List.mem_append, List.mem_cons] at hp
  rcases hp with hp | rfl | hp
  · exact ha p hp
  · rfl
  · exact hb p hp

end LoxLang
