import LoxLang.Proofs.Scan
import LoxLang.Proofs.Scan.Counters

/-!
# Lines

The line of a token is that of its last character, the line of an error that of all the text read up to its
report, and the line of the end that of the last character of the source, which may be the line feed that
ends it. In this sense a line is one more than the line feeds before a place, and later places have no
smaller ones.

Main statement: `scan_lines`.
-/

namespace LoxLang

open List (Forall₂)

namespace Lexical

open Token (Piece newlines newlines_append)

/-! ### Places -/

/-- The pieces of a text, each with all text before it. -/
def placed (before : List Char) : List Piece → List (List Char × Piece)
  | [] => []
  | p :: ps => (before, p) :: placed (before ++ p.text) ps

/-- A token is a piece and has the line on which the last character of the piece stands. -/
structure TokenAt (q : List Char × Piece) (t : Token) : Prop where
  covers : Covers q.2 t
  line : t.line = ((1 + newlines (q.1 ++ q.2.text.dropLast) : Nat) : Int)

/-- An error is about a piece and has the line that is reached after it. -/
structure ErrorAt (q : List Char × Piece) (e : LexicalError) : Prop where
  reported : Reported q.2 e
  line : e.line = ((1 + newlines (q.1 ++ q.2.text) : Nat) : Int)

/-- What scanning finds has the lines it stands on, given the regions that the source is cut into. -/
structure Lined (source : List Char) (ps : List Piece) (found : Scan) : Prop where
  /-- the line of a token is that of its last character, and the end is on the line of the last character -/
  tokens : ∃ tokens eof, found.tokens = tokens ++ [eof] ∧
    Forall₂ TokenAt ((placed [] ps).filter (isToken ·.2)) tokens ∧
    eof.kind = .eof ∧ eof.line = ((1 + newlines source.dropLast : Nat) : Int)
  /-- the line of an error is the one reached after its region -/
  errors : Forall₂ ErrorAt ((placed [] ps).filter (isError ·.2)) found.errors
  /-- a string left open is reported on the last line -/
  unterminated : ∀ e ∈ found.errors, e.problem = .unterminatedString →
    e.line = ((1 + newlines source : Nat) : Int)
  tokens_pairwise : found.tokens.Pairwise fun t u => t.line ≤ u.line
  errors_pairwise : found.errors.Pairwise fun e f => e.line ≤ f.line

/-- The number that a piece gets is the line that is reached after it. -/
theorem numbered_eq_placed (before : List Char) (ps : List Piece) :
    Token.numbered (1 + newlines before) ps =
      (placed before ps).map fun q => (1 + newlines (q.1 ++ q.2.text), q.2) := by
  induction ps generalizing before with
  | nil => rfl
  | cons p ps ih =>
    rw [placed, List.map_cons, ← ih, Token.numbered, newlines_append, Nat.add_assoc]

/-- A piece is a region in front of what follows it. -/
theorem Factors.region_of_mem_placed {source : List Char} {ps : List Piece} (h : Factors source ps)
    {before : List Char} {q : List Char × Piece} (hq : q ∈ placed before ps) :
    ∃ rest, Region q.2 rest ∧ q.1 ++ (q.2.text ++ rest) = before ++ source := by
  induction h generalizing before with
  | nil => cases hq
  | @cons p rest ps first _ ih =>
    rcases List.mem_cons.1 hq with rfl | hq
    · exact ⟨rest, first, rfl⟩
    · obtain ⟨after, hregion, heq⟩ := ih hq
      exact ⟨after, hregion, by rw [heq, List.append_assoc]⟩

theorem Region.text_ne_nil {p : Piece} {rest : List Char} (h : Region p rest) : p.text ≠ [] := by
  cases h with
  | blank | comment | stray | openString => exact List.cons_ne_nil _ _
  | token h | hugeNumber h => exact h.ne_nil

/-- A string left open reaches to the end. -/
theorem Region.eq_nil_of_openString {p : Piece} {rest : List Char} (h : Region p rest)
    (hp : p.role = .openString) : rest = [] := by
  cases h <;> first | rfl | cases hp

theorem Reported.role_of_unterminated {p : Piece} {e : LexicalError} (h : Reported p e)
    (he : e.problem = .unterminatedString) : p.role = .openString := by
  cases h <;> first | rfl | cases he

/-! ### Last characters -/

/-- No token ends in a line end. -/
theorem Pattern.newline_not_last {kind : Token.Kind} {text : List Char} (h : Pattern kind text) :
    '\n' ∉ text.getLast? := by
  have hnot {text : List Char} (h : '\n' ∉ text) : '\n' ∉ text.getLast? := fun hl =>
    h (List.mem_of_getLast? hl)
  have hdigits {ds : List Char} (h : Digits ds) : '\n' ∉ ds := fun hd => absurd (h.all _ hd) (by decide)
  have hword {text : List Char} (h : Word text) : '\n' ∉ text := fun hd => absurd (h.all _ hd) (by decide)
  cases h with
  | symbol h => exact hnot ((by decide : ∀ entry ∈ symbols, '\n' ∉ entry.1.toList) _ h)
  | string h =>
    rw [← List.cons_append, List.getLast?_concat]
    decide
  | whole h => exact hnot (hdigits h)
  | decimal h h' => exact hnot (by simp [hdigits h, hdigits h'])
  | keyword h => exact hnot (hword (word_of_keyword h))
  | name h _ => exact hnot (hword h)

theorem Pattern.newlines_dropLast {kind : Token.Kind} {text : List Char} (h : Pattern kind text) :
    newlines text.dropLast = newlines text := by
  rcases List.eq_nil_or_concat text with rfl | ⟨text, c, rfl⟩
  · rfl
  · have hc : c ≠ '\n' := by simpa using h.newline_not_last
    simp [newlines, hc]

theorem Factors.newlines_le {source : List Char} {ps : List Piece} (h : Factors source ps)
    {q : List Char × Piece} (hq : q ∈ placed [] ps) : newlines (q.1 ++ q.2.text) ≤ newlines source := by
  obtain ⟨rest, -, heq⟩ := h.region_of_mem_placed hq
  rw [List.nil_append, ← List.append_assoc] at heq
  rw [← heq, newlines_append (q.1 ++ q.2.text)]
  exact Nat.le_add_right _ _

/-- The last character of a piece is no later than that of the text. -/
theorem Factors.newlines_dropLast_le {source : List Char} {ps : List Piece} (h : Factors source ps)
    {q : List Char × Piece} (hq : q ∈ placed [] ps) :
    newlines (q.1 ++ q.2.text.dropLast) ≤ newlines source.dropLast := by
  obtain ⟨rest, hregion, heq⟩ := h.region_of_mem_placed hq
  have hne := hregion.text_ne_nil
  rw [List.nil_append] at heq
  rw [← heq, List.dropLast_append_of_ne_nil (by simp [hne]), newlines_append, newlines_append]
  refine Nat.add_le_add_left ?_ _
  rcases List.eq_nil_or_concat rest with rfl | ⟨us, c, rfl⟩
  · rw [List.append_nil]
  · rw [List.concat_eq_append, List.dropLast_append_of_ne_nil (by simp), newlines_append]
    exact Nat.le_trans ((List.dropLast_sublist _).count_le _) (Nat.le_add_right _ _)

end Lexical

open Lexical

namespace Token

/-! ### Tokens and errors at their places -/

section Placed

variable {qs : List (List Char × Piece)} (h : ∀ q ∈ qs, ∃ rest, Region q.2 rest)

include h

/-- The tokens among the pieces at some places, in order. -/
theorem forall₂_tokenAt :
    Forall₂ TokenAt (qs.filter (isToken ·.2))
      ((qs.map fun q => (1 + newlines (q.1 ++ q.2.text), q.2)).filterMap ofPiece?) := by
  induction qs with
  | nil => exact .nil
  | cons q qs ih =>
    obtain ⟨⟨rest, hregion⟩, hqs⟩ := List.forall_mem_cons.1 h
    obtain ⟨before, role, text⟩ := q
    cases hregion with
    | token hp =>
      refine .cons ⟨by rw [Covers, String.toList_ofList], ?_⟩ (ih hqs)
      rw [newlines_append, newlines_append, hp.newlines_dropLast]
    | _ => exact ih hqs

/-- The errors of the pieces at some places, in order. -/
theorem forall₂_errorAt :
    Forall₂ ErrorAt (qs.filter (isError ·.2))
      ((qs.map fun q => (1 + newlines (q.1 ++ q.2.text), q.2)).filterMap errorOfPiece?) := by
  induction qs with
  | nil => exact .nil
  | cons q qs ih =>
    obtain ⟨⟨rest, hregion⟩, hqs⟩ := List.forall_mem_cons.1 h
    obtain ⟨before, role, text⟩ := q
    cases hregion with
    | blank | comment | token => exact ih hqs
    | stray => exact .cons ⟨.stray, rfl⟩ (ih hqs)
    | openString => exact .cons ⟨.openString, rfl⟩ (ih hqs)
    | hugeNumber => exact .cons ⟨.hugeNumber, rfl⟩ (ih hqs)

end Placed

theorem exists_region_of_placed (source : List Char) :
    ∀ q ∈ placed [] (pieces source), ∃ rest, Region q.2 rest := fun _ hq =>
  ((factors_iff_pieces.2 rfl).region_of_mem_placed hq).imp fun _ h => h.1

theorem forall₂_tokenAt_ofText (source : List Char) :
    Forall₂ TokenAt ((placed [] (pieces source)).filter (isToken ·.2)) (ofText source) := by
  have h := forall₂_tokenAt (exists_region_of_placed source)
  rwa [← numbered_eq_placed [] (pieces source), newlines_nil, ← ofText] at h

theorem forall₂_errorAt_errors (source : List Char) :
    Forall₂ ErrorAt ((placed [] (pieces source)).filter (isError ·.2)) (scan source).errors := by
  have h := forall₂_errorAt (exists_region_of_placed source)
  rwa [← numbered_eq_placed [] (pieces source), newlines_nil, ← scan_errors] at h

/-! ### No line comes before an earlier one -/

theorem le_of_mem_numbered {line : Nat} {ps : List Piece} {q : Nat × Piece} (h : q ∈ numbered line ps) :
    line ≤ q.1 := by
  induction ps generalizing line with
  | nil => cases h
  | cons p ps ih =>
    rcases List.mem_cons.1 h with rfl | h
    · exact Nat.le_add_right _ _
    · exact Nat.le_trans (Nat.le_add_right _ _) (ih h)

theorem pairwise_numbered (line : Nat) (ps : List Piece) :
    (numbered line ps).Pairwise fun q r => q.1 ≤ r.1 := by
  induction ps generalizing line with
  | nil => exact .nil
  | cons p ps ih => exact .cons (fun q hq => le_of_mem_numbered hq) (ih _)

theorem line_ofPiece? {q : Nat × Piece} {t : Token} (h : ofPiece? q = some t) : t.line = q.1 := by
  obtain ⟨line, ⟨role, text⟩⟩ := q
  cases role <;> cases h
  rfl

theorem line_errorOfPiece? {q : Nat × Piece} {e : LexicalError} (h : errorOfPiece? q = some e) :
    e.line = q.1 := by
  unfold errorOfPiece? at h
  split at h <;> cases h <;> rfl

end Token

/-- In every state that the scanner gets into, one more than the line feeds it has read is the line of the
next character, and one more than those before the last character read is the line of that one. So what
it finds has the right lines: a token that of its last character, an error that of all text read up to
its report, which of a string left open is all of the source, and the end that of the last
character of the source. Neither the lines of the tokens nor those of the errors go down. -/
theorem scan_lines (bytes : List UInt8) :
    (∀ state l, Lexer.Reached (Text.decode bytes) state l → Lexer.Counted (Text.decode bytes) l) ∧
      ∃ ps, (∀ qs, Factors (Text.decode bytes) qs ↔ qs = ps) ∧
        Lined (Text.decode bytes) ps (scan (Text.decode bytes)) := by
  generalize Text.decode bytes = source
  have hfactors : Factors source (Token.pieces source) := Token.factors_iff_pieces.2 rfl
  have htokens := Token.forall₂_tokenAt_ofText source
  have herrors := Token.forall₂_errorAt_errors source
  have hpairs := Token.pairwise_numbered 1 (Token.pieces source)
  refine ⟨fun _ _ => Lexer.counted_of_reached, _, fun qs => Token.factors_iff_pieces, ?_⟩
  constructor
  case tokens => exact ⟨_, _, scan_tokens source, htokens, rfl, Token.endOf_line source⟩
  case errors => exact herrors
  case unterminated =>
    intro e he hopen
    obtain ⟨q, hq, hreported, hline⟩ := exists_mem_of_forall₂ herrors he
    obtain ⟨rest, hregion, heq⟩ := hfactors.region_of_mem_placed (List.mem_of_mem_filter hq)
    rw [hregion.eq_nil_of_openString (hreported.role_of_unterminated hopen), List.append_nil,
      List.nil_append] at heq
    rw [hline, heq]
  case tokens_pairwise =>
    rw [scan_tokens]
    refine List.pairwise_append.2 ⟨?_, List.pairwise_singleton _ _, fun t ht u hu => ?_⟩
    · refine hpairs.filterMap _ fun q r hqr t ht u hu => ?_
      rw [Token.line_ofPiece? ht, Token.line_ofPiece? hu]
      exact Int.ofNat_le.2 hqr
    · obtain ⟨q, hq, hcovers, hline⟩ := exists_mem_of_forall₂ htokens ht
      obtain rfl := List.mem_singleton.1 hu
      rw [hline, Token.endOf_line]
      exact Int.ofNat_le.2 (Nat.add_le_add_left (hfactors.newlines_dropLast_le (List.mem_of_mem_filter hq)) 1)
  case errors_pairwise =>
    rw [scan_errors]
    refine hpairs.filterMap _ fun q r hqr e he f hf => ?_
    rw [Token.line_errorOfPiece? he, Token.line_errorOfPiece? hf]
    exact Int.ofNat_le.2 hqr

/-- A string over two lines is on the second one, and so is the end after the line feed that follows. -/
example : (scan "\"a\nb\"\n".toList).tokens.map (·.line) = [2, 2] := by decide +kernel

end LoxLang
