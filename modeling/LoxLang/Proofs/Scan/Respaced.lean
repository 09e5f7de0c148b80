import LoxLang.Proofs.Layout
import LoxLang.Proofs.Scan

/-!
# Lexemes with blanks between them

What a token is depends on its own text only: with a blank or nothing after it, it is found again as it was,
whatever has stood around it. So the lexemes of a source, with errors or not, can be written anew with any
blanks between them, and are the same tokens again.

Main statements: `Lexical.Region.respaced`, for one token, and `scan_joined`, for all tokens of a source.
-/

namespace LoxLang

open List (Forall₂)

/-! ### Bytes of a text -/

namespace Text

/-- The bytes of a text. -/
def encode (text : List Char) : List UInt8 := text.flatMap String.utf8EncodeChar

theorem decodes_encode (text : List Char) : Decodes (encode text) text := by
  induction text with
  | nil => exact .nil
  | cons c cs ih => exact .char c ih

theorem decode_encode (text : List Char) : decode (encode text) = text :=
  (decodes_iff_decode.1 (decodes_encode text)).symm

end Text

namespace Lexical

open Token (isBlank isDigit isWordChar Piece)

/-- A blank comes next, or nothing. -/
def BlankNext (rest : List Char) : Prop := ∀ c ∈ rest.head?, isBlank c = true

/-- Texts one after the other, with a row of blanks between any two. -/
inductive Joined : List (List Char) → List Char → Prop where
  | nil : Joined [] []
  | last : Joined [text] text
  | more (hne : gap ≠ []) (hgap : ∀ c ∈ gap, isBlank c = true) (others : Joined (next :: texts) joined) :
      Joined (text :: next :: texts) (text ++ (gap ++ joined))

theorem Joined.cons_cases {text joined : List Char} {texts : List (List Char)}
    (h : Joined (text :: texts) joined) :
    (texts = [] ∧ joined = text) ∨ ∃ gap others, gap ≠ [] ∧ (∀ c ∈ gap, isBlank c = true) ∧
      Joined texts others ∧ joined = text ++ (gap ++ others) := by
  cases h with
  | last => exact .inl ⟨rfl, rfl⟩
  | more hne hgap others => exact .inr ⟨_, _, hne, hgap, others, rfl⟩

/-! ### One token -/

section Token

variable {text rest rest' : List Char} {kind : Token.Kind}

theorem BlankNext.of_ne {c : Char} (h : BlankNext rest) (hc : isBlank c = false) : rest.head? ≠ some c := by
  intro hhead
  have := h c hhead
  simp [hc] at this

/-- No blank is part of a word or a number. -/
theorem not_isWordChar_of_isBlank {c : Char} (h : isBlank c = true) :
    isWordChar c = false ∧ isDigit c = false := by
  have hc : c = ' ' ∨ c = '\t' ∨ c = '\r' ∨ c = '\n' := by simpa [isBlank, or_assoc] using h
  rcases hc with rfl | rfl | rfl | rfl <;> decide

/-- No token goes on with a blank. -/
theorem longest_of_blankNext (h : Pattern kind text) (hrest : BlankNext rest) : Longest text rest := by
  have hdigit : ∀ d ∈ rest.head?, isDigit d = false := fun d hd =>
    (not_isWordChar_of_isBlank (hrest d hd)).2
  have hword : ∀ d ∈ rest.head?, isWordChar d = false := fun d hd =>
    (not_isWordChar_of_isBlank (hrest d hd)).1
  cases h with
  | symbol h => exact (longest_symbol_iff h).2 fun _ => hrest.of_ne (by decide)
  | string h => exact longest_string h
  | whole h =>
    refine (longest_whole_iff h).2 ⟨hdigit, ?_⟩
    rintro d us rfl
    exact absurd rfl (hrest.of_ne (c := '.') (by decide))
  | decimal h h' => exact (longest_decimal_iff h h').2 hdigit
  | keyword h => exact (longest_word_iff (word_of_keyword h)).2 hword
  | name h _ => exact (longest_word_iff h).2 hword

/-- A token before which no comment starts is not the start of one before a blank. -/
theorem not_startsComment_of_blankNext (hne : text ≠ []) (h : ¬ StartsComment (text ++ rest))
    (hrest : BlankNext rest') : ¬ StartsComment (text ++ rest') := by
  rintro ⟨more, hmore⟩
  match text, hne with
  | [c], _ =>
    obtain ⟨rfl, rfl⟩ : '/' = c ∧ '/' :: more = rest' := by simpa using hmore
    exact hrest.of_ne (by decide) rfl
  | c :: d :: us, _ =>
    obtain ⟨rfl, rfl, -⟩ : '/' = c ∧ '/' = d ∧ more = us ++ rest' := by simpa using hmore
    exact h ⟨us ++ rest, rfl⟩

/-- What is a token in front of one rest is the same token in front of a blank. -/
theorem Region.respaced {value : Value} (h : Region ⟨.token kind value, text⟩ rest)
    (hrest : BlankNext rest') : Region ⟨.token kind value, text⟩ rest' := by
  cases h with
  | token h hl hc hv =>
    exact .token h (longest_of_blankNext h hrest) (not_startsComment_of_blankNext h.ne_nil hc hrest) hv

end Token

/-! ### A row of tokens -/

/-- A piece that is a token wherever a blank follows it. -/
def Standalone (p : Piece) : Prop := isToken p = true ∧ ∀ rest, BlankNext rest → Region p rest

theorem Factors.standalone {source : List Char} {ps : List Piece} (h : Factors source ps) {p : Piece}
    (hp : p ∈ ps) (htoken : isToken p = true) : Standalone p := by
  obtain ⟨rest, hregion⟩ := h.exists_region hp
  obtain ⟨role, text⟩ := p
  cases role with
  | token kind value => exact ⟨htoken, fun _ hrest => hregion.respaced hrest⟩
  | _ => cases htoken

/-- A piece for each blank. -/
def blanks (gap : List Char) : List Piece := gap.map fun c => ⟨.blank, [c]⟩

theorem Factors.after_gap {gap rest : List Char} {ps : List Piece} (hgap : ∀ c ∈ gap, isBlank c = true)
    (h : Factors rest ps) : Factors (gap ++ rest) (blanks gap ++ ps) := by
  induction gap with
  | nil => exact h
  | cons c gap ih =>
    have hc : c ∈ [' ', '\t', '\r', '\n'] := by
      simpa [isBlank, or_assoc] using hgap c List.mem_cons_self
    exact .cons (.blank hc) (ih fun d hd => hgap d (List.mem_cons_of_mem _ hd))

theorem blankNext_gap {gap : List Char} (hne : gap ≠ []) (hgap : ∀ c ∈ gap, isBlank c = true)
    (rest : List Char) : BlankNext (gap ++ rest) := by
  cases gap with
  | nil => exact absurd rfl hne
  | cons c gap =>
    rintro d ⟨⟩
    exact hgap _ List.mem_cons_self

/-- Tokens joined, with or without blanks after the last one, are found again and nothing else but blanks. -/
theorem factors_of_joined {ps : List Piece} (hps : ∀ p ∈ ps, Standalone p) {ends : List (List Char)}
    (hends : ends = [] ∨ ends = [[]]) {text : List Char} (h : Joined (ps.map (·.text) ++ ends) text) :
    ∃ qs, Factors text qs ∧ qs.filter isToken = ps ∧ ∀ q ∈ qs, q.role.isError = false := by
  induction ps generalizing text with
  | nil =>
    have htext : text = [] := by
      rcases hends with rfl | rfl <;> cases h <;> rfl
    exact ⟨[], htext ▸ .nil, rfl, by simp⟩
  | cons p ps ih =>
    obtain ⟨⟨htoken, hregion⟩, hps⟩ := List.forall_mem_cons.1 hps
    have herror : p.role.isError = false := by
      obtain ⟨role, _⟩ := p
      cases role <;> first | rfl | cases htoken
    rcases h.cons_cases with ⟨hnil, rfl⟩ | ⟨gap, others, hne, hgap, hothers, rfl⟩
    · obtain ⟨hmap, -⟩ := List.append_eq_nil_iff.1 hnil
      obtain rfl := List.map_eq_nil_iff.1 hmap
      refine ⟨[p], ?_, by simp [htoken], by simpa using herror⟩
      have h := Factors.cons (hregion [] (by simp [BlankNext])) .nil
      rwa [List.append_nil] at h
    · obtain ⟨qs, hqs, hfilter, herrors⟩ := ih hps hothers
      have hblanks : (blanks gap).filter isToken = [] := by simp [blanks, isToken]
      have hpieces := (hqs.after_gap hgap).cons (hregion _ (blankNext_gap hne hgap _))
      refine ⟨p :: (blanks gap ++ qs), hpieces, ?_, ?_⟩
      · rw [List.filter_cons_of_pos htoken, List.filter_append, hblanks, hfilter, List.nil_append]
      · intro q hq
        rcases List.mem_cons.1 hq with rfl | hq
        · exact herror
        rcases List.mem_append.1 hq with hq | hq
        · obtain ⟨c, -, rfl⟩ := List.mem_map.1 hq
          rfl
        · exact herrors q hq

end Lexical

open Lexical

theorem Token.map_lexeme_of_covers {ps : List Piece} {ts : List Token} (h : Forall₂ Covers ps ts) :
    ts.map (·.lexeme.toList) = ps.map (·.text) := by
  induction h with
  | nil => rfl
  | @cons p t ps ts hcovers _ ih => rw [List.map_cons, List.map_cons, ih, show p = _ from hcovers]

/-- Tokens of the same pieces are the same but for their lines. -/
theorem Token.forall₂_sameButLine {ps : List Piece} {ts us : List Token} (ht : Forall₂ Covers ps ts)
    (hu : Forall₂ Covers ps us) : Forall₂ SameButLine ts us := by
  induction ht generalizing us with
  | nil =>
    cases hu
    exact .nil
  | @cons p t ps ts hcovers _ ih =>
    cases hu with
    | cons hcovers' hu =>
      have heq := hcovers.symm.trans hcovers'
      simp only [Piece.mk.injEq, Role.token.injEq, String.toList_inj] at heq
      exact .cons ⟨heq.1.1.symm, heq.2.symm, heq.1.2.symm⟩ (ih hu)

/-- However the lexemes of a source, with or without the empty one of its end, are joined by blanks, the
bytes of the joined text are read without an error, as the same tokens but for their lines. -/
theorem scan_joined {bytes : List UInt8} {text : List Char}
    (h : Joined ((scan (Text.decode bytes)).tokens.map (·.lexeme.toList)) text ∨
      Joined ((scan (Text.decode bytes)).tokens.dropLast.map (·.lexeme.toList)) text) :
    (scan (Text.decode (Text.encode text))).errors = [] ∧
      Forall₂ Token.SameButLine (scan (Text.decode bytes)).tokens
        (scan (Text.decode (Text.encode text))).tokens := by
  rw [Text.decode_encode]
  generalize Text.decode bytes = source at h ⊢
  have hfactors : Factors source (Token.pieces source) := Token.factors_iff_pieces.2 rfl
  have hcovers : Forall₂ Covers ((Token.pieces source).filter isToken) (Token.ofText source) :=
    Token.forall₂_covers 1 _
  have htexts := Token.map_lexeme_of_covers hcovers
  obtain ⟨ends, hends, hjoined⟩ : ∃ ends, (ends = [] ∨ ends = [[]]) ∧
      Joined (((Token.pieces source).filter isToken).map (·.text) ++ ends) text := by
    rw [scan_tokens, List.dropLast_concat, List.map_append, htexts] at h
    rcases h with h | h
    · exact ⟨[[]], .inr rfl, h⟩
    · exact ⟨[], .inl rfl, by rwa [List.append_nil]⟩
  have hstandalone : ∀ p ∈ (Token.pieces source).filter isToken, Standalone p := fun p hp =>
    hfactors.standalone (List.mem_filter.1 hp).1 (List.mem_filter.1 hp).2
  obtain ⟨qs, hqs, hfilter, herrors⟩ := factors_of_joined hstandalone hends hjoined
  obtain rfl := Token.factors_iff_pieces.1 hqs
  refine ⟨Token.scan_errors_eq_nil.2 herrors, ?_⟩
  rw [← hfilter] at hcovers
  rw [scan_tokens, scan_tokens]
  exact List.rel_append (Token.forall₂_sameButLine hcovers (Token.forall₂_covers 1 _))
    (.cons ⟨rfl, rfl, rfl⟩ .nil)

/-- Two equals signs between which nothing but a comment stands, a character that starts no token and, in a
string, a byte that is no character. -/
def brokenPieces : List UInt8 := Text.encode "x@=//y\n=\"".toList ++ 0xff :: Text.encode "//\"7.".toList

/-- The tokens of `brokenPieces` with blanks between them. -/
def respacedPieces : List Char :=
  ['x'] ++ ([' '] ++ (['='] ++ (['\t'] ++ (['='] ++ (['\n', '\n'] ++ ("\"\ufffd//\"".toList ++
    ([' '] ++ (['7'] ++ (['\r', '\n'] ++ (['.'] ++ ([' '] ++ [])))))))))))

/-- The source has an error, and the text made of its lexemes has none and the same tokens. -/
theorem respacedPieces_sameTokens :
    (scan (Text.decode brokenPieces)).errors.length = 1 ∧
      (scan (Text.decode (Text.encode respacedPieces))).errors = [] ∧
      Forall₂ Token.SameButLine (scan (Text.decode brokenPieces)).tokens
        (scan (Text.decode (Text.encode respacedPieces))).tokens := by
  have htexts : (scan (Text.decode brokenPieces)).tokens.map (·.lexeme.toList) =
      [['x'], ['='], ['='], "\"\ufffd//\"".toList, ['7'], ['.'], []] := by
    decide +kernel
  have blank {gap : List Char} (h : gap.all Token.isBlank = true) : ∀ c ∈ gap, Token.isBlank c = true :=
    List.all_eq_true.1 h
  have hjoined : Joined [['x'], ['='], ['='], "\"\ufffd//\"".toList, ['7'], ['.'], []] respacedPieces :=
    .more (by decide) (blank (by decide)) <| .more (by decide) (blank (by decide)) <|
      .more (by decide) (blank (by decide)) <| .more (by decide) (blank (by decide)) <|
        .more (by decide) (blank (by decide)) <| .more (by decide) (blank (by decide)) .last
  exact ⟨by decide +kernel, scan_joined (.inl (by rw [htexts]; exact hjoined))⟩

end LoxLang
