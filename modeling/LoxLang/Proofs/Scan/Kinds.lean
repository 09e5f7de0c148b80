import LoxLang.Parse
import LoxLang.Proofs.Scan.Lexer

/-!
# Kinds and texts of tokens

What can be told of a token without looking at the text around it: a word is of the kind that its text
has, and only the last token of a source ends it.

Main statements: `scan_spelled`, on the texts that keywords and names have, and `body_scan`, on the
tokens before the end.
-/

namespace LoxLang

namespace Token

/-- The texts of the words that stand for the receiver and for the superclass, and of names. -/
structure Spelled (t : Token) : Prop where
  name : t.kind = .identifier → t.lexeme ≠ receiver.lexeme ∧ t.lexeme ≠ superName
  this : t.kind = .kwThis → t.lexeme = receiver.lexeme
  super : t.kind = .kwSuper → t.lexeme = superName

/-- Kinds that only words have, or the end of a text. -/
def wordKinds : List Kind := [.identifier, .kwThis, .kwSuper, .eof]

theorem mem_keywords {word : List Char} {kind : Kind} (h : wordKind word = kind)
    (hk : kind ≠ .identifier) : (String.ofList word, kind) ∈ keywords := by
  rw [wordKind] at h
  cases hw : keywords.lookup (String.ofList word) with
  | none => exact absurd (by simpa [hw] using h.symm) hk
  | some k =>
    obtain rfl : k = kind := by simpa [hw] using h
    obtain ⟨before, after, heq, -⟩ := List.lookup_eq_some_iff.1 hw
    rw [heq]
    simp

theorem spelled_word {t : Token} {word : List Char} (hk : t.kind = wordKind word)
    (hl : t.lexeme = String.ofList word) : t.Spelled := by
  refine ⟨fun h => ?_, fun h => ?_, fun h => ?_⟩
  · rw [hk, wordKind] at h
    constructor <;> intro hw <;> rw [hl] at hw <;> rw [hw] at h <;> revert h <;> decide
  · have := mem_keywords (hk.symm.trans h) (by decide)
    simpa [keywords, hl, receiver] using this
  · have := mem_keywords (hk.symm.trans h) (by decide)
    simpa [keywords, hl, superName] using this

theorem spelled_of_not_mem {t : Token} (h : t.kind ∉ wordKinds) : t.Spelled := by
  refine ⟨fun hk => ?_, fun hk => ?_, fun hk => ?_⟩ <;> exact absurd (hk ▸ by decide) h

theorem punctuation?_not_mem {c : Char} {kind : Kind} (h : punctuation? c = some kind) :
    kind ∉ wordKinds := by
  unfold punctuation? at h
  split at h <;> cases h <;> decide

theorem operator?_not_mem {c : Char} {short long : Kind} (h : operator? c = some (short, long)) :
    short ∉ wordKinds ∧ long ∉ wordKinds := by
  unfold operator? at h
  split at h <;> cases h <;> decide

theorem cutSlash_kind {cs : List Char} {kind : Kind} {literal : Value}
    (h : (cutSlash cs).1.role = .token kind literal) : kind ∉ wordKinds := by
  unfold cutSlash at h
  split at h <;> cases h
  decide

theorem cutString_kind {cs : List Char} {kind : Kind} {literal : Value}
    (h : (cutString cs).1.role = .token kind literal) : kind ∉ wordKinds := by
  rw [cutString] at h
  split at h <;> cases h
  decide

theorem numberRole_kind {whole fraction : List Char} {kind : Kind} {literal : Value}
    (h : numberRole whole fraction = .token kind literal) : kind ∉ wordKinds := by
  rw [numberRole] at h
  generalize (Decimal.ofLiteral whole fraction).toFloat? = x at h
  cases x with
  | none => cases h
  | some x =>
    cases h
    decide

theorem cutSymbol_kind {c : Char} {cs : List Char} {kind : Kind} {literal : Value}
    (h : (cutSymbol c cs).1.role = .token kind literal) : kind ∉ wordKinds := by
  unfold cutSymbol at h
  split at h <;> cases h
  · next hp => exact punctuation?_not_mem hp
  · next ho => exact (operator?_not_mem ho).2
  · next ho => exact (operator?_not_mem ho).1

/-- A piece that is a word is of the kind that its text has, and all others are of no word's kind. -/
theorem munch_kind {c : Char} {cs : List Char} {kind : Kind} {literal : Value}
    (h : (munch c cs).1.role = .token kind literal) :
    kind = wordKind (munch c cs).1.text ∨ kind ∉ wordKinds := by
  rw [munch] at h ⊢
  by_cases hb : isBlank c = true
  · simp [hb] at h
  by_cases hslash : (c == '/') = true
  · exact .inr (cutSlash_kind (by simpa [hb, hslash] using h))
  by_cases hquote : (c == '"') = true
  · exact .inr (cutString_kind (by simpa [hb, hslash, hquote] using h))
  by_cases hdigit : isDigit c = true
  · simp only [hb, hslash, hquote, hdigit, Bool.false_eq_true, if_false, if_true] at h
    exact .inr (numberRole_kind h)
  by_cases hletter : isLetter c = true
  · simp only [hb, hslash, hquote, hdigit, hletter, Bool.false_eq_true, if_false, if_true] at h ⊢
    cases h
    exact .inl rfl
  · exact .inr (cutSymbol_kind (by simpa [hb, hslash, hquote, hdigit, hletter] using h))

theorem pieces_kind {source : List Char} {p : Piece} (hp : p ∈ pieces source) {kind : Kind}
    {literal : Value} (h : p.role = .token kind literal) :
    kind = wordKind p.text ∨ kind ∉ wordKinds := by
  fun_induction pieces source with
  | case1 => simp at hp
  | case2 c cs ih =>
    rcases List.mem_cons.1 hp with rfl | hp
    · exact munch_kind h
    · exact ih hp

theorem mem_of_mem_numbered {line k : Nat} {p : Piece} {ps : List Piece}
    (h : (k, p) ∈ numbered line ps) : p ∈ ps := by
  induction ps generalizing line with
  | nil => simp [numbered] at h
  | cons q ps ih =>
    simp only [numbered, List.mem_cons, Prod.mk.injEq] at h
    rcases h with ⟨-, rfl⟩ | h
    · exact List.mem_cons_self
    · exact List.mem_cons_of_mem _ (ih h)

end Token

/-- All tokens of a source have the texts that their kinds have. -/
theorem scan_spelled {source : List Char} {t : Token} (h : t ∈ (scan source).tokens) : t.Spelled := by
  simp only [scan_tokens, Token.ofText, List.mem_append, List.mem_filterMap, List.mem_singleton] at h
  rcases h with ⟨⟨line, ⟨role, text⟩⟩, hp, ht⟩ | rfl
  · cases role with
    | token kind literal =>
      cases ht
      rcases Token.pieces_kind (Token.mem_of_mem_numbered hp) rfl with h | h
      · exact Token.spelled_word h rfl
      · exact Token.spelled_of_not_mem h
    | _ => cases ht
  · refine ⟨fun h => ?_, fun h => ?_, fun h => ?_⟩ <;> cases h

namespace Token

theorem wordKind_ne_eof (word : List Char) : wordKind word ≠ .eof := by
  intro h
  have := mem_keywords h (by decide)
  simp [keywords] at this

theorem ofText_kind {source : List Char} {t : Token} (h : t ∈ ofText source) : t.kind ≠ .eof := by
  obtain ⟨⟨line, ⟨role, text⟩⟩, hp, ht⟩ := List.mem_filterMap.1 h
  cases role with
  | token kind literal =>
    cases ht
    rcases pieces_kind (mem_of_mem_numbered hp) rfl with h | h
    · exact h ▸ wordKind_ne_eof text
    · rintro rfl
      exact h (by decide)
  | _ => cases ht

end Token

/-- The parser sees the tokens of a source, and then their end. -/
theorem body_scan (source : List Char) : Parse.body (scan source).tokens = Token.ofText source := by
  rw [Parse.body, scan_tokens, List.takeWhile_append_of_pos]
  · simp [Token.isEof]
  · intro t ht
    simpa [Token.isEof] using Token.ofText_kind ht

end LoxLang
