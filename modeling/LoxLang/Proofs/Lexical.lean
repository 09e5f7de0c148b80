import LoxLang.Proofs.Scan.Pieces

/-!
# The lexical grammar

What a source text is made of, said without saying how it is found: texts that are tokens, and stretches
of source text, each with what follows it. A token is the longest text at its place that is one, and two
slashes start a comment wherever no string is open.

Main statements: when a text is the longest token at its place, told from what follows it
(`longest_word_iff`, `longest_whole_iff`, `longest_decimal_iff`, `longest_symbol_iff`,
`longest_string`).
-/

namespace LoxLang.Lexical

open Token (isDigit isLetter isWordChar keywords)

/-! ### Tokens -/

/-- The tokens that are no words and have one text each. -/
def symbols : List (String × Token.Kind) :=
  [("(", .leftParen), (")", .rightParen), ("\x7b", .leftBrace), ("\x7d", .rightBrace), (",", .comma),
   (".", .dot), ("-", .minus), ("+", .plus), (";", .semicolon), ("*", .star), ("/", .slash),
   ("!", .bang), ("!=", .bangEqual), ("=", .equal), ("==", .equalEqual),
   ("<", .less), ("<=", .lessEqual), (">", .greater), (">=", .greaterEqual)]

/-- One digit or more. -/
structure Digits (ds : List Char) : Prop where
  ne_nil : ds ≠ []
  all : ∀ d ∈ ds, isDigit d = true

/-- A letter or underscore, and then letters, underscores and digits. -/
structure Word (text : List Char) : Prop where
  head : ∃ c ∈ text.head?, isLetter c = true
  all : ∀ d ∈ text, isWordChar d = true

/-- A text is a token of some kind. A word that is a keyword is not a name. -/
inductive Pattern : Token.Kind → List Char → Prop where
  | symbol (h : (text, kind) ∈ symbols) : Pattern kind text.toList
  | string (h : '"' ∉ quoted) : Pattern .string ('"' :: (quoted ++ ['"']))
  | whole (h : Digits ds) : Pattern .number ds
  | decimal (h : Digits ds) (h' : Digits fs) : Pattern .number (ds ++ '.' :: fs)
  | keyword (h : (word, kind) ∈ keywords) : Pattern kind word.toList
  | name (h : Word text) (h' : ∀ kind, (String.ofList text, kind) ∉ keywords) :
      Pattern .identifier text

/-- No longer text at the place of a text is a token. -/
def Longest (text rest : List Char) : Prop :=
  ∀ kind longer, longer <+: text ++ rest → Pattern kind longer → longer.length ≤ text.length

/-- The double that a text of digits, with a point among them or not, is rounded to, unless it is out
of range. -/
def float? (text : List Char) : Option Float :=
  (Decimal.ofLiteral (text.takeWhile (· != '.')) ((text.dropWhile (· != '.')).drop 1)).toFloat?

/-- The value of a token: of a string what is between its quotes, of a number the double that it
writes, and nil of all others. -/
inductive Denotes : Token.Kind → List Char → Value → Prop where
  | string : Denotes .string ('"' :: (quoted ++ ['"'])) (.string (String.ofList quoted))
  | number (h : float? text = some x) : Denotes .number text (.number x)
  | other (h : kind ≠ .string) (h' : kind ≠ .number) : Denotes kind text .nil

theorem Denotes.eq_nil {kind : Token.Kind} {text : List Char} {v : Value} (h : Denotes kind text v)
    (hs : kind ≠ .string) (hn : kind ≠ .number) : v = .nil := by
  cases h with
  | string => exact absurd rfl hs
  | number h => exact absurd rfl hn
  | other => rfl

theorem Denotes.eq_string {quoted : List Char} {v : Value}
    (h : Denotes .string ('"' :: (quoted ++ ['"'])) v) : v = .string (String.ofList quoted) := by
  generalize htext : '"' :: (quoted ++ ['"']) = text at h
  cases h with
  | string =>
    obtain ⟨rfl⟩ : quoted = _ := by simpa using htext
    rfl
  | other hs => exact absurd rfl hs

theorem Denotes.eq_number {text : List Char} {v : Value} (h : Denotes .number text v) :
    ∃ x, float? text = some x ∧ v = .number x := by
  cases h with
  | number h => exact ⟨_, h, rfl⟩
  | other _ hn => exact absurd rfl hn

/-! ### Regions of a source text -/

/-- A text starts with two slashes. -/
def StartsComment (text : List Char) : Prop := ['/', '/'] <+: text

/-- A stretch of source text is what its role says, in front of the rest. -/
inductive Region : Token.Piece → List Char → Prop where
  | blank (h : c ∈ [' ', '\t', '\r', '\n']) : Region ⟨.blank, [c]⟩ rest
  | comment (h : '\n' ∉ body) (hrest : ∀ c ∈ rest.head?, c = '\n') :
      Region ⟨.comment, '/' :: '/' :: body⟩ rest
  | token (h : Pattern kind text) (hl : Longest text rest) (hc : ¬ StartsComment (text ++ rest))
      (hv : Denotes kind text value) : Region ⟨.token kind value, text⟩ rest
  /-- a character at which neither a token nor an open string starts -/
  | stray (hb : c ∉ [' ', '\t', '\r', '\n']) (hq : c ≠ '"')
      (hn : ∀ kind text, text <+: c :: rest → ¬ Pattern kind text) : Region ⟨.stray, [c]⟩ rest
  | openString (h : '"' ∉ quoted) : Region ⟨.openString, '"' :: quoted⟩ []
  /-- a number whose double is out of range -/
  | hugeNumber (h : Pattern .number text) (hl : Longest text rest) (hv : float? text = none) :
      Region ⟨.hugeNumber, text⟩ rest

/-- A source text is these regions, one after the other. -/
inductive Factors : List Char → List Token.Piece → Prop where
  | nil : Factors [] []
  | cons (first : Region p rest) (more : Factors rest ps) : Factors (p.text ++ rest) (p :: ps)

/-- Each of the regions is one in front of what follows it. -/
theorem Factors.exists_region {source : List Char} {ps : List Token.Piece} (h : Factors source ps)
    {p : Token.Piece} (hp : p ∈ ps) : ∃ rest, Region p rest := by
  induction h with
  | nil => cases hp
  | cons first _ ih =>
    rcases List.mem_cons.1 hp with rfl | hp
    · exact ⟨_, first⟩
    · exact ih hp

/-! ### What is found in a source text -/

def isToken (p : Token.Piece) : Bool :=
  match p.role with
  | .token _ _ => true
  | _ => false

def isError (p : Token.Piece) : Bool :=
  match p.role with
  | .stray | .openString | .hugeNumber => true
  | _ => false

/-- A token is a piece of the source text, with its kind, its value and its text. -/
def Covers (p : Token.Piece) (t : Token) : Prop := p = ⟨.token t.kind t.literal, t.lexeme.toList⟩

/-- The error for a piece that is no token. -/
inductive Reported : Token.Piece → LexicalError → Prop where
  | stray : Reported ⟨.stray, [c]⟩ ⟨line, .unexpected c⟩
  | openString : Reported ⟨.openString, text⟩ ⟨line, .unterminatedString⟩
  | hugeNumber : Reported ⟨.hugeNumber, text⟩ ⟨line, .numberOutOfRange (String.ofList text)⟩

/-! ### What the first character tells -/

theorem not_isLetter_of_isDigit {c : Char} (h : isDigit c = true) : isLetter c = false := by
  simp only [isDigit, Bool.and_eq_true, decide_eq_true_eq] at h
  rw [Bool.eq_false_iff]
  intro hl
  simp only [isLetter, Bool.or_eq_true, Bool.and_eq_true, decide_eq_true_eq, beq_iff_eq] at hl
  rcases hl with (⟨ha, -⟩ | ⟨hA, -⟩) | rfl
  · exact absurd (Char.le_trans ha h.2) (by decide)
  · exact absurd (Char.le_trans hA h.2) (by decide)
  · exact absurd h.2 (by decide)

theorem Digits.head {ds : List Char} (h : Digits ds) : ∃ d us, ds = d :: us ∧ isDigit d = true := by
  cases ds with
  | nil => exact absurd rfl h.ne_nil
  | cons d us => exact ⟨d, us, rfl, h.all d List.mem_cons_self⟩

theorem Digits.append {ds fs : List Char} (h : Digits ds) (h' : ∀ d ∈ fs, isDigit d = true) :
    Digits (ds ++ fs) :=
  ⟨by simp [h.ne_nil], fun d hd => (List.mem_append.1 hd).elim (h.all d) (h' d)⟩

/-- Every keyword is a word. -/
theorem word_of_keyword {word : String} {kind : Token.Kind} (h : (word, kind) ∈ keywords) :
    Word word.toList := by
  have hall : ∀ entry ∈ keywords, entry.1.toList.head?.any isLetter = true ∧
      entry.1.toList.all isWordChar = true := by
    decide
  obtain ⟨hhead, hchars⟩ := hall _ h
  exact ⟨(Option.any_eq_true _ _).1 hhead, List.all_eq_true.1 hchars⟩

/-- A word is a token, of the kind that the table of keywords gives it. -/
theorem Word.pattern {text : List Char} (h : Word text) : Pattern (Token.wordKind text) text := by
  rw [Token.wordKind]
  cases hw : keywords.lookup (String.ofList text) with
  | none =>
    refine .name h fun kind hk => ?_
    exact absurd (List.lookup_eq_none_iff.1 hw _ hk) (by simp)
  | some kind =>
    obtain ⟨before, after, heq, -⟩ := List.lookup_eq_some_iff.1 hw
    have hk : (String.ofList text, kind) ∈ keywords := by
      rw [heq]
      simp
    simpa using Pattern.keyword hk

/-- What the symbols start with starts nothing else. -/
theorem symbols_head {c : Char} {cs : List Char} {kind : Token.Kind}
    (h : (String.ofList (c :: cs), kind) ∈ symbols) :
    isDigit c = false ∧ isLetter c = false ∧ c ≠ '"' ∧ Token.isBlank c = false := by
  have hall : symbols.all fun entry => entry.1.toList.head?.all fun c =>
      !isDigit c && !isLetter c && c != '"' && !Token.isBlank c := by
    decide
  simpa [and_assoc] using List.all_eq_true.1 hall _ h

section First

variable {c : Char} {cs : List Char} {kind : Token.Kind}

/-- What a token is, by the character that it starts with. -/
theorem Pattern.cons_cases (h : Pattern kind (c :: cs)) :
    (isDigit c = true ∧ (Digits (c :: cs) ∨
        ∃ ds fs, Digits ds ∧ Digits fs ∧ c :: cs = ds ++ '.' :: fs)) ∨
      (isLetter c = true ∧ Word (c :: cs)) ∨
      (c = '"' ∧ ∃ quoted, '"' ∉ quoted ∧ cs = quoted ++ ['"']) ∨
      (String.ofList (c :: cs), kind) ∈ symbols := by
  have hdigit {d : Char} {us : List Char} (hd : isDigit d = true) (heq : c :: cs = d :: us) :
      isDigit c = true := by
    cases heq
    exact hd
  have hletter (h : Word (c :: cs)) : isLetter c = true := by
    obtain ⟨c', hc', hl⟩ := h.head
    cases hc'
    exact hl
  generalize htext : c :: cs = text at h hdigit hletter
  cases h with
  | symbol h => exact .inr (.inr (.inr (by simpa using h)))
  | string h =>
    cases htext
    exact .inr (.inr (.inl ⟨rfl, _, h, rfl⟩))
  | whole h =>
    obtain ⟨d, us, rfl, hd⟩ := h.head
    exact .inl ⟨hdigit hd rfl, .inl h⟩
  | decimal h h' =>
    obtain ⟨d, us, rfl, hd⟩ := h.head
    exact .inl ⟨hdigit hd rfl, .inr ⟨_, _, h, h', rfl⟩⟩
  | keyword h => exact .inr (.inl ⟨hletter (word_of_keyword h), word_of_keyword h⟩)
  | name h h' => exact .inr (.inl ⟨hletter h, h⟩)

theorem Pattern.ne_nil {text : List Char} (h : Pattern kind text) : text ≠ [] := by
  have hword {text : List Char} (h : Word text) : text ≠ [] := by
    rintro rfl
    obtain ⟨c, hc, -⟩ := h.head
    cases hc
  cases h with
  | symbol h => exact (by decide : ∀ entry ∈ symbols, entry.1.toList ≠ []) _ h
  | string h => simp
  | whole h => exact h.ne_nil
  | decimal h h' => simp
  | keyword h => exact hword (word_of_keyword h)
  | name h h' => exact hword h

theorem Pattern.of_digit (h : Pattern kind (c :: cs)) (hc : isDigit c = true) :
    Digits (c :: cs) ∨ ∃ ds fs, Digits ds ∧ Digits fs ∧ c :: cs = ds ++ '.' :: fs := by
  rcases h.cons_cases with ⟨-, h⟩ | ⟨hletter, -⟩ | ⟨rfl, -⟩ | h
  · exact h
  · simp [not_isLetter_of_isDigit hc] at hletter
  · exact absurd hc (by decide)
  · simp [(symbols_head h).1] at hc

theorem Pattern.of_letter (h : Pattern kind (c :: cs)) (hc : isLetter c = true) :
    Word (c :: cs) := by
  rcases h.cons_cases with ⟨hdigit, -⟩ | ⟨-, h⟩ | ⟨rfl, -⟩ | h
  · simp [not_isLetter_of_isDigit hdigit] at hc
  · exact h
  · exact absurd hc (by decide)
  · simp [(symbols_head h).2.1] at hc

theorem Pattern.of_quote (h : Pattern kind ('"' :: cs)) : ∃ quoted, '"' ∉ quoted ∧ cs = quoted ++ ['"'] := by
  rcases h.cons_cases with ⟨hdigit, -⟩ | ⟨hletter, -⟩ | ⟨-, h⟩ | h
  · exact absurd hdigit (by decide)
  · exact absurd hletter (by decide)
  · exact h
  · exact absurd rfl (symbols_head h).2.2.1

theorem Pattern.number_cases {text : List Char} (h : Pattern .number text) :
    Digits text ∨ ∃ ds fs, Digits ds ∧ Digits fs ∧ text = ds ++ '.' :: fs := by
  generalize hkind : Token.Kind.number = kind at h
  cases h with
  | symbol h => exact absurd hkind.symm ((by decide : ∀ entry ∈ symbols, entry.2 ≠ .number) _ h)
  | string h => cases hkind
  | whole h => exact .inl h
  | decimal h h' => exact .inr ⟨_, _, h, h', rfl⟩
  | keyword h => exact absurd hkind.symm ((by decide : ∀ entry ∈ keywords, entry.2 ≠ .number) _ h)
  | name h h' => cases hkind

/-- No token starts with a blank. -/
theorem Pattern.not_blank (h : Pattern kind (c :: cs)) : Token.isBlank c = false := by
  rw [Bool.eq_false_iff]
  intro hb
  obtain ⟨hdigit, hletter, hquote⟩ : isDigit c = false ∧ isLetter c = false ∧ c ≠ '"' := by
    have hblank : c = ' ' ∨ c = '\t' ∨ c = '\r' ∨ c = '\n' := by
      simpa [Token.isBlank, or_assoc] using hb
    rcases hblank with rfl | rfl | rfl | rfl <;> decide
  rcases h.cons_cases with ⟨h, -⟩ | ⟨h, -⟩ | ⟨h, -⟩ | h
  · simp [hdigit] at h
  · simp [hletter] at h
  · exact hquote h
  · simp [(symbols_head h).2.2.2] at hb

end First

/-! ### How far a token reaches -/

section Longest

variable {text rest longer ds fs quoted : List Char}

/-- A longer text at the same place takes something from what follows. -/
theorem exists_of_longer (h : longer <+: text ++ rest) (hlen : text.length < longer.length) :
    ∃ d us, longer = text ++ d :: us ∧ d :: us <+: rest := by
  obtain ⟨more, rfl⟩ := List.prefix_of_prefix_length_le (List.prefix_append text rest) h
    (Nat.le_of_lt hlen)
  rw [List.prefix_append_right_inj] at h
  cases more with
  | nil => simp at hlen
  | cons d us => exact ⟨d, us, rfl, h⟩

/-- A text is the longest token if none takes something from what follows. -/
theorem longest_of_forall
    (h : ∀ kind d us, d :: us <+: rest → ¬ Pattern kind (text ++ d :: us)) : Longest text rest := by
  intro kind longer hpre hp
  refine Nat.le_of_not_lt fun hlen => ?_
  obtain ⟨d, us, rfl, hus⟩ := exists_of_longer hpre hlen
  exact h kind d us hus hp

/-- The longest token does not become another one with what follows. -/
theorem Longest.not_pattern {d : Char} {us : List Char} {kind : Token.Kind} (h : Longest text rest)
    (hus : d :: us <+: rest) : ¬ Pattern kind (text ++ d :: us) := by
  intro hp
  have hlen := h kind _ ((List.prefix_append_right_inj text).2 hus) hp
  rw [List.length_append, List.length_cons] at hlen
  omega

theorem singleton_isPrefix {d : Char} (h : d ∈ rest.head?) : [d] <+: rest := by
  obtain ⟨us, rfl⟩ := List.head?_eq_some_iff.1 h
  exact ⟨us, rfl⟩

theorem head?_of_isPrefix {d : Char} {us : List Char} (h : d :: us <+: rest) : d ∈ rest.head? := by
  obtain ⟨more, rfl⟩ := h
  rfl

/-- A stretch of characters of one class ends where another class begins. -/
theorem takeWhile_append_stretch {p : Char → Bool} (h : ∀ d ∈ ds, p d = true) (rest : List Char)
    (hrest : ∀ d ∈ rest.head?, p d = false) :
    (ds ++ rest).takeWhile p = ds ∧ (ds ++ rest).dropWhile p = rest := by
  rw [List.takeWhile_append_of_pos h, List.dropWhile_append_of_pos h]
  cases rest with
  | nil => simp
  | cons d us => simp [hrest d rfl]

theorem bne_of_not_mem {c : Char} {cs : List Char} (h : c ∉ cs) : ∀ d ∈ cs, (d != c) = true := by
  intro d hd
  rw [bne_iff_ne]
  rintro rfl
  exact h hd

/-- A word is the longest token where no character of a word follows. -/
theorem longest_word_iff (h : Word text) :
    Longest text rest ↔ ∀ d ∈ rest.head?, isWordChar d = false := by
  constructor
  · intro hl d hd
    rw [Bool.eq_false_iff]
    intro hw
    have hlonger : Word (text ++ [d]) := by
      obtain ⟨c, hc, hletter⟩ := h.head
      refine ⟨⟨c, by simp_all, hletter⟩, fun x hx => ?_⟩
      rcases List.mem_append.1 hx with hx | hx
      · exact h.all x hx
      · rwa [List.mem_singleton.1 hx]
    exact hl.not_pattern (singleton_isPrefix hd) hlonger.pattern
  · intro hstop
    refine longest_of_forall fun kind d us hus hp => ?_
    obtain ⟨c, hc, hletter⟩ := h.head
    obtain ⟨cs, rfl⟩ := List.head?_eq_some_iff.1 hc
    have hd := (hp.of_letter hletter).all d (by simp)
    simp [hstop d (head?_of_isPrefix hus)] at hd

/-- A row of digits is the longest token where neither a digit nor a fraction follows. -/
theorem longest_whole_iff (h : Digits ds) :
    Longest ds rest ↔ (∀ d ∈ rest.head?, isDigit d = false) ∧
      ∀ d us, rest = '.' :: d :: us → isDigit d = false := by
  constructor
  · intro hl
    refine ⟨fun d hd => ?_, ?_⟩
    · rw [Bool.eq_false_iff]
      intro hdigit
      refine hl.not_pattern (singleton_isPrefix hd) (.whole (h.append ?_))
      simpa using hdigit
    · rintro d us rfl
      rw [Bool.eq_false_iff]
      intro hdigit
      have hfs : Digits [d] := ⟨by simp, by simpa using hdigit⟩
      have hpre : ['.', d] <+: '.' :: d :: us := ⟨us, rfl⟩
      exact hl.not_pattern hpre (.decimal h hfs)
  · rintro ⟨hstop, hfraction⟩
    refine longest_of_forall fun kind d us hus hp => ?_
    have hd := hstop d (head?_of_isPrefix hus)
    obtain ⟨c, cs, hcs, hc⟩ := h.head
    rw [hcs, List.cons_append] at hp
    rcases hp.of_digit hc with hall | ⟨ds', fs, hds', hfs, heq⟩
    · simpa [hd] using hall.all d (by simp)
    · -- both rows of digits end where the text stops being digits
      rw [← List.cons_append, ← hcs] at heq
      have hleft := takeWhile_append_stretch h.all (d :: us) (by simpa using hd)
      have hright := takeWhile_append_stretch hds'.all ('.' :: fs) (by simp [isDigit])
      rw [heq] at hleft
      obtain ⟨rfl, rfl⟩ : d = '.' ∧ us = fs := by simpa using hleft.2.symm.trans hright.2
      obtain ⟨d, us, rfl, hdigit⟩ := hfs.head
      obtain ⟨more, rfl⟩ := hus
      simp [hfraction d (us ++ more) (by simp)] at hdigit

/-- A number with a fraction is the longest token where no digit follows. -/
theorem longest_decimal_iff (h : Digits ds) (h' : Digits fs) :
    Longest (ds ++ '.' :: fs) rest ↔ ∀ d ∈ rest.head?, isDigit d = false := by
  constructor
  · intro hl d hd
    rw [Bool.eq_false_iff]
    intro hdigit
    have hfs : Digits (fs ++ [d]) := h'.append (by simpa using hdigit)
    exact hl.not_pattern (singleton_isPrefix hd) (by simpa using Pattern.decimal h hfs)
  · intro hstop
    refine longest_of_forall fun kind d us hus hp => ?_
    have hd := hstop d (head?_of_isPrefix hus)
    obtain ⟨c, cs, hcs, hc⟩ := h.head
    rw [hcs, List.cons_append, List.cons_append] at hp
    rcases hp.of_digit hc with hall | ⟨ds', fs', hds', hfs', heq⟩
    · exact absurd (hall.all '.' (by simp)) (by decide)
    · rw [← List.cons_append, ← List.cons_append, ← hcs, List.append_assoc, List.cons_append] at heq
      have hleft := takeWhile_append_stretch h.all ('.' :: (fs ++ d :: us)) (by simp [isDigit])
      have hright := takeWhile_append_stretch hds'.all ('.' :: fs') (by simp [isDigit])
      rw [heq] at hleft
      obtain rfl : fs' = fs ++ d :: us := by simpa using hright.2.symm.trans hleft.2
      simpa [hd] using hfs'.all d (by simp)

/-- A string ends at the first quote. -/
theorem longest_string (h : '"' ∉ quoted) : Longest ('"' :: (quoted ++ ['"'])) rest := by
  refine longest_of_forall fun kind d us _ hp => ?_
  rw [List.cons_append, List.append_assoc, List.singleton_append] at hp
  obtain ⟨quoted', hquoted', heq⟩ := hp.of_quote
  have hstretch {i us : List Char} (hi : '"' ∉ i) :
      (i ++ '"' :: us).dropWhile (· != '"') = '"' :: us :=
    (takeWhile_append_stretch (bne_of_not_mem hi) _ (by simp)).2
  have hright : (quoted' ++ ['"']).dropWhile (· != '"') = ['"'] := hstretch hquoted'
  rw [← heq, hstretch h] at hright
  cases hright

/-- A symbol is the longest token unless it is an operator before an equals sign. -/
theorem longest_symbol_iff {text : String} {kind : Token.Kind} (h : (text, kind) ∈ symbols) :
    Longest text.toList rest ↔ (text ++ "=" ∈ symbols.map Prod.fst → rest.head? ≠ some '=') := by
  constructor
  · intro hl hk hrest
    obtain ⟨⟨longer, kind'⟩, hk, rfl⟩ := List.mem_map.1 hk
    have hp := Pattern.symbol hk
    rw [String.toList_append] at hp
    exact hl.not_pattern (singleton_isPrefix hrest) hp
  · intro hstop
    refine longest_of_forall fun kind' d us hus hp => ?_
    obtain ⟨c, cs, hcs⟩ := List.exists_cons_of_ne_nil (Pattern.symbol h).ne_nil
    have hhead : isDigit c = false ∧ isLetter c = false ∧ c ≠ '"' ∧ Token.isBlank c = false := by
      rw [← String.ofList_toList (s := text), hcs] at h
      exact symbols_head h
    have hlonger : (String.ofList (text.toList ++ d :: us), kind') ∈ symbols := by
      rw [hcs, List.cons_append] at hp ⊢
      rcases hp.cons_cases with ⟨hdigit, -⟩ | ⟨hletter, -⟩ | ⟨hquote, -⟩ | hsymbol
      · simp [hhead.1] at hdigit
      · simp [hhead.2.1] at hletter
      · exact absurd hquote hhead.2.2.1
      · exact hsymbol
    -- of two symbols of which one starts with the other, the longer one adds an equals sign
    have hall : ∀ entry ∈ symbols, ∀ entry' ∈ symbols, entry.1.toList <+: entry'.1.toList →
        entry'.1.toList = entry.1.toList ∨ entry'.1.toList = entry.1.toList ++ ['='] := by
      decide
    have hcases := hall _ h _ hlonger (by simp)
    obtain ⟨rfl, rfl⟩ : d = '=' ∧ us = [] := by simpa using hcases
    rw [String.ofList_append, String.ofList_toList] at hlonger
    exact hstop (List.mem_map_of_mem hlonger) (head?_of_isPrefix hus)

end Longest

end LoxLang.Lexical
