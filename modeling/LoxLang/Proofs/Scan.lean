import LoxLang.Proofs.Lexical
import LoxLang.Proofs.Scan.Kinds
import LoxLang.Proofs.Text.Utf8
import Mathlib.Data.List.Forall2
import Mathlib.Data.List.TakeWhile

/-!
# The scanner and the lexical grammar

The scanner cuts a source text as the lexical grammar says, and there is no other way to cut it.

Main statements: `region_munch` and `munch_of_region`, for one piece, `factors_iff_pieces`, for a
text, `scan_lexed`, for a token, and `scan_factors`, for what scanning finds in the bytes of a source.
-/

namespace LoxLang

open Lexical

namespace Token

/-! ### Symbols -/

section Symbols

variable {c : Char} {kind short long : Kind}

theorem symbol_of_punctuation? (h : punctuation? c = some kind) :
    (String.ofList [c], kind) ∈ symbols ∧ String.ofList [c] ++ "=" ∉ symbols.map Prod.fst := by
  unfold punctuation? at h
  split at h <;> cases h <;> decide

theorem symbol_of_operator? (h : operator? c = some (short, long)) :
    (String.ofList [c], short) ∈ symbols ∧ (String.ofList [c, '='], long) ∈ symbols ∧
      String.ofList [c, '='] ++ "=" ∉ symbols.map Prod.fst := by
  unfold operator? at h
  split at h <;> cases h <;> decide

/-- What a symbol is made of. -/
theorem symbol_cases {text : String} (h : (text, kind) ∈ symbols) :
    (text = "/" ∧ kind = .slash) ∨
      (∃ c, text = String.ofList [c] ∧ punctuation? c = some kind) ∨
      (∃ c long, text = String.ofList [c] ∧ operator? c = some (kind, long)) ∨
      ∃ c short, text = String.ofList [c, '='] ∧ operator? c = some (short, kind) := by
  simp only [symbols, List.mem_cons, Prod.mk.injEq, List.not_mem_nil, or_false] at h
  rcases h with ⟨rfl, rfl⟩ | ⟨rfl, rfl⟩ | ⟨rfl, rfl⟩ | ⟨rfl, rfl⟩ | ⟨rfl, rfl⟩ | ⟨rfl, rfl⟩ | ⟨rfl, rfl⟩ |
    ⟨rfl, rfl⟩ | ⟨rfl, rfl⟩ | ⟨rfl, rfl⟩ | ⟨rfl, rfl⟩ | h
  iterate 10 exact .inr (.inl ⟨_, rfl, rfl⟩)
  · exact .inl ⟨rfl, rfl⟩
  rcases h with ⟨rfl, rfl⟩ | ⟨rfl, rfl⟩ | ⟨rfl, rfl⟩ | ⟨rfl, rfl⟩ | ⟨rfl, rfl⟩ | ⟨rfl, rfl⟩ | ⟨rfl, rfl⟩ |
    ⟨rfl, rfl⟩
  iterate 4
    exact .inr (.inr (.inl ⟨_, _, rfl, rfl⟩))
    exact .inr (.inr (.inr ⟨_, _, rfl, rfl⟩))

theorem punctuation?_of_operator? (h : operator? c = some (short, long)) : punctuation? c = none := by
  unfold operator? at h
  split at h <;> cases h <;> rfl

/-- Symbols other than the slash start with punctuation or an operator. -/
theorem not_symbol {cs : List Char} (hslash : c ≠ '/') (hp : punctuation? c = none)
    (ho : operator? c = none) : (String.ofList (c :: cs), kind) ∉ symbols := by
  intro h
  have hhead {d : Char} (us : List Char) (heq : String.ofList (c :: cs) = String.ofList (d :: us)) :
      c = d := (List.cons.inj (String.ofList_injective heq)).1
  rcases symbol_cases h with ⟨heq, -⟩ | ⟨d, heq, hd⟩ | ⟨d, long, heq, hd⟩ | ⟨d, short, heq, hd⟩
  · exact hslash (hhead [] heq)
  · simp [← hhead [] heq, hp] at hd
  · simp [← hhead [] heq, ho] at hd
  · simp [← hhead ['='] heq, ho] at hd

end Symbols

/-! ### Every piece is a region -/

section Region

variable {c : Char} {cs : List Char}

theorem not_startsComment (h : c ≠ '/') : ¬ StartsComment (c :: cs) := by
  rintro ⟨more, hmore⟩
  cases hmore
  exact h rfl

theorem head?_dropWhile {p : Char → Bool} : ∀ d ∈ (cs.dropWhile p).head?, p d = false := by
  intro d hd
  have := List.head?_dropWhile_not p cs
  rw [hd] at this
  simpa using this

theorem region_symbol {text : String} {kind : Kind} {rest : List Char} (h : (text, kind) ∈ symbols)
    (hl : text ++ "=" ∈ symbols.map Prod.fst → rest.head? ≠ some '=')
    (hc : ¬ StartsComment (text.toList ++ rest)) : Region ⟨.token kind .nil, text.toList⟩ rest := by
  have hkind : ∀ entry ∈ symbols, entry.2 ≠ .string ∧ entry.2 ≠ .number := by decide
  exact .token (.symbol h) ((longest_symbol_iff h).2 hl) hc (.other (hkind _ h).1 (hkind _ h).2)

theorem region_cutSlash (cs : List Char) : Region (cutSlash cs).1 (cutSlash cs).2 := by
  unfold cutSlash
  split
  · next cs =>
    refine .comment (fun h => ?_) fun d hd => ?_
    · simpa using List.mem_takeWhile_imp h
    · simpa using head?_dropWhile d hd
  · next hslash =>
    have h : ("/", Kind.slash) ∈ symbols := by decide
    refine region_symbol h (fun h => absurd h (by decide)) ?_
    rintro ⟨more, hmore⟩
    exact hslash more (by simpa using hmore.symm)

theorem region_cutString (cs : List Char) : Region (cutString cs).1 (cutString cs).2 := by
  have hinner : '"' ∉ cs.takeWhile (· != '"') := fun h => by simpa using List.mem_takeWhile_imp h
  unfold cutString
  split
  · exact .openString hinner
  · next quote rest hrest =>
    have hquote := head?_dropWhile (p := (· != '"')) quote (by rw [hrest]; rfl)
    obtain rfl := bne_eq_false_iff_eq.1 hquote
    exact .token (.string hinner) (longest_string hinner) (not_startsComment (by decide)) .string

theorem region_cutWord (hc : isLetter c = true) (cs : List Char) :
    Region (cutWord c cs).1 (cutWord c cs).2 := by
  have hword : Word (c :: cs.takeWhile isWordChar) := by
    refine ⟨⟨c, rfl, hc⟩, fun d hd => ?_⟩
    rcases List.mem_cons.1 hd with rfl | hd
    · simp [isWordChar, hc]
    · exact List.mem_takeWhile_imp hd
  have hkind (kind : Kind) (hk : kind ≠ .identifier) (h : ∀ entry ∈ keywords, entry.2 ≠ kind) :
      wordKind (c :: cs.takeWhile isWordChar) ≠ kind := fun heq => h _ (mem_keywords heq hk) rfl
  have hslash : c ≠ '/' := by
    rintro rfl
    exact absurd hc (by decide)
  refine .token hword.pattern ((longest_word_iff hword).2 head?_dropWhile) (not_startsComment hslash) ?_
  exact .other (hkind _ (by decide) (by decide)) (hkind _ (by decide) (by decide))

/-- The digits of a number give the double that its text does. -/
theorem float?_numberText {whole : List Char} (h : Digits whole) (fraction : List Char) :
    float? (numberText whole fraction) = (Decimal.ofLiteral whole fraction).toFloat? := by
  have hpoint : ∀ d ∈ whole, (d != '.') = true :=
    bne_of_not_mem fun hmem => absurd (h.all _ hmem) (by decide)
  unfold float? numberText
  split
  · next hnil =>
    obtain rfl := List.isEmpty_iff.1 hnil
    obtain ⟨htake, hdrop⟩ := takeWhile_append_stretch hpoint [] (by simp)
    rw [List.append_nil] at htake hdrop
    rw [htake, hdrop, List.drop_nil]
  · obtain ⟨htake, hdrop⟩ := takeWhile_append_stretch hpoint ('.' :: fraction) (by simp)
    rw [htake, hdrop, List.drop_one, List.tail_cons]

theorem region_number {whole fraction rest : List Char} (hw : Digits whole)
    (h : Pattern .number (numberText whole fraction))
    (hl : Longest (numberText whole fraction) rest) :
    Region ⟨numberRole whole fraction, numberText whole fraction⟩ rest := by
  have hc : ¬ StartsComment (numberText whole fraction ++ rest) := by
    obtain ⟨d, us, rfl, hd⟩ := hw.head
    have hslash : d ≠ '/' := by
      rintro rfl
      exact absurd hd (by decide)
    unfold numberText
    split <;> exact not_startsComment hslash
  rw [numberRole, ← float?_numberText hw]
  cases hx : float? (numberText whole fraction) with
  | none => exact .hugeNumber h hl hx
  | some x => exact .token h hl hc (.number hx)

theorem digits_cons_takeWhile (hc : isDigit c = true) (cs : List Char) :
    Digits (c :: cs.takeWhile isDigit) := by
  refine ⟨by simp, fun d hd => ?_⟩
  rcases List.mem_cons.1 hd with rfl | hd
  · exact hc
  · exact List.mem_takeWhile_imp hd

/-- Digits that no digit follows, and the fraction after them, are the longest number. -/
theorem region_cutFraction {whole rest : List Char} (hw : Digits whole)
    (hrest : ∀ d ∈ rest.head?, isDigit d = false) :
    Region ⟨numberRole whole (cutFraction rest).1, numberText whole (cutFraction rest).1⟩
      (cutFraction rest).2 := by
  unfold cutFraction
  split
  · next d cs =>
    by_cases hd : isDigit d = true
    · have hf := digits_cons_takeWhile hd cs
      simp only [hd, if_true]
      exact region_number hw (.decimal hw hf) ((longest_decimal_iff hw hf).2 head?_dropWhile)
    · simp only [hd, Bool.false_eq_true, if_false]
      refine region_number hw (.whole hw) ((longest_whole_iff hw).2 ⟨hrest, ?_⟩)
      rintro d' us ⟨⟩
      simpa using hd
  · next hpoint =>
    refine region_number hw (.whole hw) ((longest_whole_iff hw).2 ⟨hrest, ?_⟩)
    rintro d us rfl
    exact absurd rfl (hpoint d us)

theorem cutSymbol_punctuation {kind : Kind} (h : punctuation? c = some kind) (cs : List Char) :
    cutSymbol c cs = (⟨.token kind .nil, [c]⟩, cs) := by
  simp [cutSymbol, h]

theorem cutSymbol_long {short long : Kind} (h : operator? c = some (short, long)) (cs : List Char) :
    cutSymbol c ('=' :: cs) = (⟨.token long .nil, [c, '=']⟩, cs) := by
  simp [cutSymbol, punctuation?_of_operator? h, h]

theorem cutSymbol_short {short long : Kind} (h : operator? c = some (short, long))
    (hnext : cs.head? ≠ some '=') : cutSymbol c cs = (⟨.token short .nil, [c]⟩, cs) := by
  cases cs with
  | nil => simp [cutSymbol, punctuation?_of_operator? h, h]
  | cons d us =>
    have hd : d ≠ '=' := by simpa using hnext
    simp [cutSymbol, punctuation?_of_operator? h, h, hd]

theorem cutSymbol_stray (hp : punctuation? c = none) (ho : operator? c = none) (cs : List Char) :
    cutSymbol c cs = (⟨.stray, [c]⟩, cs) := by
  simp [cutSymbol, hp, ho]

theorem region_cutSymbol (hblank : isBlank c = false) (hslash : c ≠ '/') (hquote : c ≠ '"')
    (hdigit : isDigit c = false) (hletter : isLetter c = false) (cs : List Char) :
    Region (cutSymbol c cs).1 (cutSymbol c cs).2 := by
  have hc (cs : List Char) : ¬ StartsComment (c :: cs) := not_startsComment hslash
  cases hp : punctuation? c with
  | some kind =>
    obtain ⟨h, hlong⟩ := symbol_of_punctuation? hp
    rw [cutSymbol_punctuation hp]
    simpa using region_symbol h (fun h' => absurd h' hlong) (by simpa using hc cs)
  | none =>
    cases ho : operator? c with
    | some kinds =>
      obtain ⟨hshort, hlong, hend⟩ := symbol_of_operator? ho
      by_cases hnext : cs.head? = some '='
      · obtain ⟨us, rfl⟩ := List.head?_eq_some_iff.1 hnext
        rw [cutSymbol_long ho]
        simpa using region_symbol hlong (fun h' => absurd h' hend) (by simpa using hc _)
      · rw [cutSymbol_short ho hnext]
        simpa using region_symbol hshort (fun _ => hnext) (by simpa using hc cs)
    | none =>
      rw [cutSymbol_stray hp ho]
      refine .stray (by simpa [isBlank, and_assoc] using hblank) hquote fun kind text hpre h => ?_
      cases text with
      | nil => exact h.ne_nil rfl
      | cons d us =>
        obtain ⟨more, hmore⟩ := hpre
        cases hmore
        rcases h.cons_cases with ⟨h, -⟩ | ⟨h, -⟩ | ⟨h, -⟩ | h
        · simp [hdigit] at h
        · simp [hletter] at h
        · exact hquote h
        · exact not_symbol hslash hp ho h

/-- The first piece of a text is a region in front of what follows it. -/
theorem region_munch (c : Char) (cs : List Char) : Region (munch c cs).1 (munch c cs).2 := by
  unfold munch
  split
  · next h => exact .blank (by simpa [isBlank, or_assoc] using h)
  split
  · exact region_cutSlash cs
  split
  · exact region_cutString cs
  split
  · next h => exact region_cutFraction (digits_cons_takeWhile h cs) head?_dropWhile
  split
  · next h => exact region_cutWord h cs
  · exact region_cutSymbol (by simp_all) (by simp_all) (by simp_all) (by simp_all) (by simp_all) cs

end Region

/-! ### Every region is a piece -/

section Munch

variable {c : Char} {cs rest : List Char} {kind : Kind}

theorem munch_slash (cs : List Char) : munch '/' cs = cutSlash cs := rfl

theorem munch_quote (cs : List Char) : munch '"' cs = cutString cs := rfl

theorem munch_digit (h : isDigit c = true) (cs : List Char) : munch c cs = cutNumber c cs := by
  have hdigits : Digits [c] := ⟨by simp, by simpa using h⟩
  have hblank := (Pattern.whole hdigits).not_blank
  have hslash : c ≠ '/' ∧ c ≠ '"' := by
    constructor <;> rintro rfl <;> exact absurd h (by decide)
  simp [munch, hblank, hslash, h]

theorem munch_letter (h : isLetter c = true) (cs : List Char) : munch c cs = cutWord c cs := by
  have hword : Word [c] := ⟨⟨c, rfl, h⟩, by simp [isWordChar, h]⟩
  have hslash : c ≠ '/' ∧ c ≠ '"' := by
    constructor <;> rintro rfl <;> exact absurd h (by decide)
  have hdigit : isDigit c = false := by
    rw [Bool.eq_false_iff]
    intro hd
    simp [not_isLetter_of_isDigit hd] at h
  simp [munch, hword.pattern.not_blank, hslash, hdigit, h]

/-- Symbols other than the slash are cut off as such. -/
theorem munch_eq_cutSymbol (h : (String.ofList [c], kind) ∈ symbols) (hslash : c ≠ '/')
    (cs : List Char) : munch c cs = cutSymbol c cs := by
  obtain ⟨hdigit, hletter, hquote, hblank⟩ := symbols_head h
  simp [munch, hblank, hslash, hquote, hdigit, hletter]

theorem munch_symbol {text : String} (h : (text, kind) ∈ symbols) (hl : Longest text.toList rest)
    (hc : ¬ StartsComment (text.toList ++ rest)) :
    ∃ c cs, text.toList ++ rest = c :: cs ∧ munch c cs = (⟨.token kind .nil, text.toList⟩, rest) := by
  have hend := (longest_symbol_iff h).1 hl
  rcases symbol_cases h with ⟨rfl, rfl⟩ | ⟨c, rfl, hp⟩ | ⟨c, long, rfl, ho⟩ | ⟨c, short, rfl, ho⟩
  · refine ⟨'/', rest, rfl, ?_⟩
    rw [munch_slash]
    unfold cutSlash
    split
    · exact absurd ⟨_, rfl⟩ hc
    · rfl
  · have hslash : c ≠ '/' := by
      rintro rfl
      cases hp
    refine ⟨c, rest, by simp, ?_⟩
    rw [munch_eq_cutSymbol h hslash, cutSymbol_punctuation hp, String.toList_ofList]
  · obtain ⟨hshort, hlong, -⟩ := symbol_of_operator? ho
    have hslash : c ≠ '/' := by
      rintro rfl
      cases ho
    have heq : String.ofList [c, '='] = String.ofList [c] ++ "=" := by
      rw [← String.toList_inj]
      simp
    have hnext : rest.head? ≠ some '=' := hend (List.mem_map.2 ⟨_, hlong, heq⟩)
    refine ⟨c, rest, by simp, ?_⟩
    rw [munch_eq_cutSymbol hshort hslash, cutSymbol_short ho hnext, String.toList_ofList]
  · obtain ⟨hshort, -, -⟩ := symbol_of_operator? ho
    have hslash : c ≠ '/' := by
      rintro rfl
      cases ho
    refine ⟨c, '=' :: rest, by simp, ?_⟩
    rw [munch_eq_cutSymbol hshort hslash, cutSymbol_long ho, String.toList_ofList]

theorem munch_string {quoted : List Char} (h : '"' ∉ quoted) (rest : List Char) :
    munch '"' (quoted ++ '"' :: rest) =
      (⟨.token .string (.string (String.ofList quoted)), '"' :: (quoted ++ ['"'])⟩, rest) := by
  obtain ⟨htake, hdrop⟩ := takeWhile_append_stretch (bne_of_not_mem h) ('"' :: rest) (by simp)
  rw [munch_quote, cutString, htake, hdrop]
  rfl

theorem munch_openString {quoted : List Char} (h : '"' ∉ quoted) :
    munch '"' quoted = (⟨.openString, '"' :: quoted⟩, []) := by
  obtain ⟨htake, hdrop⟩ := takeWhile_append_stretch (bne_of_not_mem h) [] (by simp)
  rw [List.append_nil] at htake hdrop
  rw [munch_quote, cutString, htake, hdrop]

theorem munch_comment {body : List Char} (h : '\n' ∉ body) (hrest : ∀ c ∈ rest.head?, c = '\n') :
    munch '/' ('/' :: (body ++ rest)) = (⟨.comment, '/' :: '/' :: body⟩, rest) := by
  obtain ⟨htake, hdrop⟩ := takeWhile_append_stretch (bne_of_not_mem h) rest (by simpa using hrest)
  rw [munch_slash, cutSlash, htake, hdrop]

theorem munch_word {text : List Char} (h : Word text) (hl : Longest text rest) :
    ∃ c cs, text ++ rest = c :: cs ∧ munch c cs = (⟨.token (wordKind text) .nil, text⟩, rest) := by
  obtain ⟨c, hc, hletter⟩ := h.head
  obtain ⟨us, rfl⟩ := List.head?_eq_some_iff.1 hc
  have hus : ∀ d ∈ us, isWordChar d = true := fun d hd => h.all d (List.mem_cons_of_mem _ hd)
  obtain ⟨htake, hdrop⟩ := takeWhile_append_stretch hus rest ((longest_word_iff h).1 hl)
  refine ⟨c, us ++ rest, rfl, ?_⟩
  rw [munch_letter hletter, cutWord, htake, hdrop]

/-- A number is cut off where its digits end. -/
theorem munch_number {whole fraction after : List Char} (hw : Digits whole)
    (hafter : ∀ d ∈ after.head?, isDigit d = false) (hf : cutFraction after = (fraction, rest)) :
    ∃ c cs, whole ++ after = c :: cs ∧
      munch c cs = (⟨numberRole whole fraction, numberText whole fraction⟩, rest) := by
  obtain ⟨d, us, rfl, hd⟩ := hw.head
  have hus : ∀ d ∈ us, isDigit d = true := fun x hx => hw.all x (List.mem_cons_of_mem _ hx)
  obtain ⟨htake, hdrop⟩ := takeWhile_append_stretch hus after hafter
  refine ⟨d, us ++ after, rfl, ?_⟩
  rw [munch_digit hd, cutNumber, htake, hdrop, hf]

theorem cutFraction_of_longest {whole : List Char} (hw : Digits whole) (hl : Longest whole rest) :
    cutFraction rest = ([], rest) := by
  obtain ⟨-, hfraction⟩ := (longest_whole_iff hw).1 hl
  unfold cutFraction
  split
  · next d cs => simp [hfraction d cs rfl]
  · rfl

theorem cutFraction_of_digits {fraction : List Char} (hf : Digits fraction)
    (hrest : ∀ d ∈ rest.head?, isDigit d = false) :
    cutFraction ('.' :: (fraction ++ rest)) = (fraction, rest) := by
  obtain ⟨d, us, rfl, hd⟩ := hf.head
  have hus : ∀ d ∈ us, isDigit d = true := fun x hx => hf.all x (List.mem_cons_of_mem _ hx)
  obtain ⟨htake, hdrop⟩ := takeWhile_append_stretch hus rest hrest
  simp [cutFraction, hd, htake, hdrop]

/-- A number is cut off with what it denotes, if that is in range. -/
theorem munch_longest_number {text : List Char} (h : Pattern .number text) (hl : Longest text rest) :
    ∃ c cs, text ++ rest = c :: cs ∧
      munch c cs = (⟨(float? text).elim .hugeNumber fun x => .token .number (.number x), text⟩,
        rest) := by
  have hnumber {whole fraction after : List Char} (hw : Digits whole)
      (hafter : ∀ d ∈ after.head?, isDigit d = false) (hf : cutFraction after = (fraction, rest)) :
      ∃ c cs, whole ++ after = c :: cs ∧ munch c cs =
        (⟨(float? (numberText whole fraction)).elim .hugeNumber fun x => .token .number (.number x),
          numberText whole fraction⟩, rest) := by
    rw [float?_numberText hw]
    exact munch_number hw hafter hf
  rcases h.number_cases with hw | ⟨whole, fraction, hw, hf, rfl⟩
  · have htext : numberText text [] = text := rfl
    have hm := hnumber hw ((longest_whole_iff hw).1 hl).1 (cutFraction_of_longest hw hl)
    rwa [htext] at hm
  · have hrest := (longest_decimal_iff hw hf).1 hl
    obtain ⟨c, cs, heq, hm⟩ := hnumber hw (by simp [isDigit]) (cutFraction_of_digits hf hrest)
    have htext : numberText whole fraction = whole ++ '.' :: fraction := by
      simp [numberText, hf.ne_nil]
    rw [htext] at hm
    exact ⟨c, cs, by simpa using heq, hm⟩

theorem munch_stray (hb : c ∉ [' ', '\t', '\r', '\n']) (hq : c ≠ '"')
    (hn : ∀ kind text, text <+: c :: rest → ¬ Pattern kind text) :
    munch c rest = (⟨.stray, [c]⟩, rest) := by
  have hfirst {kind : Kind} (h : Pattern kind [c]) : False := hn _ _ ⟨rest, rfl⟩ h
  have hsymbol (kind : Kind) : (String.ofList [c], kind) ∉ symbols := fun h =>
    hfirst (by simpa using Pattern.symbol h)
  have hblank : isBlank c = false := by simpa [isBlank, and_assoc] using hb
  have hslash : c ≠ '/' := by
    rintro rfl
    exact absurd (by decide) (hsymbol .slash)
  have hdigit : isDigit c = false := by
    rw [Bool.eq_false_iff]
    exact fun h => hfirst (.whole ⟨by simp, by simpa using h⟩)
  have hletter : isLetter c = false := by
    rw [Bool.eq_false_iff]
    intro h
    have hword : Word [c] := ⟨⟨c, rfl, h⟩, by simp [isWordChar, h]⟩
    exact hfirst hword.pattern
  have hp : punctuation? c = none := by
    rw [Option.eq_none_iff_forall_ne_some]
    exact fun kind h => hsymbol kind (symbol_of_punctuation? h).1
  have ho : operator? c = none := by
    rw [Option.eq_none_iff_forall_ne_some]
    exact fun kinds h => hsymbol kinds.1 (symbol_of_operator? h).1
  rw [← cutSymbol_stray hp ho]
  simp [munch, hblank, hslash, hq, hdigit, hletter]

/-- A region in front of what follows it is the first piece of the two together. -/
theorem munch_of_region {p : Piece} (h : Region p rest) :
    ∃ c cs, p.text ++ rest = c :: cs ∧ munch c cs = (p, rest) := by
  cases h with
  | @blank c _ h =>
    have hblank : isBlank c = true := by simpa [isBlank, or_assoc] using h
    exact ⟨c, rest, rfl, by simp [munch, hblank]⟩
  | comment h hrest => exact ⟨_, _, rfl, munch_comment h hrest⟩
  | openString h => exact ⟨_, _, by simp, munch_openString h⟩
  | hugeNumber h hl hv => simpa [hv] using munch_longest_number h hl
  | @stray c _ hb hq hn => exact ⟨c, rest, rfl, munch_stray hb hq hn⟩
  | @token kind text _ value h hl hc hv =>
    cases h with
    | symbol h =>
      have hkind : ∀ entry ∈ symbols, entry.2 ≠ .string ∧ entry.2 ≠ .number := by decide
      rw [hv.eq_nil (hkind _ h).1 (hkind _ h).2]
      exact munch_symbol h hl hc
    | string h =>
      rw [hv.eq_string]
      exact ⟨_, _, by simp, munch_string h rest⟩
    | whole h =>
      obtain ⟨x, hx, rfl⟩ := hv.eq_number
      simpa [hx] using munch_longest_number (.whole h) hl
    | decimal h h' =>
      obtain ⟨x, hx, rfl⟩ := hv.eq_number
      simpa [hx] using munch_longest_number (.decimal h h') hl
    | keyword h =>
      have hkind : ∀ entry ∈ keywords,
          wordKind entry.1.toList = entry.2 ∧ entry.2 ≠ .string ∧ entry.2 ≠ .number := by
        decide
      obtain ⟨heq, hs, hn⟩ := hkind _ h
      rw [hv.eq_nil hs hn, ← show wordKind _ = kind from heq]
      exact munch_word (word_of_keyword h) hl
    | name h h' =>
      have hkind : wordKind text = .identifier := by
        by_contra hne
        exact h' _ (mem_keywords rfl hne)
      rw [hv.eq_nil (by decide) (by decide), ← hkind]
      exact munch_word h hl

end Munch

/-! ### Whole texts -/

/-- A text is these regions, one after the other, exactly if they are its pieces. -/
theorem factors_iff_pieces {source : List Char} {ps : List Piece} :
    Factors source ps ↔ ps = pieces source := by
  constructor
  · intro h
    induction h with
    | nil => simp
    | @cons p rest ps first _ ih =>
      obtain ⟨c, cs, heq, hm⟩ := munch_of_region first
      rw [heq, pieces_cons, hm, ih]
  · rintro rfl
    fun_induction pieces source with
    | case1 => exact .nil
    | case2 c cs ih =>
      have h := Factors.cons (region_munch c cs) ih
      rwa [munch_append] at h

/-! ### What scanning finds -/

/-- There is one token for each piece that is one, in order. -/
theorem forall₂_covers (line : Nat) (ps : List Piece) :
    List.Forall₂ Covers (ps.filter isToken) ((numbered line ps).filterMap ofPiece?) := by
  induction ps generalizing line with
  | nil => exact .nil
  | cons p ps ih =>
    obtain ⟨role, text⟩ := p
    rw [numbered]
    cases role with
    | token kind literal =>
      refine .cons ?_ (ih _)
      rw [Covers, String.toList_ofList]
    | _ => exact ih _

/-- There is one error for each region that has a problem, in order. -/
theorem forall₂_reported {source : List Char} {ps : List Piece} (h : Factors source ps) (line : Nat) :
    List.Forall₂ Reported (ps.filter isError) ((numbered line ps).filterMap errorOfPiece?) := by
  induction h generalizing line with
  | nil => exact .nil
  | cons first _ ih =>
    rw [numbered]
    cases first with
    | blank | comment | token => exact ih _
    | stray => exact .cons .stray (ih _)
    | openString => exact .cons .openString (ih _)
    | hugeNumber => exact .cons .hugeNumber (ih _)

end Token

theorem Lexical.exists_mem_of_forall₂ {R : α → β → Prop} {as : List α} {bs : List β}
    (h : List.Forall₂ R as bs) {b : β} (hb : b ∈ bs) : ∃ a ∈ as, R a b := by
  induction h with
  | nil => cases hb
  | cons hr _ ih =>
    rcases List.mem_cons.1 hb with rfl | hb
    · exact ⟨_, List.mem_cons_self, hr⟩
    · obtain ⟨a, ha, hr⟩ := ih hb
      exact ⟨a, List.mem_cons_of_mem _ ha, hr⟩

/-- A token is the end of a source, or a text of its kind with the value that this text has. -/
def Token.Lexed (t : Token) : Prop :=
  t.kind = .eof ∧ t.literal = .nil ∨ Pattern t.kind t.lexeme.toList ∧ Denotes t.kind t.lexeme.toList t.literal

theorem scan_lexed {source : List Char} : ∀ t ∈ (scan source).tokens, t.Lexed := by
  intro t ht
  rw [scan_tokens, List.mem_append, List.mem_singleton] at ht
  rcases ht with ht | rfl
  · obtain ⟨p, hp, rfl⟩ := exists_mem_of_forall₂ (Token.forall₂_covers 1 _) ht
    obtain ⟨rest, hregion⟩ := (Token.factors_iff_pieces.2 rfl).exists_region (List.mem_of_mem_filter hp)
    cases hregion with
    | token h _ _ hv => exact .inr ⟨h, hv⟩
  · exact .inl ⟨rfl, rfl⟩

/-- Scanning the bytes of a source: there is one way to read them as characters and one way to cut
these into regions. The tokens that scanning finds are the regions that are tokens, and then one that
ends the source; the errors are the regions that have a problem. -/
theorem scan_factors (bytes : List UInt8) :
    ∃ source ps, (∀ cs, Text.Decodes bytes cs ↔ cs = source) ∧ (∀ qs, Factors source qs ↔ qs = ps) ∧
      (∃ tokens eof, (scan (Text.decode bytes)).tokens = tokens ++ [eof] ∧
        List.Forall₂ Covers (ps.filter isToken) tokens ∧
        eof.kind = .eof ∧ ∀ t ∈ tokens, t.kind ≠ .eof) ∧
      List.Forall₂ Reported (ps.filter isError) (scan (Text.decode bytes)).errors := by
  refine ⟨Text.decode bytes, Token.pieces (Text.decode bytes), fun cs => Text.decodes_iff_decode,
    fun qs => Token.factors_iff_pieces, ?_, ?_⟩
  · refine ⟨Token.ofText (Text.decode bytes), Token.endOf (Text.decode bytes), scan_tokens _, ?_, rfl, ?_⟩
    · exact Token.forall₂_covers 1 _
    · exact fun t ht => Token.ofText_kind ht
  · rw [scan_errors]
    exact Token.forall₂_reported (Token.factors_iff_pieces.2 rfl) 1

end LoxLang
