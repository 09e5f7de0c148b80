import LoxLang.Text.Utf8

/-!
# Source bytes and the encoding of characters

Reading source bytes undoes the encoding of characters, byte by byte where there is nothing to undo: a
byte at which the encoding of no character starts is the replacement character, alone.

Main statement: `decodes_iff_decode`.
-/

namespace LoxLang.Text

/-- Bytes are read as characters: each is encoded by its bytes, or is the replacement for one byte at
which no character is encoded. -/
inductive Decodes : List UInt8 → List Char → Prop where
  | nil : Decodes [] []
  | char (c : Char) (more : Decodes rest cs) : Decodes (String.utf8EncodeChar c ++ rest) (c :: cs)
  | invalid (h : ∀ c, ¬ String.utf8EncodeChar c <+: b :: rest) (more : Decodes rest cs) :
      Decodes (b :: rest) (replacement :: cs)

theorem charFrom?_eq_some {least n : Nat} {c : Char} (h : charFrom? least n = some c) :
    least ≤ n ∧ c.val.toNat = n := by
  unfold charFrom? at h
  split at h
  · next hn =>
    cases h
    refine ⟨hn.1, ?_⟩
    rw [Char.ofNat, dif_pos hn.2]
    rfl
  · cases h

theorem charFrom?_val {least : Nat} {c : Char} (h : least ≤ c.val.toNat) :
    charFrom? least c.val.toNat = some c := by
  have hvalid : c.val.toNat.isValidChar := c.valid
  rw [charFrom?, if_pos ⟨h, hvalid⟩]
  exact congrArg some (Char.ofNat_toNat c)

theorem ofNat_eq {n : Nat} {b : UInt8} (h : n = b.toNat) : UInt8.ofNat n = b := by
  rw [h, UInt8.ofNat_toNat]

theorem isContinuation_iff {b : UInt8} : isContinuation b = true ↔ 128 ≤ b.toNat ∧ b.toNat ≤ 191 := by
  simp [isContinuation, UInt8.le_iff_toNat_le]

/-- Six bits make a continuation byte, and are its payload. -/
theorem continuation_ofNat (n : Nat) :
    isContinuation (UInt8.ofNat (n % 0x40 + 0x80)) = true ∧
      payload (UInt8.ofNat (n % 0x40 + 0x80)) = n % 64 := by
  have hbyte : (UInt8.ofNat (n % 0x40 + 0x80)).toNat = n % 0x40 + 0x80 :=
    UInt8.toNat_ofNat_of_lt' (show n % 0x40 + 0x80 < 256 by omega)
  rw [isContinuation_iff, payload, hbyte]
  omega

/-- The bounds of a leading byte, as numbers. -/
theorem leading_bounds (b : UInt8) :
    (b < 0x80 ↔ b.toNat < 128) ∧ (b < 0xc0 ↔ b.toNat < 192) ∧ (b < 0xe0 ↔ b.toNat < 224) ∧
      (b < 0xf0 ↔ b.toNat < 240) ∧ (b < 0xf8 ↔ b.toNat < 248) :=
  ⟨UInt8.lt_iff_toNat_lt, UInt8.lt_iff_toNat_lt, UInt8.lt_iff_toNat_lt, UInt8.lt_iff_toNat_lt,
    UInt8.lt_iff_toNat_lt⟩

section Encoding

variable {c : Char} {b b₁ b₂ b₃ : UInt8}

/-! The bytes of a character, for each number of them. -/

theorem encode_one (hv : c.val.toNat = b.toNat) (hb : b.toNat < 128) :
    String.utf8EncodeChar c = [b] := by
  have h₁ : c.val.toNat ≤ 0x7f := by omega
  rw [String.utf8EncodeChar, if_pos h₁, ofNat_eq hv]

theorem encode_two (hv : c.val.toNat = b.toNat % 32 * 64 + b₁.toNat % 64) (hleast : 128 ≤ c.val.toNat)
    (hb : 192 ≤ b.toNat ∧ b.toNat < 224) (hc : 128 ≤ b₁.toNat ∧ b₁.toNat ≤ 191) :
    String.utf8EncodeChar c = [b, b₁] := by
  have h₁ : ¬ c.val.toNat ≤ 0x7f := by omega
  have h₂ : c.val.toNat ≤ 0x7ff := by omega
  have hfirst : c.val.toNat / 64 % 0x20 + 0xc0 = b.toNat := by omega
  have hlast : c.val.toNat % 0x40 + 0x80 = b₁.toNat := by omega
  rw [String.utf8EncodeChar, if_neg h₁, if_pos h₂, ofNat_eq hfirst, ofNat_eq hlast]

theorem encode_three
    (hv : c.val.toNat = b.toNat % 16 * 4096 + b₁.toNat % 64 * 64 + b₂.toNat % 64)
    (hleast : 2048 ≤ c.val.toNat) (hb : 224 ≤ b.toNat ∧ b.toNat < 240)
    (hc₁ : 128 ≤ b₁.toNat ∧ b₁.toNat ≤ 191) (hc₂ : 128 ≤ b₂.toNat ∧ b₂.toNat ≤ 191) :
    String.utf8EncodeChar c = [b, b₁, b₂] := by
  have h₁ : ¬ c.val.toNat ≤ 0x7f := by omega
  have h₂ : ¬ c.val.toNat ≤ 0x7ff := by omega
  have h₃ : c.val.toNat ≤ 0xffff := by omega
  have hfirst : c.val.toNat / 4096 % 0x10 + 0xe0 = b.toNat := by omega
  have hnext : c.val.toNat / 64 % 0x40 + 0x80 = b₁.toNat := by omega
  have hlast : c.val.toNat % 0x40 + 0x80 = b₂.toNat := by omega
  rw [String.utf8EncodeChar, if_neg h₁, if_neg h₂, if_pos h₃, ofNat_eq hfirst, ofNat_eq hnext,
    ofNat_eq hlast]

theorem encode_four
    (hv : c.val.toNat =
      b.toNat % 8 * 262144 + b₁.toNat % 64 * 4096 + b₂.toNat % 64 * 64 + b₃.toNat % 64)
    (hleast : 65536 ≤ c.val.toNat) (hb : 240 ≤ b.toNat ∧ b.toNat < 248)
    (hc₁ : 128 ≤ b₁.toNat ∧ b₁.toNat ≤ 191) (hc₂ : 128 ≤ b₂.toNat ∧ b₂.toNat ≤ 191)
    (hc₃ : 128 ≤ b₃.toNat ∧ b₃.toNat ≤ 191) : String.utf8EncodeChar c = [b, b₁, b₂, b₃] := by
  have h₁ : ¬ c.val.toNat ≤ 0x7f := by omega
  have h₂ : ¬ c.val.toNat ≤ 0x7ff := by omega
  have h₃ : ¬ c.val.toNat ≤ 0xffff := by omega
  have hfirst : c.val.toNat / 262144 % 0x08 + 0xf0 = b.toNat := by omega
  have hsecond : c.val.toNat / 4096 % 0x40 + 0x80 = b₁.toNat := by omega
  have hthird : c.val.toNat / 64 % 0x40 + 0x80 = b₂.toNat := by omega
  have hlast : c.val.toNat % 0x40 + 0x80 = b₃.toNat := by omega
  rw [String.utf8EncodeChar, if_neg h₁, if_neg h₂, if_neg h₃, ofNat_eq hfirst, ofNat_eq hsecond,
    ofNat_eq hthird, ofNat_eq hlast]

end Encoding

/-- A well-formed sequence is the encoding of its character. -/
theorem utf8EncodeChar_of_sequence? {b : UInt8} {rest after : List UInt8} {c : Char}
    (h : sequence? b rest = some (c, after)) : String.utf8EncodeChar c ++ after = b :: rest := by
  obtain ⟨hone, hcont, htwo, hthree, hfour⟩ := leading_bounds b
  unfold sequence? at h
  simp only [hone, hcont, htwo, hthree, hfour] at h
  split at h
  · next hb =>
    obtain ⟨rfl, rfl⟩ : Char.ofNat b.toNat = c ∧ rest = after := by simpa using h
    have hvalid : b.toNat.isValidChar := .inl (by omega)
    rw [encode_one (by rw [Char.ofNat, dif_pos hvalid]; rfl) hb]
    rfl
  split at h
  · cases h
  split at h
  · split at h
    · split at h
      · next hc =>
        simp only [Option.map_eq_some_iff, Prod.mk.injEq] at h
        obtain ⟨c, hchar, rfl, rfl⟩ := h
        obtain ⟨hleast, hval⟩ := charFrom?_eq_some hchar
        rw [isContinuation_iff] at hc
        rw [encode_two hval (by omega) (by omega) hc]
        rfl
      · cases h
    · cases h
  split at h
  · split at h
    · split at h
      · next hc =>
        simp only [Option.map_eq_some_iff, Prod.mk.injEq] at h
        obtain ⟨c, hchar, rfl, rfl⟩ := h
        obtain ⟨hleast, hval⟩ := charFrom?_eq_some hchar
        simp only [Bool.and_eq_true, isContinuation_iff] at hc
        rw [encode_three hval (by omega) (by omega) hc.1 hc.2]
        rfl
      · cases h
    · cases h
  split at h
  · split at h
    · split at h
      · next hc =>
        simp only [Option.map_eq_some_iff, Prod.mk.injEq] at h
        obtain ⟨c, hchar, rfl, rfl⟩ := h
        obtain ⟨hleast, hval⟩ := charFrom?_eq_some hchar
        simp only [Bool.and_eq_true, isContinuation_iff] at hc
        rw [encode_four hval (by omega) (by omega) hc.1.1 hc.1.2 hc.2]
        rfl
      · cases h
    · cases h
  · cases h

/-- The encoding of a character is a well-formed sequence. -/
theorem sequence?_of_utf8EncodeChar {b : UInt8} {rest after : List UInt8} {c : Char}
    (h : String.utf8EncodeChar c ++ after = b :: rest) : sequence? b rest = some (c, after) := by
  have hvalid : c.val.toNat.isValidChar := c.valid
  have hbound : c.val.toNat < 1114112 := by
    rcases hvalid with hlow | hhigh <;> omega
  have hbyte (n : Nat) (hn : n < 256) : (UInt8.ofNat n).toNat = n := UInt8.toNat_ofNat_of_lt' hn
  obtain ⟨hone, hcont, htwo, hthree, hfour⟩ := leading_bounds b
  unfold sequence?
  simp only [hone, hcont, htwo, hthree, hfour]
  rw [String.utf8EncodeChar] at h
  split at h
  · next h₁ =>
    obtain ⟨rfl, rfl⟩ : UInt8.ofNat c.val.toNat = b ∧ after = rest := by simpa using h
    have hb := hbyte c.val.toNat (by omega)
    rw [if_pos (by omega), hb]
    exact congrArg some (Prod.ext (Char.ofNat_toNat c) rfl)
  split at h
  · next h₂ =>
    simp only [List.cons_append, List.nil_append] at h
    obtain ⟨hfirst, rfl⟩ := List.cons.inj h
    have hb := congrArg UInt8.toNat hfirst
    rw [hbyte _ (by omega)] at hb
    obtain ⟨hc₁, hp₁⟩ := continuation_ofNat c.val.toNat
    rw [if_neg (by omega), if_neg (by omega), if_pos (by omega)]
    have hcode : b.toNat % 32 * 64 + c.val.toNat % 64 = c.val.toNat := by omega
    dsimp only
    rw [if_pos hc₁, hp₁, hcode, charFrom?_val (by omega)]
    rfl
  split at h
  · next h₃ =>
    simp only [List.cons_append, List.nil_append] at h
    obtain ⟨hfirst, rfl⟩ := List.cons.inj h
    have hb := congrArg UInt8.toNat hfirst
    rw [hbyte _ (by omega)] at hb
    obtain ⟨hc₁, hp₁⟩ := continuation_ofNat (c.val.toNat / 64)
    obtain ⟨hc₂, hp₂⟩ := continuation_ofNat c.val.toNat
    rw [if_neg (by omega), if_neg (by omega), if_neg (by omega), if_pos (by omega)]
    have hcode : b.toNat % 16 * 4096 + c.val.toNat / 64 % 64 * 64 + c.val.toNat % 64 = c.val.toNat := by
      omega
    dsimp only
    rw [hc₁, hc₂, hp₁, hp₂, hcode, charFrom?_val (by omega)]
    rfl
  · simp only [List.cons_append, List.nil_append] at h
    obtain ⟨hfirst, rfl⟩ := List.cons.inj h
    have hb := congrArg UInt8.toNat hfirst
    rw [hbyte _ (by omega)] at hb
    obtain ⟨hc₁, hp₁⟩ := continuation_ofNat (c.val.toNat / 4096)
    obtain ⟨hc₂, hp₂⟩ := continuation_ofNat (c.val.toNat / 64)
    obtain ⟨hc₃, hp₃⟩ := continuation_ofNat c.val.toNat
    rw [if_neg (by omega), if_neg (by omega), if_neg (by omega), if_neg (by omega), if_pos (by omega)]
    have hcode : b.toNat % 8 * 262144 + c.val.toNat / 4096 % 64 * 4096 + c.val.toNat / 64 % 64 * 64 +
        c.val.toNat % 64 = c.val.toNat := by
      omega
    dsimp only
    rw [hc₁, hc₂, hc₃, hp₁, hp₂, hp₃, hcode, charFrom?_val (by omega)]
    rfl

/-- Of all characters, only the one that is read starts the bytes. -/
theorem sequence?_eq_some_iff {b : UInt8} {rest after : List UInt8} {c : Char} :
    sequence? b rest = some (c, after) ↔ String.utf8EncodeChar c ++ after = b :: rest :=
  ⟨utf8EncodeChar_of_sequence?, sequence?_of_utf8EncodeChar⟩

theorem sequence?_eq_none_iff {b : UInt8} {rest : List UInt8} :
    sequence? b rest = none ↔ ∀ c, ¬ String.utf8EncodeChar c <+: b :: rest := by
  constructor
  · rintro hnone c ⟨after, happend⟩
    rw [sequence?_eq_some_iff.2 happend] at hnone
    cases hnone
  · intro hall
    cases hseq : sequence? b rest with
    | none => rfl
    | some r => exact absurd ⟨r.2, sequence?_eq_some_iff.1 hseq⟩ (hall r.1)

theorem Decodes.eq_decode {bytes : List UInt8} {cs : List Char} (h : Decodes bytes cs) :
    cs = decode bytes := by
  induction h with
  | nil => rw [decode_nil]
  | @char rest cs c more ih =>
    cases hbytes : String.utf8EncodeChar c ++ rest with
    | nil => exact absurd (List.append_eq_nil_iff.1 hbytes).1 (String.utf8EncodeChar_ne_nil)
    | cons b after =>
      rw [decode_cons, first, sequence?_eq_some_iff.2 hbytes, Option.getD_some, ← ih]
  | @invalid b rest cs hnone more ih =>
    rw [decode_cons, first, sequence?_eq_none_iff.2 hnone, Option.getD_none, ← ih]

theorem decodes_decode (bytes : List UInt8) : Decodes bytes (decode bytes) := by
  induction bytes using decode.induct with
  | case1 => rw [decode_nil]; exact .nil
  | case2 b rest ih =>
    rw [decode_cons]
    rw [first] at ih ⊢
    cases hseq : sequence? b rest with
    | none =>
      rw [hseq] at ih
      exact .invalid (sequence?_eq_none_iff.1 hseq) ih
    | some r =>
      rw [hseq] at ih
      rw [← sequence?_eq_some_iff.1 hseq]
      exact .char r.1 ih

/-- Every sequence of bytes is read in one way: as `decode` reads it. -/
theorem decodes_iff_decode {bytes : List UInt8} {cs : List Char} :
    Decodes bytes cs ↔ cs = decode bytes := by
  constructor
  · exact Decodes.eq_decode
  · rintro rfl
    exact decodes_decode bytes

end LoxLang.Text
