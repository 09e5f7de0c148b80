import LoxLang.Number.Display
import LoxLang.Proofs.Scan
import Mathlib

/-!
# Numbers read back

A decimal in positional layout is a number of the source language, one digit or more and perhaps a point
with one digit or more behind it, and as such it stands for the decimal itself. So the text of a
finite number that is not negative is a number of the source language, and the number that it
is the text of.

Main statements: `Decimal.positional_eq` and `Number.display_reads`.
-/

namespace LoxLang

open Lexical (Digits Pattern float?)

/-! ### Doubles and their words -/

namespace Binary64

/-- The bits of the exponent are not all set in a finite word. -/
theorem unpackExponent_ne {word : Nat} (h : word < infinity) :
    @Float.Model.UnpackedFloat.unpackExponent .binary64 word.toUInt64.toBitVec ≠ -1#11 := by
  intro he
  have hbits : ((word % 2 ^ 64) >>> 52) % 2 ^ 11 = 2 ^ 11 - 1 := congrArg BitVec.toNat he
  rw [infinity] at h
  rw [Nat.shiftRight_eq_div_pow] at hbits
  omega

/-- A finite double that is not negative has the word that it is made of. -/
theorem toBits_ofBits {word : Nat} (h : word < infinity) :
    (Float.ofBits word.toUInt64).toBits = word.toUInt64 := by
  have hmodel : (Float.ofModel ⟨word.toUInt64, ⟨fun he => absurd he (unpackExponent_ne h)⟩⟩).toBits =
      word.toUInt64 := rfl
  rw [← hmodel, Float.ofBits_toBits]

end Binary64

namespace Number

/-- The shape of a finite double that is not negative, by its word. -/
theorem shape_ofBits {word : Nat} (h : word < Binary64.infinity) :
    shape (Float.ofBits word.toUInt64) = .finite false (Binary64.shortest word) := by
  have hlt : word < 0x8000000000000000 := Nat.lt_trans h (by decide)
  have hword : (Float.ofBits word.toUInt64).toBits.toNat = word := by
    rw [Binary64.toBits_ofBits h]
    exact Nat.mod_eq_of_lt (Nat.lt_trans hlt (by decide))
  have hmagnitude : magnitudeWord (Float.ofBits word.toUInt64) = word := by
    rw [magnitudeWord, hword, Nat.mod_eq_of_lt hlt]
  have hnegative : isNegative (Float.ofBits word.toUInt64) = false := by
    rw [isNegative, hword, decide_eq_false (Nat.not_le.2 hlt)]
  rw [shape, hmagnitude, hnegative, if_pos h]

theorem display_ofBits {word : Nat} (h : word < Binary64.infinity) :
    (display (Float.ofBits word.toUInt64)).toList = (Binary64.shortest word).positional := by
  simp [display, shape_ofBits h, signed]

end Number

/-! ### Digits -/

namespace Decimal

open Token (isDigit numberText)

theorem isDigit_eq (c : Char) : isDigit c = c.isDigit := rfl

theorem ofDigits_append (ds es : List Char) : ofDigits (ds ++ es) = Nat.ofDigitChars 10 es (ofDigits ds) :=
  List.foldl_append ..

theorem ofDigits_digits (d : Decimal) : ofDigits d.digits = d.coefficient := Nat.ofDigitChars_ten_toDigits

theorem digits_digits (d : Decimal) : Digits d.digits where
  ne_nil := Nat.toDigits_ne_nil
  all c hc := (isDigit_eq c).trans (Nat.isDigit_of_mem_toDigits (by decide) (by decide) hc)

theorem all_zeros (n : Nat) : ∀ c ∈ List.replicate n '0', isDigit c = true := by
  intro c hc
  rw [(List.mem_replicate.1 hc).2]
  rfl

/-- Zeros behind the digits are as good as a power of ten. -/
theorem nearestWord_zeros (ds : List Char) (zeros : Nat) :
    (ofLiteral (ds ++ List.replicate zeros '0') []).nearestWord = nearestWord ⟨ofDigits ds, zeros⟩ := by
  have hcoefficient : ofDigits (ds ++ List.replicate zeros '0') = ofDigits ds * 10 ^ zeros := by
    rw [ofDigits_append, Nat.ofDigitChars_replicate_zero, Nat.mul_comm]
  simp [nearestWord, ofLiteral, numerator, denominator, hcoefficient]

/-- A positional text is digits, and perhaps a point and digits, of a number that rounds like the decimal. -/
theorem positional_eq (d : Decimal) : ∃ whole fraction, Digits whole ∧ (∀ c ∈ fraction, isDigit c = true) ∧
    d.positional = numberText whole fraction ∧ (ofLiteral whole fraction).nearestWord = d.nearestWord := by
  obtain ⟨coefficient, exponent⟩ := d
  have hd := digits_digits ⟨coefficient, exponent⟩
  have hvalue := ofDigits_digits ⟨coefficient, exponent⟩
  rw [positional]
  generalize digits ⟨coefficient, exponent⟩ = ds at hd hvalue ⊢
  subst hvalue
  cases exponent with
  | ofNat zeros => exact ⟨_, [], hd.append (all_zeros zeros), by simp, rfl, nearestWord_zeros ds zeros⟩
  | negSucc n =>
    dsimp only
    split
    · next hlt =>
      have hlength : (ds.drop (ds.length - (n + 1))).length = n + 1 := by
        rw [List.length_drop]
        omega
      refine ⟨ds.take (ds.length - (n + 1)), ds.drop (ds.length - (n + 1)), ⟨?_, ?_⟩, ?_, ?_, ?_⟩
      · intro hnil
        have := congrArg List.length hnil
        rw [List.length_take, List.length_nil] at this
        omega
      · exact fun c hc => hd.all c (List.mem_of_mem_take hc)
      · exact fun c hc => hd.all c (List.mem_of_mem_drop hc)
      · rw [numberText, if_neg]
        intro hempty
        simp [List.isEmpty_iff.1 hempty] at hlength
      · rw [ofLiteral, List.take_append_drop, hlength]
        rfl
    · next hle =>
      refine ⟨['0'], List.replicate (n + 1 - ds.length) '0' ++ ds, ⟨by simp, by simp; rfl⟩, ?_, ?_, ?_⟩
      · intro c hc
        exact (List.mem_append.1 hc).elim (all_zeros _ c) (hd.all c)
      · simp [numberText, hd.ne_nil]
      · have hlength : (List.replicate (n + 1 - ds.length) '0' ++ ds).length = n + 1 := by
          rw [List.length_append, List.length_replicate]
          omega
        have hcoefficient : ofDigits (['0'] ++ (List.replicate (n + 1 - ds.length) '0' ++ ds)) =
            ofDigits ds := by
          rw [ofDigits_append, Nat.ofDigitChars_append, Nat.ofDigitChars_replicate_zero]
          rfl
        rw [ofLiteral, hlength, hcoefficient]
        rfl

end Decimal

/-! ### The text of a number -/

namespace Number

open Token (isDigit numberText)

theorem pattern_numberText {whole fraction : List Char} (hwhole : Digits whole)
    (hfraction : ∀ c ∈ fraction, isDigit c = true) : Pattern .number (numberText whole fraction) := by
  rw [numberText]
  split
  · exact .whole hwhole
  · next hne => exact .decimal hwhole ⟨fun hnil => hne (by rw [hnil]; rfl), hfraction⟩

/-- The shortest decimal of a finite word reads as the double with this word. -/
theorem positional_reads {word : Nat} (h : word < Binary64.infinity) :
    Pattern .number (Binary64.shortest word).positional ∧
      float? (Binary64.shortest word).positional = some (Float.ofBits word.toUInt64) := by
  obtain ⟨whole, fraction, hwhole, hfraction, htext, hword⟩ :=
    Decimal.positional_eq (Binary64.shortest word)
  rw [htext, Token.float?_numberText hwhole, Decimal.toFloat?, hword, Binary64.nearestWord_shortest, if_pos h]
  exact ⟨pattern_numberText hwhole hfraction, rfl⟩

/-- The text of a finite number that is not negative is a number of the source language and stands for
that number. -/
theorem display_reads {text : List Char} {x : Float} (h : float? text = some x) :
    Pattern .number (display x).toList ∧ float? (display x).toList = some x := by
  rw [float?, Decimal.toFloat?] at h
  split at h
  · next hlt =>
    cases h
    rw [display_ofBits hlt]
    exact positional_reads hlt
  · cases h

end Number

end LoxLang
