import LoxLang.Number.Binary64

/-!
# Decimal numbers

A non-negative decimal: a coefficient and a power of ten. It is read from the digits of a literal,
rounded to the nearest double, and written in one of two layouts, positional (`1200`, `0.005`) or
scientific (`1.2e+21`).

Main statement: `trim_coefficient`, that trimming takes zeros off the end of the coefficient and
nothing else.
-/

namespace LoxLang

/-- The number `coefficient · 10 ^ exponent`. -/
structure Decimal where
  coefficient : Nat
  exponent : Int
  deriving DecidableEq, Repr

namespace Decimal

/-- The value of one digit character. -/
def digitValue (c : Char) : Nat := c.toNat - '0'.toNat

/-- The number that a row of digits writes. -/
def ofDigits (digits : List Char) : Nat :=
  digits.foldl (fun n c => 10 * n + digitValue c) 0

/-- The decimal with these digits before and after the point. -/
def ofLiteral (whole fraction : List Char) : Decimal :=
  ⟨ofDigits (whole ++ fraction), -fraction.length⟩

/-- Numerator of the decimal as a ratio of whole numbers. -/
def numerator (d : Decimal) : Nat := d.coefficient * Nat.pow 10 d.exponent.toNat

/-- Denominator of the decimal as a ratio of whole numbers. -/
def denominator (d : Decimal) : Nat := Nat.pow 10 (-d.exponent).toNat

/-- The word of the double nearest to a decimal. -/
def nearestWord (d : Decimal) : Nat := Binary64.nearest d.numerator d.denominator

/-- The double nearest to a decimal, unless it is out of range. -/
def toFloat? (d : Decimal) : Option Float :=
  if d.nearestWord < Binary64.infinity then some (Float.ofBits d.nearestWord.toUInt64) else none

/-- Moves zeros from the end of the coefficient into the exponent. -/
def trim (d : Decimal) : Decimal :=
  if 0 < d.coefficient ∧ d.coefficient % 10 = 0 then
    trim ⟨d.coefficient / 10, d.exponent + 1⟩
  else d
termination_by d.coefficient
decreasing_by omega

/-- The digits of the coefficient. -/
def digits (d : Decimal) : List Char := Nat.toDigits 10 d.coefficient

/-- The power of ten of the first digit. -/
def magnitude (d : Decimal) : Int := d.digits.length - 1 + d.exponent

/-- All digits in their places, with a point only before a fraction. -/
def positional (d : Decimal) : List Char :=
  match d.exponent with
  | .ofNat zeros => d.digits ++ List.replicate zeros '0'
  | .negSucc n =>
    let places := n + 1
    let ds := d.digits
    if places < ds.length then
      ds.take (ds.length - places) ++ '.' :: ds.drop (ds.length - places)
    else
      '0' :: '.' :: List.replicate (places - ds.length) '0' ++ ds

/-- One digit before the point, then the exponent with its sign and at least two digits. -/
def scientific (d : Decimal) : List Char :=
  let mantissa := match d.digits with
    | [] => []
    | [c] => [c]
    | c :: more => c :: '.' :: more
  let sign := if d.magnitude < 0 then '-' else '+'
  let power := Nat.toDigits 10 d.magnitude.natAbs
  mantissa ++ 'e' :: sign :: List.replicate (2 - power.length) '0' ++ power

/-- Only zeros at the end are moved: the coefficient is the trimmed one with zeros put back. -/
theorem trim_coefficient (d : Decimal) :
    ∃ k : Nat, d.coefficient = d.trim.coefficient * Nat.pow 10 k ∧
      d.trim.exponent = d.exponent + k := by
  fun_induction trim d with
  | case1 d h ih =>
    obtain ⟨k, hc, he⟩ := ih
    refine ⟨k + 1, ?_, ?_⟩
    · simp only at hc
      rw [show Nat.pow 10 (k + 1) = Nat.pow 10 k * 10 from rfl, ← Nat.mul_assoc, ← hc]
      omega
    · simp only at he
      rw [he]
      omega
  | case2 d h => exact ⟨0, by simp, by simp⟩

end Decimal

end LoxLang
