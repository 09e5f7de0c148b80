import LoxLang.Number.Decimal

/-!
# The shortest decimal of a double

Many decimals round to one double. `shortest` takes one with the fewest digits, and of those the
nearest to the double, an exact tie going to the even last digit. On the grid of decimals with `n`
digits only the two neighbours of the number can win, so it is enough to ask of each of them
whether it rounds back, for `n` from 1 upwards. Seventeen digits always suffice; should none of
these grids answer, the exact decimal expansion does, so that no argument about grids is needed to
see that the result rounds back.

Main statement: `nearestWord_shortest`, that it does.
-/

namespace LoxLang.Binary64

/-- The power of ten of the first digit of a positive number of units, or one less. -/
def magnitudeGuess (u : Nat) : Int := ((u.log2 : Int) - 1074) * 30103 / 100000

/-- Whole multiples of `10 ^ e` in `u` units. -/
def multiples (u : Nat) (e : Int) : Nat :=
  u * Nat.pow 10 (-e).toNat / (one * Nat.pow 10 e.toNat)

/-- The power of ten of the first digit of a positive number of units. -/
def magnitude (u : Nat) : Int :=
  if 0 < multiples u (magnitudeGuess u + 1) then magnitudeGuess u + 1 else magnitudeGuess u

/-- Which of the neighbours `n · 10 ^ e` and `(n + 1) · 10 ^ e` is nearer to `u` units. -/
def compareToMiddle (u n : Nat) (e : Int) : Ordering :=
  compare (2 * u * Nat.pow 10 (-e).toNat) ((2 * n + 1) * one * Nat.pow 10 e.toNat)

/-- The better of two neighbours that both round back. -/
def nearer (u n : Nat) (e : Int) : Decimal :=
  match compareToMiddle u n e with
  | .lt => ⟨n, e⟩
  | .gt => ⟨n + 1, e⟩
  | .eq => if n % 2 = 0 then ⟨n, e⟩ else ⟨n + 1, e⟩

/-- A decimal on the grid of `10 ^ e` that rounds to the word, if there is one. -/
def onGrid? (word : Nat) (e : Int) : Option Decimal :=
  let u := units word
  let n := multiples u e
  let low := (Decimal.mk n e).trim
  let high := (Decimal.mk (n + 1) e).trim
  if low.nearestWord = word then
    if high.nearestWord = word then
      let best := (nearer u n e).trim
      if best.nearestWord = word then some best else none
    else some low
  else if high.nearestWord = word then some high
  else none

/-- The double itself, to its last digit. -/
def expansion (word : Nat) : Decimal := ⟨units word * Nat.pow 5 1074, -1074⟩

/-- The shortest decimal that rounds to a finite, non-negative word. -/
def shortest (word : Nat) : Decimal :=
  if word = 0 then ⟨0, 0⟩
  else
    let m := magnitude (units word)
    ((List.range 17).findSome? fun n : Nat => onGrid? word (m - n)).getD (expansion word)

theorem nearestWord_onGrid? {word : Nat} {e : Int} {d : Decimal} (h : onGrid? word e = some d) :
    d.nearestWord = word := by
  simp only [onGrid?] at h
  split at h
  · split at h
    · split at h
      · simp_all
      · simp at h
    · simp_all
  · split at h
    · simp_all
    · simp at h

theorem ten_pow (n : Nat) : Nat.pow 10 n = Nat.pow 2 n * Nat.pow 5 n := Nat.mul_pow 2 5 n

theorem nearestWord_expansion (word : Nat) : (expansion word).nearestWord = word := by
  have hd : (expansion word).denominator = one * Nat.pow 5 1074 := by
    have he : (-(expansion word).exponent).toNat = 1074 := rfl
    unfold Decimal.denominator one
    rw [he]
    generalize 1074 = n
    exact ten_pow n
  have hn : (expansion word).numerator = units word * Nat.pow 5 1074 := by
    exact Nat.mul_one _
  have hp : ∀ n, 0 < Nat.pow 5 n := fun n => Nat.pow_pos (by decide)
  unfold Decimal.nearestWord
  rw [hn, hd, nearest_mul (hp 1074), nearest_units]

/-- The shortest decimal of a word rounds to that word. -/
theorem nearestWord_shortest (word : Nat) : (shortest word).nearestWord = word := by
  unfold shortest
  split
  · subst_vars
    decide +kernel
  · simp only
    cases h : (List.range 17).findSome? fun n : Nat => onGrid? word (magnitude (units word) - n) with
    | none => exact nearestWord_expansion word
    | some d =>
      obtain ⟨n, _, hn⟩ := List.exists_of_findSome?_eq_some h
      exact nearestWord_onGrid? hn

end LoxLang.Binary64
