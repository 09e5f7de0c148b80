/-!
# Double-precision words

A finite double is a whole number of units of 2^-1074, the least positive double, with a sign. The
64-bit word of a non-negative one is a natural number below `infinity`, and larger words stand for
larger numbers. `units` gives the number of units of a word; `nearest` gives the word of the double
closest to an exact ratio, a tie going to the even word.

Main statements: `nearest_units`, that a number which is a double already is its own nearest, and
`nearest_mul`, that only the ratio counts.
-/

namespace LoxLang.Binary64

/-- The word of positive infinity: the first one that no finite number has. -/
def infinity : Nat := 0x7ff0000000000000

/-- How many units make one. -/
def one : Nat := Nat.pow 2 1074

/-- How many words share one exponent. -/
def binade : Nat := 0x10000000000000

/-- The magnitude of a finite word, in units. -/
def units (word : Nat) : Nat :=
  if word / binade = 0 then word else (binade + word % binade) * Nat.pow 2 (word / binade - 1)

/-- The whole number nearest to `a / b`; of two equally near ones the even one. -/
def roundHalfEven (a b : Nat) : Nat :=
  let q := a / b
  let r := a % b
  if 2 * r < b ∨ (2 * r = b ∧ q % 2 = 0) then q else q + 1

/-- How many low bits of a number of units a double cannot keep. -/
def excess (u : Nat) : Nat := u.log2 - 52

/-- The word of the double nearest to `a / b`; `infinity` or more if that is out of range. -/
def nearest (a b : Nat) : Nat :=
  let s := excess (a * one / b)
  s * binade + roundHalfEven (a * one) (b * Nat.pow 2 s)

theorem one_pos : 0 < one := by
  unfold one
  generalize 1074 = n
  exact Nat.two_pow_pos n

theorem roundHalfEven_mul {a b k : Nat} (hk : 0 < k) :
    roundHalfEven (a * k) (b * k) = roundHalfEven a b := by
  have hr : (2 * (a % b * k) < b * k) ↔ (2 * (a % b) < b) := by
    rw [← Nat.mul_assoc]
    exact Nat.mul_lt_mul_right hk
  have he : (2 * (a % b * k) = b * k) ↔ (2 * (a % b) = b) := by
    rw [← Nat.mul_assoc]
    exact ⟨Nat.eq_of_mul_eq_mul_right hk, fun h => by rw [h]⟩
  simp only [roundHalfEven, Nat.mul_div_mul_right _ _ hk, Nat.mul_mod_mul_right, hr, he]

/-- A ratio has one nearest double, however it is written. -/
theorem nearest_mul {a b k : Nat} (hk : 0 < k) : nearest (a * k) (b * k) = nearest a b := by
  have hb : ∀ s, b * k * Nat.pow 2 s = b * Nat.pow 2 s * k :=
    fun s => Nat.mul_right_comm b k (Nat.pow 2 s)
  simp only [nearest, Nat.mul_right_comm a k one, hb, Nat.mul_div_mul_right _ _ hk,
    roundHalfEven_mul hk]

theorem roundHalfEven_exact {a b : Nat} (hb : 0 < b) : roundHalfEven (a * b) b = a := by
  simp [roundHalfEven, Nat.mul_div_cancel _ hb, hb]

theorem binade_pos : 0 < binade := by decide

theorem excess_normal {f e : Nat} (hf : f < binade) : excess ((binade + f) * Nat.pow 2 e) = e := by
  have hp : 0 < Nat.pow 2 e := Nat.two_pow_pos e
  have h : ((binade + f) * Nat.pow 2 e).log2 = 52 + e := by
    unfold binade at *
    rw [Nat.log2_eq_iff (Nat.mul_ne_zero (by omega) (by omega))]
    constructor
    · rw [Nat.pow_add]
      exact Nat.mul_le_mul_right _ (by omega)
    · rw [show 52 + e + 1 = 53 + e by omega, Nat.pow_add]
      exact Nat.mul_lt_mul_of_pos_right (by omega) hp
  rw [excess, h, Nat.add_sub_cancel_left]

theorem excess_subnormal {u : Nat} (hu : u < binade) : excess u = 0 := by
  by_cases h0 : u = 0
  · subst h0; rfl
  · have : u.log2 < 52 := (Nat.log2_lt h0).2 hu
    simp only [excess]
    omega

/-- Rounding does not move a number that is a double. -/
theorem nearest_units (word : Nat) : nearest (units word) one = word := by
  have hone : 0 < one := one_pos
  have hq : units word * one / one = units word := Nat.mul_div_cancel _ hone
  have hword : binade * (word / binade) + word % binade = word := Nat.div_add_mod word binade
  by_cases h : word / binade = 0
  · have hw : word < binade := Nat.lt_of_div_eq_zero binade_pos h
    have hu : units word = word := if_pos h
    have hs : excess (word * one / one) = 0 := by
      rw [Nat.mul_div_cancel _ hone]
      exact excess_subnormal hw
    simp [nearest, hu, hs, roundHalfEven_exact hone]
  · obtain ⟨e, he⟩ := Nat.exists_eq_succ_of_ne_zero h
    have hu : units word = (binade + word % binade) * Nat.pow 2 e := by
      rw [units, if_neg h, he, Nat.succ_sub_one]
    have hs : excess (units word * one / one) = e := by
      rw [hq, hu]
      exact excess_normal (Nat.mod_lt _ binade_pos)
    have hr : roundHalfEven (units word * one) (one * Nat.pow 2 e) = binade + word % binade := by
      rw [hu, Nat.mul_assoc, Nat.mul_comm _ one]
      exact roundHalfEven_exact (Nat.mul_pos hone (Nat.two_pow_pos _))
    rw [he, Nat.mul_succ, Nat.mul_comm binade e] at hword
    simp only [nearest, hs, hr]
    omega

end LoxLang.Binary64
