/-!
# Whole numbers in digits

The digits of a base, the number that a row of them writes, a sign before them, and what fits a signed word of
64 bits.

Main statement: `signed?_bounded`, that such a number lies within the word.
-/

namespace LoxLang.Integer

/-- One more than the largest number of a signed word. -/
def wordLimit : Nat := 0x8000000000000000

/-- The value of a digit below a base. -/
def digitIn? (base : Nat) (c : Char) : Option Nat :=
  let value :=
    if '0' ≤ c ∧ c ≤ '9' then c.toNat - '0'.toNat
    else if 'a' ≤ c ∧ c ≤ 'z' then c.toNat - 'a'.toNat + 10
    else if 'A' ≤ c ∧ c ≤ 'Z' then c.toNat - 'A'.toNat + 10
    else base
  if value < base then some value else none

/-- The number that some digits write in a base. -/
def natIn? (base : Nat) (digits : List Char) : Option Nat :=
  (digits.mapM (digitIn? base)).map fun values => values.foldl (fun n d => base * n + d) 0

/-- Whether a minus stands first, and what follows the sign, if there is one. -/
def takeSign : List Char → Bool × List Char
  | '-' :: cs => (true, cs)
  | '+' :: cs => (false, cs)
  | cs => (false, cs)

/-- A number with its sign, if it fits a signed word. -/
def signed? (negative : Bool) (n : Nat) : Option Int :=
  if negative then (if n ≤ wordLimit then some (-n) else none)
  else if n < wordLimit then some n else none

/-- A decimal number with or without a sign that fits a signed word. -/
def decimal? (text : String) : Option Int :=
  let (negative, digits) := takeSign text.toList
  if digits.isEmpty then none else (natIn? 10 digits).bind (signed? negative)

theorem signed?_bounded {negative : Bool} {n : Nat} {z : Int} (h : signed? negative n = some z) :
    -(wordLimit : Int) ≤ z ∧ z < wordLimit := by
  unfold signed? at h
  unfold wordLimit at *
  split at h
  · split at h
    · cases h
      omega
    · cases h
  · split at h
    · cases h
      omega
    · cases h

end LoxLang.Integer
