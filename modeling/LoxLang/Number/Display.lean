import LoxLang.Number.Shortest

/-!
# Numbers as text

Two ways to write a double, both with the fewest digits that read back. `display` is what a program
prints: always positional, and `Infinity` by its name. `listing` is what a token listing shows: from
10^6 on and below 10^-4 in scientific layout, and an infinity as `+Inf` or `-Inf`.

Main statement: `read_display`, that the digits which are printed read back as the number.
-/

namespace LoxLang.Number

/-- The parts of a double that its text depends on. -/
inductive Shape where
  | nan
  | infinite (negative : Bool)
  | finite (negative : Bool) (digits : Decimal)

/-- The sign bit of a double. -/
def isNegative (x : Float) : Bool := 0x8000000000000000 ≤ x.toBits.toNat

/-- The word of the magnitude of a double. -/
def magnitudeWord (x : Float) : Nat := x.toBits.toNat % 0x8000000000000000

/-- The shape of a double. -/
def shape (x : Float) : Shape :=
  if magnitudeWord x < Binary64.infinity then
    .finite (isNegative x) (Binary64.shortest (magnitudeWord x))
  else if magnitudeWord x = Binary64.infinity then .infinite (isNegative x)
  else .nan

/-- A text with a minus before it if asked. -/
def signed (negative : Bool) (text : List Char) : String :=
  String.ofList (if negative then '-' :: text else text)

/-- The text of a number as a program prints it. -/
def display (x : Float) : String :=
  match shape x with
  | .nan => "NaN"
  | .infinite negative => signed negative "Infinity".toList
  | .finite negative d => signed negative d.positional

/-- Whether a listing writes a decimal positionally. -/
def listsPositionally (d : Decimal) : Bool := -4 ≤ d.magnitude && d.magnitude < 6

/-- The text of a number in a listing of tokens. -/
def listing (x : Float) : String :=
  match shape x with
  | .nan => "NaN"
  | .infinite negative => if negative then "-Inf" else "+Inf"
  | .finite negative d =>
    signed negative (if listsPositionally d then d.positional else d.scientific)

/-- The decimal that is written for a finite number rounds to its magnitude. -/
theorem read_display {x : Float} {negative : Bool} {d : Decimal}
    (h : shape x = .finite negative d) : d.nearestWord = magnitudeWord x := by
  unfold shape at h
  split at h
  · obtain ⟨_, rfl⟩ : isNegative x = negative ∧ Binary64.shortest (magnitudeWord x) = d := by
      simpa using h
    exact Binary64.nearestWord_shortest _
  · split at h <;> simp at h

end LoxLang.Number
