import LoxLang.Number.Integer
import LoxLang.Token.Character

/-!
# Points in time

The spellings of a point in time: a date, a date and a time of day with blanks between them, or a date, a
`T` and a time of day with a zone. Months, days, hours, minutes and seconds have one digit or two, the
year has four, and seconds may have a fraction. The day must be one of its month.
-/

namespace LoxLang.Yaml.Timestamp

/-- What is left of a text after something has been read, if it could be. -/
abbrev Reading (α : Type) := Option (α × List Char)

/-- A number of one digit or two. -/
def short? : List Char → Reading Nat
  | a :: b :: cs =>
    if !Token.isDigit a then none
    else if Token.isDigit b then some (10 * Decimal.digitValue a + Decimal.digitValue b, cs)
    else some (Decimal.digitValue a, b :: cs)
  | [a] => if Token.isDigit a then some (Decimal.digitValue a, []) else none
  | [] => none

/-- A number of one digit or two that is below a bound. -/
def below? (bound : Nat) (cs : List Char) : Reading Nat :=
  match short? cs with
  | some (n, cs) => if n < bound then some (n, cs) else none
  | none => none

/-- What follows a character. -/
def after? (c : Char) : List Char → Option (List Char)
  | d :: cs => if c == d then some cs else none
  | [] => none

/-- Whether a year has a leap day. -/
def isLeap (year : Nat) : Bool := year % 4 == 0 && (year % 100 != 0 || year % 400 == 0)

/-- The number of days in a month. -/
def daysIn (year month : Nat) : Nat :=
  if month == 2 then (if isLeap year then 29 else 28)
  else if [4, 6, 9, 11].contains month then 30
  else 31

/-- What follows a date. -/
def afterDate? (cs : List Char) : Option (List Char) := do
  let year := cs.takeWhile Token.isDigit
  if year.length ≠ 4 then none
  let cs ← after? '-' (cs.drop 4)
  let (month, cs) ← below? 13 cs
  let cs ← after? '-' cs
  let (day, cs) ← short? cs
  if 0 < month ∧ 0 < day ∧ day ≤ daysIn (Decimal.ofDigits year) month then some cs else none

/-- What follows the fraction of a second, if there is one. -/
def afterFraction : List Char → List Char
  | c :: d :: cs =>
    if (c == '.' || c == ',') && Token.isDigit d then cs.dropWhile Token.isDigit else c :: d :: cs
  | cs => cs

/-- What follows a time of day. -/
def afterTime? (cs : List Char) : Option (List Char) := do
  let (_, cs) ← below? 24 cs
  let cs ← after? ':' cs
  let (_, cs) ← below? 60 cs
  let cs ← after? ':' cs
  let (_, cs) ← below? 60 cs
  return afterFraction cs

/-- A number of two digits up to a limit. -/
def twoDigits (limit : Nat) (a b : Char) : Bool :=
  Token.isDigit a && Token.isDigit b && 10 * Decimal.digitValue a + Decimal.digitValue b ≤ limit

/-- A zone: `Z`, or a sign and the hours and minutes of an offset. -/
def isZone : List Char → Bool
  | ['Z'] => true
  | [sign, h, i, colon, m, n] =>
    (sign == '+' || sign == '-') && colon == ':' && twoDigits 24 h i && twoDigits 60 m n
  | _ => false

/-- Whether what follows a date completes a point in time. -/
def completes : List Char → Bool
  | [] => true
  | c :: cs =>
    if c == 'T' || c == 't' then (afterTime? cs).elim false isZone
    else c == ' ' && (afterTime? (cs.dropWhile (· == ' '))).elim false (·.isEmpty)

/-- Whether a text is a point in time. -/
def isTimestamp (cs : List Char) : Bool := (afterDate? cs).elim false completes

end LoxLang.Yaml.Timestamp
