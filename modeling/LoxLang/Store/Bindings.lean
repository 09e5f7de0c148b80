import LoxLang.Value

/-!
# Names and their values

A table from names to what they stand for, in the order in which the names came up. Writing a name that is
there replaces what it stands for, in its place; a new one goes to the end.

Main statements: `get?_put_self`, `get?_put_of_ne`, and `names_put`, what writing does to the names.
-/

namespace LoxLang

/-- A table from names to values of some type. -/
structure Bindings (α : Type) where
  entries : List (String × α) := []

namespace Bindings

/-- What a name stands for. -/
def get? (b : Bindings α) (name : String) : Option α := b.entries.lookup name

/-- Whether a name stands for anything. -/
def contains (b : Bindings α) (name : String) : Bool := (b.get? name).isSome

/-- Replaces the value of the first entry with a name, or adds one. -/
def putEntry (name : String) (value : α) : List (String × α) → List (String × α)
  | [] => [(name, value)]
  | (n, v) :: rest => if name == n then (n, value) :: rest else (n, v) :: putEntry name value rest

/-- Lets a name stand for a value. -/
def put (b : Bindings α) (name : String) (value : α) : Bindings α :=
  ⟨putEntry name value b.entries⟩

/-- The names of a table. -/
def names (b : Bindings α) : List String := b.entries.map Prod.fst

theorem lookup_putEntry_self (name : String) (value : α) (entries : List (String × α)) :
    (putEntry name value entries).lookup name = some value := by
  induction entries with
  | nil => simp [putEntry]
  | cons e rest ih =>
    obtain ⟨n, v⟩ := e
    by_cases h : name == n
    · simp [putEntry, List.lookup_cons, h]
    · simp [putEntry, List.lookup_cons, h, ih]

theorem lookup_putEntry_of_ne {name other : String} (h : other ≠ name) (value : α)
    (entries : List (String × α)) :
    (putEntry name value entries).lookup other = entries.lookup other := by
  have ho : (other == name) = false := by simpa using h
  induction entries with
  | nil => simp [putEntry, List.lookup_cons, ho]
  | cons e rest ih =>
    obtain ⟨n, v⟩ := e
    by_cases hn : name == n
    · have : name = n := eq_of_beq hn
      subst this
      simp [putEntry, List.lookup_cons, ho]
    · simp [putEntry, List.lookup_cons, hn, ih]

@[simp] theorem get?_put_self (b : Bindings α) (name : String) (value : α) :
    (b.put name value).get? name = some value :=
  lookup_putEntry_self name value b.entries

theorem get?_put_of_ne (b : Bindings α) {name other : String} (h : other ≠ name) (value : α) :
    (b.put name value).get? other = b.get? other :=
  lookup_putEntry_of_ne h value b.entries

theorem names_putEntry (name : String) (value : α) (entries : List (String × α)) :
    (putEntry name value entries).map Prod.fst =
      if name ∈ entries.map Prod.fst then entries.map Prod.fst
      else entries.map Prod.fst ++ [name] := by
  induction entries with
  | nil => simp [putEntry]
  | cons e rest ih =>
    obtain ⟨n, v⟩ := e
    by_cases hn : name = n
    · subst hn
      simp [putEntry]
    · have : (name == n) = false := by simpa using hn
      simp only [putEntry, this, Bool.false_eq_true, if_false, List.map_cons, List.mem_cons, hn,
        false_or, ih]
      split <;> simp

/-- Writing adds a name only if it was not there. -/
theorem names_put (b : Bindings α) (name : String) (value : α) :
    (b.put name value).names = if name ∈ b.names then b.names else b.names ++ [name] :=
  names_putEntry name value b.entries

end Bindings

end LoxLang
