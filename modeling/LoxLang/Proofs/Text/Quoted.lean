import LoxLang.Text.Quoted
import Mathlib.Algebra.Group.Nat.Defs

/-!
# What a quoted text quotes

No character is written like the beginning of another, and none with a quote of its own before the end, so
that a quoted text says where it ends and what it quotes.

Main statement: `quote_append_inj`.
-/

namespace LoxLang.Text

/-! ### Hexadecimal digits -/

theorem hexDigit_inj {m n : Nat} (hm : m < 16) (hn : n < 16) (h : hexDigit m = hexDigit n) : m = n :=
  (by decide : ∀ m < 16, ∀ n < 16, hexDigit m = hexDigit n → m = n) m hm n hn h

/-- So many digits tell all numbers apart that they suffice for. -/
theorem hex_inj {width m n : Nat} (hm : m < 16 ^ width) (hn : n < 16 ^ width)
    (h : hex width m = hex width n) : m = n := by
  induction width generalizing m n with
  | zero =>
    rw [Nat.pow_zero] at hm hn
    omega
  | succ width ih =>
    obtain ⟨hhigh, hlow⟩ := List.append_inj' h rfl
    have hdiv := ih (Nat.div_lt_of_lt_mul (by rwa [Nat.mul_comm, ← Nat.pow_succ]))
      (Nat.div_lt_of_lt_mul (by rwa [Nat.mul_comm, ← Nat.pow_succ])) hhigh
    have hmod := hexDigit_inj (Nat.mod_lt m (by decide)) (Nat.mod_lt n (by decide)) (List.cons.inj hlow).1
    omega

/-! ### Escapes -/

/-- The letters that start the escapes by number, with how many digits follow. -/
def numericEscapes : List (Char × Nat) := [('x', 2), ('u', 4), ('U', 8)]

/-- How a character can be written: by a letter, as itself, or by its number. -/
inductive Escaped (c : Char) : List Char → Prop where
  | letter (h : escapeLetter? c = some l) : Escaped c ['\\', l]
  | itself (h : c ≠ '\\') (h' : c ≠ '"') : Escaped c [c]
  | number (h : (marker, width) ∈ numericEscapes) (hn : c.toNat < 16 ^ width) :
      Escaped c ('\\' :: marker :: hex width c.toNat)

theorem escaped (c : Char) : Escaped c (escape c) := by
  rw [escape]
  split
  · next l h => exact .letter h
  · next h =>
    split
    · refine .itself ?_ ?_ <;> rintro rfl <;> cases h
    · split
      · next hlt => exact .number (by decide) (Nat.lt_trans hlt (by decide))
      · split
        · next hlt => exact .number (by decide) hlt
        · exact .number (by decide) c.val.toNat_lt

/-- The characters that are written by a letter, each with its letter. -/
def letterEscapes : List (Char × Char) :=
  [('"', '"'), ('\\', '\\'), ('\x07', 'a'), ('\x08', 'b'), ('\x0c', 'f'), ('\n', 'n'), ('\r', 'r'),
   ('\t', 't'), ('\x0b', 'v')]

theorem mem_letterEscapes {c l : Char} (h : escapeLetter? c = some l) : (c, l) ∈ letterEscapes := by
  unfold escapeLetter? at h
  split at h <;> cases h <;> decide

theorem escapeLetter?_inj {c c' l : Char} (h : escapeLetter? c = some l) (h' : escapeLetter? c' = some l) :
    c = c' := by
  have hall : (letterEscapes.all fun p => letterEscapes.all fun q => p.2 != q.2 || p.1 == q.1) = true := by
    decide
  have hinner := List.all_eq_true.1 hall _ (mem_letterEscapes h)
  simpa using List.all_eq_true.1 hinner _ (mem_letterEscapes h')

theorem not_marker_of_letter {c l : Char} {width : Nat} (h : escapeLetter? c = some l) :
    (l, width) ∉ numericEscapes := by
  intro hm
  have hall : (letterEscapes.all fun p => numericEscapes.all fun q => p.2 != q.1) = true := by decide
  have hinner := List.all_eq_true.1 hall _ (mem_letterEscapes h)
  simpa using List.all_eq_true.1 hinner _ hm

theorem width_unique {marker : Char} {width width' : Nat} (h : (marker, width) ∈ numericEscapes)
    (h' : (marker, width') ∈ numericEscapes) : width = width' := by
  have hall : (numericEscapes.all fun p => numericEscapes.all fun q => p.1 != q.1 || p.2 == q.2) = true := by
    decide
  have hinner := List.all_eq_true.1 hall _ h
  simpa using List.all_eq_true.1 hinner _ h'

/-- No character is written like the beginning of another. -/
theorem Escaped.append_inj {c c' : Char} {text text' r r' : List Char} (h : Escaped c text)
    (h' : Escaped c' text') (heq : text ++ r = text' ++ r') : c = c' ∧ r = r' := by
  cases h <;> cases h' <;> simp only [List.cons_append, List.nil_append, List.cons.injEq] at heq
  case letter.letter h _ h' =>
    obtain ⟨-, rfl, rfl⟩ := heq
    exact ⟨escapeLetter?_inj h h', rfl⟩
  case letter.itself hne _ => exact absurd heq.1.symm hne
  case letter.number h _ _ hm _ =>
    obtain ⟨-, rfl, -⟩ := heq
    exact absurd hm (not_marker_of_letter h)
  case itself.itself => exact heq
  case itself.letter hne _ _ _ | itself.number hne _ _ _ _ _ => exact absurd heq.1 hne
  case number.letter hm _ _ h' =>
    obtain ⟨-, rfl, -⟩ := heq
    exact absurd hm (not_marker_of_letter h')
  case number.itself hne _ => exact absurd heq.1.symm hne
  case number.number hm hn _ _ hm' hn' =>
    obtain ⟨-, rfl, heq⟩ := heq
    obtain rfl := width_unique hm hm'
    obtain ⟨hdigits, rfl⟩ := List.append_inj heq (by simp)
    exact ⟨Char.toNat_inj.1 (hex_inj hn hn' hdigits), rfl⟩

/-- No character is written with a quote at its beginning. -/
theorem Escaped.head_ne {c : Char} {text r r' : List Char} (h : Escaped c text) :
    text ++ r ≠ '"' :: r' := by
  intro heq
  cases h with
  | letter | number => exact absurd (List.cons.inj heq).1 (by decide)
  | itself _ hne => exact hne (List.cons.inj heq).1

/-! ### Quoted texts -/

theorem flatMap_escape_inj {cs cs' r r' : List Char}
    (h : cs.flatMap escape ++ '"' :: r = cs'.flatMap escape ++ '"' :: r') : cs = cs' ∧ r = r' := by
  induction cs generalizing cs' with
  | nil =>
    cases cs' with
    | nil => exact ⟨rfl, (List.cons.inj h).2⟩
    | cons c' cs' =>
      rw [List.flatMap_cons, List.append_assoc] at h
      exact absurd h.symm (escaped c').head_ne
  | cons c cs ih =>
    rw [List.flatMap_cons, List.append_assoc] at h
    cases cs' with
    | nil => exact absurd h (escaped c).head_ne
    | cons c' cs' =>
      rw [List.flatMap_cons, List.append_assoc] at h
      obtain ⟨rfl, hrest⟩ := (escaped c).append_inj (escaped c') h
      obtain ⟨rfl, hr⟩ := ih hrest
      exact ⟨rfl, hr⟩

/-- A quoted text with something behind it tells both. -/
theorem quote_append_inj {text text' : String} {r r' : List Char}
    (h : (quote text).toList ++ r = (quote text').toList ++ r') : text = text' ∧ r = r' := by
  simp only [toList_quote, List.cons_append, List.append_assoc, List.nil_append] at h
  obtain ⟨hchars, hr⟩ := flatMap_escape_inj (List.cons.inj h).2
  exact ⟨String.toList_inj.1 hchars, hr⟩

end LoxLang.Text
