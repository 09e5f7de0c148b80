import LoxLang.Proofs.Number.Display
import LoxLang.Proofs.Text.Quoted
import LoxLang.Proofs.Tree.Form

/-!
# Forms that can be read

A form can be read if its words can be told from values and hold no character that would end them. The text
of such a form tells the form, also in front of a blank, a closing parenthesis or a line feed: a
parenthesis opens a list, a quote opens a string, a digit starts a number, and every other leaf
is a word or the text of nil or of a truth value.

Main statements: `Form.chars_append_inj` and `Form.lines_inj`.
-/

namespace LoxLang

open Lexical (Pattern Digits float?)
open Token (isDigit)

/-- The values that a source text can give: of the numbers, those that a text of digits stands for. -/
inductive Value.Readable : Value → Prop where
  | nil : Readable .nil
  | bool : Readable (.bool b)
  | string : Readable (.string text)
  | number (h : float? text = some x) : Readable (.number x)

namespace Form

/-! ### Leaves -/

/-- Whether a character can stand in a word. -/
def isPlain (c : Char) : Bool := c ∉ [' ', '(', ')', '"', '\n']

/-- A text of characters that can stand in a word. -/
structure Plain (text : List Char) : Prop where
  ne_nil : text ≠ []
  all : ∀ c ∈ text, isPlain c = true

/-- The values with texts that look like words. -/
def constants : List (List Char × Value) :=
  [("nil".toList, .nil), ("true".toList, .bool true), ("false".toList, .bool false)]

/-- The leaf that a text without quotes stands for. -/
def ofText (text : List Char) : Form :=
  if text.head?.any isDigit then .value (.number ((float? text).getD 0))
  else (constants.lookup text).elim (.word (String.ofList text)) .value

/-- A word that is no value. -/
structure IsWord (text : String) : Prop where
  plain : Plain text.toList
  ofText : ofText text.toList = .word text

/-- A form of words that are no values and of values that can be read. -/
inductive Readable : Form → Prop where
  | word (h : IsWord text) : Readable (.word text)
  | value (h : v.Readable) : Readable (.value v)
  | list (h : ∀ p ∈ parts, Readable p) : Readable (.list parts)

/-- A form by what its text starts with. -/
inductive Shape : Form → Prop where
  | plain (h : Plain p.chars) (hp : ofText p.chars = p) : Shape p
  | quoted : Shape (.value (.string text))
  | list : Shape (.list parts)

theorem isPlain_of_isDigit {c : Char} (h : isDigit c = true) : isPlain c = true := by
  rw [isPlain, decide_eq_true_eq]
  simp only [List.mem_cons, List.not_mem_nil, or_false]
  rintro (rfl | rfl | rfl | rfl | rfl) <;> exact absurd h (by decide)

theorem plain_of_number {text : List Char} (h : Pattern .number text) : Plain text := by
  refine ⟨h.ne_nil, fun c hc => ?_⟩
  rcases h.number_cases with hall | ⟨ds, fs, hds, hfs, rfl⟩
  · exact isPlain_of_isDigit (hall.all c hc)
  · simp only [List.mem_append, List.mem_cons] at hc
    rcases hc with hc | rfl | hc
    · exact isPlain_of_isDigit (hds.all c hc)
    · decide
    · exact isPlain_of_isDigit (hfs.all c hc)

theorem number_head {text : List Char} (h : Pattern .number text) : text.head?.any isDigit = true := by
  rcases h.number_cases with hall | ⟨ds, fs, hds, -, rfl⟩
  · obtain ⟨d, us, rfl, hd⟩ := hall.head
    exact hd
  · obtain ⟨d, us, rfl, hd⟩ := hds.head
    exact hd

theorem plain_constant {text : String} (h : text ∈ ["nil", "true", "false"]) : Plain text.toList := by
  simp only [List.mem_cons, List.not_mem_nil, or_false] at h
  rcases h with rfl | rfl | rfl <;> exact ⟨by decide, List.all_eq_true.1 (by decide)⟩

theorem Readable.shape {p : Form} (h : p.Readable) : p.Shape := by
  cases h with
  | word h => exact .plain h.plain h.ofText
  | list => exact .list
  | value h =>
    cases h with
    | nil => exact .plain (plain_constant (by decide)) rfl
    | @bool b => cases b <;> exact .plain (plain_constant (by decide)) rfl
    | string => exact .quoted
    | number h =>
      obtain ⟨hp, hx⟩ := Number.display_reads h
      refine .plain (plain_of_number hp) ?_
      exact (if_pos (number_head hp)).trans (congrArg (fun x => Form.value (Value.number (x.getD 0))) hx)

/-! ### What follows a leaf -/

/-- A text that is over, or goes on with a character that ends a leaf. -/
def Ended (rest : List Char) : Prop := ∀ c ∈ rest.head?, c ∈ [' ', ')', '\n']

theorem Ended.not_isPlain {rest : List Char} (h : Ended rest) : ∀ c ∈ rest.head?, isPlain c = false := by
  intro c hc
  have := h c hc
  simp only [List.mem_cons, List.not_mem_nil, or_false] at this
  rcases this with rfl | rfl | rfl <;> decide

theorem ended_charsAll (ps : List Form) (rest : List Char) : Ended (charsAll ps ++ ')' :: rest) := by
  cases ps <;> rintro c ⟨⟩ <;> decide

/-- What a plain text starts with starts neither a list nor a string. -/
theorem Plain.ne_cons {text : List Char} (h : Plain text) {c : Char} (hc : isPlain c = false)
    {r r' : List Char} : text ++ r ≠ c :: r' := by
  obtain ⟨d, us, rfl⟩ := List.exists_cons_of_ne_nil h.ne_nil
  rintro ⟨⟩
  rw [h.all c List.mem_cons_self] at hc
  cases hc

theorem Plain.append_inj {text text' r r' : List Char} (h : Plain text) (h' : Plain text') (hr : Ended r)
    (hr' : Ended r') (heq : text ++ r = text' ++ r') : text = text' ∧ r = r' := by
  obtain ⟨htake, hdrop⟩ := Lexical.takeWhile_append_stretch h.all r hr.not_isPlain
  obtain ⟨htake', hdrop'⟩ := Lexical.takeWhile_append_stretch h'.all r' hr'.not_isPlain
  rw [heq] at htake hdrop
  exact ⟨htake.symm.trans htake', hdrop.symm.trans hdrop'⟩

/-! ### Texts tell forms -/

theorem chars_string (text : String) (r : List Char) : (value (.string text)).chars ++ r =
    '"' :: (text.toList.flatMap Text.escape ++ '"' :: r) := by
  rw [chars, Value.dump, Text.toList_quote, List.cons_append, List.cons_append, List.append_assoc,
    List.singleton_append]

theorem chars_list (parts : List Form) (r : List Char) :
    (list parts).chars ++ r = '(' :: ((charsAll parts).drop 1 ++ ')' :: r) := by
  rw [chars, List.cons_append, List.append_assoc, List.singleton_append]

theorem Shape.append_inj {p q : Form} (hp : p.Shape) (hq : q.Shape) (hleaf : ∀ parts, p ≠ .list parts)
    {r r' : List Char} (hr : Ended r) (hr' : Ended r') (heq : p.chars ++ r = q.chars ++ r') :
    p = q ∧ r = r' := by
  cases hp with
  | plain h ht =>
    cases hq with
    | plain h' ht' =>
      obtain ⟨htext, hrest⟩ := h.append_inj h' hr hr' heq
      exact ⟨ht.symm.trans ((congrArg ofText htext).trans ht'), hrest⟩
    | quoted => exact absurd (heq.trans (chars_string _ _)) (h.ne_cons (by decide))
    | list => exact absurd (heq.trans (chars_list _ _)) (h.ne_cons (by decide))
  | quoted =>
    cases hq with
    | plain h' => exact absurd (heq.symm.trans (chars_string _ _)) (h'.ne_cons (by decide))
    | quoted =>
      obtain ⟨rfl, hrest⟩ := Text.quote_append_inj heq
      exact ⟨rfl, hrest⟩
    | list =>
      rw [chars_string, chars_list] at heq
      exact absurd (List.cons.inj heq).1 (by decide)
  | list => exact absurd rfl (hleaf _)

theorem Shape.ne_close {p : Form} (hp : p.Shape) {r r' : List Char} : p.chars ++ r ≠ ')' :: r' := by
  intro heq
  cases hp with
  | plain h => exact h.ne_cons (by decide) heq
  | quoted =>
    rw [chars_string] at heq
    exact absurd (List.cons.inj heq).1 (by decide)
  | list =>
    rw [chars_list] at heq
    exact absurd (List.cons.inj heq).1 (by decide)

/-- Behind an opening parenthesis there is no blank in front of the first form. -/
theorem charsAll_of_drop {ps qs : List Form} (hps : ∀ p ∈ ps, p.Readable) (hqs : ∀ q ∈ qs, q.Readable)
    {r r' : List Char} (h : (charsAll ps).drop 1 ++ ')' :: r = (charsAll qs).drop 1 ++ ')' :: r') :
    charsAll ps ++ ')' :: r = charsAll qs ++ ')' :: r' := by
  cases ps with
  | nil =>
    cases qs with
    | nil => exact h
    | cons q qs =>
      simp only [charsAll, List.drop_one, List.tail_cons, List.append_assoc] at h
      exact absurd h.symm (hqs q List.mem_cons_self).shape.ne_close
  | cons p ps =>
    cases qs with
    | nil =>
      simp only [charsAll, List.drop_one, List.tail_cons, List.append_assoc] at h
      exact absurd h (hps p List.mem_cons_self).shape.ne_close
    | cons q qs => exact congrArg (' ' :: ·) h

mutual

/-- The text of a form that can be read, in front of what ends it, tells both. -/
theorem chars_append_inj : {p q : Form} → p.Readable → q.Readable → {r r' : List Char} → Ended r → Ended r' →
    p.chars ++ r = q.chars ++ r' → p = q ∧ r = r'
  | .list ps, .list qs, .list hps, .list hqs, r, r', _, _, heq => by
    rw [chars_list, chars_list] at heq
    obtain ⟨rfl, hrest⟩ := charsAll_append_inj hps hqs (charsAll_of_drop hps hqs (List.cons.inj heq).2)
    exact ⟨rfl, hrest⟩
  | .word _, _, hp, hq, _, _, hr, hr', heq => hp.shape.append_inj hq.shape nofun hr hr' heq
  | .value _, _, hp, hq, _, _, hr, hr', heq => hp.shape.append_inj hq.shape nofun hr hr' heq
  | .list _, .word _, hp, hq, _, _, hr, hr', heq =>
    (hq.shape.append_inj hp.shape nofun hr' hr heq.symm).imp Eq.symm Eq.symm
  | .list _, .value _, hp, hq, _, _, hr, hr', heq =>
    (hq.shape.append_inj hp.shape nofun hr' hr heq.symm).imp Eq.symm Eq.symm

theorem charsAll_append_inj : {ps qs : List Form} → (∀ p ∈ ps, p.Readable) → (∀ q ∈ qs, q.Readable) →
    {r r' : List Char} → charsAll ps ++ ')' :: r = charsAll qs ++ ')' :: r' → ps = qs ∧ r = r'
  | [], [], _, _, _, _, heq => ⟨rfl, (List.cons.inj heq).2⟩
  | [], _ :: _, _, _, _, _, heq => absurd (List.cons.inj heq).1 (by decide)
  | _ :: _, [], _, _, _, _, heq => absurd (List.cons.inj heq).1 (by decide)
  | p :: ps, q :: qs, hps, hqs, r, r', heq => by
    simp only [charsAll, List.cons_append, List.append_assoc, List.cons.injEq, true_and] at heq
    obtain ⟨rfl, hothers⟩ := chars_append_inj (hps p List.mem_cons_self) (hqs q List.mem_cons_self)
      (ended_charsAll ps r) (ended_charsAll qs r') heq
    obtain ⟨rfl, hrest⟩ := charsAll_append_inj (fun p hp => hps p (List.mem_cons_of_mem _ hp))
      (fun q hq => hqs q (List.mem_cons_of_mem _ hq)) hothers
    exact ⟨rfl, hrest⟩

end

/-- Forms that can be read, each on a line of its own, are told by the text of the lines. -/
theorem lines_inj {ps qs : List Form} (hps : ∀ p ∈ ps, p.Readable) (hqs : ∀ q ∈ qs, q.Readable)
    (h : (ps.flatMap fun p => p.chars ++ ['\n']) = qs.flatMap fun q => q.chars ++ ['\n']) : ps = qs := by
  induction ps generalizing qs with
  | nil =>
    cases qs with
    | nil => rfl
    | cons q qs => simp at h
  | cons p ps ih =>
    cases qs with
    | nil => simp at h
    | cons q qs =>
      simp only [List.flatMap_cons, List.append_assoc, List.singleton_append] at h
      have hended (rest : List Char) : Ended ('\n' :: rest) := by
        rintro c ⟨⟩
        decide
      obtain ⟨rfl, hrest⟩ := chars_append_inj (hps p List.mem_cons_self) (hqs q List.mem_cons_self)
        (hended _) (hended _) h
      rw [ih (fun p hp => hps p (List.mem_cons_of_mem _ hp)) (fun q hq => hqs q (List.mem_cons_of_mem _ hq))
        (List.cons.inj hrest).2]

end Form

end LoxLang
