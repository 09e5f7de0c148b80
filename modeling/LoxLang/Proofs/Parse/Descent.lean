import LoxLang.Proofs.Parse
import LoxLang.Proofs.Parse.Cursor
import Mathlib.Data.List.TakeWhile

/-!
# The parsers over a cursor and the parsers over what is left

To have the cursor at an index is to have the tokens from there on left, up to the first end token.
Along this correspondence the parsers over a cursor do what the parsers over the tokens left do. They
never crash and are never exhausted, each of them is known to read a token at least or not, and what is
recorded is in order and has no gaps.

Main statement: `parse_total`.
-/

namespace LoxLang

namespace Descent

open Parse

/-- The index of the first end token. -/
def firstEnd (slice : List Token) : Nat := slice.findIdx (·.isEof)

/-- The cursor is at a token and not behind the first end token; there is a token before it when that
is looked at; a call for a declaration gets stuck behind where it began and before where reading goes on;
and one before the first end token moves the cursor on. -/
def Event.InOrder (slice : List Token) : Event → Prop
  | .stands i => i < slice.length ∧ i ≤ firstEnd slice
  | .looksBack i => 1 ≤ i
  | .fails failure => failure.start ≤ failure.stuck ∧ failure.stuck ≤ failure.resumed
  | .declares start stop => start < firstEnd slice → start < stop

/-! ### Where the cursor is -/

/-- A list of tokens with its first end token. -/
structure Tape where
  before : List Token
  eof : Token
  after : List Token
  before_isEof : ∀ t ∈ before, t.isEof = false
  eof_isEof : eof.isEof = true

namespace Tape

variable {T : Tape} {s t : State} {ts rest : List Token}

def slice (T : Tape) : List Token := T.before ++ T.eof :: T.after

theorem firstEnd_slice (T : Tape) : firstEnd T.slice = T.before.length := by
  have hbefore : T.before.findIdx (·.isEof) = T.before.length := by
    rw [List.findIdx_eq_length]
    exact T.before_isEof
  rw [firstEnd, slice, List.findIdx_append, hbefore, if_neg (Nat.lt_irrefl _), List.findIdx_cons,
    T.eof_isEof]
  simp

theorem firstEnd_lt (T : Tape) : firstEnd T.slice < T.slice.length := by
  rw [firstEnd_slice, slice, List.length_append, List.length_cons]
  omega

/-- These tokens are left before the first end token. -/
structure At (T : Tape) (s : State) (ts : List Token) : Prop where
  le : s.cursor ≤ T.before.length
  rest : T.before.drop s.cursor = ts

theorem At.length (h : T.At s ts) : s.cursor + ts.length = T.before.length := by
  have := h.le
  rw [← h.rest, List.length_drop]
  omega

theorem At.isEof (h : T.At s ts) : ∀ t ∈ ts, t.isEof = false := by
  intro t ht
  rw [← h.rest] at ht
  exact T.before_isEof t (List.mem_of_mem_drop ht)

/-- The token at the cursor is the first of those left, or the first end token. -/
theorem At.getElem? (h : T.At s ts) : T.slice[s.cursor]? = some (Parse.next T.eof ts) := by
  have hlen := h.length
  have hdrop := congrArg List.head? h.rest
  rw [List.head?_drop] at hdrop
  cases ts with
  | nil =>
    have hcursor : s.cursor = T.before.length := hlen
    rw [slice, hcursor, List.getElem?_append_right (Nat.le_refl _), Nat.sub_self]
    rfl
  | cons t ts =>
    rw [List.length_cons] at hlen
    rw [slice, List.getElem?_append_left (by omega), hdrop]
    rfl

/-- One token further, one token less is left. -/
theorem At.tail {x : Token} (h : T.At s (x :: ts)) (ht : t.cursor = s.cursor + 1) : T.At t ts := by
  have hlen := h.length
  rw [List.length_cons] at hlen
  refine ⟨by omega, ?_⟩
  rw [ht, ← List.drop_drop, h.rest, List.drop_one, List.tail_cons]

theorem At.getElem?_before {x : Token} (h : T.At s (x :: ts)) : T.before[s.cursor]? = some x := by
  rw [← List.head?_drop, h.rest]
  rfl

/-- The token passed over last. -/
theorem At.getElem?_pred {i : Nat} (h : T.At s ts) (hi : s.cursor = i + 1) :
    T.slice[i]? = T.before[i]? := by
  have := h.le
  rw [slice, List.getElem?_append_left (by omega)]

end Tape

/-! ### Answers that correspond -/

/-- A way from a state to another, on which all is in order. What has been recorded stays, and each index at
which the cursor has been is recorded. -/
structure Leads (T : Tape) (s t : State) (rest : List Token) (errors : List SyntaxError) : Prop where
  at_rest : T.At t rest
  le : s.cursor ≤ t.cursor
  errors : t.errors = s.errors ++ errors
  events : ∀ event ∈ t.events, event ∈ s.events ∨ event.InOrder T.slice
  kept : s.events <+: t.events
  stands : ∀ i, s.cursor < i → i ≤ t.cursor → .stands i ∈ t.events

/-- The answer of a parser over a cursor is that of a parser over the tokens left, and with a result
it has moved the cursor on by `b` at least. -/
inductive Mirrors (T : Tape) (b : Nat) (s : State) : Parse.Reply α → Answer α → Prop where
  | done {a : α} {t : State} (h : Leads T s t rest errors) (hb : s.cursor + b ≤ t.cursor) :
      Mirrors T b s ⟨some a, rest, errors⟩ (.done a t)
  | failed (h : Leads T s t rest errors) : Mirrors T b s ⟨none, rest, errors⟩ (.failed t)

/-- With at most `k` tokens left, a parser over a cursor answers as the parser over the tokens left, and
reads `b` tokens at least when it has a result. -/
structure Agrees (T : Tape) (k b : Nat) (p : Parse.Parser α) (m : Descent α) : Prop where
  mirrors : ∀ {s ts}, T.At s ts → ts.length ≤ k → Mirrors T b s (p T.eof ts) (m T.slice s)

section Laws

variable {T : Tape} {s t u : State} {ts rest rest' : List Token} {es es' : List SyntaxError} {k b c : Nat}

/-- To report errors is all that is done where the cursor and the record stay as they are. -/
theorem Leads.report (h : T.At s ts) (es : List SyntaxError) :
    Leads T s { s with errors := s.errors ++ es } ts es :=
  ⟨⟨h.le, h.rest⟩, Nat.le_refl _, rfl, fun _ => .inl, List.prefix_rfl, fun i hi hi' => by
    exact absurd hi (Nat.not_lt.2 hi')⟩

theorem Leads.refl (h : T.At s ts) : Leads T s s ts [] := by
  have hsame := Leads.report h []
  rwa [List.append_nil] at hsame

theorem Leads.trans (h : Leads T s t rest es) (h' : Leads T t u rest' es') :
    Leads T s u rest' (es ++ es') := by
  refine ⟨h'.at_rest, Nat.le_trans h.le h'.le, ?_, fun event he => ?_, h.kept.trans h'.kept,
    fun i hi hi' => ?_⟩
  · rw [h'.errors, h.errors, List.append_assoc]
  · rcases h'.events event he with he | he
    · exact h.events event he
    · exact .inr he
  · rcases Nat.lt_or_ge t.cursor i with hlt | hge
    · exact h'.stands i hlt hi'
    · exact h'.kept.subset (h.stands i hi hge)

theorem Mirrors.weaken {r : Parse.Reply α} {a : Answer α} (h : Mirrors T b s r a) (hc : c ≤ b) :
    Mirrors T c s r a := by
  cases h with
  | done h hb => exact .done h (by omega)
  | failed h => exact .failed h

theorem Agrees.weaken {p : Parse.Parser α} {m : Descent α} (h : Agrees T k b p m) (hc : c ≤ b) :
    Agrees T k c p m := ⟨fun hat hk => (h.mirrors hat hk).weaken hc⟩

theorem Agrees.mono {l : Nat} {p : Parse.Parser α} {m : Descent α} (h : Agrees T k b p m) (hl : l ≤ k) :
    Agrees T l b p m := ⟨fun hat hk => h.mirrors hat (Nat.le_trans hk hl)⟩

/-- After a parser that reads `b` tokens the next one has less left, and less to read. -/
theorem Mirrors.bind {p : Parse.Parser α} {m : Descent α} {f : α → Parse.Parser β} {g : α → Descent β}
    (hat : T.At s ts) (hk : ts.length ≤ k) (hfirst : Mirrors T b s (p T.eof ts) (m T.slice s))
    (hf : b ≤ k → ∀ a, Agrees T (k - b) (c - b) (f a) (g a)) :
    Mirrors T c s ((p >>= f) T.eof ts) ((m >>= g) T.slice s) := by
  rw [Parse.run_bind, run_bind]
  generalize p T.eof ts = reply at hfirst
  generalize m T.slice s = answer at hfirst
  cases hfirst with
  | failed h => exact .failed h
  | @done rest es a t h hb =>
    have hlen := hat.length
    have hlen' := h.at_rest.length
    have hnext := (hf (by omega) a).mirrors h.at_rest (by omega)
    dsimp only
    generalize f a T.eof rest = reply at hnext
    generalize g a T.slice t = answer at hnext
    cases hnext with
    | done h' hb' => exact .done (h.trans h') (by omega)
    | failed h' => exact .failed (h.trans h')

theorem Agrees.bind {p : Parse.Parser α} {m : Descent α} {f : α → Parse.Parser β} {g : α → Descent β}
    (hp : Agrees T k b p m) (hf : b ≤ k → ∀ a, Agrees T (k - b) (c - b) (f a) (g a)) :
    Agrees T k c (p >>= f) (m >>= g) := ⟨fun hat hk => (hp.mirrors hat hk).bind hat hk hf⟩

theorem agrees_pure (a : α) : Agrees T k 0 (pure a) (pure a) :=
  ⟨fun hat _ => .done (.refl hat) (Nat.le_refl _)⟩

theorem Agrees.map {p : Parse.Parser α} {m : Descent α} (h : Agrees T k b p m) (f : α → β) :
    Agrees T k b (f <$> p) (f <$> m) :=
  h.bind fun _ a => by
    rw [Nat.sub_self]
    exact agrees_pure (f a)

theorem Agrees.ite {p q : Parse.Parser α} {m n : Descent α} {P : Prop} [Decidable P]
    (hp : P → Agrees T k b p m) (hq : ¬ P → Agrees T k b q n) :
    Agrees T k b (if P then p else q) (if P then m else n) := by
  split
  · next h => exact hp h
  · next h => exact hq h

end Laws

/-! ### Looking and moving -/

section Primitives

variable {T : Tape} {s t : State} {ts : List Token} {k : Nat}

theorem peek_eq (h : T.At s ts) : peek (m := Descent) T.slice s = .done (Parse.next T.eof ts) s := by
  show Descent.peek T.slice s = _
  rw [Descent.peek, h.getElem?]

theorem check_eq (h : T.At s ts) (kind : Token.Kind) :
    check (m := Descent) kind T.slice s = .done ((Parse.next T.eof ts).kind == kind) s := by
  rw [check, bind_of_done (peek_eq h)]
  rfl

theorem atEnd_eq (h : T.At s ts) : atEnd (m := Descent) T.slice s = .done ts.isEmpty s := by
  show Descent.atEnd T.slice s = _
  rw [Descent.atEnd, bind_of_done (m := Descent.peek) (peek_eq h)]
  cases ts with
  | nil => exact congrArg (Answer.done · s) T.eof_isEof
  | cons x ts => exact congrArg (Answer.done · s) (h.isEof x List.mem_cons_self)

theorem Leads.record {errors : List SyntaxError} {event : Event} (h : Leads T s t ts errors)
    (he : event.InOrder T.slice) : Leads T s (t.record event) ts errors := by
  have hkept : t.events <+: (t.record event).events := List.prefix_append _ _
  refine ⟨⟨h.at_rest.le, h.at_rest.rest⟩, h.le, h.errors, fun e hmem => ?_, h.kept.trans hkept,
    fun i hi hi' => hkept.subset (h.stands i hi hi')⟩
  rcases List.mem_append.1 hmem with hmem | hmem
  · exact h.events e hmem
  · obtain rfl := List.mem_singleton.1 hmem
    exact .inr he

/-- To move is recorded, with where the cursor has come to. -/
theorem move_records {slice : List Token} (h : move slice s = .done () t) :
    t.cursor = s.cursor + 1 ∧ .stands t.cursor ∈ t.events := by
  cases h
  exact ⟨rfl, List.mem_append_right _ List.mem_cons_self⟩

theorem leads_move {x : Token} (h : T.At s (x :: ts)) :
    ∃ t, move T.slice s = .done () t ∧ Leads T s t ts [] ∧ t.cursor = s.cursor + 1 := by
  let t := { s with cursor := s.cursor + 1 }.record (.stands (s.cursor + 1))
  have hmove : move T.slice s = .done () t := rfl
  have hlen := h.length
  have hend := T.firstEnd_slice
  have hlt := T.firstEnd_lt
  rw [List.length_cons] at hlen
  have horder : (Event.stands (s.cursor + 1)).InOrder T.slice := by
    constructor <;> omega
  refine ⟨t, hmove, ⟨h.tail rfl, Nat.le_succ _, (List.append_nil _).symm, fun event he => ?_,
    List.prefix_append _ _, fun i hi hi' => ?_⟩, rfl⟩
  · rcases List.mem_append.1 he with he | he
    · exact .inl he
    · obtain rfl := List.mem_singleton.1 he
      exact .inr horder
  · obtain rfl : i = t.cursor := Nat.le_antisymm hi' hi
    exact (move_records hmove).2

theorem previous_eq {x : Token} {i : Nat} (h : T.At s ts) (hi : s.cursor = i + 1)
    (hx : T.before[i]? = some x) :
    previous T.slice s = .done x (s.record (.looksBack s.cursor)) ∧
      Leads T s (s.record (.looksBack s.cursor)) ts [] := by
  constructor
  · rw [previous, hi]
    dsimp only
    rw [h.getElem?_pred hi, hx]
  · refine (Leads.refl h).record ?_
    show 1 ≤ s.cursor
    omega

/-- To look back is recorded. -/
theorem previous_records {slice : List Token} {x : Token} (h : previous slice s = .done x t) :
    .looksBack s.cursor ∈ t.events := by
  rw [previous] at h
  split at h
  · cases h
  · next i hi =>
    split at h
    · cases h
      rw [hi]
      exact List.mem_append_right _ List.mem_cons_self
    · cases h

/-- Before the end, advancing reads the first of the tokens left. -/
theorem advance_eq {x : Token} (h : T.At s (x :: ts)) :
    ∃ t, advance (m := Descent) T.slice s = .done x t ∧ Leads T s t ts [] ∧ t.cursor = s.cursor + 1 := by
  obtain ⟨t, hmove, hleads, ht⟩ := leads_move h
  obtain ⟨hprevious, hback⟩ := previous_eq hleads.at_rest ht h.getElem?_before
  refine ⟨_, ?_, hleads.trans hback, ht⟩
  show Descent.advance T.slice s = _
  rw [Descent.advance, bind_of_done (m := Descent.atEnd) (atEnd_eq h)]
  exact (bind_of_done hmove _).trans hprevious

theorem agrees_check (kind : Token.Kind) : Agrees T k 0 (check kind) (check kind) := by
  refine ⟨fun {s ts} h _ => ?_⟩
  rw [check_eq h]
  exact .done (.refl h) (Nat.le_refl _)

theorem agrees_report (error : SyntaxError) : Agrees T k 0 (report error) (report error) := by
  refine ⟨fun {s ts} h _ => ?_⟩
  exact .done (.report h [error]) (Nat.le_refl _)

theorem agrees_reportHere (problem : SyntaxProblem) :
    Agrees T k 0 (reportHere problem) (reportHere problem) := by
  refine ⟨fun {s ts} h hk => ?_⟩
  rw [reportHere_eq, reportHere, bind_of_done (peek_eq h)]
  exact (agrees_report ⟨Parse.next T.eof ts, problem⟩).mirrors h hk

theorem agrees_missing (expected : Expectation) {b : Nat} :
    Agrees T k b (missing expected : Parse.Parser α) (missing expected) := by
  refine ⟨fun {s ts} h _ => ?_⟩
  have hreport : reportHere (m := Descent) (.missing expected) T.slice s = .done ()
      { s with errors := s.errors ++ [⟨Parse.next T.eof ts, .missing expected⟩] } := by
    rw [reportHere, bind_of_done (peek_eq h)]
    rfl
  rw [missing_eq, missing, bind_of_done hreport]
  exact .failed (.report h _)

end Primitives

/-! ### Reading tokens of some kind -/

section Reading

variable {T : Tape} {s t : State} {x : Token} {ts : List Token} {k b c : Nat}

theorem Tape.eof_kind (T : Tape) : T.eof.kind = .eof := eq_of_beq T.eof_isEof

theorem Mirrors.after {reply : Parse.Reply α} {answer : Answer α} (h : Leads T s t ts [])
    (hc : s.cursor + c ≤ t.cursor) (hm : Mirrors T (b - c) t reply answer) :
    Mirrors T b s reply answer := by
  cases hm with
  | done h' hb => exact .done (h.trans h') (by omega)
  | failed h' => exact .failed (h.trans h')

theorem accept?_of_mem {kinds : List Token.Kind} (h : T.At s (x :: ts)) (hx : x.kind ∈ kinds) :
    ∃ t, accept? (m := Descent) kinds T.slice s = .done (some x) t ∧ Leads T s t ts [] ∧
      t.cursor = s.cursor + 1 := by
  induction kinds with
  | nil => cases hx
  | cons kind kinds ih =>
    rw [accept?, bind_of_done (check_eq h kind), Parse.next_cons]
    by_cases hkind : x.kind = kind
    · obtain ⟨t, hadvance, ht⟩ := advance_eq h
      refine ⟨t, ?_, ht⟩
      rw [if_pos (beq_iff_eq.2 hkind)]
      exact bind_of_done hadvance _
    · obtain ⟨t, haccept, ht⟩ := ih ((List.mem_cons.1 hx).resolve_left hkind)
      refine ⟨t, ?_, ht⟩
      rw [if_neg (by simpa using hkind)]
      exact haccept

theorem accept?_of_not_mem {kinds : List Token.Kind} (h : T.At s ts)
    (hx : (Parse.next T.eof ts).kind ∉ kinds) : accept? (m := Descent) kinds T.slice s = .done none s := by
  induction kinds with
  | nil => rfl
  | cons kind kinds ih =>
    rw [List.mem_cons, not_or] at hx
    rw [accept?, bind_of_done (check_eq h kind), if_neg (by simpa using hx.1)]
    exact ih hx.2

/-- What follows on whether the next token is of one of these kinds. -/
theorem agrees_accept {kinds : List Token.Kind} {f : Option Token → Parse.Parser α}
    {g : Option Token → Descent α} (heof : Token.Kind.eof ∉ kinds)
    (hsome : 1 ≤ k → ∀ x, x.kind ∈ kinds → Agrees T (k - 1) (b - 1) (f (some x)) (g (some x)))
    (hnone : Agrees T k b (f none) (g none)) :
    Agrees T k b (accept? kinds >>= f) (accept? kinds >>= g) := by
  refine ⟨fun {s ts} h hk => ?_⟩
  by_cases hx : (Parse.next T.eof ts).kind ∈ kinds
  · cases ts with
    | nil => exact absurd (T.eof_kind ▸ hx) heof
    | cons x ts =>
      rw [Parse.next_cons] at hx
      rw [List.length_cons] at hk
      obtain ⟨t, haccept, hleads, ht⟩ := accept?_of_mem h hx
      rw [Parse.accept?_bind_of_mem hx, bind_of_done haccept]
      exact .after hleads (by omega) ((hsome (by omega) x hx).mirrors hleads.at_rest (by omega))
  · rw [Parse.accept?_bind_of_not_mem hx, bind_of_done (accept?_of_not_mem h hx)]
    exact hnone.mirrors h hk

theorem agrees_expect {kind : Token.Kind} (heof : kind ≠ .eof) (expected : Expectation) :
    Agrees T k 1 (expect kind expected) (expect kind expected) := by
  refine ⟨fun {s ts} h hk => ?_⟩
  rw [expect, expect, Parse.check_bind, bind_of_done (check_eq h kind)]
  by_cases hx : (Parse.next T.eof ts).kind = kind
  · rw [if_pos (beq_iff_eq.2 hx), if_pos (beq_iff_eq.2 hx)]
    cases ts with
    | nil => exact absurd (T.eof_kind ▸ hx).symm heof
    | cons x ts =>
      obtain ⟨t, hadvance, hleads, ht⟩ := advance_eq h
      rw [hadvance]
      exact .done hleads (by omega)
  · rw [if_neg (by simpa using hx), if_neg (by simpa using hx)]
    exact (agrees_missing expected).mirrors h hk

/-- With `x` and at most `k` tokens left in all, a parser over a cursor answers as one over the tokens
left. -/
structure AgreesBefore (T : Tape) (k b : Nat) (x : Token) (p : Parse.Parser α) (m : Descent α) :
    Prop where
  mirrors : ∀ {s ts}, T.At s (x :: ts) → (x :: ts).length ≤ k →
    Mirrors T b s (p T.eof (x :: ts)) (m T.slice s)

theorem Agrees.before {p : Parse.Parser α} {m : Descent α} (h : Agrees T k b p m) (x : Token) :
    AgreesBefore T k b x p m := ⟨h.mirrors⟩

theorem agrees_advance {f : Token → Parse.Parser α} {g : Token → Descent α}
    (h : 1 ≤ k → Agrees T (k - 1) (b - 1) (f x) (g x)) :
    AgreesBefore T k b x (advance >>= f) (advance >>= g) := by
  refine ⟨fun {s ts} hat hk => ?_⟩
  obtain ⟨t, hadvance, hleads, ht⟩ := advance_eq hat
  rw [List.length_cons] at hk
  rw [Parse.advance_bind, bind_of_done hadvance]
  exact .after hleads (by omega) ((h (by omega)).mirrors hleads.at_rest (by omega))

/-- What follows on the next token, if there is one. -/
theorem agrees_switch {f : Token → Parse.Parser α} {g : Token → Descent α}
    (hnil : Agrees T k b (f T.eof) (g T.eof)) (hcons : ∀ x, AgreesBefore T k b x (f x) (g x)) :
    Agrees T k b (peek >>= f) (peek >>= g) := by
  refine ⟨fun {s ts} h hk => ?_⟩
  rw [bind_of_done (peek_eq h)]
  cases ts with
  | nil => exact hnil.mirrors h hk
  | cons x ts => exact (hcons x).mirrors h hk

end Reading

/-! ### Expressions -/

section Expressions

variable {T : Tape} {k n n' : Nat}

theorem agrees_commaSeparated {item : Parse.Parser α} {item' : Descent α} (limit : SyntaxProblem)
    (hitem : Agrees T k 1 item item') (hn : k < n) (hn' : k < n') (count : Nat) :
    Agrees T k 1 (commaSeparated item limit n count) (commaSeparated item' limit n' count) := by
  induction n generalizing k n' count with
  | zero => omega
  | succ n ih =>
    obtain ⟨n', rfl⟩ := Nat.exists_eq_add_one_of_ne_zero (Nat.ne_zero_of_lt hn')
    rw [commaSeparated, commaSeparated]
    have hmore (first : α) (h : 1 ≤ k - 1) : Agrees T (k - 1 - 1) 0
        (do return first :: (← commaSeparated item limit n (count + 1)))
        (do return first :: (← commaSeparated item' limit n' (count + 1))) :=
      (ih (hitem.mono (by omega)) (by omega) (by omega) _).bind fun _ _ => agrees_pure _
    refine .ite (fun _ => (agrees_reportHere limit).bind fun _ _ => ?_) fun _ => ?_
    all_goals
      refine hitem.bind fun _ first => ?_
      exact agrees_accept (by decide) (fun h _ _ => hmore first h) (agrees_pure _)

theorem agrees_joined {operand : Parse.Parser Expr} {operand' : Descent Expr}
    {operators : List Token.Kind} {join : Expr → Token → Expr → Expr}
    (heof : Token.Kind.eof ∉ operators) (hoperand : Agrees T k 1 operand operand') (hn : k < n)
    (hn' : k < n') (left : Expr) :
    Agrees T k 0 (joined operand operators join n left)
      (joined operand' operators join n' left) := by
  induction n generalizing k n' left with
  | zero => omega
  | succ n ih =>
    obtain ⟨n', rfl⟩ := Nat.exists_eq_add_one_of_ne_zero (Nat.ne_zero_of_lt hn')
    rw [joined, joined]
    refine agrees_accept heof (fun _ op _ => ?_) (agrees_pure left)
    refine (hoperand.mono (Nat.sub_le _ _)).bind fun _ right => ?_
    exact ih (hoperand.mono (by omega)) (by omega) (by omega) _

theorem agrees_level {operand : Parse.Parser Expr} {operand' : Descent Expr}
    {operators : List Token.Kind} (heof : Token.Kind.eof ∉ operators)
    (join : Expr → Token → Expr → Expr) (hn : k < n) (hn' : k < n')
    (hoperand : Agrees T k 1 operand operand') :
    Agrees T k 1 (level n operators join operand) (level n' operators join operand') :=
  hoperand.bind fun _ left =>
    agrees_joined heof (hoperand.mono (Nat.sub_le _ _)) (by omega) (by omega) left

theorem agrees_primary {nested : Parse.Parser Expr} {nested' : Descent Expr}
    (hnested : 1 ≤ k → Agrees T (k - 1) 1 nested nested') :
    Agrees T k 1 (primary nested) (primary nested') := by
  refine agrees_switch ?_ fun x => ?_
  · rw [T.eof_kind]
    exact agrees_missing _
  · cases hx : x.kind with
    | kwFalse | kwTrue | kwNil | kwThis | identifier => exact agrees_advance fun _ => agrees_pure _
    | number | string => exact agrees_advance fun _ => agrees_pure _
    | kwSuper =>
      refine agrees_advance fun _ => ?_
      refine (agrees_expect (by decide) _).bind fun _ _ => ?_
      exact (agrees_expect (by decide) _).bind fun _ _ => agrees_pure _
    | leftParen =>
      refine agrees_advance fun h => ?_
      refine (hnested h).bind fun _ _ => ?_
      exact (agrees_expect (by decide) _).bind fun _ _ => agrees_pure _
    | _ => exact (agrees_missing _).before x

theorem agrees_arguments {nested : Parse.Parser Expr} {nested' : Descent Expr}
    (hnested : Agrees T k 1 nested nested') (hn : k < n) (hn' : k < n') :
    Agrees T k 1 (arguments n nested) (arguments n' nested') := by
  have hclose (args : List Expr) {j : Nat} : Agrees T j 1
      (do let paren ← expect .rightParen .argumentsClose
          return (paren, args))
      (do let paren ← expect .rightParen .argumentsClose
          return (paren, args)) :=
    (agrees_expect (by decide) _).bind fun _ _ => agrees_pure _
  rw [arguments, arguments]
  refine (agrees_check .rightParen).bind fun _ found => .ite (fun _ => ?_) fun _ => ?_
  · exact (agrees_pure []).bind fun _ _ => hclose _
  · refine (agrees_commaSeparated .tooManyArguments hnested hn hn' 0).bind fun _ _ => ?_
    exact (hclose _).weaken (Nat.zero_le _)

theorem agrees_suffixes {nested : Parse.Parser Expr} {nested' : Descent Expr} {m m' : Nat}
    (hnested : Agrees T k 1 nested nested') (hm : k < m) (hm' : k < m') (hn : k < n) (hn' : k < n')
    (e : Expr) : Agrees T k 0 (suffixes m nested n e) (suffixes m' nested' n' e) := by
  induction n generalizing k n' e with
  | zero => omega
  | succ n ih =>
    obtain ⟨n', rfl⟩ := Nat.exists_eq_add_one_of_ne_zero (Nat.ne_zero_of_lt hn')
    have hless {j : Nat} (hj : j ≤ k) : Agrees T j 1 nested nested' := hnested.mono hj
    rw [suffixes, suffixes]
    refine agrees_accept (by decide) (fun _ x _ => .ite (fun _ => ?_) fun _ => ?_) (agrees_pure e)
    · refine (agrees_arguments (hless (Nat.sub_le _ _)) (by omega) (by omega)).bind fun _ found => ?_
      exact ih (hless (by omega)) (by omega) (by omega) (by omega) (by omega) _
    · refine (agrees_expect (by decide) _).bind fun _ name => ?_
      exact ih (hless (by omega)) (by omega) (by omega) (by omega) (by omega) _

theorem agrees_call {nested : Parse.Parser Expr} {nested' : Descent Expr}
    (hnested : 1 ≤ k → Agrees T (k - 1) 1 nested nested') (hn : k < n) (hn' : k < n') :
    Agrees T k 1 (call n nested) (call n' nested') :=
  (agrees_primary hnested).bind fun h e =>
    agrees_suffixes (hnested h) (by omega) (by omega) (by omega) (by omega) e

theorem agrees_unary {operand : Parse.Parser Expr} {operand' : Descent Expr}
    (hoperand : Agrees T k 1 operand operand') (hn : k < n) (hn' : k < n') :
    Agrees T k 1 (unary operand n) (unary operand' n') := by
  induction n generalizing k n' with
  | zero => omega
  | succ n ih =>
    obtain ⟨n', rfl⟩ := Nat.exists_eq_add_one_of_ne_zero (Nat.ne_zero_of_lt hn')
    rw [unary, unary]
    refine agrees_accept (by decide) (fun _ op _ => ?_) hoperand
    exact (ih (hoperand.mono (Nat.sub_le _ _)) (by omega) (by omega)).bind fun _ _ => agrees_pure _

theorem agrees_operators {nested : Parse.Parser Expr} {nested' : Descent Expr}
    (hnested : 1 ≤ k → Agrees T (k - 1) 1 nested nested') (hn : k < n) (hn' : k < n') :
    Agrees T k 1 (operators n nested) (operators n' nested') := by
  refine agrees_level (by decide) _ hn hn' ?_
  refine agrees_level (by decide) _ hn hn' ?_
  refine agrees_level (by decide) _ hn hn' ?_
  refine agrees_level (by decide) _ hn hn' ?_
  refine agrees_level (by decide) _ hn hn' ?_
  refine agrees_level (by decide) _ hn hn' ?_
  exact agrees_unary (agrees_call hnested hn hn') hn hn'

theorem agrees_assignTo (equals : Token) (value target : Expr) :
    Agrees T k 0 (assignTo equals value target) (assignTo equals value target) := by
  cases target with
  | name | get => exact agrees_pure _
  | _ => exact (agrees_report _).bind fun _ _ => agrees_pure _

theorem agrees_assignment {nested : Parse.Parser Expr} {nested' : Descent Expr}
    (hnested : 1 ≤ k → Agrees T (k - 1) 1 nested nested') (hn : k < n) (hn' : k < n') :
    Agrees T k 1 (assignment n nested) (assignment n' nested') := by
  refine (agrees_operators hnested hn hn').bind fun h target => ?_
  refine agrees_accept (by decide) (fun _ equals _ => ?_) (agrees_pure target)
  refine ((hnested h).mono (Nat.sub_le _ _)).bind fun _ value => ?_
  exact agrees_assignTo equals value target

/-- More rounds than tokens left are enough for an expression. -/
theorem agrees_expression (hn : k < n) (hn' : k < n') :
    Agrees T k 1 (expression n) (expression n') := by
  induction n generalizing k n' with
  | zero => omega
  | succ n ih =>
    obtain ⟨n', rfl⟩ := Nat.exists_eq_add_one_of_ne_zero (Nat.ne_zero_of_lt hn')
    rw [expression, expression, later_eq, Parse.later_eq]
    exact agrees_assignment (fun _ => ih (by omega) (by omega)) hn hn'

end Expressions

/-! ### Recovery -/

section Recovery

variable {T : Tape} {s t : State} {start ts : List Token} {x last : Token} {i k n n' : Nat}

theorem boundary_eq (h : T.At s ts) (hs : s.cursor = i + 1) (hlast : T.before[i]? = some last)
    (hn : ts.length < n) :
    ∃ t, boundary n T.slice s = .done () t ∧ Leads T s t (Parse.toBoundary last ts) [] := by
  induction ts generalizing s i last n with
  | nil =>
    obtain ⟨n, rfl⟩ := Nat.exists_eq_add_one_of_ne_zero (Nat.ne_zero_of_lt hn)
    refine ⟨s, ?_, .refl h⟩
    rw [boundary, bind_of_done (m := Descent.atEnd) (atEnd_eq h)]
    rfl
  | cons x ts ih =>
    obtain ⟨n, rfl⟩ := Nat.exists_eq_add_one_of_ne_zero (Nat.ne_zero_of_lt hn)
    rw [List.length_cons] at hn
    obtain ⟨hprevious, hback⟩ := previous_eq h hs hlast
    rw [boundary, bind_of_done (m := Descent.atEnd) (atEnd_eq h), List.isEmpty_cons,
      if_neg Bool.false_ne_true, bind_of_done hprevious, Parse.toBoundary]
    by_cases hsemicolon : (last.kind == .semicolon) = true
    · refine ⟨s.record (.looksBack s.cursor), ?_, ?_⟩
      · rw [if_pos hsemicolon]
        rfl
      · rw [hsemicolon, Bool.true_or, if_pos rfl]
        exact hback
    · rw [if_neg hsemicolon, bind_of_done (m := Descent.peek) (peek_eq hback.at_rest), Parse.next_cons]
      by_cases hstarts : Parse.startsStatement x.kind = true
      · refine ⟨s.record (.looksBack s.cursor), ?_, ?_⟩
        · rw [if_pos hstarts]
          rfl
        · rw [hstarts, Bool.or_true, if_pos rfl]
          exact hback
      · obtain ⟨t, hadvance, hleads, ht⟩ := advance_eq hback.at_rest
        obtain ⟨u, hboundary, hmore⟩ := ih (n := n) hleads.at_rest ht h.getElem?_before (by omega)
        refine ⟨u, ?_, ?_⟩
        · rw [if_neg hstarts, bind_of_done (m := Descent.advance) hadvance]
          exact hboundary
        · rw [if_neg (by simp [hsemicolon, hstarts])]
          exact (hback.trans hleads).trans hmore

/-- Recovering goes on where reading is to be resumed, and that is further on. -/
theorem synchronize_eq (h : T.At s (x :: start)) (ht : T.At t ts) (hle : s.cursor ≤ t.cursor)
    (hn : ts.length < n) :
    ∃ u, synchronize n s.cursor T.slice t = .done () u ∧
      Leads T t u (Parse.resume (x :: start) ts) [] ∧ s.cursor < u.cursor := by
  have hlen := h.length
  have hlen' := ht.length
  rw [List.length_cons] at hlen
  have hposition : position T.slice t = .done t.cursor t := rfl
  rw [synchronize, bind_of_done hposition]
  by_cases hstay : t.cursor = s.cursor
  · -- nothing has been read
    obtain rfl : x :: start = ts := by rw [← h.rest, ← ht.rest, hstay]
    obtain ⟨u, hadvance, hleads, hu⟩ := advance_eq ht
    rw [List.length_cons] at hn
    obtain ⟨v, hboundary, hmore⟩ :=
      boundary_eq hleads.at_rest hu ht.getElem?_before (by omega : start.length < n)
    have hresume : Parse.resume (x :: start) (x :: start) = Parse.toBoundary x start := by
      rw [Parse.resume, Nat.sub_self]
      rfl
    have hle := hmore.le
    refine ⟨v, ?_, hresume ▸ hleads.trans hmore, by omega⟩
    rw [if_pos hstay]
    exact (bind_of_done hadvance _).trans hboundary
  · -- the token read last comes before those left
    obtain ⟨i, hi⟩ : ∃ i, t.cursor = i + 1 := Nat.exists_eq_add_one_of_ne_zero (by omega)
    obtain ⟨last, hlast⟩ : ∃ last, T.before[i]? = some last :=
      ⟨T.before[i], List.getElem?_eq_getElem (by omega)⟩
    obtain ⟨u, hboundary, hmore⟩ := boundary_eq ht hi hlast hn
    have hdrop : (x :: start).drop ((x :: start).length - ts.length - 1) = last :: ts := by
      have hcount : s.cursor + ((x :: start).length - ts.length - 1) = i := by
        rw [List.length_cons]
        omega
      rw [← h.rest, List.drop_drop, h.rest, hcount, List.drop_eq_getElem?_toList_append, hlast,
        ← hi, ht.rest]
      rfl
    have hresume : Parse.resume (x :: start) ts = Parse.toBoundary last ts := by
      rw [Parse.resume, hdrop]
    have hle := hmore.le
    refine ⟨u, ?_, hresume ▸ hmore, by omega⟩
    rw [if_neg hstay]
    exact hboundary

/-- A call for a declaration that has moved the cursor on is in order. -/
theorem Leads.declares {rest : List Token} {errors : List SyntaxError} (h : Leads T s t rest errors)
    (hlt : s.cursor < t.cursor) :
    Leads T s (t.record (.declares s.cursor t.cursor)) rest errors :=
  h.record fun _ => hlt

/-- Recovering answers as one does over the tokens left, and before the end it always reads on. -/
theorem agrees_recovering {p : Parse.Parser α} {m : Descent α} (hp : Agrees T k 1 p m) (n : Nat)
    (hn' : k < n') : AgreesBefore T k 1 x (recovering n p) (recovering n' m) := by
  refine ⟨fun {s start} hat hk => ?_⟩
  have hfirst := hp.mirrors hat hk
  rw [Parse.recovering_eq, recovering_eq, Descent.recovering]
  generalize p T.eof (x :: start) = reply at hfirst
  generalize m T.slice s = answer at hfirst
  cases hfirst with
  | done h hb => exact .done (h.declares (by omega)) (by exact hb)
  | @failed t rest errors h =>
    have hlen := hat.length
    have hlen' := h.at_rest.length
    have hle := h.le
    obtain ⟨u, hu, hleads, hlt⟩ := synchronize_eq (n := n') hat h.at_rest hle (by omega)
    dsimp only
    rw [hu]
    have horder : (Event.fails ⟨s.cursor, t.cursor, u.cursor⟩).InOrder T.slice := ⟨hle, hleads.le⟩
    have hway := ((h.trans hleads).record horder).declares hlt
    rw [List.append_nil] at hway
    exact .done hway (by exact hlt)

/-- Every call that recovers and comes back is recorded. -/
theorem recovering_records {m : Descent α} {slice : List Token} {r : Option α}
    (h : recovering n m slice s = .done r t) : .declares s.cursor t.cursor ∈ t.events := by
  rw [recovering_eq, Descent.recovering] at h
  split at h
  · cases h
    exact List.mem_append_right _ List.mem_cons_self
  · split at h <;> cases h
    exact List.mem_append_right _ List.mem_cons_self
  · cases h
  · cases h

theorem declaration_records {slice : List Token} {r : Option Stmt}
    (h : declaration (m := Descent) n slice s = .done r t) : .declares s.cursor t.cursor ∈ t.events := by
  cases n with
  | zero => cases h
  | succ n =>
    rw [declaration, later_eq] at h
    exact recovering_records h

end Recovery

/-! ### Statements and declarations -/

section Statements

variable {T : Tape} {k n n' : Nat}

/-- Items of which each is called for only where a token is left, and reads one. -/
theorem agrees_untilBrace {item : Parse.Parser α} {item' : Descent α}
    (hitem : ∀ x, AgreesBefore T k 1 x item item') (hn : k < n) (hn' : k < n') :
    Agrees T k 0 (untilBrace item n) (untilBrace item' n') := by
  induction n generalizing k n' with
  | zero => omega
  | succ n ih =>
    obtain ⟨n', rfl⟩ := Nat.exists_eq_add_one_of_ne_zero (Nat.ne_zero_of_lt hn')
    refine ⟨fun {s ts} h hk => ?_⟩
    rw [untilBrace, untilBrace, Parse.check_bind, bind_of_done (check_eq h _), Parse.atEnd_bind,
      bind_of_done (atEnd_eq h)]
    by_cases hstop : ((Parse.next T.eof ts).kind == .rightBrace || ts.isEmpty) = true
    · rw [if_pos hstop, if_pos hstop]
      exact (agrees_pure []).mirrors h hk
    · rw [if_neg hstop, if_neg hstop]
      cases ts with
      | nil => simp at hstop
      | cons x ts =>
        refine ((hitem x).mirrors h hk).bind h hk fun _ first => ?_
        have hless (y : Token) : AgreesBefore T (k - 1) 1 y item item' :=
          ⟨fun hat hk' => (hitem y).mirrors hat (by omega)⟩
        exact (ih hless (by omega) (by omega)).bind fun _ _ => agrees_pure _

/-- All tokens between two states are passed over by calls for declarations that are recorded. -/
def Covered (s t : State) : Prop :=
  ∀ i, s.cursor ≤ i → i < t.cursor → ∃ start stop, .declares start stop ∈ t.events ∧ start ≤ i ∧ i < stop

/-- The declarations of a program: with items that always have a result there is nothing left in
the end. -/
theorem program_eq {item : Parse.Parser (Option Stmt)} {item' : Descent (Option Stmt)} {s : State}
    {ts : List Token} (hsome : ∀ eof ts, (item eof ts).result.isSome)
    (hrecords : ∀ {s t r}, item' T.slice s = .done r t → .declares s.cursor t.cursor ∈ t.events)
    (hitem : ∀ x, AgreesBefore T k 1 x item item') (hat : T.At s ts) (hk : ts.length ≤ k)
    (hn : k < n) (hn' : k < n') :
    ∃ stmts errors t, program item n T.eof ts = ⟨some stmts, [], errors⟩ ∧
      program item' n' T.slice s = .done stmts t ∧ Leads T s t [] errors ∧ Covered s t := by
  induction n generalizing k n' s ts with
  | zero => omega
  | succ n ih =>
    obtain ⟨n', rfl⟩ := Nat.exists_eq_add_one_of_ne_zero (Nat.ne_zero_of_lt hn')
    rw [program, program, Parse.atEnd_bind, bind_of_done (atEnd_eq hat)]
    cases ts with
    | nil => exact ⟨[], [], s, rfl, rfl, .refl hat, fun i hi hi' => absurd hi (Nat.not_le.2 hi')⟩
    | cons x ts =>
      have hfirst := (hitem x).mirrors hat hk
      have hresult := hsome T.eof (x :: ts)
      rw [List.isEmpty_cons, if_neg Bool.false_ne_true, if_neg Bool.false_ne_true, Parse.run_bind,
        run_bind]
      generalize item T.eof (x :: ts) = reply at hfirst hresult
      generalize hanswer' : item' T.slice s = answer at hfirst
      cases hfirst with
      | failed => exact absurd hresult Bool.false_ne_true
      | @done rest errors first t h hb =>
        have hlen := hat.length
        have hlen' := h.at_rest.length
        have hless (y : Token) : AgreesBefore T (k - 1) 1 y item item' :=
          ⟨fun hat' hk' => (hitem y).mirrors hat' (by omega)⟩
        obtain ⟨stmts, more, u, hreply, hanswer, hleads, hcovered⟩ :=
          ih hless h.at_rest (by omega) (by omega) (show k - 1 < n' by omega)
        refine ⟨first.toList ++ stmts, errors ++ more, u, ?_, ?_, h.trans hleads, fun i hi hi' => ?_⟩
        · dsimp only
          rw [Parse.bind_of_some hreply, Parse.run_pure, Parse.Reply.after_mk, List.append_nil]
        · exact bind_of_done hanswer _
        · rcases Nat.lt_or_ge i t.cursor with hlt | hge
          · exact ⟨_, _, hleads.kept.subset (hrecords hanswer'), hi, hlt⟩
          · exact hcovered i hge hi'

theorem agrees_block {inner : Parse.Parser (Option Stmt)} {inner' : Descent (Option Stmt)}
    (hinner : ∀ x, AgreesBefore T k 1 x inner inner') (hn : k < n) (hn' : k < n') :
    Agrees T k 1 (block n inner) (block n' inner') :=
  (agrees_untilBrace hinner hn hn').bind fun _ _ =>
    (agrees_expect (by decide) _).bind fun _ _ => agrees_pure _

theorem agrees_terminated (hn : k < n) (hn' : k < n') (finish : Expectation) :
    Agrees T k 1 (terminated n finish) (terminated n' finish) :=
  (agrees_expression hn hn').bind fun _ _ => (agrees_expect (by decide) _).bind fun _ _ => agrees_pure _

theorem agrees_unlessNext (hn : k < n) (hn' : k < n') (kind : Token.Kind) :
    Agrees T k 0 (unlessNext n kind) (unlessNext n' kind) := by
  refine (agrees_check kind).bind fun _ found => .ite (fun _ => agrees_pure none) fun _ => ?_
  exact (agrees_expression hn hn').bind fun _ _ => agrees_pure _

theorem agrees_varDecl (hn : k < n) (hn' : k < n') : Agrees T k 1 (varDecl n) (varDecl n') := by
  have hend (name : Token) (initial : Option Expr) {j : Nat} : Agrees T j 0
      (do let _ ← expect .semicolon .variableEnd
          return Stmt.var name initial)
      (do let _ ← expect .semicolon .variableEnd
          return Stmt.var name initial) :=
    (agrees_expect (by decide) _).bind fun _ _ => agrees_pure _
  refine (agrees_expect (by decide) _).bind fun _ name => ?_
  refine agrees_accept (by decide) (fun _ equals _ => ?_) ?_
  · refine ((agrees_expression (by omega) (by omega)).map some).bind fun _ initial => hend name initial
  · exact (agrees_pure none).bind fun _ initial => hend name initial

theorem agrees_expressionStmt (hn : k < n) (hn' : k < n') :
    Agrees T k 1 (expressionStmt n) (expressionStmt n') :=
  (agrees_terminated hn hn' _).bind fun _ _ => agrees_pure _

theorem agrees_function {inner : Parse.Parser (Option Stmt)} {inner' : Descent (Option Stmt)}
    (hinner : ∀ x, AgreesBefore T k 1 x inner inner') (hn : k < n) (hn' : k < n') (noun : FunctionNoun) :
    Agrees T k 1 (function n inner noun) (function n' inner' noun) := by
  have hless {j : Nat} (hj : j ≤ k) (x : Token) : AgreesBefore T j 1 x inner inner' :=
    ⟨fun hat hk => (hinner x).mirrors hat (by omega)⟩
  have hbody (name : Token) (params : List Token) {j : Nat} (hj : j ≤ k) : Agrees T j 0
      (do let _ ← expect .rightParen .parametersClose
          let _ ← expect .leftBrace (.functionBody noun)
          let body ← block n inner
          return FunctionDecl.mk name params body)
      (do let _ ← expect .rightParen .parametersClose
          let _ ← expect .leftBrace (.functionBody noun)
          let body ← block n' inner'
          return FunctionDecl.mk name params body) := by
    refine (agrees_expect (by decide) _).bind fun _ _ => ?_
    refine (agrees_expect (by decide) _).bind fun _ _ => ?_
    exact (agrees_block (hless (by omega)) (by omega) (by omega)).bind fun _ _ => agrees_pure _
  have hparameter {j : Nat} : Agrees T j 1 (expect .identifier .parameterName)
      (expect .identifier .parameterName) := agrees_expect (by decide) _
  refine (agrees_expect (by decide) _).bind fun _ name => ?_
  refine (agrees_expect (by decide) _).bind fun _ _ => ?_
  refine (agrees_check _).bind fun _ found => .ite (fun _ => ?_) fun _ => ?_
  · exact (agrees_pure []).bind fun _ params => hbody name params (by omega)
  · refine (agrees_commaSeparated _ hparameter (by omega) (by omega) 0).bind fun _ params => ?_
    exact hbody name params (by omega)

theorem agrees_superclass : Agrees T k 0 superclass superclass :=
  agrees_accept (by decide)
    (fun _ _ _ => ((agrees_expect (by decide) _).map some).weaken (Nat.zero_le _)) (agrees_pure none)

theorem agrees_classDecl {inner : Parse.Parser (Option Stmt)} {inner' : Descent (Option Stmt)}
    (hinner : ∀ x, AgreesBefore T k 1 x inner inner') (hn : k < n) (hn' : k < n') :
    Agrees T k 1 (classDecl n inner) (classDecl n' inner') := by
  refine (agrees_expect (by decide) _).bind fun _ name => ?_
  refine agrees_superclass.bind fun _ superclass => ?_
  refine (agrees_expect (by decide) _).bind fun _ _ => ?_
  have hmethod (x : Token) : AgreesBefore T (k - 1 - 1) 1 x (function n inner .method)
      (function n' inner' .method) :=
    (agrees_function (fun y => ⟨fun hat hk => (hinner y).mirrors hat (by omega)⟩) (by omega)
      (by omega) .method).before x
  refine (agrees_untilBrace hmethod (by omega) (by omega)).bind fun _ methods => ?_
  exact (agrees_expect (by decide) _).bind fun _ _ => agrees_pure _

theorem agrees_forInitial (hn : k < n) (hn' : k < n') :
    Agrees T k 0 (forInitial n) (forInitial n') := by
  refine agrees_accept (by decide) (fun _ x _ => .ite (fun _ => agrees_pure none) fun _ => ?_) ?_
  · exact ((agrees_varDecl (by omega) (by omega)).map some).weaken (Nat.zero_le _)
  · exact ((agrees_expressionStmt hn hn').map some).weaken (Nat.zero_le _)

theorem agrees_forStmt {nested : Parse.Parser Stmt} {nested' : Descent Stmt}
    (hnested : Agrees T k 1 nested nested') (hn : k < n) (hn' : k < n') :
    Agrees T k 1 (forStmt n nested) (forStmt n' nested') := by
  refine (agrees_expect (by decide) _).bind fun _ _ => ?_
  refine (agrees_forInitial (by omega) (by omega)).bind fun _ initial => ?_
  refine (agrees_unlessNext (by omega) (by omega) _).bind fun _ condition => ?_
  refine (agrees_expect (by decide) _).bind fun _ _ => ?_
  refine (agrees_unlessNext (by omega) (by omega) _).bind fun _ increment => ?_
  refine (agrees_expect (by decide) _).bind fun _ _ => ?_
  exact (hnested.mono (by omega)).bind fun _ _ => agrees_pure _

theorem agrees_ifStmt {nested : Parse.Parser Stmt} {nested' : Descent Stmt}
    (hnested : Agrees T k 1 nested nested') (hn : k < n) (hn' : k < n') :
    Agrees T k 1 (ifStmt n nested) (ifStmt n' nested') := by
  have hless {j : Nat} (hj : j ≤ k) : Agrees T j 1 nested nested' := hnested.mono hj
  refine (agrees_expect (by decide) _).bind fun _ _ => ?_
  refine (agrees_expression (by omega) (by omega)).bind fun _ condition => ?_
  refine (agrees_expect (by decide) _).bind fun _ _ => ?_
  refine (hless (by omega)).bind fun _ yes => ?_
  refine agrees_accept (by decide) (fun _ _ _ => ?_) (agrees_pure _)
  exact (hless (by omega)).bind fun _ _ => agrees_pure _

theorem agrees_whileStmt {nested : Parse.Parser Stmt} {nested' : Descent Stmt}
    (hnested : Agrees T k 1 nested nested') (hn : k < n) (hn' : k < n') :
    Agrees T k 1 (whileStmt n nested) (whileStmt n' nested') := by
  refine (agrees_expect (by decide) _).bind fun _ _ => ?_
  refine (agrees_expression (by omega) (by omega)).bind fun _ condition => ?_
  refine (agrees_expect (by decide) _).bind fun _ _ => ?_
  exact (hnested.mono (by omega)).bind fun _ _ => agrees_pure _

theorem agrees_returnStmt (hn : k < n) (hn' : k < n') (keyword : Token) :
    Agrees T k 1 (returnStmt n keyword) (returnStmt n' keyword) := by
  refine (agrees_unlessNext hn hn' _).bind fun _ value => ?_
  exact (agrees_expect (by decide) _).bind fun _ _ => agrees_pure _

theorem agrees_statementWith {nested : Parse.Parser Stmt} {nested' : Descent Stmt}
    {inner : Parse.Parser (Option Stmt)} {inner' : Descent (Option Stmt)}
    (hnested : 1 ≤ k → Agrees T (k - 1) 1 nested nested')
    (hinner : 1 ≤ k → ∀ x, AgreesBefore T (k - 1) 1 x inner inner') (hn : k < n) (hn' : k < n') :
    Agrees T k 1 (statementWith n nested inner) (statementWith n' nested' inner') := by
  refine agrees_switch ?_ fun x => ?_
  · rw [T.eof_kind]
    exact agrees_expressionStmt hn hn'
  · cases hx : x.kind with
    | kwFor =>
      exact agrees_advance fun h =>
        (agrees_forStmt (hnested h) (by omega) (by omega)).weaken (by decide)
    | kwIf =>
      exact agrees_advance fun h =>
        (agrees_ifStmt (hnested h) (by omega) (by omega)).weaken (by decide)
    | kwPrint =>
      exact agrees_advance fun _ =>
        (agrees_terminated (by omega) (by omega) _).bind fun _ _ => agrees_pure _
    | kwReturn =>
      exact agrees_advance fun _ => (agrees_returnStmt (by omega) (by omega) x).weaken (by decide)
    | kwWhile =>
      exact agrees_advance fun h =>
        (agrees_whileStmt (hnested h) (by omega) (by omega)).weaken (by decide)
    | leftBrace =>
      exact agrees_advance fun h =>
        (agrees_block (hinner h) (by omega) (by omega)).bind fun _ _ => agrees_pure _
    | _ => exact (agrees_expressionStmt hn hn').before x

theorem agrees_declarationWith {nested : Parse.Parser Stmt} {nested' : Descent Stmt}
    {inner : Parse.Parser (Option Stmt)} {inner' : Descent (Option Stmt)}
    (hnested : Agrees T k 1 nested nested')
    (hinner : 1 ≤ k → ∀ x, AgreesBefore T (k - 1) 1 x inner inner') (hn : k < n) (hn' : k < n') :
    Agrees T k 1 (declarationWith n nested inner) (declarationWith n' nested' inner') := by
  refine agrees_switch ?_ fun x => ?_
  · rw [T.eof_kind]
    exact hnested
  · cases hx : x.kind with
    | kwClass =>
      exact agrees_advance fun h =>
        (agrees_classDecl (hinner h) (by omega) (by omega)).weaken (by decide)
    | kwFun =>
      exact agrees_advance fun h =>
        (agrees_function (hinner h) (by omega) (by omega) _).bind fun _ _ => agrees_pure _
    | kwVar => exact agrees_advance fun _ => (agrees_varDecl (by omega) (by omega)).weaken (by decide)
    | _ => exact hnested.before x

/-- Twice as many rounds as tokens left, and a few, are enough for statements and declarations. -/
theorem agrees_statement_declaration (n : Nat) :
    (∀ {k n'}, 2 * k + 2 ≤ n → 2 * k + 2 ≤ n' →
      Agrees T k 1 (statement n) (statement n')) ∧
    ∀ {k n'}, 2 * k + 3 ≤ n → 2 * k + 3 ≤ n' → ∀ x,
      AgreesBefore T k 1 x (declaration n) (declaration n') := by
  induction n with
  | zero => exact ⟨fun h => by omega, fun h => by omega⟩
  | succ n ih =>
    constructor
    · intro k n' hk hk'
      obtain ⟨n', rfl⟩ := Nat.exists_eq_add_one_of_ne_zero (by omega : n' ≠ 0)
      rw [statement, statement, later_eq, Parse.later_eq]
      exact agrees_statementWith (fun _ => ih.1 (by omega) (by omega))
        (fun _ => ih.2 (by omega) (by omega)) (by omega) (by omega)
    · intro k n' hk hk' x
      obtain ⟨n', rfl⟩ := Nat.exists_eq_add_one_of_ne_zero (by omega : n' ≠ 0)
      rw [declaration, declaration, later_eq, Parse.later_eq]
      refine agrees_recovering ?_ n (by omega)
      exact agrees_declarationWith (ih.1 (by omega) (by omega))
        (fun _ => ih.2 (by omega) (by omega)) (by omega) (by omega)

theorem declaration_isSome (hn : 0 < n) (eof : Token) (ts : List Token) :
    (declaration (m := Parser) n eof ts).result.isSome := by
  obtain ⟨n, rfl⟩ := Nat.exists_eq_add_one_of_ne_zero (Nat.ne_zero_of_lt hn)
  rw [declaration, Parse.later_eq, Parse.recovering_eq]
  split <;> rfl

end Statements

/-! ### Whole lists of tokens -/

/-- The tokens that a parser goes along are those before the first end token, that one, and others. -/
theorem exists_tape (tokens : List Token) :
    ∃ T : Tape, T.slice = slice tokens ∧ T.before = Parse.body tokens ∧ T.eof = Parse.ending tokens := by
  have hbefore : ∀ t ∈ Parse.body tokens, t.isEof = false := by
    intro t ht
    simpa using List.mem_takeWhile_imp ht
  have hbody : Parse.body tokens ++ tokens.dropWhile (fun t => !t.isEof) = tokens :=
    List.takeWhile_append_dropWhile
  cases hrest : tokens.dropWhile (fun t => !t.isEof) with
  | nil =>
    -- no token is an end token
    rw [hrest, List.append_nil] at hbody
    have hall : ∀ t ∈ tokens, t.isEof = false := by
      intro t ht
      rw [← hbody] at ht
      exact hbefore t ht
    have hending : Parse.ending tokens = Parse.impliedEnd tokens := by
      have hnone : tokens.find? (·.isEof) = none := by
        rw [List.find?_eq_none]
        simpa using hall
      rw [Parse.ending, hnone]
      rfl
    refine ⟨⟨tokens, Parse.impliedEnd tokens, [], hall, rfl⟩, ?_, hbody.symm, hending.symm⟩
    have hlast : (tokens.getLast?.map (·.isEof)).getD false = false := by
      cases hlast : tokens.getLast? with
      | none => rfl
      | some t => exact hall t (List.mem_of_getLast? hlast)
    rw [slice, hlast, if_neg Bool.false_ne_true]
    rfl
  | cons eof after =>
    have heof : eof.isEof = true := by
      have := List.head?_dropWhile_not (fun t : Token => !t.isEof) tokens
      rw [hrest] at this
      simpa using this
    have hending : Parse.ending tokens = eof := by
      have hfind : tokens.find? (·.isEof) = some eof := by
        rw [← hbody, hrest, List.find?_append, List.find?_eq_none.2 (by simpa using hbefore)]
        simp [heof]
      rw [Parse.ending, hfind]
      rfl
    rw [hrest] at hbody
    refine ⟨⟨Parse.body tokens, eof,
      if (tokens.getLast?.map (·.isEof)).getD false then after
        else after ++ [Parse.impliedEnd tokens], hbefore, heof⟩, ?_, rfl, hending.symm⟩
    rw [slice, Tape.slice]
    split
    · exact hbody
    · dsimp only
      rw [← List.cons_append, ← List.append_assoc, hbody]

/-- The parser over a cursor, with so many rounds, comes to its end over a list of tokens in a state. -/
structure Finishes (tokens : List Token) (rounds : Nat) (t : State) : Prop where
  /-- no index was looked at where no token is, and the answer is that of the parser over the tokens left -/
  answer : Parse.program (m := Descent) (Parse.declaration rounds) rounds (slice tokens) .start =
    .done (parse tokens).statements t
  errors : t.errors = (parse tokens).errors
  cursor : t.cursor = firstEnd (slice tokens)
  /-- the cursor was not behind the first end token, a token before it was looked at only where there is
  one, and each call for a declaration that began before that end token moved it on -/
  inOrder : ∀ event ∈ t.events, event.InOrder (slice tokens)
  /-- every index that the cursor came to was recorded -/
  everywhere : ∀ i ≤ t.cursor, .stands i ∈ t.events
  /-- every token before the end was passed over by a call for a declaration that was recorded -/
  covered : Covered .start t

end Descent

/-- Parsing is total. Along any list of tokens there is a first end token, and the parser over a cursor comes
to it with as many rounds as it is allowed, however many more they may be. -/
theorem parse_total (tokens : List Token) (more : Nat) :
    Descent.firstEnd (Descent.slice tokens) < (Descent.slice tokens).length ∧
      ∃ t, Descent.Finishes tokens (Parse.allowance tokens + more) t := by
  obtain ⟨T, hslice, hbefore, heof⟩ := Descent.exists_tape tokens
  have hend := T.firstEnd_slice
  have hlt := T.firstEnd_lt
  rw [hslice] at hend hlt
  refine ⟨hlt, ?_⟩
  have hat : T.At .start (Parse.body tokens) := ⟨Nat.zero_le _, hbefore⟩
  have hlen : (Parse.body tokens).length ≤ tokens.length := Parse.body_length tokens
  have hallowed : 2 * (Parse.body tokens).length + 3 ≤ Parse.allowance tokens := by
    unfold Parse.allowance
    omega
  have hdeclaration := (Descent.agrees_statement_declaration (T := T) _).2 hallowed
    (Nat.le_add_right_of_le (k := more) hallowed)
  obtain ⟨stmts, errors, t, hreply, hanswer, hleads, hcovered⟩ :=
    Descent.program_eq (Descent.declaration_isSome (by omega)) Descent.declaration_records hdeclaration hat
      (Nat.le_refl _) (show _ < Parse.allowance tokens by omega)
      (show _ < Parse.allowance tokens + more by omega)
  rw [heof] at hreply
  rw [hslice] at hanswer
  refine ⟨t, ?_⟩
  constructor
  case answer =>
    rw [hanswer, parse, hreply]
    rfl
  case errors =>
    rw [hleads.errors, parse, hreply]
    rfl
  case cursor =>
    have := hleads.at_rest.length
    rw [hend]
    simpa using this
  case inOrder =>
    intro event he
    rw [← hslice]
    rcases hleads.events event he with hstart | horder
    · obtain rfl : event = .stands 0 := List.mem_singleton.1 hstart
      exact ⟨T.firstEnd_lt.trans_le' (Nat.zero_le _), Nat.zero_le _⟩
    · exact horder
  case everywhere =>
    intro i hi
    cases i with
    | zero => exact hleads.kept.subset List.mem_cons_self
    | succ i => exact hleads.stands _ (Nat.succ_pos i) hi
  case covered => exact hcovered

end LoxLang
