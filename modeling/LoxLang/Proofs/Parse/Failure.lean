import LoxLang.Proofs.Parse.Descent
import Mathlib.Data.List.Forall2
import Mathlib.Order.Bounds.Basic

/-!
# Failed declarations and their errors

A parser that fails has just reported an error at the token where the cursor is. All other errors that say
that something is missing are those of declarations that have failed on the way, one for each of them, in
the order in which they were recorded; and each of these has let reading go on at the first boundary
between statements.

Main statements: `synchronize_resyncs` and `faithful_statement_declaration`.
-/

namespace LoxLang

open Descent
open Parse

/-- Whether the declaration in which the error is found fails. -/
def SyntaxError.isStructural (e : SyntaxError) : Bool :=
  match e.problem with
  | .missing _ => true
  | .tooManyParameters => false
  | .tooManyArguments => false
  | .invalidTarget => false

/-- A declaration fails with this error, the cursor being at this index. -/
def SyntaxError.StuckAt (slice : List Token) (e : SyntaxError) (i : Nat) : Prop :=
  e.isStructural = true ∧ slice[i]? = some e.token

/-- The keywords that start a statement. -/
def statementKeywords : List Token.Kind :=
  [.kwClass, .kwFun, .kwVar, .kwFor, .kwIf, .kwWhile, .kwPrint, .kwReturn]

/-- At an end token, before a keyword that starts a statement, or after a semicolon. -/
def Boundary (slice : List Token) (i : Nat) : Prop :=
  (∃ t, slice[i]? = some t ∧ (t.kind = .eof ∨ t.kind ∈ statementKeywords)) ∨
    ∃ t, 1 ≤ i ∧ slice[i - 1]? = some t ∧ t.kind = .semicolon

/-- Before the end a declaration has failed, and reading goes on at the first boundary from where it got
stuck, though not where it began. -/
structure Failure.Recovers (slice : List Token) (f : Failure) : Prop where
  start_lt : f.start < firstEnd slice
  le : f.start ≤ f.stuck
  resumed : IsLeast {i | max f.stuck (f.start + 1) ≤ i ∧ Boundary slice i} f.resumed

/-- The errors that make declarations fail are those of these failures, in their order. -/
def Owned (slice : List Token) (es : List SyntaxError) (fs : List Failure) : Prop :=
  List.Forall₂ (fun e f => e.StuckAt slice f.stuck) (es.filter (·.isStructural)) fs

/-! ### Recovery -/

section Recovery

variable {slice : List Token} {s t u : State} {x last : Token} {i n start lower : Nat}

theorem failures_record (s : State) (event : Event) :
    (s.record event).failures = s.failures ++ event.failure?.toList := by
  rw [State.failures, State.failures, State.record, List.filterMap_append, List.filterMap_cons]
  cases event.failure? <;> rfl

/-- From one state to another neither an error is reported nor a declaration fails. -/
structure Quiet (s t : State) : Prop where
  errors : t.errors = s.errors
  failures : t.failures = s.failures

theorem Quiet.refl (s : State) : Quiet s s := ⟨rfl, rfl⟩

theorem Quiet.trans (h : Quiet s t) (h' : Quiet t u) : Quiet s u :=
  ⟨h'.errors.trans h.errors, h'.failures.trans h.failures⟩

theorem Quiet.record (h : Quiet s t) {event : Event} (he : event.failure? = none) :
    Quiet s (t.record event) := by
  refine ⟨h.errors, ?_⟩
  rw [failures_record, he, h.failures]
  exact List.append_nil _

/-- Recovery, if it comes to an end, has gone to the first boundary from an index on. -/
inductive Resyncs (slice : List Token) (lower : Nat) (s : State) : Answer Unit → Prop where
  | done {t : State} (hleast : IsLeast {i | lower ≤ i ∧ Boundary slice i} t.cursor)
      (hend : t.cursor ≤ firstEnd slice) (hquiet : Quiet s t) : Resyncs slice lower s (.done () t)
  | crashed : Resyncs slice lower s .crashed
  | exhausted : Resyncs slice lower s .exhausted

/-- A token that does not end the program is before the first that does. -/
theorem lt_firstEnd (hs : i ≤ firstEnd slice) (hx : slice[i]? = some x) (hend : x.isEof = false) :
    i < firstEnd slice := by
  rcases Nat.lt_or_eq_of_le hs with hlt | rfl
  · exact hlt
  · obtain ⟨hi, rfl⟩ := List.getElem?_eq_some_iff.1 hx
    have : slice[firstEnd slice].isEof = true := List.findIdx_getElem (w := hi)
    rw [hend] at this
    cases this

theorem startsStatement_iff (kind : Token.Kind) :
    Parse.startsStatement kind = true ↔ kind ∈ statementKeywords := by
  cases kind <;> simp [Parse.startsStatement, statementKeywords]

theorem peek_of_some (hx : slice[s.cursor]? = some x) : peek (m := Descent) slice s = .done x s := by
  show Descent.peek slice s = _
  rw [Descent.peek, hx]

theorem peek_of_none (hx : slice[s.cursor]? = none) : peek (m := Descent) slice s = .crashed := by
  show Descent.peek slice s = _
  rw [Descent.peek, hx]

theorem atEnd_of_some (hx : slice[s.cursor]? = some x) : atEnd (m := Descent) slice s = .done x.isEof s :=
  bind_of_done (m := Descent.peek) (peek_of_some hx) _

theorem atEnd_of_none (hx : slice[s.cursor]? = none) : atEnd (m := Descent) slice s = .crashed :=
  bind_of_crashed (m := Descent.peek) (peek_of_none hx) _

theorem previous_of_some (hs : s.cursor = i + 1) (hlast : slice[i]? = some last) :
    previous slice s = .done last (s.record (.looksBack (i + 1))) := by
  rw [previous, hs]
  dsimp only
  rw [hlast]

theorem advance_of_some (hx : slice[s.cursor]? = some x) (hend : x.isEof = false) :
    ∃ t, advance (m := Descent) slice s = .done x t ∧ t.cursor = s.cursor + 1 ∧ Quiet s t := by
  let moved := { s with cursor := s.cursor + 1 }.record (.stands (s.cursor + 1))
  have hstart : Quiet s { s with cursor := s.cursor + 1 } := ⟨rfl, rfl⟩
  have hmoved : Quiet s moved := hstart.record rfl
  refine ⟨moved.record (.looksBack (s.cursor + 1)), ?_, rfl, hmoved.record rfl⟩
  have hmove : move slice s = .done () moved := rfl
  show Descent.advance slice s = _
  rw [Descent.advance, bind_of_done (m := Descent.atEnd) (atEnd_of_some hx), hend,
    if_neg Bool.false_ne_true, bind_of_done hmove]
  exact previous_of_some rfl hx

theorem not_boundary (hlast : slice[i]? = some last) (hx : slice[i + 1]? = some x)
    (hsemicolon : last.kind ≠ .semicolon) (hend : x.isEof = false)
    (hstarts : ¬ Parse.startsStatement x.kind = true) : ¬ Boundary slice (i + 1) := by
  rintro (⟨t, ht, hkind⟩ | ⟨t, -, ht, hkind⟩)
  · rw [hx] at ht
    cases ht
    rcases hkind with hkind | hkind
    · rw [Token.isEof, hkind] at hend
      cases hend
    · exact hstarts ((startsStatement_iff _).2 hkind)
  · rw [Nat.add_sub_cancel, hlast] at ht
    cases ht
    exact hsemicolon hkind

/-- To stop at once is to stop at the first boundary. -/
theorem Resyncs.here (hs : Boundary slice s.cursor) (hend : s.cursor ≤ firstEnd slice)
    (hcursor : t.cursor = s.cursor) (hquiet : Quiet s t) : Resyncs slice s.cursor s (.done () t) := by
  rw [← hcursor] at hs hend ⊢
  exact .done ⟨⟨Nat.le_refl _, hs⟩, fun i hi => hi.1⟩ hend hquiet

theorem Resyncs.before {answer : Answer Unit} (hquiet : Quiet s t) (h : Resyncs slice lower t answer) :
    Resyncs slice lower s answer := by
  cases h with
  | crashed => exact .crashed
  | exhausted => exact .exhausted
  | done hleast hend hmore => exact .done hleast hend (hquiet.trans hmore)

/-- Where there is no boundary, the first one is the first from the next index on. -/
theorem Resyncs.next {answer : Answer Unit} (hs : ¬ Boundary slice lower)
    (h : Resyncs slice (lower + 1) s answer) : Resyncs slice lower s answer := by
  cases h with
  | crashed => exact .crashed
  | exhausted => exact .exhausted
  | done hleast hend hquiet =>
    refine .done ⟨⟨Nat.le_of_succ_le hleast.1.1, hleast.1.2⟩, fun i hi => ?_⟩ hend hquiet
    refine hleast.2 ⟨Nat.lt_of_le_of_ne hi.1 fun heq => hs ?_, hi.2⟩
    rw [heq]
    exact hi.2

theorem boundary_resyncs (n : Nat) (hs : s.cursor = i + 1) (hend : s.cursor ≤ firstEnd slice) :
    Resyncs slice s.cursor s (boundary n slice s) := by
  induction n generalizing s i with
  | zero => exact .exhausted
  | succ n ih =>
    have hlength : firstEnd slice ≤ slice.length := List.findIdx_le_length
    have hlast : slice[i]? = some slice[i] := List.getElem?_eq_getElem (by omega)
    have hprevious := previous_of_some hs hlast
    have hback : Quiet s (s.record (.looksBack (i + 1))) := (Quiet.refl s).record rfl
    cases hx : slice[s.cursor]? with
    | none =>
      rw [boundary, bind_of_crashed (m := Descent.atEnd) (atEnd_of_none hx)]
      exact .crashed
    | some x =>
      rw [boundary, bind_of_done (m := Descent.atEnd) (atEnd_of_some hx)]
      cases hx' : x.isEof with
      | true => exact .here (.inl ⟨x, hx, .inl (eq_of_beq hx')⟩) hend rfl (.refl s)
      | false =>
        rw [if_neg Bool.false_ne_true, bind_of_done hprevious]
        by_cases hsemicolon : slice[i].kind = .semicolon
        · rw [if_pos (beq_iff_eq.2 hsemicolon)]
          exact .here (.inr ⟨_, by omega, by rw [hs]; exact hlast, hsemicolon⟩) hend rfl hback
        · have hpeek : Descent.peek slice (s.record (.looksBack (i + 1))) = _ := peek_of_some hx
          rw [if_neg (by simpa using hsemicolon), bind_of_done hpeek]
          by_cases hstarts : Parse.startsStatement x.kind = true
          · rw [if_pos hstarts]
            exact .here (.inl ⟨x, hx, .inr ((startsStatement_iff _).1 hstarts)⟩) hend rfl hback
          · obtain ⟨t, hadvance, hcursor, hquiet⟩ :=
              advance_of_some (s := s.record (.looksBack (i + 1))) hx hx'
            have hmore := ih hcursor (hcursor ▸ lt_firstEnd hend hx hx')
            have hhere := not_boundary hlast (hs ▸ hx) hsemicolon hx' hstarts
            rw [if_neg hstarts, bind_of_done (m := Descent.advance) hadvance]
            rw [hcursor] at hmore
            exact Resyncs.next (hs ▸ hhere) (hmore.before (hback.trans hquiet))

/-- Recovery from a failure goes to the first boundary after where the declaration began, and not before
where it got stuck. -/
theorem synchronize_resyncs (n : Nat) (hstart : start < firstEnd slice) (hle : start ≤ s.cursor)
    (hend : s.cursor ≤ firstEnd slice) :
    Resyncs slice (max s.cursor (start + 1)) s (synchronize n start slice s) := by
  have hposition : position slice s = .done s.cursor s := rfl
  rw [synchronize, bind_of_done hposition]
  by_cases hstay : s.cursor = start
  · rw [if_pos hstay]
    have hlength : firstEnd slice ≤ slice.length := List.findIdx_le_length
    have hx : slice[s.cursor]? = some slice[s.cursor] := List.getElem?_eq_getElem (by omega)
    have hx' : slice[s.cursor].isEof = false := List.not_of_lt_findIdx (by rw [hstay]; exact hstart)
    obtain ⟨t, hadvance, hcursor, hquiet⟩ := advance_of_some hx hx'
    have hend' : t.cursor ≤ firstEnd slice := by omega
    have hmore := boundary_resyncs n hcursor hend'
    rw [hcursor, hstay] at hmore
    rw [bind_of_done (m := Descent.advance) hadvance, hstay, Nat.max_eq_right (Nat.le_succ _)]
    exact hmore.before hquiet
  · rw [if_neg hstay]
    obtain ⟨i, hi⟩ : ∃ i, s.cursor = i + 1 := Nat.exists_eq_add_one_of_ne_zero (by omega)
    rw [Nat.max_eq_left (by omega)]
    exact boundary_resyncs n hi hend

end Recovery

/-! ### Accounts of errors -/

/-- A way from a state to another, with the errors reported on it and the declarations that have failed
on it. -/
structure Passes (slice : List Token) (s t : State) (es : List SyntaxError) (fs : List Failure) : Prop where
  le : s.cursor ≤ t.cursor
  le_end : t.cursor ≤ firstEnd slice
  errors : t.errors = s.errors ++ es
  failures : t.failures = s.failures ++ fs
  own : Owned slice es fs
  recovers : ∀ f ∈ fs, f.Recovers slice ∧ s.cursor ≤ f.start ∧ f.resumed ≤ t.cursor

/-- A parser has passed to where it is done, or to where it fails with one error more. -/
inductive Accounts (slice : List Token) (s : State) : Answer α → Prop where
  | done {a : α} {t : State} {es : List SyntaxError} {fs : List Failure} (h : Passes slice s t es fs) :
      Accounts slice s (.done a t)
  | failed {t : State} {es : List SyntaxError} {own : SyntaxError} {fs : List Failure}
      (h : Passes slice s t es fs) (hown : own.StuckAt slice t.cursor) :
      Accounts slice s (.failed { t with errors := t.errors ++ [own] })
  | crashed : Accounts slice s .crashed
  | exhausted : Accounts slice s .exhausted

/-- Wherever up to the end it begins, a parser accounts for its errors. -/
structure Faithful (slice : List Token) (m : Descent α) : Prop where
  accounts : ∀ {s : State}, s.cursor ≤ firstEnd slice → Accounts slice s (m slice s)

/-- Wherever before the end it begins, a parser accounts for its errors. -/
structure FaithfulBefore (slice : List Token) (m : Descent α) : Prop where
  accounts : ∀ {s : State}, s.cursor < firstEnd slice → Accounts slice s (m slice s)

section Laws

variable {slice : List Token} {s t u : State} {es es' : List SyntaxError} {fs fs' : List Failure}

/-- Neither an error nor a failure leaves nothing to account for. -/
theorem Quiet.passes (h : Quiet s t) (hle : s.cursor ≤ t.cursor) (hend : t.cursor ≤ firstEnd slice) :
    Passes slice s t [] [] :=
  ⟨hle, hend, by rw [h.errors, List.append_nil], by rw [h.failures, List.append_nil], .nil, by simp⟩

theorem Passes.refl (hs : s.cursor ≤ firstEnd slice) : Passes slice s s [] [] :=
  (Quiet.refl s).passes (Nat.le_refl _) hs

theorem Passes.trans (h : Passes slice s t es fs) (h' : Passes slice t u es' fs') :
    Passes slice s u (es ++ es') (fs ++ fs') := by
  refine ⟨Nat.le_trans h.le h'.le, h'.le_end, ?_, ?_, ?_, fun f hf => ?_⟩
  · rw [h'.errors, h.errors, List.append_assoc]
  · rw [h'.failures, h.failures, List.append_assoc]
  · rw [Owned, List.filter_append]
    exact List.rel_append h.own h'.own
  · rcases List.mem_append.1 hf with hf | hf
    · obtain ⟨hrecovers, hstart, hresumed⟩ := h.recovers f hf
      exact ⟨hrecovers, hstart, Nat.le_trans hresumed h'.le⟩
    · obtain ⟨hrecovers, hstart, hresumed⟩ := h'.recovers f hf
      exact ⟨hrecovers, Nat.le_trans h.le hstart, hresumed⟩

theorem Passes.record (h : Passes slice s t es fs) {event : Event} (he : event.failure? = none) :
    Passes slice s (t.record event) es fs :=
  ⟨h.le, h.le_end, h.errors, ((Quiet.refl t).record he).failures.trans h.failures, h.own, h.recovers⟩

/-- To report an error that makes no declaration fail. -/
theorem Passes.report {e : SyntaxError} (hs : s.cursor ≤ firstEnd slice) (he : e.isStructural = false) :
    Passes slice s { s with errors := s.errors ++ [e] } [e] [] := by
  refine ⟨Nat.le_refl _, hs, rfl, (List.append_nil _).symm, ?_, by simp⟩
  rw [Owned, List.filter_cons_of_neg (by simp [he])]
  exact .nil

theorem Passes.append {answer : Answer α} (h : Passes slice s t es fs) (ha : Accounts slice t answer) :
    Accounts slice s answer := by
  cases ha with
  | done h' => exact .done (h.trans h')
  | failed h' hown => exact .failed (h.trans h') hown
  | crashed => exact .crashed
  | exhausted => exact .exhausted

theorem Accounts.bind {m : Descent α} {f : α → Descent β} (h : Accounts slice s (m slice s))
    (hf : ∀ a, Faithful slice (f a)) : Accounts slice s ((m >>= f) slice s) := by
  rw [Descent.run_bind]
  generalize m slice s = answer at h
  cases h with
  | done h => exact h.append ((hf _).accounts h.le_end)
  | failed h hown => exact .failed h hown
  | crashed => exact .crashed
  | exhausted => exact .exhausted

theorem Faithful.bind {m : Descent α} {f : α → Descent β} (hm : Faithful slice m)
    (hf : ∀ a, Faithful slice (f a)) : Faithful slice (m >>= f) :=
  ⟨fun hs => (hm.accounts hs).bind hf⟩

theorem faithful_pure (a : α) : Faithful slice (pure a) := ⟨fun hs => .done (.refl hs)⟩

theorem Faithful.map {m : Descent α} (hm : Faithful slice m) (f : α → β) : Faithful slice (f <$> m) :=
  hm.bind fun a => faithful_pure (f a)

theorem Faithful.ite {m m' : Descent α} {P : Prop} [Decidable P] (hm : Faithful slice m)
    (hm' : Faithful slice m') : Faithful slice (if P then m else m') := by
  split
  · exact hm
  · exact hm'

theorem FaithfulBefore.bind {m : Descent α} {f : α → Descent β} (hm : FaithfulBefore slice m)
    (hf : ∀ a, Faithful slice (f a)) : FaithfulBefore slice (m >>= f) :=
  ⟨fun hs => (hm.accounts hs).bind hf⟩

theorem Faithful.before {m : Descent α} (h : Faithful slice m) : FaithfulBefore slice m :=
  ⟨fun hs => h.accounts (Nat.le_of_lt hs)⟩

end Laws

/-! ### Looking and moving -/

section Primitives

variable {slice : List Token}

theorem faithful_exhausted : Faithful slice (exhausted : Descent α) := ⟨fun _ => .exhausted⟩

theorem faithful_peek : Faithful slice (peek : Descent Token) := by
  refine ⟨fun {s} hs => ?_⟩
  cases hx : slice[s.cursor]? with
  | none =>
    rw [peek_of_none hx]
    exact .crashed
  | some x =>
    rw [peek_of_some hx]
    exact .done (.refl hs)

theorem faithful_check (kind : Token.Kind) : Faithful slice (check kind : Descent Bool) :=
  faithful_peek.bind fun _ => faithful_pure _

theorem faithful_previous : Faithful slice previous := by
  refine ⟨fun {s} hs => ?_⟩
  rw [previous]
  split
  · exact .crashed
  · split
    · exact .done ((Passes.refl hs).record rfl)
    · exact .crashed

/-- The cursor is moved on only from a token before the end. -/
theorem faithful_advance : Faithful slice (advance : Descent Token) := by
  refine ⟨fun {s} hs => ?_⟩
  cases hx : slice[s.cursor]? with
  | none =>
    have hcrashed : advance (m := Descent) slice s = .crashed :=
      bind_of_crashed (m := Descent.atEnd) (atEnd_of_none hx) _
    rw [hcrashed]
    exact .crashed
  | some x =>
    cases hx' : x.isEof with
    | true =>
      show Accounts slice s (Descent.advance slice s)
      rw [Descent.advance, bind_of_done (m := Descent.atEnd) (atEnd_of_some hx), hx', if_pos rfl]
      exact faithful_previous.accounts hs
    | false =>
      obtain ⟨t, hadvance, hcursor, hquiet⟩ := advance_of_some hx hx'
      have hlt := lt_firstEnd hs hx hx'
      rw [hadvance]
      exact .done (hquiet.passes (by omega) (by omega))

theorem faithful_accept? (kinds : List Token.Kind) :
    Faithful slice (accept? kinds : Descent (Option Token)) := by
  induction kinds with
  | nil => exact faithful_pure none
  | cons kind kinds ih =>
    rw [accept?]
    exact (faithful_check kind).bind fun _ => .ite (faithful_advance.map some) ih

/-- What follows on whether the next token is of one of these kinds. -/
theorem faithful_accept?_bind {kinds : List Token.Kind} {f : Option Token → Descent α}
    (hsome : ∀ t, Faithful slice (f (some t))) (hnone : Faithful slice (f none)) :
    Faithful slice (accept? kinds >>= f) := by
  refine (faithful_accept? kinds).bind fun found => ?_
  cases found with
  | some t => exact hsome t
  | none => exact hnone

/-- An error that makes no declaration fail. -/
theorem faithful_report {e : SyntaxError} (he : e.isStructural = false) :
    Faithful slice (report e : Descent Unit) := ⟨fun hs => .done (.report hs he)⟩

theorem faithful_reportHere {problem : SyntaxProblem} (h : ∀ expected, problem ≠ .missing expected) :
    Faithful slice (reportHere problem : Descent Unit) := by
  refine faithful_peek.bind fun t => faithful_report ?_
  cases problem with
  | missing expected => exact absurd rfl (h expected)
  | _ => rfl

/-- Where something is missing, that is the error that makes the declaration fail. -/
theorem faithful_missing (expected : Expectation) : Faithful slice (missing expected : Descent α) := by
  refine ⟨fun {s} hs => ?_⟩
  cases hx : slice[s.cursor]? with
  | none =>
    rw [missing, Descent.run_bind, reportHere, bind_of_crashed (peek_of_none hx)]
    exact .crashed
  | some x =>
    rw [missing, Descent.run_bind, reportHere, bind_of_done (peek_of_some hx)]
    exact .failed (.refl hs) ⟨rfl, hx⟩

theorem faithful_expect (kind : Token.Kind) (expected : Expectation) :
    Faithful slice (expect kind expected : Descent Token) :=
  (faithful_check kind).bind fun _ => .ite faithful_advance (faithful_missing expected)

end Primitives

/-! ### Parsers in which no declaration is called for -/

section Expressions

variable {slice : List Token}

theorem faithful_commaSeparated {item : Descent α} (hitem : Faithful slice item) {limit : SyntaxProblem}
    (hlimit : ∀ expected, limit ≠ .missing expected) (n count : Nat) :
    Faithful slice (commaSeparated item limit n count) := by
  induction n generalizing count with
  | zero => exact faithful_exhausted
  | succ n ih =>
    rw [commaSeparated]
    refine .ite ((faithful_reportHere hlimit).bind fun _ => ?_) ?_
    all_goals
      refine hitem.bind fun first => faithful_accept?_bind (fun _ => ?_) (faithful_pure _)
      exact (ih _).bind fun _ => faithful_pure _

theorem faithful_joined {operand : Descent Expr} (hoperand : Faithful slice operand)
    (operators : List Token.Kind) (join : Expr → Token → Expr → Expr) (n : Nat) (left : Expr) :
    Faithful slice (joined operand operators join n left) := by
  induction n generalizing left with
  | zero => exact faithful_exhausted
  | succ n ih =>
    rw [joined]
    exact faithful_accept?_bind (fun op => hoperand.bind fun right => ih _) (faithful_pure left)

theorem faithful_level {operand : Descent Expr} (hoperand : Faithful slice operand) (n : Nat)
    (operators : List Token.Kind) (join : Expr → Token → Expr → Expr) :
    Faithful slice (level n operators join operand) :=
  hoperand.bind fun left => faithful_joined hoperand operators join n left

theorem faithful_primary {nested : Descent Expr} (hnested : Faithful slice nested) :
    Faithful slice (primary nested) := by
  refine faithful_peek.bind fun t => ?_
  cases t.kind with
  | kwFalse | kwTrue | kwNil | kwThis | identifier | number | string =>
    exact faithful_advance.bind fun _ => faithful_pure _
  | kwSuper =>
    refine faithful_advance.bind fun _ => ?_
    refine (faithful_expect _ _).bind fun _ => ?_
    exact (faithful_expect _ _).bind fun _ => faithful_pure _
  | leftParen =>
    refine faithful_advance.bind fun _ => hnested.bind fun _ => ?_
    exact (faithful_expect _ _).bind fun _ => faithful_pure _
  | _ => exact faithful_missing _

theorem faithful_arguments {nested : Descent Expr} (hnested : Faithful slice nested) (n : Nat) :
    Faithful slice (arguments n nested) := by
  have hclose (args : List Expr) : Faithful slice (do
      let paren ← expect .rightParen .argumentsClose
      return (paren, args)) := (faithful_expect _ _).bind fun _ => faithful_pure _
  refine (faithful_check _).bind fun _ => .ite ?_ ?_
  · exact (faithful_pure []).bind hclose
  · have hlimit (expected : Expectation) : SyntaxProblem.tooManyArguments ≠ .missing expected := by simp
    exact (faithful_commaSeparated hnested hlimit n 0).bind hclose

theorem faithful_suffixes {nested : Descent Expr} (hnested : Faithful slice nested) (n k : Nat)
    (e : Expr) : Faithful slice (suffixes n nested k e) := by
  induction k generalizing e with
  | zero => exact faithful_exhausted
  | succ k ih =>
    rw [suffixes]
    refine faithful_accept?_bind (fun t => .ite ?_ ?_) (faithful_pure e)
    · exact (faithful_arguments hnested n).bind fun _ => ih _
    · exact (faithful_expect _ _).bind fun _ => ih _

theorem faithful_unary {operand : Descent Expr} (hoperand : Faithful slice operand) (n : Nat) :
    Faithful slice (unary operand n) := by
  induction n with
  | zero => exact faithful_exhausted
  | succ n ih =>
    rw [unary]
    exact faithful_accept?_bind (fun op => ih.bind fun _ => faithful_pure _) hoperand

theorem faithful_operators {nested : Descent Expr} (hnested : Faithful slice nested) (n : Nat) :
    Faithful slice (operators n nested) := by
  have hcall : Faithful slice (call n nested) :=
    (faithful_primary hnested).bind fun e => faithful_suffixes hnested n n e
  refine faithful_level ?_ n _ _
  refine faithful_level ?_ n _ _
  refine faithful_level ?_ n _ _
  refine faithful_level ?_ n _ _
  refine faithful_level ?_ n _ _
  refine faithful_level ?_ n _ _
  exact faithful_unary hcall n

theorem faithful_assignTo (equals : Token) (value target : Expr) :
    Faithful slice (assignTo equals value target) := by
  cases target with
  | name | get => exact faithful_pure _
  | _ => exact (faithful_report rfl).bind fun _ => faithful_pure _

theorem faithful_expression (n : Nat) : Faithful slice (expression n) := by
  induction n with
  | zero => exact faithful_exhausted
  | succ n ih =>
    refine (faithful_operators ih _).bind fun target => ?_
    refine faithful_accept?_bind (fun equals => ?_) (faithful_pure target)
    exact ih.bind fun value => faithful_assignTo equals value target

theorem faithful_terminated (n : Nat) (finish : Expectation) : Faithful slice (terminated n finish) :=
  (faithful_expression n).bind fun _ => (faithful_expect _ _).bind fun _ => faithful_pure _

theorem faithful_unlessNext (n : Nat) (kind : Token.Kind) : Faithful slice (unlessNext n kind) :=
  (faithful_check kind).bind fun _ =>
    .ite (faithful_pure none) ((faithful_expression n).bind fun _ => faithful_pure _)

theorem faithful_varDecl (n : Nat) : Faithful slice (varDecl n) := by
  have hend (name : Token) (initial : Option Expr) : Faithful slice (do
      let _ ← expect .semicolon .variableEnd
      return Stmt.var name initial) := (faithful_expect _ _).bind fun _ => faithful_pure _
  refine (faithful_expect _ _).bind fun name => faithful_accept?_bind (fun _ => ?_) ?_
  · exact ((faithful_expression n).map some).bind (hend name)
  · exact (faithful_pure none).bind (hend name)

theorem faithful_expressionStmt (n : Nat) : Faithful slice (expressionStmt n) :=
  (faithful_terminated n _).bind fun _ => faithful_pure _

theorem faithful_superclass : Faithful slice superclass :=
  faithful_accept?_bind (fun _ => (faithful_expect _ _).map some) (faithful_pure none)

theorem faithful_forInitial (n : Nat) : Faithful slice (forInitial n) := by
  refine faithful_accept?_bind (fun t => ?_) ((faithful_expressionStmt n).map some)
  exact .ite (faithful_pure none) ((faithful_varDecl n).map some)

theorem faithful_returnStmt (n : Nat) (keyword : Token) : Faithful slice (returnStmt n keyword) :=
  (faithful_unlessNext n _).bind fun _ => (faithful_expect _ _).bind fun _ => faithful_pure _

end Expressions

/-! ### Statements and declarations -/

section Statements

variable {slice : List Token} {s t u : State} {fs : List Failure}

/-- A call that fails comes back with nothing, and the failure is recorded. -/
theorem recovering_of_failed {m : Descent α} {n : Nat} (h : m slice s = .failed t)
    (hu : synchronize n s.cursor slice t = .done () u) :
    recovering n m slice s = .done none
      ((u.record (.fails ⟨s.cursor, t.cursor, u.cursor⟩)).record (.declares s.cursor u.cursor)) := by
  rw [Descent.recovering_eq, Descent.recovering, h]
  dsimp only
  rw [hu]

/-- A declaration that has failed is accounted for by the error that it failed with. -/
theorem Passes.failure {es : List SyntaxError} {own : SyntaxError} (hs : s.cursor < firstEnd slice)
    (h : Passes slice s t es fs) (hown : own.StuckAt slice t.cursor) (hend : u.cursor ≤ firstEnd slice)
    (hu : IsLeast {i | max t.cursor (s.cursor + 1) ≤ i ∧ Boundary slice i} u.cursor)
    (hquiet : Quiet { t with errors := t.errors ++ [own] } u) :
    Passes slice s (u.record (.fails ⟨s.cursor, t.cursor, u.cursor⟩)) (es ++ [own])
      (fs ++ [⟨s.cursor, t.cursor, u.cursor⟩]) := by
  have hle : t.cursor ≤ u.cursor := Nat.le_trans (Nat.le_max_left _ _) hu.1.1
  refine ⟨Nat.le_trans h.le hle, hend, ?_, ?_, ?_, fun f hf => ?_⟩
  · show u.errors = _
    rw [hquiet.errors, h.errors, List.append_assoc]
  · have hfailures : u.failures = t.failures := hquiet.failures
    rw [failures_record, hfailures, h.failures, List.append_assoc]
    rfl
  · rw [Owned, List.filter_append, List.filter_cons_of_pos hown.1]
    exact List.rel_append h.own (.cons hown .nil)
  · rcases List.mem_append.1 hf with hf | hf
    · obtain ⟨hrecovers, hstart, hresumed⟩ := h.recovers f hf
      exact ⟨hrecovers, hstart, Nat.le_trans hresumed hle⟩
    · obtain rfl := List.mem_singleton.1 hf
      exact ⟨⟨hs, h.le, hu⟩, Nat.le_refl _, Nat.le_refl _⟩

theorem faithful_recovering {m : Descent α} (hm : Faithful slice m) (n : Nat) :
    FaithfulBefore slice (recovering n m) := by
  refine ⟨fun {s} hs => ?_⟩
  have h := hm.accounts (Nat.le_of_lt hs)
  cases hm' : m slice s with
  | crashed =>
    rw [Descent.recovering_eq, Descent.recovering, hm']
    exact .crashed
  | exhausted =>
    rw [Descent.recovering_eq, Descent.recovering, hm']
    exact .exhausted
  | done a t =>
    rw [hm'] at h
    cases h with
    | done h =>
      rw [Descent.recovering_eq, Descent.recovering, hm']
      exact .done (h.record rfl)
  | failed v =>
    rw [hm'] at h
    cases h with
    | @failed t es own _ h hown =>
      have hresyncs := synchronize_resyncs (s := { t with errors := t.errors ++ [own] }) n hs h.le h.le_end
      generalize hu : synchronize n s.cursor slice { t with errors := t.errors ++ [own] } = recovered
        at hresyncs
      cases hresyncs with
      | crashed =>
        rw [Descent.recovering_eq, Descent.recovering, hm']
        dsimp only
        rw [hu]
        exact .crashed
      | exhausted =>
        rw [Descent.recovering_eq, Descent.recovering, hm']
        dsimp only
        rw [hu]
        exact .exhausted
      | done hleast hend hquiet =>
        rw [recovering_of_failed hm' hu]
        exact .done ((h.failure hs hown hend hleast hquiet).record rfl)

/-- What follows on whether the end has come: if not, it begins before the end. -/
theorem faithful_atEnd_bind {f : Bool → Descent α} (htrue : Faithful slice (f true))
    (hfalse : FaithfulBefore slice (f false)) : Faithful slice (atEnd >>= f) := by
  refine ⟨fun {s} hs => ?_⟩
  cases hx : slice[s.cursor]? with
  | none =>
    rw [bind_of_crashed (atEnd_of_none hx)]
    exact .crashed
  | some x =>
    rw [bind_of_done (atEnd_of_some hx)]
    cases hx' : x.isEof with
    | true => exact htrue.accounts hs
    | false => exact hfalse.accounts (lt_firstEnd hs hx hx')

theorem faithful_untilBrace {item : Descent α} (hitem : FaithfulBefore slice item) (n : Nat) :
    Faithful slice (untilBrace item n) := by
  induction n with
  | zero => exact faithful_exhausted
  | succ n ih =>
    have hstop : Faithful slice (pure [] : Descent (List α)) := faithful_pure []
    have hmore : FaithfulBefore slice (do
        let first ← item
        return first :: (← untilBrace item n)) :=
      hitem.bind fun _ => ih.bind fun _ => faithful_pure _
    refine (faithful_check _).bind fun found => faithful_atEnd_bind ?_ ?_
    · rw [Bool.or_true]
      exact hstop
    · rw [Bool.or_false]
      cases found with
      | true => exact hstop.before
      | false => exact hmore

theorem faithful_block {inner : Descent (Option Stmt)} (hinner : FaithfulBefore slice inner) (n : Nat) :
    Faithful slice (block n inner) :=
  (faithful_untilBrace hinner n).bind fun _ => (faithful_expect _ _).bind fun _ => faithful_pure _

theorem faithful_function {inner : Descent (Option Stmt)} (hinner : FaithfulBefore slice inner) (n : Nat)
    (noun : FunctionNoun) : Faithful slice (function n inner noun) := by
  have hbody (name : Token) (params : List Token) : Faithful slice (do
      let _ ← expect .rightParen .parametersClose
      let _ ← expect .leftBrace (.functionBody noun)
      let body ← block n inner
      return FunctionDecl.mk name params body) :=
    (faithful_expect _ _).bind fun _ => (faithful_expect _ _).bind fun _ =>
      (faithful_block hinner n).bind fun _ => faithful_pure _
  refine (faithful_expect _ _).bind fun name => (faithful_expect _ _).bind fun _ => ?_
  refine (faithful_check _).bind fun _ => .ite ?_ ?_
  · exact (faithful_pure []).bind (hbody name)
  · have hlimit (expected : Expectation) : SyntaxProblem.tooManyParameters ≠ .missing expected := by simp
    exact (faithful_commaSeparated (faithful_expect _ _) hlimit n 0).bind (hbody name)

theorem faithful_classDecl {inner : Descent (Option Stmt)} (hinner : FaithfulBefore slice inner) (n : Nat) :
    Faithful slice (classDecl n inner) := by
  refine (faithful_expect _ _).bind fun name => faithful_superclass.bind fun superclass => ?_
  refine (faithful_expect _ _).bind fun _ => ?_
  refine (faithful_untilBrace (faithful_function hinner n .method).before n).bind fun methods => ?_
  exact (faithful_expect _ _).bind fun _ => faithful_pure _

theorem faithful_forStmt {nested : Descent Stmt} (hnested : Faithful slice nested) (n : Nat) :
    Faithful slice (forStmt n nested) := by
  refine (faithful_expect _ _).bind fun _ => (faithful_forInitial n).bind fun initial => ?_
  refine (faithful_unlessNext n _).bind fun condition => (faithful_expect _ _).bind fun _ => ?_
  refine (faithful_unlessNext n _).bind fun increment => (faithful_expect _ _).bind fun _ => ?_
  exact hnested.bind fun body => faithful_pure _

theorem faithful_ifStmt {nested : Descent Stmt} (hnested : Faithful slice nested) (n : Nat) :
    Faithful slice (ifStmt n nested) := by
  refine (faithful_expect _ _).bind fun _ => (faithful_expression n).bind fun condition => ?_
  refine (faithful_expect _ _).bind fun _ => hnested.bind fun yes => ?_
  refine (faithful_accept? _).bind fun found => ?_
  cases found with
  | some _ => exact hnested.bind fun no => faithful_pure _
  | none => exact faithful_pure _

theorem faithful_whileStmt {nested : Descent Stmt} (hnested : Faithful slice nested) (n : Nat) :
    Faithful slice (whileStmt n nested) := by
  refine (faithful_expect _ _).bind fun _ => (faithful_expression n).bind fun condition => ?_
  exact (faithful_expect _ _).bind fun _ => hnested.bind fun body => faithful_pure _

theorem faithful_statementWith {nested : Descent Stmt} {inner : Descent (Option Stmt)}
    (hnested : Faithful slice nested) (hinner : FaithfulBefore slice inner) (n : Nat) :
    Faithful slice (statementWith n nested inner) := by
  refine faithful_peek.bind fun t => ?_
  cases t.kind with
  | kwFor => exact faithful_advance.bind fun _ => faithful_forStmt hnested n
  | kwIf => exact faithful_advance.bind fun _ => faithful_ifStmt hnested n
  | kwPrint => exact faithful_advance.bind fun _ => (faithful_terminated n _).bind fun _ => faithful_pure _
  | kwReturn => exact faithful_advance.bind fun _ => faithful_returnStmt n t
  | kwWhile => exact faithful_advance.bind fun _ => faithful_whileStmt hnested n
  | leftBrace => exact faithful_advance.bind fun _ => (faithful_block hinner n).bind fun _ => faithful_pure _
  | _ => exact faithful_expressionStmt n

theorem faithful_declarationWith {nested : Descent Stmt} {inner : Descent (Option Stmt)}
    (hnested : Faithful slice nested) (hinner : FaithfulBefore slice inner) (n : Nat) :
    Faithful slice (declarationWith n nested inner) := by
  refine faithful_peek.bind fun t => ?_
  cases t.kind with
  | kwClass => exact faithful_advance.bind fun _ => faithful_classDecl hinner n
  | kwFun => exact faithful_advance.bind fun _ => (faithful_function hinner n _).bind fun _ => faithful_pure _
  | kwVar => exact faithful_advance.bind fun _ => faithful_varDecl n
  | _ => exact hnested

/-- Statements account for their errors, and so do declarations. -/
theorem faithful_statement_declaration (n : Nat) :
    Faithful slice (statement n) ∧ FaithfulBefore slice (declaration n) := by
  induction n with
  | zero => exact ⟨faithful_exhausted, faithful_exhausted.before⟩
  | succ n ih =>
    obtain ⟨hstatement, hdeclaration⟩ := ih
    rw [statement, declaration, Descent.later_eq, Descent.later_eq]
    constructor
    · exact faithful_statementWith hstatement hdeclaration n
    · exact faithful_recovering (faithful_declarationWith hstatement hdeclaration n) n

theorem faithful_program {item : Descent (Option Stmt)} (hitem : FaithfulBefore slice item) (n : Nat) :
    Faithful slice (program item n) := by
  induction n with
  | zero => exact faithful_exhausted
  | succ n ih =>
    exact faithful_atEnd_bind (faithful_pure []) (hitem.bind fun _ => ih.bind fun _ => faithful_pure _)

end Statements

end LoxLang
