import LoxLang.Proofs.Refusal
import LoxLang.Proofs.Run.Alike

/-!
# Layout

The line that a token stands on has no influence on anything but lines. Sources in good order whose tokens
differ in nothing else compile to the same tree, up to lines, or are refused for the same reasons, and
sessions that differ in nothing else run them alike.

Main statement: `layout_unobservable`.
-/

namespace LoxLang

open Grammar
open List (Forall₂)

/-! ### The same but for lines -/

/-- Tokens that differ at most in their lines. -/
structure Token.SameButLine (t t' : Token) : Prop where
  kind : t'.kind = t.kind
  lexeme : t'.lexeme = t.lexeme
  literal : t'.literal = t.literal

/-- In every part, tokens that differ at most in their lines. -/
def Token.Elsewhere (_ : Unit) (_ : Part) : Token → Token → Prop := Token.SameButLine

/-- Diagnostics that differ at most in lines. -/
inductive Diagnostic.SameButLines : Diagnostic → Diagnostic → Prop where
  | syntactic : SameButLines (.syntactic line place message) (.syntactic line' place message)
  | semantic (token : t.SameButLine t') : SameButLines (.semantic t message) (.semantic t' message)
  | runtime (token : t.SameButLine t') (trace : Forall₂ (fun f f' => f'.name = f.name) fs fs') :
      SameButLines (.runtime t message overflow fs) (.runtime t' message overflow fs')
  | several (members : Forall₂ SameButLines ds ds') : SameButLines (.several ds) (.several ds')

/-- Sources in good order whose tokens differ at most in their lines. -/
structure SameButLayout (a b : List Char) : Prop where
  errors : (scan a).errors = []
  errors' : (scan b).errors = []
  tokens : Forall₂ Token.SameButLine (scan a).tokens (scan b).tokens

/-- Sessions that differ at most in lines. -/
structure Session.SameButLines (s s' : Session) : Prop where
  options : s'.options = s.options
  store : s.state.store.Alike Token.Elsewhere s'.state.store
  frames : Forall₂ (Frame.Alike Token.Elsewhere) s.state.frames.toList s'.state.frames.toList

/-- Runs that show and leave behind the same, but for lines. -/
structure Session.ShowsSame (r r' : Step × Session) : Prop where
  output : r'.1.output = r.1.output
  error : Option.Rel (fun d d' => d.SameButLines d' ∧ d'.categories = d.categories) r.1.error r'.1.error
  session : r.2.SameButLines r'.2

theorem Token.indistinct_sameButLine : Indistinct Token.SameButLine where
  kind h := h.kind
  literal h := h.literal

theorem Token.unseen_elsewhere : Unseen Token.Elsewhere where
  kind h := h.kind
  lexeme h := h.lexeme
  receiver := ⟨(), .this, rfl, rfl, rfl⟩

theorem Token.Alike.sameButLine {t t' : Token} (h : t.Alike Token.Elsewhere t') : t.SameButLine t' := by
  obtain ⟨_, _, h⟩ := h
  exact h

/-! ### Diagnostics -/

namespace Diagnostic

mutual

theorem SameButLines.isA {c : Category} : {d d' : Diagnostic} → d.SameButLines d' → d'.isA c = d.isA c
  | _, _, .syntactic => rfl
  | _, _, .semantic _ => rfl
  | _, _, .runtime _ _ => rfl
  | _, _, .several members => SameButLines.anyIsA members

theorem SameButLines.anyIsA {c : Category} :
    {ds ds' : List Diagnostic} → Forall₂ SameButLines ds ds' → anyIsA c ds' = anyIsA c ds
  | _, _, .nil => rfl
  | _, _, .cons d ds => by
    rw [Diagnostic.anyIsA, Diagnostic.anyIsA, d.isA, SameButLines.anyIsA ds]

end

theorem SameButLines.categories {d d' : Diagnostic} (h : d.SameButLines d') :
    d'.categories = d.categories := by
  rw [Diagnostic.categories, Diagnostic.categories]
  exact List.filter_congr fun c _ => h.isA

theorem Alike.sameButLines {d d' : Diagnostic} (h : d.Alike Token.Elsewhere d') : d.SameButLines d' := by
  cases h with
  | runtime token trace => exact .runtime token.sameButLine (trace.imp fun _ _ h => h.name)

end Diagnostic

theorem syntactic_sameButLines {es es' : List SyntaxError}
    (h : Forall₂ (Complaint Token.SameButLine) es es') :
    Forall₂ Diagnostic.SameButLines (es.map (·.diagnostic)) (es'.map (·.diagnostic)) := by
  rw [List.forall₂_map_left_iff, List.forall₂_map_right_iff]
  refine h.imp fun e e' he => ?_
  have hplace : e'.place = e.place := by
    rw [SyntaxError.place, SyntaxError.place, Token.isEof, Token.isEof, he.1.kind, he.1.lexeme]
  rw [SyntaxError.diagnostic, SyntaxError.diagnostic, he.2, hplace]
  exact .syntactic

theorem semantic_sameButLines {es es' : List PlacementError}
    (h : Forall₂ (PlacementError.Alike (Token.Elsewhere ())) es es') :
    Forall₂ Diagnostic.SameButLines (es.map (·.diagnostic)) (es'.map (·.diagnostic)) := by
  rw [List.forall₂_map_left_iff, List.forall₂_map_right_iff]
  refine h.imp fun e e' he => ?_
  obtain ⟨⟨_, htoken⟩, hproblem⟩ := he
  rw [PlacementError.diagnostic, PlacementError.diagnostic, hproblem]
  exact .semantic htoken

/-! ### Compiling and running -/

section Sources

variable {a b : List Char}

/-- Sources that differ at most in layout compile alike or are refused alike. -/
theorem compile_sameButLayout (h : SameButLayout a b) :
    (∃ pa pb, compile a = .ok pa ∧ compile b = .ok pb ∧ Forall₂ (Stmt.Alike (Token.Elsewhere ())) pa pb) ∨
      ∃ es es', compile a = .error es ∧ compile b = .error es' ∧ Forall₂ Diagnostic.SameButLines es es' := by
  obtain ⟨hplaced, hcomplaints⟩ := parse_alike Token.indistinct_sameButLine h.tokens
    (Parse.ending_alike Token.indistinct_sameButLine h.tokens (exists_end a))
  have halike := Stmt.Alike.mono_list (S := Token.Elsewhere ()) (fun h => h.1) hplaced
  have hmisplaced : Forall₂ (PlacementError.Alike (Token.Elsewhere ()))
      (placementErrors (parse (scan a).tokens).statements)
      (placementErrors (parse (scan b).tokens).statements) :=
    Stmt.Alike.listErrors (fun h => h.lexeme) {} halike
  by_cases hparse : (parse (scan a).tokens).errors = []
  · have hparse' : (parse (scan b).tokens).errors = [] := by
      rw [hparse, List.forall₂_nil_left_iff] at hcomplaints
      exact hcomplaints
    by_cases hnone : placementErrors (parse (scan a).tokens).statements = []
    · have hnone' : placementErrors (parse (scan b).tokens).statements = [] := by
        rw [hnone, List.forall₂_nil_left_iff] at hmisplaced
        exact hmisplaced
      exact .inl ⟨_, _, compile_of_nil h.errors hparse hnone,
        compile_of_nil h.errors' hparse' hnone', halike⟩
    · have hnone' : placementErrors (parse (scan b).tokens).statements ≠ [] := fun hb => by
        rw [hb, List.forall₂_nil_right_iff] at hmisplaced
        exact hnone hmisplaced
      exact .inr ⟨_, _, compile_eq_error_iff.2 (.misplaced h.errors hparse hnone),
        compile_eq_error_iff.2 (.misplaced h.errors' hparse' hnone'), semantic_sameButLines hmisplaced⟩
  · have hparse' : (parse (scan b).tokens).errors ≠ [] := fun hb => by
      rw [hb, List.forall₂_nil_right_iff] at hcomplaints
      exact hparse hcomplaints
    refine .inr ⟨_, _, compile_eq_error_iff.2 (.unread (.inr hparse)),
      compile_eq_error_iff.2 (.unread (.inr hparse')), ?_⟩
    rw [h.errors, h.errors']
    exact syntactic_sameButLines hcomplaints

namespace Session

variable {s s' : Session}

/-- Programs alike are run alike. -/
theorem interpret_sameButLines (hs : s.SameButLines s') (fuel : Nat) {pa pb : List Stmt}
    (h : Forall₂ (Stmt.Alike (Token.Elsewhere ())) pa pb) :
    Option.Rel ShowsSame (s.interpret fuel pa) (s'.interpret fuel pb) := by
  have hready : s.ready.Alike Token.Elsewhere "" s'.ready := ⟨hs.store, hs.frames, rfl⟩
  have halike := Run.program_mirrors Token.unseen_elsewhere s.options fuel globals h _ _ hready
  unfold interpret
  simp only [ready, hs.options] at halike ⊢
  generalize Run.program s.options fuel globals pa { s.state with output := "" } = r,
    Run.program s.options fuel globals pb { s'.state with output := "" } = r' at halike
  cases halike with
  | done _ ht =>
    exact .some ⟨by simpa using ht.output, .none, rfl, ht.store, ht.frames⟩
  | failed he ht =>
    have hd := he.diagnostic.sameButLines
    exact .some ⟨by simpa using ht.output, .some ⟨hd, hd.categories⟩, rfl, ht.store, ht.frames⟩
  | exhausted => exact .none

/-- Sources that differ at most in layout are run alike. -/
theorem run_sameButLines (hs : s.SameButLines s') (fuel : Nat) (h : SameButLayout a b) :
    Option.Rel ShowsSame (s.run fuel a) (s'.run fuel b) := by
  rcases compile_sameButLayout h with ⟨pa, pb, ha, hb, halike⟩ | ⟨es, es', ha, hb, halike⟩
  · rw [run, run, ha, hb]
    exact interpret_sameButLines hs fuel halike
  · rw [run_of_compile_error ha, run_of_compile_error hb]
    have hd := Diagnostic.SameButLines.several halike
    exact .some ⟨rfl, .some ⟨hd, hd.categories⟩, hs⟩

end Session

/-- Two sources without lexical errors whose tokens differ at most in their lines both compile, to the same
tree but for lines, or both do not, for the same reasons at the same places but for lines. In sessions that
differ at most in lines either of their runs ends if the other one does, and then both have printed the
same, they succeed or fail with the same messages, categories and names of active calls, and leave the
same behind but for lines. -/
theorem layout_unobservable (h : SameButLayout a b) :
    ((∃ pa pb, compile a = .ok pa ∧ compile b = .ok pb ∧
        Forall₂ (Stmt.Alike (Token.Elsewhere ())) pa pb) ∨
      ∃ es es', compile a = .error es ∧ compile b = .error es' ∧
        Forall₂ Diagnostic.SameButLines es es') ∧
    ∀ (s s' : Session) (fuel : Nat), s.SameButLines s' →
      Option.Rel Session.ShowsSame (s.run fuel a) (s'.run fuel b) :=
  ⟨compile_sameButLayout h, fun _ _ fuel hs => Session.run_sameButLines hs fuel h⟩

end Sources

/-- Whether two texts have no lexical errors and, but for lines, the same tokens, none of which has a
literal. -/
def sameButLayout? (a b : List Char) : Bool :=
  (scan a).errors.isEmpty && (scan b).errors.isEmpty &&
    (scan a).tokens.length == (scan b).tokens.length &&
    ((scan a).tokens.zip (scan b).tokens).all fun (t, t') =>
      t'.kind == t.kind && t'.lexeme == t.lexeme && t.literal.isNil && t'.literal.isNil

theorem sameButLayout_of_check {a b : List Char} (h : sameButLayout? a b = true) : SameButLayout a b := by
  simp only [sameButLayout?, Bool.and_eq_true, List.isEmpty_iff, beq_iff_eq, List.all_eq_true] at h
  obtain ⟨⟨⟨ha, hb⟩, hlength⟩, hall⟩ := h
  refine ⟨ha, hb, List.forall₂_iff_zip.2 ⟨hlength, fun {t t'} ht => ?_⟩⟩
  obtain ⟨⟨⟨hkind, hlexeme⟩, hnil⟩, hnil'⟩ := hall (t, t') ht
  refine ⟨hkind, hlexeme, ?_⟩
  cases hl : t.literal <;> cases hl' : t'.literal <;> simp_all [Value.isNil]

/-- A function that prints something and then fails, on one line and on several. -/
def failsOnce : List Char := "fun f() \x7b print true; g; \x7d f();".toList

def failsBelow : List Char := "fun f() \x7b\n  print true;\n  g;\n\x7d\nf();".toList

/-- Both print a line and fail in the same way. Without the function's name both are refused. -/
theorem failsOnce_failsBelow :
    let s := Session.start (some { trace := true }) Session.freshStore
    (∃ r r', s.run 40 failsOnce = some r ∧ s.run 40 failsBelow = some r' ∧ Session.ShowsSame r r' ∧
      r.1.output = "true\n" ∧ r.1.error.isSome = true) ∧
    ∃ es es', compile "fun () print;".toList = .error es ∧ compile "fun\n()\nprint ;".toList = .error es' ∧
      Forall₂ Diagnostic.SameButLines es es' := by
  intro s
  constructor
  · have hs : s.SameButLines s :=
      ⟨rfl, .refl (i := ()) (fun _ _ => ⟨rfl, rfl, rfl⟩) _, .nil⟩
    have hrun : (s.run 40 failsOnce).any (fun r => r.1.output = "true\n" && r.1.error.isSome) = true := by
      decide +kernel
    obtain ⟨r, hr, hshown⟩ := Option.any_eq_true _ _ |>.1 hrun
    have halike := (layout_unobservable (a := failsOnce) (b := failsBelow)
      (sameButLayout_of_check (by decide +kernel))).2 s s 40 hs
    rw [hr] at halike
    generalize hr' : s.run 40 failsBelow = q' at halike
    cases halike with
    | some hsame => exact ⟨r, _, hr, rfl, hsame, by simpa using hshown⟩
  · have hbad : (compile "fun () print;".toList).isOk = false := by decide +kernel
    rcases (layout_unobservable (a := "fun () print;".toList) (b := "fun\n()\nprint ;".toList)
      (sameButLayout_of_check (by decide +kernel))).1 with ⟨pa, pb, ha, -⟩ | hrefused
    · rw [ha] at hbad
      cases hbad
    · exact hrefused

end LoxLang
