import LoxLang.Proofs.Run.Alike
import LoxLang.Proofs.Run.Course

/-!
# Running two sources as one

A session runs one source after another. It could as well run the second below the first: the two
compile together, a run of both is a run of the first and then, unless that has failed, of the
second, and all that tells the difference is that the second stands further down.

Main statement: `run_newline`.
-/

namespace LoxLang

open List (Forall₂)

/-- Tokens of the source on top stay in their lines; those of the source below it are further down. -/
def Token.Shift (k : Int) : Bool → Part → Token → Token → Prop
  | false => Token.Later 0
  | true => Token.Later k

variable {k : Int}

theorem Token.shift_refl (k : Int) (part : Part) (t : Token) : Token.Shift k false part t t := by
  simp [Shift, Later, later]

theorem Token.unseen_shift (k : Int) : Unseen (Token.Shift k) where
  kind {below _ _ _} h := by cases below <;> cases h <;> rfl
  lexeme {below _ _ _} h := by cases below <;> cases h <;> rfl
  receiver := ⟨false, .this, shift_refl k _ _⟩

namespace Session

/-- How a run that goes on after a first one compares with a run of its own: its output comes after what
the first one printed, its error has the same message and the same categories, and it leaves the
same values in the same places, but for the lines. -/
structure Resumes (k : Int) (first : Step) (r r' : Step × Session) : Prop where
  output : r'.1.output = first.output ++ r.1.output
  error : Option.Rel (fun d d' => d.Alike (Token.Shift k) d' ∧ d'.categories = d.categories)
    r.1.error r'.1.error
  options : r'.2.options = r.2.options
  store : r.2.state.store.Alike (Token.Shift k) r'.2.state.store
  frames : Forall₂ (Frame.Alike (Token.Shift k)) r.2.state.frames.toList r'.2.state.frames.toList

theorem program_append (o : Options) (n : Nat) (scope : ScopeId) (ss us : List Stmt) :
    Run.program o n scope (ss ++ us) =
      Run.program o n scope ss >>= fun _ => Run.program o n scope us := by
  induction ss with
  | nil => rfl
  | cons s ss ih =>
    simp only [List.cons_append, Run.program, bind_assoc]
    refine bind_congr fun c => ?_
    cases c with
    | normal => exact ih
    | returned keyword v => rfl

/-- What a session is like when it goes on in the same run instead of beginning another. -/
theorem ready_alike (k : Int) (t : Session) :
    t.ready.Alike (Token.Shift k) t.state.output t.state where
  store := .refl (Token.shift_refl k) _
  frames := List.forall₂_same.2 fun f _ => .refl (Token.shift_refl k) f
  output := by simp [ready]

variable {s t : Session} {fuel : Nat} {pa pb pb' : List Stmt} {first : Step}

theorem interpret_append_of_none (h : s.interpret fuel pa = none) :
    s.interpret fuel (pa ++ pb) = none := by
  rw [interpret] at h ⊢
  rw [program_append, Run.run_bind]
  cases hr : Run.program s.options fuel globals pa { s.state with output := "" } with
  | exhausted => rfl
  | _ => simp [hr] at h

theorem interpret_append_of_failed {d : Diagnostic} (h : s.interpret fuel pa = some (first, t))
    (hd : first.error = some d) : s.interpret fuel (pa ++ pb) = some (first, t) := by
  rw [interpret] at h ⊢
  rw [program_append, Run.run_bind]
  cases hr : Run.program s.options fuel globals pa { s.state with output := "" } with
  | done u state =>
    rw [hr] at h
    cases h
    cases hd
  | failed e state =>
    rw [hr] at h
    exact h
  | exhausted => simp [hr] at h

theorem interpret_append_of_done (h : s.interpret fuel pa = some (first, t)) (hd : first.error = none)
    (hpb : Forall₂ (Stmt.Alike (Token.Later k)) pb pb') :
    Option.Rel (Resumes k first) (t.interpret fuel pb) (s.interpret fuel (pa ++ pb')) := by
  unfold interpret at h ⊢
  rw [program_append, Run.run_bind]
  cases hr : Run.program s.options fuel globals pa { s.state with output := "" } with
  | done u state =>
    rw [hr] at h
    cases h
    have halike := Run.program_mirrors (i := true) (Token.unseen_shift k) s.options fuel globals hpb
      _ _ (ready_alike k { s with state })
    simp only [ready] at halike ⊢
    generalize Run.program s.options fuel globals pb { state with output := "" } = r,
      Run.program s.options fuel globals pb' state = r' at halike
    cases halike with
    | done _ hs => exact .some ⟨hs.output, .none, rfl, hs.store, hs.frames⟩
    | failed he hs =>
      have hd := he.diagnostic
      exact .some ⟨hs.output, .some ⟨hd, hd.categories⟩, rfl, hs.store, hs.frames⟩
    | exhausted => exact .none
  | failed e state =>
    rw [hr] at h
    cases h
    cases hd
  | exhausted => simp [hr] at h

end Session

/-- Two sources that compile, one below the other, compile to the one program and the other one, moved.
Whatever the session, running both at once is running the first and, if it succeeds, the second: a run
of the first that does not end or that fails is the run of both, and after one that succeeds the run
of both goes on as a run of the second does. -/
theorem run_newline {a b : List UInt8} {pa pb : List Stmt} (ha : compile (Text.decode a) = .ok pa)
    (hb : compile (Text.decode b) = .ok pb) :
    let k : Int := (Token.newlines (Text.decode a) + 1 : Nat)
    let both := Text.decode (a ++ Text.newline :: b)
    ∃ pb', compile both = .ok (pa ++ pb') ∧ Forall₂ (Stmt.Alike (Token.Later k)) pb pb' ∧
      ∀ (s : Session) (fuel : Nat),
        (s.run fuel (Text.decode a) = none → s.run fuel both = none) ∧
        ∀ first t, s.run fuel (Text.decode a) = some (first, t) →
          (first.error ≠ none → s.run fuel both = some (first, t)) ∧
          (first.error = none →
            Option.Rel (Session.Resumes k first) (t.run fuel (Text.decode b)) (s.run fuel both)) := by
  intro k both
  obtain ⟨pb', hboth, hpb⟩ := compile_newline ha hb
  rw [← Text.decode_newline] at hboth
  have hrun {source program} (h : compile source = .ok program) (s : Session) (fuel : Nat) :
      s.run fuel source = s.interpret fuel program := by
    rw [Session.run, h]
  refine ⟨pb', hboth, hpb, fun s fuel => ?_⟩
  rw [hrun ha, hrun hboth]
  refine ⟨Session.interpret_append_of_none, fun first t hfirst => ⟨fun hd => ?_, fun hd => ?_⟩⟩
  · obtain ⟨d, hd⟩ := Option.ne_none_iff_exists'.1 hd
    exact Session.interpret_append_of_failed hfirst hd
  · rw [hrun hb]
    exact Session.interpret_append_of_done hfirst hd hpb

/-- A declaration, and a comment that ends in the middle of a character. -/
def endsMidway : List UInt8 :=
  ("var a = \"b\"; print a; // ".toList.map fun c => c.val.toUInt8) ++ [0xc3]

/-- A use of that declaration, and of one that is missing. -/
def goesOn : List UInt8 := "print a; c;".toList.map fun c => c.val.toUInt8

/-- Neither the comment nor the character at its end reaches into the source below. -/
theorem endsMidway_goesOn :
    ∃ pa pb pb' first t, compile (Text.decode endsMidway) = .ok pa ∧
      compile (Text.decode goesOn) = .ok pb ∧
      compile (Text.decode (endsMidway ++ Text.newline :: goesOn)) = .ok (pa ++ pb') ∧
      Forall₂ (Stmt.Alike (Token.Later 1)) pb pb' ∧
      (Session.start none Session.freshStore).run 20 (Text.decode endsMidway) = some (first, t) ∧
      Option.Rel (Session.Resumes 1 first) (t.run 20 (Text.decode goesOn))
        ((Session.start none Session.freshStore).run 20
          (Text.decode (endsMidway ++ Text.newline :: goesOn))) := by
  have haok : (compile (Text.decode endsMidway)).isOk = true := by decide +kernel
  have hbok : (compile (Text.decode goesOn)).isOk = true := by decide +kernel
  obtain ⟨pa, hpa⟩ := exists_program haok
  obtain ⟨pb, hpb⟩ := exists_program hbok
  have hrun : ((Session.start none Session.freshStore).run 20 (Text.decode endsMidway)).any
      (·.1.error.isNone) = true := by
    decide +kernel
  obtain ⟨⟨first, t⟩, hfirst, hnone⟩ := Option.any_eq_true _ _ |>.1 hrun
  have hlines : ((Token.newlines (Text.decode endsMidway) + 1 : Nat) : Int) = 1 := by
    decide +kernel
  obtain ⟨pb', hboth, hlater, hruns⟩ := run_newline hpa hpb
  rw [hlines] at hlater hruns
  have hgoes := ((hruns (Session.start none Session.freshStore) 20).2 first t hfirst).2
    (Option.isNone_iff_eq_none.1 hnone)
  exact ⟨pa, pb, pb', first, t, hpa, hpb, hboth, hlater, hfirst, hgoes⟩

end LoxLang
