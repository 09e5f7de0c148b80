import LoxLang.Proofs.Run.Founded

/-!
# Searches end

Programs redefine and alias classes and variables as they like, and a class may bear the name of its own
superclass. Still no program ties scopes or classes into a circle: in whatever state a session gets,
and in whatever state it is on the way there, all links lead to what is older. So the searches for
variables and methods, which follow these links, come to an end.

Main statement: `links_lead_back`.
-/

namespace LoxLang

namespace Session

/-- The sessions that come from a fresh one by running what the parser makes of tokens, with or without
errors of its own. -/
inductive Interprets (options : Option Options) : Session → Prop where
  | start : Interprets options (start options freshStore)
  | run (earlier : Interprets options s) (hdata : ∀ t ∈ tokens, t.Data)
      (h : s.interpret fuel (parse tokens).statements = some (step, t)) : Interprets options t

/-- The states between runs, and those that the next run passes through. -/
inductive Arises (options : Option Options) : RunState → Prop where
  | between (hs : Interprets options s) : Arises options s.state
  | within (hs : Interprets options s) (hdata : ∀ t ∈ tokens, t.Data)
      (h : (Activity.program fuel globals (parse tokens).statements).Visits s.options s.ready u) :
      Arises options u

theorem founded_freshStore : freshStore.Founded where
  scopes {i sc} h := by
    have h : ((#[] : Array Scope).push { parent := none })[i]? = some sc := h
    rcases getElem?_push_cases h with h | ⟨-, rfl⟩
    · simp at h
    · exact ⟨by rintro _ ⟨⟩, fun hv => by simp [Bindings.get?] at hv⟩
  functions h := by simp [freshStore, Store.newScope] at h
  classes h := by simp [freshStore, Store.newScope] at h
  instances h := by simp [freshStore, Store.newScope] at h

/-- The program of tokens can begin wherever the outermost scope is. -/
theorem founding_fits_program {s : Session} {tokens : List Token}
    (hs : globals < s.state.store.scopes.size) (hdata : ∀ t ∈ tokens, t.Data) (fuel : Nat) :
    founding.fits s.ready (.program fuel globals (parse tokens).statements) :=
  ⟨hs, parse_data hdata⟩

variable {options : Option Options} {s : Session}

theorem Interprets.founded (h : Interprets options s) :
    globals < s.state.store.scopes.size ∧ s.state.store.Founded := by
  induction h with
  | start => exact ⟨Nat.one_pos, founded_freshStore⟩
  | @run s tokens fuel step t _ hdata hrun ih =>
    have hguards := Discipline.Legacy.run_leaves (founding_left s.options) _ s.ready ⟨.refl _, ih.2⟩
      (founding_fits_program ih.1 hdata fuel)
    have hkeeps : founding.keeps s.ready t.state := by
      rcases (interpret_eq_some hrun).2 with ⟨-, hdone⟩ | ⟨e, -, hfailed⟩
      · exact (hguards.done hdone).1
      · exact (hguards.failed hfailed).1
    exact ⟨Nat.lt_of_lt_of_le ih.1 hkeeps.1.scopes, hkeeps.2⟩

theorem Arises.founded {u : RunState} (h : Arises options u) : u.store.Founded := by
  cases h with
  | between hs => exact hs.founded.2
  | @within s _ fuel _ hs hdata hvisits =>
    obtain ⟨hglobals, hstore⟩ := hs.founded
    have hready : founding.keeps s.ready s.ready := ⟨.refl _, hstore⟩
    have hfits := founding_fits_program hglobals hdata fuel
    exact (Discipline.Legacy.visits_keeps (founding_left _) hready hfits hvisits).2

end Session

/-- Whatever sequence of programs runs, whether they end normally or with an error, and even while one
of them runs: every scope lies in an older one, every class inherits from an older one, and all
values, functions, fields and instances are of scopes and objects that exist. The three searches, for
the scope that binds a name, for what it stands for and for a method, therefore end wherever they
start, even as loops that follow any links they find, and find what the store says. -/
theorem links_lead_back {options : Option Options} {s : RunState} (h : Session.Arises options s) :
    s.store.Founded ∧ ∀ (start : Nat) (name : String) (rounds : Nat), start < rounds →
      Store.search (fun i => if s.store.binds i name then some i else none) s.store.enclosing? rounds
          (some start) = some (s.store.holder? start name) ∧
      Store.search (fun i => s.store.own? i name) s.store.enclosing? rounds (some start) =
        some (s.store.lookup? start name) ∧
      Store.search (fun c => s.store.ownMethod? c name) s.store.inherits? rounds (some start) =
        some (s.store.method? start name) := by
  have hs := h.founded
  refine ⟨hs, fun start name rounds hstart => ⟨?_, ?_, ?_⟩⟩
  · exact hs.search_holder name start hstart
  · exact hs.search_lookup name start hstart
  · exact hs.search_method name start hstart

/-- A class under whose name a second one is declared, which the first one then becomes the superclass of by
another name. -/
def renamedSuperclass : List Char :=
  "class A \x7b m() \x7b print 1; \x7d \x7d\nvar B = A;\nclass A < B \x7b \x7d\nA().m();".toList

/-- After `renamedSuperclass` there are two classes, the second of which inherits from the first one, and a
search for a method that neither has ends after two rounds. -/
theorem renamedSuperclass_links_lead_back :
    ∃ s, Session.Arises none s ∧ s.store.inherits? 1 = some 0 ∧ s.store.Founded ∧
      Store.search (fun c => s.store.ownMethod? c "n") s.store.inherits? 2 (some 1) = some none := by
  let start := Session.start none Session.freshStore
  let program := (parse (scan renamedSuperclass).tokens).statements
  have hrun : (start.interpret 30 program).any (fun r => r.2.state.store.inherits? 1 == some 0 &&
      (r.2.state.store.method? 1 "n").isNone) = true := by
    decide +kernel
  obtain ⟨⟨step, t⟩, h, hshown⟩ := Option.any_eq_true _ _ |>.1 hrun
  simp only [Bool.and_eq_true, beq_iff_eq, Option.isNone_iff_eq_none] at hshown
  have harises : Session.Arises none t.state := .between (.run .start (scan_data renamedSuperclass) h)
  obtain ⟨hfounded, hsearch⟩ := links_lead_back harises
  have hmethod := (hsearch 1 "n" 2 (by decide)).2.2
  exact ⟨t.state, harises, hshown.1, hfounded, hmethod.trans (by rw [hshown.2])⟩

end LoxLang
