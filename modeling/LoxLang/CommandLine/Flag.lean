/-!
# Flags on the command line

Arguments begin with flags: a dash and letters, several of which may share a dash. A letter that takes a
value takes the rest of its argument, or else the next argument. Flags end before the first argument that
is empty, a single dash, or without one, and after a double dash.

Main statements: `flags_of_plain`, that an argument without a dash ends the flags, and
`letters_length`, by which reading them ends.
-/

namespace LoxLang.CommandLine

/-- A flag as it was given. -/
inductive Flag where
  | tree
  | config (path : String)
  | depth (text : String)
  | help
  | monochrome
  | tokens
  | trace
  deriving DecidableEq, Repr

/-- What a letter means: a flag, or one that wants a value. -/
inductive Letter where
  | plain (flag : Flag)
  | valued (flag : String → Flag)

/-- The meaning of a letter. -/
def letter? : Char → Option Letter
  | 'a' => some (.plain .tree)
  | 'c' => some (.valued .config)
  | 'd' => some (.valued .depth)
  | 'h' => some (.plain .help)
  | 'n' => some (.plain .monochrome)
  | 't' => some (.plain .tokens)
  | 'T' => some (.plain .trace)
  | _ => none

/-- What can be wrong with flags. -/
inductive FlagError where
  | unknown (c : Char)
  | missingValue (c : Char)
  deriving DecidableEq, Repr

/-- The words for what is wrong, before which the program gives its name. -/
def FlagError.message : FlagError → String
  | .unknown c => "glox: unknown option -" ++ c.toString
  | .missingValue c => "glox: expected argument for -" ++ c.toString

/-- Reads the letters of one argument; the arguments after it may lend a value. -/
def letters : List Char → List String → Except FlagError (List Flag × List String)
  | [], args => .ok ([], args)
  | c :: cs, args =>
    match letter? c with
    | none => .error (.unknown c)
    | some (.plain flag) =>
      match letters cs args with
      | .ok (flags, args) => .ok (flag :: flags, args)
      | .error e => .error e
    | some (.valued flag) =>
      match cs, args with
      | [], [] => .error (.missingValue c)
      | [], value :: args => .ok ([flag value], args)
      | cs, args => .ok ([flag (String.ofList cs)], args)

theorem letters_length {cs : List Char} {args rest : List String} {flags : List Flag}
    (h : letters cs args = .ok (flags, rest)) : rest.length ≤ args.length := by
  induction cs generalizing args rest flags with
  | nil =>
    simp only [letters, Except.ok.injEq, Prod.mk.injEq] at h
    exact Nat.le_of_eq (congrArg List.length h.2.symm)
  | cons c cs ih =>
    unfold letters at h
    split at h
    · simp at h
    · split at h
      · next flags' rest' hl =>
        simp only [Except.ok.injEq, Prod.mk.injEq] at h
        rw [← h.2]
        exact ih hl
      · simp at h
    · split at h
      · simp at h
      · simp only [Except.ok.injEq, Prod.mk.injEq] at h
        rw [← h.2]
        simp
      · simp only [Except.ok.injEq, Prod.mk.injEq] at h
        exact Nat.le_of_eq (congrArg List.length h.2.symm)

/-- Splits arguments into flags and what follows them. -/
def flags (args : List String) : Except FlagError (List Flag × List String) :=
  match args with
  | [] => .ok ([], [])
  | arg :: rest =>
    if arg = "--" then .ok ([], rest)
    else
      match arg.toList with
      | '-' :: c :: cs =>
        match _hl : letters (c :: cs) rest with
        | .error e => .error e
        | .ok (first, rest') =>
          match flags rest' with
          | .ok (more, operands) => .ok (first ++ more, operands)
          | .error e => .error e
      | _ => .ok ([], arg :: rest)
termination_by args.length
decreasing_by
  have := letters_length _hl
  simp only [List.length_cons]
  omega

theorem flags_of_plain {arg : String} (rest : List String) (h : arg.toList.head? ≠ some '-') :
    flags (arg :: rest) = .ok ([], arg :: rest) := by
  have hne : arg ≠ "--" := by
    rintro rfl
    exact h (by decide)
  rw [flags, if_neg hne]
  split
  · next heq => simp [heq] at h
  · rfl

end LoxLang.CommandLine
