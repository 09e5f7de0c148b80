import LoxLang.Proofs.Number.Display
import LoxLang.Proofs.Scan.Counters
import LoxLang.Session

/-!
# Printing what was printed

The text of a finite number is a number of the source language, behind a minus if the sign bit of the
number is set. It is scanned without errors, and it stands for the same double, bit by bit: negative zero
is written as the negation of zero. So what was printed can be printed again.

Main statement: `display_reads_back`.
-/

namespace LoxLang

open Lexical (Digits Longest Pattern float?)

/-! ### Signs of doubles -/

namespace Binary64

open Float.Model (Format UnpackedFloat)
open Float.Model.UnpackedFloat (Sign packComponents packComponents_unpackSign_unpackExponent_unpackMantissa
  pack_unpack_of_valid unpackExponent_packComponents unpackMantissa_packComponents unpackSign_packComponents)

/-- The bits of a finite number: its sign, an exponent whose bits are not all set, and a mantissa. -/
structure Finite (x : Float) (s : Sign) (e : BitVec 11) (m : BitVec 52) : Prop where
  bits : x.toBits.toBitVec = packComponents .binary64 s e m
  exponent : e ≠ -1#11

variable {x : Float} {s : Sign} {e : BitVec 11} {m : BitVec 52}

theorem exists_finite (h : x.isFinite = true) : ∃ s e m, Finite x s e m := by
  have hbits := @packComponents_unpackSign_unpackExponent_unpackMantissa .binary64 x.toBits.toBitVec
  refine ⟨_, _, _, hbits.symm, fun he => ?_⟩
  have hunpacked : (UnpackedFloat.unpack .binary64 x.toBits.toBitVec).isFinite = true := h
  rw [UnpackedFloat.unpack, if_pos he] at hunpacked
  split at hunpacked <;> cases hunpacked

/-- Bits with another sign are those of the negated number. -/
theorem unpack_neg (s : Sign) (m : BitVec 52) (he : e ≠ -1#11) :
    UnpackedFloat.unpack .binary64 (packComponents .binary64 (-s) e m) =
      (UnpackedFloat.unpack .binary64 (packComponents .binary64 s e m)).neg := by
  unfold UnpackedFloat.unpack
  simp only [unpackSign_packComponents, unpackExponent_packComponents, unpackMantissa_packComponents,
    UnpackedFloat.Sign.ofBitVec_toBitVec]
  rw [if_neg he, if_neg he]
  split
  · split <;> rfl
  · rfl

theorem Finite.isFinite (h : Finite x s e m) : x.isFinite = true := by
  have hunpacked : x.isFinite = (UnpackedFloat.unpack .binary64 x.toBits.toBitVec).isFinite := rfl
  rw [hunpacked, h.bits, UnpackedFloat.unpack]
  simp only [unpackSign_packComponents, unpackExponent_packComponents, unpackMantissa_packComponents]
  rw [if_neg h.exponent]
  split
  · split <;> rfl
  · rfl

theorem Finite.neg (h : Finite x s e m) : Finite (-x) (-s) e m := by
  refine ⟨?_, h.exponent⟩
  have hvalid : Format.binary64.Valid (packComponents .binary64 (-s) e m) :=
    ⟨fun he => absurd (unpackExponent_packComponents.symm.trans he) h.exponent⟩
  have hbits : (-x).toBits.toBitVec =
      UnpackedFloat.pack .binary64 (UnpackedFloat.unpack .binary64 x.toBits.toBitVec).neg := rfl
  rw [hbits, h.bits, ← unpack_neg s m h.exponent, pack_unpack_of_valid hvalid]

theorem isFinite_neg (h : x.isFinite = true) : (-x).isFinite = true := by
  obtain ⟨s, e, m, hx⟩ := exists_finite h
  exact hx.neg.isFinite

theorem neg_neg (h : x.isFinite = true) : -(-x) = x := by
  obtain ⟨s, e, m, hx⟩ := exists_finite h
  have hs : - -s = s := by cases s <;> rfl
  rw [← Float.toBits_inj, ← UInt64.toBitVec_inj, hx.neg.neg.bits, hx.bits, hs]

/-- The sign, the exponent and the mantissa stand one after the other. -/
theorem Finite.toNat (h : Finite x s e m) :
    x.toBits.toNat = s.toBitVec.toNat * 2 ^ 63 + (e.toNat * 2 ^ 52 + m.toNat) := by
  have hword : x.toBits.toNat = (packComponents .binary64 s e m).toNat := congrArg BitVec.toNat h.bits
  have hparts : (packComponents .binary64 s e m).toNat =
      (s.toBitVec.toNat * 2 ^ 11 + e.toNat) * 2 ^ 52 + m.toNat := by
    rw [packComponents, BitVec.toNat_append, BitVec.toNat_append, ← Nat.shiftLeft_add_eq_or_of_lt e.isLt,
      ← Nat.shiftLeft_add_eq_or_of_lt m.isLt, Nat.shiftLeft_eq, Nat.shiftLeft_eq]
  rw [hword, hparts]
  omega

/-- The magnitude is that of the exponent and the mantissa, and is below infinity. -/
theorem Finite.magnitude (h : Finite x s e m) :
    Number.magnitudeWord x = e.toNat * 2 ^ 52 + m.toNat ∧ Number.magnitudeWord x < infinity ∧
      (Number.isNegative x = true ↔ s = .negative) := by
  have he : e.toNat ≠ 2 ^ 11 - 1 := fun heq => h.exponent (BitVec.eq_of_toNat_eq heq)
  have hlt := e.isLt
  have hm := m.isLt
  have hword := h.toNat
  rw [Number.magnitudeWord, Number.isNegative, decide_eq_true_iff, infinity]
  cases s with
  | negative =>
    rw [UnpackedFloat.Sign.toBitVec, show (1#1).toNat = 1 from rfl] at hword
    simp only [iff_true]
    omega
  | positive =>
    rw [UnpackedFloat.Sign.toBitVec, show (0#1).toNat = 0 from rfl] at hword
    simp only [reduceCtorEq, iff_false]
    omega

theorem magnitudeWord_lt (h : x.isFinite = true) : Number.magnitudeWord x < infinity := by
  obtain ⟨s, e, m, hx⟩ := exists_finite h
  exact hx.magnitude.2.1

theorem isNegative_neg (h : x.isFinite = true) : Number.isNegative (-x) = !Number.isNegative x := by
  obtain ⟨s, e, m, hx⟩ := exists_finite h
  rw [Bool.eq_iff_iff, hx.neg.magnitude.2.2, Bool.not_eq_true', ← Bool.not_eq_true, hx.magnitude.2.2]
  cases s with
  | negative => exact ⟨(nomatch ·), fun hs => absurd rfl hs⟩
  | positive => exact ⟨fun _ => (nomatch ·), fun _ => rfl⟩

theorem magnitudeWord_neg (h : x.isFinite = true) : Number.magnitudeWord (-x) = Number.magnitudeWord x := by
  obtain ⟨s, e, m, hx⟩ := exists_finite h
  rw [hx.neg.magnitude.1, hx.magnitude.1]

/-- A number that is not negative is made of its magnitude. -/
theorem ofBits_magnitudeWord (h : Number.isNegative x = false) :
    Float.ofBits (Number.magnitudeWord x).toUInt64 = x := by
  have hlt : x.toBits.toNat < 0x8000000000000000 := Nat.not_le.1 (of_decide_eq_false h)
  have hword : (Number.magnitudeWord x).toUInt64 = x.toBits := by
    rw [Number.magnitudeWord, Nat.mod_eq_of_lt hlt]
    exact UInt64.ofNat_toNat
  rw [hword, Float.ofBits_toBits]

end Binary64

/-! ### The text of a finite number -/

namespace Number

variable {x : Float}

theorem display_of_finite (h : x.isFinite = true) :
    display x = signed (isNegative x) (Binary64.shortest (magnitudeWord x)).positional := by
  rw [display, shape, if_pos (Binary64.magnitudeWord_lt h)]

/-- The text of a number that is not negative is a number of the source language, and stands for it. -/
theorem display_positive (h : x.isFinite = true) (hx : isNegative x = false) :
    Pattern .number (display x).toList ∧ float? (display x).toList = some x := by
  have hreads := positional_reads (Binary64.magnitudeWord_lt h)
  rw [Binary64.ofBits_magnitudeWord hx] at hreads
  rw [display_of_finite h, hx]
  simpa [signed] using hreads

/-- The text of a negative number is a minus and the text of its negation. -/
theorem display_negative (h : x.isFinite = true) (hx : isNegative x = true) :
    display x = "-" ++ display (-x) := by
  rw [display_of_finite h, display_of_finite (Binary64.isFinite_neg h), Binary64.isNegative_neg h,
    Binary64.magnitudeWord_neg h, hx, ← String.toList_inj]
  simp [signed]

end Number

/-! ### Scanning the text -/

namespace Token

open Number (display isNegative display_positive display_negative)

variable {text rest : List Char} {x : Float}

/-- A number is a piece of its own where it ends. -/
theorem pieces_number (h : Pattern .number text) (hx : float? text = some x) (hl : Longest text rest) :
    pieces (text ++ rest) = ⟨.token .number (.number x), text⟩ :: pieces rest := by
  obtain ⟨c, cs, htext, hmunch⟩ := munch_longest_number h hl
  rw [htext, pieces_cons, hmunch, hx]
  rfl

/-- A number has no line end in it. -/
theorem newline_not_mem (h : Pattern .number text) : '\n' ∉ text := by
  have hdigits {ds : List Char} (h : Digits ds) : '\n' ∉ ds := fun hd => absurd (h.all _ hd) (by decide)
  rcases h.number_cases with h | ⟨whole, fraction, hw, hf, rfl⟩
  · exact hdigits h
  · simp [hdigits hw, hdigits hf]

/-- Nothing goes on with a number at the end, or in front of a semicolon. -/
theorem longest_number (h : Pattern .number text) (hrest : rest = [] ∨ rest = [';']) : Longest text rest := by
  rcases h.number_cases with h | ⟨whole, fraction, hw, hf, rfl⟩
  · rw [Lexical.longest_whole_iff h]
    rcases hrest with rfl | rfl <;> simp [isDigit]
  · rw [Lexical.longest_decimal_iff hw hf]
    rcases hrest with rfl | rfl <;> simp [isDigit]

/-- The text of a number that is not negative is one piece. -/
theorem pieces_positive (h : x.isFinite = true) (hx : isNegative x = false)
    (hrest : rest = [] ∨ rest = [';']) :
    pieces ((display x).toList ++ rest) =
      ⟨.token .number (.number x), (display x).toList⟩ :: pieces rest := by
  obtain ⟨hpattern, hvalue⟩ := display_positive h hx
  exact pieces_number hpattern hvalue (longest_number hpattern hrest)

/-- The text of a negative number is two pieces. -/
theorem pieces_negative (h : x.isFinite = true) (hx : isNegative x = true)
    (hrest : rest = [] ∨ rest = [';']) :
    pieces ((display x).toList ++ rest) = ⟨.token .minus .nil, ['-']⟩ ::
      ⟨.token .number (.number (-x)), (display (-x)).toList⟩ :: pieces rest := by
  have hneg : isNegative (-x) = false := by
    rw [Binary64.isNegative_neg h, hx]
    rfl
  have hlist : (display x).toList ++ rest = '-' :: ((display (-x)).toList ++ rest) := by
    rw [display_negative h hx, String.toList_append]
    rfl
  have hminus (cs : List Char) : munch '-' cs = (⟨.token .minus .nil, ['-']⟩, cs) := rfl
  rw [hlist, pieces_cons, hminus, pieces_positive (Binary64.isFinite_neg h) hneg hrest]

/-- A text of one line has its end on the first line. -/
theorem endOf_eq {source : List Char} (h : '\n' ∉ source) :
    endOf source = { kind := .eof, lexeme := "", line := 1 } := by
  have hline := endOf_line source
  rw [newlines_eq_zero fun hmem => h (List.dropLast_subset source hmem)] at hline
  exact congrArg (fun line : Int => ({ kind := .eof, lexeme := "", line } : Token)) hline

/-- The pieces of a text of one line are on the first line. -/
theorem numbered_line {source : List Char} (h : '\n' ∉ source) :
    numbered 1 (pieces source) = (pieces source).map (1, ·) := by
  have hnone : ∀ p ∈ pieces source, newlines p.text = 0 := by
    intro p hp
    refine newlines_eq_zero fun hmem => h ?_
    rw [← flatten_pieces source]
    exact List.mem_flatMap.2 ⟨p, hp, hmem⟩
  generalize pieces source = ps at hnone
  induction ps with
  | nil => rfl
  | cons p ps ih =>
    rw [numbered, hnone p List.mem_cons_self, Nat.add_zero, List.map_cons,
      ih fun q hq => hnone q (List.mem_cons_of_mem p hq)]

end Token

open Token

/-- What scanning finds in a text of one line. -/
theorem scan_line {source : List Char} (h : '\n' ∉ source) :
    scan source = {
      tokens := (pieces source).filterMap (fun p => ofPiece? (1, p)) ++
        [{ kind := .eof, lexeme := "", line := 1 }]
      errors := (pieces source).filterMap fun p => errorOfPiece? (1, p) } := by
  have htokens := scan_tokens source
  have herrors := scan_errors source
  rw [ofText, numbered_line h, endOf_eq h, List.filterMap_map] at htokens
  rw [numbered_line h, List.filterMap_map] at herrors
  exact congrArg₂ Scan.mk htokens herrors

/-! ### Printing the text -/

namespace Number

variable {x : Float} {e : Expr} {v : Value}

theorem newline_not_mem_display (h : x.isFinite = true) : '\n' ∉ (display x).toList := by
  cases hx : isNegative x with
  | false => exact newline_not_mem (display_positive h hx).1
  | true =>
    have hneg : isNegative (-x) = false := by
      rw [Binary64.isNegative_neg h, hx]
      rfl
    have hrest := newline_not_mem (display_positive (Binary64.isFinite_neg h) hneg).1
    rw [display_negative h hx, String.toList_append, List.mem_append, not_or]
    exact ⟨by decide, hrest⟩

/-- The token of a number that stands on the first line. -/
def token (x : Float) : Token := { kind := .number, lexeme := display x, line := 1, literal := .number x }

/-- A mark without a value that stands on the first line. -/
def mark (kind : Kind) (text : String) : Token := { kind, lexeme := text, line := 1 }

/-- The source text that prints a number by its text. -/
def printing (x : Float) : List Char := ("print " ++ display x ++ ";").toList

theorem pieces_printing (x : Float) : pieces (printing x) =
    ⟨.token .kwPrint .nil, "print".toList⟩ :: ⟨.blank, [' ']⟩ :: pieces ((display x).toList ++ [';']) := by
  have hlist : printing x = "print ".toList ++ ((display x).toList ++ [';']) := by
    rw [printing, String.toList_append, String.toList_append, List.append_assoc]
    rfl
  have hprint (cs : List Char) :
      munch 'p' ('r' :: 'i' :: 'n' :: 't' :: ' ' :: cs) =
        (⟨.token .kwPrint .nil, "print".toList⟩, ' ' :: cs) :=
    rfl
  have hblank (cs : List Char) : munch ' ' cs = (⟨.blank, [' ']⟩, cs) := rfl
  rw [hlist, show "print ".toList = ['p', 'r', 'i', 'n', 't', ' '] from rfl]
  simp only [List.cons_append, List.nil_append]
  rw [pieces_cons, hprint, pieces_cons, hblank]

theorem newline_not_mem_printing (h : x.isFinite = true) : '\n' ∉ printing x := by
  rw [printing, String.toList_append, String.toList_append, List.mem_append, List.mem_append, not_or, not_or]
  exact ⟨⟨by decide, newline_not_mem_display h⟩, by decide⟩

theorem pieces_semicolon : pieces [';'] = [⟨.token .semicolon .nil, [';']⟩] := by
  have hmunch : munch ';' [] = (⟨.token .semicolon .nil, [';']⟩, []) := rfl
  rw [pieces_cons, hmunch, pieces]

theorem parse_print (text : String) (y : Float) :
    parse [mark .kwPrint "print", { kind := .number, lexeme := text, line := 1, literal := .number y },
      mark .semicolon ";", mark .eof ""] = ⟨[.print (.literal (.number y))], []⟩ := by
  cbv

theorem parse_print_minus (text : String) (y : Float) :
    parse [mark .kwPrint "print", mark .minus "-",
      { kind := .number, lexeme := text, line := 1, literal := .number y },
      mark .semicolon ";", mark .eof ""] =
        ⟨[.print (.unary (mark .minus "-") (.literal (.number y)))], []⟩ := by
  cbv

theorem compile_positive (h : x.isFinite = true) (hx : isNegative x = false) :
    compile (printing x) = .ok [.print (.literal (.number x))] := by
  have hscan : scan (printing x) = {
      tokens := [mark .kwPrint "print", token x, mark .semicolon ";", mark .eof ""], errors := [] } := by
    rw [scan_line (newline_not_mem_printing h), pieces_printing, pieces_positive h hx (.inr rfl),
      pieces_semicolon]
    simp [ofPiece?, errorOfPiece?, mark, token]
  rw [compile, hscan, token]
  dsimp only
  rw [parse_print]
  rfl

theorem compile_negative (h : x.isFinite = true) (hx : isNegative x = true) :
    compile (printing x) = .ok [.print (.unary (mark .minus "-") (.literal (.number (-x))))] := by
  have hscan : scan (printing x) = {
      tokens := [mark .kwPrint "print", mark .minus "-", token (-x), mark .semicolon ";", mark .eof ""]
      errors := [] } := by
    rw [scan_line (newline_not_mem_printing h), pieces_printing, pieces_negative h hx (.inr rfl),
      pieces_semicolon]
    simp [ofPiece?, errorOfPiece?, mark, token]
  rw [compile, hscan, token]
  dsimp only
  rw [parse_print_minus]
  rfl

/-- A program that prints a value, if evaluating it changes nothing. -/
theorem interpret_print (s : Session) (n : Nat)
    (he : ∀ state, Run.eval s.options n Session.globals e state = .done v state) :
    s.interpret (n + 1) [.print e] = some ({ output := v.display ++ "\n", error := none },
      { s with state := { s.state with output := v.display ++ "\n" } }) := by
  have hprogram : Run.program s.options (n + 1) Session.globals [.print e] { s.state with output := "" } =
      .done () { s.state with output := "" ++ v.display ++ "\n" } := by
    rw [Run.program, Run.run_bind, Run.exec, Run.run_bind, he]
    rfl
  rw [Session.interpret, hprogram, String.empty_append]

end Number

open Number in
/-- The text of any finite number is scanned without errors. If the sign bit is clear, it is one number
token, and its value is the same number; if it is set, as that of negative zero is, the text is a minus
and one number token, and the value of that token is the negation of the number. A session that is given
the text to print prints it again, and nothing else changes in it. -/
theorem display_reads_back (x : Float) (h : x.isFinite = true) :
    (scan (display x).toList).errors = [] ∧
    (isNegative x = false → (scan (display x).toList).tokens = [token x, mark .eof ""]) ∧
    (isNegative x = true → display x = "-" ++ display (-x) ∧
      (scan (display x).toList).tokens = [mark .minus "-", token (-x), mark .eof ""]) ∧
    ∀ (s : Session) (n : Nat), 3 ≤ n → s.run n (printing x) =
      some ({ output := display x ++ "\n", error := none },
        { s with state := { s.state with output := display x ++ "\n" } }) := by
  have hpositive (hx : isNegative x = false) := pieces_positive h hx (.inl rfl)
  have hnegative (hx : isNegative x = true) := pieces_negative h hx (.inl rfl)
  rw [List.append_nil] at hpositive hnegative
  rw [scan_line (newline_not_mem_display h)]
  refine ⟨?_, fun hx => ?_, fun hx => ⟨display_negative h hx, ?_⟩, fun s n hn => ?_⟩
  · cases hx : isNegative x with
    | false =>
      simp [hpositive hx, errorOfPiece?]
    | true =>
      simp [hnegative hx, errorOfPiece?]
  · rw [hpositive hx]
    simp [ofPiece?, token, mark]
  · rw [hnegative hx]
    simp [ofPiece?, token, mark]
  · obtain ⟨n, rfl⟩ := Nat.exists_eq_add_of_le' hn
    cases hx : isNegative x with
    | false =>
      rw [Session.run, compile_positive h hx]
      have heval (state : RunState) :
          Run.eval s.options (n + 2) Session.globals (.literal (.number x)) state =
            .done (.number x) state := by
        rw [Run.eval, Run.run_pure]
      exact interpret_print s (n + 2) heval
    | true =>
      rw [Session.run, compile_negative h hx]
      have heval (state : RunState) : Run.eval s.options (n + 2) Session.globals
          (.unary (mark .minus "-") (.literal (.number (-x)))) state = .done (.number x) state := by
        rw [Run.eval, Run.run_bind, Run.eval, Run.run_pure]
        exact congrArg (fun y => Outcome.done (Value.number y) state) (Binary64.neg_neg h)
      exact interpret_print s (n + 2) heval

open Number in
/-- Negative zero is written as the negation of zero, and read so. -/
theorem negativeZero_reads_back :
    let zero : Float := Float.ofBits 0x8000000000000000
    zero.isFinite = true ∧ display zero = "-0" ∧
      Session.run 3 (.start none Session.freshStore) (printing zero) =
        some ({ output := "-0\n", error := none },
          { Session.start none Session.freshStore with
            state := { store := Session.freshStore, output := "-0\n" } }) := by
  intro zero
  have hfinite : zero.isFinite = true := by decide +kernel
  have htext : display zero = "-0" := by decide +kernel
  obtain ⟨-, -, -, hrun⟩ := display_reads_back zero hfinite
  have hzero := hrun (.start none Session.freshStore) 3 (Nat.le_refl 3)
  rw [htext] at hzero
  exact ⟨hfinite, htext, hzero⟩

end LoxLang
