/-!
# Source bytes as characters

A source file is a sequence of bytes that ought to be UTF-8 and need not be. `decode` reads it from the
left: a well-formed sequence of one to four bytes is its character, and a byte at which no
well-formed sequence starts is the replacement character, alone, so that reading always goes on with
the very next byte. Overlong forms, surrogates, values above 10FFFF and sequences cut short are
not well formed.

Main statements: `first_length`, by which `decode` terminates, and `decode_cons`, its one step.
-/

namespace LoxLang.Text

/-- What a byte is read as when no well-formed sequence starts with it. -/
def replacement : Char := '\ufffd'

/-- Bytes 80 to BF carry six bits of a character that an earlier byte has begun. -/
def isContinuation (b : UInt8) : Bool := 0x80 ≤ b && b ≤ 0xbf

/-- The six bits of a continuation byte. -/
def payload (b : UInt8) : Nat := b.toNat % 64

/-- The character with code `n`, if `n` is a character of which the shortest form starts at `least`. -/
def charFrom? (least n : Nat) : Option Char :=
  if least ≤ n ∧ n.isValidChar then some (Char.ofNat n) else none

/-- The well-formed sequence that `b` starts, if there is one, and the bytes after it. -/
def sequence? (b : UInt8) (rest : List UInt8) : Option (Char × List UInt8) :=
  if b < 0x80 then some (Char.ofNat b.toNat, rest)
  else if b < 0xc0 then none
  else if b < 0xe0 then
    match rest with
    | b₁ :: rest =>
      if isContinuation b₁ then
        (charFrom? 0x80 (b.toNat % 32 * 64 + payload b₁)).map (·, rest)
      else none
    | _ => none
  else if b < 0xf0 then
    match rest with
    | b₁ :: b₂ :: rest =>
      if isContinuation b₁ && isContinuation b₂ then
        (charFrom? 0x800 (b.toNat % 16 * 4096 + payload b₁ * 64 + payload b₂)).map (·, rest)
      else none
    | _ => none
  else if b < 0xf8 then
    match rest with
    | b₁ :: b₂ :: b₃ :: rest =>
      if isContinuation b₁ && isContinuation b₂ && isContinuation b₃ then
        (charFrom? 0x10000
          (b.toNat % 8 * 262144 + payload b₁ * 4096 + payload b₂ * 64 + payload b₃)).map (·, rest)
      else none
    | _ => none
  else none

/-- The first character of `b :: rest`, and the bytes after it. -/
def first (b : UInt8) (rest : List UInt8) : Char × List UInt8 :=
  (sequence? b rest).getD (replacement, rest)

theorem sequence?_length {b : UInt8} {rest after : List UInt8} {c : Char}
    (h : sequence? b rest = some (c, after)) : after.length ≤ rest.length := by
  unfold sequence? at h
  split at h
  · simp_all
  split at h
  · simp at h
  split at h
  · split at h
    · split at h
      · simp only [Option.map_eq_some_iff, Prod.mk.injEq] at h
        obtain ⟨_, _, _, rfl⟩ := h
        simp
      · simp at h
    · simp at h
  split at h
  · split at h
    · split at h
      · simp only [Option.map_eq_some_iff, Prod.mk.injEq] at h
        obtain ⟨_, _, _, rfl⟩ := h
        simp only [List.length_cons]
        omega
      · simp at h
    · simp at h
  split at h
  · split at h
    · split at h
      · simp only [Option.map_eq_some_iff, Prod.mk.injEq] at h
        obtain ⟨_, _, _, rfl⟩ := h
        simp only [List.length_cons]
        omega
      · simp at h
    · simp at h
  · simp at h

/-- Reading one character uses up its first byte, at least. -/
theorem first_length (b : UInt8) (rest : List UInt8) :
    (first b rest).2.length ≤ rest.length := by
  unfold first
  cases h : sequence? b rest with
  | none => simp
  | some r => exact @sequence?_length b rest r.2 r.1 h

/-- The characters of a sequence of bytes. -/
def decode : List UInt8 → List Char
  | [] => []
  | b :: rest => (first b rest).1 :: decode (first b rest).2
termination_by bytes => bytes.length
decreasing_by
  have := first_length b rest
  simp only [List.length_cons]
  omega

@[simp] theorem decode_nil : decode [] = [] := by simp [decode]

theorem decode_cons (b : UInt8) (rest : List UInt8) :
    decode (b :: rest) = (first b rest).1 :: decode (first b rest).2 := by
  rw [decode]

end LoxLang.Text
