import LoxLang.Text.Utf8
import LoxLang.Yaml.Cursor

/-!
# Characters of a document

A document is UTF-8, and unlike a source text it must be: octets that are no character end its reading, and so
does a control character other than a tab, a line feed, a carriage return or a next-line. A byte order
mark may stand first.
-/

namespace LoxLang.Yaml

/-- The characters that a document may have. -/
def isAllowed (c : Char) : Bool :=
  let n := c.toNat
  c == '\t' || c == '\n' || c == '\r' || (0x20 ≤ n && n ≤ 0x7e) || n == 0x85 ||
    (0xa0 ≤ n && n ≤ 0xfffd) || 0x10000 ≤ n

/-- How many octets follow the first one of a character, if it can be the first one. -/
def laterOctets? (b : UInt8) : Option Nat :=
  if b < 0x80 then some 0
  else if b < 0xc0 then none
  else if b < 0xe0 then some 1
  else if b < 0xf0 then some 2
  else if b < 0xf8 then some 3
  else none

/-- Why no character begins with an octet. -/
def octetFlaw (b : UInt8) (rest : List UInt8) : Flaw :=
  match laterOctets? b with
  | none => .leadingOctet
  | some n =>
    let later := rest.take n
    let code := later.foldl (fun code octet => code * 64 + Text.payload octet) (b.toNat % (1 <<< (6 - n)))
    if later.length < n then .incompleteSequence
    else if !later.all Text.isContinuation then .trailingOctet
    else if (n == 2 && 0x800 ≤ code) || 0x10ffff < code then .character
    else .sequenceLength

/-- The characters of some octets. -/
def charactersFrom : List UInt8 → Except Fault (List Char)
  | [] => .ok []
  | b :: rest =>
    match _h : Text.sequence? b rest with
    | none => .error ⟨octetFlaw b rest, none⟩
    | some (c, after) =>
      if isAllowed c then (charactersFrom after).map (c :: ·) else .error ⟨.controlCharacter, none⟩
termination_by octets => octets.length
decreasing_by
  have := Text.sequence?_length _h
  simp only [List.length_cons]
  omega

/-- The characters of a document. -/
def characters : List UInt8 → Except Fault (List Char)
  | 0xef :: 0xbb :: 0xbf :: content => charactersFrom content
  | content => charactersFrom content

end LoxLang.Yaml
