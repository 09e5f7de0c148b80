import LoxLang.File
import LoxLang.Options

/-!
# Options from a settings file

A settings file is decoded over the usual options: what it does not set stays as it is, and a file without a
document sets nothing. A depth beyond the limit is refused, and one that is not positive means the usual
one. How a document is decoded does not matter here; it is left to a decoder.

Main statement: `loadWith_depth`, that options which load have a depth within its bounds.
-/

namespace LoxLang.Config

/-- What decoding a document over some options comes to. -/
inductive Decoding (ε : Type) where
  | decoded (options : Options)
  /-- there is no document -/
  | ended (options : Options)
  | failed (error : ε)

/-- Decodes the bytes of an open file, if they can be read, over some options. -/
abbrev Decoder (ε : Type) := Option (List UInt8) → Options → Decoding ε

/-- Errors of a decoder have words, given the path of the file. -/
class DecodeError (ε : Type) where
  message (path : String) : ε → String

/-- Why options could not be loaded. -/
inductive LoadError (ε : Type) where
  | missing
  | undecoded (error : ε)
  | tooDeep (depth : Int)

/-- The words for why the options of a file could not be loaded. -/
def LoadError.message {ε : Type} [DecodeError ε] (path : String) : LoadError ε → String
  | .missing => FileContent.missingText path
  | .undecoded e => "options " ++ path ++ ": " ++ DecodeError.message path e
  | .tooDeep depth =>
    "options " ++ path ++ ": max_call_depth " ++ toString depth ++ " exceeds the limit of " ++
      toString Options.depthLimit

section Load

variable {ε : Type}

/-- The options that were decoded, with a depth within its bounds. -/
def accept (o : Options) : Except (LoadError ε) Options :=
  if Options.depthLimit < o.maxCallDepth then .error (.tooDeep o.maxCallDepth) else .ok o.normalized

/-- Loads options from an open file. -/
def loadOpen (decode : Decoder ε) (content : Option (List UInt8)) : Except (LoadError ε) Options :=
  match decode content {} with
  | .decoded o | .ended o => accept o
  | .failed e => .error (.undecoded e)

/-- Loads options from the content of a file. -/
def loadWith (decode : Decoder ε) : FileContent → Except (LoadError ε) Options
  | .missing => .error .missing
  | .directory => loadOpen decode none
  | .bytes content => loadOpen decode (some content)

theorem accept_depth {o o' : Options} (h : (accept o : Except (LoadError ε) Options) = .ok o') :
    1 ≤ o'.maxCallDepth ∧ o'.maxCallDepth ≤ Options.depthLimit := by
  unfold accept at h
  split at h
  · cases h
  · cases h
    exact o.normalized_depth

theorem loadOpen_depth {decode : Decoder ε} {content : Option (List UInt8)} {o : Options}
    (h : loadOpen decode content = .ok o) :
    1 ≤ o.maxCallDepth ∧ o.maxCallDepth ≤ Options.depthLimit := by
  unfold loadOpen at h
  split at h
  · exact accept_depth h
  · exact accept_depth h
  · cases h

theorem loadWith_depth {decode : Decoder ε} {content : FileContent} {o : Options}
    (h : loadWith decode content = .ok o) :
    1 ≤ o.maxCallDepth ∧ o.maxCallDepth ≤ Options.depthLimit := by
  cases content with
  | missing => cases h
  | directory => exact loadOpen_depth h
  | bytes content => exact loadOpen_depth h

end Load

end LoxLang.Config
