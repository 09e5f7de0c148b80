import LoxLang.CommandLine.Flag
import LoxLang.Config.Load
import LoxLang.Number.Integer

/-!
# Settings of one invocation

The flags of an invocation become its settings. Settings files are the base that all other flags change,
wherever they stand; of several files the last one counts, though each must load. The other
flags then apply in their order, until one of them ends the invocation. How a settings file is decoded is left
open.

Main statement: `settings_depth`, that the call depth of an invocation is within its bounds.
-/

namespace LoxLang.CommandLine

/-- What an invocation was asked to do. -/
structure Settings where
  options : Options := {}
  dumpTokens : Bool := false
  dumpTree : Bool := false

/-- Why an invocation ends before it starts. -/
inductive Stop (ε : Type) where
  /-- the arguments cannot be split into flags and operands, in these words -/
  | badFlag (message : String)
  | badConfig (path : String) (error : Config.LoadError ε)
  | badDepth
  | help

/-- The files of a system, by their paths. -/
abbrev Files := String → FileContent

section Apply

variable {ε : Type} (decode : Config.Decoder ε) (files : Files)

/-- Loads the settings files among some flags. -/
def loadConfigs : Options → List Flag → Except (Stop ε) Options
  | o, [] => .ok o
  | _, .config path :: flags =>
    match Config.loadWith decode (files path) with
    | .ok o => loadConfigs o flags
    | .error e => .error (.badConfig path e)
  | o, _ :: flags => loadConfigs o flags

/-- The call depth that a flag asks for. -/
def depth? (text : String) : Option Int :=
  match Integer.decimal? text with
  | some n => if 0 < n ∧ n ≤ Options.depthLimit then some n else none
  | none => none

/-- Applies one flag. -/
def applyFlag (s : Settings) : Flag → Except (Stop ε) Settings
  | .tree => .ok { s with dumpTree := true }
  | .config _ => .ok s
  | .depth text =>
    match depth? text with
    | some n => .ok { s with options := { s.options with maxCallDepth := n } }
    | none => .error .badDepth
  | .help => .error .help
  | .monochrome => .ok { s with options := { s.options with color := false } }
  | .tokens => .ok { s with dumpTokens := true }
  | .trace => .ok { s with options := { s.options with trace := true } }

/-- Applies flags in their order. -/
def applyFlags : Settings → List Flag → Except (Stop ε) Settings
  | s, [] => .ok s
  | s, flag :: flags =>
    match applyFlag s flag with
    | .ok s => applyFlags s flags
    | .error stop => .error stop

/-- The settings that some flags ask for. -/
def settings (flags : List Flag) : Except (Stop ε) Settings :=
  match loadConfigs decode files {} flags with
  | .ok options => applyFlags { options } flags
  | .error stop => .error stop

end Apply

/-- A depth between 1 and the limit. -/
def Bounded (o : Options) : Prop := 1 ≤ o.maxCallDepth ∧ o.maxCallDepth ≤ Options.depthLimit

section Bounded

variable {ε : Type} {decode : Config.Decoder ε} {files : Files} {flags : List Flag} {s s' : Settings}

theorem loadConfigs_bounded {o o' : Options} (ho : Bounded o)
    (h : loadConfigs decode files o flags = .ok o') : Bounded o' := by
  fun_induction loadConfigs decode files o flags with
  | case1 o => cases h; exact ho
  | case2 _ path flags o hload ih => exact ih (Config.loadWith_depth hload) h
  | case3 => cases h
  | case4 o flag flags _ ih => exact ih ho h

theorem depth?_bounded {text : String} {n : Int} (h : depth? text = some n) :
    1 ≤ n ∧ n ≤ Options.depthLimit := by
  unfold depth? at h
  split at h
  · split at h
    · cases h
      omega
    · cases h
  · cases h

theorem applyFlag_bounded {flag : Flag} (hs : Bounded s.options)
    (h : (applyFlag s flag : Except (Stop ε) Settings) = .ok s') : Bounded s'.options := by
  cases flag with
  | depth text =>
    simp only [applyFlag] at h
    split at h
    · next n hn => cases h; exact depth?_bounded hn
    · cases h
  | help => cases h
  | _ => cases h; exact hs

theorem applyFlags_bounded (hs : Bounded s.options)
    (h : (applyFlags s flags : Except (Stop ε) Settings) = .ok s') : Bounded s'.options := by
  induction flags generalizing s with
  | nil => cases h; exact hs
  | cons flag flags ih =>
    simp only [applyFlags] at h
    split at h
    · next s₁ h₁ => exact ih (applyFlag_bounded hs h₁) h
    · cases h

/-- However the flags stand, the call depth is within its bounds. -/
theorem settings_depth (h : settings decode files flags = .ok s) :
    1 ≤ s.options.maxCallDepth ∧ s.options.maxCallDepth ≤ Options.depthLimit := by
  unfold settings at h
  split at h
  · next o ho =>
    have base : Bounded {} := ⟨by decide, by decide⟩
    exact applyFlags_bounded (loadConfigs_bounded base ho) h
  · cases h

end Bounded

end LoxLang.CommandLine
