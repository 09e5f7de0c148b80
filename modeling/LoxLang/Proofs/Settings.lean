import LoxLang.CommandLine
import Mathlib.Data.List.Basic

/-!
# The order of flags

Where a flag stands among others hardly matters. Settings files are loaded before any other flag applies, and
the last one counts; of the depths that are asked for the last one counts, too. The other flags only
ever turn something on or off. Only flags that can end an invocation can get in each other's way, and
a settings file that does not load comes before all of them. All this holds however arguments are split into
flags and however settings files are decoded.

Main statement: `settings_of_flags`.
-/

namespace LoxLang.CommandLine

/-! ### What flags ask for -/

/-- The settings file that a flag names. -/
def Flag.path? : Flag → Option String
  | .config path => some path
  | _ => none

/-- The call depth that a flag asks for, as it is written. -/
def Flag.depthText? : Flag → Option String
  | .depth text => some text
  | _ => none

/-- Whether applying a flag can end the invocation. -/
def Flag.mayStop : Flag → Bool
  | .depth _ | .help => true
  | _ => false

/-- Why applying a flag ends the invocation, if it does. -/
def Flag.stop? {ε : Type} : Flag → Option (Stop ε)
  | .depth text => if (depth? text).isSome then none else some .badDepth
  | .help => some .help
  | _ => none

/-- Whether a settings file loads. -/
def Loads {ε : Type} (decode : Config.Decoder ε) (files : Files) (path : String) : Prop :=
  ∃ o, Config.loadWith decode (files path) = .ok o

variable {ε : Type} {decode : Config.Decoder ε} {files : Files} {flags flags' : List Flag} {o b : Options}
  {s : Settings}

/-! ### Settings files -/

/-- Loads settings files one after another, each in the place of the one before. -/
def loadPaths (decode : Config.Decoder ε) (files : Files) : Options → List String → Except (Stop ε) Options
  | o, [] => .ok o
  | _, path :: paths =>
    match Config.loadWith decode (files path) with
    | .ok o => loadPaths decode files o paths
    | .error e => .error (.badConfig path e)

/-- Other flags do not get in the way of settings files. -/
theorem loadConfigs_eq (decode : Config.Decoder ε) (files : Files) (o : Options) (flags : List Flag) :
    loadConfigs decode files o flags = loadPaths decode files o (flags.filterMap Flag.path?) := by
  fun_induction loadConfigs decode files o flags with
  | case1 o => rfl
  | case2 _ path flags o hload ih =>
    rw [List.filterMap_cons_some (by rfl), loadPaths, hload]
    exact ih
  | case3 _ path flags e hload =>
    rw [List.filterMap_cons_some (by rfl), loadPaths, hload]
  | case4 o flag flags hflag ih =>
    have hnone : flag.path? = none := by
      cases flag with
      | config path => exact absurd rfl (hflag path)
      | _ => rfl
    rw [List.filterMap_cons_none hnone]
    exact ih

/-- The last of the files that load counts. -/
theorem loadPaths_ok {paths : List String} (h : loadPaths decode files o paths = .ok b) :
    (∀ path ∈ paths, Loads decode files path) ∧
      match paths.getLast? with
      | none => b = o
      | some path => Config.loadWith decode (files path) = .ok b := by
  induction paths generalizing o with
  | nil =>
    cases h
    simp
  | cons path paths ih =>
    rw [loadPaths] at h
    split at h
    · next o' hload =>
      obtain ⟨hall, hlast⟩ := ih h
      refine ⟨List.forall_mem_cons.2 ⟨⟨o', hload⟩, hall⟩, ?_⟩
      rw [List.getLast?_cons]
      cases hpaths : paths.getLast? with
      | none =>
        rw [hpaths] at hlast
        subst hlast
        exact hload
      | some last =>
        rw [hpaths] at hlast
        exact hlast
    · cases h

theorem exists_loadPaths {paths : List String} (h : ∀ path ∈ paths, Loads decode files path) (o : Options) :
    ∃ b, loadPaths decode files o paths = .ok b := by
  induction paths generalizing o with
  | nil => exact ⟨o, rfl⟩
  | cons path paths ih =>
    obtain ⟨⟨o', hload⟩, hall⟩ := List.forall_mem_cons.1 h
    obtain ⟨b, hb⟩ := ih hall o'
    exact ⟨b, by rw [loadPaths, hload]; exact hb⟩

/-- The first file that does not load ends everything. -/
theorem loadPaths_error {before after : List String} {path : String} {e : Config.LoadError ε}
    (hbefore : ∀ p ∈ before, Loads decode files p)
    (h : Config.loadWith decode (files path) = .error e) (o : Options) :
    loadPaths decode files o (before ++ path :: after) = .error (.badConfig path e) := by
  induction before generalizing o with
  | nil => rw [List.nil_append, loadPaths, h]
  | cons p before ih =>
    obtain ⟨⟨o', hload⟩, hall⟩ := List.forall_mem_cons.1 hbefore
    rw [List.cons_append, loadPaths, hload]
    exact ih hall o'

/-! ### All other flags -/

/-- The settings that flags make of others, if none of them ends the invocation. -/
def Settings.after (s : Settings) (flags : List Flag) : Settings where
  options :=
    { maxCallDepth :=
        ((flags.filterMap Flag.depthText?).getLast?.bind depth?).getD s.options.maxCallDepth
      color := s.options.color && !flags.contains .monochrome
      trace := s.options.trace || flags.contains .trace }
  dumpTokens := s.dumpTokens || flags.contains .tokens
  dumpTree := s.dumpTree || flags.contains .tree

/-- One flag does to settings what it asks for, or ends the invocation. -/
theorem applyFlag_eq (s : Settings) (flag : Flag) :
    (applyFlag s flag : Except (Stop ε) Settings) = match flag.stop? with
      | some stop => .error stop
      | none => .ok (s.after [flag]) := by
  cases flag with
  | depth text =>
    rw [applyFlag, Flag.stop?]
    cases h : depth? text <;> simp [Settings.after, Flag.depthText?, h]
  | _ => simp [applyFlag, Flag.stop?, Settings.after, Flag.depthText?]

/-- A flag that asks for a depth, and does not end the invocation, has a depth written. -/
theorem exists_depth {text : String} (hflags : ∀ flag ∈ flags, flag.stop? = (none : Option (Stop ε)))
    (hlast : (flags.filterMap Flag.depthText?).getLast? = some text) : ∃ n, depth? text = some n := by
  obtain ⟨flag, hflag, htext⟩ := List.mem_filterMap.1 (List.mem_of_getLast? hlast)
  have hstop := hflags flag hflag
  cases flag with
  | depth written =>
    cases htext
    rw [Flag.stop?] at hstop
    split at hstop
    · next hsome => exact Option.isSome_iff_exists.1 hsome
    · cases hstop
  | _ => cases htext

theorem Settings.after_cons (s : Settings) (flag : Flag) (flags : List Flag)
    (h : ∀ flag ∈ flags, flag.stop? = (none : Option (Stop ε))) :
    (s.after [flag]).after flags = s.after (flag :: flags) := by
  have hdepth : ((flags.filterMap Flag.depthText?).getLast?.bind depth?).getD
      (((([flag].filterMap Flag.depthText?).getLast?.bind depth?).getD s.options.maxCallDepth)) =
      ((((flag :: flags).filterMap Flag.depthText?).getLast?.bind depth?).getD s.options.maxCallDepth) := by
    cases hlast : (flags.filterMap Flag.depthText?).getLast? with
    | none =>
      rw [List.getLast?_eq_none_iff] at hlast
      cases htext : flag.depthText? <;> simp [htext, hlast]
    | some text =>
      -- the last of them is a depth, so nothing asked for before that counts
      obtain ⟨n, hn⟩ := exists_depth h hlast
      cases htext : flag.depthText? <;> simp [htext, hlast, hn, List.getLast?_cons]
  simp only [Settings.after, hdepth, List.contains_cons, List.contains_nil, Bool.or_false, Bool.not_or,
    Bool.and_assoc, Bool.or_assoc]

/-- Flags do to settings what they ask for, or the first one that ends the invocation does so. -/
theorem applyFlags_eq (s : Settings) (flags : List Flag) :
    (applyFlags s flags : Except (Stop ε) Settings) = match flags.findSome? Flag.stop? with
      | some stop => .error stop
      | none => .ok (s.after flags) := by
  induction flags generalizing s with
  | nil => simp [applyFlags, Settings.after]
  | cons flag flags ih =>
    rw [applyFlags, applyFlag_eq, List.findSome?_cons]
    cases hstop : flag.stop? with
    | some stop => rfl
    | none =>
      dsimp only
      rw [ih]
      cases hrest : flags.findSome? Flag.stop? with
      | some stop => rfl
      | none =>
        dsimp only
        rw [Settings.after_cons s flag flags (List.findSome?_eq_none_iff.1 hrest)]

/-- Which flag ends the invocation depends on those that can, in their order. -/
theorem findSome?_stop? (flags : List Flag) :
    flags.findSome? (Flag.stop? : Flag → Option (Stop ε)) =
      (flags.filter Flag.mayStop).findSome? Flag.stop? := by
  induction flags with
  | nil => rfl
  | cons flag flags ih =>
    cases flag with
    | depth text => rw [List.filter_cons_of_pos (by rfl), List.findSome?_cons, List.findSome?_cons, ih]
    | help => rw [List.filter_cons_of_pos (by rfl), List.findSome?_cons, List.findSome?_cons, ih]
    | _ =>
      rw [List.filter_cons_of_neg Bool.false_ne_true]
      exact ih

theorem filterMap_depthText? (flags : List Flag) :
    flags.filterMap Flag.depthText? = (flags.filter Flag.mayStop).filterMap Flag.depthText? := by
  induction flags with
  | nil => rfl
  | cons flag flags ih =>
    cases flag with
    | depth text =>
      rw [List.filter_cons_of_pos (by rfl), List.filterMap_cons_some (by rfl),
        List.filterMap_cons_some (by rfl), ih]
    | help =>
      rw [List.filter_cons_of_pos (by rfl), List.filterMap_cons_none (by rfl),
        List.filterMap_cons_none (by rfl), ih]
    | _ =>
      rw [List.filter_cons_of_neg Bool.false_ne_true]
      exact ih

/-- The settings that flags make of others do not depend on where the flags stand that only turn something
on or off. -/
theorem Settings.after_perm (s : Settings) (hperm : flags.Perm flags')
    (hstop : flags.filter Flag.mayStop = flags'.filter Flag.mayStop) : s.after flags = s.after flags' := by
  have hdepths : flags.filterMap Flag.depthText? = flags'.filterMap Flag.depthText? := by
    rw [filterMap_depthText? flags, hstop, ← filterMap_depthText? flags']
  have hcontains (flag : Flag) : flags.contains flag = flags'.contains flag := by
    rw [Bool.eq_iff_iff, List.contains_iff_mem, List.contains_iff_mem]
    exact hperm.mem_iff
  simp only [Settings.after, hdepths, hcontains]

/-! ### All flags together -/

/-- Settings are what the last settings file says, or the usual ones, but for the last depth that was
asked for and for what any flag turned on or off. -/
structure Combined (decode : Config.Decoder ε) (files : Files) (given : List Flag) (base : Options)
    (s : Settings) : Prop where
  loaded : match (given.filterMap Flag.path?).getLast? with
    | none => base = {}
    | some path => Config.loadWith decode (files path) = .ok base
  depth : match (given.filterMap Flag.depthText?).getLast? with
    | none => s.options.maxCallDepth = base.maxCallDepth
    | some text => depth? text = some s.options.maxCallDepth
  color : s.options.color = (base.color && !given.contains .monochrome)
  trace : s.options.trace = (base.trace || given.contains .trace)
  dumpTokens : s.dumpTokens = given.contains .tokens
  dumpTree : s.dumpTree = given.contains .tree
  depth_pos : 1 ≤ s.options.maxCallDepth
  depth_le : s.options.maxCallDepth ≤ 10000

/-- The same flags in another order, in which the settings files, and the flags that can end an invocation,
follow each other as before. -/
structure Reordered (given given' : List Flag) : Prop where
  perm : given.Perm given'
  paths : given.filterMap Flag.path? = given'.filterMap Flag.path?
  mayStop : given.filter Flag.mayStop = given'.filter Flag.mayStop

/-- What an invocation makes of its flags. -/
structure Readers.Obeys [Config.DecodeError ε] (r : Readers ε) (files : Files) (given : List Flag) :
    Prop where
  combined : ∀ s, settings r.decode files given = .ok s → ∃ base, Combined r.decode files given base s
  /-- it goes on exactly if all settings files load and no flag ends it -/
  goes_on : (∃ s, settings r.decode files given = .ok s) ↔
    (∀ path ∈ given.filterMap Flag.path?, Loads r.decode files path) ∧
      ∀ flag ∈ given, (flag.stop? : Option (Stop ε)) = none
  /-- in another order the settings are the same, or the end is -/
  reordered : ∀ given', Reordered given given' →
    settings r.decode files given = settings r.decode files given' ∧
      ∀ args args' operands, r.split args = .ok (given, operands) →
        r.split args' = .ok (given', operands) → r.plan files args = r.plan files args'
  /-- the first settings file that does not load ends it, whatever the other flags are -/
  failed : ∀ before path after e, given.filterMap Flag.path? = before ++ path :: after →
    (∀ p ∈ before, Loads r.decode files p) → Config.loadWith r.decode (files path) = .error e →
      settings r.decode files given = .error (.badConfig path e) ∧
        ∀ args operands, r.split args = .ok (given, operands) →
          r.plan files args = .stop { exit := 74, stderr := complaint (e.message path) }

section Settings

/-- Settings that come of some flags combine what these ask for. -/
theorem combined_of_settings {given : List Flag} (h : settings decode files given = .ok s) :
    ∃ base, Combined decode files given base s := by
  obtain ⟨hpos, hle⟩ := settings_depth h
  rw [settings, loadConfigs_eq] at h
  split at h
  · next base hbase =>
    rw [applyFlags_eq] at h
    split at h
    · cases h
    · next hnone =>
      cases h
      refine ⟨base, (loadPaths_ok hbase).2, ?_, rfl, rfl, by simp [Settings.after], by simp [Settings.after],
        hpos, hle⟩
      cases hlast : (given.filterMap Flag.depthText?).getLast? with
      | none => simp [Settings.after, hlast]
      | some text =>
        obtain ⟨n, hn⟩ := exists_depth (List.findSome?_eq_none_iff.1 hnone) hlast
        simp [Settings.after, hlast, hn]
  · cases h

theorem settings_ok_iff (decode : Config.Decoder ε) (files : Files) (given : List Flag) :
    (∃ s, settings decode files given = .ok s) ↔
      (∀ path ∈ given.filterMap Flag.path?, Loads decode files path) ∧
        ∀ flag ∈ given, (flag.stop? : Option (Stop ε)) = none := by
  constructor
  · rintro ⟨s, h⟩
    rw [settings, loadConfigs_eq] at h
    split at h
    · next base hbase =>
      rw [applyFlags_eq] at h
      split at h
      · cases h
      · next hnone => exact ⟨(loadPaths_ok hbase).1, List.findSome?_eq_none_iff.1 hnone⟩
    · cases h
  · rintro ⟨hloads, hgoes⟩
    obtain ⟨base, hbase⟩ := exists_loadPaths hloads {}
    refine ⟨Settings.after { options := base } given, ?_⟩
    rw [settings, loadConfigs_eq, hbase]
    dsimp only
    rw [applyFlags_eq, List.findSome?_eq_none_iff.2 hgoes]

theorem settings_reordered {given given' : List Flag} (h : Reordered given given')
    (decode : Config.Decoder ε) (files : Files) :
    settings decode files given = settings decode files given' := by
  have hfirst : given.findSome? (Flag.stop? : Flag → Option (Stop ε)) = given'.findSome? Flag.stop? := by
    rw [findSome?_stop? given, h.mayStop, ← findSome?_stop? given']
  simp only [settings, loadConfigs_eq, h.paths, applyFlags_eq, hfirst, Settings.after_perm _ h.perm h.mayStop]

end Settings

/-- However an invocation reads its arguments and its settings files, and whatever flags it was given: if
it goes on with settings, these are what the last settings file says, or the usual ones, but for the last
depth that was asked for and for what any flag turned on or off; and it does go on if all settings files
load and no flag ends it. Flags may be given in any other order in which the settings files, and the flags
that can end the invocation, follow each other as before, and the settings are the same, or the end is.
The first settings file that does not load ends the invocation, whatever the other flags are. -/
theorem settings_of_flags [Config.DecodeError ε] (r : Readers ε) (files : Files) (given : List Flag) :
    r.Obeys files given where
  combined _ h := combined_of_settings h
  goes_on := settings_ok_iff r.decode files given
  reordered given' h := by
    have hsettings := settings_reordered h r.decode files
    refine ⟨hsettings, fun args args' operands hargs hargs' => ?_⟩
    rw [Readers.plan, Readers.plan, hargs, hargs']
    dsimp only
    rw [hsettings]
  failed before path after e hpaths hbefore he := by
    have hsettings : settings r.decode files given = .error (.badConfig path e) := by
      rw [settings, loadConfigs_eq, hpaths, loadPaths_error hbefore he]
    refine ⟨hsettings, fun args operands hargs => ?_⟩
    rw [Readers.plan, hargs]
    dsimp only
    rw [hsettings]
    rfl

/-- A depth asked for before the settings file is named stays, whatever that file says; and a settings file
that is not there comes before a wish for help and a bad depth. -/
theorem settings_of_depth_before_config :
    let files : Files := fun path =>
      if path = "deep.yml" then .bytes "max_call_depth: 7\ntrace: true\n".toUTF8.toList else .missing
    let given : List Flag := [.depth "20", .config "deep.yml", .monochrome]
    (∃ s, settings readers.decode files given = .ok s ∧ s.options.maxCallDepth = 20 ∧
        s.options.trace = true) ∧
      plan files ["-d20", "-cdeep.yml", "-n", "x.lox"] = plan files ["-nc", "deep.yml", "-d", "20", "x.lox"] ∧
      plan files ["-h", "-d0", "-c", "gone.yml"] =
        .stop { exit := 74, stderr := "glox: open gone.yml: no such file or directory\n" } := by
  intro files given
  have hload :
      Config.loadWith readers.decode (files "deep.yml") = .ok { maxCallDepth := 7, trace := true } := by
    have hread : (Config.load (files "deep.yml")).toOption = some { maxCallDepth := 7, trace := true } := by
      decide +kernel
    change Config.load (files "deep.yml") = _
    cases h : Config.load (files "deep.yml") with
    | ok o =>
      rw [h] at hread
      cases hread
      rfl
    | error e =>
      rw [h] at hread
      cases hread
  have hobeys := settings_of_flags readers files given
  have hstopped := settings_of_flags readers files [.help, .depth "0", .config "gone.yml"]
  have hloads : ∀ path ∈ given.filterMap Flag.path?, Loads readers.decode files path := by
    intro path hpath
    cases List.mem_singleton.1 hpath
    exact ⟨_, hload⟩
  have hgoes : ∀ flag ∈ given, (flag.stop? : Option (Stop Config.DocumentError)) = none := by
    simp [given, Flag.stop?, (by decide : depth? "20" = some 20)]
  obtain ⟨s, hs⟩ := hobeys.goes_on.2 ⟨hloads, hgoes⟩
  obtain ⟨base, hcombined⟩ := hobeys.combined s hs
  cases hload.symm.trans hcombined.loaded
  have hreordered : Reordered given [.monochrome, .config "deep.yml", .depth "20"] :=
    ⟨by decide, by decide, by decide⟩
  refine ⟨⟨s, hs, ?_, ?_⟩, ?_, ?_⟩
  · exact (Option.some.inj ((by decide : depth? "20" = some 20).symm.trans hcombined.depth)).symm
  · simpa using hcombined.trace
  · exact (hobeys.reordered _ hreordered).2 _ _ ["x.lox"] (by decide +kernel) (by decide +kernel)
  · exact (hstopped.failed [] "gone.yml" [] .missing rfl (by simp) rfl).2 _ [] (by decide +kernel)

end LoxLang.CommandLine
