/-!
# Options of a run

How deep calls may nest, whether diagnostics are coloured, and whether run-time errors list the calls that
were active. A depth that is not positive means the usual one, and none goes beyond the limit.

Main statement: `normalized_depth`, that an effective depth lies between 1 and the limit.
-/

namespace LoxLang

/-- The options of a run. -/
structure Options where
  maxCallDepth : Int := 1024
  color : Bool := true
  trace : Bool := false
  deriving DecidableEq, Repr

namespace Options

/-- The call depth when none is asked for. -/
def usualDepth : Int := 1024

/-- The deepest nesting of calls that can be asked for. -/
def depthLimit : Int := 10000

/-- A call depth within its bounds. -/
def effectiveDepth (depth : Int) : Int :=
  if depth ≤ 0 then usualDepth else if depthLimit < depth then depthLimit else depth

/-- The options with their call depth within its bounds. -/
def normalized (o : Options) : Options := { o with maxCallDepth := effectiveDepth o.maxCallDepth }

/-- Whether a call may begin while this many are active. -/
def allowsCall (o : Options) (active : Nat) : Bool := (active : Int) < o.maxCallDepth

theorem normalized_depth (o : Options) :
    1 ≤ o.normalized.maxCallDepth ∧ o.normalized.maxCallDepth ≤ depthLimit := by
  simp only [normalized, effectiveDepth, usualDepth, depthLimit]
  by_cases low : o.maxCallDepth ≤ 0
  · simp [low]
  · by_cases high : 10000 < o.maxCallDepth <;> simp only [low, high, if_true, if_false] <;> omega

end Options

end LoxLang
