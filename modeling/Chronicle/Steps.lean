/-!
# Steps that may fail halfway

A step changes a state and answers, or fails with an error. What was changed before a failure stays
changed: the state that comes back is the one the failure left.
-/

namespace Chronicle

/-- Steps on a state; what an earlier step did stays done when a later one fails. -/
abbrev Steps (σ ε : Type) := ExceptT ε (StateM σ)

namespace Steps

variable {σ ε α : Type}

/-- The step that a function from states describes. -/
def of (f : σ → Except ε α × σ) : Steps σ ε α := ExceptT.mk f

/-- The answer or error of some steps, and the state they leave. -/
def runOn (s : σ) (steps : Steps σ ε α) : Except ε α × σ := (ExceptT.run steps).run s

end Steps

end Chronicle
