import Acfqp.Library.Mixture
import Acfqp.Library.Totals
import Acfqp.Robust.Audit

/-!
# True kernels

What an interval model stands for: a kernel of two steps that lands at registered destinations, or
at states that the model does not register. A ground policy chooses from the history, and may
randomize. A kernel is consistent with a model when every row of the model contains its law, its
rewards and, within the ceiling, the total reward of every trajectory.
-/

namespace Acfqp.Robust

open Library

variable {σ : Type}

/-! ## Kernels -/

/-- Where a transition lands: at a registered destination, or at an unregistered state. -/
inductive Landing (σ : Type) where
  | named (destinationId : String)
  | hidden (state : σ)

structure Outcome (σ : Type) where
  probability : ℚ
  reward : ℚ
  landing : Landing σ

/-- The outcomes of every state, horizon and action, and what unregistered states are worth. -/
structure TrueKernel (σ : Type) where
  outcomes : RowKey → List (Outcome σ)
  /-- The reward of the last step from an unregistered state. -/
  hiddenReward : σ → String → ℚ
  /-- The failure probability of the last step from an unregistered state. -/
  hiddenFailure : σ → String → ℚ
  /-- The failure probability of a trajectory that ends in an unregistered state. -/
  hiddenFailed : σ → ℚ

/-- Everything unregistered is the OTHER destination of the row. -/
def Landing.place (row : IntervalSimplexRow) : Landing σ → String
  | .named destinationId => destinationId
  | .hidden _ => row.otherDestinationId

/-- The probability of a destination of the row. -/
def landingMass (row : IntervalSimplexRow) (outcomes : List (Outcome σ)) (destinationId : String) :
    ℚ :=
  total destinationId (outcomes.map fun o => (o.landing.place row, o.probability))

def meanOutcome (outcomes : List (Outcome σ)) (f : Outcome σ → ℚ) : ℚ :=
  (outcomes.map fun o => o.probability * f o).sum

namespace PartialSupportIntervalModel

def activeState (model : PartialSupportIntervalModel) (destinationId : String) : Option String :=
  (model.destination destinationId).bind RegisteredDestination.stateId

/-- Whether a trajectory that ends at a destination has failed. -/
def terminalFailure (model : PartialSupportIntervalModel) (destinationId : String) : ℚ :=
  match (model.destination destinationId).map RegisteredDestination.category with
  | some (.activeState _) | some .successTerminal => 0
  | _ => 1

end PartialSupportIntervalModel

section Kernel

variable (model : PartialSupportIntervalModel) (kernel : TrueKernel σ)

def TrueKernel.endFailure : Landing σ → ℚ
  | .named destinationId => model.terminalFailure destinationId
  | .hidden state => kernel.hiddenFailed state

def TrueKernel.lastReward (stateId actionId : String) : ℚ :=
  meanOutcome (kernel.outcomes (stateId, 1, actionId)) Outcome.reward

def TrueKernel.lastFailure (stateId actionId : String) : ℚ :=
  meanOutcome (kernel.outcomes (stateId, 1, actionId)) fun o => kernel.endFailure model o.landing

/-- The reward after the first step, when the actions of the last step follow a law. -/
def TrueKernel.nextReward (law : List (String × ℚ)) : Landing σ → ℚ
  | .hidden state => mixture law (kernel.hiddenReward state)
  | .named destinationId => (model.activeState destinationId).elim 0 fun stateId =>
      mixture law (kernel.lastReward stateId)

def TrueKernel.nextFailure (law : List (String × ℚ)) : Landing σ → ℚ
  | .hidden state => mixture law (kernel.hiddenFailure state)
  | .named destinationId => (model.activeState destinationId).elim
      (model.terminalFailure destinationId) fun stateId =>
        mixture law (kernel.lastFailure model stateId)

/-! ## Ground policies -/

/-- A policy of two steps: the law of the root action, and of the next action after an action and
its outcome. -/
structure GroundPolicy (σ : Type) where
  root : List (String × ℚ)
  next : String → Outcome σ → List (String × ℚ)

def TrueKernel.rootReward (policy : GroundPolicy σ) (actionId : String) : ℚ :=
  meanOutcome (kernel.outcomes (model.rootStateId, 2, actionId)) fun o =>
    o.reward + kernel.nextReward model (policy.next actionId o) o.landing

def TrueKernel.rootFailure (policy : GroundPolicy σ) (actionId : String) : ℚ :=
  meanOutcome (kernel.outcomes (model.rootStateId, 2, actionId)) fun o =>
    kernel.nextFailure model (policy.next actionId o) o.landing

def TrueKernel.trueReturn (policy : GroundPolicy σ) : ℚ :=
  mixture policy.root (kernel.rootReward model policy)

def TrueKernel.trueFailure (policy : GroundPolicy σ) : ℚ :=
  mixture policy.root (kernel.rootFailure model policy)

def HasAction (stateId actionId : String) : Prop :=
  ∃ catalogue, model.catalogue stateId = some catalogue ∧
    actionId ∈ catalogue.actions.map CatalogueAction.actionId

/-- A policy takes observed actions at the root and at active states, and any actions elsewhere. -/
structure GroundPolicy.Legal (policy : GroundPolicy σ) : Prop where
  root : IsLaw (HasAction model model.rootStateId) policy.root
  next : ∀ actionId o destinationId stateId, o.landing = .named destinationId →
    model.activeState destinationId = some stateId →
      IsLaw (HasAction model stateId) (policy.next actionId o)
  hidden : ∀ actionId o state, o.landing = .hidden state →
    IsLaw (fun _ => True) (policy.next actionId o)

/-! ## The audited policy -/

def RobustSolverKind.scope : RobustSolverKind → PolicyScope
  | .groundDirect => .groundState
  | .quotient => .quotientCell

def RobustSolverKind.scopeKey (solverKind : RobustSolverKind) (catalogue : StateActionCatalogue) :
    String :=
  match solverKind with
  | .groundDirect => catalogue.stateId
  | .quotient => catalogue.stateCoordinateKey

def RobustPlanAudit.assigned (audit : RobustPlanAudit) (scope : PolicyScope) (scopeKey : String)
    (remainingHorizon : ℕ) : Option String :=
  (audit.assignments.find? fun item => item.scope = scope ∧ item.scopeKey = scopeKey ∧
    item.remainingHorizon = remainingHorizon).map RobustPolicyAssignment.selectedActionKey

/-- How a solver realizes an assigned action at a state: as that action, or by its concretizer. -/
def realize (solverKind : RobustSolverKind) (catalogue : StateActionCatalogue)
    (action : String) : List (String × ℚ) :=
  match solverKind with
  | .groundDirect => sure ℚ action
  | .quotient => (model.concretizer (catalogue.stateCoordinateKey, catalogue.stateId, action)).elim
      [] fun entry => uniform ℚ entry.groundActionIds

/-- The law of actions that an audit selects at a state. -/
def RobustPlanAudit.decision (audit : RobustPlanAudit) (stateId : String) (remainingHorizon : ℕ) :
    List (String × ℚ) :=
  (model.catalogue stateId).elim [] fun catalogue =>
    (audit.assigned audit.solverKind.scope (audit.solverKind.scopeKey catalogue)
      remainingHorizon).elim [] (realize model audit.solverKind catalogue)

/-- The policy does what the audit selects. Elsewhere, which the audit does not decide, it does
anything. -/
structure GroundPolicy.Follows (audit : RobustPlanAudit) (policy : GroundPolicy σ) : Prop where
  root : policy.root = audit.decision model model.rootStateId 2
  next : ∀ actionId o destinationId stateId, o.landing = .named destinationId →
    model.activeState destinationId = some stateId →
      policy.next actionId o = audit.decision model stateId 1
  hidden : ∀ actionId o state, o.landing = .hidden state →
    IsLaw (fun _ => True) (policy.next actionId o)

/-- The row contains the law and the rewards of the outcomes. -/
structure ConsistentRow (row : IntervalSimplexRow) (outcomes : List (Outcome σ)) : Prop where
  probability_pos : ∀ o ∈ outcomes, 0 < o.probability
  listed : ∀ o ∈ outcomes,
    o.landing.place row ∈ row.masses.map IntervalDestinationMass.destinationId
  simplex : InSimplex row.masses (landingMass row outcomes)
  reward : ∀ o ∈ outcomes, row.rewardLower ≤ o.reward ∧ o.reward ≤ row.rewardUpper

/-- The rewards that a last step can add. -/
def TrueKernel.continuations : Landing σ → Set ℚ
  | .hidden state => Set.range (kernel.hiddenReward state)
  | .named destinationId => (model.activeState destinationId).elim {0} fun stateId =>
      {reward | ∃ actionId, HasAction model stateId actionId ∧
        ∃ o ∈ kernel.outcomes (stateId, 1, actionId), o.reward = reward}

/-- The kernel is one of those that the model stands for. -/
structure Consistent (threshold : RobustThresholdProfile) : Prop where
  row : ∀ row ∈ model.rows, ConsistentRow row (kernel.outcomes row.rowKey)
  hiddenReward_nonneg : ∀ state actionId, 0 ≤ kernel.hiddenReward state actionId
  hiddenFailure_le_one : ∀ state actionId, kernel.hiddenFailure state actionId ≤ 1
  hiddenFailed_le_one : ∀ state, kernel.hiddenFailed state ≤ 1
  total_le : ∀ row ∈ model.rows, row.remainingHorizon = 2 → ∀ o ∈ kernel.outcomes row.rowKey,
    ∀ reward ∈ kernel.continuations model o.landing, o.reward + reward ≤ threshold.rewardCeiling

end Kernel

end Acfqp.Robust
