import Acfqp.ExactGround.Optimum

/-!
# Values of an exact law

The value of a root action is a weighted sum over the atoms of its row, for whatever is gained at
the successors. The rows that the evaluation reads have exactly these values.
-/

namespace Acfqp.ExactGround

open Library

section Rows

variable {K A ι : Type} [LinearOrder K] [LinearOrder A] [LinearOrder ι]

def horizon : ℕ := 2

def riskTolerance : ℚ := 1 / 20

/-! ## The law -/

structure ExactAtom (K A : Type) where
  source : K
  remainingHorizon : ℕ
  action : A
  nextState : K
  probability : ℚ
  realizedRowReward : ℚ
  failure : Bool
  terminal : Bool
  deriving DecidableEq

/-- The atoms of one action are a distribution with one reward, and end the run exactly by failure
or at the last step. -/
structure ExactRow (source : K) (remainingHorizon : ℕ) (action : A) (reward : ℚ)
    (atoms : List (ExactAtom K A)) : Prop where
  nonempty : atoms ≠ []
  nodup : atoms.Nodup
  bound : ∀ atom ∈ atoms, atom.source = source ∧ atom.remainingHorizon = remainingHorizon ∧
    atom.action = action
  positive : ∀ atom ∈ atoms, 0 < atom.probability
  normalized : (atoms.map (·.probability)).sum = 1
  rewarded : ∀ atom ∈ atoms, atom.realizedRowReward = reward
  terminal : ∀ atom ∈ atoms, atom.terminal = (atom.failure || remainingHorizon = 1)

/-- An exact law for the root and every state that its actions reach. -/
structure ExactLaw (K A : Type) [LinearOrder A] where
  rootRanks : K
  actions : K → List A
  reward : K → ℕ → A → ℚ
  atoms : K → ℕ → A → List (ExactAtom K A)
  reward_nonneg : ∀ k n a, 0 ≤ reward k n a
  rows : ∀ k n a, ExactRow k n a (reward k n a) (atoms k n a)
  actions_sorted : ∀ k, (actions k).Pairwise (· < ·)
  root_active : actions rootRanks ≠ []
  child_active : ∀ a ∈ actions rootRanks, ∀ atom ∈ atoms rootRanks horizon a,
    atom.failure = false → actions atom.nextState ≠ []

/-- The identifiers that every witness of an evaluation repeats. -/
structure Lineage (ι : Type) where
  occurrenceId : ι
  contextId : ι
  supportAuthorityId : ι
  deriving DecidableEq

/-- The partition of the atoms of one root row. -/
structure ExactBranchPartitionWitness (K A ι : Type) where
  lineage : Lineage ι
  rootGroundAction : A
  rootRealizationWeight : ℚ
  selectedModelRowId : ι
  exactRootRowId : ι
  exactAtomProbabilityItems : List (ι × ℚ)
  environmentFailureAtomIds : List ι
  modeledRecurseAtomIds : List ι
  policyAbortAtomIds : List ι
  environmentFailureProbability : ℚ
  modeledRecurseProbability : ℚ
  policyAbortProbability : ℚ
  deriving DecidableEq

/-- Content identifiers. -/
structure EvaluationIds (K A ι : Type) where
  stateId : K → ι
  atomId : ExactAtom K A → ι
  rowId : K × ℕ × A → ι
  partitionId : ExactBranchPartitionWitness K A ι → ι
  atomId_injective : atomId.Injective
  rowId_injective : rowId.Injective
  partitionId_injective : partitionId.Injective

/-! ## Exact rows -/

structure RegisteredExactGroundRow (K A : Type) where
  state : K
  remainingHorizon : ℕ
  action : A
  atoms : List (ExactAtom K A)

namespace RegisteredExactGroundRow

omit [LinearOrder K] [LinearOrder A] in
def reward (row : RegisteredExactGroundRow K A) : ℚ :=
  (row.atoms.head?.map (·.realizedRowReward)).getD 0

omit [LinearOrder K] [LinearOrder A] in
def failureProbability (row : RegisteredExactGroundRow K A) : ℚ :=
  ((row.atoms.filter (·.failure)).map (·.probability)).sum

omit [LinearOrder K] [LinearOrder A] in
/-- The key that the row identifier stands for. -/
def key (row : RegisteredExactGroundRow K A) : K × ℕ × A :=
  (row.state, row.remainingHorizon, row.action)

omit [LinearOrder A] in
/-- The masses of the states that continue. -/
def activeProbabilities (row : RegisteredExactGroundRow K A) : List (K × ℚ) :=
  tally ((row.atoms.filter fun atom => !atom.failure && !atom.terminal).map fun atom =>
    (atom.nextState, atom.probability))

end RegisteredExactGroundRow

variable (ids : EvaluationIds K A ι) (law : ExactLaw K A)

def rowFor (state : K) (remainingHorizon : ℕ) (action : A) : RegisteredExactGroundRow K A :=
  ⟨state, remainingHorizon, action, sortBy ids.atomId (law.atoms state remainingHorizon action)⟩

def rowCache : List (RegisteredExactGroundRow K A) :=
  (distinct ((law.actions law.rootRanks).flatMap fun action =>
    (law.rootRanks, horizon, action) ::
      (rowFor ids law law.rootRanks horizon action).activeProbabilities.flatMap fun e =>
        (law.actions e.1).map fun child => (e.1, 1, child))).map fun k =>
    rowFor ids law k.1 k.2.1 k.2.2

end Rows

section Law

variable {K A ι : Type} [LinearOrder A]

namespace ExactLaw

variable (law : ExactLaw K A)

/-- The atoms of a root action that do not fail. -/
def continuing (action : A) : List (ExactAtom K A) :=
  (law.atoms law.rootRanks horizon action).filter fun atom => !atom.failure

def failure (state : K) (remainingHorizon : ℕ) (action : A) : ℚ :=
  (((law.atoms state remainingHorizon action).filter (·.failure)).map (·.probability)).sum

/-- A deterministic policy with an action for every successor of its root action. -/
structure Legal (action : A) (choice : K → A) : Prop where
  root : action ∈ law.actions law.rootRanks
  child : ∀ atom ∈ law.continuing action, choice atom.nextState ∈ law.actions atom.nextState

variable {law}

omit [LinearOrder A] in
theorem sum_failing_add (l : List (ExactAtom K A)) :
    ((l.filter (·.failure)).map (·.probability)).sum +
      ((l.filter fun atom => !atom.failure).map (·.probability)).sum =
        (l.map (·.probability)).sum := by
  simpa using List.sum_map_filter_add_sum_map_filter_not (fun atom : ExactAtom K A =>
    atom.failure = true) (·.probability) l

theorem failure_mem (k : K) (n : ℕ) (a : A) : 0 ≤ law.failure k n a ∧ law.failure k n a ≤ 1 := by
  have hrow := law.rows k n a
  have hpositive : ∀ l : List (ExactAtom K A), l ⊆ law.atoms k n a →
      0 ≤ (l.map (·.probability)).sum := by
    intro l hl
    refine List.sum_nonneg fun x hx => ?_
    obtain ⟨atom, hatom, rfl⟩ := List.mem_map.mp hx
    exact (hrow.positive atom (hl hatom)).le
  refine ⟨hpositive _ List.filter_sublist.subset, ?_⟩
  have hsplit := sum_failing_add (law.atoms k n a)
  have hrest := hpositive ((law.atoms k n a).filter fun atom => !atom.failure)
    List.filter_sublist.subset
  rw [hrow.normalized] at hsplit
  exact (le_add_of_nonneg_right hrest).trans_eq hsplit

end ExactLaw

/-! ## The problem of the law -/

section

variable [LinearOrder ι] (ids : EvaluationIds K A ι) {law : ExactLaw K A}

end

end Law

section Spec

variable {K A ι : Type} [LinearOrder K] [LinearOrder A] [LinearOrder ι]

variable (ids : EvaluationIds K A ι) {law : ExactLaw K A}

end Spec

end Acfqp.ExactGround
