import Acfqp.Library.Search
import Acfqp.Recovery.Circuit

/-!
# Counterfactual certificates

One exact ambiguity-erasure counterfactual of a proof circuit: a discharged gate takes the
optimistic extremum of its realizations in place of the pessimistic one. The bounds at the root
only improve with the discharge set, so that whatever certifies the plan still does when more
gates are discharged.
-/

namespace Acfqp.Recovery

open Library

/-- The two certificate channels. -/
inductive Channel where
  | failureUpper
  | rewardLower
  deriving DecidableEq, Repr

namespace Channel

def text : Channel → String
  | failureUpper => "failure_upper"
  | rewardLower => "reward_lower"

/-- `_CHANNELS`, in the order of their texts. -/
def all : List Channel := [failureUpper, rewardLower]

/-- What a realization itself contributes. -/
def immediate : Channel → CausalRealization → ℚ
  | failureUpper, r => r.immediateFailure
  | rewardLower, r => r.immediateReward

def pessimistic : Channel → List ℚ → Option ℚ
  | failureUpper, raw => raw.max?
  | rewardLower, raw => raw.min?

def optimistic : Channel → List ℚ → Option ℚ
  | failureUpper, raw => raw.min?
  | rewardLower, raw => raw.max?

/-- The second value is no worse than the first one. -/
def Improves : Channel → ℚ → ℚ → Prop
  | failureUpper, x, y => y ≤ x
  | rewardLower, x, y => x ≤ y

end Channel

/-- A monotone root certificate threshold. -/
structure CertificateObligation where
  channel : Channel
  threshold : ℚ

def CertificateObligation.passes (o : CertificateObligation) (value : ℚ) : Bool :=
  match o.channel with
  | .failureUpper => value ≤ o.threshold
  | .rewardLower => o.threshold ≤ value

def CertificateObligation.deficit (o : CertificateObligation) (value : ℚ) : ℚ :=
  match o.channel with
  | .failureUpper => max (value - o.threshold) 0
  | .rewardLower => max (o.threshold - value) 0

/-- The exact value and the extremizers of a gate in one channel. -/
structure NodeChannelValue where
  nodeId : String
  channel : Channel
  pessimisticValue : ℚ
  optimisticValue : ℚ
  selectedValue : ℚ
  residualWidth : ℚ
  activeRealizationIds : List String
  discharged : Bool

/-- One exact evaluation of an ambiguity-discharge set. -/
structure CounterfactualCertificate where
  dischargedNodeIds : List String
  rootValues : List (Channel × ℚ)
  deficits : List (Channel × ℚ)
  failedChannels : List Channel
  activeNodeIds : List (Channel × List String)
  eligibleNodeIds : List String
  nodeValues : List NodeChannelValue

def CounterfactualCertificate.certified (c : CounterfactualCertificate) : Bool :=
  c.failedChannels.isEmpty

def CounterfactualCertificate.rootValue (c : CounterfactualCertificate) (channel : Channel) :
    Except PyError ℚ :=
  orRaise (c.rootValues.lookup channel) (.keyError (pyRepr channel.text))

/-! ## The value of a gate -/

def CausalProofCircuit.node (circuit : CausalProofCircuit) (nodeId : String) :
    Except PyError CausalProofNode :=
  orRaise (circuit.nodes.find? fun node => node.nodeId = nodeId) (.keyError (pyRepr nodeId))

def branchValue (value : String → Except PyError NodeChannelValue) (channel : Channel)
    (r : CausalRealization) : Except PyError (String × ℚ) := do
  let terms ← r.successors.mapM fun successor => do
    let v ← value successor.nodeId
    .ok (successor.probability * v.selectedValue)
  .ok (r.realizationId, channel.immediate r + terms.sum)

/-- The extremum that the gate selects, and every realization that attains it. -/
def gateValue (discharged : List String) (channel : Channel) (nodeId : String)
    (branchValues : List (String × ℚ)) : Except PyError NodeChannelValue := do
  let rawValues := branchValues.map Prod.snd
  let pessimistic ← orRaise (channel.pessimistic rawValues)
    (.valueError "max() iterable argument is empty")
  let optimistic ← orRaise (channel.optimistic rawValues)
    (.valueError "min() iterable argument is empty")
  let isDischarged := decide (nodeId ∈ discharged)
  let selected := if isDischarged then optimistic else pessimistic
  .ok ⟨nodeId, channel, pessimistic, optimistic, selected, |pessimistic - optimistic|,
    (branchValues.filter fun branch => branch.2 = selected).map Prod.fst, isDischarged⟩

/-- The nested function `value`, within a depth of calls. -/
def nodeValue (circuit : CausalProofCircuit) (discharged : List String) (channel : Channel) :
    ℕ → String → Except PyError NodeChannelValue
  | 0, _ => .error (.runtimeError "maximum recursion depth exceeded")
  | depth + 1, nodeId => do
    let node ← circuit.node nodeId
    let branchValues ← node.realizations.mapM
      (branchValue (nodeValue circuit discharged channel depth) channel)
    gateValue discharged channel nodeId branchValues

def rootSum (circuit : CausalProofCircuit) (value : String → Except PyError NodeChannelValue) :
    Except PyError ℚ := do
  let terms ← circuit.roots.mapM fun root => do
    let v ← value root.nodeId
    .ok (root.probability * v.selectedValue)
  .ok terms.sum

def obligationRoot (circuit : CausalProofCircuit) (discharged : List String)
    (o : CertificateObligation) : Except PyError (CertificateObligation × ℚ) := do
  let root ← rootSum circuit (nodeValue circuit discharged o.channel circuit.nodes.length)
  .ok (o, root)

/-! ## The active derivation -/

def activeSuccessors (circuit : CausalProofCircuit) (memo : List NodeChannelValue)
    (channel : Channel) (nodeId : String) : List String :=
  match circuit.nodes.find? fun node => node.nodeId = nodeId,
    memo.find? fun v => v.nodeId = nodeId ∧ v.channel = channel with
  | some node, some v => (node.realizations.filter fun r =>
      r.realizationId ∈ v.activeRealizationIds).flatMap fun r =>
        r.successors.map CausalSuccessor.nodeId
  | _, _ => []

def activeNodes (circuit : CausalProofCircuit) (memo : List NodeChannelValue)
    (channel : Channel) : Except PyError (Channel × List String) := do
  let next := activeSuccessors circuit memo channel
  let roots := circuit.roots.map CausalRoot.nodeId
  let fuel := roots.length + pushes next (circuit.nodes.map CausalProofNode.nodeId) [] + 1
  let marked ← orRaise (sweep next fuel [] roots.reverse) (.runtimeError "the search did not end")
  .ok (channel, sortBy id marked)

/-- Whether a node can be discharged to some effect in the channel. -/
def eligible (circuit : CausalProofCircuit) (memo : List NodeChannelValue)
    (discharged : List String) (channel : Channel) (nodeId : String) : Bool :=
  (circuit.nodes.any fun node => node.nodeId = nodeId && node.recoverable) &&
    nodeId ∉ discharged &&
      memo.any fun v => v.nodeId = nodeId && v.channel = channel && 0 < v.residualWidth

def failedChannels (roots : List (CertificateObligation × ℚ)) : List Channel :=
  (roots.filter fun r => !r.1.passes r.2).map fun r => r.1.channel

/-- The record that the evaluation returns. -/
def counterfactualCertificate (circuit : CausalProofCircuit) (discharged : List String)
    (roots : List (CertificateObligation × ℚ)) (memo : List NodeChannelValue)
    (active : List (Channel × List String)) : CounterfactualCertificate where
  dischargedNodeIds := discharged
  rootValues := roots.map fun r => (r.1.channel, r.2)
  deficits := roots.map fun r => (r.1.channel, r.1.deficit r.2)
  failedChannels := failedChannels roots
  activeNodeIds := active
  eligibleNodeIds := sortBy id (distinct (active.flatMap fun entry =>
    entry.2.filter (eligible circuit memo discharged entry.1)))
  nodeValues := memo

/-- Evaluate one exact ambiguity-erasure counterfactual. Every node has a value in both channels,
so it makes no difference that the source computes them when they are first needed. -/
def evaluateCounterfactualCertificate (circuit : CausalProofCircuit)
    (obligations : List CertificateObligation) (dischargedNodeIds : List String) :
    Except PyError CounterfactualCertificate := do
  let ordered := sortBy (fun o => o.channel.text) obligations
  require (ordered ≠ []) (.valueError "at least one certificate obligation is required")
  require (ordered.map CertificateObligation.channel).Nodup
    (.valueError "certificate obligations contain duplicate channels")
  let discharged := sortBy id (distinct dischargedNodeIds)
  let unknown := discharged.filter fun id => id ∉ circuit.nodes.map CausalProofNode.nodeId
  require (unknown = [])
    (.valueError s!"discharge set contains unknown nodes: {pyReprList unknown}")
  let roots ← ordered.mapM (obligationRoot circuit discharged)
  let values ← circuit.nodes.mapM fun node => Channel.all.mapM fun channel =>
    nodeValue circuit discharged channel circuit.nodes.length node.nodeId
  let memo := values.flatten
  let active ← (failedChannels roots).mapM (activeNodes circuit memo)
  .ok (counterfactualCertificate circuit discharged roots memo active)

/-! ## Improvement -/

namespace Channel

variable {channel : Channel} {x x' y y' : ℚ} {l l' : List ℚ}

theorem Improves.refl (x : ℚ) : channel.Improves x x := by cases channel <;> exact le_refl x

theorem Improves.trans {z : ℚ} (h : channel.Improves x y) (h' : channel.Improves y z) :
    channel.Improves x z := by
  cases channel
  · exact le_trans h' h
  · exact le_trans h h'

theorem Improves.add (h : channel.Improves x y) (h' : channel.Improves x' y') :
    channel.Improves (x + x') (y + y') := by
  cases channel <;> exact add_le_add h h'

theorem Improves.mul {p : ℚ} (hp : 0 ≤ p) (h : channel.Improves x y) :
    channel.Improves (p * x) (p * y) := by
  cases channel <;> exact mul_le_mul_of_nonneg_left h hp

theorem Improves.sum (h : List.Forall₂ channel.Improves l l') :
    channel.Improves l.sum l'.sum := by
  induction h with
  | nil => exact .refl _
  | cons hxy _ ih => simpa using hxy.add ih

theorem Improves.max? (h : List.Forall₂ (· ≤ ·) l l') (hx : l.max? = some x)
    (hy : l'.max? = some y) : x ≤ y := by
  obtain ⟨z, hz, hxz⟩ := forall₂_exists_right h (max?_mem hx)
  exact hxz.trans (le_max? hy hz)

theorem Improves.min? (h : List.Forall₂ (· ≤ ·) l l') (hx : l.min? = some x)
    (hy : l'.min? = some y) : x ≤ y := by
  obtain ⟨z, hz, hzy⟩ := forall₂_exists_right h.flip (min?_mem hy)
  exact (min?_le hx hz).trans hzy

theorem pessimistic_improves (h : List.Forall₂ channel.Improves l l')
    (hx : channel.pessimistic l = some x) (hy : channel.pessimistic l' = some y) :
    channel.Improves x y := by
  cases channel with
  | failureUpper => exact Improves.max? h.flip hy hx
  | rewardLower => exact Improves.min? h hx hy

theorem optimistic_improves (h : List.Forall₂ channel.Improves l l')
    (hx : channel.optimistic l = some x) (hy : channel.optimistic l' = some y) :
    channel.Improves x y := by
  cases channel with
  | failureUpper => exact Improves.min? h.flip hy hx
  | rewardLower => exact Improves.max? h hx hy

theorem optimistic_le (hx : channel.pessimistic l = some x) (hy : channel.optimistic l = some y) :
    channel.Improves x y := by
  cases channel with
  | failureUpper => exact le_max? hx (min?_mem hy)
  | rewardLower => exact min?_le hx (max?_mem hy)

theorem exists_pessimistic (hl : l ≠ []) : ∃ x, channel.pessimistic l = some x := by
  cases channel with
  | failureUpper => exact Option.isSome_iff_exists.mp (List.isSome_max?_of_ne_nil hl)
  | rewardLower => exact Option.isSome_iff_exists.mp (List.isSome_min?_of_ne_nil hl)

theorem exists_optimistic (hl : l ≠ []) : ∃ x, channel.optimistic l = some x := by
  cases channel with
  | failureUpper => exact Option.isSome_iff_exists.mp (List.isSome_min?_of_ne_nil hl)
  | rewardLower => exact Option.isSome_iff_exists.mp (List.isSome_max?_of_ne_nil hl)

end Channel

theorem CertificateObligation.passes_of_improves {o : CertificateObligation} {x y : ℚ}
    (h : o.channel.Improves x y) (hx : o.passes x) : o.passes y := by
  unfold CertificateObligation.passes at hx ⊢
  cases hc : o.channel with
  | failureUpper =>
    rw [hc] at h hx
    simpa using le_trans h (by simpa using hx)
  | rewardLower =>
    rw [hc] at h hx
    simpa using le_trans (by simpa using hx) h

/-! ## The value of a gate improves with the discharge set -/

section

variable {circuit : CausalProofCircuit} {channel : Channel} {S T : List String}

/-- Both evaluations return, the second no worse than the first. -/
def ValuesImprove (channel : Channel) (value value' : String → Except PyError NodeChannelValue)
    (nodeId : String) : Prop :=
  ∃ v w, value nodeId = .ok v ∧ value' nodeId = .ok w ∧
    channel.Improves v.selectedValue w.selectedValue

theorem branchValue_improves {value value' : String → Except PyError NodeChannelValue}
    {r : CausalRealization}
    (h : ∀ successor ∈ r.successors, ValuesImprove channel value value' successor.nodeId) :
    ∃ b b', branchValue value channel r = .ok b ∧ branchValue value' channel r = .ok b' ∧
      channel.Improves b.2 b'.2 := by
  obtain ⟨terms, terms', hterms, hterms', himprove⟩ := mapM_related
    (R := channel.Improves)
    (f := fun s : CausalSuccessor => do
      let v ← value s.nodeId
      .ok (s.probability * v.selectedValue))
    (g := fun s : CausalSuccessor => do
      let v ← value' s.nodeId
      .ok (s.probability * v.selectedValue))
    (l := r.successors) (fun s hs => by
      obtain ⟨v, w, hv, hw, hvw⟩ := h s hs
      exact ⟨_, _, bind_of_ok hv, bind_of_ok hw, hvw.mul s.positive.le⟩)
  refine ⟨_, _, bind_of_ok hterms, bind_of_ok hterms', ?_⟩
  exact (Channel.Improves.refl _).add (.sum himprove)

/-- A gate with realizations has both extrema, and selects by its discharge. -/
theorem gateValue_returns {l : List (String × ℚ)} (hl : l ≠ []) (S : List String)
    (channel : Channel) (nodeId : String) :
    ∃ x y v, channel.pessimistic (l.map Prod.snd) = some x ∧
      channel.optimistic (l.map Prod.snd) = some y ∧ gateValue S channel nodeId l = .ok v ∧
      v.selectedValue = if nodeId ∈ S then y else x := by
  have hraw : l.map Prod.snd ≠ [] := by simpa using hl
  obtain ⟨x, hx⟩ := @Channel.exists_pessimistic channel _ hraw
  obtain ⟨y, hy⟩ := @Channel.exists_optimistic channel _ hraw
  have hrun : ∃ v, gateValue S channel nodeId l = .ok v ∧
      v.selectedValue = if nodeId ∈ S then y else x := by
    simp [gateValue, hx, hy, orRaise, bind, Except.bind]
  obtain ⟨v, hv, hselected⟩ := hrun
  exact ⟨x, y, v, hx, hy, hv, hselected⟩

theorem gateValue_improves (nodeId : String) (hST : nodeId ∈ S → nodeId ∈ T)
    {l l' : List (String × ℚ)} (hl : l ≠ [])
    (h : List.Forall₂ (fun b b' => channel.Improves b.2 b'.2) l l') :
    ∃ v w, gateValue S channel nodeId l = .ok v ∧ gateValue T channel nodeId l' = .ok w ∧
      channel.Improves v.selectedValue w.selectedValue := by
  have hraw : List.Forall₂ channel.Improves (l.map Prod.snd) (l'.map Prod.snd) := by
    simpa using h
  have hl' : l' ≠ [] := by
    rintro rfl
    cases h
    exact hl rfl
  obtain ⟨x, y, v, hx, hy, hv, hvs⟩ := gateValue_returns hl S channel nodeId
  obtain ⟨x', y', w, hx', hy', hw, hws⟩ := gateValue_returns hl' T channel nodeId
  refine ⟨v, w, hv, hw, ?_⟩
  rw [hvs, hws]
  by_cases hS : nodeId ∈ S
  · simpa [hS, hST hS] using Channel.optimistic_improves hraw hy hy'
  · by_cases hT : nodeId ∈ T
    · simpa [hS, hT] using
        (Channel.pessimistic_improves hraw hx hx').trans (Channel.optimistic_le hx' hy')
    · simpa [hS, hT] using Channel.pessimistic_improves hraw hx hx'

theorem CausalProofCircuit.node_eq_ok {nodeId : String} {node : CausalProofNode}
    (h : circuit.node nodeId = .ok node) : node ∈ circuit.nodes ∧ node.nodeId = nodeId := by
  have hfind := orRaise_eq_ok.mp h
  exact ⟨List.mem_of_find?_eq_some hfind, by simpa using List.find?_some hfind⟩

theorem CausalProofCircuit.node_returns {nodeId : String}
    (h : nodeId ∈ circuit.nodes.map CausalProofNode.nodeId) :
    ∃ node, circuit.nodes.find? (fun node => node.nodeId = nodeId) = some node := by
  obtain ⟨node, hnode, rfl⟩ := List.mem_map.mp h
  exact Option.isSome_iff_exists.mp (List.find?_isSome.mpr ⟨node, hnode, by simp⟩)

/-- By induction on the depth: below the gate both evaluations return and improve. -/
theorem nodeValue_improves (hST : ∀ id ∈ S, id ∈ T) (depth : ℕ) {nodeId : String}
    (hknown : nodeId ∈ circuit.nodes.map CausalProofNode.nodeId)
    (h : Within (dependencies circuit.nodes) depth nodeId) :
    ValuesImprove channel (nodeValue circuit S channel depth) (nodeValue circuit T channel depth)
      nodeId := by
  induction depth generalizing nodeId with
  | zero => cases h
  | succ depth ih =>
    obtain ⟨node, hfind⟩ := circuit.node_returns hknown
    have hnode : circuit.node nodeId = .ok node := orRaise_eq_ok.mpr hfind
    obtain ⟨hmem, rfl⟩ := CausalProofCircuit.node_eq_ok hnode
    have hbelow : ∀ r ∈ node.realizations, ∀ s ∈ r.successors,
        ValuesImprove channel (nodeValue circuit S channel depth)
          (nodeValue circuit T channel depth) s.nodeId := by
      intro r hr s hs
      refine ih (circuit.successors_known node hmem r hr s hs) (h _ ?_)
      unfold dependencies
      rw [hfind]
      exact List.mem_flatMap.mpr ⟨r, hr, List.mem_map_of_mem hs⟩
    obtain ⟨bs, bs', hbs, hbs', hrel⟩ := mapM_related
      (R := fun b b' : String × ℚ => channel.Improves b.2 b'.2)
      (f := branchValue (nodeValue circuit S channel depth) channel)
      (g := branchValue (nodeValue circuit T channel depth) channel)
      (fun r hr => branchValue_improves (hbelow r hr))
    have hne : bs ≠ [] := by
      rintro rfl
      have := (mapM_eq_ok.mp hbs).length_eq
      exact node.nonempty (List.length_eq_zero_iff.mp this)
    obtain ⟨v, w, hv, hw, hvw⟩ := gateValue_improves node.nodeId (hST _) hne hrel
    exact ⟨v, w, by simp [nodeValue, hnode, hbs, hv, bind, Except.bind],
      by simp [nodeValue, hnode, hbs', hw, bind, Except.bind], hvw⟩

/-- A proof circuit is acyclic, so a depth of its number of nodes is enough. -/
theorem CausalProofCircuit.within {nodeId : String}
    (h : nodeId ∈ circuit.nodes.map CausalProofNode.nodeId) :
    Within (dependencies circuit.nodes) circuit.nodes.length nodeId := by
  obtain ⟨order, hordered, hlength, hall⟩ := circuit.acyclic
  obtain ⟨node, hnode, rfl⟩ := List.mem_map.mp h
  exact (hordered.within (hall node hnode)).mono hlength

theorem rootSum_improves {value value' : String → Except PyError NodeChannelValue}
    (h : ∀ root ∈ circuit.roots, ValuesImprove channel value value' root.nodeId) :
    ∃ x y, rootSum circuit value = .ok x ∧ rootSum circuit value' = .ok y ∧
      channel.Improves x y := by
  obtain ⟨terms, terms', hterms, hterms', himprove⟩ := mapM_related
    (R := channel.Improves)
    (f := fun root : CausalRoot => do
      let v ← value root.nodeId
      .ok (root.probability * v.selectedValue))
    (g := fun root : CausalRoot => do
      let v ← value' root.nodeId
      .ok (root.probability * v.selectedValue))
    (l := circuit.roots) (fun root hroot => by
      obtain ⟨v, w, hv, hw, hvw⟩ := h root hroot
      exact ⟨_, _, bind_of_ok hv, bind_of_ok hw, hvw.mul root.positive.le⟩)
  exact ⟨_, _, bind_of_ok hterms, bind_of_ok hterms', .sum himprove⟩

theorem obligationRoot_improves (hST : ∀ id ∈ S, id ∈ T) (o : CertificateObligation) :
    ∃ r r', obligationRoot circuit S o = .ok r ∧ obligationRoot circuit T o = .ok r' ∧
      r.1 = o ∧ r'.1 = o ∧ o.channel.Improves r.2 r'.2 := by
  have hvalues : ∀ root ∈ circuit.roots, ValuesImprove o.channel
      (nodeValue circuit S o.channel circuit.nodes.length)
      (nodeValue circuit T o.channel circuit.nodes.length) root.nodeId := by
    intro root hroot
    have hknown := circuit.roots_known root hroot
    exact nodeValue_improves hST _ hknown (circuit.within hknown)
  obtain ⟨x, y, hx, hy, hxy⟩ := rootSum_improves hvalues
  exact ⟨_, _, bind_of_ok hx, bind_of_ok hy, rfl, rfl, hxy⟩

theorem activeSuccessors_known {memo : List NodeChannelValue} {a b : String}
    (h : b ∈ activeSuccessors circuit memo channel a) :
    b ∈ circuit.nodes.map CausalProofNode.nodeId := by
  unfold activeSuccessors at h
  split at h
  · rename_i node v hfind _
    obtain ⟨r, hr, hb⟩ := List.mem_flatMap.mp h
    obtain ⟨successor, hsuccessor, rfl⟩ := List.mem_map.mp hb
    exact circuit.successors_known node (List.mem_of_find?_eq_some hfind) r
      (List.mem_of_mem_filter hr) successor hsuccessor
  · cases h

theorem activeNodes_returns (circuit : CausalProofCircuit) (memo : List NodeChannelValue)
    (channel : Channel) : ∃ ids, activeNodes circuit memo channel = .ok (channel, ids) ∧
      ∀ id, id ∈ ids ↔ ∃ root ∈ circuit.roots, Relation.ReflTransGen
        (fun a b => b ∈ activeSuccessors circuit memo channel a) root.nodeId id := by
  obtain ⟨marked, hmarked, hswept⟩ := @sweep_returns _ _
    (activeSuccessors circuit memo channel) (circuit.nodes.map CausalProofNode.nodeId)
    (fun a _ b hb => activeSuccessors_known hb)
    ((circuit.roots.map CausalRoot.nodeId).length + pushes
      (activeSuccessors circuit memo channel) (circuit.nodes.map CausalProofNode.nodeId) [] + 1)
    [] (circuit.roots.map CausalRoot.nodeId).reverse (by simpa using circuit.roots_known)
    (by simp) (by simp)
  refine ⟨sortBy id marked, bind_of_ok (orRaise_eq_ok.mpr hmarked), fun id => ?_⟩
  rw [mem_sortBy]
  constructor
  · intro hid
    obtain ⟨s, hs, hreach⟩ := (hswept.sourced id hid).resolve_left (by simp)
    obtain ⟨root, hroot, rfl⟩ := List.mem_map.mp (List.mem_reverse.mp hs)
    exact ⟨root, hroot, hreach⟩
  · rintro ⟨root, hroot, hreach⟩
    induction hreach with
    | refl => exact hswept.swept _ (List.mem_reverse.mpr (List.mem_map_of_mem hroot))
    | tail _ hstep ih => exact hswept.closed _ ih _ hstep

end

section Certificates

variable {circuit : CausalProofCircuit} {obligations : List CertificateObligation}
  {S T : List String}

theorem evaluateCounterfactualCertificate_returns (hne : obligations ≠ [])
    (hnodup : (obligations.map CertificateObligation.channel).Nodup)
    (hS : ∀ id ∈ S, id ∈ circuit.nodes.map CausalProofNode.nodeId)
    {roots : List (CertificateObligation × ℚ)}
    (hroots : (sortBy (fun o => o.channel.text) obligations).mapM
      (obligationRoot circuit (sortBy id (distinct S))) = .ok roots) :
    ∃ c, evaluateCounterfactualCertificate circuit obligations S = .ok c ∧
      c.rootValues = roots.map (fun r => (r.1.channel, r.2)) ∧
      c.failedChannels = failedChannels roots := by
  have hordered : sortBy (fun o : CertificateObligation => o.channel.text) obligations ≠ [] := by
    simpa using hne
  have hunknown : (sortBy id (distinct S)).filter
      (fun id => id ∉ circuit.nodes.map CausalProofNode.nodeId) = [] := by
    refine List.filter_eq_nil_iff.mpr fun id hid => ?_
    simpa using hS id (mem_distinct.mp (mem_sortBy.mp hid))
  obtain ⟨values, hvalues⟩ := mapM_returns (l := circuit.nodes)
    (f := fun node => Channel.all.mapM fun channel =>
      nodeValue circuit (sortBy id (distinct S)) channel circuit.nodes.length node.nodeId)
    (fun node hnode => mapM_returns fun channel _ => by
      have hknown := List.mem_map_of_mem (f := CausalProofNode.nodeId) hnode
      obtain ⟨v, _, hv, _⟩ := @nodeValue_improves _ channel _ _ (fun _ => id) _ _ hknown
        (circuit.within hknown)
      exact ⟨v, hv⟩)
  obtain ⟨active, hactive⟩ := mapM_returns
    (l := failedChannels roots)
    (f := activeNodes circuit values.flatten) (fun channel _ => by
      obtain ⟨ids, hids, -⟩ := activeNodes_returns circuit values.flatten channel
      exact ⟨_, hids⟩)
  refine ⟨counterfactualCertificate circuit (sortBy id (distinct S)) roots values.flatten active,
    ?_, rfl, rfl⟩
  unfold evaluateCounterfactualCertificate
  simp only [bind_of_ok (require_eq_ok (u := ()).mpr hordered),
    bind_of_ok (require_eq_ok (u := ()).mpr (nodup_map_sortBy hnodup)),
    bind_of_ok (require_eq_ok (u := ()).mpr hunknown), bind_of_ok hroots, bind_of_ok hvalues,
    bind_of_ok hactive]

theorem lookup_improves {roots roots' : List (CertificateObligation × ℚ)}
    (h : List.Forall₂ (fun r r' => r.1 = r'.1 ∧ r.1.channel.Improves r.2 r'.2) roots roots')
    {channel : Channel} (hchannel : channel ∈ roots.map fun r => r.1.channel) :
    ∃ x y, (roots.map fun r => (r.1.channel, r.2)).lookup channel = some x ∧
      (roots'.map fun r => (r.1.channel, r.2)).lookup channel = some y ∧
      channel.Improves x y := by
  induction h with
  | nil => cases hchannel
  | @cons r r' rest rest' hr _ ih =>
    by_cases hc : channel = r.1.channel
    · subst hc
      exact ⟨r.2, r'.2, by simp, by simp [hr.1], hr.2⟩
    · obtain ⟨x, y, hx, hy, hxy⟩ := ih (by simpa [hc] using hchannel)
      have hc' : (channel == r.1.channel) = false := by simpa using hc
      refine ⟨x, y, ?_, ?_, hxy⟩
      · simpa [List.lookup_cons, hc'] using hx
      · simpa [List.lookup_cons, ← hr.1, hc'] using hy

theorem failedChannels_eq_nil {roots : List (CertificateObligation × ℚ)} :
    failedChannels roots = [] ↔ ∀ r ∈ roots, r.1.passes r.2 := by
  simp [failedChannels, List.filter_eq_nil_iff]

/-- Discharging more gates improves every bound at the root: the reward bound does not fall, the
failure bound does not rise, and a plan that is certified stays certified. -/
theorem evaluateCounterfactualCertificate_monotone (circuit : CausalProofCircuit)
    (obligations : List CertificateObligation) (S T : List String) (hne : obligations ≠ [])
    (hnodup : (obligations.map CertificateObligation.channel).Nodup) (hST : ∀ id ∈ S, id ∈ T)
    (hT : ∀ id ∈ T, ∃ node ∈ circuit.nodes, node.nodeId = id) :
    ∃ c c', evaluateCounterfactualCertificate circuit obligations S = .ok c ∧
      evaluateCounterfactualCertificate circuit obligations T = .ok c' ∧
      (∀ o ∈ obligations, ∃ x y, c.rootValue o.channel = .ok x ∧ c'.rootValue o.channel = .ok y ∧
        o.channel.Improves x y) ∧
      (c.certified → c'.certified) := by
  have hknown : ∀ id ∈ T, id ∈ circuit.nodes.map CausalProofNode.nodeId := by
    intro id hid
    obtain ⟨node, hnode, rfl⟩ := hT id hid
    exact List.mem_map_of_mem hnode
  have hdischarged : ∀ nodeId ∈ sortBy id (distinct S), nodeId ∈ sortBy id (distinct T) := by
    intro nodeId hid
    exact mem_sortBy.mpr (mem_distinct.mpr (hST nodeId (mem_distinct.mp (mem_sortBy.mp hid))))
  obtain ⟨roots, roots', hroots, hroots', hrel⟩ := mapM_related
    (R := fun r r' : CertificateObligation × ℚ => r.1 = r'.1 ∧ r.1.channel.Improves r.2 r'.2)
    (f := obligationRoot circuit (sortBy id (distinct S)))
    (g := obligationRoot circuit (sortBy id (distinct T)))
    (l := sortBy (fun o : CertificateObligation => o.channel.text) obligations) (fun o _ => by
      obtain ⟨r, r', hr, hr', ho, ho', himprove⟩ := obligationRoot_improves hdischarged o
      exact ⟨r, r', hr, hr', ho.trans ho'.symm, ho ▸ himprove⟩)
  obtain ⟨c, hc, hvalues, hfailed⟩ := evaluateCounterfactualCertificate_returns hne hnodup
    (fun id hid => hknown id (hST id hid)) hroots
  obtain ⟨c', hc', hvalues', hfailed'⟩ :=
    evaluateCounterfactualCertificate_returns hne hnodup hknown hroots'
  refine ⟨c, c', hc, hc', fun o ho => ?_, fun hcertified => ?_⟩
  · obtain ⟨r, hr, hobligation⟩ := exists_of_mapM hroots (mem_sortBy.mpr ho)
    obtain ⟨root, -, hroot⟩ := bind_eq_ok.mp hobligation
    cases hroot
    obtain ⟨x, y, hx, hy, hxy⟩ := lookup_improves hrel
      (List.mem_map_of_mem (f := fun r => r.1.channel) hr)
    exact ⟨x, y, orRaise_eq_ok.mpr (hvalues ▸ hx), orRaise_eq_ok.mpr (hvalues' ▸ hy), hxy⟩
  · have hpass : ∀ r ∈ roots, r.1.passes r.2 := by
      rw [← failedChannels_eq_nil, ← hfailed]
      simpa [CounterfactualCertificate.certified] using hcertified
    have hpass' : ∀ r' ∈ roots', r'.1.passes r'.2 := by
      intro r' hr'
      obtain ⟨r, hr, heq, himprove⟩ := forall₂_exists_right hrel.flip hr'
      rw [← heq]
      exact CertificateObligation.passes_of_improves himprove (hpass r hr)
    have hnone := hfailed'.trans (failedChannels_eq_nil.mpr hpass')
    simp [CounterfactualCertificate.certified, hnone]

/-! ## A plan whose last gate is ambiguous -/

/-- The leaf either fails half of the time or earns one. -/
def leafCircuit : Except PyError CausalProofCircuit := do
  let fails ← CausalRealization.make "fails" 0 (1 / 2) []
  let earns ← CausalRealization.make "earns" 1 0 []
  let leaf ← CausalProofNode.make "leaf" [fails, earns] true 1
  let successor ← CausalSuccessor.make "leaf" 1
  let moves ← CausalRealization.make "moves" 0 0 [successor]
  let top ← CausalProofNode.make "top" [moves] false 1
  let root ← CausalRoot.make "top" 1
  CausalProofCircuit.make [top, leaf] [root]

theorem leafCircuit_nodes :
    (leafCircuit.map fun circuit => circuit.nodes.map CausalProofNode.nodeId) =
      .ok ["leaf", "top"] := by
  decide +kernel

def leafObligations : List CertificateObligation :=
  [⟨.failureUpper, 1 / 4⟩, ⟨.rewardLower, 1 / 2⟩]

theorem evaluateCounterfactualCertificate_monotone_leaf :
    ∃ circuit, leafCircuit = .ok circuit ∧ ∃ c c',
      evaluateCounterfactualCertificate circuit leafObligations [] = .ok c ∧
      evaluateCounterfactualCertificate circuit leafObligations ["leaf"] = .ok c' ∧
      (∀ o ∈ leafObligations, ∃ x y, c.rootValue o.channel = .ok x ∧
        c'.rootValue o.channel = .ok y ∧ o.channel.Improves x y) ∧
      (c.certified → c'.certified) := by
  obtain ⟨circuit, hcircuit, hnodes⟩ := map_eq_ok.mp leafCircuit_nodes
  refine ⟨circuit, hcircuit, evaluateCounterfactualCertificate_monotone circuit _ [] ["leaf"]
    (by decide) (by decide) (by simp) fun id hid => ?_⟩
  obtain rfl : id = "leaf" := by simpa using hid
  exact List.mem_map.mp (hnodes ▸ List.mem_cons_self)

end Certificates

end Acfqp.Recovery
