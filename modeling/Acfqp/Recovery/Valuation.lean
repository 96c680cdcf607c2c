import Acfqp.Recovery.Counterfactual

/-!
# The values of a circuit

The gates of a circuit have the values that their realizations give them: the best of these for a
discharged gate, and the worst for any other. There is one such valuation, the certificate computes
it, and its eligible nodes are the ambiguous ones on an extremal derivation of a violated bound.
-/

namespace Acfqp.Recovery

open Library

variable {circuit : CausalProofCircuit} {obligations : List CertificateObligation}
  {channel : Channel} {S T : List String} {nodeId : String} {value : String → ℚ}

/-! ## Valuations -/

/-- What a realization is worth when the gates have the given values. -/
def CausalRealization.worth (channel : Channel) (value : String → ℚ) (r : CausalRealization) : ℚ :=
  channel.immediate r + (r.successors.map fun s => s.probability * value s.nodeId).sum

def CausalProofCircuit.rootWorth (circuit : CausalProofCircuit) (value : String → ℚ) : ℚ :=
  (circuit.roots.map fun root => root.probability * value root.nodeId).sum

/-- Every gate has the value of one of its realizations: the best one where it is discharged, and
the worst one elsewhere. -/
structure Settled (circuit : CausalProofCircuit) (S : List String) (channel : Channel)
    (value : String → ℚ) : Prop where
  attained : ∀ node ∈ circuit.nodes, ∃ r ∈ node.realizations,
    r.worth channel value = value node.nodeId
  best : ∀ node ∈ circuit.nodes, node.nodeId ∈ S → ∀ r ∈ node.realizations,
    channel.Improves (r.worth channel value) (value node.nodeId)
  worst : ∀ node ∈ circuit.nodes, node.nodeId ∉ S → ∀ r ∈ node.realizations,
    channel.Improves (value node.nodeId) (r.worth channel value)

/-- The first node has the value of a realization that the second one succeeds. -/
def Extremal (circuit : CausalProofCircuit) (channel : Channel) (value : String → ℚ)
    (a b : String) : Prop :=
  ∃ node ∈ circuit.nodes, node.nodeId = a ∧ ∃ r ∈ node.realizations,
    r.worth channel value = value a ∧ b ∈ r.successors.map CausalSuccessor.nodeId

def Ambiguous (circuit : CausalProofCircuit) (channel : Channel) (value : String → ℚ)
    (nodeId : String) : Prop :=
  ∃ node ∈ circuit.nodes, node.nodeId = nodeId ∧ ∃ r ∈ node.realizations,
    ∃ r' ∈ node.realizations, r.worth channel value ≠ r'.worth channel value

/-- With the given nodes discharged the obligation is violated. -/
def Violated (circuit : CausalProofCircuit) (S : List String) (o : CertificateObligation)
    (value : String → ℚ) : Prop :=
  Settled circuit S o.channel value ∧ o.passes (circuit.rootWorth value) = false

/-- With the given nodes discharged, the node is ambiguous and lies on an extremal derivation of a
violated obligation. -/
def Matters (circuit : CausalProofCircuit) (obligations : List CertificateObligation)
    (S : List String) (nodeId : String) : Prop :=
  ∃ o ∈ obligations, ∃ value, Violated circuit S o value ∧
    Ambiguous circuit o.channel value nodeId ∧ ∃ root ∈ circuit.roots,
      Relation.ReflTransGen (Extremal circuit o.channel value) root.nodeId nodeId

theorem Settled.congr (h : Settled circuit S channel value) (hST : ∀ id, id ∈ S ↔ id ∈ T) :
    Settled circuit T channel value where
  attained := h.attained
  best node hnode hid := h.best node hnode ((hST _).mpr hid)
  worst node hnode hid := h.worst node hnode fun hmem => hid ((hST _).mp hmem)

theorem Matters.congr (h : Matters circuit obligations S nodeId) (hST : ∀ id, id ∈ S ↔ id ∈ T) :
    Matters circuit obligations T nodeId := by
  obtain ⟨o, ho, value, ⟨hsettled, hviolated⟩, hrest⟩ := h
  exact ⟨o, ho, value, ⟨hsettled.congr hST, hviolated⟩, hrest⟩

namespace Channel

variable {x y : ℚ} {l : List ℚ}

theorem Improves.antisymm (h : channel.Improves x y) (h' : channel.Improves y x) : x = y := by
  cases channel
  · exact le_antisymm h' h
  · exact le_antisymm h h'

theorem pessimistic_spec (h : channel.pessimistic l = some x) :
    x ∈ l ∧ ∀ y ∈ l, channel.Improves x y := by
  cases channel with
  | failureUpper => exact ⟨max?_mem h, fun y hy => le_max? h hy⟩
  | rewardLower => exact ⟨min?_mem h, fun y hy => min?_le h hy⟩

theorem optimistic_spec (h : channel.optimistic l = some x) :
    x ∈ l ∧ ∀ y ∈ l, channel.Improves y x := by
  cases channel with
  | failureUpper => exact ⟨min?_mem h, fun y hy => min?_le h hy⟩
  | rewardLower => exact ⟨max?_mem h, fun y hy => le_max? h hy⟩

/-- The two extrema differ exactly when two of the values do. -/
theorem extrema_ne_iff (hx : channel.pessimistic l = some x) (hy : channel.optimistic l = some y) :
    x ≠ y ↔ ∃ a ∈ l, ∃ b ∈ l, a ≠ b := by
  obtain ⟨hxl, hworst⟩ := pessimistic_spec hx
  obtain ⟨hyl, hbest⟩ := optimistic_spec hy
  refine ⟨fun h => ⟨x, hxl, y, hyl, h⟩, ?_⟩
  rintro ⟨a, ha, b, hb, hab⟩ rfl
  exact hab (((hbest a ha).antisymm (hworst a ha)).trans ((hworst b hb).antisymm (hbest b hb)))

end Channel

/-! ## Existence -/

def gateBound (circuit : CausalProofCircuit) (S : List String) (channel : Channel) :
    ℕ → String → ℚ
  | 0, _ => 0
  | depth + 1, nodeId =>
    match circuit.nodes.find? fun node => node.nodeId = nodeId with
    | none => 0
    | some node =>
      let worths := node.realizations.map (·.worth channel (gateBound circuit S channel depth))
      ((if nodeId ∈ S then channel.optimistic worths else channel.pessimistic worths).getD 0)

theorem CausalProofCircuit.find_eq_some {node : CausalProofNode} (h : node ∈ circuit.nodes) :
    circuit.nodes.find? (fun other => other.nodeId = node.nodeId) = some node := by
  obtain ⟨other, hother⟩ := circuit.node_returns (List.mem_map_of_mem h)
  have hid : other.nodeId = node.nodeId := by simpa using List.find?_some hother
  have hnodup : (circuit.nodes.map CausalProofNode.nodeId).Nodup :=
    circuit.nodes_ordered.imp ne_of_lt
  rw [hother, List.inj_on_of_nodup_map hnodup (List.mem_of_find?_eq_some hother) h hid]

theorem mem_dependencies_of_successor {node : CausalProofNode} (h : node ∈ circuit.nodes)
    {r : CausalRealization} (hr : r ∈ node.realizations) {s : CausalSuccessor}
    (hs : s ∈ r.successors) : s.nodeId ∈ dependencies circuit.nodes node.nodeId := by
  unfold dependencies
  rw [circuit.find_eq_some h]
  exact List.mem_flatMap.mpr ⟨r, hr, List.mem_map_of_mem hs⟩

theorem CausalRealization.worth_congr {r : CausalRealization} {value' : String → ℚ}
    (h : ∀ s ∈ r.successors, value s.nodeId = value' s.nodeId) :
    r.worth channel value = r.worth channel value' := by
  unfold CausalRealization.worth
  rw [List.map_congr_left fun s hs => by rw [h s hs]]

theorem gateBound_succ {depth : ℕ} (h : Within (dependencies circuit.nodes) depth nodeId) :
    gateBound circuit S channel (depth + 1) nodeId = gateBound circuit S channel depth nodeId := by
  induction depth generalizing nodeId with
  | zero => cases h
  | succ depth ih =>
    rw [gateBound, gateBound]
    cases hfind : circuit.nodes.find? fun node => node.nodeId = nodeId with
    | none => rfl
    | some node =>
      obtain rfl : node.nodeId = nodeId := by simpa using List.find?_some hfind
      have hnode := List.mem_of_find?_eq_some hfind
      have hworth : ∀ r ∈ node.realizations,
          r.worth channel (gateBound circuit S channel (depth + 1)) =
            r.worth channel (gateBound circuit S channel depth) := fun r hr =>
        CausalRealization.worth_congr fun s hs =>
          ih (h _ (mem_dependencies_of_successor hnode hr hs))
      simp only [List.map_congr_left hworth]

/-- Every circuit has a valuation: its values within a depth of its number of nodes. -/
theorem exists_settled (circuit : CausalProofCircuit) (S : List String) (channel : Channel) :
    ∃ value, Settled circuit S channel value := by
  obtain ⟨depth, hdepth⟩ := Nat.exists_eq_add_of_lt (List.length_pos_iff.mpr circuit.nodes_nonempty)
  rw [zero_add] at hdepth
  let value := gateBound circuit S channel (depth + 1)
  -- a gate selects among what its realizations are worth under the valuation itself
  have hselect : ∀ node ∈ circuit.nodes, value node.nodeId =
      (if node.nodeId ∈ S then channel.optimistic (node.realizations.map (·.worth channel value))
        else channel.pessimistic (node.realizations.map (·.worth channel value))).getD 0 := by
    intro node hnode
    have hwithin := circuit.within (List.mem_map_of_mem hnode)
    rw [hdepth] at hwithin
    have hworth : ∀ r ∈ node.realizations, r.worth channel (gateBound circuit S channel depth) =
        r.worth channel value := fun r hr => CausalRealization.worth_congr fun s hs =>
      (gateBound_succ (hwithin _ (mem_dependencies_of_successor hnode hr hs))).symm
    have hbound : value node.nodeId = gateBound circuit S channel (depth + 1) node.nodeId := rfl
    rw [hbound, gateBound, circuit.find_eq_some hnode]
    simp only [List.map_congr_left hworth]
  refine ⟨value, fun node hnode => ?_, fun node hnode hid => ?_, fun node hnode hid => ?_⟩
  · have hne : node.realizations.map (·.worth channel value) ≠ [] := by simpa using node.nonempty
    obtain ⟨x, hx⟩ := @Channel.exists_pessimistic channel _ hne
    obtain ⟨y, hy⟩ := @Channel.exists_optimistic channel _ hne
    have hmem : value node.nodeId ∈ node.realizations.map (·.worth channel value) := by
      rw [hselect node hnode]
      split
      · rw [hy]
        exact (Channel.optimistic_spec hy).1
      · rw [hx]
        exact (Channel.pessimistic_spec hx).1
    exact List.mem_map.mp hmem
  · have hne : node.realizations.map (·.worth channel value) ≠ [] := by simpa using node.nonempty
    obtain ⟨y, hy⟩ := @Channel.exists_optimistic channel _ hne
    intro r hr
    rw [hselect node hnode, if_pos hid, hy]
    exact (Channel.optimistic_spec hy).2 _ (List.mem_map_of_mem hr)
  · have hne : node.realizations.map (·.worth channel value) ≠ [] := by simpa using node.nonempty
    obtain ⟨x, hx⟩ := @Channel.exists_pessimistic channel _ hne
    intro r hr
    rw [hselect node hnode, if_neg hid, hx]
    exact (Channel.pessimistic_spec hx).2 _ (List.mem_map_of_mem hr)

/-! ## What the certificate computes -/

/-- What the certificate records of a gate, in terms of a valuation. -/
structure Records (channel : Channel) (value : String → ℚ) (node : CausalProofNode)
    (v : NodeChannelValue) : Prop where
  sameNode : v.nodeId = node.nodeId
  sameChannel : v.channel = channel
  selected : v.selectedValue = value node.nodeId
  ambiguous : 0 < v.residualWidth ↔ ∃ r ∈ node.realizations, ∃ r' ∈ node.realizations,
    r.worth channel value ≠ r'.worth channel value
  active : ∀ r ∈ node.realizations,
    r.realizationId ∈ v.activeRealizationIds ↔ r.worth channel value = value node.nodeId

theorem branchValue_eq {values : String → Except PyError NodeChannelValue} {r : CausalRealization}
    (h : ∀ s ∈ r.successors, ∃ v, values s.nodeId = .ok v ∧ v.selectedValue = value s.nodeId) :
    branchValue values channel r = .ok (r.realizationId, r.worth channel value) := by
  refine bind_eq_ok.mpr ⟨_, mapM_of_forall (g := fun s => s.probability * value s.nodeId)
    fun s hs => ?_, rfl⟩
  obtain ⟨v, hv, hselected⟩ := h s hs
  exact bind_eq_ok.mpr ⟨v, hv, by rw [hselected]⟩

theorem gateValue_records (h : Settled circuit S channel value) {node : CausalProofNode}
    (hnode : node ∈ circuit.nodes) : ∃ v, gateValue S channel node.nodeId
      (node.realizations.map fun r => (r.realizationId, r.worth channel value)) = .ok v ∧
      Records channel value node v := by
  have hraw : (node.realizations.map fun r => (r.realizationId, r.worth channel value)).map
      Prod.snd = node.realizations.map (·.worth channel value) := by
    rw [List.map_map]
    rfl
  have hne : node.realizations.map (·.worth channel value) ≠ [] := by simpa using node.nonempty
  obtain ⟨x, hx⟩ := @Channel.exists_pessimistic channel _ hne
  obtain ⟨y, hy⟩ := @Channel.exists_optimistic channel _ hne
  obtain ⟨hxmem, hworst⟩ := Channel.pessimistic_spec hx
  obtain ⟨hymem, hbest⟩ := Channel.optimistic_spec hy
  obtain ⟨r₀, hr₀, hattained⟩ := h.attained node hnode
  have hvalue : value node.nodeId ∈ node.realizations.map (·.worth channel value) :=
    hattained ▸ List.mem_map_of_mem hr₀
  have hselected : (if node.nodeId ∈ S then y else x) = value node.nodeId := by
    split
    · rename_i hid
      obtain ⟨r, hr, rfl⟩ := List.mem_map.mp hymem
      exact (h.best node hnode hid r hr).antisymm (hbest _ hvalue)
    · rename_i hid
      obtain ⟨r, hr, rfl⟩ := List.mem_map.mp hxmem
      exact (hworst _ hvalue).antisymm (h.worst node hnode hid r hr)
  have hids : (node.realizations.map CausalRealization.realizationId).Nodup :=
    node.ordered.imp ne_of_lt
  refine ⟨_, bind_eq_ok.mpr ⟨x, orRaise_eq_ok.mpr (hraw ▸ hx), bind_eq_ok.mpr
    ⟨y, orRaise_eq_ok.mpr (hraw ▸ hy), rfl⟩⟩, rfl, rfl, ?_, ?_, fun r hr => ?_⟩
  · simpa using hselected
  · rw [abs_pos, sub_ne_zero, Channel.extrema_ne_iff hx hy]
    simp
  · simp only [decide_eq_true_eq, hselected, List.mem_map, List.mem_filter]
    constructor
    · rintro ⟨_, ⟨⟨r', hr', rfl⟩, heq⟩, hid⟩
      obtain rfl := List.inj_on_of_nodup_map hids hr' hr hid
      exact heq
    · intro heq
      exact ⟨_, ⟨⟨r, hr, rfl⟩, heq⟩, rfl⟩

/-- The certificate computes the valuation, by induction on the depth of the gate. -/
theorem nodeValue_records (h : Settled circuit S channel value) {depth : ℕ} {node : CausalProofNode}
    (hnode : node ∈ circuit.nodes)
    (hwithin : Within (dependencies circuit.nodes) depth node.nodeId) :
    ∃ v, nodeValue circuit S channel depth node.nodeId = .ok v ∧ Records channel value node v := by
  induction depth generalizing node with
  | zero => cases hwithin
  | succ depth ih =>
    obtain ⟨v, hv, hrecords⟩ := gateValue_records h hnode
    refine ⟨v, bind_eq_ok.mpr ⟨node, orRaise_eq_ok.mpr (circuit.find_eq_some hnode),
      bind_eq_ok.mpr ⟨_, mapM_of_forall fun r hr => branchValue_eq fun s hs => ?_, hv⟩⟩, hrecords⟩
    obtain ⟨below, hbelow, heq⟩ := List.mem_map.mp (circuit.successors_known node hnode r hr s hs)
    obtain ⟨w, hw, hrecords'⟩ := ih hbelow
      (heq ▸ hwithin _ (mem_dependencies_of_successor hnode hr hs))
    exact ⟨w, heq ▸ hw, heq ▸ hrecords'.selected⟩

theorem nodeValue_of_settled (h : Settled circuit S channel value) {node : CausalProofNode}
    (hnode : node ∈ circuit.nodes) : ∃ v, nodeValue circuit S channel circuit.nodes.length
      node.nodeId = .ok v ∧ Records channel value node v :=
  nodeValue_records h hnode (circuit.within (List.mem_map_of_mem hnode))

theorem obligationRoot_eq {o : CertificateObligation} (h : Settled circuit S o.channel value) :
    obligationRoot circuit S o = .ok (o, circuit.rootWorth value) := by
  refine bind_eq_ok.mpr ⟨_, bind_eq_ok.mpr ⟨_, mapM_of_forall
    (g := fun root => root.probability * value root.nodeId) fun root hroot => ?_, rfl⟩, rfl⟩
  obtain ⟨node, hnode, heq⟩ := List.mem_map.mp (circuit.roots_known root hroot)
  obtain ⟨v, hv, hrecords⟩ := nodeValue_of_settled h hnode
  exact bind_eq_ok.mpr ⟨v, heq ▸ hv, by rw [hrecords.selected, heq]⟩

/-! ## Eligible nodes -/

section

variable {values : List (List NodeChannelValue)}
  (hvalues : circuit.nodes.mapM (fun node => Channel.all.mapM fun channel =>
    nodeValue circuit S channel circuit.nodes.length node.nodeId) = .ok values)
  (h : Settled circuit S channel value)
include hvalues h

/-- What is recorded under a node and a channel is the record of its gate. -/
theorem records_of_mem {v : NodeChannelValue} (hv : v ∈ values.flatten)
    (hchannel : v.channel = channel) : ∃ node ∈ circuit.nodes, Records channel value node v := by
  obtain ⟨row, hrow, hv⟩ := List.mem_flatten.mp hv
  obtain ⟨node, hnode, hrow⟩ := mem_of_mapM hvalues hrow
  obtain ⟨other, -, hv⟩ := mem_of_mapM hrow hv
  obtain ⟨value', hvalue'⟩ := exists_settled circuit S other
  obtain ⟨w, hw, hrecords⟩ := nodeValue_of_settled hvalue' hnode
  obtain rfl := Except.ok.inj (hv.symm.trans hw)
  obtain rfl := hrecords.sameChannel.symm.trans hchannel
  obtain ⟨u, hu, hrecords'⟩ := nodeValue_of_settled h hnode
  exact ⟨node, hnode, Except.ok.inj (hu.symm.trans hw) ▸ hrecords'⟩

theorem mem_memo {node : CausalProofNode} (hnode : node ∈ circuit.nodes) :
    ∃ v ∈ values.flatten, Records channel value node v := by
  obtain ⟨v, hv, hrecords⟩ := nodeValue_of_settled h hnode
  obtain ⟨row, hrow, heq⟩ := exists_of_mapM hvalues hnode
  obtain ⟨w, hw, hvw⟩ := exists_of_mapM heq (show channel ∈ Channel.all by cases channel <;> decide)
  obtain rfl := Except.ok.inj (hv.symm.trans hvw)
  exact ⟨v, List.mem_flatten.mpr ⟨row, hrow, hw⟩, hrecords⟩

theorem mem_activeSuccessors {a b : String} :
    b ∈ activeSuccessors circuit values.flatten channel a ↔ Extremal circuit channel value a b := by
  have hnodup : (circuit.nodes.map CausalProofNode.nodeId).Nodup :=
    circuit.nodes_ordered.imp ne_of_lt
  unfold activeSuccessors
  cases hfind : circuit.nodes.find? fun node => node.nodeId = a with
  | none =>
    refine ⟨fun hb => (by cases hb), ?_⟩
    rintro ⟨node, hnode, rfl, -⟩
    rw [circuit.find_eq_some hnode] at hfind
    cases hfind
  | some node =>
    obtain rfl : node.nodeId = a := by simpa using List.find?_some hfind
    have hnode := List.mem_of_find?_eq_some hfind
    obtain ⟨u, hu, hrecords⟩ := mem_memo hvalues h hnode
    obtain ⟨v, hv⟩ := Option.isSome_iff_exists.mp (List.find?_isSome.mpr
      ⟨u, hu, decide_eq_true ⟨hrecords.sameNode, hrecords.sameChannel⟩⟩ :
        (values.flatten.find? fun v =>
        v.nodeId = node.nodeId ∧ v.channel = channel).isSome)
    obtain ⟨hid, hchannel⟩ : v.nodeId = node.nodeId ∧ v.channel = channel := by
      simpa using List.find?_some hv
    obtain ⟨other, hother, hrecords'⟩ :=
      records_of_mem hvalues h (List.mem_of_find?_eq_some hv) hchannel
    obtain rfl := List.inj_on_of_nodup_map hnodup hother hnode (hrecords'.sameNode.symm.trans hid)
    rw [hv]
    simp only [List.mem_flatMap, List.mem_filter, decide_eq_true_eq]
    constructor
    · rintro ⟨r, ⟨hr, hactive⟩, hb⟩
      exact ⟨other, hnode, rfl, r, hr, (hrecords'.active r hr).mp hactive, hb⟩
    · rintro ⟨node', hnode', heq, r, hr, hworth, hb⟩
      obtain rfl := List.inj_on_of_nodup_map hnodup hnode' hnode heq
      exact ⟨r, ⟨hr, (hrecords'.active r hr).mpr hworth⟩, hb⟩

theorem ambiguous_iff : (values.flatten.any fun v =>
      v.nodeId = nodeId && v.channel = channel && 0 < v.residualWidth) = true ↔
    Ambiguous circuit channel value nodeId := by
  simp only [List.any_eq_true, Bool.and_eq_true, decide_eq_true_eq]
  constructor
  · rintro ⟨v, hv, ⟨rfl, hchannel⟩, hwidth⟩
    obtain ⟨node, hnode, hrecords⟩ := records_of_mem hvalues h hv hchannel
    exact ⟨node, hnode, hrecords.sameNode.symm, hrecords.ambiguous.mp hwidth⟩
  · rintro ⟨node, hnode, rfl, hwidth⟩
    obtain ⟨v, hv, hrecords⟩ := mem_memo hvalues h hnode
    exact ⟨v, hv, ⟨hrecords.sameNode, hrecords.sameChannel⟩, hrecords.ambiguous.mpr hwidth⟩

end

end Acfqp.Recovery
