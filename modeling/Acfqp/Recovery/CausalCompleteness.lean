import Acfqp.Library.BestFirst
import Acfqp.Recovery.CausalSearch
import Acfqp.Recovery.Valuation

/-!
# What the causal family covers

The search opens exactly the sets that can be built one eligible node at a time through failing
certificates. When the certificate fails at the start, its family is the family of all minimal
covers if the nodes of each of these have an order in which each matters once those before it are
discharged, and not otherwise: discharging a gate can make a branch matter that was inactive before.
-/

namespace Acfqp.Recovery

open Library

variable {circuit : CausalProofCircuit} {obligations : List CertificateObligation}
  {baseline : CounterfactualCertificate} {S T : List String} {nodeId : String}

/-! ## Sets of recoverable nodes -/

def Recoverable (circuit : CausalProofCircuit) (nodeId : String) : Prop :=
  ∃ node ∈ circuit.nodes, node.nodeId = nodeId ∧ node.recoverable = true

structure NodeSet (circuit : CausalProofCircuit) (S : List String) : Prop where
  sorted : S.Pairwise (· < ·)
  recoverable : ∀ nodeId ∈ S, Recoverable circuit nodeId

/-- The counterfactual certificate of the set passes. -/
def Passes (circuit : CausalProofCircuit) (obligations : List CertificateObligation)
    (S : List String) : Prop :=
  ∃ c, evaluateCounterfactualCertificate circuit obligations S = .ok c ∧ c.certified = true

/-- An inclusion-minimal set of recoverable nodes whose certificate passes. -/
structure MinimalCover (circuit : CausalProofCircuit) (obligations : List CertificateObligation)
    (S : List String) : Prop where
  nodeSet : NodeSet circuit S
  passes : Passes circuit obligations S
  minimal : ∀ T, NodeSet circuit T → Passes circuit obligations T → (∀ id ∈ T, id ∈ S) → T = S

/-- The nodes have an order in which each matters once those before it are discharged. -/
def Orderable (circuit : CausalProofCircuit) (obligations : List CertificateObligation)
    (S : List String) : Prop :=
  ∃ order : List String, order.Perm S ∧
    ∀ l nodeId, l ++ [nodeId] <+: order → Matters circuit obligations l nodeId

theorem mem_addNode {x : String} : x ∈ addNode S nodeId ↔ x ∈ S ∨ x = nodeId := by
  simp [addNode, mem_sortBy]

theorem sorted_addNode (S : List String) (nodeId : String) :
    (addNode S nodeId).Pairwise (· < ·) := by
  have h := @pairwise_lt_sortBy _ _ _ id (distinct (S ++ [nodeId]))
    (by rw [List.map_id]; exact nodup_distinct _)
  exact h

theorem nodeSet_nil : NodeSet circuit [] := ⟨List.Pairwise.nil, fun _ h => by cases h⟩

theorem NodeSet.addNode (h : NodeSet circuit S) (hnode : Recoverable circuit nodeId) :
    NodeSet circuit (addNode S nodeId) := by
  refine ⟨sorted_addNode S nodeId, fun id hid => ?_⟩
  rcases mem_addNode.mp hid with hid | rfl
  · exact h.recoverable id hid
  · exact hnode

theorem NodeSet.nodup (h : NodeSet circuit S) : S.Nodup := h.sorted.imp fun hlt => hlt.ne

theorem NodeSet.ext (hS : NodeSet circuit S) (hT : NodeSet circuit T)
    (h : ∀ id, id ∈ S ↔ id ∈ T) : S = T := by
  have hperm := (List.perm_ext_iff_of_nodup hS.nodup hT.nodup).mpr h
  exact hperm.eq_of_pairwise (fun a b _ _ hab hba => absurd hba (not_lt.mpr hab.le)) hS.sorted
    hT.sorted

theorem StrictlyInside.length_lt (hS : NodeSet circuit S) (h : StrictlyInside S T) :
    S.length < T.length := by
  obtain ⟨hsub, id, hid, hnot⟩ := h
  have hcons : (id :: S).Subperm T := (List.nodup_cons.mpr ⟨hnot, hS.nodup⟩).subperm fun x hx => by
    rcases List.mem_cons.mp hx with rfl | hx
    · exact hid
    · exact hsub x hx
  have hle := hcons.length_le
  rw [List.length_cons] at hle
  omega

theorem NodeSet.strictlyInside (hS : NodeSet circuit S) (hT : NodeSet circuit T)
    (hsub : ∀ id ∈ S, id ∈ T) (hne : S ≠ T) : StrictlyInside S T := by
  refine ⟨hsub, ?_⟩
  by_contra hnone
  refine hne (hS.ext hT fun id => ⟨hsub id, fun hid => ?_⟩)
  by_contra hnot
  exact hnone ⟨id, hid, hnot⟩

/-- Every passing set holds a minimal cover, by induction on its number of nodes. -/
theorem exists_minimalCover (hS : NodeSet circuit S) (h : Passes circuit obligations S) :
    ∃ M, MinimalCover circuit obligations M ∧ ∀ id ∈ M, id ∈ S := by
  induction hlength : S.length using Nat.strong_induction_on generalizing S with
  | _ n ih =>
    subst hlength
    by_cases hminimal : ∀ T, NodeSet circuit T → Passes circuit obligations T →
        (∀ id ∈ T, id ∈ S) → T = S
    · exact ⟨S, ⟨hS, h, hminimal⟩, fun _ hid => hid⟩
    · push Not at hminimal
      obtain ⟨T, hT, hpasses, hsub, hne⟩ := hminimal
      obtain ⟨M, hM, hinside⟩ := ih T.length ((hT.strictlyInside hS hsub hne).length_lt hT) hT
        hpasses rfl
      exact ⟨M, hM, fun id hid => hsub id (hinside id hid)⟩

/-! ## Eligible nodes -/

theorem mem_failedChannels {channel : Channel} {roots : List (CertificateObligation × ℚ)}
    (h : (sortBy (fun o => o.channel.text) obligations).mapM (obligationRoot circuit S) =
      .ok roots) : channel ∈ failedChannels roots ↔
      ∃ o ∈ obligations, o.channel = channel ∧ ∃ value, Violated circuit S o value := by
  simp only [failedChannels, List.mem_map, List.mem_filter, Bool.not_eq_true']
  constructor
  · rintro ⟨r, ⟨hr, hfails⟩, rfl⟩
    obtain ⟨o, ho, hroot⟩ := mem_of_mapM h hr
    obtain ⟨value, hvalue⟩ := exists_settled circuit S o.channel
    obtain rfl := Except.ok.inj ((obligationRoot_eq hvalue).symm.trans hroot)
    exact ⟨o, mem_sortBy.mp ho, rfl, value, hvalue, hfails⟩
  · rintro ⟨o, ho, rfl, value, hvalue, hfails⟩
    obtain ⟨r, hr, hroot⟩ := exists_of_mapM h (mem_sortBy.mpr ho)
    obtain rfl := Except.ok.inj ((obligationRoot_eq hvalue).symm.trans hroot)
    exact ⟨_, ⟨hr, hfails⟩, rfl⟩

/-- The certificate fails when an obligation is violated. -/
theorem certified_eq_false_iff {c : CounterfactualCertificate}
    (h : evaluateCounterfactualCertificate circuit obligations S = .ok c) :
    c.certified = false ↔ ∃ o ∈ obligations, ∃ value, Violated circuit S o value := by
  unfold evaluateCounterfactualCertificate at h
  simp only [bind_eq_ok] at h
  obtain ⟨-, -, -, -, -, -, roots, hroots, values, -, active, -, hc⟩ := h
  obtain rfl := Except.ok.inj hc
  have hD : ∀ x, x ∈ sortBy id (distinct S) ↔ x ∈ S := fun x => by rw [mem_sortBy, mem_distinct]
  rw [CounterfactualCertificate.certified, counterfactualCertificate, List.isEmpty_eq_false_iff]
  constructor
  · intro hne
    obtain ⟨channel, hchannel⟩ := List.exists_mem_of_ne_nil _ hne
    obtain ⟨o, ho, -, value, hvalue, hfails⟩ := (mem_failedChannels hroots).mp hchannel
    exact ⟨o, ho, value, hvalue.congr hD, hfails⟩
  · rintro ⟨o, ho, value, hvalue, hfails⟩
    exact List.ne_nil_of_mem ((mem_failedChannels hroots).mpr
      ⟨o, ho, rfl, value, hvalue.congr fun id => (hD id).symm, hfails⟩)

/-- The eligible nodes are the recoverable ones, not discharged, that matter. -/
theorem mem_eligibleNodeIds {c : CounterfactualCertificate}
    (h : evaluateCounterfactualCertificate circuit obligations S = .ok c) :
    nodeId ∈ c.eligibleNodeIds ↔
      Recoverable circuit nodeId ∧ nodeId ∉ S ∧ Matters circuit obligations S nodeId := by
  unfold evaluateCounterfactualCertificate at h
  simp only [bind_eq_ok] at h
  obtain ⟨-, -, -, -, -, -, roots, hroots, values, hvalues, active, hactive, hc⟩ := h
  obtain rfl := Except.ok.inj hc
  have hD : ∀ x, x ∈ sortBy id (distinct S) ↔ x ∈ S := fun x => by rw [mem_sortBy, mem_distinct]
  simp only [counterfactualCertificate, mem_sortBy, mem_distinct, List.mem_flatMap, List.mem_filter,
    eligible, Bool.and_eq_true, decide_eq_true_eq]
  constructor
  · rintro ⟨entry, hentry, hreached, ⟨hrecoverable, hnot⟩, hwidth⟩
    obtain ⟨channel, hfailed, hrun⟩ := mem_of_mapM hactive hentry
    obtain ⟨ids, hids, hreach⟩ := activeNodes_returns circuit values.flatten channel
    obtain rfl := Except.ok.inj (hids.symm.trans hrun)
    obtain ⟨o, ho, rfl, value, hvalue, hfails⟩ := (mem_failedChannels hroots).mp hfailed
    obtain ⟨root, hroot, hpath⟩ := (hreach nodeId).mp hreached
    refine ⟨?_, hnot, o, ho, value, ⟨hvalue.congr hD, hfails⟩,
      (ambiguous_iff hvalues hvalue).mp hwidth, root, hroot,
      .mono (fun _ _ => (mem_activeSuccessors hvalues hvalue).mp) _ _ hpath⟩
    simpa [Recoverable] using hrecoverable
  · rintro ⟨hrecoverable, hnot, o, ho, value, ⟨hvalue, hfails⟩, hambiguous, root, hroot, hpath⟩
    have hvalue' := hvalue.congr fun id => (hD id).symm
    obtain ⟨entry, hentry, hrun⟩ := exists_of_mapM hactive
      ((mem_failedChannels hroots).mpr ⟨o, ho, rfl, value, hvalue', hfails⟩)
    obtain ⟨ids, hids, hreach⟩ := activeNodes_returns circuit values.flatten o.channel
    obtain rfl := Except.ok.inj (hids.symm.trans hrun)
    refine ⟨_, hentry, (hreach nodeId).mpr ⟨root, hroot, .mono (fun _ _ =>
      (mem_activeSuccessors hvalues hvalue').mpr) _ _ hpath⟩, ⟨?_, hnot⟩,
      (ambiguous_iff hvalues hvalue').mpr hambiguous⟩
    simpa [Recoverable] using hrecoverable

section Returns

variable (hne : obligations ≠ []) (hnodup : (obligations.map CertificateObligation.channel).Nodup)
include hne hnodup

theorem evaluate_returns (hS : NodeSet circuit S) :
    ∃ c, evaluateCounterfactualCertificate circuit obligations S = .ok c := by
  obtain ⟨c, -, hc, -⟩ := evaluateCounterfactualCertificate_monotone circuit obligations S S hne
    hnodup (fun _ hid => hid) fun id hid => by
      obtain ⟨node, hnode, heq, -⟩ := hS.recoverable id hid
      exact ⟨node, hnode, heq⟩
  exact ⟨c, hc⟩

end Returns

/-! ## The search -/

/-- The certificate of the first set fails, and the second set adds an eligible node. -/
def Opens (circuit : CausalProofCircuit) (obligations : List CertificateObligation)
    (S T : List String) : Prop :=
  ∃ c, evaluateCounterfactualCertificate circuit obligations S = .ok c ∧ c.certified = false ∧
    ∃ nodeId ∈ c.eligibleNodeIds, T = addNode S nodeId

theorem nodeSet_of_opened (h : Relation.ReflTransGen (Opens circuit obligations) [] S) :
    NodeSet circuit S := by
  induction h with
  | refl => exact nodeSet_nil
  | tail _ hopens ih =>
    obtain ⟨c, hc, -, nodeId, hnode, rfl⟩ := hopens
    exact ih.addNode ((mem_eligibleNodeIds hc).mp hnode).1

/-- What holds between two rounds. -/
structure SearchInv (circuit : CausalProofCircuit) (obligations : List CertificateObligation)
    (search : CausalSearch) : Prop where
  exploration : Exploration (Opens circuit obligations) [] search.visited search.heap
  queued : ∀ S, S ∈ search.queued ↔ S ∈ search.visited ∨ S ∈ search.heap
  traced : ∀ S ∈ search.queued, ∃ trace, search.traces.lookup S = some trace
  records : search.records.map CausalSearchRecord.dischargedNodeIds = search.visited
  terminals : ∀ S, S ∈ search.terminals ↔ S ∈ search.visited ∧ Passes circuit obligations S

theorem searchInv_initial : SearchInv circuit obligations .initial where
  exploration := .initial _ _
  queued S := by simp [CausalSearch.initial]
  traced S hS := by
    obtain rfl := List.mem_singleton.mp hS
    exact ⟨[], rfl⟩
  records := rfl
  terminals S := by simp [CausalSearch.initial]

/-- What queuing the additions of some nodes changes. -/
structure Pushed (S : List String) (nodeIds : List String) (fresh : List (List String))
    (search search' : CausalSearch) : Prop where
  nodup : fresh.Nodup
  sound : ∀ T ∈ fresh, T ∉ search.queued ∧ ∃ nodeId ∈ nodeIds, T = addNode S nodeId
  complete : ∀ nodeId ∈ nodeIds, addNode S nodeId ∈ search.queued ∨ addNode S nodeId ∈ fresh
  heap : search'.heap = search.heap ++ fresh
  queued : ∀ T, T ∈ search'.queued ↔ T ∈ search.queued ∨ T ∈ fresh
  traced : (∀ T ∈ search.queued, ∃ trace, search.traces.lookup T = some trace) →
    ∀ T ∈ search'.queued, ∃ trace, search'.traces.lookup T = some trace
  visited : search'.visited = search.visited
  records : search'.records = search.records
  terminals : search'.terminals = search.terminals

theorem foldl_push (S trace nodeIds : List String) (search : CausalSearch) :
    ∃ fresh, Pushed S nodeIds fresh search
      (nodeIds.foldl (CausalSearch.push S trace) search) := by
  induction nodeIds generalizing search with
  | nil =>
    exact ⟨[], List.nodup_nil, fun T hT => (by cases hT), fun _ h => (by cases h),
      (List.append_nil _).symm, fun T => by simp, fun h => h, rfl, rfl, rfl⟩
  | cons nodeId nodeIds ih =>
    rw [List.foldl_cons]
    by_cases hqueued : addNode S nodeId ∈ search.queued
    · have hpush : search.push S trace nodeId = search := if_pos hqueued
      rw [hpush]
      obtain ⟨fresh, h⟩ := ih search
      refine ⟨fresh, { h with sound := fun T hT => ?_, complete := fun id hid => ?_ }⟩
      · obtain ⟨hnot, id, hid, heq⟩ := h.sound T hT
        exact ⟨hnot, id, List.mem_cons_of_mem _ hid, heq⟩
      · rcases List.mem_cons.mp hid with rfl | hid
        · exact .inl hqueued
        · exact h.complete id hid
    · obtain ⟨fresh, h⟩ := ih (search.push S trace nodeId)
      simp only [CausalSearch.push, if_neg hqueued] at h ⊢
      refine ⟨addNode S nodeId :: fresh, ?_, fun T hT => ?_, fun id hid => ?_, ?_, fun T => ?_,
        fun htraced => h.traced fun T hT => ?_, h.visited, h.records, h.terminals⟩
      · exact List.nodup_cons.mpr ⟨fun hmem => (h.sound _ hmem).1 List.mem_cons_self, h.nodup⟩
      · rcases List.mem_cons.mp hT with rfl | hT
        · exact ⟨hqueued, nodeId, List.mem_cons_self, rfl⟩
        · obtain ⟨hnot, id, hid, heq⟩ := h.sound T hT
          exact ⟨fun hmem => hnot (List.mem_cons_of_mem _ hmem), id, List.mem_cons_of_mem _ hid,
            heq⟩
      · rcases List.mem_cons.mp hid with rfl | hid
        · exact .inr List.mem_cons_self
        · have hcomplete := h.complete id hid
          simp only [List.mem_cons] at hcomplete ⊢
          tauto
      · rw [h.heap, List.append_assoc]
        rfl
      · rw [h.queued]
        simp only [List.mem_cons]
        tauto
      · rcases eq_or_ne T (addNode S nodeId) with rfl | hne
        · exact ⟨_, List.lookup_cons_self⟩
        · obtain ⟨trace', htrace⟩ := htraced T ((List.mem_cons.mp hT).resolve_left hne)
          exact ⟨trace', by rw [List.lookup_cons, beq_false_of_ne hne]; exact htrace⟩

theorem expanded_spec {visited : List (List String)} {c : CounterfactualCertificate}
    {trace : List String} {start : CausalSearch}
    (hc : evaluateCounterfactualCertificate circuit obligations S = .ok c)
    (hfails : c.certified = false)
    (hexploration : Exploration (Opens circuit obligations) [] visited (S :: start.heap))
    (hvisited : start.visited = visited ++ [S])
    (hqueued : ∀ T, T ∈ start.queued ↔ T ∈ visited ∨ T ∈ S :: start.heap)
    (htraced : ∀ T ∈ start.queued, ∃ trace, start.traces.lookup T = some trace)
    (hrecords : start.records.map CausalSearchRecord.dischargedNodeIds = start.visited)
    (hterminals : ∀ T, T ∈ start.terminals ↔ T ∈ start.visited ∧ Passes circuit obligations T) :
    SearchInv circuit obligations (c.eligibleNodeIds.foldl (CausalSearch.push S trace) start) ∧
      (c.eligibleNodeIds.foldl (CausalSearch.push S trace) start).records.length =
        start.records.length := by
  obtain ⟨fresh, h⟩ := foldl_push S trace c.eligibleNodeIds start
  have hstep := hexploration.step h.nodup (fun T hT => by
      obtain ⟨hnot, nodeId, hnode, heq⟩ := h.sound T hT
      rw [hqueued, not_or] at hnot
      exact ⟨⟨c, hc, hfails, nodeId, hnode, heq⟩, hnot.1, hnot.2⟩)
    fun T hT => by
      obtain ⟨c', hc', -, nodeId, hnode, rfl⟩ := hT
      obtain rfl := Except.ok.inj (hc.symm.trans hc')
      rw [← hqueued, or_comm]
      exact h.complete nodeId hnode
  refine ⟨⟨?_, fun T => ?_, h.traced htraced, ?_, fun T => ?_⟩, by rw [h.records]⟩
  · rw [h.visited, h.heap, hvisited]
    exact hstep
  · rw [h.queued, hqueued, h.visited, h.heap, hvisited]
    simp only [List.mem_append, List.mem_cons, List.not_mem_nil, or_false]
    tauto
  · rw [h.records, h.visited, hrecords]
  · rw [h.terminals, h.visited, hterminals]

section Rounds

variable {search : CausalSearch}
  (hbaseline : evaluateCounterfactualCertificate circuit obligations [] = .ok baseline)
include hbaseline

theorem certificateOf_eq (S : List String) : certificateOf circuit obligations baseline S =
    evaluateCounterfactualCertificate circuit obligations S := by
  unfold certificateOf
  split
  · rename_i hnil
    rw [hnil, hbaseline]
  · rfl

theorem openSet_spec (hne : obligations ≠ [])
    (hnodup : (obligations.map CertificateObligation.channel).Nodup)
    (hinv : SearchInv circuit obligations search) (hS : S ∈ search.heap) : ∃ search',
      CausalSearch.openSet circuit obligations baseline
        { search with heap := search.heap.erase S } S = .ok search' ∧
      SearchInv circuit obligations search' ∧
      search'.records.length = search.records.length + 1 := by
  have hexploration := hinv.exploration.reorder (List.perm_cons_erase hS)
  have hfresh : S ∉ search.visited := fun hvisited =>
    List.disjoint_of_nodup_append hinv.exploration.nodup hvisited hS
  have hopened := hinv.exploration.reached S (List.mem_append_right _ hS)
  obtain ⟨c, hc⟩ := evaluate_returns hne hnodup (nodeSet_of_opened hopened)
  obtain ⟨trace, htrace⟩ := hinv.traced S ((hinv.queued S).mpr (.inr hS))
  have hpasses : Passes circuit obligations S ↔ c.certified = true :=
    ⟨fun ⟨c', hc', hcertified⟩ => Except.ok.inj (hc.symm.trans hc') ▸ hcertified,
      fun hcertified => ⟨c, hc, hcertified⟩⟩
  unfold CausalSearch.openSet
  rw [if_neg hfresh, certificateOf_eq hbaseline, bind_of_ok hc,
    bind_of_ok (orRaise_eq_ok.mpr htrace)]
  refine ⟨_, rfl, ?_⟩
  unfold CausalSearch.record
  by_cases hcertified : c.certified = true
  · simp only [hcertified, if_true]
    -- A set that passes is kept, and has no successor.
    have hnone : ([] : List (List String)).Nodup := List.nodup_nil
    have hstep := hexploration.step hnone (fun T hT => by cases hT) fun T hT => by
        obtain ⟨c', hc', hfails, -⟩ := hT
        rw [← Except.ok.inj (hc.symm.trans hc'), hcertified] at hfails
        cases hfails
    rw [List.append_nil] at hstep
    refine ⟨⟨hstep, fun T => ?_, hinv.traced, ?_, fun T => ?_⟩, by simp⟩
    · rw [hinv.queued T]
      simp only [(List.perm_cons_erase hS).mem_iff, List.mem_append, List.mem_cons,
        List.not_mem_nil, or_false]
      tauto
    · simp [hinv.records]
    · simp only [List.mem_append, List.mem_singleton, hinv.terminals T]
      constructor
      · rintro (h | rfl)
        · exact ⟨.inl h.1, h.2⟩
        · exact ⟨.inr rfl, hpasses.mpr hcertified⟩
      · rintro ⟨h | rfl, hpass⟩
        · exact .inl ⟨h, hpass⟩
        · exact .inr rfl
  · have hfails : c.certified = false := by simpa using hcertified
    simp only [hfails, Bool.false_eq_true, if_false]
    obtain ⟨hinv', hlength⟩ := @expanded_spec circuit obligations S search.visited c trace
      { search with
        heap := search.heap.erase S
        visited := search.visited ++ [S]
        records := search.records ++
          [⟨S, trace, (S.map (capabilityCost circuit)).sum, c⟩]
        candidateNodes := search.candidateNodes ++ c.eligibleNodeIds }
      hc hfails hexploration rfl
      (fun T => by rw [hinv.queued T, (List.perm_cons_erase hS).mem_iff]) hinv.traced
      (by simp [hinv.records]) fun T => by
        simp only [List.mem_append, List.mem_singleton, hinv.terminals T]
        constructor
        · exact fun h => ⟨.inl h.1, h.2⟩
        · rintro ⟨h | rfl, hpass⟩
          · exact ⟨h, hpass⟩
          · exact absurd (hpasses.mp hpass) hcertified
    exact ⟨hinv', hlength.trans (by simp)⟩

theorem run_spec (hne : obligations ≠ [])
    (hnodup : (obligations.map CertificateObligation.channel).Nodup) (maxEvaluations fuel : ℕ)
    (hinv : SearchInv circuit obligations search)
    (hrecords : search.records.length ≤ maxEvaluations)
    (hfuel : maxEvaluations < fuel + search.records.length) : ∃ capped final,
      CausalSearch.run circuit obligations baseline maxEvaluations fuel search =
        .ok (capped, final) ∧ SearchInv circuit obligations final ∧
      (capped = false → final.heap = []) := by
  induction fuel generalizing search with
  | zero => omega
  | succ fuel ih =>
    unfold CausalSearch.run
    cases hargmin : search.heap.argmin (setCost circuit) with
    | none => exact ⟨false, search, rfl, hinv, fun _ => List.argmin_eq_none.mp hargmin⟩
    | some S =>
      by_cases hcap : maxEvaluations ≤ search.records.length
      · exact ⟨true, search, by simp [hcap], hinv, fun h => by cases h⟩
      · obtain ⟨search', hopen, hinv', hlength⟩ :=
          openSet_spec hbaseline hne hnodup hinv (List.argmin_mem hargmin)
        obtain ⟨capped, final, hrun, hfinal⟩ := ih hinv' (by omega) (by omega)
        refine ⟨capped, final, ?_, hfinal⟩
        simp only [hcap, if_false]
        rw [bind_of_ok hopen]
        exact hrun

end Rounds

section Family

variable {search : CausalSearch} (hinv : SearchInv circuit obligations search)
include hinv

theorem SearchInv.nodeSet (hS : S ∈ search.terminals) : NodeSet circuit S :=
  nodeSet_of_opened (hinv.exploration.reached S
    (List.mem_append_left _ ((hinv.terminals S).mp hS).1))

theorem minimal_ne_nil (hterminals : search.terminals ≠ []) : search.minimal circuit ≠ [] := by
  obtain ⟨S, hS⟩ := Option.ne_none_iff_exists'.mp
    (List.argmin_eq_none.not.mpr hterminals : search.terminals.argmin List.length ≠ none)
  refine List.ne_nil_of_mem (a := S) ?_
  rw [CausalSearch.minimal, mem_sortBy, List.mem_filter, decide_eq_true_eq]
  refine ⟨List.argmin_mem hS, ?_⟩
  rintro ⟨other, hother, hinside⟩
  have hle := List.le_of_mem_argmin hother hS
  have hlt := hinside.length_lt (hinv.nodeSet hother)
  omega

theorem foundFamily_returns (maxEvaluations : ℕ) (hterminals : search.terminals ≠ []) :
    ∃ family, foundFamily circuit baseline maxEvaluations search = .ok family ∧
      family.status = .causalFamilyFound ∧ family.minimalCoverNodeIds = search.minimal circuit := by
  obtain ⟨selected, hselected⟩ := Option.ne_none_iff_exists'.mp
    (List.head?_eq_none_iff.not.mpr (minimal_ne_nil hinv hterminals))
  have hmem := List.mem_of_mem_head? hselected
  rw [CausalSearch.minimal, mem_sortBy] at hmem
  have hvisited := ((hinv.terminals selected).mp (List.mem_filter.mp hmem).1).1
  rw [← hinv.records] at hvisited
  obtain ⟨record, hrecord, heq⟩ := List.mem_map.mp hvisited
  obtain ⟨found, hfound⟩ := Option.isSome_iff_exists.mp (List.find?_isSome.mpr
    ⟨record, hrecord, decide_eq_true heq⟩ : (search.records.find? fun record =>
      record.dischargedNodeIds = selected).isSome)
  exact ⟨_, bind_eq_ok.mpr ⟨selected, orRaise_eq_ok.mpr hselected, bind_eq_ok.mpr
    ⟨found, orRaise_eq_ok.mpr hfound, rfl⟩⟩, rfl, rfl⟩

variable (hheap : search.heap = [])
include hheap

theorem mem_terminals : S ∈ search.terminals ↔
    Relation.ReflTransGen (Opens circuit obligations) [] S ∧ Passes circuit obligations S := by
  have hexploration := hinv.exploration
  rw [hheap] at hexploration
  rw [hinv.terminals, hexploration.mem_visited]

theorem mem_minimal (hopened : ∀ M, MinimalCover circuit obligations M →
      Relation.ReflTransGen (Opens circuit obligations) [] M) :
    S ∈ search.minimal circuit ↔ MinimalCover circuit obligations S := by
  rw [CausalSearch.minimal, mem_sortBy, List.mem_filter, decide_eq_true_eq]
  constructor
  · rintro ⟨hS, hnone⟩
    obtain ⟨-, hpasses⟩ := (mem_terminals hinv hheap).mp hS
    obtain ⟨M, hM, hinside⟩ := exists_minimalCover (hinv.nodeSet hS) hpasses
    have hmem : M ∈ search.terminals := (mem_terminals hinv hheap).mpr ⟨hopened M hM, hM.passes⟩
    by_contra hcover
    have hne : M ≠ S := fun heq => hcover (heq ▸ hM)
    exact hnone ⟨M, hmem, hM.nodeSet.strictlyInside (hinv.nodeSet hS) hinside hne⟩
  · intro hM
    refine ⟨(mem_terminals hinv hheap).mpr ⟨hopened S hM, hM.passes⟩, ?_⟩
    rintro ⟨other, hother, hsub, id, hid, hnot⟩
    have hpasses := ((mem_terminals hinv hheap).mp hother).2
    obtain rfl := hM.minimal other (hinv.nodeSet hother) hpasses hsub
    exact hnot hid

end Family

/-! ## Completeness -/

theorem StrictlyInside.trans {U : List String} (h : StrictlyInside S T) (h' : StrictlyInside T U) :
    StrictlyInside S U := by
  obtain ⟨id, hid, hnot⟩ := h'.2
  exact ⟨fun x hx => h'.1 x (h.1 x hx), id, hid, fun hmem => hnot (h.1 id hmem)⟩

/-- A set in order is opened when no smaller set passes, by induction on the order. -/
theorem opened_of_order (hne : obligations ≠ [])
    (hnodup : (obligations.map CertificateObligation.channel).Nodup) {order : List String}
    (hmatters : ∀ l nodeId, l ++ [nodeId] <+: order → Matters circuit obligations l nodeId)
    (hS : NodeSet circuit S) (hperm : order.Perm S)
    (hfails : ∀ T, NodeSet circuit T → StrictlyInside T S → ¬ Passes circuit obligations T) :
    Relation.ReflTransGen (Opens circuit obligations) [] S := by
  induction order using List.reverseRecOn generalizing S with
  | nil =>
    obtain rfl := hperm.nil_eq
    exact .refl
  | append_singleton l nodeId ih =>
    have hmem : ∀ id, id ∈ S ↔ id ∈ l ∨ id = nodeId := fun id => by simp [← hperm.mem_iff]
    obtain ⟨hl, -, hfresh⟩ := List.nodup_append.mp (hperm.nodup_iff.mpr hS.nodup)
    have hset : NodeSet circuit (sortBy id l) :=
      ⟨@pairwise_lt_sortBy _ _ _ id l (by rwa [List.map_id]),
        fun id hid => hS.recoverable id ((hmem id).mpr (.inl (mem_sortBy.mp hid)))⟩
    have hnot : nodeId ∉ sortBy id l := fun hid =>
      hfresh nodeId (mem_sortBy.mp hid) nodeId List.mem_cons_self rfl
    have hinside : StrictlyInside (sortBy id l) S :=
      ⟨fun id hid => (hmem id).mpr (.inl (mem_sortBy.mp hid)), nodeId,
        (hmem _).mpr (.inr rfl), hnot⟩
    have hopened := ih (fun l' id h => hmatters l' id (h.trans (List.prefix_append _ _))) hset
      (perm_sortBy id l).symm fun T hT h => hfails T hT (h.trans hinside)
    obtain ⟨c, hc⟩ := evaluate_returns hne hnodup hset
    have hcertified : c.certified = false := by
      by_contra h
      exact hfails _ hset hinside ⟨c, hc, by simpa using h⟩
    have hnode : nodeId ∈ c.eligibleNodeIds := (mem_eligibleNodeIds hc).mpr
      ⟨hS.recoverable nodeId ((hmem _).mpr (.inr rfl)), hnot,
        (hmatters l nodeId List.prefix_rfl).congr fun id => mem_sortBy.symm⟩
    have hadd : addNode (sortBy id l) nodeId = S :=
      (hset.addNode (hS.recoverable nodeId ((hmem _).mpr (.inr rfl)))).ext hS fun id => by
        rw [mem_addNode, mem_sortBy, hmem]
    exact hadd ▸ hopened.tail ⟨c, hc, hcertified, nodeId, hnode, rfl⟩

theorem orderable_of_opened (h : Relation.ReflTransGen (Opens circuit obligations) [] S) :
    Orderable circuit obligations S := by
  induction h with
  | refl => exact ⟨[], .refl _, fun l nodeId hprefix => by simp at hprefix⟩
  | @tail S _ hopened hopens ih =>
    obtain ⟨c, hc, -, nodeId, hnode, rfl⟩ := hopens
    obtain ⟨order, hperm, hmatters⟩ := ih
    obtain ⟨-, hnot, hlast⟩ := (mem_eligibleNodeIds hc).mp hnode
    have hnodup : (order ++ [nodeId]).Nodup := by
      rw [(hperm.append_right _).nodup_iff, List.nodup_append]
      refine ⟨(nodeSet_of_opened hopened).nodup, List.nodup_singleton _, fun id hid other hother =>
        ?_⟩
      rintro rfl
      exact hnot (List.mem_singleton.mp hother ▸ hid)
    refine ⟨order ++ [nodeId], ?_, fun l id hprefix => ?_⟩
    · refine (List.perm_ext_iff_of_nodup hnodup ((sorted_addNode S nodeId).imp ne_of_lt)).mpr
        fun id => ?_
      rw [mem_addNode, List.mem_append, hperm.mem_iff, List.mem_singleton]
    · rcases List.prefix_concat_iff.mp hprefix with heq | hprefix
      · obtain ⟨rfl, rfl⟩ := List.append_singleton_inj.mp heq
        exact hlast.congr fun _ => hperm.mem_iff.symm
      · exact hmatters l id hprefix

/-- The family is what it is meant to be: the sets that it lists are all the minimal covers, and it
reports that there is none only when no set of recoverable nodes passes. -/
structure Complete (circuit : CausalProofCircuit) (obligations : List CertificateObligation)
    (family : SlackAwareCausalFamily) : Prop where
  covers : ∀ S, S ∈ family.minimalCoverNodeIds ↔ MinimalCover circuit obligations S
  none : family.status = .noCausalCover → ∀ S, NodeSet circuit S → ¬ Passes circuit obligations S

theorem minimalCover_nil (h : Passes circuit obligations []) : MinimalCover circuit obligations
    [] :=
  ⟨nodeSet_nil, h, fun T _ _ hsub =>
    List.eq_nil_iff_forall_not_mem.mpr fun id hid => by cases hsub id hid⟩

theorem familyOf_complete_iff {search : CausalSearch} (hinv : SearchInv circuit obligations search)
    (hheap : search.heap = []) (maxEvaluations : ℕ) : ∃ family,
      familyOf circuit baseline maxEvaluations (false, search) = .ok family ∧
      (Complete circuit obligations family ↔ ∀ M, MinimalCover circuit obligations M →
        Relation.ReflTransGen (Opens circuit obligations) [] M) := by
  unfold familyOf
  simp only [Bool.false_eq_true, if_false]
  by_cases hterminals : search.terminals = []
  · rw [if_pos hterminals]
    have hnone : ∀ M, MinimalCover circuit obligations M →
        ¬ Relation.ReflTransGen (Opens circuit obligations) [] M := fun M hM hopened => by
      have hmem := (mem_terminals hinv hheap).mpr ⟨hopened, hM.passes⟩
      rw [hterminals] at hmem
      cases hmem
    refine ⟨_, rfl, fun hcomplete M hM => ?_, fun h => ⟨fun S => ⟨fun hS => ?_, fun hM => ?_⟩,
      fun _ S hS hpass => ?_⟩⟩
    · exact absurd hM.passes (hcomplete.none rfl M hM.nodeSet)
    · cases hS
    · exact absurd (h S hM) (hnone S hM)
    · obtain ⟨M, hM, -⟩ := exists_minimalCover hS hpass
      exact hnone M hM (h M hM)
  · rw [if_neg hterminals]
    obtain ⟨family, hfamily, hstatus, hcovers⟩ :=
      @foundFamily_returns circuit obligations baseline search hinv maxEvaluations hterminals
    refine ⟨family, hfamily, fun hcomplete M hM => ?_, fun h => ⟨fun S => ?_, fun hnone => ?_⟩⟩
    · have hmem := (hcomplete.covers M).mpr hM
      rw [hcovers, CausalSearch.minimal, mem_sortBy] at hmem
      exact ((mem_terminals hinv hheap).mp (List.mem_filter.mp hmem).1).1
    · rw [hcovers]
      exact mem_minimal hinv hheap h
    · rw [hstatus] at hnone
      cases hnone

/-- The search returns, and below its cap the family is complete exactly when some obligation is
violated at the start and the nodes of every minimal cover can be put in order. -/
theorem findSlackAwareCausalFamily_complete_iff (circuit : CausalProofCircuit)
    (obligations : List CertificateObligation) (maxEvaluations : ℕ) (hne : obligations ≠ [])
    (hnodup : (obligations.map CertificateObligation.channel).Nodup)
    (hcap : 0 < maxEvaluations) : ∃ family,
      findSlackAwareCausalFamily circuit obligations maxEvaluations = .ok family ∧
      (family.status ≠ .searchCapReached → (Complete circuit obligations family ↔
        (∃ o ∈ obligations, ∃ value, Violated circuit [] o value) ∧
          ∀ S, MinimalCover circuit obligations S → Orderable circuit obligations S)) := by
  obtain ⟨baseline, hbaseline⟩ := @evaluate_returns circuit _ _ hne hnodup nodeSet_nil
  unfold findSlackAwareCausalFamily
  rw [bind_of_ok (require_eq_ok (u := ()).mpr hcap), bind_of_ok hbaseline,
    ← certified_eq_false_iff hbaseline]
  by_cases hcertified : baseline.certified = true
  · -- the empty set is the minimal cover, and it is not listed
    refine ⟨_, if_pos hcertified, fun _ => iff_of_false (fun hcomplete => ?_) fun h => ?_⟩
    · cases (hcomplete.covers []).mpr (minimalCover_nil ⟨baseline, hbaseline, hcertified⟩)
    · exact absurd (hcertified.symm.trans h.1) (by decide)
  · obtain ⟨capped, final, hrun, hinv, hheap⟩ := run_spec hbaseline hne hnodup maxEvaluations
      (maxEvaluations + 1) searchInv_initial (Nat.zero_le _) (by omega)
    rw [if_neg hcertified, bind_of_ok hrun]
    cases capped with
    | true => exact ⟨_, rfl, fun hstatus => absurd rfl hstatus⟩
    | false =>
      obtain ⟨family, hfamily, hcomplete⟩ :=
        @familyOf_complete_iff circuit obligations baseline final hinv (hheap rfl) maxEvaluations
      refine ⟨family, hfamily, fun _ => hcomplete.trans ?_⟩
      rw [and_iff_right (by simpa using hcertified)]
      refine forall₂_congr fun M hM => ⟨orderable_of_opened, ?_⟩
      rintro ⟨order, hperm, hmatters⟩
      refine opened_of_order hne hnodup hmatters hM.nodeSet hperm fun T hT hinside hpass => ?_
      obtain ⟨hsub, id, hid, hnot⟩ := hinside
      exact hnot (hM.minimal T hT hpass hsub ▸ hid)

/-! ## A branch that matters late -/

theorem leafFamily_found : (do
    let circuit ← leafCircuit
    SlackAwareCausalFamily.status <$> findSlackAwareCausalFamily circuit leafObligations 8) =
      .ok .causalFamilyFound := by
  decide +kernel

theorem findSlackAwareCausalFamily_complete_iff_leaf :
    ∃ circuit family, leafCircuit = .ok circuit ∧
      findSlackAwareCausalFamily circuit leafObligations 8 = .ok family ∧
      family.status = .causalFamilyFound ∧ (Complete circuit leafObligations family ↔
        (∃ o ∈ leafObligations, ∃ value, Violated circuit [] o value) ∧
          ∀ S, MinimalCover circuit leafObligations S → Orderable circuit leafObligations S) := by
  obtain ⟨circuit, hcircuit, hstatus⟩ := bind_eq_ok.mp leafFamily_found
  obtain ⟨family, hfamily, hiff⟩ :=
    findSlackAwareCausalFamily_complete_iff circuit leafObligations 8 (by decide) (by decide)
      (by decide)
  have hfound : family.status = .causalFamilyFound := by
    rw [hfamily] at hstatus
    exact Except.ok.inj hstatus
  exact ⟨circuit, family, hcircuit, hfamily, hfound, hiff (by rw [hfound]; decide)⟩

/-- The branch of the first gate to the later one is active only after the first is discharged, and
not even then before the later one is. -/
def jointCircuit : Except PyError CausalProofCircuit := do
  let often ← CausalRealization.make "often" 0 (7 / 10) []
  let half ← CausalRealization.make "half" 0 (1 / 2) []
  let successor ← CausalSuccessor.make "later" 1
  let moves ← CausalRealization.make "moves" 0 0 [successor]
  let first ← CausalProofNode.make "first" [often, half, moves] true 1
  let mostly ← CausalRealization.make "mostly" 0 (3 / 5) []
  let rarely ← CausalRealization.make "rarely" 0 (1 / 10) []
  let later ← CausalProofNode.make "later" [mostly, rarely] true 1
  let root ← CausalRoot.make "first" 1
  CausalProofCircuit.make [first, later] [root]

def jointObligations : List CertificateObligation := [⟨.failureUpper, 3 / 10⟩]

/-- What the search reports, and whether both gates together pass. -/
def jointReport : Except PyError (CausalSearchStatus × Bool × List (String × Bool)) := do
  let circuit ← jointCircuit
  let family ← findSlackAwareCausalFamily circuit jointObligations 10
  let both ← evaluateCounterfactualCertificate circuit jointObligations ["first", "later"]
  .ok (family.status, both.certified, circuit.nodes.map fun node => (node.nodeId, node.recoverable))

theorem jointReport_eq :
    jointReport = .ok (.noCausalCover, true, [("first", true), ("later", true)]) := by
  decide +kernel

/-- Both gates together pass, and the search reports that no set does. -/
theorem findSlackAwareCausalFamily_incomplete_joint :
    ∃ circuit family, jointCircuit = .ok circuit ∧
      findSlackAwareCausalFamily circuit jointObligations 10 = .ok family ∧
      family.status ≠ .searchCapReached ∧ ¬ Complete circuit jointObligations family := by
  obtain ⟨circuit, hcircuit, hreport⟩ := bind_eq_ok.mp jointReport_eq
  obtain ⟨family, hfamily, hreport⟩ := bind_eq_ok.mp hreport
  obtain ⟨both, hboth, hreport⟩ := bind_eq_ok.mp hreport
  simp only [Except.ok.injEq, Prod.mk.injEq] at hreport
  obtain ⟨hstatus, hcertified, hnodes⟩ := hreport
  refine ⟨circuit, family, hcircuit, hfamily, by simp [hstatus], fun hcomplete => ?_⟩
  refine hcomplete.none hstatus ["first", "later"] ⟨by decide, fun id hid => ?_⟩
    ⟨both, hboth, hcertified⟩
  have hmem : (id, true) ∈ circuit.nodes.map fun node => (node.nodeId, node.recoverable) := by
    rw [hnodes]
    simpa using hid
  obtain ⟨node, hnode, heq⟩ := List.mem_map.mp hmem
  exact ⟨node, hnode, congrArg Prod.fst heq, congrArg Prod.snd heq⟩

end Acfqp.Recovery
