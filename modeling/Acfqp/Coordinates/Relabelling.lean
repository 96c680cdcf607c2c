import Acfqp.Coordinates.Views
import Acfqp.Library.Grouping
import Acfqp.Library.Renamed

/-!
# Relabelled graphs

The action of a permutation of the vertices on edges, ranks, actions, topologies and views, and what
it does to neighbors and to legal actions.
-/

namespace Acfqp.Coordinates

open Library Acfqp.Graph

variable {σ : Equiv.Perm ℕ} {ranks : List ℕ}

/-! ## Edges and actions -/

variable (σ) in
def relabelEdge (e : Edge) : Edge :=
  if h : σ e.first < σ e.second then ⟨σ e.first, σ e.second, h⟩
  else ⟨σ e.second, σ e.first, by
    have := σ.injective.ne e.ordered.ne
    omega⟩

theorem relabelEdge_cases (σ : Equiv.Perm ℕ) (e : Edge) :
    ((relabelEdge σ e).first = σ e.first ∧ (relabelEdge σ e).second = σ e.second) ∨
    ((relabelEdge σ e).first = σ e.second ∧ (relabelEdge σ e).second = σ e.first) := by
  unfold relabelEdge
  split
  · exact .inl ⟨rfl, rfl⟩
  · exact .inr ⟨rfl, rfl⟩

@[simp] theorem joins_relabelEdge {e : Edge} {v : ℕ} :
    (relabelEdge σ e).Joins (σ v) ↔ e.Joins v := by
  unfold Edge.Joins
  obtain ⟨hfirst, hsecond⟩ | ⟨hfirst, hsecond⟩ := relabelEdge_cases σ e <;>
    rw [hfirst, hsecond, σ.injective.eq_iff, σ.injective.eq_iff]
  exact or_comm

theorem relabelEdge_injective (σ : Equiv.Perm ℕ) : Function.Injective (relabelEdge σ) := by
  intro e e' h
  apply Edge.key_injective
  have hinj := σ.injective
  have ho := e.ordered
  have ho' := e'.ordered
  obtain ⟨hfirst, hsecond⟩ | ⟨hfirst, hsecond⟩ := relabelEdge_cases σ e <;>
    obtain ⟨hfirst', hsecond'⟩ | ⟨hfirst', hsecond'⟩ := relabelEdge_cases σ e' <;>
    rw [h] at hfirst hsecond <;>
    have h₁ := hinj (hfirst.symm.trans hfirst') <;>
    have h₂ := hinj (hsecond.symm.trans hsecond')
  · simp [Edge.key, h₁, h₂]
  · omega
  · omega
  · simp [Edge.key, h₁, h₂]

variable (σ) in
def relabelAction (a : GraphAction) : GraphAction where
  edge := relabelEdge σ a.edge
  survivor := σ a.survivor
  survivor_mem := joins_relabelEdge.mpr a.survivor_mem

theorem relabelAction_injective (σ : Equiv.Perm ℕ) : Function.Injective (relabelAction σ) := by
  rintro ⟨e, v, hv⟩ ⟨e', v', hv'⟩ h
  obtain ⟨he, hvv⟩ := GraphAction.mk.inj h
  obtain rfl := relabelEdge_injective σ he
  obtain rfl := σ.injective hvv
  rfl

theorem exists_relabelAction {e : Edge} {a' : GraphAction} (h : a'.edge = relabelEdge σ e) :
    ∃ a : GraphAction, a.edge = e ∧ relabelAction σ a = a' := by
  obtain ⟨_, v, hv⟩ := a'
  obtain rfl : _ = relabelEdge σ e := h
  have hjoins : e.Joins (σ.symm v) := joins_relabelEdge.mp ((σ.apply_symm_apply v).symm ▸ hv)
  refine ⟨⟨e, σ.symm v, hjoins⟩, rfl, GraphAction.triple_injective ?_⟩
  simp [GraphAction.triple, relabelAction]

theorem actionKey_injective : Function.Injective actionKey := by
  rintro ⟨e, v, hv⟩ ⟨e', v', hv'⟩ h
  obtain ⟨rfl, rfl⟩ := Prod.mk.inj (toLex.injective h)
  rfl

/-! ## Legal actions -/

theorem rankAt_eq (ranks : List ℕ) (v : ℕ) : rankAt ranks v = orRaise ranks[v]? .index := rfl

/-- An edge merges under its new name when it merges under its old one. The ranks are read in the
order of the names, but an unreadable vertex is the larger one either way. -/
theorem mergeable_relabelEdge (h : Keeps σ ranks.length) (e : Edge) :
    mergeable (relabelRanks σ ranks) (relabelEdge σ e) = mergeable ranks e := by
  have hfirst := getElem?_relabelRanks h e.first
  have hsecond := getElem?_relabelRanks h e.second
  unfold relabelEdge
  split
  · simp only [mergeable, rankAt_eq, hfirst, hsecond]
  · next hlt =>
    simp only [mergeable, rankAt_eq, hfirst, hsecond]
    by_cases hv : e.second < ranks.length
    · have hu : e.first < ranks.length := e.ordered.trans hv
      rw [List.getElem?_eq_getElem hu, List.getElem?_eq_getElem hv]
      simp only [orRaise, bind, Except.bind, pure, Except.pure]
      by_cases heq : ranks[e.second] = ranks[e.first]
      · rw [heq]
      · rw [decide_eq_false heq, decide_eq_false (Ne.symm heq), ite_self, ite_self]
    · have hu : ¬ e.first < ranks.length := by
        have := h e.first
        have := h e.second
        omega
      rw [List.getElem?_eq_none (by omega), List.getElem?_eq_none (by omega)]

theorem mergeable_raises (ranks : List ℕ) (e : Edge) :
    Raises (· = GraphError.index) (mergeable ranks e) := by
  refine .bind (.orRaise rfl) fun first _ => ?_
  split
  · exact .bind (.orRaise rfl) fun second _ => .pure
  · exact .pure

theorem legalActionTuples_of_mergeable {topology : GraphTopology} {legal : Edge → Bool}
    (h : ∀ e ∈ topology.edges, mergeable ranks e = .ok (legal e)) :
    legalActionTuples topology ranks =
      .ok ((topology.edges.filter legal).flatMap Edge.actions) := by
  have hmerges : topology.edges.mapM (fun e => do
      let merges ← mergeable ranks e
      return if merges then e.actions else []) =
        .ok (topology.edges.map fun e => if legal e then e.actions else []) :=
    mapM_of_forall fun e he => by rw [h e he]; rfl
  unfold legalActionTuples
  rw [hmerges]
  refine congrArg Except.ok ?_
  induction topology.edges with
  | nil => rfl
  | cons e edges ih => cases he : legal e <;> simp [he, ih]

theorem legalActionTuples_of_error {topology : GraphTopology} {e : Edge}
    (he : e ∈ topology.edges) (h : mergeable ranks e = .error .index) :
    legalActionTuples topology ranks = .error .index := by
  have hmerges : topology.edges.mapM (fun e => do
      let merges ← mergeable ranks e
      return if merges then e.actions else []) = .error .index := by
    refine mapM_eq_error (fun e _ => .bind (mergeable_raises ranks e) fun _ _ => .pure) he ?_
    rw [h]
    rfl
  unfold legalActionTuples
  rw [hmerges]
  rfl

/-- Canonical order goes by edges, and by the surviving endpoint. -/
theorem pairwise_actions {edges : List Edge} (h : edges.Pairwise (· < ·)) :
    (edges.flatMap Edge.actions).Pairwise fun a b => actionKey a < actionKey b := by
  rw [List.pairwise_flatMap]
  refine ⟨fun e _ => ?_, h.imp fun {e e'} hlt a ha b hb => ?_⟩
  · have := e.ordered
    simp [Edge.actions, actionKey, Prod.Lex.toLex_lt_toLex, this]
  · rw [Edge.mem_actions] at ha hb
    subst ha hb
    exact Prod.Lex.toLex_lt_toLex.mpr (.inl hlt)

/-! ## Topologies -/

def relabelTopology (topology : GraphTopology) (h : Keeps σ topology.vertexCount) :
    GraphTopology where
  vertexCount := topology.vertexCount
  edges := sortBy id (topology.edges.map (relabelEdge σ))
  vertexCount_gt := topology.vertexCount_gt
  edges_ne := by simpa using topology.edges_ne
  edges_lt := by
    intro e he
    obtain ⟨e', he', rfl⟩ := List.mem_map.mp (mem_sortBy.mp he)
    have hlt := topology.vertex_lt he'
    have hfirst := h e'.first
    have hsecond := h e'.second
    obtain ⟨-, heq⟩ | ⟨-, heq⟩ := relabelEdge_cases σ e' <;> omega
  sorted := by
    have hnodup : (sortBy id (topology.edges.map (relabelEdge σ))).Nodup :=
      (perm_sortBy _ _).nodup_iff.mpr
        (List.Nodup.map (relabelEdge_injective σ) (topology.sorted.imp fun h => h.ne))
    exact (pairwise_sortBy id _).imp₂ (fun _ _ => lt_of_le_of_ne) hnodup

variable {topology : GraphTopology} (h : Keeps σ topology.vertexCount)

theorem mem_relabelTopology {e : Edge} : e ∈ (relabelTopology topology h).edges ↔
    ∃ e' ∈ topology.edges, relabelEdge σ e' = e := by
  simp [relabelTopology]

theorem other_relabelEdge {e : Edge} {v : ℕ} (he : e.Joins v) :
    (if (relabelEdge σ e).first = σ v then (relabelEdge σ e).second
      else (relabelEdge σ e).first) = σ (if e.first = v then e.second else e.first) := by
  have ho := e.ordered
  obtain ⟨hfirst, hsecond⟩ | ⟨hfirst, hsecond⟩ := relabelEdge_cases σ e <;>
    rw [hfirst, hsecond] <;> simp only [σ.injective.eq_iff]
  · split <;> rfl
  · rcases he with rfl | rfl
    · simp [ho.ne']
    · simp [ho.ne]

theorem neighbors_relabelTopology (v : ℕ) : (relabelTopology topology h).neighbors (σ v) =
    (Finset.map σ.toEmbedding) <$> topology.neighbors v := by
  unfold GraphTopology.neighbors
  by_cases hv : v < topology.vertexCount
  · have hv' := (h v).mpr hv
    simp only [require, relabelTopology, hv, hv', if_true]
    refine congrArg Except.ok ?_
    ext w
    simp only [List.mem_toFinset, List.mem_map, List.mem_filter, decide_eq_true_eq, mem_sortBy,
      Finset.mem_map, Equiv.coe_toEmbedding]
    constructor
    · rintro ⟨_, ⟨⟨e, he, rfl⟩, hjoins⟩, rfl⟩
      rw [joins_relabelEdge] at hjoins
      exact ⟨_, ⟨e, ⟨he, hjoins⟩, rfl⟩, (other_relabelEdge hjoins).symm⟩
    · rintro ⟨_, ⟨e, ⟨he, hjoins⟩, rfl⟩, rfl⟩
      exact ⟨_, ⟨⟨e, he, rfl⟩, joins_relabelEdge.mpr hjoins⟩, other_relabelEdge hjoins⟩
  · have hv' := mt (h v).mp hv
    simp only [require, relabelTopology, hv, hv', if_false]
    rfl

theorem legalActionTuples_relabelTopology (hranks : Keeps σ ranks.length) :
    Agree (fun legal legal' => legal' = sortBy actionKey (legal.map (relabelAction σ)))
      GraphError.index (legalActionTuples topology ranks)
      (legalActionTuples (relabelTopology topology h) (relabelRanks σ ranks)) := by
  by_cases herror : ∃ e ∈ topology.edges, mergeable ranks e = .error .index
  · obtain ⟨e, he, hmerge⟩ := herror
    refine .inl ⟨legalActionTuples_of_error he hmerge, ?_⟩
    refine legalActionTuples_of_error ((mem_relabelTopology h).mpr ⟨e, he, rfl⟩) ?_
    rw [mergeable_relabelEdge hranks, hmerge]
  · have hmerge : ∀ e ∈ topology.edges,
        mergeable ranks e = .ok (mergeable ranks e == .ok true) := by
      intro e he
      cases hm : mergeable ranks e with
      | error e' =>
        obtain rfl := mergeable_raises ranks e e' hm
        exact absurd ⟨e, he, hm⟩ herror
      | ok merges => cases merges <;> rfl
    have hmerge' : ∀ e ∈ (relabelTopology topology h).edges, mergeable (relabelRanks σ ranks) e =
        .ok (mergeable (relabelRanks σ ranks) e == .ok true) := by
      intro e' he'
      obtain ⟨e, he, rfl⟩ := (mem_relabelTopology h).mp he'
      rw [mergeable_relabelEdge hranks]
      exact hmerge e he
    refine .inr ⟨_, _, legalActionTuples_of_mergeable hmerge,
      legalActionTuples_of_mergeable hmerge', ?_⟩
    have hsorted := pairwise_actions
      (topology.sorted.filter fun e => mergeable ranks e == .ok true)
    have hsorted' := pairwise_actions ((relabelTopology topology h).sorted.filter
      fun e => mergeable (relabelRanks σ ranks) e == .ok true)
    have hnodup {legal : List GraphAction}
        (h : legal.Pairwise fun a b => actionKey a < actionKey b) : legal.Nodup :=
      h.imp fun hab heq => hab.ne (congrArg actionKey heq)
    refine eq_sortBy_of_perm hsorted' ?_
    rw [List.perm_ext_iff_of_nodup (hnodup hsorted')
      ((hnodup hsorted).map (relabelAction_injective σ))]
    intro a'
    simp only [List.mem_flatMap, List.mem_filter, mem_relabelTopology, Edge.mem_actions,
      List.mem_map]
    constructor
    · rintro ⟨_, ⟨⟨e, he, rfl⟩, hm⟩, ha⟩
      rw [mergeable_relabelEdge hranks] at hm
      obtain ⟨a, hedge, rfl⟩ := exists_relabelAction ha
      exact ⟨a, ⟨e, ⟨he, hm⟩, hedge⟩, rfl⟩
    · rintro ⟨a, ⟨e, ⟨he, hm⟩, rfl⟩, rfl⟩
      rw [← mergeable_relabelEdge hranks] at hm
      exact ⟨_, ⟨⟨_, he, rfl⟩, hm⟩, rfl⟩

end Acfqp.Coordinates
