import Acfqp.Domains.Equivariance

/-!
# Relative survivors under the symmetries of the square

Whether a survivor is next to a tile that is not merged depends on which cells are adjacent and
occupied, so the labels of a state and the law that a label stands for follow the symmetries.
-/

namespace Acfqp.Domains

open Library

variable {kernel : G2048Kernel} {transform : D4Transform} {state : G2048State}
  {σ : Equiv.Perm ℕ} {board : List ℕ} {a : G2048Action}

/-! ## Labels -/

theorem isToward_image (h : Symmetric kernel σ)
    (hboard : board.length = kernel.size * kernel.size) (ha : kernel.Merges board a) :
    IsToward kernel (relabelRanks σ board) (imageAction σ a) ↔ IsToward kernel board a := by
  have hkeeps : Keeps σ board.length := hboard ▸ h.keeps
  have hsurvivor : a.survivor < kernel.size * kernel.size := by
    have ho := a.ordered
    have hlt := ha.second_lt
    rcases a.survivor_mem with heq | heq <;> omega
  have hmerged : ∀ cell, (σ cell ≠ (imageAction σ a).first ∧ σ cell ≠ (imageAction σ a).second) ↔
      (cell ≠ a.first ∧ cell ≠ a.second) := by
    intro cell
    obtain ⟨hf, hs⟩ | ⟨hf, hs⟩ := imageAction_cases σ a <;> rw [hf, hs] <;>
      simp only [ne_eq, EmbeddingLike.apply_eq_iff_eq]
    exact and_comm
  unfold IsToward
  simp only [(zipIdx_relabelRanks hkeeps).mem_iff, List.mem_map, exists_exists_and_eq_and]
  refine exists_congr fun entry => and_congr_right fun hentry => ?_
  have hcell : entry.2 < kernel.size * kernel.size := by
    rw [← hboard]
    exact List.snd_lt_of_mem_zipIdx hentry
  have hadjacent := h.adjacent _ hsurvivor _ hcell
  have hcells := hmerged entry.2
  change _ ∧ _ ∧ _ ∧ kernel.Adjacent (σ a.survivor) _ ↔ _
  rw [hadjacent]
  grind

def labelOf (kernel : G2048Kernel) (board : List ℕ) (a : G2048Action) : RelativeSurvivorLabel :=
  if IsToward kernel board a then .toward else .away

theorem relativeSurvivorLabel_eq (hs : kernel.validateState state = .ok ())
    (ha : a ∈ legal kernel state) :
    relativeSurvivorLabel kernel state a = .ok (labelOf kernel state.board a) := by
  rw [relativeSurvivorLabel]
  exact bind_eq_ok.mpr ⟨_, actions_eq hs, bind_eq_ok.mpr ⟨(), require_eq_ok.mpr ha, rfl⟩⟩

theorem labelOf_image (h : Symmetric kernel σ) (hboard : board.length = kernel.size * kernel.size)
    (ha : kernel.Merges board a) :
    labelOf kernel (relabelRanks σ board) (imageAction σ a) = labelOf kernel board a :=
  if_congr (isToward_image h hboard ha) rfl rfl

theorem value_injective : Function.Injective RelativeSurvivorLabel.value := by
  intro l l' h
  cases l <;> cases l' <;> first | rfl | exact absurd h (by decide)

theorem relativeSurvivorLabels_image (h : Symmetric kernel σ)
    (hs : kernel.validateState state = .ok ()) :
    relativeSurvivorLabels kernel ⟨relabelRanks σ state.board, state.status⟩ =
      relativeSurvivorLabels kernel state := by
  obtain ⟨hboard, -⟩ := validateState_eq_ok.mp hs
  have hs' := (@validateState_relabelRanks kernel _ _ (hboard ▸ h.keeps) state.status
    state.status).trans hs
  have hlegal := legal_image h hboard
  have hlabels := fun action (ha : action ∈ legal kernel state) => relativeSurvivorLabel_eq hs ha
  have hlabels' := fun action (ha : action ∈ legal kernel ⟨relabelRanks σ state.board,
    state.status⟩) => relativeSurvivorLabel_eq hs' ha
  have hempty : legal kernel ⟨relabelRanks σ state.board, state.status⟩ = [] ↔
      legal kernel state = [] := by
    rw [← List.length_eq_zero_iff, hlegal.length_eq, List.length_map, List.length_eq_zero_iff]
  have hterminal : kernel.isTerminal ⟨relabelRanks σ state.board, state.status⟩ =
      kernel.isTerminal state := by
    rw [G2048Kernel.isTerminal, G2048Kernel.isTerminal, hs, hs']
  have hdistinct : (distinct ((legal kernel ⟨relabelRanks σ state.board, state.status⟩).map
      (labelOf kernel (relabelRanks σ state.board)))).Perm
      (distinct ((legal kernel state).map (labelOf kernel state.board))) := by
    refine distinct_perm fun label => ?_
    rw [(hlegal.map _).mem_iff, List.map_map]
    exact Eq.to_iff (congrArg (label ∈ ·) (List.map_congr_left fun action ha =>
      labelOf_image h hboard (merges_of_legal ha)))
  rw [relativeSurvivorLabels, relativeSurvivorLabels, actions_eq hs, actions_eq hs']
  change (if legal kernel _ = [] then _ else _) = (if legal kernel _ = [] then _ else _)
  refine if_congr hempty (by rw [hterminal]) ?_
  rw [mapM_of_forall hlabels, mapM_of_forall hlabels']
  exact congrArg _ (sortBy_eq_of_injective value_injective hdistinct)

/-! ## The law of a label -/

def labelled (kernel : G2048Kernel) (state : G2048State) (label : RelativeSurvivorLabel) :
    List G2048Action :=
  (legal kernel state).filter fun a => labelOf kernel state.board a = label

def uniform (actions : List G2048Action) : List (ℚ × G2048Action) :=
  actions.map fun a => (1 / actions.length, a)

theorem concretizeRelativeSurvivor_eq (hs : kernel.validateState state = .ok ())
    (label : RelativeSurvivorLabel) :
    concretizeRelativeSurvivor kernel state label =
      if labelled kernel state label ≠ [] then .ok (uniform (labelled kernel state label)) else
        .error (.valueError s!"relative-survivor action '{label.value}' is unavailable") := by
  have hlabels : (legal kernel state).mapM (fun action => do
      let other ← relativeSurvivorLabel kernel state action
      return (action, other)) =
      .ok ((legal kernel state).map fun a => (a, labelOf kernel state.board a)) :=
    mapM_of_forall fun a ha => by rw [relativeSurvivorLabel_eq hs ha]; rfl
  have hactions : ((((legal kernel state).map fun a => (a, labelOf kernel state.board a)).filter
      (·.2 = label)).map Prod.fst) = labelled kernel state label := by
    rw [List.filter_map, List.map_map]
    exact List.map_id _
  rw [concretizeRelativeSurvivor, bind_of_ok (actions_eq hs), bind_of_ok hlabels]
  dsimp only
  rw [hactions, require]
  split <;> rfl

theorem labelled_image (h : Symmetric kernel σ)
    (hboard : state.board.length = kernel.size * kernel.size) (label : RelativeSurvivorLabel) :
    (labelled kernel ⟨relabelRanks σ state.board, state.status⟩ label).Perm
      ((labelled kernel state label).map (imageAction σ)) := by
  refine ((legal_image h hboard).filter _).trans (List.Perm.of_eq ?_)
  rw [List.filter_map, labelled]
  refine congrArg (List.map _) (List.filter_congr fun a ha => ?_)
  exact congrArg (fun l => decide (l = label)) (labelOf_image h hboard (merges_of_legal ha))

def transformLaw (law : List (ℚ × G2048Action)) (transform : D4Transform) (size : ℕ) :
    Except PyError (List (ℚ × G2048Action)) :=
  law.mapM fun entry => do
    let action ← transformAction entry.2 transform size
    return (entry.1, action)

theorem concretizeRelativeSurvivor_image (hs : kernel.validateState state = .ok ())
    (transform : D4Transform) (label : RelativeSurvivorLabel) :
    Agree (fun law law' => ∃ images, transformLaw law transform kernel.size = .ok images ∧
        law'.Perm images) (.valueError s!"relative-survivor action '{label.value}' is unavailable")
      (concretizeRelativeSurvivor kernel state label)
      (concretizeRelativeSurvivor kernel
        ⟨relabelRanks (symmetry kernel.size transform) state.board, state.status⟩ label) := by
  obtain ⟨hboard, -⟩ := validateState_eq_ok.mp hs
  have hsymmetric : Symmetric kernel (symmetry kernel.size transform) :=
    symmetric_symmetry transform
  have hs' := (@validateState_relabelRanks kernel _ _ (hboard ▸ hsymmetric.keeps)
    state.status state.status).trans hs
  have himage := labelled_image hsymmetric hboard label
  have hlength := himage.length_eq
  rw [List.length_map] at hlength
  rw [concretizeRelativeSurvivor_eq hs, concretizeRelativeSurvivor_eq hs']
  by_cases hne : labelled kernel state label = []
  · have hne' : labelled kernel
        ⟨relabelRanks (symmetry kernel.size transform) state.board, state.status⟩ label = [] := by
      rw [← List.length_eq_zero_iff, hlength, hne, List.length_nil]
    exact .inl ⟨if_neg (not_not.mpr hne), if_neg (not_not.mpr hne')⟩
  · have hne' : labelled kernel
        ⟨relabelRanks (symmetry kernel.size transform) state.board, state.status⟩ label ≠ [] := by
      rw [← List.length_pos_iff, hlength]
      exact List.length_pos_iff.mpr hne
    refine .inr ⟨_, _, if_pos hne, if_pos hne', _, mapM_of_forall (g := fun entry =>
      (entry.1, imageAction (symmetry kernel.size transform) entry.2)) ?_, ?_⟩
    · intro entry hentry
      obtain ⟨a, ha, rfl⟩ := List.mem_map.mp hentry
      have hmerges := merges_of_legal (List.mem_of_mem_filter ha)
      rw [transformAction_eq kernel.size_ge hmerges.second_lt]
      rfl
    · rw [uniform, uniform, hlength, List.map_map]
      exact (himage.map _).trans (List.Perm.of_eq List.map_map)

/-- The legal actions, the outcomes, the survivor labels and the laws that these stand for are, in
the image of a state, the images of those in the state. -/
theorem g2048_equivariant (kernel : G2048Kernel) (transform : D4Transform) (state : G2048State)
    (hs : kernel.validateState state = .ok ()) :
    ∃ image legal legal', transformState state transform kernel.size = .ok image ∧
      kernel.actions state = .ok legal ∧ kernel.actions image = .ok legal' ∧
      (∃ images, legal.mapM (fun action => transformAction action transform kernel.size) =
        .ok images ∧ legal'.Perm images) ∧
      (∀ action ∈ legal, ∃ action', transformAction action transform kernel.size = .ok action' ∧
        relativeSurvivorLabel kernel image action' = relativeSurvivorLabel kernel state action ∧
        ∃ outcomes outcomes' images, kernel.step state action = .ok outcomes ∧
          kernel.step image action' = .ok outcomes' ∧
          outcomes.mapM (fun o => transformOutcome o transform kernel.size) = .ok images ∧
          outcomes'.Perm images) ∧
      relativeSurvivorLabels kernel image = relativeSurvivorLabels kernel state ∧
      ∀ label, Agree (fun law law' => ∃ images,
          transformLaw law transform kernel.size = .ok images ∧ law'.Perm images)
        (.valueError s!"relative-survivor action '{label.value}' is unavailable")
        (concretizeRelativeSurvivor kernel state label)
        (concretizeRelativeSurvivor kernel image label) := by
  obtain ⟨hboard, -⟩ := validateState_eq_ok.mp hs
  have hsymmetric : Symmetric kernel (symmetry kernel.size transform) :=
    symmetric_symmetry transform
  have hs' := (@validateState_relabelRanks kernel _ _ (hboard ▸ hsymmetric.keeps)
    state.status state.status).trans hs
  have hlegal := legal_image hsymmetric hboard
  refine ⟨_, _, _, transformState_eq hboard, actions_eq hs, actions_eq hs',
    ⟨_, mapM_of_forall fun action ha =>
      transformAction_eq kernel.size_ge (merges_of_legal ha).second_lt, hlegal⟩, ?_,
    relativeSurvivorLabels_image hsymmetric hs, concretizeRelativeSurvivor_image hs transform⟩
  intro action ha
  have hmerges := merges_of_legal ha
  have ha' := hlegal.mem_iff.mpr (List.mem_map_of_mem ha)
  obtain ⟨outcomes, outcomes', images, houtcomes, houtcomes', himages, hperm⟩ :=
    @spawnOutcomes_image _ transform _ hs _ hmerges
  refine ⟨_, transformAction_eq kernel.size_ge hmerges.second_lt, ?_, outcomes, outcomes', images,
    step_eq hs ha houtcomes, step_eq hs' ha' houtcomes', himages, hperm⟩
  rw [relativeSurvivorLabel_eq hs ha, relativeSurvivorLabel_eq hs' ha',
    labelOf_image hsymmetric hboard hmerges]

/-- The base state of the safe chain, turned. -/
theorem g2048_equivariant_sample :
    G2048Kernel.safeChain.validateState ⟨[1, 1, 2, 0], .active⟩ = .ok () ∧
      ∃ image, transformState ⟨[1, 1, 2, 0], .active⟩ .rotate90 2 = .ok image ∧
        relativeSurvivorLabels .safeChain image =
          relativeSurvivorLabels .safeChain ⟨[1, 1, 2, 0], .active⟩ := by
  have hs : G2048Kernel.safeChain.validateState ⟨[1, 1, 2, 0], .active⟩ = .ok () := by
    decide +kernel
  obtain ⟨image, _, _, himage, -, -, -, -, hlabels, -⟩ :=
    g2048_equivariant .safeChain .rotate90 ⟨[1, 1, 2, 0], .active⟩ hs
  exact ⟨hs, image, himage, hlabels⟩

end Acfqp.Domains
