import Acfqp.Domains.Equivariance

/-!
# The group of the eight transforms

Composition and inverses are found on a probe of three rows and columns. They are right on every
board, because the parameters of a transform multiply in the same way whatever the size. A state,
or a state and an action, has one canonical form for its whole orbit.
-/

namespace Acfqp.Domains

open Library

/-- The eight transforms in their fixed order. -/
def d4Elements : List D4Transform :=
  [.identity, .rotate90, .rotate180, .rotate270, .reflect, .reflectRotate90, .reflectRotate180,
    .reflectRotate270]

theorem mem_d4Elements (transform : D4Transform) : transform ∈ d4Elements := by
  cases transform <;> decide

/-- `left` after `right`, by its action on nine cells. -/
def composeD4 (left right : D4Transform) : Except PyError D4Transform := do
  let target ← (List.range 9).mapM fun cell => do
    let image ← transformCell cell 3 right
    transformCell image 3 left
  let found ← d4Elements.findM? fun candidate => do
    let images ← (List.range 9).mapM fun cell => transformCell cell 3 candidate
    return images = target
  orRaise found (.assertionError "D4 composition left the registered group")

def inverseD4 (transform : D4Transform) : Except PyError D4Transform := do
  let found ← d4Elements.findM? fun candidate => do
    let before ← composeD4 candidate transform
    if before = .identity then
      let after ← composeD4 transform candidate
      return after = .identity
    else return false
  orRaise found (.assertionError "D4 element has no inverse")

def G2048Status.value : G2048Status → String
  | .active => "active"
  | .failure => "failure"

abbrev StateKey := List ℕ ×ₗ String

abbrev StateActionKey := List ℕ ×ₗ String ×ₗ ℕ ×ₗ ℕ ×ₗ ℕ

def stateKey (state : G2048State) : StateKey := toLex (state.board, state.status.value)

def stateActionKey (pair : G2048State × G2048Action) : StateActionKey :=
  toLex (pair.1.board, toLex (pair.1.status.value, toLex (pair.2.first,
    toLex (pair.2.second, pair.2.survivor))))

theorem stateKey_injective : Function.Injective stateKey := by
  rintro ⟨board, status⟩ ⟨board', status'⟩ h
  obtain ⟨hboard, hstatus⟩ := Prod.mk.inj h
  cases status <;> cases status' <;> simp_all [G2048Status.value]

theorem stateActionKey_injective : Function.Injective stateActionKey := by
  rintro ⟨⟨board, status⟩, action⟩ ⟨⟨board', status'⟩, action'⟩ h
  obtain ⟨hboard, hrest⟩ := Prod.mk.inj h
  obtain ⟨hstatus, hrest⟩ := Prod.mk.inj hrest
  have hstate : stateKey ⟨board, status⟩ = stateKey ⟨board', status'⟩ :=
    Prod.ext hboard hstatus
  exact Prod.ext (stateKey_injective hstate) (G2048Action.triple_injective hrest)

def canonicalizeState (state : G2048State) (size : ℕ) :
    Except PyError (G2048State × D4Transform) := do
  let indexed ← d4Elements.zipIdx.mapM fun element => do
    let image ← transformState state element.1 size
    return (image, element.2, element.1)
  let least ← orRaise (indexed.argmin fun item =>
      (toLex (stateKey item.1, item.2.1) : StateKey ×ₗ ℕ))
    (.valueError "min() iterable argument is empty")
  return (least.1, least.2.2)

def canonicalizeStateAction (state : G2048State) (action : G2048Action) (size : ℕ) :
    Except PyError (G2048State × G2048Action × D4Transform) := do
  let candidates ← d4Elements.zipIdx.mapM fun element => do
    let image ← transformState state element.1 size
    let imageAction ← transformAction action element.1 size
    return ((image, imageAction), element.2, element.1)
  let least ← orRaise (candidates.argmin fun item =>
      (toLex (stateActionKey item.1, item.2.1) : StateActionKey ×ₗ ℕ))
    (.valueError "min() iterable argument is empty")
  return (least.1.1, least.1.2, least.2.2)

/-! ## Composition and inverses -/

section

/-- The probe finds the product of the parameters. -/
theorem composeD4_parameters (left right : D4Transform) :
    ∃ whole, composeD4 left right = .ok whole ∧ transformParameters whole =
      ((transformParameters left).1 ^^ (transformParameters right).1,
        ((transformParameters left).2 + if (transformParameters left).1 then
          3 * (transformParameters right).2 else (transformParameters right).2) % 4) := by
  cases left <;> cases right <;> exact ⟨_, rfl, rfl⟩

theorem inverseD4_composes (transform : D4Transform) :
    ∃ inverse, inverseD4 transform = .ok inverse ∧ composeD4 inverse transform = .ok .identity ∧
      composeD4 transform inverse = .ok .identity := by
  cases transform <;> exact ⟨_, rfl, rfl, rfl⟩

variable {size : ℕ}

/-- On every board the composition is the product of the renamings. -/
theorem symmetry_composeD4 {left right whole : D4Transform} (h : composeD4 left right = .ok whole) :
    symmetry size whole = symmetry size left * symmetry size right := by
  obtain ⟨whole', hwhole, hparameters⟩ := composeD4_parameters left right
  obtain rfl : whole' = whole := Except.ok.inj (hwhole.symm.trans h)
  rw [symmetry, hparameters, symmetry, symmetry, symmetryCells_mul]

theorem symmetry_identity : symmetry size .identity = 1 := symmetryCells_one

variable (size) in
/-- Two transforms in a row are one transform. -/
theorem exists_symmetry_mul (left right : D4Transform) :
    ∃ whole, symmetry size whole = symmetry size left * symmetry size right := by
  obtain ⟨whole, hwhole, -⟩ := composeD4_parameters left right
  exact ⟨whole, symmetry_composeD4 hwhole⟩

variable (size) in
/-- What one transform does is done by some transform after any first one. -/
theorem exists_mul_symmetry (whole right : D4Transform) :
    ∃ left, symmetry size left * symmetry size right = symmetry size whole := by
  obtain ⟨inverse, -, hinverse, -⟩ := inverseD4_composes right
  obtain ⟨left, hleft⟩ := exists_symmetry_mul size whole inverse
  have hone : symmetry size inverse * symmetry size right = 1 := by
    rw [← symmetry_composeD4 hinverse, symmetry_identity]
  exact ⟨left, by rw [hleft, mul_assoc, hone, mul_one]⟩

end

section Images

variable {size : ℕ} {σ τ : Equiv.Perm ℕ}

def imageState (σ : Equiv.Perm ℕ) (state : G2048State) : G2048State :=
  ⟨relabelRanks σ state.board, state.status⟩

@[simp] theorem length_imageState (state : G2048State) :
    (imageState σ state).board.length = state.board.length := length_relabelRanks

theorem imageState_mul {state : G2048State} (hτ : Keeps τ state.board.length) :
    imageState (σ * τ) state = imageState σ (imageState τ state) := by
  rw [imageState, relabelRanks_mul hτ]
  rfl

theorem imageState_one (state : G2048State) : imageState 1 state = state := by
  have hboard : relabelRanks 1 state.board = state.board := by
    apply List.ext_getElem
    · simp
    · intro i hi hi'
      simp only [relabelRanks, List.getElem_map, List.getElem_range]
      exact List.getD_eq_getElem _ _ hi'
  rw [imageState, hboard]

theorem imageAction_mul (action : G2048Action) :
    imageAction (σ * τ) action = imageAction σ (imageAction τ action) := by
  apply G2048Action.triple_injective
  rcases le_total (τ action.first) (τ action.second) with h | h <;>
    simp [G2048Action.triple, imageAction, h, min_comm, max_comm]

theorem imageAction_one (action : G2048Action) : imageAction 1 action = action := by
  apply G2048Action.triple_injective
  simp [G2048Action.triple, imageAction, action.ordered.le]

theorem transformState_of_length (hsize : 2 ≤ size) {state : G2048State}
    (hboard : state.board.length = size * size) (transform : D4Transform) :
    transformState state transform size = .ok (imageState (symmetry size transform) state) := by
  rw [transformState, transformBoard_eq hsize hboard]
  rfl

theorem imageAction_second_lt (hσ : Keeps σ (size * size)) {action : G2048Action}
    (hcells : action.second < size * size) : (imageAction σ action).second < size * size :=
  max_lt ((hσ _).mpr (action.ordered.trans hcells)) ((hσ _).mpr hcells)

end Images

section Canonical

/-- The least image under the eight transforms, the first of them on ties. -/
theorem argmin_images {β κ : Type} [LinearOrder κ] (f : D4Transform → β) (key : β → κ) :
    ∃ transform index, (d4Elements.zipIdx.map fun element =>
        (f element.1, element.2, element.1)).argmin
          (fun item => (toLex (key item.1, item.2.1) : κ ×ₗ ℕ)) =
        some (f transform, index, transform) ∧ ∀ other, key (f transform) ≤ key (f other) := by
  cases hleast : (d4Elements.zipIdx.map fun element => (f element.1, element.2, element.1)).argmin
      (fun item => (toLex (key item.1, item.2.1) : κ ×ₗ ℕ)) with
  | none => exact absurd (List.argmin_eq_none.mp hleast) (by simp [d4Elements])
  | some least =>
    obtain ⟨⟨transform, index⟩, -, rfl⟩ := List.mem_map.mp (List.argmin_mem hleast)
    refine ⟨transform, index, rfl, fun other => ?_⟩
    obtain ⟨element, helement, rfl⟩ : ∃ element ∈ d4Elements.zipIdx, element.1 = other := by
      have := mem_d4Elements other
      rw [← List.zipIdx_map_fst 0 d4Elements] at this
      exact List.mem_map.mp this
    exact Prod.Lex.monotone_fst _ _ (List.le_of_mem_argmin (List.mem_map_of_mem helement) hleast)

variable {size : ℕ} (hsize : 2 ≤ size)
include hsize

theorem canonicalizeState_least {state : G2048State} (hboard : state.board.length = size * size) :
    ∃ transform, canonicalizeState state size =
        .ok (imageState (symmetry size transform) state, transform) ∧
      ∀ other, stateKey (imageState (symmetry size transform) state) ≤
        stateKey (imageState (symmetry size other) state) := by
  obtain ⟨transform, index, hleast, hle⟩ :=
    argmin_images (fun t => imageState (symmetry size t) state) stateKey
  refine ⟨transform, bind_eq_ok.mpr ⟨_, mapM_of_forall fun element _ => ?_,
    bind_eq_ok.mpr ⟨_, orRaise_eq_ok.mpr hleast, rfl⟩⟩, hle⟩
  exact bind_eq_ok.mpr ⟨_, transformState_of_length hsize hboard _, rfl⟩

theorem canonicalizeStateAction_least {state : G2048State} {action : G2048Action}
    (hboard : state.board.length = size * size) (hcells : action.second < size * size) :
    ∃ transform, canonicalizeStateAction state action size =
        .ok (imageState (symmetry size transform) state,
          imageAction (symmetry size transform) action, transform) ∧
      ∀ other, stateActionKey (imageState (symmetry size transform) state,
          imageAction (symmetry size transform) action) ≤
        stateActionKey (imageState (symmetry size other) state,
          imageAction (symmetry size other) action) := by
  obtain ⟨transform, index, hleast, hle⟩ := argmin_images
    (fun t => (imageState (symmetry size t) state, imageAction (symmetry size t) action))
    stateActionKey
  refine ⟨transform, bind_eq_ok.mpr ⟨_, mapM_of_forall fun element _ => ?_,
    bind_eq_ok.mpr ⟨_, orRaise_eq_ok.mpr hleast, rfl⟩⟩, hle⟩
  exact bind_eq_ok.mpr ⟨_, transformState_of_length hsize hboard _,
    bind_eq_ok.mpr ⟨_, transformAction_eq hsize hcells, rfl⟩⟩

end Canonical

section Laws

variable (size : ℕ)

/-- `whole` does to cells, states and actions what `left` does after `right`. -/
structure Composes (left right whole : D4Transform) : Prop where
  cell : ∀ cell < size * size, transformCell cell size whole =
    transformCell cell size right >>= fun image => transformCell image size left
  state : ∀ state : G2048State, state.board.length = size * size →
    transformState state whole size =
      transformState state right size >>= fun image => transformState image left size
  action : ∀ action : G2048Action, action.second < size * size →
    transformAction action whole size =
      transformAction action right size >>= fun image => transformAction image left size

/-- `inverse` gives back the cells, states and actions that `transform` moved. -/
structure Undoes (inverse transform : D4Transform) : Prop where
  cell : ∀ cell < size * size,
    (transformCell cell size transform >>= fun image => transformCell image size inverse) = .ok cell
  state : ∀ state : G2048State, state.board.length = size * size →
    (transformState state transform size >>= fun image => transformState image inverse size) =
      .ok state
  action : ∀ action : G2048Action, action.second < size * size →
    (transformAction action transform size >>= fun image => transformAction image inverse size) =
      .ok action

def CanonicalState (state : G2048State) : Prop :=
  ∃ representative transform, canonicalizeState state size = .ok (representative, transform) ∧
    transformState state transform size = .ok representative ∧
    ∀ element image, transformState state element size = .ok image →
      ∃ transform', canonicalizeState image size = .ok (representative, transform')

def CanonicalStateAction (state : G2048State) (action : G2048Action) : Prop :=
  ∃ representative representativeAction transform,
    canonicalizeStateAction state action size =
      .ok (representative, representativeAction, transform) ∧
    transformState state transform size = .ok representative ∧
    transformAction action transform size = .ok representativeAction ∧
    ∀ element image imageAction, transformState state element size = .ok image →
      transformAction action element size = .ok imageAction →
      ∃ transform', canonicalizeStateAction image imageAction size =
        .ok (representative, representativeAction, transform')

variable {size} (hsize : 2 ≤ size)
include hsize

theorem composes_of_composeD4 {left right whole : D4Transform}
    (h : composeD4 left right = .ok whole) : Composes size left right whole := by
  have hproduct : symmetry size whole = symmetry size left * symmetry size right :=
    symmetry_composeD4 h
  have hkeeps := keeps_symmetry size right
  refine ⟨fun cell hcell => ?_, fun state hboard => ?_, fun action hcells => ?_⟩
  · rw [transformCell_eq hsize hcell, transformCell_eq hsize hcell, hproduct]
    exact (transformCell_eq hsize ((hkeeps cell).mpr hcell)).symm
  · rw [transformState_of_length hsize hboard, transformState_of_length hsize hboard, hproduct,
      imageState_mul (hboard ▸ hkeeps)]
    exact (transformState_of_length hsize ((length_imageState state).trans hboard) left).symm
  · rw [transformAction_eq hsize hcells, transformAction_eq hsize hcells, hproduct, imageAction_mul]
    exact (transformAction_eq hsize (imageAction_second_lt hkeeps hcells)).symm

theorem undoes_of_composeD4 {inverse transform : D4Transform}
    (h : composeD4 inverse transform = .ok .identity) : Undoes size inverse transform := by
  have hcomposes := composes_of_composeD4 hsize h
  refine ⟨fun cell hcell => ?_, fun state hboard => ?_, fun action hcells => ?_⟩
  · rw [← hcomposes.cell cell hcell, transformCell_eq hsize hcell, symmetry_identity]
    rfl
  · rw [← hcomposes.state state hboard, transformState_of_length hsize hboard, symmetry_identity,
      imageState_one]
  · rw [← hcomposes.action action hcells, transformAction_eq hsize hcells, symmetry_identity,
      imageAction_one]

theorem canonicalState {state : G2048State} (hboard : state.board.length = size * size) :
    CanonicalState size state := by
  obtain ⟨transform, hcanonical, hle⟩ := canonicalizeState_least hsize hboard
  refine ⟨_, transform, hcanonical, transformState_of_length hsize hboard _, ?_⟩
  intro element image himage
  rw [transformState_of_length hsize hboard] at himage
  obtain rfl := Except.ok.inj himage
  have hkeeps : Keeps (symmetry size element) state.board.length :=
    hboard ▸ keeps_symmetry size element
  obtain ⟨transform', hcanonical', hle'⟩ := canonicalizeState_least hsize
    ((length_imageState (σ := symmetry size element) state).trans hboard)
  simp only [← imageState_mul hkeeps] at hcanonical' hle'
  obtain ⟨whole, hwhole⟩ := exists_symmetry_mul size transform' element
  obtain ⟨part, hpart⟩ := exists_mul_symmetry size transform element
  have hkey : stateKey (imageState (symmetry size transform' * symmetry size element) state) =
      stateKey (imageState (symmetry size transform) state) :=
    le_antisymm (hpart ▸ hle' part) (hwhole ▸ hle whole)
  exact ⟨transform', by rw [hcanonical', stateKey_injective hkey]⟩

theorem canonicalStateAction {state : G2048State} {action : G2048Action}
    (hboard : state.board.length = size * size) (hcells : action.second < size * size) :
    CanonicalStateAction size state action := by
  obtain ⟨transform, hcanonical, hle⟩ := canonicalizeStateAction_least hsize hboard hcells
  refine ⟨_, _, transform, hcanonical, transformState_of_length hsize hboard _,
    transformAction_eq hsize hcells, ?_⟩
  intro element image actionImage himage hactionImage
  rw [transformState_of_length hsize hboard] at himage
  rw [transformAction_eq hsize hcells] at hactionImage
  obtain rfl := Except.ok.inj himage
  obtain rfl := Except.ok.inj hactionImage
  have hkeeps : Keeps (symmetry size element) state.board.length :=
    hboard ▸ keeps_symmetry size element
  obtain ⟨transform', hcanonical', hle'⟩ := canonicalizeStateAction_least hsize
    ((length_imageState (σ := symmetry size element) state).trans hboard)
    (imageAction_second_lt (keeps_symmetry size element) hcells)
  simp only [← imageState_mul hkeeps, ← imageAction_mul] at hcanonical' hle'
  obtain ⟨whole, hwhole⟩ := exists_symmetry_mul size transform' element
  obtain ⟨part, hpart⟩ := exists_mul_symmetry size transform element
  have hkey : stateActionKey
        (imageState (symmetry size transform' * symmetry size element) state,
          imageAction (symmetry size transform' * symmetry size element) action) =
      stateActionKey (imageState (symmetry size transform) state,
        imageAction (symmetry size transform) action) :=
    le_antisymm (hpart ▸ hle' part) (hwhole ▸ hle whole)
  obtain ⟨hstate, haction⟩ := Prod.mk.inj (stateActionKey_injective hkey)
  exact ⟨transform', by rw [hcanonical', hstate, haction]⟩

/-- The eight transforms are a group of bijections on every board, composed and inverted by their
action on nine cells, and every state, with or without an action, has a canonical form. -/
theorem d4_laws :
    (∀ transform, ∃ σ : Equiv.Perm (Fin (size * size)),
      ∀ cell : Fin (size * size), transformCell cell size transform = .ok (σ cell : ℕ)) ∧
    (∀ left right, ∃ whole, composeD4 left right = .ok whole ∧ Composes size left right whole) ∧
    (∀ transform, ∃ inverse, inverseD4 transform = .ok inverse ∧ Undoes size inverse transform ∧
      Undoes size transform inverse) ∧
    (∀ state : G2048State, state.board.length = size * size → CanonicalState size state) ∧
    (∀ (state : G2048State) (action : G2048Action), state.board.length = size * size →
      action.second < size * size → CanonicalStateAction size state action) := by
  refine ⟨fun transform => ?_, fun left right => ?_, fun transform => ?_,
    fun state hboard => canonicalState hsize hboard,
    fun state action hboard hcells => canonicalStateAction hsize hboard hcells⟩
  · refine ⟨finProdFinEquiv.permCongr (squareSymmetry size (transformParameters transform).1
      (transformParameters transform).2), fun cell => ?_⟩
    rw [transformCell_eq hsize cell.isLt]
    exact congrArg _ (cells_of_lt _ cell.isLt)
  · obtain ⟨whole, hwhole, -⟩ := composeD4_parameters left right
    exact ⟨whole, hwhole, composes_of_composeD4 hsize hwhole⟩
  · obtain ⟨inverse, hinverse, hbefore, hafter⟩ := inverseD4_composes transform
    exact ⟨inverse, hinverse, undoes_of_composeD4 hsize hbefore, undoes_of_composeD4 hsize hafter⟩

end Laws

/-- The canonical form of a corner tile on four cells. -/
theorem d4_laws_corner : CanonicalState 2 ⟨[1, 0, 0, 0], .active⟩ :=
  (@d4_laws 2 le_rfl).2.2.2.1 _ rfl

end Acfqp.Domains
