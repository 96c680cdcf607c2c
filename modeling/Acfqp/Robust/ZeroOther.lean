import Acfqp.Robust.Audit
import Acfqp.Robust.WellFormed

/-!
# Models without unobserved mass

Taking the unobserved mass away gives an accepted model, with the same reached states, or no model
at all; nothing but a violation stops it.
-/

namespace Acfqp.Robust

open Library PartialSupportIntervalModel

variable {ids : PlannerIds} {model : PartialSupportIntervalModel}

def IsViolation (e : PlannerError) : Prop := ∃ message, e = .violation message

theorem isViolation (message : String) : IsViolation (.violation message) := ⟨message, rfl⟩

/-! ## Exceptions -/

theorem validateSemantics_raises (hroot : (model.catalogue model.rootStateId).isSome) :
    Raises IsViolation model.validateSemantics := by
  refine (Raises.require (isViolation _)).bind fun _ _ => ?_
  refine (Raises.forFresh (isViolation _) (fun row _ => ?_) fun _ _ => Raises.pure).bind
    fun _ _ => ?_
  · exact (Raises.require (isViolation _)).bind fun _ _ =>
      (Raises.require (isViolation _)).bind fun _ _ => Raises.require (isViolation _)
  · obtain ⟨root, hroot⟩ := Option.isSome_iff_exists.mp hroot
    rw [hroot]
    refine Raises.pure.bind fun _ _ => (Raises.mapM fun _ _ => Raises.orRaise (isViolation _)).bind
      fun _ _ => (Raises.require (isViolation _)).bind fun _ _ => ?_
    exact Raises.forFresh (isViolation _) (fun _ _ => Raises.require (isViolation _))
      fun _ _ => Raises.require (isViolation _)

theorem validate_raises : Raises IsViolation (model.validate ids) := by
  refine (Raises.require (isViolation _)).bind fun _ hcatalogues => ?_
  obtain ⟨-, -, hroot⟩ := require_eq_ok.mp hcatalogues
  refine (Raises.require (isViolation _)).bind fun _ _ => (Raises.require (isViolation _)).bind
    fun _ _ => (Raises.require (isViolation _)).bind fun _ _ => validateSemantics_raises ?_
  obtain ⟨catalogue, hcatalogue, hnamed⟩ := List.mem_map.mp hroot
  exact List.find?_isSome.mpr ⟨catalogue, hcatalogue, decide_eq_true hnamed⟩

/-! ## The model -/

theorem exists_other (h : WellFormed ids model) :
    ∃ otherId, model.otherDestinationId = some otherId := by
  have hlength := h.one_other
  unfold PartialSupportIntervalModel.otherDestinationId
  cases hfound : model.destinations.find? fun item => item.category = .other with
  | some other => exact ⟨other.destinationId, rfl⟩
  | none =>
    have hempty : (model.destinations.filter fun item => item.category = .other) = [] :=
      List.filter_eq_nil_iff.mpr (List.find?_eq_none.mp hfound)
    rw [hempty] at hlength
    cases hlength

theorem other_stateId (h : WellFormed ids model) {otherId : String}
    (hother : model.otherDestinationId = some otherId) {d : RegisteredDestination}
    (hd : model.destination otherId = some d) : d.stateId = none := by
  unfold PartialSupportIntervalModel.otherDestinationId at hother
  obtain ⟨other, hfound, rfl⟩ := Option.map_eq_some_iff.mp hother
  have hmem := List.mem_of_find?_eq_some hfound
  have hcategory : other.category = .other := by simpa using List.find?_some hfound
  have hnodup : (model.destinations.map RegisteredDestination.destinationId).Nodup :=
    h.destinations_sorted.imp fun hlt => hlt.ne
  have hsame : model.destination other.destinationId = some other :=
    Dict.find?_eq_some hnodup hmem
  obtain rfl := Option.some.inj (hsame.symm.trans hd)
  simp [RegisteredDestination.stateId, hcategory]

/-- A row and the same row without unobserved mass. -/
structure ZeroRow (otherId : String) (row zero : IntervalSimplexRow) : Prop where
  rowKey : zero.rowKey = row.rowKey
  masses : zero.masses = zeroOtherMasses otherId row.masses

theorem zeroOtherRow_spec {otherId : String} {row zero : IntervalSimplexRow}
    (h : zeroOtherRow otherId row = .ok zero) : ZeroRow otherId row zero := by
  unfold zeroOtherRow at h
  split at h
  · obtain rfl := Except.ok.inj h
    exact ⟨rfl, rfl⟩
  · cases h

theorem zeroOtherRow_raises (otherId : String) (row : IntervalSimplexRow) :
    Raises IsViolation (zeroOtherRow otherId row) := by
  unfold zeroOtherRow
  split
  · exact Raises.pure
  · exact Raises.throw (isViolation _)

/-- What a model without unobserved mass keeps. -/
structure IsZeroModel (ids : PlannerIds) (model zero : PartialSupportIntervalModel) : Prop where
  wellFormed : WellFormed ids zero
  contextId : zero.contextId = model.contextId
  listed : ActiveListed model → ActiveListed zero
  entries : zero.concretizerEntries.Perm model.concretizerEntries

theorem sortBy_of_sorted {α κ : Type} [LinearOrder κ] {key : α → κ} {l : List α}
    (h : (l.map key).Pairwise (· < ·)) : sortBy key l = l :=
  (eq_sortBy_of_perm (List.pairwise_map.mp h) (List.Perm.refl l)).symm

theorem mem_zeroOtherMasses {otherId : String} {masses : List IntervalDestinationMass}
    {item : IntervalDestinationMass} (h : item ∈ zeroOtherMasses otherId masses) :
    ∃ original ∈ masses, original.destinationId = item.destinationId ∧
      (item.destinationId ≠ otherId → item = original) := by
  obtain ⟨original, horiginal, rfl⟩ := List.mem_map.mp h
  refine ⟨original, horiginal, ?_⟩
  by_cases hother : original.destinationId = otherId
  · rw [if_pos hother]
    exact ⟨rfl, fun hne => absurd hother hne⟩
  · rw [if_neg hother]
    exact ⟨rfl, fun _ => rfl⟩

theorem zeroModel_spec (h : WellFormed ids model) {zero : PartialSupportIntervalModel}
    (hzero : zeroOtherModel ids model = .ok zero) : IsZeroModel ids model zero := by
  obtain ⟨otherId, hother⟩ := exists_other h
  obtain ⟨_, hother', hbuild⟩ := bind_eq_ok.mp hzero
  obtain rfl := Option.some.inj (hother.symm.trans (orRaise_eq_ok.mp hother'))
  obtain ⟨rows, hrows, hbuild⟩ := bind_eq_ok.mp hbuild
  obtain ⟨_, hvalid, hresult⟩ := bind_eq_ok.mp hbuild
  obtain rfl := Except.ok.inj hresult
  have hwellFormed := WellFormed.of_validate hvalid
  rw [sortBy_of_sorted h.catalogues_sorted, sortBy_of_sorted h.destinations_sorted] at hwellFormed ⊢
  have hzeros : List.Forall₂ (ZeroRow otherId) model.rows rows :=
    (mapM_eq_ok.mp hrows).imp fun _ _ heq => zeroOtherRow_spec heq
  refine ⟨hwellFormed, rfl, fun hlisted row hrow htwo item hitem destination stateId hdestination
    hcategory => ?_, perm_sortBy _ _⟩
  obtain ⟨original, horiginal, hkey, hmasses⟩ :=
    exists_mem_of_forall₂ hzeros.flip (mem_sortBy.mp hrow)
  rw [hmasses] at hitem
  obtain ⟨originalItem, horiginalItem, hnamed, -⟩ := mem_zeroOtherMasses hitem
  have horiginalTwo : original.remainingHorizon = 2 :=
    (congrArg (fun key : RowKey => key.2.1) hkey).symm.trans htwo
  obtain ⟨reaching, hreaching, hreachingTwo, hreach⟩ := hlisted original horiginal horiginalTwo
    originalItem horiginalItem destination stateId (hnamed ▸ hdestination) hcategory
  obtain ⟨zero, hzero, hzeroKey, hzeroMasses⟩ := exists_mem_of_forall₂ hzeros hreaching
  refine ⟨zero, mem_sortBy.mpr hzero, (congrArg (fun key : RowKey => key.2.1) hzeroKey).trans
    hreachingTwo, mem_reachableFrom.mpr ?_⟩
  obtain ⟨mass, hmass, hpos, d, hd, hstate⟩ := mem_reachableFrom.mp hreach
  -- An active destination is not the one that loses its mass.
  have hne : mass.destinationId ≠ otherId := by
    rintro rfl
    rw [other_stateId h hother hd] at hstate
    cases hstate
  exact ⟨mass, hzeroMasses ▸ List.mem_map.mpr ⟨mass, hmass, if_neg hne⟩, hpos, d, hd, hstate⟩

/-- Without unobserved mass there is an accepted model, or none. -/
theorem zeroOtherModel?_spec (h : WellFormed ids model) :
    ∃ result, zeroOtherModel? ids model = .ok result ∧
      ∀ zero, result = some zero → IsZeroModel ids model zero := by
  have hraises : Raises IsViolation (zeroOtherModel ids model) := by
    obtain ⟨otherId, hother⟩ := exists_other h
    unfold zeroOtherModel
    rw [hother]
    refine Raises.pure.bind fun _ _ => (Raises.mapM fun row _ => zeroOtherRow_raises _ row).bind
      fun _ _ => ?_
    exact validate_raises.bind fun _ _ => Raises.pure
  unfold zeroOtherModel?
  cases hzero : zeroOtherModel ids model with
  | ok zero =>
    refine ⟨some zero, rfl, fun _ heq => ?_⟩
    obtain rfl := Option.some.inj heq
    exact zeroModel_spec h hzero
  | error e =>
    obtain ⟨message, rfl⟩ := hraises e hzero
    exact ⟨none, rfl, fun _ heq => by cases heq⟩

end Acfqp.Robust
