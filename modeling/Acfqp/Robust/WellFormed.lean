import Acfqp.Library.Outcomes
import Acfqp.Robust.Evaluation

/-!
# Accepted models

What the validation of a model establishes: its registries have unique keys, its rows are the root
rows and the rows of the states that some root row can reach, and every row and concretizer stays
within the registries.
-/

namespace Acfqp.Robust

open Library

namespace PartialSupportIntervalModel

variable {ids : PlannerIds} {model : PartialSupportIntervalModel}

/-! ## Registries -/

theorem mem_of_row {key : RowKey} {row : IntervalSimplexRow} (h : model.row key = some row) :
    row ∈ model.rows ∧ row.rowKey = key :=
  ⟨List.mem_of_find?_eq_some h, by simpa using List.find?_some h⟩

theorem mem_of_catalogue {stateId : String} {catalogue : StateActionCatalogue}
    (h : model.catalogue stateId = some catalogue) :
    catalogue ∈ model.catalogues ∧ catalogue.stateId = stateId :=
  ⟨List.mem_of_find?_eq_some h, by simpa using List.find?_some h⟩

theorem mem_of_concretizer {key : String × String × String}
    {entry : DistinctActionConcretizerEntry} (h : model.concretizer key = some entry) :
    entry ∈ model.concretizerEntries ∧ entry.key = key :=
  ⟨List.mem_of_find?_eq_some h, by simpa using List.find?_some h⟩

theorem mem_reachableFrom {row : IntervalSimplexRow} {stateId : String} :
    stateId ∈ model.reachableFrom row ↔ ∃ item ∈ row.masses, 0 < item.upper ∧
      ∃ d, model.destination item.destinationId = some d ∧ d.stateId = some stateId := by
  simp only [reachableFrom, List.mem_filterMap]
  constructor
  · rintro ⟨item, hitem, h⟩
    split at h
    · rename_i hpos
      exact ⟨item, hitem, hpos, Option.bind_eq_some_iff.mp h⟩
    · cases h
  · rintro ⟨item, hitem, hpos, h⟩
    exact ⟨item, hitem, by rw [if_pos hpos]; exact Option.bind_eq_some_iff.mpr h⟩

theorem mem_childKeys {stateId : String} {key : RowKey} :
    key ∈ model.childKeys stateId ↔ ∃ catalogue, model.catalogue stateId = some catalogue ∧
      ∃ action ∈ catalogue.actions, key = (stateId, 1, action.actionId) := by
  unfold childKeys
  cases h : model.catalogue stateId with
  | none => simp
  | some catalogue => simp [eq_comm]

theorem stateId_eq_some {d : RegisteredDestination} {stateId : String} :
    d.stateId = some stateId ↔ d.category = .activeState stateId := by
  unfold RegisteredDestination.stateId
  cases d.category <;> simp

/-- The conditions that the constructor checks. -/
structure WellFormed (ids : PlannerIds) (model : PartialSupportIntervalModel) : Prop where
  catalogues_sorted : (model.catalogues.map StateActionCatalogue.stateId).Pairwise (· < ·)
  root_mem : model.rootStateId ∈ model.catalogues.map StateActionCatalogue.stateId
  destinations_sorted :
    (model.destinations.map RegisteredDestination.destinationId).Pairwise (· < ·)
  one_other : (model.destinations.filter fun item => item.category = .other).length = 1
  rows_sorted : (model.rows.map ids.rowId).Pairwise (· < ·)
  entries_sorted : (model.concretizerEntries.map ids.concretizerEntryId).Pairwise (· < ·)
  active_registered : ∀ item ∈ model.destinations, ∀ stateId, item.stateId = some stateId →
    (model.catalogue stateId).isSome
  row_valid : ∀ row ∈ model.rows, model.validateRow row = .ok ()
  rows_unique : (model.rows.map IntervalSimplexRow.rowKey).Nodup
  complete : ∃ root rootRows, model.catalogue model.rootStateId = some root ∧
    (model.rootKeys root).mapM (fun key =>
      orRaise (model.row key)
        (PlannerError.violation "root observed catalogue is incomplete")) =
        .ok rootRows ∧
    (model.rows.map IntervalSimplexRow.rowKey).toFinset = (model.rootKeys root ++
      (rootRows.flatMap model.reachableFrom).flatMap model.childKeys).toFinset
  entry_valid : ∀ entry ∈ model.concretizerEntries,
    ((model.catalogue entry.stateId).any fun catalogue =>
      catalogue.stateCoordinateKey = entry.stateCoordinateKey) ∧
    model.validateSupport entry = .ok ()
  entries_unique :
    (model.concretizerEntries.map DistinctActionConcretizerEntry.key).Nodup

theorem validateSemantics_eq_ok {u : Unit} : model.validateSemantics = .ok u ↔
    (∀ item ∈ model.destinations, ∀ stateId, item.stateId = some stateId →
      (model.catalogue stateId).isSome) ∧
    ((∀ row ∈ model.rows, model.validateRow row = .ok ()) ∧
      (model.rows.map IntervalSimplexRow.rowKey).Nodup) ∧
    (∃ root rootRows, model.catalogue model.rootStateId = some root ∧
      (model.rootKeys root).mapM (fun key => orRaise (model.row key)
        (PlannerError.violation "root observed catalogue is incomplete")) = .ok rootRows ∧
      (model.rows.map IntervalSimplexRow.rowKey).toFinset = (model.rootKeys root ++
        (rootRows.flatMap model.reachableFrom).flatMap model.childKeys).toFinset) ∧
    (∀ entry ∈ model.concretizerEntries,
      ((model.catalogue entry.stateId).any fun catalogue =>
        catalogue.stateCoordinateKey = entry.stateCoordinateKey) ∧
      model.validateSupport entry = .ok ()) ∧
    (model.concretizerEntries.map DistinctActionConcretizerEntry.key).Nodup := by
  have hall : ∀ item : RegisteredDestination,
      (item.stateId.all fun stateId => (model.catalogue stateId).isSome) = true ↔
        ∀ stateId, item.stateId = some stateId → (model.catalogue stateId).isSome := fun item => by
    cases item.stateId <;> simp
  unfold validateSemantics
  simp only [bind_eq_ok, require_eq_ok, orRaise_eq_ok, forFresh_eq_ok, List.not_mem_nil,
    not_false_eq_true, and_true, hall]
  constructor
  · rintro ⟨⟨⟩, hactive, ⟨⟩, hrows, root, hroot, rootRows, hrootRows, ⟨⟩, hcomplete,
      hentries, hkeys⟩
    exact ⟨hactive, hrows, ⟨root, rootRows, hroot, hrootRows, hcomplete⟩, hentries, hkeys⟩
  · rintro ⟨hactive, hrows, ⟨root, rootRows, hroot, hrootRows, hcomplete⟩, hentries, hkeys⟩
    exact ⟨(), hactive, (), hrows, root, hroot, rootRows, hrootRows, (), hcomplete, hentries, hkeys⟩

theorem WellFormed.of_validate {u : Unit} (h : model.validate ids = .ok u) :
    WellFormed ids model := by
  simp only [validate, bind_eq_ok, require_eq_ok] at h
  obtain ⟨_, ⟨-, hcatalogues, hroot⟩, _, ⟨-, hdestinations, hother⟩, _, ⟨-, hrows⟩, _, hentries,
    hsemantics⟩ := h
  obtain ⟨hactive, ⟨hvalid, hunique⟩, hcomplete, hentry, hkeys⟩ :=
    validateSemantics_eq_ok.mp hsemantics
  exact ⟨hcatalogues, hroot, hdestinations, hother, hrows, hentries, hactive, hvalid, hunique,
    hcomplete, hentry, hkeys⟩

/-! ## Rows of accepted models -/

/-- Some root row reaches the state with positive mass. -/
def Reached (model : PartialSupportIntervalModel) (stateId : String) : Prop :=
  ∃ row ∈ model.rows, row.remainingHorizon = 2 ∧ stateId ∈ model.reachableFrom row

/-- Every active destination that a root row lists is reached by some root row. -/
def ActiveListed (model : PartialSupportIntervalModel) : Prop :=
  ∀ row ∈ model.rows, row.remainingHorizon = 2 → ∀ item ∈ row.masses, ∀ destination stateId,
    model.destination item.destinationId = some destination →
      destination.category = .activeState stateId → Reached model stateId

namespace WellFormed

variable {row : IntervalSimplexRow} {root catalogue : StateActionCatalogue} {stateId : String}
  {action : CatalogueAction}

theorem row_eq (h : WellFormed ids model) (hrow : row ∈ model.rows) :
    model.row row.rowKey = some row :=
  Dict.find?_eq_some h.rows_unique hrow

theorem exists_root (h : WellFormed ids model) :
    ∃ root, model.catalogue model.rootStateId = some root := by
  obtain ⟨root, -, hroot, -, -⟩ := h.complete
  exact ⟨root, hroot⟩

theorem exists_rootRow (h : WellFormed ids model)
    (hroot : model.catalogue model.rootStateId = some root) (haction : action ∈ root.actions) :
    ∃ row, model.row (model.rootStateId, 2, action.actionId) = some row := by
  obtain ⟨root', rootRows, hroot', hrows, -⟩ := h.complete
  obtain rfl := Option.some.inj (hroot.symm.trans hroot')
  obtain ⟨row, -, hrow⟩ := exists_of_mapM hrows
    (List.mem_map.mpr ⟨action, haction, rfl⟩ : _ ∈ model.rootKeys root)
  exact ⟨row, orRaise_eq_ok.mp hrow⟩

/-- The rows of two steps are the root rows. -/
theorem mem_rootKeys (h : WellFormed ids model)
    (hroot : model.catalogue model.rootStateId = some root) (hrow : row ∈ model.rows) :
    row.remainingHorizon = 2 ↔ row.rowKey ∈ model.rootKeys root := by
  obtain ⟨root', rootRows, hroot', -, hkeys⟩ := h.complete
  obtain rfl := Option.some.inj (hroot.symm.trans hroot')
  constructor
  · intro hhorizon
    have hmem : row.rowKey ∈ (model.rows.map IntervalSimplexRow.rowKey).toFinset :=
      List.mem_toFinset.mpr (List.mem_map_of_mem hrow)
    rw [hkeys, List.mem_toFinset, List.mem_append] at hmem
    refine hmem.resolve_right fun hchild => ?_
    obtain ⟨s, -, hkey⟩ := List.mem_flatMap.mp hchild
    obtain ⟨_, -, _, -, heq⟩ := mem_childKeys.mp hkey
    have hone : row.remainingHorizon = 1 := congrArg (fun key : RowKey => key.2.1) heq
    omega
  · intro hkey
    obtain ⟨_, -, heq⟩ := List.mem_map.mp hkey
    exact (congrArg (fun key : RowKey => key.2.1) heq).symm

/-- A reached state has a catalogue, and a row for each of its actions. -/
theorem exists_catalogue (h : WellFormed ids model) (hreached : Reached model stateId) :
    ∃ catalogue, model.catalogue stateId = some catalogue := by
  obtain ⟨row, -, -, hmem⟩ := hreached
  obtain ⟨item, -, -, d, hd, hstate⟩ := mem_reachableFrom.mp hmem
  exact Option.isSome_iff_exists.mp
    (h.active_registered d (List.mem_of_find?_eq_some hd) stateId hstate)

theorem exists_childRow (h : WellFormed ids model) (hreached : Reached model stateId)
    (hcatalogue : model.catalogue stateId = some catalogue) (haction : action ∈ catalogue.actions) :
    ∃ row, model.row (stateId, 1, action.actionId) = some row := by
  obtain ⟨root, rootRows, hroot, hrows, hkeys⟩ := h.complete
  obtain ⟨rootRow, hmem, hhorizon, hreach⟩ := hreached
  have hrootRow : rootRow ∈ rootRows := by
    obtain ⟨found, hlisted, hfound⟩ := exists_of_mapM hrows
      ((h.mem_rootKeys hroot hmem).mp hhorizon)
    rw [orRaise_eq_ok, h.row_eq hmem] at hfound
    obtain rfl := Option.some.inj hfound
    exact hlisted
  have hkey : ((stateId, 1, action.actionId) : RowKey) ∈
      (model.rows.map IntervalSimplexRow.rowKey).toFinset := by
    rw [hkeys, List.mem_toFinset, List.mem_append]
    refine .inr (List.mem_flatMap.mpr ⟨stateId, List.mem_flatMap.mpr ⟨rootRow, hrootRow, hreach⟩,
      ?_⟩)
    exact mem_childKeys.mpr ⟨catalogue, hcatalogue, action, haction, rfl⟩
  obtain ⟨row, hrow, heq⟩ := List.mem_map.mp (List.mem_toFinset.mp hkey)
  exact ⟨row, heq ▸ h.row_eq hrow⟩

theorem registered (h : WellFormed ids model) (hrow : row ∈ model.rows) :
    ∀ item ∈ row.masses, ∃ d, model.destination item.destinationId = some d := by
  intro item hitem
  have hvalid := h.row_valid row hrow
  simp only [validateRow, bind_eq_ok, require_eq_ok] at hvalid
  obtain ⟨-, -, -, -, hregistered⟩ := hvalid
  exact Option.isSome_iff_exists.mp (hregistered item hitem)

theorem entry_actions (h : WellFormed ids model) {entry : DistinctActionConcretizerEntry}
    (hentry : entry ∈ model.concretizerEntries)
    (hcatalogue : model.catalogue entry.stateId = some catalogue) :
    ∀ actionId ∈ entry.groundActionIds, ∃ action ∈ catalogue.actions,
      action.actionId = actionId := by
  intro actionId hactionId
  have hsupport := require_eq_ok.mp (h.entry_valid entry hentry).2 actionId hactionId
  rw [hcatalogue, Option.any_some, List.any_eq_true] at hsupport
  obtain ⟨action, haction, hnamed⟩ := hsupport
  exact ⟨action, haction, (of_decide_eq_true hnamed).1⟩

end WellFormed

end PartialSupportIntervalModel

end Acfqp.Robust
