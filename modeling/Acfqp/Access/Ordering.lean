import Acfqp.Access.Protocol

/-!
# The order of a log that replays

Common reads before the freeze, the selected route after it, and the stages of a local execution one
after the other.
-/

namespace Acfqp.Access

open Library

variable {event : AccessEvent} {route : RouteSelection} {freezeAfter : ℕ}
  {events : List AccessEvent}

/-! ## Scopes -/

def RouteSelection.ownOperations : RouteSelection → List AccessOperation
  | .localRoute => AccessOperation.localOnly
  | .fallback => AccessOperation.fallbackOnly

theorem violationReason_none :
    violationReason event none = none ↔
      event.operation ∈ AccessOperation.preselectionRead ∧ event.routeScope = .common := by
  simp only [violationReason]
  by_cases hread : event.operation ∈ AccessOperation.preselectionRead
  · by_cases hscope : event.routeScope = .common <;> simp [hread, hscope]
  · simp [hread]

theorem violationReason_selected (h : violationReason event (some route) = none) :
    (event.operation ∈ AccessOperation.preselectionRead ∧ event.routeScope = .common) ∨
    (event.operation ∈ AccessOperation.routeScoped ++ route.ownOperations ∧
      event.routeScope = route.scope) := by
  simp only [violationReason] at h
  split at h
  · next hread =>
    split at h
    · next hscope => exact .inl ⟨hread, hscope⟩
    · cases h
  · split at h
    · next hscoped =>
      split at h
      · next hscope => exact .inr ⟨List.mem_append_left _ hscoped, hscope⟩
      · cases h
    · split at h
      · next hlocal =>
        cases route with
        | localRoute =>
          have hscope : event.routeScope = .localRoute := by simpa using h
          exact .inr ⟨List.mem_append_right _ hlocal, hscope⟩
        | fallback => simp at h
      · split at h
        · next hfallback =>
          cases route with
          | fallback =>
            have hscope : event.routeScope = .fallback := by simpa using h
            exact .inr ⟨List.mem_append_right _ hfallback, hscope⟩
          | localRoute => simp at h
        · cases h

theorem localOnly_disjoint {operation : AccessOperation}
    (h : operation ∈ AccessOperation.localOnly) :
    operation ∉ AccessOperation.preselectionRead ∧ operation ∉ AccessOperation.routeScoped ∧
      operation ∉ AccessOperation.fallbackOnly := by
  revert h
  cases operation <;> decide

theorem localRoute_of_localOnly (h : violationReason event (some route) = none)
    (hlocal : event.operation ∈ AccessOperation.localOnly) : event.routeScope = .localRoute := by
  obtain ⟨hread, hscoped, hfallback⟩ := localOnly_disjoint hlocal
  obtain ⟨hread', -⟩ | ⟨hmem, hscope⟩ := violationReason_selected h
  · exact absurd hread' hread
  · cases route with
    | localRoute => exact hscope
    | fallback =>
      rcases List.mem_append.mp hmem with hmem | hmem
      · exact absurd hmem hscoped
      · exact absurd hmem hfallback

theorem localOnly_of_marker {operation : AccessOperation} {stage : ℕ}
    (h : operation.localStageMarker = some stage) :
    operation ∈ AccessOperation.localOnly ∧ 1 ≤ stage ∧ stage ≤ 5 := by
  cases operation <;> cases h <;> decide

theorem localOnly_of_artifactStage {operation : AccessOperation} {stage : ℕ}
    (h : operation.localArtifactStage = some stage) :
    operation ∈ AccessOperation.localOnly ∧ operation.localStageMarker = none := by
  cases operation <;> cases h <;> decide

/-! ## Stages -/

def stageMarkers (freezeAfter : ℕ) (events : List AccessEvent) : List ℕ :=
  (events.filter fun event => freezeAfter < event.sequenceNumber).filterMap
    fun event => event.operation.localStageMarker

def currentStage (freezeAfter : ℕ) (events : List AccessEvent) : ℕ :=
  (stageMarkers freezeAfter events).getLast?.getD 0

theorem stageMarkers_append : stageMarkers freezeAfter (events ++ [event]) =
    stageMarkers freezeAfter events ++
      if freezeAfter < event.sequenceNumber then event.operation.localStageMarker.toList else [] :=
        by
  rw [stageMarkers, List.filter_append, List.filterMap_append, ← stageMarkers]
  by_cases h : freezeAfter < event.sequenceNumber
  · cases hmarker : event.operation.localStageMarker <;> simp [h, hmarker]
  · simp [h]

theorem localExecutionStages_append :
    localExecutionStages (events ++ [event]) freezeAfter =
      if event.sequenceNumber ≤ freezeAfter then localExecutionStages events freezeAfter
      else match event.operation.localStageMarker with
        | some stage =>
          if (localExecutionStages events freezeAfter).getLast? = some stage then
            localExecutionStages events freezeAfter
          else localExecutionStages events freezeAfter ++ [stage]
        | none => localExecutionStages events freezeAfter := by
  rw [localExecutionStages, List.foldl_append]
  rfl

/-- The stages of events that are in order. -/
structure Staged (freezeAfter : ℕ) (events : List AccessEvent) (stage : ℕ) : Prop where
  current : currentStage freezeAfter events = stage
  stage_le : stage ≤ 5
  starts : ∀ marker ∈ (stageMarkers freezeAfter events).head?, marker = 1
  steps : (stageMarkers freezeAfter events).IsChain fun marker next =>
    next = marker ∨ next = marker + 1
  stages : localExecutionStages events freezeAfter = List.range' 1 stage
  artifact : ∀ i e, events[i]? = some e → freezeAfter < e.sequenceNumber →
    ∀ artifactStage ∈ e.operation.localArtifactStage,
      currentStage freezeAfter (events.take i) = artifactStage
  ground : ∀ i e, events[i]? = some e → freezeAfter < e.sequenceNumber →
    e.operation ∈ AccessOperation.groundTransition → e.routeScope = .localRoute →
      currentStage freezeAfter (events.take i) ∈ [1, 5]

theorem stageAfter_eq_some {stage next : ℕ} (hafter : freezeAfter < event.sequenceNumber)
    (hscope : violationReason event (some route) = none)
    (h : stageAfter freezeAfter stage event = some next) :
    (∃ marker, event.operation.localStageMarker = some marker ∧ next = marker ∧
      (marker = stage ∨ marker = stage + 1)) ∨
    (event.operation.localStageMarker = none ∧ next = stage ∧
      (∀ artifactStage ∈ event.operation.localArtifactStage, artifactStage = stage) ∧
      (event.operation ∈ AccessOperation.groundTransition → event.routeScope = .localRoute →
        stage ∈ [1, 5])) := by
  rw [stageAfter, if_neg (by omega)] at h
  cases hmarker : event.operation.localStageMarker with
  | some marker =>
    rw [if_neg (not_not.mpr (localRoute_of_localOnly hscope (localOnly_of_marker hmarker).1)),
      hmarker] at h
    dsimp only at h
    split at h
    · cases h
    · cases h
      exact .inl ⟨marker, rfl, by omega, by omega⟩
  | none =>
    refine .inr ⟨rfl, ?_⟩
    by_cases hlocal : event.routeScope = .localRoute
    · rw [if_neg (not_not.mpr hlocal), hmarker] at h
      dsimp only at h
      split at h
      · cases h
      · next hartifact =>
        split at h
        · cases h
        · next hground =>
          cases h
          push Not at hartifact hground
          exact ⟨rfl, hartifact, fun hmem _ => hground hmem⟩
    · rw [if_pos hlocal] at h
      cases h
      refine ⟨rfl, fun artifactStage hartifact => ?_, fun _ hno => absurd hno hlocal⟩
      exact absurd (localRoute_of_localOnly hscope (localOnly_of_artifactStage hartifact).1) hlocal

theorem staged_nil : Staged freezeAfter [] 0 :=
  ⟨rfl, by omega, by simp [stageMarkers], List.isChain_nil, rfl, by simp, by simp⟩

namespace Staged

variable {stage next : ℕ}

/-- What holds at every index of the events, and at the next one. -/
theorem forall_append {P : AccessEvent → ℕ → Prop}
    (h : ∀ i e, events[i]? = some e → P e (currentStage freezeAfter (events.take i)))
    (hlast : P event (currentStage freezeAfter events)) :
    ∀ i e, (events ++ [event])[i]? = some e →
      P e (currentStage freezeAfter ((events ++ [event]).take i)) := by
  intro i e he
  rcases Nat.lt_or_ge i events.length with hlt | hge
  · rw [List.getElem?_append_left hlt] at he
    rw [List.take_append_of_le_length hlt.le]
    exact h i e he
  · have hi : i = events.length := by
      have hbound := (List.getElem?_eq_some_iff.mp he).1
      rw [List.length_append, List.length_singleton] at hbound
      omega
    subst hi
    rw [List.getElem?_append_right le_rfl, Nat.sub_self, List.getElem?_cons_zero,
      Option.some.injEq] at he
    subst he
    rwa [List.take_left]

theorem append_before (h : Staged freezeAfter events stage)
    (hbefore : event.sequenceNumber ≤ freezeAfter) :
      Staged freezeAfter (events ++ [event]) stage := by
  have hmarkers : stageMarkers freezeAfter (events ++ [event]) =
      stageMarkers freezeAfter events := by
    rw [stageMarkers_append, if_neg (by omega), List.append_nil]
  refine ⟨?_, h.stage_le, hmarkers ▸ h.starts, hmarkers ▸ h.steps, ?_, ?_, ?_⟩
  · rw [currentStage, hmarkers]
    exact h.current
  · rw [localExecutionStages_append, if_pos hbefore]
    exact h.stages
  · exact forall_append (P := fun e s => freezeAfter < e.sequenceNumber →
      ∀ artifactStage ∈ e.operation.localArtifactStage, s = artifactStage) h.artifact
      fun hafter => by omega
  · exact forall_append (P := fun e s => freezeAfter < e.sequenceNumber →
      e.operation ∈ AccessOperation.groundTransition → e.routeScope = .localRoute → s ∈ [1, 5])
      h.ground fun hafter => by omega

theorem append_quiet (h : Staged freezeAfter events stage)
    (hafter : freezeAfter < event.sequenceNumber)
    (hmarker : event.operation.localStageMarker = none)
    (hartifact : ∀ artifactStage ∈ event.operation.localArtifactStage, artifactStage = stage)
    (hground : event.operation ∈ AccessOperation.groundTransition →
      event.routeScope = .localRoute → stage ∈ [1, 5]) :
    Staged freezeAfter (events ++ [event]) stage := by
  have hmarkers : stageMarkers freezeAfter (events ++ [event]) =
      stageMarkers freezeAfter events := by
    rw [stageMarkers_append, if_pos hafter, hmarker, Option.toList_none, List.append_nil]
  refine ⟨?_, h.stage_le, hmarkers ▸ h.starts, hmarkers ▸ h.steps, ?_, ?_, ?_⟩
  · rw [currentStage, hmarkers]
    exact h.current
  · rw [localExecutionStages_append, if_neg (by omega), hmarker]
    exact h.stages
  · exact forall_append (P := fun e s => freezeAfter < e.sequenceNumber →
      ∀ artifactStage ∈ e.operation.localArtifactStage, s = artifactStage) h.artifact
      fun _ artifactStage hmem => h.current.trans (hartifact artifactStage hmem).symm
  · exact forall_append (P := fun e s => freezeAfter < e.sequenceNumber →
      e.operation ∈ AccessOperation.groundTransition → e.routeScope = .localRoute → s ∈ [1, 5])
      h.ground fun _ hmem hscope => h.current.symm ▸ hground hmem hscope

theorem append_marker {marker : ℕ} (h : Staged freezeAfter events stage)
    (hafter : freezeAfter < event.sequenceNumber)
    (hmarker : event.operation.localStageMarker = some marker)
    (hnext : marker = stage ∨ marker = stage + 1) :
    Staged freezeAfter (events ++ [event]) marker := by
  obtain ⟨-, hone, hfive⟩ := localOnly_of_marker hmarker
  have hmarkers : stageMarkers freezeAfter (events ++ [event]) =
      stageMarkers freezeAfter events ++ [marker] := by
    rw [stageMarkers_append, if_pos hafter, hmarker, Option.toList_some]
  have hcurrent := h.current
  refine ⟨?_, hfive, ?_, ?_, ?_, ?_, ?_⟩
  · rw [currentStage, hmarkers, List.getLast?_concat, Option.getD_some]
  · rw [hmarkers]
    cases hlist : stageMarkers freezeAfter events with
    | nil =>
      have hzero : stage = 0 := by rw [← hcurrent, currentStage, hlist]; rfl
      simp
      omega
    | cons first rest =>
      have := h.starts first (by rw [hlist]; rfl)
      simpa using this
  · rw [hmarkers]
    refine List.isChain_append.mpr ⟨h.steps, List.isChain_singleton _,
      fun last hlast first hfirst => ?_⟩
    have hlast' : last = stage := by
      rw [← hcurrent, currentStage, Option.mem_def.mp hlast, Option.getD_some]
    have hfirst' : first = marker := by simpa [eq_comm] using hfirst
    rw [hlast', hfirst']
    exact hnext
  · rw [localExecutionStages_append, if_neg (by omega), hmarker]
    dsimp only
    rw [h.stages]
    rcases hnext with rfl | rfl
    · rw [if_pos]
      rw [List.getLast?_range', if_neg (by omega)]
      congr 1
      omega
    · rw [if_neg, List.range'_concat]
      · simp [Nat.add_comm]
      · intro hno
        have := List.mem_range'_1.mp (List.mem_of_getLast? hno)
        omega
  · refine forall_append (P := fun e s => freezeAfter < e.sequenceNumber →
      ∀ artifactStage ∈ e.operation.localArtifactStage, s = artifactStage) h.artifact
      fun _ artifactStage hmem => ?_
    rw [(localOnly_of_artifactStage hmem).2] at hmarker
    cases hmarker
  · refine forall_append (P := fun e s => freezeAfter < e.sequenceNumber →
      e.operation ∈ AccessOperation.groundTransition → e.routeScope = .localRoute → s ∈ [1, 5])
      h.ground fun _ hmem => ?_
    revert hmem hmarker
    cases event.operation <;> simp [AccessOperation.groundTransition,
      AccessOperation.localStageMarker]

end Staged

/-- Events in order and in scope are staged. -/
theorem staged_of_loop {past rest : List AccessEvent} {stage : ℕ}
    (hpast : Staged freezeAfter past stage)
    (hscope : ∀ e ∈ rest, freezeAfter < e.sequenceNumber →
      violationReason e (some route) = none)
    (h : localExecutionOrderViolation.loop freezeAfter stage rest = none) :
    ∃ last, Staged freezeAfter (past ++ rest) last := by
  induction rest generalizing past stage with
  | nil => exact ⟨stage, by rwa [List.append_nil]⟩
  | cons event rest ih =>
    rw [localExecutionOrderViolation.loop] at h
    cases hstage : stageAfter freezeAfter stage event with
    | none =>
      rw [hstage] at h
      cases h
    | some next =>
      rw [hstage] at h
      have hstaged : Staged freezeAfter (past ++ [event]) next := by
        rcases Nat.lt_or_ge freezeAfter event.sequenceNumber with hafter | hbefore
        · obtain ⟨marker, hmarker, rfl, hnext⟩ | ⟨hmarker, rfl, hartifact, hground⟩ :=
            stageAfter_eq_some hafter (hscope event List.mem_cons_self hafter) hstage
          · exact hpast.append_marker hafter hmarker hnext
          · exact hpast.append_quiet hafter hmarker hartifact hground
        · rw [stageAfter, if_pos hbefore] at hstage
          cases hstage
          exact hpast.append_before hbefore
      obtain ⟨last, hlast⟩ := ih hstaged (fun e he => hscope e (List.mem_cons_of_mem _ he)) h
      exact ⟨last, by simpa using hlast⟩

/-- On the fallback route no event has a local stage. -/
theorem loop_of_fallback {stage : ℕ}
    (hscope : ∀ e ∈ events, freezeAfter < e.sequenceNumber →
      violationReason e (some .fallback) = none) :
    localExecutionOrderViolation.loop freezeAfter stage events = none := by
  induction events with
  | nil => rfl
  | cons event rest ih =>
    have hstage : stageAfter freezeAfter stage event = some stage := by
      rw [stageAfter]
      by_cases hbefore : event.sequenceNumber ≤ freezeAfter
      · rw [if_pos hbefore]
      · rw [if_neg hbefore, if_pos]
        obtain ⟨-, heq⟩ | ⟨-, heq⟩ :=
          violationReason_selected (hscope event List.mem_cons_self (by omega)) <;>
          rw [heq] <;> decide
    rw [localExecutionOrderViolation.loop, hstage]
    exact ih fun e he => hscope e (List.mem_cons_of_mem _ he)

end Acfqp.Access
