import Acfqp.Planning.Soundness

/-!
# Lifts keep the value, and so do their materializations

A lifted policy is evaluated on the kernel view. On the ground kernel it plays the mixture of
primitive actions that the adapter gives for every decision, and the two evaluations agree at
every pair that the mixture reaches. Where every decision is realized by one action, the lift is
also a deterministic ground policy, of the same value on the ground kernel.
-/

namespace Acfqp.Planning

open Library Abstraction

variable {S A C L : Type}

/-- The exact realization of an abstract selector on its reachable ground graph. -/
structure SemanticPolicyLift (S A C L : Type) where
  abstractPolicy : FiniteHorizonPolicy C L
  liftedSemanticPolicy : FiniteHorizonPolicy S L
  evaluation : PolicyEvaluation
  deterministicGroundPolicy : Option (FiniteHorizonPolicy S A)

def pointMass : List (ℚ × A) → Option A
  | [(p, a)] => if p = 1 then some a else none
  | _ => none

theorem pointMass_eq_some {distribution : List (ℚ × A)} {a : A} :
    pointMass distribution = some a ↔ distribution = [(1, a)] := by
  unfold pointMass
  split
  · split <;> simp_all
  · simp_all

section Lift

variable [DecidableEq S] [PyRepr S] [DecidableEq A] [PyRepr A] [DecidableEq L] [PyRepr L]

def materializeDecisions (kernel : Kernel S A) (adapter : SemanticAdapter S A L) :
    List (PolicyDecision S L) → Except PyError (Option (List ((ℕ × S) × A)))
  | [] => .ok (some [])
  | decision :: rest => do
    let distribution ← concretizerDistribution kernel adapter decision.state decision.action
    match pointMass distribution with
    | none => return none
    | some action => do
      let decisions ← materializeDecisions kernel adapter rest
      return decisions.map fun l => (decision.key, action) :: l

def materializeDeterministicGroundPolicy (kernel : Kernel S A) (adapter : SemanticAdapter S A L)
    (semanticPolicy : FiniteHorizonPolicy S L) :
    Except PyError (Option (FiniteHorizonPolicy S A)) := do
  match ← materializeDecisions kernel adapter semanticPolicy.decisions with
  | none => return none
  | some decisions => some <$> FiniteHorizonPolicy.fromMapping decisions

variable [DecidableEq C] [PyRepr C]

def liftSemanticPolicy (kernel : Kernel S A) (query : QuerySpec S) (partition : Partition S C)
    (abstractPolicy : FiniteHorizonPolicy C L) (adapter : SemanticAdapter S A L) :
    Except PyError (SemanticPolicyLift S A C L) := do
  let lifted ← liftSemanticPolicyDecisions kernel query partition abstractPolicy adapter
  let evaluation ← evaluateGroundPolicy (semanticKernelView kernel adapter) query lifted
  let deterministic ← materializeDeterministicGroundPolicy kernel adapter lifted
  return ⟨abstractPolicy, lifted, evaluation, deterministic⟩

end Lift

/-! ## The ground process of a mixture -/

abbrev ActionMixture (S A : Type) := ℕ → S → Option (List (ℚ × A))

def adapterMixture (kernel : Kernel S A) (adapter : SemanticAdapter S A L)
    (select : Selector S L) : ActionMixture S A := fun n s =>
  (select n s).bind fun label => (adapter.concretize kernel s label).toOption

section Process

variable [PyRepr S] [PyRepr A]

def mixtureLaw (kernel : Kernel S A) (goal : String) (gain : Outcome S → ℚ)
    (mixture : ActionMixture S A) : Law ℚ S := fun n s =>
  if isStopped kernel s goal then none
  else (mixture n s).map fun distribution => (distribution.map fun e =>
    (outcomeBranches kernel goal gain ((iterOutcomes kernel s e.2).toOption.getD [])).map
      (Branch.scale e.1)).flatten

def mixtureValue (kernel : Kernel S A) (goal : String) (weights : Features)
    (mixture : ActionMixture S A) (n : ℕ) (s : S) : PolicyEvaluation :=
  ⟨value (mixtureLaw kernel goal (fun o => outcomeReward o weights) mixture) n s,
    value (mixtureLaw kernel goal failureCost mixture) n s⟩

/-- The pairs that the ground kernel can reach under a mixture. -/
inductive MixtureReaches (kernel : Kernel S A) (query : QuerySpec S) (mixture : ActionMixture S A) :
    ℕ → S → Prop
  | initial {p : ℚ × S} (hp : p ∈ query.initialDistribution) :
    MixtureReaches kernel query mixture query.horizon p.2
  | step {n : ℕ} {s : S} {distribution : List (ℚ × A)} {e : ℚ × A} {outcomes : List (Outcome S)}
      {o : Outcome S} (h : MixtureReaches kernel query mixture (n + 1) s)
      (hactive : isStopped kernel s query.goal = false)
      (hmixture : mixture (n + 1) s = some distribution) (he : e ∈ distribution)
      (houtcomes : iterOutcomes kernel s e.2 = .ok outcomes) (ho : o ∈ outcomes)
      (hnext : outcomeStopped kernel query.goal o = false) :
    MixtureReaches kernel query mixture n o.nextState

variable {kernel : Kernel S A} {goal : String} {gain : Outcome S → ℚ}
  {mixture : ActionMixture S A} {n : ℕ} {s : S} {distribution : List (ℚ × A)}

theorem value_mixtureLaw_none (h : isStopped kernel s goal = true ∨ mixture n s = none) :
    value (mixtureLaw kernel goal gain mixture) n s = 0 := by
  cases n with
  | zero => rfl
  | succ n => exact value_stopped (by rcases h with h | h <;> simp [mixtureLaw, h])

theorem value_mixtureLaw_some (hactive : isStopped kernel s goal = false)
    (h : mixture (n + 1) s = some distribution) :
    value (mixtureLaw kernel goal gain mixture) (n + 1) s =
      mixtureBackup kernel goal gain s distribution
        (value (mixtureLaw kernel goal gain mixture) n) := by
  have hlaw : mixtureLaw kernel goal gain mixture (n + 1) s = some (distribution.map fun e =>
      (outcomeBranches kernel goal gain ((iterOutcomes kernel s e.2).toOption.getD [])).map
        (Branch.scale e.1)).flatten := by simp [mixtureLaw, hactive, h]
  rw [value_step hlaw, backup_flatten, List.map_map, mixtureBackup]
  congr 1
  exact List.map_congr_left fun e _ => backup_scale _ _ _

end Process

theorem coalesceAtoms_complete [DecidableEq S] {κ : Type} [LinearOrder κ]
    {order : OutcomeAtom S → κ} {events : List (OutcomeAtom S × ℚ)} {outcomes : List (Outcome S)}
    (h : coalesceAtoms order events = .ok outcomes) {e : OutcomeAtom S × ℚ} (he : e ∈ events) :
    ∃ o ∈ outcomes, rawAtom o = e.1 := by
  obtain ⟨entry, hentry, hkey⟩ :=
    List.mem_map.mp (mem_keys_tally.mpr (List.mem_map_of_mem (f := Prod.fst) he))
  obtain ⟨o, ho, hmake⟩ := exists_of_mapM h (mem_sortBy.mpr hentry)
  obtain ⟨-, h2, h3, h4, h5⟩ := Outcome.make_eq_ok hmake
  exact ⟨o, ho, by rw [rawAtom, h2, h3, h4, h5, ← hkey]⟩

section View

variable [PyRepr S] [DecidableEq A] [PyRepr A] [DecidableEq L] [PyRepr L]
  {kernel : Kernel S A} {adapter : SemanticAdapter S A L} {state : S} {label : L}

/-- A step of the view integrates the ground steps of its concretizer: it meets all of their
outcomes, and backs up like their mixture. -/
theorem viewStep_spec [DecidableEq S] {outcomes : List (Outcome S)}
    (h : viewStep kernel adapter state label = .ok outcomes) :
    ∃ distribution, concretizerDistribution kernel adapter state label = .ok distribution ∧
      (∀ e ∈ distribution, ∃ os, iterOutcomes kernel state e.2 = .ok os ∧
        ∀ o' ∈ os, ∃ o ∈ outcomes, o.nextState = o'.nextState ∧
          ∀ goal, outcomeStopped kernel goal o = outcomeStopped kernel goal o') ∧
      ∀ goal gain, AtomKey (outcomeAtom (S := S)) gain → ∀ V,
        backup (outcomeBranches kernel goal gain outcomes) V =
          mixtureBackup kernel goal gain state distribution V := by
  obtain ⟨distribution, hdistribution, h⟩ := bind_eq_ok.mp h
  obtain ⟨events, hevents, h⟩ := bind_eq_ok.mp h
  obtain ⟨coalesced, hcoalesced, h⟩ := bind_eq_ok.mp h
  obtain ⟨_, -, h⟩ := bind_eq_ok.mp h
  obtain rfl := pure_eq_ok.mp h
  refine ⟨distribution, hdistribution, fun e he => ?_, fun goal gain hkey =>
    (coalesceAtoms_backup hevents hcoalesced goal hkey).2⟩
  obtain ⟨rows, hrows, hflat⟩ := bind_eq_ok.mp hevents
  obtain rfl := pure_eq_ok.mp hflat
  obtain ⟨row, hrow, he⟩ := exists_of_mapM hrows he
  obtain ⟨os, hos, he⟩ := bind_eq_ok.mp he
  obtain rfl := pure_eq_ok.mp he
  refine ⟨os, hos, fun o' ho' => ?_⟩
  obtain ⟨o, ho, hatom⟩ := coalesceAtoms_complete hcoalesced
    (List.mem_flatten.mpr ⟨_, hrow, List.mem_map_of_mem ho'⟩)
  have hnext : o.nextState = o'.nextState := congrArg (fun a : OutcomeAtom S => a.1) hatom
  have hfailure : o.failure = o'.failure := congrArg (fun a : OutcomeAtom S => a.2.2.1) hatom
  have hterminal : o.terminal = o'.terminal := congrArg (fun a : OutcomeAtom S => a.2.2.2) hatom
  exact ⟨o, ho, hnext, fun goal => by simp only [outcomeStopped, hnext, hfailure, hterminal]⟩

end View

/-! ## What a lift has decided -/

section

variable [DecidableEq S] [PyRepr S] [DecidableEq A] [PyRepr A] [DecidableEq L] [PyRepr L]
  [DecidableEq C] [PyRepr C] {kernel : Kernel S A} {adapter : SemanticAdapter S A L}
  {query : QuerySpec S} {partition : Partition S C} {abstractPolicy : FiniteHorizonPolicy C L}
  {lifted : FiniteHorizonPolicy S L}

/-- The pairs that a lift covers: where the view is idle the ground kernel is as well, and
nothing is decided; where the view moves, its active successors are covered. -/
structure Covers (kernel : Kernel S A) (adapter : SemanticAdapter S A L) (goal : String)
    (select : Selector S L) (cover : ℕ → S → Prop) : Prop where
  idle : ∀ n s, cover (n + 1) s → Idle (semanticKernelView kernel adapter) goal s →
    Idle kernel goal s ∧ (isStopped kernel s goal = true ∨ select (n + 1) s = none)
  closed : ∀ n s label outcomes, cover (n + 1) s →
    Takes (semanticKernelView kernel adapter) goal select (n + 1) s label outcomes →
      ∀ o ∈ outcomes, outcomeStopped kernel goal o = false → cover n o.nextState

theorem idle_of_expandSemantic {goal : String} {n : ℕ} {s : S} {cs : List S}
    (h : expandSemantic kernel goal partition abstractPolicy adapter (n + 1) s = .ok (none, cs)) :
    Idle kernel goal s := by
  unfold expandSemantic at h
  dsimp only at h
  split at h
  · exact .inl (by simp_all)
  · obtain ⟨labels, -, h⟩ := bind_eq_ok.mp h
    split at h
    · obtain ⟨actions, hactions, h⟩ := bind_eq_ok.mp h
      obtain ⟨_, hnil, -⟩ := bind_eq_ok.mp h
      exact .inr (require_eq_ok.mp hnil ▸ hactions)
    · obtain ⟨_, -, h⟩ := bind_eq_ok.mp h
      obtain ⟨_, -, h⟩ := bind_eq_ok.mp h
      obtain ⟨_, -, h⟩ := bind_eq_ok.mp h
      obtain ⟨_, -, h⟩ := bind_eq_ok.mp h
      split at h
      · cases h
      · obtain ⟨_, -, h⟩ := bind_eq_ok.mp h
        cases h

theorem active_of_expandSemantic {goal : String} {n : ℕ} {s : S} {label : L} {cs : List S}
    (h : expandSemantic kernel goal partition abstractPolicy adapter n s = .ok (some label, cs)) :
    isStopped kernel s goal = false ∧
      (∃ labels, viewActions kernel adapter s = .ok labels ∧ label ∈ labels) ∧
      (∃ distribution, concretizerDistribution kernel adapter s label = .ok distribution) ∧
      (n ≤ 1 ∨ ∃ outcomes, viewStep kernel adapter s label = .ok outcomes ∧
        cs = (outcomes.filter fun o => !outcomeStopped kernel goal o).map Outcome.nextState) := by
  unfold expandSemantic at h
  dsimp only at h
  split at h
  · cases h
  · rename_i hstop
    obtain ⟨labels, hlabels, h⟩ := bind_eq_ok.mp h
    split at h
    · obtain ⟨_, -, h⟩ := bind_eq_ok.mp h
      obtain ⟨_, -, h⟩ := bind_eq_ok.mp h
      cases h
    · obtain ⟨_, -, h⟩ := bind_eq_ok.mp h
      obtain ⟨action, -, h⟩ := bind_eq_ok.mp h
      obtain ⟨_, hmem, h⟩ := bind_eq_ok.mp h
      obtain ⟨distribution, hdistribution, h⟩ := bind_eq_ok.mp h
      have hactive : isStopped kernel s goal = false := by
        simpa using fun hstopped => hstop (.inr hstopped)
      split at h
      · cases h
        exact ⟨hactive, ⟨labels, hlabels, require_eq_ok.mp hmem⟩, ⟨_, hdistribution⟩, .inl ‹_›⟩
      · obtain ⟨outcomes, hstep, h⟩ := bind_eq_ok.mp h
        cases h
        exact ⟨hactive, ⟨labels, hlabels, require_eq_ok.mp hmem⟩, ⟨_, hdistribution⟩,
          .inr ⟨outcomes, hstep, rfl⟩⟩

/-- A lift covers everything that it meets, and it meets the initial states. -/
theorem exists_covers
    (h : liftSemanticPolicyDecisions kernel query partition abstractPolicy adapter = .ok lifted) :
    (∃ cover : ℕ → S → Prop, Covers kernel adapter query.goal lifted.select cover ∧
      ∀ p ∈ query.initialDistribution, cover query.horizon p.2) ∧
    ∀ n s label, lifted.select n s = some label →
      ∃ distribution, concretizerDistribution kernel adapter s label = .ok distribution := by
  obtain ⟨_, -, hrun⟩ := bind_eq_ok.mp h
  obtain ⟨horizon, hhorizon, hrun⟩ := bind_eq_ok.mp hrun
  obtain rfl := queryHorizon_eq_ok hhorizon
  rw [queryInitialDistribution_eq, bind_of_ok rfl] at hrun
  obtain ⟨trail, htrail, hlifted⟩ := bind_eq_ok.mp hrun
  refine ⟨⟨fun n s => n = 0 ∨ (n, s) ∈ trail.visited, ⟨?_, ?_⟩, fun p hp => .inr ?_⟩, ?_⟩
  · intro n s hs hidle
    obtain ⟨d, cs, hexpand, hrecord, -⟩ := exploreAll_complete htrail (hs.resolve_left (by omega))
    cases d with
    | none =>
      refine ⟨idle_of_expandSemantic hexpand, .inr ?_⟩
      cases hselect : lifted.select (n + 1) s with
      | none => rfl
      | some label =>
        obtain ⟨cs', hexpand'⟩ :=
          exploreAll_emitted htrail ((select_fromMapping hlifted).mp hselect)
        cases hexpand.symm.trans hexpand'
    | some label =>
      -- a decided pair is active and has labels, so that the view is not idle
      obtain ⟨hactive, ⟨labels, hlabels, hlabel⟩, -⟩ := active_of_expandSemantic hexpand
      rcases hidle with hstop | hnil
      · exact absurd (hstop.symm.trans hactive) (by simp)
      · obtain rfl := Except.ok.inj (hlabels.symm.trans hnil)
        cases hlabel
  · intro n s label outcomes hs ht o ho hstop
    by_cases hn : n = 0
    · exact .inl hn
    · obtain ⟨d, cs, hexpand, -, hnext⟩ :=
        exploreAll_complete htrail (hs.resolve_left (by omega))
      obtain ⟨cs', hexpand'⟩ :=
        exploreAll_emitted htrail ((select_fromMapping hlifted).mp ht.selected)
      obtain ⟨rfl, rfl⟩ := Prod.mk.inj (Except.ok.inj (hexpand.symm.trans hexpand'))
      obtain ⟨outcomes', hstep, rfl⟩ :=
        (active_of_expandSemantic hexpand).2.2.2.resolve_left (by omega)
      obtain rfl := Except.ok.inj (hstep.symm.trans (iterOutcomes_eq_ok.mp ht.outcomes).1)
      exact .inr (hnext n rfl _ (List.mem_map_of_mem (List.mem_filter.mpr ⟨ho, by simp [hstop]⟩)))
  · refine (exploreAll_explored htrail).2 p.2 (List.mem_map_of_mem (List.mem_filter.mpr ⟨hp, ?_⟩))
    simpa using query.initial_pos p hp
  · intro n s label hselect
    obtain ⟨cs, hexpand⟩ := exploreAll_emitted htrail ((select_fromMapping hlifted).mp hselect)
    exact (active_of_expandSemantic hexpand).2.2.1

/-- A followed lift is worth what the adapter's mixture is worth on the ground kernel. -/
theorem Covers.value_mixture {goal : String} {select : Selector S L} {cover : ℕ → S → Prop}
    (hcovers : Covers kernel adapter goal select cover) {gain : Outcome S → ℚ}
    (hkey : AtomKey (outcomeAtom (S := S)) gain) (n : ℕ) (s : S) (hs : cover n s)
    (hf : Follows (semanticKernelView kernel adapter) goal select n s) :
    value (selectorLaw (semanticKernelView kernel adapter) goal gain select) n s =
      value (mixtureLaw kernel goal gain (adapterMixture kernel adapter select)) n s := by
  induction n generalizing s with
  | zero => rfl
  | succ n ih =>
    rcases hf with hidle | ⟨label, outcomes, ht, hf⟩
    · rw [value_idle hidle, value_mixtureLaw_none]
      refine (hcovers.idle n s hs hidle).2.imp_right fun hnone => ?_
      simp [adapterMixture, hnone]
    · obtain ⟨distribution, hdistribution, -, hbackup⟩ :=
        viewStep_spec (iterOutcomes_eq_ok.mp ht.outcomes).1
      obtain ⟨raw, hraw, -, hsum⟩ := concretizerDistribution_spec hdistribution
      have hmixture : adapterMixture kernel adapter select (n + 1) s = some raw := by
        simp [adapterMixture, ht.selected, hraw, Except.toOption]
      have hactive : isStopped kernel s goal = false := ht.active
      rw [value_takes ht, value_mixtureLaw_some hactive hmixture]
      refine (backup_congr fun b hb t hbt => ?_).trans ((hbackup goal gain hkey _).trans
        (hsum fun a => backup (outcomeBranches kernel goal gain
          ((iterOutcomes kernel s a).toOption.getD [])) _))
      obtain ⟨o, ho, hstop, rfl⟩ := next_outcomeBranches hb hbt
      exact ih o.nextState (hcovers.closed n s label outcomes hs ht o ho hstop) (hf o ho hstop)

theorem Covers.reaches {select : Selector S L} {cover : ℕ → S → Prop}
    (hcovers : Covers kernel adapter query.goal select cover)
    (hinitial : ∀ p ∈ query.initialDistribution, cover query.horizon p.2)
    (hfollows : ∀ p ∈ query.initialDistribution,
      Follows (semanticKernelView kernel adapter) query.goal select query.horizon p.2)
    {n : ℕ} {s : S} (h : MixtureReaches kernel query (adapterMixture kernel adapter select) n s) :
    cover n s ∧ Follows (semanticKernelView kernel adapter) query.goal select n s := by
  induction h with
  | initial hp => exact ⟨hinitial _ hp, hfollows _ hp⟩
  | @step n s raw e os o' _ hactive hmixture he hos ho' hnext ih =>
    obtain ⟨label, hselect, hraw⟩ := Option.bind_eq_some_iff.mp hmixture
    rcases ih.2 with hidle | ⟨label', outcomes, ht, hf⟩
    · rcases (hcovers.idle n s ih.1 hidle).2 with hstop | hnone
      · simp [hactive] at hstop
      · simp [hnone] at hselect
    · obtain rfl := Option.some.inj (hselect.symm.trans ht.selected)
      obtain ⟨distribution, hdistribution, hmet, -⟩ :=
        viewStep_spec (iterOutcomes_eq_ok.mp ht.outcomes).1
      obtain ⟨raw', hraw', hactions, -⟩ := concretizerDistribution_spec hdistribution
      obtain rfl : raw' = raw := by simpa [hraw', Except.toOption] using hraw
      obtain ⟨e', he', heq⟩ := List.mem_map.mp ((hactions e.2).mpr (List.mem_map_of_mem he))
      obtain ⟨os', hos', hmet⟩ := hmet e' he'
      obtain rfl := Except.ok.inj ((heq ▸ hos).symm.trans hos')
      obtain ⟨o, ho, hstate, hstop⟩ := hmet o' ho'
      have hstop' : outcomeStopped kernel query.goal o = false := (hstop _).trans hnext
      rw [← hstate]
      exact ⟨hcovers.closed n s label outcomes ih.1 ht o ho hstop', hf o ho hstop'⟩

/-! ## Deterministic ground policies -/

omit [DecidableEq S] in
theorem materializeDecisions_spec {decisions : List (PolicyDecision S L)}
    {ground : List ((ℕ × S) × A)}
    (h : materializeDecisions kernel adapter decisions = .ok (some ground)) :
    ∀ d ∈ decisions, ∃ a, (d.key, a) ∈ ground ∧
      concretizerDistribution kernel adapter d.state d.action = .ok [(1, a)] := by
  induction decisions generalizing ground with
  | nil => simp
  | cons decision rest ih =>
    obtain ⟨distribution, hdistribution, h⟩ := bind_eq_ok.mp h
    cases hpoint : pointMass distribution with
    | none =>
      rw [hpoint] at h
      cases h
    | some a =>
      rw [hpoint] at h
      obtain ⟨tail, htail, h⟩ := bind_eq_ok.mp h
      obtain ⟨l, rfl, rfl⟩ := Option.map_eq_some_iff.mp (pure_eq_ok.mp h)
      obtain rfl := pointMass_eq_some.mp hpoint
      intro d hd
      rcases List.mem_cons.mp hd with rfl | hd
      · exact ⟨a, by simp, hdistribution⟩
      · obtain ⟨b, hb, hdb⟩ := ih htail d hd
        exact ⟨b, by simp [hb], hdb⟩

theorem select_materialized {ground : FiniteHorizonPolicy S A}
    (h : materializeDeterministicGroundPolicy kernel adapter lifted = .ok (some ground))
    {n : ℕ} {s : S} {label : L} (hselect : lifted.select n s = some label) :
    ∃ a, ground.select n s = some a ∧
      concretizerDistribution kernel adapter s label = .ok [(1, a)] := by
  obtain ⟨decisions, hdecisions, h⟩ := bind_eq_ok.mp h
  cases decisions with
  | none => cases h
  | some decisions =>
    obtain ⟨policy, hpolicy, hsome⟩ := map_eq_ok.mp h
    cases hsome
    obtain ⟨d, hd, hkey⟩ := List.mem_map.mp (mem_asDict_iff_select.mpr hselect)
    obtain ⟨⟨rfl, rfl⟩, rfl⟩ : (d.remaining = n ∧ d.state = s) ∧ d.action = label := by
      simpa [PolicyDecision.key] using hkey
    obtain ⟨a, ha, hpoint⟩ := materializeDecisions_spec hdecisions d hd
    exact ⟨a, (select_fromMapping hpolicy).mpr ha, hpoint⟩

omit [DecidableEq S] in
theorem available_of_concretizerDistribution {s : S} {label : L} {distribution : List (ℚ × A)}
    (h : concretizerDistribution kernel adapter s label = .ok distribution) :
    ∃ actions, kernel.actions s = .ok actions ∧ ∀ e ∈ distribution, e.2 ∈ actions := by
  obtain ⟨raw', hraw', hactions, -⟩ := concretizerDistribution_spec h
  obtain ⟨labels, -, h⟩ := bind_eq_ok.mp h
  obtain ⟨_, -, h⟩ := bind_eq_ok.mp h
  obtain ⟨raw, hraw, h⟩ := bind_eq_ok.mp h
  obtain rfl := Except.ok.inj (hraw.symm.trans hraw')
  obtain ⟨_, -, h⟩ := bind_eq_ok.mp h
  obtain ⟨actions, hok, h⟩ := bind_eq_ok.mp h
  obtain ⟨_, hchecks, -⟩ := bind_eq_ok.mp h
  refine ⟨actions, hok, fun e he => ?_⟩
  obtain ⟨e', he', heq⟩ := List.mem_map.mp ((hactions e.2).mp (List.mem_map_of_mem he))
  obtain ⟨_, -, hmem⟩ := bind_eq_ok.mp (forM_eq_ok hchecks e' he')
  exact heq ▸ require_eq_ok.mp hmem

theorem Covers.value_materialized {goal : String} {cover : ℕ → S → Prop}
    (hcovers : Covers kernel adapter goal lifted.select cover) {ground : FiniteHorizonPolicy S A}
    (hground : materializeDeterministicGroundPolicy kernel adapter lifted = .ok (some ground))
    (n : ℕ) (s : S) (hs : cover n s)
    (hf : Follows (semanticKernelView kernel adapter) goal lifted.select n s) :
    Follows kernel goal ground.select n s ∧
      ∀ gain, AtomKey (outcomeAtom (S := S)) gain →
        value (selectorLaw kernel goal gain ground.select) n s =
          value (selectorLaw (semanticKernelView kernel adapter) goal gain lifted.select) n s := by
  induction n generalizing s with
  | zero => exact ⟨trivial, fun _ _ => rfl⟩
  | succ n ih =>
    rcases hf with hidle | ⟨label, outcomes, ht, hf⟩
    · have hground := (hcovers.idle n s hs hidle).1
      exact ⟨.inl hground, fun gain _ => by rw [value_idle hground, value_idle hidle]⟩
    · obtain ⟨distribution, hdistribution, hmet, hbackup⟩ :=
        viewStep_spec (iterOutcomes_eq_ok.mp ht.outcomes).1
      obtain ⟨a, ha, hpoint⟩ := select_materialized hground ht.selected
      obtain rfl := Except.ok.inj (hdistribution.symm.trans hpoint)
      obtain ⟨actions, hactions, hmem⟩ := available_of_concretizerDistribution hpoint
      obtain ⟨os, hos, hmet⟩ := hmet (1, a) (by simp)
      have htakes : Takes kernel goal ground.select (n + 1) s a os :=
        ⟨ht.active, ⟨actions, hactions, hmem (1, a) (by simp)⟩, ha, hos⟩
      have hbelow : ∀ o' ∈ os, outcomeStopped kernel goal o' = false →
          cover n o'.nextState ∧
            Follows (semanticKernelView kernel adapter) goal lifted.select n o'.nextState := by
        intro o' ho' hnext
        obtain ⟨o, ho, hstate, hstop⟩ := hmet o' ho'
        have hstop' : outcomeStopped kernel goal o = false := (hstop goal).trans hnext
        rw [← hstate]
        exact ⟨hcovers.closed n s label outcomes hs ht o ho hstop', hf o ho hstop'⟩
      refine ⟨.inr ⟨a, os, htakes, fun o' ho' hnext =>
        (ih _ (hbelow o' ho' hnext).1 (hbelow o' ho' hnext).2).1⟩, fun gain hkey => ?_⟩
      rw [value_takes htakes, value_takes ht]
      refine Eq.trans ?_ (hbackup goal gain hkey _).symm
      simp only [mixtureBackup, List.map_cons, List.map_nil, List.sum_cons, List.sum_nil, one_mul,
        add_zero, hos, Except.toOption, Option.getD_some]
      refine backup_congr fun b hb t hbt => ?_
      obtain ⟨o', ho', hnext, rfl⟩ := next_outcomeBranches hb hbt
      exact (ih _ (hbelow o' ho' hnext).1 (hbelow o' ho' hnext).2).2 gain hkey

omit [DecidableEq S] in
theorem materializeDecisions_returns {decisions : List (PolicyDecision S L)}
    (h : ∀ d ∈ decisions, ∃ distribution,
      concretizerDistribution kernel adapter d.state d.action = .ok distribution) :
    ∃ ground, materializeDecisions kernel adapter decisions = .ok ground ∧
      ∀ l, ground = some l → l.map Prod.fst = decisions.map PolicyDecision.key := by
  induction decisions with
  | nil => exact ⟨_, rfl, by simp⟩
  | cons decision rest ih =>
    obtain ⟨distribution, hdistribution⟩ := h decision (by simp)
    obtain ⟨tail, htail, hkeys⟩ := ih fun d hd => h d (by simp [hd])
    unfold materializeDecisions
    rw [bind_of_ok hdistribution]
    cases pointMass distribution with
    | none => exact ⟨none, rfl, by simp⟩
    | some a =>
      refine ⟨_, bind_of_ok htail, fun l hl => ?_⟩
      obtain ⟨l', hl', rfl⟩ := Option.map_eq_some_iff.mp hl
      simp [hkeys l' hl']

theorem liftSemanticPolicy_returns {v : PolicyEvaluation}
    (h : evaluateSemanticPolicy kernel query partition abstractPolicy adapter = .ok v) :
    ∃ lift, liftSemanticPolicy kernel query partition abstractPolicy adapter = .ok lift ∧
      lift.evaluation = v := by
  obtain ⟨lifted, hlifted, hv⟩ := bind_eq_ok.mp h
  have hconcretized : ∀ d ∈ lifted.decisions, ∃ distribution,
      concretizerDistribution kernel adapter d.state d.action = .ok distribution := fun d hd =>
    (exists_covers hlifted).2 d.remaining d.state d.action
      (mem_asDict_iff_select.mp (List.mem_map_of_mem (f := fun d => (d.key, d.action)) hd))
  obtain ⟨ground, hground, hkeys⟩ := materializeDecisions_returns hconcretized
  have hdeterministic : ∃ deterministic,
      materializeDeterministicGroundPolicy kernel adapter lifted = .ok deterministic := by
    unfold materializeDeterministicGroundPolicy
    rw [bind_of_ok hground]
    cases ground with
    | none => exact ⟨none, rfl⟩
    | some l =>
      have hmapped := hkeys l rfl
      have hpositive : ∀ x ∈ l, 0 < x.1.1 := by
        intro x hx
        have hx : x.1 ∈ lifted.decisions.map PolicyDecision.key :=
          hmapped ▸ List.mem_map_of_mem hx
        obtain ⟨d, -, hd⟩ := List.mem_map.mp hx
        exact hd ▸ d.remaining_pos
      obtain ⟨policy, hpolicy⟩ :=
        FiniteHorizonPolicy.fromMapping_returns hpositive (hmapped ▸ lifted.nodup)
      exact ⟨some policy, map_eq_ok.mpr ⟨policy, hpolicy, rfl⟩⟩
  obtain ⟨deterministic, hdeterministic⟩ := hdeterministic
  exact ⟨⟨abstractPolicy, lifted, v, deterministic⟩, bind_eq_ok.mpr ⟨lifted, hlifted,
    bind_eq_ok.mpr ⟨v, hv, bind_eq_ok.mpr ⟨deterministic, hdeterministic, rfl⟩⟩⟩, rfl⟩

/-- The lifted policy is worth what the adapter's mixture is worth on the ground kernel, at every
pair that the mixture reaches and from the initial states. Its materialization, where there is
one, evaluates on the ground kernel to exactly the same reward and failure. -/
structure SemanticPolicyLift.Exact (kernel : Kernel S A) (adapter : SemanticAdapter S A L)
    (query : QuerySpec S) (lift : SemanticPolicyLift S A C L) : Prop where
  reached : ∀ n s, MixtureReaches kernel query
      (adapterMixture kernel adapter lift.liftedSemanticPolicy.select) n s →
    (evaluateState (semanticKernelView kernel adapter) query.goal (rewardWeights query)
      lift.liftedSemanticPolicy n s).run' ([], ()) =
    .ok (mixtureValue kernel query.goal (rewardWeights query)
      (adapterMixture kernel adapter lift.liftedSemanticPolicy.select) n s)
  initial : lift.evaluation =
    ⟨(query.initialDistribution.map fun p => p.1 *
        (mixtureValue kernel query.goal (rewardWeights query)
          (adapterMixture kernel adapter lift.liftedSemanticPolicy.select)
          query.horizon p.2).expectedReward).sum,
      (query.initialDistribution.map fun p => p.1 *
        (mixtureValue kernel query.goal (rewardWeights query)
          (adapterMixture kernel adapter lift.liftedSemanticPolicy.select)
          query.horizon p.2).failureProbability).sum⟩
  materialized : ∀ ground, lift.deterministicGroundPolicy = some ground →
    evaluateGroundPolicy kernel query ground = .ok lift.evaluation

/-- Whatever is evaluated is lifted exactly. -/
theorem liftSemanticPolicy_exact {v : PolicyEvaluation}
    (h : evaluateSemanticPolicy kernel query partition abstractPolicy adapter = .ok v) :
    ∃ lift, liftSemanticPolicy kernel query partition abstractPolicy adapter = .ok lift ∧
      lift.evaluation = v ∧ lift.Exact kernel adapter query := by
  obtain ⟨lift, hlift, rfl⟩ := liftSemanticPolicy_returns h
  refine ⟨lift, hlift, rfl, ?_⟩
  obtain ⟨lifted, hlifted, hlift⟩ := bind_eq_ok.mp hlift
  obtain ⟨evaluation, hevaluation, hlift⟩ := bind_eq_ok.mp hlift
  obtain ⟨deterministic, hdeterministic, hlift⟩ := bind_eq_ok.mp hlift
  obtain rfl := pure_eq_ok.mp hlift
  obtain ⟨⟨cover, hcovers, hinitial⟩, -⟩ := exists_covers hlifted
  obtain ⟨hvalid, hfollows, hvalue⟩ := evaluateGroundPolicy_eq_ok.mp hevaluation
  have hmixture : ∀ n s, cover n s →
      Follows (semanticKernelView kernel adapter) query.goal lifted.select n s →
      selectorValue (semanticKernelView kernel adapter) query.goal (rewardWeights query)
        lifted.select n s = mixtureValue kernel query.goal (rewardWeights query)
          (adapterMixture kernel adapter lifted.select) n s := by
    intro n s hs hf
    rw [selectorValue, mixtureValue, hcovers.value_mixture (outcomeAtom_key_reward _) n s hs hf,
      hcovers.value_mixture outcomeAtom_key_failure n s hs hf]
  refine ⟨fun n s hreached => ?_, ?_, fun ground hground => ?_⟩
  · obtain ⟨hs, hf⟩ := hcovers.reaches hinitial hfollows hreached
    rw [(evaluateState_computes n s).run' ⟨by simp [Agrees], trivial⟩, ← hmixture n s hs hf]
    exact evaluateDirect_eq_ok.mpr ⟨hf, rfl⟩
  · show evaluation = _
    rw [hvalue, expectedValue]
    congr 2 <;> exact List.map_congr_left fun p hp => by
      rw [hmixture _ _ (hinitial p hp) (hfollows p hp)]
  · obtain rfl : deterministic = some ground := hground
    have hmaterialized := fun p hp => hcovers.value_materialized hdeterministic query.horizon
      (Prod.snd p) (hinitial p hp) (hfollows p hp)
    refine evaluateGroundPolicy_eq_ok.mpr ⟨hvalid, fun p hp => (hmaterialized p hp).1, ?_⟩
    show evaluation = _
    rw [hvalue, expectedValue, expectedValue]
    congr 2 <;> refine List.map_congr_left fun p hp => ?_
    · rw [selectorValue, selectorValue, (hmaterialized p hp).2 _ (outcomeAtom_key_reward _)]
    · rw [selectorValue, selectorValue, (hmaterialized p hp).2 _ outcomeAtom_key_failure]

end

/-- The gamble with a semantic action that mixes its two primitive ones. -/
def hedgeAdapter : SemanticAdapter ℕ String String where
  labels _ state := .ok (if state = 0 then ["hedge", "safe", "risky"] else [])
  concretize _ _ label := .ok (if label = "hedge" then [(3 / 4, "safe"), (1 / 4, "risky")]
    else [(1, label)])

theorem liftSemanticPolicy_exact_gamble : ∃ v,
    evaluateSemanticPolicy gambleKernel gambleQuery gamblePartition (rootPolicy "hedge")
      hedgeAdapter = .ok v ∧
    ∃ lift, liftSemanticPolicy gambleKernel gambleQuery gamblePartition (rootPolicy "hedge")
        hedgeAdapter = .ok lift ∧
      lift.evaluation = v ∧ lift.Exact gambleKernel hedgeAdapter gambleQuery := by
  obtain ⟨v, hv⟩ := exists_of_isOk
    (show (evaluateSemanticPolicy gambleKernel gambleQuery gamblePartition (rootPolicy "hedge")
      hedgeAdapter).isOk = true by decide +kernel)
  exact ⟨v, hv, liftSemanticPolicy_exact hv⟩

end Acfqp.Planning
