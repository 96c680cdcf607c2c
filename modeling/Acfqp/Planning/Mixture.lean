import Acfqp.Planning.Evaluation
import Acfqp.Planning.Lift

/-!
# Realizations and lifted steps are the same mixture

A semantic label at a ground state is a mixture of primitive actions. The envelope totals it over
successor cells and the kernel view totals it over outcome atoms; both are the mixture of the
ground backups.
-/

namespace Acfqp.Planning

open Library Abstraction

variable {S A C L : Type}

section Mixture

variable [PyRepr S] [PyRepr A]

def mixtureBackup (kernel : Kernel S A) (goal : String) (gain : Outcome S → ℚ) (state : S)
    (distribution : List (ℚ × A)) (V : S → ℚ) : ℚ :=
  (distribution.map fun e => e.1 * backup (outcomeBranches kernel goal gain
    ((iterOutcomes kernel state e.2).toOption.getD [])) V).sum

/-- Outcomes that integrate a distribution over primitive actions, as far as the channels see. -/
structure Mixes (kernel : Kernel S A) (goal : String) (weights : Features) (state : S)
    (distribution : List (ℚ × A)) (outcomes : List (Outcome S)) : Prop where
  reached : ∀ o ∈ outcomes, ∃ e ∈ distribution, ∃ os, iterOutcomes kernel state e.2 = .ok os ∧
    ∃ o' ∈ os, o'.nextState = o.nextState ∧
      outcomeStopped kernel goal o' = outcomeStopped kernel goal o
  reward : ∀ V, backup (outcomeBranches kernel goal (fun o => outcomeReward o weights) outcomes) V =
    mixtureBackup kernel goal (fun o => outcomeReward o weights) state distribution V
  failure : ∀ V, backup (outcomeBranches kernel goal failureCost outcomes) V =
    mixtureBackup kernel goal failureCost state distribution V

end Mixture

/-! ## The channels of an outcome -/

theorem weigh_sortBy (weights features : Features) :
    weigh weights (sortBy Prod.fst features) = weigh weights features := by
  rw [weigh, weigh, sum_map_sortBy]

theorem weigh_tally (weights : Features) (events : List (String × ℚ)) :
    weigh weights (tally events) = weigh weights events :=
  sum_tally (fun name => AddMonoidHom.mulLeft (weightOf weights name)) events

theorem weigh_flatMap {ι : Type} (weights : Features) (l : List ι) (f : ι → Features) :
    weigh weights (l.flatMap f) = (l.map fun i => weigh weights (f i)).sum := by
  induction l with
  | nil => rfl
  | cons i l ih =>
    rw [List.flatMap_cons, List.map_cons, List.sum_cons, ← ih]
    simp [weigh]

theorem weigh_scale (weights features : Features) (q : ℚ) :
    weigh weights (features.map fun f => (f.1, q * f.2)) = q * weigh weights features := by
  simp only [weigh, List.map_map, ← List.sum_map_mul_left]
  congr 1
  refine List.map_congr_left fun f _ => ?_
  simp only [Function.comp_apply]
  ring

/-- A way of keying outcomes that a channel does not notice. -/
structure AtomKey (atom : Outcome S → OutcomeAtom S) (gain : Outcome S → ℚ) : Prop where
  next : ∀ o, (atom o).1 = o.nextState
  flags : ∀ o, (atom o).2.2 = (o.failure, o.terminal)
  reads : ∃ g : OutcomeAtom S → ℚ, ∀ o, gain o = g (rawAtom o) ∧ gain o = g (atom o)

theorem rawAtom_key_reward (weights : Features) :
    AtomKey (rawAtom (S := S)) (fun o => outcomeReward o weights) :=
  ⟨fun _ => rfl, fun _ => rfl, fun a => weigh weights a.2.1, fun _ => ⟨rfl, rfl⟩⟩

theorem rawAtom_key_failure : AtomKey (rawAtom (S := S)) failureCost :=
  ⟨fun _ => rfl, fun _ => rfl, fun a => if a.2.2.1 then 1 else 0, fun _ => ⟨rfl, rfl⟩⟩

theorem outcomeAtom_key_reward (weights : Features) :
    AtomKey (outcomeAtom (S := S)) (fun o => outcomeReward o weights) :=
  ⟨fun _ => rfl, fun _ => rfl, fun a => weigh weights a.2.1,
    fun o => ⟨rfl, (weigh_sortBy weights o.rewardFeatures).symm⟩⟩

theorem outcomeAtom_key_failure : AtomKey (outcomeAtom (S := S)) failureCost :=
  ⟨fun _ => rfl, fun _ => rfl, fun a => if a.2.2.1 then 1 else 0, fun _ => ⟨rfl, rfl⟩⟩

theorem sum_filter_eq {α : Type} (p : α → Bool) (f : α → ℚ) (l : List α) :
    ((l.filter p).map f).sum = (l.map fun a => f a * if p a then 1 else 0).sum := by
  induction l with
  | nil => rfl
  | cons a l ih => by_cases ha : p a = true <;> simp [ha, ih]

/-! ## Realizations -/

def cellValue [DecidableEq S] [PyRepr S] (partition : Partition S C) (W : C → ℚ) (state : S) : ℚ :=
  (partition.cellOf state).toOption.elim 0 W

theorem cellValue_eq [DecidableEq S] [PyRepr S] {partition : Partition S C} {state : S} {W : C → ℚ}
    {c : C} (h : partition.cellOf state = .ok c) :
    cellValue partition W state = W c := by simp [cellValue, h, Except.toOption]

def atomBranch (gain : Outcome S → ℚ) (atom : RealizationAtom S C) : Branch ℚ C :=
  ⟨atom.probability, gain atom.outcome, atom.successor⟩

section Atoms

variable [DecidableEq S] [PyRepr S] [PyRepr A] {kernel : Kernel S A} {partition : Partition S C}
  {state : S}

theorem realizationAtoms_spec {goal : String} (hgoal : GoalFree kernel goal)
    {distribution : List (ℚ × A)} {atoms : List (RealizationAtom S C)}
    (h : realizationAtoms kernel partition state distribution = .ok atoms) :
    (∀ e ∈ distribution, ∃ outcomes, Planning.iterOutcomes kernel state e.2 = .ok outcomes ∧
      ∀ o ∈ outcomes, outcomeStopped kernel goal o = false → ∃ c,
        partition.cellOf o.nextState = .ok c ∧ ∃ a ∈ atoms, a.successor = some c) ∧
    ∀ gain W, backup (atoms.map (atomBranch gain)) W =
      mixtureBackup kernel goal gain state distribution (cellValue partition W) := by
  obtain ⟨rows, hrows, h⟩ := bind_eq_ok.mp h
  obtain rfl := pure_eq_ok.mp h
  have hstop : ∀ o : Outcome S, (o.failure || o.terminal || kernel.isTerminal o.nextState) =
      outcomeStopped kernel goal o := fun o => by rw [outcomeStopped, hgoal]
  constructor
  · intro e he
    obtain ⟨row, hrow, hy⟩ := exists_of_mapM hrows he
    obtain ⟨outcomes, ho, hy⟩ := bind_eq_ok.mp hy
    refine ⟨outcomes, Abstraction.iterOutcomes_eq_ok.mp ho, fun o hmem hs => ?_⟩
    obtain ⟨a, ha, hy⟩ := exists_of_mapM hy hmem
    rw [hstop, hs] at hy
    obtain ⟨c, hc, hy⟩ := bind_eq_ok.mp hy
    obtain rfl := pure_eq_ok.mp hy
    exact ⟨c, hc, _, List.mem_flatten.mpr ⟨row, hrow, ha⟩, rfl⟩
  · intro gain W
    have hsum : (rows.map fun row => backup (row.map (atomBranch gain)) W) = distribution.map
        fun e => e.1 * backup (outcomeBranches kernel goal gain
          ((Planning.iterOutcomes kernel state e.2).toOption.getD [])) (cellValue partition W) := by
      refine map_of_mapM hrows fun e _ row hy => ?_
      obtain ⟨outcomes, ho, hy⟩ := bind_eq_ok.mp hy
      rw [Abstraction.iterOutcomes_eq_ok.mp ho, backup_outcomeBranches, ← List.sum_map_mul_left,
        backup, List.map_map]
      congr 1
      refine map_of_mapM hy fun o _ a ha => ?_
      rw [hstop] at ha
      by_cases hs : outcomeStopped kernel goal o = true
      · rw [if_pos hs] at ha
        simp [← pure_eq_ok.mp ha, atomBranch, Branch.gain, hs, mul_assoc]
      · rw [if_neg hs] at ha
        obtain ⟨c, hc, ha⟩ := bind_eq_ok.mp ha
        simp [← pure_eq_ok.mp ha, atomBranch, Branch.gain, hs, mul_assoc, cellValue_eq hc]
    rw [mixtureBackup, ← hsum, List.map_flatten, backup_flatten, List.map_map]
    rfl

end Atoms

section Realization

variable [DecidableEq S] [PyRepr S] [DecidableEq A] [PyRepr A] [DecidableEq C] [PyRepr C]
  [DecidableEq L] [PyRepr L] {kernel : Kernel S A} {partition : Partition S C}
  {source : ActionSource S A L} {state : S} {label : L} {r : GroundRealization S C}

/-- A realization with continuation values is the backup of its atoms, in both channels. -/
theorem realization_backup (h : realization kernel partition source state label = .ok r) :
    r.state = state ∧ ∃ distribution atoms,
      source.concretizer state label = .ok distribution ∧
      realizationAtoms kernel partition state distribution = .ok atoms ∧
      (∀ c, c ∈ r.successorProbabilities.map Prod.fst ↔ ∃ a ∈ atoms, a.successor = some c) ∧
      ∀ V : C → ℚ,
        (∀ weights, r.reward weights +
            (r.successorProbabilities.map fun e => e.2 * V e.1).sum =
          backup (atoms.map (atomBranch fun o => outcomeReward o weights)) V) ∧
        r.failureProbability + (r.successorProbabilities.map fun e => e.2 * V e.1).sum =
          backup (atoms.map (atomBranch failureCost)) V := by
  obtain ⟨distribution, hdistribution, h⟩ := bind_eq_ok.mp h
  obtain ⟨atoms, hatoms, h⟩ := bind_eq_ok.mp h
  obtain ⟨_, -, h⟩ := bind_eq_ok.mp h
  obtain rfl := pure_eq_ok.mp h
  have hraw : source.concretizer state label = .ok distribution := by
    obtain ⟨raw, hraw, hd⟩ := bind_eq_ok.mp hdistribution
    obtain ⟨_, -, hd⟩ := bind_eq_ok.mp hd
    obtain ⟨_, -, hd⟩ := bind_eq_ok.mp hd
    obtain ⟨_, -, hd⟩ := bind_eq_ok.mp hd
    obtain ⟨_, -, hd⟩ := bind_eq_ok.mp hd
    obtain ⟨_, -, hd⟩ := bind_eq_ok.mp hd
    rw [hraw, pure_eq_ok.mp hd]
  have hsuccessors : ∀ (gain : Outcome S → ℚ) (V : C → ℚ),
      ((sortBy (fun e => pyRepr e.1) (tally (atoms.filterMap fun atom =>
        atom.successor.map fun cell => (cell, atom.probability)))).map fun e => e.2 * V e.1).sum =
      (((atoms.map (atomBranch gain)).filterMap Branch.successor?).map fun e =>
        e.2 * V e.1).sum := by
    intro gain V
    rw [sum_map_sortBy, sum_tally_mul, List.filterMap_map]
    rfl
  refine ⟨rfl, distribution, atoms, hraw, hatoms, fun c => ?_, fun V => ⟨fun weights => ?_, ?_⟩⟩
  · rw [((perm_sortBy _ _).map Prod.fst).mem_iff, mem_keys_tally]
    simp only [List.mem_map, List.mem_filterMap, Option.map_eq_some_iff]
    constructor
    · rintro ⟨_, ⟨a, ha, c', hc', rfl⟩, rfl⟩
      exact ⟨a, ha, hc'⟩
    · rintro ⟨a, ha, hc⟩
      exact ⟨_, ⟨a, ha, c, hc, rfl⟩, rfl⟩
  · rw [backup_eq, hsuccessors]
    congr 1
    simp only [GroundRealization.reward, weigh_sortBy, weigh_tally, weigh_flatMap, weigh_scale,
      List.map_map]
    rfl
  · rw [backup_eq, hsuccessors failureCost]
    congr 1
    rw [sum_filter_eq, List.map_map]
    rfl

theorem realization_mixes (h : realization kernel partition source state label = .ok r)
    {goal : String} (hgoal : GoalFree kernel goal) {raw : List (ℚ × A)}
    (hraw : source.concretizer state label = .ok raw) {weights : Features}
    {outcomes : List (Outcome S)} (hmixes : Mixes kernel goal weights state raw outcomes) :
    (∀ o ∈ outcomes, outcomeStopped kernel goal o = false →
      ∃ c, partition.cellOf o.nextState = .ok c ∧ c ∈ r.successorProbabilities.map Prod.fst) ∧
    ∀ W : C → ℚ,
      r.reward weights + (r.successorProbabilities.map fun e => e.2 * W e.1).sum =
        backup (outcomeBranches kernel goal (fun o => outcomeReward o weights) outcomes)
          (cellValue partition W) ∧
      r.failureProbability + (r.successorProbabilities.map fun e => e.2 * W e.1).sum =
        backup (outcomeBranches kernel goal failureCost outcomes) (cellValue partition W) := by
  obtain ⟨-, distribution, atoms, hdistribution, hatoms, hsuccessor, htotal⟩ :=
    realization_backup h
  rw [hraw] at hdistribution
  cases hdistribution
  obtain ⟨hreached, hbackup⟩ := realizationAtoms_spec hgoal hatoms
  refine ⟨fun o ho hs => ?_, fun W => ⟨?_, ?_⟩⟩
  · obtain ⟨e, he, os, hos, o', ho', hnext, hstopped⟩ := hmixes.reached o ho
    obtain ⟨os', hos', hcell⟩ := hreached e he
    rw [hos] at hos'
    cases hos'
    obtain ⟨c, hc, ha⟩ := hcell o' ho' (hstopped.trans hs)
    exact ⟨c, hnext ▸ hc, (hsuccessor c).mpr ha⟩
  · rw [(htotal W).1, hbackup, hmixes.reward]
  · rw [(htotal W).2, hbackup, hmixes.failure]

end Realization

/-! ## Steps of the view -/

section

variable [DecidableEq S] [PyRepr S] [PyRepr A] {kernel : Kernel S A} {state : S}

omit [PyRepr S] in
theorem coalesceAtoms_spec {κ : Type} [LinearOrder κ] {order : OutcomeAtom S → κ}
    {events : List (OutcomeAtom S × ℚ)} {outcomes : List (Outcome S)}
    (h : coalesceAtoms order events = .ok outcomes) :
    (∀ o ∈ outcomes, rawAtom o ∈ events.map Prod.fst) ∧
      ∀ G : OutcomeAtom S → ℚ, (outcomes.map fun o => o.probability * G (rawAtom o)).sum =
        (events.map fun e => e.2 * G e.1).sum := by
  have hmake : ∀ {e : OutcomeAtom S × ℚ} {o : Outcome S},
      Outcome.make e.2 e.1.1 e.1.2.1 e.1.2.2.1 e.1.2.2.2 = .ok o →
        o.probability = e.2 ∧ rawAtom o = e.1 := by
    intro e o ho
    obtain ⟨h1, h2, h3, h4, h5⟩ := Outcome.make_eq_ok ho
    exact ⟨h1, by rw [rawAtom, h2, h3, h4, h5]⟩
  constructor
  · intro o ho
    obtain ⟨e, he, heo⟩ := mem_of_mapM h ho
    rw [(hmake heo).2]
    exact mem_keys_tally.mp (List.mem_map_of_mem (mem_sortBy.mp he))
  · intro G
    rw [map_of_mapM h fun e _ o ho => by rw [(hmake ho).1, (hmake ho).2], sum_map_sortBy]
    exact sum_tally_mul G events

/-- A coalesced mixture of ground steps backs up like the mixture. -/
theorem coalesceAtoms_backup {κ : Type} [LinearOrder κ] {order : OutcomeAtom S → κ}
    {atom : Outcome S → OutcomeAtom S} {distribution : List (ℚ × A)}
    {events : List (OutcomeAtom S × ℚ)} {outcomes : List (Outcome S)}
    (hevents : atomEvents kernel state atom distribution = .ok events)
    (h : coalesceAtoms order events = .ok outcomes) (goal : String) {gain : Outcome S → ℚ}
    (hkey : AtomKey atom gain) :
    (∀ o ∈ outcomes, ∃ e ∈ distribution, ∃ os, iterOutcomes kernel state e.2 = .ok os ∧
      ∃ o' ∈ os, o'.nextState = o.nextState ∧
        outcomeStopped kernel goal o' = outcomeStopped kernel goal o) ∧
    ∀ V, backup (outcomeBranches kernel goal gain outcomes) V =
      mixtureBackup kernel goal gain state distribution V := by
  obtain ⟨rows, hrows, hevents⟩ := bind_eq_ok.mp hevents
  obtain rfl := pure_eq_ok.mp hevents
  obtain ⟨hmem, hsum⟩ := coalesceAtoms_spec h
  constructor
  · intro o ho
    obtain ⟨event, hevent, hatom⟩ := List.mem_map.mp (hmem o ho)
    obtain ⟨row, hrow, her⟩ := List.mem_flatten.mp hevent
    obtain ⟨e, he, hy⟩ := mem_of_mapM hrows hrow
    obtain ⟨os, hos, hy⟩ := bind_eq_ok.mp hy
    rw [← pure_eq_ok.mp hy] at her
    obtain ⟨o', ho', rfl⟩ := List.mem_map.mp her
    have hnext : o'.nextState = o.nextState :=
      (hkey.next o').symm.trans (congrArg (fun a : OutcomeAtom S => a.1) hatom)
    have hflags : (o'.failure, o'.terminal) = (o.failure, o.terminal) :=
      (hkey.flags o').symm.trans (congrArg (fun a : OutcomeAtom S => a.2.2) hatom)
    obtain ⟨hf, ht⟩ := Prod.mk.inj hflags
    exact ⟨e, he, os, hos, o', ho', hnext, by simp only [outcomeStopped, hnext, hf, ht]⟩
  · intro V
    obtain ⟨g, hg⟩ := hkey.reads
    let G : OutcomeAtom S → ℚ := fun a =>
      g a + if a.2.2.1 || a.2.2.2 || isStopped kernel a.1 goal then 0 else V a.1
    have hraw : ∀ o : Outcome S,
        (gain o + if outcomeStopped kernel goal o then 0 else V o.nextState) = G (rawAtom o) :=
      fun o => by rw [(hg o).1]; rfl
    have hG : ∀ o : Outcome S,
        (gain o + if outcomeStopped kernel goal o then 0 else V o.nextState) = G (atom o) := by
      intro o
      have hf := congrArg Prod.fst (hkey.flags o)
      have ht := congrArg Prod.snd (hkey.flags o)
      dsimp only at hf ht
      simp only [G, (hg o).2, hkey.next, hf, ht]
      rfl
    have hflat : (rows.map fun row => (row.map fun e => e.2 * G e.1).sum) = distribution.map
        fun e => e.1 * backup (outcomeBranches kernel goal gain
          ((iterOutcomes kernel state e.2).toOption.getD [])) V := by
      refine map_of_mapM hrows fun e _ row hy => ?_
      obtain ⟨os, ho, hy⟩ := bind_eq_ok.mp hy
      rw [← pure_eq_ok.mp hy, ho, List.map_map, backup_outcomeBranches, ← List.sum_map_mul_left]
      congr 1
      refine List.map_congr_left fun o _ => ?_
      simp only [Function.comp_apply, hG, mul_assoc]
    simp only [backup_outcomeBranches, hraw]
    rw [hsum G, mixtureBackup, ← hflat, List.map_flatten, List.sum_flatten, List.map_map]
    rfl

end

section View

variable [PyRepr S] [DecidableEq A] [PyRepr A] [DecidableEq L] [PyRepr L]
  {kernel : Kernel S A} {adapter : SemanticAdapter S A L} {state : S} {label : L}

/-- The coalesced concretizer is the raw one, up to the order and grouping of its actions. -/
theorem concretizerDistribution_spec {distribution : List (ℚ × A)}
    (h : concretizerDistribution kernel adapter state label = .ok distribution) :
    ∃ raw, adapter.concretize kernel state label = .ok raw ∧
      (∀ a, a ∈ distribution.map Prod.snd ↔ a ∈ raw.map Prod.snd) ∧
      ∀ F : A → ℚ, (distribution.map fun e => e.1 * F e.2).sum =
        (raw.map fun e => e.1 * F e.2).sum := by
  obtain ⟨labels, -, h⟩ := bind_eq_ok.mp h
  obtain ⟨_, -, h⟩ := bind_eq_ok.mp h
  obtain ⟨raw, hraw, h⟩ := bind_eq_ok.mp h
  obtain ⟨_, -, h⟩ := bind_eq_ok.mp h
  obtain ⟨_, -, h⟩ := bind_eq_ok.mp h
  obtain ⟨_, -, h⟩ := bind_eq_ok.mp h
  obtain ⟨_, -, h⟩ := bind_eq_ok.mp h
  obtain rfl := pure_eq_ok.mp h
  refine ⟨raw, hraw, fun a => ?_, fun F => ?_⟩
  · rw [((perm_sortBy _ _).map Prod.snd).mem_iff, List.map_map]
    refine Iff.trans (mem_keys_tally (k := a)) ?_
    rw [List.map_map]
    rfl
  · rw [sum_map_sortBy, List.map_map]
    refine (sum_tally_mul F _).trans ?_
    rw [List.map_map]
    rfl

theorem viewStep_mixes [DecidableEq S] {outcomes : List (Outcome S)}
    (h : viewStep kernel adapter state label = .ok outcomes) :
    ∃ raw, adapter.concretize kernel state label = .ok raw ∧
      ∀ goal weights, Mixes kernel goal weights state raw outcomes := by
  obtain ⟨distribution, hdistribution, h⟩ := bind_eq_ok.mp h
  obtain ⟨events, hevents, h⟩ := bind_eq_ok.mp h
  obtain ⟨coalesced, hcoalesced, h⟩ := bind_eq_ok.mp h
  obtain ⟨_, -, h⟩ := bind_eq_ok.mp h
  obtain rfl := pure_eq_ok.mp h
  obtain ⟨raw, hraw, hactions, hsum⟩ := concretizerDistribution_spec hdistribution
  refine ⟨raw, hraw, fun goal weights => ?_⟩
  have hreward := coalesceAtoms_backup hevents hcoalesced goal (outcomeAtom_key_reward weights)
  have hfailure := coalesceAtoms_backup hevents hcoalesced goal outcomeAtom_key_failure
  have hmixture : ∀ gain V, mixtureBackup kernel goal gain state distribution V =
      mixtureBackup kernel goal gain state raw V := fun gain V =>
    hsum fun a => backup (outcomeBranches kernel goal gain
      ((iterOutcomes kernel state a).toOption.getD [])) V
  refine ⟨fun o ho => ?_, fun V => (hreward.2 V).trans (hmixture _ V),
    fun V => (hfailure.2 V).trans (hmixture _ V)⟩
  obtain ⟨e, he, os, hos, ho'⟩ := hreward.1 o ho
  obtain ⟨e', he', heq⟩ := List.mem_map.mp ((hactions e.2).mp (List.mem_map_of_mem he))
  exact ⟨e', he', os, heq ▸ hos, ho'⟩

end View

end Acfqp.Planning
