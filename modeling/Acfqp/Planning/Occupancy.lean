import Acfqp.Planning.Frontier

/-!
# The occupancy recursion solves every distribution

Each stage of the recursion is shown to solve its distribution when the next stage solves the
successor distributions. The stages of a policy never share a decision, so that the continuation
of a joint choice can be extended without conflict.
-/

namespace Acfqp.Planning

open Library

variable {S A : Type}

/-- `occupancy_frontier` without its memo table and counter. -/
def occupancyDirect [DecidableEq S] [PyRepr S] [DecidableEq A] [PyRepr A] (kernel : Kernel S A)
    (goal : String) (weights : Features) (requirements : Requirements S A) :
    ℕ → Distribution S → Except PyError (List (ParetoPoint S A))
  | 0, _ => .ok [zeroPoint]
  | n + 1, distribution => occupancyStage (pure ()) kernel goal weights requirements (n + 1)
      (occupancyDirect kernel goal weights requirements n) distribution

section Computation

variable [DecidableEq S] [PyRepr S] [PyRepr A] {kernel : Kernel S A} {goal : String}
  {weights : Features} {requirements : Requirements S A} {σ : Type} {I : σ → Prop}
  {tick : StateT σ (Except PyError) Unit}

theorem finalStage_computes (htick : Computes I tick (pure ()))
    (choices : List ((S × ℚ) × List A)) :
    Computes I (finalStage tick kernel weights choices)
      (finalStage (pure ()) kernel weights choices) := by
  refine .foldlM fun points choice _ => ?_
  refine .bind (.mapM fun point _ => .mapM fun action _ => ?_) fun _ _ => .pure
  exact .bind htick fun _ _ => .bind .lift fun _ _ => .bind .lift fun _ _ => .pure

variable [DecidableEq A]

theorem jointStage_computes {n : ℕ}
    {f : Distribution S → StateT σ (Except PyError) (List (ParetoPoint S A))}
    {g : Distribution S → Except PyError (List (ParetoPoint S A))}
    (htick : Computes I tick (pure ())) (h : ∀ d, Computes I (f d) (g d))
    (choices : List ((S × ℚ) × List A)) :
    Computes I (jointStage tick kernel goal weights n f choices)
      (jointStage (pure ()) kernel goal weights n g choices) := by
  refine .bind (.mapM fun chosen _ => ?_) fun _ _ => .pure
  refine .bind .lift fun stage _ => .bind (h _) fun points _ => ?_
  exact .bind (.mapM fun point _ => .bind htick fun _ _ => .lift) fun _ _ => .pure

theorem occupancyStage_computes {n : ℕ}
    {f : Distribution S → StateT σ (Except PyError) (List (ParetoPoint S A))}
    {g : Distribution S → Except PyError (List (ParetoPoint S A))}
    (htick : Computes I tick (pure ())) (h : ∀ d, Computes I (f d) (g d))
    (distribution : Distribution S) :
    Computes I (occupancyStage tick kernel goal weights requirements n f distribution)
      (occupancyStage (pure ()) kernel goal weights requirements n g distribution) := by
  unfold occupancyStage
  split
  · exact .pure
  · refine .bind .lift fun choices _ => ?_
    split
    · exact .pure
    · split
      · exact finalStage_computes htick choices
      · exact jointStage_computes htick h choices

def FrontierTable (kernel : Kernel S A) (goal : String) (weights : Features)
    (requirements : Requirements S A)
    (t : List ((ℕ × Distribution S) × List (ParetoPoint S A)) × ℕ) : Prop :=
  Agrees (fun k => occupancyDirect kernel goal weights requirements k.1 k.2) t.1 ∧ True

theorem countCandidate_computes :
    Computes (ε := PyError) (FrontierTable kernel goal weights requirements)
      (modify fun t => (t.1, t.2 + 1)) (pure ()) :=
  fun t ht => ⟨(t.1, t.2 + 1), ht, rfl⟩

theorem occupancyFrontier_computes (n : ℕ) (distribution : Distribution S) :
    Computes (FrontierTable kernel goal weights requirements)
      (occupancyFrontier kernel goal weights requirements n distribution)
      (occupancyDirect kernel goal weights requirements n distribution) := by
  induction n generalizing distribution with
  | zero => exact Computes.memoize (J := fun _ => True) .pure
  | succ n ih =>
    exact Computes.memoize (J := fun _ => True)
      (occupancyStage_computes countCandidate_computes ih distribution)

end Computation

/-! ## Merging decisions -/

section

variable [DecidableEq S] [DecidableEq A]

theorem mergeDecisions_fresh {current mapping : List ((ℕ × S) × A)}
    (hfresh : ∀ d ∈ current, d.1 ∉ mapping.map Prod.fst) (hnodup : (current.map Prod.fst).Nodup) :
    mergeDecisions current mapping = some (mapping ++ current) := by
  induction current generalizing mapping with
  | nil => simp [mergeDecisions]
  | cons d current ih =>
    have hd := hfresh d (by simp)
    rw [List.map_cons, List.nodup_cons] at hnodup
    have hnone : mapping.lookup d.1 = none := by
      refine List.lookup_eq_none_iff.mpr fun p hp => ?_
      simp only [bne_iff_ne, ne_eq]
      intro he
      exact hd (he ▸ List.mem_map_of_mem hp)
    have hfresh' : ∀ e ∈ current, e.1 ∉ (mapping ++ [d]).map Prod.fst := by
      intro e he
      simp only [List.map_append, List.map_cons, List.map_nil, List.mem_append,
        List.mem_singleton, not_or]
      exact ⟨hfresh e (by simp [he]), fun heq => hnodup.1 (heq ▸ List.mem_map_of_mem he)⟩
    have hrest := ih hfresh' hnodup.2
    rw [mergeDecisions, List.foldlM_cons, hnone, Dict.assign_of_notMem hd]
    simpa [mergeDecisions] using hrest

theorem mem_mergeDecisions {current mapping merged : List ((ℕ × S) × A)} {x : (ℕ × S) × A}
    (h : mergeDecisions current mapping = some merged) (hx : x ∈ merged) :
    x ∈ mapping ∨ x ∈ current := by
  induction current generalizing mapping with
  | nil =>
    cases h
    exact .inl hx
  | cons d current ih =>
    have hrest : mergeDecisions current (Dict.assign d.1 d.2 mapping) = some merged := by
      rw [mergeDecisions, List.foldlM_cons] at h
      split at h
      · split at h
        · cases h
        · exact h
      · exact h
    rcases ih hrest with hx | hx
    · rcases Dict.mem_assign hx with rfl | hx
      · exact .inr List.mem_cons_self
      · exact .inl hx
    · exact .inr (List.mem_cons_of_mem _ hx)

/-- A combined policy decides as its continuation or as its stage. -/
theorem mem_combinePoint [PyRepr S] [PyRepr A] {immediate : ℚ × ℚ} {current : List ((ℕ × S) × A)}
    {p q : ParetoPoint S A} (h : combinePoint immediate current p = .ok (some q))
    {x : (ℕ × S) × A} (hx : x ∈ q.policy.asDict) : x ∈ p.policy.asDict ∨ x ∈ current := by
  unfold combinePoint at h
  split at h
  · cases h
  · rename_i merged hmerged
    obtain ⟨policy, hpolicy, h⟩ := bind_eq_ok.mp h
    cases h
    exact mem_mergeDecisions hmerged
      ((select_fromMapping hpolicy).mp (mem_asDict_iff_select.mp hx))

end

/-! ## The decision states of a distribution -/

section

variable [DecidableEq S] {kernel : Kernel S A} {goal : String} {requirements : Requirements S A}
  {cover : ℕ → S → Prop} {select : Selector S A} {n : ℕ} {c : (S × ℚ) × List A}

def ValidRequirements (kernel : Kernel S A) (requirements : Requirements S A) : Prop :=
  ∀ k a, requirements.entries.lookup k = some a →
    ∀ actions, kernel.actions k.2 = .ok actions → a ∈ actions

/-- A decision state with the actions that the requirements leave open. -/
structure ChoiceFor (kernel : Kernel S A) (goal : String) (requirements : Requirements S A)
    (n : ℕ) (c : (S × ℚ) × List A) : Prop where
  active : isStopped kernel c.1.1 goal = false
  nonempty : c.2 ≠ []
  actions : ∃ actions, kernel.actions c.1.1 = .ok actions ∧ ∀ a, a ∈ c.2 ↔
    a ∈ actions ∧ ∀ b, requirements.entries.lookup (n, c.1.1) = some b → a = b

theorem ChoiceFor.respects (h : ChoiceFor kernel goal requirements n c) {a b : A} (ha : a ∈ c.2)
    (hb : requirements.entries.lookup (n, c.1.1) = some b) : a = b := by
  obtain ⟨actions, -, hmem⟩ := h.actions
  exact ((hmem a).mp ha).2 b hb

/-- A deciding selector picks one of the open actions. -/
theorem ChoiceFor.pick (h : ChoiceFor kernel goal requirements (n + 1) c)
    (hd : Decides kernel goal cover select) (hr : Respects requirements select)
    (hc : cover (n + 1) c.1.1) : ∃ a ∈ c.2, select (n + 1) c.1.1 = some a := by
  obtain ⟨actions, hactions, hmem⟩ := h.actions
  have hidle : ¬ Idle kernel goal c.1.1 := by
    rintro (hs | hs)
    · simp [h.active] at hs
    · obtain ⟨a, ha⟩ := List.exists_mem_of_ne_nil _ h.nonempty
      have := ((hmem a).mp ha).1
      rw [hs] at hactions
      cases hactions
      simp at this
  obtain ⟨a, ha, hsel⟩ := hd n c.1.1 hc hidle actions hactions
  exact ⟨a, (hmem a).mpr ⟨ha, fun b hb => hr _ _ b a hb hsel⟩, hsel⟩

/-- A joint choice of the decision states, one open action each. -/
structure JointChoice (kernel : Kernel S A) (goal : String) (requirements : Requirements S A)
    (n : ℕ) (states : Distribution S) (chosen : List ((S × ℚ) × A)) : Prop where
  states_eq : chosen.map Prod.fst = states
  open_action : ∀ c ∈ chosen, ∃ actions, ChoiceFor kernel goal requirements n (c.1, actions) ∧
    c.2 ∈ actions

theorem jointChoice_zip {choices : List ((S × ℚ) × List A)} {actions : List A}
    (hchoices : ∀ c ∈ choices, ChoiceFor kernel goal requirements n c)
    (h : List.Forall₂ (fun a (c : (S × ℚ) × List A) => a ∈ c.2) actions choices) :
    JointChoice kernel goal requirements n (choices.map Prod.fst)
      ((choices.map Prod.fst).zip actions) := by
  refine ⟨List.map_fst_zip (by simp [h.length_eq]), fun c hc => ?_⟩
  induction h with
  | nil => simp at hc
  | @cons a d _ _ ha _ ih =>
    rcases List.mem_cons.mp hc with rfl | hc
    · exact ⟨d.2, hchoices d (by simp), ha⟩
    · exact ih (fun e he => hchoices e (by simp [he])) hc

variable [PyRepr A]

theorem ChoiceFor.takes [PyRepr S] (h : ChoiceFor kernel goal requirements n c) {a : A}
    (ha : a ∈ c.2)
    {outcomes : List (Outcome S)} (ho : iterOutcomes kernel c.1.1 a = .ok outcomes)
    (hs : select n c.1.1 = some a) : Takes kernel goal select n c.1.1 a outcomes := by
  obtain ⟨actions, hactions, hmem⟩ := h.actions
  exact ⟨h.active, ⟨actions, hactions, ((hmem a).mp ha).1⟩, hs, ho⟩

theorem decisionChoices_spec [DecidableEq A] (hreq : ValidRequirements kernel requirements)
    {distribution : Distribution S} {choices : List ((S × ℚ) × List A)}
    (h : decisionChoices kernel goal requirements n distribution = .ok choices) :
    (choices.map Prod.fst).Sublist distribution ∧
      (∀ c ∈ choices, ChoiceFor kernel goal requirements n c) ∧
      ∀ e ∈ distribution, 0 < e.2 → e ∉ choices.map Prod.fst → Idle kernel goal e.1 := by
  obtain ⟨all, hall, h⟩ := bind_eq_ok.mp h
  rw [← pure_eq_ok.mp h]
  have hfst : all.map Prod.fst = _ := map_of_mapM (k := id) hall fun e _ y hy => by
    obtain ⟨actions, -, hy⟩ := bind_eq_ok.mp hy
    rw [← pure_eq_ok.mp hy]
    rfl
  rw [List.map_id] at hfst
  refine ⟨(List.filter_sublist.map _).trans (hfst ▸ List.filter_sublist), fun c hc => ?_,
    fun e he hpos hnot => ?_⟩
  · obtain ⟨hc, hne⟩ := List.mem_filter.mp hc
    obtain ⟨e, he, hy⟩ := mem_of_mapM hall hc
    obtain ⟨actions, hactions, hy⟩ := bind_eq_ok.mp hy
    obtain rfl := pure_eq_ok.mp hy
    have hactive : isStopped kernel e.1 goal = false := by
      have := (List.mem_filter.mp he).2
      simp only [decide_eq_true_eq, not_or, Bool.not_eq_true] at this
      exact this.2
    refine ⟨hactive, by simpa using hne, actions, hactions, fun a => ?_⟩
    cases hl : requirements.entries.lookup (n, e.1) with
    | none => simp [deterministicOrder]
    | some b =>
      have hb : b ∈ actions := hreq (n, e.1) b hl actions hactions
      simp only [Option.map_some, Option.getD_some, List.mem_singleton, Option.some.injEq,
        forall_eq']
      constructor
      · rintro rfl; exact ⟨hb, rfl⟩
      · exact fun h => h.2
  · by_cases hs : isStopped kernel e.1 goal = true
    · exact .inl hs
    · have hf : e ∈ distribution.filter fun e =>
          decide (¬ (e.2 ≤ 0 ∨ isStopped kernel e.1 goal = true)) :=
        List.mem_filter.mpr ⟨he, by simpa [hs] using hpos⟩
      obtain ⟨y, hy, hye⟩ := exists_of_mapM hall hf
      obtain ⟨actions, hactions, hye⟩ := bind_eq_ok.mp hye
      obtain rfl := pure_eq_ok.mp hye
      right
      by_contra hnil
      have hne : actions ≠ [] := fun h => hnil (h ▸ hactions)
      refine hnot (List.mem_map.mpr ⟨_, List.mem_filter.mpr ⟨hy, ?_⟩, rfl⟩)
      cases requirements.entries.lookup (n, e.1) <;> simp [deterministicOrder, hne]

end

section FinalStage

variable [PyRepr S] [PyRepr A] {kernel : Kernel S A} {goal : String} {weights : Features}
  {requirements : Requirements S A} {cover : ℕ → S → Prop}

theorem massValue_zero (select : Selector S A) (d : Distribution S) :
    massValue kernel goal weights select 0 d = 0 := by
  simp [massValue, massSum]

/-- A selector that takes one action at the last stage is worth the immediate part. -/
theorem massValue_last {select : Selector S A} {e : S × ℚ} {a : A} {outcomes : List (Outcome S)}
    (h : Takes kernel goal select 1 e.1 a outcomes) :
    massValue kernel goal weights select 1 [e] =
      immediatePart (immediateValue weights e.2 outcomes) := by
  have ht : ∀ c ∈ [(e, a)], Takes kernel goal select 1 c.1.1 c.2 outcomes := by simpa using h
  have hstage := massValue_stage (n := 0) weights ht
  simpa [massValue_zero] using hstage

variable [DecidableEq S]

theorem solves_extend {c : (S × ℚ) × List A} {distribution : Distribution S}
    {points : List (ParetoPoint S A)}
    (hpoints : Solves kernel goal weights requirements cover 1 distribution points)
    (hc : ChoiceFor kernel goal requirements 1 c) (hcover : cover 1 c.1.1)
    (hfresh : c.1.1 ∉ distribution.map Prod.fst)
    {next : List (ParetoPoint S A)}
    (h : extendFrontier (m := Except PyError) (pure ()) kernel weights points c = .ok next) :
    Solves kernel goal weights requirements cover 1 (distribution ++ [c.1]) next := by
  obtain ⟨extended, hextended, hnext⟩ := bind_eq_ok.mp h
  obtain rfl := pure_eq_ok.mp hnext
  refine solves_paretoPrune (fun select hd hr => ?_) fun q hq => ?_
  · obtain ⟨hf, p, hp, hle⟩ := hpoints.covers select hd hr
    obtain ⟨a, ha, hsel⟩ := hc.pick hd hr hcover
    obtain ⟨row, hrow, hq⟩ := exists_of_mapM hextended hp
    obtain ⟨q, hqrow, hq⟩ := exists_of_mapM hq ha
    obtain ⟨_, -, hq⟩ := bind_eq_ok.mp hq
    obtain ⟨outcomes, ho, hq⟩ := bind_eq_ok.mp hq
    obtain ⟨policy, -, hq⟩ := bind_eq_ok.mp hq
    have ht := hc.takes ha ho hsel
    refine ⟨fun e he => ?_, q, List.mem_flatten.mpr ⟨row, hrow, hqrow⟩, ?_⟩
    · rcases List.mem_append.mp he with he | he
      · exact hf e he
      · obtain rfl : e = c.1 := by simpa using he
        exact .inr ⟨a, outcomes, ht, fun _ _ _ => trivial⟩
    · rw [massValue_append, massValue_last ht, ← pure_eq_ok.mp hq]
      exact add_le_add_left hle _
  · obtain ⟨row, hrow, hqrow⟩ := List.mem_flatten.mp hq
    obtain ⟨p, hp, hrow⟩ := mem_of_mapM hextended hrow
    obtain ⟨a, ha, hq⟩ := mem_of_mapM hrow hqrow
    obtain ⟨_, -, hq⟩ := bind_eq_ok.mp hq
    obtain ⟨outcomes, ho, hq⟩ := bind_eq_ok.mp hq
    obtain ⟨policy, hpolicy, hq⟩ := bind_eq_ok.mp hq
    obtain rfl := pure_eq_ok.mp hq
    have hself : policy.select 1 c.1.1 = some a :=
      (select_fromMapping hpolicy).mpr (Dict.mem_assign_self ..)
    have ht := hc.takes ha ho hself
    have hkeep := Follows.congr kernel goal p.policy.select policy.select
      (fun k t => k = 0 ∨ k = 1 ∧ t ≠ c.1.1)
      (fun k t b outs hk _ o _ _ => .inl (by omega)) (fun k t b _ hk htk => by
        refine (select_fromMapping hpolicy).mpr (Dict.mem_assign_of_ne ?_
          (mem_asDict_iff_select.mpr htk.selected))
        rcases hk with hk | ⟨-, hk⟩
        · omega
        · simp [hk])
    have hold : ∀ e ∈ distribution, Follows kernel goal policy.select 1 e.1 ∧
        ∀ gain, Library.value (selectorLaw kernel goal gain policy.select) 1 e.1 =
          Library.value (selectorLaw kernel goal gain p.policy.select) 1 e.1 := fun e he =>
      hkeep 1 e.1 (.inr ⟨rfl, fun heq => hfresh (heq ▸ List.mem_map_of_mem he)⟩)
        (hpoints.follows p hp e he)
    refine ⟨fun e he => ?_, fun n s b b' hb hb' => ?_, ?_, fun d hd => ?_⟩
    · rcases List.mem_append.mp he with he | he
      · exact (hold e he).1
      · obtain rfl : e = c.1 := by simpa using he
        exact .inr ⟨a, outcomes, ht, fun _ _ _ => trivial⟩
    · rcases Dict.mem_assign ((select_fromMapping hpolicy).mp hb') with hk | hk
      · cases hk
        exact hc.respects ha hb
      · exact hpoints.respects p hp n s b b' hb (mem_asDict_iff_select.mp hk)
    · rw [massValue_append, massValue_last ht, massValue_congr fun e he => (hold e he).2,
        ← hpoints.value p hp]
      rfl
    · rcases Dict.mem_assign ((FiniteHorizonPolicy.mem_asDict_of_fromMapping hpolicy d).mp hd)
        with rfl | hd
      · exact ⟨le_rfl, hcover⟩
      · exact hpoints.decided p hp d hd

theorem solves_finalStage {choices : List ((S × ℚ) × List A)} {points : List (ParetoPoint S A)}
    (hchoices : ∀ c ∈ choices, ChoiceFor kernel goal requirements 1 c)
    (hcover : ∀ c ∈ choices, cover 1 c.1.1)
    (hnodup : ((choices.map Prod.fst).map Prod.fst).Nodup)
    (h : finalStage (m := Except PyError) (pure ()) kernel weights choices = .ok points) :
    Solves kernel goal weights requirements cover 1 (choices.map Prod.fst) points := by
  have key : ∀ (rest : List ((S × ℚ) × List A)) (distribution : Distribution S)
      (start : List (ParetoPoint S A)), (∀ c ∈ rest, c ∈ choices) →
      ((distribution ++ rest.map Prod.fst).map Prod.fst).Nodup →
      Solves kernel goal weights requirements cover 1 distribution start →
      ∀ points, rest.foldlM (extendFrontier (m := Except PyError) (pure ()) kernel weights) start =
        .ok points →
      Solves kernel goal weights requirements cover 1 (distribution ++ rest.map Prod.fst)
        points := by
    intro rest
    induction rest with
    | nil =>
      intro distribution start _ _ hs points h
      rw [← pure_eq_ok.mp h]
      simpa using hs
    | cons c rest ih =>
      intro distribution start hmem hn hs points h
      rw [List.foldlM_cons] at h
      obtain ⟨next, hnext, h⟩ := bind_eq_ok.mp h
      have hfresh : c.1.1 ∉ distribution.map Prod.fst := fun hm => by
        rw [List.map_append, List.nodup_append] at hn
        exact hn.2.2 _ hm _ (by simp) rfl
      have hstep := solves_extend hs (hchoices c (hmem c (by simp)))
        (hcover c (hmem c (by simp))) hfresh hnext
      have := ih (distribution ++ [c.1]) _ (fun d hd => hmem d (by simp [hd]))
        (by simpa using hn) hstep points h
      simpa using this
  have hzero : Solves kernel goal weights requirements cover 1 [] [zeroPoint] :=
    solves_zeroPoint (by simp)
  simpa using key choices [] [zeroPoint] (fun _ => id) (by simpa using hnodup) hzero points h

end FinalStage

section JointStage

variable [DecidableEq S] [PyRepr S] [PyRepr A] {kernel : Kernel S A} {goal : String}
  {weights : Features} {requirements : Requirements S A} {cover : ℕ → S → Prop} {n : ℕ}

theorem composeStage_spec {chosen : List ((S × ℚ) × A)} {immediate : ℚ × ℚ}
    {mass : Distribution S}
    (h : composeStage kernel goal weights chosen = .ok (immediate, mass)) :
    ∃ outs : (S × ℚ) × A → List (Outcome S),
      (∀ c ∈ chosen, iterOutcomes kernel c.1.1 c.2 = .ok (outs c)) ∧
      immediatePart immediate =
        (chosen.map fun c => immediatePart (immediateValue weights c.1.2 (outs c))).sum ∧
      mass = tally (chosen.flatMap fun c => successorEvents kernel goal c.1.2 (outs c)) := by
  obtain ⟨steps, hsteps, h⟩ := bind_eq_ok.mp h
  let outs : (S × ℚ) × A → List (Outcome S) := fun c =>
    (iterOutcomes kernel c.1.1 c.2).toOption.getD []
  have houts : ∀ c ∈ chosen, iterOutcomes kernel c.1.1 c.2 = .ok (outs c) := by
    intro c hc
    obtain ⟨y, -, hy⟩ := exists_of_mapM hsteps hc
    obtain ⟨outcomes, ho, -⟩ := bind_eq_ok.mp hy
    simp [outs, ho, Except.toOption]
  have hmap : steps.map id = chosen.map fun c =>
      (immediateValue weights c.1.2 (outs c), successorEvents kernel goal c.1.2 (outs c)) := by
    refine map_of_mapM hsteps fun c hc y hy => ?_
    obtain ⟨outcomes, ho, hy⟩ := bind_eq_ok.mp hy
    rw [houts c hc] at ho
    cases ho
    exact (pure_eq_ok.mp hy).symm
  rw [List.map_id] at hmap
  obtain ⟨rfl, rfl⟩ := Prod.mk.inj (pure_eq_ok.mp h)
  refine ⟨outs, houts, ?_, ?_⟩
  · rw [immediatePart_sum, hmap, List.map_map]
    rfl
  · rw [hmap, List.flatMap_map]

/-- The successor distribution carries the value of the successor events. -/
theorem massValue_canonical_tally {events : List (S × ℚ)} (hpos : ∀ e ∈ events, 0 < e.2)
    (select : Selector S A) :
    massValue kernel goal weights select n (canonicalDistribution (tally events)) =
      massValue kernel goal weights select n events := by
  have htally : ∀ e ∈ tally events, 0 < e.2 := tally_totals (fun _ _ => add_pos) hpos
  have hsum : ∀ V : S → ℚ, massSum V (canonicalDistribution (tally events)) = massSum V events :=
    fun V => (massSum_canonicalDistribution V htally).trans (sum_tally_mul V events)
  simp only [massValue, hsum]

theorem mem_canonical_tally {events : List (S × ℚ)} (hpos : ∀ e ∈ events, 0 < e.2) {s : S} :
    s ∈ (canonicalDistribution (tally events)).map Prod.fst ↔ s ∈ events.map Prod.fst := by
  refine Iff.trans ?_ mem_keys_tally
  constructor
  · intro hs
    obtain ⟨e, he, rfl⟩ := List.mem_map.mp hs
    exact List.mem_map_of_mem (mem_canonicalDistribution.mp he).1
  · intro hs
    obtain ⟨e, he, rfl⟩ := List.mem_map.mp hs
    exact List.mem_map_of_mem (mem_canonicalDistribution.mpr
      ⟨he, tally_totals (fun _ _ => add_pos) hpos e he⟩)

theorem JointChoice.events {states : Distribution S} {chosen : List ((S × ℚ) × A)}
    (h : JointChoice kernel goal requirements (n + 1) states chosen)
    (hclosed : ClosedCover kernel goal cover) (hpos : ∀ e ∈ states, 0 < e.2)
    (hcover : ∀ e ∈ states, cover (n + 1) e.1) {outs : (S × ℚ) × A → List (Outcome S)}
    (houts : ∀ c ∈ chosen, iterOutcomes kernel c.1.1 c.2 = .ok (outs c)) :
    ∀ e ∈ chosen.flatMap fun c => successorEvents kernel goal c.1.2 (outs c),
      0 < e.2 ∧ cover n e.1 := by
  intro e he
  obtain ⟨c, hc, he⟩ := List.mem_flatMap.mp he
  obtain ⟨o, ho, hs, hnext, hmass⟩ := mem_successorEvents he
  obtain ⟨open_, hopen, ha⟩ := h.open_action c hc
  obtain ⟨actions, hactions, hmem⟩ := hopen.actions
  have hstate : c.1 ∈ states := h.states_eq ▸ List.mem_map_of_mem hc
  refine ⟨hmass ▸ mul_pos (hpos _ hstate) o.probability_pos, hnext ▸ ?_⟩
  exact hclosed n c.1.1 actions c.2 (outs c) (hcover _ hstate) hopen.active hactions
    ((hmem _).mp ha).1 (houts c hc) o ho hs

theorem JointChoice.follows {states : Distribution S} {chosen : List ((S × ℚ) × A)}
    (h : JointChoice kernel goal requirements (n + 1) states chosen) {select : Selector S A}
    (hsel : ∀ c ∈ chosen, select (n + 1) c.1.1 = some c.2)
    {outs : (S × ℚ) × A → List (Outcome S)}
    (houts : ∀ c ∈ chosen, iterOutcomes kernel c.1.1 c.2 = .ok (outs c))
    (hbelow : ∀ e ∈ chosen.flatMap fun c => successorEvents kernel goal c.1.2 (outs c),
      Follows kernel goal select n e.1) :
    (∀ c ∈ chosen, Takes kernel goal select (n + 1) c.1.1 c.2 (outs c)) ∧
      ∀ e ∈ states, Follows kernel goal select (n + 1) e.1 := by
  have htakes : ∀ c ∈ chosen, Takes kernel goal select (n + 1) c.1.1 c.2 (outs c) := by
    intro c hc
    obtain ⟨open_, hopen, ha⟩ := h.open_action c hc
    exact hopen.takes ha (houts c hc) (hsel c hc)
  refine ⟨htakes, fun e he => ?_⟩
  obtain ⟨c, hc, rfl⟩ := List.mem_map.mp (h.states_eq.symm ▸ he)
  refine .inr ⟨c.2, outs c, htakes c hc, fun o ho hs => ?_⟩
  refine hbelow (o.nextState, c.1.2 * o.probability) (List.mem_flatMap.mpr ⟨c, hc, ?_⟩)
  exact List.mem_map.mpr ⟨o, List.mem_filter.mpr ⟨ho, by simp [hs]⟩, rfl⟩

variable [DecidableEq A]

theorem combinePoint_spec {immediate : ℚ × ℚ} {current : List ((ℕ × S) × A)}
    {point : ParetoPoint S A} {combined : Option (ParetoPoint S A)}
    (hbounded : ∀ d ∈ point.policy.asDict, d.1.1 ≤ n) (hcurrent : ∀ d ∈ current, d.1.1 = n + 1)
    (hnodup : (current.map Prod.fst).Nodup)
    (h : combinePoint immediate current point = .ok combined) :
    ∃ q, combined = some q ∧ q.value = immediatePart immediate + point.value ∧
      ∀ d, d ∈ q.policy.asDict ↔ d ∈ point.policy.asDict ∨ d ∈ current := by
  have hfresh : ∀ d ∈ current, d.1 ∉ point.policy.asDict.map Prod.fst := by
    intro d hd hmem
    obtain ⟨e, he, hde⟩ := List.mem_map.mp hmem
    have := hbounded e he
    rw [hde, hcurrent d hd] at this
    omega
  rw [combinePoint, mergeDecisions_fresh hfresh hnodup] at h
  obtain ⟨policy, hpolicy, h⟩ := bind_eq_ok.mp h
  refine ⟨_, (pure_eq_ok.mp h).symm, rfl, fun d => ?_⟩
  rw [FiniteHorizonPolicy.mem_asDict_of_fromMapping hpolicy, List.mem_append]

theorem JointChoice.candidates {states : Distribution S} {chosen : List ((S × ℚ) × A)}
    (hJ : JointChoice kernel goal requirements (n + 1) states chosen)
    (hclosed : ClosedCover kernel goal cover)
    {continuation : Distribution S → Except PyError (List (ParetoPoint S A))}
    (hcont : ∀ d points, (d.map Prod.fst).Nodup → (∀ e ∈ d, 0 < e.2) → (∀ e ∈ d, cover n e.1) →
      continuation d = .ok points → Solves kernel goal weights requirements cover n d points)
    (hpos : ∀ e ∈ states, 0 < e.2) (hcover : ∀ e ∈ states, cover (n + 1) e.1)
    (hnodup : (states.map Prod.fst).Nodup) {row : List (ParetoPoint S A)}
    (h : jointCandidates (m := Except PyError) (pure ()) kernel goal weights (n + 1) continuation
      chosen = .ok row) :
    (∀ q ∈ row, (∀ e ∈ states, Follows kernel goal q.policy.select (n + 1) e.1) ∧
      Respects requirements q.policy.select ∧
      q.value = massValue kernel goal weights q.policy.select (n + 1) states ∧
      ∀ d ∈ q.policy.asDict, d.1.1 ≤ n + 1 ∧ cover d.1.1 d.1.2) ∧
    ∀ select, Decides kernel goal cover select → Respects requirements select →
      (∀ c ∈ chosen, select (n + 1) c.1.1 = some c.2) →
      (∀ e ∈ states, Follows kernel goal select (n + 1) e.1) ∧
        ∃ q ∈ row, massValue kernel goal weights select (n + 1) states ≤ q.value := by
  obtain ⟨⟨immediate, mass⟩, hstage, h⟩ := bind_eq_ok.mp h
  obtain ⟨points, hpoints, h⟩ := bind_eq_ok.mp h
  obtain ⟨combined, hcombined, h⟩ := bind_eq_ok.mp h
  obtain rfl := pure_eq_ok.mp h
  obtain ⟨outs, houts, himm, rfl⟩ := composeStage_spec hstage
  have hevents := hJ.events hclosed hpos hcover houts
  have heventsPos := fun e he => (hevents e he).1
  have hsolves := hcont _ points (nodup_canonicalDistribution (nodup_keys_tally _))
    (fun e he => (mem_canonicalDistribution.mp he).2)
    (fun e he => by
      obtain ⟨e', he', heq⟩ := List.mem_map.mp
        ((mem_canonical_tally heventsPos).mp (List.mem_map_of_mem he))
      exact heq ▸ (hevents e' he').2) hpoints
  -- following from the successor distribution is following from every successor event
  have hbelow : ∀ select : Selector S A,
      (∀ e ∈ canonicalDistribution (tally (chosen.flatMap fun c =>
        successorEvents kernel goal c.1.2 (outs c))), Follows kernel goal select n e.1) →
      ∀ e ∈ chosen.flatMap fun c => successorEvents kernel goal c.1.2 (outs c),
        Follows kernel goal select n e.1 := fun select hf e he => by
    obtain ⟨e', he', heq⟩ := List.mem_map.mp
      ((mem_canonical_tally heventsPos).mpr (List.mem_map_of_mem he))
    exact heq ▸ hf e' he'
  have hvalue : ∀ select : Selector S A,
      (∀ c ∈ chosen, Takes kernel goal select (n + 1) c.1.1 c.2 (outs c)) →
      massValue kernel goal weights select (n + 1) states = immediatePart immediate +
        massValue kernel goal weights select n (canonicalDistribution (tally
          (chosen.flatMap fun c => successorEvents kernel goal c.1.2 (outs c)))) :=
    fun select ht => by
      rw [← hJ.states_eq, massValue_stage weights ht, himm, massValue_canonical_tally heventsPos]
  have hkeys : ((chosen.map fun c => (((n + 1, c.1.1), c.2) : (ℕ × S) × A)).map
      Prod.fst).Nodup := by
    rw [List.map_map]
    have : (chosen.map fun c => c.1.1).Nodup := by
      rw [← hJ.states_eq, List.map_map] at hnodup
      exact hnodup
    exact List.Nodup.of_map Prod.snd (by simpa [List.map_map, Function.comp_def] using this)
  have hstageKeys : ∀ d ∈ chosen.map fun c => (((n + 1, c.1.1), c.2) : (ℕ × S) × A),
      d.1.1 = n + 1 := fun d hd => by
    obtain ⟨c, -, rfl⟩ := List.mem_map.mp hd
    rfl
  have hcombine : ∀ p ∈ points, ∀ o, combinePoint immediate
      (chosen.map fun c => ((n + 1, c.1.1), c.2)) p = .ok o → _ := fun p hp o ho =>
    combinePoint_spec (fun d hd => (hsolves.decided p hp d hd).1) hstageKeys hkeys ho
  refine ⟨fun q hq => ?_, fun select hd hr hsel => ?_⟩
  · obtain ⟨o, ho, rfl⟩ : ∃ o ∈ combined, o = some q := by simpa using hq
    obtain ⟨p, hp, ho⟩ := mem_of_mapM hcombined ho
    obtain ⟨_, -, ho⟩ := bind_eq_ok.mp ho
    obtain ⟨q', hq', hval, hdict⟩ := hcombine p hp _ ho
    cases hq'
    have hext : ∀ k t b, p.policy.select k t = some b → q.policy.select k t = some b :=
      fun k t b hb => mem_asDict_iff_select.mp
        ((hdict _).mpr (.inl (mem_asDict_iff_select.mpr hb)))
    have hnew : ∀ c ∈ chosen, q.policy.select (n + 1) c.1.1 = some c.2 := fun c hc =>
      mem_asDict_iff_select.mp ((hdict _).mpr (.inr (List.mem_map.mpr ⟨c, hc, rfl⟩)))
    have hcongr := Follows.congr kernel goal p.policy.select q.policy.select (fun _ _ => True)
      (fun _ _ _ _ _ _ _ _ _ => trivial) fun k t b _ _ htk =>
        hext (k + 1) t b htk.selected
    have hpf := hsolves.follows p hp
    obtain ⟨htakes, hf⟩ := hJ.follows hnew houts
      (hbelow _ fun e he => (hcongr n e.1 trivial (hpf e he)).1)
    refine ⟨hf, fun k t b b' hb hb' => ?_, ?_, fun d hd => ?_⟩
    · rcases (hdict _).mp (mem_asDict_iff_select.mpr hb') with hk | hk
      · exact hsolves.respects p hp k t b b' hb (mem_asDict_iff_select.mp hk)
      · obtain ⟨c, hc, hkc⟩ := List.mem_map.mp hk
        cases hkc
        obtain ⟨open_, hopen, ha⟩ := hJ.open_action c hc
        exact hopen.respects ha hb
    · rw [hval, hvalue _ htakes, hsolves.value p hp]
      congr 1
      exact (massValue_congr fun e he => (hcongr n e.1 trivial (hpf e he)).2).symm
    · rcases (hdict d).mp hd with hd | hd
      · obtain ⟨hle, hdecided⟩ := hsolves.decided p hp d hd
        exact ⟨hle.trans (Nat.le_succ n), hdecided⟩
      · obtain ⟨c, hc, rfl⟩ := List.mem_map.mp hd
        exact ⟨le_rfl, hcover c.1 (hJ.states_eq ▸ List.mem_map_of_mem hc)⟩
  · obtain ⟨hf, p, hp, hle⟩ := hsolves.covers select hd hr
    obtain ⟨htakes, hfollows⟩ := hJ.follows hsel houts (hbelow _ hf)
    obtain ⟨o, ho, hpo⟩ := exists_of_mapM hcombined hp
    obtain ⟨_, -, hpo⟩ := bind_eq_ok.mp hpo
    obtain ⟨q, rfl, hval, -⟩ := hcombine p hp o hpo
    refine ⟨hfollows, q, List.mem_filterMap.mpr ⟨_, ho, rfl⟩, ?_⟩
    rw [hvalue select htakes, hval]
    exact add_le_add_right hle _

theorem solves_jointStage (hclosed : ClosedCover kernel goal cover)
    {continuation : Distribution S → Except PyError (List (ParetoPoint S A))}
    (hcont : ∀ d points, (d.map Prod.fst).Nodup → (∀ e ∈ d, 0 < e.2) → (∀ e ∈ d, cover n e.1) →
      continuation d = .ok points → Solves kernel goal weights requirements cover n d points)
    {choices : List ((S × ℚ) × List A)} {points : List (ParetoPoint S A)}
    (hchoices : ∀ c ∈ choices, ChoiceFor kernel goal requirements (n + 1) c)
    (hpos : ∀ e ∈ choices.map Prod.fst, 0 < e.2)
    (hcover : ∀ e ∈ choices.map Prod.fst, cover (n + 1) e.1)
    (hnodup : ((choices.map Prod.fst).map Prod.fst).Nodup)
    (h : jointStage (m := Except PyError) (pure ()) kernel goal weights (n + 1) continuation
      choices = .ok points) :
    Solves kernel goal weights requirements cover (n + 1) (choices.map Prod.fst) points := by
  obtain ⟨candidates, hcandidates, h⟩ := bind_eq_ok.mp h
  obtain rfl := pure_eq_ok.mp h
  have hforall : ∀ actions, actions ∈ cartesian (choices.map Prod.snd) ↔
      List.Forall₂ (fun a (c : (S × ℚ) × List A) => a ∈ c.2) actions choices := fun actions => by
    rw [mem_cartesian, List.forall₂_map_right_iff]
  refine solves_paretoPrune (fun select hd hr => ?_) fun q hq => ?_
  · obtain ⟨actions, hactions⟩ : ∃ actions, List.Forall₂ (fun a (c : (S × ℚ) × List A) =>
        a ∈ c.2 ∧ select (n + 1) c.1.1 = some a) actions choices := by
      refine exists_forall₂ fun c hc => ?_
      obtain ⟨a, ha, hsel⟩ := (hchoices c hc).pick hd hr (hcover c.1 (List.mem_map_of_mem hc))
      exact ⟨a, ha, hsel⟩
    have hopen := hactions.imp fun _ _ h => h.1
    obtain ⟨row, hrow, hcand⟩ := exists_of_mapM hcandidates ((hforall actions).mpr hopen)
    have hsel : ∀ c ∈ (choices.map Prod.fst).zip actions, select (n + 1) c.1.1 = some c.2 := by
      intro c hc
      rw [List.zip_map_left, List.mem_map] at hc
      obtain ⟨⟨d, a⟩, hda, rfl⟩ := hc
      exact ((List.forall₂_iff_zip.mp hactions.flip).2 hda).2
    obtain ⟨hf, q, hq, hle⟩ := ((jointChoice_zip hchoices hopen).candidates hclosed hcont hpos
      hcover hnodup hcand).2 select hd hr hsel
    exact ⟨hf, q, List.mem_flatten.mpr ⟨row, hrow, hq⟩, hle⟩
  · obtain ⟨row, hrow, hqrow⟩ := List.mem_flatten.mp hq
    obtain ⟨actions, hactions, hcand⟩ := mem_of_mapM hcandidates hrow
    exact ((jointChoice_zip hchoices ((hforall actions).mp hactions)).candidates hclosed hcont hpos
      hcover hnodup hcand).1 q hqrow

/-- The recursion solves every covered distribution on which it returns. -/
theorem solves_occupancyDirect (hclosed : ClosedCover kernel goal cover)
    (hreq : ValidRequirements kernel requirements) (n : ℕ) (distribution : Distribution S)
    (points : List (ParetoPoint S A)) (hnodup : (distribution.map Prod.fst).Nodup)
    (hpos : ∀ e ∈ distribution, 0 < e.2) (hcover : ∀ e ∈ distribution, cover n e.1)
    (h : occupancyDirect kernel goal weights requirements n distribution = .ok points) :
    Solves kernel goal weights requirements cover n distribution points := by
  induction n generalizing distribution points with
  | zero =>
    cases h
    exact solves_zeroPoint fun select e _ => ⟨trivial, fun _ => rfl⟩
  | succ n ih =>
    rw [occupancyDirect, occupancyStage] at h
    split at h
    · rename_i hnil
      cases h
      exact solves_zeroPoint fun select e he => by simp [hnil] at he
    · obtain ⟨choices, hchoices, hrest⟩ := bind_eq_ok.mp h
      clear h
      obtain ⟨hsub, hfor, hidle⟩ := decisionChoices_spec hreq hchoices
      have hsubPos := fun e he => hpos e (hsub.subset he)
      have hsubCover := fun e he => hcover e (hsub.subset he)
      have hsubNodup := hnodup.sublist (hsub.map Prod.fst)
      have hall : Solves kernel goal weights requirements cover (n + 1) (choices.map Prod.fst)
          points := by
        split at hrest
        · rename_i hnil
          cases hrest
          exact solves_zeroPoint fun select e he => by simp [hnil] at he
        · split at hrest
          · rename_i hn
            obtain rfl : n = 0 := by omega
            exact solves_finalStage hfor (fun c hc => hsubCover c.1 (List.mem_map_of_mem hc))
              hsubNodup hrest
          · exact solves_jointStage hclosed ih hfor hsubPos hsubCover hsubNodup hrest
      exact hall.of_sublist hsub (List.Nodup.of_map _ hnodup)
        fun e he hnot => hidle e he (hpos e he) hnot

end JointStage

end Acfqp.Planning
