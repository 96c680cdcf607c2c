import Acfqp.Library.Saturation
import Acfqp.Library.Grouping
import Acfqp.Core

/-!
# The transition closure behind a reusable build

A build covers the states that the positive initial support can reach through every legal
action and every outcome, whatever the horizon. The closure checks the state cap at every state
it adds, and only there.
-/

namespace Acfqp

open Library

variable {S A : Type}

/-- `t` is an outcome of a legal action at `s`. Terminal states have none. -/
def Kernel.LegalStep (kernel : Kernel S A) (s t : S) : Prop :=
  kernel.isTerminal s = false ∧ ∃ actions, kernel.actions s = .ok actions ∧ ∃ a ∈ actions,
    ∃ outcomes, kernel.step s a = .ok outcomes ∧ ∃ outcome ∈ outcomes, outcome.nextState = t

/-- Every legal action of a nonterminal state has a nonempty distribution of mass one. -/
def Kernel.StepsExactly (kernel : Kernel S A) (s : S) : Prop :=
  kernel.isTerminal s = false → ∃ actions, kernel.actions s = .ok actions ∧ ∀ a ∈ actions,
    ∃ outcomes, kernel.step s a = .ok outcomes ∧ outcomes ≠ [] ∧
      (outcomes.map Outcome.probability).sum = 1

namespace Coverage

/-! ## The code -/

def capExceeded : PyError :=
  .runtimeError "RAPM transition closure exceeded the exact state cap"

variable [DecidableEq S] [PyRepr S] [PyRepr A]

def positiveSupport (initial : List (ℚ × S)) : List S :=
  deterministicOrder (distinct ((initial.filter fun p => 0 < p.1).map Prod.snd))

def closeOutcome (stateCap : ℕ) (w : Worklist S) (outcome : Outcome S) :
    Except PyError (Worklist S) :=
  if outcome.probability ≤ 0 then .ok w else discover stateCap capExceeded w outcome.nextState

def closeAction (kernel : Kernel S A) (stateCap : ℕ) (state : S) (w : Worklist S) (action : A) :
    Except PyError (Worklist S) := do
  let outcomes ← kernel.step state action
  let mass := (outcomes.map Outcome.probability).sum
  require (outcomes.isEmpty = false ∧ mass = 1)
    (.valueError "coverage closure requires nonempty unit-mass transitions")
  outcomes.foldlM (closeOutcome stateCap) w

def closeState (kernel : Kernel S A) (stateCap : ℕ) (state : S) (w : Worklist S) :
    Except PyError (Worklist S) :=
  if kernel.isTerminal state then .ok w
  else do
    let actions ← kernel.actions state
    (deterministicOrder actions).foldlM (closeAction kernel stateCap state) w

/-- The complete closure of the positive support, not truncated at any horizon. Every pop takes
one of at most `seen.length + stateCap` states, so the loop ends within its fuel. -/
def transitionClosure (kernel : Kernel S A) (initial : List (ℚ × S)) (stateCap : ℕ) :
    Except PyError (Option (List S)) := do
  require (0 < stateCap) (.valueError "transition-closure state cap must be positive")
  let seen := positiveSupport initial
  require (seen.isEmpty = false)
    (.valueError "transition closure requires nonempty positive-probability support")
  let closed ← saturate (closeState kernel stateCap) (seen.length + stateCap + 1) ⟨seen, seen⟩
  .ok (closed.map deterministicOrder)

/-! ## One expansion names the legal successors -/

/-- The states that an expansion names, in the order in which it names them. -/
def successors (kernel : Kernel S A) (s : S) : List S :=
  if kernel.isTerminal s then []
  else
    match kernel.actions s with
    | .error _ => []
    | .ok actions => (deterministicOrder actions).flatMap fun a =>
      match kernel.step s a with
      | .error _ => []
      | .ok outcomes => outcomes.map Outcome.nextState

variable {kernel : Kernel S A} {stateCap : ℕ} {s t : S}

omit [DecidableEq S] [PyRepr S] in
theorem mem_successors : t ∈ successors kernel s ↔ kernel.LegalStep s t := by
  unfold successors Kernel.LegalStep
  by_cases hs : kernel.isTerminal s = true
  · simp [hs]
  · cases hactions : kernel.actions s with
    | error e => simp [hs]
    | ok actions =>
      simp only [hs, Bool.false_eq_true, if_false, List.mem_flatMap, deterministicOrder,
        mem_sortBy, true_and, Except.ok.injEq, exists_eq_left']
      refine exists_congr fun a => and_congr_right fun _ => ?_
      cases kernel.step s a <;> simp

omit [PyRepr S] in
theorem closeOutcome_eq (w : Worklist S) (outcome : Outcome S) :
    closeOutcome stateCap w outcome = discover stateCap capExceeded w outcome.nextState :=
  if_neg (not_le.mpr outcome.probability_pos)

omit [PyRepr S] in
theorem closeState_eq (hs : kernel.StepsExactly s) (w : Worklist S) :
    closeState kernel stateCap s w =
      (successors kernel s).foldlM (discover stateCap capExceeded) w := by
  unfold closeState successors
  by_cases hterminal : kernel.isTerminal s = true
  · simp [hterminal]
    rfl
  · obtain ⟨actions, hactions, hsteps⟩ := hs (by simpa using hterminal)
    rw [if_neg hterminal, if_neg hterminal, bind_of_ok hactions, hactions]
    simp only
    rw [← foldlM_flatMap]
    refine foldlM_congr_mem fun w a ha => ?_
    obtain ⟨outcomes, hstep, hne, hmass⟩ := hsteps a (by simpa [deterministicOrder] using ha)
    have hok : require (outcomes.isEmpty = false ∧ (outcomes.map Outcome.probability).sum = 1)
        (PyError.valueError "coverage closure requires nonempty unit-mass transitions") =
        .ok () := by
      simp [hne, hmass]
    unfold closeAction
    rw [bind_of_ok hstep, bind_of_ok hok, hstep, List.foldlM_map]
    exact foldlM_congr_mem fun w o _ => closeOutcome_eq w o

/-! ## What the closure returns -/

theorem nodup_positiveSupport (initial : List (ℚ × S)) : (positiveSupport initial).Nodup :=
  (perm_sortBy _ _).nodup_iff.mpr (nodup_distinct _)

theorem mem_positiveSupport {initial : List (ℚ × S)} :
    s ∈ positiveSupport initial ↔ ∃ p, 0 < p ∧ (p, s) ∈ initial := by
  simp [positiveSupport, deterministicOrder, and_comm]

def support (initial : List (ℚ × S)) : Set S := {s | ∃ p, 0 < p ∧ (p, s) ∈ initial}

theorem encard_support (initial : List (ℚ × S)) :
    (support initial).encard = (positiveSupport initial).length :=
  encard_eq_length (nodup_positiveSupport initial) fun _ => mem_positiveSupport

/-- The states that a build on `initial` has to cover. -/
def coverage (kernel : Kernel S A) (initial : List (ℚ × S)) : Set S :=
  reachable kernel.LegalStep (support initial)

variable {initial : List (ℚ × S)}

/-- The closure returns every state it has to cover, or refuses because they exceed the cap. -/
theorem transitionClosure_saturates (hcap : 0 < stateCap) (hsupport : (support initial).Nonempty)
    (hkernel : ∀ s ∈ coverage kernel initial, kernel.StepsExactly s) :
    (∃ states, transitionClosure kernel initial stateCap = .ok (some states) ∧ states.Nodup ∧
      states.Pairwise (fun s t => pyRepr s ≤ pyRepr t) ∧
      states.length ≤ max (positiveSupport initial).length stateCap ∧
      ∀ s, s ∈ states ↔ s ∈ coverage kernel initial) ∨
    transitionClosure kernel initial stateCap = .error capExceeded ∧
      (∃ t ∈ coverage kernel initial, t ∉ support initial) ∧
      (stateCap : ℕ∞) < (coverage kernel initial).encard := by
  have hset : {s | s ∈ positiveSupport initial} = support initial :=
    Set.ext fun s => mem_positiveSupport
  have hsteps : (fun s t => t ∈ successors kernel s) = kernel.LegalStep := by
    funext s t
    exact propext mem_successors
  have hne : (positiveSupport initial).isEmpty = false := by
    obtain ⟨s, hs⟩ := hsupport
    simpa using List.ne_nil_of_mem (mem_positiveSupport.mpr hs)
  have hunfold : transitionClosure kernel initial stateCap =
      (saturate (closeState kernel stateCap) ((positiveSupport initial).length + stateCap + 1)
        ⟨positiveSupport initial, positiveSupport initial⟩ >>=
        fun closed => .ok (closed.map deterministicOrder)) := by
    unfold transitionClosure
    rw [bind_of_ok (require_eq_ok (u := ()).mpr hcap),
      bind_of_ok (require_eq_ok (u := ()).mpr hne)]
  have hsat : Saturated (successors kernel) (positiveSupport initial) stateCap capExceeded
      (saturate (closeState kernel stateCap) ((positiveSupport initial).length + stateCap + 1)
        ⟨positiveSupport initial, positiveSupport initial⟩) := by
    refine saturate_of_sound (fun s hs w => closeState_eq (hkernel s ?_) w) _
      (Worklist.sound_initial (nodup_positiveSupport initial)) (Nat.le_max_left _ _) ?_
    · rwa [coverage, ← hset, ← hsteps]
    · simp only
      omega
  rw [hunfold]
  unfold coverage
  rw [← hset, ← hsteps]
  rcases hsat with ⟨states, hstates, hnodup, hlength, hmem⟩ | ⟨hfull, hnew, hcard⟩
  · refine .inl ⟨deterministicOrder states, by rw [hstates]; rfl, ?_, pairwise_sortBy _ _, ?_, ?_⟩
    · exact (perm_sortBy _ _).nodup_iff.mpr hnodup
    · simpa [deterministicOrder] using hlength
    · simpa [deterministicOrder] using hmem
  · exact .inr ⟨by rw [hfull]; rfl, hnew, hcard⟩

/-- `result` is the least set of states that holds `start` and is closed under all outcomes of all
legal actions, in canonical order, if that set has at most `stateCap` states, and the refusal
otherwise. -/
def ReturnsClosure (kernel : Kernel S A) (start : Set S) (stateCap : ℕ)
    (result : Except PyError (Option (List S))) : Prop :=
  ∀ C : Set S, IsLeast {C | ClosedFrom kernel.LegalStep start C} C →
    (C.encard ≤ stateCap → ∃ states, result = .ok (some states) ∧ states.Nodup ∧
      states.Pairwise (fun s t => pyRepr s ≤ pyRepr t) ∧ ∀ s, s ∈ states ↔ s ∈ C) ∧
    ((stateCap : ℕ∞) < C.encard → result = .error capExceeded)

theorem transitionClosure_returns (hcap : 0 < stateCap) (hsupport : (support initial).Nonempty)
    (hkernel : ∀ s ∈ coverage kernel initial, kernel.StepsExactly s)
    (hfits : (positiveSupport initial).length ≤ stateCap) :
    ReturnsClosure kernel (support initial) stateCap
      (transitionClosure kernel initial stateCap) := by
  intro C hC
  obtain rfl : C = coverage kernel initial := hC.unique (isLeast_reachable _ _)
  rcases transitionClosure_saturates hcap hsupport hkernel with
    ⟨states, hstates, hnodup, hsorted, hlength, hmem⟩ | ⟨hfull, -, hcard⟩
  · refine ⟨fun _ => ⟨states, hstates, hnodup, hsorted, hmem⟩, fun hcard => ?_⟩
    rw [encard_eq_length hnodup hmem] at hcard
    have : stateCap < states.length := by exact_mod_cast hcard
    omega
  · exact ⟨fun hle => absurd hle (not_le.mpr hcard), fun _ => hfull⟩

/-- The closure returns what it should unless a support that is already closed does not fit
under the cap: the cap is checked where a state is added, and such a support adds none. -/
theorem transitionClosure_returnsClosure_iff (hcap : 0 < stateCap)
    (hsupport : (support initial).Nonempty)
    (hkernel : ∀ s ∈ coverage kernel initial, kernel.StepsExactly s) :
    ReturnsClosure kernel (support initial) stateCap
        (transitionClosure kernel initial stateCap) ↔
      (support initial).encard ≤ stateCap ∨
        ∃ s ∈ support initial, ∃ t, kernel.LegalStep s t ∧ t ∉ support initial := by
  have hleast := isLeast_reachable kernel.LegalStep (support initial)
  have hsub : support initial ⊆ coverage kernel initial := subset_reachable _ _
  have hruns := transitionClosure_saturates hcap hsupport hkernel
  constructor
  · intro hexact
    by_contra hno
    obtain ⟨hbig, hclosed⟩ := not_or.mp hno
    -- The support is its own closure: no state is added, and the cap is not looked at.
    have hsame : coverage kernel initial ⊆ support initial :=
      hleast.2 ⟨subset_rfl, fun s hs t ht => by_contra fun hn => hclosed ⟨s, hs, t, ht, hn⟩⟩
    have hfull := (hexact _ hleast).2 (lt_of_lt_of_le (not_le.mp hbig) (Set.encard_le_encard hsub))
    rcases hruns with ⟨states, hstates, -⟩ | ⟨-, ⟨t, ht, hnew⟩, -⟩
    · rw [hstates] at hfull
      cases hfull
    · exact hnew (hsame ht)
  · rintro (hfits | ⟨s, hs, t, ht, hnew⟩)
    · rw [encard_support] at hfits
      exact transitionClosure_returns hcap hsupport hkernel (by exact_mod_cast hfits)
    · intro C hC
      obtain rfl : C = coverage kernel initial := hC.unique hleast
      rcases hruns with ⟨states, hstates, hnodup, hsorted, hlength, hmem⟩ | ⟨hfull, -, hcard⟩
      · refine ⟨fun _ => ⟨states, hstates, hnodup, hsorted, hmem⟩, fun hcard => ?_⟩
        -- A state past the support makes the closure larger than the support.
        have htmem : t ∈ states := (hmem t).mpr (hleast.1.2 s (hsub hs) t ht)
        have hmore : (t :: positiveSupport initial).length ≤ states.length := by
          refine (List.Nodup.subperm ?_ fun r hr => ?_).length_le
          · exact List.nodup_cons.mpr
              ⟨fun h => hnew (mem_positiveSupport.mp h), nodup_positiveSupport initial⟩
          · rcases List.mem_cons.mp hr with rfl | hr
            · exact htmem
            · exact (hmem r).mpr (hsub (mem_positiveSupport.mp hr))
        rw [encard_eq_length hnodup hmem] at hcard
        have hover : stateCap < states.length := by exact_mod_cast hcard
        simp only [List.length_cons] at hmore
        omega
      · exact ⟨fun hle => absurd hle (not_le.mpr hcard), fun _ => hfull⟩

/-- Two terminal states: each is its own closure. -/
def restingKernel : Kernel Bool ℕ where
  horizon := 0
  initialDistribution := [(1 / 2, false), (1 / 2, true)]
  actions _ := .ok []
  step _ _ := .ok []
  isTerminal _ := true
  registeredRewardFeatures := none
  registeredGoals := none
  rewardUpperBound := none
  isGoal := none
  goalReached _ _ := false

/-- Both terminal states are returned although only one fits under the cap. -/
theorem transitionClosure_overfull :
    ¬ ReturnsClosure restingKernel (support restingKernel.initialDistribution) 1
      (transitionClosure restingKernel restingKernel.initialDistribution 1) := by
  intro h
  have hcard : ([false, true].length : ℕ∞) ≤
      (coverage restingKernel restingKernel.initialDistribution).encard := by
    refine length_le_encard (by decide) fun s _ => subset_reachable _ _ ?_
    cases s
    · exact ⟨1 / 2, by norm_num, by simp [restingKernel]⟩
    · exact ⟨1 / 2, by norm_num, by simp [restingKernel]⟩
  have hfull := (h _ (isLeast_reachable _ _)).2 (lt_of_lt_of_le (by norm_num) hcard)
  have hruns : (transitionClosure restingKernel restingKernel.initialDistribution 1).isOk := by
    decide +kernel
  rw [hfull] at hruns
  cases hruns

theorem certain_pos : (0 : ℚ) < 1 := one_pos

theorem certain_le : (1 : ℚ) ≤ 1 := le_rfl

def steppingKernel : Kernel Bool ℕ where
  horizon := 1
  initialDistribution := [(1, false)]
  actions _ := .ok [0]
  step _ _ := .ok [⟨1, true, [], false, true, certain_pos, certain_le, ⟨by simp, by simp⟩⟩]
  isTerminal s := s
  registeredRewardFeatures := none
  registeredGoals := none
  rewardUpperBound := none
  isGoal := none
  goalReached _ _ := false

theorem steppingKernel_stepsExactly (s : Bool) : steppingKernel.StepsExactly s := by
  refine fun _ => ⟨[0], rfl, fun a _ => ⟨_, rfl, ?_⟩⟩
  simp

theorem transitionClosure_steppingKernel :
    ReturnsClosure steppingKernel (support steppingKernel.initialDistribution) 1
      (transitionClosure steppingKernel steppingKernel.initialDistribution 1) := by
  have hmem : false ∈ support steppingKernel.initialDistribution :=
    ⟨1, by norm_num, by simp [steppingKernel]⟩
  refine (transitionClosure_returnsClosure_iff (by norm_num) ⟨false, hmem⟩
    fun s _ => steppingKernel_stepsExactly s).mpr ?_
  refine .inr ⟨false, hmem, true, ⟨rfl, [0], rfl, 0, by simp, _, rfl, _, List.mem_cons_self, rfl⟩,
    ?_⟩
  rintro ⟨p, -, hp⟩
  simp [steppingKernel] at hp

end Coverage

end Acfqp
