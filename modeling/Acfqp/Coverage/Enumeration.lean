import Acfqp.Coverage.Closure

/-!
# Exact enumeration of the reachable states

The states that a finite horizon can reach are enumerated layer by layer. Layers overlap, so a
state is stored where it is first met and appears in every layer that it belongs to. The first
state that would not fit under the cap ends the enumeration with an incomplete result.
-/

namespace Acfqp.Coverage

open Library

variable {S A : Type}

/-! ## The code -/

inductive EnumerationStatus where
  | exact
  | stateCapExceeded
  deriving DecidableEq, Repr

inductive EvaluationTier where
  | exactSound
  | stressOnly
  deriving DecidableEq, Repr

/-- One expanded action of a layer. -/
structure TransitionRecord (S A : Type) where
  depth : ℕ
  state : S
  action : A
  outcomes : List (Outcome S)

structure EnumerationResult (S A : Type) where
  status : EnumerationStatus
  evaluationTier : EvaluationTier
  complete : Bool
  horizon : ℕ
  states : List S
  layers : List (List S)
  transitions : List (TransitionRecord S A)
  stateCountLowerBound : ℕ

/-- The variables of the enumeration: the states in order of discovery, the finished layers, the
recorded transitions and the layer that is being filled. -/
structure Enumeration (S A : Type) where
  seen : List S
  layers : List (List S)
  transitions : List (TransitionRecord S A)
  nextLayer : List S

/-- What ends the enumeration early: an exception, or a state past the cap. -/
inductive Halt (S A : Type) where
  | raised (error : PyError)
  | capped (enumeration : Enumeration S A)

section Code

variable [DecidableEq S] [PyRepr S] [PyRepr A]

/-- The checks of `_validate_distribution`. -/
def validateDistribution (name : String) (distribution : List (ℚ × S)) :
    Except PyError Unit := do
  require (distribution.isEmpty = false) (.valueError s!"{name} distribution must not be empty")
  let _ ← distribution.foldlM (fun seen p => do
    require (0 < p.1) (.valueError s!"{name} probabilities must be positive")
    require (p.2 ∉ seen) (.valueError s!"{name} distribution contains a duplicate state")
    pure (p.2 :: seen)) []
  let total := (distribution.map Prod.fst).sum
  require (total = 1) (.valueError s!"{name} distribution mass must be one, got {total}")

def meetOutcome (stateCap : ℕ) (e : Enumeration S A) (outcome : Outcome S) :
    Except (Halt S A) (Enumeration S A) :=
  let nextState := outcome.nextState
  let nextLayer := if nextState ∈ e.nextLayer then e.nextLayer else e.nextLayer ++ [nextState]
  if nextState ∈ e.seen then .ok { e with nextLayer }
  else if e.seen.length = stateCap then .error (.capped { e with nextLayer })
  else .ok { e with nextLayer, seen := e.seen ++ [nextState] }

def expandAction (kernel : Kernel S A) (stateCap depth : ℕ) (state : S) (e : Enumeration S A)
    (action : A) : Except (Halt S A) (Enumeration S A) := do
  let outcomes ← (kernel.step state action).mapError Halt.raised
  require (outcomes.isEmpty = false)
    (.raised (.valueError "a valid action must have at least one outcome"))
  let mass := (outcomes.map Outcome.probability).sum
  require (mass = 1) (.raised (.valueError
    s!"transition mass at depth {depth} for {pyRepr action} is {mass}, not one"))
  outcomes.foldlM (meetOutcome stateCap)
    { e with transitions := e.transitions ++ [⟨depth, state, action, outcomes⟩] }

def expandState (kernel : Kernel S A) (stateCap depth : ℕ) (e : Enumeration S A) (state : S) :
    Except (Halt S A) (Enumeration S A) :=
  if kernel.isTerminal state then .ok e
  else do
    let actions ← (kernel.actions state).mapError Halt.raised
    (deterministicOrder actions).foldlM (expandAction kernel stateCap depth state) e

def expandLayer (kernel : Kernel S A) (stateCap : ℕ) (e : Enumeration S A) (depth : ℕ) :
    Except (Halt S A) (Enumeration S A) := do
  let e ← (e.layers.getLast?.getD []).foldlM (expandState kernel stateCap depth)
    { e with nextLayer := [] }
  .ok { e with layers := e.layers ++ [deterministicOrder e.nextLayer] }

def enumerationResult (horizon stateCap : ℕ) :
    Except (Halt S A) (Enumeration S A) → Except PyError (EnumerationResult S A)
  | .ok e => .ok ⟨.exact, .exactSound, true, horizon, e.seen, e.layers, e.transitions,
      e.seen.length⟩
  | .error (.capped e) => .ok ⟨.stateCapExceeded, .stressOnly, false, horizon, e.seen, e.layers,
      e.transitions, stateCap + 1⟩
  | .error (.raised error) => .error error

/-- Every state of positive probability that is reachable through `horizon`. -/
def enumerateReachable (kernel : Kernel S A) (initialDistribution : Option (List (ℚ × S)))
    (horizon : Option ℕ) (stateCap : ℕ) : Except PyError (EnumerationResult S A) := do
  require (0 < stateCap) (.valueError "state_cap must be positive")
  let selectedHorizon := horizon.getD kernel.horizon
  require (selectedHorizon ≤ kernel.horizon)
    (.valueError "enumeration horizon must lie in [0, kernel.horizon]")
  let initial := initialDistribution.getD kernel.initialDistribution
  validateDistribution "initial" initial
  let initialStates := positiveSupport initial
  if stateCap < initialStates.length then
    .ok ⟨.stateCapExceeded, .stressOnly, false, selectedHorizon, initialStates.take stateCap,
      [initialStates.take stateCap], [], stateCap + 1⟩
  else
    enumerationResult selectedHorizon stateCap ((List.range selectedHorizon).foldlM
      (expandLayer kernel stateCap) ⟨initialStates, [initialStates], [], []⟩)

/-! ## What one expansion does -/

def legalRecords (kernel : Kernel S A) (depth : ℕ) (s : S) : List (TransitionRecord S A) :=
  if kernel.isTerminal s then []
  else
    match kernel.actions s with
    | .error _ => []
    | .ok actions => (deterministicOrder actions).flatMap fun a =>
      match kernel.step s a with
      | .error _ => []
      | .ok outcomes => [⟨depth, s, a, outcomes⟩]

end Code

/-- What expanding some states makes of an enumeration: the named states are met, the records
are appended. -/
structure Enumeration.Grown (stateCap : ℕ) (named : List S) (records : List (TransitionRecord S A))
    (before after : Enumeration S A) : Prop where
  seen : ∀ s, s ∈ after.seen ↔ s ∈ before.seen ∨ s ∈ named
  nodup : after.seen.Nodup
  bounded : after.seen.length ≤ stateCap
  nextLayer : ∀ s, s ∈ after.nextLayer ↔ s ∈ before.nextLayer ∨ s ∈ named
  nextLayer_nodup : before.nextLayer.Nodup → after.nextLayer.Nodup
  layers : after.layers = before.layers
  transitions : after.transitions = before.transitions ++ records

/-- A run stopped at the cap, with more states named than fit under it. -/
def Enumeration.Overfull (stateCap : ℕ) (named : List S) (before : Enumeration S A)
    (halt : Halt S A) : Prop :=
  ∃ (e : Enumeration S A) (l : List S), halt = .capped e ∧ l.Nodup ∧ stateCap < l.length ∧
    ∀ s ∈ l, s ∈ before.seen ∨ s ∈ named

/-- From every enumeration within the cap, `f` meets the named states and appends the records,
or stops because the named states do not fit. -/
def Visits (stateCap : ℕ) (named : List S) (records : List (TransitionRecord S A))
    (f : Enumeration S A → Except (Halt S A) (Enumeration S A)) : Prop :=
  ∀ e, e.seen.Nodup → e.seen.length ≤ stateCap →
    (∃ e', f e = .ok e' ∧ Enumeration.Grown stateCap named records e e') ∨
    ∃ halt, f e = .error halt ∧ Enumeration.Overfull stateCap named e halt

namespace Visits

variable {stateCap : ℕ} {named named' : List S} {records records' : List (TransitionRecord S A)}
  {f g : Enumeration S A → Except (Halt S A) (Enumeration S A)}

theorem pure : Visits (A := A) stateCap ([] : List S) [] .ok := by
  intro e hnodup hbounded
  exact .inl ⟨e, rfl, by simp, hnodup, hbounded, by simp, id, rfl, by simp⟩

theorem bind (hf : Visits stateCap named records f) (hg : Visits stateCap named' records' g) :
    Visits stateCap (named ++ named') (records ++ records') fun e => f e >>= g := by
  intro e hnodup hbounded
  rcases hf e hnodup hbounded with ⟨e', he', h⟩ | ⟨halt, hhalt, e', l, he', hl, hlen, hmem⟩
  · simp only [he']
    rcases hg e' h.nodup h.bounded with ⟨e'', he'', h'⟩ | ⟨halt, hhalt, e'', l, he'',
      hl, hlen, hmem⟩
    · refine .inl ⟨e'', he'', fun s => ?_, h'.nodup, h'.bounded, fun s => ?_,
        fun hn => h'.nextLayer_nodup (h.nextLayer_nodup hn), h'.layers.trans h.layers, ?_⟩
      · rw [h'.seen, h.seen, List.mem_append, or_assoc]
      · rw [h'.nextLayer, h.nextLayer, List.mem_append, or_assoc]
      · rw [h'.transitions, h.transitions, List.append_assoc]
    · refine .inr ⟨halt, hhalt, e'', l, he'', hl, hlen, fun s hs => ?_⟩
      rw [List.mem_append, ← or_assoc, ← h.seen]
      exact hmem s hs
  · simp only [hhalt]
    refine .inr ⟨halt, rfl, e', l, he', hl, hlen, fun s hs => ?_⟩
    rw [List.mem_append, ← or_assoc]
    exact .inl (hmem s hs)

theorem foldlM {α : Type} {l : List α} {f : Enumeration S A → α →
      Except (Halt S A) (Enumeration S A)} {named : α → List S}
    {records : α → List (TransitionRecord S A)}
    (h : ∀ a ∈ l, Visits stateCap (named a) (records a) fun e => f e a) :
    Visits stateCap (l.flatMap named) (l.flatMap records) fun e => l.foldlM f e := by
  induction l with
  | nil => exact pure
  | cons a l ih =>
    simp only [List.flatMap_cons, List.foldlM_cons]
    exact (h a (by simp)).bind (ih fun x hx => h x (by simp [hx]))

/-- Recording a transition before meeting its outcomes. -/
theorem record (hf : Visits stateCap named records f) (r : TransitionRecord S A) :
    Visits stateCap named (r :: records)
      fun e => f { e with transitions := e.transitions ++ [r] } := by
  intro e hnodup hbounded
  rcases hf { e with transitions := e.transitions ++ [r] } hnodup hbounded with
    ⟨e', he', h⟩ | hover
  · refine .inl ⟨e', he', h.seen, h.nodup, h.bounded, h.nextLayer, h.nextLayer_nodup, h.layers, ?_⟩
    simpa using h.transitions
  · exact .inr hover

end Visits

section Rules

variable [DecidableEq S] [PyRepr S] [PyRepr A] {kernel : Kernel S A} {stateCap depth : ℕ} {s : S}

omit [PyRepr S] [PyRepr A] in
theorem visits_meetOutcome (outcome : Outcome S) :
    Visits (A := A) stateCap [outcome.nextState] []
      fun e => meetOutcome stateCap e outcome := by
  intro e hnodup hbounded
  have hnext : ∀ s, (s ∈ if outcome.nextState ∈ e.nextLayer then e.nextLayer
      else e.nextLayer ++ [outcome.nextState]) ↔
        s ∈ e.nextLayer ∨ s ∈ [outcome.nextState] := by
    intro s
    grind
  have hnextNodup : e.nextLayer.Nodup → (if outcome.nextState ∈ e.nextLayer then e.nextLayer
      else e.nextLayer ++ [outcome.nextState]).Nodup := by
    intro hn
    split
    · exact hn
    · exact hn.append (List.nodup_singleton _) (List.disjoint_singleton.mpr ‹_›)
  unfold meetOutcome
  by_cases hseen : outcome.nextState ∈ e.seen
  · simp only [hseen, if_true]
    refine .inl ⟨_, rfl, fun s => ?_, hnodup, hbounded, hnext, hnextNodup, rfl, by simp⟩
    grind
  · by_cases hfull : e.seen.length = stateCap
    · simp only [hseen, hfull, if_false, if_true]
      refine .inr ⟨_, rfl, _, outcome.nextState :: e.seen, rfl,
        List.nodup_cons.mpr ⟨hseen, hnodup⟩, by simp; omega, fun s hs => ?_⟩
      grind
    · simp only [hseen, hfull, if_false]
      refine .inl ⟨_, rfl, fun s => by simp, ?_, ?_, hnext, hnextNodup, rfl, by simp⟩
      · exact hnodup.append (List.nodup_singleton _) (List.disjoint_singleton.mpr hseen)
      · simp only [List.length_append, List.length_singleton]
        omega

omit [PyRepr S] in
theorem visits_expandState (hs : kernel.StepsExactly s) :
    Visits stateCap (successors kernel s) (legalRecords kernel depth s)
      fun e => expandState kernel stateCap depth e s := by
  unfold expandState successors legalRecords
  by_cases hterminal : kernel.isTerminal s = true
  · simp only [hterminal, if_true]
    exact .pure
  · obtain ⟨actions, hactions, hsteps⟩ := hs (by simpa using hterminal)
    simp only [hterminal, hactions, Except.mapError]
    refine .foldlM fun a ha => ?_
    obtain ⟨outcomes, hstep, hne, hmass⟩ := hsteps a (by simpa [deterministicOrder] using ha)
    have hrun : ∀ e : Enumeration S A, expandAction kernel stateCap depth s e a =
        outcomes.foldlM (meetOutcome stateCap)
          { e with transitions := e.transitions ++ [⟨depth, s, a, outcomes⟩] } := by
      intro e
      have hfirst : outcomes.isEmpty = false := by simpa using hne
      unfold expandAction
      simp only [hstep, Except.mapError]
      rw [bind_of_ok rfl, bind_of_ok (require_eq_ok (u := ()).mpr hfirst),
        bind_of_ok (require_eq_ok (u := ()).mpr hmass)]
    simp only [hrun, hstep]
    have hmeet : Visits stateCap (outcomes.flatMap fun o => [o.nextState])
        (outcomes.flatMap fun _ => []) fun e => outcomes.foldlM (meetOutcome stateCap) e :=
      .foldlM fun o _ => visits_meetOutcome (A := A) o
    rw [← List.map_eq_flatMap, List.flatMap_eq_nil_iff.mpr fun _ _ => rfl] at hmeet
    exact hmeet.record ⟨depth, s, a, outcomes⟩

/-! ## Layers -/

/-- What exactly `d` legal steps from the start can reach. -/
def reachedIn (kernel : Kernel S A) (start : Set S) : ℕ → Set S
  | 0 => start
  | d + 1 => {t | ∃ s ∈ reachedIn kernel start d, kernel.LegalStep s t}

/-- What at most `d` legal steps from the start can reach. -/
def reachedBy (kernel : Kernel S A) (start : Set S) (d : ℕ) : Set S :=
  {s | ∃ i ≤ d, s ∈ reachedIn kernel start i}

omit [DecidableEq S] [PyRepr S] [PyRepr A] in
theorem reachedBy_mono {start : Set S} {c d : ℕ} (h : c ≤ d) :
    reachedBy kernel start c ⊆ reachedBy kernel start d := by
  rintro s ⟨i, hi, hs⟩
  exact ⟨i, hi.trans h, hs⟩

/-- The record is what the kernel says about a legal action of a nonterminal state. -/
def TransitionRecord.Legal (kernel : Kernel S A) (r : TransitionRecord S A) : Prop :=
  kernel.isTerminal r.state = false ∧ ∃ actions, kernel.actions r.state = .ok actions ∧
    r.action ∈ actions ∧ kernel.step r.state r.action = .ok r.outcomes

omit [DecidableEq S] [PyRepr S] in
theorem mem_legalRecords {r : TransitionRecord S A} :
    r ∈ legalRecords kernel depth s ↔ r.depth = depth ∧ r.state = s ∧ r.Legal kernel := by
  obtain ⟨d, t, a, outcomes⟩ := r
  unfold legalRecords TransitionRecord.Legal
  by_cases hs : kernel.isTerminal s = true
  · simp only [hs, if_true, List.not_mem_nil, false_iff]
    rintro ⟨-, rfl, h, -⟩
    simp [hs] at h
  · cases hactions : kernel.actions s with
    | error e =>
      simp only [hs, Bool.false_eq_true, if_false, List.not_mem_nil, false_iff]
      rintro ⟨-, rfl, -, actions, h, -⟩
      simp [hactions] at h
    | ok actions =>
      simp only [hs, Bool.false_eq_true, if_false, List.mem_flatMap, deterministicOrder, mem_sortBy]
      constructor
      · rintro ⟨b, hb, hr⟩
        cases hstep : kernel.step s b with
        | error e => simp [hstep] at hr
        | ok outs =>
          simp only [hstep, List.mem_singleton, TransitionRecord.mk.injEq] at hr
          obtain ⟨rfl, rfl, rfl, rfl⟩ := hr
          exact ⟨rfl, rfl, by simpa using hs, actions, hactions, hb, hstep⟩
      · rintro ⟨rfl, rfl, -, actions', hactions', ha, hstep⟩
        obtain rfl : actions = actions' := by simpa [hactions] using hactions'
        exact ⟨a, ha, by simp [hstep]⟩

/-- What holds once `d` layers past the first are finished. -/
structure Enumeration.Layered (kernel : Kernel S A) (start : Set S) (stateCap d : ℕ)
    (e : Enumeration S A) : Prop where
  nodup : e.seen.Nodup
  bounded : e.seen.length ≤ stateCap
  seen : ∀ s, s ∈ e.seen ↔ s ∈ reachedBy kernel start d
  layers_length : e.layers.length = d + 1
  layers : ∀ i (h : i < e.layers.length), e.layers[i].Nodup ∧
    ∀ s, s ∈ e.layers[i] ↔ s ∈ reachedIn kernel start i
  transitions : ∀ r, r ∈ e.transitions ↔
    r.depth < d ∧ r.state ∈ reachedIn kernel start r.depth ∧ r.Legal kernel

variable {start : Set S} {d : ℕ} {e : Enumeration S A}

/-- One more layer is finished, or the states of the layers exceed the cap. -/
theorem Enumeration.Layered.expandLayer (h : Enumeration.Layered kernel start stateCap d e)
    (hkernel : ∀ s ∈ reachedIn kernel start d, kernel.StepsExactly s) :
    (∃ e', expandLayer kernel stateCap e d = .ok e' ∧
      Enumeration.Layered kernel start stateCap (d + 1) e') ∨
    ∃ e', expandLayer kernel stateCap e d = .error (.capped e') ∧
      (stateCap : ℕ∞) < (reachedBy kernel start (d + 1)).encard := by
  obtain ⟨last, hlast⟩ : ∃ last, e.layers[d]? = some last :=
    ⟨_, List.getElem?_eq_getElem (by rw [h.layers_length]; omega)⟩
  have hgetLast : e.layers.getLast?.getD [] = last := by
    rw [List.getLast?_eq_getElem?, h.layers_length, Nat.add_sub_cancel, hlast]
    rfl
  have hmem : ∀ s, s ∈ last ↔ s ∈ reachedIn kernel start d := by
    obtain ⟨hd, rfl⟩ := List.getElem?_eq_some_iff.mp hlast
    exact (h.layers d hd).2
  have hnamed : ∀ t, t ∈ last.flatMap (successors kernel) ↔ t ∈ reachedIn kernel start (d + 1) := by
    intro t
    simp only [List.mem_flatMap, mem_successors, hmem]
    rfl
  have hrecords : ∀ r, r ∈ last.flatMap (legalRecords kernel d) ↔
      r.depth = d ∧ r.state ∈ reachedIn kernel start d ∧ r.Legal kernel := by
    intro r
    simp only [List.mem_flatMap, mem_legalRecords, hmem]
    grind
  have hwithin : ∀ s, s ∈ reachedBy kernel start (d + 1) ↔
      s ∈ reachedBy kernel start d ∨ s ∈ reachedIn kernel start (d + 1) := by
    intro s
    simp only [reachedBy, Set.mem_ofPred_eq]
    constructor
    · rintro ⟨i, hi, hs⟩
      rcases Nat.lt_or_eq_of_le hi with hi | rfl
      · exact .inl ⟨i, by omega, hs⟩
      · exact .inr hs
    · rintro (⟨i, hi, hs⟩ | hs)
      · exact ⟨i, by omega, hs⟩
      · exact ⟨d + 1, le_rfl, hs⟩
  have hvisits : Visits stateCap (last.flatMap (successors kernel))
      (last.flatMap (legalRecords kernel d))
      fun e => last.foldlM (expandState kernel stateCap d) e :=
    .foldlM fun s hs => visits_expandState (hkernel s ((hmem s).mp hs))
  unfold Coverage.expandLayer
  rw [hgetLast]
  rcases hvisits { e with nextLayer := [] } h.nodup h.bounded with
    ⟨e', he', hgrown⟩ | ⟨halt, hhalt, e', l, rfl, hl, hlen, hlmem⟩
  · refine .inl ⟨{ e' with layers := e'.layers ++ [deterministicOrder e'.nextLayer] },
      by simp only [he']; rfl, hgrown.nodup, hgrown.bounded, fun s => ?_, ?_, fun i hi => ?_,
      fun r => ?_⟩
    · rw [hgrown.seen, hwithin, ← h.seen, ← hnamed]
    · simp [hgrown.layers, h.layers_length]
    · simp only [hgrown.layers] at hi ⊢
      by_cases hid : i < e.layers.length
      · simpa [List.getElem_append_left hid] using h.layers i hid
      · obtain rfl : i = d + 1 := by
          simp only [List.length_append, List.length_singleton, h.layers_length] at hi hid
          omega
        have hnew : (e.layers ++ [deterministicOrder e'.nextLayer])[d + 1] =
            deterministicOrder e'.nextLayer := by
          rw [List.getElem_append_right (by rw [h.layers_length])]
          simp [h.layers_length]
        rw [hnew]
        refine ⟨(perm_sortBy _ _).nodup_iff.mpr (hgrown.nextLayer_nodup List.nodup_nil), ?_⟩
        intro s
        rw [deterministicOrder, mem_sortBy, hgrown.nextLayer, ← hnamed]
        simp
    · simp only [hgrown.transitions, List.mem_append, h.transitions, hrecords]
      grind
  · refine .inr ⟨e', by simp only [hhalt]; rfl, ?_⟩
    refine lt_of_lt_of_le (Nat.cast_lt.mpr hlen) (length_le_encard hl fun s hs => ?_)
    rw [hwithin, ← h.seen, ← hnamed]
    exact hlmem s hs

/-- The layers up to `d` are finished, or the states of the layers exceed the cap. -/
theorem layered_of_foldlM (h : Enumeration.Layered kernel start stateCap 0 e) (d : ℕ)
    (hkernel : ∀ i < d, ∀ s ∈ reachedIn kernel start i, kernel.StepsExactly s) :
    (∃ e', (List.range d).foldlM (expandLayer kernel stateCap) e = .ok e' ∧
      Enumeration.Layered kernel start stateCap d e') ∨
    ∃ e', (List.range d).foldlM (expandLayer kernel stateCap) e = .error (.capped e') ∧
      (stateCap : ℕ∞) < (reachedBy kernel start d).encard := by
  induction d with
  | zero => exact .inl ⟨e, rfl, h⟩
  | succ d ih =>
    rw [List.range_succ, List.foldlM_append]
    rcases ih fun i hi => hkernel i (by omega) with ⟨e', he', hlayered⟩ | ⟨e', he', hover⟩
    · rw [bind_of_ok he', List.foldlM_cons]
      rcases hlayered.expandLayer (hkernel d (by omega)) with ⟨e'', he'', h'⟩ | ⟨e'', he'', h'⟩
      · exact .inl ⟨e'', by rw [bind_of_ok he'']; rfl, h'⟩
      · exact .inr ⟨e'', by rw [he'']; rfl, h'⟩
    · refine .inr ⟨e', by rw [he']; rfl, ?_⟩
      exact lt_of_lt_of_le hover (Set.encard_le_encard (reachedBy_mono (Nat.le_succ d)))

/-! ## What the enumeration reports -/

/-- The result lists the states within `horizon` steps, each layer and every legal transition of
the layers that were expanded. -/
structure EnumerationResult.Describes (kernel : Kernel S A) (start : Set S) (horizon : ℕ)
    (result : EnumerationResult S A) : Prop where
  states_nodup : result.states.Nodup
  states : ∀ s, s ∈ result.states ↔ s ∈ reachedBy kernel start horizon
  layers_length : result.layers.length = horizon + 1
  layers : ∀ d (h : d < result.layers.length), result.layers[d].Nodup ∧
    ∀ s, s ∈ result.layers[d] ↔ s ∈ reachedIn kernel start d
  transitions : ∀ r, r ∈ result.transitions ↔
    r.depth < horizon ∧ r.state ∈ reachedIn kernel start r.depth ∧ r.Legal kernel

omit [PyRepr A] in
theorem layered_initial {initial : List (ℚ × S)}
    (hfits : (positiveSupport initial).length ≤ stateCap) :
    Enumeration.Layered kernel (support initial) stateCap 0
      ⟨positiveSupport initial, [positiveSupport initial], [], []⟩ where
  nodup := nodup_positiveSupport initial
  bounded := hfits
  seen s := by
    simp only [reachedBy, Nat.le_zero, exists_eq_left, Set.mem_ofPred_eq]
    exact mem_positiveSupport
  layers_length := rfl
  layers i hi := by
    obtain rfl : i = 0 := by simpa using hi
    exact ⟨nodup_positiveSupport initial, fun s => mem_positiveSupport⟩
  transitions r := by simp

/-- The enumeration is exact precisely when the states within the horizon fit under the cap, and
an exact result lists those states, each layer and every legal transition. -/
theorem enumerateReachable_exact {initialDistribution : Option (List (ℚ × S))}
    {horizon : Option ℕ} (hcap : 0 < stateCap)
    (hhorizon : horizon.getD kernel.horizon ≤ kernel.horizon)
    (hvalid : validateDistribution "initial"
      (initialDistribution.getD kernel.initialDistribution) = .ok ())
    (hkernel : ∀ d < horizon.getD kernel.horizon, ∀ s ∈ reachedIn kernel
      (support (initialDistribution.getD kernel.initialDistribution)) d, kernel.StepsExactly s) :
    ∃ result, enumerateReachable kernel initialDistribution horizon stateCap = .ok result ∧
      (result.status = .exact ↔ (reachedBy kernel
        (support (initialDistribution.getD kernel.initialDistribution))
        (horizon.getD kernel.horizon)).encard ≤ stateCap) ∧
      (result.status = .exact → result.Describes kernel
        (support (initialDistribution.getD kernel.initialDistribution))
        (horizon.getD kernel.horizon)) := by
  set h := horizon.getD kernel.horizon
  set initial := initialDistribution.getD kernel.initialDistribution
  have hunfold : enumerateReachable kernel initialDistribution horizon stateCap =
      if stateCap < (positiveSupport initial).length then
        .ok ⟨.stateCapExceeded, .stressOnly, false, h, (positiveSupport initial).take stateCap,
          [(positiveSupport initial).take stateCap], [], stateCap + 1⟩
      else enumerationResult h stateCap ((List.range h).foldlM (expandLayer kernel stateCap)
        ⟨positiveSupport initial, [positiveSupport initial], [], []⟩) := by
    unfold enumerateReachable
    rw [bind_of_ok (require_eq_ok (u := ()).mpr hcap),
      bind_of_ok (require_eq_ok (u := ()).mpr hhorizon), bind_of_ok hvalid]
  rw [hunfold]
  by_cases hfits : stateCap < (positiveSupport initial).length
  · rw [if_pos hfits]
    refine ⟨_, rfl, ?_, fun hexact => by simp at hexact⟩
    have hstart : support initial ⊆ reachedBy kernel (support initial) h := fun s hs =>
      ⟨0, Nat.zero_le _, hs⟩
    have hover : (stateCap : ℕ∞) < (reachedBy kernel (support initial) h).encard := by
      refine lt_of_lt_of_le ?_ (Set.encard_le_encard hstart)
      rw [encard_support]
      exact_mod_cast hfits
    simpa using hover
  · rw [if_neg hfits]
    rcases layered_of_foldlM (layered_initial (not_lt.mp hfits)) h hkernel with
      ⟨e, he, hlayered⟩ | ⟨e, he, hover⟩
    · rw [he]
      refine ⟨_, rfl, ?_, fun _ => ⟨hlayered.nodup, hlayered.seen, hlayered.layers_length,
        hlayered.layers, hlayered.transitions⟩⟩
      rw [encard_eq_length hlayered.nodup hlayered.seen]
      simpa using hlayered.bounded
    · rw [he]
      exact ⟨_, rfl, by simpa using hover, fun hexact => by simp at hexact⟩

end Rules

theorem enumerateReachable_steppingKernel :
    ∃ result, enumerateReachable steppingKernel none none 2 = .ok result ∧
      (result.status = .exact ↔ (reachedBy steppingKernel
        (support steppingKernel.initialDistribution) 1).encard ≤ (2 : ℕ)) ∧
      (result.status = .exact →
        result.Describes steppingKernel (support steppingKernel.initialDistribution) 1) := by
  exact enumerateReachable_exact (by norm_num) le_rfl (by decide +kernel)
    fun d _ s _ => steppingKernel_stepsExactly s

end Acfqp.Coverage
