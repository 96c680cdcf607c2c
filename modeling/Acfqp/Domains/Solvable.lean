import Acfqp.Library.Permutations
import Acfqp.Domains.MatchingBufferRuns

/-!
# Generated matching buffers

A solvable instance is built backwards from a target sequence. A randomized search finds an order
of the types that never overflows the buffer, and every position of the order gets blockers among
the positions before it, so that the order stays legal.
-/

namespace Acfqp.Domains

open Library Planning

variable {σ : Type}

/-! ## Target types -/

def nextBuffer (buffer : List ℕ) (tileType : ℕ) : List ℕ :=
  let incremented := buffer.set tileType (buffer.getD tileType 0 + 1)
  if incremented.getD tileType 0 = 3 then incremented.set tileType 0 else incremented

/-- One tile of a type is used. -/
def nextRemaining (remaining : List ℕ) (tileType : ℕ) : List ℕ :=
  remaining.set tileType (remaining.getD tileType 0 - 1)

/-- Every partial triple can be completed by the remaining tiles of its type. -/
def Completable (typeCount : ℕ) (buffer remaining : List ℕ) : Prop :=
  ∀ t < typeCount, (buffer.getD t 0 + remaining.getD t 0) % 3 = 0

instance (typeCount : ℕ) (buffer remaining : List ℕ) :
    Decidable (Completable typeCount buffer remaining) :=
  inferInstanceAs (Decidable (∀ t < typeCount, _))

/-- The types in some order after the ones taken. Every call uses a tile. -/
def search (source : RandomSource σ) (typeCount capacity : ℕ) :
    ℕ → List ℕ → List ℕ → List ℕ → StateM σ (Option (List ℕ))
  | 0, _, _, _ => return none
  | calls + 1, remaining, buffer, taken =>
    if ∀ count ∈ remaining, count = 0 then
      return if ∀ count ∈ buffer, count = 0 then some taken else none
    else do
      let candidates ← source.shuffle
        ((List.range remaining.length).filter fun t => remaining.getD t 0 ≠ 0)
      candidates.findSomeM? fun tileType =>
        let remaining := nextRemaining remaining tileType
        let buffer := nextBuffer buffer tileType
        if capacity < buffer.sum then return none
        else if ¬ Completable typeCount buffer remaining then return none
        else search source typeCount capacity calls remaining buffer (taken ++ [tileType])

def randomizedTargetTypes (source : RandomSource σ) (counts : List ℕ) (capacity : ℕ) :
    StateM σ (Option (List ℕ)) :=
  search source counts.length capacity (counts.sum + 1) counts
    (List.replicate counts.length 0) []

/-! ## The generator -/

/-- Private construction evidence. -/
structure LMBGenerationEvidence where
  seed : ℤ
  targetSequence : List ℕ
  layers : List ℕ
  verified : Bool

/-- Every type has one triple, and the others are spread over the types. -/
def drawGroupCounts (source : RandomSource σ) (tripleGroups typeCount : ℕ) : StateM σ (List ℕ) :=
  (List.range (tripleGroups - typeCount)).foldlM (fun groupCounts _ => do
    let t ← source.randrange typeCount
    return groupCounts.set t (groupCounts.getD t 0 + 1)) (List.replicate typeCount 1)

/-- The layers and the blockers of the positions so far, by position. -/
structure Layout where
  layers : List ℕ
  blockers : List (Finset ℕ)

def drawLayer (source : RandomSource σ) (maxLayers position : ℕ) : StateM σ ℕ :=
  let largestLayer := min (maxLayers - 1) position
  if largestLayer ≠ 0 then source.randrange (largestLayer + 1) else return 0

/-- One or two shallower positions, when the layer is not the first. -/
def drawBlockers (source : RandomSource σ) (shallower : List ℕ) (layer : ℕ) :
    StateM σ (Finset ℕ) :=
  if layer = 0 then return ∅
  else do
    let most ← source.choice [1, 2]
    let blockerSet ← source.sample shallower (min shallower.length most)
    return blockerSet.toFinset

def placePosition (source : RandomSource σ) (maxLayers : ℕ) (layout : Layout) (position : ℕ) :
    StateM σ Layout := do
  let drawn ← drawLayer source maxLayers position
  let shallower := (List.range position).filter fun prior => layout.layers.getD prior 0 < drawn
  let layer := if 0 < drawn ∧ shallower = [] then 0 else drawn
  let blockerSet ← drawBlockers source shallower layer
  return ⟨layout.layers ++ [layer], layout.blockers ++ [blockerSet]⟩

def drawLayout (source : RandomSource σ) (tileCount maxLayers : ℕ) : StateM σ Layout :=
  (List.range tileCount).foldlM (placePosition source maxLayers) ⟨[], []⟩

def byTile {α : Type} (targetSequence : List ℕ) (blank : α) (value : ℕ → α) : List α :=
  targetSequence.zipIdx.foldl (fun l (tile, position) => l.set tile (value position))
    (List.replicate targetSequence.length blank)

def tileBlockers (targetSequence : List ℕ) (layout : Layout) : List (Finset ℕ) :=
  byTile targetSequence ∅ fun position =>
    (layout.blockers.getD position ∅).image fun blocker => targetSequence.getD blocker 0

def playTarget (kernel : LMBKernel) : LMBState → List ℕ → Except PyError (Bool × LMBState)
  | state, [] => return (true, state)
  | state, tile :: rest => do
    let legal ← kernel.actions state
    if ⟨tile⟩ ∉ legal then return (false, state)
    else do
      let outcomes ← kernel.step state ⟨tile⟩
      -- A step always has an outcome.
      let outcome ← orRaise outcomes.head? (.runtimeError "tuple index out of range")
      if outcome.nextState.status = .failure then return (false, outcome.nextState)
      else playTarget kernel outcome.nextState rest

/-- The played target clears the board and the buffer. Refusals of the kernel are caught. -/
def verifyTarget (kernel : LMBKernel) (targetSequence : List ℕ) : Except PyError Bool :=
  match playTarget kernel kernel.initialState targetSequence with
  | .ok (verified, state) =>
    return verified ∧ state.status = .success ∧ ∀ count ∈ state.buffer, count = 0
  | .error (.assertionError _) => return false
  | .error (.valueError _) => return false
  | .error e => throw e

/-- The instance of admitted parameters. -/
def constructLmb (source : RandomSource σ) (tileCount typeCount capacity maxLayers : ℕ)
    (seed : ℤ) : Except PyError (LMBKernel × LMBGenerationEvidence) := do
  let (groupCounts, rng) := (drawGroupCounts source (tileCount / 3) typeCount).run
    (source.seeded seed)
  let counts := groupCounts.map (3 * ·)
  let (targetTypes, rng) := (randomizedTargetTypes source counts capacity).run rng
  let targetTypes ← orRaise targetTypes
    (.valueError "no capacity-feasible target sequence exists")
  let (targetSequence, rng) := (source.shuffle (List.range tileCount)).run rng
  let (layout, _) := (drawLayout source tileCount maxLayers).run rng
  let layers := byTile targetSequence 0 fun position => layout.layers.getD position 0
  let kernel ← LMBKernel.make
    (byTile targetSequence 0 fun position => targetTypes.getD position 0)
    (tileBlockers targetSequence layout) typeCount capacity maxLayers
  let verified ← verifyTarget kernel targetSequence
  require (verified = true)
    (.assertionError "reverse-constructed target failed authoritative simulation")
  return (kernel, ⟨seed, targetSequence, layers, true⟩)

def generateSolvableLmb (source : RandomSource σ)
    (tileCount typeCount capacity maxLayers seed : ℤ) :
    Except PyError (LMBKernel × LMBGenerationEvidence) := do
  require (0 < tileCount ∧ tileCount % 3 = 0)
    (.valueError "tile_count must be a positive multiple of three")
  require (0 < typeCount ∧ typeCount ≤ tileCount / 3)
    (.valueError "type_count must lie in [1, tile_count / 3]")
  require (0 ≤ capacity ∧ 0 < maxLayers)
    (.valueError "capacity must be nonnegative and max_layers positive")
  constructLmb source tileCount.toNat typeCount.toNat capacity.toNat maxLayers.toNat seed

end Acfqp.Domains

/-!
## Generated instances are solvable

Whatever the random generator draws, the search finds an order of the types within the capacity
when there is one, blockers come before the tiles they block, and the target sequence therefore
clears the generated kernel.
-/

namespace Acfqp.Domains

open Library Planning

variable {σ : Type} {source : RandomSource σ}

/-! ## Orders of types -/

/-- The buffers along an order of types stay within the capacity. -/
def StaysWithin (capacity : ℕ) : List ℕ → List ℕ → Prop
  | _, [] => True
  | buffer, tileType :: types =>
    (nextBuffer buffer tileType).sum ≤ capacity ∧
      StaysWithin capacity (nextBuffer buffer tileType) types

instance (capacity : ℕ) (buffer types : List ℕ) : Decidable (StaysWithin capacity buffer types) :=
  match types with
  | [] => isTrue trivial
  | tileType :: types =>
    have := instDecidableStaysWithin capacity (nextBuffer buffer tileType) types
    inferInstanceAs (Decidable (_ ∧ _))

/-- Every type is used as often as it is counted, and the buffers stay within the capacity. -/
structure Feasible (capacity : ℕ) (counts buffer types : List ℕ) : Prop where
  uses : ∀ t, types.count t = counts.getD t 0
  fits : StaysWithin capacity buffer types

def bufferAfter (buffer types : List ℕ) : List ℕ := types.foldl nextBuffer buffer

/-- Every type has fewer than three tiles in the buffer. -/
def Partial (buffer : List ℕ) : Prop := ∀ t, buffer.getD t 0 < 3

section Buffers

variable {buffer remaining types : List ℕ} {tileType capacity typeCount : ℕ}

theorem nextBuffer_eq (h : tileType < buffer.length) :
    nextBuffer buffer tileType = (LMBKernel.buffered buffer tileType).1 := by
  unfold nextBuffer LMBKernel.buffered
  dsimp only
  rw [getD_set _ _ h, if_pos rfl, List.set_set]
  split <;> rfl

@[simp] theorem length_nextBuffer : (nextBuffer buffer tileType).length = buffer.length := by
  unfold nextBuffer
  dsimp only
  split <;> simp

@[simp] theorem length_nextRemaining :
    (nextRemaining remaining tileType).length = remaining.length := List.length_set

theorem getD_nextBuffer (h : tileType < buffer.length) (hshort : Partial buffer) (other : ℕ) :
    (nextBuffer buffer tileType).getD other 0 =
      if tileType = other then (buffer.getD tileType 0 + 1) % 3 else buffer.getD other 0 := by
  rw [nextBuffer_eq h]
  exact getD_buffered h (hshort tileType) other

theorem Partial.nextBuffer (h : Partial buffer) (hlt : tileType < buffer.length) :
    Partial (nextBuffer buffer tileType) := by
  intro t
  rw [getD_nextBuffer hlt h]
  split
  · exact Nat.mod_lt _ (by omega)
  · exact h t

theorem getD_nextRemaining (h : tileType < remaining.length) (other : ℕ) :
    (nextRemaining remaining tileType).getD other 0 =
      if tileType = other then remaining.getD tileType 0 - 1 else remaining.getD other 0 :=
  getD_set _ _ h

theorem lt_length_of_getD_ne {l : List ℕ} {t : ℕ} (h : l.getD t 0 ≠ 0) : t < l.length := by
  by_contra hle
  exact h (List.getD_eq_default _ _ (not_lt.mp hle))

theorem forall_mem_eq_zero_iff {l : List ℕ} : (∀ count ∈ l, count = 0) ↔ ∀ t, l.getD t 0 = 0 := by
  constructor
  · intro h t
    by_cases ht : t < l.length
    · rw [List.getD_eq_getElem _ _ ht]
      exact h _ (List.getElem_mem ht)
    · exact List.getD_eq_default _ _ (not_lt.mp ht)
  · intro h count hcount
    obtain ⟨t, ht, rfl⟩ := List.getElem_of_mem hcount
    rw [← List.getD_eq_getElem l 0 ht]
    exact h t

theorem completable_next (hshort : Partial buffer) (hbuffer : tileType < buffer.length)
    (hremaining : remaining.getD tileType 0 ≠ 0) (h : Completable typeCount buffer remaining) :
    Completable typeCount (nextBuffer buffer tileType) (nextRemaining remaining tileType) := by
  intro t ht
  have := h t ht
  rw [getD_nextBuffer hbuffer hshort, getD_nextRemaining (lt_length_of_getD_ne hremaining)]
  split
  · rename_i heq
    subst heq
    omega
  · exact this

theorem sum_nextRemaining (h : remaining.getD tileType 0 ≠ 0) :
    (nextRemaining remaining tileType).sum + 1 = remaining.sum := by
  have := sum_set_add (remaining.getD tileType 0 - 1) (lt_length_of_getD_ne h)
  unfold nextRemaining
  omega

end Buffers

section Search

variable {capacity typeCount calls tileType : ℕ} {remaining buffer types : List ℕ}

/-- The state of a call of the search. -/
structure Searches (typeCount : ℕ) (remaining buffer : List ℕ) : Prop where
  length : remaining.length = typeCount
  buffer_length : buffer.length = typeCount
  few : Partial buffer
  completable : Completable typeCount buffer remaining

theorem Searches.next (h : Searches typeCount remaining buffer)
    (htype : remaining.getD tileType 0 ≠ 0) :
    Searches typeCount (nextRemaining remaining tileType) (nextBuffer buffer tileType) := by
  have hlt : tileType < buffer.length := by
    rw [h.buffer_length, ← h.length]
    exact lt_length_of_getD_ne htype
  exact ⟨by simp [h.length], by simp [h.buffer_length], h.few.nextBuffer hlt,
    completable_next h.few hlt htype h.completable⟩

/-- When every tile is used, what can be completed is complete. -/
theorem Searches.buffer_eq_zero (h : Searches typeCount remaining buffer)
    (hused : ∀ count ∈ remaining, count = 0) : ∀ count ∈ buffer, count = 0 := by
  rw [forall_mem_eq_zero_iff] at hused ⊢
  intro t
  by_cases ht : t < typeCount
  · have hmod := h.completable t ht
    have hlt := h.few t
    rw [hused t] at hmod
    omega
  · exact List.getD_eq_default _ _ (by rw [h.buffer_length]; omega)

theorem Feasible.cons (htype : remaining.getD tileType 0 ≠ 0)
    (hfits : (nextBuffer buffer tileType).sum ≤ capacity)
    (h : Feasible capacity (nextRemaining remaining tileType) (nextBuffer buffer tileType) types) :
    Feasible capacity remaining buffer (tileType :: types) := by
  refine ⟨fun t => ?_, hfits, h.fits⟩
  rw [List.count_cons, h.uses t, getD_nextRemaining (lt_length_of_getD_ne htype)]
  by_cases heq : tileType = t
  · subst heq
    rw [if_pos rfl, beq_self_eq_true, if_pos rfl]
    omega
  · simp [heq]

/-- The rest of a feasible order is feasible after its first type. -/
theorem Feasible.tail (h : Feasible capacity remaining buffer (tileType :: types)) :
    remaining.getD tileType 0 ≠ 0 ∧ (nextBuffer buffer tileType).sum ≤ capacity ∧
      Feasible capacity (nextRemaining remaining tileType) (nextBuffer buffer tileType) types := by
  have hcount : remaining.getD tileType 0 ≠ 0 := by
    rw [← h.uses tileType]
    simp
  refine ⟨hcount, h.fits.1, fun t => ?_, h.fits.2⟩
  have huses := h.uses t
  rw [List.count_cons] at huses
  rw [getD_nextRemaining (lt_length_of_getD_ne hcount)]
  by_cases heq : tileType = t
  · subst heq
    simp at huses ⊢
    omega
  · simpa [heq] using huses

/-- What a call of the search returns: a feasible order that empties the buffer, or nothing when
there is no feasible order. -/
def Found (capacity : ℕ) (remaining buffer taken : List ℕ) (found : Option (List ℕ)) : Prop :=
  (∀ order, found = some order → ∃ types, order = taken ++ types ∧
    Feasible capacity remaining buffer types ∧ ∀ count ∈ bufferAfter buffer types, count = 0) ∧
  (found = none → ∀ types, ¬ Feasible capacity remaining buffer types)

theorem search_found (source : RandomSource σ) (hcalls : remaining.sum < calls)
    (h : Searches typeCount remaining buffer) (taken : List ℕ) :
    Always (Found capacity remaining buffer taken)
      (search source typeCount capacity calls remaining buffer taken) := by
  induction calls generalizing remaining buffer taken with
  | zero => omega
  | succ calls ih =>
    unfold search
    refine .ite (fun hused => ?_) (fun hused => ?_)
    · rw [if_pos (h.buffer_eq_zero hused)]
      refine .pure ⟨fun order horder => ⟨[], ?_, ⟨fun t => ?_, trivial⟩, ?_⟩, nofun⟩
      · simpa using horder.symm
      · exact (forall_mem_eq_zero_iff.mp hused t).symm
      · exact h.buffer_eq_zero hused
    · refine (source.shuffle_perm _).bind fun candidates hcandidates => ?_
      have hcandidate : ∀ t, t ∈ candidates ↔ remaining.getD t 0 ≠ 0 := by
        intro t
        rw [hcandidates.mem_iff, List.mem_filter, List.mem_range]
        simpa using lt_length_of_getD_ne
      refine (Always.findSome (fun t found => ¬ (nextBuffer buffer t).sum ≤ capacity ∧
        found = none ∨
        (nextBuffer buffer t).sum ≤ capacity ∧
        Found capacity (nextRemaining remaining t) (nextBuffer buffer t) (taken ++ [t]) found)
        fun t ht => ?_).mono fun found hfound =>
          ⟨fun order horder => ?_, fun hnone types hfeasible =>
          ?_⟩
      · have htype := (hcandidate t).mp ht
        have hnext := h.next htype
        refine .ite (fun hover => .pure (.inl ⟨not_le.mpr hover, rfl⟩)) fun hfits => ?_
        rw [if_neg (not_not.mpr hnext.completable)]
        have hsum := sum_nextRemaining htype
        exact (ih (by omega) hnext (taken ++ [t])).mono fun found hfound =>
          .inr ⟨not_lt.mp hfits, hfound⟩
      · obtain ⟨t, ht, ⟨-, hnone⟩ | ⟨hfits, hfound⟩⟩ := hfound.1 order horder
        · cases hnone
        · obtain ⟨types, rfl, hfeasible, hempty⟩ := hfound.1 order rfl
          exact ⟨t :: types, by simp, hfeasible.cons ((hcandidate t).mp ht) hfits, hempty⟩
      · cases types with
        | nil =>
          refine hused (forall_mem_eq_zero_iff.mpr fun t => ?_)
          rw [← hfeasible.uses t]
          rfl
        | cons t types =>
          obtain ⟨htype, hfits, hrest⟩ := hfeasible.tail
          obtain ⟨hover, -⟩ | ⟨-, hnext⟩ := hfound.2 hnone t ((hcandidate t).mpr htype)
          · exact hover hfits
          · exact hnext.2 rfl types hrest

/-- When every count is a multiple of three the search starts with what can be completed. -/
theorem Searches.start {counts : List ℕ} (h : ∀ count ∈ counts, 3 ∣ count) :
    Searches counts.length counts (List.replicate counts.length 0) := by
  have hzero : ∀ t, (List.replicate counts.length 0).getD t 0 = 0 :=
    forall_mem_eq_zero_iff.mp fun count hcount => List.eq_of_mem_replicate hcount
  refine ⟨rfl, List.length_replicate, fun t => ?_, fun t ht => ?_⟩
  · rw [hzero t]
    omega
  · rw [hzero t, Nat.zero_add, List.getD_eq_getElem _ _ ht]
    exact Nat.mod_eq_zero_of_dvd (h _ (List.getElem_mem ht))

theorem randomizedTargetTypes_found (source : RandomSource σ) (capacity : ℕ) {counts : List ℕ}
    (h : ∀ count ∈ counts, 3 ∣ count) :
    Always (Found capacity counts (List.replicate counts.length 0) [])
      (randomizedTargetTypes source counts capacity) :=
  search_found source (Nat.lt_succ_self _) (.start h) []

end Search

/-! ## An order with whole triples -/

section

variable {capacity tileType typeCount : ℕ} {counts : List ℕ}

theorem nextBuffer_triple (h : tileType < typeCount) :
    let empty := List.replicate typeCount 0
    nextBuffer empty tileType = empty.set tileType 1 ∧
      nextBuffer (empty.set tileType 1) tileType = empty.set tileType 2 ∧
      nextBuffer (empty.set tileType 2) tileType = empty := by
  intro empty
  have hlength : tileType < empty.length := by simpa [empty] using h
  have hself : ∀ value, (empty.set tileType value).getD tileType 0 = value := fun value => by
    rw [getD_set _ _ hlength, if_pos rfl]
  have hzero : empty.getD tileType 0 = 0 := by simp [empty]
  have hset : empty.set tileType 0 = empty := by simp [empty]
  refine ⟨?_, ?_, ?_⟩
  · rw [nextBuffer, hzero, hself, if_neg (by omega)]
  · rw [nextBuffer, hself, List.set_set, hself, if_neg (by omega)]
  · rw [nextBuffer, hself, List.set_set, hself, if_pos rfl, List.set_set, hset]

theorem sum_set_empty (value : ℕ) (h : tileType < typeCount) :
    ((List.replicate typeCount 0).set tileType value).sum = value := by
  have := @sum_set_add (List.replicate typeCount 0) tileType value (by simpa using h)
  simpa using this

theorem staysWithin_triples (hcapacity : 2 ≤ capacity) {groups : List ℕ}
    (h : ∀ t ∈ groups, t < typeCount) : StaysWithin capacity (List.replicate typeCount 0)
      (groups.flatMap fun t => [t, t, t]) := by
  induction groups with
  | nil => trivial
  | cons t groups ih =>
    have ht := h t (by simp)
    obtain ⟨hone, htwo, hthree⟩ := nextBuffer_triple ht
    have hrest := ih fun t' ht' => h t' (by simp [ht'])
    simp only [List.flatMap_cons, List.cons_append, List.nil_append, StaysWithin, hone, htwo,
      hthree, sum_set_empty _ ht]
    exact ⟨by omega, by omega, by simp, hrest⟩

theorem count_groups (c : ℕ → ℕ) (t : ℕ) :
    ((List.range typeCount).flatMap fun u => List.replicate (c u) u).count t =
      if t < typeCount then c t else 0 := by
  induction typeCount with
  | zero => simp
  | succ n ih =>
    rw [List.range_succ, List.flatMap_append, List.count_append, ih, List.flatMap_singleton,
      List.count_replicate]
    by_cases heq : n = t
    · subst heq
      simp
    · have hlt : t < n + 1 ↔ t < n := by omega
      simp [heq, hlt]

theorem count_triples (groups : List ℕ) (t : ℕ) :
    (groups.flatMap fun u => [u, u, u]).count t = 3 * groups.count t := by
  induction groups with
  | nil => rfl
  | cons u groups ih =>
    rw [List.flatMap_cons, List.count_append, ih, List.count_cons]
    by_cases heq : u = t
    · subst heq
      simp
      omega
    · simp [heq]

/-- A buffer for two tiles is enough for multiples of three. -/
theorem exists_feasible (hcapacity : 2 ≤ capacity) (h : ∀ count ∈ counts, 3 ∣ count) :
    ∃ types, Feasible capacity counts (List.replicate counts.length 0) types := by
  refine ⟨((List.range counts.length).flatMap fun t =>
    List.replicate (counts.getD t 0 / 3) t).flatMap fun t => [t, t, t], fun t => ?_,
    staysWithin_triples hcapacity fun t ht => ?_⟩
  · rw [count_triples, count_groups]
    split
    · rename_i ht
      rw [List.getD_eq_getElem _ _ ht]
      exact Nat.mul_div_cancel' (h _ (List.getElem_mem ht))
    · rename_i ht
      rw [List.getD_eq_default _ _ (not_lt.mp ht)]
  · obtain ⟨u, hu, ht⟩ := List.mem_flatMap.mp ht
    rw [List.eq_of_mem_replicate ht]
    exact List.mem_range.mp hu

end

section Layouts

variable {maxLayers tileCount position : ℕ}

/-- Every position is blocked by shallower positions before it. -/
structure LayoutValid (maxLayers : ℕ) (count : ℕ) (layout : Layout) : Prop where
  layers_length : layout.layers.length = count
  blockers_length : layout.blockers.length = count
  layer_lt : ∀ p, layout.layers.getD p 0 < maxLayers
  blocked : ∀ p, ∀ blocker ∈ layout.blockers.getD p ∅,
    blocker < p ∧ layout.layers.getD blocker 0 < layout.layers.getD p 0

theorem getD_snoc {α : Type} (l : List α) (a blank : α) (p : ℕ) :
    (l ++ [a]).getD p blank = if p = l.length then a else l.getD p blank := by
  rcases lt_trichotomy p l.length with hlt | heq | hgt
  · rw [List.getD_append _ _ _ _ hlt, if_neg (by omega)]
  · subst heq
    simp
  · rw [List.getD_eq_default _ _ (by simpa using hgt), List.getD_eq_default _ _ hgt.le,
      if_neg (by omega)]

theorem drawLayer_lt (source : RandomSource σ) (h : 0 < maxLayers) (position : ℕ) :
    Always (fun layer => layer < maxLayers) (drawLayer source maxLayers position) := by
  unfold drawLayer
  refine .ite (fun _ => (source.randrange_lt _ (Nat.succ_pos _)).mono fun layer hlayer => ?_)
    fun _ => .pure h
  omega

theorem drawBlockers_subset (source : RandomSource σ) (shallower : List ℕ) (layer : ℕ) :
    Always (fun blockers => ∀ blocker ∈ blockers, blocker ∈ shallower ∧ layer ≠ 0)
      (drawBlockers source shallower layer) := by
  unfold drawBlockers
  refine .ite (fun _ => .pure (by simp)) fun hlayer => ?_
  refine (source.choice_mem [1, 2] (by simp)).bind fun most _ => ?_
  refine (source.sample_subperm shallower _ (min_le_left _ _)).bind fun drawn hdrawn => ?_
  exact .pure fun blocker hblocker =>
    ⟨hdrawn.2.subset (List.mem_toFinset.mp hblocker), hlayer⟩

theorem placePosition_valid (source : RandomSource σ) (hmax : 0 < maxLayers) {layout : Layout}
    (h : LayoutValid maxLayers position layout) :
    Always (LayoutValid maxLayers (position + 1))
      (placePosition source maxLayers layout position) := by
  unfold placePosition
  refine (drawLayer_lt source hmax position).bind fun drawn hdrawn => ?_
  dsimp only
  generalize hlayer : (if 0 < drawn ∧ ((List.range position).filter fun prior =>
    layout.layers.getD prior 0 < drawn) = [] then 0 else drawn) = layer
  have hle : layer ≤ drawn ∧ (layer ≠ 0 → layer = drawn) := by
    subst hlayer
    split <;> simp
  refine (drawBlockers_subset source _ layer).bind fun blockers hblockers => .pure ?_
  refine ⟨by simp [h.layers_length], by simp [h.blockers_length], fun p => ?_,
    fun p blocker hblocker => ?_⟩
  · rw [getD_snoc]
    split
    · omega
    · exact h.layer_lt p
  · rw [getD_snoc, h.blockers_length] at hblocker
    split at hblocker
    · rename_i hp
      subst hp
      obtain ⟨hmem, hne⟩ := hblockers blocker hblocker
      obtain ⟨hrange, hshallow⟩ := List.mem_filter.mp hmem
      have hlt := List.mem_range.mp hrange
      refine ⟨hlt, ?_⟩
      rw [getD_snoc, getD_snoc, h.layers_length, if_neg (by omega), if_pos rfl, hle.2 hne]
      simpa using hshallow
    · rename_i hp
      obtain ⟨hlt, hshallow⟩ := h.blocked p blocker hblocker
      have hin : p < position := by
        by_contra hout
        rw [List.getD_eq_default _ _ (by rw [h.blockers_length]; omega)] at hblocker
        exact Finset.notMem_empty _ hblocker
      refine ⟨hlt, ?_⟩
      rw [getD_snoc, getD_snoc, h.layers_length, if_neg (by omega), if_neg hp]
      exact hshallow

theorem drawLayout_valid (source : RandomSource σ) (tileCount : ℕ) (hmax : 0 < maxLayers) :
    Always (LayoutValid maxLayers tileCount) (drawLayout source tileCount maxLayers) := by
  have hfold := Always.foldlM (fun pre layout => LayoutValid maxLayers pre.length layout)
    (l := List.range tileCount) (f := placePosition source maxLayers) (b := ⟨[], []⟩)
    ⟨rfl, rfl, by simpa using hmax, by simp⟩ fun pre position layout ⟨post, hsplit⟩ hlayout => ?_
  · rw [List.length_range] at hfold
    exact hfold
  · have hposition : position = pre.length := by
      have hget : (List.range tileCount)[pre.length]? = some position := by
        rw [hsplit]
        simp
      obtain ⟨hlt, hget⟩ := List.getElem?_eq_some_iff.mp hget
      exact hget.symm.trans (List.getElem_range hlt)
    subst hposition
    rw [List.length_append, List.length_singleton]
    exact placePosition_valid source hmax hlayout

end Layouts

section Play

variable {kernel : LMBKernel} {state : LMBState} {tile : ℕ} {rest : List ℕ}

/-- The tiles are legal one after another, none of them fails, and the last one clears the board
and leaves no tile in the buffer. -/
def Clears (kernel : LMBKernel) : LMBState → List ℕ → Prop
  | state, [] => state.status = .success ∧ ∀ count ∈ state.buffer, count = 0
  | state, tile :: rest => ∃ outcome : Outcome LMBState, kernel.step state ⟨tile⟩ = .ok [outcome] ∧
    outcome.nextState.status ≠ .failure ∧ Clears kernel outcome.nextState rest

theorem playTarget_of_clears (h : Clears kernel state rest) : ∃ last,
    playTarget kernel state rest = .ok (true, last) ∧ last.status = .success ∧
      ∀ count ∈ last.buffer, count = 0 := by
  induction rest generalizing state with
  | nil => exact ⟨state, rfl, h⟩
  | cons tile rest ih =>
    obtain ⟨outcome, hstep, hnotFailed, hrest⟩ := h
    obtain ⟨last, hplay, hlast⟩ := ih hrest
    obtain ⟨htakes, -⟩ := LMBKernel.step_eq_ok.mp hstep
    have hactions := LMBKernel.actions_eq htakes.valid htakes.active
    have hlegal := (LMBKernel.mem_actions hactions).mpr
      ⟨htakes.active, htakes.tile_lt, htakes.free⟩
    refine ⟨last, ?_, hlast⟩
    have hhead : orRaise [outcome].head? (.runtimeError "tuple index out of range") =
        (.ok outcome : Except PyError _) := rfl
    unfold playTarget
    rw [bind_of_ok hactions, if_neg (not_not.mpr hlegal), bind_of_ok hstep, bind_of_ok hhead,
      if_neg hnotFailed]
    exact hplay

/-- The tiles that are left: exactly those on the board, each blocked by removed tiles only when
its turn comes, within the capacity and up to an empty buffer. -/
structure Remains (kernel : LMBKernel) (state : LMBState) (rest : List ℕ) : Prop where
  invariant : LMBInvariant kernel state
  status : state.status = if rest = [] then .success else .active
  board : ∀ tile < kernel.tileCount, state.removedMask.testBit tile = false ↔ tile ∈ rest
  tiles_lt : ∀ tile ∈ rest, tile < kernel.tileCount
  nodup : rest.Nodup
  ordered : rest.Pairwise fun earlier later => later ∉ blockersOf kernel.blockers earlier
  fits : StaysWithin kernel.capacity state.buffer (rest.map (tileType kernel))
  empties : ∀ count ∈ bufferAfter state.buffer (rest.map (tileType kernel)), count = 0

theorem Remains.takes (h : Remains kernel state (tile :: rest)) :
    LMBKernel.Takes kernel state ⟨tile⟩ := by
  have hlt := h.tiles_lt tile (by simp)
  refine ⟨h.invariant.validateState, by simpa using h.status, hlt,
    (h.board tile hlt).mpr (by simp), fun blocker hblocker => ?_⟩
  obtain ⟨hself, hblockers⟩ := kernel.blockers_valid tile hlt
  by_contra hpresent
  have hmem := (h.board blocker (hblockers blocker hblocker)).mp (by simpa using hpresent)
  rcases List.mem_cons.mp hmem with rfl | hlater
  · exact hself hblocker
  · exact (List.pairwise_cons.mp h.ordered).1 blocker hlater hblocker

/-- Taking the next tile leaves the others. -/
theorem Remains.after (h : Remains kernel state (tile :: rest)) :
    Remains kernel (kernel.after state tile) rest := by
  have hlt := h.tiles_lt tile (by simp)
  have hfree := (h.board tile hlt).mpr (by simp)
  have hinvariant := h.invariant.after hlt hfree
  have hbuffer : (kernel.after state tile).buffer = nextBuffer state.buffer
      (tileType kernel tile) :=
    (nextBuffer_eq (by rw [h.invariant.length]; exact tileType_lt hlt)).symm
  have hnodup := List.nodup_cons.mp h.nodup
  have hboard : ∀ other < kernel.tileCount,
      (kernel.after state tile).removedMask.testBit other = false ↔ other ∈ rest := by
    intro other hother
    have hold := h.board other hother
    change (state.removedMask ||| 1 <<< tile).testBit other = false ↔ _
    rw [testBit_remove, Bool.or_eq_false_iff, hold, List.mem_cons, decide_eq_false_iff_not]
    constructor
    · rintro ⟨rfl | hmem, hne⟩
      · exact absurd rfl hne
      · exact hmem
    · intro hmem
      exact ⟨.inr hmem, fun heq => hnodup.1 (heq ▸ hmem)⟩
  have hfull : (kernel.after state tile).removedMask = 1 <<< kernel.tileCount - 1 ↔ rest = [] := by
    rw [eq_full_iff hinvariant.mask_lt]
    constructor
    · intro hall
      refine List.eq_nil_iff_forall_not_mem.mpr fun other hmem => ?_
      have hother := h.tiles_lt other (by simp [hmem])
      have hon := (hboard other hother).mpr hmem
      rw [hall other hother] at hon
      cases hon
    · rintro rfl other hother
      by_contra hon
      have := (hboard other hother).mp (by simpa using hon)
      cases this
  have hfits : (nextBuffer state.buffer (tileType kernel tile)).sum ≤ kernel.capacity := h.fits.1
  refine ⟨hinvariant, ?_, hboard, fun other hmem => h.tiles_lt other (by simp [hmem]), hnodup.2,
    (List.pairwise_cons.mp h.ordered).2, ?_, ?_⟩
  · have hnotOver : ¬ kernel.capacity < (kernel.after state tile).buffer.sum := by
      rw [hbuffer]
      exact not_lt.mpr hfits
    have hstatus : (kernel.after state tile).status =
        if kernel.capacity < (kernel.after state tile).buffer.sum then .failure
        else if (kernel.after state tile).removedMask = 1 <<< kernel.tileCount - 1 then .success
        else .active := rfl
    rw [hstatus, if_neg hnotOver]
    simp only [hfull]
  · rw [hbuffer]
    exact h.fits.2
  · rw [hbuffer]
    exact h.empties

theorem Remains.clears (h : Remains kernel state rest) : Clears kernel state rest := by
  induction rest generalizing state with
  | nil => exact ⟨h.status, h.empties⟩
  | cons tile rest ih =>
    have hafter := h.after
    refine ⟨kernel.outcomeOf state tile, LMBKernel.step_eq_ok.mpr ⟨h.takes, rfl⟩, ?_, ih hafter⟩
    have hstatus := hafter.status
    change (kernel.after state tile).status ≠ .failure
    rw [hstatus]
    split <;> simp

end Play

section Assembly

variable {seq : List ℕ} {layout : Layout} {n maxLayers : ℕ} {α : Type} {blank : α} {value : ℕ → α}

@[simp] theorem length_byTile : (byTile seq blank value).length = seq.length :=
  (length_foldl_set Prod.fst fun e => value e.2).trans List.length_replicate

theorem getElem?_byTile (hperm : seq.Perm (List.range n)) {p : ℕ} (hp : p < seq.length) :
    (byTile seq blank value)[seq[p]]? = some (value p) := by
  have hlength : seq.length = n := by simpa using hperm.length_eq
  have hmem : (seq[p], p) ∈ seq.zipIdx := by
    rw [List.mk_mem_zipIdx_iff_getElem?]
    exact List.getElem?_eq_getElem hp
  have hlt := List.mem_range.mp (hperm.mem_iff.mp (List.getElem_mem hp))
  refine getElem?_foldl_set Prod.fst (fun e => value e.2) ?_ hmem ?_
  · rw [List.zipIdx_map_fst]
    exact hperm.nodup_iff.mpr List.nodup_range
  · simpa [hlength] using hlt

theorem getD_byTile (hperm : seq.Perm (List.range n)) {p : ℕ} (hp : p < seq.length) (other : α) :
    (byTile seq blank value).getD seq[p] other = value p := by
  rw [List.getD_eq_getElem?_getD, getElem?_byTile hperm hp]
  rfl

theorem exists_position (hperm : seq.Perm (List.range n)) {tile : ℕ} (h : tile < n) :
    ∃ p, ∃ hp : p < seq.length, seq[p] = tile :=
  List.getElem_of_mem (hperm.mem_iff.mpr (List.mem_range.mpr h))

theorem mem_tileBlockers (hperm : seq.Perm (List.range n)) (h : LayoutValid maxLayers n layout)
    {p : ℕ} (hp : p < seq.length) {blocker : ℕ}
    (hblocker : blocker ∈ blockersOf (tileBlockers seq layout) seq[p]) :
    ∃ q, ∃ hq : q < p, seq[q] = blocker ∧ layout.layers.getD q 0 < layout.layers.getD p 0 := by
  rw [blockersOf, tileBlockers, getD_byTile hperm hp, Finset.mem_image] at hblocker
  obtain ⟨q, hq, rfl⟩ := hblocker
  obtain ⟨hlt, hlayer⟩ := h.blocked p q hq
  exact ⟨q, hlt, (List.getD_eq_getElem _ _ (hlt.trans hp)).symm, hlayer⟩

theorem within_tileBlockers (hperm : seq.Perm (List.range n)) (h : LayoutValid maxLayers n layout)
    {depth p : ℕ} (hp : p < seq.length) (hdepth : layout.layers.getD p 0 < depth) :
    Within (fun tile => (blockersOf (tileBlockers seq layout) tile).sort (· ≤ ·)) depth seq[p] := by
  induction depth generalizing p with
  | zero => omega
  | succ depth ih =>
    intro blocker hblocker
    obtain ⟨q, hq, rfl, hlayer⟩ := mem_tileBlockers hperm h hp ((Finset.mem_sort _).mp hblocker)
    exact ih (hq.trans hp) (by omega)

end Assembly

section Generated

variable {tileCount typeCount capacity maxLayers : ℕ} {counts types : List ℕ}

theorem drawGroupCounts_spec (source : RandomSource σ) {tripleGroups : ℕ} (hpos : 0 < typeCount)
    (hle : typeCount ≤ tripleGroups) :
    Always (fun groupCounts => groupCounts.length = typeCount ∧ groupCounts.sum = tripleGroups)
      (drawGroupCounts source tripleGroups typeCount) := by
  have hfold := Always.foldlM (σ := σ) (fun (pre : List ℕ) (groupCounts : List ℕ) =>
      groupCounts.length = typeCount ∧ groupCounts.sum = typeCount + pre.length)
    (l := List.range (tripleGroups - typeCount)) (b := List.replicate typeCount 1)
    (f := fun groupCounts _ => do
      let t ← source.randrange typeCount
      return groupCounts.set t (groupCounts.getD t 0 + 1))
    (by simp) fun pre _ groupCounts _ ⟨hlength, hsum⟩ => ?_
  · refine hfold.mono fun groupCounts ⟨hlength, hsum⟩ => ⟨hlength, ?_⟩
    rw [hsum, List.length_range]
    omega
  · refine (source.randrange_lt _ hpos).bind fun t ht => .pure ⟨by simpa using hlength, ?_⟩
    have := sum_set_add (groupCounts.getD t 0 + 1) (hlength ▸ ht)
    rw [List.length_append, List.length_singleton]
    omega

/-- A feasible order has one type for every counted tile. -/
theorem Feasible.perm {buffer : List ℕ} (h : Feasible capacity counts buffer types) :
    types.Perm ((List.range counts.length).flatMap fun t =>
      List.replicate (counts.getD t 0) t) := by
  rw [List.perm_iff_count]
  intro t
  rw [h.uses t, count_groups]
  split
  · rfl
  · exact List.getD_eq_default _ _ (by omega)

theorem Feasible.length {buffer : List ℕ} (h : Feasible capacity counts buffer types) :
    types.length = counts.sum := by
  rw [h.perm.length_eq, List.length_flatMap]
  refine congrArg List.sum (List.ext_getElem (by simp) fun t ht ht' => ?_)
  simp at ht
  simp [ht]

theorem Feasible.type_lt {buffer : List ℕ} (h : Feasible capacity counts buffer types) {t : ℕ}
    (ht : t ∈ types) : t < counts.length := by
  refine lt_length_of_getD_ne ?_
  rw [← h.uses t]
  exact (List.count_pos_iff.mpr ht).ne'

theorem LMBKernel.of_make {tileTypes : List ℕ} {blockers : List (Finset ℕ)} {kernel : LMBKernel}
    (h : LMBKernel.make tileTypes blockers typeCount capacity maxLayers = .ok kernel) :
    kernel.tileTypes = tileTypes ∧ kernel.blockers = blockers ∧ kernel.typeCount = typeCount ∧
      kernel.capacity = capacity ∧ kernel.maxLayers = maxLayers := by
  unfold LMBKernel.make at h
  split_ifs at h
  split at h
  · cases h
    exact ⟨rfl, rfl, rfl, rfl, rfl⟩
  · cases h

/-- A feasible order of the types, a rearrangement of the tiles and a valid layout make a kernel
that the rearrangement clears. -/
theorem exists_kernel {seq : List ℕ} {layout : Layout}
    (htiles : tileCount ≠ 0 ∧ tileCount % 3 = 0) (hcounts : counts.length = typeCount)
    (hsum : counts.sum = tileCount) (hmax : 0 < maxLayers)
    (hfeasible : Feasible capacity counts (List.replicate typeCount 0) types)
    (hempty : ∀ count ∈ bufferAfter (List.replicate typeCount 0) types, count = 0)
    (hseq : seq.Perm (List.range tileCount)) (hlayout : LayoutValid maxLayers tileCount layout) :
    ∃ kernel, LMBKernel.make (byTile seq 0 fun position => types.getD position 0)
        (tileBlockers seq layout) typeCount capacity maxLayers = .ok kernel ∧
      Clears kernel kernel.initialState seq := by
  have hlength : seq.length = tileCount := by simpa using hseq.length_eq
  have htypesLength : types.length = seq.length := by rw [hfeasible.length, hsum, hlength]
  have hkinds : ∀ type ∈ byTile seq 0 fun position => types.getD position 0, type < typeCount := by
    intro type htype
    obtain ⟨tile, htile, rfl⟩ := List.getElem_of_mem htype
    rw [length_byTile] at htile
    obtain ⟨p, hp, rfl⟩ := exists_position hseq (hlength ▸ htile)
    rw [← List.getD_eq_getElem _ 0, getD_byTile hseq hp, List.getD_eq_getElem _ _ (by omega),
      ← hcounts]
    exact hfeasible.type_lt (List.getElem_mem _)
  have hblockers : ∀ tile < seq.length, ∀ blocker ∈ blockersOf (tileBlockers seq layout) tile,
      blocker < seq.length := by
    intro tile htile blocker hblocker
    obtain ⟨p, hp, rfl⟩ := exists_position hseq (hlength ▸ htile)
    obtain ⟨q, hq, rfl, -⟩ := mem_tileBlockers hseq hlayout hp hblocker
    exact (List.mem_range.mp (hseq.mem_iff.mp (List.getElem_mem _))).trans_eq hlength.symm
  obtain ⟨kernel, hkernel⟩ := (@LMBKernel.make_isOk_iff _ (tileBlockers seq layout) _ capacity _
    (by rw [length_byTile, hlength]; exact htiles) hkinds hmax
    (by rw [tileBlockers, length_byTile, length_byTile])
    (by rw [length_byTile]; exact hblockers)).mpr (forall_within_iff.mp fun tile htile => by
      rw [length_byTile] at htile
      obtain ⟨p, hp, rfl⟩ := exists_position hseq (hlength ▸ htile)
      exact within_tileBlockers hseq hlayout hp (hlayout.layer_lt p))
  refine ⟨kernel, hkernel, Remains.clears ?_⟩
  obtain ⟨hkTypes, hkBlockers, hkCount, hkCapacity, -⟩ := LMBKernel.of_make hkernel
  have hkTiles : kernel.tileCount = tileCount := by
    rw [LMBKernel.tileCount, hkTypes, length_byTile, hlength]
  have hmem : ∀ tile, tile ∈ seq ↔ tile < tileCount := fun tile =>
    hseq.mem_iff.trans List.mem_range
  have hmap : seq.map (tileType kernel) = types := by
    refine List.ext_getElem (by rw [List.length_map, htypesLength]) fun p hp hp' => ?_
    rw [List.length_map] at hp
    rw [List.getElem_map, tileType, hkTypes, getD_byTile hseq hp, List.getD_eq_getElem]
  have hbuffer : kernel.initialState.buffer = List.replicate typeCount 0 := by
    rw [LMBKernel.initialState, hkCount]
  have hnodup : seq.Nodup := hseq.nodup_iff.mpr List.nodup_range
  refine ⟨.initial, ?_, fun tile htile => ?_, fun tile htile => ?_, hnodup, ?_, ?_, ?_⟩
  · rw [if_neg fun hnil => htiles.1 (by rw [← hlength, hnil]; rfl)]
    rfl
  · rw [hmem, ← hkTiles]
    simp [LMBKernel.initialState, htile]
  · rw [hkTiles]
    exact (hmem tile).mp htile
  · rw [hkBlockers, List.pairwise_iff_getElem]
    intro i j hi hj hij hblocker
    obtain ⟨q, hq, heq, -⟩ := mem_tileBlockers hseq hlayout hi hblocker
    have := (hnodup.getElem_inj_iff).mp heq
    omega
  · rw [hmap, hbuffer, hkCapacity]
    exact hfeasible.fits
  · rw [hmap, hbuffer]
    exact hempty

theorem constructLmb_clears (source : RandomSource σ) (seed : ℤ)
    (htiles : tileCount ≠ 0 ∧ tileCount % 3 = 0)
    (htypes : 0 < typeCount ∧ typeCount ≤ tileCount / 3) (hcapacity : 2 ≤ capacity)
    (hmax : 0 < maxLayers) : ∃ kernel evidence,
      constructLmb source tileCount typeCount capacity maxLayers seed = .ok (kernel, evidence) ∧
      (kernel.tileCount = tileCount ∧ kernel.typeCount = typeCount ∧
        kernel.capacity = capacity ∧ kernel.maxLayers = maxLayers) ∧
      evidence.targetSequence.Perm (List.range tileCount) ∧
      Clears kernel kernel.initialState evidence.targetSequence := by
  unfold constructLmb
  obtain ⟨hlength, hsum⟩ :=
    drawGroupCounts_spec source htypes.1 htypes.2 (source.seeded seed)
  generalize (drawGroupCounts source (tileCount / 3) typeCount).run (source.seeded seed) =
    drawn at hlength hsum ⊢
  obtain ⟨groupCounts, rng⟩ := drawn
  dsimp only at hlength hsum ⊢
  have hmultiples : ∀ count ∈ groupCounts.map (3 * ·), 3 ∣ count := by
    intro count hcount
    obtain ⟨groups, -, rfl⟩ := List.mem_map.mp hcount
    exact Dvd.intro groups rfl
  have hcountsLength : (groupCounts.map (3 * ·)).length = typeCount := by
    rw [List.length_map, hlength]
  have hcountsSum : (groupCounts.map (3 * ·)).sum = tileCount := by
    rw [List.sum_map_mul_left, List.map_id', hsum]
    omega
  have hfound := randomizedTargetTypes_found source capacity hmultiples rng
  obtain ⟨order, horder⟩ := exists_feasible hcapacity hmultiples
  generalize (randomizedTargetTypes source (groupCounts.map (3 * ·)) capacity).run rng =
    searched at hfound ⊢
  obtain ⟨_ | types, rng⟩ := searched
  · exact absurd horder (hfound.2 rfl order)
  · dsimp only at hfound ⊢
    obtain ⟨_, rfl, hfeasible, hempty⟩ := hfound.1 types rfl
    rw [hcountsLength] at hfeasible hempty
    have hseq := source.shuffle_perm (List.range tileCount) rng
    generalize (source.shuffle (List.range tileCount)).run rng = shuffled at hseq ⊢
    obtain ⟨seq, rng⟩ := shuffled
    have hlayout := drawLayout_valid source tileCount hmax rng
    dsimp only at hseq ⊢
    generalize (drawLayout source tileCount maxLayers).run rng = placed at hlayout ⊢
    obtain ⟨layout, rng⟩ := placed
    dsimp only at hlayout ⊢
    obtain ⟨kernel, hkernel, hclears⟩ := exists_kernel htiles hcountsLength hcountsSum hmax
      hfeasible hempty hseq hlayout
    obtain ⟨hkTypes, -, hkCount, hkCapacity, hkLayers⟩ := LMBKernel.of_make hkernel
    obtain ⟨last, hplay, hsuccess, hcleared⟩ := playTarget_of_clears hclears
    have hverified : verifyTarget kernel seq = .ok true := by
      rw [verifyTarget, hplay]
      exact congrArg Except.ok (decide_eq_true ⟨rfl, hsuccess, hcleared⟩)
    refine ⟨kernel, ⟨seed, seq, byTile seq 0 fun position => layout.layers.getD position 0, true⟩,
      ?_, ⟨?_, hkCount, hkCapacity, hkLayers⟩, hseq, hclears⟩
    · rw [bind_of_ok (orRaise_eq_ok.mpr rfl), bind_of_ok hkernel, bind_of_ok hverified,
        bind_of_ok (require_eq_ok (u := ()).mpr rfl)]
      rfl
    · rw [LMBKernel.tileCount, hkTypes, length_byTile, hseq.length_eq, List.length_range]

end Generated

/-! ## Solvability -/

/-- Whatever the generator draws, admitted parameters with a buffer for two tiles give a kernel
that the hidden target sequence clears without overflow. The search for target types, on counts
that are multiples of three, returns an order within the capacity whenever there is one. -/
theorem generateSolvableLmb_clears (source : RandomSource σ)
    (tileCount typeCount capacity maxLayers seed : ℤ)
    (htiles : 0 < tileCount ∧ tileCount % 3 = 0)
    (htypes : 0 < typeCount ∧ typeCount ≤ tileCount / 3) (hcapacity : 2 ≤ capacity)
    (hmax : 0 < maxLayers) :
    (∃ kernel evidence, generateSolvableLmb source tileCount typeCount capacity maxLayers seed =
        .ok (kernel, evidence) ∧
      ((kernel.tileCount : ℤ) = tileCount ∧ (kernel.typeCount : ℤ) = typeCount ∧
        (kernel.capacity : ℤ) = capacity ∧ (kernel.maxLayers : ℤ) = maxLayers) ∧
      evidence.targetSequence.Perm (List.range kernel.tileCount) ∧
      Clears kernel kernel.initialState evidence.targetSequence) ∧
    ∀ (counts : List ℕ) (most : ℕ) (rng : σ), (∀ count ∈ counts, 3 ∣ count) →
      (∀ types, ((randomizedTargetTypes source counts most).run rng).1 = some types →
        Feasible most counts (List.replicate counts.length 0) types) ∧
      ((∃ types, Feasible most counts (List.replicate counts.length 0) types) →
        ∃ types, ((randomizedTargetTypes source counts most).run rng).1 = some types) := by
  constructor
  · obtain ⟨kernel, evidence, hconstruct, ⟨hkTiles, hkTypes, hkCapacity, hkLayers⟩,
      hseq, hclears⟩ :=
      @constructLmb_clears _ tileCount.toNat typeCount.toNat capacity.toNat maxLayers.toNat source
        seed (by omega) (by omega) (by omega) (by omega)
    refine ⟨kernel, evidence, ?_, ⟨by omega, by omega, by omega, by omega⟩, hkTiles ▸ hseq,
      hclears⟩
    unfold generateSolvableLmb
    rw [bind_of_ok (require_eq_ok (u := ()).mpr htiles),
      bind_of_ok (require_eq_ok (u := ()).mpr htypes),
      bind_of_ok (require_eq_ok (u := ()).mpr ⟨by omega, hmax⟩)]
    exact hconstruct
  · intro counts most rng hcounts
    have hfound := randomizedTargetTypes_found source most hcounts rng
    refine ⟨fun types htypes => ?_, fun ⟨types, hfeasible⟩ => ?_⟩
    · obtain ⟨_, rfl, hfeasible, -⟩ := hfound.1 types htypes
      exact hfeasible
    · by_contra hnone
      push Not at hnone
      exact hfound.2 (Option.eq_none_iff_forall_ne_some.mpr hnone) types hfeasible

/-- Two triples of two types on three layers, every tile but the first under one or two others. -/
theorem generateSolvableLmb_clears_sample :
    (∃ kernel evidence, generateSolvableLmb .largest 6 2 2 3 7 = .ok (kernel, evidence) ∧
      Clears kernel kernel.initialState evidence.targetSequence) ∧
    ∃ types, ((randomizedTargetTypes .largest [3, 3] 2).run ()).1 = some types := by
  obtain ⟨⟨kernel, evidence, hkernel, -, -, hclears⟩, htypes⟩ :=
    generateSolvableLmb_clears .largest 6 2 2 3 7 (by decide) (by decide) (by decide) (by decide)
  refine ⟨⟨kernel, evidence, hkernel, hclears⟩, ?_⟩
  exact (htypes [3, 3] 2 () (by decide)).2 (exists_feasible le_rfl (by decide))

end Acfqp.Domains
