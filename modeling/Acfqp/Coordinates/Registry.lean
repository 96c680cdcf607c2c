import Acfqp.Coordinates.Closure

/-!
# The registry of a log

The registry holds the least program of each class of the grammar. It exists when every positive
rank of the log stands at a vertex.
-/

namespace Acfqp.Coordinates

open Library Acfqp.Graph

variable {ι : Type}

section Classes

variable (ids : ContentIds ι) (states actions : List (EvaluationCovariate ι))

def classOf (p : AnyProgram) : GraphProgramType × GraphProgramContext × List (ValueKey ι) :=
  match programSignature ids states actions p with
  | .ok signature => signature
  | .error _ => (p.1, p.2.context, [])

variable {ids states actions}

theorem classOf_eq {p : AnyProgram}
    {signature : GraphProgramType × GraphProgramContext × List (ValueKey ι)}
    (h : programSignature ids states actions p = .ok signature) :
    classOf ids states actions p = signature := by
  unfold classOf
  rw [h]

theorem classOf_context (p : AnyProgram) :
    (classOf ids states actions p).1 = p.1 ∧ (classOf ids states actions p).2.1 = p.2.context := by
  unfold classOf
  split
  · next signature h =>
    obtain ⟨keys, -, rfl⟩ := (programSignature_eq_ok ids).mp h
    exact ⟨rfl, rfl⟩
  · exact ⟨rfl, rfl⟩

theorem programSignature_returns {p : AnyProgram} :
    (∃ signature, programSignature ids states actions p = .ok signature) ↔
      ∀ c ∈ covariatesOf states actions p.2.context, ∃ v, evaluateProgram c p.2 = .ok v := by
  constructor
  · rintro ⟨signature, h⟩ c hc
    obtain ⟨keys, hkeys, -⟩ := (programSignature_eq_ok ids).mp h
    obtain ⟨_, -, hkey⟩ := exists_of_mapM hkeys hc
    obtain ⟨v, hv, -⟩ := bind_eq_ok.mp hkey
    exact ⟨v, hv⟩
  · intro h
    obtain ⟨keys, hkeys⟩ := mapM_returns (f := fun c => programKey ids c p.2) fun c hc => by
      obtain ⟨v, hv⟩ := h c hc
      exact ⟨_, bind_eq_ok.mpr ⟨v, hv, rfl⟩⟩
    exact ⟨_, (programSignature_eq_ok ids).mpr ⟨keys, hkeys, rfl⟩⟩

theorem classOf_integer {p q : GraphCoordinateProgram .integer} (hcontext : p.context = q.context)
    (hp : ∃ signature, programSignature ids states actions p.any = .ok signature)
    (hq : ∃ signature, programSignature ids states actions q.any = .ok signature) :
    classOf ids states actions p.any = classOf ids states actions q.any ↔
      ∀ c ∈ covariatesOf states actions p.context, evaluateProgram c p = evaluateProgram c q := by
  obtain ⟨_, hp⟩ := hp
  obtain ⟨_, hq⟩ := hq
  rw [classOf_eq hp, classOf_eq hq]
  obtain ⟨ks, hks, rfl⟩ := (programSignature_eq_ok ids).mp hp
  obtain ⟨ls, hls, rfl⟩ := (programSignature_eq_ok ids).mp hq
  have hcovariates : covariatesOf states actions q.any.2.context =
      covariatesOf states actions p.context := congrArg _ hcontext.symm
  rw [hcovariates] at hls
  simp only [Prod.mk.injEq, true_and, GraphCoordinateProgram.any]
  rw [and_iff_right hcontext, mapM_eq_iff hks hls]
  refine forall₂_congr fun c hc => ?_
  obtain ⟨_, -, hkey⟩ := exists_of_mapM hks hc
  obtain ⟨_, -, hkey'⟩ := exists_of_mapM hls hc
  obtain ⟨v, hv, -⟩ := bind_eq_ok.mp hkey
  obtain ⟨w, hw, -⟩ := bind_eq_ok.mp hkey'
  have hv : evaluateProgram c p = .ok v := hv
  have hw : evaluateProgram c q = .ok w := hw
  have hkeys : ∀ {r : GraphCoordinateProgram .integer} {u : ℕ}, evaluateProgram c r = .ok u →
      programKey ids c r = .ok (.integer u) := fun hr => bind_eq_ok.mpr ⟨_, hr, rfl⟩
  change programKey ids c p = programKey ids c q ↔ _
  rw [hkeys hv, hkeys hw, hv, hw]
  constructor
  · intro h
    cases h
    rfl
  · intro h
    cases h
    rfl

end Classes

/-! ## Representatives -/

/-- A fold that returns has run each of its steps. -/
theorem exists_of_foldlM {ε α β γ : Type} {f : α → Except ε γ} {g : β → α → γ → β} {l : List α}
    {b b' : β} (h : l.foldlM (fun b a => do
      let w ← f a
      return g b a w) b = .ok b') : ∀ a ∈ l, ∃ w, f a = .ok w := by
  induction l generalizing b with
  | nil => simp
  | cons a l ih =>
    rw [List.foldlM_cons] at h
    obtain ⟨b'', hstep, h⟩ := bind_eq_ok.mp h
    obtain ⟨w, hw, -⟩ := bind_eq_ok.mp hstep
    exact List.forall_mem_cons.mpr ⟨⟨w, hw⟩, ih h⟩

section Representatives

variable [LinearOrder ι] {ids : ContentIds ι} {programId : AnyProgram → ι}
  {states actions : List (EvaluationCovariate ι)} {programs : List AnyProgram}

theorem keepRepresentative_eq {S : Type} [DecidableEq S] (s : S) (p : AnyProgram)
    (d : List (S × AnyProgram)) :
    keepRepresentative programId s p d = keepLeast (programOrderKey programId) s p d := by
  unfold keepRepresentative keepLeast
  cases d.lookup s with
  | none => rfl
  | some prior => congr

theorem representatives_eq
    (h : ∀ p ∈ programs, ∃ signature, programSignature ids states actions p = .ok signature) :
    representatives ids programId states actions programs = .ok (programs.foldl (fun d p =>
      keepLeast (programOrderKey programId) (classOf ids states actions p) p d) []) := by
  unfold representatives
  generalize ([] : List _) = d
  induction programs generalizing d with
  | nil => rfl
  | cons p programs ih =>
    obtain ⟨signature, hsignature⟩ := h p (by simp)
    rw [List.foldlM_cons, hsignature, List.foldl_cons, classOf_eq hsignature]
    change List.foldlM _ (keepRepresentative programId signature p d) programs = _
    rw [keepRepresentative_eq]
    exact ih (fun q hq => h q (by simp [hq])) _

theorem programSignature_of_representatives_eq
    {d : List ((GraphProgramType × GraphProgramContext × List (ValueKey ι)) × AnyProgram)}
    (h : representatives ids programId states actions programs = .ok d) :
    ∀ p ∈ programs, ∃ signature, programSignature ids states actions p = .ok signature :=
  exists_of_foldlM h

end Representatives

section Registry

theorem sum_countP {α : Type} {f : α → ℕ} {n : ℕ} {l : List α} (h : ∀ a ∈ l, f a < n) :
    ((List.range n).map fun k => l.countP (f · = k)).sum = l.length := by
  have hsum : ∀ g : ℕ → ℕ, ((List.range n).map g).sum = ∑ k ∈ Finset.range n, g k := fun _ => rfl
  rw [hsum]
  induction l with
  | nil => simp
  | cons a l ih =>
    have hmem : f a ∈ Finset.range n := Finset.mem_range.mpr (h a (by simp))
    simp only [List.countP_cons, decide_eq_true_eq, List.length_cons, Finset.sum_add_distrib,
      Finset.sum_ite_eq, hmem, if_true]
    rw [ih fun b hb => h b (by simp [hb])]

variable [LinearOrder ι] {ids : SynthesisIds ι}
  {states actions : List (EvaluationCovariate ι)} {syntactic : List AnyProgram}

/-- A registry holds one representative for each class. -/
theorem registryOf_eq_ok {sourceLogId : ι} {registry : GraphProgramRegistry ι}
    (h : registryOf ids sourceLogId states actions syntactic = .ok registry) :
    (∀ p ∈ syntactic, ∃ signature,
      programSignature ids.toContentIds states actions p = .ok signature) ∧
    ∃ d, Represents (programOrderKey ids.programId) (classOf ids.toContentIds states actions)
      syntactic d ∧ ∀ p, p ∈ registry.programs ↔ p ∈ d.map Prod.snd := by
  unfold registryOf at h
  obtain ⟨d, hd, h⟩ := bind_eq_ok.mp h
  obtain ⟨_, -, h⟩ := bind_eq_ok.mp h
  cases h
  have hsignatures := programSignature_of_representatives_eq hd
  rw [representatives_eq hsignatures] at hd
  cases hd
  exact ⟨hsignatures, _, represents_foldl syntactic, fun p => mem_sortBy⟩

theorem registryOf_returns (sourceLogId : ι) (hprogram : Function.Injective ids.programId)
    (hne : syntactic ≠ [])
    (hdepth : ∀ p ∈ syntactic, p.2.depth ≤ maxProgramDepth)
    (h : ∀ p ∈ syntactic, ∃ signature,
      programSignature ids.toContentIds states actions p = .ok signature) :
    ∃ registry, registryOf ids sourceLogId states actions syntactic = .ok registry := by
  have hrepresents : Represents (programOrderKey ids.programId)
      (classOf ids.toContentIds states actions) syntactic _ := represents_foldl syntactic
  unfold registryOf
  rw [representatives_eq h]
  generalize syntactic.foldl _ _ = d at hrepresents
  have hsubset : d.map Prod.snd ⊆ syntactic := by
    intro p hp
    obtain ⟨e, he, rfl⟩ := List.mem_map.mp hp
    exact (hrepresents.mem e he).1
  have hprograms : sortBy ids.programId (d.map Prod.snd) ≠ [] := by
    obtain ⟨p, hp⟩ := List.exists_mem_of_ne_nil _ hne
    obtain ⟨q, hq, -⟩ := hrepresents.least p hp
    rw [Ne, sortBy_eq_nil]
    exact List.ne_nil_of_mem (List.mem_map_of_mem hq)
  have hsorted := pairwise_lt_sortBy (hrepresents.nodup_values.map hprogram)
  have hlength : (sortBy ids.programId (d.map Prod.snd)).length ≤ syntactic.length := by
    rw [length_sortBy]
    exact (hrepresents.nodup_values.subperm hsubset).length_le
  have hcounts := sum_countP (f := fun p : AnyProgram => p.2.depth) (n := maxProgramDepth + 1)
    (l := sortBy ids.programId (d.map Prod.snd)) fun p hp =>
      Nat.lt_succ_of_le (hdepth p (hsubset (mem_sortBy.mp hp)))
  exact ⟨_, bind_eq_ok.mpr ⟨d, rfl,
    bind_eq_ok.mpr ⟨(), require_eq_ok.mpr ⟨hprograms, hsorted, hlength, hcounts⟩, rfl⟩⟩⟩

end Registry

end Acfqp.Coordinates
