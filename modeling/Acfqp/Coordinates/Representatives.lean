import Acfqp.Coordinates.Synthesis
import Acfqp.Coordinates.Equivariance
import Mathlib.Data.Finset.Card

/-!
# Representatives of programs

Two sets of covariates that are relabellings of each other tell the same programs apart, so the same
programs represent their classes.
-/

namespace Acfqp.Coordinates

open Library Acfqp.Graph

variable {ι : Type} (ids : ContentIds ι)

structure RelabelledCovariates (states actions states' actions' : List (EvaluationCovariate ι)) :
    Prop where
  stateCovers : Covers (fun c c' => ∃ σ, Relabelled σ c c') states states'
  actionCovers : Covers (fun c c' => ∃ σ, Relabelled σ c c') actions actions'
  hasAction : ∀ c ∈ actions, c.action.isSome

variable {states actions states' actions' : List (EvaluationCovariate ι)}

def covariatesOf (states actions : List (EvaluationCovariate ι)) (context : GraphProgramContext) :
    List (EvaluationCovariate ι) := if context = .state then states else actions

theorem RelabelledCovariates.covers (h : RelabelledCovariates states actions states' actions')
    (context : GraphProgramContext) :
    Covers (fun c c' => (∃ σ, Relabelled σ c c') ∧ (context = .stateAction → c.action.isSome))
      (covariatesOf states actions context) (covariatesOf states' actions' context) := by
  cases context with
  | state =>
    refine ⟨fun c hc => ?_, fun c' hc' => ?_⟩
    · obtain ⟨c', hc', hrel⟩ := h.stateCovers.left c hc
      exact ⟨c', hc', hrel, fun hcontext => (by cases hcontext)⟩
    · obtain ⟨c, hc, hrel⟩ := h.stateCovers.right c' hc'
      exact ⟨c, hc, hrel, fun hcontext => (by cases hcontext)⟩
  | stateAction =>
    refine ⟨fun c hc => ?_, fun c' hc' => ?_⟩
    · obtain ⟨c', hc', hrel⟩ := h.actionCovers.left c hc
      exact ⟨c', hc', hrel, fun _ => h.hasAction c hc⟩
    · obtain ⟨c, hc, hrel⟩ := h.actionCovers.right c' hc'
      exact ⟨c, hc, hrel, fun _ => h.hasAction c hc⟩

theorem programSignature_eq_ok {program : AnyProgram}
    {signature : GraphProgramType × GraphProgramContext × List (ValueKey ι)} :
    programSignature ids states actions program = .ok signature ↔
      ∃ keys, (covariatesOf states actions program.2.context).mapM
          (fun c => programKey ids c program.2) = .ok keys ∧
        signature = (program.1, program.2.context, keys) := by
  rw [programSignature, bind_eq_ok]
  simp only [pure_eq_ok, eq_comm (a := signature)]
  rfl

theorem programSignature_agree (h : RelabelledCovariates states actions states' actions')
    (program : AnyProgram) : Agree (fun _ _ => True) neighborError
      (programSignature ids states actions program)
      (programSignature ids states' actions' program) := by
  have hkeys := (h.covers program.2.context).mapM (S := fun _ _ => True) (e := neighborError)
    (f := fun c => programKey ids c program.2) (g := fun c => programKey ids c program.2)
    fun c _ c' _ hc => by
      obtain ⟨⟨σ, hrel⟩, haction⟩ := hc
      exact programKey_agree ids hrel haction
  exact hkeys.bind fun _ _ _ => .inr ⟨_, _, rfl, rfl, trivial⟩

theorem programSignature_relabelled (h : RelabelledCovariates states actions states' actions')
    {p q : AnyProgram} {s t s' t' : GraphProgramType × GraphProgramContext × List (ValueKey ι)}
    (hs : programSignature ids states actions p = .ok s)
    (ht : programSignature ids states actions q = .ok t)
    (hs' : programSignature ids states' actions' p = .ok s')
    (ht' : programSignature ids states' actions' q = .ok t') : s = t ↔ s' = t' := by
  obtain ⟨τ, p⟩ := p
  obtain ⟨τ', q⟩ := q
  obtain ⟨ks, hks, rfl⟩ := (programSignature_eq_ok ids).mp hs
  obtain ⟨kt, hkt, rfl⟩ := (programSignature_eq_ok ids).mp ht
  obtain ⟨ks', hks', rfl⟩ := (programSignature_eq_ok ids).mp hs'
  obtain ⟨kt', hkt', rfl⟩ := (programSignature_eq_ok ids).mp ht'
  simp only [Prod.mk.injEq]
  by_cases hτ : τ = τ'
  · subst hτ
    by_cases hcontext : p.context = q.context
    · have hcovers := h.covers p.context
      simp only [hcontext, true_and] at hks hkt hks' hkt' hcovers ⊢
      rw [mapM_eq_iff hks hkt, mapM_eq_iff hks' hkt']
      constructor
      · intro hall c' hc'
        obtain ⟨c, hc, ⟨σ, hrel⟩, haction⟩ := hcovers.right c' hc'
        exact (programKey_relabelled ids hrel (hcontext ▸ haction) haction).mpr (hall c hc)
      · intro hall c hc
        obtain ⟨c', hc', ⟨σ, hrel⟩, haction⟩ := hcovers.left c hc
        exact (programKey_relabelled ids hrel (hcontext ▸ haction) haction).mp (hall c' hc')
    · simp [hcontext]
  · simp [hτ]

variable [LinearOrder ι] (programId : AnyProgram → ι)

theorem keepRepresentative_related {S S' : Type} [DecidableEq S] [DecidableEq S']
    {R : S → S' → Prop} (hR : ∀ a a' b b', R a a' → R b b' → (a = b ↔ a' = b'))
    {d : List (S × AnyProgram)} {d' : List (S' × AnyProgram)} (h : RelatedKeys R d d') {s : S}
    {s' : S'} (hs : R s s') (program : AnyProgram) :
    RelatedKeys R (keepRepresentative programId s program d)
      (keepRepresentative programId s' program d') := by
  unfold keepRepresentative
  rw [← h.lookup hR hs]
  cases d.lookup s with
  | none => exact h.assign hR hs program
  | some prior =>
    dsimp only
    split
    · exact h.assign hR hs program
    · exact h

theorem representatives_relabelled (h : RelabelledCovariates states actions states' actions')
    (programs : List AnyProgram) : Agree (fun d d' => d.map Prod.snd = d'.map Prod.snd)
      neighborError (representatives ids programId states actions programs)
      (representatives ids programId states' actions' programs) := by
  let R s s' := ∃ p, programSignature ids states actions p = .ok s ∧
    programSignature ids states' actions' p = .ok s'
  have hR : ∀ s s' t t', R s s' → R t t' → (s = t ↔ s' = t') := by
    rintro s s' t t' ⟨p, hs, hs'⟩ ⟨q, ht, ht'⟩
    exact programSignature_relabelled ids h hs ht hs' ht'
  have hrun : ∀ d d', RelatedKeys R d d' → Agree (RelatedKeys R) neighborError
      (programs.foldlM (fun representatives program => do
        let signature ← programSignature ids states actions program
        return keepRepresentative programId signature program representatives) d)
      (programs.foldlM (fun representatives program => do
        let signature ← programSignature ids states' actions' program
        return keepRepresentative programId signature program representatives) d') := by
    induction programs with
    | nil => exact fun d d' hd => .inr ⟨d, d', rfl, rfl, hd⟩
    | cons program programs ih =>
      intro d d' hd
      rw [List.foldlM_cons, List.foldlM_cons]
      obtain ⟨he, he'⟩ | ⟨s, s', hs, hs', -⟩ := programSignature_agree ids h program
      · rw [he, he']
        exact .inl ⟨rfl, rfl⟩
      · rw [hs, hs']
        exact ih _ _ (keepRepresentative_related programId hR hd ⟨program, hs, hs'⟩ program)
  obtain ⟨he, he'⟩ | ⟨d, d', hd, hd', hrel⟩ := hrun [] [] .nil
  · exact .inl ⟨he, he'⟩
  · exact .inr ⟨d, d', hd, hd', hrel.map_snd⟩

end Acfqp.Coordinates

/-!
## Summaries of renamed rows

The counts and the widths of a pair of coordinates depend on neither the order of the rows nor the
names of their states.
-/

namespace Acfqp.Coordinates

open Library Acfqp.Graph

variable {κ κ' : Type}

namespace SupportRow

def rename (f : κ → κ') (row : SupportRow κ) : SupportRow κ' :=
  ⟨f row.stateKey, row.remainingHorizon, row.stateValue, row.actionValue, row.outcomes⟩

end SupportRow

theorem spread_of_perm {l l' : List ℚ} (h : l.Perm l') : spread l = spread l' := by
  rw [spread, spread, min?_of_perm h, max?_of_perm h]

theorem foldr_max_of_perm {l l' : List ℚ} (h : l.Perm l') : l.foldr max 0 = l'.foldr max 0 := by
  have : LeftCommutative (max : ℚ → ℚ → ℚ) := ⟨max_left_comm⟩
  exact h.foldr_eq 0

theorem transitionWidth_rename {f : κ → κ'} {rows : List (SupportRow κ)}
    {rows' : List (SupportRow κ')} (h : rows'.Perm (rows.map (SupportRow.rename f))) :
    transitionWidth rows' = transitionWidth rows := by
  have hdestinations : ∀ d, d ∈ rows'.flatMap (fun row => row.outcomes.map (·.1)) ↔
      d ∈ rows.flatMap (fun row => row.outcomes.map (·.1)) := by
    intro d
    simp only [List.mem_flatMap, h.mem_iff, List.mem_map]
    constructor
    · rintro ⟨_, ⟨row, hrow, rfl⟩, hd⟩
      exact ⟨row, hrow, hd⟩
    · rintro ⟨row, hrow, hd⟩
      exact ⟨_, ⟨row, hrow, rfl⟩, hd⟩
  have hspread : ∀ d, spread (rows'.map fun row => (row.distribution.lookup d).getD 0) =
      spread (rows.map fun row => (row.distribution.lookup d).getD 0) := by
    intro d
    refine spread_of_perm ((h.map _).trans (List.Perm.of_eq ?_))
    rw [List.map_map]
    rfl
  unfold transitionWidth
  refine foldr_max_of_perm (((distinct_perm hdestinations).map _).trans (List.Perm.of_eq ?_))
  exact List.map_congr_left fun d _ => hspread d

/-- The number of values of a coordinate does not depend on the order or the names. -/
theorem toFinset_rename {f : κ → κ'} {rows : List (SupportRow κ)} {rows' : List (SupportRow κ')}
    (h : rows'.Perm (rows.map (SupportRow.rename f))) (value : SupportRow κ → ℕ)
    (value' : SupportRow κ' → ℕ) (hvalue : ∀ row, value' (row.rename f) = value row) :
    (rows'.map value').toFinset = (rows.map value).toFinset := by
  ext n
  simp [h.mem_iff, hvalue]

variable [DecidableEq κ] [DecidableEq κ']

theorem availability_rename {f : κ → κ'} {rows : List (SupportRow κ)}
    {rows' : List (SupportRow κ')} (h : rows'.Perm (rows.map (SupportRow.rename f)))
    (hf : ∀ a ∈ rows, ∀ b ∈ rows, f a.stateKey = f b.stateKey → a.stateKey = b.stateKey)
    {row : SupportRow κ} (hrow : row ∈ rows) :
    availability rows' (f row.stateKey) = availability rows row.stateKey := by
  unfold availability
  ext value
  simp only [List.mem_toFinset, List.mem_map, List.mem_filter, decide_eq_true_eq, h.mem_iff]
  constructor
  · rintro ⟨_, ⟨⟨other, hother, rfl⟩, hkey⟩, rfl⟩
    exact ⟨other, ⟨hother, hf other hother row hrow hkey⟩, rfl⟩
  · rintro ⟨other, ⟨hother, hkey⟩, rfl⟩
    exact ⟨_, ⟨⟨other, hother, rfl⟩, congrArg f hkey⟩, rfl⟩

theorem card_stateKeys_rename {f : κ → κ'} {rows : List (SupportRow κ)}
    {rows' : List (SupportRow κ')} (h : rows'.Perm (rows.map (SupportRow.rename f)))
    (hf : ∀ a ∈ rows, ∀ b ∈ rows, f a.stateKey = f b.stateKey → a.stateKey = b.stateKey) :
    (rows'.map (·.stateKey)).toFinset.card = (rows.map (·.stateKey)).toFinset.card := by
  have himage : (rows'.map (·.stateKey)).toFinset =
      (rows.map (·.stateKey)).toFinset.image f := by
    ext k
    simp [h.mem_iff, SupportRow.rename]
  rw [himage]
  refine Finset.card_image_of_injOn fun a ha b hb hab => ?_
  simp only [Finset.mem_coe, List.mem_toFinset, List.mem_map] at ha hb
  obtain ⟨row, hrow, rfl⟩ := ha
  obtain ⟨other, hother, rfl⟩ := hb
  exact hf row hrow other hother hab

theorem summarize_rename (p q : GraphCoordinateProgram .integer) {f : κ → κ'}
    {rows : List (SupportRow κ)} {rows' : List (SupportRow κ')}
    (h : rows'.Perm (rows.map (SupportRow.rename f)))
    (hf : ∀ a ∈ rows, ∀ b ∈ rows, f a.stateKey = f b.stateKey → a.stateKey = b.stateKey) :
    summarize p q rows' = summarize p q rows := by
  have hlength : rows'.length = rows.length := by simpa using h.length_eq
  have hgroups : ∀ {M : Type} (F : List (SupportRow κ) → M) (F' : List (SupportRow κ') → M),
      (∀ group group', group'.Perm (group.map (SupportRow.rename f)) → F' group' = F group) →
      ((groupBy SupportRow.support rows').map fun g => F' g.2).Perm
        ((groupBy SupportRow.support rows).map fun g => F g.2) := by
    intro M F F' hF
    exact perm_map_groupBy _ _ _ _ h (fun _ _ => rfl)
      fun _ group group' _ hgroup => hF group group' hgroup
  have hsupports : (groupBy SupportRow.support rows').length =
      (groupBy SupportRow.support rows).length := by
    simpa using (hgroups (fun _ => ()) (fun _ => ()) fun _ _ _ => rfl).length_eq
  have hstates : (groupBy SupportRow.abstractState rows').length =
      (groupBy SupportRow.abstractState rows).length := by
    simpa using (perm_map_groupBy SupportRow.abstractState SupportRow.abstractState
      (fun _ => ()) (fun _ => ()) h (fun _ _ => rfl) fun _ _ _ _ _ => rfl).length_eq
  have hpairs := (hgroups (fun g => g.length * (g.length - 1) / 2)
    (fun g => g.length * (g.length - 1) / 2) fun group group' hgroup => by
      rw [show group'.length = group.length by simpa using hgroup.length_eq]).sum_eq
  have htransition := foldr_max_of_perm (hgroups transitionWidth transitionWidth
    fun group group' hgroup => transitionWidth_rename hgroup)
  have hreward := foldr_max_of_perm (hgroups (fun g => spread (g.map (·.expectedReward)))
    (fun g => spread (g.map (·.expectedReward))) fun group group' hgroup => by
      refine spread_of_perm ((hgroup.map _).trans (List.Perm.of_eq ?_))
      rw [List.map_map]
      rfl)
  have hvariants := (perm_map_groupBy SupportRow.abstractState SupportRow.abstractState
    (fun g => ((g.2.map (·.stateKey)).toFinset.image (availability rows)).card - 1)
    (fun g => ((g.2.map (·.stateKey)).toFinset.image (availability rows')).card - 1)
    h (fun _ _ => rfl) fun _ group group' hgroup hperm => by
      have himage : (group'.map (·.stateKey)).toFinset.image (availability rows') =
          (group.map (·.stateKey)).toFinset.image (availability rows) := by
        ext s
        simp only [Finset.mem_image, List.mem_toFinset, List.mem_map, hperm.mem_iff]
        constructor
        · rintro ⟨_, ⟨_, ⟨row, hrow, rfl⟩, rfl⟩, rfl⟩
          exact ⟨_, ⟨row, hrow, rfl⟩, (availability_rename h hf (hgroup row hrow)).symm⟩
        · rintro ⟨_, ⟨row, hrow, rfl⟩, rfl⟩
          exact ⟨_, ⟨_, ⟨row, hrow, rfl⟩, rfl⟩, availability_rename h hf (hgroup row hrow)⟩
      simp only [himage]).sum_eq
  have hkeys := card_stateKeys_rename h hf
  have hstateValues := toFinset_rename h (·.stateValue) (·.stateValue)
    fun _ => rfl
  have hactionValues := toFinset_rename h (·.actionValue) (·.actionValue)
    fun _ => rfl
  simp only [summarize, hlength, hsupports, hstates, hpairs, htransition, hreward, hvariants, hkeys,
    hstateValues, hactionValues]

end Acfqp.Coordinates
