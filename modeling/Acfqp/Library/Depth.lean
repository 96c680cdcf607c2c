import Acfqp.Library.Acyclic
import Acfqp.Library.Dict

/-!
# Depths of the nodes of a finite graph

A recursion along the edges, with a table of the nodes that it has finished, finds how many nodes
follow each other from every node, or meets a node that it has not finished yet. It finds depths
exactly when the graph has no cycle.
-/

namespace Acfqp.Library

variable {V ε : Type} {next : V → List V}

/-! ## Chains -/

/-- A recursion ends within `n` nested calls exactly when no chain of edges is longer. -/
theorem within_iff_isChain {n : ℕ} {v : V} : Within next n v ↔
    ∀ chain : List V, (v :: chain).IsChain (fun a b => b ∈ next a) → chain.length < n := by
  induction n generalizing v with
  | zero => simpa [Within] using ⟨[], by simp⟩
  | succ n ih =>
    simp only [Within, ih]
    constructor
    · intro h chain hchain
      cases chain with
      | nil => simp
      | cons c chain =>
        have hc := List.isChain_cons_cons.mp hchain
        have := h c hc.1 chain hc.2
        simpa using this
    · intro h c hc chain hchain
      have := h (c :: chain) (List.isChain_cons_cons.mpr ⟨hc, hchain⟩)
      simpa using this

theorem Within.of_transGen {n : ℕ} {v w : V} (h : Within next n v)
    (hvw : Relation.TransGen (fun a b => b ∈ next a) v w) : ∃ m < n, Within next m w := by
  induction hvw with
  | single hw =>
    cases n with
    | zero => cases h
    | succ n => exact ⟨n, Nat.lt_succ_self n, h _ hw⟩
  | tail _ hw ih =>
    obtain ⟨m, hm, hwithin⟩ := ih
    cases m with
    | zero => cases hwithin
    | succ m => exact ⟨m, by omega, hwithin _ hw⟩

theorem Within.acyclic {n : ℕ} {v : V} (h : Within next n v) :
    ¬ Relation.TransGen (fun a b => b ∈ next a) v v := by
  intro hcycle
  induction n using Nat.strong_induction_on with
  | _ n ih =>
    obtain ⟨m, hm, hwithin⟩ := h.of_transGen hcycle
    exact ih m hm hwithin

/-- The longest chain from the node has `d` edges. -/
def HasDepth (next : V → List V) (v : V) (d : ℕ) : Prop :=
  Within next (d + 1) v ∧ ¬ Within next d v

theorem HasDepth.lt_of_within {d n : ℕ} {v : V} (h : HasDepth next v d) (hn : Within next n v) :
    d < n := by
  by_contra hle
  exact h.2 (hn.mono (not_lt.mp hle))

theorem hasDepth_of_next {v : V} {d : ℕ} (hle : ∀ c ∈ next v, ∃ e, HasDepth next c e ∧ e < d)
    (hattained : d = 0 ∨ ∃ c ∈ next v, HasDepth next c (d - 1)) : HasDepth next v d := by
  refine ⟨fun c hc => ?_, fun hwithin => ?_⟩
  · obtain ⟨e, he, hed⟩ := hle c hc
    exact he.1.mono hed
  · cases d with
    | zero => cases hwithin
    | succ d =>
      obtain ⟨c, hc, hdepth⟩ := hattained.resolve_left (by simp)
      exact hdepth.2 (hwithin c hc)

/-! ## The recursion -/

section

variable [DecidableEq V] {cycle : ε}

def depthOf (next : V → List V) (cycle : ε) :
    ℕ → List V → List (V × ℕ) → V → Except ε (ℕ × List (V × ℕ))
  | 0, _, _, _ => .error cycle
  | calls + 1, visiting, cache, v =>
    if v ∈ visiting then .error cycle
    else
      match cache.lookup v with
      | some value => .ok (value, cache)
      | none => do
        let (value, cache) ← (next v).foldlM (fun (value, cache) c => do
          let (d, cache) ← depthOf next cycle calls (v :: visiting) cache c
          return (max value (d + 1), cache)) (0, cache)
        return (value, Dict.assign v value cache)

def layers (next : V → List V) (cycle : ε) (nodes : List V) : Except ε ℕ := do
  let (most, _) ← nodes.foldlM (fun (most, cache) v => do
    let (d, cache) ← depthOf next cycle (nodes.length + 1) [] cache v
    return (max most (d + 1), cache)) (0, [])
  return most

def DepthTable (next : V → List V) (cache : List (V × ℕ)) : Prop :=
  ∀ e ∈ cache, HasDepth next e.1 e.2

/-- Every node that was read is less deep than the bound, and one attains it. -/
structure DepthsRead (next : V → List V) (read : List V) (value : ℕ × List (V × ℕ)) : Prop where
  below : ∀ c ∈ read, ∃ e, HasDepth next c e ∧ e < value.1
  attained : value.1 = 0 ∨ ∃ c ∈ read, HasDepth next c (value.1 - 1)
  table : DepthTable next value.2

omit [DecidableEq V] in
theorem DepthsRead.snoc {read : List V} {value : ℕ × List (V × ℕ)} {c : V} {d : ℕ}
    {cache : List (V × ℕ)} (h : DepthsRead next read value) (hd : HasDepth next c d)
    (hcache : DepthTable next cache) :
    DepthsRead next (read ++ [c]) (max value.1 (d + 1), cache) := by
  refine ⟨fun x hx => ?_, ?_, hcache⟩
  · rcases List.mem_append.mp hx with hx | hx
    · obtain ⟨e, he, hlt⟩ := h.below x hx
      exact ⟨e, he, lt_max_of_lt_left hlt⟩
    · obtain rfl := List.mem_singleton.mp hx
      exact ⟨d, hd, lt_max_of_lt_right (Nat.lt_succ_self d)⟩
  · right
    rcases le_total value.1 (d + 1) with hle | hle
    · exact ⟨c, by simp, by simpa [hle] using hd⟩
    · obtain ⟨x, hx, hxd⟩ := h.attained.resolve_left (by omega)
      exact ⟨x, by simp [hx], by simpa [hle] using hxd⟩

theorem depthOf_spec (calls : ℕ) {visiting : List V} {cache cache' : List (V × ℕ)} {v : V} {d : ℕ}
    (hcache : DepthTable next cache)
    (h : depthOf next cycle calls visiting cache v = .ok (d, cache')) :
    HasDepth next v d ∧ DepthTable next cache' := by
  induction calls generalizing visiting cache cache' v d with
  | zero => cases h
  | succ calls ih =>
    unfold depthOf at h
    split at h
    · cases h
    · split at h
      · rename_i value hvalue
        cases h
        exact ⟨hcache _ (Dict.lookup_mem hvalue), hcache⟩
      · obtain ⟨⟨value, middle⟩, hread, h⟩ := bind_eq_ok.mp h
        cases pure_eq_ok.mp h
        have hdepths := foldlM_prefix (P := DepthsRead next) ⟨by simp, .inl rfl, hcache⟩
          (fun read c before after _ hbefore hc => by
            obtain ⟨⟨e, next'⟩, he, hc⟩ := bind_eq_ok.mp hc
            cases pure_eq_ok.mp hc
            obtain ⟨hdepth, htable⟩ := ih hbefore.table he
            exact hbefore.snoc hdepth htable) hread
        have hdepth := hasDepth_of_next hdepths.below hdepths.attained
        refine ⟨hdepth, fun e he => ?_⟩
        rcases Dict.mem_assign he with rfl | he
        · exact hdepth
        · exact hdepths.table e he

theorem depthOf_raises {nodes : List V} (hclosed : ∀ v ∈ nodes, ∀ c ∈ next v, c ∈ nodes)
    (calls : ℕ) {visiting : List V} {cache : List (V × ℕ)} {v : V} {e : ε} (hv : v ∈ nodes)
    (hnodup : visiting.Nodup) (hvisiting : ∀ w ∈ visiting, w ∈ nodes ∧
      Relation.TransGen (fun a b => b ∈ next a) w v)
    (hcalls : nodes.length < calls + visiting.length)
    (h : depthOf next cycle calls visiting cache v = .error e) :
    e = cycle ∧ ∃ w ∈ nodes, Relation.TransGen (fun a b => b ∈ next a) w w := by
  induction calls generalizing visiting cache v with
  | zero =>
    have := (hnodup.subperm fun w hw => (hvisiting w hw).1).length_le
    omega
  | succ calls ih =>
    unfold depthOf at h
    split at h
    · rename_i hmem
      cases h
      exact ⟨rfl, v, hv, (hvisiting v hmem).2⟩
    · rename_i hmem
      split at h
      · cases h
      · cases hread : (next v).foldlM (fun (x : ℕ × List (V × ℕ)) c => do
            let (d, cache) ← depthOf next cycle calls (v :: visiting) x.2 c
            return (max x.1 (d + 1), cache)) (0, cache) with
        | ok read =>
          rw [hread] at h
          cases h
        | error e' =>
          rw [hread] at h
          cases h
          obtain ⟨pre, c, post, before, hsplit, -, hc⟩ := foldlM_eq_error hread
          have hcmem : c ∈ next v := hsplit ▸ by simp
          cases hdepth : depthOf next cycle calls (v :: visiting) before.2 c with
          | ok read =>
            rw [hdepth] at hc
            cases hc
          | error e'' =>
            rw [hdepth] at hc
            cases hc
            refine ih (hclosed v hv c hcmem) (List.nodup_cons.mpr ⟨hmem, hnodup⟩) (fun w hw => ?_)
              (by simp only [List.length_cons]; omega) hdepth
            rcases List.mem_cons.mp hw with rfl | hw
            · exact ⟨hv, .single hcmem⟩
            · exact ⟨(hvisiting w hw).1, (hvisiting w hw).2.tail hcmem⟩

/-- The nodes have at most `n` layers exactly when every recursion ends within `n` calls. -/
theorem layers_le_iff {nodes : List V} (hclosed : ∀ v ∈ nodes, ∀ c ∈ next v, c ∈ nodes) {n : ℕ} :
    (∃ most, layers next cycle nodes = .ok most ∧ most ≤ n) ↔ ∀ v ∈ nodes, Within next n v := by
  constructor
  · rintro ⟨most, hmost, hle⟩ v hv
    obtain ⟨⟨most', cache⟩, hread, hmost⟩ := bind_eq_ok.mp hmost
    cases pure_eq_ok.mp hmost
    have hdepths := foldlM_prefix (P := DepthsRead next) ⟨by simp, .inl rfl, by simp [DepthTable]⟩
      (fun read c before after _ hbefore hc => by
        obtain ⟨⟨e, next'⟩, he, hc⟩ := bind_eq_ok.mp hc
        cases pure_eq_ok.mp hc
        obtain ⟨hdepth, htable⟩ := depthOf_spec _ hbefore.table he
        exact hbefore.snoc hdepth htable) hread
    obtain ⟨e, he, hlt⟩ := hdepths.below v hv
    exact he.1.mono (by simp only at hlt; omega)
  · intro hwithin
    obtain ⟨⟨most, cache⟩, hread, hdepths⟩ := foldlM_exists (P := DepthsRead next)
      (f := fun (x : ℕ × List (V × ℕ)) v => do
        let (d, cache) ← depthOf next cycle (nodes.length + 1) [] x.2 v
        return (max x.1 (d + 1), cache)) (b := (0, [])) (l := nodes)
      ⟨by simp, .inl rfl, by simp [DepthTable]⟩ (fun read v post before hsplit hbefore => by
        have hv : v ∈ nodes := hsplit ▸ by simp
        cases hdepth : depthOf next cycle (nodes.length + 1) [] before.2 v with
        | error e =>
          obtain ⟨-, w, hw, hcycle⟩ := depthOf_raises hclosed _ hv List.nodup_nil (by simp)
            (by simp) hdepth
          exact absurd hcycle (hwithin w hw).acyclic
        | ok found =>
          obtain ⟨hfound, htable⟩ := depthOf_spec _ hbefore.table hdepth
          exact ⟨_, rfl, hbefore.snoc hfound htable⟩)
    refine ⟨most, bind_eq_ok.mpr ⟨_, hread, rfl⟩, ?_⟩
    rcases hdepths.attained with hzero | ⟨v, hv, hdepth⟩
    · simp only at hzero
      omega
    · have := hdepth.lt_of_within (hwithin v hv)
      simp only at this
      omega

end

end Acfqp.Library
