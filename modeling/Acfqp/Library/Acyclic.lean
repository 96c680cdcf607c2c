import Acfqp.Library.Loops

/-!
# Acyclic finite graphs

A depth-first visit lists every node after its successors, or raises when it meets a node that
it is still visiting. Such a list orders its nodes: nothing on it comes back to itself, and a
recursion along the edges ends within as many calls as the list is long.
-/

namespace Acfqp.Library

variable {V ε : Type} {next : V → List V}

/-- Every listed node has its successors further down the list. -/
def SuccessorsFirst (next : V → List V) : List V → Prop
  | [] => True
  | v :: rest => (∀ c ∈ next v, c ∈ rest) ∧ SuccessorsFirst next rest

/-! ## Depth -/

/-- A recursion along the edges from the node ends within `n` nested calls. -/
def Within (next : V → List V) : ℕ → V → Prop
  | 0, _ => False
  | n + 1, v => ∀ c ∈ next v, Within next n c

theorem Within.mono {m n : ℕ} (hmn : m ≤ n) {v : V} (h : Within next m v) : Within next n v := by
  induction m generalizing n v with
  | zero => cases h
  | succ m ih =>
    cases n with
    | zero => omega
    | succ n => exact fun c hc => ih (by omega) (h c hc)

theorem SuccessorsFirst.within {l : List V} (h : SuccessorsFirst next l) {v : V} (hv : v ∈ l) :
    Within next l.length v := by
  induction l generalizing v with
  | nil => cases hv
  | cons x rest ih =>
    rcases List.mem_cons.mp hv with rfl | hv
    · exact fun c hc => ih h.2 (h.1 c hc)
    · exact (ih h.2 hv).mono (Nat.le_succ _)

section Visit

variable [DecidableEq V] {cycle : ε}

def visit (next : V → List V) (cycle : ε) : ℕ → List V → List V → V → Except ε (List V)
  | 0, _, _, _ => .error cycle
  | depth + 1, visiting, visited, v =>
    if v ∈ visiting then .error cycle
    else if v ∈ visited then .ok visited
    else do
      let visited ← (next v).foldlM (visit next cycle depth (v :: visiting)) visited
      .ok (v :: visited)

/-- What a visit leaves behind: more nodes, in order, none of them still being visited. -/
structure Visited (next : V → List V) (visiting before after : List V) : Prop where
  kept : ∀ w ∈ before, w ∈ after
  fresh : ∀ w ∈ after, w ∈ before ∨ w ∉ visiting
  nodup : before.Nodup → after.Nodup
  ordered : SuccessorsFirst next before → SuccessorsFirst next after

omit [DecidableEq V] in
theorem Visited.refl (visiting l : List V) : Visited next visiting l l :=
  ⟨fun _ => id, fun _ => .inl, id, id⟩

omit [DecidableEq V] in
theorem Visited.trans {visiting l l' l'' : List V} (h : Visited next visiting l l')
    (h' : Visited next visiting l' l'') : Visited next visiting l l'' where
  kept w hw := h'.kept w (h.kept w hw)
  fresh w hw := (h'.fresh w hw).elim (h.fresh w) .inr
  nodup hn := h'.nodup (h.nodup hn)
  ordered ho := h'.ordered (h.ordered ho)

theorem visit_visited (depth : ℕ) {visiting before after : List V} {v : V}
    (h : visit next cycle depth visiting before v = .ok after) :
    Visited next visiting before after ∧ v ∈ after := by
  induction depth generalizing visiting before after v with
  | zero => cases h
  | succ depth ih =>
    unfold visit at h
    split at h
    · cases h
    · rename_i hvisiting
      split at h
      · cases h
        exact ⟨.refl _ _, ‹_›⟩
      · rename_i hnew
        obtain ⟨middle, hmiddle, h⟩ := bind_eq_ok.mp h
        cases h
        -- After its successors, the node itself is still not listed.
        obtain ⟨hall, hvisited⟩ := foldlM_prefix (P := fun read l =>
          (∀ c ∈ read, c ∈ l) ∧ Visited next (v :: visiting) before l)
          ⟨by simp, .refl _ _⟩ (fun read c l l' _ hl hc => by
            obtain ⟨hstep, hmem⟩ := ih hc
            refine ⟨fun x hx => ?_, hl.2.trans hstep⟩
            rcases List.mem_append.mp hx with hx | hx
            · exact hstep.kept x (hl.1 x hx)
            · exact List.mem_singleton.mp hx ▸ hmem) hmiddle
        have hv : v ∉ middle := fun hv => (hvisited.fresh v hv).elim hnew fun h => h (by simp)
        refine ⟨⟨fun w hw => by simp [hvisited.kept w hw], fun w hw => ?_, fun hn => ?_,
          fun ho => ⟨hall, hvisited.ordered ho⟩⟩, by simp⟩
        · rcases List.mem_cons.mp hw with rfl | hw
          · exact .inr hvisiting
          · exact (hvisited.fresh w hw).imp_right fun h h' => h (by simp [h'])
        · exact List.nodup_cons.mpr ⟨hv, hvisited.nodup hn⟩

theorem visit_subset {U : V → Prop} (hU : ∀ v, U v → ∀ c ∈ next v, U c) (depth : ℕ)
    {visiting before after : List V} {v : V} (hv : U v) (hbefore : ∀ w ∈ before, U w)
    (h : visit next cycle depth visiting before v = .ok after) : ∀ w ∈ after, U w := by
  induction depth generalizing visiting before after v with
  | zero => cases h
  | succ depth ih =>
    unfold visit at h
    split at h
    · cases h
    · split at h
      · cases h
        exact hbefore
      · obtain ⟨middle, hmiddle, h⟩ := bind_eq_ok.mp h
        cases h
        refine List.forall_mem_cons.mpr ⟨hv, ?_⟩
        exact foldlM_invariant (P := fun l => ∀ w ∈ l, U w)
          (fun l hl c hc l' hl' => ih (hU v hv c hc) hl hl') hbefore hmiddle

/-- Visiting every node of a closed list lists exactly its nodes, each once and after its
successors. -/
theorem visitAll_spec {depth : ℕ} {nodes order : List V}
    (hclosed : ∀ v ∈ nodes, ∀ c ∈ next v, c ∈ nodes)
    (h : nodes.foldlM (visit next cycle depth []) [] = .ok order) :
    SuccessorsFirst next order ∧ order.length ≤ nodes.length ∧ ∀ v ∈ nodes, v ∈ order := by
  obtain ⟨hall, hvisited⟩ := foldlM_prefix (P := fun read l =>
    (∀ c ∈ read, c ∈ l) ∧ Visited next [] [] l) ⟨by simp, .refl _ _⟩
    (fun read c l l' _ hl hc => by
      obtain ⟨hstep, hmem⟩ := visit_visited depth hc
      refine ⟨fun x hx => ?_, hl.2.trans hstep⟩
      rcases List.mem_append.mp hx with hx | hx
      · exact hstep.kept x (hl.1 x hx)
      · exact List.mem_singleton.mp hx ▸ hmem) h
  have hsub : ∀ w ∈ order, w ∈ nodes :=
    foldlM_invariant (P := fun l => ∀ w ∈ l, w ∈ nodes)
      (fun l hl v hv l' hl' => visit_subset hclosed depth hv hl hl') (by simp) h
  refine ⟨hvisited.ordered trivial, ?_, hall⟩
  exact ((hvisited.nodup List.nodup_nil).subperm hsub).length_le

end Visit

end Acfqp.Library
