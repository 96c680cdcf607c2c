import Mathlib.Data.List.Nodup
import Mathlib.Data.List.Perm.Basic
import Mathlib.Logic.Relation

/-!
# Explorations

A search takes nodes from a queue in any order, and queues the successors that it has not queued
before. Between two steps every reached node is visited or queued, once, and the successors of a
visited node are too, so that an empty queue leaves exactly the reachable nodes visited.
-/

namespace Acfqp.Library

variable {N : Type} {R : N → N → Prop} {start s t : N} {visited queue fresh : List N}

/-- What holds of the visited and the queued nodes between two steps. -/
structure Exploration (R : N → N → Prop) (start : N) (visited queue : List N) : Prop where
  start_mem : start ∈ visited ∨ start ∈ queue
  reached : ∀ s ∈ visited ++ queue, Relation.ReflTransGen R start s
  closed : ∀ s ∈ visited, ∀ t, R s t → t ∈ visited ∨ t ∈ queue
  nodup : (visited ++ queue).Nodup

namespace Exploration

theorem initial (R : N → N → Prop) (start : N) : Exploration R start [] [start] where
  start_mem := .inr (List.mem_singleton_self _)
  reached s hs := by
    obtain rfl := List.mem_singleton.mp hs
    exact .refl
  closed s hs := by cases hs
  nodup := List.nodup_singleton _

/-- The order of the queue does not matter. -/
theorem reorder {queue' : List N} (h : Exploration R start visited queue)
    (hperm : queue.Perm queue') : Exploration R start visited queue' where
  start_mem := h.start_mem.imp_right hperm.mem_iff.mp
  reached s hs := h.reached s ((hperm.append_left visited).mem_iff.mpr hs)
  closed s hs t ht := (h.closed s hs t ht).imp_right hperm.mem_iff.mp
  nodup := (hperm.append_left visited).nodup_iff.mp h.nodup

/-- One step: a node leaves the queue, and its fresh successors enter it. -/
theorem step (h : Exploration R start visited (s :: queue)) (hfresh : fresh.Nodup)
    (hsound : ∀ t ∈ fresh, R s t ∧ t ∉ visited ∧ t ∉ s :: queue)
    (hcomplete : ∀ t, R s t → t ∈ fresh ∨ t ∈ visited ∨ t ∈ s :: queue) :
    Exploration R start (visited ++ [s]) (queue ++ fresh) := by
  have hperm : ((visited ++ [s]) ++ (queue ++ fresh)).Perm ((visited ++ s :: queue) ++ fresh) := by
    simp
  refine ⟨?_, fun t ht => ?_, fun t ht u hu => ?_, ?_⟩
  · rcases h.start_mem with hstart | hstart
    · exact .inl (List.mem_append_left _ hstart)
    · rcases List.mem_cons.mp hstart with rfl | hstart
      · exact .inl (List.mem_append_right _ (List.mem_singleton_self _))
      · exact .inr (List.mem_append_left _ hstart)
  · rcases List.mem_append.mp (hperm.mem_iff.mp ht) with ht | ht
    · exact h.reached t ht
    · exact (h.reached s (List.mem_append_right _ List.mem_cons_self)).tail (hsound t ht).1
  · have hsplit : u ∈ fresh ∨ u ∈ visited ∨ u ∈ s :: queue := by
      rcases List.mem_append.mp ht with ht | ht
      · exact .inr (h.closed t ht u hu)
      · exact hcomplete u (List.mem_singleton.mp ht ▸ hu)
    simp only [List.mem_append, List.mem_cons, List.not_mem_nil, or_false] at hsplit ⊢
    tauto
  · refine hperm.nodup_iff.mpr (List.Nodup.append h.nodup hfresh ?_)
    refine List.disjoint_left.mpr fun t ht htfresh => ?_
    exact (List.mem_append.mp ht).elim (hsound t htfresh).2.1 (hsound t htfresh).2.2

/-- When nothing is queued, the visited nodes are the reachable ones. -/
theorem mem_visited (h : Exploration R start visited []) :
    s ∈ visited ↔ Relation.ReflTransGen R start s := by
  constructor
  · intro hs
    exact h.reached s (List.mem_append_left _ hs)
  · intro hs
    induction hs with
    | refl => exact h.start_mem.resolve_right (List.not_mem_nil)
    | tail _ hstep ih => exact (h.closed _ ih _ hstep).resolve_right (List.not_mem_nil)

end Exploration

end Acfqp.Library
