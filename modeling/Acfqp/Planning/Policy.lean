import Acfqp.Core
import Acfqp.Library.Dict

/-!
# Finite-horizon deterministic policies

Policies are query results, not part of the reusable model. A decision is indexed by the state
(ground or abstract) and the remaining horizon, so that policies need not be stationary.
-/

namespace Acfqp.Planning

open Library

variable {S A : Type}

/-- The action of one state-time pair. -/
structure PolicyDecision (S A : Type) where
  remaining : ℕ
  state : S
  action : A
  remaining_pos : 0 < remaining

namespace PolicyDecision

def make (remaining : ℕ) (state : S) (action : A) : Except PyError (PolicyDecision S A) :=
  if h : 0 < remaining then .ok ⟨remaining, state, action, h⟩
  else .error (.valueError "policy decisions require a positive remaining horizon")

def key (d : PolicyDecision S A) : ℕ × S := (d.remaining, d.state)

theorem make_eq_ok {n : ℕ} {s : S} {a : A} {d : PolicyDecision S A} :
    make n s a = .ok d ↔ d.remaining = n ∧ d.state = s ∧ d.action = a := by
  unfold make
  split
  · rename_i h
    constructor
    · intro hd
      cases hd
      simp
    · rintro ⟨rfl, rfl, rfl⟩
      rfl
  · rename_i h
    simp only [reduceCtorEq, false_iff, not_and]
    intro hn
    exact absurd (hn ▸ d.remaining_pos) h

end PolicyDecision

structure FiniteHorizonPolicy (S A : Type) where
  decisions : List (PolicyDecision S A)
  nodup : (decisions.map PolicyDecision.key).Nodup

namespace FiniteHorizonPolicy

def empty : FiniteHorizonPolicy S A := ⟨[], by simp⟩

section Construction

variable [DecidableEq S] [PyRepr S]

/-- The check of `FiniteHorizonPolicy.__post_init__`: no state-time pair is decided twice. -/
def make (decisions : List (PolicyDecision S A)) : Except PyError (FiniteHorizonPolicy S A) :=
  if h : (decisions.map PolicyDecision.key).Nodup then .ok ⟨decisions, h⟩
  else .error (.valueError ("duplicate policy decision for " ++
    (((repeated? [] (decisions.map PolicyDecision.key)).map pyRepr).getD "")))

def decisionKey [PyRepr A] (d : PolicyDecision S A) : ℤ ×ₗ String ×ₗ String :=
  toLex (-(d.remaining : ℤ), toLex (pyRepr d.state, pyRepr d.action))

def fromMapping [PyRepr A] (mapping : List ((ℕ × S) × A)) :
    Except PyError (FiniteHorizonPolicy S A) := do
  let decisions ← mapping.mapM fun item => PolicyDecision.make item.1.1 item.1.2 item.2
  make (sortBy decisionKey decisions)

end Construction

section Lookup

variable [DecidableEq S] [PyRepr S]

/-- The policy's decision for a state-time pair. -/
def action (policy : FiniteHorizonPolicy S A) (state : S) (remaining : ℕ) :
    Except PyError A :=
  orRaise ((policy.decisions.find? fun d => d.remaining = remaining ∧ d.state = state).map
      PolicyDecision.action)
    (.keyError s!"policy has no decision for state={pyRepr state}, remaining={remaining}")

end Lookup

def asDict (policy : FiniteHorizonPolicy S A) : List ((ℕ × S) × A) :=
  policy.decisions.map fun d => (d.key, d.action)

/-- Stable ordering key used for deterministic tie breaking. -/
def signature [PyRepr S] [PyRepr A] (policy : FiniteHorizonPolicy S A) :
    List (ℕ ×ₗ String ×ₗ String) :=
  policy.decisions.map fun d =>
    toLex (d.remaining, toLex (pyRepr d.state, pyRepr d.action))

theorem nodup_keys_asDict (policy : FiniteHorizonPolicy S A) :
    (policy.asDict.map Prod.fst).Nodup := by
  rw [asDict, List.map_map]
  exact policy.nodup

theorem action_eq_ok [DecidableEq S] [PyRepr S] {policy : FiniteHorizonPolicy S A} {s : S}
    {n : ℕ} {a : A} : policy.action s n = .ok a ↔ ((n, s), a) ∈ policy.asDict := by
  rw [action, orRaise_eq_ok, Option.map_eq_some_iff, asDict, List.mem_map]
  constructor
  · rintro ⟨d, hd, rfl⟩
    obtain ⟨rfl, rfl⟩ : d.remaining = n ∧ d.state = s := by simpa using List.find?_some hd
    exact ⟨d, List.mem_of_find?_eq_some hd, rfl⟩
  · rintro ⟨d, hd, hda⟩
    obtain ⟨⟨hn, hs⟩, ha⟩ : (d.remaining = n ∧ d.state = s) ∧ d.action = a := by
      simpa [PolicyDecision.key] using hda
    have hp : (fun e : PolicyDecision S A => decide (e.remaining = n ∧ e.state = s)) d = true := by
      simp [hn, hs]
    cases hf : policy.decisions.find? fun e => decide (e.remaining = n ∧ e.state = s) with
    | none => exact absurd hp (List.find?_eq_none.mp hf d hd)
    | some e =>
      -- the keys are distinct, so that the first match is the only one
      have he : e.remaining = n ∧ e.state = s := by simpa using List.find?_some hf
      have hkey : e.key = d.key := by simp [PolicyDecision.key, he, hn, hs]
      have := List.inj_on_of_nodup_map policy.nodup (List.mem_of_find?_eq_some hf) hd hkey
      exact ⟨e, rfl, by rw [this, ha]⟩

theorem mem_asDict_of_fromMapping [DecidableEq S] [PyRepr S] [PyRepr A]
    {mapping : List ((ℕ × S) × A)} {policy : FiniteHorizonPolicy S A}
    (h : fromMapping mapping = .ok policy) (x : (ℕ × S) × A) :
    x ∈ policy.asDict ↔ x ∈ mapping := by
  obtain ⟨ds, hds, h⟩ := bind_eq_ok.mp h
  have hpolicy : policy.decisions = sortBy decisionKey ds := by
    unfold make at h
    split at h
    · cases h; rfl
    · cases h
  have hmap : ds.map (fun d => (d.key, d.action)) = mapping.map id :=
    map_of_mapM hds fun x _ d hd => by
      obtain ⟨h1, h2, h3⟩ := PolicyDecision.make_eq_ok.mp hd
      simp [PolicyDecision.key, h1, h2, h3]
  rw [List.map_id] at hmap
  rw [asDict, hpolicy, ← hmap]
  simp

/-- A dictionary of positive remaining horizons is a policy. -/
theorem fromMapping_returns [DecidableEq S] [PyRepr S] [PyRepr A]
    {mapping : List ((ℕ × S) × A)} (hpos : ∀ x ∈ mapping, 0 < x.1.1)
    (hnodup : (mapping.map Prod.fst).Nodup) : ∃ policy, fromMapping mapping = .ok policy := by
  have hmk : ∀ x ∈ mapping, ∃ d : PolicyDecision S A,
      PolicyDecision.make x.1.1 x.1.2 x.2 = .ok d := fun x hx =>
    ⟨⟨x.1.1, x.1.2, x.2, hpos x hx⟩, PolicyDecision.make_eq_ok.mpr ⟨rfl, rfl, rfl⟩⟩
  obtain ⟨ds, hds⟩ := mapM_returns hmk
  have hkeys : ds.map PolicyDecision.key = mapping.map Prod.fst :=
    map_of_mapM hds fun x _ d hd => by
      obtain ⟨h1, h2, -⟩ := PolicyDecision.make_eq_ok.mp hd
      simp [PolicyDecision.key, h1, h2]
  have hn : ((sortBy decisionKey ds).map PolicyDecision.key).Nodup :=
    nodup_map_sortBy (by rw [hkeys]; exact hnodup)
  refine ⟨⟨_, hn⟩, ?_⟩
  rw [fromMapping, hds]
  simp [bind, Except.bind, make, hn]

end FiniteHorizonPolicy

end Acfqp.Planning
