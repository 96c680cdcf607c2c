import Acfqp.Library.Ordered

/-!
# Finite, exactly enumerable decision processes

The physical kernel is kept apart from query-specific rewards and goals: it exposes named
additive reward features, and a query weighs them. Probabilities and features are exact
rationals. A kernel method can raise, so that the restricted views of a kernel are kernels too.
-/

namespace Acfqp

open Library

/-- An exception, by its class and message. -/
inductive PyError where
  | keyError (message : String)
  | valueError (message : String)
  | typeError (message : String)
  | assertionError (message : String)
  | permissionError (message : String)
  | runtimeError (message : String)
  deriving DecidableEq, Repr

/-- The printed form that fixes every deterministic order and appears in messages. -/
class PyRepr (α : Type) where
  repr : α → String

/-- Python's `repr`. -/
def pyRepr {α : Type} [PyRepr α] (a : α) : String := PyRepr.repr a

instance : PyRepr ℕ := ⟨toString⟩
instance : PyRepr ℚ := ⟨fun q => s!"Fraction({q.num}, {q.den})"⟩
instance : PyRepr Bool := ⟨fun b => if b then "True" else "False"⟩

/-- A text is quoted by apostrophes, unless it holds one and no quotation mark. -/
def stringQuote (text : List Char) : Char :=
  if '\x27' ∈ text ∧ '\x22' ∉ text then '\x22' else '\x27'

/-- One character of a printed text. Characters past Latin-1 are taken as printable. -/
def escapeChar (quote c : Char) : List Char :=
  if c = quote ∨ c = '\\' then ['\\', c]
  else if c = '\t' then ['\\', 't']
  else if c = '\n' then ['\\', 'n']
  else if c = '\r' then ['\\', 'r']
  else if c.toNat < 0x20 ∨ 0x7f ≤ c.toNat ∧ c.toNat ≤ 0xa0 ∨ c.toNat = 0xad then
    ['\\', 'x', (c.toNat / 16).digitChar, (c.toNat % 16).digitChar]
  else [c]

instance : PyRepr String :=
  ⟨fun s =>
    let quote := stringQuote s.toList
    String.ofList (quote :: s.toList.flatMap (escapeChar quote) ++ [quote])⟩

instance {α β : Type} [PyRepr α] [PyRepr β] : PyRepr (α × β) :=
  ⟨fun p => s!"({pyRepr p.1}, {pyRepr p.2})"⟩

/-- Lists stand for tuples, whose printed form marks the singletons. -/
instance {α : Type} [PyRepr α] : PyRepr (List α) :=
  ⟨fun l => "(" ++ ", ".intercalate (l.map pyRepr) ++ if l.length = 1 then ",)" else ")"⟩

def pyReprList {α : Type} [PyRepr α] (l : List α) : String :=
  "[" ++ ", ".intercalate (l.map pyRepr) ++ "]"

/-- The printed form of a set, in the order of `l`. -/
def pyReprSet {α : Type} [PyRepr α] (l : List α) : String :=
  if l.isEmpty then "set()" else "\x7b" ++ ", ".intercalate (l.map pyRepr) ++ "\x7d"

/-- `sorted(values, key=repr)`. -/
def deterministicOrder {α : Type} [PyRepr α] (values : List α) : List α := sortBy pyRepr values

/-- Named additive reward features, each name at most once. -/
abbrev Features := List (String × ℚ)

def Features.WellNamed (features : Features) : Prop :=
  (∀ f ∈ features, f.1 ≠ "") ∧ (features.map Prod.fst).Nodup

instance (features : Features) : Decidable features.WellNamed :=
  inferInstanceAs (Decidable (_ ∧ _))

/-- One atom of an exact transition distribution. `failure` is the one-time cost of entering
the absorbing failure set. -/
structure Outcome (S : Type) where
  probability : ℚ
  nextState : S
  rewardFeatures : Features
  failure : Bool
  terminal : Bool
  probability_pos : 0 < probability
  probability_le_one : probability ≤ 1
  wellNamed : rewardFeatures.WellNamed

/-- The message about the first feature that breaks `Features.WellNamed`. -/
def featureError (seen : List String) : Features → PyError
  | [] => .valueError "reward-feature names must be nonempty"
  | (name, _) :: rest =>
    if name = "" then .valueError "reward-feature names must be nonempty"
    else if name ∈ seen then .valueError s!"duplicate reward feature: {name}"
    else featureError (name :: seen) rest

/-- The checks of `Outcome.__post_init__`. -/
def Outcome.make {S : Type} (probability : ℚ) (nextState : S) (rewardFeatures : Features)
    (failure terminal : Bool) : Except PyError (Outcome S) :=
  if hp : 0 < probability ∧ probability ≤ 1 then
    if hf : rewardFeatures.WellNamed then
      .ok ⟨probability, nextState, rewardFeatures, failure, terminal, hp.1, hp.2, hf⟩
    else .error (featureError [] rewardFeatures)
  else .error (.valueError "outcome probability must lie in (0, 1]")

theorem Outcome.make_eq_ok {S : Type} {p : ℚ} {t : S} {features : Features} {f e : Bool}
    {o : Outcome S} (h : Outcome.make p t features f e = .ok o) :
    o.probability = p ∧ o.nextState = t ∧ o.rewardFeatures = features ∧ o.failure = f ∧
      o.terminal = e := by
  unfold Outcome.make at h
  split at h
  · split at h
    · cases h; simp
    · cases h
  · cases h

/-- A finite decision process. The registries and the goal checker are optional; `goalReached`
is the state's own answer to a goal when the kernel registers no checker. -/
structure Kernel (S A : Type) where
  horizon : ℕ
  initialDistribution : List (ℚ × S)
  actions : S → Except PyError (List A)
  step : S → A → Except PyError (List (Outcome S))
  isTerminal : S → Bool
  registeredRewardFeatures : Option (List String)
  registeredGoals : Option (List String)
  rewardUpperBound : Option (ℕ → Features → String → ℚ)
  isGoal : Option (S → String → Bool)
  goalReached : String → S → Bool

/-- A per-query request over a reusable model. `rewardWeights` are in raw feature units and
`normalizer` is a proved positive upper bound on raw total return. -/
structure QuerySpec (S : Type) where
  initialDistribution : List (ℚ × S)
  horizon : ℕ
  rewardWeights : Features
  goal : String
  delta : ℚ
  normalizer : ℚ
  normalizerProofId : String
  initial_pos : ∀ p ∈ initialDistribution, 0 < p.1
  initial_nodup : (initialDistribution.map Prod.snd).Nodup
  initial_sum : (initialDistribution.map Prod.fst).sum = 1
  weights_wellNamed : rewardWeights.WellNamed
  delta_registered : delta ∈ [(0 : ℚ), 1 / 20, 1 / 10]
  normalizer_pos : 0 < normalizer
  proof_named : normalizerProofId ≠ ""

theorem QuerySpec.initial_ne_nil {S : Type} (query : QuerySpec S) :
    query.initialDistribution ≠ [] := by
  intro h
  have := query.initial_sum
  simp [h] at this

end Acfqp

/-!
## Content identifiers

A content identifier is a full lowercase SHA-256 digest. The digests themselves are parameters of
what uses them.
-/

namespace Acfqp

/-- Exactly 64 lowercase hexadecimal characters. -/
def IsContentId (value : String) : Prop :=
  value.length = 64 ∧ ∀ c ∈ value.toList, c ∈ "0123456789abcdef".toList

instance (value : String) : Decidable (IsContentId value) :=
  inferInstanceAs (Decidable (_ ∧ _))

/-- A string that `parse_content_id` accepts. -/
structure ContentId where
  value : String
  wellFormed : IsContentId value
  deriving DecidableEq

theorem ContentId.value_injective : Function.Injective ContentId.value := by
  rintro ⟨value, _⟩ ⟨_, _⟩ rfl
  rfl

/-- Identifiers are sorted as strings. -/
instance : LinearOrder ContentId := LinearOrder.lift' ContentId.value ContentId.value_injective

/-! ## Numbered identifiers -/

/-- The 64 hexadecimal digits of a number, the lowest first. -/
def hexDigits (n : ℕ) : List Char :=
  (List.range 64).map fun i => "0123456789abcdef".toList.getD (n / 16 ^ i % 16) '0'

theorem isContentId_hexDigits (n : ℕ) : IsContentId (String.ofList (hexDigits n)) := by
  refine ⟨by simp [hexDigits], fun c hc => ?_⟩
  rw [String.toList_ofList, hexDigits, List.mem_map] at hc
  obtain ⟨i, -, rfl⟩ := hc
  have hlt : n / 16 ^ i % 16 < "0123456789abcdef".toList.length := Nat.mod_lt _ (by decide)
  rw [List.getD_eq_getElem _ _ hlt]
  exact List.getElem_mem hlt

/-- The identifier whose digits are those of a number. -/
def ContentId.ofNat (n : ℕ) : ContentId := ⟨_, isContentId_hexDigits n⟩

theorem ContentId.ofNat_injective {m n : ℕ} (hm : m < 16 ^ 64) (hn : n < 16 ^ 64)
    (h : ContentId.ofNat m = ContentId.ofNat n) : m = n := by
  have hdigits : hexDigits m = hexDigits n := by
    have := congrArg (fun id => id.value.toList) h
    simpa [ContentId.ofNat] using this
  have hdigit : ∀ i < 64, m / 16 ^ i % 16 = n / 16 ^ i % 16 := by
    intro i hi
    have := List.map_inj_left.mp hdigits i (List.mem_range.mpr hi)
    have hnodup : "0123456789abcdef".toList.Nodup := by decide
    have hlt : ∀ k : ℕ, k % 16 < "0123456789abcdef".toList.length := fun k =>
      Nat.mod_lt k (by decide)
    rw [List.getD_eq_getElem _ _ (hlt _), List.getD_eq_getElem _ _ (hlt _)] at this
    exact (List.Nodup.getElem_inj_iff hnodup).mp this
  have key : ∀ k ≤ 64, m % 16 ^ k = n % 16 ^ k := by
    intro k hk
    induction k with
    | zero => simp [Nat.mod_one]
    | succ k ih =>
      rw [Nat.mod_pow_succ, Nat.mod_pow_succ, ih (by omega), hdigit k (by omega)]
  have := key 64 le_rfl
  rwa [Nat.mod_eq_of_lt hm, Nat.mod_eq_of_lt hn] at this

end Acfqp
