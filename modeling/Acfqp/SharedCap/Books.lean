import Acfqp.SharedCap.Session
import Acfqp.Library.Budget

/-!
# The books of a session

The reservations of a session are the uses of a budget. Its sums, its receipts and its open mounts
say the same about them: what is reserved is what is outstanding, what is committed is what was
charged, and the receipts tell the history of every value.
-/

namespace Acfqp.SharedCap

open Library

variable {ι : Type}

structure SessionIds.Distinct (ids : SessionIds ι) : Prop where
  reservation : Function.Injective ids.reservationId
  token : Function.Injective ids.tokenId

/-- A reservation with the number of its object, as a use of its path. -/
abbrev Use (ι : Type) := Admitted (Reservation ι × ℕ) SharedPath

abbrev Uses (ι : Type) := Budget (Reservation ι × ℕ) SharedPath

def newUse (reservation : Reservation ι) (object : ℕ) : Use ι :=
  ⟨(reservation, object), reservation.path, reservation.amount, none⟩

def useId (ids : SessionIds ι) (use : Use ι) : ι := ids.reservationId use.token.1

/-- Leaving out the key of one element of a list with distinct keys. -/
theorem filter_key_ne {α κ : Type} [DecidableEq κ] {key : α → κ} {l r : List α} {a : α}
    (h : ((l ++ a :: r).map key).Nodup) :
    (l ++ a :: r).filter (fun x => key x ≠ key a) = l ++ r := by
  rw [List.map_append, List.map_cons, List.nodup_append, List.nodup_cons] at h
  obtain ⟨-, ⟨hright, -⟩, hleft⟩ := h
  have hl : l.filter (fun x => key x ≠ key a) = l :=
    List.filter_eq_self.mpr fun x hx => decide_eq_true fun heq =>
      hleft _ (List.mem_map_of_mem hx) _ List.mem_cons_self heq
  have hr : r.filter (fun x => key x ≠ key a) = r :=
    List.filter_eq_self.mpr fun x hx => decide_eq_true fun heq =>
      hright (heq ▸ List.mem_map_of_mem hx)
  rw [List.filter_append, List.filter_cons_of_neg (by simp), hl, hr]

/-! ## Reservations -/

/-- The reservations and the sums of a session are those of a budget. -/
structure Reserves (ids : SessionIds ι) (profile : SharedCapProfile ι)
    (reservations : List (Reservation ι)) (count : ℕ) (active : List (ι × ℕ))
    (reserved committed : SharedPath → ℤ) (b : Uses ι) : Prop where
  tokens : b.map Admitted.token = reservations.zipIdx
  bound : ∀ a ∈ b, a.account = a.token.1.path ∧ a.upper = a.token.1.amount
  sums : ∀ a ∈ b, a.account.reducer = .sum
  sequences : (reservations.map Reservation.sequence).Nodup
  recent : ∀ r ∈ reservations, r.sequence ≤ count
  active_eq : active = (b.filter (·.charge = none)).map fun a => (useId ids a, a.token.2)
  reserved_eq : ∀ k, reserved k = Budget.outstanding b k
  committed_eq : ∀ k, committed k = Budget.charged b k
  within : Budget.Within (fun k => (profile.limits k).cap) b

namespace Reserves

variable {ids : SessionIds ι} {profile : SharedCapProfile ι} {reservations : List (Reservation ι)}
  {count : ℕ} {active : List (ι × ℕ)} {reserved committed : SharedPath → ℤ} {b : Uses ι}
  {a : Use ι} (h : Reserves ids profile reservations count active reserved committed b)
include h

theorem mono {count' : ℕ} (hle : count ≤ count') :
    Reserves ids profile reservations count' active reserved committed b :=
  { h with recent := fun r hr => (h.recent r hr).trans hle }

theorem reservations_eq : b.map (fun a => a.token.1) = reservations := by
  have hfst := congrArg (List.map Prod.fst) h.tokens
  rwa [List.zipIdx_map_fst, List.map_map] at hfst

theorem mem_iff {r : Reservation ι} {n : ℕ} :
    reservations[n]? = some r ↔ ∃ a ∈ b, a.token = (r, n) := by
  rw [← List.mk_mem_zipIdx_iff_getElem?, ← h.tokens, List.mem_map]

theorem nonneg (k : SharedPath) : 0 ≤ committed k ∧ 0 ≤ reserved k :=
  ⟨h.committed_eq k ▸ Int.natCast_nonneg _, h.reserved_eq k ▸ Int.natCast_nonneg _⟩

/-- What is outstanding is part of what is reserved. -/
theorem upper_le (ha : a ∈ b) (hopen : a.charge = none) : (a.upper : ℤ) ≤ reserved a.account := by
  have hle := Budget.le_sumOn (f := Admitted.outstanding) ha
  have hout : a.outstanding = a.upper := by rw [Admitted.outstanding, hopen]; rfl
  rw [hout] at hle
  rw [h.reserved_eq]
  exact Int.ofNat_le.mpr hle

variable (hids : ids.Distinct)
include hids

theorem ids_nodup : (b.map (useId ids)).Nodup := by
  have hmap : b.map (useId ids) = reservations.map ids.reservationId := by
    rw [← h.reservations_eq, List.map_map]
    rfl
  rw [hmap]
  exact (List.Nodup.of_map _ h.sequences).map hids.reservation

theorem active_nodup : (active.map Prod.fst).Nodup := by
  rw [h.active_eq, List.map_map]
  exact (h.ids_nodup hids).sublist (List.filter_sublist.map _)

variable [DecidableEq ι]

/-- The reservation that is active under its identifier is outstanding. -/
theorem exists_of_lookup {r : Reservation ι} {n : ℕ} (hr : reservations[n]? = some r)
    (hlookup : active.lookup (ids.reservationId r) = some n) :
    ∃ a ∈ b, a.token = (r, n) ∧ a.charge = none := by
  have hmem := Dict.lookup_mem hlookup
  rw [h.active_eq, List.mem_map] at hmem
  obtain ⟨a, ha, heq⟩ := hmem
  obtain ⟨ha, hopen⟩ := List.mem_filter.mp ha
  obtain ⟨a', ha', htoken⟩ := h.mem_iff.mp hr
  have hid : useId ids a = useId ids a' := by
    rw [useId, useId, htoken]
    exact congrArg Prod.fst heq
  obtain rfl := List.inj_on_of_nodup_map (h.ids_nodup hids) ha ha' hid
  exact ⟨a, ha, htoken, of_decide_eq_true hopen⟩

theorem lookup_of_open (ha : a ∈ b) (hopen : a.charge = none) :
    active.lookup (useId ids a) = some a.token.2 := by
  refine Dict.lookup_eq_some (h.active_nodup hids) ?_
  rw [h.active_eq, List.mem_map]
  exact ⟨a, List.mem_filter.mpr ⟨ha, decide_eq_true hopen⟩, rfl⟩

/-- A new reservation that fits under the cap of its path. -/
theorem reserve {r : Reservation ι} (hpath : r.path.reducer = .sum)
    (hsequence : r.sequence = count + 1)
    (hcap : committed r.path + reserved r.path + r.amount ≤ (profile.limits r.path).cap) :
    Reserves ids profile (reservations ++ [r]) (count + 1)
      (Dict.assign (ids.reservationId r) reservations.length active)
      (Function.update reserved r.path (reserved r.path + r.amount)) committed
      (b ++ [newUse r reservations.length]) := by
  have hlength : b.length = reservations.length := by
    have hlen := congrArg List.length h.tokens
    rwa [List.length_map, List.length_zipIdx] at hlen
  have hrecent : r ∉ reservations := fun hr => by
    have hle := h.recent r hr
    omega
  have hfresh : ids.reservationId r ∉ active.map Prod.fst := by
    rw [h.active_eq, List.map_map]
    intro hmem
    obtain ⟨a, ha, hid⟩ := List.mem_map.mp hmem
    refine hrecent (h.reservations_eq ▸ List.mem_map.mpr ⟨a, (List.mem_filter.mp ha).1, ?_⟩)
    exact hids.reservation hid
  have hstep : Budget.Step (fun k => (profile.limits k).cap) b
      (b ++ [newUse r reservations.length]) := by
    refine .reserve ?_ rfl ?_
    · intro hmem
      obtain ⟨a, ha, htoken⟩ := List.mem_map.mp hmem
      refine hrecent (h.reservations_eq ▸ List.mem_map.mpr ⟨a, ha, ?_⟩)
      rw [htoken]
      rfl
    · rw [h.committed_eq, h.reserved_eq] at hcap
      exact_mod_cast hcap
  refine ⟨?_, ?_, ?_, ?_, ?_, ?_, fun k => ?_, fun k => ?_, hstep.within h.within⟩
  · rw [List.map_append, h.tokens, List.zipIdx_append]
    simp [newUse]
  · intro a ha
    rcases List.mem_append.mp ha with ha | ha
    · exact h.bound a ha
    · obtain rfl := List.mem_singleton.mp ha
      exact ⟨rfl, rfl⟩
  · intro a ha
    rcases List.mem_append.mp ha with ha | ha
    · exact h.sums a ha
    · obtain rfl := List.mem_singleton.mp ha
      exact hpath
  · rw [List.map_append]
    refine h.sequences.append (List.nodup_singleton _) fun s hs hs' => ?_
    obtain ⟨r', hr', rfl⟩ := List.mem_map.mp hs
    have hle := h.recent r' hr'
    have heq := List.mem_singleton.mp hs'
    omega
  · intro r' hr'
    rcases List.mem_append.mp hr' with hr' | hr'
    · exact (h.recent r' hr').trans (Nat.le_succ count)
    · obtain rfl := List.mem_singleton.mp hr'
      exact hsequence.le
  · rw [Dict.assign_of_notMem hfresh, List.filter_append, List.map_append, ← h.active_eq]
    rfl
  · rw [Budget.outstanding, Budget.sumOn_append, ← Budget.outstanding, Nat.cast_add,
      ← h.reserved_eq]
    by_cases hk : k = r.path
    · subst hk
      simp [newUse, Admitted.outstanding]
    · simp [newUse, Function.update_of_ne hk, Ne.symm hk]
  · rw [Budget.charged, Budget.sumOn_append, ← Budget.charged, Nat.cast_add, ← h.committed_eq]
    simp [newUse, Admitted.charged]

/-- An outstanding reservation that is charged. -/
theorem settle (ha : a ∈ b) (hopen : a.charge = none) (c : ℕ) :
    Reserves ids profile reservations count (active.filter (·.1 ≠ useId ids a))
      (Function.update reserved a.account (reserved a.account - a.upper))
      (Function.update committed a.account (committed a.account + c)) (b.settle a.token c) := by
  have hnodup := h.within.nodup
  have hmem : ∀ a' ∈ b.settle a.token c, ∃ a'' ∈ b, a'.token = a''.token ∧
      a'.account = a''.account ∧ a'.upper = a''.upper := by
    intro a' ha'
    rcases Budget.mem_settle ha' with ⟨ha', -⟩ | ⟨a'', ha'', -, rfl⟩
    · exact ⟨a', ha', rfl, rfl, rfl⟩
    · exact ⟨a'', ha'', rfl, rfl, rfl⟩
  refine ⟨?_, ?_, ?_, h.sequences, h.recent, ?_, fun k => ?_, fun k => ?_,
    (Budget.Step.settle ha hopen c).within h.within⟩
  · rw [Budget.map_token_settle, h.tokens]
  · intro a' ha'
    obtain ⟨a'', ha'', htoken, haccount, hupper⟩ := hmem a' ha'
    rw [htoken, haccount, hupper]
    exact h.bound a'' ha''
  · intro a' ha'
    obtain ⟨a'', ha'', -, haccount, -⟩ := hmem a' ha'
    rw [haccount]
    exact h.sums a'' ha''
  · obtain ⟨l, r, heq, hsettle⟩ := Budget.exists_settle hnodup ha
    have hkeys := h.active_nodup hids
    rw [hsettle, List.filter_append, List.filter_cons_of_neg (by simp [Admitted.settled]),
      List.map_append]
    rw [h.active_eq, heq, List.filter_append, List.filter_cons_of_pos (by simpa using hopen),
      List.map_append, List.map_cons] at hkeys ⊢
    rw [filter_key_ne hkeys]
  · have hout := Budget.outstanding_settle hnodup ha hopen c k
    by_cases hk : k = a.account
    · subst hk
      rw [Function.update_self, h.reserved_eq]
      simp only [if_true] at hout
      omega
    · rw [Function.update_of_ne hk, h.reserved_eq]
      simp only [if_neg (Ne.symm hk)] at hout
      omega
  · have hcharged := Budget.charged_settle hnodup ha hopen c k
    by_cases hk : k = a.account
    · subst hk
      rw [Function.update_self, h.committed_eq]
      simp only [if_true] at hcharged
      omega
    · rw [Function.update_of_ne hk, h.committed_eq]
      simp only [if_neg (Ne.symm hk)] at hcharged
      omega

end Reserves

/-! ## Settlements -/

def ReceiptKind.settles : ReceiptKind → Bool
  | .sumCommitted | .sumRefunded | .sumCallbackFailed | .sumProtocolOverreturn
  | .sumProtocolCapabilityRejected => true
  | _ => false

/-- A receipt of a settled reservation. What was not charged was refunded, unless a reader returned
more than it was admitted. A failure is charged in full. -/
structure Settles (a : Use ι) (receipt : Receipt ι) : Prop where
  path : receipt.path = a.account
  site : receipt.siteId = a.token.1.siteId
  requested : receipt.requested = a.upper
  charge : ∃ c : ℕ, a.charge = some c ∧ receipt.committed = c
  refunded : 0 ≤ receipt.refunded
  balance : receipt.kind ≠ .sumProtocolOverreturn →
    receipt.requested = receipt.committed + receipt.refunded
  overreturn : receipt.kind = .sumProtocolOverreturn →
    receipt.requested < receipt.committed ∧ receipt.refunded = 0
  refused : receipt.accepted = false → receipt.requested ≤ receipt.committed

/-- The settled reservations, in the order of their settlement, have one receipt each. -/
structure Settlements (ids : SessionIds ι) (settled : List ι) (receipts : List (Receipt ι))
    (b order : Uses ι) : Prop where
  perm : order.Perm (b.filter (·.charge ≠ none))
  settled_eq : settled = order.map (useId ids)
  receipts : List.Forall₂ Settles order (receipts.filter (·.kind.settles))

namespace Settlements

variable {ids : SessionIds ι} {settled : List ι} {receipts : List (Receipt ι)} {b order : Uses ι}
  {receipt : Receipt ι} (h : Settlements ids settled receipts b order)
include h

theorem append (hkind : receipt.kind.settles = false) :
    Settlements ids settled (receipts ++ [receipt]) b order := by
  refine ⟨h.perm, h.settled_eq, ?_⟩
  rw [List.filter_append, List.filter_singleton, hkind]
  simpa using h.receipts

theorem reserve (r : Reservation ι) (object : ℕ) :
    Settlements ids settled receipts (b ++ [newUse r object]) order := by
  refine ⟨?_, h.settled_eq, h.receipts⟩
  rw [List.filter_append]
  simpa [newUse] using h.perm

theorem settle [DecidableEq ι] {a : Use ι} {c : ℕ} (hnodup : (b.map Admitted.token).Nodup)
    (ha : a ∈ b) (hopen : a.charge = none) (hkind : receipt.kind.settles = true)
    (hsettles : Settles (a.settled c) receipt) :
    Settlements ids (settled ++ [useId ids a]) (receipts ++ [receipt])
      (Budget.settle a.token c b) (order ++ [a.settled c]) := by
  obtain ⟨l, r, heq, hsettle⟩ := Budget.exists_settle hnodup ha
  refine ⟨?_, ?_, ?_⟩
  · have hperm := h.perm
    rw [heq, List.filter_append, List.filter_cons_of_neg (by simp [hopen])] at hperm
    rw [hsettle, List.filter_append, List.filter_cons_of_pos (by simp [Admitted.settled])]
    exact (hperm.append_right _).trans
      ((List.append_assoc ..).symm ▸ (List.perm_append_comm.append_left _))
  · rw [h.settled_eq, List.map_append]
    rfl
  · rw [List.filter_append, List.filter_singleton, hkind]
    exact List.rel_append h.receipts (.cons hsettles .nil)

end Settlements

/-! ## The history of the receipts -/

def lastValue (receipts : List (Receipt ι)) (path : SharedPath) : ℤ :=
  receipts.foldl (fun value receipt => if receipt.path = path then receipt.valueAfter else value) 0

@[simp] theorem lastValue_append (receipts : List (Receipt ι)) (receipt : Receipt ι)
    (path : SharedPath) : lastValue (receipts ++ [receipt]) path =
      if receipt.path = path then receipt.valueAfter else lastValue receipts path := by
  simp [lastValue, List.foldl_append]

def countedChecks (receipts : List (Receipt ι)) : ℤ :=
  (receipts.map (·.controlCapChecksDelta)).sum

@[simp] theorem countedChecks_append (receipts : List (Receipt ι)) (receipt : Receipt ι) :
    countedChecks (receipts ++ [receipt]) =
      countedChecks receipts + receipt.controlCapChecksDelta := by
  simp [countedChecks]

def totalCommitted (receipts : List (Receipt ι)) (path : SharedPath) : ℤ :=
  (receipts.map fun receipt => if receipt.path = path then receipt.committed else 0).sum

@[simp] theorem totalCommitted_append (receipts : List (Receipt ι)) (receipt : Receipt ι)
    (path : SharedPath) : totalCommitted (receipts ++ [receipt]) path =
      totalCommitted receipts path + if receipt.path = path then receipt.committed else 0 := by
  simp [totalCommitted]

/-- A receipt that goes on where the receipts before it stopped. -/
structure Follows (receipts : List (Receipt ι)) (receipt : Receipt ι) : Prop where
  sequence : receipt.sequence = receipts.length + 1
  before : receipt.valueBefore = lastValue receipts receipt.path
  checks : receipt.controlCapChecksBefore = countedChecks receipts
  delta : receipt.controlCapChecksDelta = 0 ∨ receipt.controlCapChecksDelta = 1

/-- The value of a path: what is committed and reserved, or the peak, or what is mounted. -/
def Runtime.current (rt : Runtime ι) : SharedPath → ℤ
  | .mountedBytesPeak => rt.mountedCurrentBytes
  | .workingBytesPeak => rt.maxValues .workingBytesPeak
  | path => rt.sumCommitted path + rt.sumReserved path

/-- The receipts of a session tell the history of its values and of its checks. -/
structure Recorded (receipts : List (Receipt ι)) (current : SharedPath → ℤ) : Prop where
  follows : ∀ n receipt, receipts[n]? = some receipt → Follows (receipts.take n) receipt
  last : ∀ path, lastValue receipts path = current path

theorem Recorded.append {receipts : List (Receipt ι)} {current current' : SharedPath → ℤ}
    (h : Recorded receipts current) {receipt : Receipt ι} (hfollows : Follows receipts receipt)
    (hcurrent : ∀ path, current' path =
      if receipt.path = path then receipt.valueAfter else current path) :
    Recorded (receipts ++ [receipt]) current' := by
  refine ⟨fun n r hr => ?_, fun path => ?_⟩
  · rcases lt_trichotomy n receipts.length with hlt | rfl | hlt
    · rw [List.getElem?_append_left hlt] at hr
      rw [List.take_append_of_le_length hlt.le]
      exact h.follows n r hr
    · rw [List.getElem?_append_right le_rfl, Nat.sub_self] at hr
      obtain rfl := Option.some.inj hr
      rw [List.take_left]
      exact hfollows
    · rw [List.getElem?_eq_none (by simpa using hlt)] at hr
      cases hr
  · rw [lastValue_append, hcurrent, h.last]

end Acfqp.SharedCap

/-!
## Visible payloads

A payload is visible while it has an open token. It counts once, however many tokens it has.
-/

namespace Acfqp.SharedCap

open Library

variable {ι : Type} [DecidableEq ι]

/-- Only the entry of the key is overwritten. -/
theorem exists_assign {V : Type} {d : List (ι × V)} {k : ι} {w : V}
    (hd : (d.map Prod.fst).Nodup) (h : (k, w) ∈ d) :
    ∃ l r, d = l ++ (k, w) :: r ∧ (∀ v, Dict.assign k v d = l ++ (k, v) :: r) ∧
      d.filter (·.1 ≠ k) = l ++ r ∧ ∀ e ∈ l ++ r, e.1 ≠ k := by
  obtain ⟨l, r, rfl⟩ := List.append_of_mem h
  have hfilter := filter_key_ne hd
  have hne : ∀ e ∈ l ++ r, e.1 ≠ k := fun e he => by
    rw [← hfilter] at he
    exact of_decide_eq_true (List.mem_filter.mp he).2
  have hmap : ∀ v, ∀ m : List (ι × V), (∀ e ∈ m, e.1 ≠ k) →
      m.map (fun e => if e.1 = k then (e.1, v) else e) = m := fun v m hm =>
    (List.map_congr_left fun e he => if_neg (hm e he)).trans (List.map_id m)
  refine ⟨l, r, rfl, fun v => ?_, hfilter, hne⟩
  rw [Dict.assign_of_mem hd (by simp), List.map_append, List.map_cons,
    hmap v l fun e he => hne e (List.mem_append_left _ he),
    hmap v r fun e he => hne e (List.mem_append_right _ he), if_pos rfl]

/-! ## Entries -/

def tokensOf (opens : List (MountToken ι × ℕ)) (payloadId : ι) : List (MountToken ι × ℕ) :=
  opens.filter (·.1.payloadId = payloadId)

theorem tokensOf_append (opens opens' : List (MountToken ι × ℕ)) (payloadId : ι) :
    tokensOf (opens ++ opens') payloadId = tokensOf opens payloadId ++ tokensOf opens' payloadId :=
  List.filter_append _ _

theorem tokensOf_cons_of_ne {o : MountToken ι × ℕ} {payloadId : ι} (h : o.1.payloadId ≠ payloadId)
    (opens : List (MountToken ι × ℕ)) :
    tokensOf (o :: opens) payloadId = tokensOf opens payloadId :=
  List.filter_cons_of_neg (by simpa using h)

theorem tokensOf_cons_self (o : MountToken ι × ℕ) (opens : List (MountToken ι × ℕ)) :
    tokensOf (o :: opens) o.1.payloadId = o :: tokensOf opens o.1.payloadId :=
  List.filter_cons_of_pos (by simp)

/-- The entry of a payload has its size and counts its open tokens, of which there is one. -/
structure EntryOf (opens : List (MountToken ι × ℕ)) (entry : ℕ × ℤ) : Prop where
  nonempty : opens ≠ []
  count : entry.2 = opens.length
  size : ∀ o ∈ opens, o.1.payloadBytes = entry.1

/-- The entries of the visible payloads, and the bytes that they mount. -/
structure Entries (opens : List (MountToken ι × ℕ)) (entries : List (ι × ℕ × ℤ)) (current : ℤ) :
    Prop where
  keys : (entries.map Prod.fst).Nodup
  entry : ∀ e ∈ entries, EntryOf (tokensOf opens e.1) e.2
  listed : ∀ o ∈ opens, o.1.payloadId ∈ entries.map Prod.fst
  bytes : current = (entries.map fun e => (e.2.1 : ℤ)).sum

namespace Entries

variable {opens : List (MountToken ι × ℕ)} {entries : List (ι × ℕ × ℤ)} {current : ℤ}
  {o : MountToken ι × ℕ} (h : Entries opens entries current)

omit [DecidableEq ι] in
theorem bytes_split {l r : List (ι × ℕ × ℤ)} {e : ι × ℕ × ℤ} :
    ((l ++ e :: r).map fun e => (e.2.1 : ℤ)).sum =
      ((l ++ r).map fun e => (e.2.1 : ℤ)).sum + e.2.1 := by
  simp only [List.map_append, List.map_cons, List.sum_append, List.sum_cons]
  ring

include h

theorem nonneg : 0 ≤ current := by
  rw [h.bytes]
  refine List.sum_nonneg fun x hx => ?_
  obtain ⟨e, -, rfl⟩ := List.mem_map.mp hx
  exact Int.natCast_nonneg _

theorem lookup_eq_none (hlookup : entries.lookup o.1.payloadId = none) :
    tokensOf opens o.1.payloadId = [] := by
  refine List.filter_eq_nil_iff.mpr fun o' ho' hpayload => ?_
  obtain ⟨e, he, hkey⟩ := List.mem_map.mp (h.listed o' ho')
  have hsome := Dict.lookup_eq_some h.keys he
  rw [hkey, of_decide_eq_true hpayload, hlookup] at hsome
  cases hsome

theorem lookup_of_mem (ho : o ∈ opens) :
    ∃ n : ℤ, entries.lookup o.1.payloadId = some (o.1.payloadBytes, n) ∧
      n = (tokensOf opens o.1.payloadId).length ∧ 0 < n := by
  obtain ⟨e, he, hkey⟩ := List.mem_map.mp (h.listed o ho)
  obtain ⟨hne, hcount, hsize⟩ := h.entry e he
  rw [hkey] at hne hcount hsize
  have hmem : o ∈ tokensOf opens o.1.payloadId := List.mem_filter.mpr ⟨ho, by simp⟩
  have hpos := List.length_pos_of_mem hmem
  refine ⟨e.2.2, ?_, hcount, by omega⟩
  rw [hsize o hmem]
  exact Dict.lookup_eq_some h.keys (hkey ▸ he)

theorem mount_first (hlookup : entries.lookup o.1.payloadId = none) :
    Entries (opens ++ [o]) (Dict.assign o.1.payloadId (o.1.payloadBytes, 1) entries)
      (current + o.1.payloadBytes) := by
  have hnone := h.lookup_eq_none hlookup
  have hfresh : o.1.payloadId ∉ entries.map Prod.fst := fun hmem => by
    obtain ⟨e, he, hkey⟩ := List.mem_map.mp hmem
    rw [← hkey, Dict.lookup_eq_some h.keys he] at hlookup
    cases hlookup
  rw [Dict.assign_of_notMem hfresh]
  refine ⟨?_, fun e he => ?_, fun o' ho' => ?_, ?_⟩
  · rw [List.map_append]
    exact h.keys.append (List.nodup_singleton _) (by simpa using hfresh)
  · rw [tokensOf_append]
    rcases List.mem_append.mp he with he | he
    · have hne : o.1.payloadId ≠ e.1 := fun heq =>
        hfresh (heq ▸ List.mem_map_of_mem he)
      rw [tokensOf_cons_of_ne hne]
      simpa [tokensOf] using h.entry e he
    · obtain rfl := List.mem_singleton.mp he
      rw [hnone, tokensOf_cons_self]
      exact ⟨List.cons_ne_nil _ _, rfl, fun o' ho' => by
        obtain rfl := List.mem_singleton.mp ho'
        rfl⟩
  · rw [List.map_append]
    rcases List.mem_append.mp ho' with ho' | ho'
    · exact List.mem_append_left _ (h.listed o' ho')
    · obtain rfl := List.mem_singleton.mp ho'
      exact List.mem_append_right _ (List.mem_singleton_self _)
  · rw [bytes_split, List.append_nil, h.bytes]

/-- One more token of a visible payload. -/
theorem mount_again {n : ℤ} (hlookup : entries.lookup o.1.payloadId = some (o.1.payloadBytes, n)) :
    Entries (opens ++ [o]) (Dict.assign o.1.payloadId (o.1.payloadBytes, n + 1) entries)
      current := by
  obtain ⟨l, r, heq, hassign, -, hne⟩ := exists_assign h.keys (Dict.lookup_mem hlookup)
  have hkeys : ((l ++ (o.1.payloadId, o.1.payloadBytes, n + 1) :: r).map Prod.fst) =
      entries.map Prod.fst := by
    rw [heq]
    simp
  have hself := h.entry _ (Dict.lookup_mem hlookup)
  rw [hassign]
  refine ⟨hkeys ▸ h.keys, fun e he => ?_, fun o' ho' => ?_, ?_⟩
  · rw [tokensOf_append]
    rcases List.mem_append.mp he with he | he
    · rw [tokensOf_cons_of_ne (hne e (List.mem_append_left _ he)).symm]
      simpa [tokensOf] using h.entry e (heq ▸ List.mem_append_left _ he)
    · rcases List.mem_cons.mp he with rfl | he
      · rw [tokensOf_cons_self]
        refine ⟨by simp, ?_, fun o' ho' => ?_⟩
        · rw [List.length_append, Nat.cast_add, ← hself.count]
          rfl
        · rcases List.mem_append.mp ho' with ho' | ho'
          · exact hself.size o' ho'
          · obtain rfl := List.mem_singleton.mp ho'
            rfl
      · rw [tokensOf_cons_of_ne (hne e (List.mem_append_right _ he)).symm]
        simpa [tokensOf] using h.entry e (heq ▸ List.mem_append_right _ (List.mem_cons_of_mem _ he))
  · rw [hkeys]
    rcases List.mem_append.mp ho' with ho' | ho'
    · exact h.listed o' ho'
    · obtain rfl := List.mem_singleton.mp ho'
      exact List.mem_map_of_mem (Dict.lookup_mem hlookup)
  · rw [h.bytes, heq, bytes_split, bytes_split]

section Unmount

variable {l r : List (MountToken ι × ℕ)} (hopens : opens = l ++ o :: r)
include hopens

theorem entry_of_ne {e : ι × ℕ × ℤ} (he : e ∈ entries) (hne : e.1 ≠ o.1.payloadId) :
    EntryOf (tokensOf (l ++ r) e.1) e.2 := by
  have hentry := h.entry e he
  rwa [hopens, tokensOf_append, tokensOf_cons_of_ne hne.symm, ← tokensOf_append] at hentry

theorem unmount_last (hlookup : entries.lookup o.1.payloadId = some (o.1.payloadBytes, 1)) :
    Entries (l ++ r) (entries.filter (·.1 ≠ o.1.payloadId)) (current - o.1.payloadBytes) := by
  obtain ⟨d, d', heq, -, hfilter, hne⟩ := exists_assign h.keys (Dict.lookup_mem hlookup)
  have hself : (1 : ℤ) = (tokensOf opens o.1.payloadId).length :=
    (h.entry _ (Dict.lookup_mem hlookup)).count
  have hmem : ∀ e ∈ d ++ d', e ∈ entries := fun e he => by
    rw [← hfilter] at he
    exact (List.mem_filter.mp he).1
  have hnone : tokensOf (l ++ r) o.1.payloadId = [] := by
    rw [hopens, tokensOf_append, tokensOf_cons_self, List.length_append, List.length_cons] at hself
    rw [tokensOf_append]
    refine List.eq_nil_of_length_eq_zero ?_
    rw [List.length_append]
    omega
  rw [hfilter]
  refine ⟨?_, fun e he => h.entry_of_ne hopens (hmem e he) (hne e he), fun o' ho' => ?_, ?_⟩
  · rw [← hfilter]
    exact h.keys.sublist (List.filter_sublist.map _)
  · have hpayload : o'.1.payloadId ≠ o.1.payloadId := fun heq' => by
      have hmem' : o' ∈ tokensOf (l ++ r) o.1.payloadId :=
        List.mem_filter.mpr ⟨ho', decide_eq_true heq'⟩
      rw [hnone] at hmem'
      cases hmem'
    have hlisted := h.listed o' (hopens ▸ (List.mem_append.mp ho').elim (List.mem_append_left _)
      fun hr => List.mem_append_right _ (List.mem_cons_of_mem _ hr))
    obtain ⟨e, he, hkey⟩ := List.mem_map.mp hlisted
    rw [heq] at he
    refine List.mem_map.mpr ⟨e, ?_, hkey⟩
    rcases List.mem_append.mp he with he | he
    · exact List.mem_append_left _ he
    · rcases List.mem_cons.mp he with rfl | he
      · exact absurd hkey.symm hpayload
      · exact List.mem_append_right _ he
  · rw [h.bytes, heq, bytes_split]
    ring

/-- A token of a payload that has another one. -/
theorem unmount_more {n : ℤ} (hlookup : entries.lookup o.1.payloadId = some (o.1.payloadBytes, n))
    (hn : n ≠ 1) : Entries (l ++ r)
      (Dict.assign o.1.payloadId (o.1.payloadBytes, n - 1) entries) current := by
  obtain ⟨d, d', heq, hassign, -, hne⟩ := exists_assign h.keys (Dict.lookup_mem hlookup)
  have hkeys : ((d ++ (o.1.payloadId, o.1.payloadBytes, n - 1) :: d').map Prod.fst) =
      entries.map Prod.fst := by
    rw [heq]
    simp
  have hcount : n = (tokensOf opens o.1.payloadId).length :=
    (h.entry _ (Dict.lookup_mem hlookup)).count
  have hsize := (h.entry _ (Dict.lookup_mem hlookup)).size
  have hlength : ((tokensOf opens o.1.payloadId).length : ℤ) =
      (tokensOf (l ++ r) o.1.payloadId).length + 1 := by
    rw [hopens, tokensOf_append, tokensOf_cons_self, tokensOf_append, List.length_append,
      List.length_cons, List.length_append]
    push_cast
    ring
  have hsub : ∀ o' ∈ l ++ r, o' ∈ opens := fun o' ho' => hopens ▸
    (List.mem_append.mp ho').elim (List.mem_append_left _)
      fun hr => List.mem_append_right _ (List.mem_cons_of_mem _ hr)
  rw [hassign]
  refine ⟨hkeys ▸ h.keys, fun e he => ?_, fun o' ho' => ?_, ?_⟩
  · rcases List.mem_append.mp he with he | he
    · exact h.entry_of_ne hopens (heq ▸ List.mem_append_left _ he)
        (hne e (List.mem_append_left _ he))
    · rcases List.mem_cons.mp he with rfl | he
      · refine ⟨fun hnil => ?_, ?_, fun o' ho' => ?_⟩
        · rw [show tokensOf (l ++ r) o.1.payloadId = [] from hnil] at hlength
          simp only [List.length_nil] at hlength
          omega
        · change n - 1 = ((tokensOf (l ++ r) o.1.payloadId).length : ℤ)
          omega
        · obtain ⟨ho', hpayload⟩ := List.mem_filter.mp ho'
          exact hsize o' (List.mem_filter.mpr ⟨hsub o' ho', hpayload⟩)
      · exact h.entry_of_ne hopens (heq ▸ List.mem_append_right _ (List.mem_cons_of_mem _ he))
          (hne e (List.mem_append_right _ he))
  · rw [hkeys]
    exact h.listed o' (hsub o' ho')
  · rw [h.bytes, heq, bytes_split, bytes_split]

end Unmount

end Entries

/-! ## Tokens -/

/-- The open tokens are live capabilities of the session. -/
structure Mounts (ids : SessionIds ι) (tokens : List (MountToken ι)) (count : ℕ)
    (mountTokens : List (ι × ℕ)) (opens : List (MountToken ι × ℕ)) : Prop where
  issued : ∀ o ∈ opens, tokens[o.2]? = some o.1
  recent : ∀ t ∈ tokens, t.sequence ≤ count
  opens_nodup : (opens.map Prod.fst).Nodup
  tokens_eq : mountTokens = opens.map fun o => (ids.tokenId o.1, o.2)

namespace Mounts

variable {ids : SessionIds ι} {tokens : List (MountToken ι)} {count : ℕ}
  {mountTokens : List (ι × ℕ)} {opens : List (MountToken ι × ℕ)} {o : MountToken ι × ℕ}
  (h : Mounts ids tokens count mountTokens opens)
include h

omit [DecidableEq ι] in
theorem mono {count' : ℕ} (hle : count ≤ count') : Mounts ids tokens count' mountTokens opens :=
  { h with recent := fun t ht => (h.recent t ht).trans hle }

variable (hids : ids.Distinct)
include hids

omit [DecidableEq ι] in
theorem keys_nodup : (mountTokens.map Prod.fst).Nodup := by
  have hmap : mountTokens.map Prod.fst = (opens.map Prod.fst).map ids.tokenId := by
    rw [h.tokens_eq, List.map_map, List.map_map]
    rfl
  rw [hmap]
  exact h.opens_nodup.map hids.token

/-- The token that is open under its identifier. -/
theorem mem_of_lookup {t : MountToken ι} {n : ℕ}
    (hlookup : mountTokens.lookup (ids.tokenId t) = some n) : (t, n) ∈ opens := by
  have hmem := Dict.lookup_mem hlookup
  rw [h.tokens_eq, List.mem_map] at hmem
  obtain ⟨⟨t', n'⟩, ho, heq⟩ := hmem
  obtain ⟨hid, rfl⟩ := Prod.mk.inj heq
  rwa [← hids.token hid]

theorem mount {t : MountToken ι} (hsequence : t.sequence = count + 1) :
    Mounts ids (tokens ++ [t]) (count + 1)
      (Dict.assign (ids.tokenId t) tokens.length mountTokens) (opens ++ [(t, tokens.length)]) := by
  have hfresh : t ∉ opens.map Prod.fst := fun hmem => by
    obtain ⟨o, ho, rfl⟩ := List.mem_map.mp hmem
    have hle := h.recent o.1 (List.mem_of_getElem? (h.issued o ho))
    omega
  have hid : ids.tokenId t ∉ mountTokens.map Prod.fst := fun hmem => by
    rw [h.tokens_eq, List.map_map] at hmem
    obtain ⟨o, ho, heq⟩ := List.mem_map.mp hmem
    exact hfresh (List.mem_map.mpr ⟨o, ho, hids.token heq⟩)
  refine ⟨fun o ho => ?_, fun t' ht' => ?_, ?_, ?_⟩
  · rcases List.mem_append.mp ho with ho | ho
    · obtain ⟨hlt, -⟩ := List.getElem?_eq_some_iff.mp (h.issued o ho)
      rw [List.getElem?_append_left hlt]
      exact h.issued o ho
    · obtain rfl := List.mem_singleton.mp ho
      simp
  · rcases List.mem_append.mp ht' with ht' | ht'
    · exact (h.recent t' ht').trans (Nat.le_succ count)
    · obtain rfl := List.mem_singleton.mp ht'
      exact hsequence.le
  · rw [List.map_append]
    exact h.opens_nodup.append (List.nodup_singleton _) (by simpa using hfresh)
  · rw [Dict.assign_of_notMem hid, h.tokens_eq, List.map_append]
    rfl

theorem unmount {l r : List (MountToken ι × ℕ)} (hopens : opens = l ++ o :: r) :
    Mounts ids tokens count (mountTokens.filter (·.1 ≠ ids.tokenId o.1)) (l ++ r) := by
  have hsub : ∀ o' ∈ l ++ r, o' ∈ opens := fun o' ho' => hopens ▸
    (List.mem_append.mp ho').elim (List.mem_append_left _)
      fun hr => List.mem_append_right _ (List.mem_cons_of_mem _ hr)
  have hkeys := h.keys_nodup hids
  refine ⟨fun o' ho' => h.issued o' (hsub o' ho'), h.recent, ?_, ?_⟩
  · refine h.opens_nodup.sublist (List.Sublist.map _ ?_)
    rw [hopens]
    exact (List.sublist_cons_self o r).append_left l
  · rw [h.tokens_eq, hopens, List.map_append, List.map_cons] at hkeys ⊢
    rw [filter_key_ne hkeys, List.map_append]

end Mounts

end Acfqp.SharedCap
