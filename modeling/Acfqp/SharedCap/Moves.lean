import Acfqp.SharedCap.Books

/-!
# What keeps the books

Whatever a session does is a sequence of a few moves. Each of them keeps the books, a check of the
caps that has begun aside.
-/

namespace Acfqp.SharedCap

open Library

variable {ι : Type} [DecidableEq ι]

/-- What the phase of a session says about its prerequisite, reservations and mounts. -/
structure Phase (rt : Runtime ι) (b : Uses ι) (opens : List (MountToken ι × ℕ)) : Prop where
  unopened : rt.decisionPrerequisite = none → rt.receipts = [] ∧ b = [] ∧ opens = []
  prepared : rt.state = .prepared → rt.decisionPrerequisite = none
  authorised : rt.state = .constructionActive ∨ rt.state = .capExhausted ∨ rt.state = .closed →
    rt.decisionPrerequisite ≠ none
  settled : rt.state = .protocolFailed ∨ rt.state = .closed → ∀ a ∈ b, a.charge ≠ none
  closed : rt.state = .closed → opens = []

/-- The books of a session that has begun a number of checks without a receipt. -/
structure Books (ids : SessionIds ι) (profile : SharedCapProfile ι)
    (reservations : List (Reservation ι)) (tokens : List (MountToken ι)) (rt : Runtime ι)
    (begun : ℤ) (b order : Uses ι) (opens : List (MountToken ι × ℕ)) : Prop where
  reserves : Reserves ids profile reservations rt.receipts.length rt.activeReservations
    rt.sumReserved rt.sumCommitted b
  settlements : Settlements ids rt.settledReservations rt.receipts b order
  total : ∀ path, path.reducer = .sum → rt.sumCommitted path = totalCommitted rt.receipts path
  mounts : Mounts ids tokens rt.receipts.length rt.mountTokens opens
  entries : Entries opens rt.mountEntries rt.mountedCurrentBytes
  recorded : Recorded rt.receipts rt.current
  control : rt.controlCapChecks = countedChecks rt.receipts + begun
  begun_nonneg : 0 ≤ begun
  controlCap : rt.controlCapChecks ≤ profile.maxControlCapChecks
  peaks : ∀ path, 0 ≤ rt.maxValues path ∧ rt.maxValues path ≤ (profile.limits path).cap
  mountedPeak : rt.mountedCurrentBytes ≤ rt.maxValues .mountedBytesPeak
  phase : Phase rt b opens

omit [DecidableEq ι] in
theorem Runtime.current_eq (rt : Runtime ι) (path : SharedPath) : rt.current path =
    if path.reducer = .sum then rt.value path
    else if path = .mountedBytesPeak then rt.mountedCurrentBytes else rt.maxValues path := by
  cases path <;> rfl

omit [DecidableEq ι] in
theorem countedChecks_nonneg {receipts : List (Receipt ι)} {current : SharedPath → ℤ}
    (h : Recorded receipts current) : 0 ≤ countedChecks receipts := by
  refine List.sum_nonneg fun x hx => ?_
  obtain ⟨receipt, hreceipt, rfl⟩ := List.mem_map.mp hx
  obtain ⟨n, hn⟩ := List.getElem?_of_mem hreceipt
  rcases (h.follows n receipt hn).delta with hzero | hone
  · exact hzero.ge
  · rw [hone]
    exact zero_le_one

namespace Books

variable {ids : SessionIds ι} {profile : SharedCapProfile ι} {reservations : List (Reservation ι)}
  {tokens : List (MountToken ι)} {rt : Runtime ι} {begun : ℤ} {b order : Uses ι}
  {opens : List (MountToken ι × ℕ)} {prerequisite : DecisionPrerequisite ι}
  {fields : ReceiptFields ι} {path : SharedPath} {siteId : ι}

theorem initial : Books ids profile [] [] (Runtime.initial ι) 0 [] [] [] where
  reserves := ⟨rfl, by simp, by simp, List.nodup_nil, by simp, rfl, fun _ => rfl, fun _ => rfl,
    Budget.within_nil _⟩
  settlements := ⟨.nil, rfl, .nil⟩
  total _ _ := rfl
  mounts := ⟨by simp, by simp, List.nodup_nil, rfl⟩
  entries := ⟨List.nodup_nil, by simp [Runtime.initial], by simp, rfl⟩
  recorded := ⟨by simp [Runtime.initial], fun path => by cases path <;> rfl⟩
  control := rfl
  begun_nonneg := le_rfl
  controlCap := Int.natCast_nonneg _
  peaks _ := ⟨le_rfl, Int.natCast_nonneg _⟩
  mountedPeak := le_rfl
  phase := ⟨fun _ => ⟨rfl, rfl, rfl⟩, fun _ => rfl, by simp [Runtime.initial],
    by simp [Runtime.initial], by simp [Runtime.initial]⟩

variable (h : Books ids profile reservations tokens rt begun b order opens)
include h

theorem documented : rt.Documented := by
  refine ⟨fun path => ?_, ?_, h.entries.nonneg⟩
  · obtain ⟨hcommitted, hreserved⟩ := h.reserves.nonneg path
    exact ⟨hcommitted, hreserved, (h.peaks path).1⟩
  · have hcount := countedChecks_nonneg h.recorded
    have hbegun := h.begun_nonneg
    have hcontrol := h.control
    omega

theorem value_nonneg (path : SharedPath) : 0 ≤ rt.current path := by
  obtain ⟨hcommitted, hreserved⟩ := h.reserves.nonneg path
  rw [Runtime.current_eq]
  split
  · exact add_nonneg hcommitted hreserved
  · split
    · exact h.entries.nonneg
    · exact (h.peaks path).1

/-! ## Phases -/

theorem failed (hsettled : ∀ a ∈ b, a.charge ≠ none) :
    Books ids profile reservations tokens rt.failed begun b order opens :=
  { h with
    phase := ⟨h.phase.unopened, by simp [Runtime.failed], by simp [Runtime.failed],
      fun _ => hsettled, by simp [Runtime.failed]⟩ }

theorem exhausted (hactive : rt.state = .constructionActive) :
    Books ids profile reservations tokens rt.exhausted begun b order opens :=
  { h with
    phase := ⟨h.phase.unopened, by simp [Runtime.exhausted],
      fun _ => h.phase.authorised (.inl hactive), by simp [Runtime.exhausted],
      by simp [Runtime.exhausted]⟩ }

variable (prerequisite) in
theorem activated :
    Books ids profile reservations tokens
      { rt with decisionPrerequisite := some prerequisite, state := .constructionActive } begun b
      order opens :=
  { h with
    phase := ⟨by simp, by simp, by simp, by simp, by simp⟩ }

theorem closed (hstate : rt.state = .constructionActive ∨ rt.state = .capExhausted)
    (hsettled : ∀ a ∈ b, a.charge ≠ none) (hopens : opens = []) :
    Books ids profile reservations tokens { rt with state := .closed } begun b order opens :=
  { h with
    phase := ⟨h.phase.unopened, by simp,
      fun _ => h.phase.authorised (hstate.imp_right .inl), fun _ => hsettled, fun _ => hopens⟩ }

theorem checked (hcap : rt.controlCapChecks + 1 ≤ profile.maxControlCapChecks) :
    Books ids profile reservations tokens rt.checked (begun + 1) b order opens :=
  { h with
    control := by
      rw [Runtime.checked, h.control]
      ring
    begun_nonneg := by
      have hbegun := h.begun_nonneg
      omega
    controlCap := hcap
    phase := ⟨h.phase.unopened, h.phase.prepared, h.phase.authorised, h.phase.settled,
      h.phase.closed⟩ }

/-! ## Receipts -/

/-- A receipt of a change that starts from the current value of its path. -/
theorem record {rt₁ : Runtime ι} (hreceipts : rt₁.receipts = rt.receipts)
    (hbefore : fields.valueBefore = rt.current fields.path)
    (hchecks : fields.controlCapChecksBefore = countedChecks rt.receipts)
    (hdelta : fields.controlCapChecksDelta = 0 ∨ fields.controlCapChecksDelta = 1)
    (hafter : ∀ path, rt₁.current path =
      if fields.path = path then fields.valueAfter else rt.current path) :
    Recorded (rt₁.append fields prerequisite).receipts
      (rt₁.append fields prerequisite).current := by
  have hsame : (rt₁.append fields prerequisite).current = rt₁.current := by
    funext path
    cases path <;> rfl
  rw [hsame, Runtime.append, hreceipts]
  refine h.recorded.append ⟨rfl, ?_, hchecks, hdelta⟩ hafter
  rw [h.recorded.last]
  exact hbefore

/-- Once the session has its prerequisite, a receipt changes nothing about its phase. -/
theorem phase_append {rt₁ : Runtime ι} {b₁ : Uses ι} {opens₁ : List (MountToken ι × ℕ)}
    (hpre : rt₁.decisionPrerequisite = some prerequisite) (hstate : rt₁.state = rt.state)
    (hpre' : rt.decisionPrerequisite = some prerequisite)
    (hsettled : (∀ a ∈ b, a.charge ≠ none) → rt.state ≠ .constructionActive →
      ∀ a ∈ b₁, a.charge ≠ none)
    (hopens : opens = [] → rt.state ≠ .constructionActive → opens₁ = []) :
    Phase (rt₁.append fields prerequisite) b₁ opens₁ := by
  refine ⟨fun hnone => ?_, fun hprepared => ?_, fun _ => ?_, fun hend a ha => ?_, fun hend => ?_⟩
  · rw [Runtime.append, hpre] at hnone
    cases hnone
  · have hnone := h.phase.prepared (hstate ▸ hprepared)
    rw [hpre'] at hnone
    cases hnone
  · rw [Runtime.append, hpre]
    exact Option.some_ne_none _
  · rw [Runtime.append, hstate] at hend
    refine hsettled (h.phase.settled hend) (fun hactive => ?_) a ha
    rw [hactive] at hend
    rcases hend with hend | hend <;> cases hend
  · rw [Runtime.append, hstate] at hend
    refine hopens (h.phase.closed hend) fun hactive => ?_
    rw [hactive] at hend
    cases hend

variable (hpre : rt.decisionPrerequisite = some prerequisite)
include hpre

section Admission

variable (hbegun : begun = 1)
include hbegun

variable (path siteId) in
theorem reject {kind : ReceiptKind} (hkind : kind.settles = false) (requested : ℕ) (peak : ℤ)
    {controlBefore : ℤ} (hcontrol : rt.controlCapChecks = controlBefore + 1) :
    Books ids profile reservations tokens
      (rt.append (rejectionFields kind path siteId requested (rt.current path) controlBefore peak)
        prerequisite) 0 b order opens := by
  have hcounted := h.control
  have hchecks : controlBefore = countedChecks rt.receipts := by omega
  refine ⟨?_, h.settlements.append hkind, fun path' hsum => ?_, ?_, h.entries,
    h.record rfl rfl hchecks (.inr rfl) fun path' => ?_, ?_, le_rfl, h.controlCap, h.peaks,
    h.mountedPeak, h.phase_append hpre rfl hpre (fun hsettled _ => hsettled) fun hopens _ => hopens⟩
  · exact h.reserves.mono (by simp [Runtime.append])
  · rw [Runtime.append, totalCommitted_append, rejectionFields, ite_self, add_zero]
    exact h.total path' hsum
  · exact h.mounts.mono (by simp [Runtime.append])
  · by_cases hpath : path = path'
    · simp [rejectionFields, hpath]
    · simp [rejectionFields, hpath]
  · rw [Runtime.append, countedChecks_append, ← hchecks, hcontrol, add_zero]
    rfl

variable (siteId) in
/-- A reservation that fits under the cap of its path. -/
theorem reserve (hids : ids.Distinct) (hactive : rt.state = .constructionActive)
    (hpath : path.reducer = .sum) {amount : ℕ}
    (hcap : rt.value path + amount ≤ (profile.limits path).cap) {controlBefore : ℤ}
    (hcontrol : rt.controlCapChecks = controlBefore + 1) :
    let reservation : Reservation ι := ⟨path, siteId, amount, rt.receipts.length + 1⟩
    Books ids profile (reservations ++ [reservation]) tokens
      ((rt.reserve (ids.reservationId reservation) reservations.length path amount).append
        (admissionFields .sumReserved path siteId amount 0 (rt.value path)
          (rt.value path + amount) (rt.value path + amount) controlBefore) prerequisite) 0
      (b ++ [newUse reservation reservations.length]) order opens := by
  intro reservation
  have hcounted := h.control
  have hchecks : controlBefore = countedChecks rt.receipts := by omega
  have hcurrent : rt.current path = rt.value path := by rw [Runtime.current_eq, if_pos hpath]
  have hreserves := h.reserves.reserve hids (r := reservation) hpath rfl hcap
  refine ⟨?_, (h.settlements.reserve reservation _).append rfl, fun path' hsum => ?_, ?_,
    h.entries, h.record rfl hcurrent.symm hchecks (.inr rfl) fun path' => ?_, ?_, le_rfl,
    h.controlCap, h.peaks, h.mountedPeak, h.phase_append hpre rfl hpre
      (fun _ hnot => absurd hactive hnot) fun hopens _ => hopens⟩
  · rw [Runtime.append, List.length_append]
    exact hreserves
  · rw [Runtime.append, totalCommitted_append, admissionFields, ite_self, add_zero]
    exact h.total path' hsum
  · exact h.mounts.mono (by simp [Runtime.append, Runtime.reserve])
  · change (rt.reserve _ _ path amount).current path' =
      if path = path' then rt.value path + amount else rt.current path'
    rw [Runtime.current_eq, Runtime.current_eq]
    by_cases hsame : path = path'
    · subst hsame
      rw [if_pos hpath, if_pos rfl]
      simp only [Runtime.value, Runtime.reserve, Function.update_self]
      ring
    · rw [if_neg hsame]
      simp only [Runtime.value, Runtime.reserve, Function.update_of_ne (Ne.symm hsame)]
  · rw [Runtime.append, countedChecks_append, Runtime.reserve, ← hchecks, hcontrol, add_zero]
    rfl

variable (siteId) in
/-- A peak under the cap of its path. -/
theorem admitPeak (hpath : path.reducer = .max) (hmounted : path ≠ .mountedBytesPeak) {value : ℕ}
    (hcap : value ≤ (profile.limits path).cap) {controlBefore : ℤ}
    (hcontrol : rt.controlCapChecks = controlBefore + 1) :
    Books ids profile reservations tokens
      ((rt.admitPeak path (max (rt.maxValues path) value)).append
        (admissionFields .maxAdmitted path siteId value value (rt.maxValues path)
          (max (rt.maxValues path) value) (max (rt.maxValues path) value) controlBefore)
        prerequisite) 0 b order opens := by
  have hcounted := h.control
  have hchecks : controlBefore = countedChecks rt.receipts := by omega
  have hsum : path.reducer ≠ .sum := fun heq => by
    rw [hpath] at heq
    cases heq
  have hcurrent : rt.current path = rt.maxValues path := by
    rw [Runtime.current_eq, if_neg hsum, if_neg hmounted]
  refine ⟨?_, h.settlements.append rfl, fun path' hsum' => ?_, ?_, h.entries,
    h.record rfl hcurrent.symm hchecks (.inr rfl) fun path' => ?_, ?_, le_rfl, h.controlCap,
    fun path' => ?_, ?_, h.phase_append hpre rfl hpre (fun hsettled _ => hsettled)
      fun hopens _ => hopens⟩
  · exact h.reserves.mono (by simp [Runtime.append, Runtime.admitPeak])
  · have hne : path ≠ path' := fun heq => hsum (heq ▸ hsum')
    rw [Runtime.append, totalCommitted_append, admissionFields, if_neg hne, add_zero]
    exact h.total path' hsum'
  · exact h.mounts.mono (by simp [Runtime.append, Runtime.admitPeak])
  · change (rt.admitPeak path _).current path' =
      if path = path' then max (rt.maxValues path) value else rt.current path'
    rw [Runtime.current_eq, Runtime.current_eq]
    by_cases hsame : path = path'
    · subst hsame
      rw [if_neg hsum, if_neg hmounted, if_pos rfl]
      exact Function.update_self ..
    · rw [if_neg hsame]
      simp only [Runtime.value, Runtime.admitPeak, Function.update_of_ne (Ne.symm hsame)]
  · rw [Runtime.append, countedChecks_append, Runtime.admitPeak, ← hchecks, hcontrol, add_zero]
    rfl
  · by_cases hsame : path' = path
    · subst hsame
      simp only [Runtime.append, Runtime.admitPeak, Function.update_self]
      exact ⟨le_max_of_le_left (h.peaks path').1,
        max_le (h.peaks path').2 (Int.ofNat_le.mpr hcap)⟩
    · simp only [Runtime.append, Runtime.admitPeak, Function.update_of_ne hsame]
      exact h.peaks path'
  · simp only [Runtime.append, Runtime.admitPeak, Function.update_of_ne (Ne.symm hmounted)]
    exact h.mountedPeak

end Admission

variable (siteId) in
/-- A token for a payload that fits under the cap of the mounted bytes. -/
theorem mount (hbegun : begun = 1) (hids : ids.Distinct)
    (hactive : rt.state = .constructionActive) {payloadId : ι} {payloadBytes : ℕ}
    (hsize : ∀ entry, rt.mountEntries.lookup payloadId = some entry → entry.1 = payloadBytes)
    {current : ℤ} (hcurrent : current = if rt.mountEntries.lookup payloadId = none then
      rt.mountedCurrentBytes + payloadBytes else rt.mountedCurrentBytes)
    (hcap : current ≤ (profile.limits .mountedBytesPeak).cap) (committed : ℤ) {controlBefore : ℤ}
    (hcontrol : rt.controlCapChecks = controlBefore + 1) :
    let token : MountToken ι := ⟨siteId, payloadId, payloadBytes, rt.receipts.length + 1⟩
    Books ids profile reservations (tokens ++ [token])
      ((rt.mount (ids.tokenId token) payloadId tokens.length payloadBytes).append
        (admissionFields .mountOpened .mountedBytesPeak siteId payloadBytes committed
          rt.mountedCurrentBytes current (max (rt.maxValues .mountedBytesPeak) current)
          controlBefore) prerequisite) 0 b order (opens ++ [(token, tokens.length)]) := by
  intro token
  have hcounted := h.control
  have hchecks : controlBefore = countedChecks rt.receipts := by omega
  have hmounted : (rt.mount (ids.tokenId token) payloadId tokens.length
      payloadBytes).mountedCurrentBytes = current := hcurrent.symm
  have hentries : Entries (opens ++ [(token, tokens.length)])
      (rt.mount (ids.tokenId token) payloadId tokens.length payloadBytes).mountEntries current := by
    cases hlookup : rt.mountEntries.lookup payloadId with
    | none =>
      rw [hlookup, if_pos rfl] at hcurrent
      simp only [Runtime.mount, hlookup, Option.elim_none, zero_add, hcurrent]
      exact h.entries.mount_first hlookup
    | some entry =>
      rw [hlookup, if_neg (Option.some_ne_none _)] at hcurrent
      simp only [Runtime.mount, hlookup, Option.elim_some, hcurrent]
      have hentry : entry = (payloadBytes, entry.2) := Prod.ext (hsize entry hlookup) rfl
      exact h.entries.mount_again (hlookup.trans (congrArg some hentry))
  have hpeak : ∀ path, (rt.mount (ids.tokenId token) payloadId tokens.length
      payloadBytes).maxValues path = if path = .mountedBytesPeak then
        max (rt.maxValues .mountedBytesPeak) current else rt.maxValues path := by
    intro path
    rw [hcurrent]
    by_cases hsame : path = .mountedBytesPeak
    · subst hsame
      simp only [Runtime.mount, Function.update_self, if_true]
    · simp only [Runtime.mount, Function.update_of_ne hsame, if_neg hsame]
  refine ⟨?_, h.settlements.append rfl, fun path' hsum => ?_, ?_, ?_,
    h.record rfl rfl hchecks (.inr rfl) fun path' => ?_, ?_, le_rfl, h.controlCap,
    fun path' => ?_, ?_, h.phase_append hpre rfl hpre (fun hsettled _ => hsettled)
      fun _ hnot => absurd hactive hnot⟩
  · exact h.reserves.mono (by simp [Runtime.append, Runtime.mount])
  · have hne : SharedPath.mountedBytesPeak ≠ path' := fun heq => by
      subst heq
      cases hsum
    rw [Runtime.append, totalCommitted_append, admissionFields, if_neg hne, add_zero]
    exact h.total path' hsum
  · rw [Runtime.append, List.length_append]
    exact h.mounts.mount hids rfl
  · rw [Runtime.append, hmounted]
    exact hentries
  · change (rt.mount (ids.tokenId token) payloadId tokens.length payloadBytes).current path' =
      if SharedPath.mountedBytesPeak = path' then current else rt.current path'
    rw [Runtime.current_eq, Runtime.current_eq, hmounted, hpeak]
    by_cases hsame : path' = .mountedBytesPeak
    · subst hsame
      simp [SharedPath.reducer]
    · simp only [if_neg hsame, if_neg (Ne.symm hsame)]
      rfl
  · rw [Runtime.append, countedChecks_append, Runtime.mount, ← hchecks, hcontrol, add_zero]
    rfl
  · rw [Runtime.append, hpeak]
    split
    · next hsame =>
      subst hsame
      exact ⟨le_max_of_le_left (h.peaks _).1, max_le (h.peaks _).2 hcap⟩
    · exact h.peaks path'
  · rw [Runtime.append, hpeak, if_pos rfl, hmounted]
    exact le_max_right _ _

/-- A token that is closed. -/
theorem unmount (hbegun : begun = 0) (hids : ids.Distinct) {o : MountToken ι × ℕ}
    (ho : o ∈ opens) {kind : ReceiptKind} (hkind : kind.settles = false) {references : ℤ}
    (hlookup : rt.mountEntries.lookup o.1.payloadId = some (o.1.payloadBytes, references))
    (accepted : Bool) (terminalCode : Option TerminalCode) :
    let closed := rt.unmount (ids.tokenId o.1) o.1.payloadId o.1.payloadBytes references
    ∃ l r, opens = l ++ o :: r ∧ Books ids profile reservations tokens
      (closed.append (closedFields kind o.1 o.1.payloadBytes references rt.mountedCurrentBytes
        closed.mountedCurrentBytes (rt.maxValues .mountedBytesPeak) rt.controlCapChecks accepted
        terminalCode) prerequisite) 0 b order (l ++ r) := by
  intro closed
  obtain ⟨l, r, hopens⟩ := List.append_of_mem ho
  have hcounted := h.control
  have hchecks : rt.controlCapChecks = countedChecks rt.receipts := by omega
  have hentries : Entries (l ++ r) closed.mountEntries closed.mountedCurrentBytes := by
    by_cases hlast : references = 1
    · subst hlast
      simp only [closed, Runtime.unmount, Runtime.release, Runtime.closeToken, if_true]
      exact h.entries.unmount_last hopens hlookup
    · simp only [closed, Runtime.unmount, Runtime.release, Runtime.closeToken, if_neg hlast]
      exact h.entries.unmount_more hopens hlookup hlast
  have hle : closed.mountedCurrentBytes ≤ rt.mountedCurrentBytes := by
    simp only [closed, Runtime.unmount, Runtime.release, Runtime.closeToken]
    split <;> omega
  refine ⟨l, r, hopens, ?_, h.settlements.append hkind, fun path' hsum => ?_, ?_, hentries,
    h.record rfl rfl hchecks (.inl rfl) fun path' => ?_, ?_, le_rfl, h.controlCap, h.peaks,
    hle.trans h.mountedPeak, h.phase_append hpre rfl hpre (fun hsettled _ => hsettled)
      fun hnil _ => ?_⟩
  · exact h.reserves.mono (by simp [Runtime.append, closed, Runtime.unmount, Runtime.release,
      Runtime.closeToken])
  · rw [Runtime.append, totalCommitted_append, closedFields, ite_self, add_zero]
    exact h.total path' hsum
  · exact (h.mounts.unmount hids hopens).mono
      (by simp [Runtime.append, closed, Runtime.unmount, Runtime.release, Runtime.closeToken])
  · change closed.current path' =
      if SharedPath.mountedBytesPeak = path' then closed.mountedCurrentBytes else rt.current path'
    rw [Runtime.current_eq, Runtime.current_eq]
    by_cases hsame : path' = .mountedBytesPeak
    · subst hsame
      simp [SharedPath.reducer]
    · simp only [if_neg hsame, if_neg (Ne.symm hsame)]
      rfl
  · rw [Runtime.append, countedChecks_append]
    exact hchecks.trans (by simp [closed, Runtime.unmount, Runtime.release, Runtime.closeToken,
      closedFields])
  · rw [hnil] at hopens
    simp at hopens

/-- An outstanding reservation that is settled with what was used. -/
theorem settle (hbegun : begun = 0) (hids : ids.Distinct) {a : Use ι} (ha : a ∈ b)
    (hopen : a.charge = none) {kind : ReceiptKind} (hkind : kind.settles = true) {actual : ℕ}
    {refunded : ℤ} (hrefunded : 0 ≤ refunded) {accepted : Bool}
    (hbalance : kind ≠ .sumProtocolOverreturn → (a.upper : ℤ) = actual + refunded)
    (hoverreturn : kind = .sumProtocolOverreturn → a.upper < actual ∧ refunded = 0)
    (hrefused : accepted = false → a.upper ≤ actual) :
    let issued := a.token.1
    let settled := rt.settle (ids.reservationId issued) issued actual
    Books ids profile reservations tokens
      (settled.append (settlementFields issued kind actual refunded (rt.value issued.path)
        (settled.value issued.path) rt.controlCapChecks accepted) prerequisite) 0
      (Budget.settle a.token actual b) (order ++ [a.settled actual]) opens := by
  intro issued settled
  obtain ⟨haccount, hupper⟩ := h.reserves.bound a ha
  have hcounted := h.control
  have hchecks : rt.controlCapChecks = countedChecks rt.receipts := by omega
  have hsum : issued.path.reducer = .sum := haccount ▸ h.reserves.sums a ha
  have hcurrent : rt.current issued.path = rt.value issued.path := by
    rw [Runtime.current_eq, if_pos hsum]
  have hreserves := h.reserves.settle hids ha hopen actual
  rw [haccount, hupper] at hreserves
  have hsettles : Settles (a.settled actual) (⟨settlementFields issued kind actual refunded
      (rt.value issued.path) (settled.value issued.path) rt.controlCapChecks accepted,
      prerequisite.prerequisiteId, rt.receipts.length + 1⟩ : Receipt ι) := by
    refine ⟨haccount.symm, rfl, ?_, ⟨actual, rfl, rfl⟩, hrefunded, fun hne => ?_, fun heq => ?_,
      fun hfalse => ?_⟩
    · exact congrArg Nat.cast hupper.symm
    · exact (congrArg Nat.cast hupper.symm).trans (hbalance hne)
    · obtain ⟨hlt, hzero⟩ := hoverreturn heq
      rw [hupper] at hlt
      exact ⟨Int.ofNat_lt.mpr hlt, hzero⟩
    · exact Int.ofNat_le.mpr (hupper ▸ hrefused hfalse)
  refine ⟨hreserves.mono ?_, h.settlements.settle h.reserves.within.nodup ha hopen hkind hsettles,
    fun path' hsum' => ?_, ?_, h.entries, h.record rfl hcurrent.symm hchecks (.inl rfl)
      fun path' => ?_, ?_, le_rfl, h.controlCap, h.peaks, h.mountedPeak,
    h.phase_append hpre rfl hpre (fun hsettled _ a' ha' => ?_) fun hopens _ => hopens⟩
  · simp [Runtime.append, settled, Runtime.settle]
  · change Function.update rt.sumCommitted issued.path (rt.sumCommitted issued.path + actual)
      path' = totalCommitted (rt.receipts ++ [_]) path'
    rw [totalCommitted_append]
    by_cases hsame : issued.path = path'
    · subst hsame
      rw [Function.update_self, h.total _ hsum, settlementFields, if_pos rfl]
    · rw [Function.update_of_ne (Ne.symm hsame), h.total _ hsum', settlementFields, if_neg hsame,
        add_zero]
  · exact h.mounts.mono (by simp [Runtime.append, settled, Runtime.settle])
  · change settled.current path' =
      if issued.path = path' then settled.value issued.path else rt.current path'
    rw [Runtime.current_eq, Runtime.current_eq]
    by_cases hsame : issued.path = path'
    · subst hsame
      rw [if_pos hsum, if_pos rfl]
    · rw [if_neg hsame]
      simp only [Runtime.value, settled, Runtime.settle, Function.update_of_ne (Ne.symm hsame)]
  · rw [Runtime.append, countedChecks_append]
    exact hchecks.trans (by simp [settled, Runtime.settle, settlementFields])
  · exact absurd hopen (hsettled a ha)

end Books

end Acfqp.SharedCap
