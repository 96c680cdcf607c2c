import Acfqp.SharedCap.Discipline

/-!
# Admissions

An admission is accepted by an active session only. One that would exceed a cap exhausts it, and
everything else that is wrong fails the session.
-/

namespace Acfqp.SharedCap

open Library

variable {ι : Type} [DecidableEq ι] {ids : SessionIds ι} {profile : SharedCapProfile ι}
  {p : Process ι} {g : History ι} {seen : Inspection} {α : Type}

section Failures

variable (hids : ids.Distinct)
include hids

theorem protocolFail_ends (h : Sound ids profile p g) (message : String)
    {Q : α → Process ι → Prop} :
    Ends Q (Stops ids profile p.sealed g) (attempt (protocolFail ids message) p) := by
  obtain ⟨p', g', hrun, hfailed⟩ := protocolFail_eq (α := α) hids h message
  rw [hrun]
  exact ⟨g', hfailed⟩

/-- A failure after what was outstanding went on or was charged in full. -/
theorem protocolFail_ends_of_advances {p₁ : Process ι} {g₁ : History ι}
    (hadvances : Advances p.sealed p₁.sealed g g₁)
    (hconservative : Conservative p.sealed p₁.sealed g g₁)
    (h : Sound ids profile p₁ g₁) (message : String) {Q : α → Process ι → Prop} :
    Ends Q (Stops ids profile p.sealed g) (attempt (protocolFail ids message) p₁) := by
  obtain ⟨p', g', hrun, hfailed⟩ := protocolFail_eq (α := α) hids h message
  rw [hrun]
  exact ⟨g', hfailed.of_advances hadvances hconservative⟩

theorem runtimeValue_ends (h : Sound ids profile p g) (value : Option α) (label : String) :
    Ends (fun a p' => p' = p ∧ value = some a) (Stops ids profile p.sealed g)
      (attempt (runtimeValue ids value label) p) := by
  cases value with
  | none => exact protocolFail_ends hids h _
  | some a => exact ⟨rfl, rfl⟩

omit hids in
theorem relabel_ends {message : String} {x : SessionM ι α} {Q : α → Process ι → Prop}
    {rt : Runtime ι} (h : Ends Q (Stops ids profile rt g) (attempt x p)) :
    Ends Q (Stops ids profile rt g) (attempt (relabel message x) p) := by
  refine h.tryCatch fun e t he => ?_
  cases e with
  | protocolFailure _ => exact he
  | capExhausted path cap current requested receiptId => exact he
  | authority _ => exact he
  | callback => exact he
  | nested => exact he

theorem assertLiveSession_ends (h : Held ids profile p g) :
    Ends (fun _ p' => p' = p ∧ Sound ids profile p g) (Stops ids profile p.sealed g)
      (attempt (assertLiveSession ids seen) p) := by
  have hrestored : Sound ids profile { p with live := p.sealed } g := ⟨h, rfl⟩
  have hfail : ∀ message : String, Ends (fun _ p' => p' = p ∧ Sound ids profile p g)
      (Stops ids profile p.sealed g)
      (attempt (do restoreFromIssuerSeal; protocolFail ids message : SessionM ι Unit) p) := by
    intro message
    rw [restoreFromIssuerSeal, attempt_bind_ok (attempt_modify _ p)]
    exact protocolFail_ends hids hrestored message
  rw [assertLiveSession, attempt_bind_ok (attempt_get p)]
  split
  · exact hfail _
  · split
    · exact hfail _
    · next hsame =>
      rw [not_or, not_not] at hsame
      exact ⟨rfl, h, hsame.2⟩

theorem assertLiveSession_bind {f : Unit → SessionM ι α} {Q : α → Process ι → Prop}
    (h : Held ids profile p g)
    (hf : Sound ids profile p g → Ends Q (Stops ids profile p.sealed g) (attempt (f ()) p)) :
    Ends Q (Stops ids profile p.sealed g) (attempt (assertLiveSession ids seen >>= f) p) := by
  refine (assertLiveSession_ends hids h).bind fun _ t ht => ?_
  obtain ⟨rfl, hsound⟩ := ht
  exact hf hsound

theorem assertProfileCurrent_ends (h : Held ids profile p g) :
    Ends (fun _ p' => p' = p ∧ Sound ids profile p g) (Stops ids profile p.sealed g)
      (attempt (assertProfileCurrent ids seen) p) := by
  refine assertLiveSession_bind hids h fun hsound => ?_
  split
  · exact protocolFail_ends hids hsound _
  · exact ⟨rfl, hsound⟩

variable (h : Sound ids profile p g)
include h

theorem assertReceiptsCurrent_ends :
    Ends (fun _ p' => p' = p) (Stops ids profile p.sealed g)
      (attempt (assertReceiptsCurrent ids seen) p) := by
  rw [assertReceiptsCurrent, attempt_bind_ok (attempt_runtime p)]
  split
  · exact protocolFail_ends hids h _
  · exact rfl

theorem ensureActive_ends :
    Ends (fun _ p' => p' = p ∧ p.sealed.state = .constructionActive) (Stops ids profile p.sealed g)
      (attempt (ensureActive ids seen) p) := by
  refine (assertProfileCurrent_ends hids h.held).bind fun _ _ ht => ?_
  obtain ⟨rfl, -⟩ := ht
  refine (assertReceiptsCurrent_ends hids h).bind fun _ _ ht => ?_
  subst ht
  rw [attempt_bind_ok (attempt_runtime _)]
  split
  · exact protocolFail_ends hids h _
  · next hactive =>
    rw [not_or, not_not, h.live] at hactive
    exact ⟨rfl, hactive.1⟩

theorem rowAndSite_ends (path : Option SharedPath) (siteId : Option ι) (reducer : Reducer) :
    Ends (fun r p' => p' = p ∧ path = some r.1 ∧ r.1.reducer = reducer ∧
      p.sealed.state = .constructionActive) (Stops ids profile p.sealed g)
      (attempt (rowAndSite ids profile seen path siteId reducer) p) := by
  refine (ensureActive_ends hids h).bind fun _ _ ht => ?_
  obtain ⟨rfl, hactive⟩ := ht
  cases path with
  | none => exact protocolFail_ends hids h _
  | some path =>
    simp only
    split
    · exact protocolFail_ends hids h _
    · next hreducer =>
      cases siteId with
      | none => exact protocolFail_ends hids h _
      | some siteId =>
        simp only
        split
        · exact protocolFail_ends hids h _
        · exact ⟨rfl, rfl, not_not.mp hreducer, hactive⟩

end Failures

/-! ## The beginning of an admission -/

/-- An active session may begin one more check of its caps. -/
structure Admitting (profile : SharedCapProfile ι) (p : Process ι) : Prop where
  active : p.sealed.state = .constructionActive
  checks : p.sealed.controlCapChecks + 1 ≤ profile.maxControlCapChecks

section Begin

variable (hids : ids.Distinct) (h : Sound ids profile p g)

def Process.begun (p : Process ι) : Process ι := { p with live := p.sealed.checked }

include h in
theorem Sound.restored : ({ p with live := p.sealed } : Process ι) = p :=
  congrArg (fun rt => ({ p with live := rt } : Process ι)) h.live.symm

include h in
theorem Sound.exists_prerequisite (hactive : p.sealed.state = .constructionActive) :
    ∃ prerequisite, p.sealed.decisionPrerequisite = some prerequisite :=
  Option.ne_none_iff_exists'.mp (h.held.phase.authorised (.inl hactive))

/-- The caps are exhausted, after what an active session has sealed went on. -/
theorem exhaust_eq {rt s : Runtime ι} (hactive : p.sealed.state = .constructionActive)
    (hbooks : Books ids profile p.reservations p.tokens rt 0 g.uses g.settled g.opens)
    (hactive' : rt.state = .constructionActive) (hreceipts : p.sealed.receipts <+: rt.receipts)
    (hpeaks : rt.maxValues = p.sealed.maxValues) :
    let p' : Process ι := { p with live := rt.exhausted, sealed := rt.exhausted }
    attempt (exhaust (ι := ι)) { p with live := rt, sealed := s } = (.ok (), p') ∧
      Sound ids profile p' g ∧ Advances p.sealed p'.sealed g g := by
  have hexhausted := hbooks.exhausted hactive'
  refine ⟨?_, ⟨hexhausted, rfl⟩, ⟨.refl _, List.prefix_rfl, hreceipts, fun path => ?_, ?_,
    fun hrank => ?_⟩⟩
  · rw [exhaust, attempt_bind_ok (attempt_update _ _)]
    exact attempt_refresh (p := { p with live := rt.exhausted, sealed := s })
      hexhausted.documented
  · exact (congrFun hpeaks path).ge
  · rw [hactive]
    exact Nat.le_succ 1
  · rw [hactive] at hrank
    exact absurd hrank (by decide)

include hids h

theorem beginAdmission_ends (path : Option SharedPath) (siteId : Option ι) (reducer : Reducer) :
    Ends (fun r p' => p' = p.begun ∧ path = some r.1 ∧ r.1.reducer = reducer ∧
      r.2.2 = p.sealed.controlCapChecks ∧ Admitting profile p) (Stops ids profile p.sealed g)
      (attempt (beginAdmission ids profile seen path siteId reducer) p) := by
  refine (rowAndSite_ends hids h path siteId reducer).bind fun r t ht => ?_
  obtain ⟨ht, hpath, hreducer, hactive⟩ := ht
  rw [ht]
  simp only
  rw [attempt_bind_ok (attempt_runtime p), h.live]
  split
  · obtain ⟨hrun, hsound, hadvances⟩ :=
      exhaust_eq (s := p.sealed) hactive h.held hactive List.prefix_rfl rfl
    rw [h.restored] at hrun
    rw [attempt_bind_ok hrun]
    exact ⟨hsound, hadvances, hactive, rfl⟩
  · next hchecks =>
    rw [attempt_bind_ok (attempt_update _ _), h.live]
    exact ⟨rfl, hpath, hreducer, rfl, hactive, not_lt.mp hchecks⟩

omit hids
variable (hadmitting : Admitting profile p)
include hadmitting

theorem begun_books : Books ids profile p.reservations p.tokens p.begun.live 1 g.uses g.settled
    g.opens := by
  have hbooks := h.held.checked hadmitting.checks
  rwa [zero_add] at hbooks

theorem rejectCap_ends {kind : ReceiptKind} (hkind : kind.settles = false) {path : SharedPath}
    {siteId : ι} {requested : ℕ} {current controlBefore retainedPeak : ℤ}
    (hcurrent : current = p.sealed.current path) (hpeak : 0 ≤ retainedPeak)
    (hcontrol : controlBefore = p.sealed.controlCapChecks) {Q : α → Process ι → Prop} :
    Ends Q (Stops ids profile p.sealed g) (attempt (rejectCap ids profile kind path siteId requested
      current controlBefore retainedPeak) p.begun) := by
  obtain ⟨prerequisite, hpre⟩ := h.exists_prerequisite hadmitting.active
  have hbegun : p.begun.live.controlCapChecks = controlBefore + 1 := by rw [hcontrol]; rfl
  have hbooks := (begun_books h hadmitting).reject path siteId hpre rfl hkind requested
    retainedPeak hbegun
  have hnonneg := h.held.value_nonneg path
  have hchecks := h.held.documented.2.1
  subst hcurrent
  have hamounts : ∀ field ∈ (rejectionFields kind path siteId requested (p.sealed.current path)
      controlBefore retainedPeak).amounts, 0 ≤ field.2 := by
    simp only [ReceiptFields.amounts, rejectionFields, List.forall_mem_cons]
    exact ⟨Int.natCast_nonneg _, le_rfl, le_rfl, hnonneg, hnonneg, hpeak, hcontrol ▸ hchecks,
      by simp⟩
  have hrun := attempt_append (p := p.begun) hpre hamounts hbooks.documented
  obtain ⟨hrun', hsound, hadvances⟩ := exhaust_eq hadmitting.active hbooks hadmitting.active
    (List.prefix_append _ _) rfl
  rw [rejectCap, attempt_bind_ok hrun]
  refine (congrArg (Ends Q _) (attempt_bind_ok hrun')).mpr ?_
  exact ⟨hsound, hadvances, hadmitting.active, rfl⟩

end Begin

section Accepted

variable (hids : ids.Distinct)
include hids

/-- What an accepted admission leaves of an active session. -/
structure Accepts (ids : SessionIds ι) (profile : SharedCapProfile ι) (p : Process ι)
    (g : History ι) (p' : Process ι) (g' : History ι) : Prop where
  sound : Sound ids profile p' g'
  advances : Advances p.sealed p'.sealed g g'
  active : p.sealed.state = .constructionActive
  state : p'.sealed.state = .constructionActive
  settled : g'.settled = g.settled

omit hids in
/-- The receipt of an admission seals the books that it keeps. -/
theorem accept_eq (rt : Runtime ι) (g' : History ι) {fields : ReceiptFields ι}
    {reservations : List (Reservation ι)} {tokens : List (MountToken ι)}
    {prerequisite : DecisionPrerequisite ι}
    (hactive : p.sealed.state = .constructionActive) (hstate : rt.state = .constructionActive)
    (hpre : rt.decisionPrerequisite = some prerequisite)
    (hamounts : ∀ amount ∈ fields.amounts, 0 ≤ amount.2)
    (hreceipts : rt.receipts = p.sealed.receipts)
    (hpeaks : ∀ path, p.sealed.maxValues path ≤ rt.maxValues path)
    (huses : Budget.Continues g.uses g'.uses) (hsettled : g'.settled = g.settled)
    (hbooks : Books ids profile reservations tokens (rt.append fields prerequisite) 0 g'.uses
      g'.settled g'.opens) :
    ∃ p', attempt (discard (appendReceipt fields)) ⟨rt, p.sealed, reservations, tokens⟩ =
        (.ok (), p') ∧ Accepts ids profile p g p' g' ∧ p'.reservations = reservations ∧
      p'.tokens = tokens := by
  refine ⟨⟨rt.append fields prerequisite, rt.append fields prerequisite, reservations, tokens⟩, ?_,
    ⟨⟨hbooks, rfl⟩, ⟨huses, hsettled ▸ List.prefix_rfl, ?_, hpeaks, ?_, fun hrank => ?_⟩, hactive,
      hstate, hsettled⟩, rfl, rfl⟩
  · exact attempt_discard_ok (attempt_append (p := ⟨rt, p.sealed, reservations, tokens⟩) hpre
      hamounts hbooks.documented)
  · exact hreceipts ▸ List.prefix_append _ _
  · exact (congrArg SessionState.rank (hactive.trans hstate.symm)).le
  · rw [hactive] at hrank
    exact absurd hrank (by decide)

/-- An accepted reservation, which is the next use of its budget. -/
def NextUse (ids : SessionIds ι) (profile : SharedCapProfile ι) (p : Process ι) (g : History ι)
    (path : Option SharedPath) (amount : Option ℕ) (object : ℕ) (p' : Process ι) : Prop :=
  object = p.reservations.length ∧ ∃ r g', amount = some r.amount ∧ path = some r.path ∧
    p'.reservations = p.reservations ++ [r] ∧ g'.uses = g.uses ++ [newUse r object] ∧
    Accepts ids profile p g p' g'

variable (h : Sound ids profile p g)
include h

theorem admitSum_ends (path : Option SharedPath) (amount : Option ℕ) (siteId : Option ι) :
    Ends (NextUse ids profile p g path amount) (Stops ids profile p.sealed g)
      (attempt (admitSum ids profile seen path amount siteId) p) := by
  refine (runtimeValue_ends hids h amount _).bind fun amount' t ht => ?_
  obtain ⟨ht, hamount⟩ := ht
  rw [ht]
  refine (beginAdmission_ends hids h path siteId .sum).bind fun r t ht => ?_
  obtain ⟨path', siteId', controlBefore⟩ := r
  obtain ⟨ht, hpath, hreducer, hcontrol, hadmitting⟩ := ht
  rw [ht]
  simp only at hpath hreducer hcontrol ⊢
  rw [attempt_bind_ok (attempt_runtime _)]
  have hcurrent : p.begun.live.value path' = p.sealed.current path' := by
    rw [Runtime.current_eq, if_pos hreducer]
    rfl
  have hnonneg : 0 ≤ p.begun.live.value path' := hcurrent ▸ h.held.value_nonneg path'
  split
  · exact rejectCap_ends h hadmitting rfl hcurrent hnonneg hcontrol
  · next hcap =>
    obtain ⟨prerequisite, hpre⟩ := h.exists_prerequisite hadmitting.active
    have hbegun : p.begun.live.controlCapChecks = controlBefore + 1 := by rw [hcontrol]; rfl
    have hbooks := (begun_books h hadmitting).reserve siteId' hpre rfl hids
      hadmitting.active hreducer (not_lt.mp hcap) hbegun
    have hchecks := h.held.documented.2.1
    have hamounts : ∀ field ∈ (admissionFields .sumReserved path' siteId' amount' 0
        (p.begun.live.value path') (p.begun.live.value path' + amount')
        (p.begun.live.value path' + amount') controlBefore).amounts, 0 ≤ field.2 := by
      have hafter := add_nonneg hnonneg (Int.natCast_nonneg amount')
      simp only [ReceiptFields.amounts, admissionFields, List.forall_mem_cons]
      exact ⟨Int.natCast_nonneg _, le_rfl, le_rfl, hnonneg, hafter, hafter, hcontrol ▸ hchecks,
        by simp⟩
    obtain ⟨p', hrun, haccepts, hreservations, -⟩ := accept_eq
      (p.begun.live.reserve _ p.reservations.length path' amount') ⟨_, g.settled, g.opens⟩
      hadmitting.active hadmitting.active hpre hamounts rfl (fun _ => le_rfl) (.append g.uses _)
      rfl hbooks
    rw [attempt_bind_ok (attempt_get _), attempt_bind_ok (attempt_modify _ _),
      attempt_bind_ok (attempt_update _ _)]
    refine (congrArg (Ends _ _) (attempt_bind_ok hrun)).mpr ?_
    exact ⟨rfl, _, _, hamount, hpath, hreservations, rfl, haccepts⟩

omit h in
theorem reserveSum_ends (h : Held ids profile p g) (path : Option SharedPath) (amount : Option ℕ)
    (siteId : Option ι) :
    Ends (NextUse ids profile p g path amount) (Stops ids profile p.sealed g)
      (attempt (reserveSum ids profile seen path amount siteId) p) := by
  refine assertLiveSession_bind hids h fun hsound => ?_
  split
  · exact protocolFail_ends hids hsound _
  · exact admitSum_ends hids hsound path amount siteId

omit h in
theorem admitMax_ends (h : Held ids profile p g) (path : Option SharedPath) (value : Option ℕ)
    (siteId : Option ι) :
    Ends (fun _ p' => Accepts ids profile p g p' g) (Stops ids profile p.sealed g)
      (attempt (admitMax ids profile seen path value siteId) p) := by
  refine assertLiveSession_bind hids h fun hsound => ?_
  refine (runtimeValue_ends hids hsound value _).bind fun value' t ht => ?_
  obtain ⟨ht, -⟩ := ht
  rw [ht]
  split
  · exact protocolFail_ends hids hsound _
  · next hmounted =>
    refine (beginAdmission_ends hids hsound path siteId .max).bind fun r t ht => ?_
    obtain ⟨path', siteId', controlBefore⟩ := r
    obtain ⟨ht, hpath, hreducer, hcontrol, hadmitting⟩ := ht
    rw [ht]
    simp only at hpath hreducer hcontrol ⊢
    have hne : path' ≠ .mountedBytesPeak := fun heq => hmounted (heq ▸ hpath)
    rw [attempt_bind_ok (attempt_runtime _)]
    have hnonneg : 0 ≤ p.begun.live.maxValues path' := (hsound.held.peaks path').1
    split
    · refine rejectCap_ends hsound hadmitting rfl ?_ hnonneg hcontrol
      rw [Runtime.current_eq, if_neg (by simp [hreducer]), if_neg hne]
      rfl
    · next hcap =>
      obtain ⟨prerequisite, hpre⟩ := hsound.exists_prerequisite hadmitting.active
      have hbegun : p.begun.live.controlCapChecks = controlBefore + 1 := by rw [hcontrol]; rfl
      have hbooks := (begun_books hsound hadmitting).admitPeak siteId' hpre rfl hreducer hne
        (not_lt.mp hcap) hbegun
      have hchecks := hsound.held.documented.2.1
      have hpeak := le_max_of_le_left (c := (value' : ℤ)) hnonneg
      have hamounts : ∀ field ∈ (admissionFields .maxAdmitted path' siteId' value' value'
          (p.begun.live.maxValues path') (max (p.begun.live.maxValues path') value')
          (max (p.begun.live.maxValues path') value') controlBefore).amounts, 0 ≤ field.2 := by
        simp only [ReceiptFields.amounts, admissionFields, List.forall_mem_cons]
        exact ⟨Int.natCast_nonneg _, Int.natCast_nonneg _, le_rfl, hnonneg, hpeak, hpeak,
          hcontrol ▸ hchecks, by simp⟩
      have hpeaks : ∀ path, p.sealed.maxValues path ≤ (p.begun.live.admitPeak path'
          (max (p.begun.live.maxValues path') value')).maxValues path := by
        intro path
        by_cases hsame : path = path'
        · subst hsame
          simp only [Runtime.admitPeak, Function.update_self]
          exact le_max_left _ _
        · simp only [Runtime.admitPeak, Function.update_of_ne hsame]
          exact le_rfl
      obtain ⟨p', hrun, haccepts, -⟩ := accept_eq (p.begun.live.admitPeak path'
        (max (p.begun.live.maxValues path') value')) g hadmitting.active hadmitting.active hpre
        hamounts rfl hpeaks (.refl g.uses) rfl hbooks
      rw [attempt_bind_ok (attempt_update _ _)]
      refine (congrArg (Ends _ _) hrun).mpr ?_
      exact haccepts

omit h in
theorem openMountVisibility_ends (h : Held ids profile p g) (payloadId : Option ι)
    (payloadBytes : Option ℕ) (siteId : Option ι) :
    Ends (fun object p' => object = p.tokens.length ∧ ∃ t,
      payloadId = some t.payloadId ∧ payloadBytes = some t.payloadBytes ∧
      p'.tokens = p.tokens ++ [t] ∧
      Accepts ids profile p g p' { g with opens := g.opens ++ [(t, object)] })
      (Stops ids profile p.sealed g)
      (attempt (openMountVisibility ids profile seen payloadId payloadBytes siteId) p) := by
  refine assertLiveSession_bind hids h fun hsound => ?_
  refine (runtimeValue_ends hids hsound payloadId _).bind fun payloadId' t ht => ?_
  obtain ⟨ht, hpayload⟩ := ht
  rw [ht]
  refine (runtimeValue_ends hids hsound payloadBytes _).bind fun bytes t ht => ?_
  obtain ⟨ht, hbytes⟩ := ht
  rw [ht, attempt_bind_ok (attempt_runtime _), hsound.live]
  dsimp only
  split
  · exact protocolFail_ends hids hsound _
  · next hsize =>
    refine (beginAdmission_ends hids hsound _ siteId .max).bind fun r t ht => ?_
    obtain ⟨path', siteId', controlBefore⟩ := r
    obtain ⟨ht, hpath, -, hcontrol, hadmitting⟩ := ht
    rw [ht]
    simp only at hpath hcontrol ⊢
    obtain rfl := Option.some.inj hpath
    rw [attempt_bind_ok (attempt_runtime _)]
    have hnonneg : 0 ≤ p.begun.live.mountedCurrentBytes := hsound.held.entries.nonneg
    have hpeak : 0 ≤ p.begun.live.maxValues .mountedBytesPeak :=
      (hsound.held.peaks .mountedBytesPeak).1
    generalize hcurrent : (if p.sealed.mountEntries.lookup payloadId' = none then
      p.begun.live.mountedCurrentBytes + (bytes : ℤ) else p.begun.live.mountedCurrentBytes) =
      current
    split
    · exact rejectCap_ends hsound hadmitting rfl rfl hpeak hcontrol
    · next hcap =>
      obtain ⟨prerequisite, hpre⟩ := hsound.exists_prerequisite hadmitting.active
      have hbefore : (if p.sealed.mountEntries.lookup payloadId' = none then current - (bytes : ℤ)
          else current) = p.begun.live.mountedCurrentBytes := by
        rw [← hcurrent]
        split <;> ring
      obtain ⟨token, htoken⟩ : ∃ token : MountToken ι, token =
        ⟨siteId', payloadId', bytes, p.begun.live.receipts.length + 1⟩ := ⟨_, rfl⟩
      obtain ⟨rt, hrt⟩ : ∃ rt : Runtime ι, rt = p.begun.live.mount (ids.tokenId token) payloadId'
        p.tokens.length bytes := ⟨_, rfl⟩
      have hmounted : rt.mountedCurrentBytes = current := by rw [hrt, ← hcurrent]; rfl
      have hmax : rt.maxValues .mountedBytesPeak =
          max (p.begun.live.maxValues .mountedBytesPeak) current := by
        rw [hrt, ← hcurrent]
        simp only [Runtime.mount, Function.update_self]
        rfl
      have hsize' : ∀ entry, p.begun.live.mountEntries.lookup payloadId' = some entry →
          entry.1 = bytes := fun entry hentry => by
        by_contra hne
        exact hsize ((Option.any_eq_true ..).mpr ⟨entry, hentry, decide_eq_true hne⟩)
      have hbegun : p.begun.live.controlCapChecks = controlBefore + 1 := by rw [hcontrol]; rfl
      have hbooks := (begun_books hsound hadmitting).mount siteId' hpre rfl hids hadmitting.active
        hsize' hcurrent.symm (not_lt.mp hcap)
        (if p.sealed.mountEntries.lookup payloadId' = none then (bytes : ℤ) else 0) hbegun
      simp only [← htoken, ← hrt] at hbooks
      have hchecks := hsound.held.documented.2.1
      have hnonneg' : 0 ≤ current := by
        rw [← hcurrent]
        split
        · exact add_nonneg hnonneg (Int.natCast_nonneg _)
        · exact hnonneg
      have hpeaks : ∀ path, p.sealed.maxValues path ≤ rt.maxValues path := by
        intro path
        by_cases hsame : path = .mountedBytesPeak
        · subst hsame
          exact hmax ▸ le_max_left _ _
        · rw [hrt]
          simp only [Runtime.mount, Function.update_of_ne hsame]
          exact le_rfl
      have hamounts : ∀ field ∈ (admissionFields .mountOpened .mountedBytesPeak siteId' bytes
          (if p.sealed.mountEntries.lookup payloadId' = none then (bytes : ℤ) else 0)
          p.begun.live.mountedCurrentBytes current
          (max (p.begun.live.maxValues .mountedBytesPeak) current) controlBefore).amounts,
          0 ≤ field.2 := by
        simp only [ReceiptFields.amounts, admissionFields, List.forall_mem_cons]
        refine ⟨Int.natCast_nonneg _, ?_, le_rfl, hnonneg, hnonneg', le_max_of_le_left hpeak,
          hcontrol ▸ hchecks, by simp⟩
        split
        · exact Int.natCast_nonneg _
        · exact le_rfl
      obtain ⟨p', hrun, haccepts, -, htokens⟩ := accept_eq rt
        { g with opens := g.opens ++ [(token, p.tokens.length)] } hadmitting.active
        (hrt ▸ hadmitting.active) (hrt ▸ hpre) hamounts (hrt ▸ rfl) hpeaks (.refl g.uses) rfl hbooks
      rw [← hmax, ← hbefore, ← hmounted] at hrun
      rw [← htoken, attempt_bind_ok (attempt_get _), attempt_bind_ok (attempt_modify _ _),
        attempt_bind_ok (attempt_update _ _), attempt_bind_ok (attempt_runtime _)]
      rw [hrt] at hrun
      refine (congrArg (Ends _ _) (attempt_bind_ok hrun)).mpr ?_
      refine ⟨rfl, token, ?_, ?_, htokens, haccepts⟩
      · rw [hpayload, htoken]
      · rw [hbytes, htoken]

end Accepted

end Acfqp.SharedCap
