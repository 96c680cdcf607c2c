import Acfqp.SharedCap.Admissions

/-!
# Settlements

A capability is settled once, by the call that presents it as it was issued. Every other
presentation fails the session, and charges what it can no longer account for.
-/

namespace Acfqp.SharedCap

open Library

variable {ι : Type} [DecidableEq ι] {ids : SessionIds ι} {profile : SharedCapProfile ι}
  {p : Process ι} {g : History ι} {seen : Inspection}

section Reservations

variable (hids : ids.Distinct)
include hids

/-- A failure that first charges the reservation that was presented. -/
theorem rejectReservation_ends (h : Sound ids profile p g) {object : ℕ} {issued : Reservation ι}
    (hissued : p.reservations[object]? = some issued) (message : String) {α : Type}
    {Q : α → Process ι → Prop} :
    Ends Q (Stops ids profile p.sealed g) (attempt (do
      conservativelySettleReservation ids object issued .sumProtocolCapabilityRejected
      protocolFail ids message) p) := by
  obtain ⟨p₁, g₁, hrun, hsound, hadvances, hconservative, -⟩ := conservativelySettle_eq hids h
    hissued .sumProtocolCapabilityRejected rfl (by simp)
  rw [attempt_bind_ok hrun]
  exact protocolFail_ends_of_advances hids hadvances hconservative hsound message

theorem reservationSeal_ends (h : Sound ids profile p g) (presented : Presented) :
    Ends (fun r p' => p' = p ∧ presented = .issued r.1 .intact ∧
      ∃ a ∈ g.uses, a.token = (r.2, r.1) ∧ a.charge = none) (Stops ids profile p.sealed g)
      (attempt (reservationSeal ids presented) p) := by
  cases presented with
  | foreignType => exact protocolFail_ends hids h _
  | notLive => exact protocolFail_ends hids h _
  | otherSession condition => cases condition <;> exact protocolFail_ends hids h _
  | issued object condition =>
    rw [reservationSeal, attempt_bind_ok (attempt_get p)]
    cases hissued : p.reservations[object]? with
    | none => exact protocolFail_ends hids h _
    | some issued =>
      cases condition with
      | unreadable => exact rejectReservation_ends hids h hissued _
      | changed => exact rejectReservation_ends hids h hissued _
      | intact =>
        simp only
        rw [attempt_bind_ok (attempt_runtime p)]
        split
        · exact protocolFail_ends hids h _
        · next hlookup =>
          rw [not_not, h.live] at hlookup
          exact ⟨rfl, rfl, h.held.reserves.exists_of_lookup hids hissued hlookup⟩

theorem actualAmount_ends (h : Sound ids profile p g) {object : ℕ} {issued : Reservation ι}
    (hissued : p.reservations[object]? = some issued) (actual : Option (Option ℕ)) :
    Ends (fun c p' => p' = p ∧ (actual = none ∧ c = issued.amount ∨ actual = some (some c)))
      (Stops ids profile p.sealed g) (attempt (actualAmount ids object issued actual) p) := by
  rcases actual with _ | _ | actual
  · exact ⟨rfl, .inl ⟨rfl, rfl⟩⟩
  · exact rejectReservation_ends hids h hissued _
  · exact ⟨rfl, .inr rfl⟩

structure Commits (ids : SessionIds ι) (profile : SharedCapProfile ι) (p : Process ι)
    (g : History ι) (receipt : Receipt ι) (p' : Process ι) (a : Use ι) (c : ℕ) : Prop where
  mem : a ∈ g.uses
  outstanding : a.charge = none
  le : c ≤ a.upper
  sound : Sound ids profile p' (g.settle a c)
  advances : Advances p.sealed p'.sealed g (g.settle a c)
  state : p'.sealed.state = p.sealed.state
  checks : p'.sealed.controlCapChecks = p.sealed.controlCapChecks
  receipts : p'.sealed.receipts = p.sealed.receipts ++ [receipt]
  accepted : receipt.accepted = true

theorem commitSum_ends (h : Held ids profile p g) (reservation : Presented)
    (actual : Option (Option ℕ)) :
    Ends (fun receipt p' => ∃ a c, reservation = .issued a.token.2 .intact ∧
      (p.sealed.state = .constructionActive ∨ p.sealed.state = .capExhausted) ∧
      (actual = none ∧ c = a.upper ∨ actual = some (some c)) ∧
      Commits ids profile p g receipt p' a c) (Stops ids profile p.sealed g)
      (attempt (commitSum ids seen reservation actual) p) := by
  refine assertLiveSession_bind hids h fun hsound => ?_
  rw [attempt_bind_ok (attempt_runtime p), hsound.live]
  split
  · exact protocolFail_ends hids hsound _
  · next hstate =>
    have hphase : p.sealed.state = .constructionActive ∨ p.sealed.state = .capExhausted := by
      rw [not_and_or, not_not, not_not] at hstate
      exact hstate
    refine (reservationSeal_ends hids hsound reservation).bind fun r t ht => ?_
    obtain ⟨object, issued⟩ := r
    obtain ⟨ht, hpresented, a, ha, htoken, hopen⟩ := ht
    rw [ht]
    simp only at hpresented htoken ⊢
    have hissued : p.reservations[object]? = some issued :=
      h.reserves.mem_iff.mpr ⟨a, ha, htoken⟩
    refine (actualAmount_ends hids hsound hissued actual).bind fun c t ht => ?_
    obtain ⟨ht, hactual⟩ := ht
    rw [ht]
    obtain ⟨-, hupper⟩ := h.reserves.bound a ha
    have hfirst : a.token.1 = issued := congrArg Prod.fst htoken
    have hsecond : a.token.2 = object := congrArg Prod.snd htoken
    rw [hfirst] at hupper
    split
    · exact rejectReservation_ends hids hsound hissued _
    · next hle =>
      rw [not_lt] at hle
      have hkind : (if c = 0 then ReceiptKind.sumRefunded else .sumCommitted).settles = true := by
        split <;> rfl
      have hreturn : (if c = 0 then ReceiptKind.sumRefunded else .sumCommitted) ≠
          .sumProtocolOverreturn := by
        split <;> simp
      have hrefunded : (0 : ℤ) ≤ issued.amount - c := by omega
      obtain ⟨receipt, p', hrun, hsound', hadvances, hsame, hchecks, -, hreceipts, -,
          haccepted⟩ :=
        settleWith_eq hids hsound ha hopen _ hkind c true hrefunded
          (fun _ => by rw [hupper]; ring) (fun heq => absurd heq hreturn) (by simp)
      rw [hfirst] at hrun
      rw [hrun]
      refine ⟨a, c, ?_, hphase, ?_, ha, hopen, hupper ▸ hle, hsound', hadvances, hsame, hchecks,
        hreceipts, haccepted⟩
      · rw [hpresented, hsecond]
      · rwa [hupper]

theorem commitAmount_ends (h : Held ids profile p g) (reservation : Presented) (c : ℕ) :
    Ends (fun receipt p' => ∃ a, reservation = .issued a.token.2 .intact ∧
      (p.sealed.state = .constructionActive ∨ p.sealed.state = .capExhausted) ∧
      Commits ids profile p g receipt p' a c) (Stops ids profile p.sealed g)
      (attempt (commitSum ids seen reservation (some (some c))) p) := by
  refine (commitSum_ends hids h reservation _).mono (fun receipt p' hcommit => ?_)
    fun _ _ he => he
  obtain ⟨a, c, hpresented, hstate, hactual, hcommits⟩ := hcommit
  rcases hactual with ⟨hnone, -⟩ | hsome
  · cases hnone
  · obtain rfl := Option.some.inj (Option.some.inj hsome)
    exact ⟨a, hpresented, hstate, hcommits⟩

theorem refundSum_ends (h : Held ids profile p g) (reservation : Presented) :
    Ends (fun receipt p' => ∃ a, reservation = .issued a.token.2 .intact ∧
      (p.sealed.state = .constructionActive ∨ p.sealed.state = .capExhausted) ∧
      Commits ids profile p g receipt p' a 0) (Stops ids profile p.sealed g)
      (attempt (refundSum ids seen reservation) p) :=
  assertLiveSession_bind hids h fun _ => commitAmount_ends hids h reservation 0

end Reservations

section Tokens

/-- What the closing of a mount leaves: its reservations are as they were. -/
structure Unmounts (ids : SessionIds ι) (profile : SharedCapProfile ι) (p : Process ι)
    (g : History ι) (p' : Process ι) (g' : History ι) : Prop where
  sound : Sound ids profile p' g'
  advances : Advances p.sealed p'.sealed g g'
  state : p'.sealed.state = p.sealed.state
  checks : p'.sealed.controlCapChecks = p.sealed.controlCapChecks
  uses : g'.uses = g.uses

variable (hids : ids.Distinct)
include hids

theorem closeMountSeal_eq (h : Sound ids profile p g) (object : ℕ) (issued : MountToken ι)
    (kind : ReceiptKind) (hkind : kind.settles = false) (accepted : Bool)
    (terminalCode : Option TerminalCode) :
    ∃ r p' g', attempt (closeMountSeal ids object issued kind accepted terminalCode) p =
        (.ok r, p') ∧ Unmounts ids profile p g p' g' ∧
      (r = none → p.sealed.mountTokens.lookup (ids.tokenId issued) ≠ some object) := by
  rw [closeMountSeal, attempt_bind_ok (attempt_runtime p), h.live]
  split
  · next hlookup =>
    exact ⟨none, p, g, attempt_pure none p, ⟨h, .refl _ _, rfl, rfl, rfl⟩, fun _ => hlookup⟩
  · next hlookup =>
    rw [not_not] at hlookup
    have hmem := h.held.mounts.mem_of_lookup hids hlookup
    obtain ⟨n, hentry, -, hpos⟩ := h.held.entries.lookup_of_mem hmem
    obtain ⟨prerequisite, hpre⟩ : ∃ prerequisite, p.sealed.decisionPrerequisite =
        some prerequisite := by
      refine Option.ne_none_iff_exists'.mp fun hnone => ?_
      rw [(h.held.phase.unopened hnone).2.2] at hmem
      cases hmem
    obtain ⟨l, r, hopens, hbooks⟩ := h.held.unmount hpre rfl hids hmem hkind hentry
      accepted terminalCode
    simp only at hentry hbooks
    have hnonneg := h.held.entries.nonneg
    have hnonneg' : 0 ≤ (p.sealed.release issued.payloadId
        issued.payloadBytes n).mountedCurrentBytes := hbooks.entries.nonneg
    have hpeak := (h.held.peaks .mountedBytesPeak).1
    have hamounts : ∀ field ∈ (closedFields kind issued issued.payloadBytes n
        p.sealed.mountedCurrentBytes (p.sealed.release issued.payloadId
          issued.payloadBytes n).mountedCurrentBytes (p.sealed.maxValues .mountedBytesPeak)
        p.sealed.controlCapChecks accepted terminalCode).amounts, 0 ≤ field.2 := by
      have hchecks := h.held.documented.2.1
      simp only [ReceiptFields.amounts, closedFields, List.forall_mem_cons]
      refine ⟨Int.natCast_nonneg _, le_rfl, ?_, hnonneg, hnonneg', hpeak, hchecks, by simp⟩
      split
      · exact Int.natCast_nonneg _
      · exact le_rfl
    rw [hentry]
    simp only
    rw [if_neg (by simp [hpos]), attempt_bind_ok (attempt_update _ p),
      attempt_bind_ok (attempt_runtime _), h.live]
    simp only
    rw [if_neg (not_lt.mpr hnonneg'), attempt_bind_ok (attempt_update _ _)]
    refine ⟨_, _, ⟨g.uses, g.settled, l ++ r⟩, attempt_map_ok some (attempt_append hpre hamounts
      hbooks.documented), ⟨⟨hbooks, rfl⟩, ⟨.refl _, List.prefix_rfl, List.prefix_append _ _,
        fun _ => le_rfl, le_rfl, fun _ => ⟨rfl, rfl⟩⟩, rfl, rfl, rfl⟩, by simp⟩

/-- A failure that first closes the token that was presented. -/
theorem rejectToken_ends (h : Sound ids profile p g) (object : ℕ) (issued : MountToken ι)
    (message : String) {α : Type} {Q : α → Process ι → Prop} :
    Ends Q (Stops ids profile p.sealed g) (attempt (do
      rejectToken ids object issued
      protocolFail ids message) p) := by
  obtain ⟨r, p₁, g₁, hrun, hunmounts, -⟩ := closeMountSeal_eq hids h object issued
    .mountProtocolCapabilityRejected rfl false (some .protocolFailure)
  rw [rejectToken, attempt_bind_ok (attempt_discard_ok hrun)]
  exact protocolFail_ends_of_advances hids hunmounts.advances
    (.of_uses hunmounts.checks hunmounts.uses)
    hunmounts.sound message

theorem mountTokenSeal_ends (h : Sound ids profile p g) (presented : Presented) :
    Ends (fun r p' => p' = p ∧ presented = .issued r.1 .intact ∧
      p.sealed.mountTokens.lookup (ids.tokenId r.2) = some r.1) (Stops ids profile p.sealed g)
      (attempt (mountTokenSeal ids presented) p) := by
  cases presented with
  | foreignType => exact protocolFail_ends hids h _
  | notLive => exact protocolFail_ends hids h _
  | otherSession condition => exact protocolFail_ends hids h _
  | issued object condition =>
    rw [mountTokenSeal, attempt_bind_ok (attempt_get p)]
    cases p.tokens[object]? with
    | none => exact protocolFail_ends hids h _
    | some issued =>
      cases condition with
      | unreadable => exact rejectToken_ends hids h object issued _
      | changed => exact rejectToken_ends hids h object issued _
      | intact =>
        simp only
        rw [attempt_bind_ok (attempt_runtime p)]
        split
        · exact protocolFail_ends hids h _
        · next hlookup =>
          rw [not_not, h.live] at hlookup
          exact ⟨rfl, rfl, hlookup⟩

theorem closeMountVisibility_ends (h : Held ids profile p g) (token : Presented) :
    Ends (fun _ p' => ∃ g', Unmounts ids profile p g p' g') (Stops ids profile p.sealed g)
      (attempt (closeMountVisibility ids seen token) p) := by
  refine assertLiveSession_bind hids h fun hsound => ?_
  rw [attempt_bind_ok (attempt_runtime p)]
  split
  · exact protocolFail_ends hids hsound _
  · refine (mountTokenSeal_ends hids hsound token).bind fun r t ht => ?_
    obtain ⟨object, issued⟩ := r
    obtain ⟨ht, -, hlookup⟩ := ht
    rw [ht]
    simp only
    rw [attempt_bind_ok (attempt_runtime p)]
    obtain ⟨r, p₁, g₁, hrun, hunmounts, hnone⟩ := closeMountSeal_eq hids hsound object issued
      .mountClosed rfl true
      (if p.live.state = .protocolFailed then some .protocolFailure else none)
    refine (congrArg (Ends _ _) (attempt_bind_ok hrun)).mpr ?_
    cases r with
    | none => exact absurd hlookup (hnone rfl)
    | some receipt => exact ⟨g₁, hunmounts⟩

end Tokens

/-! ## The session as a whole -/

section

variable (hids : ids.Distinct) (h : Held ids profile p g)
include hids h

theorem snapshot_ends :
    Ends (fun r p' => p' = p ∧ Sound ids profile p g ∧ r = p.sealed.snapshot ids)
      (Stops ids profile p.sealed g) (attempt (snapshot ids seen) p) := by
  refine assertLiveSession_bind hids h fun hsound => ?_
  refine (assertReceiptsCurrent_ends hids hsound).bind fun _ t ht => ?_
  rw [ht, attempt_bind_ok (attempt_runtime p), hsound.live]
  exact ⟨rfl, hsound, rfl⟩

theorem activateConstruction_ends (presented : PresentedPrerequisite ι) :
    Ends (fun _ p' => Sound ids profile p' g ∧ Advances p.sealed p'.sealed g g ∧
      p'.sealed.controlCapChecks = p.sealed.controlCapChecks ∧
      p'.sealed.state = .constructionActive)
      (Stops ids profile p.sealed g)
      (attempt (activateConstruction ids profile seen presented) p) := by
  refine (assertProfileCurrent_ends hids h).bind fun _ t ht => ?_
  obtain ⟨ht, hsound⟩ := ht
  rw [ht, attempt_bind_ok (attempt_runtime p), hsound.live]
  split
  · exact protocolFail_ends hids hsound _
  · next hprepared =>
    rw [not_not] at hprepared
    cases presented with
    | foreignType => exact protocolFail_ends hids hsound _
    | notLive => exact protocolFail_ends hids hsound _
    | live prerequisite =>
      simp only
      split
      · exact protocolFail_ends hids hsound _
      · have hbooks := h.activated prerequisite
        rw [attempt_bind_ok (attempt_update _ p), hsound.live]
        refine (congrArg (Ends _ _) (attempt_refresh hbooks.documented)).mpr ?_
        refine ⟨⟨hbooks, rfl⟩, ⟨.refl _, List.prefix_rfl, List.prefix_rfl, fun _ => le_rfl, ?_,
          fun hrank => ?_⟩, rfl, rfl⟩
        · rw [hprepared]
          exact Nat.zero_le _
        · rw [hprepared] at hrank
          exact absurd hrank (by decide)

theorem close_ends :
    Ends (fun _ p' => Sound ids profile p' g ∧ Advances p.sealed p'.sealed g g ∧
      p'.sealed.controlCapChecks = p.sealed.controlCapChecks ∧ p'.sealed.state = .closed)
      (Stops ids profile p.sealed g) (attempt (close ids seen) p) := by
  refine assertLiveSession_bind hids h fun hsound => ?_
  rw [attempt_bind_ok (attempt_runtime p), hsound.live]
  split
  · exact protocolFail_ends hids hsound _
  · next hstate =>
    rw [not_and_or, not_not, not_not] at hstate
    split
    · exact protocolFail_ends hids hsound _
    · next hnone =>
      rw [not_or, not_not, not_not] at hnone
      obtain ⟨hactive, htokens⟩ := hnone
      have hsettled : ∀ a ∈ g.uses, a.charge ≠ none := fun a ha hopen => by
        have hmem := Dict.lookup_mem (h.reserves.lookup_of_open hids ha hopen)
        rw [hactive] at hmem
        cases hmem
      have hopens : g.opens = [] := by
        rw [h.mounts.tokens_eq, List.map_eq_nil_iff] at htokens
        exact htokens
      have hbooks := h.closed hstate hsettled hopens
      have hrank : p.sealed.state.rank ≤ SessionState.closed.rank := by
        rcases hstate with hstate | hstate <;> rw [hstate] <;> decide
      have hadvances : Advances p.sealed { p.sealed with state := .closed } g g :=
        ⟨.refl _, List.prefix_rfl, List.prefix_rfl, fun _ => le_rfl, hrank, fun _ => ⟨rfl, rfl⟩⟩
      have hheld : Held ids profile { p with
          live := { p.sealed with state := .closed }, sealed := { p.sealed with state := .closed } }
          g := hbooks
      rw [attempt_bind_ok (attempt_update _ p), hsound.live]
      refine (congrArg (Ends _ _) (attempt_bind_ok (attempt_refresh hbooks.documented))).mpr ?_
      refine (snapshot_ends hids hheld).mono (fun _ p' hp' => ?_) fun e p' he => ?_
      · obtain ⟨rfl, hsound', -⟩ := hp'
        exact ⟨hsound', hadvances, rfl, rfl⟩
      · exact he.of_advances hadvances rfl (by simp)

end

section Callbacks

variable (hids : ids.Distinct) (h : Held ids profile p g)
include hids h

theorem settleCallbackFailure_ends (reservation : Presented) :
    Ends (fun _ p' => ∃ g', Failed ids profile p.sealed g p' g') (Stops ids profile p.sealed g)
      (attempt (settleCallbackFailure ids seen reservation) p) := by
  have hreplay : Ends (fun _ p' => p' = p ∧ Sound ids profile p g) (Stops ids profile p.sealed g)
      (attempt (do
        assertLiveSession ids seen
        assertReceiptsCurrent ids seen : SessionM ι Unit) p) := by
    refine assertLiveSession_bind hids h fun hsound => ?_
    exact (assertReceiptsCurrent_ends hids hsound).mono (fun _ _ ht => ⟨ht, hsound⟩)
      fun _ _ he => he
  refine (relabel_ends hreplay).bind fun _ t ht => ?_
  obtain ⟨ht, hsound⟩ := ht
  rw [ht, attempt_bind_ok (attempt_runtime p)]
  split
  · exact protocolFail_ends hids hsound _
  · refine (relabel_ends (reservationSeal_ends hids hsound reservation)).bind fun r t ht => ?_
    obtain ⟨object, issued⟩ := r
    obtain ⟨ht, -, a, ha, htoken, hopen⟩ := ht
    rw [ht]
    obtain ⟨-, hupper⟩ := h.reserves.bound a ha
    obtain rfl : a.token.1 = issued := congrArg Prod.fst htoken
    obtain ⟨receipt, p₁, hrun, hsound₁, hadvances, -, hchecks, -⟩ := settleWith_eq hids hsound ha
      hopen .sumCallbackFailed rfl a.token.1.amount false le_rfl
      (fun _ => by rw [hupper, add_zero]) (by simp) fun _ => hupper.le
    obtain ⟨p', g', hrun', hfailed⟩ := transitionProtocolFailed_eq hids hsound₁
    simp only
    rw [attempt_bind_ok (attempt_discard_ok hrun), hrun']
    exact ⟨g', hfailed.of_advances hadvances (.settle hsound.nodup ha hupper.le hchecks)⟩

theorem failCallback_ends {α : Type} (seen : Inspection) (reservation : Presented)
    {Q : α → Process ι → Prop} :
    Ends Q (Stops ids profile p.sealed g) (attempt (failCallback ids seen reservation) p) :=
  (settleCallbackFailure_ends hids h reservation).bind fun _ _ ht => ht

theorem requireActiveAfterCallback_ends :
    Ends (fun _ p' => p' = p ∧ Sound ids profile p g ∧ p.sealed.state = .constructionActive)
      (Stops ids profile p.sealed g) (attempt (requireActiveAfterCallback ids seen) p) := by
  refine assertLiveSession_bind hids h fun hsound => ?_
  rw [attempt_bind_ok (attempt_runtime p), hsound.live]
  split
  · exact protocolFail_ends hids hsound _
  · next hactive => exact ⟨rfl, hsound, not_not.mp hactive⟩

theorem beginSumOperation_ends (path : Option SharedPath) (amount : Option ℕ)
    (siteId : Option ι) :
    Ends (NextUse ids profile p g path amount) (Stops ids profile p.sealed g)
      (attempt (beginSumOperation ids profile seen path amount siteId) p) :=
  assertLiveSession_bind hids h fun _ => reserveSum_ends hids h path amount siteId

theorem beginStageIngress_ends (payloadBytes : Option ℕ) (siteId : Option ι)
    (namedIngress : Bool) :
    Ends (NextUse ids profile p g (some .stagedBytes) payloadBytes) (Stops ids profile p.sealed g)
      (attempt (beginStageIngress ids profile seen payloadBytes siteId namedIngress) p) := by
  refine assertLiveSession_bind hids h fun hsound => ?_
  split
  · exact protocolFail_ends hids hsound _
  · exact admitSum_ends hids hsound _ payloadBytes siteId

/-- A callback that returns to an active session has its reservation committed. -/
theorem finishOperation_ends (reservation : Presented) :
    Ends (fun _ p' => p.sealed.state = .constructionActive ∧ ∃ a receipt,
      reservation = .issued a.token.2 .intact ∧
      Commits ids profile p g receipt p' a a.upper) (Stops ids profile p.sealed g)
      (attempt (finishOperation ids seen reservation) p) := by
  refine (requireActiveAfterCallback_ends hids h).bind fun _ t ht => ?_
  obtain ⟨ht, -, hactive⟩ := ht
  rw [ht]
  refine Ends.map (fun _ => ()) ((commitSum_ends hids h reservation none).mono
    (fun receipt p' hp' => ?_) fun _ _ he => he)
  obtain ⟨a, c, hpresented, -, hactual, hcommits⟩ := hp'
  rcases hactual with ⟨-, rfl⟩ | hsome
  · exact ⟨hactive, a, receipt, hpresented, hcommits⟩
  · cases hsome

/-- A reader that returns to an active session is charged for what it read, as far as that was
admitted. -/
theorem finishBoundedRead_ends (reservation : Presented) {maximumBytes : ℕ}
    (hmaximum : ∀ a ∈ g.uses, reservation = .issued a.token.2 .intact → a.upper = maximumBytes)
    (result : Option ℕ) :
    Ends (fun length p' => p.sealed.state = .constructionActive ∧ result = some length ∧
      ∃ a receipt, reservation = .issued a.token.2 .intact ∧
      Commits ids profile p g receipt p' a length) (Stops ids profile p.sealed g)
      (attempt (finishBoundedRead ids seen reservation maximumBytes result) p) := by
  refine (requireActiveAfterCallback_ends hids h).bind fun _ t ht => ?_
  obtain ⟨ht, hsound, hactive⟩ := ht
  rw [ht]
  cases result with
  | none => exact (settleCallbackFailure_ends hids h reservation).bind fun _ _ ht => ht
  | some length =>
    simp only
    split
    · next hover =>
      refine (reservationSeal_ends hids hsound reservation).bind fun r t ht => ?_
      obtain ⟨object, issued⟩ := r
      obtain ⟨ht, hpresented, a, ha, htoken, hopen⟩ := ht
      rw [ht]
      obtain rfl : a.token.1 = issued := congrArg Prod.fst htoken
      obtain rfl : a.token.2 = object := congrArg Prod.snd htoken
      have hlt : a.upper < length := hmaximum a ha hpresented ▸ hover
      obtain ⟨receipt, p₁, hrun, hsound₁, hadvances, -, hchecks, -⟩ := settleWith_eq hids hsound ha
        hopen .sumProtocolOverreturn rfl length false le_rfl
        (fun hne => absurd rfl hne) (fun _ => ⟨hlt, rfl⟩) fun _ => hlt.le
      simp only
      rw [attempt_bind_ok (attempt_discard_ok hrun)]
      exact protocolFail_ends_of_advances hids hadvances
        (.settle hsound.nodup ha hlt.le hchecks) hsound₁ _
    · refine Ends.bind (Q := fun _ p' => ∃ a receipt, reservation = .issued a.token.2 .intact ∧
        Commits ids profile p g receipt p' a length) (Ends.map (fun _ => ()) ?_) fun _ p' hp' =>
          ⟨hactive, rfl, hp'⟩
      refine (commitAmount_ends hids h reservation length).mono (fun receipt p' hp' => ?_)
        fun _ _ he => he
      obtain ⟨a, hpresented, -, hcommits⟩ := hp'
      exact ⟨a, receipt, hpresented, hcommits⟩

end Callbacks

end Acfqp.SharedCap
