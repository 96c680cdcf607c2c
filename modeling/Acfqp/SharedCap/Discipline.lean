import Acfqp.SharedCap.Moves

/-!
# Settlement and failure

A session only goes forward. Whatever is outstanding when it fails is charged in full, and what it
has sealed keeps its books.
-/

namespace Acfqp.SharedCap

open Library

variable {ι : Type} [DecidableEq ι]

/-! ## Histories -/

/-- The uses of a session, the settled ones in their order, and its open tokens. -/
structure History (ι : Type) where
  uses : Uses ι
  settled : Uses ι
  opens : List (MountToken ι × ℕ)

def History.initial (ι : Type) : History ι := ⟨[], [], []⟩

def History.settle (g : History ι) (a : Use ι) (c : ℕ) : History ι :=
  ⟨Budget.settle a.token c g.uses, g.settled ++ [a.settled c], g.opens⟩

def SessionState.rank : SessionState → ℕ
  | .prepared => 0
  | .constructionActive => 1
  | .capExhausted => 2
  | .closed => 3
  | .protocolFailed => 4

theorem SessionState.rank_le (state : SessionState) :
    state.rank ≤ SessionState.protocolFailed.rank := by
  cases state <;> decide

theorem SessionState.eq_protocolFailed {state : SessionState} (h : 4 ≤ state.rank) :
    state = .protocolFailed := by
  cases state <;> simp_all [SessionState.rank]

/-- A session goes forward: its uses, settlements and receipts go on, its peaks do not fall, and
once it is no longer active it admits nothing. -/
structure Advances (rt rt' : Runtime ι) (g g' : History ι) : Prop where
  uses : Budget.Continues g.uses g'.uses
  settled : g.settled <+: g'.settled
  receipts : rt.receipts <+: rt'.receipts
  peaks : ∀ path, rt.maxValues path ≤ rt'.maxValues path
  rank : rt.state.rank ≤ rt'.state.rank
  idle : 2 ≤ rt.state.rank →
    g'.uses.length = g.uses.length ∧ rt'.controlCapChecks = rt.controlCapChecks

omit [DecidableEq ι] in
theorem Advances.refl (rt : Runtime ι) (g : History ι) : Advances rt rt g g :=
  ⟨.refl _, List.prefix_rfl, List.prefix_rfl, fun _ => le_rfl, le_rfl, fun _ => ⟨rfl, rfl⟩⟩

omit [DecidableEq ι] in
theorem Advances.trans {rt rt' rt'' : Runtime ι} {g g' g'' : History ι}
    (h : Advances rt rt' g g') (h' : Advances rt' rt'' g' g'') : Advances rt rt'' g g'' where
  uses := h.uses.trans h'.uses
  settled := h.settled.trans h'.settled
  receipts := h.receipts.trans h'.receipts
  peaks path := (h.peaks path).trans (h'.peaks path)
  rank := h.rank.trans h'.rank
  idle hrank := by
    obtain ⟨huses, hchecks⟩ := h.idle hrank
    obtain ⟨huses', hchecks'⟩ := h'.idle (hrank.trans h.rank)
    exact ⟨huses'.trans huses, hchecks'.trans hchecks⟩

/-- Nothing is admitted, and what was outstanding still is, or was charged in full. -/
structure Conservative (rt rt' : Runtime ι) (g g' : History ι) : Prop where
  length : g'.uses.length = g.uses.length
  checks : rt'.controlCapChecks = rt.controlCapChecks
  charged : ∀ a ∈ g.uses, a.charge = none →
    a ∈ g'.uses ∨ ∃ c, a.upper ≤ c ∧ a.settled c ∈ g'.uses

omit [DecidableEq ι] in
/-- The reservations stay as they are. -/
theorem Conservative.of_uses {rt rt' : Runtime ι} {g g' : History ι}
    (hchecks : rt'.controlCapChecks = rt.controlCapChecks) (h : g'.uses = g.uses) :
    Conservative rt rt' g g' :=
  ⟨congrArg List.length h, hchecks, fun _ ha _ => .inl (h ▸ ha)⟩

omit [DecidableEq ι] in
theorem Conservative.trans {rt rt' rt'' : Runtime ι} {g g' g'' : History ι}
    (h : Conservative rt rt' g g') (h' : Conservative rt' rt'' g' g'')
    (huses : Budget.Continues g'.uses g''.uses) : Conservative rt rt'' g g'' := by
  refine ⟨h'.length.trans h.length, h'.checks.trans h.checks, fun a ha hopen => ?_⟩
  rcases h.charged a ha hopen with hmem | ⟨c, hc, hmem⟩
  · exact h'.charged a hmem hopen
  · exact .inr ⟨c, hc, huses.mem_of_charged hmem (Option.some_ne_none c)⟩

/-- A charge of one use in full. -/
theorem Conservative.settle {rt rt' : Runtime ι} {g : History ι} {a : Use ι} {c : ℕ}
    (hnodup : (g.uses.map Admitted.token).Nodup) (ha : a ∈ g.uses) (hc : a.upper ≤ c)
    (hchecks : rt'.controlCapChecks = rt.controlCapChecks) :
    Conservative rt rt' g (g.settle a c) := by
  refine ⟨List.length_map _, hchecks, fun a' ha' _ => ?_⟩
  have hmem : (if a'.token = a.token then a'.settled c else a') ∈ (g.settle a c).uses :=
    List.mem_map_of_mem ha'
  by_cases htoken : a'.token = a.token
  · obtain rfl := List.inj_on_of_nodup_map hnodup ha' ha htoken
    rw [if_pos rfl] at hmem
    exact .inr ⟨c, hc, hmem⟩
  · rw [if_neg htoken] at hmem
    exact .inl hmem

section Sessions

variable (ids : SessionIds ι) (profile : SharedCapProfile ι)

/-- What a session has sealed has books. -/
def Held (p : Process ι) (g : History ι) : Prop :=
  Books ids profile p.reservations p.tokens p.sealed 0 g.uses g.settled g.opens

/-- Nothing has changed since the session was sealed. -/
structure Sound (p : Process ι) (g : History ι) : Prop where
  held : Held ids profile p g
  live : p.live = p.sealed

structure Failed (rt : Runtime ι) (g : History ι) (p' : Process ι) (g' : History ι) : Prop where
  sound : Sound ids profile p' g'
  advances : Advances rt p'.sealed g g'
  conservative : Conservative rt p'.sealed g g'
  state : p'.sealed.state = .protocolFailed

/-- What an exception leaves: a session that failed, or one that exhausted a cap. -/
def Stops (rt : Runtime ι) (g : History ι) : SessionError ι → Process ι → Prop
  | .protocolFailure _, p' | .callback, p' => ∃ g', Failed ids profile rt g p' g'
  | .capExhausted .., p' => Sound ids profile p' g ∧ Advances rt p'.sealed g g ∧
      rt.state = .constructionActive ∧ p'.sealed.state = .capExhausted
  | .authority _, _ | .nested, _ => False

end Sessions

variable {ids : SessionIds ι} {profile : SharedCapProfile ι} {p : Process ι} {g : History ι}
  {rt : Runtime ι}

theorem Failed.of_advances {rt' : Runtime ι} {g' g'' : History ι} {p' : Process ι}
    (hadvances : Advances rt rt' g g') (hconservative : Conservative rt rt' g g')
    (h : Failed ids profile rt' g' p' g'') : Failed ids profile rt g p' g'' :=
  ⟨h.sound, hadvances.trans h.advances, hconservative.trans h.conservative h.advances.uses,
    h.state⟩

/-- A session that is no longer active can only fail. -/
theorem Stops.of_advances {rt' : Runtime ι} {p' : Process ι} {e : SessionError ι}
    (hadvances : Advances rt rt' g g) (hchecks : rt'.controlCapChecks = rt.controlCapChecks)
    (hstate : rt'.state ≠ .constructionActive)
    (h : Stops ids profile rt' g e p') : Stops ids profile rt g e p' := by
  cases e with
  | protocolFailure _ =>
    obtain ⟨g', hfailed⟩ := h
    exact ⟨g', hfailed.of_advances hadvances (.of_uses hchecks rfl)⟩
  | callback =>
    obtain ⟨g', hfailed⟩ := h
    exact ⟨g', hfailed.of_advances hadvances (.of_uses hchecks rfl)⟩
  | capExhausted path cap current requested receiptId => exact absurd h.2.2.1 hstate
  | authority _ => exact h
  | nested => exact h

/-! ## Small steps -/

omit [DecidableEq ι] in
@[simp] theorem attempt_runtime (p : Process ι) : attempt (runtime (ι := ι)) p = (.ok p.live, p) :=
  rfl

omit [DecidableEq ι] in
@[simp] theorem attempt_update (f : Runtime ι → Runtime ι) (p : Process ι) :
    attempt (update f) p = (.ok (), { p with live := f p.live }) := rfl

omit [DecidableEq ι] in
theorem attempt_refresh (h : p.live.Documented) :
    attempt (refreshSessionSeal (ι := ι)) p = (.ok (), { p with sealed := p.live }) := by
  rw [refreshSessionSeal, attempt_bind_ok (attempt_runtime p), if_pos h, attempt_modify]

omit [DecidableEq ι] in
theorem attempt_append {fields : ReceiptFields ι} {prerequisite : DecisionPrerequisite ι}
    (hpre : p.live.decisionPrerequisite = some prerequisite)
    (hamounts : ∀ amount ∈ fields.amounts, 0 ≤ amount.2)
    (h : (p.live.append fields prerequisite).Documented) :
    attempt (appendReceipt fields) p =
      (.ok ⟨fields, prerequisite.prerequisiteId, p.live.receipts.length + 1⟩,
        { p with live := p.live.append fields prerequisite,
                 sealed := p.live.append fields prerequisite }) := by
  have hfind : fields.amounts.find? (fun amount => decide (amount.2 < 0)) = none :=
    List.find?_eq_none.mpr fun amount ha => by simpa using hamounts amount ha
  rw [appendReceipt, attempt_bind_ok (attempt_runtime p), hpre]
  simp only [hfind]
  rw [attempt_bind_ok (attempt_update _ p), attempt_bind_ok (attempt_refresh (p := { p with
    live := p.live.append fields prerequisite }) h), attempt_pure]

/-! ## Settlement -/

theorem Sound.nodup (h : Sound ids profile p g) : (g.uses.map Admitted.token).Nodup :=
  h.held.reserves.within.nodup

section Settlement

variable (hids : ids.Distinct) (h : Sound ids profile p g)
include hids h

theorem settleWith_eq {a : Use ι} (ha : a ∈ g.uses) (hopen : a.charge = none)
    (kind : ReceiptKind) (hkind : kind.settles = true) (actual : ℕ) (accepted : Bool)
    {refunded : ℤ} (hrefunded : 0 ≤ refunded)
    (hbalance : kind ≠ .sumProtocolOverreturn → (a.upper : ℤ) = actual + refunded)
    (hoverreturn : kind = .sumProtocolOverreturn → a.upper < actual ∧ refunded = 0)
    (hrefused : accepted = false → a.upper ≤ actual) :
    ∃ receipt p', attempt (settleWith ids a.token.1 kind actual refunded accepted) p =
        (.ok receipt, p') ∧ Sound ids profile p' (g.settle a actual) ∧
      Advances p.sealed p'.sealed g (g.settle a actual) ∧
      p'.sealed.state = p.sealed.state ∧
      p'.sealed.controlCapChecks = p.sealed.controlCapChecks ∧
      p'.reservations = p.reservations ∧
      p'.sealed.receipts = p.sealed.receipts ++ [receipt] ∧ receipt.kind = kind ∧
      receipt.accepted = accepted := by
  obtain ⟨prerequisite, hpre⟩ : ∃ prerequisite, p.sealed.decisionPrerequisite =
      some prerequisite := by
    refine Option.ne_none_iff_exists'.mp fun hnone => ?_
    rw [(h.held.phase.unopened hnone).2.1] at ha
    cases ha
  have hbooks := h.held.settle hpre rfl hids ha hopen hkind hrefunded hbalance hoverreturn
    hrefused
  obtain ⟨hcommitted, hreserved⟩ := h.held.reserves.nonneg a.token.1.path
  have hupper := h.held.reserves.upper_le ha hopen
  obtain ⟨haccount, hamount⟩ := h.held.reserves.bound a ha
  rw [haccount, hamount] at hupper
  have hdoc := hbooks.documented
  have hvalue : 0 ≤ p.sealed.value a.token.1.path := add_nonneg hcommitted hreserved
  have hsettled : 0 ≤ (p.sealed.settle (ids.reservationId a.token.1) a.token.1 actual).value
      a.token.1.path := by
    simp only [Runtime.value, Runtime.settle, Function.update_self]
    omega
  rw [settleWith, attempt_bind_ok (attempt_runtime p), attempt_bind_ok (attempt_update _ p),
    h.live, attempt_append hpre ?_ hdoc]
  · refine ⟨_, _, rfl, ⟨hbooks, rfl⟩, ⟨?_, List.prefix_append _ _, List.prefix_append _ _,
      fun _ => le_rfl, le_rfl, fun _ => ⟨List.length_map _, rfl⟩⟩, rfl, rfl, rfl, rfl, rfl, rfl⟩
    exact (Budget.Step.settle ha hopen actual).continues h.held.reserves.within
  · have hcontrol := hdoc.2.1
    simp only [ReceiptFields.amounts, settlementFields, List.forall_mem_cons]
    exact ⟨Int.natCast_nonneg _, Int.natCast_nonneg _, hrefunded, hvalue, hsettled,
      le_max_of_le_left hvalue, hcontrol, by simp⟩

/-- A reservation that is still active is charged in full. -/
theorem conservativelySettle_eq {object : ℕ} {issued : Reservation ι}
    (hissued : p.reservations[object]? = some issued) (kind : ReceiptKind)
    (hkind : kind.settles = true) (hreturn : kind ≠ .sumProtocolOverreturn) :
    ∃ p' g', attempt (conservativelySettleReservation ids object issued kind) p = (.ok (), p') ∧
      Sound ids profile p' g' ∧ Advances p.sealed p'.sealed g g' ∧
      Conservative p.sealed p'.sealed g g' ∧ p'.reservations = p.reservations ∧
      ∀ a ∈ g'.uses, a.token = (issued, object) → a.charge ≠ none := by
  rw [conservativelySettleReservation, attempt_bind_ok (attempt_runtime p), h.live]
  by_cases hlookup : p.sealed.activeReservations.lookup (ids.reservationId issued) = some object
  · obtain ⟨a, ha, htoken, hopen⟩ := h.held.reserves.exists_of_lookup hids hissued hlookup
    obtain ⟨haccount, hamount⟩ := h.held.reserves.bound a ha
    have hupper := h.held.reserves.upper_le ha hopen
    have hfirst : a.token.1 = issued := congrArg Prod.fst htoken
    rw [haccount, hamount, hfirst] at hupper
    rw [hfirst] at hamount
    obtain ⟨receipt, p', hrun, hsound, hadvances, -, hchecks, hreservations, -⟩ :=
      settleWith_eq hids h ha hopen kind hkind issued.amount false le_rfl
        (fun _ => by rw [hamount, add_zero]) (fun heq => absurd heq hreturn) fun _ => hamount.le
    rw [if_pos hlookup, if_neg (not_lt.mpr hupper)]
    refine ⟨p', _, ?_, hsound, hadvances,
      .settle h.nodup ha hamount.le hchecks, hreservations, fun a' ha' htoken' => ?_⟩
    · rw [hfirst] at hrun
      exact attempt_discard_ok hrun
    · rcases Budget.mem_settle ha' with ⟨-, hne⟩ | ⟨a'', -, -, rfl⟩
      · exact absurd (htoken'.trans htoken.symm) hne
      · exact Option.some_ne_none _
  · rw [if_neg hlookup]
    refine ⟨p, g, attempt_pure () p, h, .refl _ _, .of_uses rfl rfl, rfl, fun a ha htoken hopen =>
      ?_⟩
    refine hlookup ?_
    have hactive := h.held.reserves.lookup_of_open hids ha hopen
    rwa [useId, htoken] at hactive

omit h in
theorem settleAll_eq {reservations : List (Reservation ι)} (l : List (ι × ℕ))
    (h : Sound ids profile p g) (hreservations : p.reservations = reservations) :
    ∃ p' g', attempt (l.forM fun entry =>
        match reservations[entry.2]? with
        | none => pure ()
        | some issued =>
          conservativelySettleReservation ids entry.2 issued .sumProtocolCapabilityRejected) p =
        (.ok (), p') ∧ Sound ids profile p' g' ∧ Advances p.sealed p'.sealed g g' ∧
      Conservative p.sealed p'.sealed g g' ∧ p'.reservations = reservations ∧
      ∀ entry ∈ l, ∀ a ∈ g'.uses, a.token.2 = entry.2 → a.charge ≠ none := by
  induction l generalizing p g with
  | nil => exact ⟨p, g, rfl, h, .refl _ _, .of_uses rfl rfl, hreservations, by simp⟩
  | cons entry l ih =>
    -- the entry that comes first is charged, and stays charged
    obtain ⟨p₁, g₁, hrun, hsound, hadvances, hconservative, hsame, hcharged⟩ :
        ∃ p₁ g₁, attempt (match reservations[entry.2]? with
          | none => pure ()
          | some issued =>
            conservativelySettleReservation ids entry.2 issued .sumProtocolCapabilityRejected) p =
          (.ok (), p₁) ∧ Sound ids profile p₁ g₁ ∧ Advances p.sealed p₁.sealed g g₁ ∧
        Conservative p.sealed p₁.sealed g g₁ ∧ p₁.reservations = reservations ∧
        ∀ a ∈ g₁.uses, a.token.2 = entry.2 → a.charge ≠ none := by
      cases hissued : reservations[entry.2]? with
      | none =>
        refine ⟨p, g, rfl, h, .refl _ _, .of_uses rfl rfl, hreservations, fun a ha hobject => ?_⟩
        have htoken := h.held.reserves.mem_iff.mpr ⟨a, ha, (Prod.ext rfl hobject :
          a.token = (a.token.1, entry.2))⟩
        rw [hreservations, hissued] at htoken
        cases htoken
      | some issued =>
        obtain ⟨p₁, g₁, hrun, hsound, hadvances, hconservative, hsame, hcharged⟩ :=
          conservativelySettle_eq hids h (hreservations ▸ hissued)
            .sumProtocolCapabilityRejected rfl (by simp)
        refine ⟨p₁, g₁, hrun, hsound, hadvances, hconservative, hsame.trans hreservations,
          fun a ha hobject => hcharged a ha ?_⟩
        have htoken := hsound.held.reserves.mem_iff.mpr ⟨a, ha, (Prod.ext rfl hobject :
          a.token = (a.token.1, entry.2))⟩
        rw [hsame, hreservations, hissued] at htoken
        exact Prod.ext (Option.some.inj htoken).symm hobject
    obtain ⟨p₂, g₂, hrun', hsound', hadvances', hconservative', hsame', hcharged'⟩ :=
      ih hsound hsame
    refine ⟨p₂, g₂, ?_, hsound', hadvances.trans hadvances',
      hconservative.trans hconservative' hadvances'.uses, hsame', fun e he a ha hobject => ?_⟩
    · exact (attempt_bind_ok hrun).trans hrun'
    · rcases List.mem_cons.mp he with rfl | he
      · have htoken := hsound'.held.reserves.mem_iff.mpr ⟨a, ha, (Prod.ext rfl hobject :
          a.token = (a.token.1, e.2))⟩
        rw [hsame', ← hsame] at htoken
        obtain ⟨a₁, ha₁, htoken₁⟩ := hsound.held.reserves.mem_iff.mp htoken
        have hfinal := hcharged a₁ ha₁ (congrArg Prod.snd htoken₁)
        have hmem := hadvances'.uses.mem_of_charged ha₁ hfinal
        obtain rfl := List.inj_on_of_nodup_map hsound'.nodup ha hmem
          ((Prod.ext rfl hobject : a.token = (a.token.1, e.2)).trans htoken₁.symm)
        exact hfinal
      · exact hcharged' e he a ha hobject

/-- Whatever is outstanding is charged in full, and the session fails. -/
theorem transitionProtocolFailed_eq :
    ∃ p' g', attempt (transitionProtocolFailed ids) p = (.ok (), p') ∧
      Failed ids profile p.sealed g p' g' := by
  obtain ⟨p₁, g₁, hrun, hsound, hadvances, hconservative, hsame, hcharged⟩ :=
    settleAll_eq hids p.live.activeReservations h rfl
  have hsettled : ∀ a ∈ g₁.uses, a.charge ≠ none := by
    intro a ha hopen
    obtain ⟨a₀, ha₀, htoken⟩ := h.held.reserves.mem_iff.mp
      (hsame ▸ hsound.held.reserves.mem_iff.mpr ⟨a, ha, rfl⟩)
    have hopen₀ : a₀.charge = none := by
      by_contra hcharged₀
      have hmem := hadvances.uses.mem_of_charged ha₀ hcharged₀
      obtain rfl := List.inj_on_of_nodup_map hsound.nodup ha hmem htoken.symm
      exact hcharged₀ hopen
    refine hcharged (useId ids a₀, a₀.token.2) ?_ a ha (congrArg Prod.snd htoken).symm hopen
    exact h.live ▸ Dict.lookup_mem (h.held.reserves.lookup_of_open hids ha₀ hopen₀)
  have hbooks := hsound.held.failed hsettled
  have hfailed : Advances p₁.sealed p₁.sealed.failed g₁ g₁ :=
    ⟨.refl _, List.prefix_rfl, List.prefix_rfl, fun _ => le_rfl,
      p₁.sealed.state.rank_le, fun _ => ⟨rfl, rfl⟩⟩
  refine ⟨{ p₁ with live := p₁.sealed.failed, sealed := p₁.sealed.failed }, g₁, ?_,
    ⟨hbooks, rfl⟩, hadvances.trans hfailed,
    hconservative.trans (.of_uses rfl rfl) (.refl _), rfl⟩
  rw [transitionProtocolFailed, settleAllOutstandingReservations, bind_assoc,
    attempt_bind_ok (attempt_get p)]
  refine (attempt_bind_ok hrun).trans ?_
  rw [attempt_bind_ok (attempt_update _ p₁), hsound.live]
  exact attempt_refresh hbooks.documented

theorem protocolFail_eq {α : Type} (message : String) :
    ∃ p' g', attempt (protocolFail ids message : SessionM ι α) p =
        (.error (.protocolFailure message), p') ∧ Failed ids profile p.sealed g p' g' := by
  obtain ⟨p', g', hrun, hfailed⟩ := transitionProtocolFailed_eq hids h
  exact ⟨p', g', by rw [protocolFail, attempt_bind_ok hrun, attempt_throw], hfailed⟩

end Settlement

end Acfqp.SharedCap
