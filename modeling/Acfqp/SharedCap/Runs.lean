import Acfqp.SharedCap.Settling

/-!
# Every run keeps the books

Whatever is called, in whatever order callbacks return or raise, and even when the fields of the
session are overwritten, what the session has sealed keeps its books.
-/

namespace Acfqp.SharedCap

open Library

variable {ι : Type} [DecidableEq ι] {ids : SessionIds ι} {profile : SharedCapProfile ι}

/-! ## What a call does -/

/-- No use was charged more than was admitted for it. -/
def History.Exact (g : History ι) : Prop :=
  ∀ a ∈ g.uses, ∀ c, a.charge = some c → c ≤ a.upper

/-- What a call leaves of a session, whether it answers or raises. -/
structure Goes (ids : SessionIds ι) (profile : SharedCapProfile ι) (p : Process ι) (g : History ι)
    (p' : Process ι) (g' : History ι) : Prop where
  sound : Sound ids profile p' g'
  advances : Advances p.sealed p'.sealed g g'
  exact : p'.sealed.state ≠ .protocolFailed → g.Exact → g'.Exact
  failing : p'.sealed.state = .protocolFailed → Conservative p.sealed p'.sealed g g'
  admission : g'.uses.length ≠ g.uses.length ∨
    p'.sealed.controlCapChecks ≠ p.sealed.controlCapChecks → p.sealed.state = .constructionActive

/-- The session as an exception leaves it. -/
def Reported (p p' : Process ι) : SessionError ι → Prop
  | .protocolFailure _ | .callback => p'.sealed.state = .protocolFailed
  | .capExhausted .. => p.sealed.state = .constructionActive ∧ p'.sealed.state = .capExhausted
  | .authority _ | .nested => False

section Goes

variable {p p' : Process ι} {g g' : History ι}

theorem Goes.of_uses (hsound : Sound ids profile p' g')
    (hadvances : Advances p.sealed p'.sealed g g') (huses : g'.uses = g.uses)
    (hchecks : p'.sealed.controlCapChecks = p.sealed.controlCapChecks) :
    Goes ids profile p g p' g' where
  sound := hsound
  advances := hadvances
  exact _ h := by rwa [History.Exact, huses]
  failing _ := .of_uses hchecks huses
  admission h := by
    rw [huses, hchecks] at h
    simp at h

theorem Accepts.goes (h : Accepts ids profile p g p' g') (hexact : g.Exact → g'.Exact) :
    Goes ids profile p g p' g' where
  sound := h.sound
  advances := h.advances
  exact _ := hexact
  failing hstate := by
    rw [h.state] at hstate
    cases hstate
  admission _ := h.active

omit [DecidableEq ι] in
theorem History.Exact.append (h : g.Exact) {a : Use ι} (hopen : a.charge = none)
    (huses : g'.uses = g.uses ++ [a]) : g'.Exact := by
  intro a' ha' c hc
  rw [huses] at ha'
  rcases List.mem_append.mp ha' with ha' | ha'
  · exact h a' ha' c hc
  · obtain rfl := List.mem_singleton.mp ha'
    rw [hopen] at hc
    cases hc

theorem Commits.goes {receipt : Receipt ι} {a : Use ι} {c : ℕ}
    (h : Commits ids profile p g receipt p' a c)
    (hstate : p.sealed.state ≠ .protocolFailed) : Goes ids profile p g p' (g.settle a c) where
  sound := h.sound
  advances := h.advances
  exact _ hexact a' ha' c' hc' := by
    rcases Budget.mem_settle ha' with ⟨ha', -⟩ | ⟨a'', ha'', htoken, rfl⟩
    · exact hexact a' ha' c' hc'
    · have hnodup := h.sound.nodup
      rw [History.settle, Budget.map_token_settle] at hnodup
      obtain rfl := List.inj_on_of_nodup_map hnodup ha'' h.mem htoken
      obtain rfl := Option.some.inj hc'
      exact h.le
  failing hfailed := absurd (h.state.symm.trans hfailed) hstate
  admission hadmits := by
    rcases hadmits with hlength | hchecks
    · exact absurd (List.length_map _) hlength
    · exact absurd h.checks hchecks

theorem goes_of_ends {α : Type} (answer : Except (SessionError ι) α)
    (h : Ends (fun _ p' => ∃ g', Goes ids profile p g p' g') (Stops ids profile p.sealed g)
      (answer, p')) :
    ∃ g', Goes ids profile p g p' g' ∧ ∀ e, answer = .error e → Reported p p' e := by
  rcases answer with e | a
  · suffices h : ∃ g', Goes ids profile p g p' g' ∧ Reported p p' e by
      obtain ⟨g', hgoes, hreported⟩ := h
      exact ⟨g', hgoes, fun e' he => by cases he; exact hreported⟩
    have hfailed : (∃ g', Failed ids profile p.sealed g p' g') → ∃ g',
        Goes ids profile p g p' g' ∧ p'.sealed.state = .protocolFailed := by
      rintro ⟨g', hsound, hadvances, hconservative, hstate⟩
      refine ⟨g', ⟨hsound, hadvances, fun hne => absurd hstate hne, fun _ => hconservative,
        fun hadmits => ?_⟩, hstate⟩
      rcases hadmits with hlength | hchecks
      · exact absurd hconservative.length hlength
      · exact absurd hconservative.checks hchecks
    cases e with
    | protocolFailure _ => exact hfailed h
    | callback => exact hfailed h
    | capExhausted path cap current requested receiptId =>
      obtain ⟨hsound, hadvances, hactive, hstate⟩ := h
      refine ⟨g, ⟨hsound, hadvances, fun _ hexact => hexact, fun hfailed => ?_,
        fun _ => hactive⟩, hactive, hstate⟩
      rw [hstate] at hfailed
      cases hfailed
    | authority _ => exact absurd h id
    | nested => exact absurd h id
  · obtain ⟨g', hgoes⟩ := h
    exact ⟨g', hgoes, by simp⟩

end Goes

section Calls

variable {p : Process ι} {g : History ι} (hids : ids.Distinct) (h : Held ids profile p g)
  (seen : Inspection)
include hids h

theorem call_ends (call : Call ι) :
    Ends (fun _ p' => ∃ g', Goes ids profile p g p' g') (Stops ids profile p.sealed g)
      (attempt (call.run ids profile seen) p) := by
  cases call with
  | activateConstruction prerequisite =>
    refine (activateConstruction_ends hids h prerequisite).bind fun _ p' hp' => ?_
    obtain ⟨hsound, hadvances, hchecks, -⟩ := hp'
    exact ⟨g, .of_uses hsound hadvances rfl hchecks⟩
  | reserveSum path amount siteId =>
    refine (reserveSum_ends hids h path amount siteId).bind fun _ p' hp' => ?_
    obtain ⟨-, r, g', -, -, -, huses, haccepts⟩ := hp'
    exact ⟨g', haccepts.goes fun hexact => hexact.append rfl huses⟩
  | commitSum reservation actual =>
    refine (commitSum_ends hids h reservation actual).bind fun _ p' hp' => ?_
    obtain ⟨a, c, -, hstate, -, hcommits⟩ := hp'
    exact ⟨_, hcommits.goes (by rcases hstate with hstate | hstate <;> simp [hstate])⟩
  | refundSum reservation =>
    refine (refundSum_ends hids h reservation).bind fun _ p' hp' => ?_
    obtain ⟨a, -, hstate, hcommits⟩ := hp'
    exact ⟨_, hcommits.goes (by rcases hstate with hstate | hstate <;> simp [hstate])⟩
  | admitMax path value siteId =>
    refine (admitMax_ends hids h path value siteId).bind fun _ p' hp' => ?_
    exact ⟨g, hp'.goes id⟩
  | openMountVisibility payloadId payloadBytes siteId =>
    refine (openMountVisibility_ends hids h payloadId payloadBytes siteId).bind
      fun _ p' hp' => ?_
    obtain ⟨-, t, -, -, -, haccepts⟩ := hp'
    exact ⟨_, haccepts.goes id⟩
  | closeMountVisibility token =>
    refine (closeMountVisibility_ends hids h token).bind fun _ p' hp' => ?_
    obtain ⟨g', hunmounts⟩ := hp'
    exact ⟨g', .of_uses hunmounts.sound hunmounts.advances hunmounts.uses hunmounts.checks⟩
  | snapshot =>
    refine (snapshot_ends hids h).bind fun _ p' hp' => ?_
    obtain ⟨rfl, hsound, -⟩ := hp'
    exact ⟨g, .of_uses hsound (.refl _ _) rfl rfl⟩
  | close =>
    refine (close_ends hids h).bind fun _ p' hp' => ?_
    obtain ⟨hsound, hadvances, hchecks, -⟩ := hp'
    exact ⟨g, .of_uses hsound hadvances rfl hchecks⟩
  | receipts =>
    refine assertLiveSession_bind hids h fun hsound => ?_
    refine (assertReceiptsCurrent_ends hids hsound).bind fun _ p' hp' => ?_
    subst hp'
    exact ⟨g, .of_uses hsound (.refl _ _) rfl rfl⟩
  | state =>
    refine assertLiveSession_bind hids h fun hsound => ?_
    exact ⟨g, .of_uses hsound (.refl _ _) rfl rfl⟩

/-- A pending callback has a reservation, of what its reader may return. -/
def Pending.Of (reservations : List (Reservation ι)) : Pending → Prop
  | .operation object => ∃ r, reservations[object]? = some r
  | .read object maximumBytes => ∃ r, reservations[object]? = some r ∧ r.amount = maximumBytes

theorem begin_ends (call : CallbackCall ι) :
    Ends (fun frame p' => frame.reservation = p.reservations.length ∧
      frame.Of p'.reservations ∧ ∃ g', Goes ids profile p g p' g') (Stops ids profile p.sealed g)
      (attempt (call.begin ids profile seen) p) := by
  cases call with
  | runSumOperation path amount siteId =>
    refine (beginSumOperation_ends hids h path amount siteId).bind fun object p' hp' => ?_
    obtain ⟨rfl, r, g', -, -, hreservations, huses, haccepts⟩ := hp'
    exact ⟨rfl, ⟨r, by simp [hreservations]⟩, g', haccepts.goes fun hexact =>
      hexact.append rfl huses⟩
  | boundedRead maximumBytes siteId =>
    refine Ends.bind (assertLiveSession_bind hids h fun _ =>
      reserveSum_ends hids h (some .readBytes) maximumBytes siteId) fun object p' hp' => ?_
    obtain ⟨rfl, r, g', hamount, -, hreservations, huses, haccepts⟩ := hp'
    exact ⟨rfl, ⟨r, by simp [hreservations], by rw [hamount]; rfl⟩, g',
      haccepts.goes fun hexact => hexact.append rfl huses⟩
  | stageIngress payloadBytes siteId namedIngress =>
    refine (beginStageIngress_ends hids h payloadBytes siteId namedIngress).bind
      fun object p' hp' => ?_
    obtain ⟨rfl, r, g', -, -, hreservations, huses, haccepts⟩ := hp'
    exact ⟨rfl, ⟨r, by simp [hreservations]⟩, g', haccepts.goes fun hexact =>
      hexact.append rfl huses⟩

/-- What an operation delivers that ran a callback: the session was still active, and the
reservation of the operation is settled by its own commit. -/
structure Delivers (ids : SessionIds ι) (profile : SharedCapProfile ι) (p : Process ι)
    (g : History ι) (object : ℕ) (returned : Returned ι) (p' : Process ι) (g' : History ι) :
    Prop where
  active : p.sealed.state = .constructionActive
  commits : ∃ a c receipt, a.token.2 = object ∧ g' = g.settle a c ∧
    (∀ length, returned = .bytes length → c = length) ∧ Commits ids profile p g receipt p' a c

theorem finish_ends {frame : Pending} (hframe : frame.Of p.reservations) (condition : Condition)
    (bytes : Option ℕ) :
    Ends (fun returned p' => ∃ g', Delivers ids profile p g frame.reservation returned p' g')
      (Stops ids profile p.sealed g) (attempt (frame.finish ids seen condition bytes) p) := by
  cases frame with
  | operation object =>
    refine (finishOperation_ends hids h (.issued object condition)).bind fun _ p' hp' => ?_
    obtain ⟨hactive, a, receipt, hpresented, hcommits⟩ := hp'
    obtain ⟨hobject, -⟩ := Presented.issued.inj hpresented
    exact ⟨_, hactive, a, _, receipt, hobject.symm, rfl, by simp, hcommits⟩
  | read object maximumBytes =>
    have hmaximum : ∀ a ∈ g.uses, Presented.issued object condition =
        .issued a.token.2 .intact → a.upper = maximumBytes := by
      intro a ha hpresented
      obtain ⟨rfl, -⟩ := Presented.issued.inj hpresented
      obtain ⟨r, hr, hamount⟩ := hframe
      have htoken := h.reserves.mem_iff.mpr ⟨a, ha, rfl⟩
      rw [hr] at htoken
      obtain rfl := Option.some.inj htoken
      rw [(h.reserves.bound a ha).2, hamount]
    refine (finishBoundedRead_ends hids h (.issued object condition) hmaximum bytes).bind
      fun length p' hp' => ?_
    obtain ⟨hactive, -, a, receipt, hpresented, hcommits⟩ := hp'
    obtain ⟨hobject, -⟩ := Presented.issued.inj hpresented
    exact ⟨_, hactive, a, length, receipt, hobject.symm, rfl,
      fun n hn => Returned.bytes.inj hn, hcommits⟩

end Calls

/-! ## Steps -/

/-- What holds of a session wherever it is: its books, what its callbacks own, and that nothing was
charged above its reservation before it failed. -/
structure Audited (ids : SessionIds ι) (profile : SharedCapProfile ι) (w : World ι)
    (g : History ι) : Prop where
  held : Held ids profile w.process g
  exact : w.process.sealed.state ≠ .protocolFailed → g.Exact
  pending : ∀ frame ∈ w.pending, frame.Of w.process.reservations
  own : (w.pending.map Pending.reservation).Nodup

/-- What every step keeps to. -/
structure Disciplined (ids : SessionIds ι) (profile : SharedCapProfile ι) (w : World ι)
    (g : History ι) (event : Event ι) (answer : Answer ι) (w' : World ι) (g' : History ι) :
    Prop where
  advances : Advances w.process.sealed w'.process.sealed g g'
  live : (∃ live, event = .overwrite live) ∨ w'.process.live = w'.process.sealed
  failing : w'.process.sealed.state = .protocolFailed →
    Conservative w.process.sealed w'.process.sealed g g'
  admission : g'.uses.length ≠ g.uses.length ∨
    w'.process.sealed.controlCapChecks ≠ w.process.sealed.controlCapChecks →
    w.process.sealed.state = .constructionActive
  reported : ∀ e, answer = .error e → Reported w.process w'.process e
  delivered : ∀ index bytes condition seen returned,
    event = .returned index bytes condition seen → answer = .ok returned →
    ∃ frame, w.pending[index]? = some frame ∧
      Delivers ids profile w.process g frame.reservation returned w'.process g'

section Steps

variable {w w' : World ι} {g g' : History ι} {p' : Process ι}

omit [DecidableEq ι] in
theorem Pending.Of.mono {reservations reservations' : List (Reservation ι)} {frame : Pending}
    (h : frame.Of reservations)
    (hle : ∀ (n : ℕ) (r : Reservation ι), reservations[n]? = some r →
      reservations'[n]? = some r) :
    frame.Of reservations' := by
  cases frame with
  | operation object =>
    obtain ⟨r, hr⟩ := h
    exact ⟨r, hle object r hr⟩
  | read object maximumBytes =>
    obtain ⟨r, hr, hamount⟩ := h
    exact ⟨r, hle object r hr, hamount⟩

omit [DecidableEq ι] in
theorem Pending.Of.lt {reservations : List (Reservation ι)} {frame : Pending}
    (h : frame.Of reservations) : frame.reservation < reservations.length := by
  cases frame with
  | operation object =>
    obtain ⟨r, hr⟩ := h
    exact (List.getElem?_eq_some_iff.mp hr).1
  | read object maximumBytes =>
    obtain ⟨r, hr, -⟩ := h
    exact (List.getElem?_eq_some_iff.mp hr).1

theorem reservations_mono {p : Process ι} (h : Held ids profile p g) (h' : Held ids profile p' g')
    (huses : Budget.Continues g.uses g'.uses) (n : ℕ) (r : Reservation ι)
    (hr : p.reservations[n]? = some r) : p'.reservations[n]? = some r := by
  obtain ⟨a, ha, htoken⟩ := h.reserves.mem_iff.mp hr
  obtain ⟨i, hi⟩ := List.getElem?_of_mem ha
  obtain ⟨a', hi', htoken', -⟩ := huses i a hi
  exact h'.reserves.mem_iff.mpr ⟨a', List.mem_of_getElem? hi', htoken'.trans htoken⟩

theorem Audited.of_goes (h : Audited ids profile w g) (hgoes : Goes ids profile w.process g p' g')
    {pending : List Pending} (hpending : List.Sublist pending w.pending) :
    Audited ids profile ⟨p', pending⟩ g' where
  held := hgoes.sound.held
  exact hstate := by
    refine hgoes.exact hstate (h.exact fun hfailed => hstate ?_)
    have hrank := hgoes.advances.rank
    rw [hfailed] at hrank
    exact SessionState.eq_protocolFailed hrank
  pending frame hframe := Pending.Of.mono (h.pending frame (hpending.subset hframe))
    (reservations_mono h.held hgoes.sound.held hgoes.advances.uses)
  own := h.own.sublist (hpending.map _)

theorem Disciplined.of_goes (hgoes : Goes ids profile w.process g p' g') {event : Event ι}
    {answer : Answer ι} {pending : List Pending}
    (hreported : ∀ e, answer = .error e → Reported w.process p' e)
    (hdelivered : ∀ index bytes condition seen returned,
      event = .returned index bytes condition seen → answer = .ok returned →
      ∃ frame, w.pending[index]? = some frame ∧
        Delivers ids profile w.process g frame.reservation returned p' g') :
    Disciplined ids profile w g event answer ⟨p', pending⟩ g' where
  advances := hgoes.advances
  live := .inr hgoes.sound.live
  failing := hgoes.failing
  admission := hgoes.admission
  reported := hreported
  delivered := hdelivered

/-- Every step keeps the books, and is disciplined. -/
theorem step_audited (hids : ids.Distinct) (h : Audited ids profile w g) {event : Event ι}
    {answer : Answer ι} (hstep : step ids profile w event = some (answer, w')) :
    ∃ g', Audited ids profile w' g' ∧ Disciplined ids profile w g event answer w' g' := by
  cases event with
  | call call seen =>
    obtain ⟨rfl, rfl⟩ := Prod.mk.inj (Option.some.inj hstep)
    obtain ⟨g', hgoes, hreported⟩ := goes_of_ends _ (call_ends hids h.held seen call)
    exact ⟨g', h.of_goes hgoes (List.Sublist.refl _), .of_goes hgoes hreported (by simp)⟩
  | enter call seen =>
    have hends := begin_ends hids h.held seen call
    simp only [step] at hstep
    generalize attempt (call.begin ids profile seen) w.process = r at hends hstep
    obtain ⟨e | frame, p'⟩ := r
    · obtain ⟨rfl, rfl⟩ := Prod.mk.inj (Option.some.inj hstep)
      obtain ⟨g', hgoes, hreported⟩ := goes_of_ends (.error e : Answer ι) hends
      exact ⟨g', h.of_goes hgoes (List.Sublist.refl _), .of_goes hgoes hreported (by simp)⟩
    · obtain ⟨rfl, rfl⟩ := Prod.mk.inj (Option.some.inj hstep)
      obtain ⟨hobject, hframe, g', hgoes⟩ := hends
      have hrest := h.of_goes hgoes (List.Sublist.refl w.pending)
      refine ⟨g', ⟨hrest.held, hrest.exact, fun frame' hframe' => ?_, ?_⟩,
        .of_goes hgoes (by simp) (by simp)⟩
      · rcases List.mem_append.mp hframe' with hframe' | hframe'
        · exact hrest.pending frame' hframe'
        · obtain rfl := List.mem_singleton.mp hframe'
          exact hframe
      · rw [List.map_append]
        refine h.own.append (List.nodup_singleton _) fun object hmem hmem' => ?_
        obtain ⟨frame', hframe', rfl⟩ := List.mem_map.mp hmem
        have hlt := Pending.Of.lt (h.pending frame' hframe')
        have heq := List.mem_singleton.mp hmem'
        omega
  | raised index condition seen =>
    simp only [step] at hstep
    cases hpending : w.pending[index]? with
    | none =>
      rw [hpending] at hstep
      cases hstep
    | some frame =>
      rw [hpending] at hstep
      obtain ⟨rfl, rfl⟩ := Prod.mk.inj (Option.some.inj hstep)
      obtain ⟨g', hgoes, hreported⟩ := goes_of_ends _ (failCallback_ends (α := Returned ι)
        hids h.held seen (.issued frame.reservation condition))
      exact ⟨g', h.of_goes hgoes (List.eraseIdx_sublist ..), .of_goes hgoes hreported (by simp)⟩
  | returned index bytes condition seen =>
    simp only [step] at hstep
    cases hpending : w.pending[index]? with
    | none =>
      rw [hpending] at hstep
      cases hstep
    | some frame =>
      rw [hpending] at hstep
      obtain ⟨hanswer, rfl⟩ := Prod.mk.inj (Option.some.inj hstep)
      have hends := finish_ends hids h.held seen
        (h.pending frame (List.mem_of_getElem? hpending)) condition bytes
      generalize attempt (frame.finish ids seen condition bytes) w.process = r at hends hanswer
      obtain ⟨e | returned, p'⟩ := r
      · obtain rfl := hanswer
        obtain ⟨g', hgoes, hreported⟩ := goes_of_ends (.error e : Answer ι) hends
        exact ⟨g', h.of_goes hgoes (List.eraseIdx_sublist ..), .of_goes hgoes hreported (by simp)⟩
      · obtain rfl := hanswer
        obtain ⟨g', hdelivers⟩ := hends
        obtain ⟨a, c, receipt, -, rfl, -, hcommits⟩ := hdelivers.commits
        have hgoes := hcommits.goes (by simp [hdelivers.active])
        refine ⟨_, h.of_goes hgoes (List.eraseIdx_sublist ..), .of_goes hgoes (by simp) ?_⟩
        intro index' bytes' condition' seen' returned' hevent hreturned
        obtain ⟨rfl, -⟩ := Event.returned.inj hevent
        obtain rfl := Except.ok.inj hreturned
        exact ⟨frame, hpending, hdelivers⟩
  | overwrite live =>
    obtain ⟨rfl, rfl⟩ := Prod.mk.inj (Option.some.inj hstep)
    refine ⟨g, ⟨h.held, h.exact, h.pending, h.own⟩, .refl _ _, .inl ⟨live, rfl⟩,
      fun _ => .of_uses rfl rfl, fun hadmits => ?_, by simp, by simp⟩
    simp at hadmits

variable {trace : List (Event ι × Answer ι)}

theorem audited_initial : Audited ids profile (World.initial ι) (History.initial ι) where
  held := .initial
  exact _ := by simp [History.Exact, History.initial]
  pending := by simp [World.initial]
  own := List.nodup_nil

/-- From wherever the books are kept, a session goes forward with its books. -/
theorem run_advances (hids : ids.Distinct) (h : Audited ids profile w g)
    (hrun : Run (step ids profile) w trace w') :
    ∃ g', Audited ids profile w' g' ∧
      Advances w.process.sealed w'.process.sealed g g' := by
  induction hrun with
  | nil => exact ⟨g, h, .refl _ _⟩
  | snoc _ hstep ih =>
    obtain ⟨g₁, haudited, hadvances⟩ := ih
    obtain ⟨g₂, haudited', hdisciplined⟩ := step_audited hids haudited hstep
    exact ⟨g₂, haudited', hadvances.trans hdisciplined.advances⟩

/-- Between any two points of a run: what is settled stays settled, receipts are only appended, no
peak falls, nothing is admitted once the session has stopped, and a session that failed stays so. -/
theorem run_settles (hids : ids.Distinct)
    (hbefore : Run (step ids profile) (World.initial ι) trace w)
    {trace' : List (Event ι × Answer ι)} (hrun : Run (step ids profile) w trace' w') :
    ∃ g g', Audited ids profile w g ∧ Audited ids profile w' g' ∧
      Advances w.process.sealed w'.process.sealed g g' ∧
      (w.process.sealed.state = .protocolFailed →
        w'.process.sealed.state = .protocolFailed ∧ g'.uses = g.uses) := by
  obtain ⟨g, haudited, -⟩ := run_advances hids audited_initial hbefore
  obtain ⟨g', haudited', hadvances⟩ := run_advances hids haudited hrun
  refine ⟨g, g', haudited, haudited', hadvances, fun hstate => ⟨?_, ?_⟩⟩
  · have hrank := hadvances.rank
    rw [hstate] at hrank
    exact SessionState.eq_protocolFailed hrank
  · have hidle := hadvances.idle (by rw [hstate]; decide)
    exact hadvances.uses.eq_of_charged (haudited.held.phase.settled (.inl hstate)) hidle.1

end Steps

/-! ## A session whose reader returns too much -/

section

def sampleIds : SessionIds ℕ where
  reservationId r := Nat.pair (Nat.pair (sharedResourcePaths.idxOf r.path) r.siteId)
    (Nat.pair r.amount r.sequence)
  tokenId t := Nat.pair (Nat.pair t.siteId t.payloadId) (Nat.pair t.payloadBytes t.sequence)
  receiptId r := r.sequence

theorem sampleIds_distinct : sampleIds.Distinct where
  reservation := by
    intro r r' h
    simp only [sampleIds, Nat.pair_eq_pair] at h
    obtain ⟨⟨hpath, hsite⟩, hamount, hsequence⟩ := h
    have hinjective : ∀ path path' : SharedPath, sharedResourcePaths.idxOf path =
        sharedResourcePaths.idxOf path' → path = path' := by decide
    have hsame := hinjective _ _ hpath
    cases r
    cases r'
    simp_all
  token := by
    intro t t' h
    simp only [sampleIds, Nat.pair_eq_pair] at h
    cases t
    cases t'
    simp_all

def sampleProfile : SharedCapProfile ℕ where
  binding := ⟨1, 2, 3, 4, 5⟩
  limits _ := ⟨10, [7]⟩
  maxControlCapChecks := 4
  control_pos := by decide

def sampleInspection : Inspection := ⟨true, true, true, true, true⟩

/-- A read of four bytes during which two hashes are reserved, and whose reader returns twelve. -/
def sampleEvents : List (Event ℕ) :=
  [.call (.activateConstruction (.live ⟨9, ⟨1, 2, 3, 4, 5⟩⟩)) sampleInspection,
    .enter (.boundedRead (some 4) (some 7)) sampleInspection,
    .call (.reserveSum (some .hashInvocations) (some 2) (some 7)) sampleInspection,
    .returned 0 (some 12) .intact sampleInspection]

def sampleReplay (w : World ℕ) (events : List (Event ℕ)) :
    Option (List (Event ℕ × Answer ℕ) × World ℕ) :=
  replay (step sampleIds sampleProfile) w events

/-- The events of the sample, up to the reservation of the hashes and after it. -/
theorem exists_sample (n : ℕ) (h : ((sampleReplay (World.initial ℕ) (sampleEvents.take n)).bind
      fun r => sampleReplay r.2 (sampleEvents.drop n)).isSome) :
    ∃ trace w trace' w', sampleReplay (World.initial ℕ) (sampleEvents.take n) = some (trace, w) ∧
      sampleReplay w (sampleEvents.drop n) = some (trace', w') := by
  obtain ⟨⟨trace', w'⟩, hr⟩ := Option.isSome_iff_exists.mp h
  obtain ⟨⟨trace, w⟩, hbefore, hafter⟩ := Option.bind_eq_some_iff.mp hr
  exact ⟨trace, w, trace', w', hbefore, hafter⟩

theorem run_settles_sample : ∃ trace w trace' w' g g',
    sampleReplay (World.initial ℕ) (sampleEvents.take 3) = some (trace, w) ∧
      sampleReplay w (sampleEvents.drop 3) = some (trace', w') ∧
      Audited sampleIds sampleProfile w g ∧ Audited sampleIds sampleProfile w' g' ∧
      Advances w.process.sealed w'.process.sealed g g' := by
  obtain ⟨trace, w, trace', w', hbefore, hafter⟩ := exists_sample 3 (by decide +kernel)
  obtain ⟨g, g', haudited, haudited', hadvances, -⟩ :=
    run_settles sampleIds_distinct (Run.of_replay hbefore) (Run.of_replay hafter)
  exact ⟨trace, w, trace', w', g, g', hbefore, hafter, haudited, haudited', hadvances⟩

end

end Acfqp.SharedCap
