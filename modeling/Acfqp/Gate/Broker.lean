import Acfqp.Gate.Publication

/-!
# The broker's operations and the one-shot slot

Every operation moves the slot forward, and fails for reasons of its caller only. The rejection
that the slot holds is the only one that a later commit can return.
-/

namespace Acfqp.Gate

open Library Durable

section Broker

variable {enc : Encoding} {gate : Handle} {slot : Slot} {k : ℕ} {disk : GateDirectory}
  {S : GateDirectory → Prop} {E : GateError → GateDirectory → Prop}

/-! ## Arguments -/

theorem raises_cid (value label : String) : Raises GateError.Benign (cid value label) := by
  unfold cid
  split
  · exact .pure
  · exact .throw trivial

theorem raises_buildCommit (spec : GateSpec) (request : CommitRequest) :
    Raises GateError.Benign (buildCommit enc spec request) := by
  refine .bind (raises_cid _ _) fun _ _ => .bind (raises_cid _ _) fun _ _ => ?_
  refine .bind (raises_cid _ _) fun _ _ => .bind (raises_cid _ _) fun _ _ => ?_
  refine .bind (.orRaise trivial) fun _ _ => .bind (.orRaise trivial) fun _ _ => ?_
  split
  · split
    · split
      · split
        · split
          · split
            · exact .bind (.require trivial) fun _ _ => .pure
            · exact .throw trivial
          · exact .throw trivial
        · exact .throw trivial
      · exact .throw trivial
    · exact .throw trivial
  · exact .throw trivial

theorem gateId_of_buildCommit {spec : GateSpec} {request : CommitRequest} {c : Commit}
    (h : buildCommit enc spec request = .ok c) : c.gateId = enc.gateId spec := by
  obtain ⟨_, -, h⟩ := bind_eq_ok.mp h
  obtain ⟨_, -, h⟩ := bind_eq_ok.mp h
  obtain ⟨_, -, h⟩ := bind_eq_ok.mp h
  obtain ⟨_, -, h⟩ := bind_eq_ok.mp h
  obtain ⟨_, -, h⟩ := bind_eq_ok.mp h
  obtain ⟨_, -, h⟩ := bind_eq_ok.mp h
  split at h
  · split at h
    · split at h
      · split at h
        · split at h
          · split at h
            · obtain ⟨_, -, h⟩ := bind_eq_ok.mp h
              rw [← pure_eq_ok.mp h]
            · cases h
          · cases h
        · cases h
      · cases h
    · cases h
  · cases h

theorem raises_buildAck (spec : GateSpec) (commit : Commit) (request : AckRequest) :
    Raises GateError.Benign (buildAck enc spec commit request) := by
  refine .bind (raises_cid _ _) fun _ _ => .bind (raises_cid _ _) fun _ _ => ?_
  exact .bind (raises_cid _ _) fun _ _ => .pure

theorem buildAck_eq_ok {spec : GateSpec} {commit : Commit} {request : AckRequest} {a : Ack}
    (h : buildAck enc spec commit request = .ok a) :
    a.gateId = enc.gateId spec ∧ a.commitId = enc.commitId commit := by
  obtain ⟨_, -, h⟩ := bind_eq_ok.mp h
  obtain ⟨_, -, h⟩ := bind_eq_ok.mp h
  obtain ⟨_, -, h⟩ := bind_eq_ok.mp h
  rw [← pure_eq_ok.mp h]
  exact ⟨rfl, rfl⟩

/-- A check either passes or fails with its own error. -/
theorem wp_ensure_or {p : Prop} [Decidable p] {e : GateError} {Q : Unit → GateDirectory → Prop}
    (hQ : p → Q () disk) (herror : ¬ p → E e disk) : wp (ensure p e) disk Q S E := by
  by_cases hp : p
  · exact wp_ensure hp (hQ hp)
  · refine wp_check (fun _ h => absurd (require_eq_ok.mp h) hp) fun e' h => ?_
    rw [require, if_neg hp] at h
    cases h
    exact herror hp

/-- A commit moves the slot forward, and fails for reasons of its caller only. -/
theorem Holds.wp_commitRejection (h : Holds enc gate slot k disk) {request : CommitRequest}
    {fault : CrashPoint} {Q : Commit → GateDirectory → Prop}
    (hstop : ∀ disk', Advances enc gate slot disk disk' → S disk')
    (herror : ∀ e disk', e.Benign → Advances enc gate slot disk disk' → E e disk')
    (hQ : ∀ c disk', Advances enc gate slot disk disk' → Q c disk') :
    wp (commitRejection enc gate request fault) disk Q S E := by
  apply wp_bind
  refine wp_check (fun desired hdesired => ?_) fun e he =>
    herror e disk (raises_buildCommit gate.spec request e he) h.advances
  have hgate := gateId_of_buildCommit hdesired
  apply wp_bind
  refine wp_ensure_or (fun _ => ?_) fun _ => herror _ _ trivial h.advances
  apply wp_bind
  refine h.wp_observeGate (fun _ _ j hk hj => hstop _ (h.advances_atCursor hk hj)) ?_
  rw [if_pos rfl]
  have h1 := h.atCursor (le_refl slot.sequence)
  have he1 := h.extends_atCursor h.lag
  have hadvance : ∀ disk', Advances enc gate slot
      (Gate.atCursor enc gate slot slot.sequence disk) disk' → Advances enc gate slot disk disk' :=
        fun _ h => h.of_extends (.refl slot) he1
  apply wp_bind
  refine h1.wp_publishedIntent hgate (fun _ => herror _ _ trivial (hadvance _ h1.advances))
    (fun _ disk' h' => hstop _ (hadvance _ h')) fun disk2 f h2 he2 _ hf => ?_
  obtain ⟨c, hc, -⟩ := slot.exists_intent_claimed desired
  obtain ⟨f', hf', hcontent⟩ := h2.exists_intent hc
  cases hf.symm.trans hf'
  have hadvance2 : ∀ disk', Advances enc gate (slot.claimed desired) disk2 disk' →
      Advances enc gate slot disk disk' := fun _ h =>
    h.of_extends (slot.leads_claimed desired) (he1.trans he2)
  have hseq := slot.sequence_claimed desired
  apply wp_bind
  rw [hcontent, commitFromDocument_toDocument]
  apply wp_pure
  apply wp_bind
  refine wp_ensure_or (fun _ => ?_) fun _ => herror _ _ trivial (hadvance2 _ h2.advances)
  apply wp_bind
  refine h2.wp_appendCursorState (t := 1) rfl one_pos (by omega) (by omega) (by rw [hc]; rfl) rfl
    (hstop _ (hadvance2 _ h2.advances)) ?_
  have h3 := h2.atCursor (show max slot.sequence 1 ≤ _ by omega)
  have hadvance3 := hadvance2 _ (h2.advances_atCursor (le_max_left _ 1) h3.lag)
  apply wp_bind
  refine wp_ensure_or (fun _ => ?_) fun _ => herror _ _ trivial hadvance3
  apply wp_bind
  refine h3.wp_linkedCommit hc hf (hstop _ hadvance3) fun disk4 h4 he4 => ?_
  have hleads := (slot.claimed desired).leads_recovered
  have hadvance4 : ∀ disk', Advances enc gate (slot.claimed desired).recovered disk4 disk' →
      Advances enc gate slot disk disk' := fun _ h => by
    obtain ⟨slot', k', hl, hh, he⟩ := h
    refine hadvance2 _ ⟨slot', k', hleads.trans hl, hh, ?_⟩
    exact ((h2.extends_atCursor (le_max_left _ 1)).trans he4).trans he
  apply wp_bind
  rw [hcontent, commitFromDocument_toDocument]
  apply wp_pure
  apply wp_bind
  have hseq4 : 2 ≤ (slot.claimed desired).recovered.sequence := by
    cases slot <;> simp [Slot.claimed, Slot.recovered, Slot.sequence]
  refine h4.wp_appendCursorState (t := 2) rfl two_pos (by omega) hseq4
    (by rw [hleads.intent_eq hc]; rfl) rfl (hstop _ (hadvance4 _ h4.advances)) ?_
  have hadvance5 := hadvance4 _ (h4.advances_atCursor (j := max (max slot.sequence 1) 2)
    (le_max_left _ _) (max_le (h4.lag) hseq4))
  apply wp_bind
  refine wp_ensure_or (fun _ => ?_) fun _ => herror _ _ trivial hadvance5
  exact wp_pure (hQ c _ hadvance5)

/-- The durable records of two directories are the same. -/
structure SameRecords (disk disk' : GateDirectory) : Prop where
  intent : disk'.intent = disk.intent
  commit : disk'.commit = disk.commit
  ack : disk'.ack = disk.ack

theorem Holds.wp_commitRejection_other (h : Holds enc gate slot k disk) {request : CommitRequest}
    {fault : CrashPoint} {c : Commit} (hc : slot.intent = some c)
    (hother : ∀ d, buildCommit enc gate.spec request = .ok d → enc.commitId d ≠ enc.commitId c) :
    wp (commitRejection enc gate request fault) disk (fun _ _ => False) (SameRecords disk)
      fun _ => SameRecords disk := by
  apply wp_bind
  refine wp_check (fun desired hdesired => ?_) fun _ _ => ⟨rfl, rfl, rfl⟩
  apply wp_bind
  refine wp_ensure_or (fun _ => ?_) fun _ => ⟨rfl, rfl, rfl⟩
  apply wp_bind
  refine h.wp_observeGate (fun _ _ _ _ _ => ⟨rfl, rfl, rfl⟩) ?_
  rw [if_pos rfl]
  have h1 := h.atCursor (le_refl slot.sequence)
  have hoccupied : slot ≠ .vacant := by
    rintro rfl
    cases hc
  apply wp_bind
  refine h1.wp_publishedIntent (gateId_of_buildCommit hdesired) (fun _ => ⟨rfl, rfl, rfl⟩)
    (fun hvacant => absurd hvacant hoccupied) fun disk2 f h2 he2 hsame hf => ?_
  obtain rfl := hsame hoccupied
  obtain ⟨f', hf', hcontent⟩ := h1.exists_intent hc
  cases hf.symm.trans hf'
  apply wp_bind
  rw [hcontent, commitFromDocument_toDocument]
  apply wp_pure
  apply wp_bind
  exact wp_ensure_or (fun heq => absurd heq.symm (hother desired hdesired)) fun _ => ⟨rfl, rfl, rfl⟩

/-! ## Operations that take the lock -/

/-- What every exclusive operation does with its handle. -/
theorem Holds.wp_requireExclusive (h : Holds enc gate slot k disk)
    {Q : Unit → GateDirectory → Prop} (hstop : ∀ disk', Advances enc gate slot disk disk' →
      SameRecords disk disk' → S disk')
    (hQ : ∀ disk', Holds enc gate slot k disk' → Extends disk disk' → SameRecords disk disk' →
      Q () disk') :
    wp (requireHandle enc gate .exclusive) disk Q S E := by
  refine h.wp_requireHandle (fun _ rest _ hrest => hstop _ (h.advances_suffix hrest)
    ⟨rfl, rfl, rfl⟩) ?_
  exact hQ _ (h.withTemps (by simp)) (.withTemps [] disk.nextInode) ⟨rfl, rfl, rfl⟩

theorem Holds.wp_requireShared (h : Holds enc gate slot k disk)
    {Q : Unit → GateDirectory → Prop} (hQ : Q () disk) :
    wp (requireHandle enc gate .shared) disk Q S E :=
  h.wp_requireHandle (by rintro ⟨⟩) hQ

theorem Holds.wp_commitAttemptRejection (h : Holds enc gate slot k disk) {role : WriterRole}
    {request : CommitRequest} {fault : CrashPoint} {Q : Commit → GateDirectory → Prop}
    (hstop : ∀ disk', Advances enc gate slot disk disk' → S disk')
    (herror : ∀ e disk', e.Benign → Advances enc gate slot disk disk' → E e disk')
    (hQ : ∀ c disk', Advances enc gate slot disk disk' → Q c disk') :
    wp (commitAttemptRejection enc gate role request fault) disk Q S E := by
  apply wp_bind
  refine wp_ensure_or (fun _ => ?_) fun _ => herror _ _ trivial h.advances
  apply wp_bind
  refine h.wp_requireExclusive (fun disk' h' _ => hstop disk' h') fun disk' h' he _ => ?_
  exact h'.wp_commitRejection (fun _ ha => hstop _ (ha.of_extends (.refl slot) he))
    (fun _ _ hb ha => herror _ _ hb (ha.of_extends (.refl slot) he))
    fun _ _ ha => hQ _ _ (ha.of_extends (.refl slot) he)

theorem Holds.wp_commitAttemptRejection_other (h : Holds enc gate slot k disk) {role : WriterRole}
    {request : CommitRequest} {fault : CrashPoint} {c : Commit} (hc : slot.intent = some c)
    (hother : ∀ d, buildCommit enc gate.spec request = .ok d → enc.commitId d ≠ enc.commitId c) :
    wp (commitAttemptRejection enc gate role request fault) disk (fun _ _ => False)
      (SameRecords disk) fun _ => SameRecords disk := by
  apply wp_bind
  refine wp_ensure_or (fun _ => ?_) fun _ => ⟨rfl, rfl, rfl⟩
  apply wp_bind
  refine h.wp_requireExclusive (fun _ _ => id) fun disk' h' _ hsame => ?_
  have htrans : ∀ disk'', SameRecords disk' disk'' → SameRecords disk disk'' := fun _ h =>
    ⟨h.intent.trans hsame.intent, h.commit.trans hsame.commit, h.ack.trans hsame.ack⟩
  exact wp_mono (h'.wp_commitRejection_other hc hother) (fun _ _ => False.elim) htrans
    fun _ => htrans

theorem Holds.wp_commitWithAdmissionLease (h : Holds enc gate slot k disk) {role : WriterRole}
    {request : CommitRequest} {fault : CrashPoint} {Q : Commit → GateDirectory → Prop}
    (hstop : ∀ disk', Advances enc gate slot disk disk' → S disk')
    (herror : ∀ e disk', e.Benign → Advances enc gate slot disk disk' → E e disk')
    (hQ : ∀ c disk', Advances enc gate slot disk disk' → Q c disk') :
    wp (commitWithAdmissionLease enc gate role request fault) disk Q S E := by
  apply wp_bind
  refine wp_ensure_or (fun _ => ?_) fun _ => herror _ _ trivial h.advances
  apply wp_bind
  apply wp_observe
  apply wp_bind
  apply wp_ensure h.pinned.directory
  exact h.wp_commitRejection hstop herror hQ

theorem Holds.wp_commitWithAdmissionLease_other (h : Holds enc gate slot k disk)
    {role : WriterRole} {request : CommitRequest} {fault : CrashPoint} {c : Commit}
    (hc : slot.intent = some c)
    (hother : ∀ d, buildCommit enc gate.spec request = .ok d → enc.commitId d ≠ enc.commitId c) :
    wp (commitWithAdmissionLease enc gate role request fault) disk (fun _ _ => False)
      (SameRecords disk) fun _ => SameRecords disk := by
  apply wp_bind
  refine wp_ensure_or (fun _ => ?_) fun _ => ⟨rfl, rfl, rfl⟩
  apply wp_bind
  apply wp_observe
  apply wp_bind
  apply wp_ensure h.pinned.directory
  exact h.wp_commitRejection_other hc hother

theorem Holds.wp_recoverGate (h : Holds enc gate slot k disk)
    {Q : GateState → GateDirectory → Prop}
    (hstop : ∀ disk', Advances enc gate slot disk disk' → S disk')
    (hQ : ∀ disk', Holds enc gate slot.recovered slot.recovered.sequence disk' →
      Extends disk disk' → disk'.temps = [] → Q slot.recovered.state disk') :
    wp (recoverGate enc gate) disk Q S E := by
  apply wp_bind
  refine h.wp_requireExclusive (fun disk' h' _ => hstop disk' h') fun disk' h' he _ => ?_
  apply wp_bind
  refine h'.wp_replayGate (fun _ ha => hstop _ (ha.of_extends (.refl slot) he))
    fun disk'' h'' he' htemps => ?_
  exact wp_pure (hQ disk'' h'' (he.trans he') htemps)

theorem Holds.wp_recoverGate_settled (h : Holds enc gate slot slot.sequence disk)
    (hslot : slot.recovered = slot) (htemps : disk.temps = []) :
    wp (recoverGate enc gate) disk (fun state disk' => state = slot.state ∧ disk' = disk)
      (fun _ => False) fun _ _ => False := by
  have hsame : { disk with temps := [] } = disk := by rw [← htemps]
  apply wp_bind
  refine h.wp_requireHandle (fun _ rest hne hrest => ?_) ?_
  · rw [htemps, List.suffix_nil] at hrest
    exact hne hrest
  rw [if_pos rfl, hsame]
  apply wp_bind
  exact h.wp_replayGate_settled hslot htemps (wp_pure ⟨rfl, rfl⟩)

theorem Holds.wp_publishAck (h : Holds enc gate slot k disk) {c : Commit}
    (hcommit : slot.commit = some c) {a : Ack} (hgate : a.gateId = enc.gateId gate.spec)
    (hid : a.commitId = enc.commitId c) {length : ℕ} {Q : Bool → GateDirectory → Prop}
    (herror : ∀ message, E (.byteCap message) disk)
    (hstop : ∀ disk', Advances enc gate slot disk disk' → S disk')
    (hnew : slot.ack = none → ∀ disk', Holds enc gate (.acknowledged c a) k disk' →
      Extends disk disk' → Q true disk')
    (hold : ∀ b, slot = .acknowledged c b → ∀ disk', Holds enc gate slot k disk' →
      Extends disk disk' → Q false disk') :
    wp (Gate.publishAck (a.toDocument enc) length) disk Q S E := by
  have hslot : slot = .committed c ∨ ∃ b, slot = .acknowledged c b := by
    cases slot <;> simp_all [Slot.commit]
  refine wp_publishNew herror (hstop _ h.advances)
    (fun t ht => hstop _ (h.advances_withTemps (cons_temps_private h.pinned ht)))
    (fun htaken => ?_) (fun _ => rfl) fun hfree t ht => ?_
  · rcases hslot with rfl | ⟨b, rfl⟩
    · simp [h.ack_eq_none rfl] at htaken
    · exact hold b rfl _ (h.withTemps h.pinned.temps) (.withTemps _ _)
  · rcases hslot with rfl | ⟨b, rfl⟩
    · have hnone := h.ack_eq_none rfl
      have hextends : ∀ temps n inode, Extends disk { disk with
          temps := temps, nextInode := n, ack := some ⟨inode, a.toDocument enc⟩ } :=
        fun _ _ _ => ⟨fun _ => id, fun _ => id, fun f hf => (by rw [hnone] at hf; cases hf),
          List.prefix_rfl⟩
      refine ⟨hstop _ ⟨.acknowledged c a, k, rfl, ?_, hextends _ _ _⟩, hnew rfl _ ?_ ?_⟩
      · exact (h.withTemps (cons_temps_private h.pinned ht)).publishAck hgate hid _
      · dsimp only
        rw [List.erase_cons_head]
        exact (h.withTemps (n := disk.nextInode + 1) h.pinned.temps).publishAck hgate hid t.inode
      · exact hextends _ _ _
    · have hack := h.ack
      rw [Option.isSome_eq_false_iff, Option.isNone_iff_eq_none] at hfree
      rw [hfree] at hack
      cases hack

/-- An acknowledgement moves the slot forward, and fails for reasons of its caller only. -/
theorem Holds.wp_acknowledgeAttemptRejection (h : Holds enc gate slot k disk) {commit : Commit}
    {role : WriterRole} {request : AckRequest} {fault : CrashPoint}
    {Q : Ack → GateDirectory → Prop}
    (hstop : ∀ disk', Advances enc gate slot disk disk' → S disk')
    (herror : ∀ e disk', e.Benign → Advances enc gate slot disk disk' → E e disk')
    (hQ : ∀ a disk', Advances enc gate slot disk disk' → Q a disk') :
    wp (acknowledgeAttemptRejection enc gate commit role request fault) disk Q S E := by
  apply wp_bind
  refine wp_ensure_or (fun _ => ?_) fun _ => herror _ _ trivial h.advances
  apply wp_bind
  refine wp_ensure_or (fun _ => ?_) fun _ => herror _ _ trivial h.advances
  apply wp_bind
  refine wp_check (fun desired hdesired => ?_) fun e he =>
    herror e disk (raises_buildAck gate.spec commit request e he) h.advances
  obtain ⟨hgate, hid⟩ := buildAck_eq_ok hdesired
  apply wp_bind
  refine h.wp_requireExclusive (fun disk' h' _ => hstop disk' h') fun disk1 h1 he1 _ => ?_
  apply wp_bind
  refine h1.wp_replayGate (fun _ ha => hstop _ (ha.of_extends (.refl slot) he1))
    fun disk2 h2 he2 _ => ?_
  have hadvance : ∀ disk', Advances enc gate slot.recovered disk2 disk' →
      Advances enc gate slot disk disk' := fun _ ha =>
    ha.of_extends slot.leads_recovered (he1.trans he2)
  dsimp only [Slot.observation]
  cases hcommit : slot.recovered.commit with
  | none => exact wp_raise (herror _ _ trivial (hadvance _ h2.advances))
  | some durable =>
    apply wp_bind
    refine wp_ensure_or (fun hsame => ?_) fun _ => herror _ _ trivial (hadvance _ h2.advances)
    obtain rfl : durable = commit := congrArg CommitDocument.commit hsame
    have hseq : 2 ≤ slot.recovered.sequence := by
      have := slot.recovered.isSome_commit
      rw [hcommit] at this
      simpa using this
    -- what is left when the directory holds the acknowledged slot
    have hrest : ∀ disk3 k3, Holds enc gate (.acknowledged durable desired) k3 disk3 → 2 ≤ k3 →
        Advances enc gate slot disk disk3 → (∀ disk', Advances enc gate
          (.acknowledged durable desired) disk3 disk' → Advances enc gate slot disk disk') →
        wp (do
          appendCursorState enc gate .acknowledged (some (enc.commitId durable))
            (some (enc.ackId desired))
          ensure (fault ≠ .afterAckFsync) (.injectedCrash "crash after durable ack")
          check (ackFromDocument enc (desired.toDocument enc))) disk3 Q S E := by
      intro disk3 k3 h3 hk3 ha3 hadvance3
      have hlag := h3.lag
      apply wp_bind
      refine h3.wp_appendCursorState (t := 3) rfl (by omega) (by omega) (le_refl 3) rfl rfl
        (hstop _ ha3) ?_
      have ha4 := hadvance3 _ (h3.advances_atCursor (le_max_left k3 3) (max_le hlag (le_refl 3)))
      apply wp_bind
      refine wp_ensure_or (fun _ => ?_) fun _ => herror _ _ trivial ha4
      rw [ackFromDocument_toDocument]
      exact wp_pure (hQ _ _ ha4)
    apply wp_bind
    refine h2.wp_publishAck hcommit hgate hid (fun _ => herror _ _ trivial (hadvance _ h2.advances))
      (fun _ ha => hstop _ (hadvance _ ha)) (fun hnone disk3 h3 he3 => ?_)
      fun b hb disk3 h3 he3 => ?_
    · have hleads : slot.recovered.Leads (.acknowledged durable desired) := by
        revert hnone hcommit
        cases slot.recovered <;> simp +contextual [Slot.commit, Slot.ack, Slot.Leads]
      apply wp_bind
      apply wp_observe
      apply wp_bind
      apply wp_ensure (.inl rfl)
      exact hrest disk3 _ h3 hseq (hadvance _ ⟨_, _, hleads, h3, he3⟩)
        fun _ ha => hadvance _ (ha.of_extends hleads he3)
    · have ha3 := hadvance _ ⟨_, _, .refl _, h3, he3⟩
      apply wp_bind
      apply wp_observe
      apply wp_bind
      refine wp_ensure_or (fun hack => ?_) fun _ => herror _ _ trivial ha3
      have hcontent := h3.ack
      rw [hack.resolve_left (by simp), hb] at hcontent
      obtain rfl : desired = b := congrArg AckDocument.ack (Option.some.inj hcontent)
      rw [hb] at h3 hseq hadvance
      exact hrest disk3 _ h3 hseq ha3 fun _ ha => hadvance _ (ha.of_extends (.refl _) he3)

/-! ## What precedes the bodies -/

/-- An admission body starts on a vacant slot only. -/
theorem Holds.wp_beginAdmission (h : Holds enc gate slot k disk) {Q : Unit → GateDirectory → Prop}
    (hstop : ∀ disk', Advances enc gate slot disk disk' → S disk')
    (herror : ∀ e disk', e.Benign → Advances enc gate slot disk disk' → E e disk')
    (hQ : ∀ disk', Advances enc gate slot disk disk' → slot = .vacant → disk'.intent = none →
      Q () disk') :
    wp (beginAdmission enc gate) disk Q S E := by
  apply wp_bind
  refine h.wp_requireExclusive (fun disk' h' _ => hstop disk' h') fun disk1 h1 he1 _ => ?_
  apply wp_bind
  refine h1.wp_replayGate (fun _ ha => hstop _ (ha.of_extends (.refl slot) he1))
    fun disk2 h2 he2 _ => ?_
  have ha : Advances enc gate slot disk disk2 :=
    h2.advances.of_extends slot.leads_recovered (he1.trans he2)
  refine wp_ensure_or (fun hopen => ?_) fun _ => herror _ _ trivial ha
  obtain rfl : slot = .vacant := by
    cases slot <;> simp_all [Slot.recovered, Slot.observation, Slot.state]
  exact hQ _ ha rfl h2.intent_vacant

theorem Holds.wp_beginReplay (h : Holds enc gate slot k disk)
    {Q : Observation → GateDirectory → Prop}
    (hstop : ∀ disk', Advances enc gate slot disk disk' → S disk')
    (hQ : ∀ o disk', Advances enc gate slot disk disk' → Q o disk') :
    wp (beginReplay enc gate) disk Q S E := by
  apply wp_bind
  refine h.wp_requireExclusive (fun disk' h' _ => hstop disk' h') fun disk1 h1 he1 _ => ?_
  apply wp_bind
  refine h1.wp_replayGate (fun _ ha => hstop _ (ha.of_extends (.refl slot) he1))
    fun disk2 h2 he2 _ => ?_
  have ha : Advances enc gate slot disk disk2 :=
    h2.advances.of_extends slot.leads_recovered (he1.trans he2)
  refine h2.wp_observeGate (by rintro ⟨⟩) ?_
  rw [if_neg (by simp), h2.atCursor_self]
  exact hQ _ _ ha

/-- A side-effect body starts on a vacant slot only, and its check writes nothing. -/
theorem Holds.wp_beginSideEffect (h : Holds enc gate slot k disk) :
    wp (beginSideEffect enc gate) disk (fun _ disk' => slot = .vacant ∧ disk' = disk)
      (fun _ => False) fun e disk' => e.Benign ∧ disk' = disk := by
  apply wp_bind
  apply h.wp_requireShared
  apply wp_bind
  refine h.wp_observeGate (by rintro ⟨⟩) ?_
  rw [if_neg (by simp), h.atCursor_self]
  refine wp_ensure_or (fun hopen => ⟨?_, rfl⟩) fun _ => ⟨trivial, rfl⟩
  cases slot <;> simp_all [Slot.observation, Slot.state]

theorem Holds.wp_readCommitted (h : Holds enc gate slot k disk) :
    wp (readCommitted enc gate) disk (fun _ disk' => disk' = disk) (fun _ => False)
      fun _ _ => False := by
  apply wp_bind
  apply h.wp_requireShared
  apply wp_bind
  refine h.wp_observeGate (by rintro ⟨⟩) ?_
  rw [if_neg (by simp), h.atCursor_self]
  exact wp_pure rfl

theorem Holds.wp_openGate (h : Holds enc gate slot k disk) :
    wp (openGate enc (enc.gateId gate.spec)) disk (fun gate' disk' => gate' = gate ∧ disk' = disk)
      (fun _ => False) fun _ _ => False := by
  have hp := h.pinned
  obtain ⟨rest, hchain⟩ := chain_eq_cons enc gate slot k
  apply wp_bind
  apply wp_observe
  rw [hp.spec]
  apply wp_bind
  apply wp_ensure rfl
  apply wp_bind
  apply wp_ensure ⟨hp.baseRealpath, hp.base⟩
  apply wp_bind
  apply h.wp_verifyAllocation
  apply wp_bind
  apply hp.wp_verifyLayout
  apply wp_bind
  apply wp_observe
  apply wp_bind
  apply h.wp_readCursorLog
  rw [hchain]
  refine wp_pure ⟨?_, rfl⟩
  rw [hp.directory, hp.lock, ← h.genesis]
  rfl

end Broker

end Acfqp.Gate
