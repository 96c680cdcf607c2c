import Acfqp.Gate.Slot

/-!
# Recovery and publication on the attempt-rejection gate

What the operations on the directory do to its slot, however they end.
-/

namespace Acfqp.Gate

open Library Durable

section Invariant

variable {enc : Encoding} {gate : Handle} {slot : Slot} {k : ℕ} {disk : GateDirectory}
  {S : GateDirectory → Prop} {E : GateError → GateDirectory → Prop}

/-! ## Temporary files -/

theorem Pinned.withTemps (h : Pinned enc gate disk) {temps : List Temp} {n : ℕ}
    (htemps : ∀ t ∈ temps, t.privateRegular = true) :
    Pinned enc gate { disk with temps := temps, nextInode := n } :=
  { h with temps := htemps }

theorem Holds.withTemps (h : Holds enc gate slot k disk) {temps : List Temp} {n : ℕ}
    (htemps : ∀ t ∈ temps, t.privateRegular = true) :
    Holds enc gate slot k { disk with temps := temps, nextInode := n } :=
  { h with pinned := h.pinned.withTemps htemps }

theorem Extends.withTemps (temps : List Temp) (n : ℕ) :
    Extends disk { disk with temps := temps, nextInode := n } :=
  ⟨fun _ => id, fun _ => id, fun _ => id, List.prefix_rfl⟩

theorem wp_unlinkTemps {temps : List Temp} (hprivate : ∀ t ∈ temps, t.privateRegular = true)
    (htemps : disk.temps = temps) {Q : Unit → GateDirectory → Prop}
    (hstop : ∀ rest, rest ≠ [] → rest <:+ temps → S { disk with temps := rest })
    (hQ : Q () { disk with temps := [] }) : wp (unlinkTemps temps) disk Q S E := by
  induction temps generalizing disk with
  | nil =>
    refine wp_pure ?_
    rw [← htemps] at hQ
    exact hQ
  | cons t rest ih =>
    apply wp_bind
    apply wp_ensure (hprivate t (by simp))
    apply wp_bind
    apply wp_durably
    · have hself := hstop (t :: rest) (by simp) List.suffix_rfl
      rwa [← htemps] at hself
    · apply ih (fun u hu => hprivate u (List.mem_cons_of_mem _ hu))
      · simp [htemps]
      · exact fun r hne hr => hstop r hne (hr.trans (List.suffix_cons t rest))
      · exact hQ

theorem Pinned.wp_cleanupGateTemps (h : Pinned enc gate disk) {Q : Unit → GateDirectory → Prop}
    (hstop : ∀ rest, rest ≠ [] → rest <:+ disk.temps → S { disk with temps := rest })
    (hQ : Q () { disk with temps := [] }) : wp cleanupGateTemps disk Q S E := by
  apply wp_bind
  apply wp_observe
  exact wp_unlinkTemps h.temps rfl hstop hQ

theorem Pinned.wp_verifyLayout (h : Pinned enc gate disk) {Q : Unit → GateDirectory → Prop}
    (hQ : Q () disk) : wp verifyLayout disk Q S E := by
  apply wp_bind
  apply wp_observe
  apply wp_bind
  apply wp_ensure h.temps
  apply wp_bind
  apply wp_ensure h.unknown
  exact wp_ensure (by rw [h.lock]) hQ

theorem Holds.wp_verifyAllocation (h : Holds enc gate slot k disk)
    {Q : Unit → GateDirectory → Prop} (hQ : Q () disk) :
    wp (verifyAllocation enc gate.spec) disk Q S E := by
  obtain ⟨rest, hchain⟩ := chain_eq_cons enc gate slot k
  apply wp_bind
  apply wp_observe
  apply wp_bind
  apply wp_ensure h.pinned.allocationIntent
  apply wp_bind
  apply wp_bind
  apply h.wp_readCursorLog
  apply wp_bind
  apply wp_observe
  rw [hchain]
  apply wp_pure
  rw [h.pinned.allocation]
  refine wp_ensure ?_ hQ
  rw [h.pinned.directory, h.pinned.lock, h.genesis]
  rfl

/-- A handle that the directory is pinned by is accepted. -/
theorem Holds.wp_requireHandle (h : Holds enc gate slot k disk) {mode : LockMode}
    {Q : Unit → GateDirectory → Prop}
    (hstop : mode = .exclusive → ∀ rest, rest ≠ [] → rest <:+ disk.temps →
      S { disk with temps := rest })
    (hQ : Q () { disk with temps := if mode = .exclusive then [] else disk.temps }) :
    wp (requireHandle enc gate mode) disk Q S E := by
  have hp := h.pinned
  have hrest : ∀ temps, (∀ t ∈ temps, t.privateRegular = true) →
      Q () { disk with temps := temps } →
      wp (do
        verifyLayout
        let log ← readCursorLog enc (enc.gateId gate.spec)
        check (verifyCursorHandle gate log)) { disk with temps := temps } Q S E := by
    intro temps htemps hQ
    have h' : Holds enc gate slot k { disk with temps := temps } := h.withTemps htemps
    apply wp_bind
    apply h'.pinned.wp_verifyLayout
    apply wp_bind
    apply h'.wp_readCursorLog
    exact h'.wp_verifyCursorHandle hQ
  apply wp_bind
  apply wp_observe
  apply wp_bind
  apply wp_ensure ⟨hp.baseRealpath, hp.base⟩
  apply wp_bind
  apply wp_ensure hp.directory
  apply wp_bind
  apply wp_ensure (by rw [hp.lock])
  apply wp_bind
  apply h.wp_verifyAllocation
  apply wp_bind
  apply wp_ensure (by rw [hp.spec]; rfl)
  apply wp_bind
  apply wp_ensure hp.spec
  apply wp_bind
  cases mode with
  | shared => exact wp_pure (hrest disk.temps hp.temps hQ)
  | exclusive => exact hp.wp_cleanupGateTemps (hstop rfl) (hrest [] (by simp) hQ)

/-! ## Records that become durable -/

namespace Holds

/-- A vacant slot takes an intent. -/
theorem publishIntent (h : Holds enc gate .vacant k disk) {c : Commit}
    (hgate : c.gateId = enc.gateId gate.spec) (inode : Inode) :
    Holds enc gate (.intended c) k { disk with intent := some ⟨inode, c.toDocument enc⟩ } :=
  { pinned := { h.pinned with }
    genesis := h.genesis
    valid := hgate
    intent := rfl
    commit := h.commit
    ack := h.ack
    cursor := h.cursor.trans (chain_congr (show Slot.vacant.Leads (.intended c) from trivial)
      h.lag).symm
    lag := h.lag.trans (Nat.zero_le _) }

theorem linkCommit {c : Commit} (h : Holds enc gate (.intended c) k disk) :
    Holds enc gate (.committed c) k { disk with commit := disk.intent } :=
  { pinned := { h.pinned with }
    genesis := h.genesis
    valid := h.valid
    intent := h.intent
    commit := rfl
    ack := h.ack
    cursor := h.cursor.trans (chain_congr
      (show (Slot.intended c).Leads (.committed c) from rfl) h.lag).symm
    lag := h.lag.trans (by simp [Slot.sequence]) }

/-- A committed slot takes an acknowledgement. -/
theorem publishAck {c : Commit} (h : Holds enc gate (.committed c) k disk) {a : Ack}
    (hgate : a.gateId = enc.gateId gate.spec) (hcommit : a.commitId = enc.commitId c)
    (inode : Inode) :
    Holds enc gate (.acknowledged c a) k { disk with ack := some ⟨inode, a.toDocument enc⟩ } :=
  { pinned := { h.pinned with }
    genesis := h.genesis
    valid := ⟨h.valid, hgate, hcommit⟩
    intent := h.intent
    commit := h.commit
    ack := rfl
    cursor := h.cursor.trans (chain_congr
      (show (Slot.committed c).Leads (.acknowledged c a) from rfl) h.lag).symm
    lag := h.lag.trans (by simp [Slot.sequence]) }

theorem intent_vacant (h : Holds enc gate .vacant k disk) : disk.intent = none :=
  Option.map_eq_none_iff.mp h.intent

theorem commit_eq_none (h : Holds enc gate slot k disk) (hslot : slot.commit = none) :
    disk.commit = none := by
  rw [h.commit, hslot]
  rfl

theorem ack_eq_none (h : Holds enc gate slot k disk) (hslot : slot.ack = none) :
    disk.ack = none := by
  have hack := h.ack
  rw [hslot] at hack
  exact Option.map_eq_none_iff.mp hack

theorem exists_intent (h : Holds enc gate slot k disk) {c : Commit} (hslot : slot.intent = some c) :
    ∃ f, disk.intent = some f ∧ f.content = c.toDocument enc := by
  have hintent := h.intent
  rw [hslot] at hintent
  exact Option.map_eq_some_iff.mp hintent

end Holds

variable (enc) in
/-- The directory holds a later slot, and all that it held before. -/
def Advances (gate : Handle) (slot : Slot) (disk disk' : GateDirectory) : Prop :=
  ∃ slot' k', slot.Leads slot' ∧ Holds enc gate slot' k' disk' ∧ Extends disk disk'

theorem Holds.advances (h : Holds enc gate slot k disk) : Advances enc gate slot disk disk :=
  ⟨slot, k, .refl slot, h, .refl disk⟩

theorem Advances.of_extends {slot' : Slot} {disk' disk'' : GateDirectory}
    (hleads : slot.Leads slot') (hextends : Extends disk disk')
    (h : Advances enc gate slot' disk' disk'') : Advances enc gate slot disk disk'' := by
  obtain ⟨slot'', k'', hl, hh, he⟩ := h
  exact ⟨slot'', k'', hleads.trans hl, hh, hextends.trans he⟩

theorem Holds.advances_atCursor (h : Holds enc gate slot k disk) {j : ℕ} (hk : k ≤ j)
    (hj : j ≤ slot.sequence) : Advances enc gate slot disk (Gate.atCursor enc gate slot j disk) :=
  ⟨slot, j, .refl slot, h.atCursor hj, h.extends_atCursor hk⟩

theorem Holds.advances_withTemps (h : Holds enc gate slot k disk) {temps : List Temp} {n : ℕ}
    (htemps : ∀ t ∈ temps, t.privateRegular = true) :
    Advances enc gate slot disk { disk with temps := temps, nextInode := n } :=
  ⟨slot, k, .refl slot, h.withTemps htemps, .withTemps temps n⟩

theorem Holds.advances_suffix (h : Holds enc gate slot k disk) {temps : List Temp}
    (htemps : temps <:+ disk.temps) : Advances enc gate slot disk { disk with temps := temps } :=
  h.advances_withTemps fun t ht => h.pinned.temps t (htemps.subset ht)

theorem Holds.wp_linkIntentToCommit {c : Commit} (h : Holds enc gate (.intended c) k disk)
    {Q : Bool → GateDirectory → Prop} (hstop : S disk)
    (hQ : Q true { disk with commit := disk.intent }) : wp linkIntentToCommit disk Q S E := by
  apply wp_bind
  apply wp_observe
  rw [if_neg (by simp [h.commit_eq_none rfl])]
  apply wp_bind
  exact wp_durably hstop (wp_pure hQ)

theorem Holds.extends_linkCommit {c : Commit} (h : Holds enc gate (.intended c) k disk) :
    Extends disk { disk with commit := disk.intent } :=
  ⟨fun _ => id, fun f hf => (by rw [h.commit_eq_none rfl] at hf; cases hf), fun _ => id,
    List.prefix_rfl⟩

/-- Recovery completes the slot and brings the cursor to it. -/
theorem Holds.wp_replayGate (h : Holds enc gate slot k disk)
    {Q : Observation → GateDirectory → Prop}
    (hstop : ∀ disk', Advances enc gate slot disk disk' → S disk')
    (hQ : ∀ disk', Holds enc gate slot.recovered slot.recovered.sequence disk' →
      Extends disk disk' → disk'.temps = [] → Q slot.recovered.observation disk') :
    wp (replayGate enc gate) disk Q S E := by
  apply wp_bind
  apply h.pinned.wp_cleanupGateTemps fun rest _ hrest => hstop _ (h.advances_suffix hrest)
  have h1 : Holds enc gate slot k { disk with temps := [] } := h.withTemps (by simp)
  have he1 : Extends disk { disk with temps := [] } := .withTemps [] disk.nextInode
  apply wp_bind
  refine h1.wp_observeGate (fun _ _ j hk hj => hstop _ ?_) ?_
  · exact (h1.advances_atCursor hk hj).of_extends (.refl slot) he1
  rw [if_pos rfl]
  have h2 := h1.atCursor (le_refl slot.sequence)
  have he2 := he1.trans (h1.extends_atCursor h.lag)
  cases slot with
  | intended c =>
    rw [if_pos (show (Slot.intended c).observation.state = .intentDurable from rfl)]
    apply wp_bind
    apply h2.wp_linkIntentToCommit (hstop _ (h2.advances.of_extends (.refl _) he2))
    apply wp_bind
    apply wp_ensure rfl
    have h3 := h2.linkCommit
    have he3 := he2.trans h2.extends_linkCommit
    have hleads : (Slot.intended c).Leads (.committed c) := rfl
    refine h3.wp_observeGate (fun _ _ j hk hj => hstop _ ?_) ?_
    · exact (h3.advances_atCursor hk hj).of_extends hleads he3
    · exact hQ _ (h3.atCursor le_rfl) (he3.trans (h3.extends_atCursor h3.lag)) rfl
  | vacant =>
    rw [if_neg (by simp [Slot.observation, Slot.state])]
    exact wp_pure (hQ _ h2 he2 rfl)
  | committed c =>
    rw [if_neg (by simp [Slot.observation, Slot.state])]
    exact wp_pure (hQ _ h2 he2 rfl)
  | acknowledged c a =>
    rw [if_neg (by simp [Slot.observation, Slot.state])]
    exact wp_pure (hQ _ h2 he2 rfl)

/-- A recovered directory stays as it is. -/
theorem Holds.wp_replayGate_settled (h : Holds enc gate slot slot.sequence disk)
    (hslot : slot.recovered = slot) (htemps : disk.temps = [])
    {Q : Observation → GateDirectory → Prop} (hQ : Q slot.observation disk) :
    wp (replayGate enc gate) disk Q (fun _ => False) E := by
  have hstate : slot.observation.state ≠ .intentDurable := by
    cases slot <;> simp_all [Slot.recovered, Slot.observation, Slot.state]
  apply wp_bind
  apply wp_bind
  apply wp_observe
  rw [htemps]
  apply wp_pure
  apply wp_bind
  refine h.wp_observeGate (fun _ hlt => absurd hlt (lt_irrefl _)) ?_
  rw [if_pos rfl, h.atCursor_self, if_neg hstate]
  exact wp_pure hQ

/-! ## Publication -/

/-- A failure that says nothing of the gate's directory. -/
def GateError.Benign : GateError → Prop
  | .handle _ | .layout _ | .cursor _ | .record _ => False
  | _ => True

/-- A publication writes a temporary file, links it where the name is free, and unlinks it. -/
theorem wp_publishNew {length : ℕ} {taken : GateDirectory → Bool}
    {link : Inode → GateDirectory → GateDirectory} {Q : Bool → GateDirectory → Prop}
    (herror : ∀ message, E (.byteCap message) disk) (hstop : S disk)
    (htemp : ∀ t : Temp, t.privateRegular = true →
      S { disk with temps := t :: disk.temps, nextInode := disk.nextInode + 1 })
    (htaken : taken disk = true → Q false { disk with nextInode := disk.nextInode + 1 })
    (hsame : ∀ t, taken { disk with temps := t :: disk.temps, nextInode := disk.nextInode + 1 } =
      taken disk)
    (hlink : taken disk = false → ∀ t : Temp, t.privateRegular = true →
      let linked :=
        link t.inode { disk with temps := t :: disk.temps, nextInode := disk.nextInode + 1 }
      S linked ∧ Q true { linked with temps := linked.temps.erase t }) :
    wp (publishNew length taken link) disk Q S E := by
  apply wp_bind
  refine wp_check (fun _ _ => ?_) fun e he => ?_
  · apply wp_bind
    apply wp_observe
    apply wp_bind
    apply wp_durably hstop
    apply wp_bind
    apply wp_observe
    rw [hsame]
    split
    · rename_i h
      apply wp_bind
      apply wp_durably (htemp _ rfl)
      rw [List.erase_cons_head]
      exact wp_pure (htaken h)
    · rename_i h
      obtain ⟨hstop', hQ⟩ :=
        hlink (by simpa using h) ⟨⟨disk.directory.device, disk.nextInode⟩, true⟩ rfl
      apply wp_bind
      apply wp_durably (htemp _ rfl)
      apply wp_bind
      exact wp_durably hstop' (wp_pure hQ)
  · obtain rfl : e = .byteCap "durable gate record exceeds its byte cap before publication" := by
      unfold require at he
      split at he
      · cases he
      · exact (Except.error.inj he).symm
    exact herror _

theorem cons_temps_private (h : Pinned enc gate disk) {t : Temp} (ht : t.privateRegular = true) :
    ∀ u ∈ t :: disk.temps, u.privateRegular = true := by
  intro u hu
  rcases List.mem_cons.mp hu with rfl | hu
  · exact ht
  · exact h.temps u hu

theorem Holds.wp_publishIntent (h : Holds enc gate .vacant k disk) {c : Commit}
    (hgate : c.gateId = enc.gateId gate.spec) {length : ℕ} {Q : Bool → GateDirectory → Prop}
    (herror : ∀ message, E (.byteCap message) disk)
    (hstop : ∀ disk', Advances enc gate .vacant disk disk' → S disk')
    (hQ : ∀ disk', Holds enc gate (.intended c) k disk' → Extends disk disk' → Q true disk') :
    wp (Gate.publishIntent (c.toDocument enc) length) disk Q S E := by
  have hnone := h.intent_vacant
  refine wp_publishNew herror (hstop _ h.advances)
    (fun t ht => hstop _ (h.advances_withTemps (cons_temps_private h.pinned ht)))
    (fun htaken => by simp [hnone] at htaken) (fun _ => rfl) fun _ t ht => ?_
  have hextends : ∀ temps n inode, Extends disk { disk with
      temps := temps, nextInode := n, intent := some ⟨inode, c.toDocument enc⟩ } :=
    fun _ _ _ => ⟨fun f hf => (by rw [hnone] at hf; cases hf), fun _ => id, fun _ => id,
      List.prefix_rfl⟩
  refine ⟨hstop _ ⟨.intended c, k, trivial, ?_, hextends _ _ _⟩, hQ _ ?_ ?_⟩
  · exact (h.withTemps (cons_temps_private h.pinned ht)).publishIntent hgate _
  · dsimp only
    rw [List.erase_cons_head]
    exact (h.withTemps (n := disk.nextInode + 1) h.pinned.temps).publishIntent hgate t.inode
  · exact hextends _ _ _

def Slot.claimed (c : Commit) : Slot → Slot
  | .vacant => .intended c
  | slot => slot

theorem Slot.leads_claimed (c : Commit) (slot : Slot) : slot.Leads (slot.claimed c) := by
  cases slot <;> simp [Slot.Leads, Slot.claimed, Slot.intent, Slot.commit]

theorem Slot.sequence_claimed (c : Commit) (slot : Slot) :
    (slot.claimed c).sequence = max slot.sequence 1 := by
  cases slot <;> rfl

theorem Slot.exists_intent_claimed (c : Commit) (slot : Slot) :
    ∃ d, (slot.claimed c).intent = some d ∧ (slot.intent = some d ∨ slot = .vacant ∧ d = c) := by
  cases slot with
  | vacant => exact ⟨c, rfl, .inr ⟨rfl, rfl⟩⟩
  | intended d => exact ⟨d, rfl, .inl rfl⟩
  | committed d => exact ⟨d, rfl, .inl rfl⟩
  | acknowledged d a => exact ⟨d, rfl, .inl rfl⟩

/-- The durable intent is the one that was there, or else the one that was published. -/
theorem Holds.wp_publishedIntent (h : Holds enc gate slot k disk) {c : Commit}
    (hgate : c.gateId = enc.gateId gate.spec) {length : ℕ}
    {Q : File CommitDocument → GateDirectory → Prop}
    (herror : ∀ message, E (.byteCap message) disk)
    (hstop : slot = .vacant → ∀ disk', Advances enc gate slot disk disk' → S disk')
    (hQ : ∀ disk' f, Holds enc gate (slot.claimed c) k disk' → Extends disk disk' →
      (slot ≠ .vacant → disk' = disk) → disk'.intent = some f → Q f disk') :
    wp (publishedIntent (c.toDocument enc) length) disk Q S E := by
  apply wp_bind
  apply wp_observe
  apply wp_bind
  by_cases hvacant : slot = .vacant
  · subst hvacant
    rw [if_pos (by simp [h.intent_vacant])]
    refine wp_bind (h.wp_publishIntent hgate herror (hstop rfl) fun disk' h' he' => ?_)
    obtain ⟨f, hf, -⟩ := h'.exists_intent rfl
    refine wp_pure (wp_bind (wp_observe ?_))
    rw [hf]
    exact wp_pure (hQ disk' f h' he' (fun hne => absurd rfl hne) hf)
  · have hclaimed : slot.claimed c = slot := by
      cases slot <;> first | rfl | exact absurd rfl hvacant
    obtain ⟨d, hd, -⟩ := slot.exists_intent_claimed c
    rw [hclaimed] at hd
    obtain ⟨f, hf, -⟩ := h.exists_intent hd
    rw [if_neg (by simp [hf])]
    refine wp_pure (wp_bind (wp_observe ?_))
    rw [hf]
    exact wp_pure (hQ disk f (hclaimed.symm ▸ h) (.refl disk) (fun _ => rfl) hf)

theorem Holds.wp_linkedCommit (h : Holds enc gate slot k disk) {c : Commit}
    (hslot : slot.intent = some c) {f : File CommitDocument} (hf : disk.intent = some f)
    {Q : File CommitDocument → GateDirectory → Prop} (hstop : S disk)
    (hQ : ∀ disk', Holds enc gate slot.recovered k disk' → Extends disk disk' → Q f disk') :
    wp (linkedCommit f) disk Q S E := by
  have hdone : ∀ disk' : GateDirectory, disk'.commit = some f → Q f disk' → wp (do
      let disk ← observe
      let commitFile ← check (orRaise disk.commit
        (.record "rejection commit is absent or differs from its intent"))
      ensure (commitFile.content = f.content)
        (.record "rejection commit is absent or differs from its intent")
      ensure (f.inode = commitFile.inode)
        (.record "rejection commit is not the atomic intent hard link")
      return commitFile : GateM (File CommitDocument)) disk' Q S E := by
    intro disk' hcommit hQ
    apply wp_bind
    apply wp_observe
    apply wp_bind
    rw [hcommit]
    apply wp_pure
    apply wp_bind
    apply wp_ensure rfl
    apply wp_bind
    exact wp_ensure rfl (wp_pure hQ)
  apply wp_bind
  apply wp_observe
  apply wp_bind
  have hcommit := h.commit
  cases slot with
  | vacant => cases hslot
  | intended d =>
    rw [if_pos (by simp [h.commit_eq_none rfl])]
    refine wp_bind (h.wp_linkIntentToCommit hstop ?_)
    exact wp_pure (hdone _ hf (hQ _ h.linkCommit h.extends_linkCommit))
  | committed d =>
    simp only [Slot.commit, Option.isSome_some, if_true] at hcommit
    rw [if_neg (by simp [hcommit, hf])]
    exact wp_pure (hdone disk (hcommit.trans hf) (hQ disk h (.refl disk)))
  | acknowledged d a =>
    simp only [Slot.commit, Option.isSome_some, if_true] at hcommit
    rw [if_neg (by simp [hcommit, hf])]
    exact wp_pure (hdone disk (hcommit.trans hf) (hQ disk h (.refl disk)))

end Invariant

end Acfqp.Gate
