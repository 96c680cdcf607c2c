import Acfqp.Gate.Operations

/-!
# The one-shot slot behind a gate

A gate directory holds one slot: nothing, an intended rejection, the committed one, or the
acknowledged one. The cursor is a chain of the states that the slot has been through, and may lag
behind it. Every operation moves the slot forward.
-/

namespace Acfqp.Gate

open Library Durable

/-- What a gate durably holds. -/
inductive Slot where
  | vacant
  | intended (commit : Commit)
  | committed (commit : Commit)
  | acknowledged (commit : Commit) (ack : Ack)
  deriving DecidableEq

namespace Slot

def sequence : Slot → ℕ
  | vacant => 0
  | intended _ => 1
  | committed _ => 2
  | acknowledged _ _ => 3

def intent : Slot → Option Commit
  | vacant => none
  | intended c | committed c | acknowledged c _ => some c

def commit : Slot → Option Commit
  | vacant | intended _ => none
  | committed c | acknowledged c _ => some c

def ack : Slot → Option Ack
  | acknowledged _ a => some a
  | _ => none

def state : Slot → GateState
  | vacant => .opened
  | intended _ => .intentDurable
  | committed _ => .committedUnacknowledged
  | acknowledged _ _ => .acknowledged

def observation (slot : Slot) : Observation := ⟨slot.state, slot.commit, slot.ack⟩

def recovered : Slot → Slot
  | intended c => committed c
  | slot => slot

/-- The slot may become the other one. -/
def Leads : Slot → Slot → Prop
  | vacant, _ => True
  | intended c, slot => slot.intent = some c
  | committed c, slot => slot.commit = some c
  | acknowledged c a, slot => slot = acknowledged c a

theorem Leads.refl (slot : Slot) : slot.Leads slot := by
  cases slot <;> simp [Leads, intent, commit]

theorem Leads.trans {a b c : Slot} (hab : a.Leads b) (hbc : b.Leads c) : a.Leads c := by
  cases a <;> cases b <;> cases c <;> simp_all [Leads, intent, commit]

theorem Leads.sequence_le {a b : Slot} (h : a.Leads b) : a.sequence ≤ b.sequence := by
  cases a <;> cases b <;> simp_all [Leads, intent, commit, sequence]

theorem Leads.intent_eq {a b : Slot} (h : a.Leads b) {c : Commit} (hc : a.intent = some c) :
    b.intent = some c := by
  cases a <;> cases b <;> simp_all [Leads, intent, commit]

theorem leads_recovered (slot : Slot) : slot.Leads slot.recovered := by
  cases slot <;> simp [Leads, recovered, intent, commit]

theorem recovered_recovered (slot : Slot) : slot.recovered.recovered = slot.recovered := by
  cases slot <;> rfl

@[simp] theorem sequence_observation (slot : Slot) : slot.observation.sequence = slot.sequence := by
  cases slot <;> rfl

theorem isSome_intent (slot : Slot) : slot.intent.isSome = decide (1 ≤ slot.sequence) := by
  cases slot <;> rfl

theorem isSome_commit (slot : Slot) : slot.commit.isSome = decide (2 ≤ slot.sequence) := by
  cases slot <;> rfl

theorem isSome_ack (slot : Slot) : slot.ack.isSome = decide (3 ≤ slot.sequence) := by
  cases slot <;> rfl

theorem sequence_le (slot : Slot) : slot.sequence ≤ 3 := by
  cases slot <;> simp [sequence]

end Slot

section Invariant

variable (enc : Encoding)

/-- The records of the slot name the gate and each other. -/
def Slot.Valid (gateId : ContentId) : Slot → Prop
  | .vacant => True
  | .intended c | .committed c => c.gateId = gateId
  | .acknowledged c a => c.gateId = gateId ∧ a.gateId = gateId ∧ a.commitId = enc.commitId c

def chainRecord (gate : Handle) (slot : Slot) : ℕ → CursorRecord
  | 0 => cursorDocument enc
      ⟨enc.gateId gate.spec, gate.highWaterCursorToken, 0, .opened, none, none, none⟩
  | k + 1 => cursorDocument enc
      ⟨enc.gateId gate.spec, gate.highWaterCursorToken, k + 1, cursorStates.getD (k + 1) .opened,
        slot.intent.map enc.commitId, if k + 1 < 3 then none else slot.ack.map enc.ackId,
        some (chainRecord gate slot k).recordId⟩

/-- The cursor log up to a sequence number. -/
def chain (gate : Handle) (slot : Slot) (k : ℕ) : List CursorRecord :=
  (List.range (k + 1)).map (chainRecord enc gate slot)

/-- The directory is the one that the handle pins. -/
structure Pinned (gate : Handle) (disk : GateDirectory) : Prop where
  baseRealpath : disk.baseRealpath = gate.spec.gateBaseRealpath
  base : disk.base = gate.spec.gateBase
  directory : disk.directory = gate.gateDirectory
  lock : disk.lock = ⟨gate.gateLock, "ACFQP_H1_ATTEMPT_REJECTION_GATE_LOCK_V1\n"⟩
  spec : disk.spec = some gate.spec
  allocationIntent : disk.allocationIntent = some gate.spec
  allocation : disk.allocation = some ⟨enc.gateId gate.spec, gate.spec.gateBaseRealpath,
    gate.spec.gateBase, gate.gateDirectory, gate.gateLock, gate.highWaterCursor,
    gate.highWaterCursorToken, gate.highWaterCursorGenesisRecordId⟩
  cursorInode : disk.cursor.inode = gate.highWaterCursor
  unknown : disk.unknown = []
  temps : ∀ t ∈ disk.temps, t.privateRegular = true

/-- The directory holds the slot, and its cursor has reached the sequence number. -/
structure Holds (gate : Handle) (slot : Slot) (k : ℕ) (disk : GateDirectory) : Prop where
  pinned : Pinned enc gate disk
  genesis : gate.highWaterCursorGenesisRecordId = (chainRecord enc gate slot 0).recordId
  valid : slot.Valid enc (enc.gateId gate.spec)
  intent : disk.intent.map File.content = slot.intent.map (Commit.toDocument enc)
  commit : disk.commit = if slot.commit.isSome then disk.intent else none
  ack : disk.ack.map File.content = slot.ack.map (Ack.toDocument enc)
  cursor : disk.cursor.content = chain enc gate slot k
  lag : k ≤ slot.sequence

/-- The durable records of the first directory are those of the second, and so is its cursor. -/
structure Extends (disk disk' : GateDirectory) : Prop where
  intent : ∀ f, disk.intent = some f → disk'.intent = some f
  commit : ∀ f, disk.commit = some f → disk'.commit = some f
  ack : ∀ f, disk.ack = some f → disk'.ack = some f
  cursor : disk.cursor.content <+: disk'.cursor.content

theorem Extends.refl (disk : GateDirectory) : Extends disk disk :=
  ⟨fun _ => id, fun _ => id, fun _ => id, List.prefix_rfl⟩

theorem Extends.trans {a b c : GateDirectory} (hab : Extends a b) (hbc : Extends b c) :
    Extends a c :=
  ⟨fun f h => hbc.intent f (hab.intent f h), fun f h => hbc.commit f (hab.commit f h),
    fun f h => hbc.ack f (hab.ack f h), hab.cursor.trans hbc.cursor⟩

variable {enc} {gate : Handle} {slot : Slot} {k : ℕ} {disk : GateDirectory}

/-! ## The cursor chain -/

theorem chain_succ (gate : Handle) (slot : Slot) (k : ℕ) :
    chain enc gate slot (k + 1) = chain enc gate slot k ++ [chainRecord enc gate slot (k + 1)] := by
  rw [chain, List.range_succ, List.map_append]
  rfl

@[simp] theorem length_chain : (chain enc gate slot k).length = k + 1 := by
  simp [chain]

theorem chain_getElem? {i : ℕ} (hi : i ≤ k) :
    (chain enc gate slot k)[i]? = some (chainRecord enc gate slot i) := by
  simp [chain, List.getElem?_range (show i < k + 1 by omega)]

theorem chain_getElem?_of_lt {i : ℕ} (hi : k < i) : (chain enc gate slot k)[i]? = none :=
  List.getElem?_eq_none (by simp; omega)

theorem getLast?_chain :
    (chain enc gate slot k).getLast? = some (chainRecord enc gate slot k) := by
  cases k with
  | zero => rfl
  | succ k => rw [chain_succ, List.getLast?_append_cons]; rfl

variable (enc gate slot k) in
theorem chain_eq_cons : ∃ rest, chain enc gate slot k = chainRecord enc gate slot 0 :: rest := by
  rw [chain, List.range_succ_eq_map]
  exact ⟨_, rfl⟩

theorem chainRecord_congr {slot' : Slot} (h : slot.Leads slot') (hk : k ≤ slot.sequence) :
    chainRecord enc gate slot' k = chainRecord enc gate slot k := by
  induction k with
  | zero => rfl
  | succ k ih =>
    have hrec := ih (by omega)
    unfold chainRecord
    rw [hrec]
    cases slot <;> cases slot' <;>
      simp_all [Slot.Leads, Slot.intent, Slot.commit, Slot.sequence, Slot.ack]
    all_goals rw [if_pos (by omega)]

theorem chain_congr {slot' : Slot} (h : slot.Leads slot') (hk : k ≤ slot.sequence) :
    chain enc gate slot' k = chain enc gate slot k :=
  List.map_congr_left fun i hi =>
    chainRecord_congr h (by rw [List.mem_range] at hi; omega)

theorem parseCursorLog_chain (hk : k ≤ slot.sequence) :
    parseCursorLog enc (enc.gateId gate.spec) (chain enc gate slot k) =
      .ok (chain enc gate slot k) := by
  cases slot <;> simp only [Slot.sequence] at hk <;> interval_cases k <;>
    simp [parseCursorLog, chain, parseCursorRecords, chainRecord, cursorDocument, cursorStates,
      require, bind, Except.bind, pure, Except.pure, List.range_succ, Slot.intent, Slot.ack]

/-! ## Reading the cursor and the records -/

variable {S : GateDirectory → Prop} {E : GateError → GateDirectory → Prop}

theorem wp_ensure {p : Prop} [Decidable p] {e : GateError} {Q : Unit → GateDirectory → Prop}
    (hp : p) (hQ : Q () disk) : wp (ensure p e) disk Q S E :=
  wp_check (fun _ _ => hQ) fun _ he => by simp [require, hp] at he

/-- The directory with the cursor at a sequence number of the slot. -/
def atCursor (enc : Encoding) (gate : Handle) (slot : Slot) (k : ℕ) (disk : GateDirectory) :
    GateDirectory :=
  { disk with cursor := ⟨gate.highWaterCursor, chain enc gate slot k⟩ }

namespace Holds

theorem atCursor_self (h : Holds enc gate slot k disk) : atCursor enc gate slot k disk = disk := by
  have hcursor : disk.cursor = ⟨gate.highWaterCursor, chain enc gate slot k⟩ := by
    rw [← h.cursor, ← h.pinned.cursorInode]
  rw [atCursor, ← hcursor]

theorem atCursor (h : Holds enc gate slot k disk) {j : ℕ} (hj : j ≤ slot.sequence) :
    Holds enc gate slot j (atCursor enc gate slot j disk) :=
  { h with
    pinned := { h.pinned with cursorInode := rfl }
    cursor := rfl
    lag := hj }

theorem extends_atCursor (h : Holds enc gate slot k disk) {j : ℕ} (hj : k ≤ j) :
    Extends disk (Gate.atCursor enc gate slot j disk) := by
  refine ⟨fun _ => id, fun _ => id, fun _ => id, ?_⟩
  rw [h.cursor]
  obtain ⟨d, rfl⟩ := Nat.exists_eq_add_of_le hj
  induction d with
  | zero => exact List.prefix_rfl
  | succ d ih => exact (ih (by omega)).trans ⟨_, (chain_succ gate slot (k + d)).symm⟩

theorem wp_readCursorLog (h : Holds enc gate slot k disk)
    {Q : File (List CursorRecord) → GateDirectory → Prop}
    (hQ : Q ⟨gate.highWaterCursor, chain enc gate slot k⟩ disk) :
    wp (readCursorLog enc (enc.gateId gate.spec)) disk Q S E := by
  apply wp_bind
  apply wp_observe
  apply wp_bind
  rw [h.cursor, parseCursorLog_chain h.lag]
  refine wp_check (fun records hrecords => ?_) fun e he => by cases he
  cases hrecords
  rw [h.pinned.cursorInode]
  exact wp_pure hQ

theorem verifyCursorHandle_chain (h : Holds enc gate slot k disk) :
    verifyCursorHandle gate ⟨gate.highWaterCursor, chain enc gate slot k⟩ = .ok () := by
  obtain ⟨rest, hchain⟩ := chain_eq_cons enc gate slot k
  rw [hchain, verifyCursorHandle]
  exact require_eq_ok.mpr ⟨rfl, rfl, h.genesis.symm⟩

theorem wp_verifyCursorHandle (h : Holds enc gate slot k disk)
    {Q : Unit → GateDirectory → Prop} (hQ : Q () disk) :
    wp (check (verifyCursorHandle gate ⟨gate.highWaterCursor, chain enc gate slot k⟩)) disk Q S
      E := by
  rw [h.verifyCursorHandle_chain]
  exact wp_pure hQ

variable (enc gate slot) in
theorem chainRecord_payload {t : ℕ} (ht : 0 < t) :
    (chainRecord enc gate slot t).payload.state = cursorStates.getD t .opened ∧
    (chainRecord enc gate slot t).payload.commitId = slot.intent.map enc.commitId ∧
    (chainRecord enc gate slot t).payload.ackId =
      if t < 3 then none else slot.ack.map enc.ackId := by
  cases t with
  | zero => omega
  | succ t => exact ⟨rfl, rfl, rfl⟩

theorem wp_appendCursorState (h : Holds enc gate slot k disk) {state : GateState}
    {commitId ackId : Option ContentId} {t : ℕ} (hstate : cursorStates.idxOf state = t)
    (hpos : 0 < t) (hnext : t ≤ k + 1) (hreached : t ≤ slot.sequence)
    (hcommit : commitId = slot.intent.map enc.commitId)
    (hack : ackId = if t < 3 then none else slot.ack.map enc.ackId)
    {Q : Unit → GateDirectory → Prop} (hstop : S disk)
    (hQ : Q () (Gate.atCursor enc gate slot (max k t) disk)) :
    wp (appendCursorState enc gate state commitId ackId) disk Q S E := by
  have hget : cursorStates.getD t .opened = state := by
    subst hstate
    cases state <;> rfl
  obtain ⟨hs, hc, ha⟩ := chainRecord_payload enc gate slot hpos
  apply wp_bind
  apply h.wp_readCursorLog
  apply wp_bind
  apply h.wp_verifyCursorHandle
  rw [hstate]
  by_cases hpresent : t ≤ k
  · rw [chain_getElem? hpresent]
    rw [max_eq_left hpresent, h.atCursor_self] at hQ
    exact wp_ensure ⟨hs.trans hget, hc.trans hcommit.symm, ha.trans hack.symm⟩ hQ
  · obtain rfl : t = k + 1 := by omega
    rw [max_eq_right (by omega)] at hQ
    rw [chain_getElem?_of_lt (by omega)]
    apply wp_bind
    apply wp_ensure length_chain
    apply wp_bind
    apply wp_observe
    apply wp_bind
    apply wp_ensure h.pinned.cursorInode
    apply wp_bind
    apply wp_durably hstop
    have hdocument : (cursorDocument enc {
        gateId := enc.gateId gate.spec
        cursorToken := gate.highWaterCursorToken
        sequence := k + 1
        state := state
        commitId := commitId
        ackId := ackId
        previous := (chain enc gate slot k).getLast?.map CursorRecord.recordId }) =
          chainRecord enc gate slot (k + 1) := by
      rw [getLast?_chain, hcommit, hack, ← hget]
      rfl
    rw [hdocument, h.cursor, h.pinned.cursorInode, ← chain_succ]
    have h' := h.atCursor hreached
    apply wp_bind
    apply h'.wp_readCursorLog
    apply wp_bind
    apply h'.wp_verifyCursorHandle
    exact wp_ensure getLast?_chain hQ

/-- The records of a directory say what its slot is. -/
theorem readRecords_eq (h : Holds enc gate slot k disk) :
    readRecords enc (enc.gateId gate.spec) disk = .ok (slot.intent, slot.observation) := by
  have hvalid := h.valid
  have hintent := h.intent
  have hcommit := h.commit
  have hack := h.ack
  have hread : ∀ (f : File CommitDocument) (c : Commit), f.content = c.toDocument enc →
      readCommit enc f c f = .ok c := by
    intro f c hf
    simp [readCommit, hf, require, bind, Except.bind, pure, Except.pure]
  have hreadAck : ∀ (f : File AckDocument) (c : Commit) (a : Ack), f.content = a.toDocument enc →
      a.gateId = enc.gateId gate.spec → a.commitId = enc.commitId c →
      readAck enc (enc.gateId gate.spec) (some c) f = .ok a := by
    intro f c a hf hgate hid
    simp [readAck, hf, hgate, hid, require, bind, Except.bind, pure, Except.pure]
  cases slot with
  | vacant =>
    have hnone : disk.intent = none := Option.map_eq_none_iff.mp hintent
    have hnoack : disk.ack = none := Option.map_eq_none_iff.mp hack
    simp only [Slot.commit, Option.isSome_none, Bool.false_eq_true, if_false] at hcommit
    unfold readRecords
    rw [hnone, hcommit, hnoack]
    rfl
  | intended c =>
    obtain ⟨f, hf, hcontent⟩ := Option.map_eq_some_iff.mp hintent
    have hnoack : disk.ack = none := Option.map_eq_none_iff.mp hack
    simp only [Slot.commit, Option.isSome_none, Bool.false_eq_true, if_false] at hcommit
    unfold readRecords
    rw [hf, hcommit, hnoack]
    dsimp only
    rw [hcontent, commitFromDocument_toDocument]
    exact bind_eq_ok.mpr ⟨c, rfl, bind_eq_ok.mpr ⟨(), require_eq_ok.mpr hvalid, rfl⟩⟩
  | committed c =>
    obtain ⟨f, hf, hcontent⟩ := Option.map_eq_some_iff.mp hintent
    have hnoack : disk.ack = none := Option.map_eq_none_iff.mp hack
    simp only [Slot.commit, Option.isSome_some, if_true] at hcommit
    unfold readRecords
    rw [hcommit, hf, hnoack]
    dsimp only
    rw [hcontent, commitFromDocument_toDocument]
    refine bind_eq_ok.mpr ⟨c, rfl, bind_eq_ok.mpr ⟨(), require_eq_ok.mpr hvalid, ?_⟩⟩
    refine bind_eq_ok.mpr ⟨some c, ?_, rfl⟩
    exact congrArg (some <$> ·) (hread f c hcontent)
  | acknowledged c a =>
    obtain ⟨hgate, hackGate, hackCommit⟩ := hvalid
    obtain ⟨f, hf, hcontent⟩ := Option.map_eq_some_iff.mp hintent
    obtain ⟨g, hg, hackContent⟩ := Option.map_eq_some_iff.mp hack
    simp only [Slot.commit, Option.isSome_some, if_true] at hcommit
    unfold readRecords
    rw [hcommit, hf, hg]
    dsimp only
    rw [hcontent, commitFromDocument_toDocument]
    refine bind_eq_ok.mpr ⟨c, rfl, bind_eq_ok.mpr ⟨(), require_eq_ok.mpr hgate, ?_⟩⟩
    refine bind_eq_ok.mpr ⟨some c, congrArg (some <$> ·) (hread f c hcontent), ?_⟩
    refine bind_eq_ok.mpr ⟨some a, ?_, rfl⟩
    exact congrArg (some <$> ·) (hreadAck g c a hackContent hackGate hackCommit)

theorem checkHighWater_eq (h : Holds enc gate slot k disk) :
    checkHighWater enc (chain enc gate slot k) slot.intent slot.observation = .ok () := by
  have hlag := h.lag
  have hintent := slot.isSome_intent
  have hcommit := slot.isSome_commit
  have hack := slot.isSome_ack
  have hcommitId : slot.commit.isSome → slot.intent = slot.commit := by
    cases slot <;> simp [Slot.commit, Slot.intent]
  unfold checkHighWater
  rw [length_chain]
  refine bind_eq_ok.mpr ⟨(), require_eq_ok.mpr (by simpa using hlag), ?_⟩
  have hone : ∀ i, i ≤ k → (chain enc gate slot k)[i]? = some (chainRecord enc gate slot i) :=
    fun i hi => chain_getElem? hi
  have hmore : ∀ i, k < i → (chain enc gate slot k)[i]? = none :=
    fun i hi => chain_getElem?_of_lt hi
  by_cases h1 : 1 ≤ k
  · rw [hone 1 h1]
    refine bind_eq_ok.mpr ⟨(), require_eq_ok.mpr ⟨by rw [hintent]; simp; omega, rfl⟩, ?_⟩
    by_cases h2 : 2 ≤ k
    · rw [hone 2 h2]
      have hsome : slot.commit.isSome = true := by rw [hcommit]; simp; omega
      refine bind_eq_ok.mpr ⟨(), require_eq_ok.mpr ⟨hsome, ?_⟩, ?_⟩
      · change slot.intent.map enc.commitId = slot.commit.map enc.commitId
        rw [hcommitId hsome]
      · by_cases h3 : 3 ≤ k
        · rw [hone 3 h3]
          exact require_eq_ok.mpr ⟨by change slot.ack.isSome = true; rw [hack]; simp; omega, rfl⟩
        · rw [hmore 3 (by omega)]
          rfl
    · rw [hmore 2 (by omega), hmore 3 (by omega)]
      rfl
  · rw [hmore 1 (by omega), hmore 2 (by omega), hmore 3 (by omega)]
    rfl

theorem wp_advanceCursor (h : Holds enc gate slot k disk) {Q : Unit → GateDirectory → Prop}
    (hstop : ∀ j, k ≤ j → j ≤ slot.sequence → S (Gate.atCursor enc gate slot j disk))
    (hQ : Q () (Gate.atCursor enc gate slot slot.sequence disk)) :
    wp (advanceCursor enc gate k slot.intent slot.observation) disk Q S E := by
  have hlag := h.lag
  have hle := slot.sequence_le
  -- the cursor before step `t` is at `max k (min (t - 1) slot.sequence)`
  have hstep : ∀ {t : ℕ} {act : GateM Unit} {Q : Unit → GateDirectory → Prop}, 0 < t →
      (∀ {Q : Unit → GateDirectory → Prop}, k < t → t ≤ slot.sequence →
        Q () (Gate.atCursor enc gate slot t disk) →
        wp act (Gate.atCursor enc gate slot (t - 1) disk) Q S E) →
      Q () (Gate.atCursor enc gate slot (max k (min t slot.sequence)) disk) →
      wp (appendMissing k t slot.observation act)
        (Gate.atCursor enc gate slot (max k (min (t - 1) slot.sequence)) disk) Q S E := by
    intro t act Q hpos hact hQ
    rw [appendMissing, Slot.sequence_observation]
    split
    · rename_i hdue
      rw [show max k (min (t - 1) slot.sequence) = t - 1 by omega]
      rw [show max k (min t slot.sequence) = t by omega] at hQ
      exact hact hdue.1 hdue.2 hQ
    · rw [show max k (min (t - 1) slot.sequence) = max k (min t slot.sequence) by omega]
      exact wp_pure hQ
  have happend : ∀ {t : ℕ} {state : GateState} {ackId : Option ContentId}
      {Q : Unit → GateDirectory → Prop}, cursorStates.idxOf state = t → 0 < t →
      ackId = (if t < 3 then none else slot.ack.map enc.ackId) → k < t → t ≤ slot.sequence →
      Q () (Gate.atCursor enc gate slot t disk) →
      wp (appendCursorState enc gate state (slot.intent.map enc.commitId) ackId)
        (Gate.atCursor enc gate slot (t - 1) disk) Q S E := by
    intro t state ackId Q hstate hpos hack hk hreached hQ
    refine (h.atCursor (by omega)).wp_appendCursorState hstate hpos (by omega) hreached rfl hack
      (hstop (t - 1) (by omega) (by omega)) ?_
    rw [max_eq_right (by omega)]
    exact hQ
  have hstart : Gate.atCursor enc gate slot (max k (min (1 - 1) slot.sequence)) disk = disk := by
    rw [show max k (min (1 - 1) slot.sequence) = k by omega, h.atCursor_self]
  suffices hrun : wp (advanceCursor enc gate k slot.intent slot.observation)
      (Gate.atCursor enc gate slot (max k (min (1 - 1) slot.sequence)) disk) Q S E by
    rwa [hstart] at hrun
  unfold advanceCursor
  dsimp only
  apply wp_bind
  apply hstep one_pos (happend rfl one_pos rfl)
  apply wp_bind
  apply hstep two_pos (happend rfl two_pos rfl)
  apply hstep (by omega)
  · intro Q hk hreached hQ
    apply wp_bind
    apply wp_ensure (by
      rw [show slot.observation.ack = slot.ack from rfl, slot.isSome_ack]
      exact decide_eq_true hreached)
    exact happend rfl (by omega) rfl hk hreached hQ
  · rw [show max k (min 3 slot.sequence) = slot.sequence by omega]
    exact hQ

/-- An observation says what the slot is, and brings the cursor to it when it advances. -/
theorem wp_observeGate (h : Holds enc gate slot k disk) {advance : Bool}
    {Q : Observation → GateDirectory → Prop}
    (hstop : advance = true → k < slot.sequence → ∀ j, k ≤ j → j ≤ slot.sequence →
      S (Gate.atCursor enc gate slot j disk))
    (hQ : Q slot.observation
      (Gate.atCursor enc gate slot (if advance then slot.sequence else k) disk)) :
    wp (observeGate enc gate advance) disk Q S E := by
  have hlag := h.lag
  apply wp_bind
  apply h.wp_readCursorLog
  apply wp_bind
  apply h.wp_verifyCursorHandle
  apply wp_bind
  apply wp_observe
  apply wp_bind
  rw [h.readRecords_eq]
  apply wp_pure
  dsimp only
  apply wp_bind
  rw [h.checkHighWater_eq]
  apply wp_pure
  apply wp_bind
  rw [length_chain, Slot.sequence_observation, Nat.add_sub_cancel]
  cases advance with
  | false =>
    rw [if_neg (by simp)]
    rw [if_neg (by simp), h.atCursor_self] at hQ
    exact wp_pure (wp_pure hQ)
  | true =>
    rw [if_pos rfl] at hQ
    split
    · rename_i hdue
      exact h.wp_advanceCursor (hstop rfl hdue.2) (wp_pure hQ)
    · rename_i hdone
      obtain rfl : k = slot.sequence := by
        have : ¬ k < slot.sequence := fun hlt => hdone ⟨rfl, hlt⟩
        omega
      rw [h.atCursor_self] at hQ
      exact wp_pure (wp_pure hQ)

end Holds

end Invariant

end Acfqp.Gate
