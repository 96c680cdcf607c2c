import Acfqp.Gate.Protocol

/-!
# The gate is one-shot

What a step keeps, what the answer to it says, and what follows for every run of any clients: the
records of a gate are those of one rejection, and no client finds them otherwise.
-/

namespace Acfqp.Gate

open Library Durable

section Step

variable {Client : Type} [DecidableEq Client] {enc : Encoding} {gate : Handle}

/-! ## What a step keeps -/

variable {slot : Slot} {k : ℕ} {disk disk' : GateDirectory} {w w' : World Client} {answer : Answer}

variable (enc gate) in
/-- The directory moves forward, and not at all under a shared lock. -/
def Moves (slot : Slot) (disk : GateDirectory) (mode : LockMode) (disk' : GateDirectory) : Prop :=
  Advances enc gate slot disk disk' ∧ (mode = .shared → disk' = disk)

theorem Advances.moves (h : Advances enc gate slot disk disk') :
    Moves enc gate slot disk .exclusive disk' :=
  ⟨h, by rintro ⟨⟩⟩

theorem Holds.moves (h : Holds enc gate slot k disk) (mode : LockMode) :
    Moves enc gate slot disk mode disk :=
  ⟨h.advances, fun _ => rfl⟩

theorem Holds.wp_callRun (h : Holds enc gate slot k disk) (call : Call) :
    wp (call.run enc gate) disk (fun _ => Moves enc gate slot disk call.lock)
      (Moves enc gate slot disk call.lock)
      fun e disk' => e.Benign ∧ Moves enc gate slot disk call.lock disk' := by
  cases call with
  | openGate =>
    apply wp_bind
    refine wp_mono h.wp_openGate ?_ (fun _ => False.elim) fun _ _ => False.elim
    rintro _ _ ⟨-, rfl⟩
    exact wp_pure (h.moves _)
  | commit role request fault =>
    apply wp_bind
    exact h.wp_commitAttemptRejection (fun _ ha => ha.moves) (fun _ _ hb ha => ⟨hb, ha.moves⟩)
      fun _ _ ha => wp_pure ha.moves
  | acknowledge c role request fault =>
    apply wp_bind
    exact h.wp_acknowledgeAttemptRejection (fun _ ha => ha.moves) (fun _ _ hb ha => ⟨hb, ha.moves⟩)
      fun _ _ ha => wp_pure ha.moves
  | recover =>
    apply wp_bind
    refine h.wp_recoverGate (fun _ ha => ha.moves) fun _ h' he _ => wp_pure ?_
    exact Advances.moves ⟨_, _, slot.leads_recovered, h', he⟩
  | readCommitted =>
    apply wp_bind
    refine wp_mono h.wp_readCommitted ?_ (fun _ => False.elim) fun _ _ => False.elim
    rintro _ _ rfl
    exact wp_pure (h.moves _)

/-- Only a replay begins on an occupied slot. -/
theorem Holds.wp_holdBegin (h : Holds enc gate slot k disk) (hold : Hold) :
    wp (hold.begin enc gate) disk
      (fun _ disk' => Moves enc gate slot disk hold.lock disk' ∧
        (hold ≠ .replay → slot = .vacant ∧ disk'.intent = none))
      (Moves enc gate slot disk hold.lock)
      fun e disk' => e.Benign ∧ Moves enc gate slot disk hold.lock disk' := by
  cases hold with
  | admission =>
    apply wp_bind
    exact h.wp_beginAdmission (fun _ ha => ha.moves) (fun _ _ hb ha => ⟨hb, ha.moves⟩)
      fun _ ha hslot hnone => wp_pure ⟨ha.moves, fun _ => ⟨hslot, hnone⟩⟩
  | replay =>
    apply wp_bind
    exact h.wp_beginReplay (fun _ ha => ha.moves) fun _ _ ha =>
      wp_pure ⟨ha.moves, fun hne => absurd rfl hne⟩
  | sideEffect =>
    apply wp_bind
    refine wp_mono h.wp_beginSideEffect ?_ (fun _ => False.elim) ?_
    · rintro _ _ ⟨rfl, rfl⟩
      exact wp_pure ⟨h.moves _, fun _ => ⟨rfl, h.intent_vacant⟩⟩
    · rintro e _ ⟨hb, rfl⟩
      exact ⟨hb, h.moves _⟩

theorem Holds.wp_leaseCommit (h : Holds enc gate slot k disk) {role : WriterRole}
    {request : CommitRequest} {fault : CrashPoint} :
    wp (do return .commit (← commitWithAdmissionLease enc gate role request fault) : GateM Returned)
      disk (fun _ => Moves enc gate slot disk .exclusive) (Moves enc gate slot disk .exclusive)
      fun e disk' => e.Benign ∧ Moves enc gate slot disk .exclusive disk' := by
  apply wp_bind
  exact h.wp_commitWithAdmissionLease (fun _ ha => ha.moves) (fun _ _ hb ha => ⟨hb, ha.moves⟩)
    fun _ _ ha => wp_pure ha.moves

/-- However a computation ends that moves the directory, it has moved it and fails benignly. -/
theorem perform_moves {mode : LockMode} {m : GateM Returned} {stop : Option ℕ}
    {Q : Returned → GateDirectory → Prop} (hQ : ∀ a disk', Q a disk' →
      Moves enc gate slot disk mode disk')
    (hwp : wp m disk Q (Moves enc gate slot disk mode)
      fun e disk' => e.Benign ∧ Moves enc gate slot disk mode disk')
    (hrun : m.perform disk stop = (answer, disk')) :
    Moves enc gate slot disk mode disk' ∧ (∀ e, answer = .error (.raised e) → e.Benign) ∧
      ∀ a, answer = .ok a → Q a disk' := by
  obtain ⟨a, s', heq, h⟩ | ⟨s', heq, hS, -⟩ | ⟨e, s', heq, hE⟩ := perform_cases hwp stop
  all_goals
    rw [heq] at hrun
    cases hrun
  · refine ⟨hQ _ _ h, by simp, ?_⟩
    rintro _ ⟨⟩
    exact h
  · exact ⟨hS, by simp, by simp⟩
  · refine ⟨hE.2, ?_, by simp⟩
    rintro _ ⟨⟩
    exact hE.1

variable (enc gate) in
/-- The directory holds a slot, and the holders of its lock exclude each other. -/
structure Sound (slot : Slot) (k : ℕ) (w : World Client) : Prop where
  holds : Holds enc gate slot k w.disk
  exclusive : ∀ h ∈ w.holders, h.2.lock = .exclusive → w.holders = [h]
  sideEffect : ∀ h ∈ w.holders, h.2 = .sideEffect → slot = .vacant

omit [DecidableEq Client] in
theorem Sound.not_sideEffect (hs : Sound enc gate slot k w) {client : Client} {hold : Hold}
    (hmem : (client, hold) ∈ w.holders) (hlock : hold.lock = .exclusive) :
    ∀ h ∈ w.holders, h.2 ≠ .sideEffect := by
  rw [hs.exclusive _ hmem hlock]
  intro h hh hside
  obtain rfl := List.mem_singleton.mp hh
  cases hside
  cases hlock

omit [DecidableEq Client] in
theorem Sound.filter (hs : Sound enc gate slot k w) (p : Client × Hold → Bool) :
    Sound enc gate slot k { w with holders := w.holders.filter p } where
  holds := hs.holds
  exclusive h hmem hlock := by
    obtain ⟨hmem, hp⟩ := List.mem_filter.mp hmem
    change w.holders.filter p = [h]
    rw [hs.exclusive h hmem hlock, List.filter_singleton, hp]
    rfl
  sideEffect h hmem := hs.sideEffect h (List.mem_filter.mp hmem).1

omit [DecidableEq Client] in
/-- What moves the directory in a mode in which the lock is free keeps the world sound. -/
theorem Sound.moves (hs : Sound enc gate slot k w) {mode : LockMode} (hfree : w.Free mode)
    (hmoves : Moves enc gate slot w.disk mode disk) :
    ∃ slot' k', slot.Leads slot' ∧ Sound enc gate slot' k' { w with disk := disk } ∧
      Extends w.disk disk ∧ ∀ h ∈ w.holders, h.2 = .sideEffect → slot' = .vacant := by
  cases mode with
  | shared =>
    obtain rfl := hmoves.2 rfl
    exact ⟨slot, k, .refl slot, hs, .refl _, hs.sideEffect⟩
  | exclusive =>
    obtain ⟨slot', k', hleads, hh, he⟩ := hmoves.1
    have hnone : w.holders = [] := hfree
    refine ⟨slot', k', hleads, ⟨hh, ?_, ?_⟩, he, ?_⟩ <;> simp [hnone]

omit [DecidableEq Client] in
/-- A client may hold the gate in a mode in which its lock is free. -/
theorem Sound.enter (hs : Sound enc gate slot k w) {hold : Hold} (hfree : w.Free hold.lock)
    (client : Client) (hslot : hold = .sideEffect → slot = .vacant) :
    Sound enc gate slot k ⟨w.disk, (client, hold) :: w.holders⟩ where
  holds := hs.holds
  exclusive h hmem hlock := by
    rcases List.mem_cons.mp hmem with rfl | hmem
    · rw [hlock] at hfree
      exact congrArg _ hfree
    · cases hmode : hold.lock with
      | exclusive =>
        rw [hmode] at hfree
        rw [show w.holders = [] from hfree] at hmem
        cases hmem
      | shared =>
        rw [hmode] at hfree
        cases (hfree h hmem).symm.trans hlock
  sideEffect h hmem hside := by
    rcases List.mem_cons.mp hmem with rfl | hmem
    · exact hslot hside
    · exact hs.sideEffect h hmem hside

theorem Holds.eq_vacant (h : Holds enc gate slot k disk) (hnone : disk.intent = none) :
    slot = .vacant := by
  have hintent := h.intent
  rw [hnone] at hintent
  cases slot <;> simp_all [Slot.intent]

/-- A step moves the slot forward and fails for reasons of its client only. No record is published
while a side effect runs. -/
theorem Stepped.sound {event : Event Client} (h : Stepped enc gate w event answer w')
    (hs : Sound enc gate slot k w) :
    (∃ slot' k', slot.Leads slot' ∧ Sound enc gate slot' k' w' ∧ Extends w.disk w'.disk ∧
      ∀ h ∈ w.holders, h.2 = .sideEffect → slot' = .vacant) ∧
    ∀ e, answer = .error (.raised e) → e.Benign := by
  cases h with
  | refused hbenign _ _ =>
    refine ⟨⟨slot, k, .refl slot, hs, .refl _, hs.sideEffect⟩, ?_⟩
    rintro _ ⟨⟩
    exact hbenign
  | left => exact ⟨⟨slot, k, .refl slot, hs.filter _, .refl _, hs.sideEffect⟩, by simp⟩
  | called hfree hrun =>
    obtain ⟨hmoves, hbenign, -⟩ := perform_moves (fun _ _ => id) (hs.holds.wp_callRun _) hrun
    exact ⟨hs.moves hfree hmoves, hbenign⟩
  | @entered client hold stop _ disk hfree hrun =>
    obtain ⟨hmoves, hbenign, hok⟩ :=
      perform_moves (fun _ _ => And.left) (hs.holds.wp_holdBegin _) hrun
    obtain ⟨slot', k', hleads, hs', he, hside⟩ := hs.moves hfree hmoves
    refine ⟨⟨slot', k', hleads, ?_, he, hside⟩, hbenign⟩
    cases answer with
    | error _ => exact hs'
    | ok a =>
      refine hs'.enter hfree client fun hhold => hs'.holds.eq_vacant ((hok a rfl).2 ?_).2
      simp [hhold]
  | @committed client role request fault stop _ disk holders hlease hrun hholders =>
    obtain ⟨⟨⟨slot', k', hleads, hh, he⟩, -⟩, hbenign, -⟩ :=
      perform_moves (fun _ _ => id) hs.holds.wp_leaseCommit hrun
    obtain ⟨p, rfl⟩ := hholders
    have hnone := hs.not_sideEffect hlease rfl
    refine ⟨⟨slot', k', hleads, ?_, he, fun h hmem hside => absurd hside (hnone h hmem)⟩, hbenign⟩
    have hs' : Sound enc gate slot' k' { w with disk := disk } :=
      ⟨hh, hs.exclusive, fun h hmem hside => absurd hside (hnone h hmem)⟩
    exact hs'.filter p

/-! ## Commits of another rejection -/

def Event.request : Event Client → Option CommitRequest
  | .call _ (.commit _ request _) _ => some request
  | .leaseCommit _ _ _ request _ _ => some request
  | _ => none

def Event.stop : Event Client → Option ℕ
  | .call _ _ stop | .enter _ _ stop | .leaseCommit _ _ _ _ _ stop => stop
  | .leave _ => none

theorem SameRecords.refl (disk : GateDirectory) : SameRecords disk disk :=
  ⟨rfl, rfl, rfl⟩

/-- A computation that cannot return raises, unless its process stops. -/
theorem perform_other {m : GateM Returned} {stop : Option ℕ}
    (hwp : wp m disk (fun _ _ => False) (SameRecords disk) fun _ => SameRecords disk)
    (hrun : m.perform disk stop = (answer, disk')) :
    SameRecords disk disk' ∧ (∀ a, answer ≠ .ok a) ∧
      (stop = none → ∃ e, answer = .error (.raised e)) := by
  obtain ⟨_, _, _, h⟩ | ⟨s', heq, hS, hstop⟩ | ⟨e, s', heq, hE⟩ := perform_cases hwp stop
  · exact h.elim
  · rw [heq] at hrun
    cases hrun
    exact ⟨hS, by simp, fun h => absurd h hstop⟩
  · rw [heq] at hrun
    cases hrun
    exact ⟨hE, by simp, fun _ => ⟨e, rfl⟩⟩

/-- No commit of another rejection than the durable one returns or changes a record. -/
theorem Stepped.other {event : Event Client} (h : Stepped enc gate w event answer w')
    (hs : Sound enc gate slot k w) {c : Commit} (hc : slot.intent = some c)
    {request : CommitRequest} (hrequest : event.request = some request)
    (hother : ∀ d, buildCommit enc gate.spec request = .ok d → enc.commitId d ≠ enc.commitId c) :
    SameRecords w.disk w'.disk ∧ (∀ a, answer ≠ .ok a) ∧
      (event.stop = none → ∃ e, answer = .error (.raised e)) := by
  cases h with
  | refused _ _ _ => exact ⟨.refl _, by simp, fun _ => ⟨_, rfl⟩⟩
  | left => cases hrequest
  | entered _ _ => cases hrequest
  | @called client call stop _ disk hfree hrun =>
    cases call with
    | commit role _ fault =>
      cases hrequest
      refine perform_other ?_ hrun
      apply wp_bind
      exact wp_mono (hs.holds.wp_commitAttemptRejection_other hc hother) (fun _ _ => False.elim)
        (fun _ => id) fun _ _ => id
    | _ => cases hrequest
  | committed hlease hrun hholders =>
    cases hrequest
    refine perform_other ?_ hrun
    apply wp_bind
    exact wp_mono (hs.holds.wp_commitWithAdmissionLease_other hc hother) (fun _ _ => False.elim)
      (fun _ => id) fun _ _ => id

theorem Slot.state_recovered (slot : Slot) : slot.recovered.state = .opened ∨
    slot.recovered.state = .committedUnacknowledged ∨ slot.recovered.state = .acknowledged := by
  cases slot <;> simp [Slot.recovered, Slot.state]

theorem Stepped.recover_settled {client : Client} {stop : Option ℕ}
    (h : Stepped enc gate w (.call client .recover stop) answer w')
    (hholds : Holds enc gate slot slot.sequence w.disk) (hslot : slot.recovered = slot)
    (htemps : w.disk.temps = []) (hnone : w.holders = []) :
    answer = .ok (.state slot.state) ∧ w' = w := by
  cases h with
  | refused _ _ hrecover =>
    obtain ⟨_, hmem, -⟩ := hrecover client stop rfl
    rw [hnone] at hmem
    cases hmem
  | called _ hrun =>
    have hwp : wp (Call.recover.run enc gate) w.disk
        (fun a disk' => a = .state slot.state ∧ disk' = w.disk) (fun _ => False)
        fun _ _ => False := by
      apply wp_bind
      refine wp_mono (hholds.wp_recoverGate_settled hslot htemps) ?_ (fun _ => id) fun _ _ => id
      rintro _ _ ⟨rfl, rfl⟩
      exact wp_pure ⟨rfl, rfl⟩
    obtain ⟨a, s', heq, rfl, rfl⟩ | ⟨_, _, h, -⟩ | ⟨_, _, _, h⟩ := perform_cases hwp stop
    · rw [heq] at hrun
      cases hrun
      exact ⟨rfl, rfl⟩
    · exact h.elim
    · exact h.elim

/-- A recovery that is not refused and does not stop returns a recovered state, and every later one
returns the same and changes nothing. -/
theorem Stepped.recover {client : Client} {stop : Option ℕ}
    (h : Stepped enc gate w (.call client .recover stop) answer w')
    (hs : Sound enc gate slot k w) :
    (w' = w ∧ ∃ h ∈ w.holders, h.1 = client) ∨ (answer = .error .stopped ∧ stop ≠ none) ∨
    ∃ state, answer = .ok (.state state) ∧
      (state = .opened ∨ state = .committedUnacknowledged ∨ state = .acknowledged) ∧
      ∀ client' stop' answer' w'', Stepped enc gate w' (.call client' .recover stop') answer' w'' →
        answer' = .ok (.state state) ∧ w'' = w' := by
  cases h with
  | refused _ _ hrecover => exact .inl ⟨rfl, hrecover client stop rfl⟩
  | called hfree hrun =>
    have hnone : w.holders = [] := hfree
    have hwp : wp (Call.recover.run enc gate) w.disk
        (fun a disk' => a = .state slot.recovered.state ∧ disk'.temps = [] ∧
          Holds enc gate slot.recovered slot.recovered.sequence disk')
        (fun _ => True) fun _ _ => False := by
      apply wp_bind
      exact hs.holds.wp_recoverGate (fun _ _ => trivial) fun _ h' _ htemps =>
        wp_pure ⟨rfl, htemps, h'⟩
    obtain ⟨a, s', heq, rfl, htemps, hholds⟩ | ⟨s', heq, -, hstop⟩ | ⟨_, _, _, h⟩ :=
      perform_cases hwp stop
    · rw [heq] at hrun
      cases hrun
      refine .inr (.inr ⟨_, rfl, slot.state_recovered, fun _ _ _ _ h' => ?_⟩)
      exact h'.recover_settled hholds slot.recovered_recovered htemps hnone
    · rw [heq] at hrun
      cases hrun
      exact .inr (.inl ⟨rfl, hstop⟩)
    · exact h.elim

/-! ## Runs -/

variable (enc gate) in
/-- The directory as its initialization leaves it. -/
structure Fresh (disk : GateDirectory) : Prop where
  pinned : Pinned enc gate disk
  intent : disk.intent = none
  commit : disk.commit = none
  ack : disk.ack = none
  cursor : disk.cursor.content = [cursorDocument enc
    ⟨enc.gateId gate.spec, gate.highWaterCursorToken, 0, .opened, none, none, none⟩]
  genesis : disk.cursor.content.map CursorRecord.recordId = [gate.highWaterCursorGenesisRecordId]

variable (enc gate) in
/-- What a reader of the directory finds: the commit is the intent, the cursor is a valid chain
that is not ahead of the records, and no side effect runs beside a durable intent. -/
structure Consistent (w : World Client) : Prop where
  commit : ∀ f, w.disk.commit = some f → w.disk.intent = some f
  cursor : parseCursorLog enc (enc.gateId gate.spec) w.disk.cursor.content =
    .ok w.disk.cursor.content
  observed : ∃ intent observation,
    readRecords enc (enc.gateId gate.spec) w.disk = .ok (intent, observation) ∧
    checkHighWater enc w.disk.cursor.content intent observation = .ok ()
  sideEffect : ∀ h ∈ w.holders, h.2 = .sideEffect → w.disk.intent = none

variable (enc gate) in
/-- The records that the first directory has are in the second, and its state is not behind. -/
structure Later (disk disk' : GateDirectory) : Prop where
  records : Extends disk disk'
  observed : ∀ intent observation intent' observation',
    readRecords enc (enc.gateId gate.spec) disk = .ok (intent, observation) →
    readRecords enc (enc.gateId gate.spec) disk' = .ok (intent', observation') →
    observation.sequence ≤ observation'.sequence

variable (enc gate) in
/-- What the answer to an event says of the worlds before and after it. -/
structure Answered (w : World Client) (event : Event Client) (answer : Answer)
    (w' : World Client) : Prop where
  benign : ∀ e, answer = .error (.raised e) → e.Benign
  other : ∀ f request, w.disk.intent = some f → event.request = some request →
    (∀ d, buildCommit enc gate.spec request = .ok d →
      enc.commitId d ≠ enc.commitId f.content.commit) →
    SameRecords w.disk w'.disk ∧ (∀ a, answer ≠ .ok a) ∧
      (event.stop = none → ∃ e, answer = .error (.raised e))
  recovered : ∀ client stop, event = .call client .recover stop →
    (w' = w ∧ ∃ h ∈ w.holders, h.1 = client) ∨ (answer = .error .stopped ∧ stop ≠ none) ∨
    ∃ state, answer = .ok (.state state) ∧
      (state = .opened ∨ state = .committedUnacknowledged ∨ state = .acknowledged) ∧
      ∀ client' stop' answer' w'', step enc gate w' (.call client' .recover stop') =
        some (answer', w'') → answer' = .ok (.state state) ∧ w'' = w'
  starts : ∀ client hold stop a, event = .enter client hold stop → answer = .ok a →
    hold ≠ .replay → w.disk.intent = none ∧ w'.disk.intent = none
  guarded : ∀ h ∈ w.holders, h.2 = .sideEffect → w'.disk.intent = none

omit [DecidableEq Client] in
theorem Fresh.sound (h : Fresh enc gate disk) :
    Sound enc gate .vacant 0 (⟨disk, []⟩ : World Client) where
  holds := by
    have hgenesis := h.genesis
    rw [h.cursor] at hgenesis
    refine ⟨h.pinned, (List.singleton_inj.mp hgenesis).symm, trivial, ?_, h.commit, ?_, h.cursor,
      le_refl 0⟩
    · rw [h.intent]
      rfl
    · rw [h.ack]
      rfl
  exclusive := by simp
  sideEffect := by simp

omit [DecidableEq Client] in
theorem Sound.consistent (hs : Sound enc gate slot k w) : Consistent enc gate w where
  commit f hf := by
    have hcommit := hs.holds.commit
    rw [hf] at hcommit
    split at hcommit
    · exact hcommit.symm
    · cases hcommit
  cursor := by
    rw [hs.holds.cursor]
    exact parseCursorLog_chain hs.holds.lag
  observed := by
    refine ⟨_, _, hs.holds.readRecords_eq, ?_⟩
    rw [hs.holds.cursor]
    exact hs.holds.checkHighWater_eq
  sideEffect h hmem hside := by
    obtain rfl := hs.sideEffect h hmem hside
    exact hs.holds.intent_vacant

theorem Advances.later (h : Advances enc gate slot disk disk')
    (hholds : Holds enc gate slot k disk) :
    Later enc gate disk disk' := by
  obtain ⟨slot', k', hleads, hh, he⟩ := h
  refine ⟨he, fun intent o intent' o' ho ho' => ?_⟩
  cases hholds.readRecords_eq.symm.trans ho
  cases hh.readRecords_eq.symm.trans ho'
  simpa using hleads.sequence_le

/-- What a step says of a sound world. -/
theorem Stepped.answered {event : Event Client} (h : Stepped enc gate w event answer w')
    (hs : Sound enc gate slot k w) : Answered enc gate w event answer w' where
  benign := (h.sound hs).2
  other f request hf hrequest hother := by
    have hintent := hs.holds.intent
    rw [hf] at hintent
    obtain ⟨c, hc, hcontent⟩ := Option.map_eq_some_iff.mp hintent.symm
    rw [← hcontent] at hother
    exact h.other hs hc hrequest hother
  recovered client stop hevent := by
    subst hevent
    refine (h.recover hs).imp id (Or.imp id ?_)
    rintro ⟨state, hanswer, hstate, hrepeat⟩
    exact ⟨state, hanswer, hstate, fun _ _ _ _ hstep => hrepeat _ _ _ _ (stepped_of_step hstep)⟩
  starts client hold stop a hevent hanswer hhold := by
    subst hevent hanswer
    cases h with
    | entered hfree hrun =>
      obtain ⟨-, -, hok⟩ := perform_moves (fun _ _ => And.left) (hs.holds.wp_holdBegin _) hrun
      obtain ⟨rfl, hnone⟩ := (hok a rfl).2 hhold
      exact ⟨hs.holds.intent_vacant, hnone⟩
  guarded h' hmem hside := by
    obtain ⟨⟨slot', k', -, hs', -, hvacant⟩, -⟩ := h.sound hs
    obtain rfl := hvacant h' hmem hside
    exact hs'.holds.intent_vacant

variable (enc gate) in
/-- The second world is sound with a later slot, if the first one is sound. -/
def Onward (w w' : World Client) : Prop :=
  ∀ slot k, Sound enc gate slot k w →
    ∃ slot' k', slot.Leads slot' ∧ Sound enc gate slot' k' w' ∧ Extends w.disk w'.disk

omit [DecidableEq Client] in
theorem Onward.trans {w₁ w₂ w₃ : World Client} (h : Onward enc gate w₁ w₂)
    (h' : Onward enc gate w₂ w₃) : Onward enc gate w₁ w₃ := by
  intro slot k hs
  obtain ⟨slot', k', hleads, hs', he⟩ := h slot k hs
  obtain ⟨slot'', k'', hleads', hs'', he'⟩ := h' slot' k' hs'
  exact ⟨slot'', k'', hleads.trans hleads', hs'', he.trans he'⟩

theorem onward_of_run {trace : List (Event Client × Answer)}
    (h : Run (step enc gate) w trace w') : Onward enc gate w w' := by
  refine h.related (fun w slot k hs => ⟨slot, k, .refl slot, hs, .refl _⟩) Onward.trans ?_
  intro w event answer w' hstep slot k hs
  obtain ⟨⟨slot', k', hleads, hs', he, -⟩, -⟩ := (stepped_of_step hstep).sound hs
  exact ⟨slot', k', hleads, hs', he⟩

/-- Every run of any clients on a fresh gate: the directory is consistent, nothing of it is lost or
changed later, and every answer is one of a one-shot slot. -/
theorem gate_oneShot (hfresh : Fresh enc gate disk) {before after : List (Event Client × Answer)}
    (hbefore : Run (step enc gate) ⟨disk, []⟩ before w) (hafter : Run (step enc gate) w after w') :
    Consistent enc gate w' ∧ Later enc gate w.disk w'.disk ∧
      ∀ event answer w'', step enc gate w' event = some (answer, w'') →
        Answered enc gate w' event answer w'' := by
  obtain ⟨slot, k, -, hs, -⟩ := onward_of_run hbefore _ _ hfresh.sound
  obtain ⟨slot', k', hleads, hs', he⟩ := onward_of_run hafter _ _ hs
  refine ⟨hs'.consistent, ?_, fun _ _ _ hstep => (stepped_of_step hstep).answered hs'⟩
  exact Advances.later ⟨slot', k', hleads, hs'.holds, he⟩ hs.holds

end Step

/-! ## A sample run -/

def sampleEncoding : Encoding where
  gateId _ := .ofNat 1
  commitId _ := .ofNat 2
  ackId _ := .ofNat 3
  cursorRecordId payload := .ofNat (10 + payload.sequence)
  commitLength _ := some 512
  ackLength _ := 256

def sampleGate : Handle where
  spec := ⟨.ofNat 4, .ofNat 5, "/srv/gates", ⟨1, 2⟩, .ofNat 6⟩
  gateDirectory := ⟨1, 3⟩
  gateLock := ⟨1, 4⟩
  highWaterCursor := ⟨1, 5⟩
  highWaterCursorToken := .ofNat 7
  highWaterCursorGenesisRecordId := .ofNat 10

def sampleDirectory : GateDirectory where
  baseRealpath := "/srv/gates"
  base := ⟨1, 2⟩
  allocationIntent := some sampleGate.spec
  allocation := some ⟨.ofNat 1, "/srv/gates", ⟨1, 2⟩, ⟨1, 3⟩, ⟨1, 4⟩, ⟨1, 5⟩, .ofNat 7, .ofNat 10⟩
  directory := ⟨1, 3⟩
  lock := ⟨⟨1, 4⟩, "ACFQP_H1_ATTEMPT_REJECTION_GATE_LOCK_V1\n"⟩
  spec := some sampleGate.spec
  cursor := ⟨⟨1, 5⟩, [cursorDocument sampleEncoding
    ⟨.ofNat 1, .ofNat 7, 0, .opened, none, none, none⟩]⟩
  intent := none
  commit := none
  ack := none
  temps := []
  unknown := []
  nextInode := 6

def sampleRequest : CommitRequest where
  decisionPointId := (ContentId.ofNat 21).1
  transactionId := (ContentId.ofNat 22).1
  sharedOwnerProfileCoreId := (ContentId.ofNat 23).1
  rejectionRequestId := (ContentId.ofNat 24).1
  sourceKind := "SHARED_OWNER"
  siteKey := "site"
  path := "io.read_bytes"
  limitKind := "SHARED_PATH"
  reservationUpper := 4
  candidate := some 9
  hardCap := 8
  reasonCode := "CAP"

theorem fresh_sample : Fresh sampleEncoding sampleGate sampleDirectory where
  pinned := ⟨rfl, rfl, rfl, rfl, rfl, rfl, rfl, rfl, rfl, by simp [sampleDirectory]⟩
  intent := rfl
  commit := rfl
  ack := rfl
  cursor := rfl
  genesis := rfl

/-- A commit that stops after three durable steps, and the recovery by another client. -/
theorem gate_oneShot_sample : ∃ (answer answer' : Answer) (w w' : World ℕ),
    Run (step sampleEncoding sampleGate) ⟨sampleDirectory, []⟩
      [(.call 1 (.commit .broker sampleRequest .none) (some 3), answer)] w ∧
    Run (step sampleEncoding sampleGate) w [(.call 2 .recover none, answer')] w' ∧
    Consistent sampleEncoding sampleGate w' ∧
    Later sampleEncoding sampleGate w.disk w'.disk := by
  have hcommit := step_call sampleEncoding sampleGate ⟨sampleDirectory, []⟩ 1
    (.commit .broker sampleRequest .none) (some 3) rfl (by simp) rfl
  have hbefore := Run.nil.snoc hcommit
  have hafter := fun disk => Run.nil.snoc (step_call sampleEncoding sampleGate ⟨disk, []⟩ 2 .recover
    none rfl (by simp) rfl)
  obtain ⟨hconsistent, hlater, -⟩ := gate_oneShot fresh_sample hbefore (hafter _)
  exact ⟨_, _, _, _, hbefore, hafter _, hconsistent, hlater⟩

end Acfqp.Gate
