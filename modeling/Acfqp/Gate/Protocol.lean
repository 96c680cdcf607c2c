import Acfqp.Gate.Broker
import Acfqp.Library.Runs

/-!
# Clients of one gate

Clients share a gate directory under a lock with a shared and an exclusive mode. A call takes the
lock, does its work and gives the lock back; a hold keeps the lock while its body runs. Any client
may stop before any of its durable steps, and then loses its lock.
-/

namespace Acfqp.Gate

open Library Durable

/-- What a client keeps the lock for. -/
inductive Hold where
  | admission
  | replay
  | sideEffect
  deriving DecidableEq

def Hold.lock : Hold → LockMode
  | .admission | .replay => .exclusive
  | .sideEffect => .shared

/-- A call of the gate, with its arguments. -/
inductive Call where
  | openGate
  | commit (role : WriterRole) (request : CommitRequest) (fault : CrashPoint)
  | acknowledge (commit : Commit) (role : WriterRole) (request : AckRequest) (fault : CrashPoint)
  | recover
  | readCommitted

def Call.lock : Call → LockMode
  | .openGate | .readCommitted => .shared
  | .commit .. | .acknowledge .. | .recover => .exclusive

inductive Returned where
  | handle (gate : Handle)
  | commit (commit : Commit)
  | ack (ack : Ack)
  | state (state : GateState)
  | committed (commit : Option Commit)
  | entered
  | snapshot (observation : Observation)
  | left

abbrev Answer := Except (Halt GateError) Returned

/-- The gate directory and who holds its lock. -/
structure World (Client : Type) where
  disk : GateDirectory
  holders : List (Client × Hold)

inductive Event (Client : Type) where
  | call (client : Client) (call : Call) (stop : Option ℕ)
  | enter (client : Client) (hold : Hold) (stop : Option ℕ)
  | leaseCommit (client owner : Client) (role : WriterRole) (request : CommitRequest)
      (fault : CrashPoint) (stop : Option ℕ)
  | leave (client : Client)

/-- The lock can be taken in the mode. -/
def World.Free {Client : Type} (w : World Client) : LockMode → Prop
  | .exclusive => w.holders = []
  | .shared => ∀ h ∈ w.holders, h.2.lock = .shared

instance {Client : Type} (w : World Client) : (mode : LockMode) → Decidable (w.Free mode)
  | .exclusive => decidable_of_iff (w.holders.isEmpty = true) List.isEmpty_iff
  | .shared => inferInstanceAs (Decidable (∀ h ∈ w.holders, h.2.lock = .shared))

section Step

variable {Client : Type} [DecidableEq Client] (enc : Encoding) (gate : Handle)

def Call.checkArguments : Call → Except GateError Unit
  | .commit role _ _ =>
    require (role = .broker) (.argument "only the broker API role may publish a rejection")
  | .acknowledge c role request _ => do
    require (role = .broker) (.argument "only the broker API role may acknowledge a rejection")
    require (c.gateId = enc.gateId gate.spec)
      (.acknowledgement "rejection acknowledgement commit is stale or transplanted")
    discard (buildAck enc gate.spec c request)
  | .openGate | .recover | .readCommitted => .ok ()

def Call.run : Call → GateM Returned
  | .openGate => do return .handle (← Gate.openGate enc (enc.gateId gate.spec))
  | .commit role request fault => do
    return .commit (← commitAttemptRejection enc gate role request fault)
  | .acknowledge c role request fault => do
    return .ack (← acknowledgeAttemptRejection enc gate c role request fault)
  | .recover => do return .state (← recoverGate enc gate)
  | .readCommitted => do return .committed (← Gate.readCommitted enc gate)

def Hold.begin : Hold → GateM Returned
  | .admission => do
    beginAdmission enc gate
    return .entered
  | .replay => do return .snapshot (← beginReplay enc gate)
  | .sideEffect => do
    beginSideEffect enc gate
    return .entered

def reentered : Answer :=
  .error (.raised (.reentry "cannot re-enter active same-gate context; only the active admission lease commit is allowed"))

/-- The world after an event, or nothing when the event has to wait for the lock. -/
def step (w : World Client) : Event Client → Option (Answer × World Client)
  | .call client call stop =>
    match call.checkArguments enc gate with
    | .error e => some (.error (.raised e), w)
    | .ok () =>
      if ∃ h ∈ w.holders, h.1 = client then some (reentered, w)
      else if w.Free call.lock then
        let (answer, disk) := (call.run enc gate).perform w.disk stop
        some (answer, { w with disk := disk })
      else none
  | .enter client hold stop =>
    if ∃ h ∈ w.holders, h.1 = client then some (reentered, w)
    else if w.Free hold.lock then
      let (answer, disk) := (hold.begin enc gate).perform w.disk stop
      some (answer, ⟨disk, if answer.isOk then (client, hold) :: w.holders else w.holders⟩)
    else none
  | .leaseCommit client owner role request fault stop =>
    if (owner, .admission) ∉ w.holders then
      some (.error (.raised (.argument "attempt-rejection admission lease is absent or stale")), w)
    else if client ≠ owner then
      some (.error (.raised (.argument
        "attempt-rejection admission lease crossed its owning thread or process")), w)
    else
      let (answer, disk) := (do
        return .commit (← commitWithAdmissionLease enc gate role request fault)
          : GateM Returned).perform w.disk stop
      some (answer, ⟨disk,
        if answer matches .error .stopped then w.holders.filter (·.1 ≠ client) else w.holders⟩)
  | .leave client => some (.ok .left, { w with holders := w.holders.filter (·.1 ≠ client) })

/-! ## What a step does -/

/-- The ways in which an event is answered. -/
inductive Stepped (w : World Client) : Event Client → Answer → World Client → Prop
  | refused {event : Event Client} {e : GateError} (hbenign : e.Benign)
      (hevent : ∀ client, event ≠ .leave client)
      (hrecover : ∀ client stop, event = .call client .recover stop →
        ∃ h ∈ w.holders, h.1 = client) :
      Stepped w event (.error (.raised e)) w
  | called {client : Client} {call : Call} {stop : Option ℕ} {answer : Answer}
      {disk : GateDirectory} (hfree : w.Free call.lock)
      (hrun : (call.run enc gate).perform w.disk stop = (answer, disk)) :
      Stepped w (.call client call stop) answer { w with disk := disk }
  | entered {client : Client} {hold : Hold} {stop : Option ℕ} {answer : Answer}
      {disk : GateDirectory} (hfree : w.Free hold.lock)
      (hrun : (hold.begin enc gate).perform w.disk stop = (answer, disk)) :
      Stepped w (.enter client hold stop) answer
        ⟨disk, if answer.isOk then (client, hold) :: w.holders else w.holders⟩
  | committed {client : Client} {role : WriterRole} {request : CommitRequest} {fault : CrashPoint}
      {stop : Option ℕ} {answer : Answer} {disk : GateDirectory} {holders : List (Client × Hold)}
      (hlease : (client, .admission) ∈ w.holders)
      (hrun : (do return .commit (← commitWithAdmissionLease enc gate role request fault)
        : GateM Returned).perform w.disk stop = (answer, disk))
      (hholders : ∃ p, holders = w.holders.filter p) :
      Stepped w (.leaseCommit client client role request fault stop) answer ⟨disk, holders⟩
  | left {client : Client} :
      Stepped w (.leave client) (.ok .left)
        { w with holders := w.holders.filter (·.1 ≠ client) }

variable {enc gate}

theorem raises_checkArguments (call : Call) :
    Raises GateError.Benign (call.checkArguments enc gate) := by
  cases call with
  | commit role request fault => exact .require trivial
  | acknowledge c role request fault =>
    refine .bind (.require trivial) fun _ _ => .bind (.require trivial) fun _ _ => ?_
    exact .bind (raises_buildAck _ _ _) fun _ _ => .pure
  | openGate => exact .pure
  | recover => exact .pure
  | readCommitted => exact .pure

theorem stepped_of_step {w w' : World Client} {event : Event Client} {answer : Answer}
    (h : step enc gate w event = some (answer, w')) : Stepped enc gate w event answer w' := by
  cases event with
  | call client call stop =>
    dsimp only [step] at h
    split at h
    · next e he =>
      cases h
      refine .refused (raises_checkArguments call e he) (by simp) ?_
      rintro _ _ ⟨⟩
      cases he
    · split at h
      · next hholder =>
        cases h
        refine .refused trivial (by simp) ?_
        rintro _ _ ⟨⟩
        exact hholder
      · split at h
        · next hfree =>
          cases h
          exact .called hfree rfl
        · cases h
  | enter client hold stop =>
    dsimp only [step] at h
    split at h
    · cases h
      exact .refused trivial (by simp) (by simp)
    · split at h
      · next hfree =>
        cases h
        exact .entered hfree rfl
      · cases h
  | leaseCommit client owner role request fault stop =>
    dsimp only [step] at h
    split at h
    · cases h
      exact .refused trivial (by simp) (by simp)
    · next hlease =>
      split at h
      · cases h
        exact .refused trivial (by simp) (by simp)
      · next hsame =>
        obtain rfl := not_not.mp hsame
        cases h
        refine .committed (not_not.mp hlease) rfl ?_
        split
        · exact ⟨_, rfl⟩
        · exact ⟨fun _ => true, (List.filter_true _).symm⟩
  | leave client =>
    cases h
    exact .left

variable (enc gate) in
/-- A call with valid arguments is answered when its client holds nothing and the lock is free. -/
theorem step_call (w : World Client) (client : Client) (call : Call) (stop : Option ℕ)
    (harguments : call.checkArguments enc gate = .ok ()) (hclient : ∀ h ∈ w.holders, h.1 ≠ client)
    (hfree : w.Free call.lock) :
    step enc gate w (.call client call stop) =
      some (((call.run enc gate).perform w.disk stop).1,
        { w with disk := ((call.run enc gate).perform w.disk stop).2 }) := by
  dsimp only [step]
  rw [harguments]
  dsimp only
  rw [if_neg (by rintro ⟨h, hmem, rfl⟩; exact hclient h hmem rfl), if_pos hfree]

end Step

end Acfqp.Gate
