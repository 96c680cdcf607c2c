import Acfqp.Gate.Records

/-!
# Operations on the attempt-rejection gate

The operations of the gate on its directory, with the lock held. A new record is written to a
temporary file and linked to its name; a commit is a hard link to its intent. The cursor log is
append-only, and each of its records is one durable step.
-/

namespace Acfqp.Gate

open Library

structure File (α : Type) where
  inode : Inode
  content : α

/-- An orphan of a writer: its inode, and whether it is private and regular. -/
structure Temp where
  inode : Inode
  privateRegular : Bool
  deriving DecidableEq

structure Allocation where
  gateId : ContentId
  gateBaseRealpath : String
  gateBase : Inode
  gateDirectory : Inode
  gateLock : Inode
  highWaterCursor : Inode
  highWaterCursorToken : ContentId
  highWaterCursorGenesisRecordId : ContentId
  deriving DecidableEq

structure GateDirectory where
  baseRealpath : String
  base : Inode
  allocationIntent : Option GateSpec
  allocation : Option Allocation
  directory : Inode
  lock : File String
  spec : Option GateSpec
  cursor : File (List CursorRecord)
  intent : Option (File CommitDocument)
  commit : Option (File CommitDocument)
  ack : Option (File AckDocument)
  temps : List Temp
  unknown : List String
  nextInode : ℕ

/-- What a client pins of a gate. -/
structure Handle where
  spec : GateSpec
  gateDirectory : Inode
  gateLock : Inode
  highWaterCursor : Inode
  highWaterCursorToken : ContentId
  highWaterCursorGenesisRecordId : ContentId

inductive LockMode where
  | shared
  | exclusive
  deriving DecidableEq

abbrev GateM := Durable GateDirectory GateError

open Durable

def ensure (p : Prop) [Decidable p] (error : GateError) : GateM Unit := check (require p error)

section Operations

variable (enc : Encoding)

/-! ## The cursor log -/

def parseCursorRecords (gateId : ContentId) : ℕ → Option ContentId → Option ContentId →
    Option ContentId → List CursorRecord → Except GateError Unit
  | _, _, _, _, [] => .ok ()
  | sequence, token, previous, commitId, record :: rest => do
    require (record = cursorDocument enc record.payload)
      (.cursor "high-water cursor record identity changed")
    require (record.payload.gateId = gateId) (.cursor "high-water cursor belongs to another gate")
    require (token.all (record.payload.cursorToken = ·)) (.cursor "high-water cursor token changed")
    require (record.payload.sequence = sequence)
      (.cursor "high-water cursor sequence is not contiguous")
    require (cursorStates[sequence]? = some record.payload.state)
      (.cursor "high-water cursor state is not monotone")
    require (record.payload.previous = previous)
      (.cursor "high-water cursor predecessor chain changed")
    if sequence = 0 then
      require (record.payload.commitId = none)
        (.cursor "high-water cursor genesis unexpectedly binds a commit")
    else
      require (record.payload.commitId.isSome)
        (.cursor "cursor rejection commit must be one exact content ID")
      require (commitId = none ∨ record.payload.commitId = commitId)
        (.cursor "high-water cursor commit identity changed")
    if sequence < 3 then
      require (record.payload.ackId = none)
        (.cursor "high-water cursor binds an acknowledgement too early")
    else
      require (record.payload.ackId.isSome)
        (.cursor "cursor rejection acknowledgement must be one exact content ID")
    parseCursorRecords gateId (sequence + 1) (some record.payload.cursorToken)
      (some record.recordId) (if sequence = 0 then none else record.payload.commitId) rest

def parseCursorLog (gateId : ContentId) (records : List CursorRecord) :
    Except GateError (List CursorRecord) := do
  require (records ≠ [] ∧ records.length ≤ cursorStates.length)
    (.cursor "high-water cursor record count is invalid")
  parseCursorRecords enc gateId 0 none none none records
  return records

def readCursorLog (gateId : ContentId) : GateM (File (List CursorRecord)) := do
  let disk ← observe
  let records ← check (parseCursorLog enc gateId disk.cursor.content)
  return ⟨disk.cursor.inode, records⟩

def verifyCursorHandle (gate : Handle) (log : File (List CursorRecord)) : Except GateError Unit :=
  match log.content with
  | [] => .error (.cursor "attempt-rejection high-water cursor inode or genesis changed")
  | genesis :: _ =>
    require (log.inode = gate.highWaterCursor ∧
        genesis.payload.cursorToken = gate.highWaterCursorToken ∧
        genesis.recordId = gate.highWaterCursorGenesisRecordId)
      (.cursor "attempt-rejection high-water cursor inode or genesis changed")

def appendCursorState (gate : Handle) (state : GateState) (commitId ackId : Option ContentId) :
    GateM Unit := do
  let target := cursorStates.idxOf state
  let log ← readCursorLog enc (enc.gateId gate.spec)
  check (verifyCursorHandle gate log)
  match log.content[target]? with
  | some existing =>
    ensure (existing.payload.state = state ∧ existing.payload.commitId = commitId ∧
        existing.payload.ackId = ackId)
      (.cursor "high-water cursor conflicts with the durable transition")
  | none => do
    ensure (log.content.length = target)
      (.cursor "high-water cursor transition skipped a durable state")
    let document := cursorDocument enc {
      gateId := enc.gateId gate.spec
      cursorToken := gate.highWaterCursorToken
      sequence := target
      state := state
      commitId := commitId
      ackId := ackId
      previous := log.content.getLast?.map CursorRecord.recordId }
    let disk ← observe
    ensure (disk.cursor.inode = gate.highWaterCursor)
      (.cursor "attempt-rejection high-water cursor inode changed before append")
    durably fun disk =>
      { disk with cursor := ⟨disk.cursor.inode, disk.cursor.content ++ [document]⟩ }
    let replayed ← readCursorLog enc (enc.gateId gate.spec)
    check (verifyCursorHandle gate replayed)
    ensure (replayed.content.getLast? = some document)
      (.cursor "high-water cursor transition did not replay")

/-! ## Publication -/

/-- Write a record of this length to a temporary file and link it to its name, unless that is
taken. -/
def publishNew (length : ℕ) (taken : GateDirectory → Bool)
    (link : Inode → GateDirectory → GateDirectory) : GateM Bool := do
  ensure (length ≤ maxDocumentBytes)
    (.byteCap "durable gate record exceeds its byte cap before publication")
  let disk ← observe
  let temporary : Temp := ⟨⟨disk.directory.device, disk.nextInode⟩, true⟩
  durably fun disk =>
    { disk with temps := temporary :: disk.temps, nextInode := disk.nextInode + 1 }
  let disk ← observe
  if taken disk then
    durably fun disk => { disk with temps := disk.temps.erase temporary }
    return false
  else
    durably (link temporary.inode)
    durably fun disk => { disk with temps := disk.temps.erase temporary }
    return true

def publishIntent (document : CommitDocument) (length : ℕ) : GateM Bool :=
  publishNew length (fun disk => disk.intent.isSome)
    fun inode disk => { disk with intent := some ⟨inode, document⟩ }

def publishAck (document : AckDocument) (length : ℕ) : GateM Bool :=
  publishNew length (fun disk => disk.ack.isSome)
    fun inode disk => { disk with ack := some ⟨inode, document⟩ }

def linkIntentToCommit : GateM Bool := do
  let disk ← observe
  if disk.commit.isSome then return false
  else
    durably fun disk => { disk with commit := disk.intent }
    return true

/-! ## Handles -/

def verifyLayout : GateM Unit := do
  let disk ← observe
  ensure (∀ t ∈ disk.temps, t.privateRegular = true)
    (.layout "durable gate orphan temp is not private and regular")
  ensure (disk.unknown = []) (.layout "durable gate directory contains an unknown record")
  ensure (disk.lock.content = "ACFQP_H1_ATTEMPT_REJECTION_GATE_LOCK_V1\n")
    (.layout "durable gate directory lacks its exact coordination lock")

def unlinkTemps : List Temp → GateM Unit
  | [] => pure ()
  | t :: rest => do
    ensure (t.privateRegular = true) (.layout "durable gate orphan temp is not private and regular")
    durably fun disk => { disk with temps := disk.temps.erase t }
    unlinkTemps rest

def cleanupGateTemps : GateM Unit := do
  let disk ← observe
  unlinkTemps disk.temps

def allocationDocument (spec : GateSpec) : GateM Allocation := do
  let log ← readCursorLog enc (enc.gateId spec)
  let disk ← observe
  match log.content with
  | [] => raise (.cursor "high-water cursor record count is invalid")
  | genesis :: _ =>
    return ⟨enc.gateId spec, spec.gateBaseRealpath, spec.gateBase, disk.directory, disk.lock.inode,
      log.inode, genesis.payload.cursorToken, genesis.recordId⟩

def verifyAllocation (spec : GateSpec) : GateM Unit := do
  let disk ← observe
  ensure (disk.allocationIntent = some spec)
    (.handle "attempt-rejection gate lacks its frozen base allocation intent")
  let expected ← allocationDocument enc spec
  match disk.allocation with
  | none => raise (.handle "attempt-rejection base allocation commit is absent")
  | some existing =>
    ensure (existing = expected)
      (.handle "attempt-rejection gate physical allocation was already consumed")

def makeHandle (spec : GateSpec) : GateM Handle := do
  let disk ← observe
  let log ← readCursorLog enc (enc.gateId spec)
  match log.content with
  | [] => raise (.cursor "high-water cursor record count is invalid")
  | genesis :: _ =>
    return ⟨spec, disk.directory, disk.lock.inode, log.inode, genesis.payload.cursorToken,
      genesis.recordId⟩

def openGate (expectedGateId : ContentId) : GateM Handle := do
  let disk ← observe
  match disk.spec with
  | none => raise (.handle "durable rejection gate lacks its spec")
  | some spec =>
    ensure (enc.gateId spec = expectedGateId)
      (.handle "durable rejection gate ID differs from the expected ID")
    ensure (disk.baseRealpath = spec.gateBaseRealpath ∧ disk.base = spec.gateBase)
      (.handle "attempt-rejection gate base differs from its frozen physical identity")
    verifyAllocation enc spec
    verifyLayout
    makeHandle enc spec

def requireHandle (gate : Handle) (mode : LockMode) : GateM Unit := do
  let disk ← observe
  ensure (disk.baseRealpath = gate.spec.gateBaseRealpath ∧ disk.base = gate.spec.gateBase)
    (.handle "attempt-rejection gate base differs from its frozen physical identity")
  ensure (disk.directory = gate.gateDirectory)
    (.handle "attempt-rejection gate physical allocation was already consumed: handle directory inode changed")
  ensure (disk.lock.inode = gate.gateLock)
    (.handle "attempt-rejection gate physical allocation was already consumed: coordination lock inode changed")
  verifyAllocation enc gate.spec
  ensure (disk.spec.isSome) (.handle "attempt-rejection gate spec disappeared")
  ensure (disk.spec = some gate.spec)
    (.handle "attempt-rejection gate handle is stale or transplanted")
  (if mode = .exclusive then cleanupGateTemps else pure ())
  verifyLayout
  let log ← readCursorLog enc (enc.gateId gate.spec)
  check (verifyCursorHandle gate log)

/-! ## Observation and recovery -/

/-- What the durable records say. -/
structure Observation where
  state : GateState
  commit : Option Commit
  ack : Option Ack

def Observation.sequence (observation : Observation) : ℕ := cursorStates.idxOf observation.state

def readCommit (intentFile : File CommitDocument) (intent : Commit)
    (commitFile : File CommitDocument) : Except GateError Commit := do
  require (commitFile.content = intentFile.content)
    (.record "rejection commit differs from its intent")
  require (intentFile.inode = commitFile.inode)
    (.record "rejection commit is not the atomic intent hard link")
  let commit ← commitFromDocument enc commitFile.content
  require (enc.commitId commit = enc.commitId intent) (.record "rejection commit identity changed")
  return commit

def readAck (gateId : ContentId) (commit : Option Commit) (ackFile : File AckDocument) :
    Except GateError Ack := do
  match commit with
  | none => throw (.record "rejection acknowledgement exists before durable commit")
  | some commit =>
    let ack ← ackFromDocument enc ackFile.content
    require (ack.gateId = gateId ∧ ack.commitId = enc.commitId commit)
      (.record "rejection acknowledgement is stale or transplanted")
    return ack

def readRecords (gateId : ContentId) (disk : GateDirectory) :
    Except GateError (Option Commit × Observation) :=
  match disk.intent with
  | none => do
    require (disk.commit.isNone ∧ disk.ack.isNone)
      (.record "rejection commit/ack exists without its durable intent")
    return (none, ⟨.opened, none, none⟩)
  | some intentFile => do
    let intent ← commitFromDocument enc intentFile.content
    require (intent.gateId = gateId) (.record "rejection intent belongs to another gate")
    let commit ← disk.commit.mapM (readCommit enc intentFile intent)
    let ack ← disk.ack.mapM (readAck enc gateId commit)
    let state := match commit, ack with
      | _, some _ => GateState.acknowledged
      | some _, none => .committedUnacknowledged
      | none, none => .intentDurable
    return (some intent, ⟨state, commit, ack⟩)

/-- The cursor is not ahead of the records, and binds their identities. -/
def checkHighWater (records : List CursorRecord) (intent : Option Commit)
    (observation : Observation) : Except GateError Unit := do
  require (records.length - 1 ≤ observation.sequence)
    (.record "durable rejection records fell below the cursor high-water mark")
  if let some record := records[1]? then
    require (intent.isSome ∧ record.payload.commitId = intent.map enc.commitId)
      (.record "cursor high-water intent binding changed")
  if let some record := records[2]? then
    require (observation.commit.isSome ∧
        record.payload.commitId = observation.commit.map enc.commitId)
      (.record "cursor high-water commit binding changed")
  if let some record := records[3]? then
    require (observation.ack.isSome ∧ record.payload.ackId = observation.ack.map enc.ackId)
      (.record "cursor high-water acknowledgement binding changed")

def appendMissing (cursorSequence sequence : ℕ) (observation : Observation)
    (append : GateM Unit) : GateM Unit :=
  if cursorSequence < sequence ∧ sequence ≤ observation.sequence then append else pure ()

def advanceCursor (gate : Handle) (cursorSequence : ℕ) (intent : Option Commit)
    (observation : Observation) : GateM Unit := do
  let durableCommitId := intent.map enc.commitId
  appendMissing cursorSequence 1 observation
    (appendCursorState enc gate .intentDurable durableCommitId none)
  appendMissing cursorSequence 2 observation
    (appendCursorState enc gate .committedUnacknowledged durableCommitId none)
  appendMissing cursorSequence 3 observation do
    ensure (observation.ack.isSome) (.cursor "cursor recovery lacks its durable acknowledgement")
    appendCursorState enc gate .acknowledged durableCommitId (observation.ack.map enc.ackId)

def observeGate (gate : Handle) (advance : Bool) : GateM Observation := do
  let log ← readCursorLog enc (enc.gateId gate.spec)
  check (verifyCursorHandle gate log)
  let disk ← observe
  let (intent, observation) ← check (readRecords enc (enc.gateId gate.spec) disk)
  check (checkHighWater enc log.content intent observation)
  (if advance = true ∧ log.content.length - 1 < observation.sequence then
    advanceCursor enc gate (log.content.length - 1) intent observation
  else pure ())
  return observation

/-- Complete what the records have begun. -/
def replayGate (gate : Handle) : GateM Observation := do
  cleanupGateTemps
  let observation ← observeGate enc gate true
  if observation.state = .intentDurable then
    let linked ← linkIntentToCommit
    ensure (linked = true)
      (.record "rejection recovery could not publish the missing commit link")
    observeGate enc gate true
  else
    return observation

/-! ## The broker's operations -/

def publishedIntent (document : CommitDocument) (length : ℕ) : GateM (File CommitDocument) := do
  let disk ← observe
  (if disk.intent.isNone then discard (publishIntent document length) else pure ())
  let disk ← observe
  check (orRaise disk.intent (.record "rejection intent was not durably published"))

def linkedCommit (intentFile : File CommitDocument) : GateM (File CommitDocument) := do
  let disk ← observe
  (if disk.commit.isNone then discard linkIntentToCommit else pure ())
  let disk ← observe
  let commitFile ← check (orRaise disk.commit
    (.record "rejection commit is absent or differs from its intent"))
  ensure (commitFile.content = intentFile.content)
    (.record "rejection commit is absent or differs from its intent")
  ensure (intentFile.inode = commitFile.inode)
    (.record "rejection commit is not the atomic intent hard link")
  return commitFile

def commitRejection (gate : Handle) (request : CommitRequest) (fault : CrashPoint) :
    GateM Commit := do
  let desired ← check (buildCommit enc gate.spec request)
  let length := (enc.commitLength desired).getD 0
  ensure (length ≤ maxDocumentBytes)
    (.byteCap "rejection commit exceeds its byte cap before publication")
  let _ ← observeGate enc gate true
  let intentFile ← publishedIntent (desired.toDocument enc) length
  let intent ← check (commitFromDocument enc intentFile.content)
  ensure (enc.commitId intent = enc.commitId desired)
    (.secondRejection "a different rejection already owns the attempt-wide slot")
  appendCursorState enc gate .intentDurable (some (enc.commitId intent)) none
  ensure (fault ≠ .afterIntentFsync) (.injectedCrash "crash after durable intent")
  let commitFile ← linkedCommit intentFile
  let committed ← check (commitFromDocument enc commitFile.content)
  appendCursorState enc gate .committedUnacknowledged (some (enc.commitId committed)) none
  ensure (fault ≠ .afterCommitFsync) (.injectedCrash "crash after durable commit")
  return committed

def requireBroker (role : WriterRole) (message : String) : GateM Unit :=
  ensure (role = .broker) (.argument message)

def commitAttemptRejection (gate : Handle) (role : WriterRole) (request : CommitRequest)
    (fault : CrashPoint) : GateM Commit := do
  requireBroker role "only the broker API role may publish a rejection"
  requireHandle enc gate .exclusive
  commitRejection enc gate request fault

def commitWithAdmissionLease (gate : Handle) (role : WriterRole) (request : CommitRequest)
    (fault : CrashPoint) : GateM Commit := do
  requireBroker role "only the broker API role may publish a rejection"
  let disk ← observe
  ensure (disk.directory = gate.gateDirectory)
    (.handle "attempt-rejection admission lease directory changed")
  commitRejection enc gate request fault

def recoverGate (gate : Handle) : GateM GateState := do
  requireHandle enc gate .exclusive
  return (← replayGate enc gate).state

def readCommitted (gate : Handle) : GateM (Option Commit) := do
  requireHandle enc gate .shared
  let observation ← observeGate enc gate false
  return match observation.state with
    | .committedUnacknowledged | .acknowledged => observation.commit
    | _ => none

structure AckRequest where
  sharedOwnerReceiptId : String
  sharedOwnerEventId : String
  sharedOwnerSnapshotId : String

def buildAck (spec : GateSpec) (commit : Commit) (request : AckRequest) : Except GateError Ack := do
  let receiptId ← cid request.sharedOwnerReceiptId "shared-owner receipt"
  let eventId ← cid request.sharedOwnerEventId "shared-owner event"
  let snapshotId ← cid request.sharedOwnerSnapshotId "shared-owner snapshot"
  return ⟨enc.gateId spec, enc.commitId commit, receiptId, eventId, snapshotId⟩

def acknowledgeAttemptRejection (gate : Handle) (commit : Commit) (role : WriterRole)
    (request : AckRequest) (fault : CrashPoint) : GateM Ack := do
  requireBroker role "only the broker API role may acknowledge a rejection"
  ensure (commit.gateId = enc.gateId gate.spec)
    (.acknowledgement "rejection acknowledgement commit is stale or transplanted")
  let desired ← check (buildAck enc gate.spec commit request)
  requireHandle enc gate .exclusive
  let observation ← replayGate enc gate
  match observation.commit with
  | none =>
    raise (.acknowledgement "rejection acknowledgement cannot precede durable commit")
  | some durable =>
    ensure (durable.toDocument enc = commit.toDocument enc)
      (.acknowledgement "rejection acknowledgement commit is stale or transplanted")
    let published ← publishAck (desired.toDocument enc) (enc.ackLength desired)
    let disk ← observe
    ensure (published = true ∨ disk.ack.map File.content = some (desired.toDocument enc))
      (.acknowledgement "a different acknowledgement already exists")
    appendCursorState enc gate .acknowledged (some (enc.commitId commit))
      (some (enc.ackId desired))
    ensure (fault ≠ .afterAckFsync) (.injectedCrash "crash after durable ack")
    check (ackFromDocument enc (desired.toDocument enc))

def beginAdmission (gate : Handle) : GateM Unit := do
  requireHandle enc gate .exclusive
  let observation ← replayGate enc gate
  ensure (observation.state = .opened)
    (.rejected "attempt-wide cap rejection is durable; admission is forbidden")

def beginReplay (gate : Handle) : GateM Observation := do
  requireHandle enc gate .exclusive
  let _ ← replayGate enc gate
  observeGate enc gate false

def beginSideEffect (gate : Handle) : GateM Unit := do
  requireHandle enc gate .shared
  let observation ← observeGate enc gate false
  ensure (observation.state = .opened)
    (.rejected "attempt-wide cap rejection is durable; later side effects are forbidden")

end Operations

end Acfqp.Gate
