import Acfqp.Core
import Acfqp.Library.Durable

/-!
# Records of the attempt-rejection gate

A rejection is published as an intent, linked as a commit, and acknowledged. Each record names
itself by a digest of its payload, and so do the links of the high-water cursor. The digests and
the lengths of canonical bytes are parameters.
-/

namespace Acfqp.Gate

open Library

/-- The failures of the gate, by what they are about. -/
inductive GateError where
  | argument (message : String)
  | reentry (message : String)
  | handle (message : String)
  | layout (message : String)
  | cursor (message : String)
  | record (message : String)
  | byteCap (message : String)
  | acknowledgement (message : String)
  | secondRejection (message : String)
  | rejected (message : String)
  | injectedCrash (message : String)
  deriving DecidableEq

inductive RejectionSourceKind where
  | sharedOwner
  | businessEngine
  | fallbackEngine
  deriving DecidableEq

def RejectionSourceKind.ofValue : String → Option RejectionSourceKind
  | "SHARED_OWNER" => some .sharedOwner
  | "BUSINESS_ENGINE" => some .businessEngine
  | "FALLBACK_ENGINE" => some .fallbackEngine
  | _ => none

inductive RejectionLimitKind where
  | sharedPath
  | controlCapChecks
  deriving DecidableEq

def RejectionLimitKind.ofValue : String → Option RejectionLimitKind
  | "SHARED_PATH" => some .sharedPath
  | "CONTROL_CAP_CHECKS" => some .controlCapChecks
  | _ => none

inductive GateState where
  | opened
  | intentDurable
  | committedUnacknowledged
  | acknowledged
  deriving DecidableEq

def cursorStates : List GateState :=
  [.opened, .intentDurable, .committedUnacknowledged, .acknowledged]

inductive CrashPoint where
  | none
  | afterIntentFsync
  | afterCommitFsync
  | afterAckFsync
  deriving DecidableEq

inductive WriterRole where
  | broker
  | worker
  | business
  deriving DecidableEq

def sharedResourcePaths : List String :=
  ["common.hash_invocations", "common.integrity_checks", "common.protocol_checks",
    "io.mounted_bytes_peak", "io.output_bytes", "io.read_bytes", "io.staged_bytes",
    "memory.working_bytes_peak", "process.launches"]

def maxDocumentBytes : ℕ := 1024 * 1024

def cid (value label : String) : Except GateError ContentId :=
  if h : IsContentId value then .ok ⟨value, h⟩
  else .error (.argument s!"{label} must be one exact content ID")

/-- A device and an inode number. -/
structure Inode where
  device : ℕ
  inode : ℕ
  deriving DecidableEq

structure GateSpec where
  logicalOccurrenceId : ContentId
  routeAttemptId : ContentId
  gateBaseRealpath : String
  gateBase : Inode
  callerPinnedLifecycleProvenanceId : ContentId
  deriving DecidableEq

/-- A shared path has a candidate above its cap, a control check has none. -/
def CandidateValid : RejectionLimitKind → Option ℤ → ℤ → Prop
  | .sharedPath, some candidate, hardCap => hardCap < candidate
  | .sharedPath, none, _ => False
  | .controlCapChecks, candidate, _ => candidate = none

instance : (kind : RejectionLimitKind) → (candidate : Option ℤ) → (hardCap : ℤ) →
    Decidable (CandidateValid kind candidate hardCap)
  | .sharedPath, some candidate, hardCap => inferInstanceAs (Decidable (hardCap < candidate))
  | .sharedPath, none, _ => inferInstanceAs (Decidable False)
  | .controlCapChecks, candidate, _ => inferInstanceAs (Decidable (candidate = none))

def candidateMessage : RejectionLimitKind → String
  | .sharedPath => "shared-path rejection candidate must exceed the hard cap"
  | .controlCapChecks => "control-check rejection candidate must be typed not applicable"

/-- A rejection with valid fields. -/
@[ext] structure Commit where
  gateId : ContentId
  logicalOccurrenceId : ContentId
  routeAttemptId : ContentId
  decisionPointId : ContentId
  transactionId : ContentId
  sharedOwnerProfileCoreId : ContentId
  rejectionRequestId : ContentId
  sourceKind : RejectionSourceKind
  siteKey : String
  path : String
  limitKind : RejectionLimitKind
  reservationUpper : ℤ
  candidate : Option ℤ
  hardCap : ℤ
  reasonCode : String
  siteKey_ne : siteKey ≠ ""
  path_shared : path ∈ sharedResourcePaths
  reservationUpper_nonneg : 0 ≤ reservationUpper
  hardCap_nonneg : 0 ≤ hardCap
  reasonCode_ne : reasonCode ≠ ""
  candidate_valid : CandidateValid limitKind candidate hardCap

instance : DecidableEq Commit := fun _ _ => decidable_of_iff _ Commit.ext_iff.symm

structure Ack where
  gateId : ContentId
  commitId : ContentId
  receiptId : ContentId
  eventId : ContentId
  snapshotId : ContentId
  deriving DecidableEq

structure CursorPayload where
  gateId : ContentId
  cursorToken : ContentId
  sequence : ℕ
  state : GateState
  commitId : Option ContentId
  ackId : Option ContentId
  previous : Option ContentId
  deriving DecidableEq

structure CursorRecord where
  payload : CursorPayload
  recordId : ContentId
  deriving DecidableEq

/-- The digests of the records, and the lengths of their canonical bytes where they have any. -/
structure Encoding where
  gateId : GateSpec → ContentId
  commitId : Commit → ContentId
  ackId : Ack → ContentId
  cursorRecordId : CursorPayload → ContentId
  commitLength : Commit → Option ℕ
  ackLength : Ack → ℕ

structure CommitDocument where
  commit : Commit
  commitId : ContentId
  deriving DecidableEq

structure AckDocument where
  ack : Ack
  ackId : ContentId
  deriving DecidableEq

/-- What a caller asks to reject. -/
structure CommitRequest where
  decisionPointId : String
  transactionId : String
  sharedOwnerProfileCoreId : String
  rejectionRequestId : String
  sourceKind : String
  siteKey : String
  path : String
  limitKind : String
  reservationUpper : ℤ
  candidate : Option ℤ
  hardCap : ℤ
  reasonCode : String

section Documents

variable (enc : Encoding)

def Commit.toDocument (c : Commit) : CommitDocument := ⟨c, enc.commitId c⟩

def commitFromDocument (document : CommitDocument) : Except GateError Commit := do
  require (document.commit.toDocument enc = document)
    (.record "durable rejection commit did not replay")
  return document.commit

def Ack.toDocument (a : Ack) : AckDocument := ⟨a, enc.ackId a⟩

def ackFromDocument (document : AckDocument) : Except GateError Ack := do
  require (document.ack.toDocument enc = document)
    (.record "durable rejection acknowledgement did not replay")
  return document.ack

def cursorDocument (payload : CursorPayload) : CursorRecord :=
  ⟨payload, enc.cursorRecordId payload⟩

@[simp] theorem commitFromDocument_toDocument (c : Commit) :
    commitFromDocument enc (c.toDocument enc) = .ok c := by
  simp [commitFromDocument, Commit.toDocument, bind, Except.bind, require, pure, Except.pure]

@[simp] theorem ackFromDocument_toDocument (a : Ack) :
    ackFromDocument enc (a.toDocument enc) = .ok a := by
  simp [ackFromDocument, Ack.toDocument, bind, Except.bind, require, pure, Except.pure]

/-- The rejection of a request, with every field checked. -/
def buildCommit (spec : GateSpec) (request : CommitRequest) : Except GateError Commit := do
  let decisionPointId ← cid request.decisionPointId "decision point"
  let transactionId ← cid request.transactionId "transaction"
  let profileCoreId ← cid request.sharedOwnerProfileCoreId "shared-owner profile core"
  let requestId ← cid request.rejectionRequestId "rejection request"
  let sourceKind ← orRaise (RejectionSourceKind.ofValue request.sourceKind)
    (.argument "rejection source/limit kind is invalid")
  let limitKind ← orRaise (RejectionLimitKind.ofValue request.limitKind)
    (.argument "rejection source/limit kind is invalid")
  if hsite : request.siteKey ≠ "" then
    if hpath : request.path ∈ sharedResourcePaths then
      if hupper : 0 ≤ request.reservationUpper then
        if hcap : 0 ≤ request.hardCap then
          if hreason : request.reasonCode ≠ "" then
            if hcandidate : CandidateValid limitKind request.candidate request.hardCap then
              let commit : Commit := {
                gateId := enc.gateId spec
                logicalOccurrenceId := spec.logicalOccurrenceId
                routeAttemptId := spec.routeAttemptId
                decisionPointId := decisionPointId
                transactionId := transactionId
                sharedOwnerProfileCoreId := profileCoreId
                rejectionRequestId := requestId
                sourceKind := sourceKind
                siteKey := request.siteKey
                path := request.path
                limitKind := limitKind
                reservationUpper := request.reservationUpper
                candidate := request.candidate
                hardCap := request.hardCap
                reasonCode := request.reasonCode
                siteKey_ne := hsite
                path_shared := hpath
                reservationUpper_nonneg := hupper
                hardCap_nonneg := hcap
                reasonCode_ne := hreason
                candidate_valid := hcandidate }
              require ((enc.commitLength commit).isSome)
                (.argument "value is not canonical UTF-8 JSON")
              return commit
            else throw (.argument (candidateMessage limitKind))
          else throw (.argument "rejection reason code must be one nonempty exact string")
        else throw (.argument "rejection hard cap must be one nonnegative exact integer")
      else throw (.argument "rejection reservation must be one nonnegative exact integer")
    else throw (.argument "rejection path is not one of the nine shared resources")
  else throw (.argument "rejection site must be one nonempty exact string")

end Documents

end Acfqp.Gate
