import Acfqp.Library.Attempt
import Mathlib.Data.Fintype.Pi

/-!
# The shared caps of one route attempt

One session admits every use of nine shared resources before it happens. A resource that adds up is
reserved and then settled, a peak is admitted as it is observed, and a mounted payload counts while
it is visible. What was admitted is recorded in receipts, and the runtime of the session is sealed
after every change.
-/

namespace Acfqp.SharedCap

open Library

/-! ## Resources -/

inductive SharedPath where
  | hashInvocations
  | integrityChecks
  | protocolChecks
  | mountedBytesPeak
  | outputBytes
  | readBytes
  | stagedBytes
  | workingBytesPeak
  | launches
  deriving DecidableEq

inductive Reducer where
  | sum
  | max
  deriving DecidableEq

def SharedPath.reducer : SharedPath → Reducer
  | .mountedBytesPeak | .workingBytesPeak => .max
  | _ => .sum

def sharedResourcePaths : List SharedPath :=
  [.hashInvocations, .integrityChecks, .protocolChecks, .mountedBytesPeak, .outputBytes, .readBytes,
    .stagedBytes, .workingBytesPeak, .launches]

theorem mem_sharedResourcePaths (path : SharedPath) : path ∈ sharedResourcePaths.toFinset := by
  cases path <;> decide

instance sharedPathFintype : Fintype SharedPath :=
  ⟨sharedResourcePaths.toFinset, mem_sharedResourcePaths⟩

inductive CapPath where
  | shared (path : SharedPath)
  | controlCapChecks
  deriving DecidableEq

structure SharedCapLimit (ι : Type) where
  cap : ℕ
  sourceSiteIds : List ι

/-- What a profile and the prerequisite of its session agree on. -/
structure RouteBinding (ι : Type) where
  sharedCapProfileId : ι
  routeDecisionContextId : ι
  routeDecisionCandidateId : ι
  decisionPointId : ι
  routeAttemptId : ι
  deriving DecidableEq

structure SharedCapProfile (ι : Type) where
  binding : RouteBinding ι
  limits : SharedPath → SharedCapLimit ι
  maxControlCapChecks : ℕ
  control_pos : 0 < maxControlCapChecks

structure DecisionPrerequisite (ι : Type) where
  prerequisiteId : ι
  binding : RouteBinding ι
  deriving DecidableEq

/-! ## Capabilities and receipts -/

structure Reservation (ι : Type) where
  path : SharedPath
  siteId : ι
  amount : ℕ
  sequence : ℕ
  deriving DecidableEq

structure MountToken (ι : Type) where
  siteId : ι
  payloadId : ι
  payloadBytes : ℕ
  sequence : ℕ
  deriving DecidableEq

inductive ReceiptKind where
  | sumReserved
  | sumCommitted
  | sumRefunded
  | sumCallbackFailed
  | sumProtocolOverreturn
  | sumProtocolCapabilityRejected
  | sumRejectedCapExhausted
  | maxAdmitted
  | maxRejectedCapExhausted
  | mountOpened
  | mountClosed
  | mountProtocolCapabilityRejected
  | mountRejectedCapExhausted
  deriving DecidableEq

inductive TerminalCode where
  | protocolFailure
  | fallbackCapExhausted
  deriving DecidableEq

structure ReceiptFields (ι : Type) where
  kind : ReceiptKind
  path : SharedPath
  siteId : ι
  requested : ℤ
  committed : ℤ
  refunded : ℤ
  valueBefore : ℤ
  valueAfter : ℤ
  retainedPeak : ℤ
  controlCapChecksBefore : ℤ
  controlCapChecksDelta : ℤ
  accepted : Bool
  terminalCode : Option TerminalCode
  deriving DecidableEq

structure Receipt (ι : Type) extends ReceiptFields ι where
  decisionPrerequisiteId : ι
  sequence : ℕ
  deriving DecidableEq

def ReceiptFields.amounts {ι : Type} (fields : ReceiptFields ι) : List (String × ℤ) :=
  [("requested", fields.requested), ("committed", fields.committed),
    ("refunded", fields.refunded), ("value_before", fields.valueBefore),
    ("value_after", fields.valueAfter), ("retained_peak", fields.retainedPeak),
    ("control_cap_checks_before", fields.controlCapChecksBefore)]

/-- The content identifiers of a session of one profile. -/
structure SessionIds (ι : Type) where
  reservationId : Reservation ι → ι
  tokenId : MountToken ι → ι
  receiptId : Receipt ι → ι

/-! ## The runtime of a session -/

inductive SessionState where
  | prepared
  | constructionActive
  | capExhausted
  | protocolFailed
  | closed
  deriving DecidableEq

/-- What a session changes. A capability is known by the number of its object. -/
structure Runtime (ι : Type) where
  state : SessionState
  decisionPrerequisite : Option (DecisionPrerequisite ι)
  terminalCode : Option TerminalCode
  sumCommitted : SharedPath → ℤ
  sumReserved : SharedPath → ℤ
  maxValues : SharedPath → ℤ
  controlCapChecks : ℤ
  receipts : List (Receipt ι)
  activeReservations : List (ι × ℕ)
  settledReservations : List ι
  mountEntries : List (ι × ℕ × ℤ)
  mountTokens : List (ι × ℕ)
  closedMountTokens : List ι
  mountedCurrentBytes : ℤ
  deriving DecidableEq

def Runtime.initial (ι : Type) : Runtime ι where
  state := .prepared
  decisionPrerequisite := none
  terminalCode := none
  sumCommitted _ := 0
  sumReserved _ := 0
  maxValues _ := 0
  controlCapChecks := 0
  receipts := []
  activeReservations := []
  settledReservations := []
  mountEntries := []
  mountTokens := []
  closedMountTokens := []
  mountedCurrentBytes := 0

/-- The accounting values that the sealed document of a runtime lists are not negative. -/
def Runtime.Documented {ι : Type} (rt : Runtime ι) : Prop :=
  (∀ path, 0 ≤ rt.sumCommitted path ∧ 0 ≤ rt.sumReserved path ∧ 0 ≤ rt.maxValues path) ∧
    0 ≤ rt.controlCapChecks ∧ 0 ≤ rt.mountedCurrentBytes

instance runtimeDocumentedDecidable {ι : Type} (rt : Runtime ι) : Decidable rt.Documented :=
  inferInstanceAs (Decidable (_ ∧ _))

/-- The fields of the session object, what its issuer has sealed, and the live capabilities. -/
structure Process (ι : Type) where
  live : Runtime ι
  sealed : Runtime ι
  reservations : List (Reservation ι)
  tokens : List (MountToken ι)

def Process.initial (ι : Type) : Process ι := ⟨Runtime.initial ι, Runtime.initial ι, [], []⟩

/-! ## What a call is given and what it answers -/

/-- Whether the issued objects are as they were issued, when a call looks at them. -/
structure Inspection where
  identity : Bool
  runtimeWellFormed : Bool
  profile : Bool
  prerequisite : Bool
  receipts : Bool

/-- What a capability that is presented looks like. -/
inductive Condition where
  | intact
  | unreadable
  | changed
  deriving DecidableEq

/-- An object that is presented as a capability. Live objects of other sessions have seals too. -/
inductive Presented where
  | foreignType
  | notLive
  | otherSession (condition : Condition)
  | issued (object : ℕ) (condition : Condition)

inductive PresentedPrerequisite (ι : Type) where
  | foreignType
  | notLive
  | live (prerequisite : DecisionPrerequisite ι)

/-- The exceptions of a session. The last one stands for the branches that fail again while they
fail, which no run reaches. -/
inductive SessionError (ι : Type) where
  | protocolFailure (message : String)
  | capExhausted (path : CapPath) (cap : ℕ) (current requested : ℤ) (receiptId : Option ι)
  | authority (message : String)
  | callback
  | nested
  deriving DecidableEq

abbrev SessionM (ι : Type) := Attempt (Process ι) (SessionError ι)

end Acfqp.SharedCap
