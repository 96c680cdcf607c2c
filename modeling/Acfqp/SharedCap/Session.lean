import Acfqp.SharedCap.Model
import Acfqp.Library.Dict
import Acfqp.Library.Runs

/-!
# The operations of a session

Every operation first replays the seal of the session. A failure of the protocol charges every
outstanding reservation in full before it is reported.
-/

namespace Acfqp.SharedCap

open Library

variable {ι : Type} [DecidableEq ι]

/-! ## The seal -/

def runtime : SessionM ι (Runtime ι) := do return (← get).live

def update (f : Runtime ι → Runtime ι) : SessionM ι Unit :=
  modify fun p => { p with live := f p.live }

def refreshSessionSeal : SessionM ι Unit := do
  let rt ← runtime
  if rt.Documented then modify fun p => { p with sealed := rt }
  else throw (.protocolFailure "shared-cap accounting value is not a nonnegative exact integer")

def restoreFromIssuerSeal : SessionM ι Unit := modify fun p => { p with live := p.sealed }

/-- One more receipt, of what the prerequisite of the session allows. -/
def Runtime.append (rt : Runtime ι) (fields : ReceiptFields ι)
    (prerequisite : DecisionPrerequisite ι) : Runtime ι :=
  { rt with receipts :=
      rt.receipts ++ [⟨fields, prerequisite.prerequisiteId, rt.receipts.length + 1⟩] }

def appendReceipt (fields : ReceiptFields ι) : SessionM ι (Receipt ι) := do
  let rt ← runtime
  match rt.decisionPrerequisite with
  | none => throw .nested
  | some prerequisite =>
    match fields.amounts.find? (·.2 < 0) with
    | some (label, _) =>
      throw (.authority (label ++ " must be one nonnegative exact integer"))
    | none => do
      update fun rt => rt.append fields prerequisite
      refreshSessionSeal
      return ⟨fields, prerequisite.prerequisiteId, rt.receipts.length + 1⟩

/-! ## Settlement -/

/-- A reservation is taken out of the reserved amount of its path, and what was used is charged. -/
def Runtime.settle (rt : Runtime ι) (reservationId : ι) (issued : Reservation ι) (actual : ℤ) :
    Runtime ι :=
  { rt with
    sumReserved := Function.update rt.sumReserved issued.path
      (rt.sumReserved issued.path - issued.amount)
    sumCommitted := Function.update rt.sumCommitted issued.path
      (rt.sumCommitted issued.path + actual)
    activeReservations := rt.activeReservations.filter (·.1 ≠ reservationId)
    settledReservations := rt.settledReservations ++ [reservationId] }

/-- The committed and the reserved amount of a path together. -/
def Runtime.value (rt : Runtime ι) (path : SharedPath) : ℤ :=
  rt.sumCommitted path + rt.sumReserved path

def settlementFields (issued : Reservation ι) (kind : ReceiptKind) (actual refunded : ℤ)
    (before after control : ℤ) (accepted : Bool) : ReceiptFields ι where
  kind := kind
  path := issued.path
  siteId := issued.siteId
  requested := issued.amount
  committed := actual
  refunded := refunded
  valueBefore := before
  valueAfter := after
  retainedPeak := max before after
  controlCapChecksBefore := control
  controlCapChecksDelta := 0
  accepted := accepted
  terminalCode := if accepted then none else some .protocolFailure

section Operations

variable (ids : SessionIds ι)

/-- The reservation is settled with what was used, and a receipt says so. -/
def settleWith (issued : Reservation ι) (kind : ReceiptKind) (actual refunded : ℤ)
    (accepted : Bool) : SessionM ι (Receipt ι) := do
  let rt ← runtime
  let settled := rt.settle (ids.reservationId issued) issued actual
  update fun rt => rt.settle (ids.reservationId issued) issued actual
  appendReceipt (settlementFields issued kind actual refunded (rt.value issued.path)
    (settled.value issued.path) rt.controlCapChecks accepted)

def conservativelySettleReservation (object : ℕ) (issued : Reservation ι) (kind : ReceiptKind) :
    SessionM ι Unit := do
  let rt ← runtime
  if rt.activeReservations.lookup (ids.reservationId issued) = some object then
    if rt.sumReserved issued.path < issued.amount then throw .nested
    else discard (settleWith ids issued kind issued.amount 0 false)

def settleAllOutstandingReservations : SessionM ι Unit := do
  let p ← get
  p.live.activeReservations.forM fun entry =>
    match p.reservations[entry.2]? with
    | none => pure ()
    | some issued =>
      conservativelySettleReservation ids entry.2 issued .sumProtocolCapabilityRejected

def Runtime.failed (rt : Runtime ι) : Runtime ι :=
  { rt with state := .protocolFailed, terminalCode := some .protocolFailure }

def transitionProtocolFailed : SessionM ι Unit := do
  settleAllOutstandingReservations ids
  update Runtime.failed
  refreshSessionSeal

def protocolFail {α : Type} (message : String) : SessionM ι α := do
  transitionProtocolFailed ids
  throw (.protocolFailure message)

/-- What is not a value of the expected kind fails the protocol. -/
def runtimeValue {α : Type} (value : Option α) (label : String) : SessionM ι α :=
  match value with
  | some a => pure a
  | none => protocolFail ids ("invalid runtime " ++ label)

/-- A failure of the protocol is reported under another message. -/
def relabel {α : Type} (message : String) (x : SessionM ι α) : SessionM ι α :=
  tryCatch x fun e => match e with
    | .protocolFailure _ => throw (.protocolFailure message)
    | e => throw e

/-! ## What is checked before an operation -/

section

variable (profile : SharedCapProfile ι) (seen : Inspection)

def assertLiveSession : SessionM ι Unit := do
  let p ← get
  if seen.runtimeWellFormed = false ∨ ¬ p.live.Documented ∨ seen.profile = false ∨
      (p.live.decisionPrerequisite.isSome ∧ seen.prerequisite = false) then do
    restoreFromIssuerSeal
    protocolFail ids "shared-cap session fixed identity or runtime seal is invalid"
  else if seen.identity = false ∨ p.live ≠ p.sealed then do
    restoreFromIssuerSeal
    protocolFail ids "shared-cap session changed after issuer sealing"

def assertProfileCurrent : SessionM ι Unit := do
  assertLiveSession ids seen
  if seen.profile = false then protocolFail ids "shared-cap profile became invalid or stale"

def assertReceiptsCurrent : SessionM ι Unit := do
  let rt ← runtime
  if rt.receipts ≠ [] ∧ seen.receipts = false then
    protocolFail ids "shared-cap receipt is foreign or changed after issuance"

def ensureActive : SessionM ι Unit := do
  assertProfileCurrent ids seen
  assertReceiptsCurrent ids seen
  let rt ← runtime
  if rt.state ≠ .constructionActive ∨ rt.decisionPrerequisite = none then
    protocolFail ids "shared-cap admission occurred outside construction-active FALLBACK"

def rowAndSite (path : Option SharedPath) (siteId : Option ι) (reducer : Reducer) :
    SessionM ι (SharedPath × ι) := do
  ensureActive ids seen
  match path with
  | none => protocolFail ids "shared-cap path/reducer is unknown or mismatched"
  | some path =>
    if path.reducer ≠ reducer then
      protocolFail ids "shared-cap path/reducer is unknown or mismatched"
    else
      match siteId with
      | none => protocolFail ids "shared-cap admission used an invalid source-site ID"
      | some siteId =>
        if siteId ∉ (profile.limits path).sourceSiteIds then
          protocolFail ids "shared-cap admission bypassed its frozen source-site manifest"
        else return (path, siteId)

def Runtime.exhausted (rt : Runtime ι) : Runtime ι :=
  { rt with state := .capExhausted, terminalCode := some .fallbackCapExhausted }

def exhaust : SessionM ι Unit := do
  update Runtime.exhausted
  refreshSessionSeal

def Runtime.checked (rt : Runtime ι) : Runtime ι :=
  { rt with controlCapChecks := rt.controlCapChecks + 1 }

/-- An admission is itself one check of the caps, which have a cap of their own. -/
def beginAdmission (path : Option SharedPath) (siteId : Option ι) (reducer : Reducer) :
    SessionM ι (SharedPath × ι × ℤ) := do
  let (path, siteId) ← rowAndSite ids profile seen path siteId reducer
  let rt ← runtime
  let before := rt.controlCapChecks
  if before + 1 > profile.maxControlCapChecks then do
    exhaust
    throw (.capExhausted .controlCapChecks profile.maxControlCapChecks before 1 none)
  else do
    update Runtime.checked
    return (path, siteId, before)

def rejectionFields (kind : ReceiptKind) (path : SharedPath) (siteId : ι) (requested : ℕ)
    (current controlBefore retainedPeak : ℤ) : ReceiptFields ι where
  kind := kind
  path := path
  siteId := siteId
  requested := requested
  committed := 0
  refunded := 0
  valueBefore := current
  valueAfter := current
  retainedPeak := retainedPeak
  controlCapChecksBefore := controlBefore
  controlCapChecksDelta := 1
  accepted := false
  terminalCode := some .fallbackCapExhausted

def rejectCap {α : Type} (kind : ReceiptKind) (path : SharedPath) (siteId : ι) (requested : ℕ)
    (current controlBefore retainedPeak : ℤ) : SessionM ι α := do
  let receipt ← appendReceipt
    (rejectionFields kind path siteId requested current controlBefore retainedPeak)
  exhaust
  throw (.capExhausted (.shared path) (profile.limits path).cap current requested
    (some (ids.receiptId receipt)))

/-! ## Resources that add up -/

def Runtime.reserve (rt : Runtime ι) (reservationId : ι) (object : ℕ) (path : SharedPath)
    (amount : ℕ) : Runtime ι :=
  { rt with
    sumReserved := Function.update rt.sumReserved path (rt.sumReserved path + amount)
    activeReservations := Dict.assign reservationId object rt.activeReservations }

/-- The receipt of an admission: what was asked for, what was committed at once, and the value of
the path before and after. -/
def admissionFields (kind : ReceiptKind) (path : SharedPath) (siteId : ι) (requested : ℕ)
    (committed before after peak controlBefore : ℤ) : ReceiptFields ι where
  kind := kind
  path := path
  siteId := siteId
  requested := requested
  committed := committed
  refunded := 0
  valueBefore := before
  valueAfter := after
  retainedPeak := peak
  controlCapChecksBefore := controlBefore
  controlCapChecksDelta := 1
  accepted := true
  terminalCode := none

/-- The number of the new reservation object. -/
def admitSum (path : Option SharedPath) (amount : Option ℕ) (siteId : Option ι) :
    SessionM ι ℕ := do
  let amount ← runtimeValue ids amount "SUM reservation amount"
  let (path, siteId, controlBefore) ← beginAdmission ids profile seen path siteId .sum
  let rt ← runtime
  let current := rt.value path
  if current + amount > (profile.limits path).cap then
    rejectCap ids profile .sumRejectedCapExhausted path siteId amount current controlBefore current
  else do
    let reservation : Reservation ι := ⟨path, siteId, amount, rt.receipts.length + 1⟩
    let object := (← get).reservations.length
    modify fun p => { p with reservations := p.reservations ++ [reservation] }
    update fun rt => rt.reserve (ids.reservationId reservation) object path amount
    discard (appendReceipt (admissionFields .sumReserved path siteId amount 0 current
      (current + amount) (current + amount) controlBefore))
    return object

def reserveSum (path : Option SharedPath) (amount : Option ℕ) (siteId : Option ι) :
    SessionM ι ℕ := do
  assertLiveSession ids seen
  if path = some .stagedBytes then
    protocolFail ids "io.staged_bytes is admitted only by stage_ingress"
  else admitSum ids profile seen path amount siteId

def reservationSeal (presented : Presented) : SessionM ι (ℕ × Reservation ι) := do
  match presented with
  | .foreignType => protocolFail ids "reservation settlement used a foreign capability"
  | .notLive => protocolFail ids "reservation is not a live issuer capability"
  | .otherSession .unreadable =>
    protocolFail ids "reservation failed post-issuance identity replay"
  | .otherSession .changed => protocolFail ids "reservation changed after issuance"
  | .otherSession .intact =>
    protocolFail ids "reservation is foreign, stale, or already settled"
  | .issued object condition =>
    match (← get).reservations[object]? with
    | none => protocolFail ids "reservation is not a live issuer capability"
    | some issued =>
      match condition with
      | .unreadable =>
        conservativelySettleReservation ids object issued .sumProtocolCapabilityRejected
        protocolFail ids "reservation failed post-issuance identity replay"
      | .changed =>
        conservativelySettleReservation ids object issued .sumProtocolCapabilityRejected
        protocolFail ids "reservation changed after issuance"
      | .intact =>
        let rt ← runtime
        if rt.activeReservations.lookup (ids.reservationId issued) ≠ some object then
          protocolFail ids "reservation is foreign, stale, or already settled"
        else return (object, issued)

/-- Nothing is given, or a value that may not be an amount. -/
def actualAmount (object : ℕ) (issued : Reservation ι) : Option (Option ℕ) → SessionM ι ℕ
  | none => pure issued.amount
  | some (some actual) => pure actual
  | some none => do
    conservativelySettleReservation ids object issued .sumProtocolCapabilityRejected
    protocolFail ids "invalid runtime actual SUM amount"

def commitSum (reservation : Presented) (actual : Option (Option ℕ)) :
    SessionM ι (Receipt ι) := do
  assertLiveSession ids seen
  let rt ← runtime
  if rt.state ≠ .constructionActive ∧ rt.state ≠ .capExhausted then
    protocolFail ids "reservation settlement is out of order"
  else do
    let (object, issued) ← reservationSeal ids reservation
    let actual ← actualAmount ids object issued actual
    if actual > issued.amount then do
      conservativelySettleReservation ids object issued .sumProtocolCapabilityRejected
      protocolFail ids "actual SUM amount exceeds its prior reservation"
    else
      settleWith ids issued (if actual = 0 then .sumRefunded else .sumCommitted) actual
        (issued.amount - actual) true

def refundSum (reservation : Presented) : SessionM ι (Receipt ι) := do
  assertLiveSession ids seen
  commitSum ids seen reservation (some (some 0))

/-! ## Peaks and visible payloads -/

def Runtime.admitPeak (rt : Runtime ι) (path : SharedPath) (after : ℤ) : Runtime ι :=
  { rt with maxValues := Function.update rt.maxValues path after }

def admitMax (path : Option SharedPath) (value : Option ℕ) (siteId : Option ι) :
    SessionM ι Unit := do
  assertLiveSession ids seen
  let value ← runtimeValue ids value "MAX observation"
  if path = some .mountedBytesPeak then
    protocolFail ids "mounted bytes require unique-payload visibility admission"
  else do
    let (path, siteId, controlBefore) ← beginAdmission ids profile seen path siteId .max
    let before := (← runtime).maxValues path
    if value > (profile.limits path).cap then
      rejectCap ids profile .maxRejectedCapExhausted path siteId value before controlBefore before
    else do
      let after := max before value
      update fun rt => rt.admitPeak path after
      discard (appendReceipt
        (admissionFields .maxAdmitted path siteId value value before after after controlBefore))

/-- One more token for a payload, which counts once. -/
def Runtime.mount (rt : Runtime ι) (tokenId payloadId : ι) (object payloadBytes : ℕ) :
    Runtime ι :=
  let entry := rt.mountEntries.lookup payloadId
  let current := if entry = none then rt.mountedCurrentBytes + payloadBytes
    else rt.mountedCurrentBytes
  { rt with
    mountEntries := Dict.assign payloadId (payloadBytes, (entry.elim 0 (·.2)) + 1) rt.mountEntries
    mountedCurrentBytes := current
    maxValues := Function.update rt.maxValues .mountedBytesPeak
      (max (rt.maxValues .mountedBytesPeak) current)
    mountTokens := Dict.assign tokenId object rt.mountTokens }

/-- The number of the new token object. -/
def openMountVisibility (payloadId : Option ι) (payloadBytes : Option ℕ) (siteId : Option ι) :
    SessionM ι ℕ := do
  assertLiveSession ids seen
  let payloadId ← runtimeValue ids payloadId "mounted payload ID"
  let payloadBytes ← runtimeValue ids payloadBytes "mounted payload bytes"
  let existing := (← runtime).mountEntries.lookup payloadId
  if existing.any (·.1 ≠ payloadBytes) then
    protocolFail ids "one mounted payload identity was reused with different bytes"
  else do
    let (path, siteId, controlBefore) ←
      beginAdmission ids profile seen (some .mountedBytesPeak) siteId .max
    let rt ← runtime
    let proposed := if existing = none then rt.mountedCurrentBytes + payloadBytes
      else rt.mountedCurrentBytes
    if proposed > (profile.limits path).cap then
      rejectCap ids profile .mountRejectedCapExhausted path siteId payloadBytes
        rt.mountedCurrentBytes controlBefore (rt.maxValues .mountedBytesPeak)
    else do
      let token : MountToken ι := ⟨siteId, payloadId, payloadBytes, rt.receipts.length + 1⟩
      let object := (← get).tokens.length
      modify fun p => { p with tokens := p.tokens ++ [token] }
      update fun rt => rt.mount (ids.tokenId token) payloadId object payloadBytes
      let rt ← runtime
      discard (appendReceipt (admissionFields .mountOpened path siteId payloadBytes
        (if existing = none then payloadBytes else 0)
        (if existing = none then rt.mountedCurrentBytes - payloadBytes
          else rt.mountedCurrentBytes)
        rt.mountedCurrentBytes (rt.maxValues .mountedBytesPeak) controlBefore))
      return object

/-- One token less for a payload, which no longer counts after its last one. -/
def Runtime.release (rt : Runtime ι) (payloadId : ι) (payloadBytes : ℕ) (references : ℤ) :
    Runtime ι :=
  { rt with
    mountEntries := if references = 1 then rt.mountEntries.filter (·.1 ≠ payloadId)
      else Dict.assign payloadId (payloadBytes, references - 1) rt.mountEntries
    mountedCurrentBytes := if references = 1 then rt.mountedCurrentBytes - payloadBytes
      else rt.mountedCurrentBytes }

def Runtime.closeToken (rt : Runtime ι) (tokenId : ι) : Runtime ι :=
  { rt with
    mountTokens := rt.mountTokens.filter (·.1 ≠ tokenId)
    closedMountTokens := rt.closedMountTokens ++ [tokenId] }

def Runtime.unmount (rt : Runtime ι) (tokenId payloadId : ι) (payloadBytes : ℕ)
    (references : ℤ) : Runtime ι :=
  (rt.release payloadId payloadBytes references).closeToken tokenId

def closedFields (kind : ReceiptKind) (issued : MountToken ι) (payloadBytes : ℕ)
    (references before after peak control : ℤ) (accepted : Bool)
    (terminalCode : Option TerminalCode) : ReceiptFields ι where
  kind := kind
  path := .mountedBytesPeak
  siteId := issued.siteId
  requested := issued.payloadBytes
  committed := 0
  refunded := if references = 1 then payloadBytes else 0
  valueBefore := before
  valueAfter := after
  retainedPeak := peak
  controlCapChecksBefore := control
  controlCapChecksDelta := 0
  accepted := accepted
  terminalCode := terminalCode

def closeMountSeal (object : ℕ) (issued : MountToken ι) (kind : ReceiptKind) (accepted : Bool)
    (terminalCode : Option TerminalCode) : SessionM ι (Option (Receipt ι)) := do
  let rt ← runtime
  if rt.mountTokens.lookup (ids.tokenId issued) ≠ some object then return none
  else
    match rt.mountEntries.lookup issued.payloadId with
    | none => protocolFail ids "mount bookkeeping is missing or inconsistent"
    | some (payloadBytes, references) =>
      if payloadBytes ≠ issued.payloadBytes ∨ references ≤ 0 then
        protocolFail ids "mount bookkeeping is missing or inconsistent"
      else do
        update fun rt => rt.release issued.payloadId payloadBytes references
        let released ← runtime
        if released.mountedCurrentBytes < 0 then
          protocolFail ids "mounted current bytes became negative"
        else do
          update fun rt => rt.closeToken (ids.tokenId issued)
          some <$> appendReceipt (closedFields kind issued payloadBytes references
            rt.mountedCurrentBytes released.mountedCurrentBytes (rt.maxValues .mountedBytesPeak)
            rt.controlCapChecks accepted terminalCode)

/-- A token that is not as it was issued is closed before the session fails. -/
def rejectToken (object : ℕ) (issued : MountToken ι) : SessionM ι Unit :=
  discard (closeMountSeal ids object issued .mountProtocolCapabilityRejected false
    (some .protocolFailure))

def mountTokenSeal (presented : Presented) : SessionM ι (ℕ × MountToken ι) := do
  match presented with
  | .foreignType => protocolFail ids "mount close used a foreign capability"
  | .notLive => protocolFail ids "mount token is not a live issuer capability"
  | .otherSession _ => protocolFail ids "mount token belongs to another cap session"
  | .issued object condition =>
    match (← get).tokens[object]? with
    | none => protocolFail ids "mount token is not a live issuer capability"
    | some issued =>
      match condition with
      | .unreadable => do
        rejectToken ids object issued
        protocolFail ids "mount token failed post-issuance identity replay"
      | .changed => do
        rejectToken ids object issued
        protocolFail ids "mount token changed after issuance"
      | .intact =>
        let rt ← runtime
        if rt.mountTokens.lookup (ids.tokenId issued) ≠ some object then
          protocolFail ids "mount token is stale or already closed"
        else return (object, issued)

def closeMountVisibility (token : Presented) : SessionM ι (Receipt ι) := do
  assertLiveSession ids seen
  let rt ← runtime
  if rt.state = .prepared ∨ rt.state = .closed then
    protocolFail ids "mount close is out of order"
  else do
    let (object, issued) ← mountTokenSeal ids token
    let failed := (← runtime).state = .protocolFailed
    match ← closeMountSeal ids object issued .mountClosed true
        (if failed then some .protocolFailure else none) with
    | none => protocolFail ids "mount token became stale during close"
    | some receipt => return receipt

/-! ## The session as a whole -/

structure Snapshot (ι : Type) where
  decisionPrerequisiteId : Option ι
  state : SessionState
  terminalCode : Option TerminalCode
  sharedValues : List (SharedPath × ℤ)
  outstandingReservedValues : List (SharedPath × ℤ)
  mountedCurrentBytes : ℤ
  controlCapChecks : ℤ
  receiptIds : List ι

def Runtime.snapshot (rt : Runtime ι) : Snapshot ι where
  decisionPrerequisiteId := rt.decisionPrerequisite.map (·.prerequisiteId)
  state := rt.state
  terminalCode := rt.terminalCode
  sharedValues := sharedResourcePaths.map fun path =>
    (path, if path.reducer = .sum then rt.sumCommitted path else rt.maxValues path)
  outstandingReservedValues :=
    (sharedResourcePaths.filter (·.reducer = .sum)).map fun path => (path, rt.sumReserved path)
  mountedCurrentBytes := rt.mountedCurrentBytes
  controlCapChecks := rt.controlCapChecks
  receiptIds := rt.receipts.map ids.receiptId

def snapshot : SessionM ι (Snapshot ι) := do
  assertLiveSession ids seen
  assertReceiptsCurrent ids seen
  let rt ← runtime
  return rt.snapshot ids

def activateConstruction (presented : PresentedPrerequisite ι) : SessionM ι Unit := do
  assertProfileCurrent ids seen
  let rt ← runtime
  if rt.state ≠ .prepared then
    protocolFail ids "shared-cap session activation is out of order"
  else
    match presented with
    | .foreignType =>
      protocolFail ids "shared-cap session requires construction decision prerequisite"
    | .notLive =>
      protocolFail ids "shared-cap session requires a live construction prerequisite"
    | .live prerequisite =>
      if prerequisite.binding ≠ profile.binding then
        protocolFail ids "construction fallback prerequisite is foreign to this session"
      else do
        update fun rt => { rt with
          decisionPrerequisite := some prerequisite, state := .constructionActive }
        refreshSessionSeal

def close : SessionM ι (Snapshot ι) := do
  assertLiveSession ids seen
  let rt ← runtime
  if rt.state ≠ .constructionActive ∧ rt.state ≠ .capExhausted then
    protocolFail ids "shared-cap session close is out of order"
  else if rt.activeReservations ≠ [] ∨ rt.mountTokens ≠ [] then
    protocolFail ids "shared-cap session cannot close with outstanding capabilities"
  else do
    update fun rt => { rt with state := .closed }
    refreshSessionSeal
    snapshot ids seen

/-! ## Callbacks -/

/-- After a callback raised, its reservation is charged in full and the session fails. -/
def settleCallbackFailure (reservation : Presented) : SessionM ι Unit := do
  relabel "shared-cap callback corrupted its admission session" do
    assertLiveSession ids seen
    assertReceiptsCurrent ids seen
  let rt ← runtime
  if rt.state ≠ .constructionActive then
    protocolFail ids "shared-cap callback terminated its admission session"
  else do
    let (_, issued) ← relabel "shared-cap callback corrupted its active reservation"
      (reservationSeal ids reservation)
    discard (settleWith ids issued .sumCallbackFailed issued.amount 0 false)
    transitionProtocolFailed ids

def requireActiveAfterCallback : SessionM ι Unit := do
  assertLiveSession ids seen
  let rt ← runtime
  if rt.state ≠ .constructionActive then
    protocolFail ids "shared-cap callback changed or terminated its admission session"

/-- What `run_sum_operation` does before its callback. -/
def beginSumOperation (path : Option SharedPath) (amount : Option ℕ) (siteId : Option ι) :
    SessionM ι ℕ := do
  assertLiveSession ids seen
  reserveSum ids profile seen path amount siteId

/-- What `stage_ingress` does before its callback. -/
def beginStageIngress (payloadBytes : Option ℕ) (siteId : Option ι) (namedIngress : Bool) :
    SessionM ι ℕ := do
  assertLiveSession ids seen
  if namedIngress = false then
    protocolFail ids "io.staged_bytes requires named sandbox COPY or BIND ingress"
  else admitSum ids profile seen (some .stagedBytes) payloadBytes siteId

/-- What `bounded_read` does before its reader. -/
def beginBoundedRead (maximumBytes : Option ℕ) (siteId : Option ι) : SessionM ι ℕ := do
  assertLiveSession ids seen
  reserveSum ids profile seen (some .readBytes) maximumBytes siteId

def failCallback {α : Type} (reservation : Presented) : SessionM ι α := do
  settleCallbackFailure ids seen reservation
  throw .callback

def finishOperation (reservation : Presented) : SessionM ι Unit := do
  requireActiveAfterCallback ids seen
  discard (commitSum ids seen reservation none)

/-- What `bounded_read` does after its reader returned bytes of a length, or something else. -/
def finishBoundedRead (reservation : Presented) (maximumBytes : ℕ) (result : Option ℕ) :
    SessionM ι ℕ := do
  requireActiveAfterCallback ids seen
  match result with
  | none => do
    settleCallbackFailure ids seen reservation
    throw (.protocolFailure "bounded reader returned a non-bytes object")
  | some length =>
    if length > maximumBytes then do
      let (_, issued) ← reservationSeal ids reservation
      discard (settleWith ids issued .sumProtocolOverreturn length 0 false)
      protocolFail ids "bounded reader exceeded its admitted request"
    else do
      discard (commitSum ids seen reservation (some (some length)))
      return length

end

end Operations

end Acfqp.SharedCap

/-!
## Runs of a session

A call is atomic up to its callback. While the callback runs, every other operation can be called,
the fields of the session object can be overwritten, and the callbacks that are pending can return
or raise in any order.
-/

namespace Acfqp.SharedCap

open Library

inductive Call (ι : Type) where
  | activateConstruction (prerequisite : PresentedPrerequisite ι)
  | reserveSum (path : Option SharedPath) (amount : Option ℕ) (siteId : Option ι)
  | commitSum (reservation : Presented) (actual : Option (Option ℕ))
  | refundSum (reservation : Presented)
  | admitMax (path : Option SharedPath) (value : Option ℕ) (siteId : Option ι)
  | openMountVisibility (payloadId : Option ι) (payloadBytes : Option ℕ) (siteId : Option ι)
  | closeMountVisibility (token : Presented)
  | snapshot
  | close
  | receipts
  | state

/-- A call that runs a callback between its reservation and its settlement. -/
inductive CallbackCall (ι : Type) where
  | runSumOperation (path : Option SharedPath) (amount : Option ℕ) (siteId : Option ι)
  | boundedRead (maximumBytes : Option ℕ) (siteId : Option ι)
  | stageIngress (payloadBytes : Option ℕ) (siteId : Option ι) (namedIngress : Bool)

/-- A call whose callback runs, with the object of its reservation. -/
inductive Pending where
  | operation (reservation : ℕ)
  | read (reservation maximumBytes : ℕ)

def Pending.reservation : Pending → ℕ
  | .operation object | .read object _ => object

inductive Returned (ι : Type) where
  | nothing
  | object (number : ℕ)
  | receipt (receipt : Receipt ι)
  | snapshot (snapshot : Snapshot ι)
  | receipts (receipts : List (Receipt ι))
  | state (state : SessionState)
  | started
  | result
  | bytes (length : ℕ)

abbrev Answer (ι : Type) := Except (SessionError ι) (Returned ι)

structure World (ι : Type) where
  process : Process ι
  pending : List Pending

def World.initial (ι : Type) : World ι := ⟨Process.initial ι, []⟩

inductive Event (ι : Type) where
  | call (call : Call ι) (seen : Inspection)
  | enter (call : CallbackCall ι) (seen : Inspection)
  | raised (index : ℕ) (condition : Condition) (seen : Inspection)
  | returned (index : ℕ) (bytes : Option ℕ) (condition : Condition) (seen : Inspection)
  | overwrite (live : Runtime ι)

section Step

variable {ι : Type} [DecidableEq ι] (ids : SessionIds ι) (profile : SharedCapProfile ι)

def Call.run (seen : Inspection) : Call ι → SessionM ι (Returned ι)
  | .activateConstruction prerequisite => do
    SharedCap.activateConstruction ids profile seen prerequisite
    return .nothing
  | .reserveSum path amount siteId => do
    return .object (← SharedCap.reserveSum ids profile seen path amount siteId)
  | .commitSum reservation actual => do
    return .receipt (← SharedCap.commitSum ids seen reservation actual)
  | .refundSum reservation => do return .receipt (← SharedCap.refundSum ids seen reservation)
  | .admitMax path value siteId => do
    SharedCap.admitMax ids profile seen path value siteId
    return .nothing
  | .openMountVisibility payloadId payloadBytes siteId => do
    return .object
      (← SharedCap.openMountVisibility ids profile seen payloadId payloadBytes siteId)
  | .closeMountVisibility token => do
    return .receipt (← SharedCap.closeMountVisibility ids seen token)
  | .snapshot => do return .snapshot (← SharedCap.snapshot ids seen)
  | .close => do return .snapshot (← SharedCap.close ids seen)
  | .receipts => do
    assertLiveSession ids seen
    assertReceiptsCurrent ids seen
    return .receipts (← runtime).receipts
  | .state => do
    assertLiveSession ids seen
    return .state (← runtime).state

def CallbackCall.begin (seen : Inspection) : CallbackCall ι → SessionM ι Pending
  | .runSumOperation path amount siteId => do
    return .operation (← beginSumOperation ids profile seen path amount siteId)
  | .boundedRead maximumBytes siteId => do
    return .read (← beginBoundedRead ids profile seen maximumBytes siteId)
      (maximumBytes.getD 0)
  | .stageIngress payloadBytes siteId namedIngress => do
    return .operation (← beginStageIngress ids profile seen payloadBytes siteId namedIngress)

/-- What is done after the callback returned bytes of a length, or something else. -/
def Pending.finish (seen : Inspection) (condition : Condition) (bytes : Option ℕ) :
    Pending → SessionM ι (Returned ι)
  | .operation object => do
    finishOperation ids seen (.issued object condition)
    return .result
  | .read object maximumBytes => do
    return .bytes
      (← finishBoundedRead ids seen (.issued object condition) maximumBytes bytes)

/-- The world after an event, or nothing when no callback of that number is pending. -/
def step (w : World ι) : Event ι → Option (Answer ι × World ι)
  | .call call seen =>
    let (answer, process) := attempt (call.run ids profile seen) w.process
    some (answer, ⟨process, w.pending⟩)
  | .enter call seen =>
    match attempt (call.begin ids profile seen) w.process with
    | (.ok frame, process) => some (.ok .started, ⟨process, w.pending ++ [frame]⟩)
    | (.error e, process) => some (.error e, ⟨process, w.pending⟩)
  | .raised index condition seen =>
    match w.pending[index]? with
    | none => none
    | some frame =>
      let (answer, process) :=
        attempt (failCallback ids seen (.issued frame.reservation condition)) w.process
      some (answer, ⟨process, w.pending.eraseIdx index⟩)
  | .returned index bytes condition seen =>
    match w.pending[index]? with
    | none => none
    | some frame =>
      let (answer, process) := attempt (frame.finish ids seen condition bytes) w.process
      some (answer, ⟨process, w.pending.eraseIdx index⟩)
  | .overwrite live => some (.ok .nothing, ⟨{ w.process with live := live }, w.pending⟩)

end Step

end Acfqp.SharedCap
