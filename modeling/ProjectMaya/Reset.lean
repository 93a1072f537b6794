import ProjectMaya.CallerPreparation
import ProjectMaya.Lineage

/-! # `CandidateNativeSessionReset` and `CandidateResetPreparation`

A reset ends the created session of a slot and makes a child of it the slot's session.
The coordinator stages the rows in one transaction (`reset`); the preparation publishes the
index, acknowledges the transition after the caller's body, quarantines it when anything
fails, and keeps a confirmation in memory only when nothing did (`prepareReset`). -/

namespace ProjectMaya

open Logic

def resetCallerContract : String := "project-maya.reset-caller-acknowledgement.v1"

/-- The values of `uuid4().hex` and `time()` in one call. -/
structure ResetCall where
  targetSession : String
  requestId : String
  correlationId : String
  endedAt : Int
  startedAt : Int
  deriving DecidableEq, Repr

structure PreparedReceipt where
  sessionId : String
  sourceSession : String
  state : TransitionState := .publishedPendingCaller
  dispatchAllowed : Bool := false
  deriving DecidableEq, Repr

namespace ResetDescriptor

variable (d : ResetDescriptor)

/-- What `check` asks of the descriptor. -/
def fits (b : Binding) : Bool :=
  d.contract = resetContract && d.operation = "reset" && d.instanceId = b.instanceId &&
    d.database = b.database && d.principal = b.owner.actorId &&
    d.classification = b.owner.dataClassification && d.bindingVersion = b.bindingVersion &&
    d.routeSlot = b.routeSlot && 1 ≤ d.expectedRouteVersion && d.sourceSession ≠ d.targetSession

def sessionRow (startedAt : Int) : Session where
  id := d.targetSession
  source := "maya-governed-candidate"
  userId := some d.principal
  parentSessionId := some d.sourceSession
  startedAt := startedAt

def ownerRow : Owner where
  sessionId := d.targetSession
  instanceId := d.instanceId
  databaseId := d.database
  principal := d.principal
  classification := d.classification
  bindingVersion := d.bindingVersion
  lifecycleStatus := .active
  parentSessionId := some d.sourceSession

def transitionRow (generation : Int) (raw : Bytes) : Transition where
  correlationId := d.correlationId
  descriptorDigest := d.digest
  principal := d.principal
  bindingVersion := d.bindingVersion
  operation := .reset
  targetSession := some d.targetSession
  expectedRouteVersion := d.expectedRouteVersion
  resultRouteVersion := d.expectedRouteVersion + 1
  state := .committedPendingProjection
  generation := generation
  projectionHash := ProjectMaya.digest raw
  policyDecisionRef := "sha256:" ++ ProjectMaya.digest (utf8 d.correlationId.toList)

/-- The records of `_audit`. -/
def outcomeRecord (operation decision : String) : AuditRecord where
  eventType := "outcome.session_reset"
  decision := decision
  reasonCode := "governance." ++ operation
  actorId := d.principal
  capability := "session.transition"
  target := "sha256:" ++ ProjectMaya.digest (utf8 d.routeSlot.toList)
  operation := operation
  dataClassification := d.classification
  metadata := [("contract", resetCallerContract), ("descriptor_digest", d.digest),
    ("qualification", "source_candidate_only")]

end ResetDescriptor

/-- The record of one policy decision of a reset or a switch. -/
def permitRecord (b : Binding) (name contract capability operation target : String)
    (descriptorDigest : Option String) (allowed : Bool) : AuditRecord where
  eventType := "authorization.session_" ++ name
  decision := if allowed then "allow" else "deny"
  reasonCode := "governance." ++ name ++ (if allowed then "_allowed" else "_denied")
  actorId := b.owner.actorId
  capability := capability
  target := "sha256:" ++ digest (utf8 target.toList)
  operation := operation
  dataClassification := b.owner.dataClassification
  metadata := [("contract", contract), ("qualification", "source_candidate_only")] ++
    (descriptorDigest.map fun d => ("descriptor_digest", d)).toList

/-- `authorize` of the reset and the switch coordinator: the policy's decision is audited
before it counts. -/
def permit (record : Bool → AuditRecord) (denied : String) : Code Unit := do
  let allowed ← renamed (.perform Act.decide) (asBoundary "governance.authorization_unavailable")
  renamed (.perform (Act.writeAudit (record allowed))) (asBoundary "governance.audit_unavailable")
  refuseIf (¬ allowed) denied

/-- One permission after the other, each followed by the authority's `check`. -/
def permitAll (permits : List (Code Unit)) (check : Code Unit) : Code Unit :=
  match permits with
  | [] => pure ()
  | p :: permits => do
    p
    check
    permitAll permits check

/-- `except (GovernanceBoundaryError, MandatoryMiddlewareError): raise` and `except
Exception: raise GovernanceBoundaryError(code)`. -/
def asRefusal (code : String) : Raised → Raised
  | .boundary code => .boundary code
  | .mandatory code => .mandatory code
  | .interrupt => .interrupt
  | _ => .boundary code

/-- The `except` clauses of `reset` and `switch`. -/
def stageError (code : String) (e : Raised) : Code Raised := do
  let attempted ← .perform (Act.peek Process.commitAttempted)
  match e with
  | .boundary code => return .boundary code
  | .interrupt => return .interrupt
  | _ => return .boundary (if attempted then "governance.transition_recovery_required" else code)

/-- `UPDATE maya_session_transitions_v1 SET state=? WHERE correlation_id=? AND
descriptor_digest=? AND state=?`. -/
def changeState (correlationId descriptorDigest : String) (source target : TransitionState) :
    Code Nat :=
  .perform (Act.execute fun db => some (db.updateState
    (fun t => t.correlationId = correlationId && t.descriptorDigest = descriptorDigest &&
      t.state = source) target))

/-- A check of the tables and the index file, as the connection sees them. -/
def inspect {α : Type} (f : Db → Bytes → Except String α) : Code α :=
  .perform (Act.query fun s l => orBoundary (f (visible s l) s.stores.index))

/-- One statement that has to change one row. -/
def executeOne (stmt : Db → Option (Db × Nat)) : Code Unit := do
  let changed ← .perform (Act.execute stmt)
  refuseIf (changed ≠ 1) "governance.transition_stale"

namespace Coordinator

variable (c : Coordinator)

def permitReset (capability operation target : String) (d : Option ResetDescriptor) : Code Unit :=
  permit (permitRecord c.binding "reset" resetContract capability operation target
    (d.map ResetDescriptor.digest)) "governance.reset_denied"

section

variable (d : ResetDescriptor)

/-- `ResetAuthority.check`. -/
def checkReset : Code Unit := do
  refuseIf (¬ d.fits c.binding) "governance.reset_context_invalid"
  ask

/-- `ResetAuthority.authorize`. -/
def authorizeReset : Code Unit := do
  c.checkReset d
  permitAll [
    c.permitReset "session.read" "route_state" d.routeSlot (some d),
    c.permitReset "session.transition" "reset" d.routeSlot (some d),
    c.permitReset "session.write" "end" d.sourceSession (some d),
    c.permitReset "session.write" "create" d.targetSession (some d)] (c.checkReset d)

end

/-- `source(conn)`. -/
def source : Code ResetSource :=
  .perform (Act.query fun s l =>
    if l.tx.isSome || !l.foreignKeys then .error (.boundary "governance.transition_store_invalid")
    else orBoundary (resetSource c (visible s l) s.stores.index))

/-- `source(conn, True)`. -/
def sourceInTransaction : Code ResetSource := inspect fun db index => resetSource c db index

variable (call : ResetCall)

/-- The descriptor that the host makes of its source. -/
def resetDescriptor (source : ResetSource) : ResetDescriptor where
  instanceId := c.binding.instanceId
  database := c.binding.database
  principal := c.binding.owner.actorId
  classification := c.binding.owner.dataClassification
  bindingVersion := c.binding.bindingVersion
  routeSlot := c.binding.routeSlot
  sourceSession := source.session
  targetSession := call.targetSession
  expectedRouteVersion := source.version
  requestId := call.requestId
  correlationId := call.correlationId

/-- The entry of `authenticated_reset(identity)`. -/
def authenticatedReset (identity : RequestIdentity) : Code ResetDescriptor :=
  renamed (do
    ask
    refuseIf (identity ≠ c.binding.owner) "governance.reset_context_invalid"
    exclusive (do
      ask
      c.permitReset "session.read" "route_state" c.binding.routeSlot none
      let source ← c.source
      let d := c.resetDescriptor call source
      c.authorizeReset d
      return d)) (asRefusal "governance.reset_store_failed")

variable (d : ResetDescriptor)

/-- The transaction of `reset`, after the first look at its source. -/
def stageReset (first : ResetSource) : Code Unit := do
  let now ← c.sourceInTransaction
  let known ← select fun db => db.hasSession d.targetSession ||
    (db.transitions.find? d.correlationId).isSome
  refuseIf (now.generation ≠ first.generation ∨ now.raw ≠ first.raw ∨
    now.session ≠ d.sourceSession ∨ now.version ≠ d.expectedRouteVersion ∨
    first.session ≠ now.session ∨ first.version ≠ now.version ∨ known)
    "governance.transition_stale"
  let raw := projectionBytes d.instanceId d.database (now.generation + 1)
    (now.routes.set d.routeSlot ⟨d.targetSession, now.version + 1⟩)
  executeOne fun db => some (db.endSession now.session call.endedAt "session_reset")
  executeOne fun db => some (db.setLifecycle now.session .active .ended)
  .perform (Act.execute fun db => (db.insertSession (d.sessionRow call.startedAt)).map (·, ()))
  .perform (Act.execute fun db => (db.insertOwner d.ownerRow).map (·, ()))
  executeOne fun db => db.moveRoute (fun r => r.routeSlot = d.routeSlot &&
    r.sessionId = now.session && r.routeVersion = now.version && r.principal = d.principal)
    d.targetSession (now.version + 1) d.correlationId
  .perform (Act.execute fun db =>
    (db.insertTransition (d.transitionRow (now.generation + 1) raw)).map (·, ()))
  executeOne fun db => some (db.updateProjection (now.generation + 1) (digest raw) now.generation)
  c.authorizeReset d
  .perform (Act.assign fun l => { l with commitAttempted := true })
  .perform (Act.commit .stage)

/-- `reset(store, authority)`. -/
def reset : Code Unit := do
  ask
  .perform (Act.assign fun l => { l with commitAttempted := false })
  Prog.mapError (exclusive (do
    c.authorizeReset d
    let first ← c.source
    transaction (c.stageReset call d first))) (stageError "governance.reset_store_failed")

/-- `CandidateResetPreparation._bound`.  The question is `require`. -/
def boundReset (expected : TransitionState) (projection : Bool) : Code Bytes := do
  ask
  checked (resetBound c d expected projection)

def auditReset (operation decision : String) : Code Unit :=
  renamed (.perform (Act.writeAudit (d.outcomeRecord operation decision)))
    (asBoundary "governance.reset_audit_unavailable")

/-- `_change(authority, old, new)`. -/
def changeReset (purpose : Purpose) (old new : TransitionState) : Code Unit := do
  c.checkReset d
  transaction (do
    let _ ← c.boundReset d old true
    let changed ← changeState d.correlationId d.digest old new
    refuseIf (changed ≠ 1) "governance.reset_receipt_invalid"
    c.checkReset d
    .perform (Act.commit purpose))

/-- `_publish(authority)`. -/
def publishReset : Code Unit :=
  exclusive (do
    c.authorizeReset d
    let raw ← c.boundReset d .committedPendingProjection false
    publish .overlay raw
    c.checkReset d
    c.changeReset d .verify .committedPendingProjection .projectionVerified
    c.permitReset "session.transition" "reset" d.routeSlot (some d)
    c.checkReset d
    auditReset d "reset_published" "allow"
    c.checkReset d
    c.changeReset d .settle .projectionVerified .publishedPendingCaller)

/-- `_acknowledge(authority)`.  The question after the first `_bound` is
`_clear_owned_reset_security_candidate`. -/
def acknowledgeReset : Code ResetConfirmation := do
  let current ← .perform (Act.peek fun l =>
    l.memory.resetPhase = .acknowledging && l.memory.resetCurrent = some d)
  refuseIf (¬ current) "governance.reset_caller_invalid"
  exclusive (do
    c.checkReset d
    let _ ← c.boundReset d .publishedPendingCaller true
    ask
    c.checkReset d
    c.permitReset "session.transition" "acknowledge_reset" d.routeSlot (some d)
    c.checkReset d
    auditReset d "acknowledge_reset" "allow"
    c.checkReset d
    c.changeReset d .acknowledge .publishedPendingCaller .callerAcknowledged
    let _ ← c.boundReset d .callerAcknowledged true
    inspect fun db _ => resetConfirmation c.binding d.targetSession db)

/-- The loop of `_quarantine` over the states in which the receipt may be. -/
def quarantineReset (states : List TransitionState) : Code Unit :=
  match states with
  | [] => pure ()
  | state :: states => do
    let found ← attempt (c.boundReset d state true)
    if found.isNone then quarantineReset states else
      transaction (do
        let _ ← c.boundReset d state true
        let changed ← changeState d.correlationId d.digest state .callerQuarantined
        refuseIf (changed ≠ 1) "governance.reset_cleanup_invalid"
        .perform (Act.commit .quarantine))

/-- `_quarantine(authority)`. -/
def cleanReset : Code Unit := do
  let current ← .perform (Act.peek fun l =>
    l.memory.resetPhase = .failed && l.memory.resetCurrent = some d)
  refuseIf (¬ current) "governance.reset_cleanup_invalid"
  let _ ← attempt (auditReset d "quarantine_reset" "deny")
  exclusive (c.quarantineReset d [.publishedPendingCaller, .callerAcknowledged])

/-- The preparation while it holds its receipt: the question is the caller's body. -/
def preparingReset : Code ResetConfirmation :=
  Prog.onError (do
    ask
    .perform (Act.remember fun m => { m with resetPhase := .acknowledging })
    c.acknowledgeReset d) (do
    .perform (Act.remember fun m => { m with resetPhase := .failed })
    swallow (c.cleanReset d))

/-- The `try` block of `prepare`. -/
def runReset (identity : RequestIdentity) : Code (PreparedReceipt × ResetConfirmation) := do
  .perform (Act.remember fun m => { m with resetConfirmed := none })
  let d ← c.authenticatedReset call identity
  renamed (c.reset call d) (asMandatory "session_reset_failed")
  c.publishReset d
  .perform (Act.remember fun m => { m with resetCurrent := some d, resetPhase := .preparing })
  let confirmation ← c.preparingReset d
  return (⟨d.targetSession, d.sourceSession, .publishedPendingCaller, false⟩, confirmation)

/-- `prepare(store, identity)`.  The questions are `require` and the registration, and the
locks of the process. -/
def prepareReset (identity : RequestIdentity) : Code PreparedReceipt := do
  ask
  ask
  let (receipt, confirmation) ← Prog.ensuring
    (Prog.onError (c.runReset call identity)
      (.perform (Act.remember fun m => { m with resetConfirmed := none })))
    (.perform (Act.remember fun m => { m with resetCurrent := none, resetPhase := .idle }))
  .perform (Act.remember fun m => { m with resetConfirmed := some confirmation })
  return receipt

end Coordinator

end ProjectMaya
