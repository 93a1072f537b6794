import ProjectMaya.Readers
import ProjectMaya.Reset

/-! # `CandidateNativeSessionSwitch` and `CandidateSwitchPreparation`

A switch ends the reset session of a slot and makes its parent, the created session, the
slot's session again.  It has the shape of a reset: `switch` stages the rows, and
`prepareSwitch` publishes, acknowledges or quarantines them; a switch is only offered to the
process whose own reset is confirmed (`requireResetConfirmation`). -/

namespace ProjectMaya

open Logic

def switchCallerContract : String := "project-maya.switch-caller-acknowledgement.v1"

/-- The values of `uuid4().hex` and `time()` in one call. -/
structure SwitchCall where
  requestId : String
  correlationId : String
  endedAt : Int
  deriving DecidableEq, Repr

/-- The values that `source` reads. -/
structure SwitchSource where
  generation : Int
  routes : Routes
  raw : Bytes
  source : String
  target : String
  correlation : String
  deriving DecidableEq, Repr

namespace SwitchDescriptor

variable (d : SwitchDescriptor)

/-- What `check` asks of the descriptor. -/
def fits (b : Binding) : Bool :=
  d.contract = switchContract && d.operation = "switch" && d.instanceId = b.instanceId &&
    d.database = b.database && d.principal = b.owner.actorId &&
    d.classification = b.owner.dataClassification && d.bindingVersion = b.bindingVersion &&
    d.targetBindingVersion = b.bindingVersion && d.routeSlot = b.routeSlot &&
    d.expectedRouteVersion = 2 && d.sourceSession ≠ d.targetSession

def transitionRow (generation : Int) (raw : Bytes) : Transition where
  correlationId := d.correlationId
  descriptorDigest := d.digest
  principal := d.principal
  bindingVersion := d.bindingVersion
  operation := .switch
  targetSession := some d.targetSession
  expectedRouteVersion := 2
  resultRouteVersion := 3
  state := .committedPendingProjection
  generation := generation
  projectionHash := ProjectMaya.digest raw
  policyDecisionRef := "sha256:" ++ ProjectMaya.digest (utf8 d.correlationId.toList)

/-- The records of `_audit`. -/
def outcomeRecord (operation decision : String) : AuditRecord where
  eventType := "outcome.session_switch"
  decision := decision
  reasonCode := "governance." ++ operation
  actorId := d.principal
  capability := "session.transition"
  target := "sha256:" ++ ProjectMaya.digest (utf8 d.routeSlot.toList)
  operation := operation
  dataClassification := d.classification
  metadata := [("contract", switchCallerContract), ("descriptor_digest", d.digest),
    ("qualification", "source_candidate_only")]

end SwitchDescriptor

/-- `CandidateResetPreparation.require_confirmation`, after its checks of the host. -/
def resetConfirmed (b : Binding) (m : Memory) (target : String) (db : Db) : Except String Unit := do
  let code := "governance.reset_confirmation_required"
  ensure (m.resetPhase = .idle ∧ m.resetCurrent = none) code
  let confirmed ← fetch m.resetConfirmed code
  let found ← resetConfirmation b target db
  ensure (confirmed = found) code

/-- `CandidateSwitchPreparation.require_confirmation`, after its checks of the host. -/
def switchConfirmed (b : Binding) (m : Memory) (target : String) (db : Db) :
    Except String Unit := do
  let code := "governance.switch_confirmation_required"
  ensure (m.switchPhase = .idle ∧ m.switchCurrent = none) code
  let confirmed ← fetch m.switchConfirmed code
  let found ← switchConfirmation b target db
  ensure (confirmed = found) code

/-- The source is still the one of the descriptor. -/
def SwitchSource.agrees (s : SwitchSource) (d : SwitchDescriptor) : Bool :=
  s.source = d.sourceSession && s.target = d.targetSession &&
    s.correlation = d.priorResetCorrelation

namespace Coordinator

variable (c : Coordinator)

def permitSwitch (capability operation target : String) (d : Option SwitchDescriptor) : Code Unit :=
  permit (permitRecord c.binding "switch" switchContract capability operation target
    (d.map SwitchDescriptor.digest)) "governance.switch_denied"

section

variable (d : SwitchDescriptor)

/-- `SwitchAuthority.check`. -/
def checkSwitch : Code Unit := do
  refuseIf (¬ d.fits c.binding) "governance.switch_context_invalid"
  ask

/-- `SwitchAuthority.authorize`. -/
def authorizeSwitch : Code Unit := do
  c.checkSwitch d
  permitAll [
    c.permitSwitch "session.read" "route_state" d.routeSlot (some d),
    c.permitSwitch "session.read" "transition_state" d.sourceSession (some d),
    c.permitSwitch "session.read" "transition_state" d.targetSession (some d),
    c.permitSwitch "session.transition" "switch" d.routeSlot (some d),
    c.permitSwitch "session.write" "end" d.sourceSession (some d),
    c.permitSwitch "session.write" "reopen" d.targetSession (some d)] (c.checkSwitch d)

end

/-- `require_confirmation(reader, target)` of the reset preparation.  The question is the
registration of the objects. -/
def requireResetConfirmation (target : String) : Code Unit := do
  ask
  .perform (Act.query fun s l =>
    orBoundary (resetConfirmed c.binding l.memory target (visible s l)))

/-- `require_confirmation(reader, target)` of the switch preparation. -/
def requireSwitchConfirmation (target : String) : Code Unit := do
  ask
  .perform (Act.query fun s l =>
    orBoundary (switchConfirmed c.binding l.memory target (visible s l)))

/-- `source(conn, in_transaction)`, where `state` is the check of the tables.  The question
is `require`. -/
def switchSource (state : Code (Int × Routes × Bytes)) : Code SwitchSource := do
  ask
  let (generation, routes, raw) ← state
  let index ← readIndex
  let pending ← select Db.unacknowledged
  refuseIf (index ≠ raw ∨ pending) "governance.transition_recovery_required"
  let route ← require (routes.get? c.binding.routeSlot) "governance.switch_source_invalid"
  refuseIf (route.version ≠ 2) "governance.switch_source_invalid"
  c.permitSwitch "session.read" "transition_state" route.sessionId none
  let parent ← select fun db => (db.sessions.find? route.sessionId).bind Session.parentSessionId
  let parent ← require (parent.filter (· ≠ "")) "governance.switch_source_invalid"
  c.permitSwitch "session.read" "transition_state" parent none
  let target ← inspect fun db _ =>
    validateResetLineage c.binding route.sessionId .callerAcknowledged db
  c.requireResetConfirmation route.sessionId
  let row ← select fun db => (db.routes.find? c.binding.routeSlot).filter fun r =>
    r.principal = c.binding.owner.actorId
  let row ← require row "governance.switch_source_invalid"
  refuseIf (target ≠ parent) "governance.switch_source_invalid"
  return { generation, routes, raw, source := route.sessionId, target
           correlation := row.correlationId }

variable (call : SwitchCall)

/-- The descriptor that the host makes of its source. -/
def switchDescriptor (source : SwitchSource) : SwitchDescriptor where
  instanceId := c.binding.instanceId
  database := c.binding.database
  principal := c.binding.owner.actorId
  classification := c.binding.owner.dataClassification
  bindingVersion := c.binding.bindingVersion
  targetBindingVersion := c.binding.bindingVersion
  routeSlot := c.binding.routeSlot
  sourceSession := source.source
  targetSession := source.target
  expectedRouteVersion := 2
  priorResetCorrelation := source.correlation
  requestId := call.requestId
  correlationId := call.correlationId

/-- The entry of `authenticated_switch(identity, target_session)`. -/
def authenticatedSwitch (identity : RequestIdentity) (target : String) : Code SwitchDescriptor :=
  renamed (do
    ask
    refuseIf (identity ≠ c.binding.owner) "governance.switch_context_invalid"
    exclusive (do
      ask
      c.permitSwitch "session.read" "route_state" c.binding.routeSlot none
      let source ← c.switchSource c.state
      refuseIf (target ≠ source.target) "governance.switch_target_invalid"
      let d := c.switchDescriptor call source
      c.authorizeSwitch d
      return d)) (asRefusal "governance.switch_store_failed")

variable (d : SwitchDescriptor)

/-- The statements of a switch, in their order. -/
def switchRows (now : SwitchSource) (raw : Bytes) : Code Unit := do
  executeOne fun db => some (db.endSession now.source call.endedAt "session_switch")
  executeOne fun db => some (db.reopenSession now.target)
  executeOne fun db => some (db.setLifecycle now.source .active .ended)
  executeOne fun db => some (db.setLifecycle now.target .ended .active)
  executeOne fun db => db.moveRoute (fun r => r.routeSlot = d.routeSlot &&
    r.sessionId = now.source && r.routeVersion = 2 && r.principal = d.principal &&
    r.correlationId = now.correlation) now.target 3 d.correlationId
  .perform (Act.execute fun db =>
    (db.insertTransition (d.transitionRow (now.generation + 1) raw)).map (·, ()))
  executeOne fun db => some (db.updateProjection (now.generation + 1) (digest raw) now.generation)

/-- The last check of a switch before its commit: the tables are consistent, and the two
sessions have changed places. -/
def switchedRows (now : SwitchSource) (raw : Bytes) : Code Unit := do
  let (generation, routes, finalRaw) ← c.stateInTransaction
  refuseIf (generation ≠ now.generation + 1 ∨ finalRaw ≠ raw ∨
    routes.get? d.routeSlot ≠ some ⟨now.target, 3⟩) "governance.transition_stale"
  let ended ← select fun db => (db.sessions.find? now.source).filter (·.endedAt.isSome)
  -- `fetchone()[0]` of no row is a `TypeError`
  let ended ← match ended with
    | some s => pure s
    | none => .raise .failure
  let reopened ← select fun db => (db.sessions.find? now.target).filter fun s =>
    s.endedAt.isNone && s.endReason.isNone
  refuseIf (ended.endReason ≠ some "session_switch" ∨ reopened = none)
    "governance.transition_stale"

/-- The transaction of `switch`, after the first look at its source. -/
def stageSwitch (first : SwitchSource) : Code Unit := do
  let now ← c.switchSource c.stateInTransaction
  let known ← select fun db => (db.routes.rows.any fun r => r.sessionId = first.target) ||
    (db.transitions.find? d.correlationId).isSome
  refuseIf (now.generation ≠ first.generation ∨ now.raw ≠ first.raw ∨
    first.source ≠ now.source ∨ first.target ≠ now.target ∨
    first.correlation ≠ now.correlation ∨ ¬ first.agrees d ∨ known)
    "governance.transition_stale"
  let raw := projectionBytes d.instanceId d.database (now.generation + 1)
    (now.routes.set d.routeSlot ⟨now.target, 3⟩)
  switchRows call d now raw
  c.authorizeSwitch d
  ask
  c.checkSwitch d
  c.switchedRows d now raw
  .perform (Act.assign fun l => { l with commitAttempted := true })
  .perform (Act.commit .stage)

/-- `switch(store, authority)`. -/
def switch : Code Unit := do
  ask
  .perform (Act.assign fun l => { l with commitAttempted := false })
  Prog.mapError (exclusive (do
    c.authorizeSwitch d
    let first ← c.switchSource c.state
    transaction (c.stageSwitch call d first))) (stageError "governance.switch_store_failed")

/-- `CandidateSwitchPreparation._bound`.  The question is `_registered` and `require`. -/
def boundSwitch (expected : TransitionState) (projection : Bool) : Code Bytes := do
  ask
  let history ← .perform (Act.peek fun l => l.memory.switchHistory)
  checked (switchBound c d history expected projection)

def auditSwitch (operation decision : String) : Code Unit :=
  renamed (.perform (Act.writeAudit (d.outcomeRecord operation decision)))
    (asBoundary "governance.switch_audit_unavailable")

/-- `_change(authority, old, new)`. -/
def changeSwitch (purpose : Purpose) (old new : TransitionState) : Code Unit := do
  c.checkSwitch d
  transaction (do
    let _ ← c.boundSwitch d old true
    let changed ← changeState d.correlationId d.digest old new
    refuseIf (changed ≠ 1) "governance.switch_receipt_invalid"
    c.checkSwitch d
    .perform (Act.commit purpose))

/-- `_publish(authority)`. -/
def publishSwitch : Code Unit :=
  exclusive (do
    c.authorizeSwitch d
    let raw ← c.boundSwitch d .committedPendingProjection false
    publish .overlay raw
    c.checkSwitch d
    c.changeSwitch d .verify .committedPendingProjection .projectionVerified
    c.permitSwitch "session.transition" "switch" d.routeSlot (some d)
    c.checkSwitch d
    auditSwitch d "switch_published" "allow"
    c.checkSwitch d
    c.changeSwitch d .settle .projectionVerified .publishedPendingCaller)

/-- `_clear_owned_switch_security_candidate`: its questions are the registration and the
state of the route, and it notes whose cleanup it was. -/
def clearSwitchSecurity : Code Unit := do
  ask
  .perform (Act.remember fun m => { m with switchCleanup := m.switchCurrent })

/-- `_acknowledge(authority)`. -/
def acknowledgeSwitch : Code SwitchConfirmation := do
  let current ← .perform (Act.peek fun l =>
    l.memory.switchPhase = .acknowledging && l.memory.switchCurrent = some d)
  refuseIf (¬ current) "governance.switch_caller_invalid"
  exclusive (do
    c.checkSwitch d
    let _ ← c.boundSwitch d .publishedPendingCaller true
    c.permitSwitch "session.transition" "acknowledge_switch" d.routeSlot (some d)
    c.checkSwitch d
    clearSwitchSecurity
    let cleanup ← .perform (Act.peek fun l => l.memory.switchCleanup)
    refuseIf (cleanup ≠ some d) "governance.switch_cleanup_incomplete"
    c.checkSwitch d
    auditSwitch d "acknowledge_switch" "allow"
    c.checkSwitch d
    c.changeSwitch d .acknowledge .publishedPendingCaller .callerAcknowledged
    let _ ← c.boundSwitch d .callerAcknowledged true
    inspect fun db _ => switchConfirmation c.binding d.targetSession db)

/-- The loop of `_quarantine` over the states in which the receipt may be. -/
def quarantineSwitch (states : List TransitionState) : Code Unit :=
  match states with
  | [] => pure ()
  | state :: states => do
    let found ← attempt (c.boundSwitch d state true)
    if found.isNone then quarantineSwitch states else
      transaction (do
        let _ ← c.boundSwitch d state true
        let changed ← changeState d.correlationId d.digest state .callerQuarantined
        refuseIf (changed ≠ 1) "governance.switch_cleanup_invalid"
        .perform (Act.commit .quarantine))

/-- `_quarantine(authority)`. -/
def cleanSwitch : Code Unit := do
  let current ← .perform (Act.peek fun l =>
    l.memory.switchPhase = .failed && l.memory.switchCurrent = some d)
  refuseIf (¬ current) "governance.switch_cleanup_invalid"
  let _ ← attempt (auditSwitch d "quarantine_switch" "deny")
  exclusive (c.quarantineSwitch d [.publishedPendingCaller, .callerAcknowledged])

/-- The preparation while it holds its receipt: the question is the caller's body. -/
def preparingSwitch : Code SwitchConfirmation :=
  Prog.onError (do
    ask
    .perform (Act.remember fun m => { m with switchPhase := .acknowledging })
    c.acknowledgeSwitch d) (do
    .perform (Act.remember fun m => { m with switchPhase := .failed })
    swallow (c.cleanSwitch d))

/-- `prepare` captures the receipts of the create and the reset before the rows change. -/
def captureHistory : Code Unit :=
  exclusive (do
    c.authorizeSwitch d
    let source ← c.switchSource c.state
    refuseIf (¬ source.agrees d) "governance.switch_receipt_invalid"
    let history ← inspect fun db _ => switchHistory source.source source.target db
    .perform (Act.remember fun m => { m with switchHistory := some history }))

/-- The `try` block of `prepare`. -/
def runSwitch (identity : RequestIdentity) (target : String) :
    Code (PreparedReceipt × SwitchConfirmation) := do
  .perform (Act.remember fun m => { m with switchConfirmed := none, switchCleanup := none })
  let d ← c.authenticatedSwitch call identity target
  c.captureHistory d
  renamed (c.switch call d) (asMandatory "session_switch_failed")
  c.publishSwitch d
  .perform (Act.remember fun m => { m with switchCurrent := some d, switchPhase := .preparing })
  let confirmation ← c.preparingSwitch d
  return (⟨d.targetSession, d.sourceSession, .publishedPendingCaller, false⟩, confirmation)

/-- `prepare(store, identity, target)`.  The questions are `_registered` and `require`, and
the locks of the process. -/
def prepareSwitch (identity : RequestIdentity) (target : String) : Code PreparedReceipt := do
  ask
  ask
  let (receipt, confirmation) ← Prog.ensuring
    (Prog.onError (c.runSwitch call identity target)
      (.perform (Act.remember fun m => { m with switchConfirmed := none })))
    (.perform (Act.remember fun m => { m with
      switchCurrent := none, switchPhase := .idle, switchHistory := none, switchCleanup := none }))
  .perform (Act.remember fun m => { m with switchConfirmed := some confirmation })
  return receipt

end Coordinator

end ProjectMaya
