import ProjectMaya.Machine

/-! # `CandidateNativeSessionCreate.create`

The create coordinator as the code runs it: the first transaction stages the rows and
commits them as `committed_pending_projection`, the index file is replaced, a second
transaction records `projection_verified`, the outcome is audited, and a third
transaction records the final state. -/

namespace ProjectMaya

open Logic

/-! ## The rows of one create -/

namespace CreateSessionDescriptor

variable (d : CreateSessionDescriptor)

def sessionRow (owner : RequestIdentity) (now : Int) : Session where
  id := d.targetSession
  source := "maya-governed-candidate"
  userId := some owner.actorId
  startedAt := now

def ownerRow : Owner where
  sessionId := d.targetSession
  instanceId := d.instanceId
  databaseId := d.database
  principal := d.principal
  classification := d.classification
  bindingVersion := d.bindingVersion
  lifecycleStatus := .active

def routeRow : RouteRow where
  routeSlot := d.routeSlot
  principal := d.principal
  sessionId := d.targetSession
  routeVersion := 1
  correlationId := d.correlationId

def transitionRow (generation : Int) (raw : Bytes) : Transition where
  correlationId := d.correlationId
  descriptorDigest := d.digest
  principal := d.principal
  bindingVersion := d.bindingVersion
  operation := .create
  targetSession := some d.targetSession
  expectedRouteVersion := 0
  resultRouteVersion := 1
  state := .committedPendingProjection
  generation := generation
  projectionHash := ProjectMaya.digest raw
  policyDecisionRef := "sha256:" ++ ProjectMaya.digest (utf8 d.correlationId.toList)

/-- The record of the outcome audit. -/
def outcomeRecord (owner : RequestIdentity) : AuditRecord where
  eventType := "outcome.session_transition"
  decision := "allow"
  reasonCode := "governance.transition_published"
  actorId := owner.actorId
  capability := "session.transition"
  target := "sha256:" ++ ProjectMaya.digest (utf8 d.routeSlot.toList)
  operation := "create"
  dataClassification := owner.dataClassification
  idempotencyKey := some ("sha256:" ++ ProjectMaya.digest (utf8 d.correlationId.toList))
  metadata := [("contract", createContract), ("qualification", "source_candidate_only")]

end CreateSessionDescriptor

structure Receipt where
  sessionId : String
  correlationId : String
  state : TransitionState
  dispatchAllowed : Bool := false
  deriving DecidableEq, Repr

/-- One call of `create`: the authority's descriptor and the time of `time()`. -/
structure CreateCall where
  descriptor : CreateSessionDescriptor
  now : Int
  deriving DecidableEq, Repr

namespace Coordinator

variable (c : Coordinator) (pf : Profile) (call : CreateCall)

/-- A call of the authority (`begin_attempt`, `authorize`, `commit_guard`,
`publication_guard`, `_check`): the descriptor has to fit the binding, and everything else
it looks at may refuse. -/
def authority : Code Unit := do
  refuseIf (¬ (call.descriptor.wellFormed ∧ c.binding.limitsKept c.binding.owner call.descriptor))
    "governance.transition_context_invalid"
  ask

/-- The projection bytes after the create. -/
def newBytes (generation : Int) (routes : Routes) : Bytes :=
  projectionBytes c.binding.instanceId c.binding.database (generation + 1)
    (routes.set call.descriptor.routeSlot ⟨call.descriptor.targetSession, 1⟩)

/-- The body of the first transaction. -/
def stage (generation : Int) (oldRaw : Bytes) : Code Bytes := do
  let d := call.descriptor
  let (current, routes, raw) ← c.stateInTransaction
  refuseIf (current ≠ generation ∨ raw ≠ oldRaw ∨ (routes.get? d.routeSlot).isSome)
    "governance.transition_stale"
  let replay ← select fun db => (db.transitions.find? d.correlationId).isSome
  refuseIf replay "governance.transition_replay"
  let raw := c.newBytes call generation routes
  .perform (Act.execute fun db => (db.insertSession (d.sessionRow c.binding.owner call.now)).map (·, ()))
  .perform (Act.execute fun db => (db.insertOwner d.ownerRow).map (·, ()))
  .perform (Act.execute fun db => (db.insertRoute d.routeRow).map (·, ()))
  .perform (Act.execute fun db => (db.insertTransition (d.transitionRow (generation + 1) raw)).map (·, ()))
  let changed ← .perform (Act.execute fun db =>
    some (db.updateProjection (generation + 1) (digest raw) generation))
  refuseIf (changed ≠ 1) "governance.transition_stale"
  c.authority call
  .perform (Act.assign fun l => { l with commitAttempted := true })
  .perform (Act.commit .stage)
  .perform (Act.assign fun l => { l with committed := true })
  return raw

/-- The tables and the index still are what the create made them. -/
def recheck (generation : Int) (raw : Bytes) : Code Unit := do
  let (current, _, currentRaw) ← c.stateInTransaction
  let index ← readIndex
  refuseIf (current ≠ generation + 1 ∨ currentRaw ≠ raw ∨ index ≠ raw)
    "governance.transition_projection_invalid"

/-- `UPDATE … SET state=to WHERE correlation_id=? AND state=from`. -/
def moveState (source target : TransitionState) : Code Nat :=
  .perform (Act.execute fun db => some (db.updateState
    (fun t => t.correlationId = call.descriptor.correlationId && t.state = source) target))

/-- The body of the second transaction. -/
def verifyProjection (generation : Int) (raw : Bytes) : Code Unit := do
  c.recheck generation raw
  c.authority call
  let _ ← moveState call .committedPendingProjection .projectionVerified
  .perform (Act.commit .verify)

/-- The body of the third transaction. -/
def settle (generation : Int) (raw : Bytes) : Code Unit := do
  c.recheck generation raw
  let changed ← moveState call .projectionVerified pf.final
  refuseIf (changed ≠ 1) "governance.transition_recovery_required"
  .perform (Act.commit .settle)

/-- `create` under the projection lock. -/
def createBody : Code Receipt := do
  c.authority call
  let (generation, _, oldRaw) ← c.state
  let index ← readIndex
  refuseIf (index ≠ oldRaw) "governance.transition_recovery_required"
  let unsettled ← select fun db => db.transitions.rows.any fun t => t.state ≠ pf.settled
  refuseIf unsettled "governance.transition_recovery_required"
  let raw ← transaction (c.stage call generation oldRaw)
  c.authority call
  publish pf raw
  transaction (c.verifyProjection call generation raw)
  renamed (.perform (Act.writeAudit (call.descriptor.outcomeRecord c.binding.owner)))
    (asBoundary "governance.transition_audit_pending")
  c.authority call
  transaction (c.settle pf call generation raw)
  return { sessionId := call.descriptor.targetSession
           correlationId := call.descriptor.correlationId, state := pf.final }

/-- The `except` clauses of `create`. -/
def createError (e : Raised) : Code Raised := do
  let attempted ← .perform (Act.peek fun l => l.committed || l.commitAttempted)
  match e with
  | .boundary code => return .boundary code
  | .interrupt => return .interrupt
  | _ => return .boundary (if attempted then "governance.transition_recovery_required"
      else "governance.transition_store_failed")

/-- `create(store, authority)`. -/
def create : Code Receipt := do
  ask
  .perform (Act.assign fun l => { l with committed := false, commitAttempted := false })
  Prog.mapError (do
    c.authority call
    exclusive (c.createBody pf call)) createError

end Coordinator

end ProjectMaya
