import ProjectMaya.Create

/-! # `CandidateCallerPreparation.prepare`

With the caller overlay a create ends as `published_pending_caller`.  The preparation runs
the caller's body, and then acknowledges the transition in a transaction of its own; when
anything fails after the create, it quarantines the transition instead, if it can. -/

namespace ProjectMaya

open Logic

def callerContract : String := "project-maya.create-caller-acknowledgement.v1"

namespace Transition

/-- The transition is the receipt that a descriptor, a state and a projection make. -/
structure IsReceipt (t : Transition) (digest principal : String) (bindingVersion : Int)
    (operation : Operation) (target : String) (version : Int) (st : TransitionState)
    (g : Int) (raw : Bytes) : Prop where
  digest : t.descriptorDigest = digest
  principal : t.principal = principal
  bindingVersion : t.bindingVersion = bindingVersion
  operation : t.operation = operation
  target : t.targetSession = some target
  expected : t.expectedRouteVersion = version
  result : t.resultRouteVersion = version + 1
  state : t.state = st
  generation : t.generation = g
  hash : t.projectionHash = ProjectMaya.digest raw

instance (t : Transition) (digest principal : String) (bindingVersion : Int)
    (operation : Operation) (target : String) (version : Int) (st : TransitionState) (g : Int)
    (raw : Bytes) : Decidable (t.IsReceipt digest principal bindingVersion operation target
      version st g raw) :=
  decidable_of_iff (t.descriptorDigest = digest ∧ t.principal = principal ∧
      t.bindingVersion = bindingVersion ∧ t.operation = operation ∧
      t.targetSession = some target ∧ t.expectedRouteVersion = version ∧
      t.resultRouteVersion = version + 1 ∧ t.state = st ∧ t.generation = g ∧
      t.projectionHash = ProjectMaya.digest raw)
    ⟨fun ⟨h1, h2, h3, h4, h5, h6, h7, h8, h9, h10⟩ => ⟨h1, h2, h3, h4, h5, h6, h7, h8, h9, h10⟩,
      fun ⟨h1, h2, h3, h4, h5, h6, h7, h8, h9, h10⟩ => ⟨h1, h2, h3, h4, h5, h6, h7, h8, h9, h10⟩⟩

end Transition

/-- Every other transition is acknowledged. -/
def Db.othersAcknowledged (db : Db) (correlationId : String) : Bool :=
  db.transitions.rows.all fun t =>
    t.correlationId = correlationId || t.state = .callerAcknowledged

/-- `_bound` of the caller preparation, after its checks of the host. -/
def callerBound (c : Coordinator) (d : CreateSessionDescriptor) (expected : TransitionState)
    (db : Db) (index : Bytes) : Except String Unit := do
  let (generation, routes, raw) ← stateInTransaction c db
  let row := db.transitions.find? d.correlationId
  let route := db.routes.find? d.routeSlot
  if row.any (·.IsReceipt d.digest d.principal d.bindingVersion .create d.targetSession 0 expected
        generation raw) &&
      routes.get? d.routeSlot = some ⟨d.targetSession, 1⟩ &&
      route.any (·.correlationId = d.correlationId) && index = raw &&
      db.othersAcknowledged d.correlationId then
    .ok ()
  else .error "governance.caller_receipt_invalid"

namespace CreateSessionDescriptor

/-- The records of `_audit`. -/
def callerRecord (d : CreateSessionDescriptor) (operation decision : String) : AuditRecord where
  eventType := "authorization.create_caller"
  decision := decision
  reasonCode := "governance.caller_" ++ operation ++ "_" ++ decision
  actorId := d.principal
  capability := "session.transition"
  target := "sha256:" ++ ProjectMaya.digest (utf8 d.routeSlot.toList)
  operation := operation
  dataClassification := d.classification
  idempotencyKey := some ("sha256:" ++ ProjectMaya.digest (utf8 d.correlationId.toList))
  metadata := [("contract", callerContract), ("qualification", "source_candidate_only")]

end CreateSessionDescriptor

namespace Coordinator

variable (c : Coordinator) (call : CreateCall)

/-- `_bound(conn, descriptor, expected)`.  The question is `_require`. -/
def bound (expected : TransitionState) : Code Unit := do
  ask
  refuseIf (¬ c.binding.limitsKept c.binding.owner call.descriptor)
    "governance.caller_binding_invalid"
  checked (callerBound c call.descriptor expected)

def auditCaller (operation decision : String) : Code Unit :=
  renamed (.perform (Act.writeAudit (call.descriptor.callerRecord operation decision)))
    (asBoundary "governance.caller_audit_unavailable")

/-- `UPDATE … SET state=target WHERE correlation_id=? AND descriptor_digest=? AND
state='published_pending_caller'`. -/
def moveReceipt (target : TransitionState) : Code Nat :=
  .perform (Act.execute fun db => some (db.updateState
    (fun t => t.correlationId = call.descriptor.correlationId &&
      t.descriptorDigest = call.descriptor.digest && t.state = .publishedPendingCaller) target))

/-- The transaction of `_acknowledge`. -/
def commitAcknowledge : Code Unit := do
  c.bound call .publishedPendingCaller
  c.authority call
  let changed ← moveReceipt call .callerAcknowledged
  refuseIf (changed ≠ 1) "governance.caller_receipt_invalid"
  .perform (Act.commit .acknowledge)

/-- `_acknowledge` under the projection lock. -/
def acknowledgeBody : Code Unit := do
  c.authority call
  c.bound call .publishedPendingCaller
  let allowed ← renamed (.perform Act.decide) (asBoundary "governance.caller_policy_unavailable")
  c.authority call
  auditCaller call "acknowledge_create" (if allowed then "allow" else "deny")
  refuseIf (¬ allowed) "governance.caller_ack_denied"
  transaction (c.commitAcknowledge call)

/-- `_acknowledge(authority)`. -/
def acknowledge : Code Unit := do
  let current ← .perform (Act.peek fun l =>
    l.memory.callerPhase = .acknowledging && l.memory.callerCurrent = some call.descriptor)
  refuseIf (¬ current) "governance.caller_scope_invalid"
  exclusive (c.acknowledgeBody call)

/-- The transaction of `_quarantine`. -/
def commitQuarantine : Code Unit := do
  c.bound call .publishedPendingCaller
  let changed ← moveReceipt call .callerQuarantined
  refuseIf (changed ≠ 1) "governance.caller_cleanup_invalid"
  .perform (Act.commit .quarantine)

/-- `_quarantine(cleanup)`. -/
def quarantine : Code Unit := do
  let current ← .perform (Act.peek fun l =>
    l.memory.callerPhase = .failed && l.memory.callerCurrent = some call.descriptor)
  refuseIf (¬ current) "governance.caller_cleanup_invalid"
  let _ ← attempt (auditCaller call "quarantine_create" "deny")
  exclusive (do
    c.bound call .publishedPendingCaller
    transaction (c.commitQuarantine call))

/-- The preparation while it holds its receipt: the question is the caller's body. -/
def preparing (receipt : Receipt) : Code Receipt :=
  Prog.onError (do
    ask
    .perform (Act.remember fun m => { m with callerPhase := .acknowledging })
    c.acknowledge call
    return receipt) (do
    .perform (Act.remember fun m => { m with callerPhase := .failed })
    swallow (c.quarantine call))

/-- `prepare(store, identity)`.  The questions are `_require`, the locks of the process and
the entry of `authenticated_create`. -/
def prepare (identity : RequestIdentity) : Code Receipt := do
  refuseIf (identity ≠ c.binding.owner) "governance.caller_binding_invalid"
  ask
  ask
  Prog.ensuring (do
    ask
    let receipt ← renamed (c.create .overlay call) (asMandatory "session_create_failed")
    refuseIf (receipt.state ≠ .publishedPendingCaller ∨ receipt.dispatchAllowed)
      "governance.caller_receipt_invalid"
    .perform (Act.remember fun m =>
      { m with callerCurrent := some call.descriptor, callerPhase := .preparing })
    c.preparing call receipt) (
    .perform (Act.remember fun m => { m with callerCurrent := none, callerPhase := .idle }))

end Coordinator

end ProjectMaya
