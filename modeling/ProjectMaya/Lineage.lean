import ProjectMaya.CallerPreparation

/-! # The lineage checks of reset and switch

A reset ends the created session of a slot and opens a child of it; a switch ends the child
and reopens its parent.  These are the queries with which the reset and switch
coordinators, their preparations and the reader make sure that the rows of a slot have
that shape: each is a check of the tables that ends in what the code reads, or in the code
of the refusal. -/

namespace ProjectMaya

open Logic

namespace Db

/-- Some transition is not acknowledged. -/
def unacknowledged (db : Db) : Bool :=
  db.transitions.rows.any fun t => t.state ≠ .callerAcknowledged

/-- The row of the projection that lineages are compared with. -/
def head (db : Db) : Option (Int × String) := db.projection.map fun p => (p.generation, p.projectionHash)

end Db

/-- The values that `source` reads. -/
structure ResetSource where
  generation : Int
  routes : Routes
  raw : Bytes
  session : String
  version : Int
  deriving DecidableEq, Repr

/-- `CandidateNativeSessionReset.source`. -/
def resetSource (c : Coordinator) (db : Db) (index : Bytes) : Except String ResetSource := do
  let (generation, routes, raw) ← stateInTransaction c db
  ensure (index = raw ∧ db.unacknowledged = false) "governance.transition_recovery_required"
  let route ← fetch (routes.get? c.binding.routeSlot) "governance.reset_source_invalid"
  let r ← fetch (db.routes.find? c.binding.routeSlot) "governance.reset_source_invalid"
  let s ← fetch (db.sessions.find? r.sessionId) "governance.reset_source_invalid"
  let o ← fetch (db.owners.find? s.id) "governance.reset_source_invalid"
  let t ← fetch (db.transitions.find? r.correlationId) "governance.reset_source_invalid"
  ensure (r.principal = c.binding.owner.actorId ∧ s.endedAt = none ∧ s.archived = 0 ∧
      s.source = "maya-governed-candidate" ∧ o.lifecycleStatus = .active ∧
      t.state = .callerAcknowledged ∧ t.targetSession = some s.id ∧
      t.resultRouteVersion = r.routeVersion ∧ t.principal = r.principal ∧
      t.bindingVersion = o.bindingVersion ∧ t.operation = .create ∧
      t.expectedRouteVersion = 0 ∧ t.resultRouteVersion = 1 ∧ s.parentSessionId = none ∧
      o.parentSessionId = none ∧ s.userId = some r.principal)
    "governance.reset_source_invalid"
  ensure (route = ⟨s.id, r.routeVersion⟩) "governance.reset_source_invalid"
  return { generation, routes, raw, session := s.id, version := r.routeVersion }

/-- `validate_reset_lineage`: the parent of the reset session. -/
def validateResetLineage (b : Binding) (target : String) (expected : TransitionState) (db : Db) :
    Except String String := do
  let code := "governance.reset_lineage_invalid"
  let s ← fetch (db.sessions.find? target) code
  let o ← fetch (db.owners.find? target) code
  let t ← fetch (db.receipts target).head? code
  ensure ((db.receipts target).length = 1) code
  let parent ← fetch s.parentSessionId code
  ensure (parent ≠ "" ∧ s.userId = some b.owner.actorId ∧ s.endedAt = none ∧ s.archived = 0 ∧
      s.source = "maya-governed-candidate" ∧ o.lifecycleStatus = .active ∧
      o.parentSessionId = some parent ∧ t.operation = .reset ∧ t.expectedRouteVersion = 1 ∧
      t.resultRouteVersion = 2 ∧ t.state = expected ∧ t.principal = b.owner.actorId ∧
      t.bindingVersion = b.bindingVersion) code
  let r ← fetch (db.routes.find? b.routeSlot) code
  ensure (db.head = some (t.generation, t.projectionHash) ∧ r.sessionId = target ∧
      r.routeVersion = 2 ∧ r.correlationId = t.correlationId) code
  let s' ← fetch (db.sessions.find? parent) code
  let o' ← fetch (db.owners.find? parent) code
  let t' ← fetch (db.receipts parent).head? code
  ensure ((db.receipts parent).length = 1 ∧ s'.userId = some b.owner.actorId ∧
      s'.endedAt ≠ none ∧ s'.endReason = some "session_reset" ∧ s'.parentSessionId = none ∧
      s'.archived = 0 ∧ o'.lifecycleStatus = .ended ∧ o'.parentSessionId = none ∧
      t'.operation = .create ∧ t'.resultRouteVersion = 1 ∧ t'.state = .callerAcknowledged ∧
      t'.principal = b.owner.actorId ∧ t'.bindingVersion = b.bindingVersion ∧
      t'.expectedRouteVersion = 0 ∧ s'.source = "maya-governed-candidate") code
  return parent

/-- `CandidateResetPreparation._confirmation`. -/
def resetConfirmation (b : Binding) (target : String) (db : Db) :
    Except String ResetConfirmation := do
  let code := "governance.reset_confirmation_required"
  let rows := (db.receipts target).filter fun t =>
    t.operation = .reset && t.state = .callerAcknowledged
  let t ← fetch rows.head? code
  ensure (rows.length = 1) code
  return {
    target
    routeSlot := b.routeSlot
    database := b.database
    instanceId := b.instanceId
    correlationId := t.correlationId
    descriptorDigest := t.descriptorDigest
    principal := t.principal
    bindingVersion := t.bindingVersion
    generation := t.generation
    projectionHash := t.projectionHash }

/-- `CandidateResetPreparation._bound`, after `require`. -/
def resetBound (c : Coordinator) (d : ResetDescriptor) (expected : TransitionState)
    (projection : Bool) (db : Db) (index : Bytes) : Except String Bytes := do
  let code := "governance.reset_receipt_invalid"
  let (generation, routes, raw) ← stateInTransaction c db
  let t ← fetch (db.transitions.find? d.correlationId) code
  let r ← fetch (db.routes.find? d.routeSlot) code
  ensure (t.IsReceipt d.digest d.principal d.bindingVersion .reset d.targetSession
      d.expectedRouteVersion expected generation raw ∧
    routes.get? d.routeSlot = some ⟨d.targetSession, d.expectedRouteVersion + 1⟩ ∧
    r.correlationId = d.correlationId ∧ (projection → index = raw) ∧
    db.othersAcknowledged d.correlationId) code
  let source ← validateResetLineage c.binding d.targetSession expected db
  ensure (source = d.sourceSession) code
  return raw

/-- `_history`: the create and the reset row of a switch from `source` to `target`. -/
def switchHistory (source target : String) (db : Db) : Except String (Transition × Transition) := do
  let code := "governance.switch_lineage_invalid"
  let created := (db.receipts target).filter fun t => t.operation = .create
  let reset := (db.receipts source).filter fun t => t.operation = .reset
  ensure (created.length + reset.length = 2) code
  match created ++ reset with
  | [t, u] => .ok (t, u)
  | _ => .error code

/-- `policy_decision_ref` as the coordinators write it. -/
def Transition.decisionRef (t : Transition) : String :=
  "sha256:" ++ digest (utf8 t.correlationId.toList)

/-- What `validate_switch_lineage` asks of the rows of one of the two sessions. -/
def switchMember (b : Binding) (id : String) (parent : Option String) (status : Lifecycle)
    (reason : Option String) (db : Db) : Except String Unit := do
  let code := "governance.switch_lineage_invalid"
  let s ← fetch (db.sessions.find? id) code
  let o ← fetch (db.owners.find? id) code
  ensure (s.userId = some b.owner.actorId ∧ s.parentSessionId = parent ∧
    (s.endedAt = none ↔ status = .active) ∧ s.endReason = reason ∧ s.archived = 0 ∧
    s.source = "maya-governed-candidate" ∧ o.lifecycleStatus = status ∧
    o.parentSessionId = parent ∧ o.principal = b.owner.actorId ∧
    o.classification = b.owner.dataClassification ∧ o.bindingVersion = b.bindingVersion ∧
    o.instanceId = b.instanceId ∧ o.databaseId = b.database) code

/-- What `validate_switch_lineage` asks of a row of the history. -/
def switchReceipt (b : Binding) (t : Transition) (operation : Operation) (target : String)
    (version : Int) : Except String Unit :=
  ensure (t.principal = b.owner.actorId ∧ t.bindingVersion = b.bindingVersion ∧
    t.operation = operation ∧ t.targetSession = some target ∧ t.expectedRouteVersion = version ∧
    t.resultRouteVersion = version + 1 ∧ t.state = .callerAcknowledged ∧
    t.policyDecisionRef = t.decisionRef) "governance.switch_lineage_invalid"

/-- `validate_switch_lineage`: the child, the history and the row of the switch. -/
def validateSwitchLineage (b : Binding) (target : String) (expected : TransitionState) (db : Db) :
    Except String (String × (Transition × Transition) × Transition) := do
  let code := "governance.switch_lineage_invalid"
  let r ← fetch (db.routes.find? b.routeSlot) code
  ensure (r.sessionId = target ∧ r.routeVersion = 3 ∧ r.principal = b.owner.actorId) code
  let t ← fetch (db.transitions.find? r.correlationId) code
  ensure (t.principal = b.owner.actorId ∧ t.bindingVersion = b.bindingVersion ∧
    t.operation = .switch ∧ t.targetSession = some target ∧ t.expectedRouteVersion = 2 ∧
    t.resultRouteVersion = 3 ∧ t.state = expected ∧
    db.head = some (t.generation, t.projectionHash) ∧ t.policyDecisionRef = t.decisionRef) code
  let children := db.sessions.rows.filter fun s => s.parentSessionId = some target &&
    db.owners.rows.any fun o => o.sessionId = s.id && o.parentSessionId = some target
  let child ← fetch children.head? code
  ensure (children.length = 1) code
  switchMember b target none .active none db
  switchMember b child.id (some target) .ended (some "session_switch") db
  let history ← switchHistory child.id target db
  switchReceipt b history.1 .create target 0
  switchReceipt b history.2 .reset child.id 1
  ensure (history.1.generation < history.2.generation ∧ history.2.generation < t.generation) code
  return (child.id, history, t)

/-- `CandidateSwitchPreparation._confirmation`. -/
def switchConfirmation (b : Binding) (target : String) (db : Db) :
    Except String SwitchConfirmation := do
  let (source, history, current) ← validateSwitchLineage b target .callerAcknowledged db
  return {
    target, source
    routeSlot := b.routeSlot
    database := b.database
    instanceId := b.instanceId
    history, current }

/-- `CandidateSwitchPreparation._bound`, after its checks of the host: `history` is what the
preparation has read before the switch. -/
def switchBound (c : Coordinator) (d : SwitchDescriptor)
    (history : Option (Transition × Transition)) (expected : TransitionState) (projection : Bool)
    (db : Db) (index : Bytes) : Except String Bytes := do
  let (generation, routes, raw) ← stateInTransaction c db
  let (source, found, t) ← validateSwitchLineage c.binding d.targetSession expected db
  ensure (source = d.sourceSession ∧ some found = history ∧
    found.2.correlationId = d.priorResetCorrelation ∧ t.correlationId = d.correlationId ∧
    t.descriptorDigest = d.digest ∧ t.generation = generation ∧ t.projectionHash = digest raw ∧
    routes.get? d.routeSlot = some ⟨d.targetSession, 3⟩ ∧ (projection → index = raw) ∧
    db.othersAcknowledged d.correlationId) "governance.switch_receipt_invalid"
  return raw

end ProjectMaya
