import ProjectMaya.Governance
import ProjectMaya.Logic.Check
import ProjectMaya.Logic.Table

/-! # The session store: five tables and an index file

The rows of `sessions` (the columns the candidate code reads or writes) and of the four
`maya_session_*_v1` tables, with their keys and references, and the statements that the
create, reset and switch coordinators execute.  A statement that a constraint refuses is
`none`.

`stateInTransaction` is the check every coordinator makes before it trusts the tables, and
`projectionBytes` the text that the index file has to hold. -/

namespace ProjectMaya

open Logic

/-! ## Rows -/

structure Session where
  id : String
  source : String
  userId : Option String := none
  parentSessionId : Option String := none
  startedAt : Int
  endedAt : Option Int := none
  endReason : Option String := none
  archived : Int := 0
  deriving DecidableEq, Repr

inductive Lifecycle where
  | active
  | ended
  | other (text : String)
  deriving DecidableEq, Repr

structure Owner where
  sessionId : String
  instanceId : String
  databaseId : String
  principal : String
  classification : String
  bindingVersion : Int
  lifecycleStatus : Lifecycle
  parentSessionId : Option String := none
  deriving DecidableEq, Repr

structure RouteRow where
  routeSlot : String
  principal : String
  sessionId : String
  routeVersion : Int
  correlationId : String
  deriving DecidableEq, Repr

inductive Operation where
  | create
  | reset
  | switch
  | other (text : String)
  deriving DecidableEq, Repr

inductive TransitionState where
  | committedPendingProjection
  | projectionVerified
  | published
  | publishedPendingCaller
  | callerAcknowledged
  | callerQuarantined
  | other (text : String)
  deriving DecidableEq, Repr

structure Transition where
  correlationId : String
  descriptorDigest : String
  principal : String
  bindingVersion : Int
  operation : Operation
  targetSession : Option String
  expectedRouteVersion : Int
  resultRouteVersion : Int
  state : TransitionState
  generation : Int
  projectionHash : String
  policyDecisionRef : String
  deriving DecidableEq, Repr

/-- The row `singleton = 1`. -/
structure Projection where
  schemaVersion : Int
  instanceId : String
  databaseId : String
  generation : Int
  projectionHash : String
  indexPath : String
  deriving DecidableEq, Repr

structure Db where
  sessions : Table Session String Session.id := .empty
  owners : Table Owner String Owner.sessionId := .empty
  routes : Table RouteRow String RouteRow.routeSlot := .empty
  transitions : Table Transition String Transition.correlationId := .empty
  projection : Option Projection := none
  deriving DecidableEq

/-! ## References -/

namespace Db

def hasSession (db : Db) (id : String) : Bool := db.sessions.rows.any fun s => s.id = id

def hasOwner (db : Db) (id principal : String) : Bool :=
  db.owners.rows.any fun o => o.sessionId = id && o.principal = principal

def refers (db : Db) (id : Option String) : Bool :=
  match id with
  | none => true
  | some id => db.hasSession id

/-- `PRAGMA foreign_key_check` finds nothing. -/
def foreignKeyCheck (db : Db) : Bool :=
  (db.sessions.rows.all fun s => db.refers s.parentSessionId) &&
  (db.owners.rows.all fun o => db.hasSession o.sessionId && db.refers o.parentSessionId) &&
  (db.routes.rows.all fun r => db.hasOwner r.sessionId r.principal) &&
  (db.transitions.rows.all fun t => db.refers t.targetSession)

/-! ## Statements -/

def insertSession (db : Db) (s : Session) : Option Db :=
  if db.refers s.parentSessionId || s.parentSessionId = some s.id then
    (db.sessions.insert s).map fun t => { db with sessions := t }
  else none

def insertOwner (db : Db) (o : Owner) : Option Db :=
  if db.hasSession o.sessionId && db.refers o.parentSessionId then
    (db.owners.insert o).map fun t => { db with owners := t }
  else none

def insertRoute (db : Db) (r : RouteRow) : Option Db :=
  if db.hasOwner r.sessionId r.principal then
    (db.routes.insert r).map fun t => { db with routes := t }
  else none

def insertTransition (db : Db) (t : Transition) : Option Db :=
  if db.refers t.targetSession then
    (db.transitions.insert t).map fun ts => { db with transitions := ts }
  else none

/-- `UPDATE maya_session_projection_v1 SET generation=?,projection_hash=? WHERE singleton=1
AND generation=?`, with its rowcount. -/
def updateProjection (db : Db) (generation : Int) (hash : String) (expected : Int) : Db × Nat :=
  match db.projection with
  | some p =>
    if p.generation = expected then
      ({ db with projection := some { p with generation, projectionHash := hash } }, 1)
    else (db, 0)
  | none => (db, 0)

/-- `UPDATE maya_session_transitions_v1 SET state=? WHERE …`, with its rowcount. -/
def updateState (db : Db) (p : Transition → Bool) (state : TransitionState) : Db × Nat :=
  ({ db with transitions := db.transitions.update p (fun t => { t with state }) (fun _ => rfl) },
    db.transitions.count p)

/-- `UPDATE sessions SET ended_at=?,end_reason=? WHERE id=? AND ended_at IS NULL`, with its
rowcount. -/
def endSession (db : Db) (id : String) (now : Int) (reason : String) : Db × Nat :=
  let p : Session → Bool := fun s => s.id = id && s.endedAt.isNone
  let ended := db.sessions.update p
    (fun s => { s with endedAt := some now, endReason := some reason }) fun _ => rfl
  ({ db with sessions := ended }, db.sessions.count p)

/-- `UPDATE sessions SET ended_at=NULL,end_reason=NULL WHERE id=? AND ended_at IS NOT NULL AND
end_reason='session_reset'`, with its rowcount. -/
def reopenSession (db : Db) (id : String) : Db × Nat :=
  let p : Session → Bool := fun s =>
    s.id = id && s.endedAt.isSome && s.endReason = some "session_reset"
  let reopened := db.sessions.update p
    (fun s => { s with endedAt := none, endReason := none }) fun _ => rfl
  ({ db with sessions := reopened }, db.sessions.count p)

/-- `UPDATE maya_session_owners_v1 SET lifecycle_status=? WHERE session_id=? AND
lifecycle_status=?`, with its rowcount. -/
def setLifecycle (db : Db) (id : String) (source target : Lifecycle) : Db × Nat :=
  let p : Owner → Bool := fun o => o.sessionId = id && o.lifecycleStatus = source
  let changed := db.owners.update p (fun o => { o with lifecycleStatus := target }) fun _ => rfl
  ({ db with owners := changed }, db.owners.count p)

/-- `UPDATE maya_session_routes_v1 SET session_id=?,route_version=?,correlation_id=? WHERE …`,
with its rowcount; the new session needs an owner row. -/
def moveRoute (db : Db) (p : RouteRow → Bool) (sessionId : String) (version : Int)
    (correlationId : String) : Option (Db × Nat) :=
  if db.routes.rows.all fun r => !p r || db.hasOwner sessionId r.principal then
    let moved := db.routes.update p
      (fun r => { r with sessionId, routeVersion := version, correlationId }) fun _ => rfl
    some ({ db with routes := moved }, db.routes.count p)
  else none

/-- The transitions whose target is a session. -/
def receipts (db : Db) (id : String) : List Transition :=
  db.transitions.rows.filter fun t => t.targetSession = some id

end Db

/-! ## The projection -/

/-- What a coordinator is bound to: the host's limits and the path of the index file. -/
structure Coordinator where
  binding : Binding
  index : String
  deriving DecidableEq, Repr

/-- One entry of the `routes` dict. -/
structure RouteEntry where
  sessionId : String
  version : Int
  deriving DecidableEq, Repr

abbrev Bytes := List UInt8

/-- `routes`: a dict from slots to entries.  Its order is never observed: `projectionBytes`
sorts the keys. -/
abbrev Routes := List (String × RouteEntry)

def createContract : String := "project-maya.native-session-create.v1"

def RouteEntry.json (r : RouteEntry) : Json :=
  .obj [("session_id", .str r.sessionId), ("version", .num r.version)]

def routesJson (routes : Routes) : Json := .obj (routes.map fun (slot, r) => (slot, r.json))

def projectionBytes (instanceId database : String) (generation : Int) (routes : Routes) : Bytes :=
  utf8 (Json.dumps (.obj [("contract", .str createContract), ("instance_id", .str instanceId),
    ("database", .str database), ("generation", .num generation),
    ("routes", routesJson routes)]) ++ ['\n'])

/-- `routes[slot] = entry`. -/
def Routes.set (routes : Routes) (slot : String) (entry : RouteEntry) : Routes :=
  if routes.any fun r => r.1 = slot then
    routes.map fun r => if r.1 = slot then (slot, entry) else r
  else routes ++ [(slot, entry)]

/-- `routes.get(slot)`. -/
def Routes.get? (routes : Routes) (slot : String) : Option RouteEntry :=
  (routes.find? fun r => r.1 = slot).map Prod.snd

def RouteRow.entry (r : RouteRow) : String × RouteEntry :=
  (r.routeSlot, ⟨r.sessionId, r.routeVersion⟩)

namespace Db

/-- The route row joins an owner row whose lifecycle is active. -/
def routed (db : Db) (r : RouteRow) : Bool :=
  db.owners.rows.any fun o =>
    o.sessionId = r.sessionId && o.principal = r.principal && o.lifecycleStatus = .active

/-- The `SELECT` of the routes with an active owner. -/
def activeRoutes (db : Db) : Routes := (db.routes.rows.filter db.routed).map RouteRow.entry

/-- Some session has no owner row. -/
def hasUnowned (db : Db) : Bool :=
  db.sessions.rows.any fun s => !(db.owners.rows.any fun o => o.sessionId = s.id)

/-- Some owner row is not of this binding. -/
def hasForeign (db : Db) (b : Binding) : Bool :=
  db.owners.rows.any fun o => o.principal ≠ b.owner.actorId || o.instanceId ≠ b.instanceId ||
    o.databaseId ≠ b.database || o.bindingVersion ≠ b.bindingVersion ||
    o.classification ≠ b.owner.dataClassification

end Db

/-- `_state_in_transaction`: the generation, the routes and the projection bytes of tables
that are consistent with the binding, or the code of the refusal. -/
def stateInTransaction (c : Coordinator) (db : Db) : Except String (Int × Routes × Bytes) :=
  match db.projection with
  | none => .error "governance.transition_store_invalid"
  | some p =>
    if p.schemaVersion ≠ 1 || p.instanceId ≠ c.binding.instanceId ||
        p.databaseId ≠ c.binding.database || p.indexPath ≠ c.index || !db.foreignKeyCheck then
      .error "governance.transition_store_invalid"
    else if db.hasUnowned then .error "governance.transition_owner_unknown"
    else if db.hasForeign c.binding then .error "governance.transition_owner_mismatch"
    else if db.activeRoutes.length ≠ db.routes.rows.length then
      .error "governance.transition_store_invalid"
    else
      let raw := projectionBytes p.instanceId p.databaseId p.generation db.activeRoutes
      if digest raw ≠ p.projectionHash then .error "governance.transition_projection_invalid"
      else .ok (p.generation, db.activeRoutes, raw)

/-- What `stateInTransaction` has checked when it accepts the tables. -/
structure Consistent (c : Coordinator) (db : Db) (p : Projection) : Prop where
  projection : db.projection = some p
  schema : p.schemaVersion = 1
  instanceId : p.instanceId = c.binding.instanceId
  databaseId : p.databaseId = c.binding.database
  indexPath : p.indexPath = c.index
  references : db.foreignKeyCheck = true
  owned : db.hasUnowned = false
  native : db.hasForeign c.binding = false
  routed : ∀ r ∈ db.routes.rows, db.routed r = true
  hash : digest (projectionBytes p.instanceId p.databaseId p.generation
    (db.routes.rows.map RouteRow.entry)) = p.projectionHash

theorem Db.activeRoutes_of_routed {db : Db} (h : ∀ r ∈ db.routes.rows, db.routed r = true) :
    db.activeRoutes = db.routes.rows.map RouteRow.entry := by
  unfold Db.activeRoutes
  rw [List.filter_eq_self.mpr h]

theorem stateInTransaction_eq_ok {c : Coordinator} {db : Db} {generation : Int} {routes : Routes}
    {raw : Bytes} : stateInTransaction c db = .ok (generation, routes, raw) ↔
      ∃ p, Consistent c db p ∧ generation = p.generation ∧
        routes = db.routes.rows.map RouteRow.entry ∧
        raw = projectionBytes p.instanceId p.databaseId p.generation routes := by
  unfold stateInTransaction
  cases hp : db.projection with
  | none =>
    constructor
    · intro h; cases h
    · rintro ⟨p, h, _⟩; cases hp.symm.trans h.projection
  | some p =>
    constructor
    · intro h
      simp only at h
      split at h
      · cases h
      rename_i hhead
      split at h
      · cases h
      rename_i howned
      split at h
      · cases h
      rename_i hnative
      split at h
      · cases h
      rename_i hlength
      split at h
      · cases h
      rename_i hhash
      have hrouted : ∀ r ∈ db.routes.rows, db.routed r = true := by
        refine List.filter_eq_self.mp (List.filter_sublist.eq_of_length ?_)
        have : db.activeRoutes.length = db.routes.rows.length := not_not.mp hlength
        simpa [Db.activeRoutes] using this
      rw [Db.activeRoutes_of_routed hrouted] at h hhash
      simp only [ne_eq, Bool.or_eq_true, decide_eq_true_eq, not_or, not_not,
        Bool.not_eq_true', Bool.not_eq_false] at hhead
      obtain ⟨⟨⟨⟨h1, h2⟩, h3⟩, h4⟩, h5⟩ := hhead
      cases h
      exact ⟨p, ⟨hp, h1, h2, h3, h4, h5, by simpa using howned, by simpa using hnative, hrouted,
        not_not.mp hhash⟩, rfl, rfl, rfl⟩
    · rintro ⟨q, h, rfl, rfl, rfl⟩
      cases hp.symm.trans h.projection
      have hlength : db.activeRoutes.length = db.routes.rows.length := by
        rw [Db.activeRoutes_of_routed h.routed, List.length_map]
      simp [h.schema, h.instanceId, h.databaseId, h.indexPath, h.references, h.owned, h.native,
        Db.activeRoutes_of_routed h.routed, ← h.hash]

end ProjectMaya
