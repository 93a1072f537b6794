import ProjectMaya.Context
import ProjectMaya.Readers
import ProjectMaya.Logic.Hosts
import ProjectMaya.Logic.Zoom

/-! # `CandidatePublishedSessionReader` as threads use it

One process has one reader.  Its threads open conversation scopes (`authenticatedRequest`),
load the history inside and outside of them (`loadTranscript`), refresh the store's cache
(`read`) and call the leases; other coordinators and processes change the tables, the index
and the projection lock at any time.

What the reader asks of the machine it shares with the coordinators runs on that part of the
state (`lift`).  The locks of the store and of the SQLite connection are left out: without
them more orders are possible. -/

namespace ProjectMaya.Reader

open Logic

def readerContract : String := "project-maya.published-session-reader.v1"

/-- `store._entries`, a dict by session key, and `store._loaded`. -/
structure Cache where
  entries : List SessionEntry := []
  loaded : Bool := false
  deriving DecidableEq, Repr

/-- How an `authenticated_request` that took the selection lock left the reader: the root of
the scope it had entered, `_active` and the cache. -/
structure Exit where
  root : Option Nat
  selected : Option SessionWriteContext
  cache : Cache
  deriving DecidableEq, Repr

/-- What the threads share.  `entered`, `exits` and `fills` are history; no call reads them. -/
structure Shared (T : Type) where
  machine : ProjectMaya.Shared
  leases : Leases T := {}
  /-- The thread that holds `_selection_lock`. -/
  selecting : Option Nat := none
  /-- `_active` -/
  active : Option SessionWriteContext := none
  cache : Cache := {}
  /-- The root of the scope that has the selection lock, once it has selected it. -/
  entered : Option Nat := none
  exits : List Exit := []
  /-- How often `read` has filled the cache. -/
  fills : Nat := 0

/-- The roots of the scopes that are over. -/
def Shared.ended {T : Type} (s : Shared T) : List Nat := s.exits.filterMap Exit.root

/-- What happened in a call, oldest first. -/
inductive Event (M : Type) where
  /-- `_active` was read; the roots of the scopes that were over. -/
  | began (selected : Option SessionWriteContext) (ended : List Nat)
  /-- The walk up from a lease to its root. -/
  | walked (lease root : Nat)
  /-- `lease.is_active` was asked; `_active` and the roots that were over then. -/
  | looked (lease : Nat) (active : Bool) (selected : Option SessionWriteContext) (ended : List Nat)
  /-- The gateway answered and the answer was audited. -/
  | asked (action : ActionRequest) (allowed : Bool)
  /-- `_validated_entry` returned. -/
  | validated (entry : SessionEntry)
  /-- `get_messages_as_conversation` returned. -/
  | read (sessionId : String) (messages : List M)
  deriving DecidableEq, Repr

/-- A thread: its connection and temporary file, `entered` of its scope, and its history. -/
structure Thread (M : Type) where
  id : Nat
  process : Process
  entered : Bool := false
  events : List (Event M) := []

/-- How the environment answers at one action. -/
structure Choice (M : Type) where
  fault : Fault := .none
  gateway : GatewayReply := .result true [] []
  requestId : String := ""
  path : Except Raised ResolvedPath := .error .failure
  messages : Except Raised (List M) := .ok []
  /-- How the body of a scope ends, and whether an interrupt of it is a cancellation. -/
  body : Except Raised Unit := .ok ()
  cancelled : Bool := false

instance {M : Type} : Inhabited (Choice M) := ⟨{}⟩

section

variable {T M : Type} [LinearOrder T]

abbrev Act (T M β : Type) := Action (Choice M) (Shared T) (Thread M) Raised β

abbrev Code (T M α : Type) := Prog (Choice M) (Shared T) (Thread M) Raised α

/-- The machine of the coordinators, as a part of the state. -/
def machinePart : Part (Shared T) ProjectMaya.Shared where
  get := Shared.machine
  set s machine := { s with machine }

def processPart : Part (Thread M) Process where
  get := Thread.process
  set t process := { t with process }

/-- Code of the coordinator. -/
def lift {α : Type} (p : ProjectMaya.Code α) : Code T M α :=
  p.zoom Choice.fault machinePart processPart

variable (clock : Clock T)

namespace Act

/-- An assignment. -/
def assign (f : Shared T → Thread M → Shared T × Thread M) : Act T M Unit where
  next _ s t := (.ok (), f s t)

/-- `if _session_write.get() is not None or not self._selection_lock.acquire(blocking=False)` -/
def select (who : Caller) : Act T M Unit where
  next _ s t :=
    match who.session, s.selecting with
    | none, none => (.ok (), { s with selecting := some t.id }, t)
    | _, _ => (.error (.boundary "governance.session_request_busy"), s, t)

/-- `self._selection_lock.release()` -/
def release : Act T M Unit :=
  assign fun s t =>
    ({ s with selecting := none, entered := none, exits := s.exits ++ [⟨s.entered, s.active, s.cache⟩] }, t)

/-- `self._active = root` -/
def activate (context : SessionWriteContext) : Act T M Unit :=
  assign fun s t => ({ s with active := some context, entered := some context.lease }, t)

/-- `self._active = None` -/
def deactivate : Act T M Unit := assign fun s t => ({ s with active := none }, t)

/-- `_clear_cache` -/
def clearCache : Act T M Unit := assign fun s t => ({ s with cache := {} }, t)

/-- The two assignments to the cache of a scope. -/
def fill (entry : SessionEntry) : Act T M Unit :=
  assign fun s t => ({ s with cache := { entries := [entry] } }, t)

/-- The same assignments of `read`. -/
def refill (entry : SessionEntry) : Act T M Unit :=
  assign fun s t => ({ s with cache := { entries := [entry] }, fills := s.fills + 1 }, t)

/-- `entered = True` -/
def enter : Act T M Unit := assign fun s t => (s, { t with entered := true })

def entered : Act T M Bool where
  next _ s t := (.ok t.entered, s, t)

/-- The code around the body of a scope waits for it. -/
def body : Act T M Unit where
  next c s t := (c.body, s, t)

/-- `uuid4().hex` -/
def uuid : Act T M String where
  next c s t := (.ok c.requestId, s, t)

/-- `Path(database).resolve(…)`, with the questions about the file. -/
def resolve : Act T M ResolvedPath where
  next c s t := (c.path, s, t)

/-- `_SessionWriteLease(deadline=monotonic() + timeout)` -/
def bindLease (timeout : T) [Add T] : Act T M Nat where
  next _ s t :=
    (.ok s.leases.nodes.size, { s with leases := s.leases.bindSessionWrite clock (some timeout) }, t)

/-- The `except` and `finally` clauses of `bind_session_write`. -/
def leaveLease (lease : Nat) (result : Except Raised Unit) : Act T M Unit where
  next c s t :=
    let exit := match result with
      | .ok _ => .normal
      | .error .interrupt => if c.cancelled then .cancelled else .raised
      | .error _ => .raised
    (.ok (), { s with leases := s.leases.exitScope clock lease exit }, t)

/-- Any call on the leases. -/
def lease (call : LeaseCall T) [Add T] : Act T M Unit :=
  assign fun s t => ({ s with leases := s.leases.step clock call }, t)

/-- `self._active` -/
def began : Act T M (Option SessionWriteContext) where
  next _ s t := (.ok s.active, s, { t with events := t.events ++ [.began s.active s.ended] })

/-- `while root.parent is not None: root = root.parent` -/
def walk (lease : Nat) : Act T M Nat where
  next _ s t :=
    let root := s.leases.nodes.root lease
    (.ok root, s, { t with events := t.events ++ [.walked lease root] })

/-- `lease.is_active` -/
def look (lease : Nat) : Act T M Bool where
  next _ s t :=
    let (active, leases) := s.leases.isActive clock lease
    (.ok active, { s with leases },
      { t with events := t.events ++ [.looked lease active s.active s.ended] })

/-- `gateway.authorize(action)` and what `_authorize` makes of its result. -/
def authorize (action : ActionRequest) : Act T M Bool where
  next c s t :=
    match c.fault, c.gateway.allowed with
    | .none, some allowed => (.ok allowed, s, { t with events := t.events ++ [.asked action allowed] })
    | .none, none => (.error .failure, s, t)
    | .fail e, _ | .failLate e, _ | .abort e, _ => (.error e, s, t)

/-- `database.get_messages_as_conversation(session_id)` -/
def messages (sessionId : String) : Act T M (List M) where
  next c s t :=
    match c.messages with
    | .ok found => (.ok found, s, { t with events := t.events ++ [.read sessionId found] })
    | .error e => (.error e, s, t)

def validated (entry : SessionEntry) : Act T M Unit :=
  assign fun s t => (s, { t with events := t.events ++ [.validated entry] })

end Act

def refuse {α : Type} (code : String) : Code T M α := .raise (.boundary code)

def refuseIf (c : Prop) [Decidable c] (code : String) : Code T M Unit := .raiseIf c (.boundary code)

def renamed {α : Type} (p : Code T M α) (f : Raised → Raised) : Code T M α :=
  Prog.mapError p fun e => pure (f e)

/-- `_exclusive` of the coordinator around code of the reader. -/
def exclusive {α : Type} (body : Code T M α) : Code T M α :=
  renamed (do
    lift ask
    lift ask
    lift (.perform ProjectMaya.Act.acquire)
    Prog.ensuring (do lift ask; body) (lift (.perform ProjectMaya.Act.release))) exclusiveError

variable (c : Coordinator) (identity : RequestIdentity)

/-! ## Policy and validation -/

def readAction (operation target : String) : ActionRequest where
  actorId := identity.actorId
  capability := "session.read"
  target
  operation
  dataClassification := identity.dataClassification
  metadata := [("contract", readerContract)]

def readRecord (operation target : String) (allowed : Bool) : AuditRecord where
  eventType := "authorization.published_session_read"
  decision := if allowed then "allow" else "deny"
  reasonCode := if allowed then "governance.session_read_allowed" else "governance.session_read_denied"
  actorId := identity.actorId
  capability := "session.read"
  target := hash target
  operation
  dataClassification := identity.dataClassification
  metadata := [("contract", readerContract), ("qualification", "source_candidate_only")]

/-- `_authorize` -/
def authorize (operation target : String) : Code T M Unit := do
  let allowed ← renamed (.perform (Act.authorize (readAction identity operation target)))
    (asBoundary "governance.authorization_unavailable")
  renamed (lift (.perform (ProjectMaya.Act.writeAudit (readRecord identity operation target allowed))))
    (asBoundary "governance.audit_unavailable")
  refuseIf (!allowed) "governance.session_read_denied"

/-- `_validated_entry` after its questions: the settled route and the row it joins. -/
def routeEntry : ProjectMaya.Code SessionEntry := do
  let route ← c.settledRoute .base
  let row ← select fun db => db.selectRoute c.binding.routeSlot
  let row ← require row "governance.session_route_unavailable"
  ProjectMaya.refuseIf (¬ Selected c .base identity route row) "governance.session_route_unavailable"
  return { sessionKey := c.binding.routeSlot, sessionId := route.sessionId
           createdAt := row.1.startedAt, updatedAt := row.1.startedAt }

/-- `_validated_entry` -/
def validatedEntry : Code T M SessionEntry := do
  lift (c.requireReader identity)
  authorize identity "route_state" c.binding.routeSlot
  let entry ← lift (routeEntry c identity)
  .perform (Act.validated entry)
  return entry

/-! ## `read` -/

/-- The `except` clauses of `read`. -/
def readError : Raised → Code T M Raised
  | .interrupt => pure .interrupt
  | .boundary code => do
    .perform Act.clearCache
    return .boundary code
  | _ => do
    .perform Act.clearCache
    return .boundary "governance.session_read_failed"

/-- `read` -/
def read : Code T M SessionEntry :=
  Prog.mapError (do
    lift (c.requireReader identity)
    exclusive (do
      let entry ← validatedEntry c identity
      .perform (Act.refill entry)
      return entry)) readError

/-! ## `authenticated_request` -/

section

variable [Add T] (timeout : T) (who : Caller)

/-- `CandidateSessionRequestBinding(…)`: its checks bind and leave a scope of its own. -/
def requestBinding (sessionId : String) : Code T M ResolvedPath :=
  renamed (do
    let database ← .perform Act.resolve
    refuseIf (!identifier identity.actorId) "governance.identity_invalid"
    refuseIf (identity.dataClassification ∉ ["public", "internal", "confidential", "restricted"])
      "governance.classification_invalid"
    refuseIf (!identifier sessionId) "governance.session_context_invalid"
    let lease ← .perform (Act.bindLease clock timeout)
    .perform (Act.leaveLease clock lease (.ok ()))
    return database) (asBoundary "governance.session_context_invalid")

def requestRecord (sessionId requestId : String) : AuditRecord where
  eventType := "authentication.local_api_session"
  decision := "allow"
  reasonCode := "authentication.identity_bound"
  actorId := identity.actorId
  capability := "local_api.request"
  target := hash sessionId
  operation := "bind"
  dataClassification := identity.dataClassification
  idempotencyKey := some (hash requestId)

/-- `with bind_session_write(…)` around a body. -/
def leased (lease : Nat) (body : Code T M Unit) : Code T M Unit :=
  body.andThen fun r => (Prog.perform (Act.leaveLease clock lease r)).andThen fun _ => .done r

/-- `authenticated_request` of the request binding around a body.  Its lock is that of a new
object, and free. -/
def boundRequest (sessionId : String) (body : SessionWriteContext → Code T M Unit) :
    Code T M Unit := do
  renamed (lift ask) (asBoundary "governance.session_contract_unavailable")
  let requestId ← .perform Act.uuid
  renamed (lift (.perform (ProjectMaya.Act.writeAudit (requestRecord identity sessionId requestId))))
    (asBoundary "governance.audit_unavailable")
  let lease ← .perform (Act.bindLease clock timeout)
  let database ← .perform Act.resolve
  leased clock lease (body
    { identity, requestId, sessionId, database, operations := ["append"]
      threadId := who.thread, task := who.task, lease })

/-- The scope proper: the selection is active and the cache has its entry while the body runs. -/
def conversation (entry : SessionEntry) (root : SessionWriteContext) : Code T M Unit := do
  .perform (Act.activate root)
  Prog.ensuring (do
    .perform (Act.fill entry)
    .perform Act.enter
    .perform Act.body) (do
    .perform Act.deactivate
    .perform Act.clearCache)

/-- The `except` clauses of `authenticated_request`. -/
def requestError : Raised → Code T M Raised
  | .interrupt => pure .interrupt
  | .boundary code => do
    .perform Act.clearCache
    return .boundary code
  | e => do
    .perform Act.clearCache
    let entered ← .perform Act.entered
    return if entered then e else .boundary "governance.session_scope_failed"

/-- `authenticated_request` -/
def authenticatedRequest : Code T M Unit := do
  lift (c.requireReader identity)
  .perform (Act.select who)
  Prog.ensuring (Prog.mapError (exclusive (do
      let entry ← validatedEntry c identity
      authorize identity "history" entry.sessionId
      let _ ← requestBinding clock identity timeout entry.sessionId
      boundRequest clock identity timeout who entry.sessionId (conversation entry))) requestError)
    (.perform Act.release)

end

/-! ## `load_transcript` -/

/-- What `load_transcript` compares of its context, the selection and the caller. -/
def fits (who : Caller) (bound selected : SessionWriteContext) (sessionId : String) : Bool :=
  bound.identity = selected.identity && bound.ownedBy who &&
    bound.requestId = selected.requestId && bound.database = selected.database &&
    bound.sessionId = selected.sessionId && sessionId = selected.sessionId

/-- One validation of `load_transcript`: the reader's entry is the session that is asked for. -/
def validatedSession (sessionId : String) : Code T M Unit := do
  let entry ← validatedEntry c identity
  refuseIf (entry.sessionId ≠ sessionId) "governance.session_context_invalid"

def activeLease (lease : Nat) : Code T M Unit := do
  let active ← .perform (Act.look clock lease)
  refuseIf (!active) "governance.session_context_invalid"

/-- `load_transcript` of a thread that has a context. -/
def boundTranscript (who : Caller) (bound selected : SessionWriteContext) (sessionId : String) :
    Code T M (List M) := do
  let root ← .perform (Act.walk bound.lease)
  refuseIf (root ≠ selected.lease) "governance.session_context_invalid"
  activeLease clock bound.lease
  refuseIf (!fits who bound selected sessionId) "governance.session_context_invalid"
  lift (c.requireReader bound.identity)
  validatedSession c bound.identity sessionId
  authorize bound.identity "history" sessionId
  activeLease clock bound.lease
  let messages ← .perform (Act.messages sessionId)
  validatedSession c bound.identity sessionId
  activeLease clock bound.lease
  return messages

/-- `load_transcript` -/
def loadTranscript (who : Caller) (sessionId : String) : Code T M (List M) := do
  let selected ← .perform Act.began
  match who.session, selected with
  | some bound, some selected => boundTranscript clock c who bound selected sessionId
  | _, _ => refuse "governance.session_context_invalid"

/-! ## The threads -/

/-- What a thread of the process, or somebody else, does. -/
inductive Task (T : Type) where
  | request (who : Caller) (identity : RequestIdentity)
  | load (who : Caller) (sessionId : String)
  | read (identity : RequestIdentity)
  | lease (call : LeaseCall T)
  /-- Another coordinator or process leaves the machine like this. -/
  | transition (machine : ProjectMaya.Shared)

/-- One process: messages come back from `load` only. -/
def threads [Add T] (timeout : T) :
    System (Choice M) (Shared T) (Thread M) Raised (Task T) (List M) where
  prog
    | .request who identity => do
      authenticatedRequest clock c identity timeout who
      return []
    | .load who sessionId => loadTranscript clock c who sessionId
    | .read identity => do
      let _ ← read c identity
      return []
    | .lease call => do
      .perform (Act.lease clock call)
      return []
    | .transition machine => do
      .perform (Act.assign fun s t => ({ s with machine }, t))
      return []
  enter t := { t with entered := false, events := [] }
  die s t := (s, t)

end

end ProjectMaya.Reader
