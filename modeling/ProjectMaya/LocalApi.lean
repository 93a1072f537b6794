import ProjectMaya.Broker
import ProjectMaya.Payload
import ProjectMaya.PublishedReader

/-! # The local API and its request binding

Threads call `handle` of one `LocalAPI`.  With a `CandidateSessionRequestBinding` a request
runs under the identity of the binding's owner and a session-write context, and holds the
binding's lock meanwhile.  What the code asks of others (the authenticator, the middleware,
the audit sink, the agent) the environment answers. -/

namespace ProjectMaya.LocalApi

open Logic
open Plugin (Dict Payload)

/-- The exceptions of the code, by the `except` clauses that tell them apart. -/
inductive Exn where
  /-- `GovernanceBoundaryError(code)`, which is an `ActionDeniedError` -/
  | boundary (code : String)
  /-- any other `ActionDeniedError` -/
  | actionDenied
  | agentError
  /-- any other `Exception` -/
  | failure
  /-- `asyncio.CancelledError` -/
  | cancelled
  /-- any other `BaseException` that is no `Exception` -/
  | interrupt
  deriving DecidableEq, Repr

/-- `isinstance(e, Exception)` -/
def Exn.isException : Exn → Bool
  | .cancelled | .interrupt => false
  | _ => true

structure Request where
  method : String
  path : String
  headers : List (String × String) := []
  body : ByteArray := .empty

structure Response (ν : Type) where
  statusCode : Nat
  body : Dict ν

/-- `_json_response` -/
def jsonResponse {ν : Type} (statusCode : Nat) (code message : String) : Response ν where
  statusCode
  body := [(.str "error", .mapping true [(.str "code", .str code), (.str "message", .str message)])]

/-- `_header` -/
def header (loc : Broker.Locale) (headers : List (String × String)) (name : String) : String :=
  ((headers.find? fun item => loc.lower item.1 = loc.lower name).map Prod.snd).getD ""

/-- The arguments of `agent.run`. -/
structure AgentCall where
  message : String
  idempotencyKey : Option String
  dataClassification : String
  deriving DecidableEq, Repr

/-- The values of the context variables `_identity` and `_session_write`. -/
structure Vars where
  identity : Option RequestIdentity := none
  session : Option SessionWriteContext := none
  deriving DecidableEq, Repr

/-- `CandidateSessionRequestBinding`.  `files` is `Path.resolve` as long as the files stay as they
are; the database is a path that the constructor has resolved. -/
structure Binding (T : Type) (files : ResolvedPath → ResolvedPath) where
  owner : RequestIdentity
  sessionId : String
  database : ResolvedPath
  operations : List String
  timeout : T
  resolved : files database = database

structure LocalAPI (T : Type) (files : ResolvedPath → ResolvedPath) where
  maxBodyBytes : Nat := 65536
  binding : Option (Binding T files) := none

/-- How the environment answers at one action. -/
structure Choice (ν : Type) where
  authenticate : Except Exn Bool := .ok false
  authenticateIdentity : Except Exn (Option RequestIdentity) := .ok none
  /-- The middleware of Hermes has the contract and is enabled and valid. -/
  contract : Except Exn Bool := .ok true
  requestId : Except Exn String := .ok ""
  audit : Except Exn Unit := .ok ()
  /-- What `Path.resolve` raises. -/
  resolve : Except Exn Unit := .ok ()
  run : Except Exn (Payload ν) := .ok .none
  /-- The context variables as `agent.run` leaves them. -/
  vars : Vars := {}
  health : Except Exn String := .ok "ready"

instance {ν : Type} : Inhabited (Choice ν) := ⟨{}⟩

/-- What the threads share.  That somebody holds the lock is all the code can see of `locked`;
`running`, the threads inside `agent.run`, is history. -/
structure Shared (T : Type) where
  leases : Leases T := {}
  locked : Option Nat := none
  running : List Nat := []

/-- What happened in a call, oldest first. -/
inductive Event where
  /-- `audit_sink.write` returned. -/
  | wrote (record : AuditRecord)
  /-- `_session_write.set(context)` -/
  | bound (context : SessionWriteContext)
  /-- `agent.run` was entered. -/
  | entered (vars : Vars) (call : AgentCall)
  deriving DecidableEq, Repr

/-- A thread with its context variables; `outer` are their values when its call began, and
`events` what has happened since. -/
structure Thread where
  id : Nat
  task : Option Nat := none
  vars : Vars := {}
  outer : Vars := {}
  events : List Event := []
  deriving DecidableEq, Repr

section

variable {T ν : Type} [LinearOrder T]

abbrev Act (T ν β : Type) := Action (Choice ν) (Shared T) Thread Exn β

abbrev Code (T ν α : Type) := Prog (Choice ν) (Shared T) Thread Exn α

namespace Act

/-- A question to the environment. -/
def ask {β : Type} (answer : Choice ν → Except Exn β) : Act T ν β where
  next c s t := (answer c, s, t)

/-- `self._lock.acquire(blocking=False)` -/
def acquire : Act T ν Unit where
  next _ s t :=
    match s.locked with
    | none => (.ok (), { s with locked := some t.id }, t)
    | some _ => (.error (.boundary "governance.session_request_busy"), s, t)

/-- `self._lock.release()` -/
def release : Act T ν Unit where
  next _ s t := (.ok (), { s with locked := none }, t)

/-- `self.audit_sink.write(record)` -/
def write (record : AuditRecord) : Act T ν Unit where
  next c s t :=
    match c.audit with
    | .ok () => (.ok (), s, { t with events := t.events ++ [.wrote record] })
    | .error e => (.error e, s, t)

/-- `_identity.get()` -/
def identity : Act T ν (Option RequestIdentity) where
  next _ s t := (.ok t.vars.identity, s, t)

/-- `_identity.set(identity)`; the token has the value before. -/
def setIdentity (identity : RequestIdentity) : Act T ν (Option RequestIdentity) where
  next _ s t := (.ok t.vars.identity, s, { t with vars := { t.vars with identity := some identity } })

/-- `_identity.reset(token)` -/
def resetIdentity (token : Option RequestIdentity) : Act T ν Unit where
  next _ s t := (.ok (), s, { t with vars := { t.vars with identity := token } })

/-- `Path(database).resolve()` -/
def resolve (files : ResolvedPath → ResolvedPath) (database : ResolvedPath) : Act T ν ResolvedPath where
  next c s t :=
    match c.resolve with
    | .ok () => (.ok (files database), s, t)
    | .error e => (.error e, s, t)

/-- `get_ident()` and `_current_task()` -/
def position : Act T ν (Nat × Option Nat) where
  next _ s t := (.ok (t.id, t.task), s, t)

/-- `_session_write.set(context)` -/
def setSession (context : SessionWriteContext) : Act T ν (Option SessionWriteContext) where
  next _ s t :=
    (.ok t.vars.session, s,
      { t with vars := { t.vars with session := some context }, events := t.events ++ [.bound context] })

/-- `_session_write.reset(token)` -/
def resetSession (token : Option SessionWriteContext) : Act T ν Unit where
  next _ s t := (.ok (), s, { t with vars := { t.vars with session := token } })

/-- The entry of `agent.run`. -/
def enterRun (call : AgentCall) : Act T ν Unit where
  next _ s t :=
    (.ok (), { s with running := s.running ++ [t.id] }, { t with events := t.events ++ [.entered t.vars call] })

/-- The end of `agent.run`: it has returned or raised. -/
def leaveRun : Act T ν (Payload ν) where
  next c s t := (c.run, { s with running := s.running.erase t.id }, { t with vars := c.vars })

variable (clock : Clock T)

/-- `_SessionWriteLease(deadline=monotonic() + timeout_seconds)` -/
def bindLease [Add T] (timeout : T) : Act T ν Nat where
  next _ s t :=
    (.ok s.leases.nodes.size, { s with leases := s.leases.bindSessionWrite clock (some timeout) }, t)

/-- The `except` and `finally` clauses of `bind_session_write`, for the way its body ended. -/
def leaveLease {α : Type} (lease : Nat) (result : Except Exn α) : Act T ν Unit where
  next _ s t :=
    let exit : ProjectMaya.Exit := match result with
      | .ok _ => .normal
      | .error .cancelled => .cancelled
      | .error _ => .raised
    (.ok (), { s with leases := s.leases.exitScope clock lease exit }, t)

/-- Any call on the leases. -/
def lease [Add T] (call : LeaseCall T) : Act T ν Unit where
  next _ s t := (.ok (), { s with leases := s.leases.step clock call }, t)

end Act

def refuse {α : Type} (code : String) : Code T ν α := .raise (.boundary code)

def refuseIf (c : Prop) [Decidable c] (code : String) : Code T ν Unit := .raiseIf c (.boundary code)

/-- `except Exception: raise GovernanceBoundaryError(code)` -/
def anyAs {α : Type} (code : String) (p : Code T ν α) : Code T ν α :=
  Prog.mapError p fun e => pure (if e.isException then .boundary code else e)

/-- What a check of the governance module raises. -/
def Exn.ofRaised : Raised → Exn
  | .boundary code => .boundary code
  | .interrupt => .interrupt
  | _ => .failure

def checked {α : Type} (x : Except Raised α) : Code T ν α := .done (x.mapError Exn.ofRaised)

/-! ## Scopes -/

/-- `bind_request_identity` around a body. -/
def bindRequestIdentity {α : Type} (actorId classification : String) (body : Code T ν α) : Code T ν α := do
  let identity ← checked (requestIdentity actorId classification)
  let token ← .perform (Act.setIdentity identity)
  Prog.ensuring body (.perform (Act.resetIdentity token))

/-- `SESSION_OPERATIONS` -/
def sessionOperations : List String := ["create", "append", "rewrite", "compact", "delete", "metadata"]

section

variable (clock : Clock T) [Add T] [OfNat T 0] [OfNat T 3600] {files : ResolvedPath → ResolvedPath}

/-- The checks of `bind_session_write`. -/
def sessionChecks (requestId sessionId : String) (operations : List String) (timeout : T) :
    Except Raised Unit := do
  ensure (identifier requestId ∧ identifier sessionId) (.boundary "governance.session_context_invalid")
  ensure (operations ≠ [] ∧ ∀ operation ∈ operations, operation ∈ sessionOperations)
    (.boundary "governance.session_context_invalid")
  ensure (0 < timeout ∧ timeout ≤ 3600) (.boundary "governance.request_timeout_invalid")

/-- The body of `bind_session_write` in its context: however it ends, its lease is revoked and
the context variable reset. -/
def sessionScope {α : Type} (context : SessionWriteContext) (body : Code T ν α) : Code T ν α := do
  let token ← .perform (Act.setSession context)
  body.andThen fun result => do
    .perform (Act.leaveLease clock context.lease result)
    .perform (Act.resetSession token)
    .done result

/-- `bind_session_write` around a body. -/
def bindSessionWrite {α : Type} (requestId : String) (b : Binding T files) (body : Code T ν α) :
    Code T ν α := do
  let bound ← .perform Act.identity
  let identity ← checked (fetch bound (.boundary "governance.identity_missing"))
  checked (sessionChecks requestId b.sessionId b.operations b.timeout)
  let lease ← .perform (Act.bindLease clock b.timeout)
  let database ← .perform (Act.resolve files b.database)
  let (threadId, task) ← .perform Act.position
  sessionScope clock
    { identity, requestId, sessionId := b.sessionId, database, operations := b.operations
      threadId, task, lease } body

/-- `authenticated_request` once it has the lock. -/
def lockedRequest {α : Type} (b : Binding T files) (identity : RequestIdentity) (body : Code T ν α) :
    Code T ν α := do
  let requestId ← .perform (Act.ask Choice.requestId)
  anyAs "governance.audit_unavailable"
    (.perform (Act.write (Reader.requestRecord identity b.sessionId requestId)))
  bindRequestIdentity identity.actorId identity.dataClassification
    (bindSessionWrite clock requestId b body)

/-- `authenticated_request` around a body. -/
def authenticatedRequest {α : Type} (b : Binding T files) (identity : RequestIdentity) (body : Code T ν α) :
    Code T ν α := do
  refuseIf (identity ≠ b.owner) "governance.session_owner_mismatch"
  anyAs "governance.session_contract_unavailable" do
    let ready ← .perform (Act.ask Choice.contract)
    .raiseIf (!ready) .failure
  .perform Act.acquire
  Prog.ensuring (lockedRequest clock b identity body) (.perform Act.release)

end

/-! ## Requests -/

/-- `REQUEST_BINDING_CONTRACT` -/
def requestBindingContract : String := "project-maya.authenticated-session-request.v1"

/-- `agent.run` -/
def agentRun (call : AgentCall) : Code T ν (Payload ν) := do
  .perform (Act.enterRun call)
  .perform Act.leaveRun

/-- `except ActionDeniedError: return …` -/
def deniedAs (response : Response ν) (p : Code T ν (Response ν)) : Code T ν (Response ν) :=
  p.andThen fun
    | .error (.boundary _) | .error .actionDenied => pure response
    | result => .done result

/-- The `except` clauses of `_run`. -/
def runErrors (p : Code T ν (Response ν)) : Code T ν (Response ν) :=
  p.andThen fun
    | .ok response => pure response
    | .error (.boundary _) | .error .actionDenied => pure (jsonResponse 403 "action_denied" "action denied")
    | .error .agentError => pure (jsonResponse 409 "agent_unavailable" "agent unavailable")
    | .error .failure => pure (jsonResponse 500 "request_failed" "request failed")
    | .error e => .raise e

/-- What `_run` takes from a request. -/
structure RunInput where
  message : String
  idempotencyKey : Option String
  dataClassification : String
  /-- The request names its classification. -/
  classified : Bool
  deriving DecidableEq, Repr

/-- A text that is not blank. -/
def textOf (loc : Broker.Locale) : Payload ν → Option String
  | .str text => if loc.strip text = "" then none else some text
  | _ => none

/-- `None` or a text. -/
def optionalText : Payload ν → Option (Option String)
  | .none => some none
  | .str text => some (some text)
  | _ => none

section

variable (loc : Broker.Locale)

/-- The checks of `_run` between the JSON and the agent. -/
def runInput (bound : Bool) (payload : Dict ν) : Except (Response ν) RunInput := do
  let invalid (message : String) : Response ν := jsonResponse 400 "invalid_request" message
  ensure (bound = true → ∀ item ∈ payload,
      item.1 ∈ [.str "input", .str "idempotency_key", .str "data_classification"])
    (invalid "unsupported request fields")
  let message ← fetch (textOf loc (payload.get "input")) (invalid "input is required")
  let idempotencyKey ← fetch (optionalText (payload.get "idempotency_key"))
    (invalid "idempotency_key must be a string")
  let dataClassification ← fetch (textOf loc (payload.getD "data_classification" (.str "internal")))
    (invalid "data_classification must be a string")
  return { message, idempotencyKey, dataClassification
           classified := payload.any fun item => item.1 = .str "data_classification" }

variable (clock : Clock T) [Add T] [OfNat T 0] [OfNat T 3600] {files : ResolvedPath → ResolvedPath}
  (api : LocalAPI T files)

/-- The answer to a request that ran under the binding. -/
def boundResult (result : Payload ν) : Response ν where
  statusCode := 200
  body := [(.str "result", result), (.str "session_binding_contract", .str requestBindingContract),
    (.str "qualification", .str "source_candidate_only")]

/-- `_run` with its input. -/
def runAgent (identity : Option RequestIdentity) (input : RunInput) : Code T ν (Response ν) :=
  match api.binding, identity with
  | some _, none => pure (jsonResponse 403 "action_denied" "action denied")
  | some b, some identity =>
    if input.classified = true ∧ input.dataClassification ≠ identity.dataClassification then
      pure (jsonResponse 403 "action_denied" "action denied")
    else runErrors do
      let result ← authenticatedRequest clock b identity (agentRun
        { message := input.message
          idempotencyKey := input.idempotencyKey.map hash
          dataClassification := identity.dataClassification })
      return boundResult result
  | none, _ => runErrors do
    let result ← agentRun
      { message := input.message
        idempotencyKey := input.idempotencyKey
        dataClassification := input.dataClassification }
    return { statusCode := 200, body := [(.str "result", result)] }

/-- `json.loads(text)`; `none` when it raises `JSONDecodeError`. -/
abbrev Loads (ν : Type) := String → Except Exn (Option (Payload ν))

variable (loads : Loads ν)

/-- `_run` -/
def runRequest (request : Request) (identity : Option RequestIdentity) : Code T ν (Response ν) :=
  if loc.upper request.method ≠ "POST" then
    pure (jsonResponse 405 "method_not_allowed" "method not allowed")
  else
    match (String.fromUTF8? request.body).map loads with
    | none | some (.ok none) => pure (jsonResponse 400 "invalid_json" "request body must be JSON")
    | some (.error e) => .raise e
    | some (.ok (some (.mapping _ payload))) =>
      match runInput loc api.binding.isSome payload with
      | .error response => pure response
      | .ok input => runAgent clock api identity input
    | some (.ok (some _)) => pure (jsonResponse 400 "invalid_request" "request body must be an object")

/-- `_health` -/
def health (request : Request) : Code T ν (Response ν) :=
  if loc.upper request.method ≠ "GET" then
    pure (jsonResponse 405 "method_not_allowed" "method not allowed")
  else do
    let state ← .perform (Act.ask Choice.health)
    return { statusCode := 200, body := [(.str "status", .str "ok"), (.str "runtime", .str state)] }

/-- The answer to `GET /v1/session-binding`. -/
def bindingResponse : Response ν where
  statusCode := 200
  body := [(.str "session_binding_contract", .str requestBindingContract),
    (.str "qualification", .str "source_candidate_only")]

def sessionBinding (request : Request) (identity : Option RequestIdentity) : Code T ν (Response ν) :=
  if loc.upper request.method ≠ "GET" then
    pure (jsonResponse 405 "method_not_allowed" "method not allowed")
  else
    match api.binding, identity with
    | some b, some identity =>
      deniedAs (jsonResponse 403 "action_denied" "action denied")
        (authenticatedRequest clock b identity (pure bindingResponse))
    | _, _ => pure (jsonResponse 403 "action_denied" "action denied")

/-- `authenticated` and `identity` of `handle`. -/
def authenticate : Code T ν (Bool × Option RequestIdentity) :=
  match api.binding with
  | some _ => (Prog.perform (Act.ask Choice.authenticateIdentity)).andThen fun
    | .ok identity => pure (identity.isSome, identity)
    | .error e => if e.isException then pure (false, none) else .raise e
  | none => do
    let authenticated ← .perform (Act.ask Choice.authenticate)
    return (authenticated, none)

/-- `handle` of an authenticated request. -/
def route (request : Request) (identity : Option RequestIdentity) : Code T ν (Response ν) :=
  let required := header loc request.headers "x-maya-session-binding"
  if required ≠ "" ∧ (api.binding.isNone ∨ required ≠ requestBindingContract) then
    pure (jsonResponse 403 "action_denied" "action denied")
  else if api.maxBodyBytes < request.body.size then
    pure (jsonResponse 413 "request_too_large" "request body too large")
  else if request.path = "/v1/health" then health loc request
  else if request.path = "/v1/run" then runRequest loc clock api loads request identity
  else if request.path = "/v1/session-binding" then sessionBinding loc clock api request identity
  else pure (jsonResponse 404 "not_found" "route not found")

/-- `handle` -/
def handle (request : Request) : Code T ν (Response ν) :=
  if ¬ "/v1/".toList.isPrefixOf request.path.toList then
    pure (jsonResponse 404 "not_found" "route not found")
  else do
    let (authenticated, identity) ← authenticate api
    if authenticated then route loc clock api loads request identity
    else pure (jsonResponse 401 "unauthorized" "authentication required")

/-! ## The threads -/

/-- What a thread does: it handles a request, or works on a lease that it can reach. -/
inductive Task (T : Type) where
  | handle (request : Request)
  | lease (call : LeaseCall T)

/-- A thread that dies takes its context variables with it, and leaves the lock as it is. -/
def threads : System (Choice ν) (Shared T) Thread Exn (Task T) (Option (Response ν)) where
  prog
    | .handle request => do
      let response ← handle loc clock api loads request
      return some response
    | .lease call => do
      .perform (Act.lease clock call)
      return none
  enter t := { t with outer := t.vars, events := [] }
  die s t := (s, { id := t.id, task := t.task })

end

end

end ProjectMaya.LocalApi
