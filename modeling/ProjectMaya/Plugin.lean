import ProjectMaya.Context
import ProjectMaya.Payload
import ProjectMaya.Logic.PosixPath

/-! # `MayaGovernancePlugin`

The callbacks that Hermes runs around every model call, tool call and session write.  What
they ask of others (the leases, the file system, the gateway, the audit sink, the next
callback) is an action; the environment chooses how each of them answers, and a trace
records what they answered. -/

namespace ProjectMaya

/-- `GovernanceDecision` -/
inductive Decision where
  | allow | deny | redact | constrain | requestConfirmation | requireApprover | defer
  deriving DecidableEq, Repr

def Decision.value : Decision → String
  | .allow => "allow"
  | .deny => "deny"
  | .redact => "redact"
  | .constrain => "constrain"
  | .requestConfirmation => "request_confirmation"
  | .requireApprover => "require_approver"
  | .defer => "defer"

structure AuthorizationResult where
  decision : Decision
  reasonCode : String
  auditRequired : Bool := true
  constraints : List String := []
  redactions : List (String × String) := []
  deriving DecidableEq, Repr

def AuthorizationResult.allowed (r : AuthorizationResult) : Bool := r.decision = .allow

namespace Plugin

open Logic

structure LlmConfig where
  mode : String
  provider : String
  model : String
  endpoint : Option String
  deriving DecidableEq, Repr

/-- What the plugin reads of `MayaConfig`. -/
structure Config where
  llm : LlmConfig
  dataDir : PurePath
  deriving DecidableEq, Repr

/-- How the collaborators answer at one action. -/
structure Choice (ν : Type) where
  gateway : Except Raised AuthorizationResult := .error .failure
  audit : Except Raised Unit := .ok ()
  nextCall : Except Raised (Payload ν) := .error .failure
  resolve : Except Raised ResolvedPath := .error .failure

instance {ν : Type} : Inhabited (Choice ν) := ⟨{}⟩

/-- What has happened in a call, oldest first. -/
inductive Event (ν : Type) where
  /-- `lease.is_active` was asked. -/
  | looked (lease : Nat) (active : Bool)
  /-- `path.resolve()` returned. -/
  | resolved (path : PurePath) (result : ResolvedPath)
  /-- `gateway.authorize` returned. -/
  | asked (action : ActionRequest) (result : AuthorizationResult)
  /-- `audit.write` returned. -/
  | wrote (record : AuditRecord)
  /-- `next_call` was entered. -/
  | called (payload : Payload ν)
  /-- `next_call` returned. -/
  | returned (result : Payload ν)

abbrev Trace (ν : Type) := List (Event ν)

section

variable {T ν : Type} [LinearOrder T] (clock : Clock T)

abbrev Act (T ν β : Type) [LinearOrder T] := Action (Choice ν) (Leases T) (Trace ν) Raised β

abbrev Code (T ν α : Type) [LinearOrder T] := Prog (Choice ν) (Leases T) (Trace ν) Raised α

namespace Act

/-- `lease.is_active` -/
def isActive (lease : Nat) : Act T ν Bool where
  next _ s t :=
    let (active, s') := s.isActive clock lease
    (.ok active, s', t ++ [.looked lease active])

/-- `path.resolve()` -/
def resolve (path : PurePath) : Act T ν ResolvedPath where
  next c s t :=
    match c.resolve with
    | .ok result => (.ok result, s, t ++ [.resolved path result])
    | .error e => (.error e, s, t)

/-- `self.gateway.authorize(action)` -/
def authorize (action : ActionRequest) : Act T ν AuthorizationResult where
  next c s t :=
    match c.gateway with
    | .ok result => (.ok result, s, t ++ [.asked action result])
    | .error e => (.error e, s, t)

/-- `self.audit.write(record)` -/
def write (record : AuditRecord) : Act T ν Unit where
  next c s t :=
    match c.audit with
    | .ok () => (.ok (), s, t ++ [.wrote record])
    | .error e => (.error e, s, t)

/-- The entry of `next_call(payload)`. -/
def call (payload : Payload ν) : Act T ν Unit where
  next _ s t := (.ok (), s, t ++ [.called payload])

/-- What `next_call` does then. -/
def awaitResult : Act T ν (Payload ν) where
  next c s t :=
    match c.nextCall with
    | .ok result => (.ok result, s, t ++ [.returned result])
    | .error e => (.error e, s, t)

end Act

/-- `next_call(payload)` -/
def nextCall (payload : Payload ν) : Code T ν (Payload ν) := do
  .perform (Act.call payload)
  .perform Act.awaitResult

def ofExcept {α : Type} (x : Except Raised α) : Code T ν α := .done x

def refuse {α : Type} (code : String) : Code T ν α := .raise (.boundary code)

def refuseIf (c : Prop) [Decidable c] (code : String) : Code T ν Unit :=
  .raiseIf c (.boundary code)

variable (config : Config) (who : Caller)

/-- `_actor` -/
def actor : Code T ν RequestIdentity :=
  match who.identity with
  | none => refuse "governance.identity_missing"
  | some identity =>
    match who.session with
    | none => pure identity
    | some bound => do
      let active ← .perform (Act.isActive clock bound.lease)
      refuseIf (¬ (active ∧ bound.ownedBy who)) "governance.session_context_missing"
      return identity

/-- The record that `_authorize` writes. -/
def authorizationRecord (action : ActionRequest) (result : AuthorizationResult) : AuditRecord where
  eventType := "authorization.hermes_boundary"
  decision := result.decision.value
  reasonCode := if result.allowed then "governance.allowed" else "governance.denied"
  actorId := action.actorId
  capability := action.capability
  target := hash action.target
  operation := action.operation
  dataClassification := action.dataClassification

/-- `except GovernanceBoundaryError: raise` and `except Exception: raise
GovernanceBoundaryError(code)`. -/
def boundaryOr (code : String) : Raised → Raised
  | .boundary code => .boundary code
  | .interrupt => .interrupt
  | _ => .boundary code

/-- `_authorize` -/
def authorize (action : ActionRequest) : Code T ν Unit :=
  Prog.mapError (do
    let result ← .perform (Act.authorize action)
    .perform (Act.write (authorizationRecord action result))
    refuseIf (!result.allowed ∨ result.constraints ≠ [] ∨ result.redactions ≠ [])
      "governance.action_denied")
    fun e => pure (boundaryOr "governance.authorization_unavailable" e)

/-- `_audit_block` -/
def auditBlock (capability : String) : Code T ν Unit :=
  Prog.mapError (.perform (Act.write
    { eventType := "denial.hermes_boundary", decision := "deny"
      reasonCode := "governance.boundary_blocked"
      actorId := (who.identity.map RequestIdentity.actorId).getD "unresolved"
      capability, target := "withheld", operation := "execute"
      dataClassification := (who.identity.map RequestIdentity.dataClassification).getD "restricted" }))
    fun e => pure (match e with
      | .interrupt => .interrupt
      | _ => .boundary "governance.audit_unavailable")

/-- `_PUBLIC_REASONS` -/
def publicReasons : List String :=
  ["identity_missing", "sensitive_payload", "payload_unsupported", "payload_too_large",
    "payload_invalid", "managed_gateway_unavailable", "model_route_mismatch",
    "model_route_invalid", "action_denied", "authorization_unavailable",
    "audit_unavailable", "model_execution_failed", "tool_execution_failed",
    "tool_unmapped", "file_target_invalid", "file_target_outside_root",
    "model_output_failed"]

/-- `_public_error`: the message with or without its `governance.` must be a public reason. -/
def publicError (message : String) : Raised :=
  let start := "governance.".toList
  let reason := if start.isPrefixOf message.toList then
    String.ofList (message.toList.drop start.length) else message
  .boundary (if publicReasons.contains reason then "governance." ++ reason
    else "governance.authorization_unavailable")

/-- The `except` clauses around the body of a callback: what it raised is audited as a
denial and made public. -/
def guarded {α : Type} (capability failed : String) (body : Code T ν α) : Code T ν α :=
  Prog.mapError body fun
    | .boundary message => do
      auditBlock who capability
      return publicError message
    | .interrupt => pure .interrupt
    | _ => do
      auditBlock who capability
      return .boundary failed

/-! ## Model calls -/

/-- The endpoint that the configuration expects. -/
def expectedEndpoint (llm : LlmConfig) : Option String :=
  if llm.endpoint = none ∧ llm.mode = "customer_owned" ∧ llm.provider = "openai" then
    some "https://api.openai.com/v1"
  else llm.endpoint

/-- `value == text` -/
def Payload.isText (value : Payload ν) (text : String) : Bool :=
  match value with
  | .str s => s = text
  | _ => false

/-- The checks of `model_execution` between the payload and the gateway: it raises unless
provider, endpoint and model are the configured ones and the endpoint is acceptable. -/
def modelRoute [Python ν] (llm : LlmConfig) (context request : Dict ν) : Except Raised Unit := do
  ensure (llm.mode ≠ "maya_managed") (.boundary "governance.managed_gateway_unavailable")
  let expected ← fetch ((expectedEndpoint llm).filter fun e => e ≠ "")
    (.boundary "governance.model_route_mismatch")
  ensure ((context.get "provider").isText llm.provider ∧ (context.get "base_url").isText expected)
    (.boundary "governance.model_route_mismatch")
  let parsed ← fetch (Python.urlsplit ν expected) .failure
  ensure ((parsed.username.getD "" = "" ∧ parsed.password.getD "" = "") ∧
    parsed.query = "" ∧ parsed.fragment = "") (.boundary "governance.model_route_invalid")
  ensure (parsed.scheme = "https" ∨ (llm.mode = "local" ∧ parsed.scheme = "http" ∧
    parsed.hostname ∈ ["127.0.0.1", "localhost", "::1"].map some))
    (.boundary "governance.model_route_invalid")
  ensure ((request.get "model").isText llm.model) (.boundary "governance.model_route_mismatch")

/-- The action that a model call is authorised as. -/
def modelAction (llm : LlmConfig) (identity : RequestIdentity) : ActionRequest where
  actorId := identity.actorId
  capability := "model.egress"
  target := "model:" ++ llm.provider
  operation := "infer"
  dataClassification := identity.dataClassification

/-- `model_execution` -/
def modelExecution [Python ν] (request context : Dict ν) : Code T ν (Payload ν) := do
  guarded who "model.egress" "governance.model_execution_failed" do
    let identity ← actor clock who
    let _ ← ofExcept (checkedPayload (.mapping true request))
    ofExcept (modelRoute config.llm context request)
    authorize (modelAction config.llm identity)
  -- Only a boundary error of the transport is audited and renamed.
  Prog.mapError (nextCall (.mapping true request)) fun
    | .boundary message => do
      auditBlock who "model.egress"
      return publicError message
    | e => pure e

/-- The checks of `model_output` between the payload and the gateway. -/
def outputRoute (llm : LlmConfig) (context : Dict ν) : Except Raised Unit := do
  let expected := (expectedEndpoint llm).getD ""
  ensure (llm.mode ≠ "maya_managed" ∧ expected ≠ "" ∧
    (context.get "provider").isText llm.provider ∧ (context.get "model").isText llm.model ∧
    (context.get "base_url").isText expected) (.boundary "governance.model_route_mismatch")

/-- The action that the disclosure of a model's answer is authorised as. -/
def outputAction (llm : LlmConfig) (identity : RequestIdentity) : ActionRequest where
  actorId := identity.actorId
  capability := "model.output"
  target := "model:" ++ llm.provider
  operation := "disclose"
  dataClassification := identity.dataClassification

def outputRecord (action : ActionRequest) : AuditRecord where
  eventType := "validation.hermes_model_output"
  decision := "allow"
  reasonCode := "governance.result_validated"
  actorId := action.actorId
  capability := action.capability
  target := hash action.target
  operation := action.operation
  dataClassification := action.dataClassification

/-- `model_output` -/
def modelOutput [Python ν] (result : Payload ν) (context : Dict ν) : Code T ν (Payload ν) :=
  guarded who "model.output" "governance.model_output_failed" do
    let identity ← actor clock who
    let _ ← ofExcept (checkedPayload result)
    ofExcept (outputRoute config.llm context)
    authorize (outputAction config.llm identity)
    .perform (Act.write (outputRecord (outputAction config.llm identity)))
    return result

/-! ## Tool calls -/

/-- `_document_path` -/
def documentPath (value : Payload ν) : Code T ν ResolvedPath :=
  match value with
  | .str text => do
    refuseIf (text = "") "governance.file_target_invalid"
    let root ← .perform (Act.resolve (config.dataDir.join (.parse "documents")))
    let path := PurePath.parse text
    let resolved ← .perform (Act.resolve
      (if path.isAbsolute then path else root.toPure.join path))
    refuseIf (root.toPure ∉ resolved.toPure.parents) "governance.file_target_outside_root"
    return resolved
  | _ => refuse "governance.file_target_invalid"

/-- The memory tools without a path: capability, target, operation. -/
def memoryTool : String → Option (String × String × String)
  | "maya_business_memory_search" => some ("memory.read", "*", "search")
  | "maya_business_memory_rebuild_embeddings" => some ("memory.write", "*", "rebuild_embeddings")
  | _ => none

/-- The tools with a path: capability and operation. -/
def fileTool : String → Option (String × String)
  | "maya_business_memory_ingest" => some ("memory.ingest", "read_and_ingest")
  | "read_file" => some ("file.read", "read")
  | "write_file" => some ("file.write", "write")
  | _ => none

/-- `_tool_action` -/
def toolAction (name : String) (args : Dict ν) (identity : RequestIdentity) :
    Code T ν ActionRequest :=
  match fileTool name with
  | some (capability, operation) => do
    let path ← documentPath config (args.get "path")
    return { actorId := identity.actorId, capability, target := path.text, operation
             dataClassification := identity.dataClassification }
  | none =>
    match memoryTool name with
    | some (capability, target, operation) =>
      pure { actorId := identity.actorId, capability, target, operation
             dataClassification := identity.dataClassification }
    | none => refuse "governance.tool_unmapped"

/-- The record of a result that passed its check. -/
def resultRecord (action : ActionRequest) : AuditRecord where
  eventType := "validation.hermes_tool_result"
  decision := "allow"
  reasonCode := "governance.result_validated"
  actorId := action.actorId
  capability := action.capability
  target := hash action.target
  operation := action.operation
  dataClassification := action.dataClassification

/-- `_result` -/
def validResult [Python ν] (action : ActionRequest) (result : Payload ν) :
    Code T ν (Payload ν) := do
  let _ ← ofExcept (checkedPayload result)
  .perform (Act.write (resultRecord action))
  return result

/-- The arguments that reach the tool: a path is replaced by the authorised one. -/
def effectiveArgs (name : String) (args : Dict ν) (action : ActionRequest) : Dict ν :=
  if (fileTool name).isSome then args.set "path" (.str (PurePath.parse action.target).text)
  else args

/-- `tool_execution` -/
def toolExecution [Python ν] (name : String) (args : Dict ν) : Code T ν (Payload ν) :=
  guarded who "tool.execute" "governance.tool_execution_failed" do
    let identity ← actor clock who
    let _ ← ofExcept (checkedPayload (.mapping true args))
    let action ← toolAction config name args identity
    authorize action
    let result ← nextCall (.mapping true (effectiveArgs name args action))
    validResult action result

/-- `tool_result` -/
def toolResult [Python ν] (name : String) (args : Dict ν) (result : Payload ν) :
    Code T ν (Payload ν) :=
  guarded who "tool.result" "governance.tool_execution_failed" do
    let identity ← actor clock who
    let _ ← ofExcept (checkedPayload (.mapping true args))
    let action ← toolAction config name args identity
    validResult action result

end

end Plugin

end ProjectMaya
