import ProjectMaya.Logic.Json
import ProjectMaya.Logic.Sha256

/-! # Identities, policy requests and audit records

The values that hosts, gateways and audit sinks exchange. -/

namespace ProjectMaya

open Logic

/-- `_digest`. -/
def digest (raw : List UInt8) : String := Sha256.hexdigest raw

/-- `_hash`. -/
def hash (value : String) : String := "sha256:" ++ digest (utf8 value.toList)

structure RequestIdentity where
  actorId : String
  dataClassification : String := "confidential"
  deriving DecidableEq, Repr

structure ActionRequest where
  actorId : String
  capability : String
  target : String
  operation : String
  dataClassification : String := "internal"
  idempotencyKey : Option String := none
  metadata : List (String × String) := []
  deriving DecidableEq, Repr

/-- What comes back from `gateway.authorize`: an `AuthorizationResult`, some other object,
or an exception. -/
inductive GatewayReply where
  | result (allowed : Bool) (constraints : List String) (redactions : List (String × String))
  | other
  | raised
  deriving DecidableEq, Repr

/-- `isinstance(result, AuthorizationResult) and result.allowed and not result.constraints
and not result.redactions`; `none` when the gateway raised. -/
def GatewayReply.allowed : GatewayReply → Option Bool
  | .result allowed constraints redactions =>
    some (allowed && constraints.isEmpty && redactions.isEmpty)
  | .other => some false
  | .raised => none

structure AuditRecord where
  eventType : String
  decision : String
  reasonCode : String
  actorId : String
  capability : String
  target : String
  operation : String
  dataClassification : String
  idempotencyKey : Option String := none
  metadata : List (String × String) := []
  deriving DecidableEq, Repr

def transitionContract : String := "project-maya.session-transition.v1"

/-- `_IDENTIFIER.fullmatch`: 1 to 128 letters, digits or `_.:@-`. -/
def identifier (value : String) : Bool :=
  let cs := value.toList
  1 ≤ cs.length && cs.length ≤ 128 &&
    cs.all fun c => c.isAlphanum || ['_', '.', ':', '@', '-'].contains c

structure CreateSessionDescriptor where
  contract : String
  instanceId : String
  database : String
  principal : String
  classification : String
  bindingVersion : Int
  routeSlot : String
  expectedRouteVersion : Int
  targetSession : String
  requestId : String
  correlationId : String
  operation : String := "create"
  deriving DecidableEq, Repr

namespace CreateSessionDescriptor

/-- `asdict(self)`. -/
def asdict (d : CreateSessionDescriptor) : List (String × Json) :=
  [("contract", .str d.contract), ("instance_id", .str d.instanceId),
   ("database", .str d.database), ("principal", .str d.principal),
   ("classification", .str d.classification), ("binding_version", .num d.bindingVersion),
   ("route_slot", .str d.routeSlot), ("expected_route_version", .num d.expectedRouteVersion),
   ("target_session", .str d.targetSession), ("request_id", .str d.requestId),
   ("correlation_id", .str d.correlationId), ("operation", .str d.operation)]

def digest (d : CreateSessionDescriptor) : String :=
  hash (String.ofList (Json.dumps (.obj d.asdict)))

end CreateSessionDescriptor

/-- The limits of `CandidateCreateSessionBinding`, fixed by the host. -/
structure Binding where
  owner : RequestIdentity
  instanceId : String
  database : String
  routeSlot : String
  bindingVersion : Int
  deriving DecidableEq, Repr

/-- The host still has the limits that the descriptor states. -/
def Binding.limitsKept (b : Binding) (identity : RequestIdentity)
    (d : CreateSessionDescriptor) : Bool :=
  identity = b.owner && d.principal = identity.actorId &&
    d.classification = identity.dataClassification && d.instanceId = b.instanceId &&
    d.database = b.database && d.routeSlot = b.routeSlot && d.bindingVersion = b.bindingVersion

/-- What `_check` asks of the descriptor itself. -/
def CreateSessionDescriptor.wellFormed (d : CreateSessionDescriptor) : Bool :=
  d.contract = transitionContract && d.operation = "create" && d.expectedRouteVersion = 0 &&
    [d.targetSession, d.requestId, d.correlationId].all identifier

end ProjectMaya
