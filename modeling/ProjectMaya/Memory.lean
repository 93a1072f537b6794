import ProjectMaya.Store

/-! # What a host process remembers

The descriptors of reset and switch, and the fields of `CandidateCallerPreparation`,
`CandidateResetPreparation` and `CandidateSwitchPreparation` that live in one process
only.  A confirmation is the tuple that the process keeps after a preparation has ended
normally, and that its reader compares with the tables later. -/

namespace ProjectMaya

open Logic

def resetContract : String := "project-maya.native-session-reset.v1"

def switchContract : String := "project-maya.native-session-switch.v1"

structure ResetDescriptor where
  instanceId : String
  database : String
  principal : String
  classification : String
  bindingVersion : Int
  routeSlot : String
  sourceSession : String
  targetSession : String
  expectedRouteVersion : Int
  requestId : String
  correlationId : String
  contract : String := resetContract
  operation : String := "reset"
  deriving DecidableEq, Repr

structure SwitchDescriptor where
  instanceId : String
  database : String
  principal : String
  classification : String
  bindingVersion : Int
  targetBindingVersion : Int
  routeSlot : String
  sourceSession : String
  targetSession : String
  expectedRouteVersion : Int
  priorResetCorrelation : String
  requestId : String
  correlationId : String
  contract : String := switchContract
  operation : String := "switch"
  deriving DecidableEq, Repr

def ResetDescriptor.asdict (d : ResetDescriptor) : List (String × Json) :=
  [("instance_id", .str d.instanceId), ("database", .str d.database),
   ("principal", .str d.principal), ("classification", .str d.classification),
   ("binding_version", .num d.bindingVersion), ("route_slot", .str d.routeSlot),
   ("source_session", .str d.sourceSession), ("target_session", .str d.targetSession),
   ("expected_route_version", .num d.expectedRouteVersion), ("request_id", .str d.requestId),
   ("correlation_id", .str d.correlationId), ("contract", .str d.contract),
   ("operation", .str d.operation)]

def ResetDescriptor.digest (d : ResetDescriptor) : String :=
  hash (String.ofList (Json.dumps (.obj d.asdict)))

def SwitchDescriptor.asdict (d : SwitchDescriptor) : List (String × Json) :=
  [("instance_id", .str d.instanceId), ("database", .str d.database),
   ("principal", .str d.principal), ("classification", .str d.classification),
   ("binding_version", .num d.bindingVersion),
   ("target_binding_version", .num d.targetBindingVersion), ("route_slot", .str d.routeSlot),
   ("source_session", .str d.sourceSession), ("target_session", .str d.targetSession),
   ("expected_route_version", .num d.expectedRouteVersion),
   ("prior_reset_correlation", .str d.priorResetCorrelation), ("request_id", .str d.requestId),
   ("correlation_id", .str d.correlationId), ("contract", .str d.contract),
   ("operation", .str d.operation)]

def SwitchDescriptor.digest (d : SwitchDescriptor) : String :=
  hash (String.ofList (Json.dumps (.obj d.asdict)))

/-- `_phase` of a preparation. -/
inductive Phase where
  | idle | preparing | acknowledging | failed
  deriving DecidableEq, Repr

/-- `CandidateResetPreparation._confirmed`. -/
structure ResetConfirmation where
  target : String
  routeSlot : String
  database : String
  instanceId : String
  correlationId : String
  descriptorDigest : String
  principal : String
  bindingVersion : Int
  generation : Int
  projectionHash : String
  deriving DecidableEq, Repr

/-- `CandidateSwitchPreparation._confirmed`: `history` is the create and the reset row of
the switched sessions, `current` the row of the switch. -/
structure SwitchConfirmation where
  target : String
  source : String
  routeSlot : String
  database : String
  instanceId : String
  history : Transition × Transition
  current : Transition
  deriving DecidableEq, Repr

/-- The preparations of one process.  An authority is known by its descriptor. -/
structure Memory where
  callerPhase : Phase := .idle
  callerCurrent : Option CreateSessionDescriptor := none
  resetPhase : Phase := .idle
  resetCurrent : Option ResetDescriptor := none
  resetConfirmed : Option ResetConfirmation := none
  switchPhase : Phase := .idle
  switchCurrent : Option SwitchDescriptor := none
  switchHistory : Option (Transition × Transition) := none
  switchCleanup : Option SwitchDescriptor := none
  switchConfirmed : Option SwitchConfirmation := none
  deriving DecidableEq, Repr

end ProjectMaya
