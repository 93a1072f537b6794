import Mathlib.Data.List.Sort
import Mathlib.Data.String.Basic
import ProjectMaya.Doctor

/-! # Setup and repair

The plans of `repair_local_state` and `plan_setup`, which are not applied.  What is only shown to the
operator (hints, targets, commands) is left out. -/

namespace ProjectMaya.Setup

open Logic Release
open ProjectMaya.Broker (BrokerMode CredentialMode Edition)
open ProjectMaya.Configuration (ComponentProfile brokerModeValue editionValue)
open Doctor (child parentOf evaluateEnabledProfileReadiness ProfileReadiness Readiness)

/-- What the setup reads of the configuration beyond what the doctor reads. -/
structure Config extends Doctor.Config where
  edition : Edition
  brokerMode : BrokerMode
  networkPolicy : String
  /-- `config.llm.credential_ref` -/
  credentialRef : Option String
  /-- `integration.credential_mode` -/
  credentialMode : String → CredentialMode

inductive Failure where
  /-- `ConfigError` -/
  | config (message : String)
  /-- `RepairError` -/
  | repair (message : String)
  /-- `RepairError` of a target -/
  | target (path : PurePath)
  | doctor (e : Doctor.Exn)
  deriving DecidableEq, Repr

/-! ## Repair -/

structure RepairAction where
  path : PurePath
  action : String
  status : String
  category : String := "filesystem"
  severity : String := "info"
  deriving DecidableEq, Repr

/-- `REQUIRED_DIRECTORIES`, by their parts. -/
def requiredDirectories : List (List String) :=
  [["memory"], ["memory", "registry"], ["memory", "vector"], ["memory", "holographic"],
    ["memory", "context"], ["governance"], ["governance", "policies"], ["governance", "audit"],
    ["tasks"], ["integrations"], ["integrations", "google"], ["integrations", "slack"],
    ["integrations", "telegram"], ["analytics"], ["analytics", "exports"], ["metabase"],
    ["metabase", "provisioning"], ["documents"], ["documents", "outputs"], ["documents", "cache"],
    ["updates"], ["backups"], ["migrations"], ["logs"], ["cache"]]

/-- `_repair_category` of a target, by its parts in the data directory. -/
def repairCategory : List String → String
  | "memory" :: _ => "memory"
  | "governance" :: _ => "governance"
  | "tasks" :: _ => "tasks"
  | "integrations" :: _ => "connectors"
  | "analytics" :: _ => "analytics"
  | "metabase" :: _ => "metabase"
  | "documents" :: _ => "documents"
  | "updates" :: _ => "update"
  | "backups" :: _ => "backup"
  | "migrations" :: _ => "migration"
  | "logs" :: _ => "logs"
  | "cache" :: _ => "cache"
  | _ => "filesystem"

section

variable {O : Type} (host : Doctor.Host O) (config : Config)

/-- `data_dir / name` -/
def target (parts : List String) : PurePath :=
  { config.dataDir with parts := config.dataDir.parts ++ parts }

/-- `_ensure_repairable_root` -/
def ensureRepairableRoot : Except Failure Unit := do
  let dataDir := host.entry config.dataDir
  ensure (dataDir.present = true → dataDir.isDir = true)
    (.repair "deployment.data_dir exists but is not a directory")
  ensure ((host.entry (parentOf config.dataDir)).isDir = true)
    (.repair "deployment.data_dir parent does not exist")

/-- The action for a target. -/
def repairAction (parts : List String) : Except Failure RepairAction :=
  let path := target config parts
  let entry := host.entry path
  if entry.present then do
    ensure (entry.isDir = true) (.target path)
    return { path, action := "none", status := "exists", category := repairCategory parts }
  else
    return { path, action := "create_directory", status := "planned"
             category := repairCategory parts, severity := "warn" }

/-- `config.validate()` -/
def validate : Except Failure Unit :=
  match config.invalid with
  | some message => .error (.config message)
  | none => .ok ()

/-- The actions of `repair_local_state`. -/
def repairLocalState : Except Failure (List RepairAction) := do
  validate config
  ensureRepairableRoot host config
  ([] :: requiredDirectories).mapM (repairAction host config)

/-! ## Setup -/

inductive SetupSeverity where
  | info | warn | blocked
  deriving DecidableEq, Repr

structure SetupAction where
  component : String
  category : String
  action : String
  status : String
  severity : SetupSeverity
  mutation : Bool
  manualAction : Bool := false
  deriving DecidableEq, Repr

/-- The actions of a `SetupPlan`. -/
structure SetupPlan where
  actions : List SetupAction
  deriving DecidableEq, Repr

def SetupPlan.blocked (plan : SetupPlan) : Bool :=
  plan.actions.any fun action => action.severity = .blocked

/-- `_from_repair_action` -/
def fromRepairAction (action : RepairAction) : SetupAction where
  component := action.category
  category := action.category
  action := action.action
  status := action.status
  severity := if action.status = "planned" then .warn else .info
  mutation := action.action ≠ "none"

/-- `_broker_severity` -/
def brokerSeverity : BrokerMode → SetupSeverity
  | .runtime | .setupOnly => .warn
  | .disabled => .info

/-- One step of `_integration_setup_actions`. -/
def integrationSetupAction (item : String × Doctor.Integration) : SetupAction :=
  let shown (status : String) (severity : SetupSeverity) (manualAction : Bool) : SetupAction :=
    { component := "connector." ++ item.1, category := "connectors"
      action := "validate_connector_setup", status, severity, mutation := false, manualAction }
  if !item.2.enabled then shown "disabled" .info false
  else match config.credentialMode item.1 with
    | .broker => shown "broker_pending" .warn true
    | .customerOwned => shown "customer_owned" .info true
    | .localOnly => shown "local_only" .info true
    | .disabled => shown "disabled" .info false

/-- `_integration_setup_actions` -/
def integrationSetupActions : List SetupAction :=
  (config.integrations.insertionSort fun a b => a.1 ≤ b.1).map (integrationSetupAction config)

/-- `_profile_setup_actions` -/
def profileSetupActions : List SetupAction :=
  [(ComponentProfile.metabase, "metabase"), (.documents, "documents"), (.messaging, "messaging"),
    (.localModels, "local-models")].map fun profile =>
    { component := profile.2, category := "profiles", action := "validate_profile_enabled"
      status := if profile.1 ∈ config.enabledProfiles then "enabled" else "not_configured"
      severity := .info, mutation := false }

/-- `_edition_setup_actions` -/
def editionSetupActions : List SetupAction :=
  [{ component := "edition", category := "setup", action := "validate_edition"
     status := editionValue config.edition, severity := .info, mutation := false },
   { component := "broker", category := "setup", action := "validate_broker_mode"
     status := brokerModeValue config.brokerMode, severity := brokerSeverity config.brokerMode
     mutation := false, manualAction := config.brokerMode ≠ .disabled },
   { component := "model", category := "setup", action := "validate_model_mode"
     status := config.llmMode, severity := .info, mutation := false
     manualAction := config.credentialRef.any fun ref => ref ≠ "" },
   { component := "network", category := "setup", action := "validate_network_policy"
     status := config.networkPolicy, severity := .info, mutation := false }] ++
  integrationSetupActions config ++ profileSetupActions config

/-- `DependencyReadinessStatus.value` -/
def readinessValue : Readiness → String
  | .available => "available"
  | .missingRequired => "missing_required"
  | .missingOptional => "missing_optional"
  | .unsupportedOs => "unsupported_os"
  | .customerManaged => "customer_managed"
  | .disabled => "disabled"
  | .unknown => "unknown"

/-- The severity of a profile's readiness. -/
def readinessSeverity : Readiness → SetupSeverity
  | .available | .customerManaged | .disabled => .info
  | .missingRequired => .blocked
  | _ => .warn

/-- One step of `_profile_readiness_actions`. -/
def profileReadinessAction (profile : ProfileReadiness) : SetupAction where
  component := profile.profile.value
  category := "dependencies"
  action := "validate_profile_readiness"
  status := readinessValue profile.status
  severity := readinessSeverity profile.status
  mutation := false
  manualAction := readinessSeverity profile.status ≠ .info

/-- The action on secret references. -/
def secretsAction : SetupAction where
  component := "secrets"
  category := "credentials"
  action := "validate_secret_references"
  status := "manual"
  severity := .info
  mutation := false
  manualAction := true

/-- `plan_setup` -/
def planSetup : Except Failure SetupPlan := do
  validate config
  let repair ← repairLocalState host config
  let profiles ← (evaluateEnabledProfileReadiness host config.toConfig).mapError .doctor
  return { actions := repair.map fromRepairAction ++ editionSetupActions config ++
    profiles.map profileReadinessAction ++ [secretsAction] }

end

end ProjectMaya.Setup
