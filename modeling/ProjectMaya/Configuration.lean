import ProjectMaya.BrokerTokens
import ProjectMaya.Documents
import ProjectMaya.Logic.PosixPath

/-! # The configuration, read and written

`configFromMapping` reads a mapping that comes from JSON, section by section, and validates what
it has read; `configToMapping` writes a validated configuration as a mapping.  What is annotated
as a text is not checked to be one, so such a field holds whatever value the mapping has there.
Reading what was written gives the configuration back (`configFromMapping_configToMapping`). -/

namespace ProjectMaya.Configuration

open Logic
open ProjectMaya.Broker (BrokerMode CredentialMode Edition)
open ProjectMaya.Vector (Failure Python Text Value strip text)

inductive Error where
  | configError (message : Text)
  | attributeError
  | raised (failure : Failure)
  deriving DecidableEq, Repr

/-- `int` of a float and of a text, and the float `0.7`. -/
class Numerals (ν : Type) where
  truncate : ν → Except Failure Int
  ofText : Text → Option Int
  sevenTenths : ν

variable {ν : Type}

/-! ## Values -/

/-- `value[key]` -/
def item (value : Value ν) (key : String) : Except Error (Value ν) :=
  match value with
  | .dict fields => fetch (fields.lookup (text key)) (.raised .keyError)
  | _ => .error (.raised .typeError)

/-- `value.get(key, default)` -/
def get (value : Value ν) (key : String) (default : Value ν) : Except Error (Value ν) :=
  match value with
  | .dict fields => .ok ((fields.lookup (text key)).getD default)
  | _ => .error .attributeError

/-- `value.items()` -/
def items (value : Value ν) : Except Error (List (Text × Value ν)) :=
  match value with
  | .dict fields => .ok fields
  | _ => .error .attributeError

/-- `iter(value)` -/
def iterate (value : Value ν) : Except Error (List (Value ν)) :=
  match value with
  | .list _ items => .ok items
  | .dict fields => .ok (fields.map fun field => .str field.1)
  | .str s => .ok (s.map fun c => .str [c])
  | _ => .error (.raised .typeError)

/-- The arguments that `**value` passes to a function of these parameters. -/
def kwargs (value : Value ν) (params : List String) : Except Error (List (Text × Value ν)) :=
  match value with
  | .dict fields => do
    ensure (∀ field ∈ fields, field.1 ∈ params.map text) (.raised .typeError)
    pure fields
  | _ => .error (.raised .typeError)

/-- An argument without a default. -/
def required (args : List (Text × Value ν)) (param : String) : Except Error (Value ν) :=
  fetch (args.lookup (text param)) (.raised .typeError)

def optional (args : List (Text × Value ν)) (param : String) (default : Value ν) : Value ν :=
  (args.lookup (text param)).getD default

/-- `value.startswith(start)` -/
def startsWith (value : Value ν) (start : String) : Except Error Bool :=
  match value with
  | .str s => .ok ((text start).isPrefixOf s)
  | _ => .error .attributeError

def isText (value : Value ν) (s : String) : Bool :=
  match value with
  | .str t => t = text s
  | _ => false

def isNone : Value ν → Bool
  | .null => true
  | _ => false

/-- `int(value)` -/
def toInt [Numerals ν] : Value ν → Except Failure Int
  | .int n => .ok n
  | .bool b => .ok (if b then 1 else 0)
  | .float x => Numerals.truncate x
  | .str s => fetch (Numerals.ofText ν s) (.valueError "invalid literal for int()")
  | _ => .error .typeError

/-- What the source does not catch. -/
def raising {α : Type} : Except Failure α → Except Error α
  | .ok a => .ok a
  | .error e => .error (.raised e)

/-- `E(value)` for an enumeration of texts. -/
def enumeration {α : Type} (members : List α) (value : α → String) (v : Value ν) : Except Error α :=
  match v with
  | .str s =>
    fetch (members.find? fun m => text (value m) = s)
      (.raised (.valueError "not a valid member"))
  | _ => .error (.raised (.valueError "not a valid member"))

/-! ## Enumerations -/

inductive ComponentProfile where
  | core | metabase | documents | messaging | browser | localModels
  deriving DecidableEq, Repr

def ComponentProfile.value : ComponentProfile → String
  | .core => "maya-core"
  | .metabase => "maya-metabase"
  | .documents => "maya-documents"
  | .messaging => "maya-messaging"
  | .browser => "maya-browser"
  | .localModels => "maya-local-models"

def editionValue : Edition → String
  | .standard => "standard"
  | .enterprise => "enterprise"

def brokerModeValue : BrokerMode → String
  | .runtime => "runtime"
  | .setupOnly => "setup_only"
  | .disabled => "disabled"

def credentialModeValue : CredentialMode → String
  | .broker => "broker"
  | .customerOwned => "customer_owned"
  | .localOnly => "local_only"
  | .disabled => "disabled"

def toProfile : Value ν → Except Error ComponentProfile :=
  enumeration [.core, .metabase, .documents, .messaging, .browser, .localModels] (·.value)

def toEdition : Value ν → Except Error Edition := enumeration [.standard, .enterprise] editionValue

def toBrokerMode : Value ν → Except Error BrokerMode :=
  enumeration [.runtime, .setupOnly, .disabled] brokerModeValue

def toCredentialMode : Value ν → Except Error CredentialMode :=
  enumeration [.broker, .customerOwned, .localOnly, .disabled] credentialModeValue

theorem toProfile_value (m : ComponentProfile) :
    toProfile (.str (text m.value) : Value ν) = .ok m := by
  cases m <;> rfl

theorem toEdition_value (m : Edition) :
    toEdition (.str (text (editionValue m)) : Value ν) = .ok m := by
  cases m <;> rfl

theorem toBrokerMode_value (m : BrokerMode) :
    toBrokerMode (.str (text (brokerModeValue m)) : Value ν) = .ok m := by
  cases m <;> rfl

theorem toCredentialMode_value (m : CredentialMode) :
    toCredentialMode (.str (text (credentialModeValue m)) : Value ν) = .ok m := by
  cases m <;> rfl

/-! ## Records -/

/-- `Path`; nothing is lost when it is written. -/
structure Path where
  path : PurePath
  proper : path.Proper
  deriving DecidableEq, Repr

def toPath : Value ν → Except Error Path
  | .str s => .ok ⟨.parse (String.ofList s), PurePath.proper_parse _⟩
  | _ => .error (.raised .typeError)

def Path.value (p : Path) : Value ν := .str (text p.path.text)

theorem toPath_value (p : Path) : toPath (p.value : Value ν) = .ok p := by
  obtain ⟨path, proper⟩ := p
  have hparse : PurePath.parse (String.ofList (text path.text)) = path := by
    unfold text
    rw [String.ofList_toList]
    exact PurePath.parse_text proper
  unfold Path.value toPath
  simp only [hparse]

structure ProductConfig (ν : Type) where
  edition : Edition
  instanceId : Value ν

structure DeploymentConfig (ν : Type) where
  deploymentClass : Value ν
  networkPolicy : Value ν
  dataDir : Path

structure RuntimeConfig (ν : Type) where
  hermesCompatibility : Value ν
  enabledProfiles : List ComponentProfile
  hermesFactory : Value ν
  hermesRuntimeVersion : Value ν

structure BrokerConfig (ν : Type) where
  mode : BrokerMode
  endpoint : Value ν

structure ModelConfig (ν : Type) where
  mode : Value ν
  provider : Value ν
  model : Value ν
  credentialRef : Value ν
  endpoint : Value ν
  timeoutSeconds : Int

structure IntegrationConfig (ν : Type) where
  enabled : Bool
  credentialMode : CredentialMode
  credentialRef : Value ν

structure MemoryConfig (ν : Type) where
  hermesProvider : Value ν
  retriever : Value ν
  registry : Value ν
  governanceEnabled : Value ν

structure GovernanceConfig (ν : Type) where
  policyFile : Path
  auditEnabled : Bool
  defaultAction : Value ν
  minimumMemoryTrust : ν

structure MetabaseApplicationDatabaseConfig (ν : Type) where
  engine : Value ν
  credentialRef : Value ν

structure MetabaseAnalyticsSourceConfig (ν : Type) where
  name : Value ν
  engine : Value ν
  credentialRef : Value ν

structure MetabaseConfig (ν : Type) where
  enabled : Bool
  deployment : Value ν
  endpoint : Value ν
  applicationDatabase : Option (MetabaseApplicationDatabaseConfig ν)
  analyticsSources : List (MetabaseAnalyticsSourceConfig ν)

structure LocalAPIConfig (ν : Type) where
  bind : Value ν
  port : Value ν
  remoteAccess : Value ν

/-- A `dict` of integrations. -/
abbrev Integrations (ν : Type) := Table (Text × IntegrationConfig ν) Text Prod.fst

structure MayaConfig (ν : Type) where
  schemaVersion : Int
  product : ProductConfig ν
  deployment : DeploymentConfig ν
  runtime : RuntimeConfig ν
  broker : BrokerConfig ν
  llm : ModelConfig ν
  integrations : Integrations ν
  memory : MemoryConfig ν
  governance : GovernanceConfig ν
  metabase : MetabaseConfig ν
  localApi : LocalAPIConfig ν

/-- The comprehension over the items of a mapping: the last of a key wins. -/
def Integrations.ofItems (l : List (Text × IntegrationConfig ν)) : Integrations ν :=
  l.foldl (fun t f => t.upsert f (fun x => (x.1, f.2)) fun _ => rfl) .empty

/-- `a == b`: dictionaries are equal in whatever order. -/
structure MayaConfig.Same (a b : MayaConfig ν) : Prop where
  rest : { a with integrations := b.integrations } = b
  integrations : ∀ f, f ∈ a.integrations ↔ f ∈ b.integrations

/-! ## Reading -/

section Reading

variable [Python ν] [Numerals ν]

/-- `int(data["schema_version"])`, whose overflow is not caught. -/
def readSchemaVersion (data : Value ν) : Except Error Int := do
  let raw ← item data "schema_version"
  match toInt raw with
  | .ok n => .ok n
  | .error .overflowError => .error (.raised .overflowError)
  | .error _ => .error (.configError (text "schema_version must be an integer"))

def readIntegration (field : Text × Value ν) : Except Error (Text × IntegrationConfig ν) := do
  let enabled ← get field.2 "enabled" (.bool false)
  let rawMode ← item field.2 "credential_mode"
  let credentialMode ← toCredentialMode rawMode
  let credentialRef ← get field.2 "credential_ref" .null
  pure (field.1, { enabled := enabled.truthy, credentialMode, credentialRef })

def readIntegrations (data : Value ν) : Except Error (Integrations ν) := do
  let raw ← get data "integrations" (.dict [])
  let fields ← items raw
  let integrations ← fields.mapM readIntegration
  pure (.ofItems integrations)

def readAnalyticsSource (source : Value ν) : Except Error (MetabaseAnalyticsSourceConfig ν) := do
  let name ← item source "name"
  let engine ← item source "engine"
  let credentialRef ← item source "credential_ref"
  pure { name, engine, credentialRef }

def readAnalyticsSources (metabaseRaw : Value ν) :
    Except Error (List (MetabaseAnalyticsSourceConfig ν)) := do
  let raw ← get metabaseRaw "analytics_sources" (.list true [])
  let sources ← iterate raw
  sources.mapM readAnalyticsSource

def readProduct (data : Value ν) : Except Error (ProductConfig ν) := do
  let raw ← item data "product"
  let rawEdition ← item raw "edition"
  let edition ← toEdition rawEdition
  let instanceId ← item raw "instance_id"
  pure { edition, instanceId }

def readDeployment (data : Value ν) : Except Error (DeploymentConfig ν) := do
  let raw ← item data "deployment"
  let deploymentClass ← item raw "class"
  let networkPolicy ← item raw "network_policy"
  let rawDir ← item raw "data_dir"
  let dataDir ← toPath rawDir
  pure { deploymentClass, networkPolicy, dataDir }

def readRuntime (data : Value ν) : Except Error (RuntimeConfig ν) := do
  let raw ← item data "runtime"
  let hermesCompatibility ← item raw "hermes_compatibility"
  let rawProfiles ← get raw "enabled_profiles"
    (.list false [.str (text ComponentProfile.core.value)])
  let profiles ← iterate rawProfiles
  let enabledProfiles ← profiles.mapM toProfile
  let hermesFactory ← get raw "hermes_factory" (.str (text "run_agent:AIAgent"))
  let hermesRuntimeVersion ← get raw "hermes_runtime_version" .null
  pure { hermesCompatibility, enabledProfiles, hermesFactory, hermesRuntimeVersion }

def readBroker (data : Value ν) : Except Error (BrokerConfig ν) := do
  let raw ← get data "broker" (.dict [])
  let rawMode ← get raw "mode" (.str (text "disabled"))
  let mode ← toBrokerMode rawMode
  let endpoint ← get raw "endpoint" .null
  pure { mode, endpoint }

def readLlm (data : Value ν) : Except Error (ModelConfig ν) := do
  let raw ← item data "llm"
  let mode ← item raw "mode"
  let provider ← item raw "provider"
  let model ← item raw "model"
  let credentialRef ← get raw "credential_ref" .null
  let endpoint ← get raw "endpoint" .null
  let rawTimeout ← get raw "timeout_seconds" (.int 60)
  let timeoutSeconds ← raising (toInt rawTimeout)
  pure { mode, provider, model, credentialRef, endpoint, timeoutSeconds }

def readMemory (data : Value ν) : Except Error (MemoryConfig ν) := do
  let raw ← item data "memory"
  let args ← kwargs raw ["hermes_provider", "retriever", "registry", "governance_enabled"]
  let hermesProvider ← required args "hermes_provider"
  let retriever ← required args "retriever"
  let registry ← required args "registry"
  pure
    { hermesProvider, retriever, registry
      governanceEnabled := optional args "governance_enabled" (.bool true) }

def readGovernance (data : Value ν) : Except Error (GovernanceConfig ν) := do
  let raw ← item data "governance"
  let rawFile ← item raw "policy_file"
  let policyFile ← toPath rawFile
  let auditEnabled ← get raw "audit_enabled" (.bool true)
  let defaultAction ← get raw "default_action" (.str (text "deny"))
  let rawTrust ← get raw "minimum_memory_trust" (.float Numerals.sevenTenths)
  let minimumMemoryTrust ← raising rawTrust.toFloat
  pure { policyFile, auditEnabled := auditEnabled.truthy, defaultAction, minimumMemoryTrust }

def readApplicationDatabase (raw : Value ν) :
    Except Error (Option (MetabaseApplicationDatabaseConfig ν)) :=
  match raw with
  | .null => .ok none
  | raw => do
    let args ← kwargs raw ["engine", "credential_ref"]
    let engine ← required args "engine"
    let credentialRef ← required args "credential_ref"
    pure (some { engine, credentialRef })

def readMetabase (metabaseRaw : Value ν) (appDbRaw : Value ν)
    (analyticsSources : List (MetabaseAnalyticsSourceConfig ν)) :
    Except Error (MetabaseConfig ν) := do
  let enabled ← item metabaseRaw "enabled"
  let deployment ← item metabaseRaw "deployment"
  let endpoint ← get metabaseRaw "endpoint" .null
  let applicationDatabase ← readApplicationDatabase appDbRaw
  pure { enabled := enabled.truthy, deployment, endpoint, applicationDatabase, analyticsSources }

def readLocalApi (data : Value ν) : Except Error (LocalAPIConfig ν) := do
  let raw ← get data "local_api" (.dict [])
  let args ← kwargs raw ["bind", "port", "remote_access"]
  pure
    { bind := optional args "bind" (.str (text "127.0.0.1"))
      port := optional args "port" .null
      remoteAccess := optional args "remote_access" (.bool false) }

/-- What `config_from_mapping` makes of the mapping before it validates it. -/
def readConfig (fields : List (Text × Value ν)) : Except Error (MayaConfig ν) := do
  let data : Value ν := .dict fields
  ensure (fields.lookup (text "schema_version")).isSome
    (.configError (text "schema_version is required"))
  let schemaVersion ← readSchemaVersion data
  let integrations ← readIntegrations data
  let metabaseRaw ← item data "metabase"
  let appDbRaw ← get metabaseRaw "application_database" .null
  let analyticsSources ← readAnalyticsSources metabaseRaw
  let product ← readProduct data
  let deployment ← readDeployment data
  let runtime ← readRuntime data
  let broker ← readBroker data
  let llm ← readLlm data
  let memory ← readMemory data
  let governance ← readGovernance data
  let metabase ← readMetabase metabaseRaw appDbRaw analyticsSources
  let localApi ← readLocalApi data
  pure
    { schemaVersion, product, deployment, runtime, broker, llm, integrations, memory, governance
      metabase, localApi }

end Reading

/-! ## Writing -/

section Writing

def writeProduct (product : ProductConfig ν) : Value ν :=
  .dict
    [(text "edition", .str (text (editionValue product.edition))),
      (text "instance_id", product.instanceId)]

def writeDeployment (deployment : DeploymentConfig ν) : Value ν :=
  .dict
    [(text "class", deployment.deploymentClass),
      (text "network_policy", deployment.networkPolicy),
      (text "data_dir", deployment.dataDir.value)]

def writeRuntime (runtime : RuntimeConfig ν) : Value ν :=
  .dict
    [(text "hermes_compatibility", runtime.hermesCompatibility),
      (text "enabled_profiles",
        .list false (runtime.enabledProfiles.map fun profile => .str (text profile.value))),
      (text "hermes_factory", runtime.hermesFactory),
      (text "hermes_runtime_version", runtime.hermesRuntimeVersion)]

def writeBroker (broker : BrokerConfig ν) : Value ν :=
  .dict
    [(text "mode", .str (text (brokerModeValue broker.mode))), (text "endpoint", broker.endpoint)]

def writeLlm (llm : ModelConfig ν) : Value ν :=
  .dict
    [(text "mode", llm.mode), (text "provider", llm.provider), (text "model", llm.model),
      (text "credential_ref", llm.credentialRef), (text "endpoint", llm.endpoint),
      (text "timeout_seconds", .int llm.timeoutSeconds)]

def writeIntegration (field : Text × IntegrationConfig ν) : Text × Value ν :=
  (field.1,
    .dict
      [(text "enabled", .bool field.2.enabled),
        (text "credential_mode", .str (text (credentialModeValue field.2.credentialMode))),
        (text "credential_ref", field.2.credentialRef)])

/-- Items by name, as `sorted` has them. -/
def nameLe (a b : Text × IntegrationConfig ν) : Prop := a.1 ≤ b.1

instance : DecidableRel (nameLe (ν := ν)) := fun a b => inferInstanceAs (Decidable (a.1 ≤ b.1))

def writeIntegrations (integrations : Integrations ν) : Value ν :=
  .dict ((integrations.rows.insertionSort nameLe).map writeIntegration)

def writeMemory (memory : MemoryConfig ν) : Value ν :=
  .dict
    [(text "hermes_provider", memory.hermesProvider), (text "retriever", memory.retriever),
      (text "registry", memory.registry), (text "governance_enabled", memory.governanceEnabled)]

def writeGovernance (governance : GovernanceConfig ν) : Value ν :=
  .dict
    [(text "policy_file", governance.policyFile.value),
      (text "audit_enabled", .bool governance.auditEnabled),
      (text "default_action", governance.defaultAction),
      (text "minimum_memory_trust", .float governance.minimumMemoryTrust)]

def writeApplicationDatabase : Option (MetabaseApplicationDatabaseConfig ν) → Value ν
  | none => .null
  | some database =>
    .dict [(text "engine", database.engine), (text "credential_ref", database.credentialRef)]

def writeAnalyticsSource (source : MetabaseAnalyticsSourceConfig ν) : Value ν :=
  .dict
    [(text "name", source.name), (text "engine", source.engine),
      (text "credential_ref", source.credentialRef)]

def writeMetabase (metabase : MetabaseConfig ν) : Value ν :=
  .dict
    [(text "enabled", .bool metabase.enabled), (text "deployment", metabase.deployment),
      (text "endpoint", metabase.endpoint),
      (text "application_database", writeApplicationDatabase metabase.applicationDatabase),
      (text "analytics_sources", .list false (metabase.analyticsSources.map writeAnalyticsSource))]

def writeLocalApi (localApi : LocalAPIConfig ν) : Value ν :=
  .dict
    [(text "bind", localApi.bind), (text "port", localApi.port),
      (text "remote_access", localApi.remoteAccess)]

/-- The mapping that `config_to_mapping` returns. -/
def writeConfig (config : MayaConfig ν) : List (Text × Value ν) :=
  [(text "schema_version", .int config.schemaVersion),
    (text "product", writeProduct config.product),
    (text "deployment", writeDeployment config.deployment),
    (text "runtime", writeRuntime config.runtime),
    (text "broker", writeBroker config.broker),
    (text "llm", writeLlm config.llm),
    (text "integrations", writeIntegrations config.integrations),
    (text "memory", writeMemory config.memory),
    (text "governance", writeGovernance config.governance),
    (text "metabase", writeMetabase config.metabase),
    (text "local_api", writeLocalApi config.localApi)]

end Writing

/-! ## Connectors -/

structure ConnectorCapability where
  name : String

structure ConnectorManifest (ν : Type) where
  name : String
  credentialMode : CredentialMode
  credentialRef : Value ν
  capabilities : List ConnectorCapability

structure ConnectorCredentialContract where
  name : String
  supportedCredentialModes : List CredentialMode
  credentialRequiredModes : List CredentialMode
  capabilities : List ConnectorCapability
  brokerAllowedWhenDisabled : Bool := false

def googleConnectorContract : ConnectorCredentialContract where
  name := "google"
  supportedCredentialModes := [.broker, .customerOwned, .disabled]
  credentialRequiredModes := [.broker, .customerOwned]
  capabilities := [⟨"drive.read"⟩, ⟨"calendar.read"⟩]

def slackConnectorContract : ConnectorCredentialContract where
  name := "slack"
  supportedCredentialModes := [.broker, .customerOwned, .disabled]
  credentialRequiredModes := [.broker, .customerOwned]
  capabilities := [⟨"message.read"⟩, ⟨"message.send"⟩]

def telegramConnectorContract : ConnectorCredentialContract where
  name := "telegram"
  supportedCredentialModes := [.customerOwned, .disabled]
  credentialRequiredModes := [.customerOwned]
  capabilities := [⟨"message.receive"⟩, ⟨"message.send"⟩]

def supportedConnectorContracts : List ConnectorCredentialContract :=
  [googleConnectorContract, slackConnectorContract, telegramConnectorContract]

section Validation

variable [Python ν]

/-- `if not credential_ref.startswith("secret://")` and an error for the field. -/
def requireSecretRef (value : Value ν) (message : Text) : Except Error Unit := do
  let secret ← startsWith value "secret://"
  ensure (secret = true) (.configError message)

/-- `_require_secret_ref` -/
def requireSecretRefOf (value : Value ν) (fieldName : Text) : Except Error Unit :=
  requireSecretRef value (fieldName ++ text " must be a secret:// reference")

def ConnectorCredentialContract.validateIntegration (contract : ConnectorCredentialContract)
    (integration : IntegrationConfig ν) (brokerMode : BrokerMode) : Except Error Unit := do
  let mode := integration.credentialMode
  ensure (¬ (contract.name = "telegram" ∧ mode = .broker))
    (.configError (text "telegram must use a customer-owned credential"))
  ensure (mode ∈ contract.supportedCredentialModes)
    (.configError (text (contract.name ++ ".credential_mode must be one of: " ++
      ", ".intercalate (contract.supportedCredentialModes.map credentialModeValue))))
  ensure (¬ (integration.enabled = true ∧ mode = .disabled))
    (.configError (text (contract.name ++ " is enabled with disabled credentials")))
  ensure (¬ (mode = .broker ∧ brokerMode = .disabled ∧ contract.brokerAllowedWhenDisabled = false))
    (.configError (text (contract.name ++ ".credential_mode=broker requires broker mode")))
  if mode = .disabled then
    ensure (isNone integration.credentialRef = true)
      (.configError (text (contract.name ++ ".credential_ref must be absent when disabled")))
  else if mode ∈ contract.credentialRequiredModes then do
    ensure (isNone integration.credentialRef = false)
      (.configError
        (text (contract.name ++ ".credential_ref is required for " ++ credentialModeValue mode)))
    requireSecretRefOf integration.credentialRef (text (contract.name ++ ".credential_ref"))
  else if isNone integration.credentialRef then pure ()
  else requireSecretRefOf integration.credentialRef (text (contract.name ++ ".credential_ref"))

def ConnectorCredentialContract.manifestFor (contract : ConnectorCredentialContract)
    (integration : IntegrationConfig ν) : ConnectorManifest ν where
  name := contract.name
  credentialMode := integration.credentialMode
  credentialRef := integration.credentialRef
  capabilities := contract.capabilities

def ConnectorManifest.validate (manifest : ConnectorManifest ν) : Except Error Unit := do
  ensure (strip (text manifest.name) ≠ []) (.configError (text "connector name is required"))
  ensure (¬ (manifest.name = "telegram" ∧ manifest.credentialMode = .broker))
    (.configError (text "telegram cannot use broker credentials"))
  ensure (¬ (manifest.credentialMode = .disabled ∧ manifest.credentialRef.truthy = true))
    (.configError (text "disabled connectors must not declare credential_ref"))
  let secret ←
    if manifest.credentialRef.truthy then startsWith manifest.credentialRef "secret://" else pure true
  ensure (secret = true)
    (.configError (text "connector credential_ref must be a secret:// reference"))
  ensure (manifest.capabilities ≠ [])
    (.configError (text "connector must declare at least one capability"))
  ensure (∀ capability ∈ manifest.capabilities, strip (text capability.name) ≠ [])
    (.configError (text "connector capability name is required"))

/-- `build_connector_manifest` -/
def buildConnectorManifest (name : Text) (integration : IntegrationConfig ν)
    (brokerMode : BrokerMode) : Except Error (ConnectorManifest ν) := do
  let contract ← fetch (supportedConnectorContracts.find? fun contract => text contract.name = name)
    (.configError (text "unsupported connector: " ++ name))
  contract.validateIntegration integration brokerMode
  (contract.manifestFor integration).validate
  pure (contract.manifestFor integration)

/-! ## Validation -/

def supportedSchemaVersion : Int := 2

/-- `_is_loopback` -/
def isLoopback (bind : Value ν) : Except Error Bool :=
  if isText bind "localhost" || isText bind "::1" then pure true else startsWith bind "127."

/-- `value.strip()` -/
def stripped : Value ν → Except Error Text
  | .str s => .ok (strip s)
  | _ => .error .attributeError

/-- `value in {…}` for a set of texts. -/
def within (value : Value ν) (texts : List String) : Except Error Bool :=
  match value with
  | .str s => .ok (s ∈ texts.map text)
  | .list true _ => .ok false
  | .list false _ => .error (.raised .typeError)
  | .dict _ => .error (.raised .typeError)
  | _ => .ok false

/-- `_validate_integration` -/
def validateIntegration (brokerMode : BrokerMode) (field : Text × IntegrationConfig ν) :
    Except Error Unit :=
  let (name, integration) := field
  if name ∈ [text "google", text "slack", text "telegram"] then do
    let _manifest ← buildConnectorManifest name integration brokerMode
    pure ()
  else do
    ensure (¬ (integration.enabled = true ∧ integration.credentialMode = .disabled))
      (.configError (name ++ text " is enabled with disabled credentials"))
    if isNone integration.credentialRef then pure ()
    else requireSecretRefOf integration.credentialRef (name ++ text ".credential_ref")

def validateAnalyticsSource (source : MetabaseAnalyticsSourceConfig ν) : Except Error Unit :=
  requireSecretRefOf source.credentialRef
    (text "metabase.analytics_sources." ++ source.name.toStr ++ text ".credential_ref")

def validateMetabase (metabase : MetabaseConfig ν) : Except Error Unit :=
  if metabase.enabled then do
    let database ← fetch metabase.applicationDatabase
      (.configError (text "metabase.application_database is required"))
    metabase.analyticsSources.forM validateAnalyticsSource
    requireSecretRefOf database.credentialRef (text "metabase.application_database.credential_ref")
  else pure ()

/-- The checks of `validate` that look at no integration. -/
def validateSettings (config : MayaConfig ν) : Except Error Unit := do
  ensure (config.schemaVersion = supportedSchemaVersion)
    (.configError (text "schema_version must be 2"))
  let instanceId ← stripped config.product.instanceId
  ensure (instanceId ≠ []) (.configError (text "product.instance_id is required"))
  ensure (config.deployment.dataDir.path.isAbsolute = true)
    (.configError (text "deployment.data_dir must be absolute"))
  ensure (ComponentProfile.core ∈ config.runtime.enabledProfiles)
    (.configError (text "maya-core profile is required"))
  ensure (¬ (config.broker.mode = .disabled ∧ config.broker.endpoint.truthy = true))
    (.configError (text "broker.endpoint requires broker mode"))
  ensure (1 ≤ config.llm.timeoutSeconds) (.configError (text "llm.timeout_seconds must be positive"))
  ensure (Python.inUnit config.governance.minimumMemoryTrust = true)
    (.configError (text "governance.minimum_memory_trust must be 0..1"))
  ensure (config.localApi.remoteAccess.truthy = false)
    (.configError (text "local_api.remote_access is not supported in Phase 1"))
  let loopback ← isLoopback config.localApi.bind
  ensure (loopback = true) (.configError (text "local_api.bind must be loopback in Phase 1"))
  ensure (config.memory.governanceEnabled.truthy = true)
    (.configError (text "memory.governance_enabled must be true"))
  let known ← within config.memory.retriever ["local_json", "local_vector"]
  ensure (known = true)
    (.configError (text "memory.retriever must be local_json or local_vector"))
  ensure (¬ (isText config.memory.retriever "local_vector" = true ∧
      isText config.memory.registry "sqlite" = false))
    (.configError (text "memory.retriever=local_vector requires memory.registry=sqlite"))
  ensure (config.governance.auditEnabled = true)
    (.configError (text "governance.audit_enabled must be true"))

/-- `MayaConfig.validate` -/
def MayaConfig.validate (config : MayaConfig ν) : Except Error Unit := do
  validateSettings config
  config.integrations.rows.forM (validateIntegration config.broker.mode)
  validateMetabase config.metabase

end Validation

section

variable [Python ν] [Numerals ν]

/-- `config_from_mapping` -/
def configFromMapping (fields : List (Text × Value ν)) : Except Error (MayaConfig ν) := do
  let config ← readConfig fields
  config.validate
  pure config

/-- `config_to_mapping` -/
def configToMapping (config : MayaConfig ν) : Except Error (List (Text × Value ν)) := do
  config.validate
  pure (writeConfig config)

end

/-! ## Reading what was written -/

theorem mem_put (t : Integrations ν) (f g : Text × IntegrationConfig ν) :
    g ∈ t.upsert f (fun x => (x.1, f.2)) (fun _ => rfl) ↔ g ∈ t ∧ g.1 ≠ f.1 ∨ g = f := by
  have hrow : t.upserted f (fun x => (x.1, f.2)) = f := by
    unfold Table.upserted
    cases hf : t.find? f.1 with
    | none => rfl
    | some x =>
      obtain ⟨-, hx⟩ := Table.find?_eq_some.1 hf
      exact Prod.ext hx rfl
  rw [Table.mem_upsert, hrow]

theorem mem_foldl_put (l : List (Text × IntegrationConfig ν)) (hl : (l.map Prod.fst).Nodup)
    (t : Integrations ν) (g : Text × IntegrationConfig ν) :
    g ∈ l.foldl (fun t f => t.upsert f (fun x => (x.1, f.2)) fun _ => rfl) t ↔
      g ∈ t ∧ g.1 ∉ l.map Prod.fst ∨ g ∈ l := by
  induction l generalizing t with
  | nil => simp
  | cons f l ih =>
    obtain ⟨hf, hl⟩ := List.nodup_cons.1 hl
    have hne : g ∈ l → g.1 ≠ f.1 := fun hg he => hf (he ▸ List.mem_map_of_mem hg)
    rw [List.foldl_cons, ih hl, mem_put, List.map_cons, List.mem_cons, List.mem_cons]
    constructor
    · rintro (⟨⟨hg, hgf⟩ | rfl, hgl⟩ | hg)
      · exact .inl ⟨hg, by simp [hgf, hgl]⟩
      · exact .inr (.inl rfl)
      · exact .inr (.inr hg)
    · rintro (⟨hg, hgl⟩ | rfl | hg)
      · simp only [not_or] at hgl
        exact .inl ⟨.inl ⟨hg, hgl.1⟩, hgl.2⟩
      · exact .inl ⟨.inr rfl, hf⟩
      · exact .inr hg

/-- The comprehension keeps the items of different names. -/
theorem mem_ofItems {l : List (Text × IntegrationConfig ν)} (hl : (l.map Prod.fst).Nodup)
    (g : Text × IntegrationConfig ν) : g ∈ Integrations.ofItems l ↔ g ∈ l := by
  unfold Integrations.ofItems
  rw [mem_foldl_put l hl]
  simp [Table.mem_def, Table.empty]

/-- The integrations of a configuration, written and read: the same items in another order. -/
def Integrations.sorted (integrations : Integrations ν) : Integrations ν :=
  .ofItems (integrations.rows.insertionSort nameLe)

theorem mem_sorted {integrations : Integrations ν} {f : Text × IntegrationConfig ν} :
    f ∈ integrations.sorted ↔ f ∈ integrations := by
  have hperm := List.perm_insertionSort nameLe integrations.rows
  have hnodup : ((integrations.rows.insertionSort nameLe).map Prod.fst).Nodup :=
    ((hperm.map Prod.fst).nodup_iff).2 integrations.nodup
  unfold Integrations.sorted
  rw [mem_ofItems hnodup, hperm.mem_iff]
  rfl

theorem mapM_write {α β : Type} {read : β → Except Error α} {write : α → β}
    (h : ∀ a, read (write a) = .ok a) (l : List α) : (l.map write).mapM read = .ok l := by
  have hl := mapM_ok (f := fun a => read (write a)) (g := id) (l := l) fun a _ => h a
  rw [List.map_id] at hl
  rw [List.mapM_map]
  exact hl

section

variable [Python ν] (config : MayaConfig ν)

theorem readIntegration_write (f : Text × IntegrationConfig ν) :
    readIntegration (writeIntegration f) = .ok f := by
  obtain ⟨name, integration⟩ := f
  show (do
      let credentialMode ←
        toCredentialMode (.str (text (credentialModeValue integration.credentialMode)) : Value ν)
      pure (name, ({ integration with credentialMode } : IntegrationConfig ν))) = _
  rw [toCredentialMode_value]
  rfl

theorem readIntegrations_write :
    readIntegrations (.dict (writeConfig config)) = .ok config.integrations.sorted := by
  show (do
      let integrations ←
        ((config.integrations.rows.insertionSort nameLe).map writeIntegration).mapM readIntegration
      pure (Integrations.ofItems integrations)) = _
  rw [mapM_write readIntegration_write]
  rfl

omit [Python ν] in
theorem readAnalyticsSources_write :
    readAnalyticsSources (writeMetabase config.metabase) =
      .ok config.metabase.analyticsSources := by
  have hread : ∀ source : MetabaseAnalyticsSourceConfig ν,
      readAnalyticsSource (writeAnalyticsSource source) = .ok source := fun _ => rfl
  exact mapM_write hread config.metabase.analyticsSources

omit [Python ν] in
theorem readProduct_write : readProduct (.dict (writeConfig config)) = .ok config.product := by
  show (do
      let edition ← toEdition (.str (text (editionValue config.product.edition)) : Value ν)
      pure ({ config.product with edition } : ProductConfig ν)) = _
  rw [toEdition_value]
  rfl

omit [Python ν] in
theorem readDeployment_write :
    readDeployment (.dict (writeConfig config)) = .ok config.deployment := by
  show (do
      let dataDir ← toPath (config.deployment.dataDir.value : Value ν)
      pure ({ config.deployment with dataDir } : DeploymentConfig ν)) = _
  rw [toPath_value]
  rfl

omit [Python ν] in
theorem readRuntime_write : readRuntime (.dict (writeConfig config)) = .ok config.runtime := by
  show (do
      let enabledProfiles ← (config.runtime.enabledProfiles.map fun profile : ComponentProfile =>
        (.str (text profile.value) : Value ν)).mapM toProfile
      pure ({ config.runtime with enabledProfiles } : RuntimeConfig ν)) = _
  rw [mapM_write toProfile_value]
  rfl

omit [Python ν] in
theorem readBroker_write : readBroker (.dict (writeConfig config)) = .ok config.broker := by
  show (do
      let mode ← toBrokerMode (.str (text (brokerModeValue config.broker.mode)) : Value ν)
      pure ({ config.broker with mode } : BrokerConfig ν)) = _
  rw [toBrokerMode_value]
  rfl

omit [Python ν] in
theorem readMemory_write : readMemory (.dict (writeConfig config)) = .ok config.memory := rfl

theorem readMetabase_write :
    readMetabase (writeMetabase config.metabase)
        (writeApplicationDatabase config.metabase.applicationDatabase)
        config.metabase.analyticsSources = .ok config.metabase := by
  have hdatabase : readApplicationDatabase
      (writeApplicationDatabase config.metabase.applicationDatabase) =
        .ok config.metabase.applicationDatabase := by
    cases config.metabase.applicationDatabase <;> rfl
  show (do
      let applicationDatabase ← readApplicationDatabase
        (writeApplicationDatabase config.metabase.applicationDatabase)
      pure ({ config.metabase with applicationDatabase } : MetabaseConfig ν)) = _
  rw [hdatabase]
  rfl

omit [Python ν] in
theorem readLocalApi_write : readLocalApi (.dict (writeConfig config)) = .ok config.localApi := rfl

variable [Numerals ν]

omit [Python ν] in
theorem readLlm_write : readLlm (.dict (writeConfig config)) = .ok config.llm := rfl

theorem readGovernance_write :
    readGovernance (.dict (writeConfig config)) = .ok config.governance := by
  show (do
      let policyFile ← toPath (config.governance.policyFile.value : Value ν)
      pure ({ config.governance with policyFile } : GovernanceConfig ν)) = _
  rw [toPath_value]
  rfl

/-- What was written is read back, with the integrations in the order of their names. -/
theorem readConfig_write : readConfig (writeConfig config) =
    .ok { config with integrations := config.integrations.sorted } := by
  have hversion : readSchemaVersion (.dict (writeConfig config)) = .ok config.schemaVersion := rfl
  have hmetabase : item (.dict (writeConfig config)) "metabase" =
      .ok (writeMetabase config.metabase) := rfl
  have hdatabase : get (writeMetabase config.metabase) "application_database" .null =
      .ok (writeApplicationDatabase config.metabase.applicationDatabase) := rfl
  have hsome : ((writeConfig config).lookup (text "schema_version")).isSome = true := rfl
  unfold readConfig
  simp only [ensure_pos hsome, hversion, readIntegrations_write, hmetabase, hdatabase,
    readAnalyticsSources_write, readProduct_write, readDeployment_write, readRuntime_write,
    readBroker_write, readLlm_write, readMemory_write, readGovernance_write, readMetabase_write,
    readLocalApi_write, ok_bind]
  rfl

omit [Numerals ν] in
/-- The checks do not depend on the order of the integrations. -/
theorem validate_sorted (h : config.validate = .ok ()) :
    ({ config with integrations := config.integrations.sorted } : MayaConfig ν).validate =
      .ok () := by
  unfold MayaConfig.validate at h ⊢
  simp only [bind_eq_ok, forM_eq_ok] at h ⊢
  obtain ⟨_, hsettings, _, hintegrations, hmetabase⟩ := h
  refine ⟨_, hsettings, (), ?_, hmetabase⟩
  intro f hf
  exact hintegrations f (mem_sorted.1 hf)

/-- A configuration that was accepted can be exported, and the export is accepted as the same
configuration. -/
theorem configFromMapping_configToMapping (fields : List (Text × Value ν)) (config : MayaConfig ν)
    (h : configFromMapping fields = .ok config) :
    ∃ exported again, configToMapping config = .ok exported ∧
      configFromMapping exported = .ok again ∧ again.Same config := by
  unfold configFromMapping at h
  simp only [bind_eq_ok, pure_eq_ok] at h
  obtain ⟨read, -, _, hvalid, rfl⟩ := h
  refine ⟨writeConfig read, { read with integrations := read.integrations.sorted }, ?_, ?_, ?_, ?_⟩
  · unfold configToMapping
    simp only [hvalid, ok_bind]
    rfl
  · unfold configFromMapping
    simp only [readConfig_write, ok_bind, validate_sorted read hvalid]
    rfl
  · rfl
  · exact fun f => mem_sorted

end

/-! ## A configuration -/

namespace Sample

instance : Python Rat where
  half := 1 / 2
  isZero x := x = 0
  isFinite _ := true
  inUnit x := 0 ≤ x ∧ x ≤ 1
  ofInt n := some n
  ofText _ := none
  repr _ := []

instance : Numerals Rat where
  truncate x := .ok x.floor
  ofText _ := none
  sevenTenths := 7 / 10

/-- With two integrations, not in the order of their names. -/
def fields : List (Text × Value Rat) :=
  let str (s : String) : Value Rat := .str (text s)
  [(text "schema_version", .int 2),
    (text "product", .dict [(text "edition", str "standard"), (text "instance_id", str "maya-1")]),
    (text "deployment",
      .dict
        [(text "class", str "desktop"), (text "network_policy", str "offline"),
          (text "data_dir", str "/var//lib/./maya")]),
    (text "runtime", .dict [(text "hermes_compatibility", str "v1")]),
    (text "llm",
      .dict [(text "mode", str "local"), (text "provider", str "vllm"), (text "model", str "m")]),
    (text "integrations",
      .dict
        [(text "slack", .dict [(text "credential_mode", str "disabled")]),
          (text "google",
            .dict
              [(text "enabled", .bool true), (text "credential_mode", str "customer_owned"),
                (text "credential_ref", str "secret://google")])]),
    (text "memory",
      .dict
        [(text "hermes_provider", str "maya"), (text "retriever", str "local_vector"),
          (text "registry", str "sqlite")]),
    (text "governance", .dict [(text "policy_file", str "policy.json")]),
    (text "metabase", .dict [(text "enabled", .bool false), (text "deployment", str "none")])]

end Sample

open Sample in
theorem sample_configFromMapping_configToMapping : ∃ config exported again,
    configFromMapping fields = .ok config ∧ configToMapping config = .ok exported ∧
      configFromMapping exported = .ok again ∧ again.Same config := by
  have hok : (configFromMapping fields).isOk = true := by decide +kernel
  cases h : configFromMapping fields with
  | error e =>
    rw [h] at hok
    cases hok
  | ok config =>
    obtain ⟨exported, again, hto, hfrom, hsame⟩ := configFromMapping_configToMapping fields config h
    exact ⟨config, exported, again, rfl, hto, hfrom, hsame⟩

end ProjectMaya.Configuration
