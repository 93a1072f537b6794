import ProjectMaya.Agent
import ProjectMaya.Configuration
import ProjectMaya.JsonFile
import ProjectMaya.Plugin
import ProjectMaya.Logic.Url

/-! # Readiness of dependencies

The contracts of what the component profiles depend on, and how ready each of them is under a
configuration.  Of the configuration this reads what `Config` has; of the host, what `Host` has. -/

namespace ProjectMaya.Doctor

open Logic Release
open ProjectMaya.Configuration (ComponentProfile)

/-- What `validate_connector` says of a configured integration. -/
structure Integration where
  enabled : Bool
  valid : Bool

structure Metabase where
  enabled : Bool
  deployment : String
  endpoint : Option String
  /-- The `credential_ref` of the application database. -/
  applicationDatabase : Option String
  /-- The names of the analytics sources. -/
  analyticsSources : List String

structure Config where
  /-- The message of the `ConfigError` that `validate` raises. -/
  invalid : Option String
  dataDir : PurePath
  enabledProfiles : List ComponentProfile
  retriever : String
  policyFile : PurePath
  llmMode : String
  llmProvider : String
  /-- `_first_invalid_reason` of the model configuration. -/
  modelInvalid : Option String
  integrations : List (String × Integration)
  metabase : Metabase

/-- What the checks find outside of the configuration. -/
structure Host (O : Type) where
  entry : PurePath → Entry
  loads : Loads O
  /-- `str` of what JSON has given -/
  str : Value O → String
  /-- What `for line in handle` gives of a file, and whether it ends in `UnicodeDecodeError`. -/
  lines : Bytes → List (List Char) × Bool
  /-- The free bytes of `shutil.disk_usage`, unless it raises `OSError`. -/
  diskFree : PurePath → Option Nat
  /-- Whether `inspect_local_vector_store` finds the store of a file ready, unless it raises. -/
  localVector : Entry → Option Bool
  /-- `MAYA_EMBEDDING_MODEL_DIR` -/
  embeddingModelDir : Option PurePath
  rules : Url.Rules
  /-- `str.isspace` and `str.isalnum` of one character -/
  isSpace : Char → Bool
  isAlnum : Char → Bool
  /-- `platform.system()` -/
  system : String
  /-- `importlib.util.find_spec(name) is not None` -/
  importable : String → Bool
  /-- `shutil.which(name) is not None` -/
  command : String → Bool
  /-- A packaged skill is there and its text is sanitized. -/
  discoverable : String → Bool
  /-- `current_platform_id()` -/
  platformId : String

/-- The exceptions that a check may raise. -/
inductive Exn where
  | read (e : ReadError)
  /-- of a conversion -/
  | value (e : Failure)
  | valueError (message : String)
  | osError
  /-- `EmbeddingModelError` -/
  | embeddingModel (message : String)
  /-- `MetabaseCapabilityError` -/
  | metabase (message : String)
  deriving DecidableEq, Repr

/-! ## Contracts -/

inductive Category where
  | pythonPackage | systemCommand | localApplication | serviceRuntime | externalService
  | modelEndpoint | customerManaged
  deriving DecidableEq, Repr

inductive Requirement where
  | required | optional | customerManaged
  deriving DecidableEq, Repr

/-- `DependencyReadinessStatus` -/
inductive Readiness where
  | available | missingRequired | missingOptional | unsupportedOs | customerManaged | disabled
  | unknown
  deriving DecidableEq, Repr

structure DependencyContract where
  dependencyId : String
  profile : ComponentProfile
  category : Category
  requirement : Requirement
  checkName : String := "dependencies." ++ dependencyId
  pythonModule : Option String := none
  commandNames : List String := []
  supportedPlatforms : List String := ["Windows", "Darwin", "Linux"]
  deriving DecidableEq, Repr

/-- `DEPENDENCY_CONTRACTS` -/
def dependencyContracts : List DependencyContract :=
  [{ dependencyId := "python.project_maya", profile := .core, category := .pythonPackage,
     requirement := .required, pythonModule := some "project_maya" },
   { dependencyId := "python.reportlab", profile := .documents, category := .pythonPackage,
     requirement := .required, pythonModule := some "reportlab" },
   { dependencyId := "python.pypdf", profile := .documents, category := .pythonPackage,
     requirement := .required, pythonModule := some "pypdf" },
   { dependencyId := "python.markdown", profile := .documents, category := .pythonPackage,
     requirement := .required, pythonModule := some "markdown" },
   { dependencyId := "python.pillow", profile := .documents, category := .pythonPackage,
     requirement := .required, pythonModule := some "PIL" },
   { dependencyId := "python.pymupdf", profile := .documents, category := .pythonPackage,
     requirement := .optional, pythonModule := some "fitz" },
   { dependencyId := "command.pdftoppm", profile := .documents, category := .systemCommand,
     requirement := .optional, commandNames := ["pdftoppm"] },
   { dependencyId := "command.soffice", profile := .documents, category := .systemCommand,
     requirement := .required, commandNames := ["soffice", "libreoffice"] },
   { dependencyId := "application.ms-office", profile := .documents,
     category := .localApplication, requirement := .customerManaged },
   { dependencyId := "runtime.java", profile := .metabase, category := .serviceRuntime,
     requirement := .required, commandNames := ["java"] },
   { dependencyId := "service.metabase", profile := .metabase, category := .serviceRuntime,
     requirement := .customerManaged },
   { dependencyId := "database.metabase-application", profile := .metabase,
     category := .customerManaged, requirement := .customerManaged },
   { dependencyId := "database.metabase-analytics-sources", profile := .metabase,
     category := .customerManaged, requirement := .optional },
   { dependencyId := "browser.executable", profile := .browser, category := .systemCommand,
     requirement := .required
     commandNames := ["chrome", "chrome.exe", "chromium", "chromium-browser", "msedge", "msedge.exe",
       "google-chrome"] },
   { dependencyId := "browser.automation-driver", profile := .browser,
     category := .customerManaged, requirement := .customerManaged },
   { dependencyId := "browser.governance-policy", profile := .browser,
     category := .customerManaged, requirement := .customerManaged },
   { dependencyId := "service.google", profile := .messaging, category := .externalService,
     requirement := .customerManaged },
   { dependencyId := "connector.google-contract", profile := .messaging,
     category := .customerManaged, requirement := .customerManaged },
   { dependencyId := "connector.google-governance", profile := .messaging,
     category := .customerManaged, requirement := .customerManaged },
   { dependencyId := "service.slack", profile := .messaging, category := .externalService,
     requirement := .customerManaged },
   { dependencyId := "connector.slack-contract", profile := .messaging,
     category := .customerManaged, requirement := .customerManaged },
   { dependencyId := "connector.slack-governance", profile := .messaging,
     category := .customerManaged, requirement := .customerManaged },
   { dependencyId := "service.telegram", profile := .messaging, category := .externalService,
     requirement := .customerManaged },
   { dependencyId := "connector.telegram-contract", profile := .messaging,
     category := .customerManaged, requirement := .customerManaged },
   { dependencyId := "connector.telegram-governance", profile := .messaging,
     category := .customerManaged, requirement := .customerManaged },
   { dependencyId := "endpoint.local-model", profile := .localModels, category := .modelEndpoint,
     requirement := .required },
   { dependencyId := "runtime.local-model-family", profile := .localModels,
     category := .customerManaged, requirement := .customerManaged },
   { dependencyId := "model.local-model-artifact", profile := .localModels,
     category := .customerManaged, requirement := .customerManaged }]

def contractsForProfile (profile : ComponentProfile) : List DependencyContract :=
  dependencyContracts.filter fun contract => contract.profile = profile

/-! ## Readiness -/

section

variable {O : Type} (host : Host O) (config : Config)

/-- `_missing_dependency` -/
def missingDependency (contract : DependencyContract) : Readiness :=
  if contract.requirement = .required then .missingRequired else .missingOptional

/-- `_evaluate_python_package` -/
def evaluatePythonPackage (contract : DependencyContract) : Readiness :=
  if contract.pythonModule.any host.importable then .available else missingDependency contract

/-- `_evaluate_system_command` -/
def evaluateSystemCommand (contract : DependencyContract) : Readiness :=
  if contract.commandNames.any host.command then .available else missingDependency contract

/-- `config.integrations.get(name)` -/
def Config.integration (name : String) : Option Integration :=
  (config.integrations.find? fun item => item.1 = name).map Prod.snd

/-- What is common to the dependencies of a connector. -/
def evaluateConnector (name : String) (ready : Readiness) : Readiness :=
  match config.integration name with
  | none => .disabled
  | some integration =>
    if !integration.enabled then .disabled
    else if !integration.valid then .missingRequired
    else ready

/-- `s.startswith(start)` -/
def startsWith (s start : String) : Bool := start.toList.isPrefixOf s.toList

/-- `s.removeprefix(start)` -/
def removePrefix (s start : String) : List Char :=
  if startsWith s start then s.toList.drop start.toList.length else s.toList

/-- `_evaluate_external_service` -/
def evaluateExternalService (contract : DependencyContract) : Readiness :=
  let name := removePrefix contract.dependencyId "service."
  evaluateConnector config (String.ofList name) .customerManaged

/-- `_evaluate_connector_dependency` -/
def evaluateConnectorDependency (contract : DependencyContract) : Readiness :=
  let name := Url.rpartition '-' (removePrefix contract.dependencyId "connector.")
  evaluateConnector config (String.ofList (name.1.getD []))
    (if name.2 = "contract".toList ∨ name.2 = "governance".toList then .customerManaged
    else .unknown)

/-- `validate_local_model_endpoint(config).ready` -/
def Config.localModelReady : Bool := config.llmMode = "local" && config.modelInvalid.isNone

/-- `_evaluate_model_endpoint` -/
def evaluateModelEndpoint : Readiness :=
  if config.llmMode ≠ "local" then .disabled
  else if config.localModelReady then .customerManaged else .missingRequired

/-- `_evaluate_local_model_runtime_family` and `_evaluate_local_model_artifact` -/
def evaluateLocalModel : Readiness :=
  if config.localModelReady then .customerManaged else .missingRequired

/-- `urlparse(endpoint)`, which may raise `ValueError`. -/
def parseEndpoint (endpoint : Option String) : Except Exn (Option Url.Parts) :=
  match endpoint with
  | none => .ok none
  | some endpoint => do
    let parsed ← fetch (Url.urlsplit host.rules endpoint.toList) (.valueError "Invalid URL")
    return some parsed

/-- `_evaluate_metabase_service` -/
def evaluateMetabaseService : Except Exn Readiness :=
  if !config.metabase.enabled ∨ config.metabase.deployment = "disabled" then .ok .missingRequired
  else do
    let endpoint ← parseEndpoint host config.metabase.endpoint
    return if endpoint.isNone then .missingRequired else .customerManaged

/-- `_evaluate_metabase_application_database` -/
def evaluateMetabaseApplicationDatabase : Readiness :=
  if !config.metabase.enabled then .disabled
  else if config.metabase.applicationDatabase.isNone then .missingRequired else .customerManaged

/-- `_evaluate_metabase_analytics_sources` -/
def evaluateMetabaseAnalyticsSources : Readiness :=
  if !config.metabase.enabled then .disabled
  else if config.metabase.analyticsSources = [] then .missingOptional else .customerManaged

/-- `_evaluate_browser_automation_driver` and `_evaluate_browser_governance_policy` -/
def evaluateBrowser : Readiness :=
  if .browser ∉ config.enabledProfiles then .disabled else .customerManaged

/-- The dependencies of `SERVICE_RUNTIME` and of `CUSTOMER_MANAGED`. -/
def evaluateManaged (contract : DependencyContract) : Except Exn Readiness :=
  let id := contract.dependencyId
  if startsWith id "service.metabase" then evaluateMetabaseService host config
  else if id = "database.metabase-application" then .ok (evaluateMetabaseApplicationDatabase config)
  else if id = "database.metabase-analytics-sources" then
    .ok (evaluateMetabaseAnalyticsSources config)
  else if id = "browser.automation-driver" then .ok (evaluateBrowser config)
  else if id = "browser.governance-policy" then .ok (evaluateBrowser config)
  else if id = "runtime.local-model-family" then .ok (evaluateLocalModel config)
  else if id = "model.local-model-artifact" then .ok (evaluateLocalModel config)
  else if startsWith id "connector." then .ok (evaluateConnectorDependency config contract)
  else if contract.commandNames ≠ [] then .ok (evaluateSystemCommand host contract)
  else .ok .customerManaged

def evaluateDependency (contract : DependencyContract) : Except Exn Readiness :=
  if host.system ∉ contract.supportedPlatforms then .ok .unsupportedOs
  else match contract.category with
  | .pythonPackage => .ok (evaluatePythonPackage host contract)
  | .systemCommand => .ok (evaluateSystemCommand host contract)
  | .localApplication => .ok .customerManaged
  | .externalService => .ok (evaluateExternalService config contract)
  | .modelEndpoint => .ok (evaluateModelEndpoint config)
  | .serviceRuntime | .customerManaged => evaluateManaged host config contract

structure ProfileReadiness where
  profile : ComponentProfile
  status : Readiness
  dependencies : List (DependencyContract × Readiness)

/-- The status of a profile from those of its dependencies. -/
def profileStatus (dependencies : List (DependencyContract × Readiness)) : Readiness :=
  if dependencies.any fun d => d.2 = .missingRequired then .missingRequired
  else if dependencies.any fun d => d.2 = .missingOptional then .missingOptional
  else .available

def evaluateProfileReadiness (profile : ComponentProfile) : Except Exn ProfileReadiness :=
  if profile ∉ config.enabledProfiles then .ok { profile, status := .disabled, dependencies := [] }
  else do
    let dependencies ← (contractsForProfile profile).mapM fun contract => do
      let status ← evaluateDependency host config contract
      return (contract, status)
    return { profile, status := profileStatus dependencies, dependencies }

def evaluateEnabledProfileReadiness : Except Exn (List ProfileReadiness) :=
  config.enabledProfiles.mapM (evaluateProfileReadiness host config)

end

end ProjectMaya.Doctor
