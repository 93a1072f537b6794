import ProjectMaya.Dependencies
import ProjectMaya.Governance
import ProjectMaya.Logic.Sha256

/-! # Doctor

The diagnostic checks of `run_doctor`, with their names and statuses.  Most of them always return;
those that read files or parse an endpoint may raise (`Exn`), and then there is no report. -/

namespace ProjectMaya.Doctor

open Logic Release
open ProjectMaya.Configuration (ComponentProfile)
open Facade (AgentState)

/-- `DoctorStatus` -/
inductive Status where
  | pass | warn | fail
  deriving DecidableEq, Repr

/-- `DoctorCheck`, without its message. -/
structure Check where
  name : String
  status : Status
  deriving DecidableEq, Repr

/-- `DoctorReport` -/
structure Report where
  checks : List Check
  deriving DecidableEq, Repr

def Report.healthy (report : Report) : Bool := report.checks.all fun check => check.status ≠ .fail

/-- What the runtime says of itself. -/
structure Runtime where
  compatible : Bool
  healthy : Bool

/-- `path / name` -/
def child (path : PurePath) (name : String) : PurePath := { path with parts := path.parts ++ [name] }

/-- `path.parent` -/
def parentOf (path : PurePath) : PurePath := { path with parts := path.parts.dropLast }

section

variable {O : Type} [Objects O] (host : Host O) (config : Config)

/-! ## Directories -/

omit [Objects O] in
def configCheck : Check := ⟨"config", if config.invalid.isSome then .fail else .pass⟩

/-- `_data_dir_check` -/
def dataDirCheck : Check :=
  let dataDir := host.entry config.dataDir
  ⟨"filesystem.data_dir",
    if dataDir.present then (if dataDir.isDir then .pass else .fail)
    else if (host.entry (parentOf config.dataDir)).isDir then .warn else .fail⟩

/-- `_disk_space_check` -/
def diskSpaceCheck : Check :=
  let target :=
    if (host.entry config.dataDir).present then config.dataDir else parentOf config.dataDir
  ⟨"filesystem.disk_space",
    if !(host.entry target).present then .fail
    else match host.diskFree target with
      | none => .warn
      | some free => if 0 < free then .pass else .fail⟩

/-- `_managed_directory_check` -/
def managedDirectoryCheck (name relative : String) : Check :=
  let path := host.entry (child config.dataDir relative)
  let dataDir := host.entry config.dataDir
  ⟨name,
    if path.present then (if path.isDir then .pass else .fail)
    else if dataDir.isDir ∨ (!dataDir.present ∧ (host.entry (parentOf config.dataDir)).present) then .warn
    else .fail⟩

/-! ## Memory -/

def memoryFile (name : String) : PurePath := child (child config.dataDir "memory") name

/-- `_memory_store_check` -/
def memoryStoreCheck : Except Exn Check :=
  if config.retriever = "local_vector" then
    let store := host.entry (memoryFile config "memory.sqlite3")
    .ok ⟨"memory.store",
      if !store.isFile then .warn
      else match host.localVector store with
        | some true => .pass
        | _ => .fail⟩
  else if config.retriever ≠ "local_json" then .ok ⟨"memory.store", .warn⟩
  else
    let store := host.entry (memoryFile config "records.json")
    if !store.present then .ok ⟨"memory.store", .warn⟩
    else match readJson host.loads store with
      | .error e => if e.isUnreadable then .ok ⟨"memory.store", .fail⟩ else .error (.read e)
      | .ok (.list _) => .ok ⟨"memory.store", .pass⟩
      | .ok _ => .ok ⟨"memory.store", .fail⟩

/-- The conversions of a manifest's values. -/
def raising {α : Type} (x : Except Failure α) : Except Exn α := x.mapError .value

/-- `str(manifest.get(key, ""))` -/
def manifestText (manifest : Value O) (key : String) : Except Exn String := do
  let value ← raising (manifest.get key (.str ""))
  return host.str value

/-- `int(manifest.get(key, default))` -/
def manifestInt (manifest : Value O) (key : String) (default : Int) : Except Exn Int := do
  let value ← raising (manifest.get key (.int default))
  raising value.toInt

omit [Objects O] in
/-- The text of a value that is one. -/
def text? : Option (Value O) → Option String
  | some (.str s) => some s
  | _ => none

omit [Objects O] in
/-- `_verified_file` -/
def verifiedFile (modelDir : PurePath) (files : List (String × Value O)) (name : String) :
    Except Exn Unit := do
  let expected ← fetch (text? (Value.lookup name files))
    (.embeddingModel "embedding model lacks pinned file")
  let path := host.entry (child modelDir name)
  ensure (expected.length = 64 ∧ path.isFile = true)
    (.embeddingModel "embedding model lacks pinned file")
  let content ← fetch path.content? .osError
  ensure (Sha256.hexdigest content = expected) (.embeddingModel "embedding model checksum mismatch")

/-- The reading of the manifest. -/
def readModelManifest (modelDir : PurePath) : Except Exn (Value O) :=
  (readJson host.loads (host.entry (child modelDir "embedding-model-manifest.json"))).mapError fun e =>
    if e.isUnreadable then .embeddingModel "embedding model manifest is unavailable" else .read e

/-- The files that the manifest pins. -/
def verifyFiles (modelDir : PurePath) : Value O → Except Exn Unit
  | .mapping files => do
    verifiedFile host modelDir files "model.onnx"
    verifiedFile host modelDir files "tokenizer.json"
  | _ => .error (.embeddingModel "embedding model file manifest is invalid")

/-- `PinnedOnnxEmbeddingModel(model_dir)` -/
def pinnedModel (modelDir : PurePath) : Except Exn Unit := do
  let manifest ← readModelManifest host modelDir
  let modelId ← manifestText host manifest "model_id"
  let revision ← manifestText host manifest "revision"
  let license ← manifestText host manifest "license"
  let source ← manifestText host manifest "source"
  let dimension ← manifestInt manifest "dimension" 0
  let _maxLength ← manifestInt manifest "max_length" 256
  ensure (modelId ≠ "" ∧ revision ≠ "" ∧ license ≠ "" ∧ startsWith source "https://" = true ∧
    1 ≤ dimension) (.embeddingModel "embedding model is not pinned")
  let files ← raising (manifest.get "files" .none)
  verifyFiles host modelDir files

/-- `inspect_embedding_model`: whether the model is ready. -/
def inspectEmbeddingModel : Except Exn Bool :=
  match host.embeddingModelDir with
  | none => .ok false
  | some modelDir =>
    if !(host.entry modelDir).isDir then .ok false
    else match pinnedModel host modelDir with
      | .ok _ => .ok true
      | .error (.embeddingModel _) => .ok false
      | .error e => .error e

/-- `_embedding_model_check` -/
def embeddingModelCheck : Except Exn Check :=
  if config.retriever ≠ "local_vector" then .ok ⟨"memory.embedding", .warn⟩
  else do
    let ready ← inspectEmbeddingModel host
    return ⟨"memory.embedding", if ready then .pass else .warn⟩

/-! ## Governance -/

structure PolicyRule where
  capability : String
  target : String
  operation : String
  actorId : String
  decision : Decision
  reasonCode : String

/-- `GovernanceDecision(value)` -/
def toDecision (value : String) : Except Exn Decision :=
  fetch ([Decision.allow, .deny, .redact, .constrain, .requestConfirmation, .requireApprover,
    .defer].find? fun d => d.value = value) (.valueError "not a valid GovernanceDecision")

omit [Objects O] in
/-- `str(data.get(key, default))` -/
def ruleText (data : List (String × Value O)) (key default : String) : String :=
  host.str ((Value.lookup key data).getD (.str default))

omit [Objects O] in
/-- `_rule_from_mapping` -/
def ruleFromMapping : Value O → Except Exn PolicyRule
  | .mapping data =>
    match Value.lookup "capability" data with
    | some (.str capability) =>
      if capability.toList.all host.isSpace then .error (.valueError "policy rule capability is required")
      else do
        let decision ← toDecision (ruleText host data "decision" "allow")
        return {
          capability
          target := ruleText host data "target" "*"
          operation := ruleText host data "operation" "*"
          actorId := ruleText host data "actor_id" "*"
          decision
          reasonCode := ruleText host data "reason_code" "governance.policy_rule" }
    | _ => .error (.valueError "policy rule capability is required")
  | _ => .error (.valueError "policy rule must be an object")

omit [Objects O] in
/-- The rules of a policy. -/
def policyRules : Value O → Except Exn (List PolicyRule)
  | .mapping data =>
    match (Value.lookup "allow" data).getD (.list []) with
    | .list items => items.mapM (ruleFromMapping host)
    | _ => .error (.valueError "policy allow must be a list")
  | _ => .error (.valueError "policy must be an object")

omit [Objects O] in
/-- `load_policy_gateway` -/
def loadPolicyGateway (policyFile : Entry) : Except Exn (List PolicyRule) := do
  let raw ← (readJson host.loads policyFile).mapError .read
  policyRules host raw

/-- `_matches` -/
def fits (pattern value : String) : Bool := pattern = "*" || pattern = value

def PolicyRule.matches (rule : PolicyRule) (request : ActionRequest) : Bool :=
  fits rule.capability request.capability && fits rule.target request.target &&
    fits rule.operation request.operation && fits rule.actorId request.actorId

/-- `gateway.authorize(request).decision` -/
def authorize (rules : List PolicyRule) (request : ActionRequest) : Decision :=
  ((rules.find? fun rule => rule.matches request).map PolicyRule.decision).getD .deny

/-- It is an `OSError` or a `ValueError`. -/
def Exn.isInvalid : Exn → Bool
  | .read e => e = .osError || e.isValueError
  | .valueError _ | .osError => true
  | _ => false

omit [Objects O] in
/-- What the local user must be allowed to do. -/
def readinessActions : List ActionRequest :=
  [{ actorId := "local-user", capability := "runtime.execute", target := "hermes-agent"
     operation := "run" },
   { actorId := "local-user", capability := "memory.read", target := "*", operation := "search" }] ++
  if config.llmMode ≠ "local" then
    [{ actorId := "local-user", capability := "model.egress", target := "model:" ++ config.llmProvider
       operation := "infer" }]
  else []

omit [Objects O] in
/-- `_governance_policy_check` -/
def governancePolicyCheck : Except Exn Check :=
  let policyFile := host.entry config.policyFile
  if !policyFile.present then .ok ⟨"governance.policy", .warn⟩
  else match loadPolicyGateway host policyFile with
    | .error e => if e.isInvalid then .ok ⟨"governance.policy", .fail⟩ else .error e
    | .ok rules =>
      .ok ⟨"governance.policy",
        if (readinessActions config).any fun a => authorize rules a ≠ .allow then .warn else .pass⟩

/-- The loop over the lines of the log. -/
def readLines (loads : Loads O) (isSpace : Char → Bool) (undecodable : Bool) :
    List (List Char) → Except ReadError Unit
  | [] => if undecodable then .error .unicodeDecodeError else .ok ()
  | line :: rest =>
    if line.all isSpace then readLines loads isSpace undecodable rest
    else match loads line with
      | .ok _ => readLines loads isSpace undecodable rest
      | .error e => .error e

omit [Objects O] in
def readLog : Entry → Except ReadError Unit
  | .file content => readLines host.loads host.isSpace (host.lines content).2 (host.lines content).1
  | _ => .error .osError

def auditDir : PurePath := child (child config.dataDir "governance") "audit"

omit [Objects O] in
/-- `_audit_log_check` -/
def auditLogCheck : Except Exn Check :=
  let log := host.entry (child (auditDir config) "runtime.jsonl")
  let parent := host.entry (auditDir config)
  if log.present then
    if !log.isFile then .ok ⟨"audit.runtime", .fail⟩
    else match readLog host log with
      | .ok _ => .ok ⟨"audit.runtime", .pass⟩
      | .error e => if e.isUnreadable then .ok ⟨"audit.runtime", .fail⟩ else .error (.read e)
  else .ok ⟨"audit.runtime", if parent.present ∧ !parent.isDir then .fail else .warn⟩

/-! ## Runtime and profiles -/

/-- `_lifecycle_state_check`, of no state or of a text that may be one. -/
def lifecycleStateCheck : Option (Option AgentState) → Check
  | none => ⟨"lifecycle.agent", .warn⟩
  | some none => ⟨"lifecycle.agent", .fail⟩
  | some (some .failed) => ⟨"lifecycle.agent", .fail⟩
  | some (some .starting) | some (some .stopping) => ⟨"lifecycle.agent", .warn⟩
  | some (some _) => ⟨"lifecycle.agent", .pass⟩

omit [Objects O] in
/-- `_platform_support_check` -/
def platformSupportCheck : Check :=
  ⟨"release.platform", if host.platformId = "windows-desktop" then .pass else .warn⟩

/-- `_enabled_profiles_check` -/
def enabledProfilesCheck : Check :=
  ⟨"profiles.enabled", if config.enabledProfiles = [] then .fail else .pass⟩

/-- `_dependency_status_to_doctor_status` -/
def Readiness.toStatus : Readiness → Status
  | .available | .customerManaged | .disabled => .pass
  | .missingOptional | .unsupportedOs | .unknown => .warn
  | .missingRequired => .fail

def ProfileReadiness.checks (profile : ProfileReadiness) : List Check :=
  ⟨"dependencies.profile." ++ profile.profile.value, profile.status.toStatus⟩ ::
    profile.dependencies.map fun d => ⟨d.1.checkName, d.2.toStatus⟩

omit [Objects O] in
/-- `_dependency_readiness_checks` -/
def dependencyReadinessChecks : Except Exn (List Check) := do
  let profiles ← evaluateEnabledProfileReadiness host config
  return profiles.flatMap ProfileReadiness.checks

omit [Objects O] in
/-- The checks of the directories of `document_capability_checks`. -/
def documentsDirectoryCheck (operation : String) (path : PurePath) : Check :=
  let entry := host.entry path
  ⟨"documents." ++ operation,
    if entry.isDir then .pass else if entry.present then .fail else .warn⟩

omit [Objects O] in
/-- `_document_capability_checks` -/
def documentCapabilityChecks : List Check :=
  let documents := child config.dataDir "documents"
  if .documents ∉ config.enabledProfiles then []
  else
    [documentsDirectoryCheck host "documents-root" documents,
     documentsDirectoryCheck host "documents-cache" (child documents "cache"),
     documentsDirectoryCheck host "documents-outputs" (child documents "outputs"),
     ⟨"documents.pdf-extraction", if host.importable "pypdf" then .pass else .fail⟩,
     ⟨"documents.pdf-creation", if host.importable "reportlab" then .pass else .fail⟩,
     ⟨"documents.libreoffice-conversion",
       if host.command "soffice" ∨ host.command "libreoffice" then .pass else .fail⟩]

/-! ## Metabase -/

omit [Objects O] in
/-- `_endpoint_state` -/
def endpointState (endpoint : Option String) : Except Exn String :=
  match endpoint with
  | none | some "" => .ok "missing"
  | some endpoint => do
    let parsed ← fetch (Url.urlsplit host.rules endpoint.toList) (.valueError "Invalid URL")
    match parsed.hostname host.rules with
    | none => return "invalid"
    | some hostname =>
      return if parsed.scheme ≠ "http".toList ∧ parsed.scheme ≠ "https".toList then "invalid"
        else if hostname ∈ ["127.0.0.1".toList, "localhost".toList, "::1".toList] then
          "loopback_configured"
        else "remote_configured"

omit [Objects O] in
/-- `validate_metabase_health(config).status` -/
def metabaseHealth : Except Exn String := do
  let endpoint ← endpointState host config.metabase.endpoint
  let configured := config.metabase.applicationDatabase.any fun ref => startsWith ref "secret://"
  return if !config.metabase.enabled then "disabled"
    else if config.metabase.deployment ∉ ["managed_local", "customer_managed"] then
      "unsupported_deployment"
    else if endpoint = "missing" ∨ !configured then "not_ready"
    else "ready"

omit [Objects O] in
/-- `inspect_metabase_lifecycle(config).status` -/
def metabaseLifecycle : String :=
  let artifact := child (child (child config.dataDir "metabase") "application") "metabase.jar"
  if !config.metabase.enabled then "disabled"
  else if config.metabase.deployment = "customer_managed" then "customer_managed"
  else if config.metabase.deployment = "managed_local" then
    (if (host.entry artifact).isFile then "managed_local_ready" else "managed_local_artifact_missing")
  else "unsupported_deployment"

omit [Objects O] in
/-- The name of a view for a source, without what surrounds it. -/
def identifierText (source : String) : List Char :=
  let strip (p : Char → Bool) (text : List Char) :=
    ((text.dropWhile p).reverse.dropWhile p).reverse
  let words := (strip host.isSpace source.toList).flatMap fun c =>
    if host.isAlnum c then host.rules.lower [c] else ['_']
  strip (· = '_') words

omit [Objects O] in
/-- `_safe_identifier` -/
def safeIdentifier (source : String) : Except Exn (List Char) := do
  let normalized := identifierText host source
  ensure (normalized ≠ []) (.metabase "analytics source name is required")
  return normalized

omit [Objects O] in
/-- `plan_metabase_provisioning(config).status` -/
def metabaseProvisioning : Except Exn String := do
  let health ← metabaseHealth host config
  let views ← config.metabase.analyticsSources.mapM (safeIdentifier host)
  return if views = [] ∨ health ≠ "ready" then "blocked" else "planned"

/-- The status of the health and of the lifecycle. -/
def capabilityStatus (status : String) : Status :=
  if status ∈ ["not_ready", "blocked", "unsupported_deployment"] then .fail
  else if status ∈ ["live_check_deferred", "managed_local_artifact_missing"] then .warn
  else .pass

omit [Objects O] in
/-- `_metabase_capability_checks` -/
def metabaseCapabilityChecks : Except Exn (List Check) :=
  if .metabase ∉ config.enabledProfiles then .ok []
  else do
    let health ← metabaseHealth host config
    let plan ← metabaseProvisioning host config
    return [⟨"metabase.health", capabilityStatus health⟩,
      ⟨"metabase.lifecycle", capabilityStatus (metabaseLifecycle host config)⟩,
      -- a plan that is not applied only warns when it is blocked
      ⟨"metabase.provisioning", if plan = "blocked" then .warn else .pass⟩]

/-! ## Report -/

/-- The ids of `DOCUMENT_SKILL_ALLOWLIST`. -/
def documentSkillAllowlist : List String := ["documents/pdf"]

omit [Objects O] in
/-- `_skill_package_checks` -/
def skillPackageChecks : List Check :=
  documentSkillAllowlist.map fun skillId =>
    ⟨"skills." ++ String.ofList (skillId.toList.map fun c => if c = '/' then '.' else c),
      if host.discoverable skillId then .pass else .fail⟩

/-- `_model_config_check` -/
def modelConfigCheck : Check := ⟨"model.config", if config.modelInvalid.isNone then .pass else .fail⟩

/-- `_connector_config_check` -/
def connectorConfigCheck : Check :=
  ⟨"connectors.config",
    if config.integrations = [] then .warn
    else if config.integrations.all fun item => item.2.valid then .pass else .fail⟩

/-- The check of the secret store, which says whether it is healthy if there is one. -/
def secretsCheck (secretStore : Option Bool) : Check :=
  ⟨"secrets.backend", if secretStore = some true then .pass else .warn⟩

def compatibilityCheck (runtime : Runtime) : Check :=
  ⟨"hermes.compatibility", if runtime.compatible then .pass else .fail⟩

def healthCheck (runtime : Runtime) (lifecycleState : Option (Option AgentState)) : Check :=
  ⟨"hermes.health",
    if runtime.healthy then .pass
    else if runtime.compatible ∧ (lifecycleState = some (some .created) ∨
      lifecycleState = some (some .stopped)) then .warn
    else .fail⟩

def runDoctor (runtime : Runtime) (lifecycleState : Option (Option AgentState))
    (secretStore : Option Bool) : Except Exn Report := do
  let memoryStore ← memoryStoreCheck host config
  let embedding ← embeddingModelCheck host config
  let policy ← governancePolicyCheck host config
  let audit ← auditLogCheck host config
  let dependencies ← dependencyReadinessChecks host config
  let metabase ← metabaseCapabilityChecks host config
  return { checks :=
    [configCheck config, dataDirCheck host config, diskSpaceCheck host config, memoryStore, embedding,
      policy, audit, managedDirectoryCheck host config "backup.state" "backups",
      managedDirectoryCheck host config "migration.state" "migrations",
      lifecycleStateCheck lifecycleState, platformSupportCheck host, enabledProfilesCheck config] ++
    dependencies ++ documentCapabilityChecks host config ++ metabase ++ skillPackageChecks host ++
    [modelConfigCheck config, connectorConfigCheck config, ⟨"local_api.binding", .pass⟩,
      secretsCheck secretStore, compatibilityCheck runtime, healthCheck runtime lifecycleState] }

end

end ProjectMaya.Doctor
