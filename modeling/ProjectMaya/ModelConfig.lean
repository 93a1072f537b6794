import ProjectMaya.SessionWrite
import ProjectMaya.BrokerTokens
import ProjectMaya.Logic.Url

/-! # Model configuration

A model configuration is read three times: `require_valid_model_config` accepts it, the
bootstrap builds the arguments of Hermes from it, and the plugin compares every model call with
it.  `configured_route_agrees` says on which configurations the three agree. -/

namespace ProjectMaya.Plugin

open Logic
open Broker (BrokerMode Edition)

/-! ## Configuration -/

structure ModelConfig extends LlmConfig where
  credentialRef : Option String := none
  timeoutSeconds : Int := 60
  deriving DecidableEq, Repr

structure RuntimeConfig where
  hermesCompatibility : String
  hermesFactory : String := "run_agent:AIAgent"
  hermesRuntimeVersion : Option String := none
  deriving DecidableEq, Repr

/-- What the model code reads of `MayaConfig`. -/
structure MayaConfig where
  llm : ModelConfig
  edition : Edition
  brokerMode : BrokerMode
  runtime : RuntimeConfig
  dataDir : PurePath
  deriving DecidableEq, Repr

/-- The configuration of the plugin. -/
def MayaConfig.plugin (config : MayaConfig) : Config where
  llm := config.llm.toLlmConfig
  dataDir := config.dataDir

structure SecretRef where
  name : String
  deriving DecidableEq, Repr

/-- `SecretRef.parse`; `none` when it raises `SecretReferenceError`. -/
def SecretRef.parse (value : String) : Option SecretRef :=
  let start := "secret://".toList
  if ¬ start.isPrefixOf value.toList ∨ value.toList = start then none
  else some ⟨String.ofList (value.toList.drop start.length)⟩

inductive ModelConfigStatus where
  | valid | invalid
  deriving DecidableEq, Repr

structure ModelConfigValidation where
  status : ModelConfigStatus
  mode : String
  provider : String
  model : String
  endpointState : String
  credentialRefState : String
  networkUsed : Bool
  message : String
  deriving DecidableEq, Repr

structure ConfigError where
  message : String
  deriving DecidableEq, Repr

/-! ## Validation -/

section

variable (ν : Type) [Python ν]

/-- `text.strip()` -/
def strip (text : String) : String :=
  let isSpace := Python.isSpace ν
  String.ofList ((text.toList.dropWhile isSpace).reverse.dropWhile isSpace).reverse

/-- `_valid_endpoint` -/
def validEndpoint (value : String) : Bool :=
  if value.toList.any (fun c => Python.isSpace ν c || c.toNat < 32 || c.toNat = 127 || c = '\\') then false
  else
    match Python.urlsplit ν value with
    | none => false
    | some parsed =>
      parsed.port.isSome && (parsed.scheme = "http" || parsed.scheme = "https") &&
        parsed.hostname.getD "" ≠ "" && parsed.username = none && parsed.password = none &&
        parsed.query = "" && parsed.fragment = "" && !parsed.netloc.toList.contains '%'

def localHost (host : String) : Bool :=
  host = "localhost" || host = "::1" || "127.".toList.isPrefixOf host.toList

/-- `_endpoint_state` -/
def endpointState (llm : ModelConfig) : String :=
  match llm.endpoint with
  | none => "provider_default"
  | some url =>
    if !validEndpoint ν url then "invalid"
    else if localHost (((Python.urlsplit ν url).bind SplitResult.hostname).getD "") then
      "local_configured"
    else "customer_hosted_configured"

/-- `_credential_ref_state` -/
def credentialRefState (llm : ModelConfig) : String :=
  match llm.credentialRef with
  | none => "not_configured"
  | some ref => if (SecretRef.parse ref).isNone then "invalid" else "configured"

/-- `SUPPORTED_MODEL_MODES` -/
def supportedModelModes : List String := ["customer_owned", "local", "maya_managed"]

/-- `LOCAL_MODEL_PROVIDER` -/
def localModelProvider : String := "openai-compatible"

/-- `_first_invalid_reason`, as the message of the check that fails first. -/
def modelChecks (config : MayaConfig) : Except String Unit := do
  let llm := config.llm
  ensure (llm.mode ∈ supportedModelModes) ("llm.mode is unsupported: " ++ llm.mode)
  ensure (strip ν llm.provider ≠ "") "llm.provider is required"
  ensure (strip ν llm.model ≠ "") "llm.model is required"
  ensure (Python.lower ν (strip ν llm.model) ≠ "configured-during-setup")
    "llm.model requires an explicit model selection in Setup Maya"
  ensure (∀ ref ∈ llm.credentialRef, (SecretRef.parse ref).isSome)
    "llm.credential_ref must be a secret:// reference"
  ensure (∀ url ∈ llm.endpoint, validEndpoint ν url)
    "llm.endpoint must be an http or https URL without credentials, query, or fragment"
  ensure (¬ (llm.mode = "customer_owned" ∧ llm.credentialRef = none))
    "customer_owned model mode requires llm.credential_ref"
  ensure (¬ (llm.mode = "local" ∧ llm.endpoint = none)) "local model mode requires llm.endpoint"
  ensure (¬ (llm.mode = "local" ∧ llm.provider ≠ localModelProvider))
    "local model mode requires llm.provider=openai-compatible"
  ensure (¬ (llm.mode = "maya_managed" ∧ config.edition = .enterprise ∧ config.brokerMode = .disabled))
    "maya_managed model mode requires Maya cloud services"

def firstInvalidReason (config : MayaConfig) : Option String :=
  match modelChecks ν config with
  | .ok () => none
  | .error reason => some reason

def validateModelConfig (config : MayaConfig) : ModelConfigValidation :=
  let llm := config.llm
  let validation (status : ModelConfigStatus) (message : String) : ModelConfigValidation :=
    { status, mode := llm.mode, provider := llm.provider, model := llm.model
      endpointState := endpointState ν llm, credentialRefState := credentialRefState llm
      networkUsed := false, message }
  match firstInvalidReason ν config with
  | some reason => validation .invalid reason
  | none => validation .valid "model configuration valid"

def requireValidModelConfig (config : MayaConfig) : Except ConfigError ModelConfigValidation := do
  let validation := validateModelConfig ν config
  ensure (validation.status = .valid) ⟨validation.message⟩
  return validation

/-- What is accepted has passed every check. -/
theorem modelChecks_of_accepted {config : MayaConfig} {validation : ModelConfigValidation}
    (h : requireValidModelConfig ν config = .ok validation) : modelChecks ν config = .ok () := by
  unfold requireValidModelConfig at h
  simp only [bind_eq_ok, ensure_eq_ok] at h
  obtain ⟨-, hv, -⟩ := h
  unfold validateModelConfig firstInvalidReason at hv
  cases hc : modelChecks ν config with
  | error reason => simp [hc] at hv
  | ok u => rfl

end

/-! ## The runtime -/

/-- The arguments with which the factory of Hermes is called. -/
structure FactoryKwargs where
  model : String
  provider : String
  quietMode : Bool
  baseUrl : Option String := none
  apiKey : Option String := none
  /-- `request_overrides["timeout_seconds"]` -/
  timeoutSeconds : Option Int := none
  deriving DecidableEq, Repr

structure HermesRuntimeAdapter where
  factoryPath : String
  runtimeVersion : String
  supportedContract : String
  factoryKwargs : FactoryKwargs
  /-- The startup guard is `ensure_governance_registered`. -/
  startupGuard : Bool
  deriving DecidableEq, Repr

/-- `x or default` for a text. -/
def orElse (text : Option String) (default : String) : String :=
  if text.getD "" = "" then default else text.getD ""

def HermesRuntimeAdapter.contractVersion : String := "project-maya.agent-runtime.v1"

structure SecretStore where
  contains : SecretRef → Except Raised Bool
  read : SecretRef → Except Raised String

/-- `_HERMES_DIRECT_PROVIDER_ENDPOINTS.get(provider)` -/
def directProviderEndpoint (provider : String) : Option String :=
  if provider = "openai" then some "https://api.openai.com/v1" else none

section

variable (ν : Type) [Python ν] (store : SecretStore)

/-- The base URL that the runtime is built with. -/
def runtimeEndpoint (llm : ModelConfig) : Option String :=
  if llm.endpoint.getD "" ≠ "" then llm.endpoint
  else (directProviderEndpoint (Python.lower ν (strip ν llm.provider))).filter (· ≠ "")

/-- The key for the model, when there is a reference to it and the store has it. -/
def readApiKey (llm : ModelConfig) : Except Raised (Option String) :=
  if llm.credentialRef.getD "" = "" then return none
  else do
    let ref ← fetch (SecretRef.parse (llm.credentialRef.getD "")) .failure
    if ← store.contains ref then return some (← store.read ref)
    else return none

/-- `_build_hermes_runtime` -/
def buildHermesRuntime (config : MayaConfig) : Except Raised HermesRuntimeAdapter := do
  let llm := config.llm
  let apiKey ← readApiKey store llm
  return {
    factoryPath := config.runtime.hermesFactory
    runtimeVersion := orElse config.runtime.hermesRuntimeVersion "unknown"
    supportedContract := orElse (some config.runtime.hermesCompatibility)
      HermesRuntimeAdapter.contractVersion
    factoryKwargs := {
      model := llm.model
      provider := llm.provider
      quietMode := true
      baseUrl := runtimeEndpoint ν llm
      apiKey
      timeoutSeconds := if llm.timeoutSeconds = 0 then none else some llm.timeoutSeconds }
    startupGuard := config.runtime.hermesFactory = "run_agent:AIAgent" }

/-- The model, the provider and the base URL are those of the configuration. -/
theorem factoryKwargs_of_built {config : MayaConfig} {runtime : HermesRuntimeAdapter}
    (h : buildHermesRuntime ν store config = .ok runtime) :
    runtime.factoryKwargs.model = config.llm.model ∧
      runtime.factoryKwargs.provider = config.llm.provider ∧
      runtime.factoryKwargs.baseUrl = runtimeEndpoint ν config.llm := by
  unfold buildHermesRuntime at h
  simp only [bind_eq_ok, pure_eq_ok] at h
  obtain ⟨apiKey, -, rfl⟩ := h
  exact ⟨rfl, rfl, rfl⟩

end

/-! ## URLs -/

/-- What `urlsplit` says of a URL. -/
def splitResult (rules : Url.Rules) (url : String) : Option SplitResult :=
  (Url.urlsplit rules url.toList).map fun parsed =>
    { scheme := String.ofList parsed.scheme
      netloc := String.ofList parsed.netloc
      hostname := (parsed.hostname rules).map String.ofList
      username := parsed.username.map String.ofList
      password := parsed.password.map String.ofList
      query := String.ofList parsed.query
      fragment := String.ofList parsed.fragment
      port := parsed.port }

theorem splitResult_openai (rules : Url.Rules) :
    ∃ parsed, splitResult rules "https://api.openai.com/v1" = some parsed ∧ parsed.scheme = "https" ∧
      parsed.username = none ∧ parsed.password = none ∧ parsed.query = "" ∧ parsed.fragment = "" :=
  ⟨_, rfl, rfl, rfl, rfl, rfl, rfl⟩

/-! ## The route -/

/-- The call names the provider, the base URL and the model that Hermes was built with. -/
structure CalledWith {ν : Type} (kwargs : FactoryKwargs) (request context : Dict ν) : Prop where
  provider : context.get "provider" = .str kwargs.provider
  baseUrl : context.get "base_url" = (kwargs.baseUrl.map .str).getD .none
  model : request.get "model" = .str kwargs.model

/-- What the route check wants of the endpoint. -/
def Secure (llm : LlmConfig) (parsed : SplitResult) : Prop :=
  parsed.scheme = "https" ∨ (llm.mode = "local" ∧ parsed.scheme = "http" ∧
    parsed.hostname ∈ ["127.0.0.1", "localhost", "::1"].map some)

instance (llm : LlmConfig) (parsed : SplitResult) : Decidable (Secure llm parsed) :=
  inferInstanceAs (Decidable (_ ∨ _))

/-- Nothing in the URL is a credential or data. -/
def SplitResult.Bare (parsed : SplitResult) : Prop :=
  parsed.username = none ∧ parsed.password = none ∧ parsed.query = "" ∧ parsed.fragment = ""

section

variable {ν : Type} [Python ν] {llm : LlmConfig} {request context : Dict ν}

/-- The route of a call that agrees with the configuration is decided by the endpoint. -/
theorem modelRoute_eq {url : String} {parsed : SplitResult}
    (hm : llm.mode ≠ "maya_managed") (he : expectedEndpoint llm = some url) (hu : url ≠ "")
    (hp : context.get "provider" = .str llm.provider) (hb : context.get "base_url" = .str url)
    (hr : request.get "model" = .str llm.model) (hs : Python.urlsplit ν url = some parsed)
    (hbare : parsed.Bare) :
    modelRoute llm context request =
      if Secure llm parsed then .ok () else .error (.boundary "governance.model_route_invalid") := by
  obtain ⟨hun, hpw, hq, hf⟩ := hbare
  have hcontext : (context.get "provider").isText llm.provider ∧ (context.get "base_url").isText url := by
    rw [hp, hb]
    exact ⟨by simp [Payload.isText], by simp [Payload.isText]⟩
  have hmodel : (request.get "model").isText llm.model := by
    rw [hr]
    simp [Payload.isText]
  have hplain : (parsed.username.getD "" = "" ∧ parsed.password.getD "" = "") ∧
      parsed.query = "" ∧ parsed.fragment = "" := by
    rw [hun, hpw]
    exact ⟨⟨rfl, rfl⟩, hq, hf⟩
  have hfilter : (expectedEndpoint llm).filter (fun e => e ≠ "") = some url := by
    rw [he, Option.filter_some, if_pos (by simpa using hu)]
  unfold modelRoute
  rw [ensure_pos hm, ok_bind, hfilter, fetch_some, ok_bind, ensure_pos hcontext, ok_bind, hs, fetch_some,
    ok_bind, ensure_pos hplain, ok_bind, ensure_pos hmodel]
  by_cases hsecure : Secure llm parsed
  · rw [if_pos hsecure]
    unfold Secure at hsecure
    rw [ensure_pos hsecure, ok_bind]
  · rw [if_neg hsecure]
    unfold Secure at hsecure
    rw [ensure_neg hsecure, error_bind]

/-- Without an endpoint the call is refused, whatever base URL it names. -/
theorem modelRoute_missing (hm : llm.mode ≠ "maya_managed")
    (he : (expectedEndpoint llm).filter (fun e => e ≠ "") = none) :
    modelRoute llm context request = .error (.boundary "governance.model_route_mismatch") := by
  unfold modelRoute
  rw [ensure_pos hm, ok_bind, he, fetch_none, error_bind]

end

/-- `model_execution` with `ask` in place of the route check and of the question to the
gateway. -/
def egressCall {T ν : Type} [LinearOrder T] (clock : Clock T) [Python ν] (who : Caller) (request : Dict ν)
    (ask : RequestIdentity → Code T ν Unit) : Code T ν (Payload ν) := do
  guarded who "model.egress" "governance.model_execution_failed" do
    let identity ← actor clock who
    let _ ← ofExcept (checkedPayload (.mapping true request))
    ask identity
  Prog.mapError (nextCall (.mapping true request)) fun
    | .boundary message => do
      auditBlock who "model.egress"
      return publicError message
    | e => pure e

section

variable {T ν : Type} [LinearOrder T] (clock : Clock T) [Python ν] {config : Config} {who : Caller}
  {request context : Dict ν}

theorem modelExecution_of_route (h : modelRoute config.llm context request = .ok ()) :
    modelExecution clock config who request context =
      egressCall clock who request fun identity => authorize (modelAction config.llm identity) := by
  unfold modelExecution egressCall ofExcept
  simp only [h, Prog.done_ok_bind] <;> rfl

theorem modelExecution_of_refusal {code : String}
    (h : modelRoute config.llm context request = .error (.boundary code)) :
    modelExecution clock config who request context =
      egressCall clock who request fun _ => refuse code := by
  unfold modelExecution egressCall ofExcept refuse Prog.raise
  simp only [h, Prog.done_error_bind] <;> rfl

end

/-! ## Agreement -/

section

variable {ν : Type} [Python ν]

/-- A URL that the validator accepts can be split, and is bare. -/
theorem bare_of_validEndpoint {url : String} (h : validEndpoint ν url) :
    ∃ parsed, Python.urlsplit ν url = some parsed ∧ parsed.Bare ∧ parsed.scheme ≠ "" := by
  unfold validEndpoint at h
  split at h
  · contradiction
  · cases hs : Python.urlsplit ν url with
    | none => simp [hs] at h
    | some parsed =>
      simp only [hs, Bool.and_eq_true, Bool.or_eq_true, decide_eq_true_eq] at h
      obtain ⟨⟨⟨⟨⟨⟨⟨-, hscheme⟩, -⟩, hun⟩, hpw⟩, hq⟩, hf⟩, -⟩ := h
      refine ⟨parsed, rfl, ⟨hun, hpw, hq, hf⟩, ?_⟩
      intro hempty
      rw [hempty] at hscheme
      rcases hscheme with hscheme | hscheme <;> contradiction

/-- Of an accepted configuration: an endpoint is a valid URL, and without one the mode is
`customer_owned`, unless Maya manages the model. -/
theorem endpoint_of_modelChecks {config : MayaConfig} (h : modelChecks ν config = .ok ()) :
    (∀ url ∈ config.llm.endpoint, validEndpoint ν url) ∧
      (config.llm.endpoint = none → config.llm.mode ≠ "maya_managed" →
        config.llm.mode = "customer_owned") := by
  unfold modelChecks at h
  simp only [bind_eq_ok, ensure_eq_ok, exists_and_left, exists_const] at h
  obtain ⟨hmode, -, -, -, -, hurl, -, hlocal, -, -⟩ := h
  refine ⟨hurl, fun hnone hmanaged => ?_⟩
  have hnot : config.llm.mode ≠ "local" := fun hl => hlocal ⟨hl, hnone⟩
  simpa [supportedModelModes, hnot, hmanaged] using hmode

end

/-- What is relied on of the text functions of Python: how `urlsplit` cuts, that `lower` of
ASCII text goes letter by letter, and that no letter or digit is a space. -/
structure TextRules (ν : Type) [Python ν] (rules : Url.Rules) : Prop where
  urlsplit : ∀ url, Python.urlsplit ν url = splitResult rules url
  lower : ∀ text : String, (∀ c ∈ text.toList, c.toNat < 128) →
    Python.lower ν text = String.ofList (text.toList.map Char.toLower)
  isSpace : ∀ c : Char, c.isAlphanum → Python.isSpace ν c = false

section

variable {ν : Type} [Python ν] {rules : Url.Rules}

theorem lower_strip_openai (htext : TextRules ν rules) : Python.lower ν (strip ν "openai") = "openai" := by
  have ho : Python.isSpace ν 'o' = false := htext.isSpace 'o' (by decide)
  have hi : Python.isSpace ν 'i' = false := htext.isSpace 'i' (by decide)
  have hstrip : strip ν "openai" = "openai" := by
    simp [strip, ho, hi]
  rw [hstrip, htext.lower "openai" (by simp)]
  decide

end

section

variable {T ν : Type} [LinearOrder T] (clock : Clock T) [Python ν] {rules : Url.Rules}
  {store : SecretStore} {config : MayaConfig} {validation : ModelConfigValidation}
  {runtime : HermesRuntimeAdapter}

/-- A configuration that is accepted and a call with what the runtime was built with: with a
configured endpoint the gateway is asked exactly if the endpoint is secure; without one it is
asked for OpenAI, whose endpoint is known, and no other provider has a route. -/
theorem configured_route_agrees (htext : TextRules ν rules)
    (hv : requireValidModelConfig ν config = .ok validation) (hm : config.llm.mode ≠ "maya_managed")
    (hb : buildHermesRuntime ν store config = .ok runtime) (who : Caller) {request context : Dict ν}
    (hc : CalledWith runtime.factoryKwargs request context) :
    let asked := egressCall clock who request fun identity =>
      authorize (modelAction config.llm.toLlmConfig identity)
    let refused (code : String) := egressCall clock who request fun _ => refuse code
    (∀ url, config.llm.endpoint = some url → ∃ parsed, Python.urlsplit ν url = some parsed ∧
      (Secure config.llm.toLlmConfig parsed →
        modelExecution clock config.plugin who request context = asked) ∧
      (¬ Secure config.llm.toLlmConfig parsed →
        modelExecution clock config.plugin who request context =
          refused "governance.model_route_invalid")) ∧
    (config.llm.endpoint = none → config.llm.provider = "openai" →
      modelExecution clock config.plugin who request context = asked) ∧
    (config.llm.endpoint = none → Python.lower ν (strip ν config.llm.provider) ≠ "openai" →
      modelExecution clock config.plugin who request context =
        refused "governance.model_route_mismatch") := by
  have hchecks := modelChecks_of_accepted ν hv
  obtain ⟨hvalid, hmode⟩ := endpoint_of_modelChecks hchecks
  obtain ⟨hmodel, hprovider, hbase⟩ := factoryKwargs_of_built ν store hb
  have hp : context.get "provider" = .str config.llm.provider := by rw [hc.provider, hprovider]
  have hr : request.get "model" = .str config.llm.model := by rw [hc.model, hmodel]
  refine ⟨fun url he => ?_, fun he ho => ?_, fun he ho => ?_⟩
  · obtain ⟨parsed, hs, hbare, hu⟩ := bare_of_validEndpoint (hvalid url he)
    have hne : url ≠ "" := by
      rintro rfl
      rw [htext.urlsplit] at hs
      have hempty : some parsed.scheme = some "" := congrArg (Option.map SplitResult.scheme) hs.symm
      exact hu (Option.some.inj hempty)
    have hexpected : expectedEndpoint config.llm.toLlmConfig = some url := by
      simp [expectedEndpoint, he]
    have hcontext : context.get "base_url" = .str url := by
      rw [hc.baseUrl, hbase]
      simp [runtimeEndpoint, he, hne]
    have hroute := modelRoute_eq hm hexpected hne hp hcontext hr hs hbare
    refine ⟨parsed, hs, fun hsecure => ?_, fun hsecure => ?_⟩
    · rw [if_pos hsecure] at hroute
      exact modelExecution_of_route clock (show modelRoute config.plugin.llm context request = _ from hroute)
    · rw [if_neg hsecure] at hroute
      exact modelExecution_of_refusal clock (show modelRoute config.plugin.llm context request = _ from hroute)
  · have hexpected : expectedEndpoint config.llm.toLlmConfig = some "https://api.openai.com/v1" := by
      simp [expectedEndpoint, he, hmode he hm, ho]
    have hcontext : context.get "base_url" = .str "https://api.openai.com/v1" := by
      rw [hc.baseUrl, hbase]
      simp only [runtimeEndpoint, he, ho, lower_strip_openai htext, directProviderEndpoint]
      rfl
    obtain ⟨parsed, hs, hscheme, hbare⟩ := splitResult_openai rules
    rw [← htext.urlsplit] at hs
    have hroute := modelRoute_eq hm hexpected (by decide) hp hcontext hr hs hbare
    have hsecure : Secure config.llm.toLlmConfig parsed := Or.inl hscheme
    rw [if_pos hsecure] at hroute
    exact modelExecution_of_route clock (show modelRoute config.plugin.llm context request = _ from hroute)
  · have hprovider : config.llm.provider ≠ "openai" := by
      intro hopenai
      rw [hopenai, lower_strip_openai htext] at ho
      exact ho rfl
    have hexpected : (expectedEndpoint config.llm.toLlmConfig).filter (fun e => e ≠ "") = none := by
      simp [expectedEndpoint, he, hprovider]
    exact modelExecution_of_refusal clock
      (show modelRoute config.plugin.llm context request = _ from modelRoute_missing hm hexpected)

end

namespace Sample

/-- ASCII rules: brackets are not looked into. -/
def asciiRules : Url.Rules where
  bracketed _ := true
  nfkc := id
  lower := List.map Char.toLower

/-- Floats as whole numbers; no text is JSON. -/
instance : Python Int where
  isFinite _ := true
  repr _ := "0.0"
  lower text := String.ofList (text.toList.map Char.toLower)
  isWord c := c.isAlphanum || c = '_'
  isDecimal := Char.isDigit
  isSpace := Char.isWhitespace
  loads _ := .ok none
  urlsplit := splitResult asciiRules
  recursionLimit := 1000
  maxStrDigits := 4300

theorem asciiText : TextRules Int asciiRules where
  urlsplit _ := rfl
  lower _ _ := rfl
  isSpace c hc := by
    show c.isWhitespace = false
    by_contra hspace
    simp only [Bool.not_eq_false, Char.isWhitespace, Bool.or_eq_true, decide_eq_true_eq] at hspace
    obtain ((rfl | rfl) | rfl) | rfl := hspace <;> contradiction

def emptyStore : SecretStore where
  contains _ := .ok false
  read _ := .error .failure

/-- A model of the customer without TLS. -/
def vllm : MayaConfig where
  llm := { mode := "customer_owned", provider := "vllm", model := "m"
           endpoint := some "http://models.example:8000/v1", credentialRef := some "secret://vllm" }
  edition := .standard
  brokerMode := .disabled
  runtime := { hermesCompatibility := "" }
  dataDir := .parse "/srv/maya"

/-- The same on this machine. -/
def localModel : MayaConfig :=
  { vllm with llm := { vllm.llm with
      mode := "local", provider := "openai-compatible", endpoint := some "http://127.0.0.1:8000/v1" } }

def runtimeOf (config : MayaConfig) : HermesRuntimeAdapter where
  factoryPath := "run_agent:AIAgent"
  runtimeVersion := "unknown"
  supportedContract := "project-maya.agent-runtime.v1"
  factoryKwargs := { model := "m", provider := config.llm.provider, quietMode := true
                     baseUrl := config.llm.endpoint, timeoutSeconds := some 60 }
  startupGuard := true

def request : Dict Int := [(.str "model", .str "m")]

def contextOf (config : MayaConfig) : Dict Int :=
  [(.str "provider", .str config.llm.provider), (.str "base_url", .str (config.llm.endpoint.getD ""))]

def caller : Caller where
  thread := 1
  task := none
  identity := some alice
  session := none

theorem vllm_accepted : requireValidModelConfig Int vllm = .ok (validateModelConfig Int vllm) := rfl

theorem vllm_built : buildHermesRuntime Int emptyStore vllm = .ok (runtimeOf vllm) := rfl

theorem called_with (config : MayaConfig) (h : config.llm.endpoint ≠ none) :
    CalledWith (runtimeOf config).factoryKwargs request (contextOf config) := by
  cases he : config.llm.endpoint with
  | none => exact absurd he h
  | some url => exact ⟨rfl, by simp [runtimeOf, contextOf, he, Dict.get, Dict.getD], rfl⟩

/-- On this machine the gateway is asked. -/
theorem local_model_asked :
    modelExecution clock localModel.plugin caller request (contextOf localModel) =
      egressCall clock caller request fun identity =>
        authorize (modelAction localModel.llm.toLlmConfig identity) := by
  have hagrees := configured_route_agrees clock asciiText
    (rfl : requireValidModelConfig Int localModel = .ok (validateModelConfig Int localModel)) (by decide)
    (rfl : buildHermesRuntime Int emptyStore localModel = .ok (runtimeOf localModel)) caller
    (called_with localModel (by decide))
  obtain ⟨parsed, hs, hasked, -⟩ := hagrees.1 "http://127.0.0.1:8000/v1" rfl
  have hsecure : ∀ parsed ∈ Python.urlsplit Int "http://127.0.0.1:8000/v1",
      Secure localModel.llm.toLlmConfig parsed := by decide +kernel
  exact hasked (hsecure parsed hs)

/-- The gateway would allow it. -/
def allowing : Choice Int where
  gateway := .ok { decision := .allow, reasonCode := "allowed" }

/-- Elsewhere the route is refused, and the gateway is not asked. -/
theorem accepted_not_asked :
    ¬ ∀ (config : MayaConfig) (validation : ModelConfigValidation) (runtime : HermesRuntimeAdapter)
      (request context : Dict Int),
      requireValidModelConfig Int config = .ok validation → config.llm.mode ≠ "maya_managed" →
      buildHermesRuntime Int emptyStore config = .ok runtime →
      CalledWith runtime.factoryKwargs request context →
      ∃ action result, Event.asked action result ∈
        ((modelExecution clock config.plugin caller request context).under allowing {} []).2.2 := by
  intro h
  obtain ⟨action, result, hasked⟩ := h vllm _ _ request (contextOf vllm) vllm_accepted (by decide)
    vllm_built (called_with vllm (by decide))
  have htrace : ((modelExecution clock vllm.plugin caller request (contextOf vllm)).under allowing {} []).2.2 =
      [.wrote (blockRecord caller "model.egress")] := rfl
  rw [htrace] at hasked
  simp at hasked

example : (requireValidModelConfig Int vllm).toOption.map ModelConfigValidation.endpointState =
    some "customer_hosted_configured" := by
  decide +kernel

example : (requireValidModelConfig Int localModel).toOption.map ModelConfigValidation.endpointState =
    some "local_configured" := by
  decide +kernel

end Sample

end ProjectMaya.Plugin
