import Mathlib.Logic.Function.Basic
import ProjectMaya.Broker
import ProjectMaya.Logic.Hosts

/-! # OAuth sessions and token envelopes

Any number of processes share a data directory and a secret store.  A session is a file, the
tokens of a provider are one envelope in the secret store, and what is recorded about them is a
second file.  Each is read and written by itself, and a file is torn while it is written. -/

namespace ProjectMaya.Broker

open Logic

/-! ## Configuration -/

inductive BrokerMode where
  | runtime | setupOnly | disabled
  deriving DecidableEq, Repr

inductive CredentialMode where
  | broker | customerOwned | localOnly | disabled
  deriving DecidableEq, Repr

inductive Edition where
  | standard | enterprise
  deriving DecidableEq, Repr

structure Integration where
  enabled : Bool
  credentialMode : CredentialMode
  deriving DecidableEq, Repr

/-- What the code reads of a `MayaConfig`. -/
structure Config where
  mode : BrokerMode
  /-- empty when there is none -/
  endpoint : String
  edition : Edition
  integrations : String → Option Integration
  /-- `_connector_scopes` -/
  connectorScopes : String → Except Failure (List String)
  /-- `config.validate()` -/
  validate : Except Failure Unit

/-- `_require_broker_not_disabled` -/
def requireBrokerNotDisabled (config : Config) (runtimeRequired : Bool) : Except Failure Unit := do
  ensure (config.mode ≠ .disabled) (.operation "broker mode is disabled")
  ensure (runtimeRequired = true → config.mode = .runtime) (.operation "broker runtime mode is required")

/-- `_require_broker_runtime` -/
def requireBrokerRuntime (config : Config) : Except Failure Unit := do
  requireBrokerNotDisabled config true
  ensure (config.endpoint ≠ "") (.operation "broker endpoint is required")

/-- `SUPPORTED_BROKER_PROVIDERS` -/
def supportedBrokerProviders : List String := ["google", "slack"]

/-- `_require_supported_provider` -/
def requireSupportedProvider (loc : Locale) (provider : String) : Except Failure String := do
  let normalized := loc.strip (loc.lower provider)
  ensure (normalized ∈ supportedBrokerProviders) (.operation "broker OAuth supports google and slack only")
  return normalized

/-- `_require_broker_connector` -/
def requireBrokerConnector (config : Config) (provider : String) : Except Failure Unit :=
  match config.integrations provider with
  | none => .error (.operation (provider ++ " integration is not enabled"))
  | some integration => do
    ensure (integration.enabled = true) (.operation (provider ++ " integration is not enabled"))
    ensure (integration.credentialMode = .broker)
      (.operation (provider ++ " integration is not broker-assisted"))
    ensure (config.edition ≠ .enterprise) (.operation "Enterprise must use customer-owned OAuth clients")

/-! ## What is stored -/

structure OAuthSession where
  sessionId : String
  provider : String
  state : String
  nonce : String
  codeChallenge : String
  codeChallengeMethod : String
  redirectUri : String
  authorizationUrl : String
  scopes : List String
  expiresAt : String
  mutation : String
  deriving DecidableEq, Repr

/-- The document of a session.  `start` tells the sessions apart: it counts the documents that were
written before; no code reads it. -/
structure SessionDocument where
  session : OAuthSession
  codeVerifierHash : String
  createdAt : String
  start : Nat
  deriving DecidableEq, Repr

/-- The token payload in the secret store. -/
structure Envelope where
  provider : String
  accessToken : String
  refreshToken : String
  tokenType : String
  scope : String
  expiresAt : String
  refreshOwner : String
  rotationCount : Int
  deriving DecidableEq, Repr

inductive TokenLifecycleState where
  | notConfigured | active | refreshRequired | revoked | blocked
  deriving DecidableEq, Repr

structure TokenLifecycleStatus where
  provider : String
  state : TokenLifecycleState
  refreshOwner : String
  scopes : List String
  expiresAt : Option String
  rotationCount : Int
  revokedAt : Option String
  message : String
  deriving DecidableEq, Repr

/-- A file, or a value of the secret store: a text that was cut off is no document. -/
inductive Content (α : Type) where
  | absent
  | torn
  | whole (a : α)
  deriving DecidableEq, Repr

/-- One stored envelope of a completion: whose session, and when it was found fresh. -/
structure Completion where
  document : SessionDocument
  checkedAt : DateTime
  deriving DecidableEq

/-- The data directory and the secret store.  `opened` and `completed` are the history of the session
documents and of the envelopes of completions; no code reads them. -/
structure Store where
  sessions : String → Content SessionDocument := fun _ => .absent
  envelopes : String → Content Envelope := fun _ => .absent
  statuses : String → Content TokenLifecycleStatus := fun _ => .absent
  opened : List SessionDocument := []
  completed : List Completion := []

inductive Fault where
  /-- The step raises before it does anything. -/
  | raised
  /-- The step raises halfway. -/
  | torn
  deriving DecidableEq, Repr

/-- What the environment decides at a step: whether it fails, the time, the random text. -/
structure Choice where
  fault : Option Fault := none
  now : DateTime
  token : String := ""
  deriving Inhabited

/-- Whether the call has stored the envelope of a completion; no code reads it. -/
abbrev Stored := Bool

abbrev Procedure := Prog Choice Store Stored Failure

/-! ## Steps -/

/-- `secrets.token_urlsafe` -/
def tokenUrlsafe : Procedure String := .perform ⟨fun f s l => (.ok f.token, s, l)⟩

/-- `datetime.now(UTC)` -/
def now : Procedure DateTime := .perform ⟨fun f s l => (.ok f.now, s, l)⟩

/-- A step that changes the stores, or fails before or halfway. -/
def change (done halfway : Store → Store) : Procedure Unit := .perform ⟨fun f s l =>
  match f.fault with
  | none => (.ok (), done s, l)
  | some .raised => (.error .osError, s, l)
  | some .torn => (.error .osError, halfway s, l)⟩

def Store.setSession (s : Store) (id : String) (c : Content SessionDocument) : Store :=
  { s with sessions := Function.update s.sessions id c }

/-- The whole document of a new session. -/
def Store.openSession (s : Store) (path : String) (session : OAuthSession)
    (codeVerifierHash createdAt : String) : Store :=
  let document : SessionDocument := { session, codeVerifierHash, createdAt, start := s.opened.length }
  { s.setSession path (.whole document) with opened := s.opened ++ [document] }

def Store.setEnvelope (s : Store) (provider : String) (c : Content Envelope) : Store :=
  { s with envelopes := Function.update s.envelopes provider c }

def Store.setStatus (s : Store) (provider : String) (c : Content TokenLifecycleStatus) : Store :=
  { s with statuses := Function.update s.statuses provider c }

/-- `secret_store.write` -/
def writeSecret (provider : String) (payload : Envelope) : Procedure Unit :=
  change (·.setEnvelope provider (.whole payload)) (·.setEnvelope provider .torn)

/-- `secret_store.delete` -/
def deleteSecret (provider : String) : Procedure Unit := change (·.setEnvelope provider .absent) id

/-- `json.loads(secret_store.read(token_ref))` -/
def readSecret (provider : String) : Procedure Envelope := .perform ⟨fun f s l =>
  match f.fault with
  | some _ => (.error .osError, s, l)
  | none =>
    match s.envelopes provider with
    | .whole payload => (.ok payload, s, l)
    | _ => (.error (.operation "token envelope is unavailable"), s, l)⟩

/-- `_write_token_metadata`: the file is emptied, and then written. -/
def writeTokenMetadata (provider : String) (metadata : TokenLifecycleStatus) : Procedure Unit := do
  change (·.setStatus provider .torn) (·.setStatus provider .torn)
  change (·.setStatus provider (.whole metadata)) id

/-- `_session_path` -/
def sessionPath (loc : Locale) (sessionId : String) : Except Failure String := do
  ensure (sessionId.toList.all (fun c => loc.isAlnum c || c = '-' || c = '_') = true ∧ sessionId ≠ "")
    (.operation "invalid oauth session id")
  return sessionId

/-- `_read_session` -/
def readSession (loc : Locale) (sessionId : String) : Procedure SessionDocument := do
  let path ← .done (sessionPath loc sessionId)
  .perform ⟨fun f s l =>
    match f.fault with
    | some _ => (.error .osError, s, l)
    | none =>
      match s.sessions path with
      | .absent => (.error (.operation "oauth session not found"), s, l)
      | .torn => (.error .valueError, s, l)
      | .whole document => (.ok document, s, l)⟩

/-- `_write_session`: the file is emptied, and then written. -/
def writeSession (loc : Locale) (session : OAuthSession) (verifier : String) : Procedure Unit := do
  let path ← .done (sessionPath loc session.sessionId)
  let created ← now
  let createdAt ← .done (formatTime loc created)
  change (·.setSession path .torn) (·.setSession path .torn)
  change (·.openSession path session (digest (utf8 verifier.toList)) createdAt) id

/-! ## The calls -/

def hourMicros : Int := 60 * minuteMicros

/-- `_format_time(datetime.now(UTC) + …)` -/
def timeAfter (loc : Locale) (delta : Int) : Procedure String := do
  let current ← now
  let later ← .done (fetch (current.add delta) .overflowError)
  .done (formatTime loc later)

/-- `_authorization_url` -/
def authorizationUrl (provider challenge : String) : String :=
  (if provider = "google" then "https://accounts.google.com/o/oauth2/v2/auth"
    else "https://slack.com/oauth/v2/authorize") ++
    "?response_type=code&code_challenge=" ++ challenge ++ "&code_challenge_method=S256&state=redacted"

def startOauthSession (loc : Locale) (config : Config) (provider : String) (apply : Bool) :
    Procedure OAuthSession := do
  .done (requireBrokerRuntime config)
  let provider ← .done (requireSupportedProvider loc provider)
  .done (requireBrokerConnector config provider)
  let verifier := String.ofList ((← tokenUrlsafe).toList.take 96)
  let challenge := digest (utf8 verifier.toList)
  let sessionId ← tokenUrlsafe
  let state ← tokenUrlsafe
  let nonce ← tokenUrlsafe
  let scopes ← .done (config.connectorScopes provider)
  let expiresAt ← timeAfter loc (10 * minuteMicros)
  let session : OAuthSession :=
    { sessionId, provider, state, nonce
      codeChallenge := challenge
      codeChallengeMethod := "S256"
      redirectUri := "http://127.0.0.1/oauth/maya/callback"
      authorizationUrl := authorizationUrl provider challenge
      scopes, expiresAt
      mutation := if apply then "stored_oauth_session" else "dry_run" }
  if apply then writeSession loc session verifier
  return session

/-- `_refresh_owner` -/
def refreshOwner (provider : String) : String := if provider = "google" then "local" else "broker_assisted"

/-- `_token_metadata_from_payload` -/
def tokenMetadataFromPayload (loc : Locale) (payload : Envelope) : TokenLifecycleStatus where
  provider := payload.provider
  state := .active
  refreshOwner := payload.refreshOwner
  scopes := loc.split payload.scope
  expiresAt := some payload.expiresAt
  rotationCount := payload.rotationCount
  revokedAt := none
  message := "token envelope active; raw values stored only in SecretStore"

/-- `params.get(key, [""])[0]` -/
def firstOf (params : List (String × List String)) (key : String) : String :=
  (((params.find? fun item => item.1 = key).map Prod.snd).getD [""]).headD ""

/-- What a call reports of the tokens. -/
structure BrokerOperationResult where
  operation : String
  provider : String
  mutation : String
  message : String
  token : TokenLifecycleStatus
  deriving DecidableEq, Repr

/-- `complete_oauth_session` writes the envelope of a completion. -/
def writeCompletion (provider : String) (payload : Envelope) (completion : Completion) : Procedure Unit :=
  .perform ⟨fun f s l =>
    match f.fault with
    | none =>
      (.ok (), { s.setEnvelope provider (.whole payload) with completed := s.completed ++ [completion] }, true)
    | some .raised => (.error .osError, s, l)
    | some .torn => (.error .osError, s.setEnvelope provider .torn, l)⟩

def completeOauthSession (loc : Locale) (config : Config) (provider sessionId callbackUrl : String)
    (apply : Bool) : Procedure BrokerOperationResult := do
  .done (requireBrokerRuntime config)
  let provider ← .done (requireSupportedProvider loc provider)
  .done (ensure (apply = true) (.operation "oauth completion requires --apply"))
  let document ← readSession loc sessionId
  .done (ensure (document.session.provider = provider) (.operation "oauth session provider mismatch"))
  let checkedAt ← now
  .done (requireFresh document.createdAt document.session.expiresAt checkedAt)
  let params ← .done (fetch (loc.parseQuery callbackUrl) .valueError)
  let state := firstOf params "state"
  let code := firstOf params "code"
  .done (ensure (state ≠ "" ∧ state = document.session.state) (.operation "oauth callback state mismatch"))
  .done (ensure (code ≠ "") (.operation "oauth callback code is required"))
  let accessToken ← tokenUrlsafe
  let refreshToken ← tokenUrlsafe
  let expiresAt ← timeAfter loc (12 * hourMicros)
  let payload : Envelope :=
    { provider, accessToken, refreshToken
      tokenType := "Bearer"
      scope := " ".intercalate document.session.scopes
      expiresAt
      refreshOwner := refreshOwner provider
      rotationCount := 0 }
  writeCompletion provider payload { document, checkedAt }
  let metadata := tokenMetadataFromPayload loc payload
  writeTokenMetadata provider metadata
  return { operation := "broker.oauth-complete", provider, mutation := "stored_token_envelope"
           message := "broker-assisted OAuth token envelope stored locally", token := metadata }

def refreshToken (loc : Locale) (config : Config) (provider : String) (apply : Bool) :
    Procedure BrokerOperationResult := do
  .done (requireBrokerRuntime config)
  let provider ← .done (requireSupportedProvider loc provider)
  .done (ensure (apply = true) (.operation "token refresh requires --apply"))
  let payload ← readSecret provider
  let accessToken ← tokenUrlsafe
  let expiresAt ← timeAfter loc (12 * hourMicros)
  let refreshToken ← if provider = "slack" then tokenUrlsafe else pure payload.refreshToken
  let payload := { payload with
    accessToken, expiresAt, refreshToken, rotationCount := payload.rotationCount + 1 }
  writeSecret provider payload
  let metadata := tokenMetadataFromPayload loc payload
  writeTokenMetadata provider metadata
  return { operation := "broker.token-refresh", provider, mutation := "rotated_token_envelope"
           message := "token envelope refreshed through broker lifecycle", token := metadata }

def revokeToken (loc : Locale) (config : Config) (provider : String) (apply : Bool) :
    Procedure BrokerOperationResult := do
  .done (requireBrokerRuntime config)
  let provider ← .done (requireSupportedProvider loc provider)
  .done (ensure (apply = true) (.operation "token revocation requires --apply"))
  deleteSecret provider
  let revokedAt ← timeAfter loc 0
  let metadata : TokenLifecycleStatus :=
    { provider
      state := .revoked
      refreshOwner := refreshOwner provider
      scopes := []
      expiresAt := none
      rotationCount := 0
      revokedAt := some revokedAt
      message := "local token envelope revoked; provider revocation is broker-mediated" }
  writeTokenMetadata provider metadata
  return { operation := "broker.token-revoke", provider, mutation := "deleted_token_envelope"
           message := "local token envelope deleted", token := metadata }

/-- `_validate_integration_name` -/
def validateIntegrationName (loc : Locale) (name : String) : Except Failure String := do
  let value := loc.strip name
  ensure (value ≠ "") (.operation "integration name is required")
  ensure (value.toList.all (fun c => c ≠ '/' ∧ c ≠ '\\') = true ∧ value ∉ [".", ".."])
    (.operation "integration name must be a configured name")
  return value

/-- `reset_integration_state`: the directory with the status file is removed. -/
def resetIntegrationState (loc : Locale) (config : Config) (name : String) (apply : Bool) : Procedure Unit := do
  .done config.validate
  let name ← .done (validateIntegrationName loc name)
  .done (ensure ((config.integrations name).isSome = true) (.operation "integration is not configured"))
  if apply then change (·.setStatus name .absent) (·.setStatus name .absent)

/-- `token_status` -/
def tokenStatus (s : Store) (provider : String) : Except Failure TokenLifecycleStatus :=
  match s.statuses provider with
  | .absent => .ok
      { provider
        state := .notConfigured
        refreshOwner := refreshOwner provider
        scopes := []
        expiresAt := none
        rotationCount := 0
        revokedAt := none
        message := "token metadata not configured" }
  | .torn => .error .valueError
  | .whole metadata => .ok { metadata with provider }

/-! ## The processes -/

inductive Task where
  | start (config : Config) (provider : String) (apply : Bool)
  | complete (config : Config) (provider sessionId callbackUrl : String) (apply : Bool)
  | refresh (config : Config) (provider : String) (apply : Bool)
  | revoke (config : Config) (provider : String) (apply : Bool)
  | reset (config : Config) (name : String) (apply : Bool)

def Task.call (loc : Locale) : Task → Procedure Unit
  | .start config provider apply => do let _ ← startOauthSession loc config provider apply
  | .complete config provider sessionId callbackUrl apply => do
    let _ ← completeOauthSession loc config provider sessionId callbackUrl apply
  | .refresh config provider apply => do let _ ← refreshToken loc config provider apply
  | .revoke config provider apply => do let _ ← revokeToken loc config provider apply
  | .reset config name apply => resetIntegrationState loc config name apply

/-- The processes on one data directory. -/
def processes (loc : Locale) : System Choice Store Stored Failure Task Unit where
  prog := Task.call loc
  enter _ := false
  die s _ := (s, false)

namespace Sample

def config : Config where
  mode := .runtime
  endpoint := "https://broker"
  edition := .standard
  integrations _ := some { enabled := true, credentialMode := .broker }
  connectorScopes _ := .ok ["chat"]
  validate := .ok ()

/-- Nothing fails, and every text that is drawn is the same. -/
theorem noon_lt : 63902865600000000 < Calendar.maxOrdinal * dayMicros := by decide

theorem utc_lt : ∀ o ∈ some (0 : Int), o.natAbs < dayMicros := by
  rintro o ⟨⟩
  decide

def choice : Choice where
  now := { wall := 63902865600000000, offset := some 0, wall_lt := noon_lt, offset_lt := utc_lt }
  token := "drawn"

end Sample

end ProjectMaya.Broker
