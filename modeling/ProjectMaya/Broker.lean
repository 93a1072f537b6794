import ProjectMaya.Logic.Check
import ProjectMaya.Logic.DateTime
import ProjectMaya.Logic.Sha256
import ProjectMaya.Signing

/-! # Broker messages

The requests that an instance signs for the broker and the responses that the broker signs.  A
verifier checks a request, and then remembers its nonce. -/

namespace ProjectMaya.Broker

open Logic

/-- `BROKER_PROTOCOL_VERSION` -/
def brokerProtocolVersion : String := "maya-broker-v1"

inductive Failure where
  /-- `BrokerProtocolError` -/
  | protocol (message : String)
  /-- `BrokerOperationError` -/
  | operation (message : String)
  /-- `SecretStoreError` -/
  | secretStore
  | valueError
  | typeError
  | keyError
  | overflowError
  | osError
  deriving DecidableEq, Repr

structure SignedBrokerRequest where
  protocolVersion : String
  instanceId : String
  keyId : String
  method : String
  path : String
  bodyHash : String
  nonce : String
  issuedAt : String
  expiresAt : String
  signature : String
  deriving DecidableEq, Repr

/-- What `_canonical_json` is applied to in `SignedBrokerRequest.signing_payload`. -/
def SignedBrokerRequest.fields (r : SignedBrokerRequest) : List (String × Json) :=
  [("protocol_version", .str r.protocolVersion), ("instance_id", .str r.instanceId),
    ("key_id", .str r.keyId), ("method", .str r.method), ("path", .str r.path),
    ("body_hash", .str r.bodyHash), ("nonce", .str r.nonce), ("issued_at", .str r.issuedAt),
    ("expires_at", .str r.expiresAt)]

def SignedBrokerRequest.signingPayload (r : SignedBrokerRequest) : Bytes := canonicalJsonBytes r.fields

structure SignedBrokerResponse where
  protocolVersion : String
  brokerKeyId : String
  requestNonce : String
  bodyHash : String
  issuedAt : String
  expiresAt : String
  signature : String
  deriving DecidableEq, Repr

/-- What `_canonical_json` is applied to in `SignedBrokerResponse.signing_payload`. -/
def SignedBrokerResponse.fields (r : SignedBrokerResponse) : List (String × Json) :=
  [("protocol_version", .str r.protocolVersion), ("broker_key_id", .str r.brokerKeyId),
    ("request_nonce", .str r.requestNonce), ("body_hash", .str r.bodyHash),
    ("issued_at", .str r.issuedAt), ("expires_at", .str r.expiresAt)]

def SignedBrokerResponse.signingPayload (r : SignedBrokerResponse) : Bytes := canonicalJsonBytes r.fields

/-! ## Checks -/

/-- `_digest` -/
def digest (value : Bytes) : String := b64encode (Sha256.digest value)

/-- `_hash_body` -/
def hashBody (body : List (String × Json)) : String := digest (canonicalJsonBytes body)

/-- `_require_protocol` -/
def requireProtocol (version : String) : Except Failure Unit :=
  ensure (version = brokerProtocolVersion) (.protocol "unsupported broker protocol version")

/-- `_require_hash` -/
def requireHash (expected : String) (body : List (String × Json)) : Except Failure Unit :=
  ensure (expected = hashBody body) (.protocol "broker message body hash mismatch")

def minuteMicros : Int := 60000000

/-- `datetime.fromisoformat` -/
def parseTime (text : String) : Except Failure DateTime :=
  fetch (DateTime.fromisoformat text.toList) .valueError

/-- `_require_fresh` -/
def requireFresh (issuedAt expiresAt : String) (now : DateTime) : Except Failure Unit := do
  let issued ← parseTime issuedAt
  let expires ← parseTime expiresAt
  let limit ← fetch (now.add minuteMicros) .overflowError
  let future ← fetch (limit.lt issued) .typeError
  ensure (future = false) (.protocol "broker message issued_at is in the future")
  let expired ← fetch (expires.le now) .typeError
  ensure (expired = false) (.protocol "broker message expired")

section

variable {sch : SignatureScheme}

/-- `_load_private_key` -/
def loadPrivateKey (value : String) : Except Failure sch.PrivateKey := do
  let raw ← fetch (b64decode value) .valueError
  fetch (sch.fromPrivateBytes raw) .valueError

/-- `_load_public_key` -/
def loadPublicKey (value : String) : Except Failure sch.PublicKey := do
  let raw ← fetch (b64decode value) .valueError
  fetch (sch.fromPublicBytes raw) .valueError

end

/-! ## Requests -/

structure BrokerInstanceIdentity where
  instanceId : String
  keyId : String
  deriving DecidableEq, Repr

/-- What the code uses of Python's texts, and how far the local time is from UTC. -/
structure Locale where
  upper : String → String
  lower : String → String
  strip : String → String
  split : String → List String
  isAlnum : Char → Bool
  /-- `parse_qs(urlparse(url).query)`, unless it raises `ValueError` -/
  parseQuery : String → Option (List (String × List String))
  zone : Nat → Int

/-- `_format_time` -/
def formatTime (loc : Locale) (value : DateTime) : Except Failure String := do
  let utc ← fetch (value.astimezoneUtc loc.zone) .overflowError
  return String.ofList utc.isoformat

/-- `sign_broker_request`, with the nonce that was drawn. -/
def signBrokerRequest (sch : SignatureScheme) (loc : Locale) (identity : BrokerInstanceIdentity)
    (privateKey method path : String) (body : List (String × Json)) (ttlSeconds : Int) (issued : DateTime)
    (nonce : String) : Except Failure SignedBrokerRequest := do
  let issuedAt ← formatTime loc issued
  let expires ← fetch (issued.add (ttlSeconds * 1000000)) .overflowError
  let expiresAt ← formatTime loc expires
  let request : SignedBrokerRequest :=
    { protocolVersion := brokerProtocolVersion
      instanceId := identity.instanceId
      keyId := identity.keyId
      method := loc.upper method
      path
      bodyHash := hashBody body
      nonce
      issuedAt
      expiresAt
      signature := "" }
  let key : sch.PrivateKey ← loadPrivateKey privateKey
  return { request with signature := b64encode (sch.sign key request.signingPayload) }

/-- The nonces that were seen. -/
structure ReplayCache where
  seen : List String := []
  deriving DecidableEq, Repr

/-- An exception leaves behind what was done before it. -/
abbrev Cached := EStateM Failure ReplayCache

def raising {α : Type} : Except Failure α → Cached α
  | .ok a => pure a
  | .error e => throw e

def ReplayCache.remember (nonce : String) : Cached Unit := fun cache =>
  if nonce ∈ cache.seen then .error (.protocol "broker request nonce was replayed") cache
  else .ok () { cache with seen := nonce :: cache.seen }

/-- `verify_broker_request` with a replay cache. -/
def verifyBrokerRequest (sch : SignatureScheme) (request : SignedBrokerRequest) (publicKey : String)
    (body : List (String × Json)) (now : DateTime) : Cached Unit := do
  raising (requireProtocol request.protocolVersion)
  raising (requireHash request.bodyHash body)
  raising (requireFresh request.issuedAt request.expiresAt now)
  let key : sch.PublicKey ← raising (loadPublicKey publicKey)
  let signature ← raising (fetch (b64decode request.signature) .valueError)
  raising (ensure (sch.verify key signature request.signingPayload = true)
    (.protocol "broker request signature is invalid"))
  ReplayCache.remember request.nonce

/-- Texts without surprises, and every callback brings the same query. -/
def Sample.loc : Locale where
  upper := String.toUpper
  lower := String.toLower
  strip := id
  split text := [text]
  isAlnum := Char.isAlphanum
  parseQuery _ := some [("state", ["drawn"]), ("code", ["code"])]
  zone _ := 0

end ProjectMaya.Broker
