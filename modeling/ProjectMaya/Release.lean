import ProjectMaya.Signing

/-! # Release manifests

`ReleaseManifest`, `UpdateManifest` and `RollbackManifest`, as mappings and back, and their
verification.  A mapping that is read may hold any object; what Python's conversions do with one
that is not of the type they are asked for is left open (`Objects`). -/

namespace ProjectMaya.Release

open Logic

/-- A Python object as the code sees it; `O` are the objects of other types. -/
inductive Value (O : Type) where
  | none
  | bool (b : Bool)
  | int (n : Int)
  | str (s : String)
  | list (items : List (Value O))
  | mapping (items : List (String × Value O))
  | object (o : O)

/-- Conversions of other objects; `none` where they raise. -/
class Objects (O : Type) where
  repr : Value O → Option String
  intOfStr : String → Option Int
  int : O → Option Int
  bool : O → Option Bool
  iter : O → Option (List (Value O))

inductive Failure where
  | keyError (key : String)
  | typeError
  | valueError
  | attributeError
  /-- `ReleaseMetadataError` -/
  | metadata (message : String)
  /-- `ReleaseSignatureError` -/
  | signature (message : String)
  deriving DecidableEq, Repr

namespace Value

variable {O : Type}

def orRaise {α : Type} (e : Failure) : Option α → Except Failure α
  | some a => .ok a
  | .none => .error e

def lookup (key : String) (items : List (String × Value O)) : Option (Value O) :=
  (items.find? fun item => item.1 = key).map Prod.snd

/-- `data[key]` -/
def item (data : Value O) (key : String) : Except Failure (Value O) :=
  match data with
  | .mapping items => orRaise (.keyError key) (lookup key items)
  | _ => .error .typeError

/-- `data.get(key, default)` -/
def get (data : Value O) (key : String) (default : Value O) : Except Failure (Value O) :=
  match data with
  | .mapping items => .ok ((lookup key items).getD default)
  | _ => .error .attributeError

variable [Objects O]

/-- `str(value)` -/
def toStr : Value O → Except Failure String
  | .none => .ok "None"
  | .bool b => .ok (if b then "True" else "False")
  | .int n => .ok (String.ofList (Json.decimal n))
  | .str s => .ok s
  | value => orRaise .valueError (Objects.repr value)

/-- `int(value)` -/
def toInt : Value O → Except Failure Int
  | .bool b => .ok (if b then 1 else 0)
  | .int n => .ok n
  | .str s => orRaise .valueError (Objects.intOfStr (O := O) s)
  | .object o => orRaise .typeError (Objects.int o)
  | _ => .error .typeError

/-- `bool(value)` -/
def toBool : Value O → Except Failure Bool
  | .none => .ok false
  | .bool b => .ok b
  | .int n => .ok (n ≠ 0)
  | .str s => .ok (s ≠ "")
  | .list items => .ok !items.isEmpty
  | .mapping items => .ok !items.isEmpty
  | .object o => orRaise .typeError (Objects.bool o)

/-- The items of `for item in value`. -/
def toItems : Value O → Except Failure (List (Value O))
  | .str s => .ok (s.toList.map fun c => .str (String.singleton c))
  | .list items => .ok items
  | .mapping items => .ok (items.map fun item => .str item.1)
  | .object o => orRaise .typeError (Objects.iter o)
  | _ => .error .typeError

/-- `_string_or_none` -/
def toStrOrNone : Value O → Except Failure (Option String)
  | .none => .ok .none
  | value => some <$> value.toStr

mutual

/-- What `json.loads` makes of a value's text. -/
def ofJson : Json → Value O
  | .null => .none
  | .bool b => .bool b
  | .num n => .int n
  | .str s => .str s
  | .arr items => .list (ofItems items)
  | .obj fields => .mapping (ofFields fields)

def ofItems : List Json → List (Value O)
  | [] => []
  | v :: rest => ofJson v :: ofItems rest

def ofFields : List (String × Json) → List (String × Value O)
  | [] => []
  | (k, v) :: rest => (k, ofJson v) :: ofFields rest

end

end Value

/-- `PHASE6_METADATA_VERSION` -/
def phase6MetadataVersion : Int := 1

/-- `SUPPORTED_RELEASE_PLATFORMS` -/
def supportedReleasePlatforms : List String := ["windows-desktop"]

def nonProductionTestKeyId : String := "phase6-test-key"

/-- `_NON_PRODUCTION_TEST_PRIVATE_BYTES` -/
def nonProductionTestPrivateBytes : Bytes := (List.range 32).map fun i => UInt8.ofNat (i + 1)

/-! ## Records -/

structure SignatureEnvelope where
  algorithm : String
  keyId : String
  signature : String
  deriving DecidableEq, Repr

structure ReleaseArtifact where
  name : String
  path : String
  sha256 : String
  sizeBytes : Int
  kind : String
  deriving DecidableEq, Repr

structure ReleaseProvenance where
  source : String
  commit : String
  builder : String
  hermesRuntimeCommit : String
  sourceTreeClean : Bool := true
  deriving DecidableEq, Repr

structure PlatformQualification where
  platform : String
  advertised : Bool
  status : String
  evidence : List String
  boundary : String
  deriving DecidableEq, Repr

structure OfflineEnterpriseBundle where
  included : Bool
  path : Option String
  sha256 : Option String
  deriving DecidableEq, Repr

structure ReleaseManifest where
  metadataVersion : Int
  product : String
  version : String
  platform : String
  artifacts : List ReleaseArtifact
  sbomRef : String
  provenanceRef : String
  provenance : ReleaseProvenance
  platformQualification : PlatformQualification
  offlineEnterpriseBundle : OfflineEnterpriseBundle
  signature : Option SignatureEnvelope := none
  deriving DecidableEq, Repr

structure UpdateManifest where
  metadataVersion : Int
  currentVersion : String
  availableVersion : String
  platform : String
  artifact : ReleaseArtifact
  sbomRef : String
  provenanceRef : String
  migrationCompatibility : String
  rollbackRef : String
  releaseManifestRef : String
  signature : Option SignatureEnvelope := none
  deriving DecidableEq, Repr

structure RollbackManifest where
  metadataVersion : Int
  currentVersion : String
  rollbackVersion : String
  platform : String
  artifact : ReleaseArtifact
  sbomRef : String
  provenanceRef : String
  migrationCompatibility : String
  releaseManifestRef : String
  signature : Option SignatureEnvelope := none
  deriving DecidableEq, Repr

/-! ## To mappings -/

def SignatureEnvelope.toMapping (e : SignatureEnvelope) : List (String × Json) :=
  [("algorithm", .str e.algorithm), ("key_id", .str e.keyId), ("signature", .str e.signature)]

def ReleaseArtifact.toMapping (a : ReleaseArtifact) : List (String × Json) :=
  [("name", .str a.name), ("path", .str a.path), ("sha256", .str a.sha256),
    ("size_bytes", .num a.sizeBytes), ("kind", .str a.kind)]

def ReleaseProvenance.toMapping (p : ReleaseProvenance) : List (String × Json) :=
  [("source", .str p.source), ("commit", .str p.commit), ("builder", .str p.builder),
    ("hermes_runtime_commit", .str p.hermesRuntimeCommit),
    ("source_tree_clean", .bool p.sourceTreeClean)]

def PlatformQualification.toMapping (q : PlatformQualification) : List (String × Json) :=
  [("platform", .str q.platform), ("advertised", .bool q.advertised), ("status", .str q.status),
    ("evidence", .arr (q.evidence.map .str)), ("boundary", .str q.boundary)]

def strOrNull : Option String → Json
  | none => .null
  | some s => .str s

def OfflineEnterpriseBundle.toMapping (b : OfflineEnterpriseBundle) : List (String × Json) :=
  [("included", .bool b.included), ("path", strOrNull b.path), ("sha256", strOrNull b.sha256)]

/-- `if include_signature and self.signature is not None: data["signature"] = …` -/
def withSignature (data : List (String × Json)) (includeSignature : Bool)
    (signature : Option SignatureEnvelope) : List (String × Json) :=
  match signature with
  | some e => if includeSignature then data ++ [("signature", .obj e.toMapping)] else data
  | none => data

@[simp] theorem withSignature_false (data : List (String × Json)) (signature : Option SignatureEnvelope) :
    withSignature data false signature = data := by
  cases signature <;> rfl

/-- The fields but the signature. -/
def ReleaseManifest.fields (m : ReleaseManifest) : List (String × Json) :=
  [("metadata_version", .num m.metadataVersion), ("product", .str m.product),
    ("version", .str m.version), ("platform", .str m.platform),
    ("artifacts", .arr (m.artifacts.map fun a => .obj a.toMapping)),
    ("sbom_ref", .str m.sbomRef), ("provenance_ref", .str m.provenanceRef),
    ("provenance", .obj m.provenance.toMapping),
    ("platform_qualification", .obj m.platformQualification.toMapping),
    ("offline_enterprise_bundle", .obj m.offlineEnterpriseBundle.toMapping)]

def ReleaseManifest.toMapping (m : ReleaseManifest) (includeSignature : Bool := true) :
    List (String × Json) := withSignature m.fields includeSignature m.signature

/-- The fields but the signature. -/
def UpdateManifest.fields (m : UpdateManifest) : List (String × Json) :=
  [("metadata_version", .num m.metadataVersion), ("current_version", .str m.currentVersion),
    ("available_version", .str m.availableVersion), ("platform", .str m.platform),
    ("artifact", .obj m.artifact.toMapping), ("sbom_ref", .str m.sbomRef),
    ("provenance_ref", .str m.provenanceRef),
    ("migration_compatibility", .str m.migrationCompatibility),
    ("rollback_ref", .str m.rollbackRef), ("release_manifest_ref", .str m.releaseManifestRef)]

def UpdateManifest.toMapping (m : UpdateManifest) (includeSignature : Bool := true) :
    List (String × Json) := withSignature m.fields includeSignature m.signature

/-- The fields but the signature. -/
def RollbackManifest.fields (m : RollbackManifest) : List (String × Json) :=
  [("metadata_version", .num m.metadataVersion), ("current_version", .str m.currentVersion),
    ("rollback_version", .str m.rollbackVersion), ("platform", .str m.platform),
    ("artifact", .obj m.artifact.toMapping), ("sbom_ref", .str m.sbomRef),
    ("provenance_ref", .str m.provenanceRef),
    ("migration_compatibility", .str m.migrationCompatibility),
    ("release_manifest_ref", .str m.releaseManifestRef)]

def RollbackManifest.toMapping (m : RollbackManifest) (includeSignature : Bool := true) :
    List (String × Json) := withSignature m.fields includeSignature m.signature

/-! ## From mappings -/

section

variable {O : Type} [Objects O]

def SignatureEnvelope.fromMapping (data : Value O) : Except Failure SignatureEnvelope :=
  let envelope : Except Failure SignatureEnvelope := do
    let algorithm ← (← data.item "algorithm").toStr
    let keyId ← (← data.item "key_id").toStr
    let signature ← (← data.item "signature").toStr
    return { algorithm, keyId, signature }
  envelope.mapError fun
    | .keyError _ => .signature "signature envelope is incomplete"
    | e => e

def ReleaseArtifact.fromMapping (data : Value O) : Except Failure ReleaseArtifact := do
  let name ← (← data.item "name").toStr
  let path ← (← data.item "path").toStr
  let sha256 ← (← data.item "sha256").toStr
  let sizeBytes ← (← data.item "size_bytes").toInt
  let kind ← (← data.item "kind").toStr
  return { name, path, sha256, sizeBytes, kind }

def ReleaseProvenance.fromMapping (data : Value O) : Except Failure ReleaseProvenance := do
  let source ← (← data.item "source").toStr
  let commit ← (← data.item "commit").toStr
  let builder ← (← data.item "builder").toStr
  let hermesRuntimeCommit ← (← data.item "hermes_runtime_commit").toStr
  let sourceTreeClean ← (← data.get "source_tree_clean" (.bool true)).toBool
  return { source, commit, builder, hermesRuntimeCommit, sourceTreeClean }

def PlatformQualification.fromMapping (data : Value O) : Except Failure PlatformQualification := do
  let platform ← (← data.item "platform").toStr
  let advertised ← (← data.item "advertised").toBool
  let status ← (← data.item "status").toStr
  let evidence ← (← (← data.get "evidence" (.list [])).toItems).mapM Value.toStr
  let boundary ← (← data.get "boundary" (.str "")).toStr
  return { platform, advertised, status, evidence, boundary }

def OfflineEnterpriseBundle.fromMapping (data : Value O) : Except Failure OfflineEnterpriseBundle :=
  match data with
  | .none => .ok { included := false, path := none, sha256 := none }
  | data => do
    let included ← (← data.get "included" (.bool false)).toBool
    let path ← (← data.get "path" .none).toStrOrNone
    let sha256 ← (← data.get "sha256" .none).toStrOrNone
    return { included, path, sha256 }

/-- `SignatureEnvelope.from_mapping(signature) if isinstance(signature, Mapping) else None` -/
def signatureFrom : Value O → Except Failure (Option SignatureEnvelope)
  | .mapping items => some <$> SignatureEnvelope.fromMapping (.mapping items)
  | _ => .ok none

def ReleaseManifest.fromMapping (data : Value O) : Except Failure ReleaseManifest := do
  let signature ← data.get "signature" .none
  let metadataVersion ← (← data.item "metadata_version").toInt
  let product ← (← data.item "product").toStr
  let version ← (← data.item "version").toStr
  let platform ← (← data.item "platform").toStr
  let artifacts ← (← (← data.get "artifacts" (.list [])).toItems).mapM ReleaseArtifact.fromMapping
  let sbomRef ← (← data.item "sbom_ref").toStr
  let provenanceRef ← (← data.item "provenance_ref").toStr
  let provenance ← ReleaseProvenance.fromMapping (← data.item "provenance")
  let platformQualification ← PlatformQualification.fromMapping (← data.item "platform_qualification")
  let offlineEnterpriseBundle ←
    OfflineEnterpriseBundle.fromMapping (← data.get "offline_enterprise_bundle" .none)
  let signature ← signatureFrom signature
  return { metadataVersion, product, version, platform, artifacts, sbomRef, provenanceRef, provenance
           platformQualification, offlineEnterpriseBundle, signature }

def UpdateManifest.fromMapping (data : Value O) : Except Failure UpdateManifest := do
  let signature ← data.get "signature" .none
  let metadataVersion ← (← data.item "metadata_version").toInt
  let currentVersion ← (← data.item "current_version").toStr
  let availableVersion ← (← data.item "available_version").toStr
  let platform ← (← data.item "platform").toStr
  let artifact ← ReleaseArtifact.fromMapping (← data.item "artifact")
  let sbomRef ← (← data.item "sbom_ref").toStr
  let provenanceRef ← (← data.item "provenance_ref").toStr
  let migrationCompatibility ← (← data.item "migration_compatibility").toStr
  let rollbackRef ← (← data.item "rollback_ref").toStr
  let releaseManifestRef ← (← data.item "release_manifest_ref").toStr
  let signature ← signatureFrom signature
  return { metadataVersion, currentVersion, availableVersion, platform, artifact, sbomRef
           provenanceRef, migrationCompatibility, rollbackRef, releaseManifestRef, signature }

def RollbackManifest.fromMapping (data : Value O) : Except Failure RollbackManifest := do
  let signature ← data.get "signature" .none
  let metadataVersion ← (← data.item "metadata_version").toInt
  let currentVersion ← (← data.item "current_version").toStr
  let rollbackVersion ← (← data.item "rollback_version").toStr
  let platform ← (← data.item "platform").toStr
  let artifact ← ReleaseArtifact.fromMapping (← data.item "artifact")
  let sbomRef ← (← data.item "sbom_ref").toStr
  let provenanceRef ← (← data.item "provenance_ref").toStr
  let migrationCompatibility ← (← data.item "migration_compatibility").toStr
  let releaseManifestRef ← (← data.item "release_manifest_ref").toStr
  let signature ← signatureFrom signature
  return { metadataVersion, currentVersion, rollbackVersion, platform, artifact, sbomRef
           provenanceRef, migrationCompatibility, releaseManifestRef, signature }

end

/-! ## Verification -/

def raiseIf (c : Prop) [Decidable c] (e : Failure) : Except Failure Unit := if c then .error e else .ok ()

/-- `_verify_common_manifest` -/
def verifyCommonManifest (metadataVersion : Int) (platform : String) (expectedPlatform : Option String) :
    Except Failure Unit := do
  raiseIf (metadataVersion ≠ phase6MetadataVersion) (.metadata "unsupported release metadata version")
  raiseIf (platform ∉ supportedReleasePlatforms) (.metadata "release platform is not advertised")
  match expectedPlatform with
  | some expected => raiseIf (platform ≠ expected) (.metadata "release platform does not match request")
  | none => .ok ()

/-- `_require_update_refs` -/
def requireUpdateRefs (values : List String) : Except Failure Unit :=
  raiseIf (values.any (· = ""))
    (.metadata "update metadata must include sbom, provenance, release, and rollback refs")

section

variable (sch : SignatureScheme)

/-- A public key: as text, as bytes, or the key itself. -/
inductive KeyValue where
  | str (s : String)
  | bytes (raw : Bytes)
  | key (k : sch.PublicKey)

abbrev PublicKeys := List (String × KeyValue sch)

variable {sch}

/-- `keys.get(key_id)` -/
def PublicKeys.get (keys : PublicKeys sch) (keyId : String) : Option (KeyValue sch) :=
  (keys.find? fun item => item.1 = keyId).map Prod.snd

/-- `_public_key_from_value` -/
def publicKeyFromValue : KeyValue sch → Except Failure sch.PublicKey
  | .key k => .ok k
  | .str s => do
    let raw ← Value.orRaise .valueError (b64decode s)
    Value.orRaise .valueError (sch.fromPublicBytes raw)
  | .bytes raw => Value.orRaise .valueError (sch.fromPublicBytes raw)

variable (sch) in
/-- `default_release_public_keys` -/
def defaultReleasePublicKeys : Except Failure (PublicKeys sch) := do
  let testKey ← Value.orRaise .valueError (sch.fromPrivateBytes nonProductionTestPrivateBytes)
  return [(nonProductionTestKeyId, .str (b64encode (sch.publicBytes (sch.publicKey testKey))))]

/-- `public_keys or default_release_public_keys()` -/
def trustedKeys : Option (PublicKeys sch) → Except Failure (PublicKeys sch)
  | some (key :: keys) => .ok (key :: keys)
  | _ => defaultReleasePublicKeys sch

/-- `_verify_signature` -/
def verifySignature (payload : List (String × Json)) (signature : Option SignatureEnvelope)
    (publicKeys : Option (PublicKeys sch)) : Except Failure Unit :=
  match signature with
  | none => .error (.signature "release metadata is unsigned")
  | some signature => do
    raiseIf (signature.algorithm ≠ "ed25519") (.signature "unsupported release signature algorithm")
    let keys ← trustedKeys publicKeys
    match keys.get signature.keyId with
    | none => .error (.signature "release signature key is not trusted")
    | some publicKey => do
      let verifier ← publicKeyFromValue publicKey
      match b64decode signature.signature with
      | some raw =>
        raiseIf (!sch.verify verifier raw (canonicalJsonBytes payload))
          (.signature "release signature verification failed")
      | none => .error (.signature "release signature verification failed")

section

variable {O : Type} [Objects O]

def verifyReleaseManifest (data : List (String × Value O)) (publicKeys : Option (PublicKeys sch))
    (expectedPlatform : Option String) : Except Failure ReleaseManifest := do
  let manifest ← ReleaseManifest.fromMapping (.mapping data)
  verifyCommonManifest manifest.metadataVersion manifest.platform expectedPlatform
  raiseIf (manifest.artifacts = []) (.metadata "release manifest must list at least one artifact")
  raiseIf (manifest.sbomRef = "") (.metadata "release manifest must include sbom_ref")
  raiseIf (manifest.provenanceRef = "") (.metadata "release manifest must include provenance_ref")
  verifySignature (manifest.toMapping false) manifest.signature publicKeys
  return manifest

def verifyUpdateManifest (data : List (String × Value O)) (publicKeys : Option (PublicKeys sch))
    (expectedPlatform : Option String) : Except Failure UpdateManifest := do
  let manifest ← UpdateManifest.fromMapping (.mapping data)
  verifyCommonManifest manifest.metadataVersion manifest.platform expectedPlatform
  requireUpdateRefs
    [manifest.sbomRef, manifest.provenanceRef, manifest.rollbackRef, manifest.releaseManifestRef]
  verifySignature (manifest.toMapping false) manifest.signature publicKeys
  return manifest

def verifyRollbackManifest (data : List (String × Value O)) (publicKeys : Option (PublicKeys sch))
    (expectedPlatform : Option String) : Except Failure RollbackManifest := do
  let manifest ← RollbackManifest.fromMapping (.mapping data)
  verifyCommonManifest manifest.metadataVersion manifest.platform expectedPlatform
  requireUpdateRefs [manifest.sbomRef, manifest.provenanceRef, manifest.releaseManifestRef]
  verifySignature (manifest.toMapping false) manifest.signature publicKeys
  return manifest

end

/-- `sign_mapping_for_release` -/
def signMappingForRelease (payload : List (String × Json)) (privateKey : sch.PrivateKey)
    (keyId : String) : List (String × Json) :=
  let data := payload.filter fun item => item.1 ≠ "signature"
  let signature := sch.sign privateKey (canonicalJsonBytes data)
  data ++ [("signature", .obj
    { algorithm := "ed25519", keyId, signature := b64encode signature : SignatureEnvelope }.toMapping)]

end

end ProjectMaya.Release
