import ProjectMaya.JsonFile
import ProjectMaya.Logic.PosixPath

/-! # Update metadata

`check_updates` and `rollback_update` read a signed manifest under the data directory and report
what it says.  What the manifest's decoding raises is handled as far as it is a
`ReleaseSignatureError` or a `ReleaseMetadataError`. -/

namespace ProjectMaya.Update

open Logic Release

inductive Failure where
  /-- `UpdateError` -/
  | update (message : String)
  /-- `ConfigError` -/
  | config (message : String)
  | read (e : ReadError)
  | release (e : Release.Failure)
  deriving DecidableEq, Repr

structure UpdateStatus where
  operation : String
  supported : Bool
  status : String
  metadataPath : PurePath
  currentVersion : Option String := none
  availableVersion : Option String := none
  rollbackVersion : Option String := none
  signedManifest : Bool := false
  platform : Option String := none
  sbomRef : Option String := none
  provenanceRef : Option String := none
  artifactSha256 : Option String := none
  migrationCompatibility : Option String := none
  releaseManifestRef : Option String := none
  networkUsed : Bool := false
  mutation : Bool := false
  actionRequired : Option String := none
  deriving DecidableEq, Repr

/-- What the inspection reads of the configuration. -/
structure Config where
  /-- The message of the `ConfigError` that `validate` raises. -/
  invalid : Option String
  dataDir : PurePath

/-- What it reads of the host. -/
structure Host (O : Type) where
  entry : PurePath → Entry
  loads : Loads O
  /-- `current_platform_id()` -/
  platform : String

section

variable {O : Type}

/-- `_updates_dir(config) / name` -/
def updatesFile (config : Config) (name : String) : PurePath :=
  { config.dataDir with parts := config.dataDir.parts ++ ["updates", name] }

/-- The members of a JSON object. -/
def members : Value O → Except Failure (List (String × Value O))
  | .mapping data => .ok data
  | _ => .error (.update "update metadata must be a JSON object")

/-- `_read_json_object` -/
def readJsonObject (loads : Loads O) (entry : Entry) : Except Failure (List (String × Value O)) := do
  ensure (entry.isFile = true) (.update "update metadata path is not a file")
  let value ← (readJson loads entry).mapError fun e =>
    if e.isUnreadable then .update "update metadata is unreadable" else .read e
  members value

/-- The texts of an operation. -/
structure Operation where
  name : String
  file : String
  unavailable : String
  untrusted : String
  incomplete : String

/-- The status when nothing was verified. -/
def Operation.rejected (o : Operation) (path : PurePath) (status actionRequired : String) :
    UpdateStatus where
  operation := o.name
  supported := false
  status := status
  metadataPath := path
  actionRequired := some actionRequired

/-- What both operations do, with what is verified and reported of the manifest. -/
def inspect (host : Host O) (config : Config) (o : Operation)
    (verify : List (String × Value O) → Except Release.Failure (PurePath → UpdateStatus)) :
    Except Failure UpdateStatus :=
  let path := updatesFile config o.file
  match config.invalid with
  | some message => .error (.config message)
  | none =>
    if !(host.entry path).present then .ok (o.rejected path "unavailable" o.unavailable)
    else do
      let manifest ← readJsonObject host.loads (host.entry path)
      match verify manifest with
      | .ok status => .ok (status path)
      | .error (.signature _) => .ok (o.rejected path "signature_rejected" o.untrusted)
      | .error (.metadata _) => .ok (o.rejected path "metadata_rejected" o.incomplete)
      | .error e => .error (.release e)

def checkOperation : Operation where
  name := "check"
  file := "update-manifest.json"
  unavailable := "signed update manifest is not configured"
  untrusted := "provide trusted signed update metadata"
  incomplete := "provide complete Phase 6 update metadata"

def rollbackOperation : Operation where
  name := "rollback"
  file := "rollback.json"
  unavailable := "rollback metadata is not available"
  untrusted := "provide trusted signed rollback metadata"
  incomplete := "provide complete Phase 6 rollback metadata"

/-- The status of a verified update manifest. -/
def updateStatus (verified : UpdateManifest) (path : PurePath) : UpdateStatus where
  operation := "check"
  supported := true
  status := "available"
  metadataPath := path
  currentVersion := some verified.currentVersion
  availableVersion := some verified.availableVersion
  signedManifest := true
  platform := some verified.platform
  sbomRef := some verified.sbomRef
  provenanceRef := some verified.provenanceRef
  artifactSha256 := some verified.artifact.sha256
  migrationCompatibility := some verified.migrationCompatibility
  releaseManifestRef := some verified.releaseManifestRef

/-- The status of a verified rollback manifest. -/
def rollbackStatus (verified : RollbackManifest) (path : PurePath) : UpdateStatus where
  operation := "rollback"
  supported := true
  status := "ready"
  metadataPath := path
  currentVersion := some verified.currentVersion
  rollbackVersion := some verified.rollbackVersion
  signedManifest := true
  platform := some verified.platform
  sbomRef := some verified.sbomRef
  provenanceRef := some verified.provenanceRef
  artifactSha256 := some verified.artifact.sha256
  migrationCompatibility := some verified.migrationCompatibility
  releaseManifestRef := some verified.releaseManifestRef

variable [Objects O] (sch : SignatureScheme) (host : Host O) (config : Config)

def checkUpdates : Except Failure UpdateStatus :=
  inspect host config checkOperation fun manifest =>
    updateStatus <$> verifyUpdateManifest manifest (none : Option (PublicKeys sch)) (some host.platform)

def rollbackUpdate : Except Failure UpdateStatus :=
  inspect host config rollbackOperation fun manifest =>
    rollbackStatus <$> verifyRollbackManifest manifest (none : Option (PublicKeys sch)) (some host.platform)

end

end ProjectMaya.Update
