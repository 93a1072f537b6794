import ProjectMaya.Broker
import ProjectMaya.Release

/-! # What a signature stands for

Five kinds of record are signed over their canonical bytes.  The bytes determine the kind and
every field but the signature. -/

namespace ProjectMaya

open Logic Logic.Json

/-! ## Records from their fields -/

namespace Release

theorem ReleaseArtifact.toMapping_inj {a b : ReleaseArtifact}
    (h : sorted (.obj a.toMapping) = sorted (.obj b.toMapping)) : a = b := by
  have hk : (a.toMapping.map Prod.fst).Nodup := by
    show ["name", "path", "sha256", "size_bytes", "kind"].Nodup
    decide
  have hname := Json.str.inj (value_of_sorted h hk "name" rfl rfl)
  have hpath := Json.str.inj (value_of_sorted h hk "path" rfl rfl)
  have hsha := Json.str.inj (value_of_sorted h hk "sha256" rfl rfl)
  have hsize := Json.num.inj (value_of_sorted h hk "size_bytes" rfl rfl)
  have hkind := Json.str.inj (value_of_sorted h hk "kind" rfl rfl)
  cases a; cases b
  simp_all

theorem ReleaseProvenance.toMapping_inj {a b : ReleaseProvenance}
    (h : sorted (.obj a.toMapping) = sorted (.obj b.toMapping)) : a = b := by
  have hk : (a.toMapping.map Prod.fst).Nodup := by
    show ["source", "commit", "builder", "hermes_runtime_commit", "source_tree_clean"].Nodup
    decide
  have hsource := Json.str.inj (value_of_sorted h hk "source" rfl rfl)
  have hcommit := Json.str.inj (value_of_sorted h hk "commit" rfl rfl)
  have hbuilder := Json.str.inj (value_of_sorted h hk "builder" rfl rfl)
  have hhermes := Json.str.inj (value_of_sorted h hk "hermes_runtime_commit" rfl rfl)
  have hclean := Json.bool.inj (value_of_sorted h hk "source_tree_clean" rfl rfl)
  cases a; cases b
  simp_all

theorem PlatformQualification.toMapping_inj {a b : PlatformQualification}
    (h : sorted (.obj a.toMapping) = sorted (.obj b.toMapping)) : a = b := by
  have hk : (a.toMapping.map Prod.fst).Nodup := by
    show ["platform", "advertised", "status", "evidence", "boundary"].Nodup
    decide
  have hplatform := Json.str.inj (value_of_sorted h hk "platform" rfl rfl)
  have hadvertised := Json.bool.inj (value_of_sorted h hk "advertised" rfl rfl)
  have hstatus := Json.str.inj (value_of_sorted h hk "status" rfl rfl)
  have hevidence := map_of_sorted (f := .str) (fun _ _ hab => Json.str.inj hab)
    (value_of_sorted h hk "evidence" rfl rfl)
  have hboundary := Json.str.inj (value_of_sorted h hk "boundary" rfl rfl)
  cases a; cases b
  simp_all

theorem strOrNull_inj {a b : Option String} (h : sorted (strOrNull a) = sorted (strOrNull b)) : a = b := by
  cases a <;> cases b
  case none.none => rfl
  case none.some | some.none => cases h
  case some.some => exact congrArg some (Json.str.inj h)

theorem OfflineEnterpriseBundle.toMapping_inj {a b : OfflineEnterpriseBundle}
    (h : sorted (.obj a.toMapping) = sorted (.obj b.toMapping)) : a = b := by
  have hk : (a.toMapping.map Prod.fst).Nodup := by
    show ["included", "path", "sha256"].Nodup
    decide
  have hincluded := Json.bool.inj (value_of_sorted h hk "included" rfl rfl)
  have hpath := strOrNull_inj (value_of_sorted h hk "path" rfl rfl)
  have hsha := strOrNull_inj (value_of_sorted h hk "sha256" rfl rfl)
  cases a; cases b
  simp_all

/-- Equal fields, whatever the signatures. -/
theorem ReleaseManifest.fields_inj {a b : ReleaseManifest}
    (h : sorted (.obj a.fields) = sorted (.obj b.fields)) :
    { a with signature := none } = { b with signature := none } := by
  have hk : (a.fields.map Prod.fst).Nodup := by
    show ["metadata_version", "product", "version", "platform", "artifacts", "sbom_ref",
      "provenance_ref", "provenance", "platform_qualification", "offline_enterprise_bundle"].Nodup
    decide
  have hmetadata := Json.num.inj (value_of_sorted h hk "metadata_version" rfl rfl)
  have hproduct := Json.str.inj (value_of_sorted h hk "product" rfl rfl)
  have hversion := Json.str.inj (value_of_sorted h hk "version" rfl rfl)
  have hplatform := Json.str.inj (value_of_sorted h hk "platform" rfl rfl)
  have hartifacts := map_of_sorted (fun _ _ => ReleaseArtifact.toMapping_inj)
    (value_of_sorted h hk "artifacts" rfl rfl)
  have hsbom := Json.str.inj (value_of_sorted h hk "sbom_ref" rfl rfl)
  have href := Json.str.inj (value_of_sorted h hk "provenance_ref" rfl rfl)
  have hprovenance := ReleaseProvenance.toMapping_inj (value_of_sorted h hk "provenance" rfl rfl)
  have hqualification :=
    PlatformQualification.toMapping_inj (value_of_sorted h hk "platform_qualification" rfl rfl)
  have hbundle :=
    OfflineEnterpriseBundle.toMapping_inj (value_of_sorted h hk "offline_enterprise_bundle" rfl rfl)
  cases a; cases b
  simp_all

theorem UpdateManifest.fields_inj {a b : UpdateManifest}
    (h : sorted (.obj a.fields) = sorted (.obj b.fields)) :
    { a with signature := none } = { b with signature := none } := by
  have hk : (a.fields.map Prod.fst).Nodup := by
    show ["metadata_version", "current_version", "available_version", "platform", "artifact",
      "sbom_ref", "provenance_ref", "migration_compatibility", "rollback_ref",
      "release_manifest_ref"].Nodup
    decide
  have hmetadata := Json.num.inj (value_of_sorted h hk "metadata_version" rfl rfl)
  have hcurrent := Json.str.inj (value_of_sorted h hk "current_version" rfl rfl)
  have havailable := Json.str.inj (value_of_sorted h hk "available_version" rfl rfl)
  have hplatform := Json.str.inj (value_of_sorted h hk "platform" rfl rfl)
  have hartifact := ReleaseArtifact.toMapping_inj (value_of_sorted h hk "artifact" rfl rfl)
  have hsbom := Json.str.inj (value_of_sorted h hk "sbom_ref" rfl rfl)
  have hprovenance := Json.str.inj (value_of_sorted h hk "provenance_ref" rfl rfl)
  have hmigration := Json.str.inj (value_of_sorted h hk "migration_compatibility" rfl rfl)
  have hrollback := Json.str.inj (value_of_sorted h hk "rollback_ref" rfl rfl)
  have hrelease := Json.str.inj (value_of_sorted h hk "release_manifest_ref" rfl rfl)
  cases a; cases b
  simp_all

theorem RollbackManifest.fields_inj {a b : RollbackManifest}
    (h : sorted (.obj a.fields) = sorted (.obj b.fields)) :
    { a with signature := none } = { b with signature := none } := by
  have hk : (a.fields.map Prod.fst).Nodup := by
    show ["metadata_version", "current_version", "rollback_version", "platform", "artifact",
      "sbom_ref", "provenance_ref", "migration_compatibility", "release_manifest_ref"].Nodup
    decide
  have hmetadata := Json.num.inj (value_of_sorted h hk "metadata_version" rfl rfl)
  have hcurrent := Json.str.inj (value_of_sorted h hk "current_version" rfl rfl)
  have hrollback := Json.str.inj (value_of_sorted h hk "rollback_version" rfl rfl)
  have hplatform := Json.str.inj (value_of_sorted h hk "platform" rfl rfl)
  have hartifact := ReleaseArtifact.toMapping_inj (value_of_sorted h hk "artifact" rfl rfl)
  have hsbom := Json.str.inj (value_of_sorted h hk "sbom_ref" rfl rfl)
  have hprovenance := Json.str.inj (value_of_sorted h hk "provenance_ref" rfl rfl)
  have hmigration := Json.str.inj (value_of_sorted h hk "migration_compatibility" rfl rfl)
  have hrelease := Json.str.inj (value_of_sorted h hk "release_manifest_ref" rfl rfl)
  cases a; cases b
  simp_all

end Release

namespace Broker

theorem SignedBrokerRequest.fields_inj {a b : SignedBrokerRequest}
    (h : sorted (.obj a.fields) = sorted (.obj b.fields)) :
    { a with signature := "" } = { b with signature := "" } := by
  have hk : (a.fields.map Prod.fst).Nodup := by
    show ["protocol_version", "instance_id", "key_id", "method", "path", "body_hash", "nonce",
      "issued_at", "expires_at"].Nodup
    decide
  have hprotocol := Json.str.inj (value_of_sorted h hk "protocol_version" rfl rfl)
  have hinstance := Json.str.inj (value_of_sorted h hk "instance_id" rfl rfl)
  have hkey := Json.str.inj (value_of_sorted h hk "key_id" rfl rfl)
  have hmethod := Json.str.inj (value_of_sorted h hk "method" rfl rfl)
  have hpath := Json.str.inj (value_of_sorted h hk "path" rfl rfl)
  have hbody := Json.str.inj (value_of_sorted h hk "body_hash" rfl rfl)
  have hnonce := Json.str.inj (value_of_sorted h hk "nonce" rfl rfl)
  have hissued := Json.str.inj (value_of_sorted h hk "issued_at" rfl rfl)
  have hexpires := Json.str.inj (value_of_sorted h hk "expires_at" rfl rfl)
  cases a; cases b
  simp_all

theorem SignedBrokerResponse.fields_inj {a b : SignedBrokerResponse}
    (h : sorted (.obj a.fields) = sorted (.obj b.fields)) :
    { a with signature := "" } = { b with signature := "" } := by
  have hk : (a.fields.map Prod.fst).Nodup := by
    show ["protocol_version", "broker_key_id", "request_nonce", "body_hash", "issued_at",
      "expires_at"].Nodup
    decide
  have hprotocol := Json.str.inj (value_of_sorted h hk "protocol_version" rfl rfl)
  have hkey := Json.str.inj (value_of_sorted h hk "broker_key_id" rfl rfl)
  have hnonce := Json.str.inj (value_of_sorted h hk "request_nonce" rfl rfl)
  have hbody := Json.str.inj (value_of_sorted h hk "body_hash" rfl rfl)
  have hissued := Json.str.inj (value_of_sorted h hk "issued_at" rfl rfl)
  have hexpires := Json.str.inj (value_of_sorted h hk "expires_at" rfl rfl)
  cases a; cases b
  simp_all

end Broker

/-! ## The five kinds -/

open Broker Release

inductive Signable where
  | brokerRequest (r : SignedBrokerRequest)
  | brokerResponse (r : SignedBrokerResponse)
  | releaseManifest (m : ReleaseManifest)
  | updateManifest (m : UpdateManifest)
  | rollbackManifest (m : RollbackManifest)
  deriving DecidableEq, Repr

namespace Signable

inductive Kind where
  | brokerRequest
  | brokerResponse
  | releaseManifest
  | updateManifest
  | rollbackManifest
  deriving DecidableEq, Repr

def kind : Signable → Kind
  | .brokerRequest _ => .brokerRequest
  | .brokerResponse _ => .brokerResponse
  | .releaseManifest _ => .releaseManifest
  | .updateManifest _ => .updateManifest
  | .rollbackManifest _ => .rollbackManifest

/-- A key that the records of this kind have and no others. -/
def Kind.marker : Kind → String
  | .brokerRequest => "method"
  | .brokerResponse => "broker_key_id"
  | .releaseManifest => "product"
  | .updateManifest => "available_version"
  | .rollbackManifest => "rollback_version"

/-- What is put into canonical form: a manifest without its signature. -/
def mapping : Signable → List (String × Json)
  | .brokerRequest r => r.fields
  | .brokerResponse r => r.fields
  | .releaseManifest m => m.toMapping false
  | .updateManifest m => m.toMapping false
  | .rollbackManifest m => m.toMapping false

/-- The bytes that are signed. -/
def signingBytes : Signable → Bytes
  | .brokerRequest r => r.signingPayload
  | .brokerResponse r => r.signingPayload
  | .releaseManifest m => canonicalJsonBytes (m.toMapping false)
  | .updateManifest m => canonicalJsonBytes (m.toMapping false)
  | .rollbackManifest m => canonicalJsonBytes (m.toMapping false)

/-- Every field but the signature. -/
def unsigned : Signable → Signable
  | .brokerRequest r => .brokerRequest { r with signature := "" }
  | .brokerResponse r => .brokerResponse { r with signature := "" }
  | .releaseManifest m => .releaseManifest { m with signature := none }
  | .updateManifest m => .updateManifest { m with signature := none }
  | .rollbackManifest m => .rollbackManifest { m with signature := none }

theorem signingBytes_eq (a : Signable) : a.signingBytes = canonicalJsonBytes a.mapping := by
  cases a <;> rfl

theorem mapping_nodup (a : Signable) : (a.mapping.map Prod.fst).Nodup := by
  cases a with
  | brokerRequest r =>
    show ["protocol_version", "instance_id", "key_id", "method", "path", "body_hash", "nonce",
      "issued_at", "expires_at"].Nodup
    decide
  | brokerResponse r =>
    show ["protocol_version", "broker_key_id", "request_nonce", "body_hash", "issued_at",
      "expires_at"].Nodup
    decide
  | releaseManifest m =>
    simp [mapping, ReleaseManifest.toMapping, ReleaseManifest.fields]
  | updateManifest m =>
    simp [mapping, UpdateManifest.toMapping, UpdateManifest.fields]
  | rollbackManifest m =>
    simp [mapping, RollbackManifest.toMapping, RollbackManifest.fields]

theorem get?_marker (a : Signable) (k : Kind) :
    (get? a.mapping k.marker).isSome = decide (a.kind = k) := by
  cases a with
  | brokerRequest r => cases k <;> rfl
  | brokerResponse r => cases k <;> rfl
  | releaseManifest m =>
    rw [mapping, ReleaseManifest.toMapping, withSignature_false]
    cases k <;> rfl
  | updateManifest m =>
    rw [mapping, UpdateManifest.toMapping, withSignature_false]
    cases k <;> rfl
  | rollbackManifest m =>
    rw [mapping, RollbackManifest.toMapping, withSignature_false]
    cases k <;> rfl

/-- The signed bytes separate the kinds. -/
theorem kind_of_sorted {a b : Signable} (h : sorted (.obj a.mapping) = sorted (.obj b.mapping)) :
    a.kind = b.kind := by
  have hkey := key_of_sorted h (mapping_nodup a) a.kind.marker
  rw [get?_marker, get?_marker, decide_eq_true rfl] at hkey
  exact (of_decide_eq_true hkey.symm).symm

theorem unsigned_of_sorted {a b : Signable} (h : sorted (.obj a.mapping) = sorted (.obj b.mapping)) :
    a.unsigned = b.unsigned := by
  have hkind := kind_of_sorted h
  cases a <;> cases b <;> simp only [kind, reduceCtorEq] at hkind
  case brokerRequest.brokerRequest a b =>
    exact congrArg brokerRequest (SignedBrokerRequest.fields_inj h)
  case brokerResponse.brokerResponse a b =>
    exact congrArg brokerResponse (SignedBrokerResponse.fields_inj h)
  case releaseManifest.releaseManifest a b =>
    simp only [mapping, ReleaseManifest.toMapping, withSignature_false] at h
    exact congrArg releaseManifest (ReleaseManifest.fields_inj h)
  case updateManifest.updateManifest a b =>
    simp only [mapping, UpdateManifest.toMapping, withSignature_false] at h
    exact congrArg updateManifest (UpdateManifest.fields_inj h)
  case rollbackManifest.rollbackManifest a b =>
    simp only [mapping, RollbackManifest.toMapping, withSignature_false] at h
    exact congrArg rollbackManifest (RollbackManifest.fields_inj h)

theorem unsigned_of_signingBytes {a b : Signable} (h : a.signingBytes = b.signingBytes) :
    a.unsigned = b.unsigned := by
  rw [signingBytes_eq, signingBytes_eq] at h
  exact unsigned_of_sorted (canonicalJsonBytes_inj h)

theorem signingBytes_unsigned (a : Signable) : a.unsigned.signingBytes = a.signingBytes := by
  cases a with
  | brokerRequest r => rfl
  | brokerResponse r => rfl
  | releaseManifest m =>
    simp only [unsigned, signingBytes, ReleaseManifest.toMapping, withSignature_false,
      ReleaseManifest.fields]
  | updateManifest m =>
    simp only [unsigned, signingBytes, UpdateManifest.toMapping, withSignature_false,
      UpdateManifest.fields]
  | rollbackManifest m =>
    simp only [unsigned, signingBytes, RollbackManifest.toMapping, withSignature_false,
      RollbackManifest.fields]

theorem kind_unsigned (a : Signable) : a.unsigned.kind = a.kind := by
  cases a <;> rfl

/-- **The signed bytes stand for the record**: equal bytes have the same kind and the same
fields, and a signature is valid for the records that agree with the one it was made for, and for
no others. -/
theorem signed_bytes (a b : Signable) :
    (a.signingBytes = b.signingBytes ↔ a.kind = b.kind ∧ a.unsigned = b.unsigned) ∧
    ∀ (sch : SignatureScheme), sch.Binding → ∀ k : sch.PrivateKey,
      (sch.verify (sch.publicKey k) (sch.sign k a.signingBytes) b.signingBytes = true ↔
        a.kind = b.kind ∧ a.unsigned = b.unsigned) := by
  have hbytes : a.signingBytes = b.signingBytes ↔ a.kind = b.kind ∧ a.unsigned = b.unsigned := by
    constructor
    · intro h
      have hfields := unsigned_of_signingBytes h
      refine ⟨?_, hfields⟩
      rw [← kind_unsigned a, ← kind_unsigned b, hfields]
    · rintro ⟨-, h⟩
      rw [← signingBytes_unsigned a, ← signingBytes_unsigned b, h]
  refine ⟨hbytes, fun sch hsch k => ?_⟩
  rw [← hbytes]
  constructor
  · intro h
    exact hsch k _ _ h
  · intro h
    rw [h]
    exact sch.verify_sign k _

namespace Sample

def request : SignedBrokerRequest where
  protocolVersion := "maya-broker-v1"
  instanceId := "instance"
  keyId := "key"
  method := "POST"
  path := "/oauth/start"
  bodyHash := "hash"
  nonce := "nonce"
  issuedAt := "2026-01-01T00:00:00+00:00"
  expiresAt := "2026-01-01T00:05:00+00:00"
  signature := ""

/-- A signature made for one path is not valid for another. -/
theorem other_path :
    ¬ SignatureScheme.attached.verify (SignatureScheme.attached.publicKey [1])
      (SignatureScheme.attached.sign [1] (brokerRequest request).signingBytes)
      (brokerRequest { request with path := "/oauth/complete" }).signingBytes = true := by
  intro h
  have hsame := ((signed_bytes (brokerRequest request)
    (brokerRequest { request with path := "/oauth/complete" })).2 SignatureScheme.attached
      SignatureScheme.attached_binding [1]).mp h
  exact absurd hsame.2 (by decide)

end Sample

end Signable

end ProjectMaya
