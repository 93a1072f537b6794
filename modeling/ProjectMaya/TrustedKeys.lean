import ProjectMaya.ReleaseRoundTrip

/-! # Whose keys a verifier trusts

`public_keys or default_release_public_keys()` puts the default keys in the place of every
mapping that is empty.  A caller who supplies a key gets an answer that depends on the supplied
keys only; a caller who supplies none trusts the test key (`only_own_keys`). -/

namespace ProjectMaya.Release

open Logic

section

variable {O : Type} [Objects O] {sch : SignatureScheme}

/-! ## Other defaults -/

/-- `public_keys or …`, were these the default keys. -/
def trustedKeysWith (defaults : Except Failure (PublicKeys sch)) : PublicKeys sch → Except Failure (PublicKeys sch)
  | key :: keys => .ok (key :: keys)
  | [] => defaults

/-- `_verify_signature`, were these the default keys. -/
def verifySignatureWith (defaults : Except Failure (PublicKeys sch)) (payload : List (String × Json))
    (signature : Option SignatureEnvelope) (publicKeys : PublicKeys sch) : Except Failure Unit :=
  match signature with
  | none => .error (.signature "release metadata is unsigned")
  | some signature => do
    raiseIf (signature.algorithm ≠ "ed25519") (.signature "unsupported release signature algorithm")
    let keys ← trustedKeysWith defaults publicKeys
    match keys.get signature.keyId with
    | none => .error (.signature "release signature key is not trusted")
    | some publicKey => do
      let verifier ← publicKeyFromValue publicKey
      match b64decode signature.signature with
      | some raw =>
        raiseIf (!sch.verify verifier raw (canonicalJsonBytes payload))
          (.signature "release signature verification failed")
      | none => .error (.signature "release signature verification failed")

/-- The checks of a verifier before the signature. -/
def checkContents (expectedPlatform : Option String) : Manifest → Except Failure Unit
  | .release m => do
    verifyCommonManifest m.metadataVersion m.platform expectedPlatform
    raiseIf (m.artifacts = []) (.metadata "release manifest must list at least one artifact")
    raiseIf (m.sbomRef = "") (.metadata "release manifest must include sbom_ref")
    raiseIf (m.provenanceRef = "") (.metadata "release manifest must include provenance_ref")
  | .update m => do
    verifyCommonManifest m.metadataVersion m.platform expectedPlatform
    requireUpdateRefs [m.sbomRef, m.provenanceRef, m.rollbackRef, m.releaseManifestRef]
  | .rollback m => do
    verifyCommonManifest m.metadataVersion m.platform expectedPlatform
    requireUpdateRefs [m.sbomRef, m.provenanceRef, m.releaseManifestRef]

/-- The verifiers, were these the default keys. -/
def verifyManifestWith (defaults : Except Failure (PublicKeys sch)) (kind : Kind)
    (data : List (String × Value O)) (publicKeys : PublicKeys sch) (expectedPlatform : Option String) :
    Except Failure Manifest := do
  let manifest ← Manifest.fromMapping kind (.mapping data)
  checkContents expectedPlatform manifest
  verifySignatureWith defaults (manifest.toMapping false) manifest.signature publicKeys
  return manifest

/-- The keys that a caller supplies. -/
def supplied (publicKeys : Option (PublicKeys sch)) : PublicKeys sch := publicKeys.getD []

theorem trustedKeys_eq (publicKeys : Option (PublicKeys sch)) :
    trustedKeys publicKeys = trustedKeysWith (defaultReleasePublicKeys sch) (supplied publicKeys) := by
  cases publicKeys with
  | none => rfl
  | some keys => cases keys <;> rfl

theorem verifySignature_eq (payload : List (String × Json)) (signature : Option SignatureEnvelope)
    (publicKeys : Option (PublicKeys sch)) :
    verifySignature payload signature publicKeys =
      verifySignatureWith (defaultReleasePublicKeys sch) payload signature (supplied publicKeys) := by
  unfold verifySignature verifySignatureWith
  rw [trustedKeys_eq] <;> rfl

/-- The verifiers are these, with the default keys of the release module. -/
theorem verifyManifest_eq (kind : Kind) (data : List (String × Value O))
    (publicKeys : Option (PublicKeys sch)) (expected : Option String) :
    verifyManifest kind data publicKeys expected =
      verifyManifestWith (defaultReleasePublicKeys sch) kind data (supplied publicKeys) expected := by
  unfold verifyManifestWith
  simp only [← verifySignature_eq]
  cases kind with
  | release =>
    simp only [verifyManifest, Manifest.fromMapping, verifyReleaseManifest, map_bind, map_pure,
      bind_map_left, checkContents, bind_assoc]
    rfl
  | update =>
    simp only [verifyManifest, Manifest.fromMapping, verifyUpdateManifest, map_bind, map_pure,
      bind_map_left, checkContents, bind_assoc]
    rfl
  | rollback =>
    simp only [verifyManifest, Manifest.fromMapping, verifyRollbackManifest, map_bind, map_pure,
      bind_map_left, checkContents, bind_assoc]
    rfl

/-! ## The law -/

/-- What the verifiers do under these keys depends on these keys only: a manifest is accepted
only under a signature that is valid for the supplied key of its id, and other default keys would
make no difference. -/
structure OnlyOwnKeys (O : Type) [Objects O] (publicKeys : Option (PublicKeys sch)) : Prop where
  accepted : ∀ (kind : Kind) (data : List (String × Value O)) (expected : Option String) (m : Manifest),
    verifyManifest kind data publicKeys expected = .ok m →
      ∃ e value key raw, m.signature = some e ∧ (supplied publicKeys).get e.keyId = some value ∧
        publicKeyFromValue value = .ok key ∧ b64decode e.signature = some raw ∧
        sch.verify key raw (canonicalJsonBytes (m.toMapping false)) = true
  independent : ∀ (defaults : Except Failure (PublicKeys sch)) (kind : Kind) (data : List (String × Value O))
    (expected : Option String),
    verifyManifestWith defaults kind data (supplied publicKeys) expected =
      verifyManifest kind data publicKeys expected

theorem onlyOwnKeys_of_supplied {publicKeys : Option (PublicKeys sch)} (h : supplied publicKeys ≠ []) :
    OnlyOwnKeys O publicKeys := by
  have hkeys : ∀ defaults : Except Failure (PublicKeys sch),
      trustedKeysWith defaults (supplied publicKeys) = .ok (supplied publicKeys) := by
    intro defaults
    cases hs : supplied publicKeys with
    | nil => exact absurd hs h
    | cons key keys => rfl
  constructor
  · intro kind data expected m hm
    obtain ⟨-, -, e, keys, value, key, raw, he, -, htrusted, hvalue, hkey, hraw, hverify⟩ :=
      signed_of_verifyManifest hm
    rw [trustedKeys_eq, hkeys] at htrusted
    obtain rfl := Except.ok.inj htrusted
    exact ⟨e, value, key, raw, he, hvalue, hkey, hraw, hverify⟩
  · intro defaults kind data expected
    have hsig : ∀ payload signature, verifySignatureWith defaults payload signature (supplied publicKeys) =
        verifySignatureWith (defaultReleasePublicKeys sch) payload signature (supplied publicKeys) := by
      intro payload signature
      unfold verifySignatureWith
      rw [hkeys, hkeys]
    rw [verifyManifest_eq]
    unfold verifyManifestWith
    simp only [hsig]

/-- A manifest that everything but its signature speaks for. -/
def template : RollbackManifest where
  metadataVersion := phase6MetadataVersion
  currentVersion := "2.0"
  rollbackVersion := "1.9"
  platform := "windows-desktop"
  artifact := { name := "maya", path := "maya.whl", sha256 := "00", sizeBytes := 1, kind := "wheel" }
  sbomRef := "sbom"
  provenanceRef := "provenance"
  migrationCompatibility := "backward"
  releaseManifestRef := "release"

/-- The default keys, once the test key has been read. -/
def testKeys (testKey : sch.PrivateKey) : PublicKeys sch :=
  [(nonProductionTestKeyId, .str (b64encode (sch.publicBytes (sch.publicKey testKey))))]

theorem trusted_testKeys (testKey : sch.PrivateKey) :
    Trusted (testKeys testKey) nonProductionTestKeyId testKey := by
  refine ⟨_, rfl, ?_⟩
  simp only [publicKeyFromValue, b64decode_b64encode, Value.orRaise, sch.fromPublicBytes_publicBytes, ok_bind]

/-- Without a supplied key the test key is trusted. -/
theorem accepted_of_none_supplied {publicKeys : Option (PublicKeys sch)} (h : supplied publicKeys = [])
    {testKey : sch.PrivateKey} (htest : sch.fromPrivateBytes nonProductionTestPrivateBytes = some testKey) :
    ∃ (data : List (String × Value O)) (m : Manifest),
      verifyManifest .rollback data publicKeys none = .ok m := by
  have hdefaults : defaultReleasePublicKeys sch = .ok (testKeys testKey) := by
    unfold defaultReleasePublicKeys
    rw [htest]
    rfl
  have hcomplete : (Manifest.rollback template).Complete := by
    unfold Manifest.Complete
    decide
  have hany : ∀ p ∈ (none : Option String), p = (Manifest.rollback template).platform := nofun
  have hok := verify_signed (O := O) (.rollback template) hcomplete (trusted_testKeys testKey) hany
  have hsame : ∀ data : List (String × Value O), verifyManifest .rollback data publicKeys none =
      verifyManifest .rollback data (some (testKeys testKey)) none := by
    intro data
    rw [verifyManifest_eq, verifyManifest_eq, h, hdefaults]
    unfold verifyManifestWith verifySignatureWith
    rfl
  exact ⟨_, _, (hsame _).trans hok⟩

/-- **Only own keys.**  The verifiers go by the keys of the caller exactly if there is one. -/
theorem only_own_keys (publicKeys : Option (PublicKeys sch))
    (htest : (sch.fromPrivateBytes nonProductionTestPrivateBytes).isSome) :
    OnlyOwnKeys O publicKeys ↔ supplied publicKeys ≠ [] := by
  refine ⟨fun hown hempty => ?_, onlyOwnKeys_of_supplied⟩
  obtain ⟨testKey, htest⟩ := Option.isSome_iff_exists.1 htest
  obtain ⟨data, m, hm⟩ := accepted_of_none_supplied (O := O) hempty htest
  obtain ⟨e, value, -, -, -, hvalue, -⟩ := hown.accepted _ _ _ _ hm
  rw [hempty] at hvalue
  cases hvalue

end

namespace Sample

/-- With the keys of a caller the verifiers go by these. -/
theorem own_keys_trusted : OnlyOwnKeys Empty (some keys) :=
  (only_own_keys (some keys) rfl).2 nofun

/-- With an empty mapping they do not. -/
theorem empty_mapping_trusted :
    ¬ ∀ publicKeys : Option (PublicKeys SignatureScheme.attached), OnlyOwnKeys Empty publicKeys := by
  intro h
  have hown := h (some [])
  have hnone : supplied (some ([] : PublicKeys SignatureScheme.attached)) = [] := rfl
  obtain ⟨data, m, hm⟩ := accepted_of_none_supplied (O := Empty) hnone
    (rfl : SignatureScheme.attached.fromPrivateBytes nonProductionTestPrivateBytes = some _)
  obtain ⟨e, value, -, -, -, hvalue, -⟩ := hown.accepted _ _ _ _ hm
  cases hvalue

end Sample

end ProjectMaya.Release
