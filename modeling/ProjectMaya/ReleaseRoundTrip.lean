import ProjectMaya.Signable

/-! # Signing a manifest and verifying it -/

namespace ProjectMaya.Release

open Logic

section

variable {O : Type} [Objects O]

omit [Objects O] in
theorem ofItems_eq_map (items : List Json) :
    (Value.ofItems items : List (Value O)) = items.map Value.ofJson := by
  induction items with
  | nil => rfl
  | cons v rest ih => rw [Value.ofItems, ih, List.map_cons]

omit [Objects O] in
/-- Reading a list of values that were written. -/
theorem mapM_ofItems {α : Type} {f : α → Json} {g : Value O → Except Failure α}
    (hg : ∀ a, g (Value.ofJson (f a)) = .ok a) (l : List α) :
    (Value.ofItems (l.map f)).mapM g = .ok l := by
  rw [ofItems_eq_map, List.map_map]
  induction l with
  | nil => rfl
  | cons a l ih =>
    rw [List.map_cons, List.mapM_cons, ih]
    show (do let a ← g (Value.ofJson (f a)); _) = _
    rw [hg]
    rfl

theorem SignatureEnvelope.fromMapping_ofJson (e : SignatureEnvelope) :
    SignatureEnvelope.fromMapping (Value.ofJson (.obj e.toMapping) : Value O) = .ok e := rfl

theorem ReleaseArtifact.fromMapping_ofJson (a : ReleaseArtifact) :
    ReleaseArtifact.fromMapping (Value.ofJson (.obj a.toMapping) : Value O) = .ok a := rfl

theorem ReleaseProvenance.fromMapping_ofJson (p : ReleaseProvenance) :
    ReleaseProvenance.fromMapping (Value.ofJson (.obj p.toMapping) : Value O) = .ok p := rfl

theorem PlatformQualification.fromMapping_ofJson (q : PlatformQualification) :
    PlatformQualification.fromMapping (Value.ofJson (.obj q.toMapping) : Value O) = .ok q := by
  have hread : PlatformQualification.fromMapping (Value.ofJson (.obj q.toMapping) : Value O) = (do
      let evidence ← (Value.ofItems (q.evidence.map .str) : List (Value O)).mapM Value.toStr
      return { q with evidence }) := rfl
  rw [hread, mapM_ofItems fun _ => rfl]
  rfl

theorem OfflineEnterpriseBundle.fromMapping_ofJson (b : OfflineEnterpriseBundle) :
    OfflineEnterpriseBundle.fromMapping (Value.ofJson (.obj b.toMapping) : Value O) = .ok b := by
  obtain ⟨included, path, sha256⟩ := b
  cases path <;> cases sha256 <;> rfl

/-- The fields of a manifest and a signature are read as the manifest with that signature. -/
theorem ReleaseManifest.fromMapping_signed (m : ReleaseManifest) (e : SignatureEnvelope) :
    ReleaseManifest.fromMapping (Value.ofJson (.obj (m.fields ++ [("signature", .obj e.toMapping)])) :
      Value O) = .ok { m with signature := some e } := by
  show (do
    let artifacts ← (Value.ofItems (m.artifacts.map fun a => .obj (ReleaseArtifact.toMapping a)) :
      List (Value O)).mapM ReleaseArtifact.fromMapping
    let provenance ← ReleaseProvenance.fromMapping (Value.ofJson (.obj m.provenance.toMapping) : Value O)
    let platformQualification ← PlatformQualification.fromMapping
      (Value.ofJson (.obj m.platformQualification.toMapping) : Value O)
    let offlineEnterpriseBundle ← OfflineEnterpriseBundle.fromMapping
      (Value.ofJson (.obj m.offlineEnterpriseBundle.toMapping) : Value O)
    return { m with
      artifacts, provenance, platformQualification, offlineEnterpriseBundle, signature := some e }) = _
  rw [mapM_ofItems ReleaseArtifact.fromMapping_ofJson, ReleaseProvenance.fromMapping_ofJson,
    PlatformQualification.fromMapping_ofJson, OfflineEnterpriseBundle.fromMapping_ofJson]
  rfl

theorem UpdateManifest.fromMapping_signed (m : UpdateManifest) (e : SignatureEnvelope) :
    UpdateManifest.fromMapping (Value.ofJson (.obj (m.fields ++ [("signature", .obj e.toMapping)])) :
      Value O) = .ok { m with signature := some e } := rfl

theorem RollbackManifest.fromMapping_signed (m : RollbackManifest) (e : SignatureEnvelope) :
    RollbackManifest.fromMapping (Value.ofJson (.obj (m.fields ++ [("signature", .obj e.toMapping)])) :
      Value O) = .ok { m with signature := some e } := rfl

/-! ## What a signed mapping carries -/

section

variable {sch : SignatureScheme}

/-- The envelope that `sign_mapping_for_release` makes. -/
def envelope (data : List (String × Json)) (privateKey : sch.PrivateKey) (keyId : String) :
    SignatureEnvelope where
  algorithm := "ed25519"
  keyId := keyId
  signature := b64encode (sch.sign privateKey (canonicalJsonBytes data))

theorem signMappingForRelease_eq {data : List (String × Json)} (h : ∀ item ∈ data, item.1 ≠ "signature")
    (privateKey : sch.PrivateKey) (keyId : String) :
    signMappingForRelease data privateKey keyId =
      data ++ [("signature", .obj (envelope data privateKey keyId).toMapping)] := by
  have hkeep : data.filter (fun item => item.1 ≠ "signature") = data :=
    List.filter_eq_self.mpr fun item hitem => decide_eq_true (h item hitem)
  unfold signMappingForRelease
  rw [hkeep]
  rfl

/-- The key with this id is the public part of the private key. -/
def Trusted (publicKeys : PublicKeys sch) (keyId : String) (privateKey : sch.PrivateKey) : Prop :=
  ∃ value, publicKeys.get keyId = some value ∧
    publicKeyFromValue value = .ok (sch.publicKey privateKey)

theorem verifySignature_envelope {data : List (String × Json)} {publicKeys : PublicKeys sch}
    {keyId : String} {privateKey : sch.PrivateKey} (h : Trusted publicKeys keyId privateKey) :
    verifySignature data (some (envelope data privateKey keyId)) (some publicKeys) = .ok () := by
  obtain ⟨value, hget, hkey⟩ := h
  have htrusted : trustedKeys (some publicKeys) = .ok publicKeys := by
    cases publicKeys with
    | nil => cases hget
    | cons key keys => rfl
  unfold verifySignature
  simp only [envelope, raiseIf, ne_eq, not_true_eq_false, if_false, htrusted, hget, hkey,
    b64decode_b64encode, sch.verify_sign, bind, Except.bind, Bool.not_true, Bool.false_eq_true]

/-- The signature is valid, under a trusted key, for these bytes. -/
def Signed (data : List (String × Json)) (signature : Option SignatureEnvelope)
    (publicKeys : Option (PublicKeys sch)) : Prop :=
  ∃ e keys value key raw, signature = some e ∧ e.algorithm = "ed25519" ∧
    trustedKeys publicKeys = .ok keys ∧ keys.get e.keyId = some value ∧
    publicKeyFromValue value = .ok key ∧ b64decode e.signature = some raw ∧
    sch.verify key raw (canonicalJsonBytes data) = true

theorem bind_eq_ok {α β : Type} {x : Except Failure α} {f : α → Except Failure β} {b : β}
    (h : x >>= f = .ok b) : ∃ a, x = .ok a ∧ f a = .ok b := by
  cases x with
  | error e => cases h
  | ok a => exact ⟨a, rfl, h⟩

theorem raiseIf_eq_ok {c : Prop} [Decidable c] {e : Failure} (h : raiseIf c e = .ok ()) : ¬ c := by
  intro hc
  rw [raiseIf, if_pos hc] at h
  cases h

theorem signed_of_verifySignature {data : List (String × Json)} {signature : Option SignatureEnvelope}
    {publicKeys : Option (PublicKeys sch)} (h : verifySignature data signature publicKeys = .ok ()) :
    Signed data signature publicKeys := by
  unfold verifySignature at h
  cases signature with
  | none => cases h
  | some e =>
    obtain ⟨_, halgorithm, h⟩ := bind_eq_ok h
    obtain ⟨keys, hkeys, h⟩ := bind_eq_ok h
    cases hget : keys.get e.keyId with
    | none => rw [hget] at h; cases h
    | some value =>
      rw [hget] at h
      obtain ⟨key, hkey, h⟩ := bind_eq_ok h
      cases hraw : b64decode e.signature with
      | none => rw [hraw] at h; cases h
      | some raw =>
        rw [hraw] at h
        have hverify := raiseIf_eq_ok h
        exact ⟨e, keys, value, key, raw, rfl, not_not.mp (raiseIf_eq_ok halgorithm), hkeys, hget, hkey,
          hraw, by simpa using hverify⟩

end

/-! ## The three kinds -/

inductive Kind where
  | release
  | update
  | rollback
  deriving DecidableEq, Repr

inductive Manifest where
  | release (m : ReleaseManifest)
  | update (m : UpdateManifest)
  | rollback (m : RollbackManifest)
  deriving DecidableEq, Repr

namespace Manifest

def kind : Manifest → Kind
  | .release _ => .release
  | .update _ => .update
  | .rollback _ => .rollback

def platform : Manifest → String
  | .release m => m.platform
  | .update m => m.platform
  | .rollback m => m.platform

def toMapping (m : Manifest) (includeSignature : Bool) : List (String × Json) :=
  match m with
  | .release m => m.toMapping includeSignature
  | .update m => m.toMapping includeSignature
  | .rollback m => m.toMapping includeSignature

def signature : Manifest → Option SignatureEnvelope
  | .release m => m.signature
  | .update m => m.signature
  | .rollback m => m.signature

/-- The manifest with this signature. -/
def signed (e : SignatureEnvelope) : Manifest → Manifest
  | .release m => .release { m with signature := some e }
  | .update m => .update { m with signature := some e }
  | .rollback m => .rollback { m with signature := some e }

/-- A supported version and platform, and what has to be there. -/
def Complete : Manifest → Prop
  | .release m => m.metadataVersion = phase6MetadataVersion ∧ m.platform ∈ supportedReleasePlatforms ∧
      m.artifacts ≠ [] ∧ m.sbomRef ≠ "" ∧ m.provenanceRef ≠ ""
  | .update m => m.metadataVersion = phase6MetadataVersion ∧ m.platform ∈ supportedReleasePlatforms ∧
      m.sbomRef ≠ "" ∧ m.provenanceRef ≠ "" ∧ m.rollbackRef ≠ "" ∧ m.releaseManifestRef ≠ ""
  | .rollback m => m.metadataVersion = phase6MetadataVersion ∧ m.platform ∈ supportedReleasePlatforms ∧
      m.sbomRef ≠ "" ∧ m.provenanceRef ≠ "" ∧ m.releaseManifestRef ≠ ""

end Manifest

/-- The verification for a kind of manifest. -/
def verifyManifest {sch : SignatureScheme} (kind : Kind) (data : List (String × Value O))
    (publicKeys : Option (PublicKeys sch)) (expectedPlatform : Option String) : Except Failure Manifest :=
  match kind with
  | .release => .release <$> verifyReleaseManifest data publicKeys expectedPlatform
  | .update => .update <$> verifyUpdateManifest data publicKeys expectedPlatform
  | .rollback => .rollback <$> verifyRollbackManifest data publicKeys expectedPlatform

section

variable {sch : SignatureScheme}

theorem verifyCommonManifest_ok {version : Int} {platform : String} {expected : Option String}
    (hv : version = phase6MetadataVersion) (hp : platform ∈ supportedReleasePlatforms)
    (he : ∀ p ∈ expected, p = platform) : verifyCommonManifest version platform expected = .ok () := by
  cases expected with
  | none => simp [verifyCommonManifest, raiseIf, hv, hp, bind, Except.bind]
  | some p => simp [verifyCommonManifest, raiseIf, hv, hp, he p rfl, bind, Except.bind]

theorem requireUpdateRefs_ok {values : List String} (h : ∀ v ∈ values, v ≠ "") :
    requireUpdateRefs values = .ok () := by
  have hnone : ¬ (values.any fun v => decide (v = "")) = true := by
    rw [List.any_eq_true]
    rintro ⟨v, hv, he⟩
    exact h v hv (of_decide_eq_true he)
  exact if_neg hnone

theorem fields_ne_signature (m : Manifest) : ∀ item ∈ m.toMapping false, item.1 ≠ "signature" := by
  cases m with
  | release m =>
    simp [Manifest.toMapping, ReleaseManifest.toMapping, ReleaseManifest.fields]
  | update m =>
    simp [Manifest.toMapping, UpdateManifest.toMapping, UpdateManifest.fields]
  | rollback m =>
    simp [Manifest.toMapping, RollbackManifest.toMapping, RollbackManifest.fields]

theorem verifyReleaseManifest_ok {data : List (String × Value O)} {m : ReleaseManifest}
    {publicKeys : Option (PublicKeys sch)} {expected : Option String}
    (hread : ReleaseManifest.fromMapping (.mapping data) = .ok m) (hm : (Manifest.release m).Complete)
    (he : ∀ p ∈ expected, p = m.platform)
    (hsig : verifySignature (m.toMapping false) m.signature publicKeys = .ok ()) :
    verifyReleaseManifest data publicKeys expected = .ok m := by
  obtain ⟨hv, hp, ha, hs, hr⟩ := hm
  have hcommon := verifyCommonManifest_ok hv hp he
  simp only [verifyReleaseManifest, hread, hcommon, hsig, raiseIf, ha, hs, hr, if_false, bind,
    Except.bind, pure, Except.pure]

theorem verifyUpdateManifest_ok {data : List (String × Value O)} {m : UpdateManifest}
    {publicKeys : Option (PublicKeys sch)} {expected : Option String}
    (hread : UpdateManifest.fromMapping (.mapping data) = .ok m) (hm : (Manifest.update m).Complete)
    (he : ∀ p ∈ expected, p = m.platform)
    (hsig : verifySignature (m.toMapping false) m.signature publicKeys = .ok ()) :
    verifyUpdateManifest data publicKeys expected = .ok m := by
  obtain ⟨hv, hp, hs, hr, hb, hl⟩ := hm
  have hcommon := verifyCommonManifest_ok hv hp he
  have hrefs : requireUpdateRefs [m.sbomRef, m.provenanceRef, m.rollbackRef, m.releaseManifestRef] = .ok () :=
    requireUpdateRefs_ok (by simp [hs, hr, hb, hl])
  simp only [verifyUpdateManifest, hread, hcommon, hrefs, hsig, bind, Except.bind, pure, Except.pure]

theorem verifyRollbackManifest_ok {data : List (String × Value O)} {m : RollbackManifest}
    {publicKeys : Option (PublicKeys sch)} {expected : Option String}
    (hread : RollbackManifest.fromMapping (.mapping data) = .ok m) (hm : (Manifest.rollback m).Complete)
    (he : ∀ p ∈ expected, p = m.platform)
    (hsig : verifySignature (m.toMapping false) m.signature publicKeys = .ok ()) :
    verifyRollbackManifest data publicKeys expected = .ok m := by
  obtain ⟨hv, hp, hs, hr, hl⟩ := hm
  have hcommon := verifyCommonManifest_ok hv hp he
  have hrefs : requireUpdateRefs [m.sbomRef, m.provenanceRef, m.releaseManifestRef] = .ok () :=
    requireUpdateRefs_ok (by simp [hs, hr, hl])
  simp only [verifyRollbackManifest, hread, hcommon, hrefs, hsig, bind, Except.bind, pure, Except.pure]

theorem verify_signed (m : Manifest) {publicKeys : PublicKeys sch} {keyId : String}
    {privateKey : sch.PrivateKey} {expected : Option String} (hm : m.Complete)
    (hkey : Trusted publicKeys keyId privateKey) (he : ∀ p ∈ expected, p = m.platform) :
    verifyManifest (O := O) m.kind
      (Value.ofFields (signMappingForRelease (m.toMapping false) privateKey keyId)) (some publicKeys)
        expected = .ok (m.signed (envelope (m.toMapping false) privateKey keyId)) := by
  rw [signMappingForRelease_eq (fields_ne_signature m)]
  have hsig : verifySignature (m.toMapping false) (some (envelope (m.toMapping false) privateKey keyId))
      (some publicKeys) = .ok () := verifySignature_envelope hkey
  cases m with
  | release m =>
    simp only [Manifest.toMapping, ReleaseManifest.toMapping, withSignature_false] at hsig ⊢
    have hread := ReleaseManifest.fromMapping_signed (O := O) m (envelope m.fields privateKey keyId)
    have hok := verifyReleaseManifest_ok hread hm he (by
      rw [ReleaseManifest.toMapping, withSignature_false]
      exact hsig)
    simp only [verifyManifest, Manifest.kind, hok, Functor.map, Except.map, Manifest.signed]
  | update m =>
    simp only [Manifest.toMapping, UpdateManifest.toMapping, withSignature_false] at hsig ⊢
    have hread := UpdateManifest.fromMapping_signed (O := O) m (envelope m.fields privateKey keyId)
    have hok := verifyUpdateManifest_ok hread hm he (by
      rw [UpdateManifest.toMapping, withSignature_false]
      exact hsig)
    simp only [verifyManifest, Manifest.kind, hok, Functor.map, Except.map, Manifest.signed]
  | rollback m =>
    simp only [Manifest.toMapping, RollbackManifest.toMapping, withSignature_false] at hsig ⊢
    have hread := RollbackManifest.fromMapping_signed (O := O) m (envelope m.fields privateKey keyId)
    have hok := verifyRollbackManifest_ok hread hm he (by
      rw [RollbackManifest.toMapping, withSignature_false]
      exact hsig)
    simp only [verifyManifest, Manifest.kind, hok, Functor.map, Except.map, Manifest.signed]

end

/-! ## What is accepted -/

namespace Manifest

def signable : Manifest → Signable
  | .release m => .releaseManifest m
  | .update m => .updateManifest m
  | .rollback m => .rollbackManifest m

/-- `from_mapping` of a kind of manifest. -/
def fromMapping (kind : Kind) (data : Value O) : Except Failure Manifest :=
  match kind with
  | .release => .release <$> ReleaseManifest.fromMapping data
  | .update => .update <$> UpdateManifest.fromMapping data
  | .rollback => .rollback <$> RollbackManifest.fromMapping data

theorem signingBytes_signable (m : Manifest) :
    m.signable.signingBytes = canonicalJsonBytes (m.toMapping false) := by
  cases m <;> rfl

theorem eq_signed {m m' : Manifest} {e : SignatureEnvelope}
    (h : m'.signable.unsigned = m.signable.unsigned) (he : m.signature = some e) : m = m'.signed e := by
  cases m <;> cases m' <;> simp only [signable, Signable.unsigned, reduceCtorEq] at h
  case release.release m m' =>
    injection h with h
    cases m; cases m'
    simp_all [signature, signed]
  case update.update m m' =>
    injection h with h
    cases m; cases m'
    simp_all [signature, signed]
  case rollback.rollback m m' =>
    injection h with h
    cases m; cases m'
    simp_all [signature, signed]

end Manifest

section

variable {sch : SignatureScheme}

/-- A manifest that is accepted is the one that was read, and it is signed. -/
theorem signed_of_verifyManifest {kind : Kind} {data : List (String × Value O)}
    {publicKeys : Option (PublicKeys sch)} {expected : Option String} {m : Manifest}
    (h : verifyManifest kind data publicKeys expected = .ok m) :
    Manifest.fromMapping kind (.mapping data) = .ok m ∧ m.kind = kind ∧
      Signed (m.toMapping false) m.signature publicKeys := by
  cases kind with
  | release =>
    obtain ⟨m', hm', rfl⟩ := Logic.map_eq_ok.1 h
    obtain ⟨m'', hread, hm'⟩ := bind_eq_ok hm'
    obtain ⟨-, -, hm'⟩ := bind_eq_ok hm'
    obtain ⟨-, -, hm'⟩ := bind_eq_ok hm'
    obtain ⟨-, -, hm'⟩ := bind_eq_ok hm'
    obtain ⟨-, -, hm'⟩ := bind_eq_ok hm'
    obtain ⟨_, hsig, hm'⟩ := bind_eq_ok hm'
    cases hm'
    refine ⟨?_, rfl, signed_of_verifySignature hsig⟩
    rw [Manifest.fromMapping, hread]
    rfl
  | update =>
    obtain ⟨m', hm', rfl⟩ := Logic.map_eq_ok.1 h
    obtain ⟨m'', hread, hm'⟩ := bind_eq_ok hm'
    obtain ⟨-, -, hm'⟩ := bind_eq_ok hm'
    obtain ⟨-, -, hm'⟩ := bind_eq_ok hm'
    obtain ⟨_, hsig, hm'⟩ := bind_eq_ok hm'
    cases hm'
    refine ⟨?_, rfl, signed_of_verifySignature hsig⟩
    rw [Manifest.fromMapping, hread]
    rfl
  | rollback =>
    obtain ⟨m', hm', rfl⟩ := Logic.map_eq_ok.1 h
    obtain ⟨m'', hread, hm'⟩ := bind_eq_ok hm'
    obtain ⟨-, -, hm'⟩ := bind_eq_ok hm'
    obtain ⟨-, -, hm'⟩ := bind_eq_ok hm'
    obtain ⟨_, hsig, hm'⟩ := bind_eq_ok hm'
    cases hm'
    refine ⟨?_, rfl, signed_of_verifySignature hsig⟩
    rw [Manifest.fromMapping, hread]
    rfl

/-- Where a signature is valid for one message only, what is accepted under a signature is the
manifest that the signature was made for. -/
theorem eq_signed_of_verifyManifest (hsch : sch.Binding) {kind : Kind} {data : List (String × Value O)}
    {publicKeys : PublicKeys sch} {expected : Option String} {m m' : Manifest} {keyId : String}
    {privateKey : sch.PrivateKey} (h : verifyManifest kind data (some publicKeys) expected = .ok m)
    (hkey : Trusted publicKeys keyId privateKey)
    (hm' : m.signature = some (envelope (m'.toMapping false) privateKey keyId)) :
    m = m'.signed (envelope (m'.toMapping false) privateKey keyId) := by
  obtain ⟨-, -, e, keys, value, key, raw, he, -, hkeys, hvalue, hkey', hraw, hverify⟩ :=
    signed_of_verifyManifest h
  obtain ⟨value', hvalue', hkey⟩ := hkey
  rw [hm'] at he
  cases he
  have htrusted : trustedKeys (some publicKeys) = .ok publicKeys := by
    cases publicKeys with
    | nil => cases hvalue'
    | cons key keys => rfl
  rw [htrusted] at hkeys
  cases hkeys
  rw [show (envelope (m'.toMapping false) privateKey keyId).keyId = keyId from rfl, hvalue'] at hvalue
  cases hvalue
  rw [hkey] at hkey'
  cases hkey'
  rw [envelope, b64decode_b64encode] at hraw
  cases hraw
  have hbytes := hsch privateKey _ _ hverify
  rw [← Manifest.signingBytes_signable, ← Manifest.signingBytes_signable] at hbytes
  exact Manifest.eq_signed (Signable.unsigned_of_signingBytes hbytes) hm'

end

end

namespace Sample

instance : Objects Empty where
  repr _ := none
  intOfStr _ := none
  int := nofun
  bool := nofun
  iter := nofun

def artifact : ReleaseArtifact where
  name := "maya"
  path := "maya.whl"
  sha256 := "00"
  sizeBytes := 1
  kind := "wheel"

def rollback : RollbackManifest where
  metadataVersion := 1
  currentVersion := "2.0"
  rollbackVersion := "1.9"
  platform := "windows-desktop"
  artifact := artifact
  sbomRef := "sbom"
  provenanceRef := "provenance"
  migrationCompatibility := "backward"
  releaseManifestRef := "release"

def privateKey : SignatureScheme.attached.PrivateKey := ([1] : Bytes)

def keys : PublicKeys SignatureScheme.attached := [("key", .key (SignatureScheme.attached.publicKey privateKey))]

def signature : SignatureEnvelope := envelope ((Manifest.rollback rollback).toMapping false) privateKey "key"

end Sample

end ProjectMaya.Release
