import ProjectMaya.ReleaseRoundTrip
import ProjectMaya.Update

/-! # What the update inspection raises

The manifest is decoded by constructors that convert field by field before anything is verified.
A missing field or a value of another type leaves them as a `KeyError`, a `TypeError` or the like,
which `check_updates` and `rollback_update` do not handle (`checkUpdates_iff`). -/

namespace ProjectMaya.Update

open Logic Release

section

variable {O : Type} [Objects O]

/-! ## Fields -/

/-- A `ReleaseSignatureError` or a `ReleaseMetadataError`. -/
def Handled : Release.Failure → Prop
  | .signature _ | .metadata _ => True
  | _ => False

/-- The field is there, and can be read. -/
def HasField {α : Type} (read : Value O → Except Release.Failure α) (data : List (String × Value O))
    (key : String) : Prop := ∃ v a, Value.lookup key data = some v ∧ read v = .ok a

omit [Objects O] in
theorem raisesOnly_orRaise {α : Type} {p : Release.Failure → Prop} {e : Release.Failure}
    {x : Option α} : RaisesOnly p (Value.orRaise e x) ↔ (x = none → p e) := by
  cases x with
  | none =>
    refine raisesOnly_error.trans ⟨fun h _ => h, fun h => h rfl⟩
  | some a => exact raisesOnly_ok.trans ⟨fun _ h => (by cases h), fun _ => trivial⟩

/-- What is raised is nothing that is handled. -/
def Unhandled {α : Type} (read : Value O → Except Release.Failure α) : Prop :=
  ∀ v, RaisesOnly (fun e => ¬ Handled e) (read v)

theorem toStr_raises (v : Value O) : RaisesOnly (· = Release.Failure.valueError) v.toStr := by
  cases v with
  | list items => exact raisesOnly_orRaise.2 fun _ => rfl
  | mapping items => exact raisesOnly_orRaise.2 fun _ => rfl
  | object o => exact raisesOnly_orRaise.2 fun _ => rfl
  | _ => exact raisesOnly_ok.2 trivial

theorem unhandled_toStr : Unhandled (Value.toStr (O := O)) := by
  intro v
  refine (toStr_raises v).mono fun e he h => ?_
  rw [he] at h
  exact h

theorem unhandled_toInt : Unhandled (Value.toInt (O := O)) := by
  intro v
  cases v with
  | str s => exact raisesOnly_orRaise.2 fun _ h => h
  | object o => exact raisesOnly_orRaise.2 fun _ h => h
  | bool b => exact raisesOnly_ok.2 trivial
  | int n => exact raisesOnly_ok.2 trivial
  | _ => exact raisesOnly_error.2 fun h => h

omit [Objects O] in
theorem unhandled_item (key : String) : Unhandled (fun v : Value O => v.item key) := by
  intro v
  cases v with
  | mapping items => exact raisesOnly_orRaise.2 fun _ h => h
  | _ => exact raisesOnly_error.2 fun h => h

omit [Objects O] in
theorem item_mapping {data : List (String × Value O)} {key : String} {v : Value O} :
    (Value.mapping data).item key = .ok v ↔ Value.lookup key data = some v := by
  show Value.orRaise _ _ = _ ↔ _
  cases Value.lookup key data with
  | none => simp [Value.orRaise]
  | some w => simp [Value.orRaise]

omit [Objects O] in
/-- One field: it has to be there, and what is read of it goes on. -/
theorem field_step {α β : Type} {read : Value O → Except Release.Failure α} (hread : Unhandled read)
    {data : List (String × Value O)} {key : String} {f : α → Except Release.Failure β} :
    RaisesOnly Handled ((Value.mapping data).item key >>= fun v => read v >>= f) ↔
      ∃ a, (∃ v, Value.lookup key data = some v ∧ read v = .ok a) ∧ RaisesOnly Handled (f a) := by
  simp only [raisesOnly_bind, item_mapping]
  cases hv : Value.lookup key data with
  | none =>
    have hraised : (Value.mapping data).item key = .error (.keyError key) := by
      show Value.orRaise _ _ = _
      rw [hv]
      rfl
    rw [hraised, raisesOnly_error]
    simp [Handled]
  | some v =>
    have hitem := item_mapping.2 hv
    rw [hitem]
    simp only [raisesOnly_ok, Option.some.injEq, forall_eq', true_and, exists_eq_left']
    cases ha : read v with
    | error e => simp [hread v e ha]
    | ok a => simp

/-- The artifact has its fields. -/
def HasArtifact (data : List (String × Value O)) : Prop :=
  ∃ artifact, Value.lookup "artifact" data = some (.mapping artifact) ∧
    (∀ key ∈ ["name", "path", "sha256", "kind"], HasField Value.toStr artifact key) ∧
    HasField Value.toInt artifact "size_bytes"

/-- The fields have texts, up to the first that is not there. -/
def Printable (data : List (String × Value O)) : List String → Prop
  | [] => True
  | key :: rest => ∀ v, Value.lookup key data = some v →
      (∃ s, v.toStr = .ok s) ∧ Printable data rest

/-- A manifest that can be decoded, or lacks a field of its signature: the version is a number, the
fields that are texts and the artifact are there, and what there is of the signature has texts. -/
structure Decodes (keys : List String) (data : List (String × Value O)) : Prop where
  version : HasField Value.toInt data "metadata_version"
  texts : ∀ key ∈ keys, HasField Value.toStr data key
  artifact : HasArtifact data
  signature : ∀ signature, Value.lookup "signature" data = some (.mapping signature) →
    Printable signature ["algorithm", "key_id", "signature"]

/-- What the decoding of an artifact needs. -/
theorem artifact_fromMapping {v : Value O} :
    (∃ a, ReleaseArtifact.fromMapping v = .ok a) ↔ ∃ artifact, v = .mapping artifact ∧
      (∀ key ∈ ["name", "path", "sha256", "kind"], HasField Value.toStr artifact key) ∧
      HasField Value.toInt artifact "size_bytes" := by
  cases v with
  | mapping artifact =>
    simp only [ReleaseArtifact.fromMapping, Logic.bind_eq_ok, item_mapping, pure_eq_ok, Value.mapping.injEq,
      exists_eq_left', List.forall_mem_cons, List.not_mem_nil, false_imp_iff, implies_true, and_true]
    constructor
    · rintro ⟨_, v₁, h₁, s₁, t₁, v₂, h₂, s₂, t₂, v₃, h₃, s₃, t₃, v₄, h₄, n, t₄, v₅, h₅, s₅, t₅, -⟩
      exact ⟨⟨⟨v₁, s₁, h₁, t₁⟩, ⟨v₂, s₂, h₂, t₂⟩, ⟨v₃, s₃, h₃, t₃⟩, v₅, s₅, h₅, t₅⟩, v₄, n, h₄, t₄⟩
    · rintro ⟨⟨⟨v₁, s₁, h₁, t₁⟩, ⟨v₂, s₂, h₂, t₂⟩, ⟨v₃, s₃, h₃, t₃⟩, v₅, s₅, h₅, t₅⟩, v₄, n, h₄, t₄⟩
      exact ⟨_, v₁, h₁, s₁, t₁, v₂, h₂, s₂, t₂, v₃, h₃, s₃, t₃, v₄, h₄, n, t₄, v₅, h₅, s₅, t₅, rfl⟩
  | _ =>
    refine ⟨fun h => ?_, fun h => ?_⟩
    · obtain ⟨a, ha⟩ := h
      simp only [ReleaseArtifact.fromMapping, Logic.bind_eq_ok] at ha
      obtain ⟨_, hitem, -⟩ := ha
      cases hitem
    · obtain ⟨_, h, -⟩ := h
      cases h

theorem unhandled_artifact : Unhandled (ReleaseArtifact.fromMapping (O := O)) := by
  intro v
  simp only [ReleaseArtifact.fromMapping, raisesOnly_bind, raisesOnly_pure, implies_true, and_true]
  refine ⟨unhandled_item _ v, fun a _ => ⟨unhandled_toStr a, fun _ _ => ⟨unhandled_item _ v, fun b _ =>
    ⟨unhandled_toStr b, fun _ _ => ⟨unhandled_item _ v, fun c _ => ⟨unhandled_toStr c, fun _ _ =>
      ⟨unhandled_item _ v, fun d _ => ⟨unhandled_toInt d, fun _ _ => ⟨unhandled_item _ v, fun e _ =>
        unhandled_toStr e⟩⟩⟩⟩⟩⟩⟩⟩⟩

theorem hasArtifact_iff {data : List (String × Value O)} :
    HasArtifact data ↔
      ∃ a v, Value.lookup "artifact" data = some v ∧ ReleaseArtifact.fromMapping v = .ok a := by
  unfold HasArtifact
  constructor
  · rintro ⟨artifact, hlookup, hfields⟩
    obtain ⟨a, ha⟩ := artifact_fromMapping.2 ⟨artifact, rfl, hfields⟩
    exact ⟨a, _, hlookup, ha⟩
  · rintro ⟨a, v, hlookup, ha⟩
    obtain ⟨artifact, rfl, hfields⟩ := artifact_fromMapping.1 ⟨a, ha⟩
    exact ⟨artifact, hlookup, hfields⟩

/-- One field of the signature: if it is there, then it has a text. -/
theorem printable_step {β : Type} {p : Release.Failure → Prop} (hkey : ∀ key, p (.keyError key))
    (hvalue : ¬ p .valueError) {data : List (String × Value O)} {key : String} {rest : List String}
    {f : String → Except Release.Failure β} (h : ∀ s, RaisesOnly p (f s) ↔ Printable data rest) :
    RaisesOnly p ((Value.mapping data).item key >>= fun v => v.toStr >>= f) ↔
      Printable data (key :: rest) := by
  have hitem : RaisesOnly p ((Value.mapping data).item key) := raisesOnly_orRaise.2 fun _ => hkey key
  rw [raisesOnly_bind, Printable, and_iff_right hitem]
  refine forall_congr' fun v => imp_congr item_mapping ?_
  rw [raisesOnly_bind]
  cases hs : v.toStr with
  | error e =>
    have he := toStr_raises v e hs
    subst he
    simp [hvalue]
  | ok s => simp [h]

/-- A signature that lacks a field is handled; what is not there is not read. -/
theorem signatureFrom_handled (v : Value O) :
    RaisesOnly Handled (signatureFrom v) ↔
      ∀ signature, v = .mapping signature → Printable signature ["algorithm", "key_id", "signature"] := by
  cases v with
  | mapping signature =>
    simp only [signatureFrom, raisesOnly_map, Value.mapping.injEq, forall_eq']
    unfold SignatureEnvelope.fromMapping
    rw [raisesOnly_mapError]
    exact printable_step (fun _ => trivial) id fun _ => printable_step (fun _ => trivial) id fun _ =>
      printable_step (fun _ => trivial) id fun _ => raisesOnly_pure
  | _ => simp [signatureFrom]

omit [Objects O] in
theorem hasField_iff {α : Type} {read : Value O → Except Release.Failure α}
    {data : List (String × Value O)} {key : String} :
    HasField read data key ↔ ∃ a v, Value.lookup key data = some v ∧ read v = .ok a := exists_comm

omit [Objects O] in
theorem getD_mapping {x : Option (Value O)} {data : List (String × Value O)} :
    x.getD .none = .mapping data ↔ x = some (.mapping data) := by
  cases x with
  | none => simp
  | some v => simp

/-- The texts of an update manifest. -/
def updateKeys : List String :=
  ["current_version", "available_version", "platform", "sbom_ref", "provenance_ref",
    "migration_compatibility", "rollback_ref", "release_manifest_ref"]

/-- The texts of a rollback manifest. -/
def rollbackKeys : List String :=
  ["current_version", "rollback_version", "platform", "sbom_ref", "provenance_ref",
    "migration_compatibility", "release_manifest_ref"]

/-- A manifest is decoded, or its signature is rejected. -/
theorem updateManifest_handled (data : List (String × Value O)) :
    RaisesOnly Handled (UpdateManifest.fromMapping (.mapping data)) ↔
      Decodes updateKeys data := by
  have hget : (Value.mapping data).get "signature" .none =
      .ok ((Value.lookup "signature" data).getD .none) := rfl
  simp only [UpdateManifest.fromMapping, hget, ok_bind, field_step unhandled_toInt,
    field_step unhandled_toStr, field_step unhandled_artifact, raisesOnly_bind, raisesOnly_pure,
    implies_true, and_true, exists_and_right, signatureFrom_handled, getD_mapping]
  rw [← hasArtifact_iff]
  simp only [← hasField_iff]
  constructor
  · rintro ⟨hversion, h₁, h₂, h₃, hartifact, h₄, h₅, h₆, h₇, h₈, hsignature⟩
    exact ⟨hversion, by simp [updateKeys, h₁, h₂, h₃, h₄, h₅, h₆, h₇, h₈], hartifact, hsignature⟩
  · rintro ⟨hversion, htexts, hartifact, hsignature⟩
    simp only [updateKeys, List.forall_mem_cons] at htexts
    obtain ⟨h₁, h₂, h₃, h₄, h₅, h₆, h₇, h₈, -⟩ := htexts
    exact ⟨hversion, h₁, h₂, h₃, hartifact, h₄, h₅, h₆, h₇, h₈, hsignature⟩

/-- The same of a rollback manifest. -/
theorem rollbackManifest_handled (data : List (String × Value O)) :
    RaisesOnly Handled (RollbackManifest.fromMapping (.mapping data)) ↔
      Decodes rollbackKeys data := by
  have hget : (Value.mapping data).get "signature" .none =
      .ok ((Value.lookup "signature" data).getD .none) := rfl
  simp only [RollbackManifest.fromMapping, hget, ok_bind, field_step unhandled_toInt,
    field_step unhandled_toStr, field_step unhandled_artifact, raisesOnly_bind, raisesOnly_pure,
    implies_true, and_true, exists_and_right, signatureFrom_handled, getD_mapping]
  rw [← hasArtifact_iff]
  simp only [← hasField_iff]
  constructor
  · rintro ⟨hversion, h₁, h₂, h₃, hartifact, h₄, h₅, h₆, h₇, hsignature⟩
    exact ⟨hversion, by simp [rollbackKeys, h₁, h₂, h₃, h₄, h₅, h₆, h₇], hartifact, hsignature⟩
  · rintro ⟨hversion, htexts, hartifact, hsignature⟩
    simp only [rollbackKeys, List.forall_mem_cons] at htexts
    obtain ⟨h₁, h₂, h₃, h₄, h₅, h₆, h₇, -⟩ := htexts
    exact ⟨hversion, h₁, h₂, h₃, hartifact, h₄, h₅, h₆, h₇, hsignature⟩

/-! ## Verification -/

omit [Objects O] in
theorem raisesOnly_raiseIf {p : Release.Failure → Prop} {c : Prop} [Decidable c]
    {e : Release.Failure} : RaisesOnly p (raiseIf c e) ↔ (c → p e) := by
  unfold raiseIf
  by_cases h : c
  · rw [if_pos h, raisesOnly_error]
    exact ⟨fun hp _ => hp, fun hp => hp h⟩
  · rw [if_neg h, raisesOnly_ok]
    exact ⟨fun _ hc => absurd hc h, fun _ => trivial⟩

theorem verifyCommonManifest_handled (version : Int) (platform expected : String) :
    RaisesOnly Handled (verifyCommonManifest version platform (some expected)) := by
  simp only [verifyCommonManifest, raisesOnly_bind, raisesOnly_raiseIf]
  exact ⟨fun _ => trivial, fun _ _ => ⟨fun _ => trivial, fun _ _ _ => trivial⟩⟩

theorem requireUpdateRefs_handled (values : List String) :
    RaisesOnly Handled (requireUpdateRefs values) := raisesOnly_raiseIf.2 fun _ => trivial

variable {sch : SignatureScheme}

/-- The default keys are the one of the test key. -/
theorem trustedKeys_default {privateKey : sch.PrivateKey}
    (hkey : sch.fromPrivateBytes nonProductionTestPrivateBytes = some privateKey) :
    trustedKeys (none : Option (PublicKeys sch)) = .ok
      [(nonProductionTestKeyId, .str (b64encode (sch.publicBytes (sch.publicKey privateKey))))] := by
  show defaultReleasePublicKeys sch = _
  unfold defaultReleasePublicKeys
  rw [hkey]
  rfl

/-- The keys are well formed, and a signature that is not is handled. -/
theorem verifySignature_handled {privateKey : sch.PrivateKey}
    (hkey : sch.fromPrivateBytes nonProductionTestPrivateBytes = some privateKey)
    (payload : List (String × Json)) (signature : Option SignatureEnvelope) :
    RaisesOnly Handled (verifySignature payload signature (none : Option (PublicKeys sch))) := by
  cases signature with
  | none => exact raisesOnly_error.2 trivial
  | some signature =>
    simp only [verifySignature, trustedKeys_default hkey, ok_bind, raisesOnly_bind,
      raisesOnly_raiseIf, PublicKeys.get, List.find?_cons, List.find?_nil]
    refine ⟨fun _ => trivial, fun _ _ => ?_⟩
    by_cases hid : nonProductionTestKeyId = signature.keyId
    · simp only [hid, decide_true, Option.map_some, publicKeyFromValue, b64decode_b64encode,
        Value.orRaise, sch.fromPublicBytes_publicBytes, ok_bind]
      cases b64decode signature.signature with
      | none => exact raisesOnly_error.2 trivial
      | some raw => exact raisesOnly_raiseIf.2 fun _ => trivial
    · simp only [hid, decide_false, Option.map_none]
      exact raisesOnly_error.2 trivial

/-- What is raised beyond the decoding is handled. -/
theorem verifyUpdateManifest_handled {privateKey : sch.PrivateKey}
    (hkey : sch.fromPrivateBytes nonProductionTestPrivateBytes = some privateKey)
    (data : List (String × Value O)) (expected : String) :
    RaisesOnly Handled (verifyUpdateManifest data (none : Option (PublicKeys sch)) (some expected)) ↔
      Decodes updateKeys data := by
  unfold verifyUpdateManifest
  rw [raisesOnly_bind, updateManifest_handled]
  refine and_iff_left fun m _ => ?_
  simp only [raisesOnly_bind, raisesOnly_pure, verifyCommonManifest_handled,
    requireUpdateRefs_handled, verifySignature_handled hkey, implies_true, and_true]

/-- The same of a rollback manifest. -/
theorem verifyRollbackManifest_handled {privateKey : sch.PrivateKey}
    (hkey : sch.fromPrivateBytes nonProductionTestPrivateBytes = some privateKey)
    (data : List (String × Value O)) (expected : String) :
    RaisesOnly Handled (verifyRollbackManifest data (none : Option (PublicKeys sch)) (some expected)) ↔
      Decodes rollbackKeys data := by
  unfold verifyRollbackManifest
  rw [raisesOnly_bind, rollbackManifest_handled]
  refine and_iff_left fun m _ => ?_
  simp only [raisesOnly_bind, raisesOnly_pure, verifyCommonManifest_handled,
    requireUpdateRefs_handled, verifySignature_handled hkey, implies_true, and_true]

/-! ## Inspection -/

/-- It is an `UpdateError`. -/
def IsUpdateError : Failure → Prop
  | .update _ => True
  | _ => False

/-- If there is a file that can be read, it is legible, and if it is a JSON object then the manifest
in it can be decoded. -/
def Readable (loads : Loads O) (keys : List String) (entry : Entry) : Prop :=
  Legible loads entry ∧ ∀ data, readJson loads entry = .ok (.mapping data) → Decodes keys data

/-- There is no file, or a JSON object in it. -/
def MissingOrObject (loads : Loads O) (entry : Entry) : Prop :=
  entry = .missing ∨ ∃ data, readJson loads entry = .ok (.mapping data)

variable {host : Host O} {config : Config} {o : Operation}
  {verify : List (String × Value O) → Except Release.Failure (PurePath → UpdateStatus)}

omit [Objects O] in
theorem readJsonObject_raises {loads : Loads O} {entry : Entry} :
    RaisesOnly IsUpdateError (readJsonObject loads entry) ↔ Legible loads entry := by
  have hmembers : ∀ value : Value O, RaisesOnly IsUpdateError (members value) := by
    intro value
    cases value with
    | mapping data => exact raisesOnly_ok.2 trivial
    | _ => exact raisesOnly_error.2 trivial
  have hread : ∀ e : ReadError, IsUpdateError (if e.isUnreadable then
      .update "update metadata is unreadable" else .read e) ↔ e.isUnreadable = true := by
    intro e
    by_cases he : e.isUnreadable = true <;> simp [he, IsUpdateError]
  simp only [readJsonObject, raisesOnly_bind, raisesOnly_ensure, raisesOnly_mapError, hmembers,
    implies_true, and_true, legible_iff, hread]
  cases entry with
  | file content => exact ⟨fun h => h.2 () (ensure_pos rfl), fun h => ⟨.inr trivial, fun _ _ => h⟩⟩
  | _ => exact ⟨fun _ => raisesOnly_error.2 rfl, fun h => ⟨.inr trivial, fun _ _ => h⟩⟩

omit [Objects O] in
theorem readJsonObject_eq_ok {loads : Loads O} {entry : Entry} {data : List (String × Value O)} :
    readJsonObject loads entry = .ok data ↔ readJson loads entry = .ok (.mapping data) := by
  have hmembers : ∀ value : Value O, members value = .ok data ↔ value = .mapping data := by
    intro value
    cases value <;> simp [members]
  simp only [readJsonObject, Logic.bind_eq_ok, ensure_eq_ok, mapError_eq_ok, hmembers, exists_eq_right]
  constructor
  · rintro ⟨-, -, h⟩
    exact h
  · intro h
    refine ⟨(), ?_, h⟩
    cases entry with
    | file content => rfl
    | _ => cases h

/-- An inspection raises nothing but `UpdateError` exactly when the file is readable. -/
theorem inspect_raises {keys : List String} (hvalid : config.invalid = none)
    (hverify : ∀ data, RaisesOnly Handled (verify data) ↔ Decodes keys data) :
    RaisesOnly IsUpdateError (inspect host config o verify) ↔
      Readable host.loads keys (host.entry (updatesFile config o.file)) := by
  unfold inspect Readable
  simp only [hvalid]
  generalize host.entry (updatesFile config o.file) = entry
  cases hpresent : entry.present with
  | false =>
    have hmissing : entry = .missing := by
      cases entry with
      | missing => rfl
      | _ => cases hpresent
    subst hmissing
    refine ⟨fun _ => ⟨trivial, fun _ h => ?_⟩, fun _ => raisesOnly_ok.2 trivial⟩
    cases h
  | true =>
    simp only [Bool.not_true, Bool.false_eq_true, if_false, raisesOnly_bind, readJsonObject_raises,
      readJsonObject_eq_ok, ← hverify]
    refine and_congr_right fun _ => forall₂_congr fun data _ => ?_
    cases verify data with
    | ok status => simp
    | error e => cases e <;> simp [Handled, IsUpdateError]

omit [Objects O] in
/-- What an inspection that returns has found: no manifest, one that was verified, or one that was
not. -/
theorem inspect_cases {status : UpdateStatus} (h : inspect host config o verify = .ok status) :
    (host.entry (updatesFile config o.file) = .missing ∧
      status = o.rejected (updatesFile config o.file) "unavailable" o.unavailable) ∨
    ∃ data, readJson host.loads (host.entry (updatesFile config o.file)) = .ok (.mapping data) ∧
      ((∃ made, verify data = .ok made ∧ status = made (updatesFile config o.file)) ∨
        (∀ made, verify data ≠ .ok made) ∧
          ∃ text ∈ ["signature_rejected", "metadata_rejected"], ∃ action,
            status = o.rejected (updatesFile config o.file) text action) := by
  unfold inspect at h
  cases hinvalid : config.invalid with
  | some message =>
    simp only [hinvalid] at h
    cases h
  | none =>
    simp only [hinvalid] at h
    cases hpresent : (host.entry (updatesFile config o.file)).present with
    | false =>
      rw [hpresent] at h
      cases h
      refine .inl ⟨?_, rfl⟩
      cases hentry : host.entry (updatesFile config o.file) with
      | missing => rfl
      | _ =>
        rw [hentry] at hpresent
        cases hpresent
    | true =>
      rw [hpresent] at h
      obtain ⟨data, hread, hstatus⟩ := Logic.bind_eq_ok.1 h
      refine .inr ⟨data, readJsonObject_eq_ok.1 hread, ?_⟩
      cases hverified : verify data with
      | ok made =>
        rw [hverified] at hstatus
        cases hstatus
        exact .inl ⟨made, rfl, rfl⟩
      | error e =>
        rw [hverified] at hstatus
        refine .inr ⟨fun _ hmade => (by cases hmade), ?_⟩
        cases e <;> cases hstatus
        · exact ⟨_, List.mem_cons_of_mem _ List.mem_cons_self, _, rfl⟩
        · exact ⟨_, List.mem_cons_self, _, rfl⟩

omit [Objects O] in
/-- A status that says supported is the one of what was verified. -/
theorem supported_of_inspect {status : UpdateStatus} (h : inspect host config o verify = .ok status)
    (hsupported : status.supported = true) :
    ∃ data made, readJson host.loads (host.entry (updatesFile config o.file)) = .ok (.mapping data) ∧
      verify data = .ok made ∧ status = made (updatesFile config o.file) := by
  obtain ⟨-, rfl⟩ | ⟨data, hread, ⟨made, hmade, hstatus⟩ | ⟨-, _, -, _, rfl⟩⟩ := inspect_cases h
  · cases hsupported
  · exact ⟨data, made, hread, hmade, hstatus⟩
  · cases hsupported

/-- The inspection of nothing, or of a JSON object that can be decoded, returns. -/
theorem inspect_returns {keys : List String} (hvalid : config.invalid = none)
    (hverify : ∀ data, RaisesOnly Handled (verify data) ↔ Decodes keys data)
    (hreadable : Readable host.loads keys (host.entry (updatesFile config o.file)))
    (hobject : MissingOrObject host.loads (host.entry (updatesFile config o.file))) :
    ∃ status, inspect host config o verify = .ok status := by
  unfold inspect
  simp only [hvalid]
  rcases hobject with hmissing | ⟨data, hdata⟩
  · rw [hmissing]
    exact ⟨_, rfl⟩
  · rw [readJsonObject_eq_ok.2 hdata, ok_bind]
    have hhandled := (hverify data).2 (hreadable.2 data hdata)
    split
    · exact ⟨_, rfl⟩
    · cases hverified : verify data with
      | ok status => exact ⟨_, rfl⟩
      | error e =>
        have he := hhandled e hverified
        cases e with
        | signature _ => exact ⟨_, rfl⟩
        | metadata _ => exact ⟨_, rfl⟩
        | _ => cases he

/-- There is a status exactly on a valid configuration, of no manifest or of one that is a JSON object
and can be decoded. -/
theorem inspect_returns_iff {keys : List String}
    (hverify : ∀ data, RaisesOnly Handled (verify data) ↔ Decodes keys data) :
    (∃ status, inspect host config o verify = .ok status) ↔
      config.invalid = none ∧ Readable host.loads keys (host.entry (updatesFile config o.file)) ∧
        MissingOrObject host.loads (host.entry (updatesFile config o.file)) := by
  constructor
  · rintro ⟨status, hstatus⟩
    have hvalid : config.invalid = none := by
      cases hinvalid : config.invalid with
      | none => rfl
      | some message =>
        unfold inspect at hstatus
        simp only [hinvalid] at hstatus
        cases hstatus
    refine ⟨hvalid, (inspect_raises hvalid hverify).1 ?_, ?_⟩
    · rw [hstatus]
      exact raisesOnly_ok.2 trivial
    · obtain ⟨hmissing, -⟩ | ⟨data, hread, -⟩ := inspect_cases hstatus
      · exact .inl hmissing
      · exact .inr ⟨data, hread⟩
  · rintro ⟨hvalid, hreadable, hobject⟩
    exact inspect_returns hvalid hverify hreadable hobject

/-- An inspection of a manifest raises nothing but `UpdateError`, and says supported only if the
manifest verified. -/
structure Inspects {α : Type} (loads : Loads O) (entry : Entry)
    (verify : List (String × Value O) → Except Release.Failure α) (x : Except Failure UpdateStatus) :
    Prop where
  raises : RaisesOnly IsUpdateError x
  supported : ∀ status, x = .ok status → status.supported = true →
    ∃ data manifest, readJson loads entry = .ok (.mapping data) ∧ verify data = .ok manifest

theorem inspects_iff {α : Type} {decode : List (String × Value O) → Except Release.Failure α}
    {report : α → PurePath → UpdateStatus} {keys : List String} (hvalid : config.invalid = none)
    (hdecode : ∀ data, RaisesOnly Handled (decode data) ↔ Decodes keys data) :
    Inspects host.loads (host.entry (updatesFile config o.file)) decode
        (inspect host config o fun data => report <$> decode data) ↔
      Readable host.loads keys (host.entry (updatesFile config o.file)) := by
  have hraises : RaisesOnly IsUpdateError (inspect host config o fun data => report <$> decode data) ↔
      Readable host.loads keys (host.entry (updatesFile config o.file)) :=
    inspect_raises hvalid fun data => raisesOnly_map.trans (hdecode data)
  refine ⟨fun h => hraises.1 h.raises, fun h => ⟨hraises.2 h, fun status hok hsupported => ?_⟩⟩
  obtain ⟨data, _, hread, hverified, -⟩ := supported_of_inspect hok hsupported
  obtain ⟨manifest, hmanifest, -⟩ := Logic.map_eq_ok.1 hverified
  exact ⟨data, manifest, hread, hmanifest⟩

section

variable (host config) (hvalid : config.invalid = none) {privateKey : sch.PrivateKey}
  (hkey : sch.fromPrivateBytes nonProductionTestPrivateBytes = some privateKey)

include hvalid hkey

theorem checkUpdates_inspects :
    Inspects host.loads (host.entry (updatesFile config checkOperation.file))
        (fun data => verifyUpdateManifest data (none : Option (PublicKeys sch)) (some host.platform))
        (checkUpdates sch host config) ↔
      Readable host.loads updateKeys (host.entry (updatesFile config checkOperation.file)) :=
  inspects_iff hvalid fun data => verifyUpdateManifest_handled hkey data host.platform

theorem rollbackUpdate_inspects :
    Inspects host.loads (host.entry (updatesFile config rollbackOperation.file))
        (fun data => verifyRollbackManifest data (none : Option (PublicKeys sch)) (some host.platform))
        (rollbackUpdate sch host config) ↔
      Readable host.loads rollbackKeys (host.entry (updatesFile config rollbackOperation.file)) :=
  inspects_iff hvalid fun data => verifyRollbackManifest_handled hkey data host.platform

omit hvalid

theorem checkUpdates_returns :
    (∃ status, checkUpdates sch host config = .ok status) ↔
      config.invalid = none ∧
        Readable host.loads updateKeys (host.entry (updatesFile config checkOperation.file)) ∧
        MissingOrObject host.loads (host.entry (updatesFile config checkOperation.file)) :=
  inspect_returns_iff fun data =>
    raisesOnly_map.trans (verifyUpdateManifest_handled hkey data host.platform)

theorem rollbackUpdate_returns :
    (∃ status, rollbackUpdate sch host config = .ok status) ↔
      config.invalid = none ∧
        Readable host.loads rollbackKeys (host.entry (updatesFile config rollbackOperation.file)) ∧
        MissingOrObject host.loads (host.entry (updatesFile config rollbackOperation.file)) :=
  inspect_returns_iff fun data =>
    raisesOnly_map.trans (verifyRollbackManifest_handled hkey data host.platform)

end

end

end ProjectMaya.Update
