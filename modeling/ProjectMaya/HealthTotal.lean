import ProjectMaya.DoctorTotal
import ProjectMaya.Health

/-! # What the health summary returns

The summary needs the doctor's report and both inspections of the update metadata.  A manifest that
cannot be decoded takes all of it away (`updateMetadata_iff`). -/

namespace ProjectMaya.Health

open Logic Release
open Doctor (runDoctor)
open Facade (AgentState)
open ProjectMaya.Update (Inspects MissingOrObject Readable checkOperation checkUpdates rollbackKeys
  rollbackOperation rollbackUpdate updateKeys updatesFile)

section

variable {O : Type} [Objects O] {sch : SignatureScheme} {host : Doctor.Host O}
  {packaged : String → Bool} {config : Setup.Config}

/-- The file of an operation. -/
def manifestEntry (host : Doctor.Host O) (config : Setup.Config) (o : Update.Operation) : Entry :=
  host.entry (updatesFile (updateConfig config.toConfig) o.file)

/-- **Totality.**  The inspections handle what they read, and there is a summary whenever there is a
report, exactly when both manifests are readable. -/
theorem updateMetadata_iff {privateKey : sch.PrivateKey}
    (hkey : sch.fromPrivateBytes nonProductionTestPrivateBytes = some privateKey)
    (hvalid : config.invalid = none) (runtime : Doctor.Runtime)
    (lifecycleState : Option (Option AgentState)) (secretStore : Option Bool) :
    (Inspects host.loads (manifestEntry host config checkOperation)
        (fun data => verifyUpdateManifest data (none : Option (PublicKeys sch)) (some host.platformId))
        (checkUpdates sch (updateHost host) (updateConfig config.toConfig)) ∧
      Inspects host.loads (manifestEntry host config rollbackOperation)
        (fun data => verifyRollbackManifest data (none : Option (PublicKeys sch)) (some host.platformId))
        (rollbackUpdate sch (updateHost host) (updateConfig config.toConfig)) ∧
      (MissingOrObject host.loads (manifestEntry host config checkOperation) →
        MissingOrObject host.loads (manifestEntry host config rollbackOperation) →
        Doctor.Returns (runDoctor host config.toConfig runtime lifecycleState secretStore) →
        Doctor.Returns (summarizeHealth sch host packaged config runtime lifecycleState secretStore))) ↔
    Readable host.loads updateKeys (manifestEntry host config checkOperation) ∧
      Readable host.loads rollbackKeys (manifestEntry host config rollbackOperation) := by
  have hcheck := Update.checkUpdates_inspects (updateHost host)
    (updateConfig config.toConfig) hvalid hkey
  have hback := Update.rollbackUpdate_inspects (updateHost host)
    (updateConfig config.toConfig) hvalid hkey
  refine ⟨fun h => ⟨hcheck.1 h.1, hback.1 h.2.1⟩,
    fun h => ⟨hcheck.2 h.1, hback.2 h.2, fun hobject hobject' hreport => ?_⟩⟩
  obtain ⟨report, hreport⟩ := hreport
  obtain ⟨update, hupdate⟩ := (Update.checkUpdates_returns (updateHost host)
    (updateConfig config.toConfig) hkey).2 ⟨hvalid, h.1, hobject⟩
  obtain ⟨rollback, hrollback⟩ := (Update.rollbackUpdate_returns (updateHost host)
    (updateConfig config.toConfig) hkey).2 ⟨hvalid, h.2, hobject'⟩
  unfold Doctor.Returns summarizeHealth
  rw [hreport, hupdate, hrollback]
  exact ⟨_, rfl⟩

end

/-! ## Examples -/

namespace Sample

open Release.Sample

/-- A host whose one file is an update manifest. -/
def host (update : Entry) : Doctor.Host Empty where
  entry path := if path.parts = ["maya", "updates", "update-manifest.json"] then update else .missing
  -- the reading of the empty object is enough here
  loads text := if text = "\x7b\x7d".toList then .ok (.mapping []) else .error .jsonDecodeError
  str := fun _ => ""
  lines := fun _ => ([], false)
  diskFree := fun _ => some 1
  localVector := fun _ => none
  embeddingModelDir := none
  rules := ⟨fun _ => true, id, id⟩
  isSpace := (· = ' ')
  isAlnum := Char.isAlphanum
  system := "Linux"
  importable := fun _ => true
  command := fun _ => true
  discoverable := fun _ => true
  platformId := "linux-desktop"

def config : Setup.Config where
  toConfig := Doctor.Sample.localConfig
  edition := .standard
  brokerMode := .disabled
  networkPolicy := "offline"
  credentialRef := none
  credentialMode := fun _ => .disabled

/-- The file with the empty object. -/
def emptyObject : Entry := .file [123, 125]

/-- Without manifests, the summary is there. -/
theorem absent_summarized :
    (Inspects (host .missing).loads (manifestEntry (host .missing) config checkOperation)
        (fun data => verifyUpdateManifest data (none : Option (PublicKeys SignatureScheme.attached))
          (some (host .missing).platformId))
        (checkUpdates SignatureScheme.attached (updateHost (host .missing))
          (updateConfig config.toConfig)) ∧
      Inspects (host .missing).loads (manifestEntry (host .missing) config rollbackOperation)
        (fun data => verifyRollbackManifest data (none : Option (PublicKeys SignatureScheme.attached))
          (some (host .missing).platformId))
        (rollbackUpdate SignatureScheme.attached (updateHost (host .missing))
          (updateConfig config.toConfig)) ∧
      (MissingOrObject (host .missing).loads (manifestEntry (host .missing) config checkOperation) →
        MissingOrObject (host .missing).loads (manifestEntry (host .missing) config rollbackOperation) →
        Doctor.Returns (runDoctor (host .missing) config.toConfig ⟨true, true⟩ none none) →
        Doctor.Returns (summarizeHealth SignatureScheme.attached (host .missing) (fun _ => true) config
          ⟨true, true⟩ none none))) := by
  refine (updateMetadata_iff rfl rfl ⟨true, true⟩ none none).2 ⟨⟨trivial, fun _ h => ?_⟩, trivial, fun _ h => ?_⟩
  · cases h
  · cases h

/-- The empty object is a JSON object, and raises a `KeyError`. -/
theorem emptyObject_raises :
    readJson (host emptyObject).loads (manifestEntry (host emptyObject) config checkOperation) =
        .ok (.mapping []) ∧
      checkUpdates SignatureScheme.attached (updateHost (host emptyObject))
          (updateConfig config.toConfig) = .error (.release (.keyError "metadata_version")) ∧
      ¬ Inspects (host emptyObject).loads (manifestEntry (host emptyObject) config checkOperation)
        (fun data => verifyUpdateManifest data (none : Option (PublicKeys SignatureScheme.attached))
          (some (host emptyObject).platformId))
        (checkUpdates SignatureScheme.attached (updateHost (host emptyObject))
          (updateConfig config.toConfig)) := by
  have hraised : checkUpdates SignatureScheme.attached (updateHost (host emptyObject))
      (updateConfig config.toConfig) = .error (.release (.keyError "metadata_version")) := by
    decide
  exact ⟨rfl, hraised, fun h => h.raises _ hraised⟩

end Sample

end ProjectMaya.Health
