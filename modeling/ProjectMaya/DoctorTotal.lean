import ProjectMaya.Doctor
import ProjectMaya.ReleaseRoundTrip
import ProjectMaya.Logic.Raises

/-! # When the doctor reports

One damaged file can hide every finding: `run_doctor` returns a report exactly when every file
that it reads raises only what its check handles (`runDoctor_returns_iff`). -/

namespace ProjectMaya.Doctor

open Logic Release
open ProjectMaya.Configuration (ComponentProfile)
open Facade (AgentState)

section

variable {O : Type} [Objects O] (host : Host O) (config : Config)

/-- The computation returns. -/
def Returns {ε α : Type} (x : Except ε α) : Prop := ∃ a, x = .ok a

/-! ## What has to be legible -/

omit [Objects O] in
/-- `records.json`, if the retriever keeps its records there. -/
def StoreLegible : Prop :=
  config.retriever = "local_json" → Legible host.loads (host.entry (memoryFile config "records.json"))

/-- `int` of a field of the manifest. -/
def HasInt (fields : List (String × Value O)) (key : String) (default : Int) : Prop :=
  Returns ((Value.lookup key fields).getD (.int default)).toInt

omit [Objects O] in
/-- A file that the manifest pins can be read. -/
def PinnedLegible (modelDir : PurePath) (files : List (String × Value O)) (name : String) : Prop :=
  ∀ expected, Value.lookup name files = some (.str expected) → expected.length = 64 →
    host.entry (child modelDir name) ≠ .unreadable

/-- The model's manifest names a model, and a version of it. -/
def Pinned (fields : List (String × Value O)) : Prop :=
  (∀ key ∈ ["model_id", "revision", "license"],
    host.str ((Value.lookup key fields).getD (.str "")) ≠ "") ∧
  startsWith (host.str ((Value.lookup "source" fields).getD (.str ""))) "https://" = true ∧
  ∀ n, ((Value.lookup "dimension" fields).getD (.int 0)).toInt = .ok n → 1 ≤ n

/-- The manifest of an embedding model is an object with numbers for its numbers, and the files
that it pins can be read, as far as they are looked at. -/
structure ManifestLegible (modelDir : PurePath) (fields : List (String × Value O)) : Prop where
  dimension : HasInt fields "dimension" 0
  maxLength : HasInt fields "max_length" 256
  files : Pinned host fields → ∀ files, Value.lookup "files" fields = some (.mapping files) →
    PinnedLegible host modelDir files "model.onnx" ∧
      (Returns (verifiedFile host modelDir files "model.onnx") →
        PinnedLegible host modelDir files "tokenizer.json")

/-- The embedding model, if the retriever uses one. -/
def ModelLegible : Prop :=
  config.retriever = "local_vector" → ∀ modelDir, host.embeddingModelDir = some modelDir →
    (host.entry modelDir).isDir = true →
    let manifest := host.entry (child modelDir "embedding-model-manifest.json")
    Legible host.loads manifest ∧ ∀ value, readJson host.loads manifest = .ok value →
      ∃ fields, value = .mapping fields ∧ ManifestLegible host modelDir fields

omit [Objects O] in
/-- The policy does not exceed the depth of `json.loads`. -/
def PolicyLegible : Prop := readJson host.loads (host.entry config.policyFile) ≠ .error .recursionError

omit [Objects O] in
/-- Up to the first line that is no JSON, the lines are within the limits of `json.loads`, and if
all are JSON then the file is UTF-8 to its end. -/
def LinesLegible (undecodable : Bool) : List (List Char) → Prop
  | [] => undecodable = false
  | line :: rest =>
    if line.all host.isSpace then LinesLegible undecodable rest
    else (∀ e, host.loads line = .error e → e.isUnreadable = true) ∧
      (Returns (host.loads line) → LinesLegible undecodable rest)

omit [Objects O] in
/-- The lines of the runtime audit log. -/
def LogLegible : Prop :=
  ∀ content, host.entry (child (auditDir config) "runtime.jsonl") = .file content →
    LinesLegible host (host.lines content).2 (host.lines content).1

omit [Objects O] in
/-- With the metabase profile, the endpoint is a URL, and the sources have names. -/
def MetabaseLegible : Prop :=
  .metabase ∈ config.enabledProfiles →
    (∀ endpoint, config.metabase.endpoint = some endpoint →
      Url.urlsplit host.rules endpoint.toList ≠ none) ∧
    ∀ source ∈ config.metabase.analyticsSources, identifierText host source ≠ []

structure AllLegible : Prop where
  store : StoreLegible host config
  model : ModelLegible host config
  policy : PolicyLegible host config
  log : LogLegible host config
  metabase : MetabaseLegible host config

/-! ## The checks -/

omit [Objects O] in
theorem memoryStoreCheck_returns :
    Returns (memoryStoreCheck host config) ↔ StoreLegible host config := by
  unfold memoryStoreCheck StoreLegible Returns
  by_cases hv : config.retriever = "local_vector"
  · rw [if_pos hv]
    refine ⟨fun _ hj => ?_, fun _ => ⟨_, rfl⟩⟩
    rw [hv] at hj
    exact absurd hj (by decide)
  · rw [if_neg hv]
    by_cases hj : config.retriever = "local_json"
    · rw [if_neg (not_not.2 hj)]
      simp only [hj, forall_true_left]
      generalize host.entry (memoryFile config "records.json") = entry
      rw [legible_iff]
      cases hp : entry.present with
      | false =>
        cases entry <;> cases hp
        refine ⟨fun _ e he => ?_, fun _ => ⟨_, rfl⟩⟩
        cases he
        rfl
      | true =>
        simp only [Bool.not_true, Bool.false_eq_true, if_false]
        cases readJson host.loads entry with
        | error e =>
          rw [raisesOnly_error]
          by_cases he : e.isUnreadable = true <;> simp [he]
        | ok value => cases value <;> simp
    · rw [if_pos hj]
      exact ⟨fun _ h => absurd h hj, fun _ => ⟨_, rfl⟩⟩

/-- It raises only what `inspect_embedding_model` handles. -/
def Blocked : Exn → Prop
  | .embeddingModel _ => True
  | _ => False

omit [Objects O] in
theorem verifiedFile_blocked {modelDir : PurePath} {files : List (String × Value O)} {name : String} :
    RaisesOnly Blocked (verifiedFile host modelDir files name) ↔
      PinnedLegible host modelDir files name := by
  unfold verifiedFile PinnedLegible
  generalize host.entry (child modelDir name) = path
  simp only [raisesOnly_bind, raisesOnly_fetch, raisesOnly_ensure, Blocked, fetch_eq_ok, ensure_eq_ok]
  cases Value.lookup name files with
  | none => simp [text?]
  | some value =>
    cases value with
    | str expected =>
      simp only [text?, Option.some.injEq, Value.str.injEq, forall_eq']
      constructor
      · rintro h hlen rfl
        exact (h.2.2 () ⟨hlen, rfl⟩).1 rfl
      · intro h
        refine ⟨fun _ => trivial, .inr trivial, fun _ hfile => ⟨fun hnone => h hfile.1 ?_, ?_⟩⟩
        · cases path with
          | unreadable => rfl
          | file content => cases hnone
          | _ => cases hfile.2
        · exact fun _ _ => .inr trivial
    | _ => simp [text?]

omit [Objects O] in
theorem verifyFiles_blocked {modelDir : PurePath} {value : Value O} :
    RaisesOnly Blocked (verifyFiles host modelDir value) ↔
      ∀ files, value = .mapping files → PinnedLegible host modelDir files "model.onnx" ∧
        (Returns (verifiedFile host modelDir files "model.onnx") →
          PinnedLegible host modelDir files "tokenizer.json") := by
  cases value with
  | mapping files =>
    simp only [verifyFiles, raisesOnly_bind, verifiedFile_blocked, Value.mapping.injEq, forall_eq']
    refine and_congr_right fun _ => ⟨fun h => ?_, fun h u hu => h ⟨u, hu⟩⟩
    rintro ⟨u, hu⟩
    exact h u hu
  | _ => simp [verifyFiles, Blocked]

omit [Objects O] in
theorem manifestText_blocked {manifest : Value O} {key : String} :
    RaisesOnly Blocked (manifestText host manifest key) ↔ ∃ fields, manifest = .mapping fields := by
  unfold manifestText raising
  rw [raisesOnly_bind, raisesOnly_mapError]
  cases manifest <;> simp [Value.get, Blocked]

omit [Objects O] in
theorem manifestText_mapping (fields : List (String × Value O)) (key : String) :
    manifestText host (.mapping fields) key =
      .ok (host.str ((Value.lookup key fields).getD (.str ""))) := rfl

theorem manifestInt_mapping (fields : List (String × Value O)) (key : String) (default : Int) :
    manifestInt (.mapping fields) key default =
      raising ((Value.lookup key fields).getD (.int default)).toInt := rfl

theorem manifestInt_blocked {fields : List (String × Value O)} {key : String} {default : Int} :
    RaisesOnly Blocked (manifestInt (.mapping fields) key default) ↔ HasInt fields key default := by
  rw [manifestInt_mapping, raising, raisesOnly_mapError, HasInt, Returns, returns_iff]
  rfl

theorem manifestInt_eq_ok {fields : List (String × Value O)} {key : String} {default n : Int} :
    manifestInt (.mapping fields) key default = .ok n ↔
      ((Value.lookup key fields).getD (.int default)).toInt = .ok n := by
  rw [manifestInt_mapping, raising, mapError_eq_ok]

/-- The model of a manifest that is an object. -/
theorem pinnedModel_mapping {modelDir : PurePath} {fields : List (String × Value O)}
    (hread : readModelManifest host modelDir = .ok (.mapping fields)) :
    RaisesOnly Blocked (pinnedModel host modelDir) ↔ ManifestLegible host modelDir fields := by
  have hpinned : ∀ n, ((Value.lookup "dimension" fields).getD (.int 0)).toInt = .ok n →
      (Pinned host fields ↔
        host.str ((Value.lookup "model_id" fields).getD (.str "")) ≠ "" ∧
          host.str ((Value.lookup "revision" fields).getD (.str "")) ≠ "" ∧
          host.str ((Value.lookup "license" fields).getD (.str "")) ≠ "" ∧
          startsWith (host.str ((Value.lookup "source" fields).getD (.str ""))) "https://" = true ∧
          1 ≤ n) := by
    intro n hn
    simp only [Pinned, hn, Except.ok.injEq, forall_eq', List.forall_mem_cons, List.not_mem_nil,
      false_imp_iff, implies_true, and_true, and_assoc]
  have hget : raising ((Value.mapping fields).get "files" .none) =
      .ok ((Value.lookup "files" fields).getD .none) := rfl
  simp only [pinnedModel, hread, manifestText_mapping, ok_bind, raisesOnly_bind, manifestInt_blocked,
    manifestInt_eq_ok, raisesOnly_ensure, ensure_eq_ok, hget, verifyFiles_blocked]
  constructor
  · rintro ⟨⟨n, hn⟩, h⟩
    obtain ⟨⟨m, hm⟩, h⟩ := h n hn
    refine ⟨⟨n, hn⟩, ⟨m, hm⟩, fun hp files hfiles => ?_⟩
    refine (h m hm).2 () ((hpinned n hn).1 hp) files ?_
    rw [hfiles]
    rfl
  · intro h
    refine ⟨h.dimension, fun n hn => ⟨h.maxLength, fun m _ => ⟨.inr trivial, fun _ hp files hf => ?_⟩⟩⟩
    refine h.files ((hpinned n hn).2 hp) files ?_
    cases hl : Value.lookup "files" fields with
    | none =>
      rw [hl] at hf
      cases hf
    | some value =>
      rw [hl] at hf
      exact congrArg some hf

theorem pinnedModel_blocked {modelDir : PurePath} :
    RaisesOnly Blocked (pinnedModel host modelDir) ↔
      Legible host.loads (host.entry (child modelDir "embedding-model-manifest.json")) ∧
        ∀ value, readJson host.loads (host.entry (child modelDir "embedding-model-manifest.json")) =
            .ok value → ∃ fields, value = .mapping fields ∧ ManifestLegible host modelDir fields := by
  rw [legible_iff]
  have hmanifest : readModelManifest host modelDir = (readJson host.loads
      (host.entry (child modelDir "embedding-model-manifest.json"))).mapError fun e =>
        if e.isUnreadable then .embeddingModel "embedding model manifest is unavailable"
        else .read e := rfl
  revert hmanifest
  cases readJson host.loads (host.entry (child modelDir "embedding-model-manifest.json")) with
  | error e =>
    intro hmanifest
    have hraised : pinnedModel host modelDir = .error (if e.isUnreadable then
        .embeddingModel "embedding model manifest is unavailable" else .read e) := by
      unfold pinnedModel
      rw [hmanifest]
      rfl
    rw [hraised, raisesOnly_error, raisesOnly_error]
    by_cases he : e.isUnreadable = true
    · simp [he, Blocked]
    · simp [he, Blocked]
  | ok value =>
    intro hmanifest
    simp only [raisesOnly_ok, true_and, Except.ok.injEq, forall_eq']
    constructor
    · intro h
      unfold pinnedModel at h
      rw [hmanifest, raisesOnly_bind] at h
      obtain ⟨fields, rfl⟩ := (manifestText_blocked host).1 (raisesOnly_bind.1 (h.2 value rfl)).1
      refine ⟨fields, rfl, (pinnedModel_mapping host hmanifest).1 ?_⟩
      unfold pinnedModel
      rw [hmanifest, raisesOnly_bind]
      exact h
    · rintro ⟨fields, rfl, hlegible⟩
      exact (pinnedModel_mapping host hmanifest).2 hlegible

theorem embeddingModelCheck_returns :
    Returns (embeddingModelCheck host config) ↔ ModelLegible host config := by
  unfold embeddingModelCheck ModelLegible Returns
  by_cases hv : config.retriever = "local_vector"
  · rw [if_neg (not_not.2 hv), returns_iff, raisesOnly_bind]
    simp only [hv, forall_true_left, raisesOnly_pure, implies_true, and_true]
    unfold inspectEmbeddingModel
    cases host.embeddingModelDir with
    | none => simp
    | some modelDir =>
      simp only [Option.some.injEq, forall_eq']
      by_cases hdir : (host.entry modelDir).isDir = true
      · simp only [hdir, Bool.not_true, Bool.false_eq_true, if_false, forall_true_left,
          ← pinnedModel_blocked]
        cases pinnedModel host modelDir with
        | ok _ => simp
        | error e => cases e <;> simp [Blocked]
      · simp [hdir]
  · rw [if_pos hv]
    exact ⟨fun _ h => absurd h hv, fun _ => ⟨_, rfl⟩⟩

/-- It raises only what the policy check handles. -/
def Invalid (e : Exn) : Prop := e.isInvalid = true

theorem toDecision_invalid (value : String) : RaisesOnly Invalid (toDecision value) := by
  unfold toDecision
  rw [raisesOnly_fetch]
  exact fun _ => rfl

omit [Objects O] in
theorem ruleFromMapping_invalid (item : Value O) : RaisesOnly Invalid (ruleFromMapping host item) := by
  unfold ruleFromMapping
  split
  · split
    · split
      · exact raisesOnly_error.2 rfl
      · rw [raisesOnly_bind]
        exact ⟨toDecision_invalid _, fun _ _ => raisesOnly_pure.2 trivial⟩
    · exact raisesOnly_error.2 rfl
  · exact raisesOnly_error.2 rfl

omit [Objects O] in
theorem policyRules_invalid (raw : Value O) : RaisesOnly Invalid (policyRules host raw) := by
  unfold policyRules
  split
  · split
    · exact raisesOnly_mapM fun item _ => ruleFromMapping_invalid host item
    · exact raisesOnly_error.2 rfl
  · exact raisesOnly_error.2 rfl

omit [Objects O] in
theorem loadPolicyGateway_invalid (entry : Entry) :
    RaisesOnly Invalid (loadPolicyGateway host entry) ↔
      readJson host.loads entry ≠ .error .recursionError := by
  unfold loadPolicyGateway
  rw [raisesOnly_bind, raisesOnly_mapError, and_iff_left fun raw _ => policyRules_invalid host raw]
  cases readJson host.loads entry with
  | error e =>
    rw [raisesOnly_error]
    cases e <;> simp [Invalid, Exn.isInvalid, ReadError.isValueError]
  | ok raw => simp

omit [Objects O] in
theorem governancePolicyCheck_returns :
    Returns (governancePolicyCheck host config) ↔ PolicyLegible host config := by
  unfold governancePolicyCheck PolicyLegible Returns
  generalize host.entry config.policyFile = entry
  by_cases hp : entry.present = true
  · rw [← loadPolicyGateway_invalid]
    simp only [hp, Bool.not_true, Bool.false_eq_true, if_false]
    cases loadPolicyGateway host entry with
    | ok rules => simp
    | error e =>
      rw [raisesOnly_error]
      by_cases he : e.isInvalid = true <;> simp [he, Invalid]
  · have hmissing : entry = .missing := by
      cases entry with
      | missing => rfl
      | _ => exact absurd rfl hp
    subst hmissing
    simp [Entry.present, readJson]

omit [Objects O] in
theorem readLines_unreadable {undecodable : Bool} {lines : List (List Char)} :
    RaisesOnly (fun e => e.isUnreadable = true)
        (readLines host.loads host.isSpace undecodable lines) ↔
      LinesLegible host undecodable lines := by
  induction lines with
  | nil => cases undecodable <;> simp [readLines, LinesLegible, ReadError.isUnreadable]
  | cons line rest ih =>
    unfold readLines LinesLegible
    by_cases hblank : line.all host.isSpace = true
    · rw [if_pos hblank, if_pos hblank]
      exact ih
    · rw [if_neg hblank, if_neg hblank]
      unfold Returns
      cases host.loads line with
      | ok value => simp [ih]
      | error e => simp

omit [Objects O] in
theorem auditLogCheck_returns : Returns (auditLogCheck host config) ↔ LogLegible host config := by
  unfold auditLogCheck LogLegible Returns
  cases hlog : host.entry (child (auditDir config) "runtime.jsonl") with
  | file content =>
    have hlines : RaisesOnly (fun e => e.isUnreadable = true) (readLog host (.file content)) ↔
        LinesLegible host (host.lines content).2 (host.lines content).1 := readLines_unreadable host
    simp only [Entry.present, Entry.isFile, if_true, Bool.not_true, Bool.false_eq_true, if_false,
      Entry.file.injEq, forall_eq', ← hlines]
    cases readLog host (.file content) with
    | ok _ => simp
    | error e =>
      rw [raisesOnly_error]
      by_cases he : e.isUnreadable = true <;> simp [he]
  | _ =>
    simp [Entry.present, Entry.isFile, readLog, ReadError.isUnreadable]

/-! ## Endpoints -/

/-- The endpoint is a URL, if there is one. -/
def EndpointLegible : Prop :=
  ∀ endpoint, config.metabase.endpoint = some endpoint →
    Url.urlsplit host.rules endpoint.toList ≠ none

omit [Objects O] in
theorem parseEndpoint_returns (h : EndpointLegible host config) :
    RaisesOnly (fun _ => False) (parseEndpoint host config.metabase.endpoint) := by
  unfold parseEndpoint
  unfold EndpointLegible at h
  cases he : config.metabase.endpoint with
  | none => exact raisesOnly_ok.2 trivial
  | some endpoint =>
    simp only [raisesOnly_bind, raisesOnly_fetch, raisesOnly_pure, implies_true, and_true]
    exact h endpoint he

/-- Of the dependencies only those of the Metabase service look at something that may raise. -/
theorem metabase_of_service : ∀ contract ∈ dependencyContracts,
    startsWith contract.dependencyId "service.metabase" = true → contract.profile = .metabase := by
  decide

omit [Objects O] in
theorem evaluateDependency_returns {contract : DependencyContract}
    (h : startsWith contract.dependencyId "service.metabase" = true → EndpointLegible host config) :
    RaisesOnly (fun _ => False) (evaluateDependency host config contract) := by
  have hmanaged : RaisesOnly (fun _ => False) (evaluateManaged host config contract) := by
    unfold evaluateManaged
    simp only []
    split
    · rename_i hservice
      unfold evaluateMetabaseService
      split
      · exact raisesOnly_ok.2 trivial
      · rw [raisesOnly_bind]
        exact ⟨parseEndpoint_returns host config (h hservice), fun _ _ => raisesOnly_pure.2 trivial⟩
    · split_ifs <;> exact raisesOnly_ok.2 trivial
  unfold evaluateDependency
  split
  · exact raisesOnly_ok.2 trivial
  · split
    · exact raisesOnly_ok.2 trivial
    · exact raisesOnly_ok.2 trivial
    · exact raisesOnly_ok.2 trivial
    · exact raisesOnly_ok.2 trivial
    · exact raisesOnly_ok.2 trivial
    · exact hmanaged
    · exact hmanaged

omit [Objects O] in
theorem dependencyReadinessChecks_returns (h : MetabaseLegible host config) :
    RaisesOnly (fun _ => False) (dependencyReadinessChecks host config) := by
  unfold dependencyReadinessChecks evaluateEnabledProfileReadiness
  rw [raisesOnly_bind]
  refine ⟨raisesOnly_mapM fun profile hprofile => ?_, fun _ _ => raisesOnly_pure.2 trivial⟩
  unfold evaluateProfileReadiness
  rw [if_neg (not_not.2 hprofile), raisesOnly_bind]
  refine ⟨raisesOnly_mapM fun contract hcontract => ?_, fun _ _ => raisesOnly_pure.2 trivial⟩
  obtain ⟨hmem, hfor⟩ := List.mem_filter.1 hcontract
  rw [raisesOnly_bind]
  refine ⟨evaluateDependency_returns host config fun hservice => ?_, fun _ _ => raisesOnly_pure.2 trivial⟩
  have hmetabase : profile = .metabase :=
    (of_decide_eq_true hfor).symm.trans (metabase_of_service contract hmem hservice)
  exact (h (hmetabase ▸ hprofile)).1

omit [Objects O] in
theorem endpointState_returns :
    RaisesOnly (fun _ => False) (endpointState host config.metabase.endpoint) ↔
      EndpointLegible host config := by
  unfold endpointState EndpointLegible
  split
  · rename_i hnone
    simp [hnone]
  · rename_i hempty
    have hurl : Url.urlsplit host.rules "".toList = some ⟨[], [], [], [], []⟩ := rfl
    refine ⟨fun _ endpoint he => ?_, fun _ => raisesOnly_ok.2 trivial⟩
    obtain rfl := Option.some.inj (hempty.symm.trans he)
    rw [hurl]
    exact Option.some_ne_none _
  · rename_i endpoint _ heq
    rw [raisesOnly_bind, raisesOnly_fetch]
    constructor
    · rintro ⟨hurl, -⟩ endpoint' he
      obtain rfl := Option.some.inj (heq.symm.trans he)
      exact hurl
    · intro h
      refine ⟨h endpoint heq, fun parsed _ => ?_⟩
      split <;> exact raisesOnly_pure.2 trivial

omit [Objects O] in
theorem metabaseHealth_returns :
    RaisesOnly (fun _ => False) (metabaseHealth host config) ↔ EndpointLegible host config := by
  unfold metabaseHealth
  rw [raisesOnly_bind, endpointState_returns]
  exact and_iff_left fun _ _ => raisesOnly_pure.2 trivial

omit [Objects O] in
theorem safeIdentifiers_returns {sources : List String} :
    RaisesOnly (fun _ => False) (sources.mapM (safeIdentifier host)) ↔
      ∀ source ∈ sources, identifierText host source ≠ [] := by
  constructor
  · intro h source hsource
    obtain ⟨views, hviews⟩ := returns_iff.2 h
    obtain ⟨name, hname⟩ := mapM_mem hviews source hsource
    simp only [safeIdentifier, Logic.bind_eq_ok, ensure_eq_ok] at hname
    obtain ⟨-, hne, -⟩ := hname
    exact hne
  · intro h
    refine raisesOnly_mapM fun source hsource => ?_
    unfold safeIdentifier
    simp only [raisesOnly_bind, raisesOnly_ensure, raisesOnly_pure, implies_true, and_true]
    exact .inl (h source hsource)

omit [Objects O] in
theorem metabaseCapabilityChecks_returns :
    RaisesOnly (fun _ => False) (metabaseCapabilityChecks host config) ↔
      MetabaseLegible host config := by
  unfold metabaseCapabilityChecks MetabaseLegible
  by_cases hm : ComponentProfile.metabase ∈ config.enabledProfiles
  · rw [if_neg (not_not.2 hm)]
    simp only [metabaseProvisioning, raisesOnly_bind, metabaseHealth_returns,
      safeIdentifiers_returns, raisesOnly_pure, implies_true, and_true, hm, forall_true_left]
    constructor
    · rintro ⟨hendpoint, h⟩
      obtain ⟨health, hhealth⟩ := returns_iff.2 ((metabaseHealth_returns host config).2 hendpoint)
      exact ⟨hendpoint, (h health hhealth).2 health hhealth⟩
    · rintro ⟨hendpoint, hsources⟩
      exact ⟨hendpoint, fun _ _ => ⟨hendpoint, fun _ _ => hsources⟩⟩
  · rw [if_pos hm]
    exact ⟨fun _ h => absurd h hm, fun _ => raisesOnly_ok.2 trivial⟩

/-! ## The report -/

/-- **Totality.**  There is a report exactly when everything that is read is legible. -/
theorem runDoctor_returns_iff (runtime : Runtime) (lifecycleState : Option (Option AgentState))
    (secretStore : Option Bool) :
    Returns (runDoctor host config runtime lifecycleState secretStore) ↔ AllLegible host config := by
  have hstore := memoryStoreCheck_returns host config
  have hmodel := embeddingModelCheck_returns host config
  have hpolicy := governancePolicyCheck_returns host config
  have hlog := auditLogCheck_returns host config
  have hmetabase := metabaseCapabilityChecks_returns host config
  unfold Returns at *
  rw [returns_iff] at hstore hmodel hpolicy hlog ⊢
  simp only [runDoctor, raisesOnly_bind, hstore, hmodel, hpolicy, hlog, hmetabase, raisesOnly_pure,
    implies_true, and_true]
  constructor
  · rintro ⟨hs, h⟩
    obtain ⟨store, hstore'⟩ := returns_iff.2 (hstore.2 hs)
    obtain ⟨hm, h⟩ := h store hstore'
    obtain ⟨model, hmodel'⟩ := returns_iff.2 (hmodel.2 hm)
    obtain ⟨hp, h⟩ := h model hmodel'
    obtain ⟨policy, hpolicy'⟩ := returns_iff.2 (hpolicy.2 hp)
    obtain ⟨hl, h⟩ := h policy hpolicy'
    obtain ⟨log, hlog'⟩ := returns_iff.2 (hlog.2 hl)
    obtain ⟨hd, h⟩ := h log hlog'
    obtain ⟨dependencies, hdependencies⟩ := returns_iff.2 hd
    exact ⟨hs, hm, hp, hl, h dependencies hdependencies⟩
  · rintro ⟨hs, hm, hp, hl, hb⟩
    exact ⟨hs, fun _ _ => ⟨hm, fun _ _ => ⟨hp, fun _ _ => ⟨hl, fun _ _ =>
      ⟨dependencyReadinessChecks_returns host config hb, fun _ _ => hb⟩⟩⟩⟩⟩

end

/-! ## Examples -/

namespace Sample

/-- A host on which there is one file, `records.json`, with one byte that is no UTF-8. -/
def damaged : Host Empty where
  entry path := if path.parts = ["maya", "memory", "records.json"] then .file [255] else .missing
  loads := fun _ => .error .jsonDecodeError
  str := fun _ => ""
  lines := fun _ => ([], false)
  diskFree := fun _ => some 1
  localVector := fun _ => none
  embeddingModelDir := none
  rules := ⟨fun _ => true, id, id⟩
  isSpace := (· = ' ')
  isAlnum := Char.isAlphanum
  system := "Linux"
  importable := fun _ => true
  command := fun _ => true
  discoverable := fun _ => true
  platformId := "linux-desktop"

/-- A valid configuration. -/
def localConfig : Config where
  invalid := none
  dataDir := ⟨.root, ["maya"]⟩
  enabledProfiles := [.core]
  retriever := "local_json"
  policyFile := ⟨.root, ["maya", "policy.json"]⟩
  llmMode := "local"
  llmProvider := "openai-compatible"
  modelInvalid := none
  integrations := []
  metabase := ⟨false, "disabled", none, none, []⟩

/-- The damaged records hide what the other checks find. -/
theorem damaged_raises :
    localConfig.invalid = none ∧
      runDoctor damaged localConfig ⟨true, true⟩ (some (some .created)) (some true) =
        .error (.read .unicodeDecodeError) ∧
      ¬ Returns (runDoctor damaged localConfig ⟨true, true⟩ (some (some .created)) (some true)) := by
  have hraised : runDoctor damaged localConfig ⟨true, true⟩ (some (some .created)) (some true) =
      .error (.read .unicodeDecodeError) := rfl
  refine ⟨rfl, hraised, ?_⟩
  rintro ⟨report, hreport⟩
  rw [hraised] at hreport
  cases hreport

end Sample

end ProjectMaya.Doctor
