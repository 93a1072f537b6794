import ProjectMaya.HealthTotal

/-! # When the summary is blocked

The summary of a report that has a failed check is to be blocked.  The categories select the checks
by the start of their names, and none of them selects `audit.runtime`; the other checks that no
category selects are found again by the setup plan, the repair plan and the skills
(`healthAgrees_iff`). -/

namespace ProjectMaya.Health

open Logic Release
open Doctor (Report runDoctor startsWith documentSkillAllowlist evaluateEnabledProfileReadiness
  parentOf)
open Facade (AgentState)
open ProjectMaya.Configuration (ComponentProfile)
open ProjectMaya.Setup (planSetup repairLocalState requiredDirectories target)
open ProjectMaya.Update (MissingOrObject Readable checkOperation checkUpdates rollbackKeys
  rollbackOperation updateKeys)

section

variable {O : Type} [Objects O] (sch : SignatureScheme) (host : Doctor.Host O)
  (packaged : String → Bool) (config : Setup.Config) (runtime : Doctor.Runtime)
  (lifecycleState : Option (Option AgentState)) (secretStore : Option Bool)

/-- The summary of the inputs is blocked whenever the report on them has a failed check. -/
def Agrees : Prop :=
  ∀ report, runDoctor host config.toConfig runtime lifecycleState secretStore = .ok report →
    report.healthy = false →
    ∃ summary, summarizeHealth sch host packaged config runtime lifecycleState secretStore = .ok summary ∧
      summary.status = .blocked

omit [Objects O] in
/-- The data directory has a parent, and what is there of the directories is a directory. -/
structure Repairable : Prop where
  parent : (host.entry (parentOf config.dataDir)).isDir = true
  directories : ∀ parts ∈ [] :: requiredDirectories,
    (host.entry (target config parts)).present = true → (host.entry (target config parts)).isDir = true

/-- There is an update manifest, and it does not verify. -/
def Untrusted : Prop :=
  ∃ data, readJson host.loads (manifestEntry host config checkOperation) = .ok (.mapping data) ∧
    ∀ manifest, verifyUpdateManifest data (none : Option (PublicKeys sch)) (some host.platformId) ≠
      .ok manifest

/-- A check that is not the one of the audit log fails. -/
def FailsBeyondAudit (report : Report) : Prop :=
  ∃ check ∈ report.checks, check.status = .fail ∧ check.name ≠ "audit.runtime"

/-- The summary can be made, and the failed audit log is not all that is wrong. -/
structure Noticed (report : Report) : Prop where
  valid : config.invalid = none
  update : Readable host.loads updateKeys (manifestEntry host config checkOperation) ∧
    MissingOrObject host.loads (manifestEntry host config checkOperation)
  rollback : Readable host.loads rollbackKeys (manifestEntry host config rollbackOperation) ∧
    MissingOrObject host.loads (manifestEntry host config rollbackOperation)
  wrong : FailsBeyondAudit report ∨ ¬ Repairable host config ∨ Untrusted sch host config

end

/-! ## Categories -/

theorem overallStatus_blocked {categories : List HealthCategory} :
    overallStatus categories = .blocked ↔ ∃ category ∈ categories, category.status = .blocked := by
  have hany : (categories.any fun category => category.status = .blocked) = true ↔
      ∃ category ∈ categories, category.status = .blocked := by
    simp only [List.any_eq_true, decide_eq_true_eq]
  rw [← hany]
  unfold overallStatus
  by_cases hblocked : (categories.any fun category => category.status = .blocked) = true
  · simp only [hblocked, if_true]
  · rw [if_neg hblocked]
    split_ifs <;> simp [hblocked]

/-- The check belongs to the category with these starts. -/
def Starts (starts : List String) (name : String) : Prop := ∃ start ∈ starts, startsWith name start = true

theorem categoryFromReport_blocked {name : String} {starts : List String} {report : Report} :
    (categoryFromReport name starts report).status = .blocked ↔
      ∃ check ∈ report.checks, check.status = .fail ∧ Starts starts check.name := by
  have hgroup : ∀ check, check ∈ grouped starts report ↔
      check ∈ report.checks ∧ Starts starts check.name := by
    intro check
    simp only [grouped, List.mem_filter, List.any_eq_true, Starts]
  have hfail : ((grouped starts report).any fun check => check.status = .fail) = true ↔
      ∃ check ∈ report.checks, check.status = .fail ∧ Starts starts check.name := by
    simp only [List.any_eq_true, decide_eq_true_eq, hgroup]
    exact exists_congr fun check => and_assoc.trans (and_congr_right fun _ => and_comm)
  rw [← hfail]
  unfold categoryFromReport
  by_cases hnone : grouped starts report = []
  · simp only [hnone, if_true, List.any_nil]
    simp
  · simp only [hnone, if_false]
    by_cases hblocked : ((grouped starts report).any fun check => check.status = .fail) = true
    · simp only [hblocked, if_true]
    · rw [if_neg hblocked]
      split_ifs <;> simp [hblocked]

theorem recoveryCategory_blocked {x : Except Setup.Failure (List Setup.RepairAction)} :
    (recoveryCategory x).status = .blocked ↔ ¬ Doctor.Returns x := by
  unfold Doctor.Returns
  cases x with
  | error e => simp [recoveryCategory]
  | ok actions =>
    unfold recoveryCategory
    simp only []
    split_ifs <;> simp

theorem setupCategory_blocked {x : Except Setup.Failure Setup.SetupPlan} :
    (setupCategory x).status = .blocked ↔ ∀ plan, x = .ok plan → plan.blocked = true := by
  cases x with
  | error e => simp [setupCategory]
  | ok plan =>
    simp only [setupCategory, Except.ok.injEq, forall_eq']
    by_cases hblocked : plan.blocked = true
    · simp only [hblocked, if_true]
    · rw [if_neg hblocked]
      split_ifs <;> simp [hblocked]

theorem skillsCategory_blocked {packaged discoverable : String → Bool} :
    (skillsCategory packaged discoverable).status = .blocked ↔
      ∃ skill ∈ documentSkillAllowlist, discoverable skill = false := by
  unfold skillsCategory
  simp only []
  split_ifs with hany
  · simpa using hany
  · simpa using hany

/-! ## Setup -/

section

variable {O : Type} [Objects O] {host : Doctor.Host O} {config : Setup.Config}

theorem validate_ok (h : config.invalid = none) : Setup.validate config = .ok () := by
  unfold Setup.validate
  rw [h]

omit [Objects O] in
theorem repairAction_returns {parts : List String} :
    Doctor.Returns (Setup.repairAction host config parts) ↔
      ((host.entry (target config parts)).present = true →
        (host.entry (target config parts)).isDir = true) := by
  unfold Doctor.Returns Setup.repairAction
  simp only []
  split_ifs with hpresent
  · rw [returns_iff, raisesOnly_bind, raisesOnly_ensure]
    simp [hpresent]
  · simp [hpresent]

omit [Objects O] in
theorem ensureRepairableRoot_eq_ok {u : Unit} :
    Setup.ensureRepairableRoot host config = .ok u ↔
      ((host.entry config.dataDir).present = true → (host.entry config.dataDir).isDir = true) ∧
        (host.entry (parentOf config.dataDir)).isDir = true := by
  simp only [Setup.ensureRepairableRoot, Logic.bind_eq_ok, ensure_eq_ok, exists_const]

omit [Objects O] in
/-- The repair is planned when the directories can be made. -/
theorem repairLocalState_returns (hvalid : config.invalid = none) :
    Doctor.Returns (repairLocalState host config) ↔ Repairable host config := by
  unfold Doctor.Returns repairLocalState
  rw [validate_ok hvalid, ok_bind]
  simp only [Logic.bind_eq_ok, ensureRepairableRoot_eq_ok, exists_const]
  constructor
  · rintro ⟨actions, ⟨hroot, hparent⟩, hactions⟩
    exact ⟨hparent, fun parts hparts => repairAction_returns.1 (mapM_mem hactions parts hparts)⟩
  · intro h
    have hroot := h.directories [] List.mem_cons_self
    unfold target at hroot
    rw [List.append_nil] at hroot
    have hactions := raisesOnly_mapM fun parts hparts =>
      returns_iff.1 (repairAction_returns.2 (h.directories parts hparts))
    obtain ⟨actions, hactions⟩ := returns_iff.2 hactions
    exact ⟨actions, ⟨hroot, h.parent⟩, hactions⟩

theorem fromRepairAction_open (action : Setup.RepairAction) :
    (Setup.fromRepairAction action).severity ≠ .blocked := by
  unfold Setup.fromRepairAction
  simp only []
  split_ifs <;> simp

theorem editionSetupActions_open :
    ∀ action ∈ Setup.editionSetupActions config, action.severity ≠ .blocked := by
  intro action haction
  unfold Setup.editionSetupActions at haction
  simp only [List.mem_append] at haction
  obtain (hedition | hintegration) | hprofile := haction
  · simp only [List.mem_cons, List.not_mem_nil, or_false] at hedition
    obtain rfl | rfl | rfl | rfl := hedition
    · simp
    · cases config.brokerMode <;> simp [Setup.brokerSeverity]
    · simp
    · simp
  · obtain ⟨item, -, rfl⟩ := List.mem_map.1 hintegration
    unfold Setup.integrationSetupAction
    simp only []
    split_ifs
    · simp
    · split <;> simp
  · obtain ⟨profile, -, rfl⟩ := List.mem_map.1 hprofile
    simp

theorem profileReadinessAction_blocked {profile : Doctor.ProfileReadiness} :
    (Setup.profileReadinessAction profile).severity = .blocked ↔ profile.status = .missingRequired := by
  unfold Setup.profileReadinessAction
  simp only []
  cases profile.status <;> simp [Setup.readinessSeverity]

omit [Objects O] in
/-- What blocks the setup: the repair cannot be planned, or a profile lacks what it requires. -/
theorem setup_blocked (hvalid : config.invalid = none) {profiles : List Doctor.ProfileReadiness}
    (hprofiles : evaluateEnabledProfileReadiness host config.toConfig = .ok profiles) :
    (setupCategory (planSetup host config)).status = .blocked ↔
      ¬ Repairable host config ∨ ∃ profile ∈ profiles, profile.status = .missingRequired := by
  rw [setupCategory_blocked, ← repairLocalState_returns hvalid]
  unfold planSetup Doctor.Returns
  rw [validate_ok hvalid, ok_bind, hprofiles]
  cases repairLocalState host config with
  | error e => simp
  | ok repair =>
    simp only [ok_bind, Except.mapError, pure_eq_ok, forall_eq', Setup.SetupPlan.blocked,
      Except.ok.injEq, exists_eq', not_true_eq_false, false_or, List.any_eq_true, decide_eq_true_eq,
      List.mem_append, List.mem_map, List.mem_singleton]
    constructor
    · rintro ⟨action, ((⟨made, -, rfl⟩ | hedition) | ⟨profile, hprofile, rfl⟩) | rfl, hblocked⟩
      · exact absurd hblocked (fromRepairAction_open made)
      · exact absurd hblocked (editionSetupActions_open action hedition)
      · exact ⟨profile, hprofile, profileReadinessAction_blocked.1 hblocked⟩
      · cases hblocked
    · rintro ⟨profile, hprofile, hmissing⟩
      exact ⟨_, .inl (.inr ⟨profile, hprofile, rfl⟩), profileReadinessAction_blocked.2 hmissing⟩

end

/-! ## The update manifest -/

section

variable {O : Type} [Objects O] {sch : SignatureScheme} {host : Doctor.Host O} {config : Setup.Config}

/-- Of the statuses of an inspection only the rejections block. -/
theorem update_blocked {status : Update.UpdateStatus}
    (hstatus : checkUpdates sch (updateHost host) (updateConfig config.toConfig) = .ok status) :
    metadataStatus status.status = .blocked ↔ Untrusted sch host config := by
  unfold Untrusted
  obtain ⟨hmissing, rfl⟩ | ⟨data, hread, ⟨made, hmade, rfl⟩ | ⟨hnot, text, htext, action, rfl⟩⟩ :=
    Update.inspect_cases hstatus
  · have habsent : manifestEntry host config checkOperation = .missing := hmissing
    rw [habsent]
    refine ⟨fun h => (by cases h), fun h => ?_⟩
    obtain ⟨_, h, -⟩ := h
    cases h
  · obtain ⟨manifest, hmanifest, rfl⟩ := Logic.map_eq_ok.1 hmade
    refine ⟨fun h => (by cases h), fun h => ?_⟩
    obtain ⟨data', hread', hnot⟩ := h
    obtain rfl := Value.mapping.inj (Except.ok.inj (hread.symm.trans hread'))
    exact absurd hmanifest (hnot manifest)
  · have hblocked : ∀ t ∈ ["signature_rejected", "metadata_rejected"], metadataStatus t = .blocked := by
      decide
    refine ⟨fun _ => ⟨data, hread, fun manifest hmanifest => ?_⟩, fun _ => hblocked text htext⟩
    exact hnot _ (Logic.map_eq_ok.2 ⟨manifest, hmanifest, rfl⟩)

end

/-! ## What the doctor reports -/

section

variable {O : Type} [Objects O] {host : Doctor.Host O} {config : Doctor.Config} {runtime : Doctor.Runtime}
  {lifecycleState : Option (Option AgentState)} {secretStore : Option Bool} {report : Report}

/-- Some category selects the checks of this name. -/
def Selected (name : String) : Prop := ∃ category ∈ checkCategories, Starts category.2 name

instance (starts : List String) (name : String) : Decidable (Starts starts name) :=
  inferInstanceAs (Decidable (∃ start ∈ starts, _))

instance (name : String) : Decidable (Selected name) :=
  inferInstanceAs (Decidable (∃ category ∈ checkCategories, _))

theorem audit_not_selected : ¬ Selected "audit.runtime" := by decide

omit [Objects O] in
theorem memoryStoreCheck_name {loaded : Doctor.Check}
    (h : Doctor.memoryStoreCheck host config = .ok loaded) : loaded.name = "memory.store" := by
  unfold Doctor.memoryStoreCheck at h
  split_ifs at h
  · cases h
    rfl
  · cases h
    rfl
  · simp only [] at h
    split_ifs at h
    · cases h
      rfl
    · split at h
      · split_ifs at h
        cases h
        rfl
      · cases h
        rfl
      · cases h
        rfl

theorem embeddingModelCheck_name {model : Doctor.Check}
    (h : Doctor.embeddingModelCheck host config = .ok model) : model.name = "memory.embedding" := by
  unfold Doctor.embeddingModelCheck at h
  split_ifs at h
  · cases h
    rfl
  · obtain ⟨ready, -, hmodel⟩ := Logic.bind_eq_ok.1 h
    cases hmodel
    rfl

omit [Objects O] in
theorem governancePolicyCheck_name {policy : Doctor.Check}
    (h : Doctor.governancePolicyCheck host config = .ok policy) : policy.name = "governance.policy" := by
  unfold Doctor.governancePolicyCheck at h
  simp only [] at h
  split_ifs at h
  · cases h
    rfl
  · split at h
    · split_ifs at h
      cases h
      rfl
    · cases h
      rfl

omit [Objects O] in
theorem auditLogCheck_name {audit : Doctor.Check}
    (h : Doctor.auditLogCheck host config = .ok audit) : audit.name = "audit.runtime" := by
  unfold Doctor.auditLogCheck at h
  simp only [] at h
  split at h
  · split at h
    · cases h
      rfl
    · split at h
      · cases h
        rfl
      · split at h
        · cases h
          rfl
        · cases h
  · cases h
    rfl

omit [Objects O] in
theorem metabaseCapabilityChecks_selected {checks : List Doctor.Check}
    (h : Doctor.metabaseCapabilityChecks host config = .ok checks) :
    ∀ check ∈ checks, Selected check.name := by
  unfold Doctor.metabaseCapabilityChecks at h
  split at h
  · cases h
    exact fun _ hnone => (by cases hnone)
  · simp only [Logic.bind_eq_ok, pure_eq_ok] at h
    obtain ⟨_, -, _, -, rfl⟩ := h
    simp only [List.forall_mem_cons]
    exact ⟨by decide, by decide, by decide, fun _ hnone => (by cases hnone)⟩

omit [Objects O] in
theorem documentCapabilityChecks_selected :
    ∀ check ∈ Doctor.documentCapabilityChecks host config, Selected check.name := by
  have hroot : Selected ("documents." ++ "documents-root") := by decide
  have hcache : Selected ("documents." ++ "documents-cache") := by decide
  have houtputs : Selected ("documents." ++ "documents-outputs") := by decide
  unfold Doctor.documentCapabilityChecks
  by_cases hdocuments : ComponentProfile.documents ∈ config.enabledProfiles
  · rw [if_neg (not_not.2 hdocuments)]
    simp only [List.forall_mem_cons]
    exact ⟨hroot, hcache, houtputs, by decide, by decide, by decide, fun _ hnone => (by cases hnone)⟩
  · rw [if_pos hdocuments]
    exact fun _ hnone => (by cases hnone)

/-- The checks that no category selects, on these profiles. -/
def Unselected (host : Doctor.Host O) (config : Doctor.Config)
    (profiles : List Doctor.ProfileReadiness) (check : Doctor.Check) : Prop :=
  check.name = "audit.runtime" ∨
    check = Doctor.managedDirectoryCheck host config "migration.state" "migrations" ∨
    (∃ profile ∈ profiles, check ∈ profile.checks) ∨ check ∈ Doctor.skillPackageChecks host ∨
    check = ⟨"local_api.binding", .pass⟩

variable {profiles : List Doctor.ProfileReadiness}

theorem checks_selected (h : runDoctor host config runtime lifecycleState secretStore = .ok report)
    (hprofiles : evaluateEnabledProfileReadiness host config = .ok profiles) :
    ∀ check ∈ report.checks, Selected check.name ∨ Unselected host config profiles check := by
  simp only [runDoctor, Logic.bind_eq_ok, pure_eq_ok, Doctor.dependencyReadinessChecks, hprofiles,
    Except.ok.injEq, exists_eq_left'] at h
  obtain ⟨store, hstore, model, hmodel, policy, hpolicy, audit, haudit, metabase, hmetabase, rfl⟩ := h
  have hlifecycle : (Doctor.lifecycleStateCheck lifecycleState).name = "lifecycle.agent" := by
    unfold Doctor.lifecycleStateCheck
    split <;> rfl
  have hnone : ∀ check ∈ ([] : List Doctor.Check),
      Selected check.name ∨ Unselected host config profiles check := by
    rintro check hcheck
    cases hcheck
  simp only [List.forall_mem_append, List.forall_mem_cons]
  refine ⟨⟨⟨⟨⟨?_, ?_⟩, ?_⟩, ?_⟩, ?_⟩, ?_⟩
  · refine ⟨.inl (by decide : Selected "config"), .inl (by decide : Selected "filesystem.data_dir"),
      .inl (by decide : Selected "filesystem.disk_space"), .inl ?_, .inl ?_, .inl ?_,
      .inr (.inl (auditLogCheck_name haudit)), .inl (by decide : Selected "backup.state"),
      .inr (.inr (.inl rfl)), .inl ?_, .inl (by decide : Selected "release.platform"),
      .inl (by decide : Selected "profiles.enabled"), hnone⟩
    · rw [memoryStoreCheck_name hstore]
      decide
    · rw [embeddingModelCheck_name hmodel]
      decide
    · rw [governancePolicyCheck_name hpolicy]
      decide
    · rw [hlifecycle]
      decide
  · intro check hcheck
    exact .inr (.inr (.inr (.inl (List.mem_flatMap.1 hcheck))))
  · exact fun check hcheck => .inl (documentCapabilityChecks_selected check hcheck)
  · exact fun check hcheck => .inl (metabaseCapabilityChecks_selected hmetabase check hcheck)
  · exact fun check hcheck => .inr (.inr (.inr (.inr (.inl hcheck))))
  · exact ⟨.inl (by decide : Selected "model.config"), .inl (by decide : Selected "connectors.config"),
      .inr (.inr (.inr (.inr (.inr rfl)))), .inl (by decide : Selected "secrets.backend"),
      .inl (by decide : Selected "hermes.compatibility"), .inl (by decide : Selected "hermes.health"),
      hnone⟩

/-- The checks that are found again are in the report. -/
theorem unselected_mem (h : runDoctor host config runtime lifecycleState secretStore = .ok report)
    (hprofiles : evaluateEnabledProfileReadiness host config = .ok profiles) {check : Doctor.Check}
    (hcheck : check = Doctor.managedDirectoryCheck host config "migration.state" "migrations" ∨
      (∃ profile ∈ profiles, check ∈ profile.checks) ∨ check ∈ Doctor.skillPackageChecks host) :
    check ∈ report.checks := by
  simp only [runDoctor, Logic.bind_eq_ok, pure_eq_ok, Doctor.dependencyReadinessChecks, hprofiles,
    Except.ok.injEq, exists_eq_left'] at h
  obtain ⟨_, -, _, -, _, -, _, -, _, -, rfl⟩ := h
  simp only [List.mem_append]
  obtain rfl | hprofile | hskill := hcheck
  · exact .inl (.inl (.inl (.inl (.inl (by simp)))))
  · exact .inl (.inl (.inl (.inl (.inr (List.mem_flatMap.2 hprofile)))))
  · exact .inl (.inr hskill)

theorem toStatus_fail {r : Doctor.Readiness} : r.toStatus = .fail ↔ r = .missingRequired := by
  cases r <;> simp [Doctor.Readiness.toStatus]

omit [Objects O] in
theorem profile_fails (hprofiles : evaluateEnabledProfileReadiness host config = .ok profiles)
    {profile : Doctor.ProfileReadiness} (hmem : profile ∈ profiles) {check : Doctor.Check}
    (hcheck : check ∈ profile.checks) (hfail : check.status = .fail) :
    profile.status = .missingRequired := by
  obtain rfl | hdependency := List.mem_cons.1 hcheck
  · exact toStatus_fail.1 hfail
  · obtain ⟨dependency, hmember, rfl⟩ := List.mem_map.1 hdependency
    have hmissing := toStatus_fail.1 hfail
    obtain ⟨p, -, hp⟩ := mem_mapM hprofiles hmem
    unfold Doctor.evaluateProfileReadiness at hp
    split at hp
    · cases hp
      cases hmember
    · obtain ⟨dependencies, -, hmade⟩ := Logic.bind_eq_ok.1 hp
      cases hmade
      have hany : (dependencies.any fun d => d.2 = .missingRequired) = true :=
        List.any_eq_true.2 ⟨dependency, hmember, decide_eq_true hmissing⟩
      unfold Doctor.profileStatus
      rw [if_pos hany]

omit [Objects O] in
theorem skills_fail {check : Doctor.Check} (hcheck : check ∈ Doctor.skillPackageChecks host)
    (hfail : check.status = .fail) :
    ∃ skill ∈ documentSkillAllowlist, host.discoverable skill = false := by
  obtain ⟨skill, hskill, rfl⟩ := List.mem_map.1 hcheck
  refine ⟨skill, hskill, ?_⟩
  by_contra hfound
  simp [hfound] at hfail

theorem profileName_ne (profile : ComponentProfile) :
    "dependencies.profile." ++ profile.value ≠ "audit.runtime" := by
  cases profile <;> decide

theorem skillName_ne : ∀ skill ∈ documentSkillAllowlist,
    "skills." ++ String.ofList (skill.toList.map fun c => if c = '/' then '.' else c) ≠
      "audit.runtime" := by
  decide

/-- A failed check that is not the one of the audit log is selected by a category, or is one of those
that are found again. -/
theorem failsBeyondAudit_iff
    (h : runDoctor host config runtime lifecycleState secretStore = .ok report)
    (hprofiles : evaluateEnabledProfileReadiness host config = .ok profiles) :
    FailsBeyondAudit report ↔
      (∃ check ∈ report.checks, check.status = .fail ∧ Selected check.name) ∨
        (Doctor.managedDirectoryCheck host config "migration.state" "migrations").status = .fail ∨
        (∃ profile ∈ profiles, profile.status = .missingRequired) ∨
        ∃ skill ∈ documentSkillAllowlist, host.discoverable skill = false := by
  constructor
  · rintro ⟨check, hcheck, hfail, hname⟩
    obtain hselected | haudit | rfl | ⟨profile, hprofile, hof⟩ | hskill | rfl :=
      checks_selected h hprofiles check hcheck
    · exact .inl ⟨check, hcheck, hfail, hselected⟩
    · exact absurd haudit hname
    · exact .inr (.inl hfail)
    · exact .inr (.inr (.inl ⟨profile, hprofile, profile_fails hprofiles hprofile hof hfail⟩))
    · exact .inr (.inr (.inr (skills_fail hskill hfail)))
    · cases hfail
  · rintro (⟨check, hcheck, hfail, hselected⟩ | hmigration | ⟨profile, hprofile, hmissing⟩ |
      ⟨skill, hskill, hfound⟩)
    · refine ⟨check, hcheck, hfail, fun hname => audit_not_selected ?_⟩
      rw [← hname]
      exact hselected
    · exact ⟨_, unselected_mem h hprofiles (.inl rfl), hmigration,
        (by decide : "migration.state" ≠ "audit.runtime")⟩
    · exact ⟨_, unselected_mem h hprofiles (.inr (.inl ⟨profile, hprofile, List.mem_cons_self⟩)),
        toStatus_fail.2 hmissing, profileName_ne profile.profile⟩
    · refine ⟨_, unselected_mem h hprofiles (.inr (.inr (List.mem_map.2 ⟨skill, hskill, rfl⟩))), ?_, ?_⟩
      · simp [hfound]
      · exact skillName_ne skill hskill

end

/-! ## The summary -/

section

variable {O : Type} [Objects O] {sch : SignatureScheme} {host : Doctor.Host O}
  {packaged : String → Bool} {config : Setup.Config} {runtime : Doctor.Runtime}
  {lifecycleState : Option (Option AgentState)} {secretStore : Option Bool} {report : Report}

omit [Objects O] in
/-- If the repair can be planned, the directories that it makes pass their checks. -/
theorem managedDirectoryCheck_open (h : Repairable host config) {name relative : String}
    (hrequired : [relative] ∈ requiredDirectories) :
    (Doctor.managedDirectoryCheck host config.toConfig name relative).status ≠ .fail := by
  have hpath := h.directories [relative] (List.mem_cons_of_mem _ hrequired)
  have hroot := h.directories [] List.mem_cons_self
  have hparent : (host.entry (parentOf config.dataDir)).present = true := by
    have hdir := h.parent
    cases hentry : host.entry (parentOf config.dataDir) <;> rw [hentry] at hdir
    · cases hdir
    · rfl
    · rfl
    · rfl
  have hchild : target config [relative] = Doctor.child config.dataDir relative := rfl
  rw [hchild] at hpath
  unfold target at hroot
  rw [List.append_nil] at hroot
  unfold Doctor.managedDirectoryCheck
  simp only []
  by_cases hpresent : (host.entry (Doctor.child config.dataDir relative)).present = true
  · simp [hpresent, hpath hpresent]
  · have hplace : (host.entry config.dataDir).isDir = true ∨
        ((!(host.entry config.dataDir).present) = true ∧
          (host.entry (parentOf config.dataDir)).present = true) := by
      by_cases hdata : (host.entry config.dataDir).present = true
      · exact .inl (hroot hdata)
      · exact .inr ⟨by simp [hdata], hparent⟩
    rw [if_neg hpresent, if_pos hplace]
    simp

/-- What blocks a summary. -/
theorem categories_blocked (hvalid : config.invalid = none)
    (h : runDoctor host config.toConfig runtime lifecycleState secretStore = .ok report)
    {update rollback : Update.UpdateStatus}
    (hupdate : checkUpdates sch (updateHost host) (updateConfig config.toConfig) = .ok update) :
    overallStatus (categories host packaged config report update rollback) = .blocked ↔
      FailsBeyondAudit report ∨ ¬ Repairable host config ∨ Untrusted sch host config := by
  have hprofiles : ∃ profiles,
      evaluateEnabledProfileReadiness host config.toConfig = .ok profiles := by
    simp only [runDoctor, Logic.bind_eq_ok, Doctor.dependencyReadinessChecks] at h
    obtain ⟨_, -, _, -, _, -, _, -, _, ⟨profiles, hprofiles, -⟩, -⟩ := h
    exact ⟨profiles, hprofiles⟩
  obtain ⟨profiles, hprofiles⟩ := hprofiles
  have hmigration : (Doctor.managedDirectoryCheck host config.toConfig "migration.state" "migrations").status =
      .fail → ¬ Repairable host config :=
    fun hfail hrepairable => managedDirectoryCheck_open hrepairable (by decide) hfail
  have hselected : (∃ category ∈ checkCategories, ∃ check ∈ report.checks,
      check.status = .fail ∧ Starts category.2 check.name) ↔
      ∃ check ∈ report.checks, check.status = .fail ∧ Selected check.name := by
    constructor
    · rintro ⟨category, hcategory, check, hcheck, hfail, hstarts⟩
      exact ⟨check, hcheck, hfail, category, hcategory, hstarts⟩
    · rintro ⟨check, hcheck, hfail, category, hcategory, hstarts⟩
      exact ⟨category, hcategory, check, hcheck, hfail, hstarts⟩
  rw [overallStatus_blocked, failsBeyondAudit_iff h hprofiles]
  simp only [categories, List.mem_append, List.mem_cons, List.not_mem_nil, or_false, or_and_right,
    exists_or, exists_eq_left, List.mem_map, exists_exists_and_eq_and, setup_blocked hvalid hprofiles,
    recoveryCategory_blocked, repairLocalState_returns hvalid, categoryFromReport_blocked,
    update_blocked hupdate, skillsCategory_blocked, hselected, reduceCtorEq, false_or]
  constructor
  · rintro ((((hrepair | hprofile) | hrepair) | hcheck) | huntrusted | hskill)
    · exact .inr (.inl hrepair)
    · exact .inl (.inr (.inr (.inl hprofile)))
    · exact .inr (.inl hrepair)
    · exact .inl (.inl hcheck)
    · exact .inr (.inr huntrusted)
    · exact .inl (.inr (.inr (.inr hskill)))
  · rintro ((hcheck | hfail | hprofile | hskill) | hrepair | huntrusted)
    · exact .inl (.inr hcheck)
    · exact .inl (.inl (.inr (hmigration hfail)))
    · exact .inl (.inl (.inl (.inr hprofile)))
    · exact .inr (.inr hskill)
    · exact .inl (.inl (.inr hrepair))
    · exact .inr (.inl huntrusted)

/-- **Agreement.**  The summary shows the doctor's failures unless it cannot be made, or the audit log
is all that is wrong. -/
theorem healthAgrees_iff {privateKey : sch.PrivateKey}
    (hkey : sch.fromPrivateBytes nonProductionTestPrivateBytes = some privateKey) :
    Agrees sch host packaged config runtime lifecycleState secretStore ↔
      ∀ report, runDoctor host config.toConfig runtime lifecycleState secretStore = .ok report →
        report.healthy = false → Noticed sch host config report := by
  unfold Agrees
  refine forall_congr' fun report => imp_congr_right fun h => imp_congr_right fun _ => ?_
  have hcheck := Update.checkUpdates_returns (updateHost host) (updateConfig config.toConfig) hkey
  have hback := Update.rollbackUpdate_returns (updateHost host) (updateConfig config.toConfig) hkey
  constructor
  · rintro ⟨summary, hsummary, hblocked⟩
    simp only [summarizeHealth, Logic.bind_eq_ok, mapError_eq_ok, h, Except.ok.injEq, pure_eq_ok,
      exists_eq_left'] at hsummary
    obtain ⟨update, hupdate, rollback, hrollback, rfl⟩ := hsummary
    obtain ⟨hvalid, hread⟩ := hcheck.1 ⟨update, hupdate⟩
    obtain ⟨-, hread'⟩ := hback.1 ⟨rollback, hrollback⟩
    exact ⟨hvalid, hread, hread', (categories_blocked hvalid h hupdate).1 hblocked⟩
  · intro hnoticed
    obtain ⟨update, hupdate⟩ := hcheck.2 ⟨hnoticed.valid, hnoticed.update⟩
    obtain ⟨rollback, hrollback⟩ := hback.2 ⟨hnoticed.valid, hnoticed.rollback⟩
    have hblocked : overallStatus (categories host packaged config report update rollback) = .blocked :=
      (categories_blocked hnoticed.valid h hupdate).2 hnoticed.wrong
    unfold summarizeHealth
    rw [h, hupdate, hrollback]
    exact ⟨_, rfl, hblocked⟩

end

/-! ## Examples -/

namespace Sample

/-- A host with a data directory in which the runtime audit log ends in the middle of a line. -/
def torn : Doctor.Host Empty where
  entry path :=
    if path.parts ∈ [[], ["maya"], ["maya", "governance"], ["maya", "governance", "audit"]] then .directory
    else if path.parts = ["maya", "governance", "audit", "runtime.jsonl"] then .file [123]
    else .missing
  loads := fun _ => .error .jsonDecodeError
  str := fun _ => ""
  lines := fun _ => ([['\x7b']], false)
  diskFree := fun _ => some 1
  localVector := fun _ => none
  embeddingModelDir := none
  rules := ⟨fun _ => true, id, id⟩
  isSpace := (· = ' ')
  isAlnum := Char.isAlphanum
  system := "Linux"
  importable := fun _ => true
  command := fun _ => true
  discoverable := fun _ => true
  platformId := "linux-desktop"

/-- The doctor reports a failure, and the summary is degraded only. -/
theorem torn_not_agrees :
    (runDoctor torn config.toConfig ⟨true, true⟩ none none).map Report.healthy = .ok false ∧
      (summarizeHealth SignatureScheme.attached torn (fun _ => true) config ⟨true, true⟩ none none).map
        HealthSummary.status = .ok .degraded ∧
      ¬ Agrees SignatureScheme.attached torn (fun _ => true) config ⟨true, true⟩ none none := by
  have hreport : (runDoctor torn config.toConfig ⟨true, true⟩ none none).map Report.healthy =
      .ok false := by
    decide
  have hsummary : (summarizeHealth SignatureScheme.attached torn (fun _ => true) config ⟨true, true⟩
      none none).map HealthSummary.status = .ok .degraded := by
    decide
  refine ⟨hreport, hsummary, fun h => ?_⟩
  obtain ⟨report, hreport, hfail⟩ := Logic.map_eq_ok.1 hreport
  obtain ⟨summary, hblocked, hstatus⟩ := h report hreport hfail
  rw [hblocked] at hsummary
  have hdegraded : summary.status = .degraded := Except.ok.inj hsummary
  rw [hstatus] at hdegraded
  cases hdegraded

/-- Without the data directory the summary is blocked. -/
theorem absent_agrees :
    Agrees SignatureScheme.attached (host .missing) (fun _ => true) config ⟨true, true⟩ none none := by
  refine (healthAgrees_iff rfl).2 fun report _ _ => ⟨rfl, ⟨⟨trivial, fun _ h => ?_⟩, .inl rfl⟩,
    ⟨⟨trivial, fun _ h => ?_⟩, .inl rfl⟩, .inr (.inl fun h => ?_)⟩
  · cases h
  · cases h
  · cases h.parent

end Sample

end ProjectMaya.Health
