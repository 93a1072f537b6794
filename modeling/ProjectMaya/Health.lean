import ProjectMaya.Setup
import ProjectMaya.UpdateTotal

/-! # Health summary

`summarize_health` groups the checks of the doctor's report by the start of their names, and adds
what the setup, the repair and the update metadata say. -/

namespace ProjectMaya.Health

open Logic Release
open Doctor (Report startsWith documentSkillAllowlist)
open Facade (AgentState)

inductive HealthStatus where
  | ready | degraded | blocked | notConfigured | unknown
  deriving DecidableEq, Repr

structure HealthCategory where
  name : String
  status : HealthStatus
  checks : Nat
  message : String
  deriving DecidableEq, Repr

structure HealthSummary where
  status : HealthStatus
  categories : List HealthCategory
  updateStatus : String
  rollbackStatus : String
  networkUsed : Bool
  deriving DecidableEq, Repr

inductive Failure where
  | doctor (e : Doctor.Exn)
  | update (e : Update.Failure)
  deriving DecidableEq, Repr

/-- `CHECK_CATEGORIES` -/
def checkCategories : List (String × List String) :=
  [("configuration", ["config", "profiles."]),
    ("platform", ["release.platform"]),
    ("filesystem", ["filesystem."]),
    ("governance", ["governance."]),
    ("memory", ["memory."]),
    ("secrets", ["secrets."]),
    ("runtime", ["lifecycle.", "hermes."]),
    ("connectors", ["connectors.", "dependencies.service.google", "dependencies.service.slack",
      "dependencies.service.telegram"]),
    ("models", ["model.", "dependencies.model."]),
    ("documents", ["documents.", "dependencies.python.", "dependencies.command.pdftoppm",
      "dependencies.command.soffice", "dependencies.application.ms-office"]),
    ("metabase", ["metabase.", "dependencies.service.metabase", "dependencies.database."]),
    ("backup", ["backup."])]

/-- The checks of a category. -/
def grouped (starts : List String) (report : Report) : List Doctor.Check :=
  report.checks.filter fun check => starts.any fun start => startsWith check.name start

/-- `_category_from_report` -/
def categoryFromReport (name : String) (starts : List String) (report : Report) : HealthCategory :=
  let checks := grouped starts report
  let count (status : Doctor.Status) := toString (checks.countP fun check => check.status = status)
  if checks = [] then { name, status := .notConfigured, checks := 0, message := "no checks" }
  else {
    name
    status :=
      if checks.any fun check => check.status = .fail then .blocked
      else if checks.any fun check => check.status = .warn then .degraded
      else .ready
    checks := checks.length
    message := "pass=" ++ count .pass ++ "; warn=" ++ count .warn ++ "; fail=" ++ count .fail }

/-- `_metadata_status` -/
def metadataStatus (status : String) : HealthStatus :=
  if status ∈ ["available", "ready"] then .ready
  else if status = "unavailable" then .notConfigured
  else if "_rejected".toList.isSuffixOf status.toList then .blocked
  else .unknown

/-- `_overall_status` -/
def overallStatus (categories : List HealthCategory) : HealthStatus :=
  if categories.any fun category => category.status = .blocked then .blocked
  else if categories.any fun category => category.status = .degraded then .degraded
  else if categories.all fun category => category.status = .notConfigured then .notConfigured
  else .ready

/-- `_setup_category`, of the plan unless `plan_setup` raises. -/
def setupCategory : Except Setup.Failure Setup.SetupPlan → HealthCategory
  | .error _ => { name := "setup", status := .blocked, checks := 1, message := "setup plan failed" }
  | .ok setup => {
    name := "setup"
    status :=
      if setup.blocked then .blocked
      else if setup.actions.any fun action => action.severity = .warn then .degraded
      else .ready
    checks := setup.actions.length
    message := "actions=" ++ toString setup.actions.length ++ "; dry_run=True" }

/-- `_recovery_category`, of the actions unless `repair_local_state` raises. -/
def recoveryCategory : Except Setup.Failure (List Setup.RepairAction) → HealthCategory
  | .error _ =>
    { name := "recovery", status := .blocked, checks := 1, message := "repair plan failed" }
  | .ok actions =>
    let planned := actions.countP fun action => action.status = "planned"
    { name := "recovery"
      status := if planned ≠ 0 then .degraded else .ready
      checks := actions.length
      message := "planned_repairs=" ++ toString planned ++ "; dry_run=True" }

/-- `_skills_category`, with what says whether a skill is packaged and whether it is discoverable. -/
def skillsCategory (packaged discoverable : String → Bool) : HealthCategory where
  name := "skills"
  status := if documentSkillAllowlist.any fun skill => !discoverable skill then .blocked else .ready
  checks := documentSkillAllowlist.length
  message := "packaged=" ++ toString (documentSkillAllowlist.countP packaged) ++ "; discoverable=" ++
    toString (documentSkillAllowlist.countP discoverable)

/-- What the update inspection reads of a host and of a configuration. -/
def updateHost {O : Type} (host : Doctor.Host O) : Update.Host O where
  entry := host.entry
  loads := host.loads
  platform := host.platformId

def updateConfig (config : Doctor.Config) : Update.Config where
  invalid := config.invalid
  dataDir := config.dataDir

section

variable {O : Type} [Objects O] (sch : SignatureScheme) (host : Doctor.Host O)
  (packaged : String → Bool) (config : Setup.Config)

/-- The categories of a summary. -/
def categories (report : Report) (update rollback : Update.UpdateStatus) : List HealthCategory :=
  [setupCategory (Setup.planSetup host config),
    recoveryCategory (Setup.repairLocalState host config)] ++
  (checkCategories.map fun category => categoryFromReport category.1 category.2 report) ++
  [{ name := "restore", status := .unknown, checks := 1
     message := "restore readiness depends on a selected backup archive" },
   { name := "migration", status := .ready, checks := 1
     message := "migration UX is available and dry-run by default" },
   { name := "update", status := metadataStatus update.status, checks := 2
     message := "update=" ++ update.status ++ "; rollback=" ++ rollback.status },
   skillsCategory packaged host.discoverable]

def summarizeHealth (runtime : Doctor.Runtime) (lifecycleState : Option (Option AgentState))
    (secretStore : Option Bool) : Except Failure HealthSummary := do
  let report ← (Doctor.runDoctor host config.toConfig runtime lifecycleState secretStore).mapError .doctor
  let update ← (Update.checkUpdates sch (updateHost host) (updateConfig config.toConfig)).mapError .update
  let rollback ←
    (Update.rollbackUpdate sch (updateHost host) (updateConfig config.toConfig)).mapError .update
  let categories := categories host packaged config report update rollback
  return {
    status := overallStatus categories
    categories
    updateStatus := update.status
    rollbackStatus := rollback.status
    networkUsed := update.networkUsed || rollback.networkUsed }

end

end ProjectMaya.Health
