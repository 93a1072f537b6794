import ProjectMaya.Backup
import ProjectMaya.JsonFile
import ProjectMaya.Logic.FileTree

/-! # Restore

`plan_restore_backup`, `inspect_backup_archive` and `restore_local_backup`, of any archive and into
any tree.  The members of an archive may have any names, and reading them may fail; the destination
may have links in it, and the system may refuse to make directories or break off writing.  The
archive itself is not among the files that are overwritten. -/

namespace ProjectMaya.Restore

open Logic Logic.FileTree Release
open Backup (Content Name RelPath configMember dataPrefix manifestMember name parts)

abbrev FileTree := Logic.FileTree.Tree Name Content

abbrev FileDisk := Logic.FileTree.Disk Name Content

abbrev FileStep := Logic.FileTree.Step Name

abbrev FileDevice := Logic.FileTree.Device Name Content

/-- What `zipfile` raises. -/
inductive ZipError where
  | badZipFile
  | osError
  /-- An encrypted member, an unknown compression, data that is no compressed data, and the like. -/
  | other
  deriving DecidableEq, Repr

inductive Raised where
  /-- `RestoreError` -/
  | restore (message : String)
  | zip (e : ZipError)
  | osError
  /-- `RuntimeError`: a loop of links -/
  | runtimeError
  | read (e : ReadError)
  | value (e : Failure)
  deriving DecidableEq, Repr

/-- An entry of an archive, with what reading it gives. -/
structure ZipInfo where
  filename : Name
  data : Except ZipError Content

/-- The archives and the JSON texts of the host. -/
structure Host (O : Type) where
  /-- `zipfile.ZipFile(source).infolist()` -/
  openZip : Content → Except ZipError (List ZipInfo)
  loads : Loads O

/-- The record of `_read_manifest`. -/
structure BackupManifest where
  schemaVersion : Int
  createdAt : String
  instanceId : String
  files : Int
  includedRoots : List String
  excludedRoots : List String
  packageVersion : Option String := none
  runtimeVersion : Option String := none
  deriving DecidableEq, Repr

structure RestoreResult where
  destination : RelPath
  files : Nat
  dryRun : Bool
  conflicts : Nat := 0
  overwriteRequired : Bool := false
  manifestStatus : String := "valid"
  destinationRef : String := "restore-destination"
  deriving DecidableEq, Repr

structure BackupInspection where
  manifest : BackupManifest
  members : Nat
  deriving DecidableEq, Repr

/-! ## The archive -/

/-- `path.is_absolute()` -/
def isAbsolute (n : Name) : Bool := n.head? = some '/'

/-- `Path(name).parts` -/
def pathParts (n : Name) : List Name := (if isAbsolute n then [['/']] else []) ++ parts n

/-- `_validate_relative_archive_name` -/
def validateRelativeArchiveName (n : Name) : Except Raised Unit :=
  ensure (pathParts n ≠ [] ∧ ∀ part ∈ pathParts n, part ≠ [] ∧ part ≠ ['.'] ∧ part ≠ ['.', '.'])
    (.restore "backup archive contains unsafe paths")

/-- `name.removeprefix("maya-data/")` -/
def removeDataPrefix (n : Name) : Name :=
  if dataPrefix.isPrefixOf n then n.drop dataPrefix.length else n

/-- One entry of `_restore_members`: whether it is restored. -/
def restoreMember (n : Name) : Except Raised Bool :=
  if n.getLast? = some '/' then .ok false
  else if n = configMember then .ok true
  else if n = manifestMember then .ok false
  else if dataPrefix.isPrefixOf n then do
    validateRelativeArchiveName (removeDataPrefix n)
    return true
  else .error (.restore "backup archive contains unsupported paths")

/-- `archive.namelist()` -/
def nameList (archive : List ZipInfo) : List Name := archive.map ZipInfo.filename

/-- `_restore_members` -/
def restoreMembers (archive : List ZipInfo) : Except Raised (List Name) := do
  let members ← (nameList archive).filterM restoreMember
  ensure (configMember ∈ members) (.restore "backup archive is missing maya-config.json")
  ensure (manifestMember ∈ nameList archive)
    (.restore "backup archive is missing maya-backup-manifest.json")
  return members

/-- `archive.open(name)` and `read()`: of several members of one name the last counts. -/
def readMember (archive : List ZipInfo) (n : Name) : Except ZipError Content := do
  let info ← fetch (archive.reverse.find? fun info => info.filename = n) .other
  info.data

section

variable {O : Type} [Objects O] (host : Host O)

/-- The conversions of the values of a manifest. -/
def manifestFrom (raw : List (String × Value O)) : Except Failure BackupManifest := do
  let get (key : String) (default : Value O) : Value O := (Value.lookup key raw).getD default
  let schemaVersion ← (get "schema_version" (.int 0)).toInt
  let createdAt ← (get "created_at" (.str "")).toStr
  let instanceId ← (get "instance_id" (.str "")).toStr
  let files ← (get "files" (.int 0)).toInt
  let includedRoots ← (← (get "included_roots" (.list [])).toItems).mapM Value.toStr
  let excludedRoots ← (← (get "excluded_roots" (.list [])).toItems).mapM Value.toStr
  let packageVersion ← (get "package_version" .none).toStrOrNone
  let runtimeVersion ← (get "runtime_version" .none).toStrOrNone
  return { schemaVersion, createdAt, instanceId, files, includedRoots, excludedRoots, packageVersion
           runtimeVersion }

/-- What an error in reading the manifest becomes. -/
def ofManifestData : ZipError → Raised
  | .osError => .restore "backup manifest is unreadable"
  | e => .zip e

def ofManifestText (e : ReadError) : Raised :=
  if e.isUnreadable then .restore "backup manifest is unreadable" else .read e

/-- The members of a JSON object. -/
def manifestFields : Value O → Except Raised (List (String × Value O))
  | .mapping raw => .ok raw
  | _ => .error (.restore "backup manifest must be a JSON object")

/-- `_read_manifest` -/
def readManifest (archive : List ZipInfo) : Except Raised BackupManifest := do
  ensure (manifestMember ∈ nameList archive)
    (.restore "backup archive is missing maya-backup-manifest.json")
  let content ← (readMember archive manifestMember).mapError ofManifestData
  let text ← fetch (decodeUtf8 content) (.read .unicodeDecodeError)
  let value ← (host.loads text).mapError ofManifestText
  let raw ← manifestFields value
  (manifestFrom raw).mapError .value

/-! ## Targets -/

def toStep (part : Name) : FileStep := if part = ['.', '.'] then .up else .name part

/-- `path.resolve()` -/
def resolve (tree : FileTree) (steps : List FileStep) : Except Raised RelPath :=
  fetch (tree.resolve [] steps) .runtimeError

/-- `destination / Path(relative)` -/
def join (destination : RelPath) (relative : Name) : List FileStep :=
  (if isAbsolute relative then [] else destination.map .name) ++ (parts relative).map toStep

/-- The path that a member is restored to, before it is resolved. -/
def targetSteps (destination : RelPath) (n : Name) : List FileStep :=
  if n = configMember then destination.map .name ++ [.name (name "config"), .name configMember]
  else if n = manifestMember then
    destination.map .name ++ [.name (name "backup"), .name manifestMember]
  else join destination (removeDataPrefix n)

/-- `_restore_target` -/
def restoreTarget (tree : FileTree) (destination : RelPath) (n : Name) : Except Raised RelPath := do
  let path ← resolve tree (targetSteps destination n)
  let root ← resolve tree (destination.map .name)
  ensure (root.isPrefixOf path = true) (.restore "backup archive path escapes destination")
  return path

/-- An archive that was read, and the targets of its members. -/
structure Plan where
  archive : List ZipInfo
  targets : List (RelPath × Name)

/-- What is read in `with zipfile.ZipFile(source) as archive`. -/
def readPlan (tree : FileTree) (target : RelPath) (content : Content) : Except Raised Plan := do
  let archive ← (host.openZip content).mapError .zip
  let members ← restoreMembers archive
  let _manifest ← readManifest host archive
  let targets ← members.mapM fun n => (fun path => (path, n)) <$> restoreTarget tree target n
  return { archive, targets }

/-- `except zipfile.BadZipFile` -/
def ofBadZipFile : Raised → Raised
  | .zip .badZipFile => .restore "backup archive is unreadable"
  | e => e

/-- The paths that exist, unless they may be overwritten. -/
def conflicts (tree : FileTree) (allowOverwrite : Bool) (targets : List (RelPath × Name)) :
    List RelPath :=
  (targets.map Prod.fst).filter fun path => (tree.stat path).isSome && !allowOverwrite

/-- The archive, and where it is restored to. -/
def openRestore (tree : FileTree) (source : Option Content) (destination : List FileStep) :
    Except Raised (RelPath × Content) := do
  let target ← resolve tree destination
  let content ← fetch source (.restore "backup archive does not exist")
  ensure ((tree.stat target).isSome = true → tree.stat target = some .dir)
    (.restore "restore destination is not a directory")
  return (target, content)

def planRestoreBackup (tree : FileTree) (source : Option Content) (destination : List FileStep)
    (allowOverwrite : Bool) : Except Raised RestoreResult := do
  let opened ← openRestore tree source destination
  let plan ← (readPlan host tree opened.1 opened.2).mapError ofBadZipFile
  let conflicts := conflicts tree allowOverwrite plan.targets
  return {
    destination := opened.1
    files := plan.targets.length
    dryRun := true
    conflicts := conflicts.length
    overwriteRequired := !conflicts.isEmpty }

/-- What is read of an archive to inspect it. -/
def readInspection (content : Content) : Except Raised BackupInspection := do
  let archive ← (host.openZip content).mapError .zip
  let members ← restoreMembers archive
  let manifest ← readManifest host archive
  return { manifest, members := members.length }

def inspectBackupArchive (source : Option Content) : Except Raised BackupInspection := do
  let content ← fetch source (.restore "backup archive does not exist")
  (readInspection host content).mapError ofBadZipFile

/-! ## Restoring -/

omit [Objects O] in
/-- `path.parent.mkdir(parents=True, exist_ok=True)` -/
def makeParent (device : FileDevice) (disk : FileDisk) (path : RelPath) : FileDisk × Bool :=
  makeDirs device disk [] path.dropLast

omit [Objects O] in
/-- One step of the loop: the parent is made, the member is read, and its file is written. -/
def restoreFile (device : FileDevice) (disk : FileDisk) (path : RelPath)
    (data : Except ZipError Content) : FileDisk × Option Raised :=
  let made := makeParent device disk path
  if made.2 then
    match data with
    | .error e => (made.1, some (.zip e))
    | .ok content =>
      let wrote := writeFile device made.1 path content
      (wrote.1, if wrote.2 then none else some .osError)
  else (made.1, some .osError)

/-- The members, one after the other. -/
def restoreFiles (device : FileDevice) :
    FileDisk → List (RelPath × Except ZipError Content) → FileDisk × Option Raised
  | disk, [] => (disk, none)
  | disk, (path, data) :: rest =>
    match restoreFile device disk path data with
    | (disk, none) => restoreFiles device disk rest
    | (disk, some e) => (disk, some e)

/-- The targets, with what is read for them. -/
def Plan.files (plan : Plan) : List (RelPath × Except ZipError Content) :=
  plan.targets.map fun target => (target.1, readMember plan.archive target.2)

/-- What is checked before anything is written. -/
def checkRestore (tree : FileTree) (source : Option Content) (destination : List FileStep)
    (allowOverwrite : Bool) : Except Raised (RelPath × Plan) := do
  let opened ← openRestore tree source destination
  let plan ← readPlan host tree opened.1 opened.2
  ensure (conflicts tree allowOverwrite plan.targets = [])
    (.restore "restore destination contains existing files")
  return (opened.1, plan)

def restoreLocalBackup (device : FileDevice) (tree : FileTree) (source : Option Content)
    (destination : List FileStep) (apply allowOverwrite : Bool) :
    FileDisk × Except Raised RestoreResult :=
  match checkRestore host tree source destination allowOverwrite with
  | .error e => ({ tree }, .error e)
  | .ok (target, plan) =>
    let result : RestoreResult :=
      { destination := target, files := plan.targets.length, dryRun := !apply }
    if apply then
      match restoreFiles device { tree } plan.files with
      | (disk, none) => (disk, .ok result)
      | (disk, some e) => (disk, .error e)
    else ({ tree }, .ok result)

end

end ProjectMaya.Restore
