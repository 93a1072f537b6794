import Mathlib.Data.List.Lex
import Mathlib.Data.String.Basic
import Mathlib.Data.List.Infix
import Mathlib.Data.List.Nodup
import ProjectMaya.Logic.Check

/-! # Local backup and restore

`createLocalBackup` archives the configuration and the files below `data_dir`;
`restoreLocalBackup` writes the members of an archive below a destination.  Paths are
lists of component names relative to `data_dir` or to the destination; a member's name is
the text in the archive. -/

namespace ProjectMaya.Backup

open Logic

abbrev Name := List Char

/-- A path relative to a directory. -/
abbrev RelPath := List Name

abbrev Content := List UInt8

def name (s : String) : Name := s.toList

structure File where
  path : RelPath
  content : Content
  deriving DecidableEq, Repr

/-- A component of a path. -/
def validName (n : Name) : Bool :=
  n ≠ [] && n ≠ ['.'] && n ≠ ['.', '.'] && !n.contains '/'

/-- The tree below `data_dir`: its files, and its directories as far as they hold none. -/
structure Tree where
  files : List File
  dirs : List RelPath
  nodup : (files.map File.path).Nodup
  named : ∀ f ∈ files, f.path ≠ [] ∧ ∀ n ∈ f.path, validName n = true
  flat : ∀ f ∈ files, ∀ g ∈ files, f.path <+: g.path → f.path = g.path

/-- The content of the file at a path. -/
def contentAt (files : List File) (p : RelPath) : Option Content :=
  (files.find? fun f => f.path = p).map File.content

def isFile (files : List File) (p : RelPath) : Bool := files.any fun f => f.path = p

def Tree.isDir (t : Tree) (p : RelPath) : Bool :=
  p = [] || t.dirs.any (fun d => p.isPrefixOf d) ||
    t.files.any fun f => p.isPrefixOf f.path && f.path ≠ p

/-- Where the archive goes: somewhere else, where it is free or not and its parents can be
made or not, or below `data_dir`. -/
inductive Destination where
  | outside (free : Bool) (writable : Bool)
  | inside (p : RelPath) (named : ∀ n ∈ p, validName n = true)

/-- `path.with_suffix(path.suffix + ".tmp")`: the last component gets one more suffix. -/
def temporary (p : RelPath) : RelPath := p.dropLast ++ [p.getLastD [] ++ name ".tmp"]

/-! ## What is archived -/

def backupsDir : RelPath := [name "backups"]

def memoryDatabase : RelPath := [name "memory", name "memory.sqlite3"]

def memorySidecars : List RelPath :=
  [[name "memory", name "memory.sqlite3-wal"], [name "memory", name "memory.sqlite3-shm"]]

def excludedPrefixes : List RelPath :=
  [[name "analytics", name "sources"], [name "metabase", name "application"]]

/-- `_excluded_from_default_backup`. -/
def excludedFromDefaultBackup (p : RelPath) : Bool :=
  excludedPrefixes.any fun prefx => p.take prefx.length = prefx

/-- The paths that `_iter_backup_files` yields. -/
def included (p : RelPath) : Bool :=
  !backupsDir.isPrefixOf p && !excludedFromDefaultBackup p && !memorySidecars.contains p

/-- `_iter_backup_files`, over the files that are there while the archive is written. -/
def iterBackupFiles (files : List File) : List File :=
  (files.mergeSort fun f g => decide (f.path ≤ g.path)).filter fun f => included f.path

/-- `_archive_name`. -/
def archiveName (p : RelPath) : Name := name "maya-data/" ++ ['/'].intercalate p

def configMember : Name := name "maya-config.json"

def manifestMember : Name := name "maya-backup-manifest.json"

/-- The record whose JSON text is the last member. -/
structure BackupManifest where
  schemaVersion : Nat
  createdAt : Name
  instanceId : Name
  files : Nat
  includedRoots : List Name
  excludedRoots : List Name
  runtimeVersion : Name
  deriving DecidableEq, Repr

/-- The content of a member: bytes, or the text of a manifest, kept as its record. -/
inductive Stored where
  | bytes (raw : Content)
  | manifest (m : BackupManifest)
  deriving DecidableEq, Repr

structure Member where
  filename : Name
  stored : Stored
  deriving DecidableEq, Repr

/-- The configuration: the text of its mapping, and the fields the manifest repeats. -/
structure Config where
  text : Content
  instanceId : Name
  runtimeVersion : Name
  deriving DecidableEq, Repr

/-- What a backup meets: the clock, SQLite's snapshot of a database with its two sidecar
files, and what reading the unfinished archive gives. -/
structure Host where
  createdAt : Name
  snapshot : Content → Option Content → Option Content → Option Content
  seen : Content

def excludedRoots : List Name :=
  [name "maya-data/backups", name "maya-data/analytics/sources", name "maya-data/metabase/application"]

/-- `_build_manifest`. -/
def buildManifest (c : Config) (h : Host) (archived : List File) (files : Nat) : BackupManifest where
  schemaVersion := 1
  createdAt := h.createdAt
  instanceId := c.instanceId
  files := files
  includedRoots := configMember ::
    ((archived.filterMap fun f => f.path.head?.map fun n => name "maya-data/" ++ n).dedup.mergeSort
      fun a b => decide (a ≤ b))
  excludedRoots := excludedRoots
  runtimeVersion := c.runtimeVersion

/-- The bytes that go into the archive for a file. -/
def archived (h : Host) (files : List File) (f : File) : Option Content :=
  if f.path = memoryDatabase then
    h.snapshot f.content (contentAt files [name "memory", name "memory.sqlite3-wal"])
      (contentAt files [name "memory", name "memory.sqlite3-shm"])
  else some f.content

def archiveFile (h : Host) (files : List File) (f : File) : Except String Member := do
  let raw ← fetch (archived h files f) "backup creation failed"
  return ⟨archiveName f.path, .bytes raw⟩

/-- The files below `data_dir` while the archive is written: its temporary file is there. -/
def Tree.during (t : Tree) (h : Host) : Destination → List File
  | .outside _ _ => t.files
  | .inside p _ => t.files.filter (fun f => f.path ≠ temporary p) ++ [⟨temporary p, h.seen⟩]

/-- The checks before the archive is opened, and its opening. -/
def openArchive (t : Tree) : Destination → Except String Unit
  | .outside free writable => do
    ensure free "backup destination already exists"
    ensure writable "backup creation failed"
  | .inside p _ => do
    ensure (¬ isFile t.files p ∧ ¬ t.isDir p) "backup destination already exists"
    -- `mkdir(parents=True)` runs into a file
    ensure (t.files.all fun f => !f.path.isPrefixOf p.dropLast) "not a directory"
    ensure (¬ t.isDir (temporary p)) "backup creation failed"

/-- `create_local_backup`: the members of the archive. -/
def createLocalBackup (c : Config) (h : Host) (t : Tree) (d : Destination) :
    Except String (List Member) := do
  openArchive t d
  let files := iterBackupFiles (t.during h d)
  let members ← files.mapM (archiveFile h (t.during h d))
  let manifest := buildManifest c h files (files.length + 2)
  return ⟨configMember, .bytes c.text⟩ :: members ++ [⟨manifestMember, .manifest manifest⟩]

/-! ## Restore -/

/-- `Path(name).parts`. -/
def parts (n : Name) : RelPath := (n.splitOn '/').filter fun c => c ≠ [] && c ≠ ['.']

def dataPrefix : Name := name "maya-data/"

/-- One member of `_restore_members`: whether it is restored. -/
def restoreMember (m : Member) : Except String Bool :=
  if m.filename.getLast? = some '/' then .ok false
  else if m.filename = configMember then .ok true
  else if m.filename = manifestMember then .ok false
  else if dataPrefix.isPrefixOf m.filename then do
    let ps := parts (m.filename.drop dataPrefix.length)
    ensure (ps ≠ [] ∧ ['.', '.'] ∉ ps) "backup archive contains unsafe paths"
    return true
  else .error "backup archive contains unsupported paths"

/-- `_restore_members`. -/
def restoreMembers (archive : List Member) : Except String (List Member) := do
  let members ← archive.filterM restoreMember
  ensure (configMember ∈ members.map Member.filename) "backup archive is missing maya-config.json"
  ensure (manifestMember ∈ archive.map Member.filename)
    "backup archive is missing maya-backup-manifest.json"
  return members

/-- `archive.getinfo`: of several members of one name the last counts. -/
def getInfo (archive : List Member) (n : Name) : Option Member :=
  archive.reverse.find? fun m => m.filename = n

/-- `_read_manifest`. -/
def readManifest (archive : List Member) : Except String BackupManifest := do
  let m ← fetch (getInfo archive manifestMember) "backup archive is missing maya-backup-manifest.json"
  match m.stored with
  | .manifest manifest => .ok manifest
  | .bytes _ => .error "backup manifest is unreadable"

def configTarget : RelPath := [name "config", name "maya-config.json"]

/-- `_restore_target`, relative to the destination. -/
def restoreTarget (n : Name) : Except String RelPath :=
  if n = configMember then .ok configTarget
  else if n = manifestMember then .ok [name "backup", manifestMember]
  else do
    let relative := n.drop dataPrefix.length
    -- an absolute name replaces the destination it is joined to
    ensure (relative.head? ≠ some '/') "backup archive path escapes destination"
    return parts relative

/-- `path.parent.mkdir(parents=True, exist_ok=True)` and `path.write_bytes`. -/
def writeFile (files : List File) (f : File) : Except String (List File) := do
  ensure (files.all fun g => !(g.path.isPrefixOf f.path && g.path ≠ f.path)) "not a directory"
  ensure (files.all fun g => !(f.path.isPrefixOf g.path && g.path ≠ f.path)) "is a directory"
  return f :: files.filter fun g => g.path ≠ f.path

/-- What reading a member gives. -/
def Member.raw (m : Member) : Content :=
  match m.stored with
  | .bytes raw => raw
  | .manifest _ => []

/-- An entry of the restore plan, with what will be read for it. -/
def planned (archive : List Member) (m : Member) : Except String File := do
  let path ← restoreTarget m.filename
  return ⟨path, ((getInfo archive m.filename).map Member.raw).getD []⟩

/-- The targets of the members of an archive. -/
def restorePlan (archive : List Member) : Except String (List File) := do
  let members ← restoreMembers archive
  let _ ← readManifest archive
  members.mapM (planned archive)

/-- `restore_local_backup(apply=True)` on a destination with some files. -/
def restoreLocalBackup (archive : List Member) (files : List File) : Except String (List File) := do
  let plan ← restorePlan archive
  ensure (plan.all fun f => files.all fun g => !f.path.isPrefixOf g.path)
    "restore destination contains existing files"
  plan.foldlM writeFile files

end ProjectMaya.Backup
