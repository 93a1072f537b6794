import ProjectMaya.Logic.Check
import ProjectMaya.Logic.Pager

/-! # The backup before a migration

`migrate` copies an existing destination before it writes there.  `backupDatabase` copies the main
file alone, so what is only in the destination's `-wal` file is not in the backup, and neither is
the journal that would undo an unfinished transaction (`prepare_complete_iff`); the snapshot that a
local backup takes of the memory database goes through SQLite and has all of it
(`snapshot_complete`). -/

namespace ProjectMaya.Migration

open Logic Logic.Pager

inductive Error where
  | valueError (message : String)
  | permissionError (message : String)
  | fileNotFound (message : String)
  | sameFile
  | runtimeError (message : String)
  | backupError (message : String)
  deriving DecidableEq, Repr

def targetSchemas : List String := ["registry", "memory_entries"]

/-- What `migrate` finds of the legacy database: nothing, a database without `memory_kv`, or its
rows. -/
inductive Source where
  | missing
  | noTable
  | table (rows : Nat)
  deriving DecidableEq, Repr

structure Call where
  fromSrc : String
  toDest : String
  dryRun : Bool := true
  targetSchema : String := "registry"
  allowModify : Bool := false
  backupPath : Option String := none

variable {P : Type}

/-- The databases by path, each with the `-wal` and `-journal` files beside it, and which of the
paths exist. -/
structure Disk (P : Type) where
  store : String → Store P
  there : String → Bool

def Disk.set (disk : Disk P) (path : String) (s : Store P) : Disk P where
  store := Function.update disk.store path s
  there := Function.update disk.there path true

/-- What SQLite and other programs do while the backup is made. -/
structure Host (P : Type) where
  resolve : String → String
  source : String → Source
  /-- `PRAGMA quick_check` answers "ok". -/
  quickCheck : List P → Bool
  /-- What `copy2` has read at the end of a file that is written meanwhile. -/
  seen : List P → List P
  /-- What happens to the destination during the copy, and then until the first write. -/
  during : Store P → Store P
  after : Store P → Store P

/-- What the migration has when it begins to write. -/
structure Ready (P : Type) where
  backup : Option (Store P)
  destination : Store P

variable [Inhabited P]

/-- `shutil.copy2` copies the file of that name and no other. -/
def copy2 (host : Host P) (source backup : String) (disk : Disk P) : Except Error (Disk P) := do
  ensure (source ≠ backup) .sameFile
  let main := (disk.store source).main
  let disk := disk.set source (host.during (disk.store source))
  pure (disk.set backup { disk.store backup with main := host.seen main })

/-- `_backup_database` -/
def backupDatabase (host : Host P) (source backup : String) (disk : Disk P) :
    Except Error (Disk P) := do
  let disk ← copy2 host source backup disk
  ensure ((disk.store source).main.length = (disk.store backup).main.length)
    (.runtimeError "database backup size verification failed")
  ensure (host.quickCheck (disk.store backup).pages = true)
    (.runtimeError "database backup integrity verification failed")
  -- closing the connection leaves everything in the main file
  pure (disk.set backup (disk.store backup).settle)

/-- The backup of an existing destination, and what is at the destination then. -/
def backUp (host : Host P) (call : Call) (disk : Disk P) : Except Error (Ready P) :=
  let destination := host.resolve call.toDest
  if disk.there destination then do
    let path ← fetch (call.backupPath.filter fun path => path ≠ "")
      (.permissionError "an existing destination requires backup_path")
    let disk ← backupDatabase host destination (host.resolve path) disk
    pure
      { backup := some (disk.store (host.resolve path))
        destination := host.after (disk.store destination) }
  else .ok { backup := none, destination := host.after (disk.store destination) }

/-- `source.execute("SELECT key, value FROM memory_kv")` and the checks before it. -/
def readSource (host : Host P) (call : Call) : Except Error Nat :=
  match host.source (host.resolve call.fromSrc) with
  | .missing =>
    .error (.fileNotFound ("legacy source DB not found: " ++ host.resolve call.fromSrc))
  | .noTable => .error (.runtimeError "legacy table 'memory_kv' not found in source DB")
  | .table rows => .ok rows

/-- `migrate` up to its first write to the destination; a dry run ends before that. -/
def prepare (host : Host P) (call : Call) (disk : Disk P) : Except Error (Option (Ready P)) := do
  ensure (call.targetSchema ∈ targetSchemas)
    (.valueError ("unsupported target_schema: " ++ call.targetSchema))
  ensure (call.dryRun = true ∨ call.allowModify = true)
    (.permissionError "apply requires allow_modify=True")
  let _rows ← readSource host call
  if call.dryRun then pure none else return some (← backUp host call disk)

/-- What the copy of the main file is read as at the backup path, where the files that lie beside
it are those of an earlier database of that name. -/
def Host.bare (host : Host P) (main : List P) (earlier : Store P) : List P :=
  ({ earlier with main := host.seen main } : Store P).pages

/-- What the backup and the destination are when the migration begins to write. -/
theorem backUp_eq_ok {host : Host P} {call : Call} {disk : Disk P} {ready : Ready P}
    {backup : Store P} (h : backUp host call disk = .ok ready) (hb : ready.backup = some backup) :
    ∃ path, call.backupPath = some path ∧
      backup.pages = host.bare (disk.store (host.resolve call.toDest)).main
        (disk.store (host.resolve path)) ∧
      ready.destination =
        host.after (host.during (disk.store (host.resolve call.toDest))) := by
  unfold backUp at h
  by_cases hthere : disk.there (host.resolve call.toDest) = true
  · simp only [hthere, if_true, backupDatabase, copy2, bind_eq_ok, ensure_eq_ok, fetch_eq_ok,
      pure_eq_ok] at h
    obtain ⟨path, hpath, disk', hbackup, rfl⟩ := h
    obtain ⟨copied, ⟨-, hne, rfl⟩, -, -, -, -, rfl⟩ := hbackup
    obtain rfl := Option.some.inj hb
    refine ⟨path, (Option.filter_eq_some_iff.1 hpath).1, ?_, ?_⟩
    · simp only [Disk.set, Function.update_self, Function.update_of_ne (Ne.symm hne)]
      exact pages_bare _
    · simp only [Disk.set, Function.update_self, Function.update_of_ne hne]
  · simp only [hthere] at h
    obtain rfl := Except.ok.inj h
    cases hb

theorem prepare_eq_ok {host : Host P} {call : Call} {disk : Disk P} {ready : Ready P}
    (h : prepare host call disk = .ok (some ready)) : backUp host call disk = .ok ready := by
  unfold prepare at h
  simp only [bind_eq_ok, ensure_eq_ok] at h
  obtain ⟨-, -, -, -, rows, -, h⟩ := h
  by_cases hdry : call.dryRun = true
  · simp [hdry] at h
  · simp only [hdry, Bool.false_eq_true, if_false, bind_eq_ok, pure_eq_ok] at h
    obtain ⟨ready', hready, heq⟩ := h
    obtain rfl := Option.some.inj heq
    exact hready

/-- The backup holds the rows of the destination exactly when the main file alone, as it was
copied, holds them: what is only in the log changes no row, no journal is to be rolled back, and
nothing is committed meanwhile. -/
theorem prepare_complete_iff {R : Type} (rows : List P → R) (host : Host P) (call : Call)
    (disk : Disk P) (path : String) (ready : Ready P) (backup : Store P)
    (hpath : call.backupPath = some path)
    (h : prepare host call disk = .ok (some ready)) (hb : ready.backup = some backup) :
    rows backup.pages = rows ready.destination.pages ↔
      rows (host.bare (disk.store (host.resolve call.toDest)).main
          (disk.store (host.resolve path))) =
        rows (host.after (host.during (disk.store (host.resolve call.toDest)))).pages := by
  obtain ⟨path', hpath', hpages, hdest⟩ := backUp_eq_ok (prepare_eq_ok h) hb
  obtain rfl : path = path' := Option.some.inj (hpath.symm.trans hpath')
  rw [hpages, hdest]

/-- With no files beside the backup's path, and nobody but readers, checkpoints and unfinished
transactions meanwhile, it is enough that the log and the journal add nothing to the main file. -/
theorem complete_of_checkpointed {R : Type} (rows : List P → R) {host : Host P} {call : Call}
    {disk : Disk P} {path : String} {ready : Ready P} {backup : Store P}
    (hpath : call.backupPath = some path)
    (h : prepare host call disk = .ok (some ready)) (hb : ready.backup = some backup)
    (hseen : host.seen = id)
    (hbeside : disk.store (host.resolve path) =
      { main := (disk.store (host.resolve path)).main })
    (hduring : ∀ s, Relation.ReflTransGen Quiet s (host.during s))
    (hafter : ∀ s, Relation.ReflTransGen Quiet s (host.after s))
    (hcheckpointed : (disk.store (host.resolve call.toDest)).pages =
      (disk.store (host.resolve call.toDest)).main) :
    rows backup.pages = rows ready.destination.pages := by
  apply (prepare_complete_iff rows host call disk path ready backup hpath h hb).2
  have hbare : host.bare (disk.store (host.resolve call.toDest)).main
      (disk.store (host.resolve path)) = (disk.store (host.resolve call.toDest)).main := by
    unfold Host.bare
    rw [hbeside, hseen]
    exact pages_bare _
  rw [hbare, pages_of_quiet (hafter _), pages_of_quiet (hduring _), hcheckpointed]

/-! ## The other snapshot -/

/-- `_snapshot_sqlite_database`: SQLite copies what a reader of the source finds. -/
def snapshotSqliteDatabase (integrityCheck : List P → Bool) (source : Store P) :
    Except Error (Store P) := do
  let destination : Store P := { main := source.pages }
  ensure (integrityCheck destination.pages = true)
    (.backupError "memory database snapshot failed integrity check")
  pure destination

/-- The snapshot of a local backup is complete whatever is in the log. -/
theorem snapshot_complete {integrityCheck : List P → Bool} {source destination : Store P}
    (h : snapshotSqliteDatabase integrityCheck source = .ok destination) :
    destination.pages = source.pages := by
  unfold snapshotSqliteDatabase at h
  simp only [bind_eq_ok, ensure_eq_ok, pure_eq_ok] at h
  obtain ⟨-, -, rfl⟩ := h
  exact pages_bare _

/-! ## Runs -/

namespace Sample

/-- A page holds some rows. -/
abbrev Page := List String

def host : Host Page where
  resolve := id
  source := fun path => if path = "/legacy.sqlite3" then .table 1 else .missing
  quickCheck := fun _ => true
  seen := id
  during := id
  after := id

def call : Call where
  fromSrc := "/legacy.sqlite3"
  toDest := "/entries.sqlite3"
  dryRun := false
  allowModify := true
  backupPath := some "/backup.sqlite3"

/-- One destination at that path. -/
def disk (s : Store Page) : Disk Page where
  store := fun path => if path = call.toDest then s else { main := [] }
  there := fun path => path = call.toDest

/-- Two rows are committed, the second of them in the log only. -/
def logged : Store Page where
  main := [["schema"], ["first"]]
  wal := [{ page := 1, content := ["first", "second"], commit := some 2 }]

/-- The same after a checkpoint. -/
def checkpointed : Store Page where
  main := [["schema"], ["first", "second"]]
  wal := logged.wal

end Sample

open Sample in
/-- The row in the log is in the destination and not in the backup. -/
theorem logged_missing : ∃ ready backup,
    prepare host call (disk logged) = .ok (some ready) ∧ ready.backup = some backup ∧
      ready.destination.pages.flatten = ["schema", "first", "second"] ∧
      backup.pages.flatten = ["schema", "first"] :=
  ⟨_, _, rfl, rfl, by decide, by decide⟩

open Sample in
theorem prepare_complete_checkpointed : ∃ ready backup,
    prepare host call (disk checkpointed) = .ok (some ready) ∧ ready.backup = some backup ∧
      (backup.pages.flatten = ready.destination.pages.flatten ↔
        (host.bare checkpointed.main { main := [] }).flatten =
          (host.after (host.during checkpointed)).pages.flatten) :=
  ⟨_, _, rfl, rfl,
    prepare_complete_iff List.flatten host call (disk checkpointed) "/backup.sqlite3" _ _ rfl rfl rfl⟩

end ProjectMaya.Migration
