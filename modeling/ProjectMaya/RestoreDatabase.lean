import ProjectMaya.BackupRoundTrip
import ProjectMaya.Logic.Pager
import ProjectMaya.RestoreAtomic

/-! # The memory database of a restore

A backup has a snapshot of the memory database, and not the log that SQLite keeps beside it.  A
restore writes the snapshot and leaves beside it what the destination had there; SQLite then lays
the frames of the old log over the snapshot (`restored_rows_iff`). -/

namespace ProjectMaya.Restore

open Logic Logic.FileTree Release
open Backup (Content Name RelPath archiveName configMember createLocalBackup manifestMember
  memoryDatabase name parts)

/-- How SQLite reads the files of a database. -/
structure Format (P : Type) where
  main : Content → List P
  wal : Content → List (Logic.Pager.Frame P)
  journal : Content → Option (Logic.Pager.Journal P)

def contentOf : Option (Node Name Content) → Option Content
  | some (.file content) => some content
  | _ => none

/-- The content of the file that a path leads to, when these nodes are at the paths of the tree. -/
def fileAt (tree : FileTree) (node : RelPath → Option (Node Name Content)) (steps : List FileStep) :
    Option Content := contentOf ((tree.resolve [] steps).bind node)

/-- The path of a file beside this one. -/
def beside (path : RelPath) (suffix : String) : RelPath :=
  path.dropLast ++ [path.getLastD [] ++ name suffix]

/-- What is beside the main file of a database: its log and its journal. -/
def opened {P : Type} (format : Format P) (tree : FileTree)
    (node : RelPath → Option (Node Name Content)) (path : RelPath) (main : List P) : Logic.Pager.Store P where
  main := main
  wal := ((fileAt tree node ((beside path "-wal").map .name)).map format.wal).getD []
  journal := (fileAt tree node ((beside path "-journal").map .name)).bind format.journal

/-- A database as SQLite finds it; links are followed first, and its other files are beside it. -/
def openDatabase {P : Type} (format : Format P) (tree : FileTree)
    (node : RelPath → Option (Node Name Content)) (steps : List FileStep) : Option (Logic.Pager.Store P) := do
  let path ← tree.resolve [] steps
  let content ← contentOf (node path)
  return opened format tree node path (format.main content)

/-- `memory/memory.sqlite3` at a destination. -/
def databaseAt (destination : RelPath) : List FileStep :=
  (destination ++ memoryDatabase).map .name

/-- The bytes of a member; a manifest is written as JSON. -/
def stored (text : Backup.BackupManifest → Content) : Backup.Stored → Content
  | .bytes raw => raw
  | .manifest manifest => text manifest

/-- An archive that was made, as it is read. -/
def zipped (text : Backup.BackupManifest → Content) (members : List Backup.Member) : List ZipInfo :=
  members.map fun m => ⟨m.filename, .ok (stored text m.stored)⟩

/-- What a plan writes. -/
def Plan.writes (plan : Plan) : List (RelPath × Content) :=
  plan.files.filterMap fun f => f.2.toOption.map fun content => (f.1, content)

section

variable {O : Type} [Objects O] {host : Host O} {device : FileDevice} {tree : FileTree}
  {source : Option Content} {destination : List FileStep} {allowOverwrite : Bool}
  {result : RestoreResult}

theorem writes_eq {plan : Plan} {writes : List (RelPath × Content)}
    (h : plan.files = writes.map readable) : plan.writes = writes := by
  unfold Plan.writes
  rw [h, List.filterMap_map]
  exact List.filterMap_some

omit [Objects O] in
theorem mem_writes {plan : Plan} {path : RelPath} {content : Content} :
    (path, content) ∈ plan.writes ↔
      ∃ n, (path, n) ∈ plan.targets ∧ readMember plan.archive n = .ok content := by
  have hread : ∀ data : Except ZipError Content, data.toOption = some content ↔
      data = .ok content := by
    intro data
    cases data <;> simp [Except.toOption]
  simp only [Plan.writes, Plan.files, List.mem_filterMap, List.mem_map, Option.map_eq_some_iff,
    Prod.mk.injEq, Prod.exists]
  constructor
  · rintro ⟨_, data, ⟨path', n, hmem, rfl, rfl⟩, content', hcontent, rfl, rfl⟩
    exact ⟨n, hmem, (hread _).1 hcontent⟩
  · rintro ⟨n, hmem, hcontent⟩
    exact ⟨path, _, ⟨path, n, hmem, rfl, rfl⟩, content, (hread _).2 hcontent, rfl, rfl⟩

/-- A restore that returns has written what it planned. -/
theorem restored_tree
    (hok : (restoreLocalBackup host device tree source destination true allowOverwrite).2 =
      .ok result) :
    ∃ plan, checkRestore host tree source destination allowOverwrite =
        .ok (result.destination, plan) ∧
      (∀ f ∈ plan.writes, Straight tree f.1) ∧
      (∀ q, (restoreLocalBackup host device tree source destination true
        allowOverwrite).1.tree.node q = placed tree plan.writes q) ∧
      (restoreLocalBackup host device tree source destination true allowOverwrite).1.tree.links =
        tree.links := by
  cases hcheck : checkRestore host tree source destination allowOverwrite with
  | error e =>
    unfold restoreLocalBackup at hok
    rw [hcheck] at hok
    cases hok
  | ok checked =>
    have hs := straight_files host tree source destination allowOverwrite hcheck
    obtain ⟨hdisk, hraises⟩ :=
      restoreLocalBackup_apply host device tree source destination allowOverwrite hcheck
    have hdestination : result.destination = checked.1 := by
      unfold restoreLocalBackup at hok
      rw [hcheck] at hok
      simp only [if_true] at hok
      split at hok
      · cases hok
        rfl
      · cases hok
    rcases writable_or_failsAt device tree checked.2.files with
      ⟨writes, hwrites, hwritable⟩ | ⟨before, path, data, hfails⟩
    · rw [hwrites] at hs
      have hstraight : ∀ f ∈ writes, Straight tree f.1 := fun f hf =>
        hs (readable f) (List.mem_map_of_mem hf)
      obtain ⟨-, hplaced, hlinks⟩ := restoreFiles_writes hstraight hwritable
      rw [← hwrites, ← hdisk] at hplaced hlinks
      refine ⟨checked.2, ?_, ?_⟩
      · rw [hdestination]
      · rw [writes_eq hwrites]
        exact ⟨hstraight, hplaced, hlinks⟩
    · obtain ⟨e, he⟩ := hraises.2 (restoreFiles_failsAt hs hfails).1
      rw [hok] at he
      cases he

/-- So a database is found there as what was written says. -/
theorem openDatabase_restored {P : Type} (format : Format P)
    (hok : (restoreLocalBackup host device tree source destination true allowOverwrite).2 =
      .ok result) :
    ∃ plan, checkRestore host tree source destination allowOverwrite =
        .ok (result.destination, plan) ∧
      ∀ steps, openDatabase format
          (restoreLocalBackup host device tree source destination true allowOverwrite).1.tree
          (restoreLocalBackup host device tree source destination true
            allowOverwrite).1.tree.node steps =
        openDatabase format tree (placed tree plan.writes) steps := by
  obtain ⟨plan, hcheck, hstraight, hplaced, hlinks⟩ := restored_tree hok
  refine ⟨plan, hcheck, fun steps => ?_⟩
  have hresolve := resolve_placed hplaced hlinks hstraight
  unfold openDatabase opened fileAt
  simp only [hresolve, funext hplaced]

/-! ## The snapshot -/

theorem mem_mapM_of_mem {α β ε : Type} {f : α → Except ε β} {l : List α} {bs : List β} {a : α}
    {b : β} (h : l.mapM f = .ok bs) (ha : a ∈ l) (hb : f a = .ok b) : b ∈ bs := by
  have hg : ∀ x ∈ l, ∀ y, f x = .ok y → y = (f x).toOption.getD b := by
    intro x _ y hy
    rw [hy]
    rfl
  obtain ⟨rfl, -⟩ := mapM_eq_ok hg h
  exact List.mem_map.2 ⟨a, ha, by rw [hb]; rfl⟩

omit [Objects O] in
theorem readMember_zipped {text : Backup.BackupManifest → Content} {members : List Backup.Member}
    {m : Backup.Member} (h : (members.map Backup.Member.filename).Nodup) (hm : m ∈ members) :
    readMember (zipped text members) m.filename = .ok (stored text m.stored) := by
  have hfind : (zipped text members).reverse.find? (fun info => info.filename = m.filename) =
      some ⟨m.filename, .ok (stored text m.stored)⟩ := by
    have hinfo := Backup.getInfo_of_mem h hm
    unfold Backup.getInfo at hinfo
    unfold zipped
    rw [← List.map_reverse, List.find?_map]
    simp only [Function.comp_def]
    rw [hinfo]
    rfl
  unfold readMember
  rw [hfind]
  rfl

/-- The members of an archive that was made have different names. -/
theorem nodup_made {c : Backup.Config} {h : Backup.Host} {t : Backup.Tree} {d : Backup.Destination}
    {members : List Backup.Member} (hmade : createLocalBackup c h t d = .ok members) :
    (members.map Backup.Member.filename).Nodup := by
  obtain ⟨-, -, m, rfl⟩ := Backup.createLocalBackup_eq_ok hmade
  exact Backup.nodup_memberList Backup.named_archivedFiles Backup.nodup_archivedFiles

theorem targetSteps_database (target : RelPath) :
    targetSteps target (archiveName memoryDatabase) = databaseAt target := by
  have hparts : (parts (removeDataPrefix (archiveName memoryDatabase))).map toStep =
      memoryDatabase.map .name := by decide
  have hrelative : isAbsolute (removeDataPrefix (archiveName memoryDatabase)) = false := by decide
  unfold targetSteps
  rw [if_neg (by decide), if_neg (by decide)]
  unfold join databaseAt
  rw [hparts, hrelative, List.map_append]
  rfl

/-- The snapshot is among what is written, at the database's place. -/
theorem mem_writes_database {content raw : Content} {c : Backup.Config} {h : Backup.Host}
    {t : Backup.Tree} {d : Backup.Destination} {members : List Backup.Member}
    {text : Backup.BackupManifest → Content} {target path : RelPath} {plan : Plan}
    (hmade : createLocalBackup c h t d = .ok members)
    (hraw : ⟨archiveName memoryDatabase, .bytes raw⟩ ∈ members)
    (hzip : host.openZip content = .ok (zipped text members))
    (hcheck : checkRestore host tree (some content) destination allowOverwrite =
      .ok (target, plan))
    (hpath : tree.resolve [] (databaseAt target) = some path) :
    (path, archiveName memoryDatabase) ∈ plan.targets ∧
      readMember plan.archive (archiveName memoryDatabase) = .ok raw ∧
      (path, raw) ∈ plan.writes := by
  obtain ⟨content', hopened, hplan, -⟩ := checkRestore_eq_ok.1 hcheck
  have hcontent := (openRestore_eq_ok.1 hopened).2.1
  cases hcontent
  obtain ⟨harchive, names, hnames, -, htargets⟩ := readPlan_eq_ok.1 hplan
  have heq : plan.archive = zipped text members := Except.ok.inj (harchive.symm.trans hzip)
  have hread : readMember plan.archive (archiveName memoryDatabase) = .ok raw := by
    rw [heq]
    exact readMember_zipped (nodup_made hmade) hraw
  have hname : archiveName memoryDatabase ∈ nameList plan.archive := by
    rw [heq]
    exact List.mem_map.2 ⟨_, List.mem_map_of_mem hraw, rfl⟩
  have hrestored := mem_restoreMembers hnames hname (by decide) (by decide)
  have ht : Straight tree target :=
    straight_of_resolve straight_nil (openRestore_eq_ok.1 hopened).1
  obtain ⟨t, htarget⟩ := mapM_mem htargets _ hrestored
  have hmem := mem_mapM_of_mem htargets hrestored htarget
  obtain ⟨path', hpath', rfl⟩ := Logic.map_eq_ok.1 htarget
  have hresolve := ((restoreTarget_eq_ok ht).1 hpath').1
  rw [targetSteps_database, hpath] at hresolve
  cases hresolve
  exact ⟨hmem, hread, mem_writes.2 ⟨_, hmem, hread⟩⟩

/-- Where nothing else is restored to its place, the snapshot is there. -/
theorem latest_database {plan : Plan} {path : RelPath} {n : Name} {raw : Content}
    (hread : readMember plan.archive n = .ok raw) (hmem : (path, raw) ∈ plan.writes)
    (honly : ∀ target ∈ plan.targets, target.1 = path → target.2 = n) :
    latest plan.writes path = some raw := by
  obtain ⟨content, hlatest⟩ := latest_of_mem hmem
  obtain ⟨m, htarget, hm⟩ := mem_writes.1 (mem_of_latest hlatest)
  rw [show m = n from honly _ htarget rfl, hread] at hm
  cases hm
  exact hlatest

/-- **The restored database.**  After an overwriting restore of an archive that was made, a reader
finds the rows of the snapshot exactly when the log and the journal that are beside it then, most
often those that the destination had, change none of them. -/
theorem restored_rows_iff {P R : Type} [Inhabited P] (rows : List P → R) (format : Format P)
    {c : Backup.Config} {h : Backup.Host} {t : Backup.Tree} {d : Backup.Destination}
    {members : List Backup.Member} {text : Backup.BackupManifest → Content} {content raw : Content}
    {target path : RelPath} {plan : Plan}
    (hmade : createLocalBackup c h t d = .ok members)
    (hraw : ⟨archiveName memoryDatabase, .bytes raw⟩ ∈ members)
    (hzip : host.openZip content = .ok (zipped text members))
    (hcheck : checkRestore host tree (some content) destination true = .ok (target, plan))
    (hok : (restoreLocalBackup host device tree (some content) destination true true).2 =
      .ok result)
    (hpath : tree.resolve [] (databaseAt target) = some path) :
    ((∃ s, openDatabase format
          (restoreLocalBackup host device tree (some content) destination true true).1.tree
          (restoreLocalBackup host device tree (some content) destination true true).1.tree.node
          (databaseAt result.destination) = some s ∧
        rows s.pages = rows (format.main raw)) ↔
      ∃ main, latest plan.writes path = some main ∧
        rows (opened format tree (placed tree plan.writes) path (format.main main)).pages =
          rows (format.main raw)) ∧
      ((∀ target ∈ plan.targets, target.1 = path → target.2 = archiveName memoryDatabase) →
        latest plan.writes path = some raw) := by
  obtain ⟨-, hread, hmem⟩ := mem_writes_database hmade hraw hzip hcheck hpath
  obtain ⟨plan', hcheck', hopened⟩ := openDatabase_restored format hok
  rw [hcheck] at hcheck'
  cases hcheck'
  refine ⟨?_, latest_database hread hmem⟩
  obtain ⟨main, hlatest⟩ := latest_of_mem hmem
  rw [hopened, hlatest]
  unfold openDatabase
  rw [hpath]
  simp only [Option.bind_eq_bind, Option.bind_some, placed_of_latest hlatest, contentOf,
    Option.pure_def, Option.some.injEq, exists_eq_left', Option.bind_some]

end

/-! ## Runs -/

deriving instance DecidableEq for ZipInfo, Plan

namespace Sample

/-- `data_dir` with a memory database of one page. -/
def memoryTree : Backup.Tree where
  files := [⟨memoryDatabase, [1]⟩]
  dirs := []
  nodup := by decide
  named := by decide
  flat := by decide

def manifest : Backup.BackupManifest :=
  Backup.buildManifest Backup.Sample.config (Backup.plainHost []) memoryTree.files 3

def members : List Backup.Member :=
  [⟨configMember, .bytes [123, 125]⟩, ⟨archiveName memoryDatabase, .bytes [1]⟩,
    ⟨manifestMember, .manifest manifest⟩]

theorem members_made : createLocalBackup Backup.Sample.config (Backup.plainHost []) memoryTree
    (.outside true true) = .ok members := by
  have hfiles : Backup.iterBackupFiles memoryTree.files = memoryTree.files := by
    unfold Backup.iterBackupFiles
    rw [show memoryTree.files = [⟨memoryDatabase, [1]⟩] from rfl, List.mergeSort_singleton]
    decide
  unfold createLocalBackup
  rw [show memoryTree.during (Backup.plainHost []) (.outside true true) = memoryTree.files from rfl,
    hfiles]
  rfl

/-- The manifest is an empty object. -/
def madeHost : Host Empty where
  openZip _ := .ok (zipped (fun _ => [123, 125]) members)
  loads := (host (name "maya-data/a")).loads

/-- A page is a byte, and so is a committed frame of the first page. -/
def bytes : Format UInt8 where
  main := id
  wal content := content.map fun b => { page := 0, content := b, commit := some 1 }
  journal _ := none

/-- An earlier run has left a log in the destination, or not. -/
def leftLog (log : Bool) : FileTree :=
  let tree : FileTree := (Tree.bare.put [name "restored"] .dir).put
    [name "restored", name "memory"] .dir
  if log then
    tree.put [name "restored", name "memory", name "memory.sqlite3-wal"] (.file [9])
  else tree

def restoredInto (log : Bool) : FileDisk × Except Raised RestoreResult :=
  restoreLocalBackup madeHost device (leftLog log) (some []) destination true true

def restoredResult : RestoreResult :=
  { destination := [name "restored"], files := 2, dryRun := false }

def restoredPlan : Plan where
  archive := zipped (fun _ => [123, 125]) members
  targets :=
    [([name "restored", name "config", configMember], configMember),
      ([name "restored", name "memory", name "memory.sqlite3"], archiveName memoryDatabase)]

/-- The page that a reader of the restored database finds. -/
def foundPages (log : Bool) : Option (List UInt8) :=
  (openDatabase bytes (restoredInto log).1.tree (restoredInto log).1.tree.node
    (databaseAt [name "restored"])).map Logic.Pager.Store.pages

end Sample

open Sample in
/-- The frame that was left takes the place of the page of the snapshot. -/
theorem log_laid_over :
    createLocalBackup Backup.Sample.config (Backup.plainHost []) memoryTree (.outside true true) =
        .ok members ∧
      ⟨archiveName memoryDatabase, .bytes [1]⟩ ∈ members ∧
      madeHost.openZip [] = .ok (zipped (fun _ => [123, 125]) members) ∧
      (restoredInto true).2 = .ok restoredResult ∧
      ¬ ∃ s, openDatabase bytes (restoredInto true).1.tree (restoredInto true).1.tree.node
          (databaseAt restoredResult.destination) = some s ∧ s.pages = bytes.main [1] := by
  refine ⟨members_made, by decide, rfl, by decide +kernel, ?_⟩
  rintro ⟨s, hs, hpages⟩
  have hfound : foundPages true = some [9] := by decide +kernel
  unfold foundPages at hfound
  rw [show [name "restored"] = restoredResult.destination from rfl, hs, Option.map_some, hpages]
    at hfound
  cases hfound

open Sample in
/-- Without it, the page of the snapshot is found. -/
theorem snapshot_found :
    ∃ s, openDatabase bytes
          (restoreLocalBackup madeHost device (leftLog false) (some []) destination true
            true).1.tree
          (restoreLocalBackup madeHost device (leftLog false) (some []) destination true
            true).1.tree.node
          (databaseAt restoredResult.destination) = some s ∧
        id s.pages = id (bytes.main [1]) := by
  have hraw : ⟨archiveName memoryDatabase, .bytes [1]⟩ ∈ members := by decide
  have hzip : madeHost.openZip [] = .ok (zipped (fun _ => [123, 125]) members) := rfl
  have hcheck : checkRestore madeHost (leftLog false) (some []) destination true =
      .ok ([name "restored"], restoredPlan) := by decide +kernel
  have hok : (restoreLocalBackup madeHost device (leftLog false) (some []) destination true
      true).2 = .ok restoredResult := by decide +kernel
  have hpath : (leftLog false).resolve [] (databaseAt [name "restored"]) =
      some [name "restored", name "memory", name "memory.sqlite3"] := by decide +kernel
  have honly : ∀ target ∈ restoredPlan.targets,
      target.1 = [name "restored", name "memory", name "memory.sqlite3"] →
        target.2 = archiveName memoryDatabase := by decide +kernel
  obtain ⟨hrows, hsnapshot⟩ := restored_rows_iff id bytes members_made hraw hzip hcheck hok hpath
  refine hrows.2 ⟨[1], hsnapshot honly, ?_⟩
  decide +kernel

end ProjectMaya.Restore
