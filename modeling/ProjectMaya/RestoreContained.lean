import ProjectMaya.ReleaseRoundTrip
import ProjectMaya.Restore

/-! # Restoring below the destination

A target is resolved before it is checked, so that no link leads out of the destination, and what
is made on the way adds no link.  The check lets the destination itself pass. -/

namespace ProjectMaya.Restore

open Logic Logic.FileTree Release
open Backup (Content Name RelPath configMember dataPrefix manifestMember name parts)

section

variable {O : Type} [Objects O] {host : Host O} {device : FileDevice} {tree : FileTree}
  {disk : FileDisk} {target path : RelPath} {n : Name} {content : Content}

/-! ## What the checks establish -/

theorem resolve_eq_ok {steps : List FileStep} :
    resolve tree steps = .ok path ↔ tree.resolve [] steps = some path := fetch_eq_ok

/-- A target is at the destination or below it. -/
theorem restoreTarget_eq_ok (ht : Straight tree target) :
    restoreTarget tree target n = .ok path ↔
      tree.resolve [] (targetSteps target n) = some path ∧ target <+: path := by
  simp only [restoreTarget, Logic.bind_eq_ok, resolve_eq_ok, resolve_of_straight ht, ensure_eq_ok, pure_eq_ok,
    Option.some.injEq, List.isPrefixOf_iff_prefix]
  constructor
  · rintro ⟨path', hpath, root, rfl, -, hroot, rfl⟩
    exact ⟨hpath, hroot⟩
  · rintro ⟨hpath, hroot⟩
    exact ⟨path, hpath, target, rfl, (), hroot, rfl⟩

/-- Whether a member is restored, unless it is rejected. -/
def restored (n : Name) : Bool := ((restoreMember n).toOption).getD false

theorem restored_eq {b : Bool} (h : restoreMember n = .ok b) : b = restored n := by
  unfold restored
  rw [h]
  rfl

theorem restoreMember_eq_true (hfile : n.getLast? ≠ some '/') (hn : n ≠ manifestMember) {b : Bool}
    (h : restoreMember n = .ok b) : b = true := by
  unfold restoreMember at h
  rw [if_neg hfile] at h
  by_cases hc : n = configMember
  · rw [if_pos hc] at h
    exact (Except.ok.inj h).symm
  · rw [if_neg hc, if_neg hn] at h
    split at h
    · simp only [Logic.bind_eq_ok, pure_eq_ok] at h
      obtain ⟨_, -, hb⟩ := h
      exact hb.symm
    · cases h

theorem restoreMembers_eq_ok {archive : List ZipInfo} {members : List Name} :
    restoreMembers archive = .ok members ↔
      (nameList archive).filterM restoreMember = .ok members ∧ configMember ∈ members ∧
        manifestMember ∈ nameList archive := by
  simp only [restoreMembers, Logic.bind_eq_ok, ensure_eq_ok, pure_eq_ok]
  constructor
  · rintro ⟨members', hmembers, -, hconfig, -, hmanifest, rfl⟩
    exact ⟨hmembers, hconfig, hmanifest⟩
  · rintro ⟨hmembers, hconfig, hmanifest⟩
    exact ⟨members, hmembers, (), hconfig, (), hmanifest, rfl⟩

/-- Every file member but the manifest is restored. -/
theorem mem_restoreMembers {archive : List ZipInfo} {members : List Name}
    (h : restoreMembers archive = .ok members) (hmem : n ∈ nameList archive)
    (hfile : n.getLast? ≠ some '/') (hn : n ≠ manifestMember) : n ∈ members := by
  obtain ⟨rfl, hall⟩ := filterM_eq_ok (fun _ _ _ => restored_eq) (restoreMembers_eq_ok.1 h).1
  exact List.mem_filter.2 ⟨hmem, restoreMember_eq_true hfile hn (hall n hmem)⟩

theorem readPlan_eq_ok {plan : Plan} :
    readPlan host tree target content = .ok plan ↔
      host.openZip content = .ok plan.archive ∧ ∃ members,
        restoreMembers plan.archive = .ok members ∧
        (∃ manifest, readManifest host plan.archive = .ok manifest) ∧
        (members.mapM fun n => (fun path => (path, n)) <$> restoreTarget tree target n) =
          .ok plan.targets := by
  simp only [readPlan, Logic.bind_eq_ok, mapError_eq_ok, pure_eq_ok]
  constructor
  · rintro ⟨archive, harchive, members, hmembers, manifest, hmanifest, targets, htargets, rfl⟩
    exact ⟨harchive, members, hmembers, ⟨manifest, hmanifest⟩, htargets⟩
  · rintro ⟨harchive, members, hmembers, ⟨manifest, hmanifest⟩, htargets⟩
    exact ⟨plan.archive, harchive, members, hmembers, manifest, hmanifest, plan.targets, htargets, rfl⟩

theorem openRestore_eq_ok {source : Option Content} {destination : List FileStep}
    {opened : RelPath × Content} :
    openRestore tree source destination = .ok opened ↔
      tree.resolve [] destination = some opened.1 ∧ source = some opened.2 ∧
        ((tree.stat opened.1).isSome = true → tree.stat opened.1 = some .dir) := by
  simp only [openRestore, Logic.bind_eq_ok, resolve_eq_ok, fetch_eq_ok, ensure_eq_ok, pure_eq_ok]
  constructor
  · rintro ⟨target, htarget, content, hcontent, -, hdir, rfl⟩
    exact ⟨htarget, hcontent, hdir⟩
  · rintro ⟨htarget, hcontent, hdir⟩
    exact ⟨opened.1, htarget, opened.2, hcontent, (), hdir, rfl⟩

theorem checkRestore_eq_ok {source : Option Content} {destination : List FileStep}
    {allowOverwrite : Bool} {checked : RelPath × Plan} :
    checkRestore host tree source destination allowOverwrite = .ok checked ↔
      ∃ content, openRestore tree source destination = .ok (checked.1, content) ∧
        readPlan host tree checked.1 content = .ok checked.2 ∧
        conflicts tree allowOverwrite checked.2.targets = [] := by
  simp only [checkRestore, Logic.bind_eq_ok, ensure_eq_ok, pure_eq_ok]
  constructor
  · rintro ⟨opened, hopened, plan, hplan, -, hconflicts, rfl⟩
    exact ⟨opened.2, hopened, hplan, hconflicts⟩
  · rintro ⟨content, hopened, hplan, hconflicts⟩
    exact ⟨_, hopened, checked.2, hplan, (), hconflicts, rfl⟩

/-- The targets of a plan are those of its members. -/
theorem mem_targets (ht : Straight tree target) {plan : Plan}
    (h : readPlan host tree target content = .ok plan) {t : RelPath × Name} (hmem : t ∈ plan.targets) :
    tree.resolve [] (targetSteps target t.2) = some t.1 ∧ target <+: t.1 := by
  obtain ⟨-, members, -, -, htargets⟩ := readPlan_eq_ok.1 h
  obtain ⟨n, -, hn⟩ := mem_mapM htargets hmem
  obtain ⟨path, hpath, rfl⟩ := Logic.map_eq_ok.1 hn
  exact (restoreTarget_eq_ok ht).1 hpath

/-! ## What is made and written -/

theorem restoreFile_unmade {data : Except ZipError Content}
    (h : (makeParent device disk path).2 = false) :
    restoreFile device disk path data = ((makeParent device disk path).1, some .osError) :=
  if_neg (ne_true_of_eq_false h)

theorem restoreFile_unread {e : ZipError} (h : (makeParent device disk path).2 = true) :
    restoreFile device disk path (.error e) = ((makeParent device disk path).1, some (.zip e)) :=
  if_pos h

theorem restoreFile_read (h : (makeParent device disk path).2 = true) :
    restoreFile device disk path (.ok content) =
      ((writeFile device (makeParent device disk path).1 path content).1,
        if (writeFile device (makeParent device disk path).1 path content).2 then none
        else some .osError) := if_pos h

/-- Directories are made at the destination, below it or above it, and files are opened at it or
below it; below it if it is a directory. -/
structure Contained (tree : FileTree) (target : RelPath) (disk : FileDisk) : Prop where
  unlinked : Unlinked tree disk.tree
  dirs : ∀ q, tree.node q = some .dir → disk.tree.node q = some .dir
  straight : ∀ q, q ∈ disk.made ∨ q ∈ disk.written → Straight tree q
  made : ∀ q ∈ disk.made, target <+: q ∨ q <+: target
  written : ∀ q ∈ disk.written, target <+: q ∧ (tree.node target = some .dir → q ≠ target)

theorem contained_start (tree : FileTree) (target : RelPath) : Contained tree target { tree } where
  unlinked := .refl tree
  dirs _ h := h
  straight _ h := by rcases h with h | h <;> cases h
  made _ h := by cases h
  written _ h := by cases h

theorem Contained.makeParent (h : Contained tree target disk) (hs : Straight tree path)
    (hpath : target <+: path) : Contained tree target (makeParent device disk path).1 := by
  have hparent : Straight tree path.dropLast := hs.of_prefix (List.dropLast_prefix path)
  have hdisk : Straight disk.tree ([] ++ path.dropLast) := hparent.mono h.unlinked
  have hgrown : Grown disk (Restore.makeParent device disk path).1 :=
    makeDirs_grown device disk.tree.root hdisk
  refine ⟨h.unlinked.trans hgrown.unlinked, fun q hq => ?_, fun q hq => ?_, fun q hq => ?_, ?_⟩
  · have hd := h.dirs q hq
    rw [hgrown.keeps q (by rw [hd]; exact Option.some_ne_none _)]
    exact hd
  · rcases hq with hq | hq
    · rcases makeDirs_made disk.tree.root hdisk hq with hq | hq
      · exact h.straight q (.inl hq)
      · exact hparent.of_prefix hq.2
    · rw [hgrown.written] at hq
      exact h.straight q (.inr hq)
  · rcases makeDirs_made disk.tree.root hdisk hq with hq | hq
    · exact h.made q hq
    · exact List.prefix_or_prefix_of_prefix hpath (hq.2.trans (List.dropLast_prefix path))
  · rw [hgrown.written]
    exact h.written

theorem Contained.writeFile (h : Contained tree target disk) (hs : Straight tree path)
    (hpath : target <+: path) : Contained tree target (writeFile device disk path content).1 := by
  have hdisk : Straight disk.tree path := hs.mono h.unlinked
  refine ⟨h.unlinked.trans (writeFile_unlinked hdisk), fun q hq => writeFile_dirs hdisk (h.dirs q hq),
    fun q hq => ?_, ?_, fun q hq => ?_⟩
  · rcases hq with hq | hq
    · rw [writeFile_made hdisk] at hq
      exact h.straight q (.inl hq)
    · rcases writeFile_written hdisk hq with hq | ⟨rfl, -⟩
      · exact h.straight q (.inr hq)
      · exact hs
  · rw [writeFile_made hdisk]
    exact h.made
  · rcases writeFile_written hdisk hq with hq | ⟨rfl, hfree⟩
    · exact h.written q hq
    · refine ⟨hpath, fun hdir heq => ?_⟩
      subst heq
      have hno := hfree.2.2
      rw [isDir_iff.2 (h.dirs _ hdir)] at hno
      cases hno

/-- One member. -/
theorem Contained.restoreFile (h : Contained tree target disk) (hs : Straight tree path)
    (hpath : target <+: path) (data : Except ZipError Content) :
    Contained tree target (restoreFile device disk path data).1 := by
  have hparent : Contained tree target (Restore.makeParent device disk path).1 := h.makeParent hs hpath
  cases hmade : (Restore.makeParent device disk path).2 with
  | false =>
    rw [restoreFile_unmade hmade]
    exact hparent
  | true =>
    cases data with
    | error e =>
      rw [restoreFile_unread hmade]
      exact hparent
    | ok content =>
      rw [restoreFile_read hmade]
      exact hparent.writeFile hs hpath

/-- Any number of members. -/
theorem Contained.restoreFiles {files : List (RelPath × Except ZipError Content)}
    (h : Contained tree target disk) (hfiles : ∀ f ∈ files, Straight tree f.1 ∧ target <+: f.1) :
    Contained tree target (restoreFiles device disk files).1 := by
  induction files generalizing disk with
  | nil => exact h
  | cons f rest ih =>
    obtain ⟨hf, hrest⟩ := List.forall_mem_cons.1 hfiles
    have hone : Contained tree target (Restore.restoreFile device disk f.1 f.2).1 :=
      h.restoreFile hf.1 hf.2 f.2
    unfold Restore.restoreFiles
    split
    · rename_i disk' heq
      rw [heq] at hone
      exact ih hone hrest
    · rename_i disk' e heq
      rw [heq] at hone
      exact hone

/-! ## The whole restore -/

section

variable (host device tree) (source : Option Content) (destination : List FileStep)
  (apply allowOverwrite : Bool)

/-- Either nothing is made or written, or it is below the destination. -/
theorem restoreLocalBackup_contained :
    (restoreLocalBackup host device tree source destination apply allowOverwrite).1 = { tree } ∨
      ∃ target, tree.resolve [] destination = some target ∧
        Contained tree target
          (restoreLocalBackup host device tree source destination apply allowOverwrite).1 := by
  unfold restoreLocalBackup
  split
  · exact .inl rfl
  · rename_i target plan hcheck
    obtain ⟨content, hopened, hplan, -⟩ := checkRestore_eq_ok.1 hcheck
    have htarget := (openRestore_eq_ok.1 hopened).1
    have ht : Straight tree target := straight_of_resolve straight_nil htarget
    have hfiles : ∀ f ∈ plan.files, Straight tree f.1 ∧ target <+: f.1 := by
      intro f hf
      obtain ⟨t, hmem, rfl⟩ := List.mem_map.1 hf
      obtain ⟨hresolve, hroot⟩ := mem_targets ht hplan hmem
      exact ⟨straight_of_resolve straight_nil hresolve, hroot⟩
    have hrun : Contained tree target (restoreFiles device { tree } plan.files).1 :=
      (contained_start tree target).restoreFiles hfiles
    cases apply with
    | false => exact .inl rfl
    | true =>
      refine .inr ⟨target, htarget, ?_⟩
      simp only [if_true]
      split
      · rename_i disk heq
        rw [heq] at hrun
        exact hrun
      · rename_i disk e heq
        rw [heq] at hrun
        exact hrun

/-- The target of a member is neither the destination nor below it. -/
def Escapes (tree : FileTree) (target : RelPath) (n : Name) : Prop :=
  ∀ path, tree.resolve [] (targetSteps target n) = some path → ¬ target <+: path

variable {source destination}

/-- An archive with such a member is refused, and nothing is touched. -/
theorem restore_refused {archive : List ZipInfo} (hsource : source = some content)
    (hopen : host.openZip content = .ok archive) (htarget : tree.resolve [] destination = some target)
    (hmem : n ∈ nameList archive) (hfile : n.getLast? ≠ some '/') (hn : n ≠ manifestMember)
    (hescapes : Escapes tree target n) :
    ∃ e, restoreLocalBackup host device tree source destination apply allowOverwrite =
      ({ tree }, .error e) := by
  unfold restoreLocalBackup
  split
  · exact ⟨_, rfl⟩
  · rename_i target' plan hcheck
    obtain ⟨content', hopened, hplan, -⟩ := checkRestore_eq_ok.1 hcheck
    obtain ⟨htarget', hcontent, -⟩ := openRestore_eq_ok.1 hopened
    obtain rfl : target = target' := Option.some.inj (htarget.symm.trans htarget')
    obtain rfl : content = content' := Option.some.inj (hsource.symm.trans hcontent)
    have ht : Straight tree target := straight_of_resolve straight_nil htarget
    obtain ⟨hopen', members, hmembers, -, htargets⟩ := readPlan_eq_ok.1 hplan
    obtain rfl : archive = plan.archive := Except.ok.inj (hopen.symm.trans hopen')
    obtain ⟨t, hpath⟩ := mapM_mem htargets n (mem_restoreMembers hmembers hmem hfile hn)
    obtain ⟨path, hpath, -⟩ := Logic.map_eq_ok.1 hpath
    obtain ⟨hresolve, hroot⟩ := (restoreTarget_eq_ok ht).1 hpath
    exact absurd hroot (hescapes path hresolve)

variable (source destination)

end

end

/-! ## Examples -/

namespace Sample

open Release.Sample

/-- One archive, with the members that every backup has and one other. -/
def host (other : Name) : Host Empty where
  openZip _ := .ok [⟨other, .ok [7]⟩, ⟨configMember, .ok []⟩, ⟨manifestMember, .ok [123, 125]⟩]
  -- the reading of the empty object is enough here
  loads text := if text = "\x7b\x7d".toList then .ok (.mapping []) else .error .jsonDecodeError

/-- Everything can be made and written. -/
def device : FileDevice := ⟨fun _ => true, fun _ _ => .done⟩

def destination : List FileStep := [.name (name "restored")]

/-- What the restore of an archive into an empty tree makes and opens. -/
def run (other : Name) : FileDisk × Except Raised RestoreResult :=
  restoreLocalBackup (host other) device .bare (some []) destination true false

end Sample

end ProjectMaya.Restore
