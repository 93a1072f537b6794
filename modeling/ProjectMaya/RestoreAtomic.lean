import ProjectMaya.Logic.Placed
import ProjectMaya.RestoreContained

/-! # Restores that raise

A plan looks at which targets exist and at nothing else, and the members are then written in place.
When one of them fails, what was written before it stays.  The tree is as before exactly when all
that was there already, and the failed member has left nothing (`all_or_nothing_iff`). -/

namespace ProjectMaya.Restore

open Logic Logic.FileTree Release
open Backup (Content Name RelPath configMember manifestMember name)

/-- A member with data that can be read. -/
def readable (f : RelPath × Content) : RelPath × Except ZipError Content := (f.1, .ok f.2)

/-- All members can be read and written, one after the other. -/
def Writable (device : FileDevice) (tree : FileTree)
    (files : List (RelPath × Except ZipError Content)) : Prop :=
  ∃ writes, files = writes.map readable ∧ device.Placeable tree writes

/-- What is left of a member that fails. -/
def remains (device : FileDevice) (tree : FileTree) (path : RelPath) :
    Except ZipError Content → List (RelPath × Content)
  | .ok content => leftover device tree path content
  | .error _ => []

/-- A member that fails after others: no directory can be made for it, and what is left of it and
of the others was there. -/
structure Untouched (device : FileDevice) (tree : FileTree) (before : List (RelPath × Content))
    (path : RelPath) (data : Except ZipError Content) : Prop where
  unmade : device.Unmade tree path
  kept : Kept tree (before ++ remains device tree path data)

section

variable {device : FileDevice} {tree : FileTree} {disk : FileDisk} {path : RelPath}
  {data : Except ZipError Content} {content : Content}
  {writes : List (RelPath × Content)} {files after : List (RelPath × Except ZipError Content)}

/-! ## One member -/

theorem restoreFile_ok :
    restoreFile device disk path (.ok content) = ((saveFile device disk path content).1,
      if (saveFile device disk path content).2 then none else some .osError) := by
  unfold restoreFile saveFile makeParent
  by_cases hmade : (makeDirs device disk [] path.dropLast).2 = true
  · simp only [if_pos hmade]
  · simp only [if_neg hmade]
    rfl

theorem restoreFile_error {e : ZipError} :
    (restoreFile device disk path (.error e)).1 = (makeDirs device disk [] path.dropLast).1 ∧
      (restoreFile device disk path (.error e)).2 ≠ none := by
  unfold restoreFile makeParent
  by_cases hmade : (makeDirs device disk [] path.dropLast).2 = true
  · simp only [if_pos hmade]
    exact ⟨trivial, fun h => (by cases h)⟩
  · simp only [if_neg hmade]
    exact ⟨trivial, fun h => (by cases h)⟩

theorem restoreFile_eq_none (hs : Straight disk.tree path) :
    (restoreFile device disk path data).2 = none ↔
      ∃ content, data = .ok content ∧ device.Fits disk.tree (path, content) := by
  cases data with
  | error e =>
    refine ⟨fun h => absurd h restoreFile_error.2, ?_⟩
    rintro ⟨content, h, -⟩
    cases h
  | ok content =>
    rw [restoreFile_ok]
    by_cases hsaved : (saveFile device disk path content).2 = true
    · simp only [if_pos hsaved, true_iff]
      exact ⟨content, rfl, (saveFile_iff hs).1 hsaved⟩
    · simp only [if_neg hsaved]
      refine ⟨fun h => (by cases h), ?_⟩
      rintro ⟨content', h, hfits⟩
      cases h
      exact absurd ((saveFile_iff hs).2 hfits) hsaved

/-- A member that fails leaves the tree as it was before all of them, or not. -/
theorem restoreFile_restores_iff (hplaced : ∀ q, disk.tree.node q = placed tree writes q)
    (hlinks : disk.tree.links = tree.links) (h : device.Placeable tree writes)
    (hs : Straight disk.tree path) :
    (restoreFile device disk path data).1.tree = tree ↔ Untouched device tree writes path data := by
  cases data with
  | error e =>
    rw [restoreFile_error.1, makeParent_restores_iff hplaced hlinks hs]
    constructor
    · rintro ⟨hunmade, hkept⟩
      exact ⟨hunmade, by rw [remains, List.append_nil]; exact hkept⟩
    · rintro ⟨hunmade, hkept⟩
      rw [remains, List.append_nil] at hkept
      exact ⟨hunmade, hkept⟩
  | ok content =>
    rw [restoreFile_ok, saveFile_restores_iff hplaced hlinks h hs]
    exact ⟨fun h => ⟨h.1, h.2⟩, fun h => ⟨h.unmade, h.kept⟩⟩

/-! ## Members one after the other -/

theorem restoreFiles_cons {f : RelPath × Except ZipError Content} :
    restoreFiles device disk (f :: after) =
      if (restoreFile device disk f.1 f.2).2 = none
      then restoreFiles device (restoreFile device disk f.1 f.2).1 after
      else restoreFile device disk f.1 f.2 := by
  rw [restoreFiles]
  split
  · rename_i disk' heq
    rw [heq]
    exact (if_pos rfl).symm
  · rename_i disk' e heq
    rw [heq]
    exact (if_neg fun h => by cases h).symm

theorem restoreFiles_append (h : (restoreFiles device disk files).2 = none) :
    restoreFiles device disk (files ++ after) =
      restoreFiles device (restoreFiles device disk files).1 after := by
  induction files generalizing disk with
  | nil => rfl
  | cons f files ih =>
    rw [List.cons_append, restoreFiles_cons]
    rw [restoreFiles_cons] at h ⊢
    by_cases hf : (restoreFile device disk f.1 f.2).2 = none
    · rw [if_pos hf] at h ⊢
      rw [if_pos hf]
      exact ih h
    · rw [if_neg hf] at h
      exact absurd h hf

/-- A run over members that can be written. -/
theorem restoreFiles_writes (hs : ∀ f ∈ writes, Straight tree f.1)
    (h : device.Placeable tree writes) :
    (restoreFiles device { tree } (writes.map readable)).2 = none ∧
      (∀ q, (restoreFiles device { tree } (writes.map readable)).1.tree.node q =
        placed tree writes q) ∧
      (restoreFiles device { tree } (writes.map readable)).1.tree.links = tree.links := by
  induction writes using List.reverseRecOn with
  | nil => exact ⟨rfl, fun q => (placed_elsewhere fun f hf => (by cases hf)).symm, rfl⟩
  | append_singleton writes f ih =>
    have hbefore : device.Placeable tree writes :=
      ⟨fun g hg => h.fits g (List.mem_append_left _ hg), fun g hg g' hg' =>
        h.apart g (List.mem_append_left _ hg) g' (List.mem_append_left _ hg')⟩
    obtain ⟨hnone, hplaced, hlinks⟩ := ih (fun g hg => hs g (List.mem_append_left _ hg)) hbefore
    have hstraight := (hs f (List.mem_append_right _ List.mem_cons_self)).mono
      (unlinked_placed hplaced)
    have hfits := ((placeable_concat hplaced).1 h).2
    have hone : (restoreFile device (restoreFiles device { tree } (writes.map readable)).1 f.1
        (.ok f.2)).2 = none := (restoreFile_eq_none hstraight).2 ⟨f.2, rfl, hfits⟩
    rw [List.map_append, restoreFiles_append hnone, List.map_singleton, restoreFiles_cons, readable,
      if_pos hone, restoreFile_ok]
    exact ⟨rfl, saveFile_placed hplaced hstraight h, (saveFile_links hstraight).trans hlinks⟩

/-- Members of which the first that fails is this one. -/
structure FailsAt (device : FileDevice) (tree : FileTree)
    (files : List (RelPath × Except ZipError Content)) (before : List (RelPath × Content))
    (path : RelPath) (data : Except ZipError Content) : Prop where
  split : ∃ after, files = before.map readable ++ (path, data) :: after
  writable : device.Placeable tree before
  fails : ¬ Writable device tree (before.map readable ++ [(path, data)])

theorem writable_or_failsAt (device : FileDevice) (tree : FileTree)
    (files : List (RelPath × Except ZipError Content)) :
    Writable device tree files ∨
      ∃ before path data, FailsAt device tree files before path data := by
  induction files using List.reverseRecOn with
  | nil =>
    exact .inl ⟨[], rfl, ⟨fun _ hf => (by cases hf), fun _ hf => (by cases hf)⟩⟩
  | append_singleton files f ih =>
    rcases ih with ⟨writes, rfl, hwritable⟩ | ⟨before, path, data, h⟩
    · by_cases hf : Writable device tree (writes.map readable ++ [f])
      · exact .inl hf
      · exact .inr ⟨writes, f.1, f.2, ⟨[], rfl⟩, hwritable, hf⟩
    · obtain ⟨after, rfl⟩ := h.split
      refine .inr ⟨before, path, data, ⟨after ++ [f], ?_⟩, h.writable, h.fails⟩
      rw [List.append_assoc, List.cons_append]

/-- A run over members of which one fails. -/
theorem restoreFiles_failsAt {before : List (RelPath × Content)}
    (hs : ∀ f ∈ files, Straight tree f.1) (h : FailsAt device tree files before path data) :
    (restoreFiles device { tree } files).2 ≠ none ∧
      ((restoreFiles device { tree } files).1.tree = tree ↔
        Untouched device tree before path data) := by
  obtain ⟨after, rfl⟩ := h.split
  have hbefore : ∀ f ∈ before, Straight tree f.1 := fun f hf =>
    hs (readable f) (List.mem_append_left _ (List.mem_map_of_mem hf))
  obtain ⟨hnone, hplaced, hlinks⟩ := restoreFiles_writes hbefore h.writable
  have hstraight : Straight (restoreFiles device { tree } (before.map readable)).1.tree path :=
    (hs (path, data) (List.mem_append_right _ List.mem_cons_self)).mono (unlinked_placed hplaced)
  have hfails : ¬ (restoreFile device (restoreFiles device { tree } (before.map readable)).1 path
      data).2 = none := by
    rw [restoreFile_eq_none hstraight]
    rintro ⟨content, rfl, hfits⟩
    refine h.fails ⟨before ++ [(path, content)], ?_, (placeable_concat hplaced).2
      ⟨h.writable, hfits⟩⟩
    rw [List.map_append]
    rfl
  rw [restoreFiles_append hnone, restoreFiles_cons, if_neg hfails]
  exact ⟨hfails, restoreFile_restores_iff hplaced hlinks h.writable hstraight⟩

/-- Whether all members are written is read off the tree before them. -/
theorem restoreFiles_eq_none (hs : ∀ f ∈ files, Straight tree f.1) :
    (restoreFiles device { tree } files).2 = none ↔ Writable device tree files := by
  constructor
  · intro hnone
    refine (writable_or_failsAt device tree files).resolve_right ?_
    rintro ⟨before, path, data, hfails⟩
    exact (restoreFiles_failsAt hs hfails).1 hnone
  · rintro ⟨writes, rfl, hwritable⟩
    refine (restoreFiles_writes (fun f hf => ?_) hwritable).1
    exact hs (readable f) (List.mem_map_of_mem hf)

end

/-! ## The whole restore -/

section

variable {O : Type} [Objects O] (host : Host O) (device : FileDevice) (tree : FileTree)
  (source : Option Content) (destination : List FileStep) (allowOverwrite : Bool)

/-- No link is on the way to a target. -/
theorem straight_files {target : RelPath} {plan : Plan}
    (h : checkRestore host tree source destination allowOverwrite = .ok (target, plan)) :
    ∀ f ∈ plan.files, Straight tree f.1 := by
  obtain ⟨content, hopened, hplan, -⟩ := checkRestore_eq_ok.1 h
  have ht : Straight tree target :=
    straight_of_resolve straight_nil (openRestore_eq_ok.1 hopened).1
  intro f hf
  obtain ⟨t, hmem, rfl⟩ := List.mem_map.1 hf
  exact straight_of_resolve straight_nil (mem_targets ht hplan hmem).1

/-- What the members make of the tree. -/
theorem restoreLocalBackup_apply {target : RelPath} {plan : Plan}
    (h : checkRestore host tree source destination allowOverwrite = .ok (target, plan)) :
    (restoreLocalBackup host device tree source destination true allowOverwrite).1 =
        (restoreFiles device { tree } plan.files).1 ∧
      ((∃ e, (restoreLocalBackup host device tree source destination true allowOverwrite).2 =
          .error e) ↔
        (restoreFiles device { tree } plan.files).2 ≠ none) := by
  unfold restoreLocalBackup
  rw [h]
  simp only [if_true]
  split
  · rename_i disk heq
    rw [heq]
    exact ⟨rfl, fun ⟨_, he⟩ => (by cases he), fun hne => absurd rfl hne⟩
  · rename_i disk e heq
    rw [heq]
    exact ⟨rfl, fun _ => (fun he => by cases he), fun _ => ⟨e, rfl⟩⟩

end

/-! ## Runs -/

namespace Sample

/-- A backup with one member that cannot be decompressed. -/
def damaged : Host Empty where
  openZip _ := .ok [⟨configMember, .ok []⟩, ⟨name "maya-data/a", .error .badZipFile⟩,
    ⟨manifestMember, .ok [123, 125]⟩]
  loads := (host (name "maya-data/a")).loads

def damagedRun : FileDisk × Except Raised RestoreResult :=
  restoreLocalBackup damaged device .bare (some []) destination true false

end Sample

end ProjectMaya.Restore
