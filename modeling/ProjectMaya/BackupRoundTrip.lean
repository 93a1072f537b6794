import ProjectMaya.Backup

/-! # The round trip of a backup

A restored archive gives back what `createLocalBackup` archived exactly when no included
file lies at, above or below the place of the configuration, and when the archive's
temporary file is not itself an included path of `data_dir`. -/

namespace ProjectMaya.Backup

open Logic

/-! ## Names -/

/-- A path of valid components. -/
def Named (p : RelPath) : Prop := p ≠ [] ∧ ∀ n ∈ p, validName n = true

theorem validName_iff {n : Name} :
    validName n = true ↔ ((n ≠ [] ∧ n ≠ ['.']) ∧ n ≠ ['.', '.']) ∧ '/' ∉ n := by
  simp [validName]

theorem Named.no_slash {p : RelPath} (h : Named p) : ∀ n ∈ p, '/' ∉ n :=
  fun n hn => (validName_iff.1 (h.2 n hn)).2

theorem Named.cons_ne_nil {n : Name} {p : RelPath} (h : Named (n :: p)) : n ≠ [] :=
  (validName_iff.1 (h.2 n List.mem_cons_self)).1.1.1

theorem Named.parts_intercalate {p : RelPath} (h : Named p) : parts (['/'].intercalate p) = p := by
  unfold parts
  rw [List.splitOn_intercalate '/' h.no_slash h.1, List.filter_eq_self]
  intro n hn
  have hv := (validName_iff.1 (h.2 n hn)).1.1
  simp [hv.1, hv.2]

theorem Named.head_intercalate {p : RelPath} (h : Named p) :
    (['/'].intercalate p).head? ≠ some '/' := by
  cases p with
  | nil => exact absurd rfl h.1
  | cons n rest =>
    have hn : n ≠ [] := h.cons_ne_nil
    have hslash : '/' ∉ n := h.no_slash n List.mem_cons_self
    cases n with
    | nil => exact absurd rfl hn
    | cons x xs =>
      have hx : x ≠ '/' := fun hx => hslash (hx ▸ List.mem_cons_self)
      cases rest with
      | nil => simpa using hx
      | cons m ms => simpa [List.intercalate_cons_cons] using hx

theorem Named.getLast_intercalate {p : RelPath} (h : Named p) :
    ∃ x, (['/'].intercalate p).getLast? = some x ∧ x ≠ '/' := by
  induction p with
  | nil => exact absurd rfl h.1
  | cons n rest ih =>
    have hn : n ≠ [] := h.cons_ne_nil
    have hslash : '/' ∉ n := h.no_slash n List.mem_cons_self
    by_cases hr : rest = []
    · subst hr
      refine ⟨n.getLast hn, ?_, fun hx => hslash (hx ▸ List.getLast_mem hn)⟩
      simp [List.getLast?_eq_some_getLast hn]
    · obtain ⟨x, hx, hne⟩ := ih ⟨hr, fun m hm => h.2 m (List.mem_cons_of_mem n hm)⟩
      refine ⟨x, ?_, hne⟩
      rw [List.intercalate_cons_of_ne_nil hr, List.getLast?_append, hx, Option.some_or]

theorem drop_archiveName (p : RelPath) :
    (archiveName p).drop dataPrefix.length = ['/'].intercalate p := by
  unfold archiveName dataPrefix
  exact List.drop_left

theorem prefix_archiveName (p : RelPath) : dataPrefix.isPrefixOf (archiveName p) = true := by
  rw [List.isPrefixOf_iff_prefix]
  exact List.prefix_append _ _

theorem archiveName_ne_config (p : RelPath) : archiveName p ≠ configMember := by
  intro h
  have hp := prefix_archiveName p
  rw [h] at hp
  exact absurd hp (by decide)

theorem archiveName_ne_manifest (p : RelPath) : archiveName p ≠ manifestMember := by
  intro h
  have hp := prefix_archiveName p
  rw [h] at hp
  exact absurd hp (by decide)

theorem archiveName_injective {p q : RelPath} (hp : Named p) (hq : Named q)
    (h : archiveName p = archiveName q) : p = q := by
  have hd : ['/'].intercalate p = ['/'].intercalate q := by
    rw [← drop_archiveName, ← drop_archiveName, h]
  rw [← hp.parts_intercalate, ← hq.parts_intercalate, hd]

theorem Named.restoreTarget {p : RelPath} (h : Named p) :
    restoreTarget (archiveName p) = .ok p := by
  unfold Backup.restoreTarget
  rw [if_neg (archiveName_ne_config p), if_neg (archiveName_ne_manifest p)]
  simp only [drop_archiveName, bind_eq_ok, pure_eq_ok, ensure_eq_ok]
  exact ⟨(), h.head_intercalate, h.parts_intercalate⟩

theorem Named.restoreMember {p : RelPath} (h : Named p) (s : Stored) :
    restoreMember ⟨archiveName p, s⟩ = .ok true := by
  have hlast : (archiveName p).getLast? ≠ some '/' := by
    obtain ⟨x, hx, hne⟩ := h.getLast_intercalate
    unfold archiveName
    rw [List.getLast?_append, hx, Option.some_or]
    simpa using hne
  have hdots : ['.', '.'] ∉ p := fun hm => (validName_iff.1 (h.2 _ hm)).1.2 rfl
  unfold Backup.restoreMember
  rw [if_neg hlast, if_neg (archiveName_ne_config p), if_neg (archiveName_ne_manifest p),
    if_pos (prefix_archiveName p)]
  simp only [drop_archiveName, h.parts_intercalate, bind_eq_ok, pure_eq_ok, ensure_eq_ok]
  exact ⟨(), ⟨h.1, hdots⟩, trivial⟩

/-! ## Writing -/

/-- Neither path lies at or below the other. -/
def File.Apart (f g : File) : Prop := ¬ f.path <+: g.path ∧ ¬ g.path <+: f.path

theorem writeFile_eq_ok {files out : List File} {f : File}
    (h : ∀ g ∈ files, f.path ≠ g.path) :
    writeFile files f = .ok out ↔ (∀ g ∈ files, f.Apart g) ∧ f :: files = out := by
  have hkeep : files.filter (fun g => g.path ≠ f.path) = files := by
    rw [List.filter_eq_self]
    exact fun g hg => by simpa using (h g hg).symm
  unfold writeFile
  rw [hkeep]
  simp only [bind_eq_ok, ensure_eq_ok, pure_eq_ok, List.all_eq_true, Bool.not_eq_true',
    Bool.and_eq_false_iff, decide_eq_false_iff_not]
  constructor
  · rintro ⟨-, above, -, below, rfl⟩
    refine ⟨fun g hg => ⟨fun hp => ?_, fun hp => ?_⟩, rfl⟩
    · rcases below g hg with hb | hb
      · exact absurd (List.isPrefixOf_iff_prefix.2 hp) (by simp [hb])
      · exact hb (h g hg).symm
    · rcases above g hg with hb | hb
      · exact absurd (List.isPrefixOf_iff_prefix.2 hp) (by simp [hb])
      · exact hb (h g hg).symm
  · rintro ⟨apart, rfl⟩
    refine ⟨(), fun g hg => .inl ?_, (), fun g hg => .inl ?_, rfl⟩
    · exact Bool.eq_false_iff.2 (mt List.isPrefixOf_iff_prefix.1 (apart g hg).2)
    · exact Bool.eq_false_iff.2 (mt List.isPrefixOf_iff_prefix.1 (apart g hg).1)

/-- Distinct targets are all written when, and only when, they are apart. -/
theorem writeAll_eq_ok {out : List File} :
    ∀ {plan files : List File}, (∀ f ∈ plan, ∀ g ∈ files, f.path ≠ g.path) →
      (plan.map File.path).Nodup →
      (plan.foldlM writeFile files = .ok out ↔
        (∀ f ∈ plan, ∀ g ∈ files, f.Apart g) ∧ plan.Pairwise (fun f g => g.Apart f) ∧
          plan.reverse ++ files = out)
  | [], files, _, _ => by simp [List.foldlM]
  | f :: plan, files, hne, hnd => by
    rw [List.map_cons, List.nodup_cons] at hnd
    obtain ⟨hf, hplan⟩ := List.forall_mem_cons.1 hne
    have hne' : ∀ x ∈ plan, ∀ g ∈ f :: files, x.path ≠ g.path := by
      intro x hx
      refine List.forall_mem_cons.2 ⟨fun he => hnd.1 ?_, hplan x hx⟩
      exact he ▸ List.mem_map_of_mem hx
    simp only [List.foldlM_cons, bind_eq_ok, writeFile_eq_ok hf]
    constructor
    · rintro ⟨_, ⟨apart, rfl⟩, hw⟩
      obtain ⟨hall, hpair, rfl⟩ := (writeAll_eq_ok hne' hnd.2).1 hw
      refine ⟨List.forall_mem_cons.2 ⟨apart, fun x hx g hg => ?_⟩, ?_, by simp⟩
      · exact hall x hx g (List.mem_cons_of_mem f hg)
      · exact List.pairwise_cons.2 ⟨fun x hx => hall x hx f List.mem_cons_self, hpair⟩
    · rintro ⟨hall, hpair, rfl⟩
      obtain ⟨hf', hall'⟩ := List.forall_mem_cons.1 hall
      obtain ⟨hfp, hpair'⟩ := List.pairwise_cons.1 hpair
      refine ⟨f :: files, ⟨hf', rfl⟩, (writeAll_eq_ok hne' hnd.2).2 ⟨?_, hpair', by simp⟩⟩
      exact fun x hx => List.forall_mem_cons.2 ⟨hfp x hx, hall' x hx⟩

/-- A search by key finds the item with that key. -/
theorem find?_of_nodup {α κ : Type} [DecidableEq κ] {key : α → κ} :
    ∀ {l : List α} {a : α}, (l.map key).Nodup → a ∈ l → l.find? (fun b => key b = key a) = some a
  | [], _, _, h => by simp at h
  | b :: l, a, hnd, h => by
    rw [List.map_cons, List.nodup_cons] at hnd
    rcases List.mem_cons.1 h with rfl | hm
    · simp
    · have hb : key b ≠ key a := fun he => hnd.1 (he ▸ List.mem_map_of_mem hm)
      simpa [hb] using find?_of_nodup hnd.2 hm

theorem contentAt_of_mem {files : List File} {f : File} (h : (files.map File.path).Nodup)
    (hf : f ∈ files) : contentAt files f.path = some f.content := by
  unfold contentAt
  rw [find?_of_nodup h hf]
  rfl

theorem getInfo_of_mem {archive : List Member} {m : Member}
    (h : (archive.map Member.filename).Nodup) (hm : m ∈ archive) :
    getInfo archive m.filename = some m := by
  unfold getInfo
  refine find?_of_nodup ?_ (List.mem_reverse.2 hm)
  rw [List.map_reverse]
  exact List.nodup_reverse.2 h

/-! ## The archive -/

theorem mem_iterBackupFiles {files : List File} {f : File} :
    f ∈ iterBackupFiles files ↔ f ∈ files ∧ included f.path = true := by
  simp [iterBackupFiles]

theorem nodup_iterBackupFiles {files : List File} (h : (files.map File.path).Nodup) :
    ((iterBackupFiles files).map File.path).Nodup := by
  have hsort : ((files.mergeSort fun f g => decide (f.path ≤ g.path)).map File.path).Nodup :=
    ((List.mergeSort_perm files _).map File.path).nodup_iff.2 h
  exact hsort.sublist (List.filter_sublist.map File.path)

/-- What is archived of a file. -/
def archivedFile (h : Host) (files : List File) (f : File) : File :=
  ⟨f.path, (archived h files f).getD []⟩

def dataMember (f : File) : Member := ⟨archiveName f.path, .bytes f.content⟩

/-- The members of an archive of some files, each with what is archived of it. -/
def memberList (c : Config) (files : List File) (m : BackupManifest) : List Member :=
  ⟨configMember, .bytes c.text⟩ :: files.map dataMember ++ [⟨manifestMember, .manifest m⟩]

theorem archiveFile_eq_ok {h : Host} {files : List File} {f : File} {m : Member} :
    archiveFile h files f = .ok m ↔
      ∃ raw, archived h files f = some raw ∧ ⟨archiveName f.path, .bytes raw⟩ = m := by
  simp only [archiveFile, bind_eq_ok, fetch_eq_ok, pure_eq_ok]

theorem createLocalBackup_eq_ok {c : Config} {h : Host} {t : Tree} {d : Destination}
    {archive : List Member} (hok : createLocalBackup c h t d = .ok archive) :
    openArchive t d = .ok () ∧
      (∀ f ∈ iterBackupFiles (t.during h d), (archived h (t.during h d) f).isSome) ∧
      ∃ m, archive =
        memberList c ((iterBackupFiles (t.during h d)).map (archivedFile h (t.during h d))) m := by
  simp only [createLocalBackup, bind_eq_ok, pure_eq_ok] at hok
  obtain ⟨_, hopen, members, hm, rfl⟩ := hok
  have hstep : ∀ f ∈ iterBackupFiles (t.during h d), ∀ m, archiveFile h (t.during h d) f = .ok m →
      m = dataMember (archivedFile h (t.during h d) f) := by
    intro f _ m hf
    obtain ⟨raw, hraw, rfl⟩ := archiveFile_eq_ok.1 hf
    simp [dataMember, archivedFile, hraw]
  obtain ⟨rfl, hall⟩ := mapM_eq_ok hstep hm
  refine ⟨hopen, fun f hf => ?_,
    buildManifest c h (iterBackupFiles (t.during h d)) ((iterBackupFiles (t.during h d)).length + 2),
    ?_⟩
  · obtain ⟨raw, hraw, -⟩ := archiveFile_eq_ok.1 (hall f hf)
    simp [hraw]
  · simp [memberList, List.map_map, Function.comp_def]

theorem createLocalBackup_ok {c : Config} {h : Host} {t : Tree} {d : Destination}
    (hopen : openArchive t d = .ok ())
    (hsome : ∀ f ∈ iterBackupFiles (t.during h d), (archived h (t.during h d) f).isSome) :
    ∃ archive, createLocalBackup c h t d = .ok archive := by
  have hstep : ∀ f ∈ iterBackupFiles (t.during h d), archiveFile h (t.during h d) f =
      .ok (dataMember (archivedFile h (t.during h d) f)) := by
    intro f hf
    obtain ⟨raw, hraw⟩ := Option.isSome_iff_exists.1 (hsome f hf)
    exact archiveFile_eq_ok.2 ⟨raw, hraw, by simp [dataMember, archivedFile, hraw]⟩
  simp only [createLocalBackup, bind_eq_ok, pure_eq_ok]
  exact ⟨_, (), hopen, _, mapM_ok hstep, rfl⟩

section Plan

variable {c : Config} {files : List File} {m : BackupManifest}

theorem nodup_memberList (hn : ∀ f ∈ files, Named f.path) (hnd : (files.map File.path).Nodup) :
    ((memberList c files m).map Member.filename).Nodup := by
  have hdata : ((files.map File.path).map archiveName).Nodup := by
    refine hnd.map_on fun p hp q hq he => ?_
    obtain ⟨f, hf, rfl⟩ := List.mem_map.1 hp
    obtain ⟨g, hg, rfl⟩ := List.mem_map.1 hq
    exact archiveName_injective (hn f hf) (hn g hg) he
  have hnames : (memberList c files m).map Member.filename =
      configMember :: (files.map File.path).map archiveName ++ [manifestMember] := by
    simp [memberList, dataMember, Function.comp_def]
  rw [hnames, List.cons_append, List.nodup_cons, List.nodup_append]
  refine ⟨?_, hdata, List.nodup_singleton _, ?_⟩
  · intro hmem
    rcases List.mem_append.1 hmem with hp | hp
    · obtain ⟨p, -, he⟩ := List.mem_map.1 hp
      exact archiveName_ne_config p he
    · exact absurd (List.mem_singleton.1 hp) (by decide)
  · intro n hp k hk he
    obtain ⟨p, -, rfl⟩ := List.mem_map.1 hp
    exact archiveName_ne_manifest p (he.trans (List.mem_singleton.1 hk))

theorem restoreMembers_memberList (hn : ∀ f ∈ files, Named f.path) :
    restoreMembers (memberList c files m) =
      .ok (⟨configMember, .bytes c.text⟩ :: files.map dataMember) := by
  have hstep : ∀ x ∈ memberList c files m,
      restoreMember x = .ok (decide (x.filename ≠ manifestMember)) := by
    intro x hx
    simp only [memberList, List.cons_append, List.mem_cons, List.mem_append, List.mem_map,
      List.not_mem_nil, or_false] at hx
    rcases hx with rfl | ⟨f, hf, rfl⟩ | rfl
    · rfl
    · rw [show decide ((dataMember f).filename ≠ manifestMember) = true from
        decide_eq_true (archiveName_ne_manifest f.path)]
      exact (hn f hf).restoreMember _
    · rfl
  have hkeep : (memberList c files m).filter (fun x => decide (x.filename ≠ manifestMember)) =
      ⟨configMember, .bytes c.text⟩ :: files.map dataMember := by
    have hall : (files.map dataMember).filter (fun x => decide (x.filename ≠ manifestMember)) =
        files.map dataMember := by
      rw [List.filter_eq_self]
      intro x hx
      obtain ⟨f, -, rfl⟩ := List.mem_map.1 hx
      exact decide_eq_true (archiveName_ne_manifest f.path)
    have hconfig : decide (configMember ≠ manifestMember) = true := by decide
    unfold memberList
    rw [List.filter_append, List.filter_cons, hall]
    simp [hconfig]
  simp only [restoreMembers, bind_eq_ok, pure_eq_ok, ensure_eq_ok]
  refine ⟨_, filterM_ok hstep, (), ?_, (), ?_, hkeep⟩
  · rw [hkeep]
    exact List.mem_cons_self
  · simp [memberList]

theorem readManifest_memberList : readManifest (memberList c files m) = .ok m := by
  have hinfo : getInfo (memberList c files m) manifestMember =
      some ⟨manifestMember, .manifest m⟩ := by
    simp [getInfo, memberList]
  simp only [readManifest, bind_eq_ok, fetch_eq_ok]
  exact ⟨_, hinfo, rfl⟩

/-- The plan for an archive of some files: the configuration, then the files. -/
theorem restorePlan_memberList (hn : ∀ f ∈ files, Named f.path)
    (hnd : (files.map File.path).Nodup) :
    restorePlan (memberList c files m) = .ok (⟨configTarget, c.text⟩ :: files) := by
  have hinfo : ∀ x ∈ memberList c files m, getInfo (memberList c files m) x.filename = some x :=
    fun x hx => getInfo_of_mem (nodup_memberList hn hnd) hx
  have hconfig : planned (memberList c files m) ⟨configMember, .bytes c.text⟩ =
      .ok ⟨configTarget, c.text⟩ := by
    have hmem : ⟨configMember, .bytes c.text⟩ ∈ memberList c files m := List.mem_cons_self
    simp only [planned, bind_eq_ok, pure_eq_ok]
    refine ⟨configTarget, rfl, ?_⟩
    rw [hinfo _ hmem]
    rfl
  have hdata : ∀ f ∈ files, planned (memberList c files m) (dataMember f) = .ok f := by
    intro f hf
    have hmem : dataMember f ∈ memberList c files m := by
      simp only [memberList, List.cons_append, List.mem_cons, List.mem_append]
      exact .inr (.inl (List.mem_map_of_mem hf))
    simp only [planned, bind_eq_ok, pure_eq_ok]
    refine ⟨f.path, (hn f hf).restoreTarget, ?_⟩
    rw [hinfo _ hmem]
    rfl
  have hplan : (files.map dataMember).mapM (planned (memberList c files m)) = .ok files := by
    rw [List.mapM_map]
    have hm : files.mapM (planned (memberList c files m) ∘ dataMember) = .ok (files.map id) :=
      mapM_ok hdata
    rwa [List.map_id] at hm
  simp only [restorePlan, bind_eq_ok]
  refine ⟨_, restoreMembers_memberList hn, m, readManifest_memberList, ?_⟩
  simp only [List.mapM_cons, bind_eq_ok, pure_eq_ok]
  exact ⟨_, hconfig, files, hplan, rfl⟩

end Plan

/-! ## The files of the archive -/

theorem temporary_ne {p q : RelPath} (h : (q.getLastD []).drop ((q.getLastD []).length - 4) ≠ name ".tmp") :
    temporary p ≠ q := by
  rintro rfl
  apply h
  unfold temporary
  simp only [List.getLastD_concat, List.length_append]
  rw [show (p.getLastD []).length + (name ".tmp").length - 4 = (p.getLastD []).length from by
    simp [name]]
  exact List.drop_left

theorem named_temporary {p : RelPath} (h : ∀ n ∈ p, validName n = true) : Named (temporary p) := by
  have hlast : ∀ n : Name, '/' ∉ n → validName (n ++ name ".tmp") = true := by
    intro n hn
    have hlen : (n ++ name ".tmp").length ≥ 4 := by simp [name]
    refine validName_iff.2 ⟨⟨⟨?_, ?_⟩, ?_⟩, ?_⟩
    · rintro he
      simp [he] at hlen
    · rintro he
      simp [he] at hlen
    · rintro he
      simp [he] at hlen
    · simp [hn, name]
  unfold temporary
  refine ⟨by simp, fun n hn => ?_⟩
  rcases List.mem_append.1 hn with hn | hn
  · exact h n (List.mem_of_mem_dropLast hn)
  · rw [List.mem_singleton.1 hn]
    apply hlast
    cases hp : p.getLast? with
    | none => simp [List.getLastD_eq_getLast?, hp]
    | some m =>
      rw [List.getLastD_eq_getLast?, hp]
      exact (validName_iff.1 (h m (List.mem_of_getLast? hp))).2

theorem contentAt_replace {files : List File} {p q : RelPath} {raw : Content} (h : q ≠ p) :
    contentAt (files.filter (fun f => f.path ≠ p) ++ [⟨p, raw⟩]) q = contentAt files q := by
  unfold contentAt
  rw [List.find?_append, List.find?_filter]
  have hkeep : files.find? (fun f => decide (decide (f.path ≠ p) = true ∧ decide (f.path = q) = true)) =
      files.find? (fun f => decide (f.path = q)) := by
    congr 1
    funext f
    by_cases hf : f.path = q
    · simp [hf, h]
    · simp [hf]
  simp only [hkeep]
  simp [Ne.symm h]

namespace Tree

variable {t : Tree} {h : Host} {d : Destination}

theorem during_named : ∀ f ∈ t.during h d, Named f.path := by
  cases d with
  | outside free writable => exact t.named
  | inside p hp =>
    intro f hf
    rcases List.mem_append.1 hf with hf | hf
    · exact t.named f (List.mem_of_mem_filter hf)
    · rw [List.mem_singleton.1 hf]
      exact named_temporary hp

theorem during_nodup : ((t.during h d).map File.path).Nodup := by
  cases d with
  | outside free writable => exact t.nodup
  | inside p hp =>
    unfold during
    rw [List.map_append, List.nodup_append]
    refine ⟨t.nodup.sublist (List.filter_sublist.map _), List.nodup_singleton _, ?_⟩
    intro q hq r hr he
    obtain ⟨f, hf, rfl⟩ := List.mem_map.1 hq
    have hr' : r = temporary p := by simpa using hr
    have hne := (List.mem_filter.1 hf).2
    simp [he.trans hr'] at hne

/-- Every path of a file is still there while the archive is written. -/
theorem during_path {f : File} (hf : f ∈ t.files) : ∃ g ∈ t.during h d, g.path = f.path := by
  cases d with
  | outside free writable => exact ⟨f, hf, rfl⟩
  | inside p hp =>
    by_cases hp : f.path = temporary p
    · exact ⟨⟨temporary p, h.seen⟩, by simp [during], hp.symm⟩
    · exact ⟨f, by simp [during, hf, hp], rfl⟩

theorem archived_during (f : File) : archived h (t.during h d) f = archived h t.files f := by
  cases d with
  | outside free writable => rfl
  | inside p hp =>
    have hwal : [name "memory", name "memory.sqlite3-wal"] ≠ temporary p :=
      (temporary_ne (by decide)).symm
    have hshm : [name "memory", name "memory.sqlite3-shm"] ≠ temporary p :=
      (temporary_ne (by decide)).symm
    unfold archived during
    rw [contentAt_replace hwal, contentAt_replace hshm]

end Tree

/-! ## The law -/

/-- What a restore into an empty destination has to give: every included file with what was
archived of it, the configuration, and nothing that was not in `data_dir`. -/
structure Restored (c : Config) (h : Host) (t : Tree) (restored : List File) : Prop where
  data : ∀ f ∈ t.files, included f.path = true →
    ∃ raw, archived h t.files f = some raw ∧ contentAt restored f.path = some raw
  config : contentAt restored configTarget = some c.text
  only : ∀ g ∈ restored, g.path = configTarget ∨ isFile t.files g.path = true

/-- Every archive that is made is restored, and no two members to one target. -/
def RoundTrip (c : Config) (t : Tree) (d : Destination) : Prop :=
  ∀ h archive, createLocalBackup c h t d = .ok archive →
    ∃ plan restored, restorePlan archive = .ok plan ∧ (plan.map File.path).Nodup ∧
      restoreLocalBackup archive [] = .ok restored ∧ Restored c h t restored

/-- The included files keep clear of the place of the configuration, and the archive's
temporary file is not an included path. -/
structure Separate (t : Tree) (d : Destination) : Prop where
  config : ∀ f ∈ t.files, included f.path = true →
    ¬ f.path <+: configTarget ∧ ¬ configTarget <+: f.path
  unfinished : ∀ p hp, d = .inside p hp → included (temporary p) = false

/-- The files of the archive, with what is archived of them. -/
def archivedFiles (h : Host) (t : Tree) (d : Destination) : List File :=
  (iterBackupFiles (t.during h d)).map (archivedFile h (t.during h d))

section Law

variable {c : Config} {h : Host} {t : Tree} {d : Destination} {archive : List Member}

theorem paths_archivedFiles :
    (archivedFiles h t d).map File.path = (iterBackupFiles (t.during h d)).map File.path := by
  simp [archivedFiles, archivedFile, Function.comp_def]

theorem nodup_archivedFiles : ((archivedFiles h t d).map File.path).Nodup := by
  rw [paths_archivedFiles]
  exact nodup_iterBackupFiles Tree.during_nodup

theorem named_archivedFiles : ∀ f ∈ archivedFiles h t d, Named f.path := by
  intro f hf
  obtain ⟨g, hg, rfl⟩ := List.mem_map.1 hf
  exact Tree.during_named g (mem_iterBackupFiles.1 hg).1

/-- The plan for an archive that was made. -/
theorem restorePlan_made (hok : createLocalBackup c h t d = .ok archive) :
    restorePlan archive = .ok (⟨configTarget, c.text⟩ :: archivedFiles h t d) := by
  obtain ⟨-, -, m, rfl⟩ := createLocalBackup_eq_ok hok
  exact restorePlan_memberList named_archivedFiles nodup_archivedFiles

/-- A made archive with distinct targets is restored when and only when they are apart. -/
theorem restoreLocalBackup_made {restored : List File}
    (hok : createLocalBackup c h t d = .ok archive)
    (hnd : ((⟨configTarget, c.text⟩ :: archivedFiles h t d).map File.path).Nodup) :
    restoreLocalBackup archive [] = .ok restored ↔
      (⟨configTarget, c.text⟩ :: archivedFiles h t d).Pairwise (fun f g => g.Apart f) ∧
        (⟨configTarget, c.text⟩ :: archivedFiles h t d).reverse = restored := by
  simp only [restoreLocalBackup, restorePlan_made hok, bind_eq_ok, ensure_eq_ok]
  constructor
  · rintro ⟨plan, hplan, _, -, hw⟩
    cases hplan
    obtain ⟨-, hpair, hout⟩ := (writeAll_eq_ok (by simp) hnd).1 hw
    exact ⟨hpair, by simpa using hout⟩
  · rintro ⟨hpair, rfl⟩
    refine ⟨_, rfl, (), by simp, (writeAll_eq_ok (by simp) hnd).2 ⟨by simp, hpair, by simp⟩⟩

theorem Separate.mem_iterBackupFiles (hs : Separate t d) {f : File} :
    f ∈ iterBackupFiles (t.during h d) ↔ f ∈ t.files ∧ included f.path = true := by
  rw [Backup.mem_iterBackupFiles]
  cases d with
  | outside free writable => rfl
  | inside p hp =>
    have htmp := hs.unfinished p hp rfl
    refine and_congr_left fun hinc => ?_
    have hne : f.path ≠ temporary p := fun he => by simp [he, htmp] at hinc
    have hne' : f ≠ ⟨temporary p, h.seen⟩ := fun he => hne (by rw [he])
    simp [Tree.during, hne, hne']

/-- Under the condition an archive holds the included files of `data_dir`. -/
theorem Separate.mem_archivedFiles (hs : Separate t d) {g : File} :
    g ∈ archivedFiles h t d ↔
      ∃ f ∈ t.files, included f.path = true ∧ archivedFile h t.files f = g := by
  have harch : ∀ f, archivedFile h (t.during h d) f = archivedFile h t.files f := by
    intro f
    unfold archivedFile
    rw [Tree.archived_during]
  unfold archivedFiles
  simp only [List.mem_map, hs.mem_iterBackupFiles, harch, and_assoc]

theorem Separate.apart (hs : Separate t d) :
    (⟨configTarget, c.text⟩ :: archivedFiles h t d).Pairwise fun f g => g.Apart f := by
  refine List.pairwise_cons.2 ⟨fun g hg => ?_, ?_⟩
  · obtain ⟨f, hf, hinc, rfl⟩ := hs.mem_archivedFiles.1 hg
    exact hs.config f hf hinc
  · have hne : (archivedFiles h t d).Pairwise fun f g => f.path ≠ g.path :=
      List.pairwise_map.1 nodup_archivedFiles
    refine hne.imp_of_mem fun {x y} hx hy hxy => ?_
    obtain ⟨f, hf, -, rfl⟩ := hs.mem_archivedFiles.1 hx
    obtain ⟨g, hg, -, rfl⟩ := hs.mem_archivedFiles.1 hy
    exact ⟨fun hp => hxy (t.flat g hg f hf hp).symm, fun hp => hxy (t.flat f hf g hg hp)⟩

theorem Separate.nodup (hs : Separate t d) :
    ((⟨configTarget, c.text⟩ :: archivedFiles h t d).map File.path).Nodup := by
  rw [List.map_cons, List.nodup_cons]
  refine ⟨fun hmem => ?_, nodup_archivedFiles⟩
  obtain ⟨g, hg, he⟩ := List.mem_map.1 hmem
  obtain ⟨f, hf, hinc, rfl⟩ := hs.mem_archivedFiles.1 hg
  exact (hs.config f hf hinc).1 (he ▸ List.prefix_refl f.path)

theorem Separate.restored (hs : Separate t d) (hok : createLocalBackup c h t d = .ok archive) :
    Restored c h t (⟨configTarget, c.text⟩ :: archivedFiles h t d).reverse := by
  have hnd : ((⟨configTarget, c.text⟩ :: archivedFiles h t d).reverse.map File.path).Nodup := by
    rw [List.map_reverse]
    exact List.nodup_reverse.2 hs.nodup
  refine ⟨fun f hf hinc => ?_, ?_, fun g hg => ?_⟩
  · have hg : archivedFile h t.files f ∈ archivedFiles h t d :=
      hs.mem_archivedFiles.2 ⟨f, hf, hinc, rfl⟩
    have hcontent := contentAt_of_mem hnd (List.mem_reverse.2 (List.mem_cons_of_mem _ hg))
    obtain ⟨-, hsome, -⟩ := createLocalBackup_eq_ok hok
    have hraw := hsome f (hs.mem_iterBackupFiles.2 ⟨hf, hinc⟩)
    rw [Tree.archived_during] at hraw
    obtain ⟨raw, hraw⟩ := Option.isSome_iff_exists.1 hraw
    refine ⟨raw, hraw, ?_⟩
    rw [show raw = (archivedFile h t.files f).content from by simp [archivedFile, hraw]]
    exact hcontent
  · exact contentAt_of_mem hnd (List.mem_reverse.2 List.mem_cons_self)
  · rcases List.mem_cons.1 (List.mem_reverse.1 hg) with rfl | hg
    · exact .inl rfl
    · obtain ⟨f, hf, -, rfl⟩ := hs.mem_archivedFiles.1 hg
      exact .inr (List.any_eq_true.2 ⟨f, hf, decide_eq_true rfl⟩)

/-- A host on which a backup that can be opened is made, whatever the files. -/
def plainHost (seen : Content) : Host where
  createdAt := name "2025-01-01T00:00:00+00:00"
  snapshot := fun raw _ _ => some raw
  seen := seen

theorem archived_plainHost (seen : Content) (files : List File) (f : File) :
    archived (plainHost seen) files f = some f.content := by
  unfold archived plainHost
  split <;> rfl

theorem createLocalBackup_plainHost (seen : Content) (hopen : openArchive t d = .ok ()) :
    ∃ archive, createLocalBackup c (plainHost seen) t d = .ok archive :=
  createLocalBackup_ok hopen fun f _ => by simp [archived_plainHost]

theorem RoundTrip.separate (hr : RoundTrip c t d) (hopen : openArchive t d = .ok ()) :
    Separate t d := by
  constructor
  · intro f hf hinc
    obtain ⟨archive, hok⟩ := createLocalBackup_plainHost (c := c) [] hopen
    obtain ⟨plan, restored, hplan, hnd, hrest, -⟩ := hr _ archive hok
    rw [restorePlan_made hok] at hplan
    cases hplan
    obtain ⟨hpair, -⟩ := (restoreLocalBackup_made hok hnd).1 hrest
    -- the file, or the temporary one in its place, is archived
    obtain ⟨g, hg, hpath⟩ := Tree.during_path (h := plainHost []) (d := d) hf
    have hgm : archivedFile (plainHost []) (t.during (plainHost []) d) g ∈
        archivedFiles (plainHost []) t d :=
      List.mem_map_of_mem (Backup.mem_iterBackupFiles.2 ⟨hg, hpath ▸ hinc⟩)
    have hapart := (List.pairwise_cons.1 hpair).1 _ hgm
    rw [← hpath]
    exact hapart
  · rintro p hp rfl
    by_contra hinc
    -- what is read of the unfinished archive is not what the file held
    let seen : Content := 0 :: (contentAt t.files (temporary p)).getD []
    obtain ⟨archive, hok⟩ := createLocalBackup_plainHost (c := c) seen hopen
    obtain ⟨plan, restored, hplan, hnd, hrest, hlaw⟩ := hr _ archive hok
    rw [restorePlan_made hok] at hplan
    cases hplan
    obtain ⟨-, rfl⟩ := (restoreLocalBackup_made hok hnd).1 hrest
    have hmem : ⟨temporary p, seen⟩ ∈ (⟨configTarget, c.text⟩ ::
        archivedFiles (plainHost seen) t (.inside p hp)).reverse := by
      refine List.mem_reverse.2 (List.mem_cons_of_mem _ (List.mem_map.2 ⟨⟨temporary p, seen⟩, ?_, ?_⟩))
      · refine Backup.mem_iterBackupFiles.2 ⟨?_, by simpa using hinc⟩
        simp [Tree.during, plainHost]
      · simp [archivedFile, archived_plainHost]
    have hcontent : contentAt _ (temporary p) = some seen :=
      contentAt_of_mem (by rw [List.map_reverse]; exact List.nodup_reverse.2 hnd) hmem
    rcases hlaw.only _ hmem with hconf | hold
    · exact absurd hconf (temporary_ne (by decide))
    · obtain ⟨f, hf, hpath⟩ := List.any_eq_true.1 hold
      have hpath : f.path = temporary p := of_decide_eq_true hpath
      obtain ⟨raw, hraw, hgot⟩ := hlaw.data f hf (by rw [hpath]; simpa using hinc)
      rw [archived_plainHost] at hraw
      rw [hpath, hcontent, ← hraw] at hgot
      have hseen : seen = 0 :: f.content := by
        show 0 :: (contentAt t.files (temporary p)).getD [] = 0 :: f.content
        rw [← hpath, contentAt_of_mem t.nodup hf]
        rfl
      have hlen := congrArg List.length (hseen.symm.trans (Option.some.inj hgot))
      simp at hlen

/-- **The round trip.**  Every archive that is made comes back as it was, if and only if the
included files keep clear of the place of the configuration and the archive does not
contain its own temporary file. -/
theorem roundTrip_iff (c : Config) (t : Tree) (d : Destination) :
    RoundTrip c t d ↔ (openArchive t d = .ok () → Separate t d) := by
  constructor
  · exact fun hr hopen => hr.separate hopen
  · intro hs h archive hok
    have hs : Separate t d := hs (createLocalBackup_eq_ok hok).1
    exact ⟨_, _, restorePlan_made hok, hs.nodup,
      (restoreLocalBackup_made hok hs.nodup).2 ⟨hs.apart, rfl⟩, hs.restored hok⟩

end Law

/-! ## An earlier restore -/

namespace Sample

def config : Config where
  text := [123, 125]
  instanceId := name "maya-local"
  runtimeVersion := name "0.1"

/-- `data_dir` after a restore: the configuration of that backup lies below it. -/
def restoredTree : Tree where
  files := [⟨configTarget, [91, 93]⟩, ⟨[name "memory", name "records.json"], [1, 2, 3]⟩]
  dirs := []
  nodup := by decide
  named := by decide
  flat := by decide

/-- The configuration and the data file have one target: a backup of a restored `data_dir`
does not give back its `config/maya-config.json`. -/
theorem restored_tree_loses_config : ¬ RoundTrip config restoredTree (.outside true true) := by
  intro h
  have hs := h.separate rfl
  exact (hs.config ⟨configTarget, [91, 93]⟩ (by decide) (by decide)).1 (List.prefix_refl _)

end Sample

end ProjectMaya.Backup
