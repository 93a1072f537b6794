import ProjectMaya.Logic.FileTree

/-! # Files that are written one after the other

`saveFile` makes the directories above a file and writes it.  Whether several files can be written
one after the other is read off the tree before the first of them (`placeable_concat`), and so is
what they leave (`placed`), and whether the tree is as before when the next one fails
(`saveFile_same_iff`). -/

namespace Logic.FileTree

variable {N C : Type} [DecidableEq N]

/-- What was written last at a path. -/
def latest (writes : List (List N × C)) (q : List N) : Option C :=
  (writes.reverse.find? fun f => f.1 = q).map Prod.snd

/-- What is at a path after these files were written. -/
def placed (t : Tree N C) (writes : List (List N × C)) (q : List N) : Option (Node N C) :=
  match latest writes q with
  | some content => some (.file content)
  | none => if writes.any fun f => q.isPrefixOf f.1 then some .dir else t.node q

/-- A file can be written, and so can the directories above it. -/
structure Device.Fits (device : Device N C) (t : Tree N C) (f : List N × C) : Prop where
  done : device.write f.1 f.2 = .done
  dirs : ∀ q, q <+: f.1 → q ≠ f.1 → device.Dirable t q
  file : t.node f.1 ≠ some .dir

/-- So can these files, and none of them is where another one needs a directory. -/
structure Device.Placeable (device : Device N C) (t : Tree N C) (writes : List (List N × C)) :
    Prop where
  fits : ∀ f ∈ writes, device.Fits t f
  apart : ∀ f ∈ writes, ∀ g ∈ writes, f.1 <+: g.1 → f.1 = g.1

/-- The files were in the tree before they were written. -/
def Kept (t : Tree N C) (writes : List (List N × C)) : Prop :=
  ∀ q content, latest writes q = some content → t.node q = some (.file content)

/-- No directory above the path can be made. -/
def Device.Unmade (device : Device N C) (t : Tree N C) (path : List N) : Prop :=
  ∀ q, q <+: path → q ≠ path → t.node q = none → t.node q.dropLast = some .dir →
    device.makes q = false

variable {device : Device N C} {t : Tree N C} {disk : Disk N C} {writes : List (List N × C)}
  {f : List N × C} {path q : List N} {content : C}

theorem latest_concat :
    latest (writes ++ [f]) q = if f.1 = q then some f.2 else latest writes q := by
  unfold latest
  rw [List.reverse_concat]
  by_cases hq : f.1 = q
  · rw [List.find?_cons_of_pos (by simpa using hq), if_pos hq]
    rfl
  · rw [List.find?_cons_of_neg (by simpa using hq), if_neg hq]

theorem latest_eq_none : latest writes q = none ↔ ∀ f ∈ writes, f.1 ≠ q := by
  simp [latest]

theorem mem_of_latest (h : latest writes q = some content) : (q, content) ∈ writes := by
  obtain ⟨f, hf, rfl⟩ := Option.map_eq_some_iff.1 h
  have hq : f.1 = q := by simpa using List.find?_some hf
  rw [← hq]
  exact List.mem_reverse.1 (List.mem_of_find?_eq_some hf)

theorem exists_of_latest (h : latest writes q = some content) : ∃ f ∈ writes, f.1 = q :=
  ⟨_, mem_of_latest h, rfl⟩

theorem latest_of_mem (hf : f ∈ writes) : ∃ content, latest writes f.1 = some content := by
  cases h : latest writes f.1 with
  | some content => exact ⟨content, rfl⟩
  | none => exact absurd rfl (latest_eq_none.1 h f hf)

theorem placed_of_latest (h : latest writes q = some content) :
    placed t writes q = some (.file content) := by
  unfold placed
  rw [h]

theorem placed_above (h : latest writes q = none) (hf : f ∈ writes) (hq : q <+: f.1) :
    placed t writes q = some .dir := by
  unfold placed
  rw [h]
  exact if_pos (List.any_eq_true.2 ⟨f, hf, List.isPrefixOf_iff_prefix.2 hq⟩)

theorem placed_elsewhere (h : ∀ f ∈ writes, ¬ q <+: f.1) : placed t writes q = t.node q := by
  have hnone : latest writes q = none := latest_eq_none.2 fun f hf hq =>
    h f hf (by rw [hq])
  unfold placed
  rw [hnone]
  refine if_neg fun hany => ?_
  obtain ⟨f, hf, hq⟩ := List.any_eq_true.1 hany
  exact h f hf (List.isPrefixOf_iff_prefix.1 hq)

/-- A path is written to, or above what is written, or neither. -/
theorem placed_cases (writes : List (List N × C)) (q : List N) :
    (∃ content, latest writes q = some content) ∨
      (latest writes q = none ∧ ∃ f ∈ writes, q <+: f.1 ∧ q ≠ f.1) ∨
      ∀ f ∈ writes, ¬ q <+: f.1 := by
  cases h : latest writes q with
  | some content => exact .inl ⟨content, rfl⟩
  | none =>
    right
    by_cases hex : ∃ f ∈ writes, q <+: f.1
    · obtain ⟨f, hf, hq⟩ := hex
      exact .inl ⟨rfl, f, hf, hq, Ne.symm (latest_eq_none.1 h f hf)⟩
    · exact .inr fun f hf hq => hex ⟨f, hf, hq⟩

theorem placed_eq_none :
    placed t writes q = none ↔ t.node q = none ∧ ∀ f ∈ writes, ¬ q <+: f.1 := by
  rcases placed_cases writes q with ⟨content, h⟩ | ⟨h, f, hf, hq, -⟩ | h
  · rw [placed_of_latest h]
    refine ⟨fun h => (by cases h), fun hnone => ?_⟩
    obtain ⟨f, hf, rfl⟩ := exists_of_latest h
    exact absurd List.prefix_rfl (hnone.2 f hf)
  · rw [placed_above h hf hq]
    exact ⟨fun h => (by cases h), fun hnone => absurd hq (hnone.2 f hf)⟩
  · rw [placed_elsewhere h]
    exact ⟨fun hnone => ⟨hnone, h⟩, And.left⟩

/-- Directories are where they were, and above what is written. -/
theorem placed_eq_dir (h : device.Placeable t writes) :
    placed t writes q = some .dir ↔
      t.node q = some .dir ∨ ∃ f ∈ writes, q <+: f.1 ∧ q ≠ f.1 := by
  rcases placed_cases writes q with ⟨content, hq⟩ | ⟨hnone, f, hf, hq, hne⟩ | hq
  · rw [placed_of_latest hq]
    refine ⟨fun h => (by cases h), ?_⟩
    obtain ⟨f, hf, rfl⟩ := exists_of_latest hq
    rintro (hdir | ⟨g, hg, hpre, hne⟩)
    · exact absurd hdir (h.fits f hf).file
    · exact absurd (h.apart f hf g hg hpre) hne
  · rw [placed_above hnone hf hq]
    exact ⟨fun _ => .inr ⟨f, hf, hq, hne⟩, fun _ => rfl⟩
  · rw [placed_elsewhere hq]
    refine ⟨.inl, ?_⟩
    rintro (hdir | ⟨f, hf, hpre, -⟩)
    · exact hdir
    · exact absurd hpre (hq f hf)

/-- The tree is the same exactly when the files were there. -/
theorem placed_eq_iff : (∀ q, placed t writes q = t.node q) ↔ Kept t writes := by
  constructor
  · intro h q content hq
    rw [← h q, placed_of_latest hq]
  · intro h q
    rcases placed_cases writes q with ⟨content, hq⟩ | ⟨hnone, f, hf, hq, hne⟩ | hq
    · rw [placed_of_latest hq, h q content hq]
    · obtain ⟨content, hlatest⟩ := latest_of_mem hf
      rw [placed_above hnone hf hq]
      have hthere : t.node f.1 ≠ none := by
        rw [h f.1 content hlatest]
        exact Option.some_ne_none _
      exact (t.dir_of_prefix hthere hq hne).symm
    · exact placed_elsewhere hq

/-- The links are those of the tree. -/
theorem unlinked_placed (h : ∀ q, disk.tree.node q = placed t writes q) : Unlinked t disk.tree := by
  intro q absolute steps hq
  rw [h q] at hq
  rcases placed_cases writes q with ⟨content, hlatest⟩ | ⟨hnone, f, hf, hpre, -⟩ | hnot
  · rw [placed_of_latest hlatest] at hq
    cases hq
  · rw [placed_above hnone hf hpre] at hq
    cases hq
  · rw [placed_elsewhere hnot] at hq
    exact hq

/-- Where no link is replaced, paths lead where they led. -/
theorem resolve_placed (h : ∀ q, disk.tree.node q = placed t writes q)
    (hlinks : disk.tree.links = t.links) (hs : ∀ f ∈ writes, Straight t f.1)
    (steps : List (Step N)) :
    disk.tree.resolve [] steps = t.resolve [] steps := by
  refine resolve_congr (fun q absolute steps => ⟨unlinked_placed h q absolute steps, ?_⟩) hlinks []
    steps
  intro hlink
  rw [h q]
  rcases placed_cases writes q with ⟨content, hlatest⟩ | ⟨-, f, hf, hpre, -⟩ | hno
  · obtain ⟨f, hf, rfl⟩ := exists_of_latest hlatest
    exact absurd hlink (hs f hf f.1 List.prefix_rfl absolute steps)
  · exact absurd hlink (hs f hf q hpre absolute steps)
  · rw [placed_elsewhere hno, hlink]

/-! ## One file -/

variable (device) in
/-- `path.parent.mkdir(parents=True, exist_ok=True)`, and then the file is written. -/
def saveFile (disk : Disk N C) (path : List N) (content : C) : Disk N C × Bool :=
  let made := makeDirs device disk [] path.dropLast
  if made.2 then writeFile device made.1 path content else (made.1, false)

omit [DecidableEq N] in
theorem prefix_dropLast (hp : path ≠ []) : q <+: path.dropLast ↔ q <+: path ∧ q ≠ path := by
  have hconcat := List.dropLast_concat_getLast hp
  constructor
  · intro h
    refine ⟨h.trans (List.dropLast_prefix path), ?_⟩
    rintro rfl
    have hlen := h.length_le
    have hpos := List.length_pos_iff.2 hp
    rw [List.length_dropLast] at hlen
    omega
  · rintro ⟨h, hne⟩
    rw [← hconcat] at h
    exact (List.prefix_concat_iff.1 h).resolve_left fun heq => hne (heq.trans hconcat)

omit [DecidableEq N] in
/-- The directories above a path are between it and the root. -/
theorem between_dropLast : Between [] q ([] ++ path.dropLast) ↔ q = [] ∨ q <+: path ∧ q ≠ path := by
  unfold Between
  rw [List.nil_append, and_iff_right List.nil_prefix]
  by_cases hp : path = []
  · subst hp
    rw [List.dropLast_nil, List.prefix_nil]
    exact ⟨.inl, fun h => h.resolve_right fun h => h.2 h.1⟩
  · rw [prefix_dropLast hp]
    refine ⟨.inr, ?_⟩
    rintro (rfl | h)
    · exact ⟨List.nil_prefix, Ne.symm hp⟩
    · exact h

omit [DecidableEq N] in
theorem not_between_self (hp : path ≠ []) : ¬ Between [] path ([] ++ path.dropLast) := by
  rw [between_dropLast]
  rintro (h | h)
  · exact hp h
  · exact h.2 rfl

omit [DecidableEq N] in
theorem ne_nil_of_file (h : t.node path ≠ some .dir) : path ≠ [] := by
  rintro rfl
  exact h t.root

section

variable (hs : Straight disk.tree path)

include hs

theorem straight_made :
    Straight (makeDirs device disk [] path.dropLast).1.tree path :=
  hs.mono (makeDirs_grown device disk.tree.root
    (hs.of_prefix (List.dropLast_prefix path))).unlinked

/-- The parent is made exactly when all directories above are there or can be made. -/
theorem makeParent_iff :
    (makeDirs device disk [] path.dropLast).2 = true ↔
      ∀ q, q <+: path → q ≠ path → device.Dirable disk.tree q := by
  rw [makeDirs_iff disk.tree.root (hs.of_prefix (List.dropLast_prefix path))]
  constructor
  · exact fun h q hq hne => h q (between_dropLast.2 (.inr ⟨hq, hne⟩))
  · intro h q hq
    rcases between_dropLast.1 hq with rfl | ⟨hq, hne⟩
    · exact .inl disk.tree.root
    · exact h q hq hne

theorem makeParent_same_iff :
    (makeDirs device disk [] path.dropLast).1.tree = disk.tree ↔ device.Unmade disk.tree path := by
  rw [makeDirs_same_iff disk.tree.root (hs.of_prefix (List.dropLast_prefix path))]
  constructor
  · exact fun h q hq hne => h q (between_dropLast.2 (.inr ⟨hq, hne⟩))
  · intro h q hq hnone
    rcases between_dropLast.1 hq with rfl | ⟨hq, hne⟩
    · rw [disk.tree.root] at hnone
      cases hnone
    · exact h q hq hne hnone

/-- Making the parent leaves the path alone. -/
theorem makeParent_self (hp : path ≠ []) :
    (makeDirs device disk [] path.dropLast).1.tree.node path = disk.tree.node path := by
  rcases makeDirs_cases device disk.tree.root
    (hs.of_prefix (List.dropLast_prefix path)) path with h | ⟨h, -⟩
  · exact h
  · exact absurd h (not_between_self hp)

/-- When the parent is made, the file may be put there exactly when no directory is there. -/
theorem makeParent_free (hmade : (makeDirs device disk [] path.dropLast).2 = true) :
    (makeDirs device disk [] path.dropLast).1.tree.Free path ↔ disk.tree.node path ≠ some .dir := by
  constructor
  · rintro ⟨hp, -, hno⟩ hdir
    rw [← makeParent_self hs hp, ← isDir_iff, hno] at hdir
    cases hdir
  · intro hfile
    have hp := ne_nil_of_file hfile
    refine ⟨hp, ?_, ?_⟩
    · rw [isDir_iff]
      exact makeDirs_dirs disk.tree.root (hs.of_prefix (List.dropLast_prefix path)) hmade
        ⟨List.nil_prefix, List.prefix_rfl⟩
    · rw [Bool.eq_false_iff, Ne, isDir_iff, makeParent_self hs hp]
      exact hfile

theorem saveFile_iff :
    (saveFile device disk path content).2 = true ↔ device.Fits disk.tree (path, content) := by
  unfold saveFile
  by_cases hmade : (makeDirs device disk [] path.dropLast).2 = true
  · rw [if_pos hmade, writeFile_iff (straight_made hs), makeParent_free hs hmade]
    exact ⟨fun h => ⟨h.2, (makeParent_iff hs).1 hmade, h.1⟩, fun h => ⟨h.file, h.done⟩⟩
  · rw [if_neg hmade]
    exact ⟨fun h => (by cases h), fun h => absurd ((makeParent_iff hs).2 h.dirs) hmade⟩

/-- What a file leaves that is written. -/
theorem saveFile_node (h : device.Fits disk.tree (path, content)) (q : List N) :
    (saveFile device disk path content).1.tree.node q =
      if q = path then some (.file content) else if q <+: path then some .dir
        else disk.tree.node q := by
  have hmade := (makeParent_iff hs).2 h.dirs
  have hparent := hs.of_prefix (List.dropLast_prefix path)
  unfold saveFile
  rw [if_pos hmade, writeFile_node (straight_made hs)
    ((writeFile_iff (straight_made hs)).2 ⟨(makeParent_free hs hmade).2 h.file, h.done⟩)]
  by_cases hq : q = path
  · rw [if_pos hq, if_pos hq]
  · rw [if_neg hq, if_neg hq]
    by_cases hpre : q <+: path
    · rw [if_pos hpre]
      exact makeDirs_dirs disk.tree.root hparent hmade
        (between_dropLast.2 (.inr ⟨hpre, hq⟩))
    · rw [if_neg hpre]
      rcases makeDirs_cases device disk.tree.root hparent q with h | ⟨hbetween, -⟩
      · exact h
      · rcases between_dropLast.1 hbetween with rfl | ⟨h, -⟩
        · exact absurd List.nil_prefix hpre
        · exact absurd h hpre

end

theorem saveFile_links (hs : Straight disk.tree path) :
    (saveFile device disk path content).1.tree.links = disk.tree.links := by
  have hlinks := (makeDirs_grown device disk.tree.root
    (hs.of_prefix (List.dropLast_prefix path))).links
  unfold saveFile
  by_cases hmade : (makeDirs device disk [] path.dropLast).2 = true
  · rw [if_pos hmade, writeFile_of_straight (straight_made hs)]
    split
    · cases (device.write path content).left content with
      | none => exact hlinks
      | some c => exact (put_links fun _ _ h => by cases h).trans hlinks
    · exact hlinks
  · rw [if_neg hmade]
    exact hlinks

/-! ## One more file -/

section

variable (hplaced : ∀ q, disk.tree.node q = placed t writes q)

include hplaced

theorem dirable_of_placed (h : device.Placeable t writes) (hq : device.Dirable disk.tree q) :
    device.Dirable t q := by
  rcases hq with hdir | ⟨hnone, hmakes⟩
  · rw [hplaced, placed_eq_dir h] at hdir
    rcases hdir with hdir | ⟨g, hg, hpre, hne⟩
    · exact .inl hdir
    · exact (h.fits g hg).dirs q hpre hne
  · rw [hplaced, placed_eq_none] at hnone
    exact .inr ⟨hnone.1, hmakes⟩

/-- Whether one more file can be written. -/
theorem placeable_concat :
    device.Placeable t (writes ++ [f]) ↔ device.Placeable t writes ∧ device.Fits disk.tree f := by
  have hmem : ∀ g ∈ writes, g ∈ writes ++ [f] := fun g hg => List.mem_append_left _ hg
  have hlast : f ∈ writes ++ [f] := List.mem_append_right _ List.mem_cons_self
  constructor
  · intro h
    have hwrites : device.Placeable t writes :=
      ⟨fun g hg => h.fits g (hmem g hg), fun g hg g' hg' => h.apart g (hmem g hg) g' (hmem g' hg')⟩
    have hfits := h.fits f hlast
    refine ⟨hwrites, hfits.done, ?_, ?_⟩
    · intro q hq hne
      rw [Device.Dirable, hplaced q, placed_eq_dir hwrites, placed_eq_none]
      rcases hfits.dirs q hq hne with hdir | ⟨hnone, hmakes⟩
      · exact .inl (.inl hdir)
      · by_cases hex : ∃ g ∈ writes, q <+: g.1
        · obtain ⟨g, hg, hpre⟩ := hex
          refine .inl (.inr ⟨g, hg, hpre, ?_⟩)
          rintro rfl
          exact hne (h.apart g (hmem g hg) f hlast hq)
        · exact .inr ⟨⟨hnone, fun g hg hpre => hex ⟨g, hg, hpre⟩⟩, hmakes⟩
    · rw [hplaced, Ne, placed_eq_dir hwrites]
      rintro (hdir | ⟨g, hg, hpre, hne⟩)
      · exact hfits.file hdir
      · exact hne (h.apart f hlast g (hmem g hg) hpre)
  · rintro ⟨h, hfits⟩
    have hfile : t.node f.1 ≠ some .dir ∧ ∀ g ∈ writes, f.1 <+: g.1 → f.1 = g.1 := by
      have hno := hfits.file
      rw [hplaced, Ne, placed_eq_dir h, not_or] at hno
      refine ⟨hno.1, fun g hg hpre => ?_⟩
      by_contra hne
      exact hno.2 ⟨g, hg, hpre, hne⟩
    have hdirs : ∀ q, q <+: f.1 → q ≠ f.1 → device.Dirable t q := fun q hq hne =>
      dirable_of_placed hplaced h (hfits.dirs q hq hne)
    -- no earlier file is where the new one needs a directory
    have habove : ∀ g ∈ writes, g.1 <+: f.1 → g.1 = f.1 := by
      intro g hg hpre
      by_contra hne
      rcases hfits.dirs g.1 hpre hne with hdir | ⟨hnone, -⟩
      · obtain ⟨content, hlatest⟩ := latest_of_mem hg
        rw [hplaced, placed_of_latest hlatest] at hdir
        cases hdir
      · rw [hplaced, placed_eq_none] at hnone
        exact hnone.2 g hg List.prefix_rfl
    refine ⟨?_, ?_⟩
    · intro g hg
      rcases List.mem_append.1 hg with hg | hg
      · exact h.fits g hg
      · rw [List.mem_singleton.1 hg]
        exact ⟨hfits.done, hdirs, hfile.1⟩
    · intro g hg g' hg'
      rcases List.mem_append.1 hg with hg | hg <;> rcases List.mem_append.1 hg' with hg' | hg'
      · exact h.apart g hg g' hg'
      · rw [List.mem_singleton.1 hg']
        exact habove g hg
      · rw [List.mem_singleton.1 hg]
        exact hfile.2 g' hg'
      · rw [List.mem_singleton.1 hg, List.mem_singleton.1 hg']
        exact fun _ => rfl

/-- What one more file leaves. -/
theorem saveFile_placed (hs : Straight disk.tree path)
    (h : device.Placeable t (writes ++ [(path, content)])) (q : List N) :
    (saveFile device disk path content).1.tree.node q =
      placed t (writes ++ [(path, content)]) q := by
  obtain ⟨hwrites, hfits⟩ := (placeable_concat hplaced).1 h
  rw [saveFile_node hs hfits]
  have hmem : (path, content) ∈ writes ++ [(path, content)] :=
    List.mem_append_right _ List.mem_cons_self
  by_cases hq : q = path
  · rw [if_pos hq, placed_of_latest (latest_concat.trans (if_pos hq.symm))]
  · have hlatest : latest (writes ++ [(path, content)]) q = latest writes q :=
      latest_concat.trans (if_neg (Ne.symm hq))
    rw [if_neg hq]
    by_cases hpre : q <+: path
    · rw [if_pos hpre, (placed_eq_dir h).2 (.inr ⟨_, hmem, hpre, hq⟩)]
    · rw [if_neg hpre, hplaced]
      rcases placed_cases writes q with ⟨c, hc⟩ | ⟨hnone, g, hg, habove, -⟩ | hno
      · rw [placed_of_latest hc, placed_of_latest (hlatest.trans hc)]
      · rw [placed_above hnone hg habove,
          placed_above (hlatest.trans hnone) (List.mem_append_left _ hg) habove]
      · rw [placed_elsewhere hno, placed_elsewhere]
        intro g hg
        rcases List.mem_append.1 hg with hg | hg
        · exact hno g hg
        · rw [List.mem_singleton.1 hg]
          exact hpre

variable (hlinks : disk.tree.links = t.links)

include hlinks

omit [DecidableEq N] hplaced in
theorem tree_eq_of_node (h : ∀ q, disk.tree.node q = t.node q) : disk.tree = t :=
  Tree.ext (funext h) hlinks

theorem placed_tree_eq_iff : disk.tree = t ↔ Kept t writes := by
  rw [← placed_eq_iff]
  constructor
  · intro h q
    rw [← hplaced q, h]
  · exact fun h => tree_eq_of_node hlinks fun q => (hplaced q).trans (h q)

/-- When only directories were made in vain, the tree is the first one exactly when the files were
there and no directory could be made. -/
theorem makeParent_restores_iff (hs : Straight disk.tree path) :
    (makeDirs device disk [] path.dropLast).1.tree = t ↔
      device.Unmade t path ∧ Kept t writes := by
  rw [← placed_tree_eq_iff hplaced hlinks]
  constructor
  · intro h
    have hgrown := makeDirs_grown device disk.tree.root
      (hs.of_prefix (List.dropLast_prefix path))
    have hsame : disk.tree = t := by
      refine tree_eq_of_node hlinks fun q => ?_
      by_cases hq : disk.tree.node q = none
      · rw [hq]
        rw [hplaced, placed_eq_none] at hq
        exact hq.1.symm
      · rw [← hgrown.keeps q hq, h]
    refine ⟨?_, hsame⟩
    rw [← hsame, ← makeParent_same_iff hs, h, hsame]
  · rintro ⟨hunmade, hsame⟩
    rw [← hsame] at hunmade
    rw [(makeParent_same_iff hs).2 hunmade, hsame]

end

/-- What a file that is not written to its end leaves in its place. -/
def leftover (device : Device N C) (t : Tree N C) (path : List N) (content : C) :
    List (List N × C) :=
  if t.Free path then ((device.write path content).left content).toList.map fun c => (path, c)
  else []

omit [DecidableEq N] in
theorem leftover_of_free (h : t.Free path) {c : C}
    (hleft : (device.write path content).left content = some c) :
    leftover device t path content = [(path, c)] := by
  unfold leftover
  rw [if_pos h, hleft]
  rfl

omit [DecidableEq N] in
theorem leftover_eq_nil (h : t.Free path → (device.write path content).left content = none) :
    leftover device t path content = [] := by
  unfold leftover
  by_cases hfree : t.Free path
  · rw [if_pos hfree, h hfree]
    rfl
  · rw [if_neg hfree]

omit [DecidableEq N] in
/-- Where a file is, one may be put. -/
theorem free_of_file (h : t.node path = some (.file content)) : t.Free path := by
  have hp : path ≠ [] := ne_nil_of_file (by rw [h]; exact fun h => by cases h)
  refine ⟨hp, ?_, ?_⟩
  · rw [isDir_iff]
    obtain ⟨hpre, hne⟩ := (prefix_dropLast hp).1 (List.prefix_refl path.dropLast)
    exact t.dir_of_prefix (by rw [h]; exact Option.some_ne_none _) hpre hne
  · unfold Tree.isDir
    rw [h]

variable (device content) in
/-- A file is written, to its end or not, or it is not opened. -/
theorem saveFile_cases (hs : Straight disk.tree path) :
    (∃ c, (makeDirs device disk [] path.dropLast).2 = true ∧ disk.tree.node path ≠ some .dir ∧
        (device.write path content).left content = some c ∧
        (saveFile device disk path content).1.tree =
          (makeDirs device disk [] path.dropLast).1.tree.put path (.file c)) ∨
      (((makeDirs device disk [] path.dropLast).2 = true → disk.tree.node path ≠ some .dir →
          (device.write path content).left content = none) ∧
        (saveFile device disk path content).1.tree =
          (makeDirs device disk [] path.dropLast).1.tree) := by
  unfold saveFile
  by_cases hmade : (makeDirs device disk [] path.dropLast).2 = true
  · rw [if_pos hmade, writeFile_of_straight (straight_made hs)]
    have hfree := makeParent_free hs hmade
    by_cases hdir : disk.tree.node path = some .dir
    · rw [if_neg fun h => hfree.1 h hdir]
      exact .inr ⟨fun _ h => absurd hdir h, rfl⟩
    · rw [if_pos (hfree.2 hdir)]
      cases hleft : (device.write path content).left content with
      | none => exact .inr ⟨fun _ _ => rfl, rfl⟩
      | some c => exact .inl ⟨c, hmade, hdir, rfl, rfl⟩
  · rw [if_neg hmade]
    exact .inr ⟨fun h => absurd h hmade, rfl⟩

omit [DecidableEq N] in
/-- Where no directory can be made, those that are needed are there. -/
theorem dirs_of_unmade (h : device.Unmade t path)
    (hdirs : ∀ q, q <+: path → q ≠ path → device.Dirable t q) (hq : q <+: path) (hne : q ≠ path) :
    t.node q = some .dir := by
  induction q using List.reverseRecOn with
  | nil => exact t.root
  | append_singleton q n ih =>
    have hpre : q <+: path := (List.prefix_append q [n]).trans hq
    have hlen := hq.length_le
    rw [List.length_append, List.length_singleton] at hlen
    have hparent : t.node q = some .dir := by
      refine ih hpre ?_
      rintro rfl
      omega
    rcases hdirs _ hq hne with hdir | ⟨hnone, hmakes⟩
    · exact hdir
    · rw [h _ hq hne hnone (by rw [List.dropLast_concat]; exact hparent)] at hmakes
      cases hmakes

omit [DecidableEq N] in
theorem dirs_of_free (h : t.Free path) (hq : q <+: path) (hne : q ≠ path) :
    t.node q = some .dir := by
  have hparent := isDir_iff.1 h.2.1
  by_cases heq : q = path.dropLast
  · rw [heq]
    exact hparent
  · exact t.dir_of_prefix (by rw [hparent]; exact Option.some_ne_none _)
      ((prefix_dropLast h.1).2 ⟨hq, hne⟩) heq

omit [DecidableEq N] in
theorem free_of_dirs (hfile : t.node path ≠ some .dir)
    (h : ∀ q, q <+: path → q ≠ path → t.node q = some .dir) : t.Free path := by
  have hp := ne_nil_of_file hfile
  refine ⟨hp, ?_, ?_⟩
  · obtain ⟨hpre, hne⟩ := (prefix_dropLast hp).1 (List.prefix_refl path.dropLast)
    exact isDir_iff.2 (h _ hpre hne)
  · rw [Bool.eq_false_iff, Ne, isDir_iff]
    exact hfile

theorem Kept.there (h : Kept t writes) (hf : f ∈ writes) : t.node f.1 ≠ none := by
  obtain ⟨content, hlatest⟩ := latest_of_mem hf
  rw [h f.1 content hlatest]
  exact Option.some_ne_none _

/-- When a file was not written, the tree is the first one exactly when all files, and what is left
of this one, were there and no directory could be made. -/
theorem saveFile_restores_iff (hplaced : ∀ q, disk.tree.node q = placed t writes q)
    (hlinks : disk.tree.links = t.links) (h : device.Placeable t writes)
    (hs : Straight disk.tree path) :
    (saveFile device disk path content).1.tree = t ↔
      device.Unmade t path ∧ Kept t (writes ++ leftover device t path content) := by
  have hgrown := makeDirs_grown device disk.tree.root
    (hs.of_prefix (List.dropLast_prefix path))
  rcases saveFile_cases device content hs with
    ⟨c, hmade, hfile, hleft, htree⟩ | ⟨hnone, htree⟩
  · have hfree := (makeParent_free hs hmade).2 hfile
    rw [htree]
    constructor
    · intro heq
      have hnode : ∀ q, t.node q = if q = path then some (.file c)
          else (makeDirs device disk [] path.dropLast).1.tree.node q := by
        intro q
        rw [← heq, put_node hfree]
      have hpath : t.node path = some (.file c) := (hnode path).trans (if_pos rfl)
      rw [leftover_of_free (free_of_file hpath) hleft]
      refine ⟨fun q hq hne hmissing => ?_, fun q content' hq => ?_⟩
      · rw [dirs_of_free (free_of_file hpath) hq hne] at hmissing
        cases hmissing
      · rw [latest_concat] at hq
        by_cases hqp : path = q
        · rw [if_pos hqp] at hq
          cases hq
          rw [← hqp, hpath]
        · rw [if_neg hqp] at hq
          have hthere := (hplaced q).trans (placed_of_latest hq)
          rw [hnode, if_neg (Ne.symm hqp), hgrown.keeps q (hthere ▸ Option.some_ne_none _), hthere]
    · rintro ⟨hunmade, hkept⟩
      have hfile' : t.node path ≠ some .dir := fun hdir =>
        hfile ((hplaced path).trans ((placed_eq_dir h).2 (.inl hdir)))
      have hdirs : ∀ q, q <+: path → q ≠ path → t.node q = some .dir := fun q hq hne =>
        dirs_of_unmade hunmade (fun q hq hne =>
          dirable_of_placed hplaced h ((makeParent_iff hs).1 hmade q hq hne)) hq hne
      rw [leftover_of_free (free_of_dirs hfile' hdirs) hleft] at hkept
      have hsame : (makeDirs device disk [] path.dropLast).1.tree = disk.tree := by
        rw [makeParent_same_iff hs]
        intro q hq hne hmissing
        rw [hplaced, placed_eq_none, hdirs q hq hne] at hmissing
        cases hmissing.1
      refine Tree.ext (funext fun q => ?_) ?_
      · rw [put_node hfree, hsame]
        by_cases hq : q = path
        · rw [if_pos hq, hq]
          exact (hkept path c (latest_concat.trans (if_pos rfl))).symm
        · rw [if_neg hq, hplaced]
          rcases placed_cases writes q with ⟨c', hc'⟩ | ⟨hnone, g, hg, hpre, hne⟩ | hno
          · have hlatest : latest (writes ++ [(path, c)]) q = some c' :=
              latest_concat.trans ((if_neg (Ne.symm hq)).trans hc')
            rw [placed_of_latest hc', hkept q c' hlatest]
          · rw [placed_above hnone hg hpre,
              t.dir_of_prefix (hkept.there (List.mem_append_left _ hg)) hpre hne]
          · exact placed_elsewhere hno
      · rw [put_links (fun _ _ h => by cases h), hsame, hlinks]
  · have hnil : (∀ g ∈ writes, t.node g.1 ≠ none) → leftover device t path content = [] := by
      intro hthere
      refine leftover_eq_nil fun hfree => hnone ?_ ?_
      · rw [makeParent_iff hs]
        intro q hq hne
        exact .inl ((hplaced q).trans ((placed_eq_dir h).2 (.inl (dirs_of_free hfree hq hne))))
      · rw [hplaced, Ne, placed_eq_dir h]
        have hno := hfree.2.2
        rintro (hdir | ⟨g, hg, hpre, hne⟩)
        · rw [isDir_iff.2 hdir] at hno
          cases hno
        · rw [isDir_iff.2 (t.dir_of_prefix (hthere g hg) hpre hne)] at hno
          cases hno
    rw [htree, makeParent_restores_iff hplaced hlinks hs]
    refine and_congr_right fun _ => ⟨fun hkept => ?_, fun hkept => ?_⟩
    · rw [hnil fun g hg => hkept.there hg, List.append_nil]
      exact hkept
    · rw [hnil fun g hg => hkept.there (List.mem_append_left _ hg), List.append_nil] at hkept
      exact hkept

end Logic.FileTree
