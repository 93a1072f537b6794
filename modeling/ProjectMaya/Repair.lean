import Mathlib.Data.List.Pairwise
import ProjectMaya.Logic.PathLookup
import ProjectMaya.Setup

/-! # Applying the repair plan

`repairLocalState` makes the directories while it looks at the targets one after the other, so an
obstacle may be met when some were made.  What is applied is the plan, and nothing is made if it
raises, exactly if the first target that is no directory is such an obstacle, or none is and no two
missing targets are the same directory (`planIsEffect_iff`). -/

namespace ProjectMaya.Repair

open Logic Logic.FileTree
open Setup (Config Failure RepairAction repairCategory requiredDirectories target)

/-! ## The system -/

variable {C : Type}

inductive Raised where
  | failure (e : Failure)
  | osError
  deriving DecidableEq, Repr

/-- What `os.mkdir` raises. -/
inductive OsError where
  | fileNotFound
  | other
  deriving DecidableEq, Repr

abbrev Steps := List (Logic.FileTree.Step String)

/-- A path of the configuration, which is absolute. -/
def steps (path : PurePath) : Steps :=
  path.parts.map fun part => if part = ".." then .up else .name part

def isDirAt (t : Tree String C) (path : Steps) : Bool :=
  (t.look path).any t.isDir

section

-- whether the system lets a directory be made, where it is asked for by this path
variable (makes : Steps → Bool)

/-- `os.mkdir` -/
def osMkdir (t : Tree String C) (path : Steps) :
    Except OsError (Tree String C) :=
  match t.look path.dropLast, path.getLast? with
  | none, _ => .error .fileNotFound
  | some parent, some (.name n) =>
    if t.isDir parent && (t.node (parent ++ [n])).isNone && makes path then
      .ok (t.put (parent ++ [n]) .dir)
    else .error .other
  | some _, _ => .error .other

/-- `path.mkdir(parents=True, exist_ok=True)`, for a path with at most so many parents. -/
def mkdirWithin (parents : Nat) (t : Tree String C) (path : Steps) : Tree String C × Bool :=
  match osMkdir makes t path with
  | .ok t' => (t', true)
  | .error .other => (t, isDirAt t path)
  | .error .fileNotFound =>
    match parents with
    | 0 => (t, false)
    | parents + 1 =>
      let made := mkdirWithin parents t path.dropLast
      if made.2 then
        match osMkdir makes made.1 path with
        | .ok t' => (t', true)
        | .error _ => (made.1, isDirAt made.1 path)
      else made

def mkdir (t : Tree String C) (path : Steps) : Tree String C × Bool :=
  mkdirWithin makes path.length t path

/-! ## The repair -/

structure RepairResult where
  dryRun : Bool
  actions : List RepairAction
  deriving DecidableEq, Repr

variable (config : Config)

def targetSteps (parts : List String) : Steps :=
  steps (target config parts)

def existing (parts : List String) : RepairAction where
  path := target config parts
  action := "none"
  status := "exists"
  category := repairCategory parts

/-- The action for a target that is missing. -/
def creation (apply : Bool) (parts : List String) : RepairAction where
  path := target config parts
  action := "create_directory"
  status := if apply then "created" else "planned"
  category := repairCategory parts
  severity := if apply then "info" else "warn"

/-- `_ensure_repairable_root` -/
def ensureRepairableRoot (t : Tree String C) : Except Raised Unit := do
  let root := steps config.dataDir
  ensure ((t.entry root).isSome = true → isDirAt t root = true)
    (.failure (.repair "deployment.data_dir exists but is not a directory"))
  ensure (isDirAt t (steps (Doctor.parentOf config.dataDir)) = true)
    (.failure (.repair "deployment.data_dir parent does not exist"))

/-- The loop over the targets. -/
def repairTargets (apply : Bool) : Tree String C → List (List String) →
    Tree String C × Except Raised (List RepairAction)
  | t, [] => (t, .ok [])
  | t, parts :: rest =>
    match t.entry (targetSteps config parts) with
    | some .dir =>
      let next := repairTargets apply t rest
      (next.1, (existing config parts :: ·) <$> next.2)
    | some _ => (t, .error (.failure (.target (target config parts))))
    | none =>
      let made := if apply then mkdir makes t (targetSteps config parts) else (t, true)
      if made.2 then
        let next := repairTargets apply made.1 rest
        (next.1, (creation config apply parts :: ·) <$> next.2)
      else (made.1, .error .osError)

def targets : List (List String) := [] :: requiredDirectories

/-- `repair_local_state` -/
def repairLocalState (apply : Bool) (t : Tree String C) : Tree String C × Except Raised RepairResult :=
  let ready : Except Raised Unit := do
    (Setup.validate config).mapError .failure
    ensureRepairableRoot config t
  match ready with
  | .error e => (t, .error e)
  | .ok _ =>
    let done := repairTargets makes config apply t targets
    (done.1, RepairResult.mk (!apply) <$> done.2)

end

/-! ## What is claimed of it -/

/-- What applying makes of a planned action. -/
def applied (action : RepairAction) : RepairAction :=
  if action.status = "planned" then { action with status := "created", severity := "info" }
  else action

/-- The tree has the planned directories and is as before else. -/
structure Fulfils (t t' : Tree String C) (plan : RepairResult) : Prop where
  made : ∀ a ∈ plan.actions, a.status = "planned" →
    ∃ q, t'.look (steps a.path) = some q ∧ t.node q = none ∧ t'.node q = some .dir
  only : ∀ q, t'.node q = t.node q ∨ t.node q = none ∧ t'.node q = some .dir ∧
    ∃ a ∈ plan.actions, a.status = "planned" ∧ t'.look (steps a.path) = some q

section

variable (makes : Steps → Bool) (config : Config) (t : Tree String C)

/-- What is applied is the plan, of which nothing is left then; what raises makes nothing. -/
structure PlanIsEffect : Prop where
  returns : ∀ result, (repairLocalState makes config true t).2 = .ok result →
    ∃ plan again, (repairLocalState makes config false t).2 = .ok plan ∧
      result.actions = plan.actions.map applied ∧
      Fulfils t (repairLocalState makes config true t).1 plan ∧
      (repairLocalState makes config false (repairLocalState makes config true t).1).2 = .ok again ∧
      ∀ a ∈ again.actions, a.status ≠ "planned"
  raises : ∀ e, (repairLocalState makes config true t).2 = .error e →
    (repairLocalState makes config true t).1 = t

def Present (parts : List String) : Prop := t.entry (targetSteps config parts) = some .dir

def Missing (parts : List String) : Prop := t.entry (targetSteps config parts) = none

/-- A missing target at whose name there is something else: a link that leads nowhere. -/
def Taken (parts : List String) : Prop :=
  ∃ parent n, t.look (targetSteps config parts).dropLast = some parent ∧
    (targetSteps config parts).getLast? = some (.name n) ∧ t.node (parent ++ [n]) ≠ none

/-- What cannot be made a directory. -/
def Obstacle (parts : List String) : Prop :=
  (∃ node, t.entry (targetSteps config parts) = some node ∧ node ≠ .dir) ∨
    Missing config t parts ∧ (makes (targetSteps config parts) = false ∨ Taken config t parts)

/-- Two targets with one name in one directory, which one of them reaches through a link. -/
def Same (parts parts' : List String) : Prop :=
  ∃ parent n, t.look (targetSteps config parts).dropLast = some parent ∧
    t.look (targetSteps config parts').dropLast = some parent ∧
    (targetSteps config parts).getLast? = some (.name n) ∧
    (targetSteps config parts').getLast? = some (.name n)

/-- A target's parent is a directory. -/
def Parented (parts : List String) : Prop :=
  ∃ parent, t.look (targetSteps config parts).dropLast = some parent ∧ t.node parent = some .dir

end

/-! ## One target -/

section

variable {makes : Steps → Bool} {config : Config} {t t' : Tree String C} {parts : List String}

/-- What is missing in a directory has a name there. -/
theorem name_of_missing (hp : Parented config t parts) (h : Missing config t parts) :
    ∃ n, targetSteps config parts = (targetSteps config parts).dropLast ++ [.name n] := by
  obtain ⟨parent, hparent, hdir⟩ := hp
  unfold Missing at h
  rw [entry_eq_none] at h
  rcases List.eq_nil_or_concat (targetSteps config parts) with hnil | ⟨before, step, hsteps⟩
  · rw [hnil] at h
    have hroot : t.look [] = some [] := by
      unfold Tree.look
      cases t.links.length <;> rfl
    cases hroot.symm.trans h
  · rw [List.concat_eq_append] at hsteps
    rw [hsteps, List.dropLast_concat] at hparent
    rw [hsteps, List.dropLast_concat]
    cases step with
    | name n => exact ⟨n, rfl⟩
    | up =>
      rw [hsteps] at h
      cases (look_up hparent (isDir_iff.mpr hdir)).symm.trans h

theorem osMkdir_name {front : Steps} {parent : List String} {n : String}
    (hparent : t.look front = some parent) (hdir : t.node parent = some .dir) :
    osMkdir makes t (front ++ [.name n]) =
      if t.node (parent ++ [n]) = none ∧ makes (front ++ [.name n]) = true then
        .ok (t.put (parent ++ [n]) .dir)
      else .error .other := by
  unfold osMkdir
  rw [List.dropLast_concat, List.getLast?_concat, hparent]
  simp only [isDir_iff.mpr hdir, Bool.true_and, Bool.and_eq_true, Option.isNone_iff_eq_none]

variable (makes) in
/-- In a directory, the directory is made or nothing is. -/
theorem mkdir_name {front : Steps} {parent : List String} {n : String}
    (hparent : t.look front = some parent) (hdir : t.node parent = some .dir)
    (hmissing : t.look (front ++ [.name n]) = none) :
    mkdir makes t (front ++ [.name n]) =
      if t.node (parent ++ [n]) = none ∧ makes (front ++ [.name n]) = true then
        (t.put (parent ++ [n]) .dir, true)
      else (t, false) := by
  have hfalse : isDirAt t (front ++ [.name n]) = false := by
    unfold isDirAt
    rw [hmissing]
    rfl
  unfold mkdir mkdirWithin
  rw [osMkdir_name hparent hdir]
  by_cases h : t.node (parent ++ [n]) = none ∧ makes (front ++ [.name n]) = true
  · rw [if_pos h, if_pos h]
  · rw [if_neg h, if_neg h]
    show (t, isDirAt t (front ++ [.name n])) = (t, false)
    rw [hfalse]

/-- A directory is made there, and nothing else. -/
structure Creates (makes : Steps → Bool) (config : Config) (t t' : Tree String C)
    (parts : List String) (parent : List String) (n : String) : Prop where
  missing : Missing config t parts
  allowed : makes (targetSteps config parts) = true
  name : targetSteps config parts = (targetSteps config parts).dropLast ++ [.name n]
  there : t.look (targetSteps config parts).dropLast = some parent
  dir : t.node parent = some .dir
  free : t.node (parent ++ [n]) = none
  tree : t' = t.put (parent ++ [n]) .dir

variable (makes) in
/-- What the loop does with a target: nothing, or it raises, or it makes the directory. -/
theorem repairTargets_cons (hp : Parented config t parts) (rest : List (List String)) :
    (Present config t parts ∧ repairTargets makes config true t (parts :: rest) =
      ((repairTargets makes config true t rest).1,
        (existing config parts :: ·) <$> (repairTargets makes config true t rest).2)) ∨
    (Obstacle makes config t parts ∧
      ∃ e, repairTargets makes config true t (parts :: rest) = (t, .error e)) ∨
    ∃ t' parent n, Creates makes config t t' parts parent n ∧
      repairTargets makes config true t (parts :: rest) =
        ((repairTargets makes config true t' rest).1,
          (creation config true parts :: ·) <$> (repairTargets makes config true t' rest).2) := by
  cases hentry : t.entry (targetSteps config parts) with
  | some node =>
    by_cases hnode : node = .dir
    · rw [hnode] at hentry
      refine .inl ⟨hentry, ?_⟩
      rw [repairTargets, hentry]
    · refine .inr (.inl ⟨.inl ⟨node, hentry, hnode⟩, .failure (.target (target config parts)), ?_⟩)
      rw [repairTargets, hentry]
      cases node with
      | dir => exact absurd rfl hnode
      | file content => rfl
      | link absolute steps => rfl
  | none =>
    obtain ⟨n, hname⟩ := name_of_missing hp hentry
    obtain ⟨parent, hparent, hdir⟩ := hp
    have hlook := entry_eq_none.mp hentry
    rw [hname] at hlook
    have hmkdir := mkdir_name makes hparent hdir hlook
    rw [← hname] at hmkdir
    by_cases hcan : t.node (parent ++ [n]) = none ∧ makes (targetSteps config parts) = true
    · refine .inr (.inr ⟨_, parent, n, ⟨hentry, hcan.2, hname, hparent, hdir, hcan.1, rfl⟩, ?_⟩)
      rw [repairTargets, hentry]
      simp only [if_true, hmkdir, if_pos hcan]
    · refine .inr (.inl ⟨.inr ⟨hentry, ?_⟩, .osError, ?_⟩)
      · by_cases hmakes : makes (targetSteps config parts) = true
        · refine .inr ⟨parent, n, hparent, ?_, fun hnone => hcan ⟨hnone, hmakes⟩⟩
          rw [hname, List.getLast?_concat]
        · exact .inl (by simpa using hmakes)
      · rw [repairTargets, hentry]
        simp only [if_true, hmkdir, if_neg hcan, Bool.false_eq_true, if_false]

/-- The action that is planned for a target. -/
def planned (config : Config) (t : Tree String C) (parts : List String) : RepairAction :=
  if (t.entry (targetSteps config parts)).isNone then creation config false parts
  else existing config parts

/-- A plan leaves the tree as it is. -/
theorem repairTargets_dry (t : Tree String C) (rest : List (List String)) :
    (repairTargets makes config false t rest).1 = t := by
  induction rest with
  | nil => rfl
  | cons parts rest ih =>
    rw [repairTargets]
    split
    · exact ih
    · rfl
    · exact ih

variable (makes) in
theorem repairTargets_plan {rest : List (List String)} {actions : List RepairAction} :
    (repairTargets makes config false t rest).2 = .ok actions ↔
      (∀ parts ∈ rest, Missing config t parts ∨ Present config t parts) ∧
        actions = rest.map (planned config t) := by
  induction rest generalizing actions with
  | nil => simp [repairTargets, eq_comm]
  | cons parts rest ih =>
    rw [repairTargets, List.forall_mem_cons, List.map_cons]
    cases hentry : t.entry (targetSteps config parts) with
    | none =>
      have hplanned : planned config t parts = creation config false parts := by
        unfold planned
        rw [hentry]
        rfl
      have hmissing : Missing config t parts := hentry
      simp only [Bool.false_eq_true, if_false, if_true, Logic.map_eq_ok, ih, hplanned, hmissing,
        true_or, true_and]
      constructor
      · rintro ⟨more, ⟨hall, rfl⟩, rfl⟩
        exact ⟨hall, rfl⟩
      · rintro ⟨hall, rfl⟩
        exact ⟨_, ⟨hall, rfl⟩, rfl⟩
    | some node =>
      by_cases hnode : node = .dir
      · subst hnode
        have hplanned : planned config t parts = existing config parts := by
          unfold planned
          rw [hentry]
          rfl
        have hpresent : Present config t parts := hentry
        simp only [Logic.map_eq_ok, ih, hplanned, hpresent, or_true, true_and]
        constructor
        · rintro ⟨more, ⟨hall, rfl⟩, rfl⟩
          exact ⟨hall, rfl⟩
        · rintro ⟨hall, rfl⟩
          exact ⟨_, ⟨hall, rfl⟩, rfl⟩
      · have hneither : ¬ (Missing config t parts ∨ Present config t parts) := by
          rintro (h | h)
          · cases hentry.symm.trans h
          · exact hnode (Option.some.inj (hentry.symm.trans h))
        simp only [hneither, false_and, iff_false]
        cases node with
        | dir => exact absurd rfl hnode
        | file content => exact fun h => by cases h
        | link absolute steps => exact fun h => by cases h

/-! ## The targets -/

/-- Every target is named below an earlier one, and none comes twice. -/
def Rooted : List (List String) → List (List String) → Prop
  | _, [] => True
  | done, parts :: rest =>
    (parts = [] ∨ parts.dropLast ∈ done) ∧ parts ∉ done ∧ (∀ n ∈ parts, n ≠ "..") ∧
      Rooted (parts :: done) rest

instance decidableRooted : ∀ done rest, Decidable (Rooted done rest)
  | _, [] => isTrue trivial
  | done, parts :: rest =>
    have := decidableRooted (parts :: done) rest
    inferInstanceAs (Decidable (_ ∧ _ ∧ _ ∧ _))

theorem rooted_targets : Rooted [] targets := by decide

theorem dropLast_targetSteps (hne : parts ≠ []) :
    (targetSteps config parts).dropLast = targetSteps config parts.dropLast := by
  unfold targetSteps steps target
  rw [← List.map_dropLast, List.dropLast_append_of_ne_nil hne]

theorem targetSteps_concat {front : List String} {m : String} (hm : m ≠ "..") :
    targetSteps config (front ++ [m]) = targetSteps config front ++ [.name m] := by
  unfold targetSteps steps target
  rw [← List.append_assoc, List.map_append, List.map_singleton, if_neg hm]

/-- The name of a target is its last part. -/
theorem parts_of_name {n : String} (hne : parts ≠ []) (hnamed : ∀ m ∈ parts, m ≠ "..")
    (h : targetSteps config parts = (targetSteps config parts).dropLast ++ [.name n]) :
    parts = parts.dropLast ++ [n] := by
  rcases List.eq_nil_or_concat parts with hnil | ⟨front, m, hparts⟩
  · exact absurd hnil hne
  · rw [List.concat_eq_append] at hparts
    have hm : m ≠ ".." := hnamed m (by rw [hparts]; simp)
    rw [hparts, targetSteps_concat hm, List.dropLast_concat] at h
    cases List.append_cancel_left h
    rw [hparts, List.dropLast_concat]

theorem name_of_rooted (hroot : Parented config t []) (hnamed : ∀ m ∈ parts, m ≠ "..")
    (h : Missing config t parts) :
    ∃ n, targetSteps config parts = (targetSteps config parts).dropLast ++ [.name n] := by
  rcases List.eq_nil_or_concat parts with rfl | ⟨front, m, hparts⟩
  · exact name_of_missing hroot h
  · rw [List.concat_eq_append] at hparts
    have hm : m ≠ ".." := hnamed m (by rw [hparts]; simp)
    rw [hparts, targetSteps_concat hm, List.dropLast_concat]
    exact ⟨m, rfl⟩

end

/-! ## Without an obstacle -/

/-- The targets so far are there; what is new was missing, and is reached by one of them only. -/
structure Inv (config : Config) (t t' : Tree String C) (done : List (List String)) : Prop where
  ext : Extends t t'
  named : ∀ p ∈ done, ∀ m ∈ p, m ≠ ".."
  rooted : ∀ p ∈ done, p = [] ∨ p.dropLast ∈ done
  here : ∀ p ∈ done, Present config t' p
  made : ∀ p ∈ done, Missing config t p → ∃ parent n,
    targetSteps config p = (targetSteps config p).dropLast ++ [.name n] ∧
    t'.look (targetSteps config p).dropLast = some parent ∧
    t'.look (targetSteps config p) = some (parent ++ [n]) ∧ t.node (parent ++ [n]) = none
  new : ∀ q, t.node q = none → t'.node q ≠ none →
    ∃ p ∈ done, Missing config t p ∧ t'.look (targetSteps config p) = some q
  inj : ∀ p ∈ done, ∀ p' ∈ done, Missing config t p → Missing config t p' →
    t'.look (targetSteps config p) = t'.look (targetSteps config p') → p = p'

section

variable {makes : Steps → Bool} {config : Config} {t t' : Tree String C} {parts : List String}
  {done : List (List String)}

theorem inv_nil (config : Config) (t : Tree String C) : Inv config t t [] where
  ext := .refl t
  named p hp := by cases hp
  rooted p hp := by cases hp
  here p hp := by cases hp
  made p hp := by cases hp
  new q hnone h := absurd hnone h
  inj p hp := by cases hp

theorem look_of_present (h : Present config t parts) :
    ∃ q, t.look (targetSteps config parts) = some q ∧ t.node q = some .dir :=
  Option.bind_eq_some_iff.mp h

theorem present_of_look {q : List String} (h : t.look (targetSteps config parts) = some q)
    (hdir : t.node q = some .dir) : Present config t parts :=
  Option.bind_eq_some_iff.mpr ⟨q, h, hdir⟩

theorem Parented.mono (h : Parented config t parts) (ht : Extends t t') :
    Parented config t' parts := by
  obtain ⟨parent, hparent, hdir⟩ := h
  exact ⟨parent, look_mono ht hparent, ht.dir hdir⟩

theorem Present.mono (h : Present config t parts) (ht : Extends t t') :
    Present config t' parts := by
  obtain ⟨q, hq, hdir⟩ := look_of_present h
  exact present_of_look (look_mono ht hq) (ht.dir hdir)

/-- The parent of a target is the root's, or an earlier target. -/
theorem parented_of_done (hroot : Parented config t []) (ht : Extends t t')
    (hhere : ∀ p ∈ done, Present config t' p) (hparts : parts = [] ∨ parts.dropLast ∈ done) :
    Parented config t' parts := by
  by_cases hnil : parts = []
  · rw [hnil]
    exact hroot.mono ht
  · obtain ⟨q, hq, hdir⟩ := look_of_present (hhere _ (hparts.resolve_left hnil))
    rw [← dropLast_targetSteps hnil] at hq
    exact ⟨q, hq, hdir⟩

/-- A parent was there from the start, or is a target that was missing. -/
theorem Inv.parent (hinv : Inv config t t' done) (hroot : Parented config t [])
    (hparts : parts = [] ∨ parts.dropLast ∈ done) {parent : List String}
    (hparent : t'.look (targetSteps config parts).dropLast = some parent) :
    t.look (targetSteps config parts).dropLast = some parent ∧ t.node parent ≠ none ∨
      parts ≠ [] ∧ parts.dropLast ∈ done ∧ Missing config t parts.dropLast ∧
        t'.look (targetSteps config parts.dropLast) = some parent ∧ t.node parent = none := by
  cases hlook : t.look (targetSteps config parts).dropLast with
  | some old =>
    cases (look_mono hinv.ext hlook).symm.trans hparent
    exact .inl ⟨rfl, exists_of_look hlook⟩
  | none =>
    have hne : parts ≠ [] := by
      rintro rfl
      obtain ⟨old, hold, -⟩ := hroot
      cases hlook.symm.trans hold
    have hmem := hparts.resolve_left hne
    rw [dropLast_targetSteps hne] at hlook hparent
    have hmissing : Missing config t parts.dropLast := entry_eq_none.mpr hlook
    obtain ⟨grand, n, -, -, hthere, hnone⟩ := hinv.made _ hmem hmissing
    cases hthere.symm.trans hparent
    exact .inr ⟨hne, hmem, hmissing, hparent, hnone⟩

/-- Nothing is at the name of a missing target that is no obstacle, when its turn comes. -/
theorem Inv.free (hinv : Inv config t t' done) (hroot : Parented config t [])
    (hparts : parts = [] ∨ parts.dropLast ∈ done) (hnot : parts ∉ done)
    (hnamed : ∀ m ∈ parts, m ≠ "..") (hmissing : Missing config t parts)
    (hobstacle : ¬ Obstacle makes config t parts)
    (hsame : ∀ p ∈ done, Missing config t p → ¬ Same config t p parts) {parent : List String}
    {n : String} (hparent : t'.look (targetSteps config parts).dropLast = some parent)
    (hname : targetSteps config parts = (targetSteps config parts).dropLast ++ [.name n]) :
    t'.node (parent ++ [n]) = none := by
  have hlast : (targetSteps config parts).getLast? = some (.name n) := by
    rw [hname, List.getLast?_concat]
  -- another target that has made it
  have hother : t.node (parent ++ [n]) = none → t'.node (parent ++ [n]) ≠ none →
      ∃ p ∈ done, Missing config t p ∧ t'.look (targetSteps config p).dropLast = some parent ∧
        targetSteps config p = (targetSteps config p).dropLast ++ [.name n] := by
    intro hnone hne
    obtain ⟨p, hp, hpmissing, hlook⟩ := hinv.new _ hnone hne
    obtain ⟨parent', n', hname', hparent', hlook', -⟩ := hinv.made p hp hpmissing
    have heq := Option.some.inj (hlook'.symm.trans hlook)
    obtain ⟨rfl, hn⟩ := List.append_inj' heq rfl
    cases hn
    exact ⟨p, hp, hpmissing, hparent', hname'⟩
  by_contra hne
  rcases hinv.parent hroot hparts hparent with ⟨hold, -⟩ | ⟨hpne, hmem, hpmissing, hlook, hnew⟩
  · by_cases hnone : t.node (parent ++ [n]) = none
    · obtain ⟨p, hp, hpmissing, hparent', hname'⟩ := hother hnone hne
      have hlast' : (targetSteps config p).getLast? = some (.name n) := by
        rw [hname', List.getLast?_concat]
      rcases hinv.parent hroot (hinv.rooted p hp) hparent' with ⟨hold', -⟩ | ⟨-, -, -, -, hnew⟩
      · exact hsame p hp hpmissing ⟨parent, n, hold', hold, hlast', hlast⟩
      · exact exists_of_look hold hnew
    · exact hobstacle (.inr ⟨hmissing, .inr ⟨parent, n, hold, hlast, hnone⟩⟩)
  · have hnone : t.node (parent ++ [n]) = none := by
      by_contra hsome
      cases (t.closed parent n hsome).symm.trans hnew
    obtain ⟨p, hp, hpmissing', hparent', hname'⟩ := hother hnone hne
    rcases hinv.parent hroot (hinv.rooted p hp) hparent' with
      ⟨hold', -⟩ | ⟨hpne', hmem', hmissing', hlook', -⟩
    · exact exists_of_look hold' hnew
    · have hfront := hinv.inj _ hmem' _ hmem hmissing' hpmissing (hlook'.trans hlook.symm)
      have hpeq := parts_of_name hpne' (hinv.named p hp) hname'
      rw [hfront, ← parts_of_name hpne hnamed hname] at hpeq
      rw [hpeq] at hp
      exact hnot hp

/-- A target that was there from the start. -/
theorem Inv.present (hinv : Inv config t t' done) (hparts : parts = [] ∨ parts.dropLast ∈ done)
    (hnamed : ∀ m ∈ parts, m ≠ "..") (h : Present config t parts) :
    Inv config t t' (parts :: done) := by
  have hno : ¬ Missing config t parts := by
    intro hmissing
    cases h.symm.trans hmissing
  constructor
  · exact hinv.ext
  · intro p hp
    rcases List.mem_cons.mp hp with rfl | hp
    · exact hnamed
    · exact hinv.named p hp
  · intro p hp
    rcases List.mem_cons.mp hp with rfl | hp
    · exact hparts.imp_right (List.mem_cons_of_mem _)
    · exact (hinv.rooted p hp).imp_right (List.mem_cons_of_mem _)
  · intro p hp
    rcases List.mem_cons.mp hp with rfl | hp
    · exact h.mono hinv.ext
    · exact hinv.here p hp
  · intro p hp hmissing
    rcases List.mem_cons.mp hp with rfl | hp
    · exact absurd hmissing hno
    · exact hinv.made p hp hmissing
  · intro q hnone hq
    obtain ⟨p, hp, hrest⟩ := hinv.new q hnone hq
    exact ⟨p, List.mem_cons_of_mem _ hp, hrest⟩
  · intro p hp p' hp' hmissing hmissing' heq
    rcases List.mem_cons.mp hp with rfl | hp
    · exact absurd hmissing hno
    · rcases List.mem_cons.mp hp' with rfl | hp'
      · exact absurd hmissing' hno
      · exact hinv.inj p hp p' hp' hmissing hmissing' heq

theorem Creates.free_there {t'' : Tree String C} {parent : List String} {n : String}
    (h : Creates makes config t' t'' parts parent n) : t'.Free (parent ++ [n]) :=
  free_concat h.dir h.free

theorem Creates.extends {t'' : Tree String C} {parent : List String} {n : String}
    (h : Creates makes config t' t'' parts parent n) : Extends t' t'' := by
  rw [h.tree]
  exact extends_put h.free_there h.free

theorem Creates.node {t'' : Tree String C} {parent : List String} {n : String}
    (h : Creates makes config t' t'' parts parent n) (q : List String) :
    t''.node q = if q = parent ++ [n] then some .dir else t'.node q := by
  rw [h.tree]
  exact put_node h.free_there _ q

theorem Creates.look {t'' : Tree String C} {parent : List String} {n : String}
    (h : Creates makes config t' t'' parts parent n) :
    t''.look (targetSteps config parts) = some (parent ++ [n]) := by
  rw [h.name]
  refine look_dir (look_mono h.extends h.there) ?_
  rw [h.node, if_pos rfl]

/-- A target that was missing is made. -/
theorem Inv.creates {t'' : Tree String C} {parent : List String} {n : String}
    (hinv : Inv config t t' done) (hparts : parts = [] ∨ parts.dropLast ∈ done)
    (hnamed : ∀ m ∈ parts, m ≠ "..") (hmissing : Missing config t parts)
    (h : Creates makes config t' t'' parts parent n) : Inv config t t'' (parts :: done) := by
  have hlook := h.look
  have hdir : t''.node (parent ++ [n]) = some .dir := by rw [h.node, if_pos rfl]
  have hnew : t.node (parent ++ [n]) = none := by
    by_contra hne
    rw [← hinv.ext.keeps _ hne] at hne
    exact hne h.free
  -- where the earlier targets lead, something was before
  have hbefore : ∀ p ∈ done, t''.look (targetSteps config p) ≠ some (parent ++ [n]) := by
    intro p hp heq
    obtain ⟨q, hq, hqdir⟩ := look_of_present (hinv.here p hp)
    cases (look_mono h.extends hq).symm.trans heq
    cases hqdir.symm.trans h.free
  constructor
  · exact hinv.ext.trans h.extends
  · intro p hp
    rcases List.mem_cons.mp hp with rfl | hp
    · exact hnamed
    · exact hinv.named p hp
  · intro p hp
    rcases List.mem_cons.mp hp with rfl | hp
    · exact hparts.imp_right (List.mem_cons_of_mem _)
    · exact (hinv.rooted p hp).imp_right (List.mem_cons_of_mem _)
  · intro p hp
    rcases List.mem_cons.mp hp with rfl | hp
    · exact present_of_look hlook hdir
    · exact (hinv.here p hp).mono h.extends
  · intro p hp hpmissing
    rcases List.mem_cons.mp hp with rfl | hp
    · exact ⟨parent, n, h.name, look_mono h.extends h.there, hlook, hnew⟩
    · obtain ⟨parent', n', hname', hparent', hlook', hnone'⟩ := hinv.made p hp hpmissing
      exact ⟨parent', n', hname', look_mono h.extends hparent', look_mono h.extends hlook', hnone'⟩
  · intro q hnone hq
    by_cases heq : q = parent ++ [n]
    · exact ⟨parts, List.mem_cons_self, hmissing, by rw [heq]; exact hlook⟩
    · rw [h.node, if_neg heq] at hq
      obtain ⟨p, hp, hpmissing, hpq⟩ := hinv.new q hnone hq
      exact ⟨p, List.mem_cons_of_mem _ hp, hpmissing, look_mono h.extends hpq⟩
  · intro p hp p' hp' hpmissing hpmissing' heq
    rcases List.mem_cons.mp hp with rfl | hpd
    · rcases List.mem_cons.mp hp' with rfl | hpd'
      · rfl
      · exact absurd (heq.symm.trans hlook) (hbefore p' hpd')
    · rcases List.mem_cons.mp hp' with rfl | hpd'
      · exact absurd (heq.trans hlook) (hbefore p hpd)
      · obtain ⟨_, _, -, -, hq, -⟩ := hinv.made p hpd hpmissing
        obtain ⟨_, _, -, -, hq', -⟩ := hinv.made p' hpd' hpmissing'
        rw [look_mono h.extends hq, look_mono h.extends hq'] at heq
        refine hinv.inj p hpd p' hpd' hpmissing hpmissing' ?_
        rw [hq, hq', heq]

/-- Every target is missing or there, if none is an obstacle. -/
theorem missing_or_present (h : ¬ Obstacle makes config t parts) :
    Missing config t parts ∨ Present config t parts := by
  cases hentry : t.entry (targetSteps config parts) with
  | none => exact .inl hentry
  | some node =>
    by_cases hnode : node = .dir
    · rw [hnode] at hentry
      exact .inr hentry
    · exact absurd (.inl ⟨node, hentry, hnode⟩) h

theorem not_obstacle_of_present (h : Present config t parts) : ¬ Obstacle makes config t parts := by
  rintro (⟨node, hnode, hne⟩ | ⟨hmissing, -⟩)
  · exact hne (Option.some.inj (hnode.symm.trans h))
  · cases h.symm.trans hmissing

theorem applied_planned_of_present (h : Present config t parts) :
    applied (planned config t parts) = existing config parts := by
  unfold planned
  rw [h]
  rfl

theorem applied_planned_of_missing (h : Missing config t parts) :
    applied (planned config t parts) = creation config true parts := by
  unfold planned
  rw [h]
  rfl

/-- Without an obstacle, all that is planned is made. -/
theorem repairTargets_made (hroot : Parented config t []) {all rest : List (List String)}
    (hobstacle : ∀ p ∈ all, ¬ Obstacle makes config t p)
    (hsame : ∀ p ∈ all, ∀ p' ∈ all, p ≠ p' → Missing config t p → Missing config t p' →
      ¬ Same config t p p')
    (hdone : ∀ p ∈ done, p ∈ all) (hrest : ∀ p ∈ rest, p ∈ all) (hrooted : Rooted done rest)
    (hinv : Inv config t t' done) :
    (repairTargets makes config true t' rest).2 =
        .ok (rest.map fun p => applied (planned config t p)) ∧
      Inv config t (repairTargets makes config true t' rest).1 (rest.reverse ++ done) := by
  induction rest generalizing t' done with
  | nil => exact ⟨rfl, hinv⟩
  | cons parts rest ih =>
    obtain ⟨hparts, hnot, hnamed, hrooted⟩ := hrooted
    have hmem := hrest parts List.mem_cons_self
    have hdone' : ∀ p ∈ parts :: done, p ∈ all := by
      intro p hp
      rcases List.mem_cons.mp hp with rfl | hp
      · exact hmem
      · exact hdone p hp
    have hrest' : ∀ p ∈ rest, p ∈ all := fun p hp => hrest p (List.mem_cons_of_mem _ hp)
    have hp := parented_of_done hroot hinv.ext hinv.here hparts
    rw [List.reverse_cons, List.append_assoc, List.map_cons]
    rcases missing_or_present (hobstacle parts hmem) with hmissing | hpresent
    · obtain ⟨n, hname⟩ := name_of_rooted hroot hnamed hmissing
      obtain ⟨parent, hparent, hdir⟩ := hp
      have hfree := hinv.free hroot hparts hnot hnamed hmissing (hobstacle parts hmem)
        (fun p hp hpmissing => hsame p (hdone p hp) parts hmem
          (fun he => hnot (he ▸ hp)) hpmissing hmissing) hparent hname
      have hnone : t'.look (targetSteps config parts) = none := by
        rw [hname]
        exact (look_name hparent).1 hfree
      rcases repairTargets_cons makes ⟨parent, hparent, hdir⟩ rest with
        ⟨hpresent, -⟩ | ⟨hobs, -⟩ | ⟨t'', parent', n', hcreates, heq⟩
      · obtain ⟨q, hq, -⟩ := look_of_present hpresent
        cases hnone.symm.trans hq
      · rcases hobs with ⟨node, hnode, -⟩ | ⟨-, hmakes | ⟨parent', n', hparent', hlast, htaken⟩⟩
        · cases hnode.symm.trans (entry_eq_none.mpr hnone)
        · exact absurd (.inr ⟨hmissing, .inl hmakes⟩) (hobstacle parts hmem)
        · cases hparent'.symm.trans hparent
          rw [hname, List.getLast?_concat] at hlast
          cases hlast
          exact absurd hfree htaken
      · obtain ⟨hok, hinv'⟩ := ih hdone' hrest' hrooted
          (hinv.creates hparts hnamed hmissing hcreates)
        rw [heq, applied_planned_of_missing hmissing]
        dsimp only
        rw [hok]
        exact ⟨rfl, hinv'⟩
    · have hpresent' := hpresent.mono hinv.ext
      rcases repairTargets_cons makes hp rest with
        ⟨-, heq⟩ | ⟨hobs, -⟩ | ⟨_, _, _, hcreates, -⟩
      · obtain ⟨hok, hinv'⟩ := ih hdone' hrest' hrooted (hinv.present hparts hnamed hpresent)
        rw [heq, applied_planned_of_present hpresent]
        dsimp only
        rw [hok]
        exact ⟨rfl, hinv'⟩
      · exact absurd hobs (not_obstacle_of_present hpresent')
      · cases hcreates.missing.symm.trans hpresent'

end

/-! ## With an obstacle -/

section

variable {makes : Steps → Bool} {config : Config} {t t' : Tree String C} {parts : List String}
  {done rest : List (List String)}

theorem osMkdir_extends {path : Steps} (h : osMkdir makes t path = .ok t') : Extends t t' := by
  unfold osMkdir at h
  split at h
  · cases h
  · split at h
    · rename_i hcan
      simp only [Bool.and_eq_true, Option.isNone_iff_eq_none] at hcan
      cases h
      exact extends_put (free_concat (isDir_iff.mp hcan.1.1) hcan.1.2) hcan.1.2
    · cases h
  · cases h

theorem mkdirWithin_extends (parents : Nat) (t : Tree String C) (path : Steps) :
    Extends t (mkdirWithin makes parents t path).1 := by
  induction parents generalizing path with
  | zero =>
    unfold mkdirWithin
    split
    · exact osMkdir_extends ‹_›
    · exact .refl t
    · exact .refl t
  | succ parents ih =>
    unfold mkdirWithin
    split
    · exact osMkdir_extends ‹_›
    · exact .refl t
    · dsimp only
      split
      · split
        · exact (ih path.dropLast).trans (osMkdir_extends ‹_›)
        · exact ih path.dropLast
      · exact ih path.dropLast

variable (makes config) in
theorem repairTargets_extends (t : Tree String C) (rest : List (List String)) :
    Extends t (repairTargets makes config true t rest).1 := by
  induction rest generalizing t with
  | nil => exact .refl t
  | cons parts rest ih =>
    have hmade : Extends t (mkdir makes t (targetSteps config parts)).1 := mkdirWithin_extends _ t _
    rw [repairTargets]
    split
    · exact ih t
    · exact .refl t
    · simp only [if_true]
      split
      · exact hmade.trans (ih _)
      · exact hmade

/-- An obstacle is not made. -/
theorem Creates.not_obstacle {parent : List String} {n : String}
    (h : Creates makes config t t' parts parent n) : ¬ Obstacle makes config t parts := by
  rintro (⟨node, hnode, -⟩ | ⟨-, hmakes | ⟨parent', n', hparent, hlast, htaken⟩⟩)
  · cases hnode.symm.trans h.missing
  · cases hmakes.symm.trans h.allowed
  · cases hparent.symm.trans h.there
    rw [h.name, List.getLast?_concat] at hlast
    cases hlast
    exact htaken h.free

/-- What is first no directory, and cannot be made one, ends the loop before anything is made. -/
theorem repairTargets_blocked (hroot : Parented config t []) (hdone : ∀ p ∈ done, Present config t p)
    {before after : List (List String)} (hrooted : Rooted done (before ++ parts :: after))
    (hbefore : ∀ p ∈ before, Present config t p) (hobstacle : Obstacle makes config t parts) :
    ∃ e, repairTargets makes config true t (before ++ parts :: after) = (t, .error e) := by
  induction before generalizing done with
  | nil =>
    have hp := parented_of_done hroot (.refl t) hdone hrooted.1
    rcases repairTargets_cons makes hp after with ⟨hpresent, -⟩ | ⟨-, h⟩ | ⟨_, _, _, h, -⟩
    · exact absurd hobstacle (not_obstacle_of_present hpresent)
    · exact h
    · exact absurd hobstacle h.not_obstacle
  | cons p before ih =>
    have hp := parented_of_done hroot (.refl t) hdone hrooted.1
    have hpresent := hbefore p List.mem_cons_self
    have hdone' : ∀ q ∈ p :: done, Present config t q := by
      intro q hq
      rcases List.mem_cons.mp hq with rfl | hq
      · exact hpresent
      · exact hdone q hq
    obtain ⟨e, he⟩ := ih hdone' hrooted.2.2.2 fun q hq => hbefore q (List.mem_cons_of_mem _ hq)
    rcases repairTargets_cons makes hp (before ++ parts :: after) with
      ⟨-, heq⟩ | ⟨hobs, -⟩ | ⟨_, _, _, hcreates, -⟩
    · rw [List.cons_append, heq, he]
      exact ⟨e, rfl⟩
    · exact absurd hobs (not_obstacle_of_present hpresent)
    · cases hcreates.missing.symm.trans hpresent

/-- A loop that raises and has made nothing met an obstacle before a missing target. -/
theorem obstacle_of_raises (hroot : Parented config t []) (hdone : ∀ p ∈ done, Present config t p)
    (hrooted : Rooted done rest) {e : Raised}
    (h : repairTargets makes config true t rest = (t, .error e)) :
    ∃ before parts after, rest = before ++ parts :: after ∧ Obstacle makes config t parts ∧
      ∀ p ∈ before, Present config t p := by
  induction rest generalizing done with
  | nil => cases h
  | cons parts rest ih =>
    have hp := parented_of_done hroot (.refl t) hdone hrooted.1
    rcases repairTargets_cons makes hp rest with
      ⟨hpresent, heq⟩ | ⟨hobstacle, -⟩ | ⟨t', parent, n, hcreates, heq⟩
    · rw [heq] at h
      have hnext : repairTargets makes config true t rest = (t, .error e) := by
        cases hrun : repairTargets makes config true t rest with
        | mk tree actions =>
          rw [hrun] at h
          cases actions with
          | ok actions => cases congrArg Prod.snd h
          | error e' =>
            cases congrArg Prod.snd h
            cases congrArg Prod.fst h
            rfl
      have hdone' : ∀ q ∈ parts :: done, Present config t q := by
        intro q hq
        rcases List.mem_cons.mp hq with rfl | hq
        · exact hpresent
        · exact hdone q hq
      obtain ⟨before, parts', after, rfl, hobstacle, hbefore⟩ := ih hdone' hrooted.2.2.2 hnext
      refine ⟨parts :: before, parts', after, rfl, hobstacle, fun q hq => ?_⟩
      rcases List.mem_cons.mp hq with rfl | hq
      · exact hpresent
      · exact hbefore q hq
    · exact ⟨[], parts, rest, rfl, hobstacle, fun q hq => by cases hq⟩
    · rw [heq] at h
      have htree : (repairTargets makes config true t' rest).1 = t := congrArg Prod.fst h
      have hdir : t'.node (parent ++ [n]) = some .dir := by rw [hcreates.node, if_pos rfl]
      have hkept := (repairTargets_extends makes config t' rest).dir hdir
      rw [htree, hcreates.free] at hkept
      cases hkept

/-- At the name of each target that was missing there is something now. -/
def Filled (config : Config) (t t' : Tree String C) (done : List (List String)) : Prop :=
  ∀ p ∈ done, Missing config t p → ∀ parent n,
    t.look (targetSteps config p).dropLast = some parent →
    (targetSteps config p).getLast? = some (.name n) → t'.node (parent ++ [n]) ≠ none

/-- No two of them are the same directory. -/
def Apart (config : Config) (t : Tree String C) (p p' : List String) : Prop :=
  Missing config t p → Missing config t p' → ¬ Same config t p p'

theorem Apart.symm {p p' : List String} (h : Apart config t p p') : Apart config t p' p := by
  rintro hmissing' hmissing ⟨parent, n, hparent', hparent, hname', hname⟩
  exact h hmissing hmissing' ⟨parent, n, hparent, hparent', hname, hname'⟩

instance : Std.Symm (Apart config t) := ⟨fun _ _ h => h.symm⟩

theorem creation_ne_existing : creation config true parts ≠ existing config parts := by
  intro h
  have hstatus : "created" = "exists" := congrArg RepairAction.status h
  revert hstatus
  decide

/-- A loop that makes what was planned meets no obstacle. -/
theorem repairTargets_free (hroot : Parented config t []) (hext : Extends t t')
    (hhere : ∀ p ∈ done, Present config t' p) (hfilled : Filled config t t' done)
    (hrooted : Rooted done rest) (hplan : ∀ p ∈ rest, Missing config t p ∨ Present config t p)
    (h : (repairTargets makes config true t' rest).2 =
      .ok (rest.map fun p => applied (planned config t p))) :
    (∀ p ∈ rest, ¬ Obstacle makes config t p) ∧
      (∀ p ∈ done, ∀ p' ∈ rest, Apart config t p p') ∧ rest.Pairwise (Apart config t) := by
  induction rest generalizing t' done with
  | nil =>
    refine ⟨fun p hp => ?_, fun p _ p' hp' => ?_, .nil⟩
    · cases hp
    · cases hp'
  | cons parts rest ih =>
    obtain ⟨hparts, hnot, hnamed, hrooted⟩ := hrooted
    obtain ⟨hparts', hplan⟩ := List.forall_mem_cons.mp hplan
    have hp := parented_of_done hroot hext hhere hparts
    rw [List.map_cons] at h
    rcases repairTargets_cons makes hp rest with
      ⟨hthere, heq⟩ | ⟨-, e, heq⟩ | ⟨t'', parent, n, hcreates, heq⟩
    · rw [heq] at h
      obtain ⟨actions, hnext, hcons⟩ := Logic.map_eq_ok.mp h
      obtain ⟨hhead, rfl⟩ := List.cons.inj hcons
      have hpresent : Present config t parts := by
        refine hparts'.resolve_left fun hmissing => ?_
        rw [applied_planned_of_missing hmissing] at hhead
        exact creation_ne_existing hhead.symm
      have hno : ¬ Missing config t parts := by
        intro hmissing
        cases hmissing.symm.trans hpresent
      have hhere' : ∀ p ∈ parts :: done, Present config t' p := by
        intro p hp
        rcases List.mem_cons.mp hp with rfl | hp
        · exact hthere
        · exact hhere p hp
      have hfilled' : Filled config t t' (parts :: done) := by
        intro p hp
        rcases List.mem_cons.mp hp with rfl | hp
        · exact fun hmissing => absurd hmissing hno
        · exact hfilled p hp
      obtain ⟨hfree, hapart, hpairs⟩ := ih hext hhere' hfilled' hrooted hplan hnext
      refine ⟨?_, ?_, .cons (fun p hp hmissing => absurd hmissing hno) hpairs⟩
      · exact List.forall_mem_cons.mpr ⟨not_obstacle_of_present hpresent, hfree⟩
      · intro p hp p' hp'
        rcases List.mem_cons.mp hp' with rfl | hp'
        · exact fun _ hmissing => absurd hmissing hno
        · exact hapart p (List.mem_cons_of_mem _ hp) p' hp'
    · rw [heq] at h
      cases h
    · rw [heq] at h
      obtain ⟨actions, hnext, hcons⟩ := Logic.map_eq_ok.mp h
      obtain ⟨hhead, rfl⟩ := List.cons.inj hcons
      have hmissing : Missing config t parts := by
        refine hparts'.resolve_right fun hpresent => ?_
        rw [applied_planned_of_present hpresent] at hhead
        exact creation_ne_existing hhead
      have hlast : (targetSteps config parts).getLast? = some (.name n) := by
        rw [hcreates.name, List.getLast?_concat]
      -- what was in the directory from the start is there still
      have hparent : ∀ {old}, t.look (targetSteps config parts).dropLast = some old →
          old = parent := fun hold =>
        Option.some.inj ((look_mono hext hold).symm.trans hcreates.there)
      have hobstacle : ¬ Obstacle makes config t parts := by
        rintro (⟨node, hnode, -⟩ | ⟨-, hmakes | ⟨old, m, hold, hm, htaken⟩⟩)
        · cases hnode.symm.trans hmissing
        · cases hmakes.symm.trans hcreates.allowed
        · cases hparent hold
          cases hlast.symm.trans hm
          rw [← hext.keeps _ htaken] at htaken
          exact htaken hcreates.free
      have hhere' : ∀ p ∈ parts :: done, Present config t'' p := by
        intro p hp
        rcases List.mem_cons.mp hp with rfl | hp
        · exact present_of_look hcreates.look (by rw [hcreates.node, if_pos rfl])
        · exact (hhere p hp).mono hcreates.extends
      have hfilled' : Filled config t t'' (parts :: done) := by
        intro p hp hpmissing old m hold hm
        rcases List.mem_cons.mp hp with rfl | hpd
        · cases hparent hold
          cases hlast.symm.trans hm
          rw [hcreates.node, if_pos rfl]
          exact Option.some_ne_none _
        · have hne := hfilled p hpd hpmissing old m hold hm
          rwa [hcreates.extends.keeps _ hne]
      obtain ⟨hfree, hapart, hpairs⟩ :=
        ih (hext.trans hcreates.extends) hhere' hfilled' hrooted hplan hnext
      refine ⟨List.forall_mem_cons.mpr ⟨hobstacle, hfree⟩, ?_,
        .cons (fun p hp => hapart parts List.mem_cons_self p hp) hpairs⟩
      intro p hpd p' hp'
      rcases List.mem_cons.mp hp' with rfl | hp'
      · rintro hpmissing - ⟨old, m, hold, hold', hm, hm'⟩
        cases hparent hold'
        cases hlast.symm.trans hm'
        exact hfilled p hpd hpmissing _ _ hold hm hcreates.free
      · exact hapart p (List.mem_cons_of_mem _ hpd) p' hp'

/-! ## The whole repair -/

/-- The configuration is valid, and the data directory can be repaired. -/
structure Ready (config : Config) (t : Tree String C) : Prop where
  valid : Setup.validate config = .ok ()
  root : ensureRepairableRoot config t = .ok ()

theorem repairLocalState_ready (apply : Bool) (h : Ready config t) :
    repairLocalState makes config apply t =
      ((repairTargets makes config apply t targets).1,
        RepairResult.mk (!apply) <$> (repairTargets makes config apply t targets).2) := by
  unfold repairLocalState
  rw [h.valid]
  dsimp only [Except.mapError]
  rw [ok_bind, h.root]

variable (makes) in
theorem repairLocalState_unready (apply : Bool) (h : ¬ Ready config t) :
    ∃ e, repairLocalState makes config apply t = (t, .error e) := by
  unfold repairLocalState
  cases hvalid : Setup.validate config with
  | error e => exact ⟨_, rfl⟩
  | ok _ =>
    dsimp only [Except.mapError]
    rw [ok_bind]
    cases hroot : ensureRepairableRoot config t with
    | error e => exact ⟨_, rfl⟩
    | ok _ => exact absurd ⟨hvalid, hroot⟩ h

theorem ensureRepairableRoot_eq_ok : ensureRepairableRoot config t = .ok () ↔
    (¬ Missing config t [] → isDirAt t (targetSteps config []) = true) ∧
      isDirAt t (targetSteps config []).dropLast = true := by
  have hroot : target config [] = config.dataDir := by
    unfold target
    rw [List.append_nil]
  have hparent : (targetSteps config []).dropLast = steps (Doctor.parentOf config.dataDir) := by
    unfold targetSteps steps Doctor.parentOf
    rw [hroot, List.map_dropLast]
  have hsteps : targetSteps config [] = steps config.dataDir := by
    unfold targetSteps
    rw [hroot]
  unfold ensureRepairableRoot Missing
  simp only [Logic.bind_eq_ok, ensure_eq_ok]
  rw [hparent, hsteps, Option.isSome_iff_ne_none]
  constructor
  · rintro ⟨-, hdir, hthere⟩
    exact ⟨hdir, hthere⟩
  · rintro ⟨hdir, hthere⟩
    exact ⟨(), hdir, hthere⟩

theorem isDirAt_iff {path : Steps} :
    isDirAt t path = true ↔ ∃ q, t.look path = some q ∧ t.node q = some .dir := by
  unfold isDirAt
  cases t.look path with
  | none => simp
  | some q => simp [isDir_iff]

theorem Ready.parented (h : Ready config t) : Parented config t [] :=
  isDirAt_iff.mp (ensureRepairableRoot_eq_ok.mp h.root).2

/-- What is made keeps the data directory in repair. -/
theorem Ready.mono (h : Ready config t) (ht : Extends t t') (hroot : Present config t' []) :
    Ready config t' where
  valid := h.valid
  root := ensureRepairableRoot_eq_ok.mpr
    ⟨fun _ => isDirAt_iff.mpr (look_of_present hroot), isDirAt_iff.mpr (h.parented.mono ht)⟩

theorem targetSteps_eq (config : Config) (parts : List String) :
    targetSteps config parts = steps (target config parts) := rfl

theorem status_planned : (planned config t parts).status = "planned" ↔ Missing config t parts := by
  unfold planned Missing
  cases hentry : t.entry (targetSteps config parts) with
  | none => exact iff_of_true rfl rfl
  | some node =>
    refine iff_of_false ?_ (Option.some_ne_none node)
    show ¬ "exists" = "planned"
    decide

theorem path_planned : (planned config t parts).path = target config parts := by
  unfold planned
  split <;> rfl

/-- The plan is what is made. -/
theorem Inv.fulfils (hinv : Inv config t t' done) {plan : RepairResult}
    (hplan : ∀ a, a ∈ plan.actions ↔ ∃ p ∈ done, planned config t p = a) : Fulfils t t' plan where
  made a ha hstatus := by
    obtain ⟨p, hp, rfl⟩ := (hplan a).mp ha
    obtain ⟨parent, n, -, -, hlook, hnone⟩ := hinv.made p hp (status_planned.mp hstatus)
    obtain ⟨q, hq, hdir⟩ := look_of_present (hinv.here p hp)
    cases hlook.symm.trans hq
    rw [path_planned]
    exact ⟨_, hlook, hnone, hdir⟩
  only q := by
    by_cases hsome : t.node q = none
    · by_cases hnew : t'.node q = none
      · exact .inl (hnew.trans hsome.symm)
      · obtain ⟨p, hp, hmissing, hlook⟩ := hinv.new q hsome hnew
        obtain ⟨q', hq', hdir⟩ := look_of_present (hinv.here p hp)
        cases hlook.symm.trans hq'
        refine .inr ⟨hsome, hdir, _, (hplan _).mpr ⟨p, hp, rfl⟩, status_planned.mpr hmissing, ?_⟩
        rw [path_planned]
        exact hlook
    · exact .inl (hinv.ext.keeps q hsome)

/-- When the data directory can be repaired, what is made is what the loop makes. -/
theorem planIsEffect_of_free (h : Ready config t)
    (hobstacle : ∀ p ∈ targets, ¬ Obstacle makes config t p)
    (hapart : ∀ p ∈ targets, ∀ p' ∈ targets, p ≠ p' → Apart config t p p') :
    PlanIsEffect makes config t := by
  obtain ⟨hok, hinv⟩ := repairTargets_made h.parented hobstacle hapart
    (fun p hp => by cases hp) (fun p hp => hp) rooted_targets (inv_nil config t)
  have hhere : ∀ p ∈ targets, Present config (repairTargets makes config true t targets).1 p :=
    fun p hp => hinv.here p (by simpa using hp)
  have hplan := (repairTargets_plan makes).mpr
    ⟨fun p hp => missing_or_present (hobstacle p hp), rfl⟩
  have hready := h.mono hinv.ext (hhere [] List.mem_cons_self)
  have hagain := (repairTargets_plan makes).mpr ⟨fun p hp => .inr (hhere p hp), rfl⟩
  constructor
  · intro result hresult
    rw [repairLocalState_ready true h] at hresult ⊢
    dsimp only at hresult ⊢
    rw [hok] at hresult
    cases hresult
    rw [repairLocalState_ready false h, repairLocalState_ready false hready]
    dsimp only
    rw [hplan, hagain]
    refine ⟨_, _, rfl, ?_, hinv.fulfils ?_, rfl, ?_⟩
    · rw [List.map_map]
      rfl
    · intro a
      simp [List.mem_map]
    · intro a ha hstatus
      obtain ⟨p, hp, rfl⟩ := List.mem_map.mp ha
      cases (status_planned.mp hstatus).symm.trans (hhere p hp)
  · intro e he
    rw [repairLocalState_ready true h] at he
    dsimp only at he
    rw [hok] at he
    cases he

/-- What is applied is the plan, or it raises and nothing is made, exactly if the data directory
cannot be repaired, or what is first no directory is an obstacle, or there is none and the missing
targets are different directories. -/
theorem planIsEffect_iff (makes : Steps → Bool) (config : Config) (t : Tree String C) :
    PlanIsEffect makes config t ↔
      (Ready config t →
        (∃ before parts after, targets = before ++ parts :: after ∧ Obstacle makes config t parts ∧
          ∀ p ∈ before, Present config t p) ∨
        (∀ p ∈ targets, ¬ Obstacle makes config t p) ∧
          ∀ p ∈ targets, ∀ p' ∈ targets, p ≠ p' → Apart config t p p') := by
  constructor
  · intro heffect h
    cases hrun : (repairTargets makes config true t targets).2 with
    | error e =>
      have hraises : (repairLocalState makes config true t).2 = .error e := by
        rw [repairLocalState_ready true h, hrun]
        rfl
      have htree := heffect.raises e hraises
      rw [repairLocalState_ready true h] at htree
      refine .inl (obstacle_of_raises h.parented (fun p hp => by cases hp) rooted_targets
        (e := e) ?_)
      exact Prod.ext htree hrun
    | ok actions =>
      have hreturns : (repairLocalState makes config true t).2 = .ok ⟨false, actions⟩ := by
        rw [repairLocalState_ready true h, hrun]
        rfl
      obtain ⟨plan, -, hplan, hactions, -⟩ := heffect.returns _ hreturns
      rw [repairLocalState_ready false h] at hplan
      obtain ⟨before, hbefore, rfl⟩ := Logic.map_eq_ok.mp hplan
      obtain ⟨hboth, rfl⟩ := (repairTargets_plan makes).mp hbefore
      have hactions' : actions = targets.map fun p => applied (planned config t p) := by
        rw [List.map_map] at hactions
        exact hactions
      rw [hactions'] at hrun
      obtain ⟨hfree, -, hpairs⟩ := repairTargets_free h.parented (.refl t) (fun p hp => by cases hp)
        (fun p hp => by cases hp) rooted_targets hboth hrun
      exact .inr ⟨hfree, fun p hp p' hp' hne => hpairs.forall hp hp' hne⟩
  · intro hcond
    by_cases h : Ready config t
    · rcases hcond h with ⟨before, parts, after, htargets, hobstacle, hbefore⟩ | ⟨hobstacle, hapart⟩
      · have hrooted := rooted_targets
        rw [htargets] at hrooted
        obtain ⟨e, he⟩ := repairTargets_blocked h.parented (fun p hp => by cases hp) hrooted hbefore
          hobstacle
        rw [← htargets] at he
        have hrun : repairLocalState makes config true t = (t, .error e) := by
          rw [repairLocalState_ready true h, he]
          rfl
        constructor
        · intro result hresult
          rw [hrun] at hresult
          cases hresult
        · intro e' _
          rw [hrun]
      · exact planIsEffect_of_free h hobstacle hapart
    · obtain ⟨e, hrun⟩ := repairLocalState_unready makes true h
      constructor
      · intro result hresult
        rw [hrun] at hresult
        cases hresult
      · intro e' _
        rw [hrun]

end

section

variable {makes : Steps → Bool} {config : Config} {t : Tree String C}

/-! ## What the setup plans -/

/-- The host finds what is in the tree. -/
def Sees {O : Type} (host : Doctor.Host O) (t : Tree String C) : Prop :=
  ∀ path, (host.entry path).present = (t.entry (steps path)).isSome ∧
    (host.entry path).isDir = isDirAt t (steps path)

theorem isDirAt_of_entry {path : Steps} {node : Node String C} (h : t.entry path = some node) :
    isDirAt t path = true ↔ node = .dir := by
  obtain ⟨q, hq, hnode⟩ := Option.bind_eq_some_iff.mp h
  unfold isDirAt
  rw [hq]
  show t.isDir q = true ↔ _
  rw [isDir_iff, hnode, Option.some_inj]

theorem ensureRepairableRoot_sees {O : Type} {host : Doctor.Host O} (h : Sees host t) :
    ensureRepairableRoot config t = (Setup.ensureRepairableRoot host config).mapError .failure := by
  unfold ensureRepairableRoot Setup.ensureRepairableRoot
  dsimp only
  rw [(h config.dataDir).1, (h config.dataDir).2, (h (Doctor.parentOf config.dataDir)).2]
  unfold ensure
  split
  · rw [ok_bind, ok_bind]
    split <;> rfl
  · rfl

theorem repairTargets_sees {O : Type} {host : Doctor.Host O} (h : Sees host t)
    (rest : List (List String)) : (repairTargets makes config false t rest).2 =
      (rest.mapM (Setup.repairAction host config)).mapError .failure := by
  induction rest with
  | nil => rfl
  | cons parts rest ih =>
    have hsees := h (target config parts)
    rw [repairTargets, List.mapM_cons]
    cases hentry : t.entry (targetSteps config parts) with
    | none =>
      rw [show t.entry (steps (target config parts)) = none from hentry] at hsees
      have haction : Setup.repairAction host config parts = .ok (creation config false parts) := by
        unfold Setup.repairAction
        simp only [hsees.1]
        rfl
      rw [haction, ok_bind]
      dsimp only
      rw [if_pos (by rfl)]
      dsimp only
      rw [show (if false = true then mkdir makes t (targetSteps config parts) else (t, true)) =
        (t, true) from rfl, ih]
      cases rest.mapM (Setup.repairAction host config) <;> rfl
    | some node =>
      have hsome : t.entry (steps (target config parts)) = some node := hentry
      have hdir := isDirAt_of_entry hsome
      rw [hsome] at hsees
      by_cases hnode : node = .dir
      · have haction : Setup.repairAction host config parts = .ok (existing config parts) := by
          unfold Setup.repairAction
          simp only [hsees.1, hsees.2, hdir.mpr hnode]
          rfl
        rw [haction, ok_bind, hnode]
        dsimp only
        rw [ih]
        cases rest.mapM (Setup.repairAction host config) <;> rfl
      · have haction : Setup.repairAction host config parts =
            .error (.target (target config parts)) := by
          unfold Setup.repairAction
          simp only [hsees.1, hsees.2, hdir, hnode, ensure]
          rfl
        rw [haction]
        cases node with
        | dir => exact absurd rfl hnode
        | file content => rfl
        | link absolute steps => rfl

/-- The dry run is what the setup shows. -/
theorem repairLocalState_sees {O : Type} {host : Doctor.Host O} (h : Sees host t) :
    (repairLocalState makes config false t).2 =
      (RepairResult.mk true <$> Setup.repairLocalState host config).mapError .failure := by
  unfold repairLocalState Setup.repairLocalState
  cases Setup.validate config with
  | error e => rfl
  | ok _ =>
    dsimp only [Except.mapError]
    rw [ok_bind, ok_bind, ensureRepairableRoot_sees h]
    cases Setup.ensureRepairableRoot host config with
    | error e => rfl
    | ok _ =>
      rw [ok_bind]
      dsimp only [Except.mapError]
      rw [repairTargets_sees h]
      unfold targets
      cases ([] :: requiredDirectories).mapM (Setup.repairAction host config) <;> rfl

end

namespace Sample

def config : Config where
  invalid := none
  dataDir := ⟨.root, ["maya"]⟩
  enabledProfiles := [.core]
  retriever := "local_json"
  policyFile := ⟨.root, ["maya", "policy.json"]⟩
  llmMode := "local"
  llmProvider := "openai-compatible"
  modelInvalid := none
  integrations := []
  metabase := ⟨false, "disabled", none, none, []⟩
  edition := .standard
  brokerMode := .disabled
  networkPolicy := "offline"
  credentialRef := none
  credentialMode := fun _ => .disabled

/-- In place of a late target there is a file. -/
def tree : Tree String Unit :=
  (Tree.bare.put ["maya"] .dir).put ["maya", "backups"] (.file ())

def after : Tree String Unit := (repairLocalState (fun _ => true) config true tree).1

def isRaised {α : Type} : Except Raised α → Bool
  | .ok _ => false
  | .error _ => true

end Sample

open Sample in
/-- The targets before the file were made. -/
theorem sample_not_planIsEffect : ¬ PlanIsEffect (fun _ => true) config tree := by
  intro heffect
  have hraised : isRaised (repairLocalState (fun _ => true) config true tree).2 = true := by
    decide +kernel
  have hbefore : tree.node ["maya", "memory"] = none := by decide +kernel
  have hafter : after.node ["maya", "memory"] = some .dir := by decide +kernel
  cases hrun : (repairLocalState (fun _ => true) config true tree).2 with
  | ok result =>
    rw [hrun] at hraised
    cases hraised
  | error e =>
    have htree : after = tree := heffect.raises e hrun
    rw [htree, hbefore] at hafter
    cases hafter

end ProjectMaya.Repair
