import Mathlib.Data.List.Infix

/-! # File trees with symbolic links

A tree says what is at each path from its root.  `Tree.resolve` follows the links of a path, and
what it gives is straight: no link is on the way there (`straight_of_resolve`), so that it resolves
to itself (`resolve_of_straight`), also after directories and files were made (`Unlinked`). -/

namespace Logic.FileTree

/-- A part of a path: a name, or `..`. -/
inductive Step (N : Type) where
  | name (n : N)
  | up
  deriving DecidableEq, Repr

inductive Node (N C : Type) where
  | dir
  | file (content : C)
  /-- The steps that a link stands for, from the root or from the directory it is in. -/
  | link (absolute : Bool) (steps : List (Step N))
  deriving DecidableEq, Repr

/-- Whatever is there is in a directory, and the links are listed. -/
@[ext] structure Tree (N C : Type) where
  node : List N → Option (Node N C)
  links : List (List N)
  root : node [] = some .dir
  closed : ∀ p n, node (p ++ [n]) ≠ none → node p = some .dir
  listed : ∀ p absolute steps, node p = some (.link absolute steps) → p ∈ links

variable {N C : Type}

/-- The tree with nothing in it. -/
def Tree.bare [DecidableEq N] : Tree N C where
  node p := if p = [] then some .dir else none
  links := []
  root := if_pos rfl
  closed p n h := absurd (if_neg (List.append_ne_nil_of_right_ne_nil p (List.cons_ne_nil n []))) h
  listed p absolute steps h := by
    by_cases hp : p = [] <;> simp [hp] at h

def Tree.isDir (t : Tree N C) (p : List N) : Bool :=
  match t.node p with
  | some .dir => true
  | _ => false

theorem isDir_iff {t : Tree N C} {p : List N} : t.isDir p = true ↔ t.node p = some .dir := by
  unfold Tree.isDir
  split <;> simp_all

/-- Above what is there are directories. -/
theorem Tree.dir_of_prefix (t : Tree N C) {p q : List N} (h : t.node p ≠ none) (hq : q <+: p)
    (hne : q ≠ p) : t.node q = some .dir := by
  induction p using List.reverseRecOn with
  | nil => exact absurd (List.prefix_nil.1 hq) hne
  | append_singleton p n ih =>
    have hp := t.closed p n h
    rcases List.prefix_concat_iff.1 hq with hq | hq
    · exact absurd hq hne
    · by_cases hqp : q = p
      · rw [hqp]
        exact hp
      · exact ih (by rw [hp]; exact Option.some_ne_none _) hq hqp

/-! ## Resolving paths -/

section

variable (t : Tree N C)

/-- One pass over the steps, from a path that is resolved; `follow` says where a link leads. -/
def walk (follow : List N → List (Step N) → Option (List N)) :
    List N → List (Step N) → Option (List N)
  | path, [] => some path
  | path, .up :: rest => walk follow path.dropLast rest
  | path, .name n :: rest =>
    match t.node (path ++ [n]) with
    | some (.link absolute steps) =>
      (follow (if absolute then [] else path) steps).bind fun path => walk follow path rest
    | _ => walk follow (path ++ [n]) rest

/-- The same, with at most so many links within each other. -/
def resolveWithin : Nat → List N → List (Step N) → Option (List N)
  | 0 => walk t fun _ _ => none
  | depth + 1 => walk t (resolveWithin depth)

/-- Where a path leads: no more than all links can be within each other, unless they loop. -/
def Tree.resolve (path : List N) (steps : List (Step N)) : Option (List N) :=
  resolveWithin t t.links.length path steps

end

/-- No link is on the way. -/
def Straight (t : Tree N C) (p : List N) : Prop :=
  ∀ q, q <+: p → ∀ absolute steps, t.node q ≠ some (.link absolute steps)

variable {t : Tree N C}

theorem Straight.of_prefix {p q : List N} (h : Straight t p) (hq : q <+: p) : Straight t q :=
  fun r hr => h r (hr.trans hq)

theorem straight_nil : Straight t [] := by
  intro q hq absolute steps h
  rw [List.prefix_nil.1 hq, t.root] at h
  cases h

theorem Straight.concat {p : List N} {n : N} (h : Straight t p)
    (hn : ∀ absolute steps, t.node (p ++ [n]) ≠ some (.link absolute steps)) :
    Straight t (p ++ [n]) := by
  intro q hq
  rcases List.prefix_concat_iff.1 hq with rfl | hq
  · exact hn
  · exact h q hq

theorem straight_of_walk {follow : List N → List (Step N) → Option (List N)}
    (hfollow : ∀ path steps q, Straight t path → follow path steps = some q → Straight t q)
    {path : List N} {steps : List (Step N)} {q : List N} (hpath : Straight t path)
    (h : walk t follow path steps = some q) : Straight t q := by
  induction steps generalizing path with
  | nil =>
    cases h
    exact hpath
  | cons step rest ih =>
    cases step with
    | up => exact ih (hpath.of_prefix (List.dropLast_prefix path)) h
    | name n =>
      unfold walk at h
      split at h
      · obtain ⟨real, hreal, h⟩ := Option.bind_eq_some_iff.1 h
        refine ih (hfollow _ _ _ ?_ hreal) h
        split
        · exact straight_nil
        · exact hpath
      · rename_i hnode
        exact ih (hpath.concat hnode) h

/-- What a path resolves to has no link on the way. -/
theorem straight_of_resolveWithin {depth : Nat} {path : List N} {steps : List (Step N)} {q : List N}
    (hpath : Straight t path) (h : resolveWithin t depth path steps = some q) : Straight t q := by
  induction depth generalizing path steps q with
  | zero => exact straight_of_walk (fun _ _ _ _ h => by cases h) hpath h
  | succ depth ih => exact straight_of_walk (fun _ _ _ hpath h => ih hpath h) hpath h

theorem straight_of_resolve {path : List N} {steps : List (Step N)} {q : List N}
    (hpath : Straight t path) (h : t.resolve path steps = some q) : Straight t q :=
  straight_of_resolveWithin hpath h

theorem walk_names {follow : List N → List (Step N) → Option (List N)} {path names : List N}
    (h : Straight t (path ++ names)) :
    walk t follow path (names.map .name) = some (path ++ names) := by
  induction names generalizing path with
  | nil =>
    rw [List.append_nil]
    rfl
  | cons n names ih =>
    have hn := h (path ++ [n]) (List.prefix_append_right_inj path |>.2 (List.prefix_append [n] names))
    rw [List.append_cons] at h ⊢
    rw [List.map_cons, walk]
    split
    · rename_i absolute steps hlink
      exact absurd hlink (hn absolute steps)
    · exact ih h

/-- A straight path resolves to itself. -/
theorem resolve_append_of_straight {path names : List N} (h : Straight t (path ++ names)) :
    t.resolve path (names.map .name) = some (path ++ names) := by
  unfold Tree.resolve
  cases t.links.length with
  | zero => exact walk_names h
  | succ depth => exact walk_names h

theorem resolve_of_straight {p : List N} (h : Straight t p) : t.resolve [] (p.map .name) = some p :=
  resolve_append_of_straight h

/-- Only the links decide where a path leads. -/
theorem walk_congr {t' : Tree N C} {follow : List N → List (Step N) → Option (List N)}
    (h : ∀ q absolute steps, t'.node q = some (.link absolute steps) ↔
      t.node q = some (.link absolute steps)) (path : List N) (steps : List (Step N)) :
    walk t' follow path steps = walk t follow path steps := by
  induction steps generalizing path with
  | nil => rfl
  | cons step rest ih =>
    cases step with
    | up => exact ih _
    | name n =>
      by_cases hlink : ∃ absolute steps, t.node (path ++ [n]) = some (.link absolute steps)
      · obtain ⟨absolute, steps, hlink⟩ := hlink
        rw [walk, walk, hlink, (h _ _ _).2 hlink]
        show Option.bind _ (fun path => walk t' follow path rest) = _
        rw [show (fun path => walk t' follow path rest) = fun path => walk t follow path rest from
          funext ih]
      · rw [walk, walk]
        split
        · rename_i absolute steps hlink'
          exact absurd ⟨absolute, steps, (h _ _ _).1 hlink'⟩ hlink
        · split
          · rename_i absolute steps hlink'
            exact absurd ⟨absolute, steps, hlink'⟩ hlink
          · exact ih _

theorem resolve_congr {t' : Tree N C}
    (h : ∀ q absolute steps, t'.node q = some (.link absolute steps) ↔
      t.node q = some (.link absolute steps)) (hlinks : t'.links = t.links) (path : List N)
    (steps : List (Step N)) : t'.resolve path steps = t.resolve path steps := by
  have hwithin : ∀ depth, resolveWithin t' depth = resolveWithin t depth := by
    intro depth
    induction depth with
    | zero => exact funext fun path => funext fun steps => walk_congr h path steps
    | succ depth ih =>
      funext path steps
      rw [resolveWithin, resolveWithin, ih]
      exact walk_congr h path steps
  unfold Tree.resolve
  rw [hlinks, hwithin]

/-- What is at a path, once its links are followed. -/
def Tree.stat (t : Tree N C) (p : List N) : Option (Node N C) :=
  (t.resolve [] (p.map .name)).bind t.node

theorem stat_of_straight {p : List N} (h : Straight t p) : t.stat p = t.node p := by
  unfold Tree.stat
  rw [resolve_of_straight h]
  rfl

/-! ## Making directories and writing files -/

/-- The other tree has no other links. -/
def Unlinked (t t' : Tree N C) : Prop :=
  ∀ q absolute steps, t'.node q = some (.link absolute steps) → t.node q = some (.link absolute steps)

theorem Unlinked.refl (t : Tree N C) : Unlinked t t := fun _ _ _ h => h

theorem Unlinked.trans {t t' t'' : Tree N C} (h : Unlinked t t') (h' : Unlinked t' t'') :
    Unlinked t t'' := fun q absolute steps hq => h q absolute steps (h' q absolute steps hq)

theorem Straight.mono {t t' : Tree N C} {p : List N} (h : Straight t p) (ht : Unlinked t t') :
    Straight t' p := fun q hq absolute steps hlink => h q hq absolute steps (ht q absolute steps hlink)

/-- Something other than a directory may be put there. -/
def Tree.Free (t : Tree N C) (p : List N) : Prop :=
  p ≠ [] ∧ t.isDir p.dropLast = true ∧ t.isDir p = false

variable [DecidableEq N]

instance (t : Tree N C) (p : List N) : Decidable (t.Free p) :=
  inferInstanceAs (Decidable (p ≠ [] ∧ t.isDir p.dropLast = true ∧ t.isDir p = false))

/-- What is there is replaced, if it may be. -/
def Tree.put (t : Tree N C) (p : List N) (n : Node N C) : Tree N C :=
  if h : t.Free p then
    { node := Function.update t.node p (some n)
      links :=
        match n with
        | .link _ _ => p :: t.links
        | _ => t.links
      root := by
        rw [Function.update_of_ne (Ne.symm h.1)]
        exact t.root
      closed := by
        intro q m hq
        have hdir : t.node q = some .dir := by
          by_cases hp : q ++ [m] = p
          · have hlast : (q ++ [m]).dropLast = q := List.dropLast_concat
            rw [← isDir_iff, ← hlast, hp]
            exact h.2.1
          · rw [Function.update_of_ne hp] at hq
            exact t.closed q m hq
        have hne : q ≠ p := by
          rintro rfl
          have hno := h.2.2
          rw [isDir_iff.2 hdir] at hno
          cases hno
        rw [Function.update_of_ne hne]
        exact hdir
      listed := by
        intro q absolute steps hq
        by_cases hp : q = p
        · subst hp
          rw [Function.update_self] at hq
          cases hq
          exact List.mem_cons_self
        · rw [Function.update_of_ne hp] at hq
          have hmem := t.listed q absolute steps hq
          split
          · exact List.mem_cons_of_mem _ hmem
          · exact hmem }
  else t

theorem put_node {p : List N} (h : t.Free p) (n : Node N C) (q : List N) :
    (t.put p n).node q = if q = p then some n else t.node q := by
  unfold Tree.put
  rw [dif_pos h]
  exact Function.update_apply t.node p (some n) q

theorem put_links {p : List N} {n : Node N C} (hn : ∀ absolute steps, n ≠ .link absolute steps) :
    (t.put p n).links = t.links := by
  unfold Tree.put
  split
  · split
    · rename_i absolute steps
      exact absurd rfl (hn absolute steps)
    · rfl
  · rfl

theorem unlinked_put {p : List N} {n : Node N C} (hn : ∀ absolute steps, n ≠ .link absolute steps) :
    Unlinked t (t.put p n) := by
  intro q absolute steps hq
  by_cases h : t.Free p
  · rw [put_node h] at hq
    split at hq
    · exact absurd (Option.some.inj hq) (hn absolute steps)
    · exact hq
  · unfold Tree.put at hq
    rw [dif_neg h] at hq
    exact hq

/-- What is no directory is taken away. -/
def Tree.remove (t : Tree N C) (p : List N) : Tree N C :=
  if h : t.isDir p = false then
    { node := Function.update t.node p none
      links := t.links
      root := by
        have hne : [] ≠ p := by
          rintro rfl
          rw [isDir_iff.2 t.root] at h
          cases h
        rw [Function.update_of_ne hne]
        exact t.root
      closed := by
        intro q m hq
        have hqm : q ++ [m] ≠ p := by
          rintro rfl
          exact hq (Function.update_self _ _ _)
        rw [Function.update_of_ne hqm] at hq
        have hdir := t.closed q m hq
        have hne : q ≠ p := by
          rintro rfl
          rw [isDir_iff.2 hdir] at h
          cases h
        rw [Function.update_of_ne hne]
        exact hdir
      listed := by
        intro q absolute steps hq
        by_cases hp : q = p
        · rw [hp, Function.update_self] at hq
          cases hq
        · rw [Function.update_of_ne hp] at hq
          exact t.listed q absolute steps hq }
  else t

theorem remove_node {p : List N} (h : t.isDir p = false) (q : List N) :
    (t.remove p).node q = if q = p then none else t.node q := by
  unfold Tree.remove
  rw [dif_pos h]
  exact Function.update_apply t.node p none q

/-- How writing a file ends: the file may be left with something else in it. -/
inductive Outcome (C : Type) where
  | done
  | refused
  | partly (content : C)
  deriving DecidableEq, Repr

def Outcome.isDone : Outcome C → Bool
  | .done => true
  | _ => false

/-- What is in a file after it was opened for writing. -/
def Outcome.left (content : C) : Outcome C → Option C
  | .done => some content
  | .refused => none
  | .partly content => some content

/-- What the system lets be done. -/
structure Device (N C : Type) where
  makes : List N → Bool
  write : List N → C → Outcome C

/-- A tree, and where directories were made and files opened for writing. -/
structure Disk (N C : Type) where
  tree : Tree N C
  made : List (List N) := []
  written : List (List N) := []

section

variable (device : Device N C)

/-- `mkdir(parents=True, exist_ok=True)`, below a directory. -/
def makeDirs : Disk N C → List N → List N → Disk N C × Bool
  | disk, _, [] => (disk, true)
  | disk, path, n :: rest =>
    let next := path ++ [n]
    match disk.tree.node next with
    | some .dir => makeDirs disk next rest
    | some (.file _) => (disk, false)
    | some (.link absolute steps) =>
      match disk.tree.resolve (if absolute then [] else path) steps with
      | some real => if disk.tree.isDir real then makeDirs disk real rest else (disk, false)
      | none => (disk, false)
    | none =>
      if device.makes next then
        makeDirs { disk with tree := disk.tree.put next .dir, made := disk.made ++ [next] } next rest
      else (disk, false)

/-- A file has this in it, if it was opened for writing. -/
def Disk.wrote (disk : Disk N C) (p : List N) : Option C → Disk N C
  | none => disk
  | some content =>
    { disk with tree := disk.tree.put p (.file content), written := disk.written ++ [p] }

/-- Opening a file for writing, and writing it. -/
def writeFile (disk : Disk N C) (path : List N) (content : C) : Disk N C × Bool :=
  match disk.tree.resolve [] (path.map .name) with
  | none => (disk, false)
  | some real =>
    if disk.tree.Free real then
      (disk.wrote real ((device.write real content).left content),
        (device.write real content).isDone)
    else (disk, false)

variable {device} {disk : Disk N C} {path rest : List N}

omit [DecidableEq N] in
theorem free_concat {p : List N} {n : N} (hp : t.node p = some .dir) (hn : t.node (p ++ [n]) = none) :
    t.Free (p ++ [n]) := by
  refine ⟨List.append_ne_nil_of_right_ne_nil p (List.cons_ne_nil n []), ?_, ?_⟩
  · rw [List.dropLast_concat]
    exact isDir_iff.2 hp
  · unfold Tree.isDir
    rw [hn]

variable (device) in
/-- A step down a straight path: it meets a directory, a file, or nothing. -/
theorem makeDirs_cons {n : N} (hdir : disk.tree.node path = some .dir)
    (hs : Straight disk.tree (path ++ n :: rest)) :
    (disk.tree.node (path ++ [n]) = some .dir ∧
      makeDirs device disk path (n :: rest) = makeDirs device disk (path ++ [n]) rest) ∨
    ((∃ content, disk.tree.node (path ++ [n]) = some (.file content)) ∧
      makeDirs device disk path (n :: rest) = (disk, false)) ∨
    (disk.tree.node (path ++ [n]) = none ∧ device.makes (path ++ [n]) = false ∧
      makeDirs device disk path (n :: rest) = (disk, false)) ∨
    (disk.tree.node (path ++ [n]) = none ∧ device.makes (path ++ [n]) = true ∧
      disk.tree.Free (path ++ [n]) ∧
      makeDirs device disk path (n :: rest) = makeDirs device
        { disk with
          tree := disk.tree.put (path ++ [n]) .dir, made := disk.made ++ [path ++ [n]] }
        (path ++ [n]) rest) := by
  have hlink := hs (path ++ [n]) ((List.prefix_append_right_inj path).2 (List.prefix_append [n] rest))
  rw [makeDirs]
  cases hnode : disk.tree.node (path ++ [n]) with
  | none =>
    cases hmakes : device.makes (path ++ [n]) with
    | false => exact .inr (.inr (.inl ⟨rfl, rfl, rfl⟩))
    | true => exact .inr (.inr (.inr ⟨rfl, rfl, free_concat hdir hnode, rfl⟩))
  | some node =>
    cases node with
    | dir => exact .inl ⟨rfl, rfl⟩
    | file content => exact .inr (.inl ⟨⟨content, rfl⟩, rfl⟩)
    | link absolute steps => exact absurd hnode (hlink absolute steps)

/-- What is between two paths. -/
def Between (path q p : List N) : Prop := path <+: q ∧ q <+: p

omit [DecidableEq N] in
theorem between_cons {q : List N} {n : N} :
    Between path q (path ++ n :: rest) ↔ q = path ∨ Between (path ++ [n]) q (path ++ [n] ++ rest) := by
  unfold Between
  constructor
  · rintro ⟨⟨s, rfl⟩, h⟩
    rw [List.prefix_append_right_inj] at h
    cases s with
    | nil => exact .inl (List.append_nil path)
    | cons m s =>
      obtain ⟨rfl, hs⟩ := List.cons_prefix_cons.1 h
      refine .inr ⟨⟨s, (List.append_cons path m s).symm⟩, ?_⟩
      rw [List.append_cons]
      exact (List.prefix_append_right_inj _).2 hs
  · rintro (rfl | ⟨h, h'⟩)
    · exact ⟨List.prefix_rfl, List.prefix_append _ _⟩
    · rw [List.append_assoc, List.singleton_append] at h'
      exact ⟨(List.prefix_append path [n]).trans h, h'⟩

/-- What a directory has to be, or can be made of. -/
def Device.Dirable (device : Device N C) (t : Tree N C) (q : List N) : Prop :=
  t.node q = some .dir ∨ t.node q = none ∧ device.makes q = true

/-- Directories are made all the way, or not. -/
theorem makeDirs_iff (hdir : disk.tree.node path = some .dir) (hs : Straight disk.tree (path ++ rest)) :
    (makeDirs device disk path rest).2 = true ↔
      ∀ q, Between path q (path ++ rest) → device.Dirable disk.tree q := by
  induction rest generalizing disk path with
  | nil =>
    refine ⟨fun _ q hq => ?_, fun _ => rfl⟩
    rw [List.append_nil] at hq
    rw [← hq.1.eq_of_length_le hq.2.length_le]
    exact .inl hdir
  | cons n rest ih =>
    have hs' : Straight disk.tree (path ++ [n] ++ rest) := by
      rwa [List.append_assoc, List.singleton_append]
    simp only [between_cons, forall_eq_or_imp]
    rw [and_iff_right (show device.Dirable disk.tree path from .inl hdir)]
    have hnext : Between (path ++ [n]) (path ++ [n]) (path ++ [n] ++ rest) :=
      ⟨List.prefix_rfl, List.prefix_append _ _⟩
    rcases makeDirs_cons device hdir hs with
      ⟨hnode, heq⟩ | ⟨⟨content, hnode⟩, heq⟩ | ⟨hnode, hmakes, heq⟩ | ⟨hnode, hmakes, hfree, heq⟩
    · rw [heq]
      exact ih hnode hs'
    · rw [heq]
      refine ⟨fun h => (by cases h), fun h => ?_⟩
      rcases h _ hnext with hd | ⟨hd, -⟩ <;> rw [hnode] at hd <;> cases hd
    · rw [heq]
      refine ⟨fun h => (by cases h), fun h => ?_⟩
      rcases h _ hnext with hd | ⟨-, hd⟩
      · rw [hnode] at hd
        cases hd
      · rw [hmakes] at hd
        cases hd
    · rw [heq, ih (by rw [put_node hfree, if_pos rfl])
        (hs'.mono (unlinked_put fun _ _ h => by cases h))]
      -- the new directory could be made, the rest is as before
      refine forall₂_congr fun q hq => ?_
      unfold Device.Dirable
      rw [put_node hfree]
      by_cases hqn : q = path ++ [n]
      · rw [if_pos hqn, hqn, hnode, hmakes]
        simp
      · rw [if_neg hqn]

/-- What was there stays, there are no more links, and no file is written. -/
structure Grown (disk disk' : Disk N C) : Prop where
  keeps : ∀ q, disk.tree.node q ≠ none → disk'.tree.node q = disk.tree.node q
  unlinked : Unlinked disk.tree disk'.tree
  links : disk'.tree.links = disk.tree.links
  written : disk'.written = disk.written

omit [DecidableEq N] in
theorem Grown.refl (disk : Disk N C) : Grown disk disk := ⟨fun _ _ => rfl, .refl _, rfl, rfl⟩

omit [DecidableEq N] in
theorem Grown.trans {disk disk' disk'' : Disk N C} (h : Grown disk disk') (h' : Grown disk' disk'') :
    Grown disk disk'' where
  keeps q hq := by
    have hq' := h.keeps q hq
    rw [h'.keeps q (by rw [hq']; exact hq), hq']
  unlinked := h.unlinked.trans h'.unlinked
  links := h'.links.trans h.links
  written := h'.written.trans h.written

theorem grown_put {p : List N} (hp : disk.tree.Free p) (hnone : disk.tree.node p = none)
    (made : List (List N)) :
    Grown disk { disk with tree := disk.tree.put p .dir, made } where
  keeps q hq := by
    show (disk.tree.put p .dir).node q = _
    rw [put_node hp, if_neg]
    rintro rfl
    exact hq hnone
  unlinked := unlinked_put fun _ _ h => by cases h
  links := put_links fun _ _ h => by cases h
  written := rfl

variable (device) in
theorem makeDirs_grown (hdir : disk.tree.node path = some .dir)
    (hs : Straight disk.tree (path ++ rest)) : Grown disk (makeDirs device disk path rest).1 := by
  induction rest generalizing disk path with
  | nil => exact .refl disk
  | cons n rest ih =>
    have hs' : Straight disk.tree (path ++ [n] ++ rest) := by
      rwa [List.append_assoc, List.singleton_append]
    rcases makeDirs_cons device hdir hs with
      ⟨hnode, heq⟩ | ⟨-, heq⟩ | ⟨-, -, heq⟩ | ⟨hnode, -, hfree, heq⟩
    · rw [heq]
      exact ih hnode hs'
    · rw [heq]
      exact .refl disk
    · rw [heq]
      exact .refl disk
    · rw [heq]
      have hgrown := grown_put hfree hnode (disk.made ++ [path ++ [n]])
      exact hgrown.trans (ih (by rw [put_node hfree, if_pos rfl]) (hs'.mono hgrown.unlinked))

/-- Directories are made between the paths only. -/
theorem makeDirs_made (hdir : disk.tree.node path = some .dir)
    (hs : Straight disk.tree (path ++ rest)) {q : List N}
    (hq : q ∈ (makeDirs device disk path rest).1.made) :
    q ∈ disk.made ∨ Between path q (path ++ rest) := by
  induction rest generalizing disk path with
  | nil => exact .inl hq
  | cons n rest ih =>
    have hs' : Straight disk.tree (path ++ [n] ++ rest) := by
      rwa [List.append_assoc, List.singleton_append]
    rw [between_cons]
    rcases makeDirs_cons device hdir hs with
      ⟨hnode, heq⟩ | ⟨-, heq⟩ | ⟨-, -, heq⟩ | ⟨hnode, -, hfree, heq⟩
    · rw [heq] at hq
      exact (ih hnode hs' hq).imp_right .inr
    · rw [heq] at hq
      exact .inl hq
    · rw [heq] at hq
      exact .inl hq
    · rw [heq] at hq
      have hgrown := grown_put hfree hnode (disk.made ++ [path ++ [n]])
      rcases ih (by rw [put_node hfree, if_pos rfl]) (hs'.mono hgrown.unlinked) hq with hq | hq
      · rcases List.mem_append.1 hq with hq | hq
        · exact .inl hq
        · rw [List.mem_singleton.1 hq]
          exact .inr (.inr ⟨List.prefix_rfl, List.prefix_append _ _⟩)
      · exact .inr (.inr hq)

variable (device) in
/-- Elsewhere nothing changes, and there are only new directories. -/
theorem makeDirs_cases (hdir : disk.tree.node path = some .dir)
    (hs : Straight disk.tree (path ++ rest)) (q : List N) :
    (makeDirs device disk path rest).1.tree.node q = disk.tree.node q ∨
      Between path q (path ++ rest) ∧
        (makeDirs device disk path rest).1.tree.node q = some .dir := by
  induction rest generalizing disk path with
  | nil => exact .inl rfl
  | cons n rest ih =>
    have hs' : Straight disk.tree (path ++ [n] ++ rest) := by
      rwa [List.append_assoc, List.singleton_append]
    rw [between_cons]
    rcases makeDirs_cons device hdir hs with
      ⟨hnode, heq⟩ | ⟨-, heq⟩ | ⟨-, -, heq⟩ | ⟨hnode, -, hfree, heq⟩
    · rw [heq]
      exact (ih hnode hs').imp_right fun h => ⟨.inr h.1, h.2⟩
    · rw [heq]
      exact .inl rfl
    · rw [heq]
      exact .inl rfl
    · rw [heq]
      have hgrown := grown_put hfree hnode (disk.made ++ [path ++ [n]])
      have hput : (disk.tree.put (path ++ [n]) .dir).node (path ++ [n]) = some .dir := by
        rw [put_node hfree, if_pos rfl]
      by_cases hqn : q = path ++ [n]
      · subst hqn
        refine .inr ⟨.inr ⟨List.prefix_rfl, List.prefix_append _ _⟩, ?_⟩
        have hkept := (makeDirs_grown device hput (hs'.mono hgrown.unlinked)).keeps (path ++ [n])
          (by rw [hput]; exact Option.some_ne_none _)
        exact hkept.trans hput
      · rcases ih hput (hs'.mono hgrown.unlinked) with h | h
        · refine .inl (h.trans ?_)
          rw [put_node hfree, if_neg hqn]
        · exact .inr ⟨.inr h.1, h.2⟩

/-- Directories that were made all the way are there. -/
theorem makeDirs_dirs (hdir : disk.tree.node path = some .dir)
    (hs : Straight disk.tree (path ++ rest)) (hok : (makeDirs device disk path rest).2 = true)
    {q : List N} (hq : Between path q (path ++ rest)) :
    (makeDirs device disk path rest).1.tree.node q = some .dir := by
  induction rest generalizing disk path with
  | nil =>
    rw [List.append_nil] at hq
    rw [← hq.1.eq_of_length_le hq.2.length_le]
    exact hdir
  | cons n rest ih =>
    have hs' : Straight disk.tree (path ++ [n] ++ rest) := by
      rwa [List.append_assoc, List.singleton_append]
    rcases between_cons.1 hq with rfl | hq
    · have hgrown := makeDirs_grown device hdir hs
      rw [hgrown.keeps _ (by rw [hdir]; exact Option.some_ne_none _)]
      exact hdir
    · rcases makeDirs_cons device hdir hs with
        ⟨hnode, heq⟩ | ⟨-, heq⟩ | ⟨-, -, heq⟩ | ⟨hnode, -, hfree, heq⟩
      · rw [heq] at hok ⊢
        exact ih hnode hs' hok hq
      · rw [heq] at hok
        cases hok
      · rw [heq] at hok
        cases hok
      · rw [heq] at hok ⊢
        have hgrown := grown_put hfree hnode (disk.made ++ [path ++ [n]])
        exact ih (by rw [put_node hfree, if_pos rfl]) (hs'.mono hgrown.unlinked) hok hq

/-- Nothing changes exactly when the first directory that is missing cannot be made, if one is. -/
theorem makeDirs_same_iff (hdir : disk.tree.node path = some .dir)
    (hs : Straight disk.tree (path ++ rest)) :
    (makeDirs device disk path rest).1.tree = disk.tree ↔
      ∀ q, Between path q (path ++ rest) → disk.tree.node q = none →
        disk.tree.node q.dropLast = some .dir → device.makes q = false := by
  induction rest generalizing disk path with
  | nil =>
    refine ⟨fun _ q hq hnone => ?_, fun _ => rfl⟩
    rw [List.append_nil] at hq
    rw [← hq.1.eq_of_length_le hq.2.length_le, hdir] at hnone
    cases hnone
  | cons n rest ih =>
    have hs' : Straight disk.tree (path ++ [n] ++ rest) := by
      rwa [List.append_assoc, List.singleton_append]
    simp only [between_cons, forall_eq_or_imp]
    rw [and_iff_right (fun h => by rw [hdir] at h; cases h)]
    -- below what is no directory there is none
    have hbelow : ∀ q, Between (path ++ [n]) q (path ++ [n] ++ rest) → q ≠ path ++ [n] →
        disk.tree.node q.dropLast = some .dir → disk.tree.node (path ++ [n]) = some .dir := by
      intro q hq hne hd
      have hprefix : path ++ [n] <+: q.dropLast := by
        obtain ⟨s, rfl⟩ := hq.1
        have hs : s ≠ [] := by
          rintro rfl
          exact hne (List.append_nil _)
        rw [List.dropLast_append_of_ne_nil hs]
        exact List.prefix_append _ _
      by_cases heq : path ++ [n] = q.dropLast
      · rw [heq]
        exact hd
      · exact disk.tree.dir_of_prefix (by rw [hd]; exact Option.some_ne_none _) hprefix heq
    rcases makeDirs_cons device hdir hs with
      ⟨hnode, heq⟩ | ⟨⟨content, hnode⟩, heq⟩ | ⟨hnode, hmakes, heq⟩ | ⟨hnode, hmakes, hfree, heq⟩
    · rw [heq]
      exact ih hnode hs'
    · rw [heq]
      refine ⟨fun _ q hq hnone hd => ?_, fun _ => rfl⟩
      have hne : q ≠ path ++ [n] := by
        rintro rfl
        rw [hnode] at hnone
        cases hnone
      rw [hbelow q hq hne hd] at hnode
      cases hnode
    · rw [heq]
      refine ⟨fun _ q hq _ hd => ?_, fun _ => rfl⟩
      by_cases hne : q = path ++ [n]
      · rw [hne]
        exact hmakes
      · rw [hbelow q hq hne hd] at hnode
        cases hnode
    · rw [heq]
      have hgrown := grown_put hfree hnode (disk.made ++ [path ++ [n]])
      have hput : (disk.tree.put (path ++ [n]) .dir).node (path ++ [n]) = some .dir := by
        rw [put_node hfree, if_pos rfl]
      constructor
      · intro hsame
        have hkept := (makeDirs_grown device hput (hs'.mono hgrown.unlinked)).keeps (path ++ [n])
          (by rw [hput]; exact Option.some_ne_none _)
        rw [hsame, hnode, hput] at hkept
        cases hkept
      · intro h
        have hno := h (path ++ [n]) ⟨List.prefix_rfl, List.prefix_append _ _⟩ hnode
          (by rw [List.dropLast_concat]; exact hdir)
        rw [hmakes] at hno
        cases hno

theorem put_same_iff {p : List N} (hp : t.Free p) {n : Node N C}
    (hn : ∀ absolute steps, n ≠ .link absolute steps) : t.put p n = t ↔ t.node p = some n := by
  constructor
  · intro h
    rw [← h, put_node hp, if_pos rfl]
  · intro h
    refine Tree.ext ?_ (put_links hn)
    funext q
    rw [put_node hp]
    split
    · rename_i hq
      rw [hq, h]
    · rfl

section

variable {p : List N} {content : C}

/-- Along a straight path, the file is the one that is named. -/
theorem writeFile_of_straight (hs : Straight disk.tree p) :
    writeFile device disk p content =
      if disk.tree.Free p then
        (disk.wrote p ((device.write p content).left content), (device.write p content).isDone)
      else (disk, false) := by
  unfold writeFile
  rw [resolve_of_straight hs]

omit [DecidableEq N] in
theorem Outcome.isDone_iff {outcome : Outcome C} : outcome.isDone = true ↔ outcome = .done := by
  cases outcome <;> simp [Outcome.isDone]

theorem writeFile_iff (hs : Straight disk.tree p) :
    (writeFile device disk p content).2 = true ↔
      disk.tree.Free p ∧ device.write p content = .done := by
  rw [writeFile_of_straight hs, ← Outcome.isDone_iff]
  by_cases hp : disk.tree.Free p
  · rw [if_pos hp, and_iff_right hp]
  · rw [if_neg hp]
    exact ⟨fun h => (by cases h), fun h => absurd h.1 hp⟩

theorem writeFile_node (hs : Straight disk.tree p)
    (hok : (writeFile device disk p content).2 = true) (q : List N) :
    (writeFile device disk p content).1.tree.node q =
      if q = p then some (.file content) else disk.tree.node q := by
  obtain ⟨hp, hdone⟩ := (writeFile_iff hs).1 hok
  rw [writeFile_of_straight hs, if_pos hp, hdone]
  exact put_node hp _ q

theorem unlinked_wrote (disk : Disk N C) (p : List N) (left : Option C) :
    Unlinked disk.tree (disk.wrote p left).tree := by
  cases left with
  | none => exact .refl _
  | some c => exact unlinked_put fun _ _ h => by cases h

theorem writeFile_unlinked (hs : Straight disk.tree p) :
    Unlinked disk.tree (writeFile device disk p content).1.tree := by
  rw [writeFile_of_straight hs]
  split
  · exact unlinked_wrote disk p _
  · exact .refl _

theorem wrote_dirs (disk : Disk N C) {p : List N} (hp : disk.tree.Free p) (left : Option C)
    {q : List N} (hq : disk.tree.node q = some .dir) : (disk.wrote p left).tree.node q = some .dir := by
  cases left with
  | none => exact hq
  | some c =>
    have hne : q ≠ p := by
      rintro rfl
      have hno := hp.2.2
      rw [isDir_iff.2 hq] at hno
      cases hno
    show (disk.tree.put p (.file c)).node q = _
    rw [put_node hp, if_neg hne]
    exact hq

theorem writeFile_dirs (hs : Straight disk.tree p) {q : List N}
    (hq : disk.tree.node q = some .dir) :
    (writeFile device disk p content).1.tree.node q = some .dir := by
  rw [writeFile_of_straight hs]
  split
  · exact wrote_dirs disk ‹_› _ hq
  · exact hq

theorem writeFile_made (hs : Straight disk.tree p) :
    (writeFile device disk p content).1.made = disk.made := by
  rw [writeFile_of_straight hs]
  split
  · cases (device.write p content).left content <;> rfl
  · rfl

theorem writeFile_written (hs : Straight disk.tree p) {q : List N}
    (hq : q ∈ (writeFile device disk p content).1.written) :
    q ∈ disk.written ∨ q = p ∧ disk.tree.Free p := by
  rw [writeFile_of_straight hs] at hq
  split at hq
  · rename_i hp
    cases hleft : (device.write p content).left content with
    | none =>
      rw [hleft] at hq
      exact .inl hq
    | some c =>
      rw [hleft] at hq
      exact (List.mem_append.1 hq).imp_right fun hq => ⟨List.mem_singleton.1 hq, hp⟩
  · exact .inl hq

end

end

end Logic.FileTree
