import ProjectMaya.Logic.FileTree

/-! # Looking a path up

`Tree.look` says where a path leads if everything on the way is there, as a system call follows it;
`Tree.resolve` goes on where nothing is.  What leads somewhere leads there also in a tree that has
more directories (`look_mono`). -/

namespace Logic.FileTree

variable {N C : Type}

section

variable (t : Tree N C)

/-- One pass over the steps, which only goes up from a directory. -/
def pass (follow : List N → List (Step N) → Option (List N)) :
    List N → List (Step N) → Option (List N)
  | path, [] => some path
  | path, .up :: rest => if t.isDir path then pass follow path.dropLast rest else none
  | path, .name n :: rest =>
    match t.node (path ++ [n]) with
    | none => none
    | some (.link absolute steps) =>
      (follow (if absolute then [] else path) steps).bind fun path => pass follow path rest
    | some _ => pass follow (path ++ [n]) rest

/-- The same, with at most so many links within each other. -/
def lookWithin : Nat → List N → List (Step N) → Option (List N)
  | 0 => pass t fun _ _ => none
  | depth + 1 => pass t (lookWithin depth)

/-- Where a path leads, unless something is missing on the way or links loop. -/
def Tree.look (steps : List (Step N)) : Option (List N) := lookWithin t t.links.length [] steps

/-- What a path leads to, for `stat`. -/
def Tree.entry (steps : List (Step N)) : Option (Node N C) := (t.look steps).bind t.node

end

variable {t t' : Tree N C}

/-! ## One step after the other -/

theorem pass_append {follow : List N → List (Step N) → Option (List N)} (path : List N)
    (steps rest : List (Step N)) :
    pass t follow path (steps ++ rest) =
      (pass t follow path steps).bind fun path => pass t follow path rest := by
  induction steps generalizing path with
  | nil => rfl
  | cons step steps ih =>
    cases step with
    | up =>
      rw [List.cons_append, pass, pass]
      split
      · exact ih _
      · rfl
    | name n =>
      rw [List.cons_append, pass, pass]
      split
      · rfl
      · rw [Option.bind_assoc]
        exact congrArg _ (funext ih)
      · exact ih _

theorem look_append (steps rest : List (Step N)) :
    t.look (steps ++ rest) =
      (t.look steps).bind fun path => lookWithin t t.links.length path rest := by
  unfold Tree.look
  cases t.links.length with
  | zero => exact pass_append [] steps rest
  | succ depth => exact pass_append [] steps rest

theorem lookWithin_name (depth : Nat) (path : List N) (n : N) :
    (t.node (path ++ [n]) = none → lookWithin t depth path [.name n] = none) ∧
    (∀ node, t.node (path ++ [n]) = some node →
      (∀ absolute steps, node ≠ .link absolute steps) →
        lookWithin t depth path [.name n] = some (path ++ [n])) := by
  constructor
  · intro hnone
    cases depth <;> simp only [lookWithin, pass, hnone]
  · intro node hnode hlink
    cases depth <;> cases node <;> simp only [lookWithin, pass, hnode] <;>
      exact absurd rfl (hlink _ _)

/-- A name in a directory. -/
theorem look_name {steps : List (Step N)} {path : List N} {n : N} (h : t.look steps = some path) :
    (t.node (path ++ [n]) = none → t.look (steps ++ [.name n]) = none) ∧
    (∀ node, t.node (path ++ [n]) = some node →
      (∀ absolute steps, node ≠ .link absolute steps) →
        t.look (steps ++ [.name n]) = some (path ++ [n])) := by
  rw [look_append, h]
  exact lookWithin_name _ path n

theorem look_dir {steps : List (Step N)} {path : List N} {n : N} (h : t.look steps = some path)
    (hn : t.node (path ++ [n]) = some .dir) : t.look (steps ++ [.name n]) = some (path ++ [n]) :=
  (look_name h).2 .dir hn fun _ _ h => by cases h

/-- A way that goes on leads to its last part first. -/
theorem look_of_append {steps rest : List (Step N)} {path : List N}
    (h : t.look (steps ++ rest) = some path) : ∃ middle, t.look steps = some middle := by
  rw [look_append] at h
  obtain ⟨middle, hmiddle, -⟩ := Option.bind_eq_some_iff.mp h
  exact ⟨middle, hmiddle⟩

theorem look_up {steps : List (Step N)} {path : List N} (h : t.look steps = some path)
    (hdir : t.isDir path = true) : t.look (steps ++ [.up]) = some path.dropLast := by
  rw [look_append, h]
  show lookWithin t t.links.length path [.up] = _
  cases t.links.length <;> simp only [lookWithin, pass, hdir, if_true]

/-! ## What a path leads to is there -/

theorem dir_dropLast {path : List N} (h : t.node path = some .dir) :
    t.node path.dropLast = some .dir := by
  by_cases hp : path.dropLast = path
  · rw [hp]
    exact h
  · exact t.dir_of_prefix (by rw [h]; exact Option.some_ne_none _) (List.dropLast_prefix path) hp

theorem exists_of_pass {follow : List N → List (Step N) → Option (List N)}
    (hfollow : ∀ path steps q, t.node path = some .dir → follow path steps = some q →
      t.node q ≠ none)
    {path : List N} {steps : List (Step N)} {q : List N} (hpath : t.node path ≠ none)
    (h : pass t follow path steps = some q) : t.node q ≠ none := by
  induction steps generalizing path with
  | nil =>
    cases h
    exact hpath
  | cons step rest ih =>
    cases step with
    | up =>
      rw [pass] at h
      split at h
      · rename_i hdir
        refine ih ?_ h
        rw [dir_dropLast (isDir_iff.mp hdir)]
        exact Option.some_ne_none _
      · cases h
    | name n =>
      rw [pass] at h
      split at h
      · cases h
      · rename_i hlink
        obtain ⟨real, hreal, h⟩ := Option.bind_eq_some_iff.mp h
        refine ih (hfollow _ _ _ ?_ hreal) h
        split
        · exact t.root
        · exact t.closed path n (by rw [hlink]; exact Option.some_ne_none _)
      · rename_i hnode
        exact ih (by rw [hnode]; exact Option.some_ne_none _) h

theorem exists_of_lookWithin {depth : Nat} {path : List N} {steps : List (Step N)} {q : List N}
    (hpath : t.node path ≠ none) (h : lookWithin t depth path steps = some q) :
    t.node q ≠ none := by
  induction depth generalizing path steps q with
  | zero => exact exists_of_pass (fun _ _ _ _ h => by cases h) hpath h
  | succ depth ih =>
    refine exists_of_pass (fun _ _ _ hdir hq => ih ?_ hq) hpath h
    rw [hdir]
    exact Option.some_ne_none _

theorem exists_of_look {steps : List (Step N)} {q : List N} (h : t.look steps = some q) :
    t.node q ≠ none :=
  exists_of_lookWithin (by rw [t.root]; exact Option.some_ne_none _) h

theorem entry_eq_none {steps : List (Step N)} : t.entry steps = none ↔ t.look steps = none := by
  unfold Tree.entry
  cases h : t.look steps with
  | none => exact ⟨fun _ => rfl, fun _ => rfl⟩
  | some q => exact ⟨fun hq => absurd hq (exists_of_look h), fun hq => by cases hq⟩

/-! ## More directories -/

/-- The other tree has some more directories. -/
structure Extends (t t' : Tree N C) : Prop where
  keeps : ∀ q, t.node q ≠ none → t'.node q = t.node q
  adds : ∀ q, t.node q = none → t'.node q ≠ none → t'.node q = some .dir
  links : t'.links = t.links

theorem Extends.refl (t : Tree N C) : Extends t t :=
  ⟨fun _ _ => rfl, fun _ hnone h => absurd hnone h, rfl⟩

theorem Extends.trans {t'' : Tree N C} (h : Extends t t') (h' : Extends t' t'') :
    Extends t t'' where
  keeps q hq := by
    have hq' := h.keeps q hq
    rw [h'.keeps q (by rw [hq']; exact hq), hq']
  adds q hnone hq := by
    by_cases hq' : t'.node q = none
    · exact h'.adds q hq' hq
    · rw [h'.keeps q hq']
      exact h.adds q hnone hq'
  links := h'.links.trans h.links

theorem Extends.dir {q : List N} (h : Extends t t') (hq : t.node q = some .dir) :
    t'.node q = some .dir := by
  rw [h.keeps q (by rw [hq]; exact Option.some_ne_none _), hq]

theorem extends_put [DecidableEq N] {p : List N} (hp : t.Free p) (hnone : t.node p = none) :
    Extends t (t.put p .dir) where
  keeps q hq := by
    rw [put_node hp, if_neg]
    rintro rfl
    exact hq hnone
  adds q hq h := by
    rw [put_node hp] at h ⊢
    split
    · rfl
    · rename_i hne
      rw [if_neg hne] at h
      exact absurd hq h
  links := put_links fun _ _ h => by cases h

theorem pass_mono {follow follow' : List N → List (Step N) → Option (List N)}
    (hfollow : ∀ path steps q, follow path steps = some q → follow' path steps = some q)
    (ht : Extends t t') {path : List N} {steps : List (Step N)} {q : List N}
    (h : pass t follow path steps = some q) : pass t' follow' path steps = some q := by
  induction steps generalizing path with
  | nil => exact h
  | cons step rest ih =>
    cases step with
    | up =>
      rw [pass] at h ⊢
      split at h
      · rename_i hdir
        rw [if_pos (isDir_iff.mpr (ht.dir (isDir_iff.mp hdir)))]
        exact ih h
      · cases h
    | name n =>
      rw [pass] at h ⊢
      cases hnode : t.node (path ++ [n]) with
      | none =>
        rw [hnode] at h
        cases h
      | some node =>
        rw [hnode] at h
        rw [ht.keeps _ (by rw [hnode]; exact Option.some_ne_none _), hnode]
        cases node with
        | dir => exact ih h
        | file content => exact ih h
        | link absolute steps =>
          obtain ⟨real, hreal, h⟩ := Option.bind_eq_some_iff.mp h
          exact Option.bind_eq_some_iff.mpr ⟨real, hfollow _ _ _ hreal, ih h⟩

theorem lookWithin_mono (ht : Extends t t') {depth : Nat} {path : List N} {steps : List (Step N)}
    {q : List N} (h : lookWithin t depth path steps = some q) :
    lookWithin t' depth path steps = some q := by
  induction depth generalizing path steps q with
  | zero => exact pass_mono (fun _ _ _ h => by cases h) ht h
  | succ depth ih => exact pass_mono (fun _ _ _ h => ih h) ht h

/-- What leads somewhere leads there also with more directories. -/
theorem look_mono (ht : Extends t t') {steps : List (Step N)} {q : List N}
    (h : t.look steps = some q) : t'.look steps = some q := by
  unfold Tree.look at h ⊢
  rw [ht.links]
  exact lookWithin_mono ht h

end Logic.FileTree
