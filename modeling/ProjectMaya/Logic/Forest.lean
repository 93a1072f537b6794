import Mathlib.Data.List.Basic
import Mathlib.Data.Option.Basic

/-! # Forests of parent pointers

Nodes are kept in order of creation and a node's parent is an earlier node
(`Forest.up_lt`), so walking up ends.  Two things are developed:

* `Forest.Below`: the descendant relation, with `Forest.root` as the last node
  of every walk up (`below_root`, `root_eq_of_below`);
* `Forest.Shut`: a node is shut when some node on its way up carries a latch.
  Where nodes change only along a relation that never releases the latch, every
  descendant stays shut while the forest grows (`Shut.grows`, `Shut.below`).
-/

namespace Logic

/-- Nodes in order of creation; `up` is the parent a node stores. -/
structure Forest (α : Type) (up : α → Option Nat) where
  nodes : List α
  up_lt : ∀ (i p : Nat) (a : α), nodes[i]? = some a → up a = some p → p < i

namespace Forest

variable {α : Type} {up : α → Option Nat}

def empty : Forest α up := ⟨[], by intro i p a h; simp at h⟩

def size (f : Forest α up) : Nat := f.nodes.length

def get? (f : Forest α up) (i : Nat) : Option α := f.nodes[i]?

/-- A new node under an existing parent, or under none. -/
def push (f : Forest α up) (a : α) (h : ∀ p, up a = some p → p < f.size) : Forest α up where
  nodes := f.nodes ++ [a]
  up_lt := by
    intro i p b hb hp
    rw [List.getElem?_append] at hb
    split at hb
    · exact f.up_lt i p b hb hp
    · rename_i hi
      have hba : b = a := by
        have hm := List.mem_of_getElem? hb
        simpa using hm
      subst hba
      have := h p hp
      unfold size at this
      omega

/-- Rewrites one node and leaves its parent pointer alone. -/
def update (f : Forest α up) (i : Nat) (g : α → α) (hg : ∀ a, up (g a) = up a) : Forest α up where
  nodes := f.nodes.modify i g
  up_lt := by
    intro j p b hb hp
    rw [List.getElem?_modify] at hb
    obtain ⟨a, ha, rfl⟩ := Option.map_eq_some_iff.mp hb
    split at hp
    · rw [hg] at hp
      exact f.up_lt j p a ha hp
    · exact f.up_lt j p a ha hp

@[simp] theorem size_empty : (empty : Forest α up).size = 0 := rfl

@[simp] theorem size_push (f : Forest α up) (a : α) (h : ∀ p, up a = some p → p < f.size) :
    (f.push a h).size = f.size + 1 := by
  simp [size, push]

@[simp] theorem size_update (f : Forest α up) (i : Nat) (g : α → α)
    (hg : ∀ a, up (g a) = up a) : (f.update i g hg).size = f.size := by
  simp [size, update]

theorem get?_push (f : Forest α up) (a : α) (h : ∀ p, up a = some p → p < f.size) (i : Nat) :
    (f.push a h).get? i = if i = f.size then some a else f.get? i := by
  unfold push get? size
  rw [List.getElem?_append]
  split
  · rw [if_neg (by omega)]
  · split
    · rename_i hi; subst hi; simp
    · rw [List.getElem?_eq_none (by simp; omega), List.getElem?_eq_none (by omega)]

theorem get?_update (f : Forest α up) (i : Nat) (g : α → α) (hg : ∀ a, up (g a) = up a)
    (j : Nat) : (f.update i g hg).get? j = if i = j then (f.get? j).map g else f.get? j := by
  unfold update get?
  rw [List.getElem?_modify]
  split
  · rfl
  · simp

theorem lt_size_of_get? (f : Forest α up) {i : Nat} {a : α} (h : f.get? i = some a) :
    i < f.size := by
  unfold get? at h
  exact (List.getElem?_eq_some_iff.mp h).1

theorem exists_get? (f : Forest α up) {i : Nat} (h : i < f.size) : ∃ a, f.get? i = some a :=
  ⟨f.nodes[i], List.getElem?_eq_getElem h⟩

/-! ## Descendants and roots -/

/-- `Below f j i`: walking up from `j` meets `i` (every node is below itself). -/
inductive Below (f : Forest α up) : Nat → Nat → Prop
  | refl (i : Nat) : Below f i i
  | up {j p i : Nat} {a : α} : f.get? j = some a → up a = some p → Below f p i → Below f j i

theorem Below.trans {f : Forest α up} {k j i : Nat} (hkj : Below f k j) (hji : Below f j i) :
    Below f k i := by
  induction hkj with
  | refl => exact hji
  | up ha hp _ ih => exact .up ha hp (ih hji)

theorem Below.le {f : Forest α up} {j i : Nat} (h : f.Below j i) : i ≤ j := by
  induction h with
  | refl => exact Nat.le_refl _
  | up ha hp _ ih => exact Nat.le_trans ih (Nat.le_of_lt (f.up_lt _ _ _ ha hp))

/-- The walk up from `i` to the node that has no parent. -/
def root (f : Forest α up) (i : Nat) : Nat :=
  match _h : f.get? i with
  | none => i
  | some a =>
    match _hp : up a with
    | none => i
    | some p => f.root p
termination_by i
decreasing_by exact f.up_lt i p a _h _hp

theorem root_of_up (f : Forest α up) {i p : Nat} {a : α} (ha : f.get? i = some a)
    (hp : up a = some p) : f.root i = f.root p := by
  rw [root]
  split
  · rename_i h; rw [ha] at h; cases h
  · rename_i b h
    rw [ha] at h
    cases h
    split
    · rename_i h; rw [hp] at h; cases h
    · rename_i h; rw [hp] at h; cases h; rfl

theorem root_of_top (f : Forest α up) {i : Nat} {a : α} (ha : f.get? i = some a)
    (hp : up a = none) : f.root i = i := by
  rw [root]
  split
  · rfl
  · rename_i b h
    rw [ha] at h
    cases h
    split
    · rfl
    · rename_i h; rw [hp] at h; cases h

theorem root_of_missing (f : Forest α up) {i : Nat} (h : f.get? i = none) : f.root i = i := by
  rw [root]
  split
  · rfl
  · rename_i h'; rw [h] at h'; cases h'

theorem below_root (f : Forest α up) (i : Nat) : f.Below i (f.root i) := by
  induction i using Nat.strongRecOn with
  | ind i ih =>
    cases ha : f.get? i with
    | none => rw [root_of_missing f ha]; exact .refl i
    | some a =>
      cases hp : up a with
      | none => rw [root_of_top f ha hp]; exact .refl i
      | some p =>
        rw [root_of_up f ha hp]
        exact .up ha hp (ih p (f.up_lt i p a ha hp))

theorem root_eq_of_below {f : Forest α up} {j i : Nat} (h : f.Below j i) :
    f.root j = f.root i := by
  induction h with
  | refl => rfl
  | up ha hp _ ih => rw [root_of_up f ha hp, ih]

theorem up_root (f : Forest α up) {i : Nat} {a : α} (ha : f.get? (f.root i) = some a) :
    up a = none := by
  induction i using Nat.strongRecOn with
  | ind i ih =>
    cases hi : f.get? i with
    | none => rw [root_of_missing f hi, hi] at ha; cases ha
    | some b =>
      cases hp : up b with
      | none => rw [root_of_top f hi hp, hi] at ha; cases ha; exact hp
      | some p =>
        rw [root_of_up f hi hp] at ha
        exact ih p (f.up_lt i p b hi hp) ha

theorem root_lt_size (f : Forest α up) {i : Nat} (hi : i < f.size) : f.root i < f.size := by
  exact Nat.lt_of_le_of_lt (f.below_root i).le hi

/-! ## Latches -/

/-- Some node on the way up from `i` carries the latch. -/
def Shut (f : Forest α up) (latch : α → Prop) (i : Nat) : Prop :=
  ∃ k a, f.Below i k ∧ f.get? k = some a ∧ latch a

/-- Nodes stay where they are, under the parents they have, and change only along `R`. -/
def Grows (R : α → α → Prop) (f g : Forest α up) : Prop :=
  ∀ i a, f.get? i = some a → ∃ b, g.get? i = some b ∧ up b = up a ∧ R a b

variable {R : α → α → Prop}

theorem Grows.refl (hR : ∀ a, R a a) (f : Forest α up) : Grows R f f :=
  fun _ a ha => ⟨a, ha, rfl, hR a⟩

theorem Grows.trans (hR : ∀ a b c, R a b → R b c → R a c) {f g h : Forest α up}
    (hfg : Grows R f g) (hgh : Grows R g h) : Grows R f h := by
  intro i a ha
  obtain ⟨b, hb, hup, hab⟩ := hfg i a ha
  obtain ⟨c, hc, hup', hbc⟩ := hgh i b hb
  exact ⟨c, hc, hup'.trans hup, hR a b c hab hbc⟩

theorem grows_push (hR : ∀ a, R a a) (f : Forest α up) (a : α)
    (h : ∀ p, up a = some p → p < f.size) : Grows R f (f.push a h) := by
  intro i b hb
  refine ⟨b, ?_, rfl, hR b⟩
  have := f.lt_size_of_get? hb
  rw [get?_push, if_neg (by omega), hb]

theorem grows_update (hR : ∀ a, R a a) (f : Forest α up) (i : Nat) (g : α → α)
    (hg : ∀ a, up (g a) = up a) (h : ∀ a, R a (g a)) : Grows R f (f.update i g hg) := by
  intro j a ha
  rw [get?_update, ha]
  split
  · exact ⟨g a, rfl, hg a, h a⟩
  · exact ⟨a, rfl, rfl, hR a⟩

theorem Grows.size_le {f g : Forest α up} (hfg : Grows R f g) {i : Nat} (hi : i < f.size) :
    i < g.size := by
  obtain ⟨a, ha⟩ := f.exists_get? hi
  obtain ⟨b, hb, _, _⟩ := hfg i a ha
  exact g.lt_size_of_get? hb

theorem Below.grows {f g : Forest α up} (hfg : Grows R f g) {j i : Nat}
    (h : f.Below j i) : g.Below j i := by
  induction h with
  | refl => exact .refl _
  | up ha hp _ ih =>
    obtain ⟨b, hb, hup, _⟩ := hfg _ _ ha
    exact .up hb (hup.trans hp) ih

/-- A walk up is decided by the nodes it meets, so growth does not move it. -/
theorem Grows.root_eq {f g : Forest α up} (hfg : Grows R f g) {i : Nat} (hi : i < f.size) :
    g.root i = f.root i := by
  have hb := (f.below_root i).grows hfg
  rw [root_eq_of_below hb]
  obtain ⟨a, ha⟩ := f.exists_get? (f.root_lt_size hi)
  obtain ⟨b, hgb, hup, _⟩ := hfg _ a ha
  exact g.root_of_top hgb (hup.trans (f.up_root ha))

variable {latch : α → Prop}

theorem Shut.below {f : Forest α up} {j i : Nat} (hji : f.Below j i) (h : f.Shut latch i) :
    f.Shut latch j := by
  obtain ⟨k, a, hk, ha, hl⟩ := h
  exact ⟨k, a, hji.trans hk, ha, hl⟩

theorem Shut.grows (hR : ∀ a b, R a b → latch a → latch b) {f g : Forest α up}
    (hfg : Grows R f g) {i : Nat} (h : f.Shut latch i) : g.Shut latch i := by
  obtain ⟨k, a, hk, ha, hl⟩ := h
  obtain ⟨b, hb, _, hab⟩ := hfg k a ha
  exact ⟨k, b, hk.grows hfg, hb, hR a b hab hl⟩

end Forest

end Logic
