import Mathlib.Data.List.Basic

/-! # Lists of records

A list of records to which new ones are appended, and in which single ones are changed, so that
a record keeps its index.  `Rows R l l'` says that each record of `l` is one of `l'`, changed at
most as `R` allows. -/

namespace Logic

section

variable {α β : Type}

theorem getElem?_modify_eq {l : List α} {i j : Nat} {f : α → α} {y : α} :
    (l.modify i f)[j]? = some y ↔ ∃ x, l[j]? = some x ∧ y = if i = j then f x else x := by
  rw [List.getElem?_modify]
  constructor
  · intro h
    obtain ⟨x, hx, rfl⟩ := Option.map_eq_some_iff.mp h
    exact ⟨x, hx, rfl⟩
  · rintro ⟨x, hx, rfl⟩
    rw [hx]
    rfl

theorem getElem?_snoc_eq {l : List α} {a y : α} {j : Nat} :
    (l ++ [a])[j]? = some y ↔ l[j]? = some y ∨ j = l.length ∧ y = a := by
  rcases Nat.lt_trichotomy j l.length with h | rfl | h
  · rw [List.getElem?_append_left h]
    constructor
    · exact .inl
    · rintro (h' | ⟨rfl, _⟩)
      · exact h'
      · omega
  · rw [List.getElem?_append_right (Nat.le_refl _), Nat.sub_self,
      List.getElem?_eq_none (Nat.le_refl l.length)]
    simp [eq_comm]
  · rw [List.getElem?_eq_none (by simp; omega), List.getElem?_eq_none (by omega)]
    simp
    omega

theorem modify_snoc (l : List α) (a : α) (f : α → α) :
    (l ++ [a]).modify l.length f = l ++ [f a] := by
  induction l with
  | nil => rfl
  | cons b l ih =>
    show b :: (l ++ [a]).modify l.length f = b :: (l ++ [f a])
    rw [ih]

/-- A change of one record that leaves `g` alone. -/
theorem map_modify_eq {g : α → β} {f : α → α} (hf : ∀ x, g (f x) = g x) (l : List α) (i : Nat) :
    (l.modify i f).map g = l.map g := by
  refine List.ext_getElem? ?_
  intro j
  rw [List.getElem?_map, List.getElem?_map, List.getElem?_modify]
  cases l[j]? with
  | none => rfl
  | some y =>
    show some (g (if i = j then f y else y)) = some (g y)
    split
    · rw [hf]
    · rfl

/-- Two records with the same value of `g` are one where these values differ pairwise. -/
theorem index_unique {g : α → β} {l : List α} (h : (l.map g).Nodup) {i j : Nat} {x y : α}
    (hx : l[i]? = some x) (hy : l[j]? = some y) (hxy : g x = g y) : i = j := by
  have hi : (l.map g)[i]? = some (g x) := by rw [List.getElem?_map, hx]; rfl
  have hj : (l.map g)[j]? = some (g x) := by rw [List.getElem?_map, hy, hxy]; rfl
  have hlt : i < (l.map g).length := (List.getElem?_eq_some_iff.mp hi).1
  exact (List.getElem?_inj hlt h).mp (hi.trans hj.symm)

def Rows (R : α → α → Prop) (l l' : List α) : Prop :=
  ∀ (i : Nat) (x : α), l[i]? = some x → ∃ y, l'[i]? = some y ∧ R x y

variable {R : α → α → Prop} {l l' l'' : List α}

theorem Rows.refl (hR : ∀ x, R x x) (l : List α) : Rows R l l := fun _ x hx => ⟨x, hx, hR x⟩

theorem Rows.trans (hR : ∀ x y z, R x y → R y z → R x z) (h : Rows R l l') (h' : Rows R l' l'') :
    Rows R l l'' := by
  intro i x hx
  obtain ⟨y, hy, hxy⟩ := h i x hx
  obtain ⟨z, hz, hyz⟩ := h' i y hy
  exact ⟨z, hz, hR x y z hxy hyz⟩

theorem Rows.modify (hR : ∀ x, R x x) {i : Nat} {f : α → α} (hf : ∀ x, l[i]? = some x → R x (f x)) :
    Rows R l (l.modify i f) := by
  intro j x hx
  refine ⟨_, getElem?_modify_eq.mpr ⟨x, hx, rfl⟩, ?_⟩
  split
  · rename_i hij
    subst hij
    exact hf x hx
  · exact hR x

theorem Rows.snoc (hR : ∀ x, R x x) (l : List α) (a : α) : Rows R l (l ++ [a]) :=
  fun _ x hx => ⟨x, getElem?_snoc_eq.mpr (.inl hx), hR x⟩

end

end Logic
