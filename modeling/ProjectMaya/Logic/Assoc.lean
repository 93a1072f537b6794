import Mathlib.Data.List.Basic

/-! # Dictionaries as lists

A dictionary is the list of its keys and values, in the order in which the keys were put in;
`set` is `d[key] = value`. -/

namespace Logic

abbrev Assoc (κ ν : Type) := List (κ × ν)

namespace Assoc

variable {κ ν : Type} [DecidableEq κ]

def get? : Assoc κ ν → κ → Option ν
  | [], _ => none
  | (k', v) :: d, k => if k' = k then some v else get? d k

def set : Assoc κ ν → κ → ν → Assoc κ ν
  | [], k, v => [(k, v)]
  | (k', v') :: d, k, v => if k' = k then (k', v) :: d else (k', v') :: set d k v

@[simp] theorem get?_nil (k : κ) : get? ([] : Assoc κ ν) k = none := rfl

@[simp] theorem get?_set_self (d : Assoc κ ν) (k : κ) (v : ν) : (d.set k v).get? k = some v := by
  induction d with
  | nil => simp [set, get?]
  | cons p d ih =>
    obtain ⟨k', v'⟩ := p
    unfold set
    by_cases h : k' = k
    · rw [if_pos h]
      simp [get?, h]
    · rw [if_neg h]
      simp [get?, h, ih]

theorem get?_set_ne (d : Assoc κ ν) {k k' : κ} (v : ν) (h : k' ≠ k) :
    (d.set k v).get? k' = d.get? k' := by
  induction d with
  | nil => simp [set, get?, Ne.symm h]
  | cons p d ih =>
    obtain ⟨k'', v'⟩ := p
    unfold set
    by_cases hk : k'' = k
    · subst hk
      simp [get?, Ne.symm h]
    · rw [if_neg hk]
      simp only [get?]
      rw [ih]

theorem get?_set (d : Assoc κ ν) (k k' : κ) (v : ν) :
    (d.set k v).get? k' = if k' = k then some v else d.get? k' := by
  by_cases h : k' = k
  · rw [if_pos h, h, get?_set_self]
  · rw [if_neg h, get?_set_ne d v h]

/-- A value that is there is put in again. -/
theorem set_self {d : Assoc κ ν} {k : κ} {v : ν} (h : d.get? k = some v) : d.set k v = d := by
  induction d with
  | nil => cases h
  | cons p d ih =>
    obtain ⟨k', v'⟩ := p
    unfold set
    unfold get? at h
    by_cases hk : k' = k
    · rw [if_pos hk] at h ⊢
      rw [Option.some.inj h]
    · rw [if_neg hk] at h ⊢
      rw [ih h]

end Assoc

end Logic
