import Mathlib.Data.List.Dedup
import Mathlib.Data.List.Induction
import ProjectMaya.Logic.Assoc

/-! # Groups

The elements of a list that have a key, collected under their keys in one pass.  A group is what a
filter by its key keeps (`mem_groups`), so that a function of groups which does not see their order
gives the same on every permutation of the list (`perm_map_groups`). -/

namespace Logic

namespace Assoc

variable {κ ν : Type} [DecidableEq κ]

theorem keys_set (d : Assoc κ ν) (k : κ) (v : ν) :
    (d.set k v).map Prod.fst =
      if k ∈ d.map Prod.fst then d.map Prod.fst else d.map Prod.fst ++ [k] := by
  induction d with
  | nil => rfl
  | cons p d ih =>
    obtain ⟨k', v'⟩ := p
    unfold set
    by_cases hk : k' = k
    · rw [if_pos hk, if_pos (hk ▸ List.mem_cons_self)]
      rfl
    · rw [if_neg hk, List.map_cons, List.map_cons, ih]
      by_cases hmem : k ∈ d.map Prod.fst
      · rw [if_pos hmem, if_pos (List.mem_cons_of_mem k' hmem)]
      · rw [if_neg hmem, if_neg]
        · rfl
        · intro hcons
          rcases List.mem_cons.1 hcons with h | h
          · exact hk h.symm
          · exact hmem h

theorem nodup_set {d : Assoc κ ν} (h : (d.map Prod.fst).Nodup) (k : κ) (v : ν) :
    ((d.set k v).map Prod.fst).Nodup := by
  rw [keys_set]
  split
  · exact h
  · next hnew =>
    rw [List.nodup_append]
    refine ⟨h, List.nodup_singleton k, ?_⟩
    rintro a ha b hb rfl
    exact hnew (List.mem_singleton.1 hb ▸ ha)

/-- In a dictionary a key has one value. -/
theorem mem_iff_get? {d : Assoc κ ν} (h : (d.map Prod.fst).Nodup) (k : κ) (v : ν) :
    (k, v) ∈ d ↔ d.get? k = some v := by
  induction d with
  | nil => simp
  | cons p d ih =>
    obtain ⟨k', v'⟩ := p
    obtain ⟨hnew, hnodup⟩ := List.nodup_cons.1 h
    unfold get?
    rw [List.mem_cons]
    by_cases hk : k' = k
    · subst hk
      rw [if_pos rfl]
      constructor
      · rintro (heq | hmem)
        · cases heq
          rfl
        · exact absurd (List.mem_map_of_mem (f := Prod.fst) hmem) hnew
      · intro hv
        rw [Option.some.inj hv]
        exact .inl rfl
    · rw [if_neg hk, ← ih hnodup]
      constructor
      · rintro (heq | hmem)
        · cases heq
          exact absurd rfl hk
        · exact hmem
      · exact .inr

/-- What is under a key. -/
theorem filter_key {d : Assoc κ ν} (h : (d.map Prod.fst).Nodup) {k : κ} {v : ν} (hmem : (k, v) ∈ d) :
    d.filter (fun p => p.1 = k) = [(k, v)] := by
  induction d with
  | nil => cases hmem
  | cons p d ih =>
    obtain ⟨hnew, hnodup⟩ := List.nodup_cons.1 h
    rcases List.mem_cons.1 hmem with rfl | hmem
    · have hnone : d.filter (fun p => p.1 = k) = [] := by
        rw [List.filter_eq_nil_iff]
        intro q hq hkey
        exact hnew (List.mem_map.2 ⟨q, hq, of_decide_eq_true hkey⟩)
      rw [List.filter_cons, if_pos (decide_eq_true rfl), hnone]
    · have hne : p.1 ≠ k := fun heq =>
        hnew (List.mem_map.2 ⟨(k, v), hmem, heq.symm⟩)
      rw [List.filter_cons, if_neg (by simpa using hne), ih hnodup hmem]

end Assoc

variable {α κ : Type} [DecidableEq κ]

/-- `groups.setdefault(key, []).append(a)`, for the elements that have a key. -/
def groups (key : α → Option κ) (l : List α) : Assoc κ (List α) :=
  l.foldl (fun g a =>
    match key a with
    | some k => g.set k ((g.get? k).getD [] ++ [a])
    | none => g) []

variable {key : α → Option κ}

theorem groups_snoc_some {l : List α} {a : α} {k : κ} (h : key a = some k) :
    groups key (l ++ [a]) =
      (groups key l).set k (((groups key l).get? k).getD [] ++ [a]) := by
  unfold groups
  rw [List.foldl_append, List.foldl_cons, List.foldl_nil, h]

theorem groups_snoc_none {l : List α} {a : α} (h : key a = none) :
    groups key (l ++ [a]) = groups key l := by
  unfold groups
  rw [List.foldl_append, List.foldl_cons, List.foldl_nil, h]

theorem nodup_groups (l : List α) : ((groups key l).map Prod.fst).Nodup := by
  induction l using List.reverseRecOn with
  | nil => exact List.nodup_nil
  | append_singleton l a ih =>
    cases h : key a with
    | none =>
      rw [groups_snoc_none h]
      exact ih
    | some k =>
      rw [groups_snoc_some h]
      exact Assoc.nodup_set ih k _

/-- The elements of a key. -/
def having (key : α → Option κ) (k : κ) (l : List α) : List α := l.filter fun a => key a = some k

theorem mem_having {k : κ} {l : List α} {a : α} : a ∈ having key k l ↔ a ∈ l ∧ key a = some k := by
  unfold having
  rw [List.mem_filter, decide_eq_true_iff]

theorem get?_groups (l : List α) (k : κ) :
    (groups key l).get? k = if having key k l = [] then none else some (having key k l) := by
  induction l using List.reverseRecOn with
  | nil => rfl
  | append_singleton l a ih =>
    have hsnoc : having key k (l ++ [a]) =
        having key k l ++ if key a = some k then [a] else [] := by
      unfold having
      rw [List.filter_append, List.filter_singleton]
      by_cases hk : key a = some k
      · simp [hk]
      · simp [hk]
    cases h : key a with
    | none =>
      rw [h, if_neg (Option.some_ne_none k).symm, List.append_nil] at hsnoc
      rw [groups_snoc_none h, ih, hsnoc]
    | some k' =>
      rw [groups_snoc_some h, Assoc.get?_set]
      by_cases hk : k = k'
      · subst hk
        rw [h, if_pos rfl] at hsnoc
        have hne : having key k l ++ [a] ≠ [] :=
          List.append_ne_nil_of_right_ne_nil _ (List.cons_ne_nil a [])
        rw [if_pos rfl, ih, hsnoc, if_neg hne]
        by_cases hnil : having key k l = []
        · rw [if_pos hnil, hnil]
          rfl
        · rw [if_neg hnil]
          rfl
      · rw [h, if_neg fun heq => hk (Option.some.inj heq).symm, List.append_nil] at hsnoc
        rw [if_neg hk, ih, hsnoc]

/-- **A group is what has its key.** -/
theorem mem_groups {l : List α} {k : κ} {g : List α} :
    (k, g) ∈ groups key l ↔ g = having key k l ∧ ∃ a ∈ l, key a = some k := by
  rw [Assoc.mem_iff_get? (nodup_groups l), get?_groups]
  constructor
  · intro h
    split at h
    · cases h
    · next hne =>
      obtain ⟨a, ha⟩ := List.exists_mem_of_ne_nil _ hne
      exact ⟨(Option.some.inj h).symm, a, mem_having.1 ha⟩
  · rintro ⟨rfl, a, ha, hkey⟩
    rw [if_neg (List.ne_nil_of_mem (mem_having.2 ⟨ha, hkey⟩))]

theorem having_perm {l l' : List α} (h : l.Perm l') (k : κ) :
    (having key k l).Perm (having key k l') := h.filter _

/-- What does not see the order of a group is the same on every permutation. -/
theorem perm_map_groups {β : Type} {f : κ → List α → β} {l l' : List α} (h : l.Perm l')
    (hf : ∀ k, f k (having key k l) = f k (having key k l')) :
    ((groups key l).map fun g => f g.1 g.2).Perm ((groups key l').map fun g => f g.1 g.2) := by
  have hkeys : ((groups key l).map Prod.fst).Perm ((groups key l').map Prod.fst) := by
    rw [List.perm_ext_iff_of_nodup (nodup_groups l) (nodup_groups l')]
    intro k
    have hmem : ∀ m : List α, k ∈ (groups key m).map Prod.fst ↔ ∃ a ∈ m, key a = some k := by
      intro m
      rw [List.mem_map]
      constructor
      · rintro ⟨⟨k', g⟩, hg, rfl⟩
        exact (mem_groups.1 hg).2
      · exact fun hex => ⟨(k, having key k m), mem_groups.2 ⟨rfl, hex⟩, rfl⟩
    rw [hmem, hmem]
    refine exists_congr fun a => ?_
    rw [h.mem_iff]
  have hmap : ∀ m : List α, ((groups key m).map fun g => f g.1 g.2) =
      ((groups key m).map Prod.fst).map fun k => f k (having key k m) := by
    intro m
    rw [List.map_map]
    refine List.map_congr_left fun g hg => ?_
    rw [(mem_groups.1 (show (g.1, g.2) ∈ groups key m from hg)).1]
    rfl
  rw [hmap, hmap]
  have hsame : (fun k => f k (having key k l)) = fun k => f k (having key k l') := funext hf
  rw [hsame]
  exact hkeys.map _

end Logic
