import Mathlib.Data.List.Nodup
import Mathlib.Data.List.Sort

/-! # Sorting, filtering and cutting lists

Insertion sort is stable, so that what is filtered may be sorted before or after
(`filter_insertionSort`); `StablySorted` says so without naming an algorithm.  To cut a list and
then filter it gives what filtering and then cutting gives, exactly when both filters agree on what
is kept and nothing comes after that (`filter_take_eq_iff`). -/

namespace Logic

variable {α : Type}

section

variable {r : α → α → Prop} [DecidableRel r]

theorem orderedInsert_of_forall {a : α} {l : List α} (h : ∀ b ∈ l, r a b) :
    l.orderedInsert r a = a :: l := by
  cases l with
  | nil => rfl
  | cons b l => exact if_pos (h b List.mem_cons_self)

theorem filter_orderedInsert [IsTrans α r] (p : α → Bool) (a : α) {l : List α}
    (hl : l.Pairwise r) :
    (l.orderedInsert r a).filter p =
      if p a then (l.filter p).orderedInsert r a else l.filter p := by
  induction l with
  | nil =>
    show List.filter p [a] = _
    by_cases ha : p a = true
    · rw [if_pos ha, List.filter_cons_of_pos ha]
      rfl
    · rw [if_neg ha, List.filter_cons_of_neg ha]
  | cons b l ih =>
    obtain ⟨hb, hl⟩ := List.pairwise_cons.1 hl
    by_cases hab : r a b
    · -- the element comes first, before everything that is kept
      have hall : ∀ c ∈ (b :: l).filter p, r a c := by
        intro c hc
        rcases List.mem_cons.1 (List.mem_filter.1 hc).1 with rfl | hc
        · exact hab
        · exact trans_of r hab (hb c hc)
      rw [orderedInsert_of_forall hall, List.orderedInsert_cons, if_pos hab]
      by_cases ha : p a = true
      · rw [if_pos ha, List.filter_cons_of_pos ha]
      · rw [if_neg ha, List.filter_cons_of_neg ha]
    · rw [List.orderedInsert_cons, if_neg hab]
      by_cases hpb : p b = true
      · rw [List.filter_cons_of_pos hpb, List.filter_cons_of_pos hpb, ih hl,
          List.orderedInsert_cons, if_neg hab]
        split <;> rfl
      · rw [List.filter_cons_of_neg hpb, List.filter_cons_of_neg hpb, ih hl]

theorem filter_insertionSort [Std.Total r] [IsTrans α r] (p : α → Bool) (l : List α) :
    (l.insertionSort r).filter p = (l.filter p).insertionSort r := by
  induction l with
  | nil => rfl
  | cons a l ih =>
    rw [List.insertionSort_cons, filter_orderedInsert p a (List.pairwise_insertionSort r l), ih]
    by_cases ha : p a = true
    · rw [if_pos ha, List.filter_cons_of_pos ha, List.insertionSort_cons]
    · rw [if_neg ha, List.filter_cons_of_neg ha]

variable (r) in
/-- The elements of `l` in order; those that tie with each other are as they are in `l`. -/
structure StablySorted (l sorted : List α) : Prop where
  perm : sorted.Perm l
  ordered : sorted.Pairwise r
  stable : ∀ a, sorted.filter (fun b => r a b ∧ r b a) = l.filter fun b => r a b ∧ r b a

variable (r) in
theorem stablySorted_insertionSort [Std.Total r] [IsTrans α r] (l : List α) :
    StablySorted r l (l.insertionSort r) where
  perm := List.perm_insertionSort r l
  ordered := List.pairwise_insertionSort r l
  stable a := by
    rw [filter_insertionSort]
    refine List.Pairwise.insertionSort_eq (List.pairwise_of_forall_mem_list fun b hb c hc => ?_)
    have hba := (of_decide_eq_true (List.mem_filter.1 hb).2).2
    have hac := (of_decide_eq_true (List.mem_filter.1 hc).2).1
    exact trans_of r hba hac

end

/-- What is filtered and then cut: all of the first part, and then of the rest. -/
theorem take_filter (q : α → Bool) (l : List α) (k : Nat) :
    (l.filter q).take k =
      (l.take k).filter q ++ ((l.drop k).filter q).take (k - ((l.take k).filter q).length) := by
  have hsplit : l.filter q = (l.take k).filter q ++ (l.drop k).filter q := by
    rw [← List.filter_append, List.take_append_drop]
  have hle : ((l.take k).filter q).length ≤ k :=
    (List.length_filter_le q _).trans (List.length_take_le k l)
  rw [hsplit, List.take_append, List.take_of_length_le hle]

theorem filter_take_eq_iff {p q : α → Bool} {l : List α} (k : Nat) :
    (l.take k).filter p = (l.filter q).take k ↔
      (∀ x ∈ l.take k, p x = q x) ∧
        ((∀ x ∈ l.take k, q x = true) ∨ ∀ x ∈ l.drop k, q x = false) := by
  rw [take_filter]
  constructor
  · intro h
    have hagree : ∀ x ∈ l.take k, p x = q x := by
      intro x hx
      rw [Bool.eq_iff_iff]
      constructor
      · intro hp
        have hmem := List.mem_filter.2 ⟨hx, hp⟩
        rw [h] at hmem
        rcases List.mem_append.1 hmem with hmem | hmem
        · exact (List.mem_filter.1 hmem).2
        · exact (List.mem_filter.1 (List.mem_of_mem_take hmem)).2
      · intro hq
        have hmem := List.mem_append_left (((l.drop k).filter q).take
          (k - ((l.take k).filter q).length)) (List.mem_filter.2 ⟨hx, hq⟩)
        rw [← h] at hmem
        exact (List.mem_filter.1 hmem).2
    refine ⟨hagree, ?_⟩
    rw [List.filter_congr hagree, List.self_eq_append_right] at h
    by_cases hall : ∀ x ∈ l.take k, q x = true
    · exact .inl hall
    · -- there is room left after the first part, and nothing to fill it
      right
      have hlt : ((l.take k).filter q).length < k := by
        refine lt_of_lt_of_le ?_ (List.length_take_le k l)
        refine lt_of_le_of_ne (List.length_filter_le q _) fun heq => hall ?_
        exact List.filter_eq_self.1 (List.filter_sublist.eq_of_length heq)
      rw [List.take_eq_nil_iff] at h
      have hnil := h.resolve_left (by omega)
      intro x hx
      simpa using List.filter_eq_nil_iff.1 hnil x hx
  · rintro ⟨hagree, hor⟩
    have hfilter : (l.take k).filter p = (l.take k).filter q := List.filter_congr hagree
    rw [hfilter, List.self_eq_append_right]
    rcases hor with hall | hnone
    · rw [List.filter_eq_self.2 hall]
      by_cases hlen : k ≤ l.length
      · rw [List.length_take_of_le hlen, Nat.sub_self, List.take_zero]
      · rw [List.drop_of_length_le (by omega)]
        simp
    · have hnil : (l.drop k).filter q = [] := by
        rw [List.filter_eq_nil_iff]
        intro x hx
        simp [hnone x hx]
      rw [hnil, List.take_nil]

end Logic
