import Mathlib.Data.List.Basic
import Mathlib.Data.List.Forall2

/-! # Lists in batches

`cut size xs` is `xs` in pieces of `size` items, the last one with what is left. Whoever answers
every piece with a list of its length has answered every item at its own place (`aligned_iff`). -/

namespace Logic

variable {α β : Type}

/-- `[xs[i : i + size] for i in range(0, len(xs), size)]` -/
def cut (size : Nat) (xs : List α) : List (List α) :=
  (List.range ((xs.length + size - 1) / size)).map fun i => (xs.drop (i * size)).take size

theorem cut_nil {size : Nat} (hsize : 0 < size) : cut size ([] : List α) = [] := by
  unfold cut
  rw [List.length_nil, Nat.div_eq_of_lt (by omega)]
  rfl

theorem cut_cons {size : Nat} (hsize : 0 < size) {xs : List α} (hxs : xs ≠ []) :
    cut size xs = xs.take size :: cut size (xs.drop size) := by
  have hlen := List.length_pos_of_ne_nil hxs
  have hcount : (xs.length + size - 1) / size = (xs.length - size + size - 1) / size + 1 := by
    rw [← Nat.add_div_right _ hsize]
    by_cases h : size ≤ xs.length
    · congr 1
      omega
    · rw [Nat.div_eq_of_lt_le (k := 1) (by omega) (by omega),
        Nat.div_eq_of_lt_le (k := 1) (by omega) (by omega)]
  unfold cut
  rw [hcount, List.range_succ_eq_map, List.map_cons, List.map_map, List.length_drop]
  simp only [Nat.zero_mul, List.drop_zero, List.cons.injEq, true_and]
  refine List.map_congr_left fun i _ => ?_
  show (xs.drop ((i + 1) * size)).take size = ((xs.drop size).drop (i * size)).take size
  rw [List.drop_drop, Nat.succ_mul, Nat.add_comm]

/-- Induction on the pieces of a list. -/
theorem cut_induction {size : Nat} (hsize : 0 < size) {motive : List α → Prop} (nil : motive [])
    (cons : ∀ xs, xs ≠ [] → motive (xs.drop size) → motive xs) (xs : List α) : motive xs := by
  induction hn : xs.length using Nat.strongRecOn generalizing xs with
  | ind n ih =>
    by_cases hxs : xs = []
    · rw [hxs]
      exact nil
    · have hlen := List.length_pos_of_ne_nil hxs
      refine cons xs hxs (ih _ ?_ _ rfl)
      rw [List.length_drop]
      omega

theorem flatten_cut {size : Nat} (hsize : 0 < size) (xs : List α) :
    (cut size xs).flatten = xs := by
  induction xs using cut_induction hsize with
  | nil => rw [cut_nil hsize, List.flatten_nil]
  | cons xs hxs ih => rw [cut_cons hsize hxs, List.flatten_cons, ih, List.take_append_drop]

/-- No piece is empty or larger than the others. -/
theorem length_of_mem_cut {size : Nat} (hsize : 0 < size) {xs piece : List α}
    (h : piece ∈ cut size xs) : 0 < piece.length ∧ piece.length ≤ size := by
  induction xs using cut_induction hsize with
  | nil =>
    rw [cut_nil hsize] at h
    cases h
  | cons xs hxs ih =>
    rw [cut_cons hsize hxs] at h
    cases h with
    | head =>
      have hlen := List.length_pos_of_ne_nil hxs
      rw [List.length_take]
      omega
    | tail _ h => exact ih h

/-! ## Answers to the pieces -/

/-- What stands at place `i` of the list, when `answers` are the answers to its pieces. -/
def answer (size : Nat) (answers : List (List β)) (i : Nat) : Option β :=
  (answers[i / size]?).bind fun vs => vs[i % size]?

/-- Every piece is answered by a list of its length. -/
def Aligned (pieces : List (List α)) (answers : List (List β)) : Prop :=
  List.Forall₂ (fun piece vs => vs.length = piece.length) pieces answers

theorem Aligned.length_flatten {pieces : List (List α)} {answers : List (List β)}
    (h : Aligned pieces answers) : answers.flatten.length = pieces.flatten.length := by
  induction h with
  | nil => rfl
  | cons hp _ ih => rw [List.flatten_cons, List.flatten_cons, List.length_append,
      List.length_append, hp, ih]

theorem answer_of_lt {size i : Nat} (hi : i < size) (vs : List β) (answers : List (List β)) :
    answer size (vs :: answers) i = vs[i]? := by
  unfold answer
  rw [Nat.div_eq_of_lt hi, Nat.mod_eq_of_lt hi]
  rfl

theorem answer_add {size : Nat} (hsize : 0 < size) (vs : List β) (answers : List (List β))
    (i : Nat) : answer size (vs :: answers) (i + size) = answer size answers i := by
  unfold answer
  rw [Nat.add_div_right i hsize, Nat.add_mod_right, List.getElem?_cons_succ]

/-- The answers put together hold every answer at its place. -/
theorem Aligned.getElem? {size : Nat} (hsize : 0 < size) {xs : List α} {answers : List (List β)}
    (h : Aligned (cut size xs) answers) {i : Nat} (hi : i < xs.length) :
    answers.flatten[i]? = answer size answers i := by
  induction xs using cut_induction hsize generalizing answers i with
  | nil => cases hi
  | cons xs hxs ih =>
    rw [cut_cons hsize hxs] at h
    cases h with
    | @cons _ vs _ rest hvs hrest =>
      rw [List.length_take] at hvs
      rw [List.flatten_cons]
      by_cases hlt : i < size
      · rw [answer_of_lt hlt, List.getElem?_append_left (by omega)]
      · obtain ⟨j, rfl⟩ : ∃ j, i = j + size := ⟨i - size, by omega⟩
        have hj : j < (xs.drop size).length := by
          rw [List.length_drop]
          omega
        rw [answer_add hsize, List.getElem?_append_right (by omega), ← ih hrest hj]
        congr 1
        omega

theorem forall₂_of_answer {size : Nat} (hsize : 0 < size) {xs : List α} {answers : List (List β)}
    (hlen : answers.length = (cut size xs).length)
    (h : ∀ i < xs.length, (answer size answers i).isSome) :
    List.Forall₂ (fun piece vs => piece.length ≤ vs.length) (cut size xs) answers := by
  induction xs using cut_induction hsize generalizing answers with
  | nil =>
    rw [cut_nil hsize] at hlen ⊢
    rw [List.eq_nil_of_length_eq_zero hlen]
    exact .nil
  | cons xs hxs ih =>
    rw [cut_cons hsize hxs] at hlen ⊢
    cases answers with
    | nil => cases hlen
    | cons vs rest =>
      refine .cons ?_ (ih (Nat.succ.inj hlen) fun i hi => ?_)
      · -- the last place of the piece is answered
        have hpos := List.length_pos_of_ne_nil hxs
        rw [List.length_take]
        have hlast := h (min size xs.length - 1) (by omega)
        rw [answer_of_lt (by omega)] at hlast
        obtain ⟨v, hv⟩ := Option.isSome_iff_exists.mp hlast
        have := (List.getElem?_eq_some_iff.mp hv).1
        omega
      · rw [List.length_drop] at hi
        have hnext := h (i + size) (by omega)
        rwa [answer_add hsize] at hnext

theorem length_flatten_le {pieces : List (List α)} {answers : List (List β)}
    (h : List.Forall₂ (fun piece vs => piece.length ≤ vs.length) pieces answers) :
    pieces.flatten.length ≤ answers.flatten.length := by
  induction h with
  | nil => exact Nat.le_refl _
  | cons hp _ ih =>
    rw [List.flatten_cons, List.flatten_cons, List.length_append, List.length_append]
    omega

theorem aligned_of_le {pieces : List (List α)} {answers : List (List β)}
    (h : List.Forall₂ (fun piece vs => piece.length ≤ vs.length) pieces answers)
    (hlen : answers.flatten.length = pieces.flatten.length) : Aligned pieces answers := by
  induction h with
  | nil => exact .nil
  | cons hp hrest ih =>
    have hle := length_flatten_le hrest
    rw [List.flatten_cons, List.flatten_cons, List.length_append, List.length_append] at hlen
    exact .cons (by omega) (ih (by omega))

/-- There is one answer for every item, each at its own place, exactly when every piece is
answered by a list of its length. -/
theorem aligned_iff {size : Nat} (hsize : 0 < size) (xs : List α) {answers : List (List β)}
    (hlen : answers.length = (cut size xs).length) :
    Aligned (cut size xs) answers ↔
      answers.flatten.length = xs.length ∧
        ∀ i < xs.length, ∃ v, answers.flatten[i]? = some v ∧ answer size answers i = some v := by
  constructor
  · intro h
    have hflat := h.length_flatten
    rw [flatten_cut hsize] at hflat
    refine ⟨hflat, fun i hi => ?_⟩
    have hv := List.getElem?_eq_getElem (hflat.symm ▸ hi)
    exact ⟨_, hv, (h.getElem? hsize hi).symm.trans hv⟩
  · rintro ⟨hflat, hall⟩
    refine aligned_of_le (forall₂_of_answer hsize hlen fun i hi => ?_) ?_
    · obtain ⟨v, -, hv⟩ := hall i hi
      rw [hv]
      rfl
    · rw [flatten_cut hsize, hflat]

end Logic
