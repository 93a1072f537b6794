import Mathlib.Algebra.GroupWithZero.Nat
import Mathlib.Data.List.Basic

/-! # Spans of a text

`Covers a spans b`: the spans follow each other from `a` to `b` without a gap or an overlap, so
that their slices put together are the text from `a` to `b`. `finditer` is the list of the
leftmost matches that do not overlap, for a pattern that takes no empty match. -/

namespace Logic

/-- A half-open range of positions, `(start, end)`. -/
abbrev Span := Nat × Nat

def Covers : Nat → List Span → Nat → Prop
  | a, [], b => a = b
  | a, s :: rest, b => s.1 = a ∧ s.1 ≤ s.2 ∧ Covers s.2 rest b

theorem Covers.le {spans : List Span} {a b : Nat} (h : Covers a spans b) : a ≤ b := by
  induction spans generalizing a with
  | nil => exact Nat.le_of_eq h
  | cons s rest ih =>
    obtain ⟨hs, hle, hrest⟩ := h
    have := ih hrest
    omega

theorem Covers.append {l r : List Span} {a b c : Nat} (hl : Covers a l b) (hr : Covers b r c) :
    Covers a (l ++ r) c := by
  induction l generalizing a with
  | nil =>
    have hab : a = b := hl
    rw [hab]
    exact hr
  | cons s rest ih => exact ⟨hl.1, hl.2.1, ih hl.2.2⟩

theorem Covers.snoc {l : List Span} {a b c : Nat} (hl : Covers a l b) (h : b ≤ c) :
    Covers a (l ++ [(b, c)]) c :=
  hl.append ⟨rfl, h, rfl⟩

theorem Covers.mem {spans : List Span} {a b : Nat} (h : Covers a spans b) {s : Span}
    (hs : s ∈ spans) : s.1 ≤ s.2 ∧ s.2 ≤ b := by
  induction spans generalizing a with
  | nil => cases hs
  | cons t rest ih =>
    cases hs with
    | head => exact ⟨h.2.1, h.2.2.le⟩
    | tail _ hs => exact ih h.2.2 hs

theorem Covers.getLast {spans : List Span} {a b : Nat} (h : Covers a spans b) {s : Span}
    (hs : s ∈ spans.getLast?) : s.2 = b := by
  induction spans generalizing a with
  | nil => cases hs
  | cons t rest ih =>
    cases rest with
    | nil =>
      have hst : t = s := by simpa using hs
      rw [← hst]
      exact h.2.2
    | cons u rest => exact ih h.2.2 (by simpa using hs)

/-! ## How much they cover -/

/-- The lengths of the spans together. -/
def total (spans : List Span) : Nat := (spans.map fun s => s.2 - s.1).sum

@[simp] theorem total_nil : total [] = 0 := rfl

@[simp] theorem total_append (l r : List Span) : total (l ++ r) = total l + total r := by
  simp [total]

@[simp] theorem total_singleton (a b : Nat) : total [(a, b)] = b - a := by simp [total]

theorem Covers.total_eq {spans : List Span} {a b : Nat} (h : Covers a spans b) :
    total spans = b - a := by
  induction spans generalizing a with
  | nil =>
    have hab : a = b := h
    simp [hab]
  | cons s rest ih =>
    obtain ⟨hs, hle, hrest⟩ := h
    have hb := hrest.le
    have ht : total (s :: rest) = s.2 - s.1 + total rest := by simp [total]
    rw [ht, ih hrest]
    omega

/-! ## Spans with places left out -/

/-- The spans lead from `0` to `b`, with `lost` places between them left out. -/
inductive Leaves : List Span → Nat → Nat → Prop where
  | start : Leaves [] 0 0
  | emit {spans : List Span} {a b lost : Nat} :
      Leaves spans a lost → a ≤ b → Leaves (spans ++ [(a, b)]) b lost
  | skip {spans : List Span} {a b lost : Nat} :
      Leaves spans a lost → a ≤ b → Leaves spans b (lost + (b - a))

theorem Leaves.append {l r : List Span} {a b lost : Nat} (hl : Leaves l a lost)
    (hr : Covers a r b) : Leaves (l ++ r) b lost := by
  induction r generalizing l a with
  | nil =>
    have hab : a = b := hr
    rw [List.append_nil, ← hab]
    exact hl
  | cons s rest ih =>
    obtain ⟨hs, hle, hrest⟩ := hr
    have hsa : s = (a, s.2) := Prod.ext hs rfl
    have hemit : Leaves (l ++ [s]) s.2 lost := by
      rw [hsa]
      exact hl.emit (by omega)
    have := ih hemit hrest
    rwa [List.append_assoc] at this

theorem Leaves.total_add {spans : List Span} {b lost : Nat} (h : Leaves spans b lost) :
    total spans + lost = b := by
  induction h with
  | start => rfl
  | emit _ hle ih =>
    rw [total_append, total_singleton]
    omega
  | skip _ hle ih => omega

theorem Leaves.covers {spans : List Span} {b lost : Nat} (h : Leaves spans b lost)
    (h0 : lost = 0) : Covers 0 spans b := by
  induction h with
  | start => rfl
  | emit _ hle ih => exact (ih h0).snoc hle
  | @skip spans a b lost _ hle ih =>
    have hab : a = b := by omega
    rw [← hab]
    exact ih (by omega)

/-- Nothing is left out exactly when the spans cover everything. -/
theorem Leaves.covers_iff {spans : List Span} {b lost : Nat} (h : Leaves spans b lost) :
    Covers 0 spans b ↔ lost = 0 := by
  constructor
  · intro hc
    have ht := hc.total_eq
    have ha := h.total_add
    omega
  · exact h.covers

/-! ## The text in a span -/

section

variable {α : Type}

def slice (xs : List α) (s : Span) : List α := (xs.take s.2).drop s.1

theorem length_slice (xs : List α) (s : Span) : (slice xs s).length = min s.2 xs.length - s.1 := by
  simp [slice]

theorem slice_append (xs : List α) {a b c : Nat} (hab : a ≤ b) (hbc : b ≤ c) :
    slice xs (a, b) ++ slice xs (b, c) = slice xs (a, c) := by
  have hb : xs.take b = (xs.take c).take b := by rw [List.take_take, Nat.min_eq_left hbc]
  show (xs.take b).drop a ++ (xs.take c).drop b = (xs.take c).drop a
  rw [hb]
  generalize xs.take c = ys
  have hd : ys.drop b = (ys.drop a).drop (b - a) := by
    rw [List.drop_drop]
    congr 1
    omega
  rw [List.drop_take, hd, List.take_append_drop]

theorem Covers.slices (xs : List α) {spans : List Span} {a b : Nat} (h : Covers a spans b) :
    (spans.map (slice xs)).flatten = slice xs (a, b) := by
  induction spans generalizing a with
  | nil =>
    have hab : a = b := h
    subst hab
    simp [slice]
  | cons s rest ih =>
    obtain ⟨hs, hle, hrest⟩ := h
    rw [List.map_cons, List.flatten_cons, ih hrest]
    have hsa : s = (a, s.2) := Prod.ext hs rfl
    rw [hsa] at hle ⊢
    exact slice_append xs hle hrest.le

/-- Spans that cover a text hold all of it, each place once. -/
theorem Covers.text (xs : List α) {spans : List Span} (h : Covers 0 spans xs.length) :
    (spans.map (slice xs)).flatten = xs := by
  rw [h.slices xs]
  simp [slice]

/-! ## Matches of a pattern

`m xs` is the length of the match at the beginning of `xs`. -/

variable (m : List α → Option Nat)

/-- The matches in a text whose first place is `off`, the next `skip` places being matched
already. -/
def finditer : Nat → Nat → List α → List Span
  | _, _, [] => []
  | off, skip + 1, _ :: xs => finditer (off + 1) skip xs
  | off, 0, x :: xs =>
    match m (x :: xs) with
    | some n => (off, off + n) :: finditer (off + 1) (n - 1) xs
    | none => finditer (off + 1) 0 xs

/-- A match takes something, and no more than there is. -/
def Proper : Prop := ∀ xs n, m xs = some n → 0 < n ∧ n ≤ xs.length

variable {m}

/-- The matches come one after the other, within the text. -/
theorem finditer_within (hm : Proper m) (xs : List α) (off skip : Nat) (hs : skip ≤ xs.length) :
    List.Pairwise (fun s t : Span => s.2 ≤ t.1) (finditer m off skip xs) ∧
      ∀ s ∈ finditer m off skip xs, off + skip ≤ s.1 ∧ s.1 ≤ s.2 ∧ s.2 ≤ off + xs.length := by
  induction xs generalizing off skip with
  | nil => simp [finditer]
  | cons x xs ih =>
    rw [List.length_cons] at hs ⊢
    cases skip with
    | succ k =>
      obtain ⟨hp, hb⟩ := ih (off + 1) k (by omega)
      refine ⟨hp, fun s hmem => ?_⟩
      have := hb s hmem
      omega
    | zero =>
      unfold finditer
      cases hx : m (x :: xs) with
      | none =>
        obtain ⟨hp, hb⟩ := ih (off + 1) 0 (by omega)
        refine ⟨hp, fun s hmem => ?_⟩
        have := hb s hmem
        omega
      | some n =>
        obtain ⟨hpos, hle⟩ := hm _ _ hx
        rw [List.length_cons] at hle
        obtain ⟨hp, hb⟩ := ih (off + 1) (n - 1) (by omega)
        constructor
        · refine List.Pairwise.cons (fun t ht => ?_) hp
          have := hb t ht
          show off + n ≤ t.1
          omega
        · intro s hmem
          cases hmem with
          | head => exact ⟨by simp, by simp, by simp; omega⟩
          | tail _ hmem =>
            have := hb s hmem
            omega

/-- A match takes something. -/
theorem finditer_pos (hm : Proper m) (xs : List α) (off skip : Nat) {s : Span}
    (hs : s ∈ finditer m off skip xs) : s.1 < s.2 := by
  induction xs generalizing off skip with
  | nil => cases hs
  | cons x xs ih =>
    cases skip with
    | succ k => exact ih (off + 1) k hs
    | zero =>
      unfold finditer at hs
      cases hx : m (x :: xs) with
      | none =>
        rw [hx] at hs
        exact ih (off + 1) 0 hs
      | some n =>
        rw [hx] at hs
        have hpos := (hm _ _ hx).1
        cases hs with
        | head =>
          show off < off + n
          omega
        | tail _ hs => exact ih (off + 1) (n - 1) hs

theorem finditer_eq_nil (hd : ∀ x xs, m (x :: xs) = none → m xs = none) (xs : List α) (off : Nat)
    (h : m xs = none) : finditer m off 0 xs = [] := by
  induction xs generalizing off with
  | nil => rfl
  | cons x xs ih =>
    unfold finditer
    rw [h]
    exact ih (off + 1) (hd x xs h)

/-- Where a text that begins with no match has no match in its rest, the matches follow each
other from the first place on. -/
theorem finditer_covers (hm : Proper m) (hd : ∀ x xs, m (x :: xs) = none → m xs = none)
    (xs : List α) (off skip : Nat) (hs : skip ≤ xs.length) :
    ∃ e, Covers (off + skip) (finditer m off skip xs) e ∧ e ≤ off + xs.length := by
  induction xs generalizing off skip with
  | nil =>
    rw [List.length_nil] at hs ⊢
    exact ⟨off + skip, rfl, by omega⟩
  | cons x xs ih =>
    rw [List.length_cons] at hs ⊢
    cases skip with
    | succ k =>
      obtain ⟨e, hc, he⟩ := ih (off + 1) k (by omega)
      refine ⟨e, ?_, by omega⟩
      have ho : off + (k + 1) = off + 1 + k := by omega
      rw [ho]
      exact hc
    | zero =>
      unfold finditer
      cases hx : m (x :: xs) with
      | none =>
        refine ⟨off, ?_, by omega⟩
        show Covers off (finditer m (off + 1) 0 xs) off
        rw [finditer_eq_nil hd xs (off + 1) (hd x xs hx)]
        rfl
      | some n =>
        obtain ⟨hpos, hle⟩ := hm _ _ hx
        rw [List.length_cons] at hle
        obtain ⟨e, hc, he⟩ := ih (off + 1) (n - 1) (by omega)
        refine ⟨e, ⟨rfl, by simp, ?_⟩, by omega⟩
        have ho : off + 1 + (n - 1) = off + n := by omega
        rw [← ho]
        exact hc

end

end Logic
