import Mathlib.Algebra.Order.Field.Basic
import Mathlib.Algebra.Order.Ring.Abs
import Mathlib.Tactic.Linarith
import Mathlib.Tactic.Ring

/-! # Products of vectors

The inequality of Cauchy and Schwarz for vectors as lists, and the cosine that it bounds; roots are
given by their squares. -/

namespace Logic

variable {R : Type} [Field R]

/-- The sum of the products, place by place. -/
def dot (a b : List R) : R := (List.zipWith (· * ·) a b).sum

theorem dot_cons (x y : R) (a b : List R) : dot (x :: a) (y :: b) = x * y + dot a b := by
  simp [dot]

variable [LinearOrder R] [IsStrictOrderedRing R]

theorem dot_self_nonneg (a : List R) : 0 ≤ dot a a := by
  induction a with
  | nil => exact le_refl 0
  | cons x a ih =>
    rw [dot_cons]
    exact add_nonneg (mul_self_nonneg x) ih

theorem sq_dot_le (a b : List R) : dot a b ^ 2 ≤ dot a a * dot b b := by
  induction a generalizing b with
  | nil => simp [dot]
  | cons x a ih =>
    cases b with
    | nil => simp [dot]
    | cons y b =>
      have hcross : 2 * (x * y * dot a b) ≤ x ^ 2 * dot b b + dot a a * y ^ 2 := by
        refine two_mul_le_add_of_sq_le_mul (mul_nonneg (sq_nonneg x) (dot_self_nonneg b))
          (mul_nonneg (dot_self_nonneg a) (sq_nonneg y)) ?_
        calc (x * y * dot a b) ^ 2 = (x * y) ^ 2 * dot a b ^ 2 := by ring
          _ ≤ (x * y) ^ 2 * (dot a a * dot b b) := mul_le_mul_of_nonneg_left (ih b) (sq_nonneg _)
          _ = x ^ 2 * dot b b * (dot a a * y ^ 2) := by ring
      rw [dot_cons, dot_cons, dot_cons]
      calc (x * y + dot a b) ^ 2 = (x * y) ^ 2 + 2 * (x * y * dot a b) + dot a b ^ 2 := by ring
        _ ≤ (x * y) ^ 2 + (x ^ 2 * dot b b + dot a a * y ^ 2) + dot a a * dot b b := by
          linarith [ih b, hcross]
        _ = (x * x + dot a a) * (y * y + dot b b) := by ring

/-- A cosine is in `[-1, 1]`; `s` and `t` are the lengths of the vectors. -/
theorem cosine_mem {a b : List R} {s t : R} (hs : s * s = dot a a) (ht : t * t = dot b b)
    (h : s * t ≠ 0) : -1 ≤ dot a b / (s * t) ∧ dot a b / (s * t) ≤ 1 := by
  have hpos : 0 < (s * t) ^ 2 := sq_pos_of_ne_zero h
  rw [← abs_le, ← sq_le_one_iff_abs_le_one, div_pow, div_le_one hpos]
  calc dot a b ^ 2 ≤ dot a a * dot b b := sq_dot_le a b
    _ = (s * t) ^ 2 := by rw [← hs, ← ht]; ring

end Logic
