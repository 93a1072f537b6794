/-! # Bounded attempts

A job is tried a bounded number of times. A try ends the attempts, or asks for another one and
leaves the error that is raised where there is none left. -/

namespace Logic

variable {ε α : Type}

inductive Try (ε α : Type) where
  | again (e : ε)
  | stop (result : Except ε α)

/-- How the attempts ended, and how many were made; the result is `none` where there was none. -/
structure Attempts (ε α : Type) where
  result : Option (Except ε α)
  made : Nat

namespace Try

/-- Attempts from the `k`-th on, with so many `left`; `last` is the error of the one before. -/
def attempts (f : Nat → Try ε α) : Nat → Nat → Option ε → Attempts ε α
  | 0, k, last => ⟨last.map .error, k⟩
  | left + 1, k, _ =>
    match f k with
    | .again e => attempts f left (k + 1) (some e)
    | .stop result => ⟨some result, k + 1⟩

def isAgain : Try ε α → Bool
  | .again _ => true
  | .stop _ => false

/-- The attempts stop at the first try that ends them, or all of them have asked for another. -/
inductive Ends (f : Nat → Try ε α) (n : Nat) : Attempts ε α → Prop where
  | stopped {k : Nat} {result : Except ε α} (lt : k < n) (before : ∀ j < k, (f j).isAgain)
      (stop : f k = .stop result) : Ends f n ⟨some result, k + 1⟩
  | usedUp {k : Nat} {e : ε} (last : n = k + 1) (before : ∀ j < k, (f j).isAgain)
      (again : f k = .again e) : Ends f n ⟨some (.error e), n⟩

theorem attempts_from (f : Nat → Try ε α) (left k : Nat) (last : Option ε)
    (before : ∀ j < k, (f j).isAgain) :
    Ends f (k + (left + 1)) (attempts f (left + 1) k last) := by
  induction left generalizing k last with
  | zero =>
    cases hf : f k with
    | again e =>
      simp only [attempts, hf]
      exact .usedUp rfl before hf
    | stop result =>
      simp only [attempts, hf]
      exact .stopped (Nat.lt_succ_self k) before hf
  | succ left ih =>
    rw [attempts]
    cases hf : f k with
    | again e =>
      have hk : ∀ j < k + 1, (f j).isAgain := by
        intro j hj
        rcases Nat.lt_succ_iff_lt_or_eq.mp hj with hlt | rfl
        · exact before j hlt
        · rw [hf]
          rfl
      have hrest := ih (k + 1) (some e) hk
      rwa [Nat.add_right_comm] at hrest
    | stop result => exact .stopped (Nat.lt_add_of_pos_right (Nat.succ_pos _)) before hf

theorem attempts_ends (f : Nat → Try ε α) {n : Nat} (pos : 0 < n) :
    Ends f n (attempts f n 0 none) := by
  obtain ⟨left, rfl⟩ := Nat.exists_eq_add_one.mpr pos
  have h := attempts_from f left 0 none fun j hj => absurd hj (Nat.not_lt_zero j)
  rwa [Nat.zero_add] at h

namespace Ends

variable {f : Nat → Try ε α} {n : Nat} {run : Attempts ε α}

theorem made_le (h : Ends f n run) : run.made ≤ n := by
  cases h with
  | stopped lt => exact lt
  | usedUp => exact Nat.le_refl n

/-- A try after which another one was made has asked for it. -/
theorem isAgain_of_lt_made (h : Ends f n run) {k : Nat} (hk : k + 1 < run.made) :
    (f k).isAgain := by
  cases h with
  | stopped _ before => exact before k (Nat.lt_of_succ_lt_succ hk)
  | usedUp last before =>
    subst last
    exact before k (Nat.lt_of_succ_lt_succ hk)

theorem lt_made (h : Ends f n run) {k : Nat} (hk : k < n) (before : ∀ j < k, (f j).isAgain) :
    k < run.made := by
  cases h with
  | @stopped i result lt _ stop =>
    rcases Nat.lt_or_ge i k with hlt | hge
    · have := before i hlt
      rw [stop] at this
      cases this
    · exact Nat.lt_succ_of_le hge
  | usedUp => exact hk

theorem stopped_at (h : Ends f n run) {k : Nat} {result : Except ε α} (hk : k < n)
    (before : ∀ j < k, (f j).isAgain) (stop : f k = .stop result) :
    run = ⟨some result, k + 1⟩ := by
  have hstop : (f k).isAgain = false := by rw [stop, isAgain]
  cases h with
  | @stopped i r lt before' stop' =>
    rcases Nat.lt_trichotomy i k with hlt | rfl | hlt
    · have := before i hlt
      rw [stop'] at this
      cases this
    · rw [stop] at stop'
      cases stop'
      rfl
    · exact absurd (before' k hlt) (by simp [hstop])
  | @usedUp i e last before' again =>
    have hle : k ≤ i := by omega
    rcases Nat.lt_or_eq_of_le hle with hlt | rfl
    · exact absurd (before' k hlt) (by simp [hstop])
    · rw [stop] at again
      cases again

end Ends

end Try

end Logic
