import ProjectMaya.Logic.Check

/-! # What a check may raise

`RaisesOnly p x` says that `x` ends in a value or in an error of the kind `p`.  The lemmas split it
along the steps of a check, both ways, so that the inputs on which a check stays within a kind of
errors can be read off. -/

namespace Logic

variable {ε ε' α β : Type}

/-- If `x` raises, then it raises what `p` says. -/
def RaisesOnly (p : ε → Prop) (x : Except ε α) : Prop := ∀ e, x = .error e → p e

variable {p : ε → Prop}

@[simp] theorem raisesOnly_ok {a : α} : RaisesOnly p (.ok a : Except ε α) ↔ True :=
  ⟨fun _ => trivial, fun _ _ h => by cases h⟩

@[simp] theorem raisesOnly_error {e : ε} : RaisesOnly p (.error e : Except ε α) ↔ p e := by
  refine ⟨fun h => h e rfl, fun h e' he => ?_⟩
  cases he
  exact h

@[simp] theorem raisesOnly_pure {a : α} : RaisesOnly p (pure a : Except ε α) ↔ True := raisesOnly_ok

/-- It splits along the steps. -/
@[simp] theorem raisesOnly_bind {x : Except ε α} {f : α → Except ε β} :
    RaisesOnly p (x >>= f) ↔ RaisesOnly p x ∧ ∀ a, x = .ok a → RaisesOnly p (f a) := by
  cases x with
  | error e =>
    rw [error_bind, raisesOnly_error, raisesOnly_error]
    exact ⟨fun h => ⟨h, fun _ ha => (by cases ha)⟩, And.left⟩
  | ok a =>
    rw [ok_bind, raisesOnly_ok, true_and]
    refine ⟨fun h a' ha => ?_, fun h => h a rfl⟩
    cases ha
    exact h

@[simp] theorem raisesOnly_ensure {c : Prop} [Decidable c] {e : ε} :
    RaisesOnly p (ensure c e) ↔ c ∨ p e := by
  by_cases h : c
  · rw [ensure_pos h, raisesOnly_ok]
    exact ⟨fun _ => .inl h, fun _ => trivial⟩
  · rw [ensure_neg h, raisesOnly_error]
    exact ⟨.inr, fun h' => h'.resolve_left h⟩

@[simp] theorem raisesOnly_fetch {x : Option α} {e : ε} :
    RaisesOnly p (fetch x e) ↔ x = none → p e := by
  cases x with
  | none =>
    rw [fetch_none, raisesOnly_error]
    exact ⟨fun h _ => h, fun h => h rfl⟩
  | some a =>
    rw [fetch_some, raisesOnly_ok]
    exact ⟨fun _ h => (by cases h), fun _ => trivial⟩

theorem raisesOnly_mapError {f : ε' → ε} {x : Except ε' α} :
    RaisesOnly p (x.mapError f) ↔ RaisesOnly (fun e => p (f e)) x := by
  cases x with
  | error e =>
    rw [raisesOnly_error]
    exact raisesOnly_error
  | ok a =>
    rw [raisesOnly_ok]
    exact raisesOnly_ok

@[simp] theorem raisesOnly_map {f : α → β} {x : Except ε α} :
    RaisesOnly p (f <$> x) ↔ RaisesOnly p x := by
  cases x with
  | error e =>
    rw [raisesOnly_error]
    exact raisesOnly_error
  | ok a =>
    rw [raisesOnly_ok]
    exact raisesOnly_ok

theorem RaisesOnly.mono {q : ε → Prop} {x : Except ε α} (h : RaisesOnly p x) (hpq : ∀ e, p e → q e) :
    RaisesOnly q x := fun e he => hpq e (h e he)

/-- To return is to raise nothing. -/
theorem returns_iff {x : Except ε α} : (∃ a, x = .ok a) ↔ RaisesOnly (fun _ => False) x := by
  cases x with
  | error e =>
    rw [raisesOnly_error]
    refine ⟨fun h => ?_, False.elim⟩
    obtain ⟨_, h⟩ := h
    cases h
  | ok a =>
    rw [raisesOnly_ok]
    exact ⟨fun _ => trivial, fun _ => ⟨a, rfl⟩⟩

theorem raisesOnly_mapM {f : α → Except ε β} {l : List α} (h : ∀ a ∈ l, RaisesOnly p (f a)) :
    RaisesOnly p (l.mapM f) := by
  induction l with
  | nil =>
    rw [List.mapM_nil, raisesOnly_pure]
    exact trivial
  | cons a l ih =>
    obtain ⟨ha, hl⟩ := List.forall_mem_cons.1 h
    rw [List.mapM_cons, raisesOnly_bind]
    refine ⟨ha, fun b _ => ?_⟩
    rw [raisesOnly_bind]
    exact ⟨ih hl, fun bs _ => raisesOnly_pure.2 trivial⟩

theorem raisesOnly_filterAuxM {f : α → Except ε Bool} {l : List α}
    (h : ∀ a ∈ l, RaisesOnly p (f a)) (acc : List α) : RaisesOnly p (l.filterAuxM f acc) := by
  induction l generalizing acc with
  | nil => exact raisesOnly_pure.2 trivial
  | cons a l ih =>
    obtain ⟨ha, hl⟩ := List.forall_mem_cons.1 h
    rw [List.filterAuxM, raisesOnly_bind]
    exact ⟨ha, fun b _ => ih hl _⟩

theorem raisesOnly_filterM {f : α → Except ε Bool} {l : List α} (h : ∀ a ∈ l, RaisesOnly p (f a)) :
    RaisesOnly p (l.filterM f) := by
  rw [List.filterM, raisesOnly_bind]
  exact ⟨raisesOnly_filterAuxM h [], fun _ _ => raisesOnly_pure.2 trivial⟩

/-- Each step counts that is reached. -/
theorem raisesOnly_mapM_iff {f : α → Except ε β} {l : List α} :
    RaisesOnly p (l.mapM f) ↔ ∀ before a after, l = before ++ a :: after →
      (∀ b ∈ before, ∃ c, f b = .ok c) → RaisesOnly p (f a) := by
  induction l with
  | nil =>
    rw [List.mapM_nil, raisesOnly_pure]
    refine ⟨fun _ before a after h => ?_, fun _ => trivial⟩
    exact absurd h (by simp)
  | cons x l ih =>
    rw [List.mapM_cons, raisesOnly_bind]
    simp only [raisesOnly_bind, raisesOnly_pure, implies_true, and_true, ih]
    constructor
    · rintro ⟨hx, hl⟩ before a after heq hbefore
      cases before with
      | nil =>
        cases heq
        exact hx
      | cons y before =>
        cases heq
        obtain ⟨⟨c, hc⟩, hrest⟩ := List.forall_mem_cons.1 hbefore
        exact hl c hc before a after rfl hrest
    · intro h
      refine ⟨h [] x l rfl fun _ hb => (by cases hb), ?_⟩
      rintro c hc before a after rfl hbefore
      exact h (x :: before) a after rfl (List.forall_mem_cons.2 ⟨⟨c, hc⟩, hbefore⟩)

end Logic
