import ProjectMaya.Logic.Wp

/-! # Labelled exceptions

A program whose exceptions carry a label, which says where and why they were raised
(`Action.tag` labels what an action raises).  `Erases p q` says that `q` is `p` without its
labels; a run of `q` is then a run of `p` whose result has lost its label (`Erases.run_eq`).

`Raises K` is a postcondition on exceptions alone. -/

namespace Logic

variable {F S L X E α β γ δ : Type}

/-- The action, with a label on what it raises. -/
def Action.tag (x : E → X) (a : Action F S L E β) : Action F S L (X × E) β where
  next f s l := ((a.next f s l).1.mapError fun e => (x e, e), (a.next f s l).2)

/-- A result without its label. -/
def unlabel (r : Except (X × E) α) : Except E α := r.mapError Prod.snd

@[simp] theorem unlabel_ok (a : α) : unlabel (.ok a : Except (X × E) α) = .ok a := rfl

@[simp] theorem unlabel_error (x : X) (e : E) : unlabel (.error (x, e) : Except (X × E) α) = .error e := rfl

theorem unlabel_tag (x : E → X) (r : Except E α) : unlabel (r.mapError fun e => (x e, e)) = r := by
  cases r <;> rfl

/-- The second program is the first one without its labels; values are related by `v`. -/
inductive Erases (v : α → β) : Prog F S L (X × E) α → Prog F S L E β → Prop where
  | done (r : Except (X × E) α) : Erases v (.done r) (.done ((unlabel r).map v))
  | step {γ : Type} (a : Action F S L E γ) (x : E → X) (k : Except (X × E) γ → Prog F S L (X × E) α)
      (k' : Except E γ → Prog F S L E β) (h : ∀ r, Erases v (k r) (k' (unlabel r))) :
      Erases v (.step (a.tag x) k) (.step a k')

namespace Erases

theorem pure {v : α → β} (a : α) : Erases v (.done (.ok a) : Prog F S L (X × E) α) (.done (.ok (v a))) :=
  .done (.ok a)

theorem raise {v : α → β} (x : X) (e : E) :
    Erases v (.raise (x, e) : Prog F S L (X × E) α) (.raise e) :=
  .done (.error (x, e))

theorem raiseIf {c : Prop} [Decidable c] (x : X) (e : E) :
    Erases id (.raiseIf c (x, e) : Prog F S L (X × E) Unit) (.raiseIf c e) := by
  unfold Prog.raiseIf
  split
  · exact raise x e
  · exact pure ()

theorem perform (a : Action F S L E α) (x : E → X) :
    Erases id (.perform (a.tag x)) (.perform a) := by
  refine .step a x _ _ ?_
  intro r
  have h := Erases.done (F := F) (S := S) (L := L) (v := id) r
  rwa [Except.map_id] at h

/-- Rests may differ in their labels too, if they do with equal results so far. -/
theorem andThen {v : α → β} {w : γ → δ} {p : Prog F S L (X × E) α} {q : Prog F S L E β}
    {f : Except (X × E) α → Prog F S L (X × E) γ} {g : Except E β → Prog F S L E δ}
    (hp : Erases v p q) (hf : ∀ r, Erases w (f r) (g ((unlabel r).map v))) :
    Erases w (p.andThen f) (q.andThen g) := by
  induction hp with
  | done r => exact hf r
  | step a x k k' _ ih => exact .step a x _ _ fun r => ih r

theorem bind {w : γ → δ} {p : Prog F S L (X × E) α} {q : Prog F S L E α}
    {f : α → Prog F S L (X × E) γ} {g : α → Prog F S L E δ} (hp : Erases id p q)
    (hf : ∀ a, Erases w (f a) (g a)) : Erases w (p >>= f) (q >>= g) := by
  refine hp.andThen ?_
  intro r
  cases r with
  | ok a => exact hf a
  | error e => exact raise e.1 e.2

theorem mapError {p : Prog F S L (X × E) α} {q : Prog F S L E α}
    {f : X × E → Prog F S L (X × E) (X × E)} {g : E → Prog F S L E E} (hp : Erases id p q)
    (hf : ∀ x e, Erases Prod.snd (f (x, e)) (g e)) : Erases id (p.mapError f) (q.mapError g) := by
  refine hp.andThen ?_
  intro r
  cases r with
  | ok a => exact pure a
  | error e =>
    refine (hf e.1 e.2).andThen ?_
    intro r
    cases r with
    | ok e' => exact raise e'.1 e'.2
    | error e' => exact raise e'.1 e'.2

/-- **Labels change nothing.**  A run of the program without labels is a run of the program
with labels, but for the label of its result. -/
theorem run_eq [Inhabited F] {v : α → β} {p : Prog F S L (X × E) α} {q : Prog F S L E β}
    (h : Erases v p q) (die : S → L → S × L) (moves : List (Move F)) (s : S) (l : L) :
    q.run die moves s l =
      ⟨(p.run die moves s l).result.map fun r => (unlabel r).map v, (p.run die moves s l).shared,
        (p.run die moves s l).loc⟩ := by
  induction h generalizing moves s l with
  | done r => rfl
  | step a x k k' _ ih =>
    have hnext : ∀ f, a.next f s l =
        (unlabel ((a.tag x).next f s l).1, ((a.tag x).next f s l).2) := by
      intro f
      show _ = (unlabel ((a.next f s l).1.mapError _), _)
      rw [unlabel_tag]
      rfl
    cases moves with
    | nil =>
      show (k' (a.next default s l).1).run die [] (a.next default s l).2.1 (a.next default s l).2.2 = _
      rw [hnext]
      exact ih _ _ _ _
    | cons m moves =>
      cases m with
      | go f =>
        show (k' (a.next f s l).1).run die moves (a.next f s l).2.1 (a.next f s l).2.2 = _
        rw [hnext]
        exact ih _ _ _ _
      | crash => rfl

end Erases

/-! ## Postconditions on exceptions -/

/-- Nothing is asked of the states. -/
def anything : Contract S L where
  rely _ _ _ := True
  guar _ _ _ _ := True

def Raises (K : E → Prop) (r : Except E α) (_ : S) (_ : L) : Prop := ∀ e, r = .error e → K e

section

variable {K : E → Prop} {s : S} {l : L}

theorem Raises.ok {a : α} : Raises K (.ok a : Except E α) s l := by
  intro e h
  cases h

theorem Raises.error {e : E} (h : K e) : Raises K (.error e : Except E α) s l := by
  intro e' he
  cases he
  exact h

theorem raises_bind {p : Prog F S L E α} {f : α → Prog F S L E β}
    (hp : wp anything p (Raises K) s l) (hf : ∀ a s l, wp anything (f a) (Raises K) s l) :
    wp anything (p >>= f) (Raises K) s l :=
  wp_bind hp (fun a s l _ => hf a s l) fun e _ _ h => .error (h e rfl)

theorem raises_raiseIf {c : Prop} [Decidable c] {e : E} (h : K e) :
    wp anything (.raiseIf c e : Prog F S L E Unit) (Raises K) s l :=
  wp_raiseIf (fun _ => .error h) fun _ => .ok

theorem raises_perform {x : E → X} {K : X × E → Prop} {a : Action F S L E α}
    (h : ∀ e, K (x e, e)) : wp anything (.perform (a.tag x)) (Raises K) s l := by
  refine wp_perform ?_
  intro s' _ f
  refine ⟨trivial, ?_⟩
  intro e he
  obtain ⟨e', -, rfl⟩ : ∃ e', (a.next f s' l).1 = .error e' ∧ (x e', e') = e := by
    cases hr : (a.next f s' l).1 with
    | ok v =>
      simp only [Action.tag, hr] at he
      cases he
    | error e' =>
      simp only [Action.tag, hr] at he
      exact ⟨e', rfl, Except.error.inj he⟩
  exact h e'

/-- What a handler returns, and what it raises. -/
def Handles (K : E → Prop) : Except E E → S → L → Prop
  | .ok e, _, _ => K e
  | .error e, _, _ => K e

/-- What the handler returns and what it raises takes the place of what was raised. -/
theorem raises_mapError {K' : E → Prop} {p : Prog F S L E α} {f : E → Prog F S L E E}
    (hp : wp anything p (Raises K) s l)
    (hf : ∀ e, K e → ∀ s l, wp anything (f e) (Handles K') s l) :
    wp anything (p.mapError f) (Raises K') s l := by
  refine wp_mapError hp (fun a s l _ => .ok) ?_
  intro e s l h
  refine wp_mono (hf e (h e rfl) s l) ?_
  intro r s l hr
  cases r <;> exact .error hr

end

end Logic
