import ProjectMaya.Logic.Prog

/-! # Environments that make only some choices

`p.choosing g` is the program `p` in an environment whose choices are those that `g` gives; its runs
are the runs of `p` in which every choice is one of these (`run_choosing`). -/

namespace Logic

variable {F F' S L E α β : Type}

def Action.choosing (g : F' → F) (a : Action F S L E β) : Action F' S L E β :=
  ⟨fun c => a.next (g c)⟩

def Move.map (g : F' → F) : Move F' → Move F
  | .go c => .go (g c)
  | .crash => .crash

namespace Prog

def choosing (g : F' → F) : Prog F S L E α → Prog F' S L E α
  | .done r => .done r
  | .step a k => .step (a.choosing g) fun r => (k r).choosing g

variable {g : F' → F}

theorem choosing_andThen (p : Prog F S L E α) (f : Except E α → Prog F S L E β) :
    (p.andThen f).choosing g = (p.choosing g).andThen fun r => (f r).choosing g := by
  induction p with
  | done r => rfl
  | step a k ih => exact congrArg (Prog.step (a.choosing g)) (funext ih)

theorem choosing_bind (p : Prog F S L E α) (f : α → Prog F S L E β) :
    (p >>= f).choosing g = p.choosing g >>= fun a => (f a).choosing g := by
  show (p.andThen _).choosing g = _
  rw [choosing_andThen]
  congr 1
  funext r
  cases r <;> rfl

theorem choosing_onError (p : Prog F S L E α) (h : Prog F S L E Unit) :
    (p.onError h).choosing g = (p.choosing g).onError (h.choosing g) := by
  show (p.andThen _).choosing g = _
  rw [choosing_andThen]
  congr 1
  funext r
  cases r with
  | ok a => rfl
  | error e =>
    show (h.andThen _).choosing g = _
    rw [choosing_andThen]
    congr 1
    funext r
    cases r <;> rfl

theorem Each.choosing {P : ∀ {β : Type}, Action F S L E β → Prop}
    {Q : ∀ {β : Type}, Action F' S L E β → Prop}
    (hPQ : ∀ {β : Type} (a : Action F S L E β), P a → Q (a.choosing g)) {p : Prog F S L E α}
    (h : p.Each P) : (p.choosing g).Each Q := by
  induction p with
  | done r => exact trivial
  | step a k ih => exact ⟨hPQ a h.1, fun r => ih r (h.2 r)⟩

theorem run_choosing [Inhabited F] [Inhabited F'] (hg : g default = default) (die : S → L → S × L)
    (p : Prog F S L E α) (moves : List (Move F')) (s : S) (l : L) :
    (p.choosing g).run die moves s l = p.run die (moves.map (Move.map g)) s l := by
  induction p generalizing moves s l with
  | done r => cases moves <;> rfl
  | step a k ih =>
    cases moves with
    | nil =>
      have hnext : a.next (g default) s l = a.next default s l := by rw [hg]
      show ((k (a.next (g default) s l).1).choosing g).run die [] (a.next (g default) s l).2.1
        (a.next (g default) s l).2.2 = _
      rw [ih, hnext]
      rfl
    | cons m moves =>
      cases m with
      | go c => exact ih _ moves _ _
      | crash => rfl

end Prog

end Logic
