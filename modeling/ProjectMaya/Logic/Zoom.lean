import ProjectMaya.Logic.Prog

/-! # Programs on a part of the state

A program written for one state runs on a larger one of which that state is a part
(`Prog.zoom`).  Its actions change nothing but the part (`each_zoom`). -/

namespace Logic

/-- A part of a state: what it is, and the state with the part replaced. -/
structure Part (S' S : Type) where
  get : S' → S
  set : S' → S → S'

variable {F F' S S' L L' E α β : Type}

def Action.zoom (choice : F' → F) (shared : Part S' S) (loc : Part L' L) (a : Action F S L E β) :
    Action F' S' L' E β where
  next c s l :=
    let (r, s', l') := a.next (choice c) (shared.get s) (loc.get l)
    (r, shared.set s s', loc.set l l')

def Prog.zoom (choice : F' → F) (shared : Part S' S) (loc : Part L' L) :
    Prog F S L E α → Prog F' S' L' E α
  | .done r => .done r
  | .step a k => .step (a.zoom choice shared loc) fun r => (k r).zoom choice shared loc

/-- A property of every action that changes nothing but the parts. -/
theorem Prog.each_zoom {choice : F' → F} {shared : Part S' S} {loc : Part L' L}
    {P : ∀ {β : Type}, Action F' S' L' E β → Prop}
    (h : ∀ {β : Type} (a : Action F' S' L' E β),
      (∀ c s l, ∃ s₀ l₀, (a.next c s l).2.1 = shared.set s s₀ ∧ (a.next c s l).2.2 = loc.set l l₀) →
        P a) (p : Prog F S L E α) : (p.zoom choice shared loc).Each P := by
  induction p with
  | done r => exact trivial
  | step a k ih => exact ⟨h _ fun c s l => ⟨_, _, rfl, rfl⟩, ih⟩

end Logic
