import Mathlib.Data.List.Basic

/-! # Histories

A history is a list of entries, oldest first.  `Justified J h` says that every entry is
allowed by what came before it; it is kept by adding an entry that is allowed
(`Justified.snoc`). -/

namespace Logic

variable {α : Type}

/-- Every entry `e` of `h`, with everything before it, satisfies `J`. -/
def Justified (J : List α → α → Prop) (h : List α) : Prop :=
  ∀ before e after, h = before ++ e :: after → J before e

variable {J : List α → α → Prop}

theorem Justified.nil : Justified J [] := by
  intro before e after h
  simp at h

theorem Justified.snoc {h : List α} {e : α} (hh : Justified J h) (he : J h e) :
    Justified J (h ++ [e]) := by
  intro before x after hx
  rcases List.eq_nil_or_concat after with rfl | ⟨after, y, rfl⟩
  · have := List.append_inj' hx rfl
    obtain ⟨rfl, hxe⟩ := this
    simp only [List.cons.injEq, and_true] at hxe
    exact hxe ▸ he
  · have hx' : h ++ [e] = (before ++ x :: after) ++ [y] := by simpa using hx
    have := List.append_inj' hx' rfl
    exact hh before x after this.1

end Logic
