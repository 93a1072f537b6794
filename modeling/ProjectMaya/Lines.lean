import Mathlib.Logic.Function.Basic
import ProjectMaya.Logic.Replay
import ProjectMaya.Store

/-! # The lines of the slots

What the session store is for, without its tables.  Each slot has a line of sessions: a
first session, then a child that has replaced it, then the first session again (`Line`).  A
ledger has the lines of all slots, no two of which share a session, and the postings of
everything that happened (`Ledger`).  Lines only grow, by one event at a time (`Grows`). -/

namespace ProjectMaya

open Logic

/-- How a session stands: its parent, and how it has ended. -/
structure Standing where
  id : String
  parent : Option String := none
  ended : Bool := false
  reason : Option String := none
  deriving DecidableEq, Repr

/-- The sessions that a slot has had. -/
inductive Line where
  | created (root : String)
  | reset (root child : String)
  | switched (root child : String)
  deriving DecidableEq, Repr

namespace Line

/-- The session that the slot has now. -/
def current : Line → String
  | .created root => root
  | .reset _ child => child
  | .switched root _ => root

def version : Line → Int
  | .created _ => 1
  | .reset _ _ => 2
  | .switched _ _ => 3

def standings : Line → List Standing
  | .created root => [{ id := root }]
  | .reset root child => [{ id := root, ended := true, reason := some "session_reset" },
      { id := child, parent := some root }]
  | .switched root child => [{ id := root },
      { id := child, parent := some root, ended := true, reason := some "session_switch" }]

/-- The second line is what may have become of the first. -/
inductive Extends : Line → Line → Prop
  | refl (k : Line) : Extends k k
  | reset (root child : String) : Extends (.created root) (.reset root child)
  | switched (root child : String) : Extends (.reset root child) (.switched root child)
  | both (root child : String) : Extends (.created root) (.switched root child)

theorem Extends.trans {k k' k'' : Line} (h : Extends k k') (h' : Extends k' k'') : Extends k k'' := by
  cases h with
  | refl => exact h'
  | reset root child =>
    cases h' with
    | refl => exact .reset root child
    | switched => exact .both root child
  | switched root child =>
    cases h' with
    | refl => exact .switched root child
  | both root child =>
    cases h' with
    | refl => exact .both root child

end Line

/-- One committed transition. -/
structure Posting where
  id : String
  operation : Operation
  target : String
  version : Int
  generation : Int
  deriving DecidableEq, Repr

structure Ledger where
  line : String → Option Line
  apart : ∀ slot slot' k k' x y, line slot = some k → line slot' = some k' → x ∈ k.standings →
    y ∈ k'.standings → x.id = y.id → slot = slot'
  generation : Int
  postings : List Posting

namespace Ledger

instance : Membership Standing Ledger :=
  ⟨fun L x => ∃ slot k, L.line slot = some k ∧ x ∈ k.standings⟩

variable {L : Ledger} {slot : String} {k : Line}

theorem mem_def {x : Standing} : x ∈ L ↔ ∃ slot k, L.line slot = some k ∧ x ∈ k.standings := Iff.rfl

/-- The sessions of `k` are new, or those of the slot. -/
def Fits (L : Ledger) (slot : String) (k : Line) : Prop :=
  ∀ x ∈ k.standings, ∀ y ∈ L, y.id = x.id → ∃ k₀, L.line slot = some k₀ ∧ y ∈ k₀.standings

/-- The slot gets a line, by a transition with the id. -/
def put (L : Ledger) (id : String) (operation : Operation) (slot : String) (k : Line) (h : L.Fits slot k) :
    Ledger where
  line := Function.update L.line slot (some k)
  apart := by
    have hother : ∀ {slot' k' x y}, slot' ≠ slot → L.line slot' = some k' → x ∈ k.standings →
        y ∈ k'.standings → y.id = x.id → slot' = slot := by
      intro slot' k' x y _ hline hx hy hid
      obtain ⟨k₀, hk₀, hy₀⟩ := h x hx y ⟨slot', k', hline, hy⟩ hid
      exact L.apart slot' slot k' k₀ y y hline hk₀ hy hy₀ rfl
    intro slot₁ slot₂ k₁ k₂ x y h₁ h₂ hx hy hid
    by_cases hs₁ : slot₁ = slot
    · by_cases hs₂ : slot₂ = slot
      · exact hs₁.trans hs₂.symm
      · rw [hs₁, Function.update_self] at h₁
        cases h₁
        rw [Function.update_of_ne hs₂] at h₂
        exact absurd (hother hs₂ h₂ hx hy hid.symm) hs₂
    · rw [Function.update_of_ne hs₁] at h₁
      by_cases hs₂ : slot₂ = slot
      · rw [hs₂, Function.update_self] at h₂
        cases h₂
        exact absurd (hother hs₁ h₁ hy hx hid) hs₁
      · rw [Function.update_of_ne hs₂] at h₂
        exact L.apart slot₁ slot₂ k₁ k₂ x y h₁ h₂ hx hy hid
  generation := L.generation + 1
  postings := L.postings ++ [⟨id, operation, k.current, k.version, L.generation + 1⟩]

@[simp] theorem line_put {id : String} {operation : Operation} {h : L.Fits slot k} (slot' : String) :
    (L.put id operation slot k h).line slot' = if slot' = slot then some k else L.line slot' := by
  show Function.update L.line slot (some k) slot' = _
  rw [Function.update_apply]

@[simp] theorem generation_put {id : String} {operation : Operation} {h : L.Fits slot k} :
    (L.put id operation slot k h).generation = L.generation + 1 := rfl

/-- A session of another slot stays as it is. -/
theorem mem_put {id : String} {operation : Operation} {h : L.Fits slot k} {x : Standing} :
    x ∈ L.put id operation slot k h ↔
      x ∈ k.standings ∨ (x ∈ L ∧ ∀ k₀, L.line slot = some k₀ → ∀ y ∈ k₀.standings, y.id ≠ x.id) := by
  constructor
  · rintro ⟨slot', k', hline, hx⟩
    rw [line_put] at hline
    split at hline
    · cases hline
      exact .inl hx
    · rename_i hne
      refine .inr ⟨⟨slot', k', hline, hx⟩, fun k₀ hk₀ y hy hid => hne ?_⟩
      exact L.apart slot' slot k' k₀ x y hline hk₀ hx hy hid.symm
  · rintro (hx | ⟨⟨slot', k', hline, hx⟩, hnot⟩)
    · exact ⟨slot, k, by rw [line_put, if_pos rfl], hx⟩
    · refine ⟨slot', k', ?_, hx⟩
      rw [line_put, if_neg]
      · exact hline
      · rintro rfl
        exact hnot k' hline x hx rfl

/-- No session of the ledger has the id. -/
def Fresh (L : Ledger) (id : String) : Prop := ∀ x ∈ L, x.id ≠ id

theorem fits_created {root : String} (h : L.Fresh root) : L.Fits slot (.created root) := by
  intro x hx y hy hid
  rw [List.mem_singleton.mp hx] at hid
  exact absurd hid (h y hy)

theorem fits_reset {root child : String} (hline : L.line slot = some (.created root)) (h : L.Fresh child) :
    L.Fits slot (.reset root child) := by
  intro x hx y hy hid
  simp only [Line.standings, List.mem_cons, List.not_mem_nil, or_false] at hx
  rcases hx with rfl | rfl
  · obtain ⟨slot', k', hline', hy'⟩ := hy
    have hslot := L.apart slot' slot k' _ y { id := root } hline' hline hy' (by simp [Line.standings]) hid
    subst hslot
    exact ⟨k', hline', hy'⟩
  · exact absurd hid (h y hy)

theorem fits_switched {root child : String} (hline : L.line slot = some (.reset root child)) :
    L.Fits slot (.switched root child) := by
  intro x hx y hy hid
  obtain ⟨slot', k', hline', hy'⟩ := hy
  have hmem : ∃ z ∈ (Line.reset root child).standings, z.id = x.id := by
    simp only [Line.standings, List.mem_cons, List.not_mem_nil, or_false] at hx
    rcases hx with rfl | rfl <;> simp [Line.standings]
  obtain ⟨z, hz, hzx⟩ := hmem
  have hslot := L.apart slot' slot k' _ y z hline' hline hy' hz (hid.trans hzx.symm)
  subst hslot
  exact ⟨k', hline', hy'⟩

/-- The ledger of one slot. -/
def single (slot : String) (k : Line) (generation : Int) (postings : List Posting) : Ledger where
  line := Function.update (fun _ => none) slot (some k)
  apart := by
    have honly : ∀ {slot' k'}, Function.update (fun _ => none) slot (some k) slot' = some k' →
        slot' = slot := by
      intro slot' k' h
      by_contra hne
      rw [Function.update_of_ne hne] at h
      cases h
    intro slot₁ slot₂ k₁ k₂ x y h₁ h₂ _ _ _
    exact (honly h₁).trans (honly h₂).symm
  generation
  postings

@[simp] theorem line_single {generation : Int} {postings : List Posting} (slot' : String) :
    (single slot k generation postings).line slot' = if slot' = slot then some k else none := by
  show Function.update (fun _ => none) slot (some k) slot' = _
  rw [Function.update_apply]

theorem mem_single {generation : Int} {postings : List Posting} {x : Standing} :
    x ∈ single slot k generation postings ↔ x ∈ k.standings := by
  constructor
  · rintro ⟨slot', k', hline, hx⟩
    rw [line_single] at hline
    split at hline
    · cases hline
      exact hx
    · cases hline
  · exact fun hx => ⟨slot, k, by rw [line_single, if_pos rfl], hx⟩

end Ledger

/-- What happens to a slot: a transition makes `target` its session. -/
structure Growth where
  id : String
  operation : Operation
  slot : String
  target : String
  deriving DecidableEq, Repr

/-- The steps of a ledger. -/
inductive Grows (L : Ledger) : Growth → Ledger → Prop
  | create {id slot root : String} (hline : L.line slot = none) (h : L.Fresh root) :
      Grows L ⟨id, .create, slot, root⟩ (L.put id .create slot (.created root) (Ledger.fits_created h))
  | reset {id slot root child : String} (hline : L.line slot = some (.created root)) (h : L.Fresh child) :
      Grows L ⟨id, .reset, slot, child⟩
        (L.put id .reset slot (.reset root child) (Ledger.fits_reset hline h))
  | switch {id slot root child : String} (hline : L.line slot = some (.reset root child)) :
      Grows L ⟨id, .switch, slot, root⟩
        (L.put id .switch slot (.switched root child) (Ledger.fits_switched hline))

namespace Grows

variable {L L' : Ledger} {e : Growth}

/-- A step adds one posting, of the next generation. -/
theorem posting (h : Grows L e L') : ∃ version, L'.generation = L.generation + 1 ∧
    L'.postings = L.postings ++ [⟨e.id, e.operation, e.target, version, L.generation + 1⟩] := by
  cases h with
  | create => exact ⟨1, rfl, rfl⟩
  | reset => exact ⟨2, rfl, rfl⟩
  | switch => exact ⟨3, rfl, rfl⟩

/-- A line only grows. -/
theorem line (h : Grows L e L') {slot : String} {k : Line} (hk : L.line slot = some k) :
    ∃ k', L'.line slot = some k' ∧ k.Extends k' := by
  have hput : ∀ {id operation slot' k'} {hfits : L.Fits slot' k'},
      (∀ k₀, L.line slot' = some k₀ → k₀.Extends k') →
      ∃ k₁, (L.put id operation slot' k' hfits).line slot = some k₁ ∧ k.Extends k₁ := by
    intro id operation slot' k' hfits hless
    rw [Ledger.line_put]
    split
    · rename_i heq
      exact ⟨k', rfl, hless k (heq ▸ hk)⟩
    · exact ⟨k, hk, .refl k⟩
  cases h with
  | create hline =>
    refine hput fun k₀ hk₀ => ?_
    rw [hline] at hk₀
    cases hk₀
  | reset hline =>
    refine hput fun k₀ hk₀ => ?_
    rw [hline] at hk₀
    cases hk₀
    exact .reset _ _
  | switch hline =>
    refine hput fun k₀ hk₀ => ?_
    rw [hline] at hk₀
    cases hk₀
    exact .switched _ _

/-- Only a switch on the slot changes a line once there has been a reset. -/
theorem line_eq (h : Grows L e L') {slot : String} {k : Line} (hk : L.line slot = some k)
    (hversion : k.version ≠ 1) (hswitch : e.operation = .switch → e.slot ≠ slot) :
    L'.line slot = some k := by
  cases h with
  | create hline =>
    rw [Ledger.line_put, if_neg]
    · exact hk
    · rintro rfl
      cases hline.symm.trans hk
  | reset hline =>
    rw [Ledger.line_put, if_neg]
    · exact hk
    · rintro rfl
      cases hline.symm.trans hk
      exact hversion rfl
  | switch hline => rw [Ledger.line_put, if_neg (hswitch rfl).symm, hk]

end Grows

end ProjectMaya
