import ProjectMaya.CreateSpec

/-! # Create is atomic and quarantining

One `create` of the released coordinator on its own, from any stores, with any fault at any
of its actions and a crash between any two of them (`create_atomic`). -/

namespace ProjectMaya

open Logic

/-- One call of `create`, by one process, with what the environment does to it. -/
structure Attempt where
  coordinator : Coordinator
  call : CreateCall
  process : Process
  moves : List (Move Fault)

namespace Attempt

def outcome (a : Attempt) (s : Shared) : Prog.Outcome Shared Process Raised Receipt :=
  (a.coordinator.create .base a.call).run die a.moves s a.process

/-- Calls one after the other. -/
def sequence (attempts : List Attempt) (s : Shared) : Shared :=
  attempts.foldl (fun s a => (a.outcome s).shared) s

/-- The stores that an attempt leaves, whatever happens to it. -/
theorem leaves (a : Attempt) (s : Shared) :
    CreateLeaves a.coordinator .base a.call s.stores (a.outcome s).shared.stores ∧
      ∀ receipt, (a.outcome s).result = some (.ok receipt) →
        CreateDone a.coordinator .base a.call s.stores (a.outcome s).shared.stores := by
  let C := movesBy Alone (CreateMove a.coordinator .base a.call s.stores) Never
  let R : Shared → Process → Prop := fun s' _ => s'.stores = s.stores
  let E : Shared → Process → Prop := fun s' _ =>
    CreateLeaves a.coordinator .base a.call s.stores s'.stores
  have hwp : wp C (a.coordinator.create .base a.call)
      (Ends (fun _ s' _ => CreateDone a.coordinator .base a.call s.stores s'.stores) E)
      s a.process := by
    refine wp_create (R := R) lawful_alone (outside_alone fun _ _ _ h => h)
      (outside_alone fun _ _ _ h => h) ?_ (fun _ _ _ _ h => h) ?_ ?_ ?_ rfl
    · intro s' _ hs'
      show CreateLeaves _ _ _ _ s'.stores
      rw [show s'.stores = s.stores from hs']
      exact .same
    · intro s' _ w x hs' hmove _
      exact allows_movesBy ((show s'.stores = s.stores from hs') ▸ hmove)
    · intro s' _ v s'' _ hs' hdone _ hk
      rw [show s'.stores = s.stores from hs'] at hdone
      exact hk.stores ▸ hdone
    · intro s' _ v _ _ s'' _ hs' hleaves _ hk
      rw [show s'.stores = s.stores from hs'] at hleaves
      show CreateLeaves _ _ _ _ s''.stores
      rw [hk.stores]
      exact hleaves
  have hkeep : ∀ s₁ l₁ s₂ l₂, C.guar s₁ l₁ s₂ l₂ → E s₁ l₁ → E s₂ l₂ := by
    intro s₁ l₁ s₂ l₂ hg h
    rcases Keeps.stores hg with hs | ⟨v, hv, hmove⟩
    · show CreateLeaves _ _ _ _ s₂.stores
      rw [hs]
      exact h
    · exact hmove.leaves
  obtain ⟨hleaves, hpost⟩ := wp_run die (I := E) (fun _ _ => rfl) hkeep
    (fun _ _ h => h) hwp .same a.moves
  exact ⟨hleaves, fun receipt hok => hpost _ hok⟩

/-- From stores with an unsettled transition nothing can be `Ready`. -/
theorem blocked {a : Attempt} {s : Shared}
    (hpending : ∃ t ∈ s.stores.db.transitions, t.state ≠ .published) :
    (∀ receipt, (a.outcome s).result ≠ some (.ok receipt)) ∧
      (a.outcome s).shared.stores = s.stores := by
  obtain ⟨hleaves, hdone⟩ := a.leaves s
  obtain ⟨t, ht, hstate⟩ := hpending
  constructor
  · intro receipt hok
    obtain ⟨_, _, hready, _⟩ := (hdone receipt hok).done
    exact hstate (hready.settled t ht)
  · generalize (a.outcome s).shared.stores = x at hleaves ⊢
    cases hleaves with
    | same => rfl
    | created hready _ _ _ => exact absurd (hready.settled t ht) hstate

end Attempt

/-- **Create is atomic and quarantining.**  Whatever happens to it, an attempt leaves the
stores as they were, or with exactly the rows of this create, in one of the three states,
and with the old or the new index file.  From stores with a transition that is not
published, every later attempt is refused and changes nothing. -/
theorem create_atomic (s : Shared) :
    (∀ a : Attempt,
      CreateLeaves a.coordinator .base a.call s.stores (a.outcome s).shared.stores) ∧
    ((∃ t ∈ s.stores.db.transitions, t.state ≠ .published) →
      ∀ earlier (a : Attempt),
        (∀ receipt, (a.outcome (Attempt.sequence earlier s)).result ≠ some (.ok receipt)) ∧
        (a.outcome (Attempt.sequence earlier s)).shared.stores = s.stores) := by
  refine ⟨fun a => (a.leaves s).1, ?_⟩
  intro hpending earlier a
  induction earlier generalizing s with
  | nil => exact Attempt.blocked hpending
  | cons b earlier ih =>
    have hb := (Attempt.blocked (a := b) hpending).2
    have h := ih (b.outcome s).shared (hb ▸ hpending)
    exact ⟨h.1, h.2.trans hb⟩

end ProjectMaya
