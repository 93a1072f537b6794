import ProjectMaya.CallerSpec
import ProjectMaya.Locked

/-! # What a preparation does to the stores

`prepare` in the same terms as a reset and a switch: it makes the moves of its create, and
settles the transition it has created (`wp_prepareKeeping`).  Of the memory it keeps any
property that does not look at its own fields. -/

namespace ProjectMaya

open Logic

/-- The changes of the stores that a preparation can make. -/
inductive PrepareMove (c : Coordinator) (call : CreateCall) (v : View) : Stores → Prop
  | created {o x : Stores} : CreateMove c .overlay call o v x → PrepareMove c call v x
  | own {x : Stores} : OwnMove c call.descriptor.correlationId v x → PrepareMove c call v x

/-- The property does not look at the fields of the caller's preparation. -/
def CallerFields (K : Memory → Prop) : Prop :=
  ∀ m phase current, K m → K { m with callerPhase := phase, callerCurrent := current }

/-- The contract lets the process change these fields. -/
def CallerSteps (C : Contract Shared Process) : Prop :=
  ∀ s l phase current, C.guar s l s { l with memory :=
    { l.memory with callerPhase := phase, callerCurrent := current } }

/-- What `_bound` has checked: the descriptor's transition is the newest one. -/
theorem callerBound_newest {c : Coordinator} {d : CreateSessionDescriptor} {expected : TransitionState}
    {db : Db} {index : Bytes} (h : callerBound c d expected db index = .ok ()) :
    Newest db d.correlationId := by
  unfold callerBound at h
  obtain ⟨⟨generation, routes, raw⟩, hstate, h⟩ := bind_eq_ok.mp h
  simp only at h
  split at h
  · rename_i hall
    simp only [Bool.and_eq_true] at hall
    obtain ⟨⟨⟨⟨hreceipt, -⟩, -⟩, -⟩, hothers⟩ := hall
    obtain ⟨t, ht, hfits⟩ := (Option.any_eq_true _ _).mp hreceipt
    exact newest_of_receipt hstate ht (of_decide_eq_true hfits).generation hothers
  · cases h

section

variable {C : Contract Shared Process} {c : Coordinator} {call : CreateCall} {v : View} {s : Shared}
  {l : Process} {E : Shared → Process → Prop} {K : Memory → Prop}

theorem wp_boundPrepare {expected : TransitionState} (hC : Lawful C) (hv : At v s l) (hE : Covers E v) :
    wp C (c.bound call expected) (Ends (fun _ s l => At v s l ∧
      callerBound c call.descriptor expected (v.tx.getD v.stores.db) v.stores.index = .ok ()) E) s l := by
  refine wp_seq (wp_ask hC hv hE) ?_
  intro _ s l hv
  refine wp_seq (wp_refuseIf hv hE) ?_
  rintro _ s l ⟨hv, -⟩
  exact wp_checked hC hv hE _

theorem wp_checkedPrepare (hC : Lawful C) (hv : At v s l) (hE : Covers E v) :
    wp C (c.authority call) (Ends (fun _ s l => At v s l) E) s l := by
  refine wp_mono (wp_authority hC hv hE) ?_
  intro r s l h
  cases r with
  | ok a => exact h.1
  | error e => exact h

/-- The statement of `_acknowledge` and `_quarantine`, and its commit. -/
theorem wp_movePrepare {purpose : Purpose} {target : TransitionState} {code : String} (hC : Lawful C)
    (hown : ∀ v x, OwnMove c call.descriptor.correlationId v x → Allows C v x) (hm : K v.memory)
    (hv : At (v.within v.stores.db) s l) (hnewest : Newest v.stores.db call.descriptor.correlationId)
    (hmirrored : Mirrored c v.stores) :
    wp C (do
      let changed ← Coordinator.moveReceipt call target
      refuseIf (changed ≠ 1) code
      .perform (Act.commit purpose) : Code Unit) (Ends (fun _ => Locked K) (Locked K)) s l := by
  refine wp_seq (wp_execute hC hv (covers_locked hm) _) ?_
  rintro changed s l ⟨w, hw, hv⟩
  refine wp_seq (wp_refuseIf hv (covers_locked (v := v.within w) hm)) ?_
  rintro _ s l ⟨hv, -⟩
  refine wp_mono (wp_commitLocked hC hm hv (hown _ _ ?_)) ?_
  · refine OwnMove.settled (v := v.within w) hnewest hmirrored ?_ (Option.some.inj hw)
    intro t ht
    simp only [Bool.and_eq_true, decide_eq_true_eq] at ht
    exact ht.1.1
  · intro r s l h
    cases r with
    | ok a =>
      obtain ⟨v, hm, hv⟩ := h
      exact ⟨v, hm.1, hv⟩
    | error e => exact h

/-- `_acknowledge`. -/
theorem wp_acknowledgePrepare (hC : Lawful C)
    (hown : ∀ v x, OwnMove c call.descriptor.correlationId v x → Allows C v x) (h : Recalls K s l) :
    wp C (c.acknowledge call) (Ends (fun _ => Recalls K) (Recalls K)) s l := by
  refine wp_bind (wp_peekOutside hC outside_recalls h _) ?_ fun _ _ _ h => h.elim
  intro current s l h
  refine wp_bind (wp_refuseIfOutside h) ?_ fun _ _ _ h => h
  rintro _ s l ⟨h, -⟩
  refine wp_exclusiveLocked hC (fun _ _ h => h) h ?_
  rintro s l ⟨v, hm, hv⟩
  refine wp_seq (wp_checkedPrepare hC hv (covers_locked hm)) ?_
  intro _ s l hv
  refine wp_seq (wp_boundPrepare hC hv (covers_locked hm)) ?_
  rintro _ s l ⟨hv, -⟩
  refine wp_seq (wp_renamed (wp_decide hC hv (covers_locked hm))) ?_
  intro allowed s l hv
  refine wp_seq (wp_checkedPrepare hC hv (covers_locked hm)) ?_
  intro _ s l hv
  refine wp_seq (wp_audit hC hv (covers_locked hm)) ?_
  intro _ s l hv
  refine wp_seq (wp_refuseIf hv (covers_locked hm)) ?_
  rintro _ s l ⟨hv, -⟩
  refine wp_transactionLocked hC ⟨v, hm, hv⟩ fun v s l hm hv => ?_
  refine wp_seq (wp_boundPrepare hC hv (covers_locked (v := v.within v.stores.db) hm)) ?_
  rintro _ s l ⟨hv, hbound⟩
  refine wp_seq (wp_checkedPrepare hC hv (covers_locked (v := v.within v.stores.db) hm)) ?_
  intro _ s l hv
  exact wp_movePrepare hC hown hm hv (callerBound_newest hbound) (callerBound_consistent hbound)

/-- `_quarantine`. -/
theorem wp_quarantinePrepare (hC : Lawful C)
    (hown : ∀ v x, OwnMove c call.descriptor.correlationId v x → Allows C v x) (h : Recalls K s l) :
    wp C (c.quarantine call) (fun _ => Recalls K) s l := by
  suffices hends : wp C (c.quarantine call) (Ends (fun _ => Recalls K) (Recalls K)) s l from
    wp_mono hends fun r s l h => by cases r <;> exact h
  refine wp_bind (wp_peekOutside hC outside_recalls h _) ?_ fun _ _ _ h => h.elim
  intro current s l h
  refine wp_bind (wp_refuseIfOutside h) ?_ fun _ _ _ h => h
  rintro _ s l ⟨h, -⟩
  refine wp_bind (P := fun _ => Recalls K) ?_ ?_ fun _ _ _ h => h
  · refine wp_mono (wp_attempt (wp_renamed (wp_writeAuditOutside hC outside_recalls h
      fun _ _ _ h => h))) ?_
    intro r s l h
    cases r with
    | error e => exact h
    | ok found => cases found <;> exact h
  intro _ s l h
  refine wp_exclusiveLocked hC (fun _ _ h => h) h ?_
  rintro s l ⟨v, hm, hv⟩
  refine wp_seq (wp_boundPrepare hC hv (covers_locked hm)) ?_
  rintro _ s l ⟨hv, -⟩
  refine wp_transactionLocked hC ⟨v, hm, hv⟩ fun v s l hm hv => ?_
  refine wp_seq (wp_boundPrepare hC hv (covers_locked (v := v.within v.stores.db) hm)) ?_
  rintro _ s l ⟨hv, hbound⟩
  exact wp_movePrepare hC hown hm hv (callerBound_newest hbound) (callerBound_consistent hbound)

theorem wp_calling {phase : Phase} (hsteps : CallerSteps C) (hK : CallerFields K) (h : Recalls K s l) :
    wp C (.perform (Act.remember fun m => { m with callerPhase := phase }))
      (Ends (fun _ => Recalls K) fun _ _ => False) s l :=
  wp_remember outside_recalls h (fun s l _ => hsteps s l phase l.memory.callerCurrent)
    fun _ l h => hK l.memory phase l.memory.callerCurrent h

theorem wp_preparingKeeping {receipt : Receipt} (hC : Lawful C)
    (hown : ∀ v x, OwnMove c call.descriptor.correlationId v x → Allows C v x) (hsteps : CallerSteps C)
    (hK : CallerFields K) (h : Recalls K s l) :
    wp C (c.preparing call receipt) (Ends (fun _ => Recalls K) (Recalls K)) s l := by
  refine wp_onError (P := Ends (fun _ => Recalls K) (Recalls K)) ?_ (fun _ _ _ h => h) ?_
  · refine wp_bind (wp_askOutside hC outside_recalls h) ?_ fun _ _ _ h => h
    intro _ s l h
    refine wp_bind (wp_calling hsteps hK h) ?_ fun _ _ _ h => h.elim
    intro _ s l h
    refine wp_bind (wp_acknowledgePrepare hC hown h) ?_ fun _ _ _ h => h
    intro _ s l h
    exact wp_return h
  · intro e s l h
    refine wp_bind (wp_calling hsteps hK h) ?_ fun _ _ _ h => h.elim
    intro _ s l h
    refine wp_mono (wp_swallow (wp_quarantinePrepare hC hown h)) ?_
    intro r s l h
    cases r with
    | ok a => exact h
    | error e => exact h.elim

/-- The create of a preparation. -/
theorem wp_createKeeping (hC : Lawful C) (hmove : ∀ v x, PrepareMove c call v x → Allows C v x)
    (h : Recalls K s l) :
    wp C (c.create .overlay call) (Ends (fun _ => Recalls K) (Recalls K)) s l := by
  refine wp_create hC outside_recalls outside_recalls (fun _ _ h => h) (fun _ _ _ _ h => h)
    (fun _ _ v x _ hx _ => hmove v x (.created hx)) ?_ ?_ h
  · intro s₀ l₀ v s l h₀ _ hm hk
    have hsame : l.memory = l₀.memory := hk.memory.trans hm
    exact (congrArg K hsame).mpr h₀
  · intro s₀ l₀ v effect raised s l h₀ _ hm hk
    have hsame : l.memory = l₀.memory := hk.memory.trans hm
    exact (congrArg K hsame).mpr h₀

/-- **`prepare`.** -/
theorem wp_prepareKeeping {identity : RequestIdentity} (hC : Lawful C)
    (hmove : ∀ v x, PrepareMove c call v x → Allows C v x) (hsteps : CallerSteps C)
    (hK : CallerFields K) (h : Recalls K s l) :
    wp C (c.prepare call identity) (Ends (fun _ => Recalls K) (Recalls K)) s l := by
  have hown : ∀ v x, OwnMove c call.descriptor.correlationId v x → Allows C v x :=
    fun v x hx => hmove v x (.own hx)
  refine wp_bind (wp_refuseIfOutside h) ?_ fun _ _ _ h => h
  rintro _ s l ⟨h, -⟩
  refine wp_bind (wp_askOutside hC outside_recalls h) ?_ fun _ _ _ h => h
  intro _ s l h
  refine wp_bind (wp_askOutside hC outside_recalls h) ?_ fun _ _ _ h => h
  intro _ s l h
  have hbody : wp C (do
      ask
      let receipt ← renamed (c.create .overlay call) (asMandatory "session_create_failed")
      refuseIf (receipt.state ≠ .publishedPendingCaller ∨ receipt.dispatchAllowed)
        "governance.caller_receipt_invalid"
      .perform (Act.remember fun m =>
        { m with callerCurrent := some call.descriptor, callerPhase := .preparing })
      c.preparing call receipt) (Ends (fun _ => Recalls K) (Recalls K)) s l := by
    refine wp_bind (wp_askOutside hC outside_recalls h) ?_ fun _ _ _ h => h
    intro _ s l h
    refine wp_bind (wp_renamed (wp_createKeeping hC hmove h)) ?_ fun _ _ _ h => h
    intro receipt s l h
    refine wp_bind (wp_refuseIfOutside h) ?_ fun _ _ _ h => h
    rintro _ s l ⟨h, -⟩
    refine wp_bind (wp_remember (E := fun _ _ => False) (P := Recalls K) outside_recalls h
      (fun s l _ => hsteps s l .preparing (some call.descriptor))
      fun _ l h => hK l.memory .preparing (some call.descriptor) h) ?_ fun _ _ _ h => h.elim
    intro _ s l h
    exact wp_preparingKeeping hC hown hsteps hK h
  refine wp_ensuringRemember hbody (fun r => ?_) (fun s l => hsteps s l .idle none) ?_
  · refine ⟨fun _ _ _ _ h => ?_, fun _ _ _ h => ?_⟩ <;> cases r <;> exact h
  · intro r s l h
    cases r with
    | ok receipt => exact hK l.memory .idle none h
    | error e => exact hK l.memory .idle none h

end

end ProjectMaya
