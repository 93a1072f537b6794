import ProjectMaya.Locked

/-! # What an attempt at a reset does to the stores

`prepareReset` under any contract that lets it stage the rows of a reset from stores in
which the source still is the slot's session (`ResetMove`), publish and settle them.  Of the
memory it keeps any property that its own fields do not disturb (`wp_runReset`), and it
leaves a confirmation only when it returns (`wp_prepareReset`). -/

namespace ProjectMaya

open Logic

/-- The statements of a reset, from `o` to `w`. -/
structure ResetRows (call : ResetCall) (d : ResetDescriptor) (now : ResetSource) (raw : Bytes)
    (o w : Db) : Prop where
  statements : ∃ db₁ db₂ db₃ db₄ db₅ db₆,
    o.endSession now.session call.endedAt "session_reset" = (db₁, 1) ∧
    db₁.setLifecycle now.session .active .ended = (db₂, 1) ∧
    db₂.insertSession (d.sessionRow call.startedAt) = some db₃ ∧
    db₃.insertOwner d.ownerRow = some db₄ ∧
    db₄.moveRoute (fun r => r.routeSlot = d.routeSlot && r.sessionId = now.session &&
      r.routeVersion = now.version && r.principal = d.principal) d.targetSession (now.version + 1)
      d.correlationId = some (db₅, 1) ∧
    db₅.insertTransition (d.transitionRow (now.generation + 1) raw) = some db₆ ∧
    db₆.updateProjection (now.generation + 1) (digest raw) now.generation = (w, 1)

/-- The changes of the stores that an attempt at a reset can make. -/
inductive ResetMove (c : Coordinator) (call : ResetCall) (v : View) : Stores → Prop
  | staged {d : ResetDescriptor} {now : ResetSource} {raw : Bytes} {w : Db} :
      d.fits c.binding = true → resetSource c v.stores.db v.stores.index = .ok now →
      now.session = d.sourceSession → now.version = d.expectedRouteVersion →
      d.correlationId = call.correlationId → d.targetSession = call.targetSession →
      ResetRows call d now raw v.stores.db w → ResetMove c call v { v.stores with db := w }
  | own {x : Stores} : OwnMove c call.correlationId v x → ResetMove c call v x

section

variable {C : Contract Shared Process} {c : Coordinator} {v : View} {s : Shared} {l : Process}
  {E : Shared → Process → Prop} {K : Memory → Prop} {d : ResetDescriptor} {call : ResetCall}

theorem wp_executeOne {w : Db} (hC : Lawful C) (hv : At (v.within w) s l) (hE : Covers E v)
    (stmt : Db → Option (Db × Nat)) :
    wp C (executeOne stmt) (Ends (fun _ s l => ∃ w', stmt w = some (w', 1) ∧ At (v.within w') s l) E)
      s l := by
  refine wp_seq (wp_execute hC hv hE stmt) ?_
  rintro changed s l ⟨w', hw', hv⟩
  refine wp_mono (wp_refuseIf hv hE) ?_
  intro r s l h
  cases r with
  | ok a =>
    obtain ⟨hv, hchanged⟩ := h
    exact ⟨w', not_not.mp hchanged ▸ hw', hv⟩
  | error e => exact h

theorem wp_checkReset (hC : Lawful C) (hv : At v s l) (hE : Covers E v) :
    wp C (c.checkReset d) (Ends (fun _ s l => At v s l ∧ d.fits c.binding = true) E) s l := by
  refine wp_seq (wp_refuseIf hv hE) ?_
  rintro _ s l ⟨hv, hfits⟩
  refine wp_mono (wp_ask hC hv hE) ?_
  intro r s l h
  cases r with
  | ok a => exact ⟨h, not_not.mp hfits⟩
  | error e => exact h

theorem wp_checkedReset (hC : Lawful C) (hv : At v s l) (hE : Covers E v) :
    wp C (c.checkReset d) (Ends (fun _ s l => At v s l) E) s l := by
  refine wp_mono (wp_checkReset hC hv hE) ?_
  intro r s l h
  cases r with
  | ok a => exact h.1
  | error e => exact h

theorem wp_authorizeReset (hC : Lawful C) (hv : At v s l) (hE : Covers E v) :
    wp C (c.authorizeReset d) (Ends (fun _ s l => At v s l ∧ d.fits c.binding = true) E) s l := by
  refine wp_seq (wp_checkReset hC hv hE) ?_
  rintro _ s l ⟨hv, hfits⟩
  refine wp_mono (wp_permitAll hv (fun s l hv => wp_checkedReset hC hv hE) ?_) ?_
  · intro p hp s l hv
    simp only [List.mem_cons, List.not_mem_nil, or_false] at hp
    rcases hp with rfl | rfl | rfl | rfl <;> exact wp_permit hC hv hE
  · intro r s l h
    cases r with
    | ok a => exact ⟨h, hfits⟩
    | error e => exact h

/-- What `_bound` has checked: the descriptor's transition is the newest one. -/
theorem wp_boundReset {expected : TransitionState} {projection : Bool} (hC : Lawful C) (hv : At v s l)
    (hE : Covers E v) :
    wp C (c.boundReset d expected projection) (Ends (fun raw s l => At v s l ∧
      resetBound c d expected projection (v.tx.getD v.stores.db) v.stores.index = .ok raw) E) s l := by
  refine wp_seq (wp_ask hC hv hE) ?_
  intro _ s l hv
  exact wp_checked hC hv hE _

theorem resetBound_mirrored {expected : TransitionState} {x : Stores} {raw : Bytes}
    (h : resetBound c d expected true x.db x.index = .ok raw) : Mirrored c x := by
  unfold resetBound at h
  simp only [bind_eq_ok, ensure_eq_ok, fetch_eq_ok, pure_eq_ok] at h
  obtain ⟨⟨generation, routes, raw'⟩, hstate, t, ht, _, _, _, ⟨_, _, _, hindex, _⟩, _⟩ := h
  exact ⟨generation, routes, hindex trivial ▸ hstate⟩

theorem resetBound_newest {expected : TransitionState} {projection : Bool} {db : Db} {index raw : Bytes}
    (h : resetBound c d expected projection db index = .ok raw) :
    Newest db d.correlationId ∧ ∃ generation routes, stateInTransaction c db = .ok (generation, routes, raw) := by
  unfold resetBound at h
  simp only [bind_eq_ok, ensure_eq_ok, fetch_eq_ok, pure_eq_ok] at h
  obtain ⟨⟨generation, routes, raw'⟩, hstate, t, ht, _, _, _, ⟨hreceipt, _, _, _, hothers⟩, _, _, _, _, rfl⟩ := h
  exact ⟨newest_of_receipt hstate ht hreceipt.generation hothers, generation, routes, hstate⟩

theorem wp_changeReset {purpose : Purpose} {old new : TransitionState} (hC : Lawful C)
    (hown : ∀ v x, OwnMove c d.correlationId v x → Allows C v x) (h : Locked K s l) :
    wp C (c.changeReset d purpose old new) (Ends (fun _ => Locked K) (Locked K)) s l := by
  obtain ⟨v, hm, hv⟩ := h
  refine wp_seq (wp_checkReset hC hv (covers_locked hm)) ?_
  rintro _ s l ⟨hv, -⟩
  refine wp_transactionLocked hC ⟨v, hm, hv⟩ fun v s l hm hv => ?_
  refine wp_seq (wp_boundReset hC hv (covers_locked (v := v.within v.stores.db) hm)) ?_
  rintro raw s l ⟨hv, hbound⟩
  exact wp_settleOwn hC hown hm hv (resetBound_newest hbound).1 (resetBound_mirrored hbound)
    fun v s l hm hv => wp_checkedReset hC hv (covers_locked hm)

/-- A look at the tables while only a property of the memory matters. -/
theorem wp_checkLocked (hC : Lawful C) (h : Locked K s l) :
    wp C (c.checkReset d) (Ends (fun _ => Locked K) (Locked K)) s l := by
  obtain ⟨v, hm, hv⟩ := h
  refine wp_mono (wp_checkedReset hC hv (covers_locked hm)) ?_
  intro r s l h
  cases r with
  | ok a => exact ⟨v, hm, h⟩
  | error e => exact h

/-- `_publish`. -/
theorem wp_publishReset (hC : Lawful C) (hown : ∀ v x, OwnMove c d.correlationId v x → Allows C v x)
    (h : Idle K s l) :
    wp C (c.publishReset d) (Ends (fun _ => Recalls K) (Recalls K)) s l := by
  refine wp_exclusiveKeeping (I := fun m tx => K m ∧ tx = none) (J := fun _ m _ => K m) hC
    (fun _ _ h => h.1) (fun _ _ _ h => h) h ?_
  rintro v s l ⟨hm, htx⟩ hv
  refine wp_seq (wp_authorizeReset hC hv (covers_locked hm)) ?_
  rintro _ s l ⟨hv, -⟩
  refine wp_seq (wp_boundReset hC hv (covers_locked hm)) ?_
  rintro raw s l ⟨hv, hbound⟩
  rw [htx] at hbound
  obtain ⟨hnewest, generation, routes, hraw⟩ := resetBound_newest hbound
  refine wp_seq (wp_publishLocked hC hown hm hv hraw hnewest) ?_
  intro _ s l h
  refine wp_seq (wp_checkLocked hC h) ?_
  intro _ s l h
  refine wp_seq (wp_changeReset hC hown h) ?_
  rintro _ s l ⟨v, hm, hv⟩
  refine wp_seq (wp_permit hC hv (covers_locked hm)) ?_
  intro _ s l hv
  refine wp_seq (wp_checkedReset hC hv (covers_locked hm)) ?_
  intro _ s l hv
  refine wp_seq (wp_audit hC hv (covers_locked hm)) ?_
  intro _ s l hv
  refine wp_seq (wp_checkedReset hC hv (covers_locked hm)) ?_
  intro _ s l hv
  exact wp_changeReset hC hown ⟨v, hm, hv⟩

/-! ## The rows -/

/-- The transaction of `reset`. -/
theorem wp_stageReset {first : ResetSource} (hC : Lawful C)
    (hmove : ∀ v x, ResetMove c call v x → Allows C v x) (hd : d.correlationId = call.correlationId)
    (htarget : d.targetSession = call.targetSession) (hm : K v.memory)
    (hv : At (v.within v.stores.db) s l) :
    wp C (c.stageReset call d first)
      (Ends (fun _ => Holding fun v => K v.memory ∧ v.tx = none) (Locked K)) s l := by
  have hE : ∀ tx, Covers (Locked K) { v with tx } := fun tx => covers_locked hm
  refine wp_seq (wp_inspect hC hv (hE _) _) ?_
  rintro now s l ⟨hv, hnow⟩
  refine wp_seq (wp_select hC hv (hE _) _) ?_
  rintro known s l ⟨hv, -⟩
  refine wp_seq (wp_refuseIf hv (hE _)) ?_
  rintro _ s l ⟨hv, hstale⟩
  simp only [not_or, ne_eq, not_not] at hstale
  obtain ⟨-, -, hsession, hversion, -, -, -⟩ := hstale
  refine wp_seq (wp_executeOne hC hv (hE _) _) ?_
  rintro _ s l ⟨db₁, h₁, hv⟩
  refine wp_seq (wp_executeOne hC hv (hE _) _) ?_
  rintro _ s l ⟨db₂, h₂, hv⟩
  refine wp_seq (wp_execute hC hv (hE _) _) ?_
  rintro _ s l ⟨db₃, h₃, hv⟩
  refine wp_seq (wp_execute hC hv (hE _) _) ?_
  rintro _ s l ⟨db₄, h₄, hv⟩
  refine wp_seq (wp_executeOne hC hv (hE _) _) ?_
  rintro _ s l ⟨db₅, h₅, hv⟩
  refine wp_seq (wp_execute hC hv (hE _) _) ?_
  rintro _ s l ⟨db₆, h₆, hv⟩
  refine wp_seq (wp_executeOne hC hv (hE _) _) ?_
  rintro _ s l ⟨w, h₇, hv⟩
  refine wp_seq (wp_authorizeReset hC hv (hE _)) ?_
  rintro _ s l ⟨hv, hfits⟩
  refine wp_seq (wp_assign hC hv fun l => ⟨rfl, rfl, rfl, rfl, rfl⟩) ?_
  intro _ s l hv
  refine wp_commitLocked hC hm hv (hmove _ _ ?_)
  simp only [Option.map_eq_some_iff, Prod.mk.injEq, and_true, exists_eq_right] at h₃ h₄ h₆
  exact ResetMove.staged (v := v.within w) hfits hnow hsession hversion hd
    htarget ⟨db₁, db₂, db₃, db₄, db₅, db₆, Option.some.inj h₁, Option.some.inj h₂, h₃, h₄, h₅, h₆,
      Option.some.inj h₇⟩

theorem wp_source (hC : Lawful C) (hv : At v s l) (hE : Covers E v) :
    wp C c.source (Ends (fun now s l => At v s l ∧ v.tx = none ∧
      resetSource c v.stores.db v.stores.index = .ok now) E) s l := by
  refine wp_query hC hv hE _ ?_
  intro s l now hv' hnow
  split at hnow
  · cases hnow
  · rename_i hnot
    have htx : v.tx = none := by
      rw [← hv'.tx]
      cases h : l.tx with
      | none => rfl
      | some w => simp [h] at hnot
    have h := orBoundary_ok hnow
    rw [hv'.visible, hv'.stores, htx] at h
    exact ⟨htx, h⟩

/-- `reset`. -/
theorem wp_reset (hC : Lawful C) (hmove : ∀ v x, ResetMove c call v x → Allows C v x)
    (hd : d.correlationId = call.correlationId) (htarget : d.targetSession = call.targetSession)
    (h : Recalls K s l) : wp C (c.reset call d) (Ends (fun _ => Idle K) (Recalls K)) s l := by
  refine wp_bind (wp_askOutside hC outside_recalls h) ?_ fun _ _ _ h => h
  intro _ s l h
  refine wp_bind (P := Ends (fun _ => Recalls K) fun _ _ => False)
    (wp_assignOutside hC outside_recalls h (fun _ => ⟨rfl, rfl, rfl⟩) fun _ _ h => h) ?_
    fun _ _ _ h => h.elim
  intro _ s l h
  refine wp_mapError (P := Ends (fun _ => Idle K) (Recalls K)) ?_ (fun _ _ _ h => h) ?_
  · refine wp_exclusiveKeeping (I := fun m _ => K m) (J := fun _ m tx => K m ∧ tx = none) hC
      (fun _ _ h => h) (fun _ _ _ h => h.1) h ?_
    intro v s l hm hv
    refine wp_seq (wp_authorizeReset hC hv (covers_locked hm)) ?_
    rintro _ s l ⟨hv, -⟩
    refine wp_seq (wp_source hC hv (covers_locked hm)) ?_
    rintro first s l ⟨hv, -⟩
    exact wp_transactionLocked hC ⟨v, hm, hv⟩ fun v s l hm hv => 
      wp_stageReset hC hmove hd htarget hm hv
  · intro e s l he
    have hafter : Recalls K s l := he
    refine wp_bind (wp_peekOutside hC outside_recalls hafter _) ?_ fun _ _ _ h => h.elim
    intro attempted s l h
    cases e <;> exact wp_pure h

/-- `authenticated_reset`. -/
theorem wp_authenticatedReset {identity : RequestIdentity} (hC : Lawful C) (h : Recalls K s l) :
    wp C (c.authenticatedReset call identity) (Ends (fun d => Recalls fun m => K m ∧
      d.correlationId = call.correlationId ∧ d.targetSession = call.targetSession) (Recalls K)) s l := by
  refine wp_renamed ?_
  refine wp_bind (wp_askOutside hC outside_recalls h) ?_ fun _ _ _ h => h
  intro _ s l h
  refine wp_bind (wp_refuseIfOutside h) ?_ fun _ _ _ h => h
  rintro _ s l ⟨h, -⟩
  refine wp_exclusiveLocked hC (fun _ _ h => h.1) h ?_
  rintro s l ⟨v, hm, hv⟩
  refine wp_seq (wp_ask hC hv (covers_locked hm)) ?_
  intro _ s l hv
  refine wp_seq (wp_permit hC hv (covers_locked hm)) ?_
  intro _ s l hv
  refine wp_seq (wp_source hC hv (covers_locked hm)) ?_
  rintro now s l ⟨hv, -⟩
  refine wp_seq (wp_authorizeReset hC hv (covers_locked hm)) ?_
  rintro _ s l ⟨hv, -⟩
  exact wp_return ⟨v, ⟨hm, rfl, rfl⟩, hv⟩

/-! ## The acknowledgement and the cleanup -/

theorem resetConfirmation_target {b : Binding} {target : String} {db : Db}
    {confirmation : ResetConfirmation} (h : resetConfirmation b target db = .ok confirmation) :
    confirmation.target = target := by
  unfold resetConfirmation at h
  simp only [bind_eq_ok, ensure_eq_ok, fetch_eq_ok, pure_eq_ok] at h
  obtain ⟨t, _, _, _, rfl⟩ := h
  rfl

/-- `_acknowledge`: it returns a confirmation of the descriptor's session. -/
theorem wp_acknowledgeReset (hC : Lawful C) (hown : ∀ v x, OwnMove c d.correlationId v x → Allows C v x)
    (h : Recalls K s l) :
    wp C (c.acknowledgeReset d) (Ends (fun confirmation => Recalls fun m =>
      K m ∧ confirmation.target = d.targetSession) (Recalls K)) s l := by
  refine wp_bind (wp_peekOutside hC outside_recalls h _) ?_ fun _ _ _ h => h.elim
  intro current s l h
  refine wp_bind (wp_refuseIfOutside h) ?_ fun _ _ _ h => h
  rintro _ s l ⟨h, -⟩
  refine wp_exclusiveLocked hC (fun _ _ h => h.1) h ?_
  rintro s l ⟨v, hm, hv⟩
  refine wp_seq (wp_checkedReset hC hv (covers_locked hm)) ?_
  intro _ s l hv
  refine wp_seq (wp_boundReset hC hv (covers_locked hm)) ?_
  rintro _ s l ⟨hv, -⟩
  refine wp_seq (wp_ask hC hv (covers_locked hm)) ?_
  intro _ s l hv
  refine wp_seq (wp_checkedReset hC hv (covers_locked hm)) ?_
  intro _ s l hv
  refine wp_seq (wp_permit hC hv (covers_locked hm)) ?_
  intro _ s l hv
  refine wp_seq (wp_checkedReset hC hv (covers_locked hm)) ?_
  intro _ s l hv
  refine wp_seq (wp_audit hC hv (covers_locked hm)) ?_
  intro _ s l hv
  refine wp_seq (wp_checkedReset hC hv (covers_locked hm)) ?_
  intro _ s l hv
  refine wp_seq (wp_changeReset hC hown ⟨v, hm, hv⟩) ?_
  rintro _ s l ⟨v, hm, hv⟩
  refine wp_seq (wp_boundReset hC hv (covers_locked hm)) ?_
  rintro _ s l ⟨hv, -⟩
  refine wp_mono (wp_inspect hC hv (covers_locked hm) _) ?_
  intro r s l h
  cases r with
  | ok confirmation => exact ⟨v, ⟨hm, resetConfirmation_target h.2⟩, h.1⟩
  | error e => exact h

/-- The loop of `_quarantine`. -/
theorem wp_quarantineReset {states : List TransitionState} (hC : Lawful C)
    (hown : ∀ v x, OwnMove c d.correlationId v x → Allows C v x) (h : Locked K s l) :
    wp C (c.quarantineReset d states) (Ends (fun _ => Locked K) (Locked K)) s l := by
  induction states generalizing s l with
  | nil => exact wp_return h
  | cons state states ih =>
    obtain ⟨v, hm, hv⟩ := h
    refine wp_seq (wp_attempt (wp_boundReset hC hv (covers_locked hm))) ?_
    intro found s l hfound
    have h : Locked K s l := by
      cases found with
      | none => exact hfound
      | some raw => exact ⟨v, hm, hfound.1⟩
    split
    · exact ih h
    · refine wp_transactionLocked hC h fun v s l hm hv => ?_
      refine wp_seq (wp_boundReset hC hv (covers_locked (v := v.within v.stores.db) hm)) ?_
      rintro raw s l ⟨hv, hbound⟩
      exact wp_settleOwn hC hown hm hv (resetBound_newest hbound).1 (resetBound_mirrored hbound)
        fun v s l hm hv => (wp_return hv : wp C (pure () : Code Unit) _ s l)

/-- `_quarantine`. -/
theorem wp_cleanReset (hC : Lawful C) (hown : ∀ v x, OwnMove c d.correlationId v x → Allows C v x)
    (h : Recalls K s l) : wp C (c.cleanReset d) (fun _ => Recalls K) s l := by
  suffices hends : wp C (c.cleanReset d) (Ends (fun _ => Recalls K) (Recalls K)) s l from
    wp_mono hends fun r s l h => by cases r <;> exact h
  refine wp_bind (wp_peekOutside hC outside_recalls h _) ?_ fun _ _ _ h => h.elim
  intro current s l h
  refine wp_bind (wp_refuseIfOutside h) ?_ fun _ _ _ h => h
  rintro _ s l ⟨h, -⟩
  refine wp_bind (P := fun _ => Recalls K) ?_ ?_ fun _ _ _ h => h
  · refine wp_mono (wp_attempt (wp_renamed (wp_writeAuditOutside hC outside_recalls h
      fun _ _ _ h => h))) ?_
    intro r s l h
    cases r with
    | error e => exact h
    | ok found => cases found <;> exact h
  intro _ s l h
  exact wp_exclusiveLocked hC (fun _ _ h => h) h fun s l h => wp_quarantineReset hC hown h

/-! ## The preparation -/

/-- The fields of a reset preparation that say where it is. -/
def Memory.resetting (m : Memory) (phase : Phase) (current : Option ResetDescriptor) : Memory :=
  { m with resetPhase := phase, resetCurrent := current }

/-- The property does not look at these fields, nor does it mind a confirmation that goes. -/
structure ResetFields (K : Memory → Prop) : Prop where
  resetting : ∀ m phase current, K m → K (m.resetting phase current)
  forgetting : ∀ m, K m → K { m with resetConfirmed := none }

/-- What the reset of a session assigns to its fields. -/
inductive ResetRecall (target : String) (m : Memory) : Memory → Prop
  | moved (phase : Phase) (current : Option ResetDescriptor) :
      ResetRecall target m (m.resetting phase current)
  | forgot : ResetRecall target m { m with resetConfirmed := none }
  | confirmed {confirmation : ResetConfirmation} : confirmation.target = target →
      ResetRecall target m { m with resetConfirmed := some confirmation }

/-- The contract lets the process make these assignments. -/
def ResetSteps (C : Contract Shared Process) (target : String) : Prop :=
  ∀ s l m, ResetRecall target l.memory m → C.guar s l s { l with memory := m }

theorem wp_resetting {phase : Phase} {target : String} (hsteps : ResetSteps C target)
    (hK : ResetFields K) (h : Recalls K s l) :
    wp C (.perform (Act.remember fun m => { m with resetPhase := phase }))
      (Ends (fun _ => Recalls K) fun _ _ => False) s l :=
  wp_remember outside_recalls h
    (fun s l _ => hsteps s l _ (.moved phase l.memory.resetCurrent))
    fun _ l h => hK.resetting l.memory phase l.memory.resetCurrent h

theorem wp_forgetReset {target : String} (hsteps : ResetSteps C target) {R : Shared → Process → Prop}
    (hR : Outside C R)
    (h : R s l) (hK : ∀ s l, R s l → K { l.memory with resetConfirmed := none }) :
    wp C (.perform (Act.remember fun m => { m with resetConfirmed := none }))
      (Ends (fun _ => Recalls K) fun _ _ => False) s l :=
  wp_remember hR h (fun s l _ => hsteps s l _ .forgot) hK

theorem wp_preparingReset (hC : Lawful C) (hown : ∀ v x, OwnMove c d.correlationId v x → Allows C v x)
    {target : String} (hsteps : ResetSteps C target) (hK : ResetFields K) (h : Recalls K s l) :
    wp C (c.preparingReset d) (Ends (fun confirmation => Recalls fun m =>
      K m ∧ confirmation.target = d.targetSession) (Recalls K)) s l := by
  refine wp_onError (P := Ends (fun confirmation => Recalls fun m =>
      K m ∧ confirmation.target = d.targetSession) (Recalls K)) ?_ (fun _ _ _ h => h) ?_
  · refine wp_bind (wp_askOutside hC outside_recalls h) ?_ fun _ _ _ h => h
    intro _ s l h
    refine wp_bind (wp_resetting hsteps hK h) ?_ fun _ _ _ h => h.elim
    intro _ s l h
    exact wp_acknowledgeReset hC hown h
  · intro e s l h
    refine wp_bind (wp_resetting hsteps hK h) ?_ fun _ _ _ h => h.elim
    intro _ s l h
    refine wp_mono (wp_swallow (wp_cleanReset hC hown h)) ?_
    intro r s l h
    cases r with
    | ok a => exact h
    | error e => exact h.elim

/-- The `try` block of `prepare`, once the old confirmation is gone. -/
theorem wp_runReset {identity : RequestIdentity} (hC : Lawful C)
    (hmove : ∀ v x, ResetMove c call v x → Allows C v x) (hsteps : ResetSteps C call.targetSession) (hK : ResetFields K)
    (h : Recalls (fun m => K { m with resetConfirmed := none }) s l) :
    wp C (c.runReset call identity) (Ends (fun p => Recalls fun m =>
      K m ∧ p.2.target = p.1.sessionId ∧ p.1.sessionId = call.targetSession) (Recalls K)) s l := by
  refine wp_bind (wp_forgetReset hsteps outside_recalls h fun _ _ h => h) ?_ fun _ _ _ h => h.elim
  intro _ s l h
  refine wp_bind (wp_authenticatedReset hC h) ?_ fun _ _ _ h => h
  rintro d s l ⟨h, hd, htarget⟩
  have hown : ∀ v x, OwnMove c d.correlationId v x → Allows C v x := fun v x hx =>
    hmove v x (.own (hd ▸ hx))
  refine wp_bind (wp_renamed (wp_reset (K := K) hC hmove hd htarget h)) ?_ fun _ _ _ h => h
  intro _ s l h
  refine wp_bind (wp_publishReset hC hown h) ?_ fun _ _ _ h => h
  intro _ s l h
  refine wp_bind (wp_remember (E := fun _ _ => False) (P := Recalls K) outside_recalls h
    (fun s l _ => hsteps s l _ (.moved .preparing (some d)))
    fun _ l h => hK.resetting l.memory .preparing (some d) h) ?_ fun _ _ _ h => h.elim
  intro _ s l h
  refine wp_bind (wp_preparingReset hC hown hsteps hK h) ?_ fun _ _ _ h => h
  rintro confirmation s l ⟨h, hconfirmation⟩
  exact wp_return ⟨h, hconfirmation, htarget⟩

/-- What a returned preparation remembers. -/
def ResetConfirmed (K : Memory → Prop) (target : String) (receipt : PreparedReceipt) (m : Memory) : Prop :=
  receipt.sessionId = target ∧ ∃ m' confirmation, K m' ∧ confirmation.target = receipt.sessionId ∧
    m = { m' with resetConfirmed := some confirmation }

/-- **`prepare`.**  `I` is known of the memory before, and `K` when the old confirmation is
gone; there is a new one exactly when the call returns. -/
theorem wp_prepareReset {identity : RequestIdentity} {I : Memory → Prop} (hC : Lawful C)
    (hmove : ∀ v x, ResetMove c call v x → Allows C v x) (hsteps : ResetSteps C call.targetSession) (hK : ResetFields K)
    (hI : ∀ m, I m → K { m with resetConfirmed := none }) (h : Recalls I s l) :
    wp C (c.prepareReset call identity) (Ends
      (fun receipt => Recalls (ResetConfirmed K call.targetSession receipt))
      (Recalls fun m => I m ∨ K m)) s l := by
  refine wp_bind (wp_askOutside hC outside_recalls h) ?_ fun _ _ _ h => .inl h
  intro _ s l h
  refine wp_bind (wp_askOutside hC outside_recalls h) ?_ fun _ _ _ h => .inl h
  intro _ s l h
  have hfails : wp C (Prog.onError (c.runReset call identity)
      (.perform (Act.remember fun m => { m with resetConfirmed := none }))) (Ends
      (fun p => Recalls fun m => K m ∧ p.2.target = p.1.sessionId ∧
        p.1.sessionId = call.targetSession) (Recalls K)) s l := by
    refine wp_onError (wp_runReset hC hmove hsteps hK (hI _ h)) (fun _ _ _ h => h) ?_
    intro e s l h
    refine wp_mono (wp_forgetReset hsteps outside_recalls (show Recalls K s l from h)
      fun _ l h => hK.forgetting l.memory h) ?_
    intro r s l h
    cases r with
    | ok a => exact h
    | error e => exact h.elim
  refine wp_bind (P := Ends (fun p => Recalls fun m => K m ∧ p.2.target = p.1.sessionId ∧
    p.1.sessionId = call.targetSession) (Recalls K)) ?_ ?_ fun _ _ _ h => .inr h
  · refine wp_ensuringRemember hfails (fun r => ?_)
      (fun s l => hsteps s l _ (.moved .idle none)) ?_
    · refine ⟨fun _ _ _ _ h => ?_, fun _ _ _ h => ?_⟩ <;> cases r <;> exact h
    · intro r s l h
      cases r with
      | ok p => exact ⟨hK.resetting l.memory .idle none h.1, h.2⟩
      | error e => exact hK.resetting l.memory .idle none h
  · rintro ⟨receipt, confirmation⟩ s l ⟨h, hconfirmation, htarget⟩
    refine wp_bind (wp_remember (E := fun _ _ => False)
      (P := Recalls (ResetConfirmed K call.targetSession receipt)) outside_recalls h
      (fun s l _ => hsteps s l _ (.confirmed (hconfirmation.trans htarget)))
      fun _ l h => ⟨htarget, l.memory, confirmation, h, hconfirmation, rfl⟩) ?_ fun _ _ _ h => h.elim
    intro _ s l h
    exact wp_return h

end

end ProjectMaya
