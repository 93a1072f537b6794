import ProjectMaya.ResetSpec

/-! # What an attempt at a switch does to the stores

`prepareSwitch` in the same terms as a reset: it stages its rows from stores in which the
reset session still is the slot's session (`SwitchMove`), publishes and settles them, and
leaves a confirmation only when it returns (`wp_prepareSwitch`). -/

namespace ProjectMaya

open Logic

/-- The statements of a switch, from `o` to `w`. -/
structure SwitchRows (call : SwitchCall) (d : SwitchDescriptor) (now : SwitchSource) (raw : Bytes)
    (o w : Db) : Prop where
  statements : ∃ db₁ db₂ db₃ db₄ db₅ db₆,
    o.endSession now.source call.endedAt "session_switch" = (db₁, 1) ∧
    db₁.reopenSession now.target = (db₂, 1) ∧
    db₂.setLifecycle now.source .active .ended = (db₃, 1) ∧
    db₃.setLifecycle now.target .ended .active = (db₄, 1) ∧
    db₄.moveRoute (fun r => r.routeSlot = d.routeSlot && r.sessionId = now.source &&
      r.routeVersion = 2 && r.principal = d.principal && r.correlationId = now.correlation)
      now.target 3 d.correlationId = some (db₅, 1) ∧
    db₅.insertTransition (d.transitionRow (now.generation + 1) raw) = some db₆ ∧
    db₆.updateProjection (now.generation + 1) (digest raw) now.generation = (w, 1)

/-- What `source` of the switch has read. -/
structure SwitchFrom (c : Coordinator) (db : Db) (index : Bytes) (m : Memory) (now : SwitchSource) :
    Prop where
  state : stateInTransaction c db = .ok (now.generation, now.routes, now.raw)
  index : index = now.raw
  acknowledged : db.unacknowledged = false
  route : now.routes.get? c.binding.routeSlot = some ⟨now.source, 2⟩
  lineage : validateResetLineage c.binding now.source .callerAcknowledged db = .ok now.target
  confirmed : resetConfirmed c.binding m now.source db = .ok ()
  row : ∃ r, db.routes.find? c.binding.routeSlot = some r ∧ r.correlationId = now.correlation

/-- The changes of the stores that an attempt at a switch can make. -/
inductive SwitchMove (c : Coordinator) (call : SwitchCall) (v : View) : Stores → Prop
  | staged {d : SwitchDescriptor} {now : SwitchSource} {raw : Bytes} {w : Db} :
      d.fits c.binding = true → SwitchFrom c v.stores.db v.stores.index v.memory now →
      now.agrees d = true → d.correlationId = call.correlationId →
      SwitchRows call d now raw v.stores.db w → SwitchMove c call v { v.stores with db := w }
  | own {x : Stores} : OwnMove c call.correlationId v x → SwitchMove c call v x

theorem validateSwitchLineage_find {b : Binding} {target source : String} {expected : TransitionState}
    {db : Db} {history : Transition × Transition} {t : Transition}
    (h : validateSwitchLineage b target expected db = .ok (source, history, t)) :
    db.transitions.find? t.correlationId = some t := by
  unfold validateSwitchLineage at h
  simp only [bind_eq_ok, ensure_eq_ok, fetch_eq_ok, pure_eq_ok, Prod.mk.injEq] at h
  obtain ⟨r, -, -, -, t', ht, -, -, child, -, -, -, -, -, -, -, found, -, -, -, -, -, -, -, -, -, rfl⟩ := h
  have hkey := (Table.find?_eq_some.mp ht).2
  exact Table.find?_eq_some.mpr ⟨(Table.find?_eq_some.mp ht).1, rfl⟩

section

variable {C : Contract Shared Process} {c : Coordinator} {v : View} {s : Shared} {l : Process}
  {E : Shared → Process → Prop} {K : Memory → Prop} {d : SwitchDescriptor} {call : SwitchCall}

theorem wp_checkSwitch (hC : Lawful C) (hv : At v s l) (hE : Covers E v) :
    wp C (c.checkSwitch d) (Ends (fun _ s l => At v s l ∧ d.fits c.binding = true) E) s l := by
  refine wp_seq (wp_refuseIf hv hE) ?_
  rintro _ s l ⟨hv, hfits⟩
  refine wp_mono (wp_ask hC hv hE) ?_
  intro r s l h
  cases r with
  | ok a => exact ⟨h, not_not.mp hfits⟩
  | error e => exact h

theorem wp_checkedSwitch (hC : Lawful C) (hv : At v s l) (hE : Covers E v) :
    wp C (c.checkSwitch d) (Ends (fun _ s l => At v s l) E) s l := by
  refine wp_mono (wp_checkSwitch hC hv hE) ?_
  intro r s l h
  cases r with
  | ok a => exact h.1
  | error e => exact h

theorem wp_authorizeSwitch (hC : Lawful C) (hv : At v s l) (hE : Covers E v) :
    wp C (c.authorizeSwitch d) (Ends (fun _ s l => At v s l ∧ d.fits c.binding = true) E) s l := by
  refine wp_seq (wp_checkSwitch hC hv hE) ?_
  rintro _ s l ⟨hv, hfits⟩
  refine wp_mono (wp_permitAll hv (fun s l hv => wp_checkedSwitch hC hv hE) ?_) ?_
  · intro p hp s l hv
    simp only [List.mem_cons, List.not_mem_nil, or_false] at hp
    rcases hp with rfl | rfl | rfl | rfl | rfl | rfl <;> exact wp_permit hC hv hE
  · intro r s l h
    cases r with
    | ok a => exact ⟨h, hfits⟩
    | error e => exact h

/-- `source`, with the check of the tables that it is given. -/
theorem wp_switchSource {state : Code (Int × Routes × Bytes)} {o : Db} (hC : Lawful C)
    (hv : At v s l) (hE : Covers E v) (hdb : v.tx.getD v.stores.db = o)
    (hstate : ∀ s l, At v s l → wp C state (Ends (fun b s l => At v s l ∧
      stateInTransaction c o = .ok b) E) s l) :
    wp C (c.switchSource state) (Ends (fun now s l => At v s l ∧
      SwitchFrom c o v.stores.index v.memory now) E) s l := by
  refine wp_seq (wp_ask hC hv hE) ?_
  intro _ s l hv
  refine wp_seq (hstate s l hv) ?_
  rintro ⟨generation, routes, raw⟩ s l ⟨hv, hstate⟩
  refine wp_seq (wp_readIndex hC hv hE) ?_
  rintro index s l ⟨hv, rfl⟩
  refine wp_seq (wp_select hC hv hE _) ?_
  rintro pending s l ⟨hv, hpending⟩
  refine wp_seq (wp_refuseIf hv hE) ?_
  rintro _ s l ⟨hv, hsettled⟩
  simp only [not_or, ne_eq, not_not, Bool.not_eq_true] at hsettled
  refine wp_seq (wp_require hv hE) ?_
  rintro route s l ⟨hv, hroute⟩
  refine wp_seq (wp_refuseIf hv hE) ?_
  rintro _ s l ⟨hv, hversion⟩
  refine wp_seq (wp_permit hC hv hE) ?_
  intro _ s l hv
  refine wp_seq (wp_select hC hv hE _) ?_
  rintro found s l ⟨hv, -⟩
  refine wp_seq (wp_require hv hE) ?_
  rintro parent s l ⟨hv, -⟩
  refine wp_seq (wp_permit hC hv hE) ?_
  intro _ s l hv
  refine wp_seq (wp_inspect hC hv hE _) ?_
  rintro target s l ⟨hv, hlineage⟩
  unfold Coordinator.requireResetConfirmation
  rw [Prog.bind_assoc]
  refine wp_seq (wp_ask hC hv hE) ?_
  intro _ s l hv
  refine wp_seq (wp_recall hC hv hE (resetConfirmed c.binding · route.sessionId ·)) ?_
  rintro _ s l ⟨hv, hconfirmed⟩
  refine wp_seq (wp_select hC hv hE _) ?_
  rintro found s l ⟨hv, hfound⟩
  refine wp_seq (wp_require hv hE) ?_
  rintro row s l ⟨hv, hrow⟩
  refine wp_seq (wp_refuseIf hv hE) ?_
  rintro _ s l ⟨hv, -⟩
  rw [hdb] at hlineage hconfirmed hfound hpending
  obtain ⟨hrow, -⟩ := Option.filter_eq_some_iff.mp (hfound.symm.trans hrow)
  have hroute : routes.get? c.binding.routeSlot = some ⟨route.sessionId, 2⟩ := by
    rw [hroute, ← not_not.mp hversion]
  exact wp_return ⟨hv, hstate, hsettled.1, hpending.symm.trans hsettled.2, hroute, hlineage,
    hconfirmed, row, hrow, rfl⟩

theorem switchBound_mirrored {history : Option (Transition × Transition)} {expected : TransitionState}
    {x : Stores} {raw : Bytes} (h : switchBound c d history expected true x.db x.index = .ok raw) :
    Mirrored c x := by
  unfold switchBound at h
  simp only [bind_eq_ok, ensure_eq_ok, pure_eq_ok, Prod.exists] at h
  obtain ⟨generation, routes, raw', hstate, source, t, u, r, -, _,
    ⟨_, _, _, _, _, _, _, _, hindex, _⟩, rfl⟩ := h
  exact ⟨generation, routes, hindex trivial ▸ hstate⟩

theorem switchBound_newest {history : Option (Transition × Transition)} {expected : TransitionState}
    {projection : Bool} {db : Db} {index raw : Bytes}
    (h : switchBound c d history expected projection db index = .ok raw) :
    Newest db d.correlationId ∧
      ∃ generation routes, stateInTransaction c db = .ok (generation, routes, raw) := by
  unfold switchBound at h
  simp only [bind_eq_ok, ensure_eq_ok, pure_eq_ok, Prod.exists] at h
  obtain ⟨generation, routes, raw', hstate, source, t, u, r, hlineage, _,
    ⟨_, _, _, hid, _, hgeneration, _, _, _, hothers⟩, rfl⟩ := h
  have hr := validateSwitchLineage_find hlineage
  rw [hid] at hr
  exact ⟨newest_of_receipt hstate hr hgeneration hothers, generation, routes, hstate⟩

theorem wp_boundSwitch {expected : TransitionState} {projection : Bool} (hC : Lawful C) (hv : At v s l)
    (hE : Covers E v) :
    wp C (c.boundSwitch d expected projection) (Ends (fun raw s l => At v s l ∧
      switchBound c d v.memory.switchHistory expected projection (v.tx.getD v.stores.db)
        v.stores.index = .ok raw) E) s l := by
  refine wp_seq (wp_ask hC hv hE) ?_
  intro _ s l hv
  refine wp_seq (wp_peek hC hv _) ?_
  rintro _ s l ⟨hv, rfl⟩
  rw [← hv.memory]
  exact wp_checked hC hv hE _

theorem wp_changeSwitch {purpose : Purpose} {old new : TransitionState} (hC : Lawful C)
    (hown : ∀ v x, OwnMove c d.correlationId v x → Allows C v x) (h : Locked K s l) :
    wp C (c.changeSwitch d purpose old new) (Ends (fun _ => Locked K) (Locked K)) s l := by
  obtain ⟨v, hm, hv⟩ := h
  refine wp_seq (wp_checkSwitch hC hv (covers_locked hm)) ?_
  rintro _ s l ⟨hv, -⟩
  refine wp_transactionLocked hC ⟨v, hm, hv⟩ fun v s l hm hv => ?_
  refine wp_seq (wp_boundSwitch hC hv (covers_locked (v := v.within v.stores.db) hm)) ?_
  rintro raw s l ⟨hv, hbound⟩
  exact wp_settleOwn hC hown hm hv (switchBound_newest hbound).1 (switchBound_mirrored hbound)
    fun v s l hm hv => wp_checkedSwitch hC hv (covers_locked hm)

/-- `_publish`. -/
theorem wp_publishSwitch (hC : Lawful C) (hown : ∀ v x, OwnMove c d.correlationId v x → Allows C v x)
    (h : Idle K s l) :
    wp C (c.publishSwitch d) (Ends (fun _ => Recalls K) (Recalls K)) s l := by
  refine wp_exclusiveKeeping (I := fun m tx => K m ∧ tx = none) (J := fun _ m _ => K m) hC
    (fun _ _ h => h.1) (fun _ _ _ h => h) h ?_
  rintro v s l ⟨hm, htx⟩ hv
  refine wp_seq (wp_authorizeSwitch hC hv (covers_locked hm)) ?_
  rintro _ s l ⟨hv, -⟩
  refine wp_seq (wp_boundSwitch hC hv (covers_locked hm)) ?_
  rintro raw s l ⟨hv, hbound⟩
  rw [htx] at hbound
  obtain ⟨hnewest, generation, routes, hraw⟩ := switchBound_newest hbound
  refine wp_seq (wp_publishLocked hC hown hm hv hraw hnewest) ?_
  rintro _ s l ⟨v, hm, hv⟩
  refine wp_seq (wp_checkedSwitch hC hv (covers_locked hm)) ?_
  intro _ s l hv
  refine wp_seq (wp_changeSwitch hC hown ⟨v, hm, hv⟩) ?_
  rintro _ s l ⟨v, hm, hv⟩
  refine wp_seq (wp_permit hC hv (covers_locked hm)) ?_
  intro _ s l hv
  refine wp_seq (wp_checkedSwitch hC hv (covers_locked hm)) ?_
  intro _ s l hv
  refine wp_seq (wp_audit hC hv (covers_locked hm)) ?_
  intro _ s l hv
  refine wp_seq (wp_checkedSwitch hC hv (covers_locked hm)) ?_
  intro _ s l hv
  exact wp_changeSwitch hC hown ⟨v, hm, hv⟩

/-! ## The rows -/

/-- `switchRows` inside a transaction whose working copy is `o`. -/
theorem wp_switchRows {now : SwitchSource} {raw : Bytes} {o : Db} (hC : Lawful C)
    (hv : At (v.within o) s l) (hE : ∀ w, Covers E (v.within w)) :
    wp C (Coordinator.switchRows call d now raw) (Ends (fun _ s l =>
      ∃ w, SwitchRows call d now raw o w ∧ At (v.within w) s l) E) s l := by
  have hE' : Covers E v := fun tx temp s l hv => hE o tx temp s l hv
  refine wp_seq (wp_executeOne hC hv hE' _) ?_
  rintro _ s l ⟨db₁, h₁, hv⟩
  refine wp_seq (wp_executeOne hC hv hE' _) ?_
  rintro _ s l ⟨db₂, h₂, hv⟩
  refine wp_seq (wp_executeOne hC hv hE' _) ?_
  rintro _ s l ⟨db₃, h₃, hv⟩
  refine wp_seq (wp_executeOne hC hv hE' _) ?_
  rintro _ s l ⟨db₄, h₄, hv⟩
  refine wp_seq (wp_executeOne hC hv hE' _) ?_
  rintro _ s l ⟨db₅, h₅, hv⟩
  refine wp_seq (wp_execute hC hv hE' _) ?_
  rintro _ s l ⟨db₆, h₆, hv⟩
  refine wp_mono (wp_executeOne hC hv hE' _) ?_
  intro r s l h
  cases r with
  | error e => exact h
  | ok a =>
    obtain ⟨w, h₇, hv⟩ := h
    simp only [Option.map_eq_some_iff, Prod.mk.injEq, and_true, exists_eq_right] at h₆
    exact ⟨w, ⟨db₁, db₂, db₃, db₄, db₅, db₆, Option.some.inj h₁, Option.some.inj h₂, Option.some.inj h₃,
      Option.some.inj h₄, h₅, h₆, Option.some.inj h₇⟩, hv⟩

/-- The last check before the commit only looks. -/
theorem wp_switchedRows {now : SwitchSource} {raw : Bytes} (hC : Lawful C) (hv : At v s l)
    (hE : Covers E v) :
    wp C (c.switchedRows d now raw) (Ends (fun _ s l => At v s l) E) s l := by
  refine wp_seq (wp_stateInTransaction hC hv hE c) ?_
  rintro ⟨generation, routes, finalRaw⟩ s l ⟨hv, -⟩
  refine wp_seq (wp_refuseIf hv hE) ?_
  rintro _ s l ⟨hv, -⟩
  refine wp_seq (wp_select hC hv hE _) ?_
  rintro ended s l ⟨hv, -⟩
  cases ended with
  | none => exact hv.covered hE
  | some ended => ?_
  refine wp_seq (P := fun _ s l => At v s l) (wp_return hv) ?_
  intro ended s l hv
  refine wp_seq (wp_select hC hv hE _) ?_
  rintro reopened s l ⟨hv, -⟩
  refine wp_mono (wp_refuseIf hv hE) ?_
  intro r s l h
  cases r with
  | ok a => exact h.1
  | error e => exact h

/-- The transaction of `switch`. -/
theorem wp_stageSwitch {first : SwitchSource} (hC : Lawful C)
    (hmove : ∀ v x, SwitchMove c call v x → Allows C v x) (hd : d.correlationId = call.correlationId)
    (hm : K v.memory) (hv : At (v.within v.stores.db) s l) :
    wp C (c.stageSwitch call d first)
      (Ends (fun _ => Holding fun v => K v.memory ∧ v.tx = none) (Locked K)) s l := by
  have hE : ∀ tx, Covers (Locked K) { v with tx } := fun tx => covers_locked hm
  refine wp_seq (wp_switchSource (o := v.stores.db) hC hv (hE _) rfl fun s l hv =>
    wp_stateInTransaction hC hv (hE _) c) ?_
  rintro now s l ⟨hv, hnow⟩
  refine wp_seq (wp_select hC hv (hE _) _) ?_
  rintro known s l ⟨hv, -⟩
  refine wp_seq (wp_refuseIf hv (hE _)) ?_
  rintro _ s l ⟨hv, hstale⟩
  simp only [not_or, ne_eq, not_not] at hstale
  obtain ⟨-, -, hsource, htarget, hcorrelation, hagrees, -⟩ := hstale
  refine wp_seq (wp_switchRows hC hv fun w => hE _) ?_
  rintro _ s l ⟨w, hrows, hv⟩
  refine wp_seq (wp_authorizeSwitch hC hv (hE _)) ?_
  rintro _ s l ⟨hv, hfits⟩
  refine wp_seq (wp_ask hC hv (hE _)) ?_
  intro _ s l hv
  refine wp_seq (wp_checkedSwitch hC hv (hE _)) ?_
  intro _ s l hv
  refine wp_seq (wp_switchedRows hC hv (hE _)) ?_
  intro _ s l hv
  refine wp_seq (wp_assign hC hv fun l => ⟨rfl, rfl, rfl, rfl, rfl⟩) ?_
  intro _ s l hv
  have hsame : now.agrees d = true := by
    unfold SwitchSource.agrees at hagrees ⊢
    rw [← hsource, ← htarget, ← hcorrelation]
    exact hagrees
  exact wp_commitLocked hC hm hv (hmove _ _ (.staged (v := v.within w) hfits
    hnow hsame hd hrows))

/-- The check of the tables of `source` outside of a transaction. -/
theorem wp_switchState (hC : Lawful C) (hv : At v s l) (hE : Covers E v) :
    wp C c.state (Ends (fun b s l => At v s l ∧
      stateInTransaction c (v.tx.getD v.stores.db) = .ok b) E) s l := by
  refine wp_mono (wp_state hC hv hE c) ?_
  intro r s l h
  cases r with
  | ok b =>
    obtain ⟨hv, htx, hb⟩ := h
    rw [htx]
    exact ⟨hv, hb⟩
  | error e => exact h

/-- `source` outside of a transaction only looks. -/
theorem wp_lookSwitch (hC : Lawful C) (hv : At v s l) (hE : Covers E v) :
    wp C (c.switchSource c.state) (Ends (fun _ s l => At v s l) E) s l := by
  refine wp_mono (wp_switchSource (o := v.tx.getD v.stores.db) hC hv hE rfl fun s l hv =>
    wp_switchState hC hv hE) ?_
  intro r s l h
  cases r with
  | ok a => exact h.1
  | error e => exact h

/-- `switch`. -/
theorem wp_switch (hC : Lawful C) (hmove : ∀ v x, SwitchMove c call v x → Allows C v x)
    (hd : d.correlationId = call.correlationId)
    (h : Recalls K s l) : wp C (c.switch call d) (Ends (fun _ => Idle K) (Recalls K)) s l := by
  refine wp_bind (wp_askOutside hC outside_recalls h) ?_ fun _ _ _ h => h
  intro _ s l h
  refine wp_bind (P := Ends (fun _ => Recalls K) fun _ _ => False)
    (wp_assignOutside hC outside_recalls h (fun _ => ⟨rfl, rfl, rfl⟩) fun _ _ h => h) ?_
    fun _ _ _ h => h.elim
  intro _ s l h
  refine wp_mapError (P := Ends (fun _ => Idle K) (Recalls K)) ?_ (fun _ _ _ h => h) ?_
  · refine wp_exclusiveKeeping (I := fun m _ => K m) (J := fun _ m tx => K m ∧ tx = none) hC
      (fun _ _ h => h) (fun _ _ _ h => h.1) h ?_
    intro v s l hm hv
    refine wp_seq (wp_authorizeSwitch hC hv (covers_locked hm)) ?_
    rintro _ s l ⟨hv, -⟩
    refine wp_seq (wp_lookSwitch hC hv (covers_locked hm)) ?_
    intro first s l hv
    exact wp_transactionLocked hC ⟨v, hm, hv⟩ fun v s l hm hv =>
      wp_stageSwitch hC hmove hd hm hv
  · intro e s l he
    have hafter : Recalls K s l := he
    refine wp_bind (wp_peekOutside hC outside_recalls hafter _) ?_ fun _ _ _ h => h.elim
    intro attempted s l h
    cases e <;> exact wp_pure h

/-- `authenticated_switch`. -/
theorem wp_authenticatedSwitch {identity : RequestIdentity} {target : String} (hC : Lawful C)
    (h : Recalls K s l) :
    wp C (c.authenticatedSwitch call identity target) (Ends (fun d => Recalls fun m => K m ∧
      d.correlationId = call.correlationId ∧ d.targetSession = target) (Recalls K)) s l := by
  refine wp_renamed ?_
  refine wp_bind (wp_askOutside hC outside_recalls h) ?_ fun _ _ _ h => h
  intro _ s l h
  refine wp_bind (wp_refuseIfOutside h) ?_ fun _ _ _ h => h
  rintro _ s l ⟨h, -⟩
  refine wp_exclusiveLocked hC (fun _ _ h => h.1) h ?_
  rintro s l ⟨v, hm, hv⟩
  refine wp_seq (wp_ask hC hv (covers_locked hm)) ?_
  intro _ s l hv
  refine wp_seq (wp_permit hC hv (covers_locked hm)) ?_
  intro _ s l hv
  refine wp_seq (wp_lookSwitch hC hv (covers_locked hm)) ?_
  intro now s l hv
  refine wp_seq (wp_refuseIf hv (covers_locked hm)) ?_
  rintro _ s l ⟨hv, htarget⟩
  refine wp_seq (wp_authorizeSwitch hC hv (covers_locked hm)) ?_
  rintro _ s l ⟨hv, -⟩
  exact wp_return ⟨v, ⟨hm, rfl, (not_not.mp htarget).symm⟩, hv⟩

/-! ## The acknowledgement and the cleanup -/

theorem switchConfirmation_target {b : Binding} {target : String} {db : Db}
    {confirmation : SwitchConfirmation} (h : switchConfirmation b target db = .ok confirmation) :
    confirmation.target = target := by
  unfold switchConfirmation at h
  simp only [bind_eq_ok, pure_eq_ok] at h
  obtain ⟨_, _, rfl⟩ := h
  rfl

/-- The fields of a switch preparation that say where it is. -/
def Memory.switching (m : Memory) (phase : Phase) (current : Option SwitchDescriptor)
    (history : Option (Transition × Transition)) (cleanup : Option SwitchDescriptor) : Memory :=
  { m with switchPhase := phase, switchCurrent := current, switchHistory := history,
           switchCleanup := cleanup }

/-- The property does not look at these fields, nor does it mind a confirmation that goes. -/
structure SwitchFields (K : Memory → Prop) : Prop where
  switching : ∀ m phase current history cleanup, K m → K (m.switching phase current history cleanup)
  forgetting : ∀ m, K m → K { m with switchConfirmed := none }

/-- What the switch to a session assigns to its fields. -/
inductive SwitchRecall (target : String) (m : Memory) : Memory → Prop
  | moved (phase : Phase) (current : Option SwitchDescriptor)
      (history : Option (Transition × Transition)) (cleanup : Option SwitchDescriptor) :
      SwitchRecall target m (m.switching phase current history cleanup)
  | forgot (cleanup : Option SwitchDescriptor) :
      SwitchRecall target m { m with switchConfirmed := none, switchCleanup := cleanup }
  | confirmed {confirmation : SwitchConfirmation} : confirmation.target = target →
      SwitchRecall target m { m with switchConfirmed := some confirmation }

/-- The contract lets the process make these assignments. -/
def SwitchSteps (C : Contract Shared Process) (target : String) : Prop :=
  ∀ s l m, SwitchRecall target l.memory m → C.guar s l s { l with memory := m }

/-- `_clear_owned_switch_security_candidate`. -/
theorem wp_clearSwitchSecurity {target : String} (hC : Lawful C) (hsteps : SwitchSteps C target)
    (hK : SwitchFields K) (h : Locked K s l) :
    wp C Coordinator.clearSwitchSecurity (Ends (fun _ => Locked K) (Locked K)) s l := by
  obtain ⟨v, hm, hv⟩ := h
  refine wp_seq (wp_ask hC hv (covers_locked hm)) ?_
  intro _ s l hv
  exact wp_rememberLocked hC ⟨v, hm, hv⟩
    (fun s l => hsteps s l _ (.moved l.memory.switchPhase l.memory.switchCurrent l.memory.switchHistory
      l.memory.switchCurrent))
    fun m hm => hK.switching m m.switchPhase m.switchCurrent m.switchHistory m.switchCurrent hm

/-- `_acknowledge`: it returns a confirmation of the descriptor's session. -/
theorem wp_acknowledgeSwitch (hC : Lawful C) (hown : ∀ v x, OwnMove c d.correlationId v x → Allows C v x)
    {target : String} (hsteps : SwitchSteps C target) (hK : SwitchFields K) (h : Recalls K s l) :
    wp C (c.acknowledgeSwitch d) (Ends (fun confirmation => Recalls fun m =>
      K m ∧ confirmation.target = d.targetSession) (Recalls K)) s l := by
  refine wp_bind (wp_peekOutside hC outside_recalls h _) ?_ fun _ _ _ h => h.elim
  intro current s l h
  refine wp_bind (wp_refuseIfOutside h) ?_ fun _ _ _ h => h
  rintro _ s l ⟨h, -⟩
  refine wp_exclusiveLocked hC (fun _ _ h => h.1) h ?_
  rintro s l ⟨v, hm, hv⟩
  refine wp_seq (wp_checkedSwitch hC hv (covers_locked hm)) ?_
  intro _ s l hv
  refine wp_seq (wp_boundSwitch hC hv (covers_locked hm)) ?_
  rintro _ s l ⟨hv, -⟩
  refine wp_seq (wp_permit hC hv (covers_locked hm)) ?_
  intro _ s l hv
  refine wp_seq (wp_checkedSwitch hC hv (covers_locked hm)) ?_
  intro _ s l hv
  refine wp_seq (wp_clearSwitchSecurity hC hsteps hK ⟨v, hm, hv⟩) ?_
  rintro _ s l ⟨v, hm, hv⟩
  refine wp_seq (wp_peek hC hv _) ?_
  rintro cleanup s l ⟨hv, -⟩
  refine wp_seq (wp_refuseIf hv (covers_locked hm)) ?_
  rintro _ s l ⟨hv, -⟩
  refine wp_seq (wp_checkedSwitch hC hv (covers_locked hm)) ?_
  intro _ s l hv
  refine wp_seq (wp_audit hC hv (covers_locked hm)) ?_
  intro _ s l hv
  refine wp_seq (wp_checkedSwitch hC hv (covers_locked hm)) ?_
  intro _ s l hv
  refine wp_seq (wp_changeSwitch hC hown ⟨v, hm, hv⟩) ?_
  rintro _ s l ⟨v, hm, hv⟩
  refine wp_seq (wp_boundSwitch hC hv (covers_locked hm)) ?_
  rintro _ s l ⟨hv, -⟩
  refine wp_mono (wp_inspect hC hv (covers_locked hm) _) ?_
  intro r s l h
  cases r with
  | ok confirmation => exact ⟨v, ⟨hm, switchConfirmation_target h.2⟩, h.1⟩
  | error e => exact h

/-- The loop of `_quarantine`. -/
theorem wp_quarantineSwitch {states : List TransitionState} (hC : Lawful C)
    (hown : ∀ v x, OwnMove c d.correlationId v x → Allows C v x) (h : Locked K s l) :
    wp C (c.quarantineSwitch d states) (Ends (fun _ => Locked K) (Locked K)) s l := by
  induction states generalizing s l with
  | nil => exact wp_return h
  | cons state states ih =>
    obtain ⟨v, hm, hv⟩ := h
    refine wp_seq (wp_attempt (wp_boundSwitch hC hv (covers_locked hm))) ?_
    intro found s l hfound
    have h : Locked K s l := by
      cases found with
      | none => exact hfound
      | some raw => exact ⟨v, hm, hfound.1⟩
    split
    · exact ih h
    · refine wp_transactionLocked hC h fun v s l hm hv => ?_
      refine wp_seq (wp_boundSwitch hC hv (covers_locked (v := v.within v.stores.db) hm)) ?_
      rintro raw s l ⟨hv, hbound⟩
      exact wp_settleOwn hC hown hm hv (switchBound_newest hbound).1 (switchBound_mirrored hbound)
        fun v s l hm hv => (wp_return hv : wp C (pure () : Code Unit) _ s l)

/-- `_quarantine`. -/
theorem wp_cleanSwitch (hC : Lawful C) (hown : ∀ v x, OwnMove c d.correlationId v x → Allows C v x)
    (h : Recalls K s l) : wp C (c.cleanSwitch d) (fun _ => Recalls K) s l := by
  suffices hends : wp C (c.cleanSwitch d) (Ends (fun _ => Recalls K) (Recalls K)) s l from
    wp_mono hends fun r s l h => by cases r <;> exact h
  refine wp_bind (wp_peekOutside hC outside_recalls h _) ?_ fun _ _ _ h => h.elim
  intro current s l h
  refine wp_bind (wp_refuseIfOutside h) ?_ fun _ _ _ h => h
  rintro _ s l ⟨h, -⟩
  refine wp_bind (P := fun _ => Recalls K) ?_ ?_ fun _ _ _ h => h
  · refine wp_mono (wp_attempt (wp_renamed (wp_writeAuditOutside hC outside_recalls h
      fun _ _ _ h => h))) ?_
    intro r s l h
    cases r with
    | error e => exact h
    | ok found => cases found <;> exact h
  intro _ s l h
  exact wp_exclusiveLocked hC (fun _ _ h => h) h fun s l h => wp_quarantineSwitch hC hown h

/-! ## The preparation -/

theorem wp_switching {phase : Phase} {target : String} (hsteps : SwitchSteps C target)
    (hK : SwitchFields K) (h : Recalls K s l) :
    wp C (.perform (Act.remember fun m => { m with switchPhase := phase }))
      (Ends (fun _ => Recalls K) fun _ _ => False) s l :=
  wp_remember outside_recalls h
    (fun s l _ => hsteps s l _ (.moved phase l.memory.switchCurrent l.memory.switchHistory
      l.memory.switchCleanup))
    fun _ l h => hK.switching l.memory phase l.memory.switchCurrent l.memory.switchHistory
      l.memory.switchCleanup h

theorem wp_preparingSwitch (hC : Lawful C) (hown : ∀ v x, OwnMove c d.correlationId v x → Allows C v x)
    {target : String} (hsteps : SwitchSteps C target) (hK : SwitchFields K) (h : Recalls K s l) :
    wp C (c.preparingSwitch d) (Ends (fun confirmation => Recalls fun m =>
      K m ∧ confirmation.target = d.targetSession) (Recalls K)) s l := by
  refine wp_onError (P := Ends (fun confirmation => Recalls fun m =>
      K m ∧ confirmation.target = d.targetSession) (Recalls K)) ?_ (fun _ _ _ h => h) ?_
  · refine wp_bind (wp_askOutside hC outside_recalls h) ?_ fun _ _ _ h => h
    intro _ s l h
    refine wp_bind (wp_switching hsteps hK h) ?_ fun _ _ _ h => h.elim
    intro _ s l h
    exact wp_acknowledgeSwitch hC hown hsteps hK h
  · intro e s l h
    refine wp_bind (wp_switching hsteps hK h) ?_ fun _ _ _ h => h.elim
    intro _ s l h
    refine wp_mono (wp_swallow (wp_cleanSwitch hC hown h)) ?_
    intro r s l h
    cases r with
    | ok a => exact h
    | error e => exact h.elim

/-- `prepare` captures the history before the rows change. -/
theorem wp_captureHistory {target : String} (hC : Lawful C) (hsteps : SwitchSteps C target)
    (hK : SwitchFields K) (h : Recalls K s l) :
    wp C (c.captureHistory d) (Ends (fun _ => Recalls K) (Recalls K)) s l := by
  refine wp_exclusiveLocked hC (fun _ _ h => h) h ?_
  rintro s l ⟨v, hm, hv⟩
  refine wp_seq (wp_authorizeSwitch hC hv (covers_locked hm)) ?_
  rintro _ s l ⟨hv, -⟩
  refine wp_seq (wp_lookSwitch hC hv (covers_locked hm)) ?_
  intro source s l hv
  refine wp_seq (wp_refuseIf hv (covers_locked hm)) ?_
  rintro _ s l ⟨hv, -⟩
  refine wp_seq (wp_inspect hC hv (covers_locked hm) _) ?_
  rintro history s l ⟨hv, -⟩
  exact wp_rememberLocked hC ⟨v, hm, hv⟩
    (fun s l => hsteps s l _ (.moved l.memory.switchPhase l.memory.switchCurrent (some history)
      l.memory.switchCleanup))
    fun m hm => hK.switching m m.switchPhase m.switchCurrent (some history) m.switchCleanup hm

/-- The `try` block of `prepare`, once the old confirmation is gone. -/
theorem wp_runSwitch {identity : RequestIdentity} {target : String} (hC : Lawful C)
    (hmove : ∀ v x, SwitchMove c call v x → Allows C v x) (hsteps : SwitchSteps C target)
    (hK : SwitchFields K)
    (h : Recalls (fun m => K { m with switchConfirmed := none, switchCleanup := none }) s l) :
    wp C (c.runSwitch call identity target) (Ends (fun p => Recalls fun m =>
      K m ∧ p.2.target = p.1.sessionId ∧ p.1.sessionId = target) (Recalls K)) s l := by
  refine wp_bind (wp_remember (E := fun _ _ => False) (P := Recalls K) outside_recalls h
    (fun s l _ => hsteps s l _ (.forgot none))
    fun _ _ h => h) ?_ fun _ _ _ h => h.elim
  intro _ s l h
  refine wp_bind (wp_authenticatedSwitch hC h) ?_ fun _ _ _ h => h
  rintro d s l ⟨h, hd, htarget⟩
  have hown : ∀ v x, OwnMove c d.correlationId v x → Allows C v x := fun v x hx =>
    hmove v x (.own (hd ▸ hx))
  refine wp_bind (wp_captureHistory hC hsteps hK h) ?_ fun _ _ _ h => h
  intro _ s l h
  refine wp_bind (wp_renamed (wp_switch (K := K) hC hmove hd h)) ?_ fun _ _ _ h => h
  intro _ s l h
  refine wp_bind (wp_publishSwitch hC hown h) ?_ fun _ _ _ h => h
  intro _ s l h
  refine wp_bind (wp_remember (E := fun _ _ => False) (P := Recalls K) outside_recalls h
    (fun s l _ => hsteps s l _ (.moved .preparing (some d) l.memory.switchHistory l.memory.switchCleanup))
    fun _ l h => hK.switching l.memory .preparing (some d) l.memory.switchHistory
      l.memory.switchCleanup h) ?_ fun _ _ _ h => h.elim
  intro _ s l h
  refine wp_bind (wp_preparingSwitch hC hown hsteps hK h) ?_ fun _ _ _ h => h
  rintro confirmation s l ⟨h, hconfirmation⟩
  exact wp_return ⟨h, hconfirmation, htarget⟩

/-- What a returned preparation remembers. -/
def SwitchConfirmed (K : Memory → Prop) (target : String) (receipt : PreparedReceipt) (m : Memory) : Prop :=
  receipt.sessionId = target ∧ ∃ m' confirmation, K m' ∧ confirmation.target = receipt.sessionId ∧
    m = { m' with switchConfirmed := some confirmation }

/-- **`prepare`.**  `I` is known of the memory before, and `K` when the old confirmation is
gone; there is a new one exactly when the call returns. -/
theorem wp_prepareSwitch {identity : RequestIdentity} {target : String} {I : Memory → Prop}
    (hC : Lawful C) (hmove : ∀ v x, SwitchMove c call v x → Allows C v x) (hsteps : SwitchSteps C target)
    (hK : SwitchFields K) (hI : ∀ m, I m → K { m with switchConfirmed := none, switchCleanup := none })
    (h : Recalls I s l) :
    wp C (c.prepareSwitch call identity target) (Ends
      (fun receipt => Recalls (SwitchConfirmed K target receipt))
      (Recalls fun m => I m ∨ K m)) s l := by
  refine wp_bind (wp_askOutside hC outside_recalls h) ?_ fun _ _ _ h => .inl h
  intro _ s l h
  refine wp_bind (wp_askOutside hC outside_recalls h) ?_ fun _ _ _ h => .inl h
  intro _ s l h
  have hfails : wp C (Prog.onError (c.runSwitch call identity target)
      (.perform (Act.remember fun m => { m with switchConfirmed := none }))) (Ends
      (fun p => Recalls fun m => K m ∧ p.2.target = p.1.sessionId ∧
        p.1.sessionId = target) (Recalls K)) s l := by
    refine wp_onError (wp_runSwitch hC hmove hsteps hK (hI _ h)) (fun _ _ _ h => h) ?_
    intro e s l h
    refine wp_mono (wp_remember (E := fun _ _ => False) (P := Recalls K) outside_recalls
      (show Recalls K s l from h)
      (fun s l _ => hsteps s l _ (.forgot l.memory.switchCleanup))
      fun _ l h => hK.forgetting l.memory h) ?_
    intro r s l h
    cases r with
    | ok a => exact h
    | error e => exact h.elim
  refine wp_bind (P := Ends (fun p => Recalls fun m => K m ∧ p.2.target = p.1.sessionId ∧
    p.1.sessionId = target) (Recalls K)) ?_ ?_ fun _ _ _ h => .inr h
  · refine wp_ensuringRemember hfails (fun r => ?_)
      (fun s l => hsteps s l _ (.moved .idle none none none)) ?_
    · refine ⟨fun _ _ _ _ h => ?_, fun _ _ _ h => ?_⟩ <;> cases r <;> exact h
    · intro r s l h
      cases r with
      | ok p => exact ⟨hK.switching l.memory .idle none none none h.1, h.2⟩
      | error e => exact hK.switching l.memory .idle none none none h
  · rintro ⟨receipt, confirmation⟩ s l ⟨h, hconfirmation, htarget⟩
    refine wp_bind (wp_remember (E := fun _ _ => False)
      (P := Recalls (SwitchConfirmed K target receipt)) outside_recalls h
      (fun s l _ => hsteps s l _ (.confirmed (hconfirmation.trans htarget)))
      fun _ l h => ⟨htarget, l.memory, confirmation, h, hconfirmation, rfl⟩) ?_ fun _ _ _ h => h.elim
    intro _ s l h
    exact wp_return h

end

end ProjectMaya
