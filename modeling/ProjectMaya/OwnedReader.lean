import ProjectMaya.Switch

/-! # The reader of created, reset and switched sessions

`CandidatePublishedSessionReader.read` with every overlay: the session of a route is
returned when its transition is acknowledged, and, for a reset or a switch, when the
lineage is the expected one and the process still has the confirmation of its own
preparation.

`selection` is what the tables, the index and the memory of the process select.  An entry
that `readOwned` returns is the selected one (`readOwned_selects`), and a read that nothing
disturbs returns it (`calm_readOwned`). -/

namespace ProjectMaya

open Logic

/-- The row that `_validated_entry` accepts for the route, whatever its operation. -/
structure Matches (c : Coordinator) (identity : RequestIdentity) (route : RouteEntry)
    (row : Session × RouteRow × Transition) : Prop where
  version : row.2.1.routeVersion = route.version
  target : row.2.2.targetSession = some route.sessionId
  state : row.2.2.state = .callerAcknowledged
  principal : row.2.2.principal = identity.actorId
  binding : row.2.2.bindingVersion = c.binding.bindingVersion

instance (c : Coordinator) (identity : RequestIdentity) (route : RouteEntry)
    (row : Session × RouteRow × Transition) : Decidable (Matches c identity route row) :=
  decidable_of_iff (row.2.1.routeVersion = route.version ∧
      row.2.2.targetSession = some route.sessionId ∧ row.2.2.state = .callerAcknowledged ∧
      row.2.2.principal = identity.actorId ∧ row.2.2.bindingVersion = c.binding.bindingVersion)
    ⟨fun ⟨h1, h2, h3, h4, h5⟩ => ⟨h1, h2, h3, h4, h5⟩,
      fun ⟨h1, h2, h3, h4, h5⟩ => ⟨h1, h2, h3, h4, h5⟩⟩

/-- The entry that `_validated_entry` makes of a route. -/
def entryOf (c : Coordinator) (route : RouteEntry) (row : Session × RouteRow × Transition) :
    SessionEntry where
  sessionKey := c.binding.routeSlot
  sessionId := route.sessionId
  createdAt := row.1.startedAt
  updatedAt := row.1.startedAt

namespace Coordinator

variable (c : Coordinator) (identity : RequestIdentity)

/-- The part of `_validated_entry` that depends on the operation of the transition. -/
def validatedLineage (route : RouteEntry) (row : Session × RouteRow × Transition) : Code Unit :=
  match row.2.2.operation with
  | .reset => do
    let _ ← inspect fun db _ =>
      validateResetLineage c.binding route.sessionId .callerAcknowledged db
    c.requireResetConfirmation route.sessionId
  | .switch => do
    let _ ← inspect fun db _ =>
      validateSwitchLineage c.binding route.sessionId .callerAcknowledged db
    c.requireSwitchConfirmation route.sessionId
  | operation =>
    refuseIf (operation ≠ .create ∨ row.1.parentSessionId ≠ none ∨ route.version ≠ 1)
      "governance.session_route_unavailable"

/-- `_validated_entry` with every overlay. -/
def validatedOwned : Code SessionEntry := do
  c.requireReader identity
  ask
  let route ← c.settledRoute .overlay
  let row ← select fun db => db.selectRoute c.binding.routeSlot
  let row ← require row "governance.session_route_unavailable"
  refuseIf (¬ Matches c identity route row) "governance.session_route_unavailable"
  c.validatedLineage route row
  return entryOf c route row

/-- `read(store, identity)` with every overlay. -/
def readOwned : Code SessionEntry :=
  renamed (do
    c.requireReader identity
    exclusive (c.validatedOwned identity)) readError

end Coordinator

/-! ## The selection -/

def selectedLineage (c : Coordinator) (m : Memory) (route : RouteEntry)
    (row : Session × RouteRow × Transition) (db : Db) : Except String Unit :=
  match row.2.2.operation with
  | .reset => do
    let _ ← validateResetLineage c.binding route.sessionId .callerAcknowledged db
    resetConfirmed c.binding m route.sessionId db
  | .switch => do
    let _ ← validateSwitchLineage c.binding route.sessionId .callerAcknowledged db
    switchConfirmed c.binding m route.sessionId db
  | operation => ensure (operation = .create ∧ row.1.parentSessionId = none ∧ route.version = 1)
      "governance.session_route_unavailable"

/-- The entry that the stores and the memory of the process select. -/
def selection (c : Coordinator) (x : Stores) (m : Memory) : Except String SessionEntry := do
  let (_, routes, raw) ← stateInTransaction c x.db
  ensure (x.index = raw ∧ x.db.unacknowledged = false) "governance.transition_recovery_required"
  let route ← fetch (routes.get? c.binding.routeSlot) "governance.session_route_unavailable"
  let row ← fetch (x.db.selectRoute c.binding.routeSlot) "governance.session_route_unavailable"
  ensure (Matches c c.binding.owner route row) "governance.session_route_unavailable"
  selectedLineage c m route row x.db
  return entryOf c route row

/-- What the entry of a selection stands for. -/
structure Selection (c : Coordinator) (x : Stores) (m : Memory) (entry : SessionEntry)
    (route : RouteEntry) (row : Session × RouteRow × Transition) : Prop where
  state : ∃ p, Consistent c x.db p ∧ x.index = projectionBytes p.instanceId p.databaseId
    p.generation (x.db.routes.rows.map RouteRow.entry)
  acknowledged : ∀ t ∈ x.db.transitions, t.state = .callerAcknowledged
  routed : Routes.get? (x.db.routes.rows.map RouteRow.entry) c.binding.routeSlot = some route
  selected : x.db.selectRoute c.binding.routeSlot = some row
  fits : Matches c c.binding.owner route row
  lineage : selectedLineage c m route row x.db = .ok ()
  entry : entry = entryOf c route row

theorem Db.unacknowledged_eq_false {db : Db} :
    db.unacknowledged = false ↔ ∀ t ∈ db.transitions, t.state = .callerAcknowledged := by
  unfold Db.unacknowledged
  rw [List.any_eq_false]
  constructor
  · intro h t ht
    have := h t ht
    simpa using this
  · intro h t ht
    simpa using h t ht

theorem selection_eq_ok {c : Coordinator} {x : Stores} {m : Memory} {entry : SessionEntry} :
    selection c x m = .ok entry ↔ ∃ route row, Selection c x m entry route row := by
  unfold selection
  constructor
  · intro h
    simp only [bind_eq_ok, ensure_eq_ok, fetch_eq_ok, pure_eq_ok] at h
    obtain ⟨⟨g, routes, raw⟩, hstate, _, ⟨hindex, hack⟩, route, hroute, row, hrow, _, hfits, _,
      hlineage, rfl⟩ := h
    obtain ⟨p, hp, rfl, rfl, rfl⟩ := stateInTransaction_eq_ok.mp hstate
    exact ⟨route, row, ⟨p, hp, hindex⟩, Db.unacknowledged_eq_false.mp hack, hroute, hrow, hfits,
      hlineage, rfl⟩
  · rintro ⟨route, row, ⟨p, hp, hindex⟩, hack, hroute, hrow, hfits, hlineage, rfl⟩
    simp only [bind_eq_ok, ensure_eq_ok, fetch_eq_ok, pure_eq_ok]
    exact ⟨⟨_, _, _⟩, stateInTransaction_eq_ok.mpr ⟨p, hp, rfl, rfl, rfl⟩, (),
      ⟨hindex, Db.unacknowledged_eq_false.mpr hack⟩, route, hroute, row, hrow, (), hfits, (),
      hlineage, rfl⟩

section

variable {c : Coordinator} {identity : RequestIdentity} {C : Contract Shared Process} {v : View}
  {s : Shared} {l : Process} {E : Shared → Process → Prop}

theorem wp_inspect {α : Type} (hC : Lawful C) (hv : At v s l) (hE : Covers E v)
    (f : Db → Bytes → Except String α) :
    wp C (inspect f) (Ends (fun a s l => At v s l ∧
      f (v.tx.getD v.stores.db) v.stores.index = .ok a) E) s l := by
  refine wp_query hC hv hE _ ?_
  intro s l a hv' ha
  have h := orBoundary_ok ha
  rwa [hv'.visible, hv'.stores] at h

/-- A check of the memory and the tables. -/
theorem wp_recall {α : Type} (hC : Lawful C) (hv : At v s l) (hE : Covers E v)
    (f : Memory → Db → Except String α) :
    wp C (.perform (Act.query fun s l => orBoundary (f l.memory (visible s l))))
      (Ends (fun a s l => At v s l ∧ f v.memory (v.tx.getD v.stores.db) = .ok a) E) s l := by
  refine wp_query hC hv hE _ ?_
  intro s l a hv' ha
  have h := orBoundary_ok ha
  rwa [hv'.visible, hv'.memory] at h

theorem wp_validatedLineage {route : RouteEntry} {row : Session × RouteRow × Transition}
    (hC : Lawful C) (hv : At v s l) (hE : Covers E v) (htx : v.tx = none) :
    wp C (c.validatedLineage route row)
      (Ends (fun _ s l => At v s l ∧ selectedLineage c v.memory route row v.stores.db = .ok ()) E)
      s l := by
  unfold Coordinator.validatedLineage selectedLineage
  split
  · refine wp_seq (wp_inspect hC hv hE _) ?_
    rintro parent s l ⟨hv, hparent⟩
    refine wp_seq (wp_ask hC hv hE) ?_
    intro _ s l hv
    refine wp_mono (wp_recall hC hv hE (resetConfirmed c.binding · route.sessionId ·)) ?_
    intro r s l h
    cases r with
    | error e => exact h
    | ok u =>
      rw [htx] at hparent
      refine ⟨h.1, bind_eq_ok.mpr ⟨parent, hparent, ?_⟩⟩
      have h2 := h.2
      rwa [htx] at h2
  · refine wp_seq (wp_inspect hC hv hE _) ?_
    rintro parent s l ⟨hv, hparent⟩
    refine wp_seq (wp_ask hC hv hE) ?_
    intro _ s l hv
    refine wp_mono (wp_recall hC hv hE (switchConfirmed c.binding · route.sessionId ·)) ?_
    intro r s l h
    cases r with
    | error e => exact h
    | ok u =>
      rw [htx] at hparent
      refine ⟨h.1, bind_eq_ok.mpr ⟨parent, hparent, ?_⟩⟩
      have h2 := h.2
      rwa [htx] at h2
  · refine wp_mono (wp_refuseIf hv hE) ?_
    intro r s l h
    cases r with
    | error e => exact h
    | ok u =>
      refine ⟨h.1, ensure_eq_ok.mpr ?_⟩
      simpa only [ne_eq, not_or, not_not] using h.2

theorem wp_validatedOwned (hC : Lawful C) (hv : At v s l) (hE : Covers E v)
    (hid : identity = c.binding.owner) :
    wp C (c.validatedOwned identity) (Ends (fun entry s l => At v s l ∧
      selection c v.stores v.memory = .ok entry) E) s l := by
  refine wp_seq (wp_requireReader hC hv hE) ?_
  intro _ s l hv
  refine wp_seq (wp_ask hC hv hE) ?_
  intro _ s l hv
  refine wp_seq (wp_settledRoute hC hv hE) ?_
  rintro route s l ⟨hv, htx, hsettled, generation, routes, hstate, hroute⟩
  refine wp_seq (wp_select hC hv hE _) ?_
  rintro found s l ⟨hv, hfound⟩
  refine wp_seq (wp_require hv hE) ?_
  rintro row s l ⟨hv, hrow⟩
  refine wp_seq (wp_refuseIf hv hE) ?_
  rintro _ s l ⟨hv, hfits⟩
  refine wp_seq (wp_validatedLineage hC hv hE htx) ?_
  rintro _ s l ⟨hv, hlineage⟩
  refine wp_return ⟨hv, selection_eq_ok.mpr ⟨route, row, ?_⟩⟩
  obtain ⟨p, hp, rfl, rfl, hindex⟩ := stateInTransaction_eq_ok.mp hstate
  rw [htx] at hfound
  exact ⟨⟨p, hp, hindex⟩, hsettled, hroute, hfound.symm.trans hrow,
    hid ▸ not_not.mp hfits, hlineage, rfl⟩

/-- Whatever disturbs a read, an entry that it returns is the selected one. -/
theorem readOwned_selects (c : Coordinator) (identity : RequestIdentity)
    (moves : List (Move Fault)) (s : Shared) (l : Process) {entry : SessionEntry}
    (hread : ((c.readOwned identity).run die moves s l).result = some (.ok entry)) :
    selection c s.stores l.memory = .ok entry := by
  let C := movesBy Alone (fun _ _ => False) Never
  let R : Shared → Process → Prop := fun s' l' => s'.stores = s.stores ∧ l'.memory = l.memory
  have hC : Lawful C := lawful_alone
  have hR : Outside C R := outside_alone fun _ _ _ h => h
  have hfree : ∀ v : View, Covers (Holding fun _ => True) v := fun v =>
    covers_holding (F := fun _ => True) (fun _ _ _ h => h) trivial
  have hinside : wp C (do c.requireReader identity; exclusive (c.validatedOwned identity))
      (Ends (fun entry _ _ => selection c s.stores l.memory = .ok entry) fun _ _ => True) s l := by
    refine wp_bind (P := Ends (fun _ s l => R s l ∧ identity = c.binding.owner) fun _ _ => True)
      ?_ ?_ fun _ _ _ h => h
    · refine wp_bind (wp_refuseIfOutside (R := R) ⟨rfl, rfl⟩) ?_ fun _ _ _ _ => trivial
      rintro _ s' l' ⟨h, hid⟩
      refine wp_mono (wp_askOutside hC hR h) fun r s l h => ?_
      cases r with
      | ok u => exact ⟨h, not_not.mp hid⟩
      | error e => trivial
    · rintro _ s' l' ⟨h, hid⟩
      refine wp_exclusive (G := fun v => v.stores = s.stores ∧ v.memory = l.memory)
        (F := fun _ => True) (K := fun entry _ => selection c s.stores l.memory = .ok entry)
        hC hR h (fun _ _ _ => trivial) (fun _ _ h => h) (fun _ _ _ h => h) (fun _ _ => trivial)
        ?_ (fun _ _ _ _ h _ => h) (fun _ _ _ _ _ _ _ => trivial) (fun _ _ _ _ _ _ _ => trivial)
      rintro v s' l' ⟨hstores, hmemory⟩ hv
      refine wp_mono (wp_validatedOwned hC hv (hfree v) hid) ?_
      intro r s' l' hr
      cases r with
      | ok entry => exact ⟨v, hstores ▸ hmemory ▸ hr.2, hr.1⟩
      | error e => exact hr
  have hwp : wp C (c.readOwned identity)
      (Ends (fun entry _ _ => selection c s.stores l.memory = .ok entry) fun _ _ => True) s l :=
    wp_renamed hinside
  exact (wp_run die (I := fun _ _ => True) (fun _ _ => rfl) (fun _ _ _ _ _ _ => trivial)
    (fun _ _ _ => trivial) hwp trivial moves).2 _ hread

end

end ProjectMaya
