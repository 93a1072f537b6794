import ProjectMaya.Held

/-! # `CandidatePublishedSessionReader.read`

The reader of one host-selected route, released (`Profile.base`) and with the caller
acknowledgement overlay (`Profile.overlay`).  `read_validated` says what an entry that it
returns has been checked against. -/

namespace ProjectMaya

open Logic

structure SessionEntry where
  sessionKey : String
  sessionId : String
  createdAt : Int
  updatedAt : Int
  deriving DecidableEq, Repr

namespace Db

/-- `routes r JOIN sessions s ON s.id=r.session_id JOIN transitions t ON
t.correlation_id=r.correlation_id WHERE r.route_slot=? AND …`, without the condition on
the parent. -/
def selectRoute (db : Db) (slot : String) : Option (Session × RouteRow × Transition) := do
  let r ← db.routes.find? slot
  let s ← db.sessions.find? r.sessionId
  let t ← db.transitions.find? r.correlationId
  if s.endedAt = none ∧ s.archived = 0 ∧ s.source = "maya-governed-candidate" then
    some (s, r, t)
  else none

end Db

/-- The row that `_validated_entry` accepts for the route. -/
structure Selected (c : Coordinator) (pf : Profile) (identity : RequestIdentity)
    (route : RouteEntry) (row : Session × RouteRow × Transition) : Prop where
  root : row.1.parentSessionId = none
  version : row.2.1.routeVersion = route.version
  target : row.2.2.targetSession = some route.sessionId
  state : row.2.2.state = pf.settled
  principal : row.2.2.principal = identity.actorId
  binding : row.2.2.bindingVersion = c.binding.bindingVersion

instance (c : Coordinator) (pf : Profile) (identity : RequestIdentity) (route : RouteEntry)
    (row : Session × RouteRow × Transition) : Decidable (Selected c pf identity route row) :=
  decidable_of_iff (row.1.parentSessionId = none ∧ row.2.1.routeVersion = route.version ∧
      row.2.2.targetSession = some route.sessionId ∧ row.2.2.state = pf.settled ∧
      row.2.2.principal = identity.actorId ∧ row.2.2.bindingVersion = c.binding.bindingVersion)
    ⟨fun ⟨h1, h2, h3, h4, h5, h6⟩ => ⟨h1, h2, h3, h4, h5, h6⟩,
      fun ⟨h1, h2, h3, h4, h5, h6⟩ => ⟨h1, h2, h3, h4, h5, h6⟩⟩

/-- `if x is None: raise GovernanceBoundaryError(code)`. -/
def require {α : Type} (x : Option α) (code : String) : Code α :=
  match x with
  | some a => pure a
  | none => .raise (.boundary code)

namespace Coordinator

variable (c : Coordinator) (pf : Profile) (identity : RequestIdentity)

/-- The reader's `_require`. -/
def requireReader : Code Unit := do
  refuseIf (identity ≠ c.binding.owner) "governance.session_reader_invalid"
  ask

/-- The first checks of `_validated_entry`: the tables, the index and every transition are
settled, and the slot has a route. -/
def settledRoute : Code RouteEntry := do
  let (_, routes, raw) ← c.state
  let index ← readIndex
  let unsettled ← select fun db => db.transitions.rows.any fun t => t.state ≠ pf.settled
  refuseIf (index ≠ raw ∨ unsettled) "governance.transition_recovery_required"
  require (routes.get? c.binding.routeSlot) "governance.session_route_unavailable"

/-- `_validated_entry`.  The two questions are `_require` and the policy of
`session.read`. -/
def validatedEntry : Code SessionEntry := do
  c.requireReader identity
  ask
  let route ← c.settledRoute pf
  let row ← select fun db => db.selectRoute c.binding.routeSlot
  let row ← require row "governance.session_route_unavailable"
  refuseIf (¬ Selected c pf identity route row) "governance.session_route_unavailable"
  return { sessionKey := c.binding.routeSlot, sessionId := route.sessionId
           createdAt := row.1.startedAt, updatedAt := row.1.startedAt }

/-- The `except` clauses of `read`. -/
def readError : Raised → Raised
  | .boundary code => .boundary code
  | .interrupt => .interrupt
  | _ => .boundary "governance.session_read_failed"

/-- `read(store, identity)`. -/
def read : Code SessionEntry :=
  renamed (do
    c.requireReader identity
    exclusive (c.validatedEntry pf identity)) readError

end Coordinator

/-! ## What an entry is worth -/

/-- What the tables and the index are when the reader returns an entry. -/
structure Validated (c : Coordinator) (pf : Profile) (x : Stores) (entry : SessionEntry) : Prop where
  key : entry.sessionKey = c.binding.routeSlot
  settled : ∀ t ∈ x.db.transitions, t.state = pf.settled
  state : ∃ generation routes version,
    stateInTransaction c x.db = .ok (generation, routes, x.index) ∧
      routes.get? c.binding.routeSlot = some ⟨entry.sessionId, version⟩
  row : ∃ s r t, x.db.selectRoute c.binding.routeSlot = some (s, r, t) ∧
    t.targetSession = some entry.sessionId ∧ t.state = pf.settled

section

variable {c : Coordinator} {pf : Profile} {identity : RequestIdentity}
  {C : Contract Shared Process} {v : View} {s : Shared} {l : Process}
  {E : Shared → Process → Prop}

theorem wp_require {α : Type} {x : Option α} {code : String} (hv : At v s l) (hE : Covers E v) :
    wp C (require x code) (Ends (fun a s l => At v s l ∧ x = some a) E) s l := by
  cases x with
  | some a => exact ⟨hv, rfl⟩
  | none => exact hv.covered hE

theorem wp_requireReader (hC : Lawful C) (hv : At v s l) (hE : Covers E v) :
    wp C (c.requireReader identity) (Ends (fun _ s l => At v s l) E) s l := by
  refine wp_seq (wp_refuseIf hv hE) ?_
  rintro _ s l ⟨hv, -⟩
  exact wp_ask hC hv hE

theorem wp_settledRoute (hC : Lawful C) (hv : At v s l) (hE : Covers E v) :
    wp C (c.settledRoute pf) (Ends (fun route s l => At v s l ∧ v.tx = none ∧
      (∀ t ∈ v.stores.db.transitions, t.state = pf.settled) ∧
      ∃ generation routes,
        stateInTransaction c v.stores.db = .ok (generation, routes, v.stores.index) ∧
        routes.get? c.binding.routeSlot = some route) E) s l := by
  refine wp_seq (wp_state hC hv hE c) ?_
  rintro ⟨generation, routes, raw⟩ s l ⟨hv, htx, hstate⟩
  refine wp_seq (wp_readIndex hC hv hE) ?_
  rintro index s l ⟨hv, rfl⟩
  refine wp_seq (wp_select hC hv hE _) ?_
  rintro unsettled s l ⟨hv, hunsettled⟩
  refine wp_seq (wp_refuseIf hv hE) ?_
  rintro _ s l ⟨hv, hpass⟩
  refine wp_mono (wp_require hv hE) ?_
  intro r s l h
  cases r with
  | error e => exact h
  | ok route =>
    have hindex : v.stores.index = raw := by
      by_contra hne
      exact hpass (.inl hne)
    subst hindex
    refine ⟨h.1, htx, ?_, generation, routes, hstate, h.2⟩
    intro t ht
    by_contra hne
    refine hpass (.inr ?_)
    rw [hunsettled, htx]
    exact List.any_eq_true.mpr ⟨t, ht, by simpa using hne⟩

theorem wp_validatedEntry (hC : Lawful C) (hv : At v s l) (hE : Covers E v) :
    wp C (c.validatedEntry pf identity)
      (Ends (fun entry s l => At v s l ∧ Validated c pf v.stores entry) E) s l := by
  refine wp_seq (wp_requireReader hC hv hE) ?_
  intro _ s l hv
  refine wp_seq (wp_ask hC hv hE) ?_
  intro _ s l hv
  refine wp_seq (wp_settledRoute hC hv hE) ?_
  rintro route s l ⟨hv, htx, hsettled, generation, routes, hstate, hroute⟩
  refine wp_seq (wp_select hC hv hE _) ?_
  rintro found s l ⟨hv, hfound⟩
  refine wp_seq (wp_require hv hE) ?_
  rintro row s l ⟨hv, hrow⟩
  refine wp_seq (wp_refuseIf hv hE) ?_
  rintro _ s l ⟨hv, hselected⟩
  have hselected := not_not.mp hselected
  obtain ⟨se, r, t⟩ := row
  rw [htx] at hfound
  exact wp_return ⟨hv, rfl, hsettled, ⟨generation, routes, route.version, hstate, hroute⟩,
    se, r, t, hfound.symm.trans hrow, hselected.target, hselected.state⟩

/-- An entry that `read` returns, alone, is validated; `read` leaves the stores alone. -/
theorem read_validated (c : Coordinator) (pf : Profile) (identity : RequestIdentity)
    (moves : List (Move Fault)) (s : Shared) (l : Process) :
    ((c.read pf identity).run die moves s l).shared.stores = s.stores ∧
    ∀ entry, ((c.read pf identity).run die moves s l).result = some (.ok entry) →
      Validated c pf s.stores entry := by
  let C := movesBy Alone (fun _ _ => False) Never
  let R : Shared → Process → Prop := fun s' _ => s'.stores = s.stores
  have hC : Lawful C := lawful_alone
  have hR : Outside C R := outside_alone fun _ _ _ h => h
  have hinside : wp C (do c.requireReader identity; exclusive (c.validatedEntry pf identity))
      (Ends (fun entry _ _ => Validated c pf s.stores entry) fun _ _ => True) s l := by
    refine wp_bind (P := Ends (fun _ => R) fun _ _ => True) ?_ ?_ fun _ _ _ h => h
    · refine wp_bind (wp_refuseIfOutside (R := R) rfl) ?_ fun _ _ _ _ => trivial
      rintro _ s' l' ⟨h, -⟩
      exact wp_mono (wp_askOutside hC hR h) fun r s l h => by cases r <;> first | exact h | trivial
    · intro _ s' l' h
      refine wp_exclusive (G := fun v => v.stores = s.stores) (F := fun _ => True)
        (K := fun entry v => v.stores = s.stores ∧ Validated c pf v.stores entry) hC hR h
        (fun _ _ _ => trivial) (fun _ _ h => h) (fun _ _ _ h => h) (fun _ _ => trivial) ?_ ?_
        (fun _ _ _ _ _ _ _ => trivial) (fun _ _ _ _ _ _ _ => trivial)
      · intro v s' l' hG hv
        refine wp_mono (wp_validatedEntry hC hv (covers_holding (F := fun _ => True) (fun _ _ _ h => h) trivial)) ?_
        intro r s' l' hr
        cases r with
        | ok entry => exact ⟨v, ⟨hG, hr.2⟩, hr.1⟩
        | error e => exact hr
      · rintro entry v s' l' ⟨hG, hval⟩ _
        exact hG ▸ hval
  have hwp : wp C (c.read pf identity)
      (Ends (fun entry _ _ => Validated c pf s.stores entry) fun _ _ => True) s l :=
    wp_renamed hinside
  have hkeep : ∀ s₁ l₁ s₂ l₂, C.guar s₁ l₁ s₂ l₂ → s₁.stores = s.stores → s₂.stores = s.stores := by
    intro s₁ l₁ s₂ l₂ hg h'
    rcases Keeps.stores hg with h | ⟨_, _, h⟩
    · exact h.trans h'
    · exact h.elim
  obtain ⟨hsame, hpost⟩ := wp_run die (I := fun s' _ => s'.stores = s.stores)
    (fun _ _ => rfl) hkeep (fun _ _ h => h) hwp rfl moves
  exact ⟨hsame, fun entry hok => hpost _ hok⟩

end

end ProjectMaya
