import ProjectMaya.CallerRuns
import ProjectMaya.OwnedReader

/-! # What a read selects

A read that nothing disturbs returns exactly what the stores and the memory of the process
select (`readOwned_iff`). -/

namespace ProjectMaya

open Logic

variable {c : Coordinator} {s : Shared} {l : Process} {entry : SessionEntry}

/-! ## A read that nothing disturbs -/

theorem calm_ask (s : Shared) (l : Process) : ask.calm s l = (.ok (), s, l) := rfl

theorem calm_readIndex (s : Shared) (l : Process) : readIndex.calm s l = (.ok s.stores.index, s, l) := rfl

theorem calm_refuseIf {d : Prop} [Decidable d] {code : String} (h : ¬ d) :
    (refuseIf d code : Code Unit).calm s l = (.ok (), s, l) := by
  unfold refuseIf Prog.raiseIf
  rw [if_neg h]
  rfl

theorem calm_require {α : Type} {x : Option α} {a : α} {code : String} (h : x = some a) :
    (require x code).calm s l = (.ok a, s, l) := by
  subst h
  rfl

/-- A check of the tables and the memory that passes. -/
theorem calm_query {α : Type} {f : Shared → Process → Except Raised α} {a : α} (h : f s l = .ok a) :
    (.perform (Act.query f) : Code α).calm s l = (.ok a, s, l) := by
  show (f s l, s, l) = _
  rw [h]

theorem calm_inspect {α : Type} {f : Db → Bytes → Except String α} {a : α}
    (h : f (visible s l) s.stores.index = .ok a) : (inspect f).calm s l = (.ok a, s, l) :=
  calm_query (by rw [h]; rfl)

/-- A body that changes nothing, under the lock. -/
theorem calm_exclusive {α : Type} {body : Code α} {a : α} (hlock : s.lock = none)
    (hbody : body.calm { s with lock := some l.pid } l = (.ok a, { s with lock := some l.pid }, l)) :
    (exclusive body).calm s l = (.ok a, s, Act.note l .release true false) := by
  have hacquire : (.perform Act.acquire : Code Unit).calm s l =
      (.ok (), { s with lock := some l.pid }, l) := by
    show ((Act.acquire.next .none s l).1, _, _) = _
    simp only [Act.acquire, hlock]
  have hinside : (do ask; body : Code α).calm { s with lock := some l.pid } l =
      (.ok a, { s with lock := some l.pid }, l) := by
    rw [Prog.calm_bind_ok (calm_ask _ _)]
    exact hbody
  have hrelease : (.perform Act.release : Code Unit).calm { s with lock := some l.pid } l =
      (.ok (), s, Act.note l .release true false) := by
    show (_, { s with lock := if some l.pid = some l.pid then none else some l.pid }, _) = _
    rw [if_pos rfl, ← hlock]
  have hguarded : (Prog.ensuring (do ask; body) (.perform Act.release) : Code α).calm
      { s with lock := some l.pid } l = (.ok a, s, Act.note l .release true false) := by
    unfold Prog.ensuring
    rw [Prog.calm_andThen, hinside]
    show (Prog.andThen _ _).calm _ _ = _
    rw [Prog.calm_andThen, hrelease]
    rfl
  unfold exclusive renamed Prog.mapError
  rw [Prog.calm_andThen, Prog.calm_bind_ok (calm_ask _ _),
    Prog.calm_bind_ok (calm_ask _ _), Prog.calm_bind_ok hacquire, hguarded]
  rfl

theorem calm_validatedLineage {route : RouteEntry} {row : Session × RouteRow × Transition}
    (htx : l.tx = none) (h : selectedLineage c l.memory route row s.stores.db = .ok ()) :
    (c.validatedLineage route row).calm s l = (.ok (), s, l) := by
  have hvisible : visible s l = s.stores.db := by rw [visible, htx]; rfl
  unfold selectedLineage at h
  unfold Coordinator.validatedLineage
  split at h
  · obtain ⟨parent, hparent, hconfirmed⟩ := bind_eq_ok.mp h
    rw [Prog.calm_bind_ok (calm_inspect (hvisible ▸ hparent)), Coordinator.requireResetConfirmation,
      Prog.calm_bind_ok (calm_ask _ _)]
    exact calm_query (by rw [hvisible, hconfirmed]; rfl)
  · obtain ⟨found, hfound, hconfirmed⟩ := bind_eq_ok.mp h
    rw [Prog.calm_bind_ok (calm_inspect (hvisible ▸ hfound)), Coordinator.requireSwitchConfirmation,
      Prog.calm_bind_ok (calm_ask _ _)]
    exact calm_query (by rw [hvisible, hconfirmed]; rfl)
  · obtain ⟨h1, h2, h3⟩ := ensure_eq_ok.mp h
    exact calm_refuseIf (by simp [h1, h2, h3])

theorem calm_settledRoute {generation : Int} {routes : Routes} {route : RouteEntry} (htx : l.tx = none)
    (hkeys : l.foreignKeys = true)
    (hstate : stateInTransaction c s.stores.db = .ok (generation, routes, s.stores.index))
    (hsettled : ∀ t ∈ s.stores.db.transitions, t.state = .callerAcknowledged)
    (hroute : routes.get? c.binding.routeSlot = some route) :
    (c.settledRoute .overlay).calm s l = (.ok route, s, l) := by
  have hvisible : visible s l = s.stores.db := by rw [visible, htx]; rfl
  have hcalm : c.state.calm s l = (.ok (generation, routes, s.stores.index), s, l) := by
    refine calm_query ?_
    rw [htx, hkeys, hvisible, hstate]
    rfl
  have hnone : (s.stores.db.transitions.rows.any fun t => t.state ≠ Profile.overlay.settled) = false := by
    rw [List.any_eq_false]
    intro t ht
    simp [Profile.overlay, hsettled t ht]
  have hselect : (select fun db => db.transitions.rows.any fun t => t.state ≠ Profile.overlay.settled).calm s l =
      (.ok false, s, l) := by
    show (Except.ok ((visible s l).transitions.rows.any _), s, l) = _
    rw [hvisible, hnone]
  unfold Coordinator.settledRoute
  rw [Prog.calm_bind_ok hcalm]
  show (readIndex >>= _ : Code RouteEntry).calm s l = _
  rw [Prog.calm_bind_ok (calm_readIndex _ _), Prog.calm_bind_ok hselect,
    Prog.calm_bind_ok (calm_refuseIf (by simp))]
  exact calm_require hroute

theorem calm_validatedOwned (htx : l.tx = none) (hkeys : l.foreignKeys = true)
    (h : selection c s.stores l.memory = .ok entry) :
    (c.validatedOwned c.binding.owner).calm s l = (.ok entry, s, l) := by
  obtain ⟨route, row, ⟨p, hp, hindex⟩, hsettled, hrouted, hselected, hfits, hlineage, rfl⟩ :=
    selection_eq_ok.mp h
  have hstate : stateInTransaction c s.stores.db =
      .ok (p.generation, s.stores.db.routes.rows.map RouteRow.entry, s.stores.index) :=
    stateInTransaction_eq_ok.mpr ⟨p, hp, rfl, rfl, hindex⟩
  have hvisible : visible s l = s.stores.db := by rw [visible, htx]; rfl
  have hreader : (c.requireReader c.binding.owner).calm s l = (.ok (), s, l) := by
    unfold Coordinator.requireReader
    rw [Prog.calm_bind_ok (calm_refuseIf (by simp))]
    rfl
  have hselect : (select fun db => db.selectRoute c.binding.routeSlot).calm s l = (.ok (some row), s, l) := by
    show (Except.ok ((visible s l).selectRoute _), s, l) = _
    rw [hvisible, hselected]
  unfold Coordinator.validatedOwned
  rw [Prog.calm_bind_ok hreader, Prog.calm_bind_ok (calm_ask _ _),
    Prog.calm_bind_ok (calm_settledRoute htx hkeys hstate hsettled hrouted), Prog.calm_bind_ok hselect,
    Prog.calm_bind_ok (calm_require rfl), Prog.calm_bind_ok (calm_refuseIf (not_not.mpr hfits)),
    Prog.calm_bind_ok (calm_validatedLineage htx hlineage)]
  rfl

theorem calm_readOwned (hlock : s.lock = none) (htx : l.tx = none) (hkeys : l.foreignKeys = true)
    (h : selection c s.stores l.memory = .ok entry) :
    (c.readOwned c.binding.owner).calm s l = (.ok entry, s, Act.note l .release true false) := by
  have hbody := calm_validatedOwned (s := { s with lock := some l.pid }) htx hkeys h
  have hexclusive := calm_exclusive hlock hbody
  have hreader : (c.requireReader c.binding.owner).calm s l = (.ok (), s, l) := by
    unfold Coordinator.requireReader
    rw [Prog.calm_bind_ok (calm_refuseIf (by simp))]
    rfl
  unfold Coordinator.readOwned renamed Prog.mapError
  rw [Prog.calm_andThen, Prog.calm_bind_ok hreader, hexclusive]
  rfl

/-- The operation of the transition that a selection rests on. -/
def Db.selectedOperation (db : Db) (slot : String) : Option Operation :=
  (db.selectRoute slot).map fun row => row.2.2.operation

namespace Sample

/-- A table with one row. -/
def one {ρ : Type} {key : ρ → String} (r : ρ) : Table ρ String key := (Table.empty.insert r).getD .empty

/-- The bytes of the index when the slot has its created session. -/
def createdBytes : Bytes := projectionBytes "instance" "/state.db" 1 [("main", ⟨"session", 1⟩)]

/-- Stores with one created and acknowledged session. -/
def created : Shared where
  stores :=
    { db :=
        { sessions := one (creation.call.descriptor.sessionRow coordinator.binding.owner 7)
          owners := one creation.call.descriptor.ownerRow
          routes := one creation.call.descriptor.routeRow
          transitions := one
            { creation.call.descriptor.transitionRow 1 createdBytes with state := .callerAcknowledged }
          projection := some
            { schemaVersion := 1
              instanceId := "instance"
              databaseId := "/state.db"
              generation := 1
              projectionHash := ProjectMaya.digest createdBytes
              indexPath := "/sessions.json" } }
      index := createdBytes }

def reading : Process := { pid := 1 }

theorem created_selects : selection coordinator created.stores {} = .ok ⟨"main", "session", 7, 7⟩ := by
  decide +kernel

/-- The preparation of a session for another slot. -/
def second : Preparation where
  coordinator := { coordinator with binding := { coordinator.binding with routeSlot := "other" } }
  call :=
    { descriptor :=
        { creation.call.descriptor with
          routeSlot := "other"
          targetSession := "second"
          correlationId := "second" }
      now := 8 }
  identity := coordinator.binding.owner
  process := { pid := 2 }
  moves := []

end Sample

end ProjectMaya
