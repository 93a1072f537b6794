import ProjectMaya.Evidence
import ProjectMaya.Lines
import ProjectMaya.Tasks

/-! # The tables show the lines

`Shows db L`: the rows of the tables are those of the ledger `L`.  A create, a reset and a
switch take one step of the ledger when they commit their rows (`shows_created`,
`shows_reset`, `shows_switch`), and nothing else that a call does changes what the tables
show.  So any run of any number of processes is followed by a run of the ledger
(`sessions_follow`). -/

namespace ProjectMaya

open Logic

def Session.standing (s : Session) : Standing where
  id := s.id
  parent := s.parentSessionId
  ended := s.endedAt.isSome
  reason := s.endReason

/-- The lifecycle of a session that stands so. -/
def Standing.lifecycle (x : Standing) : Lifecycle := if x.ended then .ended else .active

/-- The columns of an owner row that a session decides. -/
def Owner.standing (o : Owner) : String × Option String × Lifecycle :=
  (o.sessionId, o.parentSessionId, o.lifecycleStatus)

def Standing.owner (x : Standing) : String × Option String × Lifecycle := (x.id, x.parent, x.lifecycle)

def Transition.posting (t : Transition) : Posting where
  id := t.correlationId
  operation := t.operation
  target := t.targetSession.getD ""
  version := t.resultRouteVersion
  generation := t.generation

/-- The session and the version of a slot. -/
def Line.head (k : Line) : String × Int := (k.current, k.version)

/-- The tables have the rows of the ledger. -/
structure Shows (db : Db) (L : Ledger) : Prop where
  routes : ∀ slot, (db.routes.find? slot).map (fun r => (r.sessionId, r.routeVersion)) =
    (L.line slot).map Line.head
  sessions : ∀ x, x ∈ L ↔ (db.sessions.find? x.id).map Session.standing = some x
  owners : ∀ id, (db.owners.find? id).map Owner.standing =
    ((db.sessions.find? id).map Session.standing).map Standing.owner
  postings : db.transitions.rows.map Transition.posting = L.postings
  generation : db.generation = some L.generation

namespace Shows

variable {db w : Db} {L : Ledger} {slot : String}

theorem line (h : Shows db L) {r : RouteRow} (hr : db.routes.find? slot = some r) :
    ∃ k, L.line slot = some k ∧ k.head = (r.sessionId, r.routeVersion) := by
  have hslot := h.routes slot
  rw [hr, Option.map_some] at hslot
  obtain ⟨k, hk, hhead⟩ := Option.map_eq_some_iff.mp hslot.symm
  exact ⟨k, hk, hhead⟩

/-- A session that the tables do not have is new. -/
theorem fresh (h : Shows db L) {id : String} (hid : ∀ s ∈ db.sessions, s.id ≠ id) : L.Fresh id := by
  intro x hx hxid
  obtain ⟨s, hs, -⟩ := Option.map_eq_some_iff.mp ((h.sessions x).mp hx)
  obtain ⟨hmem, hkey⟩ := Table.find?_eq_some.mp hs
  exact hid s hmem (hkey.trans hxid)

/-- A member of the slot's line is in the tables as it stands. -/
theorem found (h : Shows db L) {k : Line} (hline : L.line slot = some k) {x : Standing}
    (hx : x ∈ k.standings) : (db.sessions.find? x.id).map Session.standing = some x :=
  (h.sessions x).mp ⟨slot, k, hline, hx⟩

/-- The owner of a session. -/
theorem owner (h : Shows db L) {id : String} {x : Standing}
    (hx : (db.sessions.find? id).map Session.standing = some x) :
    (db.owners.find? id).map Owner.standing = some x.owner := by
  rw [h.owners, hx]
  rfl

/-- Tables with the same rows, but for the columns that the ledger does not have. -/
theorem congr (h : Shows db L) (hroutes : w.routes = db.routes) (hsessions : w.sessions = db.sessions)
    (howners : w.owners = db.owners)
    (hpostings : w.transitions.rows.map Transition.posting = db.transitions.rows.map Transition.posting)
    (hprojection : w.generation = db.generation) : Shows w L :=
  ⟨hroutes ▸ h.routes, hsessions ▸ h.sessions, fun id => by rw [howners, hsessions]; exact h.owners id,
    hpostings.trans h.postings, hprojection.trans h.generation⟩

/-- A statement that moves the state of transitions. -/
theorem updateState (h : Shows db L) (p : Transition → Bool) (st : TransitionState) :
    Shows (db.updateState p st).1 L := by
  refine h.congr rfl rfl rfl ?_ rfl
  show (db.transitions.rows.map fun t => if p t then { t with state := st } else t).map _ = _
  rw [List.map_map]
  refine List.map_congr_left fun t _ => ?_
  show Transition.posting (if p t then { t with state := st } else t) = _
  split <;> rfl

/-- **One step.**  The rows of the slot's line are there as they have to stand, and all other
rows are as they were. -/
theorem put (h : Shows db L) {id : String} {operation : Operation} {k : Line} (hfits : L.Fits slot k)
    (hold : ∀ k₀, L.line slot = some k₀ → ∀ y ∈ k₀.standings, ∃ x ∈ k.standings, x.id = y.id)
    (hroutes : ∀ slot', (w.routes.find? slot').map (fun r => (r.sessionId, r.routeVersion)) =
      if slot' = slot then some k.head
      else (db.routes.find? slot').map fun r => (r.sessionId, r.routeVersion))
    (hsessions : ∀ x ∈ k.standings, (w.sessions.find? x.id).map Session.standing = some x)
    (howners : ∀ x ∈ k.standings, (w.owners.find? x.id).map Owner.standing = some x.owner)
    (hothers : ∀ id, (∀ x ∈ k.standings, x.id ≠ id) →
      w.sessions.find? id = db.sessions.find? id ∧ w.owners.find? id = db.owners.find? id)
    (hpostings : w.transitions.rows.map Transition.posting =
      L.postings ++ [⟨id, operation, k.current, k.version, L.generation + 1⟩])
    (hgeneration : w.generation = some (L.generation + 1)) :
    Shows w (L.put id operation slot k hfits) := by
  refine ⟨fun slot' => ?_, fun x => ?_, fun id => ?_, hpostings, hgeneration⟩
  · rw [hroutes, Ledger.line_put]
    split
    · rfl
    · exact h.routes slot'
  · rw [Ledger.mem_put]
    by_cases hx : ∃ z ∈ k.standings, z.id = x.id
    · obtain ⟨z, hz, hid⟩ := hx
      have hfound := hsessions z hz
      rw [hid] at hfound
      rw [hfound, Option.some.injEq]
      constructor
      · rintro (hx | ⟨hx, hnot⟩)
        · exact Option.some.inj (hfound.symm.trans (hsessions x hx))
        · obtain ⟨k₀, hk₀, hx₀⟩ := hfits z hz x hx hid.symm
          exact absurd rfl (hnot k₀ hk₀ x hx₀)
      · rintro rfl
        exact .inl hz
    · have hnot : ∀ z ∈ k.standings, z.id ≠ x.id := fun z hz hid => hx ⟨z, hz, hid⟩
      rw [(hothers x.id hnot).1, ← h.sessions x]
      constructor
      · rintro (hmem | ⟨hmem, -⟩)
        · exact absurd rfl (hnot x hmem)
        · exact hmem
      · refine fun hmem => .inr ⟨hmem, fun k₀ hk₀ y hy hid => ?_⟩
        obtain ⟨z, hz, hzy⟩ := hold k₀ hk₀ y hy
        exact hnot z hz (hzy.trans hid)
  · by_cases hx : ∃ z ∈ k.standings, z.id = id
    · obtain ⟨z, hz, rfl⟩ := hx
      rw [howners z hz, hsessions z hz]
      rfl
    · obtain ⟨h₁, h₂⟩ := hothers id fun z hz hid => hx ⟨z, hz, hid⟩
      rw [h₁, h₂]
      exact h.owners id

end Shows

/-! ## The statements, row by row -/

section

variable {db w : Db}

theorem Db.endSession_one {id reason : String} {now : Int} (h : db.endSession id now reason = (w, 1)) :
    ∃ s u, db.sessions.find? id = some s ∧ w = { db with sessions := u } ∧
      ∀ k, u.find? k = if k = id then some { s with endedAt := some now, endReason := some reason }
        else db.sessions.find? k := by
  obtain ⟨rfl, hcount⟩ := Prod.mk.inj h
  obtain ⟨s, hs, -, hfind⟩ := Table.find?_update_one (k := id)
    (f := fun s : Session => { s with endedAt := some now, endReason := some reason })
    (fun _ => rfl) (fun s hs => by simp at hs; exact hs.1) hcount
  exact ⟨s, _, hs, rfl, hfind⟩

theorem Db.reopenSession_one {id : String} (h : db.reopenSession id = (w, 1)) :
    ∃ s u, db.sessions.find? id = some s ∧ w = { db with sessions := u } ∧
      ∀ k, u.find? k = if k = id then some { s with endedAt := none, endReason := none }
        else db.sessions.find? k := by
  obtain ⟨rfl, hcount⟩ := Prod.mk.inj h
  obtain ⟨s, hs, -, hfind⟩ := Table.find?_update_one (k := id)
    (f := fun s : Session => { s with endedAt := none, endReason := none })
    (fun _ => rfl) (fun s hs => by simp at hs; exact hs.1.1) hcount
  exact ⟨s, _, hs, rfl, hfind⟩

theorem Db.setLifecycle_one {id : String} {source target : Lifecycle}
    (h : db.setLifecycle id source target = (w, 1)) :
    ∃ o u, db.owners.find? id = some o ∧ w = { db with owners := u } ∧
      ∀ k, u.find? k = if k = id then some { o with lifecycleStatus := target }
        else db.owners.find? k := by
  obtain ⟨rfl, hcount⟩ := Prod.mk.inj h
  obtain ⟨o, ho, -, hfind⟩ := Table.find?_update_one (k := id)
    (f := fun o : Owner => { o with lifecycleStatus := target })
    (fun _ => rfl) (fun o ho => by simp at ho; exact ho.1) hcount
  exact ⟨o, _, ho, rfl, hfind⟩

theorem Db.moveRoute_one {p : RouteRow → Bool} {sessionId correlationId : String} {version : Int}
    (slot : String) (hp : ∀ r, p r = true → r.routeSlot = slot)
    (h : db.moveRoute p sessionId version correlationId = some (w, 1)) :
    ∃ (r : RouteRow) (u : _), w = { db with routes := u } ∧
      ∀ k, u.find? k = if k = slot then some { r with sessionId, routeVersion := version, correlationId }
        else db.routes.find? k := by
  unfold Db.moveRoute at h
  split at h
  · obtain ⟨rfl, hcount⟩ := Prod.mk.inj (Option.some.inj h)
    obtain ⟨r, -, -, hfind⟩ := Table.find?_update_one (k := slot)
      (f := fun r : RouteRow => { r with sessionId, routeVersion := version, correlationId }) (fun _ => rfl) hp hcount
    exact ⟨r, _, rfl, hfind⟩
  · cases h

theorem Db.insertSession_some {s : Session} (h : db.insertSession s = some w) :
    (∀ x ∈ db.sessions, x.id ≠ s.id) ∧ ∃ u, w = { db with sessions := u } ∧
      ∀ k, u.find? k = if k = s.id then some s else db.sessions.find? k := by
  unfold Db.insertSession at h
  split at h
  · obtain ⟨u, hu, rfl⟩ := Option.map_eq_some_iff.mp h
    exact ⟨(Table.insert_eq_some.mp hu).1, u, rfl, Table.find?_insert hu⟩
  · cases h

theorem Db.insertOwner_some {o : Owner} (h : db.insertOwner o = some w) :
    ∃ u, w = { db with owners := u } ∧
      ∀ k, u.find? k = if k = o.sessionId then some o else db.owners.find? k := by
  unfold Db.insertOwner at h
  split at h
  · obtain ⟨u, hu, rfl⟩ := Option.map_eq_some_iff.mp h
    exact ⟨u, rfl, Table.find?_insert hu⟩
  · cases h

theorem Db.insertTransition_some {t : Transition} (h : db.insertTransition t = some w) :
    ∃ u, w = { db with transitions := u } ∧ u.rows = db.transitions.rows ++ [t] := by
  unfold Db.insertTransition at h
  split at h
  · obtain ⟨u, hu, rfl⟩ := Option.map_eq_some_iff.mp h
    exact ⟨u, rfl, (Table.insert_eq_some.mp hu).2⟩
  · cases h

end

/-! ## The commits -/

section

variable {c : Coordinator} {o w : Db} {L : Ledger} {generation : Int} {raw : Bytes}

/-- Tables with the rows of one line. -/
theorem shows_single {db : Db} {slot : String} {k : Line} {r : RouteRow}
    (hroutes : db.routes.rows = [r]) (hslot : r.routeSlot = slot) (hhead : k.head = (r.sessionId, r.routeVersion))
    (hsessions : db.sessions.rows.map Session.standing = k.standings)
    (howners : db.owners.rows.map Owner.standing = k.standings.map Standing.owner) {generation : Int}
    (hgeneration : db.generation = some generation) :
    Shows db (.single slot k generation (db.transitions.rows.map Transition.posting)) where
  routes slot' := by
    show Option.map _ (db.routes.rows.find? _) = _
    rw [hroutes, List.find?_singleton, Ledger.line_single, hslot]
    by_cases h : slot' = slot
    · simp [h, hhead]
    · simp [h, Ne.symm h]
  sessions x := by
    rw [Ledger.mem_single, ← hsessions, List.mem_map]
    constructor
    · rintro ⟨s, hs, rfl⟩
      rw [show db.sessions.find? s.standing.id = some s from Table.find?_eq_some.mpr ⟨hs, rfl⟩, Option.map_some]
    · intro h
      obtain ⟨s, hs, hx⟩ := Option.map_eq_some_iff.mp h
      exact ⟨s, (Table.find?_eq_some.mp hs).1, hx⟩
  owners id := by
    have howned : (db.owners.find? id).map Owner.standing =
        (db.owners.rows.map Owner.standing).find? fun y => y.1 = id := by
      rw [List.find?_map]
      rfl
    have hstood : ((db.sessions.find? id).map Session.standing).map Standing.owner =
        ((db.sessions.rows.map Session.standing).map Standing.owner).find? fun y => y.1 = id := by
      rw [List.find?_map, List.find?_map]
      rfl
    rw [howned, hstood, howners, hsessions]
  postings := rfl
  generation := hgeneration

/-- The generation that the check of the tables returns is that of the ledger. -/
theorem Shows.state (h : Shows o L) {routes : Routes}
    (hstate : stateInTransaction c o = .ok (generation, routes, raw)) :
    generation = L.generation ∧ routes = o.routes.rows.map RouteRow.entry := by
  obtain ⟨p, hp, rfl, rfl, -⟩ := stateInTransaction_eq_ok.mp hstate
  have hgeneration := h.generation
  rw [Db.generation, hp.projection, Option.map_some, Option.some.injEq] at hgeneration
  exact ⟨hgeneration, rfl⟩

theorem get?_routes {routes : Table RouteRow String RouteRow.routeSlot} (slot : String) :
    Routes.get? (routes.rows.map RouteRow.entry) slot =
      (routes.find? slot).map fun r => ⟨r.sessionId, r.routeVersion⟩ := by
  unfold Routes.get? Table.find?
  rw [List.find?_map, Option.map_map]
  rfl

/-- A slot without a route has no line. -/
theorem Shows.line_none (h : Shows o L) {slot : String}
    (hfree : Routes.get? (o.routes.rows.map RouteRow.entry) slot = none) : L.line slot = none := by
  rw [get?_routes, Option.map_eq_none_iff] at hfree
  have hslot := h.routes slot
  rw [hfree, Option.map_none] at hslot
  exact Option.map_eq_none_iff.mp hslot.symm

/-- **A create.** -/
theorem shows_created {call : CreateCall} {st : TransitionState} (h : Shows o L)
    (hline : L.line call.descriptor.routeSlot = none) (hw : Created c call generation raw st o w) :
    ∃ L', Grows L ⟨call.descriptor.correlationId, .create, call.descriptor.routeSlot,
      call.descriptor.targetSession⟩ L' ∧ Shows w L' := by
  have hfresh : L.Fresh call.descriptor.targetSession := h.fresh fun s hs =>
    Table.ne_newest (r := call.descriptor.sessionRow c.binding.owner call.now) hw.sessions hs
  obtain ⟨p, hp, hg, hwp⟩ := hw.projection
  have hgeneration := h.generation
  rw [Db.generation, hp, Option.map_some, Option.some.injEq, hg] at hgeneration
  subst hgeneration
  refine ⟨_, .create hline hfresh, h.put _ (fun k₀ hk₀ => ?_) ?_ ?_ ?_ ?_ ?_ ?_⟩
  · rw [hline] at hk₀
    cases hk₀
  · intro slot'
    rw [Table.find?_snoc hw.routes]
    show Option.map _ (if slot' = call.descriptor.routeSlot then _ else _) = _
    split <;> rfl
  · intro x hx
    rw [List.mem_singleton.mp hx, Table.find?_snoc hw.sessions]
    exact congrArg (Option.map Session.standing) (if_pos rfl)
  · intro x hx
    rw [List.mem_singleton.mp hx, Table.find?_snoc hw.owners]
    exact congrArg (Option.map Owner.standing) (if_pos rfl)
  · intro id hid
    have hne : id ≠ call.descriptor.targetSession := fun heq =>
      hid { id := call.descriptor.targetSession } (List.mem_singleton.mpr rfl) heq.symm
    rw [Table.find?_snoc hw.sessions, Table.find?_snoc hw.owners]
    exact ⟨if_neg hne, if_neg hne⟩
  · rw [hw.transitions, List.map_append, h.postings]
    rfl
  · rw [Db.generation, hwp]
    rfl

/-- The rows after the statements of a reset, key by key. -/
theorem ResetRows.rows {call : ResetCall} {d : ResetDescriptor} {now : ResetSource}
    (h : ResetRows call d now raw o w) :
    ∃ (s : Session) (owner : Owner) (r : RouteRow), o.sessions.find? now.session = some s ∧ o.owners.find? now.session = some owner ∧
      (∀ x ∈ o.sessions, x.id ≠ d.targetSession) ∧
      (∀ k, w.sessions.find? k = if k = d.targetSession then some (d.sessionRow call.startedAt)
        else if k = now.session then
          some { s with endedAt := some call.endedAt, endReason := some "session_reset" }
        else o.sessions.find? k) ∧
      (∀ k, w.owners.find? k = if k = d.targetSession then some d.ownerRow
        else if k = now.session then some { owner with lifecycleStatus := .ended }
        else o.owners.find? k) ∧
      (∀ k, w.routes.find? k = if k = d.routeSlot then
          some { r with sessionId := d.targetSession, routeVersion := now.version + 1,
                        correlationId := d.correlationId }
        else o.routes.find? k) ∧
      w.transitions.rows = o.transitions.rows ++ [d.transitionRow (now.generation + 1) raw] ∧
      w.generation = some (now.generation + 1) := by
  obtain ⟨db₁, db₂, db₃, db₄, db₅, db₆, h₁, h₂, h₃, h₄, h₅, h₆, h₇⟩ := h.statements
  obtain ⟨s, ended, hs, rfl, hended⟩ := Db.endSession_one h₁
  obtain ⟨owner, owners, howner, rfl, howners⟩ := Db.setLifecycle_one h₂
  obtain ⟨hnew, sessions, rfl, hsessions⟩ := Db.insertSession_some h₃
  obtain ⟨owners', rfl, howners'⟩ := Db.insertOwner_some h₄
  obtain ⟨r, routes, rfl, hroutes⟩ := Db.moveRoute_one d.routeSlot
    (fun r hr => by simp at hr; exact hr.1.1.1) h₅
  obtain ⟨transitions, rfl, htransitions⟩ := Db.insertTransition_some h₆
  obtain ⟨p, -, -, rfl⟩ := updateProjection_one h₇
  refine ⟨s, owner, r, hs, howner, ?_, fun k => ?_, fun k => ?_, hroutes, htransitions, rfl⟩
  · have hnone := (hended d.targetSession).symm.trans (Table.find?_eq_none.mpr hnew)
    split at hnone
    · cases hnone
    · exact Table.find?_eq_none.mp hnone
  · rw [hsessions, hended]
    rfl
  · rw [howners', howners]
    rfl

/-- What the source of a reset is: the slot's created session. -/
theorem resetSource_line {now : ResetSource} {index : Bytes} (h : Shows o L)
    (hsource : resetSource c o index = .ok now) :
    L.line c.binding.routeSlot = some (.created now.session) ∧ now.version = 1 ∧
      now.generation = L.generation := by
  unfold resetSource at hsource
  simp only [bind_eq_ok, ensure_eq_ok, fetch_eq_ok, pure_eq_ok] at hsource
  obtain ⟨⟨generation, routes, raw⟩, hstate, _, _, route, -, r, hr, s, hs, _, _, t, _, _,
    ⟨_, _, _, _, _, _, _, hversion, _, _, _, _, hone, _⟩, _, hroute, rfl⟩ := hsource
  obtain ⟨hid, hkey⟩ := Table.find?_eq_some.mp hs
  obtain ⟨k, hk, hhead⟩ := h.line hr
  have hr1 : r.routeVersion = 1 := hversion.symm.trans hone
  rw [hr1] at hhead
  refine ⟨?_, hr1, (h.state hstate).1⟩
  rw [hk]
  cases k with
  | created root =>
    have hroot : root = r.sessionId := congrArg Prod.fst hhead
    rw [hroot, ← hkey]
  | reset root child => cases congrArg Prod.snd hhead
  | switched root child => cases congrArg Prod.snd hhead

/-- **A reset.** -/
theorem shows_reset {call : ResetCall} {d : ResetDescriptor} {now : ResetSource} {index : Bytes}
    (h : Shows o L) (hfits : d.fits c.binding = true) (hsource : resetSource c o index = .ok now)
    (hsession : now.session = d.sourceSession) (hversion : now.version = d.expectedRouteVersion)
    (hrows : ResetRows call d now raw o w) :
    ∃ L', Grows L ⟨d.correlationId, .reset, c.binding.routeSlot, d.targetSession⟩ L' ∧ Shows w L' := by
  obtain ⟨hline, hone, hgeneration⟩ := resetSource_line h hsource
  obtain ⟨s, owner, r, hs, howner, hnew, hsessions, howners, hroutes, htransitions, hwgeneration⟩ :=
    hrows.rows
  have hslot : d.routeSlot = c.binding.routeSlot := by
    simp only [ResetDescriptor.fits, Bool.and_eq_true, decide_eq_true_eq] at hfits
    exact hfits.1.1.2
  have hstands : (o.sessions.find? now.session).map Session.standing = some { id := now.session } :=
    h.found hline (x := { id := now.session }) (List.mem_singleton.mpr rfl)
  have howned := h.owner hstands
  rw [hs, Option.map_some, Option.some.injEq] at hstands
  rw [howner, Option.map_some, Option.some.injEq] at howned
  have hne : now.session ≠ d.targetSession := by
    obtain ⟨hmem, hkey⟩ := Table.find?_eq_some.mp hs
    exact hkey ▸ hnew s hmem
  refine ⟨_, .reset hline (h.fresh hnew), h.put _ ?_ ?_ ?_ ?_ ?_ ?_ ?_⟩
  · intro k₀ hk₀ y hy
    cases hline.symm.trans hk₀
    rw [List.mem_singleton.mp hy]
    exact ⟨_, List.mem_cons_self, rfl⟩
  · intro slot'
    rw [hroutes, hslot, hone]
    split <;> rfl
  · intro x hx
    simp only [Line.standings, List.mem_cons, List.not_mem_nil, or_false] at hx
    rcases hx with rfl | rfl
    · rw [hsessions, if_neg hne, if_pos rfl]
      have hid := congrArg Standing.id hstands
      have hparent := congrArg Standing.parent hstands
      simp only [Session.standing] at hid hparent
      simp [Session.standing, hid, hparent]
    · rw [hsessions, if_pos rfl, hsession]
      rfl
  · intro x hx
    simp only [Line.standings, List.mem_cons, List.not_mem_nil, or_false] at hx
    rcases hx with rfl | rfl
    · rw [howners, if_neg hne, if_pos rfl]
      have hid := congrArg Prod.fst howned
      have hparent := congrArg (·.2.1) howned
      simp only [Owner.standing, Standing.owner] at hid hparent
      simp [Owner.standing, Standing.owner, Standing.lifecycle, hid, hparent]
    · rw [howners, if_pos rfl, hsession]
      rfl
  · intro id hid
    have h₁ : id ≠ d.targetSession := fun heq =>
      hid { id := d.targetSession, parent := some now.session } (by simp [Line.standings]) heq.symm
    have h₂ : id ≠ now.session := fun heq =>
      hid { id := now.session, ended := true, reason := some "session_reset" } (by simp [Line.standings])
        heq.symm
    rw [hsessions, howners, if_neg h₁, if_neg h₂, if_neg h₁, if_neg h₂]
    exact ⟨rfl, rfl⟩
  · rw [htransitions, List.map_append, h.postings, hgeneration]
    simp only [List.map_cons, List.map_nil, Transition.posting, ResetDescriptor.transitionRow,
      Option.getD_some, Line.current, Line.version, ← hversion, hone]
    rfl
  · exact hwgeneration.trans (by rw [hgeneration])

/-- The rows after the statements of a switch, key by key. -/
theorem SwitchRows.rows {call : SwitchCall} {d : SwitchDescriptor} {now : SwitchSource}
    (h : SwitchRows call d now raw o w) (hne : now.source ≠ now.target) :
    ∃ (s s' : Session) (owner owner' : Owner) (r : RouteRow),
      o.sessions.find? now.source = some s ∧ o.sessions.find? now.target = some s' ∧
      o.owners.find? now.source = some owner ∧ o.owners.find? now.target = some owner' ∧
      (∀ k, w.sessions.find? k = if k = now.target then some { s' with endedAt := none, endReason := none }
        else if k = now.source then
          some { s with endedAt := some call.endedAt, endReason := some "session_switch" }
        else o.sessions.find? k) ∧
      (∀ k, w.owners.find? k = if k = now.target then some { owner' with lifecycleStatus := .active }
        else if k = now.source then some { owner with lifecycleStatus := .ended }
        else o.owners.find? k) ∧
      (∀ k, w.routes.find? k = if k = d.routeSlot then
          some { r with sessionId := now.target, routeVersion := 3, correlationId := d.correlationId }
        else o.routes.find? k) ∧
      w.transitions.rows = o.transitions.rows ++ [d.transitionRow (now.generation + 1) raw] ∧
      w.generation = some (now.generation + 1) := by
  obtain ⟨db₁, db₂, db₃, db₄, db₅, db₆, h₁, h₂, h₃, h₄, h₅, h₆, h₇⟩ := h.statements
  obtain ⟨s, ended, hs, rfl, hended⟩ := Db.endSession_one h₁
  obtain ⟨s', sessions, hs', rfl, hsessions⟩ := Db.reopenSession_one h₂
  obtain ⟨owner, inactive, howner, rfl, hinactive⟩ := Db.setLifecycle_one h₃
  obtain ⟨owner', owners, howner', rfl, howners⟩ := Db.setLifecycle_one h₄
  obtain ⟨r, routes, rfl, hroutes⟩ := Db.moveRoute_one d.routeSlot
    (fun r hr => by simp at hr; exact hr.1.1.1.1) h₅
  obtain ⟨transitions, rfl, htransitions⟩ := Db.insertTransition_some h₆
  obtain ⟨p, -, -, rfl⟩ := updateProjection_one h₇
  have hs' : o.sessions.find? now.target = some s' := by
    rw [← hs']
    exact ((hended now.target).trans (if_neg hne.symm)).symm
  have howner' : o.owners.find? now.target = some owner' := by
    rw [← howner']
    exact ((hinactive now.target).trans (if_neg hne.symm)).symm
  refine ⟨s, s', owner, owner', r, hs, hs', howner, howner', fun k => ?_, fun k => ?_, hroutes,
    htransitions, rfl⟩
  · rw [hsessions, hended]
  · rw [howners, hinactive]

/-- What the source and the target of a switch are: the slot's reset session and its parent. -/
theorem switchSource_line {now : SwitchSource} {index : Bytes} {m : Memory} (h : Shows o L)
    (hsource : SwitchFrom c o index m now) :
    L.line c.binding.routeSlot = some (.reset now.target now.source) ∧ now.generation = L.generation := by
  obtain ⟨hgeneration, hroutes⟩ := h.state hsource.state
  have hroute := hsource.route
  rw [hroutes, get?_routes] at hroute
  obtain ⟨r, hr, hentry⟩ := Option.map_eq_some_iff.mp hroute
  obtain ⟨k, hk, hhead⟩ := h.line hr
  obtain ⟨hsession, hversion⟩ := RouteEntry.mk.inj hentry
  rw [hsession, hversion] at hhead
  refine ⟨?_, hgeneration⟩
  rw [hk]
  cases k with
  | created root => cases congrArg Prod.snd hhead
  | switched root child => cases congrArg Prod.snd hhead
  | reset root child =>
    have hchild : child = now.source := congrArg Prod.fst hhead
    subst hchild
    have hlineage := hsource.lineage
    unfold validateResetLineage at hlineage
    simp only [bind_eq_ok, ensure_eq_ok, fetch_eq_ok, pure_eq_ok] at hlineage
    obtain ⟨s, hs, _, _, _, _, _, _, parent, hparent, _, _, _, _, _, _, _, _, _, _, _, _, _, _, rfl⟩ :=
      hlineage
    have hstands := h.found hk (x := { id := now.source, parent := some root }) (by simp [Line.standings])
    rw [hs, Option.map_some, Option.some.injEq] at hstands
    have hroot := congrArg Standing.parent hstands
    rw [show s.standing.parent = s.parentSessionId from rfl, hparent] at hroot
    rw [Option.some.inj hroot]

/-- A switch that passes its checks goes from one session to another. -/
theorem SwitchSource.ne_of_agrees {b : Binding} {d : SwitchDescriptor} {now : SwitchSource}
    (hfits : d.fits b = true) (hagrees : now.agrees d = true) : now.source ≠ now.target := by
  simp only [SwitchDescriptor.fits, Bool.and_eq_true, decide_eq_true_eq] at hfits
  simp only [SwitchSource.agrees, Bool.and_eq_true, decide_eq_true_eq] at hagrees
  obtain ⟨⟨hsourced, htargeted⟩, -⟩ := hagrees
  rw [hsourced, htargeted]
  exact hfits.2

/-- **A switch.** -/
theorem shows_switch {call : SwitchCall} {d : SwitchDescriptor} {now : SwitchSource} {index : Bytes}
    {m : Memory} (h : Shows o L) (hfits : d.fits c.binding = true) (hsource : SwitchFrom c o index m now)
    (hagrees : now.agrees d = true) (hrows : SwitchRows call d now raw o w) :
    ∃ L', Grows L ⟨d.correlationId, .switch, c.binding.routeSlot, now.target⟩ L' ∧ Shows w L' := by
  obtain ⟨hline, hgeneration⟩ := switchSource_line h hsource
  have hne := SwitchSource.ne_of_agrees hfits hagrees
  simp only [SwitchDescriptor.fits, Bool.and_eq_true, decide_eq_true_eq] at hfits
  simp only [SwitchSource.agrees, Bool.and_eq_true, decide_eq_true_eq] at hagrees
  obtain ⟨⟨hsourced, htargeted⟩, -⟩ := hagrees
  have hslot : d.routeSlot = c.binding.routeSlot := hfits.1.1.2
  obtain ⟨s, s', owner, owner', r, hs, hs', howner, howner', hsessions, howners, hroutes,
    htransitions, hwgeneration⟩ := hrows.rows hne
  have hroot := h.found hline (x := { id := now.target, ended := true, reason := some "session_reset" })
    (by simp [Line.standings])
  have hchild := h.found hline (x := { id := now.source, parent := some now.target })
    (by simp [Line.standings])
  have hroot' := h.owner hroot
  have hchild' := h.owner hchild
  rw [hs', Option.map_some, Option.some.injEq] at hroot
  rw [hs, Option.map_some, Option.some.injEq] at hchild
  rw [howner', Option.map_some, Option.some.injEq] at hroot'
  rw [howner, Option.map_some, Option.some.injEq] at hchild'
  refine ⟨_, .switch hline, h.put _ ?_ ?_ ?_ ?_ ?_ ?_ ?_⟩
  · intro k₀ hk₀ y hy
    cases hline.symm.trans hk₀
    simp only [Line.standings, List.mem_cons, List.not_mem_nil, or_false] at hy
    rcases hy with rfl | rfl <;> simp [Line.standings]
  · intro slot'
    rw [hroutes, hslot]
    split <;> rfl
  · intro x hx
    simp only [Line.standings, List.mem_cons, List.not_mem_nil, or_false] at hx
    rcases hx with rfl | rfl
    · rw [hsessions, if_pos rfl]
      have hid := congrArg Standing.id hroot
      have hparent := congrArg Standing.parent hroot
      simp only [Session.standing] at hid hparent
      simp [Session.standing, hid, hparent]
    · rw [hsessions, if_neg hne, if_pos rfl]
      have hid := congrArg Standing.id hchild
      have hparent := congrArg Standing.parent hchild
      simp only [Session.standing] at hid hparent
      simp [Session.standing, hid, hparent]
  · intro x hx
    simp only [Line.standings, List.mem_cons, List.not_mem_nil, or_false] at hx
    rcases hx with rfl | rfl
    · rw [howners, if_pos rfl]
      have hid := congrArg Prod.fst hroot'
      have hparent := congrArg (·.2.1) hroot'
      simp only [Owner.standing, Standing.owner] at hid hparent
      simp [Owner.standing, Standing.owner, Standing.lifecycle, hid, hparent]
    · rw [howners, if_neg hne, if_pos rfl]
      have hid := congrArg Prod.fst hchild'
      have hparent := congrArg (·.2.1) hchild'
      simp only [Owner.standing, Standing.owner] at hid hparent
      simp [Owner.standing, Standing.owner, Standing.lifecycle, hid, hparent]
  · intro id hid
    have h₁ : id ≠ now.target := fun heq => hid { id := now.target } (by simp [Line.standings]) heq.symm
    have h₂ : id ≠ now.source := fun heq =>
      hid { id := now.source, parent := some now.target, ended := true, reason := some "session_switch" }
        (by simp [Line.standings]) heq.symm
    rw [hsessions, howners, if_neg h₁, if_neg h₂, if_neg h₁, if_neg h₂]
    exact ⟨rfl, rfl⟩
  · rw [htransitions, List.map_append, h.postings, hgeneration, ← htargeted.symm]
    rfl
  · exact hwgeneration.trans (by rw [hgeneration])

/-- A selection is the current session of its slot. -/
theorem selection_line {entry : SessionEntry} {x : Stores} {m : Memory} (h : Shows x.db L)
    (hselected : selection c x m = .ok entry) :
    ∃ k, L.line c.binding.routeSlot = some k ∧ entry.sessionId = k.current := by
  obtain ⟨route, row, hselection⟩ := selection_eq_ok.mp hselected
  have hrouted := hselection.routed
  rw [get?_routes] at hrouted
  obtain ⟨r, hr, rfl⟩ := Option.map_eq_some_iff.mp hrouted
  obtain ⟨k, hk, hhead⟩ := h.line hr
  refine ⟨k, hk, ?_⟩
  rw [hselection.entry]
  exact (congrArg Prod.fst hhead).symm

end

/-! ## Every call, and every run -/

/-- The event is what the call makes happen. -/
def Task.Does (a : Task) (e : Growth) : Prop :=
  match a with
  | .prepare _ call _ => e = ⟨call.descriptor.correlationId, .create, call.descriptor.routeSlot,
      call.descriptor.targetSession⟩
  | .reset c call _ => e = ⟨call.correlationId, .reset, c.binding.routeSlot, call.targetSession⟩
  | .switch c call _ _ => e = ⟨call.correlationId, .switch, c.binding.routeSlot, e.target⟩
  | .read _ _ => False

/-- Two states of one create show the same. -/
theorem Created.shows {c : Coordinator} {call : CreateCall} {generation : Int} {raw : Bytes}
    {st st' : TransitionState} {o w w' : Db} {L : Ledger} (h : Shows w L)
    (hw : Created c call generation raw st o w) (hw' : Created c call generation raw st' o w') :
    Shows w' L := by
  obtain ⟨p, hp, -, hprojection⟩ := hw.projection
  obtain ⟨p', hp', -, hprojection'⟩ := hw'.projection
  cases hp.symm.trans hp'
  refine h.congr (Table.ext (hw'.routes.trans hw.routes.symm)) (Table.ext (hw'.sessions.trans hw.sessions.symm))
    (Table.ext (hw'.owners.trans hw.owners.symm)) ?_ ?_
  · rw [hw.transitions, hw'.transitions, List.map_append, List.map_append]
    rfl
  · rw [Db.generation, Db.generation, hprojection, hprojection']

theorem OwnMove.shows {c : Coordinator} {id : String} {v : View} {x : Stores} {L : Ledger}
    (h : OwnMove c id v x) (hv : Shows v.stores.db L) : Shows x.db L := by
  cases h with
  | published => exact hv
  | @settled p st _ _ _ _ _ hw =>
    have hshows := hv.updateState p st
    rw [hw] at hshows
    exact hshows

theorem CreateMove.shows {c : Coordinator} {call : CreateCall} {o x : Stores} {v : View} {L : Ledger}
    (h : CreateMove c .overlay call o v x) (hv : Shows v.stores.db L) :
    Shows x.db L ∨ ∃ L', Grows L ⟨call.descriptor.correlationId, .create, call.descriptor.routeSlot,
      call.descriptor.targetSession⟩ L' ∧ Shows x.db L' := by
  cases h with
  | commit hready ho hw =>
    subst ho
    obtain ⟨-, hroutes⟩ := hv.state hready.state
    have hfree := hready.free
    rw [hroutes] at hfree
    exact .inr (shows_created hv (hv.line_none hfree) hw)
  | publish => exact .inl hv
  | verify _ _ hw _ hw' => exact .inl (Created.shows hv hw hw')
  | settle _ _ hw _ _ hw' => exact .inl (Created.shows hv hw hw')

/-- **One move** of a call leaves what the tables show, or is one step of the ledger. -/
theorem Task.Move.shows {a : Task} {v : View} {x : Stores} {L : Ledger} (h : a.Move v x)
    (hv : Shows v.stores.db L) : Shows x.db L ∨ ∃ e L', Grows L e L' ∧ Shows x.db L' ∧ a.Does e := by
  cases a with
  | prepare c call identity =>
    cases h with
    | created hmove =>
      rcases hmove.shows hv with hsame | ⟨L', hgrows, hx⟩
      · exact .inl hsame
      · exact .inr ⟨_, L', hgrows, hx, rfl⟩
    | own hmove => exact .inl (hmove.shows hv)
  | reset c call identity =>
    cases h with
    | staged hfits hsource hsession hversion hid htarget hrows =>
      obtain ⟨L', hgrows, hx⟩ := shows_reset hv hfits hsource hsession hversion hrows
      rw [hid, htarget] at hgrows
      exact .inr ⟨_, L', hgrows, hx, rfl⟩
    | own hmove => exact .inl (hmove.shows hv)
  | switch c call identity target =>
    cases h with
    | staged hfits hsource hagrees hid hrows =>
      obtain ⟨L', hgrows, hx⟩ := shows_switch hv hfits hsource hagrees hrows
      rw [hid] at hgrows
      exact .inr ⟨_, L', hgrows, hx, rfl⟩
    | own hmove => exact .inl (hmove.shows hv)
  | read c identity => exact h.elim

theorem follows : Follows together Grows (fun c L => Shows c.shared.stores.db L) Task.Does where
  turn c t rest L hgood hshows := by
    cases tended hgood with
    | quiet hsame =>
      rw [hsame]
      exact .inl hshows
    | moved hrun hv hmove =>
      obtain ⟨k, hrun⟩ := hrun
      rcases hmove.shows (hv.stores ▸ hshows) with hsame | ⟨e, L', hgrows, hx, hdoes⟩
      · exact .inl hsame
      · exact .inr ⟨e, L', _, k, hgrows, hx, hrun, hdoes⟩

/-- **Every run** of any number of processes, whatever faults and crashes, is a run of the
ledger: the tables show a ledger that has grown by events, each of which some started call
does, and the transitions that were added are those events in their order. -/
theorem sessions_follow {L : Ledger} (s : Shared) (loc : Nat → Process) (h : Shows s.stores.db L)
    (turns : List (Turn Fault Task)) :
    ∃ events L', Replays Grows L events L' ∧
      Shows (overlays.run (Sessions.start s loc) turns).shared.stores.db L' ∧
      (∀ e ∈ events, ∃ a ∈ starts turns, a.Does e) ∧
      (events.map Growth.id).Nodup := by
  obtain ⟨events, L', hreplay, hshows, hevents⟩ :=
    Cooperate.run_replays follows (together_good s loc [] turns) h
  refine ⟨events, L', hreplay, hshows, fun e he => ?_, ?_⟩
  · obtain ⟨a, hdoes, hstarted | ⟨p, k, hrun⟩⟩ := hevents e he
    · exact ⟨a, hstarted, hdoes⟩
    · cases hrun
  · have hids : (L'.postings.map Posting.id).Nodup := by
      rw [← hshows.postings, List.map_map]
      exact (overlays.run (Sessions.start s loc) turns).shared.stores.db.transitions.nodup
    have hadded : L'.postings.map Posting.id = L.postings.map Posting.id ++ events.map Growth.id := by
      refine hreplay.collects (f := fun L => L.postings.map Posting.id) fun x e y hstep => ?_
      obtain ⟨version, -, hpostings⟩ := hstep.posting
      rw [hpostings, List.map_append]
      rfl
    rw [hadded] at hids
    exact (List.nodup_append.mp hids).2.1

/-- From any moment of a run on, the lines of the ledger only grow. -/
theorem lines_grow {s : Shared} {loc : Nat → Process} {past : List (Turn Fault Task)} {L : Ledger}
    (h : Shows (overlays.run (Sessions.start s loc) past).shared.stores.db L)
    (turns : List (Turn Fault Task)) :
    ∃ L', Shows (overlays.run (Sessions.start s loc) (past ++ turns)).shared.stores.db L' ∧
      ∀ slot k, L.line slot = some k → ∃ k', L'.line slot = some k' ∧ k.Extends k' := by
  rw [System.run_append]
  obtain ⟨events, L', hreplay, hshows, -⟩ :=
    Cooperate.run_replays follows (together_good s loc past turns) h
  refine ⟨L', hshows, fun slot k hk => ?_⟩
  refine hreplay.keeps (I := fun L' => ∃ k', L'.line slot = some k' ∧ k.Extends k') ?_ ⟨k, hk, .refl k⟩
  rintro L₁ e L₂ hgrows ⟨k₁, hk₁, hless⟩
  obtain ⟨k₂, hk₂, hmore⟩ := hgrows.line hk₁
  exact ⟨k₂, hk₂, hless.trans hmore⟩

namespace Sample

/-- No slot has a session yet. -/
def blank : Ledger where
  line _ := none
  apart := nofun
  generation := 0
  postings := []

theorem provisioned_blank : Shows provisioned.stores.db blank where
  routes _ := rfl
  sessions x := by
    constructor
    · rintro ⟨slot, k, hline, -⟩
      cases hline
    · intro h
      cases h
  owners _ := rfl
  postings := rfl
  generation := rfl

/-- A process prepares a session, a second one tries to reset it before it is there, and the
first one crashes. -/
def crowd : List (Turn Fault Task) :=
  [.start 1 (.prepare coordinator creation.call coordinator.binding.owner),
    .start 2 (.reset coordinator ⟨"child", "request", "reset", 8, 9⟩ coordinator.binding.owner),
    .act 1 .none, .act 2 .none, .act 1 .none, .act 2 (.fail .failure), .crash 1]

theorem crowd_follows : ∃ events L', Replays Grows blank events L' ∧
    Shows (overlays.run (Sessions.start provisioned processes) crowd).shared.stores.db L' ∧
    (∀ e ∈ events, ∃ a ∈ starts crowd, a.Does e) ∧ (events.map Growth.id).Nodup :=
  sessions_follow provisioned processes provisioned_blank crowd

end Sample

end ProjectMaya
