import ProjectMaya.Competing
import ProjectMaya.Readers

/-! # Published means evidence

The invariant of the stores and the audit trail over runs of competing creates
(`Evident`): the transitions tell in order how the routes came to be (`Chronicle`), each
with the hash of the projection at its time, and each published one has its route row and
its outcome record.  `published_evidence` is what follows for every reachable state, and
for an entry that the reader returns in it. -/

namespace ProjectMaya

open Logic

/-- A transition without its state. -/
def Transition.unstated (t : Transition) : Transition := { t with state := .other "" }

/-! ## Chronicles -/

/-- The routes whose transition has a generation up to `g`. -/
def routesUpTo (rs : List RouteRow) (ts : List Transition) (g : Int) : Routes :=
  (rs.filter fun r => ts.any fun t => t.correlationId = r.correlationId && t.generation ≤ g).map
    RouteRow.entry

/-- Each transition has allocated one route, and its hash is the digest of the projection
of the routes so far. -/
inductive Chronicle (inst database : String) : Int → List RouteRow → List Transition → Prop
  | start (g : Int) : Chronicle inst database g [] []
  | next {g : Int} {rs : List RouteRow} {ts : List Transition} {r : RouteRow} {t : Transition} :
      Chronicle inst database g rs ts → (∀ u ∈ ts, u.correlationId ≠ t.correlationId) →
      r.correlationId = t.correlationId → t.generation = g + 1 →
      t.projectionHash =
        digest (projectionBytes inst database (g + 1) ((rs ++ [r]).map RouteRow.entry)) →
      Chronicle inst database (g + 1) (rs ++ [r]) (ts ++ [t])

namespace Chronicle

variable {inst database : String} {g : Int} {rs : List RouteRow} {ts : List Transition}

theorem generation_le (h : Chronicle inst database g rs ts) : ∀ t ∈ ts, t.generation ≤ g := by
  induction h with
  | start g => simp
  | next _ _ _ hg _ ih =>
    intro u hu
    rcases List.mem_append.mp hu with hu | hu
    · have := ih u hu; omega
    · rw [List.mem_singleton.mp hu]; omega

theorem route_transition (h : Chronicle inst database g rs ts) :
    ∀ r ∈ rs, ∃ t ∈ ts, t.correlationId = r.correlationId := by
  induction h with
  | start g => simp
  | next _ _ hr _ _ ih =>
    intro x hx
    rcases List.mem_append.mp hx with hx | hx
    · obtain ⟨t, ht, hc⟩ := ih x hx
      exact ⟨t, List.mem_append_left _ ht, hc⟩
    · rw [List.mem_singleton.mp hx]
      exact ⟨_, by simp, hr.symm⟩

/-- Up to the current generation every route counts. -/
theorem routesUpTo_all (h : Chronicle inst database g rs ts) :
    routesUpTo rs ts g = rs.map RouteRow.entry := by
  unfold routesUpTo
  rw [List.filter_eq_self.mpr]
  intro r hr
  obtain ⟨t, ht, hc⟩ := h.route_transition r hr
  exact List.any_eq_true.mpr ⟨t, ht, by simp [hc, h.generation_le t ht]⟩

/-- The hash of a transition is the digest of the projection recomputed for its generation. -/
theorem hash (h : Chronicle inst database g rs ts) : ∀ t ∈ ts,
    t.projectionHash =
      digest (projectionBytes inst database t.generation (routesUpTo rs ts t.generation)) := by
  induction h with
  | start g => simp
  | @next g rs ts r t hold hfresh hr hg hhash ih =>
    intro u hu
    rcases List.mem_append.mp hu with hu | hu
    · have hle := hold.generation_le u hu
      rw [ih u hu]
      congr 2
      unfold routesUpTo
      rw [List.filter_append, List.map_append]
      have hlast : [r].filter (fun r => (ts ++ [t]).any fun t =>
          t.correlationId = r.correlationId && t.generation ≤ u.generation) = [] := by
        rw [List.filter_eq_nil_iff]
        intro x hx
        rw [List.mem_singleton.mp hx, List.any_eq_true]
        rintro ⟨w, hw, hmatch⟩
        simp only [Bool.and_eq_true, decide_eq_true_eq] at hmatch
        rcases List.mem_append.mp hw with hw | hw
        · exact hfresh w hw (hmatch.1.trans hr)
        · rw [List.mem_singleton.mp hw] at hmatch; omega
      rw [hlast, List.map_nil, List.append_nil]
      congr 1
      refine List.filter_congr fun x hx => ?_
      rw [List.any_append]
      simp only [List.any_cons, List.any_nil, Bool.or_false]
      have : (decide (t.generation ≤ u.generation)) = false := by
        rw [decide_eq_false_iff_not]; omega
      rw [this, Bool.and_false, Bool.or_false]
    · have hu := List.mem_singleton.mp hu
      subst hu
      have hall : Chronicle inst database (g + 1) (rs ++ [r]) (ts ++ [u]) :=
        .next hold hfresh hr hg hhash
      rw [hhash, hg, hall.routesUpTo_all]

end Chronicle

/-! ## The invariant -/

/-- The evidence of a published transition: the route row of its create, and the record of
its outcome. -/
def Evidence (db : Db) (audit : List AuditRecord) (t : Transition) : Prop :=
  ∃ (d : CreateSessionDescriptor) (owner : RequestIdentity), d.routeRow ∈ db.routes ∧
    t.correlationId = d.correlationId ∧ t.descriptorDigest = d.digest ∧
    t.targetSession = some d.targetSession ∧ d.outcomeRecord owner ∈ audit

structure Evident (db : Db) (audit : List AuditRecord) : Prop where
  provisioned : db.projection = none → db.transitions.rows = []
  chronicle : ∀ p, db.projection = some p → Chronicle p.instanceId p.databaseId p.generation
    db.routes.rows (db.transitions.rows.map Transition.unstated)
  hash : ∀ p, db.projection = some p → db.transitions.rows ≠ [] →
    (∀ r ∈ db.routes.rows, db.routed r = true) ∧ p.projectionHash =
      digest (projectionBytes p.instanceId p.databaseId p.generation
        (db.routes.rows.map RouteRow.entry))
  published : ∀ t ∈ db.transitions, t.state = .published → Evidence db audit t

theorem Evident.mono {db : Db} {audit audit' : List AuditRecord} (h : Evident db audit)
    (hmore : ∀ r ∈ audit, r ∈ audit') : Evident db audit' where
  provisioned := h.provisioned
  chronicle := h.chronicle
  hash := h.hash
  published t ht hs := by
    obtain ⟨d, owner, hr, hc, hd, htarget, ha⟩ := h.published t ht hs
    exact ⟨d, owner, hr, hc, hd, htarget, hmore _ ha⟩

/-- Only states have changed, and what is newly published has its evidence. -/
theorem Evident.restate {db db' : Db} {audit : List AuditRecord} (h : Evident db audit)
    (howners : db'.owners.rows = db.owners.rows) (hroutes : db'.routes.rows = db.routes.rows)
    (hprojection : db'.projection = db.projection)
    (htransitions : db'.transitions.rows.map Transition.unstated =
      db.transitions.rows.map Transition.unstated)
    (hpublished : ∀ t ∈ db'.transitions, t.state = .published →
      t ∈ db.transitions ∨ Evidence db' audit t) : Evident db' audit := by
  have hempty : db'.transitions.rows = [] ↔ db.transitions.rows = [] := by
    rw [← List.map_eq_nil_iff (f := Transition.unstated), htransitions, List.map_eq_nil_iff]
  have hrouted : ∀ r, db'.routed r = db.routed r := by
    intro r
    simp only [Db.routed, howners]
  constructor
  · intro hp
    exact hempty.mpr (h.provisioned (hprojection ▸ hp))
  · intro p hp
    rw [hroutes, htransitions]
    exact h.chronicle p (hprojection ▸ hp)
  · intro p hp hne
    rw [hroutes]
    obtain ⟨hall, hhash⟩ := h.hash p (hprojection ▸ hp) (mt hempty.mpr hne)
    exact ⟨fun r hr => (hrouted r).trans (hall r hr), hhash⟩
  · intro t ht hs
    rcases hpublished t ht hs with hold | hnew
    · obtain ⟨d, owner, hr, hrest⟩ := h.published t hold hs
      refine ⟨d, owner, ?_, hrest⟩
      rw [Table.mem_def] at hr ⊢
      rwa [hroutes]
    · exact hnew

variable {c : Coordinator} {call : CreateCall} {o : Stores} {v : View}

/-- A new route goes to the end of the routes. -/
theorem Routes.set_of_free {routes : Routes} {slot : String} {entry : RouteEntry}
    (h : routes.get? slot = none) : routes.set slot entry = routes ++ [(slot, entry)] := by
  unfold Routes.get? at h
  rw [Option.map_eq_none_iff, List.find?_eq_none] at h
  unfold Routes.set
  rw [if_neg]
  intro hany
  obtain ⟨x, hx, hs⟩ := List.any_eq_true.mp hany
  exact h x hx hs

theorem Created.routed {generation : Int} {raw : Bytes} {st : TransitionState} {db w : Db}
    (hw : Created c call generation raw st db w) (hkept : ∀ r ∈ db.routes.rows, db.routed r = true) : ∀ r ∈ w.routes.rows, w.routed r = true := by
  intro r hr
  rw [hw.routes] at hr
  unfold Db.routed
  rw [hw.owners, List.any_append, Bool.or_eq_true]
  rcases List.mem_append.mp hr with hr | hr
  · exact .inl (hkept r hr)
  · right
    rw [List.mem_singleton.mp hr]
    simp [CreateSessionDescriptor.routeRow, CreateSessionDescriptor.ownerRow]

/-- The commit of a create adds one entry to the chronicle. -/
theorem Evident.commit {pf : Profile} {audit : List AuditRecord} {generation : Int}
    {routes : Routes} {w : Db} (h : Evident o.db audit)
    (hready : Ready c pf call o generation routes)
    (hw : Created c call generation (c.newBytes call generation routes)
      .committedPendingProjection o.db w) : Evident w audit := by
  obtain ⟨p, hp, hgen, hproj⟩ := hw.projection
  obtain ⟨q, hq, hg, hroutes, -⟩ := stateInTransaction_eq_ok.mp hready.state
  cases hp.symm.trans hq.projection
  have hrouted := hw.routed hq.routed
  have hbytes : c.newBytes call generation routes = projectionBytes p.instanceId p.databaseId
      (generation + 1) ((o.db.routes.rows ++ [call.descriptor.routeRow]).map RouteRow.entry) := by
    unfold Coordinator.newBytes
    rw [Routes.set_of_free hready.free, hroutes, hq.instanceId, hq.databaseId, List.map_append]
    rfl
  constructor
  · intro hnone
    rw [hproj] at hnone
    cases hnone
  · intro p' hp'
    cases hproj.symm.trans hp'
    rw [hw.routes, hw.transitions, List.map_append]
    refine .next (hgen ▸ h.chronicle p hp) ?_ rfl rfl ?_
    · intro u hu
      obtain ⟨x, hx, rfl⟩ := List.mem_map.mp hu
      have hne : x.correlationId ≠ call.descriptor.correlationId :=
        Table.ne_newest hw.transitions hx
      exact hne
    · exact congrArg digest hbytes
  · intro p' hp' _
    cases hproj.symm.trans hp'
    refine ⟨hrouted, ?_⟩
    rw [hw.routes]
    exact congrArg digest hbytes
  · intro t ht hs
    rw [Table.mem_def, hw.transitions] at ht
    rcases List.mem_append.mp ht with ht | ht
    · obtain ⟨d, owner, hr, hrest⟩ := h.published t ht hs
      refine ⟨d, owner, ?_, hrest⟩
      rw [Table.mem_def] at hr ⊢
      rw [hw.routes]
      exact List.mem_append_left _ hr
    · rw [List.mem_singleton.mp ht] at hs
      cases hs

/-- The other commits of a create only change the state of its transition. -/
theorem Evident.moveState {audit : List AuditRecord} {generation : Int} {raw : Bytes}
    {st st' : TransitionState} {db w w' : Db} (h : Evident w audit)
    (hw : Created c call generation raw st db w) (hw' : Created c call generation raw st' db w')
    (hst : st' = .published → call.descriptor.outcomeRecord c.binding.owner ∈ audit) :
    Evident w' audit := by
  refine h.restate (hw'.owners.trans hw.owners.symm) (hw'.routes.trans hw.routes.symm) ?_ ?_ ?_
  · obtain ⟨p, hp, _, hproj⟩ := hw.projection
    obtain ⟨p', hp', _, hproj'⟩ := hw'.projection
    cases hp.symm.trans hp'
    rw [hproj, hproj']
  · rw [hw.transitions, hw'.transitions]
    simp [Transition.unstated]
  · intro t ht hs
    rw [Table.mem_def, hw'.transitions] at ht
    rcases List.mem_append.mp ht with ht | ht
    · left
      rw [Table.mem_def, hw.transitions]
      exact List.mem_append_left _ ht
    · right
      have ht := List.mem_singleton.mp ht
      subst ht
      refine ⟨call.descriptor, c.binding.owner, ?_, rfl, rfl, rfl, hst hs⟩
      rw [Table.mem_def, hw'.routes]
      simp

/-- Every move of a released create keeps the invariant. -/
theorem Evident.move {audit : List AuditRecord} {x : Stores} (h : Evident v.stores.db audit)
    (hwritten : ∀ r ∈ v.written, r ∈ audit) (hmove : CreateMove c .base call o v x) :
    Evident x.db audit := by
  cases hmove with
  | commit hready ho hw => exact (ho ▸ h).commit hready hw
  | publish _ _ _ _ => exact h
  | verify _ _ hw _ hw' => exact h.moveState hw hw' nofun
  | settle _ _ hw _ haudit hw' => exact h.moveState hw hw' fun _ => hwritten _ haudit

/-! ## Runs -/

theorem audit_turn {c : Creations} {t : Turn Fault Creation} {rest : List (Turn Fault Creation)}
    (h : cooperate.Good c (t :: rest)) :
    ∀ r ∈ c.shared.audit, r ∈ (creates.turn c t).shared.audit := by
  have heffect := (cooperate.good_turn h).2
  generalize creates.turn c t = c' at heffect
  cases heffect with
  | started _ hs _ => rw [hs]; exact fun _ => id
  | refused => exact fun _ => id
  | idle => exact fun _ => id
  | acted _ hg => exact (Keeps.step hg).audit
  | ended _ _ hs _ => rw [hs]; exact fun _ => id
  | crashed hdie =>
    have hs : c'.shared.audit = c.shared.audit := congrArg (fun x => Shared.audit x.1) hdie
    rw [hs]
    exact fun _ => id

theorem evident_turn {c : Creations} {t : Turn Fault Creation} {rest : List (Turn Fault Creation)}
    (hgood : cooperate.Good c (t :: rest)) (h : Evident c.shared.stores.db c.shared.audit) :
    Evident (creates.turn c t).shared.stores.db (creates.turn c t).shared.audit := by
  refine Evident.mono ?_ (audit_turn hgood)
  cases turned hgood with
  | quiet hs => rwa [hs]
  | moved _ hv hmove => exact Evident.move (hv.stores ▸ h) hv.written hmove

/-- Stores in which nothing has been created. -/
structure Unused (db : Db) : Prop where
  routes : db.routes.rows = []
  transitions : db.transitions.rows = []

theorem evident_run {s : Shared} (h : Unused s.stores.db) (loc : Nat → Process)
    (turns : List (Turn Fault Creation)) :
    Evident (creates.run (Creations.start s loc) turns).shared.stores.db
      (creates.run (Creations.start s loc) turns).shared.audit := by
  refine cooperate.run_keeps (I := fun c => Evident c.shared.stores.db c.shared.audit)
    (good s loc turns) ?_ ?_
  · constructor
    · intro _; exact h.transitions
    · intro p _
      show Chronicle _ _ _ s.stores.db.routes.rows (s.stores.db.transitions.rows.map _)
      rw [h.routes, h.transitions]
      exact .start _
    · intro p _ hne; exact absurd h.transitions hne
    · intro t ht
      rw [Table.mem_def] at ht
      exact absurd (h.transitions ▸ ht) List.not_mem_nil
  · rintro c t c' rest hgood _ rfl hevident
    exact evident_turn hgood hevident

/-- **Published means evidence.**  In every state that competing creates reach from unused
stores, a published transition has its outcome record in the audit trail, its hash and the
hash of the projection row are the digests of the bytes recomputed from the rows, and its
route row points at its target with version 1.  An entry that the reader returns there is
of the bound route; every transition is published, and the index holds the recomputed
bytes. -/
theorem published_evidence {s : Shared} (h : Unused s.stores.db) (loc : Nat → Process)
    (turns : List (Turn Fault Creation)) :
    let reached := creates.run (Creations.start s loc) turns
    let db := reached.shared.stores.db
    (∀ t ∈ db.transitions, t.state = .published →
      Evidence db reached.shared.audit t ∧
      ∃ p, db.projection = some p ∧
        t.projectionHash = digest (projectionBytes p.instanceId p.databaseId t.generation
          (routesUpTo db.routes.rows db.transitions.rows t.generation)) ∧
        p.projectionHash = digest (projectionBytes p.instanceId p.databaseId p.generation
          db.activeRoutes)) ∧
    (∀ (reader : Coordinator) identity moves p entry,
      ((reader.read .base identity).run die moves reached.shared (reached.host p).loc).result =
        some (.ok entry) →
      entry.sessionKey = reader.binding.routeSlot ∧
      (∀ t ∈ db.transitions, t.state = .published) ∧
      ∃ q version, db.projection = some q ∧
        reached.shared.stores.index =
          projectionBytes q.instanceId q.databaseId q.generation db.activeRoutes ∧
        db.activeRoutes.get? reader.binding.routeSlot = some ⟨entry.sessionId, version⟩) := by
  intro reached db
  have hev : Evident db reached.shared.audit := evident_run h loc turns
  constructor
  · intro t ht hs
    refine ⟨hev.published t ht hs, ?_⟩
    have hne : db.transitions.rows ≠ [] := List.ne_nil_of_mem ht
    cases hp : db.projection with
    | none => exact absurd (hev.provisioned hp) hne
    | some p =>
      obtain ⟨hrouted, hhash⟩ := hev.hash p hp hne
      refine ⟨p, rfl, ?_, ?_⟩
      · have hmem : t.unstated ∈ db.transitions.rows.map Transition.unstated :=
          List.mem_map_of_mem ht
        have hash := (hev.chronicle p hp).hash _ hmem
        have hsame : ∀ g, routesUpTo db.routes.rows (db.transitions.rows.map Transition.unstated) g =
            routesUpTo db.routes.rows db.transitions.rows g := by
          intro g
          simp only [routesUpTo, List.any_map]
          rfl
        rw [hsame] at hash
        exact hash
      · rw [Db.activeRoutes_of_routed hrouted]
        exact hhash
  · intro reader identity moves p entry hread
    have hval := (read_validated reader .base identity moves _ _).2 entry hread
    obtain ⟨generation, routes, version, hstate, hroute⟩ := hval.state
    obtain ⟨q, hq, rfl, rfl, hindex⟩ := stateInTransaction_eq_ok.mp hstate
    refine ⟨hval.key, hval.settled, q, version, hq.projection, ?_, ?_⟩
    · rw [Db.activeRoutes_of_routed hq.routed]
      exact hindex
    · rw [Db.activeRoutes_of_routed hq.routed]
      exact hroute

namespace Sample

def coordinator : Coordinator where
  binding :=
    { owner := { actorId := "owner" }
      instanceId := "instance"
      database := "/state.db"
      routeSlot := "main"
      bindingVersion := 1 }
  index := "/sessions.json"

/-- The tables and the index as a fixture provisions them. -/
def provisioned : Shared where
  stores :=
    { db :=
        { projection := some
            { schemaVersion := 1
              instanceId := "instance"
              databaseId := "/state.db"
              generation := 0
              projectionHash := ProjectMaya.digest (projectionBytes "instance" "/state.db" 0 [])
              indexPath := "/sessions.json" } }
      index := projectionBytes "instance" "/state.db" 0 [] }

def creation : Creation where
  coordinator := coordinator
  call :=
    { descriptor :=
        { contract := transitionContract
          instanceId := "instance"
          database := "/state.db"
          principal := "owner"
          classification := "confidential"
          bindingVersion := 1
          routeSlot := "main"
          expectedRouteVersion := 0
          targetSession := "session"
          requestId := "request"
          correlationId := "correlation" }
      now := 7 }

/-- One create that runs to its end. -/
def turns : List (Turn Fault Creation) := .start 1 creation :: List.replicate 60 (.act 1 .none)

def processes (p : Nat) : Process := { pid := p }

theorem published_state :
    (creates.run (Creations.start provisioned processes) turns).shared.stores.db.transitions.rows.any
      (fun t => t.state = .published) = true := by
  decide +kernel

/-- After the run the published transition has its evidence. -/
theorem published_has_evidence :
    ∃ t, t.state = .published ∧ Evidence
      (creates.run (Creations.start provisioned processes) turns).shared.stores.db
      (creates.run (Creations.start provisioned processes) turns).shared.audit t := by
  obtain ⟨t, ht, hs⟩ := List.any_eq_true.mp published_state
  have hs := of_decide_eq_true hs
  have ht := Table.mem_def.mpr ht
  have h := (published_evidence (s := provisioned) ⟨rfl, rfl⟩ processes turns).1 t ht hs
  exact ⟨t, hs, h.1⟩

end Sample

end ProjectMaya
