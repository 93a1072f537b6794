import ProjectMaya.Create
import ProjectMaya.Held

/-! # What one create does to the stores

From stores `o` that are `Ready`, a create can only go through four changes of the stores
(`CreateMove`): the commit of the staged rows, the replacement of the index file, and the
two commits that move the transition's state on.  `Created` says which rows the tables
have in between.

`wp_createBody` is the proof that the code does nothing else, for every contract that
allows these moves. -/

namespace ProjectMaya

open Logic

section

variable (c : Coordinator) (pf : Profile) (call : CreateCall)

/-- What the create has checked before it changes anything. -/
structure Ready (o : Stores) (generation : Int) (routes : Routes) : Prop where
  kept : call.descriptor.wellFormed ∧ c.binding.limitsKept c.binding.owner call.descriptor
  state : stateInTransaction c o.db = .ok (generation, routes, o.index)
  settled : ∀ t ∈ o.db.transitions, t.state = pf.settled
  free : routes.get? call.descriptor.routeSlot = none

/-- `w` is `o` with the rows of the create, whose transition is in state `st`. -/
structure Created (generation : Int) (raw : Bytes) (st : TransitionState) (o w : Db) : Prop where
  sessions : w.sessions.rows =
    o.sessions.rows ++ [call.descriptor.sessionRow c.binding.owner call.now]
  owners : w.owners.rows = o.owners.rows ++ [call.descriptor.ownerRow]
  routes : w.routes.rows = o.routes.rows ++ [call.descriptor.routeRow]
  transitions : w.transitions.rows =
    o.transitions.rows ++ [{ call.descriptor.transitionRow (generation + 1) raw with state := st }]
  projection : ∃ p, o.projection = some p ∧ p.generation = generation ∧
    w.projection = some { p with generation := generation + 1, projectionHash := digest raw }

/-- The changes of the stores that a create from `o` can make.  All but the first are only
made by a process that has seen its first commit return. -/
inductive CreateMove (o : Stores) (v : View) : Stores → Prop
  | commit {generation : Int} {routes : Routes} {w : Db} :
      Ready c pf call o generation routes → v.stores = o →
      Created c call generation (c.newBytes call generation routes)
        .committedPendingProjection o.db w →
      CreateMove o v { o with db := w }
  | publish {generation : Int} {routes : Routes} :
      Ready c pf call o generation routes → ⟨.stage, true, false⟩ ∈ v.notes →
      Created c call generation (c.newBytes call generation routes)
        .committedPendingProjection o.db v.stores.db →
      v.stores.index = o.index →
      CreateMove o v { v.stores with index := c.newBytes call generation routes }
  | verify {generation : Int} {routes : Routes} {w : Db} :
      Ready c pf call o generation routes → ⟨.stage, true, false⟩ ∈ v.notes →
      Created c call generation (c.newBytes call generation routes)
        .committedPendingProjection o.db v.stores.db →
      v.stores.index = c.newBytes call generation routes →
      Created c call generation (c.newBytes call generation routes) .projectionVerified o.db w →
      CreateMove o v { v.stores with db := w }
  | settle {generation : Int} {routes : Routes} {w : Db} :
      Ready c pf call o generation routes → ⟨.stage, true, false⟩ ∈ v.notes →
      Created c call generation (c.newBytes call generation routes)
        .projectionVerified o.db v.stores.db →
      v.stores.index = c.newBytes call generation routes →
      call.descriptor.outcomeRecord c.binding.owner ∈ v.written →
      Created c call generation (c.newBytes call generation routes) pf.final o.db w →
      CreateMove o v { v.stores with db := w }

/-- The stores that a create which started from `o` can leave. -/
inductive CreateLeaves (o : Stores) : Stores → Prop
  | same : CreateLeaves o o
  | created {generation : Int} {routes : Routes} {st : TransitionState} {x : Stores} :
      Ready c pf call o generation routes →
      Created c call generation (c.newBytes call generation routes) st o.db x.db →
      st ∈ [.committedPendingProjection, .projectionVerified, pf.final] →
      x.index ∈ [o.index, c.newBytes call generation routes] →
      CreateLeaves o x

/-- The stores that a create which started from `o` has left when it returned. -/
structure CreateDone (o x : Stores) : Prop where
  done : ∃ generation routes, Ready c pf call o generation routes ∧
    Created c call generation (c.newBytes call generation routes) pf.final o.db x.db ∧
    x.index = c.newBytes call generation routes

end

variable {c : Coordinator} {pf : Profile} {call : CreateCall} {o : Stores} {v : View}

theorem CreateMove.leaves {x : Stores} (h : CreateMove c pf call o v x) :
    CreateLeaves c pf call o x := by
  cases h with
  | commit hr _ hw => exact .created hr hw (by simp) (by simp)
  | publish hr _ hw _ => exact .created hr hw (by simp) (by simp)
  | verify hr _ _ hi hw => exact .created hr hw (by simp) (by simp [hi])
  | settle hr _ _ hi _ hw => exact .created hr hw (by simp) (by simp [hi])

theorem CreateDone.leaves {x : Stores} (h : CreateDone c pf call o x) :
    CreateLeaves c pf call o x := by
  obtain ⟨g, routes, hr, hw, hi⟩ := h.done
  exact .created hr hw (by simp) (by simp [hi])

/-! ## The statements of the three transactions -/

theorem insert_of_guard {ρ κ : Type} [DecidableEq κ] {key : ρ → κ} {guard : Bool}
    {t : Table ρ κ key} {r : ρ} {put : Table ρ κ key → Db} {w : Db}
    (h : (if guard then (t.insert r).map put else none) = some w) :
    ∃ u, u.rows = t.rows ++ [r] ∧ w = put u := by
  cases guard with
  | false => cases h
  | true =>
    obtain ⟨u, hu, rfl⟩ := Option.map_eq_some_iff.mp h
    exact ⟨u, (Table.insert_eq_some.mp hu).2, rfl⟩

theorem updateProjection_one {db w : Db} {generation expected : Int} {text : String}
    (h : db.updateProjection generation text expected = (w, 1)) :
    ∃ p, db.projection = some p ∧ p.generation = expected ∧
      w = { db with projection := some { p with generation, projectionHash := text } } := by
  unfold Db.updateProjection at h
  split at h
  · rename_i p hp
    split at h
    · rename_i hg
      exact ⟨p, hp, hg, (congrArg Prod.fst h).symm⟩
    · cases h
  · cases h

/-- The five statements of the first transaction. -/
theorem Created.of_statements {generation : Int} {raw : Bytes} {db db₁ db₂ db₃ db₄ w : Db}
    (h₁ : db.insertSession (call.descriptor.sessionRow c.binding.owner call.now) = some db₁)
    (h₂ : db₁.insertOwner call.descriptor.ownerRow = some db₂)
    (h₃ : db₂.insertRoute call.descriptor.routeRow = some db₃)
    (h₄ : db₃.insertTransition (call.descriptor.transitionRow (generation + 1) raw) = some db₄)
    (h₅ : db₄.updateProjection (generation + 1) (digest raw) generation = (w, 1)) :
    Created c call generation raw .committedPendingProjection db w := by
  obtain ⟨sessions, hs, rfl⟩ := insert_of_guard h₁
  obtain ⟨owners, ho, rfl⟩ := insert_of_guard h₂
  obtain ⟨routes, hr, rfl⟩ := insert_of_guard h₃
  obtain ⟨transitions, ht, rfl⟩ := insert_of_guard h₄
  obtain ⟨p, hp, hg, rfl⟩ := updateProjection_one h₅
  exact ⟨hs, ho, hr, ht, p, hp, hg, rfl⟩

/-- The statement of the other two transactions. -/
theorem Created.moveState {generation : Int} {raw : Bytes} {source target : TransitionState}
    {db w w' : Db} {changed : Nat} (h : Created c call generation raw source db w)
    (hu : w.updateState (fun t => t.correlationId = call.descriptor.correlationId &&
      t.state = source) target = (w', changed)) :
    Created c call generation raw target db w' ∧ changed = 1 := by
  cases hu
  obtain ⟨hrows, hcount⟩ := Table.rows_update_newest
    (fun t => t.correlationId = call.descriptor.correlationId && t.state = source)
    (fun t => { t with state := target }) (fun _ => rfl) h.transitions
    (by simp [CreateSessionDescriptor.transitionRow])
    (fun x hx => by
      have hne : x.correlationId ≠ call.descriptor.correlationId :=
        Table.ne_newest h.transitions hx
      simp [hne])
  exact ⟨⟨h.sessions, h.owners, h.routes, hrows, h.projection⟩, hcount⟩

/-! ## The code -/

variable {C : Contract Shared Process} {s : Shared} {l : Process}
  {E : Shared → Process → Prop}

theorem wp_authority (hC : Lawful C) (hv : At v s l) (hE : Covers E v) :
    wp C (c.authority call) (Ends (fun _ s l => At v s l ∧
      (call.descriptor.wellFormed ∧ c.binding.limitsKept c.binding.owner call.descriptor)) E)
      s l := by
  refine wp_seq (wp_refuseIf hv hE) ?_
  rintro _ s l ⟨hv, hkept⟩
  refine wp_mono (wp_ask hC hv hE) ?_
  intro r s l h
  cases r with
  | ok a => exact ⟨h, not_not.mp hkept⟩
  | error e => exact h

/-- Where a create stands between its commits: the view's stores are those of `o` with
the rows of the create, and the index file holds `index`. -/
structure Midway (c : Coordinator) (pf : Profile) (call : CreateCall) (o : Stores)
    (generation : Int) (routes : Routes) (st : TransitionState) (index : Bytes) (v : View) :
    Prop where
  ready : Ready c pf call o generation routes
  staged : ⟨.stage, true, false⟩ ∈ v.notes
  created : Created c call generation (c.newBytes call generation routes) st o.db v.stores.db
  index : v.stores.index = index

theorem Midway.leaves {generation : Int} {routes : Routes} {st : TransitionState} {index : Bytes}
    (h : Midway c pf call o generation routes st index v)
    (hst : st ∈ [.committedPendingProjection, .projectionVerified, pf.final])
    (hi : index ∈ [o.index, c.newBytes call generation routes]) :
    CreateLeaves c pf call o v.stores :=
  .created h.ready h.created hst (h.index ▸ hi)

theorem Midway.audited {generation : Int} {routes : Routes} {st : TransitionState}
    {index : Bytes} (h : Midway c pf call o generation routes st index v) (r : AuditRecord) :
    Midway c pf call o generation routes st index (v.audited r) :=
  ⟨h.ready, h.staged, h.created, h.index⟩

/-- The first transaction. -/
theorem wp_stage {generation : Int} {routes : Routes} (hC : Lawful C)
    (hstart : routes.get? call.descriptor.routeSlot = none →
      Ready c pf call v.stores generation routes)
    (hstate : stateInTransaction c v.stores.db = .ok (generation, routes, v.stores.index))
    (hv : At (v.within v.stores.db) s l)
    (hallow : ∀ w x, CreateMove c pf call v.stores w x → w.memory = v.memory → Allows C w x)
    (hE : ∀ w, CreateLeaves c pf call v.stores w.stores → w.memory = v.memory → Covers E w) :
    wp C (c.stage call generation v.stores.index)
      (Ends (fun raw s l => raw = c.newBytes call generation routes ∧ ∃ w,
        Midway c pf call v.stores generation routes .committedPendingProjection v.stores.index w ∧
        w.memory = v.memory ∧ At w s l) E) s l := by
  have hsame : Covers E v := hE v .same rfl
  refine wp_seq (wp_stateInTransaction hC hv hsame c) ?_
  rintro ⟨current, routes', raw⟩ s l ⟨hv, hagain⟩
  obtain ⟨rfl, rfl, rfl⟩ : current = generation ∧ routes' = routes ∧ raw = v.stores.index := by
    have h := hagain.symm.trans hstate
    simpa using h
  refine wp_seq (wp_refuseIf hv hsame) ?_
  rintro _ s l ⟨hv, hnot⟩
  have hready : Ready c pf call v.stores current routes' :=
    hstart (by simpa using fun h => hnot (.inr (.inr h)))
  refine wp_seq (wp_select hC hv hsame _) ?_
  rintro replay s l ⟨hv, -⟩
  refine wp_seq (wp_refuseIf hv hsame) ?_
  rintro _ s l ⟨hv, -⟩
  refine wp_seq (wp_execute hC hv hsame _) ?_
  rintro _ s l ⟨db₁, h₁, hv⟩
  refine wp_seq (wp_execute hC hv hsame _) ?_
  rintro _ s l ⟨db₂, h₂, hv⟩
  refine wp_seq (wp_execute hC hv hsame _) ?_
  rintro _ s l ⟨db₃, h₃, hv⟩
  refine wp_seq (wp_execute hC hv hsame _) ?_
  rintro _ s l ⟨db₄, h₄, hv⟩
  refine wp_seq (wp_execute hC hv hsame _) ?_
  rintro changed s l ⟨w, h₅, hv⟩
  refine wp_seq (wp_refuseIf hv hsame) ?_
  rintro _ s l ⟨hv, hchanged⟩
  obtain rfl : changed = 1 := not_not.mp hchanged
  have hcreated : Created c call current (c.newBytes call current routes')
      .committedPendingProjection v.stores.db w := by
    simp only [Option.map_eq_some_iff, Prod.mk.injEq, and_true, exists_eq_right] at h₁ h₂ h₃ h₄
    exact Created.of_statements h₁ h₂ h₃ h₄ (Option.some.inj h₅)
  have hleaves : CreateLeaves c pf call v.stores { v.stores with db := w } :=
    .created hready hcreated (by simp) (by simp)
  refine wp_seq (wp_authority hC hv hsame) ?_
  rintro _ s l ⟨hv, -⟩
  refine wp_seq (wp_assign hC hv fun l => ⟨rfl, rfl, rfl, rfl, rfl⟩) ?_
  intro _ s l hv
  refine wp_seq (wp_commit hC hv (hallow _ _ (.commit hready rfl hcreated) rfl)
    (hE _ .same rfl) (hE _ hleaves rfl)) ?_
  intro _ s l hv
  refine wp_seq (wp_assign hC hv fun l => ⟨rfl, rfl, rfl, rfl, rfl⟩) ?_
  intro _ s l hv
  exact wp_return ⟨rfl, v.committed w .stage false,
    ⟨hready, by simp [View.committed], hcreated, rfl⟩, rfl, hv⟩

theorem wp_recheck {generation : Int} {raw : Bytes} (hC : Lawful C) (hv : At v s l)
    (hE : Covers E v) :
    wp C (c.recheck generation raw) (Ends (fun _ s l => At v s l) E) s l := by
  refine wp_seq (wp_stateInTransaction hC hv hE c) ?_
  rintro ⟨current, routes, currentRaw⟩ s l ⟨hv, -⟩
  refine wp_seq (wp_readIndex hC hv hE) ?_
  rintro index s l ⟨hv, -⟩
  refine wp_mono (wp_refuseIf hv hE) ?_
  intro r s l h
  cases r with
  | ok a => exact h.1
  | error e => exact h

/-- The second transaction. -/
theorem wp_verifyProjection {generation : Int} {routes : Routes} {m : Memory} (hC : Lawful C)
    (hmid : Midway c pf call o generation routes .committedPendingProjection
      (c.newBytes call generation routes) v)
    (hm : v.memory = m) (hv : At (v.within v.stores.db) s l)
    (hallow : ∀ w x, CreateMove c pf call o w x → w.memory = m → Allows C w x)
    (hE : ∀ w, CreateLeaves c pf call o w.stores → w.memory = m → Covers E w) :
    wp C (c.verifyProjection call generation (c.newBytes call generation routes))
      (Ends (fun _ s l => ∃ w, Midway c pf call o generation routes .projectionVerified
        (c.newBytes call generation routes) w ∧ w.memory = m ∧ At w s l) E) s l := by
  have hsame : Covers E v := hE v (hmid.leaves (by simp) (by simp)) hm
  refine wp_seq (wp_recheck hC hv hsame) ?_
  intro _ s l hv
  refine wp_seq (wp_authority hC hv hsame) ?_
  rintro _ s l ⟨hv, -⟩
  refine wp_seq (wp_execute hC hv hsame _) ?_
  rintro changed s l ⟨w, hw, hv⟩
  have hcreated := (hmid.created.moveState (Option.some.inj hw)).1
  refine wp_mono (wp_commit hC hv
    (hallow _ _ (.verify hmid.ready hmid.staged hmid.created hmid.index hcreated) hm) (hE _ ?_ hm)
    (hE _ ?_ hm)) ?_
  · exact hmid.leaves (by simp) (by simp)
  · exact .created hmid.ready hcreated (by simp) (by simp [View.committed, hmid.index])
  · intro r s l h
    cases r with
    | ok a =>
      exact ⟨v.committed w .verify false, ⟨hmid.ready, by simp [View.committed, hmid.staged],
        hcreated, hmid.index⟩, hm, h⟩
    | error e => exact h

/-- The third transaction. -/
theorem wp_settle {generation : Int} {routes : Routes} {m : Memory} (hC : Lawful C)
    (hmid : Midway c pf call o generation routes .projectionVerified
      (c.newBytes call generation routes) v) (hm : v.memory = m)
    (haudit : call.descriptor.outcomeRecord c.binding.owner ∈ v.written)
    (hv : At (v.within v.stores.db) s l)
    (hallow : ∀ w x, CreateMove c pf call o w x → w.memory = m → Allows C w x)
    (hE : ∀ w, CreateLeaves c pf call o w.stores → w.memory = m → Covers E w) :
    wp C (c.settle pf call generation (c.newBytes call generation routes))
      (Ends (fun _ s l => ∃ w, Midway c pf call o generation routes pf.final
        (c.newBytes call generation routes) w ∧ w.memory = m ∧ At w s l) E) s l := by
  have hsame : Covers E v := hE v (hmid.leaves (by simp) (by simp)) hm
  refine wp_seq (wp_recheck hC hv hsame) ?_
  intro _ s l hv
  refine wp_seq (wp_execute hC hv hsame _) ?_
  rintro changed s l ⟨w, hw, hv⟩
  have hcreated := (hmid.created.moveState (Option.some.inj hw)).1
  refine wp_seq (wp_refuseIf hv hsame) ?_
  rintro _ s l ⟨hv, -⟩
  refine wp_mono (wp_commit hC hv
    (hallow _ _ (.settle hmid.ready hmid.staged hmid.created hmid.index haudit hcreated) hm)
    (hE _ ?_ hm) (hE _ ?_ hm)) ?_
  · exact hmid.leaves (by simp) (by simp)
  · exact .created hmid.ready hcreated (by simp) (by simp [View.committed, hmid.index])
  · intro r s l h
    cases r with
    | ok a =>
      exact ⟨v.committed w .settle false, ⟨hmid.ready, by simp [View.committed, hmid.staged],
        hcreated, hmid.index⟩, hm, h⟩
    | error e => exact h

/-- **The body of `create`.**  Under the lock it only makes the moves of a create that
starts from the stores at hand; when it returns, the create is done, and when it raises,
the stores are among those that a create can leave. -/
theorem wp_createBody {m : Memory} (hC : Lawful C) (ho : v.stores = o) (hm : v.memory = m)
    (hv : At v s l)
    (hallow : ∀ w x, CreateMove c pf call o w x → w.memory = m → Allows C w x) :
    wp C (c.createBody pf call)
      (Ends (fun receipt => Holding fun w => CreateDone c pf call o w.stores ∧ w.memory = m ∧
          receipt = ⟨call.descriptor.targetSession, call.descriptor.correlationId, pf.final,
            false⟩)
        (Holding (Among (CreateLeaves c pf call o) m))) s l := by
  have hloose := loose_holding (loosely_among (I := CreateLeaves c pf call o) (m := m))
  have hE : ∀ w : View, CreateLeaves c pf call o w.stores → w.memory = m →
      Covers (Holding (Among (CreateLeaves c pf call o) m)) w :=
    fun w hw hm => covers_holding loosely_among ⟨hw, hm⟩
  have hsame := hE v (ho ▸ .same) hm
  refine wp_seq (wp_authority hC hv hsame) ?_
  rintro _ s l ⟨hv, hkept⟩
  refine wp_seq (wp_state hC hv hsame c) ?_
  rintro ⟨generation, routes, oldRaw⟩ s l ⟨hv, htx, hstate⟩
  refine wp_seq (wp_readIndex hC hv hsame) ?_
  rintro index s l ⟨hv, rfl⟩
  refine wp_seq (wp_refuseIf hv hsame) ?_
  rintro _ s l ⟨hv, hindex⟩
  obtain rfl : v.stores.index = oldRaw := not_not.mp hindex
  refine wp_seq (wp_select hC hv hsame _) ?_
  rintro unsettled s l ⟨hv, hunsettled⟩
  refine wp_seq (wp_refuseIf hv hsame) ?_
  rintro _ s l ⟨hv, hsettled⟩
  have hstart : routes.get? call.descriptor.routeSlot = none →
      Ready c pf call v.stores generation routes := by
    intro hfree
    refine ⟨hkept, hstate, ?_, hfree⟩
    intro t ht
    rw [hunsettled, htx] at hsettled
    by_contra hne
    exact hsettled (List.any_eq_true.mpr ⟨t, ht, by simpa using hne⟩)
  subst ho
  refine wp_seq (wp_transaction hC hv hsame hloose fun s l hv =>
    wp_stage hC hstart hstate hv (hm ▸ hallow) (hm ▸ hE)) ?_
  rintro _ s l ⟨rfl, w, hmid, hm', hv⟩
  have hpending : Covers (Holding (Among (CreateLeaves c pf call v.stores) m)) w :=
    hE w (hmid.leaves (by simp) (by simp)) (hm'.trans hm)
  refine wp_seq (wp_authority hC hv hpending) ?_
  rintro _ s l ⟨hv, -⟩
  refine wp_seq (wp_publish hC hv (hallow _ _ (.publish hmid.ready hmid.staged hmid.created
    hmid.index) (hm'.trans hm)) hpending (hE _ (.created hmid.ready hmid.created (by simp)
    (by simp [View.replaced])) (hm'.trans hm)) hloose) ?_
  intro _ s l hv
  have hmid : Midway c pf call v.stores generation routes .committedPendingProjection
      (c.newBytes call generation routes)
      { w.replaced (c.newBytes call generation routes) with temp := none } :=
    ⟨hmid.ready, hmid.staged, hmid.created, rfl⟩
  have hpublished := hE _ (hmid.leaves (by simp) (by simp)) (hm'.trans hm)
  refine wp_seq (wp_transaction hC hv hpublished hloose fun s l hv =>
    wp_verifyProjection hC hmid (hm'.trans hm) hv hallow hE) ?_
  rintro _ s l ⟨x, hmid, hm', hv⟩
  have hverified := hE x (hmid.leaves (by simp) (by simp)) hm'
  refine wp_seq (wp_renamed (wp_writeAudit hC hv hverified _)) ?_
  intro _ s l hv
  have hmid := hmid.audited (call.descriptor.outcomeRecord c.binding.owner)
  have haudited := hE _ (hmid.leaves (by simp) (by simp)) hm'
  refine wp_seq (wp_authority hC hv haudited) ?_
  rintro _ s l ⟨hv, -⟩
  refine wp_seq (wp_transaction hC hv haudited hloose fun s l hv =>
    wp_settle hC hmid hm' (by simp [View.audited]) hv hallow hE) ?_
  rintro _ s l ⟨y, hmid, hm', hv⟩
  exact wp_return ⟨y, ⟨⟨_, _, hmid.ready, hmid.created, hmid.index⟩, hm', rfl⟩, hv⟩

theorem wp_authorityOutside {R : Shared → Process → Prop} (hC : Lawful C) (hR : Outside C R)
    (h : R s l) : wp C (c.authority call) (Ends (fun _ => R) R) s l := by
  refine wp_seq (wp_refuseIfOutside h) ?_
  rintro _ s l ⟨h, -⟩
  exact wp_askOutside hC hR h

/-- The receipt of a create. -/
def CreateCall.receipt (call : CreateCall) (pf : Profile) : Receipt where
  sessionId := call.descriptor.targetSession
  correlationId := call.descriptor.correlationId
  state := pf.final

/-- **`create`.**  `R` is what holds before, `E` what is to hold after an exception. -/
theorem wp_create {R : Shared → Process → Prop} {P : Receipt → Shared → Process → Prop}
    (hC : Lawful C) (hR : Outside C R) (hE : Outside C E) (hRE : ∀ s l, R s l → E s l)
    (hflags : ∀ s l committed commitAttempted, R s l →
      R s { l with committed, commitAttempted })
    (hallow : ∀ s l w x, R s l → CreateMove c pf call s.stores w x → w.memory = l.memory →
      Allows C w x)
    (hP : ∀ s₀ l₀ (v : View) s l, R s₀ l₀ → CreateDone c pf call s₀.stores v.stores →
      v.memory = l₀.memory → Knows (v.released true false) s l → P (call.receipt pf) s l)
    (hleft : ∀ s₀ l₀ (v : View) effect raised s l, R s₀ l₀ → CreateLeaves c pf call s₀.stores v.stores →
      v.memory = l₀.memory → Knows (v.released effect raised) s l → E s l)
    (h : R s l) : wp C (c.create pf call) (Ends P E) s l := by
  refine wp_bind (wp_askOutside hC hR h) ?_ fun _ s l h => hRE s l h
  intro _ s l h
  refine wp_seq (wp_assignOutside hC hR h (fun _ => ⟨rfl, rfl, rfl⟩)
    fun s l h => hflags s l false false h) ?_
  intro _ s l h
  have hinside : wp C (do c.authority call; exclusive (c.createBody pf call) : Code Receipt)
      (Ends P E) s l := by
    refine wp_bind (wp_authorityOutside hC hR h) ?_ fun _ s l h => hRE s l h
    intro _ s l h
    refine wp_exclusive hC hR h hRE (G := fun v => ∃ s₀ l₀, R s₀ l₀ ∧ v = View.seen s₀ l₀)
      (K := fun receipt v => ∃ s₀ l₀, R s₀ l₀ ∧ CreateDone c pf call s₀.stores v.stores ∧
        v.memory = l₀.memory ∧ receipt = call.receipt pf)
      (F := fun v => ∃ s₀ l₀, R s₀ l₀ ∧ Among (CreateLeaves c pf call s₀.stores) l₀.memory v)
      (fun s l h => ⟨s, l, h, rfl⟩) ?_ ?_ ?_ ?_ ?_ ?_
    · rintro v tx temp ⟨s₀, l₀, h₀, hv⟩
      exact ⟨s₀, l₀, h₀, hv⟩
    · rintro v ⟨s₀, l₀, h₀, rfl⟩
      exact ⟨s₀, l₀, h₀, .same, rfl⟩
    · rintro v s l ⟨s₀, l₀, h₀, rfl⟩ hv
      refine wp_mono (wp_createBody hC rfl rfl hv fun w x => hallow s₀ l₀ w x h₀) ?_
      intro r s l hr
      cases r with
      | ok receipt =>
        obtain ⟨w, ⟨hdone, hm, hreceipt⟩, hw⟩ := hr
        exact ⟨w, ⟨s₀, l₀, h₀, hdone, hm, hreceipt⟩, hw⟩
      | error e =>
        obtain ⟨w, hleaves, hw⟩ := hr
        exact ⟨w, ⟨s₀, l₀, h₀, hleaves⟩, hw⟩
    · rintro receipt v s l ⟨s₀, l₀, h₀, hdone, hm, rfl⟩ hk
      exact hP s₀ l₀ v s l h₀ hdone hm hk
    · rintro receipt v effect s l ⟨s₀, l₀, h₀, hdone, hm, -⟩ hk
      exact hleft s₀ l₀ v effect true s l h₀ hdone.leaves hm hk
    · rintro v effect raised s l ⟨s₀, l₀, h₀, hleaves, hm⟩ hk
      exact hleft s₀ l₀ v effect raised s l h₀ hleaves hm hk
  refine wp_mapError hinside (fun _ _ _ h => h) ?_
  intro e s l he
  refine wp_bind (wp_peekOutside (R := E) hC hE he _) ?_ fun _ _ _ h => h.elim
  intro attempted s l hleft
  cases e <;> exact wp_pure hleft

end ProjectMaya
