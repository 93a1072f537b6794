import ProjectMaya.LinesShown
import ProjectMaya.SessionReads

/-! # Transitions that are not acknowledged

At most one transition is not acknowledged, and it is the newest one; without one the index
file holds the projection of the tables (`Orderly`, `orderly_reached`).  Only the call that
has made an unacknowledged transition can move it on.  When that call is gone, nothing ever
changes the stores again, and no later read returns (`unsettled_blocks`). -/

namespace ProjectMaya

open Logic

/-- The index file holds the projection of the routes. -/
def Projected (x : Stores) : Prop :=
  ∃ p, x.db.projection = some p ∧ x.index = projectionBytes p.instanceId p.databaseId p.generation
    (x.db.routes.rows.map RouteRow.entry)

structure Orderly (x : Stores) : Prop where
  newest : ∀ t ∈ x.db.transitions, t.state ≠ .callerAcknowledged → Newest x.db t.correlationId
  projected : x.db.unacknowledged = false → Projected x

section

variable {c : Coordinator} {x : Stores} {v : View} {o w : Db} {index : Bytes}

/-- The transition is among the unacknowledged ones, so all others are acknowledged. -/
theorem Newest.only {id : String} (h : Newest o id) {t : Transition} (ht : t ∈ o.transitions)
    (hstate : t.state ≠ .callerAcknowledged) : t.correlationId = id := by
  obtain ⟨-, -, -, -, -, hothers⟩ := h
  have hone := List.all_eq_true.mp hothers t ht
  simp only [Bool.or_eq_true, decide_eq_true_eq] at hone
  exact hone.resolve_right hstate

theorem projected_of_state {generation : Int} {routes : Routes}
    (h : stateInTransaction c o = .ok (generation, routes, index)) : Projected ⟨o, index⟩ := by
  obtain ⟨p, hp, -, rfl, rfl⟩ := stateInTransaction_eq_ok.mp h
  exact ⟨p, hp.projection, rfl⟩

/-- A reset starts when everything is acknowledged. -/
theorem resetSource_settled {now : ResetSource} (h : resetSource c o index = .ok now) :
    ∀ t ∈ o.transitions, t.state = .callerAcknowledged := by
  unfold resetSource at h
  simp only [bind_eq_ok, ensure_eq_ok] at h
  obtain ⟨_, _, _, ⟨_, hold⟩, _⟩ := h
  exact Db.unacknowledged_eq_false.mp hold

/-- A new transition that is not acknowledged yet. -/
theorem orderly_of_append {t : Transition} (hold : ∀ t ∈ o.transitions, t.state = .callerAcknowledged)
    (hrows : w.transitions.rows = o.transitions.rows ++ [t]) (hgeneration : w.generation = some t.generation)
    (hstate : t.state ≠ .callerAcknowledged) : Orderly ⟨w, index⟩ := by
  have hmem : t ∈ w.transitions := by
    rw [Table.mem_def, hrows]
    exact List.mem_append_right _ (List.mem_singleton.mpr rfl)
  have hold : ∀ t' ∈ w.transitions, t' ≠ t → t'.state = .callerAcknowledged := by
    intro t' ht' hne
    rw [Table.mem_def, hrows] at ht'
    rcases List.mem_append.mp ht' with ht' | ht'
    · exact hold t' ht'
    · exact absurd (List.mem_singleton.mp ht') hne
  obtain ⟨p, hp, hpt⟩ := Option.map_eq_some_iff.mp hgeneration
  constructor
  · intro t' ht' hstate'
    have heq : t' = t := by
      by_contra hne
      exact hstate' (hold t' ht' hne)
    subst heq
    refine ⟨t', p, Table.find?_eq_some.mpr ⟨hmem, rfl⟩, hp, hpt.symm, List.all_eq_true.mpr fun u hu => ?_⟩
    by_cases hut : u = t'
    · simp [hut]
    · simp [hold u hu hut]
  · intro h
    exact absurd (Db.unacknowledged_eq_false.mp h t hmem) hstate

theorem Created.orderly {call : CreateCall} {generation : Int} {raw : Bytes} {st : TransitionState}
    (h : Created c call generation raw st o w) (hold : ∀ t ∈ o.transitions, t.state = .callerAcknowledged)
    (hst : st ≠ .callerAcknowledged) : Orderly ⟨w, index⟩ := by
  obtain ⟨p, -, -, hp⟩ := h.projection
  exact orderly_of_append hold h.transitions (by rw [Db.generation, hp]; rfl) hst

theorem mem_updateState {p : Transition → Bool} {st : TransitionState} {t : Transition} :
    t ∈ (o.updateState p st).1.transitions ↔
      ∃ r ∈ o.transitions, t = if p r then { r with state := st } else r := by
  unfold Db.updateState
  rw [Table.mem_update]

theorem find?_updateState (p : Transition → Bool) (st : TransitionState) (id : String) :
    (o.updateState p st).1.transitions.find? id =
      (o.transitions.find? id).map fun r => if p r then { r with state := st } else r := by
  unfold Db.updateState
  rw [Table.find?_update]

/-- The transition stays the newest one when its own state moves. -/
theorem Newest.updateState {id : String} (h : Newest o id) {p : Transition → Bool}
    (hp : ∀ t, p t = true → t.correlationId = id) (st : TransitionState) :
    Newest (o.updateState p st).1 id := by
  obtain ⟨t, q, ht, hq, hgeneration, hothers⟩ := h
  refine ⟨if p t then { t with state := st } else t, q, ?_, hq, ?_, List.all_eq_true.mpr ?_⟩
  · rw [find?_updateState, ht, Option.map_some]
  · split <;> exact hgeneration
  · intro u hu
    obtain ⟨r, hr, rfl⟩ := mem_updateState.mp hu
    have hold := List.all_eq_true.mp hothers r hr
    split
    · rename_i hpr
      simp [hp r hpr]
    · exact hold

theorem OwnMove.orderly {id : String} (h : OwnMove c id v x) (hv : Orderly v.stores) : Orderly x := by
  cases h with
  | published hstate => exact ⟨hv.newest, fun _ => projected_of_state hstate⟩
  | @settled p st _ _ hnewest hmirrored hp hw =>
    obtain ⟨rfl, -⟩ := Prod.mk.inj hw
    constructor
    · intro t ht hstate
      obtain ⟨r, hr, rfl⟩ := mem_updateState.mp ht
      have hid : r.correlationId = id := by
        by_cases hpr : p r = true
        · exact hp r hpr
        · rw [if_neg hpr] at hstate
          exact hnewest.only hr hstate
      have hkey : (if p r then { r with state := st } else r).correlationId = id := by
        split <;> exact hid
      rw [hkey]
      exact hnewest.updateState hp st
    · intro _
      obtain ⟨generation, routes, hstate⟩ := hmirrored
      obtain ⟨q, hq, hindex⟩ := projected_of_state hstate
      exact ⟨q, hq, hindex⟩

theorem CreateMove.orderly {call : CreateCall} {y : Stores} (h : CreateMove c .overlay call y v x) :
    Orderly x := by
  cases h with
  | commit hready _ hw => exact hw.orderly hready.settled nofun
  | publish hready _ hv => exact hv.orderly hready.settled nofun
  | verify hready _ _ _ hw => exact hw.orderly hready.settled nofun
  | settle hready _ _ _ _ hw => exact hw.orderly hready.settled nofun

theorem Task.Move.orderly {a : Task} (h : a.Move v x) (hv : Orderly v.stores) : Orderly x := by
  cases a with
  | prepare c call identity =>
    cases h with
    | created hmove => exact hmove.orderly
    | own hmove => exact hmove.orderly hv
  | reset c call identity =>
    cases h with
    | staged _ hsource _ _ _ _ hrows =>
      obtain ⟨-, -, -, -, -, -, -, -, -, htransitions, hgeneration⟩ := hrows.rows
      exact orderly_of_append (resetSource_settled hsource) htransitions hgeneration nofun
    | own hmove => exact hmove.orderly hv
  | switch c call identity target =>
    cases h with
    | staged hfits hsource hagrees _ hrows =>
      obtain ⟨-, -, -, -, -, -, -, -, -, -, -, -, htransitions, hgeneration⟩ :=
        hrows.rows (SwitchSource.ne_of_agrees hfits hagrees)
      exact orderly_of_append (Db.unacknowledged_eq_false.mp hsource.acknowledged) htransitions hgeneration
        nofun
    | own hmove => exact hmove.orderly hv
  | read c identity => exact h.elim

/-! ## Who can move on -/

/-- A call moves the stores only if it is the one whose transition is not acknowledged. -/
theorem Task.Move.owns {a : Task} (h : a.Move v x) {t : Transition} (ht : t ∈ v.stores.db.transitions)
    (hstate : t.state ≠ .callerAcknowledged) : a.id? = some t.correlationId := by
  have hown : ∀ {e id}, OwnMove e id v x → t.correlationId = id := by
    intro e id hmove
    cases hmove with
    | published _ hnewest => exact hnewest.only ht hstate
    | settled hnewest => exact hnewest.only ht hstate
  have hcreated : ∀ {e : Coordinator} {call : CreateCall} {o : Db} {generation raw st},
      (∀ t ∈ o.transitions, t.state = .callerAcknowledged) →
      Created e call generation raw st o v.stores.db → t.correlationId = call.descriptor.correlationId := by
    intro e call o generation raw st hold hw
    rw [Table.mem_def, hw.transitions] at ht
    rcases List.mem_append.mp ht with ht | ht
    · exact absurd (hold t ht) hstate
    · rw [List.mem_singleton.mp ht]
      rfl
  have hall : (∀ t ∈ v.stores.db.transitions, t.state = .callerAcknowledged) → False := fun h =>
    hstate (h t ht)
  cases a with
  | prepare c call identity =>
    cases h with
    | own hmove => exact congrArg some (hown hmove).symm
    | created hmove =>
      cases hmove with
      | commit hready ho => exact (hall (ho ▸ hready.settled)).elim
      | publish hready _ hw => exact congrArg some (hcreated hready.settled hw).symm
      | verify hready _ hw => exact congrArg some (hcreated hready.settled hw).symm
      | settle hready _ hw => exact congrArg some (hcreated hready.settled hw).symm
  | reset c call identity =>
    cases h with
    | own hmove => exact congrArg some (hown hmove).symm
    | staged _ hsource => exact (hall (resetSource_settled hsource)).elim
  | switch c call identity target =>
    cases h with
    | own hmove => exact congrArg some (hown hmove).symm
    | staged _ hsource => exact (hall (Db.unacknowledged_eq_false.mp hsource.acknowledged)).elim
  | read c identity => exact h.elim

end

/-! ## Runs -/

/-- **In every run**, at most one transition is not acknowledged, it is the newest one, and
without one the index file holds the projection of the tables. -/
theorem orderly_reached {s : Shared} (loc : Nat → Process) (h : Orderly s.stores)
    (turns : List (Turn Fault Task)) :
    Orderly (overlays.run (Sessions.start s loc) turns).shared.stores := by
  refine together.run_keeps (I := fun c => Orderly c.shared.stores) (together_good s loc [] turns) h ?_
  rintro c t _ rest hgood - rfl hc
  cases tended hgood with
  | quiet hsame => exact hsame ▸ hc
  | moved _ hv hmove => exact hmove.orderly (hv.stores ▸ hc)

/-- No call runs that has made the transition. -/
def Deserted (id : String) (c : Sessions) : Prop :=
  ∀ p a k, (c.host p).running = some (a, k) → a.id? ≠ some id

theorem Deserted.turn {id : String} {c : Sessions} (h : Deserted id c) {t : Turn Fault Task}
    (ht : ∀ p a, t = .start p a → a.id? ≠ some id) : Deserted id (overlays.turn c t) := by
  intro p a k hrun
  rcases overlays.running_turn hrun with ⟨k', hrun⟩ | rfl
  · exact h p a k' hrun
  · exact ht p a rfl

/-- One turn leaves the stores alone while a transition is deserted. -/
theorem Deserted.stores {c : Sessions} {t : Turn Fault Task} {rest : List (Turn Fault Task)}
    {x : Transition} (h : Deserted x.correlationId c) (hgood : together.Good c (t :: rest))
    (hx : x ∈ c.shared.stores.db.transitions) (hstate : x.state ≠ .callerAcknowledged) :
    (overlays.turn c t).shared.stores = c.shared.stores := by
  cases tended hgood with
  | quiet hsame => exact hsame
  | moved hrun hv hmove =>
    obtain ⟨k, hrun⟩ := hrun
    exact absurd (hmove.owns (hv.stores ▸ hx) hstate) (h _ _ k hrun)

theorem Deserted.run {c : Sessions} {turns : List (Turn Fault Task)} {x : Transition}
    (h : Deserted x.correlationId c) (hgood : together.Good c turns)
    (hx : x ∈ c.shared.stores.db.transitions) (hstate : x.state ≠ .callerAcknowledged)
    (hstarts : ∀ a ∈ starts turns, a.id? ≠ some x.correlationId) :
    (overlays.run c turns).shared.stores = c.shared.stores := by
  induction turns generalizing c with
  | nil => rfl
  | cons t turns ih =>
    have hsame := h.stores hgood hx hstate
    rw [System.run_cons, ih (h.turn ?_) (together.good_turn hgood).1 (hsame ▸ hx)
      (fun a ha => hstarts a (mem_starts_cons ha)), hsame]
    rintro p a rfl
    exact hstarts a List.mem_cons_self

/-- **A blocked store.**  When a transition is not acknowledged and no call that has made it
runs or is started again, nothing changes the stores any more, and no read that starts from
then on returns an entry. -/
theorem unsettled_blocks {s : Shared} {loc : Nat → Process} {past turns : List (Turn Fault Task)}
    {x : Transition}
    (hx : x ∈ (overlays.run (Sessions.start s loc) past).shared.stores.db.transitions)
    (hstate : x.state ≠ .callerAcknowledged)
    (hdeserted : Deserted x.correlationId (overlays.run (Sessions.start s loc) past))
    (hstarts : ∀ a ∈ starts turns, a.id? ≠ some x.correlationId) :
    (overlays.run (Sessions.start s loc) (past ++ turns)).shared.stores =
      (overlays.run (Sessions.start s loc) past).shared.stores ∧
    ∀ p c identity r, ((overlays.run (Sessions.start s loc) past).host p).running = none →
      ((overlays.run (Sessions.start s loc) (past ++ turns)).host p).running =
        some (.read c identity, .done r) → ∀ answer, r ≠ .ok answer := by
  have hsame : ∀ us, (∀ a ∈ starts us, a.id? ≠ some x.correlationId) →
      (overlays.run (Sessions.start s loc) (past ++ us)).shared.stores =
        (overlays.run (Sessions.start s loc) past).shared.stores := by
    intro us hus
    rw [System.run_append]
    exact hdeserted.run (together_good s loc past us) hx hstate hus
  refine ⟨hsame turns hstarts, ?_⟩
  rintro p c identity _ hidle hdone answer rfl
  obtain ⟨entry, before, during, after, -, hsplit, hbusy, hselected⟩ := selected_of_read hdone
  obtain ⟨mid, rfl, rfl⟩ := hbusy.later hidle hsplit
  rw [List.append_assoc, hsame] at hselected
  · obtain ⟨_, _, hselection⟩ := selection_eq_ok.mp hselected
    exact hstate (hselection.acknowledged x hx)
  · intro a ha
    refine hstarts a ?_
    have hturns : mid ++ Turn.start p (Task.read c identity) :: (during ++ after) =
        (mid ++ .start p (.read c identity) :: during) ++ after := by simp
    rw [hturns, starts_append]
    exact List.mem_append_left _ ha

namespace Sample

theorem provisioned_orderly : Orderly provisioned.stores :=
  ⟨fun _ ht => absurd ht List.not_mem_nil, fun _ => ⟨_, rfl, rfl⟩⟩

theorem crowd_orderly :
    Orderly (overlays.run (Sessions.start provisioned processes) crowd).shared.stores :=
  orderly_reached processes provisioned_orderly crowd

/-- The transition of a create whose process has crashed before its acknowledgement. -/
def leftBehind : Transition :=
  { creation.call.descriptor.transitionRow 1 createdBytes with state := .publishedPendingCaller }

/-- The stores that the crash leaves. -/
def pending : Shared where
  stores := { created.stores with db := { created.stores.db with transitions := one leftBehind } }

/-- Other processes prepare the session of another slot, and read. -/
def visitors : List (Turn Fault Task) :=
  [.start 2 (.prepare second.coordinator second.call second.identity), .act 2 .none, .start 1 reader,
    .act 1 .none, .act 2 .none]

/-- They change nothing, and read nothing. -/
theorem pending_blocked :
    (overlays.run (Sessions.start pending processes) ([] ++ visitors)).shared.stores = pending.stores ∧
    ∀ p c identity r, ((overlays.run (Sessions.start pending processes) []).host p).running = none →
      ((overlays.run (Sessions.start pending processes) ([] ++ visitors)).host p).running =
        some (.read c identity, .done r) → ∀ answer, r ≠ .ok answer :=
  unsettled_blocks (x := leftBehind) (List.mem_singleton.mpr rfl) nofun nofun (by decide)

end Sample

end ProjectMaya
