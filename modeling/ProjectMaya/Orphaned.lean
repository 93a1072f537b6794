import ProjectMaya.LinesShown
import ProjectMaya.Provenance
import ProjectMaya.Unsettled

/-! # Sessions that nobody can read any more

A reset or a switched session is read with a confirmation that only lives in the memory of
one process.  When no process remembers it, as after a restart of all of them, no call can
bring it back: a reset to a session that exists never returns, nor does a switch of a slot
that has been switched.  The slot keeps its session for ever, and no read of the slot returns
(`orphaned`). -/

namespace ProjectMaya

open Logic

/-! ## Calls that do not return -/

/-- A contract whose steps keep what `V` says of the stores. -/
def keeping (V : Stores → Prop) : Contract Shared Process :=
  movesBy (OthersKeep V) (fun v x => V v.stores → V x) fun _ _ => True

section

variable {V : Stores → Prop} {c : Coordinator} {identity : RequestIdentity} {s : Shared} {l : Process}

theorem lawful_keeping : Lawful (keeping V) := lawful_of_others fun _ _ _ h => h.1

theorem outside_keeping : Outside (keeping V) fun s _ => V s.stores := ⟨fun _ _ _ hr h => hr.2 h, fun _ _ _ h => h⟩

theorem guar_keeping {s s' : Shared} {l l' : Process} (hg : (keeping V).guar s l s' l')
    (h : V s.stores) : V s'.stores := by
  cases hg with
  | quiet hq => exact hq.stores ▸ h
  | moved _ _ hv hmove => exact hmove (hv.stores ▸ h)
  | recalled _ hs => exact hs ▸ h

theorem remember_keeping (s : Shared) (l : Process) (m : Memory) :
    (keeping V).guar s l s { l with memory := m } :=
  .recalled ⟨rfl, .inl rfl, fun _ => id⟩ rfl rfl trivial

theorem wp_ends {C : Contract Shared Process} {α : Type} {p : Code α} {P P' : α → Shared → Process → Prop}
    {E E' : Shared → Process → Prop} (h : wp C p (Ends P E) s l)
    (hP : ∀ a s l, P a s l → P' a s l) (hE : ∀ s l, E s l → E' s l) : wp C p (Ends P' E') s l := by
  refine wp_mono h ?_
  intro r s l h
  cases r with
  | ok a => exact hP a s l h
  | error e => exact hE s l h

/-- What is known of the stores is known after code that returns. -/
theorem wp_keeping {α : Type} {p : Code α} {P : α → Shared → Process → Prop} {E : Shared → Process → Prop}
    (h : wp (keeping V) p (Ends P E) s l) (hV : V s.stores) :
    wp (keeping V) p (Ends (fun a s l => P a s l ∧ V s.stores) fun _ _ => True) s l := by
  refine wp_mono (wp_and_guar (C := keeping V) (J := fun s _ => V s.stores) (fun _ _ _ hr h => hr.2 h)
    (fun _ _ _ _ => guar_keeping) h hV) ?_
  rintro r s l ⟨h, hV⟩
  cases r with
  | ok a => exact ⟨h, hV⟩
  | error e => trivial

/-- While `V` holds of the stores, the code does not return. -/
def Fails {α : Type} (V : Stores → Prop) (p : Code α) (s : Shared) (l : Process) : Prop :=
  wp (keeping V) p (Ends (fun _ _ _ => False) fun _ _ => True) s l

theorem fails_exclusive {α : Type} {body : Code α} (h : V s.stores)
    (hbody : ∀ v s l, V v.stores → At v s l →
      wp (keeping V) body (Ends (fun _ _ _ => False) (Holding fun _ => True)) s l) :
    Fails V (exclusive body) s l := by
  refine wp_exclusive (R := fun s _ => V s.stores) (G := fun v => V v.stores) (F := fun _ => True)
    (K := fun _ _ => False) lawful_keeping outside_keeping h (fun _ _ _ => trivial) (fun _ _ h => h)
    (fun _ _ _ h => h) (fun _ _ => trivial) ?_ (fun _ _ _ _ h _ => h) (fun _ _ _ _ _ _ _ => trivial)
    (fun _ _ _ _ _ _ _ => trivial)
  intro v s l hV hv
  refine wp_mono (hbody v s l hV hv) ?_
  intro r s l h
  cases r with
  | ok a => exact h.elim
  | error e => exact h

theorem covers_any (v : View) : Covers (Holding fun _ => True) v :=
  covers_holding (F := fun _ => True) (fun _ _ _ h => h) trivial

theorem loose_any : Loose (Holding fun _ => True) := loose_holding fun _ _ _ h => h

theorem outside_any {C : Contract Shared Process} : Outside C fun _ _ => True :=
  ⟨fun _ _ _ _ h => h, fun _ _ _ h => h⟩

/-- An action before the code that does not return. -/
theorem fails_bind {α β : Type} {p : Code α} {f : α → Code β} {P : α → Shared → Process → Prop}
    (hp : wp (keeping V) p (Ends P fun _ _ => True) s l) (hf : ∀ a s l, P a s l → Fails V (f a) s l) :
    Fails V (p >>= f) s l := wp_bind hp hf fun _ _ _ h => h

theorem fails_ask {β : Type} {f : Unit → Code β} (h : V s.stores)
    (hf : ∀ s l, V s.stores → Fails V (f ()) s l) : Fails V (ask >>= f) s l :=
  fails_bind (wp_ends (wp_askOutside lawful_keeping outside_keeping h) (fun _ _ _ h => h)
    fun _ _ _ => trivial) fun _ s l h => hf s l h

theorem fails_remember {β : Type} {g : Memory → Memory} {f : Unit → Code β} (h : V s.stores)
    (hf : ∀ s l, V s.stores → Fails V (f ()) s l) :
    Fails V (.perform (Act.remember g) >>= f) s l :=
  fails_bind (wp_remember outside_keeping h (fun s l _ => remember_keeping s l _) fun _ _ h => h)
    fun _ s l h => hf s l h

/-- Handlers and `finally` clauses that assign to the fields of the preparations. -/
theorem fails_guarded {α : Type} {p : Code α} {f g : Memory → Memory} (h : Fails V p s l) :
    Fails V (Prog.ensuring (Prog.onError p (.perform (Act.remember f))) (.perform (Act.remember g))) s l := by
  have hremember : ∀ (k : Memory → Memory) s l, wp (keeping V) (.perform (Act.remember k) : Code Unit)
      (fun r _ _ => match r with
        | .ok _ => True
        | .error _ => False) s l := by
    intro k s l
    refine wp_mono (wp_remember (P := fun _ _ => True) (E := fun _ _ => False) outside_any trivial
      (fun s l _ => remember_keeping s l _) fun _ _ h => h) ?_
    intro r s l h
    cases r with
    | ok a => trivial
    | error e => exact h.elim
  refine wp_ensuring (P := Ends (fun _ _ _ => False) fun _ _ => True) (wp_onError h (fun _ _ _ h => h) ?_) ?_
  · intro e s l _
    refine wp_mono (hremember f s l) ?_
    intro r s l _
    cases r <;> trivial
  · intro r s l h
    cases r with
    | ok a => exact h.elim
    | error e =>
      refine wp_mono (hremember g s l) ?_
      intro r s l _
      cases r <;> trivial

/-- `reset` to a session that exists. -/
theorem fails_reset {call : ResetCall} {d : ResetDescriptor}
    (hV : ∀ x, V x → x.db.hasSession d.targetSession = true) (h : V s.stores) :
    Fails V (c.reset call d) s l := by
  have hC : Lawful (keeping V) := lawful_keeping
  have hR : Outside (keeping V) fun s _ => V s.stores := outside_keeping
  refine fails_ask h fun s l h => ?_
  refine fails_bind (P := fun _ s _ => V s.stores)
    (wp_assignOutside hC hR h (fun _ => ⟨rfl, rfl, rfl⟩) fun _ _ h => h) ?_
  intro _ s l h
  refine wp_mapError (P := Ends (fun _ _ _ => False) fun _ _ => True) ?_ (fun _ _ _ h => h) ?_
  · refine fails_exclusive h fun v s l hv hat => ?_
    refine wp_seq (wp_authorizeReset hC hat (covers_any v)) ?_
    rintro _ s l ⟨hat, -⟩
    refine wp_seq (wp_source hC hat (covers_any v)) ?_
    rintro first s l ⟨hat, -⟩
    refine wp_transaction hC hat (covers_any v) loose_any fun s l hat => ?_
    have hE : Covers (Holding fun _ => True) (v.within v.stores.db) := covers_any _
    refine wp_seq (wp_inspect hC hat hE _) ?_
    rintro now s l ⟨hat, -⟩
    refine wp_seq (wp_select hC hat hE _) ?_
    rintro known s l ⟨hat, hknown⟩
    have hyes : known = true := by
      rw [hknown]
      show (v.stores.db.hasSession d.targetSession || _) = true
      rw [hV _ hv, Bool.true_or]
    refine wp_seq (wp_refuseIf hat hE) ?_
    rintro _ s l ⟨-, hnot⟩
    simp only [not_or] at hnot
    exact absurd hyes hnot.2.2.2.2.2.2
  · intro e s l _
    refine wp_bind (wp_peekOutside hC (outside_any (C := keeping V)) trivial _) ?_ fun _ _ _ h => h.elim
    intro attempted s l _
    cases e <;> exact wp_pure trivial

/-- A preparation of a reset to a session that exists. -/
theorem fails_prepareReset {call : ResetCall}
    (hV : ∀ x, V x → x.db.hasSession call.targetSession = true) (h : V s.stores) :
    Fails V (c.prepareReset call identity) s l := by
  have hrun : ∀ s l, V s.stores → Fails V (c.runReset call identity) s l := by
    intro s l h
    refine fails_remember h fun s l h => ?_
    refine fails_bind (wp_keeping (wp_authenticatedReset (K := fun _ => True) lawful_keeping trivial) h) ?_
    rintro d s l ⟨⟨-, -, htarget⟩, h⟩
    refine fails_bind (P := fun _ _ _ => False) (wp_renamed (fails_reset (htarget ▸ hV) h)) ?_
    exact fun _ _ _ h => h.elim
  refine fails_ask h fun s l h => fails_ask h fun s l h => ?_
  exact fails_bind (fails_guarded (hrun s l h)) fun _ _ _ h => h.elim

/-- `source` outside of a transaction, with what it has read. -/
theorem wp_switchFrom {C : Contract Shared Process} {v : View} {E : Shared → Process → Prop}
    (hC : Lawful C) (hat : At v s l) (hE : Covers E v) :
    wp C (c.switchSource c.state) (Ends (fun now s l => At v s l ∧
      SwitchFrom c v.stores.db v.stores.index v.memory now) E) s l := by
  cases htx : v.tx with
  | none =>
    refine wp_switchSource (o := v.stores.db) hC hat hE (by rw [htx]; rfl) fun s l hat => ?_
    exact wp_ends (wp_state hC hat hE c) (fun _ _ _ h => ⟨h.1, h.2.2⟩) fun _ _ h => h
  | some w =>
    refine wp_seq (wp_ask hC hat hE) ?_
    intro _ s l hat
    refine wp_seq (wp_state hC hat hE c) ?_
    rintro ⟨generation, routes, raw⟩ s l ⟨-, hnone, -⟩
    cases htx.symm.trans hnone

/-- A preparation of a switch to a session to which no slot can be switched. -/
theorem fails_prepareSwitch {call : SwitchCall} {target : String}
    (hV : ∀ (x : Stores) m now, V x → SwitchFrom c x.db x.index m now → now.target ≠ target)
    (h : V s.stores) : Fails V (c.prepareSwitch call identity target) s l := by
  have hC : Lawful (keeping V) := lawful_keeping
  have hlook : ∀ s l, V s.stores → Fails V (c.authenticatedSwitch call identity target) s l := by
    intro s l h
    refine wp_renamed (fails_ask h fun s l h => ?_)
    refine fails_bind (wp_ends (wp_refuseIfOutside (R := fun s _ => V s.stores) h)
      (fun _ _ _ h => h.1) fun _ _ _ => trivial) ?_
    intro _ s l h
    refine fails_exclusive h fun v s l hv hat => ?_
    refine wp_seq (wp_ask hC hat (covers_any v)) ?_
    intro _ s l hat
    refine wp_seq (wp_permit hC hat (covers_any v)) ?_
    intro _ s l hat
    refine wp_seq (wp_switchFrom hC hat (covers_any v)) ?_
    rintro now s l ⟨hat, hfrom⟩
    refine wp_seq (wp_refuseIf hat (covers_any v)) ?_
    rintro _ s l ⟨-, htarget⟩
    exact absurd (not_not.mp htarget).symm (hV _ _ _ hv hfrom)
  have hrun : ∀ s l, V s.stores → Fails V (c.runSwitch call identity target) s l := by
    intro s l h
    refine fails_remember h fun s l h => ?_
    exact fails_bind (hlook s l h) fun _ _ _ h => h.elim
  refine fails_ask h fun s l h => fails_ask h fun s l h => ?_
  exact fails_bind (fails_guarded (hrun s l h)) fun _ _ _ h => h.elim

end

/-! ## What a line needs to be read -/

/-- The confirmation with which the current session of the line is read. -/
def Line.Known (k : Line) (m : Memory) : Prop :=
  match k with
  | .created _ => True
  | .reset _ child => ∃ x, m.resetConfirmed = some x ∧ x.target = child
  | .switched root _ => ∃ x, m.switchConfirmed = some x ∧ x.target = root

section

variable {c : Coordinator} {x : Stores} {m : Memory} {L : Ledger} {k : Line}

theorem version_of_reset {b : Binding} {target parent : String} {expected : TransitionState} {db : Db}
    (h : validateResetLineage b target expected db = .ok parent) :
    ∃ r, db.routes.find? b.routeSlot = some r ∧ r.routeVersion = 2 := by
  unfold validateResetLineage at h
  simp only [bind_eq_ok, ensure_eq_ok, fetch_eq_ok, pure_eq_ok] at h
  obtain ⟨_, _, _, _, _, _, _, _, _, _, _, _, r, hr, _, ⟨_, _, hversion, _⟩, _⟩ := h
  exact ⟨r, hr, hversion⟩

theorem version_of_switch {b : Binding} {target : String} {expected : TransitionState} {db : Db}
    {found : String × (Transition × Transition) × Transition}
    (h : validateSwitchLineage b target expected db = .ok found) :
    ∃ r, db.routes.find? b.routeSlot = some r ∧ r.routeVersion = 3 := by
  unfold validateSwitchLineage at h
  simp only [bind_eq_ok, ensure_eq_ok, fetch_eq_ok, pure_eq_ok] at h
  obtain ⟨r, hr, _, ⟨_, hversion, _⟩, _⟩ := h
  exact ⟨r, hr, hversion⟩

/-- The version of a line with which a transition of the operation ends. -/
def Operation.version? : Operation → Option Int
  | .create => some 1
  | .reset => some 2
  | .switch => some 3
  | .other _ => none

theorem selection_version {entry : SessionEntry} {operation : Operation} (h : Shows x.db L)
    (hline : L.line c.binding.routeSlot = some k) (hselected : selection c x m = .ok entry)
    (hoperation : x.db.selectedOperation c.binding.routeSlot = some operation) :
    operation.version? = some k.version := by
  obtain ⟨route, row, hselection⟩ := selection_eq_ok.mp hselected
  have hhead : ∀ {r}, x.db.routes.find? c.binding.routeSlot = some r → r.routeVersion = k.version := by
    intro r hr
    obtain ⟨k', hk', hhead⟩ := h.line hr
    cases hline.symm.trans hk'
    exact (congrArg Prod.snd hhead).symm
  rw [Db.selectedOperation, hselection.selected, Option.map_some, Option.some.injEq] at hoperation
  have hlineage := hselection.lineage
  unfold selectedLineage at hlineage
  rw [hoperation] at hlineage
  cases operation with
  | create =>
    obtain ⟨-, -, hone⟩ := ensure_eq_ok.mp hlineage
    have hrouted := hselection.routed
    rw [get?_routes] at hrouted
    obtain ⟨r, hr, rfl⟩ := Option.map_eq_some_iff.mp hrouted
    exact congrArg some (hone.symm.trans (hhead hr))
  | reset =>
    obtain ⟨_, hvalid, -⟩ := bind_eq_ok.mp hlineage
    obtain ⟨r, hr, hversion⟩ := version_of_reset hvalid
    exact congrArg some (hversion.symm.trans (hhead hr))
  | switch =>
    obtain ⟨_, hvalid, -⟩ := bind_eq_ok.mp hlineage
    obtain ⟨r, hr, hversion⟩ := version_of_switch hvalid
    exact congrArg some (hversion.symm.trans (hhead hr))
  | other text => cases (ensure_eq_ok.mp hlineage).1

theorem selection_known {entry : SessionEntry} (h : Shows x.db L)
    (hline : L.line c.binding.routeSlot = some k) (hselected : selection c x m = .ok entry) : k.Known m := by
  obtain ⟨operation, hoperation, hconfirms⟩ := selection_confirms hselected
  obtain ⟨k', hk', hcurrent⟩ := selection_line h hselected
  cases hline.symm.trans hk'
  have hversion := selection_version h hline hselected hoperation
  cases k with
  | created root => trivial
  | reset root child =>
    cases hconfirms with
    | create => cases hversion
    | reset hx htarget => exact ⟨_, hx, htarget.trans hcurrent⟩
    | switch => cases hversion
  | switched root child =>
    cases hconfirms with
    | create => cases hversion
    | reset => cases hversion
    | switch hx htarget => exact ⟨_, hx, htarget.trans hcurrent⟩

end

/-! ## What the calls can do to the line -/

section

variable {s : Shared} {loc : Nat → Process} {L : Ledger} {slot : String} {k : Line} {x : Stores} {v : View}
  {turns before during : List (Turn Fault Task)} {p : Nat}

/-- The slot has the line, or what has become of it. -/
def Lasts (slot : String) (k : Line) (x : Stores) : Prop :=
  ∃ L k', Shows x.db L ∧ L.line slot = some k' ∧ k.Extends k'

theorem lasts (h : Shows s.stores.db L) (hline : L.line slot = some k) (turns : List (Turn Fault Task)) :
    Lasts slot k (overlays.run (Sessions.start s loc) turns).shared.stores := by
  have hshows : Shows (overlays.run (Sessions.start s loc) []).shared.stores.db L := h
  obtain ⟨L', hL', hgrown⟩ := lines_grow hshows turns
  obtain ⟨k', hk', hless⟩ := hgrown slot k hline
  exact ⟨L', k', hL', hk', hless⟩

/-- Every session of a line stays in the tables. -/
theorem Lasts.hasSession {root child : String} (h : Lasts slot (.reset root child) x) :
    x.db.hasSession child = true := by
  obtain ⟨L, k, hshows, hline, hless⟩ := h
  obtain ⟨y, hy, hid⟩ : ∃ y ∈ k.standings, y.id = child := by
    cases hless <;> simp [Line.standings]
  obtain ⟨r, hr, -⟩ := Option.map_eq_some_iff.mp (hshows.found hline hy)
  obtain ⟨hmem, hkey⟩ := Table.find?_eq_some.mp hr
  exact List.any_eq_true.mpr ⟨r, hmem, by simp [hkey, hid]⟩

/-- No slot can be switched to the session to which one has been switched. -/
theorem Lasts.not_switched {root child : String} {c : Coordinator} {m : Memory} {now : SwitchSource}
    (h : Lasts slot (.switched root child) x) (hfrom : SwitchFrom c x.db x.index m now) : now.target ≠ root := by
  rintro rfl
  obtain ⟨L, k, hshows, hline, hless⟩ := h
  obtain ⟨hother, -⟩ := switchSource_line hshows hfrom
  cases hless with
  | refl =>
    have hslot := L.apart _ _ _ _ { id := now.target, ended := true, reason := some "session_reset" }
      { id := now.target } hother hline (by simp [Line.standings]) (by simp [Line.standings]) rfl
    subst hslot
    cases hother.symm.trans hline

/-- A call that fails as long as the line lasts does not return. -/
theorem Lasts.fails {a : Task} {r : Except Raised Answer} (h : Shows s.stores.db L)
    (hline : L.line slot = some k) (hfails : ∀ s l, Lasts slot k s.stores → Fails (Lasts slot k) a.code s l)
    (hended : overlays.Ended (Sessions.start s loc) turns p a r) (answer : Answer) : r ≠ .ok answer := by
  rintro rfl
  obtain ⟨past, f, after, rfl, hdone, -⟩ := hended
  obtain ⟨before, during, rfl, hbusy⟩ := System.began rfl hdone
  have hmeets := hbusy.meets (D := keeping (Lasts slot k))
    (Q := Ends (fun _ _ _ => False) fun _ _ => True) OthersKeep.refl (fun _ _ _ _ => OthersKeep.trans)
    (fun r _ _ _ h _ => by cases r <;> exact h) (hfails _ _ (lasts h hline before))
    fun pre t post _ hne => ⟨others_run s loc _ hne, fun _ => by
      rw [← System.run_snoc]
      exact lasts h hline _⟩
  exact (hmeets.ends hdone).2

/-- **Nobody learns** the confirmation that the line needs. -/
theorem never_known (h : Shows s.stores.db L) (hline : L.line slot = some k)
    (hnone : ∀ p, ¬ k.Known (loc p).memory)
    (hidle : ((overlays.run (Sessions.start s loc) turns).host p).running = none) :
    ¬ k.Known ((overlays.run (Sessions.start s loc) turns).host p).loc.memory := by
  intro hknown
  have hearned := earned s loc p turns hidle
  cases k with
  | created root => exact hnone p trivial
  | reset root child =>
    obtain ⟨x, hx, rfl⟩ := hknown
    rcases hearned.reset x hx with hx | ⟨c, call, identity, receipt, hended, htarget, -⟩
    · exact hnone p ⟨x, hx, rfl⟩
    · refine Lasts.fails h hline (fun s l hlasts => ?_) hended _ rfl
      exact fails_bind (fails_prepareReset (fun _ hx => htarget ▸ hx.hasSession) hlasts) fun _ _ _ h => h.elim
  | switched root child =>
    obtain ⟨x, hx, rfl⟩ := hknown
    rcases hearned.switch x hx with hx | ⟨c, call, identity, receipt, hended, -⟩
    · exact hnone p ⟨x, hx, rfl⟩
    · refine Lasts.fails h hline (fun s l hlasts => ?_) hended _ rfl
      exact fails_bind (fails_prepareSwitch (fun _ _ _ hx => hx.not_switched) hlasts) fun _ _ _ h => h.elim

/-- A move changes a line that has been reset only if it is a switch of its slot, by a process
that remembers the reset. -/
theorem Task.Move.stays {a : Task} (h : a.Move v x) (hv : Shows v.stores.db L) (hline : L.line slot = some k)
    (hversion : k.version ≠ 1) : (∃ L', Shows x.db L' ∧ L'.line slot = some k) ∨
      ∃ c call identity target root child y, a = .switch c call identity target ∧ k = .reset root child ∧
        v.memory.resetConfirmed = some y ∧ y.target = child := by
  rcases h.shows hv with hsame | ⟨e, L', hgrows, hx, hdoes⟩
  · exact .inl ⟨L, hsame, hline⟩
  by_cases hswitch : e.operation = .switch ∧ e.slot = slot
  · cases a with
    | prepare c call identity =>
      subst hdoes
      cases hswitch.1
    | reset c call identity =>
      subst hdoes
      cases hswitch.1
    | switch c call identity target =>
      have hslot : e.slot = c.binding.routeSlot := congrArg Growth.slot hdoes
      cases h with
      | own hmove => exact .inl ⟨L, hmove.shows hv, hline⟩
      | @staged d now _ _ _ hsource =>
        obtain ⟨hreset, -⟩ := switchSource_line hv hsource
        rw [← hslot, hswitch.2, hline, Option.some.injEq] at hreset
        have hconfirmed := hsource.confirmed
        simp only [resetConfirmed, bind_eq_ok, ensure_eq_ok, fetch_eq_ok] at hconfirmed
        obtain ⟨_, _, y, hy, found, hfound, rfl⟩ := hconfirmed
        exact .inr ⟨c, call, identity, target, _, _, y, rfl, hreset, hy, resetConfirmation_target hfound⟩
    | read c identity => exact hdoes.elim
  · exact .inl ⟨L', hx, hgrows.line_eq hline hversion fun hop hslot => hswitch ⟨hop, hslot⟩⟩

/-- **The line stays.** -/
theorem line_stays (h : Shows s.stores.db L) (hline : L.line slot = some k) (hversion : k.version ≠ 1)
    (hnone : ∀ p, ¬ k.Known (loc p).memory) (turns : List (Turn Fault Task)) :
    ∃ L', Shows (overlays.run (Sessions.start s loc) turns).shared.stores.db L' ∧ L'.line slot = some k := by
  induction turns using List.reverseRecOn with
  | nil => exact ⟨L, h, hline⟩
  | append_singleton turns t ih =>
    obtain ⟨L', hL', hline'⟩ := ih
    rw [System.run_snoc]
    have hgood := together_good s loc turns [t]
    cases tended hgood with
    | quiet hsame => exact ⟨L', hsame ▸ hL', hline'⟩
    | moved hrun hv hmove =>
      obtain ⟨prog, hrun⟩ := hrun
      rcases hmove.stays (hv.stores ▸ hL') hline' hversion with hstays |
        ⟨c, call, identity, target, root, child, y, rfl, rfl, hy, htarget⟩
      · exact hstays
      -- The process has remembered the reset since before the switch started.
      · obtain ⟨before, during, rfl, hbusy⟩ := System.began rfl hrun
        have hsame := hbusy.same (C := together) (f := fun l => l.memory.resetConfirmed)
          (together_good s loc [] _) (fun _ => rfl) fun s l s' l' hg => by
            cases hg with
            | quiet hq => rw [hq.memory]
            | moved _ hm => rw [hm]
            | recalled _ _ _ hrecall =>
              have hrecall : SwitchRecall target l.memory l'.memory := hrecall
              show l'.memory.resetConfirmed = l.memory.resetConfirmed
              generalize l'.memory = m at hrecall ⊢
              cases hrecall <;> rfl
        rw [← hv.memory, hsame] at hy
        exact absurd ⟨y, hy, htarget⟩ (never_known h hline hnone hbusy.idle)

end

/-- **An orphaned session.**  When a slot has been reset or switched and no process remembers
the confirmation, the slot keeps its session for ever, whatever anyone calls, and no read of
the slot returns. -/
theorem orphaned {s : Shared} {loc : Nat → Process} {L : Ledger} {slot : String} {k : Line}
    (h : Shows s.stores.db L) (hline : L.line slot = some k) (hversion : k.version ≠ 1)
    (hnone : ∀ p, ¬ k.Known (loc p).memory) (turns : List (Turn Fault Task)) :
    (∃ L', Shows (overlays.run (Sessions.start s loc) turns).shared.stores.db L' ∧ L'.line slot = some k) ∧
    ∀ p c identity r, ((overlays.run (Sessions.start s loc) turns).host p).running =
      some (.read c identity, .done r) → c.binding.routeSlot = slot → ∀ answer, r ≠ .ok answer := by
  refine ⟨line_stays h hline hversion hnone turns, ?_⟩
  rintro p c identity _ hdone rfl answer rfl
  obtain ⟨entry, before, during, after, -, rfl, hbusy, hselected⟩ := selected_of_read hdone
  obtain ⟨L', hL', hline'⟩ :=
    line_stays h hline hversion hnone (before ++ .start p (.read c identity) :: during)
  exact never_known h hline hnone hbusy.idle (selection_known hL' hline' hselected)

namespace Sample

/-- The reset of the created session. -/
def resetting : ResetDescriptor where
  instanceId := "instance"
  database := "/state.db"
  principal := "owner"
  classification := "confidential"
  bindingVersion := 1
  routeSlot := "main"
  sourceSession := "session"
  targetSession := "child"
  expectedRouteVersion := 1
  requestId := "request"
  correlationId := "reset"

def resetBytes : Bytes := projectionBytes "instance" "/state.db" 2 [("main", ⟨"child", 2⟩)]

/-- A table with two rows. -/
def two {ρ : Type} {key : ρ → String} (r r' : ρ) : Table ρ String key := ((one r).insert r').getD .empty

/-- The stores after the reset is acknowledged. -/
def afterReset : Shared where
  stores :=
    { db :=
        { sessions := two
            { creation.call.descriptor.sessionRow coordinator.binding.owner 7 with
              endedAt := some 8
              endReason := some "session_reset" }
            (resetting.sessionRow 9)
          owners := two { creation.call.descriptor.ownerRow with lifecycleStatus := .ended } resetting.ownerRow
          routes := one
            { creation.call.descriptor.routeRow with
              sessionId := "child"
              routeVersion := 2
              correlationId := "reset" }
          transitions := two
            { creation.call.descriptor.transitionRow 1 createdBytes with state := .callerAcknowledged }
            { resetting.transitionRow 2 resetBytes with state := .callerAcknowledged }
          projection := some
            { schemaVersion := 1
              instanceId := "instance"
              databaseId := "/state.db"
              generation := 2
              projectionHash := ProjectMaya.digest resetBytes
              indexPath := "/sessions.json" } }
      index := resetBytes }

def resetLedger : Ledger := .single "main" (.reset "session" "child") 2
  [⟨"correlation", .create, "session", 1, 1⟩, ⟨"reset", .reset, "child", 2, 2⟩]

theorem afterReset_shown : Shows afterReset.stores.db resetLedger :=
  shows_single (r := { creation.call.descriptor.routeRow with
    sessionId := "child"
    routeVersion := 2
    correlationId := "reset" }) rfl rfl rfl rfl rfl rfl

/-- All processes have been started anew. -/
theorem restarted : (∃ L', Shows (overlays.run (Sessions.start afterReset processes) visitors).shared.stores.db L' ∧
      L'.line "main" = some (.reset "session" "child")) ∧
    ∀ p c identity r, ((overlays.run (Sessions.start afterReset processes) visitors).host p).running =
      some (.read c identity, .done r) → c.binding.routeSlot = "main" → ∀ answer, r ≠ .ok answer :=
  orphaned afterReset_shown rfl (by decide) (fun _ h => by obtain ⟨_, h, _⟩ := h; cases h) visitors

end Sample

end ProjectMaya
