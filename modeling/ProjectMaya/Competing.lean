import ProjectMaya.CreateSpec
import ProjectMaya.Logic.Hosts

/-! # Competing hosts

Any number of host processes, each with its own coordinator, start `create` calls on the
same stores; their actions interleave in any order, each action may fault, and each
process may crash at any time.  `turned` says what one turn can do to the stores, and
`competing_hosts` what follows for every run. -/

namespace ProjectMaya

open Logic

/-- A call of `create` through one coordinator. -/
structure Creation where
  coordinator : Coordinator
  call : CreateCall
  deriving DecidableEq, Repr

abbrev Creations := Config Fault Shared Process Raised Creation Receipt

/-- The system of the released coordinators. -/
def creates : System Fault Shared Process Raised Creation Receipt where
  prog a := a.coordinator.create .base a.call
  enter l := { l with notes := [] }
  die := die

/-- All hosts are idle; host `p` has process id `p`. -/
def Creations.start (s : Shared) (loc : Nat → Process) : Creations :=
  Config.initial s fun p => { loc p with pid := p }

namespace Creation

def Move (a : Creation) (v : View) (x : Stores) : Prop :=
  ∃ o, CreateMove a.coordinator .base a.call o v x

theorem meets (a : Creation) (s : Shared) (l : Process) :
    wp (movesBy Others a.Move Never) (creates.prog a) (fun _ _ _ => True) s l := by
  have htrue : Outside (movesBy Others a.Move Never) fun _ _ => True :=
    ⟨fun _ _ _ _ _ => trivial, fun _ _ _ _ => trivial⟩
  have h : wp (movesBy Others a.Move Never) (a.coordinator.create .base a.call)
      (Ends (fun _ _ _ => True) fun _ _ => True) s l :=
    wp_create (lawful_of_others fun _ _ _ h => h) htrue htrue (fun _ _ _ => trivial) (fun _ _ _ _ _ => trivial)
      (fun _ _ _ _ _ hmove _ => allows_movesBy ⟨_, hmove⟩) (fun _ _ _ _ _ _ _ _ _ => trivial)
      (fun _ _ _ _ _ _ _ _ _ _ _ => trivial) trivial
  exact wp_mono h fun _ _ _ _ => trivial

end Creation

/-- Competing creates tolerate each other. -/
def cooperate : Cooperate creates where
  own p l := l.pid = p
  apart _ _ := True
  contract a := movesBy Others a.Move Never
  post _ _ _ _ := True
  own_enter _ _ h := h
  enter _ a s _ _ := a.meets s _
  rely_refl _ l s := .refl l s
  rely_trans _ _ _ _ _ h h' := h.trans h'
  post_stable _ _ _ _ _ _ _ := trivial
  own_guar _ _ _ _ _ _ h hg := (Keeps.step hg).pid.trans h
  own_die _ _ _ h := h
  rely_guar _ _ _ _ _ _ _ _ _ hne hl hm _ hg :=
    Keeps.others hg (hl ▸ hm ▸ hne)
  rely_die _ _ _ _ _ _ hne hl hm := others_of_die (hl ▸ hm ▸ hne)

theorem good (s : Shared) (loc : Nat → Process) (turns : List (Turn Fault Creation)) :
    cooperate.Good (Creations.start s loc) turns :=
  cooperate.good_initial (fun _ => rfl)
    (List.pairwise_of_forall fun _ _ => ⟨trivial, trivial⟩)

/-! ## One turn -/

/-- What one turn does: nothing to the stores, or one move of the host's running create. -/
inductive Turned (c c' : Creations) (p : Nat) : Prop
  | quiet : c'.shared.stores = c.shared.stores →
      ((c.host p).running.isSome → ∀ n ∈ (c'.host p).loc.notes,
        n ∈ (c.host p).loc.notes ∨ n.effect = false ∨ n.purpose = .release) →
      ((c.host p).running = none → (c'.host p).running.isSome →
        (c'.host p).loc.notes = []) → Turned c c' p
  | moved {a : Creation} {o : Stores} {v : View} :
      (∃ k, (c.host p).running = some (a, k)) → At v c.shared (c.host p).loc →
      CreateMove a.coordinator .base a.call o v c'.shared.stores → Turned c c' p

theorem turned {c : Creations} {t : Turn Fault Creation} {rest : List (Turn Fault Creation)}
    (h : cooperate.Good c (t :: rest)) : Turned c (creates.turn c t) t.host := by
  have heffect := (cooperate.good_turn h).2
  generalize hc' : creates.turn c t = c' at heffect
  cases heffect with
  | started hidle hs hl =>
    refine .quiet (congrArg Shared.stores hs) ?_ fun _ _ => congrArg Process.notes hl
    simp [hidle]
  | refused => exact .quiet rfl (fun _ _ => .inl) fun h h' => by rw [h] at h'; cases h'
  | idle => exact .quiet rfl (fun _ _ => .inl) fun h h' => by rw [h] at h'; cases h'
  | acted hrun hg =>
    cases hg with
    | quiet hq => exact .quiet hq.stores (fun _ => hq.notes) (by simp [hrun])
    | moved _ _ hv hmove =>
      obtain ⟨o, hmove⟩ := hmove
      exact .moved ⟨_, hrun⟩ hv hmove
    | recalled _ _ _ h => exact h.elim
  | ended hrun _ hs hl =>
    refine .quiet (congrArg Shared.stores hs) (fun _ n hn => .inl ?_) (by simp [hrun])
    exact (congrArg Process.notes hl) ▸ hn
  | crashed hdie =>
    have hs := congrArg (fun x => Shared.stores x.1) hdie
    have hl : (c'.host _).loc.notes = [] := congrArg (fun x => Process.notes x.2) hdie
    simp only [Turn.host]
    refine .quiet hs (fun _ n hn => ?_) fun _ _ => hl
    rw [hl] at hn
    cases hn

/-! ## What a move does to the tables -/

def Db.generation (db : Db) : Option Int := db.projection.map Projection.generation

/-- The correlation ids of the committed transitions. -/
def Db.committed (db : Db) : List String := db.transitions.rows.map Transition.correlationId

/-- A move commits the transition of its call, or touches neither routes nor generation. -/
theorem CreateMove.tables {c : Coordinator} {pf : Profile} {call : CreateCall} {o x y : Stores}
    {v : View} (h : CreateMove c pf call o v x) (hy : y = v.stores) :
    (x.db.committed = y.db.committed ++ [call.descriptor.correlationId] ∧
      x.db.routes.rows = y.db.routes.rows ++ [call.descriptor.routeRow] ∧
      ∃ g, y.db.generation = some g ∧ x.db.generation = some (g + 1)) ∨
    (⟨.stage, true, false⟩ ∈ v.notes ∧ x.db.committed = y.db.committed ∧
      x.db.routes.rows = y.db.routes.rows ∧ x.db.generation = y.db.generation) := by
  subst hy
  have hcommitted : ∀ {g raw st w}, Created c call g raw st o.db w →
      w.committed = o.db.committed ++ [call.descriptor.correlationId] := by
    intro g raw st w hw
    simp [Db.committed, hw.transitions, CreateSessionDescriptor.transitionRow]
  have hgeneration : ∀ {g raw st w}, Created c call g raw st o.db w →
      o.db.generation = some g ∧ w.generation = some (g + 1) := by
    intro g raw st w hw
    obtain ⟨p, hp, hg, hw⟩ := hw.projection
    simp [Db.generation, hp, hg, hw]
  cases h with
  | commit hr ho hw =>
    subst ho
    exact .inl ⟨hcommitted hw, hw.routes, _, hgeneration hw⟩
  | publish hr hn hw hi => exact .inr ⟨hn, rfl, rfl, rfl⟩
  | verify hr hn hw hi hw' =>
    exact .inr ⟨hn, (hcommitted hw').trans (hcommitted hw).symm, hw'.routes.trans hw.routes.symm,
      (hgeneration hw').2.trans (hgeneration hw).2.symm⟩
  | settle hr hn hw hi ha hw' =>
    exact .inr ⟨hn, (hcommitted hw').trans (hcommitted hw).symm, hw'.routes.trans hw.routes.symm,
      (hgeneration hw').2.trans (hgeneration hw).2.symm⟩

/-! ## Runs -/

/-- Between two configurations the slot has got its route. -/
def Allocates (slot : String) (c c' : Creations) : Prop :=
  (∀ r ∈ c.shared.stores.db.routes, r.routeSlot ≠ slot) ∧
    ∃ r ∈ c'.shared.stores.db.routes, r.routeSlot = slot

/-- A committed transition, and its generation. -/
def Commits (id : String) (c c' : Creations) : Prop :=
  c'.shared.stores.db.committed = c.shared.stores.db.committed ++ [id] ∧
    ∃ g, c.shared.stores.db.generation = some g ∧ c'.shared.stores.db.generation = some (g + 1)

/-- No turn of host `p` in the run commits a transition. -/
def NeverCommits (c : Creations) (p : Nat) (turns : List (Turn Fault Creation)) : Prop :=
  ∀ pre t post, turns = pre ++ t :: post → t.host = p → ∀ id,
    ¬ Commits id (creates.run c pre) (creates.turn (creates.run c pre) t)

/-- No turn of host `p` in the run changes a row or the index. -/
def NeverChanges (c : Creations) (p : Nat) (turns : List (Turn Fault Creation)) : Prop :=
  ∀ pre t post, turns = pre ++ t :: post → t.host = p →
    (creates.turn (creates.run c pre) t).shared.stores = (creates.run c pre).shared.stores

theorem commits_or_same {c : Creations} {t : Turn Fault Creation}
    {rest : List (Turn Fault Creation)} (h : cooperate.Good c (t :: rest)) :
    (∃ a k, (c.host t.host).running = some (a, k) ∧
      Commits a.call.descriptor.correlationId c (creates.turn c t)) ∨
    ((creates.turn c t).shared.stores.db.committed = c.shared.stores.db.committed ∧
      (creates.turn c t).shared.stores.db.generation = c.shared.stores.db.generation) := by
  cases turned h with
  | quiet hs => exact .inr ⟨by rw [hs], by rw [hs]⟩
  | moved hrun hv hmove =>
    obtain ⟨k, hrun⟩ := hrun
    rcases hmove.tables hv.stores with ⟨hc, _, hg⟩ | ⟨_, hc, _, hg⟩
    · exact .inl ⟨_, k, hrun, hc, hg⟩
    · exact .inr ⟨hc, hg⟩

theorem routes_grow {c : Creations} {t : Turn Fault Creation}
    {rest : List (Turn Fault Creation)} (h : cooperate.Good c (t :: rest)) {r : RouteRow}
    (hr : r ∈ c.shared.stores.db.routes) : r ∈ (creates.turn c t).shared.stores.db.routes := by
  rw [Table.mem_def] at hr ⊢
  cases turned h with
  | quiet hs => rwa [hs]
  | moved hrun hv hmove =>
    rcases hmove.tables hv.stores with ⟨_, hrows, _⟩ | ⟨_, _, hrows, _⟩
    · rw [hrows]; exact List.mem_append_left _ hr
    · rwa [hrows]

theorem routes_grow_run {c : Creations} {turns rest : List (Turn Fault Creation)}
    (h : cooperate.Good c (turns ++ rest)) {r : RouteRow}
    (hr : r ∈ c.shared.stores.db.routes) : r ∈ (creates.run c turns).shared.stores.db.routes := by
  induction turns generalizing c with
  | nil => exact hr
  | cons t turns ih => exact ih (cooperate.good_turn h).1 (routes_grow h hr)

/-- A host that runs nothing, or whose call has not seen its first commit return. -/
def Clean (p : Nat) (c : Creations) : Prop :=
  (c.host p).running.isSome → ⟨.stage, true, false⟩ ∉ (c.host p).loc.notes

/-- A clean host that commits nothing in its turn changes nothing and stays clean. -/
theorem clean_turn {c : Creations} {t : Turn Fault Creation} {rest : List (Turn Fault Creation)}
    (h : cooperate.Good c (t :: rest)) (hclean : Clean t.host c)
    (hnot : ∀ id, ¬ Commits id c (creates.turn c t)) :
    (creates.turn c t).shared.stores = c.shared.stores ∧ Clean t.host (creates.turn c t) := by
  cases turned h with
  | quiet hs hnotes hfresh =>
    refine ⟨hs, fun hbusy hmem => ?_⟩
    cases hrun : (c.host t.host).running with
    | none =>
      rw [hfresh hrun hbusy] at hmem
      cases hmem
    | some x =>
      have hsome : (c.host t.host).running.isSome := by rw [hrun]; rfl
      rcases hnotes hsome _ hmem with hold | hold | hold
      · exact hclean hsome hold
      · cases hold
      · cases hold
  | moved hrun hv hmove =>
    obtain ⟨k, hrun⟩ := hrun
    rcases hmove.tables hv.stores with ⟨hc, _, hg⟩ | ⟨hnote, _⟩
    · exact absurd ⟨hc, hg⟩ (hnot _)
    · exact absurd (hv.notes ▸ hnote) (hclean (by rw [hrun]; rfl))

/-- A host that commits nothing from an idle state on changes nothing. -/
theorem neverChanges {c : Creations} {p : Nat} {turns rest : List (Turn Fault Creation)}
    (h : cooperate.Good c (turns ++ rest)) (hclean : Clean p c) (hnot : NeverCommits c p turns) :
    NeverChanges c p turns := by
  induction turns generalizing c with
  | nil =>
    intro pre t post heq
    cases pre <;> cases heq
  | cons u turns ih =>
    have hgood := (cooperate.good_turn h).1
    have hrest : NeverCommits (creates.turn c u) p turns := by
      intro pre t post heq
      exact hnot (u :: pre) t post (by rw [heq]; rfl)
    have hnext : Clean p (creates.turn c u) := by
      by_cases hu : u.host = p
      · subst hu
        exact (clean_turn h hclean (hnot [] u turns rfl rfl)).2
      · rw [Clean, creates.host_turn_ne c (Ne.symm hu)]
        exact hclean
    intro pre t post heq ht
    cases pre with
    | nil =>
      cases heq
      subst ht
      exact (clean_turn h hclean (hnot [] u turns rfl rfl)).1
    | cons w pre =>
      cases heq
      exact ih hgood hnext hrest pre t post rfl ht

/-- **Competing hosts.**  In every run, a slot gets its route at most once, each turn
either commits one transition of its host's call and moves the generation on by one, or
changes neither, and a host that commits nothing from an idle state on changes no row and
no byte of the index. -/
theorem competing_hosts (s : Shared) (loc : Nat → Process) :
    let run := creates.run (Creations.start s loc)
    (∀ slot pre t mid u, Allocates slot (run pre) (run (pre ++ [t])) →
      ¬ Allocates slot (run (pre ++ t :: mid)) (run (pre ++ t :: mid ++ [u]))) ∧
    (∀ turns t,
      (∃ a k, ((run turns).host t.host).running = some (a, k) ∧
        Commits a.call.descriptor.correlationId (run turns) (run (turns ++ [t]))) ∨
      ((run (turns ++ [t])).shared.stores.db.committed = (run turns).shared.stores.db.committed ∧
        (run (turns ++ [t])).shared.stores.db.generation =
          (run turns).shared.stores.db.generation)) ∧
    (∀ turns p next, ((run turns).host p).running = none →
      NeverCommits (run turns) p next → NeverChanges (run turns) p next) := by
  intro run
  have hgood : ∀ turns rest, cooperate.Good (run turns) rest := fun turns rest =>
    cooperate.good_run (good s loc (turns ++ rest))
  refine ⟨?_, ?_, ?_⟩
  · rintro slot pre t mid u ⟨_, r, hr, hslot⟩ ⟨hnone, _⟩
    refine hnone r ?_ hslot
    have hsplit : run (pre ++ t :: mid) = creates.run (run (pre ++ [t])) mid := by
      show creates.run _ _ = creates.run (creates.run _ _) _
      rw [← creates.run_append, List.append_assoc]
      rfl
    rw [hsplit]
    exact routes_grow_run (hgood _ (mid ++ [])) hr
  · intro turns t
    have hstep : run (turns ++ [t]) = creates.turn (run turns) t := creates.run_append _ _ _
    rw [hstep]
    exact commits_or_same (hgood turns [t])
  · intro turns p next hidle hnot
    refine neverChanges (hgood turns (next ++ [])) ?_ hnot
    intro hbusy
    rw [hidle] at hbusy
    cases hbusy

end ProjectMaya
