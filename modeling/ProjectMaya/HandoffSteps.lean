import ProjectMaya.HandoffSpec

/-! # What the actions of the factory do

Each action is a `Step`: it keeps the invariant, leaves the other threads what they count on,
and adds a caller's claim only where one was announced.  A claim that was made before is added
again only if it is not `Timely`. -/

namespace ProjectMaya.Handoff

open Logic

section

variable {T : Type} [LinearOrder T] (clock : Clock T)

/-- The claim belongs to a root that is open, and stays in time while the list is gone through:
one reading of the clock for each entry. -/
def Timely (s : Shared T) (item : Claim) : Prop :=
  ¬ s.leases.Shut item.lease ∧
    s.leases.InTime clock item.lease (s.leases.reads + s.callerClaimed.length)

def Shared.made (s : Shared T) : List Claim := s.callers.map Entry.claim

structure Step (s : Shared T) (t : Thread) (s' : Shared T) (t' : Thread) : Prop where
  id : t'.id = t.id
  inv : Inv s'
  later : ∀ q, q ≠ t.id → Later q s s'
  made : s'.made = s.made ∨ ∃ item, t.claiming = some item ∧ s'.made = s.made ++ [item] ∧
    (item ∈ s.made → ¬ Timely clock s item)

def contract : Contract (Shared T) Thread where
  rely t s s' := Inv s' ∧ Later t.id s s'
  guar := Step clock

/-- An assertion that the others leave alone. -/
def Stable (J : Shared T → Thread → Prop) : Prop :=
  ∀ s s' t, Later t.id s s' → J s t → J s' t

variable {clock} {s s' : Shared T} {t : Thread}

/-- The rule for one action. -/
theorem wp_act {β : Type} {act : Act T β} {J : Shared T → Thread → Prop}
    {Q : Except Raised β → Shared T → Thread → Prop} (hJ : Stable J) (hj : J s t)
    (h : ∀ c s, Inv s → J s t → Step clock s t (act.next c s t).2.1 (act.next c s t).2.2 ∧
      Q (act.next c s t).1 (act.next c s t).2.1 (act.next c s t).2.2) :
    wp (contract clock) (.perform act) Q s t := by
  refine wp_perform ?_
  rintro s' ⟨hi, hl⟩ c
  exact h c s' hi (hJ s s' t hl hj)

/-! ## Actions on the leases only -/

omit [LinearOrder T] in
theorem later_of_grows {me : Nat} {leases : Leases T} (h : s.leases.Grows leases) :
    Later me s { s with leases } :=
  { Later.refl s with leases := h }

theorem Step.of_grows {leases : Leases T} (hi : Inv s) (h : s.leases.Grows leases) :
    Step clock s t { s with leases } t where
  id := rfl
  inv := hi.grows h
  later _ _ := later_of_grows h
  made := .inl rfl

theorem Step.refl (hi : Inv s) : Step clock s t s t := .of_grows hi (.refl s.leases)

def Tame {β : Type} (act : Act T β) : Prop :=
  ∀ c s t, ∃ leases, (act.next c s t).2 = ({ s with leases }, t) ∧ s.leases.Grows leases

theorem Tame.step {β : Type} {act : Act T β} (h : Tame act) {c : Choice} (hi : Inv s) :
    Step clock s t (act.next c s t).2.1 (act.next c s t).2.2 := by
  obtain ⟨leases, he, hg⟩ := h c s t
  rw [he]
  exact .of_grows hi hg

/-- A program of such actions leaves every stable assertion alone. -/
theorem wp_tame {α : Type} {p : Code T α} {J : Shared T → Thread → Prop} (hp : p.Each Tame)
    (hJ : Stable J) (hj : J s t) : wp (contract clock) p (fun _ s t => J s t) s t := by
  induction p generalizing s with
  | done r => exact hj
  | step a k ih =>
    rintro s' ⟨hi, hl⟩ c
    obtain ⟨leases, he, hg⟩ := hp.1 c s' t
    have hj' := hJ s s' t hl hj
    rw [he]
    exact ⟨.of_grows hi hg, ih _ (hp.2 _) (hJ _ _ t (later_of_grows hg) hj')⟩

omit [LinearOrder T] in
/-- An action that changes nothing. -/
theorem tame_of_eq {β : Type} {act : Act T β} (h : ∀ c s t, (act.next c s t).2 = (s, t)) : Tame act :=
  fun c s t => ⟨s.leases, h c s t, .refl s.leases⟩

omit [LinearOrder T] in
theorem tame_ask : Tame (Act.ask : Act T Unit) := tame_of_eq fun _ _ _ => rfl

omit [LinearOrder T] in
theorem tame_resolve : Tame (Act.resolve : Act T ResolvedPath) := tame_of_eq fun _ _ _ => rfl

omit [LinearOrder T] in
theorem tame_body : Tame (Act.body : Act T Unit) := tame_of_eq fun _ _ _ => rfl

omit [LinearOrder T] in
theorem tame_selected (who : Position) (function : Function) :
    Tame (Act.selected who function : Act T Unit) := tame_of_eq fun _ _ _ => rfl

omit [LinearOrder T] in
theorem tame_callLater : Tame (Act.callLater : Act T Unit) :=
  fun _ s _ => ⟨s.leases.monotonic, rfl, Leases.monotonic_grows s.leases⟩

omit [LinearOrder T] in
theorem tame_derive (i : Nat) : Tame (Act.derive i : Act T Nat) :=
  fun _ s _ => ⟨s.leases.derive i, rfl, Leases.derive_grows i s.leases⟩

omit [LinearOrder T] in
theorem tame_deactivate (i : Nat) : Tame (Act.deactivate i : Act T Unit) :=
  fun _ s _ => ⟨s.leases.deactivate i, rfl, Leases.deactivate_grows i s.leases⟩

theorem tame_look (i : Nat) : Tame (Act.look clock i : Act T Bool) :=
  fun _ s _ => ⟨_, rfl, Leases.isActive_grows clock i s.leases⟩

theorem tame_leaveScope [Add T] (i : Nat) (r : Except Raised Unit) :
    Tame (Act.leaveScope clock i r : Act T Unit) :=
  fun _ s _ => ⟨_, rfl, Leases.step_grows clock s.leases (.exitScope i _)⟩

theorem tame_call [Add T] (call : LeaseCall T) : Tame (Act.call clock call : Act T Unit) :=
  fun _ s _ => ⟨_, rfl, Leases.step_grows clock s.leases call⟩

theorem tame_revokeRequest [Add T] (i : Nat) (r : Except Raised Unit) :
    Tame (Act.revokeRequest clock i r : Act T Unit) := by
  intro c s t
  cases r with
  | ok u => exact ⟨s.leases, rfl, .refl s.leases⟩
  | error e =>
    cases e <;> exact ⟨_, rfl, Leases.step_grows clock s.leases (.revokeRequest i _)⟩

/-! ## Claims -/

section

variable (clock) {leases : Leases T} {items : List Claim}

theorem CallerInv.claimed {callers : List Entry} (h : CallerInv callers items leases) (owner : Nat)
    {item : Claim} (htop : Top leases item.lease) :
    CallerInv callers (claim clock items item leases).2.1 (claim clock items item leases).2.2 ∧
      ((claim clock items item leases).1 = true →
        CallerInv (callers ++ [⟨item, owner, 0⟩]) (claim clock items item leases).2.1
          (claim clock items item leases).2.2) := by
  have hlt : ∀ other ∈ callers.map Entry.claim, other.lease < leases.nodes.size := by
    intro other hother
    obtain ⟨x, hx, rfl⟩ := List.mem_map.mp hother
    obtain ⟨k, hk⟩ := List.mem_iff_getElem?.mp hx
    exact (h.entry k x hk).2
  obtain ⟨hledger, hgranted⟩ := Ledger.claim clock h.ledger hlt
  have hgrows := prune_grows clock items leases
  obtain ⟨hleases, hlist⟩ := claim_cases clock items item leases
  have hentry : ∀ (k : Nat) (x : Entry), callers[k]? = some x → x.bodies ≤ 1 ∧
      x.claim.lease < (prune clock items leases).2.nodes.size :=
    fun k x hx => ⟨(h.entry k x hx).1, Forest.Grows.size_le hgrows (h.entry k x hx).2⟩
  have htops : ∀ other ∈ (claim clock items item leases).2.1,
      Top (prune clock items leases).2 other.lease := by
    intro other hother
    rcases hlist with ⟨_, e⟩ | ⟨_, _, e⟩
    · rw [e] at hother
      exact (h.top other (mem_of_mem_prune clock hother)).grows hgrows
    · rw [e] at hother
      rcases List.mem_append.mp hother with hother | hother
      · exact (h.top other (mem_of_mem_prune clock hother)).grows hgrows
      · rw [List.mem_singleton.mp hother]
        exact htop.grows hgrows
  rw [hleases] at hledger hgranted ⊢
  refine ⟨⟨hentry, hledger, htops⟩, fun hyes => ⟨?_, ?_, htops⟩⟩
  · intro k x hx
    rcases getElem?_snoc_eq.mp hx with hx | ⟨_, rfl⟩
    · exact hentry k x hx
    · exact ⟨Nat.zero_le 1, (htop.grows hgrows).lt⟩
  · rw [List.map_append]
    exact (hgranted hyes).1

theorem TaskInv.claimed {tasks : List Scheduled} (h : TaskInv tasks items leases) {x : Scheduled}
    (hx : x.Orderly) (hpassed : x.passed = false) (hlt : x.claim.lease < leases.nodes.size) :
    TaskInv tasks (claim clock items x.claim leases).2.1 (claim clock items x.claim leases).2.2 ∧
      ((claim clock items x.claim leases).1 = true →
        TaskInv (tasks ++ [x]) (claim clock items x.claim leases).2.1
          (claim clock items x.claim leases).2.2) := by
  have hlts : ∀ other ∈ tasks.map Scheduled.claim, other.lease < leases.nodes.size := by
    intro other hother
    obtain ⟨y, hy, rfl⟩ := List.mem_map.mp hother
    obtain ⟨k, hk⟩ := List.mem_iff_getElem?.mp hy
    exact (h.task k y hk).2
  obtain ⟨hledger, hgranted⟩ := Ledger.claim clock h.ledger hlts
  have hgrows := prune_grows clock items leases
  obtain ⟨hleases, _⟩ := claim_cases clock items x.claim leases
  rw [hleases] at hledger hgranted ⊢
  have hold := h.grows hgrows
  refine ⟨⟨hold.task, hledger, hold.repeated, hold.passed⟩, fun hyes => ?_⟩
  obtain ⟨hledger, hshut⟩ := hgranted hyes
  have hmade : ∀ (i : Nat) (y : Scheduled), tasks[i]? = some y → y.claim ∈ tasks.map Scheduled.claim :=
    fun i y hy => List.mem_map_of_mem (List.mem_of_getElem? hy)
  constructor
  · intro i y hy
    rcases getElem?_snoc_eq.mp hy with hy | ⟨_, e⟩
    · exact hold.task i y hy
    · rw [e]
      exact ⟨hx, Forest.Grows.size_le hgrows hlt⟩
  · rw [List.map_append]
    exact hledger
  · intro i j y z hy hz hij hc
    rcases getElem?_snoc_eq.mp hy with hy | ⟨hi, ey⟩ <;>
      rcases getElem?_snoc_eq.mp hz with hz | ⟨hj, ez⟩
    · exact hold.repeated i j y z hy hz hij hc
    · -- the new one repeats an earlier claim
      rw [ez] at hc
      rw [hc]
      exact hshut (hc ▸ hmade i y hy)
    · rw [ey] at hc ⊢
      exact hshut (hc ▸ hmade j z hz)
    · omega
  · intro i j y z hy hz hij hc hp
    rcases getElem?_snoc_eq.mp hy with hy | ⟨hi, ey⟩ <;>
      rcases getElem?_snoc_eq.mp hz with hz | ⟨hj, ez⟩
    · exact hold.passed i j y z hy hz hij hc hp
    · rw [ez]
      exact hpassed
    · rw [ey, hpassed] at hp
      cases hp
    · omega

end

theorem claimCaller_step {source : SessionWriteContext} {c : Choice} (hi : Inv s)
    (ht : t.claiming = some (request source)) (htop : Top s.leases source.lease) :
    let r := (Act.claimCaller clock source).next c s t
    Step clock s t r.2.1 r.2.2 ∧
      ∀ k, r.1 = .ok k → r.2.1.callers[k]? = some ⟨request source, r.2.2.id, 0⟩ := by
  have htop' : Top s.leases (request source).lease := htop
  obtain ⟨hno, hyes⟩ := hi.callers.claimed clock t.id htop'
  have hgrows := claim_grows clock s.callerClaimed (request source) s.leases
  have hrefused : request source ∈ s.made → Timely clock s (request source) →
      (claim clock s.callerClaimed (request source) s.leases).1 = false :=
    fun hmade ⟨hopen, hin⟩ => claim_refused clock hi.callers.ledger hmade htop hi.callers.top hopen hin
  unfold Act.claimCaller
  dsimp only
  cases hgranted : (claim clock s.callerClaimed (request source) s.leases).1 with
  | false =>
    simp only [Bool.false_eq_true, if_false]
    refine ⟨⟨rfl, ⟨hno, hi.tasks.grows hgrows, hi.handoffs.grows hgrows⟩, ?_, .inl rfl⟩, nofun⟩
    intro q _
    exact { later_of_grows hgrows with }
  | true =>
    simp only [if_true]
    refine ⟨⟨rfl, ⟨hyes hgranted, hi.tasks.grows hgrows, hi.handoffs.grows hgrows⟩, ?_, .inr ?_⟩, ?_⟩
    · intro q _
      exact { later_of_grows hgrows with callers := .snoc Entry.later_refl s.callers _ }
    · refine ⟨request source, ht, List.map_append, fun hmade htimely => ?_⟩
      rw [hrefused hmade htimely] at hgranted
      cases hgranted
    · rintro k ⟨⟩
      exact getElem?_snoc_eq.mpr (.inr ⟨rfl, rfl⟩)

theorem claimTask_step {source : SessionWriteContext} {function : Function} {c : Choice} (hi : Inv s)
    (hlt : source.lease < s.leases.nodes.size) :
    let r := (Act.claimTask clock source function).next c s t
    Step clock s t r.2.1 r.2.2 := by
  have hx : ({ source, function } : Scheduled).Orderly :=
    ⟨fun _ => ⟨rfl, rfl⟩, fun h => absurd rfl h, Nat.zero_le 1, fun h => absurd rfl h⟩
  obtain ⟨hno, hyes⟩ := hi.tasks.claimed clock hx rfl hlt
  have hgrows := claim_grows clock s.claimed (request source) s.leases
  unfold Act.claimTask
  dsimp only
  cases hgranted : (claim clock s.claimed (request source) s.leases).1 with
  | false =>
    simp only [Bool.false_eq_true, if_false]
    refine ⟨rfl, ⟨hi.callers.grows hgrows, hno, hi.handoffs.grows hgrows⟩, ?_, .inl rfl⟩
    intro q _
    exact { later_of_grows hgrows with }
  | true =>
    simp only [if_true]
    refine ⟨rfl, ⟨hi.callers.grows hgrows, hyes hgranted, ?_⟩, ?_, .inl rfl⟩
    · exact (hi.handoffs.grows hgrows).schedule _
    · intro q _
      exact { later_of_grows hgrows with tasks := .snoc Scheduled.later_refl s.tasks _ }

/-- The body of a scope is entered by the thread that made the claim, once. -/
theorem enterBody_step {k : Nat} {c : Choice} {claim : Claim} (hi : Inv s)
    (hk : s.callers[k]? = some ⟨claim, t.id, 0⟩) :
    Step clock s t ((Act.enterBody k).next c s t).2.1 ((Act.enterBody k).next c s t).2.2 where
  id := rfl
  inv := ⟨hi.callers.enterBody hk rfl, hi.tasks, hi.handoffs⟩
  later q hq := by
    refine { Later.refl s with callers := .modify Entry.later_refl ?_ }
    intro x hx hme
    rw [hk] at hx
    cases hx
    exact absurd hme.symm hq
  made := .inl (map_modify_eq Entry.claim_entered _ _)

/-! ## Scheduled functions -/

/-- A change of one scheduled function. -/
theorem Step.task {i : Nat} {f : Scheduled → Scheduled} {leases : Leases T} (hi : Inv s)
    (hg : s.leases.Grows leases) (hclaim : ∀ x, (f x).claim = x.claim)
    (horderly : ∀ x, s.tasks[i]? = some x → x.Orderly → (f x).Orderly)
    (hpassed : ∀ x, s.tasks[i]? = some x → (f x).passed = true →
      x.passed = true ∨ ¬ leases.Shut x.claim.lease)
    (hspent : ∀ x, s.tasks[i]? = some x → x.Spent → (f x).Spent)
    (hlater : ∀ q, q ≠ t.id → ∀ x, s.tasks[i]? = some x → x.Later q (f x)) :
    Step clock s t { s with leases, tasks := s.tasks.modify i f } t where
  id := rfl
  inv := ⟨hi.callers.grows hg, (hi.tasks.grows hg).modify hclaim horderly hpassed,
    (hi.handoffs.grows hg).retask hspent⟩
  later q hq := { later_of_grows hg with tasks := .modify Scheduled.later_refl (hlater q hq) }
  made := .inl rfl

theorem createTask_step {i lease : Nat} {c : Choice} (hi : Inv s) :
    Step clock s t ((Act.createTask i lease).next c s t).2.1 ((Act.createTask i lease).next c s t).2.2 := by
  unfold Act.createTask
  dsimp only
  cases c.ask with
  | error e => exact .refl hi
  | ok u =>
    refine .task hi (.refl s.leases) (fun _ => rfl) ?_ (fun _ _ => .inl) (fun _ _ h => h) ?_
    · exact fun x _ h => ⟨h.idle, h.passed, h.once, h.given⟩
    · exact fun _ _ x _ _ => ⟨rfl, rfl, rfl, rfl, rfl⟩

/-- The thread runs the coroutine of this scheduled function, and has not selected it yet. -/
def Begun (i : Nat) (source : SessionWriteContext) (s : Shared T) (t : Thread) : Prop :=
  ∃ x, s.tasks[i]? = some x ∧ x.runner = some t.id ∧ x.source = source ∧ x.selection = none ∧
    x.handed = 0

/-- And it has found the source active. -/
def Passed (i : Nat) (s : Shared T) (t : Thread) : Prop :=
  ∃ x, s.tasks[i]? = some x ∧ x.runner = some t.id ∧ x.passed = true ∧ x.selection = none ∧
    x.handed = 0

/-- And it has selected it. -/
def Selected (i : Nat) (s : Shared T) (t : Thread) : Prop :=
  ∃ x, s.tasks[i]? = some x ∧ x.runner = some t.id ∧ x.selection ≠ none ∧ x.handed = 0

omit [LinearOrder T] in
theorem stable_begun {i : Nat} {source : SessionWriteContext} :
    Stable (Begun i source : Shared T → Thread → Prop) := by
  rintro s s' t hl ⟨x, hx, hr, hsource, hsel, hh⟩
  obtain ⟨y, hy, hxy⟩ := hl.tasks i x hx
  obtain ⟨es, er, ep, eh, esel⟩ := hxy hr
  refine ⟨y, hy, er.trans hr, es.trans hsource, ?_, eh.trans hh⟩
  rw [hsel] at esel
  exact Option.isNone_iff_eq_none.mp (by rw [← Option.not_isSome, esel]; rfl)

omit [LinearOrder T] in
theorem stable_passed {i : Nat} : Stable (Passed i : Shared T → Thread → Prop) := by
  rintro s s' t hl ⟨x, hx, hr, hp, hsel, hh⟩
  obtain ⟨y, hy, hxy⟩ := hl.tasks i x hx
  obtain ⟨es, er, ep, eh, esel⟩ := hxy hr
  refine ⟨y, hy, er.trans hr, ep.trans hp, ?_, eh.trans hh⟩
  rw [hsel] at esel
  exact Option.isNone_iff_eq_none.mp (by rw [← Option.not_isSome, esel]; rfl)

omit [LinearOrder T] in
theorem stable_selected {i : Nat} : Stable (Selected i : Shared T → Thread → Prop) := by
  rintro s s' t hl ⟨x, hx, hr, hsel, hh⟩
  obtain ⟨y, hy, hxy⟩ := hl.tasks i x hx
  obtain ⟨es, er, ep, eh, esel⟩ := hxy hr
  refine ⟨y, hy, er.trans hr, ?_, eh.trans hh⟩
  rw [← Option.isSome_iff_ne_none] at hsel ⊢
  exact esel.trans hsel

theorem begin_step {i : Nat} {c : Choice} (hi : Inv s) :
    let r := (Act.begin i).next c s t
    Step clock s t r.2.1 r.2.2 ∧ ∀ a, r.1 = .ok a → Begun i a.1 r.2.1 r.2.2 := by
  unfold Act.begin
  dsimp only
  split
  · rename_i source function lease passed selection handed hx
    have horderly := (hi.tasks.task i _ hx).1
    obtain ⟨hsel, hhanded⟩ := horderly.idle rfl
    refine ⟨?_, ?_⟩
    · refine .task hi (.refl s.leases) (fun _ => rfl) ?_ (fun _ _ => .inl) (fun _ _ h => h) ?_
      · exact fun x _ h => ⟨nofun, h.passed, h.once, h.given⟩
      · intro q hq x hx' hme
        rw [hx] at hx'
        cases hx'
        cases hme
    · rintro _ ⟨⟩
      exact ⟨_, getElem?_modify_eq.mpr ⟨_, hx, rfl⟩, by simp, by simp, by simpa using hsel, by simpa using hhanded⟩
  · exact ⟨.refl hi, nofun⟩

/-- A source that is found active is not shut, so that this function may pass. -/
theorem lookSource_step {i : Nat} {source : SessionWriteContext} {c : Choice} (hi : Inv s)
    (hb : Begun i source s t) :
    let r := (Act.lookSource clock (some i) source.lease).next c s t
    Step clock s t r.2.1 r.2.2 ∧ (r.1 = .ok true → Passed i r.2.1 r.2.2) := by
  obtain ⟨x, hx, hr, hsource, hsel, hh⟩ := hb
  have hg := Leases.isActive_grows clock source.lease s.leases
  unfold Act.lookSource
  dsimp only
  cases hactive : (s.leases.isActive clock source.lease).1 with
  | false =>
    simp only [Bool.false_eq_true, if_false]
    exact ⟨.of_grows hi hg, nofun⟩
  | true =>
    have hopen := Leases.open_of_isActive clock hactive
    simp only [if_true]
    refine ⟨?_, fun _ => ⟨_, getElem?_modify_eq.mpr ⟨x, hx, rfl⟩, ?_⟩⟩
    · refine .task hi hg (fun _ => rfl) ?_ ?_ (fun _ _ h => h) ?_
      · exact fun y _ h => ⟨h.idle, fun _ => rfl, h.once, h.given⟩
      · intro y hy _
        rw [hx] at hy
        cases hy
        rw [← hsource] at hopen ⊢
        exact .inr hopen.2
      · intro q hq y hy hme
        rw [hx] at hy
        cases hy
        rw [hr] at hme
        exact absurd (Option.some.inj hme).symm hq
    · simp [hr, hsel, hh]

theorem select_step {i : Nat} {source : SessionWriteContext} {c : Choice} (hi : Inv s)
    (hp : Passed i s t) :
    let r := (Act.select i source).next c s t
    Step clock s t r.2.1 r.2.2 ∧ Selected i r.2.1 r.2.2 := by
  obtain ⟨x, hx, hr, hpassed, hsel, hh⟩ := hp
  have hafter : Selected i ((Act.select i source).next c s t).2.1 t :=
    ⟨_, getElem?_modify_eq.mpr ⟨x, hx, rfl⟩, by simpa using hr, by simp, by simpa using hh⟩
  refine ⟨?_, hafter⟩
  refine .task hi (.refl s.leases) (fun _ => rfl) ?_ (fun _ _ => .inl) ?_ ?_
  · intro y hy h
    rw [hx] at hy
    cases hy
    refine ⟨fun hnone => ?_, fun _ => hpassed, h.once, nofun⟩
    rw [hr] at hnone
    cases hnone
  · rintro y hy ⟨z, hz, _⟩
    rw [hx] at hy
    cases hy
    rw [hsel] at hz
    cases hz
  · intro q hq y hy hme
    rw [hx] at hy
    cases hy
    rw [hr] at hme
    exact absurd (Option.some.inj hme).symm hq

theorem hand_step {i : Nat} {c : Choice} (hi : Inv s) (hs : Selected i s t) :
    Step clock s t ((Act.hand i).next c s t).2.1 ((Act.hand i).next c s t).2.2 := by
  obtain ⟨x, hx, hr, hsel, hh⟩ := hs
  refine .task hi (.refl s.leases) (fun _ => rfl) ?_ (fun _ _ => .inl) (fun _ _ h => h) ?_
  · intro y hy h
    rw [hx] at hy
    cases hy
    refine ⟨fun hnone => ?_, h.passed, ?_, fun _ => hsel⟩
    · rw [hr] at hnone
      cases hnone
    · show x.handed + 1 ≤ 1
      omega
  · intro q hq y hy hme
    rw [hx] at hy
    cases hy
    rw [hr] at hme
    exact absurd (Option.some.inj hme).symm hq

/-! ## Handoffs -/

/-- A change of one handoff. -/
theorem Step.handoff {h : Nat} {f : SessionExecutorHandoff T → SessionExecutorHandoff T} (hi : Inv s)
    (hkeep : ∀ x, (f x).source = x.source ∧ (f x).function = x.function ∧ (f x).lease = x.lease ∧
      (f x).task = x.task)
    (hsound : ∀ x, s.handoffs[h]? = some x → x.Sound → (f x).Sound)
    (hlater : ∀ q, q ≠ t.id → ∀ x, s.handoffs[h]? = some x → x.receiver = some q →
      (f x).receiver = x.receiver ∧ (f x).starts = x.starts) :
    Step clock s t { s with handoffs := s.handoffs.modify h f } t where
  id := rfl
  inv := ⟨hi.callers, hi.tasks,
    hi.handoffs.modify (fun x => (hkeep x).2.2.1) (fun x => (hkeep x).2.2.2) hsound⟩
  later q hq := by
    refine { Later.refl s with handoffs := .modify SessionExecutorHandoff.later_refl ?_ }
    intro x hx
    exact ⟨(hkeep x).1, (hkeep x).2.1, (hkeep x).2.2.1, hlater q hq x hx⟩
  made := .inl rfl

theorem use_step {h : Nat} {c : Choice} (hi : Inv s) :
    Step clock s t ((Act.use h).next c s t).2.1 ((Act.use h).next c s t).2.2 := by
  unfold Act.use
  dsimp only
  split
  · refine .handoff hi (fun _ => ⟨rfl, rfl, rfl, rfl⟩) ?_ ?_
    · exact fun x _ hx => ⟨hx.once, hx.received, hx.started⟩
    · exact fun _ _ _ _ _ => ⟨rfl, rfl⟩
  · exact .refl hi

/-- The handoff with this index, and the fields that a caller has read. -/
def Known (h lease : Nat) (function : Function) (s : Shared T) (_ : Thread) : Prop :=
  ∃ x, s.handoffs[h]? = some x ∧ x.lease = lease ∧ x.function = function

section

variable {h lease : Nat} {function : Function} {c : Choice}

omit [LinearOrder T] in
theorem stable_known : Stable (Known h lease function : Shared T → Thread → Prop) := by
  rintro s s' t hl ⟨x, hx, hlease, hfunction⟩
  obtain ⟨y, hy, _, ef, el, _⟩ := hl.handoffs h x hx
  exact ⟨y, hy, el.trans hlease, ef.trans hfunction⟩

omit [LinearOrder T] in
theorem use_known (hk : Known h lease function s t) :
    let r := (Act.use h).next c s t
    Known h lease function r.2.1 r.2.2 ∧ r.1 ≠ .error .interrupt := by
  obtain ⟨x, hx, hlease, hfunction⟩ := hk
  unfold Act.use
  dsimp only
  split
  · exact ⟨⟨_, getElem?_modify_eq.mpr ⟨x, hx, rfl⟩, by simpa using hlease, by simpa using hfunction⟩,
      by simp⟩
  · exact ⟨⟨x, hx, hlease, hfunction⟩, by simp⟩

theorem leave_step (hi : Inv s) (hk : Known h lease function s t) :
    let r := (Act.leave h lease).next c s t
    Step clock s t r.2.1 r.2.2 ∧ h ∈ r.2.1.left ∧ Known h lease function r.2.1 r.2.2 := by
  obtain ⟨x, hx, hlease, hfunction⟩ := hk
  have hlt := (hi.handoffs.handoff h x hx).2
  have hg := Leases.deactivate_grows lease s.leases
  have hold := hi.handoffs.grows hg
  have hshut : (s.leases.deactivate lease).Shut lease := Leases.deactivate_closes (hlease ▸ hlt)
  refine ⟨⟨rfl, ⟨hi.callers.grows hg, hi.tasks.grows hg, ?_⟩, ?_, .inl rfl⟩, ?_, x, hx, hlease, hfunction⟩
  · refine ⟨hold.handoff, hold.spent, hold.single, ?_⟩
    intro k hk
    rcases List.mem_append.mp hk with hk | hk
    · exact hold.left k hk
    · rw [List.mem_singleton.mp hk]
      exact ⟨x, hx, hlease ▸ hshut⟩
  · intro q _
    exact { later_of_grows hg with left := fun k hk => List.mem_append_left _ hk }
  · exact List.mem_append_right _ List.mem_cons_self

end

/-- The thread has received the handoff, may run its function, and has not started it. -/
def Received (who : Position) (h lease : Nat) (s : Shared T) (t : Thread) : Prop :=
  ∃ x, s.handoffs[h]? = some x ∧ x.receiver = some t.id ∧ x.starts = [] ∧ x.lease = lease ∧
    who.thread ≠ x.source.threadId ∧ who.task = none

omit [LinearOrder T] in
theorem stable_received {who : Position} {h lease : Nat} :
    Stable (Received who h lease : Shared T → Thread → Prop) := by
  rintro s s' t hl ⟨x, hx, hr, hs, hlease, hthread, htask⟩
  obtain ⟨y, hy, es, _, el, hxy⟩ := hl.handoffs h x hx
  obtain ⟨er, est⟩ := hxy hr
  refine ⟨y, hy, er.trans hr, est.trans hs, el.trans hlease, ?_, htask⟩
  rwa [es]

theorem receive_step {who : Position} {h : Nat} {c : Choice} (hi : Inv s) :
    let r := (Act.receive h who).next c s t
    Step clock s t r.2.1 r.2.2 ∧ ∀ x, r.1 = .ok x → Received who h x.lease r.2.1 r.2.2 := by
  unfold Act.receive
  dsimp only
  split
  · rename_i x hx
    split
    · exact ⟨.refl hi, nofun⟩
    · rename_i hfree
      have hreceiver : x.receiver = none := by
        cases hr : x.receiver with
        | none => rfl
        | some q => simp [hr] at hfree
      have hthread : who.thread ≠ x.source.threadId := by
        intro e
        exact hfree (.inr (.inr (.inl e)))
      have htask : who.task = none := by
        cases ht : who.task with
        | none => rfl
        | some k => simp [ht] at hfree
      have hstarts := (hi.handoffs.handoff h x hx).1.received hreceiver
      refine ⟨?_, ?_⟩
      · refine .handoff hi (fun _ => ⟨rfl, rfl, rfl, rfl⟩) ?_ ?_
        · exact fun y _ hy => ⟨hy.once, nofun, hy.started⟩
        · intro q hq y hy hme
          rw [hx] at hy
          cases hy
          rw [hreceiver] at hme
          cases hme
      · rintro y ⟨⟩
        exact ⟨_, getElem?_modify_eq.mpr ⟨x, hx, rfl⟩, by simp, by simpa using hstarts, by simp,
          by simpa using hthread, htask⟩
  · exact ⟨.refl hi, nofun⟩

theorem start_step {who : Position} {h lease : Nat} {leases : Leases T} {c : Choice} (hi : Inv s)
    (hr : Received who h lease s t) (hopen : leases.Open lease) :
    Step clock s t ((Act.start h who leases).next c s t).2.1 ((Act.start h who leases).next c s t).2.2 := by
  obtain ⟨x, hx, hreceiver, hstarts, hlease, hthread, htask⟩ := hr
  refine .handoff hi (fun _ => ⟨rfl, rfl, rfl, rfl⟩) ?_ ?_
  · intro y hy h
    rw [hx] at hy
    cases hy
    refine ⟨?_, fun hnone => ?_, ?_⟩
    · show (x.starts ++ [_]).length ≤ 1
      rw [hstarts]
      exact Nat.le_refl 1
    · have hnone' : x.receiver = none := hnone
      rw [hreceiver] at hnone'
      cases hnone'
    · intro a ha
      have ha' : a ∈ x.starts ++ [⟨who.thread, who.task, leases⟩] := ha
      rw [hstarts] at ha'
      rw [List.mem_singleton.mp ha']
      exact ⟨hthread, htask, hlease ▸ hopen⟩
  · intro q hq y hy hme
    rw [hx] at hy
    cases hy
    rw [hreceiver] at hme
    exact absurd (Option.some.inj hme).symm hq

/-! ### Making a handoff -/

omit [LinearOrder T] in
theorem selected_eq_some {who : Position} {function : Function} {i : Nat} {y : Selection}
    (h : s.selected who function = some (i, y)) :
    ∃ x, s.tasks[i]? = some x ∧ x.selection = some y := by
  unfold Shared.selected at h
  obtain ⟨k, hk, h⟩ := Option.bind_eq_some_iff.mp h
  obtain ⟨x, hx, h⟩ := Option.bind_eq_some_iff.mp h
  obtain ⟨z, hz, h⟩ := Option.bind_eq_some_iff.mp h
  split at h
  · cases h
    exact ⟨x, hx, hz⟩
  · cases h

theorem Scheduled.Spent.consume {x : Scheduled} (h : x.Spent) : x.consume.Spent := by
  obtain ⟨y, hy, _⟩ := h
  exact ⟨{ y with consumed := true }, by simp [Scheduled.consume, hy], rfl⟩

theorem Scheduled.spent_consume {x : Scheduled} {y : Selection} (h : x.selection = some y) :
    x.consume.Spent := ⟨{ y with consumed := true }, by simp [Scheduled.consume, h], rfl⟩

theorem Scheduled.Orderly.consume {x : Scheduled} (h : x.Orderly) : x.consume.Orderly := by
  have hnone : x.consume.selection = none ↔ x.selection = none := by simp [Scheduled.consume]
  refine ⟨fun hr => ?_, fun hs => h.passed (fun e => hs (hnone.mpr e)), h.once, fun hh e => ?_⟩
  · obtain ⟨hs, hh⟩ := h.idle hr
    exact ⟨hnone.mpr hs, hh⟩
  · exact h.given hh (hnone.mp e)

theorem Scheduled.later_consume {me : Nat} (x : Scheduled) : x.Later me x.consume :=
  fun _ => ⟨rfl, rfl, rfl, rfl, by simp [Scheduled.consume]⟩

theorem construct_step {who : Position} {function : Function} {c : Choice} (hi : Inv s) :
    let r := (Act.construct clock who function).next c s t
    Step clock s t r.2.1 r.2.2 := by
  unfold Act.construct
  dsimp only
  cases who.session with
  | none => exact .refl hi
  | some source =>
    have hg := Leases.isActive_grows clock source.lease s.leases
    dsimp only
    split
    · exact .refl hi
    split
    · exact .of_grows hi hg
    rename_i hvalid
    have hactive : (s.leases.isActive clock source.lease).1 = true := by
      by_contra h
      exact hvalid (.inl (by simpa using h))
    have hopen := Leases.open_of_isActive clock hactive
    have hgrows := hg.trans (Leases.derive_grows source.lease (s.leases.isActive clock source.lease).2)
    have hlt : (s.leases.isActive clock source.lease).2.nodes.size <
        ((s.leases.isActive clock source.lease).2.derive source.lease).nodes.size := by
      simp [Leases.derive, hopen.1]
    have hsound : ∀ (lease : Nat) (task : Option Nat),
        ({ source, function, lease, task } : SessionExecutorHandoff T).Sound :=
      fun _ _ => ⟨Nat.zero_le 1, fun _ => rfl, fun _ h => by cases h⟩
    cases hsel : (s.selected who function).filter fun x => !x.2.consumed with
    | none =>
      refine ⟨rfl, ⟨hi.callers.grows hgrows, hi.tasks.grows hgrows, ?_⟩, ?_, .inl rfl⟩
      · exact (hi.handoffs.grows hgrows).snoc (hsound _ none) hlt (fun _ h => by cases h)
          fun _ _ _ _ h => by cases h
      · intro q _
        exact { later_of_grows hgrows with
          handoffs := .snoc SessionExecutorHandoff.later_refl s.handoffs _ }
    | some found =>
      obtain ⟨i, y⟩ := found
      obtain ⟨hfound, hfresh⟩ := Option.filter_eq_some_iff.mp hsel
      obtain ⟨x, hx, hxy⟩ := selected_eq_some hfound
      have hspent : ∀ z, s.tasks[i]? = some z → z.Spent → z.consume.Spent := fun _ _ h => h.consume
      refine ⟨rfl, ⟨hi.callers.grows hgrows, ?_, ?_⟩, ?_, .inl rfl⟩
      · exact (hi.tasks.grows hgrows).modify (fun _ => rfl) (fun _ _ h => h.consume) fun _ _ => .inl
      · refine ((hi.handoffs.grows hgrows).retask hspent).snoc (hsound _ (some i)) hlt ?_ ?_
        · rintro j ⟨⟩
          refine ⟨x.consume, getElem?_modify_eq.mpr ⟨x, hx, (if_pos rfl).symm⟩, ?_⟩
          exact Scheduled.spent_consume hxy
        · -- a handoff that consumed this selection would have left it consumed
          rintro k z j hz ⟨⟩ hj
          obtain ⟨w, hw, v, hv, hconsumed⟩ := hi.handoffs.spent k z i hz hj
          rw [hx] at hw
          cases hw
          rw [hxy] at hv
          cases hv
          rw [hconsumed] at hfresh
          cases hfresh
      · intro q _
        exact { later_of_grows hgrows with
          tasks := .modify Scheduled.later_refl fun z _ => z.later_consume
          handoffs := .snoc SessionExecutorHandoff.later_refl s.handoffs _ }

theorem construct_settles {who : Position} {function : Function} {c : Choice} :
    ((Act.construct clock who function).next c s t).1 ≠ .error .interrupt := by
  unfold Act.construct
  dsimp only
  cases who.session with
  | none => simp [invalid]
  | some source =>
    dsimp only
    split
    · simp [invalid]
    split <;> simp [invalid]

end

end ProjectMaya.Handoff
