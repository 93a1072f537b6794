import ProjectMaya.LeaseChain
import ProjectMaya.PublishedReader
import ProjectMaya.Logic.Covenant

/-! # Conversation scopes and the history

A scope holds the selection lock; nobody else changes the selection meanwhile (`Later`).  When
its thread gives the lock back, the selection is none, the root is shut, and the cache is empty
unless a `read` has filled it (`Inv.exits`).

So a call of `load_transcript` finds a selection only if it begins while that scope is open,
and returns only if the lease of its context is still active after the history was read
(`published_reader_scope`). -/

namespace ProjectMaya.Reader

open Logic

section

variable {T M : Type}

/-- No scope has left an entry in the cache. -/
def Shared.Clean (s : Shared T) : Prop := s.cache.entries = [] ∨ s.fills ≠ 0

/-- The root of a scope that has been entered, whether it is over or not. -/
def Shared.Begun (s : Shared T) (r : Nat) : Prop := s.entered = some r ∨ r ∈ s.ended

structure Inv (s : Shared T) : Prop where
  idle : s.selecting = none → s.entered = none ∧ s.Clean
  active : ∀ context, s.active = some context → s.entered = some context.lease
  entered : ∀ r, s.entered = some r → r < s.leases.nodes.size ∧ r ∉ s.ended
  exits : ∀ e ∈ s.exits, e.selected = none ∧ (e.cache.entries = [] ∨ s.fills ≠ 0)
  ended : ∀ r ∈ s.ended, r < s.leases.nodes.size ∧ s.leases.Shut r

/-- What a thread can count on while the others act. -/
structure Later (me : Nat) (s s' : Shared T) : Prop where
  grows : s.leases.Grows s'.leases
  begun : ∀ r, s.Begun r → s'.Begun r
  selecting : s.selecting = some me → s'.selecting = some me
  active : s.selecting = some me → s'.active = s.active
  entered : s.selecting = some me → s'.entered = s.entered
  exits : s.selecting = some me → s'.exits = s.exits
  clean : s.selecting = some me → s.Clean → s'.Clean

theorem Later.refl (me : Nat) (s : Shared T) : Later me s s :=
  ⟨Leases.Grows.refl _, fun _ => id, id, fun _ => rfl, fun _ => rfl, fun _ => rfl, fun _ => id⟩

theorem Later.trans {me : Nat} {s s' s'' : Shared T} (h : Later me s s') (h' : Later me s' s'') :
    Later me s s'' where
  grows := h.grows.trans h'.grows
  begun r hr := h'.begun r (h.begun r hr)
  selecting hs := h'.selecting (h.selecting hs)
  active hs := (h'.active (h.selecting hs)).trans (h.active hs)
  entered hs := (h'.entered (h.selecting hs)).trans (h.entered hs)
  exits hs := (h'.exits (h.selecting hs)).trans (h.exits hs)
  clean hs hc := h'.clean (h.selecting hs) (h.clean hs hc)

theorem Later.ended {me : Nat} {s s' : Shared T} (h : Later me s s') (hs : s.selecting = some me) :
    s'.ended = s.ended := by
  unfold Shared.ended
  rw [h.exits hs]

/-! ## Actions that leave the scopes alone -/

/-- The scopes are as they were, leases have only grown, and the cache has at most lost its
entries. -/
structure Calm (s s' : Shared T) : Prop where
  grows : s.leases.Grows s'.leases
  selecting : s'.selecting = s.selecting
  active : s'.active = s.active
  entered : s'.entered = s.entered
  exits : s'.exits = s.exits
  fills : s'.fills = s.fills
  cache : s'.cache = s.cache ∨ s'.cache.entries = []

theorem Calm.clean {s s' : Shared T} (h : Calm s s') (hc : s.Clean) : s'.Clean := by
  unfold Shared.Clean at *
  rw [h.fills]
  rcases h.cache with he | he
  · rw [he]
    exact hc
  · exact .inl he

theorem Calm.ended {s s' : Shared T} (h : Calm s s') : s'.ended = s.ended := by
  unfold Shared.ended
  rw [h.exits]

theorem Calm.later {s s' : Shared T} (h : Calm s s') (me : Nat) : Later me s s' where
  grows := h.grows
  begun r hr := by
    unfold Shared.Begun at *
    rwa [h.entered, h.ended]
  selecting hs := h.selecting.trans hs
  active _ := h.active
  entered _ := h.entered
  exits _ := h.exits
  clean _ := h.clean

theorem Inv.calm {s s' : Shared T} (hi : Inv s) (h : Calm s s') : Inv s' := by
  constructor
  · intro hs
    obtain ⟨he, hc⟩ := hi.idle (h.selecting ▸ hs)
    exact ⟨h.entered.trans he, h.clean hc⟩
  · intro context ha
    exact h.entered.trans (hi.active context (h.active ▸ ha))
  · intro r hr
    obtain ⟨hlt, hover⟩ := hi.entered r (h.entered ▸ hr)
    exact ⟨Forest.Grows.size_le h.grows hlt, h.ended ▸ hover⟩
  · intro e he
    rw [h.exits] at he
    rw [h.fills]
    exact hi.exits e he
  · intro r hr
    rw [h.ended] at hr
    obtain ⟨hlt, hshut⟩ := hi.ended r hr
    exact ⟨Forest.Grows.size_le h.grows hlt, hshut.grows Leases.closed_of_evolves h.grows⟩

/-! ## Contracts -/

/-- A thread that has read a history began while the root of its context was selected and its
scope was not over. -/
def Entitled (who : Caller) (events : List (Event M)) : Prop :=
  ∀ sessionId messages, Event.read sessionId messages ∈ events →
    ∃ bound selected ended rest, who.session = some bound ∧
      events = .began (some selected) ended :: .walked bound.lease selected.lease :: rest ∧
      selected.lease ∉ ended

def Law : Task T → List (Event M) → Prop
  | .load who _ => Entitled who
  | _ => fun _ => True

def Task.fills : Task T → Bool
  | .read _ => true
  | _ => false

/-- What a turn of a thread may do. -/
structure Step (a : Task T) (s : Shared T) (t : Thread M) (s' : Shared T) (t' : Thread M) : Prop where
  id : t'.id = t.id
  inv : Inv s'
  later : ∀ q, q ≠ t.id → Later q s s'
  law : Law a t.events → Law a t'.events
  fills : a.fills = false → s'.fills = s.fills

def contract (a : Task T) : Contract (Shared T) (Thread M) where
  rely t s s' := Inv s' ∧ Later t.id s s'
  guar := Step a

/-- The rule for one action, from an assertion that the others leave alone. -/
theorem wp_act {a : Task T} {β : Type} {act : Act T M β} {J : Shared T → Prop} {s : Shared T}
    {t : Thread M} {Q : Except Raised β → Shared T → Thread M → Prop} (hj : J s)
    (hJ : ∀ s s', Later t.id s s' → J s → J s')
    (h : ∀ c s, Inv s → J s → Step a s t (act.next c s t).2.1 (act.next c s t).2.2 ∧
      Q (act.next c s t).1 (act.next c s t).2.1 (act.next c s t).2.2) :
    wp (contract a) (.perform act) Q s t := by
  refine wp_perform ?_
  rintro s' ⟨hi, hl⟩ c
  exact h c s' hi (hJ s s' hl hj)

/-! ## Calm actions -/

/-- Whatever happens, the scopes are as they were. -/
def Calmly {β : Type} (act : Act T M β) : Prop :=
  ∀ c s t, Calm s (act.next c s t).2.1 ∧ (act.next c s t).2.2.id = t.id

/-- And no event is recorded. -/
def Quietly {β : Type} (act : Act T M β) : Prop :=
  Calmly act ∧ ∀ c s t, (act.next c s t).2.2.events = t.events

theorem Calm.refl (s : Shared T) : Calm s s :=
  ⟨Leases.Grows.refl _, rfl, rfl, rfl, rfl, rfl, .inl rfl⟩

theorem Calm.machine (s : Shared T) (machine : ProjectMaya.Shared) : Calm s { s with machine } :=
  ⟨Leases.Grows.refl _, rfl, rfl, rfl, rfl, rfl, .inl rfl⟩

theorem Calm.leases {s : Shared T} {leases : Leases T} (h : s.leases.Grows leases) :
    Calm s { s with leases } := ⟨h, rfl, rfl, rfl, rfl, rfl, .inl rfl⟩

theorem Calm.cleared (s : Shared T) : Calm s { s with cache := {} } :=
  ⟨Leases.Grows.refl _, rfl, rfl, rfl, rfl, rfl, .inr rfl⟩

theorem Calmly.step {β : Type} {act : Act T M β} (h : Calmly act) {a : Task T} {c : Choice M}
    {s : Shared T} {t : Thread M} (hi : Inv s)
    (hlaw : Law a t.events → Law a (act.next c s t).2.2.events) :
    Step a s t (act.next c s t).2.1 (act.next c s t).2.2 where
  id := (h c s t).2
  inv := hi.calm (h c s t).1
  later q _ := (h c s t).1.later q
  law := hlaw
  fills _ := (h c s t).1.fills

theorem each_lift {α : Type} (p : ProjectMaya.Code α) : (lift p : Code T M α).Each Quietly := by
  refine Prog.each_zoom ?_ p
  intro β a h
  refine ⟨?_, ?_⟩
  · intro c s t
    obtain ⟨machine, process, hs, ht⟩ := h c s t
    rw [hs, ht]
    exact ⟨.machine s machine, rfl⟩
  · intro c s t
    obtain ⟨machine, process, hs, ht⟩ := h c s t
    rw [ht]
    rfl

theorem calmly_authorize (action : ActionRequest) : Calmly (Act.authorize action : Act T M Bool) := by
  intro c s t
  unfold Act.authorize
  dsimp only
  split <;> exact ⟨.refl s, rfl⟩

theorem calmly_validated (entry : SessionEntry) : Calmly (Act.validated entry : Act T M Unit) :=
  fun _ s _ => ⟨.refl s, rfl⟩

theorem calmly_lift {α : Type} (p : ProjectMaya.Code α) : (lift p : Code T M α).Each Calmly :=
  (each_lift p).mono fun _ h => h.1

theorem each_renamed {α : Type} {p : Code T M α} (hp : p.Each Calmly) (f : Raised → Raised) :
    (renamed p f).Each Calmly := hp.mapError fun _ => trivial

theorem each_authorize (identity : RequestIdentity) (operation target : String) :
    (authorize identity operation target : Code T M Unit).Each Calmly := by
  refine .bind (each_renamed (.perform (calmly_authorize _)) _) ?_
  intro allowed
  exact .bind (each_renamed (calmly_lift _) _) fun _ => .raiseIf

theorem each_validatedEntry (c : Coordinator) (identity : RequestIdentity) :
    (validatedEntry c identity : Code T M SessionEntry).Each Calmly := by
  refine .bind (calmly_lift _) fun _ => ?_
  refine .bind (each_authorize identity _ _) fun _ => ?_
  refine .bind (calmly_lift _) fun entry => ?_
  exact .bind (.perform (calmly_validated entry)) fun _ => trivial

/-! ## The assertions of a scope -/

/-- The thread holds the selection lock, with this selection and this root. -/
structure Holds (selected : Option SessionWriteContext) (root : Option Nat) (s : Shared T)
    (t : Thread M) : Prop where
  selecting : s.selecting = some t.id
  active : s.active = selected
  entered : s.entered = root

/-- Nothing is selected yet. -/
def Idle (s : Shared T) (t : Thread M) : Prop := Holds none none s t ∧ s.Clean

/-- The root that is about to be selected is a new one. -/
def Bound (lease : Nat) (s : Shared T) (t : Thread M) : Prop :=
  Idle s t ∧ lease < s.leases.nodes.size ∧ lease ∉ s.ended

/-- The selection has been taken back and the cache cleared. -/
def Cleared (lease : Nat) (s : Shared T) (t : Thread M) : Prop :=
  Holds none (some lease) s t ∧ s.Clean

/-- What the thread leaves behind: what it had selected is shut. -/
def Left (s : Shared T) (t : Thread M) : Prop :=
  ∃ root, Holds none root s t ∧ s.Clean ∧ ∀ r, root = some r → s.leases.Shut r

/-- An assertion that the others, and calm actions of the thread, leave alone. -/
def Stable (J : Shared T → Thread M → Prop) : Prop :=
  ∀ s s' t t', t'.id = t.id → Later t.id s s' → J s t → J s' t'

section

variable {s s' : Shared T} {t t' : Thread M}

theorem Holds.later {selected : Option SessionWriteContext} {root : Option Nat}
    (h : Holds selected root s t) (hid : t'.id = t.id) (hl : Later t.id s s') :
    Holds selected root s' t' where
  selecting := hid ▸ hl.selecting h.selecting
  active := (hl.active h.selecting).trans h.active
  entered := (hl.entered h.selecting).trans h.entered

theorem stable_holds {selected : Option SessionWriteContext} {root : Option Nat} :
    Stable (Holds selected root : Shared T → Thread M → Prop) :=
  fun _ _ _ _ hid hl h => h.later hid hl

theorem stable_idle : Stable (Idle : Shared T → Thread M → Prop) :=
  fun _ _ _ _ hid hl h => ⟨h.1.later hid hl, hl.clean h.1.selecting h.2⟩

theorem stable_bound {lease : Nat} : Stable (Bound lease : Shared T → Thread M → Prop) := by
  rintro s s' t t' hid hl ⟨h, hlt, hover⟩
  refine ⟨stable_idle s s' t t' hid hl h, Forest.Grows.size_le hl.grows hlt, ?_⟩
  rwa [hl.ended h.1.selecting]

theorem stable_cleared {lease : Nat} : Stable (Cleared lease : Shared T → Thread M → Prop) :=
  fun _ _ _ _ hid hl h => ⟨h.1.later hid hl, hl.clean h.1.selecting h.2⟩

theorem stable_left : Stable (Left : Shared T → Thread M → Prop) := by
  rintro s s' t t' hid hl ⟨root, h, hc, hshut⟩
  refine ⟨root, h.later hid hl, hl.clean h.selecting hc, ?_⟩
  intro r hr
  exact (hshut r hr).grows Leases.closed_of_evolves hl.grows

theorem stable_true : Stable (fun _ _ => True : Shared T → Thread M → Prop) :=
  fun _ _ _ _ _ _ _ => trivial

theorem Idle.left (h : Idle s t) : Left s t := ⟨none, h.1, h.2, nofun⟩

theorem Bound.left {lease : Nat} (h : Bound lease s t) : Left s t := h.1.left

end

/-! ## Changes of the scopes -/

section

variable {s : Shared T} {me : Nat}

/-- The others do not hold a lock that this thread holds. -/
theorem later_of_selecting {s' : Shared T} (hgrows : s.leases.Grows s'.leases)
    (hbegun : ∀ r, s.Begun r → s'.Begun r) (hfree : s.selecting = none ∨ s.selecting = some me) :
    ∀ q, q ≠ me → Later q s s' := by
  intro q hq
  have hne : s.selecting ≠ some q := by
    rcases hfree with h | h <;> rw [h]
    · simp
    · rintro ⟨⟩
      exact hq rfl
  exact ⟨hgrows, hbegun, fun h => absurd h hne, fun h => absurd h hne, fun h => absurd h hne,
    fun h => absurd h hne, fun h => absurd h hne⟩

theorem ended_exit (e : Exit) :
    ({ s with selecting := none, entered := none, exits := s.exits ++ [e] } : Shared T).ended =
      s.ended ++ e.root.toList := by
  unfold Shared.ended
  rw [List.filterMap_append]
  cases h : e.root <;> simp [h]

theorem Inv.select (hi : Inv s) : Inv { s with selecting := some me } where
  idle := nofun
  active := hi.active
  entered := hi.entered
  exits := hi.exits
  ended := hi.ended

theorem Inv.activate (hi : Inv s) {context : SessionWriteContext} (hs : s.selecting = some me)
    (hlt : context.lease < s.leases.nodes.size) (hover : context.lease ∉ s.ended) :
    Inv { s with active := some context, entered := some context.lease } where
  idle h := by
    rw [hs] at h
    cases h
  active := by
    rintro _ ⟨⟩
    rfl
  entered := by
    rintro _ ⟨⟩
    exact ⟨hlt, hover⟩
  exits := hi.exits
  ended := hi.ended

theorem Inv.deactivate (hi : Inv s) : Inv { s with active := none } where
  idle := hi.idle
  active := nofun
  entered := hi.entered
  exits := hi.exits
  ended := hi.ended

theorem Inv.fill (hi : Inv s) (hs : s.selecting = some me) (cache : Cache) :
    Inv { s with cache } where
  idle h := by
    rw [hs] at h
    cases h
  active := hi.active
  entered := hi.entered
  exits := hi.exits
  ended := hi.ended

theorem Inv.release (hi : Inv s) {root : Option Nat} (he : s.entered = root) (ha : s.active = none)
    (hc : s.Clean) (hshut : ∀ r, root = some r → s.leases.Shut r) :
    Inv { s with
      selecting := none, entered := none, exits := s.exits ++ [⟨s.entered, s.active, s.cache⟩] } := by
  constructor
  · exact fun _ => ⟨rfl, hc⟩
  · intro context h
    rw [ha] at h
    cases h
  · nofun
  · intro e hmem
    rcases List.mem_append.mp hmem with hmem | hmem
    · exact hi.exits e hmem
    · rw [List.mem_singleton] at hmem
      subst hmem
      exact ⟨ha, hc⟩
  · intro r hr
    rw [ended_exit] at hr
    rcases List.mem_append.mp hr with hr | hr
    · exact hi.ended r hr
    · have hr : s.entered = some r := by simpa using hr
      exact ⟨(hi.entered r hr).1, hshut r (he.symm.trans hr)⟩

theorem Inv.refill (hi : Inv s) (cache : Cache) : Inv { s with cache, fills := s.fills + 1 } where
  idle h := ⟨(hi.idle h).1, .inr (Nat.succ_ne_zero _)⟩
  active := hi.active
  entered := hi.entered
  exits e he := ⟨(hi.exits e he).1, .inr (Nat.succ_ne_zero _)⟩
  ended := hi.ended

end

/-! ## A scope, from its lock to its release -/

section

variable {a : Task T} {s : Shared T} {t : Thread M}

/-- What calm actions keep, a program of calm actions keeps. -/
theorem wp_calm {α : Type} {p : Code T M α} (hp : p.Each Calmly) (hlaw : ∀ events : List (Event M), Law a events)
    {J : Shared T → Thread M → Prop} (hJ : Stable J) (h : J s t) :
    wp (contract a) p (fun _ => J) s t := by
  induction p generalizing s t with
  | done r => exact h
  | step act k ih =>
    rintro s' ⟨hi, hl⟩ c
    have hj := hJ s s' t t rfl hl h
    obtain ⟨hcalm, hid⟩ := hp.1 c s' t
    exact ⟨hp.1.step hi fun _ => hlaw _, ih _ (hp.2 _) (hJ s' _ t _ hid (hcalm.later t.id) hj)⟩

/-- `_exclusive` around a body. -/
theorem wp_exclusive {α : Type} {body : Code T M α} (hlaw : ∀ events : List (Event M), Law a events)
    {J K : Shared T → Thread M → Prop} (hJ : Stable J) (hK : Stable K) (hJK : ∀ s t, J s t → K s t)
    (hbody : ∀ s t, J s t → wp (contract a) body (fun _ => K) s t) (h : J s t) :
    wp (contract a) (exclusive body) (fun _ => K) s t := by
  refine always_mapError ?_ fun e s t hk => hk
  refine always_bind (wp_calm (calmly_lift _) hlaw hJ h) ?_ hJK
  intro _ s t h
  refine always_bind (wp_calm (calmly_lift _) hlaw hJ h) ?_ hJK
  intro _ s t h
  refine always_bind (wp_calm (calmly_lift _) hlaw hJ h) ?_ hJK
  intro _ s t h
  refine always_ensuring (always_bind (wp_calm (calmly_lift _) hlaw hJ h) ?_ hJK) ?_
  · exact fun _ => hbody
  · exact fun s t h => wp_calm (calmly_lift _) hlaw hK h

theorem calmly_resolve : Calmly (Act.resolve : Act T M ResolvedPath) := fun _ s _ => ⟨.refl s, rfl⟩

theorem calmly_uuid : Calmly (Act.uuid : Act T M String) := fun _ s _ => ⟨.refl s, rfl⟩

theorem calmly_clearCache : Calmly (Act.clearCache : Act T M Unit) := fun _ s _ => ⟨.cleared s, rfl⟩

theorem calmly_enter : Calmly (Act.enter : Act T M Unit) := fun _ s _ => ⟨.refl s, rfl⟩

theorem calmly_entered : Calmly (Act.entered : Act T M Bool) := fun _ s _ => ⟨.refl s, rfl⟩

theorem calmly_body : Calmly (Act.body : Act T M Unit) := fun _ s _ => ⟨.refl s, rfl⟩

theorem each_requestError (e : Raised) : (requestError e : Code T M Raised).Each Calmly := by
  have hclear : (Prog.perform Act.clearCache : Code T M Unit).Each Calmly := .perform calmly_clearCache
  cases e with
  | interrupt => exact trivial
  | boundary code => exact .bind hclear fun _ => trivial
  | mandatory _ | lockException | importError | failure =>
    exact .bind hclear fun _ => .bind (.perform calmly_entered) fun _ => trivial

theorem each_readError (e : Raised) : (readError e : Code T M Raised).Each Calmly := by
  have hclear : (Prog.perform Act.clearCache : Code T M Unit).Each Calmly := .perform calmly_clearCache
  cases e with
  | interrupt => exact trivial
  | boundary _ | mandatory _ | lockException | importError | failure =>
    exact .bind hclear fun _ => trivial

variable [LinearOrder T] (clock : Clock T) [Add T] (timeout : T)

theorem calmly_bindLease : Calmly (Act.bindLease clock timeout : Act T M Nat) :=
  fun _ s _ => ⟨.leases (Leases.step_grows clock s.leases (.bind (some timeout))), rfl⟩

theorem calmly_leaveLease (lease : Nat) (result : Except Raised Unit) :
    Calmly (Act.leaveLease clock lease result : Act T M Unit) :=
  fun _ s _ => ⟨.leases (Leases.step_grows clock s.leases (.exitScope lease _)), rfl⟩

theorem each_requestBinding (identity : RequestIdentity) (sessionId : String) :
    (requestBinding clock identity timeout sessionId : Code T M ResolvedPath).Each Calmly := by
  refine .mapError ?_ fun _ => trivial
  refine .bind (.perform calmly_resolve) fun database => ?_
  refine .bind .raiseIf fun _ => .bind .raiseIf fun _ => .bind .raiseIf fun _ => ?_
  refine .bind (.perform (calmly_bindLease clock timeout)) fun lease => ?_
  exact .bind (.perform (calmly_leaveLease clock lease _)) fun _ => trivial

/-- A scope's lease: it is a new one, and shut in the end. -/
theorem wp_bindLease (hlaw : ∀ events : List (Event M), Law a events) (h : Idle s t) :
    wp (contract a) (.perform (Act.bindLease clock timeout)) (Succeeds Bound) s t := by
  refine wp_act (J := fun s => Idle s t) h (fun s s' hl => stable_idle s s' t t rfl hl) ?_
  intro c s hi h
  have hcalm := calmly_bindLease clock timeout (M := M) c s t
  refine ⟨(calmly_bindLease clock timeout).step hi fun _ => hlaw _, _, rfl, ?_⟩
  refine ⟨stable_idle s _ t _ hcalm.2 (hcalm.1.later t.id) h, ?_, ?_⟩
  · show s.leases.nodes.size < (s.leases.bindSessionWrite clock (some timeout)).nodes.size
    rw [Leases.size_bindSessionWrite]
    omega
  · intro hmem
    exact Nat.lt_irrefl _ (hi.ended _ hmem).1

theorem wp_leaveLease (hlaw : ∀ events : List (Event M), Law a events) {lease : Nat}
    (result : Except Raised Unit) (h : Cleared lease s t) :
    wp (contract a) (.perform (Act.leaveLease clock lease result)) (fun _ => Left) s t := by
  refine wp_act (J := fun s => Cleared lease s t) h (fun s s' hl => stable_cleared s s' t t rfl hl) ?_
  intro c s hi h
  have hcalm := calmly_leaveLease clock lease result c s t
  refine ⟨(calmly_leaveLease clock lease result).step hi fun _ => hlaw _, ?_⟩
  obtain ⟨hholds, hclean⟩ := stable_cleared s _ t _ hcalm.2 (hcalm.1.later t.id) h
  refine ⟨some lease, hholds, hclean, ?_⟩
  rintro _ ⟨⟩
  exact Leases.exitScope_closes clock (hi.entered lease h.1.entered).1 _

theorem wp_leased (hlaw : ∀ events : List (Event M), Law a events) {lease : Nat}
    {body : Code T M Unit} (hbody : wp (contract a) body (fun _ => Cleared lease) s t) :
    wp (contract a) (leased clock lease body) (fun _ => Left) s t := by
  refine wp_andThen (wp_mono hbody ?_)
  intro r s t h
  exact wp_andThen (wp_leaveLease clock hlaw r h)

end

/-! ### The steps that change the selection -/

section

variable {a : Task T} {s : Shared T} {t : Thread M} {root : SessionWriteContext}

theorem wp_activate (hlaw : ∀ events : List (Event M), Law a events) (h : Bound root.lease s t) :
    wp (contract a) (.perform (Act.activate root))
      (Succeeds fun _ => Holds (some root) (some root.lease)) s t := by
  refine wp_act (J := fun s => Bound root.lease s t) h (fun s s' hl => stable_bound s s' t t rfl hl) ?_
  rintro c s hi ⟨⟨h, hclean⟩, hlt, hover⟩
  refine ⟨⟨rfl, hi.activate h.selecting hlt hover, ?_, fun _ => hlaw _, fun _ => rfl⟩,
    (), rfl, h.selecting, rfl, rfl⟩
  refine later_of_selecting (.refl _) ?_ (.inr h.selecting)
  rintro r (hr | hr)
  · rw [h.entered] at hr
    cases hr
  · exact .inr hr

theorem wp_fill (hlaw : ∀ events : List (Event M), Law a events) {selected : Option SessionWriteContext}
    {lease : Option Nat} (entry : SessionEntry) (h : Holds selected lease s t) :
    wp (contract a) (.perform (Act.fill entry)) (fun _ => Holds selected lease) s t := by
  refine wp_act (J := fun s => Holds selected lease s t) h (fun s s' hl => stable_holds s s' t t rfl hl) ?_
  intro c s hi h
  refine ⟨⟨rfl, hi.fill h.selecting _, ?_, fun _ => hlaw _, fun _ => rfl⟩, h.selecting, h.active,
    h.entered⟩
  exact later_of_selecting (.refl _) (fun _ => id) (.inr h.selecting)

theorem wp_deactivate (hlaw : ∀ events : List (Event M), Law a events)
    {selected : Option SessionWriteContext} {lease : Option Nat} (h : Holds selected lease s t) :
    wp (contract a) (.perform Act.deactivate) (Succeeds fun _ => Holds none lease) s t := by
  refine wp_act (J := fun s => Holds selected lease s t) h (fun s s' hl => stable_holds s s' t t rfl hl) ?_
  intro c s hi h
  refine ⟨⟨rfl, hi.deactivate, ?_, fun _ => hlaw _, fun _ => rfl⟩, (), rfl, h.selecting, rfl,
    h.entered⟩
  exact later_of_selecting (.refl _) (fun _ => id) (.inr h.selecting)

theorem wp_clearCache (hlaw : ∀ events : List (Event M), Law a events) {lease : Nat}
    (h : Holds none (some lease) s t) :
    wp (contract a) (.perform Act.clearCache) (fun _ => Cleared lease) s t := by
  refine wp_act (J := fun s => Holds none (some lease) s t) h (fun s s' hl => stable_holds s s' t t rfl hl) ?_
  intro c s hi h
  exact ⟨calmly_clearCache.step hi fun _ => hlaw _, ⟨h.selecting, h.active, h.entered⟩, .inl rfl⟩

/-- The scope proper: whatever happens in its body, the selection is taken back and the cache
cleared. -/
theorem wp_conversation (hlaw : ∀ events : List (Event M), Law a events) (entry : SessionEntry)
    (h : Bound root.lease s t) :
    wp (contract a) (conversation entry root) (fun _ => Cleared root.lease) s t := by
  refine succeeds_bind (wp_activate hlaw h) ?_
  intro _ s t h
  refine always_ensuring (J := Holds (some root) (some root.lease)) ?_ ?_
  · refine always_bind (wp_fill hlaw entry h) ?_ fun _ _ h => h
    intro _ s t h
    exact wp_calm (.bind (.perform calmly_enter) fun _ => .perform calmly_body) hlaw stable_holds h
  · intro s t h
    refine succeeds_bind (wp_deactivate hlaw h) ?_
    intro _ s t h
    exact wp_clearCache hlaw h

theorem wp_select (hlaw : ∀ events : List (Event M), Law a events) (who : Caller) :
    wp (contract a) (.perform (Act.select who)) (Returns fun _ => Idle) s t := by
  refine wp_act (J := fun _ => True) trivial (fun _ _ _ => id) ?_
  intro c s hi _
  unfold Act.select
  dsimp only
  split
  · rename_i hsession hfree
    refine ⟨⟨rfl, hi.select, ?_, fun _ => hlaw _, fun _ => rfl⟩, .ok ?_⟩
    · exact later_of_selecting (.refl _) (fun _ => id) (.inl hfree)
    · refine ⟨⟨rfl, ?_, (hi.idle hfree).1⟩, (hi.idle hfree).2⟩
      cases ha : s.active with
      | none => rfl
      | some context =>
        have he := hi.active context ha
        rw [(hi.idle hfree).1] at he
        cases he
  · refine ⟨⟨rfl, hi, fun q _ => .refl q s, fun _ => hlaw _, fun _ => rfl⟩, .error⟩

theorem wp_releaseSelection (hlaw : ∀ events : List (Event M), Law a events) (h : Left s t) :
    wp (contract a) (.perform Act.release) (fun _ _ _ => True) s t := by
  refine wp_act (J := fun s => Left s t) h (fun s s' hl => stable_left s s' t t rfl hl) ?_
  rintro c s hi ⟨root, h, hclean, hshut⟩
  refine ⟨⟨rfl, hi.release h.entered h.active hclean hshut, ?_, fun _ => hlaw _, fun _ => rfl⟩, trivial⟩
  refine later_of_selecting (.refl _) ?_ (.inr h.selecting)
  intro r hr
  refine .inr ?_
  rw [show ((Act.release : Act T M Unit).next c s t).2.1.ended = _ from ended_exit _]
  rcases hr with hr | hr
  · exact List.mem_append_right _ (by simpa using hr)
  · exact List.mem_append_left _ hr

end

/-! ### The calls that keep to the scopes -/

section

variable [LinearOrder T] (clock : Clock T) [Add T] (timeout : T) (c : Coordinator)
  {s : Shared T} {t : Thread M}

theorem wp_boundRequest {a : Task T} (hlaw : ∀ events : List (Event M), Law a events) (who : Caller)
    (identity : RequestIdentity) (sessionId : String) {body : SessionWriteContext → Code T M Unit}
    (hbody : ∀ root s t, Bound root.lease s t →
      wp (contract a) (body root) (fun _ => Cleared root.lease) s t) (h : Idle s t) :
    wp (contract a) (boundRequest clock identity timeout who sessionId body) (fun _ => Left) s t := by
  have hleft : ∀ (s : Shared T) (t : Thread M), Idle s t → Left s t := fun _ _ => Idle.left
  refine always_bind (wp_calm (each_renamed (calmly_lift _) _) hlaw stable_idle h) ?_ hleft
  intro _ s t h
  refine always_bind (wp_calm (.perform calmly_uuid) hlaw stable_idle h) ?_ hleft
  intro requestId s t h
  refine always_bind (wp_calm (each_renamed (calmly_lift _) _) hlaw stable_idle h) ?_ hleft
  intro _ s t h
  refine succeeds_bind (wp_bindLease clock timeout hlaw h) ?_
  intro lease s t h
  refine always_bind (wp_calm (.perform calmly_resolve) hlaw stable_bound h) ?_ fun _ _ => Bound.left
  intro database s t h
  exact wp_leased clock hlaw (hbody _ s t h)

theorem wp_authenticatedRequest (who : Caller) (identity : RequestIdentity) :
    wp (contract (.request who identity)) (authenticatedRequest clock c identity timeout who)
      (fun _ _ _ => True) s t := by
  have hlaw : ∀ events : List (Event M), Law (.request who identity : Task T) events := fun _ => trivial
  refine always_bind (wp_calm (calmly_lift _) hlaw stable_true trivial) ?_ fun _ _ h => h
  intro _ s t _
  refine wp_bind (wp_select hlaw who) ?_ fun _ _ _ _ => trivial
  intro _ s t h
  have h := h () rfl
  refine always_ensuring (J := Left) ?_ fun s t h => wp_releaseSelection hlaw h
  refine always_mapError ?_ fun e s t h => wp_calm (each_requestError e) hlaw stable_left h
  refine wp_exclusive hlaw stable_idle stable_left (fun _ _ => Idle.left) ?_ h
  intro s t h
  refine always_bind (wp_calm (each_validatedEntry c identity) hlaw stable_idle h) ?_ fun _ _ => Idle.left
  intro entry s t h
  refine always_bind (wp_calm (each_authorize identity _ _) hlaw stable_idle h) ?_ fun _ _ => Idle.left
  intro _ s t h
  refine always_bind (wp_calm (each_requestBinding clock timeout identity _) hlaw stable_idle h) ?_
    fun _ _ => Idle.left
  intro _ s t h
  exact wp_boundRequest clock timeout hlaw who identity _ (fun root s t => wp_conversation hlaw entry) h

omit [LinearOrder T] [Add T] in
theorem wp_refill (identity : RequestIdentity) (entry : SessionEntry) :
    wp (contract (.read identity)) (.perform (Act.refill entry)) (fun _ _ _ => True) s t := by
  refine wp_act (J := fun _ => True) trivial (fun _ _ _ => id) ?_
  intro c s hi _
  refine ⟨⟨rfl, hi.refill _, ?_, fun _ => trivial, nofun⟩, trivial⟩
  intro q _
  exact ⟨.refl _, fun _ => id, id, fun _ => rfl, fun _ => rfl, fun _ => rfl,
    fun _ _ => .inr (Nat.succ_ne_zero _)⟩

theorem wp_read (identity : RequestIdentity) :
    wp (contract (.read identity)) (read c identity) (fun _ _ _ => True) s t := by
  have hlaw : ∀ events : List (Event M), Law (.read identity : Task T) events := fun _ => trivial
  refine always_mapError ?_ fun e s t h => wp_calm (each_readError e) hlaw stable_true h
  refine always_bind (wp_calm (calmly_lift _) hlaw stable_true trivial) ?_ fun _ _ h => h
  intro _ s t _
  refine wp_exclusive hlaw stable_true stable_true (fun _ _ h => h) ?_ trivial
  intro s t _
  refine always_bind (wp_calm (each_validatedEntry c identity) hlaw stable_true trivial) ?_ fun _ _ h => h
  intro entry s t _
  exact always_bind (wp_refill identity entry) (fun _ _ _ _ => trivial) fun _ _ h => h

end

end

end ProjectMaya.Reader
