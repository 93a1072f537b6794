import ProjectMaya.LeaseChain
import ProjectMaya.LocalApi
import ProjectMaya.Logic.Covenant

/-! # Requests that run under a binding

The lock of the binding is held from before the audit record until the context is gone, so at
most one thread is inside `agent.run` (`Inv`), and whoever enters it has bound what the binding
says (`Entitled`).  However a request ends, its context variables are as they were and its
lease is shut (`Returned`), and stays shut (`bound_requests`). -/

namespace ProjectMaya.LocalApi

open Logic

section

variable {T ν : Type}

/-- Only the thread that holds the lock is inside `agent.run`. -/
def Inv (s : Shared T) : Prop := s.running = [] ∨ ∃ p, s.locked = some p ∧ s.running = [p]

/-- What a thread can count on while the others act. -/
structure Later (me : Nat) (s s' : Shared T) : Prop where
  grows : s.leases.Grows s'.leases
  locked : s.locked = some me → s'.locked = some me
  running : s.locked = some me → s'.running = s.running

theorem Later.refl (me : Nat) (s : Shared T) : Later me s s :=
  ⟨Leases.Grows.refl _, id, fun _ => rfl⟩

theorem Later.trans {me : Nat} {s s' s'' : Shared T} (h : Later me s s') (h' : Later me s' s'') :
    Later me s s'' where
  grows := h.grows.trans h'.grows
  locked hs := h'.locked (h.locked hs)
  running hs := (h'.running (h.locked hs)).trans (h.running hs)

/-- A thread that holds the lock, or takes it, disturbs nobody. -/
theorem later_of_locked {me : Nat} {s s' : Shared T} (hgrows : s.leases.Grows s'.leases)
    (hfree : s.locked = none ∨ s.locked = some me) : ∀ q, q ≠ me → Later q s s' := by
  intro q hq
  have hne : s.locked ≠ some q := by
    rcases hfree with h | h <;> rw [h]
    · simp
    · rintro ⟨⟩
      exact hq rfl
  exact ⟨hgrows, fun h => absurd h hne, fun h => absurd h hne⟩

section

variable {files : ResolvedPath → ResolvedPath} (b : Binding T files)

/-- The context of a request under the binding. -/
structure Fits (context : SessionWriteContext) : Prop where
  identity : context.identity = b.owner
  sessionId : context.sessionId = b.sessionId
  database : context.database = b.database
  operations : context.operations = b.operations

/-- The record that admits a request. -/
def admission (requestId : String) : Event := .wrote (Reader.requestRecord b.owner b.sessionId requestId)

/-- Whoever has entered `agent.run` had the owner's identity and a context of the binding bound,
after the record of that request was written. -/
def Entitled (events : List Event) : Prop :=
  ∀ earlier vars call, earlier ++ [.entered vars call] <+: events →
    vars.identity = some b.owner ∧ ∃ context, vars.session = some context ∧ Fits b context ∧
      .bound context ∈ earlier ∧ admission b context.requestId ∈ earlier

theorem entitled_nil : Entitled b [] := by
  intro earlier vars call h
  simp at h

theorem Entitled.append {events : List Event} (h : Entitled b events) {e : Event}
    (he : ∀ vars call, e = .entered vars call → vars.identity = some b.owner ∧
      ∃ context, vars.session = some context ∧ Fits b context ∧ .bound context ∈ events ∧
        admission b context.requestId ∈ events) : Entitled b (events ++ [e]) := by
  intro earlier vars call hpre
  rcases List.prefix_concat_iff.1 hpre with heq | hpre
  · obtain ⟨rfl, hsame⟩ := List.append_inj' heq rfl
    exact he vars call (List.singleton_inj.1 hsame).symm
  · exact h earlier vars call hpre

/-- What a turn of a thread may do. -/
structure Step (s : Shared T) (t : Thread) (s' : Shared T) (t' : Thread) : Prop where
  id : t'.id = t.id
  outer : t'.outer = t.outer
  inv : Inv s'
  later : ∀ q, q ≠ t.id → Later q s s'
  entitled : Entitled b t.events → Entitled b t'.events

def contract (_ : Task T) : Contract (Shared T) Thread where
  rely t s s' := Inv s' ∧ Later t.id s s'
  guar := Step b

end

/-! ## Assertions -/

/-- An assertion that the others leave alone. -/
def Stable (J : Shared T → Thread → Prop) : Prop :=
  ∀ s s' t, Later t.id s s' → J s t → J s' t

/-- The leases of the contexts that the call has bound are shut. -/
def Ended (s : Shared T) (t : Thread) : Prop :=
  ∀ context, Event.bound context ∈ t.events → s.leases.Shut context.lease

/-- The thread holds the lock, and nobody is inside `agent.run`. -/
structure Locked (s : Shared T) (t : Thread) : Prop where
  locked : s.locked = some t.id
  running : s.running = []

/-- What a call leaves behind. -/
structure Returned (s : Shared T) (t : Thread) : Prop where
  vars : t.vars = t.outer
  ended : Ended s t

/-- No context has been bound yet. -/
structure Unbound (t : Thread) : Prop where
  session : t.vars.session = t.outer.session
  none : ∀ context, Event.bound context ∉ t.events

theorem Unbound.ended {s : Shared T} {t : Thread} (h : Unbound t) : Ended s t :=
  fun context hmem => absurd hmem (h.none context)

/-- A call that began with `outer` has bound nothing. -/
structure Fresh (outer : Vars) (t : Thread) : Prop where
  begun : t.outer = outer
  vars : t.vars = outer
  none : ∀ context, Event.bound context ∉ t.events

theorem Fresh.unbound {outer : Vars} {t : Thread} (h : Fresh outer t) : Unbound t where
  session := by rw [h.vars, h.begun]
  none := h.none

theorem Fresh.returned {outer : Vars} {s : Shared T} {t : Thread} (h : Fresh outer t) : Returned s t :=
  ⟨h.vars.trans h.begun.symm, h.unbound.ended⟩

section

variable {s s' : Shared T} {t : Thread}

theorem Locked.later (h : Locked s t) (hl : Later t.id s s') : Locked s' t :=
  ⟨hl.locked h.locked, (hl.running h.locked).trans h.running⟩

theorem Ended.later (h : Ended s t) (hl : Later t.id s s') : Ended s' t :=
  fun context hmem => (h context hmem).grows Leases.closed_of_evolves hl.grows

theorem Returned.later (h : Returned s t) (hl : Later t.id s s') : Returned s' t :=
  ⟨h.vars, h.ended.later hl⟩

end

/-- Locked, with something that only the thread itself can change. -/
theorem stable_locked {K : Thread → Prop} : Stable fun (s : Shared T) t => Locked s t ∧ K t :=
  fun _ _ _ hl h => ⟨h.1.later hl, h.2⟩

theorem stable_thread {K : Thread → Prop} : Stable fun (_ : Shared T) t => K t := fun _ _ _ _ h => h

theorem stable_ended {K : Thread → Prop} :
    Stable fun (s : Shared T) t => Locked s t ∧ Ended s t ∧ K t :=
  fun _ _ _ hl h => ⟨h.1.later hl, h.2.1.later hl, h.2.2⟩

/-! ## Single actions -/

section

variable {files : ResolvedPath → ResolvedPath} {b : Binding T files} {a : Task T} {α β : Type}
  {s : Shared T} {t : Thread} {J : Shared T → Thread → Prop}

/-- The rule for one action, from an assertion that the others leave alone. -/
theorem wp_act {act : Act T ν β} {Q : Except Exn β → Shared T → Thread → Prop} (hJ : Stable J)
    (hj : J s t)
    (h : ∀ c s, Inv s → J s t → Step b s t (act.next c s t).2.1 (act.next c s t).2.2 ∧
      Q (act.next c s t).1 (act.next c s t).2.1 (act.next c s t).2.2) :
    wp (contract b a) (.perform act) Q s t := by
  refine wp_perform ?_
  rintro s' ⟨hi, hl⟩ c
  exact h c s' hi (hJ s s' t hl hj)

/-- The action leaves the thread as it is, and of the shared state at most lets the leases grow. -/
def Calmly (act : Act T ν β) : Prop :=
  ∀ c s t, ∃ leases, s.leases.Grows leases ∧ (act.next c s t).2 = ({ s with leases }, t)

theorem later_leases {leases : Leases T} (h : s.leases.Grows leases) (q : Nat) :
    Later q s { s with leases } := ⟨h, id, fun _ => rfl⟩

theorem Step.leases {leases : Leases T} (hi : Inv s) (h : s.leases.Grows leases) :
    Step b s t { s with leases } t where
  id := rfl
  outer := rfl
  inv := hi
  later q _ := later_leases h q
  entitled h := h

/-- After a calm action its assertion still holds, with what its result says. -/
theorem wp_calm {act : Act T ν β} (hact : Calmly act) (hJ : Stable J) (hj : J s t)
    {R : Except Exn β → Shared T → Thread → Prop}
    (hR : ∀ c s, J s t → R (act.next c s t).1 (act.next c s t).2.1 (act.next c s t).2.2) :
    wp (contract b a) (.perform act) (fun r s t => J s t ∧ R r s t) s t := by
  refine wp_act hJ hj ?_
  intro c s hi hj
  obtain ⟨leases, hgrows, heq⟩ := hact c s t
  have hr := hR c s hj
  rw [heq] at hr ⊢
  exact ⟨.leases hi hgrows, hJ _ _ _ (later_leases hgrows _) hj, hr⟩

/-- A calm action before a program of which only what it leaves behind matters. -/
theorem wp_calm_bind {act : Act T ν β} {f : β → Code T ν α} {K : Shared T → Thread → Prop}
    {R : β → Shared T → Thread → Prop} (hact : Calmly act) (hJ : Stable J) (hj : J s t)
    (hJK : ∀ s t, J s t → K s t)
    (hR : ∀ c s v, J s t → (act.next c s t).1 = .ok v → R v (act.next c s t).2.1 (act.next c s t).2.2)
    (hf : ∀ v s t, J s t → R v s t → wp (contract b a) (f v) (fun _ => K) s t) :
    wp (contract b a) (.perform act >>= f) (fun _ => K) s t := by
  refine wp_bind (wp_calm hact hJ hj (R := fun r s t => ∀ v, r = .ok v → R v s t) ?_) ?_ ?_
  · exact fun c s hj v hv => hR c s v hj hv
  · exact fun v s t h => hf v s t h.1 (h.2 v rfl)
  · exact fun e s t h => hJK s t h.1

theorem wp_checked_bind {x : Except Raised β} {f : β → Code T ν α}
    {Q : Except Exn α → Shared T → Thread → Prop}
    (hf : ∀ v, x = .ok v → wp (contract b a) (f v) Q s t) (herr : ∀ e, Q (.error e) s t) :
    wp (contract b a) (checked x >>= f) Q s t := by
  cases x with
  | error e => exact herr _
  | ok v => exact hf v rfl

/-- A program of calm actions keeps an assertion. -/
theorem wp_calms {p : Code T ν α} (hp : p.Each Calmly) (hJ : Stable J) (hj : J s t) :
    wp (contract b a) p (fun _ => J) s t := by
  induction p generalizing s t with
  | done r => exact hj
  | step act k ih =>
    rintro s' ⟨hi, hl⟩ c
    obtain ⟨leases, hgrows, heq⟩ := hp.1 c s' t
    rw [heq]
    have hj' := hJ _ _ _ (later_leases hgrows t.id) (hJ s s' t hl hj)
    exact ⟨.leases hi hgrows, ih _ (hp.2 _) hj'⟩

theorem calmly_ask (answer : Choice ν → Except Exn β) : Calmly (Act.ask answer : Act T ν β) :=
  fun _ s _ => ⟨s.leases, .refl _, rfl⟩

theorem calmly_identity : Calmly (Act.identity : Act T ν _) := fun _ s _ => ⟨s.leases, .refl _, rfl⟩

theorem calmly_position : Calmly (Act.position : Act T ν _) := fun _ s _ => ⟨s.leases, .refl _, rfl⟩

theorem calmly_resolve (database : ResolvedPath) :
    Calmly (Act.resolve files database : Act T ν ResolvedPath) := by
  intro c s t
  refine ⟨s.leases, .refl _, ?_⟩
  unfold Act.resolve
  dsimp only
  split <;> rfl

/-- What a change of the thread's own variables and events may do. -/
theorem Step.own {t' : Thread} (hi : Inv s) (hid : t'.id = t.id) (houter : t'.outer = t.outer)
    (he : Entitled b t.events → Entitled b t'.events) : Step b s t s t' where
  id := hid
  outer := houter
  inv := hi
  later q _ := .refl q s
  entitled := he

end

/-! ## The scope of a context -/

section

variable {files : ResolvedPath → ResolvedPath} (b : Binding T files)

/-- The context has been bound, and no other one, in a call that began with `outer`. -/
structure Opened (outer : Vars) (context : SessionWriteContext) (s : Shared T) (t : Thread) : Prop where
  locked : Locked s t
  begun : t.outer = outer
  lease : context.lease < s.leases.nodes.size
  only : ∀ other, Event.bound other ∈ t.events → other = context

/-- A request under the binding, before it enters `agent.run`. -/
structure Bound (outer : Vars) (context : SessionWriteContext) (s : Shared T) (t : Thread) : Prop where
  opened : Opened outer context s t
  vars : t.vars = { identity := some b.owner, session := some context }
  fits : Fits b context
  bound : Event.bound context ∈ t.events
  admitted : admission b context.requestId ∈ t.events

/-- What a scope needs: the owner is bound and admitted, and no context is bound yet. -/
structure Admitted (outer : Vars) (requestId : String) (t : Thread) : Prop extends Unbound t where
  begun : t.outer = outer
  identity : t.vars.identity = some b.owner
  admitted : admission b requestId ∈ t.events

/-- What a scope leaves behind. -/
structure Left (outer : Vars) (s : Shared T) (t : Thread) : Prop where
  locked : Locked s t
  ended : Ended s t
  begun : t.outer = outer
  session : t.vars.session = outer.session

variable {outer : Vars} {context : SessionWriteContext}

theorem stable_opened : Stable (Opened outer context : Shared T → Thread → Prop) :=
  fun _ _ _ hl h => ⟨h.locked.later hl, h.begun, Forest.Grows.size_le hl.grows h.lease, h.only⟩

theorem stable_bound : Stable (Bound b outer context) :=
  fun s s' t hl h => ⟨stable_opened s s' t hl h.opened, h.vars, h.fits, h.bound, h.admitted⟩

theorem stable_left : Stable (Left outer : Shared T → Thread → Prop) :=
  fun _ _ _ hl h => ⟨h.locked.later hl, h.ended.later hl, h.begun, h.session⟩

end

section

variable {files : ResolvedPath → ResolvedPath} {b : Binding T files} {a : Task T} {α β : Type}
  {s : Shared T} {t : Thread} {outer : Vars} {context : SessionWriteContext} {requestId : String}

theorem Admitted.left (hl : Locked s t) (h : Admitted b outer requestId t) :
    Left outer s t := ⟨hl, h.toUnbound.ended, h.begun, h.begun ▸ h.session⟩

/-- Everything is ready for the scope of a context. -/
structure Ready (b : Binding T files) (outer : Vars) (context : SessionWriteContext) (s : Shared T)
    (t : Thread) : Prop where
  locked : Locked s t
  admitted : Admitted b outer context.requestId t
  fits : Fits b context
  lease : context.lease < s.leases.nodes.size

theorem stable_ready : Stable (Ready b outer context) :=
  fun _ _ _ hl h => ⟨h.locked.later hl, h.admitted, h.fits, Forest.Grows.size_le hl.grows h.lease⟩

theorem wp_setSession (h : Ready b outer context s t) :
    wp (contract b a) (.perform (Act.setSession context : Act T ν _))
      (Succeeds fun token s t => token = outer.session ∧ Bound b outer context s t) s t := by
  refine wp_act stable_ready h ?_
  intro c s hi h
  refine ⟨Step.own hi rfl rfl fun h => h.append b nofun, _, rfl, h.admitted.begun ▸ h.admitted.session,
    ⟨⟨h.locked.locked, h.locked.running⟩, h.admitted.begun, h.lease, ?_⟩, ?_, h.fits, ?_, ?_⟩
  · intro other hmem
    rcases List.mem_append.1 hmem with hmem | hmem
    · exact absurd hmem (h.admitted.none other)
    · simpa using hmem
  · show (⟨t.vars.identity, some context⟩ : Vars) = _
    rw [h.admitted.identity]
  · exact List.mem_append_right _ List.mem_cons_self
  · exact List.mem_append_left _ h.admitted.admitted

theorem wp_resetSession (h : Locked s t ∧ Ended s t ∧ t.outer = outer) :
    wp (contract b a) (.perform (Act.resetSession outer.session : Act T ν Unit))
      (Succeeds fun _ => Left outer) s t := by
  refine wp_act (stable_ended (K := fun t => t.outer = outer)) h ?_
  rintro c s hi ⟨hlocked, hended, houter⟩
  exact ⟨Step.own hi rfl rfl fun h => h, (), rfl, ⟨hlocked.locked, hlocked.running⟩, hended, houter, rfl⟩

/-! ## The scope of an identity -/

/-- A call that holds the lock and leaves nothing behind. -/
structure Restored (outer : Vars) (s : Shared T) (t : Thread) : Prop where
  locked : Locked s t
  ended : Ended s t
  begun : t.outer = outer
  vars : t.vars = outer

theorem Fresh.restored (hl : Locked s t) (h : Fresh outer t) : Restored outer s t :=
  ⟨hl, h.unbound.ended, h.begun, h.vars⟩

theorem stable_restored : Stable (Restored outer : Shared T → Thread → Prop) :=
  fun _ _ _ hl h => ⟨h.locked.later hl, h.ended.later hl, h.begun, h.vars⟩

/-- A call with its admission on record. -/
structure Pending (b : Binding T files) (outer : Vars) (requestId : String) (t : Thread) : Prop
    extends Fresh outer t where
  admitted : admission b requestId ∈ t.events

theorem wp_setIdentity (h : Locked s t ∧ Pending b outer requestId t) :
    wp (contract b a) (.perform (Act.setIdentity b.owner : Act T ν _))
      (Succeeds fun token s t => token = outer.identity ∧ Locked s t ∧ Admitted b outer requestId t) s t := by
  refine wp_act stable_locked h ?_
  rintro c s hi ⟨hlocked, h⟩
  refine ⟨Step.own hi rfl rfl fun h => h, _, rfl, congrArg Vars.identity h.vars,
    ⟨hlocked.locked, hlocked.running⟩, ⟨h.toFresh.unbound.session, h.none⟩, h.begun, rfl, h.admitted⟩

theorem wp_resetIdentity (h : Left outer s t) :
    wp (contract b a) (.perform (Act.resetIdentity outer.identity : Act T ν Unit))
      (fun _ => Restored outer) s t := by
  refine wp_act stable_left h ?_
  intro c s hi h
  refine ⟨Step.own hi rfl rfl fun h => h, ⟨h.locked.locked, h.locked.running⟩, h.ended, h.begun, ?_⟩
  show (⟨outer.identity, t.vars.session⟩ : Vars) = outer
  rw [h.session]

/-- **`bind_request_identity`** of the owner gives the identity back that was bound before. -/
theorem wp_bindRequestIdentity {body : Code T ν α}
    (hbody : ∀ s t, Locked s t ∧ Admitted b outer requestId t →
      wp (contract b a) body (fun _ => Left outer) s t)
    (h : Locked s t ∧ Pending b outer requestId t) :
    wp (contract b a) (bindRequestIdentity b.owner.actorId b.owner.dataClassification body)
      (fun _ => Restored outer) s t := by
  refine wp_checked_bind ?_ fun _ => h.2.toFresh.restored h.1
  intro identity hidentity
  obtain rfl : b.owner = identity := by
    unfold requestIdentity at hidentity
    simp only [bind_eq_ok, ensure_eq_ok, pure_eq_ok] at hidentity
    obtain ⟨-, -, -, -, rfl⟩ := hidentity
    rfl
  refine succeeds_bind (wp_setIdentity h) ?_
  rintro _ s t ⟨rfl, h⟩
  exact always_ensuring (hbody s t h) fun s t h => wp_resetIdentity h

/-! ## The lock and the record -/

/-- The record of the request is written, or nothing has happened. -/
theorem wp_admitted (h : Locked s t ∧ Fresh outer t) :
    wp (contract b a) (anyAs "governance.audit_unavailable"
      (.perform (Act.write (Reader.requestRecord b.owner b.sessionId requestId) : Act T ν Unit)))
      (fun r s t => match r with
        | .ok _ => Locked s t ∧ Pending b outer requestId t
        | .error _ => Locked s t ∧ Fresh outer t) s t := by
  refine wp_mapError (P := fun r s t => match r with
    | .ok _ => Locked s t ∧ Pending b outer requestId t
    | .error _ => Locked s t ∧ Fresh outer t) ?_ (fun _ _ _ h => h) fun _ _ _ h => h
  refine wp_act stable_locked h ?_
  rintro c s hi ⟨hlocked, h⟩
  unfold Act.write
  dsimp only
  split
  · refine ⟨Step.own hi rfl rfl fun h => h.append b nofun, ⟨hlocked.locked, hlocked.running⟩,
      ⟨h.begun, h.vars, ?_⟩, List.mem_append_right _ List.mem_cons_self⟩
    intro context hmem
    rcases List.mem_append.1 hmem with hmem | hmem
    · exact h.none context hmem
    · simp at hmem
  · exact ⟨Step.own hi rfl rfl fun h => h, hlocked, h⟩

theorem wp_acquire (h : Fresh outer t) :
    wp (contract b a) (.perform (Act.acquire : Act T ν Unit))
      (fun r s t => match r with
        | .ok _ => Locked s t ∧ Fresh outer t
        | .error _ => Fresh outer t) s t := by
  refine wp_act (stable_thread (T := T)) h ?_
  intro c s hi h
  unfold Act.acquire
  dsimp only
  split
  · rename_i hfree
    have hrunning : s.running = [] := by
      rcases hi with hi | ⟨p, hp, -⟩
      · exact hi
      · rw [hfree] at hp
        cases hp
    exact ⟨⟨rfl, rfl, .inl hrunning, later_of_locked (.refl _) (.inl hfree), fun h => h⟩, ⟨rfl, hrunning⟩, h⟩
  · exact ⟨Step.own hi rfl rfl fun h => h, h⟩

theorem wp_release (h : Restored outer s t) :
    wp (contract b a) (.perform (Act.release : Act T ν Unit)) (fun _ => Returned) s t := by
  refine wp_act stable_restored h ?_
  intro c s hi h
  exact ⟨⟨rfl, rfl, .inl h.locked.running, later_of_locked (.refl _) (.inr h.locked.locked), fun h => h⟩,
    h.vars.trans h.begun.symm, h.ended⟩

/-! ## `agent.run` -/

/-- The thread is inside `agent.run`. -/
structure Inside (outer : Vars) (context : SessionWriteContext) (s : Shared T) (t : Thread) : Prop where
  locked : s.locked = some t.id
  running : s.running = [t.id]
  begun : t.outer = outer
  lease : context.lease < s.leases.nodes.size
  only : ∀ other, Event.bound other ∈ t.events → other = context

theorem stable_inside : Stable (Inside outer context : Shared T → Thread → Prop) :=
  fun _ _ _ hl h => ⟨hl.locked h.locked, (hl.running h.locked).trans h.running, h.begun,
    Forest.Grows.size_le hl.grows h.lease, h.only⟩

theorem wp_enterRun (call : AgentCall) (h : Bound b outer context s t) :
    wp (contract b a) (.perform (Act.enterRun call : Act T ν Unit))
      (Succeeds fun _ => Inside outer context) s t := by
  refine wp_act (stable_bound b) h ?_
  intro c s hi h
  have hlocked := h.opened.locked
  have hrunning : s.running ++ [t.id] = [t.id] := by rw [hlocked.running, List.nil_append]
  refine ⟨⟨rfl, rfl, .inr ⟨t.id, hlocked.locked, hrunning⟩, later_of_locked (.refl _) (.inr hlocked.locked),
    fun he => he.append b ?_⟩, (), rfl, hlocked.locked, hrunning, h.opened.begun, h.opened.lease, ?_⟩
  · rintro _ _ ⟨⟩
    rw [h.vars]
    exact ⟨rfl, context, rfl, h.fits, h.bound, h.admitted⟩
  · intro other hmem
    rcases List.mem_append.1 hmem with hmem | hmem
    · exact h.opened.only other hmem
    · simp at hmem

theorem wp_leaveRun (h : Inside outer context s t) :
    wp (contract b a) (.perform (Act.leaveRun : Act T ν _)) (fun _ => Opened outer context) s t := by
  refine wp_act stable_inside h ?_
  intro c s hi h
  have hrunning : s.running.erase t.id = [] := by rw [h.running, List.erase_cons_head]
  exact ⟨⟨rfl, rfl, .inl hrunning, later_of_locked (.refl _) (.inr h.locked), fun h => h⟩,
    ⟨h.locked, hrunning⟩, h.begun, h.lease, h.only⟩

theorem wp_agentRun (call : AgentCall) (h : Bound b outer context s t) :
    wp (contract b a) (agentRun call : Code T ν _) (fun _ => Opened outer context) s t := by
  refine succeeds_bind (wp_enterRun call h) ?_
  exact fun _ s t h => wp_leaveRun h

/-- What catches exceptions of a call leaves nothing behind either. -/
theorem wp_caught {p : Code T ν α} {f : Except Exn α → Code T ν β}
    (hp : wp (contract b a) p (fun _ => Returned) s t)
    (hf : ∀ r, ∃ r', f r = .done r') : wp (contract b a) (p.andThen f) (fun _ => Returned) s t := by
  refine wp_andThen (wp_mono hp ?_)
  intro r s t h
  obtain ⟨r', hr⟩ := hf r
  rw [hr]
  exact h

theorem wp_health (loc : Broker.Locale) (request : Request) (h : Fresh outer t) :
    wp (contract b a) (health loc request : Code T ν _) (fun _ => Returned) s t := by
  unfold health
  split
  · exact h.returned
  · have hask := wp_calms (b := b) (a := a) (.perform (calmly_ask (ν := ν) Choice.health))
      (stable_thread (T := T)) h (s := s)
    exact always_bind hask (fun _ _ _ h => h.returned) fun _ _ h => h.returned

/-! ## The lease of a context -/

variable [LinearOrder T] (clock : Clock T) [Add T]

theorem calmly_bindLease (timeout : T) : Calmly (Act.bindLease clock timeout : Act T ν Nat) :=
  fun _ s _ => ⟨_, Leases.step_grows clock s.leases (.bind (some timeout)), rfl⟩

/-- The end of a scope: its lease is shut. -/
theorem wp_leaveLease (result : Except Exn α) (h : Opened outer context s t) :
    wp (contract b a) (.perform (Act.leaveLease clock context.lease result : Act T ν Unit))
      (Succeeds fun _ s t => Locked s t ∧ Ended s t ∧ t.outer = outer) s t := by
  refine wp_act stable_opened h ?_
  intro c s hi h
  have hgrows := fun exit => Leases.step_grows clock s.leases (.exitScope context.lease exit)
  refine ⟨Step.leases hi (hgrows _), (), rfl, ⟨h.locked.locked, h.locked.running⟩, ?_, h.begun⟩
  intro other hmem
  rw [h.only other hmem]
  exact Leases.exitScope_closes clock h.lease _

/-- **The scope of a context**: whatever happens in its body, its lease is shut and the variable
is what it was. -/
theorem wp_sessionScope {body : Code T ν α}
    (hbody : ∀ s t, Bound b outer context s t →
      wp (contract b a) body (fun _ => Opened outer context) s t)
    (h : Ready b outer context s t) :
    wp (contract b a) (sessionScope clock context body) (fun _ => Left outer) s t := by
  refine succeeds_bind (wp_setSession h) ?_
  rintro _ s t ⟨rfl, h⟩
  refine wp_andThen (wp_mono (hbody s t h) ?_)
  intro result s t h
  refine succeeds_bind (wp_leaveLease clock result h) ?_
  intro _ s t h
  refine succeeds_bind (wp_resetSession h) ?_
  exact fun _ s t h => h

variable [OfNat T 0] [OfNat T 3600]

/-- **`bind_session_write`** leaves nothing of its context behind, whether it gets to its body or
not. -/
theorem wp_bindSessionWrite {body : Code T ν α}
    (hbody : ∀ context s t, Bound b outer context s t →
      wp (contract b a) body (fun _ => Opened outer context) s t)
    (h : Locked s t ∧ Admitted b outer requestId t) :
    wp (contract b a) (bindSessionWrite clock requestId b body) (fun _ => Left outer) s t := by
  have hleft : ∀ s t, Locked s t ∧ Admitted b outer requestId t → Left outer s t :=
    fun s t h => h.2.left h.1
  refine wp_calm_bind calmly_identity stable_locked h hleft
    (R := fun v _ t => v = t.vars.identity) (fun _ _ _ _ h => (Except.ok.inj h).symm) ?_
  rintro bound s t h rfl
  refine wp_checked_bind ?_ fun _ => hleft s t h
  intro identity hidentity
  obtain rfl : b.owner = identity := by
    rw [h.2.identity] at hidentity
    exact Except.ok.inj hidentity
  refine wp_checked_bind ?_ fun _ => hleft s t h
  intro _ _
  refine wp_calm_bind (calmly_bindLease clock _) stable_locked h hleft
    (R := fun lease s _ => lease < s.leases.nodes.size) ?_ ?_
  · rintro c s _ - ⟨⟩
    show s.leases.nodes.size < (s.leases.bindSessionWrite clock _).nodes.size
    rw [Leases.size_bindSessionWrite]
    omega
  intro lease s t h hlt
  have hJ : Stable fun (s : Shared T) t =>
      (Locked s t ∧ Admitted b outer requestId t) ∧ lease < s.leases.nodes.size :=
    fun _ _ _ hl h => ⟨⟨h.1.1.later hl, h.1.2⟩, Forest.Grows.size_le hl.grows h.2⟩
  refine wp_calm_bind (calmly_resolve _) hJ ⟨h, hlt⟩ (fun s t h => hleft s t h.1)
    (R := fun database _ _ => database = b.database) ?_ ?_
  · intro c s database _ hdatabase
    unfold Act.resolve at hdatabase
    dsimp only at hdatabase
    split at hdatabase
    · rw [← Except.ok.inj hdatabase, b.resolved]
    · cases hdatabase
  rintro _ s t h rfl
  refine wp_calm_bind calmly_position hJ h (fun s t h => hleft s t h.1) (R := fun _ _ _ => True)
    (fun _ _ _ _ _ => trivial) ?_
  intro position s t h _
  exact wp_sessionScope clock (hbody _) ⟨h.1.1, h.1.2, ⟨rfl, rfl, rfl, rfl⟩, h.2⟩

/-! ## The request around it -/

theorem wp_lockedRequest {body : Code T ν α}
    (hbody : ∀ context s t, Bound b outer context s t →
      wp (contract b a) body (fun _ => Opened outer context) s t)
    (h : Locked s t ∧ Fresh outer t) :
    wp (contract b a) (lockedRequest clock b b.owner body) (fun _ => Restored outer) s t := by
  have hrestored : ∀ (s : Shared T) t, Locked s t ∧ Fresh outer t → Restored outer s t :=
    fun s t h => h.2.restored h.1
  refine wp_calm_bind (calmly_ask _) stable_locked h hrestored (R := fun _ _ _ => True)
    (fun _ _ _ _ _ => trivial) ?_
  intro requestId s t h _
  refine wp_bind (wp_admitted h) ?_ fun _ s t h => h.2.restored h.1
  intro _ s t h
  exact wp_bindRequestIdentity (fun s t => wp_bindSessionWrite clock hbody) h

/-- **`authenticated_request`** gives the lock back with everything it has bound. -/
theorem wp_authenticatedRequest {body : Code T ν α} (identity : RequestIdentity)
    (hbody : ∀ context s t, Bound b outer context s t →
      wp (contract b a) body (fun _ => Opened outer context) s t)
    (h : Fresh outer t) :
    wp (contract b a) (authenticatedRequest clock b identity body) (fun _ => Returned) s t := by
  have hreturned : ∀ (s : Shared T) (t : Thread), Fresh outer t → Returned s t := fun _ _ => Fresh.returned
  refine wp_bind (P := fun r s t => Fresh outer t ∧ (r = .ok () → identity = b.owner)) ?_ ?_ ?_
  · exact wp_raiseIf (fun _ => ⟨h, nofun⟩) fun hne => ⟨h, fun _ => not_not.1 hne⟩
  · rintro _ s t ⟨h, howner⟩
    obtain rfl := howner rfl
    refine always_bind (J := fun _ t => Fresh outer t) ?_ ?_ hreturned
    · refine always_mapError (K := fun _ t => Fresh outer t) ?_ fun _ _ _ h => h
      refine always_bind (wp_calms (.perform (calmly_ask _)) stable_thread h) ?_ fun _ _ h => h
      exact fun _ s t h => wp_raiseIf (fun _ => h) fun _ => h
    intro _ s t h
    refine wp_bind (wp_acquire h) ?_ fun _ s t h => hreturned s t h
    intro _ s t h
    exact always_ensuring (wp_lockedRequest clock hbody h) fun s t h => wp_release h
  · exact fun _ s t h => hreturned s t h.1

/-! ## `handle` -/

theorem wp_runAgent (maxBodyBytes : Nat) (identity : Option RequestIdentity) (input : RunInput)
    (h : Fresh outer t) :
    wp (contract b a) (runAgent clock { maxBodyBytes, binding := some b } identity input : Code T ν _)
      (fun _ => Returned) s t := by
  unfold runAgent
  cases identity with
  | none => exact h.returned
  | some identity =>
    dsimp only
    split
    · exact h.returned
    · refine wp_caught ?_ ?_
      · refine always_bind (wp_authenticatedRequest clock identity
          (fun context s t => wp_agentRun _) h) (fun _ _ _ h => h) fun _ _ h => h
      · intro r
        rcases r with (_ | _ | _ | _ | _ | _) | _ <;> exact ⟨_, rfl⟩

variable (loc : Broker.Locale) (loads : Loads ν)

theorem wp_runRequest (maxBodyBytes : Nat) (request : Request) (identity : Option RequestIdentity)
    (h : Fresh outer t) :
    wp (contract b a) (runRequest loc clock { maxBodyBytes, binding := some b } loads request identity)
      (fun _ => Returned) s t := by
  unfold runRequest
  split
  · exact h.returned
  · split
    · exact h.returned
    · exact h.returned
    · exact h.returned
    · split
      · exact h.returned
      · exact wp_runAgent clock maxBodyBytes identity _ h
    · exact h.returned

theorem wp_sessionBinding (maxBodyBytes : Nat) (request : Request) (identity : Option RequestIdentity)
    (h : Fresh outer t) :
    wp (contract b a) (sessionBinding loc clock { maxBodyBytes, binding := some b } request identity : Code T ν _)
      (fun _ => Returned) s t := by
  unfold sessionBinding
  split
  · exact h.returned
  · cases identity with
    | none => exact h.returned
    | some identity =>
      refine wp_caught (wp_authenticatedRequest clock identity (fun context s t h => h.opened) h) ?_
      intro r
      rcases r with (_ | _ | _ | _ | _ | _) | _ <;> exact ⟨_, rfl⟩

theorem wp_route (maxBodyBytes : Nat) (request : Request) (identity : Option RequestIdentity)
    (h : Fresh outer t) :
    wp (contract b a) (route loc clock { maxBodyBytes, binding := some b } loads request identity)
      (fun _ => Returned) s t := by
  unfold route
  dsimp only
  split
  · exact h.returned
  · split
    · exact h.returned
    · split
      · exact wp_health loc request h
      · split
        · exact wp_runRequest clock loc loads maxBodyBytes request identity h
        · split
          · exact wp_sessionBinding clock loc maxBodyBytes request identity h
          · exact h.returned

/-- **`handle`**: whatever it answers or raises, nothing that it bound is left. -/
theorem wp_handle (maxBodyBytes : Nat) (request : Request) (h : Fresh outer t) :
    wp (contract b a) (handle loc clock { maxBodyBytes, binding := some b } loads request)
      (fun _ => Returned) s t := by
  unfold handle
  split
  · exact h.returned
  · have hasked : wp (contract b a)
        (authenticate { maxBodyBytes, binding := some b } : Code T ν (Bool × Option RequestIdentity))
        (fun _ _ t => Fresh outer t) s t := by
      refine wp_andThen (wp_mono (wp_calms (.perform (calmly_ask _)) (stable_thread (T := T)) h) ?_)
      intro r s t h
      cases r with
      | ok identity => exact h
      | error e =>
        dsimp only
        split <;> exact h
    refine always_bind hasked ?_ fun _ _ h => h.returned
    rintro ⟨authenticated, identity⟩ s t h
    dsimp only
    split
    · exact wp_route clock loc loads maxBodyBytes request identity h
    · exact h.returned

/-! ## Runs -/

/-- What the threads owe each other. -/
def covenant (b : Binding T files) (maxBodyBytes : Nat) :
    Covenant (threads loc clock { maxBodyBytes, binding := some b } loads) where
  inv := Inv
  own p t := t.id = p ∧ Entitled b t.events
  law _ _ := True
  contract := contract b
  post _ _ := Returned
  own_enter _ _ h := ⟨h.1, entitled_nil b⟩
  law_enter _ _ := trivial
  enter _ task s t _ _ := by
    have h : Fresh t.vars ({ t with outer := t.vars, events := [] } : Thread) := ⟨rfl, rfl, nofun⟩
    cases task with
    | handle request =>
      exact always_bind (wp_handle clock loc loads maxBodyBytes request h) (fun _ _ _ h => h) fun _ _ h => h
    | lease call =>
      have hcalm : Calmly (Act.lease clock call : Act T ν Unit) :=
        fun _ s _ => ⟨_, Leases.step_grows clock s.leases call, rfl⟩
      exact always_bind (wp_calms (.perform hcalm) stable_thread h) (fun _ _ _ h => h.returned)
        fun _ _ h => h.returned
  rely_refl _ _ s hi := ⟨hi, .refl _ s⟩
  rely_trans _ _ _ _ _ h h' := ⟨h'.1, h.2.trans h'.2⟩
  post_stable _ _ _ _ _ h hl := h.later hl.2
  keep _ _ _ _ _ _ _ hown _ hg := ⟨hg.inv, ⟨hg.id.trans hown.1, hg.entitled hown.2⟩, trivial⟩
  keep_die _ _ _ hi hown := ⟨hi, hown.1, entitled_nil b⟩
  rely_guar p q _ _ l _ m _ _ hne _ hp hq hg :=
    ⟨hg.inv, hg.later l.id (by rw [show l.id = p from hp.1, show m.id = q from hq.1]; exact hne)⟩
  rely_die _ _ _ _ s _ _ hi _ _ := ⟨hi, .refl _ s⟩

/-- A thread at rest has nothing bound, and the contexts of its last call are over. -/
def resting (b : Binding T files) (maxBodyBytes : Nat) : (covenant clock loc loads b maxBodyBytes).Resting where
  rest s t := t.vars = {} ∧ Ended s t
  busy t := t.outer = {}
  start _ _ h := h.1
  act _ _ _ _ _ hg h := hg.outer.trans h
  finish _ _ _ _ h hbusy := ⟨h.vars.trans hbusy, h.ended⟩
  die _ _ := ⟨rfl, nofun⟩
  stable _ _ _ _ h hl := ⟨h.1, h.2.later hl.2⟩
  alone _ _ _ _ _ _ _ _ h := h

/-- The leases of the process only grow. -/
theorem grows_run (b : Binding T files) (maxBodyBytes : Nat)
    {c : Config (Choice ν) (Shared T) Thread Exn (Task T) (Option (Response ν))}
    (hc : (covenant clock loc loads b maxBodyBytes).Good c) (turns : List (Turn (Choice ν) (Task T))) :
    c.shared.leases.Grows ((threads loc clock { maxBodyBytes, binding := some b } loads).run c turns).shared.leases := by
  refine (covenant clock loc loads b maxBodyBytes).run_shared (Q := fun _ => True)
    (J := fun s => c.shared.leases.Grows s.leases) ?_ (fun _ _ h => h) hc (.refl _)
    (fun _ _ _ _ => trivial) fun _ _ => trivial
  intro p a s t s' t' _ _ hg h
  exact h.trans (hg.later (t.id + 1) (by omega)).grows

/-- **Bound requests.**  In every run of threads that call `handle` of one `LocalAPI` with a
binding, and work on leases:
at most one thread is inside `agent.run`;
whoever has entered it had the owner bound and a context of the bound session, database and
operations, after the record that admits this request was written;
a thread that is back from its call has no identity and no session bound, and every lease at or
below that of a context which the call has bound is inactive, then and after any further turns. -/
theorem bound_requests (b : Binding T files) (maxBodyBytes : Nat) (tasks : Nat → Option Nat)
    (turns : List (Turn (Choice ν) (Task T))) :
    let sys := threads loc clock { maxBodyBytes, binding := some b } loads
    let c := sys.run (.initial {} fun p => { id := p, task := tasks p }) turns
    c.shared.running.length ≤ 1 ∧
    (∀ p, Entitled b (c.host p).loc.events) ∧
    ∀ p, (c.host p).running = none →
      (c.host p).loc.vars = {} ∧
      ∀ context, Event.bound context ∈ (c.host p).loc.events → ∀ later i,
        (sys.run c later).shared.leases.nodes.Below i context.lease →
        ((sys.run c later).shared.leases.isActive clock i).1 = false := by
  intro sys c
  have hinv : Inv ({} : Shared T) := .inl rfl
  let tasksOf : ℕ → Thread := fun p => { id := p, task := tasks p }
  have hown : ∀ p, (tasksOf p).id = p ∧ Entitled b (tasksOf p).events :=
    fun p => ⟨rfl, entitled_nil b⟩
  have hstart := (covenant clock loc loads b maxBodyBytes).good_initial hinv hown
  have hgood := (covenant clock loc loads b maxBodyBytes).good_run hstart turns
  have hrest := (resting clock loc loads b maxBodyBytes).holds_run hstart (fun p => ⟨rfl, nofun⟩) turns
  refine ⟨?_, fun p => (hgood.own p).2, ?_⟩
  · rcases hgood.inv with h | ⟨p, -, h⟩
    · show c.shared.running.length ≤ 1
      rw [show c.shared.running = [] from h]
      exact Nat.zero_le 1
    · show c.shared.running.length ≤ 1
      rw [show c.shared.running = [p] from h]
      exact Nat.le_refl 1
  · intro p hidle
    have hp := hrest p
    rw [show (((threads loc clock { maxBodyBytes, binding := some b } loads).run _ turns).host p).running = none
      from hidle] at hp
    refine ⟨hp.1, ?_⟩
    intro context hbound later i hbelow
    have hgrows := grows_run clock loc loads b maxBodyBytes hgood later
    have hshut := (hp.2 context hbound).grows Leases.closed_of_evolves hgrows
    exact Leases.isActive_false_of_shut clock (hshut.below hbelow)

end

end

namespace Sample

def clock : Clock Nat := ⟨id, monotone_id⟩

def locale : Broker.Locale where
  upper := String.toUpper
  lower := String.toLower
  strip text := text
  split text := [text]
  isAlnum := Char.isAlphanum
  parseQuery _ := none
  zone _ := 0

def owner : RequestIdentity := { actorId := "alice" }

def binding : Binding Nat id where
  owner
  sessionId := "s"
  database := { names := ["state.db"], valid := ResolvedPath.stateDb_valid }
  operations := ["append"]
  timeout := 120
  resolved := rfl

def answers : Choice Unit where
  authenticateIdentity := .ok (some owner)
  requestId := .ok "r"

def loads : Loads Unit := fun _ => .ok (some (.mapping true [(.str "input", .str "hello")]))

/-- Thread `p` handles a request and acts `n` times. -/
def turns (p n : Nat) : List (Turn (Choice Unit) (Task Nat)) :=
  .start p (.handle { method := "POST", path := "/v1/run" }) :: List.replicate n (.act p answers)

def api : System (Choice Unit) (Shared Nat) Thread Exn (Task Nat) (Option (Response Unit)) :=
  threads locale clock { binding := some binding } loads

/-- One thread is inside `agent.run`; the other one is turned away. -/
example : (api.run (.initial {} fun p => { id := p }) (turns 1 12 ++ turns 2 6)).shared.running = [1] := by
  decide +kernel

end Sample

end ProjectMaya.LocalApi
