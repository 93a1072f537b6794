import ProjectMaya.HandoffSteps

/-! # Single use of executors

The programs of the factory keep the contract of `HandoffSteps`, whatever the other threads do
(`covenant`).  So in every run a captured function is started once, by a thread that may, under
leases that were open at the check before; at most one scheduled function of a request is handed
over; and a handoff whose `execute` is over stays inactive (`single_use`).

The claim of `caller_scope` is lost when the lease of its request ends before the next claim goes
through the list.  In a run without such a claim at most one body of each request is entered. -/

namespace ProjectMaya.Handoff

open Logic

section

variable {T : Type} [LinearOrder T] {clock : Clock T} {s : Shared T} {t : Thread}

/-! ## Assertions -/

omit [LinearOrder T] in
theorem stable_true : Stable (fun _ _ => True : Shared T → Thread → Prop) := fun _ _ _ _ _ => trivial

/-- The lease exists. -/
def Made (i : Nat) (s : Shared T) (_ : Thread) : Prop := i < s.leases.nodes.size

omit [LinearOrder T] in
theorem stable_made {i : Nat} : Stable (Made i : Shared T → Thread → Prop) :=
  fun _ _ _ hl h => Forest.Grows.size_le hl.leases h

def Root (i : Nat) (s : Shared T) (_ : Thread) : Prop := Top s.leases i

omit [LinearOrder T] in
theorem stable_root {i : Nat} : Stable (Root i : Shared T → Thread → Prop) :=
  fun _ _ _ hl h => h.grows hl.leases

/-- The thread is about to claim this request. -/
def Aiming (source : SessionWriteContext) (s : Shared T) (t : Thread) : Prop :=
  t.claiming = some (request source) ∧ Root source.lease s t

omit [LinearOrder T] in
theorem stable_aiming {source : SessionWriteContext} :
    Stable (Aiming source : Shared T → Thread → Prop) :=
  fun s s' t hl h => ⟨h.1, stable_root s s' t hl h.2⟩

/-- The thread has made this claim and not entered its body. -/
def Claimed (k : Nat) (claim : Claim) (s : Shared T) (t : Thread) : Prop :=
  s.callers[k]? = some ⟨claim, t.id, 0⟩

omit [LinearOrder T] in
theorem stable_claimed {k : Nat} {claim : Claim} :
    Stable (Claimed k claim : Shared T → Thread → Prop) := by
  intro s s' t hl hk
  obtain ⟨y, hy, hxy⟩ := hl.callers k _ hk
  rw [hxy rfl] at hy
  exact hy

/-- A program of tame actions, of which only the end matters. -/
theorem wp_any {α : Type} {p : Code T α} (hp : p.Each Tame) :
    wp (contract clock) p (fun _ _ _ => True) s t := wp_tame hp stable_true trivial

omit [LinearOrder T] in
theorem each_asked (code : String) : (asked code : Code T Unit).Each Tame :=
  .mapError (.perform tame_ask) fun _ => trivial

/-- The rule for a program whose postcondition says nothing. -/
theorem any_bind {α : Type} {p : Code T α} {f : α → Code T Unit} {P : α → Shared T → Thread → Prop}
    (hp : wp (contract clock) p (Returns P) s t)
    (hf : ∀ a s t, P a s t → wp (contract clock) (f a) (fun _ _ _ => True) s t) :
    wp (contract clock) (p >>= f) (fun _ _ _ => True) s t :=
  wp_bind hp (fun a s t h => hf a s t (h a rfl)) fun _ _ _ _ => trivial

/-- A tame program hands on what was known before. -/
theorem wp_keep {α : Type} {p : Code T α} {J : Shared T → Thread → Prop} (hp : p.Each Tame)
    (hJ : Stable J) (hj : J s t) : wp (contract clock) p (Returns fun _ s t => J s t) s t :=
  wp_mono (wp_tame hp hJ hj) fun _ _ _ h _ _ => h

omit [LinearOrder T] in
theorem top_of_any {i : Nat} {p : Lease T → Bool} (hp : ∀ l, p l = true → l.parent.isNone = true)
    (h : (s.leases.lease? i).any p = true) : Top s.leases i := by
  cases hl : s.leases.lease? i with
  | none =>
    rw [hl] at h
    cases h
  | some l =>
    rw [hl] at h
    exact ⟨l, hl, Option.isNone_iff_eq_none.mp (hp l h)⟩

/-! ## Callers -/

theorem wp_lease {i : Nat} {p : Lease T → Bool} (hp : ∀ l, p l = true → l.parent.isNone = true) :
    wp (contract clock) (.perform (Act.lease i))
      (Returns fun l s t => l.any p = true → Root i s t) s t := by
  refine wp_act stable_true trivial ?_
  intro c s hi _
  exact ⟨.refl hi, .ok (top_of_any hp)⟩

theorem wp_validateCaller (who : Position) (sessionId : String) :
    wp (contract clock) (validateCaller clock who sessionId)
      (Returns fun source s t => Root source.lease s t) s t := by
  unfold validateCaller
  cases who.session with
  | none => exact .error
  | some source =>
    have hp : ∀ l : Lease T, (l.parent.isNone && l.deadline.isSome) = true → l.parent.isNone = true :=
      fun l h => (Bool.and_eq_true_iff.mp h).1
    refine returns_bind (wp_lease hp) ?_
    intro l s t hl
    refine returns_bind (P := fun _ s t => Root source.lease s t) ?_ ?_
    · exact returns_raiseIf fun h => hl (not_not.mp h)
    intro _ s t hroot
    refine returns_bind (wp_keep (.perform (tame_look source.lease)) stable_root hroot) ?_
    intro active s t hroot
    refine returns_bind (P := fun _ s t => Root source.lease s t) (returns_raiseIf fun _ => hroot) ?_
    intro _ s t hroot
    refine returns_bind (wp_keep (.mapError (.perform tame_resolve) fun _ => trivial) stable_root hroot) ?_
    intro database s t hroot
    refine returns_bind (P := fun _ s t => Root source.lease s t) (returns_raiseIf fun _ => hroot) ?_
    intro _ s t hroot
    exact .ok hroot

theorem wp_callerScope [Add T] (who : Position) (sessionId : String) :
    wp (contract clock) (callerScope clock who sessionId) (fun _ _ _ => True) s t := by
  unfold callerScope
  refine any_bind (wp_validateCaller who sessionId) ?_
  intro source s t hroot
  refine any_bind (P := fun _ s t => Root source.lease s t) (returns_raiseIf fun _ => hroot) ?_
  intro _ s t hroot
  refine any_bind (P := fun _ s t => Aiming source s t) ?_ ?_
  · refine wp_act stable_root hroot ?_
    intro c s hi hroot
    exact ⟨⟨rfl, hi, fun _ _ => .refl s, .inl rfl⟩, .ok ⟨rfl, hroot⟩⟩
  intro _ s t haim
  refine any_bind (P := fun k s t => Claimed k (request source) s t) ?_ ?_
  · refine wp_act stable_aiming haim ?_
    intro c s hi haim
    exact claimCaller_step hi haim.1 haim.2
  intro k s t hclaimed
  refine any_bind (wp_keep (each_asked _) stable_claimed hclaimed) ?_
  intro _ s t hclaimed
  refine wp_andThen (wp_mono (Q := fun _ _ _ => True) ?_ ?_)
  · refine any_bind (wp_keep (.perform tame_callLater) stable_claimed hclaimed) ?_
    intro _ s t hclaimed
    refine any_bind (P := fun _ _ _ => True) ?_ fun _ s t _ => wp_any (.perform tame_body)
    refine wp_act stable_claimed hclaimed ?_
    intro c s hi hclaimed
    exact ⟨enterBody_step hi hclaimed, .ok trivial⟩
  · intro r s t _
    exact wp_any (Prog.Each.andThen (.perform (tame_leaveScope source.lease r)) fun _ => trivial)

/-! ## Scheduled functions -/

theorem wp_orDeactivate {lease : Nat} {code : String} {p : Code T Unit}
    (hp : wp (contract clock) p (fun _ _ _ => True) s t) :
    wp (contract clock) (orDeactivate lease code p) (fun _ _ _ => True) s t := by
  refine always_mapError (K := fun _ _ => True) hp ?_
  intro e s t _
  cases e with
  | interrupt => exact trivial
  | _ => exact wp_any (.bind (.perform (tame_deactivate lease)) fun _ => trivial)

theorem wp_schedule (who : Position) (function : Function) :
    wp (contract clock) (schedule clock who function) (fun _ _ _ => True) s t := by
  unfold schedule
  cases who.session with
  | none => exact trivial
  | some source =>
    refine any_bind (wp_keep (.perform (tame_look source.lease)) stable_true trivial) ?_
    intro active s t _
    refine any_bind (P := fun _ _ _ => True) (returns_raiseIf fun _ => trivial) ?_
    intro _ s t _
    refine any_bind (wp_lease fun _ h => h) ?_
    intro l s t hl
    refine any_bind (P := fun _ s t => Made source.lease s t) ?_ ?_
    · refine returns_raiseIf fun h => (hl ?_).lt
      by_contra hno
      exact h (.inl hno)
    intro _ s t hmade
    refine any_bind (P := fun _ _ _ => True) ?_ ?_
    · refine wp_act stable_made hmade ?_
      intro c s hi hmade
      exact ⟨claimTask_step hi hmade, fun _ _ => trivial⟩
    intro i s t _
    refine any_bind (wp_keep (.perform (tame_derive source.lease)) stable_true trivial) ?_
    intro lease s t _
    refine any_bind (P := fun _ _ _ => True) ?_ ?_
    · refine wp_mono (wp_orDeactivate (wp_any (.perform tame_ask))) fun _ _ _ _ _ _ => trivial
    intro _ s t _
    refine wp_orDeactivate (wp_act stable_true trivial ?_)
    intro c s hi _
    exact ⟨createTask_step hi, trivial⟩

/-- The body runs only if both checks found their lease active, and gets the leases as the second
left them. -/
theorem wp_bindSessionHandoff {task : Option Nat} {source : SessionWriteContext} {parent : Nat}
    {body : Leases T → Nat → Code T Unit} {J : Shared T → Thread → Prop} (hJ : Stable J)
    (hlook : wp (contract clock) (.perform (Act.lookSource clock task source.lease))
      (Returns fun active s t => active = true → J s t) s t)
    (hbody : ∀ leases child s t, leases.Open parent → J s t →
      wp (contract clock) (body leases child) (fun _ _ _ => True) s t) :
    wp (contract clock) (bindSessionHandoff clock task source parent body) (fun _ _ _ => True) s t := by
  unfold bindSessionHandoff
  refine any_bind hlook ?_
  intro active s t hj
  refine any_bind (P := fun _ s t => J s t) ?_ ?_
  · exact returns_raiseIf fun h => hj (by simpa using h)
  intro _ s t hj
  refine any_bind (P := fun a s t => J s t ∧ (a.1 = true → a.2.Open parent)) ?_ ?_
  · refine wp_act hJ hj ?_
    intro c s hi hj
    have hg := Leases.isActive_grows clock parent s.leases
    exact ⟨.of_grows hi hg, .ok ⟨hJ s _ t (later_of_grows hg) hj, Leases.open_of_isActive clock⟩⟩
  rintro ⟨active, leases⟩ s t ⟨hj, hopen⟩
  refine any_bind (P := fun _ s t => J s t ∧ leases.Open parent) ?_ ?_
  · exact returns_raiseIf fun h => ⟨hj, hopen (by simpa using h)⟩
  rintro _ s t ⟨hj, hopen⟩
  refine any_bind (wp_keep (.perform (tame_derive parent)) hJ hj) ?_
  intro child s t hj
  refine always_ensuring (K := fun _ _ => True) (hbody leases child s t hopen hj) ?_
  intro s t _
  exact wp_any (.perform (tame_deactivate child))

theorem wp_receive [Add T] (who : Position) (i : Nat) :
    wp (contract clock) (receive clock who i) (fun _ _ _ => True) s t := by
  unfold receive
  refine any_bind (P := fun a s t => Begun i a.1 s t) ?_ ?_
  · refine wp_act stable_true trivial ?_
    intro c s hi _
    exact begin_step hi
  rintro ⟨source, lease, _⟩ s t hbegun
  refine wp_andThen (wp_mono (Q := fun _ _ _ => True) (wp_bindSessionHandoff (J := Passed i) stable_passed ?_ ?_) ?_)
  · refine wp_act stable_begun hbegun ?_
    intro c s hi hbegun
    obtain ⟨hstep, hpassed⟩ := lookSource_step hi hbegun
    refine ⟨hstep, ?_⟩
    rintro _ hr rfl
    exact hpassed hr
  · intro _ child s t _ hpassed
    refine any_bind (P := fun _ s t => Selected i s t) ?_ ?_
    · refine wp_act stable_passed hpassed ?_
      intro c s hi hpassed
      obtain ⟨hstep, hselected⟩ := select_step (c := c) hi hpassed
      exact ⟨hstep, .ok hselected⟩
    intro _ s t hselected
    refine any_bind (P := fun _ _ _ => True) ?_ fun _ s t _ => wp_any (.perform tame_body)
    refine wp_act stable_selected hselected ?_
    intro c s hi hselected
    exact ⟨hand_step hi hselected, fun _ _ => trivial⟩
  · intro r s t _
    refine wp_any (Prog.Each.andThen (.perform (tame_revokeRequest lease r)) fun _ => ?_)
    exact Prog.Each.andThen (.perform (tame_deactivate lease)) fun _ => trivial

theorem wp_invoke (who : Position) (h : Nat) :
    wp (contract clock) (invoke clock who h) (fun _ _ _ => True) s t := by
  unfold invoke
  refine any_bind (P := fun x s t => Received who h x.lease s t) ?_ ?_
  · refine wp_act stable_true trivial ?_
    intro c s hi _
    exact receive_step hi
  intro x s t hreceived
  refine wp_bindSessionHandoff (J := Received who h x.lease) stable_received ?_ ?_
  · refine wp_act stable_received hreceived ?_
    intro c s hi hreceived
    have hg := Leases.isActive_grows clock x.source.lease s.leases
    refine ⟨.of_grows hi hg, fun _ _ _ => ?_⟩
    exact stable_received s _ t (later_of_grows hg) hreceived
  · intro leases _ s t hopen hreceived
    refine any_bind (P := fun _ _ _ => True) ?_ fun _ s t _ => wp_any (.perform tame_body)
    refine wp_act stable_received hreceived ?_
    intro c s hi hreceived
    exact ⟨start_step hi hreceived hopen, fun _ _ => trivial⟩

/-! ## Handoffs -/

/-- `execute` is over: it has returned, or it was cancelled. -/
def Over (r : Except Raised Unit) : Prop := r = .ok () ∨ r = .error .interrupt

/-- A part of `execute` that returns or refuses, and is not cancelled. -/
def Settles {α : Type} (P : α → Shared T → Thread → Prop) (r : Except Raised α) (s : Shared T)
    (t : Thread) : Prop :=
  r ≠ .error .interrupt ∧ Returns P r s t

theorem over_bind {α : Type} {p : Code T α} {f : α → Code T Unit} {P : α → Shared T → Thread → Prop}
    {J : Shared T → Thread → Prop} (hp : wp (contract clock) p (Settles P) s t)
    (hf : ∀ a s t, P a s t → wp (contract clock) (f a) (fun r s t => Over r → J s t) s t) :
    wp (contract clock) (p >>= f) (fun r s t => Over r → J s t) s t := by
  refine wp_bind hp ?_ ?_
  · intro a s t h
    exact hf a s t (h.2 a rfl)
  · rintro e s t ⟨hno, _⟩ (hok | hint)
    · cases hok
    · cases hint
      exact absurd rfl hno

omit [LinearOrder T] in
theorem settles_raiseIf {c : Prop} [Decidable c] {code : String} {J : Shared T → Thread → Prop}
    {C : Contract (Shared T) Thread} (hj : J s t) :
    wp C (refuseIf c code : Code T Unit) (Settles fun _ s t => J s t) s t :=
  wp_raiseIf (fun _ => ⟨by simp, .error⟩) fun _ => ⟨by simp, .ok hj⟩

/-- The function's handoff has been left. -/
def Left (h : Nat) (function : Function) (s : Shared T) : Prop :=
  h ∈ s.left ∧ ∃ x, s.handoffs[h]? = some x ∧ x.function = function

/-- Whatever `execute` ends with after its handoff was used, it has left it. -/
theorem wp_execute (who : Position) (h : Nat) (function : Function) :
    wp (contract clock) (execute clock who h function) (fun r s _ => Over r → Left h function s) s t := by
  unfold execute
  refine over_bind (P := fun x s t => Known h x.lease x.function s t) ?_ ?_
  · refine wp_act stable_true trivial ?_
    intro c s hi _
    unfold Act.handoff
    dsimp only
    split
    · rename_i x hx
      exact ⟨.refl hi, by simp, .ok ⟨x, hx, rfl, rfl⟩⟩
    · exact ⟨.refl hi, by simp, .error⟩
  intro x s t hknown
  refine over_bind (P := fun _ s t => Known h x.lease function s t) ?_ ?_
  · refine wp_raiseIf (fun _ => ⟨by simp, .error⟩) fun hc => ⟨by simp, .ok ?_⟩
    by_cases hf : function = x.function
    · exact hf ▸ hknown
    · exact absurd (.inl hf) hc
  intro _ s t hknown
  refine over_bind (P := fun _ s t => Known h x.lease function s t) ?_ ?_
  · refine wp_act stable_known hknown ?_
    intro c s hi hknown
    have hg := Leases.isActive_grows clock x.lease s.leases
    exact ⟨.of_grows hi hg, nofun, .ok (stable_known s _ t (later_of_grows hg) hknown)⟩
  intro active s t hknown
  refine over_bind (P := fun _ s t => Known h x.lease function s t) (settles_raiseIf hknown) ?_
  intro _ s t hknown
  refine over_bind (P := fun _ s t => Known h x.lease function s t) ?_ ?_
  · refine wp_act stable_known hknown ?_
    intro c s hi hknown
    obtain ⟨hkeep, hno⟩ := use_known (c := c) hknown
    exact ⟨use_step hi, hno, fun _ _ => hkeep⟩
  intro _ s t hknown
  have hbody : ∀ f : Raised → Raised, (Prog.mapError (do
      asked "governance.audit_unavailable"
      .perform Act.body) fun e => pure (f e) : Code T Unit).Each Tame := fun _ =>
    .mapError (.bind (each_asked _) fun _ => .perform tame_body) fun _ => trivial
  refine wp_ensuring (wp_tame (hbody _) stable_known hknown) ?_
  intro r s t hknown
  refine wp_act stable_known hknown ?_
  intro c s hi hknown
  obtain ⟨hstep, hleft, y, hy, _, hfunction⟩ := leave_step (c := c) hi hknown
  exact ⟨hstep, fun _ => ⟨hleft, y, hy, hfunction⟩⟩

/-- The resolver's `execute` leaves a handoff that it has made. -/
theorem wp_resolve (who : Position) (function : Function) (args : Bool) :
    wp (contract clock) (resolve clock who function args)
      (fun r s _ => Over r → ∃ h, Left h function s) s t := by
  unfold resolve
  refine over_bind (P := fun _ _ _ => True) ?_ ?_
  · refine wp_act stable_true trivial ?_
    intro c s hi _
    refine ⟨(tame_selected who function).step hi, ?_, fun _ _ => trivial⟩
    unfold Act.selected
    dsimp only
    split <;> simp [invalid]
  intro _ s t _
  refine over_bind (P := fun _ _ _ => True) (settles_raiseIf trivial) ?_
  intro _ s t _
  refine over_bind (P := fun _ _ _ => True) ?_ ?_
  · refine wp_act stable_true trivial ?_
    intro c s hi _
    exact ⟨construct_step hi, construct_settles, fun _ _ => trivial⟩
  intro h s t _
  refine wp_mono (wp_execute who h function) ?_
  intro r s t hleft hover
  exact ⟨h, hleft hover⟩

/-! ## All threads -/

omit [LinearOrder T] in
theorem Left.later {h : Nat} {function : Function} {s' : Shared T} {me : Nat} (hleft : Left h function s)
    (hl : Later me s s') : Left h function s' := by
  obtain ⟨hin, x, hx, hf⟩ := hleft
  obtain ⟨y, hy, _, ef, _⟩ := hl.handoffs h x hx
  exact ⟨hl.left h hin, y, hy, ef.trans hf⟩

/-- What a call leaves behind. -/
def Post : Task T → Except Raised Unit → Shared T → Prop
  | .execute _ h function, r, s => Over r → Left h function s
  | .resolve _ function _, r, s => Over r → ∃ h, Left h function s
  | _, _, _ => True

theorem wp_task [Add T] (a : Task T) :
    wp (contract clock) ((threads clock).prog a) (fun r s _ => Post a r s) s t := by
  cases a with
  | caller who sessionId => exact wp_callerScope who sessionId
  | schedule who function => exact wp_schedule who function
  | receive who i => exact wp_receive who i
  | construct who function =>
    refine any_bind (P := fun _ _ _ => True) ?_ fun _ _ _ _ => trivial
    refine wp_act stable_true trivial ?_
    intro c s hi _
    exact ⟨construct_step hi, fun _ _ => trivial⟩
  | resolve who function args => exact wp_resolve who function args
  | execute who h function => exact wp_execute who h function
  | invoke who h => exact wp_invoke who h
  | lease call => exact wp_any (.perform (tame_call call))

/-- What the threads owe each other. -/
def covenant [Add T] (clock : Clock T) : Covenant (threads clock) where
  inv := Inv
  own p t := t.id = p
  law _ _ := True
  contract _ := contract clock
  post a r s _ := Post a r s
  own_enter _ _ h := h
  law_enter _ _ := trivial
  enter _ a _ _ _ _ := wp_task a
  rely_refl _ _ s hi := ⟨hi, .refl s⟩
  rely_trans _ _ _ _ _ h h' := ⟨h'.1, h.2.trans h'.2⟩
  post_stable a r s s' t hp hl := by
    cases a with
    | execute who h function => exact fun hover => (hp hover).later hl.2
    | resolve who function args =>
      intro hover
      obtain ⟨h, hleft⟩ := hp hover
      exact ⟨h, hleft.later hl.2⟩
    | _ => trivial
  keep _ _ _ _ _ _ _ hown _ hg := ⟨hg.inv, hg.id.trans hown, trivial⟩
  keep_die _ _ _ hi hown := ⟨hi, hown⟩
  rely_guar p q _ _ l _ m _ _ hne _ hp hq hg :=
    ⟨hg.inv, hg.later l.id (by rw [show l.id = p from hp, show m.id = q from hq]; exact hne)⟩
  rely_die _ _ _ _ s _ _ hi _ _ := ⟨hi, .refl s⟩

/-! ## Runs -/

variable [Add T]

/-- Nothing has been called yet. -/
def start (T : Type) : Config Choice (Shared T) Thread Raised (Task T) Unit :=
  .initial {} fun p => { id := p }

theorem good_start (clock : Clock T) : (covenant clock).Good (start T) :=
  (covenant clock).good_initial inv_init fun _ => rfl

/-- A caller's claim that this turn makes finds its request's earlier claim, if there is one:
the root is open, and in time until the list has been gone through. -/
def Prompt (clock : Clock T) (c : Config Choice (Shared T) Thread Raised (Task T) Unit) :
    Turn Choice (Task T) → Prop
  | .act p _ => ∀ item, (c.host p).loc.claiming = some item → item ∈ c.shared.made →
      Timely clock c.shared item
  | _ => True

/-- No claim is made twice. -/
theorem made_turn {c : Config Choice (Shared T) Thread Raised (Task T) Unit}
    {t : Turn Choice (Task T)} (hc : (covenant clock).Good c) (ht : Prompt clock c t)
    (h : c.shared.made.Nodup) : ((threads clock).turn c t).shared.made.Nodup := by
  cases (covenant clock).change hc t with
  | none e =>
    rw [e]
    exact h
  | crashed e =>
    rw [e]
    exact h
  | acted e _ hg =>
    rcases hg.made with he | ⟨item, hclaiming, he, hlate⟩
    · rw [he]
      exact h
    · rw [he, List.nodup_append]
      refine ⟨h, List.nodup_singleton item, ?_⟩
      intro a ha b hb hab
      rw [List.mem_singleton.mp hb] at hab
      rw [hab] at ha
      rw [e] at ht
      exact hlate ha (ht item hclaiming ha)

omit [Add T] in
theorem active_of_open {leases : Leases T} {i k : Nat} (h : leases.Open i) (hb : leases.nodes.Below i k) :
    ∃ l, leases.lease? k = some l ∧ l.active = true := by
  obtain ⟨hlt, hshut⟩ := h.below hb
  obtain ⟨l, hl⟩ := leases.nodes.exists_get? hlt
  refine ⟨l, hl, ?_⟩
  by_contra hno
  have hclosed : l.active = false := by simpa using hno
  exact hshut ⟨k, l, .refl k, hl, hclosed⟩

/-- **Single-use executor handoff.**  In every run of the threads:

* of the scheduled functions of one request, one is given to the helper, and at most once; and
  of their handoffs, one starts its function;
* a handoff starts its function at most once, on another thread than the source's, outside every
  task, and with every lease of its chain active in the leases that the check before has left;
* a handoff whose `execute` has returned or was cancelled is inactive;
* if no caller's claim finds the earlier claim of its request lapsed, at most one body of each
  request is entered, once. -/
theorem single_use (clock : Clock T) (turns : List (Turn Choice (Task T))) :
    let s := (threads clock).run (start T) turns
    (∀ (i j : Nat) (x y : Scheduled), s.shared.tasks[i]? = some x → s.shared.tasks[j]? = some y →
      x.claim = y.claim → x.handed ≠ 0 → y.handed ≠ 0 → i = j ∧ x.handed = 1) ∧
    (∀ (h k i j : Nat) (x y : SessionExecutorHandoff T) (u v : Scheduled),
      s.shared.handoffs[h]? = some x → s.shared.handoffs[k]? = some y →
      x.task = some i → y.task = some j → s.shared.tasks[i]? = some u → s.shared.tasks[j]? = some v →
      u.claim = v.claim → x.starts ≠ [] → y.starts ≠ [] → h = k) ∧
    (∀ (h : Nat) (x : SessionExecutorHandoff T), s.shared.handoffs[h]? = some x →
      x.starts.length ≤ 1 ∧ ∀ a ∈ x.starts, a.thread ≠ x.source.threadId ∧ a.task = none ∧
        ∀ k, a.leases.nodes.Below x.lease k → ∃ l, a.leases.lease? k = some l ∧ l.active = true) ∧
    ((∀ p who h function r, (s.host p).running = some (.execute who h function, .done r) → Over r →
        Left h function s.shared) ∧
      (∀ p who function args r, (s.host p).running = some (.resolve who function args, .done r) →
        Over r → ∃ h, Left h function s.shared) ∧
      ∀ h ∈ s.shared.left, ∃ x, s.shared.handoffs[h]? = some x ∧
        (s.shared.leases.isActive clock x.lease).1 = false) ∧
    ((threads clock).Along (Prompt clock) (start T) turns →
      ∀ (j k : Nat) (x y : Entry), s.shared.callers[j]? = some x → s.shared.callers[k]? = some y →
        x.claim = y.claim → x.bodies ≠ 0 → y.bodies ≠ 0 → j = k ∧ x.bodies = 1) := by
  intro s
  have hgood := (covenant clock).good_run (good_start clock) turns
  have hinv : Inv s.shared := hgood.inv
  refine ⟨?_, ?_, ?_, ⟨?_, ?_, ?_⟩, ?_⟩
  · intro i j x y hx hy hc hhx hhy
    have hone := (hinv.tasks.task i x hx).1.once
    refine ⟨?_, by omega⟩
    by_contra hij
    have hpx := (hinv.tasks.task i x hx).1
    have hpy := (hinv.tasks.task j y hy).1
    have hno := hinv.tasks.passed i j x y hx hy hij hc (hpx.passed (hpx.given hhx))
    rw [hpy.passed (hpy.given hhy)] at hno
    cases hno
  · intro h k i j x y u v hx hy hi hj hu hv hc _ _
    have hpassed : ∀ (h i : Nat) (x : SessionExecutorHandoff T) (u : Scheduled),
        s.shared.handoffs[h]? = some x → x.task = some i → s.shared.tasks[i]? = some u →
        u.passed = true := by
      intro h i x u hx hi hu
      obtain ⟨w, hw, z, hz, _⟩ := hinv.handoffs.spent h x i hx hi
      rw [hu] at hw
      cases hw
      exact (hinv.tasks.task i u hu).1.passed (by rw [hz]; simp)
    by_cases hij : i = j
    · subst hij
      exact hinv.handoffs.single h k x y i hx hy hi hj
    · have hno := hinv.tasks.passed i j u v hu hv hij hc (hpassed h i x u hx hi hu)
      rw [hpassed k j y v hy hj hv] at hno
      cases hno
  · intro h x hx
    obtain ⟨hone, _, hstarted⟩ := (hinv.handoffs.handoff h x hx).1
    refine ⟨hone, fun a ha => ?_⟩
    obtain ⟨hthread, htask, hopen⟩ := hstarted a ha
    exact ⟨hthread, htask, fun k hk => active_of_open hopen hk⟩
  · intro p who h function r hrun
    exact (hgood.busy p _ _ hrun).2
  · intro p who function args r hrun
    exact (hgood.busy p _ _ hrun).2
  · intro h hh
    obtain ⟨x, hx, hshut⟩ := hinv.handoffs.left h hh
    exact ⟨x, hx, Leases.isActive_false_of_shut clock hshut⟩
  · intro hprompt j k x y hx hy hc hbx hby
    have hmade : s.shared.made.Nodup :=
      (covenant clock).run_along (J := fun s => s.made.Nodup)
        (fun _ _ hc ht h => made_turn hc ht h) (good_start clock) List.nodup_nil hprompt
    have hone := (hinv.callers.entry j x hx).1
    exact ⟨index_unique hmade hx hy hc, by omega⟩

end

/-! ## Examples -/

namespace Sample

def clock : Clock Nat := ⟨id, monotone_id⟩

def owner : RequestIdentity := { actorId := "owner" }

def database : ResolvedPath := { names := ["state.db"], valid := ResolvedPath.stateDb_valid }

/-- The context of the request. -/
def source : SessionWriteContext :=
  { identity := owner, requestId := "request", sessionId := "session", database
    operations := ["append"], threadId := 1, task := some 1, lease := 0 }

/-- The task of the request, in a context that was copied before its caller's scope was entered. -/
def caller : Position := { thread := 1, task := some 1, identity := some owner, session := some source }

def willing : Choice := { path := .ok database }

/-- The request is bound until this reading of the clock. -/
def bound (deadline : Nat) : List (Turn Choice (Task Nat)) :=
  [.start 9 (.lease (.bind (some deadline))), .act 9 willing]

/-- A caller's scope up to its body. -/
def enters (p : Nat) : List (Turn Choice (Task Nat)) :=
  .start p (.caller caller "session") :: List.replicate 8 (.act p willing)

/-- Two callers of one request enter their bodies: the second finds the request active, and its
deadline passes before the first claim is looked at. -/
theorem second_body :
    ∃ x y : Entry, x.claim = y.claim ∧ x.bodies = 1 ∧ y.bodies = 1 ∧
      ((threads clock).run (start Nat) (bound 4 ++ enters 0 ++ enters 1)).shared.callers = [x, y] := by
  refine ⟨⟨request source, 0, 1⟩, ⟨request source, 1, 1⟩, rfl, rfl, rfl, ?_⟩
  decide +kernel

/-- A test that makes a turn prompt. -/
def promptTurn (c : Config Choice (Shared Nat) Thread Raised (Task Nat) Unit) :
    Turn Choice (Task Nat) → Bool
  | .act p _ => (c.host p).loc.claiming.all fun item =>
      item ∉ c.shared.made || ((c.shared.leases.isActive clock item.lease).1 &&
        (c.shared.leases.lease? item.lease).all fun l => l.deadline.all fun d =>
          clock.reading (c.shared.leases.reads + c.shared.callerClaimed.length) < d)
  | _ => true

theorem prompt_of_promptTurn {c : Config Choice (Shared Nat) Thread Raised (Task Nat) Unit}
    {t : Turn Choice (Task Nat)} (h : promptTurn c t = true) : Prompt clock c t := by
  cases t with
  | start p a => exact trivial
  | crash p => exact trivial
  | act p f =>
    intro item hclaiming hmade
    simp only [promptTurn, hclaiming, Option.all_some, Bool.or_eq_true, Bool.and_eq_true] at h
    obtain ⟨hactive, hin⟩ := h.resolve_left (by simpa using hmade)
    have hopen := Leases.open_of_isActive clock hactive
    refine ⟨fun hshut => hopen.2 (hshut.grows Leases.closed_of_evolves (Leases.isActive_grows clock _ _)), ?_⟩
    intro l d hl hd
    rw [hl] at hin
    simpa [hd] using hin

/-- With time enough the second caller is refused, and one body is entered. -/
theorem one_body :
    let s := (threads clock).run (start Nat) (bound 100 ++ enters 0 ++ enters 1)
    s.shared.callers ≠ [] ∧ ∀ (j k : Nat) (x y : Entry), s.shared.callers[j]? = some x →
      s.shared.callers[k]? = some y → x.claim = y.claim → x.bodies ≠ 0 → y.bodies ≠ 0 →
        j = k ∧ x.bodies = 1 := by
  have hprompt : (threads clock).Along (Prompt clock) (start Nat) (bound 100 ++ enters 0 ++ enters 1) := by
    have htest : (threads clock).Along (fun c t => promptTurn c t = true) (start Nat)
        (bound 100 ++ enters 0 ++ enters 1) := by decide +kernel
    exact htest.mono fun _ _ => prompt_of_promptTurn
  have hcallers : ((threads clock).run (start Nat)
      (bound 100 ++ enters 0 ++ enters 1)).shared.callers ≠ [] := by decide +kernel
  exact ⟨hcallers, (single_use clock (bound 100 ++ enters 0 ++ enters 1)).2.2.2.2 hprompt⟩

end Sample

end ProjectMaya.Handoff
