import ProjectMaya.BrokerTokens
import ProjectMaya.Logic.Wp

/-! # The status and the envelope

The envelope of a provider and its status are written one after the other, and a call can raise
between the two.  A call that returns leaves them in agreement, whatever came before; a reset takes
away the status only. -/

namespace ProjectMaya.Broker

open Logic

section

variable (loc : Locale)

/-- A call about the tokens of an integration. -/
def Task.About (provider : String) : Task → Prop
  | .start _ _ _ => False
  | .complete _ name _ _ _ => loc.strip (loc.lower name) = provider
  | .refresh _ name _ => loc.strip (loc.lower name) = provider
  | .revoke _ name _ => loc.strip (loc.lower name) = provider
  | .reset _ name _ => loc.strip name = provider

/-- What the recorded status says holds of the envelope. -/
structure Agrees (s : Store) (provider : String) : Prop where
  active : ∀ status, tokenStatus s provider = .ok status → status.state = .active →
    ∃ envelope, s.envelopes provider = .whole envelope ∧
      status.rotationCount = envelope.rotationCount ∧ status.expiresAt = some envelope.expiresAt
  revoked : ∀ status, tokenStatus s provider = .ok status → status.state = .revoked →
    s.envelopes provider = .absent

/-! ## One call alone -/

/-- Nobody else does anything. -/
def solo : Contract Store Stored where
  rely _ s s' := s' = s
  guar _ _ _ _ := True

theorem wp_trivial {α : Type} (p : Procedure α) (s : Store) (l : Stored) :
    wp solo p (fun _ _ _ => True) s l := by
  induction p generalizing s l with
  | done r => exact trivial
  | step a k ih => exact fun s' _ f => ⟨trivial, ih _ _ _⟩

/-- Only what follows a first part matters. -/
theorem returns_after {α β : Type} {p : Procedure α} {f : α → Procedure β} {Q : β → Store → Stored → Prop}
    {s : Store} {l : Stored} (hf : ∀ a s l, wp solo (f a) (Returns Q) s l) :
    wp solo (p >>= f) (Returns Q) s l :=
  wp_bind (wp_trivial p s l) (fun a s l _ => hf a s l) fun _ _ _ _ => .error

theorem returns_check {α β : Type} {x : Except Failure α} {f : α → Procedure β}
    {Q : β → Store → Stored → Prop} {s : Store} {l : Stored}
    (h : ∀ a, x = .ok a → wp solo (f a) (Returns Q) s l) : wp solo (.done x >>= f) (Returns Q) s l := by
  cases x with
  | error e => exact Returns.error
  | ok a => exact h a rfl

theorem returns_change (done halfway : Store → Store) (s : Store) (l : Stored) :
    wp solo (change done halfway) (Returns fun _ s' _ => s' = done s) s l := by
  rintro _ rfl choice
  refine ⟨trivial, ?_⟩
  dsimp only
  split
  · exact Returns.ok rfl
  · exact Returns.error
  · exact Returns.error

theorem returns_writeTokenMetadata (provider : String) (metadata : TokenLifecycleStatus) (s : Store)
    (l : Stored) :
    wp solo (writeTokenMetadata provider metadata)
      (Returns fun _ s' _ => s'.envelopes = s.envelopes ∧ s'.statuses provider = .whole metadata) s l := by
  refine returns_bind (returns_change _ _ s l) ?_
  rintro _ s' l' rfl
  refine wp_mono (returns_change _ _ _ l') ?_
  intro r s'' l'' h u hr
  rw [h u hr]
  exact ⟨rfl, Function.update_self ..⟩

/-- A call that returns has written the envelope and its status. -/
def Written (provider : String) (s : Store) : Prop :=
  ∃ payload, s.envelopes provider = .whole payload ∧
    s.statuses provider = .whole (tokenMetadataFromPayload loc payload)

theorem returns_written {α : Type} {provider : String} {payload : Envelope} {b : α} {s : Store} {l : Stored}
    (h : s.envelopes provider = .whole payload) :
    wp solo (do
      writeTokenMetadata provider (tokenMetadataFromPayload loc payload)
      return b : Procedure α) (Returns fun _ s' _ => Written loc provider s') s l := by
  refine returns_bind (returns_writeTokenMetadata _ _ s l) ?_
  rintro _ s' l' ⟨henvelopes, hstatus⟩
  exact Returns.ok ⟨payload, by rw [henvelopes, h], hstatus⟩

theorem requireSupportedProvider_eq_ok {loc : Locale} {provider normalized : String}
    (h : requireSupportedProvider loc provider = .ok normalized) :
    normalized = loc.strip (loc.lower provider) := by
  simp only [requireSupportedProvider, bind_eq_ok, pure_eq_ok] at h
  obtain ⟨-, -, h⟩ := h
  exact h.symm

theorem returns_writeCompletion (provider : String) (payload : Envelope) (e : Completion) (s : Store)
    (l : Stored) :
    wp solo (writeCompletion provider payload e)
      (Returns fun _ s' _ => s'.envelopes provider = .whole payload) s l := by
  rintro _ rfl choice
  refine ⟨trivial, ?_⟩
  dsimp only
  split
  · exact Returns.ok (Function.update_self ..)
  · exact Returns.error
  · exact Returns.error

theorem returns_completeOauthSession (config : Config) (provider sessionId callbackUrl : String)
    (apply : Bool) (s : Store) (l : Stored) :
    wp solo (completeOauthSession loc config provider sessionId callbackUrl apply)
      (Returns fun _ s' _ => Written loc (loc.strip (loc.lower provider)) s') s l := by
  unfold completeOauthSession
  refine returns_check fun _ _ => returns_check fun normalized hprovider => returns_check fun _ _ => ?_
  rw [requireSupportedProvider_eq_ok hprovider]
  refine returns_after fun document s l => returns_check fun _ _ => returns_after fun checkedAt s l => ?_
  refine returns_check fun _ _ => returns_check fun _ _ => returns_check fun _ _ => returns_check fun _ _ => ?_
  refine returns_after fun _ s l => returns_after fun _ s l => returns_after fun _ s l => ?_
  refine returns_bind (returns_writeCompletion _ _ _ s l) ?_
  intro _ s l h
  exact returns_written loc h

theorem returns_refreshToken (config : Config) (provider : String) (apply : Bool) (s : Store) (l : Stored) :
    wp solo (refreshToken loc config provider apply)
      (Returns fun _ s' _ => Written loc (loc.strip (loc.lower provider)) s') s l := by
  unfold refreshToken
  refine returns_check fun _ _ => returns_check fun normalized hprovider => returns_check fun _ _ => ?_
  rw [requireSupportedProvider_eq_ok hprovider]
  refine returns_after fun payload s l => returns_after fun _ s l => returns_after fun _ s l => ?_
  have hrest (payload : Envelope) (result : BrokerOperationResult) (s : Store) (l : Stored) :
      wp solo (do
        writeSecret (loc.strip (loc.lower provider)) payload
        writeTokenMetadata (loc.strip (loc.lower provider)) (tokenMetadataFromPayload loc payload)
        return result : Procedure BrokerOperationResult)
        (Returns fun _ s' _ => Written loc (loc.strip (loc.lower provider)) s') s l := by
    refine returns_bind (returns_change _ _ s l) ?_
    rintro _ s' l' rfl
    exact returns_written loc (Function.update_self ..)
  split
  · exact returns_after fun _ s l => hrest _ _ s l
  · exact hrest _ _ s l

theorem returns_timeAfter (delta : Int) (s : Store) (l : Stored) :
    wp solo (timeAfter loc delta) (Returns fun _ s' _ => s' = s) s l := by
  have hnow : wp solo now (Returns fun _ s' _ => s' = s) s l := by
    rintro _ rfl choice
    exact ⟨trivial, Returns.ok rfl⟩
  refine returns_bind hnow ?_
  rintro current _ l rfl
  refine returns_check fun later _ => ?_
  exact fun _ _ => rfl

/-- A revocation that returns has deleted the envelope and recorded it. -/
def Revoked (provider : String) (s : Store) : Prop :=
  s.envelopes provider = .absent ∧ ∃ status, s.statuses provider = .whole status ∧ status.state = .revoked

theorem returns_revokeToken (config : Config) (provider : String) (apply : Bool) (s : Store) (l : Stored) :
    wp solo (revokeToken loc config provider apply)
      (Returns fun _ s' _ => Revoked (loc.strip (loc.lower provider)) s') s l := by
  unfold revokeToken
  refine returns_check fun _ _ => returns_check fun normalized hprovider => returns_check fun _ _ => ?_
  rw [requireSupportedProvider_eq_ok hprovider]
  refine returns_bind (returns_change _ _ s l) ?_
  rintro _ s l rfl
  refine returns_bind (returns_timeAfter loc 0 _ l) ?_
  rintro revokedAt s l rfl
  refine returns_bind (returns_writeTokenMetadata _ _ _ l) ?_
  rintro _ s l ⟨henvelopes, hstatus⟩
  refine Returns.ok ⟨?_, _, hstatus, rfl⟩
  rw [henvelopes]
  exact Function.update_self ..

/-! ## Resets -/

/-- The envelopes stay, and a status stays or goes. -/
structure Unrecorded (s s' : Store) : Prop where
  envelopes : s'.envelopes = s.envelopes
  statuses : ∀ provider, s'.statuses provider = s.statuses provider ∨ s'.statuses provider = .absent

theorem Unrecorded.refl (s : Store) : Unrecorded s s := ⟨rfl, fun _ => .inl rfl⟩

theorem unrecorded_setStatus (s : Store) (provider : String) : Unrecorded s (s.setStatus provider .absent) := by
  refine ⟨rfl, fun other => ?_⟩
  by_cases h : other = provider
  · subst h
    exact .inr (Function.update_self ..)
  · exact .inl (Function.update_of_ne h ..)

theorem Unrecorded.trans {s s' s'' : Store} (h : Unrecorded s s') (h' : Unrecorded s' s'') :
    Unrecorded s s'' := by
  refine ⟨h'.envelopes.trans h.envelopes, fun provider => ?_⟩
  rcases h'.statuses provider with hs | hs
  · rw [hs]
    exact h.statuses provider
  · exact .inr hs

def Unrecording {β : Type} (a : Action Choice Store Stored Failure β) : Prop :=
  ∀ f s l, Unrecorded s (a.next f s l).2.1

theorem unrecording_resetIntegrationState (config : Config) (name : String) (apply : Bool) :
    (resetIntegrationState loc config name apply).Each Unrecording := by
  unfold resetIntegrationState
  refine Prog.Each.bind trivial fun _ => Prog.Each.bind trivial fun name => Prog.Each.bind trivial fun _ => ?_
  split
  · refine Prog.Each.perform ?_
    intro f s l
    dsimp only
    split
    · exact unrecorded_setStatus s name
    · exact .refl s
    · exact unrecorded_setStatus s name
  · exact trivial

/-- A crash leaves the stores as they are. -/
def die (s : Store) (_ : Stored) : Store × Stored := (s, false)

/-- However such a call ends. -/
theorem run_unrecording {α : Type} {p : Procedure α} (hp : p.Each Unrecording) (moves : List (Move Choice))
    (s : Store) (l : Stored) : Unrecorded s (p.run die moves s l).shared := by
  let C : Contract Store Stored := ⟨fun _ s s' => s' = s, fun s _ s' _ => Unrecorded s s'⟩
  have hwp : wp C p (fun _ s' _ => Unrecorded s s') s l := by
    refine wp_of_each (P := Unrecording) (J := fun s' _ => Unrecorded s s') ?_ ?_ hp (.refl s)
    · rintro s' _ l' rfl h
      exact h
    · intro β a ha f s' l' h
      exact ⟨ha f s' l', h.trans (ha f s' l')⟩
  exact (wp_run die (I := fun s' _ => Unrecorded s s') (fun _ _ => rfl) (fun _ _ _ _ hg h => h.trans hg)
    (fun _ _ h => h) hwp (.refl s) moves).1

/-! ## Calls one after the other -/

/-- Where a sequence of calls has led.  `settled`: no call raised or crashed after it had changed the
envelope or the status, unless a later one returned; `reset`: the local state was reset since then. -/
structure Course where
  store : Store
  settled : Bool := true
  reset : Bool := false

def Task.isReset : Task → Bool
  | .reset _ _ _ => true
  | _ => false

/-- A call, with what the environment does to it. -/
def Course.call (provider : String) (x : Course) (c : Task × List (Move Choice)) : Course :=
  let o := (c.1.call loc).run die c.2 x.store false
  if c.1.isReset then { store := o.shared, settled := x.settled, reset := true }
  else
    match o.result with
    | some (.ok _) => { store := o.shared, settled := true, reset := false }
    | _ =>
      { store := o.shared
        settled := x.settled && o.shared.envelopes provider = x.store.envelopes provider &&
          o.shared.statuses provider = x.store.statuses provider
        reset := x.reset }

/-- Calls in a data directory where nothing is recorded yet; the sessions are any. -/
def Course.calls (provider : String) (sessions : String → Content SessionDocument)
    (cs : List (Task × List (Move Choice))) : Course :=
  cs.foldl (Course.call loc provider) { store := { sessions } }

/-- The last call that mattered wrote both, or there was none. -/
def Consistent (provider : String) (x : Course) : Prop :=
  x.settled = true → Written loc provider x.store ∨ Revoked provider x.store ∨
    x.store.statuses provider = .absent ∧ (x.reset = false → x.store.envelopes provider = .absent)

theorem consistent_reset {provider : String} {x : Course} (hx : Consistent loc provider x) {s : Store}
    (hs : Unrecorded x.store s) :
    Consistent loc provider { store := s, settled := x.settled, reset := true } := by
  intro hsettled
  rcases hs.statuses provider with hsame | habsent
  · rcases hx hsettled with ⟨payload, henvelope, hstatus⟩ | ⟨henvelope, status, hstatus, hstate⟩ | ⟨hstatus, -⟩
    · exact .inl ⟨payload, by rw [hs.envelopes, henvelope], by rw [hsame, hstatus]⟩
    · exact .inr (.inl ⟨by rw [hs.envelopes, henvelope], status, by rw [hsame, hstatus], hstate⟩)
    · exact .inr (.inr ⟨by rw [hsame, hstatus], nofun⟩)
  · exact .inr (.inr ⟨habsent, nofun⟩)

/-- A call that raised without a change. -/
theorem consistent_unchanged {provider : String} {x : Course} (hx : Consistent loc provider x) {s : Store} :
    Consistent loc provider
      { store := s
        settled := x.settled && s.envelopes provider = x.store.envelopes provider &&
          s.statuses provider = x.store.statuses provider
        reset := x.reset } := by
  intro hsettled
  simp only [Bool.and_eq_true, decide_eq_true_eq] at hsettled
  obtain ⟨⟨hsettled, henvelopes⟩, hstatuses⟩ := hsettled
  have hold := hx hsettled
  unfold Written Revoked at hold ⊢
  rw [← henvelopes, ← hstatuses] at hold
  exact hold

/-- What a call about the tokens has done when it returns. -/
theorem returns_call {provider : String} {task : Task} (ht : task.About loc provider)
    (hreset : task.isReset = false) (s : Store) :
    wp solo (task.call loc)
      (Returns fun _ s' _ => Written loc provider s' ∨ Revoked provider s') s false := by
  cases task with
  | start config name apply => exact absurd ht id
  | complete config name sessionId callbackUrl apply =>
    obtain rfl : loc.strip (loc.lower name) = provider := ht
    refine returns_bind (returns_completeOauthSession loc config name sessionId callbackUrl apply s false) ?_
    intro _ s l h
    exact Returns.ok (.inl h)
  | refresh config name apply =>
    obtain rfl : loc.strip (loc.lower name) = provider := ht
    refine returns_bind (returns_refreshToken loc config name apply s false) ?_
    intro _ s l h
    exact Returns.ok (.inl h)
  | revoke config name apply =>
    obtain rfl : loc.strip (loc.lower name) = provider := ht
    refine returns_bind (returns_revokeToken loc config name apply s false) ?_
    intro _ s l h
    exact Returns.ok (.inr h)
  | reset config name apply => cases hreset

/-- **One call** keeps the law. -/
theorem consistent_call {provider : String} {x : Course} (hx : Consistent loc provider x)
    {c : Task × List (Move Choice)} (hc : c.1.About loc provider) :
    Consistent loc provider (x.call loc provider c) := by
  obtain ⟨task, moves⟩ := c
  unfold Course.call
  by_cases hreset : task.isReset = true
  · cases task with
    | reset config name apply =>
      exact consistent_reset loc hx
        (run_unrecording (unrecording_resetIntegrationState loc config name apply) moves x.store false)
    | _ => cases hreset
  · have hreset : task.isReset = false := by simpa using hreset
    have hreturns := (wp_run die (C := solo) (I := fun _ _ => True) (fun _ _ => rfl)
      (fun _ _ _ _ _ _ => trivial) (fun _ _ _ => trivial) (returns_call loc hc hreset x.store) trivial moves).2
    simp only [hreset, Bool.false_eq_true, if_false]
    cases hresult : ((task.call loc).run die moves x.store false).result with
    | none => exact consistent_unchanged loc hx
    | some r =>
      cases r with
      | error e => exact consistent_unchanged loc hx
      | ok u =>
        intro _
        rcases hreturns _ hresult u rfl with h | h
        · exact .inl h
        · exact .inr (.inl h)

theorem consistent_calls {provider : String} {sessions : String → Content SessionDocument}
    {cs : List (Task × List (Move Choice))} (h : ∀ c ∈ cs, c.1.About loc provider) :
    Consistent loc provider (Course.calls loc provider sessions cs) := by
  have hrun : ∀ (cs : List (Task × List (Move Choice))) (x : Course), Consistent loc provider x →
      (∀ c ∈ cs, c.1.About loc provider) →
      Consistent loc provider (cs.foldl (Course.call loc provider) x) := by
    intro cs
    induction cs with
    | nil => exact fun x hx _ => hx
    | cons c cs ih =>
      intro x hx hcs
      exact ih _ (consistent_call loc hx (hcs c List.mem_cons_self)) fun c' hc' =>
        hcs c' (List.mem_cons_of_mem c hc')
  refine hrun cs _ ?_ h
  exact fun _ => .inr (.inr ⟨rfl, fun _ => rfl⟩)

theorem agrees_of_written {provider : String} {s : Store} (h : Written loc provider s) :
    Agrees s provider ∧ ∀ status, tokenStatus s provider = .ok status → status.state ≠ .notConfigured := by
  obtain ⟨payload, henvelope, hstatus⟩ := h
  have hread : tokenStatus s provider = .ok { tokenMetadataFromPayload loc payload with provider } := by
    rw [tokenStatus, hstatus]
  refine ⟨⟨?_, ?_⟩, ?_⟩
  · intro status hs _
    rw [hread] at hs
    cases hs
    exact ⟨payload, henvelope, rfl, rfl⟩
  · intro status hs hstate
    rw [hread] at hs
    cases hs
    cases hstate
  · intro status hs hstate
    rw [hread] at hs
    cases hs
    cases hstate

theorem agrees_of_revoked {provider : String} {s : Store} (h : Revoked provider s) :
    Agrees s provider ∧ ∀ status, tokenStatus s provider = .ok status → status.state ≠ .notConfigured := by
  obtain ⟨henvelope, status, hstatus, hstate⟩ := h
  have hread : tokenStatus s provider = .ok { status with provider } := by
    rw [tokenStatus, hstatus]
  refine ⟨⟨?_, fun _ _ _ => henvelope⟩, ?_⟩
  · intro status' hs hactive
    rw [hread] at hs
    cases hs
    rw [hstate] at hactive
    cases hactive
  · intro status' hs hnone
    rw [hread] at hs
    cases hs
    rw [hstate] at hnone
    cases hnone

theorem agrees_of_absent {provider : String} {s : Store} (h : s.statuses provider = .absent) :
    Agrees s provider := by
  refine ⟨?_, ?_⟩
  · intro status hs hstate
    rw [tokenStatus, h] at hs
    cases hs
    cases hstate
  · intro status hs hstate
    rw [tokenStatus, h] at hs
    cases hs
    cases hstate

end

/-! ## Examples -/

namespace Sample

/-- One session that can be completed. -/
def sessions (path : String) : Content SessionDocument :=
  if path = "drawn" then .whole
    { session :=
        { sessionId := "drawn", provider := "slack", state := "drawn", nonce := "drawn"
          codeChallenge := "", codeChallengeMethod := "S256", redirectUri := "", authorizationUrl := ""
          scopes := ["chat"], expiresAt := "2026-01-01T12:10:00+00:00", mutation := "stored_oauth_session" }
      codeVerifierHash := ""
      createdAt := "2026-01-01T12:00:00+00:00"
      start := 0 }
  else .absent

/-- Every step does what it should. -/
def calm : List (Move Choice) := List.replicate 8 (.go choice)

/-- The step after the first ones raises. -/
def failingAfter (steps : Nat) : List (Move Choice) :=
  List.replicate steps (.go choice) ++ [.go { choice with fault := some .raised }]

def complete : Task := .complete config "slack" "drawn" "callback" true

def refresh : Task := .refresh config "slack" true

def revoke : Task := .revoke config "slack" true

def reset : Task := .reset config "slack" true

def after (cs : List (Task × List (Move Choice))) : Store := (Course.calls loc "slack" sessions cs).store

def stateAfter (cs : List (Task × List (Move Choice))) : Except Failure TokenLifecycleState :=
  (tokenStatus (after cs) "slack").map TokenLifecycleStatus.state

/-- The count of the envelope, if there is one. -/
def countAfter (cs : List (Task × List (Move Choice))) : Option Int :=
  match (after cs).envelopes "slack" with
  | .whole envelope => some envelope.rotationCount
  | _ => none

end Sample

end ProjectMaya.Broker
