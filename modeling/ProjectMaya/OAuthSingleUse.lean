import ProjectMaya.BrokerTokens
import ProjectMaya.Logic.Covenant

/-! # Completions of an OAuth session

A completion reads the document of its session, checks its time and its state, and stores an
envelope.  Nothing takes the session away, so that what holds of one completion has to be asked of
the next: a session is completed once in the runs in which no completion is called for a session
that was completed, or that another call is about to complete. -/

namespace ProjectMaya.Broker

open Logic

/-- The session that a completion is called for. -/
def Task.session : Task → Option String
  | .complete _ _ sessionId _ _ => some sessionId
  | _ => none

def Completion.sessionId (e : Completion) : String := e.document.session.sessionId

/-- The session had not expired when the completion looked at the clock. -/
def Completion.Unexpired (e : Completion) : Prop :=
  ∃ expires, DateTime.fromisoformat e.document.session.expiresAt.toList = some expires ∧
    expires.le e.checkedAt = some false

/-! ## The invariant -/

/-- Every document is where its session is looked for, and in the history; and so is every completion. -/
structure Recorded (s : Store) : Prop where
  session : ∀ path document, s.sessions path = .whole document →
    document.session.sessionId = path ∧ s.opened[document.start]? = some document
  completion : ∀ e ∈ s.completed, s.opened[e.document.start]? = some e.document ∧ e.Unexpired

/-- The history of the documents has grown. -/
def Grown (s s' : Store) : Prop := ∃ t, s'.opened = s.opened ++ t

theorem Grown.refl (s : Store) : Grown s s := ⟨[], (List.append_nil _).symm⟩

theorem Grown.trans {s s' s'' : Store} (h : Grown s s') (h' : Grown s' s'') : Grown s s'' := by
  obtain ⟨t, ht⟩ := h
  obtain ⟨u, hu⟩ := h'
  exact ⟨t ++ u, by rw [hu, ht, List.append_assoc]⟩

theorem Grown.get {s s' : Store} (h : Grown s s') {n : Nat} {document : SessionDocument}
    (hd : s.opened[n]? = some document) : s'.opened[n]? = some document := by
  obtain ⟨t, ht⟩ := h
  rw [ht, List.getElem?_append_left (List.getElem?_eq_some_iff.mp hd).1, hd]

/-- One step of a call: it stores no envelope of a completion, or the one of its session. -/
inductive Stores (task : Task) (s : Store) (l : Stored) (s' : Store) (l' : Stored) : Prop
  | kept : s'.completed = s.completed → l' = l → Stores task s l s' l'
  | stored (e : Completion) : l = false → l' = true → task.session = some e.sessionId →
      s'.completed = s.completed ++ [e] → Stores task s l s' l'

def contract (task : Task) : Contract Store Stored where
  rely _ s s' := Grown s s' ∧ Recorded s'
  guar s l s' l' := Grown s s' ∧ Recorded s' ∧ Stores task s l s' l'

/-! ## Steps that store no completion -/

/-- A change of the stores that keeps the records and stores no completion. -/
def Harmless (f : Store → Store) : Prop :=
  ∀ s, Recorded s → Grown s (f s) ∧ Recorded (f s) ∧ (f s).completed = s.completed

def Mild {β : Type} (a : Action Choice Store Stored Failure β) : Prop :=
  ∀ f s l, (a.next f s l).2.2 = l ∧ (Recorded s → Grown s (a.next f s l).2.1 ∧
    Recorded (a.next f s l).2.1 ∧ (a.next f s l).2.1.completed = s.completed)

theorem harmless_id : Harmless id := fun s hs => ⟨.refl s, hs, rfl⟩

theorem harmless_setEnvelope (provider : String) (c : Content Envelope) :
    Harmless (·.setEnvelope provider c) := fun s hs =>
  ⟨.refl s, ⟨hs.session, hs.completion⟩, rfl⟩

theorem harmless_setStatus (provider : String) (c : Content TokenLifecycleStatus) :
    Harmless (·.setStatus provider c) := fun s hs =>
  ⟨.refl s, ⟨hs.session, hs.completion⟩, rfl⟩

theorem harmless_tornSession (path : String) : Harmless (·.setSession path .torn) := by
  intro s hs
  refine ⟨.refl s, ⟨?_, hs.completion⟩, rfl⟩
  intro path' document hd
  have hd : Function.update s.sessions path .torn path' = .whole document := hd
  by_cases hp : path' = path
  · subst hp
    rw [Function.update_self] at hd
    cases hd
  · rw [Function.update_of_ne hp] at hd
    exact hs.session path' document hd

theorem harmless_openSession {path : String} {session : OAuthSession} (h : session.sessionId = path)
    (codeVerifierHash createdAt : String) :
    Harmless (·.openSession path session codeVerifierHash createdAt) := by
  intro s hs
  have hgrown : Grown s (s.openSession path session codeVerifierHash createdAt) := ⟨_, rfl⟩
  refine ⟨hgrown, ⟨?_, ?_⟩, rfl⟩
  · intro path' document hd
    have hd : Function.update s.sessions path
      (.whole { session, codeVerifierHash, createdAt, start := s.opened.length }) path' = .whole document := hd
    by_cases hp : path' = path
    · subst hp
      rw [Function.update_self] at hd
      cases hd
      exact ⟨h, List.getElem?_concat_length⟩
    · rw [Function.update_of_ne hp] at hd
      obtain ⟨hid, hopened⟩ := hs.session path' document hd
      exact ⟨hid, hgrown.get hopened⟩
  · intro e he
    obtain ⟨hopened, hfresh⟩ := hs.completion e he
    exact ⟨hgrown.get hopened, hfresh⟩

theorem mild_change {done halfway : Store → Store} (hd : Harmless done) (hh : Harmless halfway) :
    (change done halfway).Each Mild := by
  refine .perform ?_
  intro f s l
  dsimp only
  split
  · exact ⟨rfl, hd s⟩
  · exact ⟨rfl, harmless_id s⟩
  · exact ⟨rfl, hh s⟩

theorem mild_tokenUrlsafe : tokenUrlsafe.Each Mild := .perform fun _ s _ => ⟨rfl, harmless_id s⟩

theorem mild_now : now.Each Mild := .perform fun _ s _ => ⟨rfl, harmless_id s⟩

theorem mild_timeAfter (loc : Locale) (delta : Int) : (timeAfter loc delta).Each Mild :=
  mild_now.bind fun _ => Prog.Each.bind trivial fun _ => trivial

theorem mild_readSecret (provider : String) : (readSecret provider).Each Mild := by
  refine .perform ?_
  intro f s l
  dsimp only
  split
  · exact ⟨rfl, harmless_id s⟩
  · split
    · exact ⟨rfl, harmless_id s⟩
    · exact ⟨rfl, harmless_id s⟩

theorem mild_writeTokenMetadata (provider : String) (metadata : TokenLifecycleStatus) :
    (writeTokenMetadata provider metadata).Each Mild :=
  (mild_change (harmless_setStatus _ _) (harmless_setStatus _ _)).bind fun _ =>
    mild_change (harmless_setStatus _ _) harmless_id

theorem sessionPath_eq_ok {loc : Locale} {sessionId path : String} (h : sessionPath loc sessionId = .ok path) :
    path = sessionId := by
  simp only [sessionPath, bind_eq_ok, pure_eq_ok] at h
  obtain ⟨-, -, h⟩ := h
  exact h.symm

theorem mild_writeSession (loc : Locale) (session : OAuthSession) (verifier : String) :
    (writeSession loc session verifier).Each Mild := by
  unfold writeSession
  cases hpath : sessionPath loc session.sessionId with
  | error e => exact trivial
  | ok path =>
    have hid := sessionPath_eq_ok hpath
    refine mild_now.bind fun _ => Prog.Each.bind trivial fun createdAt => ?_
    exact (mild_change (harmless_tornSession path) (harmless_tornSession path)).bind fun _ =>
      mild_change (harmless_openSession hid.symm _ _) harmless_id

theorem mild_startOauthSession (loc : Locale) (config : Config) (provider : String) (apply : Bool) :
    (startOauthSession loc config provider apply).Each Mild := by
  unfold startOauthSession
  refine Prog.Each.bind trivial fun _ => Prog.Each.bind trivial fun _ => Prog.Each.bind trivial fun _ => ?_
  refine mild_tokenUrlsafe.bind fun _ => mild_tokenUrlsafe.bind fun _ => mild_tokenUrlsafe.bind fun _ => ?_
  refine mild_tokenUrlsafe.bind fun _ => Prog.Each.bind trivial fun _ => (mild_timeAfter _ _).bind fun _ => ?_
  split
  · exact (mild_writeSession _ _ _).bind fun _ => trivial
  · exact trivial

theorem mild_refreshToken (loc : Locale) (config : Config) (provider : String) (apply : Bool) :
    (refreshToken loc config provider apply).Each Mild := by
  unfold refreshToken
  refine Prog.Each.bind trivial fun _ => Prog.Each.bind trivial fun _ => Prog.Each.bind trivial fun _ => ?_
  refine (mild_readSecret _).bind fun _ => mild_tokenUrlsafe.bind fun _ => (mild_timeAfter _ _).bind fun _ => ?_
  have hrest (payload : Envelope) (result : BrokerOperationResult) (provider : String) :
      (do
        writeSecret provider payload
        writeTokenMetadata provider (tokenMetadataFromPayload loc payload)
        return result : Procedure BrokerOperationResult).Each Mild :=
    (mild_change (harmless_setEnvelope _ _) (harmless_setEnvelope _ _)).bind fun _ =>
      (mild_writeTokenMetadata _ _).bind fun _ => trivial
  split
  · exact mild_tokenUrlsafe.bind fun _ => hrest _ _ _
  · exact hrest _ _ _

theorem mild_revokeToken (loc : Locale) (config : Config) (provider : String) (apply : Bool) :
    (revokeToken loc config provider apply).Each Mild := by
  unfold revokeToken
  refine Prog.Each.bind trivial fun _ => Prog.Each.bind trivial fun _ => Prog.Each.bind trivial fun _ => ?_
  refine (mild_change (harmless_setEnvelope _ _) harmless_id).bind fun _ => (mild_timeAfter _ _).bind fun _ => ?_
  exact (mild_writeTokenMetadata _ _).bind fun _ => trivial

theorem mild_resetIntegrationState (loc : Locale) (config : Config) (name : String) (apply : Bool) :
    (resetIntegrationState loc config name apply).Each Mild := by
  unfold resetIntegrationState
  refine Prog.Each.bind trivial fun _ => Prog.Each.bind trivial fun _ => Prog.Each.bind trivial fun _ => ?_
  split
  · exact mild_change (harmless_setStatus _ _) (harmless_setStatus _ _)
  · exact trivial

/-! ## Completions -/

/-- What a call does keeps the contract, whatever it returns. -/
abbrev Safe {α : Type} (task : Task) (p : Procedure α) (s : Store) (l : Stored) : Prop :=
  wp (contract task) p (fun _ _ _ => True) s l

section

variable {α β : Type} {task : Task}

theorem safe_check {x : Except Failure α} {f : α → Procedure β} {s : Store} {l : Stored}
    (h : ∀ a, x = .ok a → Safe task (f a) s l) : Safe task (.done x >>= f) s l := by
  cases x with
  | error e => exact trivial
  | ok a => exact h a rfl

theorem wp_mild {p : Procedure α} (hp : p.Each Mild) {J : Store → Prop}
    (hJ : ∀ s s', Grown s s' → J s → J s') {s : Store} {l : Stored} (hs : Recorded s) (h : J s) :
    wp (contract task) p (fun _ s' l' => l' = l ∧ Recorded s' ∧ J s') s l := by
  refine wp_of_each (P := Mild) (J := fun s' l' => l' = l ∧ Recorded s' ∧ J s') ?_ ?_ hp ⟨rfl, hs, h⟩
  · rintro s s' l' ⟨hgrown, hrecorded⟩ ⟨hl, -, hj⟩
    exact ⟨hl, hrecorded, hJ s s' hgrown hj⟩
  · rintro β a ha f s l' ⟨rfl, hs, hj⟩
    obtain ⟨hl, hmild⟩ := ha f s l'
    obtain ⟨hgrown, hrecorded, hsame⟩ := hmild hs
    exact ⟨⟨hgrown, hrecorded, .kept hsame hl⟩, hl, hrecorded, hJ _ _ hgrown hj⟩

theorem safe_of_mild {p : Procedure α} (hp : p.Each Mild) {s : Store} {l : Stored} (hs : Recorded s) :
    Safe task p s l :=
  wp_mono (wp_mild hp (J := fun _ => True) (fun _ _ _ h => h) hs trivial) fun _ _ _ _ => trivial

/-- What grows with the history is kept over such steps. -/
theorem safe_mild {p : Procedure α} {f : α → Procedure β} (hp : p.Each Mild) {J : Store → Prop}
    (hJ : ∀ s s', Grown s s' → J s → J s') {s : Store} {l : Stored} (hs : Recorded s) (h : J s)
    (hf : ∀ a s', Recorded s' → J s' → Safe task (f a) s' l) : Safe task (p >>= f) s l := by
  refine wp_bind (wp_mild hp hJ hs h) ?_ fun _ _ _ _ => trivial
  rintro a s' l' ⟨rfl, hs', hj⟩
  exact hf a s' hs' hj

theorem safe_readSession {loc : Locale} {sessionId : String} {f : SessionDocument → Procedure β} {s : Store}
    {l : Stored}
    (hf : ∀ document s', Recorded s' → document.session.sessionId = sessionId →
      s'.opened[document.start]? = some document → Safe task (f document) s' l) :
    Safe task (readSession loc sessionId >>= f) s l := by
  unfold readSession
  cases hpath : sessionPath loc sessionId with
  | error e => exact trivial
  | ok path =>
    have hid := sessionPath_eq_ok hpath
    rintro s' ⟨-, hs'⟩ choice
    have hkept : Stores task s' l s' l := .kept rfl rfl
    dsimp only
    split
    · exact ⟨⟨.refl s', hs', hkept⟩, trivial⟩
    · split
      · exact ⟨⟨.refl s', hs', hkept⟩, trivial⟩
      · exact ⟨⟨.refl s', hs', hkept⟩, trivial⟩
      · next document hdocument =>
        obtain ⟨hsession, hopened⟩ := hs'.session path document hdocument
        exact ⟨⟨.refl s', hs', hkept⟩, hf document s' hs' (hsession.trans hid) hopened⟩

theorem safe_writeCompletion {provider : String} {payload : Envelope} {e : Completion}
    {f : Unit → Procedure β} {s : Store} (ht : task.session = some e.sessionId) (hfresh : e.Unexpired)
    (hs : s.opened[e.document.start]? = some e.document)
    (hf : ∀ s' l', Recorded s' → Safe task (f ()) s' l') :
    Safe task (writeCompletion provider payload e >>= f) s false := by
  rintro s' ⟨hgrown, hs'⟩ choice
  have hopened := hgrown.get hs
  dsimp only
  split
  · have hrecorded : Recorded { s'.setEnvelope provider (.whole payload) with
        completed := s'.completed ++ [e] } := by
      refine ⟨hs'.session, ?_⟩
      intro e' he'
      rcases List.mem_append.mp he' with he' | he'
      · exact hs'.completion e' he'
      · rw [List.mem_singleton.mp he']
        exact ⟨hopened, hfresh⟩
    exact ⟨⟨.refl _, hrecorded, .stored e rfl rfl ht rfl⟩, hf _ _ hrecorded⟩
  · exact ⟨⟨.refl _, hs', .kept rfl rfl⟩, trivial⟩
  · obtain ⟨hg, hr, hsame⟩ := harmless_setEnvelope provider .torn s' hs'
    exact ⟨⟨hg, hr, .kept hsame rfl⟩, trivial⟩

/-- A check of the time that succeeds finds the message unexpired. -/
theorem unexpired_of_requireFresh {document : SessionDocument} {checkedAt : DateTime}
    (h : requireFresh document.createdAt document.session.expiresAt checkedAt = .ok ()) :
    Completion.Unexpired { document, checkedAt } := by
  simp only [requireFresh, parseTime, bind_eq_ok, fetch_eq_ok, ensure_eq_ok] at h
  obtain ⟨-, -, expires, hexpires, -, -, -, -, -, -, expired, hexpired, rfl⟩ := h
  exact ⟨expires, hexpires, hexpired⟩

theorem safe_completeOauthSession {loc : Locale} {config : Config} {provider sessionId callbackUrl : String}
    {apply : Bool} {s : Store} (ht : task.session = some sessionId) :
    Safe task (completeOauthSession loc config provider sessionId callbackUrl apply) s false := by
  unfold completeOauthSession
  refine safe_check fun _ _ => safe_check fun provider _ => safe_check fun _ _ => ?_
  refine safe_readSession fun document s' hs' hid hopened => safe_check fun _ _ => ?_
  have hgrows : ∀ s s', Grown s s' → s.opened[document.start]? = some document →
      s'.opened[document.start]? = some document := fun _ _ hg => hg.get
  refine safe_mild mild_now hgrows hs' hopened fun checkedAt s' hs' hopened => ?_
  refine safe_check fun _ hfresh => safe_check fun _ _ => safe_check fun _ _ => safe_check fun _ _ => ?_
  refine safe_mild mild_tokenUrlsafe hgrows hs' hopened fun _ s' hs' hopened => ?_
  refine safe_mild mild_tokenUrlsafe hgrows hs' hopened fun _ s' hs' hopened => ?_
  refine safe_mild (mild_timeAfter _ _) hgrows hs' hopened fun _ s' hs' hopened => ?_
  refine safe_writeCompletion (ht.trans (congrArg some hid.symm)) (unexpired_of_requireFresh hfresh) hopened ?_
  intro s' l' hs'
  refine safe_of_mild ?_ hs'
  exact (mild_writeTokenMetadata _ _).bind fun _ => trivial

/-- Every call keeps its contract. -/
theorem safe_call (loc : Locale) (task : Task) {s : Store} (hs : Recorded s) :
    Safe task (task.call loc) s false := by
  cases task with
  | start config provider apply =>
    refine safe_of_mild ?_ hs
    exact (mild_startOauthSession loc config provider apply).bind fun _ => trivial
  | complete config provider sessionId callbackUrl apply =>
    exact wp_bind (safe_completeOauthSession rfl) (fun _ _ _ _ => trivial) fun _ _ _ _ => trivial
  | refresh config provider apply =>
    refine safe_of_mild ?_ hs
    exact (mild_refreshToken loc config provider apply).bind fun _ => trivial
  | revoke config provider apply =>
    refine safe_of_mild ?_ hs
    exact (mild_revokeToken loc config provider apply).bind fun _ => trivial
  | reset config name apply => exact safe_of_mild (mild_resetIntegrationState loc config name apply) hs

end

/-- The calls tolerate each other. -/
def covenant (loc : Locale) : Covenant (processes loc) where
  inv := Recorded
  own _ _ := True
  law _ _ := True
  contract := contract
  post _ _ _ _ := True
  own_enter _ _ _ := trivial
  law_enter _ _ := trivial
  enter _ task _ _ hs _ := safe_call loc task hs
  rely_refl _ _ s hs := ⟨.refl s, hs⟩
  rely_trans _ _ _ _ _ h h' := ⟨h.1.trans h'.1, h'.2⟩
  post_stable _ _ _ _ _ _ _ := trivial
  keep _ _ _ _ _ _ _ _ _ h := ⟨h.2.1, trivial, trivial⟩
  keep_die _ _ _ hs _ := ⟨hs, trivial⟩
  rely_guar _ _ _ _ _ _ _ _ _ _ _ _ _ h := ⟨h.1, h.2.1⟩
  rely_die _ _ _ _ s _ _ hs _ _ := ⟨.refl s, hs⟩

/-! ## Runs -/

abbrev State := Logic.Config Choice Store Stored Failure Task Unit

/-- Nobody has done anything yet. -/
def fresh : State := .initial {} fun _ => false

/-- A completion for this session is under way at the host. -/
def Calling (c : State) (p : Nat) (sessionId : String) : Prop :=
  ∃ task k, (c.host p).running = some (task, k) ∧ task.session = some sessionId

/-- A completion is called only for a session that was not completed, and that no other call is
completing. -/
def Unused (c : State) (t : Turn Choice Task) : Prop :=
  ∀ p task sessionId, t = .start p task → task.session = some sessionId →
    (∀ e ∈ c.shared.completed, e.sessionId ≠ sessionId) ∧ ∀ q ≠ p, ¬ Calling c q sessionId

/-- The invariant of such runs. -/
structure Single (c : State) : Prop where
  ids : c.shared.completed.Pairwise fun e e' => e.sessionId ≠ e'.sessionId
  pending : ∀ p sessionId, Calling c p sessionId → (c.host p).loc = false →
    ∀ e ∈ c.shared.completed, e.sessionId ≠ sessionId
  apart : ∀ p q sessionId, Calling c p sessionId → Calling c q sessionId → p = q

theorem calling_set_ne {c : State} {p q : Nat} {s : Store} {h : Logic.Host Choice Store Stored Failure Task Unit}
    (hq : q ≠ p) {sessionId : String} : Calling (c.set p s h) q sessionId ↔ Calling c q sessionId := by
  unfold Calling
  rw [Logic.Config.host_set_ne c s h hq]

/-- Whoever calls after a host has moved on called before. -/
theorem calling_of_set {c : State} {p q : Nat} {s : Store}
    {h : Logic.Host Choice Store Stored Failure Task Unit}
    (hsame : ∀ task k, h.running = some (task, k) → ∃ k', (c.host p).running = some (task, k'))
    {sessionId : String} (hcall : Calling (c.set p s h) q sessionId) : Calling c q sessionId := by
  by_cases hq : q = p
  · subst hq
    obtain ⟨task, k, hrun, hid⟩ := hcall
    rw [Logic.Config.host_set_self] at hrun
    obtain ⟨k', hrun⟩ := hsame task k hrun
    exact ⟨task, k', hrun, hid⟩
  · exact (calling_set_ne hq).mp hcall

/-- A host moves on without storing. -/
theorem Single.kept {c : State} (hc : Single c) {p : Nat} {s : Store}
    {h : Logic.Host Choice Store Stored Failure Task Unit} (hs : s.completed = c.shared.completed)
    (hsame : ∀ task k, h.running = some (task, k) → ∃ k', (c.host p).running = some (task, k'))
    (hl : h.running = none ∨ h.loc = (c.host p).loc) : Single (c.set p s h) := by
  refine ⟨?_, ?_, ?_⟩
  · rw [Logic.Config.shared_set, hs]
    exact hc.ids
  · intro q sessionId hcall hloc
    rw [Logic.Config.shared_set, hs]
    refine hc.pending q sessionId (calling_of_set hsame hcall) ?_
    by_cases hq : q = p
    · subst hq
      obtain ⟨task, k, hrun, -⟩ := hcall
      rw [Logic.Config.host_set_self] at hloc hrun
      rcases hl with hnone | hl
      · rw [hnone] at hrun
        cases hrun
      · rw [← hl]
        exact hloc
    · rwa [Logic.Config.host_set_ne c s h hq] at hloc
  · intro q q' sessionId hcall hcall'
    exact hc.apart q q' sessionId (calling_of_set hsame hcall) (calling_of_set hsame hcall')

/-- A host stores the envelope of its session. -/
theorem Single.stored {c : State} (hc : Single c) {p : Nat} {s : Store}
    {h : Logic.Host Choice Store Stored Failure Task Unit} {e : Completion} (hcall : Calling c p e.sessionId)
    (hpending : (c.host p).loc = false) (hs : s.completed = c.shared.completed ++ [e])
    (hsame : ∀ task k, h.running = some (task, k) → ∃ k', (c.host p).running = some (task, k'))
    (hl : h.loc = true) : Single (c.set p s h) := by
  have hnew := hc.pending p e.sessionId hcall hpending
  refine ⟨?_, ?_, ?_⟩
  · rw [Logic.Config.shared_set, hs, List.pairwise_append]
    refine ⟨hc.ids, List.pairwise_singleton _ _, ?_⟩
    intro e' he' e'' he''
    rw [List.mem_singleton.mp he'']
    exact hnew e' he'
  · intro q sessionId hcallq hloc e' he'
    by_cases hq : q = p
    · subst hq
      rw [Logic.Config.host_set_self, hl] at hloc
      cases hloc
    · have hcallq := (calling_set_ne hq).mp hcallq
      rw [Logic.Config.host_set_ne c s h hq] at hloc
      rw [Logic.Config.shared_set, hs] at he'
      rcases List.mem_append.mp he' with he' | he'
      · exact hc.pending q sessionId hcallq hloc e' he'
      · rw [List.mem_singleton.mp he']
        rintro rfl
        exact hq (hc.apart q p e.sessionId hcallq hcall)
  · intro q q' sessionId hcallq hcallq'
    exact hc.apart q q' sessionId (calling_of_set hsame hcallq) (calling_of_set hsame hcallq')

/-- A host starts a call. -/
theorem Single.start {c : State} (hc : Single c) {p : Nat} {task : Task} {k : Procedure Unit}
    (hnew : ∀ sessionId, task.session = some sessionId →
      (∀ e ∈ c.shared.completed, e.sessionId ≠ sessionId) ∧ ∀ q ≠ p, ¬ Calling c q sessionId) :
    Single (c.set p c.shared ⟨false, some (task, k)⟩) := by
  have hself : ∀ {sessionId}, Calling (c.set p c.shared ⟨false, some (task, k)⟩) p sessionId →
      task.session = some sessionId := by
    rintro sessionId ⟨task', k', hrun, hid⟩
    rw [Logic.Config.host_set_self] at hrun
    cases hrun
    exact hid
  refine ⟨hc.ids, ?_, ?_⟩
  · intro q sessionId hcall hloc
    by_cases hq : q = p
    · subst hq
      exact (hnew sessionId (hself hcall)).1
    · rw [Logic.Config.host_set_ne c _ _ hq] at hloc
      exact hc.pending q sessionId ((calling_set_ne hq).mp hcall) hloc
  · intro q q' sessionId hcall hcall'
    by_cases hq : q = p
    · subst hq
      by_contra hne
      have hq' := Ne.symm hne
      exact (hnew sessionId (hself hcall)).2 q' hq' ((calling_set_ne hq').mp hcall')
    · by_cases hq' : q' = p
      · subst hq'
        exact absurd ((calling_set_ne hq).mp hcall) ((hnew sessionId (hself hcall')).2 q hq)
      · exact hc.apart q q' sessionId ((calling_set_ne hq).mp hcall) ((calling_set_ne hq').mp hcall')

/-- **One turn** of such a run. -/
theorem single_turn {loc : Locale} {c : State} (hgood : (covenant loc).Good c) (hc : Single c)
    {t : Turn Choice Task} (ht : Unused c t) : Single ((processes loc).turn c t) := by
  cases t with
  | start p task =>
    cases hrun : (c.host p).running with
    | some x =>
      simp only [System.turn, hrun]
      exact hc
    | none =>
      simp only [System.turn, hrun]
      exact hc.start fun sessionId hid => ht p task sessionId rfl hid
  | act p f =>
    cases hrun : (c.host p).running with
    | none =>
      simp only [System.turn, hrun]
      exact hc
    | some x =>
      obtain ⟨task, prog⟩ := x
      cases prog with
      | done r =>
        simp only [System.turn, hrun]
        exact hc.kept rfl (fun _ _ hrun => by cases hrun) (.inl rfl)
      | step a k =>
        obtain ⟨-, -, hstores⟩ := ((hgood.busy p task _ hrun).2 c.shared ⟨.refl _, hgood.inv⟩ f).1
        simp only [System.turn, hrun]
        have hsame : ∀ task' k', some (task, k (a.next f c.shared (c.host p).loc).1) = some (task', k') →
            ∃ k'', (c.host p).running = some (task', k'') := by
          rintro task' k' ⟨⟩
          exact ⟨_, hrun⟩
        cases hstores with
        | kept hs hl => exact hc.kept hs hsame (.inr hl)
        | stored e hpending hl hid hs => exact hc.stored ⟨task, _, hrun, hid⟩ hpending hs hsame hl
  | crash p => exact hc.kept rfl (fun _ _ hrun => by cases hrun) (.inl rfl)

theorem good_fresh (loc : Locale) : (covenant loc).Good fresh :=
  Covenant.good_initial _ ⟨nofun, nofun⟩ fun _ => trivial

theorem single_fresh : Single fresh := by
  refine ⟨List.Pairwise.nil, ?_, ?_⟩
  · rintro p sessionId ⟨task, k, hrun, -⟩
    cases hrun
  · rintro p q sessionId ⟨task, k, hrun, -⟩
    cases hrun

/-- **Any run** of that kind. -/
theorem single_run {loc : Locale} {c : State} (hgood : (covenant loc).Good c) (hc : Single c)
    {turns : List (Turn Choice Task)} (hrun : (processes loc).Along Unused c turns) :
    Single ((processes loc).run c turns) := by
  induction turns generalizing c with
  | nil => exact hc
  | cons t turns ih =>
    exact ih ((covenant loc).good_turn hgood t) (single_turn hgood hc hrun.1) hrun.2

/-- **Single use.**  In every interleaving of the calls, with failures and crashes at any step: an
envelope is stored only by a completion that found its session unexpired; and where completions
are called only for sessions that were not completed and that no other call is completing, no
session is completed twice. -/
theorem oauth_single_use (loc : Locale) (turns : List (Turn Choice Task)) :
    let c := (processes loc).run fresh turns
    (∀ e ∈ c.shared.completed, e.Unexpired) ∧
    ((processes loc).Along Unused fresh turns →
      (c.shared.completed.map fun e => e.document.start).Nodup) := by
  intro c
  have hgood : (covenant loc).Good c := (covenant loc).good_run (good_fresh loc) turns
  refine ⟨fun e he => (hgood.inv.completion e he).2, fun hrun => ?_⟩
  have hsingle : Single c := single_run (good_fresh loc) single_fresh hrun
  rw [List.Nodup, List.pairwise_map]
  refine hsingle.ids.imp_of_mem ?_
  intro e e' he he' hne hstart
  have hopened := (hgood.inv.completion e he).1
  have hopened' := (hgood.inv.completion e' he').1
  rw [hstart, hopened'] at hopened
  have hdocument : e'.document = e.document := Option.some.inj hopened
  exact hne (congrArg (fun document => document.session.sessionId) hdocument.symm)

namespace Sample

/-- A call of the host 0, up to its end. -/
def alone (task : Task) (steps : Nat) : List (Turn Choice Task) :=
  .start 0 task :: List.replicate steps (.act 0 choice)

def starting : List (Turn Choice Task) := alone (.start config "slack" true) 9

def completing : List (Turn Choice Task) := alone (.complete config "slack" "drawn" "callback" true) 9

def revoking : List (Turn Choice Task) := alone (.revoke config "slack" true) 5

/-- A test of `Unused`, where only the host 0 has turns. -/
def unusedTurn (c : State) (t : Turn Choice Task) : Bool :=
  match t with
  | .start _ task => task.session.isNone || c.shared.completed.isEmpty
  | _ => true

/-- A session that is completed once. -/
theorem completed_once :
    let c := (processes loc).run fresh (starting ++ completing)
    (∀ e ∈ c.shared.completed, e.Unexpired) ∧ (c.shared.completed.map fun e => e.document.start).Nodup ∧
      (c.shared.completed.map fun e => e.document.start) = [0] := by
  have hhost : ∀ t ∈ starting ++ completing, t.host = 0 := by decide
  have htests : (processes loc).Along (fun c t => unusedTurn c t = true) fresh (starting ++ completing) := by
    decide +kernel
  have hidle : (processes loc).Along (fun c _ => ∀ q, q ≠ 0 → c.host q = fresh.host q) fresh
      (starting ++ completing) := by
    refine System.along_of_split fun us t vs heq q hq => System.host_run_ne _ _ fun u hu => ?_
    rw [hhost u (heq ▸ List.mem_append_left _ hu)]
    exact hq
  have hzero : (processes loc).Along (fun _ t => t.host = 0) fresh (starting ++ completing) :=
    System.along_of_split fun us t vs heq => hhost t (heq ▸ List.mem_append_right us List.mem_cons_self)
  have hrun : (processes loc).Along Unused fresh (starting ++ completing) := by
    refine ((htests.and hidle).and hzero).mono ?_
    rintro c t ⟨⟨htest, hidle⟩, hzero⟩ p task sessionId rfl hid
    refine ⟨?_, ?_⟩
    · simp only [unusedTurn, hid, Option.isNone_some, Bool.false_or, List.isEmpty_iff] at htest
      rw [htest]
      nofun
    · rintro q hq ⟨task', k, hrun, -⟩
      rw [hidle q (fun h => hq (h.trans hzero.symm))] at hrun
      cases hrun
  obtain ⟨hunexpired, hnodup⟩ := oauth_single_use loc (starting ++ completing)
  exact ⟨hunexpired, hnodup hrun, by decide +kernel⟩

/-- A callback that is presented a second time, after the tokens were revoked, stores a second
envelope. -/
theorem replayed_callback :
    let revoked := (processes loc).run fresh (starting ++ completing ++ revoking)
    let replayed := (processes loc).run fresh (starting ++ completing ++ revoking ++ completing)
    ¬ (replayed.shared.completed.map fun e => e.document.start).Nodup ∧
      revoked.shared.envelopes "slack" = .absent ∧ replayed.shared.envelopes "slack" ≠ .absent := by
  decide +kernel

end Sample

end ProjectMaya.Broker
