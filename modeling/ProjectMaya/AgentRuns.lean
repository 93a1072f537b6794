import ProjectMaya.Agent
import ProjectMaya.Logic.Covenant
import ProjectMaya.Logic.History

/-! # When the runtime of an agent runs

The runtime is observed: every call of one of its methods, and every end of one, is recorded, and
what it answers is left to the environment.  `run` is never called before `start` has returned
(`StartedFirst`).  After a call of `stop` it can be: a thread that has passed the check of
`Agent.run` calls the runtime without the lock.  In runs where `stop` is called only while no
thread is there (`Settled`) no `run` follows a `stop` (`run_between_start_and_stop`). -/

namespace ProjectMaya.Facade

open Logic

inductive Method where
  | compatibility
  | attachMemory
  | loadPlugin
  | start
  | run
  | stop
  deriving DecidableEq, Repr

inductive Event where
  | called (method : Method)
  | returned (method : Method)
  | raised (method : Method)
  deriving DecidableEq, Repr

/-- What the environment answers at the end of a method. -/
structure Answer (O : Type) where
  compatibility : Except Exn RuntimeCompatibility := .ok
    { runtimeName := "", runtimeVersion := "", supportedContract := "", compatible := true }
  call : Except Exn Unit := .ok ()
  result : Except Exn (Option O) := .ok none

instance {O : Type} : Inhabited (Answer O) := ⟨{}⟩

/-- The runtime's state is the history of its calls, oldest first. -/
abbrev World (O : Type) := Shared O (List Event)

abbrev WatchedAct (O β : Type) := Act (Answer O) O (List Event) β

abbrev Watched (O α : Type) := Code (Answer O) O (List Event) α

section

variable {O β : Type}

/-- A method is called. -/
def Act.enter (method : Method) : WatchedAct O Unit where
  next _ s p :=
    (.ok (), { s with
      runtime := s.runtime ++ [.called method]
      entering := if method = .run then s.entering.erase p else s.entering }, p)

def ended (method : Method) : Except Exn β → Event
  | .ok _ => .returned method
  | .error _ => .raised method

/-- A method ends. -/
def Act.leave (method : Method) (answer : Answer O → Except Exn β) : WatchedAct O β where
  next c s p := (answer c, { s with runtime := s.runtime ++ [ended method (answer c)] }, p)

def callMethod (method : Method) (answer : Answer O → Except Exn β) : Watched O β := do
  .perform (Act.enter method)
  .perform (Act.leave method answer)

/-- Any runtime, as the agent sees it. -/
def observed : AgentRuntime (Answer O) O (List Event) where
  compatibility := callMethod .compatibility Answer.compatibility
  attachMemory _ := callMethod .attachMemory Answer.call
  loadPlugin _ _ := callMethod .loadPlugin Answer.call
  start _ := callMethod .start Answer.call
  run _ _ := callMethod .run Answer.result
  stop := callMethod .stop Answer.call

/-- `run` is called only after `start` has returned. -/
def StartedFirst : List Event → Prop :=
  Justified fun before e => e = .called .run → .returned .start ∈ before

/-- `run` is not called after `stop`. -/
def NeverStopped : List Event → Prop :=
  Justified fun before e => e = .called .run → .called .stop ∉ before

/-! ## What the threads keep -/

structure Inv (s : World O) : Prop where
  started : StartedFirst s.runtime
  entering : ∀ q ∈ s.entering, .returned .start ∈ s.runtime
  running : s.agent.state = .running → .returned .start ∈ s.runtime
  unstopped : s.agent.state = .created ∨ s.agent.state = .running → .called .stop ∉ s.runtime

/-- What a thread can count on while the others act. -/
structure Later (p : Nat) (s s' : World O) : Prop where
  events : ∀ e ∈ s.runtime, e ∈ s'.runtime
  entering : p ∈ s.entering → p ∈ s'.entering
  holder : s.holder = some p → s'.holder = some p
  agent : s.holder = some p → s'.agent = s.agent
  unstopped : s.holder = some p → .called .stop ∉ s.runtime → .called .stop ∉ s'.runtime

/-- What one turn of a thread does. -/
inductive Does (p : Nat) (s s' : World O) : Prop
  | within : s'.runtime = s.runtime → s'.entering = s.entering →
      s.holder = none ∨ s.holder = some p ∨ s' = s → Does p s s'
  | passed : s.agent.state = .running → s' = { s with entering := p :: s.entering } → Does p s s'
  | happened {e : Event} : e ≠ .called .run → (e = .called .stop → s.holder = some p) →
      s' = { s with runtime := s.runtime ++ [e] } → Does p s s'
  | entered : p ∈ s.entering →
      s' = { s with runtime := s.runtime ++ [.called .run], entering := s.entering.erase p } → Does p s s'

variable {p q : Nat} {s s' s'' : World O}

theorem Later.refl (p : Nat) (s : World O) : Later p s s :=
  ⟨fun _ h => h, fun h => h, fun h => h, fun _ => rfl, fun _ h => h⟩

theorem Later.trans (h : Later p s s') (h' : Later p s' s'') : Later p s s'' where
  events e he := h'.events e (h.events e he)
  entering hp := h'.entering (h.entering hp)
  holder hs := h'.holder (h.holder hs)
  agent hs := (h'.agent (h.holder hs)).trans (h.agent hs)
  unstopped hs hn := h'.unstopped (h.holder hs) (h.unstopped hs hn)

theorem Does.events (h : Does p s s') : ∀ e ∈ s.runtime, e ∈ s'.runtime := by
  cases h with
  | within hevents _ _ =>
    rw [hevents]
    exact fun _ he => he
  | passed _ heq =>
    subst heq
    exact fun _ he => he
  | happened _ _ heq =>
    subst heq
    exact fun _ he => List.mem_append_left _ he
  | entered _ heq =>
    subst heq
    exact fun _ he => List.mem_append_left _ he

/-- What one thread does, the others can count on. -/
theorem Does.later (h : Does p s s') (hne : q ≠ p) : Later q s s' := by
  have hevents := h.events
  cases h with
  | within hruntime hentering hfree =>
    have hother : s.holder = some q → s' = s := by
      intro hq
      rw [hq] at hfree
      rcases hfree with h | h | h
      · cases h
      · exact absurd (Option.some.inj h) hne
      · exact h
    refine ⟨hevents, ?_, ?_, ?_, ?_⟩
    · rw [hentering]
      exact fun hq => hq
    · intro hq
      rw [hother hq]
      exact hq
    · intro hq
      rw [hother hq]
    · rw [hruntime]
      exact fun _ hn => hn
  | passed _ heq =>
    subst heq
    exact ⟨hevents, fun hq => List.mem_cons_of_mem p hq, fun hq => hq, fun _ => rfl, fun _ hn => hn⟩
  | happened _ hstop heq =>
    subst heq
    refine ⟨hevents, fun hq => hq, fun hq => hq, fun _ => rfl, ?_⟩
    intro hq hn hmem
    rcases List.mem_append.1 hmem with h | h
    · exact hn h
    · have hp := hstop (List.mem_singleton.1 h).symm
      rw [hq] at hp
      exact hne (Option.some.inj hp)
  | entered _ heq =>
    subst heq
    refine ⟨hevents, fun hq => (List.mem_erase_of_ne hne).2 hq, fun hq => hq, fun _ => rfl, ?_⟩
    intro _ hn hmem
    rcases List.mem_append.1 hmem with h | h
    · exact hn h
    · cases List.mem_singleton.1 h

/-- Any event but a call of `run` or `stop` keeps the invariant. -/
theorem Inv.happened (h : Inv s) {e : Event} (hrun : e ≠ .called .run)
    (hstop : e = .called .stop → ¬ (s.agent.state = .created ∨ s.agent.state = .running)) :
    Inv { s with runtime := s.runtime ++ [e] } where
  started := h.started.snoc fun he => absurd he hrun
  entering q hq := List.mem_append_left _ (h.entering q hq)
  running hs := List.mem_append_left _ (h.running hs)
  unstopped hs hmem := by
    rcases List.mem_append.1 hmem with hmem | hmem
    · exact h.unstopped hs hmem
    · exact hstop (List.mem_singleton.1 hmem).symm hs

theorem Inv.entered (h : Inv s) (hp : p ∈ s.entering) :
    Inv { s with runtime := s.runtime ++ [.called .run], entering := s.entering.erase p } where
  started := h.started.snoc fun _ => h.entering p hp
  entering q hq := List.mem_append_left _ (h.entering q (List.mem_of_mem_erase hq))
  running hs := List.mem_append_left _ (h.running hs)
  unstopped hs hmem := by
    rcases List.mem_append.1 hmem with hmem | hmem
    · exact h.unstopped hs hmem
    · cases List.mem_singleton.1 hmem

theorem Inv.passed (h : Inv s) (hs : s.agent.state = .running) :
    Inv { s with entering := p :: s.entering } where
  started := h.started
  entering _ _ := h.running hs
  running := h.running
  unstopped := h.unstopped

/-- The agent's state is set, or one of its other attributes, or the lock changes hands. -/
theorem Inv.within (h : Inv s) {agent : Fields O} {holder : Option Nat}
    (hrunning : agent.state = .running → .returned .start ∈ s.runtime)
    (hunstopped : agent.state = .created ∨ agent.state = .running → .called .stop ∉ s.runtime) :
    Inv { s with agent, holder } where
  started := h.started
  entering := h.entering
  running := hrunning
  unstopped := hunstopped

def contract : Contract (World O) Nat where
  rely p s s' := Inv s' ∧ Later p s s'
  guar s p s' p' := p' = p ∧ Inv s' ∧ Does p s s'

/-- An assertion that the others leave alone. -/
def Stable (J : World O → Nat → Prop) : Prop :=
  ∀ s s' p, Later p s s' → J s p → J s' p

/-- The thread holds the lock, `σ` holds of the agent's state, and if `c` then `stop` has not been
called. -/
structure Holds (σ : AgentState → Prop) (c : Prop) (s : World O) (p : Nat) : Prop where
  holder : s.holder = some p
  state : σ s.agent.state
  unstopped : c → .called .stop ∉ s.runtime

abbrev Holding : World O → Nat → Prop := Holds (fun _ => True) False

section

variable {σ : AgentState → Prop} {c : Prop}

theorem Holds.later (h : Holds σ c s p) (hl : Later p s s') : Holds σ c s' p where
  holder := hl.holder h.holder
  state := by
    rw [hl.agent h.holder]
    exact h.state
  unstopped hc := hl.unstopped h.holder (h.unstopped hc)

theorem Holds.holding (h : Holds σ c s p) : Holding s p := ⟨h.holder, trivial, nofun⟩

theorem stable_holds : Stable (Holds σ c : World O → Nat → Prop) :=
  fun _ _ _ hl h => h.later hl

/-- With an event that has happened. -/
theorem stable_holds_mem {e : Event} :
    Stable fun (s : World O) p => Holds σ c s p ∧ e ∈ s.runtime :=
  fun _ _ _ hl h => ⟨h.1.later hl, hl.events e h.2⟩

end

/-- A result `v` comes with `J v`, an exception with `K`. -/
def Yields (J : β → World O → Nat → Prop) (K : World O → Nat → Prop) :
    Except Exn β → World O → Nat → Prop
  | .ok v => J v
  | .error _ => K

section

variable {α : Type} {σ : AgentState → Prop} {c : Prop} {J : β → World O → Nat → Prop}
  {K : World O → Nat → Prop}

theorem yields_bind {J' : α → World O → Nat → Prop} {x : Watched O β}
    {f : β → Watched O α} (hx : wp contract x (Yields J K) s p)
    (hf : ∀ v s p, J v s p → wp contract (f v) (Yields J' K) s p) :
    wp contract (x >>= f) (Yields J' K) s p :=
  wp_bind hx hf fun _ _ _ h => h

theorem yields_mono {J' : β → World O → Nat → Prop} {K' : World O → Nat → Prop} {x : Watched O β}
    (hx : wp contract x (Yields J K) s p) (hJ : ∀ v s p, J v s p → J' v s p)
    (hK : ∀ s p, K s p → K' s p) : wp contract x (Yields J' K') s p := by
  refine wp_mono hx ?_
  intro r s p h
  cases r with
  | ok v => exact hJ v s p h
  | error e => exact hK s p h

/-- What has happened stays in the history. -/
theorem yields_frame {x : Watched O β} {e : Event} (hx : wp contract x (Yields J K) s p)
    (he : e ∈ s.runtime) : wp contract x (Yields (fun v s p => J v s p ∧ e ∈ s.runtime) K) s p := by
  induction x generalizing s p with
  | done r =>
    cases r with
    | ok v => exact ⟨hx, he⟩
    | error e => exact hx
  | step act k ih =>
    rintro s' ⟨hi, hl⟩ c
    obtain ⟨⟨hp, hinv, hdoes⟩, hk⟩ := hx s' ⟨hi, hl⟩ c
    exact ⟨⟨hp, hinv, hdoes⟩, ih _ hk (hdoes.events e (hl.events e he))⟩

theorem yields_raiseIf {d : Prop} [Decidable d] {e : Exn} {J : Unit → World O → Nat → Prop}
    (hK : K s p) (hJ : ¬ d → J () s p) :
    wp contract (Prog.raiseIf d e : Watched O Unit) (Yields J K) s p :=
  wp_raiseIf (fun _ => hK) hJ

theorem yields_requireRuntime {self : Agent (Answer O) O (List Event)}
    {J : World O → Nat → Prop} (hK : K s p) (hJ : J s p) :
    wp contract self.requireRuntime (Yields (fun _ => J) K) s p := by
  unfold Agent.requireRuntime
  cases self.configured with
  | none => exact hK
  | foreign => exact hK
  | runtime => exact hJ

/-- The rule for one action, from an assertion that the others leave alone. -/
theorem wp_act {I : World O → Nat → Prop} {act : WatchedAct O β}
    {Q : Except Exn β → World O → Nat → Prop} (hI : Stable I) (hi : I s p)
    (h : ∀ c s, Inv s → I s p → (act.next c s p).2.2 = p ∧ Inv (act.next c s p).2.1 ∧
      Does p s (act.next c s p).2.1 ∧ Q (act.next c s p).1 (act.next c s p).2.1 p) :
    wp contract (.perform act) Q s p := by
  refine wp_perform ?_
  rintro s' ⟨hinv, hl⟩ c
  obtain ⟨hp, hinv', hdoes, hq⟩ := h c s' hinv (hI s s' p hl hi)
  refine ⟨⟨hp, hinv', hdoes⟩, ?_⟩
  rw [hp]
  exact hq

/-- The state is read under the lock. -/
theorem yields_state (h : Holding s p) :
    wp contract (.perform (Act.get Fields.state) : Watched O AgentState)
      (Yields (fun v => Holds (fun w => w = v) (v = .created ∨ v = .running)) Holding) s p := by
  refine wp_act stable_holds h ?_
  intro _ s hi h
  exact ⟨rfl, hi, .within rfl rfl (.inr (.inl h.holder)), h.holder, rfl, hi.unstopped⟩

/-- Any other attribute is read. -/
theorem yields_get {field : Fields O → β} (h : Holds σ c s p) :
    wp contract (.perform (Act.get field) : Watched O β) (Yields (fun _ => Holds σ c) (Holds σ c)) s p := by
  refine wp_act stable_holds h ?_
  intro _ s hi h
  exact ⟨rfl, hi, .within rfl rfl (.inr (.inl h.holder)), h⟩

/-- Attributes other than the state are assigned. -/
theorem yields_modify {f : Fields O → Fields O} (hf : ∀ a, (f a).state = a.state) (h : Holds σ c s p) :
    wp contract (.perform (Act.modify f) : Watched O Unit) (Yields (fun _ => Holds σ c) Holding) s p := by
  refine wp_act stable_holds h ?_
  intro _ s hi h
  refine ⟨rfl, ?_, .within rfl rfl (.inr (.inl h.holder)), ⟨h.holder, ?_, h.unstopped⟩⟩
  · refine hi.within ?_ ?_
    · rw [hf]
      exact hi.running
    · rw [hf]
      exact hi.unstopped
  · show σ (f s.agent).state
    rw [hf]
    exact h.state

/-- The agent is neither new nor running any more. -/
theorem yields_set {state : AgentState} (hcreated : state ≠ .created) (hrunning : state ≠ .running)
    (h : Holds σ c s p) :
    wp contract (.perform (Act.set state) : Watched O Unit)
      (Yields (fun _ => Holds (fun w => w = state) c) Holding) s p := by
  refine wp_act stable_holds h ?_
  intro _ s hi h
  refine ⟨rfl, ?_, .within rfl rfl (.inr (.inl h.holder)), h.holder, rfl, h.unstopped⟩
  refine hi.within (fun hs => absurd hs hrunning) ?_
  rintro (hs | hs)
  · exact absurd hs hcreated
  · exact absurd hs hrunning

/-- The agent runs, once its runtime has started. -/
theorem yields_set_running (h : Holds σ True s p ∧ .returned .start ∈ s.runtime) :
    wp contract (.perform (Act.set .running) : Watched O Unit) (Yields (fun _ => Holding) Holding) s p := by
  refine wp_act stable_holds_mem h ?_
  intro _ s hi h
  refine ⟨rfl, ?_, .within rfl rfl (.inr (.inl h.1.holder)), h.1.holder, trivial, nofun⟩
  exact hi.within (fun _ => h.2) fun _ => h.1.unstopped trivial

/-- Another event than a call of `stop` leaves the assertion alone. -/
theorem Holds.happened (h : Holds σ c s p) {e : Event} (he : c → e ≠ .called .stop) :
    Holds σ c { s with runtime := s.runtime ++ [e] } p where
  holder := h.holder
  state := h.state
  unstopped hc hmem := by
    rcases List.mem_append.1 hmem with hmem | hmem
    · exact h.unstopped hc hmem
    · exact he hc (List.mem_singleton.1 hmem).symm

theorem enter_of_ne {method : Method} (h : method ≠ .run) (answer : Answer O) :
    (Act.enter method : WatchedAct O Unit).next answer s p =
      (.ok (), { s with runtime := s.runtime ++ [.called method] }, p) := by
  simp only [Act.enter, if_neg h]

/-- A method other than `run` is called under the lock; `stop` only of an agent that is neither
new nor running. -/
theorem yields_enter {method : Method} (hrun : method ≠ .run)
    (hstop : method = .stop → ¬ c ∧ ∀ v, σ v → ¬ (v = .created ∨ v = .running)) (h : Holds σ c s p) :
    wp contract (.perform (Act.enter method) : Watched O Unit) (Yields (fun _ => Holds σ c) (Holds σ c))
      s p := by
  refine wp_act stable_holds h ?_
  intro _ s hi h
  rw [enter_of_ne hrun]
  have hne : Event.called method ≠ .called .run := fun he => hrun (Event.called.inj he)
  refine ⟨rfl, hi.happened hne ?_, .happened hne (fun _ => h.holder) rfl, h.happened ?_⟩
  · exact fun he hs => (hstop (Event.called.inj he)).2 _ h.state hs
  · exact fun hc he => (hstop (Event.called.inj he)).1 hc

theorem yields_leave {method : Method} {answer : Answer O → Except Exn β} (h : Holds σ c s p) :
    wp contract (.perform (Act.leave method answer))
      (Yields (fun _ s p => Holds σ c s p ∧ .returned method ∈ s.runtime) (Holds σ c)) s p := by
  refine wp_act stable_holds h ?_
  intro choice s hi h
  have hrun : ended method (answer choice) ≠ .called .run := by cases answer choice <;> nofun
  have hstop : ended method (answer choice) ≠ .called .stop := by cases answer choice <;> nofun
  refine ⟨rfl, hi.happened hrun fun he => absurd he hstop, .happened hrun (fun he => absurd he hstop) rfl, ?_⟩
  have hold := h.happened fun _ => hstop
  show Yields _ _ (answer choice) { s with runtime := s.runtime ++ [ended method (answer choice)] } p
  cases ha : answer choice with
  | ok v =>
    rw [ha] at hold
    exact ⟨hold, List.mem_append_right _ (List.mem_singleton_self _)⟩
  | error e =>
    rw [ha] at hold
    exact hold

theorem yields_method {method : Method} {answer : Answer O → Except Exn β} (hrun : method ≠ .run)
    (hstop : method = .stop → ¬ c ∧ ∀ v, σ v → ¬ (v = .created ∨ v = .running)) (h : Holds σ c s p) :
    wp contract (callMethod method answer)
      (Yields (fun _ s p => Holds σ c s p ∧ .returned method ∈ s.runtime) (Holds σ c)) s p :=
  yields_bind (yields_enter hrun hstop h) fun _ _ _ h => yields_leave h

/-! ## The methods of the agent -/

/-- `with self._lock: body`, with what holds of the thread once it has left the lock. -/
theorem yields_locked {body : Watched O β} (hJ : ∀ v, Stable (J v))
    (hrelease : ∀ v s p, J v s p → J v { s with holder := none } p)
    (hbody : ∀ s p, Holding s p →
      wp contract body (Yields (fun v s p => Holding s p ∧ J v s p) Holding) s p) :
    wp contract (locked body) (Yields J fun _ _ => True) s p := by
  unfold locked
  refine wp_bind (P := Yields (fun _ => Holding) fun _ _ => True) ?_ ?_ fun _ _ _ h => h
  · refine wp_act (I := fun _ _ => True) (fun _ _ _ _ _ => trivial) trivial ?_
    intro _ s hi _
    unfold Act.acquire
    cases hs : s.holder with
    | none =>
      simp only [hs]
      exact ⟨trivial, hi.within hi.running hi.unstopped, .within rfl rfl (.inl hs), rfl, trivial, nofun⟩
    | some q =>
      simp only [hs]
      exact ⟨trivial, hi, .within rfl rfl (.inr (.inr rfl)), trivial⟩
  · intro _ s p h
    refine wp_ensuring (hbody s p h) ?_
    intro r s p h
    have hkeep : Stable (Yields (fun v s p => Holding s p ∧ J v s p) Holding r) := by
      intro s s' p hl h
      cases r with
      | ok v => exact ⟨h.1.later hl, hJ v s s' p hl h.2⟩
      | error e => exact Holds.later h hl
    refine wp_act hkeep h ?_
    intro _ s hi h
    have hholder : s.holder = some p := by
      cases r with
      | ok v => exact h.1.holder
      | error e => exact h.holder
    refine ⟨rfl, hi.within hi.running hi.unstopped, .within rfl rfl (.inr (.inl hholder)), ?_⟩
    cases r with
    | ok v => exact hrelease v s p h.2
    | error e => exact trivial

/-- The same, of a body of which only the end matters. -/
theorem locked_keeps {body : Watched O β}
    (hbody : ∀ s p, Holding s p → wp contract body (Yields (fun _ => Holding) Holding) s p) :
    wp contract (locked body) (fun _ _ _ => True) s p := by
  refine wp_mono (yields_locked (J := fun _ _ _ => True) (fun _ _ _ _ _ _ => trivial)
    (fun _ _ _ _ => trivial) ?_) fun _ _ _ _ => trivial
  intro s p h
  exact yields_mono (hbody s p h) (fun _ _ _ h => ⟨h, trivial⟩) fun _ _ h => h

/-- An agent with any runtime. -/
def watched (O : Type) (name quotedName : String) (configured : Configured) :
    Agent (Answer O) O (List Event) :=
  { name, quotedName, configured, runtime := observed }

variable {name quotedName : String} {configured : Configured}

/-- A method other than `stop` is called in the state the agent is in. -/
theorem yields_call {method : Method} {answer : Answer O → Except Exn β} (hrun : method ≠ .run)
    (hstop : method ≠ .stop) (h : Holds σ c s p) :
    wp contract (callMethod method answer) (Yields (fun _ => Holds σ c) (Holds σ c)) s p := by
  refine wp_mono (yields_method hrun (fun hm => absurd hm hstop) h) ?_
  intro r s p h
  cases r with
  | ok v => exact h.1
  | error e => exact h

theorem yields_loadPending {plugins : Plugins O} (h : Holds σ c s p) :
    wp contract ((watched O name quotedName configured).loadPending plugins)
      (Yields (fun _ => Holds σ c) (Holds σ c)) s p := by
  induction plugins generalizing s p with
  | nil => exact h
  | cons item plugins ih => exact yields_bind (yields_call nofun nofun h) fun _ s p h => ih h

theorem yields_attach {provider : Option O} (h : Holds σ c s p) :
    wp contract ((watched O name quotedName configured).attach provider)
      (Yields (fun _ => Holds σ c) (Holds σ c)) s p := by
  cases provider with
  | none => exact h
  | some provider => exact yields_call nofun nofun h

/-- The body of the `try` statement of `start` either raises or has seen `start` return. -/
theorem yields_configure (h : Holds σ c s p) :
    wp contract (watched O name quotedName configured).configure
      (Yields (fun _ s p => Holds σ c s p ∧ .returned .start ∈ s.runtime) (Holds σ c)) s p := by
  refine yields_bind (yields_call nofun nofun h) fun compatibility s p h => ?_
  refine yields_bind (yields_raiseIf (J := fun _ => Holds σ c) h fun _ => h) fun _ s p h => ?_
  refine yields_bind (yields_get h) fun provider s p h => ?_
  refine yields_bind (yields_attach h) fun _ s p h => ?_
  refine yields_bind (yields_get h) fun plugins s p h => ?_
  refine yields_bind (yields_loadPending h) fun _ s p h => ?_
  exact yields_method nofun (fun hm => absurd hm nofun) h

/-- A handler leaves the lock held; what it answers for is an exception. -/
theorem yields_rescue {x : Watched O β} {handler : Watched O Unit} {f : Exn → Exn}
    (hx : wp contract x (Yields J (Holds σ c)) s p)
    (hh : ∀ s p, Holds σ c s p → wp contract handler (fun _ => Holding) s p) :
    wp contract (rescue x handler f) (Yields J Holding) s p := by
  refine wp_mapError hx (fun _ _ _ h => h) ?_
  intro e s p h
  by_cases he : e.isException
  · simp only [he, if_true]
    refine wp_bind (hh s p h) (fun _ _ _ h => h) fun _ _ _ h => h
  · rw [if_neg he]
    exact h.holding

theorem keeps_rollback (h : Holds (fun v => v = .starting) True s p) :
    wp contract (watched O name quotedName configured).rollback (fun _ => Holding) s p := by
  have hstop : wp contract (watched O name quotedName configured).runtime.stop
      (Yields (fun _ => Holding) Holding) s p := by
    have h : Holds (fun v => v = .starting) False s p := ⟨h.holder, h.state, nofun⟩
    refine yields_mono (yields_method nofun ?_ h) (fun _ _ _ h => h.1.holding) fun _ _ h => h.holding
    refine fun _ => ⟨fun h => h, ?_⟩
    rintro v rfl (h | h) <;> cases h
  refine always_bind (J := Holding) ?_ ?_ fun _ _ h => h
  · refine wp_andThen (wp_mono hstop ?_)
    intro r s p h
    cases r with
    | ok v => exact h
    | error e => exact wp_raiseIf (fun _ => h) fun _ => h
  · intro _ s p h
    refine wp_mono (yields_set nofun nofun h) ?_
    intro r s p h
    cases r with
    | ok v => exact h.holding
    | error e => exact h

theorem start_keeps : wp contract (watched O name quotedName configured).start (fun _ _ _ => True) s p := by
  refine locked_keeps fun s p h => ?_
  refine yields_bind (yields_state h) fun state s p h => ?_
  refine yields_bind (J := fun _ => Holds (fun v => v = .created) True)
    (yields_raiseIf h.holding fun hs => ?_) fun _ s p h => ?_
  · have hstate := not_not.1 hs
    exact ⟨h.holder, h.state.trans hstate, fun _ => h.unstopped (.inl hstate)⟩
  refine yields_bind (yields_requireRuntime h.holding h) fun _ s p h => ?_
  refine yields_bind (yields_set nofun nofun h) fun _ s p h => ?_
  refine yields_bind (yields_rescue (yields_configure h) fun s p h => keeps_rollback h) fun _ s p h => ?_
  refine yields_bind (yields_frame (yields_modify (fun _ => rfl) h.1) h.2) fun _ s p h => ?_
  exact yields_set_running h

/-- The agent is set to a state in which it is neither new nor running. -/
theorem keeps_set {state : AgentState} (hcreated : state ≠ .created) (hrunning : state ≠ .running)
    (h : Holds σ c s p) :
    wp contract (.perform (Act.set state) : Watched O Unit) (Yields (fun _ => Holding) Holding) s p :=
  yields_mono (yields_set hcreated hrunning h) (fun _ _ _ h => h.holding) fun _ _ h => h

theorem stopRunning_keeps {state : AgentState} (h : Holding s p) :
    wp contract ((watched O name quotedName configured).stopRunning state)
      (Yields (fun _ => Holding) Holding) s p := by
  refine yields_bind (J := fun _ => Holding) (yields_raiseIf h fun _ => h) fun _ s p h => ?_
  refine yields_bind (yields_requireRuntime h h) fun _ s p h => ?_
  refine yields_bind (yields_set nofun nofun h) fun _ s p h => ?_
  refine yields_bind (J := fun _ => Holding) (yields_rescue (σ := fun v => v = .stopping) (c := False)
    ?_ fun s p h => ?_) fun _ s p h => keeps_set nofun nofun h
  · refine yields_mono (yields_method nofun ?_ h) (fun _ _ _ h => h.1.holding) fun _ _ h => h
    refine fun _ => ⟨fun h => h, ?_⟩
    rintro v rfl (h | h) <;> cases h
  · refine wp_mono (keeps_set nofun nofun h) ?_
    intro r s p h
    cases r with
    | ok v => exact h
    | error e => exact h

theorem stop_keeps : wp contract (watched O name quotedName configured).stop (fun _ _ _ => True) s p := by
  refine locked_keeps fun s p h => ?_
  refine yields_bind (yields_state h) fun state s p h => ?_
  cases state with
  | stopped => exact h.holding
  | created => exact keeps_set nofun nofun h
  | starting => exact stopRunning_keeps h.holding
  | running => exact stopRunning_keeps h.holding
  | stopping => exact stopRunning_keeps h.holding
  | failed => exact stopRunning_keeps h.holding

theorem attachMemory_keeps {provider : Option O} :
    wp contract (Agent.attachMemory provider : Watched O Unit) (fun _ _ _ => True) s p := by
  refine always_bind (J := fun _ _ => True) (wp_raiseIf (fun _ => trivial) fun _ => trivial) ?_ fun _ _ h => h
  intro _ s p _
  refine locked_keeps fun s p h => ?_
  refine yields_bind (J := fun _ => Holding) ?_ fun _ s p h => yields_modify (fun _ => rfl) h
  refine yields_bind (yields_state h) fun state s p h => ?_
  exact yields_raiseIf h.holding fun _ => h.holding

theorem loadPlugin_keeps {plugin : String} {value : Option O} :
    wp contract ((watched O name quotedName configured).loadPlugin plugin value) (fun _ _ _ => True) s p := by
  refine always_bind (J := fun _ _ => True) (wp_raiseIf (fun _ => trivial) fun _ => trivial) ?_ fun _ _ h => h
  intro _ s p _
  refine locked_keeps fun s p h => ?_
  refine yields_bind (yields_state h) fun state s p h => ?_
  refine yields_bind (J := fun _ => Holding) (yields_raiseIf h.holding fun _ => h.holding) fun _ s p h => ?_
  refine yields_bind (yields_get h) fun known s p h => ?_
  refine yields_bind (J := fun _ => Holding) (yields_raiseIf h fun _ => h) fun _ s p h => ?_
  unfold Agent.loadPluginIn
  by_cases hstate : state = .created
  · rw [if_pos hstate]
    exact yields_modify (fun _ => rfl) h
  · rw [if_neg hstate]
    refine yields_bind (yields_requireRuntime h h) fun _ s p h => ?_
    refine yields_bind (yields_call nofun nofun h) fun _ s p h => ?_
    exact yields_modify (fun _ => rfl) h

theorem stable_entering : Stable fun (s : World O) p => p ∈ s.entering := fun _ _ _ hl hp => hl.entering hp

/-- Whoever has passed the check of `run` is on its way into the runtime. -/
theorem yields_checkRunning (h : Holding s p) :
    wp contract (watched O name quotedName configured).checkRunning
      (Yields (fun _ s p => Holding s p ∧ p ∈ s.entering) Holding) s p := by
  refine yields_bind (yields_state h) fun state s p h => ?_
  refine yields_bind (J := fun _ => Holds (fun v => v = .running) False)
    (yields_raiseIf h.holding fun hs => ⟨h.holder, h.state.trans (not_not.1 hs), nofun⟩) fun _ s p h => ?_
  refine yields_bind (yields_requireRuntime h.holding h) fun _ s p h => ?_
  refine wp_act stable_holds h ?_
  intro _ s hi h
  refine ⟨rfl, hi.passed h.state, .passed h.state rfl, ⟨h.holder, trivial, nofun⟩, ?_⟩
  exact List.mem_cons_self

theorem run_keeps {request : String} {kwargs : List (String × O)} :
    wp contract ((watched O name quotedName configured).run request kwargs) (fun _ _ _ => True) s p := by
  have hcheck : wp contract (locked (watched O name quotedName configured).checkRunning)
      (Yields (fun _ s p => p ∈ s.entering) fun _ _ => True) s p :=
    yields_locked (fun _ => stable_entering) (fun _ _ _ h => h) fun _ _ h => yields_checkRunning h
  refine wp_bind hcheck (fun _ s p hp => ?_) fun _ _ _ _ => trivial
  refine always_bind (J := fun _ _ => True) ?_ ?_ fun _ _ h => h
  · refine wp_act stable_entering hp ?_
    intro _ s hi hp
    exact ⟨rfl, hi.entered hp, .entered hp rfl, trivial⟩
  · intro _ s p _
    refine wp_act (I := fun _ _ => True) (fun _ _ _ _ _ => trivial) trivial ?_
    intro choice s hi _
    have hne : ∀ method, ended .run (Answer.result choice) ≠ .called method := by
      intro method
      cases Answer.result choice <;> nofun
    exact ⟨rfl, hi.happened (hne _) fun he => absurd he (hne _),
      .happened (hne _) (fun he => absurd he (hne _)) rfl, trivial⟩

end

/-! ## Runs -/

section

variable (O) (name quotedName : String) (configured : Configured)

def covenant : Covenant (threads (watched O name quotedName configured)) where
  inv := Inv
  own p l := l = p
  law _ _ := True
  contract _ := contract
  post _ _ _ _ := True
  own_enter _ _ h := h
  law_enter _ _ := trivial
  enter p call s l _ _ := by
    cases call with
    | attachMemory provider => exact always_bind attachMemory_keeps (fun _ _ _ _ => trivial) fun _ _ h => h
    | loadPlugin plugin value => exact always_bind loadPlugin_keeps (fun _ _ _ _ => trivial) fun _ _ h => h
    | start => exact always_bind start_keeps (fun _ _ _ _ => trivial) fun _ _ h => h
    | run request kwargs => exact run_keeps
    | stop => exact always_bind stop_keeps (fun _ _ _ _ => trivial) fun _ _ h => h
  rely_refl _ l s hi := ⟨hi, .refl l s⟩
  rely_trans _ _ _ _ _ h h' := ⟨h'.1, h.2.trans h'.2⟩
  post_stable _ _ _ _ _ _ _ := trivial
  keep _ _ _ _ _ _ _ hown _ hg := ⟨hg.2.1, hg.1.trans hown, trivial⟩
  keep_die _ _ _ hi hown := ⟨hi, hown⟩
  rely_guar p q _ _ l s m s' _ hne _ hp hq hg := by
    subst hp hq
    exact ⟨hg.2.1, hg.2.2.later hne⟩
  rely_die _ _ _ l s _ _ hi _ _ := ⟨hi, .refl l s⟩

/-- A new agent, and no thread in a call. -/
def newAgent : Config (Answer O) (World O) Nat Exn (Call O) (Option O) :=
  .initial { runtime := [] } fun p => p

theorem newAgent_good : (covenant O name quotedName configured).Good (newAgent O) := by
  refine (covenant O name quotedName configured).good_initial ?_ fun _ => rfl
  exact ⟨.nil, nofun, nofun, fun _ => nofun⟩

/-- The turn calls the runtime's `stop` only while no thread is on its way into `run`. -/
def Settled (c : Config (Answer O) (World O) Nat Exn (Call O) (Option O)) (t : Turn (Answer O) (Call O)) :
    Prop :=
  ((threads (watched O name quotedName configured)).turn c t).shared.runtime = c.shared.runtime ++ [.called .stop] →
    c.shared.entering = []

instance (c : Config (Answer O) (World O) Nat Exn (Call O) (Option O)) (t : Turn (Answer O) (Call O)) :
    Decidable (Settled O name quotedName configured c t) :=
  inferInstanceAs (Decidable (_ → _))

/-- What settled turns keep. -/
structure Quiet (s : World O) : Prop where
  ordered : NeverStopped s.runtime
  entering : .called .stop ∈ s.runtime → s.entering = []

theorem quiet_of_does {O : Type} {p : Nat} {s s' : World O} (hi : Inv s) (hdoes : Does p s s')
    (hsettled : s'.runtime = s.runtime ++ [.called .stop] → s.entering = []) (h : Quiet O s) :
    Quiet O s' := by
  cases hdoes with
  | within hruntime hentering _ =>
    constructor
    · rw [hruntime]
      exact h.ordered
    · rw [hruntime, hentering]
      exact h.entering
  | passed hs heq =>
    subst heq
    exact ⟨h.ordered, fun hmem => absurd hmem (hi.unstopped (.inr hs))⟩
  | happened hrun _ heq =>
    subst heq
    refine ⟨h.ordered.snoc fun he => absurd he hrun, ?_⟩
    intro hmem
    rcases List.mem_append.1 hmem with hmem | hmem
    · exact h.entering hmem
    · rw [← List.mem_singleton.1 hmem] at hsettled
      exact hsettled rfl
  | entered hp heq =>
    subst heq
    have hn : .called .stop ∉ s.runtime := by
      intro hmem
      rw [h.entering hmem] at hp
      cases hp
    refine ⟨h.ordered.snoc fun _ => hn, ?_⟩
    intro hmem
    rcases List.mem_append.1 hmem with hmem | hmem
    · exact absurd hmem hn
    · cases List.mem_singleton.1 hmem

/-- In every run `run` comes after `start` has returned, and where `stop` is called only while no
thread is on its way into `run`, no `run` comes after a `stop`. -/
theorem run_between_start_and_stop :
    (∀ turns, StartedFirst
      ((threads (watched O name quotedName configured)).run (newAgent O) turns).shared.runtime) ∧
      ∀ turns, (threads (watched O name quotedName configured)).Along
          (Settled O name quotedName configured) (newAgent O) turns →
        NeverStopped
          ((threads (watched O name quotedName configured)).run (newAgent O) turns).shared.runtime := by
  have hgood := newAgent_good O name quotedName configured
  constructor
  · intro turns
    exact ((covenant O name quotedName configured).good_run hgood turns).inv.started
  · intro turns hrun
    refine ((covenant O name quotedName configured).run_along (J := Quiet O) ?_ hgood ⟨.nil, nofun⟩ hrun).ordered
    intro c t hc hsettled hq
    cases (covenant O name quotedName configured).change hc t with
    | none heq =>
      rw [heq]
      exact hq
    | acted _ _ hg => exact quiet_of_does hc.inv hg.2.2 hsettled hq
    | crashed heq =>
      rw [heq]
      exact hq

end

end

/-! ## A run that fails, and one that does not -/

namespace Sample

def acts (p n : Nat) : List (Turn (Answer Nat) (Call Nat)) := List.replicate n (.act p {})

def system : System (Answer Nat) (World Nat) Nat Exn (Call Nat) (Option Nat) :=
  threads (watched Nat "project_maya.agent" "'project_maya.agent'" .runtime)

/-- One thread starts the agent, another passes the check of `run`, and before it calls the runtime
a third one stops the agent. -/
def overtaken : List (Turn (Answer Nat) (Call Nat)) :=
  .start 0 .start :: acts 0 13 ++ .start 1 (.run "prepare briefing" []) :: acts 1 4 ++
    .start 2 .stop :: acts 2 8 ++ acts 1 3

theorem run_after_stop :
    ¬ ∀ turns, StartedFirst (system.run (newAgent Nat) turns).shared.runtime ∧
      NeverStopped (system.run (newAgent Nat) turns).shared.runtime := by
  intro h
  have hrun : (system.run (newAgent Nat) overtaken).shared.runtime =
      [.called .compatibility, .returned .compatibility, .called .start, .returned .start,
        .called .stop, .returned .stop] ++ .called .run :: [.returned .run] := by
    decide +kernel
  have hbefore := (h overtaken).2 _ _ _ hrun rfl
  exact hbefore (by decide)

/-- The request runs, and then the agent is stopped. -/
def orderly : List (Turn (Answer Nat) (Call Nat)) :=
  .start 0 .start :: acts 0 13 ++ .start 1 (.run "prepare briefing" []) :: acts 1 7 ++
    .start 2 .stop :: acts 2 8

theorem orderly_run :
    .called .run ∈ (system.run (newAgent Nat) orderly).shared.runtime ∧
      NeverStopped (system.run (newAgent Nat) orderly).shared.runtime := by
  constructor
  · decide +kernel
  · refine (run_between_start_and_stop Nat "project_maya.agent" "'project_maya.agent'" .runtime).2 orderly ?_
    decide +kernel

end Sample

end ProjectMaya.Facade
