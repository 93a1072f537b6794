import ProjectMaya.GovernedCalls
import ProjectMaya.SessionWrite
import ProjectMaya.VectorRuns

/-! # Obligations

A result with constraints or redactions is an allow with obligations that nobody here can
fulfil.  The callbacks of the plugin stop at such a result (`callback_honours`).  The other
enforcement points look at its decision only: they go on exactly when it is an allow and
their own checks let the call through (`obligations_honoured`). -/

namespace ProjectMaya

/-- The result carries constraints or redactions. -/
def AuthorizationResult.Obliges (r : AuthorizationResult) : Prop :=
  r.constraints ≠ [] ∨ r.redactions ≠ []

namespace Plugin

open Logic

section

variable {T ν : Type} [LinearOrder T] (clock : Clock T)

/-- No run of a callback that the gateway answers with `result` enters `next_call` or returns. -/
def Honours (p : Code T ν (Payload ν)) (result : AuthorizationResult) : Prop :=
  ∀ s moves, let o := p.run stopped moves s []
    (∃ action, .asked action result ∈ o.loc) →
      (∀ payload, .called payload ∉ o.loc) ∧ ∀ v, o.result ≠ some (.ok v)

/-! ## What the callbacks go on after -/

/-- Every answer so far was an allow without obligations. -/
def Clean (t : Trace ν) : Prop :=
  ∀ action result, .asked action result ∈ t →
    result.allowed = true ∧ result.constraints = [] ∧ result.redactions = []

/-- The same, and `next_call` was not entered. -/
def Fresh (t : Trace ν) : Prop := Clean t ∧ ∀ payload, .called payload ∉ t

/-- `next_call` was entered only if every answer is an allow without obligations. -/
def Orderly (t : Trace ν) : Prop := (∃ payload, .called payload ∈ t) → Clean t

theorem Fresh.orderly {t : Trace ν} (h : Fresh t) : Orderly t := fun _ => h.1

/-- Neither a question nor an entry of `next_call`. -/
def Event.Silent : Event ν → Prop
  | .asked _ _ => False
  | .called _ => False
  | _ => True

/-- An action whose events are silent. -/
def Mute {β : Type} (a : Act T ν β) : Prop :=
  ∀ c s t, ∃ new, (a.next c s t).2.2 = t ++ new ∧ ∀ e ∈ new, e.Silent

theorem mute_isActive (lease : Nat) : Mute (Act.isActive clock lease : Act T ν Bool) := by
  intro c s t
  refine ⟨_, rfl, ?_⟩
  intro e he
  rw [List.mem_singleton.mp he]
  trivial

theorem mute_resolve (path : PurePath) : Mute (Act.resolve path : Act T ν ResolvedPath) := by
  intro c s t
  cases hc : c.resolve with
  | ok result =>
    simp only [Act.resolve, hc]
    exact ⟨_, rfl, by simp [Event.Silent]⟩
  | error e =>
    simp only [Act.resolve, hc]
    exact ⟨[], by simp, by simp⟩

theorem mute_write (record : AuditRecord) : Mute (Act.write record : Act T ν Unit) := by
  intro c s t
  cases hc : c.audit with
  | ok _ =>
    simp only [Act.write, hc]
    exact ⟨_, rfl, by simp [Event.Silent]⟩
  | error e =>
    simp only [Act.write, hc]
    exact ⟨[], by simp, by simp⟩

section

variable {t new : Trace ν} (hnew : ∀ e ∈ new, e.Silent)

include hnew

theorem Clean.silent (h : Clean t) : Clean (t ++ new) := by
  intro action result hmem
  rcases List.mem_append.mp hmem with hmem | hmem
  · exact h action result hmem
  · exact (hnew _ hmem).elim

theorem called_of_silent {payload : Payload ν} (h : .called payload ∈ t ++ new) :
    .called payload ∈ t := by
  rcases List.mem_append.mp h with h | h
  · exact h
  · exact (hnew _ h).elim

theorem Fresh.silent (h : Fresh t) : Fresh (t ++ new) :=
  ⟨h.1.silent hnew, fun payload hp => h.2 payload (called_of_silent hnew hp)⟩

theorem Orderly.silent (h : Orderly t) : Orderly (t ++ new) := by
  rintro ⟨payload, hp⟩
  exact (h ⟨payload, called_of_silent hnew hp⟩).silent hnew

end

/-- What is asked of every action of a callback. -/
def orderly (T ν : Type) : Contract (Leases T) (Trace ν) where
  rely _ _ _ := True
  guar _ t _ t' := Orderly t → Orderly t'

/-- What a part of a callback leaves behind: an orderly trace, and `K` when it returns. -/
def Ends {α : Type} (K : Trace ν → Prop) (r : Except Raised α) (_ : Leases T) (t : Trace ν) : Prop :=
  Orderly t ∧ ∀ v, r = .ok v → K t

variable {s : Leases T} {t : Trace ν}

theorem ends_bind {α β : Type} {p : Code T ν α} {f : α → Code T ν β} {K K' : Trace ν → Prop}
    (hp : wp (orderly T ν) p (Ends K) s t)
    (hf : ∀ a s t, K t → wp (orderly T ν) (f a) (Ends K') s t) :
    wp (orderly T ν) (p >>= f) (Ends K') s t := by
  refine wp_bind hp ?_ ?_
  · rintro a s t ⟨_, h⟩
    exact hf a s t (h a rfl)
  · rintro e s t ⟨h, _⟩
    exact ⟨h, by simp⟩

/-- Mute actions keep what silent events keep. -/
theorem wp_mute {α : Type} {p : Code T ν α} {J : Trace ν → Prop} (hp : p.Each Mute)
    (hJ : ∀ t new, (∀ e ∈ new, e.Silent) → J t → J (t ++ new)) (h : J t) :
    wp (orderly T ν) p (fun _ _ t => J t) s t := by
  refine wp_of_each (J := fun _ t => J t) (fun _ _ _ _ h => h) ?_ hp h
  intro β a ha c s t hj
  obtain ⟨new, ht, hnew⟩ := ha c s t
  rw [ht]
  exact ⟨fun ho => ho.silent hnew, hJ t new hnew hj⟩

theorem ends_fresh {α : Type} {p : Code T ν α} (hp : p.Each Mute) (ht : Fresh t) :
    wp (orderly T ν) p (Ends Fresh) s t :=
  wp_mono (wp_mute hp (fun _ _ hnew h => h.silent hnew) ht) fun _ _ _ h => ⟨h.orderly, fun _ _ => h⟩

theorem ends_clean {α : Type} {p : Code T ν α} (hp : p.Each Mute) (ht : Clean t) :
    wp (orderly T ν) p (Ends Clean) s t :=
  wp_mono (wp_mute hp (fun _ _ hnew h => h.silent hnew) ht) fun _ _ _ h => ⟨fun _ => h, fun _ _ => h⟩

/-- The one place where an answer is looked at. -/
theorem ends_authorize {action : ActionRequest} (ht : Fresh t) :
    wp (orderly T ν) (authorize action) (Ends Fresh) s t := by
  have hcalled : ∀ r payload, .called payload ∉ t ++ [.asked action r] := by
    intro r payload h
    rcases List.mem_append.mp h with h | h
    · exact ht.2 payload h
    · cases List.mem_singleton.mp h
  have horderly : ∀ {t : Trace ν}, (∀ payload, .called payload ∉ t) → Orderly t :=
    fun h ⟨payload, hp⟩ => absurd hp (h payload)
  refine wp_mapError (P := Ends Fresh) ?_ (fun _ _ _ h => h) fun e s t h => ⟨h.1, by simp⟩
  -- Between the answer and the look at it, only the record is written.
  refine wp_bind (P := fun r _ t' => Orderly t' ∧ ∀ result, r = .ok result →
    t' = t ++ [.asked action result]) (wp_perform ?_) ?_ fun e s t h => ⟨h.1, by simp⟩
  · intro s' _ c
    cases hc : c.gateway with
    | ok result =>
      simp only [Act.authorize, hc]
      refine ⟨fun _ => horderly (hcalled result), horderly (hcalled result), ?_⟩
      intro r hr
      cases hr
      rfl
    | error e =>
      simp only [Act.authorize, hc]
      exact ⟨fun h => h, ht.orderly, by simp⟩
  · rintro result s' t' ⟨_, h⟩
    obtain rfl := h result rfl
    refine wp_bind (P := fun _ _ t' => ∃ new, t' = t ++ [.asked action result] ++ new ∧
      ∀ e ∈ new, e.Silent) ?_ ?_ ?_
    · refine wp_mute (J := fun t' => ∃ new, t' = t ++ [.asked action result] ++ new ∧
        ∀ e ∈ new, e.Silent) (.perform (mute_write (T := T) _)) ?_
        ⟨[], (List.append_nil _).symm, by simp⟩
      rintro _ more hmore ⟨new, rfl, hnew⟩
      refine ⟨new ++ more, by simp, ?_⟩
      intro e he
      rcases List.mem_append.mp he with he | he
      · exact hnew e he
      · exact hmore e he
    · rintro _ s'' _ ⟨new, rfl, hnew⟩
      have hquiet : ∀ payload, .called payload ∉ t ++ [.asked action result] ++ new :=
        fun payload hp => hcalled result payload (called_of_silent hnew hp)
      refine wp_raiseIf (fun _ => ⟨horderly hquiet, by simp⟩) ?_
      intro hr
      simp only [not_or, Bool.not_eq_true', Bool.not_eq_false, ne_eq, not_not] at hr
      have hclean : Clean (t ++ [.asked action result]) := by
        intro a r hmem
        rcases List.mem_append.mp hmem with hmem | hmem
        · exact ht.1 a r hmem
        · cases List.mem_singleton.mp hmem
          exact hr
      exact ⟨horderly hquiet, fun _ _ => ⟨hclean.silent hnew, hquiet⟩⟩
    · rintro e s'' _ ⟨new, rfl, hnew⟩
      refine ⟨horderly fun payload hp => hcalled result payload (called_of_silent hnew hp), ?_⟩
      simp

theorem ends_nextCall {payload : Payload ν} (ht : Fresh t) :
    wp (orderly T ν) (nextCall payload) (Ends Clean) s t := by
  have hclean : Clean (t ++ [.called payload]) := by
    intro action result h
    rcases List.mem_append.mp h with h | h
    · exact ht.1 action result h
    · cases List.mem_singleton.mp h
  refine ends_bind (K := Clean) (wp_perform ?_) ?_
  · intro s' _ c
    exact ⟨fun _ _ => hclean, fun _ => hclean, fun _ _ => hclean⟩
  · intro _ s t ht
    refine ends_clean (.perform ?_) ht
    intro c s t
    cases hc : c.nextCall with
    | ok result =>
      simp only [Act.awaitResult, hc]
      exact ⟨_, rfl, by simp [Event.Silent]⟩
    | error e =>
      simp only [Act.awaitResult, hc]
      exact ⟨[], by simp, by simp⟩

/-- Handlers are mute. -/
theorem ends_mapError {α : Type} {p : Code T ν α} {f : Raised → Code T ν Raised} {K : Trace ν → Prop}
    (hp : wp (orderly T ν) p (Ends K) s t) (hf : ∀ e, (f e).Each Mute) :
    wp (orderly T ν) (Prog.mapError p f) (Ends K) s t := by
  refine wp_mapError hp (fun _ _ _ h => h) ?_
  rintro e s t ⟨h, _⟩
  refine wp_mono (wp_mute (J := Orderly) (hf e) (fun _ _ hnew h => h.silent hnew) h) ?_
  intro r s t h
  cases r <;> exact ⟨h, by simp⟩

theorem ends_guarded {α : Type} {who : Caller} {capability failed : String} {body : Code T ν α}
    {K : Trace ν → Prop} (h : wp (orderly T ν) body (Ends K) s t) :
    wp (orderly T ν) (guarded who capability failed body) (Ends K) s t := by
  refine ends_mapError h ?_
  intro e
  cases e with
  | interrupt => exact trivial
  | boundary _ | mandatory _ | lockException | importError | failure =>
    exact each_denied (mute_write _)

theorem fresh_nil : Fresh ([] : Trace ν) := ⟨by simp [Clean], by simp⟩

section

variable [Python ν] {config : Config} {who : Caller}

theorem ends_modelExecution (request context : Dict ν) :
    wp (orderly T ν) (modelExecution clock config who request context) (Ends Clean) s [] := by
  refine ends_bind (K := Fresh) (ends_guarded ?_) ?_
  · refine ends_bind (ends_fresh (each_actor (mute_isActive clock) who) fresh_nil) ?_
    intro identity s t ht
    refine ends_bind (ends_fresh each_ofExcept ht) fun _ s t ht => ?_
    exact ends_bind (ends_fresh each_ofExcept ht) fun _ s t ht => ends_authorize ht
  · intro _ s t ht
    refine ends_mapError (ends_nextCall ht) ?_
    intro e
    cases e with
    | boundary _ => exact each_denied (mute_write _)
    | interrupt | mandatory _ | lockException | importError | failure => exact trivial

theorem ends_modelOutput (result : Payload ν) (context : Dict ν) :
    wp (orderly T ν) (modelOutput clock config who result context) (Ends Clean) s [] := by
  refine ends_guarded (ends_bind (ends_fresh (each_actor (mute_isActive clock) who) fresh_nil) ?_)
  intro identity s t ht
  refine ends_bind (ends_fresh each_ofExcept ht) fun _ s t ht => ?_
  refine ends_bind (ends_fresh each_ofExcept ht) fun _ s t ht => ?_
  refine ends_bind (ends_authorize ht) fun _ s t ht => ?_
  exact ends_clean (.bind (.perform (mute_write _)) fun _ => trivial) ht.1

theorem ends_toolExecution (name : String) (args : Dict ν) :
    wp (orderly T ν) (toolExecution clock config who name args) (Ends Clean) s [] := by
  refine ends_guarded (ends_bind (ends_fresh (each_actor (mute_isActive clock) who) fresh_nil) ?_)
  intro identity s t ht
  refine ends_bind (ends_fresh each_ofExcept ht) fun _ s t ht => ?_
  refine ends_bind (ends_fresh (each_toolAction mute_resolve name args identity) ht) ?_
  intro action s t ht
  refine ends_bind (ends_authorize ht) fun _ s t ht => ?_
  exact ends_bind (ends_nextCall ht) fun result s t ht => ends_clean (each_validResult (mute_write _) result) ht

theorem ends_sessionWrite (call : WriteCall ν) :
    wp (orderly T ν) (sessionWrite clock call) (Ends Clean) s [] := by
  refine ends_mapError ?_ (each_writeError (mute_write _))
  refine ends_bind (ends_fresh (each_actor (mute_isActive clock) call.who) fresh_nil) ?_
  intro identity s t ht
  refine ends_bind (ends_fresh (each_boundSession clock (mute_isActive clock) call.who) ht) ?_
  intro bound s t ht
  refine ends_bind (ends_fresh (each_writeOperation mute_resolve bound call.context) ht) ?_
  intro operation s t ht
  refine ends_bind (ends_fresh each_ofExcept ht) fun _ s t ht => ?_
  refine ends_bind (ends_authorize ht) fun _ s t ht => ?_
  exact ends_clean (.bind (.perform (mute_write _)) fun _ => trivial) ht.1

end

/-- A callback that goes on under clean answers only, honours obligations. -/
theorem callback_honours {p : Code T ν (Payload ν)} (hp : ∀ s, wp (orderly T ν) p (Ends Clean) s [])
    {result : AuthorizationResult} (h : result.Obliges) : Honours p result := by
  rintro s moves o ⟨action, hasked⟩
  obtain ⟨ho, hend⟩ := wp_run stopped (I := fun _ t => Orderly t) (fun _ _ => trivial)
    (fun _ _ _ _ hg => hg) (fun _ _ h => h) (hp s) fresh_nil.orderly moves
  have hclean : ¬ Clean o.loc := by
    intro hc
    obtain ⟨_, h1, h2⟩ := hc action result hasked
    rcases h with h | h
    · exact h h1
    · exact h h2
  refine ⟨fun payload hp => hclean (ho ⟨payload, hp⟩), ?_⟩
  intro v hv
  exact hclean ((hend _ hv).2 v rfl)

end

end Plugin

/-! ## All enforcement points -/

namespace Enforcement

open Logic

section

variable {T ν : Type} [LinearOrder T] (clock : Clock T) [Vector.Python ν] [Plugin.Python ν]

/-- A call of an enforcement point. -/
inductive Call (ν : Type) where
  | run (runtime : GovernedAgentRuntime) (options : RunOptions)
  | remember (memory : GovernedMemoryRetriever) (document : Vector.Doc ν)
  | «recall» (memory : GovernedMemoryRetriever) (memoryId : String)
  | search (memory : GovernedMemoryRetriever) (category : Option String) (limit : Int)
  | searchHybrid (memory : GovernedMemoryRetriever) (category : Option String) (limit : Int)
  | ingest (memory : GovernedMemoryRetriever) (platform : Platform) (path documentsRoot : PurePath)
  | rebuild (memory : GovernedMemoryRetriever) (embedding : GovernedMemoryRetriever.Embedding ν)
      (documents : List (Vector.Doc ν))
  | inspect (d : Documents) (source : PurePath)
  | extractPdfText (d : Documents) (source : PurePath) (output : Option PurePath)
  | createPdf (d : Documents) (text : String) (output : PurePath)
  | convert (d : Documents) (source output : PurePath) (outputFormat : String)
  | modelExecution (config : Plugin.Config) (who : Caller) (request context : Plugin.Dict ν)
  | modelOutput (config : Plugin.Config) (who : Caller) (result : Plugin.Payload ν)
      (context : Plugin.Dict ν)
  | toolExecution (config : Plugin.Config) (who : Caller) (name : String) (args : Plugin.Dict ν)
  | sessionWrite (call : Plugin.WriteCall ν)

namespace Call

/-- No run of the call goes on after the gateway has answered `result`. -/
def Honours (result : AuthorizationResult) : Call ν → Prop
  | .run runtime options => Enforcement.Honours (runtime.run options) result
  | .remember memory document => Enforcement.Honours (memory.remember document) result
  | .recall memory memoryId => Enforcement.Honours (memory.recall memoryId) result
  | .search memory category limit => Enforcement.Honours (memory.search category limit) result
  | .searchHybrid memory category limit =>
    Enforcement.Honours (memory.searchHybrid category limit) result
  | .ingest memory platform path documentsRoot =>
    Enforcement.Honours (memory.ingestDocument platform path documentsRoot) result
  | .rebuild memory embedding documents =>
    Enforcement.Honours (memory.rebuildEmbeddings embedding documents) result
  | .inspect d source => Enforcement.Honours (d.inspectDocument source) result
  | .extractPdfText d source output => Enforcement.Honours (d.extractPdfText source output) result
  | .createPdf d text output => Enforcement.Honours (d.createPdf text output) result
  | .convert d source output outputFormat =>
    Enforcement.Honours (d.convertDocument source output outputFormat) result
  | .modelExecution config who request context =>
    Plugin.Honours (Plugin.modelExecution clock config who request context) result
  | .modelOutput config who output context =>
    Plugin.Honours (Plugin.modelOutput clock config who output context) result
  | .toolExecution config who name args =>
    Plugin.Honours (Plugin.toolExecution clock config who name args) result
  | .sessionWrite call => Plugin.Honours (Plugin.sessionWrite clock call) result

/-- The call is one of a callback of the plugin. -/
def isHook : Call ν → Bool
  | .modelExecution .. | .modelOutput .. | .toolExecution .. | .sessionWrite .. => true
  | _ => false

/-- What the call asks the gateway, unless its own checks raise first. -/
def questions : Call ν → Except Refusal (List Question)
  | .run runtime options => .ok (runtime.questions options)
  | .remember memory document =>
    let memoryId := GovernedMemoryRetriever.memoryId document
    .ok [memory.question "memory.write" memoryId "remember" [("memory_id", memoryId)]]
  | .recall memory memoryId =>
    .ok [memory.question "memory.read" memoryId "recall" [("memory_id", memoryId)]]
  | .search memory category _ =>
    let scope := GovernedMemoryRetriever.scope category
    .ok [memory.question "memory.read" scope "search" [("category", scope)]]
  | .searchHybrid memory category _ =>
    let scope := GovernedMemoryRetriever.scope category
    .ok [memory.question "memory.read" scope "hybrid_search" [("category", scope)]]
  | .ingest memory platform path documentsRoot => memory.ingestQuestions platform path documentsRoot
  | .rebuild memory embedding documents => memory.rebuildQuestions embedding documents
  | .inspect d source => (d.inspectQuestion source).map fun q => [q]
  | .extractPdfText d source output => (d.extractQuestion source output).map fun q => [q]
  | .createPdf d text output => (d.createQuestion text output).map fun q => [q]
  | .convert d source output outputFormat =>
    (d.convertQuestion source output outputFormat).map fun q => [q]
  | .modelExecution .. | .modelOutput .. | .toolExecution .. | .sessionWrite .. => .ok []

/-- What the call checks after its questions. -/
def admission : Call ν → Except Refusal Unit
  | .run runtime options => runtime.bound options
  | .remember _ document => GovernedMemoryRetriever.identified document
  | .search _ _ limit => GovernedMemoryRetriever.positive limit
  | .searchHybrid memory _ limit => memory.hybridChecks limit
  | _ => .ok ()

/-- The call's own checks raise, or it asks nothing. -/
def Refused (call : Call ν) : Prop :=
  ∀ questions, call.questions = .ok questions → call.admission = .ok () → questions = []

end Call

/-- **Who honours obligations.**  A result with constraints or redactions stops a call of an
enforcement point, in every run, exactly when the call is one of a callback of the plugin, or
the result is no allow, or the call's own checks refuse it or ask nothing. -/
theorem obligations_honoured (call : Call ν) (result : AuthorizationResult) (h : result.Obliges) :
    call.Honours clock result ↔ call.isHook ∨ result.allowed = false ∨ call.Refused := by
  -- Outside the plugin, a call is a guarded operation, of which the answer is known.
  have houtside : call.isHook = false → ∀ {p operation},
      p = guardedBy call.questions call.admission operation →
      (Enforcement.Honours p result ↔ call.isHook ∨ result.allowed = false ∨ call.Refused) := by
    rintro hhook p operation rfl
    rw [guardedBy_honours, hhook]
    simp [Call.Refused]
  cases call with
  | run runtime options => exact houtside rfl (runtime.run_eq options)
  | remember memory document => exact houtside rfl (memory.remember_eq document)
  | «recall» memory memoryId => exact houtside rfl (memory.recall_eq memoryId)
  | search memory category limit => exact houtside rfl (memory.search_eq category limit)
  | searchHybrid memory category limit => exact houtside rfl (memory.searchHybrid_eq category limit)
  | ingest memory platform path documentsRoot =>
    exact houtside rfl (memory.ingestDocument_eq platform path documentsRoot)
  | rebuild memory embedding documents =>
    exact houtside rfl (memory.rebuildEmbeddings_eq embedding documents)
  | inspect d source => exact houtside rfl (Documents.asking_eq _ _)
  | extractPdfText d source output => exact houtside rfl (Documents.asking_eq _ _)
  | createPdf d text output => exact houtside rfl (Documents.asking_eq _ _)
  | convert d source output outputFormat => exact houtside rfl (Documents.asking_eq _ _)
  | modelExecution config who request context =>
    exact iff_of_true (Plugin.callback_honours
      (fun _ => Plugin.ends_modelExecution clock request context) h) (.inl rfl)
  | modelOutput config who output context =>
    exact iff_of_true (Plugin.callback_honours
      (fun _ => Plugin.ends_modelOutput clock output context) h) (.inl rfl)
  | toolExecution config who name args =>
    exact iff_of_true (Plugin.callback_honours
      (fun _ => Plugin.ends_toolExecution clock name args) h) (.inl rfl)
  | sessionWrite call =>
    exact iff_of_true (Plugin.callback_honours (fun _ => Plugin.ends_sessionWrite clock call) h)
      (.inl rfl)

end

namespace Sample

/-- An allow with a constraint. -/
def constrained : AuthorizationResult where
  decision := .allow
  reasonCode := "governance.policy_rule"
  constraints := ["require-approval"]

def runtime : GovernedAgentRuntime where
  actorId := "local-user"

def answered : Choice where
  gateway := .ok constrained

/-- A constrained allow does not stop the runtime. -/
theorem constrained_run : constrained.Obliges ∧ ¬ Honours (runtime.run {}) constrained := by
  refine ⟨.inl (by decide), ?_⟩
  intro h
  refine h [.go answered, .go answered, .go answered] ⟨runtime.runAction {}, .run,
    [.asked (runtime.runAction {}) constrained,
      .wrote (record "authorization.runtime" (runtime.runAction {}) constrained)], [], ?_,
    List.mem_cons_self⟩
  decide +kernel

/-- It stops a session write. -/
theorem constrained_write :
    (Call.sessionWrite Plugin.Sample.append).Honours Plugin.Sample.clock constrained :=
  (obligations_honoured Plugin.Sample.clock (.sessionWrite Plugin.Sample.append) constrained
    (.inl (by decide))).mpr (.inl rfl)

end Sample

end Enforcement

end ProjectMaya
