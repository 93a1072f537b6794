import ProjectMaya.Plugin
import ProjectMaya.Logic.Wp
import ProjectMaya.Logic.History

/-! # The execution boundary fails closed

A model or tool call that passes `modelExecution` or `toolExecution` reaches `next_call`
at most once, and only after every check and the authorisation went through
(`execution_boundary`), whatever the leases, the file system, the gateway, the audit sink
and `next_call` do.  The rules below say what each action of a callback adds to its
trace. -/

namespace ProjectMaya.Plugin

open Logic

section

variable {T ν : Type} [LinearOrder T] (clock : Clock T)

/-! ## What a call of `next_call` presupposes -/

/-- The identity is bound, and a bound session is active and belongs to the caller. -/
structure Bound (s : Leases T) (who : Caller) (identity : RequestIdentity) : Prop where
  identity : who.identity = some identity
  session : ∀ bound, who.session = some bound →
    (s.isActive clock bound.lease).1 = true ∧ bound.ownedBy who = true

/-- The last things that happened: the gateway allowed the action, without constraints and
redactions, and the record of that was written. -/
def Authorised (action : ActionRequest) (before : Trace ν) : Prop :=
  ∃ earlier result,
    before = earlier ++ [.asked action result, .wrote (authorizationRecord action result)] ∧
      result.allowed = true ∧ result.constraints = [] ∧ result.redactions = []

/-- `path` lies strictly below `root`. -/
def StrictlyInside (path root : ResolvedPath) : Prop :=
  path.doubleRoot = root.doubleRoot ∧ ∃ rest, rest ≠ [] ∧ path.names = root.names ++ rest

/-- The action stands for a call of the tool `name`; the path of a file tool was resolved and
found inside the documents. -/
def Mapped (config : Config) (name : String) (identity : RequestIdentity)
    (action : ActionRequest) (before : Trace ν) : Prop :=
  (∃ capability operation root path written, fileTool name = some (capability, operation) ∧
    action = { actorId := identity.actorId, capability, target := path.text, operation
               dataClassification := identity.dataClassification } ∧
    .resolved (config.dataDir.join (.parse "documents")) root ∈ before ∧
    .resolved written path ∈ before ∧ StrictlyInside path root) ∨
  (∃ capability target operation, fileTool name = none ∧
    memoryTool name = some (capability, target, operation) ∧
    action = { actorId := identity.actorId, capability, target, operation
               dataClassification := identity.dataClassification })

/-- What `model_execution` has established when it calls. -/
structure ModelAdmitted [Python ν] (s : Leases T) (config : Config) (who : Caller)
    (request context : Dict ν) (before : Trace ν) (payload : Payload ν) : Prop where
  payload : payload = .mapping true request
  checked : ∃ text, checkedPayload (.mapping true request) = .ok text
  routed : modelRoute config.llm context request = .ok ()
  authorised : ∃ identity, Bound clock s who identity ∧
    Authorised (modelAction config.llm identity) before

/-- What `tool_execution` has established when it calls. -/
structure ToolAdmitted [Python ν] (s : Leases T) (config : Config) (who : Caller)
    (name : String) (args : Dict ν) (before : Trace ν) (payload : Payload ν) : Prop where
  checked : ∃ text, checkedPayload (.mapping true args) = .ok text
  authorised : ∃ identity action, Bound clock s who identity ∧
    Mapped config name identity action before ∧ Authorised action before ∧
    payload = .mapping true (effectiveArgs name args action)

/-- The tool's result passed its check, and the record of that was written. -/
def Validated [Python ν] (t : Trace ν) (result : Payload ν) : Prop :=
  (∃ text, checkedPayload result = .ok text) ∧
    ∃ before action, t = before ++ [.returned result, .wrote (resultRecord action)] ∧
      ∃ answer, .asked action answer ∈ before

/-- An entry of `next_call` is the first one, and admitted. -/
def Sole (Admitted : Trace ν → Payload ν → Prop) (before : Trace ν) (e : Event ν) : Prop :=
  ∀ payload, e = .called payload → (∀ p, .called p ∉ before) ∧ Admitted before payload

/-! ## Rules for the actions -/

/-- Nobody else touches the leases; each action adds at most one event, within the law. -/
def boundary (T : Type) (Admitted : Trace ν → Payload ν → Prop) : Contract (Leases T) (Trace ν) where
  rely _ s s' := s' = s
  guar _ t _ t' := t' = t ∨ ∃ e, t' = t ++ [e] ∧ Sole Admitted t e

/-- `t'` continues `t` without entering `next_call`. -/
def Quiet (t t' : Trace ν) : Prop := ∃ new, t' = t ++ new ∧ ∀ p, .called p ∉ new

theorem Quiet.refl (t : Trace ν) : Quiet t t := ⟨[], by simp, by simp⟩

theorem Quiet.snoc {t t' : Trace ν} (h : Quiet t t') {e : Event ν} (he : ∀ p, e ≠ .called p) :
    Quiet t (t' ++ [e]) := by
  obtain ⟨new, rfl, hnew⟩ := h
  refine ⟨new ++ [e], by simp, ?_⟩
  intro p hp
  rcases List.mem_append.mp hp with hp | hp
  · exact hnew p hp
  · exact he p (List.mem_singleton.mp hp).symm

theorem Quiet.trans {t u v : Trace ν} (h : Quiet t u) (h' : Quiet u v) : Quiet t v := by
  obtain ⟨new, rfl, hnew⟩ := h
  obtain ⟨new', rfl, hnew'⟩ := h'
  refine ⟨new ++ new', by simp, ?_⟩
  intro p hp
  rcases List.mem_append.mp hp with hp | hp
  · exact hnew p hp
  · exact hnew' p hp

theorem Quiet.mem {t t' : Trace ν} (h : Quiet t t') {e : Event ν} (he : e ∈ t) : e ∈ t' := by
  obtain ⟨new, rfl, _⟩ := h
  exact List.mem_append_left new he

/-- Without an entry before, there is none after. -/
theorem Quiet.called_not_mem {t t' : Trace ν} (h : Quiet t t') (ht : ∀ p, .called p ∉ t) (p : Payload ν) :
    .called p ∉ t' := by
  obtain ⟨new, rfl, hnew⟩ := h
  intro hp
  rcases List.mem_append.mp hp with hp | hp
  · exact ht p hp
  · exact hnew p hp

variable {Admitted : Trace ν → Payload ν → Prop} {s : Leases T} {t : Trace ν}

/-- A program of which nothing but the law is asked. -/
abbrev Within {α : Type} (T : Type) [LinearOrder T] (Admitted : Trace ν → Payload ν → Prop)
    (p : Code T ν α) : Prop := ∀ s t, wp (boundary T Admitted) p (fun _ _ _ => True) s t

omit [LinearOrder T] in
theorem guar_quiet {s' : Leases T} {e : Event ν} (he : ∀ p, e ≠ .called p) :
    (boundary T Admitted).guar s t s' (t ++ [e]) :=
  .inr ⟨e, rfl, fun p hp => absurd hp (he p)⟩

theorem wp_isActive {lease : Nat} {Q : Bool → Leases T → Trace ν → Prop}
    (h : Q (s.isActive clock lease).1 (s.isActive clock lease).2
      (t ++ [.looked lease (s.isActive clock lease).1])) :
    wp (boundary T Admitted) (.perform (Act.isActive clock lease)) (Returns Q) s t := by
  refine wp_perform ?_
  rintro s' rfl c
  exact ⟨guar_quiet (by simp), .ok h⟩

theorem wp_resolve {path : PurePath} {Q : ResolvedPath → Leases T → Trace ν → Prop}
    (h : ∀ result, Q result s (t ++ [.resolved path result])) :
    wp (boundary T Admitted) (.perform (Act.resolve path)) (Returns Q) s t := by
  refine wp_perform ?_
  rintro s' rfl c
  cases hc : c.resolve with
  | ok result =>
    simp only [Act.resolve, hc]
    exact ⟨guar_quiet (by simp), .ok (h result)⟩
  | error e =>
    simp only [Act.resolve, hc]
    exact ⟨.inl rfl, .error⟩

theorem wp_write {record : AuditRecord} {Q : Unit → Leases T → Trace ν → Prop}
    (h : Q () s (t ++ [.wrote record])) :
    wp (boundary T Admitted) (.perform (Act.write record)) (Returns Q) s t := by
  refine wp_perform ?_
  rintro s' rfl c
  cases hc : c.audit with
  | ok _ =>
    simp only [Act.write, hc]
    exact ⟨guar_quiet (by simp), .ok h⟩
  | error e =>
    simp only [Act.write, hc]
    exact ⟨.inl rfl, .error⟩

theorem wp_ask {action : ActionRequest} {Q : AuthorizationResult → Leases T → Trace ν → Prop}
    (h : ∀ result, Q result s (t ++ [.asked action result])) :
    wp (boundary T Admitted) (.perform (Act.authorize action)) (Returns Q) s t := by
  refine wp_perform ?_
  rintro s' rfl c
  cases hc : c.gateway with
  | ok result =>
    simp only [Act.authorize, hc]
    exact ⟨guar_quiet (by simp), .ok (h result)⟩
  | error e =>
    simp only [Act.authorize, hc]
    exact ⟨.inl rfl, .error⟩

/-- The one action that has something to show. -/
theorem wp_nextCall {payload : Payload ν} {Q : Payload ν → Leases T → Trace ν → Prop}
    (hfirst : ∀ p, .called p ∉ t) (hadmitted : Admitted t payload)
    (h : ∀ result, Q result s (t ++ [.called payload] ++ [.returned result])) :
    wp (boundary T Admitted) (nextCall payload) (Returns Q) s t := by
  refine returns_bind (P := fun _ s' t' => s' = s ∧ t' = t ++ [.called payload]) (wp_perform ?_) ?_
  · rintro s' rfl c
    refine ⟨.inr ⟨.called payload, rfl, ?_⟩, .ok ⟨rfl, rfl⟩⟩
    intro p hp
    cases hp
    exact ⟨hfirst, hadmitted⟩
  · rintro _ s' t' ⟨rfl, rfl⟩
    refine wp_perform ?_
    rintro s'' rfl c
    cases hc : c.nextCall with
    | ok result =>
      simp only [Act.awaitResult, hc]
      exact ⟨guar_quiet (by simp), .ok (h result)⟩
    | error e =>
      simp only [Act.awaitResult, hc]
      exact ⟨.inl rfl, .error⟩

theorem wp_ofExcept {α : Type} {x : Except Raised α} {C : Contract (Leases T) (Trace ν)}
    {Q : α → Leases T → Trace ν → Prop} (h : ∀ a, x = .ok a → Q a s t) :
    wp C (ofExcept x : Code T ν α) (Returns Q) s t := by
  cases x with
  | ok a => exact .ok (h a rfl)
  | error e => exact .error

/-! ## The parts of a callback -/

theorem wp_actor {who : Caller} :
    wp (boundary T Admitted) (actor clock who)
      (Returns fun identity _ t' => Quiet t t' ∧ Bound clock s who identity) s t := by
  unfold actor
  cases hid : who.identity with
  | none => exact .error
  | some identity =>
    cases hb : who.session with
    | none =>
      refine .ok ⟨.refl t, hid, ?_⟩
      intro bound h
      rw [hb] at h
      cases h
    | some bound =>
      have hq := (Quiet.refl t).snoc (e := .looked bound.lease (s.isActive clock bound.lease).1)
        (by simp)
      refine returns_bind (wp_isActive clock (Q := fun active _ t' =>
        active = (s.isActive clock bound.lease).1 ∧ Quiet t t') ⟨rfl, hq⟩) ?_
      rintro active s' t' ⟨rfl, ht⟩
      refine returns_bind (returns_raiseIf (Q := fun _ _ t'' => Quiet t t'' ∧
        (s.isActive clock bound.lease).1 = true ∧ bound.ownedBy who = true)
        fun h => ⟨ht, not_not.mp h⟩) ?_
      rintro _ s'' t'' ⟨ht', h⟩
      refine .ok ⟨ht', hid, ?_⟩
      intro b hb'
      rw [hb] at hb'
      cases hb'
      exact h

theorem wp_authorize {action : ActionRequest} :
    wp (boundary T Admitted) (authorize action)
      (Returns fun _ _ t' => Quiet t t' ∧ Authorised action t') s t := by
  refine returns_mapError ?_ fun e s' t' => trivial
  refine returns_bind (wp_ask (Q := fun result _ t' => t' = t ++ [.asked action result])
    fun _ => rfl) ?_
  rintro result s' _ rfl
  refine returns_bind (wp_write (Q := fun _ _ t' =>
    t' = t ++ [.asked action result] ++ [.wrote (authorizationRecord action result)]) rfl) ?_
  rintro _ s'' _ rfl
  refine returns_raiseIf ?_
  intro h
  simp only [not_or, Bool.not_eq_true', Bool.not_eq_false, ne_eq, not_not] at h
  exact ⟨((Quiet.refl t).snoc (by simp)).snoc (by simp), t, result, by simp, h⟩

theorem within_auditBlock {who : Caller} {capability : String} :
    Within T Admitted (auditBlock who capability) := by
  intro s t
  refine wp_mono (Q := Returns fun _ _ _ => True) (returns_mapError ?_ fun e s' t' => trivial)
    fun _ _ _ _ => trivial
  exact wp_write trivial

/-- What the handler of an error does. -/
theorem within_handler {who : Caller} {capability : String} {e : Raised} :
    Within T Admitted (do auditBlock who capability; return e) :=
  fun s t => wp_bind (within_auditBlock s t) (fun _ _ _ _ => trivial) fun _ _ _ _ => trivial

theorem wp_guarded {α : Type} {who : Caller} {capability failed : String} {body : Code T ν α}
    {Q : α → Leases T → Trace ν → Prop} (h : wp (boundary T Admitted) body (Returns Q) s t) :
    wp (boundary T Admitted) (guarded who capability failed body) (Returns Q) s t := by
  refine returns_mapError h ?_
  intro e s' t'
  cases e with
  | interrupt => exact trivial
  | boundary _ | mandatory _ | lockException | importError | failure => exact within_handler s' t'

theorem strictlyInside_of_mem_parents {path root : ResolvedPath}
    (h : root.toPure ∈ path.toPure.parents) : StrictlyInside path root := by
  obtain ⟨ha, rest, hr, hn⟩ := PurePath.mem_parents.mp h
  refine ⟨?_, rest, hr, hn⟩
  revert ha
  unfold ResolvedPath.toPure
  cases path.doubleRoot <;> cases root.doubleRoot <;> simp

/-- A path that was resolved, and found strictly inside the documents. -/
def Located (config : Config) (path : ResolvedPath) (t : Trace ν) : Prop :=
  ∃ root written, .resolved (config.dataDir.join (.parse "documents")) root ∈ t ∧
    .resolved written path ∈ t ∧ StrictlyInside path root

theorem wp_documentPath {config : Config} {value : Payload ν} :
    wp (boundary T Admitted) (documentPath config value)
      (Returns fun path _ t' => Quiet t t' ∧ Located config path t') s t := by
  cases value with
  | str text =>
    refine returns_bind (returns_raiseIf (Q := fun _ _ t' => t' = t) fun _ => rfl) ?_
    rintro _ s' t rfl
    refine returns_bind (wp_resolve (Q := fun root _ t' =>
      t' = t ++ [.resolved (config.dataDir.join (.parse "documents")) root]) fun _ => rfl) ?_
    rintro root s'' t' rfl
    refine returns_bind (wp_resolve (Q := fun path _ t'' => ∃ written, t'' =
      t ++ [.resolved (config.dataDir.join (.parse "documents")) root] ++ [.resolved written path])
      fun _ => ⟨_, rfl⟩) ?_
    rintro path s₃ _ ⟨written, rfl⟩
    refine returns_bind (returns_raiseIf (Q := fun _ _ t' =>
      t' = t ++ [.resolved (config.dataDir.join (.parse "documents")) root] ++ [.resolved written path] ∧
        root.toPure ∈ path.toPure.parents) fun h => ⟨rfl, not_not.mp h⟩) ?_
    rintro _ s₄ _ ⟨rfl, h⟩
    exact .ok ⟨((Quiet.refl t).snoc (by simp)).snoc (by simp), root, written, by simp, by simp,
      strictlyInside_of_mem_parents h⟩
  | none | bool _ | int _ | float _ | list _ _ | mapping _ _ | path _ | object => exact .error

theorem Mapped.quiet {config : Config} {name : String} {identity : RequestIdentity}
    {action : ActionRequest} {t' : Trace ν} (h : Mapped config name identity action t)
    (ht : Quiet t t') : Mapped config name identity action t' := by
  rcases h with ⟨capability, operation, root, path, written, hf, ha, hroot, hwritten, hin⟩ | h
  · exact .inl ⟨capability, operation, root, path, written, hf, ha, ht.mem hroot, ht.mem hwritten, hin⟩
  · exact .inr h

theorem wp_toolAction {config : Config} {name : String} {args : Dict ν} {identity : RequestIdentity} :
    wp (boundary T Admitted) (toolAction config name args identity)
      (Returns fun action _ t' => Quiet t t' ∧ Mapped config name identity action t') s t := by
  unfold toolAction
  cases hf : fileTool name with
  | some tool =>
    obtain ⟨capability, operation⟩ := tool
    refine returns_bind wp_documentPath ?_
    rintro path s' t' ⟨ht, root, written, hroot, hwritten, hin⟩
    exact .ok ⟨ht, .inl ⟨capability, operation, root, path, written, hf, rfl, hroot, hwritten, hin⟩⟩
  | none =>
    cases hm : memoryTool name with
    | some tool =>
      obtain ⟨capability, target, operation⟩ := tool
      exact .ok ⟨.refl t, .inr ⟨capability, target, operation, hf, hm, rfl⟩⟩
    | none => exact .error

/-- **The authorised path.**  A file tool gets the path that its action names. -/
theorem Mapped.path {config : Config} {name : String} {identity : RequestIdentity}
    {action : ActionRequest} (h : Mapped config name identity action t) (hf : fileTool name ≠ none)
    (args : Dict ν) : ∃ root path,
      .resolved (config.dataDir.join (.parse "documents")) root ∈ t ∧ StrictlyInside path root ∧
      action.target = path.text ∧ (effectiveArgs name args action).get "path" = .str path.text := by
  rcases h with ⟨capability, operation, root, path, written, hname, rfl, hroot, _, hin⟩ | ⟨_, _, _, h, _⟩
  · refine ⟨root, path, hroot, hin, rfl, ?_⟩
    have hset : effectiveArgs name args
        { actorId := identity.actorId, capability, target := path.text, operation,
          dataClassification := identity.dataClassification } =
        args.set "path" (.str (PurePath.parse path.text).text) := if_pos (by rw [hname]; rfl)
    rw [hset, Dict.get_set, ResolvedPath.parse_text]
    rfl
  · exact absurd h hf

/-! ## The two callbacks -/

section

variable [Python ν] {config : Config} {who : Caller}

theorem wp_modelExecution {request context : Dict ν} :
    wp (boundary T (ModelAdmitted clock s config who request context))
      (modelExecution clock config who request context) (Returns fun _ _ _ => True) s [] := by
  refine returns_bind (P := fun _ _ t => Quiet [] t ∧
    ModelAdmitted clock s config who request context t (.mapping true request)) (wp_guarded ?_) ?_
  · refine returns_bind (wp_actor clock) ?_
    rintro identity s' t ⟨ht, hbound⟩
    refine returns_bind (wp_ofExcept (Q := fun text _ t' => t' = t ∧
      checkedPayload (.mapping true request) = .ok text) fun _ h => ⟨rfl, h⟩) ?_
    rintro text s'' t ⟨rfl, hchecked⟩
    refine returns_bind (wp_ofExcept (Q := fun _ _ t' => t' = t ∧
      modelRoute config.llm context request = .ok ()) fun _ h => ⟨rfl, h⟩) ?_
    rintro _ s₃ t ⟨rfl, hrouted⟩
    refine wp_mono wp_authorize ?_
    intro r s₄ t' h _ hr
    obtain ⟨ht', hauthorised⟩ := h () hr
    exact ⟨ht.trans ht', rfl, ⟨text, hchecked⟩, hrouted, identity, hbound, hauthorised⟩
  · rintro _ s' t ⟨ht, hadmitted⟩
    refine returns_mapError (wp_nextCall (ht.called_not_mem (by simp)) hadmitted fun _ => trivial) ?_
    intro e s'' t'
    cases e with
    | boundary _ => exact within_handler s'' t'
    | interrupt | mandatory _ | lockException | importError | failure => exact trivial

theorem wp_validResult {action : ActionRequest} {result : Payload ν} :
    wp (boundary T Admitted) (validResult action result)
      (Returns fun v _ t' => v = result ∧ (∃ text, checkedPayload result = .ok text) ∧
        t' = t ++ [.wrote (resultRecord action)]) s t := by
  refine returns_bind (wp_ofExcept (Q := fun text _ t' => t' = t ∧
    checkedPayload result = .ok text) fun _ h => ⟨rfl, h⟩) ?_
  rintro text s' t ⟨rfl, hchecked⟩
  refine returns_bind (wp_write (Q := fun _ _ t' => t' = t ++ [.wrote (resultRecord action)]) rfl) ?_
  rintro _ s'' _ rfl
  exact .ok ⟨rfl, ⟨text, hchecked⟩, rfl⟩

theorem wp_toolExecution {name : String} {args : Dict ν} :
    wp (boundary T (ToolAdmitted clock s config who name args))
      (toolExecution clock config who name args) (Returns fun v _ t => Validated t v) s [] := by
  refine wp_guarded (returns_bind (wp_actor clock) ?_)
  rintro identity s' t ⟨ht, hbound⟩
  refine returns_bind (wp_ofExcept (Q := fun text _ t' => t' = t ∧
    checkedPayload (.mapping true args) = .ok text) fun _ h => ⟨rfl, h⟩) ?_
  rintro text s'' t ⟨rfl, hchecked⟩
  refine returns_bind wp_toolAction ?_
  rintro action s₃ t' ⟨ht', hmapped⟩
  refine returns_bind wp_authorize ?_
  rintro _ s₄ t₂ ⟨ht₂, hauthorised⟩
  have hadmitted : ToolAdmitted clock s config who name args t₂
      (.mapping true (effectiveArgs name args action)) :=
    ⟨⟨text, hchecked⟩, identity, action, hbound, hmapped.quiet ht₂, hauthorised, rfl⟩
  refine returns_bind (wp_nextCall (Q := fun result _ t₃ => ∃ before,
    t₃ = before ++ [.returned result] ∧ ∃ answer, .asked action answer ∈ before)
    (((ht.trans ht').trans ht₂).called_not_mem (by simp)) hadmitted ?_) ?_
  · intro result
    obtain ⟨earlier, answer, rfl, _⟩ := hauthorised
    exact ⟨_, rfl, answer, by simp⟩
  · rintro result s₅ _ ⟨before, rfl, hasked⟩
    refine wp_mono wp_validResult ?_
    intro r s₆ t₄ h v hr
    obtain ⟨rfl, hv, rfl⟩ := h v hr
    exact ⟨hv, before, action, by simp, hasked⟩

end

/-- A run that the environment stops keeps what has happened. -/
def stopped (s : Leases T) (t : Trace ν) : Leases T × Trace ν := (s, t)

theorem run_boundary {α : Type} {p : Code T ν α} {Q : α → Leases T → Trace ν → Prop}
    (h : wp (boundary T Admitted) p (Returns Q) s []) (moves : List (Move (Choice ν))) :
    Justified (Sole Admitted) (p.run stopped moves s []).loc ∧
      ∀ v, (p.run stopped moves s []).result = some (.ok v) →
        Q v (p.run stopped moves s []).shared (p.run stopped moves s []).loc := by
  have hkeep : ∀ (s : Leases T) t (s' : Leases T) t', (boundary T Admitted).guar s t s' t' →
      Justified (Sole Admitted) t → Justified (Sole Admitted) t' := by
    rintro _ t _ _ (rfl | ⟨e, rfl, he⟩) ht
    · exact ht
    · exact ht.snoc he
  obtain ⟨hlaw, hret⟩ := wp_run stopped (I := fun _ t => Justified (Sole Admitted) t)
    (fun _ _ => rfl) hkeep (fun _ _ h => h) h Justified.nil moves
  exact ⟨hlaw, fun v hv => hret _ hv v rfl⟩

/-- **The execution boundary fails closed.**  Whatever the collaborators do, and wherever a
call is stopped: `model_execution` and `tool_execution` enter `next_call` at most once, and
only when the identity is bound with an active matching lease or without session, the payload
passed its check, the route or tool is mapped, the gateway allowed the action without
constraints and redactions, and the record of that is written.  A file tool gets exactly the
path that was authorised, strictly inside the documents.  `tool_execution` returns a result
only if it passed its check and the record of that is written. -/
theorem execution_boundary [Python ν] (s : Leases T) (config : Config) (who : Caller)
    (moves : List (Move (Choice ν))) :
    (∀ request context : Dict ν,
      let o := (modelExecution clock config who request context).run stopped moves s []
      ∀ before payload after, o.loc = before ++ .called payload :: after →
        (∀ p, .called p ∉ before) ∧
        ModelAdmitted clock s config who request context before payload) ∧
    (∀ (name : String) (args : Dict ν),
      let o := (toolExecution clock config who name args).run stopped moves s []
      (∀ before payload after, o.loc = before ++ .called payload :: after →
        (∀ p, .called p ∉ before) ∧
        ToolAdmitted clock s config who name args before payload ∧
        (fileTool name ≠ none → ∃ (root path : ResolvedPath) (effective : Dict ν) (action : ActionRequest)
            (answer : AuthorizationResult),
          .resolved (config.dataDir.join (.parse "documents")) root ∈ before ∧
          .asked action answer ∈ before ∧ action.target = path.text ∧
          StrictlyInside path root ∧
          payload = .mapping true effective ∧ effective.get "path" = .str path.text)) ∧
      (∀ result, o.result = some (.ok result) → Validated o.loc result)) := by
  constructor
  · intro request context o before payload after ho
    exact (run_boundary (wp_modelExecution clock) moves).1 before _ after ho payload rfl
  · intro name args o
    have hwp : wp (boundary T (ToolAdmitted clock s config who name args))
        (toolExecution clock config who name args) (Returns fun v _ t => Validated t v) s [] :=
      wp_toolExecution clock
    obtain ⟨hlaw, hret⟩ := run_boundary hwp moves
    refine ⟨?_, hret⟩
    intro before payload after ho
    obtain ⟨hfirst, hadmitted⟩ := hlaw before _ after ho payload rfl
    refine ⟨hfirst, hadmitted, ?_⟩
    intro hfile
    obtain ⟨identity, action, _, hmapped, ⟨earlier, answer, hb, _⟩, hpayload⟩ := hadmitted.authorised
    obtain ⟨root, path, hroot, hin, htarget, hget⟩ := hmapped.path hfile args
    exact ⟨root, path, _, action, answer, hroot, by rw [hb]; simp, htarget, hin, hpayload, hget⟩

end

end ProjectMaya.Plugin
