import ProjectMaya.Plugin
import ProjectMaya.Logic.Wp
import ProjectMaya.Logic.History

/-! # Asking the gateway before an operation

The runtime, the memory facade and the document operations ask the gateway in the same way
(`authorize`): they write the answer down where it asks for that, and go on when it is an
allow.  What they do has one shape (`guardedBy`): some checks, the questions, some more
checks, the operation.

Such a code goes on after an answer exactly when the answer is an allow and the checks let
the operation through (`guardedBy_honours`). -/

namespace ProjectMaya.Enforcement

open Logic

/-- The exceptions of the guarded calls. -/
inductive Refusal where
  /-- `ActionDeniedError(reason_code)` -/
  | actionDenied (reason : String)
  /-- `DocumentCapabilityError(message)` -/
  | documentCapability (message : String)
  | valueError (message : String)
  | runtimeError (message : String)
  /-- what a collaborator or the host's identity binding raises -/
  | raised (e : Raised)
  deriving DecidableEq, Repr

/-- What is guarded. -/
inductive Operation where
  | run | upsert | get | search | searchHybrid | readSource | replaceEmbeddings
  | inspect | extractText | createPdf | convert
  deriving DecidableEq, Repr

/-- How the collaborators answer at one action. -/
structure Choice where
  gateway : Except Raised AuthorizationResult := .error .failure
  audit : Except Raised Unit := .ok ()
  operation : Except Raised Unit := .ok ()

instance : Inhabited Choice := ⟨{}⟩

/-- What has happened in a call, oldest first. -/
inductive Event where
  /-- `gateway.authorize` returned. -/
  | asked (action : ActionRequest) (result : AuthorizationResult)
  /-- `audit_sink.write` returned. -/
  | wrote (record : AuditRecord)
  /-- The operation was entered. -/
  | operated (operation : Operation)
  deriving DecidableEq, Repr

abbrev Act (β : Type) := Action Choice Unit (List Event) Refusal β

abbrev Code (α : Type) := Prog Choice Unit (List Event) Refusal α

namespace Act

/-- `gateway.authorize(action)` -/
def ask (action : ActionRequest) : Act AuthorizationResult where
  next c s t :=
    match c.gateway with
    | .ok result => (.ok result, s, t ++ [.asked action result])
    | .error e => (.error (.raised e), s, t)

/-- `audit_sink.write(record)` -/
def write (record : AuditRecord) : Act Unit where
  next c s t :=
    match c.audit with
    | .ok () => (.ok (), s, t ++ [.wrote record])
    | .error e => (.error (.raised e), s, t)

/-- The operation, of which only its entry and its end are modelled. -/
def operate (operation : Operation) : Act Unit where
  next c s t :=
    match c.operation with
    | .ok () => (.ok (), s, t ++ [.operated operation])
    | .error e => (.error (.raised e), s, t ++ [.operated operation])

end Act

/-- The record of an answer. -/
def record (eventType : String) (action : ActionRequest) (result : AuthorizationResult) :
    AuditRecord where
  eventType
  decision := result.decision.value
  reasonCode := result.reasonCode
  actorId := action.actorId
  capability := action.capability
  target := action.target
  operation := action.operation
  dataClassification := action.dataClassification
  idempotencyKey := action.idempotencyKey
  metadata := action.metadata

/-- `if result.audit_required: audit_sink.write(…)` -/
def audit (eventType : String) (action : ActionRequest) (result : AuthorizationResult) : Code Unit :=
  if result.auditRequired then .perform (Act.write (record eventType action result)) else pure ()

/-- The `_authorize` of the runtime and of the memory facade, and the second half of
`_authorize_document_action`. -/
def authorize (eventType : String) (action : ActionRequest) : Code Unit := do
  let result ← .perform (Act.ask action)
  audit eventType action result
  Prog.raiseIf (!result.allowed) (.actionDenied result.reasonCode)

/-- A question: the event type of its record, and the action. -/
abbrev Question := String × ActionRequest

def askAll (questions : List Question) : Code Unit :=
  questions.forM fun q => authorize q.1 q.2

@[simp] theorem askAll_nil : askAll [] = pure () := rfl

@[simp] theorem askAll_cons (q : Question) (questions : List Question) :
    askAll (q :: questions) = (do authorize q.1 q.2; askAll questions) := rfl

/-- What a guarded call does: its checks, its questions, more checks, the operation. -/
def guardedBy (prepare : Except Refusal (List Question)) (admission : Except Refusal Unit)
    (operation : Operation) : Code Unit := do
  let questions ← .done prepare
  askAll questions
  .done admission
  .perform (Act.operate operation)

/-- A run that the environment stops keeps what has happened. -/
def stopped (s : Unit) (t : List Event) : Unit × List Event := (s, t)

/-- The operation was entered after the gateway had answered `result`. -/
def EnteredAfter (result : AuthorizationResult) (t : List Event) : Prop :=
  ∃ action operation before after, t = before ++ .operated operation :: after ∧
    .asked action result ∈ before

/-- No run enters the operation after the answer `result`. -/
def Honours (p : Code Unit) (result : AuthorizationResult) : Prop :=
  ∀ moves, ¬ EnteredAfter result (p.run stopped moves () []).loc

/-! ## Only an allow goes on -/

/-- Every answer so far was an allow. -/
def Cleared (t : List Event) : Prop :=
  ∀ action result, .asked action result ∈ t → result.allowed = true

section

variable {prepare : Except Refusal (List Question)} {admission : Except Refusal Unit}

/-- An operation is entered with the checks passed, under nothing but allows. -/
def Lawful (prepare : Except Refusal (List Question)) (admission : Except Refusal Unit)
    (before : List Event) (e : Event) : Prop :=
  ∀ operation, e = .operated operation →
    Cleared before ∧ admission = .ok () ∧ ∃ questions, prepare = .ok questions ∧
      (questions = [] → before = [])

/-- Each action adds at most one event, within the law. -/
def contract (prepare : Except Refusal (List Question)) (admission : Except Refusal Unit) :
    Contract Unit (List Event) where
  rely _ _ _ := True
  guar _ t _ t' := t' = t ∨ ∃ e, t' = t ++ [e] ∧ Lawful prepare admission t e

theorem wp_authorize {eventType : String} {action : ActionRequest} {t : List Event} {s : Unit}
    (ht : Cleared t) :
    wp (contract prepare admission) (authorize eventType action)
      (Returns fun _ _ t' => Cleared t') s t := by
  have hask : ∀ r, r.allowed = true → Cleared (t ++ [.asked action r]) := by
    intro r hr a r' h
    rcases List.mem_append.mp h with h | h
    · exact ht a r' h
    · cases List.mem_singleton.mp h
      exact hr
  have hwrote : ∀ {t : List Event} (rec : AuditRecord), Cleared t → Cleared (t ++ [.wrote rec]) := by
    intro t rec h a r hmem
    rcases List.mem_append.mp hmem with hmem | hmem
    · exact h a r hmem
    · cases List.mem_singleton.mp hmem
  refine returns_bind (P := fun r _ t' => t' = t ++ [.asked action r]) (wp_perform ?_) ?_
  · intro s' _ c
    cases hc : c.gateway with
    | ok r =>
      simp only [Act.ask, hc]
      exact ⟨.inr ⟨_, rfl, by intro _ h; cases h⟩, .ok rfl⟩
    | error e =>
      simp only [Act.ask, hc]
      exact ⟨.inl rfl, .error⟩
  rintro r s' _ rfl
  refine returns_bind (P := fun _ _ t' => r.allowed = true → Cleared t') ?_ ?_
  · unfold audit
    split
    · refine wp_perform ?_
      intro s'' _ c
      cases hc : c.audit with
      | ok _ =>
        simp only [Act.write, hc]
        exact ⟨.inr ⟨_, rfl, by intro _ h; cases h⟩, .ok fun hr => hwrote _ (hask r hr)⟩
      | error e =>
        simp only [Act.write, hc]
        exact ⟨.inl rfl, .error⟩
    · exact .ok (hask r)
  · intro _ s'' t' h
    refine returns_raiseIf ?_
    intro hr
    exact h (by simpa using hr)

theorem wp_askAll {questions : List Question} {t : List Event} {s : Unit} (ht : Cleared t) :
    wp (contract prepare admission) (askAll questions)
      (Returns fun _ _ t' => Cleared t' ∧ (questions = [] → t' = t)) s t := by
  unfold askAll
  induction questions generalizing s t with
  | nil => exact .ok ⟨ht, fun _ => rfl⟩
  | cons q questions ih =>
    refine returns_bind (wp_authorize ht) ?_
    intro _ s' t' ht'
    refine wp_mono (ih ht') ?_
    intro r s'' t'' h _ hr
    exact ⟨(h () hr).1, by simp⟩

theorem wp_guardedBy {operation : Operation} {s : Unit} :
    wp (contract prepare admission) (guardedBy prepare admission operation) (fun _ _ _ => True) s [] := by
  refine wp_mono (Q := Returns fun _ _ _ => True) ?_ fun _ _ _ _ => trivial
  unfold guardedBy
  cases hp : prepare with
  | error e => exact .error
  | ok questions =>
    refine returns_bind (P := fun q _ t => q = questions ∧ t = []) (.ok ⟨rfl, rfl⟩) ?_
    rintro _ s' _ ⟨rfl, rfl⟩
    refine returns_bind (wp_askAll (by simp [Cleared])) ?_
    rintro _ s'' t ⟨ht, hnil⟩
    cases ha : admission with
    | error e => exact .error
    | ok u =>
      refine returns_bind (P := fun _ _ t' => t' = t) (.ok rfl) ?_
      rintro _ s₃ _ rfl
      refine wp_perform ?_
      intro s₄ _ c
      refine ⟨.inr ⟨.operated operation, ?_, ?_⟩, ?_⟩
      · cases hc : c.operation <;> simp [Act.operate, hc]
      · exact fun _ _ => ⟨ht, rfl, _, rfl, hnil⟩
      · cases hc : c.operation <;> simp [Act.operate, hc, Returns]

theorem lawful_run {operation : Operation} (moves : List (Move Choice)) :
    Justified (Lawful prepare admission)
      ((guardedBy prepare admission operation).run stopped moves () []).loc := by
  have hkeep : ∀ (s : Unit) t (s' : Unit) t', (contract prepare admission).guar s t s' t' →
      Justified (Lawful prepare admission) t → Justified (Lawful prepare admission) t' := by
    rintro _ t _ _ (rfl | ⟨e, rfl, he⟩) ht
    · exact ht
    · exact ht.snoc he
  exact (wp_run stopped (I := fun _ t => Justified (Lawful prepare admission) t)
    (fun _ _ => trivial) hkeep (fun _ _ h => h) wp_guardedBy Justified.nil moves).1

/-! ## An allow does go on -/

/-- A gateway that always gives this answer, with collaborators that do not fail. -/
def answering (result : AuthorizationResult) : Choice where
  gateway := .ok result

theorem under_authorize {result : AuthorizationResult} (h : result.allowed = true)
    (eventType : String) (action : ActionRequest) (t : List Event) :
    ∃ new, .asked action result ∈ new ∧
      (authorize eventType action).under (answering result) () t = (.ok (), (), t ++ new) := by
  have haudit : ∀ t, ∃ new, (audit eventType action result).under (answering result) () t =
      (.ok (), (), t ++ new) := by
    intro t
    unfold audit
    split
    · exact ⟨[.wrote (record eventType action result)], rfl⟩
    · exact ⟨[], by rw [List.append_nil]; rfl⟩
  obtain ⟨new, hnew⟩ := haudit (t ++ [.asked action result])
  refine ⟨.asked action result :: new, List.mem_cons_self, ?_⟩
  unfold authorize
  rw [Prog.under_bind_ok (a := result) (t := ()) (m := t ++ [.asked action result]) rfl,
    Prog.under_bind_ok hnew, h]
  simp [Prog.raiseIf, Prog.under]

theorem under_askAll {result : AuthorizationResult} (h : result.allowed = true)
    (questions : List Question) (t : List Event) :
    ∃ new, (∀ q ∈ questions, .asked q.2 result ∈ new) ∧
      (askAll questions).under (answering result) () t = (.ok (), (), t ++ new) := by
  unfold askAll
  induction questions generalizing t with
  | nil => exact ⟨[], by simp, by rw [List.append_nil]; rfl⟩
  | cons q questions ih =>
    obtain ⟨new, hnew, hq⟩ := under_authorize h q.1 q.2 t
    obtain ⟨rest, hrest, hall⟩ := ih (t ++ new)
    refine ⟨new ++ rest, ?_, ?_⟩
    · intro q' hq'
      rcases List.mem_cons.mp hq' with rfl | hq'
      · exact List.mem_append_left rest hnew
      · exact List.mem_append_right new (hrest q' hq')
    · show (authorize q.1 q.2 >>= fun _ => _).under _ _ _ = _
      rw [Prog.under_bind_ok hq, ← List.append_assoc]
      exact hall

theorem entered_of_allowed {result : AuthorizationResult} (h : result.allowed = true)
    {questions : List Question} (hne : questions ≠ []) (operation : Operation) :
    ¬ Honours (guardedBy (.ok questions) (.ok ()) operation) result := by
  intro hh
  obtain ⟨q, rest, rfl⟩ := List.exists_cons_of_ne_nil hne
  obtain ⟨new, hnew, hall⟩ := under_askAll h (q :: rest) []
  obtain ⟨moves, hmoves⟩ := Prog.exists_run_eq_under stopped (answering result)
    (guardedBy (.ok (q :: rest)) (.ok ()) operation) () []
  refine hh moves ⟨q.2, operation, new, [], ?_, hnew q List.mem_cons_self⟩
  have hrun : (guardedBy (.ok (q :: rest)) (.ok ()) operation).under (answering result) () [] =
      (.ok (), (), new ++ [.operated operation]) := by
    show (askAll (q :: rest) >>= fun _ => _).under _ _ _ = _
    rw [Prog.under_bind_ok hall]
    rfl
  rw [hmoves, hrun]

/-- A guarded operation is never entered after an answer exactly when the answer is no allow, or
the checks refuse the call, or it asks nothing. -/
theorem guardedBy_honours {operation : Operation} {result : AuthorizationResult} :
    Honours (guardedBy prepare admission operation) result ↔
      result.allowed = false ∨
        ∀ questions, prepare = .ok questions → admission = .ok () → questions = [] := by
  constructor
  · intro hh
    cases hr : result.allowed with
    | false => exact .inl rfl
    | true =>
      refine .inr ?_
      rintro questions rfl rfl
      by_contra hne
      exact entered_of_allowed hr hne operation hh
  · rintro h moves ⟨action, op, before, after, ht, hmem⟩
    obtain ⟨hcleared, hadmit, questions, hprepare, hnil⟩ := lawful_run moves before _ after ht op rfl
    rcases h with h | h
    · rw [hcleared action result hmem] at h
      cases h
    · rw [hnil (h questions hprepare hadmit)] at hmem
      cases hmem

end

end ProjectMaya.Enforcement
