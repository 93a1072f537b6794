import ProjectMaya.CallbackChecks

/-! # What the callbacks disclose

What a callback raises is a function of the check that failed and of what is shown of the
exception raised there (`Kind.disclosed`): of the text of a boundary error only which public
reason it is, and in `session_write` and for the record of a denial nothing.  What it writes
is one of finitely many records, but for the target, which is withheld or a digest. -/

namespace ProjectMaya.Plugin

open Logic

/-- The five callbacks. -/
inductive Kind where
  | modelExecution | modelOutput | toolExecution | toolResult | sessionWrite
  deriving DecidableEq, Repr

/-! ## What is raised -/

/-- What the check's surroundings make of the exception, before the callback's handlers. -/
def Fault.raised (fault : Fault) : Raised :=
  match fault.check with
  | .gateway | .decisionRecord => boundaryOr "governance.authorization_unavailable" fault.cause
  | _ => fault.cause

/-- The fault of a check of the callback's own was raised by that check. -/
def Fault.Genuine (fault : Fault) : Prop := ∀ reason, fault.check = .own reason → fault.cause = reason

namespace Kind

/-- The message for exceptions that are no boundary errors. -/
def failed : Kind → String
  | .modelExecution => "governance.model_execution_failed"
  | .modelOutput => "governance.model_output_failed"
  | .toolExecution | .toolResult => "governance.tool_execution_failed"
  | .sessionWrite => "governance.authorization_unavailable"

/-- What the handlers of the callback make of an exception. -/
def translate (kind : Kind) : Raised → Raised
  | .boundary message =>
    if kind = .sessionWrite then .boundary "governance.action_denied" else publicError message
  | .interrupt => .interrupt
  | _ => .boundary kind.failed

/-- What the handler around `next_call` makes of an exception of the transport. -/
def transported : Raised → Raised
  | .boundary message => publicError message
  | e => e

/-- What a callback raises because of a fault. -/
def disclosed (kind : Kind) (fault : Fault) : Raised :=
  match fault.check with
  | .denial => Sited.unaudited fault.cause
  | .nextCall => if kind = .modelExecution then transported fault.cause else kind.translate fault.cause
  | _ => kind.translate fault.raised

end Kind

/-- The labels of a part of a callback, before its handlers. -/
structure Bare (calls : Bool) (x : Fault × Raised) : Prop where
  check : x.1.check ≠ .denial
  called : x.1.check = .nextCall → calls = true
  genuine : x.1.Genuine
  raised : x.2 = x.1.raised

/-- The labels of a callback. -/
structure Settled (kind : Kind) (x : Fault × Raised) : Prop where
  genuine : x.1.Genuine
  raised : x.2 = kind.disclosed x.1

namespace Sited

section

variable {T ν : Type} [LinearOrder T] {clock : Clock T} {calls : Bool} {config : Config}
  {who : Caller} {s : Leases T} {t : Trace ν}

theorem bare_own (e : Raised) : Bare calls (.own e, e) where
  check := by simp [Fault.own]
  called := by simp [Fault.own]
  genuine := by
    intro reason h
    simpa [Fault.own] using h
  raised := rfl

theorem raises_ofExcept {α : Type} (x : Except Raised α) :
    wp anything (ofExcept x : Sited T ν α) (Raises (Bare calls)) s t := by
  cases x with
  | ok a => exact Raises.ok
  | error e => exact Raises.error (bare_own e)

theorem raises_refuse {α : Type} (code : String) :
    wp anything (refuse code : Sited T ν α) (Raises (Bare calls)) s t :=
  Raises.error (bare_own _)

theorem raises_refuseIf {c : Prop} [Decidable c] (code : String) :
    wp anything (refuseIf c code : Sited T ν Unit) (Raises (Bare calls)) s t :=
  raises_raiseIf (bare_own _)

/-- A collaborator whose exceptions nobody handles before the callback does. -/
theorem raises_act {β : Type} {check : Check} (a : Act T ν β)
    (h : ∀ e, Fault.raised ⟨check, e⟩ = e) (hown : ∀ reason, check ≠ .own reason)
    (hdenial : check ≠ .denial) (hcall : check = .nextCall → calls = true) :
    wp anything (act check a) (Raises (Bare calls)) s t := by
  refine raises_perform ?_
  intro e
  exact ⟨hdenial, hcall, fun reason hr => absurd hr (hown reason), (h e).symm⟩

theorem raises_actor : wp anything (actor clock who : Sited T ν RequestIdentity)
    (Raises (Bare calls)) s t := by
  unfold actor
  cases who.identity with
  | none => exact raises_refuse _
  | some identity =>
    cases who.session with
    | none => exact Raises.ok
    | some bound =>
      refine raises_bind (raises_act _ (fun _ => rfl) (by simp) (by simp) (by simp)) ?_
      intro active s t
      exact raises_bind (raises_refuseIf _) fun _ _ _ => Raises.ok

theorem raises_authorize (action : ActionRequest) :
    wp anything (authorize action : Sited T ν Unit) (Raises (Bare calls)) s t := by
  -- Inside, the exception is still the one that the collaborator raised.
  let Inner (x : Fault × Raised) : Prop := x.1.Genuine ∧ x.2 = x.1.cause ∧
    (x.1.check = .gateway ∨ x.1.check = .decisionRecord ∨
      x.1 = .own (.boundary "governance.action_denied"))
  refine raises_mapError (K := Inner) ?_ ?_
  · refine raises_bind (raises_perform fun e => ⟨by simp [Fault.Genuine], rfl, .inl rfl⟩) ?_
    intro result s t
    refine raises_bind (raises_perform fun e => ⟨by simp [Fault.Genuine], rfl, .inr (.inl rfl)⟩) ?_
    intro _ s t
    refine raises_raiseIf ⟨?_, rfl, .inr (.inr rfl)⟩
    intro reason h
    simpa [Fault.own] using h
  · rintro ⟨fault, e⟩ ⟨hgenuine, he, h⟩ s t
    show Bare calls (fault, boundaryOr _ e)
    have he : e = fault.cause := he
    have h : fault.check = .gateway ∨ fault.check = .decisionRecord ∨
      fault = .own (.boundary "governance.action_denied") := h
    rcases h with h | h | rfl
    · exact ⟨by simp [h], by simp [h], hgenuine, by simp [Fault.raised, h, he]⟩
    · exact ⟨by simp [h], by simp [h], hgenuine, by simp [Fault.raised, h, he]⟩
    · rw [he]
      exact bare_own _

/-- What the record of the denial can raise. -/
theorem raises_auditBlock {kind : Kind} (capability : String) :
    wp anything (auditBlock who capability : Sited T ν Unit) (Raises (Settled kind)) s t := by
  refine raises_mapError (K := fun x => x.1 = ⟨.denial, x.2⟩) (raises_perform fun e => rfl) ?_
  rintro ⟨fault, e⟩ h s t
  obtain rfl : fault = ⟨.denial, e⟩ := h
  exact ⟨by simp [Fault.Genuine], rfl⟩

/-- A handler that audits the denial, and raises what it should. -/
theorem wp_denied {kind : Kind} (who : Caller) (capability : String) {fault : Fault} {e : Raised}
    (h : Settled kind (fault, e)) :
    wp anything (do auditBlock who capability; return (fault, e) : Sited T ν (Fault × Raised))
      (Handles (Settled kind)) s t :=
  wp_bind (raises_auditBlock capability) (fun _ _ _ _ => h) fun x _ _ hx => hx x rfl

/-- A bare exception, after the handlers of its callback. -/
theorem settled_of_bare {kind : Kind} {fault : Fault} {e : Raised} (h : Bare calls (fault, e))
    (hkind : kind = .modelExecution → calls = false) : Settled kind (fault, kind.translate e) := by
  obtain ⟨hdenial, hcalled, hgenuine, hraised⟩ := h
  obtain rfl : e = fault.raised := hraised
  refine ⟨hgenuine, ?_⟩
  show kind.translate fault.raised = kind.disclosed fault
  unfold Kind.disclosed
  split
  · rename_i hc
    exact absurd hc hdenial
  · rename_i hc
    have hmodel : kind ≠ .modelExecution := by
      intro hk
      simp [hkind hk] at hcalled
      exact hcalled hc
    rw [if_neg hmodel]
    simp only [Fault.raised, hc]
  · rfl

theorem raises_guarded {α : Type} (kind : Kind) (calls : Bool) {capability : String}
    {body : Sited T ν α} (hkind : kind = .modelExecution → calls = false) (hwrite : kind ≠ .sessionWrite)
    (h : wp anything body (Raises (Bare calls)) s t) :
    wp anything (guarded who capability kind.failed body) (Raises (Settled kind)) s t := by
  refine raises_mapError h ?_
  rintro ⟨fault, e⟩ hbare s t
  have hs := settled_of_bare hbare hkind
  cases e with
  | boundary message =>
    rw [Kind.translate, if_neg hwrite] at hs
    exact wp_denied who capability hs
  | interrupt => exact hs
  | mandatory _ | lockException | importError | failure => exact wp_denied who capability hs

theorem raises_nextCall (payload : Payload ν) :
    wp anything (nextCall payload : Sited T ν (Payload ν)) (Raises (Bare true)) s t :=
  raises_bind (raises_act _ (fun _ => rfl) (by simp) (by simp) (by simp)) fun _ _ _ =>
    raises_act _ (fun _ => rfl) (by simp) (by simp) (by simp)

theorem raises_transport (payload : Payload ν) :
    wp anything (transport who payload : Sited T ν (Payload ν))
      (Raises (Settled .modelExecution)) s t := by
  refine raises_mapError (K := fun x => x.1 = ⟨.nextCall, x.2⟩) ?_ ?_
  · exact raises_bind (raises_perform fun e => rfl) fun _ _ _ => raises_perform fun e => rfl
  · rintro ⟨fault, e⟩ h s t
    obtain rfl : fault = ⟨.nextCall, e⟩ := h
    have hs : Settled .modelExecution (⟨.nextCall, e⟩, Kind.transported e) :=
      ⟨by simp [Fault.Genuine], rfl⟩
    cases e with
    | boundary _ => exact wp_denied who "model.egress" hs
    | interrupt | mandatory _ | lockException | importError | failure => exact hs

theorem raises_validResult [Python ν] (action : ActionRequest) (result : Payload ν) :
    wp anything (validResult action result : Sited T ν (Payload ν)) (Raises (Bare calls)) s t := by
  refine raises_bind (raises_ofExcept _) fun _ _ _ => ?_
  exact raises_bind (raises_act _ (fun _ => rfl) (by simp) (by simp) (by simp)) fun _ _ _ => Raises.ok

theorem raises_documentPath (value : Payload ν) :
    wp anything (documentPath config value : Sited T ν ResolvedPath) (Raises (Bare calls)) s t := by
  cases value with
  | str text =>
    refine raises_bind (raises_refuseIf _) fun _ _ _ => ?_
    refine raises_bind (raises_act _ (fun _ => rfl) (by simp) (by simp) (by simp)) fun root _ _ => ?_
    refine raises_bind (raises_act _ (fun _ => rfl) (by simp) (by simp) (by simp)) fun path _ _ => ?_
    exact raises_bind (raises_refuseIf _) fun _ _ _ => Raises.ok
  | none | bool _ | int _ | float _ | list _ _ | mapping _ _ | path _ | object =>
    exact raises_refuse _

theorem raises_toolAction (name : String) (args : Dict ν) (identity : RequestIdentity) :
    wp anything (toolAction config name args identity : Sited T ν ActionRequest)
      (Raises (Bare calls)) s t := by
  unfold toolAction
  cases fileTool name with
  | some tool => exact raises_bind (raises_documentPath _) fun _ _ _ => Raises.ok
  | none =>
    cases memoryTool name with
    | some tool => exact Raises.ok
    | none => exact raises_refuse _

theorem raises_boundSession :
    wp anything (boundSession clock who : Sited T ν SessionWriteContext) (Raises (Bare calls)) s t := by
  unfold boundSession
  cases who.session with
  | none => exact raises_refuse _
  | some bound =>
    refine raises_bind (raises_act _ (fun _ => rfl) (by simp) (by simp) (by simp)) fun _ _ _ => ?_
    exact raises_bind (raises_refuseIf _) fun _ _ _ => Raises.ok

theorem raises_writeOperation (bound : SessionWriteContext) (context : Dict ν) :
    wp anything (writeOperation bound context : Sited T ν String) (Raises (Bare calls)) s t := by
  refine raises_bind (raises_refuseIf _) fun _ _ _ => ?_
  refine raises_bind (raises_ofExcept _) fun _ _ _ => ?_
  refine raises_bind (raises_act _ (fun _ => rfl) (by simp) (by simp) (by simp)) fun _ _ _ => ?_
  refine raises_bind (raises_refuseIf _) fun _ _ _ => ?_
  refine raises_bind (raises_ofExcept _) fun operation _ _ => ?_
  cases operation with
  | none => exact raises_refuse _
  | some operation => exact raises_bind (raises_refuseIf _) fun _ _ _ => Raises.ok

variable [Python ν]

theorem raises_modelExecution (request context : Dict ν) :
    wp anything (modelExecution clock config who request context)
      (Raises (Settled .modelExecution)) s t := by
  refine raises_bind (raises_guarded .modelExecution false (fun _ => rfl)
    (by simp) ?_) fun _ _ _ => raises_transport _
  refine raises_bind raises_actor fun identity _ _ => ?_
  refine raises_bind (raises_ofExcept _) fun _ _ _ => ?_
  exact raises_bind (raises_ofExcept _) fun _ _ _ => raises_authorize _

theorem raises_modelOutput (result : Payload ν) (context : Dict ν) :
    wp anything (modelOutput clock config who result context) (Raises (Settled .modelOutput)) s t := by
  refine raises_guarded .modelOutput false (by simp) (by simp) ?_
  refine raises_bind raises_actor fun identity _ _ => ?_
  refine raises_bind (raises_ofExcept _) fun _ _ _ => ?_
  refine raises_bind (raises_ofExcept _) fun _ _ _ => ?_
  refine raises_bind (raises_authorize _) fun _ _ _ => ?_
  exact raises_bind (raises_act _ (fun _ => rfl) (by simp) (by simp) (by simp)) fun _ _ _ => Raises.ok

theorem raises_toolExecution (name : String) (args : Dict ν) :
    wp anything (toolExecution clock config who name args) (Raises (Settled .toolExecution)) s t := by
  refine raises_guarded .toolExecution true (by simp) (by simp) ?_
  refine raises_bind raises_actor fun identity _ _ => ?_
  refine raises_bind (raises_ofExcept _) fun _ _ _ => ?_
  refine raises_bind (raises_toolAction _ _ _) fun action _ _ => ?_
  refine raises_bind (raises_authorize _) fun _ _ _ => ?_
  exact raises_bind (raises_nextCall _) fun _ _ _ => raises_validResult _ _

theorem raises_toolResult (name : String) (args : Dict ν) (result : Payload ν) :
    wp anything (toolResult clock config who name args result) (Raises (Settled .toolResult)) s t := by
  refine raises_guarded .toolResult false (by simp) (by simp) ?_
  refine raises_bind raises_actor fun identity _ _ => ?_
  refine raises_bind (raises_ofExcept _) fun _ _ _ => ?_
  exact raises_bind (raises_toolAction _ _ _) fun action _ _ => raises_validResult _ _

theorem raises_sessionWrite (call : WriteCall ν) :
    wp anything (sessionWrite clock call) (Raises (Settled .sessionWrite)) s t := by
  refine raises_mapError (K := Bare false) ?_ ?_
  · refine raises_bind raises_actor fun identity _ _ => ?_
    refine raises_bind raises_boundSession fun bound _ _ => ?_
    refine raises_bind (raises_writeOperation _ _) fun operation _ _ => ?_
    refine raises_bind (raises_ofExcept _) fun _ _ _ => ?_
    refine raises_bind (raises_authorize _) fun _ _ _ => ?_
    exact raises_bind (raises_act _ (fun _ => rfl) (by simp) (by simp) (by simp)) fun _ _ _ => Raises.ok
  · rintro ⟨fault, e⟩ hbare s t
    have hs : Settled .sessionWrite (fault, Kind.sessionWrite.translate e) :=
      settled_of_bare hbare (by simp)
    cases e with
    | interrupt => exact hs
    | boundary _ | mandatory _ | lockException | importError | failure =>
      exact wp_denied call.who "session.write" hs

end

end Sited

def Hook.kind {ν : Type} : Hook ν → Kind
  | .modelExecution .. => .modelExecution
  | .modelOutput .. => .modelOutput
  | .toolExecution .. => .toolExecution
  | .toolResult .. => .toolResult
  | .sessionWrite _ => .sessionWrite

section

variable {T ν : Type} [LinearOrder T] (clock : Clock T) [Python ν]

/-- What a callback raises is a function of its fault. -/
theorem Hook.settled (hook : Hook ν) {s : Leases T} {moves : List (Move (Choice ν))} {fault : Fault}
    {e : Raised} (h : hook.FailsAt clock s moves fault e) : Settled hook.kind (fault, e) := by
  have hwp : wp anything (hook.sited clock) (Raises (Settled hook.kind)) s [] := by
    cases hook with
    | modelExecution config who request context => exact Sited.raises_modelExecution _ _
    | modelOutput config who result context => exact Sited.raises_modelOutput _ _
    | toolExecution config who name args => exact Sited.raises_toolExecution _ _
    | toolResult config who name args result => exact Sited.raises_toolResult _ _ _
    | sessionWrite call => exact Sited.raises_sessionWrite _
  exact (wp_run stopped (I := fun _ _ => True) (fun _ _ => trivial) (fun _ _ _ _ _ h => h)
    (fun _ _ h => h) hwp trivial moves).2 _ h (fault, e) rfl

end

/-! ## What is shown of an exception -/

/-- The exception without its text. -/
def typed : Raised → Raised
  | .boundary _ => .boundary ""
  | .interrupt => .interrupt
  | _ => .failure

/-- The exception with its text only as far as it is a public reason. -/
def shown : Raised → Raised
  | .boundary message => publicError message
  | .interrupt => .interrupt
  | _ => .failure

/-- The faults of two calls differ at most in texts.  Of the text of a boundary error, which
public reason it is counts too, except in `session_write` and for the record of a denial; what
the transport raises in `model_execution` is the same. -/
def Fault.Alike (kind : Kind) (f g : Fault) : Prop :=
  f.check = g.check ∧
    match f.check with
    | .own _ => True
    | .denial => typed f.cause = typed g.cause
    | .nextCall =>
      if kind = .modelExecution then f.cause = g.cause else shown f.cause = shown g.cause
    | _ => if kind = .sessionWrite then typed f.cause = typed g.cause else shown f.cause = shown g.cause

/-- The messages of the boundary errors that a callback raises. -/
def messages : List String := publicReasons.map fun reason => "governance." ++ reason

theorem publicError_mem (message : String) : ∃ m ∈ messages, publicError message = .boundary m := by
  have hreason : ∀ reason : String, ∃ m ∈ messages,
      Raised.boundary (if publicReasons.contains reason then "governance." ++ reason
        else "governance.authorization_unavailable") = .boundary m := by
    intro reason
    split
    · rename_i h
      exact ⟨_, List.mem_map.mpr ⟨reason, List.contains_iff_mem.mp h, rfl⟩, rfl⟩
    · exact ⟨_, by decide, rfl⟩
  exact hreason _

/-- The handlers look at what is shown only. -/
theorem translate_eq (kind : Kind) (e : Raised) : kind.translate e =
    match shown e with
    | .boundary m => if kind = .sessionWrite then .boundary "governance.action_denied" else .boundary m
    | .interrupt => .interrupt
    | _ => .boundary kind.failed := by
  cases e with
  | boundary message =>
    obtain ⟨m, _, hm⟩ := publicError_mem message
    simp only [Kind.translate, shown, hm]
  | interrupt | mandatory _ | lockException | importError | failure => rfl

theorem translate_congr {kind : Kind} {e e' : Raised} (h : shown e = shown e') :
    kind.translate e = kind.translate e' := by
  rw [translate_eq, h, ← translate_eq]

theorem shown_boundaryOr_eq (code : String) (e : Raised) : shown (boundaryOr code e) =
    match shown e with
    | .boundary m => .boundary m
    | .interrupt => .interrupt
    | _ => publicError code := by
  cases e with
  | boundary message =>
    obtain ⟨m, _, hm⟩ := publicError_mem message
    simp only [boundaryOr, shown, hm]
  | interrupt | mandatory _ | lockException | importError | failure => rfl

theorem translate_of_typed {e e' : Raised} (h : typed e = typed e') :
    Kind.sessionWrite.translate e = Kind.sessionWrite.translate e' := by
  cases e <;> cases e' <;> simp_all [typed, Kind.translate]

theorem shown_boundaryOr {e e' : Raised} (h : shown e = shown e') (code : String) :
    shown (boundaryOr code e) = shown (boundaryOr code e') := by
  rw [shown_boundaryOr_eq, h, ← shown_boundaryOr_eq]

theorem typed_boundaryOr {e e' : Raised} (h : typed e = typed e') (code : String) :
    typed (boundaryOr code e) = typed (boundaryOr code e') := by
  cases e <;> cases e' <;> simp_all [typed, boundaryOr]

theorem unaudited_congr {e e' : Raised} (h : typed e = typed e') :
    Sited.unaudited e = Sited.unaudited e' := by
  cases e <;> cases e' <;> simp_all [typed, Sited.unaudited]

/-- A foreign check translates alike causes alike. -/
theorem translate_raised {kind : Kind} {f g : Fault} (hcheck : f.check = g.check)
    (h : if kind = .sessionWrite then typed f.cause = typed g.cause else shown f.cause = shown g.cause) :
    kind.translate f.raised = kind.translate g.raised := by
  unfold Fault.raised
  rw [← hcheck]
  split at h
  · rename_i hkind
    subst hkind
    split
    · exact translate_of_typed (typed_boundaryOr h _)
    · exact translate_of_typed (typed_boundaryOr h _)
    · exact translate_of_typed h
  · split
    · exact translate_congr (shown_boundaryOr h _)
    · exact translate_congr (shown_boundaryOr h _)
    · exact translate_congr h

theorem disclosed_congr {kind : Kind} {f g : Fault} (hf : f.Genuine) (hg : g.Genuine)
    (h : f.Alike kind g) : kind.disclosed f = kind.disclosed g := by
  obtain ⟨hcheck, h⟩ := h
  unfold Kind.disclosed
  rw [← hcheck]
  cases hc : f.check with
  | own reason =>
    have hcause : f.cause = g.cause := (hf reason hc).trans (hg reason (hcheck ▸ hc)).symm
    have hfg : f = g := by
      cases f
      cases g
      simp_all
    rw [hfg]
  | denial =>
    rw [hc] at h
    exact unaudited_congr h
  | nextCall =>
    rw [hc] at h
    by_cases hkind : kind = .modelExecution
    · simp only [hkind, if_true] at h ⊢
      rw [h]
    · simp only [hkind, if_false] at h ⊢
      exact translate_congr h
  | lease | files | gateway | decisionRecord | validationRecord =>
    rw [hc] at h
    exact translate_raised hcheck h

/-! ## The messages -/

theorem translate_cases (kind : Kind) (e : Raised) :
    (∃ m ∈ messages, kind.translate e = .boundary m) ∨ (e = .interrupt ∧ kind.translate e = .interrupt) := by
  cases e with
  | interrupt => exact .inr ⟨rfl, rfl⟩
  | boundary message =>
    left
    show ∃ m ∈ messages, (if kind = .sessionWrite then Raised.boundary "governance.action_denied"
      else publicError message) = .boundary m
    split
    · exact ⟨"governance.action_denied", by decide, rfl⟩
    · exact publicError_mem message
  | mandatory _ | lockException | importError | failure =>
    exact .inl ⟨kind.failed, by cases kind <;> decide, rfl⟩

theorem raised_eq_interrupt {fault : Fault} (h : fault.raised = .interrupt) :
    fault.cause = .interrupt := by
  unfold Fault.raised at h
  cases hc : fault.cause with
  | interrupt => rfl
  | boundary _ | mandatory _ | lockException | importError | failure =>
    rw [hc] at h
    split at h <;> cases h

/-- What a callback raises: a public message, an interrupt of a collaborator, or what the transport
raises in `model_execution`. -/
theorem disclosed_cases (kind : Kind) (fault : Fault) :
    (∃ m ∈ messages, kind.disclosed fault = .boundary m) ∨
    (fault.cause = .interrupt ∧ kind.disclosed fault = .interrupt) ∨
    (kind = .modelExecution ∧ fault.check = .nextCall ∧ kind.disclosed fault = fault.cause ∧
      ∀ m, fault.cause ≠ .boundary m) := by
  unfold Kind.disclosed
  split
  · cases hc : fault.cause with
    | interrupt => exact .inr (.inl ⟨rfl, rfl⟩)
    | boundary _ | mandatory _ | lockException | importError | failure =>
      exact .inl ⟨"governance.audit_unavailable", by decide, rfl⟩
  · rename_i hcheck
    split
    · rename_i hkind
      cases hc : fault.cause with
      | boundary message => exact .inl (publicError_mem message)
      | interrupt => exact .inr (.inl ⟨rfl, rfl⟩)
      | mandatory _ | lockException | importError | failure =>
        exact .inr (.inr ⟨hkind, hcheck, rfl, by simp⟩)
    · rcases translate_cases kind fault.cause with h | h
      · exact .inl h
      · exact .inr (.inl h)
  · rcases translate_cases kind fault.raised with h | ⟨h, h'⟩
    · exact .inl h
    · exact .inr (.inl ⟨raised_eq_interrupt h, h'⟩)

/-! ## The records -/

/-- What the records of a call may show: the callback, the identity that is bound, the name of the
tool, and the operations that are granted to the session. -/
structure Profile where
  kind : Kind
  identity : Option RequestIdentity
  tool : String
  operations : List String
  deriving DecidableEq, Repr

def Hook.profile {ν : Type} : Hook ν → Profile
  | .modelExecution _ who _ _ => ⟨.modelExecution, who.identity, "", []⟩
  | .modelOutput _ who _ _ => ⟨.modelOutput, who.identity, "", []⟩
  | .toolExecution _ who name _ => ⟨.toolExecution, who.identity, name, []⟩
  | .toolResult _ who name _ _ => ⟨.toolResult, who.identity, name, []⟩
  | .sessionWrite call => ⟨.sessionWrite, call.who.identity, "",
      (call.who.session.map SessionWriteContext.operations).getD []⟩

/-- The record without its target. -/
def blank (record : AuditRecord) : AuditRecord := { record with target := "" }

def decisions : List Decision :=
  [.allow, .deny, .redact, .constrain, .requestConfirmation, .requireApprover, .defer]

namespace Profile

def toolActions (name : String) : List (String × String) :=
  (fileTool name).toList ++ (memoryTool name).toList.map fun x => (x.1, x.2.2)

/-- The capabilities and operations that the callback asks for. -/
def actions (p : Profile) : List (String × String) :=
  match p.kind with
  | .modelExecution => [("model.egress", "infer")]
  | .modelOutput => [("model.output", "disclose")]
  | .toolExecution | .toolResult => toolActions p.tool
  | .sessionWrite => p.operations.map fun operation => ("session.write", operation)

/-- The capability under which denials are recorded. -/
def capability (p : Profile) : String :=
  match p.kind with
  | .modelExecution => "model.egress"
  | .modelOutput => "model.output"
  | .toolExecution => "tool.execute"
  | .toolResult => "tool.result"
  | .sessionWrite => "session.write"

/-- The record of a denial. -/
def denial (p : Profile) : AuditRecord where
  eventType := "denial.hermes_boundary"
  decision := "deny"
  reasonCode := "governance.boundary_blocked"
  actorId := (p.identity.map RequestIdentity.actorId).getD "unresolved"
  capability := p.capability
  target := ""
  operation := "execute"
  dataClassification := (p.identity.map RequestIdentity.dataClassification).getD "restricted"

/-- The event type and the reason of the record of a result, an output or a session write. -/
def validation (p : Profile) : String × String :=
  match p.kind with
  | .modelOutput => ("validation.hermes_model_output", "governance.result_validated")
  | .sessionWrite => ("validation.hermes_session_write", "governance.session_write_authorized")
  | _ => ("validation.hermes_tool_result", "governance.result_validated")

/-- A record about the capability and operation `what`. -/
def entry (identity : RequestIdentity) (what : String × String) (eventType decision reasonCode : String) :
    AuditRecord where
  eventType
  decision
  reasonCode
  actorId := identity.actorId
  capability := what.1
  target := ""
  operation := what.2
  dataClassification := identity.dataClassification

/-- The record of an answer. -/
def answer (identity : RequestIdentity) (what : String × String) (decision : Decision) : AuditRecord :=
  entry identity what "authorization.hermes_boundary" decision.value
    (if decision = .allow then "governance.allowed" else "governance.denied")

/-- The record of what was validated. -/
def validated (p : Profile) (identity : RequestIdentity) (what : String × String) : AuditRecord :=
  entry identity what p.validation.1 "allow" p.validation.2

/-- The records that a call may write, but for their targets. -/
def records (p : Profile) : List AuditRecord :=
  p.denial :: p.identity.toList.flatMap fun identity => p.actions.flatMap fun what =>
    p.validated identity what :: decisions.map (answer identity what)

/-- The record is one of them, and its target is withheld or a digest. -/
structure Admits (p : Profile) (record : AuditRecord) : Prop where
  listed : blank record ∈ p.records
  target : record.target = "withheld" ∨ ∃ text, record.target = hash text

variable {p : Profile} {identity : RequestIdentity} {action : ActionRequest}

/-- The action is one that the callback asks for. -/
structure Asks (p : Profile) (identity : RequestIdentity) (action : ActionRequest) : Prop where
  actor : action.actorId = identity.actorId
  what : (action.capability, action.operation) ∈ p.actions
  classification : action.dataClassification = identity.dataClassification

theorem mem_records {record : AuditRecord} (hid : p.identity = some identity)
    {what : String × String} (hw : what ∈ p.actions)
    (h : record ∈ p.validated identity what :: decisions.map (answer identity what)) :
    record ∈ p.records := by
  unfold records
  rw [hid]
  refine List.mem_cons_of_mem _ (List.mem_flatMap.mpr ⟨identity, by simp, ?_⟩)
  exact List.mem_flatMap.mpr ⟨what, hw, h⟩

theorem admits_authorization (hid : p.identity = some identity) (h : p.Asks identity action)
    (result : AuthorizationResult) : p.Admits (authorizationRecord action result) := by
  have hrecord : blank (authorizationRecord action result) =
      answer identity (action.capability, action.operation) result.decision := by
    simp only [blank, authorizationRecord, answer, entry, h.actor, h.classification,
      AuthorizationResult.allowed, decide_eq_true_eq]
  refine ⟨mem_records hid h.what (List.mem_cons_of_mem _ ?_), .inr ⟨_, rfl⟩⟩
  rw [hrecord]
  exact List.mem_map_of_mem (by cases result.decision <;> decide)

/-- What is repeated of an action in the record of what was validated. -/
def repeated (p : Profile) (action : ActionRequest) : AuditRecord where
  eventType := p.validation.1
  decision := "allow"
  reasonCode := p.validation.2
  actorId := action.actorId
  capability := action.capability
  target := ""
  operation := action.operation
  dataClassification := action.dataClassification

theorem admits_validation (hid : p.identity = some identity) (h : p.Asks identity action)
    {record : AuditRecord} (ht : ∃ text, record.target = hash text)
    (hr : blank record = p.repeated action) :
    p.Admits record := by
  have hrecord : blank record = p.validated identity (action.capability, action.operation) := by
    simp only [hr, repeated, validated, entry, h.actor, h.classification]
  refine ⟨mem_records hid h.what ?_, .inr ht⟩
  rw [hrecord]
  exact List.mem_cons_self

theorem admits_block {who : Caller} (hid : p.identity = who.identity) :
    p.Admits (blockRecord who p.capability) := by
  refine ⟨?_, .inl rfl⟩
  have hd : blank (blockRecord who p.capability) = p.denial := by
    simp only [blank, blockRecord, denial, hid]
  rw [hd]
  exact List.mem_cons_self

end Profile

section

variable {T ν : Type} [LinearOrder T] {clock : Clock T}

/-- Every record written is an admitted one. -/
def Discreet (p : Profile) (t : Trace ν) : Prop := ∀ record, .wrote record ∈ t → p.Admits record

/-- An action that writes admitted records only. -/
def Discreetly (p : Profile) {β : Type} (a : Act T ν β) : Prop :=
  ∀ c s t, ∃ new, (a.next c s t).2.2 = t ++ new ∧ Discreet p new

theorem Discreet.append {p : Profile} {t new : Trace ν} (h : Discreet p t) (hnew : Discreet p new) :
    Discreet p (t ++ new) := by
  intro record hr
  rcases List.mem_append.mp hr with hr | hr
  · exact h record hr
  · exact hnew record hr

variable {p : Profile}

theorem discreetly_isActive (lease : Nat) : Discreetly p (Act.isActive clock lease : Act T ν Bool) :=
  fun _ _ _ => ⟨_, rfl, by simp [Discreet]⟩

theorem discreetly_resolve (path : PurePath) :
    Discreetly p (Act.resolve path : Act T ν ResolvedPath) := by
  intro c s t
  cases hc : c.resolve with
  | ok result =>
    simp only [Act.resolve, hc]
    exact ⟨_, rfl, by simp [Discreet]⟩
  | error e =>
    simp only [Act.resolve, hc]
    exact ⟨[], by simp, by simp [Discreet]⟩

theorem discreetly_ask (action : ActionRequest) :
    Discreetly p (Act.authorize action : Act T ν AuthorizationResult) := by
  intro c s t
  cases hc : c.gateway with
  | ok result =>
    simp only [Act.authorize, hc]
    exact ⟨_, rfl, by simp [Discreet]⟩
  | error e =>
    simp only [Act.authorize, hc]
    exact ⟨[], by simp, by simp [Discreet]⟩

theorem discreetly_write {record : AuditRecord} (h : p.Admits record) :
    Discreetly p (Act.write record : Act T ν Unit) := by
  intro c s t
  cases hc : c.audit with
  | ok _ =>
    simp only [Act.write, hc]
    exact ⟨_, rfl, by simpa [Discreet] using h⟩
  | error e =>
    simp only [Act.write, hc]
    exact ⟨[], by simp, by simp [Discreet]⟩

theorem discreetly_call (payload : Payload ν) : Discreetly p (Act.call payload : Act T ν Unit) :=
  fun _ _ _ => ⟨_, rfl, by simp [Discreet]⟩

theorem discreetly_awaitResult : Discreetly p (Act.awaitResult : Act T ν (Payload ν)) := by
  intro c s t
  cases hc : c.nextCall with
  | ok result =>
    simp only [Act.awaitResult, hc]
    exact ⟨_, rfl, by simp [Discreet]⟩
  | error e =>
    simp only [Act.awaitResult, hc]
    exact ⟨[], by simp, by simp [Discreet]⟩

/-- What is asked of every action of a callback. -/
def discreet (T ν : Type) (p : Profile) : Contract (Leases T) (Trace ν) where
  rely _ _ _ := True
  guar _ t _ t' := Discreet p t → Discreet p t'

variable {s : Leases T} {t : Trace ν}

theorem wp_discreet {α : Type} {q : Code T ν α} (hq : q.Each (Discreetly p)) :
    wp (discreet T ν p) q (fun _ _ _ => True) s t := by
  refine wp_of_each (J := fun _ _ => True) (fun _ _ _ _ h => h) ?_ hq trivial
  intro β a ha c s t _
  obtain ⟨new, ht, hnew⟩ := ha c s t
  rw [ht]
  exact ⟨fun h => h.append hnew, trivial⟩

/-- A part that comes back with nothing but its value. -/
theorem knows_each {α : Type} {q : Code T ν α} (hq : q.Each (Discreetly p)) :
    wp (discreet T ν p) q (Returns fun _ _ _ => True) s t :=
  wp_mono (wp_discreet hq) fun _ _ _ _ _ _ => trivial

theorem knows_ofExcept {α : Type} {x : Except Raised α} :
    wp (discreet T ν p) (ofExcept x : Code T ν α) (Returns fun a _ _ => x = .ok a) s t := by
  cases x with
  | ok a => exact .ok rfl
  | error e => exact .error

theorem knows_actor {who : Caller} : wp (discreet T ν p) (actor clock who)
    (Returns fun identity _ _ => who.identity = some identity) s t := by
  unfold actor
  cases who.identity with
  | none => exact .error
  | some identity =>
    cases who.session with
    | none => exact .ok rfl
    | some bound =>
      refine returns_bind (knows_each (.perform (discreetly_isActive bound.lease))) ?_
      intro active s t _
      exact returns_bind (knows_each .raiseIf) fun _ _ _ _ => .ok rfl

theorem knows_toolAction {config : Config} {name : String} {args : Dict ν} {identity : RequestIdentity}
    (h : p.actions = Profile.toolActions name) :
    wp (discreet T ν p) (toolAction config name args identity)
      (Returns fun action _ _ => p.Asks identity action) s t := by
  unfold toolAction
  cases hf : fileTool name with
  | some tool =>
    refine returns_bind (knows_each (each_documentPath discreetly_resolve _)) ?_
    intro path s t _
    exact .ok ⟨rfl, by rw [h, Profile.toolActions, hf]; simp, rfl⟩
  | none =>
    cases hm : memoryTool name with
    | some tool =>
      exact .ok ⟨rfl, by rw [h, Profile.toolActions, hm]; simp, rfl⟩
    | none => exact .error

theorem knows_boundSession {who : Caller} : wp (discreet T ν p) (boundSession clock who)
    (Returns fun bound _ _ => who.session = some bound) s t := by
  unfold boundSession
  cases who.session with
  | none => exact .error
  | some bound =>
    refine returns_bind (knows_each (.perform (discreetly_isActive bound.lease))) ?_
    intro active s t _
    exact returns_bind (knows_each .raiseIf) fun _ _ _ _ => .ok rfl

theorem knows_writeOperation (bound : SessionWriteContext) (context : Dict ν) :
    wp (discreet T ν p) (writeOperation bound context)
      (Returns fun operation _ _ => operation ∈ bound.operations) s t := by
  refine returns_bind (knows_each .raiseIf) fun _ s t _ => ?_
  refine returns_bind knows_ofExcept fun path s t _ => ?_
  refine returns_bind (knows_each (.perform (discreetly_resolve path))) fun database s t _ => ?_
  refine returns_bind (knows_each .raiseIf) fun _ s t _ => ?_
  refine returns_bind knows_ofExcept fun operation s t _ => ?_
  cases operation with
  | none => exact .error
  | some operation =>
    refine returns_bind (returns_raiseIf (Q := fun _ _ _ => operation ∈ bound.operations)
      fun h => not_not.mp h) ?_
    intro _ s t h
    exact .ok h

theorem knows_authorize {identity : RequestIdentity} {action : ActionRequest}
    (hid : p.identity = some identity) (h : p.Asks identity action) :
    wp (discreet T ν p) (authorize action) (Returns fun _ _ _ => True) s t :=
  knows_each (each_authorize (discreetly_ask action) fun result =>
    discreetly_write (Profile.admits_authorization hid h result))

theorem discreet_denied {who : Caller} (hid : p.identity = who.identity) {e : Raised} :
    (do auditBlock who p.capability; return e : Code T ν Raised).Each (Discreetly p) :=
  each_denied (discreetly_write (Profile.admits_block hid))

theorem knows_guarded {α : Type} {who : Caller} {failed : String} {body : Code T ν α}
    (hid : p.identity = who.identity)
    (h : wp (discreet T ν p) body (Returns fun _ _ _ => True) s t) :
    wp (discreet T ν p) (guarded who p.capability failed body) (Returns fun _ _ _ => True) s t := by
  refine returns_mapError h ?_
  intro e s t
  cases e with
  | interrupt => exact trivial
  | boundary _ | mandatory _ | lockException | importError | failure =>
    exact wp_discreet (discreet_denied hid)

section

variable [Python ν] {config : Config} {who : Caller}

theorem knows_modelExecution (request context : Dict ν) :
    wp (discreet T ν (Hook.modelExecution config who request context).profile)
      (modelExecution clock config who request context) (Returns fun _ _ _ => True) s t := by
  refine returns_bind (P := fun _ _ _ => True) (knows_guarded rfl ?_) ?_
  · refine returns_bind knows_actor fun identity s t hid => ?_
    refine returns_bind knows_ofExcept fun _ s t _ => ?_
    refine returns_bind knows_ofExcept fun _ s t _ => ?_
    exact knows_authorize hid ⟨rfl, List.mem_singleton_self _, rfl⟩
  · intro _ s t _
    refine returns_mapError (knows_each (each_nextCall (discreetly_call _) discreetly_awaitResult)) ?_
    intro e s t
    cases e with
    | boundary _ =>
      exact wp_discreet (discreet_denied (p := (Hook.modelExecution config who request context).profile) rfl)
    | interrupt | mandatory _ | lockException | importError | failure => exact trivial

theorem knows_modelOutput (result : Payload ν) (context : Dict ν) :
    wp (discreet T ν (Hook.modelOutput config who result context).profile)
      (modelOutput clock config who result context) (Returns fun _ _ _ => True) s t := by
  refine knows_guarded rfl (returns_bind knows_actor fun identity s t hid => ?_)
  refine returns_bind knows_ofExcept fun _ s t _ => ?_
  refine returns_bind knows_ofExcept fun _ s t _ => ?_
  have hasks : (Hook.modelOutput config who result context).profile.Asks identity
      (outputAction config.llm identity) :=
    ⟨rfl, List.mem_singleton_self _, rfl⟩
  refine returns_bind (knows_authorize hid hasks) fun _ s t _ => ?_
  have hrecord : blank (outputRecord (outputAction config.llm identity)) =
      (Hook.modelOutput config who result context).profile.repeated (outputAction config.llm identity) := by
    simp only [blank, outputRecord, Profile.repeated, Profile.validation, Hook.profile]
  exact knows_each (.bind (.perform (discreetly_write
    (Profile.admits_validation hid hasks ⟨_, rfl⟩ hrecord))) fun _ => trivial)

theorem knows_toolExecution (name : String) (args : Dict ν) :
    wp (discreet T ν (Hook.toolExecution config who name args).profile)
      (toolExecution clock config who name args) (Returns fun _ _ _ => True) s t := by
  refine knows_guarded rfl (returns_bind knows_actor fun identity s t hid => ?_)
  refine returns_bind knows_ofExcept fun _ s t _ => ?_
  refine returns_bind (knows_toolAction rfl) fun action s t hasks => ?_
  refine returns_bind (knows_authorize hid hasks) fun _ s t _ => ?_
  refine returns_bind (knows_each (each_nextCall (discreetly_call _) discreetly_awaitResult)) ?_
  intro result s t _
  have hrecord : blank (resultRecord action) =
      (Hook.toolExecution config who name args).profile.repeated action := by
    simp only [blank, resultRecord, Profile.repeated, Profile.validation, Hook.profile]
  exact knows_each (each_validResult (discreetly_write
    (Profile.admits_validation hid hasks ⟨_, rfl⟩ hrecord)) result)

theorem knows_toolResult (name : String) (args : Dict ν) (result : Payload ν) :
    wp (discreet T ν (Hook.toolResult config who name args result).profile)
      (toolResult clock config who name args result) (Returns fun _ _ _ => True) s t := by
  refine knows_guarded rfl (returns_bind knows_actor fun identity s t hid => ?_)
  refine returns_bind knows_ofExcept fun _ s t _ => ?_
  refine returns_bind (knows_toolAction rfl) fun action s t hasks => ?_
  have hrecord : blank (resultRecord action) =
      (Hook.toolResult config who name args result).profile.repeated action := by
    simp only [blank, resultRecord, Profile.repeated, Profile.validation, Hook.profile]
  exact knows_each (each_validResult (discreetly_write
    (Profile.admits_validation hid hasks ⟨_, rfl⟩ hrecord)) result)

theorem knows_sessionWrite (call : WriteCall ν) :
    wp (discreet T ν (Hook.sessionWrite call).profile) (sessionWrite clock call)
      (Returns fun _ _ _ => True) s t := by
  refine returns_mapError ?_ fun e s t => wp_discreet (each_writeError
    (discreetly_write (Profile.admits_block (p := (Hook.sessionWrite call).profile) rfl)) e)
  refine returns_bind knows_actor fun identity s t hid => ?_
  refine returns_bind knows_boundSession fun bound s t hbound => ?_
  refine returns_bind (knows_writeOperation bound call.context) fun operation s t hop => ?_
  refine returns_bind knows_ofExcept fun _ s t _ => ?_
  have hasks : (Hook.sessionWrite call).profile.Asks identity (writeAction identity bound operation) := by
    refine ⟨rfl, List.mem_map.mpr ⟨operation, ?_, rfl⟩, rfl⟩
    show operation ∈ (call.who.session.map SessionWriteContext.operations).getD []
    rw [hbound]
    exact hop
  refine returns_bind (knows_authorize hid hasks) fun _ s t _ => ?_
  have hrecord : blank (writeRecord identity bound operation) =
      (Hook.sessionWrite call).profile.repeated (writeAction identity bound operation) := by
    simp only [blank, writeRecord, writeAction, Profile.repeated, Profile.validation, Hook.profile]
  exact knows_each (.bind (.perform (discreetly_write
    (Profile.admits_validation hid hasks ⟨_, rfl⟩ hrecord))) fun _ => trivial)

end

/-- The records of a call show nothing but its profile. -/
theorem Hook.records_admitted [Python ν] (hook : Hook ν) (s : Leases T) (moves : List (Move (Choice ν))) :
    Discreet hook.profile ((hook.prog clock).run stopped moves s []).loc := by
  have hwp : wp (discreet T ν hook.profile) (hook.prog clock) (Returns fun _ _ _ => True) s [] := by
    cases hook with
    | modelExecution config who request context => exact knows_modelExecution _ _
    | modelOutput config who result context => exact knows_modelOutput _ _
    | toolExecution config who name args => exact knows_toolExecution _ _
    | toolResult config who name args result => exact knows_toolResult _ _ _
    | sessionWrite call => exact knows_sessionWrite _
  exact (wp_run stopped (I := fun _ t => Discreet hook.profile t) (fun _ _ => trivial)
    (fun _ _ _ _ hg => hg) (fun _ _ h => h) hwp (by simp [Discreet]) moves).1

end

/-! ## Nothing is disclosed -/

/-- **Boundary errors and audit records disclose nothing.**  Two calls of one callback, whatever
their inputs and collaborators, raise the same exception if they fail at the same check for
causes that are alike.  What a call raises is a boundary error with one of `messages`, an
interrupt of a collaborator, or what the transport of `model_execution` raised and is no
boundary error.  Every record is, but for its target, one that the call's profile determines,
and its target is withheld or a digest. -/
theorem boundary_discloses_nothing {T ν : Type} [LinearOrder T] (clock : Clock T) [Python ν] :
    (∀ (hook hook' : Hook ν) (s s' : Leases T) (moves moves' : List (Move (Choice ν)))
      (fault fault' : Fault) (e e' : Raised), hook.kind = hook'.kind →
      hook.FailsAt clock s moves fault e → hook'.FailsAt clock s' moves' fault' e' →
      fault.Alike hook.kind fault' → e = e') ∧
    (∀ (hook : Hook ν) (s : Leases T) (moves : List (Move (Choice ν))) (e : Raised),
      ((hook.prog clock).run stopped moves s []).result = some (.error e) →
      ∃ fault, hook.FailsAt clock s moves fault e ∧
        ((∃ m ∈ messages, e = .boundary m) ∨ (fault.cause = .interrupt ∧ e = .interrupt) ∨
          (hook.kind = .modelExecution ∧ fault.check = .nextCall ∧ e = fault.cause ∧
            ∀ m, e ≠ .boundary m))) ∧
    (∀ (hook : Hook ν) (s : Leases T) (moves : List (Move (Choice ν))) (record : AuditRecord),
      .wrote record ∈ ((hook.prog clock).run stopped moves s []).loc →
      blank record ∈ hook.profile.records ∧
        (record.target = "withheld" ∨ ∃ text, record.target = hash text)) := by
  refine ⟨?_, ?_, ?_⟩
  · intro hook hook' s s' moves moves' fault fault' e e' hkind h h' halike
    obtain ⟨hgenuine, he⟩ := hook.settled clock h
    obtain ⟨hgenuine', he'⟩ := hook'.settled clock h'
    have heq := disclosed_congr hgenuine hgenuine' halike
    exact he.trans (heq.trans (by rw [hkind]; exact he'.symm))
  · intro hook s moves e he
    obtain ⟨fault, hfault⟩ := (hook.raises_iff clock s moves e).mp he
    refine ⟨fault, hfault, ?_⟩
    have hraised : e = hook.kind.disclosed fault := (hook.settled clock hfault).raised
    rcases disclosed_cases hook.kind fault with ⟨m, hm, h⟩ | ⟨hc, h⟩ | ⟨hk, hc, h, hb⟩
    · exact .inl ⟨m, hm, hraised.trans h⟩
    · exact .inr (.inl ⟨hc, hraised.trans h⟩)
    · refine .inr (.inr ⟨hk, hc, hraised.trans h, ?_⟩)
      rw [hraised, h]
      exact hb
  · intro hook s moves record h
    obtain ⟨hlisted, htarget⟩ := hook.records_admitted s moves record h
    exact ⟨hlisted, htarget⟩

namespace Sample

def config : Config where
  llm := { mode := "local", provider := "ollama", model := "m", endpoint := none }
  dataDir := .parse "/srv/maya"

/-- A search of the memory by alice. -/
def search : Hook Rat :=
  .toolExecution config { thread := 1, task := none, identity := some alice, session := none }
    "maya_business_memory_search" []

/-- The gateway raises a boundary error with this text. -/
def refusing (text : String) : Choice Rat where
  gateway := .error (.boundary text)

/-- Two searches that differ only in the text of the boundary error that the gateway raises do not
raise the same: one text is a public reason. -/
theorem other_text_other_message :
    ¬ ∀ (text text' : String) (fault fault' : Fault) (e e' : Raised),
      search.FailsAt clock {} [.go (refusing text)] fault e →
      search.FailsAt clock {} [.go (refusing text')] fault' e' → fault.check = fault'.check →
      e = e' := by
  intro h
  have he := h "governance.payload_invalid" "governance.quota_of_alice"
    ⟨.gateway, .boundary "governance.payload_invalid"⟩
    ⟨.gateway, .boundary "governance.quota_of_alice"⟩
    (.boundary "governance.payload_invalid") (.boundary "governance.authorization_unavailable")
    rfl rfl rfl
  exact absurd he (by decide)

end Sample

end ProjectMaya.Plugin
