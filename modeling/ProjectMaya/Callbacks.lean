import ProjectMaya.Plugin

/-! # The actions of the callbacks

What holds of every single action that a part of a callback can perform holds of the part:
one lemma for each part, over any property `P` of actions. -/

namespace ProjectMaya.Plugin

open Logic

variable {T ν : Type} [LinearOrder T] {clock : Clock T}
  {P : ∀ {β : Type}, Act T ν β → Prop}

theorem each_ofExcept {α : Type} {x : Except Raised α} : (ofExcept x : Code T ν α).Each P := trivial

theorem each_actor (hlook : ∀ lease, P (Act.isActive clock lease)) (who : Caller) :
    (actor clock who : Code T ν RequestIdentity).Each P := by
  unfold actor
  cases who.identity with
  | none => exact trivial
  | some identity =>
    cases who.session with
    | none => exact trivial
    | some bound => exact .bind (.perform (hlook bound.lease)) fun _ => .bind .raiseIf fun _ => trivial

theorem each_authorize {action : ActionRequest} (hask : P (Act.authorize action))
    (hwrite : ∀ result, P (Act.write (authorizationRecord action result))) :
    (authorize action : Code T ν Unit).Each P := by
  refine .mapError (.bind (.perform hask) ?_) fun _ => trivial
  intro result
  exact .bind (.perform (hwrite result)) fun _ => .raiseIf

/-- The record that `_audit_block` writes. -/
def blockRecord (who : Caller) (capability : String) : AuditRecord where
  eventType := "denial.hermes_boundary"
  decision := "deny"
  reasonCode := "governance.boundary_blocked"
  actorId := (who.identity.map RequestIdentity.actorId).getD "unresolved"
  capability
  target := "withheld"
  operation := "execute"
  dataClassification := (who.identity.map RequestIdentity.dataClassification).getD "restricted"

theorem each_auditBlock {who : Caller} {capability : String}
    (hwrite : P (Act.write (blockRecord who capability))) :
    (auditBlock who capability : Code T ν Unit).Each P :=
  .mapError (.perform hwrite) fun _ => trivial

/-- A handler that audits the denial and raises something else. -/
theorem each_denied {who : Caller} {capability : String} {e : Raised}
    (hwrite : P (Act.write (blockRecord who capability))) :
    (do auditBlock who capability; return e : Code T ν Raised).Each P :=
  .bind (each_auditBlock hwrite) fun _ => trivial

theorem each_documentPath {config : Config} (hresolve : ∀ path, P (Act.resolve path))
    (value : Payload ν) : (documentPath config value : Code T ν ResolvedPath).Each P := by
  cases value with
  | str text =>
    refine .bind .raiseIf fun _ => ?_
    refine .bind (.perform (hresolve _)) fun root => ?_
    refine .bind (.perform (hresolve _)) fun resolved => ?_
    exact .bind .raiseIf fun _ => trivial
  | none | bool _ | int _ | float _ | list _ _ | mapping _ _ | path _ | object => exact trivial

theorem each_toolAction {config : Config} (hresolve : ∀ path, P (Act.resolve path)) (name : String)
    (args : Dict ν) (identity : RequestIdentity) :
    (toolAction config name args identity : Code T ν ActionRequest).Each P := by
  unfold toolAction
  cases fileTool name with
  | some tool => exact .bind (each_documentPath hresolve _) fun _ => trivial
  | none => cases memoryTool name <;> exact trivial

theorem each_nextCall {payload : Payload ν} (hcall : P (Act.call payload))
    (hresult : P Act.awaitResult) : (nextCall payload : Code T ν (Payload ν)).Each P :=
  .bind (.perform hcall) fun _ => .perform hresult

theorem each_validResult [Python ν] {action : ActionRequest}
    (hwrite : P (Act.write (resultRecord action))) (result : Payload ν) :
    (validResult action result : Code T ν (Payload ν)).Each P :=
  .bind each_ofExcept fun _ => .bind (.perform hwrite) fun _ => trivial

end ProjectMaya.Plugin
