import ProjectMaya.SessionWrite
import ProjectMaya.Logic.Label

/-! # The checks of the callbacks

The callbacks of `Plugin` and `SessionWrite` once more, with a label on every exception: the
check that failed, and what was raised there.  The checks that a callback makes by itself are
told apart by what they raise; the others by the collaborator that raises.

Without the labels they are the callbacks (`Hook.erases`). -/

namespace ProjectMaya.Plugin

open Logic

/-- Where a callback can fail. -/
inductive Check where
  /-- a check of its own that raises `reason` -/
  | own (reason : Raised)
  /-- a look at a lease, which does not raise -/
  | lease
  | files
  | gateway
  /-- the record of the gateway's answer -/
  | decisionRecord
  /-- the record of a result, an output or a session write -/
  | validationRecord
  | nextCall
  /-- the record of the denial itself -/
  | denial
  deriving DecidableEq, Repr

/-- The check that failed last, and what was raised there. -/
structure Fault where
  check : Check
  cause : Raised
  deriving DecidableEq, Repr

/-- The fault of a check that a callback makes by itself. -/
def Fault.own (e : Raised) : Fault := ⟨.own e, e⟩

abbrev Sited (T ν α : Type) [LinearOrder T] :=
  Prog (Choice ν) (Leases T) (Trace ν) (Fault × Raised) α

namespace Sited

section

variable {T ν : Type} [LinearOrder T] (clock : Clock T)

def act {β : Type} (check : Check) (a : Act T ν β) : Sited T ν β :=
  .perform (a.tag fun e => ⟨check, e⟩)

def ofExcept {α : Type} (x : Except Raised α) : Sited T ν α :=
  .done (x.mapError fun e => (.own e, e))

def refuse {α : Type} (code : String) : Sited T ν α :=
  .raise (.own (.boundary code), .boundary code)

def refuseIf (c : Prop) [Decidable c] (code : String) : Sited T ν Unit :=
  .raiseIf c (.own (.boundary code), .boundary code)

variable (config : Config) (who : Caller)

def actor : Sited T ν RequestIdentity :=
  match who.identity with
  | none => refuse "governance.identity_missing"
  | some identity =>
    match who.session with
    | none => pure identity
    | some bound => do
      let active ← act .lease (Act.isActive clock bound.lease)
      refuseIf (¬ (active ∧ bound.ownedBy who)) "governance.session_context_missing"
      return identity

def authorize (action : ActionRequest) : Sited T ν Unit :=
  Prog.mapError (do
    let result ← act .gateway (Act.authorize action)
    act .decisionRecord (Act.write (authorizationRecord action result))
    refuseIf (!result.allowed ∨ result.constraints ≠ [] ∨ result.redactions ≠ [])
      "governance.action_denied")
    fun (fault, e) => pure (fault, boundaryOr "governance.authorization_unavailable" e)

/-- What `_audit_block` raises when its record cannot be written. -/
def unaudited : Raised → Raised
  | .interrupt => .interrupt
  | _ => .boundary "governance.audit_unavailable"

def auditBlock (capability : String) : Sited T ν Unit :=
  Prog.mapError (act .denial (Act.write (blockRecord who capability)))
    fun (fault, e) => pure (fault, unaudited e)

def guarded {α : Type} (capability failed : String) (body : Sited T ν α) : Sited T ν α :=
  Prog.mapError body fun
    | (fault, .boundary message) => do
      auditBlock who capability
      return (fault, publicError message)
    | (fault, .interrupt) => pure (fault, .interrupt)
    | (fault, _) => do
      auditBlock who capability
      return (fault, .boundary failed)

def nextCall (payload : Payload ν) : Sited T ν (Payload ν) := do
  act .nextCall (Act.call payload)
  act .nextCall Act.awaitResult

/-- The handler around `next_call` in `model_execution`. -/
def transport (payload : Payload ν) : Sited T ν (Payload ν) :=
  Prog.mapError (nextCall payload) fun
    | (fault, .boundary message) => do
      auditBlock who "model.egress"
      return (fault, publicError message)
    | e => pure e

def modelExecution [Python ν] (request context : Dict ν) : Sited T ν (Payload ν) := do
  guarded who "model.egress" "governance.model_execution_failed" do
    let identity ← actor clock who
    let _ ← ofExcept (checkedPayload (.mapping true request))
    ofExcept (modelRoute config.llm context request)
    authorize (modelAction config.llm identity)
  transport who (.mapping true request)

def modelOutput [Python ν] (result : Payload ν) (context : Dict ν) : Sited T ν (Payload ν) :=
  guarded who "model.output" "governance.model_output_failed" do
    let identity ← actor clock who
    let _ ← ofExcept (checkedPayload result)
    ofExcept (outputRoute config.llm context)
    authorize (outputAction config.llm identity)
    act .validationRecord (Act.write (outputRecord (outputAction config.llm identity)))
    return result

def documentPath (value : Payload ν) : Sited T ν ResolvedPath :=
  match value with
  | .str text => do
    refuseIf (text = "") "governance.file_target_invalid"
    let root ← act .files (Act.resolve (config.dataDir.join (.parse "documents")))
    let path := PurePath.parse text
    let resolved ← act .files (Act.resolve
      (if path.isAbsolute then path else root.toPure.join path))
    refuseIf (root.toPure ∉ resolved.toPure.parents) "governance.file_target_outside_root"
    return resolved
  | _ => refuse "governance.file_target_invalid"

def toolAction (name : String) (args : Dict ν) (identity : RequestIdentity) :
    Sited T ν ActionRequest :=
  match fileTool name with
  | some (capability, operation) => do
    let path ← documentPath config (args.get "path")
    return { actorId := identity.actorId, capability, target := path.text, operation
             dataClassification := identity.dataClassification }
  | none =>
    match memoryTool name with
    | some (capability, target, operation) =>
      pure { actorId := identity.actorId, capability, target, operation
             dataClassification := identity.dataClassification }
    | none => refuse "governance.tool_unmapped"

def validResult [Python ν] (action : ActionRequest) (result : Payload ν) :
    Sited T ν (Payload ν) := do
  let _ ← ofExcept (checkedPayload result)
  act .validationRecord (Act.write (resultRecord action))
  return result

def toolExecution [Python ν] (name : String) (args : Dict ν) : Sited T ν (Payload ν) :=
  guarded who "tool.execute" "governance.tool_execution_failed" do
    let identity ← actor clock who
    let _ ← ofExcept (checkedPayload (.mapping true args))
    let action ← toolAction config name args identity
    authorize action
    let result ← nextCall (.mapping true (effectiveArgs name args action))
    validResult action result

def toolResult [Python ν] (name : String) (args : Dict ν) (result : Payload ν) :
    Sited T ν (Payload ν) :=
  guarded who "tool.result" "governance.tool_execution_failed" do
    let identity ← actor clock who
    let _ ← ofExcept (checkedPayload (.mapping true args))
    let action ← toolAction config name args identity
    validResult action result

def boundSession : Sited T ν SessionWriteContext :=
  match who.session with
  | none => refuse "governance.session_context_missing"
  | some bound => do
    let active ← act .lease (Act.isActive clock bound.lease)
    refuseIf (¬ (active ∧ bound.ownedBy who)) "governance.session_context_missing"
    return bound

def writeOperation (bound : SessionWriteContext) (context : Dict ν) : Sited T ν String := do
  refuseIf (!(context.get "contract").isText sessionWriteContract ∨
    !(context.get "session_id").isText bound.sessionId ∨
    !(context.get "purpose").isText "hermes_conversation") "governance.session_context_mismatch"
  let path ← ofExcept (pathOf (context.getD "database" (.str "")))
  let database ← act .files (Act.resolve path)
  refuseIf (database ≠ bound.database) "governance.session_context_mismatch"
  match ← ofExcept (operationOf (context.get "operation")) with
  | some operation => do
    refuseIf (operation ∉ bound.operations) "governance.session_context_mismatch"
    return operation
  | none => refuse "governance.session_context_mismatch"

def writeError : Fault × Raised → Sited T ν (Fault × Raised)
  | (fault, .boundary _) => do
    auditBlock who "session.write"
    return (fault, .boundary "governance.action_denied")
  | (fault, .interrupt) => pure (fault, .interrupt)
  | (fault, _) => do
    auditBlock who "session.write"
    return (fault, .boundary "governance.authorization_unavailable")

def authorisedWrite [Python ν] (call : WriteCall ν) (identity : RequestIdentity)
    (bound : SessionWriteContext) : Sited T ν (Payload ν) := do
  let operation ← writeOperation bound call.context
  let _ ← ofExcept (checkedPayload call.result)
  authorize (writeAction identity bound operation)
  act .validationRecord (Act.write (writeRecord identity bound operation))
  return call.result

def sessionWrite [Python ν] (call : WriteCall ν) : Sited T ν (Payload ν) :=
  Prog.mapError (do
    let identity ← actor clock call.who
    let bound ← boundSession clock call.who
    authorisedWrite call identity bound) (writeError call.who)

/-! ## Without labels -/

variable {clock} {config} {who}

theorem erases_act {β : Type} (check : Check) (a : Act T ν β) :
    Erases id (act check a) (.perform a) := .perform a _

theorem erases_ofExcept {α : Type} (x : Except Raised α) :
    Erases id (ofExcept x : Sited T ν α) (Plugin.ofExcept x) := by
  cases x with
  | ok a => exact .pure a
  | error e => exact .raise _ e

theorem erases_refuse {α : Type} (code : String) :
    Erases id (refuse code : Sited T ν α) (Plugin.refuse code) := .raise _ _

theorem erases_refuseIf {c : Prop} [Decidable c] (code : String) :
    Erases id (refuseIf c code : Sited T ν Unit) (Plugin.refuseIf c code) := .raiseIf _ _

theorem erases_actor : Erases id (actor clock who : Sited T ν RequestIdentity) (Plugin.actor clock who) := by
  unfold actor Plugin.actor
  cases who.identity with
  | none => exact erases_refuse _
  | some identity =>
    cases who.session with
    | none => exact .pure identity
    | some bound =>
      refine .bind (erases_act _ _) fun active => ?_
      exact .bind (erases_refuseIf _) fun _ => .pure identity

theorem erases_authorize (action : ActionRequest) :
    Erases id (authorize action : Sited T ν Unit) (Plugin.authorize action) := by
  refine .mapError ?_ fun fault e => .pure (v := Prod.snd) (fault, boundaryOr _ e)
  refine .bind (erases_act _ _) fun result => ?_
  exact .bind (erases_act _ _) fun _ => erases_refuseIf _

theorem erases_auditBlock (capability : String) :
    Erases id (auditBlock who capability : Sited T ν Unit) (Plugin.auditBlock who capability) := by
  refine .mapError (erases_act _ _) ?_
  intro fault e
  cases e <;> exact .pure (v := Prod.snd) (fault, unaudited _)

/-- A handler that audits the denial. -/
theorem erases_denied (capability : String) (fault : Fault) (e : Raised) :
    Erases Prod.snd (do auditBlock who capability; return (fault, e) : Sited T ν (Fault × Raised))
      (do Plugin.auditBlock who capability; return e) :=
  .bind (erases_auditBlock capability) fun _ => .pure (v := Prod.snd) (fault, e)

theorem erases_guarded {α : Type} {capability failed : String} {body : Sited T ν α}
    {body' : Code T ν α} (h : Erases id body body') :
    Erases id (guarded who capability failed body) (Plugin.guarded who capability failed body') := by
  refine .mapError h ?_
  intro fault e
  cases e with
  | interrupt => exact .pure (v := Prod.snd) (fault, Raised.interrupt)
  | boundary _ | mandatory _ | lockException | importError | failure => exact erases_denied _ fault _

theorem erases_nextCall (payload : Payload ν) :
    Erases id (nextCall payload : Sited T ν (Payload ν)) (Plugin.nextCall payload) :=
  .bind (erases_act _ _) fun _ => erases_act _ _

theorem erases_modelExecution [Python ν] (request context : Dict ν) :
    Erases id (modelExecution clock config who request context)
      (Plugin.modelExecution clock config who request context) := by
  refine .bind (erases_guarded ?_) fun _ => .mapError (erases_nextCall _) ?_
  · refine .bind erases_actor fun identity => ?_
    refine .bind (erases_ofExcept _) fun _ => ?_
    exact .bind (erases_ofExcept _) fun _ => erases_authorize _
  · intro fault e
    cases e with
    | boundary _ => exact erases_denied _ fault _
    | interrupt | mandatory _ | lockException | importError | failure =>
      exact .pure (v := Prod.snd) (fault, _)

theorem erases_modelOutput [Python ν] (result : Payload ν) (context : Dict ν) :
    Erases id (modelOutput clock config who result context)
      (Plugin.modelOutput clock config who result context) := by
  refine erases_guarded (.bind erases_actor fun identity => ?_)
  refine .bind (erases_ofExcept _) fun _ => ?_
  refine .bind (erases_ofExcept _) fun _ => ?_
  refine .bind (erases_authorize _) fun _ => ?_
  exact .bind (erases_act _ _) fun _ => .pure result

theorem erases_documentPath (value : Payload ν) :
    Erases id (documentPath config value : Sited T ν ResolvedPath) (Plugin.documentPath config value) := by
  cases value with
  | str text =>
    refine .bind (erases_refuseIf _) fun _ => ?_
    refine .bind (erases_act _ _) fun root => ?_
    refine .bind (erases_act _ _) fun resolved => ?_
    exact .bind (erases_refuseIf _) fun _ => .pure resolved
  | none | bool _ | int _ | float _ | list _ _ | mapping _ _ | path _ | object =>
    exact erases_refuse _

theorem erases_toolAction (name : String) (args : Dict ν) (identity : RequestIdentity) :
    Erases id (toolAction config name args identity : Sited T ν ActionRequest)
      (Plugin.toolAction config name args identity) := by
  unfold toolAction Plugin.toolAction
  cases fileTool name with
  | some tool => exact .bind (erases_documentPath _) fun path => .pure _
  | none =>
    cases memoryTool name with
    | some tool => exact .pure _
    | none => exact erases_refuse _

theorem erases_validResult [Python ν] (action : ActionRequest) (result : Payload ν) :
    Erases id (validResult action result : Sited T ν (Payload ν)) (Plugin.validResult action result) :=
  .bind (erases_ofExcept _) fun _ => .bind (erases_act _ _) fun _ => .pure result

theorem erases_toolExecution [Python ν] (name : String) (args : Dict ν) :
    Erases id (toolExecution clock config who name args)
      (Plugin.toolExecution clock config who name args) := by
  refine erases_guarded (.bind erases_actor fun identity => ?_)
  refine .bind (erases_ofExcept _) fun _ => ?_
  refine .bind (erases_toolAction _ _ _) fun action => ?_
  refine .bind (erases_authorize _) fun _ => ?_
  exact .bind (erases_nextCall _) fun result => erases_validResult _ _

theorem erases_toolResult [Python ν] (name : String) (args : Dict ν) (result : Payload ν) :
    Erases id (toolResult clock config who name args result)
      (Plugin.toolResult clock config who name args result) := by
  refine erases_guarded (.bind erases_actor fun identity => ?_)
  refine .bind (erases_ofExcept _) fun _ => ?_
  exact .bind (erases_toolAction _ _ _) fun action => erases_validResult _ _

theorem erases_boundSession : Erases id (boundSession clock who : Sited T ν SessionWriteContext)
    (Plugin.boundSession clock who) := by
  unfold boundSession Plugin.boundSession
  cases who.session with
  | none => exact erases_refuse _
  | some bound =>
    refine .bind (erases_act _ _) fun active => ?_
    exact .bind (erases_refuseIf _) fun _ => .pure bound

theorem erases_writeOperation (bound : SessionWriteContext) (context : Dict ν) :
    Erases id (writeOperation bound context : Sited T ν String)
      (Plugin.writeOperation bound context) := by
  refine .bind (erases_refuseIf _) fun _ => ?_
  refine .bind (erases_ofExcept _) fun path => ?_
  refine .bind (erases_act _ _) fun database => ?_
  refine .bind (erases_refuseIf _) fun _ => ?_
  refine .bind (erases_ofExcept _) fun operation => ?_
  cases operation with
  | none => exact erases_refuse _
  | some operation => exact .bind (erases_refuseIf _) fun _ => .pure operation

theorem erases_sessionWrite [Python ν] (call : WriteCall ν) :
    Erases id (sessionWrite clock call) (Plugin.sessionWrite clock call) := by
  refine .mapError ?_ ?_
  · refine .bind erases_actor fun identity => ?_
    refine .bind erases_boundSession fun bound => ?_
    refine .bind (erases_writeOperation _ _) fun operation => ?_
    refine .bind (erases_ofExcept _) fun _ => ?_
    refine .bind (erases_authorize _) fun _ => ?_
    exact .bind (erases_act _ _) fun _ => .pure call.result
  · intro fault e
    cases e with
    | interrupt => exact .pure (v := Prod.snd) (fault, Raised.interrupt)
    | boundary _ | mandatory _ | lockException | importError | failure =>
      exact erases_denied _ fault _

end

end Sited

/-! ## The five callbacks -/

/-- A call of a callback. -/
inductive Hook (ν : Type) where
  | modelExecution (config : Config) (who : Caller) (request context : Dict ν)
  | modelOutput (config : Config) (who : Caller) (result : Payload ν) (context : Dict ν)
  | toolExecution (config : Config) (who : Caller) (name : String) (args : Dict ν)
  | toolResult (config : Config) (who : Caller) (name : String) (args : Dict ν) (result : Payload ν)
  | sessionWrite (call : WriteCall ν)

namespace Hook

variable {T ν : Type} [LinearOrder T] (clock : Clock T) [Python ν]

def prog : Hook ν → Code T ν (Payload ν)
  | .modelExecution config who request context => Plugin.modelExecution clock config who request context
  | .modelOutput config who result context => Plugin.modelOutput clock config who result context
  | .toolExecution config who name args => Plugin.toolExecution clock config who name args
  | .toolResult config who name args result => Plugin.toolResult clock config who name args result
  | .sessionWrite call => Plugin.sessionWrite clock call

/-- The callback with labels. -/
def sited : Hook ν → Sited T ν (Payload ν)
  | .modelExecution config who request context => Sited.modelExecution clock config who request context
  | .modelOutput config who result context => Sited.modelOutput clock config who result context
  | .toolExecution config who name args => Sited.toolExecution clock config who name args
  | .toolResult config who name args result => Sited.toolResult clock config who name args result
  | .sessionWrite call => Sited.sessionWrite clock call

theorem erases (hook : Hook ν) : Erases id (hook.sited clock) (hook.prog clock) := by
  cases hook with
  | modelExecution config who request context => exact Sited.erases_modelExecution _ _
  | modelOutput config who result context => exact Sited.erases_modelOutput _ _
  | toolExecution config who name args => exact Sited.erases_toolExecution _ _
  | toolResult config who name args result => exact Sited.erases_toolResult _ _ _
  | sessionWrite call => exact Sited.erases_sessionWrite _

/-- The call raises `e` in a run with these moves, because of `fault`. -/
def FailsAt (hook : Hook ν) (s : Leases T) (moves : List (Move (Choice ν))) (fault : Fault)
    (e : Raised) : Prop :=
  ((hook.sited clock).run stopped moves s []).result = some (.error (fault, e))

/-- A call raises exactly what it raises because of some fault. -/
theorem raises_iff (hook : Hook ν) (s : Leases T) (moves : List (Move (Choice ν))) (e : Raised) :
    ((hook.prog clock).run stopped moves s []).result = some (.error e) ↔
      ∃ fault, hook.FailsAt clock s moves fault e := by
  unfold FailsAt
  rw [(hook.erases clock).run_eq stopped moves s []]
  cases ((hook.sited clock).run stopped moves s []).result with
  | none => simp
  | some r =>
    cases r with
    | ok v => simp [Except.map]
    | error e' =>
      obtain ⟨fault, e'⟩ := e'
      simp [Except.map]

end Hook

end ProjectMaya.Plugin
