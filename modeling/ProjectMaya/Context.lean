import ProjectMaya.Lease
import ProjectMaya.Machine
import ProjectMaya.Logic.Check
import ProjectMaya.Logic.PosixPath

/-! # Session contexts

What `bind_session_write` binds, and who looks at it: a thread, its current task, and the
values that the context variables have there. -/

namespace ProjectMaya

open Logic

def sessionWriteContract : String := "project-maya.hermes-session-write.v1"

/-- `SessionWriteContext`.  The lease is a node of the process's leases. -/
structure SessionWriteContext where
  identity : RequestIdentity
  requestId : String
  sessionId : String
  database : ResolvedPath
  operations : List String
  threadId : Nat
  task : Option Nat
  lease : Nat
  deriving DecidableEq, Repr

/-- `get_ident()`, `_current_task()`, and the context variables `_identity` and
`_session_write`. -/
structure Caller where
  thread : Nat
  task : Option Nat
  identity : Option RequestIdentity
  session : Option SessionWriteContext
  deriving DecidableEq, Repr

/-- The context belongs to the thread and task that look at it, and to their identity. -/
def SessionWriteContext.ownedBy (bound : SessionWriteContext) (who : Caller) : Bool :=
  who.identity = some bound.identity && bound.threadId = who.thread && bound.task = who.task

def classifications : List String := ["public", "internal", "confidential", "restricted"]

/-- The checks of `bind_request_identity`, and the identity that it binds. -/
def requestIdentity (actorId classification : String) : Except Raised RequestIdentity := do
  ensure (identifier actorId) (.boundary "governance.identity_invalid")
  ensure (classification ∈ classifications) (.boundary "governance.classification_invalid")
  return { actorId, dataClassification := classification }

end ProjectMaya
