import ProjectMaya.Claims
import ProjectMaya.Context
import ProjectMaya.Machine
import ProjectMaya.Logic.Hosts

/-! # `CandidateConversationExecutorFactory` and `CandidateSessionExecutorHandoff`

The factory of one runner: native callers enter their scope (`callerScope`), schedule one
function (`schedule`), whose task hands it to the runner's helper (`receive`); the helper asks
the resolver to execute it (`resolve`), which makes a handoff (`construct`) and executes it
(`execute`), so that a thread of the executor runs it (`invoke`).

Each of these is called anywhere: by any thread, in any task, with any values of the context
variables (`Position`).  A list comprehension under `_lock`, the constructor of a handoff and
the check of `_invoke` under its lock are one action each. -/

namespace ProjectMaya.Handoff

open Logic

/-- A value passed as a function: which one it is, and whether it is callable and no coroutine
function. -/
structure Function where
  id : Nat
  sync : Bool := true
  deriving DecidableEq, Repr

/-- Where a call is made: the thread and its task, and what the context variables hold. -/
structure Position extends Caller where
  /-- `_caller_entry.get() is not None` -/
  entry : Bool := false
  /-- `_executor_selection.get()`: the scheduled function whose selection it is. -/
  selection : Option Nat := none
  deriving DecidableEq, Repr

/-- `_ExecutorSelection`; its function is that of the scheduled function it belongs to. -/
structure Selection where
  source : SessionWriteContext
  consumed : Bool := false
  deriving DecidableEq, Repr

/-- A function that `schedule` has claimed a request for.  `runner` is the thread that runs the
coroutine of its task; `passed` (`_bind_session_handoff` found the source active) and `handed`
(how often the helper was given the function) are history. -/
structure Scheduled where
  source : SessionWriteContext
  function : Function
  lease : Option Nat := none
  runner : Option Nat := none
  passed : Bool := false
  selection : Option Selection := none
  handed : Nat := 0
  deriving DecidableEq, Repr

def Scheduled.claim (x : Scheduled) : Claim := ⟨x.source.requestId, x.source.lease⟩

/-- `selection.consumed = True` -/
def Scheduled.consume (x : Scheduled) : Scheduled :=
  { x with selection := x.selection.map fun y => { y with consumed := true } }

/-- A start of a captured function: where, and the leases as the check before it left them. -/
structure Start (T : Type) where
  thread : Nat
  task : Option Nat
  leases : Leases T

/-- `CandidateSessionExecutorHandoff`.  `task` is the scheduled function whose selection it
consumed; `receiver` is the thread that set `_receiver_started`; `starts` is history. -/
structure SessionExecutorHandoff (T : Type) where
  source : SessionWriteContext
  function : Function
  lease : Nat
  task : Option Nat := none
  used : Bool := false
  receiver : Option Nat := none
  starts : List (Start T) := []

/-- A claim of `caller_scope`: who made it, and how often its body was entered. -/
structure Entry where
  claim : Claim
  owner : Nat
  bodies : Nat := 0
  deriving DecidableEq, Repr

def Entry.entered (x : Entry) : Entry := { x with bodies := x.bodies + 1 }

/-- `claimed` and `callerClaimed` are the factory's lists; `callers`, `tasks` and `handoffs` are
all that were ever made; `left` are the handoffs whose `execute` is over. -/
structure Shared (T : Type) where
  leases : Leases T := {}
  claimed : List Claim := []
  callerClaimed : List Claim := []
  callers : List Entry := []
  tasks : List Scheduled := []
  handoffs : List (SessionExecutorHandoff T) := []
  left : List Nat := []

/-- A thread.  `claiming` is the claim that the next action of `caller_scope` makes. -/
structure Thread where
  id : Nat
  claiming : Option Claim := none
  deriving DecidableEq, Repr

/-- How the environment answers at one action. -/
structure Choice where
  ask : Except Raised Unit := .ok ()
  path : Except Raised ResolvedPath := .error .failure
  /-- How a body, a helper or a function ends, and whether an interrupt is a cancellation. -/
  body : Except Raised Unit := .ok ()
  cancelled : Bool := false

instance : Inhabited Choice := ⟨{}⟩

section

variable {T : Type}

abbrev Act (T β : Type) := Action Choice (Shared T) Thread Raised β

abbrev Code (T α : Type) := Prog Choice (Shared T) Thread Raised α

/-- The request that a context belongs to, as the factory's lists have it. -/
def request (source : SessionWriteContext) : Claim := ⟨source.requestId, source.lease⟩

def invalid : Raised := .boundary "governance.session_handoff_invalid"

/-- The scheduled function whose selection fits: its source is the caller's session. -/
def Shared.selected (s : Shared T) (who : Position) (function : Function) :
    Option (Nat × Selection) := do
  let i ← who.selection
  let x ← s.tasks[i]?
  let selection ← x.selection
  if some selection.source = who.session ∧ x.function = function then some (i, selection) else none

namespace Act

/-- An assignment, or another effect that cannot fail. -/
def assign (f : Shared T → Shared T) : Act T Unit where
  next _ s t := (.ok (), f s, t)

/-- A question to the environment: a policy, an audit sink, an event loop. -/
def ask : Act T Unit where
  next c s t := (c.ask, s, t)

def resolve : Act T ResolvedPath where
  next c s t := (c.path, s, t)

/-- The body of a scope, the runner's helper, or a captured function. -/
def body : Act T Unit where
  next c s t := (c.body, s, t)

/-- The fields of a lease. -/
def lease (i : Nat) : Act T (Option (Lease T)) where
  next _ s t := (.ok (s.leases.lease? i), s, t)

/-- `_SessionWriteLease(parent=…)` -/
def derive (parent : Nat) : Act T Nat where
  next _ s t := (.ok s.leases.nodes.size, { s with leases := s.leases.derive parent }, t)

/-- `lease.active = False` -/
def deactivate (i : Nat) : Act T Unit := assign fun s => { s with leases := s.leases.deactivate i }

/-- The claim that comes next. -/
def aim (claim : Claim) : Act T Unit where
  next _ s t := (.ok (), s, { t with claiming := some claim })

/-- `loop.call_later(max(0, source.lease.deadline - monotonic()), expire)` -/
def callLater : Act T Unit where
  next c s t := (c.ask, { s with leases := s.leases.monotonic }, t)

/-- `yield` of `caller_scope`: the body is entered. -/
def enterBody (k : Nat) : Act T Unit :=
  assign fun s => { s with callers := s.callers.modify k .entered }

/-- `_LeasedRequestTask(coroutine, lease)` -/
def createTask (i lease : Nat) : Act T Unit where
  next c s t :=
    match c.ask with
    | .ok () =>
      (.ok (), { s with tasks := s.tasks.modify i fun x => { x with lease := some lease } }, t)
    | .error e => (.error e, s, t)

/-- The event loop starts the coroutine of a task, once. -/
def begin (i : Nat) : Act T (SessionWriteContext × Nat × Function) where
  next _ s t :=
    match s.tasks[i]? with
    | some { source, function, lease := some lease, runner := none, .. } =>
      (.ok (source, lease, function),
        { s with tasks := s.tasks.modify i fun x => { x with runner := some t.id } }, t)
    | _ => (.error .failure, s, t)

/-- `_executor_selection.set(_ExecutorSelection(…))` -/
def select (i : Nat) (source : SessionWriteContext) : Act T Unit :=
  assign fun s => { s with tasks := s.tasks.modify i fun x => { x with selection := some { source } } }

/-- The call of the helper. -/
def hand (i : Nat) : Act T Unit :=
  assign fun s => { s with tasks := s.tasks.modify i fun x => { x with handed := x.handed + 1 } }

/-- The check of the resolver. -/
def selected (who : Position) (function : Function) : Act T Unit where
  next _ s t := (if (s.selected who function).isSome then .ok () else .error invalid, s, t)

/-- The fields of a handoff. -/
def handoff (h : Nat) : Act T (SessionExecutorHandoff T) where
  next _ s t :=
    match s.handoffs[h]? with
    | some x => (.ok x, s, t)
    | none => (.error .failure, s, t)

/-- `_used` under the lock. -/
def use (h : Nat) : Act T Unit where
  next _ s t :=
    match s.handoffs[h]? with
    | some { used := false, .. } =>
      (.ok (), { s with handoffs := s.handoffs.modify h fun x => { x with used := true } }, t)
    | _ => (.error (.boundary "governance.session_handoff_consumed"), s, t)

/-- The `finally` clause of `execute`. -/
def leave (h lease : Nat) : Act T Unit :=
  assign fun s => { s with leases := s.leases.deactivate lease, left := s.left ++ [h] }

/-- The check of `_invoke` under the lock. -/
def receive (h : Nat) (who : Position) : Act T (SessionExecutorHandoff T) where
  next _ s t :=
    match s.handoffs[h]? with
    | some x =>
      if !x.used ∨ x.receiver.isSome ∨ who.thread = x.source.threadId ∨ who.task.isSome then
        (.error invalid, s, t)
      else
        (.ok x, { s with handoffs := s.handoffs.modify h fun x => { x with receiver := some t.id } }, t)
    | none => (.error .failure, s, t)

/-- `self._function(*args)` is called. -/
def start (h : Nat) (who : Position) (leases : Leases T) : Act T Unit :=
  assign fun s =>
    { s with handoffs := s.handoffs.modify h fun x =>
        { x with starts := x.starts ++ [⟨who.thread, who.task, leases⟩] } }

variable [LinearOrder T] (clock : Clock T)

/-- `lease.is_active` -/
def look (i : Nat) : Act T Bool where
  next _ s t :=
    let (active, leases) := s.leases.isActive clock i
    (.ok active, { s with leases }, t)

/-- `source.lease.is_active` in `_bind_session_handoff`, for a scheduled function or for none. -/
def lookSource (task : Option Nat) (i : Nat) : Act T Bool where
  next _ s t :=
    let (active, leases) := s.leases.isActive clock i
    let tasks := match task with
      | some k => if active then s.tasks.modify k fun x => { x with passed := true } else s.tasks
      | none => s.tasks
    (.ok active, { s with leases, tasks }, t)

/-- `parent.is_active` in `_bind_session_handoff`, and the leases as it left them. -/
def check (i : Nat) : Act T (Bool × Leases T) where
  next _ s t :=
    let (active, leases) := s.leases.isActive clock i
    (.ok (active, leases), { s with leases }, t)

/-- The claim of `caller_scope`. -/
def claimCaller (source : SessionWriteContext) : Act T Nat where
  next _ s t :=
    let (granted, items, leases) := claim clock s.callerClaimed (request source) s.leases
    let s' := { s with leases, callerClaimed := items }
    let t' := { t with claiming := none }
    if granted then
      (.ok s.callers.length, { s' with callers := s.callers ++ [⟨request source, t.id, 0⟩] }, t')
    else (.error (.boundary "governance.caller_entry_consumed"), s', t')

/-- The claim of `schedule`. -/
def claimTask (source : SessionWriteContext) (function : Function) : Act T Nat where
  next _ s t :=
    let (granted, items, leases) := claim clock s.claimed (request source) s.leases
    let s' := { s with leases, claimed := items }
    if granted then (.ok s.tasks.length, { s' with tasks := s.tasks ++ [{ source, function }] }, t)
    else (.error (.boundary "governance.session_handoff_consumed"), s', t)

/-- `CandidateSessionExecutorHandoff(function)` -/
def construct (who : Position) (function : Function) : Act T Nat where
  next _ s t :=
    match who.session with
    | none => (.error invalid, s, t)
    | some source =>
      let selected := (s.selected who function).filter fun x => !x.2.consumed
      let (active, leases) := s.leases.isActive clock source.lease
      let child := (leases.lease? source.lease).any fun l => l.parent.isSome
      if !function.sync then (.error invalid, s, t)
      else if !active ∨ (child ∧ selected = none) ∨ !source.ownedBy who.toCaller then
        (.error invalid, { s with leases }, t)
      else
        let task := selected.map Prod.fst
        let tasks := match task with
          | some i => s.tasks.modify i .consume
          | none => s.tasks
        (.ok s.handoffs.length,
          { s with
            leases := leases.derive source.lease
            tasks
            handoffs := s.handoffs ++ [{ source, function, lease := leases.nodes.size, task }] }, t)

/-- The `except` and `finally` clauses of `caller_scope`. -/
def leaveScope (lease : Nat) (result : Except Raised Unit) : Act T Unit where
  next c s t :=
    let exit := match result with
      | .ok _ => .normal
      | .error .interrupt => if c.cancelled then .cancelled else .raised
      | .error _ => .raised
    (.ok (), { s with leases := s.leases.exitScope clock lease exit }, t)

variable [Add T]

/-- The `except` clauses of `_receive`. -/
def revokeRequest (lease : Nat) (result : Except Raised Unit) : Act T Unit where
  next c s t :=
    match result with
    | .ok _ => (.ok (), s, t)
    | .error .interrupt =>
      let reason := if c.cancelled then "cancelled" else "failed"
      (.ok (), { s with leases := s.leases.step clock (.revokeRequest lease reason) }, t)
    | .error _ => (.ok (), { s with leases := s.leases.step clock (.revokeRequest lease "failed") }, t)

/-- Any call on the leases: a deadline that is noticed, a cancellation, another scope. -/
def call (call : LeaseCall T) : Act T Unit :=
  assign fun s => { s with leases := s.leases.step clock call }

end Act

def refuse {α : Type} (code : String) : Code T α := .raise (.boundary code)

def refuseIf (c : Prop) [Decidable c] (code : String) : Code T Unit := .raiseIf c (.boundary code)

/-- `except Exception: raise GovernanceBoundaryError(code)` around a question. -/
def asked (code : String) : Code T Unit :=
  Prog.mapError (.perform Act.ask) fun e => pure (asBoundary code e)

variable [LinearOrder T] (clock : Clock T)

/-! ## Callers -/

/-- `_validate_caller` -/
def validateCaller (who : Position) (sessionId : String) : Code T SessionWriteContext :=
  match who.session with
  | none => refuse "governance.caller_entry_invalid"
  | some source => do
    let lease ← .perform (Act.lease source.lease)
    refuseIf (¬ (lease.any fun l => l.parent.isNone && l.deadline.isSome))
      "governance.caller_entry_invalid"
    let active ← .perform (Act.look clock source.lease)
    refuseIf (!active ∨ source.task = none ∨ !source.ownedBy who.toCaller ∨ sessionId ≠ source.sessionId)
      "governance.caller_entry_invalid"
    let database ← Prog.mapError (.perform Act.resolve) fun e =>
      pure (asBoundary "governance.caller_entry_invalid" e)
    refuseIf (database ≠ source.database) "governance.caller_entry_invalid"
    return source

/-- `caller_scope` around its body. -/
def callerScope (who : Position) (sessionId : String) : Code T Unit := do
  let source ← validateCaller clock who sessionId
  refuseIf who.entry "governance.caller_entry_invalid"
  .perform (Act.aim (request source))
  let k ← .perform (Act.claimCaller clock source)
  asked "governance.audit_unavailable"
  (do
    .perform Act.callLater
    .perform (Act.enterBody k)
    Prog.perform Act.body : Code T Unit).andThen fun r =>
      (Prog.perform (Act.leaveScope clock source.lease r)).andThen fun _ => .done r

/-! ## Scheduled functions -/

/-- `except Exception: lease.active = False; raise GovernanceBoundaryError(code)` -/
def orDeactivate {α : Type} (lease : Nat) (code : String) (p : Code T α) : Code T α :=
  Prog.mapError p fun
    | .interrupt => pure .interrupt
    | _ => do
      .perform (Act.deactivate lease)
      return .boundary code

/-- `schedule` -/
def schedule (who : Position) (function : Function) : Code T Unit :=
  match who.session with
  | none => refuse "governance.session_handoff_invalid"
  | some source => do
    let active ← .perform (Act.look clock source.lease)
    refuseIf (!active) "governance.session_handoff_invalid"
    let lease ← .perform (Act.lease source.lease)
    refuseIf (¬ (lease.any fun l => l.parent.isNone) ∨ source.task = none ∨
      !source.ownedBy who.toCaller ∨ !function.sync) "governance.session_handoff_invalid"
    let i ← .perform (Act.claimTask clock source function)
    let lease ← .perform (Act.derive source.lease)
    orDeactivate lease "governance.audit_unavailable" (.perform Act.ask)
    orDeactivate lease "governance.session_task_failed" (.perform (Act.createTask i lease))

/-- `_bind_session_handoff` around a body, which gets the leases as the last check left them and
the lease of the new context. -/
def bindSessionHandoff (task : Option Nat) (source : SessionWriteContext) (parent : Nat)
    (body : Leases T → Nat → Code T Unit) : Code T Unit := do
  let active ← .perform (Act.lookSource clock task source.lease)
  refuseIf (!active) "governance.session_handoff_expired"
  let (active, leases) ← .perform (Act.check clock parent)
  refuseIf (!active) "governance.session_handoff_expired"
  let lease ← .perform (Act.derive parent)
  Prog.ensuring (body leases lease) (.perform (Act.deactivate lease))

variable [Add T]

/-- `_receive`, the coroutine of a scheduled function. -/
def receive (who : Position) (i : Nat) : Code T Unit := do
  let (source, lease, _) ← .perform (Act.begin i)
  (bindSessionHandoff clock (some i) source lease fun _ child => do
    .perform (Act.select i { source with threadId := who.thread, task := who.task, lease := child })
    .perform (Act.hand i)
    .perform Act.body).andThen fun r =>
      (Prog.perform (Act.revokeRequest clock lease r)).andThen fun _ =>
        (Prog.perform (Act.deactivate lease)).andThen fun _ => .done r

/-! ## Handoffs -/

/-- `execute` -/
def execute (who : Position) (h : Nat) (function : Function) : Code T Unit := do
  let x ← .perform (Act.handoff h)
  refuseIf (function ≠ x.function ∨ who.session ≠ some x.source ∨ !x.source.ownedBy who.toCaller)
    "governance.session_handoff_invalid"
  let active ← .perform (Act.look clock x.lease)
  refuseIf (!active) "governance.session_handoff_invalid"
  .perform (Act.use h)
  Prog.ensuring (Prog.mapError (do
      asked "governance.audit_unavailable"
      .perform Act.body) fun e => pure (match e with
        | .boundary code => .boundary code
        | e => asBoundary "governance.session_executor_failed" e))
    (.perform (Act.leave h x.lease))

/-- `execute` of the resolver. -/
def resolve (who : Position) (function : Function) (args : Bool) : Code T Unit := do
  .perform (Act.selected who function)
  refuseIf args "governance.session_handoff_invalid"
  let h ← .perform (Act.construct clock who function)
  execute clock who h function

/-- `_invoke` -/
def invoke (who : Position) (h : Nat) : Code T Unit := do
  let x ← .perform (Act.receive h who)
  bindSessionHandoff clock none x.source x.lease fun leases _ => do
    .perform (Act.start h who leases)
    .perform Act.body

/-! ## The threads -/

inductive Task (T : Type) where
  | caller (who : Position) (sessionId : String)
  | schedule (who : Position) (function : Function)
  | receive (who : Position) (task : Nat)
  | construct (who : Position) (function : Function)
  | resolve (who : Position) (function : Function) (args : Bool)
  | execute (who : Position) (handoff : Nat) (function : Function)
  | invoke (who : Position) (handoff : Nat)
  | lease (call : LeaseCall T)
  deriving Repr

def threads : System Choice (Shared T) Thread Raised (Task T) Unit where
  prog
    | .caller who sessionId => callerScope clock who sessionId
    | .schedule who function => schedule clock who function
    | .receive who i => receive clock who i
    | .construct who function => do
      let _ ← .perform (Act.construct clock who function)
      return ()
    | .resolve who function args => resolve clock who function args
    | .execute who h function => execute clock who h function
    | .invoke who h => invoke clock who h
    | .lease call => .perform (Act.call clock call)
  enter t := { t with claiming := none }
  die s t := (s, { t with claiming := none })

end

end ProjectMaya.Handoff
