import ProjectMaya.Documents
import ProjectMaya.Logic.Hosts

/-! # The agent facade

An `Agent` takes an `AgentRuntime` through its lifecycle.  Threads share the agent; what they do
under `_lock` they do one after another, and `run` calls the runtime after it has left the lock.
The runtime is a record of programs, so one model of the facade serves every runtime. -/

namespace ProjectMaya.Facade

open Logic

inductive AgentState where
  | created
  | starting
  | running
  | stopping
  | stopped
  | failed
  deriving DecidableEq, Repr

def AgentState.value : AgentState → String
  | .created => "created"
  | .starting => "starting"
  | .running => "running"
  | .stopping => "stopping"
  | .stopped => "stopped"
  | .failed => "failed"

/-- The exceptions of the facade, and those of a runtime and of what it calls. -/
inductive Exn where
  | runtimeNotConfigured (message : String)
  | runtimeCompatibility (reason : String)
  | agentLifecycle (message : String)
  | agentStart (message : String)
  | agentNotRunning (message : String)
  | hermesUnavailable (message : String)
  | typeError (message : String)
  | valueError (message : String)
  /-- any other `Exception`, with its `str` -/
  | failure (message : String)
  /-- a `BaseException` that is no `Exception` -/
  | interrupt
  /-- No exception: the thread waits for a lock for ever. -/
  | blocked
  deriving DecidableEq, Repr

/-- `str(e)` -/
def Exn.message : Exn → String
  | .runtimeNotConfigured m | .runtimeCompatibility m | .agentLifecycle m | .agentStart m
  | .agentNotRunning m | .hermesUnavailable m | .typeError m | .valueError m | .failure m => m
  | .interrupt | .blocked => ""

/-- `isinstance(e, Exception)` -/
def Exn.isException : Exn → Bool
  | .interrupt | .blocked => false
  | _ => true

structure RuntimeCompatibility where
  runtimeName : String
  runtimeVersion : String
  supportedContract : String
  compatible : Bool
  reason : Option String := none
  deriving DecidableEq, Repr

/-- A `dict` from names to objects or `None`, in insertion order. -/
abbrev Plugins (O : Type) := List (String × Option O)

namespace Plugins

variable {O : Type}

def has (d : Plugins O) (name : String) : Bool := (d.map Prod.fst).contains name

/-- `d[name] = plugin` -/
def set (d : Plugins O) (name : String) (plugin : Option O) : Plugins O :=
  if d.has name then d.map fun item => if item.1 = name then (name, plugin) else item
  else d ++ [(name, plugin)]

end Plugins

/-- The attributes of an `Agent` that change. -/
structure Fields (O : Type) where
  memoryProvider : Option O := none
  pendingPlugins : Plugins O := []
  loadedPlugins : Plugins O := []
  state : AgentState := .created
  deriving DecidableEq, Repr

/-- What the threads share.  `entering`, the threads that have passed the check of `run` and not
called the runtime since, is history. -/
structure Shared (O R : Type) where
  agent : Fields O := {}
  holder : Option Nat := none
  entering : List Nat := []
  runtime : R
  deriving Repr

section

variable {F O R : Type}

/-- The local state is the thread's number. -/
abbrev Act (F O R β : Type) := Action F (Shared O R) Nat Exn β

abbrev Code (F O R α : Type) := Prog F (Shared O R) Nat Exn α

/-- The contract `AgentRuntime`. -/
structure AgentRuntime (F O R : Type) : Type 1 where
  compatibility : Code F O R RuntimeCompatibility
  attachMemory (memoryProvider : O) : Code F O R Unit
  loadPlugin (name : String) (plugin : Option O) : Code F O R Unit
  start (agentName : String) : Code F O R Unit
  run (request : String) (kwargs : List (String × O)) : Code F O R (Option O)
  stop : Code F O R Unit

/-- What `_runtime` is. -/
inductive Configured where
  | none
  /-- an object without the methods of `AgentRuntime` -/
  | foreign
  | runtime
  deriving DecidableEq, Repr

/-- The attributes of an `Agent` that stay, with the `repr` of its name; `runtime` counts when it is
configured. -/
structure Agent (F O R : Type) : Type 1 where
  name : String := "project_maya.agent"
  quotedName : String := "'project_maya.agent'"
  configured : Configured := .runtime
  runtime : AgentRuntime F O R

namespace Act

/-- `self._lock.__enter__()`.  The turn of a thread that waits for the lock comes when it gets it;
one that takes its turn earlier never does. -/
def acquire : Act F O R Unit where
  next _ s p :=
    match s.holder with
    | none => (.ok (), { s with holder := some p }, p)
    | some _ => (.error .blocked, s, p)

/-- `self._lock.__exit__()` -/
def release : Act F O R Unit where
  next _ s p := (.ok (), { s with holder := none }, p)

/-- An attribute is read. -/
def get {β : Type} (field : Fields O → β) : Act F O R β where
  next _ s p := (.ok (field s.agent), s, p)

/-- Attributes are assigned. -/
def modify (f : Fields O → Fields O) : Act F O R Unit where
  next _ s p := (.ok (), { s with agent := f s.agent }, p)

/-- `self._state = state` -/
def set (state : AgentState) : Act F O R Unit := modify fun a => { a with state }

/-- The check of `run` is passed. -/
def pass : Act F O R Unit where
  next _ s p := (.ok (), { s with entering := p :: s.entering }, p)

end Act

/-- `with self._lock: body` -/
def locked {α : Type} (body : Code F O R α) : Code F O R α := do
  .perform Act.acquire
  Prog.ensuring body (.perform Act.release)

/-- `try: p; except Exception: pass` -/
def suppressed (p : Code F O R Unit) : Code F O R Unit :=
  p.andThen fun
    | .ok () => pure ()
    | .error e => .raiseIf (¬ e.isException) e

/-- `try: p; except Exception as e: handler; raise f(e)` -/
def rescue {α : Type} (p : Code F O R α) (handler : Code F O R Unit) (f : Exn → Exn) : Code F O R α :=
  p.mapError fun e =>
    if e.isException then do
      handler
      return f e
    else return e

namespace Agent

variable (self : Agent F O R)

/-- `_require_runtime` -/
def requireRuntime : Code F O R Unit :=
  match self.configured with
  | .none => .raise (.runtimeNotConfigured
      "no execution runtime configured; supply a Hermes AgentRuntime adapter")
  | .foreign => .raise (.typeError "runtime does not implement the AgentRuntime contract")
  | .runtime => pure ()

/-- `_require_configurable` -/
def requireConfigurable (operation : String) : Code F O R Unit := do
  let state ← .perform (Act.get Fields.state)
  .raiseIf (state ≠ .created) (.agentLifecycle ("cannot " ++ operation ++ " while agent is " ++ state.value))

/-- `attach_memory`; `none` is `None`. -/
def attachMemory (memoryProvider : Option O) : Code F O R Unit := do
  .raiseIf (memoryProvider.isNone) (.typeError "memory_provider cannot be None")
  locked do
    requireConfigurable "attach memory"
    .perform (Act.modify fun a => { a with memoryProvider })

/-- `load_plugin`, once the name is checked. -/
def loadPluginIn (state : AgentState) (name : String) (plugin : Option O) : Code F O R Unit :=
  if state = .created then
    .perform (Act.modify fun a => { a with pendingPlugins := a.pendingPlugins.set name plugin })
  else do
    self.requireRuntime
    self.runtime.loadPlugin name plugin
    .perform (Act.modify fun a => { a with loadedPlugins := a.loadedPlugins.set name plugin })

def loadPlugin (name : String) (plugin : Option O) : Code F O R Unit := do
  .raiseIf (Vector.strip name.toList = []) (.valueError "plugin name cannot be empty")
  locked do
    let state ← .perform (Act.get Fields.state)
    .raiseIf (state ∈ [AgentState.starting, .stopping, .stopped, .failed])
      (.agentLifecycle ("cannot load plugin while agent is " ++ state.value))
    let known ← .perform (Act.get fun a => a.pendingPlugins.has name || a.loadedPlugins.has name)
    .raiseIf known (.valueError ("plugin already configured: " ++ name))
    self.loadPluginIn state name plugin

/-- The reason that `RuntimeCompatibilityError` gives. -/
def incompatible (c : RuntimeCompatibility) : String :=
  match c.reason with
  | some reason => if reason = "" then "incompatible runtime: " ++ c.runtimeName else reason
  | none => "incompatible runtime: " ++ c.runtimeName

/-- `if self._memory_provider is not None: runtime.attach_memory(self._memory_provider)` -/
def attach : Option O → Code F O R Unit
  | none => pure ()
  | some memoryProvider => self.runtime.attachMemory memoryProvider

/-- The loop over `_pending_plugins`. -/
def loadPending : Plugins O → Code F O R Unit
  | [] => pure ()
  | (name, plugin) :: plugins => do
    self.runtime.loadPlugin name plugin
    loadPending plugins

/-- The body of the `try` statement of `start`. -/
def configure : Code F O R Unit := do
  let compatibility ← self.runtime.compatibility
  .raiseIf (!compatibility.compatible) (.runtimeCompatibility (incompatible compatibility))
  let memoryProvider ← .perform (Act.get Fields.memoryProvider)
  self.attach memoryProvider
  let plugins ← .perform (Act.get Fields.pendingPlugins)
  self.loadPending plugins
  self.runtime.start self.name

/-- The handler of `start`. -/
def rollback : Code F O R Unit := do
  suppressed self.runtime.stop
  .perform (Act.set .failed)

/-- The plugins of `start` are loaded: `_pending_plugins` is moved. -/
def loaded (a : Fields O) : Fields O :=
  { a with
    loadedPlugins := a.pendingPlugins.foldl (fun d item => d.set item.1 item.2) a.loadedPlugins
    pendingPlugins := [] }

def start : Code F O R Unit := locked do
  let state ← .perform (Act.get Fields.state)
  .raiseIf (state ≠ .created) (.agentLifecycle ("cannot start agent while it is " ++ state.value))
  self.requireRuntime
  .perform (Act.set .starting)
  rescue self.configure self.rollback fun _ => .agentStart ("failed to start agent " ++ self.quotedName)
  .perform (Act.modify loaded)
  .perform (Act.set .running)

/-- What `run` does under the lock. -/
def checkRunning : Code F O R Unit := do
  let state ← .perform (Act.get Fields.state)
  .raiseIf (state ≠ .running) (.agentNotRunning ("cannot run request while agent is " ++ state.value))
  self.requireRuntime
  .perform Act.pass

def run (request : String) (kwargs : List (String × O)) : Code F O R (Option O) := do
  locked self.checkRunning
  self.runtime.run request kwargs

/-- `stop` of an agent that is neither stopped nor new. -/
def stopRunning (state : AgentState) : Code F O R Unit := do
  .raiseIf (state ≠ .running) (.agentLifecycle ("cannot stop agent while it is " ++ state.value))
  self.requireRuntime
  .perform (Act.set .stopping)
  rescue self.runtime.stop (.perform (Act.set .failed)) fun e => e
  .perform (Act.set .stopped)

def stop : Code F O R Unit := locked do
  let state ← .perform (Act.get Fields.state)
  match state with
  | .stopped => pure ()
  | .created => .perform (Act.set .stopped)
  | state => self.stopRunning state

end Agent

/-- A call of a method of the agent. -/
inductive Call (O : Type) where
  | attachMemory (memoryProvider : Option O)
  | loadPlugin (name : String) (plugin : Option O)
  | start
  | run (request : String) (kwargs : List (String × O))
  | stop
  deriving DecidableEq, Repr

def Agent.call (self : Agent F O R) : Call O → Code F O R (Option O)
  | .attachMemory memoryProvider => do
    attachMemory memoryProvider
    return none
  | .loadPlugin name plugin => do
    self.loadPlugin name plugin
    return none
  | .start => do
    self.start
    return none
  | .run request kwargs => self.run request kwargs
  | .stop => do
    self.stop
    return none

/-- Any number of threads that call one agent.  A thread that dies leaves all as it is. -/
def threads (self : Agent F O R) : System F (Shared O R) Nat Exn (Call O) (Option O) where
  prog := self.call
  enter p := p
  die s p := (s, p)

end

end ProjectMaya.Facade
