import ProjectMaya.Agent

/-! # The adapter to a Hermes runtime

`HermesRuntimeAdapter` is an `AgentRuntime` over a native runtime that a factory makes.  The guard,
the import of the factory, the factory and the objects that it makes are the environment: what they
answer is given, for the calls that came before (`Environment`). -/

namespace ProjectMaya.Facade

open Logic

/-- The methods of a native runtime that the adapter looks for. -/
inductive Attr where
  | attachMemory
  | loadPlugin
  | start
  | run
  | stop
  deriving DecidableEq, Repr

/-- A call of a native runtime. -/
inductive NativeCall (O : Type) where
  | attachMemory (memoryProvider : O)
  | loadPlugin (name : String) (plugin : Option O)
  | start (agentName : String)
  | run (request : String) (kwargs : List (String × O))
  | stop
  deriving DecidableEq, Repr

def NativeCall.attr {O : Type} : NativeCall O → Attr
  | .attachMemory _ => .attachMemory
  | .loadPlugin _ _ => .loadPlugin
  | .start _ => .start
  | .run _ _ => .run
  | .stop => .stop

/-- What the adapter raises when the native runtime has no method for the call. -/
def NativeCall.missing {O : Type} : NativeCall O → Exn
  | .attachMemory _ => .hermesUnavailable "Hermes runtime cannot attach memory"
  | .loadPlugin _ _ => .hermesUnavailable "Hermes runtime cannot load plugins"
  | .start _ => .hermesUnavailable "Hermes runtime cannot start"
  | .run _ _ => .hermesUnavailable "Hermes runtime cannot execute requests"
  | .stop => .failure ""

/-- What a factory returns: its attributes, whether it has `chat` or `run_conversation`, and what it
answers to a call after earlier ones; `wrapped` is what it answers under `HermesAIAgentRuntime`. -/
structure Native (O : Type) where
  has : Attr → Bool
  chats : Bool := false
  answer : List (NativeCall O) → NativeCall O → Except Exn (Option O)
  wrapped : List (NativeCall O) → NativeCall O → Except Exn (Option O) := answer

/-- `HermesAIAgentRuntime(runtime)`: a class with all the methods but `load_plugin`. -/
def Native.hermesAIAgentRuntime {O : Type} (n : Native O) : Native O where
  has attr := attr ≠ .loadPlugin
  answer := n.wrapped

/-- `_normalize_hermes_runtime` -/
def Native.normalize {O : Type} (n : Native O) : Native O :=
  if n.has .start && n.has .run && n.has .stop then n
  else if n.chats then n.hermesAIAgentRuntime
  else n

/-- A native runtime that has been built, with the calls it has had, oldest first. -/
structure Built (O : Type) where
  native : Native O
  calls : List (NativeCall O) := []

inductive Keyword (O : Type) where
  | text (value : String)
  | object (value : O)

abbrev Kwargs (O : Type) := List (String × Keyword O)

/-- `kwargs.setdefault("agent_name", agent_name)` -/
def withAgentName {O : Type} (kwargs : Kwargs O) (agentName : String) : Kwargs O :=
  if (kwargs.map Prod.fst).contains "agent_name" then kwargs
  else kwargs ++ [("agent_name", .text agentName)]

/-- `kwargs.pop("agent_name", None)` -/
def withoutAgentName {O : Type} (kwargs : Kwargs O) : Kwargs O :=
  kwargs.filter fun item => item.1 ≠ "agent_name"

/-- An object that is taken for the factory. -/
structure Factory where
  callable : Bool := true
  deriving DecidableEq, Repr

/-- What lies outside the adapter.  `guard` and `factory` answer by how often they were called
before. -/
structure Environment (O : Type) where
  guard : Nat → Except Exn Unit := fun _ => .ok ()
  importModule : String → String → Except Exn Factory := fun _ _ => .ok {}
  factory : Nat → Kwargs O → Except Exn (Native O)

/-- The attributes of the adapter that stay. -/
structure Hermes (O : Type) where
  factoryPath : String := "run_agent:AIAgent"
  runtimeVersion : String := "unknown"
  supportedContract : String := "project-maya.agent-runtime.v1"
  factoryKwargs : Kwargs O := []
  startupGuard : Bool := false

/-- The attributes of the adapter that change.  `_runtime` is an index into `objects`, the native
runtimes built so far; these and the two counts are history. -/
structure Adapter (O : Type) where
  factory : Option Factory := none
  runtime : Option Nat := none
  pendingMemory : List O := []
  pendingPlugins : Plugins O := []
  startupError : Option String := none
  started : Bool := false
  objects : List (Built O) := []
  guardCalls : Nat := 0
  factoryCalls : Nat := 0

section

variable {O β : Type}

abbrev HermesAct (O β : Type) := Act (Environment O) O (Adapter O) β

abbrev HermesCode (O α : Type) := Code (Environment O) O (Adapter O) α

namespace HermesAct

def get (field : Adapter O → β) : HermesAct O β where
  next _ s p := (.ok (field s.runtime), s, p)

def modify (f : Adapter O → Adapter O) : HermesAct O Unit where
  next _ s p := (.ok (), { s with runtime := f s.runtime }, p)

/-- `self._startup_guard()` -/
def guard : HermesAct O Unit where
  next w s p :=
    (w.guard s.runtime.guardCalls,
      { s with runtime := { s.runtime with guardCalls := s.runtime.guardCalls + 1 } }, p)

/-- `getattr(import_module(module_name), attr_name)` -/
def importModule (moduleName attrName : String) : HermesAct O Factory where
  next w s p := (w.importModule moduleName attrName, s, p)

/-- `factory(**kwargs)` -/
def factory (kwargs : Kwargs O) : HermesAct O (Native O) where
  next w s p :=
    (w.factory s.runtime.factoryCalls kwargs,
      { s with runtime := { s.runtime with factoryCalls := s.runtime.factoryCalls + 1 } }, p)

/-- The object that `_build_runtime` returns. -/
def allocate (n : Native O) : HermesAct O Nat where
  next _ s p :=
    (.ok s.runtime.objects.length,
      { s with runtime := { s.runtime with objects := s.runtime.objects ++ [{ native := n }] } }, p)

/-- `hasattr(runtime, …)` -/
def hasattr (i : Nat) (attr : Attr) : HermesAct O Bool :=
  get fun a => (a.objects[i]?.map fun o => o.native.has attr).getD false

/-- A method of a native runtime. -/
def call (i : Nat) (c : NativeCall O) : HermesAct O (Option O) where
  next _ s p :=
    ((s.runtime.objects[i]?.map fun o => o.native.answer o.calls c).getD (.ok none),
      { s with runtime := { s.runtime with
          objects := s.runtime.objects.modify i fun o => { o with calls := o.calls ++ [c] } } }, p)

end HermesAct

namespace Hermes

variable (config : Hermes O)

/-- `if self._startup_guard is not None: self._startup_guard()` -/
def guard : HermesCode O Unit :=
  if config.startupGuard then .perform HermesAct.guard else pure ()

/-- `path.partition(":")`, where the separator is there. -/
def partition (path : String) : Option (String × String) :=
  match path.toList.span (· ≠ ':') with
  | (_, []) => none
  | (moduleName, _ :: attrName) => some (String.ofList moduleName, String.ofList attrName)

/-- `_resolve_factory` of a factory that is not known yet. -/
def importFactory : HermesCode O Factory :=
  match partition config.factoryPath with
  | none => .raise (.hermesUnavailable "factory_path must use 'module:attribute' format")
  | some (moduleName, attrName) => do
    .raiseIf (moduleName = "" ∨ attrName = "")
      (.hermesUnavailable "factory_path must use 'module:attribute' format")
    let factory ← .perform (HermesAct.importModule moduleName attrName)
    .raiseIf (!factory.callable) (.hermesUnavailable (config.factoryPath ++ " is not callable"))
    .perform (HermesAct.modify fun a => { a with factory := some factory })
    return factory

/-- `_resolve_factory` -/
def resolveFactory : HermesCode O Factory := do
  let known ← .perform (HermesAct.get Adapter.factory)
  match known with
  | some factory => pure factory
  | none => config.importFactory

/-- The answer of `compatibility`. -/
def report (compatible : Bool) (reason : Option String) : RuntimeCompatibility where
  runtimeName := "hermes-agent"
  runtimeVersion := config.runtimeVersion
  supportedContract := config.supportedContract
  compatible
  reason

def compatibility : HermesCode O RuntimeCompatibility :=
  (do config.guard; config.resolveFactory).andThen fun
    | .ok factory =>
      if factory.callable then pure (config.report true none)
      else pure (config.report false (some "Hermes runtime factory is not callable"))
    | .error e =>
      if e.isException then
        pure (config.report false (some ("Hermes runtime factory unavailable: " ++ e.message)))
      else .raise e

/-- A call of the native runtime, if it has the method. -/
def request (i : Nat) (c : NativeCall O) : HermesCode O (Option O) := do
  let has ← .perform (HermesAct.hasattr i c.attr)
  .raiseIf (!has) c.missing
  .perform (HermesAct.call i c)

def attachMemory (memoryProvider : O) : HermesCode O Unit := do
  let known ← .perform (HermesAct.get Adapter.runtime)
  match known with
  | none => .perform (HermesAct.modify fun a =>
      { a with pendingMemory := a.pendingMemory ++ [memoryProvider] })
  | some i => do
    let _ ← request i (.attachMemory memoryProvider)
    return ()

def loadPlugin (name : String) (plugin : Option O) : HermesCode O Unit := do
  let known ← .perform (HermesAct.get Adapter.runtime)
  match known with
  | none => .perform (HermesAct.modify fun a =>
      { a with pendingPlugins := a.pendingPlugins ++ [(name, plugin)] })
  | some i => do
    let _ ← request i (.loadPlugin name plugin)
    return ()

/-- `factory(**kwargs)`; what cannot be called raises a `TypeError`. -/
def callFactory (factory : Factory) (kwargs : Kwargs O) : HermesCode O (Native O) := do
  .raiseIf (!factory.callable) (.typeError "object is not callable")
  .perform (HermesAct.factory kwargs)

/-- The factory, without `agent_name` when it does not take it. -/
def construct (factory : Factory) (kwargs : Kwargs O) : HermesCode O (Native O) :=
  (callFactory factory kwargs).andThen fun
    | .ok native => pure native
    | .error (.typeError _) => callFactory factory (withoutAgentName kwargs)
    | .error e => .raise e

/-- `_build_runtime` -/
def buildRuntime (agentName : String) : HermesCode O Nat := do
  config.guard
  let factory ← config.resolveFactory
  let native ← construct factory (withAgentName config.factoryKwargs agentName)
  .perform (HermesAct.allocate native.normalize)

/-- One call after the other. -/
def requests (i : Nat) : List (NativeCall O) → HermesCode O Unit
  | [] => pure ()
  | c :: calls => do
    let _ ← request i c
    requests i calls

/-- The native runtime that `start` uses. -/
def obtain (agentName : String) : HermesCode O Nat := do
  let known ← .perform (HermesAct.get Adapter.runtime)
  match known with
  | some i => pure i
  | none => config.buildRuntime agentName

/-- The native runtime has started. -/
def record (i : Nat) (a : Adapter O) : Adapter O :=
  { a with runtime := some i, pendingMemory := [], pendingPlugins := [], started := true
           startupError := none }

/-- The pending memory providers and plugins go to the native runtime, and it starts. -/
def install (i : Nat) (agentName : String) : HermesCode O Unit := do
  let memory ← .perform (HermesAct.get Adapter.pendingMemory)
  requests i (memory.map .attachMemory)
  let plugins ← .perform (HermesAct.get Adapter.pendingPlugins)
  requests i (plugins.map fun item => .loadPlugin item.1 item.2)
  let _ ← request i (.start agentName)
  return ()

/-- The body of the `try` statement of `start`. -/
def launch (agentName : String) : HermesCode O Unit := do
  let i ← config.obtain agentName
  install i agentName
  .perform (HermesAct.modify (record i))

def start (agentName : String) : HermesCode O Unit :=
  (config.launch agentName).mapError fun e =>
    if e.isException then do
      .perform (HermesAct.modify fun a => { a with startupError := some e.message })
      return e
    else return e

/-- `_require_runtime` -/
def requireRuntime : HermesCode O Nat := do
  let known ← .perform (HermesAct.get Adapter.runtime)
  match known with
  | some i => pure i
  | none => do
    let i ← config.buildRuntime "project_maya.agent"
    .perform (HermesAct.modify fun a => { a with runtime := some i })
    return i

def run (req : String) (kwargs : List (String × O)) : HermesCode O (Option O) := do
  let i ← config.requireRuntime
  request i (.run req kwargs)

/-- `if self._runtime is not None and hasattr(self._runtime, "stop"): self._runtime.stop()` -/
def stopNative : Option Nat → HermesCode O Unit
  | none => pure ()
  | some i => do
    let has ← .perform (HermesAct.hasattr i .stop)
    if has then do
      let _ ← .perform (HermesAct.call i .stop)
      return ()
    else return ()

def stop : HermesCode O Unit := do
  let known ← .perform (HermesAct.get Adapter.runtime)
  stopNative known
  .perform (HermesAct.modify fun a => { a with started := false })

/-- The adapter as the runtime of an agent. -/
def agentRuntime : AgentRuntime (Environment O) O (Adapter O) where
  compatibility := config.compatibility
  attachMemory := attachMemory
  loadPlugin := loadPlugin
  start := config.start
  run := config.run
  stop := stop

end Hermes

end

end ProjectMaya.Facade
