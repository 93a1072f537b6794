import ProjectMaya.Logic.Assoc
import ProjectMaya.Logic.Hosts

/-! # The memory registry

`MemoryRegistry.add_entry`, called by any number of processes on one registry directory. A call
takes the lock, reads the registry, puts its entry in, writes a temporary file, replaces the
registry by it, and removes the temporary file where it is still there. Every step can raise,
before or after it has had its effect. -/

namespace ProjectMaya.Registry

open Logic

/-! ## Entries -/

/-- The keys of `metadata` that are read; `none` where a key is absent, or its value is `None`. -/
structure Metadata where
  chunkId : Option String := none
  embeddingPath : Option String := none
  sourcePath : Option String := none
  sourceHash : Option String := none
  model : Option String := none
  provider : Option String := none
  vectorDim : Option Nat := none
  extractorVersion : Option String := none
  embeddingTimestamp : Option String := none
  deriving DecidableEq, Repr

structure Entry where
  chunkId : String
  embeddingPath : String
  sourcePath : Option String
  sourceHash : Option String
  model : Option String
  provider : Option String
  vectorDim : Option Nat
  extractorVersion : Option String
  embeddingTimestamp : Option String
  deriving DecidableEq, Repr

/-- What the registry file holds: chunk ids and their entries. -/
abbrev Entries := Assoc String Entry

inductive Exn where
  | value (message : String)
  /-- Some other `Exception`. -/
  | exception
  /-- A `BaseException` that is no `Exception`. -/
  | interrupt
  /-- The call still waits for the lock. -/
  | waiting
  deriving DecidableEq, Repr

/-- The checks of `add_entry`, and the entry it builds. -/
def entryOf (metadata : Metadata) : Except Exn Entry :=
  match metadata.chunkId, metadata.embeddingPath with
  | none, _ => .error (.value "metadata must include chunk_id")
  | some _, none => .error (.value "metadata must include embedding_path")
  | some cid, some path =>
    .ok { chunkId := cid, embeddingPath := path, sourcePath := metadata.sourcePath,
          sourceHash := metadata.sourceHash, model := metadata.model,
          provider := metadata.provider, vectorDim := metadata.vectorDim,
          extractorVersion := metadata.extractorVersion,
          embeddingTimestamp := metadata.embeddingTimestamp }

/-! ## The directory -/

/-- What a file holds: the JSON text of a registry, or something that is no JSON. -/
inductive Content where
  | registry (entries : Entries)
  | torn
  deriving DecidableEq, Repr

/-- One taking of the lock: by whom, for which entry, and whether that is in the file yet. -/
structure Taking where
  process : Nat
  entry : Entry
  applied : Bool
  deriving DecidableEq, Repr

/-- The registry directory. `file` is `memory_registry.json`; `holder` has the exclusive lock;
`temps` are the temporary files, `fresh` is the next name that `mkstemp` finds unused.
`takings`, in the order in which the lock was taken, is history. -/
structure Directory where
  file : Option Content := none
  holder : Option Nat := none
  temps : Assoc Nat Content := []
  fresh : Nat := 0
  takings : List Taking := []
  deriving DecidableEq, Repr

/-- A process; `ticket`, the place of its call in `takings`, is history. -/
structure Process where
  id : Nat
  ticket : Option Nat := none
  deriving DecidableEq, Repr

/-- What happens at a step: nothing special; it raises before its effect, or after it; for the
lock, a reader has it. -/
inductive Choice where
  | go
  | fail (e : Exn)
  | late (e : Exn)
  | shared
  deriving DecidableEq, Repr

instance : Inhabited Choice := ⟨.go⟩

abbrev Act (β : Type) := Action Choice Directory Process Exn β

abbrev Code (α : Type) := Prog Choice Directory Process Exn α

namespace Act

/-- A step with the given value and effect. -/
def effect {β : Type} (f : Directory → Process → β × Directory × Process) : Act β where
  next c s l :=
    match c with
    | .fail e => (.error e, s, l)
    | .late e => (.error e, (f s l).2)
    | _ => (.ok (f s l).1, (f s l).2)

/-- `os.makedirs`, `open`, `os.fdopen`: nothing changes that is in the model. -/
def prepare : Act Unit := effect fun s l => ((), s, l)

def takeLock (entry : Entry) (s : Directory) (l : Process) : Directory × Process :=
  ({ s with holder := some l.id, takings := s.takings ++ [⟨l.id, entry, false⟩] },
    { l with ticket := some s.takings.length })

/-- `fcntl.flock(lockf, fcntl.LOCK_EX)` looks at the lock: is it taken now? -/
def lock (entry : Entry) : Act Bool where
  next c s l :=
    match c, s.holder with
    | .fail e, _ => (.error e, s, l)
    | .shared, _ => (.ok false, s, l)
    | _, some _ => (.ok false, s, l)
    | .late e, none => (.error e, takeLock entry s l)
    | .go, none => (.ok true, takeLock entry s l)

def release (s : Directory) (l : Process) : Directory :=
  if s.holder = some l.id then { s with holder := none } else s

/-- `fcntl.flock(lockf, fcntl.LOCK_UN)` -/
def unlock : Act Unit := effect fun s l => ((), release s l, l)

/-- The end of `with open(…) as lockf`: the lock goes with the file, whatever `close` raises. -/
def close : Act Unit where
  next c s l :=
    match c with
    | .fail e => (.error e, release s l, l)
    | .late e => (.error e, release s l, l)
    | _ => (.ok (), release s l, l)

/-- `_load`: a file that is no JSON counts as empty. -/
def load : Act Entries := effect fun s l =>
  (match s.file with
    | some (.registry entries) => entries
    | _ => [], s, l)

/-- `tempfile.mkstemp` -/
def mkstemp : Act Nat := effect fun s l =>
  (s.fresh, { s with temps := s.temps.set s.fresh .torn, fresh := s.fresh + 1 }, l)

/-- A part of `json.dump` has reached the file `tmp`. -/
def dumpPart (tmp : Nat) : Act Unit := effect fun s l =>
  ((), { s with temps := s.temps.set tmp .torn }, l)

/-- All of it has, and the file is closed. -/
def dump (tmp : Nat) (entries : Entries) : Act Unit := effect fun s l =>
  ((), { s with temps := s.temps.set tmp (.registry entries) }, l)

def apply (ticket : Option Nat) (takings : List Taking) : List Taking :=
  match ticket with
  | some i => takings.modify i fun t => { t with applied := true }
  | none => takings

def moved (tmp : Nat) (s : Directory) (l : Process) : Directory :=
  { s with file := s.temps.get? tmp, temps := s.temps.filter fun t => t.1 ≠ tmp,
           takings := apply l.ticket s.takings }

/-- `os.replace(tmp, self.path)` -/
def replace (tmp : Nat) : Act Unit where
  next c s l :=
    match c, s.temps.get? tmp with
    | .fail e, _ => (.error e, s, l)
    | _, none => (.error .exception, s, l)
    | .late e, some _ => (.error e, moved tmp s l, l)
    | _, some _ => (.ok (), moved tmp s l, l)

/-- `os.remove(tmp)`, where the file exists. -/
def remove (tmp : Nat) : Act Unit := effect fun s l =>
  ((), { s with temps := s.temps.filter fun t => t.1 ≠ tmp }, l)

end Act

/-- `try: p; except Exception: pass` -/
def suppress (p : Code Unit) : Code Unit :=
  p.andThen fun
    | .ok () => pure ()
    | .error .interrupt => .raise .interrupt
    | .error _ => pure ()

/-- `_save` -/
def save (entries : Entries) : Code Unit := do
  let tmp ← .perform Act.mkstemp
  Prog.ensuring
    (do
      .perform Act.prepare
      .perform (Act.dumpPart tmp)
      .perform (Act.dump tmp entries)
      .perform (Act.replace tmp))
    (suppress (.perform (Act.remove tmp)))

/-- The call waits for the lock; `looks` bounds how often it gets to look at it. -/
def flock (entry : Entry) : Nat → Code Unit
  | 0 => .raise .waiting
  | looks + 1 => .perform (Act.lock entry) >>= fun
    | true => pure ()
    | false => flock entry looks

/-- The critical section. -/
def update (entry : Entry) : Code Unit := do
  let data ← .perform Act.load
  save (data.set entry.chunkId entry)

/-- `MemoryRegistry.add_entry` -/
def addEntry (metadata : Metadata) (looks : Nat) : Code Unit := do
  let entry ← .done (entryOf metadata)
  .perform Act.prepare
  .perform Act.prepare
  Prog.ensuring
    (do
      flock entry looks
      Prog.ensuring (update entry) (suppress (.perform Act.unlock)))
    (.perform Act.close)

structure Call where
  metadata : Metadata
  looks : Nat

/-- The processes that use one registry directory. A crash gives back the lock. -/
def processes : System Choice Directory Process Exn Call Unit where
  prog call := addEntry call.metadata call.looks
  enter l := { l with ticket := none }
  die s l := (Act.release s l, { l with ticket := none })

end ProjectMaya.Registry
