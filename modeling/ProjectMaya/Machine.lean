import ProjectMaya.Memory
import ProjectMaya.Logic.Wp

/-! # What a coordinator can do

The shared state of all hosts is the database, the index file, the operating system's
projection lock, SQLite's writer lock and the audit trail.  A host process has a
connection with at most one open transaction (a working copy of the database), and at
most one temporary file.

Every action can fail, as the environment chooses (`Fault`): before its effect, after it,
and, for a commit, also by closing the transaction without effect. -/

namespace ProjectMaya

open Logic

/-- The exceptions of the code, by the `except` clauses that tell them apart. -/
inductive Raised where
  /-- `GovernanceBoundaryError(code)` -/
  | boundary (code : String)
  /-- `MandatoryMiddlewareError(code)` -/
  | mandatory (code : String)
  /-- `portalocker.exceptions.LockException` -/
  | lockException
  | importError
  /-- any other `Exception` -/
  | failure
  /-- a `BaseException` that is no `Exception` -/
  | interrupt
  deriving DecidableEq, Repr

/-- What the environment does to one action. -/
inductive Fault where
  | none
  /-- The exception comes before the effect. -/
  | fail (e : Raised)
  /-- The effect takes place and then the exception is raised. -/
  | failLate (e : Raised)
  /-- A commit without effect that also closes the transaction. -/
  | abort (e : Raised)
  deriving DecidableEq, Repr

instance : Inhabited Fault := ⟨.none⟩

structure Stores where
  db : Db
  index : Bytes
  deriving DecidableEq

structure Shared where
  stores : Stores
  /-- The process that holds the projection lock. -/
  lock : Option Nat := none
  /-- The process whose transaction is open. -/
  writer : Option Nat := none
  /-- Records written by the hosts' audit sinks. -/
  audit : List AuditRecord := []
  deriving DecidableEq

/-- Which commit, or the release of the projection lock. -/
inductive Purpose where
  | stage | verify | settle | acknowledge | quarantine | release
  deriving DecidableEq, Repr

/-- How one of them ended: whether it took effect, and whether it raised. -/
structure Note where
  purpose : Purpose
  effect : Bool
  raised : Bool
  deriving DecidableEq, Repr

/-- Memory and connection of one host process. -/
structure Process where
  pid : Nat
  tx : Option Db := none
  /-- The bytes of the temporary file, while its name is set. -/
  temp : Option Bytes := none
  foreignKeys : Bool := true
  /-- `commit_attempted` and `committed` of the running `create`. -/
  commitAttempted : Bool := false
  committed : Bool := false
  memory : Memory := {}
  /-- The history of the running call's commits and lock releases; no call reads it. -/
  notes : List Note := []
  deriving DecidableEq

abbrev Act (β : Type) := Action Fault Shared Process Raised β

abbrev Code (α : Type) := Prog Fault Shared Process Raised α

/-- The database as the connection sees it: its own transaction, if one is open. -/
def visible (s : Shared) (l : Process) : Db := l.tx.getD s.stores.db

/-- The operating system after a process has died: its locks are free, its transaction is
rolled back, its memory is gone. -/
def die (s : Shared) (l : Process) : Shared × Process :=
  ({ s with
      lock := if s.lock = some l.pid then none else s.lock
      writer := if s.writer = some l.pid then none else s.writer },
    { pid := l.pid, foreignKeys := l.foreignKeys })

namespace Act

/-- An action with an effect that cannot be refused, at the mercy of the environment. -/
def plain {β : Type} (effect : Shared → Process → β × Shared × Process) : Act β where
  next f s l :=
    match f with
    | .none => let (b, s, l) := effect s l; (.ok b, s, l)
    | .fail e | .abort e => (.error e, s, l)
    | .failLate e => let (_, s, l) := effect s l; (.error e, s, l)

/-- A question to the environment (identity of the objects, paths, policy, authority): it
answers yes, or the code that asks raises. -/
def ask : Act Unit := plain fun s l => ((), s, l)

/-- A value computed from what the process can see. -/
def read {β : Type} (f : Shared → Process → β) : Act β := plain fun s l => (f s l, s, l)

/-- A check that can refuse with an exception of its own. -/
def query {β : Type} (f : Shared → Process → Except Raised β) : Act β where
  next fault s l :=
    match fault with
    | .none => (f s l, s, l)
    | .fail e | .failLate e | .abort e => (.error e, s, l)

/-- An assignment to a local variable. -/
def assign (f : Process → Process) : Act Unit where
  next _ s l := (.ok (), s, f l)

/-- The value of a local variable. -/
def peek {β : Type} (f : Process → β) : Act β where
  next _ s l := (.ok (f l), s, l)

/-- `portalocker.Lock(…, timeout=0, fail_when_locked=True)`. -/
def acquire : Act Unit where
  next f s l :=
    match f with
    | .fail e | .abort e => (.error e, s, l)
    | .none =>
      match s.lock with
      | none => (.ok (), { s with lock := some l.pid }, l)
      | some _ => (.error .lockException, s, l)
    | .failLate e =>
      match s.lock with
      | none => (.error e, { s with lock := some l.pid }, l)
      | some _ => (.error e, s, l)

def note (l : Process) (purpose : Purpose) (effect raised : Bool) : Process :=
  { l with notes := l.notes ++ [⟨purpose, effect, raised⟩] }

/-- The lock file is closed. -/
def release : Act Unit where
  next f s l :=
    let s' := { s with lock := if s.lock = some l.pid then none else s.lock }
    match f with
    | .none => (.ok (), s', note l .release true false)
    | .fail e | .abort e => (.error e, s, note l .release false true)
    | .failLate e => (.error e, s', note l .release true true)

/-- `BEGIN IMMEDIATE`. -/
def beginImmediate : Act Unit where
  next f s l :=
    match f with
    | .fail e | .abort e => (.error e, s, l)
    | .none =>
      match l.tx, s.writer with
      | none, none => (.ok (), { s with writer := some l.pid }, { l with tx := some s.stores.db })
      | _, _ => (.error .failure, s, l)
    | .failLate e =>
      match l.tx, s.writer with
      | none, none => (.error e, { s with writer := some l.pid }, { l with tx := some s.stores.db })
      | _, _ => (.error e, s, l)

/-- One statement on the open transaction; a constraint can refuse it. -/
def execute {β : Type} (stmt : Db → Option (Db × β)) : Act β where
  next f s l :=
    match l.tx.bind stmt with
    | none => (.error .failure, s, l)
    | some (db, b) =>
      match f with
      | .none => (.ok b, s, { l with tx := some db })
      | .fail e | .abort e => (.error e, s, l)
      | .failLate e => (.error e, s, { l with tx := some db })

/-- The transaction ends and the writer lock is free. -/
def closed (s : Shared) (l : Process) : Shared × Process :=
  ({ s with writer := if s.writer = some l.pid then none else s.writer }, { l with tx := none })

/-- `conn.commit()`; without a transaction it does nothing. -/
def commit (purpose : Purpose) : Act Unit where
  next f s l :=
    match l.tx with
    | none =>
      match f with
      | .none => (.ok (), s, note l purpose false false)
      | .fail e | .failLate e | .abort e => (.error e, s, note l purpose false true)
    | some db =>
      let (s', l') := closed s l
      match f with
      | .none => (.ok (), { s' with stores := { s'.stores with db } }, note l' purpose true false)
      | .fail e => (.error e, s, note l purpose false true)
      | .failLate e =>
        (.error e, { s' with stores := { s'.stores with db } }, note l' purpose true true)
      | .abort e => (.error e, s', note l' purpose false true)

/-- `conn.rollback()`. -/
def rollback : Act Unit :=
  plain fun s l => let (s, l) := closed s l; ((), s, l)

/-- `tempfile.mkstemp` and the write of the bytes: a buffered write stores them all or
raises. -/
def writeTemp (raw : Bytes) : Act Unit := plain fun s l => ((), s, { l with temp := some raw })

/-- `os.replace(name, self.index)`. -/
def replaceIndex : Act Unit where
  next f s l :=
    match l.temp with
    | none => (.error .failure, s, l)
    | some raw =>
      match f with
      | .none =>
        (.ok (), { s with stores := { s.stores with index := raw } }, { l with temp := none })
      | .fail e | .abort e => (.error e, s, l)
      | .failLate e => (.error e, { s with stores := { s.stores with index := raw } }, l)

/-- `Path(name).unlink(missing_ok=True)`. -/
def unlinkTemp : Act Unit := plain fun s l => ((), s, { l with temp := none })

def writeAudit (r : AuditRecord) : Act Unit :=
  plain fun s l => ((), { s with audit := s.audit ++ [r] }, l)

/-- `gateway.authorize`: allowed, not allowed (`abort`), or an exception. -/
def decide : Act Bool where
  next f s l :=
    match f with
    | .none => (.ok true, s, l)
    | .abort _ => (.ok false, s, l)
    | .fail e | .failLate e => (.error e, s, l)

/-- An assignment to the fields of the preparations. -/
def remember (f : Memory → Memory) : Act Unit := assign fun l => { l with memory := f l.memory }

end Act

/-- Reads through the connection. -/
def select {β : Type} (f : Db → β) : Code β := .perform (Act.read fun s l => f (visible s l))

/-- `self.index.read_bytes()`. -/
def readIndex : Code Bytes := .perform (Act.read fun s _ => s.stores.index)

def ask : Code Unit := .perform Act.ask

/-- `if c: raise GovernanceBoundaryError(code)`. -/
def refuseIf (c : Prop) [Decidable c] (code : String) : Code Unit := .raiseIf c (.boundary code)

/-! ## The projection lock, the state check and the publication -/

/-- Where the released coordinator and the caller overlay differ: the state of a settled
transition, the state in which `create` leaves one, and whether `_publish` reads the
temporary file back. -/
structure Profile where
  settled : TransitionState
  final : TransitionState
  verifyTemp : Bool
  deriving DecidableEq, Repr

def Profile.base : Profile := ⟨.published, .published, false⟩

def Profile.overlay : Profile := ⟨.callerAcknowledged, .publishedPendingCaller, true⟩

/-- `except Exception: raise GovernanceBoundaryError(code)`. -/
def asBoundary (code : String) : Raised → Raised
  | .interrupt => .interrupt
  | _ => .boundary code

/-- `except MandatoryMiddlewareError: raise` and `except Exception: raise
MandatoryMiddlewareError(code)`. -/
def asMandatory (code : String) : Raised → Raised
  | .interrupt => .interrupt
  | .mandatory code => .mandatory code
  | _ => .mandatory code

/-- The code of `p` with its exceptions renamed. -/
def renamed {α : Type} (p : Code α) (f : Raised → Raised) : Code α :=
  Prog.mapError p fun e => pure (f e)

/-- `try: p; except BaseException: pass`. -/
def swallow (p : Code Unit) : Code Unit := p.andThen fun _ => .done (.ok ())

/-- `try: p; except GovernanceBoundaryError: continue`. -/
def attempt {α : Type} (p : Code α) : Code (Option α) :=
  p.andThen fun
    | .ok a => .done (.ok (some a))
    | .error (.boundary _) => .done (.ok none)
    | .error e => .done (.error e)

/-- The `except` clauses of `_exclusive`. -/
def exclusiveError : Raised → Raised
  | .importError => .boundary "governance.transition_lock_unavailable"
  | .lockException => .boundary "governance.transition_busy"
  | e => e

/-- `_exclusive`: the projection lock around `body`.  The questions are the version of
`portalocker` and the paths, before and after the lock is taken. -/
def exclusive {α : Type} (body : Code α) : Code α :=
  renamed (do
    ask
    ask
    .perform Act.acquire
    Prog.ensuring (do ask; body) (.perform Act.release)) exclusiveError

def orBoundary {α : Type} : Except String α → Except Raised α
  | .ok a => .ok a
  | .error code => .error (.boundary code)

namespace Coordinator

/-- `_state_in_transaction(conn)`. -/
def stateInTransaction (c : Coordinator) : Code (Int × Routes × Bytes) :=
  .perform (Act.query fun s l => orBoundary (ProjectMaya.stateInTransaction c (visible s l)))

/-- `_state(conn)`. -/
def state (c : Coordinator) : Code (Int × Routes × Bytes) :=
  .perform (Act.query fun s l =>
    if l.tx.isSome || !l.foreignKeys then .error (.boundary "governance.transition_store_invalid")
    else orBoundary (ProjectMaya.stateInTransaction c (visible s l)))

/-- A check of the tables and the index file that starts with `_state_in_transaction(conn)
if conn.in_transaction else _state(conn)`. -/
def checked {α : Type} (f : Db → Bytes → Except String α) : Code α :=
  .perform (Act.query fun s l =>
    if l.tx.isNone && !l.foreignKeys then .error (.boundary "governance.transition_store_invalid")
    else orBoundary (f (visible s l) s.stores.index))

end Coordinator

/-- `_publish`: the bytes go to a temporary file, which replaces the index. -/
def publish (pf : Profile) (raw : Bytes) : Code Unit := do
  ask
  Prog.ensuring (do
    .perform (Act.writeTemp raw)
    ask
    let temp ← .perform (Act.peek Process.temp)
    refuseIf (pf.verifyTemp ∧ temp ≠ some raw) "governance.transition_projection_invalid"
    .perform Act.replaceIndex
    let index ← readIndex
    refuseIf (index ≠ raw) "governance.transition_projection_invalid") (do
    let named ← .perform (Act.peek fun l => l.temp.isSome)
    if named then .perform Act.unlinkTemp else pure ())

/-- A transaction that ends in a rollback when anything in it raises. -/
def transaction {α : Type} (body : Code α) : Code α := do
  .perform Act.beginImmediate
  body.onError (.perform Act.rollback)

end ProjectMaya
