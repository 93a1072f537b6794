import ProjectMaya.Logic.Tolerance
import ProjectMaya.VectorStore

/-! # Connections to one memory store

Any number of retrievers on one database file, each with its own connection, perform the
statements of `upsert`, `replaceEmbeddings` and `rebuildEmbeddings` in any order.  The
first data-changing statement of a call opens its transaction and takes SQLite's writer
lock; what the call selects before sees the last committed state. -/

namespace ProjectMaya.Vector

open Logic

/-- What the environment does to a statement: nothing, or it raises before or after it. -/
inductive Fault where
  | none
  | fail (e : Failure)
  | late (e : Failure)
  deriving DecidableEq, Repr

instance : Inhabited Fault := ⟨.none⟩

structure Shared (ν : Type) where
  db : Db ν
  /-- The connection whose transaction is open. -/
  writer : Option Nat := none

structure Connection (ν : Type) where
  pid : Nat
  /-- The state its open transaction works on. -/
  tx : Option (Db ν) := none
  /-- The running call has selected something outside a transaction; no call reads this. -/
  read : Bool := false

/-- It has selected something and not yet changed anything. -/
def Connection.between {ν : Type} (l : Connection ν) : Bool := l.read && l.tx.isNone

section

variable {ν : Type}

abbrev Act (ν : Type) (β : Type) := Action Fault (Shared ν) (Connection ν) Failure β

abbrev Code (ν : Type) (α : Type) := Prog Fault (Shared ν) (Connection ν) Failure α

def visible (s : Shared ν) (l : Connection ν) : Db ν := l.tx.getD s.db

namespace Act

/-- A request to something else (the open connection, the gateway): it may raise. -/
def ask : Act ν Unit where
  next f s l :=
    match f with
    | .none => (.ok (), s, l)
    | .fail e | .late e => (.error e, s, l)

/-- `SELECT`. -/
def select {β : Type} (f : Db ν → β) : Act ν β where
  next c s l :=
    let selected := { l with read := l.read || l.tx.isNone }
    match c with
    | .none => (.ok (f (visible s l)), s, selected)
    | .fail e => (.error e, s, l)
    | .late e => (.error e, s, selected)

/-- The effect of a data-changing statement: outside a transaction it opens one. -/
def change (f : Db ν → Except Failure (Db ν)) (s : Shared ν) (l : Connection ν) :
    Except Failure (Shared ν × Connection ν) :=
  match l.tx with
  | some db => do
    let db ← f db
    return (s, { l with tx := some db })
  | none => do
    -- `database is locked`
    ensure (s.writer = none) .other
    let db ← f s.db
    return ({ s with writer := some l.pid }, { l with tx := some db })

/-- `INSERT`, `UPDATE` or `DELETE`. -/
def execute (f : Db ν → Except Failure (Db ν)) : Act ν Unit where
  next c s l :=
    match c, change f s l with
    | .none, .ok (s', l') => (.ok (), s', l')
    | .late e, .ok (s', l') => (.error e, s', l')
    | .fail e, _ => (.error e, s, l)
    | _, .error e => (.error e, s, l)

/-- The connection after its transaction, if it had one. -/
def ended (l : Connection ν) : Connection ν := { l with tx := none, read := false }

/-- `connection.commit()`. -/
def commit : Act ν Unit where
  next c s l :=
    let s' := match l.tx with
      | some db => { s with db, writer := none }
      | none => s
    match c with
    | .none => (.ok (), s', ended l)
    | .fail e => (.error e, s, l)
    | .late e => (.error e, s', ended l)

/-- `connection.rollback()`. -/
def rollback : Act ν Unit where
  next _ s l :=
    (.ok (), if l.tx.isSome then { s with writer := none } else s, ended l)

end Act

/-- `with connection:`. -/
def transaction (p : Code ν Unit) : Code ν Unit :=
  Prog.onError (p >>= fun _ => .perform Act.commit) (.perform Act.rollback)

/-! ## The calls -/

/-- `_validate_embedding_dimensions`. -/
def validateEmbeddingDimensions (prepared : List (Record ν)) : Code ν Unit :=
  match incoming prepared with
  | [] => pure ()
  | [d] => do
    let stored ← .perform (Act.select Db.dimension)
    match stored with
    | some s => .raiseIf (d ≠ s) (.valueError "embedding dimension does not match")
    | none => do
      let existing ← .perform (Act.select vectorDims)
      match existing with
      | [] => .perform (Act.execute fun db => .ok (setDimension d db))
      | [s] => do
        .perform (Act.execute fun db => .ok (setDimension s db))
        .raiseIf (d ≠ s) (.valueError "embedding dimension does not match")
      | _ => .raise (.valueError "stored embeddings use inconsistent dimensions")
  | _ => .raise (.valueError "all embeddings must use one dimension")

/-- The statements for each prepared row. -/
def writeRows : List (Record ν) → Code ν Unit
  | [] => pure ()
  | r :: rest => do
    .perform (Act.execute (insertRecord r))
    .perform (Act.execute fun db => .ok (deleteFts r.recordId db))
    .perform (Act.execute fun db => .ok (insertFts r.recordId r.content db))
    writeRows rest

/-- The updates of `replace_embeddings`, for the rows that were read. -/
def updateRows (now : Text) (e : Embeddings ν) : List (Record ν) → Code ν Unit
  | [] => pure ()
  | r :: rest => do
    .perform (Act.execute fun db => .ok (updateEmbedding now (e.vector r.recordId) r db))
    updateRows now e rest

def replaceRows (now : Text) (e : Embeddings ν) : Code ν Unit := do
  let rows ← .perform (Act.select orderedRecords)
  .raiseIf (e.covers rows = false) (.valueError "embedding rebuild must cover every memory record")
  updateRows now e rows
  .perform (Act.execute fun db => .ok (clearDimension db))
  match e.dimension with
  | none => pure ()
  | some n => .perform (Act.execute fun db => .ok (setDimension n db))

/-- `authorize_embedding_rebuild`. -/
def authorizeEmbeddingRebuild : List Text → Code ν Unit
  | [] => pure ()
  | _ :: rest => do
    .perform Act.ask
    authorizeEmbeddingRebuild rest

end

section

variable {ν : Type} [Python ν]

/-- `_upsert_many`, with the time at which each document is prepared. -/
def upsertManyCode (docs : List (Text × Doc ν)) : Code ν Unit :=
  match docs.mapM fun d => prepareDocument d.1 d.2 with
  | .error e => .raise e
  | .ok [] => pure ()
  | .ok prepared => do
    .perform Act.ask
    transaction (do validateEmbeddingDimensions prepared; writeRows prepared)

/-- `GovernedMemoryRetriever.remember`, down to the store. -/
def remember (now : Text) (document : Doc ν) : Code ν Unit := do
  .perform Act.ask
  .raiseIf ((idKeys.any fun k => (document.get k).truthy) = false)
    (.valueError "document requires id, chunk_id, or embedding_id")
  upsertManyCode [(now, document)]

def replaceEmbeddings (now : Text) (embeddings : Doc ν) : Code ν Unit :=
  match checkEmbeddings embeddings with
  | .error e => .raise e
  | .ok e => do
    .perform Act.ask
    transaction (replaceRows now e)

/-- `str(document.get("content") or document.get("text") or "")`. -/
def takenText (d : Doc ν) : Text :=
  (((d.get (text "content")).or (d.get (text "text"))).or (.str [])).toStr

/-- `dict(zip(identifiers, vectors))`. -/
def zipped (identifiers : List Text) (vectors : List (Value ν)) : Doc ν :=
  (identifiers.zip vectors).foldl (fun d x => d.put x.1 x.2) Table.empty

/-- `[str(document["id"]) for document in documents]`. -/
def identifiers (documents : List (Doc ν)) : Except Failure (List Text) :=
  documents.mapM fun d => do
    let v ← fetch (d.get? (text "id")) .keyError
    return v.toStr

/-- An embedding model: a value for each text, or an exception. -/
abbrev Model (ν : Type) := List Text → Except Failure (List (Value ν))

/-- The embeddings that `rebuild_embeddings` computes for the documents it has read. -/
def rebuilt (model : Model ν) (documents : List (Doc ν)) : Except Failure (List Text × Doc ν) := do
  let vectors ← model (documents.map takenText)
  ensure (vectors.length = documents.length)
    (.runtimeError "embedding model returned an incomplete rebuild")
  let ids ← identifiers documents
  return (ids, zipped ids vectors)

/-- `rebuild_embeddings` with an embedding model, if one is available. -/
def rebuildEmbeddings (now : Text) : Option (Model ν) → Code ν Unit
  | none => .raise (.runtimeError "local embedding model is unavailable")
  | some model => do
    let documents ← .perform (Act.select fun db => (orderedRecords db).map Record.document)
    match rebuilt model documents with
    | .error e => .raise e
    | .ok (ids, embeddings) => do
      authorizeEmbeddingRebuild ids
      replaceEmbeddings now embeddings

inductive Call (ν : Type) where
  | upsert (docs : List (Text × Doc ν))
  | replace (now : Text) (embeddings : Doc ν)
  | rebuild (now : Text) (model : Option (Model ν))

def Call.prog : Call ν → Code ν Unit
  | .upsert docs => upsertManyCode docs
  | .replace now embeddings => replaceEmbeddings now embeddings
  | .rebuild now model => rebuildEmbeddings now model

/-- The store after governed upserts of some documents, one after the other. -/
def storeAfter (docs : List (Text × Doc ν)) : Shared ν :=
  docs.foldl (fun s x => ((remember x.1 x.2).calm s { pid := 0 }).2.1) { db := Db.empty }

/-- A process dies: SQLite undoes its transaction. -/
def die (s : Shared ν) (l : Connection ν) : Shared ν × Connection ν :=
  ({ s with writer := if s.writer = some l.pid then none else s.writer }, { pid := l.pid })

/-- The connections as hosts of the calls; every call has ended its own transaction. -/
def sessions (ν : Type) [Python ν] : System Fault (Shared ν) (Connection ν) Failure (Call ν) Unit where
  prog := Call.prog
  enter := fun l => { pid := l.pid }
  die := die

/-- An empty store, and no call. -/
def initial (ν : Type) [Python ν] : Config Fault (Shared ν) (Connection ν) Failure (Call ν) Unit :=
  Config.initial { db := Db.empty } fun p => { pid := p }

end

end ProjectMaya.Vector
