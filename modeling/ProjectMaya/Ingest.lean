import ProjectMaya.Chunker
import ProjectMaya.Logic.Wp
import ProjectMaya.Registry

/-! # The ingestion pipeline

`IngestionPipeline.process_file` writes an embedding file for every chunk of a file, and then its
entry to the JSON registry and, with `dual_write`, to the SQLite registry. A chunk whose embedding
file is there already is skipped. A run can raise or crash at every step. An entry reaches a
registry in one step, since the JSON registry is replaced and the SQLite registry committed. -/

namespace ProjectMaya.Ingest

open Logic
open ProjectMaya.Vector (Text)
open ProjectMaya.Registry (Metadata Entry Entries entryOf)

/-- `compute_chunk_id` -/
def computeChunkId (text : Text) : String := sha256Text text

/-- An embedding file; `ν` is the type of floats. -/
structure EmbeddingRecord (ν : Type) where
  chunkId : String
  embedding : Option (List ν)
  model : Option String
  provider : String
  extractorVersion : String
  sourcePath : String
  sourceHash : String
  chunkStart : Nat
  chunkEnd : Nat
  chunkText : Text
  embeddingTimestamp : String
  deriving DecidableEq, Repr

/-- A storage root. `files` are the embedding files by their paths, `temps` the files beside them
with the suffix `.tmp`; `none` is a file that is not complete. -/
structure Storage (ν : Type) where
  files : Assoc String (Option (EmbeddingRecord ν)) := []
  temps : Assoc String (Option (EmbeddingRecord ν)) := []
  registry : Entries := []
  sqlite : Assoc String Metadata := []
  deriving DecidableEq, Repr

inductive Exn where
  | chunk (e : ChunkError)
  | embedder (message : String)
  | registry (e : Registry.Exn)
  /-- Something else, in the middle of a step. -/
  | raised
  deriving DecidableEq, Repr

structure Pipeline where
  backend : String
  model : Option String
  dualWrite : Bool
  deriving DecidableEq, Repr

/-- The arguments of a call, and what it gets from outside: the file, what the backend makes of
its chunks, and the time. -/
structure Job (ν : Type) where
  pipeline : Pipeline
  path : String
  force : Bool := false
  maxChars : Int := 1000
  extractorVersion : Option String := none
  reading : Option Reading
  vectors : Except Exn (List (Option (List ν)))
  now : String

/-- A step is done; it raises before its effect, or after it. -/
inductive Choice where
  | go
  | fail
  | late
  deriving DecidableEq, Repr

instance : Inhabited Choice := ⟨.go⟩

section

variable {ν : Type}

abbrev Act (ν β : Type) := Action Choice (Storage ν) Unit Exn β

abbrev Code (ν α : Type) := Prog Choice (Storage ν) Unit Exn α

namespace Act

def effect (f : Storage ν → Storage ν) : Act ν Unit where
  next c s l :=
    match c with
    | .go => (.ok (), f s, l)
    | .fail => (.error .raised, s, l)
    | .late => (.error .raised, f s, l)

/-- The directories and the registries are made. -/
def prepare : Act ν Unit := effect id

/-- `os.path.exists(emb_path)` -/
def fileExists (path : String) : Act ν Bool where
  next _ s l := (.ok (s.files.get? path).isSome, s, l)

/-- `open(tmp, 'w')` -/
def openTemp (path : String) : Act ν Unit :=
  effect fun s => { s with temps := s.temps.set path none }

/-- `json.dump`, and the file is closed. -/
def dump (path : String) (record : EmbeddingRecord ν) : Act ν Unit :=
  effect fun s => { s with temps := s.temps.set path (some record) }

/-- `os.replace(tmp, emb_path)` -/
def replace (path : String) : Act ν Unit :=
  effect fun s =>
    { s with files := s.files.set path ((s.temps.get? path).getD none),
             temps := s.temps.filter fun t => t.1 ≠ path }

/-- The registry file is replaced by one with the entry. -/
def register (entry : Entry) : Act ν Unit :=
  effect fun s => { s with registry := s.registry.set entry.chunkId entry }

/-- `INSERT OR REPLACE`, committed. -/
def insertOrReplace (chunkId : String) (metadata : Metadata) : Act ν Unit :=
  effect fun s => { s with sqlite := s.sqlite.set chunkId metadata }

end Act

/-- `MemoryRegistry.add_entry` -/
def addEntry (metadata : Metadata) : Code ν Unit := do
  let entry ← .done ((entryOf metadata).mapError .registry)
  .perform (Act.register entry)

/-- `SQLiteMemoryRegistry.add_entry` -/
def sqliteAddEntry (metadata : Metadata) : Code ν Unit :=
  match metadata.chunkId with
  | none => .raise (.registry (.value "meta must include chunk_id"))
  | some chunkId => .perform (Act.insertOrReplace chunkId metadata)

/-! ## `process_file` -/

/-- `getattr(c, 'id', None) or compute_chunk_id(c.text)` -/
def chunkId (c : Chunk) : String := if c.id = "" then computeChunkId c.text else c.id

/-- `os.path.join(emb_dir, f"{chunk_id}.json")`; chunk ids hold no slash. -/
def embPath (dir id : String) : String := dir ++ "/" ++ (id ++ ".json")

theorem embPath_inj {dir id id' : String} (h : embPath dir id = embPath dir id') : id = id' := by
  unfold embPath at h
  have h' := congrArg String.toList h
  simp only [String.toList_append, List.append_assoc] at h'
  have hids := List.append_cancel_right (List.append_cancel_left (List.append_cancel_left h'))
  exact String.toList_inj.mp hids

def embObj (job : Job ν) (c : Chunk) (v : Option (List ν)) : EmbeddingRecord ν where
  chunkId := chunkId c
  embedding := v
  model := job.pipeline.model
  provider := job.pipeline.backend
  extractorVersion := c.metadata.extractorVersion
  sourcePath := c.metadata.sourcePath
  sourceHash := c.metadata.sourceHash
  chunkStart := c.start
  chunkEnd := c.stop
  chunkText := c.text.take job.maxChars.toNat
  embeddingTimestamp := job.now

def embMeta (dir : String) (job : Job ν) (c : Chunk) (v : Option (List ν)) : Metadata where
  chunkId := some (chunkId c)
  embeddingPath := some (embPath dir (chunkId c))
  sourcePath := some (embObj job c v).sourcePath
  sourceHash := some (embObj job c v).sourceHash
  model := (embObj job c v).model
  provider := some (embObj job c v).provider
  vectorDim := v.map List.length
  extractorVersion := some (embObj job c v).extractorVersion
  embeddingTimestamp := some (embObj job c v).embeddingTimestamp

/-- `extractor_version or 'v0.auto'` -/
def version (job : Job ν) : String :=
  match job.extractorVersion with
  | some v => if v = "" then "v0.auto" else v
  | none => "v0.auto"

/-- `self.embedder.embed`: without a text the backend is not asked. -/
def embed (job : Job ν) (chunks : List Chunk) : Except Exn (List (Option (List ν))) :=
  if chunks = [] then .ok [] else job.vectors

/-- `zip(chunks, vectors)` -/
def embedded (job : Job ν) : Except Exn (List (Chunk × Option (List ν))) := do
  let chunks ← (chunkFile job.path job.reading job.maxChars (version job)).mapError .chunk
  let vectors ← embed job chunks
  pure (chunks.zip vectors)

def writeChunk (dir : String) (job : Job ν) (c : Chunk) (v : Option (List ν)) : Code ν Unit := do
  let path := embPath dir (chunkId c)
  .perform (Act.openTemp path)
  .perform (Act.dump path (embObj job c v))
  .perform (Act.replace path)
  addEntry (embMeta dir job c v)
  if job.pipeline.dualWrite then sqliteAddEntry (embMeta dir job c v) else pure ()

/-- One turn of the loop; the path is returned also where the chunk is skipped. -/
def processChunk (dir : String) (job : Job ν) (c : Chunk) (v : Option (List ν)) :
    Code ν String := do
  let found ← .perform (Act.fileExists (embPath dir (chunkId c)))
  if found && !job.force then pure (embPath dir (chunkId c))
  else writeChunk dir job c v >>= fun _ => pure (embPath dir (chunkId c))

def processChunks (dir : String) (job : Job ν) :
    List (Chunk × Option (List ν)) → Code ν (List String)
  | [] => pure []
  | p :: rest => do
    let path ← processChunk dir job p.1 p.2
    let paths ← processChunks dir job rest
    pure (path :: paths)

/-- `process_file` with the embeddings in `dir`. -/
def processFile (dir : String) (job : Job ν) : Code ν (List String) := do
  .perform Act.prepare
  let pairs ← .done (embedded job)
  processChunks dir job pairs

/-- A run of `process_file`, alone on the storage root; a crash leaves what is there. -/
def ingest (dir : String) (s : Storage ν) (job : Job ν) (moves : List (Move Choice)) :
    Prog.Outcome (Storage ν) Unit Exn (List String) :=
  (processFile dir job).run (fun s l => (s, l)) moves s ()

end

end ProjectMaya.Ingest
