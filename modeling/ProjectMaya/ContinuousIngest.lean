import ProjectMaya.Ingest
import ProjectMaya.Logic.Table

/-! # Continuous ingest

`continuous_ingest.py` goes once over an inbox: it reads each file, embeds its text, writes the
embedding file, the registry entry and the row of the vector store, and then moves the file away.
What raises inside of a step makes that file fail, except where the code has no `try` around it:
then the pass ends. -/

namespace ProjectMaya.ContinuousIngest

open Logic
open ProjectMaya.Vector (Text Value Python text strip)
open ProjectMaya.Ingest (computeChunkId embPath sha256Text)

/-! ## The storage root -/

/-- A file of the inbox; `none` where it cannot be read. -/
structure File where
  name : Text
  content : Option Text
  deriving DecidableEq, Repr

/-- An embedding file; `ν` is the type of floats. -/
structure EmbeddingFile (ν : Type) where
  chunkId : String
  embeddingId : String
  vector : List ν
  vectorDim : Nat
  createdAt : String
  sourcePath : String

/-- An entry of the registry. -/
structure RegistryEntry (ν : Type) where
  chunkId : String
  embeddingPath : String
  sourcePath : String
  sourceHash : String
  model : Value ν
  provider : Value ν
  vectorDim : Nat
  extractorVersion : Value ν
  embeddingTimestamp : String

/-- A row of `LocalVectorStore`; its other columns are always the same here. -/
structure Row (ν : Type) where
  embeddingId : String
  chunkId : String
  vector : List ν
  vectorDim : Nat
  createdAt : String
  sourcePath : String

/-- `entries`; its column `embedding_id` is `UNIQUE`. -/
abbrev Store (ν : Type) := Table (Row ν) String Row.embeddingId

abbrev Inbox := Table File Text File.name

/-- A storage root. In `files`, the embedding files by their paths, `none` is a file that is not
complete. `ticks` counts the readings of the clock. -/
structure Root (ν : Type) where
  incoming : Inbox := .empty
  processed : Assoc Text (Option Text) := []
  files : Assoc String (Option (EmbeddingFile ν)) := []
  registry : Assoc String (RegistryEntry ν) := []
  store : Store ν := .empty
  ticks : Nat := 0

/-- What the pass gets from outside: JSON, the backend, the clock, and its directories. -/
structure Env (ν : Type) where
  loads : Text → Option (Value ν)
  dumps : Value ν → Text
  embed : Text → List ν
  clock : Nat → String
  incoming : String
  embeddings : String

inductive Exn where
  /-- `text.strip()` of a value that is no text -/
  | attributeError
  /-- An `Exception` in the middle of a step. -/
  | raised
  deriving DecidableEq, Repr

/-- A step is done; it raises before its effect, or after it. -/
inductive Choice where
  | go
  | fail
  | late
  deriving DecidableEq, Repr

instance : Inhabited Choice := ⟨.go⟩

/-! ## What a file holds -/

/-- `path.suffix` -/
def suffix (name : Text) : Text :=
  let ext := name.reverse.takeWhile fun c => c ≠ '.'
  if ext ≠ [] ∧ ext.length + 1 < name.length then '.' :: ext.reverse else []

section

variable {ν : Type}

/-- The `.json` branch: the text, or another value of `text`, with the other fields; `none` where
an exception is caught. `'text' in obj` looks for a key, an item or a part of a text. -/
def readJson (env : Env ν) (content : Text) : Option (Value ν × List (Text × Value ν)) :=
  match env.loads content with
  | some (.dict fields) =>
    match fields.lookup (text "text") with
    | some value => some (value, fields.filter fun f => f.1 ≠ text "text")
    | none => some (.str (env.dumps (.dict fields)), [])
  | some (.list tuple items) =>
    if items.any fun item => match item with
      | .str s => s = text "text"
      | _ => false
    then none else some (.str (env.dumps (.list tuple items)), [])
  | some (.str s) => if text "text" <:+: s then none else some (.str (env.dumps (.str s)), [])
  | _ => none

def readFile (env : Env ν) (name : Text) (content : Option Text) :
    Option (Value ν × List (Text × Value ν)) :=
  match content with
  | none => none
  | some content =>
    if (suffix name).map Char.toLower = text ".json" then readJson env content
    else some (.str content, [])

/-- What the pass makes of a file before it embeds it. -/
inductive Verdict (ν : Type) where
  /-- It cannot be read, or its text is empty. -/
  | skip
  /-- Its text is no text. -/
  | crash
  | ingest (text : Text) (metadata : List (Text × Value ν))

/-- `if not text or not text.strip()` -/
def judge [Python ν] (env : Env ν) (name : Text) (content : Option Text) : Verdict ν :=
  match readFile env name content with
  | none => .skip
  | some (value, metadata) =>
    if value.truthy then
      match value with
      | .str s => if strip s = [] then .skip else .ingest s metadata
      | _ => .crash
    else .skip

def embeddingId (chunkId : String) : String := "emb-" ++ chunkId

/-- `str(path)` -/
def sourcePath (env : Env ν) (name : Text) : String := env.incoming ++ "/" ++ String.ofList name

/-- `metadata.get(key, default)` -/
def metadataGet (metadata : List (Text × Value ν)) (key default : String) : Value ν :=
  (metadata.lookup (text key)).getD (.str (text default))

def embObj (env : Env ν) (name t : Text) (createdAt : String) : EmbeddingFile ν where
  chunkId := computeChunkId t
  embeddingId := embeddingId (computeChunkId t)
  vector := env.embed t
  vectorDim := (env.embed t).length
  createdAt := createdAt
  sourcePath := sourcePath env name

def registryMeta (env : Env ν) (name t : Text) (metadata : List (Text × Value ν))
    (createdAt : String) : RegistryEntry ν where
  chunkId := computeChunkId t
  embeddingPath := embPath env.embeddings (computeChunkId t)
  sourcePath := sourcePath env name
  sourceHash := sha256Text t
  model := metadataGet metadata "model" "local-mock"
  provider := metadataGet metadata "provider" "local-mock"
  vectorDim := (env.embed t).length
  extractorVersion := metadataGet metadata "extractor_version" "v0.1"
  embeddingTimestamp := createdAt

def storeRow (env : Env ν) (name t : Text) (createdAt : String) : Row ν where
  embeddingId := embeddingId (computeChunkId t)
  chunkId := computeChunkId t
  vector := env.embed t
  vectorDim := (env.embed t).length
  createdAt := createdAt
  sourcePath := sourcePath env name

/-! ## Steps -/

abbrev Act (ν β : Type) := Action Choice (Root ν) Unit Exn β

abbrev Code (ν α : Type) := Prog Choice (Root ν) Unit Exn α

namespace Act

def effect (f : Root ν → Root ν) : Act ν Unit where
  next c s l :=
    match c with
    | .go => (.ok (), f s, l)
    | .fail => (.error .raised, s, l)
    | .late => (.error .raised, f s, l)

/-- `mkdir`, and the constructors in `main`. -/
def prepare : Act ν Unit := effect id

/-- `path.read_text`; what it raises is caught. -/
def readText (name : Text) : Act ν (Option Text) where
  next c s l :=
    match c with
    | .go => (.ok ((s.incoming.find? name).bind File.content), s, l)
    | _ => (.ok none, s, l)

/-- `embed_documents([text])`; what it raises is caught. -/
def embed : Act ν Bool where
  next c s l :=
    match c with
    | .go => (.ok true, s, l)
    | _ => (.ok false, s, l)

/-- `datetime.utcnow()` -/
def utcnow (env : Env ν) : Act ν String where
  next _ s l := (.ok (env.clock s.ticks), { s with ticks := s.ticks + 1 }, l)

/-- `open(emb_path, 'w')` -/
def openFile (path : String) : Act ν Unit :=
  effect fun s => { s with files := s.files.set path none }

/-- `json.dump`, and the file is closed. -/
def dump (path : String) (file : EmbeddingFile ν) : Act ν Unit :=
  effect fun s => { s with files := s.files.set path (some file) }

/-- `registry.add_entry(meta)` -/
def register (entry : RegistryEntry ν) : Act ν Unit :=
  effect fun s => { s with registry := s.registry.set entry.chunkId entry }

/-- `store.add_entry`: `INSERT`, committed; an `IntegrityError` where the id is there. -/
def insert (row : Row ν) : Act ν Unit where
  next c s l :=
    match c, s.store.insert row with
    | .fail, _ => (.error .raised, s, l)
    | _, none => (.error .raised, s, l)
    | .go, some store => (.ok (), { s with store := store }, l)
    | .late, some store => (.error .raised, { s with store := store }, l)

def moved (name : Text) (s : Root ν) : Root ν :=
  { s with
    incoming := s.incoming.delete fun f => f.name = name
    processed := s.processed.set name ((s.incoming.find? name).bind File.content) }

/-- `shutil.move` -/
def move (name : Text) : Act ν Unit := effect (moved name)

end Act

/-- `try: p; except Exception: return False`, and `rest` after it. -/
def attempt (p : Code ν Unit) (rest : Code ν Bool) : Code ν Bool :=
  p.andThen fun
    | .ok () => rest
    | .error _ => pure false

/-- `process_file` from the embedding on. -/
def ingestText (env : Env ν) (name t : Text) (metadata : List (Text × Value ν)) : Code ν Bool :=
  .perform Act.embed >>= fun
    | false => pure false
    | true => do
      .perform Act.prepare
      let createdAt ← .perform (Act.utcnow env)
      let path := embPath env.embeddings (computeChunkId t)
      attempt (.perform (Act.openFile path) >>= fun _ =>
          .perform (Act.dump path (embObj env name t createdAt)))
        (attempt (.perform (Act.register (registryMeta env name t metadata createdAt)))
          (attempt (.perform (Act.insert (storeRow env name t createdAt))) (pure true)))

/-- `process_file` -/
def processFile [Python ν] (env : Env ν) (name : Text) : Code ν Bool := do
  let content ← .perform (Act.readText name)
  match judge env name content with
  | .skip => pure false
  | .crash => .raise .attributeError
  | .ingest t metadata => ingestText env name t metadata

/-- What `shutil.move` raises is caught. -/
def moveFile (name : Text) : Code ν Unit :=
  (.perform (Act.move name) : Code ν Unit).andThen fun _ => pure ()

def processFiles [Python ν] (env : Env ν) : List Text → Code ν Unit
  | [] => pure ()
  | name :: names => do
    let ok ← processFile env name
    if ok then moveFile name >>= fun _ => processFiles env names else processFiles env names

end

/-! ## A pass -/

def patterns : List Text := [text ".txt", text ".md", text ".json"]

/-- `files`: for each pattern the names that match it, sorted. -/
def listing (incoming : Inbox) : List Text :=
  patterns.flatMap fun pattern =>
    ((incoming.rows.map File.name).filter fun name => pattern <:+ name).insertionSort (· ≤ ·)

section

variable {ν : Type}

/-- The names are listed before the first file is processed. -/
def listFiles : Act ν (List Text) where
  next _ s l := (.ok (listing s.incoming), s, l)

/-- `main` -/
def pass [Python ν] (env : Env ν) : Code ν Unit := do
  .perform Act.prepare
  let names ← .perform listFiles
  processFiles env names

/-- A pass over the inbox; a crash leaves what is there. -/
def runPass [Python ν] (env : Env ν) (s : Root ν) (moves : List (Move Choice)) :
    Prog.Outcome (Root ν) Unit Exn Unit :=
  (pass env).run (fun s l => (s, l)) moves s ()

/-- Files come into the inbox under names that are free. -/
def arrive (s : Root ν) (files : List File) : Root ν :=
  { s with incoming := files.foldl (fun inbox f => (inbox.insert f).getD inbox) s.incoming }

end

end ProjectMaya.ContinuousIngest
