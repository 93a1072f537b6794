import ProjectMaya.Documents
import ProjectMaya.Enforcement

/-! # The guarded calls

`GovernedAgentRuntime.run`, the methods of `GovernedMemoryRetriever` with what they guard,
and the document operations, each as far as the entry of what it guards.  Every one of them
is a guarded operation (`run_eq`, `remember_eq`, …): its questions depend only on its
arguments, on the file system and on the stored documents. -/

namespace ProjectMaya.Enforcement

open Logic

/-! ## The runtime -/

structure ModelEgressPolicy where
  mode : String
  provider : String
  endpoint : Option String := none
  redaction : String := "not_applied"
  consent : String := "policy"
  deriving DecidableEq, Repr

def ModelEgressPolicy.target (p : ModelEgressPolicy) : String := "model:" ++ p.provider

def ModelEgressPolicy.metadata (p : ModelEgressPolicy) : List (String × String) :=
  [("mode", p.mode), ("provider", p.provider),
   ("endpoint_configured", if p.endpoint.getD "" = "" then "false" else "true"),
   ("redaction", p.redaction), ("consent", p.consent)]

structure GovernedAgentRuntime where
  actorId : String
  modelEgress : Option ModelEgressPolicy := none
  deriving DecidableEq, Repr

/-- What `run` pops from its keyword arguments. -/
structure RunOptions where
  dataClassification : String := "internal"
  idempotencyKey : Option String := none
  deriving DecidableEq, Repr

namespace GovernedAgentRuntime

variable (runtime : GovernedAgentRuntime) (options : RunOptions)

def runAction : ActionRequest where
  actorId := runtime.actorId
  capability := "runtime.execute"
  target := "hermes-agent"
  operation := "run"
  dataClassification := options.dataClassification
  idempotencyKey := options.idempotencyKey
  metadata := [("request_type", "agent_request")]

def egressAction (policy : ModelEgressPolicy) : ActionRequest where
  actorId := runtime.actorId
  capability := "model.egress"
  target := policy.target
  operation := "infer"
  dataClassification := options.dataClassification
  idempotencyKey := options.idempotencyKey
  metadata := policy.metadata

/-- `if self._model_egress is not None: …` -/
def authorizeEgress : Code Unit :=
  match runtime.modelEgress with
  | none => pure ()
  | some policy => authorize "authorization.model_egress" (runtime.egressAction options policy)

/-- `run` -/
def run : Code Unit := do
  authorize "authorization.runtime" (runtime.runAction options)
  runtime.authorizeEgress options
  let _ ← .done ((requestIdentity runtime.actorId options.dataClassification).mapError .raised)
  .perform (Act.operate .run)

/-- The questions of a run. -/
def questions : List Question :=
  ("authorization.runtime", runtime.runAction options) ::
    (runtime.modelEgress.map fun policy =>
      ("authorization.model_egress", runtime.egressAction options policy)).toList

/-- The binding of the host's identity. -/
def bound : Except Refusal Unit :=
  ((requestIdentity runtime.actorId options.dataClassification).map fun _ => ()).mapError .raised

theorem run_eq : runtime.run options =
    guardedBy (.ok (runtime.questions options)) (runtime.bound options) .run := by
  unfold run guardedBy authorizeEgress questions bound
  cases runtime.modelEgress with
  | none =>
    cases requestIdentity runtime.actorId options.dataClassification <;>
      simp [Except.mapError, Except.map]
  | some policy =>
    cases requestIdentity runtime.actorId options.dataClassification <;>
      simp [Except.mapError, Except.map]

end GovernedAgentRuntime

/-! ## The file system -/

/-- What the calls use of the file system and of `str`. -/
structure Platform where
  resolve : PurePath → Except Raised ResolvedPath
  isFile : ResolvedPath → Bool
  lower : String → String

/-- `path.suffix` -/
def suffix (path : ResolvedPath) : String :=
  let name := (path.names.getLast?.getD "").toList
  let extension := (name.reverse.takeWhile (· ≠ '.')).reverse
  if extension ≠ [] ∧ extension.length + 1 < name.length then String.ofList ('.' :: extension) else ""

/-- `path == root or root in path.parents` -/
def within (path root : ResolvedPath) : Bool :=
  path = root || root.toPure ∈ path.toPure.parents

/-- `path.relative_to(root).as_posix()` -/
def relativeTo (path root : ResolvedPath) : String :=
  (PurePath.mk .relative (path.names.drop root.names.length)).text

/-! ## The memory facade -/

/-- `GovernedMemoryRetriever`, over a retriever that may have a `search_hybrid` of its own. -/
structure GovernedMemoryRetriever where
  actorId : String
  hybrid : Bool
  deriving DecidableEq, Repr

namespace GovernedMemoryRetriever

variable (memory : GovernedMemoryRetriever)

def action (capability target operation : String) (metadata : List (String × String)) :
    ActionRequest where
  actorId := memory.actorId
  capability
  target
  operation
  dataClassification := "internal"
  metadata

def question (capability target operation : String) (metadata : List (String × String)) : Question :=
  ("authorization.memory", memory.action capability target operation metadata)

/-- `_authorize` -/
def authorize (capability target operation : String) (metadata : List (String × String)) :
    Code Unit :=
  Enforcement.authorize "authorization.memory" (memory.action capability target operation metadata)

section

variable {ν : Type} [Vector.Python ν] (document : Vector.Doc ν)

/-- `_memory_id` -/
def memoryId : String :=
  match Vector.idKeys.find? fun k => (document.get k).truthy with
  | some k => String.ofList (document.get k).toStr
  | none => "*"

/-- The check of `MemoryRetriever.remember`. -/
def identified : Except Refusal Unit :=
  ensure (Vector.idKeys.any fun k => (document.get k).truthy)
    (.valueError "document requires id, chunk_id, or embedding_id")

def remember : Code Unit := do
  memory.authorize "memory.write" (memoryId document) "remember" [("memory_id", memoryId document)]
  .done (identified document)
  .perform (Act.operate .upsert)

end

def «recall» (memoryId : String) : Code Unit := do
  memory.authorize "memory.read" memoryId "recall" [("memory_id", memoryId)]
  .perform (Act.operate .get)

/-- `category or "*"` -/
def scope (category : Option String) : String :=
  if category.getD "" = "" then "*" else category.getD ""

/-- The check of `MemoryRetriever.search`. -/
def positive (limit : Int) : Except Refusal Unit :=
  ensure (1 ≤ limit) (.valueError "limit must be positive")

def search (category : Option String) (limit : Int) : Code Unit := do
  memory.authorize "memory.read" (scope category) "search" [("category", scope category)]
  .done (positive limit)
  .perform (Act.operate .search)

/-- `MemoryRetriever.search_hybrid`: a retriever without one of its own searches. -/
def hybridChecks (limit : Int) : Except Refusal Unit :=
  if memory.hybrid then .ok () else positive limit

def searchHybrid (category : Option String) (limit : Int) : Code Unit := do
  memory.authorize "memory.read" (scope category) "hybrid_search" [("category", scope category)]
  .done (memory.hybridChecks limit)
  .perform (Act.operate (if memory.hybrid then .searchHybrid else .search))

def authorizeIngest (sourceRef : String) : Code Unit :=
  memory.authorize "memory.ingest" sourceRef "read_and_ingest" [("source_ref", sourceRef)]

def authorizeEmbeddingRebuild (memoryIds : List String) : Code Unit :=
  memoryIds.forM fun memoryId =>
    memory.authorize "memory.write" memoryId "rebuild_embedding" [("memory_id", memoryId)]

section

variable (platform : Platform)

/-- The checks of `ingest_document` before it asks, and the reference of its source. -/
def ingestSource (path documentsRoot : PurePath) : Except Refusal String := do
  let source ← (platform.resolve path).mapError .raised
  let root ← (platform.resolve documentsRoot).mapError .raised
  ensure (within source root) (.valueError "document is outside the governed documents root")
  ensure (platform.lower (suffix source) ∈ [".txt", ".md", ".csv", ".json"])
    (.valueError "business-memory ingestion supports txt, md, csv, and json")
  return relativeTo source root

/-- `BusinessMemoryService.ingest_document`, up to the reading of the source; what it stores then
goes through `remember`. -/
def ingestDocument (path documentsRoot : PurePath) : Code Unit := do
  let sourceRef ← .done (ingestSource platform path documentsRoot)
  memory.authorizeIngest sourceRef
  .perform (Act.operate .readSource)

end

section

variable {ν : Type} [Vector.Python ν]

/-- `str(document.get("content") or document.get("text") or "")` -/
def embeddedText (document : Vector.Doc ν) : Vector.Text :=
  (((document.get (Vector.text "content")).or (document.get (Vector.text "text"))).or (.str [])).toStr

/-- `str(document["id"])` -/
def storedId (document : Vector.Doc ν) : Except Refusal String := do
  let value ← fetch (document.get? (Vector.text "id")) (.raised .failure)
  return String.ofList value.toStr

/-- The embedding model, when there is one. -/
abbrev Embedding (ν : Type) := Option (List Vector.Text → Except Raised (List (List ν)))

/-- The checks of `rebuild_embeddings` before it asks, and the identifiers it asks about. -/
def rebuildIds (embedding : Embedding ν) (documents : List (Vector.Doc ν)) :
    Except Refusal (List String) := do
  let embed ← fetch embedding (.runtimeError "local embedding model is unavailable")
  let vectors ← (embed (documents.map embeddedText)).mapError .raised
  ensure (vectors.length = documents.length)
    (.runtimeError "embedding model returned an incomplete rebuild")
  documents.mapM storedId

/-- `BusinessMemoryService.rebuild_embeddings` -/
def rebuildEmbeddings (embedding : Embedding ν) (documents : List (Vector.Doc ν)) : Code Unit := do
  let memoryIds ← .done (rebuildIds embedding documents)
  memory.authorizeEmbeddingRebuild memoryIds
  .perform (Act.operate .replaceEmbeddings)

end

/-! Each method is a guarded operation. -/

variable {ν : Type} [Vector.Python ν]

theorem remember_eq (document : Vector.Doc ν) : memory.remember document =
    guardedBy (.ok [memory.question "memory.write" (memoryId document) "remember"
      [("memory_id", memoryId document)]]) (identified document) .upsert := by
  simp [remember, guardedBy, authorize, question]

theorem recall_eq (memoryId : String) : memory.recall memoryId =
    guardedBy (.ok [memory.question "memory.read" memoryId "recall" [("memory_id", memoryId)]])
      (.ok ()) .get := by
  simp [«recall», guardedBy, authorize, question]

theorem search_eq (category : Option String) (limit : Int) : memory.search category limit =
    guardedBy (.ok [memory.question "memory.read" (scope category) "search"
      [("category", scope category)]]) (positive limit) .search := by
  simp [search, guardedBy, authorize, question]

theorem searchHybrid_eq (category : Option String) (limit : Int) :
    memory.searchHybrid category limit =
      guardedBy (.ok [memory.question "memory.read" (scope category) "hybrid_search"
        [("category", scope category)]]) (memory.hybridChecks limit)
        (if memory.hybrid then .searchHybrid else .search) := by
  simp [searchHybrid, guardedBy, authorize, question]

/-- What `ingest_document` asks. -/
def ingestQuestions (platform : Platform) (path documentsRoot : PurePath) :
    Except Refusal (List Question) :=
  (ingestSource platform path documentsRoot).map fun sourceRef =>
    [memory.question "memory.ingest" sourceRef "read_and_ingest" [("source_ref", sourceRef)]]

theorem ingestDocument_eq (platform : Platform) (path documentsRoot : PurePath) :
    memory.ingestDocument platform path documentsRoot =
      guardedBy (memory.ingestQuestions platform path documentsRoot) (.ok ()) .readSource := by
  unfold ingestDocument ingestQuestions guardedBy
  cases ingestSource platform path documentsRoot with
  | error e => rfl
  | ok sourceRef => simp [Except.map, authorizeIngest, authorize, question]

/-- What `rebuild_embeddings` asks: one question for each stored document. -/
def rebuildQuestions (embedding : Embedding ν) (documents : List (Vector.Doc ν)) :
    Except Refusal (List Question) :=
  (rebuildIds embedding documents).map fun memoryIds => memoryIds.map fun memoryId =>
    memory.question "memory.write" memoryId "rebuild_embedding" [("memory_id", memoryId)]

theorem authorizeEmbeddingRebuild_eq (memoryIds : List String) :
    memory.authorizeEmbeddingRebuild memoryIds = askAll (memoryIds.map fun memoryId =>
      memory.question "memory.write" memoryId "rebuild_embedding" [("memory_id", memoryId)]) := by
  induction memoryIds with
  | nil => rfl
  | cons memoryId memoryIds ih =>
    rw [List.map_cons, askAll_cons, ← ih]
    rfl

theorem rebuildEmbeddings_eq (embedding : Embedding ν) (documents : List (Vector.Doc ν)) :
    memory.rebuildEmbeddings embedding documents =
      guardedBy (memory.rebuildQuestions embedding documents) (.ok ()) .replaceEmbeddings := by
  unfold rebuildEmbeddings rebuildQuestions guardedBy
  cases rebuildIds embedding documents with
  | error e => rfl
  | ok memoryIds => simp [Except.map, authorizeEmbeddingRebuild_eq]

end GovernedMemoryRetriever

/-! ## The document operations -/

/-- What the document operations read of their configuration and caller. -/
structure Documents where
  platform : Platform
  /-- The maya-documents profile is enabled. -/
  enabled : Bool
  dataDir : PurePath
  actorId : String := "local-user"
  dataClassification : String := "internal"
  idempotencyKey : Option String := none

namespace Documents

variable (d : Documents)

def lift {α : Type} (x : Except Raised α) : Except Refusal α := x.mapError .raised

/-- `_require_documents_profile` -/
def requireDocumentsProfile : Except Refusal Unit :=
  ensure d.enabled (.documentCapability "maya-documents profile is not enabled")

/-- `_resolve_document_path` for a source. -/
def resolveSource (path : PurePath) : Except Refusal ResolvedPath := do
  let root ← lift (d.platform.resolve (d.dataDir.join (.parse "documents")))
  let candidate := if path.isAbsolute then path else root.toPure.join path
  let resolved ← lift (d.platform.resolve candidate)
  ensure (within resolved root) (.documentCapability "document path is outside maya-data/documents")
  ensure (d.platform.isFile resolved) (.documentCapability "document source does not exist")
  return resolved

/-- `_resolve_document_path` with `must_exist=False, default_subdir="outputs"`. -/
def resolveOutput (path : PurePath) : Except Refusal ResolvedPath := do
  let root ← lift (d.platform.resolve (d.dataDir.join (.parse "documents")))
  let candidate :=
    if path.isAbsolute then path
    else if path.parts.length = 1 then (root.toPure.join (.parse "outputs")).join path
    else root.toPure.join path
  let resolved ← lift (d.platform.resolve candidate)
  ensure (within resolved root) (.documentCapability "document path is outside maya-data/documents")
  return resolved

/-- `path.suffix.lower()` -/
def extension (path : ResolvedPath) : String := d.platform.lower (suffix path)

/-- `text.removeprefix(".")` -/
def withoutDot (text : String) : String :=
  match text.toList with
  | '.' :: rest => String.ofList rest
  | _ => text

/-- `_file_type` -/
def fileType (path : ResolvedPath) : String :=
  let kind := withoutDot (d.extension path)
  if kind = "" then "none" else kind

def supportedTypes : List String := ["pdf", "txt", "md", "markdown", "doc", "docx", "odt", "rtf"]

/-- `_require_supported_source` -/
def requireSupportedSource (path : ResolvedPath) : Except Refusal Unit :=
  ensure (d.fileType path ∈ supportedTypes) (.documentCapability "unsupported document type")

/-- `_redacted_ref` -/
def redactedRef (path : ResolvedPath) : Except Refusal String := do
  let root ← lift (d.platform.resolve d.dataDir)
  let resolved ← lift (d.platform.resolve path.toPure)
  return "maya-data/" ++ if within resolved root then relativeTo resolved root else "external"

/-- The question of `_authorize_document_action`. -/
def question (operation : String) (sourceRef outputRef : Option String) (fileType : String)
    (mutation : Bool) : Question :=
  ("authorization.documents",
    { actorId := d.actorId
      capability := "documents." ++ operation
      target := (outputRef.or sourceRef).getD "maya-data/documents"
      operation
      dataClassification := d.dataClassification
      idempotencyKey := d.idempotencyKey
      metadata := [("source_ref", sourceRef.getD "none"), ("output_ref", outputRef.getD "none"),
        ("file_type", fileType), ("mutation", if mutation then "true" else "false")] })

/-- `_authorize_document_action` -/
def authorizeDocumentAction (q : Question) : Code Unit := authorize q.1 q.2

/-- What `inspect_document` does before it asks. -/
def inspectQuestion (source : PurePath) : Except Refusal Question := do
  d.requireDocumentsProfile
  let sourcePath ← d.resolveSource source
  d.requireSupportedSource sourcePath
  let sourceRef ← d.redactedRef sourcePath
  return d.question "inspect" (some sourceRef) none (d.fileType sourcePath) false

/-- `inspect_document` -/
def inspectDocument (source : PurePath) : Code Unit := do
  let q ← .done (d.inspectQuestion source)
  authorizeDocumentAction q
  .perform (Act.operate .inspect)

/-- `x` of an optional argument, if there is one. -/
def optional {α β : Type} (x : Option α) (f : α → Except Refusal β) : Except Refusal (Option β) :=
  match x with
  | none => .ok none
  | some a => (f a).map some

/-- What `extract_pdf_text` does before it asks. -/
def extractQuestion (source : PurePath) (output : Option PurePath) : Except Refusal Question := do
  d.requireDocumentsProfile
  let sourcePath ← d.resolveSource source
  let outputPath ← optional output d.resolveOutput
  ensure (d.extension sourcePath = ".pdf")
    (.documentCapability "extract-text supports PDF sources only")
  ensure (∀ path ∈ outputPath, d.extension path = ".txt")
    (.documentCapability "extract-text output must end with .txt")
  let sourceRef ← d.redactedRef sourcePath
  let outputRef ← optional outputPath d.redactedRef
  return d.question "extract-text" (some sourceRef) outputRef "pdf" outputPath.isSome

/-- `extract_pdf_text` -/
def extractPdfText (source : PurePath) (output : Option PurePath) : Code Unit := do
  let q ← .done (d.extractQuestion source output)
  authorizeDocumentAction q
  .perform (Act.operate .extractText)

/-- What `create_pdf` does before it asks. -/
def createQuestion (text : String) (output : PurePath) : Except Refusal Question := do
  d.requireDocumentsProfile
  ensure (Vector.strip text.toList ≠ []) (.documentCapability "document text is required")
  let outputPath ← d.resolveOutput output
  ensure (d.extension outputPath = ".pdf")
    (.documentCapability "create-pdf output must end with .pdf")
  let outputRef ← d.redactedRef outputPath
  return d.question "create-pdf" none (some outputRef) "pdf" true

/-- `create_pdf` -/
def createPdf (text : String) (output : PurePath) : Code Unit := do
  let q ← .done (d.createQuestion text output)
  authorizeDocumentAction q
  .perform (Act.operate .createPdf)

/-- What `convert_document` does before it asks. -/
def convertQuestion (source output : PurePath) (outputFormat : String) : Except Refusal Question := do
  d.requireDocumentsProfile
  let sourcePath ← d.resolveSource source
  d.requireSupportedSource sourcePath
  let normalizedFormat := d.platform.lower outputFormat
  ensure (normalizedFormat ∈ ["pdf", "txt", "docx"])
    (.documentCapability "convert output format must be pdf, txt, or docx")
  let outputPath ← d.resolveOutput output
  ensure (withoutDot (d.extension outputPath) = normalizedFormat)
    (.documentCapability "convert output extension must match format")
  let sourceRef ← d.redactedRef sourcePath
  let outputRef ← d.redactedRef outputPath
  return d.question "convert" (some sourceRef) (some outputRef) (d.fileType sourcePath) true

/-- `convert_document` -/
def convertDocument (source output : PurePath) (outputFormat : String) : Code Unit := do
  let q ← .done (d.convertQuestion source output outputFormat)
  authorizeDocumentAction q
  .perform (Act.operate .convert)

/-- A document operation that asks one question is a guarded operation. -/
theorem asking_eq (q : Except Refusal Question) (operation : Operation) :
    (do let q ← .done q; authorizeDocumentAction q; .perform (Act.operate operation)) =
      guardedBy (q.map fun q => [q]) (.ok ()) operation := by
  unfold guardedBy
  cases q with
  | error e => rfl
  | ok q => simp [Except.map, authorizeDocumentAction]

end Documents

end ProjectMaya.Enforcement
