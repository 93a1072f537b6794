import ProjectMaya.Documents

/-! # The adapter of the local vector store

`LocalVectorAdapter` keeps documents as rows of `LocalVectorStore` and makes results of rows. A row
has the `meta` of its document and not the document. Where a function of the adapter raises, it
raises a `RetrieverError`, which is `none` here. -/

namespace ProjectMaya.Retriever

open Logic
open ProjectMaya.Vector (Text Value Doc Python text isSpace)

/-! ## Floats -/

/-- What retrieval uses of floats besides. -/
class Floats (ν : Type) extends Python ν where
  /-- A literal such as `1.0`. -/
  lit : Int → ν
  add : ν → ν → ν
  mul : ν → ν → ν
  /-- `none` where it raises -/
  div : ν → ν → Option ν
  sqrt : ν → ν
  le : ν → ν → Bool
  lt : ν → ν → Bool
  /-- `x <= n` -/
  leInt : ν → Int → Bool
  /-- `n < x` -/
  intLt : Int → ν → Bool
  /-- What SQLite keeps of a float in a column of texts. -/
  column : ν → Option Text

/-! ## Rows and results -/

/-- A row of `entries`; the adapter reads no other column. `scoreMeta` is what JSON gives back, up
to the order of its keys. -/
structure Row (ν : Type) where
  embeddingId : Text
  chunkId : Text
  vector : Value ν
  vectorDim : Nat
  createdAt : Option Text
  sourcePath : Option Text
  scoreMeta : Value ν
  normalizedVector : List ν

/-- `entries`; its column `embedding_id` is `UNIQUE`. -/
abbrev Entries (ν : Type) := Table (Row ν) Text Row.embeddingId

/-- `RetrievalResult`; its `updated_at` is always `None`. -/
structure Result (ν : Type) where
  id : Text
  embeddingId : Text
  chunkId : Text
  content : Value ν
  embedding : Value ν
  vectorDim : Option Nat
  similarity : Option ν
  score : Option ν
  trustScore : Value ν
  model : Value ν
  provider : String
  sourcePath : Option Text
  embeddingPath : Value ν
  createdAt : Option Text
  category : Value ν
  tags : Value ν
  scoreMeta : Value ν

/-- What the service and its adapter get from outside: two functions of Unicode, `list.sort` by
descending similarity, the decay of a time under a half-life, and what the validator and
`build_context` make of results, which may raise. -/
structure Env (ν : Type) where
  nfkc : Text → Text
  lower : Text → Text
  sort : List (ν × Row ν) → List (ν × Row ν)
  sort_perm : ∀ l, (sort l).Perm l
  decay : Int → Text → Option ν
  passive : List (Result ν) → Except Vector.Failure Unit

/-! ## Normalization -/

/-- `[\x00-\x1f\x7f]` -/
def isControl (c : Char) : Bool := c.toNat < 0x20 || c.toNat = 0x7f

/-- Runs of control characters and of whitespace are one blank, and none at the ends. -/
def collapse (s : Text) : Text :=
  [' '].intercalate (((s.map fun c => if isControl c then ' ' else c).splitOnP isSpace).filter
    fun word => word ≠ [])

/-- `xs[:k]` -/
def upTo {α : Type} (k : Int) (xs : List α) : List α :=
  if 0 ≤ k then xs.take k.toNat else xs.take (xs.length - k.natAbs)

section

variable {ν : Type} [Floats ν]

/-- `text_normalize` -/
def textNormalize (env : Env ν) : Value ν → Text
  | .null => []
  | v => env.lower (collapse (env.nfkc v.toStr))

/-- What a `for` loop over the value goes through, where there is one. -/
def iter : Value ν → Option (List (Value ν))
  | .list _ items => some items
  | .str s => some (s.map fun c => .str [c])
  | .dict fields => some (fields.map fun f => .str f.1)
  | _ => none

/-- `float(x)`, and `0.0` where it raises. -/
def floatOr (x : Value ν) : ν :=
  match x.toFloat with
  | .ok fx => fx
  | .error _ => Floats.lit 0

/-- The sum of the products. -/
def dotProduct (a b : List ν) : ν :=
  (a.zip b).foldl (fun sum p => Floats.add sum (Floats.mul p.1 p.2)) (Floats.lit 0)

/-- `vector_normalize` -/
def vectorNormalize (v : Value ν) : Option (List ν) :=
  if v.truthy then
    (iter v).bind fun items =>
      let out := items.map floatOr
      let norm := dotProduct out out
      if Python.isZero norm then some (out.map fun _ => Floats.lit 0)
      else (Floats.div (Floats.lit 1) (Floats.sqrt norm)).map fun inv =>
        out.map fun x => Floats.mul x inv
  else some []

/-- `_cosine_similarity` -/
def cosineSimilarity (a b : List ν) : Option ν :=
  if a = [] ∨ b = [] ∨ a.length ≠ b.length then some (Floats.lit 0)
  else
    let na := dotProduct a a
    let nb := dotProduct b b
    if Python.isZero na || Python.isZero nb then some (Floats.lit 0)
    else Floats.div (dotProduct a b) (Floats.mul (Floats.sqrt na) (Floats.sqrt nb))

/-! ## `upsert` -/

/-- `fields.setdefault(key, value)` -/
def setdefault (fields : List (Text × Value ν)) (key : Text) (value : Value ν) :
    List (Text × Value ν) :=
  match fields.lookup key with
  | some _ => fields
  | none => fields ++ [(key, value)]

/-- `score_meta`: the `meta` of the document, with its content for the search. -/
def scoreMetaOf (env : Env ν) (doc : Doc ν) : Option (Value ν) :=
  let content := doc.get (text "content")
  let scoreMeta := (doc.get (text "meta")).or (.dict [])
  if content.truthy then
    match scoreMeta with
    | .dict fields =>
      some (.dict (setdefault (setdefault fields (text "content") content)
        (text "content_normalized") (.str (textNormalize env content))))
    | _ => none
  else some scoreMeta

/-- What SQLite keeps of a value in a column of texts; `none` where it cannot be bound. -/
def column : Value ν → Option (Option Text)
  | .null => some none
  | .str s => some (some s)
  | .bool b => some (some (text (if b then "1" else "0")))
  | .int n => if -2 ^ 63 ≤ n ∧ n < 2 ^ 63 then some (some (text (toString n))) else none
  | .float x => some (Floats.column x)
  | .list _ _ => none
  | .dict _ => none

/-- The row that `upsert` inserts for a document at a time. -/
def rowOf (env : Env ν) (now : Text) (doc : Doc ν) : Option (Row ν) := do
  let embedding := (doc.get (text "embedding")).or (.list false [])
  let normalizedVector ← vectorNormalize embedding
  let embeddingId := (((doc.get (text "embedding_id")).or (doc.get (text "chunk_id"))).or
    (doc.get (text "id"))).or (.str [])
  let chunkId := ((doc.get (text "chunk_id")).or embeddingId).or (.str [])
  let scoreMeta ← scoreMetaOf env doc
  let items ← iter embedding
  let createdAt ← column ((doc.get (text "created_at")).or (.str now))
  let sourcePath ← column (doc.get (text "source_path"))
  return {
    embeddingId := embeddingId.toStr
    chunkId := chunkId.toStr
    vector := embedding.normal
    vectorDim := items.length
    createdAt
    sourcePath
    scoreMeta := scoreMeta.normal
    normalizedVector }

/-! ## Reads -/

/-- `score_meta`, where it is a mapping. -/
def Row.fields (row : Row ν) : Option (List (Text × Value ν)) :=
  match row.scoreMeta.or (.dict []) with
  | .dict fields => some fields
  | _ => none

/-- The result of a row whose `score_meta` has these fields. -/
def resultOf (name : String) (row : Row ν) (fields : List (Text × Value ν)) (embedding : Value ν)
    (similarity : Option ν) : Result ν :=
  let get := fun key => (fields.lookup (text key)).getD .null
  { id := if row.chunkId = [] then row.embeddingId else row.chunkId
    embeddingId := row.embeddingId
    chunkId := row.chunkId
    content := get "content"
    embedding := embedding.or (.list false [])
    vectorDim :=
      if row.vectorDim ≠ 0 then some row.vectorDim
      else if embedding.truthy then (iter embedding).map List.length else none
    similarity
    score := none
    trustScore := (fields.lookup (text "trust_score")).getD (.float (Floats.lit 1))
    model := get "model"
    provider := name
    sourcePath := row.sourcePath
    embeddingPath := get "embedding_path"
    createdAt := row.createdAt
    category := get "category"
    tags := get "tags"
    scoreMeta := .dict fields }

/-- `_normalize_row`; what has no `get` raises. -/
def normalizeRow (name : String) (row : Row ν) (embedding : Value ν) (similarity : Option ν) :
    Option (Result ν) :=
  row.fields.map fun fields => resultOf name row fields embedding similarity

/-- `get`; `None` is an empty list. -/
def getResult (name : String) (entries : Entries ν) (id : Text) : Option (List (Result ν)) :=
  match entries.rows.find? fun row => row.chunkId = id with
  | none => some []
  | some row => (normalizeRow name row row.vector none).map fun r => [r]

/-- The rows with their similarities to a vector, sorted. -/
def ranked (env : Env ν) (entries : Entries ν) (vector : Value ν) : Option (List (ν × Row ν)) := do
  let qvec ← vectorNormalize vector
  let parsed ← entries.rows.mapM fun row =>
    (cosineSimilarity qvec row.normalizedVector).map fun sim => (sim, row)
  return env.sort parsed

/-- `[-1,1]` becomes `[0,1]`. -/
def cosineToUnit (sim : ν) : ν :=
  (Floats.div (Floats.add sim (Floats.lit 1)) (Floats.lit 2)).getD (Floats.lit 0)

def rankedResult (name : String) (sim : ν) (row : Row ν) : Option (Result ν) :=
  (normalizeRow name row (.list false (row.normalizedVector.map .float)) (some sim)).map fun r =>
    { r with similarity := some (cosineToUnit sim) }

/-- `query_vector` -/
def queryVector (env : Env ν) (name : String) (entries : Entries ν) (vector : Value ν)
    (topK : Int) : Option (List (Result ν)) :=
  (ranked env entries vector).bind fun parsed =>
    (upTo topK parsed).mapM fun entry => rankedResult name entry.1 entry.2

/-- The normalized content of a row, where its `score_meta` has a `get`. -/
def contentNorm (env : Env ν) (row : Row ν) : Option Text :=
  match row.scoreMeta with
  | .dict fields =>
    some (textNormalize env (((fields.lookup (text "content")).getD .null).or (.str [])))
  | _ => none

/-- `search`; its `category` is not looked at. -/
def search (env : Env ν) (name : String) (entries : Entries ν) (query : Text)
    (_category : Option Text) (limit : Int) : Option (List (Result ν)) := do
  let contents ← entries.rows.mapM fun row => (contentNorm env row).map fun c => (c, row)
  let found := contents.filter fun entry => textNormalize env (.str query) <:+: entry.1
  let results ← found.mapM fun entry =>
    normalizeRow name entry.2 entry.2.vector (some (Floats.lit 1))
  return upTo limit results

end

end ProjectMaya.Retriever
