import Mathlib.Algebra.Group.Int.Defs
import Mathlib.Data.List.Infix
import Mathlib.Data.List.Sort
import Mathlib.Data.List.Lex
import Mathlib.Data.String.Basic
import ProjectMaya.Logic.Check
import ProjectMaya.Logic.Table

/-! # Memory documents

A document is a mapping from texts to values; what `json.dumps` and `json.loads` make of it
is its normal form (`Value.normal`, `normal`): tuples are lists, keys are sorted.

`prepareDocument` is the row that an upsert writes for a document. -/

namespace ProjectMaya.Vector

open Logic

abbrev Text := List Char

def text (s : String) : Text := s.toList

/-- The values a document can hold and JSON can write; `ν` is the type of floats. -/
inductive Value (ν : Type) where
  | null
  | bool (b : Bool)
  | int (n : Int)
  | float (x : ν)
  | str (s : Text)
  | list (tuple : Bool) (items : List (Value ν))
  | dict (fields : List (Text × Value ν))

/-- What the code uses of floats and of `str`. -/
class Python (ν : Type) where
  half : ν
  isZero : ν → Bool
  /-- `math.isfinite` -/
  isFinite : ν → Bool
  /-- `0.0 <= x <= 1.0` -/
  inUnit : ν → Bool
  /-- `float` of an integer, unless it overflows -/
  ofInt : Int → Option ν
  /-- `float` of a text, if it is a number -/
  ofText : Text → Option ν
  /-- `str` of a value that is no text -/
  repr : Value ν → Text

/-- The exceptions of the store. -/
inductive Failure where
  | valueError (message : String)
  | typeError
  | overflowError
  | keyError
  | runtimeError (message : String)
  /-- of SQLite, or from elsewhere -/
  | other
  deriving DecidableEq, Repr

section

variable {ν : Type} [Python ν]

/-- `bool(value)`. -/
def Value.truthy : Value ν → Bool
  | .null => false
  | .bool b => b
  | .int n => n ≠ 0
  | .float x => !Python.isZero x
  | .str s => s ≠ []
  | .list _ items => !items.isEmpty
  | .dict fields => !fields.isEmpty

/-- `a or b`. -/
def Value.or (a b : Value ν) : Value ν := if a.truthy then a else b

def Value.toStr : Value ν → Text
  | .str s => s
  | v => Python.repr v

/-- `float(value)`. -/
def Value.toFloat : Value ν → Except Failure ν
  | .float x => .ok x
  | .int n => fetch (Python.ofInt n) .overflowError
  | .bool b => fetch (Python.ofInt (if b then 1 else 0)) .overflowError
  | .str s => fetch (Python.ofText s) (.valueError "could not convert string to float")
  | _ => .error .typeError

end

section

variable {ν : Type}

/-- Keys compare by code points. -/
def keyLe (a b : Text × Value ν) : Prop := a.1 ≤ b.1

instance : DecidableRel (keyLe (ν := ν)) := fun a b => inferInstanceAs (Decidable (a.1 ≤ b.1))

mutual

/-- `json.loads(json.dumps(value, sort_keys=True))`. -/
def Value.normal : Value ν → Value ν
  | .list _ items => .list false (normalItems items)
  | .dict fields => .dict ((normalFields fields).insertionSort keyLe)
  | .null => .null
  | .bool b => .bool b
  | .int n => .int n
  | .float x => .float x
  | .str s => .str s

def normalItems : List (Value ν) → List (Value ν)
  | [] => []
  | v :: rest => v.normal :: normalItems rest

def normalFields : List (Text × Value ν) → List (Text × Value ν)
  | [] => []
  | (k, v) :: rest => (k, v.normal) :: normalFields rest

end

theorem normalFields_eq_map (fields : List (Text × Value ν)) :
    normalFields fields = fields.map fun f => (f.1, f.2.normal) := by
  induction fields with
  | nil => rfl
  | cons f rest ih => obtain ⟨k, v⟩ := f; rw [normalFields, ih]; rfl

theorem normalItems_eq_map (items : List (Value ν)) : normalItems items = items.map Value.normal := by
  induction items with
  | nil => rfl
  | cons v rest ih => rw [normalItems, ih]; rfl

theorem insertionSort_insertionSort (fields : List (Text × Value ν)) :
    (fields.insertionSort keyLe).insertionSort keyLe = fields.insertionSort keyLe := by
  have htotal : Std.Total (keyLe (ν := ν)) := ⟨fun a b => le_total a.1 b.1⟩
  have htrans : IsTrans (Text × Value ν) keyLe := ⟨fun _ _ _ => le_trans⟩
  exact (List.pairwise_insertionSort keyLe fields).insertionSort_eq

mutual

/-- What JSON gives back, it gives back again. -/
theorem Value.normal_normal : ∀ v : Value ν, v.normal.normal = v.normal
  | .list _ items => by
    simp only [Value.normal, normalItems_normalItems items]
  | .dict fields => by
    have hfix : normalFields ((normalFields fields).insertionSort keyLe) =
        (normalFields fields).insertionSort keyLe := by
      rw [normalFields_eq_map ((normalFields fields).insertionSort keyLe)]
      conv => rhs; rw [← List.map_id ((normalFields fields).insertionSort keyLe)]
      refine List.map_congr_left fun f hf => ?_
      rw [normalFields_fixed fields f ((List.mem_insertionSort keyLe).1 hf)]
      rfl
    simp only [Value.normal, hfix, insertionSort_insertionSort]
  | .null => rfl
  | .bool _ => rfl
  | .int _ => rfl
  | .float _ => rfl
  | .str _ => rfl

theorem normalItems_normalItems : ∀ items : List (Value ν),
    normalItems (normalItems items) = normalItems items
  | [] => rfl
  | v :: rest => by
    simp only [normalItems, Value.normal_normal v, normalItems_normalItems rest]

theorem normalFields_fixed : ∀ (fields : List (Text × Value ν)), ∀ f ∈ normalFields fields,
    f.2.normal = f.2
  | [], _, h => by simp [normalFields] at h
  | (k, v) :: rest, f, h => by
    rcases List.mem_cons.1 h with rfl | h
    · exact Value.normal_normal v
    · exact normalFields_fixed rest f h

end

end

/-- `dict[str, Any]`. -/
abbrev Doc (ν : Type) := Table (Text × Value ν) Text Prod.fst

namespace Doc

variable {ν : Type}

def ofFields (fields : List (Text × Value ν)) (h : (fields.map Prod.fst).Nodup := by decide) : Doc ν :=
  ⟨fields, h⟩

/-- `key in document`, with the value. -/
def get? (d : Doc ν) (k : Text) : Option (Value ν) := (d.find? k).map Prod.snd

/-- `document.get(key)`. -/
def get (d : Doc ν) (k : Text) : Value ν := (d.get? k).getD .null

/-- `document[key] = value`. -/
def put (d : Doc ν) (k : Text) (v : Value ν) : Doc ν :=
  d.upsert (k, v) (fun x => (x.1, v)) fun _ => rfl

/-- `document.setdefault(key, value)`. -/
def setdefault (d : Doc ν) (k : Text) (v : Value ν) : Doc ν :=
  match d.get? k with
  | some _ => d
  | none => d.put k v

/-- `document.pop(key, None)`. -/
def pop (d : Doc ν) (k : Text) : Doc ν := d.delete fun f => f.1 = k

theorem get?_put (d : Doc ν) (k k' : Text) (v : Value ν) :
    (d.put k v).get? k' = if k' = k then some v else d.get? k' := by
  have hval : (d.upserted (k, v) fun x => (x.1, v)).2 = v := by
    unfold Table.upserted
    cases d.find? k <;> rfl
  show ((d.upsert (k, v) (fun x => (x.1, v)) fun _ => rfl).find? k').map Prod.snd = _
  rw [Table.find?_upsert]
  by_cases hk : k' = k
  · rw [if_pos hk, if_pos hk, Option.map_some, hval]
  · rw [if_neg hk, if_neg hk]
    rfl

theorem get?_setdefault (d : Doc ν) (k k' : Text) (v : Value ν) :
    (d.setdefault k v).get? k' = if k' = k then some ((d.get? k).getD v) else d.get? k' := by
  unfold setdefault
  cases hk : d.get? k with
  | some w =>
    by_cases he : k' = k
    · rw [if_pos he, he, hk]; rfl
    · rw [if_neg he]
  | none => exact get?_put d k k' v

theorem get?_pop (d : Doc ν) (k k' : Text) :
    (d.pop k).get? k' = if k' = k then none else d.get? k' := by
  show ((d.delete fun f => f.1 = k).find? k').map Prod.snd = _
  rw [Table.find?_delete_key]
  split <;> rfl

/-- The normal form of a document: what is read back of its JSON text. -/
def normal (d : Doc ν) : Doc ν where
  rows := (normalFields d.rows).insertionSort keyLe
  nodup := by
    have hkeys : (normalFields d.rows).map Prod.fst = d.rows.map Prod.fst := by
      rw [normalFields_eq_map, List.map_map]
      rfl
    refine (((List.perm_insertionSort keyLe _).map Prod.fst).nodup_iff).2 ?_
    rw [hkeys]
    exact d.nodup

theorem normal_normal (d : Doc ν) : d.normal.normal = d.normal := by
  apply Table.ext
  have h : Value.dict ((normalFields d.normal.rows).insertionSort keyLe) = .dict d.normal.rows :=
    Value.normal_normal (.dict d.rows)
  exact Value.dict.inj h

theorem mem_normal {d : Doc ν} {f : Text × Value ν} :
    f ∈ d.normal ↔ ∃ v, (f.1, v) ∈ d ∧ f.2 = v.normal := by
  show f ∈ (normalFields d.rows).insertionSort keyLe ↔ _
  rw [List.mem_insertionSort, normalFields_eq_map, List.mem_map]
  constructor
  · rintro ⟨⟨k, v⟩, hm, rfl⟩
    exact ⟨v, hm, rfl⟩
  · rintro ⟨v, hm, hv⟩
    exact ⟨(f.1, v), hm, by rw [← hv]⟩

theorem get?_normal (d : Doc ν) (k : Text) : d.normal.get? k = (d.get? k).map Value.normal := by
  unfold get?
  cases hf : d.find? k with
  | some f =>
    obtain ⟨hm, rfl⟩ := Table.find?_eq_some.mp hf
    have hn : d.normal.find? f.1 = some (f.1, f.2.normal) :=
      Table.find?_eq_some.mpr ⟨mem_normal.mpr ⟨f.2, hm, rfl⟩, rfl⟩
    rw [hn]
    rfl
  | none =>
    have hn : d.normal.find? k = none := by
      rw [Table.find?_eq_none] at hf ⊢
      intro g hg
      obtain ⟨v, hv, -⟩ := mem_normal.mp hg
      exact hf (g.1, v) hv
    rw [hn]
    rfl

end Doc

/-! ## What the store derives from a document -/

/-- `str.isspace` of one character. -/
def isSpace (c : Char) : Bool :=
  (9 ≤ c.toNat && c.toNat ≤ 13) || (28 ≤ c.toNat && c.toNat ≤ 32) ||
    (0x2000 ≤ c.toNat && c.toNat ≤ 0x200a) ||
    [0x85, 0xa0, 0x1680, 0x2028, 0x2029, 0x202f, 0x205f, 0x3000].contains c.toNat

/-- `str.strip`. -/
def strip (s : Text) : Text := ((s.dropWhile isSpace).reverse.dropWhile isSpace).reverse

section

variable {ν : Type} [Python ν]

def idKeys : List Text := [text "id", text "chunk_id", text "embedding_id"]

/-- `_document_id`. -/
def documentId (d : Doc ν) : Except Failure Text :=
  match idKeys.find? fun k => (d.get k).truthy with
  | some k => .ok (d.get k).toStr
  | none => .error (.valueError "document requires id, chunk_id, or embedding_id")

/-- `value.strip()` of a text that is not blank. -/
def Value.words : Value ν → Option Text
  | .str s => if strip s = [] then none else some (strip s)
  | _ => none

/-- `_document_content`. -/
def documentContent (d : Doc ν) : Text :=
  match (d.get (text "content")).words, (d.get (text "text")).words with
  | some s, _ => s
  | none, some s => s
  | none, none =>
    ['\n'].intercalate
      (((d.get (text "user_content")).words.map fun s => text "User: " ++ s).toList ++
        ((d.get (text "assistant_content")).words.map fun s => text "Assistant: " ++ s).toList)

/-- `_validated_vector`. -/
def validatedVector : Value ν → Except Failure (List ν)
  | .null => .ok []
  | .list _ items => do
    let vector ← items.mapM Value.toFloat
    ensure (vector.all Python.isFinite) (.valueError "embedding values must be finite")
    return vector
  | _ => .error (.valueError "embedding must be a numeric list")

/-- `doc.get("embedding") or doc.get("vector") or []`. -/
def embeddingField (d : Doc ν) : Value ν :=
  ((d.get (text "embedding")).or (d.get (text "vector"))).or (.list false [])

/-- A row of `memory_records`; `document` stands for its JSON text. -/
structure Record (ν : Type) where
  recordId : Text
  document : Doc ν
  content : Text
  category : Value ν
  trustScore : ν
  embedding : Option (List ν)
  vectorDim : Option Nat
  sourcePath : Value ν
  sourceHash : Value ν
  extractorVersion : Value ν
  createdAt : Text
  updatedAt : Text

/-- `x if vector else None`. -/
def unlessEmpty {α : Type} (vector : List ν) (x : α) : Option α :=
  if vector.isEmpty then none else some x

/-- `doc.get("meta")` if it is a mapping, else an empty one. -/
def metadataOf (d : Doc ν) : List (Text × Value ν) :=
  match d.get (text "meta") with
  | .dict fields => fields
  | _ => []

/-- `doc.get(key) or metadata.get(key)`. -/
def describing (d : Doc ν) (k : Text) : Value ν :=
  (d.get k).or (((metadataOf d).lookup k).getD .null)

/-- The document that is stored: the three defaults filled in. -/
def withDefaults (d : Doc ν) (recordId createdAt : Text) (trustScore : ν) : Doc ν :=
  ((d.setdefault (text "id") (.str recordId)).setdefault (text "created_at")
    (.str createdAt)).setdefault (text "trust_score") (.float trustScore)

/-- `_prepare_document`, with the time at which it runs. -/
def prepareDocument (now : Text) (document : Doc ν) : Except Failure (Record ν) := do
  let recordId ← documentId document
  let embedding ← validatedVector (embeddingField document)
  let trustScore ← ((document.get? (text "trust_score")).getD (.float Python.half)).toFloat
  ensure (Python.inUnit trustScore) (.valueError "trust_score must be between 0 and 1")
  let createdAt := ((document.get (text "created_at")).or (.str now)).toStr
  let doc := withDefaults document recordId createdAt trustScore
  return {
    recordId
    document := doc.normal
    content := documentContent document
    category := describing doc (text "category")
    trustScore
    embedding := unlessEmpty embedding embedding
    vectorDim := unlessEmpty embedding embedding.length
    sourcePath := describing doc (text "source_path")
    sourceHash := describing doc (text "source_hash")
    extractorVersion := describing doc (text "extractor_version")
    createdAt
    updatedAt := now }

/-! ## Normal forms -/

@[simp] theorem Value.truthy_normal (v : Value ν) : v.normal.truthy = v.truthy := by
  cases v with
  | list tuple items => cases items <;> simp [normal, truthy, normalItems_eq_map]
  | dict fields =>
    have hlen := List.length_insertionSort keyLe (normalFields fields)
    cases fields with
    | nil => rfl
    | cons f rest =>
      have hne : ((normalFields (f :: rest)).insertionSort keyLe).isEmpty = false := by
        rw [List.isEmpty_eq_false_iff, ← List.length_pos_iff, hlen, normalFields_eq_map]
        simp
      simp [normal, truthy, hne]
  | _ => rfl

theorem Value.normal_or (a b : Value ν) : (a.or b).normal = a.normal.or b.normal := by
  unfold Value.or
  rw [truthy_normal]
  split <;> rfl

omit [Python ν] in
@[simp] theorem Value.words_normal (v : Value ν) : v.normal.words = v.words := by
  cases v <;> simp [normal, words]

@[simp] theorem Value.toFloat_normal (v : Value ν) : v.normal.toFloat = v.toFloat := by
  cases v <;> simp [normal, toFloat]

@[simp] theorem validatedVector_normal (v : Value ν) : validatedVector v.normal = validatedVector v := by
  cases v with
  | list tuple items =>
    have hitems : (items.map Value.normal).mapM Value.toFloat = items.mapM (Value.toFloat (ν := ν)) := by
      rw [List.mapM_map]
      congr 1
      funext v
      exact v.toFloat_normal
    simp only [Value.normal, validatedVector, normalItems_eq_map, hitems]
  | _ => rfl

omit [Python ν] in
theorem Doc.get_normal (d : Doc ν) (k : Text) : d.normal.get k = (d.get k).normal := by
  unfold Doc.get
  rw [Doc.get?_normal]
  cases d.get? k <;> rfl

/-- A value that `json` gives back as it was. -/
def Value.scalar : Value ν → Bool
  | .list _ _ => false
  | .dict _ => false
  | _ => true

omit [Python ν] in
theorem Value.normal_of_scalar {v : Value ν} (h : v.normal.scalar = true) : v.normal = v := by
  cases v with
  | list tuple items => simp [normal, scalar] at h
  | dict fields => simp [normal, scalar] at h
  | _ => rfl

/-! ## Rows and their documents -/

omit [Python ν] in
theorem documentContent_congr {d d' : Doc ν}
    (h : ∀ k ∈ [text "content", text "text", text "user_content", text "assistant_content"],
      (d.get k).words = (d'.get k).words) : documentContent d = documentContent d' := by
  simp only [List.forall_mem_cons] at h
  obtain ⟨h₁, h₂, h₃, h₄, -⟩ := h
  unfold documentContent
  rw [h₁, h₂, h₃, h₄]

theorem embeddingField_normal (d : Doc ν) :
    embeddingField d.normal = (embeddingField d).normal := by
  unfold embeddingField
  rw [Value.normal_or, Value.normal_or, Doc.get_normal, Doc.get_normal]
  rfl

omit [Python ν] in
theorem documentContent_normal (d : Doc ν) : documentContent d.normal = documentContent d :=
  documentContent_congr fun k _ => by rw [Doc.get_normal, Value.words_normal]

omit [Python ν] in
theorem get?_withDefaults (d : Doc ν) (recordId createdAt : Text) (trustScore : ν) (k : Text) :
    (withDefaults d recordId createdAt trustScore).get? k =
      if k = text "trust_score" then some ((d.get? k).getD (.float trustScore))
      else if k = text "created_at" then some ((d.get? k).getD (.str createdAt))
      else if k = text "id" then some ((d.get? k).getD (.str recordId))
      else d.get? k := by
  have h₁ : text "trust_score" ≠ text "created_at" := by decide
  have h₂ : text "trust_score" ≠ text "id" := by decide
  have h₃ : text "created_at" ≠ text "id" := by decide
  unfold withDefaults
  simp only [Doc.get?_setdefault, if_neg h₁, if_neg h₂, if_neg h₃]
  by_cases hk : k = text "trust_score"
  · rw [if_pos hk, if_pos hk, hk]
  · rw [if_neg hk, if_neg hk]
    by_cases hk : k = text "created_at"
    · rw [if_pos hk, if_pos hk, hk]
    · rw [if_neg hk, if_neg hk]
      by_cases hk : k = text "id"
      · rw [if_pos hk, if_pos hk, hk]
      · rw [if_neg hk, if_neg hk]

omit [Python ν] in
theorem get_withDefaults (d : Doc ν) (recordId createdAt : Text) (trustScore : ν) {k : Text}
    (h : k ∉ [text "trust_score", text "created_at", text "id"]) :
    (withDefaults d recordId createdAt trustScore).get k = d.get k := by
  simp only [List.mem_cons, List.not_mem_nil, or_false, not_or] at h
  unfold Doc.get
  rw [get?_withDefaults, if_neg h.1, if_neg h.2.1, if_neg h.2.2]

/-- What a row and the document it stores have in common. -/
structure Record.Sound (r : Record ν) : Prop where
  normal : r.document.normal = r.document
  content : documentContent r.document = r.content
  trustScore : (r.document.get (text "trust_score")).toFloat = .ok r.trustScore
  embedding : validatedVector (embeddingField r.document) = .ok (r.embedding.getD [])
  nonempty : r.embedding ≠ some []
  vectorDim : r.vectorDim = r.embedding.map List.length
  identified : (r.document.get? (text "id")).isSome = true
  recordId : ∀ v, r.document.get? (text "id") = some v → v.truthy = true → v.scalar = true →
    v.toStr = r.recordId

/-- The document of a row carries the row's creation time. -/
def Record.Dated (r : Record ν) : Prop :=
  ∀ v, r.document.get? (text "created_at") = some v → v.truthy = true → v.scalar = true →
    v.toStr = r.createdAt

omit [Python ν] in
@[simp] theorem unlessEmpty_getD (vector : List ν) : (unlessEmpty vector vector).getD [] = vector := by
  cases vector <;> rfl

omit [Python ν] in
theorem unlessEmpty_ne (vector : List ν) : unlessEmpty vector vector ≠ some [] := by
  cases vector <;> simp [unlessEmpty]

omit [Python ν] in
theorem unlessEmpty_map (vector : List ν) :
    unlessEmpty vector vector.length = (unlessEmpty vector vector).map List.length := by
  cases vector <;> rfl

theorem prepareDocument_eq_ok {now : Text} {d : Doc ν} {r : Record ν}
    (h : prepareDocument now d = .ok r) :
    documentId d = .ok r.recordId ∧
      validatedVector (embeddingField d) = .ok (r.embedding.getD []) ∧
      ((d.get? (text "trust_score")).getD (.float Python.half)).toFloat = .ok r.trustScore ∧
      ((d.get (text "created_at")).or (.str now)).toStr = r.createdAt ∧
      (withDefaults d r.recordId r.createdAt r.trustScore).normal = r.document ∧
      documentContent d = r.content ∧
      r.embedding = unlessEmpty (r.embedding.getD []) (r.embedding.getD []) ∧
      r.vectorDim = r.embedding.map List.length := by
  simp only [prepareDocument, bind_eq_ok, pure_eq_ok, ensure_eq_ok] at h
  obtain ⟨recordId, hid, vector, hvec, trust, htrust, -, -, rfl⟩ := h
  exact ⟨hid, by rw [unlessEmpty_getD]; exact hvec, htrust, rfl, rfl, rfl,
    by rw [unlessEmpty_getD], unlessEmpty_map vector⟩

omit [Python ν] in
/-- What a truthy scalar under a key was before it was stored. -/
theorem get?_stored {d : Doc ν} {recordId createdAt : Text} {trustScore : ν} {k : Text}
    {v : Value ν}
    (h : (withDefaults d recordId createdAt trustScore).normal.get? k = some v)
    (hs : v.scalar = true) : (withDefaults d recordId createdAt trustScore).get? k = some v := by
  rw [Doc.get?_normal, Option.map_eq_some_iff] at h
  obtain ⟨w, hw, rfl⟩ := h
  rw [hw, Value.normal_of_scalar hs]

theorem prepareDocument_sound {now : Text} {d : Doc ν} {r : Record ν}
    (h : prepareDocument now d = .ok r) : r.Sound ∧ r.Dated := by
  obtain ⟨hid, hvec, htrust, hcreated, hdoc, hcontent, hemb, hdim⟩ := prepareDocument_eq_ok h
  have hfield : embeddingField r.document = (embeddingField d).normal := by
    rw [← hdoc, embeddingField_normal]
    unfold embeddingField
    rw [get_withDefaults _ _ _ _ (by decide), get_withDefaults _ _ _ _ (by decide)]
  refine ⟨⟨?_, ?_, ?_, ?_, ?_, hdim, ?_, ?_⟩, ?_⟩
  · rw [← hdoc, Doc.normal_normal]
  · rw [← hdoc, documentContent_normal, ← hcontent]
    refine documentContent_congr fun k hk => ?_
    rw [get_withDefaults]
    revert k
    decide
  · rw [← hdoc, Doc.get_normal, Value.toFloat_normal, Doc.get, get?_withDefaults, if_pos rfl,
      Option.getD_some]
    cases hv : d.get? (text "trust_score") with
    | some v => rw [hv] at htrust; exact htrust
    | none => rfl
  · rw [hfield, validatedVector_normal, hvec]
  · rw [hemb]
    exact unlessEmpty_ne _
  · rw [← hdoc, Doc.get?_normal, get?_withDefaults, if_neg (by decide), if_neg (by decide),
      if_pos rfl]
    rfl
  · intro v hv ht hs
    rw [← hdoc] at hv
    have hv := get?_stored hv hs
    rw [get?_withDefaults, if_neg (by decide), if_neg (by decide), if_pos rfl] at hv
    cases hd : d.get? (text "id") with
    | none =>
      obtain rfl : .str r.recordId = v := by simpa [hd] using hv
      rfl
    | some w =>
      obtain rfl : w = v := by simpa [hd] using hv
      have hfind : idKeys.find? (fun k => (d.get k).truthy) = some (text "id") := by
        simp [idKeys, Doc.get, hd, ht]
      unfold documentId at hid
      rw [hfind] at hid
      simpa [Doc.get, hd] using hid
  · intro v hv ht hs
    rw [← hdoc] at hv
    have hv := get?_stored hv hs
    rw [get?_withDefaults, if_neg (by decide), if_pos rfl] at hv
    cases hd : d.get? (text "created_at") with
    | none =>
      obtain rfl : .str r.createdAt = v := by simpa [hd] using hv
      rfl
    | some w =>
      obtain rfl : w = v := by simpa [hd] using hv
      rw [← hcreated]
      simp [Doc.get, hd, Value.or, ht]

end

end ProjectMaya.Vector
