import Mathlib.Data.List.Dedup
import ProjectMaya.Documents

/-! # The memory store

The tables of the store, each statement of the code as a function of them, and what
`upsert` and `replaceEmbeddings` do when nothing comes in between (`upsertMany`,
`replaceAll`).

`Db.Inv` says how the tables hang together; both operations keep it. -/

namespace ProjectMaya.Vector

open Logic

structure Db (ν : Type) where
  records : Table (Record ν) Text Record.recordId
  fts : List (Text × Text)
  /-- `embedding_dimension` in `memory_metadata` -/
  dimension : Option Nat
  /-- The rows that upserts have written, oldest first; no statement reads it. -/
  written : List (Record ν)

section

variable {ν : Type}

def Db.empty : Db ν := ⟨Table.empty, [], none, []⟩

/-! ## Statements -/

/-- A value that can be a parameter of a statement. -/
def Value.bindable : Value ν → Bool
  | .list _ _ => false
  | .dict _ => false
  | .int n => -2 ^ 63 ≤ n && n < 2 ^ 63
  | _ => true

/-- `ON CONFLICT(record_id) DO UPDATE SET`: all columns but `created_at`. -/
def Record.onConflict (r x : Record ν) : Record ν :=
  { r with recordId := x.recordId, createdAt := x.createdAt }

theorem Record.recordId_onConflict (r x : Record ν) : (r.onConflict x).recordId = x.recordId := rfl

/-- `INSERT INTO memory_records … ON CONFLICT …`. -/
def insertRecord (r : Record ν) (db : Db ν) : Except Failure (Db ν) := do
  ensure ([r.category, r.sourcePath, r.sourceHash, r.extractorVersion].all Value.bindable) .other
  return { db with
    records := db.records.upsert r r.onConflict r.recordId_onConflict
    written := db.written ++ [r] }

/-- `DELETE FROM memory_records_fts WHERE record_id = ?`. -/
def deleteFts (recordId : Text) (db : Db ν) : Db ν :=
  { db with fts := db.fts.filter fun row => row.1 ≠ recordId }

/-- `INSERT INTO memory_records_fts`. -/
def insertFts (recordId content : Text) (db : Db ν) : Db ν :=
  { db with fts := db.fts ++ [(recordId, content)] }

def setDimension (n : Nat) (db : Db ν) : Db ν := { db with dimension := some n }

def clearDimension (db : Db ν) : Db ν := { db with dimension := none }

/-- `SELECT DISTINCT vector_dim … WHERE vector_dim IS NOT NULL`. -/
def vectorDims (db : Db ν) : List Nat := (db.records.rows.filterMap Record.vectorDim).dedup

/-- `SELECT … ORDER BY record_id`. -/
def orderedRecords (db : Db ν) : List (Record ν) :=
  db.records.rows.insertionSort fun r s => r.recordId ≤ s.recordId

/-- The document with a new embedding, or with none. -/
def withEmbedding (d : Doc ν) (vector : List ν) : Doc ν :=
  if vector.isEmpty then (d.pop (text "embedding")).pop (text "vector")
  else d.put (text "embedding") (.list false (vector.map .float))

/-- `SET document_json = ?, embedding_json = ?, …`, from a row that was read. -/
def Record.setEmbedding (now : Text) (vector : List ν) (read x : Record ν) : Record ν :=
  { x with
    document := (withEmbedding read.document vector).normal
    embedding := unlessEmpty vector vector
    vectorDim := unlessEmpty vector vector.length
    updatedAt := now }

theorem Record.recordId_setEmbedding (now : Text) (vector : List ν) (read x : Record ν) :
    (Record.setEmbedding now vector read x).recordId = x.recordId := rfl

/-- `UPDATE memory_records … WHERE record_id = ?`. -/
def updateEmbedding (now : Text) (vector : List ν) (read : Record ν) (db : Db ν) : Db ν :=
  { db with
    records := db.records.update (fun x => x.recordId = read.recordId)
      (Record.setEmbedding now vector read) (Record.recordId_setEmbedding now vector read) }

/-! ## Whole operations -/

/-- The dimensions of the incoming rows. -/
def incoming (prepared : List (Record ν)) : List Nat := (prepared.filterMap Record.vectorDim).dedup

/-- What the check of an incoming dimension finds stored, and whether it has to be set. -/
def storedDimension (db : Db ν) (d : Nat) : Except Failure (Nat × Bool) :=
  match db.dimension with
  | some s => .ok (s, false)
  | none =>
    match vectorDims db with
    | [] => .ok (d, true)
    | [s] => .ok (s, true)
    | _ => .error (.valueError "stored embeddings use inconsistent dimensions")

/-- `_validate_embedding_dimensions`. -/
def validateDimensions (prepared : List (Record ν)) (db : Db ν) : Except Failure (Db ν) :=
  match incoming prepared with
  | [] => .ok db
  | [d] => do
    let (stored, new) ← storedDimension db d
    ensure (d = stored) (.valueError "embedding dimension does not match")
    return if new then setDimension stored db else db
  | _ => .error (.valueError "all embeddings must use one dimension")

def upsertRow (r : Record ν) (db : Db ν) : Except Failure (Db ν) := do
  let db ← insertRecord r db
  return insertFts r.recordId r.content (deleteFts r.recordId db)

/-- `_upsert_many` of prepared rows. -/
def upsertMany (prepared : List (Record ν)) (db : Db ν) : Except Failure (Db ν) := do
  let db ← validateDimensions prepared db
  prepared.foldlM (fun db r => upsertRow r db) db

/-- The vectors by record, checked; their dimensions. -/
structure Embeddings (ν : Type) where
  vectors : List (Text × List ν)
  dimension : Option Nat

def Embeddings.vector (e : Embeddings ν) (recordId : Text) : List ν :=
  (e.vectors.lookup recordId).getD []

/-- `set(prepared) == stored_ids`. -/
def Embeddings.covers (e : Embeddings ν) (rows : List (Record ν)) : Bool :=
  (e.vectors.all fun v => rows.any fun r => r.recordId = v.1) &&
    rows.all fun r => e.vectors.any fun v => v.1 = r.recordId

/-- The updates of `replace_embeddings` for the rows that were read. -/
def updateAll (now : Text) (e : Embeddings ν) (rows : List (Record ν)) (db : Db ν) : Db ν :=
  rows.foldl (fun db r => updateEmbedding now (e.vector r.recordId) r db) db

/-- Its two statements on the metadata. -/
def resetDimension (e : Embeddings ν) (db : Db ν) : Db ν :=
  match e.dimension with
  | none => clearDimension db
  | some n => setDimension n (clearDimension db)

/-- `replace_embeddings` of checked vectors. -/
def replaceAll (now : Text) (e : Embeddings ν) (db : Db ν) : Except Failure (Db ν) := do
  let rows := orderedRecords db
  ensure (e.covers rows) (.valueError "embedding rebuild must cover every memory record")
  return resetDimension e (updateAll now e rows db)

end

section

variable {ν : Type} [Python ν]

/-- The checks of `replace_embeddings` on its argument. -/
def checkEmbeddings (embeddings : Doc ν) : Except Failure (Embeddings ν) := do
  let vectors ← embeddings.rows.mapM fun f => do
    let vector ← validatedVector f.2
    return (f.1, vector)
  match (vectors.filterMap fun v => unlessEmpty v.2 v.2.length).dedup with
  | [] => return ⟨vectors, none⟩
  | [n] => return ⟨vectors, some n⟩
  | _ => .error (.valueError "all embeddings must use one dimension")

/-! ## The invariant -/

/-- Two rows describe the same document, apart from its embedding. -/
structure Record.Describes (r w : Record ν) : Prop where
  document : ∀ k, k ≠ text "embedding" → k ≠ text "vector" →
    r.document.get? k = w.document.get? k
  content : r.content = w.content

/-- The row of the first upsert of a record. -/
def Db.first (db : Db ν) (recordId : Text) : Option (Record ν) :=
  db.written.find? fun w => w.recordId = recordId

/-- The row of its newest upsert. -/
def Db.newest (db : Db ν) (recordId : Text) : Option (Record ν) :=
  db.written.reverse.find? fun w => w.recordId = recordId

structure Db.Inv (db : Db ν) : Prop where
  sound : ∀ r ∈ db.records, r.Sound
  fts : ∀ row, row ∈ db.fts ↔ ∃ r ∈ db.records, (r.recordId, r.content) = row
  fts_nodup : (db.fts.map Prod.fst).Nodup
  dimension : ∀ r ∈ db.records, ∀ n, r.vectorDim = some n → db.dimension = some n
  written : ∀ w ∈ db.written, w.Sound ∧ w.Dated
  known : ∀ w ∈ db.written, ∃ r ∈ db.records, r.recordId = w.recordId
  first : ∀ r ∈ db.records, ∃ w, db.first r.recordId = some w ∧ r.createdAt = w.createdAt
  newest : ∀ r ∈ db.records, ∃ w, db.newest r.recordId = some w ∧ r.Describes w

theorem Db.inv_empty : (Db.empty : Db ν).Inv := by
  constructor <;> simp [Db.empty, Table.empty, Table.mem_def]

section Upsert

variable {db : Db ν} {r : Record ν}

theorem Record.Sound.of_columns {x : Record ν} (h : r.Sound) (hid : x.recordId = r.recordId)
    (hdoc : x.document = r.document) (hcontent : x.content = r.content)
    (htrust : x.trustScore = r.trustScore) (hemb : x.embedding = r.embedding)
    (hdim : x.vectorDim = r.vectorDim) : x.Sound := by
  constructor
  · rw [hdoc]; exact h.normal
  · rw [hdoc, hcontent]; exact h.content
  · rw [hdoc, htrust]; exact h.trustScore
  · rw [hdoc, hemb]; exact h.embedding
  · rw [hemb]; exact h.nonempty
  · rw [hemb, hdim]; exact h.vectorDim
  · rw [hdoc]; exact h.identified
  · rw [hdoc, hid]; exact h.recordId

omit [Python ν] in
/-- The row that is there after an upsert: the new one, but for the creation time. -/
theorem upserted_eq (t : Table (Record ν) Text Record.recordId) (r : Record ν) :
    t.upserted r r.onConflict =
      { r with createdAt := ((t.find? r.recordId).map Record.createdAt).getD r.createdAt } := by
  unfold Table.upserted
  cases h : t.find? r.recordId with
  | none => rfl
  | some x =>
    have hid : x.recordId = r.recordId := (Table.find?_eq_some.1 h).2
    show r.onConflict x = { r with createdAt := x.createdAt }
    rw [Record.onConflict, hid]

omit [Python ν] in
theorem upsertRow_eq_ok {db' : Db ν} (h : upsertRow r db = .ok db') :
    db' = {
      records := db.records.upsert r r.onConflict r.recordId_onConflict
      fts := db.fts.filter (fun row => row.1 ≠ r.recordId) ++ [(r.recordId, r.content)]
      dimension := db.dimension
      written := db.written ++ [r] } := by
  simp only [upsertRow, insertRecord, bind_eq_ok, pure_eq_ok, ensure_eq_ok] at h
  obtain ⟨_, ⟨-, -, rfl⟩, rfl⟩ := h
  rfl

omit [Python ν] in
theorem find?_append_singleton (l : List (Record ν)) (r : Record ν) (k : Text) :
    (l ++ [r]).find? (fun w => w.recordId = k) =
      (l.find? fun w => w.recordId = k).or (if r.recordId = k then some r else none) := by
  rw [List.find?_append]
  by_cases h : r.recordId = k <;> simp [h]

omit [Python ν] in
theorem newest_append (db : Db ν) (r : Record ν) (k : Text) :
    ((db.written ++ [r]).reverse.find? fun w => w.recordId = k) =
      if r.recordId = k then some r else db.newest k := by
  rw [List.reverse_append, List.reverse_singleton, List.singleton_append, List.find?_cons]
  by_cases h : r.recordId = k
  · simp [h]
  · simp [h, Db.newest]

theorem Db.Inv.upsertRow {db' : Db ν} (hi : db.Inv) (hr : r.Sound) (hd : r.Dated)
    (hdim : ∀ n, r.vectorDim = some n → db.dimension = some n)
    (h : Vector.upsertRow r db = .ok db') : db'.Inv ∧ db'.dimension = db.dimension := by
  obtain rfl := upsertRow_eq_ok h
  refine ⟨?_, rfl⟩
  have hmem : ∀ x, x ∈ db.records.upsert r r.onConflict r.recordId_onConflict ↔
      (x ∈ db.records ∧ x.recordId ≠ r.recordId) ∨ x = { r with createdAt :=
        ((db.records.find? r.recordId).map Record.createdAt).getD r.createdAt } := by
    intro x
    rw [Table.mem_upsert, upserted_eq]
  constructor
  · intro x hx
    rcases (hmem x).1 hx with ⟨hx, -⟩ | rfl
    · exact hi.sound x hx
    · exact hr.of_columns rfl rfl rfl rfl rfl rfl
  · intro row
    simp only [List.mem_append, List.mem_filter, List.mem_singleton, hi.fts]
    constructor
    · rintro (⟨⟨x, hx, rfl⟩, hne⟩ | rfl)
      · exact ⟨x, (hmem x).2 (.inl ⟨hx, by simpa using hne⟩), rfl⟩
      · exact ⟨_, (hmem _).2 (.inr rfl), rfl⟩
    · rintro ⟨x, hx, rfl⟩
      rcases (hmem x).1 hx with ⟨hx, hne⟩ | rfl
      · exact .inl ⟨⟨x, hx, rfl⟩, by simpa using hne⟩
      · exact .inr rfl
  · show ((db.fts.filter (fun row => row.1 ≠ r.recordId) ++ [(r.recordId, r.content)]).map
      Prod.fst).Nodup
    rw [List.map_append, List.nodup_append]
    refine ⟨hi.fts_nodup.sublist (List.filter_sublist.map _), List.nodup_singleton _, ?_⟩
    intro k hk k' hk' he
    obtain ⟨row, hrow, rfl⟩ := List.mem_map.1 hk
    have hne := (List.mem_filter.1 hrow).2
    have : k' = r.recordId := by simpa using hk'
    simp [he, this] at hne
  · intro x hx n hn
    rcases (hmem x).1 hx with ⟨hx, -⟩ | rfl
    · exact hi.dimension x hx n hn
    · exact hdim n hn
  · intro w hw
    rcases List.mem_append.1 hw with hw | hw
    · exact hi.written w hw
    · rw [List.mem_singleton.1 hw]
      exact ⟨hr, hd⟩
  · intro w hw
    by_cases hk : w.recordId = r.recordId
    · exact ⟨_, (hmem _).2 (.inr rfl), hk.symm⟩
    · rcases List.mem_append.1 hw with hw | hw
      · obtain ⟨x, hx, hxw⟩ := hi.known w hw
        exact ⟨x, (hmem x).2 (.inl ⟨hx, hxw ▸ hk⟩), hxw⟩
      · exact absurd (by rw [List.mem_singleton.1 hw]) hk
  · intro x hx
    show ∃ w, (db.written ++ [r]).find? (fun w => w.recordId = x.recordId) = some w ∧ _
    rw [find?_append_singleton]
    rcases (hmem x).1 hx with ⟨hx, -⟩ | rfl
    · obtain ⟨w, hw, hc⟩ := hi.first x hx
      exact ⟨w, by rw [show db.written.find? (fun w => w.recordId = x.recordId) = some w from hw]; rfl,
        hc⟩
    · cases hf : db.records.find? r.recordId with
      | some y =>
        obtain ⟨hy, hk⟩ := Table.find?_eq_some.1 hf
        obtain ⟨w, hw, hc⟩ := hi.first y hy
        rw [hk] at hw
        exact ⟨w, by rw [show db.written.find? (fun w => w.recordId = r.recordId) = some w from hw]; rfl,
          hc⟩
      | none =>
        have hnone : db.written.find? (fun w => w.recordId = r.recordId) = none := by
          rw [List.find?_eq_none]
          intro w hw hk
          obtain ⟨y, hy, hyw⟩ := hi.known w hw
          exact Table.find?_eq_none.1 hf y hy (hyw.trans (by simpa using hk))
        exact ⟨r, by simp [hnone], rfl⟩
  · intro x hx
    show ∃ w, ((db.written ++ [r]).reverse.find? fun w => w.recordId = x.recordId) = some w ∧ _
    rw [newest_append]
    rcases (hmem x).1 hx with ⟨hx, hne⟩ | rfl
    · rw [if_neg (Ne.symm hne)]
      exact hi.newest x hx
    · rw [if_pos rfl]
      exact ⟨r, rfl, ⟨fun _ _ _ => rfl, rfl⟩⟩

theorem Db.Inv.setDimension (hi : db.Inv) (h : db.dimension = none) (n : Nat) :
    (Vector.setDimension n db).Inv where
  sound := hi.sound
  fts := hi.fts
  fts_nodup := hi.fts_nodup
  dimension := by
    intro r hr m hm
    have hsome := hi.dimension r hr m hm
    rw [h] at hsome
    cases hsome
  written := hi.written
  known := hi.known
  first := hi.first
  newest := hi.newest

/-- The check leaves the dimension of every incoming row stored. -/
theorem Db.Inv.validateDimensions {prepared : List (Record ν)} {db' : Db ν} (hi : db.Inv)
    (h : Vector.validateDimensions prepared db = .ok db') :
    db'.Inv ∧ ∀ r ∈ prepared, ∀ n, r.vectorDim = some n → db'.dimension = some n := by
  have hin : ∀ r ∈ prepared, ∀ n, r.vectorDim = some n → n ∈ incoming prepared := by
    intro r hr n hn
    rw [incoming, List.mem_dedup, List.mem_filterMap]
    exact ⟨r, hr, hn⟩
  unfold Vector.validateDimensions at h
  split at h
  · rename_i hnil
    cases h
    refine ⟨hi, fun r hr n hn => ?_⟩
    have hmem := hin r hr n hn
    rw [hnil] at hmem
    cases hmem
  · rename_i d hone
    have hdim : ∀ r ∈ prepared, ∀ n, r.vectorDim = some n → n = d := by
      intro r hr n hn
      have hmem := hin r hr n hn
      rwa [hone, List.mem_singleton] at hmem
    simp only [bind_eq_ok, pure_eq_ok, ensure_eq_ok] at h
    obtain ⟨⟨stored, new⟩, hs, -, rfl, rfl⟩ := h
    unfold storedDimension at hs
    cases hdb : db.dimension with
    | some s =>
      simp only [hdb] at hs
      cases hs
      exact ⟨hi, fun r hr n hn => by rw [hdim r hr n hn]; exact hdb⟩
    | none =>
      have hnew : new = true := by
        simp only [hdb] at hs
        split at hs
        · cases hs; rfl
        · cases hs; rfl
        · cases hs
      subst hnew
      exact ⟨hi.setDimension hdb d, fun r hr n hn => by rw [hdim r hr n hn]; rfl⟩
  · cases h

theorem Db.Inv.upsertRows {prepared : List (Record ν)} {db' : Db ν} (hi : db.Inv)
    (hp : ∀ r ∈ prepared, r.Sound ∧ r.Dated)
    (hdim : ∀ r ∈ prepared, ∀ n, r.vectorDim = some n → db.dimension = some n)
    (h : prepared.foldlM (fun db r => Vector.upsertRow r db) db = .ok db') : db'.Inv := by
  induction prepared generalizing db with
  | nil =>
    cases h
    exact hi
  | cons r rest ih =>
    simp only [List.foldlM_cons, bind_eq_ok] at h
    obtain ⟨db₁, h₁, h⟩ := h
    obtain ⟨hr, hrest⟩ := List.forall_mem_cons.1 hp
    obtain ⟨hrd, hrestd⟩ := List.forall_mem_cons.1 hdim
    obtain ⟨hi₁, hd₁⟩ := hi.upsertRow hr.1 hr.2 hrd h₁
    exact ih hi₁ hrest (by rw [hd₁]; exact hrestd) h

/-- An upsert keeps the invariant. -/
theorem Db.Inv.upsertMany {prepared : List (Record ν)} {db' : Db ν} (hi : db.Inv)
    (hp : ∀ r ∈ prepared, r.Sound ∧ r.Dated) (h : Vector.upsertMany prepared db = .ok db') :
    db'.Inv := by
  simp only [Vector.upsertMany, bind_eq_ok] at h
  obtain ⟨db₁, h₁, h⟩ := h
  obtain ⟨hi₁, hdim⟩ := hi.validateDimensions h₁
  exact hi₁.upsertRows hp hdim h

end Upsert

/-! ## Replacing the embeddings -/

section Replace

variable {db : Db ν} {now : Text} {e : Embeddings ν}

/-- The vectors are finite, and those that are not empty have the one dimension. -/
structure Embeddings.Checked (e : Embeddings ν) : Prop where
  finite : ∀ v ∈ e.vectors, ∀ x ∈ v.2, Python.isFinite x = true
  dimension : ∀ v ∈ e.vectors, v.2 ≠ [] → e.dimension = some v.2.length

theorem validatedVector_finite {v : Value ν} {vector : List ν} (h : validatedVector v = .ok vector) :
    ∀ x ∈ vector, Python.isFinite x = true := by
  unfold validatedVector at h
  split at h
  · cases h
    simp
  · simp only [bind_eq_ok, pure_eq_ok, ensure_eq_ok] at h
    obtain ⟨_, -, _, hall, rfl⟩ := h
    exact List.all_eq_true.1 hall
  · cases h

/-- A vector of finite floats is valid as it is. -/
theorem validatedVector_floats {vector : List ν} (h : ∀ x ∈ vector, Python.isFinite x = true) :
    validatedVector (.list false (vector.map .float)) = .ok vector := by
  have hfloat : (vector.map Value.float).mapM Value.toFloat = .ok vector := by
    rw [List.mapM_map]
    have hm : vector.mapM (Value.toFloat ∘ Value.float) = .ok (vector.map id) :=
      mapM_ok fun _ _ => rfl
    rwa [List.map_id] at hm
  simp only [validatedVector, bind_eq_ok, pure_eq_ok, ensure_eq_ok]
  exact ⟨vector, hfloat, (), List.all_eq_true.2 h, rfl⟩

theorem checkEmbeddings_checked {embeddings : Doc ν} (h : checkEmbeddings embeddings = .ok e) :
    e.Checked := by
  simp only [checkEmbeddings, bind_eq_ok] at h
  obtain ⟨vectors, hv, h⟩ := h
  have hfinite : ∀ v ∈ vectors, ∀ x ∈ v.2, Python.isFinite x = true := by
    intro v hvm
    obtain ⟨f, -, hf⟩ := mem_mapM hv hvm
    simp only [bind_eq_ok, pure_eq_ok] at hf
    obtain ⟨vector, hvec, rfl⟩ := hf
    exact validatedVector_finite hvec
  have hdims : ∀ v ∈ vectors, v.2 ≠ [] →
      v.2.length ∈ (vectors.filterMap fun v => unlessEmpty v.2 v.2.length).dedup := by
    intro v hv hne
    rw [List.mem_dedup, List.mem_filterMap]
    refine ⟨v, hv, ?_⟩
    unfold unlessEmpty
    rw [if_neg (by simpa using hne)]
  split at h
  · rename_i hnil
    cases h
    refine ⟨hfinite, fun v hv hne => ?_⟩
    have hmem := hdims v hv hne
    rw [hnil] at hmem
    cases hmem
  · rename_i n hone
    cases h
    refine ⟨hfinite, fun v hv hne => ?_⟩
    have hmem := hdims v hv hne
    rw [hone, List.mem_singleton] at hmem
    rw [hmem]
  · cases h

omit [Python ν] in
theorem Embeddings.vector_mem (e : Embeddings ν) (recordId : Text) :
    e.vector recordId = [] ∨ (recordId, e.vector recordId) ∈ e.vectors := by
  unfold vector
  cases h : e.vectors.lookup recordId with
  | none => exact .inl rfl
  | some v =>
    obtain ⟨before, after, hl, -⟩ := List.lookup_eq_some_iff.1 h
    right
    show (recordId, v) ∈ e.vectors
    rw [hl]
    simp

/-- The row after the replacement. -/
def Record.reembedded (now : Text) (e : Embeddings ν) (r : Record ν) : Record ν :=
  Record.setEmbedding now (e.vector r.recordId) r r

omit [Python ν] in
theorem mem_updateEmbedding {r x : Record ν} (hr : r ∈ db.records) :
    x ∈ (updateEmbedding now (e.vector r.recordId) r db).records ↔
      (x ∈ db.records ∧ x.recordId ≠ r.recordId) ∨ r.reembedded now e = x := by
  unfold updateEmbedding
  rw [Table.mem_update]
  constructor
  · rintro ⟨y, hy, rfl⟩
    by_cases hk : y.recordId = r.recordId
    · obtain rfl : y = r := Table.eq_of_key_eq hy hr hk
      right
      simp [Record.reembedded]
    · left
      rw [if_neg (by simpa using hk)]
      exact ⟨hy, hk⟩
  · rintro (⟨hx, hk⟩ | rfl)
    · exact ⟨x, hx, by rw [if_neg (by simpa using hk)]⟩
    · exact ⟨r, hr, by simp [Record.reembedded]⟩

omit [Python ν] in
/-- The loop over the rows that were read: one row after the other. -/
theorem mem_updateAll {rows : List (Record ν)} (hrows : ∀ r ∈ rows, r ∈ db.records)
    (hnd : (rows.map Record.recordId).Nodup) {x : Record ν} :
    x ∈ (updateAll now e rows db).records ↔
      (x ∈ db.records ∧ x.recordId ∉ rows.map Record.recordId) ∨
        ∃ r ∈ rows, r.reembedded now e = x := by
  induction rows generalizing db with
  | nil => simp [updateAll]
  | cons r rest ih =>
    obtain ⟨hr, hrest⟩ := List.forall_mem_cons.1 hrows
    rw [List.map_cons, List.nodup_cons] at hnd
    have hstay : ∀ y ∈ rest, y ∈ (updateEmbedding now (e.vector r.recordId) r db).records := by
      intro y hy
      refine (mem_updateEmbedding hr).2 (.inl ⟨hrest y hy, fun hk => hnd.1 ?_⟩)
      exact hk ▸ List.mem_map_of_mem hy
    show x ∈ (updateAll now e rest (updateEmbedding now (e.vector r.recordId) r db)).records ↔ _
    rw [ih hstay hnd.2, mem_updateEmbedding hr, List.map_cons]
    simp only [List.mem_cons, exists_eq_or_imp, not_or]
    constructor
    · rintro (⟨⟨hx, hk⟩ | rfl, hn⟩ | h)
      · exact .inl ⟨hx, hk, hn⟩
      · exact .inr (.inl rfl)
      · exact .inr (.inr h)
    · rintro (⟨hx, hn⟩ | rfl | h)
      · exact .inl ⟨.inl ⟨hx, hn.1⟩, hn.2⟩
      · exact .inl ⟨.inr rfl, hnd.1⟩
      · exact .inr h

omit [Python ν] in
theorem mem_orderedRecords {r : Record ν} : r ∈ orderedRecords db ↔ r ∈ db.records := by
  unfold orderedRecords
  exact List.mem_insertionSort _

omit [Python ν] in
theorem nodup_orderedRecords : ((orderedRecords db).map Record.recordId).Nodup := by
  unfold orderedRecords
  exact ((List.perm_insertionSort _ _).map Record.recordId).nodup_iff.2 db.records.nodup

omit [Python ν] in
theorem mem_updateAll_ordered {x : Record ν} :
    x ∈ (updateAll now e (orderedRecords db) db).records ↔
      ∃ r ∈ db.records, r.reembedded now e = x := by
  rw [mem_updateAll (fun r hr => mem_orderedRecords.1 hr) nodup_orderedRecords]
  constructor
  · rintro (⟨hx, hn⟩ | ⟨r, hr, hrx⟩)
    · exact absurd (List.mem_map_of_mem (mem_orderedRecords.2 hx)) hn
    · exact ⟨r, mem_orderedRecords.1 hr, hrx⟩
  · rintro ⟨r, hr, hrx⟩
    exact .inr ⟨r, mem_orderedRecords.2 hr, hrx⟩

omit [Python ν] in
theorem updateAll_frame (now : Text) (e : Embeddings ν) (rows : List (Record ν)) (db : Db ν) :
    (updateAll now e rows db).fts = db.fts ∧ (updateAll now e rows db).written = db.written := by
  induction rows generalizing db with
  | nil => exact ⟨rfl, rfl⟩
  | cons r rest ih => exact ih (updateEmbedding now (e.vector r.recordId) r db)

omit [Python ν] in
theorem resetDimension_eq : resetDimension e db = { db with dimension := e.dimension } := by
  unfold resetDimension
  cases h : e.dimension <;> rfl

omit [Python ν] in
/-- What a replacement leaves. -/
theorem replaceAll_eq_ok {db' : Db ν} (h : replaceAll now e db = .ok db') :
    (∀ x, x ∈ db'.records ↔ ∃ r ∈ db.records, r.reembedded now e = x) ∧ db'.fts = db.fts ∧
      db'.dimension = e.dimension ∧ db'.written = db.written := by
  simp only [replaceAll, bind_eq_ok, pure_eq_ok, ensure_eq_ok] at h
  obtain ⟨_, -, rfl⟩ := h
  rw [resetDimension_eq]
  obtain ⟨hfts, hwritten⟩ := updateAll_frame now e (orderedRecords db) db
  exact ⟨fun x => mem_updateAll_ordered, hfts, rfl, hwritten⟩

omit [Python ν] in
theorem get?_withEmbedding (d : Doc ν) (vector : List ν) {k : Text} (h : k ≠ text "embedding")
    (h' : k ≠ text "vector") : (withEmbedding d vector).get? k = d.get? k := by
  unfold withEmbedding
  split
  · rw [Doc.get?_pop, if_neg h', Doc.get?_pop, if_neg h]
  · rw [Doc.get?_put, if_neg h]

theorem embeddingField_withEmbedding {vector : List ν}
    (h : ∀ x ∈ vector, Python.isFinite x = true) (d : Doc ν) :
    validatedVector (embeddingField (withEmbedding d vector)) = .ok vector := by
  have hne : text "vector" ≠ text "embedding" := by decide
  unfold withEmbedding embeddingField
  cases vector with
  | nil =>
    simp only [List.isEmpty_nil, if_true, Doc.get, Doc.get?_pop, if_neg hne.symm]
    rfl
  | cons x rest =>
    have hbool : (Value.list false ((x :: rest).map Value.float)).truthy = true := rfl
    simp only [List.isEmpty_cons, Bool.false_eq_true, if_false, Doc.get, Doc.get?_put, if_true,
      Option.getD_some, Value.or, hbool]
    exact validatedVector_floats h

theorem Record.Sound.reembedded {r : Record ν} (hr : r.Sound) (now : Text) (he : e.Checked) :
    (r.reembedded now e).Sound ∧ (r.reembedded now e).Describes r := by
  have hget : ∀ k, k ≠ text "embedding" → k ≠ text "vector" →
      (r.reembedded now e).document.get? k = r.document.get? k := by
    intro k hk hk'
    show ((withEmbedding r.document (e.vector r.recordId)).normal).get? k = r.document.get? k
    rw [Doc.get?_normal, get?_withEmbedding _ _ hk hk', ← Doc.get?_normal, hr.normal]
  have hfinite : ∀ x ∈ e.vector r.recordId, Python.isFinite x = true := by
    rcases e.vector_mem r.recordId with hnil | hmem
    · rw [hnil]
      simp
    · exact he.finite _ hmem
  refine ⟨⟨Doc.normal_normal _, ?_, ?_, ?_, ?_, ?_, ?_, ?_⟩, hget, rfl⟩
  · show documentContent (r.reembedded now e).document = r.content
    rw [← hr.content]
    refine documentContent_congr fun k hk => ?_
    unfold Doc.get
    rw [hget k]
    · rintro rfl
      revert hk
      decide
    · rintro rfl
      revert hk
      decide
  · show ((r.reembedded now e).document.get (text "trust_score")).toFloat = .ok r.trustScore
    rw [← hr.trustScore]
    unfold Doc.get
    rw [hget _ (by decide) (by decide)]
  · show validatedVector (embeddingField ((withEmbedding r.document (e.vector r.recordId)).normal)) =
      .ok ((unlessEmpty (e.vector r.recordId) (e.vector r.recordId)).getD [])
    rw [embeddingField_normal, validatedVector_normal, embeddingField_withEmbedding hfinite,
      unlessEmpty_getD]
  · exact unlessEmpty_ne _
  · exact unlessEmpty_map _
  · rw [hget _ (by decide) (by decide)]
    exact hr.identified
  · rw [hget _ (by decide) (by decide)]
    exact hr.recordId

/-- A replacement keeps the invariant. -/
theorem Db.Inv.replaceAll {db' : Db ν} (hi : db.Inv) (he : e.Checked)
    (h : Vector.replaceAll now e db = .ok db') : db'.Inv := by
  obtain ⟨hmem, hfts, hdim, hwritten⟩ := replaceAll_eq_ok h
  constructor
  · intro x hx
    obtain ⟨r, hr, rfl⟩ := (hmem x).1 hx
    exact ((hi.sound r hr).reembedded now he).1
  · intro row
    rw [hfts, hi.fts]
    constructor
    · rintro ⟨r, hr, rfl⟩
      exact ⟨_, (hmem _).2 ⟨r, hr, rfl⟩, rfl⟩
    · rintro ⟨x, hx, rfl⟩
      obtain ⟨r, hr, rfl⟩ := (hmem x).1 hx
      exact ⟨r, hr, rfl⟩
  · rw [hfts]
    exact hi.fts_nodup
  · intro x hx n hn
    obtain ⟨r, hr, rfl⟩ := (hmem x).1 hx
    rw [hdim]
    have hn : unlessEmpty (e.vector r.recordId) (e.vector r.recordId).length = some n := hn
    rcases e.vector_mem r.recordId with hnil | hm
    · rw [hnil] at hn
      cases hn
    · unfold unlessEmpty at hn
      split at hn
      · cases hn
      · rename_i hne
        cases hn
        exact he.dimension _ hm (by simpa using hne)
  · rw [hwritten]
    exact hi.written
  · intro w hw
    rw [hwritten] at hw
    obtain ⟨r, hr, hrw⟩ := hi.known w hw
    exact ⟨_, (hmem _).2 ⟨r, hr, rfl⟩, hrw⟩
  · intro x hx
    obtain ⟨r, hr, rfl⟩ := (hmem x).1 hx
    unfold Db.first
    rw [hwritten]
    exact hi.first r hr
  · intro x hx
    obtain ⟨r, hr, rfl⟩ := (hmem x).1 hx
    obtain ⟨w, hw, hdesc⟩ := hi.newest r hr
    have hre := ((hi.sound r hr).reembedded now he).2
    unfold Db.newest
    rw [hwritten]
    exact ⟨w, hw, fun k hk hk' => (hre.document k hk hk').trans (hdesc.document k hk hk'),
      hre.content.trans hdesc.content⟩

end Replace

end

end ProjectMaya.Vector
