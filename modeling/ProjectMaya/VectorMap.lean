import Mathlib.Algebra.Order.Ring.Rat
import Mathlib.Logic.Function.Basic
import Mathlib.Order.Defs.LinearOrder
import ProjectMaya.VectorCalls
import ProjectMaya.VectorRebuild

/-! # The store as a map

To its callers the store is a map from record ids to documents with an embedding (`Index`).  The
calls of one connection do to the tables what they do to the map (`Session.index`), and `get`,
`documents` and `queryVector` read the map (`refines_map`). -/

namespace ProjectMaya.Vector

open Logic

/-! ## What the retriever reads -/

section

variable {ν : Type}

def get (recordId : Text) (db : Db ν) : Option (Doc ν) :=
  (db.records.find? recordId).map Record.document

def documents (db : Db ν) : List (Doc ν) := (orderedRecords db).map Record.document

/-- A document with its similarity filled in. -/
def scored (similarity : ν) (d : Doc ν) : Doc ν :=
  (d.put (text "similarity") (.float similarity)).put (text "score") (.float similarity)

end

section

variable {ν : Type} [Python ν]

/-- The loop of `query_vector` over the rows that have an embedding. -/
def candidates (cosineSimilarity : List ν → List ν → ν) (query : List ν) :
    List (Record ν) → Except Failure (List (ν × Doc ν))
  | [] => .ok []
  | r :: rest =>
    match r.embedding with
    | none => candidates cosineSimilarity query rest
    | some stored => do
      let candidate ← validatedVector (.list false (stored.map .float))
      let ranked ← candidates cosineSimilarity query rest
      let similarity := cosineSimilarity query candidate
      return if candidate.length ≠ query.length then ranked
        else (similarity, scored similarity r.document) :: ranked

variable [LinearOrder ν]

/-- `(-similarity, id)` compare. -/
def rankLe (a b : ν × Text) : Prop := b.1 < a.1 ∨ (a.1 = b.1 ∧ a.2 ≤ b.2)

instance : DecidableRel (rankLe (ν := ν)) := fun a b =>
  inferInstanceAs (Decidable (b.1 < a.1 ∨ (a.1 = b.1 ∧ a.2 ≤ b.2)))

/-- `ranked.sort(key=lambda item: (-item[0], _document_id(item[1])))`. -/
def sortRanked (ranked : List (ν × Doc ν)) : Except Failure (List (Doc ν)) := do
  let keyed ← ranked.mapM fun item => do
    let id ← documentId item.2
    return ((item.1, id), item.2)
  return (keyed.insertionSort fun a b => rankLe a.1 b.1).map Prod.snd

def queryVector (cosineSimilarity : List ν → List ν → ν) (vector : Value ν) (topK : Int)
    (metric : String) (db : Db ν) : Except Failure (List (Doc ν)) := do
  ensure (1 ≤ topK) (.valueError "top_k must be positive")
  ensure (metric = "cosine") (.valueError "local_vector supports only cosine similarity")
  let query ← validatedVector vector
  if query.isEmpty then return []
  else do
    ensure (db.dimension.all (· = query.length)) (.valueError "embedding dimension does not match")
    let ranked ← candidates cosineSimilarity query db.records.rows
    let sorted ← sortRanked ranked
    return sorted.take topK.toNat

end

/-! ## The map -/

/-- A document and its embedding; without one, `embedding` is empty. -/
structure Entry (ν : Type) where
  document : Doc ν
  embedding : List ν

abbrev Index (ν : Type) := Text → Option (Entry ν)

/-- A writing call of the retriever. -/
inductive Write (ν : Type) where
  /-- `upsert` or `bulk_upsert`, with the time at which each document is prepared. -/
  | upsert (docs : List (Text × Doc ν))
  | replace (now : Text) (embeddings : Doc ν)

def Write.call {ν : Type} : Write ν → Call ν
  | .upsert docs => .upsert docs
  | .replace now embeddings => .replace now embeddings

section

variable {ν : Type} [Python ν]

/-- The vector that a value gives. -/
def vectorOf (v : Value ν) : List ν :=
  match validatedVector v with
  | .ok vector => vector
  | .error _ => []

/-- A document with the defaults filled in, and the embedding it brings. -/
def Entry.of (now id : Text) (d : Doc ν) : Entry ν :=
  ⟨(withDefaults d id now Python.half).normal, vectorOf (embeddingField d)⟩

/-- The entry with another embedding, or with none. -/
def Entry.reembed (vector : List ν) (e : Entry ν) : Entry ν :=
  ⟨(withEmbedding e.document vector).normal, vector⟩

def Index.upsert (m : Index ν) (x : Text × Doc ν) : Index ν :=
  match documentId x.2 with
  | .ok id => Function.update m id (some (Entry.of x.1 id x.2))
  | .error _ => m

def Index.replace (m : Index ν) (embeddings : Doc ν) : Index ν := fun id =>
  (m id).map (Entry.reembed (vectorOf (embeddings.get id)))

/-- What a call does to the map. -/
def Index.write (m : Index ν) : Write ν → Index ν
  | .upsert docs => docs.foldl Index.upsert m
  | .replace _ embeddings => m.replace embeddings

def Index.empty : Index ν := fun _ => none

/-- The calls of one connection on a new store, one after the other: those that have returned,
and the store that they leave.  Between them calls may have raised. -/
inductive Session (pid : Nat) : List (Write ν) → Shared ν → Prop
  | start : Session pid [] { db := Db.empty }
  | returned {ws : List (Write ν)} {s : Shared ν} (w : Write ν)
      (moves : List (Move (Option Failure))) (before : Session pid ws s)
      (h : (attempt w.call s pid moves).result = some (.ok ())) :
      Session pid (ws ++ [w]) (attempt w.call s pid moves).shared
  | raised {ws : List (Write ν)} {s : Shared ν} (w : Write ν)
      (moves : List (Move (Option Failure))) (e : Failure) (before : Session pid ws s)
      (h : (attempt w.call s pid moves).result = some (.error e)) :
      Session pid ws (attempt w.call s pid moves).shared

/-- The ids of a document are texts. -/
def Named (d : Doc ν) : Prop :=
  ∀ k ∈ idKeys, (d.get k).truthy = true → ∃ s, d.get k = .str s

def Write.Named : Write ν → Prop
  | .upsert docs => ∀ x ∈ docs, Vector.Named x.2
  | .replace _ _ => True

end

/-! ## The tables and the map -/

section

variable {ν : Type} [Python ν]

omit [Python ν] in
def Record.entry (r : Record ν) : Entry ν := ⟨r.document, r.embedding.getD []⟩

omit [Python ν] in
/-- The map that the tables stand for. -/
def Db.index (db : Db ν) : Index ν := fun id => (db.records.find? id).map Record.entry

omit [Python ν] in
theorem index_eq_some {db : Db ν} {id : Text} {e : Entry ν} :
    db.index id = some e ↔ ∃ r ∈ db.records, r.recordId = id ∧ r.entry = e := by
  unfold Db.index
  rw [Option.map_eq_some_iff]
  constructor
  · rintro ⟨r, hr, rfl⟩
    obtain ⟨hmem, hid⟩ := Table.find?_eq_some.1 hr
    exact ⟨r, hmem, hid, rfl⟩
  · rintro ⟨r, hr, hid, rfl⟩
    exact ⟨r, Table.find?_eq_some.2 ⟨hr, hid⟩, rfl⟩

omit [Python ν] in
theorem index_congr {db db' : Db ν} (h : db'.records = db.records) : db'.index = db.index := by
  unfold Db.index
  rw [h]

/-! ### An upsert -/

omit [Python ν] in
theorem setdefault_congr {d : Doc ν} {k : Text} {v w : Value ν} (h : d.get? k = none → v = w) :
    d.setdefault k v = d.setdefault k w := by
  unfold Doc.setdefault
  cases hk : d.get? k with
  | some x => rfl
  | none => rw [h hk]

/-- The defaults do not depend on the fields that the document has. -/
theorem withDefaults_prepared {now : Text} {d : Doc ν} {r : Record ν}
    (h : prepareDocument now d = .ok r) :
    withDefaults d r.recordId r.createdAt r.trustScore = withDefaults d r.recordId now Python.half := by
  obtain ⟨-, -, htrust, hcreated, -⟩ := prepareDocument_eq_ok h
  have hcreatedAt : d.get? (text "created_at") = none → r.createdAt = now := by
    intro hnone
    rw [← hcreated, Doc.get, hnone]
    rfl
  have htrustScore : d.get? (text "trust_score") = none → r.trustScore = Python.half := by
    intro hnone
    rw [hnone] at htrust
    exact (Except.ok.inj htrust).symm
  unfold withDefaults
  rw [setdefault_congr (k := text "created_at") (v := .str r.createdAt) (w := .str now)]
  · refine setdefault_congr fun hnone => ?_
    rw [Doc.get?_setdefault, if_neg (by decide), Doc.get?_setdefault, if_neg (by decide)] at hnone
    rw [htrustScore hnone]
  · intro hnone
    rw [Doc.get?_setdefault, if_neg (by decide)] at hnone
    rw [hcreatedAt hnone]

theorem upsert_prepared {now : Text} {d : Doc ν} {r : Record ν}
    (h : prepareDocument now d = .ok r) (m : Index ν) :
    m.upsert (now, d) = Function.update m r.recordId (some r.entry) := by
  obtain ⟨hid, hvec, -, -, hdoc, -⟩ := prepareDocument_eq_ok h
  have hentry : Entry.of now r.recordId d = r.entry := by
    unfold Entry.of Record.entry vectorOf
    rw [← withDefaults_prepared h, hdoc, hvec]
  unfold Index.upsert
  simp only [hid, hentry]

omit [Python ν] in
theorem index_upsertRow {db db' : Db ν} {r : Record ν} (h : upsertRow r db = .ok db') :
    db'.index = Function.update db.index r.recordId (some r.entry) := by
  obtain rfl := upsertRow_eq_ok h
  funext id
  show ((db.records.upsert r r.onConflict r.recordId_onConflict).find? id).map Record.entry = _
  rw [Table.find?_upsert, Function.update_apply]
  by_cases hid : id = r.recordId
  · rw [if_pos hid, if_pos hid, upserted_eq]
    rfl
  · rw [if_neg hid, if_neg hid]
    rfl

omit [Python ν] in
theorem index_upsertRows {prepared : List (Record ν)} {db db' : Db ν}
    (h : prepared.foldlM (fun db r => upsertRow r db) db = .ok db') :
    db'.index =
      prepared.foldl (fun (m : Index ν) r => Function.update m r.recordId (some r.entry))
        db.index := by
  induction prepared generalizing db with
  | nil =>
    cases h
    rfl
  | cons r rest ih =>
    simp only [List.foldlM_cons, bind_eq_ok] at h
    obtain ⟨db₁, h₁, h⟩ := h
    rw [ih h, index_upsertRow h₁]
    rfl

omit [Python ν] in
theorem validateDimensions_records {prepared : List (Record ν)} {db db' : Db ν}
    (h : validateDimensions prepared db = .ok db') : db'.records = db.records := by
  unfold validateDimensions at h
  split at h
  · cases h
    rfl
  · simp only [bind_eq_ok, pure_eq_ok, ensure_eq_ok] at h
    obtain ⟨⟨stored, new⟩, -, -, -, rfl⟩ := h
    cases new <;> rfl
  · cases h

theorem foldl_upsert_prepared {docs : List (Text × Doc ν)} {prepared : List (Record ν)}
    (h : docs.mapM (fun x => prepareDocument x.1 x.2) = .ok prepared) (m : Index ν) :
    docs.foldl Index.upsert m =
      prepared.foldl (fun (m : Index ν) r => Function.update m r.recordId (some r.entry)) m := by
  induction docs generalizing prepared m with
  | nil =>
    cases h
    rfl
  | cons x rest ih =>
    simp only [List.mapM_cons, bind_eq_ok, pure_eq_ok] at h
    obtain ⟨r, hr, rs, hrs, rfl⟩ := h
    rw [List.foldl_cons, List.foldl_cons, ih hrs, upsert_prepared hr]

/-! ### A replacement -/

theorem vector_eq_vectorOf {embeddings : Doc ν} {e : Embeddings ν}
    (h : checkEmbeddings embeddings = .ok e) (id : Text) :
    e.vector id = vectorOf (embeddings.get id) := by
  obtain ⟨hkeys, hvectors⟩ := checkEmbeddings_vectors h
  cases hv : embeddings.get? id with
  | some v =>
    unfold vectorOf
    rw [Doc.get, hv, Option.getD_some, hvectors id v hv]
  | none =>
    have hnone : e.vectors.lookup id = none := by
      rw [List.lookup_eq_none_iff]
      intro p hp
      have hmem : p.1 ∈ embeddings.rows.map Prod.fst := hkeys ▸ List.mem_map_of_mem hp
      have hsome := mem_keys.1 hmem
      rw [bne_iff_ne]
      rintro rfl
      rw [hv] at hsome
      cases hsome
    unfold Embeddings.vector
    rw [hnone, Doc.get, hv]
    rfl

theorem index_replaceAll {now : Text} {embeddings : Doc ν} {e : Embeddings ν} {db db' : Db ν}
    (he : checkEmbeddings embeddings = .ok e) (h : replaceAll now e db = .ok db') :
    db'.index = db.index.replace embeddings := by
  obtain ⟨hmem, -⟩ := replaceAll_eq_ok h
  have hentry : ∀ r : Record ν, (r.reembedded now e).entry =
      r.entry.reembed (vectorOf (embeddings.get r.recordId)) := by
    intro r
    rw [← vector_eq_vectorOf he]
    show Entry.mk _ ((unlessEmpty _ _).getD []) = _
    rw [unlessEmpty_getD]
    rfl
  funext id
  apply Option.ext
  intro x
  unfold Index.replace
  rw [index_eq_some, Option.map_eq_some_iff]
  constructor
  · rintro ⟨y, hy, rfl, rfl⟩
    obtain ⟨r, hr, rfl⟩ := (hmem y).1 hy
    exact ⟨r.entry, index_eq_some.2 ⟨r, hr, rfl, rfl⟩, (hentry r).symm⟩
  · rintro ⟨old, hold, rfl⟩
    obtain ⟨r, hr, rfl, rfl⟩ := index_eq_some.1 hold
    exact ⟨r.reembedded now e, (hmem _).2 ⟨r, hr, rfl⟩, rfl, hentry r⟩

/-- **One call.** What a call does to the tables it does to the map. -/
theorem index_applied (w : Write ν) {db db' : Db ν} (h : w.call.Applied db db') :
    db'.index = db.index.write w := by
  cases w with
  | upsert docs =>
    obtain ⟨prepared, hp, h⟩ := h
    simp only [upsertMany, bind_eq_ok] at h
    obtain ⟨db₁, h₁, h⟩ := h
    rw [index_upsertRows h, index_congr (validateDimensions_records h₁),
      ← foldl_upsert_prepared hp]
    rfl
  | replace now embeddings =>
    obtain ⟨e, he, h⟩ := h
    exact index_replaceAll he h

/-! ## The ids -/

omit [Python ν] in
theorem str_of_normal {v : Value ν} {s : Text} (h : v = .str s) : v.normal = .str s := by
  rw [h]
  rfl

theorem documentId_congr {d d' : Doc ν}
    (ht : ∀ k ∈ idKeys, (d'.get k).truthy = (d.get k).truthy)
    (hv : ∀ k ∈ idKeys, (d.get k).truthy = true → d'.get k = d.get k) :
    documentId d' = documentId d := by
  have hfind : idKeys.find? (fun k => (d'.get k).truthy) =
      idKeys.find? fun k => (d.get k).truthy := by
    simp only [idKeys, List.mem_cons, forall_eq_or_imp] at ht ⊢
    simp only [List.find?_cons, List.find?_nil, ht.1, ht.2.1, ht.2.2.1]
  unfold documentId
  rw [hfind]
  cases hk : idKeys.find? fun k => (d.get k).truthy with
  | none => rfl
  | some k =>
    show Except.ok _ = Except.ok _
    rw [hv k (List.mem_of_find?_eq_some hk) (by simpa using List.find?_some hk)]

/-- The same ids, read again. -/
theorem documentId_of_normal {d d' : Doc ν} (hd : Named d)
    (h : ∀ k ∈ idKeys, d'.get k = (d.get k).normal) :
    Named d' ∧ documentId d' = documentId d := by
  have htruthy : ∀ k ∈ idKeys, (d'.get k).truthy = (d.get k).truthy := by
    intro k hk
    rw [h k hk, Value.truthy_normal]
  have hstr : ∀ k ∈ idKeys, (d.get k).truthy = true → d'.get k = d.get k := by
    intro k hk ht
    obtain ⟨s, hs⟩ := hd k hk ht
    rw [h k hk, str_of_normal hs, hs]
  refine ⟨fun k hk ht => ?_, documentId_congr htruthy hstr⟩
  rw [htruthy k hk] at ht
  rw [hstr k hk ht]
  exact hd k hk ht

/-- The ids of a row's document are texts, and they give the row's key. -/
structure Record.Named (r : Record ν) : Prop where
  named : Vector.Named r.document
  documentId : Vector.documentId r.document = .ok r.recordId

theorem recordId_ne_nil {d : Doc ν} {id : Text} (hd : Named d) (h : documentId d = .ok id) :
    id ≠ [] := by
  unfold documentId at h
  split at h
  · rename_i k hk
    cases h
    have ht : (d.get k).truthy = true := by simpa using List.find?_some hk
    obtain ⟨s, hs⟩ := hd k (List.mem_of_find?_eq_some hk) ht
    rw [hs] at ht ⊢
    simpa [Value.truthy, Value.toStr] using ht
  · cases h

theorem prepareDocument_named {now : Text} {d : Doc ν} {r : Record ν} (hd : Named d)
    (h : prepareDocument now d = .ok r) : r.Named := by
  obtain ⟨hid, -, -, -, hdoc, -⟩ := prepareDocument_eq_ok h
  have hfill : ∀ k ∈ idKeys, (withDefaults d r.recordId r.createdAt r.trustScore).get k =
      if k = text "id" then (d.get? k).getD (.str r.recordId) else d.get k := by
    intro k hk
    simp only [idKeys, List.mem_cons, List.not_mem_nil, or_false] at hk
    unfold Doc.get
    rw [get?_withDefaults]
    rcases hk with rfl | rfl | rfl <;> rfl
  have hnormal : ∀ k, r.document.get k =
      ((withDefaults d r.recordId r.createdAt r.trustScore).get k).normal := by
    intro k
    rw [← hdoc, Doc.get_normal]
  cases hi : d.get? (text "id") with
  | some v =>
    have hsame : ∀ k ∈ idKeys, r.document.get k = (d.get k).normal := by
      intro k hk
      rw [hnormal k, hfill k hk]
      by_cases he : k = text "id"
      · rw [if_pos he, he, hi, Doc.get, hi]
        rfl
      · rw [if_neg he]
    obtain ⟨hn, heq⟩ := documentId_of_normal hd hsame
    exact ⟨hn, heq.trans hid⟩
  | none =>
    have hget : r.document.get (text "id") = .str r.recordId := by
      rw [hnormal, hfill _ List.mem_cons_self, if_pos rfl, hi]
      rfl
    have htruthy : (r.document.get (text "id")).truthy = true := by
      rw [hget]
      simpa [Value.truthy] using recordId_ne_nil hd hid
    refine ⟨fun k hk ht => ?_, ?_⟩
    · by_cases he : k = text "id"
      · rw [he]
        exact ⟨_, hget⟩
      · rw [hnormal k, hfill k hk, if_neg he] at ht ⊢
        rw [Value.truthy_normal] at ht
        obtain ⟨s, hs⟩ := hd k hk ht
        exact ⟨s, str_of_normal hs⟩
    · have hfind : idKeys.find? (fun k => (r.document.get k).truthy) = some (text "id") := by
        simp [idKeys, htruthy]
      unfold documentId
      rw [hfind]
      show Except.ok (r.document.get (text "id")).toStr = _
      rw [hget]
      rfl

theorem Record.Named.reembedded {r : Record ν} (hr : r.Named) (now : Text) (e : Embeddings ν) :
    (r.reembedded now e).Named := by
  have hsame : ∀ k ∈ idKeys, (r.reembedded now e).document.get k = (r.document.get k).normal := by
    intro k hk
    show (withEmbedding r.document (e.vector r.recordId)).normal.get k = _
    rw [Doc.get_normal, Doc.get, get?_withEmbedding]
    · rfl
    · rintro rfl
      revert hk
      decide
    · rintro rfl
      revert hk
      decide
  obtain ⟨hn, heq⟩ := documentId_of_normal hr.named hsame
  exact ⟨hn, heq.trans hr.documentId⟩

theorem named_upsertRows {prepared : List (Record ν)} {db db' : Db ν}
    (hp : ∀ r ∈ prepared, r.Named) (hdb : ∀ r ∈ db.records, r.Named)
    (h : prepared.foldlM (fun db r => upsertRow r db) db = .ok db') :
    ∀ r ∈ db'.records, r.Named := by
  induction prepared generalizing db with
  | nil =>
    cases h
    exact hdb
  | cons r rest ih =>
    simp only [List.foldlM_cons, bind_eq_ok] at h
    obtain ⟨db₁, h₁, h⟩ := h
    obtain ⟨hr, hrest⟩ := List.forall_mem_cons.1 hp
    refine ih hrest (fun x hx => ?_) h
    obtain rfl := upsertRow_eq_ok h₁
    rcases Table.mem_upsert.1 hx with ⟨hx, -⟩ | rfl
    · exact hdb x hx
    · rw [upserted_eq]
      exact ⟨hr.named, hr.documentId⟩

theorem named_applied {w : Write ν} (hw : w.Named) {db db' : Db ν} (h : w.call.Applied db db')
    (hdb : ∀ r ∈ db.records, r.Named) : ∀ r ∈ db'.records, r.Named := by
  cases w with
  | upsert docs =>
    obtain ⟨prepared, hp, h⟩ := h
    simp only [upsertMany, bind_eq_ok] at h
    obtain ⟨db₁, h₁, h⟩ := h
    have hprep : ∀ r ∈ prepared, r.Named := by
      intro r hr
      obtain ⟨x, hx, hrx⟩ := mem_mapM hp hr
      exact prepareDocument_named (hw x hx) hrx
    rw [← validateDimensions_records h₁] at hdb
    exact named_upsertRows hprep hdb h
  | replace now embeddings =>
    obtain ⟨e, he, h⟩ := h
    obtain ⟨hmem, -⟩ := replaceAll_eq_ok h
    intro x hx
    obtain ⟨r, hr, rfl⟩ := (hmem x).1 hx
    exact (hdb r hr).reembedded now e

/-! ## The runs -/

theorem Session.index {pid : Nat} {ws : List (Write ν)} {s : Shared ν} (h : Session pid ws s) :
    s.db.index = ws.foldl Index.write Index.empty := by
  induction h with
  | start => rfl
  | returned w moves before hw ih =>
    obtain ⟨db', happ, hs⟩ := Vector.returned w.call _ pid moves hw
    rw [hs, List.foldl_concat, ← ih]
    exact index_applied w happ
  | raised w moves e before hw ih =>
    rw [(all_or_nothing w.call _ pid moves e hw).1]
    exact ih

theorem Session.keeps {pid : Nat} {ws : List (Write ν)} {s : Shared ν} (h : Session pid ws s)
    (hws : ∀ w ∈ ws, w.Named) : s.db.Inv ∧ ∀ r ∈ s.db.records, r.Named := by
  induction h with
  | start => exact ⟨Db.inv_empty, nofun⟩
  | returned w moves before hw ih =>
    obtain ⟨db', happ, hs⟩ := Vector.returned w.call _ pid moves hw
    obtain ⟨hinv, hnamed⟩ := ih fun x hx => hws x (List.mem_append_left _ hx)
    rw [hs]
    refine ⟨happ.inv hinv, named_applied (hws w ?_) happ hnamed⟩
    exact List.mem_append_right _ List.mem_cons_self
  | raised w moves e before hw ih =>
    rw [(all_or_nothing w.call _ pid moves e hw).1]
    exact ih hws

end

/-! ## Reading -/

section

variable {ν : Type}

theorem get_index (db : Db ν) (id : Text) : get id db = (db.index id).map Entry.document := by
  unfold get Db.index
  rw [Option.map_map]
  rfl

theorem documents_index (db : Db ν) :
    ∃ ids : List Text, ids.Pairwise (· < ·) ∧ (∀ id, id ∈ ids ↔ (db.index id).isSome = true) ∧
      documents db = ids.filterMap fun id => (db.index id).map Entry.document := by
  refine ⟨(orderedRecords db).map Record.recordId, ?_, fun id => ?_, ?_⟩
  · have htotal : Std.Total fun r s : Record ν => r.recordId ≤ s.recordId :=
      ⟨fun r s => le_total r.recordId s.recordId⟩
    have htrans : IsTrans (Record ν) fun r s => r.recordId ≤ s.recordId := ⟨fun _ _ _ => le_trans⟩
    have hsorted : ((orderedRecords db).map Record.recordId).Pairwise (· ≤ ·) := by
      rw [List.pairwise_map]
      exact List.pairwise_insertionSort _ _
    exact (hsorted.and nodup_orderedRecords).imp fun h => lt_of_le_of_ne h.1 h.2
  · rw [Option.isSome_iff_exists, List.mem_map]
    constructor
    · rintro ⟨r, hr, rfl⟩
      exact ⟨r.entry, index_eq_some.2 ⟨r, mem_orderedRecords.1 hr, rfl, rfl⟩⟩
    · rintro ⟨e, he⟩
      obtain ⟨r, hr, hid, -⟩ := index_eq_some.1 he
      exact ⟨r, mem_orderedRecords.2 hr, hid⟩
  · have hall : ∀ r ∈ orderedRecords db,
        (db.index r.recordId).map Entry.document = some r.document := by
      intro r hr
      rw [index_eq_some.2 ⟨r, mem_orderedRecords.1 hr, rfl, rfl⟩]
      rfl
    rw [List.filterMap_map]
    show (orderedRecords db).map Record.document = _
    rw [← List.filterMap_eq_map]
    refine List.filterMap_congr fun r hr => ?_
    exact (hall r hr).symm

end

section

variable {ν : Type} [Python ν] [LinearOrder ν] (cosineSimilarity : List ν → List ν → ν)

omit [Python ν] in
/-- The first is more similar to the query, or they are equally similar and its id comes first. -/
def Before (query : List ν) (a b : Text × Entry ν) : Prop :=
  cosineSimilarity query b.2.embedding < cosineSimilarity query a.2.embedding ∨
    (cosineSimilarity query a.2.embedding = cosineSimilarity query b.2.embedding ∧ a.1 < b.1)

omit [Python ν] in
/-- All entries of the map that have an embedding, the most similar first. -/
structure Ranking (query : List ν) (m : Index ν) (entries : List (Text × Entry ν)) : Prop where
  mem : ∀ id e, (id, e) ∈ entries ↔ m id = some e ∧ e.embedding ≠ []
  sorted : entries.Pairwise (Before cosineSimilarity query)

omit [Python ν] in
/-- An entry as a query returns it. -/
def answer (query : List ν) (x : Text × Entry ν) : Doc ν :=
  scored (cosineSimilarity query x.2.embedding) x.2.document

omit [Python ν] [LinearOrder ν] in
theorem get_scored (x : ν) (d : Doc ν) {k : Text} (h : k ∈ idKeys) : (scored x d).get k = d.get k := by
  have hs : k ≠ text "score" := by
    rintro rfl
    revert h
    decide
  have hs' : k ≠ text "similarity" := by
    rintro rfl
    revert h
    decide
  unfold scored Doc.get
  rw [Doc.get?_put, if_neg hs, Doc.get?_put, if_neg hs']

/-- The rows that a query ranks, as entries. -/
def embedded (rows : List (Record ν)) : List (Text × Entry ν) :=
  (rows.filter fun r => r.embedding.isSome).map fun r => (r.recordId, r.entry)

omit [LinearOrder ν] in
theorem candidates_eq {query : List ν} {rows : List (Record ν)} (hs : ∀ r ∈ rows, r.Sound)
    (hdim : ∀ r ∈ rows, ∀ w, r.embedding = some w → w.length = query.length) :
    candidates cosineSimilarity query rows = .ok ((embedded rows).map fun x =>
      (cosineSimilarity query x.2.embedding, answer cosineSimilarity query x)) := by
  induction rows with
  | nil => rfl
  | cons r rest ih =>
    obtain ⟨hr, hrest⟩ := List.forall_mem_cons.1 hs
    obtain ⟨hrd, hrestd⟩ := List.forall_mem_cons.1 hdim
    unfold candidates
    cases hemb : r.embedding with
    | none =>
      have hskip : embedded (r :: rest) = embedded rest := by
        unfold embedded
        rw [List.filter_cons_of_neg (by simp [hemb])]
      rw [hskip]
      exact ih hrest hrestd
    | some w =>
      have hvalid : validatedVector (.list false (w.map .float)) = .ok w := by
        refine validatedVector_floats (validatedVector_finite (v := embeddingField r.document) ?_)
        rw [hr.embedding, hemb]
        rfl
      have htake : embedded (r :: rest) = (r.recordId, r.entry) :: embedded rest := by
        unfold embedded
        rw [List.filter_cons_of_pos (by simp [hemb])]
        rfl
      have hentry : r.entry.embedding = w := by
        show r.embedding.getD [] = w
        rw [hemb]
        rfl
      simp only [hvalid, ih hrest hrestd, bind_eq_ok, pure_eq_ok]
      refine ⟨w, rfl, _, rfl, ?_⟩
      rw [if_neg (by simpa using hrd w hemb), htake, List.map_cons, hentry]
      unfold answer
      rw [hentry]
      rfl

/-- The order of the ranking. -/
def entryLe (query : List ν) (a b : Text × Entry ν) : Prop :=
  rankLe (cosineSimilarity query a.2.embedding, a.1) (cosineSimilarity query b.2.embedding, b.1)

instance (query : List ν) : DecidableRel (entryLe cosineSimilarity query) := fun a b =>
  inferInstanceAs (Decidable (rankLe (_, a.1) (_, b.1)))

omit [Python ν] in
theorem rankLe_total (a b : ν × Text) : rankLe a b ∨ rankLe b a := by
  unfold rankLe
  rcases lt_trichotomy a.1 b.1 with h | h | h
  · exact .inr (.inl h)
  · rcases le_total a.2 b.2 with h' | h'
    · exact .inl (.inr ⟨h, h'⟩)
    · exact .inr (.inr ⟨h.symm, h'⟩)
  · exact .inl (.inl h)

omit [Python ν] in
theorem rankLe_trans {a b c : ν × Text} (h : rankLe a b) (h' : rankLe b c) : rankLe a c := by
  rcases h with h | ⟨h, hi⟩
  · rcases h' with h' | ⟨h', -⟩
    · exact .inl (h'.trans h)
    · exact .inl (h' ▸ h)
  · rcases h' with h' | ⟨h', hi'⟩
    · exact .inl (h ▸ h')
    · exact .inr ⟨h.trans h', hi.trans hi'⟩

theorem sortRanked_eq {query : List ν} {entries : List (Text × Entry ν)}
    (h : ∀ x ∈ entries, documentId x.2.document = .ok x.1) :
    sortRanked (entries.map fun x =>
      (cosineSimilarity query x.2.embedding, answer cosineSimilarity query x)) =
        .ok ((entries.insertionSort (entryLe cosineSimilarity query)).map
          (answer cosineSimilarity query)) := by
  have hkey : ∀ x ∈ entries, documentId (answer cosineSimilarity query x) = .ok x.1 := by
    intro x hx
    rw [← h x hx]
    refine documentId_congr (fun k hk => ?_) fun k hk _ => ?_ <;>
      rw [answer, get_scored _ _ hk]
  let key : Text × Entry ν → (ν × Text) × Doc ν := fun x =>
    ((cosineSimilarity query x.2.embedding, x.1), answer cosineSimilarity query x)
  have hkeyed : (entries.map fun x =>
      (cosineSimilarity query x.2.embedding, answer cosineSimilarity query x)).mapM (fun item => do
        let id ← documentId item.2
        return ((item.1, id), item.2)) = .ok (entries.map key) := by
    rw [List.mapM_map]
    refine mapM_ok fun x hx => ?_
    simp only [Function.comp, hkey x hx]
    rfl
  have hsort : (entries.map key).insertionSort (fun a b => rankLe a.1 b.1) =
      (entries.insertionSort (entryLe cosineSimilarity query)).map key :=
    (List.map_insertionSort _ _ key entries fun _ _ _ _ => Iff.rfl).symm
  unfold sortRanked
  simp only [hkeyed, bind_eq_ok, pure_eq_ok]
  refine ⟨_, rfl, ?_⟩
  rw [hsort, List.map_map]
  rfl

omit [Python ν] [LinearOrder ν] in
theorem mem_embedded {db : Db ν} {id : Text} {e : Entry ν} (hne : ∀ r ∈ db.records, r.embedding ≠ some []) :
    (id, e) ∈ embedded db.records.rows ↔ db.index id = some e ∧ e.embedding ≠ [] := by
  have hsome : ∀ r ∈ db.records, r.embedding.isSome = true ↔ r.entry.embedding ≠ [] := by
    intro r hr
    have hr := hne r hr
    show _ ↔ r.embedding.getD [] ≠ []
    cases h : r.embedding with
    | none => simp
    | some w =>
      rw [h] at hr
      simpa using hr
  unfold embedded
  rw [List.mem_map, index_eq_some]
  constructor
  · rintro ⟨r, hr, heq⟩
    cases heq
    obtain ⟨hmem, hemb⟩ := List.mem_filter.1 hr
    exact ⟨⟨r, hmem, rfl, rfl⟩, (hsome r hmem).1 hemb⟩
  · rintro ⟨⟨r, hr, rfl, rfl⟩, hemb⟩
    exact ⟨r, List.mem_filter.2 ⟨hr, (hsome r hr).2 hemb⟩, rfl⟩

theorem ranking_embedded {db : Db ν} (hi : db.Inv) (query : List ν) :
    Ranking cosineSimilarity query db.index
      ((embedded db.records.rows).insertionSort (entryLe cosineSimilarity query)) := by
  have htotal : Std.Total (entryLe cosineSimilarity query) := ⟨fun _ _ => rankLe_total _ _⟩
  have htrans : IsTrans (Text × Entry ν) (entryLe cosineSimilarity query) :=
    ⟨fun _ _ _ => rankLe_trans⟩
  have hids : ((embedded db.records.rows).map Prod.fst).Nodup := by
    unfold embedded
    rw [List.map_map]
    exact db.records.nodup.sublist (List.filter_sublist.map Record.recordId)
  constructor
  · intro id e
    rw [List.mem_insertionSort]
    exact mem_embedded fun r hr => (hi.sound r hr).nonempty
  · have hnodup : (((embedded db.records.rows).insertionSort
        (entryLe cosineSimilarity query)).map Prod.fst).Nodup :=
      (((List.perm_insertionSort _ _).map Prod.fst).nodup_iff).2 hids
    have hdiffer := List.pairwise_map.1 hnodup
    refine ((List.pairwise_insertionSort (entryLe cosineSimilarity query) _).and hdiffer).imp ?_
    rintro a b ⟨hlt | ⟨heq, hle⟩, hne⟩
    · exact .inl hlt
    · exact .inr ⟨heq, lt_of_le_of_ne hle hne⟩

/-- A query with a vector of the store's dimension returns the first entries of the ranking. -/
theorem queryVector_index {db : Db ν} (hi : db.Inv) (hn : ∀ r ∈ db.records, r.Named) {v : Value ν}
    {query : List ν} (hv : validatedVector v = .ok query)
    (hdim : ∀ n, db.dimension = some n → query.length = n) {topK : Int} (hk : 1 ≤ topK) :
    ∃ entries, Ranking cosineSimilarity query db.index entries ∧
      queryVector cosineSimilarity v topK "cosine" db =
        .ok ((entries.take topK.toNat).map (answer cosineSimilarity query)) := by
  have hlength : ∀ r ∈ db.records.rows, ∀ w, r.embedding = some w → w.length = query.length := by
    intro r hr w hw
    have hdimr : r.vectorDim = some w.length := by
      rw [(hi.sound r hr).vectorDim, hw]
      rfl
    exact (hdim _ (hi.dimension r hr _ hdimr)).symm
  have hids : ∀ x ∈ embedded db.records.rows, documentId x.2.document = .ok x.1 := by
    intro x hx
    obtain ⟨r, hr, rfl⟩ := List.mem_map.1 hx
    exact (hn r (List.mem_filter.1 hr).1).documentId
  refine ⟨_, ranking_embedded cosineSimilarity hi query, ?_⟩
  have hcandidates := candidates_eq cosineSimilarity (fun r hr => hi.sound r hr) hlength
  simp only [queryVector, hv, bind_eq_ok, ensure_eq_ok]
  refine ⟨(), hk, (), trivial, query, rfl, ?_⟩
  by_cases hnil : query = []
  · -- no entry has an embedding of no numbers
    have hnone : embedded db.records.rows = [] := by
      rw [List.eq_nil_iff_forall_not_mem]
      rintro ⟨id, e⟩ hx
      obtain ⟨r, hr, heq⟩ := List.mem_map.1 hx
      obtain ⟨hmem, hsome⟩ := List.mem_filter.1 hr
      obtain ⟨w, hw⟩ := Option.isSome_iff_exists.1 hsome
      have hlen := hlength r hmem w hw
      rw [hnil, List.length_nil, List.length_eq_zero_iff] at hlen
      rw [hlen] at hw
      exact (hi.sound r hmem).nonempty hw
    rw [if_pos (by simp [hnil]), hnone, pure_eq_ok, List.insertionSort_nil, List.take_nil,
      List.map_nil]
  · rw [if_neg (by simpa using hnil)]
    simp only [bind_eq_ok, ensure_eq_ok, pure_eq_ok]
    refine ⟨(), ?_, _, hcandidates, _, sortRanked_eq cosineSimilarity hids, ?_⟩
    · cases hd : db.dimension with
      | none => rfl
      | some n => simp [hdim n hd]
    · rw [List.map_take]

/-- **The store is a map.** After any calls of one connection, `get` and `documents` read the map
that the calls which have returned make, and a query ranks all of its entries. -/
theorem refines_map {pid : Nat} {ws : List (Write ν)} {s : Shared ν} (h : Session pid ws s)
    (hws : ∀ w ∈ ws, w.Named) :
    let m := ws.foldl Index.write Index.empty
    (∀ id, get id s.db = (m id).map Entry.document) ∧
    (∃ ids : List Text, ids.Pairwise (· < ·) ∧ (∀ id, id ∈ ids ↔ (m id).isSome = true) ∧
      documents s.db = ids.filterMap fun id => (m id).map Entry.document) ∧
    ∀ v query, validatedVector v = .ok query →
      (∀ n, s.db.dimension = some n → query.length = n) → ∀ topK, 1 ≤ topK →
        ∃ entries, Ranking cosineSimilarity query m entries ∧
          queryVector cosineSimilarity v topK "cosine" s.db =
            .ok ((entries.take topK.toNat).map (answer cosineSimilarity query)) := by
  obtain ⟨hinv, hnamed⟩ := h.keeps hws
  rw [← h.index]
  exact ⟨fun id => get_index s.db id, documents_index s.db, fun _ _ hv hdim _ hk =>
    queryVector_index cosineSimilarity hinv hnamed hv hdim hk⟩

end

/-! ## Examples -/

namespace Sample

def dot (left right : List Rat) : Rat := (List.zipWith (· * ·) left right).sum

/-- Two documents, of which the second has the id of its chunk. -/
def two : Write Rat :=
  .upsert [(noon, doc "a" [(text "embedding", vector 2)] docA_nodup),
    (noon, Doc.ofFields [(text "chunk_id", .str (text "b"))])]

/-- A rebuild of their embeddings. -/
def anew : Write Rat := .replace later (Doc.ofFields [(text "b", vector 3), (text "a", .null)])

def stored : Shared Rat := (attempt two.call { db := Db.empty } 0 []).shared

def replaced : Shared Rat := (attempt anew.call stored 0 []).shared

theorem anew_session : Session 0 [two, anew] replaced :=
  .returned anew [] (.returned two [] .start rfl) rfl

theorem anew_named : ∀ w ∈ [two, anew], w.Named := by
  intro w hw
  rcases List.mem_cons.1 hw with rfl | hw
  · intro x hx k hk ht
    simp only [idKeys, List.mem_cons, List.not_mem_nil, or_false] at hx hk
    rcases hx with rfl | rfl <;> rcases hk with rfl | rfl | rfl <;>
      first
        | exact ⟨_, rfl⟩
        | cases ht
  · rw [List.mem_singleton.1 hw]
    exact trivial

/-- The query finds the one document that has an embedding now. -/
theorem anew_map :
    get (text "b") replaced.db =
        (([two, anew].foldl Index.write Index.empty) (text "b")).map Entry.document ∧
      ∃ entries, Ranking dot [1, 1, 1] ([two, anew].foldl Index.write Index.empty) entries ∧
        queryVector dot (vector 3) 5 "cosine" replaced.db =
          .ok ((entries.take 5).map (answer dot [1, 1, 1])) := by
  obtain ⟨hget, -, hquery⟩ := refines_map dot anew_session anew_named
  refine ⟨hget _, hquery (vector 3) [1, 1, 1] rfl (fun n hn => ?_) 5 (by decide)⟩
  cases hn
  rfl

end Sample

end ProjectMaya.Vector
