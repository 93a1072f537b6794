import ProjectMaya.VectorRefinement

/-! # Stores that connections reach

In an undisturbed run every commit is a whole operation, so the store's invariant holds
after it; one connection alone is never disturbed.  Two connections can break it. -/

namespace ProjectMaya.Vector

open Logic

section

variable {ν : Type} [Python ν]

theorem prepared_sound {docs : List (Text × Doc ν)} {prepared : List (Record ν)}
    (h : docs.mapM (fun x => prepareDocument x.1 x.2) = .ok prepared) :
    ∀ r ∈ prepared, r.Sound ∧ r.Dated := by
  intro r hr
  obtain ⟨x, -, hx⟩ := mem_mapM h hr
  exact prepareDocument_sound hx

/-- Whole operations keep the invariant. -/
theorem Call.Applied.inv {a : Call ν} {d d' : Db ν} (h : a.Applied d d') (hi : d.Inv) : d'.Inv := by
  cases a with
  | upsert docs =>
    obtain ⟨prepared, hp, h⟩ := h
    exact hi.upsertMany (prepared_sound hp) h
  | replace now embeddings =>
    obtain ⟨e, he, h⟩ := h
    exact hi.replaceAll (checkEmbeddings_checked he) h
  | rebuild now model =>
    obtain ⟨_, _, _, e, -, -, he, h⟩ := h
    exact hi.replaceAll (checkEmbeddings_checked he) h

theorem undisturbed_inv {turns : List (Turn Fault (Call ν))}
    (h : (sessions ν).Along Undisturbed (initial ν) turns) :
    ((sessions ν).run (initial ν) turns).shared.db.Inv :=
  undisturbed_keeps Db.inv_empty (fun _ _ _ _ ha hi => ha.inv hi) h

/-! ## Several writers -/

omit [Python ν] in
/-- All dimensions are the one in the metadata. -/
def OneDimension (db : Db ν) : Prop :=
  ∀ r ∈ db.records, ∀ n, r.vectorDim = some n → db.dimension = some n

/-- **One dimension.**  In an undisturbed run of any connections all vectors have the
dimension that the metadata say. -/
theorem one_dimension (turns : List (Turn Fault (Call ν)))
    (h : (sessions ν).Along Undisturbed (initial ν) turns) :
    OneDimension ((sessions ν).run (initial ν) turns).shared.db :=
  (undisturbed_inv h).dimension

/-! ## One connection -/

theorem host_running_ne {turns : List (Turn Fault (Call ν))} (h : ∀ t ∈ turns, t.host = 0)
    {c : Config Fault (Shared ν) (Connection ν) Failure (Call ν) Unit}
    (hc : ∀ q, q ≠ 0 → (c.host q).running = none) : (sessions ν).Along Undisturbed c turns := by
  induction turns generalizing c with
  | nil => trivial
  | cons t turns ih =>
    obtain ⟨ht, hts⟩ := List.forall_mem_cons.1 h
    refine ⟨fun _ q hq hrun => ?_, ih hts fun q hq => ?_⟩
    · rw [ht] at hq
      rw [hc q hq] at hrun
      cases hrun
    · rw [(sessions ν).host_turn_ne c (by rw [ht]; exact hq)]
      exact hc q hq

/-- What the columns of the records, the full-text index and the metadata have in common. -/
structure Consistent (db : Db ν) : Prop where
  fts : ∀ row, row ∈ db.fts ↔ ∃ r ∈ db.records, (r.recordId, r.content) = row
  fts_once : (db.fts.map Prod.fst).Nodup
  dimension : OneDimension db
  embedding : ∀ r ∈ db.records, r.vectorDim = r.embedding.map List.length
  content : ∀ r ∈ db.records, documentContent r.document = r.content
  trustScore : ∀ r ∈ db.records,
    (r.document.get (text "trust_score")).toFloat = .ok r.trustScore
  vector : ∀ r ∈ db.records,
    validatedVector (embeddingField r.document) = .ok (r.embedding.getD [])
  recordId : ∀ r ∈ db.records, ∀ v, r.document.get? (text "id") = some v → v.truthy = true →
    v.scalar = true → v.toStr = r.recordId
  /-- The creation time is the one of the record's first upsert … -/
  createdAt : ∀ r ∈ db.records, ∃ first, db.first r.recordId = some first ∧
    r.createdAt = first.createdAt
  /-- … and the document's is the one of its newest. -/
  created : ∀ r ∈ db.records, ∃ newest, db.newest r.recordId = some newest ∧
    ∀ v, r.document.get? (text "created_at") = some v → v.truthy = true → v.scalar = true →
      v.toStr = newest.createdAt

theorem Db.Inv.consistent {db : Db ν} (hi : db.Inv) : Consistent db where
  fts := hi.fts
  fts_once := hi.fts_nodup
  dimension := hi.dimension
  embedding := fun r hr => (hi.sound r hr).vectorDim
  content := fun r hr => (hi.sound r hr).content
  trustScore := fun r hr => (hi.sound r hr).trustScore
  vector := fun r hr => (hi.sound r hr).embedding
  recordId := fun r hr => (hi.sound r hr).recordId
  createdAt := hi.first
  created := by
    intro r hr
    obtain ⟨w, hw, hdesc⟩ := hi.newest r hr
    refine ⟨w, hw, fun v hv => ?_⟩
    rw [hdesc.document _ (by decide) (by decide)] at hv
    have hmem : w ∈ db.written := List.mem_reverse.1 (List.mem_of_find?_eq_some hw)
    exact (hi.written w hmem).2 v hv

/-- **One connection.**  After any calls of one connection, whether they succeed or raise at
any statement, the tables are consistent. -/
theorem single_connection (turns : List (Turn Fault (Call ν))) (h : ∀ t ∈ turns, t.host = 0) :
    Consistent ((sessions ν).run (initial ν) turns).shared.db :=
  (undisturbed_inv (host_running_ne h fun _ _ => rfl)).consistent

end

/-! ## Examples -/

namespace Sample

/-- Floats as fractions; no text is read as a number, and `str` is asked of texts only. -/
instance : Python Rat where
  half := mkRat 1 2
  isZero x := x = 0
  isFinite _ := true
  inUnit x := 0 ≤ x && x ≤ 1
  ofInt n := some n
  ofText _ := none
  repr _ := []

def vector (n : Nat) : Value Rat := .list false (List.replicate n (.int 1))

def doc (id : String) (fields : List (Text × Value Rat))
    (h : (((text "id", Value.str (text id)) :: fields).map Prod.fst).Nodup := by decide) : Doc Rat :=
  ⟨(text "id", .str (text id)) :: fields, h⟩

theorem docA_nodup :
    (((text "id", Value.str (text "a")) :: [(text "embedding", vector 2)]).map Prod.fst).Nodup := by
  decide

def noon : Text := text "2025-01-01T12:00:00+00:00"

def later : Text := text "2025-01-02T12:00:00+00:00"

/-- `n` more statements of a connection that succeed. -/
def acts (p n : Nat) : List (Turn Fault (Call Rat)) := List.replicate n (.act p .none)

/-- Two first writers: both find no dimension before either begins. -/
def firstWriters : List (Turn Fault (Call Rat)) :=
  [.start 0 (.upsert [(noon, doc "a" [(text "embedding", vector 2)])]),
    .start 1 (.upsert [(noon, doc "b" [(text "embedding", vector 3)])])] ++
    acts 0 3 ++ acts 1 3 ++ acts 0 6 ++ acts 1 6

theorem firstWriters_dimensions :
    let db := ((sessions Rat).run (initial Rat) firstWriters).shared.db
    db.records.rows.map Record.vectorDim = [some 2, some 3] ∧ db.dimension = some 3 := by
  decide

/-- Both have stored their own dimension. -/
theorem firstWriters_two_dimensions :
    ¬ OneDimension ((sessions Rat).run (initial Rat) firstWriters).shared.db := by
  intro h
  obtain ⟨hdims, hmeta⟩ := firstWriters_dimensions
  have hmem : some 2 ∈ (((sessions Rat).run (initial Rat) firstWriters).shared.db.records.rows.map
      Record.vectorDim) := by
    rw [hdims]
    exact List.mem_cons_self
  obtain ⟨r, hr, hdim⟩ := List.mem_map.1 hmem
  have htwo := h r hr 2 hdim
  rw [hmeta] at htwo
  cases htwo

/-- One connection writes a record twice; the second time it gives no creation time. -/
def twice : List (Turn Fault (Call Rat)) :=
  [.start 0 (.upsert [(noon, doc "a" [(text "embedding", vector 2)])])] ++ acts 0 9 ++
    [.start 0 (.upsert [(later, doc "a" [])])] ++ acts 0 6

theorem twice_one_dimension :
    OneDimension ((sessions Rat).run (initial Rat) twice).shared.db :=
  one_dimension twice (host_running_ne (by decide) fun _ _ => rfl)

theorem twice_consistent : Consistent ((sessions Rat).run (initial Rat) twice).shared.db :=
  single_connection twice (by decide)

/-- The column keeps the first creation time, the document has the second. -/
theorem twice_created_at : ¬ ∀ r ∈ ((sessions Rat).run (initial Rat) twice).shared.db.records,
    (r.document.get (text "created_at")).toStr = r.createdAt := by
  intro h
  have hcolumn : ((sessions Rat).run (initial Rat) twice).shared.db.records.rows.map
      Record.createdAt = [noon] := by decide
  have hdocument : ((sessions Rat).run (initial Rat) twice).shared.db.records.rows.map
      (fun r => (r.document.get (text "created_at")).toStr) = [later] := by decide
  have hsame := List.map_congr_left h
  rw [hdocument, hcolumn] at hsame
  exact absurd hsame (by decide)

end Sample

end ProjectMaya.Vector
