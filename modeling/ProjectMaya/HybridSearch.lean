import Mathlib.Data.List.Dedup
import ProjectMaya.Logic.Sorted
import ProjectMaya.VectorMap

/-! # Hybrid search

`search` asks SQLite for the records whose text matches, of one category by the column;
`searchHybrid` fuses their ranks with the ranks of the nearest records.  Those are cut to
`max(limit * 3, 20)` first, and then kept if the document itself names the category.

`semantic_iff` says when they are the nearest records whose column is the category. -/

namespace ProjectMaya.Vector

open Logic

/-- What the search uses of SQLite and of floats. -/
structure Hybrid (ν : Type) where
  /-- The rows of `memory_records_fts` that match a query, each with its `bm25`. -/
  matching : Text → List (Text × Text) → Except Failure (List (Text × ν))
  /-- A float in a column of texts; no number is NULL. -/
  realText : ν → Option Text
  /-- `_cosine_similarity` -/
  cosineSimilarity : List ν → List ν → ν
  add : ν → ν → ν
  div : ν → ν → ν
  /-- The float of a rank. -/
  ofRank : Nat → ν
  /-- `0.0` -/
  zero : ν
  /-- `60.0` -/
  sixty : ν
  /-- `0.45` -/
  lexicalWeight : ν
  /-- `0.55` -/
  semanticWeight : ν

/-! ## Algorithm -/

section

variable {ν : Type}

/-- `str.split` -/
def splitText (query : Text) : List Text := (query.splitOnP isSpace).filter (· ≠ [])

/-- `term.replace('"', '""')` -/
def doubleQuotes (term : Text) : Text := term.flatMap fun c => if c = '"' then ['"', '"'] else [c]

/-- `_search_terms` -/
def searchTerms (query : Text) : List Text :=
  ((splitText query).filter fun term => strip term ≠ []).map doubleQuotes

def matchText (terms : List Text) : Text :=
  (text " AND ").intercalate (terms.map fun term => ['"'] ++ term ++ ['"'])

/-- What the column holds: SQLite writes numbers as texts. -/
def columnText (realText : ν → Option Text) : Value ν → Option Text
  | .str s => some s
  | .int n => some (text (toString n))
  | .bool b => some (if b then ['1'] else ['0'])
  | .float x => realText x
  | _ => none

/-- `r.category = ?` -/
def inCategory (env : Hybrid ν) (c : Text) (r : Record ν) : Bool :=
  columnText env.realText r.category = some c

/-- `value == category` -/
def Value.isText (c : Text) : Value ν → Bool
  | .str s => s = c
  | _ => false

/-- `item.get("category") == category` -/
def names (c : Text) (d : Doc ν) : Bool := (d.get (text "category")).isText c

/-- `max(limit * 3, 20)` -/
def widened (limit : Int) : Int := max (limit * 3) 20

/-- `ordered[:limit]` -/
def upTo {α : Type} (limit : Int) (ordered : List α) : List α :=
  if limit < 0 then ordered.take (ordered.length - limit.natAbs) else ordered.take limit.toNat

/-- An entry of `ranked`. -/
structure Scored (ν : Type) where
  recordId : Text
  score : ν
  document : Doc ν

/-- The documents by id, with the scores that they have so far. -/
abbrev Scores (ν : Type) := Table (Scored ν) Text Scored.recordId

/-- `ranked[record_id] = (score, document)` -/
def Scores.put (ranked : Scores ν) (x : Scored ν) : Scores ν :=
  ranked.upsert x (fun y => ⟨y.recordId, x.score, x.document⟩) fun _ => rfl

end

section

variable {ν : Type} [Python ν] [LinearOrder ν] (env : Hybrid ν)

omit [Python ν] in
/-- The rows of the join, the best first. -/
def joined (found : List (Text × ν)) (db : Db ν) : List (ν × Record ν) :=
  found.filterMap fun m => (db.records.find? m.1).map fun r => (m.2, r)

omit [Python ν] in
/-- `ORDER BY rank, r.record_id` -/
def matchLe (a b : ν × Record ν) : Prop :=
  a.1 < b.1 ∨ (a.1 = b.1 ∧ a.2.recordId ≤ b.2.recordId)

instance : DecidableRel (matchLe (ν := ν)) := fun a b =>
  inferInstanceAs (Decidable (a.1 < b.1 ∨ (a.1 = b.1 ∧ a.2.recordId ≤ b.2.recordId)))

omit [Python ν] in
def search (query : Text) (category : Option Text) (limit : Int) (db : Db ν) :
    Except Failure (List (Doc ν)) := do
  ensure (1 ≤ limit) (.valueError "limit must be positive")
  let terms := searchTerms query
  if terms = [] then return []
  else do
    -- a larger number is no parameter
    ensure (limit < 2 ^ 63) .overflowError
    let found ← env.matching (matchText terms) db.fts
    let rows := (joined found db).filter fun m => category.all fun c => inCategory env c m.2
    return ((rows.insertionSort matchLe).take limit.toNat).map fun m => m.2.document

/-- What `search_hybrid` does with the query vector. -/
def semanticCandidates (vector : Value ν) (category : Option Text) (limit : Int) (db : Db ν) :
    Except Failure (List (Doc ν)) := do
  let semantic ←
    if vector.truthy then queryVector env.cosineSimilarity vector (widened limit) "cosine" db
    else pure []
  return semantic.filter fun item => category.all fun c => names c item

omit [Python ν] [LinearOrder ν] in
def score (weight : ν) (rank : Nat) : ν := env.div weight (env.add env.sixty (env.ofRank rank))

omit [LinearOrder ν] in
def addRanked (weight : ν) (ranked : Scores ν) (x : Doc ν × Nat) : Except Failure (Scores ν) := do
  let recordId ← documentId x.1
  let previous := ((ranked.find? recordId).map Scored.score).getD env.zero
  return ranked.put ⟨recordId, env.add previous (score env weight x.2), x.1⟩

omit [LinearOrder ν] in
def addAll (weight : ν) (results : List (Doc ν)) (ranked : Scores ν) :
    Except Failure (Scores ν) :=
  (results.zipIdx 1).foldlM (addRanked env weight) ranked

/-- `sorted(ranked.values(), key=lambda item: (-item[0], _document_id(item[1])))` -/
def sortScores (ranked : Scores ν) : Except Failure (List ((ν × Text) × Doc ν)) := do
  let keyed ← ranked.rows.mapM fun x => do
    let id ← documentId x.document
    return ((x.score, id), x.document)
  return keyed.insertionSort fun a b => rankLe a.1 b.1

def searchHybrid (query : Text) (vector : Value ν) (category : Option Text) (limit : Int)
    (db : Db ν) : Except Failure (List (Doc ν)) := do
  let lexical ← search env query category (widened limit) db
  let semantic ← semanticCandidates env vector category limit db
  let ranked ← addAll env env.lexicalWeight lexical Table.empty
  let ranked ← addAll env env.semanticWeight semantic ranked
  let ordered ← sortScores ranked
  return (upTo limit ordered).map fun x => x.2.put (text "hybrid_score") (.float x.1.1)

end

/-! ## What the search should rank -/

section

variable {ν : Type} [Python ν] [LinearOrder ν] (env : Hybrid ν)

omit [LinearOrder ν] in
/-- The id under which a record is ranked. -/
def Record.rankedId (r : Record ν) : Text :=
  match documentId r.document with
  | .ok id => id
  | .error _ => []

omit [Python ν] [LinearOrder ν] in
/-- The record has an embedding of the query's dimension. -/
def comparable (query : List ν) (r : Record ν) : Bool :=
  match r.embedding with
  | some w => w ≠ [] && w.length = query.length
  | none => false

omit [Python ν] [LinearOrder ν] in
def similarity (query : List ν) (r : Record ν) : ν :=
  env.cosineSimilarity query (r.embedding.getD [])

/-- The more similar record first, then by id. -/
def nearerLe (query : List ν) (r s : Record ν) : Prop :=
  rankLe (similarity env query r, r.rankedId) (similarity env query s, s.rankedId)

instance (query : List ν) : DecidableRel (nearerLe env query) := fun r s =>
  inferInstanceAs (Decidable (rankLe (_, r.rankedId) (_, s.rankedId)))

/-- The records that have a similarity, the nearest first. -/
def nearest (query : List ν) (db : Db ν) : List (Record ν) :=
  (db.records.rows.filter (comparable query)).insertionSort (nearerLe env query)

/-- The records behind `semanticCandidates`. -/
def semanticRows (query : List ν) (c : Text) (limit : Int) (db : Db ν) : List (Record ν) :=
  ((nearest env query db).take (widened limit).toNat).filter fun r => names c r.document

/-- The nearest of the records whose column is the category. -/
def filteredRows (query : List ν) (c : Text) (limit : Int) (db : Db ν) : List (Record ν) :=
  ((db.records.rows.filter fun r => comparable query r && inCategory env c r).insertionSort
    (nearerLe env query)).take (widened limit).toNat

omit [Python ν] [LinearOrder ν] in
/-- What the ranks of one list add to its ids. -/
def contributions (weight : ν) (ids : List Text) : List (Text × ν) :=
  (ids.zipIdx 1).map fun x => (x.1, score env weight x.2)

omit [Python ν] [LinearOrder ν] in
/-- The sum of what is added to an id. -/
def total (added : List (Text × ν)) (id : Text) : ν :=
  (added.filter fun x => x.1 = id).foldl (fun sum x => env.add sum x.2) env.zero

omit [Python ν] in
/-- The first `limit` ids by their sums over both lists, each once. -/
def fused (lexical semantic : List Text) (limit : Int) : List Text :=
  let added := contributions env env.lexicalWeight lexical ++
    contributions env env.semanticWeight semantic
  ((lexical ++ semantic).dedup.insertionSort fun a b =>
    rankLe (total env added a, a) (total env added b, b)).take limit.toNat

/-- **The claim about one search.**  The records that it ranks are the nearest of the category,
and it returns the ids of their fusion with the lexical ones. -/
def RanksFiltered (query : List ν) (c : Text) (limit : Int) (db : Db ν) (lexical : List (Doc ν))
    (output : List (Doc ν)) : Prop :=
  semanticRows env query c limit db = filteredRows env query c limit db ∧
    ∃ ids found, lexical.mapM documentId = .ok ids ∧ output.mapM documentId = .ok found ∧
      found = fused env ids ((filteredRows env query c limit db).map Record.rankedId) limit ∧
      found.Nodup

/-- Of the nearest records, the documents and the column name the category alike, and either all
of them are of the category or no record after them is. -/
def Agrees (query : List ν) (c : Text) (limit : Int) (db : Db ν) : Prop :=
  (∀ r ∈ (nearest env query db).take (widened limit).toNat,
    names c r.document = inCategory env c r) ∧
  ((∀ r ∈ (nearest env query db).take (widened limit).toNat, inCategory env c r = true) ∨
    ∀ r ∈ (nearest env query db).drop (widened limit).toNat, inCategory env c r = false)

/-! ## The candidates -/

instance totalNearer (query : List ν) : Std.Total (nearerLe env query) := ⟨fun _ _ => rankLe_total _ _⟩

instance transNearer (query : List ν) : IsTrans (Record ν) (nearerLe env query) :=
  ⟨fun _ _ _ => rankLe_trans⟩

theorem filteredRows_eq (query : List ν) (c : Text) (limit : Int) (db : Db ν) :
    filteredRows env query c limit db =
      ((nearest env query db).filter (inCategory env c)).take (widened limit).toNat := by
  unfold filteredRows nearest
  rw [filter_insertionSort, List.filter_filter]
  congr 2
  refine List.filter_congr fun r _ => ?_
  rw [Bool.and_comm]

theorem semanticRows_eq_iff (query : List ν) (c : Text) (limit : Int) (db : Db ν) :
    semanticRows env query c limit db = filteredRows env query c limit db ↔
      Agrees env query c limit db := by
  rw [filteredRows_eq]
  exact filter_take_eq_iff _

omit [LinearOrder ν] in
theorem validatedVector_stored {w v : List ν}
    (h : validatedVector (.list false (w.map .float)) = .ok v) : v = w := by
  simp only [validatedVector, bind_eq_ok, pure_eq_ok, ensure_eq_ok] at h
  obtain ⟨_, hmap, -, -, rfl⟩ := h
  rw [List.mapM_map] at hmap
  have hw : w.mapM (Value.toFloat ∘ Value.float) = .ok (w.map id) := mapM_ok fun _ _ => rfl
  rw [hw, List.map_id] at hmap
  exact (Except.ok.inj hmap).symm

omit [LinearOrder ν] in
/-- The loop ranks the records that can be compared. -/
theorem candidates_ranked {query : List ν} (hq : query ≠ []) {rows : List (Record ν)}
    {ranked : List (ν × Doc ν)} (h : candidates env.cosineSimilarity query rows = .ok ranked) :
    ranked = (rows.filter (comparable query)).map fun r =>
      (similarity env query r, scored (similarity env query r) r.document) := by
  induction rows generalizing ranked with
  | nil =>
    cases h
    rfl
  | cons r rest ih =>
    unfold candidates at h
    cases hemb : r.embedding with
    | none =>
      simp only [hemb] at h
      rw [List.filter_cons_of_neg (by simp [comparable, hemb])]
      exact ih h
    | some w =>
      simp only [hemb, bind_eq_ok, pure_eq_ok] at h
      obtain ⟨v, hv, ranked', hrest, rfl⟩ := h
      obtain rfl := validatedVector_stored hv
      by_cases hlen : v.length = query.length
      · have hne : v ≠ [] := by
          rintro rfl
          exact hq (List.length_eq_zero_iff.1 hlen.symm)
        rw [if_neg (by simpa using hlen), List.filter_cons_of_pos (by simp [comparable, hemb, hne, hlen]),
          List.map_cons, ← ih hrest]
        simp [similarity, hemb]
      · rw [if_pos hlen, List.filter_cons_of_neg (by simp [comparable, hemb, hlen]), ih hrest]

omit [LinearOrder ν] in
theorem documentId_put {d : Doc ν} {k : Text} (hk : k ∉ idKeys) (v : Value ν) :
    documentId (d.put k v) = documentId d := by
  have hget : ∀ k' ∈ idKeys, (d.put k v).get k' = d.get k' := by
    intro k' hk'
    unfold Doc.get
    rw [Doc.get?_put, if_neg]
    rintro rfl
    exact hk hk'
  refine documentId_congr (fun k' hk' => ?_) fun k' hk' _ => hget k' hk'
  rw [hget k' hk']

/-- The ranked documents sorted: all of them have an id. -/
theorem sortRanked_rows {query : List ν} {rows : List (Record ν)} {sorted : List (Doc ν)}
    (h : sortRanked (rows.map fun r =>
      (similarity env query r, scored (similarity env query r) r.document)) = .ok sorted) :
    sorted = (rows.insertionSort (nearerLe env query)).map (fun r =>
        scored (similarity env query r) r.document) ∧
      ∀ r ∈ rows, documentId r.document = .ok r.rankedId := by
  have hscored : ∀ r : Record ν, documentId (scored (similarity env query r) r.document) =
      documentId r.document := by
    intro r
    unfold scored
    rw [documentId_put (by decide), documentId_put (by decide)]
  simp only [sortRanked, bind_eq_ok, pure_eq_ok] at h
  obtain ⟨keyed, hkeyed, rfl⟩ := h
  rw [List.mapM_map] at hkeyed
  let key : Record ν → (ν × Text) × Doc ν := fun r =>
    ((similarity env query r, r.rankedId), scored (similarity env query r) r.document)
  have hids : ∀ r ∈ rows, documentId r.document = .ok r.rankedId := by
    intro r hr
    obtain ⟨b, hb⟩ := mapM_mem hkeyed r hr
    simp only [Function.comp, bind_eq_ok] at hb
    obtain ⟨id, hid, -⟩ := hb
    rw [hscored] at hid
    unfold Record.rankedId
    rw [hid]
  have hkeys : keyed = rows.map key := by
    refine Except.ok.inj (hkeyed.symm.trans (mapM_ok fun r hr => ?_))
    simp only [Function.comp, hscored, hids r hr]
    rfl
  refine ⟨?_, hids⟩
  have hsort : (rows.map key).insertionSort (fun a b => rankLe a.1 b.1) =
      (rows.insertionSort (nearerLe env query)).map key :=
    (List.map_insertionSort _ _ key rows fun _ _ _ _ => Iff.rfl).symm
  rw [hkeys, hsort, List.map_map]
  rfl

omit [LinearOrder ν] in
theorem vectorOf_falsy {v : Value ν} (h : ¬ v.truthy = true) : vectorOf v = [] := by
  cases v with
  | list tuple items =>
    cases items with
    | nil => rfl
    | cons x rest => exact absurd rfl h
  | _ => rfl

omit [LinearOrder ν] in
theorem validated_truthy {v : Value ν} {query : List ν} (h : v.truthy = true)
    (hv : validatedVector v = .ok query) : query ≠ [] := by
  cases v with
  | list tuple items =>
    simp only [validatedVector, bind_eq_ok, pure_eq_ok] at hv
    obtain ⟨_, hmap, _, -, rfl⟩ := hv
    rintro rfl
    have hlen := length_mapM hmap
    cases items with
    | nil => cases h
    | cons x rest => cases hlen
  | null => cases h
  | _ => cases hv

/-- The candidates are the nearest records whose documents name the category. -/
theorem semanticCandidates_eq_ok {vector : Value ν} {c : Text} {limit : Int} {db : Db ν}
    {semantic : List (Doc ν)}
    (h : semanticCandidates env vector (some c) limit db = .ok semantic) :
    semantic = (semanticRows env (vectorOf vector) c limit db).map (fun r =>
        scored (similarity env (vectorOf vector) r) r.document) ∧
      ∀ r ∈ nearest env (vectorOf vector) db, documentId r.document = .ok r.rankedId := by
  unfold semanticCandidates at h
  by_cases ht : vector.truthy = true
  · simp only [if_pos ht, queryVector, bind_eq_ok, pure_eq_ok, ensure_eq_ok] at h
    obtain ⟨_, ⟨-, -, -, -, query, hq, h⟩, rfl⟩ := h
    have hne := validated_truthy ht hq
    have hvec : vectorOf vector = query := by
      unfold vectorOf
      rw [hq]
    rw [if_neg (by simpa using hne)] at h
    simp only [bind_eq_ok, pure_eq_ok, ensure_eq_ok] at h
    obtain ⟨-, -, ranked, hcand, sorted, hsort, rfl⟩ := h
    obtain rfl := candidates_ranked env hne hcand
    obtain ⟨rfl, hids⟩ := sortRanked_rows env hsort
    rw [hvec]
    constructor
    · show ((List.map _ (nearest env query db)).take _).filter _ = _
      rw [← List.map_take, List.filter_map]
      congr 1
      refine List.filter_congr fun r _ => ?_
      show names c _ = names c _
      unfold names scored Doc.get
      rw [Doc.get?_put, if_neg (by decide), Doc.get?_put, if_neg (by decide)]
    · intro r hr
      exact hids r ((List.mem_insertionSort _).1 hr)
  · -- without a query vector nothing is compared
    simp only [if_neg ht, bind_eq_ok, pure_eq_ok] at h
    obtain ⟨_, rfl, rfl⟩ := h
    have hnone : nearest env (vectorOf vector) db = [] := by
      rw [vectorOf_falsy ht, nearest, List.filter_eq_nil_iff.2, List.insertionSort_nil]
      intro r _
      unfold comparable
      cases r.embedding with
      | none => simp
      | some w => simp
    unfold semanticRows
    rw [hnone, List.take_nil]
    exact ⟨rfl, fun _ hr => by cases hr⟩

/-! ## The fusion -/

/-- What is held after some ranks were added: each id once, with the sum of what was added. -/
structure Tally (added : List (Text × ν)) (ranked : Scores ν) : Prop where
  mem : ∀ id, id ∈ ranked.rows.map Scored.recordId ↔ id ∈ added.map Prod.fst
  held : ∀ x ∈ ranked, documentId x.document = .ok x.recordId ∧ x.score = total env added x.recordId

omit [Python ν] [LinearOrder ν] in
theorem total_append (added : List (Text × ν)) (x : Text × ν) (id : Text) :
    total env (added ++ [x]) id =
      if x.1 = id then env.add (total env added id) x.2 else total env added id := by
  unfold total
  rw [List.filter_append]
  by_cases hx : x.1 = id
  · rw [if_pos hx, List.filter_cons_of_pos (by simpa using hx), List.filter_nil,
      List.foldl_append]
    rfl
  · rw [if_neg hx, List.filter_cons_of_neg (by simpa using hx), List.filter_nil, List.append_nil]

omit [Python ν] [LinearOrder ν] in
theorem total_of_notMem {added : List (Text × ν)} {id : Text} (h : id ∉ added.map Prod.fst) :
    total env added id = env.zero := by
  have hnil : (added.filter fun x => x.1 = id) = [] := by
    rw [List.filter_eq_nil_iff]
    intro x hx hid
    exact h (List.mem_map.2 ⟨x, hx, by simpa using hid⟩)
  unfold total
  rw [hnil]
  rfl

omit [Python ν] [LinearOrder ν] in
theorem mem_put {ranked : Scores ν} {x y : Scored ν} :
    y ∈ ranked.put x ↔ (y ∈ ranked ∧ y.recordId ≠ x.recordId) ∨ y = x := by
  have hup : ranked.upserted x (fun y => ⟨y.recordId, x.score, x.document⟩) = x := by
    unfold Table.upserted
    cases hf : ranked.find? x.recordId with
    | none => rfl
    | some z =>
      have hz : z.recordId = x.recordId := (Table.find?_eq_some.1 hf).2
      show Scored.mk z.recordId x.score x.document = x
      rw [hz]
  unfold Scores.put
  rw [Table.mem_upsert, hup]

omit [LinearOrder ν] in
theorem Tally.addRanked {added : List (Text × ν)} {ranked ranked' : Scores ν} {weight : ν}
    {d : Doc ν} {rank : Nat} {id : Text} (ht : Tally env added ranked)
    (hid : documentId d = .ok id)
    (h : Vector.addRanked env weight ranked (d, rank) = .ok ranked') :
    Tally env (added ++ [(id, score env weight rank)]) ranked' := by
  simp only [Vector.addRanked, hid, bind_eq_ok, pure_eq_ok] at h
  obtain ⟨_, hok, rfl⟩ := h
  cases hok
  have hprevious : ((ranked.find? id).map Scored.score).getD env.zero = total env added id := by
    cases hf : ranked.find? id with
    | some y =>
      obtain ⟨hy, rfl⟩ := Table.find?_eq_some.1 hf
      exact (ht.held y hy).2
    | none =>
      have hnew : id ∉ added.map Prod.fst := by
        rw [← ht.mem, List.mem_map]
        rintro ⟨y, hy, hyid⟩
        exact Table.find?_eq_none.1 hf y hy hyid
      exact (total_of_notMem env hnew).symm
  rw [hprevious]
  constructor
  · intro id'
    rw [List.map_append, List.mem_append, ← ht.mem, List.mem_map, List.mem_map]
    constructor
    · rintro ⟨y, hy, rfl⟩
      rcases mem_put.1 hy with ⟨hy, -⟩ | rfl
      · exact .inl ⟨y, hy, rfl⟩
      · exact .inr List.mem_cons_self
    · rintro (⟨y, hy, rfl⟩ | hnew)
      · by_cases hyid : y.recordId = id
        · exact ⟨_, mem_put.2 (.inr rfl), hyid.symm⟩
        · exact ⟨y, mem_put.2 (.inl ⟨hy, hyid⟩), rfl⟩
      · exact ⟨_, mem_put.2 (.inr rfl), (List.mem_singleton.1 hnew).symm⟩
  · intro y hy
    rw [total_append]
    rcases mem_put.1 hy with ⟨hy, hne⟩ | rfl
    · rw [if_neg (Ne.symm hne)]
      exact ht.held y hy
    · rw [if_pos rfl]
      exact ⟨hid, rfl⟩

omit [LinearOrder ν] in
theorem Tally.addAll {added : List (Text × ν)} {ranked ranked' : Scores ν} {weight : ν}
    {results : List (Doc ν)} {ids : List Text} (ht : Tally env added ranked)
    (hids : results.mapM documentId = .ok ids)
    (h : Vector.addAll env weight results ranked = .ok ranked') :
    Tally env (added ++ contributions env weight ids) ranked' := by
  unfold Vector.addAll at h
  unfold contributions
  generalize 1 = rank at h ⊢
  induction results generalizing added ranked ids rank with
  | nil =>
    simp only [List.mapM_nil, pure_eq_ok] at hids
    cases h
    rwa [← hids, List.zipIdx_nil, List.map_nil, List.append_nil]
  | cons d results ih =>
    simp only [List.mapM_cons, bind_eq_ok, pure_eq_ok] at hids
    obtain ⟨id, hid, ids, hrest, rfl⟩ := hids
    simp only [List.zipIdx_cons, List.foldlM_cons, bind_eq_ok] at h
    obtain ⟨ranked₁, h₁, h⟩ := h
    have hrun := ih (ht.addRanked env hid h₁) hrest (rank + 1) h
    rwa [List.append_assoc] at hrun

omit [LinearOrder ν] in
theorem addAll_ids {ranked ranked' : Scores ν} {weight : ν} {results : List (Doc ν)}
    (h : Vector.addAll env weight results ranked = .ok ranked') :
    ∃ ids, results.mapM documentId = .ok ids := by
  unfold Vector.addAll at h
  generalize 1 = rank at h
  induction results generalizing ranked rank with
  | nil => exact ⟨[], rfl⟩
  | cons d results ih =>
    simp only [List.zipIdx_cons, List.foldlM_cons, Vector.addRanked, bind_eq_ok, pure_eq_ok] at h
    obtain ⟨ranked₁, ⟨id, hid, rfl⟩, h⟩ := h
    obtain ⟨ids, hids⟩ := ih (rank + 1) h
    refine ⟨id :: ids, ?_⟩
    simp only [List.mapM_cons, hid, hids, ok_bind, pure_eq_ok]

omit [Python ν] [LinearOrder ν] in
theorem contributions_fst (weight : ν) (ids : List Text) :
    (contributions env weight ids).map Prod.fst = ids := by
  unfold contributions
  rw [List.map_map]
  exact List.zipIdx_map_fst 1 ids

omit [Python ν] in
theorem rankLe_antisymm {a b : ν × Text} (h : rankLe a b) (h' : rankLe b a) : a.2 = b.2 := by
  rcases h with h | ⟨h, hi⟩
  · rcases h' with h' | ⟨h', -⟩
    · exact absurd h (lt_asymm h')
    · exact absurd h' (ne_of_gt h).symm
  · rcases h' with h' | ⟨-, hi'⟩
    · exact absurd h (ne_of_gt h').symm
    · exact le_antisymm hi hi'

/-- The sorted entries: each is there with its id and its sum. -/
theorem Tally.sortScores {added : List (Text × ν)} {ranked : Scores ν}
    {ordered : List ((ν × Text) × Doc ν)} (ht : Tally env added ranked)
    (h : Vector.sortScores ranked = .ok ordered) :
    (ordered.map fun x => x.1.2).Perm (ranked.rows.map Scored.recordId) ∧
      ordered.Pairwise (fun a b => rankLe a.1 b.1) ∧
      ∀ x ∈ ordered, documentId x.2 = .ok x.1.2 ∧ x.1.1 = total env added x.1.2 := by
  have hkeyed : (ranked.rows.mapM fun x => do
      let id ← documentId x.document
      return ((x.score, id), x.document)) =
        .ok (ranked.rows.map fun x => ((x.score, x.recordId), x.document)) := by
    refine mapM_ok fun x hx => ?_
    simp only [(ht.held x hx).1, ok_bind, pure_eq_ok]
  simp only [Vector.sortScores, hkeyed, ok_bind, pure_eq_ok] at h
  have htotal : Std.Total fun a b : (ν × Text) × Doc ν => rankLe a.1 b.1 :=
    ⟨fun _ _ => rankLe_total _ _⟩
  have htrans : IsTrans ((ν × Text) × Doc ν) fun a b => rankLe a.1 b.1 :=
    ⟨fun _ _ _ => rankLe_trans⟩
  subst h
  refine ⟨?_, List.pairwise_insertionSort _ _, ?_⟩
  · refine ((List.perm_insertionSort _ _).map _).trans ?_
    rw [List.map_map]
    exact List.Perm.refl _
  · intro x hx
    obtain ⟨y, hy, rfl⟩ := List.mem_map.1 ((List.mem_insertionSort _).1 hx)
    exact ht.held y hy

/-- Their ids are those of the fusion. -/
theorem Tally.fused {lexical semantic : List Text} {ranked : Scores ν}
    {ordered : List ((ν × Text) × Doc ν)}
    (ht : Tally env (contributions env env.lexicalWeight lexical ++
      contributions env env.semanticWeight semantic) ranked)
    (h : Vector.sortScores ranked = .ok ordered) (limit : Int) :
    (ordered.take limit.toNat).map (fun x => x.1.2) = Vector.fused env lexical semantic limit := by
  obtain ⟨hperm, hsorted, hheld⟩ := ht.sortScores env h
  unfold Vector.fused
  set added := contributions env env.lexicalWeight lexical ++
    contributions env env.semanticWeight semantic with hadded
  have hids : added.map Prod.fst = lexical ++ semantic := by
    rw [hadded, List.map_append, contributions_fst, contributions_fst]
  have htotal : Std.Total fun a b => rankLe (total env added a, a) (total env added b, b) :=
    ⟨fun _ _ => rankLe_total _ _⟩
  have htrans : IsTrans Text fun a b => rankLe (total env added a, a) (total env added b, b) :=
    ⟨fun _ _ _ => rankLe_trans⟩
  have hrows : (ranked.rows.map Scored.recordId).Perm (lexical ++ semantic).dedup := by
    rw [List.perm_ext_iff_of_nodup ranked.nodup (List.nodup_dedup _)]
    intro id
    rw [ht.mem, hids, List.mem_dedup]
  have hpairwise : (ordered.map fun x => x.1.2).Pairwise fun a b =>
      rankLe (total env added a, a) (total env added b, b) := by
    rw [List.pairwise_map]
    refine hsorted.imp_of_mem ?_
    intro a b ha hb hab
    rw [← (hheld a ha).2, ← (hheld b hb).2]
    exact hab
  rw [List.map_take]
  congr 1
  refine List.Perm.eq_of_pairwise (fun a b _ _ hab hba => ?_) hpairwise
    (List.pairwise_insertionSort _ _) ?_
  · exact rankLe_antisymm hab hba
  · exact (hperm.trans hrows).trans (List.perm_insertionSort _ _).symm

omit [Python ν] in
theorem nodup_fused (lexical semantic : List Text) (limit : Int) :
    (fused env lexical semantic limit).Nodup := by
  unfold fused
  refine List.Nodup.sublist (List.take_sublist _ _) ?_
  exact ((List.perm_insertionSort _ _).nodup_iff).2 (List.nodup_dedup _)

/-- **Hybrid search.**  A search that returns ranks the nearest records of the category by the
column, and returns their fusion with the lexical ones, exactly when the nearest records agree. -/
theorem ranksFiltered_iff {query : Text} {vector : Value ν} {c : Text} {limit : Int} {db : Db ν}
    {output : List (Doc ν)} (hl : 1 ≤ limit)
    (h : searchHybrid env query vector (some c) limit db = .ok output) :
    ∃ lexical, search env query (some c) (widened limit) db = .ok lexical ∧
      semanticCandidates env vector (some c) limit db =
        .ok ((semanticRows env (vectorOf vector) c limit db).map fun r =>
          scored (similarity env (vectorOf vector) r) r.document) ∧
      (RanksFiltered env (vectorOf vector) c limit db lexical output ↔
        Agrees env (vectorOf vector) c limit db) := by
  simp only [searchHybrid, bind_eq_ok, pure_eq_ok] at h
  obtain ⟨lexical, hlex, semantic, hsem, ranked₁, h₁, ranked₂, h₂, ordered, hord, rfl⟩ := h
  obtain ⟨hsemantic, hids⟩ := semanticCandidates_eq_ok env hsem
  refine ⟨lexical, hlex, hsemantic ▸ hsem, ?_⟩
  rw [← semanticRows_eq_iff]
  refine ⟨fun hranks => hranks.1, fun hrows => ⟨hrows, ?_⟩⟩
  obtain ⟨ids, hlexIds⟩ := addAll_ids env h₁
  have hstart : Tally env [] (Table.empty : Scores ν) := ⟨fun _ => Iff.rfl, fun _ hx => by cases hx⟩
  have hsemIds : semantic.mapM documentId =
      .ok ((filteredRows env (vectorOf vector) c limit db).map Record.rankedId) := by
    rw [hsemantic, hrows, List.mapM_map]
    refine mapM_ok fun r hr => ?_
    have hmem : r ∈ nearest env (vectorOf vector) db := by
      rw [filteredRows_eq] at hr
      exact (List.mem_filter.1 (List.mem_of_mem_take hr)).1
    show documentId ((r.document.put _ _).put _ _) = _
    rw [documentId_put (by decide), documentId_put (by decide)]
    exact hids r hmem
  have htally := (hstart.addAll env hlexIds h₁).addAll env hsemIds h₂
  rw [List.nil_append] at htally
  refine ⟨ids, _, hlexIds, ?_, rfl, nodup_fused env _ _ _⟩
  rw [← htally.fused env hord limit]
  have hupTo : upTo limit ordered = ordered.take limit.toNat := if_neg (by omega)
  rw [hupTo, List.mapM_map]
  refine mapM_ok fun x hx => ?_
  show documentId (x.2.put _ _) = _
  rw [documentId_put (by decide)]
  exact ((htally.sortScores env hord).2.2 x (List.mem_of_mem_take hx)).1

end

/-! ## Examples -/

namespace Sample

/-- No text of these stores matches. -/
def hybrid : Hybrid Rat where
  matching := fun _ _ => .ok []
  realText := fun _ => none
  cosineSimilarity := dot
  add := (· + ·)
  div := (· / ·)
  ofRank := fun n => n
  zero := 0
  sixty := 60
  lexicalWeight := 45 / 100
  semanticWeight := 55 / 100

theorem labelled_nodup :
    ([(text "id", Value.str (text "a")), (text "category", .str (text "k")),
      (text "embedding", vector 1)].map Prod.fst).Nodup := by decide

theorem tagged_nodup :
    ([(text "id", Value.str (text "a")), (text "meta", .dict [(text "category", .str (text "k"))]),
      (text "embedding", vector 1)].map Prod.fst).Nodup := by decide

/-- A document that names its category. -/
def labelled : Write Rat := .upsert [(noon, Doc.ofFields _ labelled_nodup)]

/-- A document of which only the metadata names the category. -/
def tagged : Write Rat := .upsert [(noon, Doc.ofFields _ tagged_nodup)]

def storeOf (w : Write Rat) : Shared Rat := (attempt w.call { db := Db.empty } 0 []).shared

theorem labelled_search :
    Session 0 [labelled] (storeOf labelled) ∧
    ∃ output lexical,
      searchHybrid hybrid (text "zebra") (vector 1) (some (text "k")) 1 (storeOf labelled).db =
        .ok output ∧
      search hybrid (text "zebra") (some (text "k")) (widened 1) (storeOf labelled).db =
        .ok lexical ∧
      semanticCandidates hybrid (vector 1) (some (text "k")) 1 (storeOf labelled).db =
        .ok ((semanticRows hybrid (vectorOf (vector 1)) (text "k") 1 (storeOf labelled).db).map
          fun r => scored (similarity hybrid (vectorOf (vector 1)) r) r.document) ∧
      (RanksFiltered hybrid (vectorOf (vector 1)) (text "k") 1 (storeOf labelled).db lexical output ↔
        Agrees hybrid (vectorOf (vector 1)) (text "k") 1 (storeOf labelled).db) :=
  ⟨.returned labelled [] .start rfl, _,
    (@ranksFiltered_iff Rat _ _ hybrid (text "zebra") (vector 1) (text "k") 1 _ _ (by decide)
      rfl).imp fun _ h => ⟨rfl, h⟩⟩

/-- The record's column is the category that is asked for, and the search does not find it. -/
theorem tagged_missed :
    Session 0 [tagged] (storeOf tagged) ∧
    ∃ lexical,
      search hybrid (text "zebra") (some (text "k")) (widened 1) (storeOf tagged).db = .ok lexical ∧
      searchHybrid hybrid (text "zebra") (vector 1) (some (text "k")) 1 (storeOf tagged).db = .ok [] ∧
      (filteredRows hybrid [1] (text "k") 1 (storeOf tagged).db).map Record.recordId = [text "a"] ∧
      ¬ RanksFiltered hybrid [1] (text "k") 1 (storeOf tagged).db lexical [] := by
  refine ⟨.returned tagged [] .start rfl, [], rfl, rfl, rfl, fun h => ?_⟩
  have hrows := congrArg (List.map Record.recordId) h.1
  cases hrows

end Sample

end ProjectMaya.Vector
