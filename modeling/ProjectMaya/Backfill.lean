import Mathlib.Data.List.ReduceOption
import ProjectMaya.Logic.Batches
import ProjectMaya.RetrieverGate

/-! # The backfill of normalized vectors

`backfill` pages through `entries` by offset and writes by `embedding_id`. `backfill_faithful_iff`
says on which tables a second run writes nothing and a dry run tells what the real run does. -/

namespace ProjectMaya.Backfill

open Logic
open ProjectMaya.Vector (Text Value text)
open ProjectMaya.Retriever (Floats vectorNormalize)

inductive Exn where
  | value (message : String)
  /-- `sqlite3.OperationalError`: no such column. -/
  | operational
  | overflow
  | type
  deriving DecidableEq, Repr

/-! ## The table -/

/-- A column that the script adds. -/
inductive Column where
  | vector
  | dim
  | algo
  | time
  | version
  deriving DecidableEq, Repr

def Column.all : List Column := [.vector, .dim, .algo, .time, .version]

theorem Column.mem_all (c : Column) : c ∈ Column.all := by cases c <;> decide

/-- A row of `entries`; `none` is `NULL`. -/
structure Entry (κ : Type) where
  rowid : Nat
  embeddingId : Option κ
  vector : Option Text
  normalizedVector : Option Text := none
  normalizedVectorDim : Option Nat := none
  normalizedVectorAlgo : Option Text := none
  normalizedAt : Option Text := none
  normalizedVersion : Option Int := none
  deriving DecidableEq

def Entry.isNull {κ : Type} (r : Entry κ) : Column → Bool
  | .vector => r.normalizedVector.isNone
  | .dim => r.normalizedVectorDim.isNone
  | .algo => r.normalizedVectorAlgo.isNone
  | .time => r.normalizedAt.isNone
  | .version => r.normalizedVersion.isNone

/-- `columns` are those of the script's columns that the table has; a row has nothing in the others. -/
structure Database (κ : Type) where
  columns : List Column
  rows : Table (Entry κ) Nat Entry.rowid
  absent : ∀ r ∈ rows, ∀ c, c ∉ columns → r.isNull c

/-- The parameters of the `UPDATE` statement. -/
structure Update (κ : Type) where
  normalizedVector : Text
  normalizedVectorDim : Nat
  normalizedVectorAlgo : Text
  normalizedAt : Text
  normalizedVersion : Int
  embeddingId : Option κ

section

variable {κ : Type}

/-- `ALTER TABLE entries ADD COLUMN` -/
def Database.addColumn (db : Database κ) (c : Column) : Database κ where
  columns := db.columns ++ [c]
  rows := db.rows
  absent r hr c' hc' := db.absent r hr c' fun h => hc' (List.mem_append_left _ h)

def Entry.written (r : Entry κ) (u : Update κ) : Entry κ :=
  { r with
    normalizedVector := some u.normalizedVector
    normalizedVectorDim := some u.normalizedVectorDim
    normalizedVectorAlgo := some u.normalizedVectorAlgo
    normalizedAt := some u.normalizedAt
    normalizedVersion := some u.normalizedVersion }

variable [DecidableEq κ]

/-- `WHERE embedding_id = ?`; `NULL` is equal to nothing. -/
def Update.hits (u : Update κ) (r : Entry κ) : Bool :=
  u.embeddingId.isSome && r.embeddingId = u.embeddingId

def Database.update (db : Database κ) (h : ∀ c ∈ Column.all, c ∈ db.columns) (u : Update κ) :
    Database κ where
  columns := db.columns
  rows := db.rows.update u.hits (fun r => r.written u) fun _ => rfl
  absent _ _ c hc := absurd (h c c.mem_all) hc

/-- What SQLite takes for an integer. -/
def Fits (n : Int) : Prop := -2 ^ 63 ≤ n ∧ n < 2 ^ 63

instance (n : Int) : Decidable (Fits n) := inferInstanceAs (Decidable (_ ∧ _))

/-- The `UPDATE` statement. -/
def execute (db : Database κ) (u : Update κ) : Except Exn (Database κ) :=
  if h : ∀ c ∈ Column.all, c ∈ db.columns then do
    ensure (Fits u.normalizedVersion) .overflow
    return db.update h u
  else .error .operational

end

/-! ## The script -/

structure Json (ν : Type) where
  /-- `json.loads`; `none` where it raises. -/
  loads : Text → Option (Value ν)
  /-- `json.dumps` of a float -/
  float : ν → Text

def dumps {ν : Type} (json : Json ν) (nvec : List ν) : Text :=
  '[' :: ((text ", ").intercalate (nvec.map json.float) ++ [']'])

structure Args where
  chunk : Int
  algo : Text
  version : Int

/-- What the run returns as `updated`, or raises; the rows that it has fetched; and what the file
holds afterwards. -/
structure Run (κ : Type) where
  result : Except Exn Nat
  visited : List Nat
  database : Database κ

def Run.after {κ : Type} (run : Run κ) (batch : List (Entry κ)) : Run κ :=
  { run with visited := batch.map Entry.rowid ++ run.visited }

section

variable {ν κ : Type} [Floats ν] [DecidableEq κ] (json : Json ν) (args : Args)

omit [DecidableEq κ] in
/-- `ensure_columns` -/
def ensureColumns (dryRun : Bool) (db : Database κ) : Database κ :=
  if dryRun then db
  else (Column.all.filter fun c => c ∉ db.columns).foldl Database.addColumn db

/-- `range(0, total, chunk)` -/
def offsets (total : Nat) : Except Exn (List Nat) := do
  ensure (args.chunk ≠ 0) (.value "range() arg 3 must not be zero")
  return (List.range ((total + args.chunk.toNat - 1) / args.chunk.toNat)).map
    fun i => i * args.chunk.toNat

omit [DecidableEq κ] in
/-- `LIMIT ? OFFSET ?` -/
def slice (rows : List (Entry κ)) (offset : Nat) : List (Entry κ) :=
  (rows.drop offset).take args.chunk.toNat

/-- The columns of the `SELECT` that the script adds. -/
def readColumns : List Column := [.vector, .algo, .version]

omit [DecidableEq κ] in
/-- A step of `rows_to_process` -/
def fetchRows (db : Database κ) (offset : Nat) : Except Exn (List (Entry κ)) := do
  ensure (∀ c ∈ readColumns, c ∈ db.columns) .operational
  ensure (args.chunk < 2 ^ 63) .overflow
  return slice args db.rows.rows offset

omit [DecidableEq κ] [Floats ν] in
def vectorOf (r : Entry κ) : Value ν :=
  match r.vector with
  | none => .list false []
  | some t => if t = [] then .list false [] else (json.loads t).getD (.list false [])

omit [DecidableEq κ] in
def needWrite (r : Entry κ) : Bool :=
  r.normalizedVector.getD [] = [] ∨
    r.normalizedVectorAlgo ≠ some args.algo ∨ r.normalizedVersion ≠ some args.version

omit [DecidableEq κ] [Floats ν] in
def updateOf (now : Nat → Text) (r : Entry κ) (nvec : List ν) : Update κ where
  normalizedVector := dumps json nvec
  normalizedVectorDim := nvec.length
  normalizedVectorAlgo := args.algo
  normalizedAt := now r.rowid
  normalizedVersion := args.version
  embeddingId := r.embeddingId

omit [DecidableEq κ] in
/-- The loop over a batch for one row; `now` is the time at which a row is looked at. -/
def prepare (now : Nat → Text) (r : Entry κ) : Except Exn (Option (Update κ)) := do
  let nvec ← fetch (vectorNormalize (vectorOf json r)) .type
  return if needWrite args r then some (updateOf json args now r nvec) else none

/-- What a batch adds to `updated`, and what its commit leaves. -/
def processBatch (dryRun : Bool) (now : Nat → Text) (batch : List (Entry κ)) (db : Database κ) :
    Except Exn (Nat × Database κ) := do
  let prepared ← batch.mapM (prepare json args now)
  let updates := prepared.reduceOption
  if dryRun then return (updates.length, db)
  let db' ← updates.foldlM execute db
  return (updates.length, db')

/-- The loop over the batches; the statements of a batch that raises are not committed. -/
def batches (dryRun : Bool) (now : Nat → Text) : List Nat → Nat → Database κ → Run κ
  | [], updated, db => ⟨.ok updated, [], db⟩
  | offset :: rest, updated, db =>
    match fetchRows args db offset with
    | .error e => ⟨.error e, [], db⟩
    | .ok batch =>
      match processBatch json args dryRun now batch db with
      | .error e => ⟨.error e, batch.map Entry.rowid, db⟩
      | .ok done => (batches dryRun now rest (updated + done.1) done.2).after batch

/-- `backfill` -/
def backfill (dryRun : Bool) (now : Nat → Text) (db : Database κ) : Run κ :=
  let db := ensureColumns dryRun db
  match offsets args db.rows.rows.length with
  | .error e => ⟨.error e, [], db⟩
  | .ok offsets => batches json args dryRun now offsets 0 db

/-! ## The law -/

omit [DecidableEq κ] in
/-- The run has been through every row of the table, and reports `n`. -/
structure Run.Reports (run : Run κ) (db : Database κ) (n : Nat) : Prop where
  result : run.result = .ok n
  visited : run.visited = db.rows.rows.map Entry.rowid

/-- A second run finds nothing to do, and a dry run reports what the real run does. -/
def Faithful (now : Nat → Text) (db : Database κ) : Prop :=
  let run := backfill json args false now db
  ∃ n, run.Reports db n ∧ ∀ now' : Nat → Text,
    (backfill json args false now' run.database).Reports run.database 0 ∧
    (backfill json args false now' run.database).database = run.database ∧
    (backfill json args true now' db).Reports db n ∧
    (backfill json args true now' db).database = db

omit [DecidableEq κ] in
/-- No row to be written of the one batch has the id of one of the other. -/
def Apart (p q : List (Entry κ)) : Prop :=
  ∀ r ∈ p, ∀ r' ∈ q, needWrite args r → needWrite args r' →
    ∀ k, r.embeddingId = some k → r'.embeddingId ≠ some k

omit [DecidableEq κ] in
/-- The table has the columns that are read, every vector is one, the rows to be written have an id
that they share within a batch only, and SQLite takes the arguments. -/
structure Suited (db : Database κ) : Prop where
  columns : ∀ c ∈ readColumns, c ∈ db.columns
  chunk : args.chunk < 2 ^ 63
  vectors : ∀ r ∈ db.rows, (vectorNormalize (vectorOf json r)).isSome
  version : ∀ r ∈ db.rows, needWrite args r → Fits args.version
  identified : ∀ r ∈ db.rows, needWrite args r → r.embeddingId.isSome
  apart : (cut args.chunk.toNat db.rows.rows).Pairwise (Apart args)

end

/-! ## The columns -/

section

variable {κ : Type} {db : Database κ}

theorem foldl_addColumn (cs : List Column) (db : Database κ) :
    (cs.foldl Database.addColumn db).rows = db.rows ∧
      (cs.foldl Database.addColumn db).columns = db.columns ++ cs := by
  induction cs generalizing db with
  | nil => exact ⟨rfl, (List.append_nil _).symm⟩
  | cons c cs ih =>
    obtain ⟨hrows, hcolumns⟩ := ih (db.addColumn c)
    refine ⟨hrows, hcolumns.trans ?_⟩
    show (db.columns ++ [c]) ++ cs = db.columns ++ c :: cs
    rw [List.append_assoc, List.singleton_append]

theorem rows_ensureColumns (dryRun : Bool) (db : Database κ) :
    (ensureColumns dryRun db).rows = db.rows := by
  cases dryRun with
  | true => rfl
  | false => exact (foldl_addColumn _ db).1

theorem mem_ensureColumns (c : Column) : c ∈ (ensureColumns false db).columns := by
  show c ∈ (List.foldl Database.addColumn db _).columns
  rw [(foldl_addColumn _ db).2, List.mem_append, List.mem_filter]
  by_cases h : c ∈ db.columns
  · exact .inl h
  · exact .inr ⟨c.mem_all, decide_eq_true h⟩

/-- There is nothing to add to a table that has all columns. -/
theorem ensureColumns_of_all (h : ∀ c, c ∈ db.columns) : ensureColumns false db = db := by
  have hnone : (Column.all.filter fun c => c ∉ db.columns) = [] := by
    rw [List.filter_eq_nil_iff]
    intro c _
    simpa using h c
  show List.foldl Database.addColumn db (Column.all.filter fun c => c ∉ db.columns) = db
  rw [hnone]
  rfl

end

/-! ## The statements of a batch -/

section

variable {κ : Type} [DecidableEq κ] {args : Args} {us : List (Update κ)} {r : Entry κ}

/-- What the statements make of a row. -/
def writtenBy (us : List (Update κ)) (r : Entry κ) : Entry κ :=
  us.foldl (fun r u => if u.hits r then r.written u else r) r

theorem execute_eq {db : Database κ} (hall : ∀ c, c ∈ db.columns) (u : Update κ) :
    execute db u = (do
      ensure (Fits u.normalizedVersion) .overflow
      return db.update (fun c _ => hall c) u) :=
  dif_pos fun c _ => hall c

variable (us) in
theorem executeAll {db : Database κ} (hall : ∀ c, c ∈ db.columns)
    (hfits : ∀ u ∈ us, Fits u.normalizedVersion) :
    ∃ db', us.foldlM execute db = .ok db' ∧ db'.columns = db.columns ∧
      db'.rows.rows = db.rows.rows.map (writtenBy us) := by
  induction us generalizing db with
  | nil => exact ⟨db, rfl, rfl, (List.map_id _).symm⟩
  | cons u us ih =>
    obtain ⟨hu, hus⟩ := List.forall_mem_cons.mp hfits
    have hall' : ∀ c, c ∈ (db.update (fun c _ => hall c) u).columns := hall
    obtain ⟨db', hrun, hcolumns, hrows⟩ := ih hall' hus
    refine ⟨db', ?_, hcolumns, hrows.trans ?_⟩
    · rw [List.foldlM_cons, execute_eq hall, ensure_pos hu]
      exact hrun
    · show List.map (writtenBy us) (List.map _ db.rows.rows) = _
      rw [List.map_map]
      rfl

/-- What no statement changes in a row. -/
structure SameSource (r r' : Entry κ) : Prop where
  rowid : r'.rowid = r.rowid
  embeddingId : r'.embeddingId = r.embeddingId
  vector : r'.vector = r.vector

omit [DecidableEq κ] in
theorem SameSource.trans {r' r'' : Entry κ} (h : SameSource r r') (h' : SameSource r' r'') :
    SameSource r r'' :=
  ⟨h'.rowid.trans h.rowid, h'.embeddingId.trans h.embeddingId, h'.vector.trans h.vector⟩

theorem sameSource_writtenBy (us : List (Update κ)) (r : Entry κ) :
    SameSource r (writtenBy us r) := by
  induction us generalizing r with
  | nil => exact ⟨rfl, rfl, rfl⟩
  | cons u us ih =>
    refine SameSource.trans ?_ (ih _)
    show SameSource r (if u.hits r then r.written u else r)
    split
    · exact ⟨rfl, rfl, rfl⟩
    · exact ⟨rfl, rfl, rfl⟩

/-- The statement writes what the run is for. -/
structure Update.For (args : Args) (u : Update κ) : Prop where
  vector : u.normalizedVector ≠ []
  algo : u.normalizedVectorAlgo = args.algo
  version : u.normalizedVersion = args.version

omit [DecidableEq κ] in
theorem needWrite_written {u : Update κ} (h : u.For args) : needWrite args (r.written u) = false := by
  simp [needWrite, Entry.written, h.vector, h.algo, h.version]

/-- A row needs to be written after the statements if it needed to, and no statement was for it. -/
theorem needWrite_writtenBy (h : ∀ u ∈ us, u.For args) :
    needWrite args (writtenBy us r) ↔ needWrite args r ∧ ∀ u ∈ us, ¬ u.hits r := by
  induction us generalizing r with
  | nil => simp [writtenBy]
  | cons u us ih =>
    obtain ⟨hu, hus⟩ := List.forall_mem_cons.mp h
    show needWrite args (writtenBy us (if u.hits r then r.written u else r)) ↔ _
    rw [ih hus, List.forall_mem_cons]
    by_cases hhits : u.hits r = true
    · simp [hhits, needWrite_written hu]
    · simp [hhits]

theorem hits_iff (u : Update κ) :
    u.hits r ↔ ∃ k, u.embeddingId = some k ∧ r.embeddingId = some k := by
  unfold Update.hits
  cases u.embeddingId with
  | none => simp
  | some k => simp

theorem forall_not_hits :
    (∀ u ∈ us, ¬ u.hits r) ↔ ∀ k ∈ us.filterMap Update.embeddingId, r.embeddingId ≠ some k := by
  simp only [hits_iff, List.mem_filterMap]
  constructor
  · rintro h k ⟨u, hu, hk⟩ hr
    exact h u hu ⟨k, hk, hr⟩
  · rintro h u hu ⟨k, hk, hr⟩
    exact h k ⟨u, hu, hk⟩ hr

end

/-! ## What a batch writes -/

section

variable {ν κ : Type} [Floats ν] [DecidableEq κ] {json : Json ν} {args : Args}
  {now : Nat → Text} {batch : List (Entry κ)}

/-- The normalized vector of a row that has one. -/
def normalOf (json : Json ν) (r : Entry κ) : List ν := (vectorNormalize (vectorOf json r)).getD []

omit [DecidableEq κ] in
theorem prepare_eq {r : Entry κ} (h : (vectorNormalize (vectorOf json r)).isSome) :
    prepare json args now r =
      .ok (if needWrite args r then some (updateOf json args now r (normalOf json r)) else none) := by
  obtain ⟨nvec, hnvec⟩ := Option.isSome_iff_exists.mp h
  unfold prepare normalOf
  rw [hnvec]
  rfl

/-- The statements of a batch. -/
def updatesOf (json : Json ν) (args : Args) (now : Nat → Text) (batch : List (Entry κ)) :
    List (Update κ) :=
  (batch.filter (needWrite args)).map fun r => updateOf json args now r (normalOf json r)

omit [DecidableEq κ] in
theorem prepareAll (h : ∀ r ∈ batch, (vectorNormalize (vectorOf json r)).isSome) :
    ∃ prepared, batch.mapM (prepare json args now) = .ok prepared ∧
      prepared.reduceOption = updatesOf json args now batch := by
  refine ⟨_, mapM_ok fun r hr => prepare_eq (h r hr), ?_⟩
  clear h
  unfold updatesOf
  induction batch with
  | nil => rfl
  | cons r batch ih =>
    rw [List.map_cons, List.filter_cons]
    split
    · rw [List.reduceOption_cons_of_some, ih, List.map_cons]
    · rw [List.reduceOption_cons_of_none, ih]

omit [DecidableEq κ] in
theorem updatesOf_for : ∀ u ∈ updatesOf json args now batch, u.For args := by
  intro u hu
  obtain ⟨r, -, rfl⟩ := List.mem_map.mp hu
  exact ⟨List.cons_ne_nil _ _, rfl, rfl⟩

omit [DecidableEq κ] in
theorem filterMap_updatesOf :
    (updatesOf json args now batch).filterMap Update.embeddingId =
      (batch.filter (needWrite args)).filterMap Entry.embeddingId := by
  unfold updatesOf
  rw [List.filterMap_map]
  rfl

variable (args now) in
theorem processBatch_eq (dryRun : Bool) (db : Database κ)
    (h : ∀ r ∈ batch, (vectorNormalize (vectorOf json r)).isSome) :
    processBatch json args dryRun now batch db =
      if dryRun then .ok ((batch.filter (needWrite args)).length, db)
      else ((updatesOf json args now batch).foldlM execute db).map fun db' =>
        ((batch.filter (needWrite args)).length, db') := by
  obtain ⟨prepared, hprepared, hupdates⟩ := prepareAll h
  have hlen : (updatesOf json args now batch).length = (batch.filter (needWrite args)).length :=
    List.length_map _
  unfold processBatch
  rw [← hlen, hprepared, ok_bind, hupdates]
  cases dryRun with
  | true => rfl
  | false =>
    show ((updatesOf json args now batch).foldlM execute db >>= fun db' => .ok (_, db')) =
      ((updatesOf json args now batch).foldlM execute db).map _
    cases (updatesOf json args now batch).foldlM execute db <;> rfl

end

/-! ## Runs that write nothing -/

section

variable {ν κ : Type} [Floats ν] [DecidableEq κ] {json : Json ν} {args : Args}
  {now : Nat → Text} {os : List Nat} {updated : Nat} {db : Database κ}

/-- The rows that the batches at these offsets fetch. -/
def fetched (args : Args) (rows : List (Entry κ)) (os : List Nat) : List (Entry κ) :=
  os.flatMap (slice args rows)

omit [DecidableEq κ] in
theorem mem_of_mem_slice {rows : List (Entry κ)} {offset : Nat} {r : Entry κ}
    (h : r ∈ slice args rows offset) : r ∈ rows :=
  List.mem_of_mem_drop (List.mem_of_mem_take h)

/-- What a `SELECT` needs. -/
structure Readable (args : Args) (db : Database κ) : Prop where
  columns : ∀ c ∈ readColumns, c ∈ db.columns
  chunk : args.chunk < 2 ^ 63

omit [DecidableEq κ] in
theorem fetchRows_eq (h : Readable args db) (offset : Nat) :
    fetchRows args db offset = .ok (slice args db.rows.rows offset) := by
  unfold fetchRows
  rw [ensure_pos h.columns, ok_bind, ensure_pos h.chunk]
  rfl

omit [DecidableEq κ] in
theorem fetchRows_eq_ok {offset : Nat} {batch : List (Entry κ)}
    (h : fetchRows args db offset = .ok batch) :
    Readable args db ∧ batch = slice args db.rows.rows offset := by
  unfold fetchRows at h
  simp only [bind_eq_ok, ensure_eq_ok, pure_eq_ok] at h
  obtain ⟨_, hcolumns, _, hchunk, rfl⟩ := h
  exact ⟨⟨hcolumns, hchunk⟩, rfl⟩

/-- A run leaves the table alone if it is a dry run, or if no row needs to be written. -/
theorem batches_still {dryRun : Bool} (hread : Readable args db)
    (hvectors : ∀ r ∈ db.rows.rows, (vectorNormalize (vectorOf json r)).isSome)
    (hstill : dryRun = true ∨ ∀ r ∈ db.rows.rows, ¬ needWrite args r) :
    batches json args dryRun now os updated db =
      ⟨.ok (updated + ((fetched args db.rows.rows os).filter (needWrite args)).length),
        (fetched args db.rows.rows os).map Entry.rowid, db⟩ := by
  induction os generalizing updated with
  | nil => rfl
  | cons offset os ih =>
    have hprocess : processBatch json args dryRun now (slice args db.rows.rows offset) db =
        .ok (((slice args db.rows.rows offset).filter (needWrite args)).length, db) := by
      rw [processBatch_eq args now dryRun db fun r hr => hvectors r (mem_of_mem_slice hr)]
      rcases hstill with rfl | hnone
      · rfl
      · have hempty : (slice args db.rows.rows offset).filter (needWrite args) = [] :=
          List.filter_eq_nil_iff.mpr fun r hr => hnone r (mem_of_mem_slice hr)
        unfold updatesOf
        rw [hempty]
        cases dryRun <;> rfl
    rw [batches, fetchRows_eq hread]
    simp only [hprocess, ih]
    unfold fetched Run.after
    rw [List.flatMap_cons, List.filter_append, List.length_append, List.map_append, Nat.add_assoc]

/-! ## Runs that return -/

theorem batches_cons_ok {dryRun : Bool} {offset n : Nat}
    (h : (batches json args dryRun now (offset :: os) updated db).result = .ok n) :
    Readable args db ∧ ∃ done,
      processBatch json args dryRun now (slice args db.rows.rows offset) db = .ok done ∧
      (batches json args dryRun now os (updated + done.1) done.2).result = .ok n := by
  rw [batches] at h
  cases hfetch : fetchRows args db offset with
  | error e =>
    rw [hfetch] at h
    cases h
  | ok batch =>
    obtain ⟨hread, rfl⟩ := fetchRows_eq_ok hfetch
    rw [hfetch] at h
    refine ⟨hread, ?_⟩
    cases hprocess : processBatch json args dryRun now (slice args db.rows.rows offset) db with
    | error e =>
      simp only [hprocess] at h
      cases h
    | ok done =>
      simp only [hprocess] at h
      exact ⟨done, rfl, h⟩

theorem processBatch_ok {dryRun : Bool} {batch : List (Entry κ)} {done : Nat × Database κ}
    (h : processBatch json args dryRun now batch db = .ok done) :
    ∀ r ∈ batch, (vectorNormalize (vectorOf json r)).isSome := by
  intro r hr
  unfold processBatch at h
  obtain ⟨prepared, hprepared, -⟩ := bind_eq_ok.mp h
  obtain ⟨u, hu⟩ := mapM_mem hprepared r hr
  obtain ⟨nvec, hnvec, -⟩ := bind_eq_ok.mp hu
  rw [fetch_eq_ok.mp hnvec]
  rfl

/-- A dry run that returns has read the columns, and every vector that it saw was one. -/
theorem dry_ok {n : Nat} (h : (batches json args true now os updated db).result = .ok n) :
    ∀ offset ∈ os, Readable args db ∧
      ∀ r ∈ slice args db.rows.rows offset, (vectorNormalize (vectorOf json r)).isSome := by
  induction os generalizing updated with
  | nil => exact fun offset ho => absurd ho List.not_mem_nil
  | cons offset os ih =>
    obtain ⟨hread, done, hprocess, hrest⟩ := batches_cons_ok h
    have hvectors := processBatch_ok hprocess
    rw [processBatch_eq args now true db hvectors] at hprocess
    obtain rfl := Except.ok.inj hprocess
    exact List.forall_mem_cons.mpr ⟨⟨hread, hvectors⟩, ih hrest⟩

/-- With a version that SQLite does not take, a run returns only if no row needs to be written. -/
theorem none_of_not_fits {n : Nat} (hfits : ¬ Fits args.version)
    (h : (batches json args false now os updated db).result = .ok n) :
    ∀ r ∈ fetched args db.rows.rows os, ¬ needWrite args r := by
  induction os generalizing updated with
  | nil => exact fun r hr => absurd hr List.not_mem_nil
  | cons offset os ih =>
    obtain ⟨-, done, hprocess, hrest⟩ := batches_cons_ok h
    rw [processBatch_eq args now false db (processBatch_ok hprocess)] at hprocess
    obtain ⟨db', hdb', hdone⟩ := map_eq_ok.mp hprocess
    cases hneed : (slice args db.rows.rows offset).filter (needWrite args) with
    | nil =>
      unfold updatesOf at hdb'
      rw [hneed] at hdb'
      obtain rfl := Except.ok.inj hdb'
      obtain rfl := hdone
      intro r hr
      rcases List.mem_append.mp hr with hr | hr
      · exact List.filter_eq_nil_iff.mp hneed r hr
      · exact ih hrest r hr
    | cons r rest =>
      -- the first statement of the batch raises
      unfold updatesOf at hdb'
      rw [hneed, List.map_cons, List.foldlM_cons] at hdb'
      obtain ⟨db₁, hdb₁, -⟩ := bind_eq_ok.mp hdb'
      unfold execute at hdb₁
      split at hdb₁
      · obtain ⟨_, hensure, -⟩ := bind_eq_ok.mp hdb₁
        exact absurd (ensure_eq_ok.mp hensure) hfits
      · cases hdb₁

end

/-! ## Runs that write -/

section

variable {ν κ : Type} [Floats ν] [DecidableEq κ] {json : Json ν} {args : Args}
  {now : Nat → Text} {S : List κ} {g : Entry κ → Entry κ}

/-- What a run has made of the rows, when `S` are the ids that it has written. -/
structure Progress (args : Args) (S : List κ) (g : Entry κ → Entry κ) : Prop where
  source : ∀ r, SameSource r (g r)
  needs : ∀ r, needWrite args (g r) ↔ needWrite args r ∧ ∀ k ∈ S, r.embeddingId ≠ some k

/-- The row is still to be written when the ids `S` have been. -/
def fresh (args : Args) (S : List κ) (r : Entry κ) : Bool :=
  needWrite args r && S.all fun k => r.embeddingId ≠ some k

omit [DecidableEq κ] in
/-- The ids of the rows. -/
def idsOf (rows : List (Entry κ)) : List κ := rows.filterMap Entry.embeddingId

/-- What a run counts that has written `S` before. -/
def counted (args : Args) : List κ → List (List (Entry κ)) → Nat
  | _, [] => 0
  | S, p :: ps =>
    (p.filter (fresh args S)).length + counted args (S ++ idsOf (p.filter (fresh args S))) ps

theorem fresh_iff {r : Entry κ} :
    fresh args S r ↔ needWrite args r ∧ ∀ k ∈ S, r.embeddingId ≠ some k := by
  simp [fresh]

theorem fresh_nil : fresh args ([] : List κ) = needWrite args := by
  funext r
  simp [fresh]

omit [DecidableEq κ] in
theorem progress_id : Progress args ([] : List κ) id where
  source _ := ⟨rfl, rfl, rfl⟩
  needs _ := ⟨fun h => ⟨h, fun _ hk => absurd hk List.not_mem_nil⟩, And.left⟩

theorem Progress.needWrite_comp (h : Progress args S g) : needWrite args ∘ g = fresh args S := by
  funext r
  rw [Bool.eq_iff_iff, Function.comp_apply, h.needs, fresh_iff]

omit [DecidableEq κ] in
theorem Progress.idsOf_map (h : Progress args S g) (rows : List (Entry κ)) :
    idsOf (rows.map g) = idsOf rows := by
  unfold idsOf
  rw [List.filterMap_map]
  congr 1
  funext r
  exact (h.source r).embeddingId

omit [DecidableEq κ] in
theorem Progress.map_rowid (h : Progress args S g) (rows : List (Entry κ)) :
    (rows.map g).map Entry.rowid = rows.map Entry.rowid := by
  rw [List.map_map]
  exact List.map_congr_left fun r _ => (h.source r).rowid

theorem Progress.filter_map (h : Progress args S g) (rows : List (Entry κ)) :
    (rows.map g).filter (needWrite args) = (rows.filter (fresh args S)).map g := by
  rw [List.filter_map, h.needWrite_comp]

/-- Every row to be written has its id among those that are written after its batch. -/
theorem mem_written {batch : List (Entry κ)} {r : Entry κ} {k : κ} (hr : r ∈ batch)
    (hneed : needWrite args r) (hk : r.embeddingId = some k) :
    k ∈ S ++ idsOf (batch.filter (fresh args S)) := by
  rw [List.mem_append]
  by_cases hS : k ∈ S
  · exact .inl hS
  · have hfresh : fresh args S r = true := by
      refine fresh_iff.mpr ⟨hneed, fun k' hk' heq => hS ?_⟩
      obtain rfl := Option.some.inj (hk.symm.trans heq)
      exact hk'
    exact .inr (List.mem_filterMap.mpr ⟨r, List.mem_filter.mpr ⟨hr, hfresh⟩, hk⟩)

/-- The statements of one batch. -/
theorem Progress.step (h : Progress args S g) (json : Json ν) (now : Nat → Text)
    (batch : List (Entry κ)) :
    Progress args (S ++ idsOf (batch.filter (fresh args S)))
      (writtenBy (updatesOf json args now (batch.map g)) ∘ g) where
  source r := (h.source r).trans (sameSource_writtenBy _ _)
  needs r := by
    rw [Function.comp_apply, needWrite_writtenBy updatesOf_for, h.needs, forall_not_hits,
      filterMap_updatesOf, h.filter_map, (h.source r).embeddingId]
    show _ ∧ (∀ k ∈ idsOf ((batch.filter (fresh args S)).map g), _) ↔ _
    rw [h.idsOf_map, and_assoc, List.forall_mem_append]

omit [DecidableEq κ] in
theorem Progress.vectorNormalize (h : Progress args S g) (r : Entry κ) :
    Retriever.vectorNormalize (vectorOf json (g r)) = Retriever.vectorNormalize (vectorOf json r) := by
  unfold vectorOf
  rw [(h.source r).vector]

omit [DecidableEq κ] in
theorem slice_map (rows : List (Entry κ)) (g : Entry κ → Entry κ) (offset : Nat) :
    slice args (rows.map g) offset = (slice args rows offset).map g := by
  unfold slice
  rw [← List.map_drop, ← List.map_take]

/-- What a run leaves that has been through the batches at `os` of the table `rows`. -/
structure Done (args : Args) (rows : List (Entry κ)) (S : List κ) (os : List Nat)
    (updated : Nat) (db : Database κ) (run : Run κ) : Prop where
  result : run.result = .ok (updated + counted args S (os.map (slice args rows)))
  visited : run.visited = (fetched args rows os).map Entry.rowid
  columns : run.database.columns = db.columns
  rows : ∃ S' g', Progress args S' g' ∧ run.database.rows.rows = rows.map g' ∧ (∀ k ∈ S, k ∈ S') ∧
    ∀ r ∈ fetched args rows os, needWrite args r → ∀ k, r.embeddingId = some k → k ∈ S'

variable (now) in
theorem batches_done {rows : List (Entry κ)} {db : Database κ} (hall : ∀ c, c ∈ db.columns)
    (hchunk : args.chunk < 2 ^ 63) (hfits : Fits args.version)
    (hvectors : ∀ r ∈ rows, (Retriever.vectorNormalize (vectorOf json r)).isSome)
    (h : Progress args S g) (hdb : db.rows.rows = rows.map g) (os : List Nat) (updated : Nat) :
    Done args rows S os updated db (batches json args false now os updated db) := by
  induction os generalizing db S g updated with
  | nil =>
    exact ⟨rfl, rfl, rfl, S, g, h, hdb, fun _ hk => hk, fun r hr => absurd hr List.not_mem_nil⟩
  | cons offset os ih =>
    have hread : Readable args db := ⟨fun c _ => hall c, hchunk⟩
    have hbatch : slice args db.rows.rows offset = (slice args rows offset).map g := by
      rw [hdb, slice_map]
    have hnormal : ∀ r ∈ (slice args rows offset).map g,
        (Retriever.vectorNormalize (vectorOf json r)).isSome := by
      rw [List.forall_mem_map]
      intro r hr
      rw [h.vectorNormalize]
      exact hvectors r (mem_of_mem_slice hr)
    obtain ⟨db', hrun, hcolumns, hrows⟩ := executeAll
      (updatesOf json args now ((slice args rows offset).map g)) hall fun u hu => by
        rw [(updatesOf_for u hu).version]
        exact hfits
    have hprocess := processBatch_eq args now false db hnormal
    rw [hrun, h.filter_map, List.length_map] at hprocess
    have hdone := ih (fun c => hcolumns ▸ hall c) (h.step json now (slice args rows offset))
      (by rw [hrows, hdb, List.map_map])
      (updated + ((slice args rows offset).filter (fresh args S)).length)
    obtain ⟨S', g', hprogress, hdatabase, hsub, hwritten⟩ := hdone.rows
    rw [batches, fetchRows_eq hread, hbatch]
    simp only [hprocess]
    refine ⟨?_, ?_, hdone.columns.trans hcolumns, S', g', hprogress, hdatabase, ?_, ?_⟩
    · show (batches json args false now os _ db').result = _
      rw [hdone.result, List.map_cons, counted, Nat.add_assoc]
    · show ((slice args rows offset).map g).map Entry.rowid ++
        (batches json args false now os _ db').visited = _
      rw [hdone.visited, h.map_rowid]
      unfold fetched
      rw [List.flatMap_cons, List.map_append]
    · exact fun k hk => hsub k (List.mem_append_left _ hk)
    · intro r hr hneed k hk
      rcases List.mem_append.mp hr with hr | hr
      · exact hsub k (mem_written hr hneed hk)
      · exact hwritten r hr hneed k hk

end

/-! ## Counting -/

section

variable {κ : Type} [DecidableEq κ] {args : Args} {S : List κ} {pieces : List (List (Entry κ))}

variable (args S) in
theorem fresh_sublist (p : List (Entry κ)) :
    (p.filter (fresh args S)).Sublist (p.filter (needWrite args)) :=
  List.monotone_filter_right p fun _ h => (fresh_iff.mp h).1

variable (args) in
theorem counted_le (S : List κ) (pieces : List (List (Entry κ))) :
    counted args S pieces ≤ (pieces.flatten.filter (needWrite args)).length := by
  induction pieces generalizing S with
  | nil => exact Nat.le_refl 0
  | cons p ps ih =>
    rw [counted, List.flatten_cons, List.filter_append, List.length_append]
    exact Nat.add_le_add (fresh_sublist args S p).length_le (ih _)

/-- The ids of the rows are not among `S`. -/
def Clear (args : Args) (S : List κ) (p : List (Entry κ)) : Prop :=
  ∀ r ∈ p, needWrite args r → ∀ k ∈ S, r.embeddingId ≠ some k

theorem filter_fresh {p : List (Entry κ)} (h : Clear args S p) :
    p.filter (fresh args S) = p.filter (needWrite args) := by
  refine List.filter_congr fun r hr => ?_
  rw [Bool.eq_iff_iff, fresh_iff]
  exact ⟨And.left, fun hneed => ⟨hneed, h r hr hneed⟩⟩

theorem clear_of_length {p : List (Entry κ)}
    (h : (p.filter (fresh args S)).length = (p.filter (needWrite args)).length) :
    Clear args S p := by
  intro r hr hneed
  have heq := (fresh_sublist args S p).eq_of_length h
  have hmem : r ∈ p.filter (fresh args S) := heq ▸ List.mem_filter.mpr ⟨hr, hneed⟩
  exact (fresh_iff.mp (List.mem_filter.mp hmem).2).2

omit [DecidableEq κ] in
theorem clear_append {T : List κ} {p : List (Entry κ)} :
    Clear args (S ++ T) p ↔ Clear args S p ∧ Clear args T p := by
  unfold Clear
  simp only [List.forall_mem_append]
  constructor
  · intro h
    exact ⟨fun r hr hneed => (h r hr hneed).1, fun r hr hneed => (h r hr hneed).2⟩
  · rintro ⟨hS, hT⟩ r hr hneed
    exact ⟨hS r hr hneed, hT r hr hneed⟩

omit [DecidableEq κ] in
theorem clear_idsOf {p q : List (Entry κ)} :
    Clear args (idsOf (p.filter (needWrite args))) q ↔ Apart args p q := by
  unfold Clear Apart idsOf
  simp only [List.mem_filterMap, List.mem_filter]
  constructor
  · intro h r hr r' hr' hneed hneed' k hk
    exact h r' hr' hneed' k ⟨r, ⟨hr, hneed⟩, hk⟩
  · rintro h r' hr' hneed' k ⟨r, ⟨hr, hneed⟩, hk⟩
    exact h r hr r' hr' hneed hneed' k hk

/-- A run that writes by id counts every row to be written exactly if no id of one batch has been
written in another. -/
theorem counted_eq_iff : counted args S pieces = (pieces.flatten.filter (needWrite args)).length ↔
    (∀ p ∈ pieces, Clear args S p) ∧ pieces.Pairwise (Apart args) := by
  induction pieces generalizing S with
  | nil => exact ⟨fun _ => ⟨fun p hp => absurd hp List.not_mem_nil, .nil⟩, fun _ => rfl⟩
  | cons p ps ih =>
    rw [counted, List.flatten_cons, List.filter_append, List.length_append, List.forall_mem_cons,
      List.pairwise_cons]
    have hrest : Clear args S p → ((counted args (S ++ idsOf (p.filter (fresh args S))) ps =
        (ps.flatten.filter (needWrite args)).length) ↔
        ((∀ q ∈ ps, Clear args S q) ∧ ∀ q ∈ ps, Apart args p q) ∧ ps.Pairwise (Apart args)) := by
      intro hclear
      rw [ih, filter_fresh hclear]
      simp only [clear_append, clear_idsOf, forall_and]
    constructor
    · intro h
      have hle := (fresh_sublist args S p).length_le
      have hles := counted_le args (S ++ idsOf (p.filter (fresh args S))) ps
      have hclear : Clear args S p := clear_of_length (by omega)
      obtain ⟨⟨hS, hp⟩, hpairs⟩ := (hrest hclear).mp (by omega)
      exact ⟨⟨hclear, hS⟩, hp, hpairs⟩
    · rintro ⟨⟨hclear, hS⟩, hp, hpairs⟩
      rw [(hrest hclear).mpr ⟨⟨hS, hp⟩, hpairs⟩, filter_fresh hclear]

/-- A run that counts nothing has found no row to be written. -/
theorem none_of_counted (h : counted args ([] : List κ) pieces = 0) :
    ∀ p ∈ pieces, ∀ r ∈ p, ¬ needWrite args r := by
  induction pieces with
  | nil => exact fun p hp => absurd hp List.not_mem_nil
  | cons p ps ih =>
    rw [counted, fresh_nil, Nat.add_eq_zero_iff] at h
    have hnone := List.eq_nil_of_length_eq_zero h.1
    have hps := h.2
    rw [hnone] at hps
    exact List.forall_mem_cons.mpr ⟨List.filter_eq_nil_iff.mp hnone, ih hps⟩

end

/-! ## Whole runs -/

section

variable {ν κ : Type} [Floats ν] [DecidableEq κ] {json : Json ν} {args : Args}
  {now : Nat → Text} {db : Database κ}

/-- The offsets of a positive chunk. -/
def offsetsOf (args : Args) (total : Nat) : List Nat :=
  (List.range ((total + args.chunk.toNat - 1) / args.chunk.toNat)).map fun i => i * args.chunk.toNat

omit [DecidableEq κ] in
theorem map_slice (rows : List (Entry κ)) :
    (offsetsOf args rows.length).map (slice args rows) = cut args.chunk.toNat rows := by
  unfold offsetsOf cut
  rw [List.map_map]
  rfl

omit [DecidableEq κ] in
theorem fetched_offsetsOf (hchunk : 1 ≤ args.chunk) (rows : List (Entry κ)) :
    fetched args rows (offsetsOf args rows.length) = rows := by
  unfold fetched
  rw [List.flatMap_def, map_slice, flatten_cut (by omega)]

theorem backfill_eq (hchunk : 1 ≤ args.chunk) (dryRun : Bool) :
    backfill json args dryRun now db = batches json args dryRun now
      (offsetsOf args db.rows.rows.length) 0 (ensureColumns dryRun db) := by
  have hoffsets : ∀ total, offsets args total = .ok (offsetsOf args total) := by
    intro total
    unfold offsets
    rw [ensure_pos (show args.chunk ≠ 0 by omega)]
    rfl
  unfold backfill
  simp only [hoffsets, rows_ensureColumns]

variable (now) in
/-- A run that writes nothing goes through every row. -/
theorem backfill_still (hchunk : 1 ≤ args.chunk) (dryRun : Bool)
    (hread : Readable args (ensureColumns dryRun db))
    (hvectors : ∀ r ∈ db.rows.rows, (vectorNormalize (vectorOf json r)).isSome)
    (hstill : dryRun = true ∨ ∀ r ∈ db.rows.rows, ¬ needWrite args r) :
    (backfill json args dryRun now db).Reports db
      (db.rows.rows.filter (needWrite args)).length ∧
    (backfill json args dryRun now db).database = ensureColumns dryRun db := by
  have hrows := congrArg Table.rows (rows_ensureColumns dryRun db)
  rw [← hrows] at hvectors hstill
  rw [backfill_eq hchunk, batches_still hread hvectors hstill, hrows, fetched_offsetsOf hchunk]
  exact ⟨⟨congrArg Except.ok (Nat.zero_add _), rfl⟩, rfl⟩

omit [DecidableEq κ] in
theorem readable_ensureColumns (hmax : args.chunk < 2 ^ 63) (db : Database κ) :
    Readable args (ensureColumns false db) :=
  ⟨fun c _ => mem_ensureColumns c, hmax⟩

variable (now) in
/-- A real run goes through every row, and counts those whose id it has not written before. -/
theorem backfill_done (hchunk : 1 ≤ args.chunk) (hmax : args.chunk < 2 ^ 63)
    (hfits : Fits args.version)
    (hvectors : ∀ r ∈ db.rows.rows, (vectorNormalize (vectorOf json r)).isSome) :
    (backfill json args false now db).Reports db (counted args [] (cut args.chunk.toNat db.rows.rows)) ∧
    (∀ c, c ∈ (backfill json args false now db).database.columns) ∧
    ∃ S g, Progress args S g ∧
      (backfill json args false now db).database.rows.rows = db.rows.rows.map g ∧
      ∀ r ∈ db.rows.rows, needWrite args r → ∀ k, r.embeddingId = some k → k ∈ S := by
  have hrows : (ensureColumns false db).rows.rows = db.rows.rows.map id := by
    rw [rows_ensureColumns, List.map_id]
  have hdone := batches_done now (fun c => mem_ensureColumns c) hmax hfits hvectors progress_id hrows
    (offsetsOf args db.rows.rows.length) 0
  rw [← backfill_eq hchunk] at hdone
  obtain ⟨S, g, hprogress, hdatabase, -, hwritten⟩ := hdone.rows
  rw [fetched_offsetsOf hchunk] at hwritten
  refine ⟨⟨?_, ?_⟩, fun c => ?_, S, g, hprogress, hdatabase, hwritten⟩
  · rw [hdone.result, map_slice, Nat.zero_add]
  · rw [hdone.visited, fetched_offsetsOf hchunk]
  · rw [hdone.columns]
    exact mem_ensureColumns c

/-- Nothing to do in a table without rows. -/
theorem faithful_of_nil (hchunk : 1 ≤ args.chunk) (hrows : db.rows.rows = []) :
    Faithful json args now db := by
  have hnone : ∀ (dryRun : Bool) (now : Nat → Text) (db : Database κ), db.rows.rows = [] →
      backfill json args dryRun now db = ⟨.ok 0, [], ensureColumns dryRun db⟩ := by
    intro dryRun now db hrows
    rw [backfill_eq hchunk, hrows]
    have hoffsets : offsetsOf args ([] : List (Entry κ)).length = [] := by
      unfold offsetsOf
      rw [List.length_nil, Nat.div_eq_of_lt (by omega)]
      rfl
    rw [hoffsets]
    rfl
  have hempty : (ensureColumns false db).rows.rows = [] := by rw [rows_ensureColumns, hrows]
  have hagain : ensureColumns false (ensureColumns false db) = ensureColumns false db :=
    ensureColumns_of_all fun c => mem_ensureColumns c
  unfold Faithful
  simp only [hnone false now db hrows]
  refine ⟨0, ⟨rfl, by rw [hrows]; rfl⟩, fun now' => ?_⟩
  rw [hnone false now' _ hempty, hnone true now' db hrows]
  exact ⟨⟨rfl, by rw [hempty]; rfl⟩, hagain, ⟨rfl, by rw [hrows]; rfl⟩, rfl⟩

omit [DecidableEq κ] in
theorem vectors_map {S : List κ} {g : Entry κ → Entry κ} (h : Progress args S g)
    {rows : List (Entry κ)} (hvectors : ∀ r ∈ rows, (vectorNormalize (vectorOf json r)).isSome) :
    ∀ r ∈ rows.map g, (vectorNormalize (vectorOf json r)).isSome := by
  rw [List.forall_mem_map]
  intro r hr
  rw [h.vectorNormalize]
  exact hvectors r hr

variable (now) in
/-- A real run of a table in which no row needs to be written. -/
theorem backfill_none (hchunk : 1 ≤ args.chunk) (hmax : args.chunk < 2 ^ 63)
    (hvectors : ∀ r ∈ db.rows.rows, (vectorNormalize (vectorOf json r)).isSome)
    (hnone : ∀ r ∈ db.rows.rows, ¬ needWrite args r) :
    (backfill json args false now db).Reports db 0 ∧
      (backfill json args false now db).database = ensureColumns false db := by
  have hstill := backfill_still now hchunk false (readable_ensureColumns hmax db) hvectors
    (.inr hnone)
  rw [List.filter_eq_nil_iff.mpr hnone] at hstill
  exact hstill

variable (now) in
/-- Where a run leaves nothing to do, the run after it does nothing. -/
theorem again (hchunk : 1 ≤ args.chunk) (hmax : args.chunk < 2 ^ 63)
    (hall : ∀ c, c ∈ db.columns)
    (hvectors : ∀ r ∈ db.rows.rows, (vectorNormalize (vectorOf json r)).isSome)
    (hnone : ∀ r ∈ db.rows.rows, ¬ needWrite args r) :
    (backfill json args false now db).Reports db 0 ∧
      (backfill json args false now db).database = db := by
  have hrun := backfill_none now hchunk hmax hvectors hnone
  rw [ensureColumns_of_all hall] at hrun
  exact hrun

/-- On a suited table a run writes every row that needs it. -/
theorem faithful_of_suited (hchunk : 1 ≤ args.chunk) (h : Suited json args db) :
    Faithful json args now db := by
  have hdry := fun now' => backfill_still now' hchunk true
    ⟨h.columns, h.chunk⟩ h.vectors (.inl rfl)
  by_cases hneed : ∃ r ∈ db.rows, needWrite args r
  · obtain ⟨r, hr, hr'⟩ := hneed
    obtain ⟨hreports, hall, S, g, hprogress, hrows, hwritten⟩ :=
      backfill_done now hchunk h.chunk (h.version r hr hr') h.vectors
    have hcount : counted args [] (cut args.chunk.toNat db.rows.rows) =
        (db.rows.rows.filter (needWrite args)).length := by
      rw [counted_eq_iff.mpr ⟨fun p _ r _ _ k hk => absurd hk List.not_mem_nil, h.apart⟩,
        flatten_cut (by omega)]
    rw [hcount] at hreports
    have hnone : ∀ r ∈ db.rows.rows.map g, ¬ needWrite args r := by
      rw [List.forall_mem_map]
      intro r hr hneed
      obtain ⟨hneed, hclear⟩ := (hprogress.needs r).mp hneed
      obtain ⟨k, hk⟩ := Option.isSome_iff_exists.mp (h.identified r hr hneed)
      exact hclear k (hwritten r hr hneed k hk) hk
    have hvectors := vectors_map hprogress h.vectors
    rw [← hrows] at hnone hvectors
    refine ⟨_, hreports, fun now' => ?_⟩
    obtain ⟨hsecond, hsame⟩ := again now' hchunk h.chunk hall hvectors hnone
    exact ⟨hsecond, hsame, hdry now'⟩
  · have hnone : ∀ r ∈ db.rows.rows, ¬ needWrite args r := fun r hr hr' => hneed ⟨r, hr, hr'⟩
    obtain ⟨hreports, hdatabase⟩ := backfill_none now hchunk h.chunk h.vectors hnone
    have hvectors : ∀ r ∈ db.rows.rows, (vectorNormalize (vectorOf json r)).isSome := h.vectors
    rw [List.filter_eq_nil_iff.mpr hnone] at hdry
    rw [← rows_ensureColumns false db] at hvectors hnone
    refine ⟨0, hreports, fun now' => ?_⟩
    rw [hdatabase]
    obtain ⟨hsecond, hsame⟩ := again now' hchunk h.chunk (fun c => mem_ensureColumns c)
      hvectors hnone
    exact ⟨hsecond, hsame, hdry now'⟩

/-- A dry run that returns shows the table to be readable, and its vectors to be vectors. -/
theorem readable_of_dry (hchunk : 1 ≤ args.chunk) (hrows : db.rows.rows ≠ []) {n : Nat}
    (h : (backfill json args true now db).result = .ok n) :
    Readable args db ∧ ∀ r ∈ db.rows.rows, (vectorNormalize (vectorOf json r)).isSome := by
  rw [backfill_eq hchunk] at h
  have hok := dry_ok h
  have hplace : ∀ r ∈ db.rows.rows, ∃ offset ∈ offsetsOf args db.rows.rows.length,
      r ∈ slice args db.rows.rows offset := by
    intro r hr
    rw [← fetched_offsetsOf hchunk db.rows.rows] at hr
    exact List.mem_flatMap.mp hr
  constructor
  · obtain ⟨r, hr⟩ := List.exists_mem_of_ne_nil _ hrows
    obtain ⟨offset, ho, -⟩ := hplace r hr
    exact (hok offset ho).1
  · intro r hr
    obtain ⟨offset, ho, hr⟩ := hplace r hr
    exact (hok offset ho).2 r hr

/-- Where a run is faithful, its table is suited. -/
theorem suited_of_faithful (hchunk : 1 ≤ args.chunk) (hrows : db.rows.rows ≠ [])
    (h : Faithful json args now db) : Suited json args db := by
  obtain ⟨n, hreal, hlater⟩ := h
  obtain ⟨hsecond, -, hdry, -⟩ := hlater now
  obtain ⟨hread, hvectors⟩ := readable_of_dry hchunk hrows hdry.result
  by_cases hfits : Fits args.version
  · obtain ⟨hreports, hall, S, g, hprogress, hafter, -⟩ :=
      backfill_done now hchunk hread.chunk hfits hvectors
    have hstill := backfill_still now hchunk true hread hvectors (.inl rfl)
    have hcounted : counted args [] (cut args.chunk.toNat db.rows.rows) =
        ((cut args.chunk.toNat db.rows.rows).flatten.filter (needWrite args)).length := by
      have hreal' := Except.ok.inj (hreports.result.symm.trans hreal.result)
      have hdry' := Except.ok.inj (hstill.1.result.symm.trans hdry.result)
      rw [flatten_cut (by omega)]
      exact hreal'.trans hdry'.symm
    refine ⟨hread.columns, hread.chunk, hvectors, fun _ _ _ => hfits, fun r hr hneed => ?_,
      (counted_eq_iff.mp hcounted).2⟩
    -- the second run would count the rows that the first could not write
    have hvectors' := vectors_map hprogress hvectors
    rw [← hafter] at hvectors'
    have hzero := (backfill_done now hchunk hread.chunk hfits hvectors').1.result
    rw [hsecond.result] at hzero
    have hnone := none_of_counted (Except.ok.inj hzero).symm
    rw [← List.forall_mem_flatten, flatten_cut (by omega), hafter, List.forall_mem_map] at hnone
    have hwritten := hnone r hr
    rw [hprogress.needs] at hwritten
    cases hid : r.embeddingId with
    | none => exact absurd ⟨hneed, fun k _ => by rw [hid]; exact (Option.some_ne_none k).symm⟩ hwritten
    | some k => rfl
  · rw [backfill_eq hchunk] at hreal
    have hnone := none_of_not_fits hfits hreal.result
    rw [rows_ensureColumns, fetched_offsetsOf hchunk] at hnone
    refine ⟨hread.columns, hread.chunk, hvectors, fun r hr hneed => absurd hneed (hnone r hr),
      fun r hr hneed => absurd hneed (hnone r hr), ?_⟩
    refine List.pairwise_of_forall_mem_list fun p hp q _ r hr _ _ hneed => ?_
    have hmem : r ∈ (cut args.chunk.toNat db.rows.rows).flatten := List.mem_flatten.mpr ⟨p, hp, hr⟩
    rw [flatten_cut (by omega)] at hmem
    exact absurd hneed (hnone r hmem)

end

section

variable {ν κ : Type} [Floats ν] [DecidableEq κ] (json : Json ν) (args : Args)

/-- A backfill can be repeated, and its dry run tells what it does, exactly if the table is empty or
suited to it. -/
theorem backfill_faithful_iff (hchunk : 1 ≤ args.chunk) (now : Nat → Text) (db : Database κ) :
    Faithful json args now db ↔ db.rows.rows = [] ∨ Suited json args db := by
  constructor
  · intro h
    rw [or_iff_not_imp_left]
    exact fun hrows => suited_of_faithful hchunk hrows h
  · rintro (hrows | h)
    · exact faithful_of_nil hchunk hrows
    · exact faithful_of_suited hchunk h

end

namespace Sample

/-- The vector of every row is `[1]`. -/
def json : Json Rat where
  loads t := if t = text "[1]" then some (.list false [.int 1]) else none
  float _ := text "1.0"

def args : Args := ⟨1, text "l2-v1", 1⟩

def now (_ : Nat) : Text := text "2025-01-01T12:00:00Z"

def row (rowid : Nat) (id : String) : Entry String where
  rowid := rowid
  embeddingId := some id
  vector := some (text "[1]")

theorem nodup_rows (id id' : String) : ([row 1 id, row 2 id'].map Entry.rowid).Nodup := by
  show [1, 2].Nodup
  decide

theorem isNull_row {id id' : String} {r : Entry String} (hr : r ∈ [row 1 id, row 2 id'])
    (c : Column) : r.isNull c := by
  obtain rfl | rfl : r = row 1 id ∨ r = row 2 id' := by simpa using hr
  · cases c <;> rfl
  · cases c <;> rfl

/-- Two rows, in batches of their own. -/
def table (columns : List Column) (id id' : String) : Database String where
  columns := columns
  rows := ⟨[row 1 id, row 2 id'], nodup_rows id id'⟩
  absent _ hr c _ := isNull_row hr c

theorem suited : Suited json args (table Column.all "a" "b") where
  columns := by decide
  chunk := by decide
  vectors := by
    show ∀ r ∈ [row 1 "a", row 2 "b"], _
    decide +kernel
  version _ _ _ := by decide
  identified := by
    show ∀ r ∈ [row 1 "a", row 2 "b"], _
    decide +kernel
  apart := by
    show [[row 1 "a"], [row 2 "b"]].Pairwise (Apart args)
    simp [Apart, row]

theorem table_faithful : Faithful json args now (table Column.all "a" "b") :=
  (backfill_faithful_iff json args (by decide) now _).mpr (.inr suited)

/-- A dry run raises on a table to which the real run would add the columns. -/
theorem without_columns : ¬ Faithful json args now (table [] "a" "b") := by
  rintro ⟨n, -, h⟩
  have hdry := (h now).2.2.1.result
  have hraises : (backfill json args true now (table [] "a" "b")).result = .error .operational := by
    decide +kernel
  rw [hraises] at hdry
  cases hdry

/-- The first batch writes the row of the second too. -/
example : (backfill json args false now (table Column.all "a" "a")).result = .ok 1 ∧
    (backfill json args true now (table Column.all "a" "a")).result = .ok 2 := by
  decide +kernel

end Sample

end ProjectMaya.Backfill
