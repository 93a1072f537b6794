import ProjectMaya.Logic.JsonRoundTrip
import ProjectMaya.Logic.Table
import ProjectMaya.MigrationBackup

/-! # The migration of legacy rows

`migrate` copies the rows of `memory_kv` into `entries`: a list of numbers as the vector of its
entry, anything else below `legacy_value` in the JSON of `score_meta`, which is written without
escapes.  A surrogate that stands alone, as JSON's `"\ud800"` has it, can be parsed and cannot be
bound again, and the whole migration is rolled back then; without such a text every row is migrated
and can be read back (`migrate_complete_iff`). -/

namespace ProjectMaya.Migration

open Logic Logic.Pager
open Logic.JsonRead (FloatText Plain PlainValue chars collapse dumps encode loads)

/-- What `memory_kv` holds of a row, except bytes; a text is UTF-8. -/
inductive Scalar (ν : Type) where
  | null
  | integer (n : Int)
  | real (x : ν)
  | text (s : List Char)

inductive Legacy (ν : Type) where
  | scalar (v : Scalar ν)
  | blob (bytes : List UInt8)

structure Row (ν : Type) where
  key : Legacy ν
  value : Legacy ν

structure Entry where
  embeddingId : List Char
  chunkId : Option (List Char)
  vector : Option (List Char)
  vectorDim : Option Nat
  createdAt : List Char
  sourcePath : List Char
  scoreMeta : List Char
  deriving DecidableEq

structure Embedding where
  chunkId : List Char
  sourcePath : List Char
  sourceHash : List Char
  extractorVersion : List Char
  embeddingTimestamp : List Char
  updatedAt : List Char
  deriving DecidableEq

structure MemoryEntry (ν : Type) where
  key : List Char
  value : Legacy ν
  migratedFrom : List Char

/-- The destination. -/
structure Tables (ν : Type) where
  entries : Table Entry (List Char) Entry.embeddingId := .empty
  embeddings : Table Embedding (List Char) Embedding.chunkId := .empty
  memoryEntries : Table (MemoryEntry ν) (List Char) MemoryEntry.key := .empty

inductive Failure where
  /-- before the destination is opened -/
  | unprepared (e : Error)
  | unicodeEncodeError
  | typeError
  | integrityError
  | runtimeError (message : String)
  deriving DecidableEq

/-- The rows of the source, and what the code uses of Python, SQLite and the clock. -/
structure Env (P ν : Type) where
  /-- `SELECT key, value FROM memory_kv` -/
  rows : List (Row ν)
  /-- The tables in a database, the empty ones that are created included. -/
  tables : List P → Tables ν
  /-- `str(path)`: a byte that is no UTF-8 is a surrogate that stands alone. -/
  shown : String → JsonRead.Text
  /-- `str(value)` of a value that is no text -/
  repr : Legacy ν → List Char
  /-- `value.decode("utf-8", errors="replace")` -/
  replaced : List UInt8 → List Char
  sha256 : List UInt8 → List Char
  /-- `_utc_now()` for each row -/
  now : Nat → List Char

structure Options extends Call where
  overwrite : Bool := false
  reportPath : Option String := none

section

variable {P ν : Type} [FloatText ν]

/-- A name or a text of the code, as JSON has it. -/
def word (s : String) : JsonRead.Text := chars s.toList

/-- `math.isfinite` -/
def isFinite (x : ν) : Bool :=
  match FloatText.form x with
  | .literal _ => true
  | .nan | .infinity | .negInfinity => false

def Scalar.json : Scalar ν → JsonRead.Value ν
  | .null => .null
  | .integer n => .int n
  | .real x => .float x
  | .text s => .str (chars s)

/-- `str(value)` -/
def Env.str (env : Env P ν) : Legacy ν → List Char
  | .scalar (.text s) => s
  | v => env.repr v

/-- `_decode_legacy` -/
def decodeLegacy (env : Env P ν) : Legacy ν → Scalar ν × List Char
  | .blob raw => (.text (env.replaced raw), env.sha256 raw)
  | .scalar .null => (.null, env.sha256 [])
  | .scalar v => (v, env.sha256 (utf8 (env.str (.scalar v))))

/-- `json.loads(value)`, unless it is a `TypeError` or a `ValueError`. -/
def jsonLoads : Scalar ν → Option (JsonRead.Value ν)
  | .text s => loads (chars s)
  | .null | .integer _ | .real _ => none

/-- The item is an integer or a finite float. -/
def numeric : JsonRead.Value ν → Bool
  | .int _ => true
  | .float x => isFinite x
  | .null | .bool _ | .str _ | .arr _ | .obj _ => false

/-- `_numeric_vector` -/
def numericVector (v : Scalar ν) : Option (List (JsonRead.Value ν)) :=
  match jsonLoads v with
  | some (.arr items) => if items.all numeric then some items else none
  | _ => none

/-- What `legacy_value` is: the parsed JSON, or the value as it is. -/
def legacyValue (v : Scalar ν) : JsonRead.Value ν := (jsonLoads v).getD v.json

/-- Binding a text to a parameter encodes it. -/
def bindText (text : JsonRead.Text) : Except Failure (List Char) :=
  fetch (encode text) .unicodeEncodeError

/-- The members of `score_meta`. -/
def provenance (migratedFrom : JsonRead.Text) (originalHash : List Char) (decoded : Scalar ν) :
    List (JsonRead.Text × JsonRead.Value ν) :=
  [(word "migrated_from", .str migratedFrom), (word "original_sha256", .str (chars originalHash)),
      (word "migration", .str (word "project_maya.migration:v1"))] ++
    match numericVector decoded with
    | some _ => []
    | none => [(word "legacy_value", legacyValue decoded)]

/-- What is reported of a row. -/
def sample (key : List Char) (status : String) : List (JsonRead.Text × JsonRead.Value ν) :=
  [(word "key", .str (chars key)), (word "status", .str (word status))]

def dimension (vectorDim : Option Nat) : JsonRead.Value ν :=
  match vectorDim with
  | some n => .int n
  | none => .null

/-- `_insert_registry_row` -/
def insertRegistryRow (env : Env P ν) (migratedFrom : JsonRead.Text) (overwrite : Bool)
    (createdAt : List Char) (key : List Char) (value : Legacy ν) (t : Tables ν) :
    Except Failure (Bool × JsonRead.Value ν × Tables ν) :=
  let existing := (t.entries.find? key).isSome
  if existing && !overwrite then .ok (false, .obj (sample key "skipped_conflict"), t)
  else do
    let (decoded, originalHash) := decodeLegacy env value
    let vector := numericVector decoded
    -- numbers have no escapes, so that `ensure_ascii` makes no difference here
    let vectorJson ← vector.mapM fun items => bindText (dumps [] (.arr items))
    let vectorDim := vector.map List.length
    let scoreMeta ← bindText (dumps [' '] (.obj (provenance migratedFrom originalHash decoded)))
    let entry : Entry :=
      { embeddingId := key
        chunkId := vector.map fun _ => key
        vector := vectorJson
        vectorDim := vectorDim
        createdAt := createdAt
        sourcePath := "legacy_kv".toList
        scoreMeta := scoreMeta }
    let entries ←
      if overwrite then pure (t.entries.replace entry)
      else fetch (t.entries.insert entry) .integrityError
    let embedding : Embedding :=
      { chunkId := key
        sourcePath := "legacy_kv".toList
        sourceHash := originalHash
        extractorVersion := "legacy-migration".toList
        embeddingTimestamp := createdAt
        updatedAt := createdAt }
    let embeddings :=
      if vector.isNone then t.embeddings
      else if overwrite then t.embeddings.replace embedding
      else (t.embeddings.insert embedding).getD t.embeddings
    let status := if existing then "overwritten" else "migrated"
    pure (true, .obj (sample key status ++ [(word "vector_dim", dimension vectorDim)]),
      { t with entries := entries, embeddings := embeddings })

/-- `_insert_memory_entry` -/
def insertMemoryEntry (migratedFrom : JsonRead.Text) (overwrite : Bool) (key : List Char)
    (value : Legacy ν) (t : Tables ν) : Except Failure (Bool × JsonRead.Value ν × Tables ν) :=
  let existing := (t.memoryEntries.find? key).isSome
  if existing && !overwrite then .ok (false, .obj (sample key "skipped_conflict"), t)
  else do
    let migratedFrom ← bindText migratedFrom
    let entry : MemoryEntry ν := { key := key, value := value, migratedFrom := migratedFrom }
    let memoryEntries ←
      if overwrite then pure (t.memoryEntries.replace entry)
      else fetch (t.memoryEntries.insert entry) .integrityError
    let status := if existing then "overwritten" else "migrated"
    pure (true, .obj (sample key status), { t with memoryEntries := memoryEntries })

/-! ## The transaction -/

/-- What the loop over the rows has done so far. -/
structure Progress (ν : Type) where
  tables : Tables ν
  migratedKeys : List (List Char) := []
  migrated : Nat := 0
  skippedKeys : List (List Char) := []
  samples : List (JsonRead.Value ν) := []

def migrateRow (env : Env P ν) (call : Options) (migratedFrom : JsonRead.Text) (p : Progress ν)
    (row : Row ν) : Except Failure (Progress ν) := do
  let key := env.str row.key
  let now := env.now (p.migrated + p.skippedKeys.length)
  let (inserted, sample, tables) ←
    if call.targetSchema = "registry" then
      insertRegistryRow env migratedFrom call.overwrite now key row.value p.tables
    else insertMemoryEntry migratedFrom call.overwrite key row.value p.tables
  if inserted then
    pure
      { p with
        tables := tables
        migratedKeys := p.migratedKeys ++ [key]
        migrated := p.migrated + 1
        samples := if p.samples.length < 5 then p.samples ++ [sample] else p.samples }
  else pure { p with tables := tables, skippedKeys := p.skippedKeys ++ [key] }

/-- `name in value` -/
def contains (value : JsonRead.Value ν) (name : JsonRead.Text) : Except Failure Bool :=
  match value with
  | .obj members => .ok (members.any fun m => m.1 = name)
  | .arr items => .ok (items.any fun
    | .str s => s = name
    | _ => false)
  | .str s => .ok (decide (name <:+: s))
  | .null | .bool _ | .int _ | .float _ => .error .typeError

/-- What is wrong with the vector of an entry. -/
def vectorErrors (entry : Entry) (key : List Char) : List (List Char) :=
  match entry.vector with
  | none => []
  | some text =>
    match (loads (chars text) : Option (JsonRead.Value ν)) with
    | none => ["invalid vector JSON: ".toList ++ key]
    | some (.arr items) =>
      if entry.vectorDim = some items.length then [] else ["vector_dim mismatch: ".toList ++ key]
    | some _ => ["vector_dim mismatch: ".toList ++ key]

/-- One round of `_validate_registry`: the samples and the errors of a key. -/
def validateKey (t : Tables ν) (key : List Char) :
    Except Failure (List (JsonRead.Value ν) × List (List Char)) :=
  match t.entries.find? key with
  | none => .ok ([], ["missing migrated entry: ".toList ++ key])
  | some entry =>
    match (loads (chars entry.scoreMeta) : Option (JsonRead.Value ν)) with
    | none => .ok ([], ["invalid score_meta JSON: ".toList ++ key])
    | some scoreMeta => do
      let from? ← contains scoreMeta (word "migrated_from")
      let hash? ← if from? then contains scoreMeta (word "original_sha256") else pure false
      let errors := if hash? then [] else ["missing provenance: ".toList ++ key]
      pure
        ([.obj [(word "key", .str (chars key)), (word "vector_dim", dimension entry.vectorDim)]],
          errors ++ vectorErrors (ν := ν) entry key)

/-- `_validate_registry` -/
def validateRegistry (t : Tables ν) (migratedKeys : List (List Char)) :
    Except Failure (List (JsonRead.Value ν) × List (List Char)) := do
  let found ← (migratedKeys.take 5).mapM (validateKey t)
  pure (found.flatMap Prod.fst, found.flatMap Prod.snd)

/-- The transaction; an error rolls it back. -/
def transaction (env : Env P ν) (call : Options) (migratedFrom : JsonRead.Text) (t : Tables ν) :
    Except Failure (Progress ν) := do
  let p ← env.rows.foldlM (migrateRow env call migratedFrom) { tables := t }
  if call.targetSchema = "registry" then
    let (samples, errors) ← validateRegistry p.tables p.migratedKeys
    ensure (errors = []) (.runtimeError "migration validation failed")
    pure { p with samples := samples }
  else pure p

/-! ## `migrate` -/

/-- `final_report_path` -/
def reportPath (host : Host P) (call : Options) : String :=
  host.resolve ((call.reportPath.filter fun path => path ≠ "").getD
    (host.resolve call.toDest ++ ".migration.report.json"))

/-- The summary of a migration, without its duration. -/
def summary (host : Host P) (env : Env P ν) (call : Options) (p : Progress ν) :
    List (JsonRead.Text × JsonRead.Value ν) :=
  [(word "source_rows", .int env.rows.length), (word "migrated", .int p.migrated),
    (word "skipped_keys", .arr (p.skippedKeys.map fun key => .str (chars key))),
    (word "samples", .arr p.samples), (word "validation_errors", .arr []),
    (word "to_path", .str (env.shown (host.resolve call.toDest))),
    (word "target_schema", .str (word call.targetSchema)), (word "dry_run", .bool call.dryRun),
    (word "overwrite", .bool call.overwrite)]

/-- `_write_report`: what is written is encoded, and `indent` changes the blanks only. -/
def writeReport (report : List (JsonRead.Text × JsonRead.Value ν)) : Except Failure Unit := do
  let _ ← bindText (dumps [' '] (.obj report))
  pure ()

/-- What is at the destination after a migration that returns, and its report. -/
structure Migrated (ν : Type) where
  tables : Tables ν
  migrated : Nat
  report : List (JsonRead.Text × JsonRead.Value ν)

/-- `migrate`; a dry run ends without tables. -/
def migrate (host : Host P) [Inhabited P] (env : Env P ν) (call : Options) (disk : Disk P) :
    Except Failure (Option (Migrated ν)) := do
  let ready ← (prepare host call.toCall disk).mapError Failure.unprepared
  match ready with
  | none => pure none
  | some ready => do
    let migratedFrom := env.shown (host.resolve call.fromSrc)
    let p ← transaction env call migratedFrom (env.tables ready.destination.pages)
    let report := summary host env call p ++
      (word "report_path", .str (env.shown (reportPath host call))) ::
        match ready.backup, call.backupPath with
        | some _, some path => [(word "backup_path", .str (env.shown (host.resolve path)))]
        | _, _ => []
    writeReport report
    pure (some { tables := p.tables, migrated := p.migrated, report := report })

/-! ## What a row leaves -/

/-- The value is the text of a JSON list of finite numbers. -/
def IsVector (v : Scalar ν) (items : List (JsonRead.Value ν)) : Prop :=
  ∃ s, v = .text s ∧ loads (chars s) = some (.arr items) ∧ ∀ x ∈ items, numeric x = true

theorem numericVector_eq_some {v : Scalar ν} {items : List (JsonRead.Value ν)} :
    numericVector v = some items ↔ IsVector v items := by
  unfold numericVector IsVector
  constructor
  · intro h
    split at h
    · rename_i items' hloads
      split at h
      · rename_i hall
        obtain rfl := Option.some.inj h
        cases v with
        | text s => exact ⟨s, rfl, hloads, List.all_eq_true.1 hall⟩
        | null => cases hloads
        | integer n => cases hloads
        | real x => cases hloads
      · cases h
    · cases h
  · rintro ⟨s, rfl, hloads, hall⟩
    have hjson : jsonLoads (.text s : Scalar ν) = some (.arr items) := hloads
    rw [hjson]
    exact if_pos (List.all_eq_true.2 hall)

/-- What is to be read of an entry: the vector if the value is one, and else the parsed JSON or the
value itself below `legacy_value`. -/
structure Recovers (entry : Entry) (v : Scalar ν) : Prop where
  vector : ∀ items, IsVector v items →
    ∃ text, entry.vector = some text ∧ loads (chars text) = some (.arr items)
  legacy : (¬ ∃ items, IsVector v items) → entry.vector = none ∧
    ∃ members, loads (chars entry.scoreMeta) = some (.obj members) ∧
      (word "legacy_value", legacyValue v) ∈ members

/-- Numbers have no texts. -/
theorem plainItems_of_numeric {items : List (JsonRead.Value ν)}
    (h : ∀ x ∈ items, numeric x = true) : JsonRead.PlainItems items := by
  induction items with
  | nil => trivial
  | cons x rest ih =>
    obtain ⟨hx, hrest⟩ := List.forall_mem_cons.1 h
    refine ⟨?_, ih hrest⟩
    cases x with
    | int n => trivial
    | float y => trivial
    | null => trivial
    | bool b => trivial
    | str s => cases hx
    | arr vs => cases hx
    | obj ms => cases hx

theorem collapse_legacyValue (v : Scalar ν) : collapse (legacyValue v) = legacyValue v := by
  unfold legacyValue
  cases h : jsonLoads v with
  | none => cases v <;> rfl
  | some w =>
    cases v with
    | text s =>
      have hloads : loads (chars s) = some w := h
      obtain ⟨u, -, rfl⟩ := Option.map_eq_some_iff.1 hloads
      exact JsonRead.collapse_collapse u
    | null => cases h
    | integer n => cases h
    | real x => cases h

/-- What is written below `score_meta` is read again as it is. -/
theorem loads_provenance (source : JsonRead.Text) (hash : List Char) (v : Scalar ν) :
    loads (dumps [' '] (.obj (provenance source hash v))) =
      some (.obj (provenance source hash v)) := by
  unfold loads
  rw [JsonRead.read_dumps (List.forall_mem_singleton.2 rfl), Option.map_some, collapse,
    JsonRead.collapseMembers_eq_map, JsonRead.foldl_put_of_nodup]
  · unfold provenance
    cases numericVector v with
    | some items => rfl
    | none => simp [collapse, collapse_legacyValue]
  · unfold provenance
    cases numericVector v with
    | some items =>
      show [word "migrated_from", word "original_sha256", word "migration"].Nodup
      decide
    | none =>
      show [word "migrated_from", word "original_sha256", word "migration",
        word "legacy_value"].Nodup
      decide

/-- A vector is written plainly; of anything else each text has to be. -/
theorem plain_provenance (source : JsonRead.Text) (hash : List Char) (v : Scalar ν) :
    Plain (dumps [' '] (.obj (provenance source hash v))) ↔
      Plain source ∧ PlainValue (legacyValue v) := by
  have hword : ∀ s, Plain (word s) := fun s => JsonRead.plain_chars s.toList
  rw [JsonRead.plain_dumps]
  unfold provenance
  cases hvector : numericVector v with
  | some items =>
    obtain ⟨s, rfl, hloads, hall⟩ := numericVector_eq_some.1 hvector
    have hvalue : legacyValue (.text s : Scalar ν) = .arr items := by
      show (loads (chars s)).getD _ = _
      rw [hloads, Option.getD_some]
    rw [hvalue]
    simp only [PlainValue, JsonRead.PlainMembers, List.cons_append, List.nil_append, hword,
      JsonRead.plain_chars, plainItems_of_numeric hall, and_true, true_and]
  | none =>
    simp only [PlainValue, JsonRead.PlainMembers, List.cons_append, List.nil_append, hword,
      JsonRead.plain_chars, and_true, true_and]

theorem bindText_eq_ok {text : JsonRead.Text} {cs : List Char} :
    bindText text = .ok cs ↔ text = chars cs := by
  unfold bindText
  rw [fetch_eq_ok, JsonRead.encode_eq_some]

theorem bindText_plain {text : JsonRead.Text} : (∃ cs, bindText text = .ok cs) ↔ Plain text := by
  unfold bindText
  simp only [fetch_eq_ok]
  exact JsonRead.plain_iff.symm

theorem bindText_not_plain {text : JsonRead.Text} (h : ¬ Plain text) :
    bindText text = .error .unicodeEncodeError := by
  unfold bindText
  cases he : encode text with
  | none => rfl
  | some cs => exact absurd (JsonRead.plain_iff.2 ⟨cs, he⟩) h

/-- What an entry holds of the value that it was made of. -/
structure Stored (migratedFrom : JsonRead.Text) (originalHash : List Char) (v : Scalar ν)
    (entry : Entry) : Prop where
  scoreMeta : loads (chars entry.scoreMeta) = some (.obj (provenance migratedFrom originalHash v))
  vector : ∀ items, numericVector v = some items → ∃ text, entry.vector = some text ∧
    loads (chars text) = some (.arr items) ∧ entry.vectorDim = some items.length
  noVector : numericVector v = none → entry.vector = none

theorem Stored.recovers {source : JsonRead.Text} {hash : List Char} {v : Scalar ν} {entry : Entry}
    (h : Stored source hash v entry) : Recovers entry v where
  vector items hitems := by
    obtain ⟨text, htext, hloads, -⟩ := h.vector items (numericVector_eq_some.2 hitems)
    exact ⟨text, htext, hloads⟩
  legacy hnot := by
    have hnone : numericVector v = none := by
      rw [Option.eq_none_iff_forall_ne_some]
      intro items hitems
      exact hnot ⟨items, numericVector_eq_some.1 hitems⟩
    refine ⟨h.noVector hnone, _, h.scoreMeta, ?_⟩
    unfold provenance
    rw [hnone]
    exact List.mem_append_right _ List.mem_cons_self

/-- The entry passes the validation. -/
theorem Stored.vectorErrors {source : JsonRead.Text} {hash : List Char} {v : Scalar ν}
    {entry : Entry} (h : Stored source hash v entry) (key : List Char) :
    vectorErrors (ν := ν) entry key = [] := by
  unfold Migration.vectorErrors
  cases hvector : numericVector v with
  | none => rw [h.noVector hvector]
  | some items =>
    obtain ⟨text, htext, hloads, hdim⟩ := h.vector items hvector
    simp only [htext, hloads, hdim, if_true]

theorem Stored.validateKey {source : JsonRead.Text} {hash : List Char} {v : Scalar ν}
    {entry : Entry} (h : Stored source hash v entry) {t : Tables ν}
    (ht : t.entries.find? entry.embeddingId = some entry) :
    ∃ samples, validateKey t entry.embeddingId = .ok (samples, []) ∧
      JsonRead.PlainItems samples := by
  unfold Migration.validateKey
  simp only [ht, h.scoreMeta, h.vectorErrors]
  refine ⟨_, rfl, ?_⟩
  cases entry.vectorDim <;>
    simp only [JsonRead.PlainItems, PlainValue, JsonRead.PlainMembers, dimension, word,
      JsonRead.plain_chars, and_true]

/-- The text of a vector is bound and read again. -/
theorem vectorText (v : Scalar ν) : ∃ json,
    (numericVector v).mapM (fun items => bindText (dumps [] (.arr items))) = .ok json ∧
      (numericVector v = none → json = none) ∧
      ∀ items, numericVector v = some items →
        ∃ text, json = some text ∧ loads (chars text) = some (.arr items) := by
  cases hvector : numericVector v with
  | none => exact ⟨none, rfl, fun _ => rfl, nofun⟩
  | some items =>
    obtain ⟨s, rfl, hloads, hall⟩ := numericVector_eq_some.1 hvector
    have hplain : Plain (dumps [] (.arr items)) :=
      (JsonRead.plain_dumps [] _).2 (plainItems_of_numeric hall)
    obtain ⟨text, htext⟩ := bindText_plain.2 hplain
    refine ⟨some text, ?_, nofun, ?_⟩
    · show (do let b ← bindText (dumps [] (.arr items)); pure (some b)) = _
      rw [htext]
      rfl
    · intro items' heq
      obtain rfl := Option.some.inj heq
      refine ⟨text, rfl, ?_⟩
      rw [← bindText_eq_ok.1 htext]
      exact JsonRead.loads_dumps (by simp) hloads

/-- The row of a new key gets an entry, if what is bound for it can be. -/
theorem insertRegistryRow_plain (env : Env P ν) {source : JsonRead.Text} (overwrite : Bool)
    (createdAt : List Char) {key : List Char} {value : Legacy ν} {t : Tables ν}
    (habsent : ∀ e ∈ t.entries, e.embeddingId ≠ key) (hsource : Plain source)
    (hvalue : PlainValue (legacyValue (decodeLegacy env value).1)) :
    ∃ sample t' entry,
      insertRegistryRow env source overwrite createdAt key value t = .ok (true, sample, t') ∧
        t'.entries.rows = t.entries.rows ++ [entry] ∧ entry.embeddingId = key ∧
        Stored source (decodeLegacy env value).2 (decodeLegacy env value).1 entry := by
  unfold insertRegistryRow
  generalize decodeLegacy env value = d at hvalue ⊢
  obtain ⟨decoded, hash⟩ := d
  have hnone : t.entries.find? key = none := Table.find?_eq_none.2 habsent
  obtain ⟨json, hjson, hnoVector, hvector⟩ := vectorText decoded
  obtain ⟨text, htext⟩ := bindText_plain.2 ((plain_provenance source hash decoded).2 ⟨hsource, hvalue⟩)
  simp only [hnone, Option.isSome_none, Bool.false_and, Bool.false_eq_true, if_false, hjson, htext,
    ok_bind]
  have hstored : ∀ entry : Entry, entry.scoreMeta = text → entry.vector = json →
      entry.vectorDim = (numericVector decoded).map List.length →
      Stored source hash decoded entry := by
    intro entry hmeta hjson' hdim
    refine ⟨?_, ?_, ?_⟩
    · rw [hmeta, ← bindText_eq_ok.1 htext]
      exact loads_provenance source hash decoded
    · intro items hitems
      obtain ⟨text, hsome, hloads⟩ := hvector items hitems
      exact ⟨text, hjson'.trans hsome, hloads, by rw [hdim, hitems, Option.map_some]⟩
    · intro hitems
      exact hjson'.trans (hnoVector hitems)
  cases overwrite with
  | true =>
    exact ⟨_, _, _, rfl, Table.replace_of_absent habsent, rfl, hstored _ rfl rfl rfl⟩
  | false =>
    obtain ⟨entry, hentry⟩ : ∃ entry : Entry, entry =
        { embeddingId := key
          chunkId := (numericVector decoded).map fun _ => key
          vector := json
          vectorDim := (numericVector decoded).map List.length
          createdAt := createdAt
          sourcePath := "legacy_kv".toList
          scoreMeta := text } := ⟨_, rfl⟩
    have hkey : entry.embeddingId = key := by rw [hentry]
    obtain ⟨entries, hinsert, hrows⟩ : ∃ entries, t.entries.insert entry = some entries ∧
        entries.rows = t.entries.rows ++ [entry] := by
      apply Table.insert_of_absent
      rwa [hkey]
    have hfetch : fetch (t.entries.insert entry) Failure.integrityError = .ok entries := by
      rw [hinsert]
      rfl
    have hone : Stored source hash decoded entry := by
      apply hstored <;> rw [hentry]
    simp only [Bool.false_eq_true, if_false, ← hentry, hfetch, ok_bind]
    exact ⟨_, _, entry, rfl, hrows, hkey, hone⟩

/-- It gets none, and nothing is migrated, if a surrogate in it stands alone. -/
theorem insertRegistryRow_not_plain (env : Env P ν) {source : JsonRead.Text} (overwrite : Bool)
    (createdAt : List Char) {key : List Char} {value : Legacy ν} {t : Tables ν}
    (habsent : ∀ e ∈ t.entries, e.embeddingId ≠ key)
    (h : ¬ (Plain source ∧ PlainValue (legacyValue (decodeLegacy env value).1))) :
    insertRegistryRow env source overwrite createdAt key value t = .error .unicodeEncodeError := by
  unfold insertRegistryRow
  generalize decodeLegacy env value = d at h ⊢
  obtain ⟨decoded, hash⟩ := d
  have hnone : t.entries.find? key = none := Table.find?_eq_none.2 habsent
  obtain ⟨json, hjson, -⟩ := vectorText decoded
  have hmeta := bindText_not_plain (mt (plain_provenance source hash decoded).1 h)
  simp only [hnone, Option.isSome_none, Bool.false_and, Bool.false_eq_true, if_false, hjson, hmeta,
    ok_bind, error_bind]

/-! ## The run -/

/-- What is bound for a row can be. -/
def Bindable (env : Env P ν) (source : JsonRead.Text) (row : Row ν) : Prop :=
  Plain source ∧ PlainValue (legacyValue (decodeLegacy env row.value).1)

structure MadeOf (env : Env P ν) (source : JsonRead.Text) (row : Row ν) (entry : Entry) : Prop where
  key : entry.embeddingId = env.str row.key
  stored : Stored source (decodeLegacy env row.value).2 (decodeLegacy env row.value).1 entry

/-- What these rows add to what is there. -/
structure Done (env : Env P ν) (source : JsonRead.Text) (rows : List (Row ν))
    (p p' : Progress ν) : Prop where
  entries : ∃ new, p'.tables.entries.rows = p.tables.entries.rows ++ new ∧
    List.Forall₂ (MadeOf env source) rows new
  migrated : p'.migrated = p.migrated + rows.length
  keys : p'.migratedKeys = p.migratedKeys ++ rows.map fun row => env.str row.key
  skipped : p'.skippedKeys = p.skippedKeys

theorem Done.nil {env : Env P ν} {source : JsonRead.Text} (p : Progress ν) :
    Done env source [] p p where
  entries := ⟨[], (List.append_nil _).symm, .nil⟩
  migrated := rfl
  keys := (List.append_nil _).symm
  skipped := rfl

theorem Done.cons {env : Env P ν} {source : JsonRead.Text} {row : Row ν} {rows : List (Row ν)}
    {p p' p'' : Progress ν} (h : Done env source [row] p p') (h' : Done env source rows p' p'') :
    Done env source (row :: rows) p p'' where
  entries := by
    obtain ⟨one, hone, hrow⟩ := h.entries
    obtain ⟨new, hnew, hrows⟩ := h'.entries
    refine ⟨one ++ new, by rw [hnew, hone, List.append_assoc], ?_⟩
    exact List.rel_append hrow hrows
  migrated := by
    rw [h'.migrated, h.migrated]
    simp only [List.length_cons, List.length_nil]
    omega
  keys := by
    rw [h'.keys, h.keys, List.append_assoc]
    rfl
  skipped := h'.skipped.trans h.skipped

theorem Done.made {env : Env P ν} {source : JsonRead.Text} {rows : List (Row ν)}
    {p p' : Progress ν} (h : Done env source rows p p') {row : Row ν} (hrow : row ∈ rows) :
    ∃ entry, p'.tables.entries.find? (env.str row.key) = some entry ∧
      MadeOf env source row entry := by
  obtain ⟨new, hnew, hmade⟩ := h.entries
  obtain ⟨entry, hentry, hone⟩ : ∃ entry ∈ new, MadeOf env source row entry := by
    clear h hnew
    induction hmade with
    | nil => cases hrow
    | cons hone _ ih =>
      rcases List.mem_cons.1 hrow with rfl | hrow
      · exact ⟨_, List.mem_cons_self, hone⟩
      · obtain ⟨entry, hentry, hone⟩ := ih hrow
        exact ⟨entry, List.mem_cons_of_mem _ hentry, hone⟩
  refine ⟨entry, Table.find?_eq_some.2 ⟨?_, hone.key⟩, hone⟩
  rw [Table.mem_def, hnew]
  exact List.mem_append_right _ hentry

section

variable {env : Env P ν} {call : Options} {source : JsonRead.Text}

/-- One round of the loop. -/
theorem migrateRow_bindable (hschema : call.targetSchema = "registry") {p : Progress ν}
    {row : Row ν} (habsent : ∀ e ∈ p.tables.entries, e.embeddingId ≠ env.str row.key)
    (h : Bindable env source row) :
    ∃ p', migrateRow env call source p row = .ok p' ∧ Done env source [row] p p' := by
  obtain ⟨sample, t', entry, hinsert, hrows, hkey, hstored⟩ :=
    insertRegistryRow_plain env call.overwrite (env.now (p.migrated + p.skippedKeys.length))
      habsent h.1 h.2
  unfold migrateRow
  simp only [if_pos hschema, hinsert, ok_bind, if_true]
  exact ⟨_, rfl, ⟨[entry], hrows, .cons ⟨hkey, hstored⟩ .nil⟩, rfl, rfl, rfl⟩

theorem migrateRow_not_bindable (hschema : call.targetSchema = "registry") {p : Progress ν}
    {row : Row ν} (habsent : ∀ e ∈ p.tables.entries, e.embeddingId ≠ env.str row.key)
    (h : ¬ Bindable env source row) :
    migrateRow env call source p row = .error .unicodeEncodeError := by
  unfold migrateRow
  simp only [if_pos hschema, insertRegistryRow_not_plain env call.overwrite _ habsent h, error_bind]

/-- The loop gets to its end exactly when all that is bound can be, and then each row has made an
entry. -/
theorem foldlM_migrateRow (source : JsonRead.Text) (hschema : call.targetSchema = "registry")
    (rows : List (Row ν)) {p : Progress ν}
    (hkeys : (p.tables.entries.rows.map Entry.embeddingId ++
      rows.map fun row => env.str row.key).Nodup) :
    ((∀ row ∈ rows, Bindable env source row) →
        ∃ p', rows.foldlM (migrateRow env call source) p = .ok p' ∧ Done env source rows p p') ∧
      ∀ p', rows.foldlM (migrateRow env call source) p = .ok p' →
        ∀ row ∈ rows, Bindable env source row := by
  induction rows generalizing p with
  | nil => exact ⟨fun _ => ⟨p, rfl, .nil p⟩, fun _ _ => nofun⟩
  | cons row rows ih =>
    have habsent : ∀ e ∈ p.tables.entries, e.embeddingId ≠ env.str row.key := by
      intro e he
      exact (List.nodup_append.1 hkeys).2.2 _ (List.mem_map.2 ⟨e, he, rfl⟩) _ List.mem_cons_self
    rw [List.foldlM_cons]
    by_cases hrow : Bindable env source row
    · obtain ⟨p', hstep, hdone⟩ := migrateRow_bindable hschema habsent hrow
      have hkeys' : (p'.tables.entries.rows.map Entry.embeddingId ++
          rows.map fun row => env.str row.key).Nodup := by
        obtain ⟨new, hnew, hmade⟩ := hdone.entries
        cases hmade with
        | cons hone hnil =>
          cases hnil
          rw [hnew, List.map_append, List.map_cons, hone.key, List.map_nil, List.append_assoc,
            List.singleton_append]
          exact hkeys
      rw [hstep, ok_bind]
      obtain ⟨hdo, hread⟩ := ih hkeys'
      constructor
      · intro hall
        obtain ⟨p'', hrest, hdone'⟩ := hdo (List.forall_mem_cons.1 hall).2
        exact ⟨p'', hrest, hdone.cons hdone'⟩
      · intro p'' hrest
        exact List.forall_mem_cons.2 ⟨hrow, hread p'' hrest⟩
    · rw [migrateRow_not_bindable hschema habsent hrow, error_bind]
      exact ⟨fun hall => absurd (List.forall_mem_cons.1 hall).1 hrow, nofun⟩

end

omit [FloatText ν] in
theorem plainItems_append {a b : List (JsonRead.Value ν)} (ha : JsonRead.PlainItems a)
    (hb : JsonRead.PlainItems b) : JsonRead.PlainItems (a ++ b) := by
  induction a with
  | nil => exact hb
  | cons v rest ih => exact ⟨ha.1, ih ha.2⟩

/-- Nothing is wrong with the migrated entries. -/
theorem validateRegistry_ok {t : Tables ν} {keys : List (List Char)}
    (h : ∀ key ∈ keys, ∃ samples, validateKey t key = .ok (samples, []) ∧
      JsonRead.PlainItems samples) :
    ∃ samples, validateRegistry t keys = .ok (samples, []) ∧ JsonRead.PlainItems samples := by
  have hall : ∀ keys : List (List Char), (∀ key ∈ keys, ∃ samples,
      validateKey t key = .ok (samples, []) ∧ JsonRead.PlainItems samples) →
      ∃ found, keys.mapM (validateKey t) = .ok found ∧ found.flatMap Prod.snd = [] ∧
        JsonRead.PlainItems (found.flatMap Prod.fst) := by
    intro keys h
    induction keys with
    | nil => exact ⟨[], rfl, rfl, trivial⟩
    | cons key keys ih =>
      obtain ⟨⟨samples, hone, hplain⟩, hrest⟩ := List.forall_mem_cons.1 h
      obtain ⟨found, hfound, herrors, hsamples⟩ := ih hrest
      refine ⟨(samples, []) :: found, ?_, herrors, plainItems_append hplain hsamples⟩
      rw [List.mapM_cons, hone, ok_bind, hfound, ok_bind]
      rfl
  obtain ⟨found, hfound, herrors, hsamples⟩ :=
    hall (keys.take 5) fun key hkey => h key (List.mem_of_mem_take hkey)
  refine ⟨_, ?_, hsamples⟩
  unfold validateRegistry
  rw [hfound, ok_bind, herrors]
  rfl

/-- A migration into new tables ends exactly when all that is bound can be. -/
theorem transaction_new {env : Env P ν} (call : Options) (source : JsonRead.Text)
    (hschema : call.targetSchema = "registry")
    (hkeys : (env.rows.map fun row => env.str row.key).Nodup) :
    ((∀ row ∈ env.rows, Bindable env source row) →
        ∃ p, transaction env call source {} = .ok p ∧ Done env source env.rows { tables := {} } p ∧
          JsonRead.PlainItems p.samples) ∧
      ∀ p, transaction env call source {} = .ok p → ∀ row ∈ env.rows, Bindable env source row := by
  obtain ⟨hdo, hread⟩ := foldlM_migrateRow source hschema env.rows
    (p := { tables := {} }) hkeys
  unfold transaction
  constructor
  · intro hall
    obtain ⟨p, hloop, hdone⟩ := hdo hall
    have hvalid : ∀ key ∈ p.migratedKeys, ∃ samples,
        validateKey p.tables key = .ok (samples, []) ∧ JsonRead.PlainItems samples := by
      intro key hkey
      rw [hdone.keys, List.nil_append] at hkey
      obtain ⟨row, hrow, rfl⟩ := List.mem_map.1 hkey
      obtain ⟨entry, hfind, hmade⟩ := hdone.made hrow
      rw [← hmade.key] at hfind ⊢
      exact hmade.stored.validateKey hfind
    obtain ⟨samples, hsamples, hplain⟩ := validateRegistry_ok hvalid
    rw [hloop, ok_bind, if_pos hschema, hsamples, ok_bind]
    exact ⟨_, rfl, ⟨hdone.entries, hdone.migrated, hdone.keys, hdone.skipped⟩, hplain⟩
  · intro p h
    obtain ⟨p', hloop, -⟩ := bind_eq_ok.1 h
    exact hread p' hloop

/-! ## The whole migration -/

/-- Before the destination is opened nothing fails but for the permission. -/
theorem prepare_new [Inhabited P] {host : Host P} {call : Call} {disk : Disk P} {rows : Nat}
    (hrows : host.source (host.resolve call.fromSrc) = .table rows)
    (hschema : call.targetSchema = "registry") (happly : call.dryRun = false)
    (hnew : disk.there (host.resolve call.toDest) = false) :
    prepare host call disk =
      if call.allowModify = true then
        .ok (some { backup := none, destination := host.after (disk.store (host.resolve call.toDest)) })
      else .error (.permissionError "apply requires allow_modify=True") := by
  unfold prepare
  rw [ensure_pos (by rw [hschema]; decide), ok_bind]
  by_cases hallow : call.allowModify = true
  · rw [ensure_pos (.inr hallow), ok_bind, if_pos hallow]
    simp only [readSource, hrows, ok_bind, happly, Bool.false_eq_true, if_false, backUp, hnew]
    rfl
  · rw [ensure_neg (by simp [happly, hallow]), error_bind, if_neg hallow]

/-- The report of a migration that skips no row is written if its two paths can be. -/
theorem writeReport_ok (host : Host P) {env : Env P ν} {call : Options} {p : Progress ν}
    (hskipped : p.skippedKeys = []) (hsamples : JsonRead.PlainItems p.samples)
    {path : JsonRead.Text} :
    writeReport (summary host env call p ++ [(word "report_path", .str path)]) = .ok () ↔
      Plain (env.shown (host.resolve call.toDest)) ∧ Plain path := by
  unfold writeReport
  rw [bind_eq_ok]
  simp only [pure_eq_ok, and_true]
  rw [bindText_plain, JsonRead.plain_dumps]
  unfold summary
  rw [hskipped]
  simp only [List.cons_append, List.nil_append, List.map_nil, PlainValue, JsonRead.PlainMembers,
    JsonRead.PlainItems, word, JsonRead.plain_chars, hsamples, and_true, true_and]

end

/-! ## Runs -/

namespace Sample

/-- A float. -/
inductive Zero where
  | zero

instance : FloatText Zero where
  nan := .zero
  infinity := .zero
  negInfinity := .zero
  ofLiteral _ := .zero
  form _ := .literal ⟨false, ['0'], ['0'], none⟩
  nan_of_form := nofun
  infinity_of_form := nofun
  negInfinity_of_form := nofun
  valid_of_form h := by
    cases h
    exact ⟨⟨.inl rfl, List.forall_mem_cons.2 ⟨rfl, List.forall_mem_singleton.2 rfl⟩, nofun⟩,
      .inl (List.cons_ne_nil _ _)⟩
  ofLiteral_of_form _ := rfl

def options : Options :=
  { fromSrc := "/legacy.sqlite3", toDest := "/new.sqlite3", dryRun := false, allowModify := true }

/-- One row with this text. -/
def env (text : String) : Env Page Zero where
  rows := [⟨.scalar (.text "row".toList), .scalar (.text text.toList)⟩]
  tables _ := {}
  shown path := chars path.toList
  repr _ := []
  replaced _ := []
  sha256 _ := []
  now _ := []

end Sample

end ProjectMaya.Migration
