import ProjectMaya.Logic.Wp
import ProjectMaya.MigrationTables

/-! # Migrations that raise

`migrate` statement by statement, where each may raise.  All that is raised before the end of the
transaction rolls it back; the report is written after the commit, and when that fails the rows
have been migrated nevertheless (`unchanged_iff`). -/

namespace ProjectMaya.Migration

open Logic Logic.Pager
open Logic.JsonRead (FloatText Plain PlainValue dumps)

inductive Raised where
  | failure (e : Failure)
  /-- what SQLite or the file system raise -/
  | other
  deriving DecidableEq

/-- A statement is done, or raises and has done nothing; those for a row are two, and the second
may be the one that raises. -/
inductive Fault where
  | none
  | fail (e : Raised)
  | late (e : Raised)
  deriving DecidableEq

instance : Inhabited Fault := ⟨.none⟩

/-- What the file system has where the report is to be. -/
inductive ReportFile where
  | writable
  /-- The directory or the temporary file cannot be made. -/
  | unopened
  /-- The temporary file cannot be written to its end, or not be renamed. -/
  | unfinished
  deriving DecidableEq

/-- The rows that are committed, and those that an open transaction works on. -/
abbrev Act (ν β : Type) := Action Fault (Tables ν) (Option (Tables ν)) Raised β

abbrev Code (ν α : Type) := Prog Fault (Tables ν) (Option (Tables ν)) Raised α

section

variable {P ν : Type}

/-- `final_report_path` with `.tmp` added is the destination. -/
def truncates (host : Host P) (call : Options) : Bool :=
  host.resolve (reportPath host call ++ ".tmp") = host.resolve call.toDest

/-- What a report leaves of the rows that cannot be written to its end. -/
def leftBehind (host : Host P) (call : Options) (file : ReportFile) (t : Tables ν) : Tables ν :=
  if file ≠ .unopened ∧ truncates host call then {} else t

/-- And one that can. -/
def replaced (host : Host P) (call : Options) (t : Tables ν) : Tables ν :=
  if truncates host call ∨ reportPath host call = host.resolve call.toDest then {} else t

namespace Act

/-- Something that does nothing to the rows: a connection, a table that is created. -/
def ask : Act ν Unit where
  next c s l :=
    match c with
    | .none => (.ok (), s, l)
    | .fail e | .late e => (.error e, s, l)

/-- `BEGIN`. -/
def start : Act ν (Tables ν) where
  next c s l :=
    match c with
    | .none => (.ok s, s, some s)
    | .fail e | .late e => (.error e, s, l)

/-- Statements that only read, and what is checked of their rows. -/
def check {β : Type} (f : Tables ν → Except Failure β) : Act ν β where
  next c s l :=
    match c with
    | .none => ((f (l.getD s)).mapError .failure, s, l)
    | .fail e | .late e => (.error e, s, l)

/-- The statements for a row: into `entries` and then into `embeddings`. -/
def row [FloatText ν] (env : Env P ν) (call : Options) (source : JsonRead.Text) (p : Progress ν)
    (row : Row ν) : Act ν (Progress ν) where
  next c s l :=
    let t := l.getD s
    match c, migrateRow env call source { p with tables := t } row with
    | .none, .ok p' => (.ok p', s, some p'.tables)
    | .none, .error e => (.error (.failure e), s, some t)
    | .late e, .ok p' => (.error e, s, some { t with entries := p'.tables.entries })
    | .late e, .error _ => (.error e, s, some t)
    | .fail e, _ => (.error e, s, some t)

/-- `destination.commit()`. -/
def commit : Act ν Unit where
  next c s l :=
    match c with
    | .none => (.ok (), l.getD s, none)
    | .fail e | .late e => (.error e, s, l)

/-- `destination.rollback()`. -/
def rollback : Act ν Unit where
  next c s l :=
    match c with
    | .none => (.ok (), s, none)
    | .fail e | .late e => (.error e, s, l)

/-- `destination.close()`, which forgets an open transaction and does not raise. -/
def close : Act ν Unit where
  next _ s _ := (.ok (), s, none)

/-- `_write_report`. -/
def report (host : Host P) (call : Options) (file : ReportFile) (written : Except Failure Unit) :
    Act ν Unit where
  next _ s l :=
    match file, written with
    | .writable, .ok () => (.ok (), replaced host call s, l)
    | .writable, .error e => (.error (.failure e), leftBehind host call file s, l)
    | .unopened, _ | .unfinished, _ => (.error .other, leftBehind host call file s, l)

end Act

variable [FloatText ν]

/-! ## The program -/

/-- The loop over the rows. -/
def rowsCode (env : Env P ν) (call : Options) (source : JsonRead.Text) :
    List (Row ν) → Progress ν → Code ν (Progress ν)
  | [], p => pure p
  | row :: rest, p => do
    let p ← .perform (Act.row env call source p row)
    rowsCode env call source rest p

/-- What is checked before the commit. -/
def validated (call : Options) (p : Progress ν) (t : Tables ν) : Except Failure (Progress ν) :=
  if call.targetSchema = "registry" then do
    let (samples, errors) ← validateRegistry t p.migratedKeys
    ensure (errors = []) (.runtimeError "migration validation failed")
    pure { p with samples := samples }
  else pure p

/-- The body of `try`. -/
def transactionCode (env : Env P ν) (call : Options) (source : JsonRead.Text) :
    Code ν (Progress ν) := do
  let t ← .perform Act.start
  let p ← rowsCode env call source env.rows { tables := t }
  let p ← .perform (Act.check (validated call p))
  .perform Act.commit
  pure p

/-- The tables are created outside of the transaction. -/
def ensureSchema (call : Options) : Code ν Unit :=
  if call.targetSchema = "registry" then do
    .perform Act.ask
    .perform Act.ask
  else .perform Act.ask

/-- `with closing(sqlite3.connect(destination_path)) as destination`. -/
def destinationCode (env : Env P ν) (call : Options) (source : JsonRead.Text) :
    Code ν (Progress ν) := do
  .perform Act.ask
  Prog.ensuring
    (do
      ensureSchema call
      Prog.onError (transactionCode env call source) (.perform Act.rollback))
    (.perform Act.close)

/-- What is written into the report. -/
def reported (host : Host P) (env : Env P ν) (call : Options) (ready : Ready P) (p : Progress ν) :
    List (JsonRead.Text × JsonRead.Value ν) :=
  summary host env call p ++
    (word "report_path", .str (env.shown (reportPath host call))) ::
      match ready.backup, call.backupPath with
      | some _, some path => [(word "backup_path", .str (env.shown (host.resolve path)))]
      | _, _ => []

/-- `migrate` -/
def migrateCode [Inhabited P] (host : Host P) (env : Env P ν) (call : Options) (disk : Disk P)
    (file : ReportFile) : Code ν (Option (Migrated ν)) :=
  match prepare host call.toCall disk with
  | .error e => .raise (.failure (.unprepared e))
  | .ok none => pure none
  | .ok (some ready) => do
    let p ← destinationCode env call (env.shown (host.resolve call.fromSrc))
    let report := reported host env call ready p
    .perform (Act.report host call file (writeReport report))
    pure (some { tables := p.tables, migrated := p.migrated, report := report })

/-! ## A run in which nothing else fails -/

section

variable {env : Env P ν} {call : Options} {source : JsonRead.Text} {t : Tables ν} {p q : Progress ν}

theorem transaction_eq :
    transaction env call source t =
      env.rows.foldlM (migrateRow env call source) { tables := t } >>= fun p =>
        validated call p p.tables := rfl

theorem validated_tables {t : Tables ν} (h : validated call p t = .ok q) : q.tables = p.tables := by
  unfold validated at h
  by_cases hschema : call.targetSchema = "registry"
  · simp only [if_pos hschema, bind_eq_ok, pure_eq_ok] at h
    obtain ⟨-, -, -, -, rfl⟩ := h
    rfl
  · rw [if_neg hschema, pure_eq_ok] at h
    rw [h]

theorem calm_rowsCode {rows : List (Row ν)}
    (h : rows.foldlM (migrateRow env call source) p = .ok q) :
    (rowsCode env call source rows p).calm t (some p.tables) = (.ok q, t, some q.tables) := by
  induction rows generalizing p with
  | nil =>
    cases h
    rfl
  | cons row rows ih =>
    rw [List.foldlM_cons, bind_eq_ok] at h
    obtain ⟨p', hrow, h⟩ := h
    have hperform : (Prog.perform (Act.row env call source p row)).calm t (some p.tables) =
        (.ok p', t, some p'.tables) := by
      show (Act.row env call source p row).next .none t (some p.tables) = _
      simp only [Act.row, Option.getD_some, hrow]
    exact (Prog.calm_bind_ok hperform).trans (ih h)

theorem calm_transactionCode (h : transaction env call source t = .ok p) :
    (transactionCode env call source).calm t none = (.ok p, p.tables, none) := by
  rw [transaction_eq, bind_eq_ok] at h
  obtain ⟨q, hq, hp⟩ := h
  have hrows := calm_rowsCode (t := t) hq
  have hcheck : (Prog.perform (Act.check (validated call q)) : Code ν (Progress ν)).calm t
      (some q.tables) = (.ok p, t, some q.tables) := by
    show ((validated call q q.tables).mapError Raised.failure, t, some q.tables) = _
    rw [hp]
    rfl
  have hstart : (Prog.perform Act.start : Code ν (Tables ν)).calm t none = (.ok t, t, some t) := rfl
  unfold transactionCode
  refine (Prog.calm_bind_ok hstart).trans ?_
  refine (Prog.calm_bind_ok hrows).trans ?_
  refine (Prog.calm_bind_ok hcheck).trans ?_
  rw [validated_tables hp]
  rfl

omit [FloatText ν] in
theorem calm_ensureSchema (call : Options) :
    (ensureSchema call : Code ν Unit).calm t none = (.ok (), t, none) := by
  unfold ensureSchema
  split <;> rfl

theorem calm_destinationCode (h : transaction env call source t = .ok p) :
    (destinationCode env call source).calm t none = (.ok p, p.tables, none) := by
  have hbody : (ensureSchema call >>= fun _ =>
      Prog.onError (transactionCode env call source) (.perform Act.rollback)).calm t none =
        (.ok p, p.tables, none) :=
    (Prog.calm_bind_ok (calm_ensureSchema call)).trans
      (Prog.calm_onError_ok (calm_transactionCode h))
  have hask : (Prog.perform Act.ask : Code ν Unit).calm t none = (.ok (), t, none) := rfl
  unfold destinationCode
  refine (Prog.calm_bind_ok hask).trans ?_
  exact Prog.calm_ensuring hbody rfl

end

/-! ## A run in which anything may fail -/

/-- What is left by a connection that is closed: all of the transaction, or nothing. -/
structure AllOrNothing (env : Env P ν) (call : Options) (source : JsonRead.Text) (t : Tables ν)
    (r : Except Raised (Progress ν)) (s : Tables ν) : Prop where
  returned : ∀ p, r = .ok p → transaction env call source t = .ok p ∧ s = p.tables
  raised : ∀ e, r = .error e → s = t

section

variable {env : Env P ν} {call : Options} {source : JsonRead.Text} {t : Tables ν} {p : Progress ν}

omit [FloatText ν] in
theorem wp_ask {l : Option (Tables ν)} :
    wp .alone (Prog.perform Act.ask : Code ν Unit) (fun _ s l' => s = t ∧ l' = l) t l := by
  rintro _ rfl c
  cases c <;> exact ⟨trivial, rfl, rfl⟩

theorem wp_rowsCode (rows : List (Row ν)) :
    wp .alone (rowsCode env call source rows p)
      (fun r s l => s = t ∧ ∀ q, r = .ok q →
        l = some q.tables ∧ rows.foldlM (migrateRow env call source) p = .ok q)
      t (some p.tables) := by
  induction rows generalizing p with
  | nil =>
    refine ⟨rfl, ?_⟩
    intro q hq
    cases hq
    exact ⟨rfl, rfl⟩
  | cons row rows ih =>
    have hrow : wp .alone (Prog.perform (Act.row env call source p row))
        (fun r s l => s = t ∧ ∀ q, r = .ok q →
          l = some q.tables ∧ migrateRow env call source p row = .ok q) t (some p.tables) := by
      rintro _ rfl c
      refine ⟨trivial, ?_⟩
      simp only [Act.row, Option.getD_some]
      cases hstep : migrateRow env call source p row with
      | ok q =>
        cases c with
        | none =>
          refine ⟨rfl, fun q' hq => ?_⟩
          cases hq
          exact ⟨rfl, rfl⟩
        | fail e => exact ⟨rfl, fun _ hq => (by cases hq)⟩
        | late e => exact ⟨rfl, fun _ hq => (by cases hq)⟩
      | error e => cases c <;> exact ⟨rfl, fun _ hq => (by cases hq)⟩
    refine wp_bind hrow ?_ ?_
    · rintro q s l ⟨rfl, hq⟩
      obtain ⟨rfl, hstep⟩ := hq q rfl
      rw [List.foldlM_cons, hstep, ok_bind]
      exact ih
    · rintro e s l ⟨rfl, -⟩
      exact ⟨rfl, fun _ hq => (by cases hq)⟩

theorem wp_check :
    wp .alone (Prog.perform (Act.check (validated call p)) : Code ν (Progress ν))
      (fun r s l => s = t ∧ ∀ q, r = .ok q →
        l = some p.tables ∧ validated call p p.tables = .ok q) t (some p.tables) := by
  rintro _ rfl c
  refine ⟨trivial, ?_⟩
  cases c with
  | none =>
    refine ⟨rfl, fun q hq => ⟨rfl, ?_⟩⟩
    exact mapError_eq_ok.1 hq
  | fail e => exact ⟨rfl, fun _ hq => (by cases hq)⟩
  | late e => exact ⟨rfl, fun _ hq => (by cases hq)⟩

omit [FloatText ν] in
theorem wp_commit {l : Option (Tables ν)} :
    wp .alone (Prog.perform Act.commit : Code ν Unit)
      (fun r s _ => (∀ u, r = .ok u → s = l.getD t) ∧ ∀ e, r = .error e → s = t) t l := by
  rintro _ rfl c
  refine ⟨trivial, ?_⟩
  cases c with
  | none => exact ⟨fun _ _ => rfl, fun _ h => (by cases h)⟩
  | fail e => exact ⟨fun _ h => (by cases h), fun _ _ => rfl⟩
  | late e => exact ⟨fun _ h => (by cases h), fun _ _ => rfl⟩

theorem wp_transactionCode :
    wp .alone (transactionCode env call source)
      (fun r s _ => AllOrNothing env call source t r s) t none := by
  have hstart : wp .alone (Prog.perform Act.start : Code ν (Tables ν))
      (fun r s l => s = t ∧ ∀ u, r = .ok u → u = t ∧ l = some t) t none := by
    rintro _ rfl c
    refine ⟨trivial, ?_⟩
    cases c with
    | none =>
      refine ⟨rfl, fun u hu => ?_⟩
      cases hu
      exact ⟨rfl, rfl⟩
    | fail e => exact ⟨rfl, fun _ hu => (by cases hu)⟩
    | late e => exact ⟨rfl, fun _ hu => (by cases hu)⟩
  have hraised : ∀ (e : Raised), AllOrNothing env call source t (.error e) t := fun e =>
    ⟨fun _ hp => (by cases hp), fun _ _ => rfl⟩
  refine wp_bind hstart ?_ ?_
  · rintro u s l ⟨rfl, hu⟩
    obtain ⟨rfl, rfl⟩ := hu u rfl
    refine wp_bind (wp_rowsCode env.rows) ?_ ?_
    · rintro p s l ⟨rfl, hp⟩
      obtain ⟨rfl, hloop⟩ := hp p rfl
      refine wp_bind wp_check ?_ ?_
      · rintro q s l ⟨rfl, hq⟩
        obtain ⟨rfl, hvalid⟩ := hq q rfl
        refine wp_bind (wp_commit (l := some p.tables) (t := s)) ?_ ?_
        · rintro _ s' l ⟨hs, -⟩
          refine ⟨fun p' hp' => ?_, fun _ h => (by cases h)⟩
          cases hp'
          rw [transaction_eq, hloop, ok_bind, hvalid, hs _ rfl, validated_tables hvalid]
          exact ⟨rfl, rfl⟩
        · rintro e s' l ⟨-, hs⟩
          rw [hs e rfl]
          exact hraised e
      · rintro e s l ⟨rfl, -⟩
        exact hraised e
    · rintro e s l ⟨rfl, -⟩
      exact hraised e
  · rintro e s l ⟨rfl, -⟩
    exact hraised e

omit [FloatText ν] in
/-- A rollback, and a failed one too, leaves what is committed. -/
theorem wp_rollback {l : Option (Tables ν)} :
    wp .alone (Prog.perform Act.rollback : Code ν Unit) (fun _ s _ => s = t) t l := by
  rintro _ rfl c
  cases c <;> exact ⟨trivial, rfl⟩

/-- The connection leaves all of the transaction or nothing. -/
theorem wp_destinationCode :
    wp .alone (destinationCode env call source)
      (fun r s _ => AllOrNothing env call source t r s) t none := by
  have hraised : ∀ (e : Raised), AllOrNothing env call source t (.error e) t := fun e =>
    ⟨fun _ hp => (by cases hp), fun _ _ => rfl⟩
  have hschema : wp .alone (ensureSchema call : Code ν Unit)
      (fun _ s l => s = t ∧ l = none) t none := by
    unfold ensureSchema
    split
    · refine wp_bind wp_ask ?_ fun _ _ _ h => h
      rintro _ s l ⟨rfl, rfl⟩
      exact wp_ask
    · exact wp_ask
  have htry : wp .alone (Prog.onError (transactionCode env call source) (.perform Act.rollback))
      (fun r s _ => AllOrNothing env call source t r s) t none := by
    refine wp_onError wp_transactionCode (fun _ _ _ h => h) ?_
    intro e s l h
    obtain rfl := h.raised e rfl
    refine wp_mono wp_rollback ?_
    rintro r s l rfl
    cases r <;> exact hraised _
  have hbody : wp .alone (ensureSchema call >>= fun _ =>
      Prog.onError (transactionCode env call source) (.perform Act.rollback))
      (fun r s _ => AllOrNothing env call source t r s) t none := by
    refine wp_bind hschema ?_ ?_
    · rintro _ s l ⟨rfl, rfl⟩
      exact htry
    · rintro e s l ⟨rfl, -⟩
      exact hraised e
  unfold destinationCode
  refine wp_bind wp_ask ?_ ?_
  · rintro _ s l ⟨rfl, rfl⟩
    refine wp_ensuring hbody ?_
    rintro r s l h _ rfl _
    exact ⟨trivial, h⟩
  · rintro e s l ⟨rfl, -⟩
    exact hraised e

end

/-! ## The report -/

theorem validateKey_plain {t : Tables ν} {key : List Char}
    {r : List (JsonRead.Value ν) × List (List Char)} (h : validateKey t key = .ok r) :
    JsonRead.PlainItems r.1 := by
  unfold validateKey at h
  split at h
  · cases h
    trivial
  · rename_i entry _
    split at h
    · cases h
      trivial
    · have hplain : JsonRead.PlainItems [(.obj [(word "key", .str (JsonRead.chars key)),
          (word "vector_dim", dimension entry.vectorDim)] : JsonRead.Value ν)] := by
        cases entry.vectorDim <;>
          simp only [JsonRead.PlainItems, PlainValue, JsonRead.PlainMembers, dimension, word,
            JsonRead.plain_chars, and_true]
      simp only [bind_eq_ok] at h
      obtain ⟨named, -, h⟩ := h
      cases named with
      | true =>
        simp only [if_true, bind_eq_ok, pure_eq_ok] at h
        obtain ⟨-, -, rfl⟩ := h
        exact hplain
      | false =>
        cases h
        exact hplain

omit [FloatText ν] in
theorem plainItems_flatMap {α : Type} {f : α → List (JsonRead.Value ν)} {l : List α}
    (h : ∀ a ∈ l, JsonRead.PlainItems (f a)) : JsonRead.PlainItems (l.flatMap f) := by
  induction l with
  | nil => trivial
  | cons a l ih =>
    obtain ⟨ha, hl⟩ := List.forall_mem_cons.1 h
    exact plainItems_append ha (ih hl)

theorem validateRegistry_plain {t : Tables ν} {keys : List (List Char)}
    {r : List (JsonRead.Value ν) × List (List Char)} (h : validateRegistry t keys = .ok r) :
    JsonRead.PlainItems r.1 := by
  unfold validateRegistry at h
  rw [bind_eq_ok] at h
  obtain ⟨found, hfound, h⟩ := h
  cases h
  refine plainItems_flatMap fun x hx => ?_
  obtain ⟨key, -, hkey⟩ := mem_mapM hfound hx
  exact validateKey_plain hkey

omit [FloatText ν] in
theorem plain_sample (key : List Char) (status : String) :
    PlainValue (.obj (sample key status) : JsonRead.Value ν) := by
  simp only [sample, PlainValue, JsonRead.PlainMembers, word, JsonRead.plain_chars, and_true]

omit [FloatText ν] in
theorem insertMemoryEntry_plain {source : JsonRead.Text} {overwrite : Bool} {key : List Char}
    {value : Legacy ν} {t : Tables ν} {r : Bool × JsonRead.Value ν × Tables ν}
    (h : insertMemoryEntry source overwrite key value t = .ok r) : PlainValue r.2.1 := by
  unfold insertMemoryEntry at h
  by_cases hskip : ((t.memoryEntries.find? key).isSome && !overwrite) = true
  · simp only [if_pos hskip] at h
    cases h
    exact plain_sample _ _
  · simp only [if_neg hskip, bind_eq_ok] at h
    obtain ⟨from', -, h⟩ := h
    cases overwrite with
    | true =>
      simp only [if_true, pure_bind, pure_eq_ok] at h
      subst h
      exact plain_sample _ _
    | false =>
      simp only [Bool.false_eq_true, if_false, bind_eq_ok, pure_eq_ok] at h
      obtain ⟨entries, -, rfl⟩ := h
      exact plain_sample _ _

section

variable {env : Env P ν} {call : Options} {source : JsonRead.Text} {t : Tables ν} {p q : Progress ν}

theorem migrateRow_plain (hschema : call.targetSchema ≠ "registry") {row : Row ν}
    (hp : JsonRead.PlainItems p.samples) (h : migrateRow env call source p row = .ok q) :
    JsonRead.PlainItems q.samples := by
  unfold migrateRow at h
  simp only [if_neg hschema, bind_eq_ok] at h
  obtain ⟨r, hr, h⟩ := h
  by_cases hinserted : r.1 = true
  · simp only [if_pos hinserted, pure_eq_ok] at h
    subst h
    show JsonRead.PlainItems (if p.samples.length < 5 then p.samples ++ [r.2.1] else p.samples)
    split
    · exact plainItems_append hp ⟨insertMemoryEntry_plain hr, trivial⟩
    · exact hp
  · simp only [if_neg hinserted, pure_eq_ok] at h
    subst h
    exact hp

theorem foldlM_plain (hschema : call.targetSchema ≠ "registry") {rows : List (Row ν)}
    (hp : JsonRead.PlainItems p.samples)
    (h : rows.foldlM (migrateRow env call source) p = .ok q) : JsonRead.PlainItems q.samples := by
  induction rows generalizing p with
  | nil =>
    cases h
    exact hp
  | cons row rows ih =>
    rw [List.foldlM_cons, bind_eq_ok] at h
    obtain ⟨p', hrow, h⟩ := h
    exact ih (migrateRow_plain hschema hp hrow) h

/-- What is reported of single rows has no texts but keys. -/
theorem transaction_plain (h : transaction env call source t = .ok p) :
    JsonRead.PlainItems p.samples := by
  rw [transaction_eq, bind_eq_ok] at h
  obtain ⟨q, hq, h⟩ := h
  unfold validated at h
  by_cases hschema : call.targetSchema = "registry"
  · simp only [if_pos hschema, bind_eq_ok, pure_eq_ok] at h
    obtain ⟨r, hr, -, -, rfl⟩ := h
    exact validateRegistry_plain hr
  · rw [if_neg hschema, pure_eq_ok] at h
    subst h
    exact foldlM_plain (p := { tables := t }) hschema trivial hq

omit [FloatText ν] in
theorem plainItems_keys (keys : List (List Char)) :
    JsonRead.PlainItems (keys.map fun key => (.str (JsonRead.chars key) : JsonRead.Value ν)) := by
  induction keys with
  | nil => trivial
  | cons key keys ih => exact ⟨JsonRead.plain_chars key, ih⟩

end

/-- The report can be written: the files can be made, and no surrogate stands alone in the paths
that it names. -/
structure Reportable (host : Host P) (env : Env P ν) (call : Options) (ready : Ready P)
    (file : ReportFile) : Prop where
  file : file = .writable
  toDest : Plain (env.shown (host.resolve call.toDest))
  report : Plain (env.shown (reportPath host call))
  backup : ∀ path, ready.backup.isSome = true → call.backupPath = some path →
    Plain (env.shown (host.resolve path))

theorem writeReport_eq_ok {host : Host P} {env : Env P ν} {call : Options} {ready : Ready P}
    {p : Progress ν} (hsamples : JsonRead.PlainItems p.samples) :
    Reportable host env call ready .writable ↔
      writeReport (reported host env call ready p) = .ok () := by
  have hplain : writeReport (reported host env call ready p) = .ok () ↔
      PlainValue (.obj (reported host env call ready p) : JsonRead.Value ν) := by
    unfold writeReport
    rw [bind_eq_ok]
    simp only [pure_eq_ok, and_true]
    rw [bindText_plain, JsonRead.plain_dumps]
  rw [hplain]
  unfold reported summary
  cases hbackup : ready.backup with
  | none =>
    simp only [List.cons_append, List.nil_append, PlainValue, JsonRead.PlainMembers,
      word, JsonRead.plain_chars, hsamples, plainItems_keys, JsonRead.PlainItems, and_true, true_and]
    exact ⟨fun h => ⟨h.toDest, h.report⟩, fun h => ⟨rfl, h.1, h.2, fun _ hb => (by
      rw [hbackup] at hb; cases hb)⟩⟩
  | some b =>
    cases hpath : call.backupPath with
    | none =>
      simp only [List.cons_append, List.nil_append, PlainValue, JsonRead.PlainMembers,
        word, JsonRead.plain_chars, hsamples, plainItems_keys, JsonRead.PlainItems, and_true,
        true_and]
      exact ⟨fun h => ⟨h.toDest, h.report⟩, fun h => ⟨rfl, h.1, h.2, fun _ _ hp => (by
        rw [hpath] at hp; cases hp)⟩⟩
    | some path =>
      simp only [List.cons_append, List.nil_append, PlainValue, JsonRead.PlainMembers,
        word, JsonRead.plain_chars, hsamples, plainItems_keys, JsonRead.PlainItems, and_true,
        true_and]
      constructor
      · exact fun h => ⟨h.toDest, h.report, h.backup path (by rw [hbackup]; rfl) hpath⟩
      · rintro ⟨hdest, hreport, hshown⟩
        refine ⟨rfl, hdest, hreport, fun path' _ hp => ?_⟩
        obtain rfl : path = path' := Option.some.inj (hpath.symm.trans hp)
        exact hshown

/-! ## Calls that raise -/

/-- The tables have the same rows. -/
def SameRows (t u : Tables ν) : Prop :=
  (∀ e, e ∈ u.entries ↔ e ∈ t.entries) ∧ (∀ e, e ∈ u.embeddings ↔ e ∈ t.embeddings) ∧
    ∀ e, e ∈ u.memoryEntries ↔ e ∈ t.memoryEntries

omit [FloatText ν] in
theorem SameRows.refl (t : Tables ν) : SameRows t t :=
  ⟨fun _ => Iff.rfl, fun _ => Iff.rfl, fun _ => Iff.rfl⟩

/-- The rows of the destination before the call. -/
def before (host : Host P) [Inhabited P] (env : Env P ν) (call : Options) (disk : Disk P) :
    Tables ν := env.tables (disk.store (host.resolve call.toDest)).pages

/-- A process that dies has not committed its transaction. -/
def died (s : Tables ν) (_ : Option (Tables ν)) : Tables ν × Option (Tables ν) := (s, none)

/-- A call, with what becomes of each statement. -/
def attempt [Inhabited P] (host : Host P) (env : Env P ν) (call : Options) (disk : Disk P)
    (file : ReportFile) (moves : List (Move Fault)) :
    Prog.Outcome (Tables ν) (Option (Tables ν)) Raised (Option (Migrated ν)) :=
  (migrateCode host env call disk file).run died moves (before host env call disk) none

section

variable {host : Host P} {env : Env P ν} {call : Options} {ready : Ready P} {file : ReportFile}
  {p : Progress ν}

/-- A report that cannot be written raises after all. -/
theorem report_raises (hsamples : JsonRead.PlainItems p.samples)
    (h : ¬ Reportable host env call ready file) (c : Fault) (s : Tables ν) (l : Option (Tables ν)) :
    ∃ e, (Act.report host call file (writeReport (reported host env call ready p))).next c s l =
      (.error e, leftBehind host call file s, l) := by
  cases file with
  | unopened => exact ⟨_, rfl⟩
  | unfinished => exact ⟨_, rfl⟩
  | writable =>
    rw [writeReport_eq_ok hsamples] at h
    cases hw : writeReport (reported host env call ready p) with
    | ok u => exact absurd hw h
    | error e => exact ⟨_, rfl⟩

theorem report_returns (hsamples : JsonRead.PlainItems p.samples)
    (h : Reportable host env call ready file) (c : Fault) (s : Tables ν) (l : Option (Tables ν)) :
    (Act.report host call file (writeReport (reported host env call ready p))).next c s l =
      (.ok (), replaced host call s, l) := by
  obtain rfl := h.file
  rw [(writeReport_eq_ok hsamples).1 h]
  rfl

end

/-- A call that raises has left the rows alone, or has failed in its report. -/
theorem wp_migrateCode [Inhabited P] (host : Host P) (env : Env P ν) (call : Options) (disk : Disk P)
    (file : ReportFile) (t : Tables ν) :
    wp .alone (migrateCode host env call disk file)
      (fun r s _ => ∀ e, r = .error e → s = t ∨
        ∃ ready p, prepare host call.toCall disk = .ok (some ready) ∧
          transaction env call (env.shown (host.resolve call.fromSrc)) t = .ok p ∧
          ¬ Reportable host env call ready file ∧ s = leftBehind host call file p.tables) t none := by
  unfold migrateCode
  split
  · exact fun _ _ => .inl rfl
  · exact fun _ _ => .inl rfl
  · rename_i ready hready
    refine wp_bind wp_destinationCode ?_ ?_
    · intro p s l h
      obtain ⟨hp, rfl⟩ := h.returned p rfl
      have hsamples := transaction_plain hp
      rintro _ rfl c
      refine ⟨trivial, ?_⟩
      by_cases hrep : Reportable host env call ready file
      · rw [report_returns hsamples hrep]
        exact fun e he => (by cases he)
      · obtain ⟨e, hnext⟩ := report_raises hsamples hrep c p.tables l
        rw [hnext]
        exact fun _ _ => .inr ⟨ready, p, hready, hp, hrep, rfl⟩
    · intro e s l h _ _
      exact .inl (h.raised e rfl)

/-- The undisturbed call, when the report cannot be written. -/
theorem calm_migrateCode [Inhabited P] {host : Host P} {env : Env P ν} {call : Options}
    {disk : Disk P} {file : ReportFile} {ready : Ready P} {t : Tables ν} {p : Progress ν}
    (hready : prepare host call.toCall disk = .ok (some ready))
    (hp : transaction env call (env.shown (host.resolve call.fromSrc)) t = .ok p)
    (hrep : ¬ Reportable host env call ready file) :
    ∃ e, (migrateCode host env call disk file).calm t none =
      (.error e, leftBehind host call file p.tables, none) := by
  obtain ⟨e, hnext⟩ := report_raises (transaction_plain hp) hrep .none p.tables none
  refine ⟨e, ?_⟩
  unfold migrateCode
  rw [hready]
  refine (Prog.calm_bind_ok (calm_destinationCode hp)).trans ?_
  exact Prog.calm_bind_error hnext

/-- **A migration that raises.**  Whatever fails, the rows are those before the call, exactly when
the report can be written, or the transaction does not end, or what it and the failed report leave
are the rows that were there. -/
theorem unchanged_iff [Inhabited P] (host : Host P) (env : Env P ν) (call : Options) (disk : Disk P)
    (file : ReportFile) :
    (∀ moves e, (attempt host env call disk file moves).result = some (.error e) →
        SameRows (before host env call disk) (attempt host env call disk file moves).shared) ↔
      ∀ ready p, prepare host call.toCall disk = .ok (some ready) →
        transaction env call (env.shown (host.resolve call.fromSrc)) (before host env call disk) =
          .ok p →
        Reportable host env call ready file ∨
          SameRows (before host env call disk) (leftBehind host call file p.tables) := by
  constructor
  · intro hall ready p hready hp
    by_cases hrep : Reportable host env call ready file
    · exact .inl hrep
    · right
      obtain ⟨e, hcalm⟩ := calm_migrateCode hready hp hrep
      have hrun : attempt host env call disk file [] =
          ⟨some (.error e), leftBehind host call file p.tables, none⟩ := by
        unfold attempt
        rw [Prog.run_nil, hcalm]
      have hsame := hall [] e (by rw [hrun])
      rwa [hrun] at hsame
  · intro hwhen moves e h
    obtain ⟨-, hpost⟩ := wp_run died (I := fun _ _ => True) (fun _ _ => rfl)
      (fun _ _ _ _ _ h => h) (fun _ _ h => h)
      (wp_migrateCode host env call disk file (before host env call disk)) trivial moves
    rcases hpost _ h e rfl with hs | ⟨ready, p, hready, hp, hrep, hs⟩
    · unfold attempt
      rw [hs]
      exact SameRows.refl _
    · unfold attempt
      rw [hs]
      exact (hwhen ready p hready hp).resolve_left hrep

end

/-! ## Runs -/

namespace Sample

/-- The call has raised, and there is an entry. -/
def raisedWithEntry {α : Type} (o : Prog.Outcome (Tables Zero) (Option (Tables Zero)) Raised α) :
    Bool :=
  match o.result with
  | some (.error _) => !o.shared.entries.rows.isEmpty
  | _ => false

theorem raisedWithEntry_iff {α : Type}
    {o : Prog.Outcome (Tables Zero) (Option (Tables Zero)) Raised α} (h : raisedWithEntry o = true) :
    ∃ e, o.result = some (.error e) ∧ ¬ SameRows {} o.shared := by
  unfold raisedWithEntry at h
  split at h
  · rename_i e he
    refine ⟨e, he, fun hsame => ?_⟩
    cases hrows : o.shared.entries.rows with
    | nil =>
      rw [hrows] at h
      cases h
    | cons entry rows =>
      have hmem : entry ∈ o.shared.entries := by
        rw [Table.mem_def, hrows]
        exact List.mem_cons_self
      cases (hsame.1 entry).1 hmem
  · cases h

end Sample

open Sample in
/-- The row is migrated into the new registry, and then the report's directory cannot be made. -/
theorem report_fails_after_commit : ∃ e,
    (attempt host (env "[1, 2]") options (disk checkpointed) .unopened []).result =
        some (.error e) ∧
      ¬ SameRows (before host (env "[1, 2]") options (disk checkpointed))
        (attempt host (env "[1, 2]") options (disk checkpointed) .unopened []).shared := by
  have hrun : raisedWithEntry
      (attempt host (env "[1, 2]") options (disk checkpointed) .unopened []) = true := by
    decide +kernel
  exact raisedWithEntry_iff hrun

end ProjectMaya.Migration
