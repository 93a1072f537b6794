import ProjectMaya.MigrationAtomic

/-! # Migrations without `overwrite`

Whatever fails, no row is lost or changed (`grows_attempt`), and when the same migration is run
again on what it has left, every row of the source is skipped (`idempotent`). Both are so where the
report is not written over the destination. -/

namespace ProjectMaya.Migration

open Logic Logic.Pager
open Logic.JsonRead (FloatText Plain chars)

section

variable {P ν : Type}

/-- Every row is there under its key as it was. -/
structure Grows (t u : Tables ν) : Prop where
  entries : ∀ key e, t.entries.find? key = some e → u.entries.find? key = some e
  embeddings : ∀ key e, t.embeddings.find? key = some e → u.embeddings.find? key = some e
  memoryEntries : ∀ key e, t.memoryEntries.find? key = some e → u.memoryEntries.find? key = some e

theorem Grows.refl (t : Tables ν) : Grows t t := ⟨fun _ _ h => h, fun _ _ h => h, fun _ _ h => h⟩

theorem Grows.trans {t u v : Tables ν} (h : Grows t u) (h' : Grows u v) : Grows t v :=
  ⟨fun key e he => h'.entries key e (h.entries key e he),
    fun key e he => h'.embeddings key e (h.embeddings key e he),
    fun key e he => h'.memoryEntries key e (h.memoryEntries key e he)⟩

/-- The destination has a row of this key, in the table that is migrated to. -/
def Held (call : Options) (t : Tables ν) (key : List Char) : Prop :=
  if call.targetSchema = "registry" then (t.entries.find? key).isSome
  else (t.memoryEntries.find? key).isSome

theorem Held.mono {call : Options} {t u : Tables ν} {key : List Char} (h : Held call t key)
    (hgrows : Grows t u) : Held call u key := by
  unfold Held at h ⊢
  by_cases hschema : call.targetSchema = "registry"
  · rw [if_pos hschema] at h ⊢
    obtain ⟨e, he⟩ := Option.isSome_iff_exists.1 h
    exact Option.isSome_of_eq_some (hgrows.entries key e he)
  · rw [if_neg hschema] at h ⊢
    obtain ⟨e, he⟩ := Option.isSome_iff_exists.1 h
    exact Option.isSome_of_eq_some (hgrows.memoryEntries key e he)

/-- The report is not written over the destination. -/
def Apart (host : Host P) (call : Options) : Prop :=
  truncates host call = false ∧ reportPath host call ≠ host.resolve call.toDest

theorem replaced_of_apart {host : Host P} {call : Options} (h : Apart host call) (t : Tables ν) :
    replaced host call t = t := by
  unfold replaced
  rw [h.1]
  exact if_neg fun h' => h'.elim Bool.false_ne_true h.2

theorem leftBehind_of_apart {host : Host P} {call : Options} (h : Apart host call)
    (file : ReportFile) (t : Tables ν) : leftBehind host call file t = t := by
  unfold leftBehind
  rw [h.1]
  exact if_neg fun h' => Bool.false_ne_true h'.2

/-! ## One row -/

theorem find?_insert_of_some {ρ : Type} {key : ρ → List Char} {t u : Table ρ (List Char) key}
    {r : ρ} (h : t.insert r = some u) {k : List Char} {e : ρ} (he : t.find? k = some e) :
    u.find? k = some e := by
  have hne : k ≠ key r := by
    rintro rfl
    obtain ⟨hmem, hkey⟩ := Table.find?_eq_some.1 he
    exact (Table.insert_eq_some.1 h).1 e hmem hkey
  rw [Table.find?_insert h, if_neg hne, he]

theorem find?_insert_self {ρ : Type} {key : ρ → List Char} {t u : Table ρ (List Char) key} {r : ρ}
    (h : t.insert r = some u) : u.find? (key r) = some r := by
  rw [Table.find?_insert h, if_pos rfl]

variable [FloatText ν] {env : Env P ν} {call : Options} {source : JsonRead.Text}

theorem insertRegistryRow_grows {createdAt key : List Char} {value : Legacy ν} {t : Tables ν}
    {r : Bool × JsonRead.Value ν × Tables ν}
    (h : insertRegistryRow env source false createdAt key value t = .ok r) :
    Grows t r.2.2 ∧ (r.2.2.entries.find? key).isSome := by
  unfold insertRegistryRow at h
  by_cases hskip : ((t.entries.find? key).isSome && !false) = true
  · simp only [if_pos hskip] at h
    cases h
    rw [Bool.and_eq_true] at hskip
    exact ⟨.refl t, hskip.1⟩
  · simp only [if_neg hskip, Bool.false_eq_true, if_false, bind_eq_ok, pure_eq_ok, fetch_eq_ok] at h
    obtain ⟨json, -, text, -, entries, hentries, rfl⟩ := h
    refine ⟨⟨fun _ _ => find?_insert_of_some hentries, ?_, fun _ _ h => h⟩, ?_⟩
    · intro k e he
      dsimp only
      split
      · exact he
      · rw [find?_getD_insert, if_neg]
        · exact he
        · rintro ⟨rfl, hnone⟩
          rw [he] at hnone
          cases hnone
    · exact Option.isSome_of_eq_some (find?_insert_self hentries)

omit [FloatText ν] in
theorem insertMemoryEntry_grows {key : List Char} {value : Legacy ν} {t : Tables ν}
    {r : Bool × JsonRead.Value ν × Tables ν}
    (h : insertMemoryEntry source false key value t = .ok r) :
    Grows t r.2.2 ∧ (r.2.2.memoryEntries.find? key).isSome := by
  unfold insertMemoryEntry at h
  by_cases hskip : ((t.memoryEntries.find? key).isSome && !false) = true
  · simp only [if_pos hskip] at h
    cases h
    rw [Bool.and_eq_true] at hskip
    exact ⟨.refl t, hskip.1⟩
  · simp only [if_neg hskip, Bool.false_eq_true, if_false, bind_eq_ok, pure_eq_ok, fetch_eq_ok] at h
    obtain ⟨text, -, entries, hentries, rfl⟩ := h
    exact ⟨⟨fun _ _ h => h, fun _ _ h => h, fun _ _ => find?_insert_of_some hentries⟩,
      Option.isSome_of_eq_some (find?_insert_self hentries)⟩

/-- After a row its key is there. -/
theorem migrateRow_grows (hover : call.overwrite = false) {p q : Progress ν} {row : Row ν}
    (h : migrateRow env call source p row = .ok q) :
    Grows p.tables q.tables ∧ Held call q.tables (env.str row.key) := by
  have hinserted : ∃ r : Bool × JsonRead.Value ν × Tables ν,
      (Grows p.tables r.2.2 ∧ Held call r.2.2 (env.str row.key)) ∧ q.tables = r.2.2 := by
    unfold migrateRow at h
    by_cases hschema : call.targetSchema = "registry"
    · simp only [if_pos hschema, hover, bind_eq_ok] at h
      obtain ⟨r, hr, h⟩ := h
      refine ⟨r, ?_, ?_⟩
      · unfold Held
        rw [if_pos hschema]
        exact insertRegistryRow_grows hr
      · by_cases hdone : r.1 = true
        · simp only [if_pos hdone, pure_eq_ok] at h
          rw [← h]
        · simp only [if_neg hdone, pure_eq_ok] at h
          rw [← h]
    · simp only [if_neg hschema, hover, bind_eq_ok] at h
      obtain ⟨r, hr, h⟩ := h
      refine ⟨r, ?_, ?_⟩
      · unfold Held
        rw [if_neg hschema]
        exact insertMemoryEntry_grows hr
      · by_cases hdone : r.1 = true
        · simp only [if_pos hdone, pure_eq_ok] at h
          rw [← h]
        · simp only [if_neg hdone, pure_eq_ok] at h
          rw [← h]
  obtain ⟨r, hgrown, htables⟩ := hinserted
  rw [htables]
  exact hgrown

/-- A row whose key is there is skipped. -/
theorem migrateRow_held (hover : call.overwrite = false) {p : Progress ν} {row : Row ν}
    (hheld : Held call p.tables (env.str row.key)) :
    migrateRow env call source p row =
      .ok { p with skippedKeys := p.skippedKeys ++ [env.str row.key] } := by
  unfold migrateRow
  unfold Held at hheld
  by_cases hschema : call.targetSchema = "registry"
  · rw [if_pos hschema] at hheld
    simp only [if_pos hschema, insertRegistryRow, hover, hheld, Bool.not_false, Bool.and_self,
      if_true]
    rfl
  · rw [if_neg hschema] at hheld
    simp only [if_neg hschema, insertMemoryEntry, hover, hheld, Bool.not_false, Bool.and_self,
      if_true]
    rfl

/-! ## The transaction -/

theorem foldlM_grows (hover : call.overwrite = false) {rows : List (Row ν)} {p q : Progress ν}
    (h : rows.foldlM (migrateRow env call source) p = .ok q) :
    Grows p.tables q.tables ∧ ∀ row ∈ rows, Held call q.tables (env.str row.key) := by
  induction rows generalizing p with
  | nil =>
    cases h
    exact ⟨.refl _, fun _ hrow => (by cases hrow)⟩
  | cons row rows ih =>
    rw [List.foldlM_cons, bind_eq_ok] at h
    obtain ⟨p', hrow, h⟩ := h
    obtain ⟨hgrows, hheld⟩ := migrateRow_grows hover hrow
    obtain ⟨hgrows', hheld'⟩ := ih h
    exact ⟨hgrows.trans hgrows', List.forall_mem_cons.2 ⟨hheld.mono hgrows', hheld'⟩⟩

theorem foldlM_held (hover : call.overwrite = false) {rows : List (Row ν)} {p : Progress ν}
    (h : ∀ row ∈ rows, Held call p.tables (env.str row.key)) :
    rows.foldlM (migrateRow env call source) p =
      .ok { p with skippedKeys := p.skippedKeys ++ rows.map fun row => env.str row.key } := by
  induction rows generalizing p with
  | nil =>
    rw [List.map_nil, List.append_nil]
    rfl
  | cons row rows ih =>
    obtain ⟨hrow, hrows⟩ := List.forall_mem_cons.1 h
    rw [List.foldlM_cons, migrateRow_held hover hrow, ok_bind, List.map_cons]
    refine (ih (p := { p with skippedKeys := p.skippedKeys ++ [env.str row.key] }) hrows).trans ?_
    rw [List.append_assoc, List.singleton_append]

theorem transaction_grows (hover : call.overwrite = false) {t : Tables ν} {p : Progress ν}
    (h : transaction env call source t = .ok p) :
    Grows t p.tables ∧ ∀ row ∈ env.rows, Held call p.tables (env.str row.key) := by
  obtain ⟨q, hq, htables, -⟩ := transaction_eq_ok h
  rw [htables]
  exact foldlM_grows (p := { tables := t }) hover hq

/-- Where all keys are there, all rows are skipped. -/
theorem transaction_held (hover : call.overwrite = false) {t : Tables ν}
    (h : ∀ row ∈ env.rows, Held call t (env.str row.key)) :
    transaction env call source t =
      .ok { tables := t, skippedKeys := env.rows.map fun row => env.str row.key } := by
  unfold transaction
  rw [foldlM_held (p := { tables := t }) hover h, ok_bind]
  by_cases hschema : call.targetSchema = "registry"
  · rw [if_pos hschema]
    rfl
  · rw [if_neg hschema]
    rfl

/-! ## Every statement -/

/-- So it is of the rows that are committed, and of those that an open transaction works on. -/
def Throughout (K : Tables ν → Prop) (s : Tables ν) (l : Option (Tables ν)) : Prop :=
  K s ∧ ∀ u, l = some u → K u

def Keeps (K : Tables ν → Prop) {β : Type} (a : Act ν β) : Prop :=
  ∀ c s l, Throughout K s l → Throughout K (a.next c s l).2.1 (a.next c s l).2.2

/-- A row keeps it, and so does its first statement alone. -/
def RowKeeps (env : Env P ν) (call : Options) (source : JsonRead.Text) (K : Tables ν → Prop)
    (row : Row ν) : Prop :=
  ∀ p q, K p.tables → migrateRow env call source p row = .ok q →
    K q.tables ∧ K { p.tables with entries := q.tables.entries }

variable {K : Tables ν → Prop}

omit [FloatText ν] in
theorem Throughout.work {s : Tables ν} {l : Option (Tables ν)} (h : Throughout K s l) :
    K (l.getD s) := by
  cases l with
  | none => exact h.1
  | some u => exact h.2 u rfl

omit [FloatText ν] in
theorem throughout_some {s u : Tables ν} (hs : K s) (hu : K u) : Throughout K s (some u) := by
  refine ⟨hs, ?_⟩
  intro v hv
  cases hv
  exact hu

omit [FloatText ν] in
theorem throughout_none {s : Tables ν} (hs : K s) : Throughout K s none :=
  ⟨hs, fun _ h => (by cases h)⟩

theorem keeps_row {row : Row ν} (hrow : RowKeeps env call source K row) (p : Progress ν) :
    Keeps K (Act.row env call source p row) := by
  intro c s l h
  have hwork := h.work
  simp only [Act.row]
  cases hstep : migrateRow env call source { p with tables := l.getD s } row with
  | ok q =>
    obtain ⟨hq, hfirst⟩ := hrow { p with tables := l.getD s } q hwork hstep
    cases c with
    | none => exact throughout_some h.1 hq
    | fail e => exact throughout_some h.1 hwork
    | late e => exact throughout_some h.1 hfirst
  | error e => cases c <;> exact throughout_some h.1 hwork

omit [FloatText ν] in
theorem keeps_ask : Keeps K Act.ask := by
  intro c s l h
  cases c <;> exact h

omit [FloatText ν] in
theorem keeps_start : Keeps K Act.start := by
  intro c s l h
  cases c with
  | none => exact throughout_some h.1 h.1
  | fail e => exact h
  | late e => exact h

omit [FloatText ν] in
theorem keeps_check {β : Type} (f : Tables ν → Except Failure β) : Keeps K (Act.check f) := by
  intro c s l h
  cases c <;> exact h

omit [FloatText ν] in
theorem keeps_commit : Keeps K Act.commit := by
  intro c s l h
  cases c with
  | none => exact throughout_none h.work
  | fail e => exact h
  | late e => exact h

omit [FloatText ν] in
theorem keeps_rollback : Keeps K Act.rollback := by
  intro c s l h
  cases c with
  | none => exact throughout_none h.1
  | fail e => exact h
  | late e => exact h

omit [FloatText ν] in
theorem keeps_report {host : Host P} (happart : Apart host call) (file : ReportFile)
    (written : Except Failure Unit) : Keeps K (Act.report host call file written) := by
  intro c s l h
  cases file <;> cases written <;>
    simpa only [Act.report, replaced_of_apart happart, leftBehind_of_apart happart] using h

theorem each_rowsCode {rows : List (Row ν)} (hrows : ∀ row ∈ rows, RowKeeps env call source K row)
    (p : Progress ν) : (rowsCode env call source rows p).Each (Keeps K) := by
  induction rows generalizing p with
  | nil => exact trivial
  | cons row rows ih =>
    obtain ⟨hrow, hrows⟩ := List.forall_mem_cons.1 hrows
    exact (Prog.Each.perform (keeps_row hrow p)).bind fun p => ih hrows p

theorem each_destinationCode (hrows : ∀ row ∈ env.rows, RowKeeps env call source K row) :
    (destinationCode env call source).Each (Keeps K) := by
  have hschema : (ensureSchema call : Code ν Unit).Each (Keeps K) := by
    unfold ensureSchema
    split
    · exact (Prog.Each.perform keeps_ask).bind fun _ => Prog.Each.perform keeps_ask
    · exact Prog.Each.perform keeps_ask
  have htransaction : (transactionCode env call source).Each (Keeps K) := by
    refine (Prog.Each.perform keeps_start).bind fun t => ?_
    refine (each_rowsCode hrows { tables := t }).bind fun p => ?_
    refine (Prog.Each.perform (keeps_check (validated call p))).bind fun q => ?_
    exact (Prog.Each.perform keeps_commit).bind fun _ => trivial
  refine (Prog.Each.perform keeps_ask).bind fun _ => ?_
  refine Prog.Each.ensuring ?_ ?_
  · exact hschema.bind fun _ => htransaction.onError (Prog.Each.perform keeps_rollback)
  · exact Prog.Each.perform fun _ _ _ h => throughout_none h.1

variable [Inhabited P] {host : Host P} {disk : Disk P}

theorem each_migrateCode (happart : Apart host call) (file : ReportFile)
    (hrows : ∀ row ∈ env.rows,
      RowKeeps env call (env.shown (host.resolve call.fromSrc)) K row) :
    (migrateCode host env call disk file).Each (Keeps K) := by
  unfold migrateCode
  split
  · exact trivial
  · exact trivial
  · refine (each_destinationCode hrows).bind fun p => ?_
    exact (Prog.Each.perform (keeps_report happart file _)).bind fun _ => trivial

/-- What every row keeps, a call keeps, whatever becomes of its statements. -/
theorem attempt_keeps (happart : Apart host call)
    (hrows : ∀ row ∈ env.rows,
      RowKeeps env call (env.shown (host.resolve call.fromSrc)) K row)
    (h : K (before host env call disk)) (file : ReportFile) (moves : List (Move Fault)) :
    K (attempt host env call disk file moves).shared := by
  have hwp : wp ⟨fun _ s s' => s' = s, fun s l s' l' => Throughout K s l → Throughout K s' l'⟩
      (migrateCode host env call disk file) (fun _ s l => Throughout K s l)
      (before host env call disk) none := by
    refine wp_of_each ?_ ?_ (each_migrateCode happart file hrows) (throughout_none h)
    · rintro s s' l rfl h
      exact h
    · exact fun a ha c s l h => ⟨fun _ => ha c s l h, ha c s l h⟩
  obtain ⟨hkept, -⟩ := wp_run died (I := Throughout K) (fun _ _ => rfl) (fun _ _ _ _ h => h)
    (fun _ _ h => throughout_none h.1) hwp (throughout_none h) moves
  exact hkept.1

/-- No row that is there is changed. -/
theorem grows_attempt (happart : Apart host call) (hover : call.overwrite = false)
    (file : ReportFile) (moves : List (Move Fault)) :
    Grows (before host env call disk) (attempt host env call disk file moves).shared := by
  refine attempt_keeps happart ?_ (.refl _) file moves
  intro row _ p q hp hq
  have hgrows := (migrateRow_grows hover hq).1
  exact ⟨hp.trans hgrows,
    hp.trans ⟨hgrows.entries, fun _ _ he => he, fun _ _ he => he⟩⟩

/-! ## A call that returns -/

/-- What a call that returns has done: nothing, in a dry run, or all of it. -/
def Returned (host : Host P) (env : Env P ν) (call : Options) (disk : Disk P) (file : ReportFile)
    (t : Tables ν) (r : Option (Migrated ν)) (s : Tables ν) : Prop :=
  prepare host call.toCall disk = .ok none ∧ r = none ∨
    ∃ ready p, prepare host call.toCall disk = .ok (some ready) ∧
      transaction env call (env.shown (host.resolve call.fromSrc)) t = .ok p ∧
      Reportable host env call ready file ∧ s = replaced host call p.tables ∧
      r = some { tables := p.tables, migrated := p.migrated
                 report := reported host env call ready p }

theorem wp_returned (host : Host P) (env : Env P ν) (call : Options) (disk : Disk P)
    (file : ReportFile) (t : Tables ν) :
    wp .alone (migrateCode host env call disk file)
      (Logic.Returns fun r s _ => Returned host env call disk file t r s) t none := by
  unfold migrateCode
  split
  · exact .error
  · rename_i hnone
    exact .ok (.inl ⟨hnone, rfl⟩)
  · rename_i ready hready
    refine wp_bind wp_destinationCode ?_ ?_
    · intro p s l h
      obtain ⟨hp, rfl⟩ := h.returned p rfl
      have hsamples := transaction_plain hp
      rintro _ rfl c
      refine ⟨trivial, ?_⟩
      by_cases hrep : Reportable host env call ready file
      · rw [report_returns hsamples hrep]
        exact .ok (.inr ⟨ready, p, hready, hp, hrep, rfl, rfl⟩)
      · obtain ⟨e, hnext⟩ := report_raises hsamples hrep c p.tables l
        rw [hnext]
        exact .error
    · exact fun _ _ _ _ => .error

theorem attempt_returned {file : ReportFile} {moves : List (Move Fault)} {r : Option (Migrated ν)}
    (h : (attempt host env call disk file moves).result = some (.ok r)) :
    Returned host env call disk file (before host env call disk) r
      (attempt host env call disk file moves).shared := by
  obtain ⟨-, hpost⟩ := wp_run died (I := fun _ _ => True) (fun _ _ => rfl) (fun _ _ _ _ _ h => h)
    (fun _ _ h => h) (wp_returned host env call disk file (before host env call disk)) trivial moves
  exact hpost _ h r rfl

/-- Whoever is not disturbed and can write the report returns. -/
theorem attempt_calm {ready : Ready P} {p : Progress ν}
    (hready : prepare host call.toCall disk = .ok (some ready))
    (hp : transaction env call (env.shown (host.resolve call.fromSrc)) (before host env call disk) =
      .ok p)
    (hrep : Reportable host env call ready .writable) :
    (attempt host env call disk .writable []).result =
      some (.ok (some { tables := p.tables, migrated := p.migrated
                        report := reported host env call ready p })) := by
  have hreport : (Prog.perform (Act.report host call .writable
      (writeReport (reported host env call ready p)))).calm p.tables none =
        (.ok (), replaced host call p.tables, none) :=
    report_returns (transaction_plain hp) hrep .none p.tables none
  have hcalm : (migrateCode host env call disk .writable).calm (before host env call disk) none =
      (.ok (some { tables := p.tables, migrated := p.migrated
                   report := reported host env call ready p }),
        replaced host call p.tables, none) := by
    unfold migrateCode
    rw [hready]
    refine (Prog.calm_bind_ok (calm_destinationCode hp)).trans ?_
    exact Prog.calm_bind_ok hreport
  unfold attempt
  rw [Prog.run_nil, hcalm]

/-! ## The same migration again -/

/-- The same rows are migrated again to the destination that the first migration has left, and it
has been backed up at this path.  The time is another, and all but the destination may be. -/
structure Repeat (first : Host P) (env : Env P ν) (call : Options) (left : Tables ν) where
  host : Host P
  now : Nat → List Char
  backupPath : String
  disk : Disk P
  ready : Ready P
  resolves : host.resolve = first.resolve
  found : before host { env with now := now } { call with backupPath := some backupPath } disk =
    left
  prepared : prepare host { call with backupPath := some backupPath }.toCall disk =
    .ok (some ready)

/-- The second call. -/
def Repeat.run {left : Tables ν} (a : Repeat host env call left) (file : ReportFile)
    (moves : List (Move Fault)) :
    Prog.Outcome (Tables ν) (Option (Tables ν)) Raised (Option (Migrated ν)) :=
  attempt a.host { env with now := a.now } { call with backupPath := some a.backupPath } a.disk file
    moves

/-- Nothing is migrated, and all rows are reported as skipped. -/
structure AllSkipped (env : Env P ν) (left : Tables ν) (done : Migrated ν) : Prop where
  tables : done.tables = left
  migrated : done.migrated = 0
  reportsMigrated : (word "migrated", .int 0) ∈ done.report
  reportsSkipped : (word "skipped_keys",
    .arr (env.rows.map fun row => .str (chars (env.str row.key)))) ∈ done.report

section

variable {left : Tables ν} {a : Repeat host env call left}

omit [FloatText ν] in
theorem Repeat.apart (happart : Apart host call) :
    Apart a.host { call with backupPath := some a.backupPath } := by
  unfold Apart truncates reportPath at happart ⊢
  rw [a.resolves]
  exact happart

omit [FloatText ν] in
theorem Repeat.reportPath :
    reportPath a.host { call with backupPath := some a.backupPath } =
      Migration.reportPath host call := by
  unfold Migration.reportPath
  rw [a.resolves]

theorem Repeat.transaction (hover : call.overwrite = false)
    (hheld : ∀ row ∈ env.rows, Held call left (env.str row.key)) :
    Migration.transaction { env with now := a.now } { call with backupPath := some a.backupPath }
        source left =
      .ok { tables := left, skippedKeys := env.rows.map fun row => env.str row.key } :=
  transaction_held hover hheld

/-- Whatever becomes of its statements, the second call leaves the rows alone. -/
theorem Repeat.run_shared (happart : Apart host call) (hover : call.overwrite = false)
    (hheld : ∀ row ∈ env.rows, Held call left (env.str row.key)) (file : ReportFile)
    (moves : List (Move Fault)) : (a.run file moves).shared = left := by
  refine attempt_keeps (K := fun t => t = left) (Repeat.apart happart) ?_ a.found file moves
  rintro row hrow p q rfl hq
  have hskip := hq.symm.trans (migrateRow_held hover (hheld row hrow))
  cases hskip
  exact ⟨rfl, rfl⟩

theorem Repeat.run_skips (hover : call.overwrite = false)
    (hheld : ∀ row ∈ env.rows, Held call left (env.str row.key)) {file : ReportFile}
    {moves : List (Move Fault)} {r : Option (Migrated ν)}
    (h : (a.run file moves).result = some (.ok r)) : ∃ done, r = some done ∧
      AllSkipped env left done := by
  rcases attempt_returned h with ⟨hnone, -⟩ | ⟨ready, p, -, hp, -, -, rfl⟩
  · have := a.prepared.symm.trans hnone
    cases this
  · rw [a.found, Repeat.transaction hover hheld] at hp
    cases hp
    refine ⟨_, rfl, rfl, rfl, ?_, ?_⟩
    · exact List.mem_append_left _ (List.mem_cons_of_mem _ List.mem_cons_self)
    · refine List.mem_append_left _ (List.mem_cons_of_mem _ (List.mem_cons_of_mem _ ?_))
      simp only [List.map_map, Function.comp_def]
      exact List.mem_cons_self

/-- Undisturbed, the second call returns. -/
theorem Repeat.run_returns (hover : call.overwrite = false)
    (hheld : ∀ row ∈ env.rows, Held call left (env.str row.key)) {ready : Ready P}
    {file : ReportFile} (hrep : Reportable host env call ready file)
    (hbackup : Plain (env.shown (host.resolve a.backupPath))) :
    ∃ done, (a.run .writable []).result = some (.ok (some done)) := by
  refine ⟨_, attempt_calm a.prepared (by
    rw [a.found]
    exact Repeat.transaction hover hheld) ⟨rfl, ?_, ?_, ?_⟩⟩
  · rw [a.resolves]
    exact hrep.toDest
  · rw [Repeat.reportPath]
    exact hrep.report
  · intro path _ hpath
    cases hpath
    rw [a.resolves]
    exact hbackup

end

end

/-- **Migrations without `overwrite`** that do not write their report over the destination.  Rows
that are there stay as they are, and the second of two migrations changes nothing. -/
theorem idempotent {P ν : Type} [Inhabited P] [FloatText ν] (host : Host P) (env : Env P ν)
    (call : Options) (disk : Disk P) (hover : call.overwrite = false) (happart : Apart host call) :
    (∀ file moves,
        Grows (before host env call disk) (attempt host env call disk file moves).shared) ∧
      ∀ file moves done, (attempt host env call disk file moves).result = some (.ok (some done)) →
        ∀ a : Repeat host env call (attempt host env call disk file moves).shared,
          (∀ file' moves', (a.run file' moves').shared =
              (attempt host env call disk file moves).shared ∧
            ∀ r, (a.run file' moves').result = some (.ok r) → ∃ done', r = some done' ∧
              AllSkipped env (attempt host env call disk file moves).shared done') ∧
          (Plain (env.shown (host.resolve a.backupPath)) →
            ∃ done', (a.run .writable []).result = some (.ok (some done'))) := by
  refine ⟨grows_attempt happart hover, ?_⟩
  intro file moves done h a
  rcases attempt_returned h with ⟨-, hnone⟩ | ⟨ready, p, -, hp, hrep, hleft, -⟩
  · cases hnone
  · have hheld : ∀ row ∈ env.rows,
        Held call (attempt host env call disk file moves).shared (env.str row.key) := by
      rw [hleft, replaced_of_apart happart]
      exact (transaction_grows hover hp).2
    refine ⟨fun file' moves' => ⟨?_, fun r hr => ?_⟩, ?_⟩
    · exact a.run_shared happart hover hheld file' moves'
    · exact a.run_skips hover hheld hr
    · exact a.run_returns hover hheld hrep

/-! ## Runs -/

namespace Sample

/-- The report is to be where the destination is. -/
def reportedThere : Options := { call with reportPath := some "/entries.sqlite3" }

/-- The call has returned, and this key has no entry. -/
def lost (o : Prog.Outcome (Tables Zero) (Option (Tables Zero)) Raised (Option (Migrated Zero))) :
    Bool :=
  match o.result with
  | some (.ok (some _)) => (o.shared.entries.find? "row".toList).isNone
  | _ => false

theorem lost_iff
    {o : Prog.Outcome (Tables Zero) (Option (Tables Zero)) Raised (Option (Migrated Zero))}
    (h : lost o = true) :
    (∃ done, o.result = some (.ok (some done))) ∧ o.shared.entries.find? "row".toList = none := by
  unfold lost at h
  split at h
  · rename_i done hdone
    exact ⟨⟨done, hdone⟩, Option.isNone_iff_eq_none.1 h⟩
  · cases h

/-- What the first migration leaves in the new registry. -/
@[irreducible]
def migrated : Tables Zero :=
  (attempt host (env "[1, 2]") options (disk checkpointed) .writable []).shared

/-- An empty file has no rows yet. -/
def read : List Page → Tables Zero
  | [] => {}
  | _ :: _ => migrated

def filled : Env Page Zero := { env "[1, 2]" with tables := read }

def filledDisk : Disk Page where
  store := fun path => { main := if path = options.toDest then [["row"]] else [] }
  there := fun path => path = options.toDest

/-- The first migration. -/
def firstRun : Prog.Outcome (Tables Zero) (Option (Tables Zero)) Raised (Option (Migrated Zero)) :=
  attempt host filled options (disk checkpointed) .writable []

/-- What is read of other databases does not matter to it. -/
theorem firstRun_eq :
    firstRun = attempt host (env "[1, 2]") options (disk checkpointed) .writable [] := by
  have hcode : migrateCode host filled options (disk checkpointed) .writable =
      migrateCode host (env "[1, 2]") options (disk checkpointed) .writable := rfl
  unfold firstRun attempt
  rw [hcode]
  rfl

theorem firstRun_shared : firstRun.shared = migrated := by
  unfold migrated
  exact congrArg Prog.Outcome.shared firstRun_eq

/-- The second migration. -/
def secondCall : Repeat host filled options firstRun.shared where
  host := host
  now := fun _ => "later".toList
  backupPath := "/backup.sqlite3"
  disk := filledDisk
  ready := { backup := some { main := [["row"]] }, destination := { main := [["row"]] } }
  resolves := rfl
  found := firstRun_shared.symm
  prepared := rfl

/-- The call has migrated one row. -/
def migratedOne
    (o : Prog.Outcome (Tables Zero) (Option (Tables Zero)) Raised (Option (Migrated Zero))) :
    Bool :=
  match o.result with
  | some (.ok (some done)) => done.migrated = 1
  | _ => false

theorem migratedOne_iff
    {o : Prog.Outcome (Tables Zero) (Option (Tables Zero)) Raised (Option (Migrated Zero))}
    (h : migratedOne o = true) :
    ∃ done, o.result = some (.ok (some done)) ∧ done.migrated = 1 := by
  unfold migratedOne at h
  split at h
  · rename_i done hdone
    exact ⟨done, hdone, of_decide_eq_true h⟩
  · cases h

end Sample

open Sample in
/-- The report is written over the rows that were there. -/
theorem report_over_destination : reportedThere.overwrite = false ∧
    (∃ done, (attempt host (again "[3]") reportedThere (disk checkpointed) .writable []).result =
      some (.ok (some done))) ∧
    ¬ Grows (before host (again "[3]") reportedThere (disk checkpointed))
      (attempt host (again "[3]") reportedThere (disk checkpointed) .writable []).shared := by
  have hrun : lost (attempt host (again "[3]") reportedThere (disk checkpointed) .writable []) =
      true := by
    decide +kernel
  have hheld : (held.entries.find? "row".toList).isSome = true := by decide +kernel
  obtain ⟨hreturned, hnone⟩ := lost_iff hrun
  refine ⟨rfl, hreturned, fun hgrows => ?_⟩
  obtain ⟨e, he⟩ := Option.isSome_iff_exists.1 hheld
  have hkept := hgrows.entries _ e he
  rw [hnone] at hkept
  cases hkept

open Sample in
/-- The row is migrated, and then skipped. -/
theorem sample_idempotent :
    (∃ done, firstRun.result = some (.ok (some done)) ∧ done.migrated = 1) ∧
      (secondCall.run .writable []).shared = firstRun.shared ∧
      ∃ done', (secondCall.run .writable []).result = some (.ok (some done')) ∧
        AllSkipped filled firstRun.shared done' := by
  have hrun : migratedOne firstRun = true := by
    rw [firstRun_eq]
    decide +kernel
  have hapart : Apart host options := ⟨by decide +kernel, by decide +kernel⟩
  obtain ⟨done, hdone, hone⟩ := migratedOne_iff hrun
  obtain ⟨hsecond, hreturns⟩ :=
    (idempotent host filled options (disk checkpointed) rfl hapart).2 .writable [] done hdone
      secondCall
  obtain ⟨done', hdone'⟩ := hreturns (JsonRead.plain_chars _)
  obtain ⟨hshared, hskips⟩ := hsecond .writable []
  obtain ⟨skipped, heq, hskipped⟩ := hskips _ hdone'
  cases heq
  exact ⟨⟨done, hdone, hone⟩, hshared, done', hdone', hskipped⟩

end ProjectMaya.Migration
