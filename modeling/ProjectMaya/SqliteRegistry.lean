import Mathlib.Data.List.TakeWhile
import ProjectMaya.Logic.Check
import ProjectMaya.Logic.Connection
import ProjectMaya.Logic.Table

/-! # The SQLite memory registry

`bulk_import` puts its rows into the transaction that its connection has open, and commits after the
last. Nothing rolls back the rows of an import that raises: the registry shows them at once, and the
next `add_entry` commits them. `bulkImport_atomic_iff` says which imports leave no trace when they raise. -/

namespace ProjectMaya.SQLiteMemoryRegistry

open Logic

inductive Exn where
  | value (message : String)
  /-- `sqlite3.ProgrammingError`: the connection is closed. -/
  | closed
  | failure
  | interrupt
  deriving DecidableEq, Repr

/-- What Python makes of objects; `κ` are the values that a `TEXT` column holds. -/
structure Python (ο κ : Type) where
  isNone : ο → Bool
  isDict : ο → Bool
  /-- `meta.get('chunk_id')` -/
  chunkId : ο → Except Exn ο
  dumps : ο → Except Exn String
  loads : String → Except Exn ο
  /-- An object as the parameter of a statement. -/
  bind : ο → Except Exn κ

/-- `registry(chunk_id TEXT PRIMARY KEY, meta TEXT NOT NULL)` -/
abbrev Rows (κ : Type) := Table (κ × String) κ Prod.fst

structure Registry (κ : Type) where
  conn : Connection (Rows κ)
  closed : Bool := false

/-- What `bulk_import` takes: a `dict`, or a list of metas. -/
inductive Entries (ο : Type) where
  | dict (items : List (ο × ο))
  | metas (list : List ο)

section

variable {ο κ : Type} [DecidableEq κ] (py : Python ο κ)

/-- `INSERT OR REPLACE`; the transaction is opened before the parameters are bound. -/
def execute (s : Registry κ) (chunkId : ο) (text : String) : Except Exn Unit × Registry κ :=
  if s.closed then (.error .closed, s)
  else
    match py.bind chunkId with
    | .error e => (.error e, { s with conn := s.conn.opened })
    | .ok key => (.ok (), { s with conn := s.conn.write fun rows => rows.replace (key, text) })

def commit : Except Exn Unit × Registry κ → Except Exn Unit × Registry κ
  | (.ok (), s) => (.ok (), { s with conn := s.conn.commit })
  | (.error e, s) => (.error e, s)

omit [DecidableEq κ] in
/-- What `add_entry` puts in. -/
def entryOf (md : ο) : Except Exn (ο × String) := do
  let chunkId ← py.chunkId md
  ensure (¬ py.isNone chunkId) (.value "meta must include chunk_id")
  let text ← py.dumps md
  return (chunkId, text)

/-- `add_entry` -/
def addEntry (s : Registry κ) (md : ο) : Except Exn Unit × Registry κ :=
  match entryOf py md with
  | .error e => (.error e, s)
  | .ok (chunkId, text) => commit (execute py s chunkId text)

/-- `get_entry` -/
def getEntry (s : Registry κ) (chunkId : ο) : Except Exn (Option ο) := do
  ensure (¬ s.closed) .closed
  let key ← py.bind chunkId
  match s.conn.view.find? key with
  | none => return none
  | some row =>
    let md ← py.loads row.2
    return some md

/-! ## `bulk_import` -/

omit [DecidableEq κ] in
/-- The pairs of the loop; asking a meta for its id may raise. -/
def items : Option (Entries ο) → List (Except Exn (ο × ο))
  | none => []
  | some (.dict items) => items.map .ok
  | some (.metas list) => list.map fun md => (py.chunkId md).map fun cid => (cid, md)

omit [DecidableEq κ] in
/-- The body of the loop up to the statement; `none` is its `continue`. -/
def itemEntry (item : Except Exn (ο × ο)) : Except Exn (Option (ο × String)) := do
  let pair ← item
  let cid ← if py.isNone pair.1 ∧ py.isDict pair.2 then py.chunkId pair.2 else pure pair.1
  if py.isNone cid then return none
  let text ← py.dumps pair.2
  return some (cid, text)

def importItems : List (Except Exn (ο × ο)) → Registry κ → Except Exn Unit × Registry κ
  | [], s => (.ok (), s)
  | item :: items, s =>
    match itemEntry py item with
    | .error e => (.error e, s)
    | .ok none => importItems items s
    | .ok (some (cid, text)) =>
      match execute py s cid text with
      | (.error e, s') => (.error e, s')
      | (.ok (), s') => importItems items s'

/-- `bulk_import` -/
def bulkImport (s : Registry κ) (entries : Option (Entries ο)) : Except Exn Unit × Registry κ :=
  if entries.isNone then (.ok (), s)
  else if s.closed then (.error .closed, s)
  else commit (importItems py (items py entries) s)

omit [DecidableEq κ] in
/-- `close` -/
def Registry.close (s : Registry κ) : Registry κ := ⟨s.conn.abandon, true⟩

/-! ## Later calls -/

/-- A call on the registry object. -/
inductive Call (ο : Type) where
  | addEntry (md : ο)
  | getEntry (chunkId : ο)
  | bulkImport (entries : Option (Entries ο))
  | close

/-- What a call returns, and what it makes of the registry. -/
def call (s : Registry κ) : Call ο → Except Exn (Option ο) × Registry κ
  | .addEntry md => ((addEntry py s md).1.map fun _ => none, (addEntry py s md).2)
  | .getEntry chunkId => (getEntry py s chunkId, s)
  | .bulkImport entries => ((bulkImport py s entries).1.map fun _ => none, (bulkImport py s entries).2)
  | .close => (.ok none, s.close)

def calls (s : Registry κ) (later : List (Call ο)) : Registry κ :=
  later.foldl (fun s c => (call py s c).2) s

/-- What the calls return. -/
def results (s : Registry κ) : List (Call ο) → List (Except Exn (Option ο))
  | [] => []
  | c :: later => (call py s c).1 :: results (call py s c).2 later

/-! ## The law -/

/-- The same metadata under every chunk id. -/
def SameRows (t u : Rows κ) : Prop := ∀ key, t.find? key = u.find? key

/-- The row that an entry is for, if it has a chunk id. -/
def itemRow (item : Except Exn (ο × ο)) : Except Exn (Option (κ × String)) := do
  match ← itemEntry py item with
  | none => return none
  | some entry =>
    let key ← py.bind entry.1
    return some (key, entry.2)

/-- The rows of the entries, in their order. -/
def itemRows (items : List (Except Exn (ο × ο))) : List (κ × String) :=
  items.filterMap fun item => (itemRow py item).toOption.join

/-- The row given last for a chunk id. -/
def lastRow (rows : List (κ × String)) (key : κ) : Option (κ × String) :=
  rows.reverse.find? fun row => row.1 = key

/-- An import that raises leaves no trace, then or later; one that returns has put in the metadata
given last for every chunk id. -/
structure Atomic (s : Registry κ) (entries : Option (Entries ο)) : Prop where
  unseen : ∀ e, (bulkImport py s entries).1 = .error e → ∀ later : List (Call ο),
    results py (bulkImport py s entries).2 later = results py s later ∧
    (calls py (bulkImport py s entries).2 later).conn.Alike SameRows (calls py s later).conn
  present : (bulkImport py s entries).1 = .ok () → ∀ key row,
    lastRow (itemRows py (items py entries)) key = some row →
      (bulkImport py s entries).2.conn.committed.find? key = some row

/-- The entries before the first at which the import raises. -/
def before (items : List (Except Exn (ο × ο))) : List (Except Exn (ο × ο)) :=
  items.takeWhile fun item => (itemRow py item).isOk

/-- No entry raises, or the registry already shows, under every chunk id of the entries before the one
that does, the metadata that is given last for it among them. -/
def Harmless (s : Registry κ) (entries : Option (Entries ο)) : Prop :=
  s.closed = true ∨ (∀ item ∈ items py entries, (itemRow py item).isOk) ∨
    ∀ key row, lastRow (itemRows py (before py (items py entries))) key = some row →
      s.conn.view.find? key = some row

/-! ## One import -/

/-- What the loop leaves: the rows of the entries before the first that raises. -/
structure Imported (items : List (Except Exn (ο × ο))) (s : Registry κ)
    (run : Except Exn Unit × Registry κ) : Prop where
  returns : run.1 = .ok () ↔ ∀ item ∈ items, (itemRow py item).isOk
  closed : run.2.closed = s.closed
  committed : run.2.conn.committed = s.conn.committed
  view : run.2.conn.view = (itemRows py (before py items)).foldl Table.replace s.conn.view

section

variable {py} {item : Except Exn (ο × ο)} {xs : List (Except Exn (ο × ο))} {s t : Registry κ}
  {run : Except Exn Unit × Registry κ}

omit [DecidableEq κ] in
theorem before_cons_ok {row : Option (κ × String)} (h : itemRow py item = .ok row) :
    itemRows py (before py (item :: xs)) = row.toList ++ itemRows py (before py xs) := by
  have hok : (itemRow py item).isOk = true := by rw [h]; rfl
  rw [before, List.takeWhile_cons_of_pos (p := fun item => (itemRow py item).isOk) hok, itemRows]
  cases row with
  | none => rw [List.filterMap_cons_none (by rw [h]; rfl)]; rfl
  | some row => rw [List.filterMap_cons_some (b := row) (by rw [h]; rfl)]; rfl

omit [DecidableEq κ] in
theorem before_cons_error {e : Exn} (h : itemRow py item = .error e) :
    before py (item :: xs) = [] := by
  have hraises : ¬ (itemRow py item).isOk = true := by
    rw [h]
    simp [Except.isOk, Except.toBool]
  rw [before, List.takeWhile_cons_of_neg (p := fun item => (itemRow py item).isOk) hraises]

/-- An entry raises. -/
theorem Imported.raised {e : Exn} (h : itemRow py item = .error e)
    (herror : run.1 = .error e) (hclosed : run.2.closed = s.closed)
    (hcommitted : run.2.conn.committed = s.conn.committed) (hview : run.2.conn.view = s.conn.view) :
    Imported py (item :: xs) s run where
  returns := by
    rw [herror]
    simp [h, Except.isOk, Except.toBool]
  closed := hclosed
  committed := hcommitted
  view := by
    rw [before_cons_error h, hview]
    rfl

/-- An entry is passed over, or its row put in. -/
theorem Imported.next {row : Option (κ × String)} (h : itemRow py item = .ok row)
    (hclosed : t.closed = s.closed) (hcommitted : t.conn.committed = s.conn.committed)
    (hview : t.conn.view = row.toList.foldl Table.replace s.conn.view)
    (rest : Imported py xs t run) : Imported py (item :: xs) s run where
  returns := by
    rw [rest.returns, List.forall_mem_cons]
    simp [h, Except.isOk, Except.toBool]
  closed := rest.closed.trans hclosed
  committed := rest.committed.trans hcommitted
  view := by rw [rest.view, before_cons_ok h, List.foldl_append, hview]

theorem execute_error {cid : ο} {text : String} {e : Exn} (hopen : s.closed = false)
    (h : py.bind cid = .error e) :
    execute py s cid text = (.error e, { s with conn := s.conn.opened }) := by
  rw [execute, hopen, h]
  rfl

theorem execute_ok {cid : ο} (text : String) {key : κ} (hopen : s.closed = false)
    (h : py.bind cid = .ok key) :
    ∃ t, execute py s cid text = (.ok (), t) ∧ t.closed = s.closed ∧
      t.conn.committed = s.conn.committed ∧ t.conn.view = s.conn.view.replace (key, text) := by
  rw [execute, hopen, h]
  exact ⟨_, rfl, rfl, rfl, rfl⟩

variable (py xs) in
theorem importItems_imported (hopen : s.closed = false) :
    Imported py xs s (importItems py xs s) := by
  induction xs generalizing s with
  | nil => exact ⟨by simp [importItems], rfl, rfl, rfl⟩
  | cons item xs ih =>
    rw [importItems]
    cases hentry : itemEntry py item with
    | error e =>
      have hrow : itemRow py item = .error e := by rw [itemRow, hentry, error_bind]
      exact .raised hrow rfl rfl rfl rfl
    | ok entry =>
      cases entry with
      | none =>
        have hrow : itemRow py item = .ok none := by rw [itemRow, hentry, ok_bind]; rfl
        exact .next hrow rfl rfl rfl (ih hopen)
      | some entry =>
        obtain ⟨cid, text⟩ := entry
        have hbind : itemRow py item = (py.bind cid >>= fun key => .ok (some (key, text))) := by
          rw [itemRow, hentry, ok_bind]
          rfl
        cases hkey : py.bind cid with
        | error e =>
          rw [hkey, error_bind] at hbind
          simp only [execute_error hopen hkey]
          exact .raised hbind rfl rfl rfl rfl
        | ok key =>
          rw [hkey, ok_bind] at hbind
          obtain ⟨t, hexecute, hclosed, hcommitted, hview⟩ := execute_ok text hopen hkey
          simp only [hexecute]
          exact .next hbind hclosed hcommitted hview (ih (hclosed.trans hopen))

/-! ## Registries that look alike -/

/-- No call tells the two registries apart. -/
structure Same (s t : Registry κ) : Prop where
  closed : s.closed = t.closed
  conn : s.conn.Alike SameRows t.conn

theorem SameRows.replace {row : κ × String} (t u : Rows κ) (h : SameRows t u) :
    SameRows (t.replace row) (u.replace row) := by
  intro key
  rw [Table.find?_replace, Table.find?_replace, h key]

theorem Same.refl (s : Registry κ) : Same s s := ⟨rfl, fun _ => rfl, fun _ => rfl⟩

/-- The runs of one statement, or of one call, on two such registries. -/
structure SameRun {α : Type} (x y : α × Registry κ) : Prop where
  result : x.1 = y.1
  state : Same x.2 y.2

variable (py) in
theorem Same.execute (h : Same s t) (cid : ο) (text : String) :
    SameRun (execute py s cid text) (execute py t cid text) := by
  unfold SQLiteMemoryRegistry.execute
  rw [h.closed]
  split
  · exact ⟨rfl, h⟩
  · split
    · exact ⟨rfl, rfl, h.conn.opened⟩
    · exact ⟨rfl, rfl, h.conn.write SameRows.replace⟩

theorem SameRun.commit {x y : Except Exn Unit × Registry κ} (h : SameRun x y) :
    SameRun (commit x) (commit y) := by
  obtain ⟨r, s⟩ := x
  obtain ⟨r', t⟩ := y
  obtain rfl : r = r' := h.result
  cases r with
  | error e => exact h
  | ok u => exact ⟨rfl, h.state.closed, h.state.conn.commit⟩

variable (py) in
theorem Same.addEntry (h : Same s t) (md : ο) : SameRun (addEntry py s md) (addEntry py t md) := by
  unfold SQLiteMemoryRegistry.addEntry
  split
  · exact ⟨rfl, h⟩
  · exact (h.execute py _ _).commit

theorem Same.importItems (h : Same s t) :
    SameRun (importItems py xs s) (importItems py xs t) := by
  induction xs generalizing s t with
  | nil => exact ⟨rfl, h⟩
  | cons item xs ih =>
    simp only [SQLiteMemoryRegistry.importItems]
    split
    · exact ⟨rfl, h⟩
    · exact ih h
    · rename_i cid text _
      have hrun := h.execute py cid text
      cases hs : SQLiteMemoryRegistry.execute py s cid text with
      | mk r s' =>
        cases ht : SQLiteMemoryRegistry.execute py t cid text with
        | mk r' t' =>
          rw [hs, ht] at hrun
          obtain rfl : r = r' := hrun.result
          cases r with
          | error e => exact hrun
          | ok u => exact ih hrun.state

variable (py) in
theorem Same.bulkImport (h : Same s t) (entries : Option (Entries ο)) :
    SameRun (bulkImport py s entries) (bulkImport py t entries) := by
  unfold SQLiteMemoryRegistry.bulkImport
  rw [h.closed]
  split
  · exact ⟨rfl, h⟩
  · split
    · exact ⟨rfl, h⟩
    · exact h.importItems.commit

theorem Same.getEntry (h : Same s t) (cid : ο) : getEntry py s cid = getEntry py t cid := by
  unfold SQLiteMemoryRegistry.getEntry
  rw [h.closed]
  congr
  funext _
  congr
  funext key
  rw [h.conn.view key]

variable (py) in
theorem Same.call (h : Same s t) (c : Call ο) : SameRun (call py s c) (call py t c) := by
  cases c with
  | addEntry md =>
    have hrun := h.addEntry py md
    exact ⟨congrArg (Except.map fun _ => none) hrun.result, hrun.state⟩
  | getEntry cid => exact ⟨h.getEntry cid, h⟩
  | bulkImport entries =>
    have hrun := h.bulkImport py entries
    exact ⟨congrArg (Except.map fun _ => none) hrun.result, hrun.state⟩
  | close => exact ⟨rfl, rfl, h.conn.abandon⟩

theorem Same.calls (h : Same s t) (later : List (Call ο)) :
    Same (calls py s later) (calls py t later) := by
  induction later generalizing s t with
  | nil => exact h
  | cons c later ih => exact ih (h.call py c).state

theorem Same.results (h : Same s t) (later : List (Call ο)) :
    results py s later = results py t later := by
  induction later generalizing s t with
  | nil => rfl
  | cons c later ih =>
    have hrun := h.call py c
    rw [SQLiteMemoryRegistry.results, SQLiteMemoryRegistry.results, hrun.result, ih hrun.state]

/-! ## Whole imports -/

omit [DecidableEq κ] in
theorem commit_fst : (commit run).1 = run.1 := by
  obtain ⟨r, t⟩ := run
  cases r <;> rfl

omit [DecidableEq κ] in
theorem commit_error {e : Exn} (h : run.1 = .error e) : commit run = run := by
  obtain ⟨r, t⟩ := run
  cases h
  rfl

omit [DecidableEq κ] in
theorem committed_commit (h : run.1 = .ok ()) : (commit run).2.conn.committed = run.2.conn.view := by
  obtain ⟨r, t⟩ := run
  cases h
  rfl

theorem bulkImport_some {entries : Entries ο} (hopen : s.closed = false) :
    bulkImport py s (some entries) = commit (importItems py (items py (some entries)) s) := by
  rw [bulkImport, hopen]
  rfl

theorem bulkImport_closed {entries : Option (Entries ο)} (hclosed : s.closed = true) :
    (bulkImport py s entries).2 = s := by
  rw [bulkImport, hclosed]
  cases entries.isNone <;> rfl

/-- The import raises where an entry does, and leaves what its loop has left. -/
theorem bulkImport_raised {entries : Option (Entries ο)} (hopen : s.closed = false) :
    ((∃ e, (bulkImport py s entries).1 = .error e) ↔
      ¬ ∀ item ∈ items py entries, (itemRow py item).isOk) ∧
    ∀ e, (bulkImport py s entries).1 = .error e →
      bulkImport py s entries = importItems py (items py entries) s := by
  cases entries with
  | none => simp [bulkImport, items]
  | some entries =>
    have himported := importItems_imported py (items py (some entries)) hopen
    rw [bulkImport_some hopen, commit_fst, ← himported.returns]
    refine ⟨?_, fun e h => commit_error h⟩
    cases (importItems py (items py (some entries)) s).1 with
    | ok u => simp
    | error e => simp

/-- An import that returns has put in the metadata given last. -/
theorem bulkImport_present {entries : Option (Entries ο)} {key : κ} {row : κ × String}
    (h : (bulkImport py s entries).1 = .ok ())
    (hrow : lastRow (itemRows py (items py entries)) key = some row) :
    (bulkImport py s entries).2.conn.committed.find? key = some row := by
  cases entries with
  | none => cases hrow
  | some entries =>
    cases hclosed : s.closed with
    | true =>
      rw [bulkImport, hclosed] at h
      cases h
    | false =>
      have himported := importItems_imported py (items py (some entries)) hclosed
      rw [bulkImport_some hclosed] at h ⊢
      rw [commit_fst] at h
      have hbefore : before py (items py (some entries)) = items py (some entries) :=
        List.takeWhile_eq_self_iff.mpr (himported.returns.mp h)
      rw [committed_commit h, himported.view, hbefore, Table.find?_foldl_replace]
      rw [lastRow] at hrow
      rw [hrow]
      rfl

/-- An import that raises shows what it has shown before. -/
theorem same_of_raised {entries : Option (Entries ο)} (hopen : s.closed = false)
    (hshown : ∀ key row, lastRow (itemRows py (before py (items py entries))) key = some row →
      s.conn.view.find? key = some row) :
    Same (importItems py (items py entries) s).2 s := by
  have himported := importItems_imported py (items py entries) hopen
  refine ⟨himported.closed, fun key => ?_, fun key => by rw [himported.committed]⟩
  rw [himported.view, Table.find?_foldl_replace]
  cases hlast : lastRow (itemRows py (before py (items py entries))) key with
  | none =>
    rw [lastRow] at hlast
    rw [hlast]
    rfl
  | some row =>
    rw [hshown key row hlast]
    rw [lastRow] at hlast
    rw [hlast]
    rfl

end

/-- An import is atomic exactly if no entry raises, or those before it change nothing. -/
theorem bulkImport_atomic_iff (s : Registry κ) (entries : Option (Entries ο)) :
    Atomic py s entries ↔ Harmless py s entries := by
  constructor
  · intro h
    rw [Harmless, or_iff_not_imp_left, or_iff_not_imp_left]
    intro hopen hraises key row hlast
    rw [Bool.not_eq_true] at hopen
    obtain ⟨e, he⟩ := (bulkImport_raised hopen).1.mpr hraises
    have hview := (h.unseen e he []).2.view key
    have himported := importItems_imported py (items py entries) hopen
    rw [calls, calls, List.foldl_nil, List.foldl_nil, (bulkImport_raised hopen).2 e he,
      himported.view, Table.find?_foldl_replace] at hview
    rw [lastRow] at hlast
    rw [hlast] at hview
    exact hview.symm
  · intro h
    refine ⟨fun e he later => ?_, fun hok key row hrow => bulkImport_present hok hrow⟩
    have hsame : Same (bulkImport py s entries).2 s := by
      rcases Bool.eq_false_or_eq_true s.closed with hclosed | hopen
      · rw [bulkImport_closed hclosed]
        exact Same.refl s
      · rcases h with hclosed | hall | hshown
        · rw [hclosed] at hopen
          cases hopen
        · exact absurd hall ((bulkImport_raised hopen).1.mp ⟨e, he⟩)
        · rw [(bulkImport_raised hopen).2 e he]
          exact same_of_raised hopen hshown
    exact ⟨hsame.results later, (hsame.calls later).conn⟩

end

namespace Sample

/-- A chunk id, or a meta with one; JSON has no text for a meta that is not `plain`. -/
inductive Obj where
  | id (text : String)
  | md (chunkId : String) (plain : Bool)
  deriving DecidableEq, Repr

def py : Python Obj String where
  isNone _ := false
  isDict _ := true
  chunkId
    | .md chunkId _ => .ok (.id chunkId)
    | .id _ => .error .failure
  dumps
    | .md chunkId true => .ok chunkId
    | _ => .error .failure
  loads text := .ok (.md text true)
  bind
    | .id text => .ok text
    | .md _ _ => .error .failure

def empty : Registry String := ⟨⟨Table.empty, none⟩, false⟩

/-- The second meta is not plain. -/
def halfPlain : Option (Entries Obj) := some (.metas [.md "a" true, .md "b" false])

theorem halfPlain_seen : ¬ Atomic py empty halfPlain := by
  intro h
  have hview := (h.unseen .failure (by decide) []).2.view "a"
  have hthere : (calls py (bulkImport py empty halfPlain).2 []).conn.view.find? "a" =
      some ("a", "a") := by decide
  rw [hthere] at hview
  cases hview

/-- What is put in afterwards commits what the import has left behind. -/
example : (calls py (bulkImport py empty halfPlain).2 [.addEntry (.md "c" true)]).conn.committed.rows =
    [("a", "a"), ("c", "c")] := by decide

end Sample

end ProjectMaya.SQLiteMemoryRegistry
