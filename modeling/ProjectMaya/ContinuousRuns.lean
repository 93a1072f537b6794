import ProjectMaya.ContinuousIngest
import ProjectMaya.Logic.Wp

/-! # When a pass completes an inbox

A pass that nothing disturbs goes through the files one by one (`walk`). A file is left behind where
its text has a row in the store already, since the row is inserted and not replaced, and where a
file before it has ended the pass (`moved_iff`). -/

namespace ProjectMaya.ContinuousIngest

open Logic
open ProjectMaya.Vector (Text Value Python text)
open ProjectMaya.Ingest (computeChunkId embPath sha256Text embPath_inj)

section

variable {ν : Type}

/-! ## A pass that nothing disturbs -/

theorem calm_attempt_ok {p : Code ν Unit} {rest : Code ν Bool} {s s' : Root ν}
    (h : p.calm s () = (.ok (), s', ())) : (attempt p rest).calm s () = rest.calm s' () := by
  show (p.andThen _).calm s () = _
  rw [Prog.calm_andThen, h]

theorem calm_attempt_error {p : Code ν Unit} {rest : Code ν Bool} {s s' : Root ν} {e : Exn}
    (h : p.calm s () = (.error e, s', ())) : (attempt p rest).calm s () = (.ok false, s', ()) := by
  show (p.andThen _).calm s () = _
  rw [Prog.calm_andThen, h]
  rfl

theorem calm_insert (row : Row ν) (s : Root ν) :
    (.perform (Act.insert row) : Code ν Unit).calm s () =
      match s.store.insert row with
      | none => (.error .raised, s, ())
      | some store => (.ok (), { s with store := store }, ()) := by
  show (Act.insert row).next .go s () = _
  cases h : s.store.insert row <;> simp only [Act.insert, h]

def verdict [Python ν] (env : Env ν) (s : Root ν) (name : Text) : Verdict ν :=
  judge env name ((s.incoming.find? name).bind File.content)

/-- The root after the embedding file and the registry entry. -/
def written (env : Env ν) (s : Root ν) (name t : Text) (metadata : List (Text × Value ν)) : Root ν :=
  { s with
    files := (s.files.set (embPath env.embeddings (computeChunkId t)) none).set
      (embPath env.embeddings (computeChunkId t)) (some (embObj env name t (env.clock s.ticks)))
    registry := s.registry.set (computeChunkId t)
      (registryMeta env name t metadata (env.clock s.ticks))
    ticks := s.ticks + 1 }

/-- `process_file` where nothing fails. -/
def visit [Python ν] (env : Env ν) (s : Root ν) (name : Text) : Except Exn Bool × Root ν :=
  match verdict env s name with
  | .skip => (.ok false, s)
  | .crash => (.error .attributeError, s)
  | .ingest t metadata =>
    match s.store.insert (storeRow env name t (env.clock s.ticks)) with
    | none => (.ok false, written env s name t metadata)
    | some store => (.ok true, { written env s name t metadata with store := store })

/-- The root after the files. -/
def walk [Python ν] (env : Env ν) : Root ν → List Text → Root ν
  | s, [] => s
  | s, name :: names =>
    match visit env s name with
    | (.ok true, s') => walk env (Act.moved name s') names
    | (.ok false, s') => walk env s' names
    | (.error _, s') => s'

theorem calm_ingestText (env : Env ν) (s : Root ν) (name t : Text)
    (metadata : List (Text × Value ν)) :
    (ingestText env name t metadata).calm s () =
      match s.store.insert (storeRow env name t (env.clock s.ticks)) with
      | none => (.ok false, written env s name t metadata, ())
      | some store => (.ok true, { written env s name t metadata with store := store }, ()) := by
  have hbody : (ingestText env name t metadata).calm s () =
      (attempt (.perform (Act.insert (storeRow env name t (env.clock s.ticks)))) (pure true)).calm
        (written env s name t metadata) () := rfl
  have hinsert := calm_insert (storeRow env name t (env.clock s.ticks)) (written env s name t metadata)
  have hstore : (written env s name t metadata).store = s.store := rfl
  rw [hstore] at hinsert
  rw [hbody]
  cases hs : s.store.insert (storeRow env name t (env.clock s.ticks)) with
  | none =>
    rw [hs] at hinsert
    exact calm_attempt_error hinsert
  | some store =>
    rw [hs] at hinsert
    exact (calm_attempt_ok hinsert).trans rfl

theorem calm_processFile [Python ν] (env : Env ν) (s : Root ν) (name : Text) :
    (processFile env name).calm s () = ((visit env s name).1, (visit env s name).2, ()) := by
  have hread : (.perform (Act.readText name) : Code ν (Option Text)).calm s () =
      (.ok ((s.incoming.find? name).bind File.content), s, ()) := rfl
  unfold processFile visit
  rw [Prog.calm_bind_ok hread]
  show (match verdict env s name with
    | .skip => pure false
    | .crash => .raise .attributeError
    | .ingest t metadata => ingestText env name t metadata : Code ν Bool).calm s () = _
  cases verdict env s name with
  | skip => rfl
  | crash => rfl
  | ingest t metadata =>
    show (ingestText env name t metadata).calm s () = _
    rw [calm_ingestText]
    cases h : s.store.insert (storeRow env name t (env.clock s.ticks)) <;> simp only [h]

theorem calm_processFiles [Python ν] (env : Env ν) (names : List Text) (s : Root ν) :
    ((processFiles env names).calm s ()).2.1 = walk env s names := by
  induction names generalizing s with
  | nil => rfl
  | cons name names ih =>
    have hfile := calm_processFile env s name
    unfold processFiles walk
    cases hvisit : visit env s name with
    | mk r s' =>
      rw [hvisit] at hfile
      cases r with
      | error e =>
        rw [Prog.calm_bind_error hfile]
      | ok ok =>
        rw [Prog.calm_bind_ok hfile]
        cases ok with
        | false => exact ih s'
        | true =>
          have hmove : (moveFile name : Code ν Unit).calm s' () = (.ok (), Act.moved name s', ()) := rfl
          show ((moveFile name >>= fun _ => processFiles env names).calm s' ()).2.1 = _
          rw [Prog.calm_bind_ok hmove]
          exact ih _

/-- The moves of a pass in which nothing fails. -/
def Undisturbed (moves : List (Move Choice)) : Prop := ∀ m ∈ moves, m = .go .go

theorem runPass_undisturbed [Python ν] (env : Env ν) (s : Root ν) {moves : List (Move Choice)}
    (h : Undisturbed moves) : (runPass env s moves).shared = walk env s (listing s.incoming) := by
  unfold runPass
  rw [Prog.run_of_default _ _ h, Prog.run_nil]
  show ((processFiles env (listing s.incoming)).calm s ()).2.1 = _
  exact calm_processFiles env _ s

end

section

variable {ν : Type} {env : Env ν} {s s' : Root ν} {name t : Text}
  {metadata : List (Text × Value ν)} {names : List Text} {cid : String}

/-! ## What there is of a text -/

theorem embeddingId_inj {a b : String} (h : embeddingId a = embeddingId b) : a = b := by
  unfold embeddingId at h
  have hl := congrArg String.toList h
  rw [String.toList_append, String.toList_append] at hl
  exact String.toList_inj.mp (List.append_cancel_left hl)

/-- The root after a text has been stored and its file moved. -/
def completed (env : Env ν) (s : Root ν) (name t : Text) (metadata : List (Text × Value ν))
    (store : Store ν) : Root ν :=
  Act.moved name { written env s name t metadata with store := store }

theorem completed_find? {store : Store ν} (hname : name ∉ names) : ∀ other ∈ names,
    (completed env s name t metadata store).incoming.find? other = s.incoming.find? other :=
  fun other hother => (Table.find?_delete_key name other).trans
    (if_neg fun he : other = name => hname (he ▸ hother))

/-- The text has a row in the store. -/
def Held (s : Root ν) (cid : String) : Prop := ∃ row ∈ s.store, row.embeddingId = embeddingId cid

/-- What is there of a chunk is the same. -/
structure Same (env : Env ν) (cid : String) (s s' : Root ν) : Prop where
  file : s'.files.get? (embPath env.embeddings cid) = s.files.get? (embPath env.embeddings cid)
  entry : s'.registry.get? cid = s.registry.get? cid
  rows : s'.store.rows.filter (fun r => r.chunkId = cid) =
    s.store.rows.filter fun r => r.chunkId = cid

theorem Same.refl (env : Env ν) (cid : String) (s : Root ν) : Same env cid s s := ⟨rfl, rfl, rfl⟩

theorem Same.trans {s'' : Root ν} (h : Same env cid s s') (h' : Same env cid s' s'') :
    Same env cid s s'' :=
  ⟨h'.file.trans h.file, h'.entry.trans h.entry, h'.rows.trans h.rows⟩

theorem same_written (hne : cid ≠ computeChunkId t) :
    Same env cid s (written env s name t metadata) := by
  have hpath : embPath env.embeddings cid ≠ embPath env.embeddings (computeChunkId t) :=
    fun he => hne (embPath_inj he)
  refine ⟨?_, Assoc.get?_set_ne _ _ hne, rfl⟩
  exact (Assoc.get?_set_ne _ _ hpath).trans (Assoc.get?_set_ne _ _ hpath)

/-- The embedding file, the registry entry and the row of a text say the same. -/
structure Match (env : Env ν) (t : Text) (file : EmbeddingFile ν) (entry : RegistryEntry ν)
    (row : Row ν) : Prop where
  chunkId : file.chunkId = computeChunkId t ∧ entry.chunkId = computeChunkId t ∧
    row.chunkId = computeChunkId t
  embeddingId : file.embeddingId = row.embeddingId
  path : entry.embeddingPath = embPath env.embeddings (computeChunkId t)
  vector : file.vector = row.vector
  dim : file.vectorDim = row.vectorDim ∧ entry.vectorDim = row.vectorDim
  created : file.createdAt = row.createdAt ∧ entry.embeddingTimestamp = row.createdAt
  source : file.sourcePath = row.sourcePath ∧ entry.sourcePath = row.sourcePath
  hash : entry.sourceHash = sha256Text t

/-- The text has an embedding file, a registry entry and exactly one row, and these agree. -/
def Agrees (env : Env ν) (s : Root ν) (t : Text) : Prop :=
  ∃ file entry row,
    s.files.get? (embPath env.embeddings (computeChunkId t)) = some (some file) ∧
      s.registry.get? (computeChunkId t) = some entry ∧
      s.store.rows.filter (fun r => r.chunkId = computeChunkId t) = [row] ∧
      Match env t file entry row

theorem Agrees.same (h : Agrees env s t) (hs : Same env (computeChunkId t) s s') :
    Agrees env s' t := by
  obtain ⟨file, entry, row, hfile, hentry, hrow, hmatch⟩ := h
  exact ⟨file, entry, row, hs.file.trans hfile, hs.entry.trans hentry, hs.rows.trans hrow, hmatch⟩

/-- The rows of the store have the ids that `process_file` gives them. -/
def RowsOk (s : Root ν) : Prop := ∀ row ∈ s.store, row.embeddingId = embeddingId row.chunkId

theorem rowsOk_append {store : Store ν} {createdAt : String} (h : RowsOk s)
    (hrows : store.rows = s.store.rows ++ [storeRow env name t createdAt]) :
    ∀ row ∈ store, row.embeddingId = embeddingId row.chunkId := by
  intro row hrow
  rw [Table.mem_def, hrows] at hrow
  rcases List.mem_append.mp hrow with hrow | hrow
  · exact h row hrow
  · rw [List.mem_singleton.mp hrow]
    rfl

theorem agrees_completed {store : Store ν} (h : RowsOk s) (hheld : ¬ Held s (computeChunkId t))
    (hrows : store.rows = s.store.rows ++ [storeRow env name t (env.clock s.ticks)]) :
    Agrees env (completed env s name t metadata store) t := by
  refine ⟨embObj env name t (env.clock s.ticks),
    registryMeta env name t metadata (env.clock s.ticks), storeRow env name t (env.clock s.ticks),
    Assoc.get?_set_self _ _ _, Assoc.get?_set_self _ _ _, ?_,
    ⟨rfl, rfl, rfl⟩, rfl, rfl, rfl, ⟨rfl, rfl⟩, ⟨rfl, rfl⟩, ⟨rfl, rfl⟩, rfl⟩
  show store.rows.filter _ = _
  have hold : s.store.rows.filter (fun r => r.chunkId = computeChunkId t) = [] := by
    rw [List.filter_eq_nil_iff]
    intro row hrow hcid
    refine hheld ⟨row, hrow, ?_⟩
    rw [h row hrow, of_decide_eq_true hcid]
  have hnew : [storeRow env name t (env.clock s.ticks)].filter
      (fun r => r.chunkId = computeChunkId t) = [storeRow env name t (env.clock s.ticks)] := by
    simp [storeRow]
  rw [hrows, List.filter_append, hold, hnew]
  rfl

end

section

variable {ν : Type} [Python ν] {env : Env ν} {s s' : Root ν} {name other t : Text}
  {metadata : List (Text × Value ν)} {names : List Text} {cid : String}

/-! ## What a visit does -/

/-- The chunk id of a file that is to be ingested. -/
def chunkOf (env : Env ν) (s : Root ν) (name : Text) : Option String :=
  match verdict env s name with
  | .ingest t _ => some (computeChunkId t)
  | _ => none

theorem chunkOf_ingest (h : verdict env s name = .ingest t metadata) :
    chunkOf env s name = some (computeChunkId t) := by
  unfold chunkOf
  rw [h]

theorem verdict_congr (h : s'.incoming.find? name = s.incoming.find? name) :
    verdict env s' name = verdict env s name := by
  unfold verdict
  rw [h]

theorem chunkOf_congr (h : s'.incoming.find? name = s.incoming.find? name) :
    chunkOf env s' name = chunkOf env s name := by
  unfold chunkOf
  rw [verdict_congr h]

/-- A file that is not there is not ingested. -/
theorem chunkOf_eq_none (h : s.incoming.find? name = none) : chunkOf env s name = none := by
  unfold chunkOf verdict
  rw [h]
  rfl

/-- What the turn of the loop for a file leaves, if the pass goes on. -/
inductive Visited (env : Env ν) (s : Root ν) (name : Text) : Root ν → Prop where
  | skipped : verdict env s name = .skip → Visited env s name s
  | refused {t : Text} {metadata : List (Text × Value ν)} :
      verdict env s name = .ingest t metadata → Held s (computeChunkId t) →
      Visited env s name (written env s name t metadata)
  | stored {t : Text} {metadata : List (Text × Value ν)} {store : Store ν} :
      verdict env s name = .ingest t metadata → ¬ Held s (computeChunkId t) →
      store.rows = s.store.rows ++ [storeRow env name t (env.clock s.ticks)] →
      Visited env s name (completed env s name t metadata store)

theorem walk_cases (env : Env ν) (s : Root ν) (name : Text) (names : List Text) :
    (verdict env s name = .crash ∧ walk env s (name :: names) = s) ∨
      ∃ s', Visited env s name s' ∧ walk env s (name :: names) = walk env s' names := by
  cases hv : verdict env s name with
  | crash =>
    refine .inl ⟨rfl, ?_⟩
    rw [walk]
    unfold visit
    simp only [hv]
  | skip =>
    refine .inr ⟨s, .skipped hv, ?_⟩
    rw [walk]
    unfold visit
    simp only [hv]
  | ingest t metadata =>
    right
    cases hs : s.store.insert (storeRow env name t (env.clock s.ticks)) with
    | none =>
      refine ⟨_, .refused hv (Table.insert_eq_none.mp hs), ?_⟩
      rw [walk]
      unfold visit
      simp only [hv, hs]
    | some store =>
      obtain ⟨hfresh, hrows⟩ := Table.insert_eq_some.mp hs
      refine ⟨_, .stored hv ?_ hrows, ?_⟩
      · rintro ⟨row, hrow, he⟩
        exact hfresh row hrow he
      · rw [walk]
        unfold visit completed
        simp only [hv, hs]

theorem Visited.find?_ne (h : Visited env s name s') (hne : other ≠ name) :
    s'.incoming.find? other = s.incoming.find? other := by
  cases h with
  | skipped _ => rfl
  | refused _ _ => rfl
  | stored _ _ _ => exact (Table.find?_delete_key name other).trans (if_neg hne)

theorem Visited.processed_ne (h : Visited env s name s') (hne : other ≠ name) :
    s'.processed.get? other = s.processed.get? other := by
  cases h with
  | skipped _ => rfl
  | refused _ _ => rfl
  | stored _ _ _ => exact Assoc.get?_set_ne _ _ hne

/-- The file of another chunk leaves it alone. -/
theorem Visited.same (h : Visited env s name s') (hne : chunkOf env s name ≠ some cid) :
    Same env cid s s' := by
  cases h with
  | skipped _ => exact Same.refl env cid s
  | refused hv _ =>
    rw [chunkOf_ingest hv] at hne
    exact same_written fun he => hne (congrArg some he.symm)
  | @stored t metadata store hv _ hrows =>
    rw [chunkOf_ingest hv] at hne
    have hcid : cid ≠ computeChunkId t := fun he => hne (congrArg some he.symm)
    have hsame : Same env cid s (written env s name t metadata) := same_written hcid
    refine ⟨hsame.file, hsame.entry, ?_⟩
    show store.rows.filter _ = _
    rw [hrows, List.filter_append]
    have hnone : [storeRow env name t (env.clock s.ticks)].filter (fun r => r.chunkId = cid) = [] := by
      simp [storeRow, hcid.symm]
    rw [hnone, List.append_nil]

/-! ## What a walk leaves alone -/

theorem walk_find? (h : name ∉ names) :
    (walk env s names).incoming.find? name = s.incoming.find? name ∧
      (walk env s names).processed.get? name = s.processed.get? name := by
  induction names generalizing s with
  | nil => exact ⟨rfl, rfl⟩
  | cons first names ih =>
    rw [List.mem_cons, not_or] at h
    rcases walk_cases env s first names with ⟨-, hw⟩ | ⟨s', hs, hw⟩
    · rw [hw]
      exact ⟨rfl, rfl⟩
    · rw [hw]
      obtain ⟨hincoming, hprocessed⟩ := ih (s := s') h.2
      exact ⟨hincoming.trans (hs.find?_ne h.1), hprocessed.trans (hs.processed_ne h.1)⟩

theorem walk_same (hnodup : names.Nodup) (h : ∀ other ∈ names, chunkOf env s other ≠ some cid) :
    Same env cid s (walk env s names) := by
  induction names generalizing s with
  | nil => exact Same.refl env cid s
  | cons first names ih =>
    obtain ⟨hfirst, hnodup⟩ := List.nodup_cons.mp hnodup
    rcases walk_cases env s first names with ⟨-, hw⟩ | ⟨s', hs, hw⟩
    · rw [hw]
      exact Same.refl env cid s
    · rw [hw]
      refine (hs.same (h first List.mem_cons_self)).trans (ih hnodup fun other hother => ?_)
      have hne : other ≠ first := fun he => hfirst (he ▸ hother)
      rw [chunkOf_congr (hs.find?_ne hne)]
      exact h other (List.mem_cons_of_mem first hother)

/-! ## When every file is moved -/

/-- No file after one that ends the pass is to be ingested. -/
def Clear (env : Env ν) (s : Root ν) (names : List Text) : Prop :=
  ∀ l name r, names = l ++ name :: r → verdict env s name = .crash →
    ∀ other ∈ r, chunkOf env s other = none

/-- No text of the files has a row yet, and no two are the same. -/
structure Ready (env : Env ν) (s : Root ν) (names : List Text) : Prop where
  fresh : ∀ name ∈ names, ∀ cid, chunkOf env s name = some cid → ¬ Held s cid
  distinct : (names.filterMap (chunkOf env s)).Nodup
  clear : Clear env s names

theorem Clear.congr (h : Clear env s names)
    (hfind : ∀ other ∈ names, s'.incoming.find? other = s.incoming.find? other) :
    Clear env s' names := by
  intro l first r hsplit hcrash other hother
  have hfirst : first ∈ names := by
    rw [hsplit]
    exact List.mem_append_right l List.mem_cons_self
  have hmem : other ∈ names := by
    rw [hsplit]
    exact List.mem_append_right l (List.mem_cons_of_mem first hother)
  rw [chunkOf_congr (hfind other hmem)]
  rw [verdict_congr (hfind first hfirst)] at hcrash
  exact h l first r hsplit hcrash other hother

/-- Every file that is to be ingested is gone. -/
def AllMoved (env : Env ν) (s : Root ν) (names : List Text) (after : Root ν) : Prop :=
  ∀ name ∈ names, chunkOf env s name ≠ none → after.incoming.find? name = none

theorem ready_crash (hv : verdict env s name = .crash) :
    Ready env s (name :: names) ↔ ∀ other ∈ names, chunkOf env s other = none := by
  have hname : chunkOf env s name = none := by
    unfold chunkOf
    rw [hv]
  constructor
  · exact fun h => h.clear [] name names rfl hv
  · intro h
    have hall : ∀ other ∈ name :: names, chunkOf env s other = none := by
      intro other hother
      rcases List.mem_cons.mp hother with rfl | hother
      · exact hname
      · exact h other hother
    refine ⟨fun other hother cid hcid => ?_, ?_, fun l first r hsplit _ other hother => ?_⟩
    · rw [hall other hother] at hcid
      cases hcid
    · rw [List.filterMap_eq_nil_iff.mpr hall]
      exact List.nodup_nil
    · refine hall other ?_
      rw [hsplit]
      exact List.mem_append_right l (List.mem_cons_of_mem first hother)

theorem ready_cons (hv : verdict env s name ≠ .crash) :
    Ready env s (name :: names) ↔ Ready env s names ∧ ∀ cid, chunkOf env s name = some cid →
      ¬ Held s cid ∧ ∀ other ∈ names, chunkOf env s other ≠ some cid := by
  constructor
  · intro h
    refine ⟨⟨fun other hother => h.fresh other (List.mem_cons_of_mem name hother), ?_, ?_⟩, ?_⟩
    · have hd := h.distinct
      rw [List.filterMap_cons] at hd
      cases hc : chunkOf env s name with
      | none =>
        rw [hc] at hd
        exact hd
      | some cid =>
        rw [hc] at hd
        exact (List.nodup_cons.mp hd).2
    · intro l first r hsplit hcrash
      exact h.clear (name :: l) first r (congrArg _ hsplit) hcrash
    · intro cid hcid
      refine ⟨h.fresh name List.mem_cons_self cid hcid, fun other hother hother' => ?_⟩
      have hd := h.distinct
      rw [List.filterMap_cons, hcid] at hd
      exact (List.nodup_cons.mp hd).1 (List.mem_filterMap.mpr ⟨other, hother, hother'⟩)
  · rintro ⟨h, hname⟩
    refine ⟨fun other hother cid hcid => ?_, ?_, ?_⟩
    · rcases List.mem_cons.mp hother with rfl | hother
      · exact (hname cid hcid).1
      · exact h.fresh other hother cid hcid
    · rw [List.filterMap_cons]
      cases hc : chunkOf env s name with
      | none => exact h.distinct
      | some cid =>
        refine List.nodup_cons.mpr ⟨fun hmem => ?_, h.distinct⟩
        obtain ⟨other, hother, hother'⟩ := List.mem_filterMap.mp hmem
        exact (hname cid hc).2 other hother hother'
    · intro l first r hsplit hcrash
      cases l with
      | nil =>
        obtain ⟨rfl, rfl⟩ := List.cons.inj hsplit
        exact absurd hcrash hv
      | cons head l =>
        obtain ⟨rfl, hrest⟩ := List.cons.inj hsplit
        exact h.clear l first r hrest hcrash

/-- After the text of another file has been stored. -/
theorem ready_completed {store : Store ν} (hname : name ∉ names)
    (hrows : store.rows = s.store.rows ++ [storeRow env name t (env.clock s.ticks)]) :
    Ready env (completed env s name t metadata store) names ↔
      Ready env s names ∧ ∀ other ∈ names, chunkOf env s other ≠ some (computeChunkId t) := by
  have hfind : ∀ other ∈ names, (completed env s name t metadata store).incoming.find? other =
      s.incoming.find? other := completed_find? hname
  have hchunk : ∀ other ∈ names,
      chunkOf env (completed env s name t metadata store) other = chunkOf env s other :=
    fun other hother => chunkOf_congr (hfind other hother)
  have hheld : ∀ cid, Held (completed env s name t metadata store) cid ↔
      Held s cid ∨ cid = computeChunkId t := by
    intro cid
    unfold Held
    show (∃ row ∈ store.rows, _) ↔ _
    rw [hrows]
    simp only [List.mem_append, List.mem_singleton]
    constructor
    · rintro ⟨row, hrow | rfl, he⟩
      · exact .inl ⟨row, hrow, he⟩
      · exact .inr (embeddingId_inj he).symm
    · rintro (⟨row, hrow, he⟩ | rfl)
      · exact ⟨row, .inl hrow, he⟩
      · exact ⟨_, .inr rfl, rfl⟩
  have hdistinct : names.filterMap (chunkOf env (completed env s name t metadata store)) =
      names.filterMap (chunkOf env s) := List.filterMap_congr hchunk
  constructor
  · intro h
    refine ⟨⟨fun other hother cid hcid hs => ?_, hdistinct ▸ h.distinct, ?_⟩, ?_⟩
    · rw [← hchunk other hother] at hcid
      exact h.fresh other hother cid hcid ((hheld cid).mpr (.inl hs))
    · exact h.clear.congr fun other hother => (hfind other hother).symm
    · intro other hother hcid
      rw [← hchunk other hother] at hcid
      exact h.fresh other hother _ hcid ((hheld _).mpr (.inr rfl))
  · rintro ⟨h, hother⟩
    refine ⟨fun other hmem cid hcid hs => ?_, hdistinct ▸ h.distinct, h.clear.congr hfind⟩
    rw [hchunk other hmem] at hcid
    rcases (hheld cid).mp hs with hs | rfl
    · exact h.fresh other hmem cid hcid hs
    · exact hother other hmem hcid

theorem allMoved_completed {store : Store ν} (hname : name ∉ names) :
    AllMoved env s (name :: names) (walk env (completed env s name t metadata store) names) ↔
      AllMoved env (completed env s name t metadata store) names
        (walk env (completed env s name t metadata store) names) := by
  have hcongr : ∀ other ∈ names,
      chunkOf env (completed env s name t metadata store) other = chunkOf env s other :=
    fun other hother => chunkOf_congr (completed_find? hname other hother)
  constructor
  · intro h other hother hc
    rw [hcongr other hother] at hc
    exact h other (List.mem_cons_of_mem name hother) hc
  · intro h other hother hc
    rcases List.mem_cons.mp hother with rfl | hother
    · rw [(walk_find? hname).1]
      exact (Table.find?_delete_key other other).trans (if_pos rfl)
    · rw [← hcongr other hother] at hc
      exact h other hother hc

/-- All files are moved exactly when the inbox was ready for the pass. -/
theorem allMoved_iff (hnodup : names.Nodup) :
    AllMoved env s names (walk env s names) ↔ Ready env s names := by
  induction names generalizing s with
  | nil => exact ⟨fun _ => ⟨nofun, List.nodup_nil, fun l name r h => by simp at h⟩, fun _ => nofun⟩
  | cons name names ih =>
    obtain ⟨hname, hnodup⟩ := List.nodup_cons.mp hnodup
    rcases walk_cases env s name names with ⟨hv, hw⟩ | ⟨s', hs, hw⟩
    · rw [hw, ready_crash hv]
      constructor
      · intro h other hother
        by_contra hc
        exact hc (chunkOf_eq_none (h other (List.mem_cons_of_mem name hother) hc))
      · intro h other hother hc
        rcases List.mem_cons.mp hother with rfl | hother
        · unfold chunkOf at hc
          rw [hv] at hc
          exact absurd rfl hc
        · exact absurd (h other hother) hc
    · rw [hw]
      cases hs with
      | skipped hv =>
        have hnone : chunkOf env s name = none := by
          unfold chunkOf
          rw [hv]
        rw [ready_cons (by rw [hv]; nofun), ← ih hnodup]
        constructor
        · refine fun h => ⟨fun other hother => h other (List.mem_cons_of_mem name hother), ?_⟩
          intro cid hcid
          rw [hnone] at hcid
          cases hcid
        · rintro ⟨h, -⟩ other hother hc
          rcases List.mem_cons.mp hother with rfl | hother
          · exact absurd hnone hc
          · exact h other hother hc
      | @refused t metadata hv hheld =>
        rw [ready_cons (by rw [hv]; nofun)]
        have hchunk := chunkOf_ingest hv
        constructor
        · intro h
          have hgone := h name List.mem_cons_self (by rw [hchunk]; nofun)
          rw [(walk_find? hname).1] at hgone
          have hthere : s.incoming.find? name = none := hgone
          rw [chunkOf_eq_none hthere] at hchunk
          cases hchunk
        · rintro ⟨-, h⟩
          exact absurd hheld (h _ hchunk).1
      | @stored t metadata store hv hheld hrows =>
        have hchunk := chunkOf_ingest hv
        rw [ready_cons (by rw [hv]; nofun)]
        rw [allMoved_completed hname, ih hnodup, ready_completed hname hrows]
        constructor
        · rintro ⟨h, hother⟩
          refine ⟨h, fun cid hcid => ?_⟩
          rw [hchunk] at hcid
          cases hcid
          exact ⟨hheld, hother⟩
        · rintro ⟨h, hother⟩
          exact ⟨h, (hother _ hchunk).2⟩

/-! ## What a completed file has -/

theorem complete_of_ready (hnodup : names.Nodup) (hok : RowsOk s) (h : Ready env s names) :
    ∀ name ∈ names, ∀ t metadata, verdict env s name = .ingest t metadata →
      (walk env s names).processed.get? name =
          some ((s.incoming.find? name).bind File.content) ∧
        Agrees env (walk env s names) t := by
  induction names generalizing s with
  | nil => nofun
  | cons first names ih =>
    obtain ⟨hfirst, hrest⟩ := List.nodup_cons.mp hnodup
    intro name hname t metadata hverdict
    have hchunk := chunkOf_ingest hverdict
    rcases walk_cases env s first names with ⟨hv, hw⟩ | ⟨s', hs, hw⟩
    · rcases List.mem_cons.mp hname with rfl | hname
      · rw [hv] at hverdict
        cases hverdict
      · rw [ready_crash hv] at h
        rw [h name hname] at hchunk
        cases hchunk
    · rw [hw]
      cases hs with
      | skipped hv =>
        rw [ready_cons (by rw [hv]; nofun)] at h
        rcases List.mem_cons.mp hname with rfl | hname
        · rw [hv] at hverdict
          cases hverdict
        · exact ih hrest hok h.1 name hname t metadata hverdict
      | refused hv hheld =>
        rw [ready_cons (by rw [hv]; nofun)] at h
        exact absurd hheld (h.2 _ (chunkOf_ingest hv)).1
      | @stored u data store hv hheld hrows =>
        rw [ready_cons (by rw [hv]; nofun)] at h
        obtain ⟨hother, hne⟩ := h
        have hne := (hne _ (chunkOf_ingest hv)).2
        rcases List.mem_cons.mp hname with rfl | hname
        · rw [hv] at hverdict
          cases hverdict
          constructor
          · rw [(walk_find? hfirst).2]
            exact Assoc.get?_set_self _ _ _
          · refine (agrees_completed hok hheld hrows).same (walk_same hrest fun other ho => ?_)
            rw [chunkOf_congr (completed_find? hfirst other ho)]
            exact hne other ho
        · have hfind : (completed env s first u data store).incoming.find? name =
              s.incoming.find? name := completed_find? hfirst name hname
          rw [← hfind]
          rw [← verdict_congr hfind] at hverdict
          exact ih hrest (rowsOk_append hok hrows) ((ready_completed hfirst hrows).mpr ⟨hother, hne⟩)
            name hname t metadata hverdict

end

/-! ## The rows in any pass -/

section

variable {ν : Type}

/-- A step puts only rows into the store that have the right id. -/
def Keeps {β : Type} (act : Act ν β) : Prop :=
  ∀ c s l, RowsOk s → RowsOk (act.next c s l).2.1

theorem keeps_effect {f : Root ν → Root ν} (hf : ∀ s, (f s).store = s.store) :
    Keeps (Act.effect f) := by
  have hrows : ∀ s, RowsOk s → RowsOk (f s) := by
    intro s h
    unfold RowsOk
    rw [hf]
    exact h
  intro c s l h
  cases c with
  | go => exact hrows s h
  | fail => exact h
  | late => exact hrows s h

theorem keeps_insert (env : Env ν) (name t : Text) (createdAt : String) :
    Keeps (Act.insert (storeRow env name t createdAt)) := by
  intro c s l h
  cases hs : s.store.insert (storeRow env name t createdAt) with
  | none => cases c <;> simp only [Act.insert, hs] <;> exact h
  | some store =>
    have hstore := rowsOk_append h (Table.insert_eq_some.mp hs).2
    cases c with
    | go => simp only [Act.insert, hs]; exact hstore
    | fail => simp only [Act.insert]; exact h
    | late => simp only [Act.insert, hs]; exact hstore

theorem each_attempt {p : Code ν Unit} {rest : Code ν Bool} (hp : p.Each Keeps)
    (hrest : rest.Each Keeps) : (attempt p rest).Each Keeps := by
  refine hp.andThen fun r => ?_
  cases r with
  | ok u => exact hrest
  | error e => exact trivial

theorem each_ingestText (env : Env ν) (name t : Text) (metadata : List (Text × Value ν)) :
    (ingestText env name t metadata).Each Keeps := by
  have hembed : Keeps (Act.embed : Act ν Bool) := fun c _ _ h => by cases c <;> exact h
  refine (Prog.Each.perform hembed).bind fun found => ?_
  cases found with
  | false => exact trivial
  | true =>
    refine (Prog.Each.perform (keeps_effect fun _ => rfl)).bind fun _ => ?_
    have hnow : Keeps (Act.utcnow env) := fun _ _ _ h => h
    refine (Prog.Each.perform hnow).bind fun createdAt => ?_
    have hinsert := keeps_insert env name t createdAt
    refine each_attempt ?_ (each_attempt ?_ (each_attempt (Prog.Each.perform hinsert) trivial))
    · have hopen : ∀ path, Keeps (Act.openFile path : Act ν Unit) :=
        fun _ => keeps_effect fun _ => rfl
      refine (Prog.Each.perform (hopen _)).bind fun _ => ?_
      exact Prog.Each.perform (keeps_effect fun _ => rfl)
    · exact Prog.Each.perform (keeps_effect fun _ => rfl)

theorem each_pass [Python ν] (env : Env ν) : (pass env).Each Keeps := by
  have hread : ∀ name, Keeps (Act.readText name : Act ν (Option Text)) := by
    intro name c s l h
    cases c <;> exact h
  have hfile : ∀ name, (processFile env name).Each Keeps := by
    intro name
    refine (Prog.Each.perform (hread name)).bind fun content => ?_
    cases judge env name content with
    | skip => exact trivial
    | crash => exact trivial
    | ingest t metadata => exact each_ingestText env name t metadata
  have hfiles : ∀ names, (processFiles env names).Each Keeps := by
    intro names
    induction names with
    | nil => exact trivial
    | cons name names ih =>
      refine (hfile name).bind fun ok => ?_
      cases ok with
      | false => exact ih
      | true =>
        have hmove : Keeps (Act.move name : Act ν Unit) := keeps_effect fun _ => rfl
        have hmoveFile : (moveFile name : Code ν Unit).Each Keeps := by
          refine (Prog.Each.perform hmove).andThen fun _ => ?_
          exact trivial
        exact hmoveFile.bind fun _ => ih
  have hlist : Keeps (listFiles : Act ν (List Text)) := fun _ _ _ h => h
  exact (Prog.Each.perform (keeps_effect fun _ => rfl)).bind fun _ =>
    (Prog.Each.perform hlist).bind hfiles

/-- A pass keeps them, wherever it fails or crashes. -/
theorem rowsOk_runPass [Python ν] (env : Env ν) {s : Root ν} (h : RowsOk s)
    (moves : List (Move Choice)) : RowsOk (runPass env s moves).shared := by
  let C : Contract (Root ν) Unit := ⟨fun _ s s' => s' = s, fun s _ s' _ => RowsOk s → RowsOk s'⟩
  have hwp : wp C (pass env) (fun _ s _ => RowsOk s) s () := by
    refine wp_of_each (P := fun act => Keeps act) (J := fun s _ => RowsOk s) ?_ ?_ (each_pass env) h
    · rintro s s' l rfl h
      exact h
    · intro β act hact c s l h
      exact ⟨fun h => hact c s l h, hact c s l h⟩
  exact (wp_run (fun s l => (s, l)) (I := fun s _ => RowsOk s) (fun _ _ => rfl)
    (fun s _ s' _ (hg : RowsOk s → RowsOk s') h => hg h) (fun _ _ h => h) hwp h moves).1

end

/-! ## Passes -/

/-- A name matches one pattern at most, so that no file is listed twice. -/
theorem listing_nodup (incoming : Inbox) : (listing incoming).Nodup := by
  have hpatterns : patterns.Pairwise fun p q => ¬ p <:+ q ∧ ¬ q <:+ p := by decide
  unfold listing
  rw [List.nodup_flatMap]
  constructor
  · intro pattern _
    have hnames := incoming.nodup.filter fun name => pattern <:+ name
    exact (List.perm_insertionSort _ _).nodup_iff.mpr hnames
  · refine hpatterns.imp fun hpq => ?_
    intro name hp hq
    rw [List.mem_insertionSort, List.mem_filter] at hp hq
    rcases List.suffix_or_suffix_of_suffix (of_decide_eq_true hp.2) (of_decide_eq_true hq.2) with h | h
    · exact hpq.1 h
    · exact hpq.2 h

section

variable {ν : Type} [Python ν] (env : Env ν)

/-- Each file that is to be ingested is moved as it was, and its text has what it needs. -/
def Settled (s after : Root ν) : Prop :=
  ∀ name ∈ listing s.incoming, ∀ t metadata, verdict env s name = .ingest t metadata →
    after.incoming.find? name = none ∧
      after.processed.get? name = some ((s.incoming.find? name).bind File.content) ∧
      Agrees env after t

/-- A pass in which nothing fails settles the inbox. -/
def RetrySafe (s : Root ν) (moves : List (Move Choice)) : Prop :=
  Undisturbed moves → Settled env s (runPass env s moves).shared

/-- The inbox is ready where nothing fails in the pass. -/
def ReadyFor (s : Root ν) (moves : List (Move Choice)) : Prop :=
  Undisturbed moves → Ready env s (listing s.incoming)

theorem retrySafe_iff_readyFor {s : Root ν} (hok : RowsOk s) (moves : List (Move Choice)) :
    RetrySafe env s moves ↔ ReadyFor env s moves := by
  have hnodup := listing_nodup s.incoming
  refine forall_congr' fun hmoves => ?_
  rw [runPass_undisturbed env s hmoves, ← allMoved_iff hnodup]
  constructor
  · intro h name hname hc
    unfold chunkOf at hc
    cases hv : verdict env s name with
    | ingest t metadata => exact (h name hname t metadata hv).1
    | skip =>
      rw [hv] at hc
      exact absurd rfl hc
    | crash =>
      rw [hv] at hc
      exact absurd rfl hc
  · intro h name hname t metadata hv
    refine ⟨h name hname (by rw [chunkOf_ingest hv]; nofun), ?_⟩
    exact complete_of_ready hnodup hok ((allMoved_iff hnodup).mp h) name hname t metadata hv

/-- Passes one after the other, each after some files have arrived. -/
def Along (P : Root ν → List (Move Choice) → Prop) :
    Root ν → List (List File × List (Move Choice)) → Prop
  | _, [] => True
  | s, (files, moves) :: passes =>
    P (arrive s files) moves ∧ Along P (runPass env (arrive s files) moves).shared passes

end

/-! ## Examples -/

namespace Sample

/-- Floats as fractions, as in the vector store. -/
instance : Python Rat where
  half := mkRat 1 2
  isZero x := x = 0
  isFinite _ := true
  inUnit x := 0 ≤ x && x ≤ 1
  ofInt n := some n
  ofText _ := none
  repr _ := []

def env : Env Rat where
  loads _ := none
  dumps _ := []
  embed _ := [1]
  clock n := toString n
  incoming := "inbox"
  embeddings := "emb"

def file : File := { name := text "a.txt", content := some (text "hi") }

/-- Everything is written, and then the move fails. -/
def stuck : List (Move Choice) := List.replicate 10 (.go .go) ++ [.go .fail]

end Sample

end ProjectMaya.ContinuousIngest
