import ProjectMaya.Ingest
import ProjectMaya.Logic.Check

/-! # What runs of the ingestion pipeline leave behind

A run that succeeds has put every embedded chunk (`put`), in order; from this it is read off when
its paths are registered (`complete_iff`), and when a second run changes nothing
(`idempotent_iff`). -/

namespace ProjectMaya.Ingest

open Logic
open ProjectMaya.Registry (Metadata Entry Entries entryOf)

section

variable {ν : Type}

/-! ## A run that succeeds -/

/-- The entry of a chunk. -/
def embEntry (dir : String) (job : Job ν) (c : Chunk) (v : Option (List ν)) : Entry where
  chunkId := chunkId c
  embeddingPath := embPath dir (chunkId c)
  sourcePath := some (embObj job c v).sourcePath
  sourceHash := some (embObj job c v).sourceHash
  model := (embObj job c v).model
  provider := some (embObj job c v).provider
  vectorDim := v.map List.length
  extractorVersion := some (embObj job c v).extractorVersion
  embeddingTimestamp := some (embObj job c v).embeddingTimestamp

theorem entryOf_embMeta (dir : String) (job : Job ν) (c : Chunk) (v : Option (List ν)) :
    entryOf (embMeta dir job c v) = .ok (embEntry dir job c v) := rfl

/-- The storage after the chunk has been written. -/
def stored (dir : String) (job : Job ν) (s : Storage ν) (p : Chunk × Option (List ν)) : Storage ν :=
  let path := embPath dir (chunkId p.1)
  let temps := (s.temps.set path none).set path (some (embObj job p.1 p.2))
  { files := s.files.set path ((temps.get? path).getD none)
    temps := temps.filter fun t => t.1 ≠ path
    registry := s.registry.set (chunkId p.1) (embEntry dir job p.1 p.2)
    sqlite := if job.pipeline.dualWrite then s.sqlite.set (chunkId p.1) (embMeta dir job p.1 p.2)
      else s.sqlite }

/-- The chunk is skipped. -/
def Skips (dir : String) (job : Job ν) (s : Storage ν) (c : Chunk) : Prop :=
  ((s.files.get? (embPath dir (chunkId c))).isSome && !job.force) = true

instance (dir : String) (job : Job ν) (s : Storage ν) (c : Chunk) : Decidable (Skips dir job s c) :=
  inferInstanceAs (Decidable (_ = true))

theorem Skips.found {dir : String} {job : Job ν} {s : Storage ν} {c : Chunk}
    (h : Skips dir job s c) : (s.files.get? (embPath dir (chunkId c))).isSome = true :=
  (Bool.and_eq_true_iff.mp h).1

/-- What the turn of the loop for a chunk makes of the storage. -/
def put (dir : String) (job : Job ν) (s : Storage ν) (p : Chunk × Option (List ν)) : Storage ν :=
  if Skips dir job s p.1 then s else stored dir job s p

/-- Nobody else uses the storage root while a run goes on. -/
def solo : Contract (Storage ν) Unit where
  rely _ s s' := s' = s
  guar _ _ _ _ := True

theorem wp_effect {f : Storage ν → Storage ν} {Q : Unit → Storage ν → Unit → Prop} {s : Storage ν}
    (h : Q () (f s) ()) : wp solo (.perform (Act.effect f)) (Returns Q) s () := by
  refine wp_perform ?_
  rintro s' rfl c
  cases c with
  | go => exact ⟨trivial, .ok h⟩
  | fail => exact ⟨trivial, .error⟩
  | late => exact ⟨trivial, .error⟩

theorem wp_effect_bind {f : Storage ν → Storage ν} {α : Type} {k : Unit → Code ν α}
    {Q : α → Storage ν → Unit → Prop} {s : Storage ν} (h : wp solo (k ()) (Returns Q) (f s) ()) :
    wp solo (.perform (Act.effect f) >>= k) (Returns Q) s () := by
  refine returns_bind (wp_effect (Q := fun _ s' _ => s' = f s) rfl) ?_
  rintro _ s' _ rfl
  exact h

theorem wp_sqlite (dir : String) (job : Job ν) (c : Chunk) (v : Option (List ν)) {s : Storage ν} :
    wp solo (if job.pipeline.dualWrite then sqliteAddEntry (embMeta dir job c v) else pure ())
      (Returns fun _ s' _ => s' = { s with
        sqlite := if job.pipeline.dualWrite then s.sqlite.set (chunkId c) (embMeta dir job c v)
          else s.sqlite }) s () := by
  cases job.pipeline.dualWrite with
  | false => exact .ok rfl
  | true => exact wp_effect rfl

theorem wp_writeChunk (dir : String) (job : Job ν) (c : Chunk) (v : Option (List ν))
    {s : Storage ν} :
    wp solo (writeChunk dir job c v) (Returns fun _ s' _ => s' = stored dir job s (c, v)) s () := by
  refine wp_effect_bind (wp_effect_bind (wp_effect_bind ?_))
  unfold addEntry
  rw [entryOf_embMeta]
  exact wp_effect_bind (wp_mono (wp_sqlite dir job c v) fun _ _ _ h a ha => h a ha)

theorem wp_processChunk (dir : String) (job : Job ν) (p : Chunk × Option (List ν))
    {s : Storage ν} :
    wp solo (processChunk dir job p.1 p.2) (Returns fun path s' _ =>
      path = embPath dir (chunkId p.1) ∧ s' = put dir job s p) s () := by
  have hfound : wp solo (.perform (Act.fileExists (embPath dir (chunkId p.1))))
      (Returns fun found s' _ =>
        found = (s.files.get? (embPath dir (chunkId p.1))).isSome ∧ s' = s) s () := by
    refine wp_perform ?_
    rintro s' rfl c
    exact ⟨trivial, .ok ⟨rfl, rfl⟩⟩
  refine returns_bind hfound ?_
  rintro found s' ⟨⟩ ⟨rfl, rfl⟩
  unfold put
  by_cases h : Skips dir job s' p.1
  · rw [if_pos h, show (_ && _) = true from h]
    exact .ok ⟨rfl, rfl⟩
  · rw [if_neg h, show (_ && _) = false from Bool.not_eq_true _ ▸ h]
    exact returns_bind (wp_writeChunk dir job p.1 p.2) fun _ s' _ hs => .ok ⟨rfl, hs⟩

theorem wp_processChunks (dir : String) (job : Job ν) (pairs : List (Chunk × Option (List ν)))
    {s : Storage ν} :
    wp solo (processChunks dir job pairs) (Returns fun paths s' _ =>
      paths = pairs.map (fun p => embPath dir (chunkId p.1)) ∧
        s' = pairs.foldl (put dir job) s) s () := by
  induction pairs generalizing s with
  | nil => exact .ok ⟨rfl, rfl⟩
  | cons p pairs ih =>
    refine returns_bind (wp_processChunk dir job p) ?_
    rintro path s' ⟨⟩ ⟨rfl, rfl⟩
    refine returns_bind ih ?_
    rintro paths s' ⟨⟩ ⟨rfl, rfl⟩
    exact .ok ⟨rfl, rfl⟩

/-- **A run that succeeds** has put the embedded chunks, and returns their paths. -/
theorem ingest_ok {dir : String} {s : Storage ν} {job : Job ν} {moves : List (Move Choice)}
    {paths : List String} (h : (ingest dir s job moves).result = some (.ok paths)) :
    ∃ pairs, embedded job = .ok pairs ∧ paths = pairs.map (fun p => embPath dir (chunkId p.1)) ∧
      (ingest dir s job moves).shared = pairs.foldl (put dir job) s := by
  have hwp : wp solo (processFile dir job) (Returns fun paths s' _ => ∃ pairs, embedded job = .ok pairs ∧
      paths = pairs.map (fun p => embPath dir (chunkId p.1)) ∧
        s' = pairs.foldl (put dir job) s) s () := by
    refine wp_effect_bind ?_
    cases hpairs : embedded job with
    | error e => exact .error
    | ok pairs =>
      refine wp_mono (wp_processChunks dir job pairs) fun r s' l hr => ?_
      rintro paths rfl
      exact ⟨pairs, rfl, hr paths rfl⟩
  have hrun := wp_run (fun s l => (s, l)) (I := fun _ _ => True) (fun _ _ => rfl)
    (fun _ _ _ _ _ _ => trivial) (fun _ _ _ => trivial) hwp trivial moves
  exact hrun.2 _ h paths rfl

/-! ## Registered paths -/

/-- The chunk has its entry in the JSON registry and, with `dual`, the same in the SQLite one. -/
def Registered (dual : Bool) (s : Storage ν) (id path : String) : Prop :=
  ∃ e, s.registry.get? id = some e ∧ e.chunkId = id ∧ e.embeddingPath = path ∧
    (dual = true → ∃ m, s.sqlite.get? id = some m ∧ entryOf m = .ok e)

/-- The chunk of a path is registered. -/
def Entered (dir : String) (job : Job ν) (s : Storage ν) (c : Chunk) : Prop :=
  Registered job.pipeline.dualWrite s (chunkId c) (embPath dir (chunkId c))

theorem entered_stored (dir : String) (job : Job ν) (s : Storage ν) (p : Chunk × Option (List ν)) :
    Entered dir job (stored dir job s p) p.1 := by
  refine ⟨embEntry dir job p.1 p.2, Assoc.get?_set_self _ _ _, rfl, rfl, fun hdual => ?_⟩
  refine ⟨embMeta dir job p.1 p.2, ?_, entryOf_embMeta dir job p.1 p.2⟩
  show (if job.pipeline.dualWrite = true then _ else _ : Assoc String Metadata).get? _ = _
  rw [if_pos hdual]
  exact Assoc.get?_set_self _ _ _

/-- The registries keep what they hold of the other chunks. -/
theorem get?_stored_ne (dir : String) (job : Job ν) (s : Storage ν) {p : Chunk × Option (List ν)}
    {id : String} (h : id ≠ chunkId p.1) :
    (stored dir job s p).registry.get? id = s.registry.get? id ∧
      (stored dir job s p).sqlite.get? id = s.sqlite.get? id := by
  refine ⟨Assoc.get?_set_ne _ _ h, ?_⟩
  show (if job.pipeline.dualWrite = true then _ else _ : Assoc String Metadata).get? _ = _
  split
  · exact Assoc.get?_set_ne _ _ h
  · rfl

theorem entered_put {dir : String} {job : Job ν} {s : Storage ν} {c : Chunk}
    (p : Chunk × Option (List ν)) (h : Entered dir job s c) : Entered dir job (put dir job s p) c := by
  unfold put
  by_cases hskip : Skips dir job s p.1
  · rw [if_pos hskip]
    exact h
  · rw [if_neg hskip]
    by_cases hid : chunkId c = chunkId p.1
    · unfold Entered
      rw [hid]
      exact entered_stored dir job s p
    · obtain ⟨hregistry, hsqlite⟩ := get?_stored_ne dir job s (p := p) hid
      unfold Entered Registered
      rw [hregistry, hsqlite]
      exact h

/-- A chunk that is skipped stays so, and what the registries hold of it stays. -/
theorem put_of_skips {dir : String} {job : Job ν} {s : Storage ν} {c : Chunk}
    (p : Chunk × Option (List ν)) (h : Skips dir job s c) :
    Skips dir job (put dir job s p) c ∧
      (Entered dir job (put dir job s p) c → Entered dir job s c) := by
  unfold put
  by_cases hskip : Skips dir job s p.1
  · rw [if_pos hskip]
    exact ⟨h, id⟩
  · rw [if_neg hskip]
    have hid : chunkId c ≠ chunkId p.1 := by
      intro hid
      unfold Skips at h hskip
      rw [hid] at h
      exact hskip h
    have hpath : embPath dir (chunkId c) ≠ embPath dir (chunkId p.1) := fun he => hid (embPath_inj he)
    constructor
    · unfold Skips
      show (((s.files.set _ _).get? _).isSome && !job.force) = true
      rw [Assoc.get?_set_ne _ _ hpath]
      exact h
    · obtain ⟨hregistry, hsqlite⟩ := get?_stored_ne dir job s (p := p) hid
      unfold Entered Registered
      rw [hregistry, hsqlite]
      exact id

/-- Who is skipped only after the turn for `p` has been registered by it. -/
theorem entered_of_skips_put {dir : String} {job : Job ν} {s : Storage ν} {c : Chunk}
    {p : Chunk × Option (List ν)} (h : Skips dir job s c → Entered dir job s c)
    (hskip : Skips dir job (put dir job s p) c) : Entered dir job (put dir job s p) c := by
  by_cases hc : Skips dir job s c
  · exact entered_put p (h hc)
  · unfold put at hskip ⊢
    by_cases hp : Skips dir job s p.1
    · rw [if_pos hp] at hskip
      exact absurd hskip hc
    · rw [if_neg hp] at hskip ⊢
      by_cases hid : chunkId c = chunkId p.1
      · unfold Entered
        rw [hid]
        exact entered_stored dir job s p
      · have hpath : embPath dir (chunkId c) ≠ embPath dir (chunkId p.1) :=
          fun he => hid (embPath_inj he)
        refine absurd ?_ hc
        unfold Skips at hskip ⊢
        have hget : (stored dir job s p).files.get? (embPath dir (chunkId c)) =
            s.files.get? (embPath dir (chunkId c)) := Assoc.get?_set_ne _ _ hpath
        rw [hget] at hskip
        exact hskip

theorem entered_foldl {dir : String} {job : Job ν} {pairs : List (Chunk × Option (List ν))}
    {s : Storage ν} (h : ∀ p ∈ pairs, Skips dir job s p.1 → Entered dir job s p.1) :
    ∀ p ∈ pairs, Entered dir job (pairs.foldl (put dir job) s) p.1 := by
  have hkeep : ∀ (pairs : List (Chunk × Option (List ν))) (s : Storage ν) (c : Chunk),
      Entered dir job s c → Entered dir job (pairs.foldl (put dir job) s) c := by
    intro pairs
    induction pairs with
    | nil => exact fun _ _ h => h
    | cons p pairs ih => exact fun s c h => ih _ c (entered_put p h)
  induction pairs generalizing s with
  | nil => nofun
  | cons q pairs ih =>
    intro p hp
    rcases List.mem_cons.mp hp with rfl | hp
    · refine hkeep pairs _ _ ?_
      unfold put
      by_cases hskip : Skips dir job s p.1
      · rw [if_pos hskip]
        exact h p List.mem_cons_self hskip
      · rw [if_neg hskip]
        exact entered_stored dir job s p
    · refine ih (fun r hr => ?_) p hp
      exact entered_of_skips_put (h r (List.mem_cons_of_mem q hr))

theorem skips_foldl {dir : String} {job : Job ν} {pairs : List (Chunk × Option (List ν))}
    {s : Storage ν} {c : Chunk} (h : Skips dir job s c)
    (he : Entered dir job (pairs.foldl (put dir job) s) c) : Entered dir job s c := by
  induction pairs generalizing s with
  | nil => exact he
  | cons p pairs ih =>
    obtain ⟨hskips, hback⟩ := put_of_skips p h
    exact hback (ih hskips he)

/-! ## When the paths of a run are registered -/

/-- Every path that the run returns, if it succeeds, belongs to a chunk that is registered. -/
def Complete (dir : String) (s : Storage ν) (job : Job ν) (moves : List (Move Choice)) : Prop :=
  ∀ paths, (ingest dir s job moves).result = some (.ok paths) → ∀ path ∈ paths,
    ∃ id, path = embPath dir id ∧
      Registered job.pipeline.dualWrite (ingest dir s job moves).shared id path

/-- The chunks that the run skips, if it succeeds, are registered when it begins. -/
def Tidy (dir : String) (s : Storage ν) (job : Job ν) (moves : List (Move Choice)) : Prop :=
  ∀ paths pairs, (ingest dir s job moves).result = some (.ok paths) → embedded job = .ok pairs →
    ∀ p ∈ pairs, Skips dir job s p.1 → Entered dir job s p.1

theorem complete_iff_tidy (dir : String) (s : Storage ν) (job : Job ν) (moves : List (Move Choice)) :
    Complete dir s job moves ↔ Tidy dir s job moves := by
  constructor
  · intro h paths pairs hok hpairs p hp hskip
    obtain ⟨pairs', hpairs', rfl, hshared⟩ := ingest_ok hok
    rw [hpairs] at hpairs'
    cases hpairs'
    obtain ⟨id, hid, hreg⟩ := h _ hok _ (List.mem_map_of_mem hp)
    rw [← embPath_inj hid, hshared] at hreg
    exact skips_foldl hskip hreg
  · intro h paths hok path hpath
    obtain ⟨pairs, hpairs, rfl, hshared⟩ := ingest_ok hok
    obtain ⟨p, hp, rfl⟩ := List.mem_map.mp hpath
    refine ⟨chunkId p.1, rfl, ?_⟩
    rw [hshared]
    exact entered_foldl (h _ pairs hok hpairs) p hp

/-- A sequence of runs on one storage root; each may be cut short. -/
def Along (dir : String) (P : Storage ν → Job ν → List (Move Choice) → Prop) :
    Storage ν → List (Job ν × List (Move Choice)) → Prop
  | _, [] => True
  | s, (job, moves) :: runs => P s job moves ∧ Along dir P (ingest dir s job moves).shared runs

/-- In a sequence of runs, the paths that the successful ones return are registered exactly when
what these skipped was registered before. -/
theorem complete_iff (dir : String) (s : Storage ν) (runs : List (Job ν × List (Move Choice))) :
    Along dir (Complete dir) s runs ↔ Along dir (Tidy dir) s runs := by
  induction runs generalizing s with
  | nil => exact Iff.rfl
  | cons run runs ih =>
    obtain ⟨job, moves⟩ := run
    exact and_congr (complete_iff_tidy dir s job moves) (ih _)

/-! ## Runs that are not cut short -/

/-- Every embedding file has its entries. -/
def Ledger (dir : String) (dual : Bool) (s : Storage ν) : Prop :=
  ∀ id, (s.files.get? (embPath dir id)).isSome = true → Registered dual s id (embPath dir id)

theorem ledger_put {dir : String} {job : Job ν} {s : Storage ν} (p : Chunk × Option (List ν))
    (h : Ledger dir job.pipeline.dualWrite s) :
    Ledger dir job.pipeline.dualWrite (put dir job s p) := by
  unfold put
  by_cases hskip : Skips dir job s p.1
  · rw [if_pos hskip]
    exact h
  · rw [if_neg hskip]
    intro id hfile
    by_cases hid : id = chunkId p.1
    · rw [hid]
      exact entered_stored dir job s p
    · have hget : (stored dir job s p).files.get? (embPath dir id) = s.files.get? (embPath dir id) :=
        Assoc.get?_set_ne _ _ fun he => hid (embPath_inj he)
      rw [hget] at hfile
      obtain ⟨hregistry, hsqlite⟩ := get?_stored_ne dir job s (p := p) hid
      unfold Registered
      rw [hregistry, hsqlite]
      exact h id hfile

/-- The run succeeds, and writes to the SQLite registry where `dual` says so. -/
def Succeeds (dual : Bool) (dir : String) (s : Storage ν) (job : Job ν) (moves : List (Move Choice)) :
    Prop :=
  job.pipeline.dualWrite = dual ∧ ∃ paths, (ingest dir s job moves).result = some (.ok paths)

theorem ledger_ingest {dir : String} {dual : Bool} {s : Storage ν} {job : Job ν}
    {moves : List (Move Choice)} (h : Ledger dir dual s) (hok : Succeeds dual dir s job moves) :
    Ledger dir dual (ingest dir s job moves).shared := by
  obtain ⟨rfl, paths, hpaths⟩ := hok
  obtain ⟨pairs, -, -, hshared⟩ := ingest_ok hpaths
  rw [hshared]
  clear hshared hpaths
  induction pairs generalizing s with
  | nil => exact h
  | cons p pairs ih => exact ih (ledger_put p h)

/-- Where all runs succeed with the same `dual_write`, all their paths are registered. -/
theorem complete_of_succeeds {dir : String} {dual : Bool} {s : Storage ν}
    {runs : List (Job ν × List (Move Choice))} (h : Ledger dir dual s)
    (hruns : Along dir (Succeeds dual dir) s runs) : Along dir (Complete dir) s runs := by
  rw [complete_iff]
  induction runs generalizing s with
  | nil => exact trivial
  | cons run runs ih =>
    obtain ⟨job, moves⟩ := run
    obtain ⟨hrun, hruns⟩ := hruns
    refine ⟨?_, ih (ledger_ingest h hrun) hruns⟩
    rintro paths pairs - - p - hskip
    unfold Entered
    rw [hrun.1]
    exact h _ hskip.found

/-! ## A second run -/

/-- What differs when a file is ingested once more: the ids that `uuid4` makes, the times, and what
the backend returns. -/
structure Draws (ν : Type) where
  uuid : Nat → String
  started : String
  vectors : Except Exn (List (Option (List ν)))
  now : String

/-- The same call once more, without `force`, the file being unchanged. -/
def Job.again (job : Job ν) (d : Draws ν) : Job ν :=
  { job with
    force := false
    reading := job.reading.map fun r => { r with now := d.started, uuid := d.uuid }
    vectors := d.vectors
    now := d.now }

/-- The ids of the chunks that a run embeds. -/
def drawnIds (job : Job ν) : Except Exn (List String) :=
  (embedded job).map fun pairs => pairs.map fun p => chunkId p.1

/-- A second run returns the paths that the first has returned, and changes nothing. -/
def Idempotent (dir : String) (s : Storage ν) (job : Job ν) (d : Draws ν) : Prop :=
  ∀ paths, (ingest dir s job []).result = some (.ok paths) →
    (ingest dir (ingest dir s job []).shared (job.again d) []).result = some (.ok paths) ∧
      (ingest dir (ingest dir s job []).shared (job.again d) []).shared = (ingest dir s job []).shared

theorem calm_processChunk (dir : String) (job : Job ν) (p : Chunk × Option (List ν))
    (s : Storage ν) : (processChunk dir job p.1 p.2).calm s () =
      (.ok (embPath dir (chunkId p.1)), put dir job s p, ()) := by
  have hwrite : (writeChunk dir job p.1 p.2).calm s () = (.ok (), stored dir job s p, ()) := by
    unfold writeChunk stored addEntry
    rw [entryOf_embMeta]
    cases job.pipeline.dualWrite <;> rfl
  have hfound : (.perform (Act.fileExists (embPath dir (chunkId p.1))) : Code ν Bool).calm s () =
      (.ok (s.files.get? (embPath dir (chunkId p.1))).isSome, s, ()) := rfl
  unfold processChunk put
  rw [Prog.calm_bind_ok hfound]
  by_cases h : Skips dir job s p.1
  · rw [if_pos h, show (_ && _) = true from h]
    rfl
  · rw [if_neg h, show (_ && _) = false from Bool.not_eq_true _ ▸ h]
    exact (Prog.calm_bind_ok hwrite).trans rfl

theorem calm_processChunks (dir : String) (job : Job ν) (pairs : List (Chunk × Option (List ν)))
    (s : Storage ν) : (processChunks dir job pairs).calm s () =
      (.ok (pairs.map fun p => embPath dir (chunkId p.1)), pairs.foldl (put dir job) s, ()) := by
  induction pairs generalizing s with
  | nil => rfl
  | cons p pairs ih =>
    unfold processChunks
    rw [Prog.calm_bind_ok (calm_processChunk dir job p s), Prog.calm_bind_ok (ih _)]
    rfl

/-- A run that nothing disturbs succeeds where the chunks can be embedded. -/
theorem ingest_nil (dir : String) (s : Storage ν) {job : Job ν}
    {pairs : List (Chunk × Option (List ν))} (h : embedded job = .ok pairs) :
    ingest dir s job [] =
      ⟨some (.ok (pairs.map fun p => embPath dir (chunkId p.1))), pairs.foldl (put dir job) s, ()⟩ := by
  have hcalm : (processFile dir job).calm s () =
      (.ok (pairs.map fun p => embPath dir (chunkId p.1)), pairs.foldl (put dir job) s, ()) := by
    have hprepare : (.perform Act.prepare : Code ν Unit).calm s () = (.ok (), s, ()) := rfl
    unfold processFile
    rw [Prog.calm_bind_ok hprepare, h]
    exact calm_processChunks dir job pairs s
  unfold ingest
  rw [Prog.run_nil, hcalm]

theorem isSome_put {dir : String} {job : Job ν} {s : Storage ν} {path : String}
    (p : Chunk × Option (List ν)) (h : (s.files.get? path).isSome = true) :
    ((put dir job s p).files.get? path).isSome = true := by
  unfold put
  by_cases hskip : Skips dir job s p.1
  · rw [if_pos hskip]
    exact h
  · rw [if_neg hskip]
    show ((s.files.set _ _).get? path).isSome = true
    rw [Assoc.get?_set]
    split
    · rfl
    · exact h

theorem isSome_put_self (dir : String) (job : Job ν) (s : Storage ν) (p : Chunk × Option (List ν)) :
    ((put dir job s p).files.get? (embPath dir (chunkId p.1))).isSome = true := by
  unfold put
  by_cases hskip : Skips dir job s p.1
  · rw [if_pos hskip]
    exact hskip.found
  · rw [if_neg hskip]
    show ((s.files.set _ _).get? _).isSome = true
    rw [Assoc.get?_set_self]
    rfl

/-- After a run the files of its chunks are there. -/
theorem isSome_foldl (dir : String) (job : Job ν) (pairs : List (Chunk × Option (List ν)))
    (s : Storage ν) {path : String}
    (h : (s.files.get? path).isSome = true ∨ path ∈ pairs.map fun p => embPath dir (chunkId p.1)) :
    ((pairs.foldl (put dir job) s).files.get? path).isSome = true := by
  induction pairs generalizing s with
  | nil =>
    rcases h with h | h
    · exact h
    · cases h
  | cons p pairs ih =>
    refine ih _ ?_
    rcases h with h | h
    · exact .inl (isSome_put p h)
    · rcases List.mem_cons.mp h with rfl | h
      · exact .inl (isSome_put_self dir job s p)
      · exact .inr h

/-- Where all files are there, nothing is written without `force`. -/
theorem foldl_put_eq_self {dir : String} {job : Job ν} {pairs : List (Chunk × Option (List ν))}
    {s : Storage ν} (hforce : job.force = false)
    (h : ∀ path ∈ pairs.map fun p => embPath dir (chunkId p.1), (s.files.get? path).isSome = true) :
    pairs.foldl (put dir job) s = s := by
  induction pairs with
  | nil => rfl
  | cons p pairs ih =>
    have hskip : Skips dir job s p.1 := by
      unfold Skips
      rw [h _ List.mem_cons_self, hforce]
      rfl
    have hput : put dir job s p = s := if_pos hskip
    rw [List.foldl_cons, hput]
    exact ih fun path hpath => h path (List.mem_cons_of_mem _ hpath)

theorem embPaths_inj {dir : String} {ids ids' : List String}
    (h : ids.map (embPath dir) = ids'.map (embPath dir)) : ids = ids' :=
  List.map_injective_iff.mpr (fun _ _ => embPath_inj) h

/-- Ingesting a file once more returns the same paths and changes nothing exactly when the second
run draws the ids that the first one has drawn. -/
theorem idempotent_iff (dir : String) (s : Storage ν) (job : Job ν) (d : Draws ν) :
    Idempotent dir s job d ↔
      ∀ ids, drawnIds job = .ok ids → drawnIds (job.again d) = .ok ids := by
  have hpaths : ∀ pairs : List (Chunk × Option (List ν)),
      (pairs.map fun p => embPath dir (chunkId p.1)) =
        (pairs.map fun p => chunkId p.1).map (embPath dir) := by
    intro pairs
    rw [List.map_map]
    rfl
  cases hpairs : embedded job with
  | error e =>
    have hids : drawnIds job = .error e := by
      unfold drawnIds
      rw [hpairs]
      rfl
    constructor
    · intro _ ids h
      rw [hids] at h
      cases h
    · intro _ paths hok
      obtain ⟨pairs, hok, -⟩ := ingest_ok hok
      rw [hpairs] at hok
      cases hok
  | ok pairs =>
    have hids : drawnIds job = .ok (pairs.map fun p => chunkId p.1) := by
      unfold drawnIds
      rw [hpairs]
      rfl
    have hfirst := ingest_nil dir s hpairs
    unfold Idempotent
    rw [hids, hfirst]
    constructor
    · rintro h ids ⟨⟩
      obtain ⟨hok, -⟩ := h _ rfl
      obtain ⟨pairs', hpairs', heq, -⟩ := ingest_ok hok
      rw [hpaths, hpaths] at heq
      unfold drawnIds
      rw [hpairs', embPaths_inj heq]
      rfl
    · rintro h paths ⟨⟩
      have hagain := h _ rfl
      unfold drawnIds at hagain
      cases hpairs' : embedded (job.again d) with
      | error e =>
        rw [hpairs'] at hagain
        cases hagain
      | ok pairs' =>
        rw [hpairs'] at hagain
        have heq : (pairs'.map fun p => chunkId p.1) = pairs.map fun p => chunkId p.1 :=
          Except.ok.inj hagain
        rw [ingest_nil dir _ hpairs', hpaths, hpaths, heq]
        refine ⟨rfl, foldl_put_eq_self rfl fun path hpath => ?_⟩
        refine isSome_foldl dir job pairs s (.inr ?_)
        rw [hpaths, ← heq, ← hpaths]
        exact hpath

theorem drawnIds_eq_ok {job : Job ν} {ids : List String} (h : drawnIds job = .ok ids) :
    ∃ chunks vectors, chunkFile job.path job.reading job.maxChars (version job) = .ok chunks ∧
      ids = (chunks.zip vectors).map fun p : Chunk × Option (List ν) => chunkId p.1 := by
  unfold drawnIds at h
  cases hpairs : embedded job with
  | error e =>
    rw [hpairs] at h
    cases h
  | ok pairs =>
    rw [hpairs] at h
    unfold embedded at hpairs
    simp only [bind_eq_ok, pure_eq_ok] at hpairs
    obtain ⟨chunks, hchunks, vectors, -, rfl⟩ := hpairs
    refine ⟨chunks, vectors, ?_, (Except.ok.inj h).symm⟩
    cases hfile : chunkFile job.path job.reading job.maxChars (version job) with
    | error e =>
      rw [hfile] at hchunks
      cases hchunks
    | ok chunks' =>
      rw [hfile] at hchunks
      have hok : (.ok chunks' : Except Exn (List Chunk)) = .ok chunks := hchunks
      rw [Except.ok.inj hok]

theorem head_drawnIds {job : Job ν} {r : Reading} (hr : job.reading = some r) (hne : r.uuid 0 ≠ "")
    {id : String} {ids : List String} (h : drawnIds job = .ok (id :: ids)) : id = r.uuid 0 := by
  obtain ⟨chunks, vectors, hchunks, hids⟩ := drawnIds_eq_ok h
  unfold chunkFile at hchunks
  rw [hr] at hchunks
  cases hspans : chunkText r.text job.maxChars with
  | error e =>
    simp only [hspans] at hchunks
    cases hchunks
  | ok spans =>
    simp only [hspans] at hchunks
    have hlist := Except.ok.inj hchunks
    cases spans with
    | nil =>
      subst hlist
      cases hids
    | cons s spans =>
      rw [List.mapIdx_cons] at hlist
      subst hlist
      cases vectors with
      | nil => cases hids
      | cons v vectors =>
        have hhead : id = chunkId _ := (List.cons.inj hids).1
        rw [hhead]
        exact if_neg hne

/-- As `uuid4` does not make an id twice, that is only so where nothing is embedded. -/
theorem idempotent_iff_of_fresh (dir : String) (s : Storage ν) (job : Job ν) (d : Draws ν)
    {r : Reading} (hr : job.reading = some r) (hne : r.uuid 0 ≠ "") (hd : d.uuid 0 ≠ "")
    (hfresh : d.uuid 0 ≠ r.uuid 0) :
    Idempotent dir s job d ↔
      ∀ ids, drawnIds job = .ok ids → ids = [] ∧ drawnIds (job.again d) = .ok [] := by
  rw [idempotent_iff]
  refine forall₂_congr fun ids hids => ?_
  constructor
  · intro hagain
    cases ids with
    | nil => exact ⟨rfl, hagain⟩
    | cons id ids =>
      have hfirst := head_drawnIds hr hne hids
      have hreading : (job.again d).reading = some { r with now := d.started, uuid := d.uuid } := by
        unfold Job.again
        rw [hr]
        rfl
      have hsecond := head_drawnIds hreading hd hagain
      exact absurd (hsecond.symm.trans hfirst) hfresh
  · rintro ⟨rfl, hagain⟩
    exact hagain

end

namespace Sample

def reading (uuid : Nat → String) : Reading where
  text := "Hi.".toList
  abspath := "/in/a.txt"
  now := "2024-01-01T00:00:00+00:00"
  uuid := uuid

/-- A file with one chunk; floats are texts here. -/
def job (uuid : Nat → String) : Job String where
  pipeline := { backend := "mock", model := none, dualWrite := false }
  path := "a.txt"
  reading := some (reading uuid)
  vectors := .ok [some ["3.0", "0.0", "0.0"]]
  now := "2024-01-01T00:00:01+00:00"

/-- The id of the chunk is the hash of its text. -/
def derived : Job String := job fun _ => ""

/-- The run crashes after the embedding file has been replaced. -/
def cut : List (Move Choice) := List.replicate 5 (.go .go) ++ [.crash]

/-- The next run returns the path of the file that it finds, and the registry stays empty. -/
theorem cut_incomplete : ¬ Along "emb" (Complete "emb") {} [(derived, cut), (derived, [])] := by
  rintro ⟨-, h, -⟩
  have hrun : (ingest "emb" (ingest "emb" {} derived cut).shared derived []).result =
      some (.ok [embPath "emb" (computeChunkId "Hi.".toList)]) := by decide +kernel
  have hregistry : (ingest "emb" (ingest "emb" {} derived cut).shared derived []).shared.registry =
      [] := by decide +kernel
  obtain ⟨id, -, e, he, -⟩ := h _ hrun _ (List.mem_singleton_self _)
  rw [hregistry] at he
  cases he

/-- Each run makes a new id. -/
def draws : Draws String where
  uuid := fun _ => "5b4a"
  started := "2024-01-02T00:00:00+00:00"
  vectors := .ok [some ["3.0", "0.0", "0.0"]]
  now := "2024-01-02T00:00:01+00:00"

theorem not_idempotent : ¬ Idempotent "emb" {} (job fun _ => "91c7") draws := by
  intro h
  have hfirst : (ingest "emb" {} (job fun _ => "91c7") []).result = some (.ok ["emb/91c7.json"]) := by
    decide +kernel
  have hsecond : (ingest "emb" (ingest "emb" {} (job fun _ => "91c7") []).shared
      ((job fun _ => "91c7").again draws) []).result = some (.ok ["emb/5b4a.json"]) := by
    decide +kernel
  obtain ⟨hok, -⟩ := h _ hfirst
  rw [hsecond] at hok
  exact absurd hok (by decide)

end Sample

end ProjectMaya.Ingest
