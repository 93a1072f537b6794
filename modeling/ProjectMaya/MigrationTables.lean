import ProjectMaya.Migration

/-! # The two tables of the registry

An entry with a vector has a row in `embeddings`, with the hash of the value that the vector was
made of.  A migration keeps it so, but for one case: with `overwrite` an entry that had a vector is
replaced by one that has none, and the row in `embeddings` stays (`inStep_iff`). -/

namespace ProjectMaya.Migration

open Logic Logic.Pager
open Logic.JsonRead (FloatText chars)

section

variable {P ν : Type}

/-- There is a row in `embeddings` exactly when the entry has a vector. -/
def InStep (t : Tables ν) (key : List Char) : Prop :=
  (∃ embedding, t.embeddings.find? key = some embedding) ↔
    ∃ entry, t.entries.find? key = some entry ∧ entry.vector.isSome = true

/-- The keys that are migrated: those of the source that are not skipped. -/
def Migrates (env : Env P ν) (overwrite : Bool) (rows : List (Row ν)) (t : Tables ν)
    (key : List Char) : Prop :=
  (∃ row ∈ rows, env.str row.key = key) ∧ (overwrite = true ∨ t.entries.find? key = none)

variable [FloatText ν]

/-- The hash in the row is that of the value of which the entry was made. -/
def Hashed (env : Env P ν) (source : JsonRead.Text) (t : Tables ν) (key : List Char) : Prop :=
  ∀ embedding, t.embeddings.find? key = some embedding →
    ∃ row ∈ env.rows, ∃ entry, t.entries.find? key = some entry ∧ MadeOf env source row entry ∧
      embedding.sourceHash = (decodeLegacy env row.value).2

/-- The value of the row is a vector. -/
def HasVector (env : Env P ν) (row : Row ν) : Prop :=
  ∃ items, numericVector (decodeLegacy env row.value).1 = some items

/-- Where the last row of a key has no vector, none was there before: not in the destination, and
not in another row of that key. -/
def NoneStale (env : Env P ν) (t : Tables ν) : Prop :=
  ∀ key row, env.rows.reverse.find? (fun row => env.str row.key = key) = some row →
    ¬ HasVector env row → t.embeddings.find? key = none ∧
      ∀ other ∈ env.rows, env.str other.key = key → ¬ HasVector env other

/-! ## One row -/

theorem not_hasVector {env : Env P ν} {row : Row ν} (h : ¬ HasVector env row) :
    numericVector (decodeLegacy env row.value).1 = none := by
  rw [Option.eq_none_iff_forall_ne_some]
  intro items hitems
  exact h ⟨items, hitems⟩

/-- What an inserted row leaves under its key. -/
structure Inserted (env : Env P ν) (source : JsonRead.Text) (overwrite : Bool) (key : List Char)
    (value : Legacy ν) (t t' : Tables ν) : Prop where
  entry : ∃ entry, entry.embeddingId = key ∧
    Stored source (decodeLegacy env value).2 (decodeLegacy env value).1 entry ∧
    ∀ k, t'.entries.find? k = if k = key then some entry else t.entries.find? k
  other : ∀ k, k ≠ key → t'.embeddings.find? k = t.embeddings.find? k
  noVector : numericVector (decodeLegacy env value).1 = none → t'.embeddings = t.embeddings
  vector : numericVector (decodeLegacy env value).1 ≠ none →
    (overwrite = true ∨ t.embeddings.find? key = none) →
    ∃ embedding, t'.embeddings.find? key = some embedding ∧
      embedding.sourceHash = (decodeLegacy env value).2

theorem find?_getD_insert (t : Table Embedding (List Char) Embedding.chunkId) (r : Embedding)
    (k : List Char) : ((t.insert r).getD t).find? k =
      if k = r.chunkId ∧ t.find? r.chunkId = none then some r else t.find? k := by
  cases h : t.insert r with
  | some u =>
    have habsent : t.find? r.chunkId = none := Table.find?_eq_none.2 (Table.insert_eq_some.1 h).1
    show u.find? k = _
    rw [Table.find?_insert h, habsent]
    simp only [and_true]
  | none =>
    obtain ⟨x, hx, hk⟩ := Table.insert_eq_none.1 h
    have hthere : t.find? r.chunkId = some x := Table.find?_eq_some.2 ⟨hx, hk⟩
    rw [hthere, if_neg (fun h => by cases h.2)]
    rfl

theorem find?_written {overwrite : Bool} {t entries : Table Entry (List Char) Entry.embeddingId}
    {entry : Entry} (hdo : overwrite = true ∨ t.find? entry.embeddingId = none)
    (h : (if overwrite = true then pure (t.replace entry)
      else fetch (t.insert entry) Failure.integrityError) = .ok entries) (k : List Char) :
    entries.find? k = if k = entry.embeddingId then some entry else t.find? k := by
  cases overwrite with
  | true =>
    rw [if_pos rfl, pure_eq_ok] at h
    rw [← h]
    exact Table.find?_replace k
  | false =>
    rw [if_neg Bool.false_ne_true, fetch_eq_ok] at h
    exact Table.find?_insert h k

/-- The two statements for an entry that is made of the value. -/
theorem inserted_of_written {env : Env P ν} {source : JsonRead.Text} (overwrite : Bool)
    {key : List Char} {value : Legacy ν} {t t' : Tables ν} {entry : Entry} {embedding : Embedding}
    (hkey : entry.embeddingId = key) (hdo : overwrite = true ∨ t.entries.find? key = none)
    (hstored : Stored source (decodeLegacy env value).2 (decodeLegacy env value).1 entry)
    (hchunk : embedding.chunkId = key)
    (hhash : embedding.sourceHash = (decodeLegacy env value).2)
    (hentries : (if overwrite = true then pure (t.entries.replace entry)
      else fetch (t.entries.insert entry) Failure.integrityError) = .ok t'.entries)
    (hembeddings : t'.embeddings =
      if (numericVector (decodeLegacy env value).1).isNone = true then t.embeddings
      else if overwrite = true then t.embeddings.replace embedding
      else (t.embeddings.insert embedding).getD t.embeddings) :
    Inserted env source overwrite key value t t' where
  entry := by
    subst hkey
    exact ⟨entry, rfl, hstored, find?_written hdo hentries⟩
  other := by
    intro k hk
    rw [hembeddings]
    cases numericVector (decodeLegacy env value).1 with
    | none => rfl
    | some items =>
      rw [← hchunk] at hk
      cases overwrite with
      | true => exact (Table.find?_replace k).trans (if_neg hk)
      | false => exact (find?_getD_insert _ _ k).trans (if_neg fun h => hk h.1)
  noVector := by
    intro hnone
    rw [hembeddings, hnone]
    rfl
  vector := by
    intro hsome hfree
    rw [hembeddings, ← hchunk]
    cases hitems : numericVector (decodeLegacy env value).1 with
    | none => exact absurd hitems hsome
    | some items =>
      refine ⟨embedding, ?_, hhash⟩
      cases overwrite with
      | true => exact (Table.find?_replace _).trans (if_pos rfl)
      | false =>
        refine (find?_getD_insert _ _ _).trans (if_pos ⟨rfl, ?_⟩)
        rw [hchunk]
        exact hfree.resolve_left Bool.false_ne_true

/-- A row is skipped or inserted. -/
theorem insertRegistryRow_cases {env : Env P ν} {source : JsonRead.Text} {overwrite : Bool}
    {createdAt key : List Char} {value : Legacy ν} {t : Tables ν}
    {r : Bool × JsonRead.Value ν × Tables ν}
    (h : insertRegistryRow env source overwrite createdAt key value t = .ok r) :
    (overwrite = false ∧ t.entries.find? key ≠ none ∧ r.1 = false ∧ r.2.2 = t) ∨
      ((overwrite = true ∨ t.entries.find? key = none) ∧ r.1 = true ∧
        Inserted env source overwrite key value t r.2.2) := by
  unfold insertRegistryRow at h
  by_cases hskip : ((t.entries.find? key).isSome && !overwrite) = true
  · left
    simp only [if_pos hskip] at h
    cases h
    rw [Bool.and_eq_true, Bool.not_eq_true'] at hskip
    refine ⟨hskip.2, ?_, rfl, rfl⟩
    intro hnone
    rw [hnone] at hskip
    cases hskip.1
  · right
    have hdo : overwrite = true ∨ t.entries.find? key = none := by
      cases overwrite with
      | true => exact .inl rfl
      | false =>
        cases hfind : t.entries.find? key with
        | none => exact .inr rfl
        | some entry => simp [hfind] at hskip
    obtain ⟨json, hjson, hnoVector, hvector⟩ := vectorText (decodeLegacy env value).1
    simp only [if_neg hskip, hjson, ok_bind, bind_eq_ok] at h
    obtain ⟨text, htext, h⟩ := h
    have hstored : ∀ entry : Entry, entry.scoreMeta = text → entry.vector = json →
        entry.vectorDim = (numericVector (decodeLegacy env value).1).map List.length →
        Stored source (decodeLegacy env value).2 (decodeLegacy env value).1 entry := by
      intro entry hmeta hjson' hdim
      refine ⟨?_, ?_, ?_⟩
      · rw [hmeta, ← bindText_eq_ok.1 htext]
        exact loads_provenance source _ _
      · intro items hitems
        obtain ⟨text, hsome, hloads⟩ := hvector items hitems
        exact ⟨text, hjson'.trans hsome, hloads, by rw [hdim, hitems, Option.map_some]⟩
      · intro hitems
        exact hjson'.trans (hnoVector hitems)
    cases overwrite with
    | true =>
      simp only [if_true, pure_bind, pure_eq_ok] at h
      subst h
      exact ⟨hdo, rfl, inserted_of_written true rfl hdo (hstored _ rfl rfl rfl) rfl rfl rfl rfl⟩
    | false =>
      simp only [Bool.false_eq_true, if_false, bind_eq_ok, pure_eq_ok] at h
      obtain ⟨entries, hentries, rfl⟩ := h
      exact ⟨hdo, rfl, inserted_of_written false rfl hdo (hstored _ rfl rfl rfl) rfl rfl hentries rfl⟩

/-! ## The run -/

/-- What the rows leave under a key. -/
structure Traced (env : Env P ν) (source : JsonRead.Text) (overwrite : Bool) (rows : List (Row ν))
    (p p' : Progress ν) (key : List Char) : Prop where
  keys : key ∈ p'.migratedKeys ↔
    key ∈ p.migratedKeys ∨ Migrates env overwrite rows p.tables key
  kept : ¬ Migrates env overwrite rows p.tables key →
    p'.tables.entries.find? key = p.tables.entries.find? key ∧
      p'.tables.embeddings.find? key = p.tables.embeddings.find? key
  made : Migrates env overwrite rows p.tables key → ∃ row ∈ rows, ∃ entry,
    p'.tables.entries.find? key = some entry ∧ MadeOf env source row entry ∧
      (overwrite = true →
        rows.reverse.find? (fun row => env.str row.key = key) = some row) ∧
      (HasVector env row → ∃ embedding, p'.tables.embeddings.find? key = some embedding ∧
        embedding.sourceHash = (decodeLegacy env row.value).2) ∧
      (¬ HasVector env row →
        ((∃ embedding, p'.tables.embeddings.find? key = some embedding) ↔
          (∃ embedding, p.tables.embeddings.find? key = some embedding) ∨
            overwrite = true ∧ ∃ other ∈ rows, env.str other.key = key ∧ HasVector env other))

theorem migrateRow_cases {env : Env P ν} {call : Options} {source : JsonRead.Text}
    (hschema : call.targetSchema = "registry") {p p' : Progress ν} {row : Row ν}
    (h : migrateRow env call source p row = .ok p') :
    (call.overwrite = false ∧ p.tables.entries.find? (env.str row.key) ≠ none ∧
        p'.tables = p.tables ∧ p'.migratedKeys = p.migratedKeys) ∨
      ((call.overwrite = true ∨ p.tables.entries.find? (env.str row.key) = none) ∧
        Inserted env source call.overwrite (env.str row.key) row.value p.tables p'.tables ∧
        p'.migratedKeys = p.migratedKeys ++ [env.str row.key]) := by
  unfold migrateRow at h
  simp only [if_pos hschema, bind_eq_ok] at h
  obtain ⟨r, hr, h⟩ := h
  rcases insertRegistryRow_cases hr with ⟨hover, hthere, hfalse, htables⟩ | ⟨hdo, htrue, hinserted⟩
  · simp only [hfalse, Bool.false_eq_true, if_false, pure_eq_ok] at h
    subst h
    exact .inl ⟨hover, hthere, htables, rfl⟩
  · simp only [htrue, if_true, pure_eq_ok] at h
    subst h
    exact .inr ⟨hdo, hinserted, rfl⟩

omit [FloatText ν] in
theorem migrates_append_of_ne {env : Env P ν} {overwrite : Bool} {rows : List (Row ν)} {row : Row ν}
    {t : Tables ν} {key : List Char} (h : env.str row.key ≠ key) :
    Migrates env overwrite (rows ++ [row]) t key ↔ Migrates env overwrite rows t key := by
  unfold Migrates
  simp only [List.mem_append, List.mem_singleton]
  constructor
  · rintro ⟨⟨r, hr | rfl, hk⟩, hdo⟩
    · exact ⟨⟨r, hr, hk⟩, hdo⟩
    · exact absurd hk h
  · rintro ⟨⟨r, hr, hk⟩, hdo⟩
    exact ⟨⟨r, .inl hr, hk⟩, hdo⟩

section

variable {env : Env P ν} {source : JsonRead.Text} {overwrite : Bool} {rows : List (Row ν)}
  {row : Row ν} {p q p' : Progress ν} {key : List Char}

/-- A row of another key. -/
theorem Traced.other (h : Traced env source overwrite rows p q key) (hkey : env.str row.key ≠ key)
    (hkeys : p'.migratedKeys = q.migratedKeys ∨ p'.migratedKeys = q.migratedKeys ++ [env.str row.key])
    (hentries : p'.tables.entries.find? key = q.tables.entries.find? key)
    (hembeddings : p'.tables.embeddings.find? key = q.tables.embeddings.find? key) :
    Traced env source overwrite (rows ++ [row]) p p' key where
  keys := by
    rw [migrates_append_of_ne hkey, ← h.keys]
    rcases hkeys with hkeys | hkeys
    · rw [hkeys]
    · rw [hkeys, List.mem_append, List.mem_singleton]
      exact ⟨fun h => h.resolve_right (Ne.symm hkey), .inl⟩
  kept hnot := by
    obtain ⟨he, hm⟩ := h.kept fun hm => hnot ((migrates_append_of_ne hkey).2 hm)
    exact ⟨hentries.trans he, hembeddings.trans hm⟩
  made hmig := by
    obtain ⟨r, hr, entry, hfind, hmade, hlast, hvector, hnone⟩ :=
      h.made ((migrates_append_of_ne hkey).1 hmig)
    refine ⟨r, List.mem_append_left _ hr, entry, hentries.trans hfind, hmade, ?_, ?_, ?_⟩
    · intro hover
      rw [List.reverse_append, List.reverse_singleton, List.singleton_append,
        List.find?_cons_of_neg (by simpa using hkey)]
      exact hlast hover
    · rwa [hembeddings]
    · intro hr
      rw [hembeddings, hnone hr]
      simp only [List.mem_append, List.mem_singleton]
      constructor
      · rintro (hthere | ⟨hover, other, hother, hk, hv⟩)
        · exact .inl hthere
        · exact .inr ⟨hover, other, .inl hother, hk, hv⟩
      · rintro (hthere | ⟨hover, other, hother | rfl, hk, hv⟩)
        · exact .inl hthere
        · exact .inr ⟨hover, other, hother, hk, hv⟩
        · exact absurd hk hkey

/-- A row that is skipped. -/
theorem Traced.skipped (h : Traced env source false rows p q key)
    (hthere : q.tables.entries.find? key ≠ none) (hkeys : p'.migratedKeys = q.migratedKeys)
    (htables : p'.tables = q.tables) : Traced env source false (rows ++ [row]) p p' key := by
  have hmigrates : Migrates env false (rows ++ [row]) p.tables key →
      Migrates env false rows p.tables key := by
    rintro ⟨-, hdo⟩
    by_contra hnot
    have habsent := hdo.resolve_left Bool.false_ne_true
    rw [(h.kept hnot).1] at hthere
    exact hthere habsent
  have hadd : Migrates env false rows p.tables key →
      Migrates env false (rows ++ [row]) p.tables key := by
    rintro ⟨⟨r, hr, hk⟩, hdo⟩
    exact ⟨⟨r, List.mem_append_left _ hr, hk⟩, hdo⟩
  refine ⟨?_, ?_, ?_⟩
  · rw [hkeys, h.keys]
    exact or_congr_right ⟨hadd, hmigrates⟩
  · intro hnot
    rw [htables]
    exact h.kept fun hm => hnot (hadd hm)
  · intro hmig
    obtain ⟨r, hr, entry, hfind, hmade, -, hvector, hnone⟩ := h.made (hmigrates hmig)
    rw [htables]
    refine ⟨r, List.mem_append_left _ hr, entry, hfind, hmade, fun h => (by cases h), hvector, ?_⟩
    intro hr
    rw [hnone hr]
    exact or_congr_right ⟨fun h => (by cases h.1), fun h => (by cases h.1)⟩

/-- A row that is inserted. -/
theorem Traced.inserted (h : Traced env source overwrite rows p q (env.str row.key))
    (hstep : overwrite = false → p.tables.entries.find? (env.str row.key) = none →
      p.tables.embeddings.find? (env.str row.key) = none)
    (hdo : overwrite = true ∨ q.tables.entries.find? (env.str row.key) = none)
    (hkeys : p'.migratedKeys = q.migratedKeys ++ [env.str row.key])
    (hins : Inserted env source overwrite (env.str row.key) row.value q.tables p'.tables) :
    Traced env source overwrite (rows ++ [row]) p p' (env.str row.key) := by
  have hmem : row ∈ rows ++ [row] := List.mem_append_right _ (List.mem_singleton.2 rfl)
  -- without `overwrite` no row of the key has been migrated so far
  have hfresh : overwrite = false → ¬ Migrates env overwrite rows p.tables (env.str row.key) := by
    intro hover hmig
    obtain ⟨-, -, entry, hfind, -⟩ := h.made hmig
    have hnone := hdo.resolve_left (by rw [hover]; exact Bool.false_ne_true)
    rw [hfind] at hnone
    cases hnone
  have hmig : Migrates env overwrite (rows ++ [row]) p.tables (env.str row.key) := by
    refine ⟨⟨row, hmem, rfl⟩, ?_⟩
    cases hover : overwrite with
    | true => exact .inl rfl
    | false =>
      rw [← (h.kept (hfresh hover)).1]
      exact .inr (hdo.resolve_left (by rw [hover]; exact Bool.false_ne_true))
  refine ⟨?_, fun hnot => absurd hmig hnot, fun _ => ?_⟩
  · rw [hkeys, List.mem_append]
    exact ⟨fun _ => .inr hmig, fun _ => .inr (List.mem_singleton.2 rfl)⟩
  obtain ⟨entry, hkey, hstored, hentries⟩ := hins.entry
  refine ⟨row, hmem, entry, (hentries _).trans (if_pos rfl), ⟨hkey, hstored⟩, ?_, ?_, ?_⟩
  · intro _
    rw [List.reverse_append, List.reverse_singleton, List.singleton_append,
      List.find?_cons_of_pos (by simp)]
  · rintro ⟨items, hitems⟩
    refine hins.vector (fun hnone => (by rw [hnone] at hitems; cases hitems)) ?_
    cases hover : overwrite with
    | true => exact .inl rfl
    | false =>
      have hnone := hdo.resolve_left (by rw [hover]; exact Bool.false_ne_true)
      rw [(h.kept (hfresh hover)).1] at hnone
      rw [(h.kept (hfresh hover)).2]
      exact .inr (hstep hover hnone)
  · intro hnot
    rw [hins.noVector (not_hasVector hnot)]
    simp only [List.mem_append, List.mem_singleton]
    by_cases hbefore : Migrates env overwrite rows p.tables (env.str row.key)
    · have hover : overwrite = true := by
        by_contra hfalse
        exact hfresh (by simpa using hfalse) hbefore
      obtain ⟨r, hr, entry', hfind, hmade, -, hvector, hrest⟩ := h.made hbefore
      have hk : env.str r.key = env.str row.key :=
        hmade.key.symm.trans (Table.find?_eq_some.1 hfind).2
      by_cases hv : HasVector env r
      · obtain ⟨embedding, hthere, -⟩ := hvector hv
        exact ⟨fun _ => .inr ⟨hover, r, .inl hr, hk, hv⟩, fun _ => ⟨embedding, hthere⟩⟩
      · rw [hrest hv]
        constructor
        · rintro (hthere | ⟨-, other, hother, hk, hv⟩)
          · exact .inl hthere
          · exact .inr ⟨hover, other, .inl hother, hk, hv⟩
        · rintro (hthere | ⟨-, other, hother | rfl, hk, hv⟩)
          · exact .inl hthere
          · exact .inr ⟨hover, other, hother, hk, hv⟩
          · exact absurd hv hnot
    · rw [(h.kept hbefore).2]
      refine ⟨.inl, ?_⟩
      rintro (hthere | ⟨hover, other, hother | rfl, hk, hv⟩)
      · exact hthere
      · exact absurd ⟨⟨other, hother, hk⟩, .inl hover⟩ hbefore
      · exact absurd hv hnot

/-- The whole loop. -/
theorem foldlM_traced {call : Options} (hschema : call.targetSchema = "registry")
    {rows : List (Row ν)} {p p' : Progress ν}
    (hstep : ∀ key, p.tables.entries.find? key = none → p.tables.embeddings.find? key = none)
    (h : rows.foldlM (migrateRow env call source) p = .ok p') (key : List Char) :
    Traced env source call.overwrite rows p p' key := by
  induction rows using List.reverseRecOn generalizing p' with
  | nil =>
    cases h
    have hnone : ¬ Migrates env call.overwrite [] p.tables key := by
      rintro ⟨⟨row, hrow, -⟩, -⟩
      cases hrow
    exact ⟨(or_iff_left hnone).symm, fun _ => ⟨rfl, rfl⟩, fun h => absurd h hnone⟩
  | append_singleton rows row ih =>
    rw [List.foldlM_append, bind_eq_ok] at h
    obtain ⟨q, hq, h⟩ := h
    rw [List.foldlM_cons, bind_eq_ok] at h
    obtain ⟨q', hrow, h⟩ := h
    cases h
    have htraced := ih hq
    rcases migrateRow_cases hschema hrow with ⟨hover, hthere, htables, hkeys⟩ | ⟨hdo, hins, hkeys⟩
    · by_cases hkey : env.str row.key = key
      · subst hkey
        rw [hover] at htraced ⊢
        exact htraced.skipped hthere hkeys htables
      · exact htraced.other hkey (.inl hkeys) (by rw [htables]) (by rw [htables])
    · by_cases hkey : env.str row.key = key
      · subst hkey
        exact htraced.inserted (fun _ => hstep _) hdo hkeys hins
      · obtain ⟨entry, -, -, hentries⟩ := hins.entry
        exact htraced.other hkey (.inr hkeys) ((hentries key).trans (if_neg (Ne.symm hkey)))
          (hins.other key (Ne.symm hkey))

end

/-! ## The whole migration -/

/-- What `migrate` leaves is what its transaction has made of what was there. -/
theorem migrate_eq_ok [Inhabited P] {host : Host P} {env : Env P ν} {call : Options} {disk : Disk P}
    {ready : Ready P} {done : Migrated ν}
    (hready : prepare host call.toCall disk = .ok (some ready))
    (h : migrate host env call disk = .ok (some done)) :
    ∃ p, transaction env call (env.shown (host.resolve call.fromSrc))
      (env.tables ready.destination.pages) = .ok p ∧ done.tables = p.tables := by
  unfold migrate at h
  rw [hready] at h
  simp only [bind_eq_ok] at h
  obtain ⟨r, hr, h⟩ := h
  cases hr
  simp only [bind_eq_ok, pure_eq_ok] at h
  obtain ⟨p, hp, -, -, h⟩ := h
  cases h
  exact ⟨p, hp, rfl⟩

theorem transaction_eq_ok {env : Env P ν} {call : Options} {source : JsonRead.Text} {t : Tables ν}
    {p : Progress ν} (h : transaction env call source t = .ok p) :
    ∃ q, env.rows.foldlM (migrateRow env call source) { tables := t } = .ok q ∧
      p.tables = q.tables ∧ p.migratedKeys = q.migratedKeys := by
  unfold transaction at h
  rw [bind_eq_ok] at h
  obtain ⟨q, hq, h⟩ := h
  refine ⟨q, hq, ?_⟩
  by_cases hschema : call.targetSchema = "registry"
  · simp only [if_pos hschema, bind_eq_ok, pure_eq_ok] at h
    obtain ⟨-, -, -, -, rfl⟩ := h
    exact ⟨rfl, rfl⟩
  · rw [if_neg hschema, pure_eq_ok] at h
    subst h
    exact ⟨rfl, rfl⟩

theorem MadeOf.vector_iff {env : Env P ν} {source : JsonRead.Text} {row : Row ν} {entry : Entry}
    (h : MadeOf env source row entry) : entry.vector.isSome = true ↔ HasVector env row := by
  by_cases hv : HasVector env row
  · obtain ⟨items, hitems⟩ := hv
    obtain ⟨text, htext, -⟩ := h.stored.vector items hitems
    rw [htext]
    exact ⟨fun _ => ⟨items, hitems⟩, fun _ => rfl⟩
  · rw [h.stored.noVector (not_hasVector hv)]
    exact ⟨fun h => (by cases h), fun h => absurd h hv⟩

/-- **The tables stay in step**, each hash that of the vector's value, exactly when no replaced
entry loses its vector. -/
theorem inStep_iff [Inhabited P] (host : Host P) (env : Env P ν) (call : Options) (disk : Disk P)
    (ready : Ready P) (done : Migrated ν) (hschema : call.targetSchema = "registry")
    (hready : prepare host call.toCall disk = .ok (some ready))
    (h : migrate host env call disk = .ok (some done))
    (hstep : ∀ key, InStep (env.tables ready.destination.pages) key) :
    (∀ key, Migrates env call.overwrite env.rows (env.tables ready.destination.pages) key →
        InStep done.tables key ∧
          Hashed env (env.shown (host.resolve call.fromSrc)) done.tables key) ↔
      (call.overwrite = true → NoneStale env (env.tables ready.destination.pages)) := by
  obtain ⟨p, hp, htables⟩ := migrate_eq_ok hready h
  obtain ⟨q, hq, hpq, -⟩ := transaction_eq_ok hp
  rw [htables, hpq]
  have hnone : ∀ key, (env.tables ready.destination.pages).entries.find? key = none →
      (env.tables ready.destination.pages).embeddings.find? key = none := by
    intro key habsent
    rw [Option.eq_none_iff_forall_ne_some]
    intro embedding hthere
    obtain ⟨entry, hentry, -⟩ := (hstep key).1 ⟨embedding, hthere⟩
    rw [habsent] at hentry
    cases hentry
  have htraced := foldlM_traced hschema hnone hq
  constructor
  · intro hall hover key row hlast hv
    have hrow := List.mem_reverse.1 (List.mem_of_find?_eq_some hlast)
    have hkey : env.str row.key = key := by simpa using List.find?_some hlast
    have hmig : Migrates env call.overwrite env.rows (env.tables ready.destination.pages) key :=
      ⟨⟨row, hrow, hkey⟩, .inl hover⟩
    obtain ⟨r, -, entry, hfind, hmade, hr, -, hstale⟩ := (htraced key).made hmig
    obtain rfl : row = r := Option.some.inj (hlast.symm.trans (hr hover))
    have hgone : ¬ ∃ embedding, q.tables.embeddings.find? key = some embedding := by
      intro hthere
      obtain ⟨entry', hfind', hsome⟩ := (hall key hmig).1.1 hthere
      obtain rfl : entry = entry' := Option.some.inj (hfind.symm.trans hfind')
      exact hv (hmade.vector_iff.1 hsome)
    rw [hstale hv, not_or] at hgone
    refine ⟨?_, ?_⟩
    · rw [Option.eq_none_iff_forall_ne_some]
      exact fun embedding hthere => hgone.1 ⟨embedding, hthere⟩
    · exact fun other hother hk hvector => hgone.2 ⟨hover, other, hother, hk, hvector⟩
  · intro hstale key hmig
    obtain ⟨r, hr, entry, hfind, hmade, hlast, hvector, hrest⟩ := (htraced key).made hmig
    by_cases hv : HasVector env r
    · obtain ⟨embedding, hthere, hhash⟩ := hvector hv
      refine ⟨⟨fun _ => ⟨entry, hfind, hmade.vector_iff.2 hv⟩, fun _ => ⟨embedding, hthere⟩⟩, ?_⟩
      intro embedding' hthere'
      obtain rfl : embedding = embedding' := Option.some.inj (hthere.symm.trans hthere')
      exact ⟨r, hr, entry, hfind, hmade, hhash⟩
    · have hgone : ¬ ∃ embedding, q.tables.embeddings.find? key = some embedding := by
        rw [hrest hv, not_or]
        by_cases hover : call.overwrite = true
        · obtain ⟨hbefore, hother⟩ := hstale hover key r (hlast hover) hv
          rw [hbefore]
          refine ⟨fun ⟨_, h⟩ => (by cases h), ?_⟩
          rintro ⟨-, other, hmem, hk, hvector⟩
          exact hother other hmem hk hvector
        · rw [hnone key (hmig.2.resolve_left hover)]
          exact ⟨fun ⟨_, h⟩ => (by cases h), fun h => hover h.1⟩
      refine ⟨⟨fun hthere => absurd hthere hgone, ?_⟩, fun embedding hthere => absurd ⟨_, hthere⟩ hgone⟩
      rintro ⟨entry', hfind', hsome⟩
      obtain rfl : entry = entry' := Option.some.inj (hfind.symm.trans hfind')
      exact absurd (hmade.vector_iff.1 hsome) hv

end

/-! ## Runs -/

namespace Sample

/-- A registry with one vector, in step. -/
def held : Tables Zero where
  entries := Table.empty.replace
    { embeddingId := "row".toList
      chunkId := some "row".toList
      vector := some "[1,2]".toList
      vectorDim := some 2
      createdAt := []
      sourcePath := "legacy_kv".toList
      scoreMeta := "\x7b\x7d".toList }
  embeddings := Table.empty.replace
    { chunkId := "row".toList
      sourcePath := "legacy_kv".toList
      sourceHash := []
      extractorVersion := "legacy-migration".toList
      embeddingTimestamp := []
      updatedAt := [] }

theorem held_inStep (key : List Char) : InStep held key := by
  unfold InStep held
  simp only [Table.find?_replace]
  by_cases hkey : key = "row".toList
  · simp only [if_pos hkey]
    exact ⟨fun _ => ⟨_, rfl, rfl⟩, fun _ => ⟨_, rfl⟩⟩
  · simp only [if_neg hkey]
    constructor
    · rintro ⟨embedding, h⟩
      cases h
    · rintro ⟨entry, h, -⟩
      cases h

/-- The same row, with this text in the source. -/
def again (text : String) : Env Page Zero := { env text with tables := fun _ => held }

def overwriting : Options := { call with overwrite := true }

/-- The migration has left a row in `embeddings` beside an entry without a vector. -/
def stale (r : Except Failure (Option (Migrated Zero))) : Bool :=
  match r with
  | .ok (some done) =>
    (done.tables.embeddings.find? "row".toList).isSome &&
      ((done.tables.entries.find? "row".toList).filter fun entry => entry.vector.isSome).isNone
  | _ => false

/-- The migration has ended. -/
def ended (r : Except Failure (Option (Migrated Zero))) : Bool :=
  match r with
  | .ok (some _) => true
  | _ => false

theorem ended_iff {r : Except Failure (Option (Migrated Zero))} (h : ended r = true) :
    ∃ done, r = .ok (some done) := by
  unfold ended at h
  split at h
  · exact ⟨_, rfl⟩
  · cases h

theorem stale_iff {r : Except Failure (Option (Migrated Zero))} (h : stale r = true) :
    ∃ done, r = .ok (some done) ∧ ¬ InStep done.tables "row".toList := by
  unfold stale at h
  split at h
  · rename_i done
    rw [Bool.and_eq_true] at h
    refine ⟨done, rfl, fun hstep => ?_⟩
    obtain ⟨entry, hentry, hsome⟩ := hstep.1 (Option.isSome_iff_exists.1 h.1)
    rw [hentry, Option.filter_some, if_pos hsome] at h
    cases h.2
  · cases h

end Sample

open Sample in
/-- A text takes the place of a vector. -/
theorem stale_embedding : ∃ ready done,
    prepare host overwriting.toCall (disk checkpointed) = .ok (some ready) ∧
      migrate host (again "word") overwriting (disk checkpointed) = .ok (some done) ∧
      (∀ key, InStep ((again "word").tables ready.destination.pages) key) ∧
      Migrates (again "word") true (again "word").rows
        ((again "word").tables ready.destination.pages) "row".toList ∧
      ¬ InStep done.tables "row".toList := by
  have hrun : stale (migrate host (again "word") overwriting (disk checkpointed)) = true := by
    decide +kernel
  obtain ⟨done, hdone, hstale⟩ := stale_iff hrun
  exact ⟨_, done, rfl, hdone, held_inStep, ⟨⟨_, List.mem_cons_self, rfl⟩, .inl rfl⟩, hstale⟩

open Sample in
theorem sample_inStep : ∃ ready done,
    prepare host overwriting.toCall (disk checkpointed) = .ok (some ready) ∧
      migrate host (again "[3]") overwriting (disk checkpointed) = .ok (some done) ∧
      ((∀ key, Migrates (again "[3]") true (again "[3]").rows held key →
          InStep done.tables key ∧
            Hashed (again "[3]") (chars "/legacy.sqlite3".toList) done.tables key) ↔
        (true = true → NoneStale (again "[3]") held)) := by
  have hrun : ended (migrate host (again "[3]") overwriting (disk checkpointed)) = true := by
    decide +kernel
  obtain ⟨done, hdone⟩ := ended_iff hrun
  exact ⟨_, done, rfl, hdone, inStep_iff host (again "[3]") overwriting (disk checkpointed) _ done rfl
    rfl hdone held_inStep⟩

end ProjectMaya.Migration
