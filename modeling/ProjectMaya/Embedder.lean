import ProjectMaya.BusinessMemory
import ProjectMaya.IngestRuns
import ProjectMaya.Logic.Batches

/-! # The embedder

`Embedder.embed` puts the answers of the backend to the batches one after the other. Its callers
zip them with their chunks, as `BusinessMemoryService.ingest_text` does with what its embedding
model returns. Only `EmbeddingClient` looks at how many there are, so a short answer drops chunks
and moves the vectors of the others (`ownEmbeddings_iff`). -/

namespace ProjectMaya.Ingest

open Logic
open ProjectMaya.Vector (Text)

/-! ## `Embedder.embed` -/

section

variable {β : Type}

/-- A new backend: what `embed_batch` answers to its `n`-th call, or what it raises. -/
abbrev Backend (β : Type) := Nat → List Text → Except String (List β)

/-- An embedder: what `BackendFactory` makes of its backend and model, and its `batch_size`. -/
structure Embedder (β : Type) where
  factory : Except String (Backend β)
  batchSize : Int

/-- `texts[i : i + batch_size] for i in range(0, len(texts), batch_size)`, not for a size of 0;
a negative step makes an empty range. -/
def batches (batchSize : Int) (texts : List Text) : List (List Text) :=
  if 0 < batchSize then cut batchSize.toNat texts else []

/-- The answers to the batches, from the `n`-th call on. -/
def embedBatches (backend : Backend β) : Nat → List (List Text) → Except String (List (List β))
  | _, [] => .ok []
  | n, batch :: rest => do
    let vecs ← backend n batch
    let out ← embedBatches backend (n + 1) rest
    return vecs :: out

/-- `Embedder.embed`; the error is the text of its `EmbedderError`. -/
def Embedder.embed (e : Embedder β) (texts : List Text) : Except String (List β) :=
  if texts = [] then .ok []
  else
    match e.factory with
    | .error message => .error ("backend init failed: " ++ message)
    | .ok backend =>
      if e.batchSize = 0 then .error "backend error: range() arg 3 must not be zero"
      else
        match embedBatches backend 0 (batches e.batchSize texts) with
        | .error message => .error ("backend error: " ++ message)
        | .ok out => .ok out.flatten

/-- The vector that the backend answers for the text in place `i`. -/
def Embedder.vectorFor (e : Embedder β) (texts : List Text) (i : Nat) : Option β :=
  e.factory.toOption.bind fun backend =>
    ((batches e.batchSize texts)[i / e.batchSize.toNat]?).bind fun batch =>
      (backend (i / e.batchSize.toNat) batch).toOption.bind fun vecs =>
        vecs[i % e.batchSize.toNat]?

/-- `embed` raises, or returns for every text the vector that the backend answers for it. -/
def Faithful (e : Embedder β) (texts : List Text) : Prop :=
  ∀ out, e.embed texts = .ok out → out.length = texts.length ∧
    ∀ i < texts.length, ∃ v, out[i]? = some v ∧ e.vectorFor texts i = some v

/-- A call of the backend raises. -/
def Raises (backend : Backend β) (parts : List (List Text)) : Prop :=
  ∃ k batch message, parts[k]? = some batch ∧ backend k batch = .error message

/-- The calls of the backend that return answer with as many vectors as they are given texts. -/
def Answers (backend : Backend β) (parts : List (List Text)) : Prop :=
  ∀ k batch vecs, parts[k]? = some batch → backend k batch = .ok vecs → vecs.length = batch.length

/-- The backend answers every batch in full, or raises. -/
def Embedder.Matching (e : Embedder β) (texts : List Text) : Prop :=
  texts = [] ∨ ∀ backend, e.factory = .ok backend → e.batchSize = 0 ∨
    0 < e.batchSize ∧ (Raises backend (batches e.batchSize texts) ∨
      Answers backend (batches e.batchSize texts))

/-! ## The answers -/

theorem embedBatches_eq_ok {backend : Backend β} {n : Nat} {parts : List (List Text)}
    {answers : List (List β)} :
    embedBatches backend n parts = .ok answers ↔ answers.length = parts.length ∧
      ∀ (k : Nat) batch, parts[k]? = some batch →
        ∃ vecs, backend (n + k) batch = .ok vecs ∧ answers[k]? = some vecs := by
  induction parts generalizing n answers with
  | nil =>
    constructor
    · intro h
      cases h
      exact ⟨rfl, fun k batch hb => by cases hb⟩
    · rintro ⟨hlen, -⟩
      rw [List.eq_nil_of_length_eq_zero hlen]
      rfl
  | cons batch parts ih =>
    unfold embedBatches
    constructor
    · intro h
      obtain ⟨vecs, hvecs, h⟩ := Logic.bind_eq_ok.mp h
      obtain ⟨out, hout, h⟩ := Logic.bind_eq_ok.mp h
      cases h
      obtain ⟨hlen, hall⟩ := ih.mp hout
      refine ⟨congrArg (· + 1) hlen, fun k b hb => ?_⟩
      cases k with
      | zero =>
        cases hb
        exact ⟨vecs, hvecs, rfl⟩
      | succ k =>
        obtain ⟨vs, hvs, hk⟩ := hall k b hb
        rw [Nat.add_assoc, Nat.add_comm 1 k] at hvs
        exact ⟨vs, hvs, hk⟩
    · rintro ⟨hlen, hall⟩
      cases answers with
      | nil => cases hlen
      | cons vecs out =>
        obtain ⟨vs, hvs, hzero⟩ := hall 0 batch rfl
        cases hzero
        have hout : embedBatches backend (n + 1) parts = .ok out := by
          refine ih.mpr ⟨Nat.succ.inj hlen, fun k b hb => ?_⟩
          obtain ⟨vs, hvs, hk⟩ := hall (k + 1) b hb
          rw [← Nat.add_assoc, Nat.add_right_comm] at hvs
          exact ⟨vs, hvs, hk⟩
        rw [show backend n batch = .ok vecs from hvs, hout]
        rfl

theorem embedBatches_eq_error {backend : Backend β} {parts : List (List Text)} {message : String}
    (h : embedBatches backend 0 parts = .error message) : Raises backend parts := by
  have hgen : ∀ (parts : List (List Text)) (n : Nat),
      embedBatches backend n parts = .error message →
        ∃ k batch, parts[k]? = some batch ∧ backend (n + k) batch = .error message := by
    intro parts
    induction parts with
    | nil =>
      intro n h
      cases h
    | cons batch parts ih =>
      intro n h
      unfold embedBatches at h
      cases hb : backend n batch with
      | error m =>
        rw [hb] at h
        cases h
        exact ⟨0, batch, rfl, hb⟩
      | ok vecs =>
        cases hr : embedBatches backend (n + 1) parts with
        | error m =>
          rw [hb, hr] at h
          cases h
          obtain ⟨k, b, hk, hm⟩ := ih (n + 1) hr
          rw [Nat.add_assoc, Nat.add_comm 1 k] at hm
          exact ⟨k + 1, b, hk, hm⟩
        | ok out =>
          rw [hb, hr] at h
          cases h
  obtain ⟨k, batch, hk, hm⟩ := hgen parts 0 h
  rw [Nat.zero_add] at hm
  exact ⟨k, batch, message, hk, hm⟩

theorem aligned_iff_answers {backend : Backend β} {parts : List (List Text)}
    {answers : List (List β)} (h : embedBatches backend 0 parts = .ok answers) :
    Aligned parts answers ↔ Answers backend parts := by
  obtain ⟨hlen, hall⟩ := embedBatches_eq_ok.mp h
  unfold Aligned Answers
  rw [List.forall₂_iff_get]
  constructor
  · rintro ⟨-, haligned⟩ k batch vecs hk hvecs
    obtain ⟨vs, hvs, ha⟩ := hall k batch hk
    rw [Nat.zero_add, hvecs] at hvs
    cases hvs
    obtain ⟨hp, hpk⟩ := List.getElem?_eq_some_iff.mp hk
    obtain ⟨hq, hqk⟩ := List.getElem?_eq_some_iff.mp ha
    have hlen' := haligned k hp hq
    simp only [List.get_eq_getElem] at hlen'
    rwa [hpk, hqk] at hlen'
  · intro hanswers
    refine ⟨hlen.symm, fun k hp hq => ?_⟩
    obtain ⟨vs, hvs, ha⟩ := hall k parts[k] (List.getElem?_eq_getElem hp)
    rw [Nat.zero_add] at hvs
    rw [List.getElem?_eq_getElem hq] at ha
    simp only [List.get_eq_getElem]
    rw [Option.some.inj ha]
    exact hanswers k _ vs (List.getElem?_eq_getElem hp) hvs

theorem vectorFor_eq {e : Embedder β} {backend : Backend β} {texts : List Text}
    {answers : List (List β)} (hf : e.factory = .ok backend)
    (h : embedBatches backend 0 (batches e.batchSize texts) = .ok answers) (i : Nat) :
    e.vectorFor texts i = answer e.batchSize.toNat answers i := by
  obtain ⟨hlen, hall⟩ := embedBatches_eq_ok.mp h
  unfold Embedder.vectorFor answer
  rw [hf]
  show (((batches e.batchSize texts)[i / e.batchSize.toNat]?).bind _) = _
  cases hk : (batches e.batchSize texts)[i / e.batchSize.toNat]? with
  | none =>
    rw [List.getElem?_eq_none_iff] at hk
    rw [List.getElem?_eq_none_iff.mpr (hlen ▸ hk)]
    rfl
  | some batch =>
    obtain ⟨vecs, hvecs, ha⟩ := hall _ batch hk
    rw [Nat.zero_add] at hvecs
    rw [ha]
    show ((backend _ batch).toOption.bind _) = _
    rw [hvecs]
    rfl

/-- `embed` gives every text its own vector exactly when the backend answers every batch in full,
or raises. -/
theorem faithful_iff (e : Embedder β) (texts : List Text) :
    Faithful e texts ↔ e.Matching texts := by
  unfold Faithful Embedder.Matching
  by_cases ht : texts = []
  · subst ht
    refine iff_of_true (fun out hout => ?_) (.inl rfl)
    cases hout
    exact ⟨rfl, fun i hi => by cases hi⟩
  · rw [or_iff_right ht]
    have hpos := List.length_pos_of_ne_nil ht
    unfold Embedder.embed
    rw [if_neg ht]
    cases hf : e.factory with
    | error message => exact iff_of_true (fun out hout => by cases hout) (fun b hb => by cases hb)
    | ok backend =>
      simp only [Except.ok.injEq, forall_eq']
      by_cases hzero : e.batchSize = 0
      · rw [if_pos hzero]
        exact iff_of_true (fun out hout => by cases hout) (.inl hzero)
      rw [if_neg hzero, or_iff_right hzero]
      by_cases hsize : 0 < e.batchSize
      · rw [and_iff_right hsize]
        cases hrun : embedBatches backend 0 (batches e.batchSize texts) with
        | error message =>
          exact iff_of_true (fun out hout => by cases hout) (.inl (embedBatches_eq_error hrun))
        | ok answers =>
          obtain ⟨hlen, hall⟩ := embedBatches_eq_ok.mp hrun
          have hraises : ¬ Raises backend (batches e.batchSize texts) := by
            rintro ⟨k, batch, message, hk, hm⟩
            obtain ⟨vecs, hvecs, -⟩ := hall k batch hk
            rw [Nat.zero_add, hm] at hvecs
            cases hvecs
          rw [or_iff_right hraises, ← aligned_iff_answers hrun]
          have hcut : batches e.batchSize texts = cut e.batchSize.toNat texts := if_pos hsize
          rw [hcut] at hlen ⊢
          rw [aligned_iff (by omega) texts hlen]
          simp only [Except.ok.injEq, forall_eq', vectorFor_eq hf hrun]
      · -- a negative size: nothing is asked, and nothing is returned
        have hnil : batches e.batchSize texts = [] := if_neg hsize
        refine iff_of_false (fun h => ?_) (fun h => hsize h.1)
        have hout := h [] (by rw [hnil]; rfl)
        rw [List.length_nil] at hout
        omega

end

/-! ## `process_file` -/

section

variable {μ : Type}

/-- What the pipeline embeds. -/
def Job.texts (job : Job μ) : List Text :=
  match chunkFile job.path job.reading job.maxChars (version job) with
  | .ok chunks => chunks.map Chunk.text
  | .error _ => []

/-- The job, with the embedder of its pipeline. -/
def Embedder.on (e : Embedder (Option (List μ))) (job : Job μ) : Job μ :=
  { job with vectors := (e.embed job.texts).mapError .embedder }

/-- The pipeline stores every chunk, and with it the vector that the backend answers for it. -/
def StoresOwn (e : Embedder (Option (List μ))) (dir : String) (job : Job μ) : Prop :=
  Faithful e job.texts ∧
    ∀ chunks, chunkFile job.path job.reading job.maxChars (version job) = .ok chunks →
      (∀ pairs, embedded (e.on job) = .ok pairs → pairs.map Prod.fst = chunks ∧
        ∀ (i : Nat) p, pairs[i]? = some p → e.vectorFor job.texts i = some p.2) ∧
      ∀ s moves paths, (ingest dir s (e.on job) moves).result = some (.ok paths) →
        paths = chunks.map (fun c => embPath dir (chunkId c)) ∧
        ∀ path, (ingest dir s (e.on job) moves).shared.files.get? path = s.files.get? path ∨
          ∃ i c v, chunks[i]? = some c ∧ e.vectorFor job.texts i = some v ∧
            path = embPath dir (chunkId c) ∧
            (ingest dir s (e.on job) moves).shared.files.get? path =
              some (some (embObj (e.on job) c v))

/-- A file that is not as it was holds the record of one of the chunks. -/
theorem files_foldl (dir : String) (job : Job μ) (pairs : List (Chunk × Option (List μ)))
    (s : Storage μ) (path : String) :
    (pairs.foldl (put dir job) s).files.get? path = s.files.get? path ∨
      ∃ p ∈ pairs, path = embPath dir (chunkId p.1) ∧
        (pairs.foldl (put dir job) s).files.get? path = some (some (embObj job p.1 p.2)) := by
  induction pairs generalizing s with
  | nil => exact .inl rfl
  | cons p pairs ih =>
    rw [List.foldl_cons]
    rcases ih (put dir job s p) with hsame | ⟨q, hq, hpath, hrec⟩
    · rw [hsame]
      unfold put
      by_cases hskip : Skips dir job s p.1
      · rw [if_pos hskip]
        exact .inl rfl
      · rw [if_neg hskip]
        show (s.files.set _ _).get? path = _ ∨ _
        by_cases hpath : path = embPath dir (chunkId p.1)
        · refine .inr ⟨p, List.mem_cons_self, hpath, ?_⟩
          show (s.files.set _ _).get? path = _
          rw [hpath, Assoc.get?_set_self, Assoc.get?_set_self]
          rfl
        · exact .inl (Assoc.get?_set_ne _ _ hpath)
    · exact .inr ⟨q, List.mem_cons_of_mem p hq, hpath, hrec⟩

/-- What the pipeline zips its chunks with. -/
theorem embedded_on {e : Embedder (Option (List μ))} {job : Job μ} {chunks : List Chunk}
    (hc : chunkFile job.path job.reading job.maxChars (version job) = .ok chunks)
    {pairs : List (Chunk × Option (List μ))} (h : embedded (e.on job) = .ok pairs) :
    ∃ out, e.embed job.texts = .ok out ∧ pairs = chunks.zip out := by
  have htexts : job.texts = chunks.map Chunk.text := by
    unfold Job.texts
    rw [hc]
  unfold embedded at h
  rw [show chunkFile (e.on job).path (e.on job).reading (e.on job).maxChars (version (e.on job)) =
    .ok chunks from hc] at h
  obtain ⟨_, hchunks, h⟩ := Logic.bind_eq_ok.mp h
  cases hchunks
  obtain ⟨out, hout, h⟩ := Logic.bind_eq_ok.mp h
  cases h
  refine ⟨out, ?_, rfl⟩
  unfold embed at hout
  by_cases hnil : chunks = []
  · rw [if_pos hnil] at hout
    cases hout
    rw [htexts, hnil]
    rfl
  · rw [if_neg hnil] at hout
    exact Logic.mapError_eq_ok.mp hout

theorem storesOwn_iff (e : Embedder (Option (List μ))) (dir : String) (job : Job μ) :
    StoresOwn e dir job ↔ e.Matching job.texts := by
  rw [← faithful_iff]
  refine ⟨fun h => h.1, fun hfaithful => ⟨hfaithful, fun chunks hc => ?_⟩⟩
  have htexts : job.texts = chunks.map Chunk.text := by
    unfold Job.texts
    rw [hc]
  have hpairs : ∀ pairs, embedded (e.on job) = .ok pairs → pairs.map Prod.fst = chunks ∧
      ∀ (i : Nat) p, pairs[i]? = some p → e.vectorFor job.texts i = some p.2 := by
    intro pairs h
    obtain ⟨out, hout, rfl⟩ := embedded_on hc h
    obtain ⟨hlen, hown⟩ := hfaithful out hout
    rw [htexts, List.length_map] at hlen
    refine ⟨List.map_fst_zip (Nat.le_of_eq hlen.symm), fun i p hp => ?_⟩
    obtain ⟨-, hpv⟩ := List.getElem?_zip_eq_some.mp hp
    have hi := (List.getElem?_eq_some_iff.mp hpv).1
    obtain ⟨v, hv, hfor⟩ := hown i (by rw [htexts, List.length_map]; omega)
    rw [hfor, ← hpv, hv]
  refine ⟨hpairs, fun s moves paths hrun => ?_⟩
  obtain ⟨pairs, hembedded, rfl, hshared⟩ := ingest_ok hrun
  obtain ⟨hfst, hown⟩ := hpairs pairs hembedded
  refine ⟨by rw [← hfst, List.map_map]; rfl, fun path => ?_⟩
  rw [hshared]
  rcases files_foldl dir (e.on job) pairs s path with hsame | ⟨p, hp, hpath, hrec⟩
  · exact .inl hsame
  · obtain ⟨i, hi⟩ := List.mem_iff_getElem?.mp hp
    refine .inr ⟨i, p.1, p.2, ?_, hown i p hi, hpath, hrec⟩
    rw [← hfst, List.getElem?_map, hi]
    rfl

end

/-! ## `ingest_text` -/

section

open ProjectMaya.Vector (Python Entry strip)
open ProjectMaya.Vector.Business (pieces ingestText sourceHash recordId)

variable {ν : Type} [Python ν]

omit [Python ν] in
/-- The embedding model, if there is one, raises or returns at least one vector for every chunk. -/
def Enough (c : Vector.Business.Ingest ν) : Prop :=
  strip c.text ≠ [] → ∀ parts model vectors,
    Vector.Business.chunks c.text c.maxChars = .ok parts → c.model = some model →
    model parts = .ok vectors → parts.length ≤ vectors.length

/-- `ingest_text` remembers every chunk, and with it the vector that the model returns for it. -/
def KeepsOwn (c : Vector.Business.Ingest ν) : Prop :=
  ∀ parts vectors, Vector.Business.chunks c.text c.maxChars = .ok parts →
    Vector.Business.embedded c parts = .ok vectors →
    (∀ todo, pieces c = .ok todo → todo.map Prod.fst = parts ∧
      ∀ (i : Nat) p, todo[i]? = some p → vectors[i]? = some p.2) ∧
    ∀ turns pid s, (ingestText c turns pid s).result = some (.ok ()) →
      ∀ (i : Nat) chunk, parts[i]? = some chunk → ∃ v, vectors[i]? = some v ∧
        (ingestText c turns pid s).shared.db.index (recordId (sourceHash c.text) i) =
          some (Entry.of (turns i).now (recordId (sourceHash c.text) i)
            (Vector.Business.record c i chunk v))

omit [Python ν] in
theorem pieces_eq_ok {c : Vector.Business.Ingest ν} {parts : List Text}
    {vectors : List (Vector.Value ν)} {todo : List (Text × Vector.Value ν)}
    (hc : Vector.Business.chunks c.text c.maxChars = .ok parts)
    (hv : Vector.Business.embedded c parts = .ok vectors) :
    pieces c = .ok todo ↔ strip c.text ≠ [] ∧ todo = parts.zip vectors := by
  simp only [pieces, Logic.bind_eq_ok, pure_eq_ok, mapError_eq_ok, hc, Except.ok.injEq,
    exists_eq_left', hv, ensure_eq_ok, exists_const]
  exact and_congr_right fun _ => eq_comm

omit [Python ν] in
theorem enough_iff (c : Vector.Business.Ingest ν) :
    Enough c ↔ (strip c.text ≠ [] → ∀ parts vectors,
      Vector.Business.chunks c.text c.maxChars = .ok parts →
      Vector.Business.embedded c parts = .ok vectors → parts.length ≤ vectors.length) := by
  unfold Enough Vector.Business.embedded
  refine imp_congr_right fun _ => forall_congr' fun parts => ?_
  cases hm : c.model with
  | none =>
    refine iff_of_true (fun model vectors _ hmodel => by cases hmodel) fun vectors _ hv => ?_
    cases hv
    rw [List.length_replicate]
  | some model =>
    constructor
    · intro h vectors hc hv
      exact h model vectors hc rfl hv
    · rintro h m vectors hc ⟨⟩ hv
      exact h vectors hc hv

theorem keepsOwn_iff (c : Vector.Business.Ingest ν) : KeepsOwn c ↔ Enough c := by
  rw [enough_iff]
  constructor
  · intro h hstrip parts vectors hc hv
    obtain ⟨hpieces, -⟩ := h parts vectors hc hv
    obtain ⟨hfst, -⟩ := hpieces _ ((pieces_eq_ok hc hv).mpr ⟨hstrip, rfl⟩)
    have hlen := congrArg List.length hfst
    rw [List.length_map, List.length_zip] at hlen
    omega
  · intro h parts vectors hc hv
    have hpieces : ∀ todo, pieces c = .ok todo → todo.map Prod.fst = parts ∧
        ∀ (i : Nat) p, todo[i]? = some p → vectors[i]? = some p.2 := by
      intro todo htodo
      obtain ⟨hstrip, rfl⟩ := (pieces_eq_ok hc hv).mp htodo
      refine ⟨List.map_fst_zip (h hstrip parts vectors hc hv), fun i p hp => ?_⟩
      exact (List.getElem?_zip_eq_some.mp hp).2
    refine ⟨hpieces, fun turns pid s hrun i chunk hchunk => ?_⟩
    unfold ingestText at hrun ⊢
    cases htodo : pieces c with
    | error e =>
      rw [htodo] at hrun
      cases hrun
    | ok todo =>
      rw [htodo] at hrun
      obtain ⟨hfst, hown⟩ := hpieces todo htodo
      have hpart : (todo.map Prod.fst)[i]? = some chunk := by rw [hfst, hchunk]
      rw [List.getElem?_map] at hpart
      obtain ⟨p, hp, rfl⟩ := Option.map_eq_some_iff.mp hpart
      have hi := (List.getElem?_eq_some_iff.mp hp).1
      rcases Vector.Business.rememberAll_index hrun (sourceHash c.text) i with
        ⟨-, k, x, hk, hik, hindex⟩ | ⟨hout, -⟩
      · rw [Nat.zero_add] at hik
        subst hik
        rw [hp] at hk
        cases hk
        exact ⟨p.2, hown i p hp, hindex⟩
      · have hout := hout rfl
        omega

/-! ## Everyone's own embedding -/

/-- `embed` raises or gives every text its vector, and its callers store no chunk without it. -/
def OwnEmbeddings {μ : Type} (e : Embedder (Option (List μ))) (texts : List Text) (dir : String)
    (job : Job μ) (c : Vector.Business.Ingest ν) : Prop :=
  Faithful e texts ∧ StoresOwn e dir job ∧ KeepsOwn c

/-- **Whose embedding a chunk gets.**  Everyone gets their own exactly when every batch is answered
in full, or a call raises, and the embedding model returns no fewer vectors than it gets chunks. -/
theorem ownEmbeddings_iff {μ : Type} (e : Embedder (Option (List μ))) (texts : List Text)
    (dir : String) (job : Job μ) (c : Vector.Business.Ingest ν) :
    OwnEmbeddings e texts dir job c ↔ e.Matching texts ∧ e.Matching job.texts ∧ Enough c :=
  and_congr (faithful_iff e texts) (and_congr (storesOwn_iff e dir job) (keepsOwn_iff c))

end

namespace Sample

/-- A backend that leaves out the first text of a batch. -/
def forgetful : Backend (Option (List String)) := fun _ batch =>
  .ok ((batch.drop 1).map fun t => some [String.ofList t])

def short : Embedder (Option (List String)) where
  factory := .ok forgetful
  batchSize := 32

/-- Two texts get one vector: the first is given that of the second. -/
theorem short_not_own : ¬ OwnEmbeddings short ["a".toList, "b".toList] "emb" derived
    Vector.Business.Sample.draft := by
  rintro ⟨h, -⟩
  have hembed : short.embed ["a".toList, "b".toList] = .ok [some ["b"]] := by decide
  exact absurd (h _ hembed).1 (by decide)

end Sample

end ProjectMaya.Ingest
