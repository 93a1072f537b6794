import ProjectMaya.VectorRuns

/-! # Rebuilding the embeddings

`rebuildEmbeddings` names each record by the `id` of its stored document and embeds the text
it takes from that document; the store names it by its key and has its content in a column.
The rebuild leaves every record with the embedding of its own content exactly when the two
agree. -/

namespace ProjectMaya.Vector

open Logic

/-- An embedding model that gives one finite vector of a fixed dimension for each text. -/
structure Embedder (ν : Type) [Python ν] where
  embed : Text → List ν
  dimension : Nat
  pos : 0 < dimension
  length : ∀ t, (embed t).length = dimension
  finite : ∀ t, ∀ x ∈ embed t, Python.isFinite x = true

section

variable {ν : Type} [Python ν]

/-- The vector of a text as the model returns it. -/
def Embedder.value (f : Embedder ν) (t : Text) : Value ν := .list false ((f.embed t).map .float)

def Embedder.model (f : Embedder ν) : Model ν := fun texts => .ok (texts.map f.value)

theorem Embedder.validated (f : Embedder ν) (t : Text) :
    validatedVector (f.value t) = .ok (f.embed t) := validatedVector_floats (f.finite t)

theorem Embedder.ne_nil (f : Embedder ν) (t : Text) : f.embed t ≠ [] := by
  intro h
  have hlen := f.length t
  have hpos := f.pos
  rw [h] at hlen
  simp only [List.length_nil] at hlen
  omega

/-! ## The mapping from identifiers to vectors -/

/-- `str(document["id"])`. -/
def identifier (d : Doc ν) : Text := (d.get (text "id")).toStr

omit [Python ν] in
/-- Of several values for one key the last stays. -/
theorem get?_foldl_put (pairs : List (Text × Value ν)) (d : Doc ν) (k : Text) :
    (pairs.foldl (fun d x => d.put x.1 x.2) d).get? k = (pairs.reverse.lookup k).or (d.get? k) := by
  induction pairs generalizing d with
  | nil => rfl
  | cons x rest ih =>
    obtain ⟨k', v⟩ := x
    rw [List.foldl_cons, ih, Doc.get?_put, List.reverse_cons, List.lookup_append,
      List.lookup_cons, List.lookup_nil, Option.or_assoc]
    by_cases hk : k = k'
    · simp [hk]
    · have hb : (k == k') = false := by simpa using hk
      simp [hk, hb]

omit [Python ν] in
theorem mem_keys {d : Doc ν} {k : Text} : k ∈ d.rows.map Prod.fst ↔ (d.get? k).isSome = true := by
  unfold Doc.get?
  rw [Option.isSome_map]
  cases h : d.find? k with
  | some f =>
    obtain ⟨hf, rfl⟩ := Table.find?_eq_some.1 h
    exact ⟨fun _ => rfl, fun _ => List.mem_map_of_mem hf⟩
  | none =>
    refine ⟨fun hk => ?_, nofun⟩
    obtain ⟨f, hf, hfk⟩ := List.mem_map.1 hk
    exact absurd hfk (Table.find?_eq_none.1 h f hf)

/-- The embeddings that a rebuild computes. -/
def Embedder.embeddings (f : Embedder ν) (documents : List (Doc ν)) : Doc ν :=
  zipped (documents.map identifier) ((documents.map takenText).map f.value)

theorem Embedder.get?_embeddings (f : Embedder ν) (documents : List (Doc ν)) (k : Text) :
    (f.embeddings documents).get? k =
      (documents.map fun d => (identifier d, f.value (takenText d))).reverse.lookup k := by
  have hzip : (documents.map identifier).zip ((documents.map takenText).map f.value) =
      documents.map fun d => (identifier d, f.value (takenText d)) := by
    rw [List.map_map, List.zip_map']
    rfl
  unfold embeddings zipped
  rw [get?_foldl_put, hzip]
  simp [Doc.get?, Table.find?, Table.empty]

theorem Embedder.isSome_embeddings (f : Embedder ν) (documents : List (Doc ν)) (k : Text) :
    ((f.embeddings documents).get? k).isSome = true ↔ ∃ d ∈ documents, identifier d = k := by
  rw [f.get?_embeddings, List.lookup_isSome_iff]
  constructor
  · rintro ⟨p, hp, hk⟩
    obtain ⟨d, hd, rfl⟩ := List.mem_map.1 (List.mem_reverse.1 hp)
    exact ⟨d, hd, (beq_iff_eq.1 hk).symm⟩
  · rintro ⟨d, hd, rfl⟩
    exact ⟨_, List.mem_reverse.2 (List.mem_map_of_mem hd), beq_self_eq_true _⟩

theorem Embedder.mem_embeddings (f : Embedder ν) {documents : List (Doc ν)} {k : Text} {v : Value ν}
    (h : (f.embeddings documents).get? k = some v) :
    ∃ d ∈ documents, identifier d = k ∧ f.value (takenText d) = v := by
  rw [f.get?_embeddings] at h
  obtain ⟨before, after, hl, -⟩ := List.lookup_eq_some_iff.1 h
  have hmem : (k, v) ∈ (documents.map fun d => (identifier d, f.value (takenText d))).reverse := by
    rw [hl]
    simp
  obtain ⟨d, hd, heq⟩ := List.mem_map.1 (List.mem_reverse.1 hmem)
  cases heq
  exact ⟨d, hd, rfl, rfl⟩

/-! ## The checked embeddings -/

/-- The checks keep the keys and the order, and turn each value into its vector. -/
theorem mapM_validated {fields : List (Text × Value ν)} {vectors : List (Text × List ν)}
    (h : fields.mapM (fun f => do let vector ← validatedVector f.2; return (f.1, vector)) =
      .ok vectors) :
    vectors.map Prod.fst = fields.map Prod.fst ∧
      ∀ k v, fields.lookup k = some v → ∃ w, validatedVector v = .ok w ∧ vectors.lookup k = some w := by
  induction fields generalizing vectors with
  | nil =>
    cases h
    exact ⟨rfl, nofun⟩
  | cons f rest ih =>
    obtain ⟨k', v'⟩ := f
    simp only [List.mapM_cons, bind_eq_ok, pure_eq_ok] at h
    obtain ⟨_, ⟨w, hw, rfl⟩, vs, hvs, rfl⟩ := h
    obtain ⟨hkeys, hlookup⟩ := ih hvs
    refine ⟨by rw [List.map_cons, List.map_cons, hkeys], fun k v hv => ?_⟩
    rw [List.lookup_cons] at hv ⊢
    by_cases hk : k = k'
    · have hb : (k == k') = true := by simpa using hk
      simp only [hb] at hv ⊢
      cases hv
      exact ⟨w, hw, rfl⟩
    · have hb : (k == k') = false := by simpa using hk
      simp only [hb] at hv ⊢
      exact hlookup k v hv

omit [Python ν] in
theorem lookup_eq_get? (d : Doc ν) (k : Text) : d.rows.lookup k = d.get? k := by
  show d.rows.lookup k = (d.rows.find? fun r => r.1 = k).map Prod.snd
  induction d.rows with
  | nil => rfl
  | cons f rest ih =>
    obtain ⟨k', v⟩ := f
    rw [List.lookup_cons, List.find?_cons]
    by_cases hk : k = k'
    · subst hk
      simp
    · have hb : (k == k') = false := by simpa using hk
      simp only [hb, show decide (k' = k) = false by simpa using Ne.symm hk]
      exact ih

theorem checkEmbeddings_vectors {embeddings : Doc ν} {e : Embeddings ν}
    (h : checkEmbeddings embeddings = .ok e) :
    e.vectors.map Prod.fst = embeddings.rows.map Prod.fst ∧
      ∀ k v, embeddings.get? k = some v → validatedVector v = .ok (e.vector k) := by
  simp only [checkEmbeddings, bind_eq_ok] at h
  obtain ⟨vectors, hv, h⟩ := h
  have he : e.vectors = vectors := by
    split at h
    · cases h; rfl
    · cases h; rfl
    · cases h
  obtain ⟨hkeys, hlookup⟩ := mapM_validated hv
  refine ⟨by rw [he, hkeys], fun k v hkv => ?_⟩
  rw [← lookup_eq_get?] at hkv
  obtain ⟨w, hw, hl⟩ := hlookup k v hkv
  unfold Embeddings.vector
  rw [he, hl]
  exact hw

theorem eq_nil_or_singleton {l : List Nat} {n : Nat} (hnd : l.Nodup) (h : ∀ x ∈ l, x = n) :
    l = [] ∨ l = [n] := by
  cases l with
  | nil => exact .inl rfl
  | cons x rest =>
    obtain rfl : x = n := h x List.mem_cons_self
    cases rest with
    | nil => exact .inr rfl
    | cons y rest =>
      have hy : y = x := h y (List.mem_cons_of_mem x List.mem_cons_self)
      rw [hy] at hnd
      exact absurd List.mem_cons_self (List.nodup_cons.1 hnd).1

/-- The embeddings of a model of one dimension pass the checks. -/
theorem Embedder.check (f : Embedder ν) (documents : List (Doc ν)) :
    ∃ e, checkEmbeddings (f.embeddings documents) = .ok e := by
  have hvalue : ∀ x ∈ (f.embeddings documents).rows, ∃ t, x.2 = f.value t := by
    intro x hx
    have hget : (f.embeddings documents).get? x.1 = some x.2 := by
      unfold Doc.get?
      rw [Table.find?_eq_some.2 ⟨hx, rfl⟩]
      rfl
    obtain ⟨d, -, -, hd⟩ := f.mem_embeddings hget
    exact ⟨_, hd.symm⟩
  let read : Text × Value ν → Text × List ν := fun x =>
    (x.1, match validatedVector x.2 with | .ok w => w | .error _ => [])
  have hread : ∀ x ∈ (f.embeddings documents).rows,
      (do let vector ← validatedVector x.2; return (x.1, vector)) = .ok (read x) := by
    intro x hx
    obtain ⟨t, ht⟩ := hvalue x hx
    simp only [read, ht, f.validated, bind_eq_ok, pure_eq_ok]
    exact ⟨_, rfl, rfl⟩
  have hdims : ∀ n ∈ (((f.embeddings documents).rows.map read).filterMap fun v =>
      unlessEmpty v.2 v.2.length).dedup, n = f.dimension := by
    intro n hn
    rw [List.mem_dedup, List.mem_filterMap] at hn
    obtain ⟨_, hy, hn⟩ := hn
    obtain ⟨x, hx, rfl⟩ := List.mem_map.1 hy
    obtain ⟨t, ht⟩ := hvalue x hx
    simp only [read, ht, f.validated, unlessEmpty] at hn
    split at hn
    · cases hn
    · cases hn
      exact f.length t
  simp only [checkEmbeddings, bind_eq_ok]
  rcases eq_nil_or_singleton (List.nodup_dedup _) hdims with hnil | hone
  · exact ⟨_, _, mapM_ok hread, by rw [hnil]; rfl⟩
  · exact ⟨_, _, mapM_ok hread, by rw [hone]; rfl⟩

/-- `covers` compares the identifiers with the keys of the records. -/
theorem Embedder.covers_iff (f : Embedder ν) {documents : List (Doc ν)} {e : Embeddings ν}
    (h : checkEmbeddings (f.embeddings documents) = .ok e) (rows : List (Record ν)) :
    e.covers rows = true ↔
      ∀ k, (∃ d ∈ documents, identifier d = k) ↔ ∃ r ∈ rows, r.recordId = k := by
  have hkey : ∀ k, k ∈ e.vectors.map Prod.fst ↔ ∃ d ∈ documents, identifier d = k := by
    intro k
    rw [(checkEmbeddings_vectors h).1, mem_keys, f.isSome_embeddings]
  unfold Embeddings.covers
  simp only [Bool.and_eq_true, List.all_eq_true, List.any_eq_true, decide_eq_true_eq]
  constructor
  · rintro ⟨h₁, h₂⟩ k
    rw [← hkey, List.mem_map]
    constructor
    · rintro ⟨v, hv, rfl⟩
      exact h₁ v hv
    · rintro ⟨r, hr, rfl⟩
      exact h₂ r hr
  · intro hall
    constructor
    · intro v hv
      exact (hall v.1).1 ((hkey v.1).1 (List.mem_map_of_mem hv))
    · intro r hr
      have hk := (hkey r.recordId).2 ((hall r.recordId).2 ⟨r, hr, rfl⟩)
      exact List.mem_map.1 hk

/-! ## A rebuild that nothing disturbs -/

/-- The state that a connection works on and may write to. -/
def Sight (w : Db ν) (s : Shared ν) (l : Connection ν) : Prop :=
  l.tx = some w ∨ (l.tx = none ∧ s.writer = none ∧ s.db = w)

/-- Undisturbed, a program turns one state into another. -/
def Turns (p : Code ν Unit) (w w' : Db ν) : Prop :=
  ∀ s l, Sight w s l → ∃ s' l', p.calm s l = (.ok (), s', l') ∧ Sight w' s' l'

omit [Python ν] in
theorem Turns.seq {p q : Code ν Unit} {w w₁ w₂ : Db ν} (hp : Turns p w w₁) (hq : Turns q w₁ w₂) :
    Turns (p >>= fun _ => q) w w₂ := by
  intro s l h
  obtain ⟨s₁, l₁, hc, h₁⟩ := hp s l h
  obtain ⟨s₂, l₂, hc₂, h₂⟩ := hq s₁ l₁ h₁
  exact ⟨s₂, l₂, (Prog.calm_bind_ok hc).trans hc₂, h₂⟩

omit [Python ν] in
theorem turns_execute (g : Db ν → Db ν) (w : Db ν) :
    Turns (.perform (Act.execute fun db => .ok (g db))) w (g w) := by
  intro s l h
  rcases h with htx | ⟨htx, hfree, rfl⟩
  · refine ⟨s, { l with tx := some (g w) }, ?_, .inl rfl⟩
    simp only [Prog.perform, Prog.calm, Act.execute, Act.change, htx]
    rfl
  · refine ⟨{ s with writer := some l.pid }, { l with tx := some (g s.db) }, ?_, .inl rfl⟩
    have hchange : Act.change (fun db => .ok (g db)) s l =
        .ok ({ s with writer := some l.pid }, { l with tx := some (g s.db) }) := by
      simp only [Act.change, htx, bind_eq_ok, ensure_eq_ok, pure_eq_ok]
      exact ⟨(), hfree, _, rfl, rfl⟩
    simp only [Prog.perform, Prog.calm, Act.execute, hchange]
    rfl

/-- The last statement of `replace_embeddings`. -/
def setEmbeddings (e : Embeddings ν) : Code ν Unit :=
  match e.dimension with
  | none => pure ()
  | some n => .perform (Act.execute fun db => .ok (setDimension n db))

omit [Python ν] in
theorem turns_updateRows (now : Text) (e : Embeddings ν) (rows : List (Record ν)) (w : Db ν) :
    Turns (updateRows now e rows) w (updateAll now e rows w) := by
  induction rows generalizing w with
  | nil => exact fun s l h => ⟨s, l, rfl, h⟩
  | cons r rest ih => exact (turns_execute _ w).seq (ih _)

omit [Python ν] in
/-- A selection gives what is in sight. -/
theorem calm_select {β : Type} (g : Db ν → β) {w : Db ν} {s : Shared ν} {l : Connection ν}
    (h : Sight w s l) :
    ∃ l', Prog.calm (.perform (Act.select g) : Code ν β) s l = (.ok (g w), s, l') ∧ Sight w s l' := by
  refine ⟨{ l with read := l.read || l.tx.isNone }, ?_, h⟩
  have hv : visible s l = w := by
    rcases h with htx | ⟨htx, -, rfl⟩ <;> simp [visible, htx]
  show (Except.ok (g (visible s l)), _, _) = _
  rw [hv]

omit [Python ν] in
theorem turns_replaceRows {now : Text} {e : Embeddings ν} {w w' : Db ν}
    (h : replaceAll now e w = .ok w') : Turns (replaceRows now e) w w' := by
  simp only [replaceAll, bind_eq_ok, pure_eq_ok, ensure_eq_ok] at h
  obtain ⟨_, hcov, rfl⟩ := h
  intro s l hs
  obtain ⟨l₁, hsel, h₁⟩ := calm_select orderedRecords hs
  have hrest : Turns (do
      Prog.raiseIf (e.covers (orderedRecords w) = false)
        (.valueError "embedding rebuild must cover every memory record")
      updateRows now e (orderedRecords w)
      .perform (Act.execute fun db => .ok (clearDimension db))
      setEmbeddings e : Code ν Unit) w
      (resetDimension e (updateAll now e (orderedRecords w) w)) := by
    have hcheck : Turns (Prog.raiseIf (e.covers (orderedRecords w) = false)
        (.valueError "embedding rebuild must cover every memory record") : Code ν Unit) w w := by
      intro s l h
      refine ⟨s, l, ?_, h⟩
      rw [Prog.raiseIf, if_neg (by simp [hcov])]
      rfl
    refine hcheck.seq ((turns_updateRows now e _ w).seq ((turns_execute clearDimension _).seq ?_))
    unfold resetDimension setEmbeddings
    cases e.dimension with
    | none => exact fun s l h => ⟨s, l, rfl, h⟩
    | some n => exact turns_execute (setDimension n) _
  obtain ⟨s₂, l₂, hc, h₂⟩ := hrest s l₁ h₁
  exact ⟨s₂, l₂, (Prog.calm_bind_ok hsel).trans hc, h₂⟩

omit [Python ν] in
theorem calm_replaceRows_error (now : Text) {e : Embeddings ν} {w : Db ν} {s : Shared ν}
    {l : Connection ν} (h : Sight w s l) (hcov : e.covers (orderedRecords w) = false) :
    ∃ x s' l', (replaceRows now e).calm s l = (.error x, s', l') := by
  obtain ⟨l₁, hsel, -⟩ := calm_select orderedRecords h
  refine ⟨.valueError "embedding rebuild must cover every memory record", s, l₁,
    (Prog.calm_bind_ok hsel).trans (Prog.calm_bind_error ?_)⟩
  rw [Prog.raiseIf, if_pos hcov]
  rfl

omit [Python ν] in
theorem calm_transaction {p : Code ν Unit} {w w' : Db ν} {s : Shared ν} {l : Connection ν}
    (hp : Turns p w w') (h : Sight w s l) :
    ∃ s' l', (transaction p).calm s l = (.ok (), s', l') ∧ s'.db = w' := by
  obtain ⟨s₁, l₁, hc, h₁⟩ := hp s l h
  have hcommit : Prog.calm (.perform Act.commit : Code ν Unit) s₁ l₁ =
      (.ok (), l₁.landed s₁, Act.ended l₁) := rfl
  refine ⟨_, _, Prog.calm_onError_ok ((Prog.calm_bind_ok hc).trans hcommit), ?_⟩
  unfold Connection.landed
  rcases h₁ with htx | ⟨htx, -, hdb⟩
  · rw [htx]
  · rw [htx]
    exact hdb

/-- `replace_embeddings` of checked embeddings: it succeeds when they cover the records. -/
theorem calm_replaceEmbeddings (now : Text) {embeddings : Doc ν} {e : Embeddings ν} {w : Db ν}
    {s : Shared ν} {l : Connection ν} (he : checkEmbeddings embeddings = .ok e) (h : Sight w s l) :
    (∀ w', replaceAll now e w = .ok w' →
      ∃ s' l', (replaceEmbeddings now embeddings).calm s l = (.ok (), s', l') ∧ s'.db = w') ∧
    (e.covers (orderedRecords w) = false →
      ∃ x, ((replaceEmbeddings now embeddings).calm s l).1 = .error x) := by
  have hprog : (replaceEmbeddings now embeddings).calm s l =
      (transaction (replaceRows now e)).calm s l := by
    unfold replaceEmbeddings
    rw [he]
    exact Prog.calm_bind_ok rfl
  rw [hprog]
  refine ⟨fun w' hw => calm_transaction (turns_replaceRows hw) h, fun hcov => ?_⟩
  obtain ⟨x, s', l', hc⟩ := calm_replaceRows_error now h hcov
  exact Prog.calm_onError_error (Prog.calm_bind_error hc)

theorem rebuilt_model (f : Embedder ν) {documents : List (Doc ν)}
    (h : ∀ d ∈ documents, (d.get? (text "id")).isSome = true) :
    rebuilt f.model documents = .ok (documents.map identifier, f.embeddings documents) := by
  have hids : identifiers documents = .ok (documents.map identifier) := by
    refine mapM_ok fun d hd => ?_
    obtain ⟨v, hv⟩ := Option.isSome_iff_exists.1 (h d hd)
    simp only [bind_eq_ok, pure_eq_ok, fetch_eq_ok, identifier, Doc.get]
    exact ⟨v, hv, by rw [hv]; rfl⟩
  simp only [rebuilt, Embedder.model, bind_eq_ok, pure_eq_ok, ensure_eq_ok]
  exact ⟨_, rfl, (), by simp, _, hids, rfl⟩

omit [Python ν] in
theorem calm_authorize (ids : List Text) (s : Shared ν) (l : Connection ν) :
    (authorizeEmbeddingRebuild ids : Code ν Unit).calm s l = (.ok (), s, l) := by
  induction ids with
  | nil => rfl
  | cons _ rest ih =>
    have hask : Prog.calm (.perform Act.ask : Code ν Unit) s l = (.ok (), s, l) := rfl
    exact (Prog.calm_bind_ok hask).trans ih

/-- A rebuild of a store that nothing disturbs is the replacement of its embeddings. -/
theorem calm_rebuildEmbeddings (f : Embedder ν) (now : Text) {w : Db ν} {s : Shared ν}
    {l : Connection ν} (h : Sight w s l)
    (hid : ∀ r ∈ w.records, (r.document.get? (text "id")).isSome = true) :
    ∃ l', Sight w s l' ∧ (rebuildEmbeddings now (some f.model)).calm s l =
      (replaceEmbeddings now (f.embeddings ((orderedRecords w).map Record.document))).calm s l' := by
  obtain ⟨l₁, hsel, h₁⟩ := calm_select (fun db => (orderedRecords db).map Record.document) h
  refine ⟨l₁, h₁, (Prog.calm_bind_ok hsel).trans ?_⟩
  rw [rebuilt_model f]
  · exact Prog.calm_bind_ok (calm_authorize _ s l₁)
  · intro d hd
    obtain ⟨r, hr, rfl⟩ := List.mem_map.1 hd
    exact hid r (mem_orderedRecords.1 hr)

/-! ## Stores that upserts reach -/

theorem storeAfter_inv (docs : List (Text × Doc ν)) : (storeAfter docs).db.Inv := by
  have hstep : ∀ (docs : List (Text × Doc ν)) (s : Shared ν), s.db.Inv →
      (docs.foldl (fun s x => ((remember x.1 x.2).calm s { pid := 0 }).2.1) s).db.Inv := by
    intro docs
    induction docs with
    | nil => exact fun s h => h
    | cons x rest ih =>
      intro s h
      refine ih _ ?_
      have hwp := wp_remember (s := s) (l := { pid := 0 }) x.1 x.2 rfl rfl
      have hkeep : ∀ s l s' l', (contractOf (Call.upsert [(x.1, x.2)]).Applied).guar s l s' l' →
          s.db.Inv → s'.db.Inv := by
        rintro s l s' l' ⟨-, hsame | ⟨-, happ⟩, -⟩ hi
        · rw [hsame]
          exact hi
        · exact happ.inv hi
      have hrefl : ∀ l s, (contractOf (Call.upsert [(x.1, x.2)]).Applied).rely l s s :=
        fun _ _ => ⟨fun _ => rfl, Iff.rfl⟩
      have hrun := (wp_run (I := fun s _ => s.db.Inv) die hrefl hkeep (fun _ _ h => h) hwp h []).1
      rw [Prog.run_nil] at hrun
      exact hrun
  exact hstep docs _ Db.inv_empty

/-- An undisturbed rebuild succeeds and leaves every record with the embedding of its
content. -/
def Rebuilds (f : Embedder ν) (now : Text) (db : Db ν) : Prop :=
  ∃ s' l', (rebuildEmbeddings now (some f.model)).calm { db } { pid := 0 } = (.ok (), s', l') ∧
    ∀ r ∈ db.records, ∃ r' ∈ s'.db.records, r'.recordId = r.recordId ∧ r'.content = r.content ∧
      r'.embedding = some (f.embed r.content)

/-- The `id`s of the stored documents, as texts, are the keys of the records, and from the
document with a record's key the model makes the vector of the record's content. -/
structure Rebuildable (f : Embedder ν) (db : Db ν) : Prop where
  covers : ∀ k, (∃ r ∈ db.records, identifier r.document = k) ↔ ∃ r ∈ db.records, r.recordId = k
  own : ∀ r ∈ db.records, ∀ r' ∈ db.records, identifier r'.document = r.recordId →
    f.embed (takenText r'.document) = f.embed r.content

omit [Python ν] in
theorem exists_document {w : Db ν} {P : Doc ν → Prop} :
    (∃ d ∈ (orderedRecords w).map Record.document, P d) ↔ ∃ r ∈ w.records, P r.document := by
  constructor
  · rintro ⟨d, hd, hP⟩
    obtain ⟨r, hr, rfl⟩ := List.mem_map.1 hd
    exact ⟨r, mem_orderedRecords.1 hr, hP⟩
  · rintro ⟨r, hr, hP⟩
    exact ⟨_, List.mem_map_of_mem (mem_orderedRecords.2 hr), hP⟩

omit [Python ν] in
theorem exists_ordered {w : Db ν} {P : Record ν → Prop} :
    (∃ r ∈ orderedRecords w, P r) ↔ ∃ r ∈ w.records, P r := by
  simp only [mem_orderedRecords]

/-- If the identifiers are the keys, no two records have one identifier. -/
theorem identifier_inj {db : Db ν}
    (h : ∀ k, (∃ r ∈ db.records, identifier r.document = k) ↔ ∃ r ∈ db.records, r.recordId = k)
    {r r' : Record ν} (hr : r ∈ db.records) (hr' : r' ∈ db.records)
    (he : identifier r.document = identifier r'.document) : r = r' := by
  have hsub : db.records.rows.map Record.recordId ⊆
      db.records.rows.map fun r => identifier r.document := by
    intro k hk
    obtain ⟨x, hx, hxk⟩ := List.mem_map.1 hk
    obtain ⟨y, hy, hyk⟩ := (h k).2 ⟨x, hx, hxk⟩
    exact List.mem_map.2 ⟨y, hy, hyk⟩
  have hperm := (List.subperm_of_subset db.records.nodup hsub).perm_of_length_le (by simp)
  exact List.inj_on_of_nodup_map (hperm.nodup_iff.1 db.records.nodup) hr hr' he

/-- The vector for a key is the one of a document that has it as its identifier. -/
theorem Embedder.vector_eq (f : Embedder ν) {w : Db ν} {e : Embeddings ν}
    (he : checkEmbeddings (f.embeddings ((orderedRecords w).map Record.document)) = .ok e)
    {k : Text} (hk : ∃ r ∈ w.records, identifier r.document = k) :
    ∃ r ∈ w.records, identifier r.document = k ∧ e.vector k = f.embed (takenText r.document) := by
  have hsome := (f.isSome_embeddings _ k).2 (exists_document.2 hk)
  obtain ⟨v, hv⟩ := Option.isSome_iff_exists.1 hsome
  have hvec := (checkEmbeddings_vectors he).2 k v hv
  obtain ⟨d, hd, hdk, rfl⟩ := f.mem_embeddings hv
  obtain ⟨r, hr, rfl⟩ := List.mem_map.1 hd
  rw [f.validated] at hvec
  exact ⟨r, mem_orderedRecords.1 hr, hdk, (Except.ok.inj hvec).symm⟩

omit [Python ν] in
theorem replaceAll_covered (now : Text) {e : Embeddings ν} {db : Db ν}
    (h : e.covers (orderedRecords db) = true) :
    replaceAll now e db = .ok (resetDimension e (updateAll now e (orderedRecords db) db)) := by
  simp only [replaceAll, ensure, h, if_true]
  rfl

section

variable {f : Embedder ν} {now : Text} {db : Db ν}

omit [Python ν] in
theorem unlessEmpty_of_ne {v : List ν} (h : v ≠ []) : unlessEmpty v v = some v := by
  rw [unlessEmpty, if_neg (by simpa using h)]

theorem Rebuilds.rebuildable (hi : db.Inv) (h : Rebuilds f now db) : Rebuildable f db := by
  obtain ⟨s', l', hok, hall⟩ := h
  have hsight : Sight db ({ db } : Shared ν) { pid := 0 } := .inr ⟨rfl, rfl, rfl⟩
  obtain ⟨l₁, h₁, hcalm⟩ := calm_rebuildEmbeddings f now hsight
    fun r hr => (hi.sound r hr).identified
  obtain ⟨e, he⟩ := f.check ((orderedRecords db).map Record.document)
  have hcov := f.covers_iff he (orderedRecords db)
  simp only [exists_document, exists_ordered] at hcov
  obtain ⟨hgood, hbad⟩ := calm_replaceEmbeddings now he h₁
  rw [hcalm] at hok
  have hc : e.covers (orderedRecords db) = true := by
    by_contra hc
    obtain ⟨x, hx⟩ := hbad (by simpa using hc)
    rw [hok] at hx
    cases hx
  refine ⟨hcov.1 hc, fun r hr r' hr' hid => ?_⟩
  have hrep := replaceAll_covered now hc
  obtain ⟨s₂, l₂, hok₂, hdb⟩ := hgood _ hrep
  rw [hok] at hok₂
  cases hok₂
  obtain ⟨x, hx, hxid, -, hemb⟩ := hall r hr
  rw [hdb] at hx
  obtain ⟨y, hy, rfl⟩ := ((replaceAll_eq_ok hrep).1 x).1 hx
  obtain rfl : y = r := Table.eq_of_key_eq hy hr hxid
  obtain ⟨z, hz, hzid, hvec⟩ := f.vector_eq he ⟨r', hr', hid⟩
  obtain rfl : z = r' := identifier_inj (hcov.1 hc) hz hr' (hzid.trans hid.symm)
  have hemb : unlessEmpty (e.vector y.recordId) (e.vector y.recordId) =
      some (f.embed y.content) := hemb
  rw [hvec, unlessEmpty_of_ne (f.ne_nil _)] at hemb
  exact Option.some.inj hemb

theorem Rebuildable.rebuilds (hi : db.Inv) (h : Rebuildable f db) : Rebuilds f now db := by
  have hsight : Sight db ({ db } : Shared ν) { pid := 0 } := .inr ⟨rfl, rfl, rfl⟩
  obtain ⟨l₁, h₁, hcalm⟩ := calm_rebuildEmbeddings f now hsight
    fun r hr => (hi.sound r hr).identified
  obtain ⟨e, he⟩ := f.check ((orderedRecords db).map Record.document)
  have hcov := f.covers_iff he (orderedRecords db)
  simp only [exists_document, exists_ordered] at hcov
  have hrep := replaceAll_covered now (hcov.2 h.covers)
  obtain ⟨s', l', hok, hdb⟩ := (calm_replaceEmbeddings now he h₁).1 _ hrep
  refine ⟨s', l', hcalm.trans hok, fun r hr => ⟨r.reembedded now e, ?_, rfl, rfl, ?_⟩⟩
  · rw [hdb]
    exact ((replaceAll_eq_ok hrep).1 _).2 ⟨r, hr, rfl⟩
  · obtain ⟨z, hz, hzid, hvec⟩ := f.vector_eq he ((h.covers r.recordId).2 ⟨r, hr, rfl⟩)
    show unlessEmpty (e.vector r.recordId) (e.vector r.recordId) = some (f.embed r.content)
    rw [hvec, unlessEmpty_of_ne (f.ne_nil _), h.own r hr z hz hzid]

end

/-- **The rebuild is total where the names and the texts agree.**  On every store that
governed upserts reach, a rebuild succeeds and leaves every record with the embedding of its
content if and only if the store is rebuildable. -/
theorem rebuilds_iff (f : Embedder ν) (now : Text) (docs : List (Text × Doc ν)) :
    Rebuilds f now (storeAfter docs).db ↔ Rebuildable f (storeAfter docs).db :=
  ⟨Rebuilds.rebuildable (storeAfter_inv docs), Rebuildable.rebuilds (storeAfter_inv docs)⟩

/-! ## Rebuilds and upserts side by side -/

/-- The record is what its newest upsert made it, apart from its embedding; the columns, the
document and the full-text row say the same. -/
structure Current (db : Db ν) (r : Record ν) : Prop where
  newest : ∃ w, db.newest r.recordId = some w ∧ r.Describes w
  content : documentContent r.document = r.content
  indexed : ∀ row ∈ db.fts, row.1 = r.recordId → row.2 = r.content
  found : (r.recordId, r.content) ∈ db.fts

theorem Db.Inv.current {db : Db ν} (hi : db.Inv) {r : Record ν} (hr : r ∈ db.records) :
    Current db r where
  newest := hi.newest r hr
  content := (hi.sound r hr).content
  indexed := by
    intro row hrow hk
    obtain ⟨x, hx, rfl⟩ := (hi.fts row).1 hrow
    obtain rfl : x = r := Table.eq_of_key_eq hx hr hk
    rfl
  found := (hi.fts _).2 ⟨r, hr, rfl⟩

/-- The document names its record, and the text taken from it has the vector of the content. -/
def Plain (f : Embedder ν) (r : Record ν) : Prop :=
  identifier r.document = r.recordId ∧ f.embed (takenText r.document) = f.embed r.content

/-- The embedding is the one its newest upsert gave, or was computed from its content. -/
def Embedded (f : Embedder ν) (db : Db ν) (r : Record ν) : Prop :=
  ∃ w, db.newest r.recordId = some w ∧
    (r.embedding = w.embedding ∨ r.embedding = some (f.embed r.content))

/-- Upserts of plain documents, and rebuilds with one model. -/
def Call.Rebuilding (f : Embedder ν) : Call ν → Prop
  | .upsert docs => ∀ x ∈ docs, ∀ r, prepareDocument x.1 x.2 = .ok r → Plain f r
  | .replace _ _ => False
  | .rebuild _ model => ∀ m, model = some m → m = f.model

section

variable {f : Embedder ν} {db db' : Db ν}

theorem upsertRow_embedded {r : Record ν} (hp : Plain f r)
    (h : upsertRow r db = .ok db') (hall : ∀ x ∈ db.records, Plain f x ∧ Embedded f db x) :
    ∀ x ∈ db'.records, Plain f x ∧ Embedded f db' x := by
  obtain rfl := upsertRow_eq_ok h
  intro x hx
  have hx : x ∈ db.records.upsert r r.onConflict r.recordId_onConflict := hx
  rw [Table.mem_upsert, upserted_eq] at hx
  rcases hx with ⟨hx, hne⟩ | rfl
  · obtain ⟨hplain, w, hw, hemb⟩ := hall x hx
    refine ⟨hplain, w, ?_, hemb⟩
    show ((db.written ++ [r]).reverse.find? fun w => w.recordId = x.recordId) = some w
    rw [newest_append, if_neg (Ne.symm hne)]
    exact hw
  · refine ⟨hp, r, ?_, .inl rfl⟩
    show ((db.written ++ [r]).reverse.find? fun w => w.recordId = r.recordId) = some r
    rw [newest_append, if_pos rfl]

theorem upsertRows_embedded {prepared : List (Record ν)} (hp : ∀ r ∈ prepared, Plain f r)
    (h : prepared.foldlM (fun db r => upsertRow r db) db = .ok db')
    (hall : ∀ x ∈ db.records, Plain f x ∧ Embedded f db x) :
    ∀ x ∈ db'.records, Plain f x ∧ Embedded f db' x := by
  induction prepared generalizing db with
  | nil =>
    cases h
    exact hall
  | cons r rest ih =>
    simp only [List.foldlM_cons, bind_eq_ok] at h
    obtain ⟨db₁, h₁, h⟩ := h
    obtain ⟨hr, hrest⟩ := List.forall_mem_cons.1 hp
    exact ih hrest h (upsertRow_embedded hr h₁ hall)

omit [Python ν] in
theorem validateDimensions_frame {prepared : List (Record ν)}
    (h : validateDimensions prepared db = .ok db') :
    db' = db ∨ ∃ n, db' = setDimension n db := by
  unfold validateDimensions at h
  split at h
  · cases h
    exact .inl rfl
  · simp only [bind_eq_ok, pure_eq_ok] at h
    obtain ⟨⟨stored, new⟩, -, _, -, rfl⟩ := h
    cases new
    · exact .inl rfl
    · exact .inr ⟨stored, rfl⟩
  · cases h

theorem rebuild_embedded {now : Text} {e : Embeddings ν} (hi : db.Inv)
    (he : checkEmbeddings (f.embeddings ((orderedRecords db).map Record.document)) = .ok e)
    (h : replaceAll now e db = .ok db') (hall : ∀ x ∈ db.records, Plain f x ∧ Embedded f db x) :
    ∀ x ∈ db'.records, Plain f x ∧ Embedded f db' x := by
  obtain ⟨hmem, -, -, hwritten⟩ := replaceAll_eq_ok h
  intro x hx
  obtain ⟨r, hr, rfl⟩ := (hmem x).1 hx
  obtain ⟨⟨hid, htaken⟩, w, hw, -⟩ := hall r hr
  have hdoc := ((hi.sound r hr).reembedded now (checkEmbeddings_checked he)).2.document
  have hget : ∀ k, k ≠ text "embedding" → k ≠ text "vector" →
      (r.reembedded now e).document.get k = r.document.get k := by
    intro k hk hk'
    unfold Doc.get
    rw [hdoc k hk hk']
  obtain ⟨z, hz, hzid, hvec⟩ := f.vector_eq he ⟨r, hr, hid⟩
  obtain rfl : z = r := Table.eq_of_key_eq hz hr ((hall z hz).1.1.symm.trans hzid)
  refine ⟨⟨?_, ?_⟩, w, ?_, .inr ?_⟩
  · unfold identifier
    rw [hget _ (by decide) (by decide)]
    exact hid
  · unfold takenText
    rw [hget _ (by decide) (by decide), hget _ (by decide) (by decide)]
    exact htaken
  · unfold Db.newest
    rw [hwritten]
    exact hw
  · show unlessEmpty (e.vector z.recordId) (e.vector z.recordId) = some (f.embed z.content)
    rw [hvec, unlessEmpty_of_ne (f.ne_nil _), htaken]

/-- What the calls make of a store whose records are plain. -/
theorem Call.Applied.embedded {a : Call ν} (ha : a.Rebuilding f) (h : a.Applied db db')
    (hi : db.Inv) (hall : ∀ x ∈ db.records, Plain f x ∧ Embedded f db x) :
    ∀ x ∈ db'.records, Plain f x ∧ Embedded f db' x := by
  cases a with
  | upsert docs =>
    obtain ⟨prepared, hprep, h⟩ := h
    have hp : ∀ r ∈ prepared, Plain f r := by
      intro r hr
      obtain ⟨x, hx, hxr⟩ := mem_mapM hprep hr
      exact ha x hx r hxr
    simp only [upsertMany, bind_eq_ok] at h
    obtain ⟨db₁, h₁, h⟩ := h
    rcases validateDimensions_frame h₁ with rfl | ⟨n, rfl⟩
    · exact upsertRows_embedded hp h hall
    · exact upsertRows_embedded hp h hall
  | replace now embeddings => exact ha.elim
  | rebuild now model =>
    obtain ⟨m, ids, embeddings, e, hm, hreb, he, h⟩ := h
    obtain rfl := ha m hm
    rw [rebuilt_model f] at hreb
    · cases hreb
      exact rebuild_embedded hi he h hall
    · intro d hd
      obtain ⟨r, hr, rfl⟩ := List.mem_map.1 hd
      exact (hi.sound r (mem_orderedRecords.1 hr)).identified

end

/-- **No update is lost.**  In an undisturbed run of any connections every record describes its
newest upsert; and if the calls are upserts of plain documents and rebuilds with one model,
its embedding is the upsert's own or was computed from its content. -/
theorem rebuild_loses_nothing (f : Embedder ν) (turns : List (Turn Fault (Call ν)))
    (h : (sessions ν).Along Undisturbed (initial ν) turns) :
    (∀ r ∈ ((sessions ν).run (initial ν) turns).shared.db.records,
      Current ((sessions ν).run (initial ν) turns).shared.db r) ∧
    ((∀ a ∈ starts turns, a.Rebuilding f) →
      ∀ r ∈ ((sessions ν).run (initial ν) turns).shared.db.records,
        Embedded f ((sessions ν).run (initial ν) turns).shared.db r) := by
  refine ⟨fun r hr => (undisturbed_inv h).current hr, fun hcalls r hr => ?_⟩
  have hkeep : ∀ a ∈ starts turns, ∀ d d', Call.Applied a d d' →
      (d.Inv ∧ ∀ x ∈ d.records, Plain f x ∧ Embedded f d x) →
        d'.Inv ∧ ∀ x ∈ d'.records, Plain f x ∧ Embedded f d' x :=
    fun a ha d d' happ hd => ⟨happ.inv hd.1, happ.embedded (hcalls a ha) hd.1 hd.2⟩
  have hempty : ∀ x ∈ (Db.empty : Db ν).records, Plain f x ∧ Embedded f Db.empty x :=
    fun x hx => absurd hx List.not_mem_nil
  exact ((undisturbed_keeps ⟨Db.inv_empty, hempty⟩ hkeep h).2 r hr).2

end

/-! ## Examples -/

namespace Sample

/-- An embedding model of one dimension: the length of a text. -/
def lengths : Embedder Rat where
  embed t := [(t.length : Int)]
  dimension := 1
  pos := by decide
  length _ := rfl
  finite _ _ _ := rfl

/-- A document that is identified by its `chunk_id`. -/
def chunk : Doc Rat :=
  ⟨[(text "id", .str []), (text "chunk_id", .str (text "c")), (text "content", .str (text "x"))],
    by decide⟩

/-- The store keeps the empty `id`, and no record has that key: the rebuild raises. -/
theorem chunk_not_rebuilt : ¬ Rebuilds lengths noon (storeAfter [(noon, chunk)]).db := by
  intro h
  have hids : (storeAfter [(noon, chunk)]).db.records.rows.map (fun r => identifier r.document) =
      [[]] := by decide
  have hkeys : (storeAfter [(noon, chunk)]).db.records.rows.map Record.recordId = [text "c"] := by
    decide
  have hkey : text "c" ∈ (storeAfter [(noon, chunk)]).db.records.rows.map Record.recordId := by
    rw [hkeys]
    exact List.mem_cons_self
  obtain ⟨r, hr, hrk⟩ := List.mem_map.1 hkey
  obtain ⟨x, hx, hxk⟩ := ((h.rebuildable (storeAfter_inv _)).covers (text "c")).2 ⟨r, hr, hrk⟩
  have hid : text "c" ∈ (storeAfter [(noon, chunk)]).db.records.rows.map
      (fun r => identifier r.document) := hxk ▸ List.mem_map_of_mem hx
  rw [hids] at hid
  exact absurd hid (by decide)

/-- A rebuild reads, an upsert commits, the rebuild writes what it has read. -/
def overtaken : List (Turn Fault (Call Rat)) :=
  [.start 0 (.upsert [(noon, doc "a" [(text "content", .str (text "old"))])])] ++ acts 0 6 ++
    [.start 1 (.rebuild later (some lengths.model))] ++ acts 1 4 ++
    [.start 0 (.upsert [(later, doc "a" [(text "content", .str (text "newer"))])])] ++ acts 0 6 ++
    acts 1 5

/-- The document is the old one, the content column is the newer one's. -/
theorem overtaken_loses_update :
    ¬ ∀ r ∈ ((sessions Rat).run (initial Rat) overtaken).shared.db.records,
      Current ((sessions Rat).run (initial Rat) overtaken).shared.db r := by
  intro h
  have hdocument : ((sessions Rat).run (initial Rat) overtaken).shared.db.records.rows.map
      (fun r => documentContent r.document) = [text "old"] := by decide
  have hcolumn : ((sessions Rat).run (initial Rat) overtaken).shared.db.records.rows.map
      Record.content = [text "newer"] := by decide
  have hsame := List.map_congr_left fun r hr => (h r hr).content
  rw [hdocument, hcolumn] at hsame
  exact absurd hsame (by decide)

/-- One connection upserts a document and rebuilds. -/
def alone : List (Turn Fault (Call Rat)) :=
  [.start 0 (.upsert [(noon, doc "a" [(text "content", .str (text "old"))])])] ++ acts 0 6 ++
    [.start 0 (.rebuild later (some lengths.model))] ++ acts 0 9

theorem alone_rebuilding : ∀ a ∈ starts alone, Call.Rebuilding lengths a := by
  have hupsert : Call.Rebuilding lengths
      (.upsert [(noon, doc "a" [(text "content", .str (text "old"))])]) := by
    intro x hx r hr
    obtain rfl := List.mem_singleton.1 hx
    cases hr
    exact ⟨rfl, rfl⟩
  have hrebuild : Call.Rebuilding lengths (.rebuild later (some lengths.model)) := by
    intro m hm
    exact (Option.some.inj hm).symm
  intro a ha
  rcases List.mem_cons.1 ha with rfl | ha
  · exact hupsert
  · obtain rfl := List.mem_singleton.1 ha
    exact hrebuild

theorem alone_loses_nothing :
    ((sessions Rat).run (initial Rat) alone).shared.db.records.rows.length = 1 ∧
      ∀ r ∈ ((sessions Rat).run (initial Rat) alone).shared.db.records,
        Current ((sessions Rat).run (initial Rat) alone).shared.db r ∧
          Embedded lengths ((sessions Rat).run (initial Rat) alone).shared.db r := by
  obtain ⟨hcurrent, hembedded⟩ :=
    rebuild_loses_nothing lengths alone (host_running_ne (by decide) fun _ _ => rfl)
  exact ⟨by decide +kernel, fun r hr => ⟨hcurrent r hr, hembedded alone_rebuilding r hr⟩⟩

end Sample

end ProjectMaya.Vector
