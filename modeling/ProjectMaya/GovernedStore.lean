import ProjectMaya.GovernedCalls
import ProjectMaya.VectorMap

/-! # What is authorised is what is written

The memory facade takes the id of a document by a rule of its own (`memoryId`), the rebuild of the
embeddings takes it from the stored document, and the store from its key.  A call changes the
records that the gateway has allowed by their ids, and no others (`written_as_authorised`). -/

namespace ProjectMaya.Vector.Governed

open Logic
open Enforcement (Refusal GovernedMemoryRetriever record)

/-- The facade with its collaborators: what the gateway answers to an action, and what the sink
makes of the `n`-th record of a call. -/
structure Host where
  memory : GovernedMemoryRetriever
  gateway : ActionRequest → Except Raised AuthorizationResult
  audit : Nat → AuditRecord → Except Raised Unit

/-- The exceptions of a governed call: its own and those of the store. -/
inductive Refused where
  | refusal (e : Refusal)
  | store (e : Failure)
  deriving DecidableEq, Repr

/-- How a call ends, and the store that it leaves; without a result the process has died. -/
structure Outcome (ν : Type) where
  result : Option (Except Refused Unit)
  shared : Shared ν

namespace Host

variable (host : Host)

/-- `if result.audit_required: self._audit_sink.write(…)` -/
def audited (n : Nat) (action : ActionRequest) (result : AuthorizationResult) :
    Except Refusal Unit :=
  if result.auditRequired then
    (host.audit n (record "authorization.memory" action result)).mapError .raised
  else .ok ()

/-- `_authorize`, the `n`-th of a call. -/
def authorize (n : Nat) (action : ActionRequest) : Except Refusal Unit := do
  let result ← (host.gateway action).mapError .raised
  host.audited n action result
  ensure (result.allowed = true) (.actionDenied result.reasonCode)

/-- The action of an operation on one record. -/
def actionOn (capability operation memoryId : String) : ActionRequest :=
  host.memory.action capability memoryId operation [("memory_id", memoryId)]

/-- The gateway allows the action, and its answer is written down if it has to be. -/
def Passes (n : Nat) (action : ActionRequest) : Prop :=
  ∃ result, host.gateway action = .ok result ∧ result.allowed = true ∧
    (result.auditRequired = true →
      host.audit n (record "authorization.memory" action result) = .ok ())

end Host

section

variable {ν : Type} [Python ν] (host : Host)

/-- A call that has got through to the store. -/
def performed (call : Call ν) (s : Shared ν) (pid : Nat) (moves : List (Move (Option Failure))) :
    Outcome ν :=
  let o := attempt call s pid moves
  ⟨o.result.map (·.mapError .store), o.shared⟩

/-- `remember` before it gets to the store. -/
def rememberChecks (document : Doc ν) : Except Refusal Unit := do
  host.authorize 0 (host.actionOn "memory.write" "remember" (GovernedMemoryRetriever.memoryId document))
  GovernedMemoryRetriever.identified document

/-- `GovernedMemoryRetriever.remember` over the store. -/
def remember (now : Text) (document : Doc ν) (s : Shared ν) (pid : Nat)
    (moves : List (Move (Option Failure))) : Outcome ν :=
  match rememberChecks host document with
  | .error e => ⟨some (.error (.refusal e)), s⟩
  | .ok () => performed (.upsert [(now, document)]) s pid moves

omit [Python ν] in
/-- `GovernedMemoryRetriever.recall` over the store. -/
def «recall» (memoryId : Text) (s : Shared ν) : Except Refusal (Option (Doc ν)) := do
  host.authorize 0 (host.actionOn "memory.read" "recall" (String.ofList memoryId))
  return Vector.get memoryId s.db

/-- `authorize_embedding_rebuild`, from the `n`-th question on. -/
def authorizeEmbeddingRebuild (n : Nat) : List Text → Except Refusal Unit
  | [] => .ok ()
  | memoryId :: rest => do
    host.authorize n (host.actionOn "memory.write" "rebuild_embedding" (String.ofList memoryId))
    authorizeEmbeddingRebuild (n + 1) rest

/-- `BusinessMemoryService.rebuild_embeddings`: it has read its documents in `seen`, and replaces the
embeddings in `s`. -/
def rebuildEmbeddings (now : Text) (model : Option (Model ν)) (seen : Db ν) (s : Shared ν) (pid : Nat)
    (moves : List (Move (Option Failure))) : Outcome ν :=
  match model with
  | none => ⟨some (.error (.refusal (.runtimeError "local embedding model is unavailable"))), s⟩
  | some model =>
    match rebuilt model (documents seen) with
    | .error e => ⟨some (.error (.store e)), s⟩
    | .ok (ids, embeddings) =>
      match authorizeEmbeddingRebuild host 0 ids with
      | .error e => ⟨some (.error (.refusal e)), s⟩
      | .ok () => performed (.replace now embeddings) s pid moves

end

/-! ## What the gateway has allowed -/

section

variable {host : Host}

theorem authorize_eq_ok {n : Nat} {action : ActionRequest} :
    host.authorize n action = .ok () ↔ host.Passes n action := by
  have haudited : ∀ result, host.audited n action result = .ok () ↔ (result.auditRequired = true →
      host.audit n (record "authorization.memory" action result) = .ok ()) := by
    intro result
    unfold Host.audited
    split
    · rename_i hreq
      rw [mapError_eq_ok]
      exact ⟨fun h _ => h, fun h => h hreq⟩
    · rename_i hreq
      exact ⟨fun _ h => absurd h hreq, fun _ => rfl⟩
  simp only [Host.authorize, bind_eq_ok, ensure_eq_ok, mapError_eq_ok, haudited]
  constructor
  · rintro ⟨result, hg, -, hw, hallowed⟩
    exact ⟨result, hg, hallowed, hw⟩
  · rintro ⟨result, hg, hallowed, hw⟩
    exact ⟨result, hg, (), hw, hallowed⟩

theorem authorizeEmbeddingRebuild_passes {n : Nat} {ids : List Text}
    (h : authorizeEmbeddingRebuild host n ids = .ok ()) {i : Nat} {id : Text}
    (hi : ids[i]? = some id) :
    host.Passes (n + i) (host.actionOn "memory.write" "rebuild_embedding" (String.ofList id)) := by
  induction ids generalizing n i with
  | nil => cases hi
  | cons x rest ih =>
    simp only [authorizeEmbeddingRebuild, bind_eq_ok] at h
    obtain ⟨_, hx, hrest⟩ := h
    cases i with
    | zero =>
      cases hi
      exact authorize_eq_ok.1 hx
    | succ i =>
      have hnext := ih hrest hi
      rwa [show n + 1 + i = n + (i + 1) by omega] at hnext

end

/-! ## What a call leaves alone -/

section

variable {ν : Type} {d d' d'' : Db ν} {id : Text}

/-- The record of `id` and its full-text row are the same in both. -/
def Untouched (id : Text) (d d' : Db ν) : Prop :=
  d'.records.find? id = d.records.find? id ∧
    d'.fts.filter (fun row => row.1 = id) = d.fts.filter fun row => row.1 = id

theorem Untouched.refl : Untouched id d d := ⟨rfl, rfl⟩

theorem Untouched.trans (h : Untouched id d d') (h' : Untouched id d' d'') : Untouched id d d'' :=
  ⟨h'.1.trans h.1, h'.2.trans h.2⟩

theorem untouched_upsertRow {r : Record ν} (h : upsertRow r d = .ok d') (hid : id ≠ r.recordId) :
    Untouched id d d' := by
  obtain rfl := upsertRow_eq_ok h
  constructor
  · show (d.records.upsert r r.onConflict r.recordId_onConflict).find? id = _
    rw [Table.find?_upsert, if_neg hid]
  · show (d.fts.filter (fun row => row.1 ≠ r.recordId) ++ [(r.recordId, r.content)]).filter _ = _
    rw [List.filter_append, List.filter_filter, List.filter_singleton]
    have hnew : decide (r.recordId = id) = false := by simpa using Ne.symm hid
    rw [hnew, Bool.cond_false, List.append_nil]
    refine List.filter_congr fun row _ => ?_
    by_cases hrow : row.1 = id
    · simp [hrow, hid]
    · simp [hrow]

theorem validateDimensions_frame {prepared : List (Record ν)}
    (h : validateDimensions prepared d = .ok d') : d'.records = d.records ∧ d'.fts = d.fts := by
  refine ⟨validateDimensions_records h, ?_⟩
  unfold validateDimensions at h
  split at h
  · cases h
    rfl
  · simp only [bind_eq_ok, pure_eq_ok, ensure_eq_ok] at h
    obtain ⟨⟨stored, new⟩, -, -, -, rfl⟩ := h
    cases new <;> rfl
  · cases h

end

section

variable {ν : Type} [Python ν] {host : Host} {d d' : Db ν}

theorem memoryId_eq {document : Doc ν} {id : Text} (h : documentId document = .ok id) :
    GovernedMemoryRetriever.memoryId document = String.ofList id := by
  unfold documentId at h
  unfold GovernedMemoryRetriever.memoryId
  cases hk : idKeys.find? fun k => (document.get k).truthy with
  | none =>
    rw [hk] at h
    cases h
  | some k =>
    rw [hk] at h
    cases h
    rfl

/-- The upsert of a document touches the record that the facade has named. -/
theorem untouched_upsert {now : Text} {document : Doc ν}
    (h : (Call.upsert [(now, document)]).Applied d d') {id : Text}
    (hid : String.ofList id ≠ GovernedMemoryRetriever.memoryId document) : Untouched id d d' := by
  obtain ⟨prepared, hp, h⟩ := h
  simp only [List.mapM_cons, List.mapM_nil, bind_eq_ok, pure_eq_ok] at hp
  obtain ⟨r, hr, _, rfl, rfl⟩ := hp
  simp only [upsertMany, bind_eq_ok, List.foldlM_cons, List.foldlM_nil, pure_eq_ok] at h
  obtain ⟨d₁, h₁, d₂, h₂, rfl⟩ := h
  obtain ⟨hrecords, hfts⟩ := validateDimensions_frame h₁
  have hne : id ≠ r.recordId := by
    rintro rfl
    exact hid (memoryId_eq (prepareDocument_eq_ok hr).1).symm
  have hrow := untouched_upsertRow h₂ hne
  unfold Untouched at hrow ⊢
  rwa [hrecords, hfts] at hrow

/-! ## A replacement -/

/-- The ids of the embeddings that a rebuild has computed. -/
theorem mem_zipped {model : Model ν} {documents : List (Doc ν)} {ids : List Text}
    {embeddings : Doc ν} (h : rebuilt model documents = .ok (ids, embeddings)) {e : Embeddings ν}
    (he : checkEmbeddings embeddings = .ok e) (id : Text) :
    (∃ v ∈ e.vectors, v.1 = id) ↔ id ∈ ids := by
  simp only [rebuilt, bind_eq_ok, pure_eq_ok, ensure_eq_ok] at h
  obtain ⟨vectors, -, _, hlen, ids', hids, heq⟩ := h
  cases heq
  have hlength : ids.length = vectors.length := by
    rw [hlen]
    exact length_mapM hids
  have hkeys : (∃ v ∈ e.vectors, v.1 = id) ↔ id ∈ e.vectors.map Prod.fst := List.mem_map.symm
  rw [hkeys, (checkEmbeddings_vectors he).1, mem_keys]
  unfold zipped
  rw [get?_foldl_put]
  show (((ids.zip vectors).reverse.lookup id).or none).isSome = true ↔ _
  rw [Option.or_none, List.lookup_isSome_iff]
  constructor
  · rintro ⟨p, hp, hk⟩
    rw [beq_iff_eq.1 hk]
    exact (List.of_mem_zip (List.mem_reverse.1 hp)).1
  · intro hid
    rw [← List.map_fst_zip (le_of_eq hlength)] at hid
    obtain ⟨p, hp, rfl⟩ := List.mem_map.1 hid
    exact ⟨p, List.mem_reverse.2 hp, beq_self_eq_true _⟩

/-- A replacement that is done has had an embedding for every record, and for no other. -/
theorem covers_rebuilt {now : Text} {model : Model ν} {documents : List (Doc ν)} {ids : List Text}
    {embeddings : Doc ν} (hr : rebuilt model documents = .ok (ids, embeddings)) {e : Embeddings ν}
    (he : checkEmbeddings embeddings = .ok e) (h : replaceAll now e d = .ok d') (id : Text) :
    id ∈ ids ↔ ∃ r ∈ d.records, r.recordId = id := by
  simp only [replaceAll, bind_eq_ok, pure_eq_ok, ensure_eq_ok] at h
  obtain ⟨_, hcov, -⟩ := h
  simp only [Embeddings.covers, Bool.and_eq_true, List.all_eq_true, List.any_eq_true,
    decide_eq_true_eq] at hcov
  rw [← mem_zipped hr he]
  constructor
  · rintro ⟨v, hv, rfl⟩
    obtain ⟨r, hrow, hid⟩ := hcov.1 v hv
    exact ⟨r, mem_orderedRecords.1 hrow, hid⟩
  · rintro ⟨r, hrow, rfl⟩
    exact hcov.2 r (mem_orderedRecords.2 hrow)

omit [Python ν] in
/-- The record of an id after a replacement. -/
theorem find?_replaceAll {now : Text} {e : Embeddings ν} (h : replaceAll now e d = .ok d')
    (id : Text) : d'.records.find? id = (d.records.find? id).map (Record.reembedded now e) := by
  obtain ⟨hmem, -⟩ := replaceAll_eq_ok h
  apply Option.ext
  intro x
  rw [Table.find?_eq_some, hmem, Option.map_eq_some_iff]
  constructor
  · rintro ⟨⟨r, hr, rfl⟩, hid⟩
    exact ⟨r, Table.find?_eq_some.2 ⟨hr, hid⟩, rfl⟩
  · rintro ⟨r, hr, rfl⟩
    obtain ⟨hrow, hid⟩ := Table.find?_eq_some.1 hr
    exact ⟨⟨r, hrow, rfl⟩, hid⟩

theorem untouched_replace {now : Text} {model : Model ν} {documents : List (Doc ν)}
    {ids : List Text} {embeddings : Doc ν} (hr : rebuilt model documents = .ok (ids, embeddings))
    (h : (Call.replace now embeddings).Applied d d') {id : Text} (hid : id ∉ ids) :
    Untouched id d d' := by
  obtain ⟨e, he, h⟩ := h
  have hnone : d.records.find? id = none := by
    rw [Table.find?_eq_none]
    intro r hrow hk
    exact hid ((covers_rebuilt hr he h id).2 ⟨r, hrow, hk⟩)
  obtain ⟨-, hfts, -⟩ := replaceAll_eq_ok h
  refine ⟨?_, by rw [hfts]⟩
  rw [find?_replaceAll h, hnone]
  rfl

/-! ## The calls -/

/-- What holds of a whole operation and is kept by another holds after a call, wherever it has
come to. -/
theorem attempt_changes {R : Db ν → Prop} (call : Call ν) (s : Shared ν) (pid : Nat)
    (moves : List (Move (Option Failure))) (h : R s.db)
    (hstep : ∀ d d', call.Applied d d' → R d → R d') : R (attempt call s pid moves).shared.db := by
  refine (wp_run die (C := contractOf call.Applied) (I := fun s _ => R s.db)
    (fun _ _ => ⟨fun _ => rfl, Iff.rfl⟩) ?_ (fun _ _ h => h) (wp_prog call rfl rfl) h _).1
  intro t l t' l' hg ht
  rcases hg.2.1 with hsame | ⟨-, happ⟩
  · show R t'.db
    rw [hsame]
    exact ht
  · exact hstep _ _ happ ht

theorem performed_error {call : Call ν} {s : Shared ν} {pid : Nat}
    {moves : List (Move (Option Failure))} {e : Refused}
    (h : (performed call s pid moves).result = some (.error e)) : (performed call s pid moves).shared = s := by
  obtain ⟨r, hr, he⟩ := Option.map_eq_some_iff.1 h
  cases r with
  | ok u => cases he
  | error e' => exact (all_or_nothing call s pid moves e' hr).1

theorem performed_ok {call : Call ν} {s : Shared ν} {pid : Nat} {moves : List (Move (Option Failure))}
    (h : (performed call s pid moves).result = some (.ok ())) :
    call.Applied s.db (performed call s pid moves).shared.db := by
  obtain ⟨r, hr, hok⟩ := Option.map_eq_some_iff.1 h
  cases r with
  | error e' => cases hok
  | ok u =>
    obtain ⟨w, happ, hs⟩ := returned call s pid moves hr
    show call.Applied s.db (attempt call s pid moves).shared.db
    rw [hs]
    exact happ

/-- The ids that a rebuild asks about, one after the other. -/
def rebuildIds (model : Option (Model ν)) (seen : Db ν) : List Text :=
  match model with
  | none => []
  | some model =>
    match rebuilt model (documents seen) with
    | .error _ => []
    | .ok (ids, _) => ids

/-- A call of the facade that has asked about some records, one after the other. -/
structure Authorised (host : Host) (operation : String) (asked : List String) (s : Shared ν)
    (o : Outcome ν) : Prop where
  /-- It changes no other record. -/
  only : ∀ id, ¬ Untouched id s.db o.shared.db → String.ofList id ∈ asked
  /-- If one of the answers is no allow, or is not written down, nothing changes. -/
  passed : o.shared ≠ s → ∀ (n : Nat) (id : String), asked[n]? = some id →
    host.Passes n (host.actionOn "memory.write" operation id)
  unchanged : ∀ e, o.result = some (.error e) → o.shared = s

omit [Python ν] in
theorem authorised_unchanged {operation : String} {asked : List String} {s : Shared ν}
    {r : Option (Except Refused Unit)} : Authorised host operation asked s ⟨r, s⟩ :=
  ⟨fun _ h => absurd Untouched.refl h, fun h => absurd rfl h, fun _ _ => rfl⟩

theorem remember_authorised (host : Host) (now : Text) (document : Doc ν) (s : Shared ν) (pid : Nat)
    (moves : List (Move (Option Failure))) :
    Authorised host "remember" [GovernedMemoryRetriever.memoryId document] s
      (remember host now document s pid moves) := by
  unfold remember
  cases hc : rememberChecks host document with
  | error e => exact authorised_unchanged
  | ok u =>
    simp only [rememberChecks, bind_eq_ok] at hc
    obtain ⟨_, hallowed, -⟩ := hc
    refine ⟨fun id hid => ?_, fun _ n id hn => ?_, fun e he => performed_error he⟩
    · rw [List.mem_singleton]
      by_contra hne
      exact hid (attempt_changes (R := Untouched id s.db) _ s pid moves .refl
        fun _ _ happ h => h.trans (untouched_upsert happ hne))
    · cases n with
      | zero =>
        cases hn
        exact authorize_eq_ok.1 hallowed
      | succ n => cases hn

omit [Python ν] in
theorem recall_authorised {host : Host} {memoryId : Text} {s : Shared ν} {d : Doc ν}
    (h : «recall» host memoryId s = .ok (some d)) :
    host.Passes 0 (host.actionOn "memory.read" "recall" (String.ofList memoryId)) ∧
      ∃ r ∈ s.db.records, r.recordId = memoryId ∧ r.document = d := by
  simp only [«recall», bind_eq_ok, pure_eq_ok] at h
  obtain ⟨_, hallowed, hget⟩ := h
  obtain ⟨r, hr, rfl⟩ := Option.map_eq_some_iff.1 hget
  obtain ⟨hrow, hid⟩ := Table.find?_eq_some.1 hr
  exact ⟨authorize_eq_ok.1 hallowed, r, hrow, hid, rfl⟩

/-- A rebuild that is done has written every record again, and has asked about every one. -/
structure Rewritten (now : Text) (asked : List String) (d d' : Db ν) : Prop where
  ids : ∀ id, (d'.records.find? id).isSome = (d.records.find? id).isSome
  updated : ∀ r ∈ d'.records, r.updatedAt = now
  asked : ∀ id, String.ofList id ∈ asked ↔ ∃ r ∈ d.records, r.recordId = id

theorem rebuild_authorised (host : Host) (now : Text) (model : Option (Model ν)) (seen : Db ν)
    (s : Shared ν) (pid : Nat) (moves : List (Move (Option Failure))) :
    let o := rebuildEmbeddings host now model seen s pid moves
    let asked := (rebuildIds model seen).map String.ofList
    Authorised host "rebuild_embedding" asked s o ∧
      (o.result = some (.ok ()) → Rewritten now asked s.db o.shared.db) := by
  intro o asked
  have hmem : ∀ (ids : List Text) id, String.ofList id ∈ ids.map String.ofList ↔ id ∈ ids := by
    intro ids id
    rw [List.mem_map]
    constructor
    · rintro ⟨id', hid', heq⟩
      rwa [← String.ofList_injective heq]
    · exact fun hid => ⟨id, hid, rfl⟩
  unfold o asked rebuildEmbeddings rebuildIds
  cases model with
  | none => exact ⟨authorised_unchanged, nofun⟩
  | some model =>
    dsimp only
    cases hr : rebuilt model (documents seen) with
    | error e => exact ⟨authorised_unchanged, nofun⟩
    | ok x =>
      obtain ⟨ids, embeddings⟩ := x
      dsimp only
      cases hc : authorizeEmbeddingRebuild host 0 ids with
      | error e => exact ⟨authorised_unchanged, nofun⟩
      | ok u =>
        refine ⟨⟨fun id hid => ?_, fun _ n id hn => ?_, fun e he => performed_error he⟩, fun hok => ?_⟩
        · rw [hmem]
          by_contra hne
          exact hid (attempt_changes (R := Untouched id s.db) _ s pid moves .refl
            fun _ _ happ h => h.trans (untouched_replace hr happ hne))
        · rw [List.getElem?_map, Option.map_eq_some_iff] at hn
          obtain ⟨id', hid', rfl⟩ := hn
          have hpass := authorizeEmbeddingRebuild_passes hc hid'
          rwa [Nat.zero_add] at hpass
        · obtain ⟨e, he, hall⟩ := performed_ok hok
          refine ⟨fun id => ?_, fun r hrow => ?_, fun id => ?_⟩
          · rw [find?_replaceAll hall, Option.isSome_map]
          · obtain ⟨r', -, rfl⟩ := ((replaceAll_eq_ok hall).1 r).1 hrow
            rfl
          · rw [hmem]
            exact covers_rebuilt hr he hall id

/-- **What is authorised is what is written.**  Of `remember`, `recall` and `rebuild_embeddings`, on
every store, for every gateway and document; a rebuild may find its documents in one state of the
store and replace the embeddings in another. -/
theorem written_as_authorised (host : Host) (now : Text) (s : Shared ν) (pid : Nat)
    (moves : List (Move (Option Failure))) :
    (∀ document : Doc ν, Authorised host "remember" [GovernedMemoryRetriever.memoryId document] s
      (remember host now document s pid moves)) ∧
    (∀ memoryId d, «recall» host memoryId s = .ok (some d) →
      host.Passes 0 (host.actionOn "memory.read" "recall" (String.ofList memoryId)) ∧
        ∃ r ∈ s.db.records, r.recordId = memoryId ∧ r.document = d) ∧
    ∀ model seen,
      let o := rebuildEmbeddings host now model seen s pid moves
      let asked := (rebuildIds model seen).map String.ofList
      Authorised host "rebuild_embedding" asked s o ∧
        (o.result = some (.ok ()) → Rewritten now asked s.db o.shared.db) :=
  ⟨fun document => remember_authorised host now document s pid moves,
    fun _ _ h => recall_authorised h,
    fun model seen => rebuild_authorised host now model seen s pid moves⟩

end

/-! ## Examples -/

namespace Sample

open Vector.Sample

/-- A gateway that allows what is done to `a`. -/
def onlyA : Host where
  memory := ⟨"owner", false⟩
  gateway action := .ok {
    decision := if action.target = "a" then .allow else .deny
    reasonCode := "policy" }
  audit _ _ := .ok ()

def documentA : Doc Rat := (Vector.get (text "a") Vector.Sample.stored.db).getD Table.empty

theorem onlyA_recall :
    onlyA.Passes 0 (onlyA.actionOn "memory.read" "recall" (String.ofList (text "a"))) ∧
      ∃ r ∈ Vector.Sample.stored.db.records, r.recordId = text "a" ∧ r.document = documentA :=
  (written_as_authorised onlyA later Vector.Sample.stored 0 []).2.1 (text "a") documentA rfl

end Sample

end ProjectMaya.Vector.Governed
