import ProjectMaya.GovernedStore

/-! # Business memory

`ingestText` cuts a text into chunks and remembers each of them as a record whose id is made of the
hash of the text and the number of the chunk; where the text came from is a field of the record.
Two sources with one text share their records, so the chunks of a source stay its own exactly as
long as nobody ingests them again (`kept_iff`). -/

namespace ProjectMaya.Vector.Business

open Logic Governed
open Enforcement (Refusal)

/-! ## `_chunks` -/

/-- `text.replace("\r\n", "\n")` -/
def unixLines : Text → Text
  | [] => []
  | c :: rest =>
    match c, rest with
    | '\r', '\n' :: rest => '\n' :: unixLines rest
    | c, rest => c :: unixLines rest

/-- `text.split("\n\n")` -/
def splitBlank : Text → List Text
  | [] => [[]]
  | '\n' :: '\n' :: rest => [] :: splitBlank rest
  | c :: rest =>
    match splitBlank rest with
    | [] => [[c]]
    | part :: parts => (c :: part) :: parts

def paragraphs (t : Text) : List Text :=
  ((splitBlank (unixLines t)).map strip).filter fun part => part ≠ []

/-- `paragraph[index : index + max_chars] for index in range(0, len(paragraph), max_chars)` -/
def slices (maxChars : Nat) (paragraph : Text) : List Text :=
  (List.range ((paragraph.length + maxChars - 1) / maxChars)).map fun i =>
    (paragraph.drop (i * maxChars)).take maxChars

/-- The chunks that are finished, and the one that is not. -/
structure Chunking where
  result : List Text := []
  current : Text := []

/-- `if current: result.append(current)` -/
def Chunking.flush (st : Chunking) : List Text :=
  if st.current = [] then st.result else st.result ++ [st.current]

/-- The loop of `_chunks`. -/
def Chunking.add (maxChars : Nat) (st : Chunking) (paragraph : Text) : Chunking :=
  if maxChars < paragraph.length then { result := st.flush ++ slices maxChars paragraph }
  else if st.current = [] then { st with current := paragraph }
  else if st.current.length + 2 + paragraph.length ≤ maxChars then
    { st with current := st.current ++ '\n' :: '\n' :: paragraph }
  else { result := st.result ++ [st.current], current := paragraph }

def chunks (t : Text) (maxChars : Int) : Except Refusal (List Text) := do
  ensure (100 ≤ maxChars) (.valueError "max_chars must be at least 100")
  return ((paragraphs t).foldl (Chunking.add maxChars.toNat) {}).flush

/-! ## `ingest_text` -/

/-- `hashlib.sha256(text.encode("utf-8")).hexdigest()` -/
def sourceHash (t : Text) : Text := (Sha256.hexdigest (utf8 t)).toList

/-- `f"business:{source_hash}:{index}"` -/
def recordId (hash : Text) (index : Nat) : Text :=
  text "business:" ++ hash ++ ':' :: Nat.toDigits 10 index

/-- A call of `ingest_text`, with what the embedding model returns, if there is one. -/
structure Ingest (ν : Type) where
  text : Text
  sourcePath : Text
  category : Text := Vector.text "business_document"
  maxChars : Int := 1200
  model : Option (Model ν) := none

/-- The collaborators while a chunk is remembered: the time, the facade and its host, and what
becomes of the statements of the store. -/
structure Turn where
  host : Governed.Host
  now : Text
  statements : List (Move (Option Failure)) := []

section

variable {ν : Type} [Python ν]

/-- `record`, without its embedding. -/
def plainRecord (c : Ingest ν) (index : Nat) (chunk : Text) : Doc ν :=
  Doc.ofFields [(text "id", .str (recordId (sourceHash c.text) index)), (text "content", .str chunk),
    (text "category", .str c.category),
    -- `0.8`
    (text "trust_score", .float ((Python.ofText (text "0.8")).getD Python.half)),
    (text "source_path", .str c.sourcePath), (text "source_hash", .str (sourceHash c.text)),
    (text "extractor_version", .str (text "project-maya.business-memory.v1"))] (by
    simp only [List.map_cons, List.map_nil]
    decide)

def record (c : Ingest ν) (index : Nat) (chunk : Text) (vector : Value ν) : Doc ν :=
  match vector with
  | .null => plainRecord c index chunk
  | vector => (plainRecord c index chunk).put (text "embedding") vector

/-- `self._embedding_model.embed(chunks) if self._embedding_model else [None] * len(chunks)` -/
def embedded (c : Ingest ν) (pieces : List Text) : Except Failure (List (Value ν)) :=
  match c.model with
  | none => .ok (List.replicate pieces.length .null)
  | some model => model pieces

/-- What is remembered: the chunks with their vectors, as far as both go. -/
def pieces (c : Ingest ν) : Except Refused (List (Text × Value ν)) := do
  (ensure (strip c.text ≠ []) (.valueError "document text is required")).mapError Refused.refusal
  let chunks ← (chunks c.text c.maxChars).mapError Refused.refusal
  let vectors ← (embedded c chunks).mapError Refused.store
  return chunks.zip vectors

/-- `for index, (chunk, vector) in enumerate(zip(chunks, vectors))`, from `index` on. -/
def rememberAll (c : Ingest ν) (turns : Nat → Turn) (pid : Nat) (index : Nat) :
    List (Text × Value ν) → Shared ν → Outcome ν
  | [], s => ⟨some (.ok ()), s⟩
  | (chunk, vector) :: rest, s =>
    let turn := turns index
    let o := Governed.remember turn.host turn.now (record c index chunk vector) s pid turn.statements
    match o.result with
    | some (.ok ()) => rememberAll c turns pid (index + 1) rest o.shared
    | _ => o

/-- `BusinessMemoryService.ingest_text` -/
def ingestText (c : Ingest ν) (turns : Nat → Turn) (pid : Nat) (s : Shared ν) : Outcome ν :=
  match pieces c with
  | .error e => ⟨some (.error e), s⟩
  | .ok pieces => rememberAll c turns pid 0 pieces s

/-- Calls that have returned, one after the other, on a new store. -/
inductive Ingested (pid : Nat) : List (Ingest ν) → Shared ν → Prop
  | start : Ingested pid [] { db := Db.empty }
  | call {cs : List (Ingest ν)} {s : Shared ν} (c : Ingest ν) (turns : Nat → Turn)
      (before : Ingested pid cs s) (h : (ingestText c turns pid s).result = some (.ok ())) :
      Ingested pid (cs ++ [c]) (ingestText c turns pid s).shared

/-! ## What is kept -/

omit [Python ν] in
/-- The chunks of a call's text. -/
def Ingest.chunks (c : Ingest ν) : List Text :=
  match Business.chunks c.text c.maxChars with
  | .ok chunks => chunks
  | .error _ => []

omit [Python ν] in
/-- Those of them that it remembers. -/
def Ingest.written (c : Ingest ν) : List Text :=
  match embedded c c.chunks with
  | .ok vectors => c.chunks.take vectors.length
  | .error _ => []

omit [Python ν] in
/-- The latest call for a source. -/
def latest (cs : List (Ingest ν)) (path : Text) : Option (Ingest ν) :=
  cs.reverse.find? fun c => c.sourcePath = path

/-- A chunk that is the content of a record, with its source, category and index. -/
def Holds (db : Db ν) (path category chunk : Text) (index : Nat) : Prop :=
  ∃ r ∈ db.records, (∃ hash, r.recordId = recordId hash index) ∧
    r.document.get? (text "content") = some (.str chunk) ∧
    r.document.get? (text "source_path") = some (.str path) ∧
    r.document.get? (text "category") = some (.str category)

/-- Every chunk of the latest text of every source is there. -/
def Kept (cs : List (Ingest ν)) (db : Db ν) : Prop :=
  ∀ path c, latest cs path = some c → ∀ (index : Nat) (chunk : Text), c.chunks[index]? = some chunk →
    Holds db path c.category chunk index

omit [Python ν] in
/-- The last call that has written the record of a hash and an index. -/
def writer (cs : List (Ingest ν)) (hash : Text) (index : Nat) : Option (Ingest ν) :=
  cs.reverse.find? fun c => sourceHash c.text = hash ∧ index < c.written.length

omit [Python ν] in
/-- The last writer of some record is a call for the source, with this category and this chunk. -/
def Lasts (cs : List (Ingest ν)) (path category chunk : Text) (index : Nat) : Prop :=
  ∃ hash c, writer cs hash index = some c ∧ c.sourcePath = path ∧ c.category = category ∧
    c.written[index]? = some chunk

end

/-! ## What a call writes -/

theorem recordId_inj {hash hash' : Text} {i j : Nat} (h : recordId hash i = recordId hash' j) :
    hash = hash' ∧ i = j := by
  have hcolon : ∀ n, ':' ∉ (Nat.toDigits 10 n).reverse := by
    intro n hn
    have hdigit := Nat.isDigit_of_mem_toDigits (by decide) (by decide) (List.mem_reverse.1 hn)
    exact absurd hdigit (by decide)
  have hsplit : ∀ (ds es xs ys : Text), ':' ∉ ds → ':' ∉ es → ds ++ ':' :: xs = es ++ ':' :: ys →
      ds = es ∧ xs = ys := by
    intro ds
    induction ds with
    | nil =>
      intro es xs ys _ hes heq
      cases es with
      | nil => exact ⟨rfl, (List.cons.inj heq).2⟩
      | cons e es => exact absurd ((List.cons.inj heq).1 ▸ List.mem_cons_self) hes
    | cons d ds ih =>
      intro es xs ys hds hes heq
      cases es with
      | nil => exact absurd ((List.cons.inj heq).1 ▸ List.mem_cons_self) hds
      | cons e es =>
        obtain ⟨rfl, htail⟩ := List.cons.inj heq
        obtain ⟨rfl, hrest⟩ := ih es xs ys (fun hm => hds (List.mem_cons_of_mem d hm))
          (fun hm => hes (List.mem_cons_of_mem d hm)) htail
        exact ⟨rfl, hrest⟩
  unfold recordId at h
  rw [List.append_assoc, List.append_assoc, List.append_cancel_left_eq] at h
  have hrev := congrArg List.reverse h
  rw [List.reverse_append, List.reverse_append, List.reverse_cons, List.reverse_cons,
    List.append_assoc, List.append_assoc, List.singleton_append, List.singleton_append] at hrev
  obtain ⟨hdigits, hhash⟩ := hsplit _ _ _ _ (hcolon i) (hcolon j) hrev
  refine ⟨List.reverse_injective hhash, ?_⟩
  rw [← Nat.ofDigitChars_ten_toDigits (n := i), List.reverse_injective hdigits,
    Nat.ofDigitChars_ten_toDigits]

section

variable {ν : Type} [Python ν]

/-- What a record of a chunk shows. -/
structure Shows (e : Entry ν) (path category chunk : Text) : Prop where
  content : e.document.get? (text "content") = some (.str chunk)
  sourcePath : e.document.get? (text "source_path") = some (.str path)
  category : e.document.get? (text "category") = some (.str category)

theorem get?_record (c : Ingest ν) (index : Nat) (chunk : Text) (vector : Value ν) {k : Text}
    (h : k ≠ text "embedding") :
    (record c index chunk vector).get? k = (plainRecord c index chunk).get? k := by
  unfold record
  split
  · rfl
  · rw [Doc.get?_put, if_neg h]

theorem documentId_record (c : Ingest ν) (index : Nat) (chunk : Text) (vector : Value ν) :
    documentId (record c index chunk vector) = .ok (recordId (sourceHash c.text) index) := by
  have hget : (record c index chunk vector).get (text "id") =
      .str (recordId (sourceHash c.text) index) := by
    rw [Doc.get, get?_record _ _ _ _ (by decide)]
    rfl
  have htruthy : ((record c index chunk vector).get (text "id")).truthy = true := by
    rw [hget]
    rfl
  have hfind : idKeys.find? (fun k => ((record c index chunk vector).get k).truthy) =
      some (text "id") := by
    simp [idKeys, htruthy]
  unfold documentId
  rw [hfind]
  show Except.ok _ = Except.ok _
  rw [hget]
  rfl

theorem shows_record (c : Ingest ν) (index : Nat) (chunk : Text) (vector : Value ν) (now id : Text) :
    Shows (Entry.of now id (record c index chunk vector)) c.sourcePath c.category chunk := by
  have hfield : ∀ k, k ∉ [text "trust_score", text "created_at", text "id"] →
      k ≠ text "embedding" → ∀ v : Text, (plainRecord c index chunk).get? k = some (.str v) →
      (Entry.of now id (record c index chunk vector)).document.get? k = some (.str v) := by
    intro k hk hemb v hv
    simp only [List.mem_cons, List.not_mem_nil, or_false, not_or] at hk
    show ((withDefaults (record c index chunk vector) id now Python.half).normal).get? k = _
    rw [Doc.get?_normal, get?_withDefaults, if_neg hk.1, if_neg hk.2.1, if_neg hk.2.2,
      get?_record _ _ _ _ hemb, hv]
    rfl
  constructor
  · exact hfield _ (by decide) (by decide) _ rfl
  · exact hfield _ (by decide) (by decide) _ rfl
  · exact hfield _ (by decide) (by decide) _ rfl

/-- A document that is remembered is the entry of its id. -/
theorem remember_ok {host : Governed.Host} {now : Text} {document : Doc ν} {s : Shared ν} {pid : Nat}
    {moves : List (Move (Option Failure))} {id : Text} (hid : documentId document = .ok id)
    (h : (Governed.remember host now document s pid moves).result = some (.ok ())) :
    (Governed.remember host now document s pid moves).shared.db.index =
      Function.update s.db.index id (some (Entry.of now id document)) := by
  unfold Governed.remember at h ⊢
  cases hc : rememberChecks host document with
  | error e =>
    rw [hc] at h
    cases h
  | ok u =>
    rw [hc] at h
    have happ := index_applied (.upsert [(now, document)]) (performed_ok h)
    refine happ.trans ?_
    show Index.upsert s.db.index (now, document) = _
    unfold Index.upsert
    simp only [hid]

/-- What the loop leaves under an id. -/
theorem rememberAll_index {c : Ingest ν} {turns : Nat → Turn} {pid : Nat} {n : Nat}
    {todo : List (Text × Value ν)} {s : Shared ν}
    (h : (rememberAll c turns pid n todo s).result = some (.ok ())) (hash : Text) (i : Nat) :
    (hash = sourceHash c.text ∧ ∃ (k : Nat) (x : Text × Value ν), todo[k]? = some x ∧ i = n + k ∧
      (rememberAll c turns pid n todo s).shared.db.index (recordId hash i) =
        some (Entry.of (turns i).now (recordId hash i) (record c i x.1 x.2))) ∨
    ((hash = sourceHash c.text → i < n ∨ n + todo.length ≤ i) ∧
      (rememberAll c turns pid n todo s).shared.db.index (recordId hash i) =
        s.db.index (recordId hash i)) := by
  induction todo generalizing n s with
  | nil =>
    refine .inr ⟨fun _ => ?_, rfl⟩
    rw [List.length_nil]
    omega
  | cons x rest ih =>
    obtain ⟨chunk, vector⟩ := x
    have hid := documentId_record c n chunk vector
    unfold rememberAll at h ⊢
    dsimp only at h ⊢
    generalize ho : Governed.remember (turns n).host (turns n).now (record c n chunk vector) s pid
      (turns n).statements = o at h ⊢
    cases hr : o.result with
    | none =>
      rw [hr] at h
      dsimp only at h
      rw [hr] at h
      cases h
    | some r =>
      cases r with
      | error e =>
        rw [hr] at h
        dsimp only at h
        rw [hr] at h
        cases h
      | ok u =>
        rw [hr] at h
        dsimp only at h ⊢
        have hindex := remember_ok hid (ho ▸ hr)
        rw [ho] at hindex
        rcases ih h with ⟨hh, k, x, hk, hi, he⟩ | ⟨hout, hsame⟩
        · exact .inl ⟨hh, k + 1, x, hk, by omega, he⟩
        · by_cases hhere : hash = sourceHash c.text ∧ i = n
          · obtain ⟨rfl, rfl⟩ := hhere
            refine .inl ⟨rfl, 0, (chunk, vector), rfl, rfl, ?_⟩
            rw [hsame, hindex, Function.update_self]
          · refine .inr ⟨fun hh => ?_, ?_⟩
            · rcases hout hh with hlt | hle
              · rw [List.length_cons]
                have hne : i ≠ n := fun hi => hhere ⟨hh, hi⟩
                omega
              · rw [List.length_cons]
                omega
            · rw [hsame, hindex, Function.update_of_ne]
              intro heq
              exact hhere (recordId_inj heq)

end

/-! ## The runs -/

section

variable {ν : Type} [Python ν]

theorem map_fst_zip_take {α β : Type} : ∀ (l : List α) (l' : List β),
    (l.zip l').map Prod.fst = l.take l'.length
  | [], _ => by simp
  | _ :: _, [] => by simp
  | a :: l, b :: l' => by simp [map_fst_zip_take l l']

omit [Python ν] in
theorem fst_pieces {c : Ingest ν} {todo : List (Text × Value ν)} (h : pieces c = .ok todo) :
    todo.map Prod.fst = c.written := by
  simp only [pieces, bind_eq_ok, pure_eq_ok, mapError_eq_ok] at h
  obtain ⟨_, -, parts, hparts, vectors, hvectors, rfl⟩ := h
  have hchunks : c.chunks = parts := by
    unfold Ingest.chunks
    rw [hparts]
  unfold Ingest.written
  rw [hchunks, hvectors]
  exact map_fst_zip_take _ _

/-- The records of a hash and an index are those of their last writer. -/
theorem Ingested.index {pid : Nat} {cs : List (Ingest ν)} {s : Shared ν} (h : Ingested pid cs s)
    (hash : Text) (i : Nat) :
    (∃ c chunk e, writer cs hash i = some c ∧ c.written[i]? = some chunk ∧
      s.db.index (recordId hash i) = some e ∧ Shows e c.sourcePath c.category chunk) ∨
    (writer cs hash i = none ∧ s.db.index (recordId hash i) = none) := by
  induction h with
  | start => exact .inr ⟨rfl, rfl⟩
  | @call cs s c turns before hok ih =>
    unfold ingestText at hok ⊢
    cases hp : pieces c with
    | error e =>
      rw [hp] at hok
      cases hok
    | ok todo =>
      rw [hp] at hok
      have hfst := fst_pieces hp
      have hlength : todo.length = c.written.length := by
        rw [← hfst, List.length_map]
      have hlast : writer (cs ++ [c]) hash i =
          if sourceHash c.text = hash ∧ i < c.written.length then some c
          else writer cs hash i := by
        unfold writer
        rw [List.reverse_append, List.reverse_singleton, List.singleton_append, List.find?_cons]
        by_cases hc : sourceHash c.text = hash ∧ i < c.written.length
        · simp [hc]
        · rw [if_neg hc]
          simp [hc]
      rcases rememberAll_index hok hash i with ⟨rfl, k, x, hk, hi, he⟩ | ⟨hout, hsame⟩
      · rw [Nat.zero_add] at hi
        subst hi
        have hwritten : c.written[i]? = some x.1 := by
          rw [← hfst, List.getElem?_map, hk]
          rfl
        have hlt : i < c.written.length := (List.getElem?_eq_some_iff.1 hwritten).1
        exact .inl ⟨c, x.1, _, by rw [hlast, if_pos ⟨rfl, hlt⟩], hwritten, he,
          shows_record c i x.1 x.2 (turns i).now _⟩
      · have hno : ¬ (sourceHash c.text = hash ∧ i < c.written.length) := by
          rintro ⟨rfl, hlt⟩
          have hout := hout rfl
          omega
        rw [hlast, if_neg hno]
        dsimp only
        rw [hsame]
        exact ih

theorem holds_iff {pid : Nat} {cs : List (Ingest ν)} {s : Shared ν} (h : Ingested pid cs s)
    (path category chunk : Text) (i : Nat) :
    Holds s.db path category chunk i ↔ Lasts cs path category chunk i := by
  constructor
  · rintro ⟨r, hr, ⟨hash, hid⟩, hcontent, hpath, hcategory⟩
    have hentry : s.db.index (recordId hash i) = some r.entry := index_eq_some.2 ⟨r, hr, hid, rfl⟩
    rcases h.index hash i with ⟨c, chunk', e, hc, hwritten, he, hshows⟩ | ⟨-, hnone⟩
    · rw [hentry] at he
      cases he
      refine ⟨hash, c, hc, ?_, ?_, ?_⟩
      · exact Value.str.inj (Option.some.inj (hshows.sourcePath.symm.trans hpath))
      · exact Value.str.inj (Option.some.inj (hshows.category.symm.trans hcategory))
      · rw [hwritten]
        exact congrArg some (Value.str.inj (Option.some.inj (hshows.content.symm.trans hcontent)))
    · rw [hentry] at hnone
      cases hnone
  · rintro ⟨hash, c, hc, rfl, rfl, hchunk⟩
    rcases h.index hash i with ⟨c', chunk', e, hc', hwritten, he, hshows⟩ | ⟨hnone, -⟩
    · rw [hc] at hc'
      cases hc'
      rw [hchunk] at hwritten
      cases hwritten
      obtain ⟨r, hr, hid, rfl⟩ := index_eq_some.1 he
      exact ⟨r, hr, ⟨hash, hid⟩, hshows.content, hshows.sourcePath, hshows.category⟩
    · rw [hc] at hnone
      cases hnone

/-- **Whose chunks are kept.**  After any calls, every chunk of the latest text of every source is
there with its source, category and index exactly when a record that the source has written with
them has not been written again by a call whose text has the same hash. -/
theorem kept_iff {pid : Nat} {cs : List (Ingest ν)} {s : Shared ν} (h : Ingested pid cs s) :
    Kept cs s.db ↔ ∀ path c, latest cs path = some c →
      ∀ (index : Nat) (chunk : Text), c.chunks[index]? = some chunk →
        Lasts cs path c.category chunk index := by
  unfold Kept
  simp only [holds_iff h]

end

/-! ## Examples -/

namespace Sample

open Vector.Sample

def allowing : Governed.Host where
  memory := ⟨"local-user", false⟩
  gateway _ := .ok { decision := .allow, reasonCode := "policy" }
  audit _ _ := .ok ()

def calmly (_ : Nat) : Turn := { host := allowing, now := noon }

/-- One note, kept in two places. -/
def draft : Ingest Rat := { text := text "note", sourcePath := text "draft.md" }

def copy : Ingest Rat := { draft with sourcePath := text "copy.md" }

def afterDraft : Shared Rat := (ingestText draft calmly 0 { db := Db.empty }).shared

def afterCopy : Shared Rat := (ingestText copy calmly 0 afterDraft).shared

theorem draft_ingested : Ingested 0 [draft] afterDraft :=
  .call draft calmly .start (by decide +kernel)

theorem copy_ingested : Ingested 0 [draft, copy] afterCopy :=
  .call copy calmly draft_ingested (by decide +kernel)

/-- The record of the note says now that it comes from the copy. -/
theorem draft_lost : ¬ Kept [draft, copy] afterCopy.db := by
  intro h
  have hsources : afterCopy.db.records.rows.map
      (fun r => (r.document.get (text "source_path")).toStr) = [text "copy.md"] := by decide +kernel
  obtain ⟨r, hr, -, -, hpath, -⟩ := h (text "draft.md") draft rfl 0 (text "note") rfl
  have hmem : (r.document.get (text "source_path")).toStr ∈ [text "copy.md"] := by
    rw [← hsources]
    exact List.mem_map_of_mem (f := fun r : Record Rat =>
      (r.document.get (text "source_path")).toStr) hr
  rw [Doc.get, hpath] at hmem
  revert hmem
  decide

/-- Before the copy it was kept. -/
theorem draft_kept : Kept [draft] afterDraft.db := by
  refine (kept_iff draft_ingested).2 fun path c hc index chunk hchunk => ?_
  have hdraft : c = draft ∧ path = draft.sourcePath := by
    obtain ⟨hpath, -⟩ := List.find?_eq_some_iff_append.1 hc
    have hmem := List.mem_of_find?_eq_some hc
    obtain rfl : c = draft := by simpa using hmem
    exact ⟨rfl, (by simpa using hpath : draft.sourcePath = path).symm⟩
  obtain ⟨rfl, rfl⟩ := hdraft
  have hwritten : draft.written = draft.chunks := rfl
  have hwriter : writer [draft] (sourceHash draft.text) index = some draft := by
    have hlt : index < draft.written.length := by
      rw [hwritten]
      exact (List.getElem?_eq_some_iff.1 hchunk).1
    simp [writer, hlt]
  exact ⟨_, draft, hwriter, rfl, rfl, by rw [hwritten]; exact hchunk⟩

end Sample

end ProjectMaya.Vector.Business
