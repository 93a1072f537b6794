import ProjectMaya.Logic.Sorted
import ProjectMaya.RetrieverGate

/-! # `upsert` of the adapter

The adapter inserts a row, and the service swallows the error when there is one of this id. So what
has been written first stays, and the caller is not told (`stored_iff`). -/

namespace ProjectMaya.Retriever

open Logic
open ProjectMaya.Vector (Text Value Doc text normalFields normalFields_eq_map keyLe)

section

variable {ν : Type} [Floats ν]

/-! ## Documents and rows -/

/-- `meta` of the document, or an empty mapping. -/
def metaOf (doc : Doc ν) : Value ν := (doc.get (text "meta")).or (.dict [])

/-- The id that the row of a document gets; empty where the document has none. -/
def idOf (doc : Doc ν) : Text :=
  ((((doc.get (text "embedding_id")).or (doc.get (text "chunk_id"))).or
    (doc.get (text "id"))).or (.str [])).toStr

/-- `stored` has every field of a mapping, and is any other value. -/
def HoldsMeta (stored : Value ν) (known : List (Text × Value ν)) : Value ν → Prop
  | .dict fields => ∀ key value, fields.lookup key = some value → known.lookup key = some value.normal
  | value => stored = value.normal

/-- The row has the content, the metadata and the embedding of the document. -/
structure Holds (row : Row ν) (doc : Doc ν) : Prop where
  id : row.embeddingId = idOf doc
  embedding : row.vector = ((doc.get (text "embedding")).or (.list false [])).normal
  metadata : HoldsMeta row.scoreMeta row.known (metaOf doc)
  content : (doc.get (text "content")).truthy = true →
    row.known.lookup (text "content") = some (doc.get (text "content")).normal

/-- The store has what the call was to write, and this is the only row of its id. -/
def Stored (env : Env ν) (entries : Entries ν) (u : Upsert ν) : Prop :=
  ∃ row, rowOf env u.now u.doc = some row ∧ Holds row u.doc ∧ row ∈ entries ∧
    ∀ x ∈ entries, x.embeddingId = idOf u.doc → x = row

/-- After every call that goes to the adapter its document is stored. -/
def AlwaysStored (env : Env ν) (svc : Service ν) (us : List (Upsert ν)) : Prop :=
  ∀ before u after, us = before ++ u :: after → svc.targets u ≠ [] →
    Stored env (svc.upserts env (before ++ [u])) u

/-- The document can be a row: its vector can be normalized, what has content has a mapping as
`meta`, and the columns take its time and its path. -/
structure Storable (now : Text) (doc : Doc ν) : Prop where
  vector : (vectorNormalize ((doc.get (text "embedding")).or (.list false []))).isSome
  mapping : (doc.get (text "content")).truthy = true → ∃ fields, metaOf doc = .dict fields
  createdAt : (column ((doc.get (text "created_at")).or (.str now))).isSome
  sourcePath : (column (doc.get (text "source_path"))).isSome

/-- The `meta` has no other content than the document. -/
def OneContent (doc : Doc ν) : Prop :=
  (doc.get (text "content")).truthy = true → ∀ fields value, metaOf doc = .dict fields →
    fields.lookup (text "content") = some value → value.normal = (doc.get (text "content")).normal

/-- The document can be stored, has one content, and is no other one than those with its id before. -/
structure Sound (env : Env ν) (svc : Service ν) (before : List (Upsert ν)) (u : Upsert ν) : Prop where
  storable : Storable u.now u.doc
  content : OneContent u.doc
  same : ∀ v ∈ before, svc.targets v ≠ [] → idOf v.doc = idOf u.doc →
    rowOf env v.now v.doc = rowOf env u.now u.doc

/-! ## The row of a document -/

omit [Floats ν] in
theorem lookup_eq_filter (fields : List (Text × Value ν)) (key : Text) :
    fields.lookup key = ((fields.filter fun f => f.1 = key).head?).map Prod.snd := by
  induction fields with
  | nil => rfl
  | cons f fields ih =>
    by_cases h : f.1 = key
    · rw [List.filter_cons_of_pos (by simpa using h), List.lookup_cons, h, beq_self_eq_true]
      rfl
    · rw [List.filter_cons_of_neg (by simpa using h), List.lookup_cons,
        beq_false_of_ne (Ne.symm h)]
      exact ih

omit [Floats ν] in
/-- JSON keeps the fields of a mapping, whatever their order. -/
theorem lookup_normal (fields : List (Text × Value ν)) (key : Text) :
    ((normalFields fields).insertionSort keyLe).lookup key = (fields.lookup key).map Value.normal := by
  have htotal : Std.Total (keyLe (ν := ν)) := ⟨fun a b => le_total a.1 b.1⟩
  have htrans : IsTrans (Text × Value ν) keyLe := ⟨fun _ _ _ => le_trans⟩
  have hties : ((normalFields fields).filter fun f => f.1 = key).Pairwise keyLe := by
    refine List.pairwise_of_forall_mem_list fun f hf g hg => ?_
    have hfkey := of_decide_eq_true (List.mem_filter.1 hf).2
    have hgkey := of_decide_eq_true (List.mem_filter.1 hg).2
    exact le_of_eq (hfkey.trans hgkey.symm)
  rw [lookup_eq_filter, filter_insertionSort, hties.insertionSort_eq, normalFields_eq_map,
    List.filter_map, List.head?_map, lookup_eq_filter, Option.map_map, Option.map_map]
  rfl

omit [Floats ν] in
theorem lookup_setdefault (fields : List (Text × Value ν)) (key key' : Text) (value : Value ν) :
    (setdefault fields key value).lookup key' =
      if key' = key then some ((fields.lookup key).getD value) else fields.lookup key' := by
  unfold setdefault
  cases hkey : fields.lookup key with
  | some x =>
    by_cases h : key' = key
    · rw [if_pos h, h, hkey]
      rfl
    · rw [if_neg h]
  | none =>
    show (fields ++ [(key, value)]).lookup key' = _
    rw [List.lookup_append]
    by_cases h : key' = key
    · rw [if_pos h, h, hkey, List.lookup_cons_self]
      rfl
    · rw [if_neg h, List.lookup_cons, beq_false_of_ne h]
      exact Option.or_none

variable {env : Env ν} {now : Text} {doc : Doc ν}

theorem rowOf_eq_some {row : Row ν} (h : rowOf env now doc = some row) :
    Storable now doc ∧ row.embeddingId = idOf doc ∧
      row.vector = ((doc.get (text "embedding")).or (.list false [])).normal ∧
      ∃ scoreMeta, scoreMetaOf env doc = some scoreMeta ∧ row.scoreMeta = scoreMeta.normal := by
  obtain ⟨vector, hvector, h⟩ := Option.bind_eq_some_iff.1 h
  obtain ⟨scoreMeta, hmeta, h⟩ := Option.bind_eq_some_iff.1 h
  obtain ⟨items, -, h⟩ := Option.bind_eq_some_iff.1 h
  obtain ⟨createdAt, hcreated, h⟩ := Option.bind_eq_some_iff.1 h
  obtain ⟨sourcePath, hpath, h⟩ := Option.bind_eq_some_iff.1 h
  cases h
  refine ⟨⟨Option.isSome_of_eq_some hvector, ?_, Option.isSome_of_eq_some hcreated,
    Option.isSome_of_eq_some hpath⟩, rfl, rfl, scoreMeta, hmeta, rfl⟩
  intro hcontent
  unfold scoreMetaOf at hmeta
  rw [if_pos hcontent] at hmeta
  cases hdict : metaOf doc with
  | dict fields => exact ⟨fields, rfl⟩
  | _ =>
    rw [show (doc.get (text "meta")).or (.dict []) = metaOf doc from rfl, hdict] at hmeta
    cases hmeta

theorem rowOf_of_storable (env : Env ν) (h : Storable now doc) : ∃ row, rowOf env now doc = some row := by
  obtain ⟨vector, hvector⟩ := Option.isSome_iff_exists.1 h.vector
  obtain ⟨createdAt, hcreated⟩ := Option.isSome_iff_exists.1 h.createdAt
  obtain ⟨sourcePath, hpath⟩ := Option.isSome_iff_exists.1 h.sourcePath
  have hmeta : ∃ scoreMeta, scoreMetaOf env doc = some scoreMeta := by
    unfold scoreMetaOf
    by_cases hcontent : (doc.get (text "content")).truthy = true
    · obtain ⟨fields, hfields⟩ := h.mapping hcontent
      rw [if_pos hcontent, show (doc.get (text "meta")).or (.dict []) = _ from hfields]
      exact ⟨_, rfl⟩
    · rw [if_neg hcontent]
      exact ⟨_, rfl⟩
  obtain ⟨scoreMeta, hmeta⟩ := hmeta
  have hitems : ∃ items, iter ((doc.get (text "embedding")).or (.list false [])) = some items := by
    unfold vectorNormalize at hvector
    by_cases htruthy : ((doc.get (text "embedding")).or (.list false [])).truthy = true
    · rw [if_pos htruthy] at hvector
      obtain ⟨items, hitems, -⟩ := Option.bind_eq_some_iff.1 hvector
      exact ⟨items, hitems⟩
    · unfold Vector.Value.or at htruthy ⊢
      by_cases hgiven : (doc.get (text "embedding")).truthy = true
      · rw [if_pos hgiven] at htruthy
        exact absurd hgiven htruthy
      · rw [if_neg hgiven]
        exact ⟨[], rfl⟩
  obtain ⟨items, hitems⟩ := hitems
  unfold rowOf
  simp only [hvector, hmeta, hitems, hcreated, hpath]
  exact ⟨_, rfl⟩

theorem known_of_dict {row : Row ν} {fields : List (Text × Value ν)}
    (h : row.scoreMeta = .dict fields) : row.known = fields := by
  unfold Row.known Row.fields Vector.Value.or
  rw [h]
  cases fields <;> rfl

theorem holds_iff {row : Row ν} (h : rowOf env now doc = some row) : Holds row doc ↔ OneContent doc := by
  obtain ⟨hstorable, hid, hvector, scoreMeta, hmeta, hrow⟩ := rowOf_eq_some h
  unfold scoreMetaOf at hmeta
  by_cases hcontent : (doc.get (text "content")).truthy = true
  · obtain ⟨fields, hfields⟩ := hstorable.mapping hcontent
    rw [if_pos hcontent, show (doc.get (text "meta")).or (.dict []) = _ from hfields] at hmeta
    cases hmeta
    have hne : text "content" ≠ text "content_normalized" := by decide
    have hknown : ∀ key, row.known.lookup key = ((setdefault (setdefault fields (text "content")
        (doc.get (text "content"))) (text "content_normalized")
        (.str (textNormalize env (doc.get (text "content"))))).lookup key).map Value.normal := by
      intro key
      rw [known_of_dict hrow, lookup_normal]
    have hfound : row.known.lookup (text "content") =
        some ((fields.lookup (text "content")).getD (doc.get (text "content"))).normal := by
      rw [hknown, lookup_setdefault, if_neg hne, lookup_setdefault, if_pos rfl]
      rfl
    constructor
    · intro hholds _ fields' value hfields' hvalue
      rw [hfields] at hfields'
      cases hfields'
      have hsame := hholds.content hcontent
      rw [hfound, hvalue] at hsame
      exact Option.some.inj hsame
    · intro hone
      refine ⟨hid, hvector, ?_, fun _ => ?_⟩
      · rw [hfields]
        intro key value hvalue
        rw [hknown, lookup_setdefault, lookup_setdefault, lookup_setdefault]
        by_cases hkey : key = text "content_normalized"
        · rw [if_pos hkey, if_neg hne.symm, ← hkey, hvalue]
          rfl
        · by_cases hkey' : key = text "content"
          · rw [if_neg hkey, if_pos hkey', ← hkey', hvalue]
            rfl
          · rw [if_neg hkey, if_neg hkey', hvalue]
            rfl
      · rw [hfound]
        cases hvalue : fields.lookup (text "content") with
        | none => rfl
        | some value => exact congrArg some (hone hcontent fields value hfields hvalue)
  · rw [if_neg hcontent] at hmeta
    cases hmeta
    constructor
    · exact fun _ hc => absurd hc hcontent
    · intro _
      refine ⟨hid, hvector, ?_, fun hc => absurd hc hcontent⟩
      rw [show (doc.get (text "meta")).or (.dict []) = metaOf doc from rfl] at hrow
      cases hmetaOf : metaOf doc with
      | dict fields =>
        intro key value hvalue
        rw [hmetaOf] at hrow
        rw [known_of_dict hrow, lookup_normal, hvalue]
        rfl
      | _ =>
        rw [hmetaOf] at hrow
        exact hrow

/-! ## Sequences of calls -/

variable {svc : Service ν}

theorem mem_upserts_append {us : List (Upsert ν)} {u : Upsert ν} {row : Row ν} :
    row ∈ svc.upserts env (us ++ [u]) ↔
      row ∈ svc.upserts env us ∨ svc.targets u ≠ [] ∧ rowOf env u.now u.doc = some row ∧
        ∀ x ∈ svc.upserts env us, x.embeddingId ≠ row.embeddingId := by
  unfold Service.upserts
  rw [List.foldl_append]
  exact mem_upsert

/-- What is written stays. -/
theorem mem_upserts_of_mem {us : List (Upsert ν)} {row : Row ν} (h : row ∈ svc.upserts env us)
    (more : List (Upsert ν)) : row ∈ svc.upserts env (us ++ more) := by
  induction more using List.reverseRecOn with
  | nil => rwa [List.append_nil]
  | append_singleton more u ih =>
    rw [← List.append_assoc]
    exact mem_upserts_append.2 (.inl ih)

/-- Every row is the row of a call. -/
theorem call_of_mem {us : List (Upsert ν)} {row : Row ν} (h : row ∈ svc.upserts env us) :
    ∃ u ∈ us, svc.targets u ≠ [] ∧ rowOf env u.now u.doc = some row := by
  obtain ⟨u, hu, hrow⟩ := (upserts_spec us).1 row h
  exact ⟨u, List.mem_of_find?_eq_some hu, (writes_iff.1 (List.find?_some hu)).1, hrow⟩

theorem stored_of_sound {before : List (Upsert ν)} {u : Upsert ν} (htargets : svc.targets u ≠ [])
    (h : Sound env svc before u) : Stored env (svc.upserts env (before ++ [u])) u := by
  obtain ⟨row, hrow⟩ := rowOf_of_storable env h.storable
  obtain ⟨-, hid, -⟩ := rowOf_eq_some hrow
  have hmem : row ∈ svc.upserts env (before ++ [u]) := by
    by_cases hheld : ∃ x ∈ svc.upserts env before, x.embeddingId = row.embeddingId
    · obtain ⟨x, hx, hxid⟩ := hheld
      obtain ⟨v, hv, hvtargets, hof⟩ := call_of_mem hx
      have hsame := h.same v hv hvtargets
        ((rowOf_eq_some hof).2.1.symm.trans (hxid.trans hid))
      rw [hof, hrow] at hsame
      cases hsame
      exact mem_upserts_append.2 (.inl hx)
    · exact mem_upserts_append.2 (.inr ⟨htargets, hrow, fun x hx heq => hheld ⟨x, hx, heq⟩⟩)
  refine ⟨row, hrow, (holds_iff hrow).2 h.content, hmem, fun x hx hxid => ?_⟩
  exact Table.eq_of_key_eq hx hmem (hxid.trans hid.symm)

/-- **Upserts are upserts** exactly when every document that goes to the adapter can be stored, has
one content, and is not another one than an earlier document of its id. -/
theorem stored_iff (env : Env ν) (svc : Service ν) (us : List (Upsert ν)) :
    AlwaysStored env svc us ↔
      ∀ before u after, us = before ++ u :: after → svc.targets u ≠ [] → Sound env svc before u := by
  constructor
  · intro h before u after hus htargets
    obtain ⟨row, hrow, hholds, hmem, honly⟩ := h before u after hus htargets
    obtain ⟨hstorable, -⟩ := rowOf_eq_some hrow
    refine ⟨hstorable, (holds_iff hrow).1 hholds, fun v hv hvtargets hid => ?_⟩
    -- the earlier call has left its row, and there is one row of the id
    obtain ⟨first, between, rfl⟩ := List.append_of_mem hv
    obtain ⟨row', hrow', -, hmem', -⟩ := h first v (between ++ u :: after)
      (by rw [hus, List.append_assoc, List.cons_append]) hvtargets
    have hstays := mem_upserts_of_mem hmem' (between ++ [u])
    rw [List.append_assoc, List.singleton_append, ← List.cons_append, ← List.append_assoc] at hstays
    have heq := honly row' hstays ((rowOf_eq_some hrow').2.1.trans hid)
    rw [hrow, hrow', heq]
  · intro h before u after hus htargets
    exact stored_of_sound htargets (h before u after hus htargets)

end

/-! ## Examples -/

namespace Sample

def named (content : String) : Upsert Rat where
  now := text "2025-01-01T12:00:00+00:00"
  doc := Doc.ofFields [(text "id", .str (text "d")), (text "content", .str (text content))]
    (show [text "id", text "content"].Nodup by decide)

/-- The second document of an id is lost, and the service returns as if it were written. -/
theorem second_not_stored : ¬ AlwaysStored env svc [named "x", named "y"] := by
  intro h
  obtain ⟨row, hrow, -, hmem, -⟩ := h [named "x"] (named "y") [] rfl (by decide)
  have hnew : (rowOf env (named "y").now (named "y").doc).map (fun row =>
      (row.known.lookup (text "content")).map Value.toStr) = some (some (text "y")) := by decide +kernel
  have hheld : (svc.upserts env [named "x", named "y"]).rows.map (fun row =>
      (row.known.lookup (text "content")).map Value.toStr) = [some (text "x")] := by decide +kernel
  have hx := List.mem_map_of_mem (f := fun row : Row Rat =>
    (row.known.lookup (text "content")).map Value.toStr) (Table.mem_def.1 hmem)
  rw [show [named "x"] ++ [named "y"] = [named "x", named "y"] from rfl, hheld,
    List.mem_singleton] at hx
  rw [hrow, Option.map_some, hx] at hnew
  exact absurd hnew (by decide)

end Sample

end ProjectMaya.Retriever
