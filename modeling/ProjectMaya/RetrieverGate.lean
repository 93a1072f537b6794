import Mathlib.Data.List.Induction
import ProjectMaya.RetrieverService

/-! # What the gate of a service lets through

A row has the id of the document it was made of, and the first document with an id keeps it
(`origin_of_mem`). A read returns the results of the rows that it reaches and that pass the gate
(`read_eq_ok`). -/

namespace ProjectMaya.Retriever

open Logic
open ProjectMaya.Vector (Text Value Doc Failure text describing)

/-! ## Where a row is from -/

section

variable {ν : Type} [Floats ν] {env : Env ν} {svc : Service ν}

theorem mem_insertDoc {u : Upsert ν} {entries : Entries ν} {row : Row ν} :
    row ∈ insertDoc env u entries ↔
      row ∈ entries ∨
        rowOf env u.now u.doc = some row ∧ ∀ x ∈ entries, x.embeddingId ≠ row.embeddingId := by
  unfold insertDoc
  cases hrow : rowOf env u.now u.doc with
  | none => exact ⟨Or.inl, fun h => h.elim id fun h => nomatch h.1⟩
  | some new =>
    show row ∈ (entries.insert new).getD entries ↔ _
    cases hinsert : entries.insert new with
    | none =>
      obtain ⟨x, hx, hid⟩ := Table.insert_eq_none.mp hinsert
      refine ⟨Or.inl, fun h => h.elim id ?_⟩
      rintro ⟨hnew, hfresh⟩
      cases hnew
      exact absurd hid (hfresh x hx)
    | some entries' =>
      have hfresh := (Table.insert_eq_some.mp hinsert).1
      show row ∈ entries' ↔ _
      rw [Table.mem_insert hinsert]
      refine or_congr_right ?_
      constructor
      · rintro rfl
        exact ⟨rfl, hfresh⟩
      · rintro ⟨hnew, -⟩
        cases hnew
        rfl

/-- The first target gets the row, and the others find it there. -/
theorem mem_upsert {entries : Entries ν} {u : Upsert ν} {row : Row ν} :
    row ∈ svc.upsert env entries u ↔
      row ∈ entries ∨ svc.targets u ≠ [] ∧
        rowOf env u.now u.doc = some row ∧ ∀ x ∈ entries, x.embeddingId ≠ row.embeddingId := by
  unfold Service.upsert
  induction svc.targets u generalizing entries with
  | nil => exact ⟨Or.inl, fun h => h.elim id fun h => absurd rfl h.1⟩
  | cons name names ih =>
    rw [List.foldl_cons, ih, mem_insertDoc]
    constructor
    · rintro (h | ⟨-, hrow, hfresh⟩)
      · exact h.imp_right fun h => ⟨List.cons_ne_nil _ _, h⟩
      · refine Or.inr ⟨List.cons_ne_nil _ _, hrow, fun x hx => ?_⟩
        exact hfresh x (mem_insertDoc.mpr (.inl hx))
    · rintro (h | ⟨-, h⟩)
      · exact .inl (.inl h)
      · exact .inl (.inr h)

/-- The `upsert` would write a row of this id. -/
def Service.writes (env : Env ν) (svc : Service ν) (id : Text) (u : Upsert ν) : Bool :=
  svc.targets u ≠ [] && (rowOf env u.now u.doc).any fun row => row.embeddingId = id

/-- The document of an id. -/
def Service.origin (env : Env ν) (svc : Service ν) (us : List (Upsert ν)) (id : Text) :
    Option (Doc ν) :=
  (us.find? (svc.writes env id)).map Upsert.doc

theorem writes_iff {u : Upsert ν} {id : Text} :
    svc.writes env id u = true ↔
      svc.targets u ≠ [] ∧ ∃ row, rowOf env u.now u.doc = some row ∧ row.embeddingId = id := by
  unfold Service.writes
  rw [Bool.and_eq_true, decide_eq_true_iff, Option.any_eq_true]
  simp only [decide_eq_true_iff]

/-- Each row is of the first document of its id, and each document that was written has a row of
its id. -/
theorem upserts_spec (us : List (Upsert ν)) :
    (∀ row ∈ svc.upserts env us, ∃ u, us.find? (svc.writes env row.embeddingId) = some u ∧
        rowOf env u.now u.doc = some row) ∧
      ∀ u ∈ us, ∀ id, svc.writes env id u = true → ∃ row ∈ svc.upserts env us, row.embeddingId = id := by
  induction us using List.reverseRecOn with
  | nil => exact ⟨nofun, nofun⟩
  | append_singleton us u ih =>
    have hstep : svc.upserts env (us ++ [u]) = svc.upsert env (svc.upserts env us) u := by
      unfold Service.upserts
      rw [List.foldl_append]
      rfl
    rw [hstep]
    constructor
    · intro row hrow
      rcases mem_upsert.mp hrow with hrow | ⟨htargets, hrow, hfresh⟩
      · obtain ⟨v, hv, hof⟩ := ih.1 row hrow
        refine ⟨v, ?_, hof⟩
        rw [List.find?_append, hv]
        rfl
      · refine ⟨u, ?_, hrow⟩
        have hnone : us.find? (svc.writes env row.embeddingId) = none := by
          rw [List.find?_eq_none]
          intro v hv hw
          obtain ⟨x, hx, hid⟩ := ih.2 v hv _ hw
          exact hfresh x hx hid
        have hu : svc.writes env row.embeddingId u = true := writes_iff.mpr ⟨htargets, row, hrow, rfl⟩
        rw [List.find?_append, hnone, List.find?_cons_of_pos hu]
        rfl
    · intro v hv id hw
      rcases List.mem_append.mp hv with hv | hv
      · obtain ⟨row, hrow, hid⟩ := ih.2 v hv id hw
        exact ⟨row, mem_upsert.mpr (.inl hrow), hid⟩
      · cases List.mem_singleton.mp hv
        obtain ⟨htargets, row, hrow, hid⟩ := writes_iff.mp hw
        by_cases hheld : ∃ x ∈ svc.upserts env us, x.embeddingId = row.embeddingId
        · obtain ⟨x, hx, hxid⟩ := hheld
          exact ⟨x, mem_upsert.mpr (.inl hx), hxid.trans hid⟩
        · refine ⟨row, mem_upsert.mpr (.inr ⟨htargets, hrow, fun x hx h => ?_⟩), hid⟩
          exact hheld ⟨x, hx, h⟩

theorem origin_of_mem {us : List (Upsert ν)} {row : Row ν} (h : row ∈ svc.upserts env us) :
    ∃ u : Upsert ν, svc.origin env us row.embeddingId = some u.doc ∧ rowOf env u.now u.doc = some row := by
  obtain ⟨u, hu, hrow⟩ := (upserts_spec us).1 row h
  refine ⟨u, ?_, hrow⟩
  unfold Service.origin
  rw [hu]
  rfl

end

/-! ## The rows that a read reaches -/

section

variable {ν : Type} [Floats ν]

def Row.known (row : Row ν) : List (Text × Value ν) := row.fields.getD []

/-- The result of a row, before it is governed. -/
def Row.result (name : String) (row : Row ν) (embedding : Value ν) (similarity : Option ν) :
    Result ν :=
  resultOf name row row.known embedding similarity

def Row.rankedResult (name : String) (row : Row ν) (sim : ν) : Result ν :=
  { row.result name (.list false (row.normalizedVector.map .float)) (some sim) with
    similarity := some (cosineToUnit sim) }

/-- The trust score of a row: of the `meta` of its document, or `1.0`. -/
def Row.trust (row : Row ν) : Value ν :=
  trustOr ((row.known.lookup (text "trust_score")).getD (.float (Floats.lit 1)))

/-- The rows that a read reaches, with their results: the first row of the id, the first `top_k` of
the ranking, or the first `limit` rows with the query in their content. -/
def reached (env : Env ν) (svc : Service ν) (entries : Entries ν) :
    Read ν → Option (List (Row ν × Result ν))
  | .get id _ =>
    some ((entries.rows.find? fun row => row.chunkId = id).toList.map fun row =>
      (row, row.result svc.adapterName row.vector none))
  | .queryVector vector topK _ =>
    (ranked env entries vector).map fun parsed => (upTo topK parsed).map fun e =>
      (e.2, e.2.rankedResult svc.adapterName e.1)
  | .search query _ limit _ =>
    if ∀ row ∈ entries.rows, (contentNorm env row).isSome then
      some ((upTo limit (entries.rows.filter fun row =>
        textNormalize env (.str query) <:+: (contentNorm env row).getD [])).map fun row =>
          (row, row.result svc.adapterName row.vector (some (Floats.lit 1))))
    else none

/-- What the adapter hands over. -/
def handed (env : Env ν) (svc : Service ν) (entries : Entries ν) :
    Read ν → Option (List (Result ν))
  | .get id _ => getResult svc.adapterName entries id
  | .queryVector vector topK _ => queryVector env svc.adapterName entries vector topK
  | .search query category limit _ => search env svc.adapterName entries query category limit

variable {env : Env ν} {svc : Service ν} {entries : Entries ν}

theorem upTo_map {α β : Type} (k : Int) (f : α → β) (xs : List α) :
    upTo k (xs.map f) = (upTo k xs).map f := by
  unfold upTo
  split
  · exact List.map_take.symm
  · rw [List.length_map]
    exact List.map_take.symm

theorem mem_of_mem_upTo {α : Type} {k : Int} {xs : List α} {x : α} (h : x ∈ upTo k xs) : x ∈ xs := by
  unfold upTo at h
  split at h
  · exact List.mem_of_mem_take h
  · exact List.mem_of_mem_take h

theorem normalizeRow_eq_some {name : String} {row : Row ν} {embedding : Value ν}
    {similarity : Option ν} {r : Result ν} :
    normalizeRow name row embedding similarity = some r ↔
      row.fields.isSome ∧ r = row.result name embedding similarity := by
  unfold normalizeRow Row.result Row.known
  cases row.fields with
  | none => exact ⟨nofun, fun h => nomatch h.1⟩
  | some fields => exact ⟨fun h => ⟨rfl, (Option.some.inj h).symm⟩, fun h => congrArg some h.2.symm⟩

theorem rankedResult_eq_some {name : String} {sim : ν} {row : Row ν} {r : Result ν} :
    rankedResult name sim row = some r ↔ row.fields.isSome ∧ r = row.rankedResult name sim := by
  unfold rankedResult
  rw [Option.map_eq_some_iff]
  simp only [normalizeRow_eq_some]
  constructor
  · rintro ⟨r, ⟨hsome, rfl⟩, rfl⟩
    exact ⟨hsome, rfl⟩
  · rintro ⟨hsome, rfl⟩
    exact ⟨_, ⟨hsome, rfl⟩, rfl⟩

/-- A mapping is what the search and the results both need of a row. -/
theorem contentNorm_isSome {row : Row ν} (h : (contentNorm env row).isSome) : row.fields.isSome := by
  unfold contentNorm at h
  unfold Row.fields Vector.Value.or
  cases hmeta : row.scoreMeta with
  | dict fields => cases fields <;> rfl
  | null => rw [hmeta] at h; cases h
  | bool b => rw [hmeta] at h; cases h
  | int n => rw [hmeta] at h; cases h
  | float x => rw [hmeta] at h; cases h
  | str s => rw [hmeta] at h; cases h
  | list tuple items => rw [hmeta] at h; cases h

omit [Floats ν] in
/-- A value that is computed for a row, beside the row. -/
theorem map_pair_eq_some {α : Type} {value : Option α} {default : α} (row : Row ν)
    {pair : α × Row ν} :
    value.map (fun x => (x, row)) = some pair ↔ value.isSome ∧ pair = (value.getD default, row) := by
  cases value with
  | none => exact ⟨nofun, fun h => nomatch h.1⟩
  | some x => exact ⟨fun h => ⟨rfl, (Option.some.inj h).symm⟩, fun h => congrArg some h.2.symm⟩

theorem search_eq_some {name : String} {query : Text} {category : Option Text} {limit : Int}
    {raw : List (Result ν)} :
    search env name entries query category limit = some raw ↔
      (∀ row ∈ entries.rows, (contentNorm env row).isSome) ∧
        raw = (upTo limit (entries.rows.filter fun row =>
          textNormalize env (.str query) <:+: (contentNorm env row).getD [])).map fun row =>
            row.result name row.vector (some (Floats.lit 1)) := by
  have hcontents := mapM_eq_some (fun row => (contentNorm env row).map fun c => (c, row))
    (fun row => (contentNorm env row).isSome) (fun row => ((contentNorm env row).getD [], row))
    (fun row _ => map_pair_eq_some row) entries.rows
  have hresults := mapM_eq_some
    (fun e : Text × Row ν => normalizeRow name e.2 e.2.vector (some (Floats.lit 1)))
    (fun e => e.2.fields.isSome) (fun e => e.2.result name e.2.vector (some (Floats.lit 1)))
    (fun _ _ => normalizeRow_eq_some)
  unfold search
  constructor
  · intro h
    obtain ⟨contents, hc, h⟩ := Option.bind_eq_some_iff.mp h
    obtain ⟨hall, rfl⟩ := (hcontents _).mp hc
    obtain ⟨results, hr, h⟩ := Option.bind_eq_some_iff.mp h
    obtain ⟨-, rfl⟩ := (hresults _ _).mp hr
    cases h
    refine ⟨hall, ?_⟩
    rw [List.filter_map, List.map_map, upTo_map]
    rfl
  · rintro ⟨hall, rfl⟩
    refine Option.bind_eq_some_iff.mpr ⟨_, (hcontents _).mpr ⟨hall, rfl⟩, ?_⟩
    refine Option.bind_eq_some_iff.mpr ⟨_, (hresults _ _).mpr ⟨?_, rfl⟩, ?_⟩
    · intro e he
      obtain ⟨row, hrow, rfl⟩ := List.mem_map.mp (List.mem_of_mem_filter he)
      exact contentNorm_isSome (hall row hrow)
    · show some (upTo limit _) = _
      rw [List.filter_map, List.map_map, upTo_map]
      rfl

/-- The adapter hands over the results of the rows that the read reaches, if all of them have a
mapping. -/
theorem handed_eq_some {read : Read ν} {raw : List (Result ν)} :
    handed env svc entries read = some raw ↔
      ∃ picks, reached env svc entries read = some picks ∧
        (∀ pick ∈ picks, pick.1.fields.isSome) ∧ raw = picks.map Prod.snd := by
  cases read with
  | get id provider =>
    simp only [handed, reached, getResult]
    cases entries.rows.find? fun row => row.chunkId = id with
    | none =>
      constructor
      · rintro h
        cases h
        exact ⟨[], rfl, nofun, rfl⟩
      · rintro ⟨picks, hp, -, rfl⟩
        cases hp
        rfl
    | some row =>
      constructor
      · intro h
        obtain ⟨r, hr, rfl⟩ := Option.map_eq_some_iff.mp h
        obtain ⟨hsome, rfl⟩ := normalizeRow_eq_some.mp hr
        exact ⟨_, rfl, fun pick hp => by cases List.mem_singleton.mp hp; exact hsome, rfl⟩
      · rintro ⟨picks, hp, hsome, rfl⟩
        cases hp
        have hr := normalizeRow_eq_some.mpr
          ⟨hsome _ List.mem_cons_self, (rfl : _ = row.result svc.adapterName row.vector none)⟩
        show (normalizeRow svc.adapterName row row.vector none).map _ = _
        rw [hr]
        rfl
  | queryVector vector topK provider =>
    have hresults := mapM_eq_some
      (fun e : ν × Row ν => rankedResult svc.adapterName e.1 e.2) (fun e => e.2.fields.isSome)
      (fun e => e.2.rankedResult svc.adapterName e.1) (fun _ _ => rankedResult_eq_some)
    simp only [handed, reached, queryVector]
    cases ranked env entries vector with
    | none =>
      constructor
      · intro h
        cases h
      · rintro ⟨picks, hp, -⟩
        cases hp
    | some parsed =>
      constructor
      · intro h
        obtain ⟨hsome, rfl⟩ := (hresults _ _).mp h
        refine ⟨_, rfl, ?_, ?_⟩
        · intro pick hp
          obtain ⟨e, he, rfl⟩ := List.mem_map.mp hp
          exact hsome e he
        · rw [List.map_map]
          rfl
      · rintro ⟨picks, hp, hsome, rfl⟩
        cases hp
        refine (hresults _ _).mpr ⟨fun e he => hsome _ (List.mem_map_of_mem he), ?_⟩
        rw [List.map_map]
        rfl
  | search query category limit provider =>
    simp only [handed, reached, search_eq_some]
    constructor
    · rintro ⟨hall, rfl⟩
      rw [if_pos hall]
      refine ⟨_, rfl, ?_, ?_⟩
      · intro pick hp
        obtain ⟨row, hrow, rfl⟩ := List.mem_map.mp hp
        exact contentNorm_isSome (hall row (List.mem_of_mem_filter (mem_of_mem_upTo hrow)))
      · rw [List.map_map]
        rfl
    · rintro ⟨picks, hp, -, rfl⟩
      by_cases hall : ∀ row ∈ entries.rows, (contentNorm env row).isSome
      · rw [if_pos hall] at hp
        cases hp
        refine ⟨hall, ?_⟩
        rw [List.map_map]
        rfl
      · rw [if_neg hall] at hp
        cases hp

/-! ## The gate -/

/-- The service asks its adapter. -/
def asks (svc : Service ν) : Read ν → Prop
  | .get _ provider => (svc.order provider).head? = some svc.registered
  | .queryVector _ _ provider => svc.registered ∈ (svc.order provider).filter fun name => name ≠ ""
  | .search _ _ _ provider => svc.registered ∈ svc.order provider

/-- What passes the gate of a query or a search. -/
def Row.gated (svc : Service ν) (row : Row ν) : Bool := atLeast row.trust svc.minTrust = .ok true

/-- `get` has no gate. -/
def Row.passes (svc : Service ν) (row : Row ν) : Read ν → Bool
  | .get _ _ => true
  | _ => row.gated svc

/-- The trust score is a number, and no text where it is compared. -/
def Row.counts (svc : Service ν) (row : Row ν) (read : Read ν) : Prop :=
  (∃ factor, row.trust.toFloat = .ok factor) ∧
    match read with
    | .get _ _ => True
    | _ => ∃ b, atLeast row.trust svc.minTrust = .ok b

/-- The results of the rows that pass. -/
def shown (env : Env ν) (svc : Service ν) (read : Read ν) (picks : List (Row ν × Result ν)) :
    List (Result ν) :=
  (picks.filter fun pick => pick.1.passes svc read).map fun pick =>
    scored env svc pick.2 (floatOr pick.1.trust)

/-- A read that reaches these rows, where nothing raises. -/
structure Answers (env : Env ν) (svc : Service ν) (entries : Entries ν) (read : Read ν)
    (picks : List (Row ν × Result ν)) : Prop where
  asks : asks svc read
  reached : reached env svc entries read = some picks
  mapping : ∀ pick ∈ picks, pick.1.fields.isSome
  counts : ∀ pick ∈ picks, pick.1.counts svc read
  passive : env.passive (shown env svc read picks) = .ok ()

/-- The result is made of the row, and has its id and its trust score. -/
def Made (pick : Row ν × Result ν) : Prop :=
  pick.2.embeddingId = pick.1.embeddingId ∧ trustOr pick.2.trustScore = pick.1.trust

theorem made_of_reached {read : Read ν} {picks : List (Row ν × Result ν)}
    (h : reached env svc entries read = some picks) :
    ∀ pick ∈ picks, pick.1 ∈ entries ∧ Made pick := by
  intro pick hp
  cases read with
  | get id provider =>
    cases h
    obtain ⟨row, hrow, rfl⟩ := List.mem_map.mp hp
    exact ⟨List.mem_of_find?_eq_some (Option.mem_toList.mp hrow), rfl, rfl⟩
  | queryVector vector topK provider =>
    obtain ⟨parsed, hparsed, rfl⟩ := Option.map_eq_some_iff.mp h
    obtain ⟨e, he, rfl⟩ := List.mem_map.mp hp
    refine ⟨?_, rfl, rfl⟩
    obtain ⟨qvec, -, hparsed⟩ := Option.bind_eq_some_iff.mp hparsed
    obtain ⟨sims, hsims, hparsed⟩ := Option.bind_eq_some_iff.mp hparsed
    cases hparsed
    have he := (env.sort_perm sims).mem_iff.mp (mem_of_mem_upTo he)
    have hall := mapM_eq_some
      (fun row : Row ν => (cosineSimilarity qvec row.normalizedVector).map fun sim => (sim, row))
      (fun row => (cosineSimilarity qvec row.normalizedVector).isSome)
      (fun row => ((cosineSimilarity qvec row.normalizedVector).getD (Floats.lit 0), row))
      (fun row _ => map_pair_eq_some row) entries.rows sims
    rw [(hall.mp hsims).2] at he
    obtain ⟨row, hrow, rfl⟩ := List.mem_map.mp he
    exact hrow
  | search query category limit provider =>
    by_cases hall : ∀ row ∈ entries.rows, (contentNorm env row).isSome
    · simp only [reached, if_pos hall] at h
      cases h
      obtain ⟨row, hrow, rfl⟩ := List.mem_map.mp hp
      exact ⟨List.mem_of_mem_filter (mem_of_mem_upTo hrow), rfl, rfl⟩
    · simp only [reached, if_neg hall] at h
      cases h

theorem govern_eq_ok {raw r : Result ν} :
    govern env svc raw = .ok r ↔
      ∃ factor, (trustOr raw.trustScore).toFloat = .ok factor ∧ r = scored env svc raw factor := by
  unfold govern
  simp only [bind_eq_ok, pure_eq_ok]
  exact exists_congr fun _ => and_congr_right fun _ => eq_comm

theorem floatOr_of_ok {v : Value ν} {x : ν} (h : v.toFloat = .ok x) : floatOr v = x := by
  unfold floatOr
  rw [h]

/-- The results of rows are governed where their trust scores are numbers. -/
theorem mapM_govern {picks : List (Row ν × Result ν)} (hmade : ∀ pick ∈ picks, Made pick)
    {results : List (Result ν)} :
    (picks.map Prod.snd).mapM (govern env svc) = .ok results ↔
      (∀ pick ∈ picks, ∃ factor, pick.1.trust.toFloat = .ok factor) ∧
        results = picks.map fun pick => scored env svc pick.2 (floatOr pick.1.trust) := by
  have hgovern : ∀ pick ∈ picks, ∀ r, govern env svc pick.2 = .ok r ↔
      ∃ factor, pick.1.trust.toFloat = .ok factor ∧ r = scored env svc pick.2 factor := by
    intro pick hp r
    rw [govern_eq_ok, (hmade pick hp).2]
  rw [List.mapM_map]
  constructor
  · intro h
    have hall := mapM_eq_ok (g := fun pick => scored env svc pick.2 (floatOr pick.1.trust))
      (fun pick hp r hr => by
        obtain ⟨factor, hf, rfl⟩ := (hgovern pick hp r).mp hr
        rw [floatOr_of_ok hf]) h
    refine ⟨fun pick hp => ?_, hall.1⟩
    obtain ⟨factor, hf, -⟩ := (hgovern pick hp _).mp (hall.2 pick hp)
    exact ⟨factor, hf⟩
  · rintro ⟨hall, rfl⟩
    refine mapM_ok fun pick hp => (hgovern pick hp _).mpr ?_
    obtain ⟨factor, hf⟩ := hall pick hp
    exact ⟨factor, hf, by rw [floatOr_of_ok hf]⟩

theorem gate_eq_ok {picks : List (Row ν × Result ν)} (hmade : ∀ pick ∈ picks, Made pick)
    {results : List (Result ν)} :
    gate env svc (picks.map Prod.snd) = .ok results ↔
      (∀ pick ∈ picks, (∃ factor, pick.1.trust.toFloat = .ok factor) ∧
          ∃ b, atLeast pick.1.trust svc.minTrust = .ok b) ∧
        results = (picks.filter fun pick => pick.1.gated svc).map fun pick =>
          scored env svc pick.2 (floatOr pick.1.trust) := by
  have htrust : ∀ pick ∈ picks, (scored env svc pick.2 (floatOr pick.1.trust)).trustScore =
      pick.1.trust := fun pick hp => (hmade pick hp).2
  have hfilter : ((picks.map fun pick => scored env svc pick.2 (floatOr pick.1.trust)).filter
      fun r => decide (atLeast r.trustScore svc.minTrust = .ok true)) =
      (picks.filter fun pick => pick.1.gated svc).map fun pick =>
        scored env svc pick.2 (floatOr pick.1.trust) := by
    rw [List.filter_map]
    congr 1
    refine List.filter_congr fun pick hp => ?_
    show decide (atLeast (scored env svc pick.2 (floatOr pick.1.trust)).trustScore _ = _) = _
    rw [htrust pick hp]
    rfl
  have hvalue : ∀ (r : Result ν) b, atLeast r.trustScore svc.minTrust = .ok b →
      b = decide (atLeast r.trustScore svc.minTrust = .ok true) := by
    intro r b hb
    rw [hb]
    cases b <;> rfl
  unfold gate
  simp only [bind_eq_ok, mapM_govern hmade]
  constructor
  · rintro ⟨governed, ⟨hnumber, rfl⟩, h⟩
    obtain ⟨rfl, hall⟩ := filterM_eq_ok (fun r _ b hb => hvalue r b hb) h
    refine ⟨fun pick hp => ⟨hnumber pick hp, ?_⟩, hfilter⟩
    have h := hall _ (List.mem_map_of_mem hp)
    rw [htrust pick hp] at h
    exact ⟨_, h⟩
  · rintro ⟨hall, rfl⟩
    refine ⟨_, ⟨fun pick hp => (hall pick hp).1, rfl⟩, ?_⟩
    rw [← hfilter]
    refine filterM_ok fun r hr => ?_
    obtain ⟨pick, hp, rfl⟩ := List.mem_map.mp hr
    obtain ⟨b, hb⟩ := (hall pick hp).2
    rw [← htrust pick hp] at hb
    rw [hb]
    cases b <;> rfl

/-- The loop ends at the adapter, or it goes on as if the adapter had nothing. -/
theorem ask_eq_ok {raw : Option (List (Result ν))} {names : List String}
    {results : List (Result ν)} (h : ask env svc raw names = .ok results) :
    results = [] ∨
      svc.registered ∈ names ∧ ∃ found, raw = some found ∧ gate env svc found = .ok results ∧
        env.passive results = .ok () := by
  induction names with
  | nil =>
    unfold ask at h
    cases hp : env.passive [] with
    | error e =>
      rw [hp] at h
      cases h
    | ok u =>
      rw [hp] at h
      cases h
      exact .inl rfl
  | cons name names ih =>
    have hrest (h : ask env svc raw names = .ok results) :=
      (ih h).imp_right (And.imp_left (List.mem_cons_of_mem name))
    unfold ask at h
    by_cases hname : name = svc.registered
    · rw [if_pos hname] at h
      cases raw with
      | none => exact hrest h
      | some found =>
        obtain ⟨governed, hgate, h⟩ := bind_eq_ok.mp h
        by_cases hempty : governed.isEmpty = true
        · rw [if_pos hempty] at h
          exact hrest h
        · rw [if_neg hempty] at h
          cases hp : env.passive governed with
          | error e =>
            rw [hp] at h
            cases h
          | ok u =>
            rw [hp] at h
            cases h
            exact .inr ⟨List.mem_cons.mpr (.inl hname.symm), found, rfl, hgate, hp⟩
    · rw [if_neg hname] at h
      exact hrest h

theorem ask_of_gate {found results : List (Result ν)} {names : List String}
    (hnames : svc.registered ∈ names ∨ results = []) (hgate : gate env svc found = .ok results)
    (hp : env.passive results = .ok ()) : ask env svc (some found) names = .ok results := by
  induction names with
  | nil =>
    obtain rfl := hnames.resolve_left List.not_mem_nil
    unfold ask
    rw [hp]
    rfl
  | cons name names ih =>
    unfold ask
    by_cases hname : name = svc.registered
    · rw [if_pos hname]
      refine bind_eq_ok.mpr ⟨results, hgate, ?_⟩
      by_cases hempty : results.isEmpty = true
      · rw [if_pos hempty]
        exact ih (.inr (List.isEmpty_iff.mp hempty))
      · rw [if_neg hempty, hp]
        rfl
    · rw [if_neg hname]
      refine ih (hnames.imp_left fun h => ?_)
      exact (List.mem_cons.mp h).resolve_left (Ne.symm hname)

theorem shown_get {id : Text} {provider : Option String} {picks : List (Row ν × Result ν)} :
    shown env svc (.get id provider) picks =
      picks.map fun pick => scored env svc pick.2 (floatOr pick.1.trust) := by
  have hall : (picks.filter fun pick => pick.1.passes svc (.get id provider)) = picks :=
    List.filter_eq_self.mpr fun _ _ => rfl
  unfold shown
  rw [hall]

omit [Floats ν] in
theorem passive_eq_ok {results results' : List (Result ν)}
    (h : (env.passive results).map (fun _ => results) = .ok results') :
    results' = results ∧ env.passive results = .ok () := by
  cases hp : env.passive results with
  | error e =>
    rw [hp] at h
    cases h
  | ok u =>
    rw [hp] at h
    cases h
    exact ⟨rfl, rfl⟩

/-- **What a read returns**: the results of the rows that it reaches and that pass. -/
theorem read_of_answers {read : Read ν} {picks : List (Row ν × Result ν)}
    (h : Answers env svc entries read picks) :
    svc.read env entries read = .ok (shown env svc read picks) := by
  have hmade : ∀ pick ∈ picks, Made pick := fun pick hp => (made_of_reached h.reached pick hp).2
  have hhanded := handed_eq_some.mpr ⟨picks, h.reached, h.mapping, rfl⟩
  cases read with
  | get id provider =>
    have hget : getResult svc.adapterName entries id = some (picks.map Prod.snd) := hhanded
    have hasks : (svc.order provider).head? = some svc.registered := h.asks
    have hpassive := h.passive
    rw [shown_get] at hpassive ⊢
    show svc.get env entries id provider = _
    unfold Service.get
    rw [if_pos hasks, hget]
    cases picks with
    | nil =>
      show (env.passive []).map _ = _
      rw [show env.passive [] = .ok () from hpassive]
      rfl
    | cons pick picks =>
      refine bind_eq_ok.mpr
        ⟨_, (mapM_govern hmade).mpr ⟨fun pick hp => (h.counts pick hp).1, rfl⟩, ?_⟩
      rw [hpassive]
      rfl
  | queryVector vector topK provider =>
    have hgate : gate env svc (picks.map Prod.snd) =
        .ok (shown env svc (.queryVector vector topK provider) picks) :=
      (gate_eq_ok hmade).mpr ⟨h.counts, rfl⟩
    exact (congrArg (ask env svc · _) hhanded).trans (ask_of_gate (.inl h.asks) hgate h.passive)
  | search query category limit provider =>
    have hgate : gate env svc (picks.map Prod.snd) =
        .ok (shown env svc (.search query category limit provider) picks) :=
      (gate_eq_ok hmade).mpr ⟨h.counts, rfl⟩
    exact (congrArg (ask env svc · _) hhanded).trans (ask_of_gate (.inl h.asks) hgate h.passive)

theorem read_eq_ok {read : Read ν} {results : List (Result ν)}
    (h : svc.read env entries read = .ok results) (hne : results ≠ []) :
    ∃ picks, Answers env svc entries read picks ∧ results = shown env svc read picks := by
  cases read with
  | get id provider =>
    replace h : svc.get env entries id provider = .ok results := h
    unfold Service.get at h
    by_cases hasks : (svc.order provider).head? = some svc.registered
    · rw [if_pos hasks] at h
      cases hget : getResult svc.adapterName entries id with
      | none =>
        rw [hget] at h
        cases h
        exact absurd rfl hne
      | some raw =>
        rw [hget] at h
        have hfound : handed env svc entries (.get id provider) = some raw := hget
        obtain ⟨picks, hreached, hmapping, rfl⟩ := handed_eq_some.mp hfound
        have hmade : ∀ pick ∈ picks, Made pick := fun pick hp => (made_of_reached hreached pick hp).2
        cases picks with
        | nil => exact absurd (passive_eq_ok h).1 hne
        | cons pick picks =>
          obtain ⟨governed, hgovern, h⟩ := bind_eq_ok.mp h
          obtain ⟨hcounts, rfl⟩ := (mapM_govern hmade).mp hgovern
          obtain ⟨rfl, hpassive⟩ := passive_eq_ok h
          rw [← shown_get] at hpassive ⊢
          exact ⟨_, ⟨hasks, hreached, hmapping, fun pick hp => ⟨hcounts pick hp, trivial⟩, hpassive⟩, rfl⟩
    · rw [if_neg hasks] at h
      cases h
      exact absurd rfl hne
  | queryVector vector topK provider =>
    obtain ⟨hasks, found, hfound, hgate, hpassive⟩ := (ask_eq_ok h).resolve_left hne
    replace hfound : handed env svc entries (.queryVector vector topK provider) = some found := hfound
    obtain ⟨picks, hreached, hmapping, rfl⟩ := handed_eq_some.mp hfound
    obtain ⟨hcounts, rfl⟩ :=
      (gate_eq_ok fun pick hp => (made_of_reached hreached pick hp).2).mp hgate
    exact ⟨picks, ⟨hasks, hreached, hmapping, hcounts, hpassive⟩, rfl⟩
  | search query category limit provider =>
    obtain ⟨hasks, found, hfound, hgate, hpassive⟩ := (ask_eq_ok h).resolve_left hne
    replace hfound : handed env svc entries (.search query category limit provider) = some found := hfound
    obtain ⟨picks, hreached, hmapping, rfl⟩ := handed_eq_some.mp hfound
    obtain ⟨hcounts, rfl⟩ :=
      (gate_eq_ok fun pick hp => (made_of_reached hreached pick hp).2).mp hgate
    exact ⟨picks, ⟨hasks, hreached, hmapping, hcounts, hpassive⟩, rfl⟩

/-! ## Documents -/

/-- The top-level trust score of the document is below the minimum. -/
def Below (doc : Doc ν) (minTrust : ν) : Prop :=
  match doc.get (text "trust_score") with
  | .float x => Floats.lt x minTrust
  | .int n => Floats.intLt n minTrust
  | .bool b => Floats.intLt (if b then 1 else 0) minTrust
  | _ => False

/-- A read may return the document: it is not below the minimum, and of the category. -/
def Allowed (svc : Service ν) (read : Read ν) (doc : Doc ν) : Prop :=
  ¬ Below doc svc.minTrust ∧ ∀ c, read.category = some c → describing doc (text "category") = .str c

/-- The documents that a read returns after these upserts are all allowed. -/
def Gated (env : Env ν) (svc : Service ν) (us : List (Upsert ν)) (read : Read ν) : Prop :=
  ∀ results, svc.read env (svc.upserts env us) read = .ok results → ∀ r ∈ results,
    ∃ doc, svc.origin env us r.embeddingId = some doc ∧ Allowed svc read doc

/-- Where the read answers, the rows that it reaches and that pass are of documents that are
allowed. -/
def Faithful (env : Env ν) (svc : Service ν) (us : List (Upsert ν)) (read : Read ν) : Prop :=
  ∀ picks, Answers env svc (svc.upserts env us) read picks → ∀ pick ∈ picks,
    pick.1.passes svc read = true → ∀ doc, svc.origin env us pick.1.embeddingId = some doc →
      Allowed svc read doc

end

/-! ## Examples -/

namespace Sample

/-- Floats as fractions; there are no vectors here, and no root is taken. -/
instance : Floats Rat where
  half := mkRat 1 2
  isZero x := x = 0
  isFinite _ := true
  inUnit x := 0 ≤ x && x ≤ 1
  ofInt n := some n
  ofText _ := none
  repr _ := []
  lit n := n
  add := (· + ·)
  mul := (· * ·)
  div x y := if y = 0 then none else some (x / y)
  sqrt := id
  le x y := x ≤ y
  lt x y := x < y
  leInt x n := x ≤ n
  intLt n x := n < x
  column _ := none

def env : Env Rat where
  nfkc := id
  lower := List.map Char.toLower
  sort := id
  sort_perm _ := .refl _
  decay _ _ := none
  passive _ := .ok ()

def svc : Service Rat where
  registered := "local"
  write := true
  adapterName := "local_vector_store"
  primaryLocal := "local"
  fallback := []
  minTrust := mkRat 1 2
  halfLife := 0

/-- A document of the category `secret` below the minimum; both fields are at the top level. -/
def doc : Doc Rat :=
  Doc.ofFields [(text "id", .str (text "d")), (text "content", .str (text "x")),
    (text "trust_score", .float (mkRat 1 10)), (text "category", .str (text "secret"))]

def us : List (Upsert Rat) := [{ now := text "2025-01-01T12:00:00+00:00", doc }]

end Sample

end ProjectMaya.Retriever
