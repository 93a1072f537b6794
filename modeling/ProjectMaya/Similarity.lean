import Mathlib.Analysis.Real.Sqrt
import ProjectMaya.Logic.Dot
import ProjectMaya.RetrieverGate

/-! # From a cosine to a similarity

The adapter maps the cosine `c` of `[-1, 1]` to `(c + 1) / 2`, and the service maps what it gets,
which is in `[-1, 1]` again, a second time: the similarity that is returned is `(c + 3) / 4`. So it
is `(c + 1) / 2` for a cosine of one only (`once_iff`). Numbers are exact here. -/

namespace ProjectMaya.Retriever

open Logic
open ProjectMaya.Vector (Text Value Doc Python text)

/-- Numbers that are exact. -/
class Exact (ν : Type) [Field ν] [LinearOrder ν] [Floats ν] : Prop where
  lit : ∀ n : Int, (Floats.lit n : ν) = n
  add : ∀ x y : ν, Floats.add x y = x + y
  mul : ∀ x y : ν, Floats.mul x y = x * y
  div : ∀ x y : ν, Floats.div x y = if y = 0 then none else some (x / y)
  isZero : ∀ x : ν, Python.isZero x = decide (x = 0)
  sqrt : ∀ x : ν, 0 ≤ x → Floats.sqrt x * Floats.sqrt x = x
  le : ∀ x y : ν, Floats.le x y = decide (x ≤ y)
  lt : ∀ x y : ν, Floats.lt x y = decide (x < y)

section

variable {ν : Type} [Field ν] [LinearOrder ν] [Floats ν]

/-- The adapter's cosine of the vector of a query and the vector of a row. -/
def Row.cosine (vector : Value ν) (row : Row ν) : Option ν :=
  (vectorNormalize vector).bind fun qvec => cosineSimilarity qvec row.normalizedVector

/-- A score after the decay of its time. -/
def decayed (env : Env ν) (svc : Service ν) (createdAt : Option Text) (score : ν) : ν :=
  match svc.halfLife, createdAt with
  | 0, _ => score
  | _, none => score
  | halfLife, some createdAt =>
    match env.decay halfLife createdAt with
    | none => score
    | some decay => Floats.mul score decay

/-- The result of a row with this cosine has it mapped to `[0, 1]` once, as its similarity and in
its score. -/
structure MappedOnce (env : Env ν) (svc : Service ν) (row : Row ν) (c : ν) (r : Result ν) : Prop where
  lower : -1 ≤ c
  upper : c ≤ 1
  similarity : r.similarity = some ((c + 1) / 2)
  score : r.score =
    some (normalizeScore (decayed env svc row.createdAt ((c + 1) / 2) * floatOr row.trust))

/-- What `query_vector` returns has the cosines mapped once. -/
def Once (env : Env ν) (svc : Service ν) (entries : Entries ν) (vector : Value ν) (topK : Int)
    (provider : Option String) : Prop :=
  ∀ results, svc.queryVector env entries vector topK provider = .ok results → ∀ r ∈ results,
    ∃ row ∈ entries, row.embeddingId = r.embeddingId ∧ ∃ c, row.cosine vector = some c ∧
      MappedOnce env svc row c r

/-- The rows that are returned have the direction of the query. -/
def Parallel (env : Env ν) (svc : Service ν) (entries : Entries ν) (vector : Value ν) (topK : Int)
    (provider : Option String) : Prop :=
  ∀ picks, Answers env svc entries (.queryVector vector topK provider) picks → ∀ pick ∈ picks,
    pick.1.passes svc (.queryVector vector topK provider) = true → pick.1.cosine vector = some 1

/-! ## The cosine -/

variable [IsStrictOrderedRing ν] [Exact ν]

omit [IsStrictOrderedRing ν] in
theorem foldl_products (l : List (ν × ν)) (sum : ν) :
    l.foldl (fun sum p => Floats.add sum (Floats.mul p.1 p.2)) sum =
      sum + (l.map fun p => p.1 * p.2).sum := by
  induction l generalizing sum with
  | nil => simp
  | cons p l ih =>
    rw [List.foldl_cons, ih, Exact.add, Exact.mul, List.map_cons, List.sum_cons, add_assoc]

omit [IsStrictOrderedRing ν] in
theorem dotProduct_eq_dot (a b : List ν) : dotProduct a b = dot a b := by
  unfold dotProduct dot
  rw [foldl_products, Exact.lit, Int.cast_zero, zero_add, List.zip_eq_zipWith, List.map_zipWith]

theorem cosineSimilarity_mem {a b : List ν} {c : ν} (h : cosineSimilarity a b = some c) :
    -1 ≤ c ∧ c ≤ 1 := by
  have hzero : -1 ≤ (0 : ν) ∧ (0 : ν) ≤ 1 := ⟨by linarith [zero_lt_one' ν], zero_le_one⟩
  unfold cosineSimilarity at h
  simp only [Exact.lit, Int.cast_zero, dotProduct_eq_dot, Exact.div, Exact.isZero, Exact.mul] at h
  split at h
  · cases h
    exact hzero
  · split at h
    · cases h
      exact hzero
    · rename_i hroots
      split at h
      · cases h
      · rename_i hne
        cases h
        exact cosine_mem (Exact.sqrt _ (dot_self_nonneg a)) (Exact.sqrt _ (dot_self_nonneg b)) hne

/-! ## The similarity -/

theorem cosineToUnit_eq (c : ν) : cosineToUnit c = (c + 1) / 2 := by
  unfold cosineToUnit
  rw [Exact.div, Exact.add, Exact.lit, Exact.lit, if_neg (by norm_num)]
  norm_num

/-- The service takes what the adapter has mapped for a cosine. -/
theorem unitSimilarity_cosineToUnit {c : ν} (h : -1 ≤ c ∧ c ≤ 1) :
    unitSimilarity (cosineToUnit c) = (c + 3) / 4 := by
  have hrange : -1 ≤ (c + 1) / 2 ∧ (c + 1) / 2 ≤ 1 := ⟨by linarith, by linarith⟩
  have htwice : ((c + 1) / 2 + 1) / 2 = (c + 3) / 4 := by ring
  have hpos : 0 < (c + 3) / 4 := by linarith
  unfold unitSimilarity
  simp only [Exact.le, Exact.lt, Exact.lit, cosineToUnit_eq, Int.cast_neg, Int.cast_one,
    Int.cast_zero, hrange.1, hrange.2, decide_true, Bool.and_self, if_true, htwice,
    decide_eq_true_eq]
  by_cases hlt : (c + 3) / 4 < 1
  · rw [if_pos hlt, if_pos hpos]
  · have hone : (c + 3) / 4 = 1 := by linarith
    rw [if_neg hlt, if_pos zero_lt_one, hone]

omit [IsStrictOrderedRing ν] in
theorem normalizeScore_of_mem {x : ν} (h : 0 ≤ x ∧ x ≤ 1) : normalizeScore x = x := by
  unfold normalizeScore
  simp only [Exact.lt, Exact.lit, Int.cast_zero, Int.cast_one, decide_eq_true_eq]
  rw [if_neg (not_lt.2 h.1), if_neg (not_lt.2 h.2)]

omit [Field ν] [LinearOrder ν] [IsStrictOrderedRing ν] [Exact ν] in
theorem scored_score (env : Env ν) (svc : Service ν) (raw : Result ν) (factor : ν) :
    (scored env svc raw factor).score = some (normalizeScore (Floats.mul (decayed env svc raw.createdAt
      (normalizeScore ((raw.score.or (raw.similarity.map unitSimilarity)).getD (Floats.lit 0))))
        factor)) := rfl

/-- What the service returns for a row with this cosine. -/
theorem scored_rankedResult (env : Env ν) (svc : Service ν) (row : Row ν) {c : ν} (factor : ν)
    (h : -1 ≤ c ∧ c ≤ 1) :
    (scored env svc (row.rankedResult svc.adapterName c) factor).similarity = some ((c + 3) / 4) ∧
      (scored env svc (row.rankedResult svc.adapterName c) factor).score =
        some (normalizeScore (decayed env svc row.createdAt ((c + 3) / 4) * factor)) := by
  have hunit := unitSimilarity_cosineToUnit h
  constructor
  · exact congrArg some hunit
  · have hscore : ((row.rankedResult svc.adapterName c).score.or
        ((row.rankedResult svc.adapterName c).similarity.map unitSimilarity)).getD (Floats.lit 0) =
          (c + 3) / 4 := hunit
    have hmem : normalizeScore ((c + 3) / 4) = (c + 3) / 4 :=
      normalizeScore_of_mem ⟨by linarith, by linarith⟩
    rw [scored_score, hscore, hmem, Exact.mul]
    rfl

/-! ## What is returned -/

variable {env : Env ν} {svc : Service ν} {entries : Entries ν} {vector : Value ν} {topK : Int}
  {provider : Option String}

omit [Field ν] [LinearOrder ν] [IsStrictOrderedRing ν] [Exact ν] in
/-- The rows are ranked by their cosines. -/
theorem cosine_of_reached {picks : List (Row ν × Result ν)}
    (h : reached env svc entries (.queryVector vector topK provider) = some picks) :
    ∀ pick ∈ picks, ∃ c, pick.1.cosine vector = some c ∧
      pick.2 = pick.1.rankedResult svc.adapterName c := by
  intro pick hp
  obtain ⟨parsed, hparsed, rfl⟩ := Option.map_eq_some_iff.mp h
  obtain ⟨e, he, rfl⟩ := List.mem_map.mp hp
  obtain ⟨qvec, hqvec, hparsed⟩ := Option.bind_eq_some_iff.mp hparsed
  obtain ⟨sims, hsims, hparsed⟩ := Option.bind_eq_some_iff.mp hparsed
  cases hparsed
  have hall := mapM_eq_some
    (fun row : Row ν => (cosineSimilarity qvec row.normalizedVector).map fun sim => (sim, row))
    (fun row => (cosineSimilarity qvec row.normalizedVector).isSome)
    (fun row => ((cosineSimilarity qvec row.normalizedVector).getD (Floats.lit 0), row))
    (fun row _ => map_pair_eq_some row) entries.rows sims
  obtain ⟨hsome, rfl⟩ := hall.mp hsims
  obtain ⟨row, hrow, rfl⟩ := List.mem_map.mp ((env.sort_perm _).mem_iff.mp (mem_of_mem_upTo he))
  obtain ⟨c, hc⟩ := Option.isSome_iff_exists.mp (hsome row hrow)
  refine ⟨c, ?_, ?_⟩
  · unfold Row.cosine
    rw [hqvec]
    exact hc
  · rw [hc]
    rfl

theorem cosine_mem_of_eq {row : Row ν} {c : ν} (h : row.cosine vector = some c) :
    -1 ≤ c ∧ c ≤ 1 := by
  obtain ⟨qvec, -, hc⟩ := Option.bind_eq_some_iff.mp h
  exact cosineSimilarity_mem hc

/-- **A cosine is mapped once** exactly when it is one, for every row that is returned. -/
theorem once_iff (env : Env ν) (svc : Service ν) (entries : Entries ν) (vector : Value ν) (topK : Int)
    (provider : Option String) :
    Once env svc entries vector topK provider ↔ Parallel env svc entries vector topK provider := by
  constructor
  · intro h picks hanswers pick hp hpasses
    obtain ⟨hmem, hmade⟩ := made_of_reached hanswers.reached pick hp
    obtain ⟨c, hc, hranked⟩ := cosine_of_reached hanswers.reached pick hp
    obtain ⟨row, hrow, hid, c', hc', hmapped⟩ := h _ (read_of_answers hanswers) _
      (List.mem_map_of_mem (List.mem_filter.mpr ⟨hp, hpasses⟩))
    obtain rfl : row = pick.1 := Table.eq_of_key_eq hrow hmem (hid.trans hmade.1)
    rw [hc] at hc'
    cases hc'
    have hsimilarity := hmapped.similarity
    rw [hranked, (scored_rankedResult env svc pick.1 _ (cosine_mem_of_eq hc)).1] at hsimilarity
    have hone : c = 1 := by linarith [Option.some.inj hsimilarity]
    rw [hc, hone]
  · intro h results hresults r hr
    have hread : svc.read env entries (.queryVector vector topK provider) = .ok results := hresults
    obtain ⟨picks, hanswers, rfl⟩ := read_eq_ok hread (List.ne_nil_of_mem hr)
    obtain ⟨pick, hp, rfl⟩ := List.mem_map.mp hr
    obtain ⟨hp, hpasses⟩ := List.mem_filter.mp hp
    obtain ⟨hmem, hmade⟩ := made_of_reached hanswers.reached pick hp
    obtain ⟨c, hc, hranked⟩ := cosine_of_reached hanswers.reached pick hp
    have hone := h picks hanswers pick hp hpasses
    rw [hc] at hone
    obtain rfl : c = 1 := Option.some.inj hone
    have hmem' := cosine_mem_of_eq hc
    obtain ⟨hsimilarity, hscore⟩ :=
      scored_rankedResult env svc pick.1 (floatOr pick.1.trust) hmem'
    have hsame : ((1 : ν) + 3) / 4 = (1 + 1) / 2 := by norm_num
    rw [hsame] at hsimilarity hscore
    refine ⟨pick.1, hmem, hmade.1.symm, 1, hc, hmem'.1, hmem'.2, ?_, ?_⟩
    · rw [hranked]
      exact hsimilarity
    · rw [hranked]
      exact hscore

end

/-! ## Examples -/

namespace Sample

/-- The real numbers; nothing here has the text of a number. -/
noncomputable instance : Floats ℝ where
  half := 1 / 2
  isZero x := decide (x = 0)
  isFinite _ := true
  inUnit x := decide (0 ≤ x ∧ x ≤ 1)
  ofInt n := some n
  ofText _ := none
  repr _ := []
  lit n := n
  add := (· + ·)
  mul := (· * ·)
  div x y := if y = 0 then none else some (x / y)
  sqrt := Real.sqrt
  le x y := decide (x ≤ y)
  lt x y := decide (x < y)
  leInt x n := decide (x ≤ n)
  intLt n x := decide (n < x)
  column _ := none

instance : Exact ℝ where
  lit _ := rfl
  add _ _ := rfl
  mul _ _ := rfl
  div _ _ := rfl
  isZero _ := rfl
  sqrt _ := Real.mul_self_sqrt
  le _ _ := rfl
  lt _ _ := rfl

def exactEnv : Env ℝ where
  nfkc := id
  lower := id
  sort := id
  sort_perm _ := .refl _
  decay _ _ := none
  passive _ := .ok ()

noncomputable def exactSvc : Service ℝ where
  registered := "local"
  write := true
  adapterName := "local_vector_store"
  primaryLocal := "local"
  fallback := []
  minTrust := 0
  halfLife := 0

/-- A row with the vector `[1]`. -/
noncomputable def oneRow : Row ℝ where
  embeddingId := text "e"
  chunkId := text "e"
  vector := .list false [.float 1]
  vectorDim := 1
  createdAt := none
  sourcePath := none
  scoreMeta := .dict []
  normalizedVector := [1]

noncomputable def oneEntry : Entries ℝ := ⟨[oneRow], List.nodup_singleton _⟩

/-- The query `[1]` or `[-1]`. -/
noncomputable def query (c : ℝ) : Value ℝ := .list false [.float c]

theorem cosine_query {c : ℝ} (h : c * c = 1) : oneRow.cosine (query c) = some c := by
  have hnorm : dotProduct [c] [c] = 1 := by
    rw [dotProduct_eq_dot]
    simp [dot, h]
  have hone : dotProduct [(1 : ℝ)] [1] = 1 := by
    rw [dotProduct_eq_dot]
    simp [dot]
  have hprod : dotProduct [c] [1] = c := by
    rw [dotProduct_eq_dot]
    simp [dot]
  have hsqrt : (Floats.sqrt (1 : ℝ)) = 1 := Real.sqrt_one
  have hlit : (Floats.lit 1 : ℝ) = 1 := by simp [Exact.lit]
  have hdiv : ∀ x : ℝ, Floats.div x 1 = some x := by
    intro x
    simp [Exact.div]
  have hnonzero : Python.isZero (1 : ℝ) = false := by simp [Exact.isZero]
  have hvector : vectorNormalize (query c) = some [c] := by
    show (if Python.isZero (dotProduct [c] [c]) then some [Floats.lit 0] else
      (Floats.div (Floats.lit 1) (Floats.sqrt (dotProduct [c] [c]))).map fun inv =>
        [Floats.mul c inv]) = some [c]
    rw [hnorm, hnonzero, hsqrt, hdiv, hlit]
    simp [Exact.mul]
  unfold Row.cosine
  rw [hvector]
  show (if [c] = [] ∨ [(1 : ℝ)] = [] ∨ [c].length ≠ [(1 : ℝ)].length then some (Floats.lit 0) else
    if Python.isZero (dotProduct [c] [c]) || Python.isZero (dotProduct [(1 : ℝ)] [1]) then
      some (Floats.lit 0)
    else Floats.div (dotProduct [c] [1]) (Floats.mul (Floats.sqrt (dotProduct [c] [c]))
      (Floats.sqrt (dotProduct [(1 : ℝ)] [1])))) = some c
  rw [if_neg (by simp), hnorm, hone, hprod, hnonzero, hsqrt, Exact.mul, mul_one, hdiv]
  rfl

theorem answers_query {c : ℝ} (h : c * c = 1) :
    Answers exactEnv exactSvc oneEntry (.queryVector (query c) 10 none)
      [(oneRow, oneRow.rankedResult exactSvc.adapterName c)] where
  asks := List.mem_singleton.mpr rfl
  reached := by
    obtain ⟨qvec, hqvec, hc⟩ := Option.bind_eq_some_iff.mp (cosine_query h)
    have hranked : ranked exactEnv oneEntry (query c) = some [(c, oneRow)] := by
      refine Option.bind_eq_some_iff.mpr ⟨qvec, hqvec, ?_⟩
      refine Option.bind_eq_some_iff.mpr ⟨[(c, oneRow)], ?_, rfl⟩
      show ([oneRow].mapM _) = _
      rw [List.mapM_cons, hc]
      rfl
    show (ranked exactEnv oneEntry (query c)).map _ = _
    rw [hranked]
    rfl
  mapping pick hp := by
    rw [List.mem_singleton.mp hp]
    rfl
  counts pick hp := by
    rw [List.mem_singleton.mp hp]
    exact ⟨⟨_, rfl⟩, _, rfl⟩
  passive := rfl

/-- The similarity of opposite vectors is one half, and not zero. -/
theorem opposite_not_once : ¬ Once exactEnv exactSvc oneEntry (query (-1)) 10 none := by
  intro h
  have hanswers := answers_query (show (-1 : ℝ) * -1 = 1 by norm_num)
  have hpasses : oneRow.passes exactSvc (.queryVector (query (-1)) 10 none) = true := by
    have hle : Floats.le (0 : ℝ) (Floats.lit 1) = true := by simp [Exact.le, Exact.lit]
    have hgate : atLeast oneRow.trust exactSvc.minTrust = .ok true := congrArg Except.ok hle
    exact decide_eq_true hgate
  obtain ⟨row, hrow, -, c, hc, hmapped⟩ := h _ (read_of_answers hanswers) _
    (List.mem_map_of_mem (List.mem_filter.mpr ⟨List.mem_singleton_self _, hpasses⟩))
  rw [List.mem_singleton.mp (Table.mem_def.mp hrow), cosine_query (by norm_num)] at hc
  obtain rfl : -1 = c := Option.some.inj hc
  have hsimilarity := hmapped.similarity
  rw [(scored_rankedResult exactEnv exactSvc oneRow _ ⟨le_refl _, by norm_num⟩).1] at hsimilarity
  have hhalf := Option.some.inj hsimilarity
  norm_num at hhalf

/-- A query in the direction of the row. -/
theorem same_once : Once exactEnv exactSvc oneEntry (query 1) 10 none := by
  refine (once_iff exactEnv exactSvc oneEntry (query 1) 10 none).mpr ?_
  intro picks hanswers pick hp _
  obtain ⟨c, hc, -⟩ := cosine_of_reached hanswers.reached pick hp
  obtain ⟨hmem, -⟩ := made_of_reached hanswers.reached pick hp
  rw [List.mem_singleton.mp hmem]
  exact cosine_query (by norm_num)

end Sample

end ProjectMaya.Retriever
