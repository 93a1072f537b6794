import Mathlib.Algebra.GroupWithZero.Nat
import Mathlib.Algebra.Order.Ring.Rat
import ProjectMaya.GovernanceValidator

/-! # `build_context`

The hits are ranked, those with the id of a better one are left out, and the first ones become blocks
as long as their words fit the budget.  A block gets its annotation by its id: the last one that the
validator has written for this id.  `annotated_iff` says when that is the annotation of the hit that
the block shows. -/

namespace ProjectMaya.ContextBuilder

open ProjectMaya.Vector (Text Doc text isSpace)

structure Block (ν : Type) where
  chunkId : Option Text
  content : Text
  provider : Option Text
  score : Option ν
  similarity : Option ν
  trustScore : Option ν
  sourcePath : Option Text
  createdAt : Option Text
  metadata : Doc ν
  estimatedTokens : Nat
  /-- `none` for `None`, and without a report -/
  govAnnotations : Option ( BlockAnnotation ν) := none

structure OperationalContext (ν : Type) where
  blocks : List (Block ν)
  totalTokens : Nat
  tokenBudget : Int
  truncated : Bool
  governanceSummary : Option (List (Text × Nat)) := none

/-- The words of `text.split()`; `inWord` when the last character was part of one. -/
def countWords (inWord : Bool) : Text → Nat
  | [] => 0
  | c :: rest =>
    if isSpace c then countWords false rest
    else (if inWord then 0 else 1) + countWords true rest

/-- `_estimate_tokens` -/
def estimateTokens (t : Text) : Nat := if t = [] then 0 else max 1 (countWords false t)

section

variable {ν : Type}

/-- The hits that have content. -/
def candidates (retrievals : List (Hit ν)) : List (Hit ν) :=
  retrievals.filter fun r => r.content.getD [] ≠ []

/-- The deduplication: `seen` are the ids of the hits that were kept. -/
def dedupe : List (Option Text) → List (Hit ν) → List (Hit ν)
  | _, [] => []
  | seen, r :: rest =>
    if r.cid ∈ seen then dedupe seen rest else r :: dedupe (r.cid :: seen) rest

def Hit.tokens (r : Hit ν) : Nat := estimateTokens (r.content.getD [])

def Hit.block (r : Hit ν) : Block ν where
  chunkId := r.cid
  content := r.content.getD []
  provider := r.provider
  score := r.score
  similarity := r.similarity
  trustScore := r.trustScore
  sourcePath := r.sourcePath
  createdAt := r.createdAt
  metadata := r.metadata
  estimatedTokens := r.tokens

/-- The loop that fills the budget: the blocks, the tokens, and whether something did not fit. -/
def fill (tokenBudget : Int) (totalTokens : Nat) : List (Hit ν) → List (Block ν) × Nat × Bool
  | [] => ([], totalTokens, false)
  | r :: rest =>
    if tokenBudget < totalTokens + r.tokens then ([], totalTokens, true)
    else
      let (blocks, total, truncated) := fill tokenBudget (totalTokens + r.tokens) rest
      (r.block :: blocks, total, truncated)

/-- `{a.get("chunk_id"): a for a in ann}.get(cid)` -/
def lookupAnnotation (annotations : List ( BlockAnnotation ν)) (cid : Option Text) :
    Option ( BlockAnnotation ν) :=
  annotations.reverse.find? fun a => some a.chunkId = cid

/-- The blocks with their annotations, if there are any. -/
def attach (annotations : List ( BlockAnnotation ν)) (blocks : List (Block ν)) : List (Block ν) :=
  if annotations.isEmpty then blocks
  else blocks.map fun b => { b with govAnnotations := lookupAnnotation annotations b.chunkId }

end

section

variable {ν : Type} [LinearOrder ν] [OfScientific ν]

/-- `(-score, -trust_score, -similarity)` compare; a score that is missing is `0.0`. -/
def rankLe (a b : Hit ν) : Prop :=
  b.score.getD 0.0 < a.score.getD 0.0 ∨ (a.score.getD 0.0 = b.score.getD 0.0 ∧
    (b.trustScore.getD 0.0 < a.trustScore.getD 0.0 ∨ (a.trustScore.getD 0.0 = b.trustScore.getD 0.0 ∧
      b.similarity.getD 0.0 ≤ a.similarity.getD 0.0)))

instance : DecidableRel (rankLe (ν := ν)) := fun a b =>
  inferInstanceAs (Decidable (b.score.getD 0.0 < a.score.getD 0.0 ∨ (_ ∧
    (b.trustScore.getD 0.0 < a.trustScore.getD 0.0 ∨ (_ ∧ _)))))

/-- The candidates, the best first. -/
def rank (retrievals : List (Hit ν)) : List (Hit ν) := (candidates retrievals).insertionSort rankLe

def buildContext (retrievals : List (Hit ν)) (tokenBudget : Int)
    (governance : Option (GovernanceReportV2 ν)) : OperationalContext ν :=
  let (blocks, totalTokens, truncated) := fill tokenBudget 0 (dedupe [] (rank retrievals))
  match governance with
  | none => { blocks, totalTokens, tokenBudget, truncated }
  | some report =>
    { blocks := attach report.annotations blocks, totalTokens, tokenBudget, truncated
      governanceSummary := some report.summary }

end

/-! ## The loops -/

section

variable {ν : Type}

theorem dedupe_sublist (seen : List (Option Text)) (l : List (Hit ν)) :
    (dedupe seen l).Sublist l := by
  induction l generalizing seen with
  | nil => exact .slnil
  | cons r rest ih =>
    unfold dedupe
    by_cases hs : r.cid ∈ seen
    · rw [if_pos hs]
      exact (ih seen).cons r
    · rw [if_neg hs]
      exact (ih _).cons_cons r

def tokens (l : List (Hit ν)) : Nat := (l.map Hit.tokens).sum

/-- A hit becomes a block when it fits the budget together with all before it. -/
theorem mem_fill {tokenBudget : Int} {total : Nat} {l : List (Hit ν)} {i : Nat} {b : Block ν} :
    (fill tokenBudget total l).1[i]? = some b ↔ ∃ before r after, l = before ++ r :: after ∧
      before.length = i ∧ (total + tokens (before ++ [r]) : Int) ≤ tokenBudget ∧ b = r.block := by
  induction l generalizing total i with
  | nil =>
    constructor
    · intro h
      cases h
    · rintro ⟨before, r, after, hl, -⟩
      simp at hl
  | cons r rest ih =>
    unfold fill
    by_cases hfull : tokenBudget < total + r.tokens
    · rw [if_pos hfull]
      constructor
      · intro h
        cases h
      · rintro ⟨before, r', after, hl, -, hfits, -⟩
        have hfirst : r.tokens ≤ tokens (before ++ [r']) := by
          cases before with
          | nil =>
            cases hl
            simp [tokens]
          | cons x before =>
            cases hl
            simp [tokens]
        omega
    · rw [if_neg hfull]
      dsimp only
      cases i with
      | zero =>
        constructor
        · intro h
          cases h
          refine ⟨[], r, rest, rfl, rfl, ?_, rfl⟩
          simp [tokens]
          omega
        · rintro ⟨before, r', after, hl, hlen, -, rfl⟩
          rw [List.length_eq_zero_iff] at hlen
          rw [hlen] at hl
          cases hl
          rfl
      | succ i =>
        rw [List.getElem?_cons_succ, ih]
        constructor
        · rintro ⟨before, r', after, rfl, hlen, hfits, hb⟩
          refine ⟨r :: before, r', after, rfl, by rw [List.length_cons, hlen], ?_, hb⟩
          simp [tokens] at hfits ⊢
          omega
        · rintro ⟨before, r', after, hl, hlen, hfits, hb⟩
          cases before with
          | nil => cases hlen
          | cons x before =>
            cases hl
            refine ⟨before, r', after, rfl, by simpa using hlen, ?_, hb⟩
            simp [tokens] at hfits ⊢
            omega

end

/-! ## Whose annotation a block carries -/

section

variable {ν : Type}

/-- The hit has neither a `chunk_id` nor an `id` that is not empty. -/
def LacksId (r : Hit ν) : Prop := r.cid.getD [] = []

/-- The last of the hits that the validator names by this id. -/
def lastNamed (retrievals : List (Hit ν)) (id : Text) : Option (Hit ν) :=
  retrievals.reverse.find? fun r => r.cid.getD [] = id

variable [LinearOrder ν] [Mul ν] [OfScientific ν] (v : GovernanceValidator ν)

/-- Every block has the annotation of the hit that it shows, and the block of a hit that lacks an id
stands for this hit alone. -/
structure OwnAnnotations (retrievals : List (Hit ν)) (tokenBudget : Int) : Prop where
  annotated : ∀ (i : Nat) (b : Block ν),
    (buildContext retrievals tokenBudget (some (v.validate retrievals))).blocks[i]? = some b →
    ∃ r, (dedupe [] (rank retrievals))[i]? = some r ∧ b.content = r.content.getD [] ∧
      b.govAnnotations = some (v.annotate r)
  alone : ∀ (i : Nat) (b : Block ν) (r : Hit ν),
    (buildContext retrievals tokenBudget (some (v.validate retrievals))).blocks[i]? = some b →
    (dedupe [] (rank retrievals))[i]? = some r → LacksId r →
      (rank retrievals).filter (fun x => x.cid = r.cid) = [r]

/-- Every hit that is shown, as the first of its id that fits the budget, has an id that is not
`None`; the last hit that is named so has been annotated in the same way; and where the id is
empty, no other candidate has it. -/
def Distinct (retrievals : List (Hit ν)) (tokenBudget : Int) : Prop :=
  ∀ before r after, dedupe [] (rank retrievals) = before ++ r :: after →
    (tokens (before ++ [r]) : Int) ≤ tokenBudget →
      ∃ id, r.cid = some id ∧
        (lastNamed retrievals id).map v.annotate = some (v.annotate r) ∧
        (id = [] → (candidates retrievals).countP (fun x => x.cid = some []) = 1)

theorem lookupAnnotation_validate (retrievals : List (Hit ν)) (cid : Option Text) :
    lookupAnnotation (v.validate retrievals).annotations cid =
      cid.bind fun id => (lastNamed retrievals id).map v.annotate := by
  unfold lookupAnnotation lastNamed
  show ((retrievals.map v.annotate).reverse.find? _) = _
  rw [← List.map_reverse, List.find?_map]
  cases cid with
  | none =>
    have hnone : retrievals.reverse.find? ((fun a : BlockAnnotation ν =>
        decide (some a.chunkId = none)) ∘ v.annotate) = none := by
      rw [List.find?_eq_none]
      intro r _ h
      simp at h
    rw [hnone]
    rfl
  | some id =>
    show Option.map v.annotate (retrievals.reverse.find? _) = Option.map v.annotate _
    congr 2
    funext r
    show decide (some (r.cid.getD []) = some id) = decide (r.cid.getD [] = id)
    simp

/-- The blocks of a context, and the hits that they show. -/
theorem mem_blocks {retrievals : List (Hit ν)} (tokenBudget : Int) {i : Nat} {b : Block ν} :
    (buildContext retrievals tokenBudget (some (v.validate retrievals))).blocks[i]? = some b ↔
      ∃ before r after, dedupe [] (rank retrievals) = before ++ r :: after ∧ before.length = i ∧
        (tokens (before ++ [r]) : Int) ≤ tokenBudget ∧
        b = { r.block with govAnnotations := r.cid.bind fun id =>
          (lastNamed retrievals id).map v.annotate } := by
  have hblocks : (buildContext retrievals tokenBudget (some (v.validate retrievals))).blocks =
      attach (v.validate retrievals).annotations
        (fill tokenBudget 0 (dedupe [] (rank retrievals))).1 := rfl
  rw [hblocks]
  unfold attach
  split
  · rename_i hempty
    have hnone : retrievals = [] := by
      rw [List.isEmpty_iff] at hempty
      exact List.map_eq_nil_iff.1 hempty
    subst hnone
    constructor
    · intro h
      cases h
    · rintro ⟨before, r, after, hl, -⟩
      exact absurd hl (by simp [rank, candidates, dedupe])
  · rw [List.getElem?_map, Option.map_eq_some_iff]
    simp only [lookupAnnotation_validate]
    constructor
    · rintro ⟨c, hc, rfl⟩
      obtain ⟨before, r, after, hl, hlen, hfits, rfl⟩ := mem_fill.1 hc
      exact ⟨before, r, after, hl, hlen, by omega, rfl⟩
    · rintro ⟨before, r, after, hl, hlen, hfits, rfl⟩
      exact ⟨r.block, mem_fill.2 ⟨before, r, after, hl, hlen, by omega, rfl⟩, rfl⟩

omit [Mul ν] in
/-- A candidate stands alone under its id when it is the only one that has it. -/
theorem alone_iff {retrievals : List (Hit ν)} {r : Hit ν} (hr : r ∈ rank retrievals)
    (cid : Option Text) (hc : r.cid = cid) :
    (rank retrievals).filter (fun x => x.cid = cid) = [r] ↔
      (candidates retrievals).countP (fun x => x.cid = cid) = 1 := by
  have hperm : (rank retrievals).countP (fun x => x.cid = cid) =
      (candidates retrievals).countP fun x => x.cid = cid :=
    (List.perm_insertionSort rankLe (candidates retrievals)).countP_eq _
  rw [← hperm, List.countP_eq_length_filter]
  have hmem : r ∈ (rank retrievals).filter fun x => x.cid = cid :=
    List.mem_filter.2 ⟨hr, by simpa using hc⟩
  constructor
  · intro h
    rw [h]
    rfl
  · intro h
    obtain ⟨x, hx⟩ := List.length_eq_one_iff.1 h
    rw [hx] at hmem ⊢
    rw [List.mem_singleton.1 hmem]

/-- **Annotations belong to their hits** exactly when the ids tell the shown hits apart. -/
theorem annotated_iff (retrievals : List (Hit ν)) (tokenBudget : Int) :
    OwnAnnotations v retrievals tokenBudget ↔ Distinct v retrievals tokenBudget := by
  have hat : ∀ (before : List (Hit ν)) r after, dedupe [] (rank retrievals) = before ++ r :: after →
      (dedupe [] (rank retrievals))[before.length]? = some r := by
    intro before r after hl
    rw [hl]
    simp
  have hmem : ∀ (before : List (Hit ν)) r after, dedupe [] (rank retrievals) = before ++ r :: after →
      r ∈ rank retrievals := by
    intro before r after hl
    refine (dedupe_sublist [] (rank retrievals)).subset ?_
    rw [hl]
    simp
  constructor
  · rintro ⟨hown, halone⟩ before r after hl hfits
    have hb := (mem_blocks v tokenBudget).2 ⟨before, r, after, hl, rfl, hfits, rfl⟩
    obtain ⟨r', hr', -, hgov⟩ := hown _ _ hb
    rw [hat before r after hl] at hr'
    cases hr'
    obtain ⟨id, hid, hlast⟩ := Option.bind_eq_some_iff.1 hgov
    refine ⟨id, hid, hlast, ?_⟩
    rintro rfl
    rw [← alone_iff (hmem before r after hl) (some []) hid, ← hid]
    exact halone _ _ r hb (hat before r after hl) (by rw [LacksId, hid]; rfl)
  · intro hd
    constructor
    · intro i b hb
      obtain ⟨before, r, after, hl, rfl, hfits, rfl⟩ := (mem_blocks v tokenBudget).1 hb
      obtain ⟨id, hid, hlast, -⟩ := hd before r after hl hfits
      refine ⟨r, hat before r after hl, rfl, ?_⟩
      show (r.cid.bind fun id => (lastNamed retrievals id).map v.annotate) = _
      rw [hid]
      exact hlast
    · intro i b r hb hr hlacks
      obtain ⟨before, r', after, hl, rfl, hfits, -⟩ := (mem_blocks v tokenBudget).1 hb
      rw [hat before r' after hl] at hr
      cases hr
      obtain ⟨id, hid, -, honly⟩ := hd before r after hl hfits
      rw [LacksId, hid] at hlacks
      obtain rfl : id = [] := hlacks
      rw [hid, alone_iff (hmem before r after hl) (some []) hid]
      exact honly rfl

end

/-! ## Examples -/

namespace Sample

/-- A validator that warns of little trust. -/
def wary : GovernanceValidator Rat where
  policy := { minTrust := 1 / 2 }
  ageDays _ := none
  search _ _ := false

/-- Two hits on one chunk: the better one is shown, and carries the annotation of the other. -/
def twice : List (Hit Rat) :=
  [{ chunkId := some (text "a"), content := some (text "good"), score := some 1, trustScore := some 1 },
    { chunkId := some (text "a"), content := some (text "bad"), score := some 0, trustScore := some 0 }]

theorem twice_not_own : ¬ OwnAnnotations wary twice 100 := by
  intro h
  have hblock : ((buildContext twice 100 (some (wary.validate twice))).blocks[0]?).map
      (fun b => b.govAnnotations.map fun a => a.action) = some (some "warning") := by decide +kernel
  have hshown : ((dedupe [] (rank twice))[0]?).map (fun r => (wary.annotate r).action) =
      some "kept" := by decide +kernel
  obtain ⟨b, hb, haction⟩ := Option.map_eq_some_iff.1 hblock
  obtain ⟨r, hr, -, hgov⟩ := h.annotated 0 b hb
  rw [hr] at hshown
  rw [hgov] at haction
  have hkept : (wary.annotate r).action = "kept" := Option.some.inj hshown
  have hwarning : (wary.annotate r).action = "warning" := Option.some.inj haction
  rw [hkept] at hwarning
  exact absurd hwarning (by decide)

end Sample

end ProjectMaya.ContextBuilder
