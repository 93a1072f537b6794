import ProjectMaya.ContextBuilder

/-! # The providers of a retriever service

A read goes through the providers in their order: one that is not there, raises or has no hit that
may be returned is left behind, and the first other one is answered with (`fallback_first`). A hit is
governed before its trust is asked for, which leaves the trust as it is. `query_vector` passes over
an empty name, and `search` looks it up as any other. -/

namespace ProjectMaya.Fallback

open ProjectMaya.ContextBuilder (Hit OperationalContext GovernanceValidator buildContext orElse)
open ProjectMaya.Vector (Text text)

/-- A hit of a provider, which may have been updated. -/
structure Retrieved (ν : Type) extends Hit ν where
  updatedAt : Option Text := none

/-- What a provider answers when it is asked as the `n`-th of the order; `none` is a
`RetrieverError`. -/
structure Provider (ν : Type) where
  queryVector : Nat → Option (List (Retrieved ν))
  search : Nat → Option (List (Retrieved ν))

/-- `decay` is the factor for a time that is past, and `none` where it is not, or has no age. -/
structure RetrieverService (ν : Type) where
  providers : Text → Option (Provider ν)
  primaryLocal : Text
  fallback : List Text
  minTrust : ν
  halfLife : Int
  governanceValidator : Option (GovernanceValidator ν)
  tokenBudget : Int
  decay : Int → Text → Option ν

/-- The results of a read, and the context that the service keeps of them. -/
structure Served (ν : Type) where
  results : List (Retrieved ν)
  lastOperationalContext : OperationalContext ν

section

variable {ν : Type} [LinearOrder ν] [Neg ν] [Add ν] [Mul ν] [Div ν] [OfScientific ν]

/-! ## `_apply_governance_and_normalize` -/

omit [Neg ν] [Add ν] [Mul ν] [Div ν] in
def normalizeScore (score : ν) : ν :=
  let s := if score < 0.0 then 0.0 else score
  if 1.0 < s then 1.0 else s

omit [Mul ν] in
/-- A similarity in `[0, 1]`. -/
def normalizeSimilarity (sim : ν) : ν :=
  let s := if -1.0 ≤ sim ∧ sim ≤ 1.0 then (sim + 1.0) / 2.0 else sim
  max 0.0 (min 1.0 s)

namespace RetrieverService

variable (svc : RetrieverService ν)

omit [LinearOrder ν] [Neg ν] [Add ν] [Div ν] [OfScientific ν] in
def decayed (raw : Retrieved ν) (score : ν) : ν :=
  if svc.halfLife = 0 then score
  else
    match orElse raw.updatedAt raw.createdAt with
    | none | some [] => score
    | some ts =>
      match svc.decay svc.halfLife ts with
      | none => score
      | some decay => score * decay

def applyGovernanceAndNormalize (providerName : Text) (raw : Retrieved ν) : Retrieved ν :=
  let trust := raw.trustScore.getD 1.0
  let similarity := raw.similarity.map normalizeSimilarity
  let score := svc.decayed raw (normalizeScore ((raw.score.or similarity).getD 0.0)) * trust
  { raw with
    provider := some providerName
    trustScore := some trust
    similarity
    score := some (normalizeScore score) }

/-! ## Reads -/

omit [Neg ν] [Add ν] [Mul ν] [Div ν] in
/-- `r.get("trust_score", 1.0) >= self.min_trust` -/
def trusts (r : Retrieved ν) : Bool := svc.minTrust ≤ r.trustScore.getD 1.0

omit [Neg ν] [Add ν] [Div ν] in
def serve (results : List (Retrieved ν)) : Served ν where
  results
  lastOperationalContext := buildContext (results.map Retrieved.toHit) svc.tokenBudget
    (svc.governanceValidator.map fun v => v.validate (results.map Retrieved.toHit))

omit [Neg ν] [Add ν] [Mul ν] [Div ν] in
/-- No provider has returned results; what the validator makes of this goes into no context. -/
def serveNone : Served ν where
  results := []
  lastOperationalContext := buildContext [] svc.tokenBudget none

/-- The loop over the names; `skips` are those that it passes over. -/
def ask (skips : Text → Bool) (method : Provider ν → Nat → Option (List (Retrieved ν))) :
    Nat → List Text → Served ν
  | _, [] => svc.serveNone
  | n, name :: names =>
    if skips name then ask skips method (n + 1) names
    else
      match svc.providers name with
      | none => ask skips method (n + 1) names
      | some p =>
        match method p n with
        | none => ask skips method (n + 1) names
        | some raw =>
          let results := (raw.map (svc.applyGovernanceAndNormalize name)).filter svc.trusts
          if results.isEmpty then ask skips method (n + 1) names else svc.serve results

omit [LinearOrder ν] [Neg ν] [Add ν] [Mul ν] [Div ν] [OfScientific ν] in
/-- `[provider] if provider else [self.primary_local] + self.fallback` -/
def order (provider : Option Text) : List Text :=
  match provider with
  | none | some [] => svc.primaryLocal :: svc.fallback
  | some name => [name]

def queryVector (provider : Option Text) : Served ν :=
  svc.ask (fun name => name = []) Provider.queryVector 0 (svc.order provider)

def search (provider : Option Text) : Served ν :=
  svc.ask (fun _ => false) Provider.search 0 (svc.order provider)

end RetrieverService

/-! ## The first answer -/

variable (svc : RetrieverService ν) (skips : Text → Bool)
  (method : Provider ν → Nat → Option (List (Retrieved ν)))

/-- The `k`-th of the names is asked, and answers with these hits. -/
structure Answers (start : Nat) (names : List Text) (k : Nat) (name : Text)
    (raw : List (Retrieved ν)) : Prop where
  named : names[k]? = some name
  asked : skips name = false
  answered : ∃ p, svc.providers name = some p ∧ method p (start + k) = some raw

/-- The results are the governed hits of the first provider with a hit that is trusted, in its order,
or there is no such provider. -/
inductive FirstAnswer (start : Nat) (names : List Text) : List (Retrieved ν) → Prop where
  | served {k : Nat} {name : Text} {raw : List (Retrieved ν)}
      (answers : Answers svc skips method start names k name raw)
      (trusted : raw.filter svc.trusts ≠ [])
      (first : ∀ j < k, ∀ name' raw', Answers svc skips method start names j name' raw' →
        raw'.filter svc.trusts = []) :
      FirstAnswer start names ((raw.filter svc.trusts).map (svc.applyGovernanceAndNormalize name))
  | none
      (untrusted : ∀ j name' raw', Answers svc skips method start names j name' raw' →
        raw'.filter svc.trusts = []) :
      FirstAnswer start names []

/-- Every score is in `[0, 1]`. -/
def ScoresInUnit (results : List (Retrieved ν)) : Prop :=
  ∀ r ∈ results, ∃ s, r.score = some s ∧ 0.0 ≤ s ∧ s ≤ 1.0

/-- Both reads return the governed hits of the first provider that has one that is trusted; no
provider has answered `query_vector` under an empty name. -/
structure FallsBack (provider : Option Text) : Prop where
  queryVector : FirstAnswer svc (fun name => name = []) Provider.queryVector 0 (svc.order provider)
    (svc.queryVector provider).results
  search : FirstAnswer svc (fun _ => false) Provider.search 0 (svc.order provider)
    (svc.search provider).results
  queryScores : ScoresInUnit (svc.queryVector provider).results
  searchScores : ScoresInUnit (svc.search provider).results

/-! ## The loop -/

section

variable {svc skips method} {start : Nat} {name name' : Text} {names : List Text}
  {raw : List (Retrieved ν)}

omit [LinearOrder ν] [Neg ν] [Add ν] [Mul ν] [Div ν] [OfScientific ν] in
theorem answers_succ {k : Nat} :
    Answers svc skips method start (name :: names) (k + 1) name' raw ↔
      Answers svc skips method (start + 1) names k name' raw := by
  have hplace : start + (k + 1) = start + 1 + k := by omega
  constructor
  · rintro ⟨hnamed, hasked, hanswered⟩
    rw [hplace] at hanswered
    exact ⟨hnamed, hasked, hanswered⟩
  · rintro ⟨hnamed, hasked, hanswered⟩
    rw [← hplace] at hanswered
    exact ⟨hnamed, hasked, hanswered⟩

/-- A name that brings nothing is left behind. -/
theorem FirstAnswer.cons {results : List (Retrieved ν)}
    (hnone : ∀ name' raw', Answers svc skips method start (name :: names) 0 name' raw' →
      raw'.filter svc.trusts = [])
    (h : FirstAnswer svc skips method (start + 1) names results) :
    FirstAnswer svc skips method start (name :: names) results := by
  cases h with
  | @served k _ _ answers trusted first =>
    refine .served (answers_succ.mpr answers) trusted fun j hj name' raw' hanswers => ?_
    cases j with
    | zero => exact hnone name' raw' hanswers
    | succ j => exact first j (by omega) name' raw' (answers_succ.mp hanswers)
  | none untrusted =>
    refine .none fun j name' raw' hanswers => ?_
    cases j with
    | zero => exact hnone name' raw' hanswers
    | succ j => exact untrusted j name' raw' (answers_succ.mp hanswers)

end

/-- Governing a hit leaves its trust as it is. -/
theorem filter_governed (name : Text) (raw : List (Retrieved ν)) :
    (raw.map (svc.applyGovernanceAndNormalize name)).filter svc.trusts =
      (raw.filter svc.trusts).map (svc.applyGovernanceAndNormalize name) := by
  rw [List.filter_map]
  rfl

theorem ask_first (start : Nat) (names : List Text) :
    FirstAnswer svc skips method start names (svc.ask skips method start names).results := by
  induction names generalizing start with
  | nil =>
    refine .none fun j name' raw' h => ?_
    cases h.named
  | cons name names ih =>
    unfold RetrieverService.ask
    by_cases hskip : skips name = true
    · rw [if_pos hskip]
      refine (ih (start + 1)).cons fun name' raw' h => ?_
      cases h.named
      exact absurd hskip (by rw [h.asked]; decide)
    · rw [if_neg hskip]
      cases hp : svc.providers name with
      | none =>
        refine (ih (start + 1)).cons fun name' raw' h => ?_
        cases h.named
        obtain ⟨p, hp', -⟩ := h.answered
        rw [hp] at hp'
        cases hp'
      | some p =>
        have hraw : ∀ name' raw', Answers svc skips method start (name :: names) 0 name' raw' →
            method p start = some raw' := by
          intro name' raw' h
          cases h.named
          obtain ⟨p', hp', hanswered⟩ := h.answered
          rw [hp] at hp'
          cases hp'
          exact hanswered
        dsimp only
        cases hanswer : method p start with
        | none =>
          refine (ih (start + 1)).cons fun name' raw' h => ?_
          have hsome := hraw name' raw' h
          rw [hanswer] at hsome
          cases hsome
        | some raw =>
          dsimp only
          rw [filter_governed]
          by_cases htrusted : raw.filter svc.trusts = []
          · rw [htrusted]
            refine (ih (start + 1)).cons fun name' raw' h => ?_
            have hsome := hraw name' raw' h
            rw [hanswer] at hsome
            cases hsome
            exact htrusted
          · rw [if_neg (by simpa using htrusted)]
            refine .served (k := 0) ⟨rfl, Bool.eq_false_iff.mpr hskip, p, hp, hanswer⟩ htrusted ?_
            intro j hj
            cases hj

/-! ## Scores -/

omit [Neg ν] [Add ν] [Mul ν] [Div ν] in
theorem normalizeScore_mem (h : (0.0 : ν) ≤ 1.0) (score : ν) :
    0.0 ≤ normalizeScore score ∧ normalizeScore score ≤ 1.0 := by
  unfold normalizeScore
  dsimp only
  by_cases hlow : score < 0.0
  · rw [if_pos hlow, if_neg (not_lt.mpr h)]
    exact ⟨le_refl _, h⟩
  · rw [if_neg hlow]
    by_cases hhigh : 1.0 < score
    · rw [if_pos hhigh]
      exact ⟨h, le_refl _⟩
    · rw [if_neg hhigh]
      exact ⟨not_lt.mp hlow, not_lt.mp hhigh⟩

variable {svc skips method} in
theorem FirstAnswer.scoresInUnit (h : (0.0 : ν) ≤ 1.0) {start : Nat} {names : List Text}
    {results : List (Retrieved ν)} (hfirst : FirstAnswer svc skips method start names results) :
    ScoresInUnit results := by
  cases hfirst with
  | served answers trusted first =>
    intro r hr
    obtain ⟨raw, -, rfl⟩ := List.mem_map.mp hr
    exact ⟨_, rfl, normalizeScore_mem h _⟩
  | none untrusted =>
    intro r hr
    cases hr

end

/-! ## Examples -/

namespace Sample

def hit : Retrieved Rat where
  chunkId := some (text "a")
  content := some (text "good")

/-- A provider with one hit. -/
def answering : Provider Rat where
  queryVector _ := some [hit]
  search _ := some [hit]

/-- A provider that raises. -/
def failing : Provider Rat where
  queryVector _ := none
  search _ := none

/-- The only provider has an empty name. -/
def nameless : RetrieverService Rat where
  providers name := if name = [] then some answering else none
  primaryLocal := []
  fallback := []
  minTrust := 0
  halfLife := 0
  governanceValidator := none
  tokenBudget := 2048
  decay _ _ := none

/-- The primary provider raises, and the fallback answers. -/
def backed : RetrieverService Rat where
  providers name := if name = text "local" then some failing
    else if name = text "other" then some answering else none
  primaryLocal := text "local"
  fallback := [text "missing", text "other"]
  minTrust := 0
  halfLife := 0
  governanceValidator := none
  tokenBudget := 2048
  decay _ _ := none

end Sample

end ProjectMaya.Fallback
