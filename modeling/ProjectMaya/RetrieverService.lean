import ProjectMaya.LocalVectorAdapter

/-! # The retriever service

`RetrieverService` writes documents to a `LocalVectorAdapter` and governs the results that it reads
from it. The gate of `min_trust` asks the trust score of the result, and `get` has no gate. -/

namespace ProjectMaya.Retriever

open Logic
open ProjectMaya.Vector (Text Value Doc Failure)

/-! ## The service -/

/-- A service with one provider, the adapter, which is registered under a name. -/
structure Service (ν : Type) where
  registered : String
  write : Bool
  adapterName : String
  primaryLocal : String
  fallback : List String
  minTrust : ν
  halfLife : Int

/-- The arguments of `upsert`, at a time. -/
structure Upsert (ν : Type) where
  now : Text
  doc : Doc ν
  dualWrite : Bool := false
  providers : Option (List String) := none

inductive Read (ν : Type) where
  | get (id : Text) (provider : Option String)
  | queryVector (vector : Value ν) (topK : Int) (provider : Option String)
  | search (query : Text) (category : Option Text) (limit : Int) (provider : Option String)

/-- The category that a read is restricted to. -/
def Read.category {ν : Type} : Read ν → Option Text
  | .search _ category _ _ => category
  | _ => none

section

variable {ν : Type} [Floats ν]

/-- `targets` -/
def Service.targets (svc : Service ν) (u : Upsert ν) : List String :=
  match u.providers with
  | some (p :: ps) => (p :: ps).filter fun name => name = svc.registered
  | _ =>
    if u.dualWrite then (if svc.write then [svc.registered] else [])
    else if svc.primaryLocal = svc.registered then [svc.primaryLocal]
    else [svc.registered]

/-- `upsert` of the adapter: an id that is there is an `IntegrityError`, which the service swallows
as every error of a provider. -/
def insertDoc (env : Env ν) (u : Upsert ν) (entries : Entries ν) : Entries ν :=
  match rowOf env u.now u.doc with
  | none => entries
  | some row => (entries.insert row).getD entries

/-- `upsert` -/
def Service.upsert (env : Env ν) (svc : Service ν) (entries : Entries ν) (u : Upsert ν) :
    Entries ν :=
  (svc.targets u).foldl (fun entries _ => insertDoc env u entries) entries

def Service.upserts (env : Env ν) (svc : Service ν) (us : List (Upsert ν)) : Entries ν :=
  us.foldl (svc.upsert env) .empty

/-! ## Governance -/

/-- `normalize_score` -/
def normalizeScore (s : ν) : ν :=
  if Floats.lt s (Floats.lit 0) then Floats.lit 0
  else if Floats.lt (Floats.lit 1) s then Floats.lit 1
  else s

/-- A similarity in `[0,1]`. -/
def unitSimilarity (sim : ν) : ν :=
  let s :=
    if Floats.le (Floats.lit (-1)) sim && Floats.le sim (Floats.lit 1) then
      cosineToUnit sim
    else sim
  let s := if Floats.lt s (Floats.lit 1) then s else Floats.lit 1
  if Floats.lt (Floats.lit 0) s then s else Floats.lit 0

/-- `if trust is None: trust = 1.0` -/
def trustOr (trust : Value ν) : Value ν :=
  match trust with
  | .null => .float (Floats.lit 1)
  | trust => trust

/-- A result with its similarity and its score. -/
def scored (env : Env ν) (svc : Service ν) (raw : Result ν) (factor : ν) : Result ν :=
  let similarity := raw.similarity.map unitSimilarity
  let score := normalizeScore ((raw.score.or similarity).getD (Floats.lit 0))
  let score :=
    match svc.halfLife, raw.createdAt with
    | 0, _ => score
    | _, none => score
    | halfLife, some createdAt =>
      match env.decay halfLife createdAt with
      | none => score
      | some decay => Floats.mul score decay
  { raw with
    provider := svc.registered
    trustScore := trustOr raw.trustScore
    similarity
    score := some (normalizeScore (Floats.mul score factor)) }

/-- `_apply_governance_and_normalize` -/
def govern (env : Env ν) (svc : Service ν) (raw : Result ν) : Except Failure (Result ν) := do
  let factor ← (trustOr raw.trustScore).toFloat
  return scored env svc raw factor

/-- `trust >= min_trust` -/
def atLeast (trust : Value ν) (minTrust : ν) : Except Failure Bool :=
  match trust with
  | .float x => .ok (Floats.le minTrust x)
  | .int n => .ok (Floats.leInt minTrust n)
  | .bool b => .ok (Floats.leInt minTrust (if b then 1 else 0))
  | _ => .error .typeError

/-- What the service makes of what a provider hands over. -/
def gate (env : Env ν) (svc : Service ν) (raw : List (Result ν)) :
    Except Failure (List (Result ν)) := do
  let results ← raw.mapM (govern env svc)
  results.filterM fun r => atLeast r.trustScore svc.minTrust

/-! ## Reads -/

/-- `[provider] if provider else [self.primary_local] + self.fallback` -/
def Service.order (svc : Service ν) (provider : Option String) : List String :=
  match provider with
  | none => svc.primaryLocal :: svc.fallback
  | some p => if p = "" then svc.primaryLocal :: svc.fallback else [p]

/-- The loop over the providers; `handed` is what the adapter hands over. -/
def ask (env : Env ν) (svc : Service ν) (handed : Option (List (Result ν))) :
    List String → Except Failure (List (Result ν))
  | [] => (env.passive []).map fun _ => []
  | name :: names =>
    if name = svc.registered then
      match handed with
      | none => ask env svc handed names
      | some raw => do
        let results ← gate env svc raw
        if results.isEmpty then ask env svc handed names
        else (env.passive results).map fun _ => results
    else ask env svc handed names

/-- `get`; `None` is an empty list. -/
def Service.get (env : Env ν) (svc : Service ν) (entries : Entries ν) (id : Text)
    (provider : Option String) : Except Failure (List (Result ν)) :=
  if (svc.order provider).head? = some svc.registered then
    match getResult svc.adapterName entries id with
    | none => .ok []
    | some [] => (env.passive []).map fun _ => []
    | some raw => do
      let results ← raw.mapM (govern env svc)
      (env.passive results).map fun _ => results
  else .ok []

/-- `query_vector`; an empty name is left out. -/
def Service.queryVector (env : Env ν) (svc : Service ν) (entries : Entries ν) (vector : Value ν)
    (topK : Int) (provider : Option String) : Except Failure (List (Result ν)) :=
  ask env svc (Retriever.queryVector env svc.adapterName entries vector topK)
    ((svc.order provider).filter fun name => name ≠ "")

/-- `search` -/
def Service.search (env : Env ν) (svc : Service ν) (entries : Entries ν) (query : Text)
    (category : Option Text) (limit : Int) (provider : Option String) :
    Except Failure (List (Result ν)) :=
  ask env svc (Retriever.search env svc.adapterName entries query category limit)
    (svc.order provider)

def Service.read (env : Env ν) (svc : Service ν) (entries : Entries ν) :
    Read ν → Except Failure (List (Result ν))
  | .get id provider => svc.get env entries id provider
  | .queryVector vector topK provider => svc.queryVector env entries vector topK provider
  | .search query category limit provider => svc.search env entries query category limit provider

end

end ProjectMaya.Retriever
