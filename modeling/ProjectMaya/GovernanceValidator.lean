import ProjectMaya.Documents

/-! # `GovernanceValidator`

`validate` looks at one hit after the other and writes an annotation for each of them
(`annotate`); it rejects nothing. -/

namespace ProjectMaya.ContextBuilder

open ProjectMaya.Vector (Text Value Doc text)

/-- A `RetrievalResult`, as far as it is read; `none` is a field that is absent or `None`. -/
structure Hit (ν : Type) where
  chunkId : Option Text := none
  id : Option Text := none
  content : Option Text := none
  provider : Option Text := none
  score : Option ν := none
  similarity : Option ν := none
  trustScore : Option ν := none
  sourcePath : Option Text := none
  createdAt : Option Text := none
  metadata : Doc ν := Logic.Table.empty

/-- `a or b`, of texts. -/
def orElse (a b : Option Text) : Option Text := if a.getD [] = [] then b else a

/-- `r.get("chunk_id") or r.get("id")` -/
def Hit.cid {ν : Type} (r : Hit ν) : Option Text := orElse r.chunkId r.id

/-! ## The policy -/

/-- A reason code of the catalog. -/
inductive Reason where
  | lowTrust
  | tooOld
  | invalidTimestamp
  | providerNotAllowed
  | providerDenied
  | missingProvenance (fields : List Text)
  | privacyBlock
  | categoryBlocked
  deriving DecidableEq, Repr

/-- `reason.split(":", 1)[0]` -/
def Reason.root : Reason → String
  | .lowTrust => "low_trust"
  | .tooOld => "too_old"
  | .invalidTimestamp => "invalid_timestamp"
  | .providerNotAllowed => "provider_not_allowed"
  | .providerDenied => "provider_denied"
  | .missingProvenance _ => "missing_provenance"
  | .privacyBlock => "privacy_block"
  | .categoryBlocked => "category_blocked"

/-- The reason as it is written down. -/
def Reason.code : Reason → Text
  | .missingProvenance fields => text "missing_provenance:" ++ [','].intercalate fields
  | reason => text reason.root

/-- The severity that `REASON_CODE_CATALOG` gives. -/
def Reason.severity : Reason → String
  | .providerNotAllowed | .providerDenied | .privacyBlock => "error"
  | _ => "warning"

/-- A rule of `enforcement_rules`. -/
structure Rule (ν : Type) where
  scoreAdjust : Option ν := none
  blockFlag : Bool := false
  redact : List (Value ν) := []
  note : Text := []

structure GovernancePolicy (ν : Type) where
  minTrust : ν
  maxAgeDays : Option ν := none
  providerAllowlist : Option (List Text) := none
  providerDenylist : List Text := []
  requiredProvenanceFields : List Text := []
  privacyBlockingRegexes : List Text := []
  categoryBlocklist : List Text := []
  enforcementRules : List (String × Rule ν) := []

structure EnforcementHint (ν : Type) where
  scoreAdjust : Option ν := none
  redact : Option (List (Value ν)) := none
  blockFlag : Option Bool := none
  note : Option Text := none

/-- `details` of an annotation; empty where nothing is set. -/
structure Details (ν : Type) where
  derivedTrust : ν
  ageDays : Option ν
  missingProvenance : List Text
  privacyMatches : List Text
  category : Option Text

structure BlockAnnotation (ν : Type) where
  chunkId : Text
  provider : Text
  action : String
  reasons : List Reason
  severity : String
  details : Details ν
  enforcementHints : Option (EnforcementHint ν)

structure GovernanceReportV2 (ν : Type) where
  total : Nat
  annotations : List ( BlockAnnotation ν)
  summary : List (Text × Nat)

/-- A validator, with what it takes from outside: the age of a timestamp in days (`none` where its
parsing raises), and `pattern.search`. -/
structure GovernanceValidator (ν : Type) where
  policy : GovernancePolicy ν
  providerTrustOverrides : List (Text × ν) := []
  ageDays : Text → Option ν
  search : Text → Text → Bool

section

variable {ν : Type} [LinearOrder ν] [Mul ν] [OfScientific ν]

/-! ## `_build_enforcement_hints` -/

omit [Mul ν] [OfScientific ν] in
/-- What a rule adds to the hint. -/
def EnforcementHint.apply (hint : EnforcementHint ν) (rule : Rule ν) : EnforcementHint ν where
  scoreAdjust :=
    match rule.scoreAdjust with
    | none => hint.scoreAdjust
    | some x => some ((hint.scoreAdjust.map (min · x)).getD x)
  blockFlag := if rule.blockFlag then some true else hint.blockFlag
  redact := if rule.redact.isEmpty then hint.redact else some (hint.redact.getD [] ++ rule.redact)
  note :=
    if rule.note = [] then hint.note
    else if hint.note.getD [] = [] then some rule.note
    else some (hint.note.getD [] ++ ' ' :: rule.note)

omit [LinearOrder ν] [Mul ν] [OfScientific ν] in
/-- The rule sets something. -/
def Rule.sets (rule : Rule ν) : Bool :=
  rule.scoreAdjust.isSome || rule.blockFlag || !rule.redact.isEmpty || rule.note ≠ []

omit [LinearOrder ν] [Mul ν] in
/-- The hint without rules: the first of these reasons that there is. -/
def legacyHint (reasons : List Reason) (details : Details ν) : Option (EnforcementHint ν) :=
  if .privacyBlock ∈ reasons then
    some {
      blockFlag := some true
      redact := some [.dict [(text "reason", .str (text "privacy_block")),
        (text "note", .str (text "contains privacy-sensitive pattern"))]]
      note := some (text "Privacy-sensitive content matched; consider redaction or blocking.") }
  else if .providerDenied ∈ reasons ∨ .providerNotAllowed ∈ reasons then
    some { blockFlag := some true, note := some (text " Provider not allowed by policy.") }
  else if .lowTrust ∈ reasons then
    some {
      scoreAdjust := some details.derivedTrust
      note := some (text " Low trust detected; suggest lowering score.") }
  else if reasons.any fun r => r.root = "missing_provenance" then
    some { scoreAdjust := some 0.9, note := some (text " Missing provenance fields.") }
  else if .categoryBlocked ∈ reasons then
    some { scoreAdjust := some 0.5, note := some (text " Category is blocked by policy.") }
  else none

omit [Mul ν] in
def buildEnforcementHints (policy : GovernancePolicy ν) (reasons : List Reason)
    (details : Details ν) : Option (EnforcementHint ν) :=
  let rules := reasons.filterMap fun r => policy.enforcementRules.lookup r.root
  if rules.any Rule.sets then some (rules.foldl EnforcementHint.apply {})
  else legacyHint reasons details

/-! ## `validate` -/

omit [LinearOrder ν] [Mul ν] [OfScientific ν] in
/-- `r["meta"].get("category")`, if it is a text that is not empty. -/
def Hit.category (r : Hit ν) : Option Text :=
  match r.metadata.get (text "category") with
  | .str [] => none
  | .str s => some s
  | _ => none

namespace GovernanceValidator

variable (v : GovernanceValidator ν)

/-- `r.get("provider", "unknown")` -/
def providerOf (r : Hit ν) : Text := r.provider.getD (text "unknown")

def derivedTrust (r : Hit ν) : ν :=
  max 0.0 (min 1.0 (r.trustScore.getD 1.0 *
    (v.providerTrustOverrides.lookup (providerOf r)).getD 1.0))

/-- The age of a hit, and the reason that it gives. -/
def age (r : Hit ν) : Option ν × List Reason :=
  match r.createdAt with
  | none | some [] => (none, [])
  | some created =>
    match v.ageDays created with
    | none => (none, [.invalidTimestamp])
    | some days => (some days, if v.policy.maxAgeDays.any (· < days) then [.tooOld] else [])

def missing (r : Hit ν) : List Text :=
  v.policy.requiredProvenanceFields.filter fun f => (r.metadata.get? f).isNone

def privacyMatches (r : Hit ν) : List Text :=
  v.policy.privacyBlockingRegexes.filter fun p => v.search p (r.content.getD [])

def blockedCategory (r : Hit ν) : Option Text :=
  r.category.filter fun c => c ∈ v.policy.categoryBlocklist

def details (r : Hit ν) : Details ν where
  derivedTrust := v.derivedTrust r
  ageDays := (v.age r).1
  missingProvenance := v.missing r
  privacyMatches := v.privacyMatches r
  category := v.blockedCategory r

def reasons (r : Hit ν) : List Reason :=
  (if v.derivedTrust r < v.policy.minTrust then [.lowTrust] else []) ++ (v.age r).2 ++
    (if v.policy.providerAllowlist.any fun allowed => providerOf r ∉ allowed
      then [.providerNotAllowed] else []) ++
    (if providerOf r ∈ v.policy.providerDenylist then [.providerDenied] else []) ++
    (if v.missing r = [] then [] else [.missingProvenance (v.missing r)]) ++
    (v.privacyMatches r).map (fun _ => .privacyBlock) ++
    (if (v.blockedCategory r).isSome then [.categoryBlocked] else [])

/-- The highest severity among the reasons. -/
def severity (reasons : List Reason) : String :=
  if reasons.any fun r => r.severity = "error" then "error"
  else if reasons.isEmpty then "info" else "warning"

/-- The annotation of one hit. -/
def annotate (r : Hit ν) : BlockAnnotation ν where
  chunkId := r.cid.getD []
  provider := providerOf r
  action := if (v.reasons r).isEmpty then "kept" else "warning"
  reasons := v.reasons r
  severity := severity (v.reasons r)
  details := v.details r
  enforcementHints := buildEnforcementHints v.policy (v.reasons r) (v.details r)

/-- `counters[code] = counters.get(code, 0) + 1` -/
def count (counters : List (Text × Nat)) (code : Text) : List (Text × Nat) :=
  if counters.any fun c => c.1 = code then
    counters.map fun c => if c.1 = code then (c.1, c.2 + 1) else c
  else counters ++ [(code, 1)]

/-- The codes that a hit adds to the summary. -/
def codes (r : Hit ν) : List Text :=
  if (v.reasons r).isEmpty then [text "kept"] else (v.reasons r).map Reason.code

/-- The report of `validate` that `last_report_v2` returns. -/
def validate (retrievals : List (Hit ν)) : GovernanceReportV2 ν where
  total := retrievals.length
  annotations := retrievals.map v.annotate
  summary := (retrievals.flatMap v.codes).foldl count []

end GovernanceValidator

end

end ProjectMaya.ContextBuilder
