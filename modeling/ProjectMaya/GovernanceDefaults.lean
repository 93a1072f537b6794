import Mathlib.Algebra.Order.Field.Basic
import Mathlib.Tactic.Linarith
import ProjectMaya.Documents
import ProjectMaya.Logic.Assoc
import ProjectMaya.Logic.DateTime

/-! # Governance defaults

`apply_governance_defaults` gives a record a timestamp, a confidence and an authority.  What it
wrote it leaves as it is, except a confidence: a number above 100 is capped to 10, and 10 is read
as a percentage the next time (`applyGovernanceDefaults_twice`). -/

namespace ProjectMaya.MemoryGovernance

open Logic
open ProjectMaya.Vector (Text Value Doc Python Failure text)

/-- `governance_config`, as far as it is read. -/
structure GovernanceConfig (ν : Type) where
  /-- `float(DEFAULT_CONFIDENCE)` -/
  defaultConfidence : ν
  /-- `float(GLOBAL_DEFAULT_AUTHORITY)` -/
  globalDefaultAuthority : ν
  getAuthorityFor : Value ν → Value ν
  getSourcePriorityIndex : Value ν → Int
  /-- `len(_source_priority)` -/
  sourcePriorities : Nat

/-! ## Timestamps -/

/-- `ts.endswith('Z')` -/
def endsWithZ (ts : Text) : Bool := ts.getLast? = some 'Z'

/-- `datetime.utcnow().replace(microsecond=0)` -/
def wholeSeconds (t : DateTime) : DateTime where
  wall := t.wall - t.wall % 1000000
  offset := t.offset
  wall_lt := Nat.lt_of_le_of_lt (Nat.sub_le _ _) t.wall_lt
  offset_lt := t.offset_lt

/-- `_now_iso_z`, at a time. -/
def nowIsoZ (utcnow : DateTime) : Text := (wholeSeconds utcnow).isoformat ++ ['Z']

/-- A timestamp is kept. -/
def Keeps (ts : Text) : Prop := endsWithZ ts = true ∨ (DateTime.fromisoformat ts).isSome

instance (ts : Text) : Decidable (Keeps ts) := inferInstanceAs (Decidable (_ ∨ _))

@[simp] theorem keeps_nowIsoZ (utcnow : DateTime) : Keeps (nowIsoZ utcnow) := by
  left
  simp [endsWithZ, nowIsoZ]

section

variable {ν : Type} [Python ν]

/-- What becomes of `prov.get('timestamp')`; only a text has `endswith`. -/
def acceptTimestamp (utcnow : DateTime) (ts : Value ν) : Except Failure Text :=
  if ts.truthy then
    match ts with
    | .str s => .ok (if Keeps s then s else nowIsoZ utcnow)
    | _ => .error .other
  else .ok (nowIsoZ utcnow)

theorem acceptTimestamp_keeps {utcnow : DateTime} {v : Value ν} {ts : Text}
    (h : acceptTimestamp utcnow v = .ok ts) : Keeps ts := by
  unfold acceptTimestamp at h
  split at h
  · split at h
    · cases h
      split
      · assumption
      · exact keeps_nowIsoZ utcnow
    · cases h
  · cases h
    exact keeps_nowIsoZ utcnow

theorem acceptTimestamp_of_keeps {ts : Text} (h : Keeps ts) (utcnow : DateTime) :
    acceptTimestamp utcnow (Value.str ts : Value ν) = .ok ts := by
  have hne : ts ≠ [] := by
    rintro rfl
    revert h
    decide
  have htruthy : (Value.str ts : Value ν).truthy = true := decide_eq_true hne
  unfold acceptTimestamp
  rw [if_pos htruthy]
  exact congrArg Except.ok (if_pos h)

/-! ## Confidence -/

section

variable [Field ν] [LinearOrder ν]

omit [Python ν] in
/-- What becomes of a number. -/
def normalizeNumber (v : ν) : ν :=
  if v < 0 then 0
  else
    let v := if 10 ≤ v ∧ v ≤ 100 then v / 100 else v
    if 10 < v then 10 else v

def normalizeConfidence (cfg : GovernanceConfig ν) (val : Value ν) : ν :=
  match val with
  | .null => cfg.defaultConfidence
  | val =>
    match val.toFloat with
    | .ok v => normalizeNumber v
    | .error _ => cfg.defaultConfidence

/-! ## The record -/

omit [Python ν] [Field ν] [LinearOrder ν] in
/-- `fields.get(key)` -/
def field (fields : Assoc Text (Value ν)) (key : String) : Value ν :=
  (Assoc.get? fields (text key)).getD .null

omit [Field ν] [LinearOrder ν] in
/-- The authority of a record that has none. -/
def derivedAuthority (cfg : GovernanceConfig ν) (prov : Assoc Text (Value ν)) : Value ν :=
  if (field prov "actor").truthy then cfg.getAuthorityFor (field prov "actor")
  else if (field prov "source").truthy then cfg.getAuthorityFor (field prov "source")
  else .float cfg.globalDefaultAuthority

omit [Python ν] [Field ν] [LinearOrder ν] in
/-- `record.get('provenance')`, of which `None` is an empty one. -/
def provenance (record : Doc ν) : Except Failure (Assoc Text (Value ν)) :=
  match record.get (text "provenance") with
  | .null => .ok []
  | .dict fields => .ok fields
  | _ => .error .other

/-- `if record.get('authority') is None` -/
def withAuthority (cfg : GovernanceConfig ν) (prov : Assoc Text (Value ν)) (record : Doc ν) : Doc ν :=
  match record.get (text "authority") with
  | .null => record.put (text "authority") (derivedAuthority cfg prov)
  | _ => record

def applyGovernanceDefaults (cfg : GovernanceConfig ν) (utcnow : DateTime) (record : Doc ν) :
    Except Failure (Doc ν) := do
  let prov ← provenance record
  let ts ← acceptTimestamp utcnow (field prov "timestamp")
  let prov := Assoc.set prov (text "timestamp") (.str ts)
  let record := record.put (text "provenance") (.dict prov)
  let record := record.put (text "confidence")
    (.float (normalizeConfidence cfg (record.get (text "confidence"))))
  return withAuthority cfg prov record

/-! ### What is written -/

omit [Python ν] [Field ν] [LinearOrder ν] in
/-- A value that is there is put in again. -/
theorem put_self {d : Doc ν} {k : Text} {v : Value ν} (h : d.get? k = some v) : d.put k v = d := by
  obtain ⟨⟨k', v'⟩, hfind, hv⟩ := Option.map_eq_some_iff.1 h
  obtain ⟨hmem, rfl⟩ := Table.find?_eq_some.1 hfind
  obtain rfl : v' = v := hv
  have hnone : d.insert (k', v') = none := Table.insert_eq_none.2 ⟨(k', v'), hmem, rfl⟩
  unfold Vector.Doc.put Table.upsert
  rw [hnone]
  refine Table.ext ?_
  show d.rows.map (fun r => if decide (r.1 = k') then (r.1, v') else r) = d.rows
  conv => rhs; rw [← List.map_id d.rows]
  refine List.map_congr_left fun r hr => ?_
  by_cases hk : r.1 = k'
  · rw [if_pos (decide_eq_true hk), Table.eq_of_key_eq hr hmem hk]
    rfl
  · rw [if_neg (by simpa using hk)]
    rfl

omit [Python ν] [Field ν] [LinearOrder ν] in
theorem get_put_self (d : Doc ν) (k : Text) (v : Value ν) : (d.put k v).get k = v := by
  unfold Vector.Doc.get
  rw [Vector.Doc.get?_put, if_pos rfl]
  rfl

omit [Field ν] [LinearOrder ν] in
theorem get?_withAuthority (cfg : GovernanceConfig ν) (prov : Assoc Text (Value ν)) (record : Doc ν)
    {k : Text} (h : k ≠ text "authority") : (withAuthority cfg prov record).get? k = record.get? k := by
  unfold withAuthority
  split
  · rw [Vector.Doc.get?_put, if_neg h]
  · rfl

omit [Field ν] [LinearOrder ν] in
/-- An authority that was filled in stays, also one that the lookup gives as `None`. -/
theorem withAuthority_twice (cfg : GovernanceConfig ν) (prov : Assoc Text (Value ν)) (record : Doc ν) :
    withAuthority cfg prov (withAuthority cfg prov record) = withAuthority cfg prov record := by
  cases h : record.get (text "authority") with
  | null =>
    have hfilled : withAuthority cfg prov record =
        record.put (text "authority") (derivedAuthority cfg prov) := by
      unfold withAuthority
      rw [h]
    rw [hfilled]
    have hget := get_put_self record (text "authority") (derivedAuthority cfg prov)
    cases hd : derivedAuthority cfg prov with
    | null =>
      rw [hd] at hget
      unfold withAuthority
      rw [hget, hd]
      exact put_self (by rw [Vector.Doc.get?_put, if_pos rfl])
    | _ =>
      rw [hd] at hget
      unfold withAuthority
      rw [hget]
  | _ =>
    have hkept : withAuthority cfg prov record = record := by
      unfold withAuthority
      rw [h]
    rw [hkept, hkept]

theorem applyGovernanceDefaults_eq_ok {cfg : GovernanceConfig ν} {utcnow : DateTime} {record r : Doc ν}
    (h : applyGovernanceDefaults cfg utcnow record = .ok r) :
    ∃ prov ts, Keeps ts ∧ Assoc.get? prov (text "timestamp") = some (.str ts) ∧
      r.get? (text "provenance") = some (.dict prov) ∧
      r.get? (text "confidence") =
        some (.float (normalizeConfidence cfg (record.get (text "confidence")))) ∧
      withAuthority cfg prov r = r := by
  simp only [applyGovernanceDefaults, Logic.bind_eq_ok, pure_eq_ok] at h
  obtain ⟨prov, -, ts, hts, rfl⟩ := h
  have hprov : text "provenance" ≠ text "authority" := by decide
  have hconf : text "confidence" ≠ text "authority" := by decide
  have hdiff : text "provenance" ≠ text "confidence" := by decide
  have hget : (record.put (text "provenance")
      (.dict (Assoc.set prov (text "timestamp") (.str ts)))).get (text "confidence") =
      record.get (text "confidence") := by
    unfold Vector.Doc.get
    rw [Vector.Doc.get?_put, if_neg hdiff.symm]
  refine ⟨Assoc.set prov (text "timestamp") (.str ts), ts, acceptTimestamp_keeps hts,
    Assoc.get?_set_self prov _ _, ?_, ?_, withAuthority_twice cfg _ _⟩
  · rw [get?_withAuthority cfg _ _ hprov, Vector.Doc.get?_put, if_neg hdiff, Vector.Doc.get?_put,
      if_pos rfl]
  · rw [get?_withAuthority cfg _ _ hconf, Vector.Doc.get?_put, if_pos rfl, hget]

/-! ## Once and twice -/

variable [IsStrictOrderedRing ν]

omit [Python ν] [IsStrictOrderedRing ν] in
theorem normalizeNumber_self {v : ν} (h0 : 0 ≤ v) (h10 : v < 10) : normalizeNumber v = v := by
  have hpercent : ¬ (10 ≤ v ∧ v ≤ 100) := fun h => absurd h.1 (not_le.2 h10)
  unfold normalizeNumber
  rw [if_neg (not_lt.2 h0)]
  simp only [if_neg hpercent, if_neg (not_lt.2 h10.le)]

omit [Python ν] in
theorem normalizeNumber_percent {v : ν} (h10 : 10 ≤ v) (h100 : v ≤ 100) :
    normalizeNumber v = v / 100 := by
  have h0 : ¬ v < 0 := not_lt.2 (by linarith)
  have hle : ¬ 10 < v / 100 := by
    rw [not_lt, div_le_iff₀ (by norm_num)]
    linarith
  unfold normalizeNumber
  rw [if_neg h0]
  simp only [if_pos (show 10 ≤ v ∧ v ≤ 100 from ⟨h10, h100⟩), if_neg hle]

omit [Python ν] in
theorem normalizeNumber_capped {v : ν} (h : 100 < v) : normalizeNumber v = 10 := by
  have h0 : ¬ v < 0 := not_lt.2 (by linarith)
  have hpercent : ¬ (10 ≤ v ∧ v ≤ 100) := fun hp => absurd hp.2 (not_le.2 h)
  unfold normalizeNumber
  rw [if_neg h0]
  simp only [if_neg hpercent, if_pos (show (10 : ν) < v by linarith)]

omit [Python ν] [IsStrictOrderedRing ν] in
theorem normalizeNumber_negative {v : ν} (h : v < 0) : normalizeNumber v = 0 := if_pos h

omit [Python ν] in
/-- A number up to 100 is normalized to one below 10. -/
theorem normalizeNumber_lt {v : ν} (h : v ≤ 100) : 0 ≤ normalizeNumber v ∧ normalizeNumber v < 10 := by
  by_cases h0 : v < 0
  · rw [normalizeNumber_negative h0]
    exact ⟨le_rfl, by norm_num⟩
  by_cases h10 : v < 10
  · rw [normalizeNumber_self (not_lt.1 h0) h10]
    exact ⟨not_lt.1 h0, h10⟩
  · rw [normalizeNumber_percent (not_lt.1 h10) h]
    constructor
    · exact div_nonneg (not_lt.1 h0) (by norm_num)
    · rw [div_lt_iff₀ (by norm_num)]
      linarith

omit [Python ν] in
/-- A larger number is normalized to a smaller one only where it is read as a percentage, and the
other is not. -/
theorem normalizeNumber_mono {v w : ν} (h0 : 0 ≤ v) (h : v ≤ w) :
    normalizeNumber v ≤ normalizeNumber w ∨ v < 10 ∧ 10 ≤ w ∧ w ≤ 100 ∧ w / 100 < v := by
  by_cases hw10 : w < 10
  · rw [normalizeNumber_self h0 (h.trans_lt hw10), normalizeNumber_self (h0.trans h) hw10]
    exact .inl h
  by_cases hw100 : w ≤ 100
  · rw [normalizeNumber_percent (not_lt.1 hw10) hw100]
    by_cases hv10 : v < 10
    · rw [normalizeNumber_self h0 hv10]
      by_cases hlt : w / 100 < v
      · exact .inr ⟨hv10, not_lt.1 hw10, hw100, hlt⟩
      · exact .inl (not_lt.1 hlt)
    · rw [normalizeNumber_percent (not_lt.1 hv10) (h.trans hw100)]
      exact .inl (div_le_div_of_nonneg_right h (by norm_num))
  · left
    rw [normalizeNumber_capped (not_le.1 hw100)]
    by_cases hv100 : v ≤ 100
    · exact (normalizeNumber_lt hv100).2.le
    · rw [normalizeNumber_capped (not_le.1 hv100)]

/-- The confidence that a record states is a number up to 100, or it is none and the default is a
number from 0 to below 10. -/
structure Moderate (cfg : GovernanceConfig ν) (val : Value ν) : Prop where
  number : ∀ v, val.toFloat = .ok v → v ≤ 100
  default : (∀ v, val.toFloat ≠ .ok v) → 0 ≤ cfg.defaultConfidence ∧ cfg.defaultConfidence < 10

theorem normalizeConfidence_lt {cfg : GovernanceConfig ν} {val : Value ν} (h : Moderate cfg val) :
    0 ≤ normalizeConfidence cfg val ∧ normalizeConfidence cfg val < 10 := by
  have hmoderate : ∀ r, val.toFloat = r →
      0 ≤ (match r with | .ok v => normalizeNumber v | .error _ => cfg.defaultConfidence) ∧
      (match r with | .ok v => normalizeNumber v | .error _ => cfg.defaultConfidence) < 10 := by
    intro r hr
    cases r with
    | ok v => exact normalizeNumber_lt (h.number v hr)
    | error e =>
      refine h.default fun v hv => ?_
      rw [hr] at hv
      cases hv
  cases val with
  | null => exact hmoderate (.error .typeError) rfl
  | _ => exact hmoderate _ rfl

/-- **Defaults are filled in once**, and confidences keep their order, but for percentages. -/
theorem applyGovernanceDefaults_twice (cfg : GovernanceConfig ν) :
    (∀ utcnow later (record r : Doc ν), applyGovernanceDefaults cfg utcnow record = .ok r →
      Moderate cfg (record.get (text "confidence")) →
      applyGovernanceDefaults cfg later r = .ok r) ∧
    ∀ v w : ν, 0 ≤ v → v ≤ w →
      normalizeNumber v ≤ normalizeNumber w ∨ v < 10 ∧ 10 ≤ w ∧ w ≤ 100 ∧ w / 100 < v := by
  refine ⟨?_, fun v w => normalizeNumber_mono⟩
  intro utcnow later record r happly hmoderate
  obtain ⟨prov, ts, hkeeps, hts, hprov, hconf, hauth⟩ := applyGovernanceDefaults_eq_ok happly
  obtain ⟨h0, h10⟩ := normalizeConfidence_lt hmoderate
  have hfield : field prov "timestamp" = .str ts := by
    unfold field
    rw [hts]
    rfl
  have hprovenance : provenance r = .ok prov := by
    unfold provenance Vector.Doc.get
    rw [hprov]
    rfl
  have hread : r.get (text "confidence") =
      .float (normalizeConfidence cfg (record.get (text "confidence"))) := by
    unfold Vector.Doc.get
    rw [hconf]
    rfl
  have hsame : normalizeConfidence cfg (r.get (text "confidence")) =
      normalizeConfidence cfg (record.get (text "confidence")) := by
    rw [hread]
    exact normalizeNumber_self h0 h10
  unfold applyGovernanceDefaults
  rw [hprovenance]
  show (acceptTimestamp later (field prov "timestamp") >>= _) = _
  rw [hfield, acceptTimestamp_of_keeps hkeeps]
  show Except.ok (withAuthority cfg _ _) = _
  rw [Assoc.set_self hts, put_self hprov, hsame, put_self hconf, hauth]

end

end

/-! ## Examples -/

namespace Sample

/-- Floats as fractions. -/
instance : Python Rat where
  half := 1 / 2
  isZero x := x = 0
  isFinite _ := true
  inUnit x := 0 ≤ x && x ≤ 1
  ofInt n := some n
  ofText _ := none
  repr _ := []

def cfg : GovernanceConfig Rat where
  defaultConfidence := 1 / 2
  globalDefaultAuthority := 1
  getAuthorityFor _ := .float 1
  getSourcePriorityIndex _ := 0
  sourcePriorities := 0

theorem nodup_dated : [text "provenance", text "confidence"].Nodup := by decide

/-- A record with a timestamp, and with a confidence. -/
def dated (confidence : Value Rat) : Doc Rat where
  rows := [(text "provenance", .dict [(text "timestamp", .str (text "2024-01-01T00:00:00Z"))]),
    (text "confidence", confidence)]
  nodup := nodup_dated

theorem percentage_once :
    ∃ r, applyGovernanceDefaults cfg default (dated (.float 75)) = .ok r ∧
      applyGovernanceDefaults cfg default r = .ok r ∧
      (normalizeNumber (20 : Rat) ≤ normalizeNumber 75 ∨
        (20 : Rat) < 10 ∧ (10 : Rat) ≤ 75 ∧ (75 : Rat) ≤ 100 ∧ (75 : Rat) / 100 < 20) := by
  have htwice := applyGovernanceDefaults_twice cfg
  refine ⟨_, rfl, htwice.1 default default (dated (.float 75)) _ rfl ⟨?_, ?_⟩,
    htwice.2 20 75 (by norm_num) (by norm_num)⟩
  · intro v hv
    obtain rfl : (75 : Rat) = v := Except.ok.inj hv
    norm_num
  · intro hno
    exact absurd rfl (hno 75)

/-- 150 is capped to 10, and 10 is read as a percentage; 9 is no percentage. -/
theorem capped_twice :
    (∃ r r', applyGovernanceDefaults cfg default (dated (.float 150)) = .ok r ∧
      applyGovernanceDefaults cfg default r = .ok r' ∧ r.get (text "confidence") = .float 10 ∧
      r'.get (text "confidence") = .float (1 / 10) ∧ r' ≠ r) ∧
    normalizeNumber (10 : Rat) < normalizeNumber 9 := by
  have hcapped : normalizeNumber (150 : Rat) = 10 := normalizeNumber_capped (by norm_num)
  have hten : normalizeNumber (10 : Rat) = 1 / 10 := by
    rw [normalizeNumber_percent le_rfl (by norm_num)]
    norm_num
  have hnine : normalizeNumber (9 : Rat) = 9 := normalizeNumber_self (by norm_num) (by norm_num)
  constructor
  · refine ⟨_, _, rfl, rfl, ?_, ?_, ?_⟩
    · show Value.float (normalizeNumber 150) = .float 10
      rw [hcapped]
    · show Value.float (normalizeNumber (normalizeNumber 150)) = .float (1 / 10)
      rw [hcapped, hten]
    · intro hsame
      have hget := congrArg (fun d : Doc Rat => d.get (text "confidence")) hsame
      have hfloat : normalizeNumber (normalizeNumber 150) = normalizeNumber (150 : Rat) :=
        Value.float.inj hget
      rw [hcapped, hten] at hfloat
      norm_num at hfloat
  · rw [hten, hnine]
    norm_num

end Sample

end ProjectMaya.MemoryGovernance
