import Mathlib.Data.Prod.Lex
import Mathlib.Order.OrderDual
import ProjectMaya.GovernanceDefaults
import ProjectMaya.Logic.Groups
import ProjectMaya.Logic.Sorted

/-! # Conflict resolution

`resolve_conflicts` keeps one hit of each entity: the first in the order of `sort_key`. -/

namespace ProjectMaya.MemoryGovernance

open Logic
open ProjectMaya.Vector (Text Value Doc Python Failure text)

/-- `datetime.timestamp()`, of an instant and of a naive time, which is local; the latter may raise. -/
structure Clock (ν : Type) where
  timestamp : Int → ν
  localTimestamp : Nat → Option ν

def Clock.ofDateTime {ν : Type} (clock : Clock ν) (t : DateTime) : Option ν :=
  match t.instant with
  | some i => some (clock.timestamp i)
  | none => clock.localTimestamp t.wall

/-- The text that `_parse_iso_z` hands to `fromisoformat`. -/
def completed (ts : Text) : Text :=
  if endsWithZ ts then ts.dropLast ++ text "+00:00"
  else if '+' ∉ ts.drop 10 ∧ '-' ∉ ts.drop 10 then ts ++ text "+00:00"
  else ts

/-- A hit of a search; `none` is a key that is absent. -/
structure Hit (ν : Type) where
  id : Value ν := .null
  score : Option (Value ν) := none
  record : Option (Doc ν) := none

inductive ReasonCode where
  | higherAuthority
  | higherConfidence
  | newerRecord
  | sourcePriority
  | deterministicRecordId
  | noConflict
  deriving DecidableEq, Repr

structure Decision (ν : Type) where
  decisionId : Text
  reasonCodes : List ReasonCode
  winningRecordId : Value ν
  relatedRecordIds : List (Value ν)

/-- A hit that survives, with what is attached to it under `governance`. -/
structure Survivor (ν : Type) where
  hit : Hit ν
  governance : Option (Decision ν) := none

/-- The tuple of `sort_key`, the negations undone. -/
structure SortKey (ν : Type) where
  authority : ν
  confidence : ν
  freshness : ν
  priority : Int
  id : Text

section

variable {ν : Type} [Python ν] [LinearOrder ν] [Zero ν]

/-- `_parse_iso_z`; 0 where anything raises. -/
def parseIsoZ (clock : Clock ν) (ts : Value ν) : ν :=
  match ts with
  | .str s =>
    if s = [] then 0
    else (((DateTime.fromisoformat (completed s)).bind clock.ofDateTime).getD 0)
  | _ => 0

/-! ## The key of a record -/

/-- `float(rec.get('authority', …))` -/
def authorityOf (cfg : GovernanceConfig ν) (rec : Doc ν) : Except Failure ν :=
  ((rec.get? (text "authority")).getD (.float cfg.globalDefaultAuthority)).toFloat

/-- `float(rec.get('confidence', …))` -/
def confidenceOf (cfg : GovernanceConfig ν) (rec : Doc ν) : Except Failure ν :=
  ((rec.get? (text "confidence")).getD (.float cfg.defaultConfidence)).toFloat

/-- `rec.get('provenance', {})` -/
def provenanceOf (rec : Doc ν) : Except Failure (Assoc Text (Value ν)) :=
  match rec.get? (text "provenance") with
  | none => .ok []
  | some (.dict fields) => .ok fields
  | some _ => .error .other

def freshnessOf (clock : Clock ν) (rec : Doc ν) : Except Failure ν :=
  (fun prov => parseIsoZ clock (field prov "timestamp")) <$> provenanceOf rec

def priorityOf (cfg : GovernanceConfig ν) (rec : Doc ν) : Except Failure Int :=
  (fun prov =>
    if (field prov "source").truthy then cfg.getSourcePriorityIndex (field prov "source")
    else cfg.sourcePriorities + 1000) <$> provenanceOf rec

/-- `rec.get('id') or ''`; ids are texts. -/
def recordIdOf (rec : Doc ν) : Except Failure Text :=
  match rec.get (text "id") with
  | .str s => .ok s
  | v => if v.truthy then .error .typeError else .ok []

def sortKey (cfg : GovernanceConfig ν) (clock : Clock ν) (rec : Doc ν) :
    Except Failure (SortKey ν) := do
  let authority ← authorityOf cfg rec
  let confidence ← confidenceOf cfg rec
  let freshness ← freshnessOf clock rec
  let priority ← priorityOf cfg rec
  let id ← recordIdOf rec
  return { authority, confidence, freshness, priority, id }

/-! ## Resolution -/

omit [Python ν] [Zero ν] in
/-- The order of the tuples: the first three criteria descend. -/
def SortKey.tuple (k : SortKey ν) : νᵒᵈ ×ₗ νᵒᵈ ×ₗ νᵒᵈ ×ₗ Int ×ₗ Text :=
  toLex (OrderDual.toDual k.authority, toLex (OrderDual.toDual k.confidence,
    toLex (OrderDual.toDual k.freshness, toLex (k.priority, k.id))))

omit [Python ν] [Zero ν] in
/-- Tuples compare item by item. -/
def SortKey.le (a b : SortKey ν) : Prop := a.tuple ≤ b.tuple

omit [Python ν] [Zero ν] in
instance (a b : SortKey ν) : Decidable (a.le b) := inferInstanceAs (Decidable (a.tuple ≤ b.tuple))

omit [Python ν] [LinearOrder ν] [Zero ν] in
/-- `r.get('record', {})` -/
def Hit.recordOf (h : Hit ν) : Doc ν := h.record.getD Table.empty

omit [Python ν] [LinearOrder ν] [Zero ν] in
/-- The entity of a hit, if it has one; entity ids are texts. -/
def Hit.entity (h : Hit ν) : Option Text :=
  match h.recordOf.get (text "entity_id") with
  | .str [] => none
  | .str s => some s
  | _ => none

/-- Why the winner stands before the runner, whose values are read again. -/
def explain (cfg : GovernanceConfig ν) (clock : Clock ν) (winner runner : Doc ν) :
    Except Failure ReasonCode := do
  let wa ← authorityOf cfg winner
  let ra ← authorityOf cfg runner
  if wa ≠ ra then return .higherAuthority
  else
    let wc ← confidenceOf cfg winner
    let rc ← confidenceOf cfg runner
    if wc ≠ rc then return .higherConfidence
    else
      let wts ← freshnessOf clock winner
      let rts ← freshnessOf clock runner
      if wts ≠ rts then return .newerRecord
      else
        let wsp ← priorityOf cfg winner
        let rsp ← priorityOf cfg runner
        return if wsp ≠ rsp then .sourcePriority else .deterministicRecordId

omit [LinearOrder ν] [Zero ν] in
/-- The text whose digest is the id of the decision. -/
def decisionText (eid : Text) (winnerId : Value ν) (relatedIds : List (Value ν)) : Text :=
  text "CONFLICT_RESOLUTION|" ++ eid ++ '|' :: winnerId.toStr ++ '|' ::
    [','].intercalate ((relatedIds.map Value.toStr).insertionSort (· ≤ ·))

omit [LinearOrder ν] [Zero ν] in
/-- The decision on a group of which a hit is the winner. -/
def decisionOn (sha1 : Text → Text) (eid : Text) (hits : List (Hit ν)) (winner : Hit ν)
    (reason : ReasonCode) : Decision ν where
  decisionId := sha1 (decisionText eid winner.id (hits.map Hit.id))
  reasonCodes := [reason]
  winningRecordId := winner.id
  relatedRecordIds := hits.map Hit.id

/-- The reason for the first of some hits. -/
def reasonFor (cfg : GovernanceConfig ν) (clock : Clock ν) :
    List (SortKey ν × Hit ν) → Except Failure ReasonCode
  | (_, winner) :: (_, runner) :: _ => explain cfg clock winner.recordOf runner.recordOf
  | _ => .ok .noConflict

/-- The winner of a group; no group is empty. -/
def resolveGroup (cfg : GovernanceConfig ν) (clock : Clock ν) (sha1 : Text → Text) (eid : Text)
    (hits : List (Hit ν)) : Except Failure (Survivor ν) := do
  let keyed ← hits.mapM fun h => (fun k => (k, h)) <$> sortKey cfg clock h.recordOf
  let sorted := keyed.insertionSort fun a b => a.1.le b.1
  let winner ← fetch (sorted.head?.map Prod.snd) .other
  let reason ← reasonFor cfg clock sorted
  return {
    hit := winner
    governance :=
      if winner.record.isSome then some (decisionOn sha1 eid hits winner reason) else none }

omit [LinearOrder ν] in
/-- `float(h.get('score', 0.0))` -/
def scoreOf (h : Hit ν) : Except Failure ν := (h.score.getD (.float 0)).toFloat

omit [Python ν] [Zero ν] in
/-- `combined.sort(key=…, reverse=True)`, which keeps the order of those that tie. -/
def byScore (scored : List (ν × Survivor ν)) : List (Survivor ν) :=
  (scored.insertionSort fun a b => b.1 ≤ a.1).map Prod.snd

def resolveConflicts (cfg : GovernanceConfig ν) (clock : Clock ν) (sha1 : Text → Text)
    (results : List (Hit ν)) : Except Failure (List (Survivor ν)) := do
  let others := (results.filter fun h => h.entity = none).map fun h => ({ hit := h } : Survivor ν)
  let winners ← (groups Hit.entity results).mapM fun g => resolveGroup cfg clock sha1 g.1 g.2
  let scored ← (others ++ winners).mapM fun s => (fun x => (x, s)) <$> scoreOf s.hit
  return byScore scored

/-! ## The order of a group -/

section

variable (cfg : GovernanceConfig ν) (clock : Clock ν)

/-- The key of a hit that has one. -/
def keyOf (h : Hit ν) : SortKey ν :=
  match sortKey cfg clock h.recordOf with
  | .ok k => k
  | .error _ => { authority := 0, confidence := 0, freshness := 0, priority := 0, id := [] }

/-- The hits in the order of `sort_key`. -/
def ranked (hits : List (Hit ν)) : List (Hit ν) :=
  hits.insertionSort fun a b => (keyOf cfg clock a).le (keyOf cfg clock b)

omit [Python ν] [Zero ν] in
/-- The first criterion on which two keys differ. -/
def firstDifference (w r : SortKey ν) : ReasonCode :=
  if w.authority ≠ r.authority then .higherAuthority
  else if w.confidence ≠ r.confidence then .higherConfidence
  else if w.freshness ≠ r.freshness then .newerRecord
  else if w.priority ≠ r.priority then .sourcePriority
  else .deterministicRecordId

omit [Python ν] [Zero ν] in
/-- The reason for the first of some keys in order. -/
def reasonOf : List (SortKey ν) → ReasonCode
  | w :: r :: _ => firstDifference w r
  | _ => .noConflict

/-- What `sort_key` needs of a record is there. -/
def Keyed (h : Hit ν) : Prop := ∃ k, sortKey cfg clock h.recordOf = .ok k

variable {cfg clock}

omit [LinearOrder ν] in
theorem sortKey_eq {h : Hit ν} (hkey : Keyed cfg clock h) :
    sortKey cfg clock h.recordOf = .ok (keyOf cfg clock h) := by
  obtain ⟨k, hk⟩ := hkey
  unfold keyOf
  rw [hk]

omit [LinearOrder ν] in
/-- The values that are read again are those of the keys. -/
theorem sortKey_eq_ok {rec : Doc ν} {k : SortKey ν} (h : sortKey cfg clock rec = .ok k) :
    authorityOf cfg rec = .ok k.authority ∧ confidenceOf cfg rec = .ok k.confidence ∧
      freshnessOf clock rec = .ok k.freshness ∧ priorityOf cfg rec = .ok k.priority := by
  simp only [sortKey, Logic.bind_eq_ok, pure_eq_ok] at h
  obtain ⟨authority, hauthority, confidence, hconfidence, freshness, hfreshness, priority, hpriority,
    id, -, rfl⟩ := h
  exact ⟨hauthority, hconfidence, hfreshness, hpriority⟩

/-- **The explanation names the first difference of the keys.** -/
theorem explain_eq {w r : Hit ν} (hw : Keyed cfg clock w) (hr : Keyed cfg clock r) :
    explain cfg clock w.recordOf r.recordOf =
      .ok (firstDifference (keyOf cfg clock w) (keyOf cfg clock r)) := by
  obtain ⟨hwa, hwc, hwt, hwp⟩ := sortKey_eq_ok (sortKey_eq hw)
  obtain ⟨hra, hrc, hrt, hrp⟩ := sortKey_eq_ok (sortKey_eq hr)
  unfold explain firstDifference
  rw [hwa, hra]
  by_cases ha : (keyOf cfg clock w).authority ≠ (keyOf cfg clock r).authority
  · simp only [if_pos ha]
    exact if_pos ha
  simp only [if_neg ha]
  rw [hwc, hrc]
  refine (if_neg ha).trans ?_
  by_cases hc : (keyOf cfg clock w).confidence ≠ (keyOf cfg clock r).confidence
  · simp only [if_pos hc]
    exact if_pos hc
  simp only [if_neg hc]
  rw [hwt, hrt]
  refine (if_neg hc).trans ?_
  by_cases ht : (keyOf cfg clock w).freshness ≠ (keyOf cfg clock r).freshness
  · simp only [if_pos ht]
    exact if_pos ht
  simp only [if_neg ht]
  rw [hwp, hrp]
  exact if_neg ht

/-! ## One group -/

theorem perm_ranked (cfg : GovernanceConfig ν) (clock : Clock ν) (hits : List (Hit ν)) :
    (ranked cfg clock hits).Perm hits := List.perm_insertionSort _ hits

theorem reasonFor_eq {hits : List (Hit ν)} (hkeyed : ∀ h ∈ hits, Keyed cfg clock h) :
    reasonFor cfg clock (hits.map fun h => (keyOf cfg clock h, h)) =
      .ok (reasonOf (hits.map (keyOf cfg clock))) := by
  match hits with
  | [] => rfl
  | [_] => rfl
  | w :: r :: _ =>
    exact explain_eq (hkeyed w List.mem_cons_self) (hkeyed r (List.mem_cons_of_mem w List.mem_cons_self))

/-- The first of a group in order, with the decision on the group. -/
def winnerOf (cfg : GovernanceConfig ν) (clock : Clock ν) (sha1 : Text → Text) (eid : Text)
    (hits : List (Hit ν)) : Survivor ν :=
  match ranked cfg clock hits with
  | [] => { hit := {} }
  | w :: rest =>
    { hit := w
      governance := some (decisionOn sha1 eid hits w (reasonOf ((w :: rest).map (keyOf cfg clock)))) }

theorem winnerOf_eq {sha1 : Text → Text} {eid : Text} {hits rest : List (Hit ν)} {w : Hit ν}
    (h : ranked cfg clock hits = w :: rest) :
    winnerOf cfg clock sha1 eid hits =
      { hit := w
        governance := some (decisionOn sha1 eid hits w
          (reasonOf ((ranked cfg clock hits).map (keyOf cfg clock)))) } := by
  unfold winnerOf
  rw [h]

theorem ranked_ne_nil (cfg : GovernanceConfig ν) (clock : Clock ν) {hits : List (Hit ν)}
    (h : hits ≠ []) : ∃ w rest, ranked cfg clock hits = w :: rest := by
  refine List.exists_cons_of_ne_nil fun hnil => h ?_
  have hperm := perm_ranked cfg clock hits
  rw [hnil] at hperm
  exact List.nil_perm.1 hperm

/-- **The first of a group in order wins it.** -/
theorem resolveGroup_eq (sha1 : Text → Text) (eid : Text) {hits : List (Hit ν)} (hne : hits ≠ [])
    (hkeyed : ∀ h ∈ hits, Keyed cfg clock h) (hrecord : ∀ h ∈ hits, h.record.isSome) :
    resolveGroup cfg clock sha1 eid hits = .ok (winnerOf cfg clock sha1 eid hits) := by
  obtain ⟨w, rest, hranked⟩ := ranked_ne_nil cfg clock hne
  have hall : ∀ h ∈ ranked cfg clock hits, h ∈ hits := fun h =>
    (perm_ranked cfg clock hits).mem_iff.1
  have hw : w ∈ hits := hall w (hranked ▸ List.mem_cons_self)
  have hkeys : hits.mapM (fun h => (fun k => (k, h)) <$> sortKey cfg clock h.recordOf) =
      .ok (hits.map fun h => (keyOf cfg clock h, h)) := by
    refine mapM_ok fun h hh => ?_
    rw [sortKey_eq (hkeyed h hh)]
    rfl
  have hsorted : ((hits.map fun h => (keyOf cfg clock h, h)).insertionSort
      fun a b => a.1.le b.1) =
      (ranked cfg clock hits).map fun h => (keyOf cfg clock h, h) :=
    (List.map_insertionSort _ (fun a b : SortKey ν × Hit ν => a.1.le b.1)
      (fun h => (keyOf cfg clock h, h)) hits fun a _ b _ => Iff.rfl).symm
  have hreason := reasonFor_eq fun h hh => hkeyed h (hall h hh)
  unfold resolveGroup winnerOf
  simp only [hkeys, Logic.bind_eq_ok, pure_eq_ok, fetch_eq_ok]
  refine ⟨_, rfl, w, ?_⟩
  rw [hsorted]
  refine ⟨?_, _, hreason, ?_⟩
  · rw [hranked]
    rfl
  · rw [hranked, if_pos (hrecord w hw)]

/-! ## Permutations of a group -/

omit [Python ν] [LinearOrder ν] [Zero ν] in
theorem id_eq_of_tuple {a b : SortKey ν} (h : a.tuple = b.tuple) : a.id = b.id := by
  have hprod := congrArg (fun t => (ofLex (ofLex (ofLex (ofLex t).2).2).2).2) h
  exact hprod

theorem pairwise_ranked (cfg : GovernanceConfig ν) (clock : Clock ν) (hits : List (Hit ν)) :
    (ranked cfg clock hits).Pairwise fun a b => (keyOf cfg clock a).le (keyOf cfg clock b) := by
  have htotal : Std.Total fun a b : Hit ν => (keyOf cfg clock a).le (keyOf cfg clock b) :=
    ⟨fun a b => le_total _ _⟩
  have htrans : IsTrans (Hit ν) fun a b => (keyOf cfg clock a).le (keyOf cfg clock b) :=
    ⟨fun _ _ _ => le_trans⟩
  exact List.pairwise_insertionSort _ hits

/-- The record ids of the hits are distinct. -/
def Distinct (cfg : GovernanceConfig ν) (clock : Clock ν) (hits : List (Hit ν)) : Prop :=
  (hits.map fun h => (keyOf cfg clock h).id).Nodup

/-- Hits with distinct record ids are in order in one way. -/
theorem ranked_perm {hits hits' : List (Hit ν)} (h : hits.Perm hits')
    (hdistinct : Distinct cfg clock hits) : ranked cfg clock hits = ranked cfg clock hits' := by
  refine List.Perm.eq_of_pairwise ?_ (pairwise_ranked cfg clock hits) (pairwise_ranked cfg clock hits')
    ((perm_ranked cfg clock hits).trans (h.trans (perm_ranked cfg clock hits').symm))
  intro a b ha hb hab hba
  have ha' := (perm_ranked cfg clock hits).mem_iff.1 ha
  have hb' := h.mem_iff.2 ((perm_ranked cfg clock hits').mem_iff.1 hb)
  exact List.inj_on_of_nodup_map hdistinct ha' hb' (id_eq_of_tuple (le_antisymm hab hba))

theorem pairwise_lt_ranked {hits : List (Hit ν)} (hdistinct : Distinct cfg clock hits) :
    (ranked cfg clock hits).Pairwise fun a b =>
      (keyOf cfg clock a).tuple < (keyOf cfg clock b).tuple := by
  have hnodup : (ranked cfg clock hits).Pairwise fun a b =>
      (keyOf cfg clock a).id ≠ (keyOf cfg clock b).id := by
    have hmap := (((perm_ranked cfg clock hits).map fun h => (keyOf cfg clock h).id).nodup_iff).2 hdistinct
    exact List.pairwise_map.1 hmap
  refine ((pairwise_ranked cfg clock hits).and hnodup).imp fun {a b} hab => ?_
  exact lt_of_le_of_ne hab.1 fun heq => hab.2 (id_eq_of_tuple heq)

/-- What is said of a survivor whatever the order of the hits: the hit, the id of the decision and
its reasons. -/
def Survivor.outcome (s : Survivor ν) : Hit ν × Option (Text × List ReasonCode) :=
  (s.hit, s.governance.map fun d => (d.decisionId, d.reasonCodes))

omit [LinearOrder ν] [Zero ν] in
theorem decisionText_perm {ids ids' : List (Value ν)} (h : ids.Perm ids') (eid : Text)
    (winnerId : Value ν) : decisionText eid winnerId ids = decisionText eid winnerId ids' := by
  have htotal : Std.Total fun a b : Text => a ≤ b := ⟨le_total⟩
  have htrans : IsTrans Text fun a b => a ≤ b := ⟨fun _ _ _ => le_trans⟩
  have hsorted : (ids.map Value.toStr).insertionSort (· ≤ ·) =
      (ids'.map Value.toStr).insertionSort (· ≤ ·) := by
    refine List.Perm.eq_of_pairwise (fun a b _ _ => le_antisymm) (List.pairwise_insertionSort _ _)
      (List.pairwise_insertionSort _ _) ?_
    exact (List.perm_insertionSort _ _).trans ((h.map _).trans (List.perm_insertionSort _ _).symm)
  unfold decisionText
  rw [hsorted]

theorem outcome_winnerOf_perm (sha1 : Text → Text) (eid : Text) {hits hits' : List (Hit ν)}
    (h : hits.Perm hits') (hdistinct : Distinct cfg clock hits) :
    (winnerOf cfg clock sha1 eid hits).outcome = (winnerOf cfg clock sha1 eid hits').outcome := by
  unfold winnerOf
  rw [ranked_perm h hdistinct]
  cases ranked cfg clock hits' with
  | nil => rfl
  | cons w rest =>
    show (w, some (sha1 (decisionText eid w.id (hits.map Hit.id)), _)) = (w, some (sha1 _, _))
    rw [decisionText_perm (h.map Hit.id)]
    rfl

/-! ## The whole list -/

/-- What `resolve_conflicts` reads of a hit is there: a score, and of a hit of an entity the key. -/
structure Readable (cfg : GovernanceConfig ν) (clock : Clock ν) (h : Hit ν) : Prop where
  score : ∃ x, scoreOf h = .ok x
  keyed : h.entity ≠ none → Keyed cfg clock h

/-- The survivors before they are ordered by score. -/
def survivors (cfg : GovernanceConfig ν) (clock : Clock ν) (sha1 : Text → Text)
    (results : List (Hit ν)) : List (Survivor ν) :=
  (results.filter fun h => h.entity = none).map (fun h => { hit := h }) ++
    (groups Hit.entity results).map fun g => winnerOf cfg clock sha1 g.1 g.2

omit [Python ν] [LinearOrder ν] [Zero ν] in
theorem record_of_entity {h : Hit ν} {e : Text} (he : h.entity = some e) : h.record.isSome := by
  cases hrecord : h.record with
  | some rec => rfl
  | none =>
    unfold Hit.entity Hit.recordOf at he
    rw [hrecord] at he
    cases he

theorem winnerOf_mem (cfg : GovernanceConfig ν) (clock : Clock ν) (sha1 : Text → Text) (eid : Text)
    {hits : List (Hit ν)} (hne : hits ≠ []) : (winnerOf cfg clock sha1 eid hits).hit ∈ hits := by
  obtain ⟨w, rest, hranked⟩ := ranked_ne_nil cfg clock hne
  rw [winnerOf_eq hranked]
  exact (perm_ranked cfg clock hits).mem_iff.1 (hranked ▸ List.mem_cons_self)

/-- Every survivor is one of the hits. -/
theorem mem_of_survivors {sha1 : Text → Text} {results : List (Hit ν)} {s : Survivor ν}
    (h : s ∈ survivors cfg clock sha1 results) : s.hit ∈ results := by
  rcases List.mem_append.1 h with h | h
  · obtain ⟨hit, hmem, rfl⟩ := List.mem_map.1 h
    exact (List.mem_filter.1 hmem).1
  · obtain ⟨⟨eid, hits⟩, hg, rfl⟩ := List.mem_map.1 h
    obtain ⟨rfl, a, ha, hkey⟩ := mem_groups.1 hg
    have hne : having Hit.entity eid results ≠ [] := List.ne_nil_of_mem (mem_having.2 ⟨ha, hkey⟩)
    exact (mem_having.1 (winnerOf_mem cfg clock sha1 eid hne)).1

variable (cfg clock) in
/-- **The result is the survivors**, ordered by score. -/
theorem resolveConflicts_eq (sha1 : Text → Text) {results : List (Hit ν)}
    (hread : ∀ h ∈ results, Readable cfg clock h) :
    ∃ out, resolveConflicts cfg clock sha1 results = .ok out ∧
      out.Perm (survivors cfg clock sha1 results) := by
  have hwinners : (groups Hit.entity results).mapM
      (fun g => resolveGroup cfg clock sha1 g.1 g.2) =
      .ok ((groups Hit.entity results).map fun g => winnerOf cfg clock sha1 g.1 g.2) := by
    refine mapM_ok fun g hg => ?_
    obtain ⟨hhits, a, ha, hkey⟩ := mem_groups.1 (show (g.1, g.2) ∈ groups Hit.entity results from hg)
    have hall : ∀ h ∈ g.2, h ∈ results ∧ h.entity = some g.1 := by
      intro h hh
      rw [hhits] at hh
      exact mem_having.1 hh
    refine resolveGroup_eq sha1 g.1 ?_ ?_ ?_
    · rw [hhits]
      exact List.ne_nil_of_mem (mem_having.2 ⟨ha, hkey⟩)
    · intro h hh
      refine (hread h (hall h hh).1).keyed ?_
      rw [(hall h hh).2]
      exact Option.some_ne_none g.1
    · exact fun h hh => record_of_entity (hall h hh).2
  have hscores : (survivors cfg clock sha1 results).mapM
      (fun s => (fun x => (x, s)) <$> scoreOf s.hit) =
      .ok ((survivors cfg clock sha1 results).map fun s =>
        (((scoreOf s.hit).toOption).getD 0, s)) := by
    refine mapM_ok fun s hs => ?_
    obtain ⟨x, hx⟩ := (hread s.hit (mem_of_survivors hs)).score
    rw [hx]
    rfl
  refine ⟨byScore ((survivors cfg clock sha1 results).map fun s =>
    (((scoreOf s.hit).toOption).getD 0, s)), ?_, ?_⟩
  · unfold resolveConflicts
    rw [hwinners]
    show ((survivors cfg clock sha1 results).mapM (fun s => (fun x => (x, s)) <$> scoreOf s.hit) >>=
      fun scored => Except.ok (byScore scored)) = _
    rw [hscores]
    rfl
  · refine ((List.perm_insertionSort _ _).map Prod.snd).trans ?_
    rw [List.map_map]
    exact List.Perm.of_eq (List.map_id _)

/-! ## What survives -/

/-- A hit is the first of its entity: of all hits of the entity in strictly ascending order of their
tuples it is the first, and the reason is the first difference from the second. -/
def First (cfg : GovernanceConfig ν) (clock : Clock ν) (results : List (Hit ν)) (e : Text)
    (s : Survivor ν) : Prop :=
  ∃ ranking : List (Hit ν), ranking.Perm (having Hit.entity e results) ∧
    ranking.Pairwise (fun a b => (keyOf cfg clock a).tuple < (keyOf cfg clock b).tuple) ∧
    ranking.head? = some s.hit ∧
    s.governance.map Decision.reasonCodes = some [reasonOf (ranking.map (keyOf cfg clock))]

/-- What `resolve_conflicts` returns. -/
structure Resolved (cfg : GovernanceConfig ν) (clock : Clock ν) (results : List (Hit ν))
    (out : List (Survivor ν)) : Prop where
  others : ((out.filter fun s => s.hit.entity = none).map Survivor.hit).Perm
    (results.filter fun h => h.entity = none)
  one : ∀ e, (∃ h ∈ results, h.entity = some e) →
    ∃ s, (out.filter fun s => s.hit.entity = some e) = [s] ∧ First cfg clock results e s
  found : ∀ s ∈ out, s.hit ∈ results

theorem entity_winnerOf (cfg : GovernanceConfig ν) (clock : Clock ν) (sha1 : Text → Text)
    {results : List (Hit ν)} {g : Text × List (Hit ν)} (hg : g ∈ groups Hit.entity results) :
    (winnerOf cfg clock sha1 g.1 g.2).hit.entity = some g.1 := by
  obtain ⟨hhits, a, ha, hkey⟩ := mem_groups.1 (show (g.1, g.2) ∈ groups Hit.entity results from hg)
  have hne : g.2 ≠ [] := by
    rw [hhits]
    exact List.ne_nil_of_mem (mem_having.2 ⟨ha, hkey⟩)
  have hmem := winnerOf_mem cfg clock sha1 g.1 hne
  rw [hhits] at hmem
  exact hhits ▸ (mem_having.1 hmem).2

theorem first_winnerOf (sha1 : Text → Text) {results : List (Hit ν)} {e : Text}
    (hne : having Hit.entity e results ≠ [])
    (hdistinct : Distinct cfg clock (having Hit.entity e results)) :
    First cfg clock results e (winnerOf cfg clock sha1 e (having Hit.entity e results)) := by
  obtain ⟨w, rest, hranked⟩ := ranked_ne_nil cfg clock hne
  refine ⟨ranked cfg clock (having Hit.entity e results), perm_ranked cfg clock _,
    pairwise_lt_ranked hdistinct, ?_, ?_⟩
  · rw [winnerOf_eq hranked, hranked]
    rfl
  · rw [winnerOf_eq hranked]
    rfl

variable (cfg clock) in
theorem filter_survivors_none (sha1 : Text → Text) (results : List (Hit ν)) :
    ((survivors cfg clock sha1 results).filter fun s => s.hit.entity = none).map Survivor.hit =
      results.filter fun h => h.entity = none := by
  have hwinners : ((groups Hit.entity results).map fun g => winnerOf cfg clock sha1 g.1 g.2).filter
      (fun s => s.hit.entity = none) = [] := by
    rw [List.filter_eq_nil_iff]
    intro s hs hnone
    obtain ⟨g, hg, rfl⟩ := List.mem_map.1 hs
    have hsome := entity_winnerOf cfg clock sha1 hg
    rw [of_decide_eq_true hnone] at hsome
    cases hsome
  unfold survivors
  rw [List.filter_append, hwinners, List.append_nil, List.filter_map, List.map_map]
  have hagain : (results.filter fun h => h.entity = none).filter
      ((fun s : Survivor ν => decide (s.hit.entity = none)) ∘ fun h => { hit := h }) =
      results.filter fun h => h.entity = none := List.filter_eq_self.2 fun h hh => (List.mem_filter.1 hh).2
  rw [hagain]
  exact List.map_id _

variable (cfg clock) in
theorem filter_survivors_some (sha1 : Text → Text) {results : List (Hit ν)} {e : Text}
    (h : ∃ a ∈ results, a.entity = some e) :
    (survivors cfg clock sha1 results).filter (fun s => s.hit.entity = some e) =
      [winnerOf cfg clock sha1 e (having Hit.entity e results)] := by
  have hothers : ((results.filter fun h => h.entity = none).map fun h =>
      ({ hit := h } : Survivor ν)).filter (fun s => s.hit.entity = some e) = [] := by
    rw [List.filter_eq_nil_iff]
    intro s hs hsome
    obtain ⟨hit, hmem, rfl⟩ := List.mem_map.1 hs
    have hnone := of_decide_eq_true (List.mem_filter.1 hmem).2
    rw [of_decide_eq_true hsome] at hnone
    cases hnone
  unfold survivors
  rw [List.filter_append, hothers, List.nil_append, List.filter_map]
  have hkeys : (groups Hit.entity results).filter
      ((fun s : Survivor ν => decide (s.hit.entity = some e)) ∘
        fun g => winnerOf cfg clock sha1 g.1 g.2) =
      (groups Hit.entity results).filter fun g => g.1 = e := by
    refine List.filter_congr fun g hg => ?_
    rw [Function.comp_apply, entity_winnerOf cfg clock sha1 hg, decide_eq_decide]
    exact ⟨Option.some.inj, congrArg some⟩
  rw [hkeys, Assoc.filter_key (nodup_groups results) (mem_groups.2 ⟨rfl, h⟩)]
  rfl

end

end

namespace Sample

def clock : Clock Rat where
  timestamp i := i
  localTimestamp _ := none

theorem nodup_record : [text "id", text "entity_id", text "authority", text "confidence"].Nodup := by
  decide

/-- A hit on a record of an entity. -/
def hitOf (id entity : String) (authority : Rat) : Hit Rat where
  id := .str (text id)
  score := some (.float 1)
  record := some {
    rows := [(text "id", .str (text id)), (text "entity_id", .str (text entity)),
      (text "authority", .float authority), (text "confidence", .float 1)]
    nodup := nodup_record }

/-- Two hits on one entity, and one on none. -/
def hits : List (Hit Rat) := [hitOf "a" "e" 1, hitOf "b" "e" 2, hitOf "c" "" 1]

theorem hits_readable : ∀ h ∈ hits, Readable cfg clock h := by
  intro h hh
  rcases List.mem_cons.1 hh with rfl | hh
  · exact ⟨⟨1, rfl⟩, fun _ => ⟨_, rfl⟩⟩
  rcases List.mem_cons.1 hh with rfl | hh
  · exact ⟨⟨1, rfl⟩, fun _ => ⟨_, rfl⟩⟩
  rw [List.mem_singleton.1 hh]
  exact ⟨⟨1, rfl⟩, fun _ => ⟨_, rfl⟩⟩

theorem hits_distinct : ∀ e, Distinct cfg clock (having Hit.entity e hits) := by
  intro e
  have hall : (hits.map fun h => (keyOf cfg clock h).id).Nodup := by
    show [text "a", text "b", text "c"].Nodup
    decide
  exact hall.sublist (List.filter_sublist.map _)

end Sample

end ProjectMaya.MemoryGovernance
