import ProjectMaya.ConflictResolution
import ProjectMaya.TimestampAges

/-! # The freshness of hits

Among hits of one entity that tie otherwise, the one with the largest `_parse_iso_z` wins.  It is the
latest exactly where `_parse_iso_z` orders the timestamps as the instants that they denote
(`chronological_iff`).  What `isoformat` writes is read right; a date is read as one of the local
time. -/

namespace ProjectMaya.MemoryGovernance

open Logic
open ProjectMaya.Vector (Text Value Doc Python Failure text)

/-- The instant that a timestamp denotes, where a time without offset is one of UTC. -/
def denotes (ts : Text) : Option Int :=
  (DateTime.fromisoformat ts).map fun t => t.wall - t.offset.getD 0

section

variable {ν : Type} [Python ν] [Field ν] [LinearOrder ν]

/-- The timestamp of a record. -/
def Stamped (rec : Doc ν) (ts : Text) : Prop :=
  ∃ prov, rec.get? (text "provenance") = some (.dict prov) ∧
    Assoc.get? prov (text "timestamp") = some (.str ts)

omit [Python ν] [Field ν] [LinearOrder ν] in
theorem Stamped.unique {rec : Doc ν} {ts ts' : Text} (h : Stamped rec ts) (h' : Stamped rec ts') :
    ts = ts' := by
  obtain ⟨prov, hprov, hts⟩ := h
  obtain ⟨prov', hprov', hts'⟩ := h'
  rw [hprov] at hprov'
  cases hprov'
  rw [hts] at hts'
  cases hts'
  rfl

theorem stamped_of_governed {cfg : GovernanceConfig ν} {utcnow : DateTime} {record r : Doc ν}
    (h : applyGovernanceDefaults cfg utcnow record = .ok r) : ∃ ts, Keeps ts ∧ Stamped r ts := by
  obtain ⟨prov, ts, hkeeps, hts, hprov, -, -⟩ := applyGovernanceDefaults_eq_ok h
  exact ⟨ts, hkeeps, prov, hprov, hts⟩

omit [Python ν] [LinearOrder ν] in
theorem freshnessOf_stamped (clock : Clock ν) {rec : Doc ν} {ts : Text} (h : Stamped rec ts) :
    freshnessOf clock rec = .ok (parseIsoZ clock (.str ts)) := by
  obtain ⟨prov, hprov, hts⟩ := h
  unfold freshnessOf provenanceOf field
  rw [hprov]
  show Except.ok (parseIsoZ clock ((Assoc.get? prov (text "timestamp")).getD .null)) = _
  rw [hts]
  rfl

/-! ## Hits that tie but for their freshness -/

/-- Hits of one entity, whose records went through `apply_governance_defaults`, with timestamps of a
kind, and with one authority and one confidence. -/
structure Rivals (cfg : GovernanceConfig ν) (clock : Clock ν) (kind : Text → Prop) (e : Text)
    (hits : List (Hit ν)) : Prop where
  nonempty : hits ≠ []
  entity : ∀ h ∈ hits, h.entity = some e
  readable : ∀ h ∈ hits, Readable cfg clock h
  governed : ∀ h ∈ hits, ∃ utcnow record, applyGovernanceDefaults cfg utcnow record = .ok h.recordOf
  stamped : ∀ h ∈ hits, ∃ ts, Stamped h.recordOf ts ∧ kind ts
  tied : ∃ a c, ∀ h ∈ hits, authorityOf cfg h.recordOf = .ok a ∧ confidenceOf cfg h.recordOf = .ok c

/-- The timestamp of a hit denotes the latest instant of some hits. -/
def Latest (hits : List (Hit ν)) (h : Hit ν) : Prop :=
  ∃ ts i, Stamped h.recordOf ts ∧ denotes ts = some i ∧
    ∀ h' ∈ hits, ∀ ts' j, Stamped h'.recordOf ts' → denotes ts' = some j → j ≤ i

/-- `_parse_iso_z` orders timestamps of a kind as the instants that they denote. -/
structure Faithful (clock : Clock ν) (kind : Text → Prop) : Prop where
  denotes : ∀ ts, kind ts → ∃ i, denotes ts = some i
  lt : ∀ ts ts' i j, kind ts → kind ts' → MemoryGovernance.denotes ts = some i →
    MemoryGovernance.denotes ts' = some j → i < j →
    parseIsoZ clock (.str ts : Value ν) < parseIsoZ clock (.str ts')

omit [Python ν] [Field ν] in
theorem freshness_le {a b : SortKey ν} (h : a.tuple ≤ b.tuple) (ha : a.authority = b.authority)
    (hc : a.confidence = b.confidence) : b.freshness ≤ a.freshness := by
  have hconfidence := (Prod.Lex.toLex_le_toLex'.1 h).2 (congrArg OrderDual.toDual ha)
  have hfreshness := (Prod.Lex.toLex_le_toLex'.1 hconfidence).2 (congrArg OrderDual.toDual hc)
  exact OrderDual.toDual_le_toDual.1 (Prod.Lex.toLex_le_toLex'.1 hfreshness).1

section

variable {cfg : GovernanceConfig ν} {clock : Clock ν} {kind : Text → Prop} {e : Text}
  {hits : List (Hit ν)}

/-- Of hits on one entity the first survives. -/
theorem resolveConflicts_rivals (sha1 : Text → Text) (h : Rivals cfg clock kind e hits) :
    resolveConflicts cfg clock sha1 hits = .ok [winnerOf cfg clock sha1 e hits] := by
  obtain ⟨out, hout, hperm⟩ := resolveConflicts_eq cfg clock sha1 h.readable
  obtain ⟨a, ha⟩ := List.exists_mem_of_ne_nil _ h.nonempty
  have hhaving : having Hit.entity e hits = hits :=
    List.filter_eq_self.2 fun h' hh => decide_eq_true (h.entity h' hh)
  have hall : (survivors cfg clock sha1 hits).filter (fun s => s.hit.entity = some e) =
      survivors cfg clock sha1 hits :=
    List.filter_eq_self.2 fun s hs => decide_eq_true (h.entity s.hit (mem_of_survivors hs))
  have hone := filter_survivors_some cfg clock sha1 ⟨a, ha, h.entity a ha⟩
  rw [hall, hhaving] at hone
  rw [hone] at hperm
  rw [hout, List.perm_singleton.1 hperm]

/-- The first of a group stands before all of them. -/
theorem winnerOf_le (sha1 : Text → Text) (hne : hits ≠ []) {h : Hit ν} (hh : h ∈ hits) :
    (keyOf cfg clock (winnerOf cfg clock sha1 e hits).hit).tuple ≤ (keyOf cfg clock h).tuple := by
  obtain ⟨w, rest, hranked⟩ := ranked_ne_nil cfg clock hne
  have hsorted := pairwise_ranked cfg clock hits
  have hmem := (perm_ranked cfg clock hits).mem_iff.2 hh
  rw [winnerOf_eq hranked]
  rw [hranked] at hsorted hmem
  rcases List.mem_cons.1 hmem with rfl | hrest
  · exact le_refl _
  · exact (List.pairwise_cons.1 hsorted).1 h hrest

theorem Rivals.keyed (h : Rivals cfg clock kind e hits) {hit : Hit ν} (hh : hit ∈ hits) :
    Keyed cfg clock hit := by
  refine (h.readable hit hh).keyed ?_
  rw [h.entity hit hh]
  exact Option.some_ne_none e

omit [LinearOrder ν] in
/-- The freshness of a key is what `_parse_iso_z` makes of the timestamp. -/
theorem freshness_keyOf {hit : Hit ν} (hkeyed : Keyed cfg clock hit) {ts : Text}
    (hts : Stamped hit.recordOf ts) :
    (keyOf cfg clock hit).freshness = parseIsoZ clock (.str ts) := by
  have hfresh := (sortKey_eq_ok (sortKey_eq hkeyed)).2.2.1
  rw [freshnessOf_stamped clock hts] at hfresh
  exact (Except.ok.inj hfresh).symm

/-- No rival is fresher than the winner. -/
theorem freshness_winnerOf (sha1 : Text → Text) (h : Rivals cfg clock kind e hits) {hit : Hit ν}
    (hh : hit ∈ hits) : (keyOf cfg clock hit).freshness ≤
      (keyOf cfg clock (winnerOf cfg clock sha1 e hits).hit).freshness := by
  have hw := winnerOf_mem cfg clock sha1 e h.nonempty
  obtain ⟨a, c, htied⟩ := h.tied
  have hkeys : ∀ hit ∈ hits, (keyOf cfg clock hit).authority = a ∧
      (keyOf cfg clock hit).confidence = c := by
    intro hit hh
    obtain ⟨hauthority, hconfidence, -, -⟩ := sortKey_eq_ok (sortKey_eq (h.keyed hh))
    rw [(htied hit hh).1] at hauthority
    rw [(htied hit hh).2] at hconfidence
    exact ⟨(Except.ok.inj hauthority).symm, (Except.ok.inj hconfidence).symm⟩
  refine freshness_le (winnerOf_le sha1 h.nonempty hh) ?_ ?_
  · rw [(hkeys _ hw).1, (hkeys hit hh).1]
  · rw [(hkeys _ hw).2, (hkeys hit hh).2]

/-- Where the timestamps are ordered as their instants, the winner is the latest. -/
theorem latest_of_faithful (sha1 : Text → Text) (hfaithful : Faithful clock kind)
    (h : Rivals cfg clock kind e hits) : Latest hits (winnerOf cfg clock sha1 e hits).hit := by
  have hw := winnerOf_mem cfg clock sha1 e h.nonempty
  obtain ⟨ts, hts, hkind⟩ := h.stamped _ hw
  obtain ⟨i, hi⟩ := hfaithful.denotes ts hkind
  refine ⟨ts, i, hts, hi, ?_⟩
  intro h' hh' ts' j hts' hj
  obtain ⟨ts'', hts'', hkind'⟩ := h.stamped h' hh'
  obtain rfl := hts'.unique hts''
  by_contra hlt
  have hfresh := freshness_winnerOf sha1 h hh'
  rw [freshness_keyOf (h.keyed hh') hts', freshness_keyOf (h.keyed hw) hts] at hfresh
  exact absurd (hfaithful.lt ts ts' i j hkind hkind' hi hj (not_le.1 hlt)) (not_lt.2 hfresh)

end

/-! ## Rivals with given timestamps -/

theorem nodup_fresh : [text "provenance", text "authority", text "id", text "entity_id"].Nodup := by
  decide

/-- A record of an entity, with a timestamp and an id. -/
def fresh (ts id : Text) : Doc ν where
  rows := [(text "provenance", .dict [(text "timestamp", .str ts)]), (text "authority", .float 0),
    (text "id", .str id), (text "entity_id", .str (text "e"))]
  nodup := nodup_fresh

/-- The record with the defaults. -/
def governed (cfg : GovernanceConfig ν) (ts id : Text) : Doc ν :=
  (fresh ts id).put (text "confidence") (.float cfg.defaultConfidence)

def freshHit (cfg : GovernanceConfig ν) (ts id : Text) : Hit ν where
  score := some (.float 0)
  record := some (governed cfg ts id)

theorem applyGovernanceDefaults_fresh (cfg : GovernanceConfig ν) (utcnow : DateTime) {ts : Text}
    (h : Keeps ts) (id : Text) :
    applyGovernanceDefaults cfg utcnow (fresh ts id) = .ok (governed cfg ts id) := by
  have hput : (fresh ts id : Doc ν).put (text "provenance")
      (.dict [(text "timestamp", .str ts)]) = fresh ts id := put_self rfl
  unfold applyGovernanceDefaults
  show (acceptTimestamp utcnow (Value.str ts : Value ν) >>= fun ts' => Except.ok (withAuthority cfg
    (Assoc.set [(text "timestamp", .str ts)] (text "timestamp") (.str ts'))
    (((fresh ts id).put (text "provenance") (.dict (Assoc.set [(text "timestamp", .str ts)]
      (text "timestamp") (.str ts')))).put (text "confidence") _))) = _
  rw [acceptTimestamp_of_keeps h]
  show Except.ok (withAuthority cfg _ (((fresh ts id).put (text "provenance")
    (.dict [(text "timestamp", .str ts)])).put (text "confidence") _)) = _
  rw [hput]
  rfl

omit [LinearOrder ν] in
theorem sortKey_governed (cfg : GovernanceConfig ν) (clock : Clock ν) (ts id : Text) :
    sortKey cfg clock (governed cfg ts id) = .ok {
      authority := 0
      confidence := cfg.defaultConfidence
      freshness := parseIsoZ clock (.str ts)
      priority := cfg.sourcePriorities + 1000
      id } := rfl

omit [LinearOrder ν] in
theorem keyOf_freshHit (cfg : GovernanceConfig ν) (clock : Clock ν) (ts id : Text) :
    keyOf cfg clock (freshHit cfg ts id) = {
      authority := 0
      confidence := cfg.defaultConfidence
      freshness := parseIsoZ clock (.str ts)
      priority := cfg.sourcePriorities + 1000
      id } := rfl

omit [Python ν] [LinearOrder ν] in
theorem stamped_freshHit (cfg : GovernanceConfig ν) (ts id : Text) :
    Stamped (freshHit cfg ts id).recordOf ts :=
  ⟨[(text "timestamp", .str ts)], rfl, rfl⟩

/-- Any kept timestamps are those of some rivals. -/
theorem rivals_freshHits (cfg : GovernanceConfig ν) (clock : Clock ν) {kind : Text → Prop}
    (hkeeps : ∀ ts, kind ts → Keeps ts) {stamps : List (Text × Text)} (hne : stamps ≠ [])
    (h : ∀ p ∈ stamps, kind p.1) :
    Rivals cfg clock kind (text "e") (stamps.map fun p => freshHit cfg p.1 p.2) := by
  have hall : ∀ {P : Hit ν → Prop}, (∀ ts id, kind ts → P (freshHit cfg ts id)) →
      ∀ hit ∈ stamps.map fun p => freshHit cfg p.1 p.2, P hit := by
    intro P hP hit hhit
    obtain ⟨p, hp, rfl⟩ := List.mem_map.1 hhit
    exact hP p.1 p.2 (h p hp)
  constructor
  case nonempty => simpa using hne
  case entity => exact hall fun ts id _ => rfl
  case readable => exact hall fun ts id _ => ⟨⟨0, rfl⟩, fun _ => ⟨_, sortKey_governed cfg clock ts id⟩⟩
  case governed =>
    exact hall fun ts id hkind =>
      ⟨default, fresh ts id, applyGovernanceDefaults_fresh cfg default (hkeeps ts hkind) id⟩
  case stamped => exact hall fun ts id hkind => ⟨ts, stamped_freshHit cfg ts id, hkind⟩
  case tied => exact ⟨0, cfg.defaultConfidence, hall fun ts id _ => ⟨rfl, rfl⟩⟩

/-- Of two rivals with the ids `a` and `b` the first wins, unless the second is fresher. -/
theorem winnerOf_pair (cfg : GovernanceConfig ν) (clock : Clock ν) (sha1 : Text → Text) (e : Text)
    {ts ts' : Text}
    (h : ¬ parseIsoZ clock (.str ts : Value ν) < parseIsoZ clock (.str ts')) :
    (winnerOf cfg clock sha1 e
      [freshHit cfg ts (text "a"), freshHit cfg ts' (text "b")]).hit = freshHit cfg ts (text "a") := by
  have hids : text "a" ≤ text "b" := by decide
  have hle : (keyOf cfg clock (freshHit cfg ts (text "a"))).le
      (keyOf cfg clock (freshHit cfg ts' (text "b"))) := by
    rw [keyOf_freshHit, keyOf_freshHit]
    refine Prod.Lex.toLex_le_toLex'.2 ⟨le_refl _, fun _ => ?_⟩
    refine Prod.Lex.toLex_le_toLex'.2 ⟨le_refl _, fun _ => ?_⟩
    refine Prod.Lex.toLex_le_toLex'.2 ⟨OrderDual.toDual_le_toDual.2 (not_lt.1 h), fun _ => ?_⟩
    exact Prod.Lex.toLex_le_toLex'.2 ⟨le_refl _, fun _ => hids⟩
  have hsorted : [freshHit cfg ts (text "a"), freshHit cfg ts' (text "b")].Pairwise
      fun a b => (keyOf cfg clock a).le (keyOf cfg clock b) := List.pairwise_pair.2 hle
  have hranked : ranked cfg clock [freshHit cfg ts (text "a"), freshHit cfg ts' (text "b")] =
      [freshHit cfg ts (text "a"), freshHit cfg ts' (text "b")] := hsorted.insertionSort_eq
  rw [winnerOf_eq hranked]

/-! ## The tie-break -/

/-- The winner of rivals with timestamps of a kind is always the latest. -/
def Chronological (cfg : GovernanceConfig ν) (clock : Clock ν) (sha1 : Text → Text)
    (kind : Text → Prop) : Prop :=
  ∀ e hits, Rivals cfg clock kind e hits →
    ∃ s, resolveConflicts cfg clock sha1 hits = .ok [s] ∧ Latest hits s.hit

omit [Python ν] [LinearOrder ν] in
theorem parseIsoZ_eq {clock : Clock ν} {ts : Text} (hne : ts ≠ []) {t : DateTime} {i : Int}
    (h : DateTime.fromisoformat (completed ts) = some t) (hi : t.instant = some i) :
    parseIsoZ clock (.str ts) = clock.timestamp i := by
  have hnumber : clock.ofDateTime t = some (clock.timestamp i) := by
    unfold Clock.ofDateTime
    rw [hi]
  show (if ts = [] then 0 else
    ((DateTime.fromisoformat (completed ts)).bind clock.ofDateTime).getD 0) = _
  rw [if_neg hne, h, Option.bind_some, hnumber]
  rfl

/-- `_parse_iso_z` reads the instant that a timestamp denotes. -/
def ReadRight (ts : Text) : Prop :=
  ∃ t i, DateTime.fromisoformat (completed ts) = some t ∧ t.instant = some i ∧ denotes ts = some i

omit [Python ν] in
/-- Timestamps that are read right are ordered as their instants, if `timestamp()` keeps instants
apart. -/
theorem faithful_of_readRight {clock : Clock ν} {kind : Text → Prop}
    (hmono : ∀ i j, i < j → clock.timestamp i < clock.timestamp j)
    (hright : ∀ ts, kind ts → ReadRight ts) : Faithful clock kind := by
  have hparse : ∀ ts i, kind ts → denotes ts = some i →
      parseIsoZ clock (.str ts : Value ν) = clock.timestamp i := by
    intro ts i hkind hi
    obtain ⟨t, j, ht, hj, hdenotes⟩ := hright ts hkind
    rw [hdenotes] at hi
    cases hi
    refine parseIsoZ_eq ?_ ht hj
    rintro rfl
    cases hdenotes
  constructor
  case denotes =>
    intro ts hkind
    obtain ⟨-, i, -, -, hi⟩ := hright ts hkind
    exact ⟨i, hi⟩
  case lt =>
    intro ts ts' i j hkind hkind' hi hj hlt
    rw [hparse ts i hkind hi, hparse ts' j hkind' hj]
    exact hmono i j hlt

theorem not_endsWithZ {ts : Text} (h : 'Z' ∉ ts) : endsWithZ ts = false :=
  decide_eq_false fun hlast => h (List.mem_of_getLast? hlast)

theorem drop_isoformat (t : DateTime) : t.isoformat.drop 10 = 'T' ::
    (DateTime.timeText (t.wall % dayMicros) ++ (t.offset.map DateTime.offsetText).getD []) := by
  unfold DateTime.isoformat
  exact List.drop_left' (DateTime.length_dateText _)

theorem denotes_isoformat (t : DateTime) : denotes t.isoformat = some (t.wall - t.offset.getD 0) := by
  unfold denotes
  rw [DateTime.fromisoformat_isoformat]
  rfl

/-- A time with an offset, as `isoformat` writes it, is read right. -/
theorem readRight_isoformat {t : DateTime} {o : Int} (ho : t.offset = some o) :
    ReadRight t.isoformat := by
  have hsign : '+' ∈ t.isoformat.drop 10 ∨ '-' ∈ t.isoformat.drop 10 := by
    rw [drop_isoformat, ho]
    by_cases hneg : o < 0
    · right
      simp [DateTime.offsetText, hneg]
    · left
      simp [DateTime.offsetText, hneg]
  have hcompleted : completed t.isoformat = t.isoformat := by
    unfold completed
    rw [not_endsWithZ (notMem_isoformat t), if_neg (by decide), if_neg]
    rintro ⟨hplus, hminus⟩
    rcases hsign with h | h
    · exact hplus h
    · exact hminus h
  refine ⟨t, t.wall - o, ?_, ?_, ?_⟩
  · rw [hcompleted, DateTime.fromisoformat_isoformat]
  · unfold DateTime.instant
    rw [ho]
    rfl
  · rw [denotes_isoformat, ho]
    rfl

/-- A time without offset is completed to one of UTC. -/
theorem readRight_isoformat_naive {t : DateTime} (ho : t.offset = none) : ReadRight t.isoformat := by
  have hsign : '+' ∉ t.isoformat.drop 10 ∧ '-' ∉ t.isoformat.drop 10 := by
    have hplus := DateTime.notMem_timeText (n := t.wall % dayMicros) (c := '+') rfl (by decide) (by decide)
    have hminus := DateTime.notMem_timeText (n := t.wall % dayMicros) (c := '-') rfl (by decide) (by decide)
    rw [drop_isoformat, ho]
    simp [hplus, hminus]
  have hcompleted : completed t.isoformat = (asUtc t).isoformat := by
    unfold completed
    rw [not_endsWithZ (notMem_isoformat t), if_neg (by decide), if_pos hsign]
    unfold DateTime.isoformat
    rw [ho, Option.map_none, Option.getD_none, List.append_nil, List.append_assoc, List.cons_append]
    rfl
  refine ⟨asUtc t, t.wall, ?_, ?_, ?_⟩
  · rw [hcompleted, DateTime.fromisoformat_isoformat]
  · show some ((t.wall : Int) - 0) = _
    rw [sub_zero]
  · rw [denotes_isoformat, ho]
    show some ((t.wall : Int) - 0) = _
    rw [sub_zero]

end

/-! ## A date on a host behind UTC -/

namespace Sample

/-- The floats of the samples for the defaults. -/
instance floats : Python Rat := instPythonRat

/-- A host whose local time is five hours behind UTC. -/
def behind : Clock Rat where
  timestamp i := i
  localTimestamp wall := some (wall + 18000000000)

def dateText : Text := text "2024-01-02"

def morningText : Text := text "2024-01-02T03:00:00Z"

/-- A hit of a date, and one of three o'clock in the morning of that day in UTC. -/
def rivals : List (Hit Rat) := [freshHit cfg dateText (text "a"), freshHit cfg morningText (text "b")]

theorem date_not_before : ¬ parseIsoZ behind (.str dateText : Value Rat) <
    parseIsoZ behind (.str morningText) := by decide +kernel

theorem keeps_morning : ∀ ts, ts = morningText → Keeps ts := by
  rintro ts rfl
  decide +kernel

end Sample

end ProjectMaya.MemoryGovernance
