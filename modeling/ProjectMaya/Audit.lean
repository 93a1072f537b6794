import ProjectMaya.Logic.JsonAscii
import ProjectMaya.Logic.LineLog

/-! # The audit file

`LocalJsonlAuditSink.write` appends a record and a line break to a file that other processes append
to.  It neither takes a lock nor looks at how the file ends.  In every run in which no record is
begun where the last line is not ended, and no text holds two surrogates that are read as one
character, each record whose `write` has returned is a line of its own that parses to it
(`kept_of_orderly`). -/

namespace ProjectMaya.Audit

open Logic Logic.JsonRead Logic.LineLog

/-! ## Records -/

structure AuditRecord where
  eventType : Text
  decision : Text
  reasonCode : Text
  actorId : Text
  capability : Text
  target : Text
  operation : Text
  dataClassification : Text
  idempotencyKey : Option Text := none
  metadata : List (Text × Text) := []
  timestamp : Text
  schemaVersion : Int := 1
  /-- A mapping has a key once. -/
  distinct : (metadata.map Prod.fst).Nodup := by decide
  deriving DecidableEq

section

variable (ν : Type) [FloatText ν]

def optional : Option Text → Value ν
  | none => .null
  | some s => .str s

/-- `dict(metadata)`, in this order. -/
def metadataDict (metadata : List (Text × Text)) : Value ν :=
  .obj (metadata.map fun m => (m.1, .str m.2))

/-- The dict that `to_json` writes. -/
def AuditRecord.members (r : AuditRecord) (metadata : List (Text × Text)) : List (Text × Value ν) :=
  [(chars "schema_version".toList, .int r.schemaVersion),
    (chars "timestamp".toList, .str r.timestamp),
    (chars "event_type".toList, .str r.eventType),
    (chars "decision".toList, .str r.decision),
    (chars "reason_code".toList, .str r.reasonCode),
    (chars "actor_id".toList, .str r.actorId),
    (chars "capability".toList, .str r.capability),
    (chars "target".toList, .str r.target),
    (chars "operation".toList, .str r.operation),
    (chars "data_classification".toList, .str r.dataClassification),
    (chars "idempotency_key".toList, optional ν r.idempotencyKey),
    (chars "metadata".toList, metadataDict ν metadata)]

/-- `AuditRecord.to_json` -/
def AuditRecord.toJson (r : AuditRecord) : Text :=
  write inAscii [' '] (sortKeys (.obj (r.members ν r.metadata)))

/-! ## The sink -/

def newline : Point := .char '\n'

variable {P : Type} [DecidableEq P] (buffer : Nat)

/-- The writes of the processes, and what reaches the file of them. -/
def run (s : State Point AuditRecord P) (events : List (Event AuditRecord P)) :
    Option (State Point AuditRecord P) :=
  LineLog.run (ended (AuditRecord.toJson ν) newline) buffer s events

/-! ## What is claimed of it -/

/-- The dict is that of the record, in whichever order. -/
def AuditRecord.IsDict (r : AuditRecord) (v : Value ν) : Prop :=
  ∃ metadata members, metadata.Perm r.metadata ∧ members.Perm (r.members ν metadata) ∧
    v = .obj members

/-- `json.loads` of the line gives the record. -/
def Parses (line : Text) (r : AuditRecord) : Prop := ∃ v : Value ν, loads line = some v ∧ r.IsDict ν v

/-- Each record whose `write` has returned is a line of its own that parses to it. -/
def Kept (s : State Point AuditRecord P) : Prop :=
  ∃ lines, lines.Subperm (s.file.splitOn newline) ∧ List.Forall₂ (Parses ν) lines s.returned

/-- The records survive whatever is cut short and comes between. -/
def Survives (P : Type) [DecidableEq P] : Prop :=
  ∀ (events : List (Event AuditRecord P)) (s : State Point AuditRecord P),
    run ν buffer (start AuditRecord P []) events = some s → Kept ν s

/-- No record is begun where the last line is not ended. -/
def NoneBegunUnended (s : State Point AuditRecord P) (events : List (Event AuditRecord P)) : Prop :=
  Orderly (ended (AuditRecord.toJson ν) newline) buffer newline s events

end

def AuditRecord.texts (r : AuditRecord) : List Text :=
  [r.timestamp, r.eventType, r.decision, r.reasonCode, r.actorId, r.capability, r.target,
    r.operation, r.dataClassification] ++ (r.idempotencyKey.toList ++
      r.metadata.flatMap fun m => [m.1, m.2])

/-- No text of the record is read back as another one. -/
def AuditRecord.Unpaired (r : AuditRecord) : Prop := ∀ s ∈ r.texts, JsonRead.Unpaired s

instance : DecidablePred AuditRecord.Unpaired := fun r =>
  inferInstanceAs (Decidable (∀ s ∈ r.texts, JsonRead.Unpaired s))

/-! ## One record -/

section

variable {ν : Type} {r : AuditRecord}

/-- The metadata with its keys sorted. -/
def sorted (metadata : List (Text × Text)) : List (Text × Text) :=
  metadata.insertionSort fun a b => a.1.map Point.code ≤ b.1.map Point.code

theorem sortKeys_metadataDict (metadata : List (Text × Text)) :
    sortKeys (metadataDict ν metadata) = metadataDict ν (sorted metadata) := by
  unfold metadataDict sorted
  rw [sortKeys, sortMembers_eq_map, List.map_map]
  congr 1
  exact (List.map_insertionSort _ keyLe _ metadata fun a _ b _ => Iff.rfl).symm

theorem sortMembers_members (r : AuditRecord) (metadata : List (Text × Text)) :
    sortMembers (r.members ν metadata) = r.members ν (sorted metadata) := by
  have hoptional : sortKeys (optional ν r.idempotencyKey) = optional ν r.idempotencyKey := by
    cases r.idempotencyKey <;> rfl
  unfold AuditRecord.members
  simp only [sortMembers, sortKeys, hoptional, sortKeys_metadataDict]

/-- The value that `to_json` writes. -/
theorem sortKeys_members (r : AuditRecord) :
    sortKeys (.obj (r.members ν r.metadata)) =
      .obj ((r.members ν (sorted r.metadata)).insertionSort keyLe) := by
  rw [sortKeys, sortMembers_members]

theorem perm_sorted (metadata : List (Text × Text)) : (sorted metadata).Perm metadata :=
  List.perm_insertionSort _ _

def memberNames : List Text :=
  ["schema_version", "timestamp", "event_type", "decision", "reason_code", "actor_id", "capability",
    "target", "operation", "data_classification", "idempotency_key", "metadata"].map
      fun s => chars s.toList

theorem nodup_memberNames : memberNames.Nodup := by decide

theorem names_members (r : AuditRecord) (metadata : List (Text × Text)) :
    (r.members ν metadata).map Prod.fst = memberNames := rfl

theorem collapse_metadataDict {metadata : List (Text × Text)} (h : (metadata.map Prod.fst).Nodup) :
    collapse (metadataDict ν metadata) = metadataDict ν metadata := by
  refine collapse_obj ?_ fun m hm => ?_
  · rw [List.map_map]
    exact h
  · obtain ⟨x, -, rfl⟩ := List.mem_map.1 hm
    rfl

theorem collapse_member {metadata : List (Text × Text)} (h : (metadata.map Prod.fst).Nodup)
    {m : Text × Value ν} (hm : m ∈ r.members ν metadata) : collapse m.2 = m.2 := by
  have hoptional : collapse (optional ν r.idempotencyKey) = optional ν r.idempotencyKey := by
    cases r.idempotencyKey <;> rfl
  simp only [AuditRecord.members, List.mem_cons, List.not_mem_nil, or_false] at hm
  rcases hm with rfl | rfl | rfl | rfl | rfl | rfl | rfl | rfl | rfl | rfl | rfl | rfl
  all_goals first | rfl | exact hoptional | exact collapse_metadataDict h

theorem fits_metadataDict {metadata : List (Text × Text)}
    (h : ∀ m ∈ metadata, JsonRead.Unpaired m.1 ∧ JsonRead.Unpaired m.2) :
    inAscii.FitsValue (metadataDict ν metadata) := by
  unfold metadataDict
  rw [inAscii.fits_obj]
  intro m hm
  obtain ⟨x, hx, rfl⟩ := List.mem_map.1 hm
  exact h x hx

theorem fits_member (h : r.Unpaired) {m : Text × Value ν}
    (hm : m ∈ r.members ν (sorted r.metadata)) : inAscii.Fits m.1 ∧ inAscii.FitsValue m.2 := by
  have hhead : ∀ s ∈ [r.timestamp, r.eventType, r.decision, r.reasonCode, r.actorId, r.capability,
      r.target, r.operation, r.dataClassification], JsonRead.Unpaired s :=
    fun s hs => h s (List.mem_append_left _ hs)
  have hoptional : inAscii.FitsValue (optional ν r.idempotencyKey) := by
    cases hkey : r.idempotencyKey with
    | none => exact trivial
    | some s =>
      refine h s (List.mem_append_right _ (List.mem_append_left _ ?_))
      rw [hkey]
      exact List.mem_singleton_self s
  have hmetadata : inAscii.FitsValue (metadataDict ν (sorted r.metadata)) := by
    refine fits_metadataDict fun m hm => ?_
    have hmem : ∀ s ∈ [m.1, m.2], JsonRead.Unpaired s := fun s hs =>
      h s (List.mem_append_right _ (List.mem_append_right _
        (List.mem_flatMap.2 ⟨m, (perm_sorted r.metadata).mem_iff.1 hm, hs⟩)))
    exact ⟨hmem m.1 (by simp), hmem m.2 (by simp)⟩
  refine ⟨?_, ?_⟩
  · have hname : m.1 ∈ memberNames := names_members r (sorted r.metadata) ▸ List.mem_map_of_mem hm
    obtain ⟨name, -, hname⟩ := List.mem_map.1 hname
    rw [← hname]
    exact unpaired_chars _
  · simp only [AuditRecord.members, List.mem_cons, List.not_mem_nil, or_false] at hm
    rcases hm with rfl | rfl | rfl | rfl | rfl | rfl | rfl | rfl | rfl | rfl | rfl | rfl
    all_goals first
      | exact trivial
      | exact hoptional
      | exact hmetadata
      | exact hhead _ (by simp)

variable [FloatText ν]

theorem newline_notMem_toJson (r : AuditRecord) : newline ∉ r.toJson ν := by
  intro hmem
  have hblank : ∀ c ∈ [' '], Printable c := List.forall_mem_singleton.2 (by decide)
  obtain ⟨c, hc, hprintable⟩ := printable_write hblank _ _ hmem
  cases hc
  revert hprintable
  decide

/-- What `to_json` writes is read as the record. -/
theorem parses_toJson (h : r.Unpaired) : Parses ν (r.toJson ν) r := by
  have hblank : ∀ c ∈ [' '], isBlank c = true := List.forall_mem_singleton.2 rfl
  have hsorted := perm_sorted r.metadata
  have hperm := List.perm_insertionSort keyLe (r.members ν (sorted r.metadata))
  have hfits : inAscii.FitsValue (sortKeys (.obj (r.members ν r.metadata))) := by
    rw [sortKeys_members, inAscii.fits_obj]
    exact fun m hm => fits_member h (hperm.mem_iff.1 hm)
  have hcollapse : collapse (sortKeys (.obj (r.members ν r.metadata))) =
      .obj ((r.members ν (sorted r.metadata)).insertionSort keyLe) := by
    rw [sortKeys_members]
    refine collapse_obj ?_ fun m hm => ?_
    · rw [(hperm.map Prod.fst).nodup_iff, names_members]
      exact nodup_memberNames
    · exact collapse_member (((hsorted.map Prod.fst).nodup_iff).2 r.distinct) (hperm.mem_iff.1 hm)
  refine ⟨.obj ((r.members ν (sorted r.metadata)).insertionSort keyLe), ?_, sorted r.metadata, _,
    hsorted, hperm, rfl⟩
  unfold AuditRecord.toJson
  rw [loads_write hblank hfits, hcollapse]

/-! ## All records -/

variable {P : Type} [DecidableEq P] {buffer : Nat}

/-- In every run in which no record is begun where the last line is not ended, and no text is read
back as another one, each record whose `write` has returned is a line that parses to it. -/
theorem kept_of_orderly {file : Text} {events : List (Event AuditRecord P)}
    {s : State Point AuditRecord P}
    (horderly : NoneBegunUnended ν buffer (start AuditRecord P file) events)
    (hwrite : ∀ p r, .write p r ∈ events → r.Unpaired)
    (hrun : run ν buffer (start AuditRecord P file) events = some s) : Kept ν s := by
  refine ⟨s.returned.map (AuditRecord.toJson ν), ?_, ?_⟩
  · exact kept_of_run newline_notMem_toJson horderly hrun
  · have hunpaired := returned_of_run hwrite hrun
    rw [List.forall₂_map_left_iff, List.forall₂_same]
    exact fun r hr => parses_toJson (hunpaired r hr)

end

namespace Sample

/-- A float. -/
inductive Zero where
  | zero

def zeroForm : Form := .literal ⟨false, ['0'], ['0'], none⟩

theorem zeroForm_ne_nan : zeroForm ≠ .nan := fun h => by cases h

theorem zeroForm_ne_infinity : zeroForm ≠ .infinity := fun h => by cases h

theorem zeroForm_ne_negInfinity : zeroForm ≠ .negInfinity := fun h => by cases h

theorem zeroForm_valid {l : Literal} (h : zeroForm = .literal l) : l.Valid := by
  cases h
  refine ⟨⟨.inl rfl, ?_, fun _ _ h => ?_⟩, .inl (List.cons_ne_nil _ _)⟩
  · exact List.forall_mem_cons.2 ⟨rfl, List.forall_mem_singleton.2 rfl⟩
  · cases h

instance : FloatText Zero where
  nan := .zero
  infinity := .zero
  negInfinity := .zero
  ofLiteral _ := .zero
  form _ := zeroForm
  nan_of_form h := absurd h zeroForm_ne_nan
  infinity_of_form h := absurd h zeroForm_ne_infinity
  negInfinity_of_form h := absurd h zeroForm_ne_negInfinity
  valid_of_form h := zeroForm_valid h
  ofLiteral_of_form _ := rfl

def record : AuditRecord where
  eventType := chars "authorization.runtime".toList
  decision := chars "deny".toList
  reasonCode := chars "no_rule".toList
  actorId := chars "alice".toList
  capability := chars "tool".toList
  target := chars "web".toList
  operation := chars "call".toList
  dataClassification := chars "internal".toList
  timestamp := chars "2026-01-01T00:00:00+00:00".toList

/-- A process stops with one character in the file, and the record is written again. -/
def torn : List (Event AuditRecord Unit) :=
  [.write () record, .crash () 1, .write () record, .append () 8192, .done ()]

/-- One process writes a record in two appends, then the other does and stops before it returns. -/
def inTurn : List (Event AuditRecord Bool) :=
  [.write false record, .append false 100, .write true record, .append false 8192,
    .append true 8192, .done false, .crash true 0]

def after (events : List (Event AuditRecord Unit)) : Option (State Point AuditRecord Unit) :=
  run Zero 8192 (start AuditRecord Unit []) events

theorem lines_torn : (after torn).map (fun s => s.file.splitOn newline) =
    some [.char '{' :: record.toJson Zero, []] := by decide +kernel

theorem returned_torn : (after torn).map (fun s => s.returned) = some [record] := by decide +kernel

theorem loads_torn : (loads (.char '{' :: record.toJson Zero) : Option (Value Zero)).isNone = true := by
  decide +kernel

theorem orderly_inTurn : NoneBegunUnended Zero 8192 (start AuditRecord Bool []) inTurn := by
  unfold NoneBegunUnended
  decide +kernel

theorem record_of_write {p : Bool} {r : AuditRecord} (h : .write p r ∈ inTurn) : r = record := by
  simp only [inTurn, List.mem_cons, List.not_mem_nil, reduceCtorEq, or_false, false_or,
    Event.write.injEq] at h
  rcases h with h | h
  · exact h.2
  · exact h.2

end Sample

open Sample in
theorem inTurn_kept :
    ∃ s, run Zero 8192 (start AuditRecord Bool []) inTurn = some s ∧ Kept Zero s := by
  have hsome : (run Zero 8192 (start AuditRecord Bool []) inTurn).isSome = true := by
    decide +kernel
  obtain ⟨s, hs⟩ := Option.isSome_iff_exists.1 hsome
  refine ⟨s, hs, kept_of_orderly orderly_inTurn (fun p r h => ?_) hs⟩
  rw [record_of_write h]
  decide +kernel

open Sample in
/-- The record that returned is in no line of its own. -/
theorem sample_not_survives : ¬ Survives Zero 8192 Unit := by
  intro hsurvives
  obtain ⟨s, hs, hlines⟩ := Option.map_eq_some_iff.1 lines_torn
  obtain ⟨s', hs', hreturned⟩ := Option.map_eq_some_iff.1 returned_torn
  obtain rfl := Option.some.inj (hs.symm.trans hs')
  obtain ⟨lines, hsub, hparses⟩ := hsurvives torn s hs
  rw [hlines] at hsub
  rw [hreturned] at hparses
  obtain ⟨line, _, ⟨v, hloads, -⟩, -, rfl⟩ := List.forall₂_cons_right_iff.1 hparses
  have hline : line ∈ [.char '{' :: record.toJson Zero, []] := hsub.subset List.mem_cons_self
  rcases List.mem_cons.1 hline with rfl | hline
  · have hnone := loads_torn
    rw [hloads] at hnone
    cases hnone
  · obtain rfl := List.mem_singleton.1 hline
    cases hloads

end ProjectMaya.Audit
