import ProjectMaya.Documents
import Mathlib.Data.List.Find

/-! # The JSON retriever

`LocalJsonRetriever` holds its records in memory and writes all of them to one file after every
change. The file is replaced in one step, the memory is changed before: a call that raises later
has changed it already, unless it put in what was there (`atomic_iff`). -/

namespace ProjectMaya.LocalJson

open Logic
open ProjectMaya.Vector (Text text Value Doc Python Failure documentId keyLe)

/-- What `json.dump` makes of a float, or of an object in its place. -/
class Encoder (ν : Type) where
  /-- It does not raise. -/
  writable : ν → Bool
  text : ν → Text
  /-- `sys.get_int_max_str_digits()`; 0 is no limit. -/
  maxStrDigits : Nat

section

variable {ν : Type}

section

variable [Encoder ν]

mutual

/-- `json.dump` does not raise. -/
def Value.writable : Value ν → Bool
  | .list _ items => writableItems items
  | .dict fields => writableFields fields
  | .int n => Encoder.maxStrDigits ν = 0 || (Nat.toDigits 10 n.natAbs).length ≤ Encoder.maxStrDigits ν
  | .float x => Encoder.writable x
  | .null | .bool _ | .str _ => true

def writableItems : List (Value ν) → Bool
  | [] => true
  | v :: rest => Value.writable v && writableItems rest

def writableFields : List (Text × Value ν) → Bool
  | [] => true
  | (_, v) :: rest => Value.writable v && writableFields rest

end

end

/-! ## Equal dictionaries -/

mutual

/-- The value with the keys of its dictionaries in order. -/
def canon : Value ν → Value ν
  | .list tuple items => .list tuple (canonItems items)
  | .dict fields => .dict ((canonFields fields).insertionSort keyLe)
  | .null => .null
  | .bool b => .bool b
  | .int n => .int n
  | .float x => .float x
  | .str s => .str s

def canonItems : List (Value ν) → List (Value ν)
  | [] => []
  | v :: rest => canon v :: canonItems rest

def canonFields : List (Text × Value ν) → List (Text × Value ν)
  | [] => []
  | (k, v) :: rest => (k, canon v) :: canonFields rest

end

/-- They are equal; the order of keys does not count. -/
def Same (d d' : Doc ν) : Prop := canon (.dict d.rows) = canon (.dict d'.rows)

theorem Same.refl (d : Doc ν) : Same d d := rfl

mutual

theorem normal_canon : ∀ v : Value ν, (canon v).normal = v.normal
  | .list _ items => by simp only [canon, Value.normal, normal_canonItems items]
  | .dict fields => by
    have hsort : Vector.normalFields ((canonFields fields).insertionSort keyLe) =
        (Vector.normalFields fields).insertionSort keyLe := by
      rw [Vector.normalFields_eq_map,
        List.map_insertionSort keyLe keyLe (fun f => (f.1, f.2.normal)) _ (fun _ _ _ _ => Iff.rfl),
        ← Vector.normalFields_eq_map, normal_canonFields fields]
    simp only [canon, Value.normal, hsort, Vector.insertionSort_insertionSort]
  | .null => rfl
  | .bool _ => rfl
  | .int _ => rfl
  | .float _ => rfl
  | .str _ => rfl

theorem normal_canonItems : ∀ items : List (Value ν),
    Vector.normalItems (canonItems items) = Vector.normalItems items
  | [] => rfl
  | v :: rest => by
    simp only [canonItems, Vector.normalItems, normal_canon v, normal_canonItems rest]

theorem normal_canonFields : ∀ fields : List (Text × Value ν),
    Vector.normalFields (canonFields fields) = Vector.normalFields fields
  | [] => rfl
  | (k, v) :: rest => by
    simp only [canonFields, Vector.normalFields, normal_canon v, normal_canonFields rest]

end

/-- Equal dictionaries have the same JSON text. -/
theorem Same.normal_eq {d d' : Doc ν} (h : Same d d') : d.normal = d'.normal := by
  apply Table.ext
  have hv := congrArg Value.normal h
  rw [normal_canon, normal_canon] at hv
  exact Value.dict.inj hv

mutual

/-- There is no tuple in it. -/
def plain : Value ν → Bool
  | .list tuple items => !tuple && plainItems items
  | .dict fields => plainFields fields
  | _ => true

def plainItems : List (Value ν) → Bool
  | [] => true
  | v :: rest => plain v && plainItems rest

def plainFields : List (Text × Value ν) → Bool
  | [] => true
  | (_, v) :: rest => plain v && plainFields rest

end

theorem canonFields_eq_map (fields : List (Text × Value ν)) :
    canonFields fields = fields.map fun f => (f.1, canon f.2) := by
  induction fields with
  | nil => rfl
  | cons f rest ih =>
    obtain ⟨k, v⟩ := f
    rw [canonFields, ih]
    rfl

mutual

theorem canon_normal : ∀ v : Value ν, plain v = true → canon v.normal = canon v
  | .list tuple items, h => by
    rw [plain, Bool.and_eq_true, Bool.not_eq_true'] at h
    simp only [Value.normal, canon, canonItems_normalItems items h.2, h.1]
  | .dict fields, h => by
    have hsort : canonFields ((Vector.normalFields fields).insertionSort keyLe) =
        (canonFields fields).insertionSort keyLe := by
      rw [canonFields_eq_map,
        List.map_insertionSort keyLe keyLe (fun f => (f.1, canon f.2)) _ (fun _ _ _ _ => Iff.rfl),
        ← canonFields_eq_map, canonFields_normalFields fields h]
    simp only [Value.normal, canon, hsort, Vector.insertionSort_insertionSort]
  | .null, _ => rfl
  | .bool _, _ => rfl
  | .int _, _ => rfl
  | .float _, _ => rfl
  | .str _, _ => rfl

theorem canonItems_normalItems : ∀ items : List (Value ν), plainItems items = true →
    canonItems (Vector.normalItems items) = canonItems items
  | [], _ => rfl
  | v :: rest, h => by
    rw [plainItems, Bool.and_eq_true] at h
    simp only [Vector.normalItems, canonItems, canon_normal v h.1, canonItems_normalItems rest h.2]

theorem canonFields_normalFields : ∀ fields : List (Text × Value ν), plainFields fields = true →
    canonFields (Vector.normalFields fields) = canonFields fields
  | [], _ => rfl
  | (k, v) :: rest, h => by
    rw [plainFields, Bool.and_eq_true] at h
    simp only [Vector.normalFields, canonFields, canon_normal v h.1,
      canonFields_normalFields rest h.2]

end

/-- `self._records` -/
abbrev Records (ν : Type) := Table (Text × Doc ν) Text Prod.fst

namespace Records

def get? (t : Records ν) (id : Text) : Option (Doc ν) := (t.find? id).map Prod.snd

/-- `self._records[id] = doc` -/
def put (t : Records ν) (id : Text) (d : Doc ν) : Records ν :=
  t.upsert (id, d) (fun r => (r.1, d)) fun _ => rfl

theorem get?_put (t : Records ν) (id id' : Text) (d : Doc ν) :
    (t.put id d).get? id' = if id' = id then some d else t.get? id' := by
  have hval : (t.upserted (id, d) fun r => (r.1, d)).2 = d := by
    unfold Table.upserted
    cases t.find? id <;> rfl
  show ((t.upsert (id, d) (fun r => (r.1, d)) fun _ => rfl).find? id').map Prod.snd = _
  rw [Table.find?_upsert]
  by_cases h : id' = id
  · rw [if_pos h, if_pos h, Option.map_some, hval]
  · rw [if_neg h, if_neg h]
    rfl

theorem mem_put {t : Records ν} {id : Text} {d : Doc ν} {r : Text × Doc ν}
    (h : r ∈ t.put id d) : r ∈ t ∨ r = (id, d) := by
  rcases Table.mem_upsert.mp h with ⟨hr, -⟩ | hr
  · exact .inl hr
  · refine .inr (hr.trans ?_)
    unfold Table.upserted
    cases hf : t.find? id with
    | none => rfl
    | some x =>
      obtain ⟨-, hx⟩ := Table.find?_eq_some.mp hf
      exact Prod.ext hx rfl

theorem get?_eq_some {t : Records ν} {id : Text} {d : Doc ν} :
    t.get? id = some d ↔ (id, d) ∈ t := by
  unfold get?
  constructor
  · intro h
    obtain ⟨r, hr, rfl⟩ := Option.map_eq_some_iff.mp h
    obtain ⟨hmem, rfl⟩ := Table.find?_eq_some.mp hr
    exact hmem
  · intro h
    rw [Table.find?_eq_some.mpr ⟨h, rfl⟩]
    rfl

/-- They hold equal records under the same ids. -/
def Agree (t t' : Records ν) : Prop := ∀ id, Option.Rel Same (t.get? id) (t'.get? id)

end Records

/-! ## The retriever -/

variable [Python ν]

/-- A `LocalJsonRetriever`: every record is kept under its own id. -/
structure Retriever (ν : Type) [Python ν] where
  records : Records ν
  keyed : ∀ r ∈ records, documentId r.2 = .ok r.1

def Retriever.empty : Retriever ν where
  records := Table.empty
  keyed r h := by cases h

omit [Python ν] in
/-- What is given for a document; `invalid` has no `get`. -/
inductive Given (ν : Type) where
  | doc (d : Doc ν)
  | invalid

/-- `_document_id(doc)`, and the document. -/
def Given.entry : Given ν → Except Failure (Text × Doc ν)
  | .invalid => .error .other
  | .doc d => do
    let id ← documentId d
    return (id, d)

theorem entry_eq_ok {g : Given ν} {r : Text × Doc ν} :
    g.entry = .ok r ↔ g = .doc r.2 ∧ documentId r.2 = .ok r.1 := by
  cases g with
  | invalid =>
    refine ⟨fun h => (by cases h), ?_⟩
    rintro ⟨h, -⟩
    cases h
  | doc d =>
    unfold Given.entry
    rw [Logic.bind_eq_ok]
    constructor
    · rintro ⟨id, hid, h⟩
      cases h
      exact ⟨rfl, hid⟩
    · rintro ⟨h, hid⟩
      cases h
      exact ⟨r.1, hid, rfl⟩

/-- `self._records[_document_id(doc)] = dict(doc)` -/
def Retriever.add (m : Retriever ν) (g : Given ν) : Except Failure (Retriever ν) :=
  match h : g.entry with
  | .error e => .error e
  | .ok r => .ok
    { records := m.records.put r.1 r.2
      keyed := by
        intro x hx
        rcases Records.mem_put hx with hx | rfl
        · exact m.keyed x hx
        · exact (entry_eq_ok.mp h).2 }

/-- The loop over the documents; what was added before one that is not valid stays. -/
def Retriever.addAll (m : Retriever ν) : List (Given ν) → Except Failure Unit × Retriever ν
  | [] => (.ok (), m)
  | g :: rest =>
    match m.add g with
    | .error e => (.error e, m)
    | .ok m' => m'.addAll rest

omit [Python ν] in
/-- The text of the file, as far as `_load` looks at it. -/
inductive Content (ν : Type) where
  /-- A JSON list. -/
  | list (items : List (Given ν))
  /-- JSON, but no list. -/
  | value
  /-- No UTF-8 or no JSON. -/
  | broken

/-- The records, unless the loop has raised. -/
def opened (o : Except Failure Unit × Retriever ν) : Except Failure (Retriever ν) :=
  match o.1 with
  | .error e => .error e
  | .ok () => .ok o.2

theorem opened_eq_ok {o : Except Failure Unit × Retriever ν} {m : Retriever ν} :
    opened o = .ok m ↔ o.1 = .ok () ∧ o.2 = m := by
  obtain ⟨r, m'⟩ := o
  unfold opened
  cases r with
  | error e => exact ⟨fun h => (by cases h), fun h => (by cases h.1)⟩
  | ok u => exact ⟨fun h => ⟨rfl, Except.ok.inj h⟩, fun h => congrArg Except.ok h.2⟩

/-- `_load` of a new retriever. -/
def load : Option (Content ν) → Except Failure (Retriever ν)
  | none => .ok .empty
  | some .broken => .error .other
  | some .value => .error (.valueError "local retriever store must contain a JSON list")
  | some (.list items) => opened (Retriever.empty.addAll items)

/-! ### What the loop leaves -/

/-- The documents before the first one that is not valid, under their ids. -/
def valid : List (Given ν) → List (Text × Doc ν)
  | [] => []
  | g :: rest =>
    match g.entry with
    | .error _ => []
    | .ok r => r :: valid rest

omit [Python ν] in
/-- The last document with the id. -/
def latest (puts : List (Text × Doc ν)) (id : Text) : Option (Doc ν) :=
  (puts.reverse.find? fun r => r.1 = id).map Prod.snd

theorem add_eq_ok {m m' : Retriever ν} {g : Given ν} (h : m.add g = .ok m') :
    ∃ r, g.entry = .ok r ∧ m'.records = m.records.put r.1 r.2 := by
  unfold Retriever.add at h
  split at h
  · cases h
  · rename_i r hr
    cases h
    exact ⟨r, hr, rfl⟩

theorem add_eq_error {m : Retriever ν} {g : Given ν} {e : Failure} (h : m.add g = .error e) :
    g.entry = .error e := by
  unfold Retriever.add at h
  split at h
  · rename_i e' he
    cases h
    exact he
  · cases h

omit [Python ν] in
theorem latest_cons (r : Text × Doc ν) (puts : List (Text × Doc ν)) (id : Text) :
    latest (r :: puts) id = (latest puts id).or (if id = r.1 then some r.2 else none) := by
  unfold latest
  rw [List.reverse_cons, List.find?_append]
  cases puts.reverse.find? fun r => r.1 = id with
  | some x => rfl
  | none =>
    by_cases h : id = r.1
    · simp [h]
    · simp [h, Ne.symm h]

/-- What the loop leaves under an id. -/
theorem get?_addAll (m : Retriever ν) (gs : List (Given ν)) (id : Text) :
    (m.addAll gs).2.records.get? id = (latest (valid gs) id).or (m.records.get? id) := by
  induction gs generalizing m with
  | nil => rfl
  | cons g gs ih =>
    unfold Retriever.addAll valid
    cases hadd : m.add g with
    | error e =>
      rw [add_eq_error hadd]
      rfl
    | ok m' =>
      obtain ⟨r, hr, hm'⟩ := add_eq_ok hadd
      rw [hr]
      show (m'.addAll gs).2.records.get? id = (latest (r :: valid gs) id).or _
      rw [ih, hm', Records.get?_put, latest_cons]
      cases latest (valid gs) id with
      | some d => rfl
      | none =>
        by_cases h : id = r.1
        · rw [if_pos h, if_pos h]
          rfl
        · rw [if_neg h, if_neg h]
          rfl

/-- The loop goes to its end exactly when every document is valid. -/
theorem addAll_eq_ok (m : Retriever ν) (gs : List (Given ν)) :
    (m.addAll gs).1 = .ok () ↔ ∀ g ∈ gs, ∃ r, g.entry = .ok r := by
  induction gs generalizing m with
  | nil => exact iff_of_true rfl (fun g hg => by cases hg)
  | cons g gs ih =>
    unfold Retriever.addAll
    rw [List.forall_mem_cons]
    cases hadd : m.add g with
    | error e =>
      refine iff_of_false (fun h => (by cases h)) ?_
      rintro ⟨⟨r, hr⟩, -⟩
      rw [add_eq_error hadd] at hr
      cases hr
    | ok m' =>
      obtain ⟨r, hr, -⟩ := add_eq_ok hadd
      rw [and_iff_right ⟨r, hr⟩]
      exact ih m'

/-! ## A file that is read again -/

omit [Python ν] in
theorem mem_of_latest {puts : List (Text × Doc ν)} {id : Text} {d : Doc ν}
    (h : latest puts id = some d) : (id, d) ∈ puts := by
  obtain ⟨r, hr, rfl⟩ := Option.map_eq_some_iff.mp h
  have hmem := List.mem_reverse.mp (List.mem_of_find?_eq_some hr)
  have hid : r.1 = id := by simpa using List.find?_some hr
  rw [← hid]
  exact hmem

omit [Python ν] in
theorem latest_of_mem {puts : List (Text × Doc ν)} (hn : (puts.map Prod.fst).Nodup) {id : Text}
    {d : Doc ν} (h : (id, d) ∈ puts) : latest puts id = some d := by
  cases hl : latest puts id with
  | none =>
    unfold latest at hl
    rw [Option.map_eq_none_iff, List.find?_eq_none] at hl
    exact absurd (decide_eq_true rfl) (hl (id, d) (List.mem_reverse.mpr h))
  | some d' =>
    have heq := List.inj_on_of_nodup_map hn (mem_of_latest hl) h rfl
    rw [(Prod.mk.inj heq).2]

/-- The documents of a file are valid ones, under their ids. -/
theorem mem_valid {gs : List (Given ν)} {r : Text × Doc ν} (h : r ∈ valid gs) : .doc r.2 ∈ gs := by
  induction gs with
  | nil => cases h
  | cons g gs ih =>
    unfold valid at h
    cases hg : g.entry with
    | error e =>
      rw [hg] at h
      cases h
    | ok x =>
      rw [hg] at h
      cases h with
      | head =>
        rw [(entry_eq_ok.mp hg).1]
        exact List.mem_cons_self
      | tail _ h => exact List.mem_cons_of_mem g (ih h)

theorem valid_map {α : Type} {f : α → Given ν} {g : α → Text × Doc ν} {l : List α}
    (h : ∀ a ∈ l, (f a).entry = .ok (g a)) : valid (l.map f) = l.map g := by
  induction l with
  | nil => rfl
  | cons a l ih =>
    rw [List.map_cons, List.map_cons]
    unfold valid
    rw [h a List.mem_cons_self]
    show g a :: valid (l.map f) = _
    rw [ih fun b hb => h b (List.mem_cons_of_mem a hb)]

/-- JSON gives the record back, and its id. -/
def Kept (d : Doc ν) : Prop := Same d.normal d ∧ documentId d.normal = documentId d

/-- A record without tuples is kept, if JSON does not change what it has for an id. -/
theorem kept_of_plain {d : Doc ν} (h : plainFields d.rows = true)
    (hid : ∀ k ∈ Vector.idKeys, (d.get k).normal = d.get k) : Kept d := by
  refine ⟨canon_normal (.dict d.rows) h, ?_⟩
  have hget : ∀ k ∈ Vector.idKeys, d.normal.get k = d.get k := by
    intro k hk
    rw [← hid k hk]
    unfold Doc.get
    rw [Doc.get?_normal]
    cases d.get? k <;> rfl
  have hfind : Vector.idKeys.find? (fun k => (d.normal.get k).truthy) =
      Vector.idKeys.find? fun k => (d.get k).truthy := by
    refine List.find?_congr fun k hk => ?_
    rw [hget k hk]
  unfold documentId
  rw [hfind]
  cases hk : Vector.idKeys.find? fun k => (d.get k).truthy with
  | none => rfl
  | some k =>
    show Except.ok (d.normal.get k).toStr = _
    rw [hget k (List.mem_of_find?_eq_some hk)]

/-- A file that holds the JSON text of the records gives a new retriever the same records exactly
when JSON gives each of them back. -/
theorem load_iff (m : Retriever ν) :
    (∃ m', load (some (.list (m.records.rows.map fun r => .doc r.2.normal))) = .ok m' ∧
      m'.records.Agree m.records) ↔ ∀ r ∈ m.records, Kept r.2 := by
  unfold load
  constructor
  · rintro ⟨m', hm', hagree⟩ ⟨id, d⟩ hr
    have hrel := hagree id
    rw [Records.get?_eq_some.mpr hr] at hrel
    cases hget : m'.records.get? id with
    | none =>
      rw [hget] at hrel
      cases hrel
    | some d' =>
      rw [hget] at hrel
      cases hrel with
      | some hsame =>
        -- what was read has been written, so it is its own normal form
        have hid := m'.keyed (id, d') (Records.get?_eq_some.mp hget)
        rw [← (opened_eq_ok.mp hm').2, get?_addAll] at hget
        have hlatest : latest (valid (m.records.rows.map fun r => .doc r.2.normal)) id =
            some d' := by
          rw [← hget]
          exact (Option.or_none).symm
        obtain ⟨x, -, hx⟩ := List.mem_map.mp (mem_valid (mem_of_latest hlatest))
        have hx : x.2.normal = d' := Given.doc.inj hx
        have hnormal : d.normal = d' := by
          rw [← hsame.normal_eq, ← hx, Doc.normal_normal]
        refine ⟨?_, ?_⟩
        · rw [hnormal]
          exact hsame
        · rw [hnormal]
          exact hid.trans (m.keyed (id, d) hr).symm
  · intro hkept
    have hentry : ∀ r ∈ m.records.rows, (Given.doc r.2.normal).entry = .ok (r.1, r.2.normal) := by
      intro r hr
      exact entry_eq_ok.mpr ⟨rfl, (hkept r hr).2.trans (m.keyed r hr)⟩
    have hok := (addAll_eq_ok Retriever.empty
      (m.records.rows.map fun r => Given.doc r.2.normal)).mpr fun g hg => by
        obtain ⟨r, hr, rfl⟩ := List.mem_map.mp hg
        exact ⟨_, hentry r hr⟩
    refine ⟨(Retriever.empty.addAll (m.records.rows.map fun r => Given.doc r.2.normal)).2,
      opened_eq_ok.mpr ⟨hok, rfl⟩, fun id => ?_⟩
    · rw [get?_addAll, valid_map hentry]
      have hnodup : ((m.records.rows.map fun r => (r.1, r.2.normal)).map Prod.fst).Nodup := by
        rw [List.map_map]
        exact m.records.nodup
      cases hget : m.records.get? id with
      | some d =>
        have hmem := Records.get?_eq_some.mp hget
        rw [latest_of_mem hnodup (List.mem_map.mpr ⟨(id, d), hmem, rfl⟩)]
        exact .some (hkept (id, d) hmem).1
      | none =>
        have hnone : latest (m.records.rows.map fun r => (r.1, r.2.normal)) id = none := by
          cases hl : latest (m.records.rows.map fun r => (r.1, r.2.normal)) id with
          | none => rfl
          | some d =>
            obtain ⟨r, hr, heq⟩ := List.mem_map.mp (mem_of_latest hl)
            obtain ⟨rfl, -⟩ := Prod.mk.inj heq
            rw [Records.get?_eq_some.mpr hr] at hget
            cases hget
        rw [hnone]
        exact .none

/-! ## Writes -/

omit [Python ν] in
/-- The directory of the file. -/
structure Disk (ν : Type) where
  file : Option (Content ν) := none
  /-- How many temporary files are left in it. -/
  temps : Nat := 0

/-- Which file operations of a call are done; the others raise `OSError`. -/
structure Device where
  mkdir : Bool := true
  mkstemp : Bool := true
  fdopen : Bool := true
  write : Bool := true
  close : Bool := true
  replace : Bool := true
  unlink : Bool := true
  deriving DecidableEq, Repr

variable [Encoder ν]

omit [Python ν] in
def Records.writable (t : Records ν) : Bool := t.rows.all fun r => writableFields r.2.rows

omit [Python ν] in
/-- The `try` of `_flush`; what is written is the JSON text of the records. -/
def written (dev : Device) (t : Records ν) : Except Failure (Content ν) := do
  ensure dev.fdopen .other
  ensure t.writable .typeError
  ensure dev.write .other
  ensure dev.close .other
  ensure dev.replace .other
  return .list (t.rows.map fun r => .doc r.2.normal)

omit [Python ν] in
/-- `_flush`; where the `try` raises, the temporary file is removed. -/
def flush (dev : Device) (t : Records ν) (disk : Disk ν) : Except Failure Unit × Disk ν :=
  if dev.mkdir && dev.mkstemp then
    match written dev t with
    | .ok content => (.ok (), { disk with file := some content })
    | .error e =>
      if dev.unlink then (.error e, disk)
      else (.error .other, { disk with temps := disk.temps + 1 })
  else (.error .other, disk)

/-- A retriever and the directory of its file. -/
structure State (ν : Type) [Python ν] where
  memory : Retriever ν
  disk : Disk ν

structure Outcome (ν : Type) [Python ν] where
  result : Except Failure Unit
  state : State ν

/-- The memory has been changed; it is written. -/
def flushed (dev : Device) (m : Retriever ν) (disk : Disk ν) : Outcome ν where
  result := (flush dev m.records disk).1
  state := ⟨m, (flush dev m.records disk).2⟩

def upsert (dev : Device) (g : Given ν) (s : State ν) : Outcome ν :=
  match s.memory.add g with
  | .error e => ⟨.error e, s⟩
  | .ok m => flushed dev m s.disk

def bulkUpsert (dev : Device) (gs : List (Given ν)) (s : State ν) : Outcome ν :=
  match s.memory.addAll gs with
  | (.error e, m) => ⟨.error e, { s with memory := m }⟩
  | (.ok (), m) => flushed dev m s.disk

/-- An `upsert` is a `bulk_upsert` of one document. -/
theorem upsert_eq (dev : Device) (g : Given ν) (s : State ν) :
    upsert dev g s = bulkUpsert dev [g] s := by
  unfold upsert bulkUpsert Retriever.addAll
  cases s.memory.add g with
  | error e => rfl
  | ok m => rfl

inductive Call (ν : Type) where
  | upsert (g : Given ν)
  | bulkUpsert (gs : List (Given ν))

omit [Python ν] [Encoder ν] in
def Call.docs : Call ν → List (Given ν)
  | .upsert g => [g]
  | .bulkUpsert gs => gs

def Call.run (dev : Device) (s : State ν) : Call ν → Outcome ν
  | .upsert g => LocalJson.upsert dev g s
  | .bulkUpsert gs => LocalJson.bulkUpsert dev gs s

theorem run_eq (dev : Device) (s : State ν) (call : Call ν) :
    call.run dev s = bulkUpsert dev call.docs s := by
  cases call with
  | upsert g => exact upsert_eq dev g s
  | bulkUpsert gs => rfl

/-! ## Atomic and durable writes -/

/-- A call that raises leaves the memory and the file as they were; after one that returns, a new
retriever on the file holds what the memory holds. -/
def Atomic (dev : Device) (call : Call ν) (s : State ν) : Prop :=
  (∀ e, (call.run dev s).result = .error e →
    (call.run dev s).state.memory.records.Agree s.memory.records ∧
      (call.run dev s).state.disk.file = s.disk.file) ∧
  ((call.run dev s).result = .ok () →
    ∃ m, load (call.run dev s).state.disk.file = .ok m ∧
      m.records.Agree (call.run dev s).state.memory.records)

/-- Every file operation is done. -/
def Device.Works (dev : Device) : Prop :=
  dev.mkdir = true ∧ dev.mkstemp = true ∧ dev.fdopen = true ∧ dev.write = true ∧
    dev.close = true ∧ dev.replace = true

instance (dev : Device) : Decidable dev.Works := inferInstanceAs (Decidable (_ ∧ _))

/-- A document is not valid, a record cannot be written, or a file operation fails. -/
def Fails (dev : Device) (gs : List (Given ν)) (s : State ν) : Prop :=
  (∃ g ∈ gs, ∀ r, g.entry ≠ .ok r) ∨ (s.memory.addAll gs).2.records.writable = false ∨ ¬ dev.Works

/-- What is put in was there. -/
def Idle (gs : List (Given ν)) (s : State ν) : Prop :=
  ∀ id d, latest (valid gs) id = some d → ∃ d', s.memory.records.get? id = some d' ∧ Same d d'

/-! ### The memory -/

omit [Encoder ν] in
/-- The memory is as before exactly when what was put in was there. -/
theorem agree_documents_iff (s : State ν) (gs : List (Given ν)) :
    (s.memory.addAll gs).2.records.Agree s.memory.records ↔ Idle gs s := by
  unfold Records.Agree Idle
  refine forall_congr' fun id => ?_
  rw [get?_addAll]
  cases latest (valid gs) id with
  | none =>
    refine iff_of_true ?_ (fun d hd => by cases hd)
    show Option.Rel Same (s.memory.records.get? id) _
    cases s.memory.records.get? id with
    | none => exact .none
    | some d => exact .some (Same.refl d)
  | some d =>
    show Option.Rel Same (some d) _ ↔ _
    constructor
    · intro h d' hd'
      cases hd'
      cases hget : s.memory.records.get? id with
      | none =>
        rw [hget] at h
        cases h
      | some d' =>
        rw [hget] at h
        cases h with
        | some h => exact ⟨d', rfl, h⟩
    · intro h
      obtain ⟨d', hget, hsame⟩ := h d rfl
      rw [hget]
      exact .some hsame

/-! ### The file -/

omit [Python ν] in
theorem written_eq_ok {dev : Device} {t : Records ν} {content : Content ν} :
    written dev t = .ok content ↔ dev.fdopen = true ∧ t.writable = true ∧ dev.write = true ∧
      dev.close = true ∧ dev.replace = true ∧
      .list (t.rows.map fun r => .doc r.2.normal) = content := by
  simp only [written, Logic.bind_eq_ok, ensure_eq_ok, pure_eq_ok, exists_const]

omit [Python ν] in
/-- A flush writes the records and returns, or raises and leaves the file. -/
theorem flush_cases (dev : Device) (t : Records ν) (disk : Disk ν) :
    (t.writable = true ∧ dev.Works ∧ (flush dev t disk).1 = .ok () ∧
      (flush dev t disk).2.file = some (.list (t.rows.map fun r => .doc r.2.normal))) ∨
    ((t.writable = false ∨ ¬ dev.Works) ∧ (∃ e, (flush dev t disk).1 = .error e) ∧
      (flush dev t disk).2.file = disk.file) := by
  unfold flush
  by_cases hmake : (dev.mkdir && dev.mkstemp) = true
  · rw [if_pos hmake]
    rw [Bool.and_eq_true] at hmake
    cases hw : written dev t with
    | ok content =>
      obtain ⟨hopen, hwrit, hwrite, hclose, hrep, rfl⟩ := written_eq_ok.mp hw
      exact .inl ⟨hwrit, ⟨hmake.1, hmake.2, hopen, hwrite, hclose, hrep⟩, rfl, rfl⟩
    | error e =>
      have hno : t.writable = false ∨ ¬ dev.Works := by
        rw [or_iff_not_imp_left, Bool.not_eq_false]
        rintro hwrit ⟨-, -, hopen, hwrite, hclose, hrep⟩
        rw [written_eq_ok.mpr ⟨hopen, hwrit, hwrite, hclose, hrep, rfl⟩] at hw
        cases hw
      refine .inr ⟨hno, ?_⟩
      cases dev.unlink with
      | true => exact ⟨⟨e, rfl⟩, rfl⟩
      | false => exact ⟨⟨.other, rfl⟩, rfl⟩
  · rw [if_neg hmake]
    refine .inr ⟨.inr fun h => hmake ?_, ⟨.other, rfl⟩, rfl⟩
    rw [Bool.and_eq_true]
    exact ⟨h.1, h.2.1⟩

/-- **What a write leaves.**  A call is atomic and durable exactly when, if it fails, what it put in
before was there already, and if it does not, JSON gives every record back. -/
theorem atomic_iff (dev : Device) (call : Call ν) (s : State ν) :
    Atomic dev call s ↔ (Fails dev call.docs s → Idle call.docs s) ∧
      (¬ Fails dev call.docs s →
        ∀ r ∈ (s.memory.addAll call.docs).2.records, Kept r.2) := by
  unfold Atomic
  rw [run_eq]
  generalize call.docs = gs
  have hagree := agree_documents_iff s gs
  have hvalid := addAll_eq_ok s.memory gs
  unfold bulkUpsert Fails
  generalize s.memory.addAll gs = o at hagree hvalid ⊢
  obtain ⟨r, m⟩ := o
  cases r with
  | error e =>
    -- a document is not valid: nothing is written
    have hbad : ∃ g ∈ gs, ∀ r, g.entry ≠ .ok r := by
      by_contra hno
      have hall : ∀ g ∈ gs, ∃ r, g.entry = .ok r := by
        intro g hg
        by_contra hg'
        exact hno ⟨g, hg, fun r hr => hg' ⟨r, hr⟩⟩
      cases hvalid.mpr hall
    rw [← hagree]
    constructor
    · rintro ⟨h, -⟩
      exact ⟨fun _ => (h e rfl).1, fun hno => absurd (.inl hbad) hno⟩
    · rintro ⟨h, -⟩
      exact ⟨fun _ _ => ⟨h (.inl hbad), rfl⟩, fun h => (by cases h)⟩
  | ok u =>
    have hgood : ¬ ∃ g ∈ gs, ∀ r, g.entry ≠ .ok r := by
      rintro ⟨g, hg, hno⟩
      obtain ⟨r, hr⟩ := hvalid.mp rfl g hg
      exact hno r hr
    show _ ↔ ((_ ∨ m.records.writable = false ∨ ¬ dev.Works) → _) ∧
      (¬ (_ ∨ m.records.writable = false ∨ ¬ dev.Works) → _)
    rw [or_iff_right hgood, ← hagree]
    show (∀ e, (flush dev m.records s.disk).1 = .error e → _ ∧ (flush dev m.records s.disk).2.file = _) ∧
      ((flush dev m.records s.disk).1 = .ok () → ∃ m', load (flush dev m.records s.disk).2.file = _ ∧ _) ↔ _
    rcases flush_cases dev m.records s.disk with ⟨hwrit, hworks, hres, hfile⟩ | ⟨hno, ⟨e, hres⟩, hfile⟩
    · have hfine : ¬ (m.records.writable = false ∨ ¬ dev.Works) := by
        rw [hwrit]
        rintro (h | h)
        · cases h
        · exact h hworks
      rw [hres, hfile]
      constructor
      · rintro ⟨-, h⟩
        exact ⟨fun hf => absurd hf hfine, fun _ => (load_iff m).mp (h rfl)⟩
      · rintro ⟨-, h⟩
        exact ⟨fun e he => (by cases he), fun _ => (load_iff m).mpr (h hfine)⟩
    · rw [hres, hfile]
      constructor
      · rintro ⟨h, -⟩
        exact ⟨fun _ => (h e rfl).1, fun hf => absurd hno hf⟩
      · rintro ⟨h, -⟩
        exact ⟨fun _ _ => ⟨h hno, rfl⟩, fun he => (by cases he)⟩

end

namespace Sample

/-- Floats as fractions. -/
instance : Python Rat where
  half := 1 / 2
  isZero x := x = 0
  isFinite _ := true
  inUnit x := 0 ≤ x ∧ x ≤ 1
  ofInt n := some n
  ofText _ := none
  repr _ := []

instance : Encoder Rat where
  writable _ := true
  text _ := text "0.5"
  maxStrDigits := 4300

theorem note_nodup : ([(text "id", (.str (text "a") : Value Rat))].map Prod.fst).Nodup := by
  decide

def note : Doc Rat := Doc.ofFields [(text "id", .str (text "a"))] note_nodup

def empty : State Rat := ⟨.empty, {}⟩

/-- `os.replace` raises: the memory holds the note, and there is no file. -/
theorem upsert_not_atomic : ¬ Atomic { replace := false } (.upsert (.doc note)) empty := by
  rintro ⟨h, -⟩
  have hagree : (empty.memory.addAll [.doc note]).2.records.Agree empty.memory.records :=
    (h .other rfl).1
  obtain ⟨d, hd, -⟩ := (agree_documents_iff empty [.doc note]).mp hagree (text "a") note rfl
  cases hd

end Sample

end ProjectMaya.LocalJson
