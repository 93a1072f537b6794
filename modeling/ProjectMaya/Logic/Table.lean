import Mathlib.Data.List.Nodup
import Mathlib.Data.List.Basic

/-! # Tables with a primary key

A table is a list of rows, oldest first, with no two rows of one key (`Table.nodup`), so
the key constraint cannot be broken by any operation.  `insert` refuses a key that is
there; `update` rewrites the rows a condition selects and must leave keys alone.

`mem_insert`, `mem_update` and `find?_eq_some` say what the operations do in terms of
rows; two tables with the same rows are equal (`Table.ext`). -/

namespace Logic

structure Table (ρ κ : Type) (key : ρ → κ) where
  rows : List ρ
  nodup : (rows.map key).Nodup

namespace Table

variable {ρ κ : Type} {key : ρ → κ}

@[ext] theorem ext {t u : Table ρ κ key} (h : t.rows = u.rows) : t = u := by
  cases t; cases u; cases h; rfl

def empty : Table ρ κ key := ⟨[], List.nodup_nil⟩

instance [DecidableEq ρ] : DecidableEq (Table ρ κ key) := fun t u =>
  decidable_of_iff (t.rows = u.rows) ⟨Table.ext, fun h => h ▸ rfl⟩

instance : Membership ρ (Table ρ κ key) := ⟨fun t r => r ∈ t.rows⟩

theorem mem_def {t : Table ρ κ key} {r : ρ} : r ∈ t ↔ r ∈ t.rows := Iff.rfl

/-- Rows of one key are one row. -/
theorem eq_of_key_eq {t : Table ρ κ key} {r r' : ρ} (h : r ∈ t) (h' : r' ∈ t)
    (hk : key r = key r') : r = r' :=
  List.inj_on_of_nodup_map t.nodup h h' hk

section

variable [DecidableEq κ]

/-- `SELECT … WHERE key = k`. -/
def find? (t : Table ρ κ key) (k : κ) : Option ρ := t.rows.find? fun r => key r = k

theorem find?_eq_some {t : Table ρ κ key} {k : κ} {r : ρ} :
    t.find? k = some r ↔ r ∈ t ∧ key r = k := by
  unfold find?
  constructor
  · intro h
    refine ⟨List.mem_of_find?_eq_some h, ?_⟩
    simpa using List.find?_some h
  · rintro ⟨hr, hk⟩
    cases hf : t.rows.find? fun r => decide (key r = k) with
    | none => exact absurd (by simpa using hk) (List.find?_eq_none.mp hf r hr)
    | some r' =>
      have hr' := List.mem_of_find?_eq_some hf
      have hk' : key r' = k := by simpa using List.find?_some hf
      rw [eq_of_key_eq hr' hr (hk'.trans hk.symm)]

theorem find?_eq_none {t : Table ρ κ key} {k : κ} :
    t.find? k = none ↔ ∀ r ∈ t, key r ≠ k := by
  unfold find?
  rw [List.find?_eq_none]
  constructor
  · intro h r hr hk; exact h r hr (by simpa using hk)
  · intro h r hr hk; exact h r hr (by simpa using hk)

/-- `INSERT`: refused (`none`) when the key is there. -/
def insert (t : Table ρ κ key) (r : ρ) : Option (Table ρ κ key) :=
  if h : key r ∈ t.rows.map key then none
  else some ⟨t.rows ++ [r], by
    rw [List.map_append, List.nodup_append]
    refine ⟨t.nodup, by simp, ?_⟩
    intro a ha b hb
    simp only [List.map_cons, List.map_nil, List.mem_singleton] at hb
    rintro rfl
    exact h (hb ▸ ha)⟩

theorem insert_eq_some {t u : Table ρ κ key} {r : ρ} :
    t.insert r = some u ↔ (∀ x ∈ t, key x ≠ key r) ∧ u.rows = t.rows ++ [r] := by
  unfold insert
  split
  · rename_i h
    obtain ⟨x, hx, hk⟩ := List.mem_map.mp h
    constructor
    · intro h'; cases h'
    · rintro ⟨hnew, _⟩; exact absurd hk (hnew x hx)
  · rename_i h
    have hnew : ∀ x ∈ t, key x ≠ key r := fun x hx hk => h (List.mem_map.mpr ⟨x, hx, hk⟩)
    constructor
    · intro h'; cases h'; exact ⟨hnew, rfl⟩
    · rintro ⟨_, hu⟩; exact congrArg some (Table.ext hu.symm)

theorem insert_eq_none {t : Table ρ κ key} {r : ρ} :
    t.insert r = none ↔ ∃ x ∈ t, key x = key r := by
  unfold insert
  split
  · rename_i h
    exact ⟨fun _ => List.mem_map.mp h, fun _ => rfl⟩
  · rename_i h
    refine ⟨nofun, ?_⟩
    rintro ⟨x, hx, hk⟩
    exact absurd (List.mem_map.mpr ⟨x, hx, hk⟩) h

theorem insert_of_absent {t : Table ρ κ key} {r : ρ} (h : ∀ x ∈ t, key x ≠ key r) :
    ∃ u, t.insert r = some u ∧ u.rows = t.rows ++ [r] := by
  cases hi : t.insert r with
  | some u => exact ⟨u, rfl, (insert_eq_some.1 hi).2⟩
  | none =>
    obtain ⟨x, hx, hk⟩ := insert_eq_none.1 hi
    exact absurd hk (h x hx)

theorem mem_insert {t u : Table ρ κ key} {r x : ρ} (h : t.insert r = some u) :
    x ∈ u ↔ x ∈ t ∨ x = r := by
  rw [mem_def, (insert_eq_some.mp h).2, List.mem_append, List.mem_singleton, mem_def]

end

/-- `UPDATE … SET f WHERE p`. -/
def update (t : Table ρ κ key) (p : ρ → Bool) (f : ρ → ρ) (hf : ∀ r, key (f r) = key r) :
    Table ρ κ key where
  rows := t.rows.map fun r => if p r then f r else r
  nodup := by
    have : (t.rows.map fun r => if p r then f r else r).map key = t.rows.map key := by
      rw [List.map_map]
      refine List.map_congr_left fun r _ => ?_
      simp only [Function.comp]
      split
      · exact hf r
      · rfl
    rw [this]
    exact t.nodup

/-- The `rowcount` of the same `UPDATE`. -/
def count (t : Table ρ κ key) (p : ρ → Bool) : Nat := t.rows.countP p

theorem mem_update {t : Table ρ κ key} {p : ρ → Bool} {f : ρ → ρ}
    {hf : ∀ r, key (f r) = key r} {x : ρ} :
    x ∈ t.update p f hf ↔ ∃ r ∈ t, x = if p r then f r else r := by
  rw [mem_def]
  unfold update
  rw [List.mem_map]
  constructor
  · rintro ⟨r, hr, rfl⟩; exact ⟨r, hr, rfl⟩
  · rintro ⟨r, hr, rfl⟩; exact ⟨r, hr, rfl⟩

/-- An update that selects the newest row only. -/
theorem rows_update_newest {t : Table ρ κ key} (p : ρ → Bool) (f : ρ → ρ)
    (hf : ∀ r, key (f r) = key r) {rows : List ρ} {r : ρ} (ht : t.rows = rows ++ [r])
    (hp : p r = true) (hrest : ∀ x ∈ rows, p x = false) :
    (t.update p f hf).rows = rows ++ [f r] ∧ t.count p = 1 := by
  constructor
  · show t.rows.map (fun r => if p r then f r else r) = rows ++ [f r]
    rw [ht, List.map_append]
    congr 1
    · conv => rhs; rw [← List.map_id rows]
      refine List.map_congr_left fun x hx => ?_
      rw [hrest x hx]
      rfl
    · simp [hp]
  · show t.rows.countP p = 1
    rw [ht, List.countP_append, List.countP_eq_zero.mpr fun x hx => by simp [hrest x hx]]
    simp [hp]

/-- No other row has the key of the newest row. -/
theorem ne_newest {t : Table ρ κ key} {rows : List ρ} {r x : ρ} (ht : t.rows = rows ++ [r])
    (hx : x ∈ rows) : key x ≠ key r := by
  have h := t.nodup
  rw [ht, List.map_append, List.nodup_append] at h
  exact h.2.2 (key x) (List.mem_map_of_mem hx) (key r) (by simp)

/-- `DELETE … WHERE p`. -/
def delete (t : Table ρ κ key) (p : ρ → Bool) : Table ρ κ key where
  rows := t.rows.filter fun r => !p r
  nodup := t.nodup.sublist (List.filter_sublist.map key)

theorem mem_delete {t : Table ρ κ key} {p : ρ → Bool} {x : ρ} :
    x ∈ t.delete p ↔ x ∈ t ∧ p x = false := by
  simp [mem_def, delete]

section

variable [DecidableEq κ]

/-- `INSERT OR REPLACE`: the row of that key goes, and the new one comes last. -/
def replace (t : Table ρ κ key) (r : ρ) : Table ρ κ key where
  rows := (t.delete fun x => key x = key r).rows ++ [r]
  nodup := by
    rw [List.map_append, List.nodup_append]
    refine ⟨(t.delete _).nodup, by simp, ?_⟩
    intro a ha b hb
    obtain ⟨x, hx, rfl⟩ := List.mem_map.1 ha
    rw [List.map_cons, List.map_nil, List.mem_singleton] at hb
    subst hb
    simpa using (mem_delete.1 hx).2

theorem replace_of_absent {t : Table ρ κ key} {r : ρ} (h : ∀ x ∈ t, key x ≠ key r) :
    (t.replace r).rows = t.rows ++ [r] := by
  show (t.rows.filter fun x => !decide (key x = key r)) ++ [r] = t.rows ++ [r]
  rw [List.filter_eq_self.2]
  intro x hx
  simpa using h x hx

theorem mem_replace {t : Table ρ κ key} {r x : ρ} :
    x ∈ t.replace r ↔ (x ∈ t ∧ key x ≠ key r) ∨ x = r := by
  show x ∈ (t.delete fun y => key y = key r).rows ++ [r] ↔ _
  rw [List.mem_append, List.mem_singleton]
  show x ∈ t.delete (fun y => key y = key r) ∨ _ ↔ _
  rw [mem_delete, decide_eq_false_iff_not]

theorem find?_replace {t : Table ρ κ key} {r : ρ} (k : κ) :
    (t.replace r).find? k = if k = key r then some r else t.find? k := by
  split
  · rename_i hk
    rw [find?_eq_some, mem_replace]
    exact ⟨.inr rfl, hk.symm⟩
  · rename_i hk
    cases hf : t.find? k with
    | some x =>
      obtain ⟨hx, rfl⟩ := find?_eq_some.mp hf
      rw [find?_eq_some, mem_replace]
      exact ⟨.inl ⟨hx, hk⟩, rfl⟩
    | none =>
      rw [find?_eq_none] at hf ⊢
      intro x hx
      rcases mem_replace.mp hx with ⟨hx, -⟩ | rfl
      · exact hf x hx
      · exact Ne.symm hk

/-- Of rows that replace each other, the last of a key stays. -/
theorem find?_foldl_replace (rows : List ρ) (t : Table ρ κ key) (k : κ) :
    (rows.foldl replace t).find? k =
      (rows.reverse.find? fun r => key r = k).or (t.find? k) := by
  induction rows generalizing t with
  | nil => simp
  | cons r rows ih =>
    rw [List.foldl_cons, ih, find?_replace, List.reverse_cons, List.find?_append]
    cases rows.reverse.find? fun r => decide (key r = k) with
    | some r' => simp
    | none =>
      by_cases hk : key r = k
      · simp [hk]
      · simp [hk, Ne.symm hk]

theorem find?_insert {t u : Table ρ κ key} {r : ρ} (h : t.insert r = some u) (k : κ) :
    u.find? k = if k = key r then some r else t.find? k := by
  split
  · rename_i hk
    rw [find?_eq_some, mem_insert h]
    exact ⟨.inr rfl, hk.symm⟩
  · rename_i hk
    cases hf : t.find? k with
    | some x =>
      obtain ⟨hx, rfl⟩ := find?_eq_some.mp hf
      rw [find?_eq_some, mem_insert h]
      exact ⟨.inl hx, rfl⟩
    | none =>
      rw [find?_eq_none] at hf ⊢
      intro x hx
      rcases (mem_insert h).mp hx with hx | rfl
      · exact hf x hx
      · exact Ne.symm hk

/-- A table whose last row is new. -/
theorem find?_snoc {t u : Table ρ κ key} {r : ρ} (h : u.rows = t.rows ++ [r]) (k : κ) :
    u.find? k = if k = key r then some r else t.find? k := by
  have hinsert : t.insert r = some u := insert_eq_some.mpr ⟨fun x hx => ne_newest h hx, h⟩
  exact find?_insert hinsert k

/-- `INSERT … ON CONFLICT(key) DO UPDATE`: a new row, or `merge` of the row that is there. -/
def upsert (t : Table ρ κ key) (r : ρ) (merge : ρ → ρ) (hm : ∀ x, key (merge x) = key x) :
    Table ρ κ key :=
  match t.insert r with
  | some u => u
  | none => t.update (fun x => key x = key r) merge hm

/-- The row an upsert leaves under its key. -/
def upserted (t : Table ρ κ key) (r : ρ) (merge : ρ → ρ) : ρ :=
  ((t.find? (key r)).map merge).getD r

theorem key_upserted {t : Table ρ κ key} {r : ρ} {merge : ρ → ρ}
    (hm : ∀ x, key (merge x) = key x) : key (t.upserted r merge) = key r := by
  unfold upserted
  cases h : t.find? (key r) with
  | none => rfl
  | some y => exact (hm y).trans (find?_eq_some.mp h).2

theorem mem_upsert {t : Table ρ κ key} {r x : ρ} {merge : ρ → ρ}
    {hm : ∀ x, key (merge x) = key x} :
    x ∈ t.upsert r merge hm ↔ (x ∈ t ∧ key x ≠ key r) ∨ x = t.upserted r merge := by
  unfold upsert upserted
  cases hi : t.insert r with
  | some u =>
    have hnew := (insert_eq_some.mp hi).1
    rw [find?_eq_none.mpr hnew]
    simp only [mem_insert hi, Option.map_none, Option.getD_none]
    constructor
    · rintro (hx | hx)
      · exact .inl ⟨hx, hnew x hx⟩
      · exact .inr hx
    · rintro (⟨hx, -⟩ | hx)
      · exact .inl hx
      · exact .inr hx
  | none =>
    obtain ⟨y, hy, hk⟩ : ∃ y ∈ t, key y = key r := by
      unfold insert at hi
      split at hi
      · rename_i h
        obtain ⟨y, hy, hk⟩ := List.mem_map.mp h
        exact ⟨y, hy, hk⟩
      · cases hi
    rw [find?_eq_some.mpr ⟨hy, hk⟩]
    simp only [mem_update, Option.map_some, Option.getD_some]
    constructor
    · rintro ⟨z, hz, rfl⟩
      by_cases hzr : key z = key r
      · rw [eq_of_key_eq hz hy (hzr.trans hk.symm), if_pos (decide_eq_true hk)]
        exact .inr rfl
      · rw [if_neg (by simpa using hzr)]
        exact .inl ⟨hz, hzr⟩
    · rintro (⟨hx, hne⟩ | rfl)
      · exact ⟨x, hx, by rw [if_neg (by simpa using hne)]⟩
      · exact ⟨y, hy, by rw [if_pos (decide_eq_true hk)]⟩

theorem find?_upsert {t : Table ρ κ key} {r : ρ} {merge : ρ → ρ}
    {hm : ∀ x, key (merge x) = key x} (k : κ) :
    (t.upsert r merge hm).find? k = if k = key r then some (t.upserted r merge) else t.find? k := by
  split
  · rename_i hk
    rw [find?_eq_some, mem_upsert]
    exact ⟨.inr rfl, (key_upserted hm).trans hk.symm⟩
  · rename_i hk
    cases hf : t.find? k with
    | some x =>
      obtain ⟨hx, rfl⟩ := find?_eq_some.mp hf
      rw [find?_eq_some, mem_upsert]
      exact ⟨.inl ⟨hx, hk⟩, rfl⟩
    | none =>
      rw [find?_eq_none] at hf ⊢
      intro x hx
      rcases mem_upsert.mp hx with ⟨hx, -⟩ | rfl
      · exact hf x hx
      · rw [key_upserted hm]
        exact Ne.symm hk

theorem find?_delete_key {t : Table ρ κ key} (k k' : κ) :
    (t.delete fun r => key r = k).find? k' = if k' = k then none else t.find? k' := by
  split
  · rename_i hk
    rw [find?_eq_none]
    intro r hr
    rw [hk]
    simpa using (mem_delete.mp hr).2
  · rename_i hk
    cases hf : t.find? k' with
    | some x =>
      obtain ⟨hx, rfl⟩ := find?_eq_some.mp hf
      rw [find?_eq_some, mem_delete]
      exact ⟨⟨hx, by simpa using hk⟩, rfl⟩
    | none =>
      rw [find?_eq_none] at hf ⊢
      exact fun x hx => hf x (mem_delete.mp hx).1

theorem find?_update {t : Table ρ κ key} {p : ρ → Bool} {f : ρ → ρ} (hf : ∀ r, key (f r) = key r)
    (k : κ) : (t.update p f hf).find? k = (t.find? k).map fun r => if p r then f r else r := by
  have hkey : ∀ r, key (if p r then f r else r) = key r := by
    intro r
    split
    · exact hf r
    · rfl
  cases h : t.find? k with
  | some r =>
    obtain ⟨hr, rfl⟩ := find?_eq_some.mp h
    exact find?_eq_some.mpr ⟨mem_update.mpr ⟨r, hr, rfl⟩, hkey r⟩
  | none =>
    refine find?_eq_none.mpr fun x hx => ?_
    obtain ⟨r, hr, rfl⟩ := mem_update.mp hx
    rw [hkey]
    exact find?_eq_none.mp h r hr

/-- An `UPDATE` of one row, whose key the condition asks for. -/
theorem find?_update_one {t : Table ρ κ key} {p : ρ → Bool} {f : ρ → ρ}
    (hf : ∀ r, key (f r) = key r) {k : κ} (hp : ∀ r, p r = true → key r = k) (hcount : t.count p = 1) :
    ∃ r, t.find? k = some r ∧ p r = true ∧
      ∀ k', (t.update p f hf).find? k' = if k' = k then some (f r) else t.find? k' := by
  obtain ⟨r, hr, hpr⟩ := List.countP_pos_iff.mp (by rw [count] at hcount; omega : 0 < t.rows.countP p)
  have hfound : t.find? k = some r := find?_eq_some.mpr ⟨hr, hp r hpr⟩
  refine ⟨r, hfound, hpr, fun k' => ?_⟩
  rw [find?_update]
  split
  · rename_i hk
    rw [hk, hfound, Option.map_some, if_pos hpr]
  · rename_i hk
    cases h : t.find? k' with
    | none => rfl
    | some x =>
      obtain ⟨-, rfl⟩ := find?_eq_some.mp h
      rw [Option.map_some, if_neg fun hx => hk (hp x hx)]

end

end Table

end Logic
