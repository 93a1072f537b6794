import Mathlib.Data.List.Basic
import Mathlib.Data.List.GetD
import Mathlib.Data.List.Infix
import Mathlib.Logic.Relation

/-! # Paged files with a write-ahead log and a rollback journal

A database is a main file of pages and, beside it, a log of frames that are not yet in the main
file, or a journal of the pages that an unfinished transaction has overwritten.  `Store.pages` is
what a reader finds: the journal is rolled back, then the frames up to the last commit are laid
over the main file.  Whatever happens short of a commit leaves it as it is (`Quiet.pages_eq`). -/

namespace Logic.Pager

/-- A page in the log; the last frame of a transaction says how many pages there are after it. -/
structure Frame (P : Type) where
  page : Nat
  content : P
  commit : Option Nat := none
  deriving DecidableEq, Repr

/-- How many pages there were before the transaction, and those of them it may have overwritten. -/
structure Journal (P : Type) where
  size : Nat
  originals : List (Nat × P)
  deriving DecidableEq, Repr

structure Store (P : Type) where
  main : List P
  wal : List (Frame P) := []
  journal : Option (Journal P) := none
  deriving DecidableEq, Repr

variable {P : Type}

/-! ## Reading -/

/-- The frames up to the last one that commits. -/
def committed : List (Frame P) → List (Frame P)
  | [] => []
  | f :: rest =>
    match committed rest with
    | [] => if f.commit.isSome then [f] else []
    | g :: later => f :: g :: later

/-- The content of a page in the last of its frames. -/
def latest : List (Frame P) → Nat → Option P
  | [], _ => none
  | f :: rest, n => (latest rest n).or (if f.page = n then some f.content else none)

/-- How many pages there are after the last commit. -/
def sizeAfter (wal : List (Frame P)) : Option Nat := (committed wal).getLast?.bind Frame.commit

theorem committed_pending {frames : List (Frame P)} (h : ∀ f ∈ frames, f.commit = none) :
    committed frames = [] := by
  induction frames with
  | nil => rfl
  | cons f frames ih =>
    obtain ⟨hf, hframes⟩ := List.forall_mem_cons.1 h
    unfold committed
    rw [ih hframes]
    simp [hf]

theorem committed_append {frames : List (Frame P)} (h : ∀ f ∈ frames, f.commit = none)
    (wal : List (Frame P)) : committed (wal ++ frames) = committed wal := by
  induction wal with
  | nil => exact committed_pending h
  | cons f wal ih =>
    show committed (f :: (wal ++ frames)) = _
    unfold committed
    rw [ih]

/-- A log without a size commits nothing. -/
theorem committed_of_sizeAfter {wal : List (Frame P)} (h : sizeAfter wal = none) :
    committed wal = [] := by
  unfold sizeAfter at h
  induction wal with
  | nil => rfl
  | cons f wal ih =>
    unfold committed at h ⊢
    cases hc : committed wal with
    | nil =>
      rw [hc] at h
      cases hf : f.commit with
      | none => simp
      | some size => simp [hf] at h
    | cons g later =>
      rw [hc] at h ih
      have hnil : g :: later = [] := ih (by simpa using h)
      cases hnil

section Inhabited

variable [Inhabited P]

/-- `size` pages: the new ones, and what the file has elsewhere. -/
def patch (size : Nat) (new : Nat → Option P) (main : List P) : List P :=
  (List.range size).map fun n => (new n).getD (main.getD n default)

/-- The committed frames laid over the main file. -/
def lay (main : List P) (wal : List (Frame P)) : List P :=
  match sizeAfter wal with
  | none => main
  | some size => patch size (latest (committed wal)) main

/-- The main file with the journal rolled back; an empty file has none. -/
def Store.restored (s : Store P) : List P :=
  match s.journal with
  | none => s.main
  | some j => if s.main.isEmpty then [] else patch j.size (fun n => j.originals.lookup n) s.main

/-- What a reader finds; an empty file has no log. -/
def Store.pages (s : Store P) : List P :=
  if s.restored.isEmpty then [] else lay s.restored s.wal

/-- A file with nothing beside it is what it is. -/
theorem pages_bare (main : List P) : ({ main := main } : Store P).pages = main := by
  unfold Store.pages
  show (if main.isEmpty then [] else lay main []) = main
  cases main with
  | nil => rfl
  | cons p main => rfl

/-- What is new decides; the file matters elsewhere only. -/
theorem patch_congr {size : Nat} {new : Nat → Option P} {main main' : List P}
    (h : ∀ n < size, new n = none → main.getD n default = main'.getD n default) :
    patch size new main = patch size new main' := by
  unfold patch
  apply List.map_congr_left
  intro n hn
  cases hnew : new n with
  | some p => rfl
  | none => exact h n (List.mem_range.1 hn) hnew

theorem patch_self {main : List P} {new : Nat → Option P}
    (h : ∀ n p, new n = some p → main.getD n default = p) : patch main.length new main = main := by
  unfold patch
  apply List.ext_getElem
  · rw [List.length_map, List.length_range]
  · intro n hn hn'
    rw [List.getElem_map, List.getElem_range]
    have hget : main.getD n default = main[n] := List.getD_eq_getElem _ _ hn'
    cases hnew : new n with
    | none => exact hget
    | some p => exact (h n p hnew).symm.trans hget

/-! ## What happens short of a commit -/

/-- The `n`-th page is written; the file grows as far as it has to. -/
def write (n : Nat) (p : P) (main : List P) : List P :=
  (main ++ List.replicate (n + 1 - main.length) default).set n p

theorem getD_write_ne {n i : Nat} (h : i ≠ n) (p : P) (main : List P) :
    (write n p main).getD i default = main.getD i default := by
  unfold write
  simp only [List.getD_eq_getElem?_getD]
  rw [List.getElem?_set_ne (Ne.symm h)]
  by_cases hi : i < main.length
  · rw [List.getElem?_append_left hi]
  · have hlen : main.length ≤ i := Nat.le_of_not_lt hi
    rw [List.getElem?_append_right hlen, List.getElem?_eq_none hlen, List.getElem?_replicate]
    split <;> rfl

theorem write_ne_nil (n : Nat) (p : P) (main : List P) : write n p main ≠ [] := by
  unfold write
  intro h
  have hlen := congrArg List.length h
  simp only [List.length_set, List.length_append, List.length_replicate, List.length_nil] at hlen
  omega

/-- The last committed content of a page goes into the main file. -/
def Store.backfill (s : Store P) (n : Nat) : Store P :=
  match latest (committed s.wal) n with
  | none => s
  | some p => { s with main := write n p s.main }

/-- What recovery and the last connection to close leave: everything in the main file. -/
def Store.settle (s : Store P) : Store P := { main := s.pages }

/-- A transaction writes down the pages it is about to overwrite. -/
def Store.enter (s : Store P) (ns : List Nat) : Store P :=
  { s with
    journal := some
      { size := s.main.length
        originals := ns.map fun n => (n, s.main.getD n default) } }

/-- A step of a program that commits nothing. -/
inductive Quiet : Store P → Store P → Prop
  | pending (s : Store P) (frames : List (Frame P)) (h : ∀ f ∈ frames, f.commit = none) :
      Quiet s { s with wal := s.wal ++ frames }
  | backfill (s : Store P) (n : Nat) (hmain : s.main ≠ []) (hjournal : s.journal = none) :
      Quiet s (s.backfill n)
  | enter (s : Store P) (ns : List Nat) (hjournal : s.journal = none) : Quiet s (s.enter ns)
  | overwrite (s : Store P) (n : Nat) (p : P) (j : Journal P) (hmain : s.main ≠ [])
      (hjournal : s.journal = some j) (h : n < j.size → (j.originals.lookup n).isSome) :
      Quiet s { s with main := write n p s.main }
  | settle (s : Store P) : Quiet s s.settle

theorem lay_append {frames : List (Frame P)} (h : ∀ f ∈ frames, f.commit = none) (main : List P)
    (wal : List (Frame P)) : lay main (wal ++ frames) = lay main wal := by
  unfold lay sizeAfter
  rw [committed_append h]

/-- A page that the log holds may be written into the main file at any time. -/
theorem lay_write {wal : List (Frame P)} {n : Nat} {p : P} (h : latest (committed wal) n = some p)
    (main : List P) : lay (write n p main) wal = lay main wal := by
  unfold lay
  cases hs : sizeAfter wal with
  | none =>
    -- without a commit the log holds no page
    rw [committed_of_sizeAfter hs] at h
    cases h
  | some size =>
    apply patch_congr
    intro i _ hi
    apply getD_write_ne
    rintro rfl
    rw [h] at hi
    cases hi

theorem lookup_originals {main : List P} {ns : List Nat} {n : Nat} {p : P}
    (h : (ns.map fun n => (n, main.getD n default)).lookup n = some p) : main.getD n default = p := by
  induction ns with
  | nil => cases h
  | cons m ns ih =>
    rw [List.map_cons, List.lookup_cons] at h
    by_cases hn : n = m
    · subst hn
      rw [beq_self_eq_true] at h
      exact Option.some.inj h
    · rw [beq_false_of_ne hn] at h
      exact ih h

theorem restored_enter {s : Store P} (hjournal : s.journal = none) (ns : List Nat) :
    (s.enter ns).restored = s.restored := by
  unfold Store.restored
  rw [hjournal]
  show (if s.main.isEmpty then [] else patch s.main.length _ s.main) = s.main
  cases hmain : s.main with
  | nil => rfl
  | cons p main => exact patch_self fun n p h => lookup_originals h

theorem restored_overwrite {s : Store P} {n : Nat} {j : Journal P} (hmain : s.main ≠ [])
    (hjournal : s.journal = some j) (h : n < j.size → (j.originals.lookup n).isSome) (p : P) :
    ({ s with main := write n p s.main } : Store P).restored = s.restored := by
  unfold Store.restored
  rw [hjournal]
  have hne : (write n p s.main).isEmpty = false := by
    simpa using write_ne_nil n p s.main
  have hne' : s.main.isEmpty = false := by simpa using hmain
  simp only [hne, hne', Bool.false_eq_true, if_false]
  apply patch_congr
  intro i hi hnone
  apply getD_write_ne
  rintro rfl
  have hsome := h hi
  rw [hnone] at hsome
  cases hsome

/-- Short of a commit, a reader finds what it found before. -/
theorem Quiet.pages_eq {s s' : Store P} (h : Quiet s s') : s'.pages = s.pages := by
  cases h with
  | pending frames h =>
    show (if s.restored.isEmpty then [] else lay s.restored (s.wal ++ frames)) = s.pages
    rw [lay_append h]
    rfl
  | backfill n hmain hjournal =>
    unfold Store.backfill
    cases hl : latest (committed s.wal) n with
    | none => rfl
    | some p =>
      have hne : (write n p s.main).isEmpty = false := by simpa using write_ne_nil n p s.main
      have hne' : s.main.isEmpty = false := by simpa using hmain
      unfold Store.pages Store.restored
      simp only [hjournal, hne, hne', Bool.false_eq_true, if_false]
      exact lay_write hl _
  | enter ns hjournal =>
    unfold Store.pages
    rw [restored_enter hjournal]
    rfl
  | overwrite n p j hmain hjournal h =>
    unfold Store.pages
    rw [restored_overwrite hmain hjournal h]
  | settle => exact pages_bare _

/-- Over a whole run without a commit too. -/
theorem pages_of_quiet {s s' : Store P} (h : Relation.ReflTransGen Quiet s s') :
    s'.pages = s.pages := by
  induction h with
  | refl => rfl
  | tail _ hstep ih => exact hstep.pages_eq.trans ih

end Inhabited

end Logic.Pager
