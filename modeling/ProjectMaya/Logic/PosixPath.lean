import Mathlib.Data.List.Infix
import Mathlib.Data.String.Basic

/-! # POSIX paths, as `pathlib` reads and writes them

`PurePath` is a path as it was written; `ResolvedPath` is what `resolve` returns: absolute,
with names that are neither empty, `.` nor `..` and contain no slash (`ResolvedPath.valid`).
Writing a resolved path and reading it again gives it back (`parse_text`). -/

namespace Logic

inductive Anchor where
  | relative
  | root
  /-- `//`, which POSIX keeps apart from `/` -/
  | doubleRoot
  deriving DecidableEq, Repr

structure PurePath where
  anchor : Anchor
  parts : List String
  deriving DecidableEq, Repr

namespace PurePath

def anchorOf : List Char → Anchor
  | '/' :: '/' :: '/' :: _ => .root
  | '/' :: '/' :: _ => .doubleRoot
  | '/' :: _ => .root
  | _ => .relative

/-- A component that a path keeps. -/
def kept (part : List Char) : Bool := part ≠ [] && part ≠ ['.']

/-- `Path(text)` -/
def parse (text : String) : PurePath where
  anchor := anchorOf text.toList
  parts := ((text.toList.splitOn '/').filter kept).map String.ofList

def anchorText : Anchor → List Char
  | .relative => []
  | .root => ['/']
  | .doubleRoot => ['/', '/']

/-- `path.as_posix()`, which is `str(path)` -/
def text (p : PurePath) : String :=
  if p.anchor = .relative ∧ p.parts = [] then "."
  else String.ofList (anchorText p.anchor ++ ['/'].intercalate (p.parts.map String.toList))

/-- `a / b` -/
def join (a b : PurePath) : PurePath :=
  if b.anchor = .relative then { a with parts := a.parts ++ b.parts } else b

def isAbsolute (p : PurePath) : Bool := p.anchor ≠ .relative

/-- `path.parents`, in no particular order. -/
def parents (p : PurePath) : List PurePath := p.parts.inits.dropLast.map fun parts => { p with parts }

theorem mem_parents {p q : PurePath} :
    q ∈ p.parents ↔ q.anchor = p.anchor ∧ ∃ rest, rest ≠ [] ∧ p.parts = q.parts ++ rest := by
  obtain ⟨anchor, parts⟩ := p
  have hinits : ∀ x : List String, x ∈ parts.inits.dropLast ↔ ∃ rest, rest ≠ [] ∧ parts = x ++ rest := by
    intro x
    induction parts generalizing x with
    | nil => simp
    | cons a as ih =>
      have hne : as.inits.map (fun t => a :: t) ≠ [] := by cases as <;> simp
      rw [List.inits_cons, List.dropLast_cons_of_ne_nil hne, ← List.map_dropLast, List.mem_cons]
      constructor
      · rintro (rfl | hx)
        · exact ⟨a :: as, by simp, rfl⟩
        · obtain ⟨y, hy, rfl⟩ := List.mem_map.mp hx
          obtain ⟨rest, hr, he⟩ := (ih y).mp hy
          exact ⟨rest, hr, by rw [he]; rfl⟩
      · rintro ⟨rest, hr, he⟩
        cases x with
        | nil => exact .inl rfl
        | cons b x =>
          simp only [List.cons_append, List.cons.injEq] at he
          right
          rw [List.mem_map]
          exact ⟨x, (ih x).mpr ⟨rest, hr, he.2⟩, by rw [he.1]⟩
  unfold parents
  rw [List.mem_map]
  constructor
  · rintro ⟨x, hx, rfl⟩
    exact ⟨rfl, (hinits x).mp hx⟩
  · rintro ⟨ha, h⟩
    exact ⟨q.parts, (hinits q.parts).mpr h, by cases q; cases ha; rfl⟩

theorem slash_notMem_of_mem_splitOn {l part : List Char} (h : part ∈ l.splitOn '/') :
    '/' ∉ part := by
  induction l generalizing part with
  | nil =>
    rw [List.splitOn_nil, List.mem_singleton] at h
    rw [h]
    exact List.not_mem_nil
  | cons c l ih =>
    rw [List.splitOn_cons_eq_if_modifyHead] at h
    by_cases hc : c = '/'
    · subst hc
      rw [beq_self_eq_true, if_pos rfl] at h
      rcases List.mem_cons.mp h with rfl | h
      · exact List.not_mem_nil
      · exact ih h
    · rw [beq_false_of_ne hc, if_neg (by decide)] at h
      cases hl : l.splitOn '/' with
      | nil =>
        rw [hl] at h
        cases h
      | cons p ps =>
        rw [hl, List.modifyHead_cons] at h
        rcases List.mem_cons.mp h with rfl | h
        · have hp : '/' ∉ p := ih (hl ▸ List.mem_cons_self)
          rw [List.mem_cons]
          rintro (heq | hmem)
          · exact hc heq.symm
          · exact hp hmem
        · exact ih (hl ▸ List.mem_cons_of_mem p h)

/-- The parts that reading a path leaves. -/
def Proper (p : PurePath) : Prop := ∀ n ∈ p.parts, n ≠ "" ∧ n ≠ "." ∧ '/' ∉ n.toList

theorem proper_parse (text : String) : (parse text).Proper := by
  intro n hn
  obtain ⟨part, hpart, rfl⟩ := List.mem_map.mp hn
  obtain ⟨hsplit, hkept⟩ := List.mem_filter.mp hpart
  simp only [kept, Bool.and_eq_true, decide_eq_true_eq] at hkept
  have hslash : '/' ∉ part := slash_notMem_of_mem_splitOn hsplit
  refine ⟨?_, ?_, ?_⟩
  · intro h
    exact hkept.1 (String.ofList_eq_empty_iff.mp h)
  · intro h
    refine hkept.2 ?_
    rw [← String.toList_ofList (l := part), h]
    rfl
  · rwa [String.toList_ofList]

/-- What follows the anchor is empty or starts with a letter that is no slash. -/
theorem intercalate_ne_slash {p : PurePath} (h : p.Proper) (cs : List Char) :
    ['/'].intercalate (p.parts.map String.toList) ≠ '/' :: cs := by
  intro heq
  cases hn : p.parts with
  | nil => rw [hn] at heq; simp at heq
  | cons n ns =>
    obtain ⟨hne, _, hs⟩ := h n (by rw [hn]; exact List.mem_cons_self)
    cases hc : n.toList with
    | nil => exact hne (String.toList_eq_nil_iff.mp hc)
    | cons c rest =>
      have hhead : (['/'].intercalate (p.parts.map String.toList)).head? = some c := by
        rw [hn, List.map_cons, hc]
        cases ns <;> simp [List.intercalate]
      rw [heq] at hhead
      cases hhead
      exact hs (by rw [hc]; exact List.mem_cons_self)

theorem anchorOf_text {p : PurePath} (h : p.Proper) :
    anchorOf (anchorText p.anchor ++ ['/'].intercalate (p.parts.map String.toList)) = p.anchor := by
  have hstart := intercalate_ne_slash h
  generalize hrest : ['/'].intercalate (p.parts.map String.toList) = rest at hstart
  cases rest with
  | nil => cases p.anchor <;> rfl
  | cons c cs =>
    have hc : c ≠ '/' := by
      rintro rfl
      exact hstart cs rfl
    cases p.anchor with
    | relative => simp [anchorText, anchorOf, hc]
    | root => simp [anchorText, anchorOf, hc]
    | doubleRoot => simp [anchorText, anchorOf]

theorem parts_text {p : PurePath} (h : p.Proper) :
    (((['/'].intercalate (p.parts.map String.toList)).splitOn '/').filter kept).map
      String.ofList = p.parts := by
  cases hn : p.parts with
  | nil => simp [kept]
  | cons n ns =>
    rw [← hn, List.splitOn_intercalate]
    · rw [List.filter_eq_self.mpr]
      · rw [List.map_map]
        conv => rhs; rw [← List.map_id p.parts]
        refine List.map_congr_left ?_
        intro m _
        simp
      · intro part hpart
        obtain ⟨m, hm, rfl⟩ := List.mem_map.mp hpart
        obtain ⟨hne, hdot, _⟩ := h m hm
        have h1 : m.toList ≠ [] := fun h => hne (String.toList_eq_nil_iff.mp h)
        have h2 : m.toList ≠ ['.'] := by
          intro h
          exact hdot (String.toList_injective (by rw [h]; rfl))
        simp [kept, h1, h2]
    · intro part hpart
      obtain ⟨m, hm, rfl⟩ := List.mem_map.mp hpart
      exact (h m hm).2.2
    · simp [hn]

/-- Reading the text of a path gives the path. -/
theorem parse_text {p : PurePath} (h : p.Proper) : parse p.text = p := by
  by_cases hdot : p.anchor = .relative ∧ p.parts = []
  · obtain ⟨anchor, parts⟩ := p
    obtain ⟨rfl, rfl⟩ := hdot
    rfl
  · have htext : p.text.toList =
        anchorText p.anchor ++ ['/'].intercalate (p.parts.map String.toList) := by
      unfold text
      rw [if_neg hdot, String.toList_ofList]
    have hsplit : (p.text.toList.splitOn '/').filter kept =
        ((['/'].intercalate (p.parts.map String.toList)).splitOn '/').filter kept := by
      rw [htext]
      cases p.anchor with
      | relative => rfl
      | root => simp [anchorText, List.splitOn_cons_eq_if_modifyHead, kept]
      | doubleRoot => simp [anchorText, List.splitOn_cons_eq_if_modifyHead, kept]
    unfold parse
    rw [hsplit, parts_text h, htext, anchorOf_text h]

end PurePath

structure ResolvedPath where
  doubleRoot : Bool := false
  names : List String
  valid : ∀ n ∈ names, n ≠ "" ∧ n ≠ "." ∧ n ≠ ".." ∧ '/' ∉ n.toList
  deriving DecidableEq, Repr

namespace ResolvedPath

/-- The name of a session database is one of a path. -/
theorem stateDb_valid : ∀ n ∈ ["state.db"], n ≠ "" ∧ n ≠ "." ∧ n ≠ ".." ∧ '/' ∉ n.toList := by
  decide

def toPure (p : ResolvedPath) : PurePath where
  anchor := if p.doubleRoot then .doubleRoot else .root
  parts := p.names

def text (p : ResolvedPath) : String := p.toPure.text

theorem proper_toPure (p : ResolvedPath) : p.toPure.Proper := by
  intro n hn
  obtain ⟨hne, hdot, -, hslash⟩ := p.valid n hn
  exact ⟨hne, hdot, hslash⟩

/-- Reading the text of a resolved path gives the path. -/
theorem parse_text (p : ResolvedPath) : PurePath.parse p.text = p.toPure :=
  PurePath.parse_text p.proper_toPure

end ResolvedPath

end Logic
