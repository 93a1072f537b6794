import Mathlib.Data.List.Basic

/-! # Regular expressions, as `re` searches them

A pattern is tried at a cursor: the character before it, if any, and the rest of the text.
`Regex.ends` lists every place where a match from there can end, so what backtracking would
find is a choice among them. -/

namespace Logic

structure Cursor where
  before : Option Char
  rest : List Char
  deriving DecidableEq, Repr

inductive Regex where
  | empty
  | one (p : Char → Bool)
  /-- Characters of one class, as many as `count` allows. -/
  | run (p : Char → Bool) (count : Nat → Bool)
  /-- `\b` -/
  | boundary (word : Char → Bool)
  | seq (r s : Regex)
  | alt (r s : Regex)

namespace Regex

/-- The text `s`, where `same` says which characters are taken for each other. -/
def literal (same : Char → Char → Bool) (s : String) : Regex :=
  s.toList.foldr (fun c r => .seq (.one (same c)) r) .empty

/-- `(?:r)?` -/
def optional (r : Regex) : Regex := .alt r .empty

def runEnds (p : Char → Bool) (count : Nat → Bool) : Nat → Option Char → List Char → List Cursor
  | n, before, [] => if count n then [⟨before, []⟩] else []
  | n, before, c :: cs =>
    (if count n then [⟨before, c :: cs⟩] else []) ++
      if p c then runEnds p count (n + 1) (some c) cs else []

/-- The cursors at which a match from this one can end. -/
def ends : Regex → Cursor → List Cursor
  | .empty, c => [c]
  | .one _, ⟨_, []⟩ => []
  | .one p, ⟨_, c :: cs⟩ => if p c then [⟨some c, cs⟩] else []
  | .run p count, ⟨before, cs⟩ => runEnds p count 0 before cs
  | .boundary word, c => if c.before.any word = c.rest.head?.any word then [] else [c]
  | .seq r s, c => (r.ends c).flatMap s.ends
  | .alt r s, c => r.ends c ++ s.ends c

def searchFrom (r : Regex) : Option Char → List Char → Bool
  | before, [] => !(r.ends ⟨before, []⟩).isEmpty
  | before, c :: cs => !(r.ends ⟨before, c :: cs⟩).isEmpty || r.searchFrom (some c) cs

/-- `pattern.search(s)` finds something. -/
def search (r : Regex) (s : String) : Bool := r.searchFrom none s.toList

end Regex

end Logic
