import Mathlib.Data.List.Sort
import Mathlib.Order.Lex
import Mathlib.Data.List.Lex
import Mathlib.Data.String.Basic

/-! # Compact JSON text with sorted keys

`Json.dumps` is the text of `json.dumps(value, sort_keys=True,
separators=(",", ":"))`: objects in key order, no blanks, every character outside
printable ASCII escaped.  `utf8` is `str.encode("utf-8")`.

An object's text does not depend on the order in which its fields were put in
(`dumps_obj_perm`). -/

namespace Logic

inductive Json where
  | null
  | bool (b : Bool)
  | num (n : Int)
  | str (s : String)
  | arr (items : List Json)
  | obj (fields : List (String × Json))

namespace Json

def hexDigits4 (n : Nat) : List Char :=
  let ds := Nat.toDigits 16 n
  List.replicate (4 - ds.length) '0' ++ ds

/-- `\uXXXX`, as a surrogate pair above the basic plane. -/
def unicodeEscape (n : Nat) : List Char :=
  if n < 0x10000 then '\\' :: 'u' :: hexDigits4 n
  else
    ('\\' :: 'u' :: hexDigits4 (0xd800 + (n - 0x10000) / 0x400)) ++
      ('\\' :: 'u' :: hexDigits4 (0xdc00 + (n - 0x10000) % 0x400))

def escapeChar (c : Char) : List Char :=
  if c = '"' then ['\\', '"']
  else if c = '\\' then ['\\', '\\']
  else if c = '\n' then ['\\', 'n']
  else if c = '\r' then ['\\', 'r']
  else if c = '\t' then ['\\', 't']
  else if c.toNat = 0x0c then ['\\', 'f']
  else if c.toNat = 0x08 then ['\\', 'b']
  else if 0x20 ≤ c.toNat ∧ c.toNat ≤ 0x7e then [c]
  else unicodeEscape c.toNat

def quote (s : String) : List Char := '"' :: (s.toList.flatMap escapeChar ++ ['"'])

def decimal (n : Int) : List Char :=
  match n with
  | .ofNat n => Nat.toDigits 10 n
  | .negSucc n => '-' :: Nat.toDigits 10 (n + 1)

/-- Keys compare by code points. -/
def keyLe (a b : String × List Char) : Prop := a.1.toList ≤ b.1.toList

instance : DecidableRel keyLe := fun a b => inferInstanceAs (Decidable (a.1.toList ≤ b.1.toList))

def joinFields : List (String × List Char) → List Char
  | [] => []
  | [(k, v)] => quote k ++ ':' :: v
  | (k, v) :: rest => quote k ++ ':' :: (v ++ ',' :: joinFields rest)

def joinItems : List (List Char) → List Char
  | [] => []
  | [v] => v
  | v :: rest => v ++ ',' :: joinItems rest

mutual

def dumps : Json → List Char
  | .null => "null".toList
  | .bool b => if b then "true".toList else "false".toList
  | .num n => decimal n
  | .str s => quote s
  | .arr items => '[' :: (joinItems (dumpItems items) ++ [']'])
  | .obj fields => '{' :: (joinFields ((dumpFields fields).insertionSort keyLe) ++ ['}'])

def dumpItems : List Json → List (List Char)
  | [] => []
  | v :: rest => dumps v :: dumpItems rest

def dumpFields : List (String × Json) → List (String × List Char)
  | [] => []
  | (k, v) :: rest => (k, dumps v) :: dumpFields rest

end

theorem dumpFields_eq_map (fields : List (String × Json)) :
    dumpFields fields = fields.map fun f => (f.1, dumps f.2) := by
  induction fields with
  | nil => rfl
  | cons f rest ih => obtain ⟨k, v⟩ := f; rw [dumpFields, ih]; rfl

instance : Std.Total keyLe := ⟨fun a b => le_total a.1.toList b.1.toList⟩

instance : IsTrans (String × List Char) keyLe := ⟨fun _ _ _ => le_trans⟩

theorem dumps_obj_perm {fields fields' : List (String × Json)} (h : fields.Perm fields')
    (hk : (fields.map Prod.fst).Nodup) : dumps (.obj fields) = dumps (.obj fields') := by
  have hp : (dumpFields fields).Perm (dumpFields fields') := by
    rw [dumpFields_eq_map, dumpFields_eq_map]
    exact h.map _
  have hkeys : ((dumpFields fields).map Prod.fst).Nodup := by
    rw [dumpFields_eq_map, List.map_map]
    exact hk
  have hs : (dumpFields fields).insertionSort keyLe = (dumpFields fields').insertionSort keyLe := by
    refine List.Perm.eq_of_pairwise ?_ (List.pairwise_insertionSort keyLe _)
      (List.pairwise_insertionSort keyLe _)
      ((List.perm_insertionSort keyLe _).trans (hp.trans (List.perm_insertionSort keyLe _).symm))
    intro a b ha hb hab hba
    rw [List.mem_insertionSort] at ha hb
    have hkey : a.1 = b.1 := String.toList_injective (le_antisymm hab hba)
    exact List.inj_on_of_nodup_map hkeys ha (hp.mem_iff.mpr hb) hkey
  rw [dumps, dumps, hs]

end Json

/-- `str.encode("utf-8")`. -/
def utf8 (text : List Char) : List UInt8 := text.flatMap String.utf8EncodeChar

end Logic
