import ProjectMaya.LocalJson
import ProjectMaya.Logic.JsonText

/-! # Search in the JSON retriever

`search` looks for the query in the JSON text of a record, where quotes, backslashes and all
characters but printable ASCII are escaped. A value that contains the query is found where the query
lies in characters that JSON writes as they are, and elsewhere by accident (`search_complete_iff`). -/

namespace ProjectMaya.LocalJson

open Logic
open ProjectMaya.Vector (Text text Value Doc Python Failure keyLe)
open Logic.Json (escapeChar)

/-! ## The JSON text of a record -/

section

variable {ν : Type}

def quote (s : Text) : Text := '"' :: (s.flatMap escapeChar ++ ['"'])

def joinItems : List Text → Text
  | [] => []
  | [v] => v
  | v :: rest => v ++ ',' :: ' ' :: joinItems rest

/-- `"key": value` -/
def member (f : Text × Text) : Text := quote f.1 ++ ':' :: ' ' :: f.2

def memberLe (a b : Text × Text) : Prop := a.1 ≤ b.1

instance : DecidableRel memberLe := fun a b => inferInstanceAs (Decidable (a.1 ≤ b.1))

section

variable [Encoder ν]

mutual

/-- `json.dumps(value, sort_keys=True)` -/
def dumps : Value ν → Text
  | .null => text "null"
  | .bool b => if b then text "true" else text "false"
  | .int n => Json.decimal n
  | .float x => Encoder.text x
  | .str s => quote s
  | .list _ items => '[' :: (joinItems (dumpItems items) ++ [']'])
  | .dict fields =>
    '{' :: (joinItems (((dumpFields fields).insertionSort memberLe).map member) ++ ['}'])

def dumpItems : List (Value ν) → List Text
  | [] => []
  | v :: rest => dumps v :: dumpItems rest

def dumpFields : List (Text × Value ν) → List (Text × Text)
  | [] => []
  | (k, v) :: rest => (k, dumps v) :: dumpFields rest

end

end

mutual

/-- The texts in a value, at any depth; keys are no values. -/
def strings : Value ν → List Text
  | .str s => [s]
  | .list _ items => stringsItems items
  | .dict fields => stringsFields fields
  | _ => []

def stringsItems : List (Value ν) → List Text
  | [] => []
  | v :: rest => strings v ++ stringsItems rest

def stringsFields : List (Text × Value ν) → List Text
  | [] => []
  | (_, v) :: rest => strings v ++ stringsFields rest

end

/-! ## `search` -/

/-- `str.casefold`; `fold` is the case folding of a character. -/
def casefold (fold : Char → Text) (t : Text) : Text := t.flatMap fold

/-- `not (category is not None and record.get("category") != category)` -/
def ofCategory (category : Option Text) (d : Doc ν) : Bool :=
  match category, d.get (text "category") with
  | none, _ => true
  | some c, .str s => s = c
  | some _, _ => false

variable [Encoder ν]

/-- `needle in haystack` -/
def shows (fold : Char → Text) (needle : Text) (d : Doc ν) : Bool :=
  decide (needle <:+: casefold fold (dumps (.dict d.rows)))

/-- The loop of `search`, with the matches so far. -/
def scan (fold : Char → Text) (needle : Text) (category : Option Text) (limit : Nat) :
    List (Doc ν) → List (Doc ν) → Except Failure (List (Doc ν))
  | matched, [] => .ok matched
  | matched, d :: rest =>
    if ofCategory category d then
      if writableFields d.rows then
        let found := if shows fold needle d then matched ++ [d] else matched
        if limit ≤ found.length then .ok found else scan fold needle category limit found rest
      else .error .typeError
    else scan fold needle category limit matched rest

def search [Python ν] (fold : Char → Text) (m : Retriever ν) (query : Text) (category : Option Text)
    (limit : Int) : Except Failure (List (Doc ν)) :=
  if limit < 1 then .error (.valueError "limit must be positive")
  else scan fold (casefold fold query) category limit.toNat [] (m.records.rows.map Prod.snd)

/-! ## What is found -/

omit [Encoder ν] in
/-- One of its texts contains the query, by case folding. -/
def Contains (fold : Char → Text) (query : Text) (d : Doc ν) : Prop :=
  ∃ s ∈ stringsFields d.rows, casefold fold query <:+: casefold fold s

/-- Every record of the category that contains the query is returned. -/
def Complete [Python ν] (fold : Char → Text) (m : Retriever ν) (query : Text)
    (category : Option Text) (limit : Int) : Prop :=
  ∃ out, search fold m query category limit = .ok out ∧
    ∀ r ∈ m.records, ofCategory category r.2 = true → Contains fold query r.2 → r.2 ∈ out

omit [Encoder ν] in
/-- The query lies in characters of a text that JSON writes as they are. -/
def Literal (fold : Char → Text) (query : Text) (d : Doc ν) : Prop :=
  ∃ s ∈ stringsFields d.rows, ∃ w, w <:+: s ∧ (∀ c ∈ w, escapeChar c = [c]) ∧
    casefold fold query <:+: casefold fold w

/-- The query is in the JSON text, wherever. -/
def Written (fold : Char → Text) (query : Text) (d : Doc ν) : Prop :=
  casefold fold query <:+: casefold fold (dumps (.dict d.rows))

theorem shows_eq_true {fold : Char → Text} {query : Text} {d : Doc ν} :
    shows fold (casefold fold query) d = true ↔ Written fold query d := decide_eq_true_iff

/-- A limit that leaves room for all records is no limit. -/
theorem scan_eq (fold : Char → Text) (needle : Text) (category : Option Text) {limit : Nat}
    (matched ds : List (Doc ν)) (h : matched.length + ds.length ≤ limit) :
    (∀ d ∈ ds, ofCategory category d = true → writableFields d.rows = true) ∧
      scan fold needle category limit matched ds =
        .ok (matched ++ ds.filter fun d => ofCategory category d && shows fold needle d) ∨
    (¬ ∀ d ∈ ds, ofCategory category d = true → writableFields d.rows = true) ∧
      scan fold needle category limit matched ds = .error .typeError := by
  induction ds generalizing matched with
  | nil => exact .inl ⟨fun d hd => (by cases hd), by rw [scan, List.filter_nil, List.append_nil]⟩
  | cons d ds ih =>
    rw [List.length_cons] at h
    simp only [List.forall_mem_cons]
    unfold scan
    by_cases hcat : ofCategory category d = true
    · rw [if_pos hcat]
      by_cases hwrit : writableFields d.rows = true
      · rw [if_pos hwrit]
        generalize hfound : (if shows fold needle d = true then matched ++ [d] else matched) = found
        have hlen : found.length ≤ matched.length + 1 := by
          rw [← hfound]
          split
          · rw [List.length_append, List.length_singleton]
          · omega
        have hout : matched ++ (d :: ds).filter (fun d => ofCategory category d && shows fold needle d) =
            found ++ ds.filter fun d => ofCategory category d && shows fold needle d := by
          rw [List.filter_cons, hcat, Bool.true_and, ← hfound]
          split
          · rw [List.append_assoc, List.singleton_append]
          · rfl
        rw [hout]
        show _ ∧ (if limit ≤ found.length then _ else _) = _ ∨
          _ ∧ (if limit ≤ found.length then _ else _) = _
        by_cases hstop : limit ≤ found.length
        · -- the last record has been reached
          have hnil : ds = [] := List.eq_nil_of_length_eq_zero (by omega)
          rw [if_pos hstop, hnil]
          exact .inl ⟨⟨fun _ => hwrit, fun d hd => (by cases hd)⟩,
            by rw [List.filter_nil, List.append_nil]⟩
        · rw [if_neg hstop]
          simp only [hwrit, implies_true, true_and]
          exact ih found (by omega)
      · rw [if_neg hwrit]
        exact .inr ⟨fun hall => hwrit (hall.1 hcat), rfl⟩
    · rw [if_neg hcat]
      have hout : (d :: ds).filter (fun d => ofCategory category d && shows fold needle d) =
          ds.filter fun d => ofCategory category d && shows fold needle d := by
        rw [List.filter_cons, if_neg (by simp [hcat])]
      rw [hout]
      rcases ih matched (by omega) with ⟨hall, hscan⟩ | ⟨hall, hscan⟩
      · exact .inl ⟨⟨fun h => absurd h hcat, hall⟩, hscan⟩
      · exact .inr ⟨fun h => hall h.2, hscan⟩

/-! ## Texts in the JSON text -/

omit [Encoder ν] in
theorem infix_joinItems {parts : List Text} {part : Text} (h : part ∈ parts) :
    part <:+: joinItems parts := by
  induction parts with
  | nil => cases h
  | cons first rest ih =>
    cases rest with
    | nil =>
      rw [List.mem_singleton] at h
      rw [h]
      exact List.infix_rfl
    | cons next rest =>
      show part <:+: first ++ ',' :: ' ' :: joinItems (next :: rest)
      cases h with
      | head => exact (List.prefix_append _ _).isInfix
      | tail _ h =>
        exact (ih h).trans (((List.suffix_cons _ _).trans (List.suffix_cons _ _)).trans
          (List.suffix_append _ _)).isInfix

omit [Encoder ν] in
theorem quoted_infix_member (f : Text × Text) : f.2 <:+: member f :=
  (((List.suffix_cons _ _).trans (List.suffix_cons _ _)).trans (List.suffix_append _ _)).isInfix

theorem infix_dict {fields : List (Text × Value ν)} {f : Text × Text} (h : f ∈ dumpFields fields) :
    f.2 <:+: dumps (.dict fields) := by
  have hmem : member f ∈ ((dumpFields fields).insertionSort memberLe).map member :=
    List.mem_map_of_mem ((List.mem_insertionSort memberLe).mpr h)
  refine (quoted_infix_member f).trans ((infix_joinItems hmem).trans ?_)
  rw [dumps]
  exact ((List.prefix_append _ _).isInfix).trans (List.suffix_cons _ _).isInfix

mutual

/-- JSON writes every text of a value, escaped. -/
theorem infix_dumps : ∀ (v : Value ν), ∀ s ∈ strings v, s.flatMap escapeChar <:+: dumps v
  | .str t, s, h => by
    rw [strings, List.mem_singleton] at h
    rw [h, dumps, quote]
    exact ((List.prefix_append _ _).isInfix).trans (List.suffix_cons _ _).isInfix
  | .list _ items, s, h => by
    obtain ⟨part, hpart, hs⟩ := infix_dumpItems items s h
    refine hs.trans ((infix_joinItems hpart).trans ?_)
    rw [dumps]
    exact ((List.prefix_append _ _).isInfix).trans (List.suffix_cons _ _).isInfix
  | .dict fields, s, h => by
    obtain ⟨f, hf, hs⟩ := infix_dumpFields fields s h
    exact hs.trans (infix_dict hf)
  | .null, s, h => by cases h
  | .bool _, s, h => by cases h
  | .int _, s, h => by cases h
  | .float _, s, h => by cases h

theorem infix_dumpItems : ∀ (items : List (Value ν)), ∀ s ∈ stringsItems items,
    ∃ part ∈ dumpItems items, s.flatMap escapeChar <:+: part
  | [], s, h => by cases h
  | v :: rest, s, h => by
    rcases List.mem_append.mp h with h | h
    · exact ⟨dumps v, List.mem_cons_self, infix_dumps v s h⟩
    · obtain ⟨part, hpart, hs⟩ := infix_dumpItems rest s h
      exact ⟨part, List.mem_cons_of_mem _ hpart, hs⟩

theorem infix_dumpFields : ∀ (fields : List (Text × Value ν)), ∀ s ∈ stringsFields fields,
    ∃ f ∈ dumpFields fields, s.flatMap escapeChar <:+: f.2
  | [], s, h => by cases h
  | (k, v) :: rest, s, h => by
    rcases List.mem_append.mp h with h | h
    · exact ⟨(k, dumps v), List.mem_cons_self, infix_dumps v s h⟩
    · obtain ⟨f, hf, hs⟩ := infix_dumpFields rest s h
      exact ⟨f, List.mem_cons_of_mem _ hf, hs⟩

end

omit [Encoder ν] in
theorem flatMap_escapeChar_of_plain {w : Text} (h : ∀ c ∈ w, escapeChar c = [c]) :
    w.flatMap escapeChar = w := by
  induction w with
  | nil => rfl
  | cons c w ih =>
    obtain ⟨hc, hw⟩ := List.forall_mem_cons.mp h
    rw [List.flatMap_cons, hc, ih hw, List.singleton_append]

/-- Where the query lies in characters that are not escaped, it is in the JSON text. -/
theorem Literal.written {fold : Char → Text} {query : Text} {d : Doc ν}
    (h : Literal fold query d) : Written fold query d := by
  obtain ⟨s, hs, w, hw, hplain, hquery⟩ := h
  have hescaped := hw.flatMap escapeChar
  rw [flatMap_escapeChar_of_plain hplain] at hescaped
  exact hquery.trans ((hescaped.trans (infix_dumps (.dict d.rows) s hs)).flatMap fold)

/-! ## What is never found -/

omit [Encoder ν] in
/-- A character that JSON text can have. -/
def Printable (c : Char) : Prop := 0x20 ≤ c.toNat ∧ c.toNat ≤ 0x7e

omit [Encoder ν] in
theorem printable_of_all {t : Text}
    (h : (t.all fun c => decide (0x20 ≤ c.toNat) && decide (c.toNat ≤ 0x7e)) = true) :
    ∀ c ∈ t, Printable c := by
  intro c hc
  have hall := List.all_eq_true.mp h c hc
  rw [Bool.and_eq_true, decide_eq_true_eq, decide_eq_true_eq] at hall
  exact hall

omit [Encoder ν] in
theorem printable_digitChar : ∀ n, n < 16 → Printable n.digitChar := by
  unfold Printable
  decide

omit [Encoder ν] in
theorem printable_hexDigits4 {n : Nat} (h : n < 0x10000) : ∀ c ∈ Json.hexDigits4 n, Printable c := by
  rw [Json.hexDigits4_eq h]
  simp only [List.forall_mem_cons, List.not_mem_nil, false_implies, implies_true, and_true]
  exact ⟨printable_digitChar _ (by omega), printable_digitChar _ (by omega),
    printable_digitChar _ (by omega), printable_digitChar _ (by omega)⟩

omit [Encoder ν] in
theorem printable_unicodeEscape {n : Nat} (h : n < 0x110000) :
    ∀ c ∈ Json.unicodeEscape n, Printable c := by
  have hback : Printable '\\' := by unfold Printable; decide
  have hu : Printable 'u' := by unfold Printable; decide
  unfold Json.unicodeEscape
  split
  · rw [List.forall_mem_cons, List.forall_mem_cons]
    exact ⟨hback, hu, printable_hexDigits4 (by assumption)⟩
  · rw [List.forall_mem_append]
    simp only [List.forall_mem_cons]
    exact ⟨⟨hback, hu, printable_hexDigits4 (by omega)⟩, hback, hu, printable_hexDigits4 (by omega)⟩

omit [Encoder ν] in
theorem printable_escapeChar (c : Char) : ∀ b ∈ escapeChar c, Printable b := by
  have hpair : ∀ a : Char, Printable a → ∀ b ∈ ['\\', a], Printable b := by
    intro a ha
    simp only [List.forall_mem_cons, List.not_mem_nil, false_implies, implies_true, and_true]
    exact ⟨by unfold Printable; decide, ha⟩
  have hvalid := Json.toNat_valid c
  unfold escapeChar
  repeat' split
  all_goals first
    | exact hpair _ (by unfold Printable; decide)
    | exact printable_unicodeEscape (by omega)
    | skip
  rw [List.forall_mem_singleton]
  assumption

omit [Encoder ν] in
theorem printable_quote (s : Text) : ∀ c ∈ quote s, Printable c := by
  have hmark : Printable '"' := by unfold Printable; decide
  unfold quote
  simp only [List.forall_mem_cons, List.forall_mem_append, List.mem_flatMap, List.not_mem_nil,
    false_implies, implies_true, and_true]
  refine ⟨hmark, ?_, hmark⟩
  rintro b ⟨c, -, hb⟩
  exact printable_escapeChar c b hb

omit [Encoder ν] in
theorem printable_decimal (n : Int) : ∀ c ∈ Json.decimal n, Printable c := by
  have hdigits : ∀ m : Nat, ∀ c ∈ Nat.toDigits 10 m, Printable c := by
    intro m c hc
    have hdigit := Nat.isDigit_of_mem_toDigits (by decide) (by decide) hc
    simp only [Char.isDigit, Bool.and_eq_true, decide_eq_true_eq, UInt32.le_iff_toNat_le] at hdigit
    have hlow : (48 : UInt32).toNat ≤ c.val.toNat := hdigit.1
    have hhigh : c.val.toNat ≤ (57 : UInt32).toNat := hdigit.2
    show 0x20 ≤ c.val.toNat ∧ c.val.toNat ≤ 0x7e
    exact ⟨le_trans (by decide) hlow, le_trans hhigh (by decide)⟩
  cases n with
  | ofNat m => exact hdigits m
  | negSucc m =>
    rw [Json.decimal, List.forall_mem_cons]
    exact ⟨by unfold Printable; decide, hdigits _⟩

omit [Encoder ν] in
theorem printable_joinItems {parts : List Text} (h : ∀ part ∈ parts, ∀ c ∈ part, Printable c) :
    ∀ c ∈ joinItems parts, Printable c := by
  have hcomma : Printable ',' := by unfold Printable; decide
  have hblank : Printable ' ' := by unfold Printable; decide
  induction parts with
  | nil => exact fun c hc => by cases hc
  | cons part rest ih =>
    obtain ⟨hpart, hrest⟩ := List.forall_mem_cons.mp h
    cases rest with
    | nil => exact hpart
    | cons next rest =>
      show ∀ c ∈ part ++ ',' :: ' ' :: joinItems (next :: rest), Printable c
      rw [List.forall_mem_append, List.forall_mem_cons, List.forall_mem_cons]
      exact ⟨hpart, hcomma, hblank, ih hrest⟩

omit [Encoder ν] in
theorem printable_member {f : Text × Text} (h : ∀ c ∈ f.2, Printable c) :
    ∀ c ∈ member f, Printable c := by
  unfold member
  rw [List.forall_mem_append, List.forall_mem_cons, List.forall_mem_cons]
  exact ⟨printable_quote f.1, by unfold Printable; decide, by unfold Printable; decide, h⟩

omit [Encoder ν] in
theorem printable_enclosed {a b : Char} {t : Text} (ha : Printable a) (hb : Printable b)
    (h : ∀ c ∈ t, Printable c) : ∀ c ∈ a :: (t ++ [b]), Printable c := by
  rw [List.forall_mem_cons, List.forall_mem_append, List.forall_mem_singleton]
  exact ⟨ha, h, hb⟩

mutual

/-- JSON text is printable ASCII, if the texts of floats are. -/
theorem printable_dumps (hfloat : ∀ x : ν, ∀ c ∈ Encoder.text x, Printable c) :
    ∀ v : Value ν, ∀ c ∈ dumps v, Printable c
  | .null => printable_of_all (t := text "null") (by decide)
  | .bool true => printable_of_all (t := text "true") (by decide)
  | .bool false => printable_of_all (t := text "false") (by decide)
  | .int n => printable_decimal n
  | .float x => hfloat x
  | .str s => printable_quote s
  | .list _ items => by
    rw [dumps]
    exact printable_enclosed (by unfold Printable; decide) (by unfold Printable; decide)
      (printable_joinItems (printable_dumpItems hfloat items))
  | .dict fields => by
    rw [dumps]
    refine printable_enclosed (by unfold Printable; decide) (by unfold Printable; decide)
      (printable_joinItems fun part hpart => ?_)
    obtain ⟨f, hf, rfl⟩ := List.mem_map.mp hpart
    exact printable_member
      (printable_dumpFields hfloat fields f ((List.mem_insertionSort memberLe).mp hf))

theorem printable_dumpItems (hfloat : ∀ x : ν, ∀ c ∈ Encoder.text x, Printable c) :
    ∀ items : List (Value ν), ∀ part ∈ dumpItems items, ∀ c ∈ part, Printable c
  | [], part, h => by cases h
  | v :: rest, part, h => by
    cases h with
    | head => exact printable_dumps hfloat v
    | tail _ h => exact printable_dumpItems hfloat rest part h

theorem printable_dumpFields (hfloat : ∀ x : ν, ∀ c ∈ Encoder.text x, Printable c) :
    ∀ fields : List (Text × Value ν), ∀ f ∈ dumpFields fields, ∀ c ∈ f.2, Printable c
  | [], f, h => by cases h
  | (k, v) :: rest, f, h => by
    cases h with
    | head => exact printable_dumps hfloat v
    | tail _ h => exact printable_dumpFields hfloat rest f h

end

/-- A query with a character that no printable ASCII is folded to is never found. -/
theorem not_written {fold : Char → Text} {query : Text} {c : Char}
    (hfloat : ∀ x : ν, ∀ c ∈ Encoder.text x, Printable c) (hc : c ∈ casefold fold query)
    (hfold : ∀ b, Printable b → c ∉ fold b) (d : Doc ν) : ¬ Written fold query d := by
  intro h
  obtain ⟨b, hb, hcb⟩ := List.mem_flatMap.mp (h.subset hc)
  exact hfold b (printable_dumps hfloat (.dict d.rows) b hb) hcb

end

namespace Sample

/-- Case folding of ASCII. -/
def lower (c : Char) : Text := [c.toLower]

def cafe : Doc Rat :=
  Doc.ofFields [(text "id", .str (text "a")), (text "content", .str (text "café"))]

def menu : Retriever Rat where
  records := ⟨[(text "a", cafe)], by decide⟩
  keyed := by
    intro r hr
    obtain rfl : r = (text "a", cafe) := List.mem_singleton.mp hr
    rfl

end Sample

end ProjectMaya.LocalJson
