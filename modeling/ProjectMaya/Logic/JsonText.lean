import ProjectMaya.Logic.Json

/-! # The text of a JSON value determines it

`unescape` reads one character of a string back, so no escape is the beginning of another
(`escapeChar_inj`); a number ends where its digits end (`decimal_inj`).  So equal texts have equal
values (`dumps_inj`), up to the order of the fields of an object, which `dumps` forgets
(`sorted`). -/

namespace Logic

namespace Json

/-! ## Characters -/

def hexValue (c : Char) : Nat :=
  if c.toNat ≤ '9'.toNat then c.toNat - '0'.toNat else c.toNat - 'a'.toNat + 10

theorem hexValue_digitChar : ∀ n, n < 16 → hexValue n.digitChar = n := by decide

/-- Four hexadecimal digits. -/
def readHex : List Char → Option (Nat × List Char)
  | a :: b :: c :: d :: rest =>
    some (((hexValue a * 16 + hexValue b) * 16 + hexValue c) * 16 + hexValue d, rest)
  | _ => none

theorem hexDigits4_eq {n : Nat} (h : n < 0x10000) :
    hexDigits4 n = [(n / 0x1000).digitChar, (n / 0x100 % 16).digitChar, (n / 0x10 % 16).digitChar,
      (n % 16).digitChar] := by
  have hz : '0' = Nat.digitChar 0 := rfl
  have hstep : ∀ m, 16 ≤ m → Nat.toDigits 16 m = Nat.toDigits 16 (m / 16) ++ [(m % 16).digitChar] :=
    fun m hm => Nat.toDigits_of_base_le (by decide) hm
  unfold hexDigits4
  dsimp only
  by_cases h1 : n < 0x10
  · rw [Nat.toDigits_of_lt_base h1, Nat.mod_eq_of_lt h1, show n / 0x1000 = 0 by omega,
      show n / 0x100 % 16 = 0 by omega, show n / 0x10 % 16 = 0 by omega, ← hz]
    rfl
  by_cases h2 : n < 0x100
  · rw [hstep n (by omega), Nat.toDigits_of_lt_base (show n / 16 < 16 by omega),
      show n / 0x1000 = 0 by omega, show n / 0x100 % 16 = 0 by omega,
      show n / 0x10 % 16 = n / 16 by omega, ← hz]
    rfl
  by_cases h3 : n < 0x1000
  · rw [hstep n (by omega), hstep (n / 16) (by omega),
      Nat.toDigits_of_lt_base (show n / 16 / 16 < 16 by omega), show n / 0x1000 = 0 by omega,
      show n / 0x100 % 16 = n / 16 / 16 by omega, ← hz]
    rfl
  · rw [hstep n (by omega), hstep (n / 16) (by omega), hstep (n / 16 / 16) (by omega),
      Nat.toDigits_of_lt_base (show n / 16 / 16 / 16 < 16 by omega),
      show n / 0x1000 = n / 16 / 16 / 16 by omega, show n / 0x100 % 16 = n / 16 / 16 % 16 by omega]
    rfl

theorem readHex_hexDigits4 {n : Nat} (h : n < 0x10000) (rest : List Char) :
    readHex (hexDigits4 n ++ rest) = some (n, rest) := by
  rw [hexDigits4_eq h]
  simp only [List.cons_append, List.nil_append, readHex]
  rw [hexValue_digitChar _ (by omega), hexValue_digitChar _ (by omega), hexValue_digitChar _ (by omega),
    hexValue_digitChar _ (by omega)]
  have he : ((n / 0x1000 * 16 + n / 0x100 % 16) * 16 + n / 0x10 % 16) * 16 + n % 16 = n := by omega
  rw [he]

/-- What follows `\u`: a character of the basic plane, or a surrogate pair. -/
def readCode (text : List Char) : Option (Char × List Char) :=
  match readHex text with
  | none => none
  | some (n, rest) =>
    if 0xd800 ≤ n ∧ n < 0xdc00 then
      (readHex (rest.drop 2)).map fun (m, rest) =>
        (Char.ofNat (0x10000 + (n - 0xd800) * 0x400 + (m - 0xdc00)), rest)
    else some (Char.ofNat n, rest)

/-- The short escapes. -/
def named (c : Char) : Char :=
  if c = 'n' then '\n' else if c = 'r' then '\r' else if c = 't' then '\t'
  else if c = 'f' then Char.ofNat 0x0c else if c = 'b' then Char.ofNat 0x08 else c

/-- The first character of the rest of a string, unless it ends here. -/
def unescape : List Char → Option (Char × List Char)
  | [] => none
  | c :: rest =>
    if c = '"' then none
    else if c = '\\' then
      match rest with
      | [] => none
      | d :: rest => if d = 'u' then readCode rest else some (named d, rest)
    else some (c, rest)

theorem toNat_valid (c : Char) : c.toNat < 0xd800 ∨ 0xdfff < c.toNat ∧ c.toNat < 0x110000 := by
  have h := c.valid
  simp only [UInt32.isValidChar, Nat.isValidChar] at h
  exact h

theorem readCode_unit {n : Nat} (h : n < 0x10000) (hs : ¬ (0xd800 ≤ n ∧ n < 0xdc00)) (rest : List Char) :
    readCode (hexDigits4 n ++ rest) = some (Char.ofNat n, rest) := by
  simp only [readCode, readHex_hexDigits4 h, if_neg hs]

theorem readCode_pair {n m : Nat} (hn : 0xd800 ≤ n ∧ n < 0xdc00) (hm : m < 0x10000) (rest : List Char) :
    readCode (hexDigits4 n ++ '\\' :: 'u' :: (hexDigits4 m ++ rest)) =
      some (Char.ofNat (0x10000 + (n - 0xd800) * 0x400 + (m - 0xdc00)), rest) := by
  simp only [readCode, readHex_hexDigits4 (show n < 0x10000 by omega), if_pos hn,
    List.drop_succ_cons, List.drop_zero, readHex_hexDigits4 hm, Option.map_some]

theorem unicodeEscape_pair {n : Nat} (h : ¬ n < 0x10000) :
    ∃ hi lo, unicodeEscape n = ('\\' :: 'u' :: hexDigits4 hi) ++ ('\\' :: 'u' :: hexDigits4 lo) ∧
      hi = 0xd800 + (n - 0x10000) / 0x400 ∧ lo = 0xdc00 + (n - 0x10000) % 0x400 :=
  ⟨_, _, if_neg h, rfl, rfl⟩

theorem readCode_unicodeEscape (c : Char) (rest : List Char) :
    ∃ text, unicodeEscape c.toNat ++ rest = '\\' :: 'u' :: text ∧ readCode text = some (c, rest) := by
  have hvalid := toNat_valid c
  by_cases hlt : c.toNat < 0x10000
  · refine ⟨hexDigits4 c.toNat ++ rest, ?_, ?_⟩
    · rw [unicodeEscape, if_pos hlt, List.cons_append, List.cons_append]
    · rw [readCode_unit hlt (by omega), Char.ofNat_toNat]
  · obtain ⟨hi, lo, he, hhi, hlo⟩ := unicodeEscape_pair hlt
    refine ⟨hexDigits4 hi ++ '\\' :: 'u' :: (hexDigits4 lo ++ rest), ?_, ?_⟩
    · rw [he]
      simp
    · have hcode : 0x10000 + (hi - 0xd800) * 0x400 + (lo - 0xdc00) = c.toNat := by omega
      rw [readCode_pair (by omega) (by omega), hcode, Char.ofNat_toNat]

theorem unescape_escapeChar (c : Char) (rest : List Char) :
    unescape (escapeChar c ++ rest) = some (c, rest) := by
  unfold escapeChar
  by_cases h1 : c = '"'
  · rw [if_pos h1, h1]; rfl
  by_cases h2 : c = '\\'
  · rw [if_neg h1, if_pos h2, h2]; rfl
  by_cases h3 : c = '\n'
  · rw [if_neg h1, if_neg h2, if_pos h3, h3]; rfl
  by_cases h4 : c = '\r'
  · rw [if_neg h1, if_neg h2, if_neg h3, if_pos h4, h4]; rfl
  by_cases h5 : c = '\t'
  · rw [if_neg h1, if_neg h2, if_neg h3, if_neg h4, if_pos h5, h5]; rfl
  rw [if_neg h1, if_neg h2, if_neg h3, if_neg h4, if_neg h5]
  by_cases h6 : c.toNat = 0x0c
  · have hc : c = Char.ofNat 0x0c := by rw [← h6, Char.ofNat_toNat]
    rw [if_pos h6, hc]; rfl
  by_cases h7 : c.toNat = 0x08
  · have hc : c = Char.ofNat 0x08 := by rw [← h7, Char.ofNat_toNat]
    rw [if_neg h6, if_pos h7, hc]; rfl
  rw [if_neg h6, if_neg h7]
  split
  · show unescape (c :: rest) = _
    simp only [unescape, if_neg h1, if_neg h2]
  · obtain ⟨text, htext, hread⟩ := readCode_unicodeEscape c rest
    rw [htext]
    exact hread

theorem escapeChar_inj {c d : Char} {x y : List Char} (h : escapeChar c ++ x = escapeChar d ++ y) :
    c = d ∧ x = y := by
  have hc := unescape_escapeChar c x
  rw [h, unescape_escapeChar] at hc
  obtain ⟨h1, h2⟩ := Prod.mk.inj (Option.some.inj hc)
  exact ⟨h1.symm, h2.symm⟩

theorem flatMap_escapeChar_inj {cs ds x y : List Char}
    (h : cs.flatMap escapeChar ++ '"' :: x = ds.flatMap escapeChar ++ '"' :: y) : cs = ds ∧ x = y := by
  induction cs generalizing ds with
  | nil =>
    cases ds with
    | nil => exact ⟨rfl, (List.cons.inj h).2⟩
    | cons d ds =>
      have hd := unescape_escapeChar d (ds.flatMap escapeChar ++ '"' :: y)
      rw [List.flatMap_cons, List.append_assoc] at h
      rw [← h] at hd
      cases hd
  | cons c cs ih =>
    rw [List.flatMap_cons, List.append_assoc] at h
    cases ds with
    | nil =>
      have hc := unescape_escapeChar c (cs.flatMap escapeChar ++ '"' :: x)
      rw [h] at hc
      cases hc
    | cons d ds =>
      rw [List.flatMap_cons, List.append_assoc] at h
      obtain ⟨hcd, hrest⟩ := escapeChar_inj h
      obtain ⟨hcs, hxy⟩ := ih hrest
      rw [hcd, hcs]
      exact ⟨rfl, hxy⟩

theorem quote_inj {s t : String} {x y : List Char} (h : quote s ++ x = quote t ++ y) :
    s = t ∧ x = y := by
  have hbody : s.toList.flatMap escapeChar ++ '"' :: x = t.toList.flatMap escapeChar ++ '"' :: y := by
    simpa [quote] using h
  obtain ⟨hst, hxy⟩ := flatMap_escapeChar_inj hbody
  exact ⟨String.toList_injective hst, hxy⟩

/-! ## Numbers -/

/-- The text does not go on with a digit. -/
def Stops (text : List Char) : Prop := ∀ c ∈ text.head?, c.isDigit = false

theorem stops_cons {c : Char} {text : List Char} (h : c.isDigit = false) : Stops (c :: text) := by
  rintro d ⟨⟩
  exact h

theorem takeWhile_digits {ds text : List Char} (hd : ∀ c ∈ ds, c.isDigit = true) (ht : Stops text) :
    (ds ++ text).takeWhile Char.isDigit = ds := by
  rw [List.takeWhile_append_of_pos hd]
  cases text with
  | nil => rw [List.takeWhile_nil, List.append_nil]
  | cons c text =>
    have hc : c.isDigit = false := ht c rfl
    rw [List.takeWhile_cons_of_neg (by simp [hc]), List.append_nil]

theorem toDigits_inj {n m : Nat} {x y : List Char} (hx : Stops x) (hy : Stops y)
    (h : Nat.toDigits 10 n ++ x = Nat.toDigits 10 m ++ y) : n = m ∧ x = y := by
  have hdigit : ∀ k, ∀ c ∈ Nat.toDigits 10 k, c.isDigit = true :=
    fun k c hc => Nat.isDigit_of_mem_toDigits (by decide) (by decide) hc
  have hds : Nat.toDigits 10 n = Nat.toDigits 10 m := by
    rw [← takeWhile_digits (hdigit n) hx, h, takeWhile_digits (hdigit m) hy]
  refine ⟨?_, List.append_cancel_left (hds ▸ h)⟩
  rw [← Nat.ofDigitChars_ten_toDigits (n := n), hds, Nat.ofDigitChars_ten_toDigits]

/-- The first character of a natural number is a digit. -/
theorem toDigits_cons (n : Nat) : ∃ c ds, Nat.toDigits 10 n = c :: ds ∧ c.isDigit = true := by
  cases h : Nat.toDigits 10 n with
  | nil => exact absurd h Nat.toDigits_ne_nil
  | cons c ds =>
    refine ⟨c, ds, rfl, ?_⟩
    exact Nat.isDigit_of_mem_toDigits (b := 10) (n := n) (by decide) (by decide) (h ▸ List.mem_cons_self)

theorem decimal_inj {n m : Int} {x y : List Char} (hx : Stops x) (hy : Stops y)
    (h : decimal n ++ x = decimal m ++ y) : n = m ∧ x = y := by
  have hsign : ∀ (k : Nat) (u v : List Char), Nat.toDigits 10 k ++ u ≠ '-' :: v := by
    intro k u v he
    obtain ⟨c, ds, hk, hc⟩ := toDigits_cons k
    rw [hk] at he
    rw [(List.cons.inj he).1] at hc
    cases hc
  cases n with
  | ofNat n =>
    cases m with
    | ofNat m =>
      obtain ⟨rfl, hxy⟩ := toDigits_inj hx hy h
      exact ⟨rfl, hxy⟩
    | negSucc m => exact absurd h (hsign n x _)
  | negSucc n =>
    cases m with
    | ofNat m => exact absurd h.symm (hsign m y _)
    | negSucc m =>
      obtain ⟨hnm, hxy⟩ := toDigits_inj hx hy (List.cons.inj h).2
      obtain rfl : n = m := by omega
      exact ⟨rfl, hxy⟩

/-! ## Values -/

mutual

/-- The text of a value with its fields as they are. -/
def raw : Json → List Char
  | .null => "null".toList
  | .bool b => if b then "true".toList else "false".toList
  | .num n => decimal n
  | .str s => quote s
  | .arr items => '[' :: rawItems [] items
  | .obj fields => '{' :: rawFields [] fields

/-- The rest of an array after `sep`. -/
def rawItems (sep : List Char) : List Json → List Char
  | [] => [']']
  | v :: rest => sep ++ (raw v ++ rawItems [','] rest)

def rawFields (sep : List Char) : List (String × Json) → List Char
  | [] => ['}']
  | (k, v) :: rest => sep ++ (quote k ++ ':' :: (raw v ++ rawFields [','] rest))

end

/-- Which kind of value a character begins, if any. -/
def kind (c : Char) : Nat :=
  if c.isDigit ∨ c = '-' then 0 else if c = 'n' then 1 else if c = 't' ∨ c = 'f' then 2
  else if c = '"' then 3 else if c = '[' then 4 else if c = '{' then 5 else 6

def tag : Json → Nat
  | .num _ => 0
  | .null => 1
  | .bool _ => 2
  | .str _ => 3
  | .arr _ => 4
  | .obj _ => 5

theorem raw_cons (a : Json) : ∃ c text, raw a = c :: text ∧ kind c = tag a := by
  cases a with
  | null => exact ⟨'n', _, rfl, rfl⟩
  | bool b => cases b <;> exact ⟨_, _, rfl, rfl⟩
  | num n =>
    cases n with
    | ofNat n =>
      obtain ⟨c, ds, hn, hc⟩ := toDigits_cons n
      refine ⟨c, ds, ?_, if_pos (.inl hc)⟩
      rw [raw]
      exact hn
    | negSucc n => exact ⟨'-', _, by rw [raw]; rfl, rfl⟩
  | str s => exact ⟨'"', _, by rw [raw]; rfl, rfl⟩
  | arr items => exact ⟨'[', _, by rw [raw], rfl⟩
  | obj fields => exact ⟨'{', _, by rw [raw], rfl⟩

theorem tag_eq {a b : Json} {x y : List Char} (h : raw a ++ x = raw b ++ y) : tag a = tag b := by
  obtain ⟨c, text, ha, hc⟩ := raw_cons a
  obtain ⟨d, text', hb, hd⟩ := raw_cons b
  rw [ha, hb] at h
  rw [← hc, ← hd, (List.cons.inj h).1]

/-- What ends a list is no beginning of a value. -/
theorem raw_ne {a : Json} {c : Char} {x y : List Char} (hc : kind c = 6) : c :: x ≠ raw a ++ y := by
  intro h
  obtain ⟨d, text, ha, hd⟩ := raw_cons a
  rw [ha] at h
  rw [← (List.cons.inj h).1, hc] at hd
  cases a <;> cases hd

theorem stops_rawItems (items : List Json) (x : List Char) : Stops (rawItems [','] items ++ x) := by
  cases items with
  | nil => exact stops_cons rfl
  | cons v rest => exact stops_cons rfl

theorem stops_rawFields (fields : List (String × Json)) (x : List Char) :
    Stops (rawFields [','] fields ++ x) := by
  cases fields with
  | nil => exact stops_cons rfl
  | cons f rest => exact stops_cons rfl

mutual

/-- **A text is the text of one value only**, and no value's text goes on as another's. -/
theorem raw_inj (a b : Json) {x y : List Char} (hx : Stops x) (hy : Stops y)
    (h : raw a ++ x = raw b ++ y) : a = b ∧ x = y := by
  have htag := tag_eq h
  cases a with
  | null =>
    cases b with
    | null => exact ⟨rfl, List.append_cancel_left h⟩
    | _ => cases htag
  | bool p =>
    cases b with
    | bool q =>
      cases p <;> cases q
      · exact ⟨rfl, List.append_cancel_left h⟩
      · cases (List.cons.inj h).1
      · cases (List.cons.inj h).1
      · exact ⟨rfl, List.append_cancel_left h⟩
    | _ => cases htag
  | num n =>
    cases b with
    | num m =>
      rw [raw, raw] at h
      obtain ⟨rfl, hxy⟩ := decimal_inj hx hy h
      exact ⟨rfl, hxy⟩
    | _ => cases htag
  | str s =>
    cases b with
    | str t =>
      rw [raw, raw] at h
      obtain ⟨rfl, hxy⟩ := quote_inj h
      exact ⟨rfl, hxy⟩
    | _ => cases htag
  | arr items =>
    cases b with
    | arr items' =>
      rw [raw, raw] at h
      obtain ⟨rfl, hxy⟩ := rawItems_inj (.inl rfl) items items' (List.cons.inj h).2
      exact ⟨rfl, hxy⟩
    | _ => cases htag
  | obj fields =>
    cases b with
    | obj fields' =>
      rw [raw, raw] at h
      obtain ⟨rfl, hxy⟩ := rawFields_inj (.inl rfl) fields fields' (List.cons.inj h).2
      exact ⟨rfl, hxy⟩
    | _ => cases htag

theorem rawItems_inj {sep : List Char} (hsep : sep = [] ∨ sep = [',']) (items items' : List Json)
    {x y : List Char} (h : rawItems sep items ++ x = rawItems sep items' ++ y) :
    items = items' ∧ x = y := by
  cases items with
  | nil =>
    cases items' with
    | nil => exact ⟨rfl, (List.cons.inj h).2⟩
    | cons w rest' =>
      rw [rawItems, rawItems] at h
      rcases hsep with rfl | rfl
      · rw [List.nil_append, List.append_assoc] at h
        exact absurd h (raw_ne rfl)
      · cases (List.cons.inj h).1
  | cons v rest =>
    cases items' with
    | nil =>
      rw [rawItems, rawItems] at h
      rcases hsep with rfl | rfl
      · rw [List.nil_append, List.append_assoc] at h
        exact absurd h.symm (raw_ne rfl)
      · cases (List.cons.inj h).1
    | cons w rest' =>
      simp only [rawItems, List.append_assoc] at h
      have hvw := List.append_cancel_left h
      obtain ⟨rfl, hrest⟩ := raw_inj v w (stops_rawItems rest x) (stops_rawItems rest' y) hvw
      obtain ⟨rfl, hxy⟩ := rawItems_inj (.inr rfl) rest rest' hrest
      exact ⟨rfl, hxy⟩

theorem rawFields_inj {sep : List Char} (hsep : sep = [] ∨ sep = [','])
    (fields fields' : List (String × Json)) {x y : List Char}
    (h : rawFields sep fields ++ x = rawFields sep fields' ++ y) : fields = fields' ∧ x = y := by
  cases fields with
  | nil =>
    cases fields' with
    | nil => exact ⟨rfl, (List.cons.inj h).2⟩
    | cons g rest' =>
      obtain ⟨k, w⟩ := g
      rw [rawFields, rawFields] at h
      rcases hsep with rfl | rfl <;> cases (List.cons.inj h).1
  | cons f rest =>
    obtain ⟨k, v⟩ := f
    cases fields' with
    | nil =>
      rw [rawFields, rawFields] at h
      rcases hsep with rfl | rfl <;> cases (List.cons.inj h).1
    | cons g rest' =>
      obtain ⟨l, w⟩ := g
      simp only [rawFields, List.append_assoc, List.cons_append] at h
      obtain ⟨rfl, hfield⟩ := quote_inj (List.append_cancel_left h)
      have hvw := (List.cons.inj hfield).2
      obtain ⟨rfl, hrest⟩ := raw_inj v w (stops_rawFields rest x) (stops_rawFields rest' y) hvw
      obtain ⟨rfl, hxy⟩ := rawFields_inj (.inr rfl) rest rest' hrest
      exact ⟨rfl, hxy⟩

end

/-! ## Sorted fields -/

def fieldLe (a b : String × Json) : Prop := a.1.toList ≤ b.1.toList

instance : DecidableRel fieldLe := fun a b => inferInstanceAs (Decidable (a.1.toList ≤ b.1.toList))

mutual

/-- The value with the fields of every object in the order of their keys. -/
def sorted : Json → Json
  | .null => .null
  | .bool b => .bool b
  | .num n => .num n
  | .str s => .str s
  | .arr items => .arr (sortedItems items)
  | .obj fields => .obj ((sortedFields fields).insertionSort fieldLe)

def sortedItems : List Json → List Json
  | [] => []
  | v :: rest => sorted v :: sortedItems rest

def sortedFields : List (String × Json) → List (String × Json)
  | [] => []
  | (k, v) :: rest => (k, sorted v) :: sortedFields rest

end

theorem joinItems_raw (sep : List Char) (items : List Json) (h : items ≠ []) :
    sep ++ (joinItems (items.map raw) ++ [']']) = rawItems sep items := by
  induction items generalizing sep with
  | nil => exact absurd rfl h
  | cons v rest ih =>
    cases rest with
    | nil => simp [joinItems, rawItems]
    | cons w rest =>
      have hrest := ih [','] (by simp)
      simp only [List.map_cons, joinItems, List.append_assoc, List.cons_append, List.nil_append] at hrest ⊢
      rw [rawItems, ← hrest]

theorem joinFields_raw (sep : List Char) (fields : List (String × Json)) (h : fields ≠ []) :
    sep ++ (joinFields (fields.map fun f => (f.1, raw f.2)) ++ ['}']) = rawFields sep fields := by
  induction fields generalizing sep with
  | nil => exact absurd rfl h
  | cons f rest ih =>
    obtain ⟨k, v⟩ := f
    cases rest with
    | nil => simp [joinFields, rawFields]
    | cons g rest =>
      have hrest := ih [','] (by simp)
      simp only [List.map_cons, joinFields, List.append_assoc, List.cons_append, List.nil_append] at hrest ⊢
      rw [rawFields, ← hrest]

mutual

theorem dumps_eq_raw (a : Json) : dumps a = raw (sorted a) := by
  cases a with
  | null | num n | str s | bool b => simp only [dumps, sorted, raw]
  | arr items =>
    rw [dumps, sorted, raw, dumpItems_eq_raw items]
    congr 1
    by_cases h : sortedItems items = []
    · rw [h]; rfl
    · exact joinItems_raw [] _ h
  | obj fields =>
    rw [dumps, sorted, raw, dumpFields_eq_raw fields]
    congr 1
    rw [← List.map_insertionSort fieldLe keyLe (fun f : String × Json => (f.1, raw f.2)) _
      fun a _ b _ => Iff.rfl]
    by_cases h : (sortedFields fields).insertionSort fieldLe = []
    · rw [h]; rfl
    · exact joinFields_raw [] _ h

theorem dumpItems_eq_raw (items : List Json) : dumpItems items = (sortedItems items).map raw := by
  cases items with
  | nil => rfl
  | cons v rest => rw [dumpItems, sortedItems, List.map_cons, dumps_eq_raw v, dumpItems_eq_raw rest]

theorem dumpFields_eq_raw (fields : List (String × Json)) :
    dumpFields fields = (sortedFields fields).map fun f => (f.1, raw f.2) := by
  cases fields with
  | nil => rfl
  | cons f rest =>
    obtain ⟨k, v⟩ := f
    rw [dumpFields, sortedFields, List.map_cons, dumps_eq_raw v, dumpFields_eq_raw rest]

end

/-- **Equal texts have equal values**, but for the order of fields. -/
theorem dumps_inj {a b : Json} (h : dumps a = dumps b) : sorted a = sorted b := by
  rw [dumps_eq_raw, dumps_eq_raw] at h
  have hend : Stops [] := nofun
  exact (raw_inj _ _ hend hend (by rw [h])).1

/-! ## Fields by key -/

def get? (fields : List (String × Json)) (key : String) : Option Json :=
  (fields.find? fun f => f.1 = key).map Prod.snd

theorem get?_eq_some {fields : List (String × Json)} (h : (fields.map Prod.fst).Nodup) {key : String}
    {v : Json} : get? fields key = some v ↔ (key, v) ∈ fields := by
  induction fields with
  | nil => simp [get?]
  | cons f rest ih =>
    obtain ⟨k, w⟩ := f
    rw [List.map_cons, List.nodup_cons] at h
    have hrest := ih h.2
    unfold get? at hrest ⊢
    by_cases hk : k = key
    · subst hk
      have hno : (k, v) ∉ rest := fun hv => h.1 (List.mem_map.mpr ⟨(k, v), hv, rfl⟩)
      simp [hno, eq_comm]
    · simp [hk, hrest, Ne.symm hk]

theorem get?_perm {fields fields' : List (String × Json)} (hp : fields.Perm fields')
    (h : (fields.map Prod.fst).Nodup) (key : String) : get? fields key = get? fields' key := by
  have h' : (fields'.map Prod.fst).Nodup := (hp.map Prod.fst).nodup_iff.mp h
  ext v
  rw [get?_eq_some h, get?_eq_some h', hp.mem_iff]

theorem sortedFields_eq_map (fields : List (String × Json)) :
    sortedFields fields = fields.map fun f => (f.1, sorted f.2) := by
  induction fields with
  | nil => rfl
  | cons f rest ih =>
    obtain ⟨k, v⟩ := f
    rw [sortedFields, ih]
    rfl

theorem sortedItems_eq_map (items : List Json) : sortedItems items = items.map sorted := by
  induction items with
  | nil => rfl
  | cons v rest ih => rw [sortedItems, ih, List.map_cons]

theorem get?_sortedFields (fields : List (String × Json)) (key : String) :
    get? (sortedFields fields) key = (get? fields key).map sorted := by
  rw [sortedFields_eq_map]
  unfold get?
  rw [List.find?_map, Option.map_map, Option.map_map]
  rfl

/-- Equal objects have equal values under every key. -/
theorem get?_of_sorted {fields fields' : List (String × Json)}
    (h : sorted (.obj fields) = sorted (.obj fields')) (hk : (fields.map Prod.fst).Nodup) (key : String) :
    (get? fields key).map sorted = (get? fields' key).map sorted := by
  rw [sorted, sorted] at h
  have hperm := (List.perm_insertionSort fieldLe (sortedFields fields)).symm
  rw [Json.obj.inj h] at hperm
  have hkeys : ((sortedFields fields).map Prod.fst).Nodup := by
    rw [sortedFields_eq_map, List.map_map]
    exact hk
  rw [← get?_sortedFields, ← get?_sortedFields]
  exact get?_perm (hperm.trans (List.perm_insertionSort fieldLe _)) hkeys key

/-- Equal objects have equal values in a field that both have. -/
theorem value_of_sorted {fields fields' : List (String × Json)}
    (h : sorted (.obj fields) = sorted (.obj fields')) (hk : (fields.map Prod.fst).Nodup) (key : String)
    {v v' : Json} (hv : get? fields key = some v) (hv' : get? fields' key = some v') :
    sorted v = sorted v' := by
  have hget := get?_of_sorted h hk key
  rw [hv, hv'] at hget
  exact Option.some.inj hget

/-- Objects of which only one has a field differ. -/
theorem key_of_sorted {fields fields' : List (String × Json)}
    (h : sorted (.obj fields) = sorted (.obj fields')) (hk : (fields.map Prod.fst).Nodup) (key : String) :
    (get? fields key).isSome = (get? fields' key).isSome := by
  have hget := congrArg Option.isSome (get?_of_sorted h hk key)
  rwa [Option.isSome_map, Option.isSome_map] at hget

/-- Equal arrays of records have equal records. -/
theorem map_of_sorted {α : Type} {f : α → Json} (hf : ∀ a b, sorted (f a) = sorted (f b) → a = b)
    {l l' : List α} (h : sorted (.arr (l.map f)) = sorted (.arr (l'.map f))) : l = l' := by
  rw [sorted, sorted, sortedItems_eq_map, sortedItems_eq_map, List.map_map, List.map_map] at h
  exact List.map_injective_iff.mpr hf (Json.arr.inj h)

end Json

/-- The bytes of a text determine it. -/
theorem utf8_inj {a b : List Char} (h : utf8 a = utf8 b) : a = b := by
  have hbytes : a.utf8Encode = b.utf8Encode := by
    unfold List.utf8Encode
    rw [show a.flatMap String.utf8EncodeChar = b.flatMap String.utf8EncodeChar from h]
  have hstr : String.ofList a = String.ofList b := by
    apply String.toByteArray_inj.mp
    rw [String.toByteArray_ofList, String.toByteArray_ofList, hbytes]
  exact String.ofList_injective hstr

/-- `data.decode("utf-8")` -/
def decodeUtf8 (data : List UInt8) : Option (List Char) :=
  data.toByteArray.utf8Decode?.map Array.toList

theorem decodeUtf8_utf8 (text : List Char) : decodeUtf8 (utf8 text) = some text := by
  unfold decodeUtf8
  have hbytes : (utf8 text).toByteArray = text.utf8Encode := rfl
  rw [hbytes, List.utf8Decode?_utf8Encode]
  simp

end Logic
