import ProjectMaya.Logic.JsonRead

/-! # JSON that was written is read back

Strings point by point (`body_escape`), numbers where the text does not go on with what could be
part of them (`number_text`), values by induction whatever the spelling of their strings
(`value_write`), and whole texts (`read_write`, `read_dumps`).  What `loads` makes of a text it
makes again of what `dumps` writes (`loads_dumps`). -/

namespace Logic.JsonRead

open Logic.Json (hexDigits4 decimal hexDigits4_eq)

variable {ν : Type}

/-! ### The last member of a name -/

theorem collapseItems_eq_map (items : List (Value ν)) : collapseItems items = items.map collapse := by
  induction items with
  | nil => rfl
  | cons v rest ih => rw [collapseItems, ih, List.map_cons]

theorem collapseMembers_eq_map (members : List (Text × Value ν)) :
    collapseMembers members = members.map fun m => (m.1, collapse m.2) := by
  induction members with
  | nil => rfl
  | cons m rest ih =>
    obtain ⟨k, v⟩ := m
    rw [collapseMembers, ih, List.map_cons]

theorem mem_of_put {members : List (Text × Value ν)} {m x : Text × Value ν}
    (h : x ∈ put members m) : x ∈ members ∨ x = m := by
  unfold put at h
  split at h
  · obtain ⟨y, hy, rfl⟩ := List.mem_map.1 h
    split
    · exact .inr rfl
    · exact .inl hy
  · rcases List.mem_append.1 h with h | h
    · exact .inl h
    · exact .inr (List.mem_singleton.1 h)

theorem mem_of_foldl_put {ms : List (Text × Value ν)} {acc : List (Text × Value ν)}
    {x : Text × Value ν} (h : x ∈ ms.foldl put acc) : x ∈ acc ∨ x ∈ ms := by
  induction ms generalizing acc with
  | nil => exact .inl h
  | cons m ms ih =>
    rcases ih h with h | h
    · rcases mem_of_put h with h | rfl
      · exact .inl h
      · exact .inr List.mem_cons_self
    · exact .inr (List.mem_cons_of_mem _ h)

theorem mem_put (members : List (Text × Value ν)) (m : Text × Value ν) : m ∈ put members m := by
  unfold put
  split
  · rename_i h
    obtain ⟨x, hx, hkey⟩ := List.any_eq_true.1 h
    exact List.mem_map.2 ⟨x, hx, if_pos (of_decide_eq_true hkey)⟩
  · exact List.mem_append_right _ (List.mem_singleton.2 rfl)

theorem mem_put_of_ne {members : List (Text × Value ν)} {m x : Text × Value ν} (hx : x ∈ members)
    (hne : x.1 ≠ m.1) : x ∈ put members m := by
  unfold put
  split
  · exact List.mem_map.2 ⟨x, hx, if_neg hne⟩
  · exact List.mem_append_left _ hx

theorem mem_foldl_put_of_notMem {ms acc : List (Text × Value ν)} {x : Text × Value ν} (hx : x ∈ acc)
    (h : x.1 ∉ ms.map Prod.fst) : x ∈ ms.foldl put acc := by
  induction ms generalizing acc with
  | nil => exact hx
  | cons m ms ih =>
    rw [List.map_cons, List.mem_cons, not_or] at h
    exact ih (mem_put_of_ne hx h.1) h.2

/-- The last member of a name stays. -/
theorem mem_foldl_put {before after : List (Text × Value ν)} {m : Text × Value ν}
    (h : m.1 ∉ after.map Prod.fst) : m ∈ (before ++ m :: after).foldl put [] := by
  rw [List.foldl_append, List.foldl_cons]
  exact mem_foldl_put_of_notMem (mem_put _ m) h

/-- Every name stays. -/
theorem name_mem_foldl_put {ms acc : List (Text × Value ν)} {k : Text}
    (h : k ∈ acc.map Prod.fst ∨ k ∈ ms.map Prod.fst) : k ∈ (ms.foldl put acc).map Prod.fst := by
  induction ms generalizing acc with
  | nil =>
    rcases h with h | h
    · exact h
    · cases h
  | cons m ms ih =>
    apply ih
    rw [List.map_cons, List.mem_cons] at h
    by_cases hm : k = m.1
    · exact .inl (hm ▸ List.mem_map_of_mem (mem_put acc m))
    · rcases h with h | h | h
      · obtain ⟨x, hx, rfl⟩ := List.mem_map.1 h
        exact .inl (List.mem_map_of_mem (mem_put_of_ne hx hm))
      · exact absurd h hm
      · exact .inr h

theorem put_absent {members : List (Text × Value ν)} {m : Text × Value ν}
    (h : m.1 ∉ members.map Prod.fst) : put members m = members ++ [m] := by
  unfold put
  rw [if_neg]
  intro hany
  obtain ⟨x, hx, hkey⟩ := List.any_eq_true.1 hany
  exact h (List.mem_map.2 ⟨x, hx, of_decide_eq_true hkey⟩)

theorem nodup_put {members : List (Text × Value ν)} (h : (members.map Prod.fst).Nodup)
    (m : Text × Value ν) : ((put members m).map Prod.fst).Nodup := by
  by_cases hm : m.1 ∈ members.map Prod.fst
  · have hkeys : (put members m).map Prod.fst = members.map Prod.fst := by
      obtain ⟨x, hx, hkey⟩ := List.mem_map.1 hm
      unfold put
      rw [if_pos (List.any_eq_true.2 ⟨x, hx, decide_eq_true hkey⟩), List.map_map]
      refine List.map_congr_left fun y _ => ?_
      show (if y.1 = m.1 then m else y).1 = y.1
      split
      · rename_i heq
        exact heq.symm
      · rfl
    rw [hkeys]
    exact h
  · rw [put_absent hm, List.map_append, List.nodup_append]
    refine ⟨h, by simp, ?_⟩
    intro a ha b hb
    rw [List.map_cons, List.map_nil, List.mem_singleton] at hb
    rintro rfl
    exact hm (hb ▸ ha)

theorem nodup_foldl_put (ms : List (Text × Value ν)) {acc : List (Text × Value ν)}
    (h : (acc.map Prod.fst).Nodup) : ((ms.foldl put acc).map Prod.fst).Nodup := by
  induction ms generalizing acc with
  | nil => exact h
  | cons m ms ih => exact ih (nodup_put h m)

theorem foldl_put_of_nodup (ms : List (Text × Value ν)) {acc : List (Text × Value ν)}
    (h : ((acc ++ ms).map Prod.fst).Nodup) : ms.foldl put acc = acc ++ ms := by
  induction ms generalizing acc with
  | nil => rw [List.foldl_nil, List.append_nil]
  | cons m ms ih =>
    have habsent : m.1 ∉ acc.map Prod.fst := by
      rw [List.map_append, List.nodup_append] at h
      intro hm
      exact h.2.2 m.1 hm m.1 List.mem_cons_self rfl
    rw [List.foldl_cons, put_absent habsent, ih]
    · rw [List.append_assoc, List.singleton_append]
    · rwa [List.append_assoc, List.singleton_append]

mutual

/-- What has no name twice stays as it is. -/
theorem collapse_collapse : ∀ v : Value ν, collapse (collapse v) = collapse v
  | .null => rfl
  | .bool _ => rfl
  | .int _ => rfl
  | .float _ => rfl
  | .str _ => rfl
  | .arr items => by
    simp only [collapse, collapseItems_collapseItems items]
  | .obj members => by
    have hfixed : collapseMembers ((collapseMembers members).foldl put []) =
        (collapseMembers members).foldl put [] := by
      rw [collapseMembers_eq_map ((collapseMembers members).foldl put [])]
      conv => rhs; rw [← List.map_id ((collapseMembers members).foldl put [])]
      refine List.map_congr_left fun m hm => ?_
      rcases mem_of_foldl_put hm with h | h
      · cases h
      · exact Prod.ext rfl (collapseMembers_fixed members m h)
    have hempty : (([] : List (Text × Value ν)).map Prod.fst).Nodup := List.nodup_nil
    have hnodup := nodup_foldl_put (collapseMembers members) hempty
    have hsame : ((collapseMembers members).foldl put []).foldl put [] =
        (collapseMembers members).foldl put [] := foldl_put_of_nodup _ hnodup
    simp only [collapse, hfixed, hsame]

theorem collapseItems_collapseItems : ∀ items : List (Value ν),
    collapseItems (collapseItems items) = collapseItems items
  | [] => rfl
  | v :: rest => by
    simp only [collapseItems, collapse_collapse v, collapseItems_collapseItems rest]

theorem collapseMembers_fixed : ∀ (members : List (Text × Value ν)), ∀ m ∈ collapseMembers members,
    collapse m.2 = m.2
  | [], _, h => by simp [collapseMembers] at h
  | (k, v) :: rest, m, h => by
    rcases List.mem_cons.1 h with rfl | h
    · exact collapse_collapse v
    · exact collapseMembers_fixed rest m h

end

/-! ### Spellings -/

/-- What stands for a text between the quotes, and the texts that are read back of it. -/
structure Spelling where
  escape : Text → Text
  Fits : Text → Prop
  string_escape : ∀ {s}, Fits s → ∀ rest, string (escape s ++ .char '"' :: rest) = some (s, rest)

def Spelling.quote (q : Spelling) (s : Text) : Text := .char '"' :: (q.escape s ++ [.char '"'])

section

variable (q : Spelling)

mutual

/-- The texts and names of the value are read back. -/
def Spelling.FitsValue : Value ν → Prop
  | .str s => q.Fits s
  | .arr items => Spelling.FitsItems items
  | .obj members => Spelling.FitsMembers members
  | .null | .bool _ | .int _ | .float _ => True

def Spelling.FitsItems : List (Value ν) → Prop
  | [] => True
  | v :: rest => Spelling.FitsValue v ∧ Spelling.FitsItems rest

def Spelling.FitsMembers : List (Text × Value ν) → Prop
  | [] => True
  | (k, v) :: rest => q.Fits k ∧ Spelling.FitsValue v ∧ Spelling.FitsMembers rest

end

theorem Spelling.fits_obj {members : List (Text × Value ν)} :
    q.FitsValue (.obj members) ↔ ∀ m ∈ members, q.Fits m.1 ∧ q.FitsValue m.2 := by
  show q.FitsMembers members ↔ _
  induction members with
  | nil => exact iff_of_true trivial fun m hm => by cases hm
  | cons m rest ih =>
    obtain ⟨k, v⟩ := m
    rw [List.forall_mem_cons, ← ih, and_assoc]
    rfl

end

variable [FloatText ν]

/-! ### Characters -/

theorem after_ne {c d : Char} (h : c ≠ d) (cs : List Char) (rest : Text) :
    after (c :: cs) (.char d :: rest) = none := if_neg h

/-- The text does not go on with a character for which `p` holds. -/
def Ends (p : Char → Bool) (text : Text) : Prop := ∀ c rest, text = .char c :: rest → p c = false

theorem ends_cons {p : Char → Bool} {c : Char} (h : p c = false) (rest : Text) :
    Ends p (.char c :: rest) := by
  rintro d rest' heq
  cases heq
  exact h

theorem run_chars {p : Char → Bool} {cs : List Char} (h : ∀ c ∈ cs, p c = true) {rest : Text}
    (hrest : Ends p rest) : run p (chars cs ++ rest) = (cs, rest) := by
  induction cs with
  | nil =>
    show run p rest = ([], rest)
    cases rest with
    | nil => rfl
    | cons q rest =>
      cases q with
      | lone n => rfl
      | char c =>
        show (if p c = true then _ else _) = _
        rw [hrest c rest rfl]
        rfl
  | cons c cs ih =>
    obtain ⟨hc, hcs⟩ := List.forall_mem_cons.1 h
    show (if p c = true then (c :: (run p (chars cs ++ rest)).1, (run p (chars cs ++ rest)).2)
      else _) = _
    rw [if_pos hc, ih hcs]

/-! ### Strings -/

theorem hexValue?_digitChar : ∀ n, n < 16 → hexValue? n.digitChar = some n := by decide

theorem unit_hexDigits4 {n : Nat} (h : n < 0x10000) (rest : Text) :
    unit (chars (hexDigits4 n) ++ rest) = some (n, rest) := by
  rw [hexDigits4_eq h]
  show (do
    let a ← hexValue? (n / 0x1000).digitChar
    let b ← hexValue? (n / 0x100 % 16).digitChar
    let c ← hexValue? (n / 0x10 % 16).digitChar
    let d ← hexValue? (n % 16).digitChar
    some (((a * 16 + b) * 16 + c) * 16 + d, rest)) = _
  rw [hexValue?_digitChar _ (by omega), hexValue?_digitChar _ (by omega),
    hexValue?_digitChar _ (by omega), hexValue?_digitChar _ (by omega)]
  have he : ((n / 0x1000 * 16 + n / 0x100 % 16) * 16 + n / 0x10 % 16) * 16 + n % 16 = n := by omega
  show some (((n / 0x1000 * 16 + n / 0x100 % 16) * 16 + n / 0x10 % 16) * 16 + n % 16, rest) = _
  rw [he]

/-- A character that the escape names. -/
theorem body_named {c d : Char} (hu : c ≠ 'u') (h : named.lookup c = some d) (fuel : Nat) (rest : Text) :
    body (fuel + 1) (.char '\\' :: .char c :: rest) =
      (body fuel rest).map fun r => (.char d :: r.1, r.2) := by
  have hescaped : escaped (.char c :: rest) = some (.char d, rest) := by
    unfold escaped
    simp only [if_neg hu, h, Option.map_some]
  show ((escaped (.char c :: rest)).bind fun p =>
    (body fuel p.2).bind fun r => some (p.1 :: r.1, r.2)) = _
  rw [hescaped]
  show ((body fuel rest).bind fun r => some (Point.char d :: r.1, r.2)) = _
  cases body fuel rest <;> rfl

theorem body_control {c : Char} (hc : c.toNat < 0x20) (fuel : Nat) (rest : Text) :
    body (fuel + 1) (.char '\\' :: .char 'u' :: (chars (hexDigits4 c.toNat) ++ rest)) =
      (body fuel rest).map fun r => (.char c :: r.1, r.2) := by
  have hescaped : escaped (.char 'u' :: (chars (hexDigits4 c.toNat) ++ rest)) =
      some (.char c, rest) := by
    show ((unit (chars (hexDigits4 c.toNat) ++ rest)).bind fun u =>
      if 0xd800 ≤ u.1 ∧ u.1 < 0xdc00 then surrogate u.1 u.2 else some (point u.1, u.2)) = _
    rw [unit_hexDigits4 (by omega)]
    show (if 0xd800 ≤ c.toNat ∧ c.toNat < 0xdc00 then surrogate c.toNat rest
      else some (point c.toNat, rest)) = _
    rw [if_neg (by omega)]
    unfold point
    rw [if_neg (by omega), Char.ofNat_toNat]
  show ((escaped (.char 'u' :: (chars (hexDigits4 c.toNat) ++ rest))).bind fun p =>
    (body fuel p.2).bind fun r => some (p.1 :: r.1, r.2)) = _
  rw [hescaped]
  show ((body fuel rest).bind fun r => some (Point.char c :: r.1, r.2)) = _
  cases body fuel rest <;> rfl

/-- One point of a string. -/
theorem body_escape (p : Point) (fuel : Nat) (rest : Text) :
    body (fuel + 1) (escape p ++ rest) = (body fuel rest).map fun r => (p :: r.1, r.2) := by
  cases p with
  | lone n =>
    show ((body fuel rest).bind fun r => some (Point.lone n :: r.1, r.2)) = _
    cases body fuel rest <;> rfl
  | char c =>
    show body (fuel + 1) (chars (escapeChar c) ++ rest) = _
    unfold escapeChar
    by_cases hquote : c = '"'
    · rw [if_pos hquote, hquote]
      exact body_named (by decide) rfl fuel rest
    rw [if_neg hquote]
    by_cases hback : c = '\\'
    · rw [if_pos hback, hback]
      exact body_named (by decide) rfl fuel rest
    rw [if_neg hback]
    by_cases hn : c = '\n'
    · rw [if_pos hn, hn]
      exact body_named (by decide) rfl fuel rest
    rw [if_neg hn]
    by_cases hr : c = '\r'
    · rw [if_pos hr, hr]
      exact body_named (by decide) rfl fuel rest
    rw [if_neg hr]
    by_cases ht : c = '\t'
    · rw [if_pos ht, ht]
      exact body_named (by decide) rfl fuel rest
    rw [if_neg ht]
    by_cases hf : c.toNat = 0x0c
    · rw [if_pos hf, show c = Char.ofNat 12 from (Char.ofNat_toNat c).symm.trans (congrArg _ hf)]
      exact body_named (by decide) rfl fuel rest
    rw [if_neg hf]
    by_cases hb : c.toNat = 0x08
    · rw [if_pos hb, show c = Char.ofNat 8 from (Char.ofNat_toNat c).symm.trans (congrArg _ hb)]
      exact body_named (by decide) rfl fuel rest
    rw [if_neg hb]
    by_cases hcontrol : c.toNat < 0x20
    · rw [if_pos hcontrol]
      exact body_control hcontrol fuel rest
    · rw [if_neg hcontrol]
      show (if c = '"' then _ else if c = '\\' then _ else if c.toNat < 0x20 then _ else
        (body fuel rest).bind fun r => some (Point.char c :: r.1, r.2)) = _
      rw [if_neg hquote, if_neg hback, if_neg hcontrol]
      cases body fuel rest <;> rfl

theorem escape_length (p : Point) : 1 ≤ (escape p).length := by
  cases p with
  | lone n => exact Nat.le_refl 1
  | char c =>
    show 1 ≤ (chars (escapeChar c)).length
    unfold escapeChar chars
    repeat' split
    all_goals simp

theorem body_quoted (s : Text) {fuel : Nat} (h : s.length < fuel) (rest : Text) :
    body fuel (s.flatMap escape ++ .char '"' :: rest) = some (s, rest) := by
  induction s generalizing fuel with
  | nil =>
    cases fuel with
    | zero => omega
    | succ fuel => rfl
  | cons p s ih =>
    cases fuel with
    | zero => omega
    | succ fuel =>
      rw [List.flatMap_cons, List.append_assoc, body_escape,
        ih (by rw [List.length_cons] at h; omega)]
      rfl

/-- A string is read back, with whatever follows it. -/
theorem string_quoted (s rest : Text) :
    string (s.flatMap escape ++ .char '"' :: rest) = some (s, rest) := by
  apply body_quoted
  have hlen : s.length ≤ (s.flatMap escape).length := by
    rw [List.length_flatMap]
    induction s with
    | nil => exact Nat.zero_le _
    | cons p s ih =>
      have hp := escape_length p
      rw [List.map_cons, List.sum_cons, List.length_cons]
      omega
  rw [List.length_append, List.length_cons]
  omega
/-! ### Numbers -/

/-- A number can go on with the character. -/
def numeric (c : Char) : Bool := c.isDigit || c = '.' || c = 'e' || c = 'E'

theorem Ends.mono {p q : Char → Bool} (h : ∀ c, p c = true → q c = true) {rest : Text}
    (hrest : Ends q rest) : Ends p rest := by
  intro c later heq
  have hq := hrest c later heq
  cases hp : p c with
  | false => rfl
  | true =>
    rw [h c hp] at hq
    cases hq

theorem Ends.digit {rest : Text} (h : Ends numeric rest) : Ends Char.isDigit rest :=
  h.mono fun c hc => by simp [numeric, hc]

theorem whole_chars {ds : List Char} (hshape : ds = ['0'] ∨ ∃ c cs, ds = c :: cs ∧ c ≠ '0')
    (hd : ∀ c ∈ ds, c.isDigit = true) {rest : Text} (hrest : Ends Char.isDigit rest) :
    whole (chars ds ++ rest) = some (ds, rest) := by
  rcases hshape with rfl | ⟨c, cs, rfl, hc⟩
  · rfl
  · have hafter : after ['0'] (chars (c :: cs) ++ rest) = none := after_ne (Ne.symm hc) _ _
    unfold whole
    rw [hafter, run_chars hd hrest]
    rfl

theorem fraction_chars (l : Literal) (hd : ∀ c ∈ l.fraction, c.isDigit = true) {rest : Text}
    (hdot : after ['.'] rest = none) (hrest : Ends Char.isDigit rest) :
    fraction (chars l.fractionText ++ rest) = (l.fractionText, rest) := by
  unfold Literal.fractionText
  by_cases hf : l.fraction = []
  · rw [if_pos hf]
    show fraction rest = ([], rest)
    unfold fraction
    rw [hdot]
  · rw [if_neg hf]
    have hafter : after ['.'] (chars ('.' :: l.fraction) ++ rest) = some (chars l.fraction ++ rest) :=
      rfl
    unfold fraction
    rw [hafter]
    show (if (run Char.isDigit (chars l.fraction ++ rest)).1 = [] then _ else
      ('.' :: (run Char.isDigit (chars l.fraction ++ rest)).1,
        (run Char.isDigit (chars l.fraction ++ rest)).2)) = _
    rw [run_chars hd hrest, if_neg hf]

theorem sign_digits {ds : List Char} (hne : ds ≠ []) (hd : ∀ c ∈ ds, c.isDigit = true) (rest : Text) :
    sign (chars ds ++ rest) = ([], chars ds ++ rest) := by
  cases ds with
  | nil => exact absurd rfl hne
  | cons d ds =>
    have hdigit : d.isDigit = true := hd d List.mem_cons_self
    have hplus : '+' ≠ d := by
      rintro rfl
      cases hdigit
    have hminus : '-' ≠ d := by
      rintro rfl
      cases hdigit
    unfold sign
    rw [show after ['+'] (chars (d :: ds) ++ rest) = none from after_ne hplus _ _,
      show after ['-'] (chars (d :: ds) ++ rest) = none from after_ne hminus _ _]

theorem exponent_signed {e : Char} (he : e = 'e' ∨ e = 'E') {s ds : List Char} (hne : ds ≠ [])
    (hd : ∀ c ∈ ds, c.isDigit = true) {rest : Text} (hrest : Ends Char.isDigit rest)
    (hs : sign (chars (s ++ ds) ++ rest) = (s, chars ds ++ rest)) :
    exponent (chars (e :: (s ++ ds)) ++ rest) = (e :: (s ++ ds), rest) := by
  show (if e = 'e' ∨ e = 'E' then
      if (run Char.isDigit (sign (chars (s ++ ds) ++ rest)).2).1 = [] then _
      else (e :: ((sign (chars (s ++ ds) ++ rest)).1 ++
        (run Char.isDigit (sign (chars (s ++ ds) ++ rest)).2).1),
          (run Char.isDigit (sign (chars (s ++ ds) ++ rest)).2).2)
    else _) = _
  rw [if_pos he, hs, run_chars hd hrest, if_neg hne]

theorem exponent_chars (l : Literal) (hexp : ∀ mark ds, l.exponent = some (mark, ds) →
      mark ∈ marks ∧ ds ≠ [] ∧ ∀ c ∈ ds, c.isDigit = true)
    {rest : Text} (hrest : Ends numeric rest) :
    exponent (chars l.exponentText ++ rest) = (l.exponentText, rest) := by
  unfold Literal.exponentText
  cases he : l.exponent with
  | none =>
    show exponent rest = ([], rest)
    cases rest with
    | nil => rfl
    | cons p rest =>
      cases p with
      | lone n => rfl
      | char c =>
        have hc := hrest c rest rfl
        have hne : ¬ (c = 'e' ∨ c = 'E') := by
          rintro (rfl | rfl)
          · cases hc
          · cases hc
        show (if c = 'e' ∨ c = 'E' then _ else _) = _
        rw [if_neg hne]
  | some x =>
    obtain ⟨mark, ds⟩ := x
    obtain ⟨hmark, hne, hd⟩ := hexp mark ds he
    have hdigit := hrest.digit
    simp only [marks, List.mem_cons, List.not_mem_nil, or_false] at hmark
    rcases hmark with rfl | rfl | rfl | rfl | rfl | rfl
    · exact exponent_signed (s := []) (.inl rfl) hne hd hdigit (sign_digits hne hd rest)
    · exact exponent_signed (s := []) (.inr rfl) hne hd hdigit (sign_digits hne hd rest)
    · exact exponent_signed (s := ['+']) (.inl rfl) hne hd hdigit rfl
    · exact exponent_signed (s := ['+']) (.inr rfl) hne hd hdigit rfl
    · exact exponent_signed (s := ['-']) (.inl rfl) hne hd hdigit rfl
    · exact exponent_signed (s := ['-']) (.inr rfl) hne hd hdigit rfl

/-- What a numeral stands for. -/
def Literal.value (l : Literal) : Value ν :=
  if l.fractionText = [] ∧ l.exponentText = [] then .int (integer l.negative l.whole)
  else .float (FloatText.ofLiteral l.text)

theorem after_sign (l : Literal) (h : l.Numeral) (rest : Text) :
    after ['-'] (chars l.text ++ rest) = if l.negative then
      some (chars (l.whole ++ (l.fractionText ++ l.exponentText)) ++ rest) else none := by
  unfold Literal.text
  cases l.negative with
  | true => rfl
  | false =>
    have hdigit : ∃ c cs, l.whole = c :: cs ∧ c.isDigit = true := by
      rcases h.whole with hw | ⟨c, cs, hw, -⟩
      · exact ⟨'0', [], hw, rfl⟩
      · exact ⟨c, cs, hw, h.digits c (by simp [hw])⟩
    obtain ⟨c, cs, hw, hc⟩ := hdigit
    rw [hw]
    refine after_ne ?_ _ _
    rintro rfl
    cases hc

theorem exponentText_cases (l : Literal) (h : l.Numeral) :
    l.exponentText = [] ∨ ∃ e cs, l.exponentText = e :: cs ∧ (e = 'e' ∨ e = 'E') := by
  unfold Literal.exponentText
  cases he : l.exponent with
  | none => exact .inl rfl
  | some x =>
    obtain ⟨mark, ds⟩ := x
    obtain ⟨hmark, -, -⟩ := h.exponent mark ds he
    right
    simp only [marks, List.mem_cons, List.not_mem_nil, or_false] at hmark
    rcases hmark with rfl | rfl | rfl | rfl | rfl | rfl
    · exact ⟨_, _, rfl, .inl rfl⟩
    · exact ⟨_, _, rfl, .inr rfl⟩
    · exact ⟨_, _, rfl, .inl rfl⟩
    · exact ⟨_, _, rfl, .inr rfl⟩
    · exact ⟨_, _, rfl, .inl rfl⟩
    · exact ⟨_, _, rfl, .inr rfl⟩

/-- What follows the digits before the exponent is no digit and no point. -/
theorem ends_exponent (l : Literal) (h : l.Numeral) {rest : Text} (hrest : Ends numeric rest) :
    Ends (fun c => c.isDigit || c = '.') (chars l.exponentText ++ rest) := by
  rcases exponentText_cases l h with he | ⟨e, cs, he, hcase⟩
  · rw [he]
    exact hrest.mono fun c hc => by
      simp only [Bool.or_eq_true, decide_eq_true_eq] at hc
      rcases hc with hc | hc <;> simp [numeric, hc]
  · rw [he]
    apply ends_cons
    rcases hcase with rfl | rfl
    · rfl
    · rfl

theorem ends_fraction (l : Literal) (h : l.Numeral) {rest : Text} (hrest : Ends numeric rest) :
    Ends Char.isDigit (chars l.fractionText ++ (chars l.exponentText ++ rest)) := by
  unfold Literal.fractionText
  by_cases hf : l.fraction = []
  · rw [if_pos hf]
    exact (ends_exponent l h hrest).mono fun c hc => by simp [hc]
  · rw [if_neg hf]
    exact ends_cons rfl _

theorem chars_append (a b : List Char) : chars (a ++ b) = chars a ++ chars b := List.map_append

/-- A numeral is read back, where the text does not go on with what could be part of it. -/
theorem number_text (l : Literal) (h : l.Numeral) {rest : Text} (hrest : Ends numeric rest) :
    number (chars l.text ++ rest) = some ((l.value : Value ν), rest) := by
  have hminus : minus (chars l.text ++ rest) =
      (l.negative, chars l.whole ++ (chars l.fractionText ++ (chars l.exponentText ++ rest))) := by
    unfold minus
    rw [after_sign l h]
    unfold Literal.text
    cases l.negative <;> simp [chars_append]
  have hwhole := whole_chars h.whole (fun c hc => h.digits c (List.mem_append_left _ hc))
    (ends_fraction l h hrest)
  have hdot : after ['.'] (chars l.exponentText ++ rest) = none := by
    have hends := ends_exponent l h hrest
    cases ht : chars l.exponentText ++ rest with
    | nil => rfl
    | cons p later =>
      cases p with
      | lone n => rfl
      | char c =>
        apply after_ne
        rintro rfl
        cases hends '.' later ht
  have hfraction := fraction_chars l (fun c hc => h.digits c (List.mem_append_right _ hc)) hdot
    ((ends_exponent l h hrest).mono fun c hc => by simp [hc])
  have hexponent := exponent_chars l h.exponent hrest
  unfold number
  simp only [hminus, hwhole, hfraction, hexponent, Option.bind_eq_bind, Option.bind_some]
  unfold Literal.value Literal.text
  split
  · rfl
  · cases l.negative <;> rfl

/-! ### Atoms -/

/-- The numeral of an integer. -/
def decimalLiteral (n : Int) : Literal where
  negative := n < 0
  whole := Nat.toDigits 10 n.natAbs
  fraction := []
  exponent := none

theorem toDigits_shape (n : Nat) :
    Nat.toDigits 10 n = ['0'] ∨ ∃ c cs, Nat.toDigits 10 n = c :: cs ∧ c ≠ '0' := by
  induction n using Nat.strongRecOn with
  | ind n ih =>
    by_cases hn : n < 10
    · rw [Nat.toDigits_of_lt_base hn]
      have hcases : ∀ m, m < 10 → [m.digitChar] = ['0'] ∨
          ∃ c cs, [m.digitChar] = c :: cs ∧ c ≠ '0' := by
        intro m hm
        by_cases h0 : m = 0
        · exact .inl (by rw [h0]; rfl)
        · refine .inr ⟨m.digitChar, [], rfl, ?_⟩
          have hall : ∀ k, k < 10 → k ≠ 0 → k.digitChar ≠ '0' := by decide
          exact hall m hm h0
      exact hcases n hn
    · right
      rw [Nat.toDigits_of_base_le (by decide) (by omega)]
      rcases ih (n / 10) (by omega) with h0 | ⟨c, cs, hcs, hc⟩
      · -- the digits before the last are those of a positive number
        have hzero : n / 10 = 0 := by
          rw [← Nat.ofDigitChars_ten_toDigits (n := n / 10), h0]
          rfl
        omega
      · rw [hcs]
        exact ⟨c, _, rfl, hc⟩

theorem decimalLiteral_numeral (n : Int) : (decimalLiteral n).Numeral where
  whole := toDigits_shape n.natAbs
  digits c hc := by
    rw [decimalLiteral, List.append_nil] at hc
    exact Nat.isDigit_of_mem_toDigits (by decide) (by decide) hc
  exponent := nofun

theorem decimalLiteral_text (n : Int) : (decimalLiteral n).text = decimal n := by
  cases n with
  | ofNat n => simp [decimalLiteral, Literal.text, Literal.fractionText, Literal.exponentText, decimal]
  | negSucc n =>
    have hneg : Int.negSucc n < 0 := Int.negSucc_lt_zero n
    simp [decimalLiteral, Literal.text, Literal.fractionText, Literal.exponentText, decimal, hneg]

theorem decimalLiteral_value (n : Int) : (decimalLiteral n).value = (.int n : Value ν) := by
  have hvalue : integer (decimalLiteral n).negative (decimalLiteral n).whole = n := by
    show (if decide (n < 0) = true then -((Nat.ofDigitChars 10 (Nat.toDigits 10 n.natAbs) 0 : Nat) : Int)
      else ((Nat.ofDigitChars 10 (Nat.toDigits 10 n.natAbs) 0 : Nat) : Int)) = n
    rw [Nat.ofDigitChars_ten_toDigits]
    split
    · rename_i hneg
      have := of_decide_eq_true hneg
      omega
    · rename_i hneg
      have := of_decide_eq_false (Bool.eq_false_iff.2 hneg)
      omega
  unfold Literal.value
  rw [if_pos ⟨rfl, rfl⟩, hvalue]

omit [FloatText ν] in
theorem word_none {ws : List (List Char × Value ν)} {c : Char}
    (h : ∀ w ∈ ws, ∃ d ds, w.1 = d :: ds ∧ d ≠ c) (rest : Text) :
    word ws (.char c :: rest) = none := by
  unfold word
  rw [List.findSome?_eq_none_iff]
  intro w hw
  obtain ⟨d, ds, hwd, hne⟩ := h w hw
  rw [hwd, after_ne hne]
  rfl

theorem text_cons (l : Literal) (h : l.Numeral) :
    ∃ c cs, l.text = c :: cs ∧ (c = '-' ∨ c.isDigit = true) := by
  unfold Literal.text
  cases l.negative with
  | true => exact ⟨'-', _, rfl, .inl rfl⟩
  | false =>
    rcases h.whole with hw | ⟨c, cs, hw, -⟩
    · rw [hw]
      exact ⟨'0', _, rfl, .inr rfl⟩
    · have hc : c.isDigit = true := h.digits c (by simp [hw])
      rw [hw]
      exact ⟨c, _, rfl, .inr hc⟩

theorem atom_numeral (l : Literal) (h : l.Numeral) {rest : Text} (hrest : Ends numeric rest) :
    atom (chars l.text ++ rest) = some ((l.value : Value ν), rest) := by
  have hnumber : number (chars l.text ++ rest) = some ((l.value : Value ν), rest) :=
    number_text l h hrest
  obtain ⟨c, cs, htext, hc⟩ := text_cons l h
  have hwords : word (words : List (List Char × Value ν)) (chars l.text ++ rest) = none := by
    rw [htext]
    refine word_none ?_ _
    intro w hw
    simp only [words, List.mem_cons, List.not_mem_nil, or_false] at hw
    rcases hw with rfl | rfl | rfl
    · exact ⟨'n', _, rfl, by rintro rfl; rcases hc with hc | hc <;> cases hc⟩
    · exact ⟨'t', _, rfl, by rintro rfl; rcases hc with hc | hc <;> cases hc⟩
    · exact ⟨'f', _, rfl, by rintro rfl; rcases hc with hc | hc <;> cases hc⟩
  unfold atom
  rw [hwords, hnumber]
  rfl

theorem atom_constant {w : List Char × Value ν} (h : w ∈ constants) (rest : Text) :
    atom (chars w.1 ++ rest) = some (w.2, rest) := by
  simp only [constants, List.mem_cons, List.not_mem_nil, or_false] at h
  rcases h with rfl | rfl | rfl
  · rfl
  · rfl
  · rfl

/-- Whatever a float is, its text is read back. -/
theorem atom_float (x : ν) {rest : Text} (hrest : Ends numeric rest) :
    atom (chars (floatText x) ++ rest) = some (.float x, rest) := by
  unfold floatText
  cases hf : FloatText.form x with
  | nan =>
    rw [FloatText.nan_of_form hf]
    exact atom_constant (w := ("NaN".toList, .float FloatText.nan)) (by simp [constants]) rest
  | infinity =>
    rw [FloatText.infinity_of_form hf]
    exact atom_constant (w := ("Infinity".toList, .float FloatText.infinity)) (by simp [constants]) rest
  | negInfinity =>
    rw [FloatText.negInfinity_of_form hf]
    exact atom_constant (w := ("-Infinity".toList, .float FloatText.negInfinity))
      (by simp [constants]) rest
  | literal l =>
    have hvalid := FloatText.valid_of_form hf
    have hvalue : l.value = (.float x : Value ν) := by
      unfold Literal.value
      rw [if_neg, FloatText.ofLiteral_of_form hf]
      rintro ⟨hfraction, hexponent⟩
      rcases hvalid.fractional with h | h
      · simp [Literal.fractionText, h] at hfraction
      · unfold Literal.exponentText at hexponent
        cases he : l.exponent with
        | none => exact h he
        | some m =>
          obtain ⟨mark, ds⟩ := m
          obtain ⟨-, hds, -⟩ := hvalid.exponent mark ds he
          rw [he] at hexponent
          exact hds (List.append_eq_nil_iff.1 hexponent).2
    rw [← hvalue]
    exact atom_numeral l hvalid.toNumeral hrest

theorem value_atom {c : Char} (h : c ≠ '"' ∧ c ≠ '{' ∧ c ≠ '[') (fuel : Nat) (rest : Text) :
    value (fuel + 1) (.char c :: rest) = (atom (.char c :: rest) : Option (Value ν × Text)) := by
  obtain ⟨hquote, hobj, harr⟩ := h
  unfold value
  split
  · rename_i heq
    exact absurd (Point.char.inj (List.cons.inj heq).1) hquote
  · rename_i heq
    exact absurd (Point.char.inj (List.cons.inj heq).1) hobj
  · rename_i heq
    exact absurd (Point.char.inj (List.cons.inj heq).1) harr
  · rfl

/-! ### Writing -/

section

variable (q : Spelling) (blank : List Char)

mutual

/-- `json.dumps` with this spelling; `blank` is what follows the separators. -/
def write : Value ν → Text
  | .null => chars "null".toList
  | .bool b => chars (if b then "true".toList else "false".toList)
  | .int n => chars (decimal n)
  | .float x => chars (floatText x)
  | .str s => q.quote s
  | .arr [] => chars ['[', ']']
  | .arr (v :: rest) => .char '[' :: (write v ++ writeItems rest)
  | .obj [] => chars ['{', '}']
  | .obj ((k, v) :: rest) =>
    .char '{' :: (q.quote k ++ (chars (':' :: blank) ++ (write v ++ writeMembers rest)))

/-- The items after the first, and the end of the array. -/
def writeItems : List (Value ν) → Text
  | [] => [.char ']']
  | v :: rest => chars (',' :: blank) ++ (write v ++ writeItems rest)

def writeMembers : List (Text × Value ν) → Text
  | [] => [.char '}']
  | (k, v) :: rest =>
    chars (',' :: blank) ++
      (q.quote k ++ (chars (':' :: blank) ++ (write v ++ writeMembers rest)))

end

end

/-! ### Values -/

/-- What a value can start with: no blank, no end of an array, no mark of the byte order. -/
def Opens (c : Char) : Prop := isBlank c = false ∧ c ≠ ']' ∧ c ≠ '\ufeff'

theorem opens_write (q : Spelling) (blank : List Char) (v : Value ν) :
    ∃ c rest, write q blank v = .char c :: rest ∧ Opens c := by
  have hnumeral : ∀ l : Literal, l.Numeral →
      ∃ c rest, chars l.text = .char c :: rest ∧ Opens c := by
    intro l hl
    obtain ⟨c, cs, htext, hc⟩ := text_cons l hl
    refine ⟨c, chars cs, by rw [htext]; rfl, ?_⟩
    rcases hc with rfl | hc
    · exact ⟨rfl, by decide, by decide⟩
    · refine ⟨?_, ?_, ?_⟩
      · unfold isBlank
        by_contra hblank
        simp only [Bool.not_eq_false, Bool.or_eq_true, decide_eq_true_eq] at hblank
        rcases hblank with ((rfl | rfl) | rfl) | rfl <;> cases hc
      · rintro rfl
        cases hc
      · rintro rfl
        cases hc
  cases v with
  | null => exact ⟨'n', _, rfl, rfl, by decide, by decide⟩
  | bool b =>
    cases b with
    | true => exact ⟨'t', _, rfl, rfl, by decide, by decide⟩
    | false => exact ⟨'f', _, rfl, rfl, by decide, by decide⟩
  | int n =>
    have h := hnumeral (decimalLiteral n) (decimalLiteral_numeral n)
    rw [decimalLiteral_text] at h
    exact h
  | float x =>
    show ∃ c rest, chars (floatText x) = .char c :: rest ∧ Opens c
    unfold floatText
    cases hf : FloatText.form x with
    | nan => exact ⟨'N', _, rfl, rfl, by decide, by decide⟩
    | infinity => exact ⟨'I', _, rfl, rfl, by decide, by decide⟩
    | negInfinity => exact ⟨'-', _, rfl, rfl, by decide, by decide⟩
    | literal l => exact hnumeral l (FloatText.valid_of_form hf).toNumeral
  | str s => exact ⟨'"', _, rfl, rfl, by decide, by decide⟩
  | arr items =>
    cases items with
    | nil => exact ⟨'[', _, rfl, rfl, by decide, by decide⟩
    | cons v rest => exact ⟨'[', _, rfl, rfl, by decide, by decide⟩
  | obj members =>
    cases members with
    | nil => exact ⟨'{', _, rfl, rfl, by decide, by decide⟩
    | cons m rest => exact ⟨'{', _, rfl, rfl, by decide, by decide⟩

theorem skip_opens {c : Char} (h : isBlank c = false) (rest : Text) :
    skip (.char c :: rest) = .char c :: rest := by
  show (if isBlank c = true then _ else _) = _
  rw [h]
  rfl

theorem skip_blank {blank : List Char} (h : ∀ c ∈ blank, isBlank c = true) (rest : Text) :
    skip (chars blank ++ rest) = skip rest := by
  induction blank with
  | nil => rfl
  | cons c blank ih =>
    obtain ⟨hc, hblank⟩ := List.forall_mem_cons.1 h
    show (if isBlank c = true then skip (chars blank ++ rest) else _) = _
    rw [if_pos hc, ih hblank]

theorem skip_write (q : Spelling) (blank : List Char) (v : Value ν) (rest : Text) :
    skip (write q blank v ++ rest) = write q blank v ++ rest := by
  obtain ⟨c, later, hwrite, hblank, -, -⟩ := opens_write q blank v
  rw [hwrite]
  exact skip_opens hblank _

/-- No value starts like the end of an array. -/
theorem after_write (q : Spelling) (blank : List Char) (v : Value ν) (rest : Text) :
    after [']'] (write q blank v ++ rest) = none := by
  obtain ⟨c, later, hwrite, -, harr, -⟩ := opens_write q blank v
  rw [hwrite]
  exact after_ne (Ne.symm harr) _ _

mutual

/-- How deep the reader goes into a value. -/
def cost : Value ν → Nat
  | .arr items => itemsCost items + 1
  | .obj members => membersCost members + 1
  | .null => 1
  | .bool _ => 1
  | .int _ => 1
  | .float _ => 1
  | .str _ => 1

def itemsCost : List (Value ν) → Nat
  | [] => 0
  | v :: rest => cost v + itemsCost rest + 1

def membersCost : List (Text × Value ν) → Nat
  | [] => 0
  | (_, v) :: rest => cost v + membersCost rest + 1

end

theorem ends_writeItems (q : Spelling) (blank : List Char) (items : List (Value ν)) (rest : Text) :
    Ends numeric (writeItems q blank items ++ rest) := by
  cases items with
  | nil => exact ends_cons rfl _
  | cons v items => exact ends_cons rfl _

theorem ends_writeMembers (q : Spelling) (blank : List Char) (members : List (Text × Value ν))
    (rest : Text) : Ends numeric (writeMembers q blank members ++ rest) := by
  cases members with
  | nil => exact ends_cons rfl _
  | cons m members => exact ends_cons rfl _

theorem Spelling.quote_append (q : Spelling) (s rest : Text) :
    q.quote s ++ rest = .char '"' :: (q.escape s ++ .char '"' :: rest) := by
  unfold Spelling.quote
  simp

omit [FloatText ν] in
theorem cost_pos (v : Value ν) : 0 < cost v := by
  cases v <;> simp [cost]

/-! One step of the reader each. -/

theorem value_quoted {q : Spelling} {s : Text} (hs : q.Fits s) (fuel : Nat) (rest : Text) :
    value (fuel + 1) (q.quote s ++ rest) = some ((.str s : Value ν), rest) := by
  rw [q.quote_append]
  show ((string (q.escape s ++ Point.char '"' :: rest)).bind fun r =>
    some ((.str r.1 : Value ν), r.2)) = _
  rw [q.string_escape hs]
  rfl

theorem value_items {fuel : Nat} {text later : Text} {vs : List (Value ν)}
    (hafter : after [']'] (skip text) = none) (h : items fuel (skip text) = some (vs, later)) :
    value (fuel + 1) (.char '[' :: text) = some (.arr vs, later) := by
  simp only [value, hafter, h]
  rfl

theorem value_members {fuel : Nat} {text later : Text} {ms : List (Text × Value ν)}
    (hafter : after ['}'] (skip text) = none) (h : members fuel (skip text) = some (ms, later)) :
    value (fuel + 1) (.char '{' :: text) = some (.obj ms, later) := by
  simp only [value, hafter, h]
  rfl

theorem items_last {fuel : Nat} {text rest later : Text} {v : Value ν}
    (hvalue : value fuel text = some (v, rest)) (hskip : skip rest = .char ']' :: later) :
    items (fuel + 1) text = some ([v], later) := by
  unfold items
  rw [hvalue]
  simp only [Option.bind_eq_bind, Option.bind_some, hskip]

theorem items_more {fuel : Nat} {text rest rest' later : Text} {v : Value ν} {vs : List (Value ν)}
    (hvalue : value fuel text = some (v, rest)) (hskip : skip rest = .char ',' :: rest')
    (hitems : items fuel (skip rest') = some (vs, later)) :
    items (fuel + 1) text = some (v :: vs, later) := by
  unfold items
  rw [hvalue]
  simp only [Option.bind_eq_bind, Option.bind_some, hskip, hitems]

theorem members_last {q : Spelling} {fuel : Nat} {k : Text} {text rest later : Text} {v : Value ν}
    (hk : q.Fits k) (hvalue : value fuel (skip text) = some (v, rest))
    (hskip : skip rest = .char '}' :: later) :
    members (fuel + 1) (q.quote k ++ .char ':' :: text) = some ([(k, v)], later) := by
  rw [q.quote_append]
  unfold members
  have hafter : after ['"'] (.char '"' :: (q.escape k ++ .char '"' :: .char ':' :: text)) =
      some (q.escape k ++ .char '"' :: .char ':' :: text) := rfl
  have hcolon : after [':'] (skip (.char ':' :: text)) = some text := rfl
  simp only [hafter, q.string_escape hk, hcolon, hvalue, hskip, Option.bind_eq_bind, Option.bind_some]

theorem members_more {q : Spelling} {fuel : Nat} {k : Text} {text rest rest' later : Text}
    {v : Value ν} {ms : List (Text × Value ν)} (hk : q.Fits k)
    (hvalue : value fuel (skip text) = some (v, rest))
    (hskip : skip rest = .char ',' :: rest') (hmembers : members fuel (skip rest') = some (ms, later)) :
    members (fuel + 1) (q.quote k ++ .char ':' :: text) = some ((k, v) :: ms, later) := by
  rw [q.quote_append]
  unfold members
  have hafter : after ['"'] (.char '"' :: (q.escape k ++ .char '"' :: .char ':' :: text)) =
      some (q.escape k ++ .char '"' :: .char ':' :: text) := rfl
  have hcolon : after [':'] (skip (.char ':' :: text)) = some text := rfl
  simp only [hafter, q.string_escape hk, hcolon, hvalue, hskip, hmembers, Option.bind_eq_bind,
    Option.bind_some]

theorem value_numeral (l : Literal) (h : l.Numeral) (fuel : Nat) {rest : Text}
    (hrest : Ends numeric rest) :
    value (fuel + 1) (chars l.text ++ rest) = some ((l.value : Value ν), rest) := by
  have hatom : atom (chars l.text ++ rest) = some ((l.value : Value ν), rest) := atom_numeral l h hrest
  obtain ⟨c, cs, htext, hc⟩ := text_cons l h
  rw [htext] at hatom ⊢
  refine (value_atom ?_ fuel _).trans hatom
  rcases hc with rfl | hc
  · decide
  · refine ⟨?_, ?_, ?_⟩
    · rintro rfl
      cases hc
    · rintro rfl
      cases hc
    · rintro rfl
      cases hc

theorem value_float (x : ν) (fuel : Nat) {rest : Text} (hrest : Ends numeric rest) :
    value (fuel + 1) (chars (floatText x) ++ rest) = some (.float x, rest) := by
  have hatom : atom (chars (floatText x) ++ rest) = some (.float x, rest) := atom_float x hrest
  obtain ⟨c, later, htext, hplain⟩ : ∃ c later, chars (floatText x) = .char c :: later ∧
      c ≠ '"' ∧ c ≠ '{' ∧ c ≠ '[' := by
    unfold floatText
    cases hf : FloatText.form x with
    | nan => exact ⟨'N', _, rfl, by decide⟩
    | infinity => exact ⟨'I', _, rfl, by decide⟩
    | negInfinity => exact ⟨'-', _, rfl, by decide⟩
    | literal l =>
      obtain ⟨c, cs, htext, hc⟩ := text_cons l (FloatText.valid_of_form hf).toNumeral
      refine ⟨c, chars cs, by simp only [htext, chars_cons], ?_⟩
      rcases hc with rfl | hc
      · decide
      · refine ⟨?_, ?_, ?_⟩
        · rintro rfl
          cases hc
        · rintro rfl
          cases hc
        · rintro rfl
          cases hc
  rw [htext] at hatom ⊢
  exact (value_atom hplain fuel _).trans hatom

mutual

/-- A value is read back, with whatever follows it, as far as a number is not continued. -/
theorem value_write {q : Spelling} {blank : List Char} (hblank : ∀ c ∈ blank, isBlank c = true) :
    ∀ (v : Value ν) (fuel : Nat) (rest : Text), q.FitsValue v → cost v ≤ fuel → Ends numeric rest →
      value fuel (write q blank v ++ rest) = some (v, rest)
  | v, 0, rest, _, h, _ => absurd h (Nat.not_le_of_lt (cost_pos v))
  | .null, fuel + 1, rest, _, _, _ => rfl
  | .bool true, fuel + 1, rest, _, _, _ => rfl
  | .bool false, fuel + 1, rest, _, _, _ => rfl
  | .int n, fuel + 1, rest, _, _, hrest => by
    show value (fuel + 1) (chars (decimal n) ++ rest) = _
    rw [← decimalLiteral_text, value_numeral _ (decimalLiteral_numeral n) fuel hrest,
      decimalLiteral_value]
  | .float x, fuel + 1, rest, _, _, hrest => value_float x fuel hrest
  | .str s, fuel + 1, rest, hfits, _, _ => value_quoted hfits fuel rest
  | .arr [], fuel + 1, rest, _, _, _ => rfl
  | .arr (v :: vs), fuel + 1, rest, hfits, h, _ => by
    have hcost : itemsCost (v :: vs) ≤ fuel := by
      simp only [cost] at h
      omega
    have hitems := items_write hblank (v :: vs) fuel rest hfits hcost v vs rfl
    have hskip := skip_write q blank v (writeItems q blank vs ++ rest)
    show value (fuel + 1) (.char '[' :: (write q blank v ++ writeItems q blank vs ++ rest)) = _
    rw [List.append_assoc]
    apply value_items
    · rw [hskip, after_write]
    · rw [hskip]
      exact hitems
  | .obj [], fuel + 1, rest, _, _, _ => rfl
  | .obj ((k, v) :: ms), fuel + 1, rest, hfits, h, _ => by
    have hcost : membersCost ((k, v) :: ms) ≤ fuel := by
      simp only [cost] at h
      omega
    have hmembers := members_write hblank ((k, v) :: ms) fuel rest hfits hcost k v ms rfl
    show value (fuel + 1) (.char '{' ::
      (q.quote k ++ (chars (':' :: blank) ++ (write q blank v ++ writeMembers q blank ms)) ++ rest)) = _
    rw [List.append_assoc, List.append_assoc, List.append_assoc]
    apply value_members
    · rfl
    · exact hmembers

theorem items_write {q : Spelling} {blank : List Char} (hblank : ∀ c ∈ blank, isBlank c = true) :
    ∀ (vs : List (Value ν)) (fuel : Nat) (rest : Text), q.FitsItems vs → itemsCost vs ≤ fuel →
      ∀ v ws, vs = v :: ws →
        items fuel (write q blank v ++ (writeItems q blank ws ++ rest)) = some (vs, rest)
  | [], _, _, _, _, _, _, h => by cases h
  | v :: vs, 0, rest, _, h, _, _, _ => by simp [itemsCost] at h
  | v :: [], fuel + 1, rest, hfits, h, _, _, rfl => by
    simp only [itemsCost] at h
    exact items_last (value_write hblank v fuel _ hfits.1 (by omega) (ends_writeItems q blank [] rest)) rfl
  | v :: w :: vs, fuel + 1, rest, hfits, h, _, _, rfl => by
    simp only [itemsCost] at h
    have hcost : itemsCost (w :: vs) ≤ fuel := by
      simp only [itemsCost]
      omega
    have hmore := items_write hblank (w :: vs) fuel rest hfits.2 hcost w vs rfl
    refine items_more
      (value_write hblank v fuel _ hfits.1 (by omega) (ends_writeItems q blank (w :: vs) rest)) rfl ?_
    show items fuel (skip (chars blank ++ (write q blank w ++ writeItems q blank vs) ++ rest)) = _
    rw [List.append_assoc, List.append_assoc, skip_blank hblank, skip_write]
    exact hmore

theorem members_write {q : Spelling} {blank : List Char} (hblank : ∀ c ∈ blank, isBlank c = true) :
    ∀ (ms : List (Text × Value ν)) (fuel : Nat) (rest : Text), q.FitsMembers ms →
      membersCost ms ≤ fuel → ∀ k v ns, ms = (k, v) :: ns →
        members fuel (q.quote k ++
          (chars (':' :: blank) ++ (write q blank v ++ (writeMembers q blank ns ++ rest)))) =
            some (ms, rest)
  | [], _, _, _, _, _, _, _, h => by cases h
  | (k, v) :: ms, 0, rest, _, h, _, _, _, _ => by simp [membersCost] at h
  | (k, v) :: [], fuel + 1, rest, hfits, h, _, _, _, rfl => by
    simp only [membersCost] at h
    have hvalue : value fuel (skip (chars blank ++ (write q blank v ++
        (writeMembers q blank ([] : List (Text × Value ν)) ++ rest)))) =
          some (v, writeMembers q blank ([] : List (Text × Value ν)) ++ rest) := by
      rw [skip_blank hblank, skip_write]
      exact value_write hblank v fuel _ hfits.2.1 (by omega) (ends_writeMembers q blank [] rest)
    exact members_last hfits.1 hvalue rfl
  | (k, v) :: (l, w) :: ms, fuel + 1, rest, hfits, h, _, _, _, rfl => by
    simp only [membersCost] at h
    have hcost : membersCost ((l, w) :: ms) ≤ fuel := by
      simp only [membersCost]
      omega
    have hmore := members_write hblank ((l, w) :: ms) fuel rest hfits.2.2 hcost l w ms rfl
    have hvalue : value fuel
        (skip (chars blank ++ (write q blank v ++ (writeMembers q blank ((l, w) :: ms) ++ rest)))) =
          some (v, writeMembers q blank ((l, w) :: ms) ++ rest) := by
      rw [skip_blank hblank, skip_write]
      exact value_write hblank v fuel _ hfits.2.1 (by omega)
        (ends_writeMembers q blank ((l, w) :: ms) rest)
    refine members_more hfits.1 hvalue rfl ?_
    show members fuel (skip (chars blank ++ (q.quote l ++
      (chars (':' :: blank) ++ (write q blank w ++ writeMembers q blank ms))) ++ rest)) = _
    have hquote : ∀ text : Text, skip (q.quote l ++ text) = q.quote l ++ text := fun _ => rfl
    rw [List.append_assoc, List.append_assoc, skip_blank hblank, hquote, List.append_assoc,
      List.append_assoc]
    exact hmore

end

mutual

theorem cost_le (q : Spelling) (blank : List Char) : ∀ v : Value ν,
    cost v ≤ 2 * (write q blank v).length
  | .null => by simp [cost, write]
  | .bool true => by simp [cost, write]
  | .bool false => by simp [cost, write]
  | .int n => by
    obtain ⟨c, later, h, -⟩ := opens_write q blank (.int n : Value ν)
    rw [h, List.length_cons]
    simp only [cost]
    omega
  | .float x => by
    obtain ⟨c, later, h, -⟩ := opens_write q blank (.float x)
    rw [h, List.length_cons]
    simp only [cost]
    omega
  | .str s => by
    simp only [cost, write, Spelling.quote, List.length_cons]
    omega
  | .arr [] => by simp [cost, itemsCost, write]
  | .arr (v :: vs) => by
    have hv := cost_le q blank v
    have hvs := itemsCost_le q blank vs
    simp only [cost, itemsCost, write, List.length_cons, List.length_append]
    omega
  | .obj [] => by simp [cost, membersCost, write]
  | .obj ((k, v) :: ms) => by
    have hv := cost_le q blank v
    have hms := membersCost_le q blank ms
    simp only [cost, membersCost, write, List.length_cons, List.length_append]
    omega

theorem itemsCost_le (q : Spelling) (blank : List Char) : ∀ vs : List (Value ν),
    itemsCost vs + 2 ≤ 2 * (writeItems q blank vs).length
  | [] => by simp [itemsCost, writeItems]
  | v :: vs => by
    have hv := cost_le q blank v
    have hvs := itemsCost_le q blank vs
    simp only [itemsCost, writeItems, chars_cons, List.length_cons, List.length_append]
    omega

theorem membersCost_le (q : Spelling) (blank : List Char) : ∀ ms : List (Text × Value ν),
    membersCost ms + 2 ≤ 2 * (writeMembers q blank ms).length
  | [] => by simp [membersCost, writeMembers]
  | (k, v) :: ms => by
    have hv := cost_le q blank v
    have hms := membersCost_le q blank ms
    simp only [membersCost, writeMembers, chars_cons, List.length_cons, List.length_append]
    omega

end

/-- What is written is read back. -/
theorem read_write {q : Spelling} {blank : List Char} (hblank : ∀ c ∈ blank, isBlank c = true)
    {v : Value ν} (hfits : q.FitsValue v) : read (write q blank v) = some v := by
  have hskip : skip (write q blank v) = write q blank v := by
    have h := skip_write q blank v []
    rwa [List.append_nil] at h
  have hvalue : value (2 * (write q blank v).length + 1) (write q blank v) = some (v, []) := by
    have hcost := cost_le q blank v
    have h := value_write hblank v (2 * (write q blank v).length + 1) [] hfits (by omega) nofun
    rwa [List.append_nil] at h
  have hbom : (write q blank v).head? ≠ some (.char '\ufeff') := by
    obtain ⟨c, later, h, -, -, hne⟩ := opens_write q blank v
    rw [h]
    intro heq
    exact hne (Point.char.inj (Option.some.inj heq))
  unfold read
  rw [if_neg hbom, hskip, hvalue]
  rfl

/-! ### Without escapes for what is not ASCII -/

/-- The spelling of `ensure_ascii=False`. -/
def directly : Spelling where
  escape s := s.flatMap escape
  Fits _ := True
  string_escape _ rest := string_quoted _ rest

mutual

theorem dumps_eq_write (blank : List Char) : ∀ v : Value ν, dumps blank v = write directly blank v
  | .null => rfl
  | .bool _ => rfl
  | .int _ => rfl
  | .float _ => rfl
  | .str _ => rfl
  | .arr [] => rfl
  | .arr (v :: rest) => by
    rw [dumps, write, dumps_eq_write blank v, dumpItems_eq_write blank rest]
  | .obj [] => rfl
  | .obj ((k, v) :: rest) => by
    rw [dumps, write, dumps_eq_write blank v, dumpMembers_eq_write blank rest]
    rfl

theorem dumpItems_eq_write (blank : List Char) : ∀ vs : List (Value ν),
    dumpItems blank vs = writeItems directly blank vs
  | [] => rfl
  | v :: rest => by
    rw [dumpItems, writeItems, dumps_eq_write blank v, dumpItems_eq_write blank rest]

theorem dumpMembers_eq_write (blank : List Char) : ∀ ms : List (Text × Value ν),
    dumpMembers blank ms = writeMembers directly blank ms
  | [] => rfl
  | (k, v) :: rest => by
    rw [dumpMembers, writeMembers, dumps_eq_write blank v, dumpMembers_eq_write blank rest]
    rfl

end

omit [FloatText ν] in
mutual

theorem fits_directly : ∀ v : Value ν, directly.FitsValue v
  | .null => trivial
  | .bool _ => trivial
  | .int _ => trivial
  | .float _ => trivial
  | .str _ => trivial
  | .arr items => fitsItems_directly items
  | .obj members => fitsMembers_directly members

theorem fitsItems_directly : ∀ vs : List (Value ν), directly.FitsItems vs
  | [] => trivial
  | v :: rest => ⟨fits_directly v, fitsItems_directly rest⟩

theorem fitsMembers_directly : ∀ ms : List (Text × Value ν), directly.FitsMembers ms
  | [] => trivial
  | (_, v) :: rest => ⟨trivial, fits_directly v, fitsMembers_directly rest⟩

end

theorem read_dumps {blank : List Char} (hblank : ∀ c ∈ blank, isBlank c = true) (v : Value ν) :
    read (dumps blank v) = some v := by
  rw [dumps_eq_write]
  exact read_write hblank (fits_directly v)

/-! ### What a text starts with -/

/-- The value is an array or an object. -/
def Nested : Value ν → Prop
  | .arr _ => True
  | .obj _ => True
  | _ => False

omit [FloatText ν] in
theorem not_nested_of_word {ws : List (List Char × Value ν)} (h : ∀ w ∈ ws, ¬ Nested w.2) {text : Text}
    {r : Value ν × Text} (hr : word ws text = some r) : ¬ Nested r.1 := by
  obtain ⟨w, hw, hafter⟩ := List.exists_of_findSome?_eq_some hr
  obtain ⟨rest, -, rfl⟩ := Option.map_eq_some_iff.1 hafter
  exact h w hw

theorem not_nested_of_number {text : Text} {r : Value ν × Text} (hr : number text = some r) :
    ¬ Nested r.1 := by
  unfold number at hr
  simp only [Option.bind_eq_bind, Option.bind_eq_some_iff] at hr
  obtain ⟨a, -, hr⟩ := hr
  split at hr
  · cases hr
    exact id
  · cases hr
    exact id

/-- The text of an array or an object starts with its bracket or brace. -/
theorem starts_of_nested {fuel : Nat} {text : Text} {r : Value ν × Text}
    (h : value fuel text = some r) (hnested : Nested r.1) :
    ∃ rest, text = .char '{' :: rest ∨ text = .char '[' :: rest := by
  cases fuel with
  | zero => cases h
  | succ fuel =>
    unfold value at h
    split at h
    · simp only [Option.bind_eq_bind, Option.bind_eq_some_iff] at h
      obtain ⟨a, -, h⟩ := h
      cases h
      exact hnested.elim
    · exact ⟨_, .inl rfl⟩
    · exact ⟨_, .inr rfl⟩
    · exfalso
      unfold atom at h
      rw [Option.or_eq_some_iff, Option.or_eq_some_iff] at h
      have hwords : ∀ w ∈ (words : List (List Char × Value ν)), ¬ Nested w.2 := by
        simp [words, Nested]
      have hconstants : ∀ w ∈ (constants : List (List Char × Value ν)), ¬ Nested w.2 := by
        simp [constants, Nested]
      rcases h with h | ⟨-, h | ⟨-, h⟩⟩
      · exact not_nested_of_word hwords h hnested
      · exact not_nested_of_number h hnested
      · exact not_nested_of_word hconstants h hnested

theorem skip_chars (cs : List Char) : skip (chars cs) = chars (cs.dropWhile isBlank) := by
  induction cs with
  | nil => rfl
  | cons c cs ih =>
    rw [List.dropWhile_cons]
    show (if isBlank c = true then skip (chars cs) else .char c :: chars cs) = _
    split
    · exact ih
    · rfl

/-- A text that is read as an array or an object starts so, after its blanks. -/
theorem dropWhile_of_read {cs : List Char} {v : Value ν} (h : read (chars cs) = some v)
    (hnested : Nested v) : ∃ c rest, cs.dropWhile isBlank = c :: rest ∧ (c = '{' ∨ c = '[') := by
  unfold read at h
  split at h
  · cases h
  · simp only [Option.bind_eq_bind, Option.bind_eq_some_iff] at h
    obtain ⟨r, hvalue, h⟩ := h
    split at h
    · cases h
      obtain ⟨rest, hstart⟩ := starts_of_nested hvalue hnested
      rw [skip_chars] at hstart
      cases hd : cs.dropWhile isBlank with
      | nil =>
        rw [hd] at hstart
        rcases hstart with h | h <;> cases h
      | cons c later =>
        refine ⟨c, later, rfl, ?_⟩
        rw [hd] at hstart
        rcases hstart with h | h
        · exact .inl (Point.char.inj (List.cons.inj h).1)
        · exact .inr (Point.char.inj (List.cons.inj h).1)
    · cases h

/-- What was read of a text is read again of what is written for it. -/
theorem loads_dumps {blank : List Char} (hblank : ∀ c ∈ blank, isBlank c = true) {text : Text}
    {v : Value ν} (h : loads text = some v) : loads (dumps blank v) = some v := by
  unfold loads at h ⊢
  obtain ⟨w, -, rfl⟩ := Option.map_eq_some_iff.1 h
  rw [read_dumps hblank, Option.map_some, collapse_collapse]

/-! ## Texts that can be encoded -/

/-- No surrogate stands alone in it. -/
def Plain (text : Text) : Prop := ∀ n, Point.lone n ∉ text

@[simp] theorem plain_nil : Plain [] := fun _ => List.not_mem_nil

@[simp] theorem plain_chars (cs : List Char) : Plain (chars cs) := by
  intro n hn
  obtain ⟨c, -, hc⟩ := List.mem_map.1 hn
  cases hc

@[simp] theorem plain_append {a b : Text} : Plain (a ++ b) ↔ Plain a ∧ Plain b := by
  unfold Plain
  simp only [List.mem_append, not_or]
  exact forall_and

@[simp] theorem plain_char_cons {c : Char} {text : Text} : Plain (.char c :: text) ↔ Plain text := by
  unfold Plain
  simp only [List.mem_cons, reduceCtorEq, false_or]

@[simp] theorem not_plain_lone_cons {n : Fin 2048} {text : Text} : ¬ Plain (.lone n :: text) :=
  fun h => h n List.mem_cons_self

/-- `text.encode("utf-8")` succeeds with these characters. -/
def encode : Text → Option (List Char)
  | [] => some []
  | .char c :: rest => (encode rest).map (c :: ·)
  | .lone _ :: _ => none

theorem encode_eq_some {text : Text} {cs : List Char} : encode text = some cs ↔ text = chars cs := by
  induction text generalizing cs with
  | nil =>
    cases cs with
    | nil => exact ⟨fun _ => rfl, fun _ => rfl⟩
    | cons c cs => exact ⟨nofun, nofun⟩
  | cons p rest ih =>
    cases p with
    | lone n =>
      refine ⟨nofun, fun h => ?_⟩
      cases cs with
      | nil => cases h
      | cons c cs => cases h
    | char c =>
      rw [encode, Option.map_eq_some_iff]
      constructor
      · rintro ⟨cs, hcs, rfl⟩
        rw [ih.1 hcs, chars_cons]
      · intro h
        cases cs with
        | nil => cases h
        | cons d cs =>
          obtain ⟨hp, hrest⟩ := List.cons.inj h
          obtain rfl := Point.char.inj hp
          exact ⟨cs, ih.2 hrest, rfl⟩

theorem plain_iff {text : Text} : Plain text ↔ ∃ cs, encode text = some cs := by
  constructor
  · intro h
    induction text with
    | nil => exact ⟨[], rfl⟩
    | cons p rest ih =>
      cases p with
      | lone n => exact absurd h not_plain_lone_cons
      | char c =>
        obtain ⟨cs, hcs⟩ := ih (plain_char_cons.1 h)
        exact ⟨c :: cs, by rw [encode, hcs, Option.map_some]⟩
  · rintro ⟨cs, hcs⟩
    rw [encode_eq_some.1 hcs]
    exact plain_chars cs

mutual

/-- No surrogate stands alone in a text or a name of the value. -/
def PlainValue : Value ν → Prop
  | .str s => Plain s
  | .arr items => PlainItems items
  | .obj members => PlainMembers members
  | .null | .bool _ | .int _ | .float _ => True

def PlainItems : List (Value ν) → Prop
  | [] => True
  | v :: rest => PlainValue v ∧ PlainItems rest

def PlainMembers : List (Text × Value ν) → Prop
  | [] => True
  | (k, v) :: rest => Plain k ∧ PlainValue v ∧ PlainMembers rest

end

@[simp] theorem plain_quote {s : Text} : Plain (quote s) ↔ Plain s := by
  unfold quote
  rw [plain_char_cons, plain_append, and_iff_left (show Plain [Point.char '"'] from plain_chars ['"'])]
  induction s with
  | nil => rfl
  | cons p rest ih =>
    rw [List.flatMap_cons, plain_append, ih]
    cases p with
    | char c => simp only [escape, plain_chars, true_and, plain_char_cons]
    | lone n => simp only [escape, not_plain_lone_cons, false_and]

mutual

/-- What is written without escapes can be encoded exactly when each text and name can. -/
theorem plain_dumps (blank : List Char) : ∀ v : Value ν, Plain (dumps blank v) ↔ PlainValue v
  | .null => iff_of_true (plain_chars _) trivial
  | .bool _ => iff_of_true (plain_chars _) trivial
  | .int _ => iff_of_true (plain_chars _) trivial
  | .float _ => iff_of_true (plain_chars _) trivial
  | .str _ => plain_quote
  | .arr [] => iff_of_true (plain_chars _) trivial
  | .arr (v :: rest) => by
    rw [dumps, plain_char_cons, plain_append, plain_dumps blank v, plain_dumpItems blank rest]
    rfl
  | .obj [] => iff_of_true (plain_chars _) trivial
  | .obj ((k, v) :: rest) => by
    rw [dumps, plain_char_cons, plain_append, plain_quote, plain_append, plain_append,
      plain_dumps blank v, plain_dumpMembers blank rest, iff_true_intro (plain_chars _), true_and]
    rfl

theorem plain_dumpItems (blank : List Char) : ∀ vs : List (Value ν),
    Plain (dumpItems blank vs) ↔ PlainItems vs
  | [] => iff_of_true (plain_chars [']']) trivial
  | v :: rest => by
    rw [dumpItems, plain_append, plain_append, plain_dumps blank v, plain_dumpItems blank rest,
      iff_true_intro (plain_chars _), true_and]
    rfl

theorem plain_dumpMembers (blank : List Char) : ∀ ms : List (Text × Value ν),
    Plain (dumpMembers blank ms) ↔ PlainMembers ms
  | [] => iff_of_true (plain_chars ['}']) trivial
  | (k, v) :: rest => by
    rw [dumpMembers, plain_append, plain_append, plain_quote, plain_append, plain_append,
      plain_dumps blank v, plain_dumpMembers blank rest, iff_true_intro (plain_chars _), true_and,
      iff_true_intro (plain_chars _), true_and]
    rfl

end

end Logic.JsonRead
