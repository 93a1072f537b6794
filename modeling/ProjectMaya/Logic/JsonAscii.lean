import Mathlib.Data.List.Lex
import Mathlib.Data.List.Sort
import ProjectMaya.Logic.JsonRoundTrip

/-! # JSON in ASCII

`json.dumps` escapes what is no printable ASCII: a character above the basic plane by two
surrogates, a surrogate that stands alone by itself.  So two of these side by side may be read back
as one character; all else is read back (`string_asciiText`), and a text has no line break
(`printable_write`). -/

namespace Logic.JsonRead

open Logic.Json (hexDigits4 hexDigits4_eq decimal toNat_valid unicodeEscape_pair)

/-! ## Escapes -/

/-- `ESCAPE_ASCII` -/
def asciiEscape : Point → List Char
  | .char c => Json.escapeChar c
  | .lone n => '\\' :: 'u' :: hexDigits4 (0xd800 + n.val)

def asciiText (s : Text) : Text := chars (s.flatMap asciiEscape)

def Printable (c : Char) : Prop := 0x20 ≤ c.toNat ∧ c.toNat ≤ 0x7e

def High (n : Nat) : Prop := 0xd800 ≤ n ∧ n < 0xdc00

def Low (n : Nat) : Prop := 0xdc00 ≤ n ∧ n < 0xe000

/-- What a point is written as. -/
inductive Shape : Point → List Char → Prop
  | plain {c : Char} (hquote : c ≠ '"') (hback : c ≠ '\\') (hc : Printable c) : Shape (.char c) [c]
  | named {c d : Char} (hu : d ≠ 'u') (hd : Printable d) (h : named.lookup d = some c) :
    Shape (.char c) ['\\', d]
  | unit {n : Nat} (h : n < 0x10000) : Shape (point n) ('\\' :: 'u' :: hexDigits4 n)
  | pair {n m : Nat} (hn : High n) (hm : Low m) :
    Shape (.char (Char.ofNat (0x10000 + (n - 0xd800) * 0x400 + (m - 0xdc00))))
      (('\\' :: 'u' :: hexDigits4 n) ++ ('\\' :: 'u' :: hexDigits4 m))

theorem point_toNat (c : Char) : point c.toNat = .char c := by
  have hvalid := toNat_valid c
  unfold point
  rw [if_neg (by omega), Char.ofNat_toNat]

theorem point_lone (n : Fin 2048) : point (0xd800 + n.val) = .lone n := by
  have hn := n.isLt
  unfold point
  rw [if_pos (by omega), Nat.add_sub_cancel_left]
  congr 1
  exact Fin.ext (Nat.mod_eq_of_lt hn)

theorem shape_unicodeEscape (c : Char) : Shape (.char c) (Json.unicodeEscape c.toNat) := by
  have hvalid := toNat_valid c
  by_cases hlt : c.toNat < 0x10000
  · rw [Json.unicodeEscape, if_pos hlt]
    have h := Shape.unit hlt
    rwa [point_toNat] at h
  · obtain ⟨hi, lo, he, hhi, hlo⟩ := unicodeEscape_pair hlt
    have hcode : 0x10000 + (hi - 0xd800) * 0x400 + (lo - 0xdc00) = c.toNat := by omega
    have h : Shape _ _ := Shape.pair (n := hi) (m := lo) ⟨by omega, by omega⟩ ⟨by omega, by omega⟩
    rwa [hcode, Char.ofNat_toNat, ← he] at h

theorem shape_asciiEscape (p : Point) : Shape p (asciiEscape p) := by
  cases p with
  | lone n =>
    have hn := n.isLt
    have h : Shape (point (0xd800 + n.val)) _ := .unit (by omega)
    rwa [point_lone] at h
  | char c =>
    show Shape (.char c) (Json.escapeChar c)
    unfold Json.escapeChar
    by_cases h1 : c = '"'
    · rw [if_pos h1, h1]
      exact .named (by decide) ⟨by decide, by decide⟩ rfl
    by_cases h2 : c = '\\'
    · rw [if_neg h1, if_pos h2, h2]
      exact .named (by decide) ⟨by decide, by decide⟩ rfl
    by_cases h3 : c = '\n'
    · rw [if_neg h1, if_neg h2, if_pos h3, h3]
      exact .named (by decide) ⟨by decide, by decide⟩ rfl
    by_cases h4 : c = '\r'
    · rw [if_neg h1, if_neg h2, if_neg h3, if_pos h4, h4]
      exact .named (by decide) ⟨by decide, by decide⟩ rfl
    by_cases h5 : c = '\t'
    · rw [if_neg h1, if_neg h2, if_neg h3, if_neg h4, if_pos h5, h5]
      exact .named (by decide) ⟨by decide, by decide⟩ rfl
    rw [if_neg h1, if_neg h2, if_neg h3, if_neg h4, if_neg h5]
    by_cases h6 : c.toNat = 0x0c
    · rw [if_pos h6, show c = Char.ofNat 12 from (Char.ofNat_toNat c).symm.trans (congrArg _ h6)]
      exact .named (by decide) ⟨by decide, by decide⟩ rfl
    by_cases h7 : c.toNat = 0x08
    · rw [if_neg h6, if_pos h7,
        show c = Char.ofNat 8 from (Char.ofNat_toNat c).symm.trans (congrArg _ h7)]
      exact .named (by decide) ⟨by decide, by decide⟩ rfl
    rw [if_neg h6, if_neg h7]
    split
    · exact .plain h1 h2 ‹_›
    · exact shape_unicodeEscape c

/-! ## Reading -/

/-- What follows a surrogate does not complete it. -/
def Clear (rest : Text) : Prop :=
  after ['\\', 'u'] rest = none ∨
    ∃ low m later, after ['\\', 'u'] rest = some low ∧ unit low = some (m, later) ∧ ¬ Low m

theorem escaped_unit {n : Nat} (h : n < 0x10000) (hn : ¬ High n) (rest : Text) :
    escaped (.char 'u' :: (chars (hexDigits4 n) ++ rest)) = some (point n, rest) := by
  show ((unit (chars (hexDigits4 n) ++ rest)).bind fun u =>
    if 0xd800 ≤ u.1 ∧ u.1 < 0xdc00 then surrogate u.1 u.2 else some (point u.1, u.2)) = _
  rw [unit_hexDigits4 h]
  exact if_neg hn

theorem escaped_high {n : Nat} (hn : High n) (rest : Text) :
    escaped (.char 'u' :: (chars (hexDigits4 n) ++ rest)) = surrogate n rest := by
  have h : n < 0x10000 := by
    obtain ⟨-, hlt⟩ := hn
    omega
  show ((unit (chars (hexDigits4 n) ++ rest)).bind fun u =>
    if 0xd800 ≤ u.1 ∧ u.1 < 0xdc00 then surrogate u.1 u.2 else some (point u.1, u.2)) = _
  rw [unit_hexDigits4 h]
  exact if_pos hn

theorem surrogate_clear {n : Nat} {rest : Text} (h : Clear rest) :
    surrogate n rest = some (point n, rest) := by
  unfold surrogate
  rcases h with h | ⟨low, m, later, hlow, hunit, hm⟩
  · rw [h]
  · rw [hlow]
    show ((unit low).bind fun u => if 0xdc00 ≤ u.1 ∧ u.1 < 0xe000 then
      some (Point.char (Char.ofNat (0x10000 + (n - 0xd800) * 0x400 + (u.1 - 0xdc00))), u.2)
      else some (point n, rest)) = _
    rw [hunit]
    exact if_neg hm

theorem surrogate_low {n m : Nat} (hm : Low m) (rest : Text) :
    surrogate n (chars ('\\' :: 'u' :: hexDigits4 m) ++ rest) =
      some (.char (Char.ofNat (0x10000 + (n - 0xd800) * 0x400 + (m - 0xdc00))), rest) := by
  have h : m < 0x10000 := by
    obtain ⟨-, hlt⟩ := hm
    omega
  show ((unit (chars (hexDigits4 m) ++ rest)).bind fun u => if 0xdc00 ≤ u.1 ∧ u.1 < 0xe000 then
    some (Point.char (Char.ofNat (0x10000 + (n - 0xd800) * 0x400 + (u.1 - 0xdc00))), u.2)
    else some (point n, chars ('\\' :: 'u' :: hexDigits4 m) ++ rest)) = _
  rw [unit_hexDigits4 h]
  exact if_pos hm

theorem body_escaped {text later : Text} {p : Point} (h : escaped text = some (p, later)) (fuel : Nat) :
    body (fuel + 1) (.char '\\' :: text) = (body fuel later).map fun r => (p :: r.1, r.2) := by
  show ((escaped text).bind fun q => (body fuel q.2).bind fun r => some (q.1 :: r.1, r.2)) = _
  rw [h]
  show ((body fuel later).bind fun r => some (p :: r.1, r.2)) = _
  cases body fuel later <;> rfl

/-- A high surrogate that stands alone. -/
def Leads : Point → Prop
  | .char _ => False
  | .lone n => n.val < 0x400

/-- A low surrogate that stands alone. -/
def Trails : Point → Prop
  | .char _ => False
  | .lone n => 0x400 ≤ n.val

instance : DecidablePred Leads
  | .char _ => isFalse id
  | .lone n => inferInstanceAs (Decidable (n.val < 0x400))

instance : DecidablePred Trails
  | .char _ => isFalse id
  | .lone n => inferInstanceAs (Decidable (0x400 ≤ n.val))

theorem point_surrogate {n : Nat} (h : 0xd800 ≤ n ∧ n < 0xe000) :
    ∃ k : Fin 2048, point n = .lone k ∧ k.val = n - 0xd800 := by
  refine ⟨Fin.ofNat 2048 (n - 0xd800), if_pos h, Nat.mod_eq_of_lt ?_⟩
  omega

theorem leads_point {n : Nat} (h : High n) : Leads (point n) := by
  obtain ⟨hlo, hhi⟩ := h
  obtain ⟨k, hk, hval⟩ := point_surrogate (n := n) ⟨hlo, by omega⟩
  rw [hk]
  show k.val < 0x400
  omega

theorem trails_point {n : Nat} (h : Low n) : Trails (point n) := by
  obtain ⟨hlo, hhi⟩ := h
  obtain ⟨k, hk, hval⟩ := point_surrogate (n := n) ⟨by omega, hhi⟩
  rw [hk]
  show 0x400 ≤ k.val
  omega

/-- One point is read back of what it is written as. -/
theorem body_shape {p : Point} {text : List Char} (h : Shape p text) {rest : Text}
    (hrest : Leads p → Clear rest) (fuel : Nat) :
    body (fuel + 1) (chars text ++ rest) = (body fuel rest).map fun r => (p :: r.1, r.2) := by
  cases h with
  | @plain c hquote hback hc =>
    have hcontrol : ¬ c.toNat < 0x20 := Nat.not_lt_of_le hc.1
    show (if c = '"' then _ else if c = '\\' then _ else if c.toNat < 0x20 then _ else
      (body fuel rest).bind fun r => some (Point.char c :: r.1, r.2)) = _
    rw [if_neg hquote, if_neg hback, if_neg hcontrol]
    cases body fuel rest <;> rfl
  | named hu hd h => exact body_named hu h fuel rest
  | @unit n h =>
    show body (fuel + 1) (.char '\\' :: .char 'u' :: (chars (hexDigits4 n) ++ rest)) = _
    refine body_escaped ?_ fuel
    by_cases hn : High n
    · rw [escaped_high hn]
      exact surrogate_clear (hrest (leads_point hn))
    · exact escaped_unit h hn rest
  | @pair n m hn hm =>
    rw [chars_append, List.append_assoc]
    show body (fuel + 1) (.char '\\' :: .char 'u' :: (chars (hexDigits4 n) ++
      (chars ('\\' :: 'u' :: hexDigits4 m) ++ rest))) = _
    refine body_escaped ?_ fuel
    rw [escaped_high hn]
    exact surrogate_low hm rest

/-- What is written for a point that is no low surrogate completes nothing. -/
theorem clear_shape {p : Point} {text : List Char} (h : Shape p text) (hp : ¬ Trails p) (rest : Text) :
    Clear (chars text ++ rest) := by
  cases h with
  | plain hquote hback hc => exact .inl (after_ne (Ne.symm hback) _ _)
  | @named c d hu hd h => exact .inl (after_ne (Ne.symm hu) [] rest)
  | @unit n h =>
    exact .inr ⟨chars (hexDigits4 n) ++ rest, n, rest, rfl, unit_hexDigits4 h rest,
      fun hm => hp (trails_point hm)⟩
  | @pair n m hn hm =>
    obtain ⟨-, hlt⟩ := hn
    rw [chars_append, List.append_assoc]
    refine .inr ⟨chars (hexDigits4 n) ++ _, n, _, rfl, unit_hexDigits4 (by omega) _, ?_⟩
    rintro ⟨hlo, -⟩
    omega

/-- No two points of the text are read back as one. -/
def Unpaired (s : Text) : Prop := s.IsChain fun p q => Leads p → ¬ Trails q

instance : DecidablePred Unpaired := fun s => inferInstanceAs (Decidable (s.IsChain _))

theorem unpaired_chars (cs : List Char) : Unpaired (chars cs) := by
  induction cs with
  | nil => exact .nil
  | cons c cs ih =>
    cases cs with
    | nil => exact .singleton _
    | cons d cs => exact List.isChain_cons_cons.2 ⟨fun h => h.elim, ih⟩

theorem asciiText_cons (p : Point) (s : Text) :
    asciiText (p :: s) = chars (asciiEscape p) ++ asciiText s := by
  unfold asciiText
  rw [List.flatMap_cons, chars_append]

theorem clear_asciiText {p : Point} {s : Text} (h : Unpaired (p :: s)) (hp : Leads p) (rest : Text) :
    Clear (asciiText s ++ .char '"' :: rest) := by
  cases s with
  | nil => exact .inl (after_ne (by decide) _ _)
  | cons q s =>
    rw [asciiText_cons, List.append_assoc]
    exact clear_shape (shape_asciiEscape q) ((List.isChain_cons_cons.1 h).1 hp) _

theorem body_asciiText {s : Text} (h : Unpaired s) {fuel : Nat} (hfuel : s.length < fuel)
    (rest : Text) : body fuel (asciiText s ++ .char '"' :: rest) = some (s, rest) := by
  induction s generalizing fuel with
  | nil =>
    cases fuel with
    | zero => omega
    | succ fuel => rfl
  | cons p s ih =>
    cases fuel with
    | zero => omega
    | succ fuel =>
      rw [List.length_cons] at hfuel
      rw [asciiText_cons, List.append_assoc,
        body_shape (shape_asciiEscape p) (fun hp => clear_asciiText h hp rest),
        ih h.of_cons (by omega)]
      rfl

theorem length_shape {p : Point} {text : List Char} (h : Shape p text) : 1 ≤ text.length := by
  cases h <;> simp

theorem length_asciiText (s : Text) : s.length ≤ (asciiText s).length := by
  induction s with
  | nil => exact Nat.zero_le _
  | cons p s ih =>
    have hp := length_shape (shape_asciiEscape p)
    rw [asciiText_cons, List.length_append, List.length_cons]
    unfold chars
    rw [List.length_map]
    omega

theorem string_asciiText {s : Text} (h : Unpaired s) (rest : Text) :
    string (asciiText s ++ .char '"' :: rest) = some (s, rest) := by
  apply body_asciiText h
  have hlen := length_asciiText s
  rw [List.length_append, List.length_cons]
  omega

/-- The spelling of `ensure_ascii=True`. -/
def inAscii : Spelling where
  escape := asciiText
  Fits := Unpaired
  string_escape h rest := string_asciiText h rest

/-! ## What is written -/

instance : DecidablePred Printable := fun c =>
  inferInstanceAs (Decidable (0x20 ≤ c.toNat ∧ c.toNat ≤ 0x7e))

/-- The text has printable ASCII characters only. -/
def AllPrintable (text : Text) : Prop := ∀ p ∈ text, ∃ c, p = .char c ∧ Printable c

theorem allPrintable_chars {cs : List Char} (h : ∀ c ∈ cs, Printable c) : AllPrintable (chars cs) := by
  intro p hp
  obtain ⟨c, hc, rfl⟩ := List.mem_map.1 hp
  exact ⟨c, rfl, h c hc⟩

theorem allPrintable_word {cs : List Char} (h : cs.all (fun c => decide (Printable c)) = true) :
    AllPrintable (chars cs) :=
  allPrintable_chars fun c hc => of_decide_eq_true (List.all_eq_true.1 h c hc)

theorem AllPrintable.append {a b : Text} (ha : AllPrintable a) (hb : AllPrintable b) :
    AllPrintable (a ++ b) := by
  intro p hp
  rcases List.mem_append.1 hp with hp | hp
  · exact ha p hp
  · exact hb p hp

theorem AllPrintable.cons {c : Char} {text : Text} (hc : Printable c) (h : AllPrintable text) :
    AllPrintable (.char c :: text) := by
  intro p hp
  rcases List.mem_cons.1 hp with rfl | hp
  · exact ⟨c, rfl, hc⟩
  · exact h p hp

theorem printable_digitChar : ∀ n, n < 16 → Printable n.digitChar := by decide

theorem printable_hexDigits4 {n : Nat} (h : n < 0x10000) : ∀ c ∈ hexDigits4 n, Printable c := by
  intro c hc
  rw [hexDigits4_eq h] at hc
  simp only [List.mem_cons, List.not_mem_nil, or_false] at hc
  rcases hc with rfl | rfl | rfl | rfl
  all_goals exact printable_digitChar _ (by omega)

theorem printable_unit {n : Nat} (h : n < 0x10000) :
    ∀ c ∈ '\\' :: 'u' :: hexDigits4 n, Printable c := by
  intro c hc
  rcases List.mem_cons.1 hc with rfl | hc
  · decide
  rcases List.mem_cons.1 hc with rfl | hc
  · decide
  · exact printable_hexDigits4 h c hc

theorem printable_shape {p : Point} {text : List Char} (h : Shape p text) :
    ∀ c ∈ text, Printable c := by
  cases h with
  | plain hquote hback hc => exact List.forall_mem_singleton.2 hc
  | named hu hd h =>
    exact List.forall_mem_cons.2 ⟨by decide, List.forall_mem_singleton.2 hd⟩
  | unit h => exact printable_unit h
  | @pair n m hn hm =>
    obtain ⟨-, hn⟩ := hn
    obtain ⟨-, hm⟩ := hm
    intro c hc
    rcases List.mem_append.1 hc with hc | hc
    · exact printable_unit (by omega) c hc
    · exact printable_unit (by omega) c hc

theorem printable_quote (s : Text) : AllPrintable (inAscii.quote s) := by
  have hescape : AllPrintable (asciiText s) := by
    refine allPrintable_chars fun c hc => ?_
    obtain ⟨p, -, hp⟩ := List.mem_flatMap.1 hc
    exact printable_shape (shape_asciiEscape p) c hp
  have hend : AllPrintable (chars ['"']) := allPrintable_word (by decide)
  exact .cons (by decide) (hescape.append hend)

theorem printable_of_isDigit {c : Char} (h : c.isDigit = true) : Printable c := by
  simp only [Char.isDigit, Bool.and_eq_true, decide_eq_true_eq, UInt32.le_iff_toNat_le] at h
  have hc : c.toNat = c.val.toNat := rfl
  have h0 : '0'.val.toNat = 48 := rfl
  have h9 : '9'.val.toNat = 57 := rfl
  exact ⟨by omega, by omega⟩

theorem printable_numeral {l : Literal} (h : l.Numeral) : ∀ c ∈ l.text, Printable c := by
  have hdigits : ∀ ds : List Char, (∀ c ∈ ds, c.isDigit = true) → ∀ c ∈ ds, Printable c :=
    fun ds hds c hc => printable_of_isDigit (hds c hc)
  intro c hc
  unfold Literal.text at hc
  simp only [List.mem_append] at hc
  rcases hc with hc | hc | hc | hc
  · cases hneg : l.negative with
    | true =>
      rw [hneg] at hc
      obtain rfl := List.mem_singleton.1 hc
      decide
    | false =>
      rw [hneg] at hc
      cases hc
  · exact printable_of_isDigit (h.digits c (List.mem_append_left _ hc))
  · unfold Literal.fractionText at hc
    split at hc
    · cases hc
    · rcases List.mem_cons.1 hc with rfl | hc
      · decide
      · exact printable_of_isDigit (h.digits c (List.mem_append_right _ hc))
  · unfold Literal.exponentText at hc
    cases he : l.exponent with
    | none =>
      rw [he] at hc
      cases hc
    | some x =>
      obtain ⟨mark, ds⟩ := x
      obtain ⟨hmark, -, hds⟩ := h.exponent mark ds he
      rw [he] at hc
      rcases List.mem_append.1 hc with hc | hc
      · have hall : (marks.all fun m => m.all fun c => decide (Printable c)) = true := by decide
        exact of_decide_eq_true (List.all_eq_true.1 (List.all_eq_true.1 hall mark hmark) c hc)
      · exact printable_of_isDigit (hds c hc)

section

variable {ν : Type} [FloatText ν]

theorem printable_floatText (x : ν) : AllPrintable (chars (floatText x)) := by
  unfold floatText
  cases hf : FloatText.form x with
  | nan => exact allPrintable_word (by decide)
  | infinity => exact allPrintable_word (by decide)
  | negInfinity => exact allPrintable_word (by decide)
  | literal l => exact allPrintable_chars (printable_numeral (FloatText.valid_of_form hf).toNumeral)

theorem printable_decimal (n : Int) : AllPrintable (chars (decimal n)) := by
  rw [← decimalLiteral_text]
  exact allPrintable_chars (printable_numeral (decimalLiteral_numeral n))

mutual

/-- What is written has no line break, and no character of more than one byte. -/
theorem printable_write {blank : List Char} (hblank : ∀ c ∈ blank, Printable c) :
    ∀ v : Value ν, AllPrintable (write inAscii blank v)
  | .null => allPrintable_word (by decide)
  | .bool true => allPrintable_word (by decide)
  | .bool false => allPrintable_word (by decide)
  | .int n => printable_decimal n
  | .float x => printable_floatText x
  | .str s => printable_quote s
  | .arr [] => allPrintable_word (by decide)
  | .arr (v :: rest) =>
    .cons (by decide) ((printable_write hblank v).append (printable_writeItems hblank rest))
  | .obj [] => allPrintable_word (by decide)
  | .obj ((k, v) :: rest) => by
    have hcolon : ∀ c ∈ ':' :: blank, Printable c := List.forall_mem_cons.2 ⟨by decide, hblank⟩
    exact .cons (by decide) ((printable_quote k).append ((allPrintable_chars hcolon).append
      ((printable_write hblank v).append (printable_writeMembers hblank rest))))

theorem printable_writeItems {blank : List Char} (hblank : ∀ c ∈ blank, Printable c) :
    ∀ vs : List (Value ν), AllPrintable (writeItems inAscii blank vs)
  | [] => show AllPrintable (chars [']']) from allPrintable_word (by decide)
  | v :: rest => by
    have hcomma : ∀ c ∈ ',' :: blank, Printable c := List.forall_mem_cons.2 ⟨by decide, hblank⟩
    exact (allPrintable_chars hcomma).append
      ((printable_write hblank v).append (printable_writeItems hblank rest))

theorem printable_writeMembers {blank : List Char} (hblank : ∀ c ∈ blank, Printable c) :
    ∀ ms : List (Text × Value ν), AllPrintable (writeMembers inAscii blank ms)
  | [] => show AllPrintable (chars ['}']) from allPrintable_word (by decide)
  | (k, v) :: rest => by
    have hcomma : ∀ c ∈ ',' :: blank, Printable c := List.forall_mem_cons.2 ⟨by decide, hblank⟩
    have hcolon : ∀ c ∈ ':' :: blank, Printable c := List.forall_mem_cons.2 ⟨by decide, hblank⟩
    exact (allPrintable_chars hcomma).append ((printable_quote k).append
      ((allPrintable_chars hcolon).append
        ((printable_write hblank v).append (printable_writeMembers hblank rest))))

end

end

/-! ## Sorted keys -/

section

variable {ν : Type}

/-- `ord` -/
def Point.code : Point → Nat
  | .char c => c.toNat
  | .lone n => 0xd800 + n.val

/-- Keys compare by code points. -/
def keyLe (a b : Text × Value ν) : Prop := a.1.map Point.code ≤ b.1.map Point.code

instance : DecidableRel (keyLe (ν := ν)) := fun a b =>
  inferInstanceAs (Decidable (a.1.map Point.code ≤ b.1.map Point.code))

mutual

/-- The value as `sort_keys` has it written. -/
def sortKeys : Value ν → Value ν
  | .arr items => .arr (sortItems items)
  | .obj members => .obj ((sortMembers members).insertionSort keyLe)
  | .null => .null
  | .bool b => .bool b
  | .int n => .int n
  | .float x => .float x
  | .str s => .str s

def sortItems : List (Value ν) → List (Value ν)
  | [] => []
  | v :: rest => sortKeys v :: sortItems rest

def sortMembers : List (Text × Value ν) → List (Text × Value ν)
  | [] => []
  | (k, v) :: rest => (k, sortKeys v) :: sortMembers rest

end

theorem sortMembers_eq_map (members : List (Text × Value ν)) :
    sortMembers members = members.map fun m => (m.1, sortKeys m.2) := by
  induction members with
  | nil => rfl
  | cons m rest ih =>
    obtain ⟨k, v⟩ := m
    rw [sortMembers, ih, List.map_cons]

/-- An object of which each name comes once stays as it is. -/
theorem collapse_obj {members : List (Text × Value ν)} (hnames : (members.map Prod.fst).Nodup)
    (h : ∀ m ∈ members, collapse m.2 = m.2) : collapse (.obj members) = .obj members := by
  have hmembers : collapseMembers members = members := by
    rw [collapseMembers_eq_map]
    conv => rhs; rw [← List.map_id members]
    exact List.map_congr_left fun m hm => Prod.ext rfl (h m hm)
  have hsame : members.foldl put [] = members := foldl_put_of_nodup members hnames
  rw [collapse, hmembers, hsame]

/-- What is read of a text that was written. -/
theorem loads_write [FloatText ν] {q : Spelling} {blank : List Char}
    (hblank : ∀ c ∈ blank, isBlank c = true) {v : Value ν} (hfits : q.FitsValue v) :
    loads (write q blank v) = some (collapse v) := by
  unfold loads
  rw [read_write hblank hfits, Option.map_some]

end

end Logic.JsonRead
