import Mathlib.Data.List.Induction

/-! # Texts of IP addresses

`ipAddress` reads a text as `ipaddress.ip_address` does: as four decimal octets, and else as the
hextets of an address of version 6.  An octet is read from its decimal numeral and from no other text
(`parseOctet_eq_some`), so a text of version 4 is four numerals with dots in between
(`v4Address_eq_some`). -/

namespace Logic.Ip

inductive Address where
  | v4 (n : Nat)
  | v6 (n : Nat) (scope : Option (List Char))
  deriving DecidableEq, Repr

/-- `is_loopback` -/
def Address.isLoopback : Address → Bool
  | .v4 n => n >>> 24 = 127
  | .v6 n _ => n = 1

/-! ## Version 4 -/

/-- What `_parse_octet` asks of an octet before it reads the number. -/
def IsOctet (s : List Char) : Prop :=
  s ≠ [] ∧ s.all Char.isDigit = true ∧ s.length ≤ 3 ∧ (s ≠ ['0'] → s.head? ≠ some '0')

instance (s : List Char) : Decidable (IsOctet s) := inferInstanceAs (Decidable (_ ∧ _))

/-- `IPv4Address._parse_octet` -/
def parseOctet (s : List Char) : Option Nat :=
  if IsOctet s ∧ Nat.ofDigitChars 10 s 0 ≤ 255 then some (Nat.ofDigitChars 10 s 0) else none

/-- `IPv4Address._ip_int_from_string` -/
def parseV4 (s : List Char) : Option Nat :=
  match s.splitOn '.' with
  | [a, b, c, d] => do
    let a ← parseOctet a
    let b ← parseOctet b
    let c ← parseOctet c
    let d ← parseOctet d
    return ((a * 256 + b) * 256 + c) * 256 + d
  | _ => none

/-- `IPv4Address` -/
def v4Address (s : List Char) : Option Nat := if '/' ∈ s then none else parseV4 s

/-! ## Version 6 -/

def hexDigit (c : Char) : Option Nat :=
  if c.isDigit then some (c.toNat - '0'.toNat)
  else if 'a' ≤ c ∧ c ≤ 'f' then some (c.toNat - 'a'.toNat + 10)
  else if 'A' ≤ c ∧ c ≤ 'F' then some (c.toNat - 'A'.toNat + 10)
  else none

/-- `IPv6Address._parse_hextet` -/
def parseHextet (s : List Char) : Option Nat :=
  if s = [] ∨ 4 < s.length then none
  else (s.mapM hexDigit).map fun digits => digits.foldl (fun n d => n * 16 + d) 0

/-- The number that the hextets make. -/
def parseHextets (parts : List (List Char)) : Option Nat :=
  (parts.mapM parseHextet).map fun hextets => hextets.foldl (fun n h => n <<< 16 + h) 0

/-- A suffix of version 4 in hexadecimal. -/
def withoutSuffix (parts : List (List Char)) : Option (List (List Char)) :=
  let last := parts.getLast?.getD []
  if '.' ∈ last then
    (v4Address last).map fun n =>
      parts.dropLast ++ [Nat.toDigits 16 (n >>> 16), Nat.toDigits 16 (n % 65536)]
  else some parts

/-- Where nothing stands between two colons. -/
def skips (parts : List (List Char)) : List Nat :=
  (List.range parts.length).filter fun i =>
    1 ≤ i ∧ i + 1 < parts.length ∧ parts[i]? = some []

/-- How many parts are before or after the `::`, which is at the end if the outermost is empty. -/
def countedParts (outermost : Option (List Char)) (count : Nat) : Option Nat :=
  if outermost = some [] then if count = 1 then some 0 else none else some count

/-- The rest of `IPv6Address._ip_int_from_string`, once there are at most nine parts. -/
def joinParts (parts : List (List Char)) : Option Nat :=
  match skips parts with
  | [] => if parts.length = 8 then parseHextets parts else none
  | [i] => do
    let hi ← countedParts parts.head? i
    let lo ← countedParts parts.getLast? (parts.length - i - 1)
    if 8 ≤ hi + lo then none
    else do
      let above ← parseHextets (parts.take hi)
      let below ← parseHextets (parts.drop (parts.length - lo))
      return above <<< (16 * (8 - hi)) + below
  | _ => none

/-- `IPv6Address._ip_int_from_string` -/
def parseV6 (s : List Char) : Option Nat :=
  let parts := s.splitOn ':'
  if parts.length < 3 then none
  else (withoutSuffix parts).bind fun parts => if 9 < parts.length then none else joinParts parts

/-- `IPv6Address._split_scope_id` -/
def splitScopeId (s : List Char) : Option (List Char × Option (List Char)) :=
  match s.dropWhile (· ≠ '%') with
  | [] => some (s, none)
  | _ :: scope =>
    if scope = [] ∨ '%' ∈ scope then none else some (s.takeWhile (· ≠ '%'), some scope)

/-- `IPv6Address` -/
def v6Address (s : List Char) : Option Address :=
  if '/' ∈ s then none
  else (splitScopeId s).bind fun (addr, scope) => (parseV6 addr).map fun n => .v6 n scope

/-- `ip_address` -/
def ipAddress (s : List Char) : Option Address :=
  match v4Address s with
  | some n => some (.v4 n)
  | none => v6Address s

/-! ## Decimal numerals -/

theorem digitChar_of_isDigit {c : Char} (h : c.isDigit) :
    c.toNat - '0'.toNat < 10 ∧ (c.toNat - '0'.toNat).digitChar = c := by
  have hc : 48 ≤ c.toNat ∧ c.toNat ≤ 57 := Char.isDigit_iff_toNat.mp h
  have hlt : c.toNat - '0'.toNat < 10 := by
    show c.toNat - 48 < 10
    omega
  refine ⟨hlt, ?_⟩
  apply Char.toNat_inj.mp
  rw [Nat.toNat_digitChar_of_lt_ten hlt]
  show 48 + (c.toNat - 48) = c.toNat
  omega

theorem ofDigitChars_concat (s : List Char) (c : Char) :
    Nat.ofDigitChars 10 (s ++ [c]) 0 = 10 * Nat.ofDigitChars 10 s 0 + (c.toNat - '0'.toNat) := by
  rw [Nat.ofDigitChars_append, Nat.ofDigitChars_cons, Nat.ofDigitChars_nil]

theorem head?_concat {s : List Char} (h : s ≠ []) {c : Char} : (s ++ [c]).head? = s.head? := by
  cases s with
  | nil => exact absurd rfl h
  | cons d s => rfl

theorem ofDigitChars_pos {s : List Char} (hdigits : ∀ c ∈ s, c.isDigit) (hne : s ≠ [])
    (hzero : s.head? ≠ some '0') : 0 < Nat.ofDigitChars 10 s 0 := by
  induction s using List.reverseRecOn with
  | nil => exact absurd rfl hne
  | append_singleton s c ih =>
    rw [ofDigitChars_concat]
    obtain ⟨-, hc⟩ := digitChar_of_isDigit (hdigits c (by simp))
    by_cases hs : s = []
    · have hpos : c.toNat - '0'.toNat ≠ 0 := by
        intro h
        rw [h] at hc
        rw [hs, ← hc] at hzero
        exact hzero rfl
      omega
    · have hhead : s.head? ≠ some '0' := by rwa [head?_concat hs] at hzero
      have hpos := ih (fun c hc => hdigits c (List.mem_append_left _ hc)) hs hhead
      omega

/-- A numeral without leading zeros is that of its number. -/
theorem toDigits_ofDigitChars {s : List Char} (hdigits : ∀ c ∈ s, c.isDigit) (hne : s ≠ [])
    (hzero : s ≠ ['0'] → s.head? ≠ some '0') :
    Nat.toDigits 10 (Nat.ofDigitChars 10 s 0) = s := by
  induction s using List.reverseRecOn with
  | nil => exact absurd rfl hne
  | append_singleton s c ih =>
    rw [ofDigitChars_concat]
    obtain ⟨hlt, hc⟩ := digitChar_of_isDigit (hdigits c (by simp))
    by_cases hs : s = []
    · rw [hs, Nat.ofDigitChars_nil, Nat.mul_zero, Nat.zero_add, Nat.toDigits_of_lt_base hlt, hc]
      rfl
    · have hhead : s.head? ≠ some '0' := by
        rw [← head?_concat hs]
        refine hzero fun h => hs ?_
        have hlen := congrArg List.length h
        rw [List.length_append] at hlen
        exact List.eq_nil_of_length_eq_zero (by simpa using hlen)
      have hrest := fun c hc => hdigits c (List.mem_append_left _ hc)
      rw [← Nat.toDigits_append_toDigits (by decide) (ofDigitChars_pos hrest hs hhead) hlt,
        ih hrest hs fun _ => hhead, Nat.toDigits_of_lt_base hlt, hc]

theorem isOctet_toDigits {n : Nat} (h : n ≤ 255) : IsOctet (Nat.toDigits 10 n) := by
  have hhead : ∀ n < 256, Nat.toDigits 10 n ≠ ['0'] → (Nat.toDigits 10 n).head? ≠ some '0' := by
    decide +kernel
  refine ⟨Nat.toDigits_ne_nil, List.all_eq_true.mpr fun c hc => ?_, ?_, hhead n (by omega)⟩
  · exact Nat.isDigit_of_mem_toDigits (by decide) (by decide) hc
  · rw [Nat.length_toDigits_le_iff (by decide) (by decide)]
    omega

/-- An octet is read from its numeral. -/
theorem parseOctet_eq_some {s : List Char} {n : Nat} :
    parseOctet s = some n ↔ n ≤ 255 ∧ s = Nat.toDigits 10 n := by
  unfold parseOctet
  constructor
  · intro h
    split at h
    · rename_i hs
      cases h
      obtain ⟨⟨hne, hdigits, -, hzero⟩, hle⟩ := hs
      exact ⟨hle, (toDigits_ofDigitChars (List.all_eq_true.mp hdigits) hne hzero).symm⟩
    · cases h
  · rintro ⟨hn, rfl⟩
    rw [Nat.ofDigitChars_ten_toDigits, if_pos ⟨isOctet_toDigits hn, hn⟩]

theorem notMem_toDigits {n : Nat} {c : Char} (hc : c.isDigit = false) : c ∉ Nat.toDigits 10 n := by
  intro h
  rw [Nat.isDigit_of_mem_toDigits (by decide) (by decide) h] at hc
  cases hc

/-- A text of version 4 is made of the numerals of its octets. -/
theorem v4Address_eq_some {s : List Char} {n : Nat} :
    v4Address s = some n ↔ ∃ a b c d, a ≤ 255 ∧ b ≤ 255 ∧ c ≤ 255 ∧ d ≤ 255 ∧
      s = ['.'].intercalate ([a, b, c, d].map (Nat.toDigits 10)) ∧
      n = ((a * 256 + b) * 256 + c) * 256 + d := by
  unfold v4Address parseV4
  constructor
  · intro h
    split at h
    · cases h
    · split at h
      · rename_i a b c d hsplit
        obtain ⟨a', ha, hbcd⟩ := Option.bind_eq_some_iff.mp h
        obtain ⟨b', hb, hcd⟩ := Option.bind_eq_some_iff.mp hbcd
        obtain ⟨c', hc, hd⟩ := Option.bind_eq_some_iff.mp hcd
        obtain ⟨d', hd, hn⟩ := Option.bind_eq_some_iff.mp hd
        obtain ⟨hale, rfl⟩ := parseOctet_eq_some.mp ha
        obtain ⟨hble, rfl⟩ := parseOctet_eq_some.mp hb
        obtain ⟨hcle, rfl⟩ := parseOctet_eq_some.mp hc
        obtain ⟨hdle, rfl⟩ := parseOctet_eq_some.mp hd
        refine ⟨a', b', c', d', hale, hble, hcle, hdle, ?_, (Option.some.inj hn).symm⟩
        have hjoin : ['.'].intercalate (s.splitOn '.') = s := List.intercalate_splitOn '.'
        rw [← hjoin, hsplit]
        rfl
      · cases h
  · rintro ⟨a, b, c, d, ha, hb, hc, hd, rfl, rfl⟩
    have hsplit : (['.'].intercalate ([a, b, c, d].map (Nat.toDigits 10))).splitOn '.' =
        [a, b, c, d].map (Nat.toDigits 10) := by
      refine List.splitOn_intercalate _ (fun l hl => ?_) (List.cons_ne_nil _ _)
      obtain ⟨n, -, rfl⟩ := List.mem_map.mp hl
      exact notMem_toDigits rfl
    have hslash : '/' ∉ ['.'].intercalate ([a, b, c, d].map (Nat.toDigits 10)) := by
      have hnone : ∀ n, '/' ∉ Nat.toDigits 10 n := fun n => notMem_toDigits rfl
      simp [List.intercalate, hnone]
    rw [if_neg hslash, hsplit]
    show (parseOctet (Nat.toDigits 10 a)).bind _ = _
    rw [parseOctet_eq_some.mpr ⟨ha, rfl⟩]
    show (parseOctet (Nat.toDigits 10 b)).bind _ = _
    rw [parseOctet_eq_some.mpr ⟨hb, rfl⟩]
    show (parseOctet (Nat.toDigits 10 c)).bind _ = _
    rw [parseOctet_eq_some.mpr ⟨hc, rfl⟩]
    show (parseOctet (Nat.toDigits 10 d)).bind _ = _
    rw [parseOctet_eq_some.mpr ⟨hd, rfl⟩]
    rfl

/-! ## Texts that begin like an address -/

theorem parseHextet_of_dot {p : List Char} (h : '.' ∈ p) : parseHextet p = none := by
  have hnone : ∀ {p : List Char}, '.' ∈ p → p.mapM hexDigit = none := by
    intro p h
    induction p with
    | nil => cases h
    | cons c p ih =>
      rw [List.mapM_cons]
      rcases List.mem_cons.mp h with rfl | h
      · rfl
      · rw [ih h]
        cases hexDigit c <;> rfl
  unfold parseHextet
  split
  · rfl
  · rw [hnone h]
    rfl

theorem parseHextets_of_dot {p : List Char} (h : '.' ∈ p) (parts : List (List Char)) :
    parseHextets (p :: parts) = none := by
  unfold parseHextets
  rw [List.mapM_cons, parseHextet_of_dot h]
  rfl

/-- The first part is read, wherever the `::` is. -/
theorem joinParts_of_dot {p : List Char} (h : '.' ∈ p) (parts : List (List Char)) :
    joinParts (p :: parts) = none := by
  have hne : (p :: parts).head? ≠ some [] := by
    intro hp
    rw [Option.some.inj hp] at h
    cases h
  unfold joinParts
  split
  · rw [parseHextets_of_dot h]
    split <;> rfl
  · rename_i i hskips
    have hi : i ∈ skips (p :: parts) := by
      rw [hskips]
      exact List.mem_singleton_self i
    have hpos : 1 ≤ i := (of_decide_eq_true (List.mem_filter.mp hi).2).1
    obtain ⟨j, rfl⟩ : ∃ j, i = j + 1 := ⟨i - 1, by omega⟩
    rw [countedParts, if_neg hne]
    show ((countedParts _ _).bind _ : Option Nat) = none
    cases countedParts (p :: parts).getLast? ((p :: parts).length - (j + 1) - 1) with
    | none => rfl
    | some lo =>
      show (if 8 ≤ j + 1 + lo then none else (parseHextets (p :: parts.take j)).bind _) = none
      rw [parseHextets_of_dot h]
      split <;> rfl
  · rfl

theorem splitOn_of_dot {a : List Char} (ha : ':' ∉ a) (s : List Char) :
    ∃ t parts, (a ++ '.' :: s).splitOn ':' = (a ++ '.' :: t) :: parts := by
  induction a with
  | nil =>
    obtain ⟨t, parts, hs⟩ := List.exists_cons_of_ne_nil (List.splitOn_ne_nil ':' s)
    refine ⟨t, parts, ?_⟩
    rw [List.nil_append, List.splitOn_cons_eq_if_modifyHead, hs]
    rfl
  | cons c a ih =>
    obtain ⟨t, parts, hs⟩ := ih fun h => ha (List.mem_cons_of_mem c h)
    have hc : (c == ':') = false := by
      rw [beq_eq_false_iff_ne]
      rintro rfl
      exact ha List.mem_cons_self
    refine ⟨t, parts, ?_⟩
    rw [List.cons_append, List.splitOn_cons_eq_if_modifyHead, hc, hs]
    rfl

theorem withoutSuffix_head {p q : List Char} {parts parts' : List (List Char)}
    (h : withoutSuffix (p :: q :: parts) = some parts') : ∃ more, parts' = p :: more := by
  unfold withoutSuffix at h
  dsimp only at h
  split at h
  · obtain ⟨n, -, rfl⟩ := Option.map_eq_some_iff.mp h
    exact ⟨_, rfl⟩
  · cases h
    exact ⟨_, rfl⟩

theorem parseV6_of_dot {a : List Char} (ha : ':' ∉ a) (s : List Char) :
    parseV6 (a ++ '.' :: s) = none := by
  obtain ⟨t, parts, hsplit⟩ := splitOn_of_dot ha s
  unfold parseV6
  dsimp only
  rw [hsplit]
  split
  · rfl
  · cases parts with
    | nil =>
      rename_i hlen
      exact absurd (show 1 < 3 by decide) hlen
    | cons q parts =>
      rw [Option.bind_eq_none_iff]
      intro parts' hparts
      obtain ⟨more, rfl⟩ := withoutSuffix_head hparts
      rw [joinParts_of_dot (List.mem_append_right a List.mem_cons_self)]
      split <;> rfl

/-- No address of version 6 has a dot in its first part. -/
theorem v6Address_of_dot {a s : List Char} (ha : ∀ c ∈ a, c ≠ ':' ∧ c ≠ '%') :
    v6Address (a ++ '.' :: s) = none := by
  have hcolon : ':' ∉ a := fun h => (ha ':' h).1 rfl
  have htake : (a ++ '.' :: s).takeWhile (· ≠ '%') = a ++ '.' :: s.takeWhile (· ≠ '%') := by
    rw [List.takeWhile_append_of_pos fun c hc => by simpa using (ha c hc).2]
    rfl
  unfold v6Address
  split
  · rfl
  · unfold splitScopeId
    split
    · show (parseV6 _).map _ = none
      rw [parseV6_of_dot hcolon]
      rfl
    · split
      · rfl
      · show (parseV6 _).map _ = none
        rw [htake, parseV6_of_dot hcolon]
        rfl

example : (ipAddress "127.0.0.1".toList).any Address.isLoopback = true := by decide +kernel

example : (ipAddress "::0.0.0.1%lo".toList).any Address.isLoopback = true := by decide +kernel

example : (ipAddress "127.1".toList).isNone = true := by decide +kernel

end Logic.Ip
