import Mathlib.Data.String.Basic
import ProjectMaya.Logic.Calendar

/-! # Dates with times

`datetime`: a wall time to the microsecond, with the distance from UTC where it is known.  The text
of `isoformat` is read back by `fromisoformat` (`fromisoformat_isoformat`). -/

namespace Logic

def dayMicros : Nat := 86400000000

structure DateTime where
  /-- Microseconds since the beginning of the year 1. -/
  wall : Nat
  /-- `utcoffset()` in microseconds; `none` for a naive datetime. -/
  offset : Option Int
  wall_lt : wall < Calendar.maxOrdinal * dayMicros
  offset_lt : ∀ o ∈ offset, o.natAbs < dayMicros

namespace DateTime

@[ext]
theorem ext {a b : DateTime} (hw : a.wall = b.wall) (ho : a.offset = b.offset) : a = b := by
  cases a; cases b
  simp_all

instance : DecidableEq DateTime := fun a b =>
  decidable_of_iff (a.wall = b.wall ∧ a.offset = b.offset)
    ⟨fun h => ext h.1 h.2, fun h => by rw [h]; exact ⟨rfl, rfl⟩⟩

instance : Inhabited DateTime := ⟨{ wall := 0, offset := none, wall_lt := by decide, offset_lt := nofun }⟩

/-- The datetime, if it is in range (`OverflowError`, `ValueError`). -/
def mk? (wall : Int) (offset : Option Int) : Option DateTime :=
  if hw : 0 ≤ wall ∧ wall < (Calendar.maxOrdinal * dayMicros : Nat) then
    if ho : ∀ o ∈ offset, o.natAbs < dayMicros then
      some { wall := wall.toNat, offset, wall_lt := by omega, offset_lt := ho }
    else none
  else none

theorem mk?_self (t : DateTime) : mk? t.wall t.offset = some t := by
  have hw := t.wall_lt
  unfold mk?
  rw [dif_pos ⟨by omega, by omega⟩, dif_pos t.offset_lt]
  rfl

theorem mk?_eq_some {wall : Int} {offset : Option Int} {t : DateTime} (h : mk? wall offset = some t) :
    (t.wall : Int) = wall ∧ t.offset = offset := by
  unfold mk? at h
  split at h
  · next hw =>
    split at h
    · cases h
      exact ⟨Int.toNat_of_nonneg hw.1, rfl⟩
    · cases h
  · cases h

/-- Microseconds of UTC, of an aware datetime. -/
def instant (t : DateTime) : Option Int := t.offset.map fun o => t.wall - o

/-- `a < b`, which raises where only one of them is aware. -/
def lt (a b : DateTime) : Option Bool :=
  match a.instant, b.instant with
  | some i, some j => some (i < j)
  | none, none => some (a.wall < b.wall)
  | _, _ => none

/-- `a <= b` -/
def le (a b : DateTime) : Option Bool :=
  match a.instant, b.instant with
  | some i, some j => some (i ≤ j)
  | none, none => some (a.wall ≤ b.wall)
  | _, _ => none

/-- `t + timedelta(microseconds=delta)` -/
def add (t : DateTime) (delta : Int) : Option DateTime := mk? (t.wall + delta) t.offset

/-- `t.astimezone(UTC)`; `zone` is the distance of the local time from UTC, for a naive datetime. -/
def astimezoneUtc (zone : Nat → Int) (t : DateTime) : Option DateTime :=
  mk? (t.wall - t.offset.getD (zone t.wall)) (some 0)

/-! ## Text -/

def digit (n : Nat) : Char := Char.ofNat (48 + n % 10)

/-- The last `k` decimal digits, as `%0kd` writes a number below `10 ^ k`. -/
def digits : Nat → Nat → List Char
  | 0, _ => []
  | k + 1, n => digits k (n / 10) ++ [digit n]

/-- A time of `n` microseconds as `HH:MM:SS[.ffffff]`. -/
def timeText (n : Nat) : List Char :=
  digits 2 (n / 3600000000) ++ ':' :: (digits 2 (n / 60000000 % 60) ++ ':' ::
    (digits 2 (n / 1000000 % 60) ++ if n % 1000000 = 0 then [] else '.' :: digits 6 (n % 1000000)))

/-- `_format_offset` -/
def offsetText (o : Int) : List Char :=
  let n := o.natAbs
  (if o < 0 then '-' else '+') ::
    if n % 60000000 = 0 then digits 2 (n / 3600000000) ++ ':' :: digits 2 (n / 60000000 % 60)
    else timeText n

def dateText (d : Calendar.Date) : List Char :=
  digits 4 d.year ++ '-' :: (digits 2 d.month ++ '-' :: digits 2 d.day)

def isoformat (t : DateTime) : List Char :=
  dateText (Calendar.ofOrdinal (t.wall / dayMicros + 1)) ++ 'T' ::
    (timeText (t.wall % dayMicros) ++ (t.offset.map offsetText).getD [])

/-! ## Reading a text -/

def isDigit (c : Char) : Bool := 48 ≤ c.toNat && c.toNat ≤ 57

/-- A number of exactly `k` digits, and what follows it. -/
def readDigits (k : Nat) (cs : List Char) : Option (Nat × List Char) :=
  if (cs.take k).length = k ∧ (cs.take k).all isDigit then
    some ((cs.take k).foldl (fun n c => 10 * n + (c.toNat - 48)) 0, cs.drop k)
  else none

/-- The microseconds of a fraction: up to six digits count, only digits may follow. -/
def parseFraction (cs : List Char) : Option Nat :=
  if cs.all isDigit && cs ≠ [] then
    (readDigits (min cs.length 6) cs).map fun r => r.1 * 10 ^ (6 - min cs.length 6)
  else none

/-- `_parse_hh_mm_ss_ff`: hours, minutes, seconds, microseconds. -/
def parseClock (cs : List Char) : Option (Nat × Nat × Nat × Nat) := do
  let (h, rest) ← readDigits 2 cs
  match rest with
  | [] => some (h, 0, 0, 0)
  | c :: tail =>
    let sep := c = ':'
    let (m, rest) ← readDigits 2 (if sep then tail else c :: tail)
    match rest with
    | [] => some (h, m, 0, 0)
    | c :: tail =>
      if sep ∧ c ≠ ':' then none
      else
        let (s, rest) ← readDigits 2 (if sep then tail else c :: tail)
        match rest with
        | [] => some (h, m, s, 0)
        | c :: frac => if c = '.' ∨ c = ',' then (parseFraction frac).map fun us => (h, m, s, us) else none

def clockMicros (c : Nat × Nat × Nat × Nat) : Nat :=
  c.1 * 3600000000 + c.2.1 * 60000000 + c.2.2.1 * 1000000 + c.2.2.2

/-- A text at its first such character, without the character. -/
def splitAt (c : Char) (cs : List Char) : Option (List Char × List Char) :=
  (cs.findIdx? (· = c)).map fun i => (cs.take i, cs.drop (i + 1))

/-- The offset that follows a sign or `Z`. -/
def parseZone (sign : Char) (cs : List Char) : Option Int :=
  if sign = 'Z' ∧ cs = [] then some 0
  else if cs.length = 0 ∨ cs.length = 1 ∨ cs.length = 3 then none
  else (parseClock cs).map fun c => if sign = '-' then -(clockMicros c : Int) else clockMicros c

/-- `_parse_isoformat_time`: the time of day and the offset. -/
def parseTime (cs : List Char) : Option (Nat × Option Int) :=
  if cs.length < 2 then none
  else do
    let (clock, zone) ←
      match splitAt '-' cs, splitAt '+' cs, splitAt 'Z' cs with
      | some (clock, zone), _, _ => (parseZone '-' zone).map fun o => (clock, some o)
      | none, some (clock, zone), _ => (parseZone '+' zone).map fun o => (clock, some o)
      | none, none, some (clock, zone) => (parseZone 'Z' zone).map fun o => (clock, some o)
      | none, none, none => some (cs, none)
    let c ← parseClock clock
    if c.1 < 24 ∧ c.2.1 < 60 ∧ c.2.2.1 < 60 then some (clockMicros c, zone) else none

/-- `_isoweek1monday`: the Monday of the week with the first Thursday, as the number of the day. -/
def isoWeek1Monday (year : Nat) : Nat :=
  let firstDay := Calendar.daysBeforeYear year + 1
  let firstWeekday := (firstDay + 6) % 7
  if 3 < firstWeekday then firstDay - firstWeekday + 7 else firstDay - firstWeekday

/-- `_isoweek_to_gregorian`, as the number of the day. -/
def isoWeekDay (year week day : Nat) : Option Nat :=
  let firstWeekday := (Calendar.daysBeforeYear year + 1) % 7
  let long := firstWeekday = 4 ∨ firstWeekday = 3 ∧ Calendar.isLeap year
  if 1 ≤ year ∧ 0 < week ∧ (week < 53 ∨ week = 53 ∧ long) ∧ 0 < day ∧ day < 8 then
    some (isoWeek1Monday year + (week - 1) * 7 + (day - 1))
  else none

/-- `ww[-d]`, where the dash is there if the year had one. -/
def parseWeek (sep : Bool) (year : Nat) (cs : List Char) : Option Nat := do
  let (week, rest) ← readDigits 2 cs
  match rest with
  | [] => isoWeekDay year week 1
  | c :: tail =>
    if decide (c = '-') = sep then do
      let (day, rest) ← readDigits 1 (if sep then tail else c :: tail)
      if rest = [] then isoWeekDay year week day else none
    else none

/-- `mm[-]dd`, where the dash is there if the year had one. -/
def parseMonthDay (sep : Bool) (year : Nat) (cs : List Char) : Option Nat := do
  let (month, rest) ← readDigits 2 cs
  if decide (rest.head? = some '-') = sep then do
    let (day, rest) ← readDigits 2 (if sep then rest.tail else rest)
    let date : Calendar.Date := { year, month, day }
    if rest = [] ∧ date.Valid then some date.toOrdinal else none
  else none

/-- `_parse_isoformat_date`, as the number of the day. -/
def parseDate (cs : List Char) : Option Nat := do
  let (year, rest) ← readDigits 4 cs
  let sep : Bool := rest.head? = some '-'
  let rest := if sep then rest.tail else rest
  if rest.head? = some 'W' then parseWeek sep year rest.tail else parseMonthDay sep year rest

/-- `_find_isoformat_datetime_separator` -/
def separatorLocation (cs : List Char) : Option Nat :=
  if cs.length = 7 then some 7
  else if cs[4]? = some '-' then
    if cs[5]? = some 'W' then
      if 8 < cs.length ∧ cs[8]? = some '-' then
        if cs.length = 9 then none
        else if 10 < cs.length ∧ (cs[10]?.map isDigit).getD false then some 8
        else some 10
      else some 8
    else some 10
  else if cs[4]? = some 'W' then
    let idx := 7 + ((cs.drop 7).takeWhile isDigit).length
    if idx < 9 then some idx else if idx % 2 = 0 then some 7 else some 8
  else some 8

/-- `datetime.fromisoformat`; `none` where it raises `ValueError`. -/
def fromisoformat (cs : List Char) : Option DateTime :=
  if cs.length < 7 then none
  else do
    let loc ← separatorLocation cs
    let ordinal ← parseDate (cs.take loc)
    let (micros, zone) ← if cs.length ≤ loc then some (0, none) else parseTime (cs.drop (loc + 1))
    mk? ((ordinal - 1 : Int) * dayMicros + micros) zone

/-- A separator is followed by a time. -/
example : fromisoformat "2026-01-05T".toList = none := by decide

example : (fromisoformat "2026-01-05T10:20:30.5+01:00".toList).map instant =
    (fromisoformat "2026-W02-1T092030.500Z".toList).map instant := by decide +kernel

/-! ## The round trip -/

theorem toNat_digit (n : Nat) : (digit n).toNat = 48 + n % 10 := by
  have hall : ∀ d < 10, (Char.ofNat (48 + d)).toNat = 48 + d := by decide
  exact hall _ (Nat.mod_lt n (by omega))

theorem isDigit_digit (n : Nat) : isDigit (digit n) = true := by
  have h := toNat_digit n
  simp only [isDigit, Bool.and_eq_true, decide_eq_true_eq]
  omega

@[simp] theorem length_digits (k n : Nat) : (digits k n).length = k := by
  induction k generalizing n with
  | zero => rfl
  | succ k ih => simp [digits, ih]

theorem isDigit_of_mem_digits {k n : Nat} {c : Char} (h : c ∈ digits k n) : isDigit c = true := by
  induction k generalizing n with
  | zero => cases h
  | succ k ih =>
    rw [digits, List.mem_append] at h
    rcases h with h | h
    · exact ih h
    · rw [List.mem_singleton.mp h]
      exact isDigit_digit n

theorem foldl_digits (k n : Nat) :
    (digits k n).foldl (fun n c => 10 * n + (c.toNat - 48)) 0 = n % 10 ^ k := by
  induction k generalizing n with
  | zero => simp [digits, Nat.mod_one]
  | succ k ih =>
    rw [digits, List.foldl_append, ih]
    simp only [List.foldl_cons, List.foldl_nil, toNat_digit]
    rw [Nat.pow_succ', Nat.mod_mul]
    omega

theorem readDigits_digits {k n : Nat} (h : n < 10 ^ k) (rest : List Char) :
    readDigits k (digits k n ++ rest) = some (n, rest) := by
  have htake : (digits k n ++ rest).take k = digits k n := List.take_left' (length_digits k n)
  have hdrop : (digits k n ++ rest).drop k = rest := List.drop_left' (length_digits k n)
  have hall : (digits k n).all isDigit = true := List.all_eq_true.mpr fun c hc => isDigit_of_mem_digits hc
  rw [readDigits, htake, hdrop, if_pos ⟨length_digits k n, hall⟩, foldl_digits, Nat.mod_eq_of_lt h]

theorem readDigits_digits_nil {k n : Nat} (h : n < 10 ^ k) : readDigits k (digits k n) = some (n, []) := by
  have hread := readDigits_digits h []
  rwa [List.append_nil] at hread

theorem parseFraction_digits {n : Nat} (h : n < 10 ^ 6) : parseFraction (digits 6 n) = some n := by
  have hall : (digits 6 n).all isDigit = true := List.all_eq_true.mpr fun c hc => isDigit_of_mem_digits hc
  have hne : digits 6 n ≠ [] := by
    intro hnil
    have hlen := length_digits 6 n
    rw [hnil] at hlen
    cases hlen
  rw [parseFraction, hall, length_digits, Nat.min_self, readDigits_digits_nil h]
  simp [hne]

theorem parseClock_short {h m : Nat} (hh : h < 100) (hm : m < 100) :
    parseClock (digits 2 h ++ ':' :: digits 2 m) = some (h, m, 0, 0) := by
  simp only [parseClock, readDigits_digits (k := 2) hh, Option.bind_eq_bind, Option.bind_some, if_true,
    readDigits_digits_nil (k := 2) hm]

theorem parseClock_timeText {n : Nat} (h : n < 100 * 3600000000) :
    parseClock (timeText n) =
      some (n / 3600000000, n / 60000000 % 60, n / 1000000 % 60, n % 1000000) := by
  have hh : n / 3600000000 < 10 ^ 2 := by omega
  have hm : n / 60000000 % 60 < 10 ^ 2 := by omega
  have hs : n / 1000000 % 60 < 10 ^ 2 := by omega
  have hus : n % 1000000 < 10 ^ 6 := by omega
  unfold timeText parseClock
  rw [readDigits_digits hh]
  simp only [Option.bind_eq_bind, Option.bind_some, if_true]
  rw [readDigits_digits hm]
  simp only [Option.bind_some, ne_eq, not_true_eq_false, and_false, if_false]
  rw [readDigits_digits hs]
  by_cases hzero : n % 1000000 = 0
  · simp [hzero]
  · simp [hzero, parseFraction_digits hus]

theorem clockMicros_timeText (n : Nat) :
    clockMicros (n / 3600000000, n / 60000000 % 60, n / 1000000 % 60, n % 1000000) = n := by
  unfold clockMicros
  dsimp only
  omega

/-- What a text of a time is made of. -/
theorem mem_timeText {n : Nat} {c : Char} (h : c ∈ timeText n) : isDigit c = true ∨ c = ':' ∨ c = '.' := by
  simp only [timeText, List.mem_append, List.mem_cons] at h
  rcases h with h | rfl | h | rfl | h | h
  · exact Or.inl (isDigit_of_mem_digits h)
  · exact Or.inr (Or.inl rfl)
  · exact Or.inl (isDigit_of_mem_digits h)
  · exact Or.inr (Or.inl rfl)
  · exact Or.inl (isDigit_of_mem_digits h)
  · split at h
    · cases h
    · rcases List.mem_cons.mp h with rfl | h
      · exact Or.inr (Or.inr rfl)
      · exact Or.inl (isDigit_of_mem_digits h)

theorem notMem_timeText {n : Nat} {c : Char} (hd : isDigit c = false) (hc : c ≠ ':') (hp : c ≠ '.') :
    c ∉ timeText n := by
  intro h
  rcases mem_timeText h with h | h | h
  · rw [hd] at h
    cases h
  · exact hc h
  · exact hp h

theorem splitAt_eq_none {c : Char} {cs : List Char} (h : c ∉ cs) : splitAt c cs = none := by
  unfold splitAt
  rw [List.findIdx?_eq_none_iff.mpr]
  · rfl
  · intro d hd
    exact decide_eq_false fun he => h (he ▸ hd)

theorem splitAt_append {c : Char} {a : List Char} (h : c ∉ a) (b : List Char) :
    splitAt c (a ++ c :: b) = some (a, b) := by
  have hno : a.findIdx? (· = c) = none := by
    rw [List.findIdx?_eq_none_iff]
    intro d hd
    exact decide_eq_false fun he => h (he ▸ hd)
  unfold splitAt
  rw [List.findIdx?_append, hno, List.findIdx?_cons]
  simp

/-- The offset without its sign. -/
def unsignedText (n : Nat) : List Char :=
  if n % 60000000 = 0 then digits 2 (n / 3600000000) ++ ':' :: digits 2 (n / 60000000 % 60) else timeText n

theorem length_unsignedText (n : Nat) : 5 ≤ (unsignedText n).length := by
  unfold unsignedText
  split
  · simp
  · simp [timeText]
    omega

theorem notMem_unsignedText {n : Nat} {c : Char} (hd : isDigit c = false) (hc : c ≠ ':') (hp : c ≠ '.') :
    c ∉ unsignedText n := by
  unfold unsignedText
  split
  · intro h
    rcases List.mem_append.mp h with h | h
    · rw [isDigit_of_mem_digits h] at hd
      cases hd
    · rcases List.mem_cons.mp h with h | h
      · exact hc h
      · rw [isDigit_of_mem_digits h] at hd
        cases hd
  · exact notMem_timeText hd hc hp

theorem parseClock_unsignedText {n : Nat} (h : n < dayMicros) :
    (parseClock (unsignedText n)).map clockMicros = some n := by
  have h' : n < 86400000000 := h
  unfold unsignedText
  split
  · next hzero =>
    have hh : n / 3600000000 < 100 := by omega
    have hm : n / 60000000 % 60 < 100 := by omega
    have hmicros : clockMicros (n / 3600000000, n / 60000000 % 60, 0, 0) = n := by
      unfold clockMicros
      dsimp only
      omega
    rw [parseClock_short hh hm, Option.map_some, hmicros]
  · rw [parseClock_timeText (by omega), Option.map_some, clockMicros_timeText]

/-- An offset is read back after its sign. -/
theorem parseZone_unsignedText {o : Int} (h : o.natAbs < dayMicros) {c : Char}
    (hc : c = if o < 0 then '-' else '+') : parseZone c (unsignedText o.natAbs) = some o := by
  have hlen := length_unsignedText o.natAbs
  have hread := parseClock_unsignedText h
  have hz : c ≠ 'Z' := by
    rw [hc]
    split <;> decide
  cases hclock : parseClock (unsignedText o.natAbs) with
  | none =>
    rw [hclock] at hread
    cases hread
  | some clock =>
    rw [hclock] at hread
    have hmicros := Option.some.inj hread
    have hshort : ¬ ((unsignedText o.natAbs).length = 0 ∨ (unsignedText o.natAbs).length = 1 ∨
        (unsignedText o.natAbs).length = 3) := by omega
    unfold parseZone
    rw [if_neg (fun hzz => hz hzz.1), if_neg hshort, hclock, Option.map_some, hmicros]
    congr 1
    by_cases hneg : o < 0
    · rw [hc, if_pos hneg, if_pos rfl]
      omega
    · rw [hc, if_neg hneg, if_neg (by decide)]
      omega

/-- **A time is read back**, with its offset. -/
theorem parseTime_timeText {n : Nat} (h : n < dayMicros) (offset : Option Int)
    (ho : ∀ o ∈ offset, o.natAbs < dayMicros) :
    parseTime (timeText n ++ (offset.map offsetText).getD []) = some (n, offset) := by
  have h' : n < 86400000000 := h
  have hread := parseClock_timeText (n := n) (by omega)
  have hlen : ¬ (timeText n ++ (offset.map offsetText).getD []).length < 2 := by
    unfold timeText
    simp only [List.length_append, List.length_cons, length_digits]
    omega
  have hvalid : n / 3600000000 < 24 ∧ n / 60000000 % 60 < 60 ∧ n / 1000000 % 60 < 60 := by omega
  have hdash : '-' ∉ timeText n := notMem_timeText rfl (by decide) (by decide)
  have hplus : '+' ∉ timeText n := notMem_timeText rfl (by decide) (by decide)
  have hz : 'Z' ∉ timeText n := notMem_timeText rfl (by decide) (by decide)
  unfold parseTime
  rw [if_neg hlen]
  cases offset with
  | none =>
    simp only [Option.map_none, Option.getD_none, List.append_nil, splitAt_eq_none hdash,
      splitAt_eq_none hplus, splitAt_eq_none hz, Option.bind_eq_bind, Option.bind_some, hread]
    rw [if_pos hvalid, clockMicros_timeText]
  | some o =>
    have hzone := parseZone_unsignedText (ho o rfl) rfl
    by_cases hneg : o < 0
    · have htext : offsetText o = '-' :: unsignedText o.natAbs := by simp [offsetText, unsignedText, hneg]
      rw [if_pos hneg] at hzone
      simp only [Option.map_some, Option.getD_some, htext, splitAt_append hdash, hzone,
        Option.bind_eq_bind, Option.bind_some, hread]
      rw [if_pos hvalid, clockMicros_timeText]
    · have htext : offsetText o = '+' :: unsignedText o.natAbs := by simp [offsetText, unsignedText, hneg]
      have hno : '-' ∉ timeText n ++ '+' :: unsignedText o.natAbs := by
        rw [List.mem_append, List.mem_cons]
        rintro (hin | hin | hin)
        · exact hdash hin
        · cases hin
        · exact notMem_unsignedText rfl (by decide) (by decide) hin
      rw [if_neg hneg] at hzone
      simp only [Option.map_some, Option.getD_some, htext, splitAt_eq_none hno, splitAt_append hplus, hzone,
        Option.bind_eq_bind, Option.bind_some, hread]
      rw [if_pos hvalid, clockMicros_timeText]

theorem digits_two (n : Nat) : digits 2 n = [digit (n / 10), digit n] := rfl

theorem digits_four (n : Nat) :
    digits 4 n = [digit (n / 10 / 10 / 10), digit (n / 10 / 10), digit (n / 10), digit n] := rfl

@[simp] theorem length_dateText (d : Calendar.Date) : (dateText d).length = 10 := by
  simp [dateText]

theorem separatorLocation_dateText (d : Calendar.Date) (rest : List Char) :
    separatorLocation (dateText d ++ 'T' :: rest) = some 10 := by
  have hlen : (dateText d ++ 'T' :: rest).length ≠ 7 := by
    rw [List.length_append, length_dateText]
    omega
  have hdash : (dateText d ++ 'T' :: rest)[4]? = some '-' := by
    rw [dateText, digits_four]
    rfl
  have hmonth : (dateText d ++ 'T' :: rest)[5]? = some (digit (d.month / 10)) := by
    rw [dateText, digits_four, digits_two]
    rfl
  have hweek : digit (d.month / 10) ≠ 'W' := by
    intro h
    have hd := isDigit_digit (d.month / 10)
    rw [h] at hd
    cases hd
  unfold separatorLocation
  rw [if_neg hlen, if_pos hdash, hmonth, if_neg (fun h => hweek (Option.some.inj h))]

theorem parseMonthDay_digits {d : Calendar.Date} (hd : d.Valid) :
    parseMonthDay true d.year (digits 2 d.month ++ '-' :: digits 2 d.day) = some d.toOrdinal := by
  obtain ⟨-, -, hmonth, -, hday⟩ := id hd
  have hlast := Calendar.daysInMonth_le (Calendar.isLeap d.year) d.month
  have hreadMonth := readDigits_digits (k := 2) (n := d.month) (by omega) ('-' :: digits 2 d.day)
  have hreadDay := readDigits_digits_nil (k := 2) (n := d.day) (by omega)
  unfold parseMonthDay
  rw [hreadMonth]
  simp only [Option.bind_eq_bind, Option.bind_some, List.head?_cons, decide_true, if_true, List.tail_cons,
    hreadDay]
  rw [if_pos ⟨trivial, hd⟩]

theorem parseDate_dateText {d : Calendar.Date} (hd : d.Valid) (hy : d.year ≤ 9999) :
    parseDate (dateText d) = some d.toOrdinal := by
  have hread := readDigits_digits (k := 4) (n := d.year) (by omega)
    ('-' :: (digits 2 d.month ++ '-' :: digits 2 d.day))
  have hweek : (digits 2 d.month ++ '-' :: digits 2 d.day).head? ≠ some 'W' := by
    intro h
    have hdigit := isDigit_digit (d.month / 10)
    rw [show digit (d.month / 10) = 'W' from Option.some.inj h] at hdigit
    cases hdigit
  unfold parseDate dateText
  rw [hread]
  simp only [Option.bind_eq_bind, Option.bind_some, List.head?_cons, decide_true, if_true, List.tail_cons]
  rw [if_neg hweek, parseMonthDay_digits hd]

/-- **`fromisoformat` undoes `isoformat`.** -/
theorem fromisoformat_isoformat (t : DateTime) : fromisoformat (isoformat t) = some t := by
  have hwall := t.wall_lt
  unfold Calendar.maxOrdinal dayMicros at hwall
  have hday : t.wall / dayMicros + 1 ≤ Calendar.maxOrdinal := by
    unfold Calendar.maxOrdinal dayMicros
    omega
  have hdate := Calendar.valid_ofOrdinal (Nat.le_add_left 1 (t.wall / dayMicros))
  have hord := Calendar.toOrdinal_ofOrdinal (Nat.le_add_left 1 (t.wall / dayMicros))
  have hyear := Calendar.year_ofOrdinal_le hday
  have hloc := separatorLocation_dateText (Calendar.ofOrdinal (t.wall / dayMicros + 1))
    (timeText (t.wall % dayMicros) ++ (t.offset.map offsetText).getD [])
  have htime := parseTime_timeText (Nat.mod_lt t.wall (show 0 < dayMicros by decide)) t.offset t.offset_lt
  unfold isoformat
  generalize hd : Calendar.ofOrdinal (t.wall / dayMicros + 1) = d at hdate hord hyear hloc
  generalize hz : timeText (t.wall % dayMicros) ++ (t.offset.map offsetText).getD [] = z at hloc htime
  have hlen : ¬ (dateText d ++ 'T' :: z).length < 7 := by
    rw [List.length_append, length_dateText]
    omega
  have hlong : ¬ (dateText d ++ 'T' :: z).length ≤ 10 := by
    rw [List.length_append, length_dateText, List.length_cons]
    omega
  have htake : (dateText d ++ 'T' :: z).take 10 = dateText d := List.take_left' (length_dateText d)
  have hdrop : (dateText d ++ 'T' :: z).drop (10 + 1) = z := by
    rw [← List.drop_drop, List.drop_left' (length_dateText d)]
    rfl
  have hmk : ((d.toOrdinal - 1 : Int) * dayMicros + (t.wall % dayMicros : Nat)) = t.wall := by
    rw [hord]
    unfold dayMicros
    omega
  unfold fromisoformat
  rw [if_neg hlen]
  simp only [Option.bind_eq_bind, hloc, Option.bind_some, htake, parseDate_dateText hdate hyear, hdrop, hlong,
    if_false, htime]
  rw [hmk]
  exact mk?_self t

end DateTime

end Logic
