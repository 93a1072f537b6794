import Mathlib.Tactic.Ring
import Mathlib.Tactic.NormNum

/-! # Days and dates

The proleptic Gregorian calendar: day 1 is 1 January of the year 1.  `ofOrdinal` is the date of a
day, `toOrdinal` the day of a date; each undoes the other (`toOrdinal_ofOrdinal`). -/

namespace Logic.Calendar

def isLeap (year : Nat) : Bool := year % 4 = 0 && (year % 100 ≠ 0 || year % 400 = 0)

structure Date where
  year : Nat
  month : Nat
  day : Nat
  deriving DecidableEq, Repr

/-- The days of a year before its month, in a year without a leap day. -/
def daysBefore : Nat → Nat
  | 0 | 1 => 0
  | 2 => 31
  | 3 => 59
  | 4 => 90
  | 5 => 120
  | 6 => 151
  | 7 => 181
  | 8 => 212
  | 9 => 243
  | 10 => 273
  | 11 => 304
  | _ => 334

def daysBeforeMonth (leap : Bool) (month : Nat) : Nat :=
  daysBefore month + if 2 < month && leap then 1 else 0

def daysInMonth (leap : Bool) : Nat → Nat
  | 2 => if leap then 29 else 28
  | 4 | 6 | 9 | 11 => 30
  | _ => 31

theorem daysInMonth_le (leap : Bool) (month : Nat) : daysInMonth leap month ≤ 31 := by
  unfold daysInMonth
  split
  · cases leap <;> decide
  all_goals omega

def daysBeforeYear (year : Nat) : Nat :=
  (year - 1) * 365 + (year - 1) / 4 - (year - 1) / 100 + (year - 1) / 400

def Date.Valid (d : Date) : Prop :=
  1 ≤ d.year ∧ 1 ≤ d.month ∧ d.month ≤ 12 ∧ 1 ≤ d.day ∧ d.day ≤ daysInMonth (isLeap d.year) d.month

instance (d : Date) : Decidable d.Valid := inferInstanceAs (Decidable (_ ∧ _ ∧ _ ∧ _ ∧ _))

def Date.toOrdinal (d : Date) : Nat :=
  daysBeforeYear d.year + daysBeforeMonth (isLeap d.year) d.month + d.day

/-- The month and the day of the month, from the day of the year counted from 0. -/
def ofYearDay (leap : Bool) (n : Nat) : Nat × Nat :=
  let month := (n + 50) / 32
  if n < daysBeforeMonth leap month then (month - 1, n - daysBeforeMonth leap (month - 1) + 1)
  else (month, n - daysBeforeMonth leap month + 1)

/-- The date from the cycles of 400, 100 and 4 years and the years that went by, and the day of the
year. -/
def ofCycles (n400 n100 n4 n1 n : Nat) : Date :=
  let year := n400 * 400 + n100 * 100 + n4 * 4 + n1 + 1
  if n1 = 4 ∨ n100 = 4 then { year := year - 1, month := 12, day := 31 }
  else
    let leap : Bool := n1 = 3 && (n4 ≠ 24 || n100 = 3)
    { year, month := (ofYearDay leap n).1, day := (ofYearDay leap n).2 }

def ofOrdinal (ordinal : Nat) : Date :=
  let n := ordinal - 1
  let n100 := n % 146097
  let n4 := n100 % 36524
  let n1 := n4 % 1461
  ofCycles (n / 146097) (n100 / 36524) (n4 / 1461) (n1 / 365) (n1 % 365)

theorem ofYearDay_spec (leap : Bool) : ∀ n < 365 + (if leap then 1 else 0),
    1 ≤ (ofYearDay leap n).1 ∧ (ofYearDay leap n).1 ≤ 12 ∧ 1 ≤ (ofYearDay leap n).2 ∧
      (ofYearDay leap n).2 ≤ daysInMonth leap (ofYearDay leap n).1 ∧
      daysBeforeMonth leap (ofYearDay leap n).1 + (ofYearDay leap n).2 = n + 1 := by
  cases leap <;> decide +kernel

/-- A year by its place in the cycles of 400, 100 and 4 years. -/
theorem isLeap_cycle {a b c d : Nat} (hb : b < 4) (hc : c < 25) (hd : d < 4) :
    isLeap (a * 400 + b * 100 + c * 4 + d + 1) = (d = 3 && (c ≠ 24 || b = 3)) := by
  have h4 : (a * 400 + b * 100 + c * 4 + d + 1) % 4 = 0 ↔ d = 3 := by omega
  have h100 : (a * 400 + b * 100 + c * 4 + d + 1) % 100 = 0 ↔ c = 24 ∧ d = 3 := by omega
  have h400 : (a * 400 + b * 100 + c * 4 + d + 1) % 400 = 0 ↔ b = 3 ∧ c = 24 ∧ d = 3 := by omega
  rw [Bool.eq_iff_iff]
  simp only [isLeap, Bool.and_eq_true, Bool.or_eq_true, decide_eq_true_eq, ne_eq, h4, h100, h400]
  omega

theorem daysBeforeYear_cycle {a b c d : Nat} (hb : b < 4) (hc : c < 25) (hd : d < 4) :
    daysBeforeYear (a * 400 + b * 100 + c * 4 + d + 1) = a * 146097 + b * 36524 + c * 1461 + d * 365 := by
  unfold daysBeforeYear
  omega

/-- The last day of a leap year. -/
theorem lastDay_spec {a b c : Nat} (hb : b < 4) (hc : c < 25) (h : c ≠ 24 ∨ b = 3) :
    let d : Date := { year := a * 400 + b * 100 + c * 4 + 4, month := 12, day := 31 }
    d.Valid ∧ d.toOrdinal = a * 146097 + b * 36524 + c * 1461 + 1461 := by
  have hleap := isLeap_cycle (a := a) hb hc (show 3 < 4 by omega)
  have hdays := daysBeforeYear_cycle (a := a) hb hc (show 3 < 4 by omega)
  rw [show a * 400 + b * 100 + c * 4 + 3 + 1 = a * 400 + b * 100 + c * 4 + 4 by omega] at hleap hdays
  have htrue : isLeap (a * 400 + b * 100 + c * 4 + 4) = true := by
    rw [hleap]
    simpa using h
  refine ⟨⟨?_, ?_, ?_, ?_, ?_⟩, ?_⟩
  · show 1 ≤ a * 400 + b * 100 + c * 4 + 4
    omega
  · show 1 ≤ 12
    omega
  · show 12 ≤ 12
    omega
  · show 1 ≤ 31
    omega
  · show 31 ≤ 31
    omega
  · have hdec : daysBeforeMonth true 12 = 335 := by decide
    show daysBeforeYear (a * 400 + b * 100 + c * 4 + 4) +
      daysBeforeMonth (isLeap (a * 400 + b * 100 + c * 4 + 4)) 12 + 31 = _
    rw [htrue, hdays, hdec]

/-- Any other day. -/
theorem inYear_spec {a b c d n : Nat} (hb : b < 4) (hc : c < 25) (hd : d < 4) (hn : n < 365) :
    let leap : Bool := d = 3 && (c ≠ 24 || b = 3)
    let t : Date :=
      { year := a * 400 + b * 100 + c * 4 + d + 1
        month := (ofYearDay leap n).1
        day := (ofYearDay leap n).2 }
    t.Valid ∧ t.toOrdinal = a * 146097 + b * 36524 + c * 1461 + d * 365 + n + 1 := by
  intro leap t
  have hleap : isLeap t.year = leap := isLeap_cycle hb hc hd
  have hdays : daysBeforeYear t.year = _ := daysBeforeYear_cycle hb hc hd
  obtain ⟨h1, h12, hday, hlast, hsum⟩ := ofYearDay_spec leap n (by omega)
  refine ⟨⟨?_, h1, h12, hday, ?_⟩, ?_⟩
  · show 1 ≤ a * 400 + b * 100 + c * 4 + d + 1
    omega
  · rw [hleap]
    exact hlast
  · unfold Date.toOrdinal
    rw [hleap, hdays]
    show _ + daysBeforeMonth leap (ofYearDay leap n).1 + (ofYearDay leap n).2 = _
    omega

/-- **Every day has a date.** -/
theorem ofOrdinal_spec {ordinal : Nat} (h : 1 ≤ ordinal) :
    (ofOrdinal ordinal).Valid ∧ (ofOrdinal ordinal).toOrdinal = ordinal := by
  show (ofCycles ((ordinal - 1) / 146097) ((ordinal - 1) % 146097 / 36524)
      ((ordinal - 1) % 146097 % 36524 / 1461) ((ordinal - 1) % 146097 % 36524 % 1461 / 365)
      ((ordinal - 1) % 146097 % 36524 % 1461 % 365)).Valid ∧ (ofCycles _ _ _ _ _).toOrdinal = ordinal
  generalize ha : (ordinal - 1) / 146097 = a
  generalize hr : (ordinal - 1) % 146097 = r
  generalize hb : r / 36524 = b
  generalize hr2 : r % 36524 = r2
  generalize hc : r2 / 1461 = c
  generalize hr3 : r2 % 1461 = r3
  generalize hd : r3 / 365 = d
  unfold ofCycles
  by_cases hlast : d = 4 ∨ b = 4
  · simp only [hlast, if_true]
    by_cases hb4 : b = 4
    · -- the last day of 400 years
      have hzero : c = 0 ∧ d = 0 ∧ r = 146096 := by omega
      have hspec := lastDay_spec (a := a) (b := 3) (c := 24) (by omega) (by omega) (Or.inr rfl)
      have hyear : a * 400 + b * 100 + c * 4 + d + 1 - 1 = a * 400 + 3 * 100 + 24 * 4 + 4 := by omega
      have hord : ordinal = a * 146097 + 3 * 36524 + 24 * 1461 + 1461 := by omega
      rw [hyear, hord]
      exact hspec
    · -- the last day of 4 years
      have hspec := lastDay_spec (a := a) (b := b) (c := c) (by omega) (by omega) (Or.inl (by omega))
      have hyear : a * 400 + b * 100 + c * 4 + d + 1 - 1 = a * 400 + b * 100 + c * 4 + 4 := by omega
      have hord : ordinal = a * 146097 + b * 36524 + c * 1461 + 1461 := by omega
      rw [hyear, hord]
      exact hspec
  · simp only [hlast, if_false]
    have hspec := inYear_spec (a := a) (b := b) (c := c) (d := d) (n := r3 % 365) (by omega) (by omega)
      (by omega) (by omega)
    have hord : ordinal = a * 146097 + b * 36524 + c * 1461 + d * 365 + r3 % 365 + 1 := by omega
    rw [hord]
    exact hspec

theorem valid_ofOrdinal {ordinal : Nat} (h : 1 ≤ ordinal) : (ofOrdinal ordinal).Valid :=
  (ofOrdinal_spec h).1

theorem toOrdinal_ofOrdinal {ordinal : Nat} (h : 1 ≤ ordinal) :
    (ofOrdinal ordinal).toOrdinal = ordinal := (ofOrdinal_spec h).2

/-- The days of the years 1 to 9999. -/
def maxOrdinal : Nat := 3652059

theorem year_ofOrdinal_le {ordinal : Nat} (h : ordinal ≤ maxOrdinal) : (ofOrdinal ordinal).year ≤ 9999 := by
  unfold maxOrdinal at h
  unfold ofOrdinal ofCycles
  dsimp only
  split
  · show _ - 1 ≤ 9999
    omega
  · show _ + 1 ≤ 9999
    omega

end Logic.Calendar
