import Mathlib.Data.List.Basic

/-! # URL-safe Base64

`encode` is `base64.urlsafe_b64encode(data).decode("ascii").rstrip("=")`, and `decode` is
`base64.urlsafe_b64decode` of a text that is padded to a multiple of four characters first.  Like
`binascii.a2b_base64` it skips characters that are not in the alphabet.

`decode_encode`: what was encoded is decoded again. -/

namespace Logic.Base64

def alphabet : List Char :=
  "ABCDEFGHIJKLMNOPQRSTUVWXYZabcdefghijklmnopqrstuvwxyz0123456789-_".toList

def char (v : Nat) : Char := alphabet.getD v '='

/-- The value of a character; `+` and `/` are read as `-` and `_`. -/
def value (c : Char) : Option Nat :=
  let c := if c = '+' then '-' else if c = '/' then '_' else c
  let v := alphabet.idxOf c
  if v < 64 then some v else none

/-- The characters of three bytes, and of what is left at the end. -/
def encode : List UInt8 → List Char
  | [] => []
  | [a] => [char (a.toNat / 4), char (a.toNat % 4 * 16)]
  | [a, b] =>
    [char (a.toNat / 4), char (a.toNat % 4 * 16 + b.toNat / 16), char (b.toNat % 16 * 4)]
  | a :: b :: c :: rest =>
    char (a.toNat / 4) :: char (a.toNat % 4 * 16 + b.toNat / 16) ::
      char (b.toNat % 16 * 4 + c.toNat / 64) :: char (c.toNat % 64) :: encode rest

/-- `binascii.a2b_base64`.  `left` are the bits left over of the last character, `pos` its place in
a group of four, and `pads` counts padding characters. -/
def a2b (pos left pads : Nat) : List Char → Option (List UInt8)
  | [] => if pos = 0 then some [] else none
  | c :: rest =>
    if c = '=' then
      if 2 ≤ pos ∧ 4 ≤ pos + (pads + 1) then some []
      else a2b pos left (if 2 ≤ pos then pads + 1 else pads) rest
    else
      match value c with
      | none => a2b pos left pads rest
      | some v =>
        match pos with
        | 0 => a2b 1 v 0 rest
        | 1 => (a2b 2 (v % 16) 0 rest).map (UInt8.ofNat (left * 4 + v / 16) :: ·)
        | 2 => (a2b 3 (v % 4) 0 rest).map (UInt8.ofNat (left * 16 + v / 4) :: ·)
        | _ => (a2b 0 0 0 rest).map (UInt8.ofNat (left * 64 + v) :: ·)

/-- `value + "=" * (-len(value) % 4)`, which has to be ASCII, decoded. -/
def decode (text : List Char) : Option (List UInt8) :=
  if text.all fun c => c.toNat < 128 then
    a2b 0 0 0 (text ++ List.replicate ((4 - text.length % 4) % 4) '=')
  else none

/-! ## The round trip -/

theorem value_char : ∀ v, v < 64 → value (char v) = some v ∧ char v ≠ '=' ∧ (char v).toNat < 128 := by
  decide +kernel

section

variable {v : Nat} (hv : v < 64) (left pads : Nat) (rest : List Char)

include hv

theorem a2b_zero : a2b 0 left pads (char v :: rest) = a2b 1 v 0 rest := by
  obtain ⟨hval, hpad, _⟩ := value_char v hv
  simp only [a2b, if_neg hpad, hval]

theorem a2b_one :
    a2b 1 left pads (char v :: rest) = (a2b 2 (v % 16) 0 rest).map (UInt8.ofNat (left * 4 + v / 16) :: ·) := by
  obtain ⟨hval, hpad, _⟩ := value_char v hv
  simp only [a2b, if_neg hpad, hval]

theorem a2b_two :
    a2b 2 left pads (char v :: rest) = (a2b 3 (v % 4) 0 rest).map (UInt8.ofNat (left * 16 + v / 4) :: ·) := by
  obtain ⟨hval, hpad, _⟩ := value_char v hv
  simp only [a2b, if_neg hpad, hval]

theorem a2b_three :
    a2b 3 left pads (char v :: rest) = (a2b 0 0 0 rest).map (UInt8.ofNat (left * 64 + v) :: ·) := by
  obtain ⟨hval, hpad, _⟩ := value_char v hv
  simp only [a2b, if_neg hpad, hval]

end

theorem byte_eq {b : UInt8} {n : Nat} (h : n = b.toNat) : UInt8.ofNat n = b := by
  rw [h, UInt8.ofNat_toNat]

/-- Decoding takes the padding that `decode` adds. -/
theorem a2b_encode (bs : List UInt8) :
    a2b 0 0 0 (encode bs ++ List.replicate ((4 - (encode bs).length % 4) % 4) '=') = some bs := by
  fun_induction encode bs with
  | case1 => rfl
  | case2 a =>
    have ha := a.toNat_lt
    simp only [List.cons_append, List.nil_append, List.length_cons, List.length_nil]
    rw [a2b_zero (by omega), a2b_one (by omega),
      byte_eq (show a.toNat / 4 * 4 + a.toNat % 4 * 16 / 16 = a.toNat by omega)]
    rfl
  | case3 a b =>
    have ha := a.toNat_lt
    have hb := b.toNat_lt
    simp only [List.cons_append, List.nil_append, List.length_cons, List.length_nil]
    rw [a2b_zero (by omega), a2b_one (by omega), a2b_two (by omega),
      byte_eq (show a.toNat / 4 * 4 + (a.toNat % 4 * 16 + b.toNat / 16) / 16 = a.toNat by omega),
      byte_eq (show (a.toNat % 4 * 16 + b.toNat / 16) % 16 * 16 + b.toNat % 16 * 4 / 4 = b.toNat by omega)]
    rfl
  | case4 a b c rest ih =>
    have ha := a.toNat_lt
    have hb := b.toNat_lt
    have hc := c.toNat_lt
    have hlen : ((encode rest).length + 1 + 1 + 1 + 1) % 4 = (encode rest).length % 4 := by omega
    simp only [List.cons_append, List.length_cons, hlen]
    rw [a2b_zero (by omega), a2b_one (by omega), a2b_two (by omega), a2b_three (by omega), ih,
      byte_eq (show a.toNat / 4 * 4 + (a.toNat % 4 * 16 + b.toNat / 16) / 16 = a.toNat by omega),
      byte_eq (show (a.toNat % 4 * 16 + b.toNat / 16) % 16 * 16 +
        (b.toNat % 16 * 4 + c.toNat / 64) / 4 = b.toNat by omega),
      byte_eq (show (b.toNat % 16 * 4 + c.toNat / 64) % 4 * 64 + c.toNat % 64 = c.toNat by omega)]
    rfl

theorem mem_encode {bs : List UInt8} {x : Char} (h : x ∈ encode bs) : ∃ v, v < 64 ∧ x = char v := by
  fun_induction encode bs with
  | case1 => cases h
  | case2 a =>
    have ha := a.toNat_lt
    simp only [List.mem_cons, List.not_mem_nil, or_false] at h
    rcases h with h | h <;> exact ⟨_, by omega, h⟩
  | case3 a b =>
    have ha := a.toNat_lt
    have hb := b.toNat_lt
    simp only [List.mem_cons, List.not_mem_nil, or_false] at h
    rcases h with h | h | h <;> exact ⟨_, by omega, h⟩
  | case4 a b c rest ih =>
    have ha := a.toNat_lt
    have hb := b.toNat_lt
    have hc := c.toNat_lt
    simp only [List.mem_cons] at h
    rcases h with h | h | h | h | h
    · exact ⟨_, by omega, h⟩
    · exact ⟨_, by omega, h⟩
    · exact ⟨_, by omega, h⟩
    · exact ⟨_, by omega, h⟩
    · exact ih h

/-- **What was encoded is decoded again.** -/
theorem decode_encode (bs : List UInt8) : decode (encode bs) = some bs := by
  have hascii : ((encode bs).all fun c => c.toNat < 128) = true := by
    refine List.all_eq_true.mpr fun c hc => ?_
    obtain ⟨v, hv, rfl⟩ := mem_encode hc
    exact decide_eq_true (value_char v hv).2.2
  rw [decode, if_pos hascii, a2b_encode]

end Logic.Base64
