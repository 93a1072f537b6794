import Mathlib.Data.List.Basic

/-! # SHA-256

The hash of FIPS 180-4 over lists of bytes, with words as naturals below `2 ^ 32`, so
that a digest of a short text can be computed in a proof. -/

namespace Logic.Sha256

def modulus : Nat := 0x100000000

def rotr (x n : Nat) : Nat := (x >>> n) ||| ((x <<< (32 - n)) % modulus)

def roundConstants : List Nat :=
  [0x428a2f98, 0x71374491, 0xb5c0fbcf, 0xe9b5dba5, 0x3956c25b, 0x59f111f1, 0x923f82a4, 0xab1c5ed5,
   0xd807aa98, 0x12835b01, 0x243185be, 0x550c7dc3, 0x72be5d74, 0x80deb1fe, 0x9bdc06a7, 0xc19bf174,
   0xe49b69c1, 0xefbe4786, 0x0fc19dc6, 0x240ca1cc, 0x2de92c6f, 0x4a7484aa, 0x5cb0a9dc, 0x76f988da,
   0x983e5152, 0xa831c66d, 0xb00327c8, 0xbf597fc7, 0xc6e00bf3, 0xd5a79147, 0x06ca6351, 0x14292967,
   0x27b70a85, 0x2e1b2138, 0x4d2c6dfc, 0x53380d13, 0x650a7354, 0x766a0abb, 0x81c2c92e, 0x92722c85,
   0xa2bfe8a1, 0xa81a664b, 0xc24b8b70, 0xc76c51a3, 0xd192e819, 0xd6990624, 0xf40e3585, 0x106aa070,
   0x19a4c116, 0x1e376c08, 0x2748774c, 0x34b0bcb5, 0x391c0cb3, 0x4ed8aa4a, 0x5b9cca4f, 0x682e6ff3,
   0x748f82ee, 0x78a5636f, 0x84c87814, 0x8cc70208, 0x90befffa, 0xa4506ceb, 0xbef9a3f7, 0xc67178f2]

/-- The word after the last sixteen of the message schedule, oldest first. -/
def nextWord : List Nat → Nat
  | [w0, w1, _, _, _, _, _, _, _, w9, _, _, _, _, w14, _] =>
    let s0 := rotr w1 7 ^^^ rotr w1 18 ^^^ (w1 >>> 3)
    let s1 := rotr w14 17 ^^^ rotr w14 19 ^^^ (w14 >>> 10)
    (w0 + s0 + w9 + s1) % modulus
  | _ => 0

structure State where
  (a b c d e f g h : Nat)

def State.words (s : State) : List Nat := [s.a, s.b, s.c, s.d, s.e, s.f, s.g, s.h]

def State.initial : State :=
  ⟨0x6a09e667, 0xbb67ae85, 0x3c6ef372, 0xa54ff53a, 0x510e527f, 0x9b05688c, 0x1f83d9ab, 0x5be0cd19⟩

def round (s : State) (k w : Nat) : State :=
  let s1 := rotr s.e 6 ^^^ rotr s.e 11 ^^^ rotr s.e 25
  let ch := (s.e &&& s.f) ^^^ ((modulus - 1 - s.e) &&& s.g)
  let t1 := s.h + s1 + ch + k + w
  let s0 := rotr s.a 2 ^^^ rotr s.a 13 ^^^ rotr s.a 22
  let maj := (s.a &&& s.b) ^^^ (s.a &&& s.c) ^^^ (s.b &&& s.c)
  ⟨(t1 + s0 + maj) % modulus, s.a, s.b, s.c, (s.d + t1) % modulus, s.e, s.f, s.g⟩

/-- One round for each constant; the second list is the sliding window of the schedule. -/
def rounds : List Nat → List Nat → State → State
  | k :: ks, w :: ws, s => rounds ks (ws ++ [nextWord (w :: ws)]) (round s k w)
  | _, _, s => s

def compress (s : State) (block : List Nat) : State :=
  let t := rounds roundConstants block s
  ⟨(s.a + t.a) % modulus, (s.b + t.b) % modulus, (s.c + t.c) % modulus, (s.d + t.d) % modulus,
   (s.e + t.e) % modulus, (s.f + t.f) % modulus, (s.g + t.g) % modulus, (s.h + t.h) % modulus⟩

/-- The last `k` bytes of `n`, most significant first. -/
def bigEndian : Nat → Nat → List Nat
  | 0, _ => []
  | k + 1, n => bigEndian k (n / 256) ++ [n % 256]

/-- The message, `0x80`, zeros up to 56 mod 64, and the length in bits. -/
def pad (raw : List UInt8) : List Nat :=
  raw.map UInt8.toNat ++
    0x80 :: (List.replicate ((119 - raw.length % 64) % 64) 0 ++ bigEndian 8 (8 * raw.length))

def wordsOf : List Nat → List Nat
  | a :: b :: c :: d :: rest => (((a * 256 + b) * 256 + c) * 256 + d) :: wordsOf rest
  | _ => []

/-- Compresses sixteen words at a time; the first list is the block being filled. -/
def compressAll : List Nat → List Nat → State → State
  | _, [], s => s
  | block, w :: ws, s =>
    if block.length = 15 then compressAll [] ws (compress s (block ++ [w]))
    else compressAll (block ++ [w]) ws s

def hexWord (n : Nat) : List Char :=
  (bigEndian 4 n).flatMap fun b => [Nat.digitChar (b / 16), Nat.digitChar (b % 16)]

def hexdigest (raw : List UInt8) : String :=
  String.ofList ((compressAll [] (wordsOf (pad raw)) .initial).words.flatMap hexWord)

def digest (raw : List UInt8) : List UInt8 :=
  (compressAll [] (wordsOf (pad raw)) .initial).words.flatMap fun w => (bigEndian 4 w).map UInt8.ofNat

example : hexdigest [97, 98, 99] =
    "ba7816bf8f01cfea414140de5dae2223b00361a396177a9cb410ff61f20015ad" := by
  decide +kernel

end Logic.Sha256
