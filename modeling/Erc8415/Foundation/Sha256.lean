import Mathlib.Algebra.Group.Nat.Defs
import Mathlib.Tactic.Common

/-! # SHA-256

The hash function of FIPS 180-4 on lists of bytes. Only the length of a digest is
proved: a development states which messages it takes to have different digests.
-/

namespace Sha256

/-- The eight working words. -/
structure State where
  a : UInt32
  b : UInt32
  c : UInt32
  d : UInt32
  e : UInt32
  f : UInt32
  g : UInt32
  h : UInt32

def initial : State :=
  ⟨0x6a09e667, 0xbb67ae85, 0x3c6ef372, 0xa54ff53a, 0x510e527f, 0x9b05688c, 0x1f83d9ab, 0x5be0cd19⟩

def roundConstants : List UInt32 := [
  0x428a2f98, 0x71374491, 0xb5c0fbcf, 0xe9b5dba5, 0x3956c25b, 0x59f111f1, 0x923f82a4, 0xab1c5ed5,
  0xd807aa98, 0x12835b01, 0x243185be, 0x550c7dc3, 0x72be5d74, 0x80deb1fe, 0x9bdc06a7, 0xc19bf174,
  0xe49b69c1, 0xefbe4786, 0x0fc19dc6, 0x240ca1cc, 0x2de92c6f, 0x4a7484aa, 0x5cb0a9dc, 0x76f988da,
  0x983e5152, 0xa831c66d, 0xb00327c8, 0xbf597fc7, 0xc6e00bf3, 0xd5a79147, 0x06ca6351, 0x14292967,
  0x27b70a85, 0x2e1b2138, 0x4d2c6dfc, 0x53380d13, 0x650a7354, 0x766a0abb, 0x81c2c92e, 0x92722c85,
  0xa2bfe8a1, 0xa81a664b, 0xc24b8b70, 0xc76c51a3, 0xd192e819, 0xd6990624, 0xf40e3585, 0x106aa070,
  0x19a4c116, 0x1e376c08, 0x2748774c, 0x34b0bcb5, 0x391c0cb3, 0x4ed8aa4a, 0x5b9cca4f, 0x682e6ff3,
  0x748f82ee, 0x78a5636f, 0x84c87814, 0x8cc70208, 0x90befffa, 0xa4506ceb, 0xbef9a3f7, 0xc67178f2]

def rotateRight (x n : UInt32) : UInt32 := (x >>> n) ||| (x <<< (32 - n))

def choose (x y z : UInt32) : UInt32 := (x &&& y) ^^^ (~~~x &&& z)

def majority (x y z : UInt32) : UInt32 := (x &&& y) ^^^ (x &&& z) ^^^ (y &&& z)

def bigSigma0 (x : UInt32) : UInt32 := rotateRight x 2 ^^^ rotateRight x 13 ^^^ rotateRight x 22

def bigSigma1 (x : UInt32) : UInt32 := rotateRight x 6 ^^^ rotateRight x 11 ^^^ rotateRight x 25

def smallSigma0 (x : UInt32) : UInt32 := rotateRight x 7 ^^^ rotateRight x 18 ^^^ (x >>> 3)

def smallSigma1 (x : UInt32) : UInt32 := rotateRight x 17 ^^^ rotateRight x 19 ^^^ (x >>> 10)

/-! ## Padding -/

/-- The low `count` bytes of a number, the highest first. -/
def bigEndian (n : Nat) : Nat → List UInt8
  | 0 => []
  | count + 1 => bigEndian (n / 256) count ++ [UInt8.ofNat n]

/-- The message, a one bit, zeros, and the message's length in bits: a whole
number of sixty-four byte blocks. -/
def pad (message : List UInt8) : List UInt8 :=
  message ++ 0x80 :: List.replicate ((119 - message.length % 64) % 64) 0 ++
    bigEndian (8 * message.length) 8

@[simp] theorem length_bigEndian (n count : Nat) : (bigEndian n count).length = count := by
  induction count generalizing n with
  | zero => rfl
  | succ count ih => simp [bigEndian, ih]

/-- Numbers that fit the count are told apart by their bytes. -/
theorem bigEndian_inj {count m n : Nat} (hm : m < 256 ^ count) (hn : n < 256 ^ count)
    (h : bigEndian m count = bigEndian n count) : m = n := by
  induction count generalizing m n with
  | zero =>
      simp only [Nat.pow_zero, Nat.lt_one_iff] at hm hn
      rw [hm, hn]
  | succ count ih =>
      rw [Nat.pow_succ] at hm hn
      obtain ⟨hinit, hlast⟩ := List.append_inj h (by simp)
      have hhigh : m / 256 = n / 256 := ih (Nat.div_lt_of_lt_mul (by omega))
        (Nat.div_lt_of_lt_mul (by omega)) hinit
      have hlow := congrArg UInt8.toNat (List.head_eq_of_cons_eq hlast)
      rw [UInt8.toNat_ofNat', UInt8.toNat_ofNat'] at hlow
      omega

/-- The big-endian words of a list of bytes. -/
def words : List UInt8 → List UInt32
  | w :: x :: y :: z :: rest =>
      (w.toUInt32 <<< 24 ||| x.toUInt32 <<< 16 ||| y.toUInt32 <<< 8 ||| z.toUInt32) :: words rest
  | _ => []

/-! ## Compression -/

/-- The next `count` words of the message schedule, given the sixteen it is at. -/
def schedule (window : List UInt32) : Nat → List UInt32
  | 0 => []
  | count + 1 =>
      let next := smallSigma1 (window.getD 14 0) + window.getD 9 0 +
        smallSigma0 (window.getD 1 0) + window.getD 0 0
      window.getD 0 0 :: schedule (window.drop 1 ++ [next]) count

def round (s : State) (constant word : UInt32) : State :=
  let first := s.h + bigSigma1 s.e + choose s.e s.f s.g + constant + word
  let second := bigSigma0 s.a + majority s.a s.b s.c
  ⟨first + second, s.a, s.b, s.c, s.d + first, s.e, s.f, s.g⟩

def State.add (s t : State) : State :=
  ⟨s.a + t.a, s.b + t.b, s.c + t.c, s.d + t.d, s.e + t.e, s.f + t.f, s.g + t.g, s.h + t.h⟩

/-- The state after one block. -/
def compress (s : State) (block : List UInt8) : State :=
  let steps := roundConstants.zip (schedule (words block) 64)
  s.add (steps.foldl (fun s step => round s step.1 step.2) s)

/-- The state after `count` blocks. -/
def blocks (s : State) (bytes : List UInt8) : Nat → State
  | 0 => s
  | count + 1 => blocks (compress s (bytes.take 64)) (bytes.drop 64) count

def State.bytes (s : State) : List UInt8 :=
  [s.a, s.b, s.c, s.d, s.e, s.f, s.g, s.h].flatMap fun word => bigEndian word.toNat 4

end Sha256

/-- The digest of a message. -/
def sha256 (message : List UInt8) : List UInt8 :=
  (Sha256.blocks Sha256.initial (Sha256.pad message) ((Sha256.pad message).length / 64)).bytes

@[simp] theorem length_sha256 (message : List UInt8) : (sha256 message).length = 32 := by
  simp [sha256, Sha256.State.bytes]

example : sha256 [0x61, 0x62, 0x63] =
    [0xba, 0x78, 0x16, 0xbf, 0x8f, 0x01, 0xcf, 0xea,
     0x41, 0x41, 0x40, 0xde, 0x5d, 0xae, 0x22, 0x23,
     0xb0, 0x03, 0x61, 0xa3, 0x96, 0x17, 0x7a, 0x9c,
     0xb4, 0x10, 0xff, 0x61, 0xf2, 0x00, 0x15, 0xad] :=
  by decide +kernel
