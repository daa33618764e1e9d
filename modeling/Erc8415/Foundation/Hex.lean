import Mathlib.Algebra.Group.Nat.Defs
import Mathlib.Tactic.Common

/-! # Bytes and numbers as hex text

Writing bytes as lowercase pairs of digits, and reading pairs back up to the
first one that is not hex, which is where a lenient reader stops. A number is
written in a fixed count of digits, and is read off them as long as it fits.
-/

namespace Hex

def digit (n : Nat) : Char := "0123456789abcdef".toList.getD n '0'

/-- The value of a digit, of either case. -/
def digitValue (c : Char) : Option Nat :=
  if '0' ≤ c ∧ c ≤ '9' then some (c.toNat - '0'.toNat)
  else if 'a' ≤ c ∧ c ≤ 'f' then some (c.toNat - 'a'.toNat + 10)
  else if 'A' ≤ c ∧ c ≤ 'F' then some (c.toNat - 'A'.toNat + 10)
  else none

def ofByte (b : UInt8) : List Char := [digit (b.toNat / 16), digit (b.toNat % 16)]

def ofBytes (bytes : List UInt8) : List Char := bytes.flatMap ofByte

def toBytes : List Char → List UInt8
  | high :: low :: rest =>
      match digitValue high, digitValue low with
      | some h, some l => UInt8.ofNat (16 * h + l) :: toBytes rest
      | _, _ => []
  | _ => []

theorem length_ofBytes (bytes : List UInt8) : (ofBytes bytes).length = 2 * bytes.length := by
  induction bytes with
  | nil => rfl
  | cons b rest ih =>
      rw [ofBytes, List.flatMap_cons, List.length_append, ← ofBytes, ih, List.length_cons]
      simp only [ofByte, List.length_cons, List.length_nil]
      omega

theorem digitValue_digit {n : Nat} (h : n < 16) : digitValue (digit n) = some n := by
  have hall : ∀ n : Fin 16, digitValue (digit n) = some n.val := by decide
  exact hall ⟨n, h⟩

theorem toBytes_ofByte (b : UInt8) (rest : List Char) :
    toBytes (ofByte b ++ rest) = b :: toBytes rest := by
  have hlt : b.toNat < 256 := b.toNat_lt
  have hhigh := digitValue_digit (show b.toNat / 16 < 16 by omega)
  have hlow := digitValue_digit (show b.toNat % 16 < 16 by omega)
  have hsum : 16 * (b.toNat / 16) + b.toNat % 16 = b.toNat := Nat.div_add_mod _ _
  simp only [ofByte, List.cons_append, List.nil_append, toBytes, hhigh, hlow, hsum,
    UInt8.ofNat_toNat]

/-- Bytes read back from their text. -/
theorem toBytes_ofBytes (bytes : List UInt8) : toBytes (ofBytes bytes) = bytes := by
  induction bytes with
  | nil => rfl
  | cons b rest ih =>
      rw [ofBytes, List.flatMap_cons, toBytes_ofByte]
      exact congrArg (b :: ·) ih

/-- A lowercase digit is the one of its value. -/
theorem digitValue_of_isLower {c : Char}
    (h : (('0' ≤ c && c ≤ '9') || ('a' ≤ c && c ≤ 'f')) = true) :
    ∃ v < 16, digitValue c = some v ∧ digit v = c := by
  have hall : ∀ n : Fin 128, (('0' ≤ Char.ofNat n && Char.ofNat n ≤ '9') ||
      ('a' ≤ Char.ofNat n && Char.ofNat n ≤ 'f')) = true →
      ∃ v : Fin 16, digitValue (Char.ofNat n) = some v.val ∧ digit v.val = Char.ofNat n := by
    decide
  have hlt : c.toNat < 128 := by
    simp only [Bool.or_eq_true, Bool.and_eq_true, decide_eq_true_eq, Char.le_def,
      UInt32.le_iff_toNat_le, Char.reduceVal, UInt32.reduceToNat] at h
    have hval : c.val.toNat = c.toNat := rfl
    omega
  have hc := hall ⟨c.toNat, hlt⟩
  simp only [Char.ofNat_toNat] at hc
  obtain ⟨v, hv, hdigit⟩ := hc h
  exact ⟨v.val, v.isLt, hv, hdigit⟩

/-- Lowercase text of whole bytes is the text of the bytes it is read as. -/
theorem ofBytes_toBytes {count : Nat} {digits : List Char} (hlength : digits.length = 2 * count)
    (hlower : ∀ c ∈ digits, (('0' ≤ c && c ≤ '9') || ('a' ≤ c && c ≤ 'f')) = true) :
    ofBytes (toBytes digits) = digits ∧ (toBytes digits).length = count := by
  induction count generalizing digits with
  | zero =>
      rw [List.length_eq_zero_iff.mp hlength]
      exact ⟨rfl, rfl⟩
  | succ count ih =>
      obtain _ | ⟨high, _ | ⟨low, rest⟩⟩ := digits
      · cases hlength
      · simp only [List.length_cons, List.length_nil] at hlength
        omega
      · simp only [List.length_cons] at hlength
        simp only [List.forall_mem_cons] at hlower
        obtain ⟨h, hh, hhigh, hhigh'⟩ := digitValue_of_isLower hlower.1
        obtain ⟨l, hl, hlow, hlow'⟩ := digitValue_of_isLower hlower.2.1
        obtain ⟨hrest, hcount⟩ := ih (by omega) hlower.2.2
        have hbyte : (UInt8.ofNat (16 * h + l)).toNat = 16 * h + l := by
          simp only [UInt8.toNat_ofNat']
          omega
        have hdiv : (16 * h + l) / 16 = h := by omega
        have hmod : (16 * h + l) % 16 = l := by omega
        simp only [toBytes, hhigh, hlow, List.length_cons, hcount, and_true]
        rw [ofBytes, List.flatMap_cons, ofByte, hbyte, hdiv, hmod, hhigh', hlow', ← ofBytes, hrest]
        rfl

theorem mem_ofBytes {bytes : List UInt8} {c : Char} (h : c ∈ ofBytes bytes) :
    ∃ d < 16, c = digit d := by
  obtain ⟨b, _, hc⟩ := List.mem_flatMap.mp h
  have hlt : b.toNat < 256 := b.toNat_lt
  simp only [ofByte, List.mem_cons, List.not_mem_nil, or_false] at hc
  rcases hc with rfl | rfl
  · exact ⟨b.toNat / 16, by omega, rfl⟩
  · exact ⟨b.toNat % 16, Nat.mod_lt _ (by decide), rfl⟩

/-! ## Numbers of a fixed width -/

/-- A number in exactly so many digits, the most significant first. -/
def ofNat : Nat → Nat → List Char
  | 0, _ => []
  | width + 1, n => ofNat width (n / 16) ++ [digit (n % 16)]

@[simp] theorem length_ofNat (width n : Nat) : (ofNat width n).length = width := by
  induction width generalizing n with
  | zero => rfl
  | succ width ih => rw [ofNat, List.length_append, ih, List.length_singleton]

theorem digit_isLower {n : Nat} (h : n < 16) :
    (('0' ≤ digit n && digit n ≤ '9') || ('a' ≤ digit n && digit n ≤ 'f')) = true := by
  have hall : ∀ n : Fin 16,
      (('0' ≤ digit n && digit n ≤ '9') || ('a' ≤ digit n && digit n ≤ 'f')) = true := by decide
  exact hall ⟨n, h⟩

theorem mem_ofNat {width n : Nat} {c : Char} (h : c ∈ ofNat width n) : ∃ d < 16, c = digit d := by
  induction width generalizing n with
  | zero => cases h
  | succ width ih =>
      rw [ofNat, List.mem_append, List.mem_singleton] at h
      rcases h with h | rfl
      · exact ih h
      · exact ⟨n % 16, Nat.mod_lt _ (by decide), rfl⟩

theorem digit_inj {m n : Nat} (hm : m < 16) (hn : n < 16) (h : digit m = digit n) : m = n := by
  have hvalue := digitValue_digit hm
  rw [h, digitValue_digit hn] at hvalue
  exact (Option.some.inj hvalue).symm

/-- Numbers that fit their width are told apart by their digits. -/
theorem ofNat_inj {width m n : Nat} (hm : m < 16 ^ width) (hn : n < 16 ^ width)
    (h : ofNat width m = ofNat width n) : m = n := by
  induction width generalizing m n with
  | zero =>
      simp only [Nat.pow_zero, Nat.lt_one_iff] at hm hn
      rw [hm, hn]
  | succ width ih =>
      rw [Nat.pow_succ] at hm hn
      obtain ⟨hinit, hlast⟩ := List.append_inj h (by simp)
      have hhigh : m / 16 = n / 16 := ih (Nat.div_lt_of_lt_mul (by omega))
        (Nat.div_lt_of_lt_mul (by omega)) hinit
      have hlow : m % 16 = n % 16 := digit_inj (Nat.mod_lt _ (by decide))
        (Nat.mod_lt _ (by decide)) (List.head_eq_of_cons_eq hlast)
      omega

end Hex
