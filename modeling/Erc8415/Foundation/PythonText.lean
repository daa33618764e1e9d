import Mathlib.Algebra.Group.Nat.Defs
import Mathlib.Data.List.TakeWhile
import Erc8415.Foundation.BigIntText

/-! # Integers as Python reads them

`int(text)`: white space around the number is dropped, a sign may precede the
digits, a single underscore may stand between two of them, and they may be the
decimal digits of any script. Text of more than 4300 digits is refused.
-/

namespace PythonText

def isSpace (c : Char) : Bool :=
  [0x09, 0x0A, 0x0B, 0x0C, 0x0D, 0x20, 0x85, 0xA0, 0x1680, 0x2028, 0x2029, 0x202F, 0x205F,
    0x3000].contains c.toNat || (0x2000 ≤ c.toNat && c.toNat ≤ 0x200A)

/-- Where the ten decimal digits of each script start. -/
def zeros : List Nat :=
  [0x30, 0x660, 0x6f0, 0x7c0, 0x966, 0x9e6, 0xa66, 0xae6, 0xb66, 0xbe6, 0xc66, 0xce6, 0xd66, 0xde6,
    0xe50, 0xed0, 0xf20, 0x1040, 0x1090, 0x17e0, 0x1810, 0x1946, 0x19d0, 0x1a80, 0x1a90, 0x1b50,
    0x1bb0, 0x1c40, 0x1c50, 0xa620, 0xa8d0, 0xa900, 0xa9d0, 0xa9f0, 0xaa50, 0xabf0, 0xff10, 0x104a0,
    0x10d30, 0x11066, 0x110f0, 0x11136, 0x111d0, 0x112f0, 0x11450, 0x114d0, 0x11650, 0x116c0,
    0x11730, 0x118e0, 0x11950, 0x11c50, 0x11d50, 0x11da0, 0x16a60, 0x16ac0, 0x16b50, 0x1d7ce,
    0x1d7d8, 0x1d7e2, 0x1d7ec, 0x1d7f6, 0x1e140, 0x1e2f0, 0x1e950, 0x1fbf0]

def digitValue (c : Char) : Option Nat :=
  (zeros.find? fun start => start ≤ c.toNat && c.toNat < start + 10).map
    fun start => c.toNat - start

/-- The digits that follow a digit, and the number they continue. -/
def readDigits : List Char → Nat → Option Nat
  | [], n => some n
  | '_' :: c :: rest, n => (digitValue c).bind fun v => readDigits rest (10 * n + v)
  | c :: rest, n => (digitValue c).bind fun v => readDigits rest (10 * n + v)

/-- `sys.int_info.default_max_str_digits`. -/
def maxDigits : Nat := 4300

def readUnsigned : List Char → Option Nat
  | [] => none
  | c :: rest =>
      if ((c :: rest).filter fun d => d ≠ '_').length ≤ maxDigits then
        (digitValue c).bind fun v => readDigits rest v
      else none

def strip (text : List Char) : List Char :=
  ((text.dropWhile isSpace).reverse.dropWhile isSpace).reverse

/-- `int(text)`; `none` where it raises a `ValueError`. -/
def int (text : String) : Option Int :=
  match strip text.toList with
  | '+' :: digits => (readUnsigned digits).map Int.ofNat
  | '-' :: digits => (readUnsigned digits).map fun n => -Int.ofNat n
  | digits => (readUnsigned digits).map Int.ofNat

/-! ## Decimal text reads back -/

theorem digitValue_of_isDigit {c : Char} (h : c.isDigit) :
    digitValue c = some (c.toNat - '0'.toNat) := by
  have hrange := BigIntText.isDigit_bounds h
  have hlow : 48 ≤ c.toNat := hrange.1
  have hhigh : c.toNat ≤ 57 := hrange.2
  have hfirst : zeros.find? (fun start => start ≤ c.toNat && c.toNat < start + 10) = some 0x30 := by
    apply List.find?_cons_of_pos
    simp only [Bool.and_eq_true, decide_eq_true_eq]
    omega
  rw [digitValue, hfirst]
  rfl

theorem readDigits_of_isDigit {digits : List Char} (h : ∀ c ∈ digits, c.isDigit) (n : Nat) :
    readDigits digits n = some (Nat.ofDigitChars 10 digits n) := by
  induction digits generalizing n with
  | nil => rfl
  | cons c rest ih =>
      have hc := h c List.mem_cons_self
      have hrest : ∀ d ∈ rest, d.isDigit := fun d hd => h d (List.mem_cons_of_mem _ hd)
      have hne : c ≠ '_' := by
        rintro rfl
        cases hc
      have hread : readDigits (c :: rest) n =
          (digitValue c).bind fun v => readDigits rest (10 * n + v) := by
        cases rest with
        | nil => simp [readDigits]
        | cons d rest => simp [readDigits, hne]
      rw [hread, digitValue_of_isDigit hc, Option.bind_some, ih hrest, Nat.ofDigitChars_cons]

theorem isSpace_of_isDigit {c : Char} (h : c.isDigit) : isSpace c = false := by
  have hrange := BigIntText.isDigit_bounds h
  have hlow : 48 ≤ c.toNat := hrange.1
  have hhigh : c.toNat ≤ 57 := hrange.2
  simp only [isSpace, List.contains_eq_mem, List.mem_cons, List.not_mem_nil, or_false,
    Bool.or_eq_false_iff, decide_eq_false_iff_not, Bool.and_eq_false_imp, decide_eq_true_eq]
  omega

theorem strip_of_forall {text : List Char} (h : ∀ c ∈ text, isSpace c = false) :
    strip text = text := BigIntText.dropEnds_of_forall h

/-- The decimal text of a number of at most 4300 digits reads back as that number. -/
theorem int_toString {n : Nat} (h : n < 10 ^ maxDigits) : int (toString (n : Int)) = some n := by
  have hdigits : ∀ c ∈ Nat.toDigits 10 n, c.isDigit := fun c hc =>
    BigIntText.isDigit_of_mem_decimal hc
  have hlength : (Nat.toDigits 10 n).length ≤ maxDigits :=
    (Nat.length_toDigits_le_iff (by decide) (by decide)).mpr h
  rw [int, BigIntText.toList_toString_natCast,
    strip_of_forall fun c hc => isSpace_of_isDigit (hdigits c hc)]
  have hvalue := Nat.ofDigitChars_ten_toDigits (n := n)
  cases htext : Nat.toDigits 10 n with
  | nil => exact absurd htext Nat.toDigits_ne_nil
  | cons c rest =>
      rw [htext] at hdigits hlength hvalue
      have hc := hdigits c List.mem_cons_self
      have hcount : ((c :: rest).filter fun d => d ≠ '_').length ≤ maxDigits :=
        Nat.le_trans (List.length_filter_le _ _) hlength
      have hread : readUnsigned (c :: rest) = some n := by
        rw [readUnsigned, if_pos hcount, digitValue_of_isDigit hc, Option.bind_some,
          readDigits_of_isDigit fun d hd => hdigits d (List.mem_cons_of_mem _ hd)]
        rw [Nat.ofDigitChars_cons] at hvalue
        simpa using hvalue
      have hplus : c ≠ '+' := by
        rintro rfl
        cases hc
      have hminus : c ≠ '-' := by
        rintro rfl
        cases hc
      simp [hplus, hminus, hread]

end PythonText
