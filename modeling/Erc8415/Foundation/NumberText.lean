import Mathlib.Algebra.Order.Floor.Semifield
import Mathlib.Data.Int.Log
import Mathlib.Data.List.TakeWhile
import Mathlib.Data.Rat.Floor
import Erc8415.Foundation.BigIntText

/-! # Doubles as text

Reading a double from text the way ECMAScript's `Number(text)` does. A finite
double is the rational it denotes, so rounding is a function on rationals: the
nearest multiple of the unit in the last place, ties to even. Integers below
`2 ^ 53` are doubles already, and their decimal text reads back exactly.
-/

namespace Binary64

/-- The nearest integer, the even one of two that are equally near. -/
def roundHalfEven (q : Rat) : Int :=
  if q - ⌊q⌋ < 1 / 2 then ⌊q⌋
  else if 1 / 2 < q - ⌊q⌋ then ⌊q⌋ + 1
  else if ⌊q⌋ % 2 = 0 then ⌊q⌋
  else ⌊q⌋ + 1

/-- The exponent of the unit in the last place of the doubles around a positive
rational. -/
def ulpExponent (q : Rat) : Int := max (Int.log 2 q - 52) (-1074)

/-- The double a rational rounds to; `none` where that is an infinity. -/
def round (q : Rat) : Option Rat :=
  let ulp : Rat := 2 ^ ulpExponent |q|
  let magnitude := roundHalfEven (|q| / ulp) * ulp
  if magnitude < 2 ^ (1024 : Int) then some (if q < 0 then -magnitude else magnitude) else none

theorem roundHalfEven_intCast (n : Int) : roundHalfEven n = n := by
  simp [roundHalfEven]

/-- An integer below `2 ^ 53` is a multiple of its unit in the last place. -/
theorem round_natCast {n : Nat} (h : n < 2 ^ 53) : round n = some (n : Rat) := by
  have hlog : Nat.log 2 n ≤ 52 := Nat.le_of_lt_succ (Nat.log_lt_of_lt_pow' (by decide) h)
  have hexponent : ulpExponent |(n : Rat)| = -((52 - Nat.log 2 n : Nat) : Int) := by
    rw [ulpExponent, Nat.abs_cast, Int.log_natCast]
    omega
  have hscaled : (n : Rat) / 2 ^ (-((52 - Nat.log 2 n : Nat) : Int)) =
      ((n * 2 ^ (52 - Nat.log 2 n) : Nat) : Int) := by
    rw [zpow_neg, div_inv_eq_mul, zpow_natCast]
    push_cast
    rfl
  have hmagnitude : (roundHalfEven ((n : Rat) / 2 ^ (-((52 - Nat.log 2 n : Nat) : Int))) : Rat) *
      2 ^ (-((52 - Nat.log 2 n : Nat) : Int)) = n := by
    rw [hscaled, roundHalfEven_intCast, ← hscaled]
    exact div_mul_cancel₀ _ (zpow_ne_zero _ (by norm_num))
  have hfinite : (n : Rat) < 2 ^ (1024 : Int) := by
    calc (n : Rat) < ((2 ^ 53 : Nat) : Rat) := by exact_mod_cast h
      _ = 2 ^ (53 : Int) := by norm_num
      _ ≤ 2 ^ (1024 : Int) := zpow_le_zpow_right₀ (by norm_num) (by norm_num)
  have hsign : ¬ (n : Rat) < 0 := not_lt.mpr (Nat.cast_nonneg n)
  rw [round, hexponent, Nat.abs_cast, hmagnitude]
  simp only [hfinite, if_true, hsign, if_false]

end Binary64

namespace NumberText

open BigIntText

/-- A decimal digit. -/
def isDigit (c : Char) : Bool := '0' ≤ c && c ≤ '9'

/-- The exponent part of a decimal literal; absent, it is zero. -/
def parseExponent : List Char → Option Int
  | [] => some 0
  | c :: rest =>
      if c = 'e' ∨ c = 'E' then
        match rest with
        | '+' :: digits => (parseDigits 10 digits).map Int.ofNat
        | '-' :: digits => (parseDigits 10 digits).map fun n => -Int.ofNat n
        | digits => (parseDigits 10 digits).map Int.ofNat
      else none

/-- Digits, a fraction and an exponent. `none` where the text has another form. -/
def parseUnsigned (text : List Char) : Option Rat :=
  let whole := text.takeWhile isDigit
  match text.dropWhile isDigit with
  | '.' :: rest => do
      let fraction := rest.takeWhile isDigit
      let n ← parseDigits 10 (whole ++ fraction)
      let exponent ← parseExponent (rest.dropWhile isDigit)
      return n * 10 ^ (exponent - fraction.length)
  | rest => do
      let n ← parseDigits 10 whole
      let exponent ← parseExponent rest
      return n * 10 ^ exponent

/-- The value a numeric literal stands for, before it is rounded. -/
def parseLiteral : List Char → Option Rat
  | [] => some 0
  | '+' :: rest => parseUnsigned rest
  | '-' :: rest => (parseUnsigned rest).map fun q => -q
  | '0' :: 'x' :: digits => (parseDigits 16 digits).map fun n => (n : Rat)
  | '0' :: 'X' :: digits => (parseDigits 16 digits).map fun n => (n : Rat)
  | '0' :: 'o' :: digits => (parseDigits 8 digits).map fun n => (n : Rat)
  | '0' :: 'O' :: digits => (parseDigits 8 digits).map fun n => (n : Rat)
  | '0' :: 'b' :: digits => (parseDigits 2 digits).map fun n => (n : Rat)
  | '0' :: 'B' :: digits => (parseDigits 2 digits).map fun n => (n : Rat)
  | rest => parseUnsigned rest

/-- `Number(text)`; `none` where it is `NaN` or an infinity. -/
def parse (text : String) : Option Rat := (parseLiteral (trim text.toList)).bind Binary64.round

theorem isDigit_eq (c : Char) : isDigit c = c.isDigit := by
  rw [isDigit, Char.isDigit]
  rfl

/-- A run of decimal digits is a literal of its own. -/
theorem parseUnsigned_of_isDigit {digits : List Char} (h : ∀ c ∈ digits, c.isDigit) :
    parseUnsigned digits = (parseDigits 10 digits).map fun n => (n : Rat) := by
  have hall : ∀ c ∈ digits, isDigit c = true := by
    intro c hc
    rw [isDigit_eq]
    exact h c hc
  have htake : digits.takeWhile isDigit = digits := List.takeWhile_eq_self_iff.mpr hall
  have hdrop : digits.dropWhile isDigit = [] := List.dropWhile_eq_nil_iff.mpr hall
  rw [parseUnsigned, htake, hdrop]
  cases parseDigits 10 digits <;> simp [parseExponent]

theorem parseLiteral_of_isDigit {digits : List Char} (hne : digits ≠ [])
    (h : ∀ c ∈ digits, c.isDigit) : parseLiteral digits = parseUnsigned digits := by
  match digits, hne with
  | c :: rest, _ =>
      have hc := h c List.mem_cons_self
      unfold parseLiteral
      split
      all_goals first | rfl | simp_all [Char.isDigit]

/-- Decimal text below `2 ^ 53` reads back as the integer it was written from. -/
theorem parse_toString {n : Nat} (h : n < 2 ^ 53) : parse (toString n) = some (n : Rat) := by
  have hdigits : ∀ c ∈ Nat.toDigits 10 n, c.isDigit := fun c hc => isDigit_of_mem_decimal hc
  have htext : (toString n).toList = Nat.toDigits 10 n := Nat.toList_repr
  rw [parse, htext, trim_of_forall fun c hc => not_isWhiteSpace_of_isDigit (hdigits c hc),
    parseLiteral_of_isDigit Nat.toDigits_ne_nil hdigits, parseUnsigned_of_isDigit hdigits,
    parseDigits_decimal]
  exact Binary64.round_natCast h

end NumberText
