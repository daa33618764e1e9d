import Mathlib.Tactic.Common
import Std.Data.String.ToInt

/-! # Arbitrary-precision integers as text

Reading an integer back from text the way ECMAScript's `BigInt(text)` does:
surrounding white space is dropped, empty text is zero, a sign may precede
decimal digits, and `0x`, `0o` and `0b` select another base. Writing is the
plain decimal form, which reads back as the integer it came from.
-/

namespace BigIntText

/-- The value of a digit in a base up to sixteen. -/
def digitValue (base : Nat) (c : Char) : Option Nat :=
  let v :=
    if '0' ≤ c ∧ c ≤ '9' then some (c.toNat - '0'.toNat)
    else if 'a' ≤ c ∧ c ≤ 'f' then some (c.toNat - 'a'.toNat + 10)
    else if 'A' ≤ c ∧ c ≤ 'F' then some (c.toNat - 'A'.toNat + 10)
    else none
  v.filter (· < base)

/-- The value of a run of digits, continuing from `init`. -/
def foldDigits (base : Nat) : List Char → Nat → Option Nat
  | [], init => some init
  | c :: rest, init => (digitValue base c).bind fun v => foldDigits base rest (base * init + v)

/-- The value of a non-empty run of digits. -/
def parseDigits (base : Nat) (digits : List Char) : Option Nat :=
  if digits.isEmpty then none else foldDigits base digits 0

/-- ECMAScript white space and line terminators. -/
def isWhiteSpace (c : Char) : Bool :=
  c.toNat ∈ [0x09, 0x0A, 0x0B, 0x0C, 0x0D, 0x20, 0xA0, 0x1680, 0x2028, 0x2029, 0x202F, 0x205F,
    0x3000, 0xFEFF] || (0x2000 ≤ c.toNat && c.toNat ≤ 0x200A)

def trim (text : List Char) : List Char :=
  ((text.dropWhile isWhiteSpace).reverse.dropWhile isWhiteSpace).reverse

/-- The integer an integer literal stands for. -/
def parseLiteral : List Char → Option Int
  | [] => some 0
  | '+' :: digits => (parseDigits 10 digits).map Int.ofNat
  | '-' :: digits => (parseDigits 10 digits).map fun n => -Int.ofNat n
  | '0' :: 'x' :: digits => (parseDigits 16 digits).map Int.ofNat
  | '0' :: 'X' :: digits => (parseDigits 16 digits).map Int.ofNat
  | '0' :: 'o' :: digits => (parseDigits 8 digits).map Int.ofNat
  | '0' :: 'O' :: digits => (parseDigits 8 digits).map Int.ofNat
  | '0' :: 'b' :: digits => (parseDigits 2 digits).map Int.ofNat
  | '0' :: 'B' :: digits => (parseDigits 2 digits).map Int.ofNat
  | digits => (parseDigits 10 digits).map Int.ofNat

/-- `BigInt(text)`; `none` where it throws a `SyntaxError`. -/
def parse (text : String) : Option Int := parseLiteral (trim text.toList)

/-! ## Decimal text reads back -/

theorem isDigit_bounds {c : Char} (h : c.isDigit) : '0' ≤ c ∧ c ≤ '9' := by
  rw [Char.isDigit, Bool.and_eq_true, decide_eq_true_eq, decide_eq_true_eq] at h
  exact h

theorem digitValue_of_isDigit {c : Char} (h : c.isDigit) :
    digitValue 10 c = some (c.toNat - '0'.toNat) := by
  have hrange := isDigit_bounds h
  have hlow : 48 ≤ c.toNat := hrange.1
  have hhigh : c.toNat ≤ 57 := hrange.2
  have hten : c.toNat - 48 < 10 := by omega
  simp [digitValue, hrange, Option.filter, hten]

theorem foldDigits_of_isDigit {digits : List Char} (h : ∀ c ∈ digits, c.isDigit) (init : Nat) :
    foldDigits 10 digits init = some (Nat.ofDigitChars 10 digits init) := by
  induction digits generalizing init with
  | nil => rfl
  | cons c rest ih =>
      have hrest : ∀ d ∈ rest, d.isDigit := fun d hd => h d (List.mem_cons_of_mem _ hd)
      simp only [foldDigits, digitValue_of_isDigit (h c List.mem_cons_self), Option.bind_some,
        ih hrest, Nat.ofDigitChars_cons]

theorem isDigit_of_mem_decimal {n : Nat} {c : Char} (h : c ∈ Nat.toDigits 10 n) : c.isDigit :=
  Nat.isDigit_of_mem_toDigits (by decide) (by decide) h

theorem parseDigits_decimal (n : Nat) : parseDigits 10 (Nat.toDigits 10 n) = some n := by
  have hne : (Nat.toDigits 10 n).isEmpty = false := by
    simp
  simp only [parseDigits, hne, Bool.false_eq_true, if_false,
    foldDigits_of_isDigit (fun c hc => isDigit_of_mem_decimal hc), Nat.ofDigitChars_ten_toDigits]

theorem not_isWhiteSpace_of_isDigit {c : Char} (h : c.isDigit) : isWhiteSpace c = false := by
  have hrange := isDigit_bounds h
  have hlow : 48 ≤ c.toNat := hrange.1
  have hhigh : c.toNat ≤ 57 := hrange.2
  simp only [isWhiteSpace, List.mem_cons, List.not_mem_nil, or_false, Bool.or_eq_false_iff,
    decide_eq_false_iff_not, Bool.and_eq_false_imp, decide_eq_true_eq]
  omega

/-- Nothing is dropped from either end of a text that holds nothing to drop. -/
theorem dropEnds_of_forall {drops : Char → Bool} {text : List Char}
    (h : ∀ c ∈ text, drops c = false) :
    ((text.dropWhile drops).reverse.dropWhile drops).reverse = text := by
  have hdrop : ∀ l : List Char, (∀ c ∈ l, drops c = false) → l.dropWhile drops = l := by
    intro l hl
    cases l with
    | nil => rfl
    | cons c rest => simp [hl c List.mem_cons_self]
  rw [hdrop text h, hdrop text.reverse (by simpa using h), List.reverse_reverse]

theorem trim_of_forall {text : List Char} (h : ∀ c ∈ text, isWhiteSpace c = false) :
    trim text = text := dropEnds_of_forall h

/-- A literal that starts with two decimal digits or a lone one is decimal. -/
theorem parseLiteral_of_isDigit {digits : List Char} (hne : digits ≠ [])
    (h : ∀ c ∈ digits, c.isDigit) :
    parseLiteral digits = (parseDigits 10 digits).map Int.ofNat := by
  match digits, hne with
  | c :: rest, _ =>
      have hc := h c List.mem_cons_self
      have hrest : ∀ d ∈ rest, d.isDigit := fun d hd => h d (List.mem_cons_of_mem _ hd)
      unfold parseLiteral
      split
      all_goals first | rfl | simp_all [Char.isDigit]

theorem toList_toString_natCast (n : Nat) :
    (toString (n : Int)).toList = Nat.toDigits 10 n := Nat.toList_repr

theorem toList_toString_negSucc (n : Nat) :
    (toString (Int.negSucc n)).toList = '-' :: Nat.toDigits 10 (n + 1) := by
  change ("-" ++ (n + 1).repr).toList = _
  rw [String.toList_append, Nat.toList_repr]
  rfl

/-- Decimal text reads back as the integer it was written from. -/
@[simp] theorem parse_toString (n : Int) : parse (toString n) = some n := by
  change parse n.repr = some n
  cases n with
  | ofNat m =>
      have hdigits : ∀ c ∈ Nat.toDigits 10 m, c.isDigit := fun c hc => isDigit_of_mem_decimal hc
      have htext : (Int.ofNat m).repr.toList = Nat.toDigits 10 m := Nat.toList_repr
      rw [parse, htext, trim_of_forall fun c hc => not_isWhiteSpace_of_isDigit (hdigits c hc),
        parseLiteral_of_isDigit Nat.toDigits_ne_nil hdigits, parseDigits_decimal]
      rfl
  | negSucc m =>
      have hdigits : ∀ c ∈ Nat.toDigits 10 (m + 1), c.isDigit :=
        fun c hc => isDigit_of_mem_decimal hc
      have htext : (Int.negSucc m).repr.toList = '-' :: Nat.toDigits 10 (m + 1) := by
        change ("-" ++ (m + 1).repr).toList = _
        rw [String.toList_append, Nat.toList_repr]
        rfl
      have htrim : trim ('-' :: Nat.toDigits 10 (m + 1)) = '-' :: Nat.toDigits 10 (m + 1) := by
        apply trim_of_forall
        intro c hc
        rcases List.mem_cons.mp hc with rfl | hc
        · decide
        · exact not_isWhiteSpace_of_isDigit (hdigits c hc)
      rw [parse, htext, htrim, parseLiteral, parseDigits_decimal]
      rfl

@[simp] theorem parse_repr (n : Int) : parse n.repr = some n := parse_toString n

/-- Decimal text does not start with a zero, unless it is zero's. -/
theorem head_decimal_ne_zero {n : Nat} (hpos : 0 < n) :
    ∀ c ∈ (Nat.toDigits 10 n).head?, c ≠ '0' := by
  induction n using Nat.strongRecOn with
  | ind n ih =>
      by_cases hlt : n < 10
      · rw [Nat.toDigits_of_lt_base hlt]
        have hdigit : ∀ m : Fin 10, 0 < m.val → Nat.digitChar m ≠ '0' := by decide
        intro c hc
        cases hc
        exact hdigit ⟨n, hlt⟩ hpos
      · rw [Nat.toDigits_of_base_le (by decide) (Nat.not_lt.mp hlt), List.head?_append]
        have ih := ih (n / 10) (by omega) (by omega)
        cases hdigits : Nat.toDigits 10 (n / 10) with
        | nil => exact absurd hdigits Nat.toDigits_ne_nil
        | cons d rest =>
            rw [hdigits] at ih
            exact ih

theorem digitChar_toNat_sub {c : Char} (h : c.isDigit) :
    Nat.digitChar (c.toNat - '0'.toNat) = c ∧ c.toNat - '0'.toNat < 10 := by
  have hlow : 48 ≤ c.toNat := (isDigit_bounds h).1
  have hhigh : c.toNat ≤ 57 := (isDigit_bounds h).2
  have hlt : c.toNat - '0'.toNat < 10 := by
    change c.toNat - 48 < 10
    omega
  refine ⟨Char.toNat_inj.mp ?_, hlt⟩
  rw [Nat.toNat_digitChar_of_lt_ten hlt]
  change 48 + (c.toNat - 48) = c.toNat
  omega

/-- Digits after a positive number are the digits of the longer number. -/
theorem toDigits_ofDigitChars_of_pos {digits : List Char} (h : ∀ c ∈ digits, c.isDigit)
    {init : Nat} (hpos : 0 < init) :
    Nat.toDigits 10 (Nat.ofDigitChars 10 digits init) = Nat.toDigits 10 init ++ digits := by
  induction digits generalizing init with
  | nil => rw [Nat.ofDigitChars_nil, List.append_nil]
  | cons c rest ih =>
      obtain ⟨hchar, hlt⟩ := digitChar_toNat_sub (h c List.mem_cons_self)
      have hrest : ∀ d ∈ rest, d.isDigit := fun d hd => h d (List.mem_cons_of_mem _ hd)
      rw [Nat.ofDigitChars_cons, ih hrest (by omega),
        ← Nat.toDigits_append_toDigits (by decide) hpos hlt, Nat.toDigits_of_lt_base hlt, hchar,
        List.append_assoc, List.singleton_append]

/-- Digits that do not start with a zero are the decimal text of their value. -/
theorem toDigits_ofDigitChars {c : Char} {rest : List Char} (hhead : c ≠ '0') (hc : c.isDigit)
    (hrest : ∀ d ∈ rest, d.isDigit) :
    Nat.toDigits 10 (Nat.ofDigitChars 10 (c :: rest) 0) = c :: rest := by
  obtain ⟨hchar, hlt⟩ := digitChar_toNat_sub hc
  have hpos : 0 < c.toNat - '0'.toNat := by
    rw [Nat.pos_iff_ne_zero]
    intro hzero
    rw [hzero] at hchar
    exact hhead hchar.symm
  rw [Nat.ofDigitChars_cons, Nat.mul_zero, Nat.zero_add, toDigits_ofDigitChars_of_pos hrest hpos,
    Nat.toDigits_of_lt_base hlt, hchar, List.singleton_append]

theorem toString_ne_empty (n : Int) : toString n ≠ "" := by
  intro h
  have htext : (toString n).toList = [] := by rw [h]; rfl
  cases n with
  | ofNat m =>
      rw [Int.ofNat_eq_natCast, toList_toString_natCast] at htext
      exact Nat.toDigits_ne_nil htext
  | negSucc m =>
      rw [toList_toString_negSucc] at htext
      cases htext

/-- Decimal text holds digits and a sign, and nothing else. -/
theorem notMem_toString {c : Char} (hdigit : c.isDigit = false) (hsign : c ≠ '-') (n : Int) :
    c ∉ (toString n).toList := by
  have hdigits : ∀ m, c ∉ Nat.toDigits 10 m := by
    intro m hc
    rw [isDigit_of_mem_decimal hc] at hdigit
    cases hdigit
  cases n with
  | ofNat m =>
      rw [Int.ofNat_eq_natCast, toList_toString_natCast]
      exact hdigits m
  | negSucc m =>
      rw [toList_toString_negSucc, List.mem_cons, not_or]
      exact ⟨hsign, hdigits (m + 1)⟩

theorem toString_injective : Function.Injective (toString : Int → String) :=
  fun _ _ h => Int.repr_injective h

theorem toString_inj {a b : Int} : toString a = toString b ↔ a = b :=
  toString_injective.eq_iff

/-! ## Hexadecimal text -/

theorem foldDigits_append (base : Nat) (front back : List Char) (init : Nat) :
    foldDigits base (front ++ back) init =
      (foldDigits base front init).bind (foldDigits base back) := by
  induction front generalizing init with
  | nil => rfl
  | cons c rest ih =>
      rw [List.cons_append, foldDigits, foldDigits, Option.bind_assoc]
      apply Option.bind_congr
      intro v _
      exact ih _

theorem digitValue_digitChar {n : Nat} (h : n < 16) : digitValue 16 (Nat.digitChar n) = some n := by
  have hall : ∀ n : Fin 16, digitValue 16 (Nat.digitChar n.val) = some n.val := by decide
  exact hall ⟨n, h⟩

/-- Hexadecimal text reads back as the number it was written from. -/
theorem foldDigits_toDigits (n : Nat) : foldDigits 16 (Nat.toDigits 16 n) 0 = some n := by
  induction n using Nat.strongRecOn with
  | ind n ih =>
      by_cases hlt : n < 16
      · rw [Nat.toDigits_of_lt_base hlt, foldDigits, digitValue_digitChar hlt, Option.bind_some,
          foldDigits, Nat.mul_zero, Nat.zero_add]
      · rw [Nat.toDigits_of_base_le (by decide) (Nat.not_lt.mp hlt), foldDigits_append,
          ih (n / 16) (by omega), Option.bind_some, foldDigits,
          digitValue_digitChar (Nat.mod_lt _ (by decide)), Option.bind_some, foldDigits,
          Nat.div_add_mod]

/-- Zeros in front do not change a number. -/
theorem foldDigits_zeros (count : Nat) (digits : List Char) :
    foldDigits 16 (List.replicate count '0' ++ digits) 0 = foldDigits 16 digits 0 := by
  induction count with
  | zero => rfl
  | succ count ih =>
      have hzero : digitValue 16 '0' = some 0 := by decide
      rw [List.replicate_succ, List.cons_append, foldDigits, hzero, Option.bind_some]
      exact ih

/-- Of either case. -/
def isHex (c : Char) : Bool := (digitValue 16 c).isSome

theorem exists_foldDigits {digits : List Char} (h : ∀ c ∈ digits, isHex c = true)
    (init : Nat) : ∃ n, foldDigits 16 digits init = some n := by
  induction digits generalizing init with
  | nil => exact ⟨init, rfl⟩
  | cons c rest ih =>
      obtain ⟨v, hv⟩ := Option.isSome_iff_exists.mp (h c List.mem_cons_self)
      obtain ⟨n, hn⟩ := ih (fun d hd => h d (List.mem_cons_of_mem _ hd)) (16 * init + v)
      exact ⟨n, by rw [foldDigits, hv, Option.bind_some, hn]⟩

theorem isHex_lt {c : Char} (h : isHex c = true) : c.toNat < 128 := by
  by_contra hlarge
  have hnone : digitValue 16 c = none := by
    simp only [digitValue, Char.le_def, UInt32.le_iff_toNat_le, Char.reduceVal,
      UInt32.reduceToNat]
    have hval : c.val.toNat = c.toNat := rfl
    rw [if_neg (by omega), if_neg (by omega), if_neg (by omega)]
    rfl
  rw [isHex, hnone] at h
  cases h

theorem not_isWhiteSpace_of_isHex {c : Char} (h : isHex c = true) :
    isWhiteSpace c = false := by
  have hall : ∀ n < 128, isHex (Char.ofNat n) = true →
      isWhiteSpace (Char.ofNat n) = false := by decide +kernel
  have hc := hall c.toNat (isHex_lt h)
  rw [Char.ofNat_toNat] at hc
  exact hc h

/-- Hexadecimal digits behind `0x` are the number they write. -/
theorem parse_hex {digits : List Char} (hne : digits ≠ [])
    (h : ∀ c ∈ digits, isHex c = true) :
    parse (String.ofList ('0' :: 'x' :: digits)) =
      (foldDigits 16 digits 0).map Int.ofNat := by
  have htrim : trim ('0' :: 'x' :: digits) = '0' :: 'x' :: digits := by
    apply trim_of_forall
    intro c hc
    simp only [List.mem_cons] at hc
    rcases hc with rfl | rfl | hc
    · decide
    · decide
    · exact not_isWhiteSpace_of_isHex (h c hc)
  rw [parse, String.toList_ofList, htrim, parseLiteral, parseDigits,
    List.isEmpty_eq_false_iff.mpr hne]
  rfl

end BigIntText
