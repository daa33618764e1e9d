import Mathlib.Algebra.Group.Nat.Defs
import Mathlib.Tactic.Common

/-! # Text encodings

A text is a list of Unicode scalar values. It has a length in UTF-16 code units
and a form in UTF-8 bytes. Decoding bytes is total: each maximal ill-formed
subsequence reads as one replacement character.
-/

namespace Text

/-- U+FFFD. -/
def replacement : Char := Char.ofNat 0xfffd

/-! ## UTF-16 -/

def isHighSurrogate (u : Nat) : Bool := 0xd800 ≤ u && u ≤ 0xdbff

def isLowSurrogate (u : Nat) : Bool := 0xdc00 ≤ u && u ≤ 0xdfff

/-- The code units of a scalar value. -/
def charUnits (c : Char) : List Nat :=
  if c.toNat ≤ 0xffff then [c.toNat]
  else [0xd800 + (c.toNat - 0x10000) / 0x400, 0xdc00 + (c.toNat - 0x10000) % 0x400]

/-- The UTF-16 code units of a text. -/
def units (cs : List Char) : List Nat := cs.flatMap charUnits

/-- The length of a text in code units. -/
def length16 (cs : List Char) : Nat := (units cs).length

/-- The character of a code unit that pairs with no other. -/
def unitChar (u : Nat) : Char :=
  if isHighSurrogate u || isLowSurrogate u then replacement else Char.ofNat u

/-- Read code units back, an unpaired surrogate as the replacement character. -/
def ofUnits : List Nat → List Char
  | [] => []
  | [u] => [unitChar u]
  | u :: v :: rest =>
      if isHighSurrogate u && isLowSurrogate v then
        Char.ofNat (0x10000 + (u - 0xd800) * 0x400 + (v - 0xdc00)) :: ofUnits rest
      else unitChar u :: ofUnits (v :: rest)

theorem toNat_lt (c : Char) : c.toNat < 0x110000 := by
  have hvalid := c.valid
  simp only [UInt32.isValidChar, Nat.isValidChar] at hvalid
  have heq : c.toNat = c.val.toNat := rfl
  omega

theorem toNat_not_surrogate (c : Char) : c.toNat < 0xd800 ∨ 0xdfff < c.toNat := by
  have hvalid := c.valid
  simp only [UInt32.isValidChar, Nat.isValidChar] at hvalid
  have heq : c.toNat = c.val.toNat := rfl
  omega

theorem unitChar_toNat (c : Char) : unitChar c.toNat = c := by
  have hnot := toNat_not_surrogate c
  have hhigh : isHighSurrogate c.toNat = false := by
    simp only [isHighSurrogate, Bool.and_eq_false_iff, decide_eq_false_iff_not]
    omega
  have hlow : isLowSurrogate c.toNat = false := by
    simp only [isLowSurrogate, Bool.and_eq_false_iff, decide_eq_false_iff_not]
    omega
  simp only [unitChar, hhigh, hlow, Bool.or_false, Bool.false_eq_true, if_false]
  exact Char.ofNat_toNat c

theorem ofUnits_cons_of_not_high {u : Nat} (h : isHighSurrogate u = false) (rest : List Nat) :
    ofUnits (u :: rest) = unitChar u :: ofUnits rest := by
  cases rest with
  | nil => rfl
  | cons v rest => simp [ofUnits, h]

/-- The code units of a character read back as that character. -/
theorem ofUnits_charUnits (c : Char) (rest : List Nat) :
    ofUnits (charUnits c ++ rest) = c :: ofUnits rest := by
  have hlt := toNat_lt c
  have hnot := toNat_not_surrogate c
  unfold charUnits
  split
  next hbmp =>
    have hhigh : isHighSurrogate c.toNat = false := by
      simp only [isHighSurrogate, Bool.and_eq_false_iff, decide_eq_false_iff_not]
      omega
    rw [List.singleton_append, ofUnits_cons_of_not_high hhigh, unitChar_toNat]
  next hbmp =>
    -- Above the basic plane: the two units are a pair, and the pair is not read unit by unit.
    have hhigh : isHighSurrogate (0xd800 + (c.toNat - 0x10000) / 0x400) = true := by
      simp only [isHighSurrogate, Bool.and_eq_true, decide_eq_true_eq]
      omega
    have hlow : isLowSurrogate (0xdc00 + (c.toNat - 0x10000) % 0x400) = true := by
      simp only [isLowSurrogate, Bool.and_eq_true, decide_eq_true_eq]
      omega
    have hpoint : 0x10000 + (0xd800 + (c.toNat - 0x10000) / 0x400 - 0xd800) * 0x400 +
        (0xdc00 + (c.toNat - 0x10000) % 0x400 - 0xdc00) = c.toNat := by omega
    simp only [List.cons_append, List.nil_append, ofUnits, hhigh, hlow, Bool.and_self, if_true,
      hpoint, Char.ofNat_toNat]

/-- Every text is read back from its code units. -/
theorem ofUnits_units (cs : List Char) : ofUnits (units cs) = cs := by
  induction cs with
  | nil => rfl
  | cons c rest ih =>
      change ofUnits (charUnits c ++ units rest) = c :: rest
      rw [ofUnits_charUnits, ih]

/-! ## UTF-8 -/

/-- The UTF-8 bytes of a text. -/
def encode (cs : List Char) : List UInt8 := cs.flatMap String.utf8EncodeChar

/-- What a decoder has read of the character it is in: how many bytes are still
owed, the range of the next one, and the bits so far. -/
structure Partial where
  needed : Nat
  lower : Nat
  upper : Nat
  point : Nat
  deriving DecidableEq, Repr

/-- Between two characters. -/
def Partial.start : Partial := ⟨0, 0x80, 0xbf, 0⟩

/-- The first byte of a character. -/
def leadByte (b : Nat) : List Char × Partial :=
  if b ≤ 0x7f then ([Char.ofNat b], .start)
  else if 0xc2 ≤ b ∧ b ≤ 0xdf then ([], ⟨1, 0x80, 0xbf, b - 0xc0⟩)
  else if 0xe0 ≤ b ∧ b ≤ 0xef then
    ([], ⟨2, if b = 0xe0 then 0xa0 else 0x80, if b = 0xed then 0x9f else 0xbf, b - 0xe0⟩)
  else if 0xf0 ≤ b ∧ b ≤ 0xf4 then
    ([], ⟨3, if b = 0xf0 then 0x90 else 0x80, if b = 0xf4 then 0x8f else 0xbf, b - 0xf0⟩)
  else ([replacement], .start)

/-- One byte. A byte out of range ends the character it interrupts and is read again
as a first byte. -/
def nextByte (p : Partial) (b : Nat) : List Char × Partial :=
  if p.needed = 0 then leadByte b
  else if p.lower ≤ b ∧ b ≤ p.upper then
    let point := p.point * 64 + (b - 0x80)
    if p.needed = 1 then ([Char.ofNat point], .start)
    else ([], ⟨p.needed - 1, 0x80, 0xbf, point⟩)
  else (replacement :: (leadByte b).1, (leadByte b).2)

def decodeFrom (p : Partial) : List UInt8 → List Char
  | [] => if p.needed = 0 then [] else [replacement]
  | b :: rest => (nextByte p b.toNat).1 ++ decodeFrom (nextByte p b.toNat).2 rest

/-- The text of some bytes. -/
def decode (bytes : List UInt8) : List Char := decodeFrom .start bytes

@[simp] theorem encode_append (first second : List Char) :
    encode (first ++ second) = encode first ++ encode second := by
  simp [encode]

theorem toNat_ofNat_of_lt {n : Nat} (h : n < 256) : (UInt8.ofNat n).toNat = n := by
  simp only [UInt8.toNat_ofNat']
  omega

/-- A byte that is not the last of its character. -/
theorem nextByte_middle {needed lower upper point b : Nat} (hneeded : 1 < needed)
    (hlower : lower ≤ b) (hupper : b ≤ upper) :
    nextByte ⟨needed, lower, upper, point⟩ b =
      ([], ⟨needed - 1, 0x80, 0xbf, point * 64 + (b - 0x80)⟩) := by
  have hzero : needed ≠ 0 := by omega
  have hone : needed ≠ 1 := by omega
  simp only [nextByte, hzero, hone, if_false, if_pos (And.intro hlower hupper)]

/-- The last byte of a character. -/
theorem nextByte_last {lower upper point b : Nat} (hlower : lower ≤ b) (hupper : b ≤ upper) :
    nextByte ⟨1, lower, upper, point⟩ b =
      ([Char.ofNat (point * 64 + (b - 0x80))], .start) := by
  simp only [nextByte, Nat.one_ne_zero, if_false, if_pos (And.intro hlower hupper), if_true]

/-- A byte read between two characters. -/
theorem decodeFrom_start_cons {b : Nat} (hb : b < 256) (rest : List UInt8) :
    decodeFrom .start (UInt8.ofNat b :: rest) =
      (leadByte b).1 ++ decodeFrom (leadByte b).2 rest := by
  simp only [decodeFrom, toNat_ofNat_of_lt hb]
  rfl

theorem decodeFrom_middle {needed lower upper point b : Nat} (hneeded : 1 < needed)
    (hlower : lower ≤ b) (hupper : b ≤ upper) (hb : b < 256) (rest : List UInt8) :
    decodeFrom ⟨needed, lower, upper, point⟩ (UInt8.ofNat b :: rest) =
      decodeFrom ⟨needed - 1, 0x80, 0xbf, point * 64 + (b - 0x80)⟩ rest := by
  simp only [decodeFrom, toNat_ofNat_of_lt hb, nextByte_middle hneeded hlower hupper,
    List.nil_append]

theorem decodeFrom_last {lower upper point b : Nat} (hlower : lower ≤ b) (hupper : b ≤ upper)
    (hb : b < 256) (rest : List UInt8) :
    decodeFrom ⟨1, lower, upper, point⟩ (UInt8.ofNat b :: rest) =
      Char.ofNat (point * 64 + (b - 0x80)) :: decodeFrom .start rest := by
  simp only [decodeFrom, toNat_ofNat_of_lt hb, nextByte_last hlower hupper, List.singleton_append]

theorem leadByte_one {b : Nat} (h : b ≤ 0x7f) : leadByte b = ([Char.ofNat b], .start) := by
  simp only [leadByte, h, if_true]

theorem leadByte_two {b : Nat} (hlow : 0xc2 ≤ b) (hhigh : b ≤ 0xdf) :
    leadByte b = ([], ⟨1, 0x80, 0xbf, b - 0xc0⟩) := by
  have hone : ¬ b ≤ 0x7f := by omega
  simp only [leadByte, hone, if_false, if_pos (And.intro hlow hhigh)]

theorem leadByte_three {b : Nat} (hlow : 0xe0 ≤ b) (hhigh : b ≤ 0xef) :
    leadByte b =
      ([], ⟨2, if b = 0xe0 then 0xa0 else 0x80, if b = 0xed then 0x9f else 0xbf, b - 0xe0⟩) := by
  have hone : ¬ b ≤ 0x7f := by omega
  have htwo : ¬ (0xc2 ≤ b ∧ b ≤ 0xdf) := by omega
  simp only [leadByte, hone, htwo, if_false, if_pos (And.intro hlow hhigh)]

theorem leadByte_four {b : Nat} (hlow : 0xf0 ≤ b) (hhigh : b ≤ 0xf4) :
    leadByte b =
      ([], ⟨3, if b = 0xf0 then 0x90 else 0x80, if b = 0xf4 then 0x8f else 0xbf, b - 0xf0⟩) := by
  have hone : ¬ b ≤ 0x7f := by omega
  have htwo : ¬ (0xc2 ≤ b ∧ b ≤ 0xdf) := by omega
  have hthree : ¬ (0xe0 ≤ b ∧ b ≤ 0xef) := by omega
  simp only [leadByte, hone, htwo, hthree, if_false, if_pos (And.intro hlow hhigh)]

/-- The bytes of a character read back as that character. -/
theorem decodeFrom_encodeChar (c : Char) (rest : List UInt8) :
    decodeFrom .start (String.utf8EncodeChar c ++ rest) = c :: decodeFrom .start rest := by
  have hlt := toNat_lt c
  have hnot := toNat_not_surrogate c
  have hval : c.val.toNat = c.toNat := rfl
  have hchar := Char.ofNat_toNat c
  unfold String.utf8EncodeChar
  simp only [hval]
  split
  next hone =>
    rw [List.singleton_append, decodeFrom_start_cons (by omega), leadByte_one hone, hchar]
    rfl
  next hone =>
    split
    next htwo =>
      have hpoint : (c.toNat / 64 % 32 + 192 - 0xc0) * 64 + (c.toNat % 64 + 128 - 0x80) =
          c.toNat := by omega
      rw [List.cons_append, decodeFrom_start_cons (by omega), leadByte_two (by omega) (by omega),
        List.nil_append, List.singleton_append, decodeFrom_last (by omega) (by omega) (by omega),
        hpoint, hchar]
    next htwo =>
      split
      next hthree =>
        have hpoint : ((c.toNat / 4096 % 16 + 224 - 0xe0) * 64 +
            (c.toNat / 64 % 64 + 128 - 0x80)) * 64 + (c.toNat % 64 + 128 - 0x80) = c.toNat := by
          omega
        -- The second byte leaves out the overlong forms and the surrogates.
        have hlower : (if c.toNat / 4096 % 16 + 224 = 0xe0 then 0xa0 else 0x80) ≤
            c.toNat / 64 % 64 + 128 := by
          split <;> omega
        have hupper : c.toNat / 64 % 64 + 128 ≤
            (if c.toNat / 4096 % 16 + 224 = 0xed then 0x9f else 0xbf) := by
          split <;> omega
        rw [List.cons_append, decodeFrom_start_cons (by omega),
          leadByte_three (by omega) (by omega), List.nil_append, List.cons_append,
          decodeFrom_middle (by omega) hlower hupper (by omega), List.singleton_append,
          decodeFrom_last (by omega) (by omega) (by omega), hpoint, hchar]
      next hthree =>
        have hpoint : (((c.toNat / 262144 % 8 + 240 - 0xf0) * 64 +
            (c.toNat / 4096 % 64 + 128 - 0x80)) * 64 + (c.toNat / 64 % 64 + 128 - 0x80)) * 64 +
            (c.toNat % 64 + 128 - 0x80) = c.toNat := by
          omega
        have hlower : (if c.toNat / 262144 % 8 + 240 = 0xf0 then 0x90 else 0x80) ≤
            c.toNat / 4096 % 64 + 128 := by
          split <;> omega
        have hupper : c.toNat / 4096 % 64 + 128 ≤
            (if c.toNat / 262144 % 8 + 240 = 0xf4 then 0x8f else 0xbf) := by
          split <;> omega
        rw [List.cons_append, decodeFrom_start_cons (by omega),
          leadByte_four (by omega) (by omega), List.nil_append, List.cons_append,
          decodeFrom_middle (by omega) hlower hupper (by omega), List.cons_append,
          decodeFrom_middle (by omega) (by omega) (by omega) (by omega), List.singleton_append,
          decodeFrom_last (by omega) (by omega) (by omega), hpoint, hchar]

/-- A text in front of any bytes is read back from its own. -/
theorem decode_encode_append (cs : List Char) (bytes : List UInt8) :
    decode (encode cs ++ bytes) = cs ++ decode bytes := by
  unfold decode
  induction cs with
  | nil => rfl
  | cons c rest ih =>
      change decodeFrom .start (String.utf8EncodeChar c ++ encode rest ++ bytes) = _
      rw [List.append_assoc, decodeFrom_encodeChar, ih]
      rfl

/-- Every text is read back from its bytes. -/
theorem decode_encode (cs : List Char) : decode (encode cs) = cs := by
  have h := decode_encode_append cs []
  rw [List.append_nil] at h
  rw [h]
  exact List.append_nil cs

/-- A character takes at least one byte. -/
theorem length_le_length_encode (cs : List Char) : cs.length ≤ (encode cs).length := by
  induction cs with
  | nil => exact Nat.le_refl 0
  | cons c rest ih =>
      have hchar : 0 < (String.utf8EncodeChar c).length := by
        rw [String.length_utf8EncodeChar]
        exact Char.utf8Size_pos c
      change (c :: rest).length ≤ (String.utf8EncodeChar c ++ encode rest).length
      rw [List.length_append, List.length_cons]
      omega

/-! ## Newlines -/

/-- The byte of a line feed. -/
def newline : UInt8 := 10

/-- The byte stands for its character, and is part of no other. -/
theorem newline_mem_encodeChar {c : Char} (h : newline ∈ String.utf8EncodeChar c) : c = '\n' := by
  have hlt := toNat_lt c
  have hval : c.val.toNat = c.toNat := rfl
  have hten : newline.toNat = 10 := rfl
  unfold String.utf8EncodeChar at h
  simp only [hval] at h
  split at h
  next hone =>
    have hbyte := congrArg UInt8.toNat (List.mem_singleton.mp h)
    rw [hten, toNat_ofNat_of_lt (by omega)] at hbyte
    exact Char.toNat_inj.mp hbyte.symm
  next hone =>
    -- Every byte of a longer character is above the ASCII range.
    have hwide {n : Nat} (hlow : 0x80 ≤ n) (hhigh : n < 256) : newline ≠ UInt8.ofNat n := by
      intro heq
      have hbyte := congrArg UInt8.toNat heq
      rw [hten, toNat_ofNat_of_lt hhigh] at hbyte
      omega
    exfalso
    split at h
    next htwo =>
      simp only [List.mem_cons, List.not_mem_nil, or_false] at h
      rcases h with h | h
      · exact hwide (by omega) (by omega) h
      · exact hwide (by omega) (by omega) h
    next htwo =>
      split at h
      next hthree =>
        simp only [List.mem_cons, List.not_mem_nil, or_false] at h
        rcases h with h | h | h
        · exact hwide (by omega) (by omega) h
        · exact hwide (by omega) (by omega) h
        · exact hwide (by omega) (by omega) h
      next hthree =>
        simp only [List.mem_cons, List.not_mem_nil, or_false] at h
        rcases h with h | h | h | h
        · exact hwide (by omega) (by omega) h
        · exact hwide (by omega) (by omega) h
        · exact hwide (by omega) (by omega) h
        · exact hwide (by omega) (by omega) h

theorem newline_not_mem_encode {cs : List Char} (h : '\n' ∉ cs) : newline ∉ encode cs := by
  intro hmem
  obtain ⟨c, hc, hbyte⟩ := List.mem_flatMap.mp hmem
  exact h (newline_mem_encodeChar hbyte ▸ hc)

/-- A character begun will not come out below the ASCII range: what is owed at least
raises it there. -/
def Partial.Wide (p : Partial) : Prop :=
  p.needed ≠ 0 → 0x80 ≤ p.lower ∧
    0x80 ≤ (p.point * 64 + (p.lower - 0x80)) * 64 ^ (p.needed - 1)

theorem ofNat_ne_newline {n : Nat} (h : n ≠ 10) : Char.ofNat n ≠ '\n' := by
  intro heq
  have hten : (Char.ofNat n).toNat = 10 := congrArg Char.toNat heq
  by_cases hvalid : n.isValidChar
  · rw [Char.ofNat, dif_pos hvalid] at hten
    exact h hten
  · rw [Char.ofNat, dif_neg hvalid] at hten
    cases hten

theorem leadByte_wide (b : Nat) : (leadByte b).2.Wide := by
  intro hne
  unfold leadByte at hne ⊢
  split
  next h => simp [h, Partial.start] at hne
  next =>
    split
    next =>
      simp only
      omega
    next =>
      split
      next =>
        simp only
        split <;> omega
      next =>
        split
        next =>
          simp only
          split <;> omega
        next h1 h2 h3 h4 => simp [h1, h2, h3, h4, Partial.start] at hne

theorem newline_not_mem_leadByte {b : Nat} (h : b ≠ 10) : '\n' ∉ (leadByte b).1 := by
  unfold leadByte
  split
  next => exact fun hmem => ofNat_ne_newline h (List.mem_singleton.mp hmem).symm
  next =>
    split
    next => exact List.not_mem_nil
    next =>
      split
      next => exact List.not_mem_nil
      next =>
        split
        next => exact List.not_mem_nil
        next => decide

theorem Partial.Wide.nextByte {p : Partial} (hp : p.Wide) {b : Nat} (h : b ≠ 10) :
    (Text.nextByte p b).2.Wide ∧ '\n' ∉ (Text.nextByte p b).1 := by
  unfold Text.nextByte
  split
  next => exact ⟨leadByte_wide b, newline_not_mem_leadByte h⟩
  next hneeded =>
    obtain ⟨hlower, hpoint⟩ := hp hneeded
    split
    next hrange =>
      split
      next hone =>
        rw [hone, Nat.sub_self, Nat.pow_zero, Nat.mul_one] at hpoint
        refine ⟨fun hne => absurd rfl hne, fun hmem => ?_⟩
        exact ofNat_ne_newline (by omega) (List.mem_singleton.mp hmem).symm
      next hone =>
        refine ⟨fun _ => ⟨Nat.le_refl _, ?_⟩, List.not_mem_nil⟩
        obtain ⟨n, hn⟩ := Nat.exists_eq_add_of_le (show 2 ≤ p.needed by omega)
        have hsame : p.needed - 1 = n + 1 := by omega
        have hless : p.needed - 1 - 1 = n := by omega
        have hle : p.point * 64 + (p.lower - 0x80) ≤ p.point * 64 + (b - 0x80) := by omega
        rw [hsame, Nat.pow_succ, Nat.mul_comm (64 ^ n), ← Nat.mul_assoc] at hpoint
        simp only [hless, Nat.sub_self, Nat.add_zero]
        exact Nat.le_trans hpoint (Nat.mul_le_mul_right _ (Nat.mul_le_mul_right _ hle))
    next =>
      refine ⟨leadByte_wide b, ?_⟩
      rw [List.mem_cons, not_or]
      exact ⟨by decide, newline_not_mem_leadByte h⟩

/-- Bytes without a line feed read as text without one. -/
theorem newline_not_mem_decode {bytes : List UInt8} (h : newline ∉ bytes) :
    '\n' ∉ decode bytes := by
  have hfrom (p : Partial) (hp : p.Wide) : '\n' ∉ decodeFrom p bytes := by
    induction bytes generalizing p with
    | nil =>
        unfold decodeFrom
        split
        next => exact List.not_mem_nil
        next => decide
    | cons b rest ih =>
        simp only [List.mem_cons, not_or] at h
        obtain ⟨hb, hrest⟩ := h
        have hten : b.toNat ≠ 10 := fun heq => hb (UInt8.toNat_inj.mp heq.symm)
        obtain ⟨hnext, hhere⟩ := hp.nextByte hten
        rw [decodeFrom, List.mem_append, not_or]
        exact ⟨hhere, ih hrest _ hnext⟩
  exact hfrom .start fun hne => absurd rfl hne

/-- A byte that puts nothing out leaves a character begun. -/
theorem needed_of_nextByte {p : Partial} {b : Nat} (h : (nextByte p b).1 = []) :
    (nextByte p b).2.needed ≠ 0 := by
  have hlead (b : Nat) (h : (leadByte b).1 = []) : (leadByte b).2.needed ≠ 0 := by
    unfold leadByte at h ⊢
    split_ifs at h ⊢ <;> simp_all
  unfold nextByte at h ⊢
  split
  next hneeded =>
    rw [if_pos hneeded] at h
    exact hlead b h
  next hneeded =>
    rw [if_neg hneeded] at h
    split
    next hrange =>
      rw [if_pos hrange] at h
      split
      next hone =>
        simp [hone] at h
      next hone =>
        simp only
        omega
    next hrange =>
      rw [if_neg hrange] at h
      cases h

theorem decodeFrom_ne_nil {p : Partial} {bytes : List UInt8} (h : p.needed ≠ 0 ∨ bytes ≠ []) :
    decodeFrom p bytes ≠ [] := by
  induction bytes generalizing p with
  | nil =>
      rcases h with hneeded | hbytes
      · simp [decodeFrom, hneeded]
      · exact absurd rfl hbytes
  | cons b rest ih =>
      intro hnil
      rw [decodeFrom, List.append_eq_nil_iff] at hnil
      exact ih (Or.inl (needed_of_nextByte hnil.1)) hnil.2

/-- Some bytes read as some text. -/
theorem decode_ne_nil {bytes : List UInt8} (h : bytes ≠ []) : decode bytes ≠ [] :=
  decodeFrom_ne_nil (Or.inr h)

/-! ## ASCII -/

/-- A text of ASCII characters. -/
def IsAscii (cs : List Char) : Prop := ∀ c ∈ cs, c.toNat < 0x80

instance (cs : List Char) : Decidable (IsAscii cs) :=
  List.decidableBAll (fun c : Char => c.toNat < 0x80) cs

theorem IsAscii.append {first second : List Char} (hfirst : IsAscii first)
    (hsecond : IsAscii second) : IsAscii (first ++ second) := by
  intro c hc
  rcases List.mem_append.mp hc with hc | hc
  · exact hfirst c hc
  · exact hsecond c hc

theorem IsAscii.take {cs : List Char} (h : IsAscii cs) (n : Nat) : IsAscii (cs.take n) :=
  fun c hc => h c (List.mem_of_mem_take hc)

/-- ASCII text has as many bytes as characters. -/
theorem IsAscii.encode_eq {cs : List Char} (h : IsAscii cs) :
    encode cs = cs.map fun c => UInt8.ofNat c.toNat := by
  induction cs with
  | nil => rfl
  | cons c rest ih =>
      have hc := h c List.mem_cons_self
      have hrest := ih fun d hd => h d (List.mem_cons_of_mem _ hd)
      change String.utf8EncodeChar c ++ encode rest = _
      have hone : c.val.toNat ≤ 0x7f := Nat.le_of_lt_succ hc
      rw [hrest, String.utf8EncodeChar, if_pos hone]
      rfl

theorem IsAscii.length_encode {cs : List Char} (h : IsAscii cs) :
    (encode cs).length = cs.length := by
  rw [h.encode_eq, List.length_map]

/-- Text whose bytes are below 0x80 is ASCII. -/
theorem isAscii_of_encode {cs : List Char} (h : ∀ b ∈ encode cs, b.toNat < 0x80) :
    IsAscii cs := by
  intro c hc
  by_contra hwide
  have hval : c.val.toNat = c.toNat := rfl
  have hlt := toNat_lt c
  -- The first byte of a longer character is at least 0xc0.
  have hlead : ∃ b ∈ String.utf8EncodeChar c, 0xc0 ≤ b.toNat := by
    unfold String.utf8EncodeChar
    simp only [hval]
    rw [if_neg (by omega)]
    split
    next => exact ⟨_, List.mem_cons_self, by rw [toNat_ofNat_of_lt (by omega)]; omega⟩
    next =>
      split
      next => exact ⟨_, List.mem_cons_self, by rw [toNat_ofNat_of_lt (by omega)]; omega⟩
      next => exact ⟨_, List.mem_cons_self, by rw [toNat_ofNat_of_lt (by omega)]; omega⟩
  obtain ⟨b, hb, hlow⟩ := hlead
  have hsmall := h b (List.mem_flatMap.mpr ⟨c, hc, hb⟩)
  omega

/-- And as many code units. -/
theorem IsAscii.length16_eq {cs : List Char} (h : IsAscii cs) : length16 cs = cs.length := by
  unfold length16
  induction cs with
  | nil => rfl
  | cons c rest ih =>
      have hc := h c List.mem_cons_self
      have hrest := ih fun d hd => h d (List.mem_cons_of_mem _ hd)
      have hone : charUnits c = [c.toNat] := if_pos (by omega)
      change (charUnits c ++ units rest).length = (c :: rest).length
      rw [hone, List.length_append, hrest]
      simp [Nat.add_comm]

/-- Any other text has more bytes than code units. -/
theorem length16_lt_of_not_isAscii {cs : List Char} (h : ¬ IsAscii cs) :
    length16 cs < (encode cs).length := by
  have hchar (c : Char) : (charUnits c).length ≤ (String.utf8EncodeChar c).length ∧
      (¬ c.toNat < 0x80 → (charUnits c).length < (String.utf8EncodeChar c).length) := by
    have hval : c.val.toNat = c.toNat := rfl
    unfold charUnits String.utf8EncodeChar
    simp only [hval]
    split_ifs <;> simp <;> omega
  have hle (cs : List Char) : length16 cs ≤ (encode cs).length := by
    induction cs with
    | nil => exact Nat.le_refl 0
    | cons c rest ih =>
        change (charUnits c ++ units rest).length ≤ (String.utf8EncodeChar c ++ encode rest).length
        rw [List.length_append, List.length_append]
        exact Nat.add_le_add (hchar c).1 ih
  induction cs with
  | nil => exact absurd (fun c hc => absurd hc List.not_mem_nil) h
  | cons c rest ih =>
      change (charUnits c ++ units rest).length < (String.utf8EncodeChar c ++ encode rest).length
      rw [List.length_append, List.length_append]
      by_cases hc : c.toNat < 0x80
      · have hrest : ¬ IsAscii rest := fun hrest =>
          h (List.forall_mem_cons.mpr ⟨hc, hrest⟩)
        exact Nat.add_lt_add_of_le_of_lt (hchar c).1 (ih hrest)
      · exact Nat.add_lt_add_of_lt_of_le ((hchar c).2 hc) (hle rest)

theorem length16_pos {cs : List Char} (h : cs ≠ []) : 0 < length16 cs := by
  cases cs with
  | nil => exact absurd rfl h
  | cons c rest =>
      have hc : 0 < (charUnits c).length := by
        unfold charUnits
        split <;> simp
      change 0 < (charUnits c ++ units rest).length
      rw [List.length_append]
      exact Nat.add_pos_left hc _

theorem length16_append (first second : List Char) :
    length16 (first ++ second) = length16 first + length16 second := by
  simp [length16, units]

/-- A prefix of the bytes of ASCII text is the bytes of a prefix of the text. -/
theorem IsAscii.take_encode {cs : List Char} (h : IsAscii cs) (n : Nat) :
    (encode cs).take n = encode (cs.take n) := by
  rw [h.encode_eq, (h.take n).encode_eq, List.map_take]

end Text
