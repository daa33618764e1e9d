import Erc8415.Foundation.TextEncoding

/-! # Strings of code units

A string is any list of UTF-16 code units, so a surrogate may stand alone. Its
characters are those of the list with every lone surrogate replaced, and these
are all that its UTF-8 bytes keep.
-/

/-- A string as the runtime holds it. -/
abbrev JsText := List UInt16

namespace JsText

/-- The characters of a string, a lone surrogate as the replacement character. -/
def chars (text : JsText) : List Char := Text.ofUnits (text.map UInt16.toNat)

/-- The string of some characters. -/
def ofChars (cs : List Char) : JsText := (Text.units cs).map UInt16.ofNat

/-- `text.toWellFormed()`. -/
def toWellFormed (text : JsText) : JsText := ofChars (chars text)

/-- `Buffer.from(text, 'utf8')`. -/
def utf8 (text : JsText) : List UInt8 := Text.encode (chars text)

theorem units_lt {cs : List Char} {u : Nat} (h : u ∈ Text.units cs) : u < 65536 := by
  obtain ⟨c, _, hu⟩ := List.mem_flatMap.mp h
  have hlt := Text.toNat_lt c
  unfold Text.charUnits at hu
  split at hu
  next hbmp =>
    rw [List.mem_singleton.mp hu]
    omega
  next =>
    simp only [List.mem_cons, List.not_mem_nil, or_false] at hu
    rcases hu with hu | hu <;> omega

@[simp] theorem map_toNat_ofChars (cs : List Char) :
    (ofChars cs).map UInt16.toNat = Text.units cs := by
  have hunit : ∀ u ∈ Text.units cs, (UInt16.toNat ∘ UInt16.ofNat) u = id u := by
    intro u hu
    have hlt := units_lt hu
    simp only [Function.comp_apply, UInt16.toNat_ofNat', id_eq]
    omega
  rw [ofChars, List.map_map, List.map_congr_left hunit, List.map_id]

@[simp] theorem chars_ofChars (cs : List Char) : chars (ofChars cs) = cs := by
  rw [chars, map_toNat_ofChars, Text.ofUnits_units]

theorem ofChars_injective : Function.Injective ofChars :=
  Function.LeftInverse.injective chars_ofChars

@[simp] theorem ofChars_append (first second : List Char) :
    ofChars (first ++ second) = ofChars first ++ ofChars second := by
  simp [ofChars, Text.units]

theorem toWellFormed_inj {text text' : JsText} :
    toWellFormed text = toWellFormed text' ↔ chars text = chars text' :=
  ofChars_injective.eq_iff

theorem utf8_inj {text text' : JsText} : utf8 text = utf8 text' ↔ chars text = chars text' := by
  refine ⟨fun h => ?_, fun h => congrArg Text.encode h⟩
  have hdecoded := congrArg Text.decode h
  simpa only [utf8, Text.decode_encode] using hdecoded

/-! ## Characters of a joined string -/

/-- No pair runs across a boundary whose second side does not begin with a low surrogate. -/
theorem ofUnits_append (front : List Nat) {u : Nat} (hlow : Text.isLowSurrogate u = false)
    (rest : List Nat) :
    Text.ofUnits (front ++ u :: rest) = Text.ofUnits front ++ Text.ofUnits (u :: rest) := by
  induction front using Text.ofUnits.induct with
  | case1 => rfl
  | case2 v => simp [Text.ofUnits, hlow]
  | case3 v w tail hpair ih =>
      simp only [List.cons_append, Text.ofUnits, hpair, if_true]
      rw [ih]
  | case4 v w tail hpair ih =>
      simp only [List.cons_append] at ih
      simp only [List.cons_append, Text.ofUnits, hpair, if_false, Bool.false_eq_true]
      rw [ih]

/-- An ASCII unit splits a string for its reader. -/
theorem chars_append_cons (front : JsText) {u : UInt16} (hascii : u.toNat < 0x80)
    (rest : JsText) : chars (front ++ u :: rest) = chars front ++ chars (u :: rest) := by
  have hlow : Text.isLowSurrogate u.toNat = false := by
    simp only [Text.isLowSurrogate, Bool.and_eq_false_iff, decide_eq_false_iff_not]
    omega
  simp only [chars, List.map_append, List.map_cons]
  exact ofUnits_append _ hlow _

theorem chars_cons {u : UInt16} (hascii : u.toNat < 0x80) (rest : JsText) :
    chars (u :: rest) = Char.ofNat u.toNat :: chars rest := by
  have hhigh : Text.isHighSurrogate u.toNat = false := by
    simp only [Text.isHighSurrogate, Bool.and_eq_false_iff, decide_eq_false_iff_not]
    omega
  have hlow : Text.isLowSurrogate u.toNat = false := by
    simp only [Text.isLowSurrogate, Bool.and_eq_false_iff, decide_eq_false_iff_not]
    omega
  simp [chars, Text.ofUnits_cons_of_not_high hhigh, Text.unitChar, hhigh, hlow]

/-- The characters of ASCII text in front of a string. -/
theorem chars_ofChars_append {front : List Char} (hascii : Text.IsAscii front) (rest : JsText) :
    chars (ofChars front ++ rest) = front ++ chars rest := by
  induction front with
  | nil => rfl
  | cons c tail ih =>
      have hc : c.toNat < 0x80 := hascii c List.mem_cons_self
      have hunit : ofChars [c] = [UInt16.ofNat c.toNat] := by
        have hone : Text.charUnits c = [c.toNat] := if_pos (by omega)
        simp [ofChars, Text.units, hone]
      have hvalue : (UInt16.ofNat c.toNat).toNat = c.toNat := by
        simp only [UInt16.toNat_ofNat']
        omega
      have htail : Text.IsAscii tail := fun d hd => hascii d (List.mem_cons_of_mem _ hd)
      rw [show c :: tail = [c] ++ tail from rfl, ofChars_append, hunit, List.append_assoc,
        List.singleton_append, chars_cons (by omega), ih htail, hvalue, Char.ofNat_toNat]
      rfl

/-- The characters of a string between ASCII texts, and of what follows them. -/
theorem chars_between {front back : List Char} (hfront : Text.IsAscii front)
    (hback : Text.IsAscii back) (hne : back ≠ []) (text rest : JsText) :
    chars (ofChars front ++ (text ++ (ofChars back ++ rest))) =
      front ++ chars text ++ back ++ chars rest := by
  obtain ⟨c, tail, rfl⟩ := List.exists_cons_of_ne_nil hne
  have hc : c.toNat < 0x80 := hback c List.mem_cons_self
  have hhead : ofChars (c :: tail) = UInt16.ofNat c.toNat :: ofChars tail := by
    have hone : Text.charUnits c = [c.toNat] := if_pos (by omega)
    simp [ofChars, Text.units, hone]
  have hunit : (UInt16.ofNat c.toNat).toNat < 0x80 := by
    rw [UInt16.toNat_ofNat']
    omega
  have hsplit : chars (text ++ (ofChars (c :: tail) ++ rest)) =
      chars text ++ chars (ofChars (c :: tail) ++ rest) := by
    rw [hhead, List.cons_append, chars_append_cons text hunit]
  rw [chars_ofChars_append hfront, hsplit, chars_ofChars_append hback, List.append_assoc,
    List.append_assoc]

/-! ## Lengths -/

theorem length_charUnits_unitChar {u : Nat} (hu : u < 65536) :
    (Text.charUnits (Text.unitChar u)).length = 1 := by
  unfold Text.unitChar
  split
  next => rfl
  next hsurrogate =>
    simp only [Text.isHighSurrogate, Text.isLowSurrogate, Bool.or_eq_true, Bool.and_eq_true,
      decide_eq_true_eq, not_or, not_and] at hsurrogate
    have hvalid : u.isValidChar := by
      unfold Nat.isValidChar
      omega
    have hvalue : (Char.ofNat u).toNat = u := by
      rw [Char.ofNat, dif_pos hvalid]
      rfl
    rw [Text.charUnits, if_pos (by omega)]
    rfl

theorem length_charUnits_pair {u v : Nat} (hu : Text.isHighSurrogate u = true)
    (hv : Text.isLowSurrogate v = true) :
    (Text.charUnits (Char.ofNat (0x10000 + (u - 0xd800) * 0x400 + (v - 0xdc00)))).length = 2 := by
  simp only [Text.isHighSurrogate, Text.isLowSurrogate, Bool.and_eq_true, decide_eq_true_eq]
    at hu hv
  have hvalid : (0x10000 + (u - 0xd800) * 0x400 + (v - 0xdc00)).isValidChar := by
    unfold Nat.isValidChar
    omega
  have hvalue : (Char.ofNat (0x10000 + (u - 0xd800) * 0x400 + (v - 0xdc00))).toNat =
      0x10000 + (u - 0xd800) * 0x400 + (v - 0xdc00) := by
    rw [Char.ofNat, dif_pos hvalid]
    rfl
  rw [Text.charUnits, if_neg (by omega)]
  rfl

theorem length16_ofUnits {us : List Nat} (hus : ∀ u ∈ us, u < 65536) :
    Text.length16 (Text.ofUnits us) = us.length := by
  have hcons (c : Char) (cs : List Char) :
      Text.length16 (c :: cs) = (Text.charUnits c).length + Text.length16 cs := by
    simp [Text.length16, Text.units]
  induction us using Text.ofUnits.induct with
  | case1 => rfl
  | case2 u =>
      rw [Text.ofUnits, hcons, length_charUnits_unitChar (hus u List.mem_cons_self)]
      rfl
  | case3 u v rest hpair ih =>
      obtain ⟨hu, hv⟩ := Bool.and_eq_true_iff.mp hpair
      have hrest := ih fun w hw => hus w (List.mem_cons_of_mem _ (List.mem_cons_of_mem _ hw))
      have hlength : (u :: v :: rest).length = 2 + rest.length := Nat.add_comm rest.length 2
      simp only [Text.ofUnits, hpair, if_true]
      rw [hcons, length_charUnits_pair hu hv, hrest, hlength]
  | case4 u v rest hpair ih =>
      have hrest := ih fun w hw => hus w (List.mem_cons_of_mem _ hw)
      simp only [Text.ofUnits, hpair, if_false, Bool.false_eq_true]
      rw [hcons, length_charUnits_unitChar (hus u List.mem_cons_self), hrest]
      exact Nat.add_comm 1 (v :: rest).length

/-- Replacing lone surrogates keeps the length in code units. -/
theorem length16_chars (text : JsText) : Text.length16 (chars text) = text.length := by
  rw [chars, length16_ofUnits, List.length_map]
  intro u hu
  obtain ⟨unit, _, rfl⟩ := List.mem_map.mp hu
  exact unit.toNat_lt

end JsText
