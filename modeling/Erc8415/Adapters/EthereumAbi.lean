import Mathlib.Algebra.Group.Int.Defs
import Mathlib.Data.List.Forall2
import Erc8415.Contracts.RegisterHistory
import Erc8415.Contracts.ProjectionSettlement
import Erc8415.Foundation.FixedWidth
import Erc8415.Foundation.TextEncoding
import Erc8415.Proof.Binding

/-! # Calldata and returndata

The text of a call is its selector and one word for each argument, and what a
call returns is read back word by word. Text wider than a word is refused; a
`bigint` wider than one is not, and every argument behind it is read at the
wrong place.
-/

namespace Erc8415

/-! ## Selectors -/

namespace Selector

def currentEntry : String := "0xab041ef4"

def entryAt : String := "0xf6752412"

def entryAsOf : String := "0x7fc43f3a"

def holderAsOf : String := "0x013c5d9c"

def isFinalAsOf : String := "0xe6591ac9"

def entryCount : String := "0x1d1b039c"

def registerId : String := "0xbbc2a065"

def openGapOf : String := "0x819dc64f"

def verificationProfile : String := "0x43396e0a"

def settlementPeriod : String := "0x0f1071be"

def isSettlementAuthority : String := "0xdb966382"

def supportsInterface : String := "0x01ffc9a7"

/-- The values of `SELECTOR`. -/
def all : List String :=
  [currentEntry, entryAt, entryAsOf, holderAsOf, isFinalAsOf, entryCount, registerId, openGapOf,
    verificationProfile, settlementPeriod, isSettlementAuthority, supportsInterface]

end Selector

/-- An argument of a call: `bigint | string`. -/
inductive CallArg where
  | bigint (value : Int)
  | text (value : String)
  deriving DecidableEq, Repr

namespace EthereumAbi

/-- `hex.replace(/^0x/, '')`. -/
def strip (hex : String) : String :=
  match hex.toList with
  | '0' :: 'x' :: digits => String.ofList digits
  | _ => hex

/-- `text.padStart(64, '0')`. -/
def padWord (text : List Char) : List Char :=
  List.replicate (64 - Text.length16 text) '0' ++ text

/-- `parts.join('')`. -/
def joined (parts : List String) : String := String.ofList (parts.map String.toList).flatten

/-! ## Encoding -/

def word : CallArg → Except Thrown String
  | .bigint value =>
      if value < 0 then .error (.error "cannot encode a negative value")
      else .ok (String.ofList (padWord (Nat.toDigits 16 value.toNat)))
  | .text value =>
      let bare := (toLowerCase (strip value)).toList
      if Text.length16 bare > 64 then .error (.error "value is wider than one word")
      else .ok (String.ofList (padWord bare))

def encodeCall (selector : String) (args : List CallArg) : Except Thrown String := do
  let slots ← args.mapM word
  return selector ++ joined slots

/-! ## Decoding -/

/-- Split a returndata blob into 32-byte words. -/
def words (data : String) : Except Thrown (List String) :=
  let bare := Text.units (strip data).toList
  if bare.length % 64 ≠ 0 then .error (.error "returndata is not a whole number of words")
  else .ok ((FixedWidth.slices 64 bare).map fun slot => String.ofList (Text.ofUnits slot))

def toBigInt (slot : String) : Except Thrown Int :=
  match BigIntText.parse ("0x" ++ slot) with
  | some n => .ok n
  | none => .error (.error s!"Cannot convert 0x{slot} to a BigInt")

def toBytes32 (slot : String) : Bytes32 := "0x" ++ slot

def toAddress (slot : String) : Address :=
  "0x" ++ String.ofList (Text.ofUnits ((Text.units slot.toList).drop 24))

def decodeEntry (data : String) : Except Thrown ProjectionEntry := do
  let slots ← words data
  match slots with
  | recordCommitment :: previousCommitment :: registryReference :: holder :: version ::
      effectiveAt :: supersededAt :: _ =>
      return {
        recordCommitment := toBytes32 recordCommitment
        previousCommitment := toBytes32 previousCommitment
        registryReference := toBytes32 registryReference
        holder := toAddress holder
        version := ← toBigInt version
        effectiveAt := ← toBigInt effectiveAt
        supersededAt := ← toBigInt supersededAt }
  | _ => .error (.error s!"expected 7 words of entry, got {slots.length}")

/-! ## Arguments and their words -/

end EthereumAbi

open EthereumAbi BigIntText

/-- `0x` and hexadecimal digits, of either case and at least one. -/
def IsHexText (value : String) : Prop :=
  ∃ digits : List Char, value.toList = '0' :: 'x' :: digits ∧ digits ≠ [] ∧
    ∀ c ∈ digits, isHex c = true

namespace CallArg

/-- A `bigint`, or hex text. -/
def Typed : CallArg → Prop
  | bigint _ => True
  | text value => IsHexText value

/-- The number an argument is. -/
def value : CallArg → Option Int
  | bigint n => some n
  | text s => BigIntText.parse s

/-- A negative number, or text of more digits than a word has. -/
def Refused : CallArg → Prop
  | bigint n => n < 0
  | text s => 64 < (strip s).length

/-- A number that takes more than a word. -/
def Wide : CallArg → Prop
  | bigint n => 2 ^ 256 ≤ n
  | text _ => False

end CallArg

namespace EthereumAbi

/-- Sixty-four digits that write an argument. -/
structure WordOf (arg : CallArg) (slot : String) : Prop where
  length : slot.length = 64
  digits : ∀ c ∈ slot.toList, isHex c = true
  value : ∃ n, arg.value = some n ∧ toBigInt slot = .ok n

/-- What a call is encoded to, unless it is refused: its selector and a word for each argument,
which are the words of what follows the selector. -/
def ExactCall (selector : String) (args : List CallArg) : Prop :=
  ∀ data, encodeCall selector args = .ok data →
    ∃ slots, data = selector ++ joined slots ∧ List.Forall₂ WordOf args slots ∧
      words ("0x" ++ joined slots) = .ok slots

/-- Two calls that are both encoded exactly, and to different data unless they have the same
values. -/
def ExactCalls (selector : String) (args args' : List CallArg) : Prop :=
  ExactCall selector args ∧ ExactCall selector args' ∧
    ∀ data, encodeCall selector args = .ok data → encodeCall selector args' = .ok data →
      args.map CallArg.value = args'.map CallArg.value

/-- Some argument is refused, or none is wide. -/
def Fits (args : List CallArg) : Prop :=
  (∃ arg ∈ args, arg.Refused) ∨ ∀ arg ∈ args, ¬ arg.Wide

/-! ## One word -/

theorem isAscii_of_isHex {cs : List Char} (h : ∀ c ∈ cs, isHex c = true) :
    Text.IsAscii cs := fun c hc => isHex_lt (h c hc)

theorem isHex_toLower {c : Char} (h : isHex c = true) :
    digitValue 16 c.toLower = digitValue 16 c := by
  have hall : ∀ n < 128, isHex (Char.ofNat n) = true →
      digitValue 16 (Char.ofNat n).toLower = digitValue 16 (Char.ofNat n) := by decide +kernel
  have hc := hall c.toNat (isHex_lt h)
  rw [Char.ofNat_toNat] at hc
  exact hc h

/-- Lowercase digits write the same number. -/
theorem foldDigits_toLower {digits : List Char} (h : ∀ c ∈ digits, isHex c = true)
    (init : Nat) : foldDigits 16 (digits.map Char.toLower) init = foldDigits 16 digits init := by
  induction digits generalizing init with
  | nil => rfl
  | cons c rest ih =>
      rw [List.map_cons, foldDigits, foldDigits, isHex_toLower (h c List.mem_cons_self)]
      apply Option.bind_congr
      intro v _
      exact ih (fun d hd => h d (List.mem_cons_of_mem _ hd)) _

theorem isHex_toDigits {n : Nat} {c : Char} (h : c ∈ Nat.toDigits 16 n) :
    isHex c = true := by
  induction n using Nat.strongRecOn with
  | ind n ih =>
      have hdigit {m : Nat} (hm : m < 16) : isHex (Nat.digitChar m) = true := by
        rw [isHex, digitValue_digitChar hm]
        rfl
      by_cases hlt : n < 16
      · rw [Nat.toDigits_of_lt_base hlt, List.mem_singleton] at h
        rw [h]
        exact hdigit hlt
      · rw [Nat.toDigits_of_base_le (by decide) (Nat.not_lt.mp hlt), List.mem_append,
          List.mem_singleton] at h
        rcases h with h | rfl
        · exact ih (n / 16) (by omega) h
        · exact hdigit (Nat.mod_lt _ (by decide))

/-- What the digits of a word come to. -/
theorem toBigInt_ofList {digits : List Char} (hne : digits ≠ [])
    (h : ∀ c ∈ digits, isHex c = true) {n : Nat} (hn : foldDigits 16 digits 0 = some n) :
    toBigInt (String.ofList digits) = .ok n := by
  have htext : "0x" ++ String.ofList digits = String.ofList ('0' :: 'x' :: digits) := by
    apply String.toList_injective
    simp
  rw [toBigInt, htext, parse_hex hne h, hn]
  rfl

section Pad

variable {text : List Char} (h : ∀ c ∈ text, isHex c = true)

include h

theorem isHex_padWord : ∀ c ∈ padWord text, isHex c = true := by
  intro c hc
  rw [padWord, List.mem_append] at hc
  rcases hc with hc | hc
  · rw [List.eq_of_mem_replicate hc]
    decide
  · exact h c hc

theorem length_padWord : (padWord text).length = max 64 text.length := by
  rw [padWord, (isAscii_of_isHex h).length16_eq, List.length_append, List.length_replicate]
  omega

/-- Padding makes a word of a number's digits. -/
theorem toBigInt_padWord {n : Nat} (hn : foldDigits 16 text 0 = some n) :
    toBigInt (String.ofList (padWord text)) = .ok n := by
  have hlength := length_padWord h
  apply toBigInt_ofList
  · intro hnil
    rw [hnil, List.length_nil] at hlength
    omega
  · exact isHex_padWord h
  · rw [padWord, foldDigits_zeros, hn]

end Pad

/-- A number has more digits than a word if it takes more than a word. -/
theorem length_toDigits_le {n : Int} (hn : 0 ≤ n) :
    (Nat.toDigits 16 n.toNat).length ≤ 64 ↔ ¬ 2 ^ 256 ≤ n := by
  have hpow : (16 : Nat) ^ 64 = 2 ^ 256 := by decide
  rw [Nat.length_toDigits_le_iff (by decide) (by decide), hpow]
  omega

theorem strip_of_toList {value : String} {digits : List Char}
    (h : value.toList = '0' :: 'x' :: digits) : strip value = String.ofList digits := by
  rw [strip, h]
  rfl

/-- The digits of hex text, and their lowercase form. -/
theorem digits_of_isHexText {s : String} (h : IsHexText s) :
    ∃ digits : List Char, s.toList = '0' :: 'x' :: digits ∧ digits ≠ [] ∧
      (∀ c ∈ digits, isHex c = true) ∧ (strip s).length = digits.length ∧
      (toLowerCase (strip s)).toList = digits.map Char.toLower ∧
      ∀ c ∈ digits.map Char.toLower, isHex c = true := by
  obtain ⟨digits, hs, hne, hdigits⟩ := h
  refine ⟨digits, hs, hne, hdigits, ?_, ?_, ?_⟩
  · rw [strip_of_toList hs, ← String.length_toList, String.toList_ofList]
  · rw [strip_of_toList hs, toLowerCase, String.toList_ofList, String.toList_ofList]
  · intro c hc
    obtain ⟨d, hd, rfl⟩ := List.mem_map.mp hc
    rw [isHex, isHex_toLower (hdigits d hd)]
    exact hdigits d hd

/-- The word of an argument: digits of its number, and more than a word's only if it is wide. -/
theorem word_spec {arg : CallArg} (harg : arg.Typed) {slot : String} (h : word arg = .ok slot) :
    (∀ c ∈ slot.toList, isHex c = true) ∧ 64 ≤ slot.length ∧
      (slot.length ≤ 64 ↔ ¬ arg.Wide) ∧ ∃ n, arg.value = some n ∧ toBigInt slot = .ok n := by
  cases arg with
  | bigint n =>
      rw [word] at h
      split_ifs at h with hneg
      cases h
      have hdigits : ∀ c ∈ Nat.toDigits 16 n.toNat, isHex c = true :=
        fun c hc => isHex_toDigits hc
      have hvalue := toBigInt_padWord hdigits (foldDigits_toDigits n.toNat)
      rw [Int.toNat_of_nonneg (not_lt.mp hneg)] at hvalue
      rw [String.toList_ofList, ← String.length_toList, String.toList_ofList,
        length_padWord hdigits]
      refine ⟨isHex_padWord hdigits, Nat.le_max_left _ _, ?_, n, rfl, hvalue⟩
      rw [CallArg.Wide, ← length_toDigits_le (not_lt.mp hneg)]
      omega
  | text s =>
      obtain ⟨digits, hs, hne, hdigits, _, hlower, hlowerDigits⟩ := digits_of_isHexText harg
      rw [word, hlower] at h
      split_ifs at h with hwide
      cases h
      rw [(isAscii_of_isHex hlowerDigits).length16_eq] at hwide
      obtain ⟨n, hn⟩ := exists_foldDigits hdigits 0
      have hvalue := toBigInt_padWord hlowerDigits ((foldDigits_toLower hdigits 0).trans hn)
      have hparse : BigIntText.parse s = some (n : Int) := by
        rw [← String.ofList_toList (s := s), hs, parse_hex hne hdigits, hn]
        rfl
      rw [String.toList_ofList, ← String.length_toList, String.toList_ofList,
        length_padWord hlowerDigits]
      refine ⟨isHex_padWord hlowerDigits, Nat.le_max_left _ _, ?_, n, hparse, hvalue⟩
      simp only [CallArg.Wide, not_false_eq_true, iff_true]
      omega

/-- An argument has a word unless it is refused. -/
theorem exists_word_iff {arg : CallArg} (harg : arg.Typed) :
    (∃ slot, word arg = .ok slot) ↔ ¬ arg.Refused := by
  cases arg with
  | bigint n =>
      rw [word, CallArg.Refused]
      split_ifs with hneg
      · simp [hneg]
      · simp [hneg]
  | text s =>
      obtain ⟨digits, _, _, _, hlength, hlower, hlowerDigits⟩ := digits_of_isHexText harg
      rw [word, hlower, CallArg.Refused, hlength,
        (isAscii_of_isHex hlowerDigits).length16_eq, List.length_map]
      split_ifs with hwide
      · simp [hwide]
      · simp [hwide]

/-! ## Calls -/

theorem mapM_word_eq_ok {args : List CallArg} {slots : List String} :
    args.mapM word = .ok slots ↔ List.Forall₂ (fun arg slot => word arg = .ok slot) args slots := by
  induction args generalizing slots with
  | nil => simp [pure, Except.pure, eq_comm]
  | cons arg rest ih =>
      simp only [List.mapM_cons, bind_eq_ok, ih, List.forall₂_cons_left_iff]
      constructor
      · rintro ⟨slot, hslot, slots', hslots, heq⟩
        cases heq
        exact ⟨slot, slots', hslot, hslots, rfl⟩
      · rintro ⟨slot, slots', hslot, hslots, rfl⟩
        exact ⟨slot, hslot, slots', hslots, rfl⟩

theorem encodeCall_eq_ok {selector data : String} {args : List CallArg} :
    encodeCall selector args = .ok data ↔
      ∃ slots, List.Forall₂ (fun arg slot => word arg = .ok slot) args slots ∧
        data = selector ++ joined slots := by
  simp only [encodeCall, bind_eq_ok, mapM_word_eq_ok, pure, Except.pure, Except.ok.injEq,
    eq_comm (a := data)]

/-- A call of typed arguments is encoded unless one of them is refused. -/
theorem exists_encodeCall_iff {selector : String} {args : List CallArg}
    (htyped : ∀ arg ∈ args, arg.Typed) :
    (∃ data, encodeCall selector args = .ok data) ↔ ¬ ∃ arg ∈ args, arg.Refused := by
  constructor
  · rintro ⟨data, h⟩ ⟨arg, harg, hrefused⟩
    obtain ⟨slots, hslots, _⟩ := encodeCall_eq_ok.mp h
    obtain ⟨i, hi, rfl⟩ := List.mem_iff_getElem.mp harg
    have hslot := hslots.get hi (hslots.length_eq ▸ hi)
    exact (exists_word_iff (htyped _ harg)).mp ⟨_, hslot⟩ hrefused
  · intro h
    have hslots : ∃ slots, List.Forall₂ (fun arg slot => word arg = .ok slot) args slots := by
      induction args with
      | nil => exact ⟨[], .nil⟩
      | cons arg rest ih =>
          rw [List.exists_mem_cons_iff, not_or] at h
          rw [List.forall_mem_cons] at htyped
          obtain ⟨slot, hslot⟩ := (exists_word_iff htyped.1).mpr h.1
          obtain ⟨slots, hslots⟩ := ih htyped.2 h.2
          exact ⟨slot :: slots, .cons hslot hslots⟩
    obtain ⟨slots, hslots⟩ := hslots
    exact ⟨_, encodeCall_eq_ok.mpr ⟨slots, hslots, rfl⟩⟩

/-- Words are read back from their text. -/
theorem words_joined {slots : List String} (hlength : ∀ slot ∈ slots, slot.length = 64)
    (hdigits : ∀ slot ∈ slots, ∀ c ∈ slot.toList, isHex c = true) :
    words ("0x" ++ joined slots) = .ok slots := by
  have htext : ("0x" ++ joined slots).toList =
      '0' :: 'x' :: (slots.map String.toList).flatten := by
    simp [joined]
  have hunits : Text.units (slots.map String.toList).flatten =
      (slots.map fun slot => Text.units slot.toList).flatten := by
    simp only [Text.units, List.flatMap_def, List.map_flatten, List.map_map, List.flatten_flatten]
    rfl
  have hpieces : ∀ piece ∈ slots.map fun slot => Text.units slot.toList,
      piece.length = 64 := by
    intro piece hpiece
    obtain ⟨slot, hslot, rfl⟩ := List.mem_map.mp hpiece
    have hslotAscii := isAscii_of_isHex (hdigits slot hslot)
    rw [← Text.length16, hslotAscii.length16_eq, String.length_toList, hlength slot hslot]
  have hwhole := FixedWidth.length_flatten hpieces
  rw [words, strip_of_toList htext, String.toList_ofList]
  simp only [hunits, hwhole, Nat.mul_mod_right, ne_eq, not_true_eq_false, if_false,
    FixedWidth.slices_flatten (by decide) hpieces, List.map_map, Function.comp_def,
    Text.ofUnits_units, String.ofList_toList, List.map_id']

/-- Words are at least sixty-four digits each, and more where an argument is wide. -/
theorem length_encoded {args : List CallArg} {slots : List String}
    (htyped : ∀ arg ∈ args, arg.Typed)
    (h : List.Forall₂ (fun arg slot => word arg = .ok slot) args slots) :
    64 * args.length ≤ (joined slots).length ∧
      ((joined slots).length ≤ 64 * args.length → ∀ arg ∈ args, ¬ arg.Wide) := by
  simp only [joined, ← String.length_toList, String.toList_ofList]
  induction h with
  | nil => exact ⟨Nat.le_refl _, fun _ => nofun⟩
  | cons hslot _ ih =>
      rw [List.forall_mem_cons] at htyped
      obtain ⟨hlow, hhigh⟩ := ih htyped.2
      obtain ⟨_, hword, hwide, _⟩ := word_spec htyped.1 hslot
      rw [← String.length_toList] at hword hwide
      simp only [List.map_cons, List.flatten_cons, List.length_append, List.length_cons]
      refine ⟨by omega, fun hle => ?_⟩
      rw [List.forall_mem_cons]
      exact ⟨hwide.mp (by omega), hhigh (by omega)⟩

theorem forall_wordOf {args : List CallArg} {slots : List String}
    (htyped : ∀ arg ∈ args, arg.Typed) (hwide : ∀ arg ∈ args, ¬ arg.Wide)
    (h : List.Forall₂ (fun arg slot => word arg = .ok slot) args slots) :
    List.Forall₂ WordOf args slots := by
  induction h with
  | nil => exact .nil
  | cons hslot _ ih =>
      rw [List.forall_mem_cons] at htyped hwide
      obtain ⟨hdigits, hlow, hhigh, hvalue⟩ := word_spec htyped.1 hslot
      exact .cons ⟨Nat.le_antisymm (hhigh.mpr hwide.1) hlow, hdigits, hvalue⟩
        (ih htyped.2 hwide.2)

/-- Words of arguments are sixty-four digits each. -/
theorem forall_slots {args : List CallArg} {slots : List String}
    (h : List.Forall₂ WordOf args slots) :
    (∀ slot ∈ slots, slot.length = 64) ∧
      ∀ slot ∈ slots, ∀ c ∈ slot.toList, isHex c = true := by
  induction h with
  | nil => exact ⟨nofun, nofun⟩
  | cons hslot _ ih =>
      exact ⟨List.forall_mem_cons.mpr ⟨hslot.length, ih.1⟩,
        List.forall_mem_cons.mpr ⟨hslot.digits, ih.2⟩⟩

theorem values_eq {args : List CallArg} {slots : List String}
    (h : List.Forall₂ WordOf args slots) :
    args.map CallArg.value = slots.map fun slot => (toBigInt slot).toOption := by
  induction h with
  | nil => rfl
  | cons hslot _ ih =>
      obtain ⟨n, hn, hslot⟩ := hslot.value
      rw [List.map_cons, List.map_cons, hn, hslot, ih]
      rfl

/-- A call is encoded exactly if some argument is refused or none is wide, and only then. -/
theorem exactCall_iff {selector : String} {args : List CallArg}
    (htyped : ∀ arg ∈ args, arg.Typed) : ExactCall selector args ↔ Fits args := by
  constructor
  · intro h
    by_cases hrefused : ∃ arg ∈ args, arg.Refused
    · exact Or.inl hrefused
    · obtain ⟨data, hdata⟩ := (exists_encodeCall_iff htyped).mpr hrefused
      obtain ⟨slots, hslots, hjoined⟩ := encodeCall_eq_ok.mp hdata
      obtain ⟨exact', heq, hexact, _⟩ := h data hdata
      have hsame : joined slots = joined exact' := by
        rw [hjoined] at heq
        exact String.append_right_inj _ |>.mp heq
      have hlength : (joined exact').length = 64 * args.length := by
        have hpieces : ∀ piece ∈ exact'.map String.toList, piece.length = 64 := by
          intro piece hpiece
          obtain ⟨slot, hslot, rfl⟩ := List.mem_map.mp hpiece
          rw [String.length_toList]
          exact (forall_slots hexact).1 slot hslot
        rw [joined, ← String.length_toList, String.toList_ofList, FixedWidth.length_flatten hpieces,
          List.length_map, hexact.length_eq]
      refine Or.inr ((length_encoded htyped hslots).2 ?_)
      rw [hsame, hlength]
  · intro h data hdata
    have hnone := (exists_encodeCall_iff htyped).mp ⟨data, hdata⟩
    obtain ⟨slots, hslots, rfl⟩ := encodeCall_eq_ok.mp hdata
    have hexact := forall_wordOf htyped (h.resolve_left hnone) hslots
    obtain ⟨hlength, hdigits⟩ := forall_slots hexact
    exact ⟨slots, rfl, hexact, words_joined hlength hdigits⟩

theorem exactCalls_iff {selector : String} {args args' : List CallArg}
    (htyped : ∀ arg ∈ args, arg.Typed) (htyped' : ∀ arg ∈ args', arg.Typed) :
    ExactCalls selector args args' ↔ Fits args ∧ Fits args' := by
  constructor
  · rintro ⟨h, h', _⟩
    exact ⟨(exactCall_iff htyped).mp h, (exactCall_iff htyped').mp h'⟩
  · rintro ⟨h, h'⟩
    have hexact : ExactCall selector args := (exactCall_iff htyped).mpr h
    have hexact' : ExactCall selector args' := (exactCall_iff htyped').mpr h'
    refine ⟨hexact, hexact', fun data hdata hdata' => ?_⟩
    obtain ⟨slots, rfl, hslots, hwords⟩ := hexact data hdata
    obtain ⟨slots', heq, hslots', hwords'⟩ := hexact' _ hdata'
    rw [String.append_right_inj] at heq
    rw [heq, hwords', Except.ok.injEq] at hwords
    rw [values_eq hslots, values_eq hslots', hwords]

/-! ## Entries -/

/-- Fields of 32 bytes, of 20 bytes and of 64 bits. -/
structure Sized (entry : ProjectionEntry) : Prop where
  recordCommitment : isBytes32 entry.recordCommitment = true
  previousCommitment : isBytes32 entry.previousCommitment = true
  registryReference : isBytes32 entry.registryReference = true
  holder : isAddress entry.holder = true
  version : isUint64 entry.version = true
  effectiveAt : isUint64 entry.effectiveAt = true
  supersededAt : isUint64 entry.supersededAt = true

/-- A number in a word of its own. -/
def numberSlot (n : Int) : String := String.ofList (Hex.ofNat 64 n.toNat)

/-- An account in a word of its own. -/
def addressSlot (account : Address) : String :=
  String.ofList (List.replicate 24 '0' ++ (strip account).toList)

/-- The seven words of an entry, in field order. -/
def entrySlots (entry : ProjectionEntry) : List String := [
  strip entry.recordCommitment,
  strip entry.previousCommitment,
  strip entry.registryReference,
  addressSlot entry.holder,
  numberSlot entry.version,
  numberSlot entry.effectiveAt,
  numberSlot entry.supersededAt]

/-- The ABI layout of an entry. -/
def abiLayout (entry : ProjectionEntry) : String := "0x" ++ joined (entrySlots entry)

theorem isHex_of_isLowerHex {c : Char} (h : isLowerHex c = true) : isHex c = true := by
  simp only [isLowerHex, Bool.or_eq_true, Bool.and_eq_true, decide_eq_true_eq] at h
  rcases h with h | h
  · have hlow : 48 ≤ c.toNat := h.1
    have hhigh : c.toNat ≤ 57 := h.2
    have hlt : c.toNat - 48 < 16 := by omega
    simp [isHex, digitValue, h, Option.filter, hlt]
  · have hlow : 97 ≤ c.toNat := h.1
    have hhigh : c.toNat ≤ 102 := h.2
    have hnot : ¬ ('0' ≤ c ∧ c ≤ '9') := by
      rintro ⟨_, hle⟩
      have hle : c.toNat ≤ 57 := hle
      omega
    have hlt : c.toNat - 97 + 10 < 16 := by omega
    simp [isHex, digitValue, h, hnot, Option.filter, hlt]

/-- Hex text is `0x` and its digits. -/
theorem isHexWord_strip {digits : Nat} {value : String} (h : isHexWord digits value = true) :
    value = "0x" ++ strip value ∧ (strip value).length = digits ∧
      ∀ c ∈ (strip value).toList, isHex c = true := by
  unfold isHexWord at h
  split at h
  next rest heq =>
    rw [Bool.and_eq_true, beq_iff_eq, List.all_eq_true] at h
    rw [strip_of_toList heq, ← String.length_toList, String.toList_ofList]
    refine ⟨?_, h.1, fun c hc => isHex_of_isLowerHex (h.2 c hc)⟩
    apply String.toList_injective
    simp [heq]
  next => cases h

theorem foldDigits_ofNat {width n : Nat} (h : n < 16 ^ width) :
    foldDigits 16 (Hex.ofNat width n) 0 = some n := by
  induction width generalizing n with
  | zero =>
      rw [Nat.pow_zero, Nat.lt_one_iff] at h
      rw [h]
      rfl
  | succ width ih =>
      have hdigit : ∀ d : Fin 16, digitValue 16 (Hex.digit d.val) = some d.val := by decide
      rw [Nat.pow_succ] at h
      rw [Hex.ofNat, foldDigits_append, ih (Nat.div_lt_of_lt_mul (by omega)), Option.bind_some,
        foldDigits, hdigit ⟨n % 16, Nat.mod_lt _ (by decide)⟩, Option.bind_some, foldDigits,
        Nat.div_add_mod]

theorem numberSlot_spec {n : Int} (h : isUint64 n = true) :
    toBigInt (numberSlot n) = .ok n ∧ (numberSlot n).length = 64 ∧
      ∀ c ∈ (numberSlot n).toList, isHex c = true := by
  obtain ⟨hlow, hhigh⟩ := isUint64_eq_true.mp h
  have hfits : n.toNat < 16 ^ 64 := by
    have hpow : uint64Max.toNat < 16 ^ 64 := by decide
    omega
  have hdigits : ∀ c ∈ Hex.ofNat 64 n.toNat, isHex c = true := by
    intro c hc
    obtain ⟨d, hd, rfl⟩ := Hex.mem_ofNat hc
    exact isHex_of_isLowerHex (Hex.digit_isLower hd)
  have hne : Hex.ofNat 64 n.toNat ≠ [] := by
    rw [← List.length_pos_iff_ne_nil, Hex.length_ofNat]
    decide
  refine ⟨?_, ?_, ?_⟩
  · rw [numberSlot, toBigInt_ofList hne hdigits (foldDigits_ofNat hfits),
      Int.toNat_of_nonneg hlow]
  · rw [numberSlot, ← String.length_toList, String.toList_ofList, Hex.length_ofNat]
  · rw [numberSlot, String.toList_ofList]
    exact hdigits

theorem addressSlot_spec {account : Address} (h : isAddress account = true) :
    toAddress (addressSlot account) = account ∧ (addressSlot account).length = 64 ∧
      ∀ c ∈ (addressSlot account).toList, isHex c = true := by
  obtain ⟨heq, hlength, hdigits⟩ := isHexWord_strip h
  have hunits : Text.units (addressSlot account).toList =
      List.replicate 24 48 ++ Text.units (strip account).toList := by
    rw [addressSlot, String.toList_ofList, Text.units, List.flatMap_append]
    rfl
  refine ⟨?_, ?_, ?_⟩
  · rw [toAddress, hunits, List.drop_left' (List.length_replicate ..), Text.ofUnits_units,
      String.ofList_toList, ← heq]
  · rw [addressSlot, ← String.length_toList, String.toList_ofList, List.length_append,
      List.length_replicate, String.length_toList, hlength]
  · rw [addressSlot, String.toList_ofList]
    intro c hc
    rcases List.mem_append.mp hc with hc | hc
    · rw [List.eq_of_mem_replicate hc]
      decide
    · exact hdigits c hc

/-- An entry is read back from its layout. -/
theorem decodeEntry_abiLayout {entry : ProjectionEntry} (h : Sized entry) :
    decodeEntry (abiLayout entry) = .ok entry := by
  obtain ⟨hrecord, hrecordLength, hrecordDigits⟩ := isHexWord_strip h.recordCommitment
  obtain ⟨hprevious, hpreviousLength, hpreviousDigits⟩ := isHexWord_strip h.previousCommitment
  obtain ⟨hreference, hreferenceLength, hreferenceDigits⟩ := isHexWord_strip h.registryReference
  obtain ⟨hholder, hholderLength, hholderDigits⟩ := addressSlot_spec h.holder
  obtain ⟨hversion, hversionLength, hversionDigits⟩ := numberSlot_spec h.version
  obtain ⟨heffective, heffectiveLength, heffectiveDigits⟩ := numberSlot_spec h.effectiveAt
  obtain ⟨hsuperseded, hsupersededLength, hsupersededDigits⟩ := numberSlot_spec h.supersededAt
  have hwords : words (abiLayout entry) = .ok (entrySlots entry) := by
    apply words_joined
    · simp only [entrySlots, List.forall_mem_cons]
      exact ⟨hrecordLength, hpreviousLength, hreferenceLength, hholderLength, hversionLength,
        heffectiveLength, hsupersededLength, nofun⟩
    · simp only [entrySlots, List.forall_mem_cons]
      exact ⟨hrecordDigits, hpreviousDigits, hreferenceDigits, hholderDigits, hversionDigits,
        heffectiveDigits, hsupersededDigits, nofun⟩
  rw [decodeEntry, hwords]
  simp only [entrySlots, bind, Except.bind, pure, Except.pure, hversion, heffective, hsuperseded,
    hholder, toBytes32, ← hrecord, ← hprevious, ← hreference]

/-- Fewer digits than seven words have are refused. -/
theorem decodeEntry_of_short {data : String}
    (h : Text.length16 (strip data).toList < 7 * 64) :
    ∃ thrown, decodeEntry data = .error thrown := by
  rw [Text.length16] at h
  by_cases hwhole : (Text.units (strip data).toList).length % 64 = 0
  · obtain ⟨slots, hslots, hfew⟩ : ∃ slots, words data = .ok slots ∧ slots.length < 7 := by
      refine ⟨_, if_neg (not_not.mpr hwhole), ?_⟩
      rw [List.length_map, FixedWidth.slices, List.length_map, List.length_range]
      omega
    refine ⟨.error s!"expected 7 words of entry, got {slots.length}", ?_⟩
    rw [decodeEntry, hslots]
    simp only [bind, Except.bind]
    split
    next =>
      simp only [List.length_cons] at hfew
      omega
    next => rfl
  · refine ⟨.error "returndata is not a whole number of words", ?_⟩
    rw [decodeEntry, words]
    simp only [ne_eq, hwhole, not_false_eq_true, if_true, bind, Except.bind]

/-! ## The layout the contract returns -/

theorem ofBytes_bigEndian (n count : Nat) :
    Hex.ofBytes (Sha256.bigEndian n count) = Hex.ofNat (2 * count) n := by
  induction count generalizing n with
  | zero => rfl
  | succ count ih =>
      have hhigh : n % 256 / 16 = n / 16 % 16 := by omega
      have hlow : n % 256 % 16 = n % 16 := by omega
      have htop : n / 16 / 16 = n / 256 := by omega
      rw [Sha256.bigEndian, Hex.ofBytes, List.flatMap_append, ← Hex.ofBytes, ih, Nat.mul_succ,
        Hex.ofNat, Hex.ofNat, htop, List.append_assoc]
      simp only [List.flatMap_cons, List.flatMap_nil, Hex.ofByte, UInt8.toNat_ofNat', hhigh, hlow]
      rfl

theorem ofNat_add {width n : Nat} (h : n < 16 ^ width) (count : Nat) :
    Hex.ofNat (count + width) n = List.replicate count '0' ++ Hex.ofNat width n := by
  induction width generalizing n with
  | zero =>
      rw [Nat.pow_zero, Nat.lt_one_iff] at h
      subst h
      induction count with
      | zero => rfl
      | succ count ih =>
          have hlast : Hex.ofNat (count + 1) 0 = Hex.ofNat count 0 ++ ['0'] := rfl
          rw [Nat.add_zero] at ih ⊢
          rw [hlast, ih, List.replicate_succ', Hex.ofNat, List.append_nil, List.append_nil]
  | succ width ih =>
      rw [Nat.pow_succ] at h
      rw [← Nat.add_assoc, Hex.ofNat, ih (Nat.div_lt_of_lt_mul (by omega)), Hex.ofNat,
        List.append_assoc]

/-- The words of an entry of the register contract, in the order of its struct. -/
def registerWords (entry : Contracts.RegisterEntry) : List Contracts.Bytes32 :=
  [entry.recordCommitment, entry.previousCommitment, entry.registryReference,
    entry.holder.setWidth 256, entry.version.setWidth 256, entry.effectiveAt.setWidth 256,
    entry.supersededAt.setWidth 256]

theorem strip_hexText (digits : Nat) {w : Nat} (word : BitVec w) :
    strip (Contracts.hexText digits word) = String.ofList (Hex.ofNat digits word.toNat) :=
  strip_of_toList (String.toList_ofList ..)

theorem addressSlot_addressText (account : Contracts.Address) :
    addressSlot (Contracts.addressText account) = String.ofList (Hex.ofNat 64 account.toNat) := by
  have hlt : account.toNat < 16 ^ 40 := lt_of_lt_of_eq account.isLt (by decide)
  rw [addressSlot, Contracts.addressText, strip_hexText, String.toList_ofList,
    ← ofNat_add hlt 24]

theorem toNat_setWidth_word {w : Nat} (hw : w ≤ 256) (n : BitVec w) :
    (n.setWidth 256).toNat = n.toNat := by
  rw [BitVec.toNat_setWidth]
  exact Nat.mod_eq_of_lt (lt_of_lt_of_le n.isLt (Nat.pow_le_pow_right (by decide) hw))

/-- The contract's `abi.encode` of a stored entry is the layout of its text. -/
theorem hexText_abiEncode (entry : Contracts.RegisterEntry) :
    hexText (Contracts.abiEncode (registerWords entry)) = abiLayout entry.projected := by
  have hwords : Hex.ofBytes (Contracts.abiEncode (registerWords entry)) =
      (registerWords entry).flatMap fun word => Hex.ofNat 64 word.toNat := by
    rw [Hex.ofBytes, Contracts.abiEncode, List.flatMap_assoc]
    apply List.flatMap_congr
    intro word _
    exact ofBytes_bigEndian word.toNat 32
  rw [hexText, hwords, abiLayout]
  simp only [joined, entrySlots, registerWords, Contracts.RegisterEntry.projected,
    Contracts.bytes32Text, strip_hexText, addressSlot_addressText, numberSlot, Int.toNat_natCast,
    toNat_setWidth_word, Nat.reduceLeDiff, List.flatMap_cons, List.flatMap_nil, List.map_cons,
    List.map_nil, String.toList_ofList, List.flatten_cons, List.flatten_nil]

theorem sized_projected (entry : Contracts.RegisterEntry) : Sized entry.projected where
  recordCommitment := Contracts.isBytes32_bytes32Text _
  previousCommitment := Contracts.isBytes32_bytes32Text _
  registryReference := Contracts.isBytes32_bytes32Text _
  holder := Contracts.isAddress_addressText _
  version := Contracts.isUint64_toNat _
  effectiveAt := Contracts.isUint64_toNat _
  supersededAt := Contracts.isUint64_toNat _

/-- What the contract returns for a stored entry is decoded to that entry. -/
theorem decodeEntry_abiEncode (entry : Contracts.RegisterEntry) :
    decodeEntry (hexText (Contracts.abiEncode (registerWords entry))) = .ok entry.projected := by
  rw [hexText_abiEncode, decodeEntry_abiLayout (sized_projected entry)]

/-! ## The codec -/

/-- Two calls are encoded exactly if and only if each has a refused argument or none that takes
more than a word. An entry is read back from its layout, and a blob of less than seven words is
refused. -/
theorem codec_exact_iff (selector : String) {args args' : List CallArg}
    (htyped : ∀ arg ∈ args, arg.Typed) (htyped' : ∀ arg ∈ args', arg.Typed)
    {entry : ProjectionEntry} (hsized : Sized entry) {blob : String}
    (hshort : Text.length16 (strip blob).toList < 7 * 64) :
    (ExactCalls selector args args' ↔ Fits args ∧ Fits args') ∧
      decodeEntry (abiLayout entry) = .ok entry ∧
      ∃ thrown, decodeEntry blob = .error thrown :=
  ⟨exactCalls_iff htyped htyped', decodeEntry_abiLayout hsized, decodeEntry_of_short hshort⟩

section EntryAt

open Selector (entryAt)

/-- Versions 1 and 2 of a token, the entry of a register that has stored nothing else, and no
data at all. -/
theorem codec_exact_iff_entryAt :
    ExactCalls entryAt [.bigint 7, .bigint 1] [.bigint 7, .bigint 2] ∧
      decodeEntry (abiLayout (Contracts.RegisterEntry.projected ⟨1, 0, 2, 3, 1, 100, 0⟩)) =
        .ok (Contracts.RegisterEntry.projected ⟨1, 0, 2, 3, 1, 100, 0⟩) ∧
      ∃ thrown, decodeEntry "0x" = .error thrown := by
  have hnarrow : ∀ version : Int, version < 3 → Fits [.bigint 7, .bigint version] := by
    intro version hversion
    refine Or.inr ?_
    simp only [List.forall_mem_cons, CallArg.Wide, not_le]
    exact ⟨by decide, by omega, nofun⟩
  have htyped : ∀ version : Int, ∀ arg ∈ [CallArg.bigint 7, .bigint version], arg.Typed := by
    intro version
    simp [CallArg.Typed]
  have hshort : Text.length16 (strip "0x").toList < 7 * 64 := by decide
  obtain ⟨hcalls, hentry, hblob⟩ := codec_exact_iff entryAt (htyped 1) (htyped 2)
    (sized_projected ⟨1, 0, 2, 3, 1, 100, 0⟩) hshort
  exact ⟨hcalls.mpr ⟨hnarrow 1 (by decide), hnarrow 2 (by decide)⟩, hentry, hblob⟩

/-- A token that takes more than a word is not refused: what follows is not whole words, and two
calls of other values can have the same data. -/
theorem wide_argument_misaligned :
    let zeros := String.ofList (List.replicate 63 '0')
    encodeCall entryAt [.bigint (2 ^ 256), .bigint 1] =
        .ok (entryAt ++ ("1" ++ zeros ++ "0" ++ (zeros ++ "1"))) ∧
      words ("0x" ++ ("1" ++ zeros ++ "0" ++ (zeros ++ "1"))) =
        .error (.error "returndata is not a whole number of words") ∧
      encodeCall entryAt [.bigint (2 ^ 508)] =
        .ok (entryAt ++ ("1" ++ zeros ++ ("0" ++ zeros))) ∧
      encodeCall entryAt [.bigint (2 ^ 252), .bigint 0] =
        .ok (entryAt ++ ("1" ++ zeros ++ ("0" ++ zeros))) ∧
      ¬ ExactCalls entryAt [.bigint (2 ^ 508)] [.bigint (2 ^ 252), .bigint 0] := by
  intro zeros
  have hwide : encodeCall entryAt [.bigint (2 ^ 508)] =
      .ok (entryAt ++ ("1" ++ zeros ++ ("0" ++ zeros))) := by decide +kernel
  have hnarrow : encodeCall entryAt [.bigint (2 ^ 252), .bigint 0] =
      .ok (entryAt ++ ("1" ++ zeros ++ ("0" ++ zeros))) := by decide +kernel
  refine ⟨by decide +kernel, by decide +kernel, hwide, hnarrow, ?_⟩
  rintro ⟨_, _, hdistinct⟩
  have hlength := congrArg List.length (hdistinct _ hwide hnarrow)
  simp only [List.length_map, List.length_cons, List.length_nil] at hlength
  omega

end EntryAt

end EthereumAbi

end Erc8415
