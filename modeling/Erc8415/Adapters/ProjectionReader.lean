import Erc8415.Adapters.ContractNode

/-! # Reading a contract

A reader of a contract through its frozen interfaces, pinned to a block. Over a
node that has the contract, a call of a function is one of its own: it returns
what the function returns of the same arguments, and an argument that is no
value of its type is an error.
-/

/-- `typeof value`. -/
def JsValue.typeof : JsValue → String
  | .undefined => "undefined"
  | .null | .array _ | .object _ => "object"
  | .boolean _ => "boolean"
  | .number _ | .infinity _ => "number"
  | .bigint _ => "bigint"
  | .string _ => "string"

namespace Erc8415

open EthereumAbi BigIntText

namespace EthereumAbi

def toBool (slot : String) : Except Thrown Bool := do return (← toBigInt slot) ≠ 0

end EthereumAbi

/-! ## The reader -/

/-- `new EthereumProjectionReader(options)`. The transport is asked for `eth_call` alone. -/
structure EthereumProjectionReader where
  send : String → String → String → Except Thrown JsValue
  contract : Address
  block : String := "finalized"

namespace EthereumProjectionReader

section Reads

variable (reader : EthereumProjectionReader)

def call (selector : String) (args : List CallArg) : Except Thrown String := do
  let data ← encodeCall selector args
  match ← reader.send reader.contract data reader.block with
  | .string result => return result
  | result => .error (.error s!"eth_call returned {result.typeof}")

def slot (selector : String) (args : List CallArg) : Except Thrown String := do
  let slots ← words (← reader.call selector args)
  match slots with
  | first :: _ => return first
  | [] => .error (.error s!"{selector} returned no data")

def supports (interfaceId : String) : Except Thrown Bool := do
  let padded := interfaceId ++ String.ofList (List.replicate 56 '0')
  toBool (← reader.slot Selector.supportsInterface [.text padded])

def supportsProjection : Except Thrown Bool := reader.supports "0x6309e170"

def supportsSettlement : Except Thrown Bool := reader.supports "0xf4a7d71b"

def registerId : Except Thrown Bytes32 := do
  return toBytes32 (← reader.slot Selector.registerId [])

def verificationProfile : Except Thrown Bytes32 := do
  return toBytes32 (← reader.slot Selector.verificationProfile [])

def entryCount (tokenId : Int) : Except Thrown Int := do
  toBigInt (← reader.slot Selector.entryCount [.bigint tokenId])

def currentEntry (tokenId : Int) : Except Thrown ProjectionEntry := do
  decodeEntry (← reader.call Selector.currentEntry [.bigint tokenId])

def entryAt (tokenId version : Int) : Except Thrown ProjectionEntry := do
  decodeEntry (← reader.call Selector.entryAt [.bigint tokenId, .bigint version])

def entryAsOf (tokenId instant : Int) : Except Thrown ProjectionEntry := do
  decodeEntry (← reader.call Selector.entryAsOf [.bigint tokenId, .bigint instant])

def holderAsOf (tokenId instant : Int) : Except Thrown Address := do
  return toAddress (← reader.slot Selector.holderAsOf [.bigint tokenId, .bigint instant])

def isFinalAsOf (tokenId instant : Int) : Except Thrown Bool := do
  toBool (← reader.slot Selector.isFinalAsOf [.bigint tokenId, .bigint instant])

def openGapOf (tokenId : Int) : Except Thrown Bytes32 := do
  return toBytes32 (← reader.slot Selector.openGapOf [.bigint tokenId])

def isSettlementAuthority (tokenId : Int) (account : Address) : Except Thrown Bool := do
  toBool (← reader.slot Selector.isSettlementAuthority [.bigint tokenId, .text account])

end Reads

end EthereumProjectionReader

/-! ## What is returned -/

theorem toOption_bind {α β : Type} (x : Except Thrown α) (f : α → Except Thrown β) :
    (x >>= f).toOption = x.toOption.bind fun a => (f a).toOption := by
  cases x <;> rfl

theorem toOption_eq_some {α : Type} {x : Except Thrown α} {a : α} :
    x.toOption = some a ↔ x = .ok a := by
  cases x <;> simp [Except.toOption]

namespace Contracts

/-- The text of a word. -/
def wordSlot (word : Bytes32) : String := String.ofList (Hex.ofNat 64 word.toNat)

theorem isHex_wordSlot (word : Bytes32) : ∀ c ∈ (wordSlot word).toList, isHex c = true := by
  intro c hc
  rw [wordSlot, String.toList_ofList] at hc
  obtain ⟨d, hd, rfl⟩ := Hex.mem_ofNat hc
  exact isHex_of_isLowerHex (Hex.digit_isLower hd)

/-- What a function returns is read word by word. -/
theorem words_abiEncode (returned : List Bytes32) :
    words (Erc8415.hexText (abiEncode returned)) = .ok (returned.map wordSlot) := by
  have hdigits : Hex.ofBytes (abiEncode returned) =
      returned.flatMap fun word => (wordSlot word).toList := by
    rw [Hex.ofBytes, abiEncode, List.flatMap_assoc]
    apply List.flatMap_congr
    intro word _
    rw [wordSlot, String.toList_ofList]
    exact ofBytes_bigEndian word.toNat 32
  rw [Erc8415.hexText, hdigits, List.flatMap_def, ← Function.comp_def, ← List.map_map]
  change words ("0x" ++ joined (returned.map wordSlot)) = _
  apply words_joined
  · intro slot hslot
    obtain ⟨word, _, rfl⟩ := List.mem_map.mp hslot
    rw [wordSlot, ← String.length_toList, String.toList_ofList, Hex.length_ofNat]
  · intro slot hslot
    obtain ⟨word, _, rfl⟩ := List.mem_map.mp hslot
    exact isHex_wordSlot word

@[simp] theorem toBigInt_wordSlot (word : Bytes32) : toBigInt (wordSlot word) = .ok word.toNat := by
  apply toBigInt_ofList
  · rw [← List.length_pos_iff_ne_nil, Hex.length_ofNat]
    decide
  · intro c hc
    exact isHex_wordSlot word c (by rwa [wordSlot, String.toList_ofList])
  · exact foldDigits_ofNat (lt_of_lt_of_eq word.isLt (by decide))

@[simp] theorem toBytes32_wordSlot (word : Bytes32) :
    toBytes32 (wordSlot word) = bytes32Text word := by
  apply String.toList_injective
  simp [toBytes32, wordSlot, bytes32Text, hexText]

@[simp] theorem toAddress_wordSlot (account : Address) :
    toAddress (wordSlot (account.setWidth 256)) = addressText account := by
  rw [wordSlot, toNat_setWidth_word (by decide), ← addressSlot_addressText]
  exact (addressSlot_spec (isAddress_addressText account)).1

@[simp] theorem toBool_boolWord (value : Bool) :
    toBool (wordSlot (boolWord value)) = .ok value := by
  unfold EthereumAbi.toBool
  rw [toBigInt_wordSlot]
  cases value <;> rfl

end Contracts

/-! ## What is served -/

/-- The contract of a reader answers a selector by reading what stands behind it. -/
def Serves (reader : EthereumProjectionReader) (selector : String)
    (read : List Char → Option (List Contracts.Bytes32)) : Prop :=
  ∀ slots : List String, (∀ slot ∈ slots, ∀ c ∈ slot.toList, isHex c = true) →
    (reader.send reader.contract (selector ++ joined slots) reader.block).toOption =
      (if (slots.map String.toList).flatten.length % 2 = 0 then
        read (slots.map String.toList).flatten else none).map
        fun returned => .string (hexText (Contracts.abiEncode returned))

/-- Reading the words of a function's arguments. -/
def Contracts.Getter.read (getter : Contracts.Getter) (digits : List Char) :
    Option (List Contracts.Bytes32) := do
  getter.answer (← Contracts.wordsOf getter.arity digits)

/-- The digits a selector stands for. -/
structure IsSelector (selector digits : String) : Prop where
  text : selector.toList = '0' :: 'x' :: digits.toList
  length : digits.toList.length = 8
  digits : digits.toList.all isHex = true

/-- What code at an address serves of the frozen interfaces, selector by selector. -/
theorem RunsCode.serves (reader : EthereumProjectionReader) {code : List Contracts.Getter}
    (hruns : RunsCode reader.send reader.contract reader.block code) {selector front : String}
    (hselector : IsSelector selector front) (hmem : selector ∈ Selector.all)
    {found : Option Contracts.Getter}
    (hfind : code.find? (fun getter => getter.selector = front) = found) :
    Serves reader selector fun digits => found.bind fun getter => getter.read digits := by
  unfold Serves
  intro slots hslots
  dsimp only
  have hdata := Contracts.calldata_encoded hselector.text hselector.length
    (List.all_eq_true.mp hselector.digits) hslots
  split_ifs at hdata ⊢ with heven
  · have hfront : String.ofList ('0' :: 'x' ::
        (front.toList ++ (slots.map String.toList).flatten).take 8) = selector := by
      rw [List.take_left' hselector.length, ← hselector.text, String.ofList_toList]
    have hrun : Contracts.run code (front.toList ++ (slots.map String.toList).flatten) =
        found.bind fun getter => getter.read (slots.map String.toList).flatten := by
      rw [Contracts.run, List.take_left' hselector.length, List.drop_left' hselector.length]
      simp only [String.toList_inj, hfind]
      rfl
    rw [← hrun]
    cases hreturned :
        Contracts.run code (front.toList ++ (slots.map String.toList).flatten) with
    | none =>
        obtain ⟨e, he⟩ := hruns.reverts _ _ hdata (by rw [hfront]; exact hmem) hreturned
        rw [he]
        rfl
    | some returned =>
        rw [hruns.returns _ _ returned hdata hreturned]
        rfl
  · obtain ⟨e, he⟩ := hruns.malformed _ hdata
    rw [he]
    rfl

/-- A function of the frozen interfaces that is not there is never answered, of whatever
arguments. -/
theorem RunsCode.lacks (reader : EthereumProjectionReader) {code : List Contracts.Getter}
    (hruns : RunsCode reader.send reader.contract reader.block code) {selector front : String}
    (hselector : IsSelector selector front) (hmem : selector ∈ Selector.all)
    (hfind : code.find? (fun getter => getter.selector = front) = none) (args : List CallArg) :
    (reader.call selector args).toOption = none := by
  rw [EthereumProjectionReader.call, toOption_bind]
  cases hencoded : encodeCall selector args with
  | error e => rfl
  | ok data =>
      obtain ⟨slots, _, rfl⟩ := encodeCall_eq_ok.mp hencoded
      change (reader.send reader.contract (selector ++ joined slots) reader.block >>= _).toOption =
        none
      have htext : (selector ++ joined slots).toList =
          '0' :: 'x' :: (front.toList ++ (joined slots).toList) := by
        rw [String.toList_append, hselector.text]
        rfl
      have hrun : Contracts.run code (front.toList ++ (joined slots).toList) = none := by
        rw [Contracts.run, List.take_left' hselector.length]
        simp only [String.toList_inj, hfind]
        rfl
      have herror : ∃ e, reader.send reader.contract (selector ++ joined slots) reader.block =
          .error e := by
        cases hdata : Contracts.calldata (selector ++ joined slots) with
        | none => exact hruns.malformed _ hdata
        | some digits =>
            have hdigits : digits = front.toList ++ (joined slots).toList := by
              rw [Contracts.calldata, htext] at hdata
              simp only [Option.ite_none_right_eq_some, Option.some.injEq] at hdata
              exact hdata.2.symm
            refine hruns.reverts _ _ hdata ?_ (by rw [hdigits]; exact hrun)
            rw [hdigits, List.take_left' hselector.length, ← hselector.text, String.ofList_toList]
            exact hmem
      obtain ⟨e, he⟩ := herror
      rw [he]
      rfl

section Calls

variable {reader : EthereumProjectionReader} {selector : String}
  {read : List Char → Option (List Contracts.Bytes32)} {args : List CallArg}

theorem Serves.call (h : Serves reader selector read) {slots : List String}
    (hargs : List.Forall₂ (fun arg slot => word arg = .ok slot) args slots)
    (hslots : ∀ slot ∈ slots, ∀ c ∈ slot.toList, isHex c = true) :
    (reader.call selector args).toOption =
      (if (slots.map String.toList).flatten.length % 2 = 0 then
        read (slots.map String.toList).flatten else none).map
        fun returned => hexText (Contracts.abiEncode returned) := by
  have hdata : encodeCall selector args = .ok (selector ++ joined slots) :=
    encodeCall_eq_ok.mpr ⟨slots, hargs, rfl⟩
  have hsent := h slots hslots
  rw [EthereumProjectionReader.call, hdata]
  simp only [bind, Except.bind]
  generalize (if (slots.map String.toList).flatten.length % 2 = 0 then
    read (slots.map String.toList).flatten else none) = returned at hsent ⊢
  cases returned with
  | none =>
      cases hsend : reader.send reader.contract (selector ++ joined slots) reader.block with
      | ok result =>
          rw [hsend] at hsent
          cases hsent
      | error e => rfl
  | some returned =>
      rw [toOption_eq_some.mp hsent]
      rfl

/-- A call whose arguments fit into words is read as these words. -/
theorem Serves.call_fits (h : Serves reader selector read) (args : List CallArg)
    (htyped : ∀ arg ∈ args, arg.Typed)
    (hrefused : ¬ ∃ arg ∈ args, arg.Refused) (hwide : ∀ arg ∈ args, ¬ arg.Wide) :
    ∃ digits, (reader.call selector args).toOption =
        (read digits).map (fun returned => hexText (Contracts.abiEncode returned)) ∧
      Contracts.wordsOf args.length digits = some (args.map CallArg.asWord) := by
  obtain ⟨data, hdata⟩ : ∃ data, encodeCall selector args = .ok data :=
    (exists_encodeCall_iff htyped).mpr hrefused
  obtain ⟨slots, hslots, _⟩ := encodeCall_eq_ok.mp hdata
  have hexact := forall_wordOf htyped hwide hslots
  obtain ⟨hlength, hdigits⟩ := forall_slots hexact
  have hpieces : ∀ piece ∈ slots.map String.toList, piece.length = 64 := by
    intro piece hpiece
    obtain ⟨slot, hslot, rfl⟩ := List.mem_map.mp hpiece
    rw [String.length_toList, hlength slot hslot]
  have heven : (slots.map String.toList).flatten.length % 2 = 0 := by
    rw [FixedWidth.length_flatten hpieces]
    omega
  have hcall := h.call hslots hdigits
  rw [if_pos heven] at hcall
  refine ⟨_, hcall, ?_⟩
  have hwords := Contracts.wordsOf_joined hexact 0 []
  rw [List.append_nil, Nat.add_zero] at hwords
  rw [hwords, Contracts.wordsOf, Option.map_some, List.append_nil]

theorem isHex_of_words {slots : List String} (htyped : ∀ arg ∈ args, arg.Typed)
    (hslots : List.Forall₂ (fun arg slot => word arg = .ok slot) args slots) :
    ∀ slot ∈ slots, ∀ c ∈ slot.toList, isHex c = true := by
  intro slot hslot
  obtain ⟨i, hi, rfl⟩ := List.mem_iff_getElem.mp hslot
  have hi' := hslots.length_eq ▸ hi
  exact (word_spec (htyped _ (List.getElem_mem hi')) (hslots.get hi' hi)).1

/-- A call with a refused argument is not made. -/
theorem call_refused (reader : EthereumProjectionReader) (selector : String)
    (htyped : ∀ arg ∈ args, arg.Typed) (hrefused : ∃ arg ∈ args, arg.Refused) :
    (reader.call selector args).toOption = none := by
  cases hencoded : encodeCall selector args with
  | ok data => exact absurd hrefused ((exists_encodeCall_iff htyped).mp ⟨data, hencoded⟩)
  | error e =>
      rw [EthereumProjectionReader.call, hencoded]
      rfl

/-- The first word that is read, of a call that returns words. -/
theorem slot_toOption {returned : Option (List Contracts.Bytes32)}
    (h : (reader.call selector args).toOption =
      returned.map fun returned => hexText (Contracts.abiEncode returned)) :
    (reader.slot selector args).toOption =
      (returned.bind List.head?).map Contracts.wordSlot := by
  rw [EthereumProjectionReader.slot, toOption_bind, h]
  cases returned with
  | none => rfl
  | some returned =>
      rw [Option.map_some, Option.bind_some, toOption_bind, Contracts.words_abiEncode]
      cases returned <;> rfl

/-! ## Functions and their arguments -/

section Shapes

variable {name : String}

theorem Serves.nullary {answer : List Contracts.Bytes32}
    (h : Serves reader selector (Contracts.nullary name answer).read) :
    (reader.call selector []).toOption = some (hexText (Contracts.abiEncode answer)) := by
  obtain ⟨digits, hcall, _⟩ := h.call_fits [] (List.forall_mem_nil _) (by simp)
    (List.forall_mem_nil _)
  rw [hcall]
  rfl

theorem refused_bigint (word : Contracts.Uint256) : ¬ (CallArg.bigint word.toNat).Refused :=
  Int.not_lt.mpr (Int.natCast_nonneg _)

theorem wide_bigint (word : Contracts.Uint256) : ¬ (CallArg.bigint word.toNat).Wide := by
  have hlt := word.isLt
  rw [CallArg.Wide]
  omega

theorem Serves.ofToken {answer : Contracts.Uint256 → Option (List Contracts.Bytes32)}
    (h : Serves reader selector (Contracts.ofToken name answer).read)
    (tokenId : Contracts.Uint256) :
    (reader.call selector [.bigint tokenId.toNat]).toOption =
      (answer tokenId).map fun returned => hexText (Contracts.abiEncode returned) := by
  obtain ⟨digits, hcall, hwords⟩ := h.call_fits [.bigint tokenId.toNat]
    (List.forall_mem_singleton.mpr trivial) (by simpa using refused_bigint tokenId)
    (List.forall_mem_singleton.mpr (wide_bigint tokenId))
  have hread : (Contracts.ofToken name answer).read digits = answer tokenId := by
    rw [Contracts.Getter.read, show (Contracts.ofToken name answer).arity = 1 from rfl]
    change (Contracts.wordsOf 1 digits).bind _ = _
    rw [show Contracts.wordsOf 1 digits = _ from hwords, List.map_singleton, asWord_bigint]
    rfl
  rw [hcall, hread]

/-- The word read of a number that takes more than one is no value of a narrower type. -/
theorem exists_wordsOf_wide {n : Int} (hwide : 2 ^ 256 ≤ n) {slot : String}
    (hslot : word (.bigint n) = .ok slot) :
    ∃ first, Contracts.wordsOf 1 slot.toList = some [first] ∧ 2 ^ 252 ≤ first.toNat := by
  have hlong : 64 < (Nat.toDigits 16 n.toNat).length := by
    have hnarrow := length_toDigits_le (n := n) (by omega)
    omega
  have htext : slot.toList = Nat.toDigits 16 n.toNat := by
    have hdigits : ∀ c ∈ Nat.toDigits 16 n.toNat, isHex c = true := fun c hc => isHex_toDigits hc
    rw [word, if_neg (by omega), Except.ok.injEq] at hslot
    rw [← hslot, String.toList_ofList, padWord, (isAscii_of_isHex hdigits).length16_eq,
      Nat.sub_eq_zero_of_le (Nat.le_of_lt hlong)]
    rfl
  obtain ⟨value, hvalue⟩ := exists_foldDigits
    (fun c hc => isHex_toDigits (List.mem_of_mem_take hc) :
      ∀ c ∈ (Nat.toDigits 16 n.toNat).take 64, isHex c = true) 0
  have hbelow := Contracts.foldDigits_lt hvalue
  rw [List.length_take, Nat.min_eq_left (Nat.le_of_lt hlong), Nat.zero_add, Nat.one_mul] at hbelow
  refine ⟨BitVec.ofNat 256 value, ?_, ?_⟩
  · rw [htext, Contracts.wordsOf, if_neg (Nat.not_lt.mpr (Nat.le_of_lt hlong)), hvalue]
    rfl
  · rw [BitVec.toNat_ofNat, Nat.mod_eq_of_lt (lt_of_lt_of_eq hbelow (by decide))]
    exact (by decide : 2 ^ 252 ≤ 16 ^ 63).trans (Contracts.le_of_take_toDigits hlong hvalue)

theorem narrow_eq_none {w : Nat} (hw : w ≤ 252) {first : Contracts.Bytes32}
    (h : 2 ^ 252 ≤ first.toNat) : Contracts.narrow w first = none := by
  rw [Contracts.narrow, if_neg]
  rw [Nat.not_lt]
  exact (Nat.pow_le_pow_right (by decide) hw).trans h

/-- A number that fits into a word is a value of a narrower type if it is below its bound. -/
theorem narrow_asWord {w : Nat} {n : Int} (hn : 0 ≤ n) (hfits : n < 2 ^ 256) :
    Contracts.narrow w (CallArg.bigint n).asWord =
      if n < 2 ^ w then some (BitVec.ofInt w n) else none := by
  obtain ⟨k, rfl⟩ := Int.eq_ofNat_of_zero_le hn
  have hk : k < 2 ^ 256 := by exact_mod_cast hfits
  have hbound : (k : Int) < 2 ^ w ↔ k < 2 ^ w := by exact_mod_cast Iff.rfl
  have hword : (CallArg.bigint k).asWord = BitVec.ofNat 256 k := by
    rw [CallArg.asWord, CallArg.value, Option.getD_some, BitVec.ofInt_natCast]
  simp only [Contracts.narrow, hword, BitVec.toNat_ofNat, Nat.mod_eq_of_lt hk, hbound,
    BitVec.ofInt_natCast]
  congr 2
  apply BitVec.eq_of_toNat_eq
  rw [BitVec.toNat_setWidth, BitVec.toNat_ofNat, BitVec.toNat_ofNat, Nat.mod_eq_of_lt hk]

theorem read_ofTokenAnd {w : Nat}
    {answer : Contracts.Uint256 → BitVec w → Option (List Contracts.Bytes32)} {digits : List Char}
    {tokenId second : Contracts.Bytes32}
    (hwords : Contracts.wordsOf 2 digits = some [tokenId, second]) :
    (Contracts.ofTokenAnd w name answer).read digits =
      (Contracts.narrow w second).bind (answer tokenId) := by
  rw [Contracts.Getter.read]
  change (Contracts.wordsOf 2 digits).bind _ = _
  rw [hwords]
  rfl

theorem Serves.ofTokenAnd {w : Nat} (hw : w ≤ 252)
    {answer : Contracts.Uint256 → BitVec w → Option (List Contracts.Bytes32)}
    (h : Serves reader selector (Contracts.ofTokenAnd w name answer).read)
    (tokenId : Contracts.Uint256) (n : Int) :
    (reader.call selector [.bigint tokenId.toNat, .bigint n]).toOption =
      if 0 ≤ n ∧ n < 2 ^ w then
        (answer tokenId (BitVec.ofInt w n)).map fun returned =>
          hexText (Contracts.abiEncode returned)
      else none := by
  have htyped : ∀ arg ∈ [CallArg.bigint tokenId.toNat, .bigint n], arg.Typed := by
    simp [CallArg.Typed]
  by_cases hneg : n < 0
  · rw [if_neg (by omega)]
    exact call_refused reader selector htyped ⟨.bigint n, by simp, hneg⟩
  have hrefused : ¬ ∃ arg ∈ [CallArg.bigint tokenId.toNat, .bigint n], arg.Refused := by
    simp only [List.exists_mem_cons_iff, not_or]
    exact ⟨refused_bigint tokenId, hneg, by simp⟩
  by_cases hwide : 2 ^ 256 ≤ n
  · -- The token is read as it is, and of what follows it one word.
    have hlarge : ¬ (0 ≤ n ∧ n < 2 ^ w) := by
      have hpow : (2 : Int) ^ w ≤ 2 ^ 256 := by
        exact_mod_cast Nat.pow_le_pow_right (n := 2) (by decide) (show w ≤ 256 by omega)
      omega
    obtain ⟨data, hdata⟩ :
        ∃ data, encodeCall selector [.bigint tokenId.toNat, .bigint n] = .ok data :=
      (exists_encodeCall_iff htyped).mpr hrefused
    obtain ⟨slots, hslots, _⟩ := encodeCall_eq_ok.mp hdata
    have hdigits := isHex_of_words htyped hslots
    rw [h.call hslots hdigits, if_neg hlarge]
    cases hslots with
    | cons htoken hrest =>
        cases hrest with
        | @cons _ slot _ _ hslot hnil =>
            cases hnil
            obtain ⟨first, hfirst, hlow⟩ := exists_wordsOf_wide hwide hslot
            have htoken' : ∀ arg ∈ [CallArg.bigint tokenId.toNat], arg.Typed :=
              List.forall_mem_singleton.mpr trivial
            have hexact := forall_wordOf htoken'
              (List.forall_mem_singleton.mpr (wide_bigint tokenId)) (.cons htoken .nil)
            have hwords := Contracts.wordsOf_joined hexact 1 slot.toList
            rw [hfirst] at hwords
            simp only [List.map_cons, List.map_nil, List.flatten_cons, List.flatten_nil,
              List.append_nil, asWord_bigint, List.length_singleton, Option.map_some,
              List.singleton_append] at hwords ⊢
            rw [read_ofTokenAnd hwords, narrow_eq_none hw hlow]
            split <;> rfl
  · obtain ⟨digits, hcall, hwords⟩ := h.call_fits _ htyped hrefused (by
      simp only [List.forall_mem_cons]
      exact ⟨wide_bigint tokenId, hwide, List.forall_mem_nil _⟩)
    rw [List.map_cons, List.map_singleton, asWord_bigint] at hwords
    rw [hcall, read_ofTokenAnd hwords, narrow_asWord (Int.not_lt.mp hneg) (Int.not_le.mp hwide)]
    by_cases hsmall : n < 2 ^ w
    · rw [if_pos hsmall, if_pos ⟨Int.not_lt.mp hneg, hsmall⟩]
      rfl
    · rw [if_neg hsmall, if_neg fun hboth => hsmall hboth.2]
      rfl

/-- An account in a word of its own. -/
theorem Serves.ofTokenAnd_account
    {answer : Contracts.Uint256 → Contracts.Address → Option (List Contracts.Bytes32)}
    (h : Serves reader selector (Contracts.ofTokenAnd 160 name answer).read)
    (tokenId : Contracts.Uint256) (account : Contracts.Address) :
    (reader.call selector
        [.bigint tokenId.toNat, .text (Contracts.addressText account)]).toOption =
      (answer tokenId account).map fun returned => hexText (Contracts.abiEncode returned) := by
  have hdigits : ∀ c ∈ Hex.ofNat 40 account.toNat, isHex c = true := by
    intro c hc
    obtain ⟨digit, hdigit, rfl⟩ := Hex.mem_ofNat hc
    exact isHex_of_isLowerHex (Hex.digit_isLower hdigit)
  have hne : Hex.ofNat 40 account.toNat ≠ [] := by
    rw [← List.length_pos_iff_ne_nil, Hex.length_ofNat]
    decide
  have htext : IsHexText (Contracts.addressText account) :=
    ⟨Hex.ofNat 40 account.toNat, String.toList_ofList .., hne, hdigits⟩
  have hvalue : (CallArg.text (Contracts.addressText account)).asWord = account.setWidth 256 := by
    have hparsed : parse (Contracts.addressText account) = some (account.toNat : Int) := by
      rw [Contracts.addressText, Contracts.hexText, parse_hex hne hdigits,
        foldDigits_ofNat (lt_of_lt_of_eq account.isLt (by decide))]
      rfl
    rw [CallArg.asWord, CallArg.value, hparsed, Option.getD_some, BitVec.ofInt_natCast,
      BitVec.ofNat_toNat]
  have hshort : ¬ (CallArg.text (Contracts.addressText account)).Refused := by
    rw [CallArg.Refused, Contracts.addressText, Contracts.hexText, strip_of_toList
      (String.toList_ofList ..), ← String.length_toList, String.toList_ofList, Hex.length_ofNat]
    decide
  obtain ⟨digits, hcall, hwords⟩ := h.call_fits
    [.bigint tokenId.toNat, .text (Contracts.addressText account)]
    (by
      simp only [List.forall_mem_cons]
      exact ⟨trivial, htext, List.forall_mem_nil _⟩)
    (by
      simp only [List.exists_mem_cons_iff, not_or]
      exact ⟨refused_bigint tokenId, hshort, by simp⟩)
    (by
      simp only [List.forall_mem_cons]
      exact ⟨wide_bigint tokenId, id, List.forall_mem_nil _⟩)
  have hnarrow : Contracts.narrow 160 (account.setWidth 256) = some account := by
    have hback : (account.setWidth 256).setWidth 160 = account := by
      rw [BitVec.setWidth_setWidth_of_le _ (by decide), BitVec.setWidth_eq]
    rw [Contracts.narrow, toNat_setWidth_word (by decide) account, hback, if_pos account.isLt]
  rw [List.map_cons, List.map_singleton, asWord_bigint, hvalue] at hwords
  rw [hcall, read_ofTokenAnd hwords, hnarrow]
  rfl

end Shapes

end Calls

end Erc8415
