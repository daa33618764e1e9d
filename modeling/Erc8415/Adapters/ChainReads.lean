import Erc8415.Adapters.ProjectionReader
import Erc8415.Contracts.EventLog

/-! # What the reads of a chain say

Readers of the two contracts at a block, whatever transactions these took until
then. Each read is the answer of the register's history, or of the gap the
settlement contract has open: what the contract would revert on is an error, and
the contract that does not have a function answers none of its calls.
-/

namespace Erc8415

open EthereumAbi
open Contracts (Deployment Uint256 Uint64)

/-- The reader of an address of a node, pinned to a block. -/
def ContractNode.reader {d : Deployment} (node : ContractNode d) (address : Contracts.Address)
    (block : String) : EthereumProjectionReader :=
  ⟨node.send, Contracts.addressText address, block⟩

/-! ## The answers of a contract -/

/-- A reader of a register with these histories. -/
structure RegisterAnswers (reader : EthereumProjectionReader) (registerId : Bytes32)
    (history : Uint256 → List ProjectionEntry) : Prop where
  registerId : reader.registerId = .ok registerId
  supportsProjection : reader.supportsProjection = .ok true
  supportsSettlement : reader.supportsSettlement = .ok false
  entryCount : ∀ tokenId : Uint256, reader.entryCount tokenId.toNat = .ok (history tokenId).length
  currentEntry : ∀ tokenId : Uint256,
    (reader.currentEntry tokenId.toNat).toOption = (history tokenId).getLast?
  entryAt : ∀ (tokenId : Uint256) (version : Int),
    (reader.entryAt tokenId.toNat version).toOption =
      if 1 ≤ version then (history tokenId)[(version - 1).toNat]? else none
  entryAsOf : ∀ (tokenId : Uint256) (instant : Int),
    (reader.entryAsOf tokenId.toNat instant).toOption =
      if isUint64 instant = true then resolve (history tokenId) instant else none
  holderAsOf : ∀ (tokenId : Uint256) (instant : Int),
    (reader.holderAsOf tokenId.toNat instant).toOption =
      if isUint64 instant = true then (resolve (history tokenId) instant).map fun e => e.holder
      else none
  final : ∀ (tokenId : Uint256) (instant : Int),
    reader.isFinalAsOf tokenId.toNat instant = .ok true ↔ Final (history tokenId) instant
  provisional : ∀ (tokenId : Uint256) (instant : Int),
    reader.isFinalAsOf tokenId.toNat instant = .ok false ↔
      isUint64 instant = true ∧ ¬ Final (history tokenId) instant
  openGapOf : ∀ tokenId, (reader.openGapOf tokenId).toOption = none
  verificationProfile : reader.verificationProfile.toOption = none
  isSettlementAuthority : ∀ tokenId account,
    (reader.isSettlementAuthority tokenId account).toOption = none

/-- A reader of a settlement contract with these open gaps. -/
structure SettlementAnswers (reader : EthereumProjectionReader) (profileId : Bytes32)
    (authorities : Contracts.Address → Bool) (openGap : Uint256 → Contracts.Bytes32) : Prop where
  verificationProfile : reader.verificationProfile = .ok profileId
  supportsProjection : reader.supportsProjection = .ok false
  supportsSettlement : reader.supportsSettlement = .ok true
  openGapOf : ∀ tokenId : Uint256,
    reader.openGapOf tokenId.toNat = .ok (Contracts.bytes32Text (openGap tokenId))
  isSettlementAuthority : ∀ (tokenId : Uint256) (account : Contracts.Address),
    reader.isSettlementAuthority tokenId.toNat (Contracts.addressText account) =
      .ok (authorities account)
  registerId : reader.registerId.toOption = none
  entryCount : ∀ tokenId, (reader.entryCount tokenId).toOption = none
  currentEntry : ∀ tokenId, (reader.currentEntry tokenId).toOption = none
  entryAt : ∀ tokenId version, (reader.entryAt tokenId version).toOption = none
  entryAsOf : ∀ tokenId instant, (reader.entryAsOf tokenId instant).toOption = none
  holderAsOf : ∀ tokenId instant, (reader.holderAsOf tokenId instant).toOption = none
  isFinalAsOf : ∀ tokenId instant, (reader.isFinalAsOf tokenId instant).toOption = none

/-! ## Functions that are served -/

section Served

variable {d : Deployment} {node : ContractNode d} {block : String} {s : Contracts.Assembly}
  {selector : String} {getter : Contracts.Getter}

theorem ContractNode.HasContracts.register_serves (h : node.HasContracts block s)
    (digits : String) (hselector : IsSelector selector digits) (hmem : selector ∈ Selector.all)
    (hfind : (Contracts.registerCode d.register s.register).find?
      (fun getter => getter.selector = digits) = some getter) :
    Serves (node.reader node.registerAddress block) selector getter.read :=
  RunsCode.serves (node.reader node.registerAddress block) h.register hselector hmem hfind

theorem ContractNode.HasContracts.register_lacks (h : node.HasContracts block s)
    (selector digits : String) (hselector : IsSelector selector digits)
    (hmem : selector ∈ Selector.all)
    (hfind : (Contracts.registerCode d.register s.register).find?
      (fun getter => getter.selector = digits) = none) (args : List CallArg) :
    ((node.reader node.registerAddress block).call selector args).toOption = none :=
  RunsCode.lacks (node.reader node.registerAddress block) h.register hselector hmem hfind args

theorem ContractNode.HasContracts.settlement_serves (h : node.HasContracts block s)
    (digits : String) (hselector : IsSelector selector digits) (hmem : selector ∈ Selector.all)
    (hfind : (Contracts.settlementCode d.settlement node.profileId s.settlement).find?
      (fun getter => getter.selector = digits) = some getter) :
    Serves (node.reader d.settlement.address block) selector getter.read :=
  RunsCode.serves (node.reader d.settlement.address block) h.settlement hselector hmem hfind

theorem ContractNode.HasContracts.settlement_lacks (h : node.HasContracts block s)
    (selector digits : String) (hselector : IsSelector selector digits)
    (hmem : selector ∈ Selector.all)
    (hfind : (Contracts.settlementCode d.settlement node.profileId s.settlement).find?
      (fun getter => getter.selector = digits) = none) (args : List CallArg) :
    ((node.reader d.settlement.address block).call selector args).toOption = none :=
  RunsCode.lacks (node.reader d.settlement.address block) h.settlement hselector hmem hfind args

end Served

/-! ## Reading what is served -/

section Decoded

variable {reader : EthereumProjectionReader} {selector : String} {args : List CallArg}

/-- An entry is read as the kernel writes it. -/
theorem entry_toOption (found : Option Contracts.RegisterEntry)
    (h : (reader.call selector args).toOption =
      (found.map registerWords).map fun returned => hexText (Contracts.abiEncode returned)) :
    (reader.call selector args >>= decodeEntry).toOption =
      found.map Contracts.RegisterEntry.projected := by
  rw [toOption_bind, h]
  cases found with
  | none => rfl
  | some e =>
      rw [Option.map_some, Option.map_some, Option.bind_some, decodeEntry_abiEncode]
      rfl

/-- A word is read by what decodes it. -/
theorem word_toOption {α : Type} (found : Option Contracts.Bytes32)
    (h : (reader.call selector args).toOption =
      (found.map fun word => [word]).map fun returned => hexText (Contracts.abiEncode returned))
    (decode : String → Except Thrown α) :
    (reader.slot selector args >>= decode).toOption =
      found.bind fun word => (decode (Contracts.wordSlot word)).toOption := by
  rw [toOption_bind, slot_toOption h]
  cases found <;> rfl

/-- Zeros behind digits multiply the number they write. -/
theorem foldDigits_replicate (count init : Nat) :
    BigIntText.foldDigits 16 (List.replicate count '0') init = some (init * 16 ^ count) := by
  induction count generalizing init with
  | zero => rw [Nat.pow_zero, Nat.mul_one]; rfl
  | succ count ih =>
      have hzero : BigIntText.digitValue 16 '0' = some 0 := by decide
      rw [List.replicate_succ, BigIntText.foldDigits, hzero, Option.bind_some, ih, Nat.add_zero,
        Nat.pow_succ, Nat.mul_comm 16 init, Nat.mul_assoc, Nat.mul_comm 16]

theorem bytes4_of_front (interfaceId : BitVec 32) :
    Contracts.bytes4 (BitVec.ofNat 256 (interfaceId.toNat * 2 ^ 224)) = some interfaceId := by
  have hlt : interfaceId.toNat * 2 ^ 224 < 2 ^ 256 := by
    have h := interfaceId.isLt
    omega
  have hnat : (BitVec.ofNat 256 (interfaceId.toNat * 2 ^ 224)).toNat =
      interfaceId.toNat * 2 ^ 224 := by
    rw [BitVec.toNat_ofNat, Nat.mod_eq_of_lt hlt]
  rw [Contracts.bytes4, hnat, if_pos (Nat.mul_mod_left _ _),
    Nat.mul_div_cancel _ (Nat.two_pow_pos 224), BitVec.ofNat_toNat, BitVec.setWidth_eq]

theorem read_supportsInterface {own interfaceId : BitVec 32} {digits : List Char}
    {word : Contracts.Bytes32} (hwords : Contracts.wordsOf 1 digits = some [word])
    (hbytes : Contracts.bytes4 word = some interfaceId) :
    (Contracts.supportsInterface own).read digits =
      some [Contracts.boolWord (interfaceId = Contracts.ierc165Id || interfaceId = own)] := by
  rw [Contracts.Getter.read]
  change (Contracts.wordsOf 1 digits).bind _ = _
  rw [hwords]
  change (Contracts.bytes4 word).bind _ = _
  rw [hbytes]
  rfl

/-- A contract supports ERC-165 and its own interface. -/
theorem supports_eq {own : BitVec 32} (interfaceId : BitVec 32) (front : String)
    (h : Serves reader Selector.supportsInterface (Contracts.supportsInterface own).read)
    {text : String} (hselector : IsSelector text front)
    (hvalue : BigIntText.foldDigits 16 front.toList 0 = some interfaceId.toNat) :
    reader.supports text =
      .ok (interfaceId = Contracts.ierc165Id || interfaceId = own) := by
  have htext : (text ++ String.ofList (List.replicate 56 '0')).toList =
      '0' :: 'x' :: (front.toList ++ List.replicate 56 '0') := by
    rw [String.toList_append, hselector.text, String.toList_ofList]
    rfl
  have hdigits : ∀ c ∈ front.toList ++ List.replicate 56 '0', BigIntText.isHex c = true := by
    intro c hc
    rcases List.mem_append.mp hc with hc | hc
    · exact List.all_eq_true.mp hselector.digits c hc
    · rw [List.eq_of_mem_replicate hc]
      decide
  have hlength : (front.toList ++ List.replicate 56 '0').length = 64 := by
    rw [List.length_append, hselector.length, List.length_replicate]
  have hne : front.toList ++ List.replicate 56 '0' ≠ [] := by
    rw [← List.length_pos_iff_ne_nil, hlength]
    decide
  generalize hpadded : text ++ String.ofList (List.replicate 56 '0') = padded at htext
  have hword : (CallArg.text padded).asWord = BitVec.ofNat 256 (interfaceId.toNat * 2 ^ 224) := by
    have hparsed : BigIntText.parse padded = some ((interfaceId.toNat * 16 ^ 56 : Nat) : Int) := by
      rw [← String.ofList_toList (s := padded), htext, BigIntText.parse_hex hne hdigits,
        BigIntText.foldDigits_append, hvalue, Option.bind_some, foldDigits_replicate]
      rfl
    have hpow : (16 : Nat) ^ 56 = 2 ^ 224 := by decide
    rw [CallArg.asWord, CallArg.value, hparsed, Option.getD_some, BitVec.ofInt_natCast, hpow]
  have hshort : ¬ (CallArg.text padded).Refused := by
    rw [CallArg.Refused, strip_of_toList htext, ← String.length_toList, String.toList_ofList,
      hlength]
    decide
  obtain ⟨digits, hcall, hwords⟩ := h.call_fits [.text padded]
    (List.forall_mem_singleton.mpr ⟨_, htext, hne, hdigits⟩) (by simpa using hshort)
    (List.forall_mem_singleton.mpr id)
  rw [List.map_singleton, hword] at hwords
  rw [read_supportsInterface hwords (bytes4_of_front interfaceId)] at hcall
  have hslot := word_toOption (some _) hcall toBool
  rw [Option.bind_some, Contracts.toBool_boolWord] at hslot
  rw [EthereumProjectionReader.supports, hpadded]
  exact toOption_eq_some.mp hslot

end Decoded

/-! ## The register -/

namespace Contracts.RegisterProjection

variable {s : RegisterProjection} {tokenId : Uint256}

theorem returned_currentEntry (s : RegisterProjection) (tokenId : Uint256) :
    (returned (s.currentEntry tokenId)).map RegisterEntry.projected =
      (s.history tokenId).getLast? := by
  rw [history_getLast?, currentEntry]
  cases (s.entries tokenId).getLast? <;> rfl

/-- By version, in the numbers of the history. -/
theorem returned_entryAt (s : RegisterProjection) (tokenId : Uint256) (version : Uint64) :
    (returned (s.entryAt tokenId version)).map RegisterEntry.projected =
      if 1 ≤ version.toNat then (s.history tokenId)[version.toNat - 1]? else none := by
  by_cases hzero : version = 0
  · subst hzero
    rfl
  have hpos : 1 ≤ version.toNat := by
    rw [Nat.one_le_iff_ne_zero]
    intro heq
    exact hzero (BitVec.eq_of_toNat_eq heq)
  rw [if_pos hpos, history_getElem?, entryAt]
  by_cases hlong : version.toNat > (s.entries tokenId).length
  · rw [List.getElem?_eq_none (by omega), revertIf, if_pos (Or.inr hlong)]
    rfl
  · rw [revertIf, if_neg (by rw [not_or]; exact ⟨hzero, hlong⟩)]
    change (returned (read (s.entries tokenId) (version.toNat - 1))).map _ = _
    rw [read]
    cases (s.entries tokenId)[version.toNat - 1]? <;> rfl

theorem Valid.projected_entryAsOf (h : s.Valid) (tokenId : Uint256) (instant : Uint64) :
    (returned (s.entryAsOf tokenId instant)).map RegisterEntry.projected =
      resolve (s.history tokenId) instant.toNat := by
  cases hresolve : resolve (s.history tokenId) instant.toNat with
  | none =>
      rw [h.entryAsOf_uncovered hresolve]
      rfl
  | some e =>
      obtain ⟨e', rfl⟩ := exists_projected hresolve
      rw [h.entryAsOf_eq_ok.mpr hresolve]
      rfl

theorem returned_holderAsOf (s : RegisterProjection) (tokenId : Uint256) (instant : Uint64) :
    returned (s.holderAsOf tokenId instant) =
      (returned (s.entryAsOf tokenId instant)).map fun e => e.holder := by
  rw [holderAsOf]
  cases s.entryAsOf tokenId instant <;> rfl

end Contracts.RegisterProjection

theorem lt_two_pow_iff_isUint64 {n : Int} : (0 ≤ n ∧ n < 2 ^ 64) ↔ isUint64 n = true := by
  rw [isUint64_eq_true, uint64Max]
  omega

theorem toNat_ofInt_of_isUint64 {n : Int} (h : isUint64 n = true) :
    ((BitVec.ofInt 64 n).toNat : Int) = n := by
  obtain ⟨hlow, hhigh⟩ := lt_two_pow_iff_isUint64.mpr h
  obtain ⟨k, rfl⟩ := Int.eq_ofNat_of_zero_le hlow
  rw [BitVec.ofInt_natCast, BitVec.toNat_ofNat, Nat.mod_eq_of_lt (by exact_mod_cast hhigh)]

/-- A final instant is a `uint64`, as the times of the entries around it are. -/
theorem IsHistory.isUint64_of_final {entries : List ProjectionEntry} (h : IsHistory entries)
    {instant : Int} (hfinal : Final entries instant) : isUint64 instant = true := by
  obtain ⟨hcovered, hsettled⟩ := hfinal
  obtain ⟨last, hlast, hlt⟩ := (TokenProjection.position_lt_length_iff h instant).mp hsettled
  have hlow : 0 ≤ instant := by
    by_contra hneg
    refine hcovered.ne' ((TokenProjection.position_eq_zero_iff h instant).mpr ?_)
    intro first hfirst
    have hnonneg := h.effectiveAt_nonneg (List.mem_of_mem_head? hfirst)
    omega
  have hword := isUint64_eq_true.mp (h.shaped last (List.mem_of_mem_getLast? hlast)).effectiveAt
  rw [isUint64_eq_true]
  omega

section Register

variable {d : Deployment} {node : ContractNode d} {block : String} {s : Contracts.Assembly}

theorem supports_register (hnode : node.HasContracts block s) :
    Serves (node.reader node.registerAddress block) Selector.supportsInterface
      (Contracts.supportsInterface Contracts.registerProjectionId).read :=
  hnode.register_serves "01ffc9a7" ⟨rfl, rfl, by decide⟩ (by simp [Selector.all])
    (by simp [Contracts.registerCode])

theorem serves_entryAsOf (hnode : node.HasContracts block s) :
    Serves (node.reader node.registerAddress block) Selector.entryAsOf
      (Contracts.ofTokenAnd 64 "7fc43f3a" fun tokenId instant =>
        (Contracts.RegisterProjection.returned
          (s.register.entryAsOf tokenId instant)).map registerWords).read :=
  hnode.register_serves "7fc43f3a" ⟨rfl, rfl, by decide⟩ (by simp [Selector.all])
    (by simp [Contracts.registerCode])

theorem isFinalAsOf_toOption (hnode : node.HasContracts block s) (tokenId : Uint256)
    (instant : Int) :
    ((node.reader node.registerAddress block).isFinalAsOf tokenId.toNat
        instant).toOption =
      if isUint64 instant = true then
        some (s.register.isFinalAsOf tokenId (BitVec.ofInt 64 instant))
      else none := by
  have hserves : Serves (node.reader node.registerAddress block) Selector.isFinalAsOf
      (Contracts.ofTokenAnd 64 "e6591ac9" fun tokenId instant =>
        some [Contracts.boolWord (s.register.isFinalAsOf tokenId instant)]).read :=
    hnode.register_serves "e6591ac9" ⟨rfl, rfl, by decide⟩ (by simp [Selector.all])
      (by simp [Contracts.registerCode])
  have hcall := hserves.ofTokenAnd (by decide) tokenId instant
  by_cases hinstant : isUint64 instant = true
  · rw [if_pos (lt_two_pow_iff_isUint64.mpr hinstant)] at hcall
    have hread := word_toOption (some _) hcall toBool
    rw [Option.bind_some, Contracts.toBool_boolWord] at hread
    rw [if_pos hinstant]
    exact hread
  · rw [if_neg (mt lt_two_pow_iff_isUint64.mp hinstant)] at hcall
    rw [if_neg hinstant]
    exact word_toOption none hcall toBool

/-- An entry by its version. What is no `uint64` is no version of an entry either. -/
theorem entryAt_toOption (hnode : node.HasContracts block s) (hvalid : s.register.Valid)
    (tokenId : Uint256) (version : Int) :
    ((node.reader node.registerAddress block).entryAt tokenId.toNat version).toOption =
      if 1 ≤ version then (s.register.history tokenId)[(version - 1).toNat]? else none := by
  have hserves : Serves (node.reader node.registerAddress block) Selector.entryAt
      (Contracts.ofTokenAnd 64 "f6752412" fun tokenId version =>
        (Contracts.RegisterProjection.returned
          (s.register.entryAt tokenId version)).map registerWords).read :=
    hnode.register_serves "f6752412" ⟨rfl, rfl, by decide⟩ (by simp [Selector.all])
      (by simp [Contracts.registerCode])
  have hcall := hserves.ofTokenAnd (by decide) tokenId version
  by_cases hversion : isUint64 version = true
  · rw [if_pos (lt_two_pow_iff_isUint64.mpr hversion)] at hcall
    have hnat := toNat_ofInt_of_isUint64 hversion
    have hindex : (BitVec.ofInt 64 version).toNat - 1 = (version - 1).toNat := by omega
    refine (entry_toOption _ hcall).trans ?_
    rw [Contracts.RegisterProjection.returned_entryAt, hindex]
    exact if_congr (by omega) rfl rfl
  · rw [if_neg (mt lt_two_pow_iff_isUint64.mp hversion)] at hcall
    refine (entry_toOption none hcall).trans ?_
    split
    next hpos =>
      -- There are fewer entries than versions of 64 bits.
      have hlength := hvalid.length_lt tokenId
      rw [← lt_two_pow_iff_isUint64] at hversion
      refine (List.getElem?_eq_none ?_).symm
      rw [Contracts.RegisterProjection.length_history]
      omega
    next => rfl

theorem entryAsOf_toOption (hnode : node.HasContracts block s) (hvalid : s.register.Valid)
    (tokenId : Uint256) (instant : Int) :
    ((node.reader node.registerAddress block).entryAsOf tokenId.toNat instant).toOption =
      if isUint64 instant = true then resolve (s.register.history tokenId) instant else none := by
  have hcall := (serves_entryAsOf hnode).ofTokenAnd (by decide) tokenId instant
  by_cases hinstant : isUint64 instant = true
  · rw [if_pos (lt_two_pow_iff_isUint64.mpr hinstant)] at hcall
    rw [if_pos hinstant, ← toNat_ofInt_of_isUint64 hinstant, ← hvalid.projected_entryAsOf]
    rw [toNat_ofInt_of_isUint64 hinstant]
    exact entry_toOption _ hcall
  · rw [if_neg (mt lt_two_pow_iff_isUint64.mp hinstant)] at hcall
    rw [if_neg hinstant]
    exact entry_toOption none hcall

theorem holderAsOf_toOption (hnode : node.HasContracts block s) (hvalid : s.register.Valid)
    (tokenId : Uint256) (instant : Int) :
    ((node.reader node.registerAddress block).holderAsOf tokenId.toNat instant).toOption =
      if isUint64 instant = true then
        (resolve (s.register.history tokenId) instant).map fun e => e.holder
      else none := by
  have hserves : Serves (node.reader node.registerAddress block) Selector.holderAsOf
      (Contracts.ofTokenAnd 64 "013c5d9c" fun tokenId instant =>
        (Contracts.RegisterProjection.returned
          (s.register.holderAsOf tokenId instant)).map fun holder =>
            [holder.setWidth 256]).read :=
    hnode.register_serves "013c5d9c" ⟨rfl, rfl, by decide⟩ (by simp [Selector.all])
      (by simp [Contracts.registerCode])
  have hcall := hserves.ofTokenAnd (by decide) tokenId instant
  by_cases hinstant : isUint64 instant = true
  · rw [if_pos (lt_two_pow_iff_isUint64.mpr hinstant)] at hcall
    have hresolved := hvalid.projected_entryAsOf tokenId (BitVec.ofInt 64 instant)
    rw [toNat_ofInt_of_isUint64 hinstant] at hresolved
    rw [if_pos hinstant, ← hresolved, Option.map_map]
    rw [Contracts.RegisterProjection.returned_holderAsOf] at hcall
    have hread := word_toOption (((Contracts.RegisterProjection.returned
      (s.register.entryAsOf tokenId (BitVec.ofInt 64 instant))).map
        fun e => e.holder).map fun holder => holder.setWidth 256)
      (hcall.trans (by simp only [Option.map_map, Function.comp_def]))
      fun slot => pure (toAddress slot)
    refine hread.trans ?_
    cases Contracts.RegisterProjection.returned
      (s.register.entryAsOf tokenId (BitVec.ofInt 64 instant)) with
    | none => rfl
    | some e =>
        simp only [Option.map_some, Option.bind_some, Contracts.toAddress_wordSlot]
        rfl
  · rw [if_neg (mt lt_two_pow_iff_isUint64.mp hinstant)] at hcall
    rw [if_neg hinstant]
    exact word_toOption none hcall fun slot => pure (toAddress slot)

/-- Reads of the register, over storage that is valid. -/
theorem register_answers (hnode : node.HasContracts block s) (hvalid : s.register.Valid) :
    RegisterAnswers (node.reader node.registerAddress block)
      (Contracts.bytes32Text d.register.registerId) s.register.history where
  registerId := by
    have hserves : Serves (node.reader node.registerAddress block) Selector.registerId
        (Contracts.nullary "bbc2a065" [d.register.registerId]).read :=
      hnode.register_serves "bbc2a065" ⟨rfl, rfl, by decide⟩ (by simp [Selector.all])
        (by simp [Contracts.registerCode])
    have hread := word_toOption (some d.register.registerId) hserves.nullary
      fun slot => pure (toBytes32 slot)
    rw [Option.bind_some, Contracts.toBytes32_wordSlot] at hread
    exact toOption_eq_some.mp hread
  supportsProjection :=
    supports_eq 0x6309e170 "6309e170" (supports_register hnode) ⟨rfl, rfl, by decide⟩ (by decide)
  supportsSettlement :=
    supports_eq 0xf4a7d71b "f4a7d71b" (supports_register hnode) ⟨rfl, rfl, by decide⟩ (by decide)
  entryCount := by
    intro tokenId
    have hserves : Serves (node.reader node.registerAddress block) Selector.entryCount
        (Contracts.ofToken "1d1b039c" fun tokenId =>
          some [(s.register.entryCount tokenId).setWidth 256]).read :=
      hnode.register_serves "1d1b039c" ⟨rfl, rfl, by decide⟩ (by simp [Selector.all])
        (by simp [Contracts.registerCode])
    have hread := word_toOption (some _) (hserves.ofToken tokenId) toBigInt
    rw [Option.bind_some, Contracts.toBigInt_wordSlot, toNat_setWidth_word (by decide),
      hvalid.entryCount, ← Contracts.RegisterProjection.length_history] at hread
    exact toOption_eq_some.mp hread
  currentEntry := by
    intro tokenId
    have hserves : Serves (node.reader node.registerAddress block) Selector.currentEntry
        (Contracts.ofToken "ab041ef4" fun tokenId => (Contracts.RegisterProjection.returned
          (s.register.currentEntry tokenId)).map registerWords).read :=
      hnode.register_serves "ab041ef4" ⟨rfl, rfl, by decide⟩ (by simp [Selector.all])
        (by simp [Contracts.registerCode])
    exact (entry_toOption _ (hserves.ofToken tokenId)).trans
      (Contracts.RegisterProjection.returned_currentEntry _ tokenId)
  entryAt := entryAt_toOption hnode hvalid
  entryAsOf := entryAsOf_toOption hnode hvalid
  holderAsOf := holderAsOf_toOption hnode hvalid
  final := by
    intro tokenId instant
    rw [← toOption_eq_some, isFinalAsOf_toOption hnode]
    constructor
    · intro h
      split at h
      next hinstant =>
        rw [Option.some.injEq, hvalid.isFinalAsOf_iff, toNat_ofInt_of_isUint64 hinstant] at h
        exact h
      next => cases h
    · intro hfinal
      have hinstant := (hvalid.history tokenId).isUint64_of_final hfinal
      rw [if_pos hinstant, Option.some.injEq, hvalid.isFinalAsOf_iff,
        toNat_ofInt_of_isUint64 hinstant]
      exact hfinal
  provisional := by
    intro tokenId instant
    rw [← toOption_eq_some, isFinalAsOf_toOption hnode]
    by_cases hinstant : isUint64 instant = true
    · rw [if_pos hinstant, Option.some.injEq, ← Bool.not_eq_true, hvalid.isFinalAsOf_iff,
        toNat_ofInt_of_isUint64 hinstant]
      exact ⟨fun h => ⟨hinstant, h⟩, fun h => h.2⟩
    · rw [if_neg hinstant]
      exact ⟨fun h => (by cases h), fun h => absurd h.1 hinstant⟩
  openGapOf tokenId := by
    have hlacks := hnode.register_lacks Selector.openGapOf "819dc64f" ⟨rfl, rfl, by decide⟩
      (by simp [Selector.all]) (by simp [Contracts.registerCode])
    exact word_toOption none (hlacks _) fun slot => pure (toBytes32 slot)
  verificationProfile := by
    have hlacks := hnode.register_lacks Selector.verificationProfile "43396e0a"
      ⟨rfl, rfl, by decide⟩ (by simp [Selector.all]) (by simp [Contracts.registerCode])
    exact word_toOption none (hlacks _) fun slot => pure (toBytes32 slot)
  isSettlementAuthority tokenId account := by
    have hlacks := hnode.register_lacks Selector.isSettlementAuthority "db966382"
      ⟨rfl, rfl, by decide⟩ (by simp [Selector.all]) (by simp [Contracts.registerCode])
    exact word_toOption none (hlacks _) toBool

end Register

/-! ## The settlement contract -/

section Settlement

variable {d : Deployment} {node : ContractNode d} {block : String} {s : Contracts.Assembly}

theorem supports_settlement (hnode : node.HasContracts block s) :
    Serves (node.reader d.settlement.address block) Selector.supportsInterface
      (Contracts.supportsInterface Contracts.projectionSettlementId).read :=
  hnode.settlement_serves "01ffc9a7" ⟨rfl, rfl, by decide⟩ (by simp [Selector.all])
    (by simp [Contracts.settlementCode])

/-- Reads of the settlement contract, over any storage. -/
theorem settlement_answers (hnode : node.HasContracts block s) :
    SettlementAnswers (node.reader d.settlement.address block)
      (Contracts.bytes32Text node.profileId) d.settlement.authorities
      s.settlement.openGap where
  verificationProfile := by
    have hserves : Serves (node.reader d.settlement.address block)
        Selector.verificationProfile (Contracts.nullary "43396e0a" [node.profileId]).read :=
      hnode.settlement_serves "43396e0a" ⟨rfl, rfl, by decide⟩ (by simp [Selector.all])
        (by simp [Contracts.settlementCode])
    have hread := word_toOption (some node.profileId) hserves.nullary
      fun slot => pure (toBytes32 slot)
    rw [Option.bind_some, Contracts.toBytes32_wordSlot] at hread
    exact toOption_eq_some.mp hread
  supportsProjection :=
    supports_eq 0x6309e170 "6309e170" (supports_settlement hnode) ⟨rfl, rfl, by decide⟩ (by decide)
  supportsSettlement :=
    supports_eq 0xf4a7d71b "f4a7d71b" (supports_settlement hnode) ⟨rfl, rfl, by decide⟩ (by decide)
  openGapOf := by
    intro tokenId
    have hserves : Serves (node.reader d.settlement.address block) Selector.openGapOf
        (Contracts.ofToken "819dc64f" fun tokenId =>
          some [s.settlement.openGap tokenId]).read :=
      hnode.settlement_serves "819dc64f" ⟨rfl, rfl, by decide⟩ (by simp [Selector.all])
        (by simp [Contracts.settlementCode])
    have hread := word_toOption (some _) (hserves.ofToken tokenId)
      fun slot => pure (toBytes32 slot)
    rw [Option.bind_some, Contracts.toBytes32_wordSlot] at hread
    exact toOption_eq_some.mp hread
  isSettlementAuthority := by
    intro tokenId account
    have hserves : Serves (node.reader d.settlement.address block)
        Selector.isSettlementAuthority (Contracts.ofTokenAnd 160 "db966382" fun tokenId account =>
          some [Contracts.boolWord (Contracts.ProjectionSettlement.isSettlementAuthority
            d.settlement tokenId account)]).read :=
      hnode.settlement_serves "db966382" ⟨rfl, rfl, by decide⟩ (by simp [Selector.all])
        (by simp [Contracts.settlementCode])
    have hread := word_toOption (some _) (hserves.ofTokenAnd_account tokenId account)
      toBool
    rw [Option.bind_some, Contracts.toBool_boolWord] at hread
    exact toOption_eq_some.mp hread
  registerId := by
    have hlacks := hnode.settlement_lacks Selector.registerId "bbc2a065" ⟨rfl, rfl, by decide⟩
      (by simp [Selector.all]) (by simp [Contracts.settlementCode])
    exact word_toOption none (hlacks _) fun slot => pure (toBytes32 slot)
  entryCount tokenId := by
    have hlacks := hnode.settlement_lacks Selector.entryCount "1d1b039c" ⟨rfl, rfl, by decide⟩
      (by simp [Selector.all]) (by simp [Contracts.settlementCode])
    exact word_toOption none (hlacks _) toBigInt
  currentEntry tokenId := by
    have hlacks := hnode.settlement_lacks Selector.currentEntry "ab041ef4" ⟨rfl, rfl, by decide⟩
      (by simp [Selector.all]) (by simp [Contracts.settlementCode])
    exact entry_toOption none (hlacks _)
  entryAt tokenId version := by
    have hlacks := hnode.settlement_lacks Selector.entryAt "f6752412" ⟨rfl, rfl, by decide⟩
      (by simp [Selector.all]) (by simp [Contracts.settlementCode])
    exact entry_toOption none (hlacks _)
  entryAsOf tokenId instant := by
    have hlacks := hnode.settlement_lacks Selector.entryAsOf "7fc43f3a" ⟨rfl, rfl, by decide⟩
      (by simp [Selector.all]) (by simp [Contracts.settlementCode])
    exact entry_toOption none (hlacks _)
  holderAsOf tokenId instant := by
    have hlacks := hnode.settlement_lacks Selector.holderAsOf "013c5d9c" ⟨rfl, rfl, by decide⟩
      (by simp [Selector.all]) (by simp [Contracts.settlementCode])
    exact word_toOption none (hlacks _) fun slot => pure (toAddress slot)
  isFinalAsOf tokenId instant := by
    have hlacks := hnode.settlement_lacks Selector.isFinalAsOf "e6591ac9" ⟨rfl, rfl, by decide⟩
      (by simp [Selector.all]) (by simp [Contracts.settlementCode])
    exact word_toOption none (hlacks _) toBool

end Settlement

end Erc8415
