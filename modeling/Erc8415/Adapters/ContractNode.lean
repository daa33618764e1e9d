import Erc8415.Adapters.EthereumAbi
import Erc8415.Contracts.Assembly
import Erc8415.Contracts.ExactResolution

/-! # A node that has the contracts

What the two contracts answer as they are compiled. The data of a call is a
selector and words of 32 bytes. It reverts when there are too few of them, or
when one is no value of the type its argument has; what stands behind them is
not read. What a function returns is words again. The node is any transport
that answers so for the addresses of the contracts.
-/

namespace Erc8415

open EthereumAbi BigIntText

namespace Contracts

/-! ## Data -/

/-- The digits of the data of a call, two for each byte. A node takes no other text. -/
def calldata (data : String) : Option (List Char) :=
  match data.toList with
  | '0' :: 'x' :: digits => if digits.length % 2 = 0 ∧ digits.all isHex then some digits else none
  | _ => none

/-- So many words from the front. -/
def wordsOf : Nat → List Char → Option (List Bytes32)
  | 0, _ => some []
  | count + 1, digits =>
      if digits.length < 64 then none
      else do
        let value ← foldDigits 16 (digits.take 64) 0
        let rest ← wordsOf count (digits.drop 64)
        return BitVec.ofNat 256 value :: rest

/-- A word as a value of fewer bits, the rest of which are zero. -/
def narrow (w : Nat) (word : Bytes32) : Option (BitVec w) :=
  if word.toNat < 2 ^ w then some (word.setWidth w) else none

/-- A word as a `bytes4`, which stands at its front. -/
def bytes4 (word : Bytes32) : Option (BitVec 32) :=
  if word.toNat % 2 ^ 224 = 0 then some (BitVec.ofNat 32 (word.toNat / 2 ^ 224)) else none

def boolWord (value : Bool) : Bytes32 := if value then 1 else 0

/-! ## Compiled contracts -/

/-- A function that reads: its selector, the number of its arguments, and the words it returns for
the words it is called with. -/
structure Getter where
  selector : String
  arity : Nat
  answer : List Bytes32 → Option (List Bytes32)

/-- `type(IERC165).interfaceId`. -/
def ierc165Id : BitVec 32 := 0x01ffc9a7

/-- `type(IRegisterProjection).interfaceId`: the selectors of its functions, combined. -/
def registerProjectionId : BitVec 32 :=
  0xab041ef4 ^^^ 0xf6752412 ^^^ 0x7fc43f3a ^^^ 0x013c5d9c ^^^ 0xe6591ac9 ^^^ 0x1d1b039c ^^^
    0xbbc2a065

/-- `type(IProjectionSettlement).interfaceId`, of the functions that change state too. -/
def projectionSettlementId : BitVec 32 :=
  0x115785ee ^^^ 0x819dc64f ^^^ 0x0f1071be ^^^ 0x43396e0a ^^^ 0xdb966382 ^^^ 0x02b8df09 ^^^
    0xae1cd909 ^^^ 0x5f76ee8c

def supportsInterface (own : BitVec 32) : Getter where
  selector := "01ffc9a7"
  arity := 1
  answer
    | [word] => do
        let interfaceId ← bytes4 word
        return [boolWord (interfaceId = ierc165Id || interfaceId = own)]
    | _ => none

/-- A function of no argument. -/
def nullary (selector : String) (answer : List Bytes32) : Getter where
  selector := selector
  arity := 0
  answer _ := some answer

/-- A function of a token. -/
def ofToken (selector : String) (answer : Uint256 → Option (List Bytes32)) : Getter where
  selector := selector
  arity := 1
  answer
    | [tokenId] => answer tokenId
    | _ => none

/-- A function of a token and a value of fewer bits. -/
def ofTokenAnd (w : Nat) (selector : String)
    (answer : Uint256 → BitVec w → Option (List Bytes32)) : Getter where
  selector := selector
  arity := 2
  answer
    | [tokenId, word] => do answer tokenId (← narrow w word)
    | _ => none

section Selectors

variable (name : String) {w : Nat}

@[simp] theorem supportsInterface_selector (own : BitVec 32) :
    (supportsInterface own).selector = "01ffc9a7" := rfl

@[simp] theorem nullary_selector (answer : List Bytes32) : (nullary name answer).selector = name :=
  rfl

@[simp] theorem ofToken_selector (answer : Uint256 → Option (List Bytes32)) :
    (ofToken name answer).selector = name := rfl

@[simp] theorem ofTokenAnd_selector (answer : Uint256 → BitVec w → Option (List Bytes32)) :
    (ofTokenAnd w name answer).selector = name := rfl

end Selectors

/-- What `RegisterProjection` answers, of the functions of its interface. -/
def registerCode (r : RegisterDeployment) (s : RegisterProjection) : List Getter := [
  supportsInterface registerProjectionId,
  nullary "bbc2a065" [r.registerId],
  ofToken "1d1b039c" fun tokenId => some [(s.entryCount tokenId).setWidth 256],
  ofToken "ab041ef4" fun tokenId =>
    (RegisterProjection.returned (s.currentEntry tokenId)).map registerWords,
  ofTokenAnd 64 "f6752412" fun tokenId version =>
    (RegisterProjection.returned (s.entryAt tokenId version)).map registerWords,
  ofTokenAnd 64 "7fc43f3a" fun tokenId instant =>
    (RegisterProjection.returned (s.entryAsOf tokenId instant)).map registerWords,
  ofTokenAnd 64 "013c5d9c" fun tokenId instant =>
    (RegisterProjection.returned (s.holderAsOf tokenId instant)).map fun holder =>
      [holder.setWidth 256],
  ofTokenAnd 64 "e6591ac9" fun tokenId instant =>
    some [boolWord (s.isFinalAsOf tokenId instant)]]

/-- What `ProjectionSettlement` answers, of the functions of its interface that return a word. Its
profile is that of the verifier it was deployed with. -/
def settlementCode (d : SettlementDeployment) (profileId : Bytes32) (p : ProjectionSettlement) :
    List Getter := [
  supportsInterface projectionSettlementId,
  nullary "43396e0a" [profileId],
  nullary "0f1071be" [d.settlementPeriod.setWidth 256],
  ofToken "819dc64f" fun tokenId => some [p.openGap tokenId],
  ofTokenAnd 160 "db966382" fun tokenId account =>
    some [boolWord (ProjectionSettlement.isSettlementAuthority d tokenId account)]]

/-- The dispatch on the first four bytes. `none` where the call reverts. -/
def run (code : List Getter) (digits : List Char) : Option (List Bytes32) := do
  let getter ← code.find? fun getter => getter.selector.toList = digits.take 8
  getter.answer (← wordsOf getter.arity (digits.drop 8))

end Contracts

/-! ## The node -/

/-- What `eth_call` does at the address of compiled code, at a block: it returns the words a
function returns, and it is an error where the call reverts or the data is no data. Calls of
functions that the frozen interfaces do not have are left open. -/
structure RunsCode (send : String → String → String → Except Thrown JsValue)
    (address block : String) (code : List Contracts.Getter) : Prop where
  returns : ∀ data digits returned, Contracts.calldata data = some digits →
    Contracts.run code digits = some returned →
      send address data block = .ok (.string (hexText (Contracts.abiEncode returned)))
  reverts : ∀ data digits, Contracts.calldata data = some digits →
    String.ofList ('0' :: 'x' :: digits.take 8) ∈ Selector.all →
      Contracts.run code digits = none → ∃ e, send address data block = .error e
  malformed : ∀ data, Contracts.calldata data = none → ∃ e, send address data block = .error e

/-- What `eth_call` does at an address without code: it returns no data. -/
def NoCode (send : String → String → String → Except Thrown JsValue)
    (address block : String) : Prop :=
  ∀ data, send address data block = .ok (.string "0x") ∨ ∃ e, send address data block = .error e

/-- The transport to a node, the address of the register, and what the verifier of the settlement
contract names itself. -/
structure ContractNode (d : Contracts.Deployment) where
  send : String → String → String → Except Thrown JsValue
  registerAddress : Contracts.Address
  profileId : Contracts.Bytes32

/-- At a block the node has both contracts, with this storage. -/
structure ContractNode.HasContracts {d : Contracts.Deployment} (node : ContractNode d)
    (block : String) (s : Contracts.Assembly) : Prop where
  register : RunsCode node.send (Contracts.addressText node.registerAddress) block
    (Contracts.registerCode d.register s.register)
  settlement : RunsCode node.send (Contracts.addressText d.settlement.address) block
    (Contracts.settlementCode d.settlement node.profileId s.settlement)

/-! ## The words of an encoded call -/

/-- The word an argument is read as. -/
def CallArg.asWord (arg : CallArg) : Contracts.Bytes32 := BitVec.ofInt 256 (arg.value.getD 0)

@[simp] theorem asWord_bigint (word : Contracts.Bytes32) :
    (CallArg.bigint word.toNat).asWord = word := by
  rw [CallArg.asWord, CallArg.value, Option.getD_some, BitVec.ofInt_natCast, BitVec.ofNat_toNat,
    BitVec.setWidth_eq]

namespace Contracts

theorem asWord_of_wordOf {arg : CallArg} {slot : String} (h : WordOf arg slot) :
    ∃ n, foldDigits 16 slot.toList 0 = some n ∧ BitVec.ofNat 256 n = arg.asWord := by
  obtain ⟨n, hn⟩ := exists_foldDigits h.digits 0
  obtain ⟨m, hm, hslot⟩ := h.value
  have hne : slot.toList ≠ [] := by
    rw [← List.length_pos_iff_ne_nil, String.length_toList, h.length]
    decide
  have hread := toBigInt_ofList hne h.digits hn
  rw [String.ofList_toList, hslot, Except.ok.injEq] at hread
  refine ⟨n, hn, ?_⟩
  rw [CallArg.asWord, hm, hread, Option.getD_some, BitVec.ofInt_natCast]

theorem wordsOf_append {slot rest : List Char} {count value : Nat} (hlength : slot.length = 64)
    (hvalue : foldDigits 16 slot 0 = some value) :
    wordsOf (count + 1) (slot ++ rest) =
      (wordsOf count rest).map (BitVec.ofNat 256 value :: ·) := by
  have hlong : ¬ (slot ++ rest).length < 64 := by
    rw [List.length_append]
    omega
  rw [wordsOf, if_neg hlong, List.take_left' hlength, List.drop_left' hlength, hvalue]
  cases wordsOf count rest <;> rfl

/-- The words of arguments are read back, whatever stands behind them. -/
theorem wordsOf_joined {args : List CallArg} {slots : List String}
    (h : List.Forall₂ WordOf args slots) (count : Nat) (rest : List Char) :
    wordsOf (args.length + count) ((slots.map String.toList).flatten ++ rest) =
      (wordsOf count rest).map (args.map CallArg.asWord ++ ·) := by
  induction h with
  | nil => simp
  | cons hslot _ ih =>
      obtain ⟨n, hn, hword⟩ := asWord_of_wordOf hslot
      rw [List.map_cons, List.flatten_cons, List.append_assoc, List.length_cons, Nat.add_right_comm,
        wordsOf_append (by rw [String.length_toList, hslot.length]) hn, ih, hword, Option.map_map]
      rfl

/-- Digits write a number below the power of their count. -/
theorem foldDigits_lt {digits : List Char} {init n : Nat}
    (h : foldDigits 16 digits init = some n) : n < (init + 1) * 16 ^ digits.length := by
  induction digits generalizing init with
  | nil =>
      rw [foldDigits, Option.some.injEq] at h
      rw [h, List.length_nil, Nat.pow_zero, Nat.mul_one]
      exact Nat.lt_succ_self n
  | cons c rest ih =>
      rw [foldDigits, Option.bind_eq_some_iff] at h
      obtain ⟨v, hv, hrest⟩ := h
      have hdigit : v < 16 := by
        rw [digitValue, Option.filter_eq_some_iff] at hv
        exact of_decide_eq_true hv.2
      have hbound := ih hrest
      calc n < (16 * init + v + 1) * 16 ^ rest.length := hbound
        _ ≤ ((init + 1) * 16) * 16 ^ rest.length := Nat.mul_le_mul_right _ (by omega)
        _ = (init + 1) * 16 ^ (c :: rest).length := by
            rw [List.length_cons, Nat.pow_succ, Nat.mul_assoc, Nat.mul_comm 16]

/-- The first word of a number that takes more than one is not below `2 ^ 252`. -/
theorem le_of_take_toDigits {n value : Nat} (hwide : 64 < (Nat.toDigits 16 n).length)
    (h : foldDigits 16 ((Nat.toDigits 16 n).take 64) 0 = some value) : 16 ^ 63 ≤ value := by
  have hwhole := foldDigits_toDigits n
  rw [← List.take_append_drop 64 (Nat.toDigits 16 n), foldDigits_append, h, Option.bind_some]
    at hwhole
  have hbelow := foldDigits_lt hwhole
  rw [List.length_drop] at hbelow
  have habove : 16 ^ ((Nat.toDigits 16 n).length - 1) ≤ n := by
    by_contra hlt
    have hshort := (Nat.length_toDigits_le_iff (b := 16) (k := (Nat.toDigits 16 n).length - 1)
      (by decide) (by omega)).mpr (Nat.lt_of_not_le hlt)
    omega
  have hsplit : 16 ^ ((Nat.toDigits 16 n).length - 1) =
      16 ^ 63 * 16 ^ ((Nat.toDigits 16 n).length - 64) := by
    rw [← Nat.pow_add]
    congr 1
    omega
  rw [hsplit] at habove
  exact Nat.le_of_lt_succ (Nat.lt_of_mul_lt_mul_right (Nat.lt_of_le_of_lt habove hbelow))

/-- The data of an encoded call is taken where it is whole bytes. -/
theorem calldata_encoded {selector : String} {front : List Char}
    (hselector : selector.toList = '0' :: 'x' :: front) (hlength : front.length = 8)
    (hfront : ∀ c ∈ front, isHex c = true) {slots : List String}
    (hslots : ∀ slot ∈ slots, ∀ c ∈ slot.toList, isHex c = true) :
    calldata (selector ++ joined slots) =
      if (slots.map String.toList).flatten.length % 2 = 0 then
        some (front ++ (slots.map String.toList).flatten)
      else none := by
  have htext : (selector ++ joined slots).toList =
      '0' :: 'x' :: (front ++ (slots.map String.toList).flatten) := by
    simp [joined, hselector]
  have hdigits : (front ++ (slots.map String.toList).flatten).all isHex = true := by
    rw [List.all_eq_true]
    intro c hc
    rcases List.mem_append.mp hc with hc | hc
    · exact hfront c hc
    · obtain ⟨_, hmem, hc⟩ := List.mem_flatten.mp hc
      obtain ⟨slot, hslot, rfl⟩ := List.mem_map.mp hmem
      exact hslots slot hslot c hc
  have hparity : (front ++ (slots.map String.toList).flatten).length % 2 =
      (slots.map String.toList).flatten.length % 2 := by
    rw [List.length_append, hlength]
    omega
  simp only [calldata, htext, hdigits, hparity, and_true]

end Contracts

end Erc8415
