import Erc8415.Foundation.Hex
import Erc8415.Proof.Profile

/-! # Words of the contracts

The machine types the contracts store, what a call that reverts reports, and
the text the kernel has for the same value. A word and its text determine one
another, and the zero words are the kernel's own.
-/

namespace Erc8415.Contracts

abbrev Uint256 := BitVec 256

abbrev Uint64 := BitVec 64

abbrev Bytes32 := BitVec 256

abbrev Address := BitVec 160

/-! ## Reverting -/

/-- The custom errors of `RegisterProjection`. -/
inductive RegisterError where
  | notSourceAuthority
  | registerIdInvalid
  | entryUnknown
  | noEntryAsOf
  | versionNotConsecutive
  | effectiveAtNotIncreasing
  | commitmentLinkBroken
  | commitmentReused
  | commitmentInvalid
  | holderInvalid
  | alreadyInitialized
  deriving DecidableEq, Repr

/-- The custom errors of `ProjectionSettlement`. -/
inductive SettlementError where
  | notSettlementAuthority
  | settlementExists
  | settlementUnknown
  | noOpenGap
  | gapAlreadyOpen
  | settlementExpired
  | deadlineOutOfRange
  | proofRefused
  | commitmentInvalid
  | snapshotInvalid
  | settlementIdInvalid
  | holderInvalid
  | registerInvalid
  | verifierInvalid
  | settlementPeriodInvalid
  deriving DecidableEq, Repr

/-- The custom errors of `RecordDateClaim`. -/
inductive ClaimError where
  | notFinal
  | notHolder
  | gapOpen
  | alreadyClaimed
  | payoutFailed
  | incorrectFunding
  deriving DecidableEq, Repr

/-- Why a call reverted: a custom error, the panic of checked arithmetic, the panic of an
index outside its array, or a loop that did not end. -/
inductive Revert where
  | register (error : RegisterError)
  | settlement (error : SettlementError)
  | claim (error : ClaimError)
  | overflow
  | outOfBounds
  | outOfGas
  deriving DecidableEq, Repr

/-- Revert when the condition holds. -/
def revertIf (condition : Prop) [Decidable condition] (why : Revert) : Except Revert Unit :=
  if condition then .error why else .ok ()

@[simp] theorem revertIf_eq_ok {condition : Prop} [Decidable condition] {why : Revert}
    {u : Unit} : revertIf condition why = .ok u ↔ ¬ condition := by
  unfold revertIf
  split <;> simp_all

/-- `a + b` on `uint64`, which reverts when the sum does not fit. -/
def checkedAdd (a b : Uint64) : Except Revert Uint64 :=
  if a.toNat + b.toNat < 2 ^ 64 then .ok (a + b) else .error .overflow

theorem checkedAdd_eq_ok {a b c : Uint64} :
    checkedAdd a b = .ok c ↔ c.toNat = a.toNat + b.toNat := by
  unfold checkedAdd
  split
  next hfits =>
    have hsum : (a + b).toNat = a.toNat + b.toNat := by
      rw [BitVec.toNat_add, Nat.mod_eq_of_lt hfits]
    rw [Except.ok.injEq, ← hsum]
    exact ⟨fun h => congrArg BitVec.toNat h.symm, fun h => BitVec.eq_of_toNat_eq h.symm⟩
  next hfits =>
    have hlt := c.isLt
    exact ⟨nofun, fun h => absurd hlt (by omega)⟩

/-! ## The texts of words -/

/-- A word as `0x` and so many lowercase digits. -/
def hexText (digits : Nat) {w : Nat} (word : BitVec w) : String :=
  String.ofList ('0' :: 'x' :: Hex.ofNat digits word.toNat)

def bytes32Text (word : Bytes32) : Erc8415.Bytes32 := hexText 64 word

def addressText (account : Address) : Erc8415.Address := hexText 40 account

theorem isHexWord_hexText (digits : Nat) {w : Nat} (word : BitVec w) :
    isHexWord digits (hexText digits word) = true := by
  simp only [isHexWord, hexText, String.toList_ofList, Hex.length_ofNat, BEq.rfl, Bool.true_and,
    List.all_eq_true]
  intro c hc
  obtain ⟨d, hd, rfl⟩ := Hex.mem_ofNat hc
  exact Hex.digit_isLower hd

theorem hexText_inj {digits w : Nat} (hwidth : 2 ^ w = 16 ^ digits) {a b : BitVec w} :
    hexText digits a = hexText digits b ↔ a = b := by
  constructor
  · intro h
    have hchars := congrArg String.toList h
    simp only [hexText, String.toList_ofList, List.cons.injEq, true_and] at hchars
    exact BitVec.eq_of_toNat_eq
      (Hex.ofNat_inj (hwidth ▸ a.isLt) (hwidth ▸ b.isLt) hchars)
  · intro h
    rw [h]

@[simp] theorem isBytes32_bytes32Text (word : Bytes32) : isBytes32 (bytes32Text word) = true :=
  isHexWord_hexText 64 word

@[simp] theorem isAddress_addressText (account : Address) :
    isAddress (addressText account) = true :=
  isHexWord_hexText 40 account

@[simp] theorem bytes32Text_inj {a b : Bytes32} : bytes32Text a = bytes32Text b ↔ a = b :=
  hexText_inj (by decide)

@[simp] theorem addressText_inj {a b : Address} : addressText a = addressText b ↔ a = b :=
  hexText_inj (by decide)

@[simp] theorem toLowerCase_addressText (account : Address) :
    toLowerCase (addressText account) = addressText account :=
  toLowerCase_of_isHexWord (isHexWord_hexText 40 account)

theorem bytes32Text_zero : bytes32Text 0 = zeroBytes32 := by
  decide

theorem addressText_zero : addressText 0 = zeroAddress := by
  decide

theorem bytes32Text_eq_zero {word : Bytes32} : bytes32Text word = zeroBytes32 ↔ word = 0 := by
  rw [← bytes32Text_zero, bytes32Text_inj]

/-- A `uint64` is one for the kernel too. -/
@[simp] theorem isUint64_toNat (n : Uint64) : isUint64 (n.toNat : Int) = true := by
  have hlt := n.isLt
  rw [isUint64_eq_true, uint64Max]
  omega

theorem toNat_inj_int {w : Nat} {a b : BitVec w} : (a.toNat : Int) = b.toNat ↔ a = b := by
  rw [Int.natCast_inj, BitVec.toNat_inj]

end Erc8415.Contracts
