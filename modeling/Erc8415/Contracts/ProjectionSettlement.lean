import Erc8415.Contracts.RegisterProjection
import Erc8415.Foundation.Sha256

/-! # The settlement contract

`ProjectionSettlement`: the gap records beside a register, and the only way an
entry reaches that register when this contract is its source authority. A
function is called in a context: who sent the call, the block it is in, and what
the view verifier answers during it. It reads and writes both contracts'
storage, or reverts.
-/

namespace Erc8415.Contracts

inductive GapStatus where
  | none
  | «open»
  | admitted
  | cancelled
  | superseded
  deriving DecidableEq, Repr

structure Settlement where
  tokenId : Uint256
  initiator : Address
  expectedHolder : Address
  snapshotHash : Bytes32
  openedAt : Uint64
  deadline : Uint64
  status : GapStatus
  deriving DecidableEq, Repr

/-- What an unwritten slot of the mapping reads as. -/
def Settlement.unset : Settlement := ⟨0, 0, 0, 0, 0, 0, .none⟩

/-- What the constructor fixes, with the address the contract was given. -/
structure SettlementDeployment where
  address : Address
  settlementPeriod : Uint64
  authorities : Address → Bool

structure ProjectionSettlement where
  settlements : Bytes32 → Settlement
  openGap : Uint256 → Bytes32

/-- The storage of the two contracts. -/
structure Assembly where
  register : RegisterProjection
  settlement : ProjectionSettlement

/-- A call from outside the settlement contract: its sender, its block, and the answers of
the view verifier while it runs. -/
structure Context (contract : Address) where
  sender : Address
  sender_ne : sender ≠ contract
  chainid : Uint256
  timestamp : Uint256
  timestamp_lt : timestamp.toNat < 2 ^ 64
  verifyAdmission : Bytes32 → List UInt8 → Bool

namespace Context

variable {contract : Address} (ctx : Context contract)

/-- `uint64(block.timestamp)`. -/
def now : Uint64 := ctx.timestamp.setWidth 64

theorem toNat_now : ctx.now.toNat = ctx.timestamp.toNat := by
  rw [now, BitVec.toNat_setWidth, Nat.mod_eq_of_lt ctx.timestamp_lt]

end Context

/-! ## Bindings -/

/-- The fields a proof is bound to, in the order they are encoded. -/
structure Binding where
  domain : Bytes32
  chainid : Uint256
  contract : Address
  tokenId : Uint256
  settlementId : Bytes32
  snapshotHash : Bytes32
  holder : Address
  previousCommitment : Bytes32
  recordCommitment : Bytes32
  version : Uint64
  effectiveAt : Uint64
  registryReference : Bytes32
  deriving DecidableEq, Repr

/-- The words of the fields, each padded to 32 bytes. -/
def Binding.words (b : Binding) : List Bytes32 :=
  [b.domain, b.chainid, b.contract.setWidth 256, b.tokenId, b.settlementId, b.snapshotHash,
    b.holder.setWidth 256, b.previousCommitment, b.recordCommitment, b.version.setWidth 256,
    b.effectiveAt.setWidth 256, b.registryReference]

/-- `abi.encode` of fixed-width fields. -/
def abiEncode (words : List Bytes32) : List UInt8 :=
  words.flatMap fun word => Sha256.bigEndian word.toNat 32

/-- What is hashed into the digest a proof is checked against. -/
def Binding.preimage (b : Binding) : List UInt8 := abiEncode b.words

/-- `bytes` of the tag `erc8415/admission/v2`. -/
def bindingTag : List UInt8 := "erc8415/admission/v2".toUTF8.data.toList

namespace ProjectionSettlement

/-! ## Construction -/

/-- The constructor, at an address. -/
def deploy (address register proofVerifier : Address) (maximumInterval : Uint64)
    (authorities : List Address) : Except Revert SettlementDeployment := do
  revertIf (register = 0) (.settlement .registerInvalid)
  revertIf (proofVerifier = 0) (.settlement .verifierInvalid)
  revertIf (maximumInterval = 0) (.settlement .settlementPeriodInvalid)
  revertIf (0 ∈ authorities) (.settlement .notSettlementAuthority)
  return ⟨address, maximumInterval, fun account => account ∈ authorities⟩

/-- The storage of a contract just deployed. -/
def deployed : ProjectionSettlement where
  settlements _ := .unset
  openGap _ := 0

section Calls

variable (keccak256 : List UInt8 → Bytes32) (r : RegisterDeployment) (d : SettlementDeployment)

/-- An allow-list, whatever the token. -/
def isSettlementAuthority (_tokenId : Uint256) (account : Address) : Bool := d.authorities account

/-- What a first entry's proof is bound to. -/
def initializationFields (ctx : Context d.address) (tokenId : Uint256)
    (recordCommitment registryReference : Bytes32) (holder : Address) (effectiveAt : Uint64) :
    Binding where
  domain := keccak256 bindingTag
  chainid := ctx.chainid
  contract := d.address
  tokenId := tokenId
  settlementId := 0
  snapshotHash := 0
  holder := holder
  previousCommitment := 0
  recordCommitment := recordCommitment
  version := 1
  effectiveAt := effectiveAt
  registryReference := registryReference

/-- The digest of those fields. -/
def initializationBinding (ctx : Context d.address) (tokenId : Uint256)
    (recordCommitment registryReference : Bytes32) (holder : Address) (effectiveAt : Uint64) :
    Bytes32 :=
  keccak256 (initializationFields keccak256 d ctx tokenId recordCommitment registryReference
    holder effectiveAt).preimage

/-- Write the register's first entry for a token, on a proof bound to it. -/
def initializeRegister (s : Assembly) (ctx : Context d.address) (tokenId : Uint256)
    (recordCommitment registryReference : Bytes32) (holder : Address) (effectiveAt : Uint64)
    (proofData : List UInt8) : Except Revert Assembly := do
  revertIf (isSettlementAuthority d tokenId ctx.sender = false)
    (.settlement .notSettlementAuthority)
  revertIf (recordCommitment = 0) (.settlement .commitmentInvalid)
  revertIf (holder = 0) (.settlement .holderInvalid)
  let binding := initializationBinding keccak256 d ctx tokenId recordCommitment registryReference
    holder effectiveAt
  revertIf (ctx.verifyAdmission binding proofData = false) (.settlement .proofRefused)
  let register ← s.register.initializeEntry r d.address tokenId recordCommitment registryReference
    holder effectiveAt
  return { s with register := register }

/-- Open a gap. The initiator is the caller. -/
def beginSettlement (s : Assembly) (ctx : Context d.address) (tokenId : Uint256)
    (settlementId : Bytes32) (expectedHolder : Address) (snapshotHash : Bytes32)
    (deadline : Uint64) : Except Revert Assembly := do
  revertIf (settlementId = 0) (.settlement .settlementIdInvalid)
  revertIf (expectedHolder = 0) (.settlement .holderInvalid)
  revertIf (snapshotHash = 0) (.settlement .snapshotInvalid)
  revertIf (isSettlementAuthority d tokenId ctx.sender = false)
    (.settlement .notSettlementAuthority)
  revertIf ((s.settlement.settlements settlementId).status ≠ .none)
    (.settlement .settlementExists)
  revertIf (s.settlement.openGap tokenId ≠ 0) (.settlement .gapAlreadyOpen)
  revertIf (deadline ≤ ctx.now) (.settlement .deadlineOutOfRange)
  revertIf (deadline - ctx.now > d.settlementPeriod) (.settlement .deadlineOutOfRange)
  return { s with settlement := {
    settlements := Function.update s.settlement.settlements settlementId {
      tokenId := tokenId
      initiator := ctx.sender
      expectedHolder := expectedHolder
      snapshotHash := snapshotHash
      openedAt := ctx.now
      deadline := deadline
      status := .open }
    openGap := Function.update s.settlement.openGap tokenId settlementId } }

/-- What an admission's proof is bound to: the record, and the entry after the latest. -/
def admissionFields (s : Assembly) (ctx : Context d.address) (settlementId : Bytes32)
    (recordCommitment registryReference : Bytes32) (effectiveAt : Uint64) :
    Except Revert Binding := do
  let record := s.settlement.settlements settlementId
  revertIf (record.status = .none) (.settlement .settlementUnknown)
  let previous ← s.register.currentEntry record.tokenId
  let version ← checkedAdd previous.version 1
  return {
    domain := keccak256 bindingTag
    chainid := ctx.chainid
    contract := d.address
    tokenId := record.tokenId
    settlementId := settlementId
    snapshotHash := record.snapshotHash
    holder := record.expectedHolder
    previousCommitment := previous.recordCommitment
    recordCommitment := recordCommitment
    version := version
    effectiveAt := effectiveAt
    registryReference := registryReference }

/-- The digest of those fields. -/
def admissionBinding (s : Assembly) (ctx : Context d.address) (settlementId : Bytes32)
    (recordCommitment registryReference : Bytes32) (effectiveAt : Uint64) :
    Except Revert Bytes32 := do
  return keccak256 (← admissionFields keccak256 d s ctx settlementId recordCommitment
    registryReference effectiveAt).preimage

/-- Set the status of a record. -/
def setStatus (settlements : Bytes32 → Settlement) (settlementId : Bytes32) (status : GapStatus) :
    Bytes32 → Settlement :=
  Function.update settlements settlementId
    { settlements settlementId with status := status }

/-- Close a gap by admitting the entry it was opened for. Anyone may relay. -/
def finalizeSettlement (s : Assembly) (ctx : Context d.address) (settlementId : Bytes32)
    (recordCommitment registryReference : Bytes32) (effectiveAt : Uint64)
    (proofData : List UInt8) : Except Revert Assembly := do
  let record := s.settlement.settlements settlementId
  revertIf (record.status ≠ .open) (.settlement .noOpenGap)
  revertIf (ctx.now > record.deadline) (.settlement .settlementExpired)
  revertIf (recordCommitment = 0) (.settlement .commitmentInvalid)
  let previous ← s.register.currentEntry record.tokenId
  let binding ← admissionBinding keccak256 d s ctx settlementId recordCommitment registryReference
    effectiveAt
  revertIf (ctx.verifyAdmission binding proofData = false) (.settlement .proofRefused)
  -- The version the event carries.
  let _version ← checkedAdd previous.version 1
  let register ← s.register.admitEntry r d.address record.tokenId recordCommitment
    previous.recordCommitment registryReference record.expectedHolder effectiveAt
  return {
    register := register
    settlement := {
      settlements := setStatus s.settlement.settlements settlementId .admitted
      openGap := Function.update s.settlement.openGap record.tokenId 0 } }

/-- Close a gap without admitting anything: the initiator, strictly after the deadline.
The reason is only logged. -/
def cancelSettlement (s : Assembly) (ctx : Context d.address) (settlementId : Bytes32)
    (_reasonHash : Bytes32) : Except Revert Assembly := do
  let record := s.settlement.settlements settlementId
  revertIf (record.status ≠ .open) (.settlement .noOpenGap)
  revertIf (ctx.sender ≠ record.initiator) (.settlement .notSettlementAuthority)
  revertIf (ctx.now ≤ record.deadline) (.settlement .deadlineOutOfRange)
  return { s with settlement := {
    settlements := setStatus s.settlement.settlements settlementId .cancelled
    openGap := Function.update s.settlement.openGap record.tokenId 0 } }

end Calls

end ProjectionSettlement

end Erc8415.Contracts
