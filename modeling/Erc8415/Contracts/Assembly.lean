import Erc8415.Contracts.ProjectionSettlement
import Erc8415.Contracts.RegisterHistory
import Erc8415.Foundation.LabelledRun

/-! # The two contracts as one system

The assembly in which the settlement contract is the register's source
authority, and the transactions that reach either of them. A transaction is
inverted once: it reverts, or it writes a first entry, opens a gap, closes one
with an entry, or closes one without.
-/

namespace Erc8415.Contracts

open ProjectionSettlement RegisterProjection

/-- Both contracts deployed, the register under the settlement contract's authority. -/
structure Deployment where
  register : RegisterDeployment
  settlement : SettlementDeployment
  authority : register.sourceAuthority = settlement.address

/-- The functions that write, with their arguments. The first two are the register's own. -/
inductive Message where
  | initializeEntry (tokenId : Uint256) (recordCommitment registryReference : Bytes32)
      (holder : Address) (effectiveAt : Uint64)
  | admitEntry (tokenId : Uint256)
      (recordCommitment previousCommitment registryReference : Bytes32) (holder : Address)
      (effectiveAt : Uint64)
  | initializeRegister (tokenId : Uint256) (recordCommitment registryReference : Bytes32)
      (holder : Address) (effectiveAt : Uint64) (proofData : List UInt8)
  | beginSettlement (tokenId : Uint256) (settlementId : Bytes32) (expectedHolder : Address)
      (snapshotHash : Bytes32) (deadline : Uint64)
  | finalizeSettlement (settlementId recordCommitment registryReference : Bytes32)
      (effectiveAt : Uint64) (proofData : List UInt8)
  | cancelSettlement (settlementId reasonHash : Bytes32)

structure Transaction (d : Deployment) where
  context : Context d.settlement.address
  message : Message

namespace Assembly

/-- Both contracts just deployed. -/
def deployed : Assembly := ⟨.deployed, .deployed⟩

section Calls

variable (keccak256 : List UInt8 → Bytes32) (d : Deployment)

/-- What a transaction leaves, or why it reverts. -/
def call (s : Assembly) (tx : Transaction d) : Except Revert Assembly :=
  match tx.message with
  | .initializeEntry tokenId recordCommitment registryReference holder effectiveAt => do
      let register ← s.register.initializeEntry d.register tx.context.sender tokenId
        recordCommitment registryReference holder effectiveAt
      return { s with register := register }
  | .admitEntry tokenId recordCommitment previousCommitment registryReference holder
      effectiveAt => do
      let register ← s.register.admitEntry d.register tx.context.sender tokenId recordCommitment
        previousCommitment registryReference holder effectiveAt
      return { s with register := register }
  | .initializeRegister tokenId recordCommitment registryReference holder effectiveAt proofData =>
      initializeRegister keccak256 d.register d.settlement s tx.context tokenId recordCommitment
        registryReference holder effectiveAt proofData
  | .beginSettlement tokenId settlementId expectedHolder snapshotHash deadline =>
      beginSettlement d.settlement s tx.context tokenId settlementId expectedHolder snapshotHash
        deadline
  | .finalizeSettlement settlementId recordCommitment registryReference effectiveAt proofData =>
      finalizeSettlement keccak256 d.register d.settlement s tx.context settlementId
        recordCommitment registryReference effectiveAt proofData
  | .cancelSettlement settlementId reasonHash =>
      cancelSettlement d.settlement s tx.context settlementId reasonHash

/-- The storage after a transaction. One that reverts leaves it as it was. -/
def step (s : Assembly) (tx : Transaction d) : Assembly :=
  match s.call keccak256 d tx with
  | .ok s' => s'
  | .error _ => s

end Calls

/-! ## The effect of a transaction -/

/-- The next entry of a token, in the register. -/
def wrote (s : Assembly) (tokenId : Uint256) (p : Presented) : Assembly :=
  { s with register := s.register.push tokenId (s.register.nextEntry tokenId p) }

/-- The record a caller opens. -/
def gap {contract : Address} (ctx : Context contract) (tokenId : Uint256)
    (expectedHolder : Address) (snapshotHash : Bytes32) (deadline : Uint64) : Settlement where
  tokenId := tokenId
  initiator := ctx.sender
  expectedHolder := expectedHolder
  snapshotHash := snapshotHash
  openedAt := ctx.now
  deadline := deadline
  status := .open

/-- A gap opened under an identifier. -/
def opened (s : Assembly) (settlementId : Bytes32) (record : Settlement) : Assembly :=
  { s with settlement := {
      settlements := Function.update s.settlement.settlements settlementId record
      openGap := Function.update s.settlement.openGap record.tokenId settlementId } }

/-- A gap closed with a status. -/
def closed (s : Assembly) (settlementId : Bytes32) (status : GapStatus) : Assembly :=
  { s with settlement := {
      settlements := setStatus s.settlement.settlements settlementId status
      openGap := Function.update s.settlement.openGap
        (s.settlement.settlements settlementId).tokenId 0 } }

/-- What the entry that closes a gap is made of. -/
def admission (s : Assembly) (settlementId recordCommitment registryReference : Bytes32)
    (effectiveAt : Uint64) : Presented where
  recordCommitment := recordCommitment
  previousCommitment := s.register.tipWord (s.settlement.settlements settlementId).tokenId
  registryReference := registryReference
  holder := (s.settlement.settlements settlementId).expectedHolder
  effectiveAt := effectiveAt

/-- What its proof is bound to. -/
def admissionProved (keccak256 : List UInt8 → Bytes32) (d : Deployment) (s : Assembly)
    (ctx : Context d.settlement.address)
    (settlementId recordCommitment registryReference : Bytes32) (effectiveAt : Uint64) :
    Binding where
  domain := keccak256 bindingTag
  chainid := ctx.chainid
  contract := d.settlement.address
  tokenId := (s.settlement.settlements settlementId).tokenId
  settlementId := settlementId
  snapshotHash := (s.settlement.settlements settlementId).snapshotHash
  holder := (s.settlement.settlements settlementId).expectedHolder
  previousCommitment := s.register.tipWord (s.settlement.settlements settlementId).tokenId
  recordCommitment := recordCommitment
  version := BitVec.ofNat 64
    ((s.register.entries (s.settlement.settlements settlementId).tokenId).length + 1)
  effectiveAt := effectiveAt
  registryReference := registryReference

/-- Everything a transaction that does not revert can do. -/
inductive Effect (keccak256 : List UInt8 → Bytes32) (d : Deployment) (s : Assembly)
    (ctx : Context d.settlement.address) : Message → Assembly → Prop
  | initialized {tokenId : Uint256} {recordCommitment registryReference : Bytes32}
      {holder : Address} {effectiveAt : Uint64} {proofData : List UInt8}
      (hauthority : d.settlement.authorities ctx.sender = true)
      (hverified : ctx.verifyAdmission (keccak256 (initializationFields keccak256 d.settlement ctx
        tokenId recordCommitment registryReference holder effectiveAt).preimage) proofData = true)
      (hnil : s.register.entries tokenId = []) (hholder : holder ≠ 0)
      (hc : Follows (s.register.history tokenId) (s.register.candidate tokenId
        ⟨recordCommitment, 0, registryReference, holder, effectiveAt⟩)) :
      Effect keccak256 d s ctx
        (.initializeRegister tokenId recordCommitment registryReference holder effectiveAt
          proofData)
        (s.wrote tokenId ⟨recordCommitment, 0, registryReference, holder, effectiveAt⟩)
  | begun {tokenId : Uint256} {settlementId : Bytes32} {expectedHolder : Address}
      {snapshotHash : Bytes32} {deadline : Uint64} (hid : settlementId ≠ 0)
      (hholder : expectedHolder ≠ 0) (hsnapshot : snapshotHash ≠ 0)
      (hauthority : d.settlement.authorities ctx.sender = true)
      (hnone : (s.settlement.settlements settlementId).status = .none)
      (hfree : s.settlement.openGap tokenId = 0) (hfuture : ctx.now < deadline)
      (hperiod : deadline - ctx.now ≤ d.settlement.settlementPeriod) :
      Effect keccak256 d s ctx
        (.beginSettlement tokenId settlementId expectedHolder snapshotHash deadline)
        (s.opened settlementId (gap ctx tokenId expectedHolder snapshotHash deadline))
  | finalized {settlementId recordCommitment registryReference : Bytes32} {effectiveAt : Uint64}
      {proofData : List UInt8}
      (hopen : (s.settlement.settlements settlementId).status = .open)
      (hdeadline : ctx.now ≤ (s.settlement.settlements settlementId).deadline)
      (hne : s.register.entries (s.settlement.settlements settlementId).tokenId ≠ [])
      (hverified : ctx.verifyAdmission (keccak256 (admissionProved keccak256 d s ctx settlementId
        recordCommitment registryReference effectiveAt).preimage) proofData = true)
      (hholder : (s.settlement.settlements settlementId).expectedHolder ≠ 0)
      (hc : Follows (s.register.history (s.settlement.settlements settlementId).tokenId)
        (s.register.candidate (s.settlement.settlements settlementId).tokenId
          (s.admission settlementId recordCommitment registryReference effectiveAt))) :
      Effect keccak256 d s ctx
        (.finalizeSettlement settlementId recordCommitment registryReference effectiveAt proofData)
        ((s.wrote (s.settlement.settlements settlementId).tokenId
          (s.admission settlementId recordCommitment registryReference effectiveAt)).closed
            settlementId .admitted)
  | cancelled {settlementId reasonHash : Bytes32}
      (hopen : (s.settlement.settlements settlementId).status = .open)
      (hinitiator : ctx.sender = (s.settlement.settlements settlementId).initiator)
      (hexpired : (s.settlement.settlements settlementId).deadline < ctx.now) :
      Effect keccak256 d s ctx (.cancelSettlement settlementId reasonHash)
        (s.closed settlementId .cancelled)

section Inversion

variable {keccak256 : List UInt8 → Bytes32} {d : Deployment} {s s' : Assembly}

theorem initializeRegister_eq_ok {ctx : Context d.settlement.address} {tokenId : Uint256}
    {recordCommitment registryReference : Bytes32} {holder : Address} {effectiveAt : Uint64}
    {proofData : List UInt8} :
    initializeRegister keccak256 d.register d.settlement s ctx tokenId recordCommitment
        registryReference holder effectiveAt proofData = .ok s' ↔
      Effect keccak256 d s ctx (.initializeRegister tokenId recordCommitment registryReference
        holder effectiveAt proofData) s' := by
  simp only [initializeRegister, bind_eq_ok, revertIf_eq_ok, Bool.not_eq_false,
    initializeEntry_eq_ok, d.authority, true_and]
  simp only [isSettlementAuthority, initializationBinding]
  constructor
  · rintro ⟨_, hauthority, _, _, _, hholder, _, hverified, register, ⟨hnil, _, hc, rfl⟩, heq⟩
    cases heq
    exact .initialized hauthority hverified hnil hholder hc
  · intro heffect
    cases heffect with
    | initialized hauthority hverified hnil hholder hc =>
        exact ⟨(), hauthority, (), (follows_iff.mp hc).1, (), hholder, (), hverified, _,
          ⟨hnil, hholder, hc, rfl⟩, rfl⟩

theorem beginSettlement_eq_ok {ctx : Context d.settlement.address} {tokenId : Uint256}
    {settlementId : Bytes32} {expectedHolder : Address} {snapshotHash : Bytes32}
    {deadline : Uint64} :
    beginSettlement d.settlement s ctx tokenId settlementId expectedHolder snapshotHash deadline =
        .ok s' ↔
      Effect keccak256 d s ctx
        (.beginSettlement tokenId settlementId expectedHolder snapshotHash deadline) s' := by
  simp only [beginSettlement, bind_eq_ok, revertIf_eq_ok, Bool.not_eq_false, not_not,
    BitVec.not_le, gt_iff_lt, BitVec.not_lt]
  simp only [isSettlementAuthority]
  constructor
  · rintro ⟨_, hid, _, hholder, _, hsnapshot, _, hauthority, _, hnone, _, hfree, _, hfuture, _,
      hperiod, heq⟩
    cases heq
    exact .begun hid hholder hsnapshot hauthority hnone hfree hfuture hperiod
  · intro heffect
    cases heffect with
    | begun hid hholder hsnapshot hauthority hnone hfree hfuture hperiod =>
        exact ⟨(), hid, (), hholder, (), hsnapshot, (), hauthority, (), hnone, (), hfree, (),
          hfuture, (), hperiod, rfl⟩

theorem cancelSettlement_eq_ok {ctx : Context d.settlement.address}
    {settlementId reasonHash : Bytes32} :
    cancelSettlement d.settlement s ctx settlementId reasonHash = .ok s' ↔
      Effect keccak256 d s ctx (.cancelSettlement settlementId reasonHash) s' := by
  simp only [cancelSettlement, bind_eq_ok, revertIf_eq_ok, not_not, BitVec.not_le]
  constructor
  · rintro ⟨_, hopen, _, hinitiator, _, hexpired, heq⟩
    cases heq
    exact .cancelled hopen hinitiator hexpired
  · intro heffect
    cases heffect with
    | cancelled hopen hinitiator hexpired =>
        exact ⟨(), hopen, (), hinitiator, (), hexpired, rfl⟩

theorem admissionBinding_eq_ok (h : s.register.Valid) {ctx : Context d.settlement.address}
    {settlementId recordCommitment registryReference : Bytes32} {effectiveAt : Uint64}
    {digest : Bytes32} :
    admissionBinding keccak256 d.settlement s ctx settlementId recordCommitment registryReference
        effectiveAt = .ok digest ↔
      (s.settlement.settlements settlementId).status ≠ .none ∧
        s.register.entries (s.settlement.settlements settlementId).tokenId ≠ [] ∧
        (s.register.entries (s.settlement.settlements settlementId).tokenId).length + 1 < 2 ^ 64 ∧
        digest = keccak256 (admissionProved keccak256 d s ctx settlementId recordCommitment
          registryReference effectiveAt).preimage := by
  cases hlast : (s.register.entries (s.settlement.settlements settlementId).tokenId).getLast? with
  | none =>
      have hnil := List.getLast?_eq_none_iff.mp hlast
      simp [admissionBinding, admissionFields, currentEntry, bind_eq_ok, hnil]
  | some previous =>
      have hne : s.register.entries (s.settlement.settlements settlementId).tokenId ≠ [] := by
        intro hnil
        rw [hnil] at hlast
        cases hlast
      have htip : s.register.tipWord (s.settlement.settlements settlementId).tokenId =
          previous.recordCommitment := by
        simp only [tipWord, hlast]
      simp only [admissionBinding, admissionFields, currentEntry, hlast, bind_eq_ok,
        revertIf_eq_ok, admissionProved, htip]
      constructor
      · rintro ⟨fields, ⟨_, hstatus, latest, hlatest, version, hversion, heq⟩, hdigest⟩
        cases hlatest
        obtain ⟨hroom, rfl⟩ := (h.nextVersion_eq_ok hlast).mp hversion
        cases heq
        cases hdigest
        exact ⟨hstatus, hne, hroom, rfl⟩
      · rintro ⟨hstatus, _, hroom, rfl⟩
        exact ⟨_, ⟨(), hstatus, _, rfl, _, (h.nextVersion_eq_ok hlast).mpr ⟨hroom, rfl⟩, rfl⟩, rfl⟩

theorem finalizeSettlement_eq_ok (h : s.register.Valid) {ctx : Context d.settlement.address}
    {settlementId recordCommitment registryReference : Bytes32} {effectiveAt : Uint64}
    {proofData : List UInt8} :
    finalizeSettlement keccak256 d.register d.settlement s ctx settlementId recordCommitment
        registryReference effectiveAt proofData = .ok s' ↔
      Effect keccak256 d s ctx (.finalizeSettlement settlementId recordCommitment
        registryReference effectiveAt proofData) s' := by
  -- Whatever the register's latest entry is, its commitment is the one the admission links.
  have hwrites : ∀ previous register,
      (s.register.entries (s.settlement.settlements settlementId).tokenId).getLast? =
        some previous →
      (s.register.admitEntry d.register d.settlement.address
          (s.settlement.settlements settlementId).tokenId recordCommitment
          previous.recordCommitment registryReference
          (s.settlement.settlements settlementId).expectedHolder effectiveAt = .ok register ↔
        s.register.entries (s.settlement.settlements settlementId).tokenId ≠ [] ∧
          (s.settlement.settlements settlementId).expectedHolder ≠ 0 ∧
          Follows (s.register.history (s.settlement.settlements settlementId).tokenId)
            (s.register.candidate (s.settlement.settlements settlementId).tokenId
              (s.admission settlementId recordCommitment registryReference effectiveAt)) ∧
          register = s.register.push (s.settlement.settlements settlementId).tokenId
            (s.register.nextEntry (s.settlement.settlements settlementId).tokenId
              (s.admission settlementId recordCommitment registryReference effectiveAt))) := by
    intro previous register hlast
    have htip : s.register.tipWord (s.settlement.settlements settlementId).tokenId =
        previous.recordCommitment := by
      simp only [tipWord, hlast]
    rw [← htip]
    refine (h.admitEntry_eq_ok
      (p := s.admission settlementId recordCommitment registryReference effectiveAt)).trans ?_
    exact and_iff_right d.authority.symm
  simp only [finalizeSettlement, bind_eq_ok, revertIf_eq_ok, Bool.not_eq_false, not_not,
    gt_iff_lt, BitVec.not_lt, admissionBinding_eq_ok h]
  constructor
  · rintro ⟨_, hopen, _, hdeadline, _, _, previous, hprevious, _, ⟨_, hne, _, rfl⟩, _, hverified,
      _, _, register, hwrite, heq⟩
    have hlast := currentEntry_eq_ok.mp hprevious
    obtain ⟨_, hholder, hc, rfl⟩ := (hwrites previous register hlast).mp hwrite
    cases heq
    exact .finalized hopen hdeadline hne hverified hholder hc
  · intro heffect
    cases heffect with
    | finalized hopen hdeadline hne hverified hholder hc =>
        have hroom := (follows_iff.mp hc).2.2.2.2
        have hlast := List.getLast?_eq_some_getLast hne
        exact ⟨(), hopen, (), hdeadline, (), (follows_iff.mp hc).1, _,
          currentEntry_eq_ok.mpr hlast, _, ⟨by simp [hopen], hne, hroom, rfl⟩, (), hverified,
          _, (h.nextVersion_eq_ok hlast).mpr ⟨hroom, rfl⟩, _,
          (hwrites _ _ hlast).mpr ⟨hne, hholder, hc, rfl⟩, rfl⟩

/-- A transaction does not revert exactly when it has an effect, which is what it leaves. -/
theorem call_eq_ok (h : s.register.Valid) {tx : Transaction d} :
    s.call keccak256 d tx = .ok s' ↔ Effect keccak256 d s tx.context tx.message s' := by
  obtain ⟨ctx, message⟩ := tx
  have hsender : ctx.sender ≠ d.register.sourceAuthority := by
    rw [d.authority]
    exact ctx.sender_ne
  cases message with
  | initializeEntry tokenId recordCommitment registryReference holder effectiveAt =>
      simp only [call, bind_eq_ok, initializeEntry_eq_ok]
      constructor
      · rintro ⟨_, ⟨hauthority, _⟩, _⟩
        exact absurd hauthority hsender
      · intro heffect
        cases heffect
  | admitEntry tokenId recordCommitment previousCommitment registryReference holder effectiveAt =>
      simp only [call, bind_eq_ok, RegisterProjection.admitEntry, onlySourceAuthority,
        revertIf_eq_ok, not_not]
      constructor
      · rintro ⟨_, ⟨_, hauthority, _⟩, _⟩
        exact absurd hauthority hsender
      · intro heffect
        cases heffect
  | initializeRegister => exact initializeRegister_eq_ok
  | beginSettlement => exact beginSettlement_eq_ok
  | finalizeSettlement => exact finalizeSettlement_eq_ok h
  | cancelSettlement => exact cancelSettlement_eq_ok

end Inversion

end Assembly

end Erc8415.Contracts
