import Erc8415.Contracts.AssemblyInvariant
import Erc8415.Projection.Atomicity
import Erc8415.Settlement.StateMachine

/-! # The settlement contract refines the settlement engine

The engine over a store and the settlement contract over a register, given the
same callers, times, requests and verdicts. From matched states a call is
accepted by both or by neither, and leaves matched states: the same open gaps,
the same settlement records and the same entries.
-/

namespace Erc8415.Contracts

open ProjectionSettlement RegisterProjection

/-! ## The engine's view of a record -/

def GapStatus.projected : GapStatus → Erc8415.GapStatus
  | .none => .none
  | .open => .open
  | .admitted => .admitted
  | .cancelled => .cancelled
  | .superseded => .superseded

/-- A record as the engine keeps it. -/
def Settlement.projected (id : Bytes32) (record : Settlement) : Erc8415.Settlement where
  settlementId := bytes32Text id
  tokenId := record.tokenId.toNat
  initiator := addressText record.initiator
  expectedHolder := addressText record.expectedHolder
  snapshotHash := bytes32Text record.snapshotHash
  openedAt := record.openedAt.toNat
  deadline := record.deadline.toNat
  status := record.status.projected

theorem GapStatus.projected_inj {a b : GapStatus} : a.projected = b.projected ↔ a = b := by
  cases a <;> cases b <;> simp [projected]

theorem Settlement.projected_status (id : Bytes32) {record : Settlement} (status : GapStatus) :
    (record.projected id).status = status.projected ↔ record.status = status :=
  GapStatus.projected_inj

/-- An unwritten slot reads as an unrecorded settlement. -/
theorem Settlement.projected_unset (id : Bytes32) :
    Settlement.unset.projected id = ProjectionStore.unknownSettlement (bytes32Text id) := by
  simp only [projected, unset, ProjectionStore.unknownSettlement, addressText_zero,
    bytes32Text_zero]
  rfl

/-! ## The two systems -/

/-- What both systems are configured with. -/
structure Settings where
  registerId : Bytes32
  contract : Address
  settlementPeriod : Uint64
  authorities : List Address

/-- The contracts, under the settlement contract's authority. -/
def Settings.deployment (p : Settings) : Deployment where
  register := ⟨p.registerId, p.contract⟩
  settlement := ⟨p.contract, p.settlementPeriod, p.authorities.contains⟩
  authority := rfl

def Settings.engine (p : Settings) : SettlementEngine where
  authority := allowListAuthority (p.authorities.map addressText)
  settlementPeriod := p.settlementPeriod.toNat

structure Systems (σ : Type) where
  contracts : Assembly
  store : ProjectionStore σ

/-- A call, as both systems get it. A finalization also brings what only the engine reads:
the remote height, the payload of the proof and the verifier's clock. -/
inductive SettlementCall (contract : Address) where
  | begin (ctx : Context contract) (tokenId : Uint256) (settlementId : Bytes32)
      (expectedHolder : Address) (snapshotHash : Bytes32) (deadline : Uint64)
  | finalize (ctx : Context contract) (settlementId recordCommitment registryReference : Bytes32)
      (effectiveAt : Uint64) (proofData : List UInt8) (remoteHeight : Int) (payload : JsValue)
      (verifierNow : Int)
  | cancel (ctx : Context contract) (settlementId reasonHash : Bytes32)

/-- The call as a transaction on the contract. -/
def SettlementCall.transaction {p : Settings} : SettlementCall p.contract → Transaction p.deployment
  | .begin ctx tokenId settlementId expectedHolder snapshotHash deadline =>
      ⟨ctx, .beginSettlement tokenId settlementId expectedHolder snapshotHash deadline⟩
  | .finalize ctx settlementId recordCommitment registryReference effectiveAt proofData _ _ _ =>
      ⟨ctx, .finalizeSettlement settlementId recordCommitment registryReference effectiveAt
        proofData⟩
  | .cancel ctx settlementId reasonHash => ⟨ctx, .cancelSettlement settlementId reasonHash⟩

section Engine

variable {σ : Type} (o : StoreConfig σ)

/-- The candidate `finalizeSettlement` would build, from the store's own state. -/
def finalCandidate (s : ProjectionStore σ)
    (settlementId recordCommitment registryReference : Bytes32) (effectiveAt : Uint64) :
    CandidateEntry where
  recordCommitment := bytes32Text recordCommitment
  previousCommitment := tip (s.entries (s.settlement (bytes32Text settlementId)).tokenId)
  registryReference := bytes32Text registryReference
  holder := (s.settlement (bytes32Text settlementId)).expectedHolder
  version := (s.entries (s.settlement (bytes32Text settlementId)).tokenId).length + 1
  effectiveAt := effectiveAt.toNat

/-- What the engine's verifier is shown. -/
def finalMaterial (remoteHeight : Int) (payload : JsValue) : ProofMaterial :=
  ⟨o.profile.id, remoteHeight, payload⟩

/-- The call as a call on the engine. -/
def SettlementCall.service {contract : Address} (s : ProjectionStore σ) :
    SettlementCall contract → ServiceCall o
  | .begin ctx tokenId settlementId expectedHolder snapshotHash deadline =>
      .begin {
        tokenId := tokenId.toNat
        settlementId := bytes32Text settlementId
        initiator := addressText ctx.sender
        expectedHolder := addressText expectedHolder
        snapshotHash := bytes32Text snapshotHash
        deadline := deadline.toNat } ctx.now.toNat
  | .finalize ctx settlementId recordCommitment registryReference effectiveAt _ remoteHeight
      payload verifierNow =>
      .finalize (bytes32Text settlementId)
        (finalCandidate s settlementId recordCommitment registryReference effectiveAt).toJs
        (finalMaterial o remoteHeight payload) ctx.now.toNat verifierNow
  | .cancel ctx settlementId _ =>
      .cancel (bytes32Text settlementId) (addressText ctx.sender) ctx.now.toNat

end Engine

namespace Systems

variable {σ : Type} (keccak256 : List UInt8 → Bytes32) (p : Settings) (o : StoreConfig σ)

/-- The engine takes the call. -/
def EngineAccepts (now : Systems σ) (call : SettlementCall p.contract) : Prop :=
  ∃ answer, (serve p.engine o now.store (call.service o now.store)).2 = .ok answer

/-- The transaction does not revert. -/
def ContractAccepts (now : Systems σ) (call : SettlementCall p.contract) : Prop :=
  ∃ s, now.contracts.call keccak256 p.deployment call.transaction = .ok s

def step (now : Systems σ) (call : SettlementCall p.contract) : Systems σ where
  contracts := now.contracts.step keccak256 p.deployment call.transaction
  store := serveStep p.engine o now.store (call.service o now.store)

/-- Everything a caller can read of gaps, settlements and entries is the same. -/
structure SameView (now : Systems σ) : Prop where
  openGapOf : ∀ tokenId : Uint256,
    now.store.openGapOf tokenId.toNat = bytes32Text (now.contracts.settlement.openGap tokenId)
  settlement : ∀ id : Bytes32, now.store.settlement (bytes32Text id) =
    (now.contracts.settlement.settlements id).projected id
  entries : ∀ tokenId : Uint256,
    now.store.entries tokenId.toNat = now.contracts.register.history tokenId

/-- A call has the same outcome in both systems. -/
structure Alike (now : Systems σ) (call : SettlementCall p.contract) : Prop where
  accepts : EngineAccepts p o now call ↔ ContractAccepts keccak256 p now call
  view : (now.step keccak256 p o call).SameView

/-- What the calls are promised: gaps are begun on tokens with a first entry and name a
holder, and an admission comes with a finalized height above the accepted one and with the
same verdict from both verifiers. -/
def Fair (now : Systems σ) : SettlementCall p.contract → Prop
  | .begin _ tokenId _ expectedHolder _ _ =>
      now.contracts.register.entries tokenId ≠ [] ∧ expectedHolder ≠ 0
  | .finalize ctx settlementId recordCommitment registryReference effectiveAt proofData
      remoteHeight payload verifierNow =>
      let tokenId := (now.contracts.settlement.settlements settlementId).tokenId
      (now.contracts.settlement.settlements settlementId).status = .open →
        o.adapter.isFinalized now.store.adapter remoteHeight = true ∧
        o.adapter.acceptedHeight now.store.adapter tokenId.toNat < remoteHeight ∧
        (o.profile.verify now.store.adapter verifierNow (finalMaterial o remoteHeight payload)
            (now.store.proofContext o tokenId.toNat (finalCandidate now.store settlementId
              recordCommitment registryReference effectiveAt)) = .admitted ↔
          ctx.verifyAdmission (keccak256 (Assembly.admissionProved keccak256 p.deployment
            now.contracts ctx settlementId recordCommitment registryReference
            effectiveAt).preimage) proofData = true)
  | .cancel _ _ _ => True

/-! ## Matched states -/

/-- The states both systems reach together. -/
structure Matched (now : Systems σ) : Prop where
  register : now.contracts.register.Valid
  pointed : Pointed now.contracts.settlement
  served : now.store.Served
  writable : now.store.poisoned = none
  view : now.SameView
  begun : ∀ id, (now.contracts.settlement.settlements id).status = .open →
    now.contracts.register.entries (now.contracts.settlement.settlements id).tokenId ≠ [] ∧
      (now.contracts.settlement.settlements id).expectedHolder ≠ 0

/-- An initialized register in both systems, before any gap. -/
structure Initialized (now : Systems σ) : Prop where
  register : now.contracts.register.Valid
  settlement : now.contracts.settlement = .deployed
  valid : now.store.Valid
  gaps : now.store.openGaps = InsertionMap.empty
  settlements : now.store.settlements = InsertionMap.empty
  writable : now.store.poisoned = none
  entries : ∀ tokenId : Uint256,
    now.store.entries tokenId.toNat = now.contracts.register.history tokenId

theorem Initialized.matched {now : Systems σ} (h : now.Initialized) : now.Matched where
  register := h.register
  pointed := by
    rw [h.settlement]
    exact .deployed
  served := {
    valid := h.valid
    records := by
      rw [h.gaps, h.settlements]
      exact GapRecords.empty
    begun := by simp [h.settlements] }
  writable := h.writable
  view := {
    openGapOf := fun tokenId => by
      rw [ProjectionStore.openGapOf, h.gaps, h.settlement, InsertionMap.get_empty]
      exact bytes32Text_zero.symm
    settlement := fun id => by
      rw [ProjectionStore.settlement, h.settlements, h.settlement, InsertionMap.get_empty]
      exact (Settlement.projected_unset id).symm
    entries := h.entries }
  begun := by
    intro id hopen
    rw [h.settlement] at hopen
    cases hopen

/-! ## Reading one system in the other's terms -/

section Matched

variable {keccak256 p o} {now : Systems σ}

theorem Matched.status (h : now.Matched) (id : Bytes32) (status : GapStatus) :
    (now.store.settlement (bytes32Text id)).status = status.projected ↔
      (now.contracts.settlement.settlements id).status = status := by
  rw [h.view.settlement]
  exact Settlement.projected_status id status

/-- A token is free in the store when it is free on chain. -/
theorem Matched.free_iff (h : now.Matched) (tokenId : Uint256) :
    now.store.openGaps.get (key tokenId.toNat) = none ↔
      now.contracts.settlement.openGap tokenId = 0 := by
  have hview := h.view.openGapOf tokenId
  unfold ProjectionStore.openGapOf at hview
  cases hget : now.store.openGaps.get (key tokenId.toNat) with
  | none =>
      rw [hget, Option.getD_none] at hview
      exact ⟨fun _ => bytes32Text_eq_zero.mp hview.symm, fun _ => rfl⟩
  | some id =>
      rw [hget, Option.getD_some] at hview
      have hne := (h.served.begun_of_get hget).settlementId
      rw [hview, Ne, bytes32Text_eq_zero] at hne
      exact ⟨fun hsome => (by cases hsome), fun hzero => absurd hzero hne⟩

/-- The authorities of the two systems are the same accounts. -/
theorem authority_iff (tokenId : Int) (account : Address) :
    p.engine.authority.isSettlementAuthority tokenId (addressText account) = true ↔
      p.deployment.settlement.authorities account = true := by
  simp [Settings.engine, Settings.deployment, allowListAuthority, Function.comp_def]

/-- What the engine checks of a request is what the contract checks of it, the token apart. -/
theorem Matched.checkBegin_iff (h : now.Matched) {ctx : Context p.contract} {tokenId : Uint256}
    {settlementId : Bytes32} {expectedHolder : Address} {snapshotHash : Bytes32}
    {deadline : Uint64} :
    p.engine.checkBegin now.store {
        tokenId := tokenId.toNat
        settlementId := bytes32Text settlementId
        initiator := addressText ctx.sender
        expectedHolder := addressText expectedHolder
        snapshotHash := bytes32Text snapshotHash
        deadline := deadline.toNat } ctx.now.toNat = .ok () ↔
      settlementId ≠ 0 ∧ snapshotHash ≠ 0 ∧
        p.deployment.settlement.authorities ctx.sender = true ∧
        (now.contracts.settlement.settlements settlementId).status = .none ∧
        ctx.now < deadline ∧ deadline - ctx.now ≤ p.settlementPeriod := by
  have hstatus := h.status settlementId .none
  have hauthority := authority_iff (p := p) tokenId.toNat ctx.sender
  simp only [SettlementEngine.checkBegin, bind_eq_ok, rejectIf_eq_ok, not_not, not_or,
    Bool.not_eq_false, not_le, not_lt, isBytes32_bytes32Text, isAddress_addressText,
    isUint64_toNat, bytes32Text_eq_zero, hauthority, true_and, and_self, exists_const]
  rw [show GapStatus.none.projected = Erc8415.GapStatus.none from rfl] at hstatus
  rw [hstatus]
  have hperiod : p.engine.settlementPeriod = p.settlementPeriod.toNat := rfl
  have hfuture : (ctx.now.toNat : Int) < deadline.toNat ↔ ctx.now < deadline := Int.ofNat_lt
  have hwithin : ctx.now < deadline →
      ((deadline.toNat : Int) - ctx.now.toNat ≤ p.engine.settlementPeriod ↔
        deadline - ctx.now ≤ p.settlementPeriod) := by
    intro hlt
    have hle : ctx.now ≤ deadline := BitVec.le_of_lt hlt
    rw [hperiod, BitVec.le_def, BitVec.toNat_sub_of_le hle]
    have := BitVec.lt_def.mp hlt
    omega
  constructor
  · rintro ⟨hid, hsnapshot, hauth, hnone, hlt, hle⟩
    exact ⟨hid, hsnapshot, hauth, hnone, hfuture.mp hlt, (hwithin (hfuture.mp hlt)).mp hle⟩
  · rintro ⟨hid, hsnapshot, hauth, hnone, hlt, hle⟩
    exact ⟨hid, hsnapshot, hauth, hnone, hfuture.mpr hlt, (hwithin hlt).mpr hle⟩

/-! ## One write in both systems -/

theorem key_toNat_inj {a b : Uint256} : key (a.toNat : Int) = key b.toNat ↔ a = b := by
  rw [key_inj, toNat_inj_int]

/-- Writing a record under an identifier. -/
theorem view_record {settlements : InsertionMap Erc8415.Bytes32 Erc8415.Settlement}
    {records : Bytes32 → Settlement}
    (h : ∀ id, (settlements.get (bytes32Text id)).getD
      (ProjectionStore.unknownSettlement (bytes32Text id)) = (records id).projected id)
    (id : Bytes32) (record : Settlement) (other : Bytes32) :
    ((settlements.set (bytes32Text id) (record.projected id)).get (bytes32Text other)).getD
        (ProjectionStore.unknownSettlement (bytes32Text other)) =
      (Function.update records id record other).projected other := by
  rw [InsertionMap.get_set]
  by_cases heq : id = other
  · subst heq
    rw [if_pos rfl, Function.update_self, Option.getD_some]
  · rw [if_neg (mt bytes32Text_inj.mp heq), Function.update_of_ne (Ne.symm heq)]
    exact h other

/-- Pointing a token at a settlement. -/
theorem view_pointed {openGaps : InsertionMap String Erc8415.Bytes32} {gaps : Uint256 → Bytes32}
    (h : ∀ tokenId : Uint256,
      (openGaps.get (key tokenId.toNat)).getD zeroBytes32 = bytes32Text (gaps tokenId))
    (tokenId : Uint256) (id : Bytes32) (other : Uint256) :
    ((openGaps.set (key tokenId.toNat) (bytes32Text id)).get (key other.toNat)).getD zeroBytes32 =
      bytes32Text (Function.update gaps tokenId id other) := by
  rw [InsertionMap.get_set]
  by_cases heq : tokenId = other
  · subst heq
    rw [if_pos rfl, Function.update_self, Option.getD_some]
  · rw [if_neg (mt key_toNat_inj.mp heq), Function.update_of_ne (Ne.symm heq)]
    exact h other

/-- Clearing a token's pointer. -/
theorem view_cleared {openGaps openGaps' : InsertionMap String Erc8415.Bytes32}
    {gaps : Uint256 → Bytes32}
    (h : ∀ tokenId : Uint256,
      (openGaps.get (key tokenId.toNat)).getD zeroBytes32 = bytes32Text (gaps tokenId))
    {tokenId : Uint256}
    (hcleared : ∀ k, openGaps'.get k = if key tokenId.toNat = k then none else openGaps.get k)
    (other : Uint256) :
    (openGaps'.get (key other.toNat)).getD zeroBytes32 =
      bytes32Text (Function.update gaps tokenId 0 other) := by
  rw [hcleared]
  by_cases heq : tokenId = other
  · subst heq
    rw [if_pos rfl, Function.update_self, Option.getD_none, bytes32Text_zero]
  · rw [if_neg (mt key_toNat_inj.mp heq), Function.update_of_ne (Ne.symm heq)]
    exact h other

/-! ## One call in both systems -/

/-- Both take the call and end matched, or both refuse it and neither changes. -/
def Joint (keccak256 : List UInt8 → Bytes32) (p : Settings) (o : StoreConfig σ) (now : Systems σ)
    (call : SettlementCall p.contract) : Prop :=
  (∃ s, now.contracts.call keccak256 p.deployment call.transaction = .ok s ∧
    EngineAccepts p o now call ∧
    Matched ⟨s, (serve p.engine o now.store (call.service o now.store)).1⟩) ∨
  (∃ why, now.contracts.call keccak256 p.deployment call.transaction = .error why) ∧
    ¬ EngineAccepts p o now call ∧
    (serve p.engine o now.store (call.service o now.store)).1 = now.store

variable {call : SettlementCall p.contract}

theorem Joint.matched (h : now.Matched) (hjoint : Joint keccak256 p o now call) :
    (now.step keccak256 p o call).Matched := by
  rcases hjoint with ⟨s, hcontract, _, hmatched⟩ | ⟨⟨why, hcontract⟩, _, hstore⟩
  · simp only [step, Assembly.step, hcontract]
    exact hmatched
  · simp only [step, Assembly.step, serveStep, hcontract, hstore]
    exact h

theorem Joint.alike (h : now.Matched) (hjoint : Joint keccak256 p o now call) :
    Alike keccak256 p o now call where
  accepts := by
    rcases hjoint with ⟨s, hcontract, hengine, _⟩ | ⟨⟨why, hcontract⟩, hengine, _⟩
    · exact ⟨fun _ => ⟨s, hcontract⟩, fun _ => hengine⟩
    · refine ⟨fun haccepts => absurd haccepts hengine, ?_⟩
      rintro ⟨s, haccepts⟩
      rw [hcontract] at haccepts
      cases haccepts
  view := (hjoint.matched h).view

/-- A transaction that has no effect reverts. -/
theorem Matched.reverts (h : now.Matched) {tx : Transaction p.deployment}
    (hnone : ∀ s, ¬ Assembly.Effect keccak256 p.deployment now.contracts tx.context tx.message s) :
    ∃ why, now.contracts.call keccak256 p.deployment tx = .error why := by
  cases hcall : now.contracts.call keccak256 p.deployment tx with
  | ok s => exact absurd ((Assembly.call_eq_ok h.register).mp hcall) (hnone s)
  | error why => exact ⟨why, rfl⟩

/-- What the engine does with a request, when the store takes writes. -/
theorem begin_cases (engine : SettlementEngine) {s : ProjectionStore σ}
    (hwritable : s.poisoned = none) (request : BeginRequest) (instant : Int) :
    ((engine.checkBegin s request instant = .ok () ∧
        s.openGaps.get (key request.tokenId) = none) ∧
      ∃ record, engine.begin s request instant none =
        (s.opened request.tokenId (SettlementEngine.BeginRequest.gap request instant),
          .ok record)) ∨
    (¬ (engine.checkBegin s request instant = .ok () ∧
        s.openGaps.get (key request.tokenId) = none) ∧
      ∃ e, engine.begin s request instant none = (s, .error e)) := by
  unfold SettlementEngine.begin
  cases hcheck : engine.checkBegin s request instant with
  | error e => exact Or.inr ⟨fun h => (by cases h.1), _, rfl⟩
  | ok u =>
      have hready := ProjectionStore.assertWritable_eq_ok (u := ()).mpr hwritable
      simp only [ProjectionStore.openGap, hready]
      cases hget : s.openGaps.get (key request.tokenId) with
      | none =>
          rw [(InsertionMap.has_eq_false _ _).mpr hget]
          exact Or.inl ⟨⟨trivial, rfl⟩, _, rfl⟩
      | some id =>
          rw [(InsertionMap.has_eq_true _ _).mpr ⟨id, hget⟩]
          exact Or.inr ⟨fun h => (by cases h.2), _, rfl⟩

/-- What the engine does with a cancellation. -/
theorem cancel_cases {s : ProjectionStore σ} (hwritable : s.poisoned = none)
    (id : Erc8415.Bytes32) (caller : Erc8415.Address) (instant : Int) :
    (SettlementEngine.checkCancel (s.settlement id) id caller instant = .ok () ∧
      ∃ pointed, s.openGaps.get (key (s.settlement id).tokenId) = some pointed ∧
        ∃ record, SettlementEngine.cancel s id caller instant none =
          (s.cancelled (s.settlement id).tokenId pointed, .ok record)) ∨
    (¬ (SettlementEngine.checkCancel (s.settlement id) id caller instant = .ok () ∧
        ∃ pointed, s.openGaps.get (key (s.settlement id).tokenId) = some pointed) ∧
      ∃ e, SettlementEngine.cancel s id caller instant none = (s, .error e)) := by
  unfold SettlementEngine.cancel
  cases hcheck : SettlementEngine.checkCancel (s.settlement id) id caller instant with
  | error e => exact Or.inr ⟨fun h => (by cases h.1), .rejection e, by simp only [hcheck]⟩
  | ok u =>
      have hready := ProjectionStore.assertWritable_eq_ok (u := ()).mpr hwritable
      simp only [hcheck, ProjectionStore.cancelGap, hready]
      cases hget : s.openGaps.get (key (s.settlement id).tokenId) with
      | none => exact Or.inr ⟨by simp, _, rfl⟩
      | some pointed => exact Or.inl ⟨trivial, pointed, rfl, _, rfl⟩

/-- What the engine does with a finalization. -/
theorem finalize_cases {s : ProjectionStore σ} (h : s.Valid) (id : Erc8415.Bytes32)
    (candidate : JsValue) (material : ProofMaterial) (instant verifierNow : Int) :
    (assertSettlementAdmission (s.settlement id) candidate instant = .ok () ∧
      ∃ c adapter, ProjectionStore.Accepted o s (s.settlement id).tokenId candidate material
          verifierNow c ∧
        ∃ result, SettlementEngine.finalize o s id candidate material instant verifierNow none =
          (s.admitted (s.settlement id).tokenId c material.remoteHeight adapter, .ok result)) ∨
    (¬ (assertSettlementAdmission (s.settlement id) candidate instant = .ok () ∧
        ∃ c, ProjectionStore.Accepted o s (s.settlement id).tokenId candidate material
          verifierNow c) ∧
      ∃ e, SettlementEngine.finalize o s id candidate material instant verifierNow none =
        (s, .error e)) := by
  unfold SettlementEngine.finalize
  cases hassert : assertSettlementAdmission (s.settlement id) candidate instant with
  | error e => exact Or.inr ⟨fun h => (by cases h.1), .rejection e, by simp only [hassert]⟩
  | ok u =>
      simp only [hassert]
      rcases ProjectionStore.admitEntry_none (o := o) h (s.settlement id).tokenId candidate material
        verifierNow with ⟨e, hrefused, heq⟩ | ⟨c, adapter, hc, _, heq⟩
      · rw [heq]
        exact Or.inr ⟨fun ⟨_, c, hc⟩ => hrefused c hc, _, rfl⟩
      · rw [heq]
        exact Or.inl ⟨trivial, c, adapter, hc, _, rfl⟩

/-- Opening a gap. -/
theorem Matched.begin_joint (h : now.Matched) (ctx : Context p.contract) (tokenId : Uint256)
    (settlementId : Bytes32) (expectedHolder : Address) (snapshotHash : Bytes32)
    (deadline : Uint64) (hne : now.contracts.register.entries tokenId ≠ [])
    (hholder : expectedHolder ≠ 0) :
    Joint keccak256 p o now
      (.begin ctx tokenId settlementId expectedHolder snapshotHash deadline) := by
  have hserved : (serveStep p.engine o now.store (SettlementCall.service o now.store
      (.begin ctx tokenId settlementId expectedHolder snapshotHash deadline))).Served :=
    h.served.step _
  unfold Joint EngineAccepts
  simp only [SettlementCall.service, SettlementCall.transaction, serve, serveStep] at hserved ⊢
  rcases begin_cases p.engine h.writable {
      tokenId := tokenId.toNat
      settlementId := bytes32Text settlementId
      initiator := addressText ctx.sender
      expectedHolder := addressText expectedHolder
      snapshotHash := bytes32Text snapshotHash
      deadline := deadline.toNat } ctx.now.toNat with ⟨⟨hcheck, hfree⟩, record, hbegin⟩ |
      ⟨hrefused, e, hbegin⟩
  · obtain ⟨hid, hsnapshot, hauthority, hnone, hfuture, hperiod⟩ := h.checkBegin_iff.mp hcheck
    have hopenGap := (h.free_iff tokenId).mp hfree
    rw [hbegin] at hserved ⊢
    refine Or.inl ⟨_, (Assembly.call_eq_ok h.register).mpr (.begun hid hholder hsnapshot hauthority
      hnone hopenGap hfuture hperiod), ⟨_, rfl⟩, ?_⟩
    exact {
      register := h.register
      pointed := h.pointed.opened hid hnone hopenGap rfl
      served := hserved
      writable := h.writable
      view := {
        openGapOf := view_pointed h.view.openGapOf tokenId settlementId
        settlement := view_record h.view.settlement settlementId
          (Assembly.gap ctx tokenId expectedHolder snapshotHash deadline)
        entries := h.view.entries }
      begun := by
        intro id hopen
        simp only [Assembly.opened] at hopen ⊢
        by_cases heq : id = settlementId
        · subst heq
          rw [Function.update_self]
          exact ⟨hne, hholder⟩
        · rw [Function.update_of_ne heq] at hopen ⊢
          exact h.begun id hopen }
  · refine Or.inr ⟨h.reverts fun s heffect => ?_, ?_, ?_⟩
    · cases heffect with
      | begun hid _ hsnapshot hauthority hnone hopenGap hfuture hperiod =>
          apply hrefused
          refine ⟨h.checkBegin_iff.mpr ?_, (h.free_iff tokenId).mpr hopenGap⟩
          exact ⟨hid, hsnapshot, hauthority, hnone, hfuture, hperiod⟩
    · rw [hbegin]
      rintro ⟨answer, hanswer⟩
      cases hanswer
    · rw [hbegin]

/-- Closing a settlement that is open, in both systems. -/
theorem Matched.closed_view (h : now.Matched) (id : Bytes32) (status : GapStatus)
    {contracts : Assembly} {store : ProjectionStore σ}
    (hcontracts : contracts.settlement = (now.contracts.closed id status).settlement)
    (hsettlements : store.settlements = now.store.settlements.set (bytes32Text id)
      { now.store.settlement (bytes32Text id) with status := status.projected })
    (hgaps : ∀ k, store.openGaps.get k =
      if key (now.contracts.settlement.settlements id).tokenId.toNat = k then none
      else now.store.openGaps.get k)
    (hentries : ∀ tokenId : Uint256,
      store.entries tokenId.toNat = contracts.register.history tokenId) :
    SameView ⟨contracts, store⟩ where
  openGapOf := by
    rw [hcontracts]
    exact view_cleared h.view.openGapOf hgaps
  settlement := by
    intro other
    have hrecord := view_record h.view.settlement id
      { now.contracts.settlement.settlements id with status := status } other
    change (store.settlements.get _).getD _ =
      (contracts.settlement.settlements other).projected other
    rw [hsettlements, h.view.settlement id, hcontracts]
    exact hrecord
  entries := hentries

/-- A settlement that is open after another was closed was open before. -/
theorem open_of_closed {s : Assembly} {id : Bytes32} {status : GapStatus} (hstatus : status ≠ .open)
    {other : Bytes32} (hopen : ((s.closed id status).settlement.settlements other).status = .open) :
    (s.closed id status).settlement.settlements other = s.settlement.settlements other ∧
      (s.settlement.settlements other).status = .open := by
  simp only [Assembly.closed, setStatus] at hopen ⊢
  by_cases heq : other = id
  · subst heq
    rw [Function.update_self] at hopen
    exact absurd hopen hstatus
  · rw [Function.update_of_ne heq] at hopen ⊢
    exact ⟨rfl, hopen⟩

theorem Matched.begun_closed (h : now.Matched) (id : Bytes32) (status : GapStatus)
    (hstatus : status ≠ .open) {register : RegisterProjection}
    (hgrows : ∀ tokenId, now.contracts.register.entries tokenId ≠ [] →
      register.entries tokenId ≠ []) (other : Bytes32)
    (hopen : ((now.contracts.closed id status).settlement.settlements other).status = .open) :
    register.entries ((now.contracts.closed id status).settlement.settlements other).tokenId ≠ [] ∧
      ((now.contracts.closed id status).settlement.settlements other).expectedHolder ≠ 0 := by
  obtain ⟨hsame, hbefore⟩ := open_of_closed hstatus hopen
  obtain ⟨hne, hholder⟩ := h.begun other hbefore
  rw [hsame]
  exact ⟨hgrows _ hne, hholder⟩

/-- The pointer of an open settlement's token names it, in the store. -/
theorem Matched.pointing (h : now.Matched) {id : Bytes32}
    (hopen : (now.contracts.settlement.settlements id).status = .open) :
    now.store.openGaps.get (key (now.store.settlement (bytes32Text id)).tokenId) =
      some (bytes32Text id) :=
  h.served.pointing ((h.status id .open).mpr hopen)

/-- Both systems ask for an open record, its initiator and a time after its deadline. -/
theorem Matched.checkCancel_iff (h : now.Matched) (ctx : Context p.contract)
    (settlementId : Bytes32) :
    SettlementEngine.checkCancel (now.store.settlement (bytes32Text settlementId))
        (bytes32Text settlementId) (addressText ctx.sender) ctx.now.toNat = .ok () ↔
      (now.contracts.settlement.settlements settlementId).status = .open ∧
        ctx.sender = (now.contracts.settlement.settlements settlementId).initiator ∧
        (now.contracts.settlement.settlements settlementId).deadline < ctx.now := by
  rw [checkCancel_eq_ok, h.view.settlement settlementId]
  simp only [Settlement.projected, toLowerCase_addressText, addressText_inj, Int.ofNat_lt]
  exact and_congr (Settlement.projected_status settlementId .open) Iff.rfl

/-- Closing a gap without an entry. -/
theorem Matched.cancel_joint (h : now.Matched) (ctx : Context p.contract)
    (settlementId reasonHash : Bytes32) :
    Joint keccak256 p o now (.cancel ctx settlementId reasonHash) := by
  have hserved : (serveStep p.engine o now.store (SettlementCall.service o now.store
      (.cancel ctx settlementId reasonHash))).Served :=
    h.served.step _
  have hrecord := h.view.settlement settlementId
  have hcheck := h.checkCancel_iff ctx settlementId
  unfold Joint EngineAccepts
  simp only [SettlementCall.service, SettlementCall.transaction, serve, serveStep] at hserved ⊢
  rcases cancel_cases h.writable (bytes32Text settlementId) (addressText ctx.sender)
    ctx.now.toNat with ⟨hok, pointed, hpointed, record, hcancel⟩ | ⟨hrefused, e, hcancel⟩
  · obtain ⟨hopen, hinitiator, hexpired⟩ := hcheck.mp hok
    rw [h.pointing hopen] at hpointed
    obtain rfl := Option.some.inj hpointed
    have hview : SameView ⟨now.contracts.closed settlementId .cancelled,
        now.store.cancelled (now.store.settlement (bytes32Text settlementId)).tokenId
          (bytes32Text settlementId)⟩ := by
      refine h.closed_view settlementId .cancelled rfl rfl (fun k => ?_) h.view.entries
      rw [hrecord]
      exact InsertionMap.get_delete ..
    rw [hcancel] at hserved ⊢
    refine Or.inl ⟨_, (Assembly.call_eq_ok h.register).mpr (.cancelled hopen hinitiator hexpired),
      ⟨_, rfl⟩, ?_⟩
    exact {
      register := h.register
      pointed := h.pointed.closed hopen (by decide)
      served := hserved
      writable := h.writable
      view := hview
      begun := h.begun_closed settlementId .cancelled (by decide) fun _ hne => hne }
  · refine Or.inr ⟨h.reverts fun s heffect => ?_, ?_, ?_⟩
    · cases heffect with
      | cancelled hopen hinitiator hexpired =>
          exact hrefused ⟨hcheck.mpr ⟨hopen, hinitiator, hexpired⟩, _, h.pointing hopen⟩
    · rw [hcancel]
      rintro ⟨answer, hanswer⟩
      cases hanswer
    · rw [hcancel]

/-- The candidate the engine is shown is the one the contract builds. -/
theorem Matched.finalCandidate_eq (h : now.Matched)
    (settlementId recordCommitment registryReference : Bytes32) (effectiveAt : Uint64) :
    finalCandidate now.store settlementId recordCommitment registryReference effectiveAt =
      now.contracts.register.candidate
        (now.contracts.settlement.settlements settlementId).tokenId
        (now.contracts.admission settlementId recordCommitment registryReference
          effectiveAt) := by
  have hrecord := h.view.settlement settlementId
  have hentries := h.view.entries (now.contracts.settlement.settlements settlementId).tokenId
  simp only [finalCandidate, hrecord, Settlement.projected, hentries, tip_history, length_history]
  rfl

/-- Both systems ask for an open record and a time not past its deadline. The candidate
names the expected holder, so what is left of the engine's check is its shape. -/
theorem Matched.assert_iff (h : now.Matched) (ctx : Context p.contract)
    (settlementId recordCommitment registryReference : Bytes32) (effectiveAt : Uint64) :
    assertSettlementAdmission (now.store.settlement (bytes32Text settlementId))
        (finalCandidate now.store settlementId recordCommitment registryReference effectiveAt).toJs
        ctx.now.toNat = .ok () ↔
      (now.contracts.settlement.settlements settlementId).status = .open ∧
        ctx.now ≤ (now.contracts.settlement.settlements settlementId).deadline ∧
        (finalCandidate now.store settlementId recordCommitment registryReference
          effectiveAt).Shaped := by
  have hrecord := h.view.settlement settlementId
  rw [assertSettlementAdmission_eq_ok, hrecord]
  refine and_congr (Settlement.projected_status settlementId .open) (and_congr Int.ofNat_le ?_)
  constructor
  · rintro ⟨c, hshape, _⟩
    exact (validateCandidateShape_toJs.mp hshape).2
  · intro hshaped
    refine ⟨_, validateCandidateShape_toJs.mpr ⟨rfl, hshaped⟩, ?_⟩
    rw [finalCandidate, hrecord]

/-- Both systems append the same entry and close the same gap. -/
theorem Matched.admitted_view (h : now.Matched) {settlementId : Bytes32} (offered : Presented)
    (hopen : (now.contracts.settlement.settlements settlementId).status = .open)
    (hroom : (now.contracts.register.entries
      (now.contracts.settlement.settlements settlementId).tokenId).length + 1 < 2 ^ 64)
    (remoteHeight : Int) (adapter : σ) :
    let tokenId := (now.contracts.settlement.settlements settlementId).tokenId
    SameView ⟨(now.contracts.wrote tokenId offered).closed settlementId .admitted,
      now.store.admitted tokenId.toNat (now.contracts.register.candidate tokenId offered)
        remoteHeight adapter⟩ := by
  intro tokenId
  have hpointer := h.pointing hopen
  rw [show (now.store.settlement (bytes32Text settlementId)).tokenId = (tokenId.toNat : Int) by
    rw [h.view.settlement settlementId]; rfl] at hpointer
  refine h.closed_view settlementId .admitted rfl ?_ (fun k => ?_) fun other => ?_
  · have hsettlements := ProjectionStore.entered_settlements now.store tokenId.toNat
      (now.contracts.register.candidate tokenId offered) adapter
    rw [hpointer] at hsettlements
    exact hsettlements
  · exact ProjectionStore.entered_openGaps_get ..
  · by_cases hother : other = tokenId
    · subst hother
      rw [ProjectionStore.admitted_entries, h.view.entries]
      exact (history_push _ _ hroom).symm
    · rw [ProjectionStore.admitted_entries_of_ne _ (mt toNat_inj_int.mp hother), h.view.entries]
      exact (history_push_of_ne _ _ hother).symm

/-- Closing a gap with an entry. -/
theorem Matched.finalize_joint (h : now.Matched) (ctx : Context p.contract)
    (settlementId recordCommitment registryReference : Bytes32) (effectiveAt : Uint64)
    (proofData : List UInt8) (remoteHeight : Int) (payload : JsValue) (verifierNow : Int)
    (hfair : Fair keccak256 p o now (.finalize ctx settlementId recordCommitment registryReference
      effectiveAt proofData remoteHeight payload verifierNow)) :
    Joint keccak256 p o now (.finalize ctx settlementId recordCommitment registryReference
      effectiveAt proofData remoteHeight payload verifierNow) := by
  have hserved : (serveStep p.engine o now.store (SettlementCall.service o now.store
      (.finalize ctx settlementId recordCommitment registryReference effectiveAt proofData
        remoteHeight payload verifierNow))).Served :=
    h.served.step _
  have hrecord := h.view.settlement settlementId
  have htoken : (now.store.settlement (bytes32Text settlementId)).tokenId =
      (now.contracts.settlement.settlements settlementId).tokenId.toNat := by
    rw [hrecord]
    rfl
  have hcandidate := h.finalCandidate_eq settlementId recordCommitment registryReference effectiveAt
  have hentries := h.view.entries (now.contracts.settlement.settlements settlementId).tokenId
  have hassert := h.assert_iff ctx settlementId recordCommitment registryReference effectiveAt
  unfold Joint EngineAccepts
  simp only [SettlementCall.service, SettlementCall.transaction, serve, serveStep] at hserved ⊢
  rcases finalize_cases (o := o) h.served.valid (bytes32Text settlementId)
    (finalCandidate now.store settlementId recordCommitment registryReference effectiveAt).toJs
    (finalMaterial o remoteHeight payload) ctx.now.toNat verifierNow with
    ⟨hok, c, adapter, hc, result, hfinalize⟩ | ⟨hrefused, e, hfinalize⟩
  · obtain ⟨hopen, hdeadline, _⟩ := hassert.mp hok
    obtain ⟨rfl, _⟩ := validateCandidateShape_toJs.mp hc.shape
    obtain ⟨hne, hholder⟩ := h.begun settlementId hopen
    obtain ⟨_, _, hverdict⟩ := hfair hopen
    have hproof := (ProjectionStore.checkProof_eq_ok.mp hc.proof).2.2.2
    have hfollows := hc.follows
    rw [htoken] at hproof
    rw [htoken, hentries, hcandidate] at hfollows
    rw [hfinalize] at hserved ⊢
    refine Or.inl ⟨_, (Assembly.call_eq_ok h.register).mpr (.finalized hopen hdeadline hne
      (hverdict.mp hproof) hholder hfollows), ⟨_, rfl⟩, ?_⟩
    have hview := h.admitted_view (now.contracts.admission settlementId recordCommitment
      registryReference effectiveAt) hopen (follows_iff.mp hfollows).2.2.2.2 remoteHeight adapter
    rw [htoken, hcandidate] at hserved ⊢
    exact {
      register := h.register.push hfollows
      pointed := h.pointed.closed hopen (by decide)
      served := hserved
      writable := (ProjectionStore.entered_poisoned ..).trans h.writable
      view := hview
      begun := h.begun_closed settlementId .admitted (by decide) fun _ hbefore =>
        push_entries_ne_nil _ _ _ hbefore }
  · refine Or.inr ⟨h.reverts fun s heffect => ?_, ?_, ?_⟩
    · cases heffect with
      | finalized hopen hdeadline hne hverified hholder hc =>
          obtain ⟨hfinalized, hheight, hverdict⟩ := hfair hopen
          rw [← hcandidate, ← hentries] at hc
          refine hrefused ⟨hassert.mpr ⟨hopen, hdeadline, hc.shaped⟩, _, h.writable,
            validateCandidateShape_toJs.mpr ⟨rfl, hc.shaped⟩, ?_, ?_⟩
          · rw [htoken]
            exact ProjectionStore.checkProof_eq_ok.mpr
              ⟨rfl, hfinalized, hheight, hverdict.mpr hverified⟩
          · rw [htoken]
            exact hc
    · rw [hfinalize]
      rintro ⟨answer, hanswer⟩
      cases hanswer
    · rw [hfinalize]

/-- Any call it is fair to make. -/
theorem Matched.joint (h : now.Matched) (hfair : Fair keccak256 p o now call) :
    Joint keccak256 p o now call := by
  cases call with
  | begin => exact h.begin_joint _ _ _ _ _ _ hfair.1 hfair.2
  | finalize => exact h.finalize_joint _ _ _ _ _ _ _ _ _ hfair
  | cancel => exact h.cancel_joint _ _ _

end Matched

/-- The settlement contract refines the engine: from an initialized register, every call of
a fair sequence is taken by both systems or by neither, and leaves them alike. -/
theorem run_refines (start : Systems σ) (hstart : start.Initialized)
    (calls : List (SettlementCall p.contract))
    (hfair : LabelledRun.Admissible (step keccak256 p o) (Fair keccak256 p o) start calls) :
    LabelledRun.Admissible (step keccak256 p o) (Alike keccak256 p o) start calls :=
  LabelledRun.admissible_mono (step keccak256 p o) Matched
    (fun _ _ h hfair => (h.joint hfair).alike h) (fun _ _ h hfair => (h.joint hfair).matched h)
    hstart.matched hfair

/-! ### An admission and a cancellation -/

section Sample

open ProjectionStore (initial memoryConfig)

/-- The hash of the two messages the settlement below hashes. -/
def sampleKeccak256 (message : List UInt8) : Bytes32 :=
  if message = bindingTag then
    0x9ee1282b3e416fc4015f57a2e873f55254c8509e3007fda2f1c61dd9a088e391
  else 0x03c35e039cf03399e1e5cb644f0f953fafd6dd4b04272689087b382477e140d8

def sampleSettings : Settings := ⟨7, 0x99, 1000, [0xa1]⟩

def sampleContext (timestamp : Uint64) : Context sampleSettings.contract where
  sender := 0xa1
  sender_ne := by decide
  chainid := 1
  timestamp := timestamp.setWidth 256
  timestamp_lt := by
    have := timestamp.isLt
    simp only [BitVec.toNat_setWidth]
    omega
  verifyAdmission _ _ := true

def firstPresented : Presented := ⟨1, 0, 2, 0xbb, 100⟩

def sampleRegister : RegisterProjection := deployed.push 1 (deployed.nextEntry 1 firstPresented)

def sampleStore : ProjectionStore MemoryChain :=
  (initial (MemoryChain.new {}) JournalContent.empty).step memoryConfig
    (.mutate (.admitEntry 1 (deployed.candidate 1 firstPresented).toJs ⟨"trusting", 5, .null⟩ 150)
      none)

def sampleStart : Systems MemoryChain := ⟨⟨sampleRegister, .deployed⟩, sampleStore⟩

theorem sampleStore_eq : ∃ adapter,
    sampleStore = (initial (MemoryChain.new {}) JournalContent.empty).admitted 1
      (deployed.candidate 1 firstPresented) 5 adapter :=
  ⟨_, rfl⟩

theorem sampleStart_initialized : sampleStart.Initialized where
  register := Valid.deployed.push (follows_iff.mpr (by decide))
  settlement := rfl
  valid := by
    change sampleStore.Valid
    unfold sampleStore
    exact (ProjectionStore.Valid.initial _ _).step _
  gaps := rfl
  settlements := rfl
  writable := rfl
  entries tokenId := by
    obtain ⟨adapter, hstore⟩ := sampleStore_eq
    change sampleStore.entries _ = sampleRegister.history _
    rw [hstore, sampleRegister]
    by_cases htoken : tokenId = 1
    · subst htoken
      rw [history_push _ _ (by decide)]
      exact ProjectionStore.admitted_entries ..
    · rw [history_push_of_ne _ _ htoken]
      exact ProjectionStore.admitted_entries_of_ne _ (mt toNat_inj_int.mp htoken) ..

/-- A gap admitted, and one cancelled after its deadline. -/
def sampleCalls : List (SettlementCall sampleSettings.contract) :=
  [.begin (sampleContext 50) 1 5 0xcc 6 200,
    .finalize (sampleContext 150) 5 3 4 300 [] 7 .null 150,
    .begin (sampleContext 160) 1 8 0xdd 9 400,
    .cancel (sampleContext 401) 8 0]

theorem sampleCalls_fair :
    LabelledRun.Admissible (step sampleKeccak256 sampleSettings memoryConfig)
      (Fair sampleKeccak256 sampleSettings memoryConfig) sampleStart sampleCalls := by
  refine ⟨⟨by decide, by decide⟩, ?_, ⟨by decide +kernel, by decide⟩, trivial, trivial⟩
  intro _
  refine ⟨by decide +kernel, by decide +kernel, ?_⟩
  exact ⟨fun _ => rfl, fun _ => rfl⟩

theorem run_refines_sample :
    LabelledRun.Admissible (step sampleKeccak256 sampleSettings memoryConfig)
      (Alike sampleKeccak256 sampleSettings memoryConfig) sampleStart sampleCalls :=
  run_refines sampleKeccak256 sampleSettings memoryConfig sampleStart sampleStart_initialized
    sampleCalls sampleCalls_fair

end Sample

end Systems

end Erc8415.Contracts
