import Erc8415.Contracts.AssemblyInvariant
import Erc8415.Foundation.NestedCalls

/-! # The record-date claim

A consumer of the register: it pays the holder of record at one instant, once.
The payout hands control to the payee, who may call any of the contracts before
it returns, and whose failure undoes the claim with everything done inside it.
-/

namespace Erc8415.Contracts

open ProjectionSettlement RegisterProjection NestedCalls

/-- What the constructor of `RecordDateClaim` fixes. -/
structure RecordDateClaim where
  tokenId : Uint256
  recordDate : Uint64
  amount : Uint256

structure Payment where
  payee : Address
  amount : Uint256
  deriving DecidableEq, Repr

/-- The storage of the three contracts, and the claim's ether: what it holds and what it has
paid. -/
structure ClaimWorld where
  contracts : Assembly
  claimed : Bool
  balance : ℕ
  payments : List Payment

/-- Why the machine is inside a call: the payout of a claim, or any other call. -/
inductive ClaimCall where
  | payout (caller : Address)
  | other
  deriving DecidableEq, Repr

/-- What can happen, inside a transaction or between two: a transaction's call on the register
or the settlement contract, ether sent to the claim by force, a call of `claim`, and the
beginning and the end of a call. -/
inductive ClaimEvent (d : Deployment) where
  | transact (tx : Transaction d)
  | fund (value : ℕ)
  | claim (caller : Address)
  | enter
  | leave (success : Bool)

namespace RecordDateClaim

variable (keccak256 : List UInt8 → Bytes32) (d : Deployment) (c : RecordDateClaim)

/-- The constructor, on an address that may hold ether already. -/
def construct (contracts : Assembly) (held : ℕ) (value : Uint256) : Except Revert ClaimWorld := do
  revertIf (value ≠ c.amount) (.claim .incorrectFunding)
  return ⟨contracts, false, held + value.toNat, []⟩

/-- `claim` up to the payout: the checks, the effect before the external call, and the
payment. A payment the balance does not cover fails before the payee runs. -/
def claim (w : ClaimWorld) (caller : Address) : Except Revert ClaimWorld := do
  revertIf (w.claimed = true) (.claim .alreadyClaimed)
  revertIf (w.contracts.register.isFinalAsOf c.tokenId c.recordDate = false) (.claim .notFinal)
  let holder ← w.contracts.register.holderAsOf c.tokenId c.recordDate
  revertIf (holder ≠ caller) (.claim .notHolder)
  revertIf (w.contracts.settlement.openGap c.tokenId ≠ 0) (.claim .gapOpen)
  revertIf (w.balance < c.amount.toNat) (.claim .payoutFailed)
  return {
    contracts := w.contracts
    claimed := true
    balance := w.balance - c.amount.toNat
    payments := w.payments ++ [⟨caller, c.amount⟩] }

/-- A claim that passes its checks goes on inside the payout; its end is the end of the
payout, which fails with the payee. -/
def step (m : Machine ClaimWorld ClaimCall) : ClaimEvent d → Machine ClaimWorld ClaimCall
  | .transact tx => m.move { m.now with contracts := m.now.contracts.step keccak256 d tx }
  | .fund value => m.move { m.now with balance := m.now.balance + value }
  | .claim caller =>
      match c.claim m.now caller with
      | .ok w => m.enter (.payout caller) w
      | .error _ => m
  | .enter => m.enter .other m.now
  | .leave success => m.leave success

/-! ## Who is paid -/

/-- The state in which a caller may be paid. -/
structure Payable (w : ClaimWorld) (caller : Address) : Prop where
  final : w.contracts.register.isFinalAsOf c.tokenId c.recordDate = true
  holder : w.contracts.register.holderAsOf c.tokenId c.recordDate = .ok caller
  noGap : w.contracts.settlement.openGap c.tokenId = 0

/-- The claim's account: nothing paid and the amount at hand, or one payment of the amount. -/
inductive Account (w : ClaimWorld) : Prop
  | unpaid (claimed : w.claimed = false) (payments : w.payments = [])
      (funded : c.amount.toNat ≤ w.balance)
  | paid (claimed : w.claimed = true) (payee : Address)
      (payments : w.payments = [⟨payee, c.amount⟩])

/-- What the payout of a claim changed when it began. -/
structure Opened (before : ClaimWorld) (caller : Address) (after : ClaimWorld) : Prop where
  payable : c.Payable before caller
  unclaimed : before.claimed = false
  contracts : after.contracts = before.contracts
  claimed : after.claimed = true
  balance : after.balance + c.amount.toNat = before.balance
  payments : after.payments = before.payments ++ [⟨caller, c.amount⟩]

/-- What no later state takes back. -/
structure Settled (w w' : ClaimWorld) : Prop where
  register : Settles c.tokenId c.recordDate w.contracts.register w'.contracts.register
  payments : w.payments <+: w'.payments

variable {keccak256 d c} {w w' : ClaimWorld} {caller : Address}

theorem claim_eq_ok :
    c.claim w caller = .ok w' ↔ c.Opened w caller w' := by
  simp only [claim, bind_eq_ok, revertIf_eq_ok, Bool.not_eq_true, Bool.not_eq_false, not_not,
    not_lt]
  constructor
  · rintro ⟨_, hunclaimed, _, hfinal, holder, hholder, _, rfl, _, hgap, _, hcovered, heq⟩
    cases heq
    exact ⟨⟨hfinal, hholder, hgap⟩, hunclaimed, rfl, rfl, Nat.sub_add_cancel hcovered, rfl⟩
  · rintro ⟨⟨hfinal, hholder, hgap⟩, hunclaimed, hcontracts, hclaimed, hbalance, hpayments⟩
    refine ⟨(), hunclaimed, (), hfinal, caller, hholder, (), rfl, (), hgap, (), by omega, ?_⟩
    cases w'
    simp only [pure, Except.pure, Except.ok.injEq, ClaimWorld.mk.injEq]
    exact ⟨hcontracts.symm, hclaimed.symm, by dsimp only at hbalance; omega, hpayments.symm⟩

/-! ## What stands -/

theorem Settled.refl (w : ClaimWorld) : c.Settled w w :=
  ⟨.refl c.tokenId c.recordDate _, List.prefix_rfl⟩

theorem Settled.trans {u : ClaimWorld} (h : c.Settled w w') (h' : c.Settled w' u) :
    c.Settled w u :=
  ⟨h.register.trans h'.register, h.payments.trans h'.payments⟩

/-- What every trail of a run keeps. -/
structure Standing (c : RecordDateClaim) (t : Trail ClaimWorld) : Prop where
  sound : t.now.contracts.Sound
  account : c.Account t.now
  settled : t.states.Pairwise fun later before => c.Settled before later
  paid : ∀ p ∈ t.now.payments, ∃ w ∈ t.earlier, c.Payable w p.payee ∧ w.claimed = false

namespace Standing

variable {t : Trail ClaimWorld}

theorem settled_now (h : c.Standing t) (hw : w ∈ t.states) : c.Settled w t.now := by
  rcases List.mem_cons.mp hw with rfl | hearlier
  · exact .refl t.now
  · exact (List.pairwise_cons.mp h.settled).1 w hearlier

/-- A payment that stands is found again among the states before a move. -/
theorem paid_move (h : c.Standing t) {p : Payment} (hp : p ∈ t.now.payments) :
    ∃ w ∈ t.states, c.Payable w p.payee ∧ w.claimed = false := by
  obtain ⟨w, hw, hpayable⟩ := h.paid p hp
  exact ⟨w, List.mem_cons_of_mem t.now hw, hpayable⟩

/-- A move that neither claims nor pays. -/
theorem move (h : c.Standing t) (hsound : w.contracts.Sound)
    (hregister : Settles c.tokenId c.recordDate t.now.contracts.register w.contracts.register)
    (hclaimed : w.claimed = t.now.claimed) (hbalance : t.now.balance ≤ w.balance)
    (hpayments : w.payments = t.now.payments) : c.Standing (t.move w) where
  sound := hsound
  account := by
    cases h.account with
    | unpaid hunclaimed hnone hfunded =>
        exact .unpaid (hclaimed.trans hunclaimed) (hpayments.trans hnone) (hfunded.trans hbalance)
    | paid hclaimed' payee hone =>
        exact .paid (hclaimed.trans hclaimed') payee (hpayments.trans hone)
  settled := Trail.pairwise_move (fun _ _ huv hvw => huv.trans hvw) h.settled
    ⟨hregister, by rw [hpayments]⟩
  paid p hp := h.paid_move (hpayments ▸ hp)

/-- The payout of a claim. -/
theorem opened (h : c.Standing t) (hopened : c.Opened t.now caller w) :
    t.now.payments = [] ∧ c.Standing (t.move w) := by
  obtain ⟨hpayable, hunclaimed, hcontracts, hclaimed, hbalance, hpayments⟩ := hopened
  have hnone : t.now.payments = [] := by
    cases h.account with
    | unpaid _ hnone _ => exact hnone
    | paid hclaimed' _ _ =>
        rw [hunclaimed] at hclaimed'
        cases hclaimed'
  refine ⟨hnone, ?_, ?_, ?_, ?_⟩
  · change w.contracts.Sound
    rw [hcontracts]
    exact h.sound
  · exact .paid hclaimed caller (by rw [Trail.move, hpayments, hnone]; rfl)
  · apply Trail.pairwise_move (fun _ _ huv hvw => huv.trans hvw) h.settled
    refine ⟨?_, hpayments ▸ List.prefix_append _ _⟩
    rw [hcontracts]
    exact .refl c.tokenId c.recordDate _
  · intro p hp
    change p ∈ w.payments at hp
    rw [hpayments, hnone, List.nil_append, List.mem_singleton] at hp
    subst hp
    exact ⟨t.now, t.now_mem, hpayable, hunclaimed⟩

end Standing

/-- How a call in progress began. -/
def Opens (c : RecordDateClaim) : ClaimCall → ClaimWorld → ClaimWorld → Prop
  | .payout caller, before, entered => c.Opened before caller entered
  | .other, before, entered => entered = before

variable {m : Machine ClaimWorld ClaimCall}

theorem step_coherent (h : m.Coherent c.Standing c.Opens) (event : ClaimEvent d) :
    (c.step keccak256 d m event).Coherent c.Standing c.Opens := by
  cases event with
  | transact tx =>
      exact h.move (h.trail.move (h.trail.sound.step tx)
        (h.trail.sound.step_settles tx c.tokenId c.recordDate) rfl le_rfl rfl)
  | fund value =>
      exact h.move (h.trail.move h.trail.sound (.refl c.tokenId c.recordDate _) rfl
        (Nat.le_add_right _ value) rfl)
  | claim caller =>
      simp only [step]
      cases hclaim : c.claim m.now caller with
      | error why => exact h
      | ok w =>
          have hopened := claim_eq_ok.mp hclaim
          exact h.enter (h.trail.opened hopened).2 hopened
  | enter =>
      exact h.enter (h.trail.move h.trail.sound (.refl c.tokenId c.recordDate _) rfl le_rfl rfl) rfl
  | leave success => exact h.leave success

theorem step_committed (h : Machine.Committed w m) (event : ClaimEvent d) :
    Machine.Committed w (c.step keccak256 d m event) := by
  cases event with
  | transact tx => exact h.move _
  | fund value => exact h.move _
  | claim caller =>
      simp only [step]
      cases c.claim m.now caller with
      | error why => exact h
      | ok w => exact h.enter _ _
  | enter => exact h.enter _ _
  | leave success => exact h.leave success

/-- While a payout is in progress, its payment is the one that stands. -/
theorem paying (h : m.Coherent c.Standing c.Opens) {f : Frame ClaimWorld ClaimCall}
    (hf : f ∈ m.stack) (htag : f.tag = .payout caller) :
    c.Opened f.before.now caller f.entered ∧ m.now.payments = [⟨caller, c.amount⟩] := by
  obtain ⟨hbefore, hopens⟩ := h.frames f hf
  rw [htag] at hopens
  have hopened : c.Opened f.before.now caller f.entered := hopens
  have hentered : f.entered.payments = [⟨caller, c.amount⟩] := by
    rw [hopened.payments, (hbefore.opened hopened).1, List.nil_append]
  have hmem : f.entered ∈ m.trail.states := (h.nested f hf).subset List.mem_cons_self
  have hstarts := (h.trail.settled_now hmem).payments
  rw [hentered] at hstarts
  refine ⟨hopened, ?_⟩
  change m.trail.now.payments = _
  cases h.trail.account with
  | unpaid _ hnone _ =>
      rw [hnone] at hstarts
      exact absurd (List.prefix_nil.mp hstarts) (List.cons_ne_nil _ _)
  | paid _ payee hone =>
      rw [hone] at hstarts ⊢
      exact (hstarts.eq_of_length rfl).symm

/-! ## Whole runs -/

section Runs

variable (keccak256 d c)

/-- What holds in every state of a run, between transactions and inside them. -/
structure PaysOnce (m : Machine ClaimWorld ClaimCall) : Prop where
  once : m.now.payments.length ≤ 1
  exactly : ∀ p ∈ m.now.payments, p.amount = c.amount
  claimed : m.now.claimed = true ↔ m.now.payments ≠ []
  holder : ∀ p ∈ m.now.payments, ∃ w ∈ m.trail.earlier, c.Payable w p.payee ∧ w.claimed = false
  accepts : ∀ caller w, c.claim m.now caller = .ok w →
    c.Opened m.now caller w ∧
      c.step keccak256 d m (.claim caller) = m.enter (.payout caller) w
  refuses : ∀ caller why, c.claim m.now caller = .error why →
    c.step keccak256 d m (.claim caller) = m
  returns : ∀ f rest caller, m.stack = f :: rest → f.tag = .payout caller →
    c.step keccak256 d m (.leave true) = ⟨m.trail, rest⟩ ∧
      m.now.payments = [⟨caller, c.amount⟩]
  fails : ∀ f rest caller, m.stack = f :: rest → f.tag = .payout caller →
    c.step keccak256 d m (.leave false) = ⟨f.before, rest⟩ ∧
      c.Opened f.before.now caller f.entered
  permanent : ∀ w ∈ m.trail.states,
    Settles c.tokenId c.recordDate w.contracts.register m.now.contracts.register
  single : ∀ w ∈ m.trail.states,
    w.contracts.register.isFinalAsOf c.tokenId c.recordDate = true →
    ∀ caller w', c.claim m.now caller = .ok w' →
      w.contracts.register.holderAsOf c.tokenId c.recordDate = .ok caller
  committed : m.stack = [] → ∀ later : List (ClaimEvent d),
    m.now ∈ (LabelledRun.run (c.step keccak256 d) m later).trail.states

variable {keccak256 d c}

theorem Account.once (h : c.Account w) :
    w.payments.length ≤ 1 ∧ (∀ p ∈ w.payments, p.amount = c.amount) ∧
      (w.claimed = true ↔ w.payments ≠ []) := by
  cases h with
  | unpaid hunclaimed hnone _ => simp [hunclaimed, hnone]
  | paid hclaimed payee hone => simp [hclaimed, hone]

theorem paysOnce (h : m.Coherent c.Standing c.Opens) : c.PaysOnce keccak256 d m := by
  obtain ⟨honce, hexactly, hclaimed⟩ := h.trail.account.once
  exact {
    once := honce
    exactly := hexactly
    claimed := hclaimed
    holder := h.trail.paid
    accepts := fun caller w hclaim => ⟨claim_eq_ok.mp hclaim, by simp only [step, hclaim]⟩
    refuses := fun caller why hclaim => by simp only [step, hclaim]
    returns := fun f rest caller hstack htag => by
      refine ⟨by simp [step, Machine.leave, hstack], ?_⟩
      exact (paying h (hstack ▸ List.mem_cons_self) htag).2
    fails := fun f rest caller hstack htag => by
      refine ⟨by simp [step, Machine.leave, hstack], ?_⟩
      exact (paying h (hstack ▸ List.mem_cons_self) htag).1
    permanent := fun w hw => (h.trail.settled_now hw).register
    single := fun w hw hfinal caller w' hclaim => by
      obtain ⟨e, he, hholder⟩ := holderAsOf_eq_ok.mp (claim_eq_ok.mp hclaim).payable.holder
      have hsame := ((h.trail.settled_now hw).register hfinal).2
      exact holderAsOf_eq_ok.mpr ⟨e, hsame ▸ he, hholder⟩
    committed := fun hidle later =>
      (LabelledRun.run_invariant (c.step keccak256 d) (Machine.Committed m.now)
        (fun _ event hs => step_committed hs event) (.of_idle hidle) later).trail }

/-- From its construction on, over contracts that any transactions led to, the claim pays the
holder of record the amount, once, whatever callers and payees do. -/
theorem run_pays_once (txs : List (Transaction d)) (held : ℕ) (value : Uint256)
    (start : ClaimWorld)
    (hstart : c.construct (LabelledRun.run (Assembly.step keccak256 d) .deployed txs) held value =
      .ok start) (events : List (ClaimEvent d)) :
    c.PaysOnce keccak256 d
      (LabelledRun.run (c.step keccak256 d) (Machine.start start) events) := by
  apply paysOnce
  apply LabelledRun.run_invariant (c.step keccak256 d) (Machine.Coherent c.Standing c.Opens)
    (fun _ event h => step_coherent h event)
  apply Machine.Coherent.start
  simp only [construct, bind_eq_ok, revertIf_eq_ok, not_not] at hstart
  obtain ⟨_, rfl, heq⟩ := hstart
  cases heq
  exact {
    sound := Assembly.Sound.deployed.run txs
    account := .unpaid rfl rfl (Nat.le_add_left _ held)
    settled := List.pairwise_singleton ..
    paid := nofun }

end Runs

/-! ### A holder of record paid -/

section Paid

/-- The hash of the messages hashed below: the tag, a first entry's fields, an admission's. -/
def paidKeccak256 (message : List UInt8) : Bytes32 :=
  if message = bindingTag then
    0x9ee1282b3e416fc4015f57a2e873f55254c8509e3007fda2f1c61dd9a088e391
  else if message.drop 352 = abiEncode [2] then
    0xb23bca412298675f4055106aa16c074c5eaea9b732751731ebba7e2c5b94272e
  else 0xafe7608b305ae275eb20330e4f1816d134ee6ac0db5d2de429371b370bbbe801

def paidDeployment : Deployment where
  register := ⟨7, 0x99⟩
  settlement := ⟨0x99, 1000, fun account => account = 0xa1⟩
  authority := rfl

def paidContext (timestamp : Uint64) : Context paidDeployment.settlement.address where
  sender := 0xa1
  sender_ne := by decide
  chainid := 1
  timestamp := timestamp.setWidth 256
  timestamp_lt := by
    rw [BitVec.toNat_setWidth]
    exact Nat.lt_of_le_of_lt (Nat.mod_le ..) timestamp.isLt
  verifyAdmission _ _ := true

/-- Two entries of one holder, effective on either side of the record date. -/
def paidTransactions : List (Transaction paidDeployment) :=
  [⟨paidContext 20, .initializeRegister 1 1 2 0xbb 100 []⟩,
    ⟨paidContext 50, .beginSettlement 1 5 0xbb 6 200⟩,
    ⟨paidContext 150, .finalizeSettlement 5 3 4 300 []⟩]

def paidClaim : RecordDateClaim := ⟨1, 150, 10⟩

def paidStart : ClaimWorld :=
  ⟨LabelledRun.run (Assembly.step paidKeccak256 paidDeployment) .deployed paidTransactions, false,
    10, []⟩

/-- The payee calls `claim` again before it takes the payment. -/
def paidEvents : List (ClaimEvent paidDeployment) := [.claim 0xbb, .claim 0xbb, .leave true]

def paidMachine : Machine ClaimWorld ClaimCall :=
  LabelledRun.run (paidClaim.step paidKeccak256 paidDeployment) (.start paidStart) paidEvents

theorem run_pays_once_holder : paidClaim.PaysOnce paidKeccak256 paidDeployment paidMachine :=
  run_pays_once paidTransactions 0 10 paidStart rfl paidEvents

theorem paid_claimed : paidMachine.now.claimed = true := by decide +kernel

/-- A claim after the first one reverts and leaves `claimed` true. -/
theorem second_claim_reverts :
    paidClaim.claim paidMachine.now 0xbb = .error (.claim .alreadyClaimed) ∧
      (paidClaim.step paidKeccak256 paidDeployment paidMachine (.claim 0xbb)).now.claimed =
        true := by
  have hreverts : paidClaim.claim paidMachine.now 0xbb = .error (.claim .alreadyClaimed) := by
    rw [claim, revertIf, if_pos paid_claimed]
    rfl
  refine ⟨hreverts, ?_⟩
  simp only [step, hreverts]
  exact paid_claimed

end Paid

end RecordDateClaim

end Erc8415.Contracts
