import Erc8415.Contracts.RegisterHistory
import Erc8415.Foundation.LabelledRun

/-! # The kernel and the register

The in-process kernel and the register contract, shown the same candidates for
the same tokens, each as the version after the ones it holds. The two keep equal
histories for as long as no candidate that would otherwise be accepted names the
zero address: the contract refuses such a holder and the kernel takes it.
-/

namespace Erc8415.Contracts

/-- What both sides are shown for a token. -/
structure Offer where
  tokenId : Uint256
  recordCommitment : Bytes32
  registryReference : Bytes32
  holder : Address
  effectiveAt : Uint64
  deriving DecidableEq, Repr

/-- The kernel of every token, and the register contract. -/
structure Pair where
  kernel : Uint256 → TokenProjection
  register : RegisterProjection

namespace Pair

/-- Both empty. -/
def fresh : Pair := ⟨fun _ => .empty, .deployed⟩

/-! ## Showing a candidate -/

/-- The candidate as the kernel is shown it: the next version, linked to the
current commitment. -/
def kernelCandidate (p : TokenProjection) (offer : Offer) : CandidateEntry where
  recordCommitment := bytes32Text offer.recordCommitment
  previousCommitment := tip p.entries
  registryReference := bytes32Text offer.registryReference
  holder := addressText offer.holder
  version := p.length + 1
  effectiveAt := offer.effectiveAt.toNat

def kernelAdmit (now : Pair) (offer : Offer) :
    Except ProjectionError (TokenProjection × ProjectionEntry) :=
  (now.kernel offer.tokenId).admitEntry (kernelCandidate (now.kernel offer.tokenId) offer).toJs

/-- The contract is called by its source authority: `initialize` for a first entry,
`admit` for a later one. -/
def registerAdmit (d : RegisterDeployment) (now : Pair) (offer : Offer) :
    Except Revert RegisterProjection :=
  match (now.register.entries offer.tokenId).getLast? with
  | none =>
      now.register.initializeEntry d d.sourceAuthority offer.tokenId offer.recordCommitment
        offer.registryReference offer.holder offer.effectiveAt
  | some latest =>
      now.register.admitEntry d d.sourceAuthority offer.tokenId offer.recordCommitment
        latest.recordCommitment offer.registryReference offer.holder offer.effectiveAt

/-- The kernel after a call. A rejection leaves no trace. -/
def kernelAfter (now : Pair) (offer : Offer) : Uint256 → TokenProjection :=
  match now.kernelAdmit offer with
  | .ok (p, _) => Function.update now.kernel offer.tokenId p
  | .error _ => now.kernel

/-- The storage after a call. A revert restores it. -/
def registerAfter (d : RegisterDeployment) (now : Pair) (offer : Offer) : RegisterProjection :=
  match now.registerAdmit d offer with
  | .ok s => s
  | .error _ => now.register

def step (d : RegisterDeployment) (now : Pair) (offer : Offer) : Pair :=
  ⟨now.kernelAfter offer, now.registerAfter d offer⟩

/-- The kernel and the contract treat a candidate alike: both accept it or neither does, a
refusal leaves both unchanged, and the entry lists are equal afterwards, field by field. -/
structure Together (d : RegisterDeployment) (now : Pair) (offer : Offer) : Prop where
  accepts : (∃ result, now.kernelAdmit offer = .ok result) ↔
    ∃ s, now.registerAdmit d offer = .ok s
  refused : (¬ ∃ result, now.kernelAdmit offer = .ok result) → now.step d offer = now
  entries : ∀ tokenId, ((now.step d offer).kernel tokenId).entries =
    (now.step d offer).register.history tokenId

/-- The candidate names the zero address, and nothing else is wrong with it. -/
structure Unheld (now : Pair) (offer : Offer) : Prop where
  holder : offer.holder = 0
  nonzero : offer.recordCommitment ≠ 0
  later : ∀ e, (now.register.entries offer.tokenId).getLast? = some e →
    e.effectiveAt < offer.effectiveAt
  fresh : offer.recordCommitment ∉
    (now.register.entries offer.tokenId).map fun e => e.recordCommitment
  room : (now.register.entries offer.tokenId).length + 1 < 2 ^ 64

/-! ## Equal histories -/

/-- The two sides hold the same history of every token. -/
structure Agrees (now : Pair) : Prop where
  register : now.register.Valid
  kernel : ∀ tokenId, (now.kernel tokenId).Valid
  entries : ∀ tokenId, (now.kernel tokenId).entries = now.register.history tokenId

theorem Agrees.fresh : Agrees fresh where
  register := .deployed
  kernel _ := TokenProjection.Valid.empty
  entries _ := rfl

variable {d : RegisterDeployment} {now : Pair} {offer : Offer}

/-- What the contract is shown. -/
def presented (now : Pair) (offer : Offer) : RegisterProjection.Presented where
  recordCommitment := offer.recordCommitment
  previousCommitment := now.register.tipWord offer.tokenId
  registryReference := offer.registryReference
  holder := offer.holder
  effectiveAt := offer.effectiveAt

theorem Agrees.candidate (h : Agrees now) (offer : Offer) :
    kernelCandidate (now.kernel offer.tokenId) offer =
      now.register.candidate offer.tokenId (now.presented offer) := by
  simp only [kernelCandidate, TokenProjection.length, h.entries, RegisterProjection.tip_history,
    RegisterProjection.length_history]
  rfl

/-- The kernel accepts what follows the common history. -/
theorem Agrees.kernelAdmit_eq_ok (h : Agrees now) {p : TokenProjection} {e : ProjectionEntry} :
    now.kernelAdmit offer = .ok (p, e) ↔
      Follows (now.register.history offer.tokenId)
          (now.register.candidate offer.tokenId (now.presented offer)) ∧
        p = (now.kernel offer.tokenId).append
          (now.register.candidate offer.tokenId (now.presented offer)) ∧
        e = { now.register.candidate offer.tokenId (now.presented offer) with
          supersededAt := 0 } := by
  rw [kernelAdmit, TokenProjection.admit_eq_ok (h.kernel _), h.candidate, h.entries]
  constructor
  · rintro ⟨c, hshape, hc, hp, he⟩
    obtain ⟨rfl, _⟩ := validateCandidateShape_toJs.mp hshape
    exact ⟨hc, hp, he⟩
  · rintro ⟨hc, hp, he⟩
    exact ⟨_, validateCandidateShape_toJs.mpr ⟨rfl, hc.shaped⟩, hc, hp, he⟩

/-- The contract accepts it when it also names a holder. -/
theorem Agrees.registerAdmit_eq_ok (h : Agrees now) {s : RegisterProjection} :
    now.registerAdmit d offer = .ok s ↔
      offer.holder ≠ 0 ∧
        Follows (now.register.history offer.tokenId)
          (now.register.candidate offer.tokenId (now.presented offer)) ∧
        s = now.register.push offer.tokenId
          (now.register.nextEntry offer.tokenId (now.presented offer)) := by
  unfold registerAdmit
  cases hlast : (now.register.entries offer.tokenId).getLast? with
  | none =>
      have hnil := List.getLast?_eq_none_iff.mp hlast
      have htip : now.register.tipWord offer.tokenId = 0 := by
        simp only [RegisterProjection.tipWord, hlast]
      simp only [RegisterProjection.initializeEntry_eq_ok, presented, htip, hnil, true_and]
  | some latest =>
      have hne : now.register.entries offer.tokenId ≠ [] := by
        intro hnil
        rw [hnil] at hlast
        cases hlast
      have htip : now.register.tipWord offer.tokenId = latest.recordCommitment := by
        simp only [RegisterProjection.tipWord, hlast]
      simp only [← htip]
      refine (h.register.admitEntry_eq_ok (p := now.presented offer)).trans ?_
      simp only [hne, ne_eq, not_false_eq_true, true_and]
      rfl

theorem unheld_iff : Unheld now offer ↔ offer.holder = 0 ∧
    Follows (now.register.history offer.tokenId)
      (now.register.candidate offer.tokenId (now.presented offer)) := by
  rw [RegisterProjection.follows_iff]
  constructor
  · intro h
    exact ⟨h.holder, h.nonzero, rfl, h.later, h.fresh, h.room⟩
  · rintro ⟨hholder, hzero, _, hlater, hfresh, hroom⟩
    exact ⟨hholder, hzero, hlater, hfresh, hroom⟩

/-- Both sides accept: each extends the common history by the same candidate. -/
theorem Agrees.step_accepted (h : Agrees now) (hholder : offer.holder ≠ 0)
    (hc : Follows (now.register.history offer.tokenId)
      (now.register.candidate offer.tokenId (now.presented offer))) :
    Agrees (now.step d offer) := by
  have hkernel := h.kernelAdmit_eq_ok.mpr ⟨hc, rfl, rfl⟩
  have hregister := (h.registerAdmit_eq_ok (d := d)).mpr ⟨hholder, hc, rfl⟩
  have hfollows : Follows (now.kernel offer.tokenId).entries
      (now.register.candidate offer.tokenId (now.presented offer)) := by
    rw [h.entries]
    exact hc
  have hroom := (RegisterProjection.follows_iff.mp hc).2.2.2.2
  simp only [step, kernelAfter, registerAfter, hkernel, hregister]
  refine ⟨h.register.push hc, fun tokenId => ?_, fun tokenId => ?_⟩
  · dsimp only
    by_cases htoken : tokenId = offer.tokenId
    · subst htoken
      rw [Function.update_self]
      exact (h.kernel _).append hfollows
    · rw [Function.update_of_ne htoken]
      exact h.kernel tokenId
  · dsimp only
    by_cases htoken : tokenId = offer.tokenId
    · subst htoken
      rw [Function.update_self, TokenProjection.append_entries, h.entries,
        RegisterProjection.history_push _ _ hroom]
    · rw [Function.update_of_ne htoken, RegisterProjection.history_push_of_ne _ _ htoken]
      exact h.entries tokenId

/-- Neither side accepts, so neither changes. -/
theorem Agrees.step_refused (h : Agrees now)
    (hc : ¬ Follows (now.register.history offer.tokenId)
      (now.register.candidate offer.tokenId (now.presented offer))) :
    (¬ ∃ result, now.kernelAdmit offer = .ok result) ∧
      (¬ ∃ s, now.registerAdmit d offer = .ok s) ∧ now.step d offer = now := by
  have hkernel : ¬ ∃ result, now.kernelAdmit offer = .ok result := by
    rintro ⟨⟨p, e⟩, haccepted⟩
    exact hc (h.kernelAdmit_eq_ok.mp haccepted).1
  have hregister : ¬ ∃ s, now.registerAdmit d offer = .ok s := by
    rintro ⟨s, haccepted⟩
    exact hc (h.registerAdmit_eq_ok.mp haccepted).2.1
  refine ⟨hkernel, hregister, ?_⟩
  unfold step kernelAfter registerAfter
  cases hk : now.kernelAdmit offer with
  | ok result => exact absurd ⟨result, hk⟩ hkernel
  | error e =>
      cases hr : now.registerAdmit d offer with
      | ok s => exact absurd ⟨s, hr⟩ hregister
      | error why => rfl

/-- An unheld candidate parts the two: the kernel accepts it and the contract reverts. -/
theorem Agrees.unheld_parts (h : Agrees now) (hunheld : Unheld now offer) :
    (∃ result, now.kernelAdmit offer = .ok result) ∧ ¬ ∃ s, now.registerAdmit d offer = .ok s := by
  obtain ⟨hholder, hc⟩ := unheld_iff.mp hunheld
  refine ⟨⟨_, h.kernelAdmit_eq_ok.mpr ⟨hc, rfl, rfl⟩⟩, ?_⟩
  rintro ⟨s, haccepted⟩
  exact (h.registerAdmit_eq_ok.mp haccepted).1 hholder

theorem Agrees.together_iff (h : Agrees now) : Together d now offer ↔ ¬ Unheld now offer := by
  constructor
  · intro htogether hunheld
    obtain ⟨haccepts, hreverts⟩ := h.unheld_parts (d := d) hunheld
    exact hreverts (htogether.accepts.mp haccepts)
  · intro hheld
    by_cases hc : Follows (now.register.history offer.tokenId)
        (now.register.candidate offer.tokenId (now.presented offer))
    · have hholder : offer.holder ≠ 0 := fun hzero => hheld (unheld_iff.mpr ⟨hzero, hc⟩)
      have hkernel : ∃ result, now.kernelAdmit offer = .ok result :=
        ⟨_, h.kernelAdmit_eq_ok.mpr ⟨hc, rfl, rfl⟩⟩
      exact {
        accepts := ⟨fun _ => ⟨_, h.registerAdmit_eq_ok.mpr ⟨hholder, hc, rfl⟩⟩, fun _ => hkernel⟩
        refused := fun hrefused => absurd hkernel hrefused
        entries := (h.step_accepted hholder hc).entries }
    · obtain ⟨hkernel, hregister, hsame⟩ := h.step_refused (d := d) hc
      exact {
        accepts :=
          ⟨fun haccepts => absurd haccepts hkernel, fun haccepts => absurd haccepts hregister⟩
        refused := fun _ => hsame
        entries := by
          rw [hsame]
          exact h.entries }

theorem Agrees.step (h : Agrees now) (hheld : ¬ Unheld now offer) : Agrees (now.step d offer) := by
  by_cases hc : Follows (now.register.history offer.tokenId)
      (now.register.candidate offer.tokenId (now.presented offer))
  · exact h.step_accepted (fun hzero => hheld (unheld_iff.mpr ⟨hzero, hc⟩)) hc
  · rw [(h.step_refused (d := d) hc).2.2]
    exact h

/-! ## Whole sequences -/

/-- Every candidate of the sequence is treated alike, in the state the earlier ones left. -/
def Lockstep (d : RegisterDeployment) (now : Pair) (offers : List Offer) : Prop :=
  LabelledRun.Admissible (step d) (Together d) now offers

/-- From the start, the kernel and the register stay in lockstep over a sequence of
candidates exactly when none of them is unheld. -/
theorem run_lockstep_iff (d : RegisterDeployment) (offers : List Offer) :
    Lockstep d fresh offers ↔
      LabelledRun.Admissible (step d) (fun now offer => ¬ Unheld now offer) fresh offers :=
  LabelledRun.admissible_congr (step d) Agrees (fun _ _ h => h.together_iff)
    (fun _ _ h hheld => h.step hheld) Agrees.fresh offers

/-- A first entry for token 1 whose holder is the zero address. -/
def unheldOffer : Offer := ⟨1, 1, 2, 0, 100⟩

/-- The kernel takes it as version 1 and the contract reverts. -/
theorem zero_holder_parts : ¬ Lockstep ⟨1, 1⟩ fresh [unheldOffer] := by
  intro h
  have hunheld : Unheld fresh unheldOffer := by
    refine ⟨rfl, by decide, fun e he => ?_, ?_, ?_⟩
    · cases he
    · exact List.not_mem_nil
    · decide
  obtain ⟨haccepts, hreverts⟩ := Agrees.fresh.unheld_parts (d := ⟨1, 1⟩) hunheld
  exact hreverts (h.1.accepts.mp haccepts)

end Pair

end Erc8415.Contracts
