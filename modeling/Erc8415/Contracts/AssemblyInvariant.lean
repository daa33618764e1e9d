import Mathlib.Data.Set.Card
import Erc8415.Contracts.Assembly

/-! # What transactions keep

The register stays valid, an open gap and its token point at one another, a
token has one admitted settlement for each entry after its first, and a closed
record is never written again. Each is kept by every effect a transaction has.
-/

namespace Erc8415.Contracts

open ProjectionSettlement RegisterProjection

/-! ## Gaps -/

/-- A token points at a settlement exactly while that settlement is open for it. -/
structure Pointed (p : ProjectionSettlement) : Prop where
  zero : (p.settlements 0).status = .none
  pointer : ∀ tokenId id, id ≠ 0 →
    (p.openGap tokenId = id ↔
      (p.settlements id).status = .open ∧ (p.settlements id).tokenId = tokenId)

namespace Pointed

variable {p : ProjectionSettlement} {id : Bytes32} {record : Settlement}

theorem deployed : Pointed .deployed where
  zero := rfl
  pointer _ _ hid :=
    ⟨fun h => absurd h.symm hid, fun h => nomatch h.1⟩

theorem ne_zero (h : Pointed p) (hopen : (p.settlements id).status = .open) : id ≠ 0 := by
  rintro rfl
  rw [h.zero] at hopen
  cases hopen

theorem opened (h : Pointed p) (hid : id ≠ 0) (hnone : (p.settlements id).status = .none)
    (hfree : p.openGap record.tokenId = 0) (hopen : record.status = .open) :
    Pointed ⟨Function.update p.settlements id record,
      Function.update p.openGap record.tokenId id⟩ where
  zero := by
    dsimp only
    rw [Function.update_of_ne hid.symm]
    exact h.zero
  pointer := by
    intro tokenId other hother
    dsimp only
    by_cases htoken : tokenId = record.tokenId
    · subst htoken
      rw [Function.update_self]
      by_cases heq : other = id
      · subst heq
        simp [hopen]
      · -- The token had no gap, so no other settlement was open for it.
        rw [Function.update_of_ne heq, ← h.pointer _ _ hother, hfree]
        exact ⟨fun h => absurd h.symm heq, fun h => absurd h.symm hother⟩
    · rw [Function.update_of_ne htoken, h.pointer _ _ hother]
      by_cases heq : other = id
      · subst heq
        rw [Function.update_self, hnone]
        exact ⟨fun h => (nomatch h.1), fun h => absurd h.2.symm htoken⟩
      · rw [Function.update_of_ne heq]

theorem closed (h : Pointed p) {status : GapStatus} (hopen : (p.settlements id).status = .open)
    (hstatus : status ≠ .open) :
    Pointed ⟨setStatus p.settlements id status,
      Function.update p.openGap (p.settlements id).tokenId 0⟩ where
  zero := by
    dsimp only
    rw [setStatus, Function.update_of_ne (h.ne_zero hopen).symm]
    exact h.zero
  pointer := by
    intro tokenId other hother
    have hpointer := (h.pointer (p.settlements id).tokenId id (h.ne_zero hopen)).mpr ⟨hopen, rfl⟩
    dsimp only
    by_cases htoken : tokenId = (p.settlements id).tokenId
    · subst htoken
      rw [Function.update_self]
      by_cases heq : other = id
      · subst heq
        rw [setStatus, Function.update_self]
        exact ⟨fun h => absurd h.symm hother, fun h => absurd h.1 hstatus⟩
      · rw [setStatus, Function.update_of_ne heq, ← h.pointer _ _ hother, hpointer]
        exact ⟨fun h => absurd h.symm hother, fun h => absurd h.symm heq⟩
    · rw [Function.update_of_ne htoken, h.pointer _ _ hother]
      by_cases heq : other = id
      · subst heq
        rw [setStatus, Function.update_self]
        exact ⟨fun h => absurd h.2.symm htoken, fun h => absurd h.1 hstatus⟩
      · rw [setStatus, Function.update_of_ne heq]

end Pointed

/-! ## Admitted settlements -/

/-- The settlements of a token that were closed by an entry. -/
def admittedFor (p : ProjectionSettlement) (tokenId : Uint256) : Set Bytes32 :=
  {id | (p.settlements id).status = .admitted ∧ (p.settlements id).tokenId = tokenId}

section Admitted

variable {p : ProjectionSettlement} {id : Bytes32} (openGap : Uint256 → Bytes32)

/-- Writing a record that is not admitted over one that is not admits nothing. -/
theorem admittedFor_update {record : Settlement} (hbefore : (p.settlements id).status ≠ .admitted)
    (hafter : record.status ≠ .admitted) (tokenId : Uint256) :
    admittedFor ⟨Function.update p.settlements id record, openGap⟩ tokenId =
      admittedFor p tokenId := by
  ext other
  simp only [admittedFor, Set.mem_ofPred_eq]
  by_cases heq : other = id
  · subst heq
    rw [Function.update_self]
    exact ⟨fun h => absurd h.1 hafter, fun h => absurd h.1 hbefore⟩
  · rw [Function.update_of_ne heq]

/-- Closing a gap by an entry adds one admitted settlement, to its token alone. -/
theorem admittedFor_admitted (tokenId : Uint256) :
    admittedFor ⟨setStatus p.settlements id .admitted, openGap⟩ tokenId =
      if tokenId = (p.settlements id).tokenId then insert id (admittedFor p tokenId)
      else admittedFor p tokenId \ {id} := by
  ext other
  simp only [admittedFor, setStatus, Set.mem_ofPred_eq]
  by_cases heq : other = id
  · subst heq
    rw [Function.update_self]
    by_cases htoken : tokenId = (p.settlements other).tokenId
    · simp [htoken]
    · simp [htoken, Ne.symm htoken]
  · rw [Function.update_of_ne heq]
    by_cases htoken : tokenId = (p.settlements id).tokenId
    · simp [htoken, heq]
    · simp [htoken, heq]

end Admitted

/-! ## The invariant -/

namespace Assembly

/-- What every transaction keeps. -/
structure Sound (s : Assembly) : Prop where
  register : s.register.Valid
  pointed : Pointed s.settlement
  admitted : ∀ tokenId, (admittedFor s.settlement tokenId).encard =
    ((s.register.entries tokenId).length - 1 : ℕ)

theorem Sound.deployed : Sound deployed where
  register := .deployed
  pointed := .deployed
  admitted tokenId := by
    have hempty : admittedFor Assembly.deployed.settlement tokenId = ∅ := by
      ext id
      simp [admittedFor, Assembly.deployed, ProjectionSettlement.deployed, Settlement.unset]
    rw [hempty, Set.encard_empty]
    rfl

section Step

variable {keccak256 : List UInt8 → Bytes32} {d : Deployment} {s s' : Assembly}
  {ctx : Context d.settlement.address} {message : Message}

theorem length_push_self (s : RegisterProjection) (tokenId : Uint256) (e : RegisterEntry) :
    ((s.push tokenId e).entries tokenId).length = (s.entries tokenId).length + 1 := by
  rw [push_entries_self, List.length_append, length_supersede, List.length_singleton]

theorem Sound.effect (h : s.Sound) (heffect : Effect keccak256 d s ctx message s') :
    s'.Sound := by
  cases heffect with
  | @initialized tokenId _ _ _ _ _ hauthority hverified hnil hholder hc =>
      refine ⟨h.register.push hc, h.pointed, fun other => ?_⟩
      change (admittedFor s.settlement other).encard = _
      rw [h.admitted]
      by_cases hother : other = tokenId
      · subst hother
        rw [wrote, length_push_self, hnil]
        rfl
      · rw [wrote, push_entries_of_ne _ _ hother]
  | begun hid hholder hsnapshot hauthority hnone hfree hfuture hperiod =>
      refine ⟨h.register, h.pointed.opened hid hnone hfree rfl, fun other => ?_⟩
      refine (congrArg Set.encard (admittedFor_update _ ?_ ?_ other)).trans (h.admitted other)
      · rw [hnone]
        nofun
      · nofun
  | @finalized id record reference effectiveAt _ hopen hdeadline hne hverified hholder hc =>
      refine ⟨h.register.push hc, h.pointed.closed hopen nofun, fun other => ?_⟩
      have hfresh : ∀ other, id ∉ admittedFor s.settlement other := by
        rintro other ⟨hadmitted, _⟩
        rw [hopen] at hadmitted
        cases hadmitted
      change (admittedFor ⟨setStatus s.settlement.settlements id .admitted, _⟩ other).encard = _
      rw [admittedFor_admitted]
      by_cases hother : other = (s.settlement.settlements id).tokenId
      · subst hother
        rw [if_pos rfl, Set.encard_insert_of_notMem (hfresh _), h.admitted]
        have hpos := List.length_pos_of_ne_nil hne
        have hlength := length_push_self s.register (s.settlement.settlements id).tokenId
          (s.register.nextEntry (s.settlement.settlements id).tokenId
            (s.admission id record reference effectiveAt))
        refine Eq.trans ?_ (congrArg (fun n : ℕ => ((n - 1 : ℕ) : ℕ∞)) hlength.symm)
        norm_cast
        omega
      · rw [if_neg hother, Set.sdiff_singleton_eq_self (hfresh other), h.admitted]
        have hsame := push_entries_of_ne s.register
          (s.register.nextEntry (s.settlement.settlements id).tokenId
            (s.admission id record reference effectiveAt)) hother
        exact congrArg (fun list : List RegisterEntry => ((list.length - 1 : ℕ) : ℕ∞)) hsame.symm
  | @cancelled id _ hopen hinitiator hexpired =>
      refine ⟨h.register, h.pointed.closed hopen nofun, fun other => ?_⟩
      refine (congrArg Set.encard (admittedFor_update _ ?_ ?_ other)).trans (h.admitted other)
      · rw [hopen]
        nofun
      · nofun

theorem Sound.step (h : s.Sound) (tx : Transaction d) : (s.step keccak256 d tx).Sound := by
  unfold Assembly.step
  cases hcall : s.call keccak256 d tx with
  | error why => exact h
  | ok s' => exact h.effect ((call_eq_ok h.register).mp hcall)

theorem Sound.run (h : s.Sound) (txs : List (Transaction d)) :
    (LabelledRun.run (Assembly.step keccak256 d) s txs).Sound :=
  LabelledRun.run_invariant (Assembly.step keccak256 d) Assembly.Sound (fun _ tx hs => hs.step tx)
    h txs

/-! ## Final instants -/

theorem Sound.effect_settles (h : s.Sound) (heffect : Effect keccak256 d s ctx message s')
    (tokenId : Uint256) (instant : Uint64) : Settles tokenId instant s.register s'.register := by
  cases heffect with
  | initialized _ _ _ _ hc => exact h.register.push_settles _ hc tokenId instant
  | begun => exact .refl tokenId instant s.register
  | finalized _ _ _ _ _ hc => exact h.register.push_settles _ hc tokenId instant
  | cancelled => exact .refl tokenId instant s.register

theorem Sound.step_settles (h : s.Sound) (tx : Transaction d) (tokenId : Uint256)
    (instant : Uint64) : Settles tokenId instant s.register (s.step keccak256 d tx).register := by
  unfold Assembly.step
  cases hcall : s.call keccak256 d tx with
  | error why => exact .refl tokenId instant s.register
  | ok s' => exact h.effect_settles ((call_eq_ok h.register).mp hcall) tokenId instant

/-! ## Closed records -/

/-- Records that were closed read the same afterwards. -/
def KeepsClosed (s s' : Assembly) : Prop :=
  ∀ id, (s.settlement.settlements id).status = .admitted ∨
    (s.settlement.settlements id).status = .cancelled →
      s'.settlement.settlements id = s.settlement.settlements id

theorem keepsClosed_effect (heffect : Effect keccak256 d s ctx message s') : KeepsClosed s s' := by
  intro id hclosed
  have hother : ∀ written : Bytes32, (s.settlement.settlements written).status = .none ∨
      (s.settlement.settlements written).status = .open → id ≠ written := by
    rintro written hwritten rfl
    rcases hclosed with hclosed | hclosed <;> rw [hclosed] at hwritten <;>
      rcases hwritten with hwritten | hwritten <;> cases hwritten
  cases heffect with
  | initialized => rfl
  | begun _ _ _ _ hnone _ _ _ => exact Function.update_of_ne (hother _ (Or.inl hnone)) ..
  | finalized hopen _ _ _ _ _ => exact Function.update_of_ne (hother _ (Or.inr hopen)) ..
  | cancelled hopen _ _ => exact Function.update_of_ne (hother _ (Or.inr hopen)) ..

theorem KeepsClosed.trans {t : Assembly} (h : KeepsClosed s s') (h' : KeepsClosed s' t) :
    KeepsClosed s t := by
  intro id hclosed
  have hsame := h id hclosed
  rw [← hsame] at hclosed
  exact (h' id hclosed).trans hsame

theorem Sound.step_keepsClosed (h : s.Sound) (tx : Transaction d) :
    KeepsClosed s (s.step keccak256 d tx) := by
  unfold Assembly.step
  cases hcall : s.call keccak256 d tx with
  | error why => exact fun _ _ => rfl
  | ok s' => exact keepsClosed_effect ((call_eq_ok h.register).mp hcall)

theorem Sound.run_keepsClosed (h : s.Sound) (txs : List (Transaction d)) :
    KeepsClosed s (LabelledRun.run (Assembly.step keccak256 d) s txs) :=
  LabelledRun.run_relates (Assembly.step keccak256 d) Assembly.Sound KeepsClosed
    (fun _ _ _ => rfl) (fun _ _ _ hst htu => hst.trans htu) (fun _ tx hs => hs.step tx)
    (fun _ tx hs => hs.step_keepsClosed tx) h txs

end Step

end Assembly

end Erc8415.Contracts
