import Erc8415.Contracts.EventLog

/-! # The two windows of a gap on chain

What a token with an open gap can come to, whoever sends what. Until the
deadline the gap stays as it is or is closed by an entry for the holder it was
opened for. Past the deadline nothing moves it, and nothing moves the token,
until its initiator cancels; that cannot be refused, and frees the token.
-/

namespace Erc8415.Contracts

open ProjectionSettlement RegisterProjection

namespace Assembly

/-! ## Later states -/

/-- A later state in which a gap is as it was. A token that had no entry may have its first. -/
structure Unmoved (s t : Assembly) (id : Bytes32) : Prop where
  record : t.settlement.settlements id = s.settlement.settlements id
  openGap : t.settlement.openGap (s.settlement.settlements id).tokenId = id
  entries : t.register.entries (s.settlement.settlements id).tokenId =
      s.register.entries (s.settlement.settlements id).tokenId ∨
    s.register.entries (s.settlement.settlements id).tokenId = [] ∧
      (t.register.entries (s.settlement.settlements id).tokenId).length = 1

/-- A later state in which it was closed by an entry: the token's next one, of the holder the gap
was opened for. -/
structure ClosedByEntry (s t : Assembly) (id : Bytes32) : Prop where
  record : t.settlement.settlements id =
    { s.settlement.settlements id with status := .admitted }
  holder : ((t.register.entries (s.settlement.settlements id).tokenId).map RegisterEntry.holder)[
      max 1 (s.register.entries (s.settlement.settlements id).tokenId).length]? =
    some (s.settlement.settlements id).expectedHolder

section Windows

variable (keccak256 : List UInt8 → Bytes32) (d : Deployment)

/-- The initiator of a gap cancels it. -/
def Cancels (s : Assembly) (id : Bytes32) (tx : Transaction d) : Prop :=
  tx.context.sender = (s.settlement.settlements id).initiator ∧
    ∃ reasonHash, tx.message = .cancelSettlement id reasonHash

/-- What an open gap can come to. -/
structure GapWindows (s : Assembly) (id : Bytes32) : Prop where
  /-- Until the deadline. -/
  inTime : ∀ later : List (Transaction d),
    (∀ tx ∈ later, tx.context.now ≤ (s.settlement.settlements id).deadline) →
      Unmoved s (LabelledRun.run (step keccak256 d) s later) id ∨
        ClosedByEntry s (LabelledRun.run (step keccak256 d) s later) id
  /-- Past the deadline, whatever anybody sends but the cancellation. -/
  late : ∀ later : List (Transaction d),
    (∀ tx ∈ later, (s.settlement.settlements id).deadline < tx.context.now ∧
      ¬ Cancels d s id tx) →
      Unmoved s (LabelledRun.run (step keccak256 d) s later) id
  /-- The cancellation, past the deadline. -/
  cancels : ∀ tx : Transaction d, (s.settlement.settlements id).deadline < tx.context.now →
    Cancels d s id tx → s.call keccak256 d tx = .ok (s.closed id .cancelled)
  /-- What frees the token for the next gap, under an identifier that has not been used. -/
  reopens : ∀ (ctx : Context d.settlement.address) (id' : Bytes32) (expectedHolder : Address)
    (snapshotHash : Bytes32) (deadline : Uint64),
    id' ≠ 0 → expectedHolder ≠ 0 → snapshotHash ≠ 0 →
    d.settlement.authorities ctx.sender = true →
    (s.settlement.settlements id').status = .none → ctx.now < deadline →
    deadline - ctx.now ≤ d.settlement.settlementPeriod →
      ∃ t, (s.closed id .cancelled).call keccak256 d ⟨ctx, .beginSettlement
          (s.settlement.settlements id).tokenId id' expectedHolder snapshotHash deadline⟩ = .ok t ∧
        t.settlement.openGap (s.settlement.settlements id).tokenId = id' ∧
        t.register = s.register

end Windows

/-! ## One transaction -/

section Step

variable {keccak256 : List UInt8 → Bytes32} {d : Deployment} {s t u : Assembly}
  {ctx : Context d.settlement.address} {message : Message} {id : Bytes32}

/-- The holders of a token's entries are only followed by more. -/
theorem holders_effect (heffect : Effect keccak256 d t ctx message u) (tokenId : Uint256) :
    (t.register.entries tokenId).map RegisterEntry.holder <+:
      (u.register.entries tokenId).map RegisterEntry.holder := by
  have hpush : ∀ other e, (t.register.entries tokenId).map RegisterEntry.holder <+:
      ((t.register.push other e).entries tokenId).map RegisterEntry.holder := by
    intro other e
    by_cases htoken : tokenId = other
    · subst htoken
      rw [push_entries_self, List.map_append, map_supersede _ (fun _ _ => rfl)]
      exact List.prefix_append _ _
    · rw [push_entries_of_ne _ _ htoken]
  cases heffect with
  | initialized => exact hpush _ _
  | begun => exact List.prefix_rfl
  | finalized => exact hpush _ _
  | cancelled => exact List.prefix_rfl

theorem ClosedByEntry.step (h : ClosedByEntry s t id) (ht : t.Sound) (tx : Transaction d) :
    ClosedByEntry s (t.step keccak256 d tx) id where
  record := by
    have hclosed : (t.settlement.settlements id).status = .admitted := by rw [h.record]
    exact (ht.step_keepsClosed tx id (Or.inl hclosed)).trans h.record
  holder := by
    unfold Assembly.step
    cases hcall : t.call keccak256 d tx with
    | error why => exact h.holder
    | ok u =>
        have hprefix := holders_effect ((call_eq_ok ht.register).mp hcall)
          (s.settlement.settlements id).tokenId
        obtain ⟨rest, hrest⟩ := hprefix
        obtain ⟨hlt, _⟩ := List.getElem?_eq_some_iff.mp h.holder
        rw [← hrest, List.getElem?_append_left hlt]
        exact h.holder

/-- An open settlement is the gap of its token. -/
theorem Sound.openGap_eq (hs : s.Sound) (hopen : (s.settlement.settlements id).status = .open) :
    s.settlement.openGap (s.settlement.settlements id).tokenId = id :=
  (hs.pointed.pointer _ _ (hs.pointed.ne_zero hopen)).mpr ⟨hopen, rfl⟩

theorem settlements_closed (s : Assembly) (id : Bytes32) (status : GapStatus) :
    (s.closed id status).settlement.settlements id =
      { s.settlement.settlements id with status := status } := Function.update_self ..

theorem Unmoved.of_record (hu : u.Sound) (hopen : (s.settlement.settlements id).status = .open)
    (hrecord : u.settlement.settlements id = s.settlement.settlements id)
    (hentries : u.register.entries (s.settlement.settlements id).tokenId =
        s.register.entries (s.settlement.settlements id).tokenId ∨
      s.register.entries (s.settlement.settlements id).tokenId = [] ∧
        (u.register.entries (s.settlement.settlements id).tokenId).length = 1) :
    Unmoved s u id where
  record := hrecord
  openGap := by
    rw [← hrecord]
    apply hu.openGap_eq
    rw [hrecord]
    exact hopen
  entries := hentries

/-- Another settlement that is open is of another token. -/
theorem Unmoved.tokenId_ne (h : Unmoved s t id) (ht : t.Sound) {other : Bytes32}
    (hopen : (t.settlement.settlements other).status = .open) (hne : other ≠ id) :
    (s.settlement.settlements id).tokenId ≠ (t.settlement.settlements other).tokenId := by
  intro htoken
  have hother := ht.openGap_eq hopen
  rw [← htoken, h.openGap] at hother
  exact hne hother.symm

/-- An effect leaves the gap as it was, or closes it: by an entry in its time, or by its
initiator's cancellation past it. -/
theorem Unmoved.effect (h : Unmoved s t id) (ht : t.Sound)
    (hopen : (s.settlement.settlements id).status = .open)
    (heffect : Effect keccak256 d t ctx message u) :
    Unmoved s u id ∨
      (ctx.now ≤ (s.settlement.settlements id).deadline ∧ ClosedByEntry s u id) ∨
      ((s.settlement.settlements id).deadline < ctx.now ∧ Cancels d s id ⟨ctx, message⟩) := by
  have hu : u.Sound := ht.effect heffect
  have hopen' : (t.settlement.settlements id).status = .open := by rw [h.record, hopen]
  cases heffect with
  | @initialized tokenId _ _ _ _ _ _ _ hnil _ _ =>
      refine Or.inl (.of_record hu hopen h.record ?_)
      by_cases htoken : (s.settlement.settlements id).tokenId = tokenId
      · -- The token had no entry, so this one is its first.
        right
        rw [← htoken] at hnil
        rcases h.entries with hsame | ⟨_, hone⟩
        · refine ⟨hsame ▸ hnil, ?_⟩
          rw [wrote, htoken, length_push_self, ← htoken, hnil]
          rfl
        · rw [hnil] at hone
          cases hone
      · rw [wrote, push_entries_of_ne _ _ htoken]
        exact h.entries
  | @begun _ settlementId _ _ _ _ _ _ _ hnone _ _ _ =>
      refine Or.inl (.of_record hu hopen ?_ h.entries)
      refine (Function.update_of_ne ?_ _ _).trans h.record
      rintro rfl
      rw [hopen'] at hnone
      cases hnone
  | @finalized settlementId _ _ _ _ hopened hdeadline hentries _ _ _ =>
      by_cases hid : settlementId = id
      · subst hid
        refine Or.inr (Or.inl ⟨h.record ▸ hdeadline, ?_, ?_⟩)
        · refine (settlements_closed _ _ _).trans ?_
          change { t.settlement.settlements settlementId with status := GapStatus.admitted } = _
          rw [h.record]
        · -- The next entry of the token, past those it had.
          rw [h.record] at hentries
          have hcount :
              max 1 (s.register.entries (s.settlement.settlements settlementId).tokenId).length =
                (t.register.entries (s.settlement.settlements settlementId).tokenId).length := by
            rcases h.entries with hsame | ⟨hnil, hone⟩
            · rw [hsame]
              exact max_eq_right (List.length_pos_iff_ne_nil.mpr (hsame ▸ hentries))
            · rw [hnil, hone]
              rfl
          rw [hcount, closed, wrote, h.record]
          dsimp only
          rw [push_entries_self, List.map_append, map_supersede _ (fun _ _ => rfl)]
          rw [List.getElem?_append_right (by rw [List.length_map]), List.length_map, Nat.sub_self]
          simp [nextEntry, admission, h.record]
      · refine Or.inl (.of_record hu hopen ?_ ?_)
        · exact (Function.update_of_ne (Ne.symm hid) _ _).trans h.record
        · rw [closed, wrote]
          dsimp only
          rw [push_entries_of_ne _ _ (h.tokenId_ne ht hopened hid)]
          exact h.entries
  | @cancelled settlementId reasonHash hopened hinitiator hexpired =>
      by_cases hid : settlementId = id
      · subst hid
        rw [h.record] at hinitiator hexpired
        exact Or.inr (Or.inr ⟨hexpired, hinitiator, reasonHash, rfl⟩)
      · refine Or.inl (.of_record hu hopen ?_ h.entries)
        exact (Function.update_of_ne (Ne.symm hid) _ _).trans h.record

theorem Unmoved.step (h : Unmoved s t id) (ht : t.Sound)
    (hopen : (s.settlement.settlements id).status = .open) (tx : Transaction d) :
    Unmoved s (t.step keccak256 d tx) id ∨
      (tx.context.now ≤ (s.settlement.settlements id).deadline ∧
        ClosedByEntry s (t.step keccak256 d tx) id) ∨
      ((s.settlement.settlements id).deadline < tx.context.now ∧ Cancels d s id tx) := by
  unfold Assembly.step
  cases hcall : t.call keccak256 d tx with
  | error why => exact Or.inl h
  | ok u => exact h.effect ht hopen ((call_eq_ok ht.register).mp hcall)

/-! ## Runs -/

theorem Unmoved.run_inTime (hopen : (s.settlement.settlements id).status = .open)
    (h : Unmoved s t id ∨ ClosedByEntry s t id) (ht : t.Sound) {later : List (Transaction d)}
    (htime : ∀ tx ∈ later, tx.context.now ≤ (s.settlement.settlements id).deadline) :
    Unmoved s (LabelledRun.run (Assembly.step keccak256 d) t later) id ∨
      ClosedByEntry s (LabelledRun.run (Assembly.step keccak256 d) t later) id := by
  induction later generalizing t with
  | nil => exact h
  | cons tx rest ih =>
      obtain ⟨hnow, hrest⟩ := List.forall_mem_cons.mp htime
      refine ih ?_ (ht.step tx) hrest
      rcases h with h | h
      · rcases h.step ht hopen tx with hstill | ⟨_, hclosed⟩ | ⟨hlate, _⟩
        · exact Or.inl hstill
        · exact Or.inr hclosed
        · exact absurd hnow (BitVec.not_le.mpr hlate)
      · exact Or.inr (h.step ht tx)

theorem Unmoved.run_late (hopen : (s.settlement.settlements id).status = .open)
    (h : Unmoved s t id) (ht : t.Sound) {later : List (Transaction d)}
    (hlater : ∀ tx ∈ later, (s.settlement.settlements id).deadline < tx.context.now ∧
      ¬ Cancels d s id tx) :
    Unmoved s (LabelledRun.run (Assembly.step keccak256 d) t later) id := by
  induction later generalizing t with
  | nil => exact h
  | cons tx rest ih =>
      obtain ⟨⟨hlate, hnot⟩, hrest⟩ := List.forall_mem_cons.mp hlater
      refine ih ?_ (ht.step tx) hrest
      rcases h.step ht hopen tx with hstill | ⟨hnow, _⟩ | ⟨_, hcancels⟩
      · exact hstill
      · exact absurd hnow (BitVec.not_le.mpr hlate)
      · exact absurd hcancels hnot

/-! ## The windows -/

theorem Sound.gapWindows (hs : s.Sound) (hopen : (s.settlement.settlements id).status = .open) :
    GapWindows keccak256 d s id where
  inTime later htime :=
    Unmoved.run_inTime hopen (Or.inl (.of_record hs hopen rfl (Or.inl rfl))) hs htime
  late later hlater :=
    Unmoved.run_late hopen (.of_record hs hopen rfl (Or.inl rfl)) hs hlater
  cancels := by
    rintro ⟨ctx, message⟩ hlate ⟨hinitiator, reasonHash, hmessage⟩
    cases hmessage
    exact (call_eq_ok hs.register).mpr (.cancelled hopen hinitiator hlate)
  reopens := by
    intro ctx id' expectedHolder snapshotHash deadline hid hholder hsnapshot hauthority hnone
      hfuture hperiod
    have hne : id' ≠ id := by
      rintro rfl
      rw [hopen] at hnone
      cases hnone
    have hfree : (s.closed id .cancelled).settlement.openGap
        (s.settlement.settlements id).tokenId = 0 := Function.update_self ..
    have hunused : ((s.closed id .cancelled).settlement.settlements id').status = .none :=
      (congrArg Settlement.status (Function.update_of_ne hne ..)).trans hnone
    refine ⟨_, (call_eq_ok (s := s.closed id .cancelled) hs.register).mpr
      (.begun hid hholder hsnapshot hauthority hunused hfree hfuture hperiod), ?_, rfl⟩
    exact Function.update_self ..

/-- In every state that transactions reach, a transaction is accepted exactly when it has an
effect there, and every open gap has its two windows. -/
theorem run_gap_windows (keccak256 : List UInt8 → Bytes32) (d : Deployment)
    (txs : List (Transaction d)) :
    let s := reached keccak256 d txs
    (∀ tx t, s.call keccak256 d tx = .ok t ↔ Effect keccak256 d s tx.context tx.message t) ∧
      ∀ id, (s.settlement.settlements id).status = .open → GapWindows keccak256 d s id := by
  intro s
  have hs : s.Sound := sound_reached keccak256 d txs
  exact ⟨fun _ _ => call_eq_ok hs.register, fun _ hopen => hs.gapWindows hopen⟩

end Step

end Assembly

end Erc8415.Contracts
