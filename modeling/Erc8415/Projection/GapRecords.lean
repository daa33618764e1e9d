import Erc8415.Projection.StoreInvariant

/-! # Gap records

A token's pointer and the settlement records describe the same open gaps: a
pointer names a record that is open for that token, and every open record is
pointed at. Opening a fresh identifier and closing the gap a token points at
keep this, and records move only from open to closed. An opening of an
identifier that is already recorded does not.
-/

namespace Erc8415

/-! ## Pointers and records -/

/-- The pointers and the open records are the same gaps. -/
structure GapRecords (openGaps : InsertionMap String Bytes32)
    (settlements : InsertionMap Bytes32 Settlement) : Prop where
  keyed : ∀ id r, settlements.get id = some r → r.settlementId = id
  pointed : ∀ k id, openGaps.get k = some id →
    ∃ r, settlements.get id = some r ∧ r.status = .open ∧ k = key r.tokenId
  pointing : ∀ id r, settlements.get id = some r → r.status = .open →
    openGaps.get (key r.tokenId) = some id

namespace GapRecords

variable {openGaps : InsertionMap String Bytes32} {settlements : InsertionMap Bytes32 Settlement}

theorem empty : GapRecords InsertionMap.empty InsertionMap.empty where
  keyed := by simp
  pointed := by simp
  pointing := by simp

/-- No identifier is the open gap of two tokens. -/
theorem pointer_unique (h : GapRecords openGaps settlements) {k k' : String} {id : Bytes32}
    (hk : openGaps.get k = some id) (hk' : openGaps.get k' = some id) : k = k' := by
  obtain ⟨r, hr, _, rfl⟩ := h.pointed k id hk
  obtain ⟨r', hr', _, rfl⟩ := h.pointed k' id hk'
  rw [hr] at hr'
  cases hr'
  rfl

/-- The order of the pointers does not matter. -/
theorem of_get_eq (h : GapRecords openGaps settlements)
    {openGaps' : InsertionMap String Bytes32}
    (heq : ∀ k, openGaps'.get k = openGaps.get k) : GapRecords openGaps' settlements where
  keyed := h.keyed
  pointed k id hk := h.pointed k id (by rw [← heq]; exact hk)
  pointing id r hr hopen := by
    rw [heq]
    exact h.pointing id r hr hopen

/-- Opening a fresh identifier on a free token. -/
theorem opening (h : GapRecords openGaps settlements) {r : Settlement}
    (hfree : openGaps.get (key r.tokenId) = none) (hfresh : settlements.get r.settlementId = none)
    (hstatus : r.status = .open) :
    GapRecords (openGaps.set (key r.tokenId) r.settlementId)
      (settlements.set r.settlementId r) where
  keyed := InsertionMap.forall_set h.keyed rfl
  pointed := by
    refine InsertionMap.forall_set (fun k id hk => ?_) ?_
    · obtain ⟨r', hr', hopen, hkey⟩ := h.pointed k id hk
      exact ⟨r', InsertionMap.get_set_of_fresh hfresh hr', hopen, hkey⟩
    · exact ⟨r, InsertionMap.get_set_self _ _ _, hstatus, rfl⟩
  pointing := by
    intro id r' hr' hopen
    rw [InsertionMap.get_set] at hr'
    split at hr'
    next heq =>
      cases hr'
      rw [InsertionMap.get_set_self, heq]
    next =>
      -- No other open record points at this token, which was free.
      have hpointer := h.pointing id r' hr' hopen
      rw [InsertionMap.get_set_of_ne, hpointer]
      intro hkey
      rw [← hkey, hfree] at hpointer
      cases hpointer

/-- Closing the gap a token points at. -/
theorem closing (h : GapRecords openGaps settlements) {k : String} {id : Bytes32} {r : Settlement}
    (hk : openGaps.get k = some id) (hr : settlements.get id = some r) (status : GapStatus)
    (hclosed : status ≠ .open) :
    GapRecords (openGaps.delete k) (settlements.set id { r with status := status }) where
  keyed := InsertionMap.forall_set h.keyed (h.keyed id r hr)
  pointed := by
    intro k' id' hk'
    rw [InsertionMap.get_delete] at hk'
    split at hk'
    next => cases hk'
    next hne =>
      obtain ⟨r', hr', hopen, hkey⟩ := h.pointed k' id' hk'
      refine ⟨r', ?_, hopen, hkey⟩
      rw [InsertionMap.get_set_of_ne, hr']
      rintro rfl
      exact hne (h.pointer_unique hk hk')
  pointing := by
    intro id' r' hr' hopen
    rw [InsertionMap.get_set] at hr'
    split at hr'
    next =>
      cases hr'
      exact absurd hopen hclosed
    next hne =>
      have hpointer := h.pointing id' r' hr' hopen
      rw [InsertionMap.get_delete_of_ne, hpointer]
      rintro rfl
      rw [hk] at hpointer
      exact hne (Option.some.inj hpointer)

end GapRecords

/-! ## What a record can become -/

/-- A record stays, or closes as admitted or cancelled. -/
def Succeeds (r r' : Settlement) : Prop :=
  r' = r ∨ r.status = .open ∧ (r' = { r with status := .admitted } ∨
    r' = { r with status := .cancelled })

/-- No record disappears, and each one only succeeds itself. -/
def Kept (settlements settlements' : InsertionMap Bytes32 Settlement) : Prop :=
  ∀ id r, settlements.get id = some r → ∃ r', settlements'.get id = some r' ∧ Succeeds r r'

theorem Succeeds.of_closed {r r' : Settlement} (h : Succeeds r r') (hclosed : r.status ≠ .open) :
    r' = r :=
  h.resolve_right fun hopen => hclosed hopen.1

theorem Succeeds.trans {r r' r'' : Settlement} (h : Succeeds r r') (h' : Succeeds r' r'') :
    Succeeds r r'' := by
  rcases h with rfl | ⟨hopen, rfl | rfl⟩
  · exact h'
  · exact Or.inr ⟨hopen, Or.inl (h'.of_closed (by simp))⟩
  · exact Or.inr ⟨hopen, Or.inr (h'.of_closed (by simp))⟩

namespace Kept

variable {settlements settlements' settlements'' : InsertionMap Bytes32 Settlement}

theorem refl (settlements : InsertionMap Bytes32 Settlement) : Kept settlements settlements :=
  fun _ r hr => ⟨r, hr, Or.inl rfl⟩

theorem trans (h : Kept settlements settlements') (h' : Kept settlements' settlements'') :
    Kept settlements settlements'' := by
  intro id r hr
  obtain ⟨r', hr', hsucceeds⟩ := h id r hr
  obtain ⟨r'', hr'', hsucceeds'⟩ := h' id r' hr'
  exact ⟨r'', hr'', hsucceeds.trans hsucceeds'⟩

theorem opening {r : Settlement} (hfresh : settlements.get r.settlementId = none) :
    Kept settlements (settlements.set r.settlementId r) := by
  intro id r' hr'
  exact ⟨r', InsertionMap.get_set_of_fresh hfresh hr', Or.inl rfl⟩

theorem closing {id : Bytes32} {r r' : Settlement} (hr : settlements.get id = some r)
    (hsucceeds : Succeeds r r') : Kept settlements (settlements.set id r') := by
  intro id' s hs
  rw [InsertionMap.get_set]
  split
  next heq =>
    rw [← heq, hr] at hs
    cases hs
    exact ⟨r', rfl, hsucceeds⟩
  next => exact ⟨s, hs, Or.inl rfl⟩

end Kept

/-! ## Over the effects of a mutation -/

namespace ProjectionStore

variable {σ : Type} {o : StoreConfig σ} {s t : ProjectionStore σ}

theorem settlement_of_get {id : Bytes32} {r : Settlement} (h : s.settlements.get id = some r) :
    s.settlement id = r := by
  simp [settlement, h]

/-- A settlement that reads as `none` is not recorded, where no record reads so. -/
theorem get_eq_none_of_status {id : Bytes32}
    (hrecorded : ∀ r, s.settlements.get id = some r → r.status ≠ .none)
    (hnone : (s.settlement id).status = .none) : s.settlements.get id = none := by
  cases hget : s.settlements.get id with
  | none => rfl
  | some r =>
      rw [settlement_of_get hget] at hnone
      exact absurd hnone (hrecorded r hget)

/-- The record a pointer names, as the store reads it. -/
theorem pointed_settlement (h : GapRecords s.openGaps s.settlements) {k : String} {id : Bytes32}
    (hk : s.openGaps.get k = some id) :
    s.settlements.get id = some (s.settlement id) ∧ (s.settlement id).settlementId = id ∧
      (s.settlement id).status = .open ∧ k = key (s.settlement id).tokenId := by
  obtain ⟨r, hr, hopen, hkey⟩ := h.pointed k id hk
  rw [settlement_of_get hr]
  exact ⟨hr, h.keyed id r hr, hopen, hkey⟩

/-- The open gap of a token, read through the two queries. -/
theorem openGapOf_eq_iff (h : GapRecords s.openGaps s.settlements) {tokenId : Int} {id : Bytes32}
    (hid : id ≠ zeroBytes32) :
    s.openGapOf tokenId = id ↔
      (s.settlement id).status = .open ∧ (s.settlement id).tokenId = tokenId := by
  unfold openGapOf
  constructor
  · intro hopen
    cases hget : s.openGaps.get (key tokenId) with
    | none =>
        rw [hget] at hopen
        exact absurd hopen.symm hid
    | some id' =>
        rw [hget, Option.getD_some] at hopen
        subst hopen
        obtain ⟨_, _, hstatus, hkey⟩ := pointed_settlement h hget
        exact ⟨hstatus, (key_inj.mp hkey).symm⟩
  · rintro ⟨hstatus, rfl⟩
    cases hget : s.settlements.get id with
    | none => simp [settlement, hget, unknownSettlement] at hstatus
    | some r =>
        rw [settlement_of_get hget] at hstatus ⊢
        rw [h.pointing id r hget hstatus, Option.getD_some]

/-- When a mutation that is not refused keeps the gap records: an opening names a
fresh identifier, and an admission of a token with an open gap does not meet both
an append that throws and an adapter that refuses to take the prior height back. -/
def KeepsRecords (o : StoreConfig σ) (s : ProjectionStore σ) (append : Option Thrown) :
    Mutation → Prop
  | .openGap tokenId gap =>
      Refused o s (.openGap tokenId gap) ∨ s.settlements.get gap.settlementId = none
  | .admitEntry tokenId candidate material now =>
      Refused o s (.admitEntry tokenId candidate material now) ∨ append = none ∨
        s.openGaps.get (key tokenId) = none ∨
        ∀ adapter, o.adapter.advanceHeight s.adapter tokenId material.remoteHeight = .ok adapter →
          ∃ lowered, o.adapter.advanceHeight adapter tokenId
            (o.adapter.acceptedHeight s.adapter tokenId) = .ok lowered
  | .cancelGap _ => True

theorem not_refused_openGap {tokenId : Int} {gap : GapRequest} (hwritable : s.poisoned = none)
    (hfree : s.openGaps.get (key tokenId) = none) : ¬ Refused o s (.openGap tokenId gap) := by
  rintro (hpoisoned | hhas)
  · exact hpoisoned hwritable
  · rw [(InsertionMap.has_eq_false _ _).mpr hfree] at hhas
    cases hhas

/-- Entering a candidate closes the token's gap, if it has one, as admitted. -/
theorem entered_records (h : GapRecords s.openGaps s.settlements) (tokenId : Int)
    (c : CandidateEntry) (adapter : σ) :
    GapRecords (s.entered tokenId c adapter).openGaps (s.entered tokenId c adapter).settlements ∧
      Kept s.settlements (s.entered tokenId c adapter).settlements := by
  rw [entered_settlements]
  cases hopen : s.openGaps.get (key tokenId) with
  | none =>
      refine ⟨h.of_get_eq fun k => ?_, Kept.refl _⟩
      rw [entered_openGaps_get]
      split
      next hk => rw [← hk, hopen]
      next => rfl
  | some id =>
      obtain ⟨hr, _, hstatus, _⟩ := pointed_settlement h hopen
      refine ⟨(h.closing hopen hr .admitted (by simp)).of_get_eq fun k => ?_,
        Kept.closing hr (Or.inr ⟨hstatus, Or.inl rfl⟩)⟩
      rw [entered_openGaps_get, InsertionMap.get_delete]

theorem cancelled_records (h : GapRecords s.openGaps s.settlements) {tokenId : Int}
    {id : Bytes32} (hopen : s.openGaps.get (key tokenId) = some id) :
    GapRecords (s.cancelled tokenId id).openGaps (s.cancelled tokenId id).settlements ∧
      Kept s.settlements (s.cancelled tokenId id).settlements := by
  obtain ⟨hr, _, hstatus, _⟩ := pointed_settlement h hopen
  exact ⟨h.closing hopen hr .cancelled (by simp),
    Kept.closing hr (Or.inr ⟨hstatus, Or.inr rfl⟩)⟩

theorem Effect.records (h : GapRecords s.openGaps s.settlements) {append : Option Thrown}
    {m : Mutation} {answer : Except Thrown StoreAnswer} (hkeeps : KeepsRecords o s append m)
    (heffect : Effect o s append m t answer) :
    GapRecords t.openGaps t.settlements ∧ Kept s.settlements t.settlements := by
  cases heffect with
  | refused e hrefused => exact ⟨h, Kept.refl _⟩
  | admitted hc hadvance => exact entered_records h _ _ _
  | @opened tokenId gap hwritable hfree =>
      have hfresh := hkeeps.resolve_left (not_refused_openGap hwritable hfree)
      exact ⟨h.opening (r := gap.opened tokenId) hfree hfresh rfl,
        Kept.opening (r := gap.opened tokenId) hfresh⟩
  | cancelled hwritable hopen => exact cancelled_records h hopen
  | @unopened tokenId gap error hwritable hfree =>
      have hfresh := hkeeps.resolve_left (not_refused_openGap hwritable hfree)
      simp only [InsertionMap.delete_set_of_get_none hfresh]
      exact ⟨h, Kept.refl _⟩
  | uncancelled hwritable hopen => exact ⟨h.of_get_eq (repointed_get s _), Kept.refl _⟩
  | unadmitted hc hadvance hlower => exact ⟨h.of_get_eq (repointed_get s _), Kept.refl _⟩
  | stranded hc hadvance hlower => exact entered_records h _ _ _

end ProjectionStore

end Erc8415
