import Erc8415.Projection.Atomicity
import Erc8415.Settlement.Service

/-! # The calls that write to a store

Everything that writes to one shared store, over a journal that takes an append or
throws. Whatever a call does is one mutation of the store, and an engine opens no
settlement id twice.
-/

namespace Erc8415

variable {σ : Type}

/-! ## The calls that write -/

/-- A call of an engine, the admission route or the store's own admission, with what the
journal does to its append, or a move of the adapter that touches no accepted height. -/
inductive WriterCall (o : StoreConfig σ) where
  | begin (engine : SettlementEngine) (request : BeginRequest) (now : Int)
      (append : Option Thrown)
  | finalize (settlementId : Bytes32) (candidate : JsValue) (material : ProofMaterial)
      (now verifierNow : Int) (append : Option Thrown)
  | cancel (settlementId : Bytes32) (caller : Address) (now : Int) (append : Option Thrown)
  | post (tokenRaw : String) (body : JsValue) (now verifierNow : Int) (append : Option Thrown)
  | admitEntry (tokenId : Int) (candidate : JsValue) (material : ProofMaterial)
      (verifierNow : Int) (append : Option Thrown)
  | adapterMoves (move : σ → σ) (hmove : ∀ a tokenId,
      o.adapter.acceptedHeight (move a) tokenId = o.adapter.acceptedHeight a tokenId)

namespace ProjectionStore

variable {o : StoreConfig σ} {s t : ProjectionStore σ}

/-- The store after a call. -/
def writerStep (o : StoreConfig σ) (s : ProjectionStore σ) : WriterCall o → ProjectionStore σ
  | .begin engine request now append => (engine.begin s request now append).1
  | .finalize settlementId candidate material now verifierNow append =>
      (SettlementEngine.finalize o s settlementId candidate material now verifierNow append).1
  | .cancel settlementId caller now append =>
      (SettlementEngine.cancel s settlementId caller now append).1
  | .post tokenRaw body now verifierNow append =>
      (handleAdmission o s tokenRaw body now verifierNow append).1
  | .admitEntry tokenId candidate material verifierNow append =>
      (s.admitEntry o tokenId candidate material verifierNow append).1
  | .adapterMoves move _ => { s with adapter := move s.adapter }

/-- A settlement is filed under its own id, and never as one that was not opened. -/
structure Filed (s : ProjectionStore σ) : Prop where
  valid : s.Valid
  filed : ∀ id r, s.settlements.get id = some r → r.settlementId = id ∧ r.status ≠ .none

theorem Filed.initial (adapter : σ) (journal : JournalContent) :
    (initial adapter journal).Filed where
  valid := Valid.initial adapter journal
  filed := by simp [ProjectionStore.initial]

theorem Filed.settlementId (h : s.Filed) (id : Bytes32) :
    (s.settlement id).settlementId = id := by
  unfold settlement
  cases hget : s.settlements.get id with
  | none => rfl
  | some r => exact (h.filed id r hget).1

/-- A settlement reads as recorded exactly when there is a record of it. -/
theorem Filed.status_ne_none_iff (h : s.Filed) {id : Bytes32} :
    (s.settlement id).status ≠ .none ↔ s.settlements.get id = some (s.settlement id) := by
  unfold settlement
  cases hget : s.settlements.get id with
  | none => simp [unknownSettlement]
  | some r => simpa using (h.filed id r hget).2

theorem Filed.get_eq_none (h : s.Filed) {id : Bytes32} (hnone : (s.settlement id).status = .none) :
    s.settlements.get id = none :=
  get_eq_none_of_status (fun r hr => (h.filed id r hr).2) hnone

/-- Filing a closed settlement keeps the ids. -/
theorem Filed.closing (h : s.Filed) (id : Bytes32) {status : GapStatus} (hstatus : status ≠ .none) :
    ∀ id' r, (s.settlements.set id { s.settlement id with status := status }).get id' = some r →
      r.settlementId = id' ∧ r.status ≠ .none :=
  InsertionMap.forall_set h.filed ⟨h.settlementId id, hstatus⟩

/-- A record stays when one is filed. -/
theorem isSome_get_set {m : InsertionMap Bytes32 Settlement} {id id' : Bytes32} {r : Settlement}
    (h : (m.get id').isSome) : ((m.set id r).get id').isSome := by
  rw [InsertionMap.get_set]
  split
  next => rfl
  next => exact h

theorem Filed.entered (h : s.Filed) (tokenId : Int) (c : CandidateEntry) (adapter : σ) :
    (∀ id r, (s.entered tokenId c adapter).settlements.get id = some r →
      r.settlementId = id ∧ r.status ≠ .none) ∧
    ∀ id, (s.settlements.get id).isSome →
      ((s.entered tokenId c adapter).settlements.get id).isSome := by
  rw [entered_settlements]
  cases s.openGaps.get (key tokenId) with
  | none => exact ⟨h.filed, fun _ => id⟩
  | some id => exact ⟨h.closing id (by simp), fun _ => isSome_get_set⟩

/-- A mutation that opens only fresh ids keeps the records filed, and keeps each one. -/
theorem Effect.filed (h : s.Filed) {append : Option Thrown} {m : Mutation}
    {answer : Except Thrown StoreAnswer} (heffect : Effect o s append m t answer)
    (hfresh : Unrecorded s m) :
    t.Filed ∧ ∀ id, (s.settlements.get id).isSome → (t.settlements.get id).isSome := by
  have hvalid := heffect.valid h.valid
  cases heffect with
  | refused e hrefused => exact ⟨h, fun _ => id⟩
  | @admitted tokenId _ _ _ c adapter hc hadvance =>
      obtain ⟨hfiled, hkeeps⟩ := h.entered tokenId c adapter
      exact ⟨⟨hvalid, hfiled⟩, hkeeps⟩
  | opened hwritable hfree =>
      exact ⟨⟨hvalid, InsertionMap.forall_set h.filed ⟨rfl, by simp [GapRequest.opened]⟩⟩,
        fun _ => isSome_get_set⟩
  | cancelled hwritable hopen =>
      exact ⟨⟨hvalid, h.closing _ (by simp)⟩, fun _ => isSome_get_set⟩
  | @unopened tokenId gap error hwritable hfree =>
      rw [InsertionMap.delete_set_of_get_none hfresh] at hvalid ⊢
      exact ⟨⟨hvalid, h.filed⟩, fun _ => id⟩
  | uncancelled hwritable hopen => exact ⟨⟨hvalid, h.filed⟩, fun _ => id⟩
  | unadmitted hc hadvance hlower => exact ⟨⟨hvalid, h.filed⟩, fun _ => id⟩
  | @stranded tokenId _ _ _ _ c adapter _ hc hadvance hlower =>
      obtain ⟨hfiled, hkeeps⟩ := h.entered tokenId c adapter
      exact ⟨⟨hvalid, hfiled⟩, hkeeps⟩

/-- The route leaves the store alone, or as its admission leaves it. -/
theorem handleAdmission_store (o : StoreConfig σ) (s : ProjectionStore σ) (tokenRaw : String)
    (body : JsValue) (now verifierNow : Int) (append : Option Thrown) :
    (handleAdmission o s tokenRaw body now verifierNow append).1 = s ∨
      ∃ tokenId candidate material, (handleAdmission o s tokenRaw body now verifierNow append).1 =
        (s.admitEntry o tokenId candidate material verifierNow append).1 := by
  have hroute : (handleAdmission o s tokenRaw body now verifierNow append).1 =
      (admissionRoute o s tokenRaw body now verifierNow append).1 := by
    unfold handleAdmission
    rcases admissionRoute o s tokenRaw body now verifierNow append with ⟨after, (_ | _) | _⟩ <;> rfl
  rw [hroute]
  unfold admissionRoute
  cases parseUint256 tokenRaw with
  | none => exact Or.inl rfl
  | some tokenId =>
      cases parseAdmission body with
      | none => exact Or.inl rfl
      | some parsed =>
          cases hassert : assertOpenGap s tokenId parsed.entry now with
          | error e => exact Or.inl (by simp only [hassert])
          | ok u =>
              exact Or.inr ⟨tokenId, parsed.entry, parsed.proof, by simp only [hassert]⟩

/-- A writer's call does nothing, moves the adapter or performs one mutation, which opens
a fresh id if it opens one. -/
theorem Filed.writes (h : s.Filed) (call : WriterCall o) :
    writerStep o s call = s ∨
      (∃ move : σ → σ, (∀ a tokenId,
        o.adapter.acceptedHeight (move a) tokenId = o.adapter.acceptedHeight a tokenId) ∧
        writerStep o s call = { s with adapter := move s.adapter }) ∨
      ∃ append m answer, Effect o s append m (writerStep o s call) answer ∧ Unrecorded s m := by
  cases call with
  | begin engine request now append =>
      simp only [writerStep, SettlementEngine.begin]
      cases hcheck : engine.checkBegin s request now with
      | error e => exact Or.inl rfl
      | ok u =>
          refine Or.inr (Or.inr ⟨append, _, _, openGap_effect request.tokenId
            (SettlementEngine.BeginRequest.gap request now) append, ?_⟩)
          exact h.get_eq_none (Begins.of_check hcheck).none
  | finalize settlementId candidate material now verifierNow append =>
      simp only [writerStep, SettlementEngine.finalize]
      cases assertSettlementAdmission (s.settlement settlementId) candidate now with
      | error e => exact Or.inl rfl
      | ok u =>
          exact Or.inr (Or.inr ⟨append, _, _, admit_effect h.valid
            (s.settlement settlementId).tokenId candidate material verifierNow append, trivial⟩)
  | cancel settlementId caller now append =>
      simp only [writerStep, SettlementEngine.cancel]
      cases SettlementEngine.checkCancel (s.settlement settlementId) settlementId caller now with
      | error e => exact Or.inl rfl
      | ok u =>
          exact Or.inr (Or.inr ⟨append, _, _,
            cancelGap_effect h.valid (s.settlement settlementId).tokenId append, trivial⟩)
  | post tokenRaw body now verifierNow append =>
      rcases handleAdmission_store o s tokenRaw body now verifierNow append with heq |
        ⟨tokenId, candidate, material, heq⟩
      · exact Or.inl heq
      · rw [writerStep, heq]
        exact Or.inr (Or.inr ⟨append, _, _,
          admit_effect h.valid tokenId candidate material verifierNow append, trivial⟩)
  | admitEntry tokenId candidate material verifierNow append =>
      exact Or.inr (Or.inr ⟨append, _, _,
        admit_effect h.valid tokenId candidate material verifierNow append, trivial⟩)
  | adapterMoves move hmove => exact Or.inr (Or.inl ⟨move, hmove, rfl⟩)

theorem Filed.step (h : s.Filed) (call : WriterCall o) :
    (writerStep o s call).Filed ∧
      ∀ id, (s.settlements.get id).isSome → ((writerStep o s call).settlements.get id).isSome := by
  rcases h.writes call with heq | ⟨move, _, heq⟩ | ⟨append, m, answer, heffect, hfresh⟩
  · rw [heq]
    exact ⟨h, fun _ => id⟩
  · rw [heq]
    exact ⟨⟨⟨h.valid.projections, h.valid.gaps⟩, h.filed⟩, fun _ => id⟩
  · exact heffect.filed h hfresh

/-- What a move of the adapter and every mutation that opens a fresh id preserve, every run
of calls preserves. -/
theorem Filed.run_invariant (inv : ProjectionStore σ → Prop)
    (hmoves : ∀ s (move : σ → σ), (∀ a tokenId,
      o.adapter.acceptedHeight (move a) tokenId = o.adapter.acceptedHeight a tokenId) →
      inv s → inv { s with adapter := move s.adapter })
    (heffect : ∀ s t append m answer, s.Filed → Effect o s append m t answer → Unrecorded s m →
      inv s → inv t)
    (h : s.Filed) (hinv : inv s) (calls : List (WriterCall o)) :
    (LabelledRun.run (writerStep o) s calls).Filed ∧
      inv (LabelledRun.run (writerStep o) s calls) := by
  apply LabelledRun.run_invariant (writerStep o) (fun s => s.Filed ∧ inv s) _ ⟨h, hinv⟩
  rintro s call ⟨hs, hinv⟩
  refine ⟨(hs.step call).1, ?_⟩
  rcases hs.writes call with heq | ⟨move, hmove, heq⟩ | ⟨append, m, answer, hwrites, hfresh⟩
  · rw [heq]
    exact hinv
  · rw [heq]
    exact hmoves s move hmove hinv
  · exact heffect s _ append m answer hs hwrites hfresh hinv

theorem Filed.run (h : s.Filed) (calls : List (WriterCall o)) :
    (LabelledRun.run (writerStep o) s calls).Filed :=
  LabelledRun.run_invariant (writerStep o) Filed (fun _ call hs => (hs.step call).1) h calls

end ProjectionStore

end Erc8415
