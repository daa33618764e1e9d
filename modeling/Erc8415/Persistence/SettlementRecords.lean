import Erc8415.Persistence.Replay
import Erc8415.Projection.Atomicity

/-! # Settlement records over runs

A store opens a gap under whatever identifier it is given. As long as each
opening names an identifier that is not recorded, records are never rewritten,
a closed record is kept for good, and the journal replays. An opening of a
recorded identifier takes the record over, which replay then refuses.
-/

namespace Erc8415

namespace ProjectionStore

variable {σ : Type} {o : StoreConfig σ} {s t : ProjectionStore σ}

/-- The condition on a call under which records survive it. Between calls the
adapter may not take an accepted height back. -/
def KeepsCall (o : StoreConfig σ) (s : ProjectionStore σ) : StoreCall σ → Prop
  | .mutate m append => KeepsRecords o s append m
  | .adapterMoves adapter => ∀ tokenId,
      o.adapter.acceptedHeight s.adapter tokenId ≤ o.adapter.acceptedHeight adapter tokenId

/-- What such calls preserve. -/
structure Booked (o : StoreConfig σ) (fresh : σ) (s : ProjectionStore σ) : Prop where
  valid : s.Valid
  records : GapRecords s.openGaps s.settlements
  restorable : Restorable o fresh (· ≤ ·) s

theorem Booked.initial (fresh : σ) (identity : Option JournalIdentity) :
    Booked o fresh (initial fresh ⟨identity, []⟩) where
  valid := Valid.initial fresh _
  records := GapRecords.empty
  restorable := Restorable.initial identity fun _ => Int.le_refl _

theorem Booked.step {fresh : σ} (h : Booked o fresh s) {call : StoreCall σ}
    (hkeeps : KeepsCall o s call) : Booked o fresh (s.step o call) := by
  cases call with
  | mutate m append =>
      have heffect := perform_effect (o := o) h.valid append m
      refine ⟨heffect.valid h.valid, (heffect.records h.records hkeeps).1, ?_⟩
      change Restorable o fresh _ (s.perform o append m).1
      cases append with
      | none =>
          exact h.restorable.journaled h.valid (fun _ _ hle => hle) (fun _ => Int.le_refl _) hkeeps
            heffect
      | some error => exact h.restorable.unjournaled hkeeps heffect
  | adapterMoves adapter =>
      refine ⟨⟨h.valid.projections, h.valid.gaps⟩, h.records, fun journal => ?_⟩
      obtain ⟨replayed, hreplay, hbook, hmirrors⟩ := h.restorable journal
      refine ⟨replayed, hreplay, hbook, fun hwritable => ?_⟩
      obtain ⟨hprojections, hgaps, hsettlements, hheights⟩ := hmirrors hwritable
      exact ⟨hprojections, hgaps, hsettlements,
        fun tokenId => Int.le_trans (hheights tokenId) (hkeeps tokenId)⟩

theorem Booked.kept {fresh : σ} (h : Booked o fresh s) {call : StoreCall σ}
    (hkeeps : KeepsCall o s call) : Kept s.settlements (s.step o call).settlements := by
  cases call with
  | mutate m append =>
      exact ((perform_effect (o := o) h.valid append m).records h.records hkeeps).2
  | adapterMoves adapter => exact Kept.refl _

/-- An opening that keeps the records leaves each recorded one exactly as it is. -/
theorem Booked.openGap_keeps {fresh : σ} (h : Booked o fresh s) {append : Option Thrown}
    {tokenId : Int} {gap : GapRequest} (hkeeps : KeepsRecords o s append (.openGap tokenId gap))
    {id : Bytes32} {r : Settlement} (hr : s.settlements.get id = some r) :
    (s.perform o append (.openGap tokenId gap)).1.settlements.get id = some r := by
  have heffect := perform_effect (o := o) h.valid append (.openGap tokenId gap)
  generalize s.perform o append (.openGap tokenId gap) = done at heffect ⊢
  obtain ⟨after, answer⟩ := done
  simp only at heffect ⊢
  cases heffect with
  | refused e hrefused => exact hr
  | opened hwritable hfree =>
      have hfresh := hkeeps.resolve_left (not_refused_openGap hwritable hfree)
      exact InsertionMap.get_set_of_fresh hfresh hr
  | unopened hwritable hfree =>
      have hfresh := hkeeps.resolve_left (not_refused_openGap hwritable hfree)
      simp only [InsertionMap.delete_set_of_get_none hfresh]
      exact hr

/-- Over every run whose calls meet the condition: a record is only ever closed,
a closed record is kept, an opening rewrites no record, no identifier is open on
two tokens, and the journal replays. -/
theorem run_keeps_records (o : StoreConfig σ) (adapter : σ) (identity : Option JournalIdentity)
    (calls later : List (StoreCall σ))
    (hcalls : LabelledRun.Admissible (step o) (KeepsCall o) (initial adapter ⟨identity, []⟩)
      (calls ++ later)) :
    let s := LabelledRun.run (step o) (initial adapter ⟨identity, []⟩) calls
    let t := LabelledRun.run (step o) s later
    Kept s.settlements t.settlements ∧
      (∀ id r, s.settlements.get id = some r → r.status ≠ .open →
        t.settlements.get id = some r) ∧
      (∀ append tokenId gap, KeepsRecords o t append (.openGap tokenId gap) →
        ∀ id r, t.settlements.get id = some r →
          (t.perform o append (.openGap tokenId gap)).1.settlements.get id = some r) ∧
      (∀ tokenId tokenId' id, t.openGaps.get (key tokenId) = some id →
        t.openGaps.get (key tokenId') = some id → tokenId = tokenId') ∧
      ∃ replayed, replay o (initial adapter t.journal) t.journal.records = .ok replayed := by
  intro s t
  obtain ⟨hfirst, hsecond⟩ := (LabelledRun.admissible_append (step o) _ calls later).mp hcalls
  have hs : Booked o adapter s :=
    LabelledRun.admissible_invariant (step o) (Booked o adapter) (fun _ _ hs hcall => hs.step hcall)
      (Booked.initial adapter identity) hfirst
  have ht : Booked o adapter t :=
    LabelledRun.admissible_invariant (step o) (Booked o adapter) (fun _ _ hs hcall => hs.step hcall)
      hs hsecond
  have hkept : Kept s.settlements t.settlements :=
    LabelledRun.admissible_relates (step o) (Booked o adapter)
      (fun s t => Kept s.settlements t.settlements) (fun s => Kept.refl s.settlements)
      (fun _ _ _ h h' => h.trans h') (fun _ _ hs hcall => hs.step hcall)
      (fun _ _ hs hcall => hs.kept hcall) hs hsecond
  refine ⟨hkept, fun id r hr hclosed => ?_, fun append tokenId gap hkeeps id r hr => ?_,
    fun tokenId tokenId' id hopen hopen' => ?_, ?_⟩
  · obtain ⟨r', hr', hsucceeds⟩ := hkept id r hr
    rw [hr', hsucceeds.of_closed hclosed]
  · exact ht.openGap_keeps hkeeps hr
  · exact key_inj.mp (ht.records.pointer_unique hopen hopen')
  · obtain ⟨replayed, hreplay, _⟩ := ht.restorable t.journal
    exact ⟨replayed, hreplay⟩

/-! ### A reused identifier -/

/-- A gap opened and cancelled on token 1. -/
def cancelledOnce : List (StoreCall MemoryChain) :=
  [.mutate (.openGap 1 firstGap) none, .mutate (.cancelGap 1) none]

theorem run_keeps_records_fresh :
    let s := LabelledRun.run (step memoryConfig)
      (initial (MemoryChain.new {}) ⟨some (identity memoryConfig), []⟩) cancelledOnce
    let t := LabelledRun.run (step memoryConfig) s
      [.mutate (.openGap 2 { firstGap with settlementId := word '9' }) none]
    Kept s.settlements t.settlements ∧
      (∀ id r, s.settlements.get id = some r → r.status ≠ .open →
        t.settlements.get id = some r) ∧
      (∀ append tokenId gap, KeepsRecords memoryConfig t append (.openGap tokenId gap) →
        ∀ id r, t.settlements.get id = some r →
          (t.perform memoryConfig append (.openGap tokenId gap)).1.settlements.get id = some r) ∧
      (∀ tokenId tokenId' id, t.openGaps.get (key tokenId) = some id →
        t.openGaps.get (key tokenId') = some id → tokenId = tokenId') ∧
      ∃ replayed, replay memoryConfig (initial (MemoryChain.new {}) t.journal) t.journal.records =
        .ok replayed :=
  run_keeps_records memoryConfig (MemoryChain.new {}) (some (identity memoryConfig)) cancelledOnce
    [.mutate (.openGap 2 { firstGap with settlementId := word '9' }) none]
    ⟨Or.inr (by decide), trivial, Or.inr (by decide), trivial⟩

/-- Opening the cancelled identifier again, on another token: the cancelled
outcome is gone, the record is open for token 2, and the journal this run wrote
no longer replays. -/
theorem reused_identifier_rewrites :
    let s := LabelledRun.run (step memoryConfig)
      (initial (MemoryChain.new {}) ⟨some (identity memoryConfig), []⟩) cancelledOnce
    let t := s.step memoryConfig (.mutate (.openGap 2 firstGap) none)
    ((s.settlement (word '5')).status = .cancelled ∧ (s.settlement (word '5')).tokenId = 1) ∧
      ((t.settlement (word '5')).status = .open ∧ (t.settlement (word '5')).tokenId = 2) ∧
      ¬ Kept s.settlements t.settlements ∧
      replay memoryConfig (initial (MemoryChain.new {}) t.journal) t.journal.records =
        .error (.rejection
          ⟨.settlementExists, "settlement " ++ word '5' ++ " appears twice in the journal"⟩) := by
  refine ⟨by decide, by decide, fun hkept => ?_, rfl⟩
  obtain ⟨r, hr, hsucceeds⟩ := hkept (word '5')
    { firstGap.opened 1 with status := .cancelled } (by decide)
  have hr : r = { firstGap.opened 1 with status := .cancelled } := hsucceeds.of_closed (by simp)
  subst hr
  revert hr
  decide

end ProjectionStore

end Erc8415
