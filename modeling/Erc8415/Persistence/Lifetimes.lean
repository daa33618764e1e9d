import Erc8415.Persistence.ServiceReplay
import Erc8415.Persistence.Tampering

/-! # Processes on one journal

Processes come one after another on one journal. Each builds its store anew, or
restores it, and then writes. A store built anew knows nothing of what the
journal holds, so what it accepts the journal may already contradict; as long as
it writes only where the journal is still free, the journal replays.
-/

namespace Erc8415

open ProjectionStore

variable {σ : Type}

/-! ## Processes -/

/-- The process that holds the journal, and how it opened it. -/
structure Process (σ : Type) where
  store : ProjectionStore σ
  restored : Bool

/-- A mutation that was acknowledged: the entry of an admission with the gap it closed, or the
record of an opening or of a cancellation. -/
inductive Acknowledged where
  | admission (tokenId : Int) (entry : CandidateEntry) (closed : Option Bytes32)
  | opening (record : Settlement)
  | cancellation (record : Settlement)
  deriving DecidableEq, Repr

/-- The journal, the process on it, and what every process so far has acknowledged. -/
structure Lifetimes (σ : Type) where
  journal : JournalContent
  live : Option (Process σ)
  acknowledged : List Acknowledged

/-- A process takes the journal over, or the one that has it calls its store. -/
inductive LifetimeEvent (σ : Type) where
  | construct (adapter : σ)
  | restore (adapter : σ)
  | call (call : StoreCall σ)

namespace Lifetimes

/-- A path nothing was written to. -/
def start : Lifetimes σ := ⟨.empty, none, []⟩

/-- What a mutation acknowledges to its caller, when it returns. -/
def answered (s : ProjectionStore σ) : Mutation → Except Thrown StoreAnswer → List Acknowledged
  | .admitEntry tokenId _ _ _, .ok (.admission result) =>
      [.admission tokenId result.entry.toCandidateEntry (s.openGaps.get (key tokenId))]
  | .openGap _ _, .ok (.gap record) => [.opening record]
  | .cancelGap _, .ok (.gap record) => [.cancellation record]
  | _, _ => []

def acknowledges (o : StoreConfig σ) (s : ProjectionStore σ) : StoreCall σ → List Acknowledged
  | .mutate m append => answered s m (s.perform o append m).2
  | .adapterMoves _ => []

/-- The journal after an event. A process that cannot open the journal leaves it without one. -/
def step (options : StoreOptions σ) (o : StoreConfig σ) (p : Lifetimes σ) :
    LifetimeEvent σ → Lifetimes σ
  | .construct adapter =>
      match ProjectionStore.new options adapter p.journal with
      | .ok (_, store) => { p with journal := store.journal, live := some ⟨store, false⟩ }
      | .error _ => { p with live := none }
  | .restore adapter =>
      match restoreProjectionStore options adapter p.journal with
      | .ok result =>
          { p with journal := result.store.journal, live := some ⟨result.store, true⟩ }
      | .error _ => { p with live := none }
  | .call call =>
      match p.live with
      | none => p
      | some process =>
          let after := process.store.step o call
          { journal := after.journal
            live := some { process with store := after }
            acknowledged := p.acknowledged ++ acknowledges o process.store call }

end Lifetimes

/-! ## What a journal holds of a token -/

/-- Whether the records hold no entry of a token. -/
def Unentered (tokenId : Int) (records : List JournalRecord) : Prop :=
  records.filterMap (admissionOf tokenId) = []

instance (tokenId : Int) (records : List JournalRecord) : Decidable (Unentered tokenId records) :=
  inferInstanceAs (Decidable (_ = []))

/-- Whether no record opens a settlement. -/
def Unopened (id : Bytes32) (records : List JournalRecord) : Prop :=
  ∀ tokenId settlement, JournalRecord.gapOpened tokenId settlement ∈ records →
    settlement.settlementId ≠ id

namespace Lifetimes

/-- Adapters that accepted the same heights. -/
def SameHeights (o : StoreConfig σ) (a b : σ) : Prop :=
  ∀ tokenId, o.adapter.acceptedHeight a tokenId = o.adapter.acceptedHeight b tokenId

/-- What a run of lifetimes is promised: every process starts over an adapter that has accepted
what a fresh one has, between calls the adapter keeps its accepted heights, every append
succeeds, and a gap is opened under an identifier the journal does not have. -/
def Ordinary (o : StoreConfig σ) (fresh : σ) (p : Lifetimes σ) : LifetimeEvent σ → Prop
  | .construct adapter => SameHeights o adapter fresh
  | .restore adapter => SameHeights o adapter fresh
  | .call (.adapterMoves adapter) =>
      ∀ process, p.live = some process → SameHeights o adapter process.store.adapter
  | .call (.mutate m append) =>
      append = none ∧ ∀ process, p.live = some process → ∀ tokenId gap, m = .openGap tokenId gap →
        Refused o process.store m ∨ Unopened gap.settlementId p.journal.records

/-- Where the records leave a store free to write what it does not refuse: an entry of a token
they have no entry of, unless the store holds the token's entries itself, and a gap on a token
they leave no gap open on. -/
def FreeFor (s : ProjectionStore σ) (records : List JournalRecord) : Mutation → Prop
  | .admitEntry tokenId _ _ _ => s.entries tokenId ≠ [] ∨ Unentered tokenId records
  | .openGap tokenId _ => gapIn tokenId records = none
  | .cancelGap _ => True

/-- A store built anew writes only where the journal is free. A restored one is not restricted. -/
def WritesFree (o : StoreConfig σ) (p : Lifetimes σ) : LifetimeEvent σ → Prop
  | .call (.mutate m _) => ∀ process, p.live = some process →
      process.restored = true ∨ Refused o process.store m ∨
        FreeFor process.store p.journal.records m
  | _ => True

end Lifetimes

/-! ## One record more -/

namespace ProjectionStore

variable {o : StoreConfig σ} {s t held live : ProjectionStore σ} {record : JournalRecord}

/-- An admission record is above the height its token has reached. -/
def Ascends (o : StoreConfig σ) (s : ProjectionStore σ) : JournalRecord → Prop
  | .admitted text _ height _ => ∀ token n, bigInt text = .ok token → bigInt height = .ok n →
      o.adapter.acceptedHeight s.adapter token < n
  | _ => True

/-- A record that applies to a store applies to one that mirrors it. -/
theorem Mirrors.apply (h : Mirrors o (· = ·) s t) (hs : s.Valid) (ht : t.Valid)
    (hascends : Ascends o s record) {s' : ProjectionStore σ}
    (happly : applyRecord o s record = .ok s') :
    ∃ t', applyRecord o t record = .ok t' ∧ SameBook t t' ∧ Mirrors o (· = ·) s' t' := by
  have heffect := took_effect hs happly
  cases record with
  | gapOpened tokenId settlement =>
      obtain ⟨r, hr, hfree, hfresh, rfl⟩ := heffect
      rw [← h.openGaps] at hfree
      rw [← h.settlements] at hfresh
      refine ⟨t.setGap r.tokenId r, ?_, ⟨rfl, rfl⟩, h.projections, ?_, ?_, h.heights⟩
      · simp only [applyRecord, bind_eq_ok]
        exact ⟨r, hr, replayGapOpened_eq_ok.mpr ⟨hfree, hfresh, rfl⟩⟩
      · simp only [setGap, h.openGaps]
      · simp only [setGap, h.settlements]
  | gapCancelled tokenId settlementId =>
      obtain ⟨token, htoken, hopen, rfl⟩ := heffect
      rw [← h.openGaps] at hopen
      refine ⟨t.clearGap token settlementId { t.settlement settlementId with status := .cancelled },
        ?_, ⟨rfl, rfl⟩, h.projections, ?_, ?_, h.heights⟩
      · simp only [applyRecord, bind_eq_ok]
        exact ⟨token, htoken, replayGapCancelled_eq_ok.mpr ⟨hopen, rfl⟩⟩
      · simp only [clearGap, h.openGaps]
      · simp only [clearGap, h.settlements, h.settlement]
  | admitted tokenId entry remoteHeight settlementId =>
      obtain ⟨token, c, height, adapter, htoken, hentry, hheight, hc, hadvance, rfl⟩ := heffect
      have hlt := hascends token height htoken hheight
      obtain ⟨a, ha, haheights⟩ := o.adapter.advances s.adapter token height hlt
      rw [hadvance] at ha
      cases ha
      rw [← h.heights] at hlt
      obtain ⟨b, hb, hbheights⟩ := o.adapter.advances t.adapter token height hlt
      have hentries : t.entries token = s.entries token := by
        simp only [entries, h.projections]
      refine ⟨t.readmitted token c b settlementId, ?_, ?_, ?_, ?_, ?_, fun other => ?_⟩
      · simp only [applyRecord, bind_eq_ok]
        exact ⟨token, htoken, c, hentry, height, hheight,
          (replayAdmitted_eq_ok ht).mpr ⟨b, hentries ▸ hc, hb, rfl⟩⟩
      · cases settlementId <;> exact ⟨rfl, rfl⟩
      · rw [readmitted_projections, readmitted_projections, h.projections, h.projectionOf]
      · rw [readmitted_openGaps, readmitted_openGaps, h.openGaps]
      · rw [readmitted_settlements, readmitted_settlements, h.settlements]
        simp only [h.settlement]
      · have hadapter : ∀ (u : ProjectionStore σ) (x : σ),
            (u.readmitted token c x settlementId).adapter = x := by
          intro u x
          cases settlementId <;> rfl
        rw [hadapter, hadapter, haheights, hbheights, h.heights]
  | unknown kind =>
      cases happly
      exact ⟨t, rfl, ⟨rfl, rfl⟩, h⟩

/-- A token without a projection after a record had none before, at the same height. -/
theorem TookEffect.untouched (h : TookEffect o s t record) (hascends : Ascends o s record)
    {tokenId : Int} (hnone : t.projections.get (key tokenId) = none) :
    s.projections.get (key tokenId) = none ∧
      o.adapter.acceptedHeight t.adapter tokenId = o.adapter.acceptedHeight s.adapter tokenId := by
  cases record with
  | gapOpened text settlement =>
      obtain ⟨r, _, _, _, rfl⟩ := h
      exact ⟨hnone, rfl⟩
  | gapCancelled text settlementId =>
      obtain ⟨token, _, _, rfl⟩ := h
      exact ⟨hnone, rfl⟩
  | admitted text entry remoteHeight settlementId =>
      obtain ⟨token, c, height, adapter, htoken, _, hheight, _, hadvance, rfl⟩ := h
      rw [readmitted_projections, InsertionMap.get_set] at hnone
      split at hnone
      next => cases hnone
      next hne =>
        obtain ⟨a, ha, hheights⟩ := o.adapter.advances s.adapter token height
          (hascends token height htoken hheight)
        rw [hadvance] at ha
        cases ha
        have hother := hheights tokenId
        rw [if_neg fun heq => hne (key_inj.mpr heq.symm)] at hother
        refine ⟨hnone, ?_⟩
        rw [← hother]
        cases settlementId <;> rfl
  | unknown kind =>
      rw [show t = s from h] at hnone ⊢
      exact ⟨hnone, rfl⟩

/-! ## What the journal holds -/

/-- `held` is what replaying the records gives, over any adapter as fresh as `fresh`. -/
structure Held (o : StoreConfig σ) (fresh : σ) (records : List JournalRecord)
    (held : ProjectionStore σ) : Prop where
  replays : ∀ adapter, Lifetimes.SameHeights o adapter fresh → ∀ journal, ∃ t,
    replay o (initial adapter journal) records = .ok t ∧ SameBook (initial adapter journal) t ∧
      Mirrors o (· = ·) held t
  replayed : Replayed records held
  written : Written records held
  pointer : ∀ tokenId, held.openGaps.get (key tokenId) = gapIn tokenId records
  untouched : ∀ tokenId, held.projections.get (key tokenId) = none →
    o.adapter.acceptedHeight held.adapter tokenId = o.adapter.acceptedHeight fresh tokenId

theorem Held.nil (fresh : σ) : Held o fresh [] (initial fresh .empty) where
  replays _ hadapter _ := ⟨_, rfl, ⟨rfl, rfl⟩, rfl, rfl, rfl, hadapter⟩
  replayed := .initial fresh _
  written := .initial fresh _
  pointer _ := rfl
  untouched _ _ := rfl

/-- One more record, where the gap records it leaves are again well formed. -/
theorem Held.concat {fresh : σ} {records : List JournalRecord} (h : Held o fresh records s)
    (happly : applyRecord o s record = .ok t) (hascends : Ascends o s record)
    (hwritten : Written (records ++ [record]) t) : Held o fresh (records ++ [record]) t := by
  have heffect := took_effect h.replayed.valid happly
  refine ⟨fun adapter hadapter journal => ?_, h.replayed.apply happly, hwritten, fun tokenId => ?_,
    fun tokenId hnone => ?_⟩
  · obtain ⟨u, hreplay, hbook, hmirrors⟩ := h.replays adapter hadapter journal
    have hu : Replayed records u := (Replayed.initial adapter journal).replay hreplay
    obtain ⟨u', happly', hbook', hmirrors'⟩ :=
      hmirrors.apply h.replayed.valid hu.valid hascends happly
    exact ⟨u', replay_concat hreplay happly',
      ⟨hbook'.1.trans hbook.1, hbook'.2.trans hbook.2⟩, hmirrors'⟩
  · rw [heffect.pointer, h.pointer, gapIn, gapIn, List.foldl_concat]
  · obtain ⟨hnone', hheight⟩ := heffect.untouched hascends hnone
    exact hheight.trans (h.untouched tokenId hnone')

/-- A token the records have no entry of has no projection. -/
theorem Held.unentered {fresh : σ} {records : List JournalRecord} (h : Held o fresh records s)
    {tokenId : Int} (hunentered : Unentered tokenId records) :
    s.projections.get (key tokenId) = none := by
  have hentries := h.replayed.entries tokenId
  rw [hunentered, List.map_eq_nil_iff] at hentries
  cases hget : s.projections.get (key tokenId) with
  | none => rfl
  | some p =>
      simp only [entries, hget] at hentries
      exact absurd hentries (h.replayed.valid.projections _ p hget).2.1

/-- An identifier no record opens is not recorded. -/
theorem Held.unopened {fresh : σ} {records : List JournalRecord} (h : Held o fresh records s)
    {id : Bytes32} (hunopened : Unopened id records) : s.settlements.get id = none := by
  cases hget : s.settlements.get id with
  | none => rfl
  | some r =>
      obtain ⟨tokenId, settlement, opened, hmem, hopened, heq⟩ := h.written.opened id r hget
      have hid : opened.settlementId = settlement.settlementId := by
        simp only [toSettlement, bind_eq_ok] at hopened
        obtain ⟨_, _, _, _, _, _, hrecord⟩ := hopened
        cases hrecord
        rfl
      have hkeyed := h.written.gaps.keyed id r hget
      rw [← heq] at hkeyed
      exact absurd (hid.symm.trans hkeyed) (hunopened tokenId settlement hmem)

/-! ## A store over what the journal holds -/

/-- A live store knows what the journal holds, or part of it and nothing else. -/
structure Overlay (o : StoreConfig σ) (whole : Bool) (held live : ProjectionStore σ) : Prop where
  projections : held.projections.Covers whole live.projections
  openGaps : held.openGaps.Covers whole live.openGaps
  settlements : held.settlements.Covers whole live.settlements
  heights : ∀ tokenId,
    held.projections.get (key tokenId) = live.projections.get (key tokenId) →
      o.adapter.acceptedHeight held.adapter tokenId = o.adapter.acceptedHeight live.adapter tokenId

/-- A store built anew. -/
theorem Overlay.constructed {fresh adapter : σ} {records : List JournalRecord}
    (h : Held o fresh records held) (hadapter : Lifetimes.SameHeights o adapter fresh)
    (journal : JournalContent) : Overlay o false held (initial adapter journal) where
  projections _ := Or.inr ⟨rfl, rfl⟩
  openGaps _ := Or.inr ⟨rfl, rfl⟩
  settlements _ := Or.inr ⟨rfl, rfl⟩
  heights tokenId hnone := (h.untouched tokenId hnone).trans (hadapter tokenId).symm

/-- A restored store. -/
theorem Overlay.restored (h : Mirrors o (· = ·) held live) : Overlay o true held live where
  projections := .of_get_eq fun _ => by rw [h.projections]
  openGaps := .of_get_eq fun _ => by rw [h.openGaps]
  settlements := .of_get_eq fun _ => by rw [h.settlements]
  heights tokenId _ := (h.heights tokenId).symm

theorem Overlay.settlement {whole : Bool} (h : Overlay o whole held live) {id : Bytes32}
    {r : Settlement} (hr : live.settlements.get id = some r) :
    held.settlement id = live.settlement id := by
  rw [settlement_of_get hr, settlement_of_get (h.settlements.get_some hr)]

/-- What one acknowledged mutation does to the journal and to what it holds. -/
structure Writes (o : StoreConfig σ) (whole : Bool) (records : List JournalRecord)
    (held : ProjectionStore σ) (record : JournalRecord) (held' after : ProjectionStore σ) :
    Prop where
  applies : applyRecord o held record = .ok held'
  ascends : Ascends o held record
  written : Written (records ++ [record]) held'
  kept : Kept held.settlements held'.settlements
  overlay : Overlay o whole held' after

variable {whole : Bool} {fresh : σ} {records : List JournalRecord}

theorem Overlay.opened (h : Overlay o whole held live) (hheld : Held o fresh records held)
    {tokenId : Int} {gap : GapRequest} (hfree : held.openGaps.get (key tokenId) = none)
    (hfresh : held.settlements.get gap.settlementId = none) :
    Writes o whole records held (.gapOpened (key tokenId) (settlementJson (gap.opened tokenId)))
      (held.setGap tokenId (gap.opened tokenId)) (live.opened tokenId gap) where
  applies := by
    simp only [applyRecord, toSettlement_settlementJson (r := gap.opened tokenId) rfl]
    exact replayGapOpened_eq_ok.mpr ⟨hfree, hfresh, rfl⟩
  ascends := trivial
  written := by
    refine ⟨hheld.written.gaps.opening (r := gap.opened tokenId) hfree hfresh rfl, ?_⟩
    refine InsertionMap.forall_set (fun id r hr => (hheld.written.opened id r hr).append _) ?_
    exact ⟨key tokenId, settlementJson (gap.opened tokenId), gap.opened tokenId, by simp,
      toSettlement_settlementJson rfl, rfl⟩
  kept := Kept.opening (r := gap.opened tokenId) hfresh
  overlay := ⟨h.projections, h.openGaps.set _ _, h.settlements.set _ _, h.heights⟩

theorem Overlay.cancelled (h : Overlay o whole held live) (hheld : Held o fresh records held)
    (hlive : live.Valid) (hwritable : live.poisoned = none) {tokenId : Int} {id : Bytes32}
    (hopen : live.openGaps.get (key tokenId) = some id) :
    Writes o whole records held (.gapCancelled (key tokenId) id)
      (held.clearGap tokenId id { held.settlement id with status := .cancelled })
      (live.cancelled tokenId id) := by
  have hopen' := h.openGaps.get_some hopen
  obtain ⟨r, hr⟩ := hlive.gaps hwritable _ id hopen
  obtain ⟨hrecord, _, hstatus, _⟩ := pointed_settlement hheld.written.gaps hopen'
  obtain ⟨hgaps, hopened⟩ := hheld.written.closing hopen' .cancelled (by simp)
    [.gapCancelled (key tokenId) id]
  exact {
    applies := by
      simp only [applyRecord, key, bigInt_toString]
      exact replayGapCancelled_eq_ok.mpr ⟨hopen', rfl⟩
    ascends := trivial
    written := ⟨hgaps, hopened⟩
    kept := Kept.closing hrecord (Or.inr ⟨hstatus, Or.inr rfl⟩)
    overlay := {
      projections := h.projections
      openGaps := h.openGaps.delete _
      settlements := by
        rw [h.settlement hr]
        exact h.settlements.set _ _
      heights := h.heights } }

/-- An admission that closes the gap its token points at, or none. -/
theorem Held.readmitted (h : Held o fresh records held) (tokenId : Int) (id : Option Bytes32)
    (hnamed : ∀ id', id = some id' → held.openGaps.get (key tokenId) = some id')
    (c : CandidateEntry) (adapter : σ) (text height : String) (entry : EntryJson) :
    Written (records ++ [.admitted text entry height id])
        (held.readmitted tokenId c adapter id) ∧
      Kept held.settlements (held.readmitted tokenId c adapter id).settlements := by
  cases id with
  | none =>
      exact ⟨⟨h.written.gaps, fun id r hr => (h.written.opened id r hr).append _⟩, .refl _⟩
  | some id =>
      have hopen := hnamed id rfl
      obtain ⟨hrecord, _, hstatus, _⟩ := pointed_settlement h.written.gaps hopen
      obtain ⟨hgaps, hopened⟩ := h.written.closing hopen .admitted (by simp)
        [.admitted text entry height (some id)]
      exact ⟨⟨hgaps, hopened⟩, Kept.closing hrecord (Or.inr ⟨hstatus, Or.inl rfl⟩)⟩

/-- Where replay and the live store enter the same candidate over a token both know. -/
theorem Overlay.entered (h : Overlay o whole held live) (hlive : live.Valid)
    (hwritable : live.poisoned = none) {tokenId : Int} (c : CandidateEntry) {a b : σ}
    (hknown : held.projections.get (key tokenId) = live.projections.get (key tokenId))
    {height : Int}
    (ha : ∀ other, o.adapter.acceptedHeight a other =
      if other = tokenId then height else o.adapter.acceptedHeight live.adapter other)
    (hb : ∀ other, o.adapter.acceptedHeight b other =
      if other = tokenId then height else o.adapter.acceptedHeight held.adapter other) :
    Overlay o whole (held.readmitted tokenId c b (live.openGaps.get (key tokenId)))
      (live.entered tokenId c a) where
  projections := by
    rw [readmitted_projections, entered_projections, projectionOf, projectionOf, hknown]
    exact h.projections.set _ _
  openGaps := by
    intro k
    rw [readmitted_openGaps, entered_openGaps_get]
    cases hopen : live.openGaps.get (key tokenId) with
    | none =>
        have hsame : (if key tokenId = k then none else live.openGaps.get k) =
            live.openGaps.get k := by
          split
          next hk => rw [← hk, hopen]
          next => rfl
        rw [hsame]
        exact h.openGaps k
    | some id =>
        have hdelete := h.openGaps.delete (key tokenId) k
        rwa [InsertionMap.get_delete (m := live.openGaps)] at hdelete
  settlements := by
    rw [readmitted_settlements, entered_settlements]
    cases hopen : live.openGaps.get (key tokenId) with
    | none => exact h.settlements
    | some id =>
        obtain ⟨r, hr⟩ := hlive.gaps hwritable _ id hopen
        simp only [h.settlement hr]
        exact h.settlements.set _ _
  heights other hsame := by
    have hadapter :
        (held.readmitted tokenId c b (live.openGaps.get (key tokenId))).adapter = b := by
      cases live.openGaps.get (key tokenId) <;> rfl
    rw [hadapter, entered_adapter, ha, hb]
    split
    next => rfl
    next hne =>
      have hkey : key tokenId ≠ key other := fun heq => hne (key_inj.mp heq).symm
      rw [readmitted_projections, entered_projections, InsertionMap.get_set_of_ne hkey,
        InsertionMap.get_set_of_ne hkey] at hsame
      exact h.heights other hsame

theorem Overlay.admitted (h : Overlay o whole held live) (hheld : Held o fresh records held)
    (hlive : live.Valid) {tokenId : Int} {argument : JsValue} {material : ProofMaterial}
    {now : Int} {c : CandidateEntry} {adapter : σ}
    (hc : Accepted o live tokenId argument material now c)
    (hadvance : o.adapter.advanceHeight live.adapter tokenId material.remoteHeight = .ok adapter)
    (hknown : held.projections.get (key tokenId) = live.projections.get (key tokenId)) :
    ∃ b, Writes o whole records held
      (live.admittedRecord tokenId { c with supersededAt := 0 } material.remoteHeight)
      (held.readmitted tokenId c b (live.openGaps.get (key tokenId)))
      (live.admitted tokenId c material.remoteHeight adapter) := by
  have hfollows : Follows (held.entries tokenId) c := by
    rw [← projectionOf_entries, projectionOf, hknown, ← projectionOf, projectionOf_entries]
    exact hc.follows
  have hlt := (checkProof_eq_ok.mp hc.proof).2.2.1
  rw [← h.heights tokenId hknown] at hlt
  obtain ⟨b, hb, hheights⟩ := o.adapter.advances held.adapter tokenId material.remoteHeight hlt
  obtain ⟨hwritten, hkept⟩ := hheld.readmitted tokenId (live.openGaps.get (key tokenId))
    (fun _ hopen => h.openGaps.get_some hopen) c b
    (key tokenId) (toString material.remoteHeight) (entryJson { c with supersededAt := 0 })
  have hoverlay := h.entered hlive hc.writable c hknown (hc.heights hadvance) hheights
  exact ⟨b, {
    applies := by
      simp only [applyRecord, admittedRecord, key, bigInt_toString, toCandidate_entryJson]
      exact (replayAdmitted_eq_ok hheld.replayed.valid).mpr ⟨b, hfollows, hb, rfl⟩
    ascends := by
      intro token n htoken hn
      rw [key, bigInt_toString] at htoken
      rw [bigInt_toString] at hn
      cases htoken
      cases hn
      exact hlt
    written := hwritten
    kept := hkept
    overlay := ⟨hoverlay.projections, hoverlay.openGaps, hoverlay.settlements, hoverlay.heights⟩ }⟩

/-! ## What was acknowledged -/

/-- The history of a store contains an acknowledged mutation. -/
def Contains (s : ProjectionStore σ) : Acknowledged → Prop
  | .admission tokenId entry closed =>
      entry ∈ (s.entries tokenId).map (fun e => e.toCandidateEntry) ∧
        ∀ id, closed = some id → ∃ r, s.settlements.get id = some r ∧ r.status = .admitted
  | .opening record => ∃ r, s.settlements.get record.settlementId = some r ∧ Succeeds record r
  | .cancellation record =>
      s.settlements.get record.settlementId = some record ∧ record.status = .cancelled

theorem Contains.mirrored {rel : Int → Int → Prop} (h : Mirrors o rel s t) {a : Acknowledged}
    (ha : Contains s a) : Contains t a := by
  cases a <;> simpa only [Contains, entries, h.projections, h.settlements] using ha

/-- What a store contains it contains after further records. -/
theorem Contains.further {records more : List JournalRecord} (hs : Replayed records s)
    (ht : Replayed (records ++ more) t) (hkept : Kept s.settlements t.settlements)
    {a : Acknowledged} (ha : Contains s a) : Contains t a := by
  have hclosed : ∀ id r, s.settlements.get id = some r → r.status ≠ .open →
      t.settlements.get id = some r := by
    intro id r hr hstatus
    obtain ⟨r', hr', hsucceeds⟩ := hkept id r hr
    rw [hr', hsucceeds.of_closed hstatus]
  cases a with
  | admission tokenId entry closed =>
      obtain ⟨hentry, hadmitted⟩ := ha
      rw [hs.entries] at hentry
      refine ⟨?_, fun id hid => ?_⟩
      · rw [ht.entries, List.filterMap_append]
        exact List.mem_append_left _ hentry
      · obtain ⟨r, hr, hstatus⟩ := hadmitted id hid
        exact ⟨r, hclosed id r hr (by simp [hstatus]), hstatus⟩
  | opening record =>
      obtain ⟨r, hr, hsucceeds⟩ := ha
      obtain ⟨r', hr', hsucceeds'⟩ := hkept _ r hr
      exact ⟨r', hr', hsucceeds.trans hsucceeds'⟩
  | cancellation record => exact ⟨hclosed _ _ ha.1 (by simp [ha.2]), ha.2⟩

/-- An acknowledged mutation of a store over what the journal holds writes one record, which
applies, and what was acknowledged is then contained. -/
theorem Overlay.effect (h : Overlay o whole held live) (hheld : Held o fresh records held)
    (hlive : live.Valid) {m : Mutation} {after : ProjectionStore σ} {result : StoreAnswer}
    (heffect : Effect o live none m after (.ok result))
    (hfresh : ∀ tokenId gap, m = .openGap tokenId gap →
      Refused o live m ∨ Unopened gap.settlementId records)
    (hfree : whole = true ∨ Refused o live m ∨ Lifetimes.FreeFor live records m) :
    ∃ record held' a, Writes o whole records held record held' after ∧
      after.journal = live.journal.append record ∧
      Lifetimes.answered live m (.ok result) = [a] ∧ Contains held' a := by
  cases heffect with
  | @admitted tokenId argument material now c adapter hc hadvance =>
      have hknown : held.projections.get (key tokenId) = live.projections.get (key tokenId) := by
        rcases h.projections (key tokenId) with hsame | ⟨hpart, hnone⟩
        · exact hsame
        · -- The live store does not hold the token, so the journal has no entry of it.
          rcases hfree with hwhole | hrefused | hentered | hunentered
          · rw [hpart] at hwhole
            cases hwhole
          · exact absurd hc (hrefused c)
          · simp [entries, hnone] at hentered
          · rw [hnone, hheld.unentered hunentered]
      obtain ⟨b, hwrites⟩ := h.admitted hheld hlive hc hadvance hknown
      refine ⟨_, _, _, hwrites, rfl, rfl, ?_, fun id hid => ?_⟩
      · rw [readmitted_entries, if_pos rfl, map_extend _ _ fun c => c]
        exact List.mem_append_right _ List.mem_cons_self
      · rw [hid, readmitted_settlements]
        exact ⟨_, InsertionMap.get_set_self _ _ _, rfl⟩
  | @opened tokenId gap hwritable hopen =>
      have hnot : ¬ Refused o live (.openGap tokenId gap) := not_refused_openGap hwritable hopen
      have hfresh' := hheld.unopened ((hfresh tokenId gap rfl).resolve_left hnot)
      have hfree' : held.openGaps.get (key tokenId) = none := by
        rcases hfree with hwhole | hrefused | hnone
        · subst hwhole
          rw [h.openGaps.get_whole, hopen]
        · exact absurd hrefused hnot
        · exact (hheld.pointer tokenId).trans hnone
      refine ⟨_, _, _, h.opened hheld hfree' hfresh', rfl, rfl, _, ?_, Or.inl rfl⟩
      exact InsertionMap.get_set_self _ _ _
  | @cancelled tokenId id hwritable hopen =>
      obtain ⟨r, hr⟩ := hlive.gaps hwritable _ id hopen
      have hkeyed := (pointed_settlement hheld.written.gaps (h.openGaps.get_some hopen)).2.1
      refine ⟨_, _, _, h.cancelled hheld hlive hwritable hopen, rfl, rfl, ?_, rfl⟩
      rw [h.settlement hr] at hkeyed
      simp only [clearGap, hkeyed, h.settlement hr, InsertionMap.get_set_self]

end ProjectionStore

/-! ## Whole runs -/

namespace Lifetimes

variable {options : StoreOptions σ} {o : StoreConfig σ} {fresh : σ} {p : Lifetimes σ}

/-- A process on a journal that replays to `held`. -/
structure Attached (o : StoreConfig σ) (content : JournalContent) (held : ProjectionStore σ)
    (process : Process σ) : Prop where
  valid : process.store.Valid
  journal : process.store.journal = content
  identity : content.identity = some (ProjectionStore.identity o)
  writable : process.store.poisoned = none
  overlay : Overlay o process.restored held process.store

/-- The journal replays to a store that contains what was acknowledged, and the live store
is a part of it. -/
structure Accounted (o : StoreConfig σ) (fresh : σ) (p : Lifetimes σ)
    (held : ProjectionStore σ) : Prop where
  replays : Held o fresh p.journal.records held
  bound : p.journal.identity = some (identity o) ∨ p.journal = .empty
  count : p.journal.records.length = p.acknowledged.length
  contains : ∀ a ∈ p.acknowledged, Contains held a
  live : ∀ process, p.live = some process → Attached o p.journal held process

theorem Accounted.start (fresh : σ) :
    Accounted o fresh Lifetimes.start (initial fresh .empty) where
  replays := .nil fresh
  bound := Or.inr rfl
  count := rfl
  contains := nofun
  live := nofun

variable {held : ProjectionStore σ}

/-- The journal once it carries the identity of the options. -/
def bound (o : StoreConfig σ) (p : Lifetimes σ) : JournalContent :=
  ⟨some (identity o), p.journal.records⟩

theorem Accounted.new (h : Accounted o fresh p held) (hconfigure : configure options = .ok o)
    (adapter : σ) :
    ProjectionStore.new options adapter p.journal = .ok (o, initial adapter (p.bound o)) := by
  rcases h.bound with hbound | hempty
  · rw [new_of_bound hconfigure hbound]
    simp only [Lifetimes.bound, ← hbound]
  · simp only [ProjectionStore.new, hconfigure, hempty, Lifetimes.bound]
    rfl

/-- Restoring returns normally, with a store that contains what was acknowledged. -/
theorem Accounted.restores (h : Accounted o fresh p held) (hconfigure : configure options = .ok o)
    {adapter : σ} (hadapter : SameHeights o adapter fresh) :
    ∃ t, restoreProjectionStore options adapter p.journal = .ok ⟨o, t, p.acknowledged.length⟩ ∧
      t.Valid ∧ SameBook (initial adapter (p.bound o)) t ∧ Mirrors o (· = ·) held t := by
  obtain ⟨t, hreplay, hbook, hmirrors⟩ := h.replays.replays adapter hadapter (p.bound o)
  have ht : Replayed p.journal.records t := (Replayed.initial adapter _).replay hreplay
  refine ⟨t, ?_, ht.valid, hbook, hmirrors⟩
  simp only [restoreProjectionStore, h.new hconfigure, bind, Except.bind, hreplay, h.count]
  rfl

/-- A process that takes the journal over. -/
theorem Accounted.opened (h : Accounted o fresh p held) (process : Process σ)
    (hvalid : process.store.Valid) (hjournal : process.store.journal = p.bound o)
    (hwritable : process.store.poisoned = none)
    (hoverlay : Overlay o process.restored held process.store) :
    Accounted o fresh { p with journal := process.store.journal, live := some process } held := by
  rw [hjournal]
  refine ⟨h.replays, Or.inl rfl, h.count, h.contains, fun process' hprocess' => ?_⟩
  cases hprocess'
  exact ⟨hvalid, hjournal, rfl, hwritable, hoverlay⟩

/-- A call that is acknowledged. -/
theorem Accounted.written (h : Accounted o fresh p held) {restored : Bool}
    {after held' : ProjectionStore σ} {record : JournalRecord} {a : Acknowledged}
    (hwrites : Writes o restored p.journal.records held record held' after)
    (hidentity : p.journal.identity = some (identity o)) (hvalid : after.Valid)
    (hjournal : after.journal = p.journal.append record) (hwritable : after.poisoned = none)
    (ha : Contains held' a) :
    Accounted o fresh ⟨after.journal, some ⟨after, restored⟩, p.acknowledged ++ [a]⟩ held' := by
  have hheld := h.replays.concat hwrites.applies hwrites.ascends hwrites.written
  rw [hjournal]
  refine ⟨hheld, Or.inl hidentity, ?_, fun b hb => ?_, fun process hprocess => ?_⟩
  · simp only [JournalContent.append, List.length_append, h.count]
    rfl
  · rcases List.mem_append.mp hb with hold | hnew
    · exact (h.contains b hold).further h.replays.replayed hheld.replayed hwrites.kept
    · rw [List.mem_singleton.mp hnew]
      exact ha
  · cases hprocess
    exact ⟨hvalid, hjournal, hidentity, hwritable, hwrites.overlay⟩

/-- A call that leaves the journal alone. -/
theorem Accounted.unwritten (h : Accounted o fresh p held) {process : Process σ}
    {after : ProjectionStore σ} (hjournal : after.journal = p.journal)
    (hlive : Attached o p.journal held { process with store := after }) :
    Accounted o fresh ⟨after.journal, some { process with store := after },
      p.acknowledged ++ []⟩ held := by
  rw [hjournal, List.append_nil]
  refine ⟨h.replays, h.bound, h.count, h.contains, fun process' hprocess' => ?_⟩
  cases hprocess'
  exact hlive

theorem Attached.moved {content : JournalContent} {process : Process σ}
    (h : Attached o content held process) {adapter : σ}
    (hadapter : SameHeights o adapter process.store.adapter) :
    Attached o content held
      { process with store := { process.store with adapter := adapter } } where
  valid := ⟨h.valid.projections, h.valid.gaps⟩
  journal := h.journal
  identity := h.identity
  writable := h.writable
  overlay := ⟨h.overlay.projections, h.overlay.openGaps, h.overlay.settlements,
    fun tokenId hsame => (h.overlay.heights tokenId hsame).trans (hadapter tokenId).symm⟩

theorem Accounted.step (h : Accounted o fresh p held) (hconfigure : configure options = .ok o)
    {event : LifetimeEvent σ} (hordinary : Ordinary o fresh p event)
    (hfree : WritesFree o p event) : ∃ held', Accounted o fresh (p.step options o event) held' := by
  cases event with
  | construct adapter =>
      simp only [Lifetimes.step, h.new hconfigure]
      exact ⟨held, h.opened ⟨initial adapter (p.bound o), false⟩
        (.initial adapter _) rfl rfl (.constructed h.replays hordinary _)⟩
  | restore adapter =>
      obtain ⟨t, hrestore, hvalid, hbook, hmirrors⟩ := h.restores hconfigure hordinary
      simp only [Lifetimes.step, hrestore]
      exact ⟨held, h.opened ⟨t, true⟩ hvalid hbook.1 hbook.2 (.restored hmirrors)⟩
  | call call =>
      simp only [Lifetimes.step]
      cases hlive : p.live with
      | none => exact ⟨held, h⟩
      | some process =>
          have hattached := h.live process hlive
          cases call with
          | adapterMoves adapter =>
              have hmoved := hattached.moved (hordinary process hlive)
              exact ⟨held, h.unwritten hattached.journal hmoved⟩
          | mutate m append =>
              obtain ⟨rfl, hfresh⟩ := hordinary
              have heffect := perform_effect (o := o) hattached.valid none m
              have hvalid := heffect.valid hattached.valid
              have hwritable := heffect.poisoned.trans hattached.writable
              simp only [ProjectionStore.step, acknowledges]
              generalize process.store.perform o none m = done at heffect hvalid hwritable ⊢
              obtain ⟨after, answer⟩ := done
              cases answer with
              | error thrown =>
                  have hnone : answered process.store m (.error thrown) = [] := by
                    cases m <;> rfl
                  simp only [hnone]
                  cases heffect
                  exact ⟨held, h.unwritten hattached.journal hattached⟩
              | ok result =>
                  obtain ⟨record, held', a, hwrites, hjournal, hanswered, ha⟩ :=
                    hattached.overlay.effect h.replays hattached.valid heffect
                      (hfresh process hlive) (hfree process hlive)
                  simp only [hanswered]
                  rw [hattached.journal] at hjournal
                  exact ⟨held', h.written hwrites hattached.identity hvalid hjournal hwritable ha⟩

/-- A run of lifetimes as it is promised to be, in which stores built anew write only where the
journal is free. -/
abbrev Careful (options : StoreOptions σ) (o : StoreConfig σ) (fresh : σ)
    (events : List (LifetimeEvent σ)) : Prop :=
  LabelledRun.Admissible (Lifetimes.step options o)
    (fun p event => Ordinary o fresh p event ∧ WritesFree o p event) Lifetimes.start events

/-- After any such run the journal restores, over every adapter as fresh as the processes' own,
with one record applied for each acknowledged mutation and all of them in the history. -/
theorem run_replayable (options : StoreOptions σ) (o : StoreConfig σ) (fresh : σ)
    (hconfigure : configure options = .ok o) (events : List (LifetimeEvent σ))
    (hevents : Careful options o fresh events) :
    let p := LabelledRun.run (Lifetimes.step options o) Lifetimes.start events
    ∀ adapter, SameHeights o adapter fresh →
      ∃ t, restoreProjectionStore options adapter p.journal = .ok ⟨o, t, p.acknowledged.length⟩ ∧
        ∀ a ∈ p.acknowledged, t.Contains a := by
  intro p adapter hadapter
  obtain ⟨held, h⟩ : ∃ held, Accounted o fresh p held :=
    LabelledRun.admissible_invariant _ (fun p => ∃ held, Accounted o fresh p held)
      (fun _ _ h hevent => h.elim fun _ h => h.step hconfigure hevent.1 hevent.2)
      ⟨_, Accounted.start fresh⟩ hevents
  obtain ⟨t, hrestore, _, _, hmirrors⟩ := h.restores hconfigure hadapter
  exact ⟨t, hrestore, fun a ha => (h.contains a ha).mirrored hmirrors⟩

/-! ### A store built anew -/

section BuiltAnew

def freshChain : MemoryChain := MemoryChain.new {}

/-- The first entry of a token, admitted at height 5. -/
def admitFirst (tokenId : Int) : LifetimeEvent MemoryChain :=
  .call (.mutate (.admitEntry tokenId firstCandidate.toJs ⟨"trusting", 5, .null⟩ 150) none)

/-- A gap is opened and closed by an entry; a second process restores the store; a third one
builds its store anew and admits to another token. -/
def threeProcesses : List (LifetimeEvent MemoryChain) :=
  [.construct freshChain, .call (.mutate (.openGap 1 firstGap) none), admitFirst 1,
    .restore freshChain, .construct freshChain, admitFirst 2]

theorem threeProcesses_careful : Careful memoryOptions memoryConfig freshChain threeProcesses := by
  refine ⟨⟨fun _ => rfl, trivial⟩, ⟨⟨rfl, ?_⟩, ?_⟩, ⟨⟨rfl, ?_⟩, ?_⟩, ⟨fun _ => rfl, trivial⟩,
    ⟨fun _ => rfl, trivial⟩, ⟨⟨rfl, ?_⟩, ?_⟩, trivial⟩
  · intro process _ tokenId gap _
    exact Or.inr nofun
  · intro process _
    exact Or.inr (Or.inr rfl)
  · intro process _ tokenId gap hgap
    cases hgap
  · intro process _
    exact Or.inr (Or.inr (Or.inr (by decide +kernel)))
  · intro process _ tokenId gap hgap
    cases hgap
  · intro process _
    exact Or.inr (Or.inr (Or.inr (by decide +kernel)))

/-- Each process builds its store anew, and both admit the first entry of token 1. -/
def twiceAnew : List (LifetimeEvent MemoryChain) :=
  [.construct freshChain, admitFirst 1, .construct freshChain, admitFirst 1]

theorem run_replayable_three :
    let p := LabelledRun.run (Lifetimes.step memoryOptions memoryConfig) start threeProcesses
    ∀ adapter, SameHeights memoryConfig adapter freshChain →
      ∃ t, restoreProjectionStore memoryOptions adapter p.journal =
          .ok ⟨memoryConfig, t, p.acknowledged.length⟩ ∧
        ∀ a ∈ p.acknowledged, t.Contains a :=
  run_replayable memoryOptions memoryConfig freshChain rfl threeProcesses threeProcesses_careful

/-- Both admissions are acknowledged, and the journal restores no more. -/
theorem built_anew_twice :
    let p := LabelledRun.run (Lifetimes.step memoryOptions memoryConfig) start twiceAnew
    LabelledRun.Admissible (Lifetimes.step memoryOptions memoryConfig)
        (Ordinary memoryConfig freshChain) start twiceAnew ∧
      p.acknowledged = [.admission 1 firstCandidate none, .admission 1 firstCandidate none] ∧
      restoreProjectionStore memoryOptions freshChain p.journal =
        .error (.rejection ⟨.nonConsecutiveVersion, "version must be 2, got 1"⟩) := by
  refine ⟨⟨fun _ => rfl, ⟨rfl, ?_⟩, fun _ => rfl, ⟨rfl, ?_⟩, trivial⟩, by decide +kernel, rfl⟩
  · intro process _ tokenId gap hgap
    cases hgap
  · intro process _ tokenId gap hgap
    cases hgap

end BuiltAnew

end Lifetimes

end Erc8415
