import Erc8415.Persistence.Restore
import Erc8415.Projection.GapRecords

/-! # Replay follows the live store

The record a live mutation appends, applied to a store that mirrors the live
one, gives a store that mirrors what the mutation left. The two write paths are
compared one kind of record at a time; runs and restarts follow from it.
-/

namespace Erc8415

variable {σ : Type} {o : StoreConfig σ}

namespace ProjectionStore

/-- A replayed store with the live store's projections, gaps and settlements.
Accepted heights are compared by a relation: equal after a run in which no
append fails, behind when a rollback has left the live height advanced. -/
structure Mirrors (o : StoreConfig σ) (rel : Int → Int → Prop) (live replayed : ProjectionStore σ) :
    Prop where
  projections : replayed.projections = live.projections
  openGaps : replayed.openGaps = live.openGaps
  settlements : replayed.settlements = live.settlements
  heights : ∀ tokenId, rel (o.adapter.acceptedHeight replayed.adapter tokenId)
    (o.adapter.acceptedHeight live.adapter tokenId)

/-- What a replayed store keeps of its own: its journal, and that it is healthy. -/
def SameBook (s t : ProjectionStore σ) : Prop := t.journal = s.journal ∧ t.poisoned = s.poisoned

variable {live replayed : ProjectionStore σ} {rel : Int → Int → Prop}

theorem Mirrors.projectionOf (h : Mirrors o rel live replayed) (tokenId : Int) :
    replayed.projectionOf tokenId = live.projectionOf tokenId := by
  simp only [ProjectionStore.projectionOf, h.projections]

theorem Mirrors.settlement (h : Mirrors o rel live replayed) (id : Bytes32) :
    replayed.settlement id = live.settlement id := by
  simp only [ProjectionStore.settlement, h.settlements]

/-! ## One record -/

/-- Replaying an admission never fails: the candidate followed the same history,
and the height is above the replayed one as it was above the live one. -/
theorem Mirrors.admitted (h : Mirrors o rel live replayed) (hlive : live.Valid)
    (hrel : ∀ a b, rel a b → a ≤ b) (hrefl : ∀ a, rel a a)
    {tokenId : Int} {argument : JsValue} {material : ProofMaterial} {now : Int}
    {c : CandidateEntry} {adapter : σ}
    (hc : Accepted o live tokenId argument material now c)
    (hadvance : o.adapter.advanceHeight live.adapter tokenId material.remoteHeight = .ok adapter) :
    ∃ next, applyRecord o replayed
        (live.admittedRecord tokenId { c with supersededAt := 0 } material.remoteHeight) =
          .ok next ∧
      Mirrors o rel (live.admitted tokenId c material.remoteHeight adapter) next ∧
      SameBook replayed next := by
  have hlt := (checkProof_eq_ok.mp hc.proof).2.2.1
  obtain ⟨adapter', hadvance', hheights'⟩ := o.adapter.advances replayed.adapter tokenId
    material.remoteHeight (Int.lt_of_le_of_lt (hrel _ _ (h.heights tokenId)) hlt)
  have hadmit : (replayed.projectionOf tokenId).admitEntry c.toJs =
      .ok ((live.projectionOf tokenId).append c, { c with supersededAt := 0 }) := by
    rw [h.projectionOf, TokenProjection.admit_eq_ok (hlive.projectionOf tokenId)]
    exact ⟨c, validateCandidateShape_toJs.mpr ⟨rfl, hc.follows.shaped⟩,
      by rw [projectionOf_entries]; exact hc.follows, rfl, rfl⟩
  have hparsed : applyRecord o replayed
      (live.admittedRecord tokenId { c with supersededAt := 0 } material.remoteHeight) =
        replayed.replayAdmitted o tokenId c material.remoteHeight
          (live.openGaps.get (key tokenId)) := by
    simp only [applyRecord, admittedRecord, key, bigInt_toString, toCandidate_entryJson]
    rfl
  -- Both adapters now answer the admitted height, and as before elsewhere.
  have hafter : ∀ other, rel (o.adapter.acceptedHeight adapter' other)
      (o.adapter.acceptedHeight adapter other) := by
    intro other
    rw [hheights', hc.heights hadvance]
    split
    next => exact hrefl _
    next => exact h.heights other
  rw [hparsed]
  simp only [replayAdmitted, hadmit, hadvance']
  cases hopen : live.openGaps.get (key tokenId) with
  | none =>
      refine ⟨_, rfl, ⟨?_, ?_, ?_, ?_⟩, rfl, rfl⟩
      · simp [ProjectionStore.admitted, h.projections]
      · simp [ProjectionStore.admitted, entered, closeGap, hopen, h.openGaps]
      · simp [ProjectionStore.admitted, entered, closeGap, hopen, h.settlements]
      · simpa [ProjectionStore.admitted] using hafter
  | some id =>
      refine ⟨_, rfl, ⟨?_, ?_, ?_, ?_⟩, rfl, rfl⟩
      · simp [ProjectionStore.admitted, h.projections, clearGap]
      · simp [ProjectionStore.admitted, entered, closeGap, hopen, h.openGaps, clearGap]
      · simp [ProjectionStore.admitted, entered, closeGap, hopen, h.settlements, clearGap,
          ProjectionStore.settlement]
      · simpa [ProjectionStore.admitted, clearGap] using hafter

theorem Mirrors.opened (h : Mirrors o rel live replayed) {tokenId : Int} {gap : GapRequest}
    (hfree : live.openGaps.get (key tokenId) = none)
    (hfresh : live.settlements.get gap.settlementId = none) :
    ∃ next, applyRecord o replayed
        (.gapOpened (key tokenId) (settlementJson (gap.opened tokenId))) = .ok next ∧
      Mirrors o rel (live.opened tokenId gap) next ∧ SameBook replayed next := by
  have hparsed : applyRecord o replayed
      (.gapOpened (key tokenId) (settlementJson (gap.opened tokenId))) =
        replayed.replayGapOpened (gap.opened tokenId) := by
    simp only [applyRecord, toSettlement_settlementJson (r := gap.opened tokenId) rfl]
    rfl
  have hfree' : replayed.openGaps.has (key (gap.opened tokenId).tokenId) = false := by
    rw [InsertionMap.has_eq_false, h.openGaps]
    exact hfree
  have hfresh' : replayed.settlements.has (gap.opened tokenId).settlementId = false := by
    rw [InsertionMap.has_eq_false, h.settlements]
    exact hfresh
  rw [hparsed]
  simp only [replayGapOpened, hfree', hfresh', Bool.false_eq_true, if_false]
  refine ⟨_, rfl, ⟨h.projections, ?_, ?_, h.heights⟩, rfl, rfl⟩
  · simp only [ProjectionStore.opened, setGap, h.openGaps]
    rfl
  · simp only [ProjectionStore.opened, setGap, h.settlements]

theorem Mirrors.cancelled (h : Mirrors o rel live replayed) {tokenId : Int} {id : Bytes32}
    (hopen : live.openGaps.get (key tokenId) = some id) :
    ∃ next, applyRecord o replayed (.gapCancelled (key tokenId) id) = .ok next ∧
      Mirrors o rel (live.cancelled tokenId id) next ∧ SameBook replayed next := by
  have hparsed : applyRecord o replayed (.gapCancelled (key tokenId) id) =
      replayed.replayGapCancelled tokenId id := by
    simp only [applyRecord, key, bigInt_toString]
    rfl
  have hopen' : ¬ replayed.openGaps.get (key tokenId) ≠ some id := by
    rw [h.openGaps, hopen]
    simp
  rw [hparsed]
  simp only [replayGapCancelled, if_neg hopen']
  refine ⟨_, rfl, ⟨h.projections, ?_, ?_, h.heights⟩, rfl, rfl⟩
  · simp only [ProjectionStore.cancelled, clearGap, h.openGaps]
  · simp only [ProjectionStore.cancelled, clearGap, h.settlements, h.settlement]

/-- Over a journal that takes the append, a mutation either refuses or appends
one record, and that record replays to what the mutation left. -/
theorem Effect.replays (h : Mirrors o rel live replayed) (hlive : live.Valid)
    (hrel : ∀ a b, rel a b → a ≤ b) (hrefl : ∀ a, rel a a) {m : Mutation}
    {after : ProjectionStore σ} {answer : Except Thrown StoreAnswer}
    (hkeeps : KeepsRecords o live none m) (heffect : Effect o live none m after answer) :
    (after = live ∧ ∃ thrown, answer = .error thrown) ∨
      ∃ record next result, answer = .ok result ∧
        after.journal = live.journal.append record ∧ applyRecord o replayed record = .ok next ∧
        Mirrors o rel after next ∧ SameBook replayed next := by
  cases heffect with
  | refused e hrefused => exact Or.inl ⟨rfl, _, rfl⟩
  | admitted hc hadvance =>
      obtain ⟨next, happly, hmirrors, hbook⟩ := h.admitted hlive hrel hrefl hc hadvance
      exact Or.inr ⟨_, next, _, rfl, rfl, happly, hmirrors, hbook⟩
  | opened hwritable hfree =>
      have hfresh := hkeeps.resolve_left (not_refused_openGap hwritable hfree)
      obtain ⟨next, happly, hmirrors, hbook⟩ := h.opened hfree hfresh
      exact Or.inr ⟨_, next, _, rfl, rfl, happly, hmirrors, hbook⟩
  | cancelled hwritable hopen =>
      obtain ⟨next, happly, hmirrors, hbook⟩ := h.cancelled hopen
      exact Or.inr ⟨_, next, _, rfl, rfl, happly, hmirrors, hbook⟩

/-! ## Whole journals -/

/-- Replaying a store's journal from a fresh adapter returns normally, and while
the store accepts writes what it returns mirrors the store. -/
def Restorable (o : StoreConfig σ) (fresh : σ) (rel : Int → Int → Prop)
    (live : ProjectionStore σ) : Prop :=
  ∀ journal, ∃ replayed, replay o (initial fresh journal) live.journal.records = .ok replayed ∧
    SameBook (initial fresh journal) replayed ∧
    (live.poisoned = none → Mirrors o rel live replayed)

theorem Restorable.initial {fresh adapter : σ} (identity : Option JournalIdentity)
    (hheights : ∀ tokenId, rel (o.adapter.acceptedHeight fresh tokenId)
      (o.adapter.acceptedHeight adapter tokenId)) :
    Restorable o fresh rel (initial adapter ⟨identity, []⟩) :=
  fun _ => ⟨_, rfl, ⟨rfl, rfl⟩, fun _ => ⟨rfl, rfl, rfl, hheights⟩⟩

/-- A journal that takes the append stays replayable, over any comparison. -/
theorem Restorable.journaled {fresh : σ} (h : Restorable o fresh rel live) (hlive : live.Valid)
    (hrel : ∀ a b, rel a b → a ≤ b) (hrefl : ∀ a, rel a a) {m : Mutation}
    {after : ProjectionStore σ} {answer : Except Thrown StoreAnswer}
    (hkeeps : KeepsRecords o live none m) (heffect : Effect o live none m after answer) :
    Restorable o fresh rel after := by
  intro journal
  obtain ⟨replayed, hreplay, hbook, hmirrors⟩ := h journal
  by_cases hwritable : live.poisoned = none
  · rcases heffect.replays (hmirrors hwritable) hlive hrel hrefl hkeeps with ⟨rfl, _⟩ |
      ⟨record, next, _, _, hjournal, happly, hnext, hbook'⟩
    · exact ⟨replayed, hreplay, hbook, hmirrors⟩
    · refine ⟨next, ?_, ⟨hbook'.1.trans hbook.1, hbook'.2.trans hbook.2⟩, fun _ => hnext⟩
      rw [hjournal]
      exact replay_concat hreplay happly
  · -- A poisoned store refuses, so nothing was appended.
    have hsame : after = live := by
      cases heffect with
      | refused e hrefused => rfl
      | admitted hc hadvance => exact absurd hc.writable hwritable
      | opened h _ => exact absurd h hwritable
      | cancelled h _ => exact absurd h hwritable
    rw [hsame]
    exact ⟨replayed, hreplay, hbook, hmirrors⟩

/-- A failed append leaves the journal as it was. The store is poisoned, or its
rollback threw and left no more than an advanced height behind. -/
theorem Restorable.unjournaled {fresh : σ} (h : Restorable o fresh (· ≤ ·) live)
    {error : Thrown} {m : Mutation} {after : ProjectionStore σ}
    {answer : Except Thrown StoreAnswer} (hkeeps : KeepsRecords o live (some error) m)
    (heffect : Effect o live (some error) m after answer) :
    Restorable o fresh (· ≤ ·) after := by
  intro journal
  obtain ⟨replayed, hreplay, hbook, hmirrors⟩ := h journal
  cases heffect with
  | refused e hrefused => exact ⟨replayed, hreplay, hbook, hmirrors⟩
  | unopened | uncancelled | unadmitted =>
      exact ⟨replayed, hreplay, hbook, fun hpoisoned => by simp at hpoisoned⟩
  | @stranded tokenId _ _ _ _ c adapter message hc hadvance hlower =>
      -- An adapter that refuses the prior height may strand an entry, but then no gap was open.
      have hopen : live.openGaps.get (key tokenId) = none := by
        rcases hkeeps with hrefused | hnone | hopen | htakes
        · exact absurd hc (hrefused _)
        · cases hnone
        · exact hopen
        · obtain ⟨lowered, hlowered⟩ := htakes adapter hadvance
          rw [hlower] at hlowered
          cases hlowered
      have hjournal : (live.entered tokenId c adapter).journal = live.journal :=
        entered_journal live tokenId c adapter
      obtain ⟨hprojections, hgaps, hsettlements, hheights⟩ := hmirrors hc.writable
      refine ⟨replayed, by rw [hjournal]; exact hreplay, hbook, fun _ => ?_⟩
      refine ⟨hprojections, ?_, ?_, fun other => ?_⟩
      · rw [hgaps]
        simp [entered, closeGap, hopen]
      · rw [hsettlements, entered_settlements, hopen]
      · rw [entered_adapter, hc.heights hadvance]
        have hbehind := hheights other
        have hlt := (checkProof_eq_ok.mp hc.proof).2.2.1
        split
        next heq =>
          subst heq
          omega
        next => exact hbehind

end ProjectionStore

end Erc8415
