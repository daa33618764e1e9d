import Erc8415.Persistence.Restore
import Erc8415.Projection.Atomicity
import Erc8415.Projection.GapRecords

/-! # What a replay that returns guarantees

Nothing is assumed of the records: any kinds, in any order, with any fields.
Where replay returns, every entry went through the kernel's checks, every
opening found its token free and its identifier unrecorded, and every
cancellation named the gap that was open. It re-decides no height and skips a
kind it does not know. That the pointers and the open records are the same gaps
needs, beyond that, that openings carry the status they are written with and
that admissions name the gap they close. With these, known kinds and rising
heights a list is one the live path could have written, and not without.
-/

namespace Erc8415

variable {σ : Type} {o : StoreConfig σ}

/-! ## The gap of a token -/

/-- The open gap of a token after a record. -/
def gapAfter (tokenId : Int) (pointer : Option Bytes32) : JournalRecord → Option Bytes32
  | .gapOpened _ settlement =>
      match toSettlement settlement with
      | .ok r => if r.tokenId = tokenId then some r.settlementId else pointer
      | .error _ => pointer
  | .gapCancelled text _ =>
      match bigInt text with
      | .ok token => if token = tokenId then none else pointer
      | .error _ => pointer
  | .admitted text _ _ (some _) =>
      match bigInt text with
      | .ok token => if token = tokenId then none else pointer
      | .error _ => pointer
  | _ => pointer

/-- The gap of a token that the records leave open. -/
def gapIn (tokenId : Int) (records : List JournalRecord) : Option Bytes32 :=
  records.foldl (gapAfter tokenId) none

namespace ProjectionStore

variable {s t : ProjectionStore σ}

/-! ## One record -/

/-- The store a replayed admission leaves: the candidate appended, the height
advanced, and the settlement the record names closed as admitted. -/
def readmitted (s : ProjectionStore σ) (tokenId : Int) (c : CandidateEntry) (adapter : σ)
    (settlementId : Option Bytes32) : ProjectionStore σ :=
  let appended := { s with
    projections := s.projections.set (key tokenId) ((s.projectionOf tokenId).append c)
    adapter := adapter }
  match settlementId with
  | none => appended
  | some id => appended.clearGap tokenId id { s.settlement id with status := .admitted }

/-- What a record did to the store it was applied to. -/
def TookEffect (o : StoreConfig σ) (s t : ProjectionStore σ) : JournalRecord → Prop
  | .gapOpened _ settlement =>
      ∃ r, toSettlement settlement = .ok r ∧ s.openGaps.get (key r.tokenId) = none ∧
        s.settlements.get r.settlementId = none ∧ t = s.setGap r.tokenId r
  | .gapCancelled tokenId settlementId =>
      ∃ token, bigInt tokenId = .ok token ∧ s.openGaps.get (key token) = some settlementId ∧
        t = s.clearGap token settlementId { s.settlement settlementId with status := .cancelled }
  | .admitted tokenId entry remoteHeight settlementId =>
      ∃ token c height adapter, bigInt tokenId = .ok token ∧ toCandidate entry = .ok c ∧
        bigInt remoteHeight = .ok height ∧ Follows (s.entries token) c ∧
        o.adapter.advanceHeight s.adapter token height = .ok adapter ∧
        t = s.readmitted token c adapter settlementId
  | .unknown _ => t = s

theorem replayGapOpened_eq_ok {r : Settlement} :
    s.replayGapOpened r = .ok t ↔ s.openGaps.get (key r.tokenId) = none ∧
      s.settlements.get r.settlementId = none ∧ t = s.setGap r.tokenId r := by
  unfold replayGapOpened
  cases hopen : s.openGaps.has (key r.tokenId) with
  | true =>
      obtain ⟨id, hid⟩ := (InsertionMap.has_eq_true _ _).mp hopen
      simp [hid]
  | false =>
      cases hrecorded : s.settlements.has r.settlementId with
      | true =>
          obtain ⟨r', hr'⟩ := (InsertionMap.has_eq_true _ _).mp hrecorded
          simp [hr']
      | false =>
          simp [(InsertionMap.has_eq_false _ _).mp hopen,
            (InsertionMap.has_eq_false _ _).mp hrecorded, eq_comm]

theorem replayGapCancelled_eq_ok {tokenId : Int} {settlementId : Bytes32} :
    s.replayGapCancelled tokenId settlementId = .ok t ↔
      s.openGaps.get (key tokenId) = some settlementId ∧
      t = s.clearGap tokenId settlementId
        { s.settlement settlementId with status := .cancelled } := by
  unfold replayGapCancelled
  by_cases hopen : s.openGaps.get (key tokenId) = some settlementId
  · simp [hopen, eq_comm]
  · simp [hopen]

theorem replayAdmitted_eq_ok (h : s.Valid) {tokenId : Int} {c : CandidateEntry}
    {remoteHeight : Int} {settlementId : Option Bytes32} :
    s.replayAdmitted o tokenId c remoteHeight settlementId = .ok t ↔
      ∃ adapter, Follows (s.entries tokenId) c ∧
        o.adapter.advanceHeight s.adapter tokenId remoteHeight = .ok adapter ∧
        t = s.readmitted tokenId c adapter settlementId := by
  have hprojection := h.projectionOf tokenId
  unfold replayAdmitted
  cases hadmit : (s.projectionOf tokenId).admitEntry c.toJs with
  | error e =>
      simp only [reduceCtorEq, false_iff]
      rintro ⟨adapter, hc, _, _⟩
      rw [(TokenProjection.admit_eq_ok hprojection).mpr
        ⟨c, validateCandidateShape_toJs.mpr ⟨rfl, hc.shaped⟩, by rwa [projectionOf_entries],
          rfl, rfl⟩] at hadmit
      cases hadmit
  | ok result =>
      obtain ⟨target, entry⟩ := result
      obtain ⟨c', hshape, hc, rfl, _⟩ := (TokenProjection.admit_eq_ok hprojection).mp hadmit
      obtain ⟨rfl, _⟩ := validateCandidateShape_toJs.mp hshape
      rw [projectionOf_entries] at hc
      cases hadvance : o.adapter.advanceHeight s.adapter tokenId remoteHeight with
      | error message => simp
      | ok adapter =>
          cases settlementId <;> simp [readmitted, hc, eq_comm, settlement]

/-- A record that applies took effect. -/
theorem took_effect (h : s.Valid) {record : JournalRecord}
    (happly : applyRecord o s record = .ok t) : TookEffect o s t record := by
  cases record with
  | gapOpened tokenId settlement =>
      simp only [applyRecord, bind_eq_ok, replayGapOpened_eq_ok] at happly
      exact happly
  | gapCancelled tokenId settlementId =>
      simp only [applyRecord, bind_eq_ok, replayGapCancelled_eq_ok] at happly
      exact happly
  | admitted tokenId entry remoteHeight settlementId =>
      simp only [applyRecord, bind_eq_ok, replayAdmitted_eq_ok h] at happly
      obtain ⟨token, htoken, c, hc, height, hheight, adapter, hfollows, hadvance, rfl⟩ := happly
      exact ⟨token, c, height, adapter, htoken, hc, hheight, hfollows, hadvance, rfl⟩
  | unknown kind =>
      cases happly
      rfl

@[simp] theorem readmitted_projections (s : ProjectionStore σ) (tokenId : Int)
    (c : CandidateEntry) (adapter : σ) (settlementId : Option Bytes32) :
    (s.readmitted tokenId c adapter settlementId).projections =
      s.projections.set (key tokenId) ((s.projectionOf tokenId).append c) := by
  cases settlementId <;> rfl

theorem readmitted_entries (s : ProjectionStore σ) (tokenId : Int) (c : CandidateEntry)
    (adapter : σ) (settlementId : Option Bytes32) (other : Int) :
    (s.readmitted tokenId c adapter settlementId).entries other =
      if other = tokenId then extend (s.entries tokenId) c else s.entries other := by
  unfold entries
  rw [readmitted_projections, InsertionMap.get_set]
  by_cases hother : other = tokenId
  · subst hother
    rw [if_pos rfl, if_pos rfl]
    change ((s.projectionOf other).append c).entries = extend (s.entries other) c
    rw [TokenProjection.append_entries, projectionOf_entries]
  · rw [if_neg hother, if_neg (mt key_inj.mp (Ne.symm hother))]

theorem setGap_entries (s : ProjectionStore σ) (tokenId : Int) (r : Settlement) (other : Int) :
    (s.setGap tokenId r).entries other = s.entries other := rfl

theorem clearGap_entries (s : ProjectionStore σ) (tokenId : Int) (id : Bytes32) (r : Settlement)
    (other : Int) : (s.clearGap tokenId id r).entries other = s.entries other := rfl

/-! ## What every replay guarantees -/

/-- A record of the list opened the settlement, with the fields it has. -/
def OpenedIn (records : List JournalRecord) (r : Settlement) : Prop :=
  ∃ tokenId settlement opened, JournalRecord.gapOpened tokenId settlement ∈ records ∧
    toSettlement settlement = .ok opened ∧ { opened with status := r.status } = r

theorem OpenedIn.append {records : List JournalRecord} {r : Settlement}
    (h : OpenedIn records r) (more : List JournalRecord) : OpenedIn (records ++ more) r := by
  obtain ⟨tokenId, settlement, opened, hmem, hopened, heq⟩ := h
  exact ⟨tokenId, settlement, opened, List.mem_append_left _ hmem, hopened, heq⟩

/-- Closing a settlement keeps the fields it was opened with. -/
theorem OpenedIn.closed {records : List JournalRecord} {r : Settlement} (h : OpenedIn records r)
    (status : GapStatus) : OpenedIn records { r with status := status } := by
  obtain ⟨tokenId, settlement, opened, hmem, hopened, heq⟩ := h
  refine ⟨tokenId, settlement, opened, hmem, hopened, ?_⟩
  rw [← heq]

/-- The candidate a record admits for a token, if it is an admission for it. -/
def admissionOf (tokenId : Int) : JournalRecord → Option CandidateEntry
  | .admitted text entry _ _ =>
      match bigInt text, toCandidate entry with
      | .ok token, .ok c => if tokenId = token then some c else none
      | _, _ => none
  | _ => none

/-- What holds of a store after the records it was rebuilt from. -/
structure Replayed (records : List JournalRecord) (s : ProjectionStore σ) : Prop where
  valid : s.Valid
  entries : ∀ tokenId, (s.entries tokenId).map (fun e => e.toCandidateEntry) =
    records.filterMap (admissionOf tokenId)
  recorded : ∀ id r, s.settlements.get id = some r → r.status = .admitted ∨ OpenedIn records r
  pointed : ∀ k id, s.openGaps.get k = some id →
    ∃ r, s.settlements.get id = some r ∧ OpenedIn records r

theorem Replayed.initial (fresh : σ) (journal : JournalContent) :
    Replayed [] (initial fresh journal) where
  valid := Valid.initial fresh journal
  entries := by simp [ProjectionStore.entries, ProjectionStore.initial]
  recorded := by simp [ProjectionStore.initial]
  pointed := by simp [ProjectionStore.initial]

/-- A record that admits nothing for a token leaves the list of its admissions. -/
theorem filterMap_concat_none {records : List JournalRecord} {record : JournalRecord}
    {tokenId : Int} (h : admissionOf tokenId record = none) :
    (records ++ [record]).filterMap (admissionOf tokenId) =
      records.filterMap (admissionOf tokenId) := by
  simp [List.filterMap_append, h]

theorem Replayed.gapOpened {records : List JournalRecord} (h : Replayed records s)
    {tokenId : String} {settlement : SettlementJson} {r : Settlement}
    (hr : toSettlement settlement = .ok r) (hfresh : s.settlements.get r.settlementId = none) :
    Replayed (records ++ [.gapOpened tokenId settlement]) (s.setGap r.tokenId r) where
  valid := by
    have hgaps : ∀ k id, s.openGaps.get k = some id → ∃ r, s.settlements.get id = some r :=
      fun k id hk => (h.pointed k id hk).imp fun _ hr => hr.1
    exact ⟨h.valid.projections, fun _ => gaps_setGap hgaps _ _⟩
  entries other := by
    rw [filterMap_concat_none rfl, setGap_entries]
    exact h.entries other
  recorded := InsertionMap.forall_set
    (fun id r' hr' => (h.recorded id r' hr').imp_right fun hopened => hopened.append _)
    (Or.inr ⟨tokenId, settlement, r, by simp, hr, rfl⟩)
  pointed := by
    refine InsertionMap.forall_set (fun k id hk => ?_) ?_
    · obtain ⟨r', hr', hopened⟩ := h.pointed k id hk
      exact ⟨r', InsertionMap.get_set_of_fresh hfresh hr', hopened.append _⟩
    · exact ⟨r, InsertionMap.get_set_self _ _ _, tokenId, settlement, r, by simp, hr, rfl⟩

/-- Clearing a pointer and closing a settlement, whichever they are, leaves every other
pointer at a record some opening stands behind. -/
theorem Replayed.pointed_closing {records : List JournalRecord} (h : Replayed records s)
    (k : String) (id : Bytes32) (status : GapStatus) (more : List JournalRecord) :
    ∀ k' id', (s.openGaps.delete k).get k' = some id' →
      ∃ r, (s.settlements.set id { s.settlement id with status := status }).get id' = some r ∧
        OpenedIn (records ++ more) r := by
  refine InsertionMap.forall_delete (fun k' id' hk => ?_) k
  obtain ⟨r, hr, hopened⟩ := h.pointed k' id' hk
  rw [InsertionMap.get_set]
  split
  next heq =>
    rw [heq, settlement_of_get hr]
    exact ⟨_, rfl, (hopened.closed status).append _⟩
  next => exact ⟨r, hr, hopened.append _⟩

theorem Replayed.gapCancelled {records : List JournalRecord} (h : Replayed records s)
    {text : String} {tokenId : Int} {id : Bytes32}
    (hopen : s.openGaps.get (key tokenId) = some id) :
    Replayed (records ++ [.gapCancelled text id])
      (s.clearGap tokenId id { s.settlement id with status := .cancelled }) where
  valid := by
    refine ⟨h.valid.projections, fun hwritable => ?_⟩
    exact gaps_set (InsertionMap.forall_delete (h.valid.gaps hwritable) _) _ _
  entries other := by
    rw [filterMap_concat_none rfl, clearGap_entries]
    exact h.entries other
  recorded := by
    obtain ⟨r, hr, hopened⟩ := h.pointed _ id hopen
    rw [settlement_of_get hr]
    exact InsertionMap.forall_set
      (fun id' r' hr' => (h.recorded id' r' hr').imp_right fun hopened => hopened.append _)
      (Or.inr ((hopened.closed .cancelled).append _))
  pointed := h.pointed_closing (key tokenId) id .cancelled _

theorem readmitted_settlements (s : ProjectionStore σ) (tokenId : Int) (c : CandidateEntry)
    (adapter : σ) (settlementId : Option Bytes32) :
    (s.readmitted tokenId c adapter settlementId).settlements =
      match settlementId with
      | none => s.settlements
      | some id => s.settlements.set id { s.settlement id with status := .admitted } := by
  cases settlementId <;> rfl

theorem readmitted_openGaps (s : ProjectionStore σ) (tokenId : Int) (c : CandidateEntry)
    (adapter : σ) (settlementId : Option Bytes32) :
    (s.readmitted tokenId c adapter settlementId).openGaps =
      match settlementId with
      | none => s.openGaps
      | some _ => s.openGaps.delete (key tokenId) := by
  cases settlementId <;> rfl

theorem Replayed.admitted {records : List JournalRecord} (h : Replayed records s)
    {text height : String} {entry : EntryJson} {settlementId : Option Bytes32} {tokenId : Int}
    {c : CandidateEntry} (htoken : bigInt text = .ok tokenId) (hentry : toCandidate entry = .ok c)
    (hc : Follows (s.entries tokenId) c) (adapter : σ) :
    Replayed (records ++ [.admitted text entry height settlementId])
      (s.readmitted tokenId c adapter settlementId) where
  valid := by
    refine ⟨fun k p hk => h.valid.set_projection hc k p (by rwa [readmitted_projections] at hk),
      fun _ k id hk => ?_⟩
    have hgaps : ∀ k id, s.openGaps.get k = some id → ∃ r, s.settlements.get id = some r :=
      fun k id hk => (h.pointed k id hk).imp fun _ hr => hr.1
    rw [readmitted_settlements]
    rw [readmitted_openGaps] at hk
    cases settlementId with
    -- Whatever identifier the record names is closed, recorded or not.
    | none => exact hgaps k id hk
    | some id' =>
        exact gaps_set (InsertionMap.forall_delete hgaps _) id' _ k id hk
  entries other := by
    rw [readmitted_entries, List.filterMap_append, ← h.entries other]
    by_cases hother : other = tokenId
    · subst hother
      rw [if_pos rfl, map_extend _ _ fun c => c]
      simp [admissionOf, htoken, hentry]
    · rw [if_neg hother]
      simp [admissionOf, htoken, hentry, hother]
  recorded := by
    have hrecorded : ∀ id r, s.settlements.get id = some r → r.status = .admitted ∨
        OpenedIn (records ++ [.admitted text entry height settlementId]) r :=
      fun id r hr => (h.recorded id r hr).imp_right fun hopened => hopened.append _
    rw [readmitted_settlements]
    cases settlementId with
    | none => exact hrecorded
    | some id' => exact InsertionMap.forall_set hrecorded (Or.inl rfl)
  pointed := by
    rw [readmitted_openGaps, readmitted_settlements]
    cases settlementId with
    | none => exact fun k id hk => (h.pointed k id hk).imp fun _ hr => ⟨hr.1, hr.2.append _⟩
    | some id => exact h.pointed_closing (key tokenId) id .admitted _

theorem Replayed.unknown {records : List JournalRecord} (h : Replayed records s) (kind : String) :
    Replayed (records ++ [.unknown kind]) s where
  valid := h.valid
  entries other := by
    rw [filterMap_concat_none rfl]
    exact h.entries other
  recorded id r hr := (h.recorded id r hr).imp_right fun hopened => hopened.append _
  pointed k id hk := (h.pointed k id hk).imp fun _ hr => ⟨hr.1, hr.2.append _⟩

theorem Replayed.apply {records : List JournalRecord} (h : Replayed records s)
    {record : JournalRecord} (happly : applyRecord o s record = .ok t) :
    Replayed (records ++ [record]) t := by
  have heffect := took_effect h.valid happly
  cases record with
  | gapOpened tokenId settlement =>
      obtain ⟨r, hr, _, hfresh, rfl⟩ := heffect
      exact h.gapOpened hr hfresh
  | gapCancelled tokenId settlementId =>
      obtain ⟨token, _, hopen, rfl⟩ := heffect
      exact h.gapCancelled hopen
  | admitted tokenId entry remoteHeight settlementId =>
      obtain ⟨token, c, height, adapter, htoken, hentry, _, hc, _, rfl⟩ := heffect
      exact h.admitted htoken hentry hc adapter
  | unknown kind =>
      cases happly
      exact h.unknown kind

theorem Replayed.replay {before records : List JournalRecord} (h : Replayed before s)
    (hreplay : replay o s records = .ok t) : Replayed (before ++ records) t :=
  replay_rule (p := fun before s _ => Replayed before s)
    (fun _ _ _ _ _ hbefore happly => hbefore.apply happly) h hreplay

/-! ## Records as the live path writes them -/

/-- The two things about a record that replay does not look at: the status an
opening carries, and the settlement an admission names. -/
def WrittenAt (s : ProjectionStore σ) : JournalRecord → Prop
  | .gapOpened _ settlement => settlement.status = GapStatus.open.text
  | .admitted tokenId _ _ settlementId =>
      ∀ token, bigInt tokenId = .ok token → settlementId = s.openGaps.get (key token)
  | _ => True

/-- Every record is as the live path writes it where replay meets it. -/
def AsWritten (o : StoreConfig σ) : ProjectionStore σ → List JournalRecord → Prop
  | _, [] => True
  | s, record :: rest =>
      WrittenAt s record ∧ ∀ t, applyRecord o s record = .ok t → AsWritten o t rest

/-- The pointers and the open records are the same gaps, and every record was
opened by one of the list. -/
structure Written (records : List JournalRecord) (s : ProjectionStore σ) : Prop where
  gaps : GapRecords s.openGaps s.settlements
  opened : ∀ id r, s.settlements.get id = some r → OpenedIn records r

theorem Written.initial (fresh : σ) (journal : JournalContent) :
    Written [] (initial fresh journal) where
  gaps := GapRecords.empty
  opened := by simp [ProjectionStore.initial]

/-- Closing the gap a token points at keeps both. -/
theorem Written.closing {records : List JournalRecord} (h : Written records s) {k : String}
    {id : Bytes32} (hopen : s.openGaps.get k = some id) (status : GapStatus)
    (hclosed : status ≠ .open) (more : List JournalRecord) :
    GapRecords (s.openGaps.delete k)
        (s.settlements.set id { s.settlement id with status := status }) ∧
      ∀ id' r, (s.settlements.set id { s.settlement id with status := status }).get id' = some r →
        OpenedIn (records ++ more) r := by
  obtain ⟨hr, _⟩ := pointed_settlement h.gaps hopen
  refine ⟨h.gaps.closing hopen hr status hclosed, fun id' r hr' => ?_⟩
  rw [InsertionMap.get_set] at hr'
  split at hr'
  next =>
    cases hr'
    exact ((h.opened id _ hr).closed status).append _
  next => exact (h.opened id' r hr').append _

theorem toSettlement_status {settlement : SettlementJson} {r : Settlement}
    (hr : toSettlement settlement = .ok r) : r.status = GapStatus.ofText settlement.status := by
  simp only [toSettlement, bind_eq_ok] at hr
  obtain ⟨_, _, _, _, _, _, heq⟩ := hr
  cases heq
  rfl

theorem Written.apply {records : List JournalRecord} (h : Written records s) (hvalid : s.Valid)
    {record : JournalRecord} (hwritten : WrittenAt s record)
    (happly : applyRecord o s record = .ok t) : Written (records ++ [record]) t := by
  have heffect := took_effect hvalid happly
  cases record with
  | gapOpened tokenId settlement =>
      obtain ⟨r, hr, hfree, hfresh, rfl⟩ := heffect
      -- Replay keeps whatever status the record carries; here it carries OPEN.
      have hstatus : r.status = .open := by
        rw [toSettlement_status hr, hwritten, ofText_text_open]
      refine ⟨h.gaps.opening hfree hfresh hstatus, fun id r' hr' => ?_⟩
      simp only [setGap, InsertionMap.get_set] at hr'
      split at hr'
      next =>
        cases hr'
        exact ⟨tokenId, settlement, r, by simp, hr, rfl⟩
      next => exact (h.opened id r' hr').append _
  | gapCancelled tokenId settlementId =>
      obtain ⟨token, _, hopen, rfl⟩ := heffect
      obtain ⟨hgaps, hopened⟩ := h.closing hopen .cancelled (by simp) [.gapCancelled tokenId _]
      exact ⟨hgaps, hopened⟩
  | admitted tokenId entry remoteHeight settlementId =>
      obtain ⟨token, c, height, adapter, htoken, _, _, _, _, rfl⟩ := heffect
      have hnamed : settlementId = s.openGaps.get (key token) := hwritten token htoken
      cases hopen : s.openGaps.get (key token) with
      | none =>
          rw [hopen] at hnamed
          subst hnamed
          exact ⟨h.gaps, fun id r hr => (h.opened id r hr).append _⟩
      | some id =>
          rw [hopen] at hnamed
          subst hnamed
          obtain ⟨hgaps, hopened⟩ := h.closing hopen .admitted (by simp)
            [.admitted tokenId entry remoteHeight (some id)]
          exact ⟨hgaps, hopened⟩
  | unknown kind =>
      cases happly
      exact ⟨h.gaps, fun id r hr => (h.opened id r hr).append _⟩

theorem Written.replay {before records : List JournalRecord} (h : Written before s)
    (hreplayed : Replayed before s) (hwritten : AsWritten o s records)
    (hreplay : replay o s records = .ok t) : Written (before ++ records) t := by
  have hafter := replay_rule
    (p := fun before s rest => Written before s ∧ Replayed before s ∧ AsWritten o s rest)
    (fun before s record rest t hbefore happly => by
      obtain ⟨h, hreplayed, hwritten⟩ := hbefore
      exact ⟨h.apply hreplayed.valid hwritten.1 happly, hreplayed.apply happly,
        hwritten.2 t happly⟩)
    ⟨h, hreplayed, hwritten⟩ hreplay
  exact hafter.1

/-- What a replay that returns guarantees about arbitrary records. -/
theorem replay_guarantees (o : StoreConfig σ) (fresh : σ) (journal : JournalContent)
    (records : List JournalRecord) (t : ProjectionStore σ)
    (hreplay : replay o (initial fresh journal) records = .ok t) :
    (∀ tokenId, IsHistory (t.entries tokenId) ∧
      (t.entries tokenId).map (fun e => e.toCandidateEntry) =
        records.filterMap (admissionOf tokenId)) ∧
    (∀ before record after, records = before ++ record :: after →
      ∃ s s', replay o (initial fresh journal) before = .ok s ∧
        applyRecord o s record = .ok s' ∧ TookEffect o s s' record) ∧
    (∀ id r, t.settlements.get id = some r → r.status = .admitted ∨ OpenedIn records r) ∧
    (AsWritten o (initial fresh journal) records →
      (∀ tokenId id, id ≠ zeroBytes32 → (t.openGapOf tokenId = id ↔
        (t.settlement id).status = .open ∧ (t.settlement id).tokenId = tokenId)) ∧
      ∀ id r, t.settlements.get id = some r → OpenedIn records r) := by
  have hreplayed : Replayed records t := (Replayed.initial fresh journal).replay hreplay
  refine ⟨fun tokenId => ⟨hreplayed.valid.isHistory tokenId, hreplayed.entries tokenId⟩,
    fun before record after hsplit => ?_, hreplayed.recorded, fun hwritten => ?_⟩
  · subst hsplit
    rw [replay_append, bind_eq_ok] at hreplay
    obtain ⟨s, hbefore, hafter⟩ := hreplay
    obtain ⟨s', happly, _⟩ := replay_cons_eq_ok.mp hafter
    have hs : Replayed before s := (Replayed.initial fresh journal).replay hbefore
    exact ⟨s, s', hbefore, happly, took_effect hs.valid happly⟩
  · have h : Written records t :=
      (Written.initial fresh journal).replay (Replayed.initial fresh journal) hwritten hreplay
    exact ⟨fun tokenId id hid => openGapOf_eq_iff h.gaps hid, h.opened⟩

/-! ## What replay leaves unread -/

/-- The open gap of a token after a record that took effect. -/
theorem TookEffect.pointer {record : JournalRecord} (h : TookEffect o s t record)
    (tokenId : Int) :
    t.openGaps.get (key tokenId) = gapAfter tokenId (s.openGaps.get (key tokenId)) record := by
  cases record with
  | gapOpened text settlement =>
      obtain ⟨r, hr, _, _, rfl⟩ := h
      simp only [gapAfter, hr, setGap, InsertionMap.get_set, key_inj]
  | gapCancelled text settlementId =>
      obtain ⟨token, htoken, _, rfl⟩ := h
      simp only [gapAfter, htoken, clearGap, InsertionMap.get_delete, key_inj]
  | admitted text entry remoteHeight settlementId =>
      obtain ⟨token, c, height, adapter, htoken, _, _, _, _, rfl⟩ := h
      rw [readmitted_openGaps]
      cases settlementId with
      | none => rfl
      | some id => simp only [gapAfter, htoken, InsertionMap.get_delete, key_inj]
  | unknown kind =>
      rw [show t = s from h]
      rfl

theorem replay_openGaps_get {fresh : σ} {journal : JournalContent} {records : List JournalRecord}
    (hreplay : replay o (initial fresh journal) records = .ok t) (tokenId : Int) :
    t.openGaps.get (key tokenId) = gapIn tokenId records := by
  have hafter := replay_rule
    (p := fun before s _ => Replayed before s ∧
      s.openGaps.get (key tokenId) = gapIn tokenId before)
    (fun before s record _ t hbefore happly => by
      obtain ⟨hreplayed, hopen⟩ := hbefore
      refine ⟨hreplayed.apply happly, ?_⟩
      rw [(took_effect hreplayed.valid happly).pointer, hopen, gapIn, gapIn, List.foldl_concat])
    ⟨Replayed.initial fresh journal, rfl⟩ hreplay
  exact hafter.2

/-- A record as the live path writes it behind the records before it: of a known kind, an opening
that is open, an admission that names the gap they leave open on its token. -/
def WrittenAfter (before : List JournalRecord) : JournalRecord → Prop
  | .gapOpened _ settlement => settlement.status = GapStatus.open.text
  | .gapCancelled _ _ => True
  | .admitted text _ _ settlementId =>
      ∀ token, bigInt text = .ok token → settlementId = gapIn token before
  | .unknown _ => False

/-- The remote height of an admission for a token. -/
def remoteHeightOf (tokenId : Int) : JournalRecord → Option Int
  | .admitted text _ height _ =>
      if BigIntText.parse text = some tokenId then BigIntText.parse height else none
  | _ => none

/-- Nothing that replay leaves unread was forged: kinds, statuses, names, or heights. -/
structure Unforged (records : List JournalRecord) : Prop where
  written : ∀ before record after, records = before ++ record :: after →
    WrittenAfter before record
  raised : ∀ tokenId, (records.filterMap (remoteHeightOf tokenId)).Pairwise (· < ·)

/-- What a replayed list is as one of the live path: each record took effect, and was written, in
the store the ones before it left, heights rise, and the gaps are those of the records. -/
structure LiveWritten (o : StoreConfig σ) (fresh : σ) (journal : JournalContent)
    (records : List JournalRecord) (t : ProjectionStore σ) : Prop where
  applied : ∀ before record after, records = before ++ record :: after →
    ∃ s s', replay o (initial fresh journal) before = .ok s ∧ applyRecord o s record = .ok s' ∧
      (∀ kind, record ≠ .unknown kind) ∧ TookEffect o s s' record ∧ WrittenAt s record
  raised : ∀ tokenId, (records.filterMap (remoteHeightOf tokenId)).Pairwise (· < ·)
  gaps : ∀ tokenId id, id ≠ zeroBytes32 → (t.openGapOf tokenId = id ↔
    (t.settlement id).status = .open ∧ (t.settlement id).tokenId = tokenId)
  opened : ∀ id r, t.settlements.get id = some r → OpenedIn records r

section Unforged

variable {fresh : σ} {journal : JournalContent} {before : List JournalRecord}

/-- Behind records that replayed, what they leave open is what the store has open. -/
theorem writtenAt_iff (hbefore : replay o (initial fresh journal) before = .ok s)
    {record : JournalRecord} :
    WrittenAfter before record ↔ (∀ kind, record ≠ .unknown kind) ∧ WrittenAt s record := by
  cases record with
  | gapOpened | gapCancelled => simp [WrittenAfter, WrittenAt]
  | admitted => simp [WrittenAfter, WrittenAt, replay_openGaps_get hbefore]
  | unknown kind => simp [WrittenAfter]

theorem asWritten_of_splits {records : List JournalRecord}
    (hbefore : replay o (initial fresh journal) before = .ok s)
    (hwritten : ∀ middle record after, records = middle ++ record :: after →
      WrittenAfter (before ++ middle) record) : AsWritten o s records := by
  induction records generalizing before s with
  | nil => trivial
  | cons record rest ih =>
      have hfirst := hwritten [] record rest rfl
      rw [List.append_nil] at hfirst
      refine ⟨((writtenAt_iff hbefore).mp hfirst).2, fun t happly => ?_⟩
      have hnext := replay_concat hbefore happly
      refine ih hnext fun middle record' after hsplit => ?_
      rw [List.append_assoc, List.singleton_append]
      exact hwritten (record :: middle) record' after (by rw [hsplit, List.cons_append])

end Unforged

/-- A list that replays is one the live path could have written exactly when nothing in it that
replay leaves unread was forged. -/
theorem replay_written_iff (o : StoreConfig σ) (fresh : σ) (journal : JournalContent)
    (records : List JournalRecord) (t : ProjectionStore σ)
    (hreplay : replay o (initial fresh journal) records = .ok t) :
    LiveWritten o fresh journal records t ↔ Unforged records := by
  obtain ⟨_, happlied, _, hgaps⟩ := replay_guarantees o fresh journal records t hreplay
  constructor
  · intro h
    refine ⟨fun before record after hsplit => ?_, h.raised⟩
    obtain ⟨s, _, hbefore, _, hknown, _, hwritten⟩ := h.applied before record after hsplit
    exact (writtenAt_iff hbefore).mpr ⟨hknown, hwritten⟩
  · intro h
    have hnone : replay o (initial fresh journal) [] = .ok (initial fresh journal) := rfl
    obtain ⟨hpointers, hopened⟩ := hgaps (asWritten_of_splits hnone h.written)
    refine ⟨fun before record after hsplit => ?_, h.raised, hpointers, hopened⟩
    obtain ⟨s, s', hbefore, happly, heffect⟩ := happlied before record after hsplit
    obtain ⟨hknown, hwritten⟩ := (writtenAt_iff hbefore).mp (h.written before record after hsplit)
    exact ⟨s, s', hbefore, happly, hknown, heffect, hwritten⟩

/-! ### Two journals -/

def admissionRecord (c : CandidateEntry) (remoteHeight : Int) (settlementId : Option Bytes32) :
    JournalRecord :=
  .admitted (key 1) (entryJson { c with supersededAt := 0 }) (toString remoteHeight) settlementId

def openingRecord (gap : GapRequest) : JournalRecord :=
  .gapOpened (key 1) (settlementJson (gap.opened 1))

/-- A gap, the entry that closes it, and the entry after that. -/
def writtenJournal : List JournalRecord :=
  [openingRecord firstGap, admissionRecord firstCandidate 5 (some (word '5')),
    admissionRecord secondCandidate 10 none]

theorem writtenJournal_unforged : Unforged writtenJournal where
  written := by
    have hnamed {before : List JournalRecord} {id : Option Bytes32}
        (h : id = gapIn 1 before) (token : Int) (htoken : bigInt (key 1) = .ok token) :
        id = gapIn token before := by
      rw [key, bigInt_toString, Except.ok.injEq] at htoken
      rw [← htoken, h]
    intro before record after hsplit
    rcases before with _ | ⟨opening, _ | ⟨first, _ | ⟨second, rest⟩⟩⟩
    · cases hsplit
      rfl
    · cases hsplit
      exact hnamed (by decide)
    · cases hsplit
      exact hnamed (by decide)
    · cases rest <;> cases hsplit
  raised := by
    intro tokenId
    by_cases htoken : tokenId = 1
    · subst htoken
      decide
    · have hkey : BigIntText.parse (key 1) ≠ some tokenId := by
        rw [key, BigIntText.parse_toString, Ne, Option.some.injEq]
        exact Ne.symm htoken
      have hnone : ∀ record ∈ writtenJournal, remoteHeightOf tokenId record = none := by
        simp only [writtenJournal, openingRecord, admissionRecord, List.forall_mem_cons,
          remoteHeightOf, if_neg hkey]
        exact ⟨trivial, trivial, trivial, List.forall_mem_nil _⟩
      rw [List.filterMap_eq_nil_iff.mpr hnone]
      exact .nil

theorem replay_written_iff_closed :
    ∃ t, replay memoryConfig (initial (MemoryChain.new {}) JournalContent.empty) writtenJournal =
        .ok t ∧ (t.settlement (word '5')).status = .admitted ∧ t.entryCount 1 = 2 ∧
      LiveWritten memoryConfig (MemoryChain.new {}) JournalContent.empty writtenJournal t :=
  ⟨_, rfl, by decide, by decide,
    (replay_written_iff memoryConfig _ _ writtenJournal _ rfl).mpr writtenJournal_unforged⟩

/-- An admission that names another settlement than the gap it closes, and a gap behind it. -/
def misnamedJournal : List JournalRecord :=
  [openingRecord firstGap, admissionRecord firstCandidate 5 (some (word '9')),
    openingRecord { firstGap with settlementId := word '7' }]

/-- It replays into two open settlements and one pointer. -/
theorem misnamed_journal_replays :
    ∃ t, replay memoryConfig (initial (MemoryChain.new {}) JournalContent.empty) misnamedJournal =
        .ok t ∧
      ((t.settlement (word '5')).status = .open ∧ (t.settlement (word '5')).tokenId = 1) ∧
      ((t.settlement (word '7')).status = .open ∧ (t.settlement (word '7')).tokenId = 1) ∧
      t.openGapOf 1 = word '7' ∧ (t.settlement (word '9')).status = .admitted ∧
      ¬ LiveWritten memoryConfig (MemoryChain.new {}) JournalContent.empty misnamedJournal t := by
  refine ⟨_, rfl, by decide, by decide, by decide, by decide, fun h => ?_⟩
  have hpointer := (h.gaps 1 (word '5') (by decide)).mpr (by decide)
  revert hpointer
  decide

end ProjectionStore

end Erc8415
