import Erc8415.Foundation.LabelledRun
import Erc8415.Projection.KernelInvariant
import Erc8415.Projection.Store

/-! # What a call does to a store

Mutations are inverted once: a call refuses and changes nothing, it is journaled and
leaves one known store, or its append fails and its rollback runs. Every
projection keeps its representation invariant across all of these, over any
adapter and any journal.
-/

namespace Erc8415

namespace ProjectionStore

variable {σ : Type} {o : StoreConfig σ} {s : ProjectionStore σ}

/-- Every projection is a history under its token's key, and while the store
accepts writes every open gap points at a recorded settlement. -/
structure Valid (s : ProjectionStore σ) : Prop where
  projections : ∀ k p, s.projections.get k = some p →
    p.Valid ∧ p.entries ≠ [] ∧ ∃ tokenId, k = key tokenId
  gaps : s.poisoned = none → ∀ k id, s.openGaps.get k = some id →
    ∃ record, s.settlements.get id = some record

theorem Valid.initial (adapter : σ) (journal : JournalContent) :
    (initial adapter journal).Valid where
  projections := by simp [ProjectionStore.initial]
  gaps := by simp [ProjectionStore.initial]

theorem Valid.projectionOf (h : s.Valid) (tokenId : Int) : (s.projectionOf tokenId).Valid := by
  unfold ProjectionStore.projectionOf
  cases hget : s.projections.get (key tokenId) with
  | none => exact TokenProjection.Valid.empty
  | some p => exact (h.projections _ p hget).1

@[simp] theorem projectionOf_entries (s : ProjectionStore σ) (tokenId : Int) :
    (s.projectionOf tokenId).entries = s.entries tokenId := by
  unfold projectionOf entries
  cases s.projections.get (key tokenId) <;> rfl

theorem Valid.isHistory (h : s.Valid) (tokenId : Int) : IsHistory (s.entries tokenId) := by
  rw [← projectionOf_entries]
  exact (h.projectionOf tokenId).history

theorem assertWritable_eq_ok {u : Unit} : s.assertWritable = .ok u ↔ s.poisoned = none := by
  unfold assertWritable
  cases s.poisoned <;> simp [reject]

theorem poisoned_of_assertWritable {e : ProjectionError} (h : s.assertWritable = .error e) :
    s.poisoned ≠ none := by
  intro hnone
  rw [assertWritable_eq_ok (u := ()).mpr hnone] at h
  cases h

/-! ## Admission -/

theorem resolveProfile_eq_ok {id : String} {profile : ProofProfile σ} :
    resolveProfile o id = .ok profile ↔ id = o.profile.id ∧ profile = o.profile := by
  unfold resolveProfile
  by_cases hid : id = o.profile.id
  · simp [hid, eq_comm]
  · simp [hid, reject]

/-- The proof checks that passed. -/
theorem checkProof_eq_ok {tokenId : Int} {c : CandidateEntry} {material : ProofMaterial}
    {now : Int} :
    s.checkProof o tokenId c material now = .ok () ↔
      material.profile = o.profile.id ∧
      o.adapter.isFinalized s.adapter material.remoteHeight = true ∧
      o.adapter.acceptedHeight s.adapter tokenId < material.remoteHeight ∧
      o.profile.verify s.adapter now material (s.proofContext o tokenId c) = .admitted := by
  simp only [checkProof, bind_eq_ok, rejectIf_eq_ok, resolveProfile_eq_ok, Bool.not_eq_false,
    not_le]
  constructor
  · rintro ⟨profile, ⟨hid, rfl⟩, _, hfinalized, _, hheight, hverdict⟩
    cases hv : o.profile.verify s.adapter now material (s.proofContext o tokenId c) with
    | admitted => exact ⟨hid, hfinalized, hheight, rfl⟩
    | refused reason => simp [hv, reject] at hverdict
  · rintro ⟨hid, hfinalized, hheight, hverdict⟩
    exact ⟨o.profile, ⟨hid, rfl⟩, (), hfinalized, (), hheight, by rw [hverdict]⟩

/-- Everything an admission checks has passed, for the candidate it narrows to. -/
structure Accepted (o : StoreConfig σ) (s : ProjectionStore σ) (tokenId : Int)
    (argument : JsValue) (material : ProofMaterial) (now : Int) (c : CandidateEntry) : Prop where
  writable : s.poisoned = none
  shape : validateCandidateShape argument = .ok c
  proof : s.checkProof o tokenId c material now = .ok ()
  follows : Follows (s.entries tokenId) c

/-- After an accepted admission the token is at the height of the material. -/
theorem Accepted.heights {tokenId : Int} {argument : JsValue} {material : ProofMaterial}
    {now : Int} {c : CandidateEntry} (hc : Accepted o s tokenId argument material now c)
    {adapter : σ}
    (hadvance : o.adapter.advanceHeight s.adapter tokenId material.remoteHeight = .ok adapter)
    (other : Int) :
    o.adapter.acceptedHeight adapter other =
      if other = tokenId then material.remoteHeight
      else o.adapter.acceptedHeight s.adapter other := by
  obtain ⟨adapter', hadvance', hheights⟩ :=
    o.adapter.advances s.adapter tokenId material.remoteHeight (checkProof_eq_ok.mp hc.proof).2.2.1
  rw [hadvance] at hadvance'
  cases hadvance'
  exact hheights other

theorem checkAdmission_eq_ok (h : s.Valid) {tokenId : Int} {argument : JsValue}
    {material : ProofMaterial} {now : Int} {target : TokenProjection} {entry : ProjectionEntry} :
    s.checkAdmission o tokenId argument material now = .ok (target, entry) ↔
      ∃ c, Accepted o s tokenId argument material now c ∧
        target = (s.projectionOf tokenId).append c ∧ entry = { c with supersededAt := 0 } := by
  simp only [checkAdmission, bind_eq_ok, assertWritable_eq_ok,
    TokenProjection.admit_eq_ok (h.projectionOf tokenId), projectionOf_entries]
  constructor
  · rintro ⟨_, hwritable, c, hshape, _, hproof, c', hshape', hfollows, rfl, rfl⟩
    have heq : c' = c := by
      rw [hshape] at hshape'
      exact (Except.ok.inj hshape').symm
    subst heq
    exact ⟨c', ⟨hwritable, hshape, hproof, hfollows⟩, rfl, rfl⟩
  · rintro ⟨c, ⟨hwritable, hshape, hproof, hfollows⟩, rfl, rfl⟩
    exact ⟨(), hwritable, c, hshape, (), hproof, c, hshape, hfollows, rfl, rfl⟩

/-- The store with a candidate entered, its height accepted and the gap closed,
before the journal is asked. -/
def entered (s : ProjectionStore σ) (tokenId : Int) (c : CandidateEntry) (adapter : σ) :
    ProjectionStore σ :=
  closeGap
    { s with
      projections := s.projections.set (key tokenId) ((s.projectionOf tokenId).append c)
      adapter := adapter } tokenId

/-- What an accepted admission answers. -/
def admissionResult (s : ProjectionStore σ) (tokenId : Int) (c : CandidateEntry)
    (remoteHeight : Int) : AdmissionResult :=
  ⟨{ c with supersededAt := 0 }, s.openGaps.has (key tokenId), remoteHeight⟩

@[simp] theorem closeGap_projections (s : ProjectionStore σ) (tokenId : Int) :
    (s.closeGap tokenId).projections = s.projections := by
  unfold closeGap
  split <;> rfl

@[simp] theorem closeGap_adapter (s : ProjectionStore σ) (tokenId : Int) :
    (s.closeGap tokenId).adapter = s.adapter := by
  unfold closeGap
  split <;> rfl

@[simp] theorem closeGap_poisoned (s : ProjectionStore σ) (tokenId : Int) :
    (s.closeGap tokenId).poisoned = s.poisoned := by
  unfold closeGap
  split <;> rfl

@[simp] theorem closeGap_journal (s : ProjectionStore σ) (tokenId : Int) :
    (s.closeGap tokenId).journal = s.journal := by
  unfold closeGap
  split <;> rfl

@[simp] theorem entered_projections (s : ProjectionStore σ) (tokenId : Int) (c : CandidateEntry)
    (adapter : σ) :
    (s.entered tokenId c adapter).projections =
      s.projections.set (key tokenId) ((s.projectionOf tokenId).append c) := by
  simp [entered]

@[simp] theorem entered_adapter (s : ProjectionStore σ) (tokenId : Int) (c : CandidateEntry)
    (adapter : σ) : (s.entered tokenId c adapter).adapter = adapter := by
  simp [entered]

@[simp] theorem entered_poisoned (s : ProjectionStore σ) (tokenId : Int) (c : CandidateEntry)
    (adapter : σ) : (s.entered tokenId c adapter).poisoned = s.poisoned := by
  simp [entered]

@[simp] theorem entered_journal (s : ProjectionStore σ) (tokenId : Int) (c : CandidateEntry)
    (adapter : σ) : (s.entered tokenId c adapter).journal = s.journal := by
  simp [entered]

/-- Entering a candidate clears its token's pointer and no other. -/
theorem entered_openGaps_get (s : ProjectionStore σ) (tokenId : Int) (c : CandidateEntry)
    (adapter : σ) (k : String) :
    (s.entered tokenId c adapter).openGaps.get k =
      if key tokenId = k then none else s.openGaps.get k := by
  by_cases hk : key tokenId = k
  · subst hk
    cases hopen : s.openGaps.get (key tokenId) <;> simp [entered, closeGap, hopen, clearGap]
  · cases hopen : s.openGaps.get (key tokenId) <;>
      simp [entered, closeGap, hopen, clearGap, hk, InsertionMap.get_delete]

/-- The settlement the pointer named is closed as admitted, and no other moves. -/
theorem entered_settlements (s : ProjectionStore σ) (tokenId : Int) (c : CandidateEntry)
    (adapter : σ) :
    (s.entered tokenId c adapter).settlements =
      match s.openGaps.get (key tokenId) with
      | none => s.settlements
      | some id => s.settlements.set id { s.settlement id with status := .admitted } := by
  cases hopen : s.openGaps.get (key tokenId) <;>
    simp [entered, closeGap, hopen, clearGap, settlement]

/-- Undoing the admission of an accepted candidate gives back the projection
map, its order included, whether the token had a projection or not. -/
theorem undoAdmission_entered (h : s.Valid) {tokenId : Int} {c : CandidateEntry}
    (hc : Follows (s.entries tokenId) c) (adapter : σ) :
    undoAdmission s tokenId ((s.projectionOf tokenId).append c) (s.entered tokenId c adapter) =
      { s.entered tokenId c adapter with projections := s.projections } := by
  have hundo : ((s.projectionOf tokenId).append c).undoLastAdmit = s.projectionOf tokenId :=
    TokenProjection.undoLastAdmit_append (h.projectionOf tokenId)
      (by rw [projectionOf_entries]; exact hc)
  unfold undoAdmission
  cases hget : s.projections.get (key tokenId) with
  | none => simp only [entered_projections, InsertionMap.delete_set_of_get_none hget]
  | some p =>
      have hproj : s.projectionOf tokenId = p := by simp [projectionOf, hget]
      simp only [entered_projections, hundo, InsertionMap.set_set]
      rw [hproj, InsertionMap.set_of_get hget]

theorem Valid.settlement_set (h : s.Valid) (hwritable : s.poisoned = none) {tokenId : Int}
    {id : Bytes32} (hopen : s.openGaps.get (key tokenId) = some id) :
    s.settlements.set id (s.settlement id) = s.settlements := by
  obtain ⟨record, hrecord⟩ := h.gaps hwritable _ id hopen
  have hsettlement : s.settlement id = record := by
    simp [settlement, hrecord]
  rw [hsettlement]
  exact InsertionMap.set_of_get hrecord

/-- The pointers after a token's pointer was cleared and set back. Only the
order of the map can differ, and nothing reads it. -/
def repointed (s : ProjectionStore σ) (tokenId : Int) : InsertionMap String Bytes32 :=
  match s.openGaps.get (key tokenId) with
  | none => s.openGaps
  | some id => (s.openGaps.delete (key tokenId)).set (key tokenId) id

@[simp] theorem repointed_get (s : ProjectionStore σ) (tokenId : Int) (k : String) :
    (s.repointed tokenId).get k = s.openGaps.get k := by
  unfold repointed
  cases hget : s.openGaps.get (key tokenId) with
  | none => rfl
  | some id =>
      simp only [InsertionMap.get_set, InsertionMap.get_delete]
      by_cases hk : key tokenId = k
      · rw [if_pos hk, ← hk, hget]
      · rw [if_neg hk, if_neg hk]

/-- What the rollback of an admission does. When the adapter takes the prior
height back, everything is put back; when the adapter throws, the entry is
undone and nothing else is. -/
theorem rollbackAdmission_entered (h : s.Valid) {tokenId : Int} {c : CandidateEntry}
    (hwritable : s.poisoned = none) (hc : Follows (s.entries tokenId) c) (adapter : σ) :
    rollbackAdmission o s tokenId ((s.projectionOf tokenId).append c)
        (s.entered tokenId c adapter) =
      match o.adapter.advanceHeight adapter tokenId
          (o.adapter.acceptedHeight s.adapter tokenId) with
      | .error message =>
          ({ s.entered tokenId c adapter with projections := s.projections },
            .error (.error message))
      | .ok lowered =>
          ({ s with adapter := lowered, openGaps := s.repointed tokenId }, .ok ()) := by
  simp only [rollbackAdmission, undoAdmission_entered h hc, entered_adapter]
  cases o.adapter.advanceHeight adapter tokenId (o.adapter.acceptedHeight s.adapter tokenId) with
  | error message => rfl
  | ok lowered =>
      cases hopen : s.openGaps.get (key tokenId) with
      | none => simp [entered, closeGap, repointed, hopen]
      | some id =>
          simp only [entered, closeGap, repointed, hopen, clearGap, restoreGap,
            InsertionMap.set_set, h.settlement_set hwritable hopen]

/-! ## The effect of a call -/

/-- Why a mutation is refused before it writes. -/
def Refused (o : StoreConfig σ) (s : ProjectionStore σ) : Mutation → Prop
  | .admitEntry tokenId argument material now =>
      ∀ c, ¬ Accepted o s tokenId argument material now c
  | .openGap tokenId _ => s.poisoned ≠ none ∨ s.openGaps.has (key tokenId) = true
  | .cancelGap tokenId => s.poisoned ≠ none ∨ s.openGaps.get (key tokenId) = none

/-- The store after a journaled admission. -/
def admitted (s : ProjectionStore σ) (tokenId : Int) (c : CandidateEntry) (remoteHeight : Int)
    (adapter : σ) : ProjectionStore σ :=
  { s.entered tokenId c adapter with
    journal := s.journal.append
      (s.admittedRecord tokenId { c with supersededAt := 0 } remoteHeight) }

/-- The store after a journaled opening. -/
def opened (s : ProjectionStore σ) (tokenId : Int) (gap : GapRequest) : ProjectionStore σ :=
  { s.setGap tokenId (gap.opened tokenId) with
    journal := s.journal.append
      (.gapOpened (key tokenId) (settlementJson (gap.opened tokenId))) }

/-- The store after a journaled cancellation. -/
def cancelled (s : ProjectionStore σ) (tokenId : Int) (settlementId : Bytes32) :
    ProjectionStore σ :=
  { s.clearGap tokenId settlementId { s.settlement settlementId with status := .cancelled } with
    journal := s.journal.append (.gapCancelled (key tokenId) settlementId) }

/-- Everything a mutation can do, given what the journal does. -/
inductive Effect (o : StoreConfig σ) (s : ProjectionStore σ) :
    Option Thrown → Mutation → ProjectionStore σ → Except Thrown StoreAnswer → Prop
  | refused {append : Option Thrown} {m : Mutation} (e : ProjectionError)
      (hrefused : Refused o s m) : Effect o s append m s (.error (.rejection e))
  | admitted {tokenId : Int} {argument : JsValue} {material : ProofMaterial} {now : Int}
      {c : CandidateEntry} {adapter : σ} (hc : Accepted o s tokenId argument material now c)
      (hadvance : o.adapter.advanceHeight s.adapter tokenId material.remoteHeight = .ok adapter) :
      Effect o s none (.admitEntry tokenId argument material now)
        (s.admitted tokenId c material.remoteHeight adapter)
        (.ok (.admission (s.admissionResult tokenId c material.remoteHeight)))
  | opened {tokenId : Int} {gap : GapRequest} (hwritable : s.poisoned = none)
      (hfree : s.openGaps.get (key tokenId) = none) :
      Effect o s none (.openGap tokenId gap) (s.opened tokenId gap)
        (.ok (.gap (gap.opened tokenId)))
  | cancelled {tokenId : Int} {settlementId : Bytes32} (hwritable : s.poisoned = none)
      (hopen : s.openGaps.get (key tokenId) = some settlementId) :
      Effect o s none (.cancelGap tokenId) (s.cancelled tokenId settlementId)
        (.ok (.gap { s.settlement settlementId with status := .cancelled }))
  -- A failed opening forgets its settlement id, whether it was recorded or not.
  | unopened {tokenId : Int} {gap : GapRequest} {error : Thrown} (hwritable : s.poisoned = none)
      (hfree : s.openGaps.get (key tokenId) = none) :
      Effect o s (some error) (.openGap tokenId gap)
        { s with
          settlements := (s.settlements.set gap.settlementId (gap.opened tokenId)).delete
            gap.settlementId
          poisoned := some error.message }
        (.error error)
  | uncancelled {tokenId : Int} {settlementId : Bytes32} {error : Thrown}
      (hwritable : s.poisoned = none)
      (hopen : s.openGaps.get (key tokenId) = some settlementId) :
      Effect o s (some error) (.cancelGap tokenId)
        { s with openGaps := s.repointed tokenId, poisoned := some error.message }
        (.error error)
  | unadmitted {tokenId : Int} {argument : JsValue} {material : ProofMaterial} {now : Int}
      {error : Thrown} {c : CandidateEntry} {adapter lowered : σ}
      (hc : Accepted o s tokenId argument material now c)
      (hadvance : o.adapter.advanceHeight s.adapter tokenId material.remoteHeight = .ok adapter)
      (hlower : o.adapter.advanceHeight adapter tokenId
        (o.adapter.acceptedHeight s.adapter tokenId) = .ok lowered) :
      Effect o s (some error) (.admitEntry tokenId argument material now)
        { s with
          adapter := lowered, openGaps := s.repointed tokenId, poisoned := some error.message }
        (.error error)
  -- The rollback itself throws, before the gap is restored and the store poisoned.
  | stranded {tokenId : Int} {argument : JsValue} {material : ProofMaterial} {now : Int}
      {error : Thrown} {c : CandidateEntry} {adapter : σ} {message : String}
      (hc : Accepted o s tokenId argument material now c)
      (hadvance : o.adapter.advanceHeight s.adapter tokenId material.remoteHeight = .ok adapter)
      (hlower : o.adapter.advanceHeight adapter tokenId
        (o.adapter.acceptedHeight s.adapter tokenId) = .error message) :
      Effect o s (some error) (.admitEntry tokenId argument material now)
        { s.entered tokenId c adapter with projections := s.projections }
        (.error (.error message))

theorem admit_effect (h : s.Valid) (tokenId : Int) (argument : JsValue) (material : ProofMaterial)
    (now : Int) (append : Option Thrown) :
    Effect o s append (.admitEntry tokenId argument material now)
      (s.admitEntry o tokenId argument material now append).1
      ((s.admitEntry o tokenId argument material now append).2.map .admission) := by
  cases hcheck : s.checkAdmission o tokenId argument material now with
  | error e =>
      simp only [admitEntry, hcheck]
      refine .refused e fun c hc => ?_
      rw [(checkAdmission_eq_ok h).mpr ⟨c, hc, rfl, rfl⟩] at hcheck
      cases hcheck
  | ok result =>
      obtain ⟨target, entry⟩ := result
      obtain ⟨c, hc, rfl, rfl⟩ := (checkAdmission_eq_ok h).mp hcheck
      -- The proof is checked above the accepted height, so the adapter advances.
      obtain ⟨adapter, hadvance, _⟩ :=
        o.adapter.advances s.adapter tokenId material.remoteHeight
          (checkProof_eq_ok.mp hc.proof).2.2.1
      have hentered : closeGap
          { s with
            projections := s.projections.set (key tokenId) ((s.projectionOf tokenId).append c)
            adapter := adapter } tokenId = s.entered tokenId c adapter := rfl
      simp only [admitEntry, hcheck, hadvance, hentered]
      cases append with
      | none =>
          simp only [record, entered_journal]
          exact .admitted hc hadvance
      | some error =>
          simp only [record, rollbackAdmission_entered h hc.writable hc.follows]
          cases hlower : o.adapter.advanceHeight adapter tokenId
              (o.adapter.acceptedHeight s.adapter tokenId) with
          | error message => exact .stranded hc hadvance hlower
          | ok lowered => exact .unadmitted hc hadvance hlower

theorem openGap_effect (tokenId : Int) (gap : GapRequest) (append : Option Thrown) :
    Effect o s append (.openGap tokenId gap) (s.openGap tokenId gap append).1
      ((s.openGap tokenId gap append).2.map .gap) := by
  unfold openGap
  cases hw : s.assertWritable with
  | error e => exact .refused e (Or.inl (poisoned_of_assertWritable hw))
  | ok u =>
      have hwritable := assertWritable_eq_ok.mp hw
      cases hhas : s.openGaps.has (key tokenId) with
      | true => exact .refused _ (Or.inr hhas)
      | false =>
          have hfree := (InsertionMap.has_eq_false _ _).mp hhas
          simp only [Bool.false_eq_true, if_false]
          cases append with
          | none => exact .opened hwritable hfree
          | some error =>
              -- The rollback takes the pointer out again, which leaves the pointers as they were.
              simp only [record, setGap, InsertionMap.delete_set_of_get_none hfree]
              exact .unopened hwritable hfree

theorem cancelGap_effect (h : s.Valid) (tokenId : Int) (append : Option Thrown) :
    Effect o s append (.cancelGap tokenId) (s.cancelGap tokenId append).1
      ((s.cancelGap tokenId append).2.map .gap) := by
  unfold cancelGap
  cases hw : s.assertWritable with
  | error e => exact .refused e (Or.inl (poisoned_of_assertWritable hw))
  | ok u =>
      have hwritable := assertWritable_eq_ok.mp hw
      cases hopen : s.openGaps.get (key tokenId) with
      | none => exact .refused _ (Or.inr hopen)
      | some settlementId =>
          simp only
          cases append with
          | none => exact .cancelled hwritable hopen
          | some error =>
              have heffect : Effect o s (some error) (.cancelGap tokenId) _ _ :=
                .uncancelled hwritable hopen
              simp only [repointed, hopen] at heffect
              simp only [record, clearGap, restoreGap, InsertionMap.set_set,
                h.settlement_set hwritable hopen]
              exact heffect

/-- Every mutation has one of the effects. -/
theorem perform_effect (h : s.Valid) (append : Option Thrown) (m : Mutation) :
    Effect o s append m (s.perform o append m).1 (s.perform o append m).2 := by
  cases m with
  | admitEntry tokenId candidate material now =>
      exact admit_effect h tokenId candidate material now append
  | openGap tokenId gap => exact openGap_effect tokenId gap append
  | cancelGap tokenId => exact cancelGap_effect h tokenId append

/-! ## Preservation -/

/-- Appending a candidate that follows keeps every projection valid. -/
theorem Valid.set_projection (h : s.Valid) {tokenId : Int} {c : CandidateEntry}
    (hc : Follows (s.entries tokenId) c) (k : String) (p : TokenProjection)
    (hget : (s.projections.set (key tokenId) ((s.projectionOf tokenId).append c)).get k =
      some p) : p.Valid ∧ p.entries ≠ [] ∧ ∃ t, k = key t := by
  refine InsertionMap.forall_set h.projections ?_ k p hget
  have hfollows : Follows (s.projectionOf tokenId).entries c := by
    rw [projectionOf_entries]
    exact hc
  refine ⟨(h.projectionOf tokenId).append hfollows, fun hnil => ?_, tokenId, rfl⟩
  have hlen := congrArg List.length hnil
  rw [TokenProjection.append_entries, length_extend] at hlen
  simp at hlen

/-- Rewriting a settlement record keeps every open gap recorded. -/
theorem gaps_set {openGaps : InsertionMap String Bytes32}
    {settlements : InsertionMap Bytes32 Settlement}
    (h : ∀ k id, openGaps.get k = some id → ∃ record, settlements.get id = some record)
    (id : Bytes32) (r : Settlement) :
    ∀ k id', openGaps.get k = some id' →
      ∃ record, (settlements.set id r).get id' = some record := by
  intro k id' hget
  rw [InsertionMap.get_set]
  split
  · exact ⟨r, rfl⟩
  · exact h k id' hget

/-- Pointing a token at a record that is written with it keeps every open gap recorded. -/
theorem gaps_setGap {openGaps : InsertionMap String Bytes32}
    {settlements : InsertionMap Bytes32 Settlement}
    (h : ∀ k id, openGaps.get k = some id → ∃ record, settlements.get id = some record)
    (k : String) (r : Settlement) :
    ∀ k' id, (openGaps.set k r.settlementId).get k' = some id →
      ∃ record, (settlements.set r.settlementId r).get id = some record :=
  InsertionMap.forall_set (gaps_set h _ _) ⟨r, InsertionMap.get_set_self _ _ _⟩

theorem Valid.entered_gaps (h : s.Valid) (hwritable : s.poisoned = none) (tokenId : Int)
    (c : CandidateEntry) (adapter : σ) (k : String) (id : Bytes32)
    (hget : (s.entered tokenId c adapter).openGaps.get k = some id) :
    ∃ record, (s.entered tokenId c adapter).settlements.get id = some record := by
  have hgaps := h.gaps hwritable
  rw [entered_openGaps_get] at hget
  rw [entered_settlements]
  split at hget
  · cases hget
  · cases s.openGaps.get (key tokenId) with
    | none => exact hgaps k id hget
    | some openId => exact gaps_set hgaps _ _ k id hget

/-- An admission over a journal that takes the append refuses or enters. -/
theorem admitEntry_none (h : s.Valid) (tokenId : Int) (candidate : JsValue)
    (material : ProofMaterial) (verifierNow : Int) :
    (∃ e, (∀ c, ¬ Accepted o s tokenId candidate material verifierNow c) ∧
        s.admitEntry o tokenId candidate material verifierNow none =
          (s, .error (.rejection e))) ∨
      ∃ c adapter, Accepted o s tokenId candidate material verifierNow c ∧
        o.adapter.advanceHeight s.adapter tokenId material.remoteHeight = .ok adapter ∧
        s.admitEntry o tokenId candidate material verifierNow none =
          (s.admitted tokenId c material.remoteHeight adapter,
            .ok (s.admissionResult tokenId c material.remoteHeight)) := by
  have heffect := admit_effect (o := o) h tokenId candidate material verifierNow none
  generalize s.admitEntry o tokenId candidate material verifierNow none = done at heffect ⊢
  obtain ⟨after, answer⟩ := done
  simp only at heffect ⊢
  cases answer with
  | error thrown =>
      simp only [Except.map] at heffect
      cases heffect with
      | refused e hrefused => exact Or.inl ⟨e, hrefused, rfl⟩
  | ok result =>
      simp only [Except.map] at heffect
      cases heffect with
      | admitted hc hadvance => exact Or.inr ⟨_, _, hc, hadvance, rfl⟩

/-- An accepted candidate is entered. -/
theorem Valid.admitEntry_of_accepted (h : s.Valid) {tokenId : Int} {candidate : JsValue}
    {material : ProofMaterial} {verifierNow : Int} {c : CandidateEntry}
    (hc : Accepted o s tokenId candidate material verifierNow c) :
    ∃ adapter, o.adapter.advanceHeight s.adapter tokenId material.remoteHeight = .ok adapter ∧
      s.admitEntry o tokenId candidate material verifierNow none =
        (s.admitted tokenId c material.remoteHeight adapter,
          .ok (s.admissionResult tokenId c material.remoteHeight)) := by
  rcases admitEntry_none (o := o) h tokenId candidate material verifierNow with
    ⟨e, hrefused, _⟩ | ⟨c', adapter, hc', hadvance, heq⟩
  · exact absurd hc (hrefused c)
  · have hshape := hc'.shape
    rw [hc.shape] at hshape
    cases hshape
    exact ⟨adapter, hadvance, heq⟩

/-- Every mutation keeps the invariant, whatever it does and however it ends. -/
theorem Effect.valid (h : s.Valid) {append : Option Thrown} {m : Mutation}
    {t : ProjectionStore σ} {answer : Except Thrown StoreAnswer}
    (heffect : Effect o s append m t answer) : t.Valid := by
  cases heffect with
  | refused e hrefused => exact h
  | admitted hc hadvance =>
      exact ⟨fun k p hget => h.set_projection hc.follows k p (by
        simpa [ProjectionStore.admitted] using hget),
        fun _ => h.entered_gaps hc.writable _ _ _⟩
  | opened hwritable hfree =>
      exact ⟨h.projections, fun _ => gaps_setGap (h.gaps hwritable) _ _⟩
  | cancelled hwritable hopen =>
      exact ⟨h.projections, fun _ =>
        gaps_set (InsertionMap.forall_delete (h.gaps hwritable) _) _ _⟩
  | unopened hwritable hfree => exact ⟨h.projections, fun hpoisoned => by simp at hpoisoned⟩
  | uncancelled hwritable hopen => exact ⟨h.projections, fun hpoisoned => by simp at hpoisoned⟩
  | unadmitted hc hadvance hlower =>
      exact ⟨h.projections, fun hpoisoned => by simp at hpoisoned⟩
  | stranded hc hadvance hlower =>
      exact ⟨h.projections, fun _ => h.entered_gaps hc.writable _ _ _⟩

theorem Valid.step (h : s.Valid) (call : StoreCall σ) : (s.step o call).Valid := by
  cases call with
  | mutate m append => exact (perform_effect h append m).valid h
  | adapterMoves adapter => exact ⟨h.projections, h.gaps⟩

theorem Valid.run (h : s.Valid) (calls : List (StoreCall σ)) :
    (LabelledRun.run (ProjectionStore.step o) s calls).Valid :=
  LabelledRun.run_invariant (ProjectionStore.step o) ProjectionStore.Valid
    (fun _ call hs => hs.step call) h calls

end ProjectionStore

end Erc8415
