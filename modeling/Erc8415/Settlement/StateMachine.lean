import Erc8415.Projection.Finality
import Erc8415.Settlement.Service

/-! # The settlement state machine

Two entry points share one store: the engine, which is given a settlement id,
and the admission route, which follows the token's pointer. In every state they
reach the pointer of a token and its open settlement are the same gap, so the
settlement the store closes is the one whose deadline and holder were checked.
-/

namespace Erc8415

variable {σ : Type}

/-! ## What the engine recorded -/

/-- What was checked before a settlement was recorded. -/
structure Begun (id : Bytes32) (r : Settlement) : Prop where
  settlementId : id ≠ zeroBytes32
  status : r.status ≠ .none
  initiator : isAddress r.initiator = true
  expectedHolder : isAddress r.expectedHolder = true

theorem Begun.succeeds {id : Bytes32} {r r' : Settlement} (h : Begun id r)
    (hsucceeds : Succeeds r r') : Begun id r' := by
  rcases hsucceeds with rfl | ⟨_, rfl | rfl⟩
  · exact h
  · exact ⟨h.settlementId, by simp, h.initiator, h.expectedHolder⟩
  · exact ⟨h.settlementId, by simp, h.initiator, h.expectedHolder⟩

namespace ProjectionStore

variable {engine : SettlementEngine} {o : StoreConfig σ} {s t : ProjectionStore σ}

/-- The states the service reaches. -/
structure Served (s : ProjectionStore σ) : Prop where
  valid : s.Valid
  records : GapRecords s.openGaps s.settlements
  begun : ∀ id r, s.settlements.get id = some r → Begun id r

theorem Served.initial (adapter : σ) (journal : JournalContent) :
    (initial adapter journal).Served where
  valid := Valid.initial adapter journal
  records := GapRecords.empty
  begun := by simp [ProjectionStore.initial]

/-- A settlement that reads as anything but `none` is recorded. -/
theorem get_of_status {id : Bytes32} (h : (s.settlement id).status ≠ .none) :
    s.settlements.get id = some (s.settlement id) := by
  cases hget : s.settlements.get id with
  | none =>
      unfold settlement at h
      rw [hget] at h
      exact absurd rfl h
  | some r => rw [settlement_of_get hget]

/-- The gap of an open settlement is its token's gap. -/
theorem Served.pointing (h : s.Served) {id : Bytes32} (hopen : (s.settlement id).status = .open) :
    s.openGaps.get (key (s.settlement id).tokenId) = some id :=
  h.records.pointing id _ (get_of_status (by rw [hopen]; simp)) hopen

theorem Served.begun_of_get (h : s.Served) {k : String} {id : Bytes32}
    (hk : s.openGaps.get k = some id) : Begun id (s.settlement id) :=
  h.begun id _ (pointed_settlement h.records hk).1

/-- A request names a settlement id that was never recorded. -/
theorem Served.fresh (h : s.Served) {id : Bytes32} (hnone : (s.settlement id).status = .none) :
    s.settlements.get id = none :=
  get_eq_none_of_status (fun r hr => (h.begun id r hr).status) hnone

/-! ## One call as one mutation -/

/-- A call answered as a mutation performs one mutation of the store that keeps
the gap records. Any other call changes at most the adapter. -/
theorem ServiceEffect.mutates (h : s.Served) {call : ServiceCall o} {answered : Bool}
    (heffect : ServiceEffect engine o s call t answered) :
    (answered = false ∧ (t = s ∨ ∃ move : σ → σ, (∀ a tokenId,
        o.adapter.acceptedHeight (move a) tokenId = o.adapter.acceptedHeight a tokenId) ∧
        t = { s with adapter := move s.adapter })) ∨
      answered = true ∧ ∃ m result, Effect o s none m t (.ok result) ∧ KeepsRecords o s none m := by
  cases heffect with
  | unchanged => exact Or.inl ⟨rfl, Or.inl rfl⟩
  | moved move hmove => exact Or.inl ⟨rfl, Or.inr ⟨move, hmove, rfl⟩⟩
  | begun hbegins hwritable hfree =>
      exact Or.inr ⟨rfl, _, _, .opened hwritable hfree, Or.inr (h.fresh hbegins.none)⟩
  | finalized hassert hc hadvance =>
      exact Or.inr ⟨rfl, _, _, .admitted hc hadvance, Or.inr (Or.inl rfl)⟩
  | cancelled hcheck hwritable hopen =>
      exact Or.inr ⟨rfl, _, _, .cancelled hwritable hopen, trivial⟩
  | posted htoken hparsed hassert hc hadvance =>
      exact Or.inr ⟨rfl, _, _, .admitted hc hadvance, Or.inr (Or.inl rfl)⟩
  | direct hc hadvance => exact Or.inr ⟨rfl, _, _, .admitted hc hadvance, Or.inr (Or.inl rfl)⟩

/-! ## Preservation -/

/-- Closing a pointed settlement keeps what was checked of it. -/
theorem Served.begun_closing (h : s.Served) {k : String} {id : Bytes32} {status : GapStatus}
    (hk : s.openGaps.get k = some id) (hstatus : status = .admitted ∨ status = .cancelled) :
    Begun id { s.settlement id with status := status } := by
  have hopen := (pointed_settlement h.records hk).2.2.1
  refine (h.begun_of_get hk).succeeds (Or.inr ⟨hopen, ?_⟩)
  rcases hstatus with rfl | rfl
  · exact Or.inl rfl
  · exact Or.inr rfl

theorem Served.begun_entered (h : s.Served) (tokenId : Int) (c : CandidateEntry) (adapter : σ) :
    ∀ id r, (s.entered tokenId c adapter).settlements.get id = some r → Begun id r := by
  rw [entered_settlements]
  cases hopen : s.openGaps.get (key tokenId) with
  | none => exact h.begun
  | some id => exact InsertionMap.forall_set h.begun (h.begun_closing hopen (Or.inl rfl))

theorem ServiceEffect.served (h : s.Served) {call : ServiceCall o} {answered : Bool}
    (heffect : ServiceEffect engine o s call t answered) : t.Served := by
  rcases heffect.mutates h with ⟨_, rfl | ⟨move, _, rfl⟩⟩ | ⟨_, m, result, hmutates, hkeeps⟩
  · exact h
  · exact ⟨⟨h.valid.projections, h.valid.gaps⟩, h.records, h.begun⟩
  · refine ⟨hmutates.valid h.valid, (hmutates.records h.records hkeeps).1, ?_⟩
    cases heffect with
    | unchanged => exact h.begun
    | moved move hmove => exact h.begun
    | begun hbegins hwritable hfree =>
        exact InsertionMap.forall_set h.begun
          ⟨hbegins.settlementId, by simp [GapRequest.opened], hbegins.initiator,
            hbegins.expectedHolder⟩
    | finalized hassert hc hadvance => exact h.begun_entered _ _ _
    | cancelled hcheck hwritable hopen =>
        exact InsertionMap.forall_set h.begun (h.begun_closing hopen (Or.inr rfl))
    | posted htoken hparsed hassert hc hadvance => exact h.begun_entered _ _ _
    | direct hc hadvance => exact h.begun_entered _ _ _

theorem Served.step (h : s.Served) (call : ServiceCall o) : (serveStep engine o s call).Served :=
  (serve_effect engine h.valid call).served h

theorem Served.run (h : s.Served) (calls : List (ServiceCall o)) :
    (LabelledRun.run (serveStep engine o) s calls).Served :=
  LabelledRun.run_invariant (serveStep engine o) Served (fun _ call hs => hs.step call) h calls

/-! ## What a call changes -/

/-- Every settlement and every pointer reads as before. -/
def SameGaps (s t : ProjectionStore σ) : Prop :=
  (∀ id, t.settlement id = s.settlement id) ∧ ∀ tokenId, t.openGapOf tokenId = s.openGapOf tokenId

/-- One settlement reads as a new record, and its token's pointer as a new one. Every
other settlement and pointer reads as before. -/
structure GapMoved (s t : ProjectionStore σ) (id : Bytes32) (r : Settlement) (pointer : Bytes32) :
    Prop where
  settlement : t.settlement id = r
  pointer : t.openGapOf r.tokenId = pointer
  settlements : ∀ id', id' ≠ id → t.settlement id' = s.settlement id'
  pointers : ∀ tokenId, tokenId ≠ r.tokenId → t.openGapOf tokenId = s.openGapOf tokenId

/-- One token's entries are extended by one candidate; no other token's change. -/
structure Appended (s t : ProjectionStore σ) (tokenId : Int) (c : CandidateEntry) : Prop where
  follows : Follows (s.entries tokenId) c
  entries : t.entries tokenId = extend (s.entries tokenId) c
  others : ∀ other, other ≠ tokenId → t.entries other = s.entries other

/-- The moves of the settlement state machine. A call of the engine or of the route
that makes none of them leaves every settlement and every pointer as it was. -/
inductive GapTransition (engine : SettlementEngine) (o : StoreConfig σ) (s : ProjectionStore σ) :
    ServiceCall o → ProjectionStore σ → Prop
  | same {call : ServiceCall o} {t : ProjectionStore σ} (hsame : SameGaps s t) :
      GapTransition engine o s call t
  | begun {request : BeginRequest} {now : Int} {t : ProjectionStore σ}
      (hnone : (s.settlement request.settlementId).status = .none)
      (hauthority : engine.authority.isSettlementAuthority request.tokenId request.initiator = true)
      (hfuture : now < request.deadline)
      (hperiod : request.deadline ≤ now + engine.settlementPeriod)
      (hentries : ∀ tokenId, t.entries tokenId = s.entries tokenId)
      (hmoved : GapMoved s t request.settlementId
        ((SettlementEngine.BeginRequest.gap request now).opened request.tokenId)
        request.settlementId) :
      GapTransition engine o s (.begin request now) t
  | finalized {id : Bytes32} {candidate : JsValue} {material : ProofMaterial}
      {now verifierNow : Int} {c : CandidateEntry} {t : ProjectionStore σ}
      (hopen : (s.settlement id).status = .open) (hdeadline : now ≤ (s.settlement id).deadline)
      (hholder : c.holder = (s.settlement id).expectedHolder)
      (happended : Appended s t (s.settlement id).tokenId c)
      (hmoved : GapMoved s t id { s.settlement id with status := .admitted } zeroBytes32) :
      GapTransition engine o s (.finalize id candidate material now verifierNow) t
  | posted {id : Bytes32} {tokenRaw : String} {body : JsValue} {now verifierNow : Int}
      {c : CandidateEntry} {t : ProjectionStore σ}
      (htoken : parseUint256 tokenRaw = some (s.settlement id).tokenId)
      (hopen : (s.settlement id).status = .open) (hdeadline : now ≤ (s.settlement id).deadline)
      (hholder : c.holder = (s.settlement id).expectedHolder)
      (happended : Appended s t (s.settlement id).tokenId c)
      (hmoved : GapMoved s t id { s.settlement id with status := .admitted } zeroBytes32) :
      GapTransition engine o s (.post tokenRaw body now verifierNow) t
  -- The store's own admission checks neither the deadline nor the holder.
  | direct {id : Bytes32} {candidate : JsValue} {material : ProofMaterial} {verifierNow : Int}
      {c : CandidateEntry} {t : ProjectionStore σ} (hopen : (s.settlement id).status = .open)
      (happended : Appended s t (s.settlement id).tokenId c)
      (hmoved : GapMoved s t id { s.settlement id with status := .admitted } zeroBytes32) :
      GapTransition engine o s (.direct (s.settlement id).tokenId candidate material verifierNow) t
  | cancelled {id : Bytes32} {caller : Address} {now : Int} {t : ProjectionStore σ}
      (hopen : (s.settlement id).status = .open)
      (hcaller : toLowerCase caller = (s.settlement id).initiator)
      (hexpired : (s.settlement id).deadline < now)
      (hentries : ∀ tokenId, t.entries tokenId = s.entries tokenId)
      (hmoved : GapMoved s t id { s.settlement id with status := .cancelled } zeroBytes32) :
      GapTransition engine o s (.cancel id caller now) t

/-- Opening a gap moves it from nothing. -/
theorem GapMoved.opened (s : ProjectionStore σ) (tokenId : Int) (gap : GapRequest) :
    GapMoved s (s.opened tokenId gap) gap.settlementId (gap.opened tokenId) gap.settlementId where
  settlement := by
    simp [ProjectionStore.settlement, ProjectionStore.opened, setGap, GapRequest.opened]
  pointer := by simp [openGapOf, ProjectionStore.opened, setGap, GapRequest.opened]
  settlements := by
    intro id' hne
    simp only [ProjectionStore.settlement, ProjectionStore.opened, setGap, GapRequest.opened]
    rw [InsertionMap.get_set_of_ne hne.symm]
  pointers := by
    intro other hne
    change other ≠ tokenId at hne
    simp only [openGapOf, ProjectionStore.opened, setGap]
    rw [InsertionMap.get_set_of_ne fun heq => hne (key_inj.mp heq).symm]

/-- Closing the gap a token points at moves it to nothing. -/
theorem GapMoved.closing {id : Bytes32} {r : Settlement}
    (hgaps : ∀ k, t.openGaps.get k = if key r.tokenId = k then none else s.openGaps.get k)
    (hsettlements : t.settlements = s.settlements.set id r) : GapMoved s t id r zeroBytes32 where
  settlement := by simp [ProjectionStore.settlement, hsettlements]
  pointer := by simp [openGapOf, hgaps]
  settlements := by
    intro id' hne
    simp only [ProjectionStore.settlement, hsettlements]
    rw [InsertionMap.get_set_of_ne hne.symm]
  pointers := by
    intro other hne
    simp only [openGapOf, hgaps]
    rw [if_neg fun heq => hne (key_inj.mp heq).symm]

theorem Appended.entered {tokenId : Int} {argument : JsValue} {material : ProofMaterial}
    {now : Int} {c : CandidateEntry} {adapter : σ}
    (hc : Accepted o s tokenId argument material now c) :
    Appended s (s.admitted tokenId c material.remoteHeight adapter) tokenId c where
  follows := hc.follows
  entries := admitted_entries s _ _ _ _
  others := by
    intro other hne
    unfold ProjectionStore.entries
    simp only [ProjectionStore.admitted, entered_projections]
    rw [InsertionMap.get_set_of_ne fun heq => hne (key_inj.mp heq).symm]

/-- An admission of a token without a gap moves none. -/
theorem SameGaps.admitted {tokenId : Int} (hnone : s.openGaps.get (key tokenId) = none)
    (c : CandidateEntry) (remoteHeight : Int) (adapter : σ) :
    SameGaps s (s.admitted tokenId c remoteHeight adapter) := by
  constructor
  · intro id
    simp only [settlement, ProjectionStore.admitted, entered_settlements, hnone]
  · intro other
    simp only [openGapOf, ProjectionStore.admitted, entered_openGaps_get]
    split
    next heq => rw [← heq, hnone]
    next => rfl

/-- An admission of a token with a gap closes that gap. -/
theorem Served.moved_admitted (h : s.Served) {tokenId : Int} {id : Bytes32}
    (hopen : s.openGaps.get (key tokenId) = some id) (c : CandidateEntry) (remoteHeight : Int)
    (adapter : σ) :
    GapMoved s (s.admitted tokenId c remoteHeight adapter) id
      { s.settlement id with status := .admitted } zeroBytes32 := by
  have hkey := (pointed_settlement h.records hopen).2.2.2
  refine GapMoved.closing (fun k => ?_) ?_
  · simp only [ProjectionStore.admitted, entered_openGaps_get, hkey]
  · simp only [ProjectionStore.admitted, entered_settlements, hopen]

/-- Both texts of a holder comparison are lowercase already. -/
theorem Served.holder (h : s.Served) {k : String} {id : Bytes32} (hk : s.openGaps.get k = some id)
    {c : CandidateEntry} (hc : c.Shaped)
    (hholder : toLowerCase c.holder = toLowerCase (s.settlement id).expectedHolder) :
    c.holder = (s.settlement id).expectedHolder := by
  rwa [toLowerCase_of_isHexWord hc.holder,
    toLowerCase_of_isHexWord (h.begun_of_get hk).expectedHolder] at hholder

theorem ServiceEffect.transition (h : s.Served) {call : ServiceCall o} {answered : Bool}
    (heffect : ServiceEffect engine o s call t answered) : GapTransition engine o s call t := by
  cases heffect with
  | unchanged => exact .same ⟨fun _ => rfl, fun _ => rfl⟩
  | moved move hmove => exact .same ⟨fun _ => rfl, fun _ => rfl⟩
  | begun hbegins hwritable hfree =>
      exact .begun hbegins.none hbegins.authority hbegins.future hbegins.period (fun _ => rfl)
        (GapMoved.opened s _ _)
  | @finalized id candidate material now verifierNow c adapter hassert hc hadvance =>
      obtain ⟨hopen, hdeadline, c', hshape, hholder⟩ := assertSettlementAdmission_eq_ok.mp hassert
      -- The gap the store closes is its token's, which is the settlement that was asserted.
      have hpointer := h.pointing hopen
      rw [hc.shape] at hshape
      cases hshape
      exact .finalized hopen hdeadline (h.holder hpointer hc.follows.shaped hholder)
        (Appended.entered hc) (h.moved_admitted hpointer _ _ _)
  | @cancelled id pointed caller now hcheck hwritable hpointed =>
      obtain ⟨hopen, hcaller, hexpired⟩ := checkCancel_eq_ok.mp hcheck
      -- The caller named the settlement; the store cancels the one its token points at.
      have hpointer := h.pointing hopen
      rw [hpointer] at hpointed
      cases hpointed
      rw [toLowerCase_of_isHexWord (h.begun_of_get hpointer).initiator] at hcaller
      refine .cancelled hopen hcaller hexpired (fun _ => rfl) (GapMoved.closing (fun k => ?_) rfl)
      simp only [ProjectionStore.cancelled, clearGap, InsertionMap.get_delete]
  | @posted tokenRaw body now verifierNow tokenId parsed c adapter htoken hparsed hassert hc
      hadvance =>
      cases hpointer : s.openGaps.get (key tokenId) with
      | none => exact .same (SameGaps.admitted hpointer _ _ _)
      | some id =>
          -- The pointer is no zero word, so the route asserted against this settlement.
          have hne := (h.begun_of_get hpointer).settlementId
          have htokenId := key_inj.mp (pointed_settlement h.records hpointer).2.2.2
          simp only [assertOpenGap, openGapOf, hpointer, Option.getD_some, noGap, ne_eq, hne,
            not_false_eq_true, if_true] at hassert
          obtain ⟨hopen, hdeadline, c', hshape, hholder⟩ :=
            assertSettlementAdmission_eq_ok.mp hassert
          rw [hc.shape] at hshape
          cases hshape
          refine .posted (htokenId ▸ htoken) hopen hdeadline
            (h.holder hpointer hc.follows.shaped hholder) ?_ (h.moved_admitted hpointer _ _ _)
          exact htokenId ▸ Appended.entered hc
  | @direct tokenId candidate material verifierNow c adapter hc hadvance =>
      cases hpointer : s.openGaps.get (key tokenId) with
      | none => exact .same (SameGaps.admitted hpointer _ _ _)
      | some id =>
          obtain ⟨_, _, hopen, hkey⟩ := pointed_settlement h.records hpointer
          have htokenId := key_inj.mp hkey
          subst htokenId
          exact .direct hopen (Appended.entered hc) (h.moved_admitted hpointer _ _ _)

/-! ## Every run -/

theorem Served.kept (engine : SettlementEngine) (h : s.Served) (call : ServiceCall o) :
    Kept s.settlements (serveStep engine o s call).settlements := by
  rcases (serve_effect engine h.valid call).mutates h with
    ⟨_, heq | ⟨move, _, heq⟩⟩ | ⟨_, m, result, hmutates, hkeeps⟩
  · unfold serveStep
    rw [heq]
    exact Kept.refl _
  · unfold serveStep
    rw [heq]
    exact Kept.refl _
  · exact (hmutates.records h.records hkeeps).2

theorem Served.run_kept (engine : SettlementEngine) (h : s.Served) (calls : List (ServiceCall o)) :
    Kept s.settlements (LabelledRun.run (serveStep engine o) s calls).settlements :=
  LabelledRun.run_relates (serveStep engine o) Served
    (fun s t => Kept s.settlements t.settlements) (fun _ => Kept.refl _)
    (fun _ _ _ => Kept.trans) (fun _ call hs => hs.step call) (fun _ call hs => hs.kept engine call)
    h calls

/-- The settlement state machine, in every state the service reaches. Pointers and open
settlements are the same gaps; every further call makes one move of the machine or none;
and over every further run a recorded settlement keeps its fields and closes at most once. -/
theorem run_state_machine (engine : SettlementEngine) (o : StoreConfig σ) (adapter : σ)
    (journal : JournalContent) (calls : List (ServiceCall o)) :
    let s := LabelledRun.run (serveStep engine o) (initial adapter journal) calls
    (∀ tokenId id, s.openGapOf tokenId = id ∧ id ≠ zeroBytes32 ↔
      (s.settlement id).status = .open ∧ (s.settlement id).tokenId = tokenId) ∧
    (∀ call, GapTransition engine o s call (serveStep engine o s call)) ∧
    ∀ id, (s.settlement id).status ≠ .none → ∀ rest : List (ServiceCall o),
      Succeeds (s.settlement id) ((LabelledRun.run (serveStep engine o) s rest).settlement id) := by
  intro s
  have h : s.Served := (Served.initial adapter journal).run calls
  refine ⟨fun tokenId id => ⟨?_, ?_⟩,
    fun call => (serve_effect engine h.valid call).transition h, ?_⟩
  · rintro ⟨hpointer, hid⟩
    exact (openGapOf_eq_iff h.records hid).mp hpointer
  · rintro ⟨hopen, htoken⟩
    have hid := (h.begun_of_get (h.pointing hopen)).settlementId
    exact ⟨(openGapOf_eq_iff h.records hid).mpr ⟨hopen, htoken⟩, hid⟩
  · intro id hstatus rest
    obtain ⟨r, hr, hsucceeds⟩ := h.run_kept engine rest id _ (get_of_status hstatus)
    rwa [settlement_of_get hr]

end ProjectionStore

end Erc8415
