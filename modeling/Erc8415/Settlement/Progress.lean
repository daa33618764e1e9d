import Erc8415.Settlement.StateMachine

/-! # Which calls are accepted

In every state the service reaches, what a call has to satisfy to be accepted
is exactly what its checks say of the store. An open gap therefore has two
windows that the deadline divides: until then only an admission closes it, and
from then on only a cancellation, which its initiator cannot be refused. So no
token stays stuck on a gap.
-/

namespace Erc8415

variable {σ : Type}

namespace ProjectionStore

variable {engine : SettlementEngine} {o : StoreConfig σ} {s t : ProjectionStore σ}

/-! ## Accepted calls -/

/-- A request that opens a gap. -/
structure Opens (engine : SettlementEngine) (s : ProjectionStore σ) (request : BeginRequest)
    (now : Int) : Prop extends Begins engine s request now where
  snapshotHash : request.snapshotHash ≠ zeroBytes32
  deadline : isUint64 request.deadline = true
  free : s.openGapOf request.tokenId = zeroBytes32

/-- An entry that a settlement is still waiting for. -/
structure Awaited (record : Settlement) (c : CandidateEntry) (now : Int) : Prop where
  opened : record.status = .open
  inTime : now ≤ record.deadline
  holder : c.holder = record.expectedHolder

/-- What a call has to satisfy to be accepted, by the store alone. -/
def Enabled (engine : SettlementEngine) (o : StoreConfig σ) (s : ProjectionStore σ) :
    ServiceCall o → Prop
  | .begin request now => Opens engine s request now
  | .finalize id candidate material now verifierNow =>
      ∃ c, Accepted o s (s.settlement id).tokenId candidate material verifierNow c ∧
        Awaited (s.settlement id) c now
  | .cancel id caller now =>
      (s.settlement id).status = .open ∧ toLowerCase caller = (s.settlement id).initiator ∧
        (s.settlement id).deadline < now
  | .post tokenRaw body now verifierNow =>
      ∃ tokenId parsed c, parseUint256 tokenRaw = some tokenId ∧
        parseAdmission body = some parsed ∧
        Accepted o s tokenId parsed.entry parsed.proof verifierNow c ∧
        (s.openGapOf tokenId = zeroBytes32 ∨ Awaited (s.settlement (s.openGapOf tokenId)) c now)
  | .direct tokenId candidate material verifierNow =>
      ∃ c, Accepted o s tokenId candidate material verifierNow c
  | .adapterMoves _ _ => False

/-- The states of a service whose journal took every append. -/
structure Working (s : ProjectionStore σ) : Prop where
  served : s.Served
  writable : s.poisoned = none

theorem Working.initial (adapter : σ) (journal : JournalContent) :
    (initial adapter journal).Working := ⟨Served.initial adapter journal, rfl⟩

theorem Working.step (h : s.Working) (call : ServiceCall o) :
    (serveStep engine o s call).Working := by
  refine ⟨h.served.step call, ?_⟩
  have heffect := serve_effect engine h.served.valid call
  have hwritable := h.writable
  unfold serveStep
  generalize (serve engine o s call).1 = t at heffect ⊢
  generalize mutated (serve engine o s call).2 = answered at heffect
  cases heffect with
  | unchanged => exact hwritable
  | moved move hmove => exact hwritable
  | begun hbegins _ hfree => exact hwritable
  | finalized hassert hc hadvance => simp [ProjectionStore.admitted, hwritable]
  | cancelled hcheck _ hopen => exact hwritable
  | posted htoken hparsed hassert hc hadvance => simp [ProjectionStore.admitted, hwritable]
  | direct hc hadvance => simp [ProjectionStore.admitted, hwritable]

theorem Working.run (h : s.Working) (calls : List (ServiceCall o)) :
    (LabelledRun.run (serveStep engine o) s calls).Working :=
  LabelledRun.run_invariant (serveStep engine o) Working (fun _ call hs => hs.step call) h calls

/-! ## The gap of a token -/

/-- A token's pointer reads as the zero word exactly if it has no gap. -/
theorem Served.free_iff (h : s.Served) (tokenId : Int) :
    s.openGapOf tokenId = zeroBytes32 ↔ s.openGaps.get (key tokenId) = none := by
  unfold openGapOf
  cases hget : s.openGaps.get (key tokenId) with
  | none => simp
  | some id => simpa using (h.begun_of_get hget).settlementId

theorem Served.awaited_iff (h : s.Served) {id : Bytes32} {candidate : JsValue}
    {c : CandidateEntry} {now : Int} (hshape : validateCandidateShape candidate = .ok c)
    (hc : c.Shaped) :
    assertSettlementAdmission (s.settlement id) candidate now = .ok () ↔
      Awaited (s.settlement id) c now := by
  rw [assertSettlementAdmission_eq_ok]
  constructor
  · rintro ⟨hopen, htime, c', hshape', hholder⟩
    rw [hshape] at hshape'
    cases hshape'
    exact ⟨hopen, htime, h.holder (h.pointing hopen) hc hholder⟩
  · rintro ⟨hopen, htime, hholder⟩
    exact ⟨hopen, htime, c, hshape, congrArg toLowerCase hholder⟩

theorem checkBegin_eq_ok {request : BeginRequest} {now : Int} :
    engine.checkBegin s request now = .ok () ↔
      Begins engine s request now ∧ request.snapshotHash ≠ zeroBytes32 ∧
        isUint64 request.deadline = true := by
  constructor
  · intro h
    refine ⟨.of_check h, ?_⟩
    simp only [SettlementEngine.checkBegin, bind_eq_ok, rejectIf_eq_ok, not_not, not_or,
      Bool.not_eq_false] at h
    obtain ⟨_, _, _, _, _, ⟨_, hsnapshot⟩, _, hdeadline, _⟩ := h
    exact ⟨hsnapshot, hdeadline⟩
  · rintro ⟨h, hsnapshot, hdeadline⟩
    have hperiod := h.period
    have hfuture := h.future
    simp only [SettlementEngine.checkBegin, bind_eq_ok, rejectIf_eq_ok, not_not, not_or,
      Bool.not_eq_false, not_le, not_lt]
    exact ⟨(), ⟨h.settlementWord, h.settlementId⟩, (), ⟨h.initiator, h.expectedHolder⟩, (),
      ⟨h.snapshotWord, hsnapshot⟩, (), hdeadline, (), h.authority, (), h.none, (), hfuture,
      by omega⟩

/-! ## Exactly the enabled calls are accepted -/

theorem Working.begin_enabled (h : s.Working) (request : BeginRequest) (now : Int) :
    mutated (serve engine o s (.begin request now)).2 = true ↔
      Enabled engine o s (.begin request now) := by
  simp only [serve, SettlementEngine.begin, Enabled]
  have heffect := openGap_effect (o := o) (s := s) request.tokenId
    (SettlementEngine.BeginRequest.gap request now) none
  cases hcheck : engine.checkBegin s request now with
  | error e =>
      refine ⟨fun hmutated => (by cases hmutated), fun hopens => ?_⟩
      rw [checkBegin_eq_ok.mpr ⟨hopens.toBegins, hopens.snapshotHash, hopens.deadline⟩] at hcheck
      cases hcheck
  | ok u =>
      obtain ⟨hbegins, hsnapshot, hdeadline⟩ := checkBegin_eq_ok.mp hcheck
      simp only
      generalize s.openGap request.tokenId (SettlementEngine.BeginRequest.gap request now) none =
        done at heffect ⊢
      obtain ⟨after, answer⟩ := done
      cases answer with
      | error thrown =>
          refine ⟨fun hmutated => (by cases hmutated), fun hopens => ?_⟩
          simp only [Except.map] at heffect
          cases heffect with
          | refused e hrefused =>
              exact absurd hrefused
                (not_refused_openGap h.writable ((h.served.free_iff _).mp hopens.free))
      | ok record =>
          refine ⟨fun _ => ⟨hbegins, hsnapshot, hdeadline, ?_⟩, fun _ => rfl⟩
          simp only [Except.map] at heffect
          cases heffect with
          | opened hwritable hfree => exact (h.served.free_iff _).mpr hfree

theorem Working.cancel_enabled (h : s.Working) (id : Bytes32) (caller : Address) (now : Int) :
    mutated (serve engine o s (.cancel id caller now)).2 = true ↔
      Enabled engine o s (.cancel id caller now) := by
  simp only [serve, SettlementEngine.cancel, Enabled]
  have heffect := cancelGap_effect (o := o) h.served.valid (s.settlement id).tokenId none
  cases hcheck : SettlementEngine.checkCancel (s.settlement id) id caller now with
  | error e =>
      refine ⟨fun hmutated => (by cases hmutated), fun henabled => ?_⟩
      obtain ⟨hopen, hcaller, hexpired⟩ := henabled
      have hinitiator := toLowerCase_of_isHexWord (h.served.begun_of_get
        (h.served.pointing hopen)).initiator
      rw [checkCancel_eq_ok.mpr ⟨hopen, hcaller.trans hinitiator.symm, hexpired⟩] at hcheck
      cases hcheck
  | ok u =>
      obtain ⟨hopen, hcaller, hexpired⟩ := checkCancel_eq_ok.mp hcheck
      have hpointer := h.served.pointing hopen
      rw [toLowerCase_of_isHexWord (h.served.begun_of_get hpointer).initiator] at hcaller
      simp only
      generalize s.cancelGap (s.settlement id).tokenId none = done at heffect ⊢
      obtain ⟨after, answer⟩ := done
      cases answer with
      | error thrown =>
          refine ⟨fun hmutated => (by cases hmutated), fun _ => ?_⟩
          simp only [Except.map] at heffect
          cases heffect with
          | refused e hrefused =>
              rcases hrefused with hpoisoned | hnone
              · exact absurd h.writable hpoisoned
              · rw [hpointer] at hnone
                cases hnone
      | ok record => exact ⟨fun _ => ⟨hopen, hcaller, hexpired⟩, fun _ => rfl⟩

theorem Working.finalize_enabled (h : s.Working) (id : Bytes32) (candidate : JsValue)
    (material : ProofMaterial) (now verifierNow : Int) :
    mutated (serve engine o s (.finalize id candidate material now verifierNow)).2 = true ↔
      Enabled engine o s (.finalize id candidate material now verifierNow) := by
  simp only [serve, SettlementEngine.finalize, Enabled]
  constructor
  · intro hmutated
    cases hassert : assertSettlementAdmission (s.settlement id) candidate now with
    | error e =>
        rw [hassert] at hmutated
        cases hmutated
    | ok u =>
        rw [hassert] at hmutated
        simp only at hmutated
        rcases admitEntry_none (o := o) h.served.valid (s.settlement id).tokenId candidate material
          verifierNow with ⟨e, _, heq⟩ | ⟨c, adapter, hc, hadvance, heq⟩
        · rw [heq] at hmutated
          cases hmutated
        · exact ⟨c, hc, (h.served.awaited_iff hc.shape hc.follows.shaped).mp hassert⟩
  · rintro ⟨c, hc, hawaited⟩
    have hassert := (h.served.awaited_iff hc.shape hc.follows.shaped).mpr hawaited
    obtain ⟨adapter, hadvance, heq⟩ := h.served.valid.admitEntry_of_accepted hc
    rw [hassert]
    simp only [heq]
    rfl

/-- What the route asserts before an admission that is accepted. -/
theorem Served.assertOpenGap_iff (h : s.Served) {tokenId : Int} {candidate : JsValue}
    {c : CandidateEntry} {now : Int} (hshape : validateCandidateShape candidate = .ok c)
    (hc : c.Shaped) :
    assertOpenGap s tokenId candidate now = .ok () ↔
      s.openGapOf tokenId = zeroBytes32 ∨ Awaited (s.settlement (s.openGapOf tokenId)) c now := by
  by_cases hfree : s.openGapOf tokenId = zeroBytes32
  · have hasserted : assertOpenGap s tokenId candidate now = .ok () := if_neg (not_not.mpr hfree)
    exact ⟨fun _ => Or.inl hfree, fun _ => hasserted⟩
  · have hasserted : assertOpenGap s tokenId candidate now =
        assertSettlementAdmission (s.settlement (s.openGapOf tokenId)) candidate now :=
      if_pos hfree
    rw [hasserted, h.awaited_iff hshape hc]
    exact ⟨Or.inr, fun hor => hor.resolve_left hfree⟩

theorem Working.post_enabled (h : s.Working) (tokenRaw : String) (body : JsValue)
    (now verifierNow : Int) :
    mutated (serve engine o s (.post tokenRaw body now verifierNow)).2 = true ↔
      Enabled engine o s (.post tokenRaw body now verifierNow) := by
  constructor
  · intro hmutated
    have heffect : ServiceEffect engine o s (.post tokenRaw body now verifierNow)
        (serve engine o s (.post tokenRaw body now verifierNow)).1
        (mutated (serve engine o s (.post tokenRaw body now verifierNow)).2) :=
      post_effect h.served.valid tokenRaw body now verifierNow
    rw [hmutated] at heffect
    generalize (serve engine o s (.post tokenRaw body now verifierNow)).1 = after at heffect
    cases heffect with
    | posted htoken hparsed hassert hc hadvance =>
        exact ⟨_, _, _, htoken, hparsed, hc,
          (h.served.assertOpenGap_iff hc.shape hc.follows.shaped).mp hassert⟩
  · rintro ⟨tokenId, parsed, c, htoken, hparsed, hc, hgap⟩
    have hassert := (h.served.assertOpenGap_iff hc.shape hc.follows.shaped).mpr hgap
    obtain ⟨adapter, hadvance, heq⟩ := h.served.valid.admitEntry_of_accepted hc
    simp only [serve, handleAdmission, admissionRoute, htoken, hparsed, hassert, heq]
    rfl

theorem Working.enabled (h : s.Working) (call : ServiceCall o) :
    mutated (serve engine o s call).2 = true ↔ Enabled engine o s call := by
  cases call with
  | begin request now => exact h.begin_enabled request now
  | finalize id candidate material now verifierNow =>
      exact h.finalize_enabled id candidate material now verifierNow
  | cancel id caller now => exact h.cancel_enabled id caller now
  | post tokenRaw body now verifierNow => exact h.post_enabled tokenRaw body now verifierNow
  | direct tokenId candidate material verifierNow =>
      simp only [serve, Enabled]
      rcases admitEntry_none (o := o) h.served.valid tokenId candidate material verifierNow with
        ⟨e, hrefused, heq⟩ | ⟨c, adapter, hc, hadvance, heq⟩
      · rw [heq]
        refine ⟨fun hmutated => (by cases hmutated), fun henabled => ?_⟩
        obtain ⟨c, hc⟩ := henabled
        exact absurd hc (hrefused c)
      · rw [heq]
        exact ⟨fun _ => ⟨c, hc⟩, fun _ => rfl⟩
  | adapterMoves move hmove => exact ⟨fun hmutated => (by cases hmutated), fun hnot => hnot.elim⟩

/-! ## The two windows of a gap -/

/-- Whether a call closes a gap by an entry: it finalizes the settlement, or posts an entry of
its token. -/
def ClosesInTime (tokenId : Int) (id : Bytes32) (now : Int) : ServiceCall o → Prop
  | .finalize id' _ _ now' _ => id' = id ∧ now' = now
  | .post tokenRaw _ now' _ => parseUint256 tokenRaw = some tokenId ∧ now' = now
  | _ => False

/-- An open gap at an instant. Until its deadline nobody can cancel it; past its deadline no entry
gets through it any more, and its initiator cancels it. Then its token is free for the next
gap, with the entries it had. -/
structure Windows (engine : SettlementEngine) (o : StoreConfig σ) (s : ProjectionStore σ)
    (id : Bytes32) : Prop where
  inTime : ∀ now, now ≤ (s.settlement id).deadline → ∀ caller,
    ¬ Enabled engine o s (.cancel id caller now)
  late : ∀ now, (s.settlement id).deadline < now → ∀ call : ServiceCall o,
    ClosesInTime (s.settlement id).tokenId id now call → ¬ Enabled engine o s call
  cancels : ∀ now, (s.settlement id).deadline < now →
    let t := serveStep engine o s (.cancel id (s.settlement id).initiator now)
    Enabled engine o s (.cancel id (s.settlement id).initiator now) ∧
      t.openGapOf (s.settlement id).tokenId = zeroBytes32 ∧
      t.entries (s.settlement id).tokenId = s.entries (s.settlement id).tokenId ∧
      (t.settlement id).status = .cancelled

theorem Working.windows (h : s.Working) {id : Bytes32} (hopen : (s.settlement id).status = .open) :
    Windows engine o s id := by
  have hpointer := h.served.pointing hopen
  have hid := (h.served.begun_of_get hpointer).settlementId
  refine ⟨?_, ?_, ?_⟩
  · rintro now htime caller ⟨_, _, hlate⟩
    exact absurd htime (not_le.mpr hlate)
  · intro now hlate call hcall henabled
    cases call with
    | finalize id' candidate material now' verifierNow =>
        obtain ⟨rfl, rfl⟩ := hcall
        obtain ⟨c, _, hawaited⟩ := henabled
        exact absurd hawaited.inTime (not_le.mpr hlate)
    | post tokenRaw body now' verifierNow =>
        obtain ⟨htoken, rfl⟩ := hcall
        obtain ⟨tokenId, parsed, c, htoken', _, _, hgap⟩ := henabled
        rw [htoken] at htoken'
        cases htoken'
        have hgapOf := (openGapOf_eq_iff h.served.records hid).mpr ⟨hopen, rfl⟩
        rw [hgapOf] at hgap
        exact absurd (hgap.resolve_left hid).inTime (not_le.mpr hlate)
    | begin => exact hcall
    | cancel => exact hcall
    | direct => exact hcall
    | adapterMoves => exact hcall
  · intro now hlate t
    have henabled : Enabled engine o s (.cancel id (s.settlement id).initiator now) :=
      ⟨hopen, toLowerCase_of_isHexWord (h.served.begun_of_get hpointer).initiator, hlate⟩
    refine ⟨henabled, ?_⟩
    have heffect :
        ServiceEffect engine o s (.cancel id (s.settlement id).initiator now) t true := by
      rw [← (h.enabled _).mpr henabled]
      exact serve_effect engine h.served.valid _
    clear_value t
    cases heffect with
    | cancelled hcheck hwritable hpointed =>
        rw [hpointer] at hpointed
        cases hpointed
        refine ⟨?_, rfl, ?_⟩
        · simp [openGapOf, ProjectionStore.cancelled, clearGap]
        · simp [settlement, ProjectionStore.cancelled, clearGap]

/-- In every state the service reaches, the calls that are accepted are exactly the enabled
ones, and every open gap has its two windows: nothing can keep a gap open past its deadline
against its initiator. -/
theorem run_progress (engine : SettlementEngine) (o : StoreConfig σ) (adapter : σ)
    (journal : JournalContent) (calls : List (ServiceCall o)) :
    let s := LabelledRun.run (serveStep engine o) (initial adapter journal) calls
    (∀ call, mutated (serve engine o s call).2 = true ↔ Enabled engine o s call) ∧
      ∀ id, (s.settlement id).status = .open → Windows engine o s id := by
  intro s
  have h : s.Working := (Working.initial adapter journal).run calls
  exact ⟨h.enabled, fun id hopen => h.windows hopen⟩

end ProjectionStore

end Erc8415
