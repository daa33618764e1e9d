import Erc8415.Api.Admission
import Erc8415.Projection.GapRecords

/-! # One store behind the engine and the route

The calls that reach one shared store whose journal takes every append: the
three calls of the engine, the admission route, the store's own admission, and
whatever moves the adapter between them without touching an accepted height.
Each call is inverted once.
-/

namespace Erc8415

variable {σ : Type}

/-- A call on the service. Every clock reading is the caller's to choose. -/
inductive ServiceCall (o : StoreConfig σ) where
  | begin (request : BeginRequest) (now : Int)
  | finalize (settlementId : Bytes32) (candidate : JsValue) (material : ProofMaterial)
      (now verifierNow : Int)
  | cancel (settlementId : Bytes32) (caller : Address) (now : Int)
  | post (tokenRaw : String) (body : JsValue) (now verifierNow : Int)
  | direct (tokenId : Int) (candidate : JsValue) (material : ProofMaterial) (verifierNow : Int)
  | adapterMoves (move : σ → σ) (hmove : ∀ a tokenId,
      o.adapter.acceptedHeight (move a) tokenId = o.adapter.acceptedHeight a tokenId)

inductive ServiceAnswer where
  | settlement (record : Settlement)
  | admission (result : AdmissionResult)
  | response (response : ApiResponse)
  | moved

/-- Whether an answer reports a mutation. -/
def mutated : Except Thrown ServiceAnswer → Bool
  | .ok (.settlement _) => true
  | .ok (.admission _) => true
  | .ok (.response r) => r.status == 201
  | .ok .moved => false
  | .error _ => false

/-- The store after a call, and what the caller is answered. -/
def serve (engine : SettlementEngine) (o : StoreConfig σ) (s : ProjectionStore σ) :
    ServiceCall o → ProjectionStore σ × Except Thrown ServiceAnswer
  | .begin request now =>
      let done := engine.begin s request now none
      (done.1, done.2.map .settlement)
  | .finalize settlementId candidate material now verifierNow =>
      let done := SettlementEngine.finalize o s settlementId candidate material now verifierNow none
      (done.1, done.2.map .admission)
  | .cancel settlementId caller now =>
      let done := SettlementEngine.cancel s settlementId caller now none
      (done.1, done.2.map .settlement)
  | .post tokenRaw body now verifierNow =>
      let done := handleAdmission o s tokenRaw body now verifierNow none
      (done.1, done.2.map .response)
  | .direct tokenId candidate material verifierNow =>
      let done := s.admitEntry o tokenId candidate material verifierNow none
      (done.1, done.2.map .admission)
  | .adapterMoves move _ => ({ s with adapter := move s.adapter }, .ok .moved)

/-- The store after a call. -/
def serveStep (engine : SettlementEngine) (o : StoreConfig σ) (s : ProjectionStore σ)
    (call : ServiceCall o) : ProjectionStore σ := (serve engine o s call).1

/-! ## What passed a check -/

theorem assertSettlementAdmission_eq_ok {record : Settlement} {candidate : JsValue} {now : Int} :
    assertSettlementAdmission record candidate now = .ok () ↔
      record.status = .open ∧ now ≤ record.deadline ∧
      ∃ c, validateCandidateShape candidate = .ok c ∧
        toLowerCase c.holder = toLowerCase record.expectedHolder := by
  simp only [assertSettlementAdmission, bind_eq_ok, rejectIf_eq_ok, not_not, not_lt]
  constructor
  · rintro ⟨_, hopen, _, hdeadline, c, hshape, hholder⟩
    exact ⟨hopen, hdeadline, c, hshape, hholder⟩
  · rintro ⟨hopen, hdeadline, c, hshape, hholder⟩
    exact ⟨(), hopen, (), hdeadline, c, hshape, hholder⟩

/-- What a request to open a gap has to satisfy. -/
structure Begins (engine : SettlementEngine) (s : ProjectionStore σ) (request : BeginRequest)
    (now : Int) : Prop where
  settlementId : request.settlementId ≠ zeroBytes32
  settlementWord : isBytes32 request.settlementId = true
  snapshotWord : isBytes32 request.snapshotHash = true
  initiator : isAddress request.initiator = true
  expectedHolder : isAddress request.expectedHolder = true
  authority : engine.authority.isSettlementAuthority request.tokenId request.initiator = true
  none : (s.settlement request.settlementId).status = .none
  future : now < request.deadline
  period : request.deadline ≤ now + engine.settlementPeriod

theorem Begins.of_check {engine : SettlementEngine} {s : ProjectionStore σ}
    {request : BeginRequest} {now : Int} (h : engine.checkBegin s request now = .ok ()) :
    Begins engine s request now := by
  simp only [SettlementEngine.checkBegin, bind_eq_ok, rejectIf_eq_ok, not_not, not_or,
    Bool.not_eq_false, not_le, not_lt] at h
  obtain ⟨_, ⟨hword, hid⟩, _, ⟨hinitiator, hholder⟩, _, ⟨hsnapshot, _⟩, _, _, _, hauthority, _,
    hnone, _, hfuture, hperiod⟩ := h
  exact ⟨hid, hword, hsnapshot, hinitiator, hholder, hauthority, hnone, hfuture, by omega⟩

theorem hasExpired_eq_true {record : Settlement} {now : Int} :
    SettlementEngine.hasExpired record now = true ↔
      record.status = .open ∧ record.deadline < now := by
  simp [SettlementEngine.hasExpired]

theorem checkCancel_eq_ok {record : Settlement} {settlementId : Bytes32} {caller : Address}
    {now : Int} :
    SettlementEngine.checkCancel record settlementId caller now = .ok () ↔
      record.status = .open ∧ toLowerCase caller = toLowerCase record.initiator ∧
      record.deadline < now := by
  simp only [SettlementEngine.checkCancel, bind_eq_ok, rejectIf_eq_ok, not_not,
    Bool.not_eq_false, hasExpired_eq_true]
  constructor
  · rintro ⟨_, hopen, _, hcaller, _, hexpired⟩
    exact ⟨hopen, hcaller, hexpired⟩
  · rintro ⟨hopen, hcaller, hexpired⟩
    exact ⟨(), hopen, (), hcaller, hopen, hexpired⟩

/-! ## The effect of a call -/

namespace ProjectionStore

variable {engine : SettlementEngine} {o : StoreConfig σ} {s t : ProjectionStore σ}

/-- Everything a call can do, with whether it is answered as a mutation. -/
inductive ServiceEffect (engine : SettlementEngine) (o : StoreConfig σ) (s : ProjectionStore σ) :
    ServiceCall o → ProjectionStore σ → Bool → Prop
  | unchanged {call : ServiceCall o} : ServiceEffect engine o s call s false
  | moved (move : σ → σ) (hmove : ∀ a tokenId,
        o.adapter.acceptedHeight (move a) tokenId = o.adapter.acceptedHeight a tokenId) :
      ServiceEffect engine o s (.adapterMoves move hmove) { s with adapter := move s.adapter } false
  | begun {request : BeginRequest} {now : Int} (hbegins : Begins engine s request now)
      (hwritable : s.poisoned = none) (hfree : s.openGaps.get (key request.tokenId) = none) :
      ServiceEffect engine o s (.begin request now)
        (s.opened request.tokenId (SettlementEngine.BeginRequest.gap request now)) true
  | finalized {settlementId : Bytes32} {candidate : JsValue} {material : ProofMaterial}
      {now verifierNow : Int} {c : CandidateEntry} {adapter : σ}
      (hassert : assertSettlementAdmission (s.settlement settlementId) candidate now = .ok ())
      (hc : Accepted o s (s.settlement settlementId).tokenId candidate material verifierNow c)
      (hadvance : o.adapter.advanceHeight s.adapter (s.settlement settlementId).tokenId
        material.remoteHeight = .ok adapter) :
      ServiceEffect engine o s (.finalize settlementId candidate material now verifierNow)
        (s.admitted (s.settlement settlementId).tokenId c material.remoteHeight adapter) true
  | cancelled {settlementId pointed : Bytes32} {caller : Address} {now : Int}
      (hcheck : SettlementEngine.checkCancel (s.settlement settlementId) settlementId caller now =
        .ok ())
      (hwritable : s.poisoned = none)
      (hopen : s.openGaps.get (key (s.settlement settlementId).tokenId) = some pointed) :
      ServiceEffect engine o s (.cancel settlementId caller now)
        (s.cancelled (s.settlement settlementId).tokenId pointed) true
  | posted {tokenRaw : String} {body : JsValue} {now verifierNow tokenId : Int}
      {parsed : ParsedAdmission} {c : CandidateEntry} {adapter : σ}
      (htoken : parseUint256 tokenRaw = some tokenId) (hparsed : parseAdmission body = some parsed)
      (hassert : assertOpenGap s tokenId parsed.entry now = .ok ())
      (hc : Accepted o s tokenId parsed.entry parsed.proof verifierNow c)
      (hadvance : o.adapter.advanceHeight s.adapter tokenId parsed.proof.remoteHeight =
        .ok adapter) :
      ServiceEffect engine o s (.post tokenRaw body now verifierNow)
        (s.admitted tokenId c parsed.proof.remoteHeight adapter) true
  | direct {tokenId : Int} {candidate : JsValue} {material : ProofMaterial} {verifierNow : Int}
      {c : CandidateEntry} {adapter : σ}
      (hc : Accepted o s tokenId candidate material verifierNow c)
      (hadvance : o.adapter.advanceHeight s.adapter tokenId material.remoteHeight = .ok adapter) :
      ServiceEffect engine o s (.direct tokenId candidate material verifierNow)
        (s.admitted tokenId c material.remoteHeight adapter) true

theorem statusOf_ne_created (code : ProjectionErrorCode) : (statusOf code == 201) = false := by
  cases code <;> rfl

theorem begin_effect (request : BeginRequest) (now : Int) :
    ServiceEffect engine o s (.begin request now) (serve engine o s (.begin request now)).1
      (mutated (serve engine o s (.begin request now)).2) := by
  simp only [serve, SettlementEngine.begin]
  cases hcheck : engine.checkBegin s request now with
  | error e => exact .unchanged
  | ok u =>
      have heffect := openGap_effect (o := o) (s := s) request.tokenId
        (SettlementEngine.BeginRequest.gap request now) none
      simp only
      generalize s.openGap request.tokenId (SettlementEngine.BeginRequest.gap request now) none =
        done at heffect ⊢
      obtain ⟨after, answer⟩ := done
      simp only at heffect ⊢
      cases answer with
      | error thrown =>
          simp only [Except.map] at heffect ⊢
          cases heffect with
          | refused e hrefused => exact .unchanged
      | ok record =>
          simp only [Except.map] at heffect ⊢
          cases heffect with
          | opened hwritable hfree => exact .begun (.of_check hcheck) hwritable hfree

theorem finalize_effect (h : s.Valid) (settlementId : Bytes32) (candidate : JsValue)
    (material : ProofMaterial) (now verifierNow : Int) :
    ServiceEffect engine o s (.finalize settlementId candidate material now verifierNow)
      (serve engine o s (.finalize settlementId candidate material now verifierNow)).1
      (mutated
        (serve engine o s (.finalize settlementId candidate material now verifierNow)).2) := by
  simp only [serve, SettlementEngine.finalize]
  cases hassert : assertSettlementAdmission (s.settlement settlementId) candidate now with
  | error e => exact .unchanged
  | ok u =>
      simp only
      rcases admitEntry_none (o := o) h (s.settlement settlementId).tokenId candidate material
        verifierNow with ⟨e, _, heq⟩ | ⟨c, adapter, hc, hadvance, heq⟩
      · rw [heq]
        exact .unchanged
      · rw [heq]
        exact .finalized hassert hc hadvance

theorem cancel_effect (h : s.Valid) (settlementId : Bytes32) (caller : Address) (now : Int) :
    ServiceEffect engine o s (.cancel settlementId caller now)
      (serve engine o s (.cancel settlementId caller now)).1
      (mutated (serve engine o s (.cancel settlementId caller now)).2) := by
  simp only [serve, SettlementEngine.cancel]
  cases hcheck : SettlementEngine.checkCancel (s.settlement settlementId) settlementId caller
      now with
  | error e => exact .unchanged
  | ok u =>
      have heffect := cancelGap_effect (o := o) h (s.settlement settlementId).tokenId none
      simp only
      generalize s.cancelGap (s.settlement settlementId).tokenId none = done at heffect ⊢
      obtain ⟨after, answer⟩ := done
      simp only at heffect ⊢
      cases answer with
      | error thrown =>
          simp only [Except.map] at heffect ⊢
          cases heffect with
          | refused e hrefused => exact .unchanged
      | ok record =>
          simp only [Except.map] at heffect ⊢
          cases heffect with
          | cancelled hwritable hopen => exact .cancelled hcheck hwritable hopen

theorem post_effect (h : s.Valid) (tokenRaw : String) (body : JsValue) (now verifierNow : Int) :
    ServiceEffect engine o s (.post tokenRaw body now verifierNow)
      (serve engine o s (.post tokenRaw body now verifierNow)).1
      (mutated (serve engine o s (.post tokenRaw body now verifierNow)).2) := by
  simp only [serve, handleAdmission, admissionRoute]
  cases htoken : parseUint256 tokenRaw with
  | none => exact .unchanged
  | some tokenId =>
      cases hparsed : parseAdmission body with
      | none => exact .unchanged
      | some parsed =>
          cases hassert : assertOpenGap s tokenId parsed.entry now with
          | error e =>
              -- A refusal is answered with its own status, never that of a created entry.
              simp only [hassert, Except.map, mutated, errorResponse, statusOf_ne_created]
              exact .unchanged
          | ok u =>
              simp only [hassert]
              rcases admitEntry_none (o := o) h tokenId parsed.entry parsed.proof verifierNow with
                ⟨e, _, heq⟩ | ⟨c, adapter, hc, hadvance, heq⟩
              · simp only [heq, Except.map, mutated, errorResponse, statusOf_ne_created]
                exact .unchanged
              · simp only [heq, Except.map]
                exact .posted htoken hparsed hassert hc hadvance

theorem serve_effect (engine : SettlementEngine) (h : s.Valid) (call : ServiceCall o) :
    ServiceEffect engine o s call (serve engine o s call).1
      (mutated (serve engine o s call).2) := by
  cases call with
  | begin request now => exact begin_effect request now
  | finalize settlementId candidate material now verifierNow =>
      exact finalize_effect h settlementId candidate material now verifierNow
  | cancel settlementId caller now => exact cancel_effect h settlementId caller now
  | post tokenRaw body now verifierNow => exact post_effect h tokenRaw body now verifierNow
  | direct tokenId candidate material verifierNow =>
      simp only [serve]
      rcases admitEntry_none (o := o) h tokenId candidate material verifierNow with
        ⟨e, _, heq⟩ | ⟨c, adapter, hc, hadvance, heq⟩
      · rw [heq]
        exact .unchanged
      · rw [heq]
        exact .direct hc hadvance
  | adapterMoves move hmove => exact .moved move hmove

end ProjectionStore

end Erc8415
