import Erc8415.Foundation.Noninterference
import Erc8415.Projection.Atomicity
import Erc8415.Proof.Profiles
import Erc8415.Settlement.StateMachine

/-! # Tokens are independent

One store serves every token of a register. What it holds for a token is its
projection, its gap, its settlements in the order they were opened, and the
height it has accepted; beside that every token shares the finalized frontier
and the roots of the chain. Where settlement ids are not shared between tokens,
a call about one token touches nothing another one has, so a token cannot tell
how its calls were interleaved with those of other tokens.
-/

namespace Erc8415

variable {σ : Type}

/-- A verifier that reads no more of an adapter than the frontier and the roots. -/
def ReadsChain (o : StoreConfig σ) : Prop :=
  ∀ a b : σ, o.adapter.isFinalized a = o.adapter.isFinalized b →
    o.adapter.stateRootAt a = o.adapter.stateRootAt b →
      o.profile.verify a = o.profile.verify b

/-- The profiles of the kit read the roots alone. -/
theorem KitProfile.readsChain (profile : KitProfile) {o : StoreConfig σ}
    (hprofile : o.profile = profile.withAdapter o.adapter) : ReadsChain o := by
  intro a b _ hroots
  funext now material context
  rw [hprofile]
  simp only [withAdapter, hroots]

/-! ## What is a token's -/

/-- What a store holds for a token, with what all tokens share. -/
structure TokenView where
  projection : Option TokenProjection
  gap : Option Bytes32
  settlements : InsertionMap Bytes32 Settlement
  acceptedHeight : Int
  isFinalized : Int → Bool
  stateRootAt : Int → Option String
  poisoned : Option String

namespace TokenView

/-- A settlement of the token, as the store reads it. -/
def settlement (v : TokenView) (settlementId : Bytes32) : Settlement :=
  (v.settlements.get settlementId).getD (ProjectionStore.unknownSettlement settlementId)

/-- After an entry was admitted at a height. -/
def admitted (v : TokenView) (c : CandidateEntry) (height : Int) : TokenView :=
  { v with
    projection := some ((v.projection.getD .empty).append c)
    gap := none
    settlements :=
      match v.gap with
      | none => v.settlements
      | some id => v.settlements.set id { v.settlement id with status := .admitted }
    acceptedHeight := height }

/-- After a gap was opened. -/
def opened (v : TokenView) (record : Settlement) : TokenView :=
  { v with
    gap := some record.settlementId
    settlements := v.settlements.set record.settlementId record }

/-- After the gap was cancelled. -/
def cancelled (v : TokenView) (settlementId : Bytes32) : TokenView :=
  { v with
    gap := none
    settlements := v.settlements.set settlementId
      { v.settlement settlementId with status := .cancelled } }

end TokenView

/-- Whether a call is about a token, where a settlement id says whose it is. The adapter is
everyone's. -/
def concernsToken {o : StoreConfig σ} (owner : Bytes32 → Int) (tokenId : Int) :
    ServiceCall o → Bool
  | .begin request _ => request.tokenId = tokenId
  | .finalize settlementId .. => owner settlementId = tokenId
  | .cancel settlementId .. => owner settlementId = tokenId
  | .post tokenRaw .. => parseUint256 tokenRaw = some tokenId
  | .direct token .. => token = tokenId
  | .adapterMoves .. => true

/-- A gap is opened under an id of its token, and the adapter moves by the chain alone: two
adapters with one frontier and the same roots are moved to such adapters again. -/
def Tidy {o : StoreConfig σ} (owner : Bytes32 → Int) : ServiceCall o → Prop
  | .begin request _ => owner request.settlementId = request.tokenId
  | .adapterMoves move _ => ∀ a b, o.adapter.isFinalized a = o.adapter.isFinalized b →
      o.adapter.stateRootAt a = o.adapter.stateRootAt b →
        o.adapter.isFinalized (move a) = o.adapter.isFinalized (move b) ∧
          o.adapter.stateRootAt (move a) = o.adapter.stateRootAt (move b)
  | _ => True

namespace ProjectionStore

variable {engine : SettlementEngine} {o : StoreConfig σ} {owner : Bytes32 → Int} {tokenId : Int}
  {s t : ProjectionStore σ}

/-- The ids of a token. -/
def ownedBy (owner : Bytes32 → Int) (tokenId : Int) (settlementId : Bytes32) : Bool :=
  owner settlementId = tokenId

/-- What a store holds for a token. -/
def view (o : StoreConfig σ) (owner : Bytes32 → Int) (tokenId : Int) (s : ProjectionStore σ) :
    TokenView where
  projection := s.projections.get (key tokenId)
  gap := s.openGaps.get (key tokenId)
  settlements := s.settlements.restrict (ownedBy owner tokenId)
  acceptedHeight := o.adapter.acceptedHeight s.adapter tokenId
  isFinalized := o.adapter.isFinalized s.adapter
  stateRootAt := o.adapter.stateRootAt s.adapter
  poisoned := s.poisoned

/-- The states of a service in which every settlement is its owner's. -/
structure Owned (owner : Bytes32 → Int) (s : ProjectionStore σ) : Prop where
  served : s.Served
  owned : ∀ id r, s.settlements.get id = some r → r.tokenId = owner id

theorem Owned.initial (owner : Bytes32 → Int) (adapter : σ) (journal : JournalContent) :
    (initial adapter journal).Owned owner where
  served := .initial adapter journal
  owned := by simp [ProjectionStore.initial]

/-- A pointer names a settlement of its token. -/
theorem Owned.pointer (h : s.Owned owner) {id : Bytes32}
    (hopen : s.openGaps.get (key tokenId) = some id) : owner id = tokenId := by
  obtain ⟨hget, _, _, hkey⟩ := pointed_settlement h.served.records hopen
  rw [← h.owned id _ hget]
  exact (key_inj.mp hkey).symm

/-- A settlement that was begun is its owner's. -/
theorem Owned.settlement (h : s.Owned owner) {id : Bytes32}
    (hopen : (s.settlement id).status = .open) : (s.settlement id).tokenId = owner id :=
  h.owned id _ (get_of_status (by rw [hopen]; nofun))

/-! ## Reading a token's part -/

theorem view_settlement {id : Bytes32} (hid : owner id = tokenId) :
    (s.view o owner tokenId).settlement id = s.settlement id := by
  have hkeep : ownedBy owner tokenId id = true := decide_eq_true hid
  simp only [TokenView.settlement, view, InsertionMap.get_restrict hkeep, settlement]

section Congr

variable (hview : s.view o owner tokenId = t.view o owner tokenId)
include hview

theorem projections_congr :
    s.projections.get (key tokenId) = t.projections.get (key tokenId) :=
  congrArg TokenView.projection hview

theorem openGaps_congr : s.openGaps.get (key tokenId) = t.openGaps.get (key tokenId) :=
  congrArg TokenView.gap hview

theorem acceptedHeight_congr :
    o.adapter.acceptedHeight s.adapter tokenId = o.adapter.acceptedHeight t.adapter tokenId :=
  congrArg TokenView.acceptedHeight hview

theorem isFinalized_congr : o.adapter.isFinalized s.adapter = o.adapter.isFinalized t.adapter :=
  congrArg TokenView.isFinalized hview

theorem stateRootAt_congr : o.adapter.stateRootAt s.adapter = o.adapter.stateRootAt t.adapter :=
  congrArg TokenView.stateRootAt hview

theorem poisoned_congr : s.poisoned = t.poisoned := congrArg TokenView.poisoned hview

theorem settlement_congr {id : Bytes32} (hid : owner id = tokenId) :
    s.settlement id = t.settlement id := by
  rw [← view_settlement (o := o) hid, hview, view_settlement hid]

theorem openGapOf_congr : s.openGapOf tokenId = t.openGapOf tokenId := by
  rw [openGapOf, openGaps_congr hview, openGapOf]

theorem projectionOf_congr : s.projectionOf tokenId = t.projectionOf tokenId := by
  rw [projectionOf, projections_congr hview, projectionOf]

theorem entries_congr : s.entries tokenId = t.entries tokenId := by
  unfold entries
  rw [projections_congr hview]

theorem assertWritable_congr : s.assertWritable = t.assertWritable := by
  unfold assertWritable
  rw [poisoned_congr hview]

/-- The proof profile is asked about the same binding. -/
theorem proofContext_congr (hs : s.Owned owner) (candidate : CandidateEntry) :
    s.proofContext o tokenId candidate = t.proofContext o tokenId candidate := by
  unfold proofContext priorCommitment
  rw [openGapOf_congr hview, projections_congr hview, acceptedHeight_congr hview]
  cases hopen : s.openGaps.get (key tokenId) with
  | none =>
      rw [openGaps_congr hview] at hopen
      rw [hopen]
  | some id =>
      have hsettlement := settlement_congr hview (hs.pointer hopen)
      rw [openGaps_congr hview] at hopen
      rw [hopen]
      simp only [hsettlement]

theorem checkProof_congr (hs : s.Owned owner) (hreads : ReadsChain o) (candidate : CandidateEntry)
    (material : ProofMaterial) (now : Int) :
    s.checkProof o tokenId candidate material now =
      t.checkProof o tokenId candidate material now := by
  unfold checkProof
  rw [isFinalized_congr hview, acceptedHeight_congr hview, proofContext_congr hview hs]
  cases hprofile : resolveProfile o material.profile with
  | error e => rfl
  | ok profile =>
      obtain ⟨_, rfl⟩ := resolveProfile_eq_ok.mp hprofile
      have hverify := hreads _ _ (isFinalized_congr hview) (stateRootAt_congr hview)
      simp only [bind, Except.bind, hverify]

theorem checkAdmission_congr (hs : s.Owned owner) (hreads : ReadsChain o) (candidate : JsValue)
    (material : ProofMaterial) (now : Int) :
    s.checkAdmission o tokenId candidate material now =
      t.checkAdmission o tokenId candidate material now := by
  unfold checkAdmission
  rw [assertWritable_congr hview, projectionOf_congr hview]
  simp only [checkProof_congr hview hs hreads]

end Congr

/-! ## Writing a token's part -/

/-- What an admission adds to the pointed settlements of the map. -/
theorem view_admitted_self (hs : s.Owned owner) {c : CandidateEntry} {height : Int} {adapter : σ}
    (hheight : o.adapter.acceptedHeight adapter tokenId = height)
    (hframe : o.adapter.isFinalized adapter = o.adapter.isFinalized s.adapter ∧
      o.adapter.stateRootAt adapter = o.adapter.stateRootAt s.adapter) :
    (s.admitted tokenId c height adapter).view o owner tokenId =
      (s.view o owner tokenId).admitted c height := by
  have hsettlements : (s.entered tokenId c adapter).settlements.restrict (ownedBy owner tokenId) =
      match s.openGaps.get (key tokenId) with
      | none => s.settlements.restrict (ownedBy owner tokenId)
      | some id => (s.settlements.restrict (ownedBy owner tokenId)).set id
          { (s.view o owner tokenId).settlement id with status := .admitted } := by
    rw [entered_settlements]
    cases hopen : s.openGaps.get (key tokenId) with
    | none => rfl
    | some id =>
        have hid := hs.pointer hopen
        have hkeep : ownedBy owner tokenId id = true := decide_eq_true hid
        dsimp only
        rw [InsertionMap.restrict_set_of_keep hkeep, view_settlement hid]
  simp only [view, TokenView.admitted, ProjectionStore.admitted, entered_projections,
    InsertionMap.get_set_self, entered_openGaps_get, if_true, entered_adapter, hheight, hframe.1,
    hframe.2, entered_poisoned, projectionOf, hsettlements]

theorem view_opened_self (gap : GapRequest) (hid : owner gap.settlementId = tokenId) :
    (s.opened tokenId gap).view o owner tokenId =
      (s.view o owner tokenId).opened (gap.opened tokenId) := by
  have hkeep : ownedBy owner tokenId (gap.opened tokenId).settlementId = true :=
    decide_eq_true hid
  simp only [view, TokenView.opened, ProjectionStore.opened, setGap, InsertionMap.get_set_self,
    InsertionMap.restrict_set_of_keep hkeep]

theorem view_cancelled_self {id : Bytes32} (hid : owner id = tokenId) :
    (s.cancelled tokenId id).view o owner tokenId =
      (s.view o owner tokenId).cancelled id := by
  have hkeep : ownedBy owner tokenId id = true := decide_eq_true hid
  rw [TokenView.cancelled, view_settlement hid]
  simp only [view, ProjectionStore.cancelled, clearGap, InsertionMap.get_delete_self,
    InsertionMap.restrict_set_of_keep hkeep]

section Other

variable {other : Int} (hne : other ≠ tokenId)
include hne

theorem key_ne : key other ≠ key tokenId := fun heq => hne (key_inj.mp heq)

theorem view_admitted_of_ne (hs : s.Owned owner) {c : CandidateEntry} {height : Int} {adapter : σ}
    (hheight : o.adapter.acceptedHeight adapter tokenId =
      o.adapter.acceptedHeight s.adapter tokenId)
    (hframe : o.adapter.isFinalized adapter = o.adapter.isFinalized s.adapter ∧
      o.adapter.stateRootAt adapter = o.adapter.stateRootAt s.adapter) :
    (s.admitted other c height adapter).view o owner tokenId = s.view o owner tokenId := by
  have hsettlements : (s.entered other c adapter).settlements.restrict (ownedBy owner tokenId) =
      s.settlements.restrict (ownedBy owner tokenId) := by
    rw [entered_settlements]
    cases hopen : s.openGaps.get (key other) with
    | none => rfl
    | some id =>
        have hid := hs.pointer hopen
        exact InsertionMap.restrict_set_of_not_keep (decide_eq_false (hid ▸ hne))
  simp only [view, ProjectionStore.admitted, entered_projections,
    InsertionMap.get_set_of_ne (key_ne hne), entered_openGaps_get, key_ne hne, if_false,
    entered_adapter, hheight, hframe.1, hframe.2, entered_poisoned, hsettlements]

theorem view_opened_of_ne {gap : GapRequest} (hid : owner gap.settlementId = other) :
    (s.opened other gap).view o owner tokenId = s.view o owner tokenId := by
  have hkeep : ownedBy owner tokenId (gap.opened other).settlementId = false :=
    decide_eq_false (hid ▸ hne)
  simp only [view, ProjectionStore.opened, setGap, InsertionMap.get_set_of_ne (key_ne hne),
    InsertionMap.restrict_set_of_not_keep hkeep]

theorem view_cancelled_of_ne {id : Bytes32} (hid : owner id = other) :
    (s.cancelled other id).view o owner tokenId = s.view o owner tokenId := by
  have hkeep : ownedBy owner tokenId id = false := decide_eq_false (hid ▸ hne)
  simp only [view, ProjectionStore.cancelled, clearGap, InsertionMap.get_delete_of_ne (key_ne hne),
    InsertionMap.restrict_set_of_not_keep hkeep]

end Other

/-! ## One call -/

/-- An accepted height is all of an adapter that an admission of a token moves. -/
theorem Accepted.frame {argument : JsValue} {material : ProofMaterial} {now : Int}
    {c : CandidateEntry} {other : Int} (hc : Accepted o s other argument material now c)
    {adapter : σ}
    (hadvance : o.adapter.advanceHeight s.adapter other material.remoteHeight = .ok adapter)
    (hne : other ≠ tokenId) :
    o.adapter.acceptedHeight adapter tokenId = o.adapter.acceptedHeight s.adapter tokenId := by
  rw [hc.heights hadvance, if_neg hne.symm]

/-- A call about another token leaves what a token has. -/
theorem Owned.unconcerned (hs : s.Owned owner) {call : ServiceCall o} (htidy : Tidy owner call)
    (hcall : concernsToken owner tokenId call = false) :
    (serveStep engine o s call).view o owner tokenId = s.view o owner tokenId := by
  have heffect := serve_effect engine hs.served.valid call
  unfold serveStep
  generalize (serve engine o s call).1 = after at heffect ⊢
  generalize mutated (serve engine o s call).2 = answered at heffect
  cases heffect with
  | unchanged => rfl
  | moved move hmove => cases hcall
  | begun hbegins hwritable hfree => exact view_opened_of_ne (of_decide_eq_false hcall) htidy
  | @finalized id candidate material now verifierNow c adapter hassert hc hadvance =>
      have hopen := (assertSettlementAdmission_eq_ok.mp hassert).1
      have hne : (s.settlement id).tokenId ≠ tokenId := by
        rw [hs.settlement hopen]
        exact of_decide_eq_false hcall
      exact view_admitted_of_ne hne hs (hc.frame hadvance hne)
        (o.adapter.advance_frame _ _ _ _ hadvance)
  | @cancelled id pointed caller now hcheck hwritable hpointed =>
      have hopen := (checkCancel_eq_ok.mp hcheck).1
      have hne : (s.settlement id).tokenId ≠ tokenId := by
        rw [hs.settlement hopen]
        exact of_decide_eq_false hcall
      exact view_cancelled_of_ne hne (hs.pointer hpointed)
  | posted htoken hparsed hassert hc hadvance =>
      have hne := of_decide_eq_false hcall
      rw [htoken, Option.some.injEq] at hne
      exact view_admitted_of_ne hne hs (hc.frame hadvance hne)
        (o.adapter.advance_frame _ _ _ _ hadvance)
  | direct hc hadvance =>
      have hne := of_decide_eq_false hcall
      exact view_admitted_of_ne hne hs (hc.frame hadvance hne)
        (o.adapter.advance_frame _ _ _ _ hadvance)

section Consistent

variable (hs : s.Owned owner) (ht : t.Owned owner)
  (hview : s.view o owner tokenId = t.view o owner tokenId)

include hs ht hview in
/-- An admission of the token does the same to what two stores hold for it. -/
theorem admitEntry_congr (hreads : ReadsChain o) (candidate : JsValue) (material : ProofMaterial)
    (now : Int) :
    (s.admitEntry o tokenId candidate material now none).1.view o owner tokenId =
        (t.admitEntry o tokenId candidate material now none).1.view o owner tokenId ∧
      (s.admitEntry o tokenId candidate material now none).2 =
        (t.admitEntry o tokenId candidate material now none).2 := by
  have hcheck := checkAdmission_congr hview hs hreads candidate material now
  cases hchecked : s.checkAdmission o tokenId candidate material now with
  | error e =>
      have hchecked' := hcheck.symm.trans hchecked
      unfold admitEntry
      rw [hchecked, hchecked']
      exact ⟨hview, rfl⟩
  | ok result =>
      obtain ⟨c, hc, _⟩ := (checkAdmission_eq_ok hs.served.valid).mp hchecked
      obtain ⟨c', hc', _⟩ := (checkAdmission_eq_ok ht.served.valid).mp (hcheck.symm.trans hchecked)
      obtain rfl : c' = c := Except.ok.inj (hc'.shape.symm.trans hc.shape)
      obtain ⟨adapter, hadvance, hadmission⟩ := hs.served.valid.admitEntry_of_accepted hc
      obtain ⟨adapter', hadvance', hadmission'⟩ := ht.served.valid.admitEntry_of_accepted hc'
      have hheight := (hc.heights hadvance tokenId).trans (if_pos rfl)
      have hheight' := (hc'.heights hadvance' tokenId).trans (if_pos rfl)
      rw [hadmission, hadmission']
      refine ⟨?_, ?_⟩
      · dsimp only
        rw [view_admitted_self hs hheight (o.adapter.advance_frame _ _ _ _ hadvance),
          view_admitted_self ht hheight' (o.adapter.advance_frame _ _ _ _ hadvance'), hview]
      · simp only [admissionResult, InsertionMap.has, openGaps_congr hview]

include hview in
theorem begin_congr {request : BeginRequest} (hrequest : request.tokenId = tokenId)
    (htidy : owner request.settlementId = request.tokenId) (now : Int) :
    (engine.begin s request now none).1.view o owner tokenId =
        (engine.begin t request now none).1.view o owner tokenId ∧
      (engine.begin s request now none).2 = (engine.begin t request now none).2 := by
  subst hrequest
  have hcheck : engine.checkBegin s request now = engine.checkBegin t request now := by
    unfold SettlementEngine.checkBegin
    rw [settlement_congr hview htidy]
  unfold SettlementEngine.begin openGap
  rw [hcheck, assertWritable_congr hview]
  cases engine.checkBegin t request now with
  | error e => exact ⟨hview, rfl⟩
  | ok u =>
      cases t.assertWritable with
      | error e => exact ⟨hview, rfl⟩
      | ok u =>
          have hhas : s.openGaps.has (key request.tokenId) =
              t.openGaps.has (key request.tokenId) := by
            rw [InsertionMap.has, openGaps_congr hview, InsertionMap.has]
          dsimp only
          rw [hhas]
          cases t.openGaps.has (key request.tokenId) with
          | true => exact ⟨hview, rfl⟩
          | false =>
              refine ⟨?_, rfl⟩
              have hs' := view_opened_self (o := o) (s := s)
                (SettlementEngine.BeginRequest.gap request now) htidy
              have ht' := view_opened_self (o := o) (s := t)
                (SettlementEngine.BeginRequest.gap request now) htidy
              rw [hview] at hs'
              exact hs'.trans ht'.symm

include ht hview in
theorem cancelGap_congr :
    (s.cancelGap tokenId none).1.view o owner tokenId =
        (t.cancelGap tokenId none).1.view o owner tokenId ∧
      (s.cancelGap tokenId none).2 = (t.cancelGap tokenId none).2 := by
  unfold cancelGap
  rw [assertWritable_congr hview, openGaps_congr hview]
  cases t.assertWritable with
  | error e => exact ⟨hview, rfl⟩
  | ok u =>
      cases hpointed : t.openGaps.get (key tokenId) with
      | none => exact ⟨hview, rfl⟩
      | some pointed =>
          have howner := ht.pointer hpointed
          have hs' := view_cancelled_self (o := o) (s := s) howner
          have ht' := view_cancelled_self (o := o) (s := t) howner
          rw [hview] at hs'
          refine ⟨hs'.trans ht'.symm, ?_⟩
          exact congrArg
            (fun r : Settlement => (.ok { r with status := .cancelled } : Except Thrown Settlement))
            (settlement_congr hview howner)

include hs ht hview in
theorem cancel_congr {settlementId : Bytes32} (hid : owner settlementId = tokenId)
    (caller : Address) (now : Int) :
    (SettlementEngine.cancel s settlementId caller now none).1.view o owner tokenId =
        (SettlementEngine.cancel t settlementId caller now none).1.view o owner tokenId ∧
      (SettlementEngine.cancel s settlementId caller now none).2 =
        (SettlementEngine.cancel t settlementId caller now none).2 := by
  have hsettlement := settlement_congr hview hid
  simp only [SettlementEngine.cancel, ← hsettlement]
  cases hcheck : SettlementEngine.checkCancel (s.settlement settlementId) settlementId caller
      now with
  | error e => exact ⟨hview, rfl⟩
  | ok u =>
      have hopen := (checkCancel_eq_ok.mp hcheck).1
      rw [(hs.settlement hopen).trans hid]
      exact cancelGap_congr ht hview

include hs ht hview in
theorem finalize_congr (hreads : ReadsChain o) {settlementId : Bytes32}
    (hid : owner settlementId = tokenId) (candidate : JsValue) (material : ProofMaterial)
    (now verifierNow : Int) :
    let done := SettlementEngine.finalize o s settlementId candidate material now verifierNow none
    let done' := SettlementEngine.finalize o t settlementId candidate material now verifierNow none
    done.1.view o owner tokenId = done'.1.view o owner tokenId ∧ done.2 = done'.2 := by
  have hsettlement := settlement_congr hview hid
  simp only [SettlementEngine.finalize, ← hsettlement]
  cases hassert : assertSettlementAdmission (s.settlement settlementId) candidate now with
  | error e => exact ⟨hview, rfl⟩
  | ok u =>
      have hopen := (assertSettlementAdmission_eq_ok.mp hassert).1
      rw [(hs.settlement hopen).trans hid]
      exact admitEntry_congr hs ht hview hreads candidate material verifierNow

include hs ht hview in
theorem handleAdmission_congr (hreads : ReadsChain o) {tokenRaw : String}
    (htoken : parseUint256 tokenRaw = some tokenId) (body : JsValue) (now verifierNow : Int) :
    (handleAdmission o s tokenRaw body now verifierNow none).1.view o owner tokenId =
        (handleAdmission o t tokenRaw body now verifierNow none).1.view o owner tokenId ∧
      (handleAdmission o s tokenRaw body now verifierNow none).2 =
        (handleAdmission o t tokenRaw body now verifierNow none).2 := by
  unfold handleAdmission admissionRoute
  rw [htoken]
  cases parseAdmission body with
  | none => exact ⟨hview, rfl⟩
  | some parsed =>
      have hassert : assertOpenGap s tokenId parsed.entry now =
          assertOpenGap t tokenId parsed.entry now := by
        unfold assertOpenGap
        rw [openGapOf_congr hview]
        cases hopen : t.openGaps.get (key tokenId) with
        | none => simp [openGapOf, hopen, noGap]
        | some id =>
            simp only [openGapOf, hopen, Option.getD_some,
              settlement_congr hview (ht.pointer hopen)]
      dsimp only
      rw [hassert]
      cases assertOpenGap t tokenId parsed.entry now with
      | error e => exact ⟨hview, rfl⟩
      | ok u =>
          obtain ⟨hafter, hanswer⟩ :=
            admitEntry_congr hs ht hview hreads parsed.entry parsed.proof verifierNow
          dsimp only
          rw [hanswer]
          cases (t.admitEntry o tokenId parsed.entry parsed.proof verifierNow none).2 with
          | ok result => exact ⟨hafter, rfl⟩
          | error thrown =>
              cases thrown with
              | rejection e => exact ⟨hafter, rfl⟩
              | error message => exact ⟨hafter, rfl⟩

end Consistent

/-- A call about the token does the same to what two stores hold for it, and is answered the
same. -/
theorem Owned.consistent (engine : SettlementEngine) (hs : s.Owned owner) (ht : t.Owned owner)
    (hreads : ReadsChain o) (hview : s.view o owner tokenId = t.view o owner tokenId)
    {call : ServiceCall o} (htidy : Tidy owner call)
    (hcall : concernsToken owner tokenId call = true) :
    (serveStep engine o s call).view o owner tokenId =
        (serveStep engine o t call).view o owner tokenId ∧
      (serve engine o s call).2 = (serve engine o t call).2 := by
  cases call with
  | begin request now =>
      obtain ⟨hafter, hanswer⟩ :=
        begin_congr hview (of_decide_eq_true hcall) htidy now
      exact ⟨hafter, congrArg (Except.map _) hanswer⟩
  | finalize settlementId candidate material now verifierNow =>
      obtain ⟨hafter, hanswer⟩ := finalize_congr hs ht hview hreads (of_decide_eq_true hcall)
        candidate material now verifierNow
      exact ⟨hafter, congrArg (Except.map _) hanswer⟩
  | cancel settlementId caller now =>
      obtain ⟨hafter, hanswer⟩ := cancel_congr hs ht hview (of_decide_eq_true hcall) caller now
      exact ⟨hafter, congrArg (Except.map _) hanswer⟩
  | post tokenRaw body now verifierNow =>
      obtain ⟨hafter, hanswer⟩ := handleAdmission_congr hs ht hview hreads
        (of_decide_eq_true hcall) body now verifierNow
      exact ⟨hafter, congrArg (Except.map _) hanswer⟩
  | direct token candidate material verifierNow =>
      obtain rfl : token = tokenId := of_decide_eq_true hcall
      obtain ⟨hafter, hanswer⟩ := admitEntry_congr hs ht hview hreads candidate material verifierNow
      exact ⟨hafter, congrArg (Except.map _) hanswer⟩
  | adapterMoves move hmove =>
      refine ⟨?_, rfl⟩
      obtain ⟨hfinalized, hroots⟩ :=
        htidy s.adapter t.adapter (isFinalized_congr hview) (stateRootAt_congr hview)
      have hheight := acceptedHeight_congr hview
      have hsettlements := congrArg TokenView.settlements hview
      simp only [view] at hsettlements
      simp only [serveStep, serve, view, hfinalized, hroots, hmove, hheight,
        projections_congr hview, openGaps_congr hview, poisoned_congr hview, hsettlements]

/-- Every tidy call keeps every settlement its owner's. -/
theorem Owned.step (hs : s.Owned owner) {call : ServiceCall o} (htidy : Tidy owner call) :
    (serveStep engine o s call).Owned owner := by
  refine ⟨hs.served.step call, ?_⟩
  have heffect := serve_effect engine hs.served.valid call
  unfold serveStep
  generalize (serve engine o s call).1 = after at heffect ⊢
  generalize mutated (serve engine o s call).2 = answered at heffect
  have hentered : ∀ (written : Int) (c : CandidateEntry) (adapter : σ) id r,
      (s.entered written c adapter).settlements.get id = some r → r.tokenId = owner id := by
    intro written c adapter
    rw [entered_settlements]
    cases hopen : s.openGaps.get (key written) with
    | none => exact hs.owned
    | some id =>
        have howned := hs.owned id _ (pointed_settlement hs.served.records hopen).1
        exact InsertionMap.forall_set hs.owned howned
  cases heffect with
  | unchanged => exact hs.owned
  | moved move hmove => exact hs.owned
  | begun hbegins hwritable hfree => exact InsertionMap.forall_set hs.owned htidy.symm
  | finalized hassert hc hadvance => exact hentered _ _ _
  | cancelled hcheck hwritable hopen =>
      have howned := hs.owned _ _ (pointed_settlement hs.served.records hopen).1
      exact InsertionMap.forall_set hs.owned howned
  | posted htoken hparsed hassert hc hadvance => exact hentered _ _ _
  | direct hc hadvance => exact hentered _ _ _

/-! ## Every run -/

open Noninterference in
/-- What a store holds for a token is a slice of the service. -/
theorem sliced (engine : SettlementEngine) (hreads : ReadsChain o) (owner : Bytes32 → Int)
    (tokenId : Int) :
    Sliced (serveStep engine o) (fun s call => (serve engine o s call).2) (Owned owner)
      (Tidy owner) (concernsToken owner tokenId) (view o owner tokenId) where
  keeps _ _ hs htidy := hs.step htidy
  unconcerned _ _ hs htidy hcall := hs.unconcerned htidy hcall
  consistent _ _ _ hs ht htidy hcall hview := (hs.consistent engine ht hreads hview htidy hcall).1
  outputs_eq _ _ _ hs ht htidy hcall hview :=
    (hs.consistent engine ht hreads hview htidy hcall).2

/-- The settlements recorded for a token are its part of the map. -/
theorem Owned.settlementsFor (hs : s.Owned owner) (tokenId : Int) :
    s.settlementsFor tokenId =
      (s.settlements.restrict (ownedBy owner tokenId)).values.mergeSort
        fun a b => a.openedAt ≤ b.openedAt := by
  have hvalues : (s.settlements.values.filter fun record => record.tokenId = tokenId) =
      (s.settlements.restrict (ownedBy owner tokenId)).values := by
    rw [InsertionMap.values, InsertionMap.values, InsertionMap.restrict, List.filter_map]
    apply congrArg
    apply List.filter_congr
    intro pair hpair
    have hget := (InsertionMap.lookup_eq_some_iff _ _ _ s.settlements.nodup).mpr hpair
    rw [Function.comp, hs.owned pair.1 pair.2 hget, ownedBy]
  rw [ProjectionStore.settlementsFor, hvalues]

/-- Two runs that agree on the calls about a token agree on the token, whatever calls about other
tokens they hold and wherever these stand: its entries and their answers at every instant, its
gap, its settlements, the height accepted for it, and what each of its calls is answered. -/
theorem tokens_independent (engine : SettlementEngine) (o : StoreConfig σ) (profile : KitProfile)
    (hprofile : o.profile = profile.withAdapter o.adapter) (owner : Bytes32 → Int) (tokenId : Int)
    (adapter : σ) (journal : JournalContent) (calls calls' : List (ServiceCall o))
    (hcalls : ∀ call ∈ calls, Tidy owner call) (hcalls' : ∀ call ∈ calls', Tidy owner call)
    (hsame : calls.filter (concernsToken owner tokenId) =
      calls'.filter (concernsToken owner tokenId)) :
    let s := LabelledRun.run (serveStep engine o) (initial adapter journal) calls
    let t := LabelledRun.run (serveStep engine o) (initial adapter journal) calls'
    s.entries tokenId = t.entries tokenId ∧
      (∀ instant, s.entryAsOf tokenId instant = t.entryAsOf tokenId instant ∧
        s.isFinalAsOf tokenId instant = t.isFinalAsOf tokenId instant) ∧
      s.openGapOf tokenId = t.openGapOf tokenId ∧
      s.settlementsFor tokenId = t.settlementsFor tokenId ∧
      o.adapter.acceptedHeight s.adapter tokenId = o.adapter.acceptedHeight t.adapter tokenId ∧
      Noninterference.outputs (serveStep engine o) (fun s call => (serve engine o s call).2)
          (fun _ call => concernsToken owner tokenId call) (initial adapter journal) calls =
        Noninterference.outputs (serveStep engine o) (fun s call => (serve engine o s call).2)
          (fun _ call => concernsToken owner tokenId call) (initial adapter journal) calls' := by
  intro s t
  have hinitial := Owned.initial owner adapter journal
  have hsliced := sliced engine (profile.readsChain hprofile) owner tokenId
  have hkeeps : ∀ labels : List (ServiceCall o), (∀ call ∈ labels, Tidy owner call) →
      (LabelledRun.run (serveStep engine o) (initial adapter journal) labels).Owned owner := by
    intro labels
    refine List.reverseRecOn labels (fun _ => hinitial) ?_
    intro rest call ih hall
    rw [LabelledRun.run_concat]
    exact (ih fun c hc => hall c (List.mem_append_left _ hc)).step
      (hall call (List.mem_append_right _ List.mem_cons_self))
  have hs : s.Owned owner := hkeeps calls hcalls
  have ht : t.Owned owner := hkeeps calls' hcalls'
  obtain ⟨hview, hanswers⟩ := hsliced.run_congr hinitial hinitial rfl hcalls hcalls' hsame
  change s.view o owner tokenId = t.view o owner tokenId at hview
  refine ⟨entries_congr hview, ?_, openGapOf_congr hview, ?_, acceptedHeight_congr hview, hanswers⟩
  · intro instant
    unfold entryAsOf ask requireProjection isFinalAsOf
    rw [projections_congr hview]
    exact ⟨rfl, rfl⟩
  · have hsettlements := congrArg TokenView.settlements hview
    simp only [view] at hsettlements
    rw [hs.settlementsFor, ht.settlementsFor, hsettlements]

/-! ### Two tokens -/

section TwoTokens

def merkleConfig : StoreConfig MemoryChain :=
  ⟨word '7', word '8', KitProfile.merkle.withAdapter (MemoryChain.adapter {}),
    MemoryChain.adapter {}⟩

def oneOwner (settlementId : Bytes32) : Int := if settlementId = word '9' then 2 else 1

/-- A gap on one token, between the opening and the cancellation of one on another. -/
def twoTokens : List (ServiceCall merkleConfig) :=
  [.begin ⟨2, word '9', zeroAddress, firstCandidate.holder, word '6', 100⟩ 50,
    .begin ⟨1, word '5', zeroAddress, firstCandidate.holder, word '6', 200⟩ 50,
    .cancel (word '9') zeroAddress 150]

def firstToken : List (ServiceCall merkleConfig) :=
  [.begin ⟨1, word '5', zeroAddress, firstCandidate.holder, word '6', 200⟩ 50]

theorem tokens_independent_two :
    let engine : SettlementEngine := ⟨allowListAuthority [zeroAddress], 1000⟩
    let start := initial (MemoryChain.new {}) JournalContent.empty
    (LabelledRun.run (serveStep engine merkleConfig) start firstToken).openGapOf 1 = word '5' ∧
      (LabelledRun.run (serveStep engine merkleConfig) start twoTokens).openGapOf 1 =
        (LabelledRun.run (serveStep engine merkleConfig) start firstToken).openGapOf 1 := by
  intro engine start
  refine ⟨by decide, ?_⟩
  refine (tokens_independent engine merkleConfig .merkle rfl oneOwner 1 (MemoryChain.new {})
    JournalContent.empty twoTokens firstToken ?_ ?_ rfl).2.2.1
  · intro call hcall
    simp only [twoTokens, List.mem_cons, List.not_mem_nil, or_false] at hcall
    rcases hcall with rfl | rfl | rfl
    · exact if_pos rfl
    · exact if_neg (by decide)
    · trivial
  · intro call hcall
    simp only [firstToken, List.mem_cons, List.not_mem_nil, or_false] at hcall
    subst hcall
    exact if_neg (by decide)

end TwoTokens

end ProjectionStore

end Erc8415
