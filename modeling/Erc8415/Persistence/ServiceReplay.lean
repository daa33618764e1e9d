import Erc8415.Persistence.Replay
import Erc8415.Projection.Atomicity
import Erc8415.Settlement.StateMachine

/-! # Restarting the service

A service whose journal takes every append can be stopped after any call and
rebuilt from its journal over a fresh adapter. The rebuilt store differs from
the live one in the adapter alone, and two such stores answer every further
call alike for as long as their adapters report the same frontier and the
verifier decides alike over both.
-/

namespace Erc8415

variable {σ : Type}

namespace ProjectionStore

variable {engine : SettlementEngine} {o : StoreConfig σ} {s t : ProjectionStore σ}

/-! ## Stores that differ in their adapters -/

/-- What the world outside a store decides reads the same through two adapters. -/
structure SameWorld (o : StoreConfig σ) (a b : σ) : Prop where
  finalized : ∀ height, o.adapter.isFinalized b height = o.adapter.isFinalized a height
  verdict : ∀ now material context,
    o.profile.verify b now material context = o.profile.verify a now material context

/-- Two stores that differ in their adapters alone, which accepted the same heights. -/
structure Twins (o : StoreConfig σ) (s t : ProjectionStore σ) : Prop where
  same : t = { s with adapter := t.adapter }
  heights : ∀ tokenId,
    o.adapter.acceptedHeight t.adapter tokenId = o.adapter.acceptedHeight s.adapter tokenId

/-- Entering a candidate does not look at the adapter. -/
theorem admitted_adapter (s : ProjectionStore σ) (tokenId : Int) (c : CandidateEntry)
    (remoteHeight : Int) (adapter a b : σ) :
    { s with adapter := adapter }.admitted tokenId c remoteHeight b =
      { s.admitted tokenId c remoteHeight a with adapter := b } := by
  simp only [admitted, entered, closeGap]
  cases s.openGaps.get (key tokenId) <;> rfl

theorem Twins.checkAdmission (h : Twins o s t) (hworld : SameWorld o s.adapter t.adapter)
    (tokenId : Int) (candidate : JsValue) (material : ProofMaterial) (now : Int) :
    t.checkAdmission o tokenId candidate material now =
      s.checkAdmission o tokenId candidate material now := by
  obtain ⟨hsame, hheights⟩ := h
  generalize t.adapter = adapter at hsame hheights hworld
  subst hsame
  have hcontext : ∀ c, proofContext o { s with adapter := adapter } tokenId c =
      s.proofContext o tokenId c := by
    intro c
    simp only [proofContext, hheights]
    rfl
  have hproof : ∀ c, ProjectionStore.checkProof o { s with adapter := adapter } tokenId c
      material now = s.checkProof o tokenId c material now := by
    intro c
    simp only [checkProof, hworld.finalized, hheights, hcontext]
    cases hresolve : resolveProfile o material.profile with
    | error e => rfl
    | ok profile =>
        obtain ⟨_, rfl⟩ := resolveProfile_eq_ok.mp hresolve
        simp only [bind, Except.bind, hworld.verdict]
  simp only [ProjectionStore.checkAdmission, hproof]
  rfl

/-- What an accepted admission does over a journal that takes the append. -/
theorem Accepted.admitEntry_eq {tokenId : Int} {candidate : JsValue} {material : ProofMaterial}
    {now : Int} {c : CandidateEntry} (hc : Accepted o s tokenId candidate material now c)
    (hs : s.Valid) {adapter : σ}
    (hadvance : o.adapter.advanceHeight s.adapter tokenId material.remoteHeight = .ok adapter) :
    s.admitEntry o tokenId candidate material now none =
      (s.admitted tokenId c material.remoteHeight adapter,
        .ok (s.admissionResult tokenId c material.remoteHeight)) := by
  have hcheck := (checkAdmission_eq_ok hs).mpr ⟨c, hc, rfl, rfl⟩
  have hentered : closeGap
      { s with
        projections := s.projections.set (key tokenId) ((s.projectionOf tokenId).append c)
        adapter := adapter } tokenId = s.entered tokenId c adapter := rfl
  simp only [admitEntry, hcheck, hadvance, hentered, record, entered_journal]
  rfl

theorem Twins.admitEntry (h : Twins o s t) (hs : s.Valid) (ht : t.Valid)
    (hworld : SameWorld o s.adapter t.adapter) (tokenId : Int) (candidate : JsValue)
    (material : ProofMaterial) (now : Int) :
    (t.admitEntry o tokenId candidate material now none).2 =
        (s.admitEntry o tokenId candidate material now none).2 ∧
      Twins o (s.admitEntry o tokenId candidate material now none).1
        (t.admitEntry o tokenId candidate material now none).1 := by
  have hcheck := h.checkAdmission hworld tokenId candidate material now
  cases heq : s.checkAdmission o tokenId candidate material now with
  | error e =>
      unfold ProjectionStore.admitEntry
      rw [hcheck, heq]
      exact ⟨rfl, h⟩
  | ok result =>
      obtain ⟨target, entry⟩ := result
      obtain ⟨c, hc, rfl, _⟩ := (checkAdmission_eq_ok hs).mp heq
      obtain ⟨c', hc', htarget, _⟩ := (checkAdmission_eq_ok ht).mp (hcheck.trans heq)
      have hlt := (checkProof_eq_ok.mp hc.proof).2.2.1
      have hlt' := (checkProof_eq_ok.mp hc'.proof).2.2.1
      obtain ⟨a, ha, haheights⟩ := o.adapter.advances s.adapter tokenId material.remoteHeight hlt
      obtain ⟨b, hb, hbheights⟩ := o.adapter.advances t.adapter tokenId material.remoteHeight hlt'
      -- Both shape checks read the same argument, so the candidates are one.
      have hsame : c' = c := by
        have hshape := hc'.shape
        rw [hc.shape] at hshape
        exact (Except.ok.inj hshape).symm
      subst hsame
      rw [hc.admitEntry_eq hs ha, hc'.admitEntry_eq ht hb]
      refine ⟨?_, ?_, fun other => ?_⟩
      · simp only [admissionResult]
        rw [h.same]
      · have hadapter : (t.admitted tokenId c' material.remoteHeight b).adapter = b :=
          entered_adapter t tokenId c' b
        simp only [hadapter]
        rw [h.same]
        exact admitted_adapter s tokenId c' material.remoteHeight t.adapter a b
      · simp only [admitted, entered_adapter, haheights, hbheights, h.heights]

theorem Twins.openGap (h : Twins o s t) (tokenId : Int) (gap : GapRequest) :
    (t.openGap tokenId gap none).2 = (s.openGap tokenId gap none).2 ∧
      Twins o (s.openGap tokenId gap none).1 (t.openGap tokenId gap none).1 := by
  obtain ⟨hsame, hheights⟩ := h
  generalize t.adapter = adapter at hsame hheights
  subst hsame
  have hwritable : assertWritable { s with adapter := adapter } = s.assertWritable := rfl
  unfold ProjectionStore.openGap
  rw [hwritable]
  cases s.assertWritable with
  | error e => exact ⟨rfl, rfl, hheights⟩
  | ok u =>
      simp only
      split
      next => exact ⟨rfl, rfl, hheights⟩
      next => exact ⟨rfl, rfl, hheights⟩

theorem Twins.cancelGap (h : Twins o s t) (tokenId : Int) :
    (t.cancelGap tokenId none).2 = (s.cancelGap tokenId none).2 ∧
      Twins o (s.cancelGap tokenId none).1 (t.cancelGap tokenId none).1 := by
  obtain ⟨hsame, hheights⟩ := h
  generalize t.adapter = adapter at hsame hheights
  subst hsame
  have hwritable : assertWritable { s with adapter := adapter } = s.assertWritable := rfl
  unfold ProjectionStore.cancelGap
  rw [hwritable]
  cases s.assertWritable with
  | error e => exact ⟨rfl, rfl, hheights⟩
  | ok u =>
      simp only
      cases s.openGaps.get (key tokenId) with
      | none => exact ⟨rfl, rfl, hheights⟩
      | some id => exact ⟨rfl, rfl, hheights⟩

theorem Twins.settlement (h : Twins o s t) (id : Bytes32) : t.settlement id = s.settlement id := by
  rw [h.same]
  rfl

theorem Twins.openGapOf (h : Twins o s t) (tokenId : Int) :
    t.openGapOf tokenId = s.openGapOf tokenId := by
  rw [h.same]
  rfl

/-- The route answers alike: whatever it refuses, it refuses by what the stores share. -/
theorem Twins.handleAdmission (h : Twins o s t) (hs : s.Valid) (ht : t.Valid)
    (hworld : SameWorld o s.adapter t.adapter) (tokenRaw : String) (body : JsValue)
    (now verifierNow : Int) :
    (handleAdmission o t tokenRaw body now verifierNow none).2 =
        (handleAdmission o s tokenRaw body now verifierNow none).2 ∧
      Twins o (handleAdmission o s tokenRaw body now verifierNow none).1
        (handleAdmission o t tokenRaw body now verifierNow none).1 := by
  simp only [Erc8415.handleAdmission, admissionRoute]
  cases parseUint256 tokenRaw with
  | none => exact ⟨rfl, h⟩
  | some tokenId =>
      cases parseAdmission body with
      | none => exact ⟨rfl, h⟩
      | some parsed =>
          have hassert : assertOpenGap t tokenId parsed.entry now =
              assertOpenGap s tokenId parsed.entry now := by
            simp only [assertOpenGap, h.openGapOf, h.settlement]
          simp only [hassert]
          cases assertOpenGap s tokenId parsed.entry now with
          | error e => exact ⟨rfl, h⟩
          | ok u =>
              obtain ⟨hanswer, htwins⟩ :=
                h.admitEntry hs ht hworld tokenId parsed.entry parsed.proof verifierNow
              simp only
              generalize t.admitEntry o tokenId parsed.entry parsed.proof verifierNow none =
                done' at hanswer htwins ⊢
              generalize s.admitEntry o tokenId parsed.entry parsed.proof verifierNow none =
                done at hanswer htwins ⊢
              obtain ⟨after', answer'⟩ := done'
              obtain ⟨after, answer⟩ := done
              simp only at hanswer htwins ⊢
              subst hanswer
              rcases answer' with (_ | _) | _
              · exact ⟨rfl, htwins⟩
              · exact ⟨rfl, htwins⟩
              · exact ⟨rfl, htwins⟩

/-- Every call is answered alike by two stores that differ in their adapters, as long as
the adapters and the verifier agree, and leaves two such stores. -/
theorem Twins.serve (h : Twins o s t) (hs : s.Valid) (ht : t.Valid)
    (hworld : SameWorld o s.adapter t.adapter) (call : ServiceCall o) :
    (serve engine o t call).2 = (serve engine o s call).2 ∧
      Twins o (serve engine o s call).1 (serve engine o t call).1 := by
  cases call with
  | begin request now =>
      have hcheck : engine.checkBegin t request now = engine.checkBegin s request now := by
        simp only [SettlementEngine.checkBegin, h.settlement]
      obtain ⟨hanswer, htwins⟩ :=
        h.openGap request.tokenId (SettlementEngine.BeginRequest.gap request now)
      simp only [Erc8415.serve, SettlementEngine.begin, hcheck]
      cases engine.checkBegin s request now with
      | error e => exact ⟨rfl, h⟩
      | ok u => exact ⟨congrArg (Except.map _) hanswer, htwins⟩
  | finalize settlementId candidate material now verifierNow =>
      simp only [Erc8415.serve, SettlementEngine.finalize, h.settlement]
      cases assertSettlementAdmission (s.settlement settlementId) candidate now with
      | error e => exact ⟨rfl, h⟩
      | ok u =>
          obtain ⟨hanswer, htwins⟩ := h.admitEntry hs ht hworld
            (s.settlement settlementId).tokenId candidate material verifierNow
          exact ⟨congrArg (Except.map _) hanswer, htwins⟩
  | cancel settlementId caller now =>
      simp only [Erc8415.serve, SettlementEngine.cancel, h.settlement]
      cases SettlementEngine.checkCancel (s.settlement settlementId) settlementId caller now with
      | error e => exact ⟨rfl, h⟩
      | ok u =>
          obtain ⟨hanswer, htwins⟩ := h.cancelGap (s.settlement settlementId).tokenId
          exact ⟨congrArg (Except.map _) hanswer, htwins⟩
  | post tokenRaw body now verifierNow =>
      obtain ⟨hanswer, htwins⟩ := h.handleAdmission hs ht hworld tokenRaw body now verifierNow
      exact ⟨congrArg (Except.map _) hanswer, htwins⟩
  | direct tokenId candidate material verifierNow =>
      obtain ⟨hanswer, htwins⟩ := h.admitEntry hs ht hworld tokenId candidate material verifierNow
      exact ⟨congrArg (Except.map _) hanswer, htwins⟩
  | adapterMoves move hmove =>
      refine ⟨rfl, ?_, fun tokenId => ?_⟩
      · simp only [Erc8415.serve]
        rw [h.same]
      · simp only [Erc8415.serve, hmove, h.heights]

theorem Twins.run (h : Twins o s t) (hs : s.Served) (ht : t.Served) (calls : List (ServiceCall o))
    (hworld : ∀ first, first <+: calls →
      SameWorld o (LabelledRun.run (serveStep engine o) s first).adapter
        (LabelledRun.run (serveStep engine o) t first).adapter) :
    Twins o (LabelledRun.run (serveStep engine o) s calls)
      (LabelledRun.run (serveStep engine o) t calls) := by
  induction calls using List.reverseRecOn with
  | nil => exact h
  | append_singleton first call ih =>
      have hfirst := ih fun before hbefore => hworld before (hbefore.trans (List.prefix_append _ _))
      rw [LabelledRun.run_concat, LabelledRun.run_concat]
      exact (hfirst.serve (hs.run first).valid (ht.run first).valid
        (hworld first (List.prefix_append _ _)) call).2

/-! ## The journal of a service -/

/-- How many calls of a run were answered as mutations. -/
def mutations (engine : SettlementEngine) (o : StoreConfig σ) :
    ProjectionStore σ → List (ServiceCall o) → Nat
  | _, [] => 0
  | s, call :: rest =>
      (if mutated (serve engine o s call).2 then 1 else 0) +
        mutations engine o (serveStep engine o s call) rest

/-- A state of a service whose journal took every append: `count` records are on it,
and replaying them gives the store back. -/
structure Journaled (o : StoreConfig σ) (fresh : σ) (count : Nat) (s : ProjectionStore σ) :
    Prop where
  served : s.Served
  writable : s.poisoned = none
  identity : s.journal.identity = some (identity o)
  count : s.journal.records.length = count
  restorable : Restorable o fresh (· = ·) s

theorem Journaled.initial {fresh adapter : σ}
    (hfresh : ∀ tokenId, o.adapter.acceptedHeight fresh tokenId =
      o.adapter.acceptedHeight adapter tokenId) :
    Journaled o fresh 0 (initial adapter ⟨some (ProjectionStore.identity o), []⟩) where
  served := Served.initial adapter _
  writable := rfl
  identity := rfl
  count := rfl
  restorable := Restorable.initial _ hfresh

theorem Effect.poisoned {m : Mutation} {answer : Except Thrown StoreAnswer}
    (heffect : Effect o s none m t answer) : t.poisoned = s.poisoned := by
  cases heffect with
  | refused e hrefused => rfl
  | admitted hc hadvance => simp [ProjectionStore.admitted]
  | opened hwritable hfree => rfl
  | cancelled hwritable hopen => rfl

/-- A mutation that returns has appended exactly one record. -/
theorem Effect.journaled (hs : s.Valid) {m : Mutation} {result : StoreAnswer}
    (hkeeps : KeepsRecords o s none m) (heffect : Effect o s none m t (.ok result)) :
    ∃ record, t.journal = s.journal.append record := by
  have hself : Mirrors o (· = ·) s s := ⟨rfl, rfl, rfl, fun _ => rfl⟩
  rcases heffect.replays hself hs (fun _ _ => Int.le_of_eq) (fun _ => rfl) hkeeps with
    ⟨_, thrown, hthrown⟩ | ⟨record, _, _, _, hjournal, _⟩
  · cases hthrown
  · exact ⟨record, hjournal⟩

theorem Journaled.step (engine : SettlementEngine) {fresh : σ} {count : Nat}
    (h : Journaled o fresh count s) (call : ServiceCall o) :
    Journaled o fresh (count + if mutated (serve engine o s call).2 then 1 else 0)
      (serveStep engine o s call) := by
  have heffect := serve_effect engine h.served.valid call
  unfold serveStep
  generalize (serve engine o s call).1 = t at heffect ⊢
  generalize mutated (serve engine o s call).2 = answered at heffect ⊢
  have hserved := heffect.served h.served
  -- A refusal, a move of the adapter, or a mutation; only the last writes a record.
  rcases heffect.mutates h.served with ⟨rfl, rfl | ⟨move, hmove, rfl⟩⟩ |
    ⟨rfl, m, result, hmutates, hkeeps⟩
  · exact h
  · refine ⟨hserved, h.writable, h.identity, h.count, fun journal => ?_⟩
    obtain ⟨replayed, hreplay, hbook, hmirrors⟩ := h.restorable journal
    refine ⟨replayed, hreplay, hbook, fun hwritable => ?_⟩
    obtain ⟨hprojections, hgaps, hsettlements, hheights⟩ := hmirrors hwritable
    exact ⟨hprojections, hgaps, hsettlements,
      fun tokenId => (hheights tokenId).trans (hmove s.adapter tokenId).symm⟩
  · obtain ⟨record, hjournal⟩ := hmutates.journaled h.served.valid hkeeps
    refine ⟨hserved, hmutates.poisoned.trans h.writable, ?_, ?_,
      h.restorable.journaled h.served.valid (fun _ _ => Int.le_of_eq) (fun _ => rfl) hkeeps
        hmutates⟩
    · rw [hjournal]
      exact h.identity
    · rw [hjournal]
      simp [JournalContent.append, h.count]

theorem Journaled.run {fresh : σ} {count : Nat} (h : Journaled o fresh count s)
    (calls : List (ServiceCall o)) :
    Journaled o fresh (count + mutations engine o s calls)
      (LabelledRun.run (serveStep engine o) s calls) := by
  induction calls generalizing s count with
  | nil => exact h
  | cons call rest ih =>
      have hrest := ih (h.step engine call)
      rw [Nat.add_assoc] at hrest
      exact hrest

/-- Replaying the journal gives a store that differs from the live one in the adapter. -/
theorem Journaled.twins {fresh : σ} {count : Nat} (h : Journaled o fresh count s) :
    ∃ restored, replay o (ProjectionStore.initial fresh s.journal) s.journal.records =
        .ok restored ∧ Twins o s restored := by
  obtain ⟨restored, hreplay, ⟨hjournal, hpoisoned⟩, hmirrors⟩ := h.restorable s.journal
  obtain ⟨hprojections, hgaps, hsettlements, hheights⟩ := hmirrors h.writable
  refine ⟨restored, hreplay, ?_, hheights⟩
  have hwritable := h.writable
  cases s
  cases restored
  simp_all [ProjectionStore.initial]

/-! ## Restarting -/

theorem new_eq_ok {options : StoreOptions σ} {adapter : σ}
    (hnew : new options adapter JournalContent.empty = .ok (o, s)) :
    configure options = .ok o ∧ s = initial adapter ⟨some (identity o), []⟩ := by
  simp only [new, bind_eq_ok] at hnew
  obtain ⟨o', hconfigure, journal, hbind, heq⟩ := hnew
  cases heq
  cases hbind
  exact ⟨hconfigure, rfl⟩

/-- The constructor accepts a journal that carries the identity of its options. -/
theorem new_of_bound {options : StoreOptions σ} {adapter : σ} {journal : JournalContent}
    (hconfigure : configure options = .ok o) (hidentity : journal.identity = some (identity o)) :
    new options adapter journal = .ok (o, initial adapter journal) := by
  have hbind : journal.bind (identity o) = .ok journal := by
    unfold JournalContent.bind
    rw [hidentity]
    simp only [JournalContent.mismatch_eq_none.mpr rfl]
  simp only [new, hconfigure, bind, Except.bind, hbind]
  rfl

/-- What a reader of the store can tell apart. -/
structure Agrees (o : StoreConfig σ) (live restored : ProjectionStore σ) : Prop where
  entries : ∀ tokenId, restored.entries tokenId = live.entries tokenId
  openGapOf : ∀ tokenId, restored.openGapOf tokenId = live.openGapOf tokenId
  settlement : ∀ id, restored.settlement id = live.settlement id
  settlementsFor : ∀ tokenId, restored.settlementsFor tokenId = live.settlementsFor tokenId
  acceptedHeight : ∀ tokenId, o.adapter.acceptedHeight restored.adapter tokenId =
    o.adapter.acceptedHeight live.adapter tokenId

theorem Twins.agrees (h : Twins o s t) : Agrees o s t where
  entries _ := by rw [h.same]; rfl
  openGapOf := h.openGapOf
  settlement := h.settlement
  settlementsFor _ := by rw [h.same]; rfl
  acceptedHeight := h.heights

/-- What restoring the journal of a live store over a fresh adapter gives: a store that
agrees with the live one, with `count` records applied and none appended. From there both
answer every call alike, for as long as the world reads the same to both. -/
structure Restarts (engine : SettlementEngine) (options : StoreOptions σ) (o : StoreConfig σ)
    (fresh : σ) (count : Nat) (live restored : ProjectionStore σ) : Prop where
  restores : restoreProjectionStore options fresh live.journal = .ok ⟨o, restored, count⟩
  agrees : Agrees o live restored
  journal : restored.journal = live.journal
  further : ∀ calls : List (ServiceCall o),
    (∀ first, first <+: calls →
      SameWorld o (LabelledRun.run (serveStep engine o) live first).adapter
        (LabelledRun.run (serveStep engine o) restored first).adapter) →
    let live' := LabelledRun.run (serveStep engine o) live calls
    let restored' := LabelledRun.run (serveStep engine o) restored calls
    Agrees o live' restored' ∧
      ∀ call, (serve engine o restored' call).2 = (serve engine o live' call).2

/-- Every run of the service can be restarted from its journal, wherever it stops. -/
theorem run_restarts (engine : SettlementEngine) (options : StoreOptions σ) (adapter fresh : σ)
    (o : StoreConfig σ) (s : ProjectionStore σ)
    (hnew : new options adapter JournalContent.empty = .ok (o, s))
    (hfresh : ∀ tokenId, o.adapter.acceptedHeight fresh tokenId =
      o.adapter.acceptedHeight adapter tokenId) (calls : List (ServiceCall o)) :
    ∃ restored, Restarts engine options o fresh (mutations engine o s calls)
      (LabelledRun.run (serveStep engine o) s calls) restored := by
  obtain ⟨hconfigure, rfl⟩ := new_eq_ok hnew
  have h : Journaled o fresh (0 + mutations engine o _ calls) _ :=
    (Journaled.initial hfresh).run calls
  obtain ⟨restored, hreplay, htwins⟩ := h.twins
  have hserved : restored.Served := by
    rw [htwins.same]
    exact ⟨⟨h.served.valid.projections, h.served.valid.gaps⟩, h.served.records, h.served.begun⟩
  refine ⟨restored, ?_, htwins.agrees, by rw [htwins.same], fun further hworld => ?_⟩
  · simp only [restoreProjectionStore, new_of_bound hconfigure h.identity, bind, Except.bind,
      hreplay, h.count, Nat.zero_add]
    rfl
  · have htwins' := htwins.run h.served hserved further hworld
    refine ⟨htwins'.agrees, fun call => ?_⟩
    exact (htwins'.serve (h.served.run further).valid (hserved.run further).valid
      (hworld further (List.prefix_refl _)) call).1

/-! ### A gap opened and finalized -/

/-- Options whose registry knows one verifier, over the memory adapter. -/
def memoryOptions : StoreOptions MemoryChain :=
  ⟨word '7', word '8', ⟨InsertionMap.empty.set (word '8') (trusting MemoryChain), ["trusting"]⟩,
    MemoryChain.adapter {}⟩

/-- One authority, with a settlement period of 1000 seconds. -/
def oneAuthority : SettlementEngine := ⟨allowListAuthority [zeroAddress], 1000⟩

/-- A gap opened for the first candidate's holder, which is then finalized. -/
def openedAndFinalized : List (ServiceCall memoryConfig) :=
  [.begin ⟨1, word '5', zeroAddress, firstCandidate.holder, word '6', 200⟩ 50,
    .finalize (word '5') firstCandidate.toJs ⟨"trusting", 5, .null⟩ 60 60]

theorem run_restarts_finalized :
    mutations oneAuthority memoryConfig (initial (MemoryChain.new {})
        ⟨some (identity memoryConfig), []⟩) openedAndFinalized = 2 ∧
      ∃ restored, Restarts oneAuthority memoryOptions memoryConfig (MemoryChain.new {})
        (mutations oneAuthority memoryConfig (initial (MemoryChain.new {})
          ⟨some (identity memoryConfig), []⟩) openedAndFinalized)
        (LabelledRun.run (serveStep oneAuthority memoryConfig) (initial (MemoryChain.new {})
          ⟨some (identity memoryConfig), []⟩) openedAndFinalized) restored :=
  ⟨by decide, run_restarts oneAuthority memoryOptions (MemoryChain.new {}) (MemoryChain.new {})
    memoryConfig _ rfl (fun _ => rfl) openedAndFinalized⟩

end ProjectionStore

end Erc8415
