import Erc8415.Adapters.EthereumChain
import Erc8415.Adapters.MemoryChain
import Erc8415.Projection.Finality

/-! # Mutations are atomic

A refused mutation leaves the store as it was. A mutation whose append throws
puts everything back as well, provided the adapter takes the prior height back,
and from then on the store refuses every write. Over an adapter that only takes
heights forward the rollback of an admission throws instead.
-/

namespace Erc8415

namespace ProjectionStore

variable {σ : Type} {o : StoreConfig σ} {s t : ProjectionStore σ}

/-! ## Refusals -/

theorem perform_of_refused (h : s.Valid) {m : Mutation} (hrefused : Refused o s m)
    (append : Option Thrown) : ∃ e, s.perform o append m = (s, .error (.rejection e)) := by
  have heffect := perform_effect (o := o) h append m
  generalize hdone : s.perform o append m = done at heffect
  obtain ⟨after, answer⟩ := done
  cases heffect with
  | refused e _ => exact ⟨e, rfl⟩
  | admitted hc _ | unadmitted hc _ _ | stranded hc _ _ => exact absurd hc (hrefused _)
  | opened hwritable hfree | unopened hwritable hfree =>
      rcases hrefused with hpoisoned | hhas
      · exact absurd hwritable hpoisoned
      · rw [(InsertionMap.has_eq_false _ _).mpr hfree] at hhas
        cases hhas
  | cancelled hwritable hopen | uncancelled hwritable hopen =>
      rcases hrefused with hpoisoned | hnone
      · exact absurd hwritable hpoisoned
      · rw [hopen] at hnone
        cases hnone

/-- A mutation throws over a working journal only when a check refuses it. -/
theorem refused_iff_error (h : s.Valid) (m : Mutation) :
    Refused o s m ↔ ∃ thrown, (s.perform o none m).2 = .error thrown := by
  constructor
  · intro hrefused
    obtain ⟨e, heq⟩ := perform_of_refused h hrefused none
    exact ⟨_, by rw [heq]⟩
  · rintro ⟨thrown, hthrown⟩
    have heffect := perform_effect (o := o) h none m
    rw [hthrown] at heffect
    generalize (s.perform o none m).1 = after at heffect
    cases heffect with
    | refused e hrefused => exact hrefused

theorem perform_of_poisoned {why : String} (hpoisoned : s.poisoned = some why)
    (append : Option Thrown) (m : Mutation) :
    s.perform o append m = (s, .error (.rejection
      ⟨.storeNotWritable, s!"the store stopped accepting writes: {why}"⟩)) := by
  have hwritable : s.assertWritable =
      reject .storeNotWritable s!"the store stopped accepting writes: {why}" := by
    simp only [assertWritable, hpoisoned]
  cases m with
  | admitEntry tokenId candidate material now =>
      have hcheck : s.checkAdmission o tokenId candidate material now =
          .error ⟨.storeNotWritable, s!"the store stopped accepting writes: {why}"⟩ := by
        rw [checkAdmission, hwritable]
        rfl
      simp only [perform, admitEntry, hcheck]
      rfl
  | openGap tokenId gap =>
      simp only [perform, openGap, hwritable, reject]
      rfl
  | cancelGap tokenId =>
      simp only [perform, cancelGap, hwritable, reject]
      rfl

theorem step_poisoned {why : String} (hpoisoned : s.poisoned = some why) (call : StoreCall σ) :
    (s.step o call).poisoned = some why := by
  cases call with
  | mutate m append =>
      unfold ProjectionStore.step
      simp only [perform_of_poisoned hpoisoned]
      exact hpoisoned
  | adapterMoves adapter => exact hpoisoned

theorem run_poisoned {why : String} (hpoisoned : s.poisoned = some why)
    (calls : List (StoreCall σ)) : (LabelledRun.run (step o) s calls).poisoned = some why :=
  LabelledRun.run_invariant (step o) (fun s => s.poisoned = some why)
    (fun _ call hs => step_poisoned hs call) hpoisoned calls

/-! ## Failed appends -/

/-- Every answer a caller can read, the accepted heights included. -/
structure SameAnswers (o : StoreConfig σ) (s t : ProjectionStore σ) : Prop where
  tokens : t.tokens = s.tokens
  entries : ∀ tokenId, t.entries tokenId = s.entries tokenId
  reads : ∀ tokenId, SameReads s t tokenId
  openGapOf : ∀ tokenId, t.openGapOf tokenId = s.openGapOf tokenId
  settlement : ∀ settlementId, t.settlement settlementId = s.settlement settlementId
  settlementsFor : ∀ tokenId, t.settlementsFor tokenId = s.settlementsFor tokenId
  acceptedHeight : ∀ tokenId,
    o.adapter.acceptedHeight t.adapter tokenId = o.adapter.acceptedHeight s.adapter tokenId

theorem SameAnswers.of_maps (hprojections : t.projections = s.projections)
    (hgaps : ∀ k, t.openGaps.get k = s.openGaps.get k)
    (hsettlements : t.settlements = s.settlements)
    (hheights : ∀ tokenId, o.adapter.acceptedHeight t.adapter tokenId =
      o.adapter.acceptedHeight s.adapter tokenId) : SameAnswers o s t where
  tokens := by simp only [ProjectionStore.tokens, hprojections]
  entries tokenId := by simp only [ProjectionStore.entries, hprojections]
  reads tokenId := .of_projections (by rw [hprojections])
  openGapOf tokenId := by simp only [ProjectionStore.openGapOf, hgaps]
  settlement settlementId := by simp only [ProjectionStore.settlement, hsettlements]
  settlementsFor tokenId := by simp only [ProjectionStore.settlementsFor, hsettlements]
  acceptedHeight := hheights

/-- The mutation does not open a settlement id that is already recorded. -/
def Unrecorded (s : ProjectionStore σ) : Mutation → Prop
  | .openGap _ gap => s.settlements.get gap.settlementId = none
  | _ => True

/-- What a failed append is to leave behind: entries, gaps, settlements and heights
as before, the journal's error, and a store that refuses every later write. -/
structure Contained (o : StoreConfig σ) (s t : ProjectionStore σ)
    (answer : Except Thrown StoreAnswer) (error : Thrown) : Prop where
  entries : ∀ tokenId, t.entries tokenId = s.entries tokenId
  openGapOf : ∀ tokenId, t.openGapOf tokenId = s.openGapOf tokenId
  settlement : ∀ settlementId, t.settlement settlementId = s.settlement settlementId
  acceptedHeight : ∀ tokenId,
    o.adapter.acceptedHeight t.adapter tokenId = o.adapter.acceptedHeight s.adapter tokenId
  surfaced : answer = .error error
  poisoned : t.poisoned = some error.message
  refuses : ∀ later m append, let u := LabelledRun.run (step o) t later
    ∃ why, u.perform o append m = (u, .error (.rejection ⟨.storeNotWritable, why⟩))

theorem SameAnswers.contained (hsame : SameAnswers o s t) {answer : Except Thrown StoreAnswer}
    {error : Thrown} (hanswer : answer = .error error)
    (hpoisoned : t.poisoned = some error.message) :
    SameAnswers o s t ∧ Contained o s t answer error :=
  ⟨hsame, {
    entries := hsame.entries
    openGapOf := hsame.openGapOf
    settlement := hsame.settlement
    acceptedHeight := hsame.acceptedHeight
    surfaced := hanswer
    poisoned := hpoisoned
    refuses := fun later m append =>
      ⟨_, perform_of_poisoned (run_poisoned hpoisoned later) append m⟩ }⟩

end ProjectionStore

/-- The port takes any height, lower ones included. -/
def RemoteChainAdapter.IsSetter {σ : Type} (adapter : RemoteChainAdapter σ) : Prop :=
  ∀ a tokenId height, ∃ a', adapter.advanceHeight a tokenId height = .ok a' ∧
    ∀ other, adapter.acceptedHeight a' other =
      if other = tokenId then height else adapter.acceptedHeight a other

theorem MemoryChain.isSetter (options : Options) : (adapter options).IsSetter :=
  fun a tokenId height => ⟨_, rfl, Heights.accepted_set a.heights tokenId height⟩

namespace ProjectionStore

variable {σ : Type} {o : StoreConfig σ} {s t : ProjectionStore σ}

theorem not_refused_of_ok (h : s.Valid) {m : Mutation} {answer : StoreAnswer}
    (hreaches : (s.perform o none m).2 = .ok answer) : ¬ Refused o s m := by
  rw [refused_iff_error h, hreaches]
  rintro ⟨thrown, hthrown⟩
  cases hthrown

/-- Over a setter a failed append leaves every answer as it was. -/
theorem Valid.failed_append (h : s.Valid) (hsetter : o.adapter.IsSetter) {m : Mutation}
    (hunrecorded : s.Unrecorded m) {answer : StoreAnswer}
    (hreaches : (s.perform o none m).2 = .ok answer) (error : Thrown) :
    let done := s.perform o (some error) m
    SameAnswers o s done.1 ∧ Contained o s done.1 done.2 error := by
  have hnot := not_refused_of_ok h hreaches
  have heffect := perform_effect (o := o) h (some error) m
  generalize s.perform o (some error) m = done at heffect ⊢
  obtain ⟨after, outcome⟩ := done
  simp only at heffect ⊢
  cases heffect with
  | refused e hrefused => exact absurd hrefused hnot
  | unopened hwritable hfree =>
      -- The rollback deletes the record, which was not there before.
      refine SameAnswers.contained ?_ rfl rfl
      exact .of_maps rfl (fun _ => rfl) (InsertionMap.delete_set_of_get_none hunrecorded)
        fun _ => rfl
  | uncancelled hwritable hopen =>
      refine SameAnswers.contained ?_ rfl rfl
      exact .of_maps rfl (repointed_get s _) rfl fun _ => rfl
  | @unadmitted tokenId _ _ _ _ _ adapter lowered hc hadvance hlower =>
      -- The adapter takes the prior height back, so every accepted height is the one before.
      obtain ⟨lowered', hlower', hheights⟩ :=
        hsetter adapter tokenId (o.adapter.acceptedHeight s.adapter tokenId)
      rw [hlower] at hlower'
      cases hlower'
      refine SameAnswers.contained ?_ rfl rfl
      refine .of_maps rfl (repointed_get s _) rfl fun other => ?_
      rw [hheights, hc.heights hadvance]
      by_cases hother : other = tokenId
      · simp [hother]
      · simp [hother]
  | @stranded tokenId _ _ _ _ _ adapter message hc hadvance hlower =>
      -- A setter does not throw, so the rollback runs to its end.
      obtain ⟨lowered, hlower', _⟩ :=
        hsetter adapter tokenId (o.adapter.acceptedHeight s.adapter tokenId)
      rw [hlower] at hlower'
      cases hlower'

/-- Atomicity over the memory adapter, in every state a run reaches: a mutation
that a check refuses changes nothing, whatever the journal would have done, and
a mutation that reaches an append that throws is undone. -/
theorem run_atomic (registerId verificationProfile : Bytes32) (profile : ProofProfile MemoryChain)
    (options : MemoryChain.Options) (adapter : MemoryChain) (journal : JournalContent)
    (calls : List (StoreCall MemoryChain)) :
    let o : StoreConfig MemoryChain :=
      ⟨registerId, verificationProfile, profile, MemoryChain.adapter options⟩
    let s := LabelledRun.run (step o) (initial adapter journal) calls
    (∀ m thrown, (s.perform o none m).2 = .error thrown →
      ∀ append, ∃ e, s.perform o append m = (s, .error (.rejection e))) ∧
    (∀ m answer error, s.Unrecorded m → (s.perform o none m).2 = .ok answer →
      let done := s.perform o (some error) m
      SameAnswers o s done.1 ∧ Contained o s done.1 done.2 error) := by
  intro o s
  have h : s.Valid := (Valid.initial adapter journal).run calls
  refine ⟨fun m thrown hthrown append => ?_, fun m answer error hunrecorded hreaches => ?_⟩
  · exact perform_of_refused h ((refused_iff_error h m).mpr ⟨thrown, hthrown⟩) append
  · exact h.failed_append (MemoryChain.isSetter options) hunrecorded hreaches error

/-- After two admissions: the first again is refused, and a disk that is full undoes both an
opening and a third admission. -/
theorem run_atomic_second :
    let s := LabelledRun.run (step memoryConfig)
      (initial (MemoryChain.new {}) JournalContent.empty) (firstCalls ++ [secondCall])
    let again : Mutation := .admitEntry 1 firstCandidate.toJs ⟨"trusting", 11, .null⟩ 250
    let third : CandidateEntry := { secondCandidate with
      recordCommitment := word '3', previousCommitment := word '2', version := 3,
      effectiveAt := 300 }
    let opening : Mutation := .openGap 1 firstGap
    let admission : Mutation := .admitEntry 1 third.toJs ⟨"trusting", 11, .null⟩ 350
    let full : Thrown := .error "disk full"
    let unopened := s.perform memoryConfig (some full) opening
    let unadmitted := s.perform memoryConfig (some full) admission
    s.entryCount 1 = 2 ∧
      (∀ append, ∃ e, s.perform memoryConfig append again = (s, .error (.rejection e))) ∧
      (SameAnswers memoryConfig s unopened.1 ∧
        Contained memoryConfig s unopened.1 unopened.2 full) ∧
      SameAnswers memoryConfig s unadmitted.1 ∧
        Contained memoryConfig s unadmitted.1 unadmitted.2 full := by
  intro s again third opening admission full unopened unadmitted
  obtain ⟨hrefused, hundone⟩ := run_atomic (word '7') (word '8') (trusting MemoryChain) {}
    (MemoryChain.new {}) JournalContent.empty (firstCalls ++ [secondCall])
  refine ⟨by decide, hrefused again _ rfl, ?_, ?_⟩
  · have hunrecorded : s.settlements.get firstGap.settlementId = none := by decide
    exact hundone opening _ full hunrecorded rfl
  · exact hundone admission (.admission ⟨{ third with supersededAt := 0 }, false, 11⟩) full
      trivial (by decide)

/-! ## Over an adapter that only advances -/

/-- What a failed append of an admission leaves behind over the Ethereum adapter:
the entry is undone, but the height stays advanced, the gap stays closed, the
store takes further writes, and the error is the adapter's. -/
structure Stranded (s t : ProjectionStore EthereumChain) (tokenId remoteHeight : Int)
    (answer : Except Thrown StoreAnswer) : Prop where
  entries : ∀ other, t.entries other = s.entries other
  advanced : s.adapter.acceptedHeight tokenId < t.adapter.acceptedHeight tokenId
  gap : t.openGaps.get (key tokenId) = none
  settlement : ∀ id, s.openGaps.get (key tokenId) = some id →
    (t.settlement id).status = .admitted
  writable : t.poisoned = none
  surfaced : answer = .error (.error
    s!"accepted height must advance: {s.adapter.acceptedHeight tokenId} <= {remoteHeight}")

/-- After an accepted admission the prior height is behind the accepted one, so
the adapter refuses to take it back. -/
theorem Accepted.lower_refused {options : EthereumChain.Options}
    {registerId verificationProfile : Bytes32} {profile : ProofProfile EthereumChain}
    {s : ProjectionStore EthereumChain} {tokenId : Int} {argument : JsValue}
    {material : ProofMaterial} {now : Int} {c : CandidateEntry} {adapter : EthereumChain}
    (hc : Accepted ⟨registerId, verificationProfile, profile, EthereumChain.adapter options⟩ s
      tokenId argument material now c)
    (hadvance : s.adapter.advanceHeight tokenId material.remoteHeight = .ok adapter) :
    s.adapter.acceptedHeight tokenId < adapter.acceptedHeight tokenId ∧
      adapter.advanceHeight tokenId (s.adapter.acceptedHeight tokenId) =
        .error (s!"accepted height must advance: {s.adapter.acceptedHeight tokenId} <= " ++
          s!"{material.remoteHeight}") := by
  have hheight : adapter.acceptedHeight tokenId = material.remoteHeight :=
    (hc.heights hadvance tokenId).trans (if_pos rfl)
  have hlt : s.adapter.acceptedHeight tokenId < material.remoteHeight :=
    (checkProof_eq_ok.mp hc.proof).2.2.1
  have hle : s.adapter.acceptedHeight tokenId ≤ adapter.acceptedHeight tokenId := by
    rw [hheight]
    exact Int.le_of_lt hlt
  refine ⟨by rw [hheight]; exact hlt, ?_⟩
  rw [EthereumChain.advanceHeight_of_le hle, hheight]

theorem Valid.stranded {options : EthereumChain.Options} {registerId verificationProfile : Bytes32}
    {profile : ProofProfile EthereumChain} {s : ProjectionStore EthereumChain} (h : s.Valid)
    {tokenId : Int} {candidate : JsValue} {material : ProofMaterial} {now : Int}
    {answer : StoreAnswer} (error : Thrown) :
    let o : StoreConfig EthereumChain :=
      ⟨registerId, verificationProfile, profile, EthereumChain.adapter options⟩
    (s.perform o none (.admitEntry tokenId candidate material now)).2 = .ok answer →
      let done := s.perform o (some error) (.admitEntry tokenId candidate material now)
      Stranded s done.1 tokenId material.remoteHeight done.2 := by
  intro o hreaches
  have hnot := not_refused_of_ok h hreaches
  have heffect :=
    perform_effect (o := o) h (some error) (.admitEntry tokenId candidate material now)
  generalize s.perform o (some error) (.admitEntry tokenId candidate material now) = done
    at heffect ⊢
  obtain ⟨after, outcome⟩ := done
  simp only at heffect ⊢
  cases heffect with
  | refused e hrefused => exact absurd hrefused hnot
  | unadmitted hc hadvance hlower =>
      -- The rollback would have to lower the height, which this adapter refuses.
      have hrefused := (hc.lower_refused hadvance).2.symm.trans hlower
      cases hrefused
  | @stranded _ _ _ _ _ c adapter message hc hadvance hlower =>
      obtain ⟨hadvanced, hrefused⟩ := hc.lower_refused hadvance
      have hmessage := hrefused.symm.trans hlower
      cases hmessage
      exact {
        entries := fun other => rfl
        advanced := by
          change _ < EthereumChain.acceptedHeight (s.entered tokenId c adapter).adapter tokenId
          rw [entered_adapter]
          exact hadvanced
        gap := (entered_openGaps_get s tokenId c adapter _).trans (if_pos rfl)
        settlement := fun id hopen => by
          simp [settlement, entered_settlements, hopen]
        writable := (entered_poisoned s tokenId c adapter).trans hc.writable
        surfaced := rfl }

/-- Over the Ethereum adapter no append that throws during an admission is
contained, in any state a run reaches. -/
theorem run_never_contained (registerId verificationProfile : Bytes32)
    (profile : ProofProfile EthereumChain) (options : EthereumChain.Options)
    (adapter : EthereumChain) (journal : JournalContent) (calls : List (StoreCall EthereumChain))
    (tokenId : Int) (candidate : JsValue) (material : ProofMaterial) (now : Int)
    (answer : StoreAnswer) (error : Thrown) :
    let o : StoreConfig EthereumChain :=
      ⟨registerId, verificationProfile, profile, EthereumChain.adapter options⟩
    let s := LabelledRun.run (step o) (initial adapter journal) calls
    (s.perform o none (.admitEntry tokenId candidate material now)).2 = .ok answer →
      let done := s.perform o (some error) (.admitEntry tokenId candidate material now)
      Stranded s done.1 tokenId material.remoteHeight done.2 ∧
        ¬ Contained o s done.1 done.2 error := by
  intro o s hreaches
  have h : s.Valid := (Valid.initial adapter journal).run calls
  have hstranded := h.stranded error hreaches
  refine ⟨hstranded, fun hcontained => ?_⟩
  have hwritable := hstranded.writable
  rw [hcontained.poisoned] at hwritable
  cases hwritable

/-! ### A full disk -/

section FullDisk

def ethereumConfig : StoreConfig EthereumChain :=
  ⟨word '7', word '8', trusting EthereumChain, EthereumChain.adapter ⟨1, zeroAddress⟩⟩

/-- One gap open on token 1, over a chain finalized through height 10. -/
def oneGapOpen : ProjectionStore EthereumChain :=
  LabelledRun.run (step ethereumConfig)
    (initial { EthereumChain.new with finalizedHeight := 10 } JournalContent.empty)
    [.mutate (.openGap 1 firstGap) none]

def firstAdmission : Mutation := .admitEntry 1 firstCandidate.toJs ⟨"trusting", 5, .null⟩ 150

theorem run_never_contained_first :
    let done := oneGapOpen.perform ethereumConfig (some (.error "disk full")) firstAdmission
    Stranded oneGapOpen done.1 1 5 done.2 ∧
      ¬ Contained ethereumConfig oneGapOpen done.1 done.2 (.error "disk full") :=
  run_never_contained (word '7') (word '8') (trusting EthereumChain) ⟨1, zeroAddress⟩
    { EthereumChain.new with finalizedHeight := 10 } JournalContent.empty
    [.mutate (.openGap 1 firstGap) none] 1 firstCandidate.toJs ⟨"trusting", 5, .null⟩ 150
    (.admission ⟨{ firstCandidate with supersededAt := 0 }, true, 5⟩) (.error "disk full")
    (by decide)

/-- A disk that fills during the first admission: the height is left at 5, the
gap is left closed as admitted, nothing is poisoned, and the caller is told
about the height. -/
theorem full_disk_not_contained :
    let done := oneGapOpen.perform ethereumConfig (some (.error "disk full")) firstAdmission
    (oneGapOpen.adapter.acceptedHeight 1 = 0 ∧ done.1.adapter.acceptedHeight 1 = 5) ∧
      (oneGapOpen.openGapOf 1 = word '5' ∧ done.1.openGapOf 1 = zeroBytes32) ∧
      (done.1.settlement (word '5')).status = .admitted ∧ done.1.entries 1 = [] ∧
      done.1.poisoned = none ∧
      done.2 = .error (.error "accepted height must advance: 0 <= 5") ∧
      ¬ Contained ethereumConfig oneGapOpen done.1 done.2 (.error "disk full") := by
  have hwritable : (oneGapOpen.perform ethereumConfig (some (.error "disk full"))
      firstAdmission).1.poisoned = none := by decide
  refine ⟨by decide, by decide, by decide, by decide, hwritable, by decide, fun hcontained => ?_⟩
  have hpoisoned := hcontained.poisoned
  rw [hwritable] at hpoisoned
  cases hpoisoned

end FullDisk

end ProjectionStore

end Erc8415
