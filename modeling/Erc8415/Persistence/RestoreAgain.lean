import Erc8415.Persistence.ServiceReplay
import Erc8415.Persistence.Tampering
import Erc8415.Settlement.Writers

/-! # Restoring over the adapter in use

Replay drives the adapter through every admitted height again. An adapter whose
`advanceHeight` is a setter ends where it was, so a journal can be restored over the
adapter the run used, as often as one likes. One that refuses a height it has passed
refuses the first admission it is given again.
-/

namespace Erc8415

variable {σ : Type}

/-- The port refuses any height that does not advance. -/
def RemoteChainAdapter.IsGuarded (adapter : RemoteChainAdapter σ) : Prop :=
  ∀ a tokenId height, height ≤ adapter.acceptedHeight a tokenId →
    ∃ message, adapter.advanceHeight a tokenId height = .error message

theorem EthereumChain.isGuarded (options : Options) : (adapter options).IsGuarded :=
  fun _ _ _ h => ⟨_, advanceHeight_of_le h⟩

def JournalRecord.isAdmission : JournalRecord → Bool
  | .admitted _ _ _ _ => true
  | _ => false

/-! ## What is promised -/

/-- Two adapters that answer every question of the port alike. -/
structure ReadsAs (o : StoreConfig σ) (a b : σ) : Prop where
  heights : ∀ tokenId, o.adapter.acceptedHeight b tokenId = o.adapter.acceptedHeight a tokenId
  finalized : o.adapter.isFinalized b = o.adapter.isFinalized a
  roots : o.adapter.stateRootAt b = o.adapter.stateRootAt a

/-- Restore a journal, and then `n` times more, each time over the adapter the last
restore left. -/
def restoreRepeatedly (options : StoreOptions σ) (adapter : σ) (journal : JournalContent) :
    Nat → Except Thrown (RestoreResult σ)
  | 0 => restoreProjectionStore options adapter journal
  | n + 1 => do
      let last ← restoreRepeatedly options adapter journal n
      restoreProjectionStore options last.store.adapter journal

/-- Every restore over the adapter in use returns the store that one over a fresh adapter
returns, and leaves an adapter that reads as before. -/
def RestoresOver (options : StoreOptions σ) (o : StoreConfig σ) (fresh used : σ)
    (journal : JournalContent) : Prop :=
  ∃ restored applied, restoreProjectionStore options fresh journal = .ok ⟨o, restored, applied⟩ ∧
    ∀ n, ∃ a, restoreRepeatedly options used journal n =
        .ok ⟨o, { restored with adapter := a }, applied⟩ ∧ ReadsAs o used a

namespace ProjectionStore

variable {o : StoreConfig σ} {s t : ProjectionStore σ}

theorem configure_adapter {options : StoreOptions σ} (h : configure options = .ok o) :
    o.adapter = options.adapter := by
  unfold configure at h
  split at h
  next => cases h
  next => cases h; rfl

/-! ## Replaying over another adapter -/

/-- A record of a gap is applied without a look at the adapter. -/
theorem applyRecord_of_gap {record : JournalRecord} (hgap : record.isAdmission = false)
    (s : ProjectionStore σ) (a : σ) :
    applyRecord o { s with adapter := a } record =
      (applyRecord o s record).map fun s' => { s' with adapter := a } := by
  cases record with
  | admitted tokenId entry remoteHeight settlementId => cases hgap
  | gapOpened tokenId settlement =>
      simp only [applyRecord]
      cases toSettlement settlement with
      | error e => rfl
      | ok r =>
          simp only [bind, Except.bind, replayGapOpened]
          split
          next => rfl
          next => split <;> rfl
  | gapCancelled tokenId settlementId =>
      simp only [applyRecord]
      cases bigInt tokenId with
      | error e => rfl
      | ok n =>
          simp only [bind, Except.bind, replayGapCancelled]
          split <;> rfl
  | unknown kind => rfl

theorem adapter_of_gap {record : JournalRecord} (hgap : record.isAdmission = false)
    (h : applyRecord o s record = .ok t) : t.adapter = s.adapter := by
  have happly := applyRecord_of_gap (o := o) hgap s s.adapter
  rw [h] at happly
  have hsame : t = { t with adapter := s.adapter } := Except.ok.inj happly
  rw [hsame]

/-- An admission that is applied again has put an entry in and advanced a height. -/
theorem applyRecord_admitted_eq_ok {tokenText heightText : String} {entry : EntryJson}
    {settlementId : Option Bytes32} :
    applyRecord o s (.admitted tokenText entry heightText settlementId) = .ok t ↔
      ∃ tokenId candidate height, bigInt tokenText = .ok tokenId ∧
        toCandidate entry = .ok candidate ∧ bigInt heightText = .ok height ∧
        s.replayAdmitted o tokenId candidate height settlementId = .ok t := by
  simp only [applyRecord, bind_eq_ok]
  constructor
  · rintro ⟨tokenId, htoken, candidate, hcandidate, height, hheight, hreplay⟩
    exact ⟨tokenId, candidate, height, htoken, hcandidate, hheight, hreplay⟩
  · rintro ⟨tokenId, candidate, height, htoken, hcandidate, hheight, hreplay⟩
    exact ⟨tokenId, htoken, candidate, hcandidate, height, hheight, hreplay⟩

theorem replayAdmitted_over {tokenId height : Int} {candidate : CandidateEntry}
    {settlementId : Option Bytes32}
    (h : s.replayAdmitted o tokenId candidate height settlementId = .ok t) :
    o.adapter.advanceHeight s.adapter tokenId height = .ok t.adapter ∧
      ∀ a b, o.adapter.advanceHeight a tokenId height = .ok b →
        { s with adapter := a }.replayAdmitted o tokenId candidate height settlementId =
          .ok { t with adapter := b } := by
  unfold replayAdmitted at h ⊢
  have hprojection (a : σ) : projectionOf { s with adapter := a } tokenId =
      s.projectionOf tokenId := rfl
  simp only [hprojection]
  cases hadmitted : (s.projectionOf tokenId).admitEntry candidate.toJs with
  | error e =>
      rw [hadmitted] at h
      cases h
  | ok result =>
      simp only [hadmitted] at h
      cases hadvance : o.adapter.advanceHeight s.adapter tokenId height with
      | error message =>
          rw [hadvance] at h
          cases h
      | ok adapter =>
          simp only [hadvance] at h
          cases settlementId with
          | none =>
              cases h
              refine ⟨rfl, fun a b hb => ?_⟩
              simp only [hb]
          | some id =>
              cases h
              refine ⟨rfl, fun a b hb => ?_⟩
              simp only [hb]
              rfl

/-- A record that applies to a store applies to it over another adapter. Each height is
then the one the record left, or untouched on both sides. -/
theorem applyRecord_over (hsetter : o.adapter.IsSetter) {record : JournalRecord}
    (happly : applyRecord o s record = .ok t) (a : σ) :
    ∃ b, applyRecord o { s with adapter := a } record = .ok { t with adapter := b } ∧
      o.adapter.isFinalized b = o.adapter.isFinalized a ∧
      o.adapter.stateRootAt b = o.adapter.stateRootAt a ∧
      ∀ tokenId,
        o.adapter.acceptedHeight b tokenId = o.adapter.acceptedHeight t.adapter tokenId ∨
          o.adapter.acceptedHeight t.adapter tokenId =
              o.adapter.acceptedHeight s.adapter tokenId ∧
            o.adapter.acceptedHeight b tokenId = o.adapter.acceptedHeight a tokenId := by
  by_cases hgap : record.isAdmission = false
  · refine ⟨a, ?_, rfl, rfl, fun tokenId => Or.inr ⟨?_, rfl⟩⟩
    · rw [applyRecord_of_gap hgap, happly]
      rfl
    · rw [adapter_of_gap hgap happly]
  · cases record with
    | gapOpened | gapCancelled | unknown => exact absurd rfl hgap
    | admitted tokenText entry heightText settlementId =>
        obtain ⟨token, candidate, height, htoken, hcandidate, hheight, hreplay⟩ :=
          applyRecord_admitted_eq_ok.mp happly
        obtain ⟨hadvance, hover⟩ := replayAdmitted_over hreplay
        obtain ⟨b, hb, hbheights⟩ := hsetter a token height
        obtain ⟨c, hc, hcheights⟩ := hsetter s.adapter token height
        obtain ⟨hfinalized, hroots⟩ := o.adapter.advance_frame a token height b hb
        -- The setter took the height for both, and for this token alone.
        have htaken : c = t.adapter := Except.ok.inj (hc.symm.trans hadvance)
        rw [htaken] at hcheights
        refine ⟨b, applyRecord_admitted_eq_ok.mpr
          ⟨token, candidate, height, htoken, hcandidate, hheight, hover a b hb⟩,
          hfinalized, hroots, fun tokenId => ?_⟩
        rw [hbheights, hcheights]
        by_cases heq : tokenId = token
        · simp [heq]
        · simp [heq]

/-- So a whole replay can be run over another adapter. Each height is then the one the
replay reached, or the one that adapter came with. -/
theorem replay_over (hsetter : o.adapter.IsSetter) {records : List JournalRecord}
    (hreplay : replay o s records = .ok t) {a used : σ} (hover : ∀ tokenId,
      o.adapter.acceptedHeight a tokenId = o.adapter.acceptedHeight s.adapter tokenId ∨
        o.adapter.acceptedHeight a tokenId = o.adapter.acceptedHeight used tokenId) :
    ∃ b, replay o { s with adapter := a } records = .ok { t with adapter := b } ∧
      o.adapter.isFinalized b = o.adapter.isFinalized a ∧
      o.adapter.stateRootAt b = o.adapter.stateRootAt a ∧
      ∀ tokenId,
        o.adapter.acceptedHeight b tokenId = o.adapter.acceptedHeight t.adapter tokenId ∨
          o.adapter.acceptedHeight b tokenId = o.adapter.acceptedHeight used tokenId := by
  induction records generalizing s a with
  | nil =>
      cases hreplay
      exact ⟨a, rfl, rfl, rfl, hover⟩
  | cons record rest ih =>
      obtain ⟨next, happly, hrest⟩ := replay_cons_eq_ok.mp hreplay
      obtain ⟨b, hb, hfinalized, hroots, hheights⟩ := applyRecord_over hsetter happly a
      have hnext (tokenId : Int) :
          o.adapter.acceptedHeight b tokenId = o.adapter.acceptedHeight next.adapter tokenId ∨
            o.adapter.acceptedHeight b tokenId = o.adapter.acceptedHeight used tokenId := by
        rcases hheights tokenId with hsame | ⟨huntouched, hkept⟩
        · exact Or.inl hsame
        · rw [hkept, huntouched]
          exact hover tokenId
      obtain ⟨c, hc, hfinalized', hroots', hheights'⟩ := ih hrest hnext
      refine ⟨c, ?_, hfinalized'.trans hfinalized, hroots'.trans hroots, hheights'⟩
      rw [replay_cons, hb]
      exact hc

/-- Records of gaps replay over any adapter, and leave it alone. -/
theorem replay_of_gaps {records : List JournalRecord}
    (hgaps : ∀ record ∈ records, record.isAdmission = false) (s : ProjectionStore σ) (a : σ) :
    replay o { s with adapter := a } records =
      (replay o s records).map fun s' => { s' with adapter := a } := by
  induction records generalizing s with
  | nil => rfl
  | cons record rest ih =>
      rw [replay_cons, replay_cons, applyRecord_of_gap (hgaps record List.mem_cons_self)]
      cases applyRecord o s record with
      | error thrown => rfl
      | ok next => exact ih (fun record hmem => hgaps record (List.mem_cons_of_mem _ hmem)) next

theorem restoreProjectionStore_of_bound {options : StoreOptions σ}
    (hconfigure : configure options = .ok o) {journal : JournalContent}
    (hidentity : journal.identity = some (identity o)) (a : σ) :
    restoreProjectionStore options a journal =
      (replay o (initial a journal) journal.records).map fun s =>
        ⟨o, s, journal.records.length⟩ := by
  simp only [restoreProjectionStore, new_of_bound hconfigure hidentity, bind, Except.bind]
  cases replay o (initial a journal) journal.records <;> rfl

/-- A journal that replays over a fresh adapter restores over the adapter in use, again and again,
if over one that reads like it the replay ends at one that does. -/
theorem restoresOver_of_replay {options : StoreOptions σ} (hconfigure : configure options = .ok o)
    {journal : JournalContent} (hidentity : journal.identity = some (identity o))
    {fresh used : σ} (hreplay : replay o (initial fresh journal) journal.records = .ok t)
    (hover : ∀ a, ReadsAs o used a → ∃ b,
      replay o (initial a journal) journal.records = .ok { t with adapter := b } ∧
        ReadsAs o used b) : RestoresOver options o fresh used journal := by
  have hrestore := restoreProjectionStore_of_bound hconfigure hidentity
  refine ⟨t, journal.records.length, by rw [hrestore, hreplay]; rfl, fun n => ?_⟩
  induction n with
  | zero =>
      obtain ⟨b, hb, hsame⟩ := hover used ⟨fun _ => rfl, rfl, rfl⟩
      exact ⟨b, by rw [restoreRepeatedly, hrestore, hb]; rfl, hsame⟩
  | succ n ih =>
      obtain ⟨a, ha, hsame⟩ := ih
      obtain ⟨b, hb, hsame'⟩ := hover a hsame
      refine ⟨b, ?_, hsame'⟩
      rw [restoreRepeatedly, ha]
      change restoreProjectionStore options a journal = _
      rw [hrestore, hb]
      rfl

/-- Over a setter it is enough that the replay reaches the heights in use. -/
theorem restoresOver_of_setter {options : StoreOptions σ} (hconfigure : configure options = .ok o)
    (hsetter : o.adapter.IsSetter) {journal : JournalContent}
    (hidentity : journal.identity = some (identity o)) {fresh used : σ}
    (hreplay : replay o (initial fresh journal) journal.records = .ok t)
    (hheights : ∀ tokenId,
      o.adapter.acceptedHeight t.adapter tokenId = o.adapter.acceptedHeight used tokenId) :
    RestoresOver options o fresh used journal := by
  refine restoresOver_of_replay hconfigure hidentity hreplay fun a hsame => ?_
  obtain ⟨b, hb, hfinalized, hroots, hreached⟩ :=
    replay_over hsetter (a := a) hreplay fun tokenId => Or.inr (hsame.heights tokenId)
  refine ⟨b, hb, fun tokenId => ?_, hfinalized.trans hsame.finalized, hroots.trans hsame.roots⟩
  rcases hreached tokenId with hsame' | hsame'
  · exact hsame'.trans (hheights tokenId)
  · exact hsame'

/-- Without an admission it is enough that there is a replay. -/
theorem restoresOver_of_gaps {options : StoreOptions σ} (hconfigure : configure options = .ok o)
    {journal : JournalContent} (hidentity : journal.identity = some (identity o))
    (hgaps : ∀ record ∈ journal.records, record.isAdmission = false) {fresh : σ}
    (hreplay : replay o (initial fresh journal) journal.records = .ok t) (used : σ) :
    RestoresOver options o fresh used journal := by
  refine restoresOver_of_replay hconfigure hidentity hreplay fun a hsame => ⟨a, ?_, hsame⟩
  have hover := replay_of_gaps (o := o) hgaps (initial fresh journal) a
  rw [hreplay] at hover
  exact hover

/-! ## Over a run -/

/-- A state whose journal replays over a fresh adapter to the heights in use. -/
structure Rebuilds (o : StoreConfig σ) (fresh : σ) (s : ProjectionStore σ) : Prop where
  identity : s.journal.identity = some (identity o)
  restorable : Restorable o fresh (· = ·) s
  heights : ∀ journal replayed, replay o (initial fresh journal) s.journal.records = .ok replayed →
    ∀ tokenId, o.adapter.acceptedHeight replayed.adapter tokenId =
      o.adapter.acceptedHeight s.adapter tokenId

theorem Effect.journal_identity {append : Option Thrown} {m : Mutation}
    {answer : Except Thrown StoreAnswer} (heffect : Effect o s append m t answer) :
    t.journal.identity = s.journal.identity := by
  cases heffect with
  | refused | opened | cancelled | unopened | uncancelled | unadmitted => rfl
  | admitted hc hadvance => rfl
  | stranded hc hadvance hlower => exact congrArg JournalContent.identity (entered_journal _ _ _ _)

/-- A mutation over a journal that takes the append. -/
theorem Rebuilds.journaled {fresh : σ} (h : Rebuilds o fresh s) (hs : s.Filed) {m : Mutation}
    {answer : Except Thrown StoreAnswer} (hfresh : Unrecorded s m) (hwritable : s.poisoned = none)
    (heffect : Effect o s none m t answer) : Rebuilds o fresh t := by
  have hkeeps : KeepsRecords o s none m := by
    cases m with
    | admitEntry => exact Or.inr (Or.inl rfl)
    | openGap => exact Or.inr hfresh
    | cancelGap => trivial
  have hrestorable : Restorable o fresh (· = ·) t := h.restorable.journaled hs.valid
    (fun _ _ => Int.le_of_eq) (fun _ => rfl) hkeeps heffect
  refine ⟨heffect.journal_identity.trans h.identity, hrestorable, ?_⟩
  intro journal replayed hreplay
  obtain ⟨replayed', hreplay', _, hmirrors⟩ := hrestorable journal
  rw [hreplay] at hreplay'
  rw [Except.ok.inj hreplay']
  exact (hmirrors (heffect.poisoned.trans hwritable)).heights

/-- A mutation whose append threw, with the height put back. -/
theorem Rebuilds.unjournaled {fresh : σ} (h : Rebuilds o fresh s) (hjournal : t.journal = s.journal)
    (hheights : ∀ tokenId, o.adapter.acceptedHeight t.adapter tokenId =
      o.adapter.acceptedHeight s.adapter tokenId) (hpoisoned : t.poisoned ≠ none) :
    Rebuilds o fresh t := by
  refine ⟨by rw [hjournal]; exact h.identity, fun journal => ?_, ?_⟩
  · obtain ⟨replayed, hreplay, hbook, _⟩ := h.restorable journal
    rw [hjournal]
    exact ⟨replayed, hreplay, hbook, fun hnone => absurd hnone hpoisoned⟩
  · intro journal replayed hreplay tokenId
    rw [hjournal] at hreplay
    rw [hheights, h.heights journal replayed hreplay]

theorem Rebuilds.moves {fresh : σ} (h : Rebuilds o fresh s) {a : σ}
    (ha : ∀ tokenId, o.adapter.acceptedHeight a tokenId =
      o.adapter.acceptedHeight s.adapter tokenId) : Rebuilds o fresh { s with adapter := a } := by
  refine ⟨h.identity, fun journal => ?_, ?_⟩
  · obtain ⟨replayed, hreplay, hbook, hmirrors⟩ := h.restorable journal
    refine ⟨replayed, hreplay, hbook, fun hwritable => ?_⟩
    obtain ⟨hprojections, hgaps, hsettlements, hheights⟩ := hmirrors hwritable
    exact ⟨hprojections, hgaps, hsettlements, fun tokenId =>
      (hheights tokenId).trans (ha tokenId).symm⟩
  · intro journal replayed hreplay tokenId
    rw [ha, h.heights journal replayed hreplay]

/-- Nothing is stranded by a setter, nor by a mutation that leaves every height alone. -/
theorem Rebuilds.effect {fresh : σ} (h : Rebuilds o fresh s) (hs : s.Filed)
    {append : Option Thrown} {m : Mutation} {answer : Except Thrown StoreAnswer}
    (heffect : Effect o s append m t answer) (hfresh : Unrecorded s m)
    (hheights : o.adapter.IsSetter ∨ ∀ tokenId, o.adapter.acceptedHeight t.adapter tokenId =
      o.adapter.acceptedHeight s.adapter tokenId) : Rebuilds o fresh t := by
  have hall := heffect
  cases heffect with
  | refused e hrefused => exact h
  | admitted hc hadvance => exact h.journaled hs hfresh hc.writable hall
  | opened hwritable hfree => exact h.journaled hs hfresh hwritable hall
  | cancelled hwritable hopen => exact h.journaled hs hfresh hwritable hall
  | unopened hwritable hfree => exact h.unjournaled rfl (fun _ => rfl) (by simp)
  | uncancelled hwritable hopen => exact h.unjournaled rfl (fun _ => rfl) (by simp)
  | @unadmitted tokenId _ material _ _ _ adapter lowered hc hadvance hlower =>
      refine h.unjournaled rfl ?_ (by simp)
      rcases hheights with hsetter | hsame
      · intro other
        obtain ⟨lowered', hlowered, hback⟩ :=
          hsetter adapter tokenId (o.adapter.acceptedHeight s.adapter tokenId)
        rw [hlower] at hlowered
        change o.adapter.acceptedHeight lowered other = _
        rw [Except.ok.inj hlowered, hback, hc.heights hadvance]
        split
        next heq => rw [heq]
        next => rfl
      · exact hsame
  | @stranded tokenId _ _ _ _ c adapter _ hc hadvance hlower =>
      rcases hheights with hsetter | hsame
      · obtain ⟨lowered, hlowered, _⟩ :=
          hsetter adapter tokenId (o.adapter.acceptedHeight s.adapter tokenId)
        rw [hlower] at hlowered
        cases hlowered
      · have hmoved := hsame tokenId
        have hlt := (checkProof_eq_ok.mp hc.proof).2.2.1
        simp only [entered_adapter, hc.heights hadvance, if_true] at hmoved
        omega

/-- Over a setter every run can be rebuilt, whatever the journal throws. -/
theorem Rebuilds.run {fresh : σ} (hsetter : o.adapter.IsSetter) (h : Rebuilds o fresh s)
    (hs : s.Filed) (calls : List (WriterCall o)) :
    Rebuilds o fresh (LabelledRun.run (writerStep o) s calls) :=
  (hs.run_invariant (Rebuilds o fresh) (fun s _ hmove h => h.moves (hmove s.adapter))
    (fun _ _ _ _ _ hs heffect hfresh h => h.effect hs heffect hfresh (Or.inl hsetter)) h calls).2

/-! ## Over an adapter that only advances -/

/-- An adapter is already past the height of an admission. -/
def Passed (o : StoreConfig σ) (a : σ) : JournalRecord → Prop
  | .admitted tokenText _ heightText _ => ∃ tokenId height, bigInt tokenText = .ok tokenId ∧
      bigInt heightText = .ok height ∧ height ≤ o.adapter.acceptedHeight a tokenId
  | _ => True

theorem Passed.mono {a b : σ} {record : JournalRecord} (h : Passed o a record)
    (hle : ∀ tokenId, o.adapter.acceptedHeight a tokenId ≤ o.adapter.acceptedHeight b tokenId) :
    Passed o b record := by
  cases record with
  | admitted tokenText entry heightText settlementId =>
      obtain ⟨tokenId, height, htoken, hheight, hpassed⟩ := h
      exact ⟨tokenId, height, htoken, hheight, hpassed.trans (hle tokenId)⟩
  | gapOpened | gapCancelled | unknown => trivial

/-- Replaying an admission that the adapter is past throws. -/
theorem replay_throws (hguarded : o.adapter.IsGuarded) {records : List JournalRecord}
    (hpassed : ∀ record ∈ records, Passed o s.adapter record)
    (hadmission : ∃ record ∈ records, record.isAdmission = true) :
    ∃ thrown, replay o s records = .error thrown := by
  induction records generalizing s with
  | nil => simp at hadmission
  | cons record rest ih =>
      rw [replay_cons]
      cases happly : applyRecord o s record with
      | error thrown => exact ⟨thrown, rfl⟩
      | ok next =>
          cases record with
          | admitted tokenText entry heightText settlementId =>
              obtain ⟨tokenId, height, htoken, hheight, hle⟩ := hpassed _ List.mem_cons_self
              obtain ⟨tokenId', candidate, height', htoken', _, hheight', hreplay⟩ :=
                applyRecord_admitted_eq_ok.mp happly
              cases htoken.symm.trans htoken'
              cases hheight.symm.trans hheight'
              obtain ⟨message, hrefused⟩ := hguarded s.adapter tokenId height hle
              rw [(replayAdmitted_over hreplay).1] at hrefused
              cases hrefused
          | gapOpened | gapCancelled | unknown =>
              have hsame := adapter_of_gap (by rfl) happly
              apply ih
              · intro record hmem
                rw [hsame]
                exact hpassed record (List.mem_cons_of_mem _ hmem)
              · simpa [JournalRecord.isAdmission] using hadmission

/-- Heights only grow. -/
theorem Effect.heights_le (hguarded : o.adapter.IsGuarded) {append : Option Thrown} {m : Mutation}
    {answer : Except Thrown StoreAnswer} (heffect : Effect o s append m t answer) (other : Int) :
    o.adapter.acceptedHeight s.adapter other ≤ o.adapter.acceptedHeight t.adapter other := by
  have hgrows {tokenId : Int} {argument : JsValue} {material : ProofMaterial} {now : Int}
      {c : CandidateEntry} {adapter : σ} (hc : Accepted o s tokenId argument material now c)
      (hadvance : o.adapter.advanceHeight s.adapter tokenId material.remoteHeight = .ok adapter) :
      o.adapter.acceptedHeight s.adapter other ≤ o.adapter.acceptedHeight adapter other := by
    have hlt := (checkProof_eq_ok.mp hc.proof).2.2.1
    rw [hc.heights hadvance]
    split
    next heq =>
      rw [heq]
      exact Int.le_of_lt hlt
    next => exact Int.le_refl _
  cases heffect with
  | refused | opened | cancelled | unopened | uncancelled => exact Int.le_refl _
  | admitted hc hadvance =>
      simp only [ProjectionStore.admitted, entered_adapter]
      exact hgrows hc hadvance
  | @unadmitted tokenId _ _ _ _ _ adapter _ hc hadvance hlower =>
      -- The height was raised, so this adapter does not take the one before it.
      have hheight := hc.heights hadvance tokenId
      have hlt := (checkProof_eq_ok.mp hc.proof).2.2.1
      obtain ⟨message, hrefused⟩ := hguarded adapter tokenId
        (o.adapter.acceptedHeight s.adapter tokenId) (by
          rw [hheight, if_pos rfl]
          exact Int.le_of_lt hlt)
      rw [hlower] at hrefused
      cases hrefused
  | stranded hc hadvance hlower =>
      simp only [entered_adapter]
      exact hgrows hc hadvance

/-- A mutation appends nothing, a gap's record, or the record of an admission that moved
a height to the one it names. -/
theorem Effect.appends {append : Option Thrown} {m : Mutation}
    {answer : Except Thrown StoreAnswer} (heffect : Effect o s append m t answer) :
    t.journal = s.journal ∨ ∃ record, t.journal = s.journal.append record ∧
      Passed o t.adapter record ∧ (record.isAdmission = true → ∃ tokenId,
        o.adapter.acceptedHeight t.adapter tokenId ≠
          o.adapter.acceptedHeight s.adapter tokenId) := by
  cases heffect with
  | refused | unopened | uncancelled | unadmitted => exact Or.inl rfl
  | stranded hc hadvance hlower => exact Or.inl (entered_journal _ _ _ _)
  | opened hwritable hfree => exact Or.inr ⟨_, rfl, trivial, fun h => by cases h⟩
  | cancelled hwritable hopen => exact Or.inr ⟨_, rfl, trivial, fun h => by cases h⟩
  | @admitted tokenId _ material _ c adapter hc hadvance =>
      have hheight := hc.heights hadvance tokenId
      have hlt := (checkProof_eq_ok.mp hc.proof).2.2.1
      rw [if_pos rfl] at hheight
      refine Or.inr ⟨_, rfl, ⟨tokenId, material.remoteHeight, bigInt_toString _,
        bigInt_toString _, ?_⟩, fun _ => ⟨tokenId, ?_⟩⟩
      · simp only [ProjectionStore.admitted, entered_adapter, hheight, Int.le_refl]
      · simp only [ProjectionStore.admitted, entered_adapter, hheight]
        exact Int.ne_of_gt hlt

/-- A state of a run over an adapter that only advances: the adapter is past every
admission in the journal, and while no height has moved there is none. -/
structure Advanced (o : StoreConfig σ) (fresh : σ) (s : ProjectionStore σ) : Prop where
  identity : s.journal.identity = some (identity o)
  passed : ∀ record ∈ s.journal.records, Passed o s.adapter record
  ahead : ∀ tokenId,
    o.adapter.acceptedHeight fresh tokenId ≤ o.adapter.acceptedHeight s.adapter tokenId
  unmoved : (∀ tokenId, o.adapter.acceptedHeight s.adapter tokenId =
      o.adapter.acceptedHeight fresh tokenId) →
    Rebuilds o fresh s ∧ ∀ record ∈ s.journal.records, record.isAdmission = false

theorem Advanced.moves {fresh : σ} (h : Advanced o fresh s) {a : σ}
    (ha : ∀ tokenId, o.adapter.acceptedHeight a tokenId =
      o.adapter.acceptedHeight s.adapter tokenId) : Advanced o fresh { s with adapter := a } where
  identity := h.identity
  passed record hmem := (h.passed record hmem).mono fun tokenId => Int.le_of_eq (ha tokenId).symm
  ahead tokenId := (h.ahead tokenId).trans (Int.le_of_eq (ha tokenId).symm)
  unmoved hsame := by
    obtain ⟨hrebuilds, hgaps⟩ := h.unmoved fun tokenId => (ha tokenId).symm.trans (hsame tokenId)
    exact ⟨hrebuilds.moves ha, hgaps⟩

theorem Advanced.effect {fresh : σ} (hguarded : o.adapter.IsGuarded) (h : Advanced o fresh s)
    (hs : s.Filed) {append : Option Thrown} {m : Mutation} {answer : Except Thrown StoreAnswer}
    (heffect : Effect o s append m t answer) (hfresh : Unrecorded s m) : Advanced o fresh t := by
  have hle := heffect.heights_le hguarded
  refine ⟨heffect.journal_identity.trans h.identity, ?_,
    fun tokenId => (h.ahead tokenId).trans (hle tokenId), fun hsame => ?_⟩
  · have hkept : ∀ record ∈ s.journal.records, Passed o t.adapter record :=
      fun record hmem => (h.passed record hmem).mono hle
    rcases heffect.appends with hjournal | ⟨record, hjournal, hrecord, _⟩
    · rw [hjournal]
      exact hkept
    · rw [hjournal]
      intro record' hmem
      rcases List.mem_append.mp hmem with hmem | hmem
      · exact hkept record' hmem
      · rw [List.mem_singleton.mp hmem]
        exact hrecord
  · -- No height moved in this step, and none before it.
    have hunmoved (tokenId : Int) : o.adapter.acceptedHeight s.adapter tokenId =
        o.adapter.acceptedHeight fresh tokenId :=
      Int.le_antisymm ((hle tokenId).trans (Int.le_of_eq (hsame tokenId))) (h.ahead tokenId)
    have hstep (tokenId : Int) : o.adapter.acceptedHeight t.adapter tokenId =
        o.adapter.acceptedHeight s.adapter tokenId :=
      (hsame tokenId).trans (hunmoved tokenId).symm
    obtain ⟨hrebuilds, hgaps⟩ := h.unmoved hunmoved
    refine ⟨hrebuilds.effect hs heffect hfresh (Or.inr hstep), ?_⟩
    rcases heffect.appends with hjournal | ⟨record, hjournal, _, hmoved⟩
    · rw [hjournal]
      exact hgaps
    · rw [hjournal]
      intro record' hmem
      rcases List.mem_append.mp hmem with hmem | hmem
      · exact hgaps record' hmem
      · rw [List.mem_singleton.mp hmem]
        by_contra hadmission
        obtain ⟨tokenId, hne⟩ := hmoved (by simpa using hadmission)
        exact hne (hstep tokenId)

theorem Advanced.run {fresh : σ} (hguarded : o.adapter.IsGuarded) (h : Advanced o fresh s)
    (hs : s.Filed) (calls : List (WriterCall o)) :
    Advanced o fresh (LabelledRun.run (writerStep o) s calls) :=
  (hs.run_invariant (Advanced o fresh) (fun s _ hmove h => h.moves (hmove s.adapter))
    (fun _ _ _ _ _ hs heffect hfresh h => h.effect hguarded hs heffect hfresh) h calls).2

/-! ## Journals of gaps -/

/-- Records of gaps alone, each opening on a token that the records before it leave free. -/
structure GapsOnly (records : List JournalRecord) : Prop where
  gaps : ∀ record ∈ records, record.isAdmission = false
  free : ∀ before text settlement after, records = before ++ .gapOpened text settlement :: after →
    ∀ r, toSettlement settlement = .ok r → gapIn r.tokenId before = none

theorem GapsOnly.left {before records : List JournalRecord} (h : GapsOnly (before ++ records)) :
    GapsOnly before where
  gaps record hmem := h.gaps record (List.mem_append_left _ hmem)
  free := by
    intro earlier text settlement after hsplit
    refine h.free earlier text settlement (after ++ records) ?_
    rw [hsplit, List.append_assoc, List.cons_append]

/-- What replays finds its tokens free. -/
theorem gapsOnly_of_replay {fresh : σ} {journal : JournalContent} {records : List JournalRecord}
    (hgaps : ∀ record ∈ records, record.isAdmission = false)
    (hreplay : replay o (initial fresh journal) records = .ok t) : GapsOnly records where
  gaps := hgaps
  free := by
    intro before text settlement after hsplit r hr
    obtain ⟨_, heffects, _⟩ := replay_guarantees o fresh journal records t hreplay
    obtain ⟨s, _, hbefore, _, heffect⟩ := heffects before _ after hsplit
    obtain ⟨r', hr', hfree, _⟩ := heffect
    rw [hr, Except.ok.injEq] at hr'
    rw [← replay_openGaps_get hbefore, hr']
    exact hfree

/-- A state whose journal, if it is one of gaps, replays: to no settlement the store does not
have, and with every gap that the store has open. -/
def Reopens (o : StoreConfig σ) (fresh : σ) (s : ProjectionStore σ) : Prop :=
  GapsOnly s.journal.records → ∀ journal, ∃ replayed,
    replay o (initial fresh journal) s.journal.records = .ok replayed ∧
      (∀ id, (replayed.settlements.get id).isSome → (s.settlements.get id).isSome) ∧
      ∀ k id, s.openGaps.get k = some id → replayed.openGaps.get k = some id

theorem Reopens.unjournaled {fresh : σ} (h : Reopens o fresh s) (hjournal : t.journal = s.journal)
    (hkept : ∀ id, (s.settlements.get id).isSome → (t.settlements.get id).isSome)
    (hopen : ∀ k id, t.openGaps.get k = some id → s.openGaps.get k = some id) :
    Reopens o fresh t := by
  intro hgaps journal
  rw [hjournal] at hgaps ⊢
  obtain ⟨replayed, hreplay, hrecorded, hpointers⟩ := h hgaps journal
  exact ⟨replayed, hreplay, fun id hid => hkept id (hrecorded id hid),
    fun k id hk => hpointers k id (hopen k id hk)⟩

theorem Reopens.opened {fresh : σ} (h : Reopens o fresh s) {tokenId : Int} {gap : GapRequest}
    (hunrecorded : s.settlements.get gap.settlementId = none) :
    Reopens o fresh (s.opened tokenId gap) := by
  intro hgaps journal
  have hread : toSettlement (settlementJson (gap.opened tokenId)) = .ok (gap.opened tokenId) :=
    toSettlement_settlementJson rfl
  obtain ⟨replayed, hreplay, hrecorded, hpointers⟩ := h hgaps.left journal
  have hfree : replayed.openGaps.get (key tokenId) = none := by
    rw [replay_openGaps_get hreplay]
    exact hgaps.free _ _ _ [] rfl _ hread
  have hfresh : replayed.settlements.get gap.settlementId = none := by
    rw [← Option.not_isSome_iff_eq_none]
    intro hsome
    have hlive := hrecorded _ hsome
    rw [hunrecorded] at hlive
    cases hlive
  have happly : applyRecord o replayed
      (.gapOpened (key tokenId) (settlementJson (gap.opened tokenId))) =
        .ok (replayed.setGap tokenId (gap.opened tokenId)) := by
    rw [applyRecord, hread]
    exact replayGapOpened_eq_ok.mpr ⟨hfree, hfresh, rfl⟩
  refine ⟨_, replay_concat hreplay happly, fun id hid => ?_, fun k id hk => ?_⟩
  · simp only [ProjectionStore.opened, setGap, InsertionMap.get_set] at hid ⊢
    split at hid
    next heq => rw [if_pos heq]; rfl
    next hne => rw [if_neg hne]; exact hrecorded id hid
  · simp only [ProjectionStore.opened, setGap, InsertionMap.get_set] at hk ⊢
    split at hk
    next heq => rw [if_pos heq]; exact hk
    next hne => rw [if_neg hne]; exact hpointers k id hk

theorem Reopens.cancelled {fresh : σ} (h : Reopens o fresh s) {tokenId : Int} {id : Bytes32}
    (hopen : s.openGaps.get (key tokenId) = some id) :
    Reopens o fresh (s.cancelled tokenId id) := by
  intro hgaps journal
  obtain ⟨replayed, hreplay, hrecorded, hpointers⟩ := h hgaps.left journal
  have happly : applyRecord o replayed (.gapCancelled (key tokenId) id) =
      .ok (replayed.clearGap tokenId id { replayed.settlement id with status := .cancelled }) := by
    rw [applyRecord, key, bigInt_toString]
    exact replayGapCancelled_eq_ok.mpr ⟨hpointers _ _ hopen, rfl⟩
  refine ⟨_, replay_concat hreplay happly, fun id' hid => ?_, fun k id' hk => ?_⟩
  · simp only [ProjectionStore.cancelled, clearGap, InsertionMap.get_set] at hid ⊢
    split at hid
    next heq => rw [if_pos heq]; rfl
    next hne => rw [if_neg hne]; exact hrecorded id' hid
  · simp only [ProjectionStore.cancelled, clearGap, InsertionMap.get_delete] at hk ⊢
    split at hk
    next => cases hk
    next hne => rw [if_neg hne]; exact hpointers k id' hk

theorem Reopens.effect {fresh : σ} (h : Reopens o fresh s) (hs : s.Filed) {append : Option Thrown}
    {m : Mutation} {answer : Except Thrown StoreAnswer} (heffect : Effect o s append m t answer)
    (hunrecorded : Unrecorded s m) : Reopens o fresh t := by
  have hkept := (heffect.filed hs hunrecorded).2
  cases heffect with
  | refused e hrefused => exact h
  | @admitted tokenId _ material _ c adapter hc hadvance =>
      intro hgaps
      have hadmission := hgaps.gaps _ (List.mem_append_right _ (List.mem_singleton_self _))
      cases hadmission
  | opened hwritable hfree => exact h.opened hunrecorded
  | cancelled hwritable hopen => exact h.cancelled hopen
  | unopened hwritable hfree => exact h.unjournaled rfl hkept fun _ _ hk => hk
  | uncancelled hwritable hopen =>
      exact h.unjournaled rfl hkept fun k id hk => by rwa [repointed_get] at hk
  | unadmitted hc hadvance hlower =>
      exact h.unjournaled rfl hkept fun k id hk => by rwa [repointed_get] at hk
  | stranded hc hadvance hlower =>
      -- The gap that was left closed is still open on the journal.
      refine h.unjournaled (entered_journal _ _ _ _) hkept fun k id hk => ?_
      rw [entered_openGaps_get] at hk
      split at hk
      next => cases hk
      next => exact hk

theorem Reopens.run {fresh : σ} (h : Reopens o fresh s) (hs : s.Filed)
    (calls : List (WriterCall o)) :
    Reopens o fresh (LabelledRun.run (writerStep o) s calls) :=
  (hs.run_invariant (Reopens o fresh)
    (fun _ _ _ h => h.unjournaled rfl (fun _ hid => hid) fun _ _ hk => hk)
    (fun _ _ _ _ _ hs heffect hunrecorded h => h.effect hs heffect hunrecorded) h calls).2

theorem Reopens.initial {fresh adapter : σ} {identity : Option JournalIdentity} :
    Reopens o fresh (initial adapter ⟨identity, []⟩) := by
  intro _ journal
  exact ⟨_, rfl, fun _ hid => hid, fun _ _ hk => hk⟩

/-! ## Restoring what a run wrote -/

theorem Rebuilds.initial {fresh : σ} :
    Rebuilds o fresh (initial fresh ⟨some (ProjectionStore.identity o), []⟩) where
  identity := rfl
  restorable := Restorable.initial _ fun _ => rfl
  heights journal replayed hreplay := by
    cases hreplay
    exact fun _ => rfl

theorem Advanced.initial {fresh : σ} :
    Advanced o fresh (initial fresh ⟨some (ProjectionStore.identity o), []⟩) where
  identity := rfl
  passed := by simp [ProjectionStore.initial]
  ahead _ := Int.le_refl _
  unmoved _ := ⟨Rebuilds.initial, by simp [ProjectionStore.initial]⟩

/-- Over the memory adapter every run leaves a journal that restores over it again. -/
theorem memory_restoresOver {chain : MemoryChain.Options} {options : StoreOptions MemoryChain}
    {o : StoreConfig MemoryChain} {start : ProjectionStore MemoryChain}
    (hport : options.adapter = MemoryChain.adapter chain)
    (hnew : new options (MemoryChain.new chain) JournalContent.empty = .ok (o, start))
    (calls : List (WriterCall o)) :
    let s := LabelledRun.run (writerStep o) start calls
    RestoresOver options o (MemoryChain.new chain) s.adapter s.journal := by
  intro s
  obtain ⟨hconfigure, rfl⟩ := new_eq_ok hnew
  have hsetter : o.adapter.IsSetter := by
    rw [configure_adapter hconfigure, hport]
    exact MemoryChain.isSetter chain
  have h : Rebuilds o (MemoryChain.new chain) s :=
    Rebuilds.initial.run hsetter (Filed.initial _ _) calls
  obtain ⟨replayed, hreplay, _⟩ := h.restorable s.journal
  exact restoresOver_of_setter hconfigure hsetter h.identity hreplay
    (h.heights s.journal replayed hreplay)

/-- Over the Ethereum adapter a run is either not past any height, or past its journal. -/
theorem ethereum_advanced {chain : EthereumChain.Options} {options : StoreOptions EthereumChain}
    {o : StoreConfig EthereumChain} {start : ProjectionStore EthereumChain}
    (hport : options.adapter = EthereumChain.adapter chain)
    (hnew : new options EthereumChain.new JournalContent.empty = .ok (o, start))
    (calls : List (WriterCall o)) :
    configure options = .ok o ∧ o.adapter = EthereumChain.adapter chain ∧
      o.adapter.IsGuarded ∧
      Advanced o EthereumChain.new (LabelledRun.run (writerStep o) start calls) := by
  obtain ⟨hconfigure, rfl⟩ := new_eq_ok hnew
  have hadapter : o.adapter = EthereumChain.adapter chain := by
    rw [configure_adapter hconfigure, hport]
  have hguarded : o.adapter.IsGuarded := by
    rw [hadapter]
    exact EthereumChain.isGuarded chain
  exact ⟨hconfigure, hadapter, hguarded, Advanced.initial.run hguarded (Filed.initial _ _) calls⟩

/-- A journal with an admission does not restore over an adapter that is past it. -/
theorem Advanced.restore_throws {options : StoreOptions σ} (hconfigure : configure options = .ok o)
    (hguarded : o.adapter.IsGuarded) {fresh : σ} (h : Advanced o fresh s)
    (hadmission : ∃ record ∈ s.journal.records, record.isAdmission = true) :
    ∃ thrown, restoreProjectionStore options s.adapter s.journal = .error thrown := by
  obtain ⟨thrown, hthrows⟩ := replay_throws (s := ProjectionStore.initial s.adapter s.journal)
    hguarded h.passed hadmission
  exact ⟨thrown, by rw [restoreProjectionStore_of_bound hconfigure h.identity, hthrows]; rfl⟩

theorem Advanced.gapsOnly_of_restoresOver {options : StoreOptions σ}
    (hconfigure : configure options = .ok o) (hguarded : o.adapter.IsGuarded) {fresh : σ}
    (h : Advanced o fresh s) (hrestores : RestoresOver options o fresh s.adapter s.journal) :
    GapsOnly s.journal.records := by
  obtain ⟨restored, applied, hfresh, hrepeatedly⟩ := hrestores
  have hgaps : ∀ record ∈ s.journal.records, record.isAdmission = false := by
    intro record hmem
    by_contra hadmission
    obtain ⟨thrown, hthrows⟩ := h.restore_throws hconfigure hguarded
      ⟨record, hmem, by simpa using hadmission⟩
    obtain ⟨a, ha, _⟩ := hrepeatedly 0
    rw [restoreRepeatedly, hthrows] at ha
    cases ha
  rw [restoreProjectionStore_of_bound hconfigure h.identity] at hfresh
  cases hreplay : replay o (ProjectionStore.initial fresh s.journal) s.journal.records with
  | error thrown =>
      rw [hreplay] at hfresh
      cases hfresh
  | ok replayed => exact gapsOnly_of_replay hgaps hreplay

/-- A run over the memory adapter, whatever its journal throws, leaves a journal that
restores over that adapter again and again. Over the Ethereum adapter it does so exactly when
the journal has gaps alone, as it has while no height was accepted; with the first admission
on the journal the restore throws. -/
theorem run_restores_over_used (memory : MemoryChain.Options) (ethereum : EthereumChain.Options) :
    (∀ (options : StoreOptions MemoryChain) (o : StoreConfig MemoryChain)
      (start : ProjectionStore MemoryChain) (calls : List (WriterCall o)),
      options.adapter = MemoryChain.adapter memory →
      new options (MemoryChain.new memory) JournalContent.empty = .ok (o, start) →
      let s := LabelledRun.run (writerStep o) start calls
      RestoresOver options o (MemoryChain.new memory) s.adapter s.journal) ∧
    ∀ (options : StoreOptions EthereumChain) (o : StoreConfig EthereumChain)
      (start : ProjectionStore EthereumChain) (calls : List (WriterCall o)),
      options.adapter = EthereumChain.adapter ethereum →
      new options EthereumChain.new JournalContent.empty = .ok (o, start) →
      let s := LabelledRun.run (writerStep o) start calls
      (RestoresOver options o EthereumChain.new s.adapter s.journal ↔
        GapsOnly s.journal.records) ∧
      ((∀ tokenId, s.adapter.acceptedHeight tokenId = 0) → GapsOnly s.journal.records) ∧
      ((∃ record ∈ s.journal.records, record.isAdmission = true) →
        ∃ thrown, restoreProjectionStore options s.adapter s.journal = .error thrown) := by
  constructor
  · intro options o start calls hport hnew
    exact memory_restoresOver hport hnew calls
  · intro options o start calls hport hnew s
    obtain ⟨hconfigure, hadapter, hguarded, h⟩ := ethereum_advanced hport hnew calls
    have hthrows := h.restore_throws hconfigure hguarded
    refine ⟨⟨fun hrestores => ?_, fun hgaps => ?_⟩, fun hzero => ?_, hthrows⟩
    · exact h.gapsOnly_of_restoresOver hconfigure hguarded hrestores
    · obtain ⟨_, hstart⟩ := new_eq_ok hnew
      have hreopens : Reopens o EthereumChain.new s := by
        have hinitial : Reopens o EthereumChain.new start := by
          rw [hstart]
          exact Reopens.initial
        exact hinitial.run (by rw [hstart]; exact Filed.initial _ _) calls
      obtain ⟨replayed, hreplay, _⟩ := hreopens hgaps s.journal
      exact restoresOver_of_gaps hconfigure h.identity hgaps.gaps hreplay s.adapter
    · have hunmoved (tokenId : Int) : o.adapter.acceptedHeight s.adapter tokenId =
          o.adapter.acceptedHeight EthereumChain.new tokenId := by
        rw [hadapter]
        exact hzero tokenId
      obtain ⟨hrebuilds, hgaps⟩ := h.unmoved hunmoved
      obtain ⟨replayed, hreplay, _⟩ := hrebuilds.restorable s.journal
      exact gapsOnly_of_replay hgaps hreplay

/-! ### One admission -/

def ethereumOptions : StoreOptions EthereumChain :=
  ⟨word '7', word '8', ⟨InsertionMap.empty.set (word '8') (trusting EthereumChain), ["trusting"]⟩,
    EthereumChain.adapter ⟨1, zeroAddress⟩⟩

/-- The first entry of token 1, at height 5 of a chain finalized through 10. -/
def ethereumAdmission : List (WriterCall ethereumConfig) :=
  [.adapterMoves (fun a => { a with finalizedHeight := 10 }) (fun _ _ => rfl),
    .admitEntry 1 firstCandidate.toJs ⟨"trusting", 5, .null⟩ 150 none]

abbrev ethereumAdmitted : ProjectionStore EthereumChain :=
  LabelledRun.run (writerStep ethereumConfig)
    (initial EthereumChain.new ⟨some (identity ethereumConfig), []⟩) ethereumAdmission

theorem used_adapter_refuses :
    new ethereumOptions EthereumChain.new JournalContent.empty =
        .ok (ethereumConfig, initial EthereumChain.new ⟨some (identity ethereumConfig), []⟩) ∧
      (∃ restored, restoreProjectionStore ethereumOptions EthereumChain.new
        ethereumAdmitted.journal = .ok restored) ∧
      restoreProjectionStore ethereumOptions ethereumAdmitted.adapter ethereumAdmitted.journal =
        .error (.error "accepted height must advance: 5 <= 5") ∧
      ¬ RestoresOver ethereumOptions ethereumConfig EthereumChain.new ethereumAdmitted.adapter
        ethereumAdmitted.journal := by
  have hthrows : restoreProjectionStore ethereumOptions ethereumAdmitted.adapter
      ethereumAdmitted.journal = .error (.error "accepted height must advance: 5 <= 5") := rfl
  refine ⟨rfl, ⟨_, rfl⟩, hthrows, ?_⟩
  rintro ⟨restored, applied, _, hrepeatedly⟩
  obtain ⟨a, ha, _⟩ := hrepeatedly 0
  rw [restoreRepeatedly, hthrows] at ha
  cases ha

/-- A gap that is opened and cancelled, and one whose cancellation the journal does not take. -/
def ethereumGaps : List (WriterCall ethereumConfig) :=
  [.begin oneAuthority ⟨1, word '5', zeroAddress, firstCandidate.holder, word '6', 200⟩ 50 none,
    .cancel (word '5') zeroAddress 250 none,
    .begin oneAuthority ⟨1, word '9', zeroAddress, firstCandidate.holder, word '6', 400⟩ 300 none,
    .cancel (word '9') zeroAddress 450 (some (.error "disk full"))]

abbrev ethereumCancelled : ProjectionStore EthereumChain :=
  LabelledRun.run (writerStep ethereumConfig)
    (initial EthereumChain.new ⟨some (identity ethereumConfig), []⟩) ethereumGaps

theorem run_restores_over_used_first :
    let memory := LabelledRun.run (writerStep memoryConfig)
      (initial (MemoryChain.new {}) ⟨some (identity memoryConfig), []⟩)
      [.admitEntry 1 firstCandidate.toJs ⟨"trusting", 5, .null⟩ 150 none]
    memory.entries 1 ≠ [] ∧ ethereumCancelled.journal.records.length = 3 ∧
      RestoresOver memoryOptions memoryConfig (MemoryChain.new {}) memory.adapter memory.journal ∧
      RestoresOver ethereumOptions ethereumConfig EthereumChain.new ethereumCancelled.adapter
        ethereumCancelled.journal ∧
      ∃ thrown, restoreProjectionStore ethereumOptions ethereumAdmitted.adapter
        ethereumAdmitted.journal = .error thrown := by
  obtain ⟨hmemory, hethereum⟩ := run_restores_over_used {} ⟨1, zeroAddress⟩
  refine ⟨by decide, by decide, hmemory memoryOptions memoryConfig _ _ rfl rfl, ?_, ?_⟩
  · obtain ⟨hexact, hunmoved, _⟩ := hethereum ethereumOptions ethereumConfig _ ethereumGaps rfl rfl
    exact hexact.mpr (hunmoved fun _ => rfl)
  · obtain ⟨_, _, hthrows⟩ := hethereum ethereumOptions ethereumConfig _ ethereumAdmission rfl rfl
    exact hthrows (by decide)

end ProjectionStore

end Erc8415
