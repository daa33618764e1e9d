import Erc8415.Projection.Store

/-! # Restoring a store

A store is rebuilt by replaying its journal. Replay puts entries back through
the kernel's own checks and gaps back through their own rules; it verifies no
proof, looks at no finalized height, and appends nothing.
-/

namespace Erc8415

/-! ## Reading records back -/

/-- `BigInt(text)`, which throws on text that is no integer. -/
def bigInt (text : String) : Except Thrown Int :=
  match BigIntText.parse text with
  | some n => .ok n
  | none => .error (.error s!"Cannot convert {text} to a BigInt")

def toCandidate (raw : EntryJson) : Except Thrown CandidateEntry := do
  let version ← bigInt raw.version
  let effectiveAt ← bigInt raw.effectiveAt
  return {
    version := version
    holder := raw.holder
    effectiveAt := effectiveAt
    recordCommitment := raw.recordCommitment
    previousCommitment := raw.previousCommitment
    registryReference := raw.registryReference }

def toSettlement (raw : SettlementJson) : Except Thrown Settlement := do
  let tokenId ← bigInt raw.tokenId
  let openedAt ← bigInt raw.openedAt
  let deadline ← bigInt raw.deadline
  return {
    settlementId := raw.settlementId
    tokenId := tokenId
    initiator := raw.initiator
    expectedHolder := raw.expectedHolder
    snapshotHash := raw.snapshotHash
    openedAt := openedAt
    deadline := deadline
    status := GapStatus.ofText raw.status }

@[simp] theorem bigInt_toString (n : Int) : bigInt (toString n) = .ok n := by
  simp only [bigInt, BigIntText.parse_toString]

@[simp] theorem ofText_text_open : GapStatus.ofText GapStatus.open.text = .open := by decide

/-- What an entry was admitted as reads back from its journal shape. -/
theorem toCandidate_entryJson (e : ProjectionEntry) :
    toCandidate (entryJson e) = .ok e.toCandidateEntry := by
  simp only [toCandidate, entryJson, bigInt_toString]
  rfl

/-- An open settlement reads back whole. -/
theorem toSettlement_settlementJson {r : Settlement} (hopen : r.status = .open) :
    toSettlement (settlementJson r) = .ok r := by
  simp only [toSettlement, settlementJson, bigInt_toString, hopen, ofText_text_open]
  rw [← hopen]
  rfl

/-! ## Replaying -/

namespace ProjectionStore

variable {σ : Type}

/-- Reapply an admission without its proof or its height checks. -/
def replayAdmitted (o : StoreConfig σ) (s : ProjectionStore σ) (tokenId : Int)
    (candidate : CandidateEntry) (remoteHeight : Int) (settlementId : Option Bytes32) :
    Except Thrown (ProjectionStore σ) :=
  match (s.projectionOf tokenId).admitEntry candidate.toJs with
  | .error e => .error (.rejection e)
  | .ok (target, _) =>
      match o.adapter.advanceHeight s.adapter tokenId remoteHeight with
      | .error message => .error (.error message)
      | .ok adapter =>
          let entered := { s with
            projections := s.projections.set (key tokenId) target
            adapter := adapter }
          match settlementId with
          | none => .ok entered
          | some id =>
              .ok (entered.clearGap tokenId id { entered.settlement id with status := .admitted })

/-- Reapply an opening, under the one-open-gap rule and the rule that an
identifier appears once. The record keeps the status it was written with. -/
def replayGapOpened (s : ProjectionStore σ) (record : Settlement) :
    Except Thrown (ProjectionStore σ) :=
  if s.openGaps.has (key record.tokenId) then
    .error (.rejection ⟨.gapAlreadyOpen, s!"token {record.tokenId} already has an open gap"⟩)
  else if s.settlements.has record.settlementId then
    .error (.rejection ⟨.settlementExists,
      s!"settlement {record.settlementId} appears twice in the journal"⟩)
  else .ok (s.setGap record.tokenId record)

/-- Reapply a cancellation of the gap that is open. -/
def replayGapCancelled (s : ProjectionStore σ) (tokenId : Int) (settlementId : Bytes32) :
    Except Thrown (ProjectionStore σ) :=
  if s.openGaps.get (key tokenId) ≠ some settlementId then
    .error (.rejection ⟨.noOpenGap, s!"token {tokenId} has no open gap {settlementId} to cancel"⟩)
  else
    .ok (s.clearGap tokenId settlementId { s.settlement settlementId with status := .cancelled })

end ProjectionStore

variable {σ : Type}

/-- Replay one record. One of a kind outside the union applies nothing. -/
def applyRecord (o : StoreConfig σ) (store : ProjectionStore σ) :
    JournalRecord → Except Thrown (ProjectionStore σ)
  | .gapOpened _ settlement => do store.replayGapOpened (← toSettlement settlement)
  | .gapCancelled tokenId settlementId => do
      store.replayGapCancelled (← bigInt tokenId) settlementId
  | .admitted tokenId entry remoteHeight settlementId => do
      let tokenId ← bigInt tokenId
      let candidate ← toCandidate entry
      let remoteHeight ← bigInt remoteHeight
      store.replayAdmitted o tokenId candidate remoteHeight settlementId
  | .unknown _ => .ok store

/-- Replay records in order, up to the first one that throws. -/
def replay (o : StoreConfig σ) (store : ProjectionStore σ) (records : List JournalRecord) :
    Except Thrown (ProjectionStore σ) :=
  records.foldlM (applyRecord o) store

structure RestoreResult (σ : Type) where
  config : StoreConfig σ
  store : ProjectionStore σ
  applied : Nat

/-- Rebuild a store over an adapter from what a journal holds. The constructor
binds the journal before a record is applied, so another projection's is refused whole. -/
def restoreProjectionStore (options : StoreOptions σ) (adapter : σ) (journal : JournalContent) :
    Except Thrown (RestoreResult σ) := do
  let (o, store) ← ProjectionStore.new options adapter journal
  let store ← replay o store journal.records
  return ⟨o, store, journal.records.length⟩

/-! ## Replays in sequence -/

theorem replay_cons (o : StoreConfig σ) (store : ProjectionStore σ) (record : JournalRecord)
    (rest : List JournalRecord) :
    replay o store (record :: rest) = applyRecord o store record >>= fun s => replay o s rest :=
  List.foldlM_cons

theorem replay_cons_eq_ok {o : StoreConfig σ} {store t : ProjectionStore σ}
    {record : JournalRecord} {rest : List JournalRecord} :
    replay o store (record :: rest) = .ok t ↔
      ∃ next, applyRecord o store record = .ok next ∧ replay o next rest = .ok t := by
  rw [replay_cons, bind_eq_ok]

/-- What each record keeps, of the records before it, the store and the records to come, a replay
that returns keeps. -/
theorem replay_rule {o : StoreConfig σ}
    {p : List JournalRecord → ProjectionStore σ → List JournalRecord → Prop}
    (hstep : ∀ before s record rest t, p before s (record :: rest) →
      applyRecord o s record = .ok t → p (before ++ [record]) t rest)
    {before records : List JournalRecord} {s t : ProjectionStore σ} (h : p before s records)
    (hreplay : replay o s records = .ok t) : p (before ++ records) t [] := by
  induction records generalizing before s with
  | nil =>
      cases hreplay
      rwa [List.append_nil]
  | cons record rest ih =>
      obtain ⟨next, hnext, hrest⟩ := replay_cons_eq_ok.mp hreplay
      have hafter := ih (hstep before s record rest next h hnext) hrest
      rwa [List.append_assoc, List.singleton_append] at hafter

theorem replay_append (o : StoreConfig σ) (store : ProjectionStore σ)
    (first second : List JournalRecord) :
    replay o store (first ++ second) = replay o store first >>= fun s => replay o s second :=
  List.foldlM_append

theorem replay_concat {o : StoreConfig σ} {store s t : ProjectionStore σ}
    {records : List JournalRecord} {record : JournalRecord} (hs : replay o store records = .ok s)
    (ht : applyRecord o s record = .ok t) : replay o store (records ++ [record]) = .ok t := by
  rw [replay_append, hs]
  change replay o s [record] = .ok t
  rw [replay_cons, ht]
  rfl

end Erc8415
