import Mathlib.Data.List.Sort
import Erc8415.Persistence.JournalRecord
import Erc8415.Projection.Kernel
import Erc8415.Projection.Ports
import Erc8415.Proof.Profile

/-! # The projection store

One register's projections, the gap records beside them, and the admission path
that writes to both. A call is a function of the store, of what the clock reads
for the proof profile, and of what the journal does with the append the call
makes; it returns the store after the call with a result or what was thrown.
-/

namespace Erc8415

structure AdmissionResult where
  entry : ProjectionEntry
  gapClosed : Bool
  remoteHeight : Int
  deriving DecidableEq, Repr

structure StoreOptions (σ : Type) where
  registerId : Bytes32
  verificationProfile : Bytes32
  profiles : ProofProfileRegistry σ
  adapter : RemoteChainAdapter σ

/-- The options of a store whose profile has been resolved. -/
structure StoreConfig (σ : Type) where
  registerId : Bytes32
  verificationProfile : Bytes32
  profile : ProofProfile σ
  adapter : RemoteChainAdapter σ

/-- The gap a caller supplies: a settlement without its token and status. -/
structure GapRequest where
  settlementId : Bytes32
  initiator : Address
  expectedHolder : Address
  snapshotHash : Bytes32
  openedAt : Int
  deadline : Int
  deriving DecidableEq, Repr

/-- The record a gap request opens. -/
def GapRequest.opened (gap : GapRequest) (tokenId : Int) : Settlement where
  settlementId := gap.settlementId
  tokenId := tokenId
  initiator := gap.initiator
  expectedHolder := gap.expectedHolder
  snapshotHash := gap.snapshotHash
  openedAt := gap.openedAt
  deadline := gap.deadline
  status := .open

structure ProjectionStore (σ : Type) where
  projections : InsertionMap String TokenProjection
  openGaps : InsertionMap String Bytes32
  settlements : InsertionMap Bytes32 Settlement
  poisoned : Option String
  adapter : σ
  journal : JournalContent

/-- The map key of a token: its decimal text. -/
def key (tokenId : Int) : String := toString tokenId

theorem key_inj {a b : Int} : key a = key b ↔ a = b := BigIntText.toString_inj

namespace ProjectionStore

variable {σ : Type}

/-! ## Construction -/

/-- The identity a store binds its journal to. -/
def identity (o : StoreConfig σ) : JournalIdentity where
  registerId := o.registerId
  verificationProfile := o.verificationProfile
  chainId := some (toString o.adapter.chainId)
  contract := some o.adapter.contract

/-- A store with no projection, over an adapter and a journal it is bound to. -/
def initial (adapter : σ) (journal : JournalContent) : ProjectionStore σ where
  projections := InsertionMap.empty
  openGaps := InsertionMap.empty
  settlements := InsertionMap.empty
  poisoned := none
  adapter := adapter
  journal := journal

/-- The profile the options name, or the constructor's refusal. -/
def configure (options : StoreOptions σ) : Except Thrown (StoreConfig σ) :=
  match options.profiles.get options.verificationProfile with
  | none => .error (.error "configured verification profile is not registered")
  | some profile =>
      .ok ⟨options.registerId, options.verificationProfile, profile, options.adapter⟩

/-- `new ProjectionStore(options)`. -/
def new (options : StoreOptions σ) (adapter : σ) (journal : JournalContent) :
    Except Thrown (StoreConfig σ × ProjectionStore σ) := do
  let o ← configure options
  let journal ← journal.bind (identity o)
  return (o, initial adapter journal)

/-! ## Reading -/

section Reading

variable (s : ProjectionStore σ)

/-- `none` where a key is no integer, which `BigInt` would throw on. -/
def tokens : Option (List Int) :=
  (s.projections.keys.mapM BigIntText.parse).map fun ids => ids.mergeSort (· ≤ ·)

def entryCount (tokenId : Int) : Nat :=
  match s.projections.get (key tokenId) with
  | some projection => projection.length
  | none => 0

def requireProjection (tokenId : Int) : Except ProjectionError TokenProjection :=
  match s.projections.get (key tokenId) with
  | none => reject .unknownToken s!"no projection for token {tokenId}"
  | some projection => .ok projection

/-- Ask a projection, or reject an unknown token. -/
def ask {α : Type} (tokenId : Int) (query : TokenProjection → Answer α) : Answer α :=
  match s.requireProjection tokenId with
  | .error e => some (.error e)
  | .ok projection => query projection

def entryAt (tokenId version : Int) : Answer ProjectionEntry :=
  s.ask tokenId fun projection => projection.entryAt version

def currentEntry (tokenId : Int) : Except ProjectionError ProjectionEntry := do
  (← s.requireProjection tokenId).currentEntry

def entries (tokenId : Int) : List ProjectionEntry :=
  match s.projections.get (key tokenId) with
  | some projection => projection.entries
  | none => []

def entryAsOf (tokenId instant : Int) : Answer ProjectionEntry :=
  s.ask tokenId fun projection => projection.entryAsOf instant

def holderAsOf (tokenId instant : Int) : Answer Address :=
  s.ask tokenId fun projection => projection.holderAsOf instant

def isFinalAsOf (tokenId instant : Int) : Bool :=
  match s.projections.get (key tokenId) with
  | some projection => projection.isFinalAsOf instant
  | none => false

/-- The open settlement id of a token, or the zero word. -/
def openGapOf (tokenId : Int) : Bytes32 :=
  (s.openGaps.get (key tokenId)).getD zeroBytes32

/-- What an unrecorded settlement reads as. -/
def unknownSettlement (settlementId : Bytes32) : Settlement where
  settlementId := settlementId
  tokenId := 0
  initiator := zeroAddress
  expectedHolder := zeroAddress
  snapshotHash := zeroBytes32
  openedAt := 0
  deadline := 0
  status := .none

def settlement (settlementId : Bytes32) : Settlement :=
  (s.settlements.get settlementId).getD (unknownSettlement settlementId)

/-- Every settlement recorded for a token, open or closed, oldest first. -/
def settlementsFor (tokenId : Int) : List Settlement :=
  (s.settlements.values.filter fun record => record.tokenId = tokenId).mergeSort
    fun a b => a.openedAt ≤ b.openedAt

end Reading

/-! ## Writing -/

def assertWritable (s : ProjectionStore σ) : Except ProjectionError Unit :=
  match s.poisoned with
  | some why => reject .storeNotWritable s!"the store stopped accepting writes: {why}"
  | none => .ok ()

/-- Record a mutation that has already been applied, and undo it if the append
throws. A rollback that throws itself escapes before the store is poisoned. -/
def record (s : ProjectionStore σ) (entry : JournalRecord) (append : Option Thrown)
    (rollback : ProjectionStore σ → ProjectionStore σ × Except Thrown Unit) :
    ProjectionStore σ × Except Thrown Unit :=
  match append with
  | none => ({ s with journal := s.journal.append entry }, .ok ())
  | some error =>
      match rollback s with
      | (s', .error thrown) => (s', .error thrown)
      | (s', .ok ()) => ({ s' with poisoned := some error.message }, .error error)

/-- Point a token at an open settlement and record it. -/
def setGap (s : ProjectionStore σ) (tokenId : Int) (record : Settlement) : ProjectionStore σ :=
  { s with
    openGaps := s.openGaps.set (key tokenId) record.settlementId
    settlements := s.settlements.set record.settlementId record }

/-- Clear a token's pointer and rewrite the settlement it pointed to. -/
def clearGap (s : ProjectionStore σ) (tokenId : Int) (settlementId : Bytes32)
    (record : Settlement) : ProjectionStore σ :=
  { s with
    openGaps := s.openGaps.delete (key tokenId)
    settlements := s.settlements.set settlementId record }

/-- Point a token back at a settlement and restore its record. -/
def restoreGap (s : ProjectionStore σ) (tokenId : Int) (settlementId : Bytes32)
    (record : Settlement) : ProjectionStore σ :=
  { s with
    openGaps := s.openGaps.set (key tokenId) settlementId
    settlements := s.settlements.set settlementId record }

/-- Record an open gap. At most one per token. -/
def openGap (s : ProjectionStore σ) (tokenId : Int) (gap : GapRequest) (append : Option Thrown) :
    ProjectionStore σ × Except Thrown Settlement :=
  match s.assertWritable with
  | .error e => (s, .error (.rejection e))
  | .ok () =>
      if s.openGaps.has (key tokenId) then
        (s, .error (.rejection ⟨.gapAlreadyOpen, s!"token {tokenId} already has an open gap"⟩))
      else
        let record := gap.opened tokenId
        let written := (s.setGap tokenId record).record
          (.gapOpened (key tokenId) (settlementJson record)) append fun s =>
            ({ s with
                openGaps := s.openGaps.delete (key tokenId)
                settlements := s.settlements.delete record.settlementId }, .ok ())
        (written.1, written.2.map fun _ => record)

/-- Close an open gap without admitting anything. -/
def cancelGap (s : ProjectionStore σ) (tokenId : Int) (append : Option Thrown) :
    ProjectionStore σ × Except Thrown Settlement :=
  match s.assertWritable with
  | .error e => (s, .error (.rejection e))
  | .ok () =>
      match s.openGaps.get (key tokenId) with
      | none => (s, .error (.rejection ⟨.noOpenGap, s!"token {tokenId} has no open gap"⟩))
      | some settlementId =>
          let opened := s.settlement settlementId
          let cancelled := { opened with status := .cancelled }
          let written := (s.clearGap tokenId settlementId cancelled).record
            (.gapCancelled (key tokenId) settlementId) append fun s =>
              (s.restoreGap tokenId settlementId opened, .ok ())
          (written.1, written.2.map fun _ => cancelled)

/-! ## Admission -/

/-- The commitment a proof has to name as the prior one. -/
def priorCommitment (s : ProjectionStore σ) (tokenId : Int) (candidate : CandidateEntry) :
    Commitment :=
  match s.projections.get (key tokenId) with
  | none => candidate.previousCommitment
  | some projection =>
      match projection.entries.getLast? with
      | none => candidate.previousCommitment
      | some latest => latest.recordCommitment

/-- What the proof profile is asked about. -/
def proofContext (o : StoreConfig σ) (s : ProjectionStore σ) (tokenId : Int)
    (candidate : CandidateEntry) : ProofContext where
  binding := {
    chainId := o.adapter.chainId
    contract := o.adapter.contract
    tokenId := tokenId
    settlementId := s.openGapOf tokenId
    snapshotHash :=
      match s.openGaps.get (key tokenId) with
      | none => zeroBytes32
      | some openId => (s.settlement openId).snapshotHash
    holder := candidate.holder
    priorCommitment := s.priorCommitment tokenId candidate
    nextCommitment := candidate.recordCommitment
    version := candidate.version
    effectiveAt := candidate.effectiveAt }
  candidate := candidate
  acceptedRemoteHeight := o.adapter.acceptedHeight s.adapter tokenId
  remoteFinalized := true

/-- The configured verifier, when the material names it. -/
def resolveProfile (o : StoreConfig σ) (id : String) : Except ProjectionError (ProofProfile σ) :=
  if id ≠ o.profile.id then
    reject .proofProfileRejected s!"proof profile does not match the configured verifier: {id}"
  else .ok o.profile

/-- Everything the admission path checks about the proof. -/
def checkProof (o : StoreConfig σ) (s : ProjectionStore σ) (tokenId : Int)
    (candidate : CandidateEntry) (material : ProofMaterial) (now : Int) :
    Except ProjectionError Unit := do
  let profile ← resolveProfile o material.profile
  rejectIf (o.adapter.isFinalized s.adapter material.remoteHeight = false) .proofProfileRejected
    s!"remote height {material.remoteHeight} is not finalized"
  rejectIf (material.remoteHeight ≤ o.adapter.acceptedHeight s.adapter tokenId)
    .proofProfileRejected
    s!"remote height must exceed the accepted height {o.adapter.acceptedHeight s.adapter tokenId}"
  match profile.verify s.adapter now material (s.proofContext o tokenId candidate) with
  | .admitted => .ok ()
  | .refused reason => reject .proofProfileRejected reason

/-- `this.#projections.get(key(tokenId)) ?? new TokenProjection()`. -/
def projectionOf (s : ProjectionStore σ) (tokenId : Int) : TokenProjection :=
  (s.projections.get (key tokenId)).getD .empty

/-- Everything that can refuse an admission before it writes: the entry the
kernel appended and the projection it left, when nothing refuses. -/
def checkAdmission (o : StoreConfig σ) (s : ProjectionStore σ) (tokenId : Int) (candidate : JsValue)
    (material : ProofMaterial) (now : Int) :
    Except ProjectionError (TokenProjection × ProjectionEntry) := do
  s.assertWritable
  let shaped ← validateCandidateShape candidate
  s.checkProof o tokenId shaped material now
  (s.projectionOf tokenId).admitEntry candidate

/-- Close whatever gap the token points at, as admitted. -/
def closeGap (s : ProjectionStore σ) (tokenId : Int) : ProjectionStore σ :=
  match s.openGaps.get (key tokenId) with
  | none => s
  | some openId => s.clearGap tokenId openId { s.settlement openId with status := .admitted }

/-- Undo the last admission of a token. One that had no projection before goes
back to having none. -/
def undoAdmission (before : ProjectionStore σ) (tokenId : Int) (target : TokenProjection)
    (s : ProjectionStore σ) : ProjectionStore σ :=
  match before.projections.get (key tokenId) with
  | none => { s with projections := s.projections.delete (key tokenId) }
  | some _ => { s with projections := s.projections.set (key tokenId) target.undoLastAdmit }

/-- What an admission puts back when its append failed: the entry, the height
and the gap, in that order. `before` is the store the admission started from. -/
def rollbackAdmission (o : StoreConfig σ) (before : ProjectionStore σ) (tokenId : Int)
    (target : TokenProjection) (s : ProjectionStore σ) :
    ProjectionStore σ × Except Thrown Unit :=
  let undone := undoAdmission before tokenId target s
  match o.adapter.advanceHeight undone.adapter tokenId
      (o.adapter.acceptedHeight before.adapter tokenId) with
  | .error message => (undone, .error (.error message))
  | .ok adapter =>
      let lowered := { undone with adapter := adapter }
      match before.openGaps.get (key tokenId) with
      | none => (lowered, .ok ())
      | some openId =>
          (lowered.restoreGap tokenId openId (before.settlement openId), .ok ())

/-- The record an admission appends. -/
def admittedRecord (s : ProjectionStore σ) (tokenId : Int) (entry : ProjectionEntry)
    (remoteHeight : Int) : JournalRecord :=
  .admitted (key tokenId) (entryJson entry) (toString remoteHeight) (s.openGaps.get (key tokenId))

/-- `admit`: everything that can refuse runs before anything is written. -/
def admitEntry (o : StoreConfig σ) (s : ProjectionStore σ) (tokenId : Int) (candidate : JsValue)
    (material : ProofMaterial) (now : Int) (append : Option Thrown) :
    ProjectionStore σ × Except Thrown AdmissionResult :=
  match s.checkAdmission o tokenId candidate material now with
  | .error e => (s, .error (.rejection e))
  | .ok (target, entry) =>
      let entered := { s with projections := s.projections.set (key tokenId) target }
      match o.adapter.advanceHeight entered.adapter tokenId material.remoteHeight with
      | .error message => (entered, .error (.error message))
      | .ok adapter =>
          let closed := { entered with adapter := adapter }.closeGap tokenId
          let written := closed.record (s.admittedRecord tokenId entry material.remoteHeight) append
            (rollbackAdmission o s tokenId target)
          (written.1, written.2.map fun _ =>
            ⟨entry, s.openGaps.has (key tokenId), material.remoteHeight⟩)

end ProjectionStore

/-! ## Calls on a store -/

/-- A call of one of the three mutators. The clock it carries is what the proof
profile reads. -/
inductive Mutation where
  | admitEntry (tokenId : Int) (candidate : JsValue) (material : ProofMaterial) (now : Int)
  | openGap (tokenId : Int) (gap : GapRequest)
  | cancelGap (tokenId : Int)

/-- What a mutator that does not throw returns. -/
inductive StoreAnswer where
  | admission (result : AdmissionResult)
  | gap (record : Settlement)
  deriving DecidableEq, Repr

/-- A mutation with what the journal does to its append (nothing, or throw), or
a move of the adapter between two mutations. -/
inductive StoreCall (σ : Type) where
  | mutate (m : Mutation) (append : Option Thrown)
  | adapterMoves (adapter : σ)

namespace ProjectionStore

variable {σ : Type} (o : StoreConfig σ) (s : ProjectionStore σ)

/-- The store after a mutation, and what the call returned or threw. -/
def perform (append : Option Thrown) :
    Mutation → ProjectionStore σ × Except Thrown StoreAnswer
  | .admitEntry tokenId candidate material now =>
      let done := s.admitEntry o tokenId candidate material now append
      (done.1, done.2.map .admission)
  | .openGap tokenId gap =>
      let done := s.openGap tokenId gap append
      (done.1, done.2.map .gap)
  | .cancelGap tokenId =>
      let done := s.cancelGap tokenId append
      (done.1, done.2.map .gap)

/-- The store after a call. -/
def step : StoreCall σ → ProjectionStore σ
  | .mutate m append => (s.perform o append m).1
  | .adapterMoves adapter => { s with adapter := adapter }

end ProjectionStore

end Erc8415
