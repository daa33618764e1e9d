import Erc8415.Projection.Store

/-! # The settlement engine

The workflow over a store's gap records: who may open a gap and for how long,
what an admission that closes one has to match, and who may cancel. The engine
keeps no state of its own; each call reads the clock at most once and reaches
the store at most once.
-/

namespace Erc8415

/-! ## Authority -/

/-- Who may open a gap on a token. -/
structure SettlementAuthority where
  isSettlementAuthority : Int → Address → Bool

/-- A fixed allow-list. -/
def allowListAuthority (accounts : List Address) : SettlementAuthority where
  isSettlementAuthority _ account := (accounts.map toLowerCase).contains (toLowerCase account)

/-! ## Admission against a settlement -/

/-- Shared by trusted settlement callers and the HTTP admission route. -/
def assertSettlementAdmission (record : Settlement) (candidate : JsValue) (now : Int) :
    Except ProjectionError Unit := do
  rejectIf (record.status ≠ .open) .noOpenGap s!"settlement {record.settlementId} is not open"
  rejectIf (now > record.deadline) .settlementExpired
    s!"settlement {record.settlementId} ran past its deadline"
  let candidate ← validateCandidateShape candidate
  rejectIf (toLowerCase candidate.holder ≠ toLowerCase record.expectedHolder) .holderMismatch
    "the admitted holder is not the one this settlement was opened for"

/-! ## The engine -/

structure SettlementEngine where
  authority : SettlementAuthority
  settlementPeriod : Int

structure BeginRequest where
  tokenId : Int
  settlementId : Bytes32
  initiator : Address
  expectedHolder : Address
  snapshotHash : Bytes32
  deadline : Int
  deriving DecidableEq, Repr

namespace SettlementEngine

variable {σ : Type} (engine : SettlementEngine)

/-- Whether an open gap has run past its deadline. Expiry is not an outcome. -/
def hasExpired (record : Settlement) (now : Int) : Bool :=
  record.status = .open && now > record.deadline

/-- Everything that can refuse a request before the store is reached. -/
def checkBegin (store : ProjectionStore σ) (request : BeginRequest) (now : Int) :
    Except ProjectionError Unit := do
  rejectIf (isBytes32 request.settlementId = false ∨ request.settlementId = zeroBytes32)
    .malformedEntry "settlementId must be a non-zero bytes32"
  rejectIf (isAddress request.initiator = false ∨ isAddress request.expectedHolder = false)
    .malformedEntry "initiator and expectedHolder must be addresses"
  rejectIf (isBytes32 request.snapshotHash = false ∨ request.snapshotHash = zeroBytes32)
    .malformedEntry "snapshotHash must be a non-zero bytes32"
  rejectIf (isUint64 request.deadline = false) .malformedEntry "deadline must be a uint64"
  rejectIf (engine.authority.isSettlementAuthority request.tokenId request.initiator = false)
    .notSettlementAuthority
    s!"{request.initiator} may not open a gap on token {request.tokenId}"
  rejectIf ((store.settlement request.settlementId).status ≠ .none) .settlementExists
    s!"settlement {request.settlementId} already exists"
  rejectIf (request.deadline ≤ now) .deadlineOutOfRange "the deadline is not in the future"
  rejectIf (request.deadline - now > engine.settlementPeriod) .deadlineOutOfRange
    s!"the deadline exceeds the settlement period of {engine.settlementPeriod}"

/-- The gap a request opens at an instant. -/
def BeginRequest.gap (request : BeginRequest) (now : Int) : GapRequest where
  settlementId := request.settlementId
  initiator := request.initiator
  expectedHolder := request.expectedHolder
  snapshotHash := request.snapshotHash
  openedAt := now
  deadline := request.deadline

/-- Open a gap. -/
def begin (store : ProjectionStore σ) (request : BeginRequest) (now : Int)
    (append : Option Thrown) : ProjectionStore σ × Except Thrown Settlement :=
  match engine.checkBegin store request now with
  | .error e => (store, .error (.rejection e))
  | .ok () => store.openGap request.tokenId (BeginRequest.gap request now) append

/-- Close a gap by admitting the entry it was opened for. The submitter is not
checked. `now` is the engine's clock and `verifierNow` the proof profile's. -/
def finalize (o : StoreConfig σ) (store : ProjectionStore σ) (settlementId : Bytes32)
    (candidate : JsValue) (material : ProofMaterial) (now verifierNow : Int)
    (append : Option Thrown) : ProjectionStore σ × Except Thrown AdmissionResult :=
  let record := store.settlement settlementId
  match assertSettlementAdmission record candidate now with
  | .error e => (store, .error (.rejection e))
  | .ok () => store.admitEntry o record.tokenId candidate material verifierNow append

def checkCancel (record : Settlement) (settlementId : Bytes32) (caller : Address) (now : Int) :
    Except ProjectionError Unit := do
  rejectIf (record.status ≠ .open) .noOpenGap s!"settlement {settlementId} is not open"
  rejectIf (toLowerCase caller ≠ toLowerCase record.initiator) .notSettlementAuthority
    "only the initiator may cancel a settlement"
  rejectIf (hasExpired record now = false) .deadlineOutOfRange
    "cancellation requires a time strictly after the deadline"

/-- Close a gap without admitting anything. -/
def cancel (store : ProjectionStore σ) (settlementId : Bytes32) (caller : Address) (now : Int)
    (append : Option Thrown) : ProjectionStore σ × Except Thrown Settlement :=
  let record := store.settlement settlementId
  match checkCancel record settlementId caller now with
  | .error e => (store, .error (.rejection e))
  | .ok () => store.cancelGap record.tokenId append

end SettlementEngine

end Erc8415
