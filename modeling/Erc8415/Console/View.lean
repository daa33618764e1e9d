import Erc8415.Access.Roles
import Erc8415.Proof.Encodings
import Erc8415.Settlement.Engine

/-! # What the console shows

The console's read of a token: the overview at an instant, and the timeline of
admitted entries and settlements in the order they take effect. The tradeable
position and the confirmed holder are read apart, one from the owner source and
one from the projection, and neither stands in for the other.
-/

namespace Erc8415

variable {σ : Type}

structure SettlementRow where
  settlementId : String
  status : String
  openedAt : String
  deadline : String
  expectedHolder : String
  expired : Bool
  deriving DecidableEq, Repr

/-- Why the confirmed holder is absent, when it is. -/
inductive Coverage where
  | covered
  | notCovered
  | noProjection
  deriving DecidableEq, Repr

structure TokenOverview where
  tokenId : String
  registerId : String
  verificationProfile : String
  tradeablePosition : Option String
  confirmedHolder : Option String
  instant : String
  final : Bool
  openGap : Option SettlementRow
  entryCount : Nat
  coverage : Coverage
  deriving DecidableEq, Repr

/-- What a settlement engine reads of its own: a store, and a clock. -/
structure EngineView (σ : Type) where
  store : ProjectionStore σ
  now : Int

def EngineView.hasExpired (engine : EngineView σ) (settlementId : Bytes32) : Bool :=
  SettlementEngine.hasExpired (engine.store.settlement settlementId) engine.now

/-! ## The overview -/

def settlementRow (record : Settlement) (engine : Option (EngineView σ)) : SettlementRow where
  settlementId := record.settlementId
  status := record.status.text
  openedAt := toString record.openedAt
  deadline := toString record.deadline
  expectedHolder := record.expectedHolder
  expired := (engine.map fun engine => engine.hasExpired record.settlementId).getD false

/-- The confirmed holder, and why it is absent. Whatever the store throws is caught, as is the
reading of a holder where it hands back no entry. -/
def confirmedHolder (store : ProjectionStore σ) (tokenId instant : Int) :
    Option Address × Coverage :=
  if store.entryCount tokenId > 0 then
    match store.holderAsOf tokenId instant with
    | some (.ok holder) => (some holder, .covered)
    | _ => (none, .notCovered)
  else (none, .noProjection)

def overview (o : StoreConfig σ) (store : ProjectionStore σ) (settlement : Option (EngineView σ))
    (tokenId instant : Int) (owner : Option Address) : TokenOverview where
  tokenId := toString tokenId
  registerId := o.registerId
  verificationProfile := o.verificationProfile
  tradeablePosition := owner
  confirmedHolder := (confirmedHolder store tokenId instant).1
  instant := toString instant
  final := store.isFinalAsOf tokenId instant
  openGap :=
    if store.openGapOf tokenId = zeroBytes32 then none
    else some (settlementRow (store.settlement (store.openGapOf tokenId)) settlement)
  entryCount := store.entryCount tokenId
  coverage := (confirmedHolder store tokenId instant).2

/-! ## The timeline -/

inductive RowKind where
  | entry
  | settlement
  deriving DecidableEq, Repr

structure TimelineRow where
  kind : RowKind
  «at» : String
  summary : String
  detail : List (String × String)
  deriving DecidableEq, Repr

/-- The first ten code units of a text, and an ellipsis. -/
def short (value : String) : String :=
  String.ofList (Text.ofUnits ((Text.units value.toList).take 10)) ++ "…"

namespace TimelineRow

def ofEntry (entry : ProjectionEntry) : TimelineRow where
  kind := .entry
  «at» := toString entry.effectiveAt
  summary := s!"version {entry.version} admitted, holder {entry.holder}"
  detail :=
    [("version", toString entry.version),
      ("holder", entry.holder),
      ("effectiveAt", toString entry.effectiveAt),
      ("supersededAt", if entry.supersededAt = 0 then "open" else toString entry.supersededAt),
      ("recordCommitment", entry.recordCommitment),
      ("registryReference", entry.registryReference)]

def ofSettlement (locale : Locale) (record : Settlement) : TimelineRow where
  kind := .settlement
  «at» := toString record.openedAt
  summary :=
    let status := ofJsText (locale.toLowerCase (jsText record.status.text))
    s!"settlement {short record.settlementId} {status}"
  detail :=
    [("settlementId", record.settlementId),
      ("status", record.status.text),
      ("openedAt", toString record.openedAt),
      ("deadline", toString record.deadline),
      ("expectedHolder", record.expectedHolder)]

/-- `BigInt(row.at)`. -/
def bigInt (row : TimelineRow) : Int := (BigIntText.parse row.at).getD 0

/-- The comparator rows are sorted by. -/
def compare (a b : TimelineRow) : Ordering :=
  if a.bigInt ≠ b.bigInt then
    if a.bigInt < b.bigInt then .lt else .gt
  else if a.kind = b.kind then .eq
  else if a.kind = .entry then .lt
  else .gt

end TimelineRow

def timeline (locale : Locale) (entries : List ProjectionEntry) (settlements : List Settlement) :
    List TimelineRow :=
  (entries.map TimelineRow.ofEntry ++
    settlements.map (TimelineRow.ofSettlement locale)).mergeSort fun a b => a.compare b ≠ .gt

end Erc8415
