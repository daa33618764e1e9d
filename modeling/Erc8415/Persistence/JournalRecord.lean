import Erc8415.Foundation.BigIntText
import Erc8415.Projection.Types

/-! # Journal records

The shapes the journal holds: one record for each kind of mutation, with every
integer written as decimal text, and the identity of the projection the journal
belongs to.
-/

namespace Erc8415

/-- What projection a journal belongs to. -/
structure JournalIdentity where
  registerId : String
  verificationProfile : String
  chainId : Option String
  contract : Option String
  deriving DecidableEq, Repr

/-- The fields of an admitted entry. -/
structure EntryJson where
  version : String
  holder : String
  effectiveAt : String
  supersededAt : String
  recordCommitment : String
  previousCommitment : String
  registryReference : String
  deriving DecidableEq, Repr

/-- The fields of an opened gap. -/
structure SettlementJson where
  settlementId : String
  tokenId : String
  initiator : String
  expectedHolder : String
  snapshotHash : String
  openedAt : String
  deadline : String
  status : String
  deriving DecidableEq, Repr

/-- A record. `unknown` is one of a kind outside the declared union. -/
inductive JournalRecord where
  | admitted (tokenId : String) (entry : EntryJson) (remoteHeight : String)
      (settlementId : Option String)
  | gapOpened (tokenId : String) (settlement : SettlementJson)
  | gapCancelled (tokenId settlementId : String)
  | unknown (kind : String)
  deriving DecidableEq, Repr

def GapStatus.text : GapStatus → String
  | none => "NONE"
  | «open» => "OPEN"
  | admitted => "ADMITTED"
  | cancelled => "CANCELLED"
  | superseded => "SUPERSEDED"
  | unchecked text => text

/-- `raw['status'] as Settlement['status']`: a cast, so any text passes. -/
def GapStatus.ofText (text : String) : GapStatus :=
  if text = "NONE" then none
  else if text = "OPEN" then «open»
  else if text = "ADMITTED" then admitted
  else if text = "CANCELLED" then cancelled
  else if text = "SUPERSEDED" then superseded
  else unchecked text

def entryJson (entry : ProjectionEntry) : EntryJson where
  version := toString entry.version
  holder := entry.holder
  effectiveAt := toString entry.effectiveAt
  supersededAt := toString entry.supersededAt
  recordCommitment := entry.recordCommitment
  previousCommitment := entry.previousCommitment
  registryReference := entry.registryReference

def settlementJson (record : Settlement) : SettlementJson where
  settlementId := record.settlementId
  tokenId := toString record.tokenId
  initiator := record.initiator
  expectedHolder := record.expectedHolder
  snapshotHash := record.snapshotHash
  openedAt := toString record.openedAt
  deadline := toString record.deadline
  status := record.status.text

/-! ## What a journal holds -/

/-- The identity and the acknowledged records of a journal. -/
structure JournalContent where
  identity : Option JournalIdentity
  records : List JournalRecord
  deriving DecidableEq, Repr

namespace JournalContent

/-- A journal that was never written. -/
def empty : JournalContent := ⟨none, []⟩

def append (j : JournalContent) (record : JournalRecord) : JournalContent :=
  { j with records := j.records ++ [record] }

/-- The first field on which two identities disagree. -/
def mismatch (stored supplied : JournalIdentity) :
    Option (String × Option String × Option String) :=
  if stored.registerId ≠ supplied.registerId then
    some ("registerId", stored.registerId, supplied.registerId)
  else if stored.verificationProfile ≠ supplied.verificationProfile then
    some ("verificationProfile", stored.verificationProfile, supplied.verificationProfile)
  else if stored.chainId ≠ supplied.chainId then
    some ("chainId", stored.chainId, supplied.chainId)
  else if stored.contract ≠ supplied.contract then
    some ("contract", stored.contract, supplied.contract)
  else none

/-- `String(value)` of an optional field. -/
def optionalText : Option String → String
  | some text => text
  | none => "undefined"

/-- The message of a `JournalIdentityMismatchError`. -/
def mismatchMessage (field : String) (stored supplied : Option String) : String :=
  s!"journal belongs to a different projection: {field} is {optionalText stored} on disk, " ++
    s!"{optionalText supplied} in the supplied options"

/-- Bind an empty journal to a projection, or check an existing one. -/
def bind (j : JournalContent) (identity : JournalIdentity) : Except Thrown JournalContent :=
  match j.identity with
  | some stored =>
      match mismatch stored identity with
      | some (field, onDisk, supplied) => .error (.error (mismatchMessage field onDisk supplied))
      | none => .ok j
  | none =>
      if j.records.isEmpty then .ok { j with identity := some identity }
      else .error (.error (mismatchMessage "header" none (some identity.registerId)))

theorem mismatch_eq_none {stored supplied : JournalIdentity} :
    mismatch stored supplied = none ↔ stored = supplied := by
  cases stored
  cases supplied
  simp only [mismatch, JournalIdentity.mk.injEq]
  split_ifs <;> simp_all

end JournalContent

end Erc8415
