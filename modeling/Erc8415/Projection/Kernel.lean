import Mathlib.Data.Finset.Insert
import Mathlib.Data.Finset.Erase
import Erc8415.Foundation.AscendingSearch
import Erc8415.Foundation.BigIntText
import Erc8415.Foundation.InsertionMap
import Erc8415.Projection.Types

/-! # The projection kernel

The append-only projection history of one token, and the temporal queries over
it. Three private structures are kept in step: the entries in version order,
the set of commitments in use, and the index from a version's decimal text to
the position of its entry.
-/

namespace Erc8415

structure TokenProjection where
  entries : List ProjectionEntry
  commitments : Finset Commitment
  byVersion : InsertionMap String Nat
  deriving DecidableEq

namespace TokenProjection

/-- `new TokenProjection()`. -/
def empty : TokenProjection := ⟨[], ∅, InsertionMap.empty⟩

def length (p : TokenProjection) : Nat := p.entries.length

/-- Indexed by version. The index maps to a slot of the entry array, which
reads as `undefined` when it is out of range. -/
def entryAt (p : TokenProjection) (version : Int) : Answer ProjectionEntry :=
  match p.byVersion.get (toString version) with
  | none => some (reject .unknownVersion s!"no entry at version {version}")
  | some index => (p.entries[index]?).map .ok

def currentEntry (p : TokenProjection) : Except ProjectionError ProjectionEntry :=
  match p.entries.getLast? with
  | none => reject .emptyProjection "the projection has no entries"
  | some entry => .ok entry

/-! ## Admission -/

/-- Invariants 1, 2 and 3: how a candidate has to follow the latest entry. -/
def checkSuccession (previous : Option ProjectionEntry) (candidate : CandidateEntry) :
    Except ProjectionError Unit :=
  match previous with
  | none => do
      rejectIf (candidate.version ≠ firstVersion) .nonConsecutiveVersion
        s!"the first entry must have version 1, got {candidate.version}"
      rejectIf (candidate.previousCommitment ≠ zeroBytes32) .brokenCommitmentLinkage
        "the first entry must have a zero previousCommitment"
  | some previous => do
      rejectIf (candidate.version ≠ previous.version + 1) .nonConsecutiveVersion
        s!"version must be {previous.version + 1}, got {candidate.version}"
      rejectIf (candidate.previousCommitment ≠ previous.recordCommitment)
        .brokenCommitmentLinkage
        "previousCommitment does not link the preceding record commitment"
      rejectIf (candidate.effectiveAt ≤ previous.effectiveAt) .effectiveAtNotIncreasing
        s!"effectiveAt must exceed {previous.effectiveAt}, got {candidate.effectiveAt}"

/-- Rewrite the `supersededAt` of the latest entry, if there is one. -/
def supersedeLast (entries : List ProjectionEntry) (instant : Int) : List ProjectionEntry :=
  entries.modify (entries.length - 1) fun previous => { previous with supersededAt := instant }

/-- The three structures after a candidate that passed every check. -/
def append (p : TokenProjection) (candidate : CandidateEntry) : TokenProjection where
  entries := supersedeLast p.entries candidate.effectiveAt ++ [{ candidate with supersededAt := 0 }]
  commitments := insert candidate.recordCommitment p.commitments
  byVersion := p.byVersion.set (toString candidate.version) p.entries.length

/-- `admit`: validate a candidate against all four projection invariants and append it.
Every check runs before the first write, so a rejection leaves no trace. -/
def admitEntry (p : TokenProjection) (candidate : JsValue) :
    Except ProjectionError (TokenProjection × ProjectionEntry) := do
  let candidate ← validateCandidateShape candidate
  checkSuccession p.entries.getLast? candidate
  rejectIf (candidate.recordCommitment ∈ p.commitments) .commitmentReused
    "this record commitment is already in the token history"
  return (p.append candidate, { candidate with supersededAt := 0 })

/-- Undo the most recent admission, including the `supersededAt` it wrote. -/
def undoLastAdmit (p : TokenProjection) : TokenProjection :=
  match p.entries.getLast? with
  | none => p
  | some entry =>
      { entries := supersedeLast p.entries.dropLast 0
        commitments := p.commitments.erase entry.recordCommitment
        byVersion := p.byVersion.delete (toString entry.version) }

/-! ## Temporal queries -/

/-- `n >> 1`: the operand is read as a 32-bit signed integer. -/
def shiftRightOne (n : Int) : Int := Int.bmod n 0x100000000 / 2

/-- The upper midpoint the search probes. -/
def midpoint (low high : Int) : Int := shiftRightOne (low + high + 1)

/-- `entries[index]`, which is `undefined` out of range. -/
def slot (entries : List ProjectionEntry) (index : Int) : Option ProjectionEntry :=
  if 0 ≤ index then entries[index.toNat]? else none

/-- `candidate !== undefined && candidate.effectiveAt <= instant`. -/
def effectiveBy (entries : List ProjectionEntry) (instant : Int) (index : Int) : Bool :=
  match slot entries index with
  | some candidate => candidate.effectiveAt ≤ instant
  | none => false

/-- The entry whose effective interval contains the instant. -/
def entryAsOf (p : TokenProjection) (instant : Int) : Answer ProjectionEntry :=
  match p.entries.head? with
  | none =>
      some (reject .instantNotCovered s!"the projection does not cover instant {instant}")
  | some first =>
      if instant < first.effectiveAt then
        some (reject .instantNotCovered s!"the projection does not cover instant {instant}")
      else
        match AscendingSearch.search midpoint (effectiveBy p.entries instant) p.entries.length
            0 (p.entries.length - 1) with
        | none => none
        | some low => (slot p.entries low).map .ok

/-- That entry's holder, and only that. -/
def holderAsOf (p : TokenProjection) (instant : Int) : Answer Address :=
  (p.entryAsOf instant).map fun answer => answer.map fun entry => entry.holder

/-- Final when the instant is covered and a later entry was admitted. -/
def isFinalAsOf (p : TokenProjection) (instant : Int) : Bool :=
  match p.entries.head?, p.entries.getLast? with
  | some first, some latest => instant ≥ first.effectiveAt && instant < latest.effectiveAt
  | _, _ => false

end TokenProjection

end Erc8415
