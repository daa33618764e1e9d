import Mathlib.Logic.Function.Basic
import Erc8415.Contracts.Words
import Erc8415.Projection.Resolution

/-! # The register contract

`RegisterProjection`: the entries of every token and the commitments each has
used, written by the source authority alone. A call returns the storage it
leaves or reverts. What it writes is described through the kernel's own notion
of a history, of which the stored entries are the machine form.
-/

namespace Erc8415.Contracts

structure RegisterEntry where
  recordCommitment : Bytes32
  previousCommitment : Bytes32
  registryReference : Bytes32
  holder : Address
  version : Uint64
  effectiveAt : Uint64
  supersededAt : Uint64
  deriving DecidableEq, Repr

/-- What the constructor fixes. -/
structure RegisterDeployment where
  registerId : Bytes32
  sourceAuthority : Address
  deriving DecidableEq, Repr

/-- The storage. A mapping reads as its default where nothing was written. -/
structure RegisterProjection where
  entries : Uint256 → List RegisterEntry
  commitmentSeen : Uint256 → Bytes32 → Bool

namespace RegisterProjection

/-- The constructor. -/
def deploy (registerIdentifier : Bytes32) (sourceAuthority : Address) :
    Except Revert RegisterDeployment := do
  revertIf (registerIdentifier = 0) (.register .registerIdInvalid)
  revertIf (sourceAuthority = 0) (.register .notSourceAuthority)
  return ⟨registerIdentifier, sourceAuthority⟩

/-- The storage of a register just deployed. -/
def deployed : RegisterProjection where
  entries _ := []
  commitmentSeen _ _ := false

/-! ## Writing -/

/-- The modifier on both entry points. -/
def onlySourceAuthority (d : RegisterDeployment) (sender : Address) : Except Revert Unit :=
  revertIf (sender ≠ d.sourceAuthority) (.register .notSourceAuthority)

/-- `_commitmentSeen[tokenId][recordCommitment] = true`. -/
def markSeen (seen : Uint256 → Bytes32 → Bool) (tokenId : Uint256) (recordCommitment : Bytes32) :
    Uint256 → Bytes32 → Bool :=
  Function.update seen tokenId (Function.update (seen tokenId) recordCommitment true)

/-- `initialize`: write the first entry of a token. -/
def initializeEntry (d : RegisterDeployment) (s : RegisterProjection) (sender : Address)
    (tokenId : Uint256) (recordCommitment registryReference : Bytes32) (holder : Address)
    (effectiveAt : Uint64) : Except Revert RegisterProjection := do
  onlySourceAuthority d sender
  revertIf ((s.entries tokenId).length ≠ 0) (.register .alreadyInitialized)
  revertIf (recordCommitment = 0) (.register .commitmentInvalid)
  revertIf (holder = 0) (.register .holderInvalid)
  return {
    entries := Function.update s.entries tokenId (s.entries tokenId ++ [{
      recordCommitment := recordCommitment
      previousCommitment := 0
      registryReference := registryReference
      holder := holder
      version := 1
      effectiveAt := effectiveAt
      supersededAt := 0 }])
    commitmentSeen := markSeen s.commitmentSeen tokenId recordCommitment }

/-- `previous.supersededAt = effectiveAt`, of the latest entry. -/
def supersede (list : List RegisterEntry) (effectiveAt : Uint64) : List RegisterEntry :=
  list.modify (list.length - 1) fun previous => { previous with supersededAt := effectiveAt }

/-- `admit`: append the next version and close the preceding entry. -/
def admitEntry (d : RegisterDeployment) (s : RegisterProjection) (sender : Address)
    (tokenId : Uint256) (recordCommitment previousCommitment registryReference : Bytes32)
    (holder : Address) (effectiveAt : Uint64) : Except Revert RegisterProjection := do
  onlySourceAuthority d sender
  match (s.entries tokenId).getLast? with
  | none => .error (.register .entryUnknown)
  | some previous =>
      revertIf (recordCommitment = 0) (.register .commitmentInvalid)
      revertIf (holder = 0) (.register .holderInvalid)
      revertIf (previousCommitment ≠ previous.recordCommitment) (.register .commitmentLinkBroken)
      revertIf (effectiveAt ≤ previous.effectiveAt) (.register .effectiveAtNotIncreasing)
      revertIf (s.commitmentSeen tokenId recordCommitment = true) (.register .commitmentReused)
      let nextVersion ← checkedAdd previous.version 1
      return {
        entries := Function.update s.entries tokenId
          (supersede (s.entries tokenId) effectiveAt ++ [{
            recordCommitment := recordCommitment
            previousCommitment := previousCommitment
            registryReference := registryReference
            holder := holder
            version := nextVersion
            effectiveAt := effectiveAt
            supersededAt := 0 }])
        commitmentSeen := markSeen s.commitmentSeen tokenId recordCommitment }

/-! ## Reading -/

section Reading

variable (s : RegisterProjection) (tokenId : Uint256)

/-- The length as a `uint64`, which truncates. -/
def entryCount : Uint64 := BitVec.ofNat 64 (s.entries tokenId).length

def currentEntry : Except Revert RegisterEntry :=
  match (s.entries tokenId).getLast? with
  | none => .error (.register .entryUnknown)
  | some entry => .ok entry

/-- `list[index]`, which panics outside the array. -/
def read (list : List RegisterEntry) (index : Nat) : Except Revert RegisterEntry :=
  match list[index]? with
  | some entry => .ok entry
  | none => .error .outOfBounds

/-- Indexed by version. -/
def entryAt (version : Uint64) : Except Revert RegisterEntry := do
  revertIf (version = 0 ∨ version.toNat > (s.entries tokenId).length) (.register .entryUnknown)
  read (s.entries tokenId) (version.toNat - 1)

/-- `(low + high + 1) / 2`. -/
def middle (low high : Int) : Int := (low + high + 1) / 2

/-- `list[middle].effectiveAt <= instant`. -/
def effectiveBy (list : List RegisterEntry) (instant : Uint64) (index : Int) : Bool :=
  match list[index.toNat]? with
  | some entry => entry.effectiveAt ≤ instant
  | none => false

/-- The entry whose effective interval contains the instant. -/
def entryAsOf (instant : Uint64) : Except Revert RegisterEntry :=
  match (s.entries tokenId).head? with
  | none => .error (.register .noEntryAsOf)
  | some first =>
      if instant < first.effectiveAt then .error (.register .noEntryAsOf)
      else
        match AscendingSearch.search middle (effectiveBy (s.entries tokenId) instant)
            (s.entries tokenId).length 0 ((s.entries tokenId).length - 1) with
        | none => .error .outOfGas
        | some low => read (s.entries tokenId) low.toNat

def holderAsOf (instant : Uint64) : Except Revert Address := do
  return (← s.entryAsOf tokenId instant).holder

/-- Never reverts. -/
def isFinalAsOf (instant : Uint64) : Bool :=
  match (s.entries tokenId).head?, (s.entries tokenId).getLast? with
  | some first, some latest => instant ≥ first.effectiveAt && instant < latest.effectiveAt
  | _, _ => false

end Reading

end RegisterProjection

/-! ## The kernel's view of an entry -/

/-- The entry as the kernel writes it. -/
def RegisterEntry.projected (entry : RegisterEntry) : ProjectionEntry where
  recordCommitment := bytes32Text entry.recordCommitment
  previousCommitment := bytes32Text entry.previousCommitment
  registryReference := bytes32Text entry.registryReference
  holder := addressText entry.holder
  version := entry.version.toNat
  effectiveAt := entry.effectiveAt.toNat
  supersededAt := entry.supersededAt.toNat

theorem RegisterEntry.projected_inj {a b : RegisterEntry} : a.projected = b.projected ↔ a = b := by
  constructor
  · intro h
    simp only [projected, ProjectionEntry.mk.injEq, CandidateEntry.mk.injEq, bytes32Text_inj,
      addressText_inj, toNat_inj_int] at h
    obtain ⟨⟨hrecord, hprevious, hreference, hholder, hversion, heffective⟩, hsuperseded⟩ := h
    cases a
    cases b
    rw [RegisterEntry.mk.injEq]
    exact ⟨hrecord, hprevious, hreference, hholder, hversion, heffective, hsuperseded⟩
  · intro h
    rw [h]

end Erc8415.Contracts
