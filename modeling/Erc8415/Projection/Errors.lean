import Mathlib.Tactic.Common

/-! # Rejections

Every rejection an admission or a query can produce, and the other ways a call
can end abruptly: an error thrown by the journal or by the chain adapter.
-/

namespace Erc8415

inductive ProjectionErrorCode where
  | malformedEntry
  | nonConsecutiveVersion
  | effectiveAtNotIncreasing
  | brokenCommitmentLinkage
  | commitmentReused
  | proofProfileRejected
  | gapAlreadyOpen
  | noOpenGap
  | storeNotWritable
  | notSettlementAuthority
  | settlementExists
  | settlementExpired
  | deadlineOutOfRange
  | holderMismatch
  | unknownToken
  | emptyProjection
  | unknownVersion
  | instantNotCovered
  deriving DecidableEq, Repr

/-- The code as the string the source gives it. -/
def ProjectionErrorCode.text : ProjectionErrorCode → String
  | malformedEntry => "MALFORMED_ENTRY"
  | nonConsecutiveVersion => "NON_CONSECUTIVE_VERSION"
  | effectiveAtNotIncreasing => "EFFECTIVE_AT_NOT_INCREASING"
  | brokenCommitmentLinkage => "BROKEN_COMMITMENT_LINKAGE"
  | commitmentReused => "COMMITMENT_REUSED"
  | proofProfileRejected => "PROOF_PROFILE_REJECTED"
  | gapAlreadyOpen => "GAP_ALREADY_OPEN"
  | noOpenGap => "NO_OPEN_GAP"
  | storeNotWritable => "STORE_NOT_WRITABLE"
  | notSettlementAuthority => "NOT_SETTLEMENT_AUTHORITY"
  | settlementExists => "SETTLEMENT_EXISTS"
  | settlementExpired => "SETTLEMENT_EXPIRED"
  | deadlineOutOfRange => "DEADLINE_OUT_OF_RANGE"
  | holderMismatch => "HOLDER_MISMATCH"
  | unknownToken => "UNKNOWN_TOKEN"
  | emptyProjection => "EMPTY_PROJECTION"
  | unknownVersion => "UNKNOWN_VERSION"
  | instantNotCovered => "INSTANT_NOT_COVERED"

structure ProjectionError where
  code : ProjectionErrorCode
  message : String
  deriving DecidableEq, Repr

def reject {α : Type} (code : ProjectionErrorCode) (message : String) :
    Except ProjectionError α :=
  .error ⟨code, message⟩

/-- What a call throws: a rejection, or some other error by its message. -/
inductive Thrown where
  | rejection (error : ProjectionError)
  | error (message : String)
  deriving DecidableEq, Repr

/-- `error instanceof Error ? error.message : String(error)`. -/
def Thrown.message : Thrown → String
  | rejection e => e.message
  | error message => message

/-- The answer of a temporal query. `none` stands for a query that hands back
no entry and no rejection: a slot read as `undefined`, or a loop that does not
end. -/
abbrev Answer (α : Type) := Option (Except ProjectionError α)

section Except

variable {ε α β : Type}

theorem bind_eq_ok {x : Except ε α} {f : α → Except ε β} {b : β} :
    (x >>= f) = .ok b ↔ ∃ a, x = .ok a ∧ f a = .ok b := by
  cases x <;> simp [bind, Except.bind]

end Except

/-- Reject when the condition holds. -/
def rejectIf (condition : Prop) [Decidable condition] (code : ProjectionErrorCode)
    (message : String) : Except ProjectionError Unit :=
  if condition then reject code message else .ok ()

@[simp] theorem rejectIf_eq_ok {condition : Prop} [Decidable condition]
    {code : ProjectionErrorCode} {message : String} {u : Unit} :
    rejectIf condition code message = .ok u ↔ ¬ condition := by
  unfold rejectIf
  split <;> simp_all [reject]

theorem reject_ne_ok {α : Type} {code : ProjectionErrorCode} {message : String} {a : α} :
    reject code message ≠ .ok a := by
  simp [reject]

end Erc8415
