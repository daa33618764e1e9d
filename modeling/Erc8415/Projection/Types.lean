import Erc8415.Foundation.JsValue
import Erc8415.Projection.Errors

/-! # Projection data

Entries, candidates and settlement records, and the checks that narrow an
untyped candidate to one whose fields have the declared shape. Instants
(seconds since the Unix epoch) and token ids are integers without a bound, as
the source's `bigint`s are.
-/

namespace Erc8415

/-- `0x`-prefixed 20-byte hex, lowercase. -/
abbrev Address := String

/-- `0x`-prefixed 32-byte hex, lowercase. -/
abbrev Bytes32 := String

abbrev Commitment := Bytes32

/-- What a submitter supplies. -/
structure CandidateEntry where
  recordCommitment : Commitment
  previousCommitment : Commitment
  registryReference : Bytes32
  holder : Address
  version : Int
  effectiveAt : Int
  deriving DecidableEq, Repr

/-- One admitted entry. `supersededAt` is zero on the latest entry and carries
the next entry's `effectiveAt` once one is admitted. -/
structure ProjectionEntry extends CandidateEntry where
  supersededAt : Int
  deriving DecidableEq, Repr

/-- The status of a gap. `unchecked` is text outside the declared union, which
only an unchecked cast lets in. -/
inductive GapStatus where
  | none
  | «open»
  | admitted
  | cancelled
  | superseded
  | unchecked (text : String)
  deriving DecidableEq, Repr

/-- A settlement gap. -/
structure Settlement where
  settlementId : Bytes32
  tokenId : Int
  initiator : Address
  expectedHolder : Address
  snapshotHash : Bytes32
  openedAt : Int
  deadline : Int
  status : GapStatus
  deriving DecidableEq, Repr

def zeroBytes32 : Bytes32 :=
  "0x0000000000000000000000000000000000000000000000000000000000000000"

def zeroAddress : Address := "0x0000000000000000000000000000000000000000"

def firstVersion : Int := 1

def uint64Max : Int := 0xffffffffffffffff

/-! ## Shapes -/

/-- The character class `[0-9a-f]`. -/
def isLowerHex (c : Char) : Bool :=
  ('0' ≤ c && c ≤ '9') || ('a' ≤ c && c ≤ 'f')

/-- The pattern `^0x[0-9a-f]{digits}$`. -/
def isHexWord (digits : Nat) (value : String) : Bool :=
  match value.toList with
  | '0' :: 'x' :: rest => rest.length == digits && rest.all isLowerHex
  | _ => false

def isAddress (value : String) : Bool := isHexWord 40 value

def isBytes32 (value : String) : Bool := isHexWord 64 value

def isUint64 (value : Int) : Bool := 0 ≤ value && value ≤ uint64Max

theorem isUint64_eq_true {value : Int} :
    isUint64 value = true ↔ 0 ≤ value ∧ value ≤ uint64Max := by
  simp [isUint64]

/-- The field as a string that passes `accepts`, or a rejection. -/
def stringField (value : JsValue) (accepts : String → Bool) (why : String) :
    Except ProjectionError String :=
  match value.asString with
  | some s => if accepts s then .ok s else reject .malformedEntry why
  | none => reject .malformedEntry why

/-- The field as a uint64, or a rejection. -/
def uint64Field (value : JsValue) (why : String) : Except ProjectionError Int :=
  match value.asBigInt with
  | some n => if isUint64 n then .ok n else reject .malformedEntry why
  | none => reject .malformedEntry why

/-- Validate the fields of a candidate. The source narrows its argument in
place; here the narrowed candidate is the result. -/
def validateCandidateShape (candidate : JsValue) : Except ProjectionError CandidateEntry := do
  rejectIf (candidate.isObject = false) .malformedEntry "entry must be an object"
  let holder ← stringField (candidate.get "holder") isAddress
    "holder is not a lowercase 0x address"
  let recordCommitment ← stringField (candidate.get "recordCommitment") isBytes32
    "recordCommitment is not bytes32"
  let previousCommitment ← stringField (candidate.get "previousCommitment") isBytes32
    "previousCommitment is not bytes32"
  let registryReference ← stringField (candidate.get "registryReference") isBytes32
    "registryReference is not bytes32"
  let effectiveAt ← uint64Field (candidate.get "effectiveAt") "effectiveAt is not a uint64"
  let version ← uint64Field (candidate.get "version") "version is not a uint64"
  rejectIf (recordCommitment = zeroBytes32) .malformedEntry "recordCommitment is zero"
  rejectIf (recordCommitment = previousCommitment) .malformedEntry
    "recordCommitment repeats previousCommitment"
  return { recordCommitment, previousCommitment, registryReference, holder, version, effectiveAt }

/-- The shape every admitted entry has. -/
structure CandidateEntry.Shaped (candidate : CandidateEntry) : Prop where
  holder : isAddress candidate.holder = true
  recordCommitment : isBytes32 candidate.recordCommitment = true
  previousCommitment : isBytes32 candidate.previousCommitment = true
  registryReference : isBytes32 candidate.registryReference = true
  effectiveAt : isUint64 candidate.effectiveAt = true
  version : isUint64 candidate.version = true
  recordCommitment_ne_zero : candidate.recordCommitment ≠ zeroBytes32
  recordCommitment_ne_previous : candidate.recordCommitment ≠ candidate.previousCommitment

/-- A typed candidate as the argument a caller passes. -/
def CandidateEntry.toJs (candidate : CandidateEntry) : JsValue :=
  .object [
    ("recordCommitment", .string candidate.recordCommitment),
    ("previousCommitment", .string candidate.previousCommitment),
    ("registryReference", .string candidate.registryReference),
    ("holder", .string candidate.holder),
    ("version", .bigint candidate.version),
    ("effectiveAt", .bigint candidate.effectiveAt)]

theorem stringField_eq_ok {value : JsValue} {accepts : String → Bool} {why s : String} :
    stringField value accepts why = .ok s ↔ value = .string s ∧ accepts s = true := by
  cases value with
  | string t =>
      by_cases h : accepts t = true
      · simp only [stringField, JsValue.asString, h, if_true, Except.ok.injEq, JsValue.string.injEq]
        exact ⟨fun heq => ⟨heq, heq ▸ h⟩, fun heq => heq.1⟩
      · simp only [stringField, JsValue.asString, h, JsValue.string.injEq]
        exact ⟨fun heq => absurd heq reject_ne_ok, fun heq => absurd (heq.1 ▸ heq.2) h⟩
  | _ => simp [stringField, JsValue.asString, reject]

theorem uint64Field_eq_ok {value : JsValue} {why : String} {n : Int} :
    uint64Field value why = .ok n ↔ value = .bigint n ∧ isUint64 n = true := by
  cases value with
  | bigint m =>
      by_cases h : isUint64 m = true
      · simp only [uint64Field, JsValue.asBigInt, h, if_true, Except.ok.injEq,
          JsValue.bigint.injEq]
        exact ⟨fun heq => ⟨heq, heq ▸ h⟩, fun heq => heq.1⟩
      · simp only [uint64Field, JsValue.asBigInt, h, JsValue.bigint.injEq]
        exact ⟨fun heq => absurd heq reject_ne_ok, fun heq => absurd (heq.1 ▸ heq.2) h⟩
  | _ => simp [uint64Field, JsValue.asBigInt, reject]

/-- What validation accepts: an object whose fields are the candidate's, with
the declared shape. -/
theorem validateCandidateShape_eq_ok {argument : JsValue} {candidate : CandidateEntry} :
    validateCandidateShape argument = .ok candidate ↔
      argument.isObject = true ∧
      argument.get "holder" = .string candidate.holder ∧
      argument.get "recordCommitment" = .string candidate.recordCommitment ∧
      argument.get "previousCommitment" = .string candidate.previousCommitment ∧
      argument.get "registryReference" = .string candidate.registryReference ∧
      argument.get "effectiveAt" = .bigint candidate.effectiveAt ∧
      argument.get "version" = .bigint candidate.version ∧
      candidate.Shaped := by
  constructor
  · intro h
    simp only [validateCandidateShape, bind_eq_ok, rejectIf_eq_ok, stringField_eq_ok,
      uint64Field_eq_ok, Bool.not_eq_false] at h
    obtain ⟨_, hobject, holder, hholder, record, hrecord, previous, hprevious, reference,
      hreference, effectiveAt, heffective, version, hversion, _, hzero, _, hrepeat, heq⟩ := h
    cases heq
    exact ⟨hobject, hholder.1, hrecord.1, hprevious.1, hreference.1, heffective.1, hversion.1,
      ⟨hholder.2, hrecord.2, hprevious.2, hreference.2, heffective.2, hversion.2, hzero, hrepeat⟩⟩
  · rintro ⟨hobject, hholder, hrecord, hprevious, hreference, heffective, hversion, hshape⟩
    simp only [validateCandidateShape, bind_eq_ok, rejectIf_eq_ok, stringField_eq_ok,
      uint64Field_eq_ok, Bool.not_eq_false]
    exact ⟨(), hobject, _, ⟨hholder, hshape.holder⟩, _, ⟨hrecord, hshape.recordCommitment⟩,
      _, ⟨hprevious, hshape.previousCommitment⟩, _, ⟨hreference, hshape.registryReference⟩,
      _, ⟨heffective, hshape.effectiveAt⟩, _, ⟨hversion, hshape.version⟩,
      (), hshape.recordCommitment_ne_zero, (), hshape.recordCommitment_ne_previous, rfl⟩

section toJs

variable (candidate : CandidateEntry)

@[simp] theorem CandidateEntry.toJs_recordCommitment :
    candidate.toJs.get "recordCommitment" = .string candidate.recordCommitment := by
  simp [toJs, JsValue.get, JsValue.property]

@[simp] theorem CandidateEntry.toJs_previousCommitment :
    candidate.toJs.get "previousCommitment" = .string candidate.previousCommitment := by
  simp [toJs, JsValue.get, JsValue.property]

@[simp] theorem CandidateEntry.toJs_registryReference :
    candidate.toJs.get "registryReference" = .string candidate.registryReference := by
  simp [toJs, JsValue.get, JsValue.property]

@[simp] theorem CandidateEntry.toJs_holder :
    candidate.toJs.get "holder" = .string candidate.holder := by
  simp [toJs, JsValue.get, JsValue.property]

@[simp] theorem CandidateEntry.toJs_version :
    candidate.toJs.get "version" = .bigint candidate.version := by
  simp [toJs, JsValue.get, JsValue.property]

@[simp] theorem CandidateEntry.toJs_effectiveAt :
    candidate.toJs.get "effectiveAt" = .bigint candidate.effectiveAt := by
  simp [toJs, JsValue.get, JsValue.property]

end toJs

/-- A typed candidate validates exactly when it has the declared shape. -/
theorem validateCandidateShape_toJs {candidate candidate' : CandidateEntry} :
    validateCandidateShape candidate.toJs = .ok candidate' ↔
      candidate' = candidate ∧ candidate.Shaped := by
  rw [validateCandidateShape_eq_ok]
  simp only [CandidateEntry.toJs_recordCommitment, CandidateEntry.toJs_previousCommitment,
    CandidateEntry.toJs_registryReference, CandidateEntry.toJs_holder,
    CandidateEntry.toJs_version, CandidateEntry.toJs_effectiveAt, JsValue.string.injEq,
    JsValue.bigint.injEq]
  constructor
  · rintro ⟨_, hholder, hrecord, hprevious, hreference, heffective, hversion, hshape⟩
    have heq : candidate' = candidate := by
      cases candidate
      cases candidate'
      simp_all only
    exact ⟨heq, heq ▸ hshape⟩
  · rintro ⟨rfl, hshape⟩
    exact ⟨rfl, rfl, rfl, rfl, rfl, rfl, rfl, hshape⟩

end Erc8415
