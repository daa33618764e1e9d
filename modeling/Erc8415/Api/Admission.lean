import Erc8415.Settlement.Engine

/-! # The admission route

`POST /projection/{tokenId}/admission`: what a request body has to look like,
what is asserted when the token has an open gap, and what the response is.
-/

namespace Erc8415

structure ApiResponse where
  status : Nat
  body : JsValue

/-! ## Numbers on the wire -/

/-- `/^(0|[1-9][0-9]*)$/`. -/
def isCanonicalDecimal (raw : String) : Bool :=
  match raw.toList with
  | [] => false
  | ['0'] => true
  | c :: rest => '1' ≤ c && c ≤ '9' && rest.all fun d => '0' ≤ d && d ≤ '9'

/-- Parse a path segment as a uint64, rejecting anything else. -/
def parseUint64 (raw : String) : Option Int :=
  if isCanonicalDecimal raw then (BigIntText.parse raw).filter fun value => value ≤ uint64Max
  else none

/-- `1n << 256n`. -/
def uint256Bound : Int :=
  0x10000000000000000000000000000000000000000000000000000000000000000

/-- ERC-721 token identifiers cover the full uint256 domain. -/
def parseUint256 (raw : String) : Option Int :=
  if raw.length > 78 then none
  else if isCanonicalDecimal raw then
    (BigIntText.parse raw).filter fun value => value < uint256Bound
  else none

/-- `Number.isSafeInteger(value)`. -/
def isSafeInteger (q : Rat) : Bool := q.den = 1 && q.num.natAbs ≤ 9007199254740991

/-- A uint64 written as decimal text, or as a number that is exact. -/
def wireUint64 : JsValue → Option Int
  | .string raw => parseUint64 raw
  | .number q => if isSafeInteger q && 0 ≤ q.num then some q.num else none
  | _ => none

/-! ## The body -/

structure ParsedAdmission where
  entry : JsValue
  proof : ProofMaterial

/-- The shape is checked only far enough to build the candidate. -/
def parseAdmission (body : JsValue) : Option ParsedAdmission := do
  guard body.isObject
  let e := body.get "entry"
  let p := body.get "proof"
  guard e.isObject
  guard p.isObject
  let version ← wireUint64 (e.get "version")
  let effectiveAt ← wireUint64 (e.get "effectiveAt")
  let remoteHeight ← wireUint64 (p.get "remoteHeight")
  let profile ← (p.get "profile").asString
  let payload := p.get "payload"
  return {
    entry := .object [
      ("version", .bigint version),
      ("effectiveAt", .bigint effectiveAt),
      ("holder", e.get "holder"),
      ("recordCommitment", e.get "recordCommitment"),
      ("previousCommitment", e.get "previousCommitment"),
      ("registryReference", e.get "registryReference")]
    proof := {
      profile := profile
      remoteHeight := remoteHeight
      payload := if payload.isObject then payload else .object [] } }

/-! ## Responses -/

/-- `STATUS[code] ?? 400`. -/
def statusOf : ProjectionErrorCode → Nat
  | .malformedEntry => 400
  | .nonConsecutiveVersion => 409
  | .effectiveAtNotIncreasing => 409
  | .brokenCommitmentLinkage => 409
  | .commitmentReused => 409
  | .proofProfileRejected => 422
  | .gapAlreadyOpen => 409
  | .noOpenGap => 404
  | .notSettlementAuthority => 403
  | .settlementExists => 409
  | .settlementExpired => 409
  | .deadlineOutOfRange => 400
  | .holderMismatch => 409
  | .unknownToken => 404
  | .emptyProjection => 404
  | .unknownVersion => 404
  | .instantNotCovered => 404
  | .storeNotWritable => 400

def errorResponse (error : ProjectionError) : ApiResponse where
  status := statusOf error.code
  body := .object [("error", .string error.code.text), ("message", .string error.message)]

def entryResponse (entry : ProjectionEntry) : JsValue :=
  .object [
    ("version", .string (toString entry.version)),
    ("holder", .string entry.holder),
    ("effectiveAt", .string (toString entry.effectiveAt)),
    ("supersededAt", .string (toString entry.supersededAt)),
    ("recordCommitment", .string entry.recordCommitment),
    ("previousCommitment", .string entry.previousCommitment),
    ("registryReference", .string entry.registryReference)]

def admissionResponse (tokenId : Int) (result : AdmissionResult) : ApiResponse where
  status := 201
  body := .object [
    ("tokenId", .string (toString tokenId)),
    ("entry", entryResponse result.entry),
    ("gapClosed", .boolean result.gapClosed),
    ("remoteHeight", .string (toString result.remoteHeight))]

/-! ## The route -/

variable {σ : Type}

/-- `NO_GAP`. -/
def noGap : Bytes32 := zeroBytes32

/-- What the route asserts before it admits: nothing, unless a gap is open. -/
def assertOpenGap (store : ProjectionStore σ) (tokenId : Int) (entry : JsValue) (now : Int) :
    Except ProjectionError Unit :=
  let settlementId := store.openGapOf tokenId
  if settlementId ≠ noGap then
    assertSettlementAdmission (store.settlement settlementId) entry now
  else .ok ()

/-- The `POST` branch of `route`, for the token segment and the body of a request. -/
def admissionRoute (o : StoreConfig σ) (store : ProjectionStore σ) (tokenRaw : String)
    (body : JsValue) (now verifierNow : Int) (append : Option Thrown) :
    ProjectionStore σ × Except Thrown ApiResponse :=
  match parseUint256 tokenRaw with
  | none => (store, .ok ⟨400, .object [("error", .string "MALFORMED_TOKEN_ID")]⟩)
  | some tokenId =>
      match parseAdmission body with
      | none =>
          (store, .ok ⟨400, .object [("error", .string "MALFORMED_ENTRY"),
            ("message", .string "admission body is not well formed")]⟩)
      | some parsed =>
          match assertOpenGap store tokenId parsed.entry now with
          | .error e => (store, .error (.rejection e))
          | .ok () =>
              let done := store.admitEntry o tokenId parsed.entry parsed.proof verifierNow append
              (done.1, done.2.map (admissionResponse tokenId))

/-- `handle` on an admission request: a rejection becomes a response, and any
other error is thrown on. -/
def handleAdmission (o : StoreConfig σ) (store : ProjectionStore σ) (tokenRaw : String)
    (body : JsValue) (now verifierNow : Int) (append : Option Thrown) :
    ProjectionStore σ × Except Thrown ApiResponse :=
  match admissionRoute o store tokenRaw body now verifierNow append with
  | (store, .error (.rejection e)) => (store, .ok (errorResponse e))
  | outcome => outcome

end Erc8415
