import Erc8415.Api.Routes
import Erc8415.Foundation.PagedWalk

/-! # The JavaScript client

The reads of `ProjectionClient`: the path each one asks for, and what it makes
of the response. A response body is untyped, so the fields a client passes on
are the values it found there, and the integers are what `BigInt` reads.
-/

namespace Erc8415

/-- What a request for a URL comes to: nothing where there is no answer, an
error where the fetch rejects, or a response. -/
abbrev Fetch := String → Handled

/-- What a read of the client throws. An `Error` is given its code and message as
the body held them; `thrown` is any other error. -/
inductive ClientFailure where
  | notCovered (message : JsValue)
  | projection (status : Nat) (code message : JsValue)
  | thrown

/-- What a read of the client comes to. -/
abbrev Read (α : Type) := Option (Except ClientFailure α)

/-- A `ProjectionEntry` as the client decodes it. -/
structure ClientEntry where
  version : Int
  holder : JsValue
  effectiveAt : Int
  supersededAt : Int
  recordCommitment : JsValue
  previousCommitment : JsValue
  registryReference : JsValue

/-- A `Settlement` as the client decodes it. -/
structure ClientSettlement where
  settlementId : JsValue
  tokenId : Int
  initiator : JsValue
  expectedHolder : JsValue
  snapshotHash : JsValue
  openedAt : Int
  deadline : Int
  status : JsValue

/-- The three facts about an instant, each labelled as itself. -/
structure ClientResolution where
  holder : JsValue
  final : JsValue
  openGap : Option ClientSettlement

namespace ProjectionClient

/-- `value[name]`, which throws where the value is `undefined` or `null`. -/
def fieldOf (value : JsValue) (name : String) : Except ClientFailure JsValue :=
  match value with
  | .undefined => .error .thrown
  | .null => .error .thrown
  | value => .ok (value.get name)

/-- `BigInt(value[name])`. -/
def integerField (value : JsValue) (name : String) : Except ClientFailure Int := do
  match (← fieldOf value name).toBigInt with
  | some n => .ok n
  | none => .error .thrown

def decodeEntry (wire : JsValue) : Except ClientFailure ClientEntry := do
  let version ← integerField wire "version"
  let holder ← fieldOf wire "holder"
  let effectiveAt ← integerField wire "effectiveAt"
  let supersededAt ← integerField wire "supersededAt"
  let recordCommitment ← fieldOf wire "recordCommitment"
  let previousCommitment ← fieldOf wire "previousCommitment"
  let registryReference ← fieldOf wire "registryReference"
  return { version, holder, effectiveAt, supersededAt, recordCommitment, previousCommitment,
           registryReference }

def decodeSettlement (wire : JsValue) : Except ClientFailure ClientSettlement := do
  let settlementId ← fieldOf wire "settlementId"
  let tokenId ← integerField wire "tokenId"
  let initiator ← fieldOf wire "initiator"
  let expectedHolder ← fieldOf wire "expectedHolder"
  let snapshotHash ← fieldOf wire "snapshotHash"
  let openedAt ← integerField wire "openedAt"
  let deadline ← integerField wire "deadline"
  let status ← fieldOf wire "status"
  return { settlementId, tokenId, initiator, expectedHolder, snapshotHash, openedAt, deadline,
           status }

/-- `gap === null ? null : decodeSettlement(gap)`. -/
def decodeGap (gap : JsValue) : Except ClientFailure (Option ClientSettlement) :=
  match gap with
  | .null => .ok none
  | gap => (decodeSettlement gap).map some

/-! ## Requests -/

/-- What a response of status 400 or above is thrown as. -/
def failureOf (response : ApiResponse) : ClientFailure :=
  match fieldOf response.body "error", fieldOf response.body "message" with
  | .ok error, .ok message =>
      let code := error.orElse (.string "UNKNOWN")
      let message := message.orElse code
      if code.isText "INSTANT_NOT_COVERED" then .notCovered message
      else .projection response.status code message
  | _, _ => .thrown

/-- What the client makes of a response before it looks into the body. -/
def bodyOf (response : ApiResponse) : Except ClientFailure JsValue :=
  if response.status ≥ 400 then .error (failureOf response) else .ok response.body

/-- `#get`. -/
def get (fetch : Fetch) (path : String) : Read JsValue :=
  (fetch path).map fun
    | .error _ => .error .thrown
    | .ok response => bodyOf response

/-- Read a path and decode its body. -/
def read {α : Type} (fetch : Fetch) (path : String) (decode : JsValue → Except ClientFailure α) :
    Read α :=
  (get fetch path).map fun reply => reply.bind decode

/-! ## Reads -/

/-- `/projection/{tokenId}/{question}/as-of/{instant}`. -/
def asOfPath (question : String) (tokenId instant : Int) : String :=
  s!"/projection/{tokenId}/{question}/as-of/{instant}"

/-- The holder the register had confirmed at an instant. -/
def holderAsOf (fetch : Fetch) (tokenId instant : Int) : Read JsValue :=
  read fetch (asOfPath "holder" tokenId instant) fun body => fieldOf body "holder"

/-- Whether a later admission can still change that answer. -/
def isFinalAsOf (fetch : Fetch) (tokenId instant : Int) : Read JsValue :=
  read fetch (asOfPath "finality" tokenId instant) fun body => fieldOf body "final"

def entryAsOf (fetch : Fetch) (tokenId instant : Int) : Read ClientEntry :=
  read fetch (asOfPath "entry" tokenId instant) fun body => do decodeEntry (← fieldOf body "entry")

def entryAt (fetch : Fetch) (tokenId version : Int) : Read ClientEntry :=
  read fetch s!"/projection/{tokenId}/entry/version/{version}" fun body => do
    decodeEntry (← fieldOf body "entry")

/-- The open settlement, or null. -/
def openGapOf (fetch : Fetch) (tokenId : Int) : Read (Option ClientSettlement) :=
  read fetch s!"/projection/{tokenId}" fun body => do decodeGap (← fieldOf body "openGap")

/-- All three facts from one response. -/
def resolve (fetch : Fetch) (tokenId instant : Int) : Read ClientResolution :=
  read fetch (asOfPath "resolve" tokenId instant) fun body => do
    let holder ← fieldOf body "holder"
    let final ← fieldOf body "final"
    let openGap ← decodeGap (← fieldOf body "openGap")
    return { holder, final, openGap }

/-! ## The history walk -/

/-- What an unusable page is thrown as. -/
def invalidPage (message : String) : ClientFailure :=
  .projection 502 (.string "INVALID_PAGE") (.string message)

/-- The integer a value is, when `Number.isSafeInteger(value)`. -/
def safeInteger : JsValue → Option Int
  | .number q => if isSafeInteger q then some q.num else none
  | _ => none

/-- The count and the items of a page with valid metadata. -/
def pageOf (body : JsValue) (offset : Nat) (total : Option Nat) :
    Except ClientFailure (Nat × List JsValue) := do
  let entryCount ← fieldOf body "entryCount"
  let echoed ← fieldOf body "offset"
  let entries ← fieldOf body "entries"
  match safeInteger entryCount, echoed, entries with
  | some count, .number q, .array items =>
      if (total.getD 0 : Int) ≤ count ∧ q = offset then .ok (count.toNat, items)
      else .error (invalidPage "invalid history page metadata")
  | _, _, _ => .error (invalidPage "invalid history page metadata")

def pagePath (tokenId : Int) (offset limit : Nat) : String :=
  s!"/projection/{tokenId}/entries?offset={offset}&limit={limit}"

/-- One request of the walk. A response that does not come is a timeout. -/
def pages (fetch : Fetch) (tokenId : Int) : Pages ClientFailure JsValue ClientEntry where
  request offset limit total := do
    let body ← (get fetch (pagePath tokenId offset limit)).getD (.error .thrown)
    pageOf body offset total
  incomplete := invalidPage "history page is incomplete"
  decode := decodeEntry

/-- `entries`, whose request `k` is made with `fetch k`, for at most `fuel` requests. -/
def entries (fetch : Nat → Fetch) (tokenId : Int) (fuel : Nat) :
    Option (Nat × Except ClientFailure (List ClientEntry)) :=
  PagedWalk.walk 100 (fun k => pages (fetch k) tokenId) fuel

end ProjectionClient

/-! ## The transport -/

/-- The `GET` request of a URL below the server's origin, for text that a URL
carries as it is: digits, letters, `-`, `/`, and `?`, `&` and `=` as separators. -/
def requestOf (url : String) : ApiRequest :=
  let (path, search) := SplitText.cut '?' url
  { method := "GET"
    path
    body := .undefined
    query := match search with
      | none => []
      | some search => (SplitText.split '&' search).map fun parameter =>
          let (name, value) := SplitText.cut '=' parameter
          (name, value.getD "") }

/-- A fetch that `handle` serves over a store. -/
def fetchFrom {σ : Type} (o : StoreConfig σ) (store : ProjectionStore σ) (now verifierNow : Int)
    (append : Option Thrown) : Fetch :=
  fun url => (handle o store (requestOf url) now verifierNow append).2

end Erc8415
