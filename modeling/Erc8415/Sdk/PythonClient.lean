import Erc8415.Foundation.PythonText
import Erc8415.Sdk.Client

/-! # The Python client

The history walk of the Python `ProjectionClient`. Its values are the ones
`json.loads` makes of a response: integers and floats are apart, a missing key
raises, and so does asking for a key of anything but a dict.
-/

namespace Erc8415

/-- A value of a decoded document. A float is the rational it denotes, unless it is an
infinity or not a number. -/
inductive PyValue where
  | none
  | bool (b : Bool)
  | int (n : Int)
  | float (q : Option Rat)
  | str (s : String)
  | list (items : List PyValue)
  | dict (members : List (String × PyValue))

namespace PyValue

/-- `int(value)`. -/
def toInt : PyValue → Option Int
  | int n => some n
  | bool b => some (if b then 1 else 0)
  | float (some q) => some (q.num.tdiv q.den)
  | str s => PythonText.int s
  | _ => Option.none

/-- `value == n`, for which a bool is zero or one. -/
def equals (value : PyValue) (n : Nat) : Bool :=
  match value with
  | int m => m = n
  | bool b => (if b then 1 else 0) = n
  | float (some q) => q = n
  | _ => false

/-- The text of an integer has no exponent below `1e21`. -/
def ofNumber (q : Rat) : PyValue :=
  if q.den = 1 ∧ q.num.natAbs < 10 ^ 21 then int q.num else float (some q)

mutual

/-- `json.loads(JSON.stringify(value))`, where there is a text to load. -/
def ofJs : JsValue → Option PyValue
  | .undefined => Option.none
  | .null => some none
  | .boolean b => some (bool b)
  | .number q => some (ofNumber q)
  | .infinity _ => some none
  | .bigint _ => Option.none
  | .string s => some (str s)
  | .array items => (ofItems items).map list
  | .object members => (ofMembers members).map dict

def ofItems : List JsValue → Option (List PyValue)
  | [] => some []
  | .undefined :: rest => (ofItems rest).map fun items => none :: items
  | item :: rest => (ofJs item).bind fun item => (ofItems rest).map fun items => item :: items

def ofMembers : List (String × JsValue) → Option (List (String × PyValue))
  | [] => some []
  | (_, .undefined) :: rest => ofMembers rest
  | (name, value) :: rest =>
      (ofJs value).bind fun value => (ofMembers rest).map fun members => (name, value) :: members

end

end PyValue

/-- What a read of the Python client raises; `raised` is any other exception. -/
inductive PyFailure where
  | notCovered (message : PyValue)
  | projection (status : Nat) (code message : PyValue)
  | raised

/-- What an opener returns for a URL, unless it raises. -/
abbrev Opener := String → Option (Nat × PyValue)

/-- An `Entry`. -/
structure PyEntry where
  version : Int
  holder : PyValue
  effectiveAt : Int
  supersededAt : Int
  recordCommitment : PyValue
  previousCommitment : PyValue
  registryReference : PyValue

namespace PythonClient

/-- `value.get(name)`. -/
def getItem (value : PyValue) (name : String) : Except PyFailure (Option PyValue) :=
  match value with
  | .dict members => .ok (members.lookup name)
  | _ => .error .raised

/-- `value[name]`. -/
def subscript (value : PyValue) (name : String) : Except PyFailure PyValue :=
  match value with
  | .dict members =>
      match members.lookup name with
      | some item => .ok item
      | none => .error .raised
  | _ => .error .raised

/-- `int(value[name])`. -/
def integerItem (value : PyValue) (name : String) : Except PyFailure Int := do
  match (← subscript value name).toInt with
  | some n => .ok n
  | none => .error .raised

/-- `Entry.from_wire`. -/
def fromWire (wire : PyValue) : Except PyFailure PyEntry := do
  let version ← integerItem wire "version"
  let holder ← subscript wire "holder"
  let effectiveAt ← integerItem wire "effectiveAt"
  let supersededAt ← integerItem wire "supersededAt"
  let recordCommitment ← subscript wire "recordCommitment"
  let previousCommitment ← subscript wire "previousCommitment"
  let registryReference ← subscript wire "registryReference"
  return { version, holder, effectiveAt, supersededAt, recordCommitment, previousCommitment,
           registryReference }

/-- What a response of status 400 or above is raised as. -/
def failureOf (status : Nat) (body : PyValue) : PyFailure :=
  match getItem body "error", getItem body "message" with
  | .ok error, .ok message =>
      let code := error.getD (.str "UNKNOWN")
      let message := message.getD code
      match code with
      | .str text =>
          if text = "INSTANT_NOT_COVERED" then .notCovered message
          else .projection status code message
      | _ => .projection status code message
  | _, _ => .raised

/-- `_get`. -/
def get (opener : Opener) (path : String) : Except PyFailure PyValue :=
  match opener path with
  | none => .error .raised
  | some (status, body) => if status ≥ 400 then .error (failureOf status body) else .ok body

def invalidPage (message : String) : PyFailure :=
  .projection 502 (.str "INVALID_PAGE") (.str message)

/-- The count and the items of a page with valid metadata. -/
def pageOf (body : PyValue) (offset : Nat) (total : Option Nat) :
    Except PyFailure (Nat × List PyValue) := do
  let count ← getItem body "entryCount"
  let page ← getItem body "entries"
  let echoed ← getItem body "offset"
  match count, page with
  | some (.int count), some (.list page) =>
      if (total.getD 0 : Int) ≤ count ∧ (echoed.getD .none).equals offset then
        .ok (count.toNat, page)
      else .error (invalidPage "invalid history page metadata")
  | _, _ => .error (invalidPage "invalid history page metadata")

/-- One request of the walk. -/
def pages (opener : Opener) (tokenId : Int) : Pages PyFailure PyValue PyEntry where
  request offset limit total := do
    let body ← get opener (ProjectionClient.pagePath tokenId offset limit)
    pageOf body offset total
  incomplete := invalidPage "history page is incomplete"
  decode := fromWire

/-- `entries`, whose request `k` is made with `opener k`, for at most `fuel` requests. -/
def entries (opener : Nat → Opener) (tokenId : Int) (fuel : Nat) :
    Option (Nat × Except PyFailure (List PyEntry)) :=
  PagedWalk.walk 100 (fun k => pages (opener k) tokenId) fuel

/-- The opener whose requests a fetch answers. -/
def openerOf (fetch : Fetch) : Opener := fun url =>
  match fetch url with
  | some (.ok response) => (PyValue.ofJs response.body).map fun body => (response.status, body)
  | _ => none

end PythonClient

end Erc8415
