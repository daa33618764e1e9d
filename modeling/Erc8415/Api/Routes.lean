import Erc8415.Api.Admission
import Erc8415.Foundation.NumberText
import Erc8415.Foundation.SplitText

/-! # The route table

Every request the API answers: the path is split, the token is read from it,
and the method and the rest of the path select a read of the store or an
admission. A rejection becomes a response of its own status; whatever else the
store throws is thrown on.
-/

namespace Erc8415

/-- A request. The query holds each name once; an absent body is `undefined`. -/
structure ApiRequest where
  method : String
  path : String
  body : JsValue
  query : List (String × String)

/-- A history can be long; a listing is paged rather than returned whole. -/
def maxPage : Nat := 100

/-! ## Requests -/

/-- `path.split('/')` without its empty segments. -/
def segments (path : String) : List String :=
  (SplitText.split '/' path).filter fun segment => segment ≠ ""

structure Page where
  offset : Nat
  limit : Nat
  deriving DecidableEq, Repr

/-- A page parameter as the number `Number` reads, or its default. -/
def pageNumber (query : List (String × String)) (name : String) (default : Nat) : Option Rat :=
  match query.lookup name with
  | none => some default
  | some text => NumberText.parse text

def parsePage (query : List (String × String)) : Option Page := do
  let offset ← pageNumber query "offset" 0
  let limit ← pageNumber query "limit" maxPage
  guard (isSafeInteger offset && 0 ≤ offset)
  guard (isSafeInteger limit && 0 < limit && limit ≤ maxPage)
  return ⟨offset.num.toNat, limit.num.toNat⟩

/-! ## Responses -/

def notFound : ApiResponse := ⟨404, .object [("error", .string "NOT_FOUND")]⟩

def malformed (code : String) : ApiResponse := ⟨400, .object [("error", .string code)]⟩

def settlementResponse (record : Settlement) : JsValue :=
  .object [
    ("settlementId", .string record.settlementId),
    ("tokenId", .string (toString record.tokenId)),
    ("initiator", .string record.initiator),
    ("expectedHolder", .string record.expectedHolder),
    ("snapshotHash", .string record.snapshotHash),
    ("openedAt", .string (toString record.openedAt)),
    ("deadline", .string (toString record.deadline)),
    ("status", .string record.status.text)]

variable {σ : Type}

def openGapJson (store : ProjectionStore σ) (tokenId : Int) : JsValue :=
  let settlementId := store.openGapOf tokenId
  if settlementId = noGap then .null else settlementResponse (store.settlement settlementId)

/-- What a request comes to: no answer where the store hands back none, and
otherwise a response or what was thrown. -/
abbrev Handled := Option (Except Thrown ApiResponse)

def respond (response : ApiResponse) : Handled := some (.ok response)

/-- The response to a question the store may reject. -/
def answer {α : Type} (reply : Answer α) (body : α → JsValue) : Handled :=
  reply.map fun
    | .ok a => .ok ⟨200, body a⟩
    | .error e => .error (.rejection e)

/-! ## The routes -/

/-- The routes that ask about an instant. -/
def instantRoute (store : ProjectionStore σ) (tokenId instant : Int) (instantRaw : String) :
    String → Handled
  | "resolve" =>
      answer (store.holderAsOf tokenId instant) fun holder => .object [
        ("tokenId", .string (toString tokenId)), ("instant", .string instantRaw),
        ("holder", .string holder),
        ("final", .boolean (store.isFinalAsOf tokenId instant)),
        ("openGap", openGapJson store tokenId)]
  | "entry" =>
      answer (store.entryAsOf tokenId instant) fun entry => .object [
        ("tokenId", .string (toString tokenId)), ("instant", .string instantRaw),
        ("entry", entryResponse entry)]
  | "holder" =>
      answer (store.holderAsOf tokenId instant) fun holder => .object [
        ("tokenId", .string (toString tokenId)), ("instant", .string instantRaw),
        ("holder", .string holder)]
  | "finality" =>
      respond ⟨200, .object [
        ("tokenId", .string (toString tokenId)), ("instant", .string instantRaw),
        ("final", .boolean (store.isFinalAsOf tokenId instant)),
        ("openGap", openGapJson store tokenId)]⟩
  | _ => respond notFound

/-- The page of a token's entries a query selects. -/
def entriesRoute (store : ProjectionStore σ) (tokenId : Int) (query : List (String × String)) :
    ApiResponse :=
  match parsePage query with
  | none => malformed "MALFORMED_PAGE"
  | some page =>
      ⟨200, .object [
        ("tokenId", .string (toString tokenId)),
        ("entryCount", .number (store.entryCount tokenId)),
        ("offset", .number page.offset),
        ("limit", .number page.limit),
        ("entries", .array (((store.entries tokenId).drop page.offset).take page.limit
          |>.map entryResponse))]⟩

/-- The `GET` branches of `route`, by what follows the token. -/
def readRoute (o : StoreConfig σ) (store : ProjectionStore σ) (tokenId : Int)
    (query : List (String × String)) : List String → Handled
  | [] =>
      respond ⟨200, .object [
        ("registerId", .string o.registerId),
        ("verificationProfile", .string o.verificationProfile),
        ("tokenId", .string (toString tokenId)),
        ("entryCount", .number (store.entryCount tokenId)),
        ("openGap", openGapJson store tokenId)]⟩
  | ["entries"] => respond (entriesRoute store tokenId query)
  | ["entry", "version", versionRaw] =>
      match parseUint64 versionRaw with
      | none => respond (malformed "MALFORMED_VERSION")
      | some version =>
          answer (store.entryAt tokenId version) fun entry => .object [
            ("tokenId", .string (toString tokenId)), ("entry", entryResponse entry)]
  | [question, "as-of", instantRaw] =>
      match parseUint64 instantRaw with
      | none => respond (malformed "MALFORMED_INSTANT")
      | some instant => instantRoute store tokenId instant instantRaw question
  | _ => respond notFound

/-- `route`: the store after a request, and what the request comes to. -/
def route (o : StoreConfig σ) (store : ProjectionStore σ) (request : ApiRequest)
    (now verifierNow : Int) (append : Option Thrown) : ProjectionStore σ × Handled :=
  match segments request.path with
  | "projection" :: tokenRaw :: tail =>
      match parseUint256 tokenRaw with
      | none => (store, respond (malformed "MALFORMED_TOKEN_ID"))
      | some tokenId =>
          if request.method = "GET" then (store, readRoute o store tokenId request.query tail)
          else if request.method = "POST" ∧ tail = ["admission"] then
            let done := admissionRoute o store tokenRaw request.body now verifierNow append
            (done.1, some done.2)
          else (store, respond notFound)
  | _ => (store, respond notFound)

/-- `handle`: a rejection becomes a response, and any other error is thrown on. -/
def handle (o : StoreConfig σ) (store : ProjectionStore σ) (request : ApiRequest)
    (now verifierNow : Int) (append : Option Thrown) : ProjectionStore σ × Handled :=
  match route o store request now verifierNow append with
  | (store, some (.error (.rejection e))) => (store, respond (errorResponse e))
  | outcome => outcome

/-! ## What the parsers read back -/

theorem isCanonicalDecimal_natCast (n : Nat) : isCanonicalDecimal (toString (n : Int)) = true := by
  have hdigit : ∀ c ∈ Nat.toDigits 10 n, '0' ≤ c ∧ c ≤ '9' := fun c hc =>
    BigIntText.isDigit_bounds (BigIntText.isDigit_of_mem_decimal hc)
  rw [isCanonicalDecimal, BigIntText.toList_toString_natCast]
  cases n with
  | zero => rfl
  | succ n =>
      have hhead := BigIntText.head_decimal_ne_zero (Nat.succ_pos n)
      cases hdigits : Nat.toDigits 10 (n + 1) with
      | nil => exact absurd hdigits Nat.toDigits_ne_nil
      | cons c rest =>
          rw [hdigits] at hdigit hhead
          have hc := hdigit c List.mem_cons_self
          have hne : c ≠ '0' := hhead c rfl
          have hone : '1' ≤ c := by
            have hlow : 48 ≤ c.toNat := hc.1
            have hne : c.toNat ≠ 48 := fun heq => hne (Char.toNat_inj.mp heq)
            change 49 ≤ c.toNat
            omega
          have hrest : (rest.all fun d => '0' ≤ d && d ≤ '9') = true := by
            rw [List.all_eq_true]
            intro d hd
            have hd := hdigit d (List.mem_cons_of_mem _ hd)
            simp [hd.1, hd.2]
          simp [hne, hone, hc.2, hrest]

/-- Canonical text is the decimal text of a number. -/
theorem exists_eq_toString {raw : String} (h : isCanonicalDecimal raw = true) :
    ∃ n : Nat, raw = toString (n : Int) := by
  rw [isCanonicalDecimal] at h
  split at h
  next => cases h
  next hzero => exact ⟨0, String.toList_injective hzero⟩
  next c rest _ hraw =>
    rw [Bool.and_eq_true, Bool.and_eq_true, decide_eq_true_eq, decide_eq_true_eq,
      List.all_eq_true] at h
    obtain ⟨⟨hlow, hhigh⟩, hrest⟩ := h
    have hdigit : ∀ {d : Char}, '0' ≤ d → d ≤ '9' → d.isDigit := by
      intro d hd hd'
      rw [Char.isDigit, Bool.and_eq_true, decide_eq_true_eq, decide_eq_true_eq]
      exact ⟨hd, hd'⟩
    have hhead : c ≠ '0' := by
      rintro rfl
      exact absurd hlow (by decide)
    have hdigits := BigIntText.toDigits_ofDigitChars hhead
      (hdigit (Char.le_trans (by decide) hlow) hhigh) fun d hd => by
        have hd := hrest d hd
        rw [Bool.and_eq_true, decide_eq_true_eq, decide_eq_true_eq] at hd
        exact hdigit hd.1 hd.2
    exact ⟨Nat.ofDigitChars 10 (c :: rest) 0, String.toList_injective
      (by rw [hraw, BigIntText.toList_toString_natCast, hdigits])⟩

/-- A token segment is the decimal text of its token. -/
theorem parseUint256_eq_some {raw : String} {tokenId : Int} (h : parseUint256 raw = some tokenId) :
    raw = toString tokenId ∧ 0 ≤ tokenId ∧ tokenId < uint256Bound := by
  rw [parseUint256] at h
  split_ifs at h with hlong hcanonical
  obtain ⟨n, rfl⟩ := exists_eq_toString hcanonical
  rw [BigIntText.parse_toString, Option.filter_eq_some_iff] at h
  obtain ⟨hn, hbound⟩ := h
  cases hn
  exact ⟨rfl, Int.natCast_nonneg n, of_decide_eq_true hbound⟩

theorem parseUint64_toString {n : Int} (hlow : 0 ≤ n) (hhigh : n ≤ uint64Max) :
    parseUint64 (toString n) = some n := by
  obtain ⟨m, rfl⟩ := Int.eq_ofNat_of_zero_le hlow
  rw [parseUint64, isCanonicalDecimal_natCast, if_pos rfl, BigIntText.parse_toString]
  simp [Option.filter, hhigh]

theorem parseUint256_toString {n : Int} (hlow : 0 ≤ n) (hhigh : n < uint256Bound) :
    parseUint256 (toString n) = some n := by
  obtain ⟨m, rfl⟩ := Int.eq_ofNat_of_zero_le hlow
  have hpower : m < 10 ^ 78 := by
    have hbound : uint256Bound < 10 ^ 78 := by decide
    exact_mod_cast Int.lt_trans hhigh hbound
  have hlength : ¬ (toString (m : Int)).length > 78 := by
    rw [← String.length_toList, BigIntText.toList_toString_natCast]
    exact Nat.not_lt.mpr ((Nat.length_toDigits_le_iff (by decide) (by decide)).mpr hpower)
  rw [parseUint256, if_neg hlength, isCanonicalDecimal_natCast, if_pos rfl,
    BigIntText.parse_toString]
  simp [Option.filter, hhigh]

/-! ## What a request leaves alone -/

theorem route_get (o : StoreConfig σ) (store : ProjectionStore σ) {request : ApiRequest}
    (now verifierNow : Int) (append : Option Thrown) (hget : request.method = "GET") :
    (route o store request now verifierNow append).1 = store := by
  unfold route
  split
  · split
    · rfl
    · rw [if_pos hget]
  · rfl

/-- A read changes nothing. -/
theorem handle_get {o : StoreConfig σ} {store : ProjectionStore σ} {request : ApiRequest}
    {now verifierNow : Int} {append : Option Thrown} (hget : request.method = "GET") :
    (handle o store request now verifierNow append).1 = store := by
  have hroute := route_get o store now verifierNow append hget
  unfold handle
  split
  · rename_i heq
    rw [heq] at hroute
    exact hroute
  · exact hroute

/-- On the admission path `handle` is the admission route. -/
theorem handle_admission {o : StoreConfig σ} {store : ProjectionStore σ} {request : ApiRequest}
    {now verifierNow : Int} {append : Option Thrown} {tokenRaw : String}
    (hpost : request.method = "POST")
    (hpath : segments request.path = ["projection", tokenRaw, "admission"]) :
    handle o store request now verifierNow append =
      ((handleAdmission o store tokenRaw request.body now verifierNow append).1,
        some (handleAdmission o store tokenRaw request.body now verifierNow append).2) := by
  have hmethod : ¬ request.method = "GET" := by
    rw [hpost]
    decide
  cases htoken : parseUint256 tokenRaw with
  | none => simp [handle, route, hpath, htoken, handleAdmission, admissionRoute, respond, malformed]
  | some tokenId =>
      have hroute : route o store request now verifierNow append =
          ((admissionRoute o store tokenRaw request.body now verifierNow append).1,
            some (admissionRoute o store tokenRaw request.body now verifierNow append).2) := by
        simp [route, hpath, htoken, hpost]
      rw [handle, hroute, handleAdmission]
      rcases admissionRoute o store tokenRaw request.body now verifierNow append with
        ⟨store', (thrown | response)⟩
      · cases thrown <;> rfl
      · rfl

end Erc8415
