import Erc8415.Projection.Representation
import Erc8415.Sdk.PagedHistory

/-! # What the Python client answers

The reads of the Python `ProjectionClient`, served by `handle` over a store. Each comes to
what the same read of the store comes to, as the reads of the JavaScript client do. The
one difference is in the integers: `int` takes no text of more than 4300 digits, and
`BigInt` takes any.
-/

namespace Erc8415

/-- `bool(value)`. -/
def PyValue.truthy : PyValue → Bool
  | none => false
  | bool b => b
  | int n => n ≠ 0
  | float (some q) => q ≠ 0
  | float Option.none => true
  | str s => s ≠ ""
  | list items => !items.isEmpty
  | dict members => !members.isEmpty

/-- A `Settlement`. -/
structure PySettlement where
  settlementId : PyValue
  tokenId : Int
  initiator : PyValue
  expectedHolder : PyValue
  snapshotHash : PyValue
  openedAt : Int
  deadline : Int
  status : PyValue

/-- A `Resolution`. -/
structure PyResolution where
  holder : PyValue
  final : Bool
  openGap : Option PySettlement

def PySettlement.ofRecord (record : Settlement) : PySettlement where
  settlementId := .str record.settlementId
  tokenId := record.tokenId
  initiator := .str record.initiator
  expectedHolder := .str record.expectedHolder
  snapshotHash := .str record.snapshotHash
  openedAt := record.openedAt
  deadline := record.deadline
  status := .str record.status.text

namespace PythonClient

/-! ## Reads -/

/-- `Settlement.from_wire`. -/
def settlementFromWire (wire : PyValue) : Except PyFailure PySettlement := do
  let settlementId ← subscript wire "settlementId"
  let tokenId ← integerItem wire "tokenId"
  let initiator ← subscript wire "initiator"
  let expectedHolder ← subscript wire "expectedHolder"
  let snapshotHash ← subscript wire "snapshotHash"
  let openedAt ← integerItem wire "openedAt"
  let deadline ← integerItem wire "deadline"
  let status ← subscript wire "status"
  return { settlementId, tokenId, initiator, expectedHolder, snapshotHash, openedAt, deadline,
           status }

/-- `None if gap is None else Settlement.from_wire(gap)`. -/
def gapFromWire : PyValue → Except PyFailure (Option PySettlement)
  | .none => .ok none
  | gap => (settlementFromWire gap).map some

def holderAsOf (opener : Opener) (tokenId instant : Int) : Except PyFailure PyValue := do
  subscript (← get opener (ProjectionClient.asOfPath "holder" tokenId instant)) "holder"

def isFinalAsOf (opener : Opener) (tokenId instant : Int) : Except PyFailure Bool := do
  let body ← get opener (ProjectionClient.asOfPath "finality" tokenId instant)
  return (← subscript body "final").truthy

def entryAsOf (opener : Opener) (tokenId instant : Int) : Except PyFailure PyEntry := do
  let body ← get opener (ProjectionClient.asOfPath "entry" tokenId instant)
  fromWire (← subscript body "entry")

def entryAt (opener : Opener) (tokenId version : Int) : Except PyFailure PyEntry := do
  let body ← get opener s!"/projection/{tokenId}/entry/version/{version}"
  fromWire (← subscript body "entry")

def entryCount (opener : Opener) (tokenId : Int) : Except PyFailure Int := do
  integerItem (← get opener s!"/projection/{tokenId}/entries") "entryCount"

def openGapOf (opener : Opener) (tokenId : Int) : Except PyFailure (Option PySettlement) := do
  gapFromWire (← subscript (← get opener s!"/projection/{tokenId}") "openGap")

def resolve (opener : Opener) (tokenId instant : Int) : Except PyFailure PyResolution := do
  let body ← get opener (ProjectionClient.asOfPath "resolve" tokenId instant)
  let gap ← subscript body "openGap"
  let holder ← subscript body "holder"
  let final ← subscript body "final"
  let openGap ← gapFromWire gap
  return { holder, final := final.truthy, openGap }

/-! ## What a read comes to -/

/-- What a rejection is raised as. -/
def failureFor (error : ProjectionError) : PyFailure :=
  if error.code = .instantNotCovered then .notCovered (.str error.message)
  else .projection (statusOf error.code) (.str error.code.text) (.str error.message)

/-- What a read comes to when the store answers a question. -/
def relayed {α β : Type} (reply : Answer α) (view : α → β) : Except PyFailure β :=
  match reply with
  | none => .error .raised
  | some (.ok a) => .ok (view a)
  | some (.error e) => .error (failureFor e)

section Responses

variable {fetch : Fetch} {path : String}

theorem get_errorResponse (e : ProjectionError) {opener : Opener}
    (hopen : opener path = some (statusOf e.code,
      .dict [("error", .str e.code.text), ("message", .str e.message)])) :
    get opener path = .error (failureFor e) := by
  have hstatus := ProjectionClient.statusOf_ge e.code
  simp only [get, hopen, if_pos hstatus]
  by_cases hcode : e.code = .instantNotCovered
  · simp [failureOf, getItem, List.lookup_cons, failureFor, hcode, ProjectionErrorCode.text]
  · simp [failureOf, getItem, List.lookup_cons, failureFor, hcode,
      ProjectionClient.text_eq_instantNotCovered]

/-- The body of a question's response, as `json.loads` hands it over. -/
theorem get_answer {α : Type} {reply : Answer α} {body : α → JsValue} {dict : α → PyValue}
    (hfetch : fetch path = ProjectionClient.handled (answer reply body))
    (hbody : ∀ a, PyValue.ofJs (body a) = some (dict a)) :
    get (openerOf fetch) path = relayed reply dict := by
  rcases reply with - | (e | a)
  · have hopen : openerOf fetch path = none := by rw [openerOf, hfetch]; rfl
    rw [get, hopen]
    rfl
  · apply get_errorResponse
    rw [openerOf, hfetch]
    rfl
  · have hopen : openerOf fetch path = some (200, dict a) := by
      rw [openerOf, hfetch]
      change (PyValue.ofJs (body a)).map _ = _
      rw [hbody]
      rfl
    rw [get, hopen]
    rfl

theorem get_respond {body : JsValue} {dict : PyValue}
    (hfetch : fetch path = ProjectionClient.handled (respond ⟨200, body⟩))
    (hbody : PyValue.ofJs body = some dict) : get (openerOf fetch) path = .ok dict := by
  have hopen : openerOf fetch path = some (200, dict) := by
    rw [openerOf, hfetch]
    change (PyValue.ofJs body).map _ = _
    rw [hbody]
    rfl
  rw [get, hopen]
  rfl

/-- Decoding what a question came to. -/
theorem relayed_bind {α β γ : Type} {reply : Answer α} {dict : α → β}
    {decode : β → Except PyFailure γ} {view : α → γ}
    (hdecode : ∀ a, reply = some (.ok a) → decode (dict a) = .ok (view a)) :
    relayed reply dict >>= decode = relayed reply view := by
  rcases reply with - | (e | a)
  · rfl
  · rfl
  · exact hdecode a rfl

end Responses

/-! ## Settlements -/

/-- A number `int` reads the text of. -/
def Short (n : Int) : Prop := 0 ≤ n ∧ n < 10 ^ PythonText.maxDigits

theorem int_of_short {n : Int} (h : Short n) : PythonText.int (toString n) = some n := by
  obtain ⟨hlow, hhigh⟩ := h
  obtain ⟨m, rfl⟩ := Int.eq_ofNat_of_zero_le hlow
  exact PythonText.int_toString (by exact_mod_cast hhigh)

theorem Short.of_lt_uint256 {n : Int} (h : 0 ≤ n ∧ n < uint256Bound) : Short n := by
  have hbound : (uint256Bound : Int) ≤ 10 ^ 78 := by decide
  have hdigits : (10 : Int) ^ 78 ≤ 10 ^ PythonText.maxDigits :=
    pow_le_pow_right₀ (by decide) (by decide)
  exact ⟨h.1, h.2.trans_le (hbound.trans hdigits)⟩

/-- The integers of a record are short. -/
structure Legible (record : Settlement) : Prop where
  tokenId : Short record.tokenId
  openedAt : Short record.openedAt
  deadline : Short record.deadline

def settlementDict (record : Settlement) : PyValue :=
  .dict [
    ("settlementId", .str record.settlementId),
    ("tokenId", .str (toString record.tokenId)),
    ("initiator", .str record.initiator),
    ("expectedHolder", .str record.expectedHolder),
    ("snapshotHash", .str record.snapshotHash),
    ("openedAt", .str (toString record.openedAt)),
    ("deadline", .str (toString record.deadline)),
    ("status", .str record.status.text)]

theorem settlementFromWire_dict {record : Settlement} (h : Legible record) :
    settlementFromWire (settlementDict record) = .ok (PySettlement.ofRecord record) := by
  have hinteger : ∀ name n, subscript (settlementDict record) name = .ok (.str (toString n)) →
      Short n → integerItem (settlementDict record) name = .ok n := by
    intro name n hitem hn
    simp only [integerItem, hitem, bind, Except.bind, PyValue.toInt, int_of_short hn]
  have htokenId := hinteger "tokenId" record.tokenId rfl h.tokenId
  have hopenedAt := hinteger "openedAt" record.openedAt rfl h.openedAt
  have hdeadline := hinteger "deadline" record.deadline rfl h.deadline
  simp only [settlementFromWire, htokenId, hopenedAt, hdeadline, bind, Except.bind]
  rfl

variable {σ : Type} {o : StoreConfig σ} {s : ProjectionStore σ}

/-- The open gap of a token as `json.loads` hands it over. -/
def gapDict (s : ProjectionStore σ) (tokenId : Int) : PyValue :=
  ((s.openSettlement tokenId).map settlementDict).getD .none

theorem ofJs_openGapJson (s : ProjectionStore σ) (tokenId : Int) :
    PyValue.ofJs (openGapJson s tokenId) = some (gapDict s tokenId) := by
  unfold openGapJson gapDict ProjectionStore.openSettlement noGap
  by_cases hzero : s.openGapOf tokenId = zeroBytes32
  · simp only [hzero, if_true]
    rfl
  · simp only [hzero, if_false]
    rfl

theorem ofMembers_cons {name : String} {value : JsValue} {item : PyValue}
    {rest : List (String × JsValue)} (h : PyValue.ofJs value = some item) :
    PyValue.ofMembers ((name, value) :: rest) =
      (PyValue.ofMembers rest).map fun members => (name, item) :: members := by
  cases value with
  | undefined => cases h
  | _ =>
      rw [PyValue.ofMembers, h, Option.bind_some]
      intro hundefined
      cases hundefined

theorem gapFromWire_dict {tokenId : Int}
    (h : ∀ record, s.openSettlement tokenId = some record → Legible record) :
    gapFromWire (gapDict s tokenId) =
      .ok ((s.openSettlement tokenId).map PySettlement.ofRecord) := by
  unfold gapDict
  cases hopen : s.openSettlement tokenId with
  | none => rfl
  | some record =>
      rw [Option.map_some, Option.getD_some]
      change (settlementFromWire (settlementDict record)).map some = _
      rw [settlementFromWire_dict (h record hopen)]
      rfl

end PythonClient

/-! ## Entries -/

theorem TokenProjection.mem_of_entryAsOf {p : TokenProjection} {instant : Int}
    {e : ProjectionEntry} (h : p.entryAsOf instant = some (.ok e)) : e ∈ p.entries := by
  unfold TokenProjection.entryAsOf at h
  split at h
  · cases h
  · split at h
    · cases h
    · split at h
      · cases h
      next low _ =>
        obtain ⟨e', he', heq⟩ := Option.map_eq_some_iff.mp h
        cases heq
        unfold slot at he'
        split at he'
        · exact List.mem_of_getElem? he'
        · cases he'

theorem ProjectionStore.mem_of_ask {σ : Type} {s : ProjectionStore σ} {tokenId : Int}
    {query : TokenProjection → Answer ProjectionEntry} {e : ProjectionEntry}
    (hquery : ∀ p, query p = some (.ok e) → e ∈ p.entries)
    (h : s.ask tokenId query = some (.ok e)) : e ∈ s.entries tokenId := by
  unfold ask requireProjection at h
  unfold entries
  cases hget : s.projections.get (key tokenId) with
  | none =>
      rw [hget] at h
      cases h
  | some p =>
      rw [hget] at h
      exact hquery p h

namespace PythonClient

variable {σ : Type} {o : StoreConfig σ} {s : ProjectionStore σ} {now verifierNow : Int}
  {append : Option Thrown} {tokenId instant version : Int}

/-- The integers of a stored entry are `uint64`. -/
theorem fromWire_stored (h : s.Valid) {e : ProjectionEntry} (he : e ∈ s.entries tokenId) :
    fromWire (entryDict e) = .ok (PyEntry.ofEntry e) := by
  have hhistory := h.isHistory tokenId
  have hshaped := hhistory.shaped e he
  exact fromWire_entryDict hshaped.version hshaped.effectiveAt (hhistory.isUint64_superseded he)

section Served

variable (o s now verifierNow append)
variable (hlow : 0 ≤ tokenId) (hhigh : tokenId < uint256Bound)

include hlow hhigh

theorem holderAsOf_served (hinstant : 0 ≤ instant) (hinstant' : instant ≤ uint64Max) :
    holderAsOf (openerOf (fetchFrom o s now verifierNow append)) tokenId instant =
      relayed (s.holderAsOf tokenId instant) .str := by
  have hget := get_answer (ProjectionClient.serve_asOf o s now verifierNow append hlow hhigh
    "holder" (by decide) hinstant hinstant') fun _ => rfl
  rw [holderAsOf, hget]
  exact relayed_bind fun _ _ => rfl

theorem isFinalAsOf_served (hinstant : 0 ≤ instant) (hinstant' : instant ≤ uint64Max) :
    isFinalAsOf (openerOf (fetchFrom o s now verifierNow append)) tokenId instant =
      .ok (s.isFinalAsOf tokenId instant) := by
  have hbody : PyValue.ofJs (.object [
      ("tokenId", .string (toString tokenId)), ("instant", .string (toString instant)),
      ("final", .boolean (s.isFinalAsOf tokenId instant)),
      ("openGap", openGapJson s tokenId)]) = some (.dict [
      ("tokenId", .str (toString tokenId)), ("instant", .str (toString instant)),
      ("final", .bool (s.isFinalAsOf tokenId instant)), ("openGap", gapDict s tokenId)]) := by
    rw [PyValue.ofJs, ofMembers_cons rfl, ofMembers_cons rfl, ofMembers_cons rfl,
      ofMembers_cons (ofJs_openGapJson s tokenId)]
    rfl
  have hget := get_respond (ProjectionClient.serve_asOf o s now verifierNow append hlow hhigh
    "finality" (by decide) hinstant hinstant') hbody
  rw [isFinalAsOf, hget]
  rfl

theorem entryAsOf_served (h : s.Valid) (hinstant : 0 ≤ instant) (hinstant' : instant ≤ uint64Max) :
    entryAsOf (openerOf (fetchFrom o s now verifierNow append)) tokenId instant =
      relayed (s.entryAsOf tokenId instant) PyEntry.ofEntry := by
  have hget := get_answer (ProjectionClient.serve_asOf o s now verifierNow append hlow hhigh
    "entry" (by decide) hinstant hinstant') fun _ => rfl
  rw [entryAsOf, hget]
  apply relayed_bind
  intro e he
  have hmem := ProjectionStore.mem_of_ask (fun _ => TokenProjection.mem_of_entryAsOf) he
  exact fromWire_stored h hmem

theorem entryAt_served (h : s.Valid) (hversion : 0 ≤ version) (hversion' : version ≤ uint64Max) :
    entryAt (openerOf (fetchFrom o s now verifierNow append)) tokenId version =
      relayed (s.entryAt tokenId version) PyEntry.ofEntry := by
  have hget := get_answer (ProjectionClient.serve_version o s now verifierNow append hlow hhigh
    hversion hversion') fun _ => rfl
  rw [entryAt, hget]
  apply relayed_bind
  intro e he
  exact fromWire_stored h (h.entryAt_eq_ok.mp he).1

theorem entryCount_served (hcount : s.entryCount tokenId ≤ maxSafeInteger) :
    entryCount (openerOf (fetchFrom o s now verifierNow append)) tokenId =
      .ok (s.entryCount tokenId) := by
  have hpath : s!"/projection/{tokenId}/entries" =
      SplitText.join '/' ["", "projection", toString tokenId, "entries"] := by
    apply String.toList_injective
    simp [SplitText.join, List.intercalate, toString]
  have hserve : fetchFrom o s now verifierNow append s!"/projection/{tokenId}/entries" =
      ProjectionClient.handled
        (respond ⟨200, ProjectionClient.pageResponse s tokenId 0 maxPage⟩) := by
    have hpage : parsePage [] = some ⟨0, maxPage⟩ := by decide +kernel
    rw [hpath, ProjectionClient.serve_join hlow hhigh]
    · simp only [readRoute, entriesRoute, hpage, ProjectionStore.entryCount_eq]
      rfl
    · intro part hpart
      rw [List.mem_singleton.mp hpart]
      decide
  rw [ProjectionStore.entryCount_eq] at hcount ⊢
  have hget := get_respond hserve (ofJs_pageResponse hcount (by decide) (by decide))
  rw [entryCount, hget]
  rfl

theorem openGapOf_served
    (hlegible : ∀ record, s.openSettlement tokenId = some record → Legible record) :
    openGapOf (openerOf (fetchFrom o s now verifierNow append)) tokenId =
      .ok ((s.openSettlement tokenId).map PySettlement.ofRecord) := by
  have hbody : PyValue.ofJs (.object [
      ("registerId", .string o.registerId),
      ("verificationProfile", .string o.verificationProfile),
      ("tokenId", .string (toString tokenId)),
      ("entryCount", .number (s.entryCount tokenId)),
      ("openGap", openGapJson s tokenId)]) = some (.dict [
      ("registerId", .str o.registerId), ("verificationProfile", .str o.verificationProfile),
      ("tokenId", .str (toString tokenId)),
      ("entryCount", .ofNumber (s.entryCount tokenId)), ("openGap", gapDict s tokenId)]) := by
    rw [PyValue.ofJs, ofMembers_cons rfl, ofMembers_cons rfl, ofMembers_cons rfl,
      ofMembers_cons rfl, ofMembers_cons (ofJs_openGapJson s tokenId)]
    rfl
  have hget := get_respond (ProjectionClient.serve_token o s now verifierNow append hlow hhigh)
    hbody
  rw [openGapOf, hget]
  exact gapFromWire_dict hlegible

theorem resolve_served (hinstant : 0 ≤ instant) (hinstant' : instant ≤ uint64Max)
    (hlegible : ∀ record, s.openSettlement tokenId = some record → Legible record) :
    resolve (openerOf (fetchFrom o s now verifierNow append)) tokenId instant =
      relayed (s.holderAsOf tokenId instant) fun holder =>
        { holder := .str holder
          final := s.isFinalAsOf tokenId instant
          openGap := (s.openSettlement tokenId).map PySettlement.ofRecord } := by
  have hget := get_answer (ProjectionClient.serve_asOf o s now verifierNow append hlow hhigh
    "resolve" (by decide) hinstant hinstant') fun holder => by
      rw [PyValue.ofJs, ofMembers_cons rfl, ofMembers_cons rfl, ofMembers_cons rfl,
        ofMembers_cons rfl, ofMembers_cons (ofJs_openGapJson s tokenId)]
      rfl
  rw [resolve, hget]
  apply relayed_bind
  intro holder _
  change (gapFromWire (gapDict s tokenId)).bind _ = _
  rw [gapFromWire_dict hlegible]
  rfl

end Served

/-- Served over any store a run reaches, each read of the Python client is the store's own: its
value, or its rejection as the error for the code. The gap can be read where its integers are
short enough for `int`. -/
theorem reads_served (o : StoreConfig σ) (adapter : σ) (journal : JournalContent)
    (calls : List (StoreCall σ)) (now verifierNow : Int) (append : Option Thrown)
    (tokenId instant version : Int) (htoken : 0 ≤ tokenId ∧ tokenId < uint256Bound)
    (hinstant : 0 ≤ instant ∧ instant ≤ uint64Max)
    (hversion : 0 ≤ version ∧ version ≤ uint64Max) :
    let s :=
      LabelledRun.run (ProjectionStore.step o) (ProjectionStore.initial adapter journal) calls
    let opener := openerOf (fetchFrom o s now verifierNow append)
    holderAsOf opener tokenId instant = relayed (s.holderAsOf tokenId instant) .str ∧
      isFinalAsOf opener tokenId instant = .ok (s.isFinalAsOf tokenId instant) ∧
      entryAsOf opener tokenId instant =
        relayed (s.entryAsOf tokenId instant) PyEntry.ofEntry ∧
      entryAt opener tokenId version = relayed (s.entryAt tokenId version) PyEntry.ofEntry ∧
      (s.entryCount tokenId ≤ maxSafeInteger →
        entryCount opener tokenId = .ok (s.entryCount tokenId)) ∧
      ((∀ record, s.openSettlement tokenId = some record → Legible record) →
        openGapOf opener tokenId = .ok ((s.openSettlement tokenId).map PySettlement.ofRecord) ∧
        resolve opener tokenId instant = relayed (s.holderAsOf tokenId instant) fun holder =>
          { holder := .str holder
            final := s.isFinalAsOf tokenId instant
            openGap := (s.openSettlement tokenId).map PySettlement.ofRecord }) := by
  intro s opener
  have hvalid : s.Valid := (ProjectionStore.Valid.initial adapter journal).run (o := o) calls
  obtain ⟨hlow, hhigh⟩ := htoken
  refine ⟨?_, ?_, ?_, ?_, ?_, ?_⟩
  · exact holderAsOf_served o s now verifierNow append hlow hhigh hinstant.1 hinstant.2
  · exact isFinalAsOf_served o s now verifierNow append hlow hhigh hinstant.1 hinstant.2
  · exact entryAsOf_served o s now verifierNow append hlow hhigh hvalid hinstant.1 hinstant.2
  · exact entryAt_served o s now verifierNow append hlow hhigh hvalid hversion.1 hversion.2
  · exact entryCount_served o s now verifierNow append hlow hhigh
  · intro hlegible
    exact ⟨openGapOf_served o s now verifierNow append hlow hhigh hlegible,
      resolve_served o s now verifierNow append hlow hhigh hinstant.1 hinstant.2 hlegible⟩

/-! ### The last token -/

section LastToken

open ProjectionStore (memoryConfig firstCandidate firstGap)
open ProjectionClient (lastToken lastCalls lastStore lastStore_covered lastStore_uncovered
  lastStore_open)

theorem reads_served_last_token :
    let opener := openerOf (fetchFrom memoryConfig lastStore 0 0 none)
    let gap := PySettlement.ofRecord (firstGap.opened lastToken)
    holderAsOf opener lastToken uint64Max = .ok (.str firstCandidate.holder) ∧
      holderAsOf opener lastToken 99 =
        .error (.notCovered (.str "the projection does not cover instant 99")) ∧
      openGapOf opener lastToken = .ok (some gap) ∧
      resolve opener lastToken uint64Max =
        .ok { holder := .str firstCandidate.holder, final := false, openGap := some gap } := by
  intro opener gap
  obtain ⟨hlate, _, _, _, _, hgaps⟩ := reads_served memoryConfig (MemoryChain.new {})
    JournalContent.empty lastCalls 0 0 none lastToken uint64Max 1 (by decide) (by decide)
    (by decide)
  obtain ⟨hearly, _⟩ := reads_served memoryConfig (MemoryChain.new {}) JournalContent.empty
    lastCalls 0 0 none lastToken 99 1 (by decide) (by decide) (by decide)
  rw [← lastStore] at hlate hgaps hearly
  have hfinal : lastStore.isFinalAsOf lastToken uint64Max = false := by decide +kernel
  have hlegible : ∀ record, lastStore.openSettlement lastToken = some record →
      Legible record := by
    intro record hrecord
    rw [lastStore_open] at hrecord
    cases hrecord
    exact ⟨.of_lt_uint256 (by decide), .of_lt_uint256 (by decide), .of_lt_uint256 (by decide)⟩
  obtain ⟨hgap, hresolved⟩ := hgaps hlegible
  rw [lastStore_open] at hgap hresolved
  rw [lastStore_covered, hfinal] at hresolved
  rw [lastStore_covered] at hlate
  rw [lastStore_uncovered] at hearly
  exact ⟨hlate, hearly, hgap, hresolved⟩

end LastToken

end PythonClient

end Erc8415
