import Erc8415.Adapters.MemoryChain
import Erc8415.Projection.Atomicity
import Erc8415.Sdk.Client

/-! # What the client answers

Served by `handle` over a store, each read of the client comes to what the same
read of the store comes to: the value it returns decodes to the store's, and a
rejection arrives as the error the client has for its code.
-/

namespace Erc8415

/-! ## The store's values as the client holds them -/

def ClientEntry.ofEntry (e : ProjectionEntry) : ClientEntry where
  version := e.version
  holder := .string e.holder
  effectiveAt := e.effectiveAt
  supersededAt := e.supersededAt
  recordCommitment := .string e.recordCommitment
  previousCommitment := .string e.previousCommitment
  registryReference := .string e.registryReference

def ClientSettlement.ofRecord (record : Settlement) : ClientSettlement where
  settlementId := .string record.settlementId
  tokenId := record.tokenId
  initiator := .string record.initiator
  expectedHolder := .string record.expectedHolder
  snapshotHash := .string record.snapshotHash
  openedAt := record.openedAt
  deadline := record.deadline
  status := .string record.status.text

/-- The open settlement of a token, if its pointer is not the zero word. -/
def ProjectionStore.openSettlement {σ : Type} (s : ProjectionStore σ) (tokenId : Int) :
    Option Settlement :=
  if s.openGapOf tokenId = zeroBytes32 then none else some (s.settlement (s.openGapOf tokenId))

namespace ProjectionClient

/-- The error the client throws for a rejection. -/
def failureFor (error : ProjectionError) : ClientFailure :=
  if error.code = .instantNotCovered then .notCovered (.string error.message)
  else .projection (statusOf error.code) (.string error.code.text) (.string error.message)

/-- What a read comes to when the store answers a question. -/
def relayed {α β : Type} (reply : Answer α) (view : α → β) : Read β :=
  reply.map fun
    | .ok a => .ok (view a)
    | .error e => .error (failureFor e)

/-! ## Requests -/

theorem segments_join {parts : List String} (h : ∀ part ∈ parts, part ≠ "" ∧ '/' ∉ part.toList) :
    segments (SplitText.join '/' ("" :: parts)) = parts := by
  rw [segments, SplitText.split_join (by simp)]
  · rw [List.filter_cons_of_neg (by simp), List.filter_eq_self]
    intro part hpart
    exact decide_eq_true (h part hpart).1
  · intro part hpart
    rcases List.mem_cons.mp hpart with rfl | hpart
    · simp
    · exact (h part hpart).2

theorem requestOf_of_notMem {url : String} (h : '?' ∉ url.toList) :
    requestOf url = ⟨"GET", url, .undefined, []⟩ := by
  rw [requestOf, SplitText.cut_of_notMem h]

/-- What a route comes to once its rejection is a response. -/
def handled : Handled → Handled
  | some (.error (.rejection e)) => respond (errorResponse e)
  | outcome => outcome

variable {σ : Type} {o : StoreConfig σ} {s : ProjectionStore σ} {now verifierNow : Int}
  {append : Option Thrown}

/-- A read of a token's path is its branch of the route table. -/
theorem handle_read {request : ApiRequest} {tokenId : Int} {tail : List String}
    (hlow : 0 ≤ tokenId) (hhigh : tokenId < uint256Bound) (hget : request.method = "GET")
    (hpath : segments request.path = "projection" :: toString tokenId :: tail) :
    (handle o s request now verifierNow append).2 =
      handled (readRoute o s tokenId request.query tail) := by
  have hroute : route o s request now verifierNow append =
      (s, readRoute o s tokenId request.query tail) := by
    simp only [route, hpath, parseUint256_toString hlow hhigh, hget, if_true]
  rw [handle, hroute]
  rcases readRoute o s tokenId request.query tail with - | (thrown | response)
  · rfl
  · cases thrown <;> rfl
  · rfl

/-- A number is a segment of its own. -/
theorem part_toString (n : Int) :
    toString n ≠ "" ∧ '/' ∉ (toString n).toList ∧ '?' ∉ (toString n).toList :=
  ⟨BigIntText.toString_ne_empty n, BigIntText.notMem_toString rfl (by decide) n,
    BigIntText.notMem_toString rfl (by decide) n⟩

/-- A path made of segments without a separator is served by its branch. -/
theorem serve_join {tokenId : Int} {tail : List String} (hlow : 0 ≤ tokenId)
    (hhigh : tokenId < uint256Bound)
    (htail : ∀ part ∈ tail, part ≠ "" ∧ '/' ∉ part.toList ∧ '?' ∉ part.toList) :
    fetchFrom o s now verifierNow append
        (SplitText.join '/' ("" :: "projection" :: toString tokenId :: tail)) =
      handled (readRoute o s tokenId [] tail) := by
  have hparts : ∀ part ∈ "projection" :: toString tokenId :: tail,
      part ≠ "" ∧ '/' ∉ part.toList ∧ '?' ∉ part.toList := by
    intro part hpart
    rcases List.mem_cons.mp hpart with rfl | hpart
    · decide
    · rcases List.mem_cons.mp hpart with rfl | hpart
      · exact part_toString _
      · exact htail part hpart
  have hquery :
      '?' ∉ (SplitText.join '/' ("" :: "projection" :: toString tokenId :: tail)).toList := by
    apply SplitText.notMem_join (by decide)
    intro part hpart
    rcases List.mem_cons.mp hpart with rfl | hpart
    · simp
    · exact (hparts part hpart).2.2
  rw [fetchFrom, requestOf_of_notMem hquery]
  apply handle_read hlow hhigh rfl
  exact segments_join fun part hpart => ⟨(hparts part hpart).1, (hparts part hpart).2.1⟩

theorem asOfPath_eq (question : String) (tokenId instant : Int) :
    asOfPath question tokenId instant =
      SplitText.join '/' ["", "projection", toString tokenId, question, "as-of",
        toString instant] := by
  apply String.toList_injective
  change (s!"/projection/{tokenId}/{question}/as-of/{instant}").toList = _
  simp [SplitText.join, List.intercalate, toString]

/-! ## Responses -/

theorem text_eq_instantNotCovered (code : ProjectionErrorCode) :
    code.text = "INSTANT_NOT_COVERED" ↔ code = .instantNotCovered := by
  cases code <;> decide

theorem statusOf_ge (code : ProjectionErrorCode) : statusOf code ≥ 400 := by
  cases code <;> decide

/-- The response to a rejection is thrown as the error for its code. -/
theorem bodyOf_errorResponse (e : ProjectionError) :
    bodyOf (errorResponse e) = .error (failureFor e) := by
  have herror : fieldOf (errorResponse e).body "error" = .ok (.string e.code.text) := rfl
  have hmessage : fieldOf (errorResponse e).body "message" = .ok (.string e.message) := rfl
  have hstatus : (errorResponse e).status ≥ 400 := statusOf_ge e.code
  rw [bodyOf, if_pos hstatus, failureOf, herror, hmessage, failureFor]
  by_cases hcode : e.code = .instantNotCovered
  · simp [JsValue.orElse, JsValue.isText, JsValue.asString, hcode, ProjectionErrorCode.text]
  · simp [JsValue.orElse, JsValue.isText, JsValue.asString, hcode, text_eq_instantNotCovered,
      errorResponse]

/-- A question whose response decodes is relayed. -/
theorem read_answer {α β : Type} {fetch : Fetch} {path : String} {reply : Answer α}
    {body : α → JsValue} {decode : JsValue → Except ClientFailure β} {view : α → β}
    (hfetch : fetch path = handled (answer reply body))
    (hdecode : ∀ a, decode (body a) = .ok (view a)) :
    read fetch path decode = relayed reply view := by
  rw [read, get, hfetch]
  rcases reply with - | (e | a)
  · rfl
  · change some ((bodyOf (errorResponse e)).bind decode) = _
    rw [bodyOf_errorResponse]
    rfl
  · change some (decode (body a)) = _
    rw [hdecode]
    rfl

/-- A question that is never rejected is answered by its response. -/
theorem read_respond {β : Type} {fetch : Fetch} {path : String} {body : JsValue}
    {decode : JsValue → Except ClientFailure β} {b : β}
    (hfetch : fetch path = handled (respond ⟨200, body⟩)) (hdecode : decode body = .ok b) :
    read fetch path decode = some (.ok b) := by
  rw [read, get, hfetch, ← hdecode]
  rfl

theorem decodeEntry_entryResponse (e : ProjectionEntry) :
    decodeEntry (entryResponse e) = .ok (ClientEntry.ofEntry e) := by
  simp [decodeEntry, integerField, fieldOf, entryResponse, JsValue.get, JsValue.property,
    JsValue.toBigInt, ClientEntry.ofEntry, bind, Except.bind, pure, Except.pure]

theorem decodeGap_openGapJson (s : ProjectionStore σ) (tokenId : Int) :
    decodeGap (openGapJson s tokenId) =
      .ok ((s.openSettlement tokenId).map ClientSettlement.ofRecord) := by
  unfold openGapJson ProjectionStore.openSettlement noGap
  by_cases hzero : s.openGapOf tokenId = zeroBytes32
  · simp [hzero, decodeGap]
  · simp [hzero, decodeGap, settlementResponse, decodeSettlement, integerField, fieldOf,
      JsValue.get, JsValue.property, JsValue.toBigInt, ClientSettlement.ofRecord, bind,
      Except.bind, pure, Except.pure, Except.map]

/-! ## Reads -/

/-- A read of the client and the question it stands for: they return together, a
rejection is thrown as the error for its code, and nothing else is thrown. -/
structure Relays {α β : Type} (reply : Answer α) (view : α → β) (read : Read β) : Prop where
  returns : ∀ b, read = some (.ok b) ↔ ∃ a, reply = some (.ok a) ∧ view a = b
  not_covered : (∃ message, read = some (.error (.notCovered message))) ↔
    ∃ e, reply = some (.error e) ∧ e.code = .instantNotCovered
  refused : ∀ status code message, read = some (.error (.projection status code message)) ↔
    ∃ e, reply = some (.error e) ∧ e.code ≠ .instantNotCovered ∧ statusOf e.code = status ∧
      .string e.code.text = code ∧ .string e.message = message
  nothing_else : read ≠ some (.error .thrown)
  unanswered : read = none ↔ reply = none

theorem relays_relayed {α β : Type} (reply : Answer α) (view : α → β) :
    Relays reply view (relayed reply view) := by
  rcases reply with - | (e | a)
  · constructor <;> simp [relayed]
  · by_cases hcode : e.code = .instantNotCovered
    · constructor <;> simp [relayed, failureFor, hcode]
    · constructor <;> simp [relayed, failureFor, hcode]
  · constructor <;> simp [relayed]

section Reads

variable (o s now verifierNow append)
variable {tokenId instant version : Int} (hlow : 0 ≤ tokenId) (hhigh : tokenId < uint256Bound)

include hlow hhigh

theorem serve_asOf (question : String)
    (hquestion : question ≠ "" ∧ '/' ∉ question.toList ∧ '?' ∉ question.toList)
    (hinstant : 0 ≤ instant) (hinstant' : instant ≤ uint64Max) :
    fetchFrom o s now verifierNow append (asOfPath question tokenId instant) =
      handled (instantRoute s tokenId instant (toString instant) question) := by
  rw [asOfPath_eq, serve_join hlow hhigh]
  · simp only [readRoute, parseUint64_toString hinstant hinstant']
  · intro part hpart
    simp only [List.mem_cons, List.not_mem_nil, or_false] at hpart
    rcases hpart with rfl | rfl | rfl
    · exact hquestion
    · decide
    · exact part_toString _

theorem serve_version (hversion : 0 ≤ version) (hversion' : version ≤ uint64Max) :
    fetchFrom o s now verifierNow append s!"/projection/{tokenId}/entry/version/{version}" =
      handled (answer (s.entryAt tokenId version) fun entry => .object [
        ("tokenId", .string (toString tokenId)), ("entry", entryResponse entry)]) := by
  have hpath : s!"/projection/{tokenId}/entry/version/{version}" = SplitText.join '/'
      ["", "projection", toString tokenId, "entry", "version", toString version] := by
    apply String.toList_injective
    simp [SplitText.join, List.intercalate, toString]
  rw [hpath, serve_join hlow hhigh]
  · simp only [readRoute, parseUint64_toString hversion hversion']
  · intro part hpart
    simp only [List.mem_cons, List.not_mem_nil, or_false] at hpart
    rcases hpart with rfl | rfl | rfl
    · decide
    · decide
    · exact part_toString _

theorem serve_token :
    fetchFrom o s now verifierNow append s!"/projection/{tokenId}" =
      handled (readRoute o s tokenId [] []) := by
  have hpath : s!"/projection/{tokenId}" =
      SplitText.join '/' ["", "projection", toString tokenId] := by
    apply String.toList_injective
    simp [SplitText.join, List.intercalate, toString]
  rw [hpath, serve_join hlow hhigh]
  intro part hpart
  cases hpart

theorem holderAsOf_serve (hinstant : 0 ≤ instant) (hinstant' : instant ≤ uint64Max) :
    holderAsOf (fetchFrom o s now verifierNow append) tokenId instant =
      relayed (s.holderAsOf tokenId instant) .string :=
  read_answer (serve_asOf o s now verifierNow append hlow hhigh "holder" (by decide) hinstant
    hinstant') fun _ => rfl

theorem isFinalAsOf_serve (hinstant : 0 ≤ instant) (hinstant' : instant ≤ uint64Max) :
    isFinalAsOf (fetchFrom o s now verifierNow append) tokenId instant =
      some (.ok (.boolean (s.isFinalAsOf tokenId instant))) :=
  read_respond (serve_asOf o s now verifierNow append hlow hhigh "finality" (by decide) hinstant
    hinstant') rfl

theorem entryAsOf_serve (hinstant : 0 ≤ instant) (hinstant' : instant ≤ uint64Max) :
    entryAsOf (fetchFrom o s now verifierNow append) tokenId instant =
      relayed (s.entryAsOf tokenId instant) ClientEntry.ofEntry :=
  read_answer (serve_asOf o s now verifierNow append hlow hhigh "entry" (by decide) hinstant
    hinstant') decodeEntry_entryResponse

theorem entryAt_serve (hversion : 0 ≤ version) (hversion' : version ≤ uint64Max) :
    entryAt (fetchFrom o s now verifierNow append) tokenId version =
      relayed (s.entryAt tokenId version) ClientEntry.ofEntry :=
  read_answer (serve_version o s now verifierNow append hlow hhigh hversion hversion')
    decodeEntry_entryResponse

theorem openGapOf_serve :
    openGapOf (fetchFrom o s now verifierNow append) tokenId =
      some (.ok ((s.openSettlement tokenId).map ClientSettlement.ofRecord)) :=
  read_respond (serve_token o s now verifierNow append hlow hhigh)
    (decodeGap_openGapJson s tokenId)

theorem resolve_serve (hinstant : 0 ≤ instant) (hinstant' : instant ≤ uint64Max) :
    resolve (fetchFrom o s now verifierNow append) tokenId instant =
      relayed (s.holderAsOf tokenId instant) fun holder =>
        { holder := .string holder
          final := .boolean (s.isFinalAsOf tokenId instant)
          openGap := (s.openSettlement tokenId).map ClientSettlement.ofRecord } := by
  apply read_answer (serve_asOf o s now verifierNow append hlow hhigh "resolve" (by decide)
    hinstant hinstant')
  intro holder
  change (decodeGap (openGapJson s tokenId)).bind _ = _
  rw [decodeGap_openGapJson]
  rfl

end Reads

/-- Served over any store, each read of the client is the store's own read, the finality of
an instant is always returned, and the gap is null exactly where its pointer is the zero
word. -/
theorem reads_relay (o : StoreConfig σ) (s : ProjectionStore σ) (now verifierNow : Int)
    (append : Option Thrown) (tokenId instant version : Int)
    (htoken : 0 ≤ tokenId ∧ tokenId < uint256Bound)
    (hinstant : 0 ≤ instant ∧ instant ≤ uint64Max)
    (hversion : 0 ≤ version ∧ version ≤ uint64Max) :
    let fetch := fetchFrom o s now verifierNow append
    Relays (s.holderAsOf tokenId instant) .string (holderAsOf fetch tokenId instant) ∧
      isFinalAsOf fetch tokenId instant =
        some (.ok (.boolean (s.isFinalAsOf tokenId instant))) ∧
      Relays (s.entryAsOf tokenId instant) ClientEntry.ofEntry
        (entryAsOf fetch tokenId instant) ∧
      Relays (s.entryAt tokenId version) ClientEntry.ofEntry (entryAt fetch tokenId version) ∧
      openGapOf fetch tokenId =
        some (.ok ((s.openSettlement tokenId).map ClientSettlement.ofRecord)) ∧
      (s.openSettlement tokenId = none ↔ s.openGapOf tokenId = zeroBytes32) ∧
      Relays (s.holderAsOf tokenId instant)
        (fun holder =>
          { holder := .string holder
            final := .boolean (s.isFinalAsOf tokenId instant)
            openGap := (s.openSettlement tokenId).map ClientSettlement.ofRecord })
        (resolve fetch tokenId instant) := by
  obtain ⟨hlow, hhigh⟩ := htoken
  refine ⟨?_, isFinalAsOf_serve o s now verifierNow append hlow hhigh hinstant.1 hinstant.2, ?_,
    ?_, openGapOf_serve o s now verifierNow append hlow hhigh, ?_, ?_⟩
  · rw [holderAsOf_serve o s now verifierNow append hlow hhigh hinstant.1 hinstant.2]
    exact relays_relayed _ _
  · rw [entryAsOf_serve o s now verifierNow append hlow hhigh hinstant.1 hinstant.2]
    exact relays_relayed _ _
  · rw [entryAt_serve o s now verifierNow append hlow hhigh hversion.1 hversion.2]
    exact relays_relayed _ _
  · simp [ProjectionStore.openSettlement]
  · rw [resolve_serve o s now verifierNow append hlow hhigh hinstant.1 hinstant.2]
    exact relays_relayed _ _

/-! ### The last token -/

section LastToken

open ProjectionStore

def lastToken : Int := uint256Bound - 1

def lastCalls : List (StoreCall MemoryChain) :=
  [.mutate (.admitEntry lastToken firstCandidate.toJs ⟨"trusting", 1, .null⟩ 0) none,
    .mutate (.openGap lastToken firstGap) none]

/-- An entry from instant 100 on, and an open gap. -/
def lastStore : ProjectionStore MemoryChain :=
  LabelledRun.run (step memoryConfig) (initial (MemoryChain.new {}) JournalContent.empty) lastCalls

theorem lastStore_covered : lastStore.holderAsOf lastToken uint64Max =
    some (.ok firstCandidate.holder) := by decide +kernel

theorem lastStore_uncovered : lastStore.holderAsOf lastToken 99 =
    some (.error ⟨.instantNotCovered, "the projection does not cover instant 99"⟩) := by
  decide +kernel

theorem lastStore_open : lastStore.openSettlement lastToken = some (firstGap.opened lastToken) := by
  decide +kernel

theorem reads_relay_last_token :
    let fetch := fetchFrom memoryConfig lastStore 0 0 none
    holderAsOf fetch lastToken uint64Max = some (.ok (.string firstCandidate.holder)) ∧
      (∃ message, holderAsOf fetch lastToken 99 = some (.error (.notCovered message))) ∧
      openGapOf fetch lastToken =
        some (.ok (some (ClientSettlement.ofRecord (firstGap.opened lastToken)))) := by
  obtain ⟨hholder, _, _, _, hgap, _⟩ := reads_relay memoryConfig lastStore 0 0 none lastToken
    uint64Max 1 (by decide) (by decide) (by decide)
  obtain ⟨hearly, _⟩ := reads_relay memoryConfig lastStore 0 0 none lastToken 99 1 (by decide)
    (by decide) (by decide)
  rw [lastStore_open] at hgap
  exact ⟨(hholder.returns _).mpr ⟨_, lastStore_covered, rfl⟩,
    hearly.not_covered.mpr ⟨_, lastStore_uncovered, rfl⟩, hgap⟩

end LastToken

end ProjectionClient

end Erc8415
