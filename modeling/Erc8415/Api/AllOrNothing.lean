import Erc8415.Api.Routes
import Erc8415.Settlement.SingleUse
import Erc8415.Settlement.StateMachine

/-! # All or nothing

Every request is answered, whatever its method, path, query and body are. An
answer of any status but 201 leaves the store as it was. A 201 is one entry of
the token the path names, with the fields of the body; what else moves is that
token's accepted height, its gap if one was open, and one more journal record.
-/

namespace Erc8415

variable {σ : Type}

/-! ## Requests that create nothing -/

/-- What a request that creates nothing comes to: a response, or a rejection that
becomes one. -/
def Declined : Handled → Prop
  | some (.ok response) => response.status ≠ 201
  | some (.error (.rejection _)) => True
  | _ => False

theorem declined_answer {α : Type} {reply : Answer α} (hreply : ∃ r, reply = some r)
    (body : α → JsValue) : Declined (answer reply body) := by
  obtain ⟨r, rfl⟩ := hreply
  cases r with
  | ok a =>
      intro h
      cases h
  | error e => trivial

theorem declined_malformed (code : String) : Declined (respond (malformed code)) := by
  intro h
  cases h

theorem declined_notFound : Declined (respond notFound) := by
  intro h
  cases h

theorem declined_okay (body : JsValue) : Declined (respond ⟨200, body⟩) := by
  intro h
  cases h

namespace ProjectionStore

variable {o : StoreConfig σ} {s t : ProjectionStore σ}

/-- A question every projection of the token answers is answered. -/
theorem exists_ask {α : Type} {tokenId : Int} {query : TokenProjection → Answer α}
    (hquery : ∀ p, s.projections.get (key tokenId) = some p → ∃ r, query p = some r) :
    ∃ r, s.ask tokenId query = some r := by
  unfold ask requireProjection
  cases hget : s.projections.get (key tokenId) with
  | none => exact ⟨_, rfl⟩
  | some p => exact hquery p hget

theorem exists_entryAsOf {tokenId : Int} (hlength : (s.entries tokenId).length ≤ maxArrayLength)
    (instant : Int) : ∃ r, s.entryAsOf tokenId instant = some r := by
  apply exists_ask
  intro p hp
  unfold entries at hlength
  rw [hp] at hlength
  exact TokenProjection.exists_entryAsOf hlength instant

theorem exists_holderAsOf {tokenId : Int} (hlength : (s.entries tokenId).length ≤ maxArrayLength)
    (instant : Int) : ∃ r, s.holderAsOf tokenId instant = some r := by
  obtain ⟨r, hr⟩ := exists_entryAsOf hlength instant
  exact ⟨_, by rw [holderAsOf_eq, hr, Option.map_some]⟩

/-- The index of the versions points inside the entries. -/
theorem Valid.exists_entryAt (h : s.Valid) (tokenId version : Int) :
    ∃ r, s.entryAt tokenId version = some r := by
  apply exists_ask
  intro p hp
  rw [TokenProjection.entryAt_eq (h.projections _ p hp).1]
  split
  next hrange =>
    exact ⟨_, by rw [List.getElem?_eq_getElem (by omega), Option.map_some]⟩
  next => exact ⟨_, rfl⟩

theorem declined_instantRoute {tokenId : Int}
    (hlength : (s.entries tokenId).length ≤ maxArrayLength) (instant : Int) (instantRaw : String)
    (question : String) : Declined (instantRoute s tokenId instant instantRaw question) := by
  unfold instantRoute
  split
  · exact declined_answer (exists_holderAsOf hlength instant) _
  · exact declined_answer (exists_entryAsOf hlength instant) _
  · exact declined_answer (exists_holderAsOf hlength instant) _
  · exact declined_okay _
  · exact declined_notFound

theorem Valid.declined_readRoute (h : s.Valid) {tokenId : Int}
    (hlength : (s.entries tokenId).length ≤ maxArrayLength) (query : List (String × String))
    (tail : List String) : Declined (readRoute o s tokenId query tail) := by
  unfold readRoute
  split
  · exact declined_okay _
  · unfold entriesRoute
    split
    · exact declined_malformed _
    · exact declined_okay _
  · split
    · exact declined_malformed _
    · exact declined_answer (h.exists_entryAt tokenId _) _
  · split
    · exact declined_malformed _
    · exact declined_instantRoute hlength _ _ _
  · exact declined_notFound

/-- A request reads or asks for nothing the API has, or it posts an admission to the
token its path names. -/
theorem Valid.route_cases (h : s.Valid)
    (hlength : ∀ tokenId, (s.entries tokenId).length ≤ maxArrayLength) (request : ApiRequest)
    (now verifierNow : Int) (append : Option Thrown) :
    (∃ handled, route o s request now verifierNow append = (s, handled) ∧ Declined handled) ∨
      request.method = "POST" ∧ ∃ tokenRaw tokenId,
        segments request.path = ["projection", tokenRaw, "admission"] ∧
        parseUint256 tokenRaw = some tokenId := by
  unfold route
  split
  next tokenRaw tail hpath =>
    cases htoken : parseUint256 tokenRaw with
    | none => exact Or.inl ⟨_, rfl, declined_malformed _⟩
    | some tokenId =>
        simp only
        by_cases hget : request.method = "GET"
        · rw [if_pos hget]
          exact Or.inl ⟨_, rfl, h.declined_readRoute (hlength tokenId) _ _⟩
        · by_cases hpost : request.method = "POST" ∧ tail = ["admission"]
          · obtain ⟨hmethod, rfl⟩ := hpost
            exact Or.inr ⟨hmethod, tokenRaw, tokenId, hpath, htoken⟩
          · rw [if_neg hget, if_neg hpost]
            exact Or.inl ⟨_, rfl, declined_notFound⟩
  next => exact Or.inl ⟨_, rfl, declined_notFound⟩

theorem handle_of_declined {request : ApiRequest} {now verifierNow : Int}
    {append : Option Thrown} {handled : Handled}
    (hroute : route o s request now verifierNow append = (s, handled))
    (hdeclined : Declined handled) :
    ∃ response, handle o s request now verifierNow append = (s, some (.ok response)) ∧
      response.status ≠ 201 := by
  unfold handle
  rw [hroute]
  match handled, hdeclined with
  | some (.ok response), hstatus => exact ⟨response, rfl, hstatus⟩
  | some (.error (.rejection e)), _ =>
      exact ⟨errorResponse e, rfl, beq_eq_false_iff_ne.mp (statusOf_ne_created e.code)⟩

/-! ## A created entry -/

/-- The fields an admission body gives: the numbers as the wire writes them, the texts
as they are. -/
structure Carries (body : JsValue) (c : CandidateEntry) (remoteHeight : Int) : Prop where
  version : wireUint64 ((body.get "entry").get "version") = some c.version
  effectiveAt : wireUint64 ((body.get "entry").get "effectiveAt") = some c.effectiveAt
  holder : (body.get "entry").get "holder" = .string c.holder
  recordCommitment : (body.get "entry").get "recordCommitment" = .string c.recordCommitment
  previousCommitment : (body.get "entry").get "previousCommitment" = .string c.previousCommitment
  registryReference : (body.get "entry").get "registryReference" = .string c.registryReference
  remoteHeight : wireUint64 ((body.get "proof").get "remoteHeight") = some remoteHeight

/-- An open gap closed by an entry that was due to it. -/
structure ClosesGap (s t : ProjectionStore σ) (tokenId : Int) (c : CandidateEntry) (now : Int)
    (id : Bytes32) : Prop where
  opened : (s.settlement id).status = .open
  token : (s.settlement id).tokenId = tokenId
  deadline : now ≤ (s.settlement id).deadline
  holder : c.holder = (s.settlement id).expectedHolder
  settlement : t.settlement id = { s.settlement id with status := .admitted }
  settlements : ∀ id', id' ≠ id → t.settlement id' = s.settlement id'

/-- One entry created on one token, and everything else that moved with it. -/
structure Created (o : StoreConfig σ) (s t : ProjectionStore σ) (tokenId : Int) (body : JsValue)
    (now : Int) (c : CandidateEntry) (remoteHeight : Int) : Prop where
  carries : Carries body c remoteHeight
  length : (t.entries tokenId).length = (s.entries tokenId).length + 1
  latest : (t.entries tokenId).getLast? = some { c with supersededAt := 0 }
  /-- The predecessor ends where the entry starts; the entries before it are kept. -/
  entries : ∀ (i : Nat) e, (s.entries tokenId)[i]? = some e → (t.entries tokenId)[i]? =
    some (if i + 1 = (s.entries tokenId).length then { e with supersededAt := c.effectiveAt }
      else e)
  height : o.adapter.acceptedHeight t.adapter tokenId = remoteHeight
  pointer : t.openGapOf tokenId = noGap
  gap : s.openGapOf tokenId ≠ noGap → ClosesGap s t tokenId c now (s.openGapOf tokenId)
  free : s.openGapOf tokenId = noGap → ∀ id, t.settlement id = s.settlement id
  others : ∀ other, other ≠ tokenId → t.entries other = s.entries other ∧
    t.openGapOf other = s.openGapOf other ∧
    o.adapter.acceptedHeight t.adapter other = o.adapter.acceptedHeight s.adapter other
  journal : t.journal =
    s.journal.append (s.admittedRecord tokenId { c with supersededAt := 0 } remoteHeight)

/-- A body that is parsed carries the candidate its entry narrows to. -/
theorem Carries.of_parse {body : JsValue} {parsed : ParsedAdmission}
    (hparsed : parseAdmission body = some parsed) {c : CandidateEntry}
    (hshape : validateCandidateShape parsed.entry = .ok c) :
    Carries body c parsed.proof.remoteHeight := by
  simp only [parseAdmission, Option.bind_eq_bind, Option.bind_eq_some_iff, Option.pure_def,
    Option.some.injEq] at hparsed
  obtain ⟨_, _, _, _, _, _, version, hversion, effectiveAt, heffective, height, hheight, profile,
    hprofile, rfl⟩ := hparsed
  obtain ⟨_, hholder, hrecord, hprevious, hreference, hat, hnumber, _⟩ :=
    validateCandidateShape_eq_ok.mp hshape
  simp only [JsValue.get_cons_self, JsValue.get_cons_of_ne, ne_eq, String.reduceEq,
    not_false_eq_true, JsValue.bigint.injEq]
    at hholder hrecord hprevious hreference hat hnumber
  subst hat hnumber
  exact ⟨hversion, heffective, hholder, hrecord, hprevious, hreference, hheight⟩

/-- The gap a token points at, read as the store answers it. -/
theorem Served.openGapOf_eq (h : s.Served) (tokenId : Int) :
    (s.openGapOf tokenId = noGap ∧ s.openGaps.get (key tokenId) = none) ∨
      s.openGapOf tokenId ≠ noGap ∧
        s.openGaps.get (key tokenId) = some (s.openGapOf tokenId) := by
  unfold openGapOf
  cases hget : s.openGaps.get (key tokenId) with
  | none => exact Or.inl ⟨rfl, rfl⟩
  | some id => exact Or.inr ⟨(h.begun_of_get hget).settlementId, rfl⟩

/-- Whether a gap was open is whether the token's pointer was set. -/
theorem Served.has_gap (h : s.Served) (tokenId : Int) :
    s.openGaps.has (key tokenId) = decide (s.openGapOf tokenId ≠ noGap) := by
  rcases h.openGapOf_eq tokenId with ⟨hgap, hget⟩ | ⟨hgap, hget⟩
  · rw [(InsertionMap.has_eq_false _ _).mpr hget, decide_eq_false (not_not.mpr hgap)]
  · rw [InsertionMap.has, hget, decide_eq_true hgap]
    rfl

section Posted

variable {tokenId : Int} {body : JsValue} {parsed : ParsedAdmission} {now verifierNow : Int}
  {c : CandidateEntry} {adapter : σ}

/-- The gap of the token is closed by the entry, which was asserted to be due to it. -/
theorem Served.closesGap (h : s.Served)
    (hassert : assertOpenGap s tokenId parsed.entry now = .ok ())
    (hc : Accepted o s tokenId parsed.entry parsed.proof verifierNow c)
    (hgap : s.openGapOf tokenId ≠ noGap) (adapter : σ) :
    ClosesGap s (s.admitted tokenId c parsed.proof.remoteHeight adapter) tokenId c now
      (s.openGapOf tokenId) := by
  rcases h.openGapOf_eq tokenId with ⟨hno, _⟩ | ⟨_, hpointer⟩
  · exact absurd hno hgap
  · have htoken := key_inj.mp (pointed_settlement h.records hpointer).2.2.2
    have hmoved := h.moved_admitted hpointer c parsed.proof.remoteHeight adapter
    rw [assertOpenGap, if_pos hgap] at hassert
    obtain ⟨hopen, hdeadline, c', hshape, hholder⟩ := assertSettlementAdmission_eq_ok.mp hassert
    rw [hc.shape] at hshape
    cases hshape
    exact {
      opened := hopen
      token := htoken.symm
      deadline := hdeadline
      holder := h.holder hpointer hc.follows.shaped hholder
      settlement := hmoved.settlement
      settlements := hmoved.settlements }

theorem Served.created (h : s.Served) (hparsed : parseAdmission body = some parsed)
    (hassert : assertOpenGap s tokenId parsed.entry now = .ok ())
    (hc : Accepted o s tokenId parsed.entry parsed.proof verifierNow c)
    (hadvance : o.adapter.advanceHeight s.adapter tokenId parsed.proof.remoteHeight =
      .ok adapter) :
    Created o s (s.admitted tokenId c parsed.proof.remoteHeight adapter) tokenId body now c
      parsed.proof.remoteHeight := by
  have happended : Appended s (s.admitted tokenId c parsed.proof.remoteHeight adapter) tokenId c :=
    Appended.entered hc
  have hpointers := entered_openGaps_get s tokenId c adapter
  have hadapter : (s.admitted tokenId c parsed.proof.remoteHeight adapter).adapter = adapter :=
    entered_adapter s tokenId c adapter
  have hheights := hc.heights hadvance
  exact {
    carries := .of_parse hparsed hc.shape
    length := by rw [happended.entries, length_extend]
    latest := by rw [happended.entries, getLast?_extend]
    entries := by
      intro i e he
      rw [happended.entries, getElem?_extend, he]
      have hi : i < (s.entries tokenId).length := (List.getElem?_eq_some_iff.mp he).1
      by_cases hlast : i + 1 = (s.entries tokenId).length
      · rw [if_neg (by omega), if_pos hlast, if_pos hlast, Option.map_some]
      · rw [if_pos (by omega), if_neg hlast]
    height := by rw [hadapter, hheights, if_pos rfl]
    pointer := by
      unfold openGapOf
      rw [ProjectionStore.admitted, hpointers, if_pos rfl]
      rfl
    gap := fun hgap => h.closesGap hassert hc hgap adapter
    free := by
      intro hgap
      rcases h.openGapOf_eq tokenId with ⟨_, hnone⟩ | ⟨hne, _⟩
      · exact (SameGaps.admitted hnone c _ adapter).1
      · exact absurd hgap hne
    others := by
      intro other hne
      refine ⟨happended.others other hne, ?_, ?_⟩
      · unfold openGapOf
        rw [ProjectionStore.admitted, hpointers, if_neg fun heq => hne (key_inj.mp heq).symm]
      · rw [hadapter, hheights, if_neg hne]
    journal := rfl }

/-- An admission that passes every check is answered with its entry. -/
theorem Valid.handleAdmission_of_accepted (h : s.Valid) {tokenRaw : String}
    (htoken : parseUint256 tokenRaw = some tokenId) (hparsed : parseAdmission body = some parsed)
    (hassert : assertOpenGap s tokenId parsed.entry now = .ok ())
    (hc : Accepted o s tokenId parsed.entry parsed.proof verifierNow c) :
    ∃ adapter, o.adapter.advanceHeight s.adapter tokenId parsed.proof.remoteHeight = .ok adapter ∧
      handleAdmission o s tokenRaw body now verifierNow none =
        (s.admitted tokenId c parsed.proof.remoteHeight adapter,
          .ok (admissionResponse tokenId
            (s.admissionResult tokenId c parsed.proof.remoteHeight))) := by
  obtain ⟨adapter, hadvance, heq⟩ := h.admitEntry_of_accepted hc
  refine ⟨adapter, hadvance, ?_⟩
  simp only [handleAdmission, admissionRoute, htoken, hparsed, hassert, heq, Except.map]

/-- An admission posted to a token is refused, or one entry is created on it. -/
theorem Served.handleAdmission_cases (h : s.Served) {tokenRaw : String}
    (htoken : parseUint256 tokenRaw = some tokenId) (body : JsValue) (now verifierNow : Int) :
    (∃ response, handleAdmission o s tokenRaw body now verifierNow none = (s, .ok response) ∧
        response.status ≠ 201) ∨
      ∃ t c remoteHeight, Created o s t tokenId body now c remoteHeight ∧
        handleAdmission o s tokenRaw body now verifierNow none =
          (t, .ok (admissionResponse tokenId
            ⟨{ c with supersededAt := 0 }, decide (s.openGapOf tokenId ≠ noGap),
              remoteHeight⟩)) := by
  cases hparsed : parseAdmission body with
  | none =>
      left
      simp only [handleAdmission, admissionRoute, htoken, hparsed]
      exact ⟨_, rfl, by simp⟩
  | some parsed =>
      cases hassert : assertOpenGap s tokenId parsed.entry now with
      | error e =>
          left
          simp only [handleAdmission, admissionRoute, htoken, hparsed, hassert]
          exact ⟨_, rfl, beq_eq_false_iff_ne.mp (statusOf_ne_created e.code)⟩
      | ok u =>
          rcases admitEntry_none (o := o) h.valid tokenId parsed.entry parsed.proof verifierNow with
            ⟨e, _, heq⟩ | ⟨c, _, hc, _, _⟩
          · left
            simp only [handleAdmission, admissionRoute, htoken, hparsed, hassert, heq, Except.map]
            exact ⟨_, rfl, beq_eq_false_iff_ne.mp (statusOf_ne_created e.code)⟩
          · right
            obtain ⟨adapter, hadvance, heq⟩ :=
              h.valid.handleAdmission_of_accepted htoken hparsed hassert hc
            rw [heq, admissionResult, h.has_gap]
            exact ⟨_, c, _, h.created hparsed hassert hc hadvance, rfl⟩

end Posted

/-! ## Every request -/

/-- What a request comes to: an answer, with nothing or one created entry behind it. -/
structure AllOrNothing (o : StoreConfig σ) (s : ProjectionStore σ) (request : ApiRequest)
    (now : Int) (done : ProjectionStore σ × Handled) (response : ApiResponse) : Prop where
  answered : done.2 = some (.ok response)
  unchanged : response.status ≠ 201 → done.1 = s
  method : response.status = 201 → request.method = "POST"
  created : response.status = 201 → ∃ tokenId c remoteHeight,
    segments request.path = ["projection", toString tokenId, "admission"] ∧
    0 ≤ tokenId ∧ tokenId < uint256Bound ∧
    response = admissionResponse tokenId
      ⟨{ c with supersededAt := 0 }, decide (s.openGapOf tokenId ≠ noGap), remoteHeight⟩ ∧
    Created o s done.1 tokenId request.body now c remoteHeight

/-- An answer of another status, with the store it was given. -/
theorem AllOrNothing.of_unchanged {request : ApiRequest} {now : Int} {response : ApiResponse}
    (hstatus : response.status ≠ 201) :
    AllOrNothing o s request now (s, some (.ok response)) response where
  answered := rfl
  unchanged _ := rfl
  method hcreated := absurd hcreated hstatus
  created hcreated := absurd hcreated hstatus

/-- A request on a store whose entry lists are arrays that take one more entry. -/
theorem Served.all_or_nothing (h : s.Served)
    (hlength : ∀ tokenId, (s.entries tokenId).length < maxArrayLength) (request : ApiRequest)
    (now verifierNow : Int) :
    ∃ response,
      AllOrNothing o s request now (handle o s request now verifierNow none) response := by
  rcases h.valid.route_cases (o := o) (fun tokenId => Nat.le_of_lt (hlength tokenId)) request now
    verifierNow none with ⟨handled, hroute, hdeclined⟩ | ⟨hpost, tokenRaw, tokenId, hpath, htoken⟩
  · obtain ⟨response, heq, hstatus⟩ := handle_of_declined hroute hdeclined
    rw [heq]
    exact ⟨response, .of_unchanged hstatus⟩
  · rw [handle_admission hpost hpath]
    rcases h.handleAdmission_cases (o := o) htoken request.body now verifierNow with
      ⟨response, heq, hstatus⟩ | ⟨t, c, remoteHeight, hcreated, heq⟩
    · rw [heq]
      exact ⟨response, .of_unchanged hstatus⟩
    · rw [heq]
      obtain ⟨rfl, hlow, hhigh⟩ := parseUint256_eq_some htoken
      exact ⟨_, {
        answered := rfl
        unchanged := fun hstatus => absurd rfl hstatus
        method := fun _ => hpost
        created := fun _ => ⟨tokenId, c, remoteHeight, hpath, hlow, hhigh, rfl, hcreated⟩ }⟩

/-- In every state the service reaches, over any profile of the kit and any port, every
request is answered, and what it is answered is all or nothing. -/
theorem run_all_or_nothing (engine : SettlementEngine) (registerId verificationProfile : Bytes32)
    (profile : KitProfile) (port : RemoteChainAdapter σ) (adapter : σ) (journal : JournalContent)
    (calls : List (ServiceCall
      (⟨registerId, verificationProfile, profile.withAdapter port, port⟩ : StoreConfig σ)))
    (request : ApiRequest) (now verifierNow : Int) :
    let o : StoreConfig σ :=
      ⟨registerId, verificationProfile, profile.withAdapter port, port⟩
    let s := LabelledRun.run (serveStep engine o) (initial adapter journal) calls
    (∀ tokenId, (s.entries tokenId).length < maxArrayLength) →
    ∃ response,
      AllOrNothing o s request now (handle o s request now verifierNow none) response := by
  intro o s hlength
  have hserved : s.Served := (Served.initial adapter journal).run calls
  exact hserved.all_or_nothing hlength request now verifierNow

section PostedLeaf

/-- The first leaf's candidate as a body writes it. -/
def leafBody : JsValue :=
  .object [
    ("entry", .object [
      ("version", .string "1"), ("effectiveAt", .string "100"),
      ("holder", .string firstCandidate.holder),
      ("recordCommitment", .string firstCandidate.recordCommitment),
      ("previousCommitment", .string firstCandidate.previousCommitment),
      ("registryReference", .string firstCandidate.registryReference)]),
    ("proof", .object [
      ("profile", .string leafMaterial.profile), ("remoteHeight", .string "5"),
      ("payload", leafMaterial.payload)])]

def leafRequest : ApiRequest := ⟨"POST", "/projection/1/admission", leafBody, []⟩

/-- The gap is open at instant 60, and the entry is the one it expects. -/
theorem leaf_created : (handle leafConfig leafOpened leafRequest 60 0 none).2 =
    some (.ok (admissionResponse 1 ⟨{ firstCandidate with supersededAt := 0 }, true, 5⟩)) := by
  obtain ⟨entry, hparsed, hshape⟩ : ∃ entry,
      parseAdmission leafRequest.body = some ⟨entry, leafMaterial⟩ ∧
        validateCandidateShape entry = .ok firstCandidate := ⟨_, rfl, rfl⟩
  have hc : Accepted leafConfig leafOpened 1 entry leafMaterial 0 firstCandidate :=
    ⟨leaf_accepted.writable, hshape, leaf_accepted.proof, leaf_accepted.follows⟩
  have hassert : assertOpenGap leafOpened 1 entry 60 = .ok () := by
    rw [assertOpenGap, if_pos (by decide)]
    exact assertSettlementAdmission_eq_ok.mpr ⟨by decide, by decide, firstCandidate, hshape, rfl⟩
  have htoken : parseUint256 "1" = some 1 := parseUint256_toString (n := 1) (by decide) (by decide)
  have hopened : Sound leafConfig (fun _ => pairRoot) leafOpened :=
    (Sound.initial leaf_roots JournalContent.empty).step trivial
  have hpath : segments leafRequest.path = ["projection", "1", "admission"] := by decide
  rw [handle_admission rfl hpath]
  obtain ⟨adapter, _, heq⟩ :=
    hopened.valid.handleAdmission_of_accepted htoken hparsed hassert hc
  rw [heq]
  rfl

theorem run_all_or_nothing_leaf :
    let done := handle leafConfig leafOpened leafRequest 60 0 none
    ∃ tokenId c remoteHeight, segments "/projection/1/admission" =
      ["projection", toString tokenId, "admission"] ∧
      Created leafConfig leafOpened done.1 tokenId leafBody 60 c remoteHeight := by
  obtain ⟨response, hall⟩ := run_all_or_nothing
    ⟨allowListAuthority [zeroAddress], 1000⟩ (word '7') (word '8') .merkle
    (MemoryChain.adapter {}) leafChain JournalContent.empty
    [.begin ⟨1, word '5', zeroAddress, firstCandidate.holder, word '6', 200⟩ 50] leafRequest 60 0
    (fun _ => Nat.lt_of_lt_of_eq (Nat.zero_lt_succ _) rfl)
  have hanswer := leaf_created.symm.trans hall.answered
  cases hanswer
  obtain ⟨tokenId, c, remoteHeight, hpath, _, _, _, hone⟩ := hall.created rfl
  exact ⟨tokenId, c, remoteHeight, hpath, hone⟩

end PostedLeaf

end ProjectionStore

end Erc8415
