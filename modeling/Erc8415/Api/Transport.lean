import Erc8415.Api.Isolation
import Erc8415.Foundation.EventSourcing
import Erc8415.Foundation.Json
import Mathlib.Logic.Function.Basic

/-! # The transport

The chunks of many requests arrive interleaved, and each request is handled
when its last chunk has. However they interleave, the server does what the
gateway does on the messages that arrived whole, one after another in the order
they were completed; a body that is too large or no JSON never reaches it.
-/

namespace Erc8415

/-! ## Bodies -/

/-- `Object.fromEntries(pairs)`: the last value of each name. -/
def fromEntries {α : Type} (pairs : List (String × α)) : List (String × α) :=
  (pairs.foldl (fun m pair => m.set pair.1 pair.2) InsertionMap.empty).pairs

section JsonValue

variable (number : JsonNumber → JsValue)

mutual

/-- The value `JSON.parse` makes of a document, by what a number token denotes. -/
def jsonValue : Json → JsValue
  | .null => .null
  | .boolean b => .boolean b
  | .number n => number n
  | .string s => .string s
  | .array items => .array (jsonItems items)
  | .object members => .object (fromEntries (jsonMembers members))

def jsonItems : List Json → List JsValue
  | [] => []
  | item :: rest => jsonValue item :: jsonItems rest

def jsonMembers : List (String × Json) → List (String × JsValue)
  | [] => []
  | (name, value) :: rest => (name, jsonValue value) :: jsonMembers rest

end

end JsonValue

mutual

/-- Whether `JSON.stringify(value)` returns: it throws on an integer of `bigint`. -/
def serializable : JsValue → Bool
  | .bigint _ => false
  | .array items => serializableItems items
  | .object properties => serializableProperties properties
  | _ => true

def serializableItems : List JsValue → Bool
  | [] => true
  | item :: rest => serializable item && serializableItems rest

def serializableProperties : List (String × JsValue) → Bool
  | [] => true
  | (_, value) :: rest => serializable value && serializableProperties rest

end

/-! ## Requests -/

/-- What a request listener is given before any of the body. -/
structure Incoming where
  method : Option String
  url : Option String
  authorization : Option String

/-- What the platform reads: a URL as its path and its query, nothing where `new URL` throws,
and the value of a number of a JSON document. -/
structure Platform where
  url : String → Option (String × List (String × String))
  number : JsonNumber → JsValue

/-- A single credential, by `/^Bearer ([^\s,]+)$/i`; a malformed or absent header stays
unauthenticated. -/
def bearer (authorization : Option String) : Option String :=
  authorization.bind fun text =>
    let scheme := text.toList.take 7
    let credential := text.toList.drop 7
    if scheme.map Char.toLower = ['b', 'e', 'a', 'r', 'e', 'r', ' '] ∧ credential ≠ [] ∧
        (credential.all fun c => !BigIntText.isWhiteSpace c && c ≠ ',') = true then
      some (String.ofList credential)
    else none

/-- What the clocks read when a request is handled, and what the journal does with its append. -/
structure Moment where
  now : Int
  verifierNow : Int
  append : Option Thrown

namespace Platform

variable (platform : Platform)

/-- The body of a request, or nothing where its text is not JSON. -/
def readBody (bytes : List UInt8) : Option JsValue :=
  let raw := Text.decode bytes
  if raw = [] then some .undefined else (Json.parse raw).map (jsonValue platform.number)

/-- The request that is put to the gateway, or nothing where the URL is not one. -/
def request (incoming : Incoming) (body : JsValue) : Option GatewayRequest :=
  (platform.url (incoming.url.getD "/")).map fun target => {
    method := incoming.method.getD "GET"
    path := target.1
    body := body
    query := fromEntries target.2
    apiKey := bearer incoming.authorization }

end Platform

def bodyTooLarge : ApiResponse := ⟨413, .object [("error", .string "BODY_TOO_LARGE")]⟩

def malformedJson : ApiResponse := ⟨400, .object [("error", .string "MALFORMED_JSON")]⟩

def internalError : ApiResponse := ⟨500, .object [("error", .string "INTERNAL_ERROR")]⟩

/-! ## The server -/

/-- What the listeners of one request keep, and what was sent in answer. -/
structure Connection where
  incoming : Incoming
  chunks : List (List UInt8)
  size : Nat
  refused : Bool
  ended : Bool
  sent : Option ApiResponse

namespace Connection

/-- A request whose body has not begun. -/
def new (incoming : Incoming) : Connection := ⟨incoming, [], 0, false, false, none⟩

/-- `incoming.on('data')`. -/
def onData (bodyLimit : Nat) (c : Connection) (chunk : List UInt8) : Connection :=
  if c.refused then c
  else
    let size := c.size + chunk.length
    if size > bodyLimit then { c with size := size, refused := true, sent := some bodyTooLarge }
    else { c with size := size, chunks := c.chunks ++ [chunk] }

/-- What is sent when the gateway has come to an outcome: its response, unless something was
thrown, or the text of the body cannot be written. -/
def sentFor : Handled → Option ApiResponse
  | none => none
  | some (.ok response) => some (if serializable response.body then response else internalError)
  | some (.error _) => some internalError

/-- `incoming.on('end')`, and what becomes of the gateway. -/
def onEnd (platform : Platform) (g : Gateway) (c : Connection) (moment : Moment) :
    Gateway × Connection :=
  let c := { c with ended := true }
  if c.refused then (g, c)
  else
    match platform.readBody c.chunks.flatten with
    | none => (g, { c with sent := some malformedJson })
    | some body =>
        match platform.request c.incoming body with
        | none => (g, { c with sent := some internalError })
        | some request =>
            let done := g.handleGateway request moment.now moment.verifierNow moment.append
            (done.1, { c with sent := sentFor done.2 })

end Connection

/-- The gateway that is served, and the requests by the connection they came on. -/
structure ApiServer : Type 1 where
  gateway : Gateway
  connections : Nat → Option Connection

/-- What the platform tells the server. -/
inductive ServerEvent where
  | connects (id : Nat) (incoming : Incoming)
  | data (id : Nat) (chunk : List UInt8)
  | ends (id : Nat) (moment : Moment)

/-- The connection an event is on. -/
def ServerEvent.id : ServerEvent → Nat
  | .connects id _ => id
  | .data id _ => id
  | .ends id _ => id

namespace ApiServer

def start (g : Gateway) : ApiServer := ⟨g, fun _ => none⟩

variable (platform : Platform) (bodyLimit : Nat)

/-- `createApi`. A stream that has ended emits nothing more. -/
def step (s : ApiServer) : ServerEvent → ApiServer
  | .connects id incoming =>
      match s.connections id with
      | none =>
          { s with connections := Function.update s.connections id (some (.new incoming)) }
      | some _ => s
  | .data id chunk =>
      match s.connections id with
      | none => s
      | some c =>
          if c.ended then s
          else
            { s with
              connections := Function.update s.connections id (some (c.onData bodyLimit chunk)) }
  | .ends id moment =>
      match s.connections id with
      | none => s
      | some c =>
          if c.ended then s
          else
            let done := c.onEnd platform s.gateway moment
            ⟨done.1, Function.update s.connections id (some done.2)⟩

/-- What was sent on a connection. -/
def sent (s : ApiServer) (id : Nat) : Option ApiResponse := (s.connections id).bind (·.sent)

end ApiServer

/-! ## Whole messages -/

/-- What a client has sent of a message. -/
structure Message where
  incoming : Incoming
  body : List UInt8
  ended : Bool

/-- The messages by their connection. -/
abbrev Inbox := Nat → Option Message

/-- A message that has arrived whole, and when. -/
structure Completed where
  id : Nat
  incoming : Incoming
  body : List UInt8
  moment : Moment

namespace Inbox

def empty : Inbox := fun _ => none

def step (i : Inbox) : ServerEvent → Inbox
  | .connects id incoming =>
      match i id with
      | none => Function.update i id (some ⟨incoming, [], false⟩)
      | some _ => i
  | .data id chunk =>
      match i id with
      | none => i
      | some m =>
          if m.ended then i else Function.update i id (some { m with body := m.body ++ chunk })
  | .ends id _ =>
      match i id with
      | none => i
      | some m => if m.ended then i else Function.update i id (some { m with ended := true })

/-- The message an event completes, if it completes one. -/
def completes (i : Inbox) : ServerEvent → List Completed
  | .ends id moment =>
      match i id with
      | none => []
      | some m => if m.ended then [] else [⟨id, m.incoming, m.body, moment⟩]
  | _ => []

/-- The messages that were completed, in the order they were. -/
def completed (i : Inbox) (events : List ServerEvent) : List Completed :=
  EventSourcing.log step completes i events

end Inbox

namespace Completed

variable (platform : Platform) (bodyLimit : Nat)

/-- What a message asks of the gateway; nothing where it never reaches it. -/
def asks (m : Completed) : Option GatewayEvent :=
  if bodyLimit < m.body.length then none
  else
    ((platform.readBody m.body).bind (platform.request m.incoming)).map fun request =>
      .request request m.moment.now m.moment.verifierNow m.moment.append

/-- What an outcome of the gateway is answered. -/
def answerOf : Handled → Option ApiResponse
  | none => none
  | some (.ok response) => some response
  | some (.error _) => some internalError

/-- What a message is answered. -/
def answer (g : Gateway) (m : Completed) : Option ApiResponse :=
  if bodyLimit < m.body.length then some bodyTooLarge
  else
    match platform.readBody m.body with
    | none => some malformedJson
    | some body =>
        match platform.request m.incoming body with
        | none => some internalError
        | some request =>
            answerOf
              (g.handleGateway request m.moment.now m.moment.verifierNow m.moment.append).2

/-- The gateway after a message. -/
def serve (g : Gateway) (m : Completed) : Gateway :=
  match m.asks platform bodyLimit with
  | none => g
  | some event => g.step event

/-- The messages of a run by their connection, each with its answer. -/
def answers (g : Gateway) (messages : List Completed) : List (Nat × Option ApiResponse) :=
  EventSourcing.log (serve platform bodyLimit)
    (fun g m => [(m.id, m.answer platform bodyLimit g)]) g messages

theorem serve_eq_run (g : Gateway) (messages : List Completed) :
    LabelledRun.run (serve platform bodyLimit) g messages =
      LabelledRun.run Gateway.step g (messages.filterMap (asks platform bodyLimit)) := by
  induction messages generalizing g with
  | nil => rfl
  | cons m rest ih =>
      rw [LabelledRun.run_cons, ih, List.filterMap_cons, serve]
      cases m.asks platform bodyLimit with
      | none => rfl
      | some event => rfl

end Completed

/-! ## Every response can be written -/

section Serializable

/-- A response that is handed back, if one is, can be written as JSON. -/
def Handled.Serializable (outcome : Handled) : Prop :=
  ∀ response, outcome = some (.ok response) → serializable response.body = true

variable {σ : Type} {o : StoreConfig σ} {store : ProjectionStore σ}

theorem Handled.Serializable.respond {response : ApiResponse}
    (h : serializable response.body = true) : Handled.Serializable (respond response) := by
  intro response' heq
  cases heq
  exact h

theorem Handled.Serializable.answer {α : Type} {reply : Answer α} {body : α → JsValue}
    (h : ∀ a, serializable (body a) = true) : Handled.Serializable (answer reply body) := by
  intro response heq
  unfold Erc8415.answer at heq
  rcases reply with _ | e | a
  · cases heq
  · cases heq
  · cases heq
    exact h a

theorem serializable_openGapJson (tokenId : Int) :
    serializable (openGapJson store tokenId) = true := by
  unfold openGapJson
  simp only
  split <;> rfl

theorem serializable_entryResponses (entries : List ProjectionEntry) :
    serializableItems (entries.map entryResponse) = true := by
  induction entries with
  | nil => rfl
  | cons entry rest ih =>
      rw [List.map_cons, serializableItems, ih]
      rfl

theorem serializable_instantRoute (tokenId instant : Int) (instantRaw question : String) :
    (instantRoute store tokenId instant instantRaw question).Serializable := by
  unfold instantRoute
  split
  · exact .answer fun holder => by
      simp only [serializable, serializableProperties, serializable_openGapJson]
      rfl
  · exact .answer fun entry => rfl
  · exact .answer fun holder => rfl
  · refine .respond ?_
    simp only [serializable, serializableProperties, serializable_openGapJson]
    rfl
  · exact .respond rfl

theorem serializable_readRoute (tokenId : Int) (query : List (String × String))
    (tail : List String) : (readRoute o store tokenId query tail).Serializable := by
  unfold readRoute
  split
  · refine .respond ?_
    simp only [serializable, serializableProperties, serializable_openGapJson]
    rfl
  · refine .respond ?_
    unfold entriesRoute
    split
    · rfl
    · simp only [serializable, serializableProperties, serializable_entryResponses]
      rfl
  · split
    · exact .respond rfl
    · exact .answer fun entry => rfl
  · split
    · exact .respond rfl
    · exact serializable_instantRoute _ _ _ _
  · exact .respond rfl

theorem serializable_admissionRoute (tokenRaw : String) (body : JsValue) (now verifierNow : Int)
    (append : Option Thrown) :
    Handled.Serializable (some
      (admissionRoute o store tokenRaw body now verifierNow append).2) := by
  intro response heq
  unfold admissionRoute at heq
  split at heq
  · cases heq
    rfl
  · split at heq
    · cases heq
      rfl
    · split at heq
      · cases heq
      · simp only [Option.some.injEq] at heq
        generalize (store.admitEntry o _ _ _ verifierNow append).2 = reply at heq
        cases reply with
        | error e => cases heq
        | ok result =>
            cases heq
            rfl

theorem serializable_handle (request : ApiRequest) (now verifierNow : Int)
    (append : Option Thrown) :
    (handle o store request now verifierNow append).2.Serializable := by
  have hroute : (route o store request now verifierNow append).2.Serializable := by
    unfold route
    split
    · split
      · exact .respond rfl
      · split
        · exact serializable_readRoute _ _ _
        · split
          · exact serializable_admissionRoute _ _ _ _ _
          · exact .respond rfl
    · exact .respond rfl
  unfold handle
  split
  · exact .respond rfl
  · exact hroute

theorem Gateway.serializable_handleGateway (g : Gateway) (request : GatewayRequest)
    (now verifierNow : Int) (append : Option Thrown) :
    (g.handleGateway request now verifierNow append).2.Serializable := by
  rw [Gateway.handleGateway_outcome]
  unfold Gateway.relay
  split
  · exact .respond rfl
  · split
    · exact .respond rfl
    · exact serializable_handle _ _ _ _

theorem Connection.sentFor_eq {outcome : Handled} (h : outcome.Serializable) :
    Connection.sentFor outcome = Completed.answerOf outcome := by
  rcases outcome with _ | e | response
  · rfl
  · rfl
  · exact congrArg some (if_pos (h response rfl))

end Serializable

/-! ## The server keeps what was sent -/

variable {platform : Platform} {bodyLimit : Nat}

/-- A connection that carries a message: refused as soon as the message is too large, and
otherwise with all its bytes. -/
structure Connection.Carries (bodyLimit : Nat) (c : Connection) (m : Message) : Prop where
  incoming : c.incoming = m.incoming
  ended : c.ended = m.ended
  refused : c.refused = true ↔ bodyLimit < m.body.length
  chunks : c.refused = false → c.chunks.flatten = m.body ∧ c.size = m.body.length
  tooLarge : c.refused = true → c.sent = some bodyTooLarge
  waiting : c.refused = false → c.ended = false → c.sent = none

namespace Connection.Carries

variable {c : Connection} {m : Message}

theorem new (bodyLimit : Nat) (incoming : Incoming) :
    (Connection.new incoming).Carries bodyLimit ⟨incoming, [], false⟩ where
  incoming := rfl
  ended := rfl
  refused := by simp [Connection.new]
  chunks _ := ⟨rfl, rfl⟩
  tooLarge h := by cases h
  waiting _ _ := rfl

theorem onData (h : c.Carries bodyLimit m) (chunk : List UInt8) :
    (c.onData bodyLimit chunk).Carries bodyLimit { m with body := m.body ++ chunk } := by
  cases hrefused : c.refused with
  | true =>
      -- The size is past the limit already, and more bytes leave it there.
      have hsame : c.onData bodyLimit chunk = c := if_pos hrefused
      have hlarge := h.refused.mp hrefused
      rw [hsame]
      refine ⟨h.incoming, h.ended, ?_, fun hnot => ?_, h.tooLarge, fun hnot => ?_⟩
      · simp only [hrefused, List.length_append, true_iff]
        omega
      · rw [hrefused] at hnot
        cases hnot
      · rw [hrefused] at hnot
        cases hnot
  | false =>
      obtain ⟨hchunks, hsize⟩ := h.chunks hrefused
      unfold Connection.onData
      rw [if_neg (by rw [hrefused]; decide)]
      simp only
      split
      next hlarge =>
        refine ⟨h.incoming, h.ended, ?_, fun hnot => Bool.noConfusion hnot, fun _ => rfl,
          fun hnot => Bool.noConfusion hnot⟩
        simp only [List.length_append, true_iff, ← hsize]
        exact hlarge
      next hsmall =>
        refine ⟨h.incoming, h.ended, ?_, fun _ => ⟨?_, ?_⟩, fun htrue => ?_, h.waiting⟩
        · simp only [hrefused, List.length_append, ← hsize, false_iff, Bool.false_eq_true]
          exact hsmall
        · rw [List.flatten_concat, hchunks]
        · rw [List.length_append, hsize]
        · exact h.tooLarge htrue

end Connection.Carries

/-- Every connection carries the message that came on it. -/
def ApiServer.Matches (bodyLimit : Nat) (s : ApiServer) (i : Inbox) : Prop :=
  ∀ id, Option.Rel (Connection.Carries bodyLimit) (s.connections id) (i id)

namespace ApiServer

variable {s : ApiServer} {i : Inbox}

theorem Matches.start (g : Gateway) : (start g).Matches bodyLimit Inbox.empty := fun _ => .none

/-- Connections and messages that are both replaced. -/
theorem Matches.update (h : s.Matches bodyLimit i) {id : Nat} {c : Connection} {m : Message}
    (hcarries : c.Carries bodyLimit m) (g : Gateway) :
    (⟨g, Function.update s.connections id (some c)⟩ : ApiServer).Matches bodyLimit
      (Function.update i id (some m)) := by
  intro id'
  by_cases hid : id' = id
  · subst hid
    simp only [Function.update_self]
    exact .some hcarries
  · simp only [Function.update_of_ne hid]
    exact h id'

end ApiServer

/-- A message that is completed: its connection goes on carrying it, and what becomes of the
gateway and what is sent is what is owed to the message. -/
theorem Connection.Carries.onEnd {c : Connection} {m : Message} (h : c.Carries bodyLimit m)
    (platform : Platform) (g : Gateway) (id : Nat) (moment : Moment) :
    (c.onEnd platform g moment).2.Carries bodyLimit { m with ended := true } ∧
      (c.onEnd platform g moment).1 =
        (⟨id, m.incoming, m.body, moment⟩ : Completed).serve platform bodyLimit g ∧
      (c.onEnd platform g moment).2.sent =
        (⟨id, m.incoming, m.body, moment⟩ : Completed).answer platform bodyLimit g := by
  cases hrefused : c.refused with
  | true =>
      have hlarge := h.refused.mp hrefused
      have hend : c.onEnd platform g moment = (g, { c with ended := true }) := if_pos hrefused
      rw [hend, Completed.serve, Completed.asks, Completed.answer, if_pos hlarge, if_pos hlarge]
      refine ⟨⟨h.incoming, rfl, h.refused, h.chunks, h.tooLarge, fun _ hopen => ?_⟩, rfl,
        h.tooLarge hrefused⟩
      cases hopen
  | false =>
      have hsmall : ¬ bodyLimit < m.body.length := by
        rw [← h.refused, hrefused]
        exact Bool.false_ne_true
      obtain ⟨hchunks, hsize⟩ := h.chunks hrefused
      have hcarries : ∀ sent, Connection.Carries bodyLimit
          ⟨m.incoming, c.chunks, c.size, false, true, sent⟩ { m with ended := true } := by
        intro sent
        refine ⟨rfl, rfl, ?_, fun _ => ⟨hchunks, hsize⟩, fun htrue => ?_, fun _ hopen => ?_⟩
        · simp only [hsmall, Bool.false_eq_true]
        · cases htrue
        · cases hopen
      unfold Connection.onEnd Completed.serve Completed.asks Completed.answer
      simp only [hrefused, Bool.false_eq_true, if_false, if_neg hsmall, hchunks, h.incoming]
      cases platform.readBody m.body with
      | none => exact ⟨hcarries _, rfl, rfl⟩
      | some body =>
          simp only [Option.bind_some]
          cases platform.request m.incoming body with
          | none => exact ⟨hcarries _, rfl, rfl⟩
          | some request =>
              exact ⟨hcarries _, rfl, Connection.sentFor_eq (g.serializable_handleGateway _ _ _ _)⟩

namespace ApiServer

variable {s : ApiServer} {i : Inbox}

theorem Matches.found (h : s.Matches bodyLimit i) (id : Nat) :
    s.connections id = none ∧ i id = none ∨
      ∃ c m, s.connections id = some c ∧ i id = some m ∧ c.Carries bodyLimit m := by
  have hrel := h id
  generalize s.connections id = found at hrel
  generalize i id = message at hrel
  cases hrel with
  | none => exact Or.inl ⟨rfl, rfl⟩
  | some hcarries => exact Or.inr ⟨_, _, rfl, rfl, hcarries⟩

/-- One event: the gateway serves the message it completes, if it completes one, and that
message is answered. -/
theorem Matches.step (h : s.Matches bodyLimit i) (platform : Platform) (event : ServerEvent) :
    (s.step platform bodyLimit event).Matches bodyLimit (i.step event) ∧
      (s.step platform bodyLimit event).gateway =
        LabelledRun.run (Completed.serve platform bodyLimit) s.gateway (i.completes event) ∧
      ∀ m ∈ i.completes event, (s.step platform bodyLimit event).sent m.id =
        m.answer platform bodyLimit s.gateway := by
  cases event with
  | connects id incoming =>
      rcases h.found id with ⟨hc, hm⟩ | ⟨c, m, hc, hm, _⟩
      · simp only [ApiServer.step, Inbox.step, Inbox.completes, hc, hm]
        exact ⟨h.update (.new bodyLimit incoming) s.gateway, rfl, List.forall_mem_nil _⟩
      · simp only [ApiServer.step, Inbox.step, Inbox.completes, hc, hm]
        exact ⟨h, rfl, List.forall_mem_nil _⟩
  | data id chunk =>
      rcases h.found id with ⟨hc, hm⟩ | ⟨c, m, hc, hm, hcarries⟩
      · simp only [ApiServer.step, Inbox.step, Inbox.completes, hc, hm]
        exact ⟨h, rfl, List.forall_mem_nil _⟩
      · simp only [ApiServer.step, Inbox.step, Inbox.completes, hc, hm, hcarries.ended]
        by_cases hended : m.ended = true
        · simp only [if_pos hended]
          exact ⟨h, rfl, List.forall_mem_nil _⟩
        · simp only [if_neg hended]
          exact ⟨h.update (hcarries.onData chunk) s.gateway, rfl, List.forall_mem_nil _⟩
  | ends id moment =>
      rcases h.found id with ⟨hc, hm⟩ | ⟨c, m, hc, hm, hcarries⟩
      · simp only [ApiServer.step, Inbox.step, Inbox.completes, hc, hm]
        exact ⟨h, rfl, List.forall_mem_nil _⟩
      · simp only [ApiServer.step, Inbox.step, Inbox.completes, hc, hm, hcarries.ended]
        by_cases hended : m.ended = true
        · simp only [if_pos hended]
          exact ⟨h, rfl, List.forall_mem_nil _⟩
        · obtain ⟨hcarries', hgateway, hsent⟩ := hcarries.onEnd platform s.gateway id moment
          simp only [if_neg hended]
          refine ⟨h.update hcarries' _, hgateway, fun message hmessage => ?_⟩
          rw [List.mem_singleton.mp hmessage]
          simp only [sent, Function.update_self, Option.bind_some]
          exact hsent

/-- An event touches no other connection than its own. -/
theorem step_of_ne {event : ServerEvent} {id : Nat} (hne : id ≠ event.id) :
    (s.step platform bodyLimit event).connections id = s.connections id := by
  cases event with
  | connects id' incoming =>
      simp only [step]
      split
      · exact Function.update_of_ne hne _ _
      · rfl
  | data id' chunk =>
      simp only [step]
      split
      · rfl
      · split
        · rfl
        · exact Function.update_of_ne hne _ _
  | ends id' moment =>
      simp only [step]
      split
      · rfl
      · split
        · rfl
        · exact Function.update_of_ne hne _ _

/-- Nothing happens on one that has ended. -/
theorem step_of_ended {event : ServerEvent} {c : Connection}
    (hc : s.connections event.id = some c) (hended : c.ended = true) :
    s.step platform bodyLimit event = s := by
  cases event with
  | connects id incoming =>
      change s.connections id = some c at hc
      simp only [step, hc]
  | data id chunk =>
      change s.connections id = some c at hc
      simp only [step, hc, if_pos hended]
  | ends id moment =>
      change s.connections id = some c at hc
      simp only [step, hc, if_pos hended]

end ApiServer

namespace Inbox

variable {i : Inbox} {event : ServerEvent}

theorem step_of_ne {id : Nat} (hne : id ≠ event.id) : i.step event id = i id := by
  cases event with
  | connects id' incoming =>
      simp only [step]
      cases i id' with
      | none => exact Function.update_of_ne hne _ _
      | some m => rfl
  | data id' chunk =>
      simp only [step]
      cases i id' with
      | none => rfl
      | some m =>
          by_cases hended : m.ended = true
          · simp only [if_pos hended]
          · simp only [if_neg hended]
            exact Function.update_of_ne hne _ _
  | ends id' moment =>
      simp only [step]
      cases i id' with
      | none => rfl
      | some m =>
          by_cases hended : m.ended = true
          · simp only [if_pos hended]
          · simp only [if_neg hended]
            exact Function.update_of_ne hne _ _

theorem step_of_ended {m : Message} (hm : i event.id = some m) (hended : m.ended = true) :
    i.step event = i ∧ i.completes event = [] := by
  cases event with
  | connects id incoming =>
      change i id = some m at hm
      refine ⟨?_, rfl⟩
      simp only [step, hm]
  | data id chunk =>
      change i id = some m at hm
      refine ⟨?_, rfl⟩
      simp only [step, hm, if_pos hended]
  | ends id moment =>
      change i id = some m at hm
      refine ⟨?_, ?_⟩
      · simp only [step, hm, if_pos hended]
      · simp only [completes, hm, if_pos hended]

theorem completes_le (i : Inbox) (event : ServerEvent) :
    i.completes event = [] ∨ ∃ message, i.completes event = [message] := by
  unfold completes
  split
  · split
    · exact Or.inl rfl
    · split
      · exact Or.inl rfl
      · exact Or.inr ⟨_, rfl⟩
  · exact Or.inl rfl

/-- The message an event completes is the one on its connection, which has ended then. -/
theorem completes_ended {message : Completed} (h : message ∈ i.completes event) :
    message.id = event.id ∧ ∃ m, i.step event message.id = some m ∧ m.ended = true ∧
      m.incoming = message.incoming ∧ m.body = message.body := by
  cases event with
  | connects id incoming => cases h
  | data id chunk => cases h
  | ends id moment =>
      simp only [completes] at h
      split at h
      · cases h
      · rename_i m hm
        by_cases hended : m.ended = true
        · rw [if_pos hended] at h
          cases h
        · rw [if_neg hended, List.mem_singleton] at h
          subst h
          refine ⟨rfl, { m with ended := true }, ?_, rfl, rfl, rfl⟩
          simp only [step, hm, if_neg hended, Function.update_self]

/-- A message ends by being completed. -/
theorem ended_step {id : Nat} {m : Message} (hm : i.step event id = some m)
    (hended : m.ended = true) :
    i id = some m ∨ ∃ message ∈ i.completes event, message.id = id := by
  by_cases hid : id = event.id
  · subst hid
    cases hfound : i event.id with
    | none =>
        -- Only a new message begins, and it has not ended.
        cases event with
        | connects id incoming =>
            change i id = none at hfound
            simp only [step, hfound, ServerEvent.id, Function.update_self, Option.some.injEq] at hm
            rw [← hm] at hended
            cases hended
        | data id chunk =>
            change i id = none at hfound
            simp only [step, hfound, ServerEvent.id] at hm
            cases hm
        | ends id moment =>
            change i id = none at hfound
            simp only [step, hfound, ServerEvent.id] at hm
            cases hm
    | some m' =>
        by_cases hended' : m'.ended = true
        · rw [(step_of_ended hfound hended').1, hfound] at hm
          exact Or.inl hm
        · cases event with
          | connects id incoming =>
              change i id = some m' at hfound
              simp only [step, hfound, ServerEvent.id] at hm
              exact Or.inl hm
          | data id chunk =>
              change i id = some m' at hfound
              simp only [step, hfound, ServerEvent.id, if_neg hended', Function.update_self,
                Option.some.injEq] at hm
              rw [← hm] at hended
              exact absurd hended hended'
          | ends id moment =>
              change i id = some m' at hfound
              refine Or.inr ⟨⟨id, m'.incoming, m'.body, moment⟩, ?_, rfl⟩
              simp only [completes, hfound, if_neg hended']
              exact List.mem_singleton_self _
  · rw [step_of_ne hid] at hm
    exact Or.inl hm

/-- Every message that has ended was completed. -/
theorem ended_completed (events : List ServerEvent) :
    ∀ id m, LabelledRun.run step empty events id = some m → m.ended = true →
      ∃ message ∈ empty.completed events, message.id = id := by
  have hstart : ∀ id m, empty id = some m → m.ended = true →
      ∃ message ∈ ([] : List Completed), message.id = id := by
    intro id m hm
    cases hm
  refine EventSourcing.log_invariant step completes (fun _ => True)
    (fun past i => ∀ id m, i id = some m → m.ended = true → ∃ message ∈ past, message.id = id)
    (fun _ _ _ => trivial) (fun past i event _ hpast id m hm hended => ?_) trivial hstart events
  rcases ended_step hm hended with hbefore | ⟨message, hmessage, hid⟩
  · obtain ⟨message, hmessage, hid⟩ := hpast id m hbefore hended
    exact ⟨message, List.mem_append_left _ hmessage, hid⟩
  · exact ⟨message, List.mem_append_right _ hmessage, hid⟩

end Inbox

namespace ApiServer

variable {s : ApiServer} {i : Inbox}

/-- A message that was completed stays so, and so does what was sent for it. -/
theorem Matches.settled (h : s.Matches bodyLimit i) {id : Nat} {m : Message} (hm : i id = some m)
    (hended : m.ended = true) (platform : Platform) (event : ServerEvent) :
    i.step event id = some m ∧ (s.step platform bodyLimit event).sent id = s.sent id ∧
      ∀ message ∈ i.completes event, message.id ≠ id := by
  by_cases hid : id = event.id
  · subst hid
    rcases h.found event.id with ⟨_, hnone⟩ | ⟨c, m', hc, hm', hcarries⟩
    · rw [hnone] at hm
      cases hm
    · obtain ⟨hstep, hcompletes⟩ := Inbox.step_of_ended hm hended
      rw [hm'] at hm
      cases hm
      rw [hstep, hcompletes, step_of_ended hc (hcarries.ended.trans hended)]
      exact ⟨hm', rfl, List.forall_mem_nil _⟩
  · refine ⟨(Inbox.step_of_ne hid).trans hm, ?_, fun message hmessage heq => ?_⟩
    · rw [sent, step_of_ne hid, sent]
    · exact hid (heq ▸ (Inbox.completes_ended hmessage).1)

/-! ### Every run -/

/-- What a run of the server comes to, from connections that carry the messages of an inbox. -/
structure Sequential (platform : Platform) (bodyLimit : Nat) (s s' : ApiServer) (i : Inbox)
    (messages : List Completed) : Prop where
  gateway : s'.gateway =
    LabelledRun.run (Completed.serve platform bodyLimit) s.gateway messages
  answered : ∀ answer ∈ Completed.answers platform bodyLimit s.gateway messages,
    s'.sent answer.1 = answer.2
  settled : ∀ id m, i id = some m → m.ended = true →
    s'.sent id = s.sent id ∧ ∀ message ∈ messages, message.id ≠ id
  once : (messages.map Completed.id).Nodup

theorem Matches.run (h : s.Matches bodyLimit i) (events : List ServerEvent) :
    (LabelledRun.run (ApiServer.step platform bodyLimit) s events).Matches bodyLimit
      (LabelledRun.run Inbox.step i events) := by
  induction events generalizing s i with
  | nil => exact h
  | cons event rest ih => exact ih (h.step platform event).1

theorem Matches.sequential (h : s.Matches bodyLimit i) (events : List ServerEvent) :
    Sequential platform bodyLimit s (LabelledRun.run (ApiServer.step platform bodyLimit) s events) i
      (i.completed events) := by
  induction events generalizing s i with
  | nil => exact ⟨rfl, List.forall_mem_nil _, fun _ _ _ _ => ⟨rfl, List.forall_mem_nil _⟩, .nil⟩
  | cons event rest ih =>
      obtain ⟨hmatches, hgateway, hanswer⟩ := h.step platform event
      have hrest := ih hmatches
      have hcompleted : i.completed (event :: rest) =
          i.completes event ++ (i.step event).completed rest := rfl
      have hsettled : ∀ id m, i id = some m → m.ended = true →
          (LabelledRun.run (ApiServer.step platform bodyLimit) s (event :: rest)).sent id =
              s.sent id ∧
            ∀ message ∈ i.completes event ++ (i.step event).completed rest, message.id ≠ id := by
        intro id m hm hended
        obtain ⟨hstill, hsent, hnot⟩ := h.settled hm hended platform event
        obtain ⟨hsent', hnot'⟩ := hrest.settled id m hstill hended
        refine ⟨hsent'.trans hsent, fun message hmessage => ?_⟩
        rcases List.mem_append.mp hmessage with hmessage | hmessage
        · exact hnot message hmessage
        · exact hnot' message hmessage
      rw [hcompleted]
      rcases Inbox.completes_le i event with hnil | ⟨message, hone⟩
      · rw [hnil, List.nil_append] at hsettled ⊢
        rw [hnil, LabelledRun.run_nil] at hgateway
        have hlater := hrest.gateway
        have hanswers := hrest.answered
        rw [hgateway] at hlater hanswers
        exact ⟨hlater, hanswers, hsettled, hrest.once⟩
      · -- The message is answered now, and nothing is sent on its connection afterwards.
        have hmem : message ∈ i.completes event := by
          rw [hone]
          exact List.mem_singleton_self _
        obtain ⟨_, m, hm, hended, _⟩ := Inbox.completes_ended hmem
        obtain ⟨hkept, hnot⟩ := hrest.settled message.id m hm hended
        have hnow := hanswer message hmem
        rw [hone, List.singleton_append] at hsettled ⊢
        rw [hone, LabelledRun.run_cons, LabelledRun.run_nil] at hgateway
        have hlater := hrest.answered
        rw [hgateway] at hlater
        refine ⟨?_, ?_, hsettled, ?_⟩
        · rw [LabelledRun.run_cons, hrest.gateway, hgateway, LabelledRun.run_cons]
        · intro answer hanswers
          rcases List.mem_cons.mp hanswers with rfl | hanswers
          · exact hkept.trans hnow
          · exact hlater answer hanswers
        · rw [List.map_cons, List.nodup_cons]
          refine ⟨fun hagain => ?_, hrest.once⟩
          obtain ⟨other, hother, hsame⟩ := List.mem_map.mp hagain
          exact hnot other hother hsame

/-- However the chunks of many requests interleave, the gateway becomes what it becomes on the
messages alone, in the order they were completed; those that are too large, or no JSON, or
for no URL ask nothing of it. Each message is completed once, and answered as the gateway answers
it in that order; nothing is sent on any other connection, unless its body is too large already. -/
theorem run_sequential (platform : Platform) (bodyLimit : Nat) (g : Gateway)
    (events : List ServerEvent) :
    let s := LabelledRun.run (ApiServer.step platform bodyLimit) (ApiServer.start g) events
    let inbox := LabelledRun.run Inbox.step Inbox.empty events
    let messages := Inbox.empty.completed events
    s.gateway = LabelledRun.run Gateway.step g
        (messages.filterMap (Completed.asks platform bodyLimit)) ∧
      (messages.map Completed.id).Nodup ∧
      (∀ answer ∈ Completed.answers platform bodyLimit g messages,
        s.sent answer.1 = answer.2) ∧
      ∀ id, (∀ message ∈ messages, message.id ≠ id) →
        s.sent id = if ∃ m, inbox id = some m ∧ bodyLimit < m.body.length then some bodyTooLarge
          else none := by
  intro s inbox messages
  have h : s.Matches bodyLimit inbox := (Matches.start g).run events
  have hsequential : Sequential platform bodyLimit (ApiServer.start g) s Inbox.empty messages :=
    (Matches.start g).sequential events
  refine ⟨?_, hsequential.once, hsequential.answered, fun id hnot => ?_⟩
  · exact hsequential.gateway.trans (Completed.serve_eq_run platform bodyLimit g messages)
  rcases h.found id with ⟨hc, hm⟩ | ⟨c, m, hc, hm, hcarries⟩
  · rw [sent, hc, if_neg]
    · rfl
    · rintro ⟨m, hsome, _⟩
      rw [hm] at hsome
      cases hsome
  · rw [sent, hc, Option.bind_some]
    cases hrefused : c.refused with
    | true => rw [hcarries.tooLarge hrefused, if_pos ⟨m, hm, hcarries.refused.mp hrefused⟩]
    | false =>
        have hopen : c.ended = false := by
          rw [hcarries.ended, ← Bool.not_eq_true]
          intro hended
          obtain ⟨message, hmessage, hid⟩ := Inbox.ended_completed events id m hm hended
          exact hnot message hmessage hid
        rw [hcarries.waiting hrefused hopen, if_neg]
        rintro ⟨m', hm', hlarge⟩
        rw [hm] at hm'
        cases hm'
        rw [← hcarries.refused, hrefused] at hlarge
        cases hlarge

end ApiServer

/-! ## What writes to a store -/

section Writing

/-- An admission request whose body has the shape of one. -/
structure ApiRequest.IsAdmission (request : ApiRequest) : Prop where
  method : request.method = "POST"
  path : ∃ tokenRaw, segments request.path = ["projection", tokenRaw, "admission"] ∧
    (parseUint256 tokenRaw).isSome = true
  body : (parseAdmission request.body).isSome = true

theorem admissionRoute_writes {σ : Type} (o : StoreConfig σ) (store : ProjectionStore σ)
    (tokenRaw : String) (body : JsValue) (now verifierNow : Int) (append : Option Thrown) :
    (admissionRoute o store tokenRaw body now verifierNow append).1 = store ∨
      (parseAdmission body).isSome = true := by
  unfold admissionRoute
  cases parseUint256 tokenRaw with
  | none => exact Or.inl rfl
  | some tokenId =>
      cases parseAdmission body with
      | none => exact Or.inl rfl
      | some parsed => exact Or.inr rfl

/-- Only an admission writes to a store, whatever it comes to. -/
theorem handle_writes {σ : Type} (o : StoreConfig σ) (store : ProjectionStore σ)
    (request : ApiRequest) (now verifierNow : Int) (append : Option Thrown) :
    (handle o store request now verifierNow append).1 = store ∨ request.IsAdmission := by
  have hroute : (route o store request now verifierNow append).1 = store ∨
      request.IsAdmission := by
    unfold route
    split
    · rename_i tokenRaw tail hsegments
      split
      · exact Or.inl rfl
      · rename_i tokenId htoken
        split
        · exact Or.inl rfl
        · split
          · rename_i hpost
            obtain ⟨hmethod, rfl⟩ := hpost
            refine (admissionRoute_writes o store tokenRaw request.body now verifierNow
              append).imp_right fun hbody => ?_
            exact ⟨hmethod, ⟨tokenRaw, hsegments, by rw [htoken]; rfl⟩, hbody⟩
          · exact Or.inl rfl
    · exact Or.inl rfl
  unfold handle
  split
  · rename_i heq
    rw [heq] at hroute
    exact hroute
  · exact hroute

/-- A message that may write to a tenant's store: an admission that is small enough, with a JSON
body of its shape, in the name of a single credential that a live key of the tenant has. -/
structure Completed.Writes (platform : Platform) (bodyLimit : Nat) (keys : ApiKeyStore)
    (tenantId : String) (m : Completed) : Prop where
  small : m.body.length ≤ bodyLimit
  method : m.incoming.method = some "POST"
  path : ∃ target tokenRaw, platform.url (m.incoming.url.getD "/") = some target ∧
    segments target.1 = ["projection", tokenRaw, "admission"] ∧
    (parseUint256 tokenRaw).isSome = true
  body : ∃ body, platform.readBody m.body = some body ∧ (parseAdmission body).isSome = true
  credential : ∃ secret key, bearer m.incoming.authorization = some secret ∧
    keys.authenticate secret = some key ∧ key.tenantId = tenantId

theorem Gateway.relay_writes {tenants : TenantRegistry} {keys : ApiKeyStore}
    {request : GatewayRequest} {now verifierNow : Int} {append : Option Thrown} {tenantId : String}
    (hchanged : (Gateway.relay tenants keys request now verifierNow append).1.stores.get tenantId ≠
      tenants.stores.get tenantId) :
    request.toApiRequest.IsAdmission ∧
      ∃ key, Gateway.caller keys request = some key ∧ key.tenantId = tenantId := by
  cases hcaller : Gateway.caller keys request with
  | none =>
      rw [Gateway.relay_stranger hcaller] at hchanged
      exact absurd rfl hchanged
  | some key =>
      have htenant : key.tenantId = tenantId := by
        by_contra hne
        exact hchanged (Gateway.relay_other hcaller hne)
      subst htenant
      refine ⟨?_, key, rfl, rfl⟩
      unfold Gateway.relay at hchanged
      rw [hcaller] at hchanged
      simp only at hchanged
      split at hchanged
      · exact absurd rfl hchanged
      · rename_i tenant hstore
        rcases handle_writes tenant.config tenant.store request.toApiRequest now verifierNow append
          with hsame | hwrites
        · apply absurd ?_ hchanged
          rw [hsame]
          simp only [TenantRegistry.writeStore, InsertionMap.get_set_self]
          unfold TenantRegistry.storeFor at hstore
          split at hstore
          · cases hstore
          · rename_i found hfound
            cases hstore
            rw [hfound]
        · exact hwrites

namespace Completed

variable {platform : Platform} {bodyLimit : Nat} {g : Gateway} {m : Completed}

@[simp] theorem serve_keys : (m.serve platform bodyLimit g).keys = g.keys := by
  unfold serve asks
  split
  · rfl
  · rename_i event hasks
    split at hasks
    · cases hasks
    · obtain ⟨request, _, rfl⟩ := Option.map_eq_some_iff.mp hasks
      exact Gateway.handleGateway_keys g

/-- A message that changes a tenant's store is one that may write to it. -/
theorem serve_writes {tenantId : String}
    (hchanged : (m.serve platform bodyLimit g).tenants.stores.get tenantId ≠
      g.tenants.stores.get tenantId) : m.Writes platform bodyLimit g.keys tenantId := by
  unfold serve asks at hchanged
  split at hchanged
  · exact absurd rfl hchanged
  · rename_i event hasks
    split at hasks
    · cases hasks
    · rename_i hsmall
      obtain ⟨request, hrequest, rfl⟩ := Option.map_eq_some_iff.mp hasks
      obtain ⟨body, hread, hrequest⟩ := Option.bind_eq_some_iff.mp hrequest
      obtain ⟨target, htarget, rfl⟩ := Option.map_eq_some_iff.mp hrequest
      rw [Gateway.step, Gateway.handleGateway_tenants] at hchanged
      obtain ⟨⟨hmethod, ⟨tokenRaw, hsegments, htoken⟩, hbody⟩, key, hcaller, htenant⟩ :=
        Gateway.relay_writes hchanged
      obtain ⟨secret, hsecret, hkey⟩ := Option.bind_eq_some_iff.mp hcaller
      refine ⟨Nat.le_of_not_lt hsmall, ?_, ⟨target, tokenRaw, htarget, hsegments, htoken⟩,
        ⟨body, hread, hbody⟩, ⟨secret, key, hsecret, hkey, htenant⟩⟩
      -- A request without a method is a `GET`.
      change m.incoming.method.getD "GET" = "POST" at hmethod
      cases hmethod' : m.incoming.method with
      | none =>
          rw [hmethod'] at hmethod
          exact absurd hmethod (by decide)
      | some method =>
          rw [hmethod'] at hmethod
          exact congrArg some hmethod

theorem run_writes (g : Gateway) (messages : List Completed) (tenantId : String) :
    (LabelledRun.run (serve platform bodyLimit) g messages).tenants.stores.get tenantId =
        g.tenants.stores.get tenantId ∨
      ∃ m ∈ messages, m.Writes platform bodyLimit g.keys tenantId := by
  induction messages generalizing g with
  | nil => exact Or.inl rfl
  | cons m rest ih =>
      by_cases hsame : (m.serve platform bodyLimit g).tenants.stores.get tenantId =
          g.tenants.stores.get tenantId
      · rcases ih (m.serve platform bodyLimit g) with hrest | ⟨m', hm', hwrites⟩
        · exact Or.inl (hrest.trans hsame)
        · rw [serve_keys] at hwrites
          exact Or.inr ⟨m', List.mem_cons_of_mem _ hm', hwrites⟩
      · exact Or.inr ⟨m, List.mem_cons_self, serve_writes hsame⟩

end Completed

/-- Whatever the clients send, in whatever pieces, and however it interleaves: a tenant's store is
as it was at the start, unless some message arrived whole that was a small enough admission in
the name of a live key of that tenant. -/
theorem ApiServer.run_untouched (platform : Platform) (bodyLimit : Nat) (g : Gateway)
    (events : List ServerEvent) (tenantId : String) :
    let s := LabelledRun.run (ApiServer.step platform bodyLimit) (ApiServer.start g) events
    s.gateway.tenants.stores.get tenantId = g.tenants.stores.get tenantId ∨
      ∃ m ∈ Inbox.empty.completed events, m.Writes platform bodyLimit g.keys tenantId := by
  intro s
  have hsequential : ApiServer.Sequential platform bodyLimit (ApiServer.start g) s Inbox.empty
      (Inbox.empty.completed events) := (ApiServer.Matches.start g).sequential events
  rw [hsequential.gateway]
  exact Completed.run_writes g _ tenantId

end Writing

end Erc8415
