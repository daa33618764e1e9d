import Erc8415.Adapters.MemoryChain
import Erc8415.Api.Gateway
import Erc8415.Foundation.Noninterference
import Erc8415.Projection.Atomicity

/-! # Tenants are isolated

A gateway lives through keys being issued and revoked, tenants being added and
requests. Only the secret of a live key is served, a revoked key stays revoked,
and what a tenant sees of a run is what it sees of the run without the requests
and the stores of every other tenant.
-/

namespace Erc8415

/-- What happens to a gateway. A request comes with what the clocks read and what the journal
does with an append it makes. -/
inductive GatewayEvent : Type 1 where
  | issue (call : KeyIssue)
  | revoke (keyId : String) (now : Int)
  | add (tenantId : String) (tenant : Tenant)
  | request (request : GatewayRequest) (now verifierNow : Int) (append : Option Thrown)

namespace Gateway

open ApiKeyStore (KeyCall issues secrets)

/-- A gateway with no key and no tenant. -/
def new : Gateway := ⟨.new, .new, .new⟩

def step (g : Gateway) : GatewayEvent → Gateway
  | .issue call => { g with keys := (g.keys.issue call).1 }
  | .revoke keyId now => { g with keys := (g.keys.revoke keyId now).1 }
  | .add tenantId tenant => { g with tenants := g.tenants.add tenantId tenant }
  | .request request now verifierNow append =>
      (g.handleGateway request now verifierNow append).1

/-- What a request comes to; the other events come to nothing. -/
def reply (g : Gateway) : GatewayEvent → Option Handled
  | .request request now verifierNow append =>
      some (g.handleGateway request now verifierNow append).2
  | _ => none

/-- The gateway a run leaves. -/
def reached (events : List GatewayEvent) : Gateway := LabelledRun.run step new events

/-- The call an event makes on the key store, if it makes one. -/
def keyCall : GatewayEvent → Option KeyCall
  | .issue call => some (.issue call)
  | .revoke keyId now => some (.revoke keyId now)
  | _ => none

/-- The calls a run makes on the key store. -/
def keyCalls (events : List GatewayEvent) : List KeyCall := events.filterMap keyCall

/-! ## One request -/

section Request

variable {tenants tenants' : TenantRegistry} {keys : ApiKeyStore} {request : GatewayRequest}
  {now verifierNow : Int} {append : Option Thrown} {key : ApiKeyRecord}

theorem relay_stranger (h : caller keys request = none) :
    relay tenants keys request now verifierNow append = (tenants, respond unauthenticated) := by
  rw [relay, h]

/-- A request writes to no store but its tenant's. -/
theorem relay_other (h : caller keys request = some key) {tenantId : String}
    (hne : key.tenantId ≠ tenantId) :
    (relay tenants keys request now verifierNow append).1.stores.get tenantId =
      tenants.stores.get tenantId := by
  unfold relay
  rw [h]
  simp only
  split
  · rfl
  · exact InsertionMap.get_set_of_ne hne

variable (now verifierNow append) in
/-- A request sees of the registry what its tenant's store is. -/
theorem relay_congr (h : caller keys request = some key)
    (hstore : tenants.stores.get key.tenantId = tenants'.stores.get key.tenantId) :
    (relay tenants keys request now verifierNow append).2 =
        (relay tenants' keys request now verifierNow append).2 ∧
      (relay tenants keys request now verifierNow append).1.stores.get key.tenantId =
        (relay tenants' keys request now verifierNow append).1.stores.get key.tenantId := by
  unfold relay
  rw [h]
  simp only
  rw [TenantRegistry.storeFor_congr hstore]
  split
  · exact ⟨rfl, hstore⟩
  · refine ⟨rfl, ?_⟩
    simp only [TenantRegistry.writeStore, InsertionMap.get_set_self]

variable (g : Gateway)

@[simp] theorem handleGateway_keys :
    (g.handleGateway request now verifierNow append).1.keys = g.keys := by
  obtain ⟨metrics, heq⟩ := handleGateway_relay g request now verifierNow append
  rw [heq]

theorem handleGateway_tenants :
    (g.handleGateway request now verifierNow append).1.tenants =
      (relay g.tenants g.keys request now verifierNow append).1 := by
  obtain ⟨metrics, heq⟩ := handleGateway_relay g request now verifierNow append
  rw [heq]

theorem handleGateway_outcome :
    (g.handleGateway request now verifierNow append).2 =
      (relay g.tenants g.keys request now verifierNow append).2 := by
  obtain ⟨metrics, heq⟩ := handleGateway_relay g request now verifierNow append
  rw [heq]

end Request

/-! ## The keys of a run -/

/-- The key store sees only its own calls of a run. -/
theorem run_keys (g : Gateway) (events : List GatewayEvent) :
    (LabelledRun.run step g events).keys =
      LabelledRun.run ApiKeyStore.step g.keys (keyCalls events) := by
  induction events generalizing g with
  | nil => rfl
  | cons event rest ih =>
      rw [LabelledRun.run_cons, ih]
      cases event with
      | issue call => rfl
      | revoke keyId now => rfl
      | add tenantId tenant => rfl
      | request request now verifierNow append =>
          simp only [step, handleGateway_keys]
          rfl

theorem keyCalls_eq_issue {events : List GatewayEvent} {before after : List KeyCall}
    {call : KeyIssue} (h : keyCalls events = before ++ .issue call :: after) :
    ∃ first rest, events = first ++ .issue call :: rest ∧ keyCalls rest = after := by
  obtain ⟨first, rest, rfl, _, hrest⟩ := List.filterMap_eq_append_iff.mp h
  obtain ⟨skipped, event, rest, rfl, _, hevent, hafter⟩ := List.filterMap_eq_cons_iff.mp hrest
  refine ⟨first ++ skipped, rest, ?_, hafter⟩
  cases event with
  | issue call' =>
      cases hevent
      rw [List.append_assoc]
  | revoke keyId now => cases hevent
  | add tenantId tenant => cases hevent
  | request request now verifierNow append => cases hevent

/-! ## What a tenant sees -/

/-- The events of concern to a tenant: those of the keys, those that give it a store, and the
requests with a key of its own. -/
def concerns (tenantId : String) (g : Gateway) : GatewayEvent → Bool
  | .issue _ => true
  | .revoke _ _ => true
  | .add addedId _ => addedId = tenantId
  | .request request _ _ _ => (caller g.keys request).any fun key => key.tenantId = tenantId

/-- Gateways that agree on the keys and on a tenant's store. -/
def Alike (tenantId : String) (g g' : Gateway) : Prop :=
  g.keys = g'.keys ∧ g.tenants.stores.get tenantId = g'.tenants.stores.get tenantId

theorem step_unconcerned {tenantId : String} {g : Gateway} {event : GatewayEvent}
    (h : concerns tenantId g event = false) : Alike tenantId g (step g event) := by
  cases event with
  | issue call => cases h
  | revoke keyId now => cases h
  | add addedId tenant =>
      have hne : addedId ≠ tenantId := of_decide_eq_false h
      exact ⟨rfl, (InsertionMap.get_set_of_ne hne).symm⟩
  | request request now verifierNow append =>
      refine ⟨(handleGateway_keys g).symm, ?_⟩
      rw [step, handleGateway_tenants]
      cases hcaller : caller g.keys request with
      | none => rw [relay_stranger hcaller]
      | some key =>
          rw [concerns, hcaller] at h
          have hne : key.tenantId ≠ tenantId := of_decide_eq_false h
          exact (relay_other hcaller hne).symm

theorem step_concerned {tenantId : String} {g g' : Gateway} {event : GatewayEvent}
    (halike : Alike tenantId g g') (h : concerns tenantId g event = true) :
    Alike tenantId (step g event) (step g' event) ∧ reply g event = reply g' event := by
  obtain ⟨hkeys, hstore⟩ := halike
  cases event with
  | issue call => exact ⟨⟨by rw [step, step, hkeys], hstore⟩, rfl⟩
  | revoke keyId now => exact ⟨⟨by rw [step, step, hkeys], hstore⟩, rfl⟩
  | add addedId tenant =>
      have heq : addedId = tenantId := of_decide_eq_true h
      subst heq
      refine ⟨⟨hkeys, ?_⟩, rfl⟩
      simp only [step, TenantRegistry.add, InsertionMap.get_set_self]
  | request request now verifierNow append =>
      rw [concerns] at h
      obtain ⟨key, hcaller, hkey⟩ := Option.any_eq_true _ _ |>.mp h
      have heq : key.tenantId = tenantId := of_decide_eq_true hkey
      subst heq
      obtain ⟨houtcome, htenant⟩ := relay_congr now verifierNow append hcaller hstore
      refine ⟨⟨?_, ?_⟩, ?_⟩
      · rw [step, step, handleGateway_keys, handleGateway_keys, hkeys]
      · rw [step, step, handleGateway_tenants, handleGateway_tenants, htenant, hkeys]
      · rw [reply, reply, handleGateway_outcome, handleGateway_outcome, houtcome, hkeys]

/-- A gateway unwinds for each tenant. -/
theorem unwinds (tenantId : String) :
    Noninterference.Unwinds step reply (concerns tenantId) (Alike tenantId) where
  refl _ := ⟨rfl, rfl⟩
  trans _ _ _ h h' := ⟨h.1.trans h'.1, h.2.trans h'.2⟩
  symm _ _ h := ⟨h.1.symm, h.2.symm⟩
  concerns_eq g g' event h := by
    cases event with
    | issue call => rfl
    | revoke keyId now => rfl
    | add addedId tenant => rfl
    | request request now verifierNow append => rw [concerns, concerns, h.1]
  unconcerned _ _ h := step_unconcerned h
  consistent _ _ _ halike h := (step_concerned halike h).1
  outputs_eq _ _ _ halike h := (step_concerned halike h).2

/-! ## Isolation -/

/-- A request comes to something else than a 401 or a 403. -/
def Served (outcome : Handled) : Prop :=
  ∀ response, outcome = respond response → response.status ≠ 401 ∧ response.status ≠ 403

/-- What holds of the gateway a run leaves, and of every gateway. -/
structure Isolated (events : List GatewayEvent) : Prop where
  /-- What is served carries the secret of a key that was issued and has not been revoked, and
  is a request of that key's tenant. -/
  served : ∀ (request : GatewayRequest) (now verifierNow : Int) (append : Option Thrown),
    CollisionFree ((request.apiKey.toList ++ secrets (keyCalls events)).map utf8) →
    Served ((reached events).handleGateway request now verifierNow append).2 →
    ∃ before call after, events = before ++ .issue call :: after ∧
      request.apiKey = some call.secret ∧ (∀ revokedAt, .revoke call.keyId revokedAt ∉ after) ∧
      caller (reached events).keys request = some call.record
  /-- A key that has been revoked never authenticates again. -/
  revoked : ∀ (before between after : List GatewayEvent) (call : KeyIssue) (revokedAt : Int),
    events = before ++ .issue call :: between ++ .revoke call.keyId revokedAt :: after →
    (reached events).keys.authenticate call.secret = none ∧
      ∀ secret record, (reached events).keys.authenticate secret = some record →
        record.keyId ≠ call.keyId
  /-- Two gateways that agree on the keys and on a tenant's store do the same with a request
  of that tenant, to its store too, and write to no other store. -/
  tenant : ∀ (g g' : Gateway) (request : GatewayRequest) (now verifierNow : Int)
    (append : Option Thrown) (key : ApiKeyRecord),
    g.keys = g'.keys → caller g.keys request = some key →
    g.tenants.stores.get key.tenantId = g'.tenants.stores.get key.tenantId →
    let done := g.handleGateway request now verifierNow append
    let done' := g'.handleGateway request now verifierNow append
    done.2 = done'.2 ∧
      done.1.tenants.stores.get key.tenantId = done'.1.tenants.stores.get key.tenantId ∧
      ∀ other, other ≠ key.tenantId →
        done.1.tenants.stores.get other = g.tenants.stores.get other ∧
          done'.1.tenants.stores.get other = g'.tenants.stores.get other
  /-- A request without a valid key writes to no store, and is told nothing of any. -/
  stranger : ∀ (g : Gateway) (request : GatewayRequest) (now verifierNow : Int)
    (append : Option Thrown), caller g.keys request = none →
    let done := g.handleGateway request now verifierNow append
    done.1.tenants = g.tenants ∧ done.2 = respond unauthenticated
  /-- Over a run, a tenant's store and replies are those of the run without what does not
  concern the tenant. -/
  lifetime : ∀ tenantId : String,
    let own := Noninterference.purge step (concerns tenantId) new events
    Alike tenantId (reached events) (reached own) ∧
      Noninterference.outputs step reply (concerns tenantId) new events =
        Noninterference.outputs step reply (concerns tenantId) new own

theorem caller_of_served {g : Gateway} {request : GatewayRequest} {now verifierNow : Int}
    {append : Option Thrown} (h : Served (g.handleGateway request now verifierNow append).2) :
    ∃ secret record, request.apiKey = some secret ∧ g.keys.authenticate secret = some record ∧
      caller g.keys request = some record := by
  cases hcaller : caller g.keys request with
  | none =>
      rw [handleGateway_outcome, relay_stranger hcaller] at h
      exact absurd rfl (h _ rfl).1
  | some record =>
      obtain ⟨secret, hsecret, hrecord⟩ := Option.bind_eq_some_iff.mp hcaller
      exact ⟨secret, record, hsecret, hrecord, rfl⟩

theorem reached_keys (events : List GatewayEvent) :
    (reached events).keys = LabelledRun.run ApiKeyStore.step ApiKeyStore.new (keyCalls events) :=
  run_keys new events

/-- Every run isolates its tenants, where every key id is issued once. -/
theorem tenants_isolated (events : List GatewayEvent)
    (hids : ((issues (keyCalls events)).map KeyIssue.keyId).Nodup) : Isolated events where
  served request now verifierNow append hfree h := by
    obtain ⟨secret, record, hsecret, hrecord, hcaller⟩ := caller_of_served h
    rw [reached_keys] at hrecord
    rw [hsecret] at hfree
    obtain ⟨before, call, after, hcalls, rfl, rfl, hlive⟩ :=
      ApiKeyStore.run_authenticate hfree hrecord
    obtain ⟨first, rest, hevents, hrest⟩ := keyCalls_eq_issue hcalls
    refine ⟨first, call, rest, hevents, hsecret, ?_, hcaller⟩
    intro revokedAt hrevoke
    apply hlive revokedAt
    rw [← hrest]
    exact List.mem_filterMap.mpr ⟨_, hrevoke, rfl⟩
  revoked before between after call revokedAt hevents := by
    have hcalls : keyCalls events = keyCalls before ++ .issue call :: keyCalls between ++
        .revoke call.keyId revokedAt :: keyCalls after := by
      rw [hevents]
      simp [keyCalls, keyCall]
    rw [hcalls] at hids
    rw [reached_keys, hcalls]
    have hrevoked := ApiKeyStore.run_revoked hids
    refine ⟨hrevoked.authenticate (by rw [ApiKeyStore.split_secret]; rfl), ?_⟩
    intro secret record hrecord heq
    have hsecret := ApiKeyStore.run_authenticate_keyId hrecord
    rw [heq] at hsecret
    rw [hrevoked.authenticate hsecret] at hrecord
    cases hrecord
  tenant g g' request now verifierNow append key hkeys hcaller hstore := by
    obtain ⟨houtcome, htenant⟩ := relay_congr now verifierNow append hcaller hstore
    refine ⟨?_, ?_, fun other hother => ⟨?_, ?_⟩⟩
    · rw [handleGateway_outcome, handleGateway_outcome, houtcome, hkeys]
    · rw [handleGateway_tenants, handleGateway_tenants, htenant, hkeys]
    · rw [handleGateway_tenants, relay_other hcaller (Ne.symm hother)]
    · rw [hkeys] at hcaller
      rw [handleGateway_tenants, relay_other hcaller (Ne.symm hother)]
  stranger g request now verifierNow append hcaller := by
    refine ⟨?_, ?_⟩
    · rw [handleGateway_tenants, relay_stranger hcaller]
    · rw [handleGateway_outcome, relay_stranger hcaller]
  lifetime tenantId :=
    ⟨(unwinds tenantId).run_purge ⟨rfl, rfl⟩ events,
      (unwinds tenantId).outputs_purge ⟨rfl, rfl⟩ events⟩

section OneKey

open ProjectionStore (initial memoryConfig)

/-- A tenant with no projection yet. -/
def acme : Tenant := ⟨MemoryChain, memoryConfig, initial (MemoryChain.new {}) JournalContent.empty⟩

def acmeKey : KeyIssue := ⟨"acme", "ci", .replicate 8 0x8a, .replicate 24 0x15, 1000⟩

def acmeEvents : List GatewayEvent := [.add "acme" acme, .issue acmeKey]

def acmeRequest : GatewayRequest where
  method := "GET"
  path := "/projection/1"
  body := .undefined
  query := []
  apiKey := some acmeKey.secret

theorem caller_acme : caller (reached acmeEvents).keys acmeRequest = some acmeKey.record := by
  simp only [caller, acmeRequest, Option.bind_some, reached, acmeEvents, LabelledRun.run_cons,
    LabelledRun.run_nil, step]
  exact ApiKeyStore.authenticate_issue _ acmeKey

theorem acme_served : Served ((reached acmeEvents).handleGateway acmeRequest 0 0 none).2 := by
  have htenant : (reached acmeEvents).tenants.storeFor acmeKey.record.tenantId = .ok acme := by
    simp only [reached, acmeEvents, LabelledRun.run_cons, LabelledRun.run_nil, step]
    rfl
  have hsegments : segments acmeRequest.path = ["projection", "1"] := by decide
  have htoken : parseUint256 "1" = some 1 := by decide
  rw [handleGateway_outcome, relay, caller_acme]
  simp only [htenant, handle, route, hsegments, htoken, readRoute, respond]
  intro response heq
  have hget : (acmeRequest.method = "GET") := rfl
  rw [if_pos hget] at heq
  cases heq
  decide

/-- The key is served, and is not once it has been revoked. -/
theorem tenants_isolated_acme :
    (∃ before call after, acmeEvents = before ++ .issue call :: after ∧
      acmeRequest.apiKey = some call.secret ∧
      (∀ revokedAt, .revoke call.keyId revokedAt ∉ after) ∧
      caller (reached acmeEvents).keys acmeRequest = some call.record) ∧
    (reached (acmeEvents ++ [.revoke acmeKey.keyId 1001])).keys.authenticate acmeKey.secret =
      none := by
  refine ⟨?_, ?_⟩
  · apply (tenants_isolated acmeEvents (List.nodup_singleton _)).served acmeRequest 0 0 none
    · intro m hm m' hm' _
      have hsecret : (acmeRequest.apiKey.toList ++ secrets (keyCalls acmeEvents)).map utf8 =
          [utf8 acmeKey.secret, utf8 acmeKey.secret] := rfl
      rw [hsecret] at hm hm'
      simp only [List.mem_cons, List.not_mem_nil, or_false, or_self] at hm hm'
      rw [hm, hm']
    · exact acme_served
  · have hids : ((issues (keyCalls (acmeEvents ++ [.revoke acmeKey.keyId 1001]))).map
        KeyIssue.keyId).Nodup := List.nodup_singleton _
    exact ((tenants_isolated _ hids).revoked [.add "acme" acme] [] [] acmeKey 1001 rfl).1

end OneKey

end Gateway

end Erc8415
