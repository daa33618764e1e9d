import Erc8415.Api.Isolation
import Erc8415.Sdk.Answers

/-! # Reading with a key

The clients over the gateway. A client that holds a key which was issued and not
revoked reads the store of that key's tenant, as it stands at the request; once the key
is revoked it reads nothing. No read changes the store of any tenant.
-/

namespace Erc8415

/-! ## Live keys -/

namespace ApiKeyStore

/-- The store holds a key as it was issued. -/
def Live (s : ApiKeyStore) (call : KeyIssue) : Prop :=
  s.records.get call.keyId = some call.record ∧
    s.hashes.get call.keyId = some (digest call.secret)

theorem live_issue (s : ApiKeyStore) (call : KeyIssue) : Live (s.issue call).1 call :=
  ⟨InsertionMap.get_set_self _ _ _, InsertionMap.get_set_self _ _ _⟩

theorem Live.authenticate {s : ApiKeyStore} {call : KeyIssue} (h : Live s call) :
    s.authenticate call.secret = some call.record := by
  apply authenticate_eq_some.mpr
  refine ⟨call.keyId, ?_, h.1, h.2, rfl⟩
  rw [split_secret]
  rfl

theorem Live.step {s : ApiKeyStore} {call : KeyIssue} (h : Live s call) {c : KeyCall}
    (hissue : ∀ again, c = .issue again → again.keyId ≠ call.keyId)
    (hrevoke : ∀ now, c ≠ .revoke call.keyId now) : Live (ApiKeyStore.step s c) call := by
  cases c with
  | issue again =>
      have hne := hissue again rfl
      simp only [Live, ApiKeyStore.step, ApiKeyStore.issue]
      rw [InsertionMap.get_set_of_ne hne, InsertionMap.get_set_of_ne hne]
      exact h
  | revoke keyId now =>
      have hne : keyId ≠ call.keyId := by
        rintro rfl
        exact hrevoke now rfl
      simp only [Live, ApiKeyStore.step, revoke_hashes, get_revoke]
      rw [if_neg hne]
      exact h

theorem Live.run {s : ApiKeyStore} {call : KeyIssue} (h : Live s call) {calls : List KeyCall}
    (hissue : ∀ again, .issue again ∈ calls → again.keyId ≠ call.keyId)
    (hrevoke : ∀ now, .revoke call.keyId now ∉ calls) :
    Live (LabelledRun.run ApiKeyStore.step s calls) call := by
  induction calls generalizing s with
  | nil => exact h
  | cons c rest ih =>
      have hstep : Live (ApiKeyStore.step s c) call := by
        apply h.step
        · rintro again rfl
          exact hissue again List.mem_cons_self
        · rintro now rfl
          exact hrevoke now List.mem_cons_self
      exact ih hstep (fun again hmem => hissue again (List.mem_cons_of_mem _ hmem))
        fun now hmem => hrevoke now (List.mem_cons_of_mem _ hmem)

end ApiKeyStore

/-! ## Requests with a secret -/

namespace Gateway

open ApiKeyStore (KeyCall issues)

/-- The request of a client for a URL, with its secret as the bearer. -/
def keyedRequest (secret url : String) : GatewayRequest :=
  { requestOf url with apiKey := some secret }

/-- The fetch of a client with a secret, to a gateway. -/
def keyedFetch (g : Gateway) (secret : String) (now verifierNow : Int) (append : Option Thrown) :
    Fetch :=
  fun url => (g.handleGateway (keyedRequest secret url) now verifierNow append).2

section Fetch

variable {g : Gateway} {secret : String} {key : ApiKeyRecord} (now verifierNow : Int)
  (append : Option Thrown)

/-- With a key that authenticates, a client fetches from the store of the key's tenant. -/
theorem keyedFetch_tenant {tenant : Tenant} (hkey : g.keys.authenticate secret = some key)
    (htenant : g.tenants.storeFor key.tenantId = .ok tenant) :
    g.keyedFetch secret now verifierNow append =
      fetchFrom tenant.config tenant.store now verifierNow append := by
  funext url
  have hcaller : caller g.keys (keyedRequest secret url) = some key := hkey
  rw [keyedFetch, handleGateway_outcome, relay, hcaller]
  simp only [htenant]
  rfl

theorem keyedFetch_unknown {e : UnknownTenant} (hkey : g.keys.authenticate secret = some key)
    (htenant : g.tenants.storeFor key.tenantId = .error e) (url : String) :
    g.keyedFetch secret now verifierNow append url = respond unknownTenant := by
  have hcaller : caller g.keys (keyedRequest secret url) = some key := hkey
  rw [keyedFetch, handleGateway_outcome, relay, hcaller]
  simp only [htenant]

theorem keyedFetch_stranger (hkey : g.keys.authenticate secret = none) (url : String) :
    g.keyedFetch secret now verifierNow append url = respond unauthenticated := by
  have hcaller : caller g.keys (keyedRequest secret url) = none := hkey
  rw [keyedFetch, handleGateway_outcome, relay_stranger hcaller]

theorem storeFor_keyed (g : Gateway) (secret url tenantId : String) :
    (g.handleGateway (keyedRequest secret url) now verifierNow append).1.tenants.storeFor tenantId =
      g.tenants.storeFor tenantId := by
  rw [handleGateway_tenants]
  apply TenantRegistry.storeFor_congr
  cases hcaller : caller g.keys (keyedRequest secret url) with
  | none => rw [relay_stranger hcaller]
  | some key =>
      by_cases heq : key.tenantId = tenantId
      · subst heq
        rw [relay, hcaller]
        simp only
        split
        · rfl
        next tenant htenant =>
          have hget : (keyedRequest secret url).method = "GET" := by
            rw [keyedRequest, requestOf]
          rw [handle_get hget, TenantRegistry.writeStore, InsertionMap.get_set_self]
          unfold TenantRegistry.storeFor at htenant
          split at htenant
          · cases htenant
          next found hfound =>
            cases htenant
            exact hfound.symm
      · exact relay_other hcaller heq

end Fetch

/-! ## A key's lifetime -/

/-- Every read of a client, of any token and at any instant or version there can be, comes to
what a store answers. -/
structure ReadsStore {σ : Type} (fetch : Fetch) (s : ProjectionStore σ) : Prop where
  holderAsOf : ∀ tokenId instant : Int, 0 ≤ tokenId → tokenId < uint256Bound → 0 ≤ instant →
    instant ≤ uint64Max → ProjectionClient.holderAsOf fetch tokenId instant =
      ProjectionClient.relayed (s.holderAsOf tokenId instant) .string
  isFinalAsOf : ∀ tokenId instant : Int, 0 ≤ tokenId → tokenId < uint256Bound → 0 ≤ instant →
    instant ≤ uint64Max → ProjectionClient.isFinalAsOf fetch tokenId instant =
      some (.ok (.boolean (s.isFinalAsOf tokenId instant)))
  entryAsOf : ∀ tokenId instant : Int, 0 ≤ tokenId → tokenId < uint256Bound → 0 ≤ instant →
    instant ≤ uint64Max → ProjectionClient.entryAsOf fetch tokenId instant =
      ProjectionClient.relayed (s.entryAsOf tokenId instant) ClientEntry.ofEntry
  entryAt : ∀ tokenId version : Int, 0 ≤ tokenId → tokenId < uint256Bound → 0 ≤ version →
    version ≤ uint64Max → ProjectionClient.entryAt fetch tokenId version =
      ProjectionClient.relayed (s.entryAt tokenId version) ClientEntry.ofEntry
  openGapOf : ∀ tokenId : Int, 0 ≤ tokenId → tokenId < uint256Bound →
    ProjectionClient.openGapOf fetch tokenId =
      some (.ok ((s.openSettlement tokenId).map ClientSettlement.ofRecord))
  resolve : ∀ tokenId instant : Int, 0 ≤ tokenId → tokenId < uint256Bound → 0 ≤ instant →
    instant ≤ uint64Max → ProjectionClient.resolve fetch tokenId instant =
      ProjectionClient.relayed (s.holderAsOf tokenId instant) fun holder =>
        { holder := .string holder
          final := .boolean (s.isFinalAsOf tokenId instant)
          openGap := (s.openSettlement tokenId).map ClientSettlement.ofRecord }

theorem readsStore {σ : Type} (o : StoreConfig σ) (s : ProjectionStore σ) (now verifierNow : Int)
    (append : Option Thrown) : ReadsStore (fetchFrom o s now verifierNow append) s where
  holderAsOf _ _ hlow hhigh :=
    ProjectionClient.holderAsOf_serve o s now verifierNow append hlow hhigh
  isFinalAsOf _ _ hlow hhigh :=
    ProjectionClient.isFinalAsOf_serve o s now verifierNow append hlow hhigh
  entryAsOf _ _ hlow hhigh := ProjectionClient.entryAsOf_serve o s now verifierNow append hlow hhigh
  entryAt _ _ hlow hhigh := ProjectionClient.entryAt_serve o s now verifierNow append hlow hhigh
  openGapOf _ hlow hhigh := ProjectionClient.openGapOf_serve o s now verifierNow append hlow hhigh
  resolve _ _ hlow hhigh := ProjectionClient.resolve_serve o s now verifierNow append hlow hhigh

/-- Every request of a client is refused, with this status and code. -/
def Refuses (fetch : Fetch) (status : Nat) (code : String) : Prop :=
  ∀ path, ProjectionClient.get fetch path =
    some (.error (.projection status (.string code) (.string code)))

/-- What a client with a key reads, over a run that issues it. -/
structure KeyLifetime (events : List GatewayEvent) : Prop where
  /-- While the key lives it reads its tenant's store as that stands. -/
  live : ∀ (before after : List GatewayEvent) (call : KeyIssue) (tenant : Tenant),
    events = before ++ .issue call :: after → (∀ revokedAt, .revoke call.keyId revokedAt ∉ after) →
    (reached events).tenants.storeFor call.tenantId = .ok tenant →
    ∀ (now verifierNow : Int) (append : Option Thrown),
      ReadsStore ((reached events).keyedFetch call.secret now verifierNow append) tenant.store
  /-- A key of a tenant that was never added reads nothing. -/
  unknown : ∀ (before after : List GatewayEvent) (call : KeyIssue) (e : UnknownTenant),
    events = before ++ .issue call :: after → (∀ revokedAt, .revoke call.keyId revokedAt ∉ after) →
    (reached events).tenants.storeFor call.tenantId = .error e →
    ∀ (now verifierNow : Int) (append : Option Thrown),
      Refuses ((reached events).keyedFetch call.secret now verifierNow append) 403 "UNKNOWN_TENANT"
  /-- Once revoked, it reads nothing. -/
  revoked : ∀ (before between after : List GatewayEvent) (call : KeyIssue) (revokedAt : Int),
    events = before ++ .issue call :: between ++ .revoke call.keyId revokedAt :: after →
    ∀ (now verifierNow : Int) (append : Option Thrown),
      Refuses ((reached events).keyedFetch call.secret now verifierNow append) 401 "UNAUTHENTICATED"
  /-- No request of a client, whatever its secret, changes the store of a tenant. -/
  readOnly : ∀ (secret url tenantId : String) (now verifierNow : Int) (append : Option Thrown),
    ((reached events).handleGateway (keyedRequest secret url) now verifierNow
      append).1.tenants.storeFor tenantId = (reached events).tenants.storeFor tenantId

theorem keyCalls_issue (before after : List GatewayEvent) (call : KeyIssue) :
    keyCalls (before ++ .issue call :: after) =
      keyCalls before ++ .issue call :: keyCalls after := by
  simp [keyCalls, keyCall]

/-- Where every key id is issued once, an issued key that is not revoked authenticates. -/
theorem authenticate_reached {before after : List GatewayEvent} {call : KeyIssue}
    (hids : ((issues (keyCalls (before ++ .issue call :: after))).map KeyIssue.keyId).Nodup)
    (hlive : ∀ revokedAt, .revoke call.keyId revokedAt ∉ after) :
    (reached (before ++ .issue call :: after)).keys.authenticate call.secret =
      some call.record := by
  rw [reached_keys]
  rw [keyCalls_issue] at hids ⊢
  rw [LabelledRun.run_append, LabelledRun.run_cons]
  apply ApiKeyStore.Live.authenticate
  apply (ApiKeyStore.live_issue _ call).run
  · intro again hagain heq
    simp only [issues, List.filterMap_append, List.filterMap_cons, List.map_append,
      List.map_cons] at hids
    have hlater := (List.nodup_cons.mp (List.nodup_append.mp hids).2.1).1
    apply hlater
    rw [← heq]
    exact List.mem_map_of_mem (ApiKeyStore.mem_issues.mpr hagain)
  · intro revokedAt hrevoke
    obtain ⟨event, hmem, hcall⟩ := List.mem_filterMap.mp hrevoke
    cases event with
    | revoke keyId now =>
        cases hcall
        exact hlive revokedAt hmem
    | issue => cases hcall
    | add => cases hcall
    | request => cases hcall

theorem refuses_of_respond {fetch : Fetch} {status : Nat} {code : String} (hstatus : 400 ≤ status)
    (hcode : code ≠ "INSTANT_NOT_COVERED")
    (h : ∀ url, fetch url = respond ⟨status, .object [("error", .string code)]⟩) :
    Refuses fetch status code := by
  intro path
  rw [ProjectionClient.get, h]
  simp [respond, ProjectionClient.bodyOf, hstatus, ProjectionClient.failureOf,
    ProjectionClient.fieldOf, JsValue.get, JsValue.property, JsValue.orElse, JsValue.isText,
    JsValue.asString, hcode]

/-- Where every key id is issued once, a client with a key of a tenant reads that tenant's store
from the key's issue to its revocation, and nothing afterwards. -/
theorem run_keyed_reads (events : List GatewayEvent)
    (hids : ((issues (keyCalls events)).map KeyIssue.keyId).Nodup) : KeyLifetime events where
  live before after call tenant hevents hlive htenant now verifierNow append := by
    subst hevents
    rw [keyedFetch_tenant now verifierNow append (authenticate_reached hids hlive) htenant]
    exact readsStore tenant.config tenant.store now verifierNow append
  unknown before after call e hevents hlive htenant now verifierNow append := by
    subst hevents
    apply refuses_of_respond (by decide) (by decide)
    exact keyedFetch_unknown now verifierNow append (authenticate_reached hids hlive) htenant
  revoked before between after call revokedAt hevents now verifierNow append := by
    have hcalls : keyCalls events = keyCalls before ++ .issue call :: keyCalls between ++
        .revoke call.keyId revokedAt :: keyCalls after := by
      rw [hevents]
      simp [keyCalls, keyCall]
    have hnone : (reached events).keys.authenticate call.secret = none := by
      rw [reached_keys, hcalls]
      rw [hcalls] at hids
      apply (ApiKeyStore.run_revoked hids).authenticate
      rw [ApiKeyStore.split_secret]
      rfl
    apply refuses_of_respond (by decide) (by decide)
    exact keyedFetch_stranger now verifierNow append hnone
  readOnly secret url tenantId now verifierNow append :=
    storeFor_keyed now verifierNow append (reached events) secret url tenantId

/-! ### A key that is issued and revoked -/

theorem run_keyed_reads_acme :
    ReadsStore ((reached acmeEvents).keyedFetch acmeKey.secret 0 0 none) acme.store ∧
      Refuses ((reached (acmeEvents ++ [.revoke acmeKey.keyId 5])).keyedFetch acmeKey.secret 9 9
        none) 401 "UNAUTHENTICATED" := by
  have htenant : (reached acmeEvents).tenants.storeFor acmeKey.tenantId = .ok acme := by
    simp only [reached, acmeEvents, LabelledRun.run_cons, LabelledRun.run_nil, step]
    rfl
  have hids : ((issues (keyCalls (acmeEvents ++ [.revoke acmeKey.keyId 5]))).map
      KeyIssue.keyId).Nodup := List.nodup_singleton _
  refine ⟨?_, ?_⟩
  · exact (run_keyed_reads acmeEvents (List.nodup_singleton _)).live [.add "acme" acme] [] acmeKey
      acme rfl (fun _ => List.not_mem_nil) htenant 0 0 none
  · exact (run_keyed_reads _ hids).revoked [.add "acme" acme] [] [] acmeKey 5 rfl 9 9 none

end Gateway

end Erc8415
