import Erc8415.Api.Routes
import Erc8415.Ops.ApiKeys
import Erc8415.Ops.Metrics
import Erc8415.Ops.Tenants

/-! # The gateway

A request is authenticated, resolved to its tenant and metered. The tenant
comes from the key, never from the request. Every outcome is counted, the
refusals too.
-/

namespace Erc8415

/-- A request with its bearer secret; without one it is unauthenticated. -/
structure GatewayRequest extends ApiRequest where
  apiKey : Option String

/-- What the gateway works on. -/
structure Gateway : Type 1 where
  tenants : TenantRegistry
  keys : ApiKeyStore
  metrics : Metrics

/-- `/^\d+$/`. -/
def isDigits (part : String) : Bool :=
  part ≠ "" && part.toList.all fun c => '0' ≤ c && c ≤ '9'

/-- A route label with the identifiers stripped out. -/
def routeLabel (path : String) : String :=
  let label := SplitText.join '/'
    ((segments path).map fun part => if isDigits part then ":id" else part)
  if label = "" then "root" else label

def unauthenticated : ApiResponse := ⟨401, .object [("error", .string "UNAUTHENTICATED")]⟩

def unknownTenant : ApiResponse := ⟨403, .object [("error", .string "UNKNOWN_TENANT")]⟩

namespace Gateway

/-- Count a request under its labels, and come to an outcome unless counting throws. -/
def meter (g : Gateway) (labels : Labels) (outcome : Handled) : Gateway × Handled :=
  match g.metrics.increment "erc8415_requests_total" labels with
  | .ok metrics => ({ g with metrics := metrics }, outcome)
  | .error e => (g, some (.error e))

/-- Count what a tenant's store came to, as an error unless it is a response. -/
def meterHandled (g : Gateway) (tenantId route : String) (outcome : Handled) :
    Gateway × Handled :=
  let failed := g.meter [("tenant", tenantId), ("route", route), ("outcome", "error")]
  match outcome with
  | some (.ok response) =>
      let metered := g.metrics.increment "erc8415_requests_total"
        [("tenant", tenantId), ("route", route),
          ("outcome", if response.status < 400 then "ok" else "refused"),
          ("status", toString response.status)]
      match metered with
      | .ok metrics => ({ g with metrics := metrics }, outcome)
      | .error e => failed (some (.error e))
  | _ => failed outcome

/-- `handleGateway`: the gateway after a request, and what the request comes to. -/
def handleGateway (g : Gateway) (request : GatewayRequest) (now verifierNow : Int)
    (append : Option Thrown) : Gateway × Handled :=
  let route := routeLabel request.path
  match request.apiKey with
  | none =>
      g.meter [("route", route), ("outcome", "unauthenticated")] (respond unauthenticated)
  | some secret =>
      match g.keys.authenticate secret with
      | none => g.meter [("route", route), ("outcome", "rejected")] (respond unauthenticated)
      | some key =>
          match g.tenants.storeFor key.tenantId with
          | .error _ =>
              g.meter [("route", route), ("outcome", "unknown_tenant")] (respond unknownTenant)
          | .ok tenant =>
              let done := handle tenant.config tenant.store request.toApiRequest now verifierNow
                append
              let tenants := g.tenants.writeStore key.tenantId tenant done.1
              { g with tenants := tenants }.meterHandled key.tenantId route done.2

/-! ## What a request comes to, metrics aside -/

/-- The record a request's key authenticates, if it has one. -/
def caller (keys : ApiKeyStore) (request : GatewayRequest) : Option ApiKeyRecord :=
  request.apiKey.bind keys.authenticate

/-- The registry after a request, and what the request comes to. -/
def relay (tenants : TenantRegistry) (keys : ApiKeyStore) (request : GatewayRequest)
    (now verifierNow : Int) (append : Option Thrown) : TenantRegistry × Handled :=
  match caller keys request with
  | none => (tenants, respond unauthenticated)
  | some key =>
      match tenants.storeFor key.tenantId with
      | .error _ => (tenants, respond unknownTenant)
      | .ok tenant =>
          let done := handle tenant.config tenant.store request.toApiRequest now verifierNow append
          (tenants.writeStore key.tenantId tenant done.1, done.2)

/-- Under allowed labels, counting an outcome comes to it. -/
theorem meter_eq (g : Gateway) {labels : Labels} (outcome : Handled)
    (h : ∀ label ∈ labels, label.1 ∉ Metrics.forbiddenLabels) :
    ∃ metrics, g.meter labels outcome = ({ g with metrics := metrics }, outcome) := by
  unfold meter
  split
  next metrics _ => exact ⟨metrics, rfl⟩
  next e herror => exact absurd herror (Metrics.increment_ne_error h)

theorem meterHandled_eq (g : Gateway) (tenantId route : String) (outcome : Handled) :
    ∃ metrics, g.meterHandled tenantId route outcome =
      ({ g with metrics := metrics }, outcome) := by
  unfold meterHandled
  split
  next response =>
    simp only
    split
    next metrics _ => exact ⟨metrics, rfl⟩
    next e herror =>
      apply absurd herror
      apply Metrics.increment_ne_error
      simp [Metrics.forbiddenLabels]
  next =>
    apply meter_eq
    simp [Metrics.forbiddenLabels]

/-- Counting never throws, so a request comes to what it comes to without it. -/
theorem handleGateway_relay (g : Gateway) (request : GatewayRequest) (now verifierNow : Int)
    (append : Option Thrown) :
    ∃ metrics, g.handleGateway request now verifierNow append =
      (⟨(relay g.tenants g.keys request now verifierNow append).1, g.keys, metrics⟩,
        (relay g.tenants g.keys request now verifierNow append).2) := by
  unfold handleGateway relay caller
  cases hsecret : request.apiKey with
  | none =>
      apply meter_eq
      simp [Metrics.forbiddenLabels]
  | some secret =>
      cases hkey : g.keys.authenticate secret with
      | none =>
          simp only [Option.bind_some, hkey]
          apply meter_eq
          simp [Metrics.forbiddenLabels]
      | some key =>
          cases htenant : g.tenants.storeFor key.tenantId with
          | error e =>
              simp only [Option.bind_some, hkey, htenant]
              apply meter_eq
              simp [Metrics.forbiddenLabels]
          | ok tenant =>
              simp only [Option.bind_some, hkey, htenant]
              exact meterHandled_eq _ _ _ _

end Gateway

end Erc8415
