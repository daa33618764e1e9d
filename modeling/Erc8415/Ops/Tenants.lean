import Erc8415.Projection.Store

/-! # The tenant registry

One projection store per tenant. A request resolves to exactly one store
through its tenant, and no operation reaches across.
-/

namespace Erc8415

/-- A tenant's store, with the options it was made with and an adapter of its own. -/
structure Tenant : Type 1 where
  Adapter : Type
  config : StoreConfig Adapter
  store : ProjectionStore Adapter

/-- What is thrown for a tenant that was never added. -/
structure UnknownTenant where
  tenantId : String
  deriving DecidableEq, Repr

def UnknownTenant.message (e : UnknownTenant) : String := s!"no such tenant: {e.tenantId}"

structure TenantRegistry : Type 1 where
  stores : InsertionMap String Tenant

namespace TenantRegistry

/-- `new TenantRegistry()`. -/
def new : TenantRegistry := ⟨InsertionMap.empty⟩

def add (r : TenantRegistry) (tenantId : String) (tenant : Tenant) : TenantRegistry :=
  ⟨r.stores.set tenantId tenant⟩

def storeFor (r : TenantRegistry) (tenantId : String) : Except UnknownTenant Tenant :=
  match r.stores.get tenantId with
  | none => .error ⟨tenantId⟩
  | some tenant => .ok tenant

/-- The registry once a tenant's store has been written to, in place. -/
def writeStore (r : TenantRegistry) (tenantId : String) (tenant : Tenant)
    (store : ProjectionStore tenant.Adapter) : TenantRegistry :=
  ⟨r.stores.set tenantId { tenant with store := store }⟩

theorem storeFor_congr {r r' : TenantRegistry} {tenantId : String}
    (h : r.stores.get tenantId = r'.stores.get tenantId) :
    r.storeFor tenantId = r'.storeFor tenantId := by
  unfold storeFor
  rw [h]

end TenantRegistry

end Erc8415
