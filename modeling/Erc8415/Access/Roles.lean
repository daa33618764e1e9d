import Mathlib.Data.List.Sort
import Erc8415.Foundation.CodeUnits
import Erc8415.Foundation.InsertionMap

/-! # Roles

Who may read what in the console. A directory keeps a role for each user name,
any string of code units, under what the runtime's `toLowerCase` makes of it, and
lists its users in the order of the runtime's `localeCompare`. Both of these stay
open here.
-/

namespace Erc8415

/-- What the runtime does with text that may be in any language. -/
structure Locale where
  toLowerCase : JsText → JsText
  localeCompare : JsText → JsText → Ordering

inductive Role where
  | admin
  | auditor
  | viewer
  deriving DecidableEq, Repr

def Role.text : Role → String
  | admin => "ADMIN"
  | auditor => "AUDITOR"
  | viewer => "VIEWER"

inductive Permission where
  | projectionRead
  | auditRead
  | permissionsManage
  deriving DecidableEq, Repr

def Permission.text : Permission → String
  | projectionRead => "projection:read"
  | auditRead => "audit:read"
  | permissionsManage => "permissions:manage"

def grants : Role → List Permission
  | .viewer => [.projectionRead]
  | .auditor => [.projectionRead, .auditRead]
  | .admin => [.projectionRead, .auditRead, .permissionsManage]

structure AccessDenied where
  permission : Permission
  deriving DecidableEq, Repr

def AccessDenied.message (denied : AccessDenied) : String :=
  s!"missing permission: {denied.permission.text}"

/-! ## The directory -/

structure Directory where
  roles : InsertionMap JsText Role

/-- An item of `users()`. -/
structure DirectoryUser where
  user : JsText
  role : Role
  deriving DecidableEq, Repr

namespace Directory

variable (locale : Locale)

/-- `new Directory(initial)`. -/
def new (initial : List (JsText × Role)) : Directory where
  roles := initial.foldl (fun roles item => roles.set (locale.toLowerCase item.1) item.2)
    InsertionMap.empty

variable (d : Directory)

def roleOf (user : JsText) : Option Role := d.roles.get (locale.toLowerCase user)

def permissionsOf (user : JsText) : List Permission :=
  match d.roleOf locale user with
  | none => []
  | some role => grants role

def can (user : JsText) (permission : Permission) : Bool :=
  (d.permissionsOf locale user).contains permission

def require (user : JsText) (permission : Permission) : Except AccessDenied Unit :=
  if d.can locale user permission then .ok () else .error ⟨permission⟩

def assign (actor user : JsText) (role : Role) : Except AccessDenied Directory := do
  d.require locale actor .permissionsManage
  return ⟨d.roles.set (locale.toLowerCase user) role⟩

def revoke (actor user : JsText) : Except AccessDenied Directory := do
  d.require locale actor .permissionsManage
  return ⟨d.roles.delete (locale.toLowerCase user)⟩

def users : List DirectoryUser :=
  (d.roles.pairs.map fun item => ⟨item.1, item.2⟩).mergeSort
    fun a b => locale.localeCompare a.user b.user ≠ .gt

variable {locale} {d}

theorem can_manage_iff {user : JsText} :
    d.can locale user .permissionsManage = true ↔ d.roleOf locale user = some .admin := by
  unfold can permissionsOf
  cases d.roleOf locale user with
  | none => simp
  | some role => cases role <;> decide

theorem require_eq_ok {user : JsText} {permission : Permission} :
    d.require locale user permission = .ok () ↔ d.can locale user permission = true := by
  unfold require
  split <;> simp_all

/-- Only an administrator changes a role. -/
theorem assign_eq_ok {d' : Directory} {actor user : JsText} {role : Role} :
    d.assign locale actor user role = .ok d' ↔ d.roleOf locale actor = some .admin ∧
      d' = ⟨d.roles.set (locale.toLowerCase user) role⟩ := by
  rw [← can_manage_iff, ← require_eq_ok, assign]
  cases d.require locale actor .permissionsManage <;>
    simp [bind, Except.bind, pure, Except.pure, eq_comm]

theorem revoke_eq_ok {d' : Directory} {actor user : JsText} :
    d.revoke locale actor user = .ok d' ↔ d.roleOf locale actor = some .admin ∧
      d' = ⟨d.roles.delete (locale.toLowerCase user)⟩ := by
  rw [← can_manage_iff, ← require_eq_ok, revoke]
  cases d.require locale actor .permissionsManage <;>
    simp [bind, Except.bind, pure, Except.pure, eq_comm]

variable (locale) (d)

theorem length_users : (d.users locale).length = d.roles.pairs.length := by
  rw [users, List.length_mergeSort, List.length_map]

/-- The listed names are the stored ones. -/
theorem forall_users {p : JsText → Prop} :
    (∀ item ∈ d.users locale, p item.user) ↔ ∀ user ∈ d.roles.keys, p user := by
  simp only [users, List.mem_mergeSort, InsertionMap.keys, List.forall_mem_map]

end Directory

end Erc8415
