import Erc8415.Api.Routes
import Erc8415.Console.Render

/-! # The console

The institutional console, read-only over the projection. Sign-in establishes
who is asking, and the directory decides what they may read.
-/

namespace Erc8415

variable {σ : Type}

structure ConsoleOptions (σ : Type) where
  config : StoreConfig σ
  store : ProjectionStore σ
  directory : Directory
  settlement : Option (EngineView σ)
  now : Int
  /-- The ERC-721 owner, or none where no owner source is wired or it knows of none. -/
  ownerOf : Int → Option Address

structure ConsoleRequest where
  method : String
  path : String
  user : Option JsText
  query : List (String × String)

structure ConsoleResponse where
  status : Nat
  contentType : String
  body : JsText
  deriving DecidableEq, Repr

def html (status : Nat) (body : JsText) : ConsoleResponse :=
  ⟨status, "text/html; charset=utf-8", body⟩

def plainText (status : Nat) (body : String) : ConsoleResponse :=
  ⟨status, "text/plain; charset=utf-8", jsText body⟩

/-- What the reads of a request may throw and the console catches. -/
inductive ConsoleError where
  | accessDenied (denied : AccessDenied)
  | projection (error : ProjectionError)
  | syntaxError

def ConsoleError.response : ConsoleError → ConsoleResponse
  | accessDenied denied => plainText 403 denied.message
  | projection error => plainText 404 error.message
  | syntaxError => plainText 400 "malformed token id or instant"

def consoleBigInt (text : String) : Except ConsoleError Int :=
  match BigIntText.parse text with
  | none => .error .syntaxError
  | some n => .ok n

/-! ## The pages -/

def homePage : String :=
  "<!doctype html><html lang=\"en\"><head><meta charset=\"utf-8\">" ++
  "<title>ERC-8415 console</title></head><body><h1>ERC-8415 console</h1>" ++
  "<p>Sign in to read a projection.</p></body></html>"

def permissionsRow (item : DirectoryUser) : JsText :=
  jsText "<tr><td>" ++ item.user ++ jsText "</td><td>" ++ jsText item.role.text ++
  jsText "</td></tr>"

def permissionsPage (users : List DirectoryUser) : JsText :=
  jsText "<!doctype html><html lang=\"en\"><head><meta charset=\"utf-8\">" ++
  jsText "<title>Permissions</title></head><body><h1>Permissions</h1><table>" ++
  (users.map permissionsRow).flatten ++ jsText "</table></body></html>"

/-! ## The routes -/

section Routes

variable (locale : Locale) (options : ConsoleOptions σ)

def consoleRequire (user : JsText) (permission : Permission) : Except ConsoleError Unit :=
  match options.directory.require locale user permission with
  | .error denied => .error (.accessDenied denied)
  | .ok () => .ok ()

/-- The instant a query asks about, or the clock's. -/
def consoleInstant (query : List (String × String)) : Except ConsoleError Int :=
  match query.lookup "instant" with
  | none => .ok options.now
  | some raw => consoleBigInt raw

/-- The routes of a user with a role; `none` where there is none. -/
def consoleRoute (request : ConsoleRequest) (user : JsText) :
    List String → Except ConsoleError (Option ConsoleResponse)
  | ["token", tokenRaw] => do
      consoleRequire locale options user .projectionRead
      let tokenId ← consoleBigInt tokenRaw
      let instant ← consoleInstant options request.query
      return some (html 200 (jsText (renderOverview (overview options.config options.store
        options.settlement tokenId instant (options.ownerOf tokenId)))))
  | ["token", tokenRaw, "timeline"] => do
      consoleRequire locale options user .auditRead
      let tokenId ← consoleBigInt tokenRaw
      let settlements := options.store.settlementsFor tokenId
      return some (html 200 (jsText (renderTimeline (toString tokenId)
        (timeline locale (options.store.entries tokenId) settlements))))
  | ["permissions"] => do
      consoleRequire locale options user .permissionsManage
      return some (html 200 (permissionsPage (options.directory.users locale)))
  | _ => .ok none

def handleConsole (request : ConsoleRequest) : ConsoleResponse :=
  let parts := segments request.path
  if parts.length = 0 then html 200 (jsText homePage)
  else
    match request.user with
    | none => plainText 401 "sign in required"
    | some user =>
        match options.directory.roleOf locale user with
        | none => plainText 403 "this account has no role in this console"
        | some _ =>
            match consoleRoute locale options request user parts with
            | .error error => error.response
            | .ok none => plainText 404 "not found"
            | .ok (some response) => response

end Routes

end Erc8415
