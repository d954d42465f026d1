import GoSite.AccessTokens
import GoSite.GuardedRuns
import GoSite.HttpRoutes

/-!
# Who reaches a handler

A request passes the guards of its route and then reaches the handler. The guards of the
tokens query the tables, and any number of requests are under way, with the plugin service
at work beside them.
-/
namespace GoSite.Access
open GoStrings Interleaving GuardedRuns
open GoSite.Plugin (Registry PluginVersion)

/-- The configuration, as far as the guards use it. -/
structure PanelConfig where
  authEnable : Bool
  authUser : String
  authPass : String
  corsOrigins : List String

/-- A request: the path, the credentials of basic authentication, the session cookie and the
token header, and what the token handlers decode of the query and the body. -/
structure HttpRequest where
  method : Method
  path : String
  basic : Option (String × String)
  session : String
  token : String
  queryID : String
  body : Except AccessError CreateTokenInput

/-- What a request is authenticated as. -/
inductive Principal where
  | nobody
  | session (user : ℤ)
  | token (row : AccessToken) (scopes : List String)
  deriving Repr, DecidableEq

/-- The status of `apperror.New`. -/
def AccessCode.httpStatus : AccessCode → ℕ
  | .unauthorized | .sessionExpired | .basicAuthRequired => 401
  | .forbidden => 403
  | .validation | .invalidInput => 400
  | .conflict => 409
  | .notFound => 404
  | .database | .internal => 500

/-- The status of a handler that returns a result with the status. -/
def statusOf {α : Type} (status : ℕ) : Except AccessError α → ℕ
  | .ok _ => status
  | .error e => e.code.httpStatus

/-- `streamPaths`. -/
def streamPaths : List String := ["/api/v1/query/tail", "/api/v1/terminal/ws"]

/-- `streamPathSuffixes`. -/
def streamPathSuffixes : List String := ["/ssl/certbot/stream", "/run/stream"]

/-- `isStreamRequest`. -/
def isStreamRequest (method : Method) (path : String) : Bool :=
  method = .get ∧
    (path ∈ streamPaths ∨ ∃ suffix ∈ streamPathSuffixes, suffix.toList <:+ path.toList)

section
variable (S : TokenService) (cfg : PanelConfig) (req : HttpRequest)

/-- `BasicAuth`. -/
def basicAuth (principal : Principal) : Except AccessError Principal :=
  if ¬ cfg.authEnable ∨ isStreamRequest req.method req.path ∨
      req.basic = some (cfg.authUser, cfg.authPass) then .ok principal
  else .error (.new .basicAuthRequired "basic authentication required")

/-- `RequireSession`. -/
def requireSession : AccessSteps (Except AccessError Principal) := do
  if req.session = "" then return .error (.new .unauthorized "authentication required")
  else
    match ← ask (.sessionUser req.session) with
    | none => return .error (.new .sessionExpired "session expired or invalid")
    | some user => return .ok (.session user)

/-- `RequireSessionOrAccessToken` and `RequireAccessTokenOnly` with a token. -/
def requireToken : AccessSteps (Except AccessError Principal) :=
  orFail (S.authenticate (trimSpace req.token)) fun (row, scopes) =>
    return .ok (.token row scopes)

/-- `RequireSessionOrAccessToken`. -/
def requireSessionOrToken : AccessSteps (Except AccessError Principal) :=
  if trimSpace req.token = "" then requireSession req
  else if req.session ≠ "" then
    return .error (.new .unauthorized "use session or access token, not both")
  else requireToken S req

/-- `RequireAccessTokenOnly`. -/
def requireTokenOnly : AccessSteps (Except AccessError Principal) :=
  if trimSpace req.token = "" then return .error (.new .unauthorized "access token required")
  else requireToken S req

/-- `RequireSessionOnly`. -/
def requireSessionOnly : Principal → Except AccessError Principal
  | .token _ _ => .error (.new .forbidden "session required")
  | principal => .ok principal

/-- `RequireScope`. -/
def requireScope (required : String) : Principal → Except AccessError Principal
  | .token row scopes =>
      if hasScope scopes required then .ok (.token row scopes)
      else .error (.new .forbidden ("missing scope: " ++ required))
  | principal => .ok principal

/-- A guard, with what the request is authenticated as so far. -/
def Guard.check (principal : Principal) : Guard → AccessSteps (Except AccessError Principal)
  | .basicAuth => return Access.basicAuth cfg req principal
  | .session => requireSession req
  | .sessionOrToken => requireSessionOrToken S req
  | .sessionOnly => return requireSessionOnly principal
  | .tokenOnly => requireTokenOnly S req
  | .scope required => return requireScope required principal

/-- The guards, up to the first that refuses the request. -/
def runGuards (principal : Principal) : List Guard → AccessSteps (Except AccessError Principal)
  | [] => return .ok principal
  | guard :: guards =>
      orFail (guard.check S cfg req principal) fun principal => runGuards principal guards

/-- `sessionActor`: the user and the email. -/
def sessionActor : AccessSteps (Except AccessError (ℤ × String)) := do
  if req.session = "" then return .error (.new .unauthorized "authentication required")
  else
    match ← ask (.sessionUser req.session) with
    | none => return .error (.new .sessionExpired "session expired or invalid")
    | some user =>
        match ← ask (.findUser user) with
        | .error e => return .error (.wrap .database "load user failed" e)
        | .ok email => return .ok (user, email)

/-- The plugin id that a token handler reads. -/
def requestPlugin : Except AccessError String :=
  match pluginIDFromPath req.path req.queryID with
  | none => .error (.new .invalidInput "plugin id required")
  | some id => .ok id

/-- The token id that a token handler reads. -/
def requestToken : Except AccessError String :=
  match integrationTokenIDFromPath req.path with
  | none => .error (.new .invalidInput "token id required")
  | some id => .ok id

/-- `IntegrationTokenHandler.Create`. -/
def createHandler : AccessSteps (Except AccessError CreateTokenResult) :=
  orFail (return requestPlugin req) fun pluginID =>
    orFail (sessionActor req) fun (user, email) =>
      orFail (return req.body) fun input => S.create pluginID user input email

/-- `IntegrationTokenHandler.Patch`. -/
def patchHandler : AccessSteps (Except AccessError AccessToken) :=
  orFail (return requestPlugin req) fun pluginID =>
    orFail (return requestToken req) fun tokenID =>
      orFail (sessionActor req) fun (_, email) =>
        orFail (return req.body) fun input => S.updateScopes pluginID tokenID input.scopes email

/-- `IntegrationTokenHandler.Delete`. -/
def deleteHandler : AccessSteps (Except AccessError AccessToken) :=
  orFail (return requestPlugin req) fun pluginID =>
    orFail (return requestToken req) fun tokenID =>
      orFail (sessionActor req) fun (_, email) => TokenService.revoke pluginID tokenID email

/-- `IntegrationTokenHandler.List`. -/
def listHandler : AccessSteps (Except AccessError (List AccessToken)) :=
  orFail (return requestPlugin req) fun pluginID => TokenService.list pluginID

/-- The handler of a route, and the status it writes. -/
def Endpoint.serve : Endpoint → AccessSteps ℕ
  | .other => ask .handler
  | .listTokens => do return statusOf 200 (← listHandler req)
  | .createToken => do return statusOf 201 (← createHandler S req)
  | .patchToken => do return statusOf 200 (← patchHandler S req)
  | .deleteToken => do return statusOf 200 (← deleteHandler req)
  | .self => do return statusOf 200 (← S.authenticate (trimSpace req.token))

/-- What the token guards do after the handler. -/
def afterHandler (principal : Principal) (status : ℕ) : AccessSteps Unit :=
  match principal with
  | .token row _ => if status < 400 then TokenService.recordUse row.id req.path else return ()
  | _ => return ()

end

/-- What had happened when a request began: the tokens that were revoked, and the time. -/
structure Begun where
  revoked : List String
  now : ℤ
  deriving Repr, DecidableEq

def Begun.of (w : AccessWorld) : Begun :=
  ⟨(w.tokens.rows.filter fun t => t.revokedAt ≠ none).map AccessToken.id, w.now⟩

/-- What became of a request. -/
inductive HttpOutcome where
  | idle
  | finished
  | aborted
  | notFound
  | refused (route : Route) (e : AccessError)
  | served (begun : Begun) (req : HttpRequest) (route : Route) (principal : Principal)
      (status : ℕ)

section
variable (S : TokenService) (R : Router) (cfg : PanelConfig)

/-- A request whose route is found. -/
def serveRoute (begun : Begun) (req : HttpRequest) (route : Route) : AccessSteps HttpOutcome := do
  match ← runGuards S cfg req .nobody route.guards with
  | .error e => return .refused route e
  | .ok principal =>
      let status ← route.endpoint.serve S req
      afterHandler req principal status
      return .served begun req route principal status

/-- A request, from `CORS` on. -/
def HttpRequest.program (begun : Begun) (req : HttpRequest) : AccessSteps HttpOutcome :=
  if (∃ origin ∈ cfg.corsOrigins, trimSpace origin ≠ "") ∧ req.method = .options then
    return .aborted
  else
    match R.find req.method req.path with
    | none => return .notFound
    | some route => serveRoute S cfg begun req route

/-- What the plugin service asks of the tokens after an enable and after an uninstall. -/
inductive TokenUpkeep where
  | reconcile (pluginID : String) (permissions : List String)
  | revokeAll (pluginID : String)
  deriving Repr, DecidableEq

def TokenUpkeep.program : TokenUpkeep → AccessSteps HttpOutcome
  | .reconcile pluginID permissions => do
      let _ ← TokenService.reconcileAfterSwitch pluginID permissions ""
      return .finished
  | .revokeAll pluginID => do
      let _ ← TokenService.revokeAllForPlugin pluginID ""
      return .finished

abbrev AccessPool := Pool AccessWorld ℕ AccessCall AccessCall.Reply HttpOutcome

/-- A client begins a request or makes its next call, the plugin service changes its table or
has the tokens looked after, or time passes. -/
inductive AccessAction where
  | request (client : ℕ) (req : HttpRequest)
  | upkeep (client : ℕ) (task : TokenUpkeep)
  | call (client : ℕ) (e : Weather)
  | plugins (plugins : Registry)
  | tick (seconds : ℕ)

def accessStep (s : AccessPool) : AccessAction → Option AccessPool
  | .request client req => s.start client (req.program S R cfg (.of s.shared))
  | .upkeep client task => s.start client task.program
  | .call client e => s.call AccessWorld.answer client e
  | .plugins plugins => some { s with shared := { s.shared with plugins := plugins } }
  | .tick seconds => some { s with shared := { s.shared with now := s.shared.now + seconds } }

end

/-- No token was made yet, and no request is under way. -/
def freshAccess (plugins : Registry) (now : ℤ) : AccessPool :=
  ⟨⟨plugins, .empty, fun _ => none, [], now⟩, fun _ => .done .idle⟩

end GoSite.Access
