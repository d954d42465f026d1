import GoSite.Interleaving
import GoSite.PluginLifecycle

/-!
# Integration tokens

A token belongs to a plugin and carries scopes. They are checked against the manifest of
the enabled version when the token is made, and cut down to it when a version is enabled.
Each query is one step, and other requests may come between two of them.
-/
namespace GoSite.Access
open GoStrings Interleaving
open GoSite.Plugin (Registry PluginVersion PluginState)

/-- `PluginAccessToken`, with its scopes decoded. -/
structure AccessToken where
  id : String
  pluginID : String
  createdUnderVersion : String
  label : String
  tokenHash : String
  scopes : List String
  createdByUserID : ℤ
  expiresAt : Option ℤ
  revokedAt : Option ℤ
  lastUsedAt : Option ℤ
  deriving Repr, DecidableEq

/-- What an `UPDATE` of the table sets. -/
inductive TokenChange where
  | scopes (scopes : List String)
  | revokedAt (time : ℤ)
  | lastUsedAt (time : ℤ)
  deriving Repr, DecidableEq

def TokenChange.apply (t : AccessToken) : TokenChange → AccessToken
  | .scopes list => { t with scopes := list }
  | .revokedAt time => { t with revokedAt := some time }
  | .lastUsedAt time => { t with lastUsedAt := some time }

@[simp] theorem TokenChange.apply_id (t : AccessToken) (c : TokenChange) :
    (c.apply t).id = t.id := by cases c <;> rfl

@[simp] theorem TokenChange.apply_pluginID (t : AccessToken) (c : TokenChange) :
    (c.apply t).pluginID = t.pluginID := by cases c <;> rfl

@[simp] theorem TokenChange.apply_tokenHash (t : AccessToken) (c : TokenChange) :
    (c.apply t).tokenHash = t.tokenHash := by cases c <;> rfl

@[simp] theorem TokenChange.apply_expiresAt (t : AccessToken) (c : TokenChange) :
    (c.apply t).expiresAt = t.expiresAt := by cases c <;> rfl

/-- The rows after an `UPDATE` of those that the condition selects. -/
def updateRows (rows : List AccessToken) (which : AccessToken → Bool) (c : TokenChange) :
    List AccessToken :=
  rows.map fun t => if which t then c.apply t else t

theorem updateRows_map_id (rows : List AccessToken) (which : AccessToken → Bool)
    (c : TokenChange) :
    (updateRows rows which c).map AccessToken.id = rows.map AccessToken.id := by
  rw [updateRows, List.map_map]
  refine List.map_congr_left fun t _ => ?_
  simp only [Function.comp_apply]
  split <;> simp

theorem updateRows_map_tokenHash (rows : List AccessToken) (which : AccessToken → Bool)
    (c : TokenChange) :
    (updateRows rows which c).map AccessToken.tokenHash = rows.map AccessToken.tokenHash := by
  rw [updateRows, List.map_map]
  refine List.map_congr_left fun t _ => ?_
  simp only [Function.comp_apply]
  split <;> simp

/-- The table, in the order the rows were created in, with its two unique columns. -/
structure TokenTable where
  rows : List AccessToken
  ids_nodup : (rows.map AccessToken.id).Nodup
  hashes_nodup : (rows.map AccessToken.tokenHash).Nodup

theorem nodup_map_concat {rows : List AccessToken} {f : AccessToken → String} {t : AccessToken}
    (h : (rows.map f).Nodup) (ht : f t ∉ rows.map f) : ((rows ++ [t]).map f).Nodup := by
  rw [List.map_append, List.map_singleton, ← List.concat_eq_append]
  exact h.concat ht

def TokenTable.empty : TokenTable := ⟨[], List.nodup_nil, List.nodup_nil⟩

def TokenTable.update (g : TokenTable) (which : AccessToken → Bool) (c : TokenChange) :
    TokenTable where
  rows := updateRows g.rows which c
  ids_nodup := by
    rw [updateRows_map_id]
    exact g.ids_nodup
  hashes_nodup := by
    rw [updateRows_map_tokenHash]
    exact g.hashes_nodup

/-- `Create`, or what the driver says of the column that is not unique. -/
def TokenTable.create (g : TokenTable) (t : AccessToken) : Except String TokenTable :=
  if hid : t.id ∈ g.rows.map AccessToken.id then
    .error "insert access token: UNIQUE constraint failed: plugin_access_tokens.id"
  else if hhash : t.tokenHash ∈ g.rows.map AccessToken.tokenHash then
    .error "insert access token: UNIQUE constraint failed: plugin_access_tokens.token_hash"
  else
    .ok ⟨g.rows ++ [t], nodup_map_concat g.ids_nodup hid, nodup_map_concat g.hashes_nodup hhash⟩

/-- The row with the id, where it is not revoked. -/
def isActive (id : String) (t : AccessToken) : Bool := t.id = id ∧ t.revokedAt = none

/-- The rows of the plugin that are not revoked. -/
def isActiveOf (pluginID : String) (t : AccessToken) : Bool :=
  t.pluginID = pluginID ∧ t.revokedAt = none

/-- `known`. -/
def knownScopes : List String :=
  ["system:read", "dashboard:read", "ui:read", "websites:read", "websites:write", "ssl:read",
    "ssl:write", "nginx:read", "nginx:manage", "docker:read", "docker:manage", "files:read",
    "files:manage", "mount:read", "mount:manage", "cron:read", "cron:write", "jobs:read",
    "jobs:manage", "query:read", "query:manage", "metrics:read", "settings:write", "plugins:read",
    "plugins:manage", "terminal:manage", "network.outbound", "secrets:receive"]

/-- `Valid`. -/
def validScope (scope : String) : Bool := trimSpace scope ≠ "" ∧ trimSpace scope ∈ knownScopes

/-- The permissions of a manifest, trimmed and without the empty ones. -/
def allowedScopes (permissions : List String) : List String :=
  (permissions.map trimSpace).filter (· ≠ "")

/-- `SubsetOfManifest`. -/
def subsetOfManifest (scopes permissions : List String) : Bool :=
  scopes.all fun s => trimSpace s ≠ "" ∧ trimSpace s ∈ allowedScopes permissions

/-- `HasScope`. -/
def hasScope (scopes : List String) (required : String) : Bool :=
  scopes.any fun s => trimSpace s = required

/-- `Intersect`. -/
def intersectScopes (scopes permissions : List String) : List String :=
  (scopes.map trimSpace).filter fun s => s ≠ "" ∧ s ∈ allowedScopes permissions

inductive AccessCode where
  | unauthorized
  | forbidden
  | sessionExpired
  | basicAuthRequired
  | validation
  | invalidInput
  | conflict
  | notFound
  | database
  | internal
  deriving Repr, DecidableEq

/-- `apperror.Error` with the text of its cause. -/
structure AccessError where
  code : AccessCode
  message : String
  cause : Option String
  deriving Repr, DecidableEq

/-- `apperror.New`. -/
def AccessError.new (code : AccessCode) (message : String) : AccessError := ⟨code, message, none⟩

/-- `apperror.Wrap`. -/
def AccessError.wrap (code : AccessCode) (message cause : String) : AccessError :=
  ⟨code, message, some cause⟩

/-- The loop of `normalizeScopes`, with the scopes kept so far. -/
def normalizeScopesFrom (kept : List String) : List String → Except AccessError (List String)
  | [] => .ok kept
  | scope :: scopes =>
      if trimSpace scope = "" then normalizeScopesFrom kept scopes
      else if ¬ validScope (trimSpace scope) then
        .error (.new .validation ("unknown scope: " ++ trimSpace scope))
      else if trimSpace scope ∈ kept then normalizeScopesFrom kept scopes
      else normalizeScopesFrom (kept ++ [trimSpace scope]) scopes

/-- `normalizeScopes`. -/
def normalizeScopes (scopes : List String) : Except AccessError (List String) :=
  if scopes = [] then .error (.new .validation "at least one scope required")
  else
    match normalizeScopesFrom [] scopes with
    | .error e => .error e
    | .ok out =>
        if out = [] then .error (.new .validation "at least one scope required") else .ok out

/-- `contracts.AuditEntry`, as far as the service fills it in. -/
structure AuditEntry where
  userEmail : String
  action : String
  resourceID : String
  domain : String
  deriving Repr, DecidableEq

/-- Everything the requests share. `plugins` is the table of the plugin service, which
changes it as it likes, and `used` the map of the uses audited last. -/
structure AccessWorld where
  plugins : Registry
  tokens : TokenTable
  used : String → Option ℤ
  audit : List AuditEntry
  now : ℤ

/-- What a call meets: its failure, the random bytes in base64 and the new id, the user of
the session with the email, and the status of the handler. -/
structure Weather where
  fault : Option String := none
  secret : String := ""
  uuid : String := ""
  user : Option ℤ := none
  email : String := ""
  status : ℕ := 200
  deriving Repr, DecidableEq

/-- A query, a reading of the clock, a look at the session store, or the handler. -/
inductive AccessCall where
  | findEnabled (pluginID : String)
  | listPlugins
  | create (token : AccessToken)
  | listByPlugin (pluginID : String)
  | findByID (id : String)
  | findByHash (hash : String)
  | updateScopes (id : String) (scopes : List String)
  | revoke (id : String) (time : ℤ)
  | revokeAll (pluginID : String) (time : ℤ)
  | listActive (pluginID : String)
  | touchLastUsed (id : String) (time : ℤ)
  | recordUse (key : String) (time : ℤ)
  | audit (entry : AuditEntry)
  | clock
  | secret
  | sessionUser (token : String)
  | findUser (userID : ℤ)
  | handler

/-- What a call returns. A row that is not there is no failure. -/
@[reducible] def AccessCall.Reply : AccessCall → Type
  | .findEnabled _ => Except String (Option PluginVersion)
  | .listPlugins => Except String (List PluginVersion)
  | .create _ | .touchLastUsed _ _ | .audit _ => Option String
  | .listByPlugin _ | .listActive _ => Except String (List AccessToken)
  | .findByID _ | .findByHash _ => Except String (Option AccessToken)
  | .updateScopes _ _ | .revoke _ _ => Except String Bool
  | .revokeAll _ _ => Except String ℕ
  | .recordUse _ _ => Bool
  | .clock => ℤ
  | .secret => Except String (String × String)
  | .sessionUser _ => Option ℤ
  | .findUser _ => Except String String
  | .handler => ℕ

/-- A read fails or returns what is there. -/
def readReply {α : Type} (fault : Option String) (a : α) : Except String α :=
  match fault with
  | some e => .error e
  | none => .ok a

/-- An `UPDATE` fails, or changes the rows and says what it returns. -/
def AccessWorld.change {α : Type} (w : AccessWorld) (fault : Option String)
    (which : AccessToken → Bool) (c : TokenChange) (a : α) : AccessWorld × Except String α :=
  match fault with
  | some e => (w, .error e)
  | none => ({ w with tokens := w.tokens.update which c }, .ok a)

/-- `Create` in the world. -/
def AccessWorld.create (w : AccessWorld) (fault : Option String) (t : AccessToken) :
    AccessWorld × Option String :=
  match fault with
  | some e => (w, some e)
  | none =>
      match w.tokens.create t with
      | .error e => (w, some e)
      | .ok g => ({ w with tokens := g }, none)

/-- `TouchLastUsed` in the world. -/
def AccessWorld.touch (w : AccessWorld) (fault : Option String) (id : String) (time : ℤ) :
    AccessWorld × Option String :=
  match fault with
  | some e => (w, some e)
  | none => ({ w with tokens := w.tokens.update (fun t => t.id = id) (.lastUsedAt time) }, none)

/-- The map of the uses, and whether the use is audited. -/
def AccessWorld.recordUse (w : AccessWorld) (key : String) (time : ℤ) : AccessWorld × Bool :=
  if ∃ last ∈ w.used key, time - last < 60 then (w, false)
  else ({ w with used := Function.update w.used key (some time) }, true)

/-- The audit repository. -/
def AccessWorld.write (w : AccessWorld) (fault : Option String) (entry : AuditEntry) :
    AccessWorld × Option String :=
  match fault with
  | some e => (w, some e)
  | none => ({ w with audit := w.audit ++ [entry] }, none)

/-- The world after a call, and what the call returns. -/
def AccessWorld.answer (w : AccessWorld) (e : Weather) : (c : AccessCall) → AccessWorld × c.Reply
  | .findEnabled pluginID => (w, readReply e.fault (w.plugins.findEnabled pluginID))
  | .listPlugins => (w, readReply e.fault w.plugins.rows)
  | .create token => w.create e.fault token
  | .listByPlugin pluginID =>
      (w, readReply e.fault (w.tokens.rows.filter fun t => t.pluginID = pluginID).reverse)
  | .findByID id => (w, readReply e.fault (w.tokens.rows.find? fun t => t.id = id))
  | .findByHash hash => (w, readReply e.fault (w.tokens.rows.find? fun t => t.tokenHash = hash))
  | .updateScopes id scopes =>
      w.change e.fault (isActive id) (.scopes scopes) (w.tokens.rows.any (isActive id))
  | .revoke id time =>
      w.change e.fault (isActive id) (.revokedAt time) (w.tokens.rows.any (isActive id))
  | .revokeAll pluginID time =>
      w.change e.fault (isActiveOf pluginID) (.revokedAt time)
        (w.tokens.rows.countP (isActiveOf pluginID))
  | .listActive pluginID => (w, readReply e.fault (w.tokens.rows.filter (isActiveOf pluginID)))
  | .touchLastUsed id time => w.touch e.fault id time
  | .recordUse key time => w.recordUse key time
  | .audit entry => w.write e.fault entry
  | .clock => (w, w.now)
  | .secret => (w, readReply e.fault (e.uuid, e.secret))
  | .sessionUser _ => (w, e.user)
  | .findUser _ => (w, readReply e.fault e.email)
  | .handler => (w, e.status)

abbrev AccessSteps (α : Type) := Program AccessCall AccessCall.Reply α

abbrev ask (c : AccessCall) : AccessSteps c.Reply := request c

/-- A step that may fail, and what follows where it does not. -/
def orFail {α β ε : Type} (p : AccessSteps (Except ε α))
    (f : α → AccessSteps (Except ε β)) : AccessSteps (Except ε β) := do
  match ← p with
  | .error e => return .error e
  | .ok a => f a

/-- What the service is built from: `hashAccessToken`, and the permissions that
`manifestFromRecord` reads of a version. -/
structure TokenService where
  hash : String → String
  permissions : PluginVersion → List String

def accessTokenPrefix : String := "gs_pat_"

/-- `strings.HasPrefix` of a secret with `accessTokenPrefix`. -/
def hasTokenPrefix (plaintext : String) : Bool :=
  accessTokenPrefix.toList.isPrefixOf plaintext.toList

structure CreateTokenInput where
  label : String
  scopes : List String
  expiresAt : Option ℤ
  deriving Repr, DecidableEq

structure CreateTokenResult where
  token : AccessToken
  plaintext : String
  scopes : List String
  deriving Repr, DecidableEq

namespace TokenService

/-- `auditEvent`, with its error dropped. -/
def auditEvent (actorEmail action resourceID pluginID : String) : AccessSteps Unit := do
  let _ ← ask (.audit ⟨actorEmail, action, resourceID, pluginID⟩)
  return ()

section
variable (S : TokenService)

/-- `enabledManifest`: the version and its permissions. -/
def enabledManifest (pluginID : String) :
    AccessSteps (Except AccessError (PluginVersion × List String)) := do
  match ← ask (.findEnabled pluginID) with
  | .error e => return .error (.wrap .database "find enabled plugin failed" e)
  | .ok none => return .error (.new .conflict "plugin is not enabled")
  | .ok (some enabled) => return .ok (enabled, S.permissions enabled)

/-- The scopes of a request, as the enabled version permits them. -/
def checkedScopes (pluginID : String) (scopes : List String) :
    AccessSteps (Except AccessError (PluginVersion × List String)) :=
  orFail (S.enabledManifest pluginID) fun (enabled, permissions) =>
    orFail (return normalizeScopes scopes) fun normalized =>
      if ¬ subsetOfManifest normalized permissions then
        return .error (.new .validation "scopes exceed manifest permissions")
      else return .ok (enabled, normalized)

/-- `Create` from the secret on. -/
def issue (pluginID : String) (userID : ℤ) (input : CreateTokenInput) (actorEmail : String)
    (enabled : PluginVersion) (scopes : List String) (uuid secret : String) :
    AccessSteps (Except AccessError CreateTokenResult) := do
  let plaintext := accessTokenPrefix ++ secret
  let token : AccessToken :=
    { id := uuid
      pluginID := pluginID
      createdUnderVersion := enabled.version
      label := trimSpace input.label
      tokenHash := S.hash plaintext
      scopes := scopes
      createdByUserID := userID
      expiresAt := input.expiresAt
      revokedAt := none
      lastUsedAt := none }
  match ← ask (.create token) with
  | some e => return .error (.wrap .database "create token failed" e)
  | none =>
      auditEvent actorEmail "integration_token.created" uuid pluginID
      return .ok ⟨token, plaintext, scopes⟩

/-- `Create`. -/
def create (pluginID : String) (userID : ℤ) (input : CreateTokenInput) (actorEmail : String) :
    AccessSteps (Except AccessError CreateTokenResult) :=
  orFail (S.checkedScopes pluginID input.scopes) fun (enabled, scopes) => do
    match ← ask .secret with
    | .error e => return .error (.wrap .internal "generate token failed" e)
    | .ok (uuid, secret) => S.issue pluginID userID input actorEmail enabled scopes uuid secret

end

/-- `anyPluginVersion`: whether some version is not uninstalled. -/
def anyPluginVersion (pluginID : String) : AccessSteps Bool := do
  match ← ask .listPlugins with
  | .error _ => return false
  | .ok rows => return rows.any fun p => p.pluginID = pluginID ∧ p.state ≠ .uninstalled

/-- `List` from its query on. -/
def listRows (pluginID : String) : AccessSteps (Except AccessError (List AccessToken)) := do
  match ← ask (.listByPlugin pluginID) with
  | .error e => return .error (.wrap .database "list tokens failed" e)
  | .ok rows => return .ok rows

/-- `List`. -/
def list (pluginID : String) : AccessSteps (Except AccessError (List AccessToken)) := do
  match ← ask (.findEnabled pluginID) with
  | .error e => return .error (.wrap .database "find plugin failed" e)
  | .ok (some _) => listRows pluginID
  | .ok none =>
      if ← anyPluginVersion pluginID then listRows pluginID
      else return .error (.new .notFound "plugin not found")

/-- The row of the plugin that `UpdateScopes` and `Revoke` begin with. -/
def findOwned (pluginID tokenID : String) : AccessSteps (Except AccessError AccessToken) := do
  match ← ask (.findByID tokenID) with
  | .error e => return .error (.wrap .database "find token failed" e)
  | .ok none => return .error (.new .notFound "token not found")
  | .ok (some row) =>
      if row.pluginID ≠ pluginID then return .error (.new .notFound "token not found")
      else return .ok row

/-- `UpdateScopes` and `Revoke` of the repository read the row again. The service makes of
an error, or of `sql.ErrNoRows`, what the message says. -/
def readAgain (failed tokenID : String) (reply : Except String Bool) :
    AccessSteps (Except AccessError AccessToken) := do
  match reply with
  | .error e => return .error (.wrap .database failed e)
  | .ok false => return .error (.new .notFound "token not found")
  | .ok true =>
      match ← ask (.findByID tokenID) with
      | .error e => return .error (.wrap .database failed e)
      | .ok none => return .error (.new .notFound "token not found")
      | .ok (some row) => return .ok row

section
variable (S : TokenService)

/-- `UpdateScopes` with checked scopes. -/
def storeScopes (pluginID tokenID : String) (scopes : List String) (actorEmail : String) :
    AccessSteps (Except AccessError AccessToken) :=
  orFail (findOwned pluginID tokenID) fun row =>
    if row.revokedAt ≠ none then return .error (.new .conflict "token revoked")
    else do
      let reply ← ask (.updateScopes tokenID scopes)
      orFail (readAgain "update scopes failed" tokenID reply) fun row => do
        auditEvent actorEmail "integration_token.scopes_updated" tokenID pluginID
        return .ok row

/-- `UpdateScopes`. -/
def updateScopes (pluginID tokenID : String) (scopes : List String) (actorEmail : String) :
    AccessSteps (Except AccessError AccessToken) :=
  orFail (S.checkedScopes pluginID scopes) fun (_, normalized) =>
    storeScopes pluginID tokenID normalized actorEmail

end

/-- `Revoke`. -/
def revoke (pluginID tokenID actorEmail : String) :
    AccessSteps (Except AccessError AccessToken) :=
  orFail (findOwned pluginID tokenID) fun _ => do
    let reply ← ask (.revoke tokenID (← ask .clock))
    orFail (readAgain "revoke token failed" tokenID reply) fun row => do
      auditEvent actorEmail "integration_token.revoked" tokenID pluginID
      return .ok row

/-- `authenticatePlaintext` from the row on. -/
def letIn (row : AccessToken) : AccessSteps (Except AccessError (AccessToken × List String)) := do
  if row.revokedAt ≠ none then return .error (.new .unauthorized "token revoked")
  else
    let time ← ask .clock
    if ∃ expiry ∈ row.expiresAt, expiry < time then
      return .error (.new .unauthorized "token expired")
    else
      match ← ask (.findEnabled row.pluginID) with
      | .error e => return .error (.wrap .database "find enabled plugin failed" e)
      | .ok none => return .error (.new .unauthorized "plugin disabled")
      | .ok (some _) => return .ok (row, row.scopes)

section
variable (S : TokenService)

/-- `authenticatePlaintext`, which is `Authenticate` and `Introspect`. -/
def authenticate (plaintext : String) :
    AccessSteps (Except AccessError (AccessToken × List String)) := do
  if ¬ hasTokenPrefix (trimSpace plaintext) then
    return .error (.new .unauthorized "invalid access token")
  else
    match ← ask (.findByHash (S.hash (trimSpace plaintext))) with
    | .error e => return .error (.wrap .database "find token failed" e)
    | .ok none => return .error (.new .unauthorized "invalid access token")
    | .ok (some row) => letIn row

end

/-- `RecordUse`. -/
def recordUse (tokenID route : String) : AccessSteps Unit := do
  let _ ← ask (.touchLastUsed tokenID (← ask .clock))
  if ← ask (.recordUse (tokenID ++ "|" ++ route) (← ask .clock)) then
    auditEvent "" "integration_token.used" tokenID ""
  else return ()

/-- A row of `ReconcileAfterSwitch` whose scopes exceed the permissions. The plugin service
drops the error. -/
def truncate (pluginID : String) (permissions : List String) (actorEmail : String)
    (row : AccessToken) : AccessSteps (Except AccessError Unit) := do
  if intersectScopes row.scopes permissions = [] then
    let reply ← ask (.revoke row.id (← ask .clock))
    orFail (readAgain "" row.id reply) fun _ => do
      auditEvent actorEmail "integration_token.scopes_truncated" row.id pluginID
      auditEvent actorEmail "integration_token.revoked" row.id pluginID
      return .ok ()
  else
    let reply ← ask (.updateScopes row.id (intersectScopes row.scopes permissions))
    orFail (readAgain "" row.id reply) fun _ => do
      auditEvent actorEmail "integration_token.scopes_truncated" row.id pluginID
      return .ok ()

/-- The loop of `ReconcileAfterSwitch`. It stops at the first error. -/
def truncateAll (pluginID : String) (permissions : List String) (actorEmail : String) :
    List AccessToken → AccessSteps (Except AccessError Unit)
  | [] => return .ok ()
  | row :: rows =>
      if subsetOfManifest row.scopes permissions then
        truncateAll pluginID permissions actorEmail rows
      else
        orFail (truncate pluginID permissions actorEmail row) fun _ =>
          truncateAll pluginID permissions actorEmail rows

/-- `ReconcileAfterSwitch`. -/
def reconcileAfterSwitch (pluginID : String) (permissions : List String) (actorEmail : String) :
    AccessSteps (Except AccessError Unit) := do
  match ← ask (.listActive pluginID) with
  | .error e => return .error (.wrap .database "" e)
  | .ok rows => truncateAll pluginID permissions actorEmail rows

/-- `RevokeAllForPlugin`. -/
def revokeAllForPlugin (pluginID actorEmail : String) : AccessSteps (Except AccessError Unit) := do
  match ← ask (.revokeAll pluginID (← ask .clock)) with
  | .error e => return .error (.wrap .database "" e)
  | .ok 0 => return .ok ()
  | .ok _ =>
      auditEvent actorEmail "integration_token.revoked" pluginID pluginID
      return .ok ()

end TokenService

end GoSite.Access
