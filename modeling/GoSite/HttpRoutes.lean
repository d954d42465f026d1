import GoSite.GoStrings

/-!
# The routes of the panel

The table of the routes with what guards each of them, and what a handler reads again from
the path. The router is not part of the repository: it finds a registered route whose
pattern the path has.
-/
namespace GoSite.Access
open GoStrings

inductive Method where
  | get
  | post
  | put
  | patch
  | delete
  | options
  | other (name : String)
  deriving Repr, DecidableEq

/-- A part of a pattern. -/
inductive Segment where
  | text (s : String)
  | param (name : String)
  deriving Repr, DecidableEq

/-- A middleware of a route. -/
inductive Guard where
  | basicAuth
  | session
  | sessionOrToken
  | sessionOnly
  | tokenOnly
  | scope (required : String)
  deriving Repr, DecidableEq

/-- The handlers of the integration tokens, and all others. -/
inductive Endpoint where
  | other
  | listTokens
  | createToken
  | patchToken
  | deleteToken
  | self
  deriving Repr, DecidableEq

/-- What a handler reads again from the path. -/
inductive PathRead where
  | resource (resource : String)
  | container
  | tableName
  | pluginID
  | pluginVersion
  | tokenID
  deriving Repr, DecidableEq

structure Route where
  method : Method
  pattern : List Segment
  guards : List Guard
  reads : List PathRead
  endpoint : Endpoint
  deriving Repr, DecidableEq

open Segment PathRead

/-- A part of a path as the router writes it. -/
def segment : List Char → Segment
  | ':' :: name => param (String.ofList name)
  | s => text (String.ofList s)

/-- A path that begins with a slash. -/
def segments (path : String) : List Segment := ((path.toList.splitOn '/').drop 1).map segment

/-- A route of the group `/api/v1`. -/
def api (method : Method) (path : String) (guards : List Guard) (reads : List PathRead) : Route :=
  ⟨method, text "api" :: text "v1" :: segments path, .basicAuth :: guards, reads, .other⟩

/-- A route of the group `protected` with a scope. -/
def guarded (method : Method) (path required : String) (reads : List PathRead) : Route :=
  api method path [.sessionOrToken, .scope required] reads

/-- A route of the group `sessionOnly`. -/
def sessionOnly (method : Method) (path : String) (reads : List PathRead) : Route :=
  api method path [.sessionOrToken, .sessionOnly] reads

/-- The routes of `authGroup`, and the health check outside of `/api/v1`. -/
def authRoutes : List Route :=
  [⟨.get, [text "health"], [], [], .other⟩,
    api .get "/auth/login" [] [],
    api .post "/auth/login" [] [],
    api .post "/auth/logout" [.session] [],
    api .get "/auth/me" [.session] [],
    api .get "/auth/lockscreen" [.session] [],
    api .post "/auth/lock" [.session] [],
    api .post "/auth/unlock" [.session] []]

/-- `registerDashboardRoutes`, `registerSystemRoutes`, `registerSettingsRoutes`,
`registerLogsRoutes`, `registerDatabaseRoutes` and `registerUIMetaRoutes`. -/
def panelRoutes : List Route :=
  [guarded .get "/dashboard" "dashboard:read" [],
    guarded .get "/system/info" "system:read" [],
    guarded .get "/system/network" "system:read" [],
    guarded .get "/system/disk-io" "system:read" [],
    guarded .get "/system/nginx-traffic" "system:read" [],
    sessionOnly .put "/settings/profile" [],
    guarded .get "/logs/sites" "query:read" [],
    guarded .get "/logs" "query:read" [],
    guarded .get "/database/tables" "query:read" [],
    guarded .get "/database/tables/:name" "query:read" [.tableName],
    guarded .get "/ui/meta" "ui:read" []]

/-- `registerWebsiteRoutes`, `registerNginxRoutes` and `registerSSLRoutes`. -/
def websiteRoutes : List Route :=
  let site := resource "websites"
  [guarded .get "/websites" "websites:read" [],
    guarded .post "/websites" "websites:write" [],
    guarded .post "/websites/validate" "websites:read" [],
    guarded .get "/websites/:id" "websites:read" [site],
    guarded .put "/websites/:id" "websites:write" [site],
    guarded .delete "/websites/:id" "websites:write" [site],
    guarded .patch "/websites/:id/toggle" "websites:write" [site],
    guarded .get "/websites/:id/nginx-config" "websites:read" [site],
    guarded .put "/websites/:id/nginx-config" "websites:write" [site],
    guarded .post "/websites/:id/nginx-config/test" "websites:read" [site],
    guarded .get "/nginx/default" "nginx:read" [],
    guarded .put "/nginx/default" "nginx:manage" [],
    guarded .get "/nginx/global" "nginx:read" [],
    guarded .put "/nginx/global" "nginx:manage" [],
    guarded .post "/nginx/test" "nginx:read" [],
    guarded .post "/nginx/reload" "nginx:manage" [],
    guarded .get "/websites/:id/ssl" "ssl:read" [site],
    guarded .put "/websites/:id/ssl/manual" "ssl:write" [site],
    guarded .post "/websites/:id/ssl/certbot" "ssl:write" [site],
    guarded .get "/websites/:id/ssl/certbot/stream" "ssl:read" []]

/-- `registerDockerRoutes`, `registerFilesRoutes` and `registerMountRoutes`. -/
def hostRoutes : List Route :=
  [guarded .get "/docker/containers" "docker:read" [],
    guarded .post "/docker/containers/:id/restart" "docker:manage" [.container],
    guarded .post "/docker/containers/:id/stop" "docker:manage" [.container],
    guarded .get "/docker/containers/:id/logs" "docker:read" [.container],
    guarded .get "/files" "files:read" [],
    guarded .get "/files/content" "files:read" [],
    guarded .get "/files/raw" "files:read" [],
    guarded .put "/files/content" "files:manage" [],
    guarded .post "/files" "files:manage" [],
    guarded .post "/files/actions" "files:manage" [],
    guarded .post "/files/batch-save" "files:manage" [],
    guarded .post "/files/batch-delete" "files:manage" [],
    guarded .delete "/files" "files:manage" [],
    guarded .get "/mounts" "mount:read" [],
    guarded .post "/mounts" "mount:manage" [],
    guarded .put "/mounts" "mount:manage" [],
    guarded .delete "/mounts" "mount:manage" [],
    guarded .post "/mounts/enable" "mount:manage" []]

/-- `registerCronRoutes`. -/
def cronRoutes : List Route :=
  let cron := resource "cronjobs"
  [guarded .get "/cronjobs" "cron:read" [],
    guarded .post "/cronjobs" "cron:write" [],
    guarded .put "/cronjobs/:id" "cron:write" [cron],
    guarded .delete "/cronjobs/:id" "cron:write" [cron],
    guarded .post "/cronjobs/:id/run" "cron:manage" [cron],
    guarded .get "/cronjobs/:id/run/stream" "cron:read" []]

/-- `registerObservabilityRoutes`. -/
def observabilityRoutes : List Route :=
  [guarded .get "/query/meta" "query:read" [],
    guarded .get "/query" "query:read" [],
    guarded .post "/query" "query:read" [],
    guarded .get "/query/tail" "query:read" [],
    guarded .get "/query/saved" "query:read" [],
    guarded .post "/query/saved" "query:manage" [],
    guarded .patch "/query/saved/:id" "query:manage" [resource "saved"],
    guarded .delete "/query/saved/:id" "query:manage" [resource "saved"],
    guarded .get "/metrics/traffic/series" "metrics:read" [],
    guarded .get "/metrics/traffic/top-sites" "metrics:read" [],
    guarded .get "/metrics/traffic/status-codes" "metrics:read" [],
    guarded .get "/metrics/traffic/summary" "metrics:read" [],
    guarded .get "/metrics/nginx/current" "metrics:read" [],
    guarded .get "/metrics/nginx/series" "metrics:read" [],
    guarded .get "/metrics/nginx/vts/status" "metrics:read" [],
    guarded .get "/metrics/nginx/vts/servers" "metrics:read" [],
    guarded .get "/metrics/nginx/vts/upstreams" "metrics:read" []]

/-- `registerTerminalRoutes`. -/
def terminalRoutes : List Route :=
  [sessionOnly .get "/terminal/ws" [],
    sessionOnly .get "/terminal/sessions" [],
    sessionOnly .get "/terminal/sessions/:id/snapshot" [],
    sessionOnly .delete "/terminal/sessions/:id" []]

/-- `registerPluginPublicRoutes` and `registerPluginRoutes`, with the token's own route. -/
def pluginRoutes : List Route :=
  [guarded .get "/plugins" "plugins:read" [],
    sessionOnly .get "/plugins/catalog" [],
    sessionOnly .get "/plugins/catalog/:vendor/:name" [.pluginID],
    sessionOnly .get "/plugins/install/settings" [],
    sessionOnly .post "/plugins/install/resolve" [],
    sessionOnly .post "/plugins/install" [],
    sessionOnly .post "/plugins/:vendor/:name/enable" [.pluginID],
    sessionOnly .post "/plugins/:vendor/:name/disable" [.pluginID],
    sessionOnly .post "/plugins/:vendor/:name/switch" [.pluginID],
    sessionOnly .post "/plugins/:vendor/:name/restore-bundled" [.pluginID],
    sessionOnly .delete "/plugins/:vendor/:name/versions/:version" [.pluginID, .pluginVersion],
    sessionOnly .get "/plugins/:vendor/:name/versions/:version/config" [.pluginID, .pluginVersion],
    sessionOnly .put "/plugins/:vendor/:name/versions/:version/config" [.pluginID, .pluginVersion],
    sessionOnly .get "/plugins/keyring" [],
    sessionOnly .post "/plugins/keyring" [],
    sessionOnly .delete "/plugins/keyring" [],
    sessionOnly .get "/plugins/permissions/registry" [],
    { sessionOnly .get "/plugins/:vendor/:name/integration-tokens" [.pluginID] with
      endpoint := .listTokens },
    { sessionOnly .post "/plugins/:vendor/:name/integration-tokens" [.pluginID] with
      endpoint := .createToken },
    { sessionOnly .patch "/plugins/:vendor/:name/integration-tokens/:tokenId"
        [.pluginID, .tokenID] with
      endpoint := .patchToken },
    { sessionOnly .delete "/plugins/:vendor/:name/integration-tokens/:tokenId"
        [.pluginID, .tokenID] with
      endpoint := .deleteToken },
    { api .get "/integration-tokens/self" [.tokenOnly] [] with endpoint := .self }]

/-- The routes that `NewRouter` registers. -/
def routes : List Route :=
  authRoutes ++ panelRoutes ++ websiteRoutes ++ hostRoutes ++ cronRoutes ++ observabilityRoutes ++
    terminalRoutes ++ pluginRoutes

/-- The texts between the slashes of a path. -/
def pathParts (path : String) : List String := (path.toList.splitOn '/').map String.ofList

/-- Whether the parts have the pattern. A parameter is any text, but not an empty one at the
end. -/
def matchSegments : List Segment → List String → Bool
  | [], [] => true
  | .text s :: ps, t :: ts => s = t && matchSegments ps ts
  | .param _ :: ps, t :: ts => (ps ≠ [] || t ≠ "") && matchSegments ps ts
  | _, _ => false

/-- The path has the pattern of the route. -/
def Route.matchesPath (r : Route) (path : String) : Bool :=
  match pathParts path with
  | [] => false
  | part :: segs => part = "" && matchSegments r.pattern segs

theorem Route.matchesPath_iff {r : Route} {path : String} :
    r.matchesPath path = true ↔
      ∃ segs, pathParts path = "" :: segs ∧ matchSegments r.pattern segs = true := by
  unfold Route.matchesPath
  cases pathParts path with
  | nil => simp
  | cons part segs =>
      simp only [Bool.and_eq_true, decide_eq_true_eq, List.cons.injEq]
      constructor
      · rintro ⟨rfl, h⟩
        exact ⟨segs, ⟨rfl, rfl⟩, h⟩
      · rintro ⟨segs, ⟨rfl, rfl⟩, h⟩
        exact ⟨rfl, h⟩

/-- The router. Which of several routes it takes is left open. -/
structure Router where
  find : Method → String → Option Route
  registered : ∀ {method path r}, find method path = some r → r ∈ routes
  method_eq : ∀ {method path r}, find method path = some r → r.method = method
  matched : ∀ {method path r}, find method path = some r → r.matchesPath path = true

/-- The parameter of the name. -/
def paramOf (name : String) : List Segment → List String → Option String
  | .param n :: ps, t :: ts => if n = name then some t else paramOf name ps ts
  | .text _ :: ps, _ :: ts => paramOf name ps ts
  | _, _ => none

/-- `strings.Trim(path, "/")`. -/
def trimSlashes (path : List Char) : List Char :=
  (path.dropWhile (· = '/')).rdropWhile (· = '/')

/-- The parts that the handlers look at. -/
def handlerParts (path : String) : List String :=
  ((trimSlashes path.toList).splitOn '/').map String.ofList

/-- A loop over the parts, up to the first place that gives something. -/
def scanParts {α : Type} (f : List String → Option α) : List String → Option α
  | [] => none
  | part :: parts =>
      match f (part :: parts) with
      | some a => some a
      | none => scanParts f parts

/-- What follows the marker, where it is accepted. -/
def afterMarker (marker : String) (accept : String → Option String) : List String → Option String
  | part :: next :: _ => if part = marker then accept next else none
  | _ => none

/-- A text, unless it is blank. -/
def nonBlank (s : String) : Option String := if trimSpace s = "" then none else some (trimSpace s)

/-- `resourceID` up to `parseID`. -/
def resourceText (resource path : String) : Option String :=
  scanParts (afterMarker resource fun next =>
    if resource = "websites" ∧ next = "validate" then none else some next) (handlerParts path)

/-- `containerID`. -/
def containerID (path : String) : Option String :=
  scanParts (afterMarker "containers" some) (handlerParts path)

/-- `tableNameFromPath`. -/
def tableNameFromPath (path : String) : String :=
  (scanParts (afterMarker "tables" some) (handlerParts path)).getD ""

/-- The body of the loop in `pluginIDFromPath`. -/
def pluginAt : List String → Option String
  | part :: vendor :: name :: _ =>
      if part = "plugins" ∧ trimSpace vendor ≠ "" ∧ trimSpace name ≠ "" then
        some (trimSpace vendor ++ "/" ++ trimSpace name)
      else none
  | _ => none

/-- `pluginIDFromPath`, with the `id` of the query. -/
def pluginIDFromPath (path queryID : String) : Option String :=
  match scanParts pluginAt (handlerParts path) with
  | some id => some id
  | none => nonBlank queryID

/-- `pluginVersionFromPath`, with the `version` of the query. -/
def pluginVersionFromPath (path queryVersion : String) : String :=
  let accept next := some (trimSpace next)
  match scanParts (afterMarker "versions" accept) (handlerParts path) with
  | some version => version
  | none => trimSpace queryVersion

/-- `integrationTokenIDFromPath`. -/
def integrationTokenIDFromPath (path : String) : Option String :=
  scanParts (afterMarker "integration-tokens" nonBlank) (handlerParts path)

/-- What a handler makes of the path and the query. -/
def PathRead.fromPath (path queryID queryVersion : String) : PathRead → Option String
  | .resource name => resourceText name path
  | .container => containerID path
  | .tableName => some (tableNameFromPath path)
  | .pluginID => pluginIDFromPath path queryID
  | .pluginVersion => some (pluginVersionFromPath path queryVersion)
  | .tokenID => integrationTokenIDFromPath path

/-- What the route names. -/
def PathRead.named (pattern : List Segment) (segs : List String) : PathRead → Option String
  | .resource _ | .container => paramOf "id" pattern segs
  | .tableName => paramOf "name" pattern segs
  | .pluginID => do
      let vendor ← nonBlank (← paramOf "vendor" pattern segs)
      let name ← nonBlank (← paramOf "name" pattern segs)
      return vendor ++ "/" ++ name
  | .pluginVersion => return trimSpace (← paramOf "version" pattern segs)
  | .tokenID => do nonBlank (← paramOf "tokenId" pattern segs)

/-- What the route names is not what the handler reads: a site called `validate`, a parameter
that is the marker of the one after it, and every entry of the catalog but one. -/
def PathRead.Astray (pattern : List Segment) (segs : List String) : PathRead → Prop
  | .resource name => name = "websites" ∧ paramOf "id" pattern segs = some "validate"
  | .container | .tableName => False
  | .pluginID =>
      text "catalog" ∈ pattern ∧ PathRead.pluginID.named pattern segs ≠ some "catalog/catalog"
  | .pluginVersion => ∃ vendor ∈ paramOf "vendor" pattern segs,
      ∃ name ∈ paramOf "name" pattern segs, ∃ version ∈ paramOf "version" pattern segs,
        vendor = "versions" ∧ trimSpace name ≠ trimSpace version ∨
          vendor ≠ "versions" ∧ name = "versions" ∧ trimSpace version ≠ "versions"
  | .tokenID => ∃ vendor ∈ paramOf "vendor" pattern segs,
      ∃ name ∈ paramOf "name" pattern segs, ∃ id ∈ paramOf "tokenId" pattern segs,
        vendor = "integration-tokens" ∧ trimSpace name ≠ "" ∧ trimSpace name ≠ trimSpace id ∨
          vendor ≠ "integration-tokens" ∧ name = "integration-tokens" ∧
            trimSpace id ≠ "integration-tokens"

theorem splitOn_of_pathParts {path : String} {segs : List String}
    (h : pathParts path = "" :: segs) :
    path.toList.splitOn '/' = [] :: segs.map String.toList := by
  have hparts := congrArg (List.map String.toList) h
  simpa [pathParts, Function.comp_def] using hparts

theorem slash_not_mem {path : String} {segs : List String} (h : pathParts path = "" :: segs) :
    ∀ s ∈ segs.map String.toList, '/' ∉ s := by
  intro s hs
  have hmem : s ∈ path.toList.splitOn '/' := by
    rw [splitOn_of_pathParts h]
    exact List.mem_cons_of_mem _ hs
  exact not_mem_of_mem_splitOn hmem

@[simp] theorem matchSegments_nil (segs : List String) :
    matchSegments [] segs = true ↔ segs = [] := by
  cases segs <;> simp [matchSegments]

@[simp] theorem matchSegments_text (s : String) (ps : List Segment) (segs : List String) :
    matchSegments (text s :: ps) segs = true ↔
      ∃ ts, segs = s :: ts ∧ matchSegments ps ts = true := by
  cases segs with
  | nil => simp [matchSegments]
  | cons t ts =>
      simp only [matchSegments, Bool.and_eq_true, decide_eq_true_eq, List.cons.injEq]
      constructor
      · rintro ⟨rfl, h⟩
        exact ⟨ts, ⟨rfl, rfl⟩, h⟩
      · rintro ⟨ts, ⟨rfl, rfl⟩, h⟩
        exact ⟨rfl, h⟩

@[simp] theorem matchSegments_param (n : String) (ps : List Segment) (segs : List String) :
    matchSegments (param n :: ps) segs = true ↔
      ∃ t ts, segs = t :: ts ∧ (ps ≠ [] ∨ t ≠ "") ∧ matchSegments ps ts = true := by
  cases segs with
  | nil => simp [matchSegments]
  | cons t ts =>
      simp only [matchSegments, Bool.and_eq_true, Bool.or_eq_true, decide_eq_true_eq,
        List.cons.injEq]
      constructor
      · rintro ⟨ht, h⟩
        exact ⟨t, ts, ⟨rfl, rfl⟩, ht, h⟩
      · rintro ⟨t, ts, ⟨rfl, rfl⟩, ht, h⟩
        exact ⟨ht, h⟩

/-- The parts of a path end in a text that is not empty. -/
theorem matchSegments_getLast {ps : List Segment} {segs : List String}
    (h : matchSegments ps segs = true) (hps : ps ≠ []) (htext : text "" ∉ ps) :
    ∃ last ∈ segs.getLast?, last ≠ "" := by
  induction ps generalizing segs with
  | nil => exact absurd rfl hps
  | cons p ps ih =>
      by_cases hnil : ps = []
      · subst hnil
        cases p with
        | text s =>
            obtain ⟨ts, rfl, hts⟩ := (matchSegments_text ..).mp h
            obtain rfl := (matchSegments_nil ts).mp hts
            exact ⟨s, rfl, by rintro rfl; exact htext List.mem_cons_self⟩
        | param n =>
            obtain ⟨t, ts, rfl, ht, hts⟩ := (matchSegments_param ..).mp h
            obtain rfl := (matchSegments_nil ts).mp hts
            exact ⟨t, rfl, ht.resolve_left (by simp)⟩
      · have hrest : ∃ t ts, segs = t :: ts ∧ matchSegments ps ts = true := by
          cases p with
          | text s =>
              obtain ⟨ts, rfl, hts⟩ := (matchSegments_text ..).mp h
              exact ⟨s, ts, rfl, hts⟩
          | param n =>
              obtain ⟨t, ts, rfl, -, hts⟩ := (matchSegments_param ..).mp h
              exact ⟨t, ts, rfl, hts⟩
        obtain ⟨t, ts, rfl, hts⟩ := hrest
        obtain ⟨last, hlast, hne⟩ := ih hts hnil fun hmem => htext (List.mem_cons_of_mem _ hmem)
        refine ⟨last, ?_, hne⟩
        cases ts with
        | nil => simp at hlast
        | cons u us => simpa using hlast

/-- The last code point of joined parts is that of the last part. -/
theorem getLast?_intercalate {segs : List (List Char)} {last : List Char} {c : Char}
    (hlast : last ∈ segs.getLast?) (hc : c ∈ last.getLast?) :
    c ∈ (['/'].intercalate segs).getLast? := by
  induction segs with
  | nil => simp at hlast
  | cons s segs ih =>
      cases segs with
      | nil =>
          obtain rfl : s = last := by simpa using hlast
          simpa [List.intercalate] using hc
      | cons t ts =>
          have hrest := ih (by simpa using hlast)
          rw [Option.mem_def] at hrest ⊢
          rw [List.intercalate_cons_cons, List.getLast?_append, List.getLast?_append, hrest]
          rfl

theorem trimSlashes_path {first : List Char} {segs : List (List Char)} {last : List Char}
    (hslash : ∀ s ∈ first :: segs, '/' ∉ s) (hfirst : first ≠ [])
    (hlast : last ∈ (first :: segs).getLast?) (hne : last ≠ []) :
    trimSlashes ('/' :: ['/'].intercalate (first :: segs)) = ['/'].intercalate (first :: segs) := by
  have hmem : last ∈ first :: segs := List.mem_of_getLast? hlast
  obtain ⟨c, hc⟩ : ∃ c, c ∈ last.getLast? := by
    cases hget : last.getLast? with
    | none => exact absurd (List.getLast?_eq_none_iff.mp hget) hne
    | some c => exact ⟨c, rfl⟩
  have hcslash : c ≠ '/' := by
    rintro rfl
    exact hslash last hmem (List.mem_of_getLast? hc)
  obtain ⟨init, hinit⟩ := List.getLast?_eq_some_iff.mp (getLast?_intercalate hlast hc)
  obtain ⟨d, first, rfl⟩ := List.exists_cons_of_ne_nil hfirst
  have hdslash : d ≠ '/' := by
    rintro rfl
    exact hslash _ List.mem_cons_self List.mem_cons_self
  obtain ⟨rest, hrest⟩ : ∃ rest, ['/'].intercalate ((d :: first) :: segs) = d :: rest := by
    cases segs with
    | nil => exact ⟨first, by simp [List.intercalate]⟩
    | cons t ts => exact ⟨_, by rw [List.intercalate_cons_cons]; rfl⟩
  have hdrop : ('/' :: ['/'].intercalate ((d :: first) :: segs)).dropWhile (· = '/') =
      ['/'].intercalate ((d :: first) :: segs) := by
    rw [List.dropWhile_cons_of_pos (by simp), hrest, List.dropWhile_cons_of_neg (by simpa)]
  rw [trimSlashes, hdrop, hinit, List.rdropWhile_concat_neg _ _ _ (by simpa)]

/-- The handlers see the parts that the router matched. -/
theorem handlerParts_eq {path first last : String} {segs : List String}
    (h : pathParts path = "" :: first :: segs) (hfirst : first ≠ "")
    (hlast : last ∈ (first :: segs).getLast?) (hne : last ≠ "") :
    handlerParts path = first :: segs := by
  have hslash := slash_not_mem h
  have hsplit := splitOn_of_pathParts h
  have hpath : path.toList = '/' :: ['/'].intercalate ((first :: segs).map String.toList) := by
    have hjoin : ['/'].intercalate (path.toList.splitOn '/') = path.toList :=
      List.intercalate_splitOn '/'
    rw [hsplit, List.map_cons, List.intercalate_cons_cons] at hjoin
    exact hjoin.symm
  have hlast : last.toList ∈ ((first :: segs).map String.toList).getLast? := by
    rw [List.getLast?_map]
    exact Option.mem_map_of_mem _ hlast
  have htrim := trimSlashes_path hslash (by simpa using hfirst) hlast (by simpa using hne)
  rw [handlerParts, hpath, List.map_cons, htrim, ← List.map_cons,
    List.splitOn_intercalate _ hslash (by simp)]
  simp [Function.comp_def]

/-- A pattern of the table: it begins with a text, and no text is empty. -/
def WellFormed (pattern : List Segment) : Prop :=
  pattern.head? ∈ [some (text "api"), some (text "health")] ∧ text "" ∉ pattern

instance (pattern : List Segment) : Decidable (WellFormed pattern) := by
  unfold WellFormed
  infer_instance

theorem routes_wellFormed : ∀ r ∈ routes, WellFormed r.pattern := by decide +kernel

theorem handlerParts_of_match {r : Route} {path : String} {segs : List String} (hr : r ∈ routes)
    (hpath : pathParts path = "" :: segs) (h : matchSegments r.pattern segs = true) :
    handlerParts path = segs := by
  obtain ⟨hhead, htext⟩ := routes_wellFormed r hr
  cases hpattern : r.pattern with
  | nil => simp [hpattern] at hhead
  | cons p ps =>
      rw [hpattern] at hhead htext h
      obtain ⟨last, hlast, hne⟩ := matchSegments_getLast h (by simp) htext
      obtain ⟨s, hs, rfl⟩ : ∃ s, s ≠ "" ∧ p = text s := by
        obtain hp | hp : p = text "api" ∨ p = text "health" := by simpa using hhead
        · exact ⟨"api", by decide, hp⟩
        · exact ⟨"health", by decide, hp⟩
      obtain ⟨ts, rfl, -⟩ := (matchSegments_text ..).mp h
      exact handlerParts_eq hpath hs hlast hne

/-- Where the parameters that a handler reads stand in its pattern. -/
def PathRead.Placed (pattern : List Segment) : PathRead → Prop
  | .resource name => name ∉ ["api", "v1", "query"] ∧
      (pattern = [text "api", text "v1", text "query", text name, param "id"] ∨
        pattern.take 4 = [text "api", text "v1", text name, param "id"])
  | .container => pattern.take 5 =
      [text "api", text "v1", text "docker", text "containers", param "id"]
  | .tableName => pattern =
      [text "api", text "v1", text "database", text "tables", param "name"]
  | .pluginID =>
      pattern = [text "api", text "v1", text "plugins", text "catalog", param "vendor",
        param "name"] ∨
      pattern.take 5 = [text "api", text "v1", text "plugins", param "vendor", param "name"] ∧
        text "catalog" ∉ pattern
  | .pluginVersion => pattern.take 7 = [text "api", text "v1", text "plugins", param "vendor",
      param "name", text "versions", param "version"]
  | .tokenID => pattern = [text "api", text "v1", text "plugins", param "vendor", param "name",
      text "integration-tokens", param "tokenId"]

instance (pattern : List Segment) : (read : PathRead) → Decidable (read.Placed pattern)
  | .resource _ => inferInstanceAs (Decidable (_ ∧ _))
  | .container | .tableName | .pluginVersion | .tokenID => inferInstanceAs (Decidable (_ = _))
  | .pluginID => inferInstanceAs (Decidable (_ ∨ _))

theorem routes_placed : ∀ r ∈ routes, ∀ read ∈ r.reads, read.Placed r.pattern := by
  decide +kernel

theorem eq_append_of_take {pattern pre : List Segment} {n : ℕ} (h : pattern.take n = pre) :
    pattern = pre ++ pattern.drop n := by
  rw [← h, List.take_append_drop]

section
variable {marker : String} {accept : String → Option String}

theorem scanParts_some {α : Type} {f : List String → Option α} {part : String}
    {parts : List String} {a : α} (h : f (part :: parts) = some a) :
    scanParts f (part :: parts) = some a := by
  rw [scanParts, h]

theorem scanParts_none {α : Type} {f : List String → Option α} {part : String}
    {parts : List String} (h : f (part :: parts) = none) :
    scanParts f (part :: parts) = scanParts f parts := by
  rw [scanParts, h]

/-- A part that is not the marker is passed over. -/
theorem scanParts_skip {part : String} {parts : List String} (h : part ≠ marker) :
    scanParts (afterMarker marker accept) (part :: parts) =
      scanParts (afterMarker marker accept) parts := by
  refine scanParts_none ?_
  cases parts with
  | nil => rfl
  | cons next rest => exact if_neg h

theorem scanParts_marker {next a : String} {rest : List String} (h : accept next = some a) :
    scanParts (afterMarker marker accept) (marker :: next :: rest) = some a :=
  scanParts_some ((if_pos rfl).trans h)

theorem scanParts_refused {next : String} {rest : List String} (h : accept next = none) :
    scanParts (afterMarker marker accept) (marker :: next :: rest) =
      scanParts (afterMarker marker accept) (next :: rest) :=
  scanParts_none ((if_pos rfl).trans h)

/-- What the loop gives was accepted. -/
theorem accept_of_scanParts {parts : List String} {a : String}
    (h : scanParts (afterMarker marker accept) parts = some a) :
    ∃ next, accept next = some a := by
  induction parts with
  | nil => cases h
  | cons part parts ih =>
      by_cases hpart : part = marker
      · subst hpart
        cases parts with
        | nil => cases h
        | cons next rest =>
            cases haccept : accept next with
            | none => exact ih (h ▸ (scanParts_refused haccept).symm)
            | some b =>
                rw [scanParts_marker haccept] at h
                exact ⟨next, haccept.trans h⟩
      · exact ih (scanParts_skip hpart ▸ h)

end

theorem nonBlank_eq_some {s t : String} :
    nonBlank s = some t ↔ trimSpace s ≠ "" ∧ trimSpace s = t := by
  rw [nonBlank]
  split_ifs with h <;> simp [h]

section
variable {pattern : List Segment} {segs : List String} {path id : String}

/-- The loop of `resourceID` comes to the parameter of the route. -/
theorem scanParts_resource {name : String} (hplaced : (PathRead.resource name).Placed pattern)
    (h : matchSegments pattern segs = true) (accept : String → Option String) :
    ∃ id rest, paramOf "id" pattern segs = some id ∧
      scanParts (afterMarker name accept) segs =
        scanParts (afterMarker name accept) (name :: id :: rest) := by
  obtain ⟨hname, hpattern | hpattern⟩ := hplaced
  · simp only [List.mem_cons, List.not_mem_nil, or_false, not_or] at hname
    obtain ⟨hapi, hv, hquery⟩ := hname
    subst hpattern
    simp only [matchSegments_text, matchSegments_param] at h
    obtain ⟨_, rfl, _, rfl, _, rfl, _, rfl, id, rest, rfl, -, -⟩ := h
    refine ⟨id, rest, rfl, ?_⟩
    rw [scanParts_skip (Ne.symm hapi), scanParts_skip (Ne.symm hv),
      scanParts_skip (Ne.symm hquery)]
  · simp only [List.mem_cons, List.not_mem_nil, or_false, not_or] at hname
    obtain ⟨hapi, hv, -⟩ := hname
    rw [eq_append_of_take hpattern] at h ⊢
    simp only [List.cons_append, List.nil_append, matchSegments_text, matchSegments_param] at h
    obtain ⟨_, rfl, _, rfl, _, rfl, id, rest, rfl, -, -⟩ := h
    refine ⟨id, rest, rfl, ?_⟩
    rw [scanParts_skip (Ne.symm hapi), scanParts_skip (Ne.symm hv)]

theorem resource_read {name : String} (hparts : handlerParts path = segs)
    (hplaced : (PathRead.resource name).Placed pattern) (h : matchSegments pattern segs = true)
    (hnamed : paramOf "id" pattern segs = some id) :
    resourceText name path = some id ↔ ¬ (PathRead.resource name).Astray pattern segs := by
  rw [resourceText, hparts, PathRead.Astray, hnamed, Option.some_inj]
  by_cases hvalidate : name = "websites" ∧ id = "validate"
  · refine iff_of_false (fun hread => ?_) (not_not_intro hvalidate)
    obtain ⟨next, hnext⟩ := accept_of_scanParts hread
    split_ifs at hnext with hif
    rw [Option.some_inj] at hnext
    exact hif (hnext ▸ hvalidate)
  · refine iff_of_true ?_ hvalidate
    obtain ⟨id', rest, hid, hscan⟩ := scanParts_resource hplaced h fun next =>
      if name = "websites" ∧ next = "validate" then none else some next
    obtain rfl : id' = id := by rwa [hnamed, Option.some_inj, eq_comm] at hid
    rw [hscan, scanParts_marker (if_neg hvalidate)]

theorem container_read (hparts : handlerParts path = segs)
    (hplaced : PathRead.container.Placed pattern) (h : matchSegments pattern segs = true)
    (hnamed : paramOf "id" pattern segs = some id) : containerID path = some id := by
  rw [eq_append_of_take hplaced] at h hnamed
  simp only [List.cons_append, List.nil_append, matchSegments_text, matchSegments_param] at h
  obtain ⟨_, rfl, _, rfl, _, rfl, _, rfl, id', rest, rfl, -, -⟩ := h
  obtain rfl : id' = id := Option.some_inj.mp hnamed
  rw [containerID, hparts, scanParts_skip (by decide), scanParts_skip (by decide),
    scanParts_skip (by decide), scanParts_marker rfl]

theorem tableName_read (hparts : handlerParts path = segs)
    (hplaced : PathRead.tableName.Placed pattern) (h : matchSegments pattern segs = true)
    (hnamed : paramOf "name" pattern segs = some id) : tableNameFromPath path = id := by
  obtain rfl := hplaced
  simp only [matchSegments_text, matchSegments_param] at h
  obtain ⟨_, rfl, _, rfl, _, rfl, _, rfl, id', rest, rfl, -, -⟩ := h
  obtain rfl : id' = id := Option.some_inj.mp hnamed
  rw [tableNameFromPath, hparts, scanParts_skip (by decide), scanParts_skip (by decide),
    scanParts_skip (by decide), scanParts_marker rfl]
  rfl

/-- A pattern of a plugin, and the parts that have it. -/
theorem parts_of_plugin {rest : List Segment}
    (h : matchSegments (text "api" :: text "v1" :: text "plugins" :: param "vendor" ::
      param "name" :: rest) segs = true) :
    ∃ vendor name parts, segs = "api" :: "v1" :: "plugins" :: vendor :: name :: parts ∧
      matchSegments rest parts = true := by
  simp only [matchSegments_text, matchSegments_param] at h
  obtain ⟨_, rfl, _, rfl, _, rfl, vendor, _, rfl, -, name, parts, rfl, -, hrest⟩ := h
  exact ⟨vendor, name, parts, rfl, hrest⟩

theorem version_read {version query : String} (hparts : handlerParts path = segs)
    (hplaced : PathRead.pluginVersion.Placed pattern) (h : matchSegments pattern segs = true)
    (hnamed : PathRead.pluginVersion.named pattern segs = some version) :
    pluginVersionFromPath path query = version ↔ ¬ PathRead.pluginVersion.Astray pattern segs := by
  have hpattern := eq_append_of_take hplaced
  rw [hpattern] at h hnamed ⊢
  simp only [List.cons_append, List.nil_append] at h
  obtain ⟨vendor, name, parts, rfl, hrest⟩ := parts_of_plugin h
  simp only [matchSegments_text, matchSegments_param] at hrest
  obtain ⟨_, rfl, ver, rest, rfl, -, -⟩ := hrest
  obtain rfl : trimSpace ver = version := Option.some_inj.mp hnamed
  have hastray : PathRead.pluginVersion.Astray
      ([text "api", text "v1", text "plugins", param "vendor", param "name", text "versions",
        param "version"] ++ pattern.drop 7)
      ("api" :: "v1" :: "plugins" :: vendor :: name :: "versions" :: ver :: rest) ↔
      vendor = "versions" ∧ trimSpace name ≠ trimSpace ver ∨
        vendor ≠ "versions" ∧ name = "versions" ∧ trimSpace ver ≠ "versions" := by
    simp [PathRead.Astray, paramOf]
  have hmarker : ∀ next parts, scanParts (afterMarker "versions" fun next => some (trimSpace next))
      ("versions" :: next :: parts) = some (trimSpace next) := fun _ _ => scanParts_marker rfl
  rw [hastray, pluginVersionFromPath, hparts, scanParts_skip (by decide),
    scanParts_skip (by decide), scanParts_skip (by decide)]
  by_cases hvendor : vendor = "versions"
  · subst hvendor
    rw [hmarker]
    simp
  · rw [scanParts_skip hvendor]
    by_cases hname : name = "versions"
    · subst hname
      have hcomm : "versions" = trimSpace ver ↔ trimSpace ver = "versions" := eq_comm
      rw [hmarker, show trimSpace "versions" = "versions" by decide]
      simp [hvendor, hcomm]
    · rw [scanParts_skip hname, hmarker]
      simp [hvendor, hname]

theorem tokenID_read (hparts : handlerParts path = segs)
    (hplaced : PathRead.tokenID.Placed pattern) (h : matchSegments pattern segs = true)
    (hnamed : PathRead.tokenID.named pattern segs = some id) :
    integrationTokenIDFromPath path = some id ↔ ¬ PathRead.tokenID.Astray pattern segs := by
  obtain rfl := hplaced
  obtain ⟨vendor, name, parts, rfl, hrest⟩ := parts_of_plugin h
  simp only [matchSegments_text, matchSegments_param] at hrest
  obtain ⟨_, rfl, token, rest, rfl, -, -⟩ := hrest
  have htoken : nonBlank token = some id := hnamed
  obtain ⟨hblank, rfl⟩ := nonBlank_eq_some.mp htoken
  have hastray : PathRead.tokenID.Astray
      [text "api", text "v1", text "plugins", param "vendor", param "name",
        text "integration-tokens", param "tokenId"]
      ("api" :: "v1" :: "plugins" :: vendor :: name :: "integration-tokens" :: token :: rest) ↔
      vendor = "integration-tokens" ∧ trimSpace name ≠ "" ∧ trimSpace name ≠ trimSpace token ∨
        vendor ≠ "integration-tokens" ∧ name = "integration-tokens" ∧
          trimSpace token ≠ "integration-tokens" := by
    simp [PathRead.Astray, paramOf]
  rw [hastray, integrationTokenIDFromPath, hparts, scanParts_skip (by decide),
    scanParts_skip (by decide), scanParts_skip (by decide)]
  by_cases hvendor : vendor = "integration-tokens"
  · subst hvendor
    by_cases hname : trimSpace name = ""
    · have hne : name ≠ "integration-tokens" := by
        rintro rfl
        exact absurd hname (by decide)
      rw [scanParts_refused (by rw [nonBlank, if_pos hname]), scanParts_skip hne,
        scanParts_marker htoken]
      simp [hname]
    · rw [scanParts_marker (a := trimSpace name) (nonBlank_eq_some.mpr ⟨hname, rfl⟩)]
      simp [hname]
  · rw [scanParts_skip hvendor]
    by_cases hname : name = "integration-tokens"
    · subst hname
      have hcomm : "integration-tokens" = trimSpace token ↔
          trimSpace token = "integration-tokens" := eq_comm
      rw [scanParts_marker (a := "integration-tokens") (by decide)]
      simp [hvendor, hcomm]
    · rw [scanParts_skip hname, scanParts_marker htoken]
      simp [hvendor, hname]

/-- Two texts joined with a slash are read back where they have none. -/
theorem join_inj {a b c d : String} (ha : '/' ∉ a.toList) (hb : '/' ∉ b.toList) :
    a ++ "/" ++ b = c ++ "/" ++ d ↔ a = c ∧ b = d := by
  have hslash : "/".toList = ['/'] := rfl
  rw [← String.toList_inj]
  simp only [String.toList_append, hslash, List.append_assoc, List.cons_append, List.nil_append]
  rw [List.append_cons_inj_of_notMem ha hb]
  simp [String.toList_inj]

theorem slash_not_mem_trimSpace {s : String} (h : '/' ∉ s.toList) :
    '/' ∉ (trimSpace s).toList := by
  rw [trimSpace, String.toList_ofList]
  exact fun hmem => h ((trimSpaceChars_sublist _).mem hmem)

theorem named_pluginID {vendor name : String}
    (hvendor : paramOf "vendor" pattern segs = some vendor)
    (hname : paramOf "name" pattern segs = some name) :
    PathRead.pluginID.named pattern segs = some id ↔
      trimSpace vendor ≠ "" ∧ trimSpace name ≠ "" ∧
        trimSpace vendor ++ "/" ++ trimSpace name = id := by
  simp only [PathRead.named, hvendor, hname, nonBlank, Option.bind_eq_bind, Option.bind_some,
    Option.pure_def]
  split_ifs with hv hn <;> simp [*]

/-- The loop of `pluginIDFromPath` takes the two parts after `plugins`. -/
theorem pluginIDFromPath_eq {vendor name query : String} {rest : List String}
    (hparts : handlerParts path = "api" :: "v1" :: "plugins" :: vendor :: name :: rest)
    (hvendor : trimSpace vendor ≠ "") (hname : trimSpace name ≠ "") :
    pluginIDFromPath path query = some (trimSpace vendor ++ "/" ++ trimSpace name) := by
  have hapi : pluginAt ("api" :: "v1" :: "plugins" :: vendor :: name :: rest) = none := rfl
  have hv : pluginAt ("v1" :: "plugins" :: vendor :: name :: rest) = none := rfl
  have hfound : pluginAt ("plugins" :: vendor :: name :: rest) =
      some (trimSpace vendor ++ "/" ++ trimSpace name) := if_pos ⟨rfl, hvendor, hname⟩
  rw [pluginIDFromPath, hparts, scanParts_none hapi, scanParts_none hv, scanParts_some hfound]

theorem plugin_read {query : String} (hpath : pathParts path = "" :: segs)
    (hparts : handlerParts path = segs) (hplaced : PathRead.pluginID.Placed pattern)
    (h : matchSegments pattern segs = true)
    (hnamed : PathRead.pluginID.named pattern segs = some id) :
    pluginIDFromPath path query = some id ↔ ¬ PathRead.pluginID.Astray pattern segs := by
  obtain hpattern | ⟨hpattern, hcatalog⟩ := hplaced
  · rw [PathRead.Astray, hnamed]
    subst hpattern
    simp only [matchSegments_text, matchSegments_param] at h
    obtain ⟨_, rfl, _, rfl, _, rfl, _, rfl, vendor, _, rfl, -, name, rest, rfl, -, -⟩ := h
    obtain ⟨hvendor, hname, rfl⟩ := (named_pluginID rfl rfl).mp hnamed
    have hslash := slash_not_mem hpath
    have hv := slash_not_mem_trimSpace (hslash vendor.toList (by simp))
    have hn := slash_not_mem_trimSpace (hslash name.toList (by simp))
    have hcatalog : trimSpace vendor ++ "/" ++ trimSpace name = "catalog/catalog" ↔
        trimSpace vendor = "catalog" ∧ trimSpace name = "catalog" := by
      rw [← join_inj hv hn]
      rfl
    rw [pluginIDFromPath_eq hparts (by decide) hvendor,
      show trimSpace "catalog" = "catalog" by decide, Option.some_inj, eq_comm, join_inj hv hn,
      Ne, Option.some_inj, hcatalog]
    constructor
    · rintro ⟨hv, hn⟩ ⟨-, hne⟩
      exact hne ⟨hv, hn.trans hv⟩
    · intro hne
      obtain ⟨hv, hn⟩ := not_not.mp fun h => hne ⟨by simp, h⟩
      exact ⟨hv, hn.trans hv.symm⟩
  · rw [eq_append_of_take hpattern] at h hnamed
    simp only [List.cons_append, List.nil_append] at h hnamed
    obtain ⟨vendor, name, parts, rfl, -⟩ := parts_of_plugin h
    obtain ⟨hvendor, hname, rfl⟩ := (named_pluginID rfl rfl).mp hnamed
    rw [pluginIDFromPath_eq hparts hvendor hname]
    exact iff_of_true rfl fun hastray => hcatalog hastray.1

end

theorem find_spec {method : Method} {path : String} {r : Route}
    (h : routes.find? (fun r => r.method = method && r.matchesPath path) = some r) :
    r.method = method ∧ r.matchesPath path = true := by
  have hr := List.find?_some h
  simpa using hr

/-- The router that takes the first route of the table. -/
def firstRoute : Router where
  find method path := routes.find? fun r => r.method = method && r.matchesPath path
  registered h := List.mem_of_find?_eq_some h
  method_eq h := (find_spec h).1
  matched h := (find_spec h).2

end GoSite.Access
