import GoSite.SiteConfigs

/-!
# The website service

A website is a row and up to two files. Every operation writes them in an order
of its own and undoes some of its steps when a later one fails.
-/
namespace GoSite.Website
open GoStrings
open GoSite.Terminal (cleanPath joinPath)

def websiteTypeStatic : String := "static"
def websiteTypeProxy : String := "proxy"

/-- A row of `websites`. -/
structure Website where
  id : ℕ
  name : String
  domain : String
  path : String
  type : String
  upstream : String
  ssl : Bool
  config : String
  active : Bool
  updatedAt : ℤ
  deriving Repr, DecidableEq

/-- The table. Ids are given out once. -/
structure WebsiteRepository where
  rows : List Website
  nextID : ℕ
  nodup : (rows.map Website.id).Nodup
  below : ∀ r ∈ rows, r.id < nextID

def WebsiteRepository.empty : WebsiteRepository := ⟨[], 1, List.nodup_nil, by simp⟩

/-- `FindByID`. -/
def WebsiteRepository.findByID (g : WebsiteRepository) (id : ℕ) : Option Website :=
  g.rows.find? fun r => r.id = id

/-- `ExistsPathForOther`. -/
def WebsiteRepository.existsPathForOther (g : WebsiteRepository) (path : String)
    (excludeID : ℕ) : Bool :=
  g.rows.any fun r => r.path = path ∧ r.id ≠ excludeID

/-- The `INSERT` of `Create`. -/
def WebsiteRepository.insert (g : WebsiteRepository) (site : Website) : WebsiteRepository where
  rows := g.rows ++ [{ site with id := g.nextID }]
  nextID := g.nextID + 1
  nodup := by
    rw [List.map_append, List.nodup_append]
    refine ⟨g.nodup, by simp, ?_⟩
    intro a ha b hb
    obtain ⟨r, hr, rfl⟩ := List.mem_map.mp ha
    obtain rfl : b = g.nextID := by simpa using hb
    exact Nat.ne_of_lt (g.below r hr)
  below := by
    intro r hr
    obtain hr | hr := List.mem_append.mp hr
    · exact Nat.lt_succ_of_lt (g.below r hr)
    · obtain rfl := List.mem_singleton.mp hr
      exact Nat.lt_succ_self _

/-- The `UPDATE`. -/
def WebsiteRepository.update (g : WebsiteRepository) (site : Website) : WebsiteRepository where
  rows := g.rows.map fun r => if r.id = site.id then site else r
  nextID := g.nextID
  nodup := by
    have hids : (g.rows.map fun r => if r.id = site.id then site else r).map Website.id =
        g.rows.map Website.id := by
      rw [List.map_map]
      apply List.map_congr_left
      intro r _
      simp only [Function.comp_apply]
      split_ifs with h
      · exact h.symm
      · rfl
    rw [hids]
    exact g.nodup
  below := by
    intro r hr
    obtain ⟨q, hq, rfl⟩ := List.mem_map.mp hr
    split_ifs with h
    · exact h ▸ g.below q hq
    · exact g.below q hq

/-- The `DELETE`. -/
def WebsiteRepository.delete (g : WebsiteRepository) (id : ℕ) : WebsiteRepository where
  rows := g.rows.filter fun r => r.id ≠ id
  nextID := g.nextID
  nodup := g.nodup.sublist (List.filter_sublist.map _)
  below r hr := g.below r (List.mem_of_mem_filter hr)

/-- Where the panel keeps its files. -/
structure Service where
  webRoot : String
  storage : String

structure Panel where
  repo : WebsiteRepository
  files : SiteFiles

def Panel.empty : Panel := ⟨.empty, .empty⟩

/-- `Create` of the repository: the row is read back after it was inserted. -/
def Panel.createRow (s : Panel) (e : Weather) (site : Website) :
    Panel × Except String Website :=
  match e.faults .insertRow with
  | some err => (s, .error ("insert website: " ++ err))
  | none =>
      let site := { site with id := s.repo.nextID, updatedAt := e.now }
      ({ s with repo := s.repo.insert site },
        match e.faults .insertRead with
        | some err => .error ("find website by id: " ++ err)
        | none => .ok site)

/-- A row with the time of its last write. -/
def Website.stamped (site : Website) (now : ℤ) : Website := { site with updatedAt := now }

/-- `Update` of the repository. -/
def Panel.updateRow (s : Panel) (e : Weather) (write read : Call) (site : Website) :
    Panel × Except String Website :=
  match e.faults write with
  | some err => (s, .error ("update website: " ++ err))
  | none =>
      let site := site.stamped e.now
      ({ s with repo := s.repo.update site },
        match e.faults read with
        | some err => .error ("find website by id: " ++ err)
        | none => .ok site)

/-- `Delete` of the repository. -/
def Panel.deleteRow (s : Panel) (e : Weather) (id : ℕ) : Panel × Option String :=
  match e.faults .deleteRow with
  | some err => (s, some ("delete website: " ++ err))
  | none => ({ s with repo := s.repo.delete id }, none)

/-- A label of a host name. -/
def isValidLabel (p : List Char) : Bool :=
  p ≠ [] ∧ (String.ofList p).utf8ByteSize ≤ 63 ∧ p.head? ≠ some '-' ∧ p.getLast? ≠ some '-' ∧
    p.all fun c => c.isLower || c.isUpper || c.isDigit || c = '-'

/-- `isValidDomain`: a name that resolves needs no further check. -/
def isValidDomain (e : Weather) (domain : String) : Bool :=
  if domain = "" ∨ domain.utf8ByteSize > 253 then false
  else if ['.', '.'] <:+: domain.toList then false
  else if e.lookupHost domain then true
  else
    let parts := domain.toList.splitOn '.'
    if parts.length < 2 then false else parts.all isValidLabel

/-- An accepted name has no two dots in a row. -/
theorem not_dots_of_isValidDomain {e : Weather} {domain : String}
    (h : isValidDomain e domain = true) : ¬ ['.', '.'] <:+: domain.toList := by
  intro hdots
  rw [isValidDomain, if_pos hdots] at h
  simp at h

def validatePath (path webRoot : String) : Option SiteError :=
  if path = "" then some (.new .pathInvalid "path not valid")
  else if ['.', '.'] <:+: path.toList then some (.new .pathTraversal "path traversal rejected")
  else
    let clean := cleanPath path.toList
    let root := cleanPath webRoot.toList
    if clean ≠ root ∧ ¬ (root ++ ['/']) <+: clean then
      some (.new .pathInvalid "path outside web root")
    else none

/-- `validateUpstream`. `parseURL` is `url.Parse` with the scheme and the host. -/
def validateUpstream (e : Weather) (upstream : String) : Option SiteError :=
  let upstream := trimSpaceChars upstream.toList
  if upstream = [] then some (.new .validation "upstream required for proxy type")
  else if upstream.any fun c => " \t\r\n;\x7b\x7d".toList.contains c then
    some (.new .validation "upstream not valid")
  else
    match e.parseURL upstream with
    | none => some (.new .validation "upstream not valid")
    | some (scheme, host) =>
        if scheme = "" ∨ host = "" then some (.new .validation "upstream not valid")
        else if scheme = "http" ∨ scheme = "https" then none
        else some (.new .validation "upstream scheme not supported")

def Service.validateCreateUpdate (v : Service) (e : Weather) (g : WebsiteRepository)
    (domain path siteType upstream : String) (excludeID : ℕ) : Option SiteError :=
  if ¬ isValidDomain e domain then some (.new .domainInvalid "domain not valid")
  else if siteType ≠ websiteTypeStatic ∧ siteType ≠ websiteTypeProxy then
    some (.new .validation "website type not valid")
  else
    match if siteType = websiteTypeProxy then validateUpstream e upstream else none with
    | some err => some err
    | none =>
    match validatePath path v.webRoot with
    | some err => some err
    | none =>
    match e.faults .checkPath with
    | some err => some (.wrap .database "check path" ("check path duplicate: " ++ err))
    | none =>
        if g.existsPathForOther path excludeID then
          some (.new .pathDuplicate "path used by other website")
        else if e.isFile path.toList then some (.new .pathIsFile "path is file")
        else none

/-- `DefaultSSLPaths`. -/
def Service.defaultSSLPaths (v : Service) (domain : String) : List Char × List Char :=
  let base := joinPath (joinPath v.storage.toList "webconfig/ssl/live".toList) domain.toList
  (joinPath base "cert.pem".toList, joinPath base "key.pem".toList)

def Service.renderSiteConfig (v : Service) (e : Weather) (read : Call) (site : Website) :
    Except SiteError String :=
  let (cert, key) := v.defaultSSLPaths site.domain
  let data : SiteTemplateData :=
    ⟨site.domain.toList, site.path.toList, cert, key, site.upstream.toList⟩
  match e.faults read with
  | some err => .error (.wrap .config "render template" err)
  | none =>
      let template := if site.type = websiteTypeProxy then e.proxyTpl else e.staticTpl
      .ok (String.ofList (applyReplacements template e.placeholders data))

def Service.writeRenderedConfig (v : Service) (e : Weather) (s : Panel) (site : Website) :
    Panel × Option SiteError :=
  match v.renderSiteConfig e .readTemplate site with
  | .error err => (s, some err)
  | .ok content =>
      let (files, err) := s.files.writeSiteConfig e .writeConfig site.domain content
      ({ s with files := files }, err.map (.wrap .config "write site config"))

def Service.provisionSite (v : Service) (e : Weather) (s : Panel) (site : Website) :
    Panel × Option SiteError :=
  match if site.type = websiteTypeStatic then e.faults .makePath else none with
  | some err => (s, some (.wrap .internal "create site path" err))
  | none =>
  match e.faults .provisionSSL with
  | some err => (s, some (.wrap .internal "provision ssl" err))
  | none => v.writeRenderedConfig e s site

/-- `validateRenderedConfig` writes nothing below the two directories. -/
def Service.validateRenderedConfig (v : Service) (e : Weather) (site : Website) :
    Option SiteError :=
  match e.faults .testSSL with
  | some err => some (.wrap .internal "provision ssl for validation" err)
  | none =>
      match v.renderSiteConfig e .readTestTemplate site with
      | .error err => some err
      | .ok content => (e.accepts content).map (.new .nginxTestFailed)

/-- `syncSSLFromConfig`. -/
def Panel.syncSSLFromConfig (s : Panel) (e : Weather) (site : Website) : Panel × Website :=
  match s.files.siteD (confName site.domain) with
  | none => (s, site)
  | some config =>
      if certPathsFound config = site.ssl then (s, site)
      else
        let site := { site with ssl := certPathsFound config }
        match s.updateRow e .syncRow .syncRead site with
        | (s, .ok updated) => (s, updated)
        | (s, .error _) => (s, site)

structure SiteInput where
  name : String
  domain : String
  path : String
  type : String
  upstream : String
  active : Bool
  deriving Repr, DecidableEq

/-- The type a request means. -/
def SiteInput.siteType (i : SiteInput) : String :=
  if i.type = "" then websiteTypeStatic else i.type

/-- The name a request means. -/
def SiteInput.siteName (i : SiteInput) : String := if i.name = "" then i.domain else i.name

/-- The row an update of a website writes. -/
def SiteInput.apply (i : SiteInput) (existing : Website) : Website :=
  { existing with
    name := i.siteName
    domain := i.domain
    path := i.path
    type := i.siteType
    upstream := i.upstream
    active := i.active }

abbrev Answer := Panel × Except SiteError Website

/-- The row is not kept. -/
def Panel.dropRow (s : Panel) (e : Weather) (id : ℕ) : Panel := (s.deleteRow e id).1

/-- Neither the file nor the row is kept. -/
def Panel.dropSite (s : Panel) (e : Weather) (site : Website) : Panel :=
  { s with files := (s.files.removeSiteConfig e site.domain).1 }.dropRow e site.id

def Service.create (v : Service) (e : Weather) (s : Panel) (i : SiteInput) : Answer :=
  match v.validateCreateUpdate e s.repo i.domain i.path i.siteType i.upstream 0 with
  | some err => (s, .error err)
  | none =>
  match e.faults .beforeCreate with
  | some err => (s, .error (.plain err))
  | none =>
  match s.createRow e
      ⟨0, i.siteName, i.domain, i.path, i.siteType, i.upstream, false, "", i.active, 0⟩ with
  | (s, .error err) => (s, .error (.wrap .database "create website" err))
  | (s, .ok site) =>
  match v.provisionSite e s site with
  | (s, some err) => (s.dropRow e site.id, .error err)
  | (s, none) =>
  if ¬ site.active then (s, .ok site)
  else
  match v.validateRenderedConfig e site with
  | some err => (s.dropSite e site, .error err)
  | none =>
  match s.files.enableSite e site.domain with
  | (files, some err) =>
      ({ s with files := files }.dropSite e site,
        .error (.wrap .nginxReloadFailed "enable site" err))
  | (files, none) =>
  match files.reload e .reload with
  | (files, some err) =>
      let files := (files.disableSite e site.domain).1
      ({ s with files := files }.dropSite e site, .error (.plain err))
  | (files, none) => ({ s with files := files }, .ok site)

def Service.update (v : Service) (e : Weather) (s : Panel) (id : ℕ) (i : SiteInput) : Answer :=
  match s.repo.findByID id with
  | none => (s, .error (.new .notFound "website not found"))
  | some existing =>
  match v.validateCreateUpdate e s.repo i.domain i.path i.siteType i.upstream id with
  | some err => (s, .error err)
  | none =>
  match s.updateRow e .updateRow .updateRead (i.apply existing) with
  | (s, .error err) => (s, .error (.wrap .database "update website" err))
  | (s, .ok site) =>
  match v.writeRenderedConfig e s site with
  | (s, some err) => (s, .error err)
  | (s, none) =>
  match e.faults .configChanged with
  | some err => (s, .error (.plain err))
  | none =>
  if site.active then
    match v.validateRenderedConfig e site with
    | some err => (s, .error err)
    | none =>
        match s.files.enableSite e site.domain with
        | (files, some err) => ({ s with files := files }, .error (.plain err))
        | (files, none) => ({ s with files := files }, .ok site)
  else
    match s.files.disableSite e site.domain with
    | (files, some err) => ({ s with files := files }, .error (.plain err))
    | (files, none) => ({ s with files := files }, .ok site)

/-- `Delete`. What `clean` removes lies below the web root. -/
def Service.delete (e : Weather) (s : Panel) (id : ℕ) (clean : Bool) :
    Panel × Option SiteError :=
  match s.repo.findByID id with
  | none => (s, some (.new .notFound "website not found"))
  | some site =>
  match s.files.disableSite e site.domain with
  | (files, some err) =>
      ({ s with files := files }, some (.wrap .nginxReloadFailed "disable site" err))
  | (files, none) =>
  match files.reload e .reload with
  | (files, some err) => ({ s with files := files }, some (.plain err))
  | (files, none) =>
  match if clean then e.faults .removePath else none with
  | some err => ({ s with files := files }, some (.wrap .internal "remove site path" err))
  | none =>
  match files.removeSiteConfig e site.domain with
  | (files, some err) =>
      ({ s with files := files }, some (.wrap .internal "remove site config" err))
  | (files, none) =>
  match { s with files := files }.deleteRow e id with
  | (s, some err) => (s, some (.wrap .database "delete website" err))
  | (s, none) => (s, none)

/-- The step of `Toggle` and its rollback. -/
def SiteFiles.setEnabled (f : SiteFiles) (e : Weather) (domain : String) (active : Bool) :
    SiteFiles × Option String :=
  if active then f.enableSite e domain else f.disableSite e domain

def Service.toggle (e : Weather) (s : Panel) (id : ℕ) : Answer :=
  match s.repo.findByID id with
  | none => (s, .error (.new .notFound "website not found"))
  | some site =>
  let prevActive := site.active
  let site := { site with active := !site.active }
  match s.files.setEnabled e site.domain site.active with
  | (files, some err) => ({ s with files := files }, .error (.plain err))
  | (files, none) =>
  match files.reload e .reload with
  | (files, some err) =>
      let files := (files.setEnabled e site.domain prevActive).1
      ({ s with files := files }, .error (.plain err))
  | (files, none) =>
  match { s with files := files }.updateRow e .updateRow .updateRead site with
  | (s, .error err) =>
      let files := (s.files.setEnabled e site.domain prevActive).1
      let files := (files.reload e .reloadAgain).1
      ({ s with files := files }, .error (.wrap .database "update active flag" err))
  | (s, .ok updated) =>
      let (s, updated) := s.syncSSLFromConfig e updated
      (s, .ok updated)

/-- `strings.ReplaceAll` of carriage returns by nothing. -/
def withoutCR (config : String) : String := String.ofList (config.toList.filter (· ≠ '\r'))

def Service.updateNginxConfig (e : Weather) (s : Panel) (id : ℕ) (config : String) :
    Panel × Option SiteError :=
  match s.repo.findByID id with
  | none => (s, some (.new .notFound "website not found"))
  | some site =>
  let config := withoutCR config
  match s.files.updateSiteConfig e site.domain config with
  | (files, some err) => ({ s with files := files }, some err)
  | (files, none) =>
  match e.faults .configChanged with
  | some err => ({ s with files := files }, some (.plain err))
  | none =>
  match files.reload e .reload with
  | (files, some err) => ({ s with files := files }, some (.plain err))
  | (files, none) => (({ s with files := files }.syncSSLFromConfig e site).1, none)

inductive Request where
  | create (i : SiteInput)
  | update (id : ℕ) (i : SiteInput)
  | updateNginxConfig (id : ℕ) (config : String)
  | toggle (id : ℕ)
  | delete (id : ℕ) (clean : Bool)
  deriving Repr, DecidableEq

/-- The panel after a request. -/
def Service.handle (v : Service) (e : Weather) (s : Panel) : Request → Panel
  | .create i => (v.create e s i).1
  | .update id i => (v.update e s id i).1
  | .updateNginxConfig id config => (Service.updateNginxConfig e s id config).1
  | .toggle id => (Service.toggle e s id).1
  | .delete id clean => (Service.delete e s id clean).1

/-- Requests come one after the other, each with its own weather. -/
def Service.step (v : Service) (s : Panel) (a : Request × Weather) : Option Panel :=
  some (v.handle a.2 s a.1)

def demoService : Service := ⟨"/w", "/s"⟩

/-- No call fails, and a configuration is just the path. -/
def calmWeather : Weather where
  faults _ := none
  lookupHost _ := false
  isFile _ := false
  parseURL _ := none
  staticTpl := "<path>".toList
  proxyTpl := []
  placeholders := [.path]
  accepts _ := none
  leaves _ := none
  repairs _ := []
  now := 0

/-- An inactive static website. -/
def demoInput (domain path : String) : SiteInput := ⟨"", domain, path, "", "", false⟩

end GoSite.Website
