import GoSite.CertificateLines
import GoSite.PathElements
import GoSite.WebsiteRollback

/-!
# Certificates uploaded by hand

An upload writes two files and makes the configuration of the website name them.
Where the configuration names two paths already the files are written there, and
else below the live directory of the domain. Only lines that are there are
rewritten.
-/
namespace GoSite.Website
open GoStrings Paths
open GoSite.Terminal (joinPath)

/-- The panel, and the files outside of `site.d` by the elements of their paths. -/
structure Host where
  panel : Panel
  files : List (List Char) → Option String

/-- The fallible calls of an upload that the panel does not make itself. -/
inductive UploadCall where
  | readConfig
  | makeArchive
  | archivePublic
  | archivePrivate
  | makeLive
  | writePublic
  | writePrivate
  deriving Repr, DecidableEq

/-- What an upload meets. A write that fails can leave something of the file. -/
structure UploadWeather where
  weather : Weather
  fails : UploadCall → Option String
  left : UploadCall → Option String

inductive UploadError where
  | sslInvalid (message : String)
  | site (err : SiteError)
  deriving Repr, DecidableEq

/-- `ManualInput`. -/
structure ManualInput where
  publicPEM : String
  privatePEM : String
  deriving Repr, DecidableEq

/-- `strings.Contains`. -/
def hasText (s : String) (text : String) : Bool := text.toList <:+: s.toList

def validatePEM (publicPEM privatePEM : String) : Option UploadError :=
  if ¬ hasText publicPEM "BEGIN CERTIFICATE" then
    some (.sslInvalid "invalid public certificate")
  else if ¬ hasText privatePEM "BEGIN" ∨ ¬ hasText privatePEM "PRIVATE KEY" then
    some (.sslInvalid "invalid private key")
  else none

/-- The name below `site.d` of a path. -/
def Service.siteName (v : Service) (cwd : Directory) (path : List Char) : Option (List Char) :=
  let dir := absElements cwd (joinPath (joinPath v.storage.toList "webconfig".toList)
    "site.d".toList)
  let es := absElements cwd path
  if dir <+: es ∧ dir ≠ es then some (rooted (es.drop dir.length)) else none

section
variable (v : Service) (cwd : Directory)

/-- `os.ReadFile`. -/
def Host.readFile (s : Host) (path : List Char) : Option String :=
  match v.siteName cwd path with
  | some name => s.panel.files.siteD name
  | none => s.files (absElements cwd path)

/-- `os.WriteFile`. -/
def Host.writeFile (s : Host) (path : List Char) (text : String) : Host :=
  match v.siteName cwd path with
  | some name =>
      { s with panel := { s.panel with files := { s.panel.files with
          siteD := Function.update s.panel.files.siteD name (some text) } } }
  | none => { s with files := Function.update s.files (absElements cwd path) (some text) }

/-- A write of an upload. -/
def Host.uploadFile (s : Host) (u : UploadWeather) (call : UploadCall) (path : List Char)
    (text : String) : Host × Option String :=
  match u.fails call with
  | none => (s.writeFile v cwd path text, none)
  | some err =>
      match u.left call with
      | none => (s, some err)
      | some left => (s.writeFile v cwd path left, some err)

/-- The archive of a domain. -/
def Service.archivePaths (domain : String) : List Char × List Char :=
  let base := joinPath (joinPath v.storage.toList "webconfig/ssl/archive".toList) domain.toList
  (joinPath base "fullchain.pem".toList, joinPath base "privkey.pem".toList)

/-- The files of an upload for a website without a configuration. -/
def Service.uploadArchive (u : UploadWeather) (s : Host) (domain publicPEM privatePEM : String) :
    Host × Option UploadError :=
  let (archiveCert, archiveKey) := v.archivePaths domain
  let (liveCert, liveKey) := v.defaultSSLPaths domain
  match u.fails .makeArchive with
  | some err => (s, some (.site (.wrap .internal "create archive dir" err)))
  | none =>
  match s.uploadFile v cwd u .archivePublic archiveCert publicPEM with
  | (s, some err) => (s, some (.site (.wrap .internal "write public cert" err)))
  | (s, none) =>
  match s.uploadFile v cwd u .archivePrivate archiveKey privatePEM with
  | (s, some err) => (s, some (.site (.wrap .internal "write private key" err)))
  | (s, none) =>
  match u.fails .makeLive with
  | some err => (s, some (.site (.wrap .internal "create live dir" err)))
  | none =>
  match s.uploadFile v cwd u .writePublic liveCert publicPEM with
  | (s, some err) => (s, some (.site (.plain err)))
  | (s, none) =>
  match s.uploadFile v cwd u .writePrivate liveKey privatePEM with
  | (s, some err) => (s, some (.site (.plain err)))
  | (s, none) => (s, none)

/-- Where an upload goes for a configuration. -/
def Service.uploadPaths (domain config : String) : List Char × List Char :=
  if certPathsFound config then parseCertPaths config.toList else v.defaultSSLPaths domain

/-- The files of an upload for a website with a configuration. -/
def Service.uploadPair (u : UploadWeather) (s : Host) (domain config publicPEM privatePEM : String) :
    Host × Option UploadError :=
  let (certPath, keyPath) := v.uploadPaths domain config
  match if certPathsFound config then none else u.fails .makeLive with
  | some err => (s, some (.site (.plain err)))
  | none =>
  match s.uploadFile v cwd u .writePublic certPath publicPEM with
  | (s, some err) => (s, some (.site (.wrap .internal "write public cert" err)))
  | (s, none) =>
  match s.uploadFile v cwd u .writePrivate keyPath privatePEM with
  | (s, some err) => (s, some (.site (.wrap .internal "write private key" err)))
  | (s, none) => (s, none)

/-- The end of an upload, once the configuration is written. -/
def Host.finishUpload (s : Host) (e : Weather) (site : Website) : Host × Option UploadError :=
  match s.panel.files.reload e .reload with
  | (files, some err) =>
      ({ s with panel := { s.panel with files := files } }, some (.site (.plain err)))
  | (files, none) =>
      match { s.panel with files := files }.updateRow e .updateRow .updateRead
        { site with ssl := true } with
      | (panel, .error err) =>
          ({ s with panel := panel }, some (.site (.wrap .database "update ssl flag" err)))
      | (panel, .ok _) => ({ s with panel := panel }, none)

/-- The configuration `UpdateManual` writes. -/
def Service.updatedConfig (domain config : String) : String :=
  let (certPath, keyPath) := v.uploadPaths domain config
  String.ofList (updateSSLDirectives config.toList certPath keyPath)

/-- `UpdateManual`. -/
def Service.updateManual (u : UploadWeather) (s : Host) (id : ℕ) (input : ManualInput) :
    Host × Option UploadError :=
  match s.panel.repo.findByID id with
  | none => (s, some (.site (.new .notFound "website not found")))
  | some site =>
  let publicPEM := withoutCR input.publicPEM
  let privatePEM := withoutCR input.privatePEM
  match validatePEM publicPEM privatePEM with
  | some err => (s, some err)
  | none =>
  match if (u.fails .readConfig).isSome then none
    else s.panel.files.siteD (confName site.domain) with
  | none =>
      match v.uploadArchive cwd u s site.domain publicPEM privatePEM with
      | (s, some err) => (s, some err)
      | (s, none) =>
          match s.panel.files.writeSiteConfig u.weather .writeConfig site.domain
            (v.updatedConfig site.domain "") with
          | (files, some err) =>
              ({ s with panel := { s.panel with files := files } }, some (.site (.plain err)))
          | (files, none) =>
              Host.finishUpload { s with panel := { s.panel with files := files } } u.weather site
  | some config =>
      match v.uploadPair cwd u s site.domain config publicPEM privatePEM with
      | (s, some err) => (s, some err)
      | (s, none) =>
          match s.panel.files.updateSiteConfig u.weather site.domain
            (v.updatedConfig site.domain config) with
          | (files, some err) =>
              ({ s with panel := { s.panel with files := files } }, some (.site err))
          | (files, none) =>
              Host.finishUpload { s with panel := { s.panel with files := files } } u.weather site

/-- `Status`. -/
structure Status where
  enabled : Bool
  certPath : List Char
  keyPath : List Char
  expiry : Option (ℤ × Bool)
  publicPEM : String
  privatePEM : String
  deriving Repr, DecidableEq

/-- `GetStatus`. `parseCertExpiry` reads the time out of a certificate. -/
def Service.getStatus (parseCertExpiry : String → Option (ℤ × Bool)) (s : Host) (id : ℕ) :
    Except SiteError Status :=
  match s.panel.repo.findByID id with
  | none => .error (.new .notFound "website not found")
  | some site =>
  match s.panel.files.siteD (confName site.domain) with
  | none => .ok ⟨false, [], [], none, "", ""⟩
  | some config =>
  if ¬ certPathsFound config then .ok ⟨false, [], [], none, "", ""⟩
  else
    let (certPath, keyPath) := parseCertPaths config.toList
    let cert := s.readFile v cwd certPath
    .ok ⟨true, certPath, keyPath, cert.bind parseCertExpiry, cert.getD "",
      (s.readFile v cwd keyPath).getD ""⟩

/-- `GetStatus` reports the website enabled, with this certificate and key. -/
def Service.Shows (parseCertExpiry : String → Option (ℤ × Bool)) (s : Host) (id : ℕ)
    (publicPEM privatePEM : String) : Prop :=
  ∃ status, v.getStatus cwd parseCertExpiry s id = .ok status ∧ status.enabled = true ∧
    status.publicPEM = publicPEM ∧ status.privatePEM = privatePEM

/-- A path is that of the configuration of a domain. -/
def Service.IsConfig (domain : String) (path : List Char) : Prop :=
  v.siteName cwd path = some (confName domain)

instance (domain : String) (path : List Char) : Decidable (v.IsConfig cwd domain path) := by
  unfold Service.IsConfig
  infer_instance

/-- No repair of the reload writes to the configuration or to one of the two files. -/
def Service.QuietReload (u : UploadWeather) (domain : String) (certPath keyPath : List Char) :
    Prop :=
  ∀ r ∈ u.weather.repairs .reload, r.1 ≠ confName domain ∧
    v.siteName cwd certPath ≠ some r.1 ∧ v.siteName cwd keyPath ≠ some r.1

/-- The configuration was there and has a line for each path, and the paths are
those of two files besides it. Files may fall together that hold the same text. -/
structure Service.TakesEffect (u : UploadWeather) (s : Host) (site : Website)
    (publicPEM privatePEM : String) : Prop where
  read : u.fails .readConfig = none
  config : ∃ config, s.panel.files.siteD (confName site.domain) = some config ∧
    NamesBoth config.toList ∧
    (absElements cwd (v.uploadPaths site.domain config).1 =
      absElements cwd (v.uploadPaths site.domain config).2 → publicPEM = privatePEM) ∧
    (v.IsConfig cwd site.domain (v.uploadPaths site.domain config).1 →
      v.updatedConfig site.domain config = publicPEM) ∧
    (v.IsConfig cwd site.domain (v.uploadPaths site.domain config).2 →
      v.updatedConfig site.domain config = privatePEM)

theorem siteName_congr {path path' : List Char}
    (h : absElements cwd path = absElements cwd path') :
    v.siteName cwd path = v.siteName cwd path' := by
  simp only [Service.siteName, h]

/-- Files of one name below `site.d` are one file. -/
theorem absElements_of_siteName {path path' name : List Char}
    (h : v.siteName cwd path = some name) (h' : v.siteName cwd path' = some name) :
    absElements cwd path = absElements cwd path' := by
  simp only [Service.siteName, Option.ite_none_right_eq_some, Option.some.injEq] at h h'
  obtain ⟨⟨⟨rest, hrest⟩, -⟩, hname⟩ := h
  obtain ⟨⟨⟨rest', hrest'⟩, -⟩, hname'⟩ := h'
  have hplain := absElements_plain cwd path
  have hplain' := absElements_plain cwd path'
  rw [← hrest] at hname hplain
  rw [← hrest'] at hname' hplain'
  rw [List.drop_left] at hname hname'
  rw [← hrest, ← hrest', rooted_injective (fun e he => hplain e (List.mem_append_right _ he))
    (fun e he => hplain' e (List.mem_append_right _ he)) (hname.trans hname'.symm)]

/-- A file holds what was written to it last. -/
theorem readFile_writeFile (s : Host) (path text path' : _) :
    (s.writeFile v cwd path text).readFile v cwd path' =
      if absElements cwd path' = absElements cwd path then some text
      else s.readFile v cwd path' := by
  unfold Host.readFile Host.writeFile
  by_cases heq : absElements cwd path' = absElements cwd path
  · rw [if_pos heq, siteName_congr v cwd heq]
    cases v.siteName cwd path with
    | some name => simp
    | none => simp [heq]
  · rw [if_neg heq]
    cases hname' : v.siteName cwd path' with
    | none =>
        cases v.siteName cwd path with
        | none => simp [Function.update_of_ne heq]
        | some name => rfl
    | some name' =>
        cases hname : v.siteName cwd path with
        | none => rfl
        | some name =>
            have hne : name' ≠ name := by
              rintro rfl
              exact heq (absElements_of_siteName v cwd hname' hname)
            simp [Function.update_of_ne hne]

@[simp] theorem writeFile_repo (s : Host) (path : List Char) (text : String) :
    (s.writeFile v cwd path text).panel.repo = s.panel.repo := by
  unfold Host.writeFile
  cases v.siteName cwd path <;> rfl

@[simp] theorem uploadFile_repo (s : Host) (u : UploadWeather) (call : UploadCall)
    (path : List Char) (text : String) :
    (s.uploadFile v cwd u call path text).1.panel.repo = s.panel.repo := by
  unfold Host.uploadFile
  cases u.fails call with
  | none => exact writeFile_repo v cwd s path text
  | some err =>
      cases u.left call with
      | none => rfl
      | some left => exact writeFile_repo v cwd s path left

theorem uploadFile_ok {s s' : Host} {u : UploadWeather} {call : UploadCall} {path : List Char}
    {text : String} (h : s.uploadFile v cwd u call path text = (s', none)) :
    s' = s.writeFile v cwd path text := by
  unfold Host.uploadFile at h
  cases hfails : u.fails call with
  | none => simpa [hfails, eq_comm] using h
  | some err => cases hleft : u.left call <;> simp [hfails, hleft] at h

/-- The two files of an upload that goes through. -/
theorem uploadPair_ok {s s' : Host} {u : UploadWeather}
    {domain config publicPEM privatePEM : String}
    (h : v.uploadPair cwd u s domain config publicPEM privatePEM = (s', none)) :
    s' = (s.writeFile v cwd (v.uploadPaths domain config).1 publicPEM).writeFile v cwd
      (v.uploadPaths domain config).2 privatePEM := by
  simp only [Service.uploadPair] at h
  split at h
  · simp at h
  · split at h
    · simp at h
    · rename_i hpublic
      split at h
      · simp at h
      · rename_i hprivate
        obtain rfl := uploadFile_ok v cwd hpublic
        obtain rfl := uploadFile_ok v cwd hprivate
        exact (Prod.mk.inj h).1.symm

theorem uploadArchive_repo (u : UploadWeather) (s : Host)
    (domain publicPEM privatePEM : String) :
    (v.uploadArchive cwd u s domain publicPEM privatePEM).1.panel.repo = s.panel.repo := by
  have hfile : ∀ {s s' : Host} {call : UploadCall} {path : List Char} {text : String}
      {err : Option String}, s.uploadFile v cwd u call path text = (s', err) →
      s'.panel.repo = s.panel.repo := by
    intro s s' call path text err h
    rw [← uploadFile_repo v cwd s u call path text, h]
  simp only [Service.uploadArchive]
  split
  · rfl
  · split
    · rename_i h₁
      exact hfile h₁
    · rename_i h₁
      split
      · rename_i h₂
        exact (hfile h₂).trans (hfile h₁)
      · rename_i h₂
        split
        · exact (hfile h₂).trans (hfile h₁)
        · split
          · rename_i h₃
            exact (hfile h₃).trans ((hfile h₂).trans (hfile h₁))
          · rename_i h₃
            split <;> rename_i h₄ <;>
              exact (hfile h₄).trans ((hfile h₃).trans ((hfile h₂).trans (hfile h₁)))

/-- The files once a configuration is written. -/
def SiteFiles.withConfig (f : SiteFiles) (domain content : String) : SiteFiles :=
  { f with siteD := Function.update f.siteD (confName domain) (some content) }

theorem writeSiteConfig_ok {f g : SiteFiles} {e : Weather} {call : Call} {domain content : String}
    (h : f.writeSiteConfig e call domain content = (g, none)) :
    g = f.withConfig domain content := by
  unfold SiteFiles.writeSiteConfig at h
  cases hfault : e.faults call with
  | none => simpa [hfault, eq_comm, SiteFiles.withConfig] using h
  | some err => cases hleft : e.leaves call <;> simp [hfault, hleft] at h

theorem updateSiteConfig_ok {f g : SiteFiles} {e : Weather} {domain content : String}
    (h : f.updateSiteConfig e domain content = (g, none)) :
    g = f.withConfig domain content := by
  by_cases hbackup : e.faults .backupConfig ≠ none ∧ f.siteD (confName domain) ≠ none
  · obtain ⟨err, herr⟩ := updateSiteConfig_stops hbackup content
    rw [herr] at h
    simp at h
  · rw [updateSiteConfig_writes hbackup] at h
    split at h
    · simp at h
    · rename_i hwrite
      split at h
      · obtain rfl := (Prod.mk.inj h).1
        exact writeSiteConfig_ok hwrite
      · split_ifs at h <;> simp at h

/-- A reload that repairs no file of a name leaves it. -/
theorem reload_siteD_quiet (f : SiteFiles) {e : Weather} {n : List Char}
    (h : ∀ r ∈ e.repairs .reload, r.1 ≠ n) : (f.reload e .reload).1.siteD n = f.siteD n := by
  cases hold : f.siteD n with
  | none =>
      have hsome := (reload_fst f e .reload).2 n
      rw [hold] at hsome
      exact Option.isSome_eq_false_iff.mp hsome |> Option.isNone_iff_eq_none.mp
  | some text =>
      have hrepairs : ∀ repairs : List (List Char × String), (∀ r ∈ repairs, r.1 ≠ n) →
          repairs.foldl (fun text r => if r.1 = n then r.2 else text) text = text := by
        intro repairs
        induction repairs with
        | nil => exact fun _ => rfl
        | cons r repairs ih =>
            intro hr
            rw [List.foldl_cons, if_neg (hr r List.mem_cons_self)]
            exact ih fun q hq => hr q (List.mem_cons_of_mem _ hq)
      rw [reload_siteD f e n hold, Weather.repaired, hrepairs _ h]

/-- The end of an upload that goes through. -/
theorem finishUpload_ok {s s' : Host} {e : Weather} {site : Website}
    (hmem : site ∈ s.panel.repo.rows) (h : s.finishUpload e site = (s', none)) :
    (∃ site', s'.panel.repo.findByID site.id = some site' ∧ site'.domain = site.domain) ∧
      s'.files = s.files ∧ s'.panel.files = (s.panel.files.reload e .reload).1 := by
  unfold Host.finishUpload at h
  split at h
  · simp at h
  · rename_i files hreload
    split at h
    · simp at h
    · rename_i panel updated hrow
      obtain rfl := (Prod.mk.inj h).1
      obtain ⟨-, -, err, herr⟩ | ⟨heq, -⟩ := updateRow_cases { s.panel with files := files } e
        .updateRow .updateRead { site with ssl := true }
      · rw [hrow] at herr
        simp at herr
      · rw [hrow] at heq
        dsimp only at heq
        subst heq
        have hfind := @findByID_update site s.panel.repo
          (Website.stamped { site with ssl := true } e.now) hmem rfl
        exact ⟨⟨_, hfind, rfl⟩, rfl, by rw [hreload]⟩

/-- What a file holds once the configuration is written and nginx has reloaded. -/
theorem readFile_reload {s s' : Host} {e : Weather} {domain content : String} {path : List Char}
    (hfiles : s'.files = s.files)
    (hsites : s'.panel.files = ((s.panel.files.withConfig domain content).reload e .reload).1)
    (hquiet : ∀ r ∈ e.repairs .reload, v.siteName cwd path ≠ some r.1) :
    s'.readFile v cwd path =
      if v.IsConfig cwd domain path then some content else s.readFile v cwd path := by
  by_cases hconf : v.IsConfig cwd domain path
  · have hname : v.siteName cwd path = some (confName domain) := hconf
    have hkeep : ∀ r ∈ e.repairs .reload, r.1 ≠ confName domain := by
      rintro r hr h
      exact hquiet r hr (h ▸ hname)
    rw [if_pos hconf, Host.readFile, hname]
    dsimp only
    rw [hsites, reload_siteD_quiet _ hkeep]
    simp [SiteFiles.withConfig]
  · rw [if_neg hconf, Host.readFile, Host.readFile]
    cases hname : v.siteName cwd path with
    | none => simp [hfiles]
    | some name =>
        have hkeep : ∀ r ∈ e.repairs .reload, r.1 ≠ name := by
          rintro r hr rfl
          exact hquiet r hr hname
        have hne : name ≠ confName domain := by
          rintro rfl
          exact hconf hname
        dsimp only
        rw [hsites, reload_siteD_quiet _ hkeep]
        simp [SiteFiles.withConfig, Function.update_of_ne hne]

/-- What is shown of a website whose configuration names two readable paths. -/
theorem shows_iff {parseCertExpiry : String → Option (ℤ × Bool)} {s : Host} {id : ℕ}
    {site : Website} {config publicPEM privatePEM : String}
    (hfind : s.panel.repo.findByID id = some site)
    (hconfig : s.panel.files.siteD (confName site.domain) = some config) :
    v.Shows cwd parseCertExpiry s id publicPEM privatePEM ↔
      certPathsFound config = true ∧
        (s.readFile v cwd (parseCertPaths config.toList).1).getD "" = publicPEM ∧
        (s.readFile v cwd (parseCertPaths config.toList).2).getD "" = privatePEM := by
  unfold Service.Shows Service.getStatus
  simp only [hfind, hconfig]
  by_cases hfound : certPathsFound config = true
  · simp [hfound]
  · simp [hfound]

theorem certPathsFound_iff (config : List Char) :
    certPathsFound (String.ofList config) = true ↔
      (parseCertPaths config).1 ≠ [] ∧ (parseCertPaths config).2 ≠ [] := by
  simp [certPathsFound_eq]

/-- The paths of an upload can be written to a configuration. -/
theorem uploadPaths_readable {domain config : String}
    (hlive : certPathsFound config = false →
      Readable (v.defaultSSLPaths domain).1 ∧ Readable (v.defaultSSLPaths domain).2) :
    Readable (v.uploadPaths domain config).1 ∧ Readable (v.uploadPaths domain config).2 := by
  unfold Service.uploadPaths
  by_cases hfound : certPathsFound config = true
  · rw [if_pos hfound]
    rw [← String.ofList_toList (s := config), certPathsFound_iff] at hfound
    obtain ⟨hcert, hkey, -⟩ := parseCertPaths_found hfound.1 hfound.2
    exact ⟨hcert, hkey⟩
  · rw [if_neg hfound]
    exact hlive (by simpa using hfound)

/-- The rewritten configuration names the paths where it has lines for both. -/
theorem updatedConfig_found {domain config : String}
    (hcert : Readable (v.uploadPaths domain config).1)
    (hkey : Readable (v.uploadPaths domain config).2) :
    (certPathsFound (v.updatedConfig domain config) = true ↔ NamesBoth config.toList) ∧
      (NamesBoth config.toList →
        parseCertPaths (v.updatedConfig domain config).toList = v.uploadPaths domain config) := by
  have hparse := parseCertPaths_updateSSLDirectives hcert hkey config.toList
  refine ⟨?_, ?_⟩
  · rw [Service.updatedConfig, certPathsFound_iff, hparse]
    unfold NamesBoth
    simp [hcert.1, hkey.1]
  · intro hboth
    rw [Service.updatedConfig, String.toList_ofList]
    exact parseCertPaths_update_both hcert hkey hboth

/-- What an upload over a configuration leaves when it goes through. -/
theorem updateManual_written {u : UploadWeather} {s s' : Host} {id : ℕ} {site : Website}
    {input : ManualInput} {config : String} (hfind : s.panel.repo.findByID id = some site)
    (hread : u.fails .readConfig = none)
    (hold : s.panel.files.siteD (confName site.domain) = some config)
    (hok : v.updateManual cwd u s id input = (s', none)) :
    ∃ t, t = (s.writeFile v cwd (v.uploadPaths site.domain config).1
        (withoutCR input.publicPEM)).writeFile v cwd (v.uploadPaths site.domain config).2
          (withoutCR input.privatePEM) ∧
      (∃ site', s'.panel.repo.findByID id = some site' ∧ site'.domain = site.domain) ∧
      s'.files = t.files ∧
      s'.panel.files = ((t.panel.files.withConfig site.domain
        (v.updatedConfig site.domain config)).reload u.weather .reload).1 := by
  obtain ⟨hmem, rfl⟩ := findByID_eq_some hfind
  unfold Service.updateManual at hok
  simp only [hfind, hread, Option.isSome_none, Bool.false_eq_true, if_false, hold] at hok
  split at hok
  · simp at hok
  · split at hok
    · simp at hok
    · rename_i t hfiles
      split at hok
      · simp at hok
      · rename_i files hwrite
        have ht := uploadPair_ok v cwd hfiles
        obtain rfl := updateSiteConfig_ok hwrite
        have hrepo : t.panel.repo = s.panel.repo := by simp [ht]
        exact ⟨t, ht, finishUpload_ok (hrepo ▸ hmem) hok⟩

/-- An empty configuration stays empty. -/
theorem updatedConfig_empty (domain : String) : v.updatedConfig domain "" = "" := by
  have hcert : ¬ IsCertLine [] := by decide
  have hkey : ¬ IsKeyLine [] := by decide
  simp [Service.updatedConfig, updateSSLDirectives, updateSSLLine, hcert, hkey]

/-- Without a configuration to read the website is left with an empty one. -/
theorem updateManual_unread {u : UploadWeather} {s s' : Host} {id : ℕ} {site : Website}
    {input : ManualInput} (hfind : s.panel.repo.findByID id = some site)
    (hunread : u.fails .readConfig = none → s.panel.files.siteD (confName site.domain) = none)
    (hok : v.updateManual cwd u s id input = (s', none)) :
    (∃ site', s'.panel.repo.findByID id = some site' ∧ site'.domain = site.domain) ∧
      ∃ f : SiteFiles, s'.panel.files = ((f.withConfig site.domain "").reload u.weather .reload).1 := by
  obtain ⟨hmem, rfl⟩ := findByID_eq_some hfind
  have hconfig : (if (u.fails .readConfig).isSome then none
      else s.panel.files.siteD (confName site.domain)) = none := by
    by_cases hread : u.fails .readConfig = none
    · simp [hread, hunread hread]
    · simp [Option.isSome_iff_ne_none.mpr hread]
  unfold Service.updateManual at hok
  simp only [hfind, hconfig] at hok
  split at hok
  · simp at hok
  · split at hok
    · simp at hok
    · rename_i t hfiles
      split at hok
      · simp at hok
      · rename_i files hwrite
        have hrepo := uploadArchive_repo v cwd u s site.domain (withoutCR input.publicPEM)
          (withoutCR input.privatePEM)
        rw [hfiles] at hrepo
        obtain rfl := writeSiteConfig_ok hwrite
        obtain ⟨hrow, -, hsites⟩ := finishUpload_ok (hrepo ▸ hmem) hok
        rw [updatedConfig_empty] at hsites
        exact ⟨hrow, _, hsites⟩

end

/-- Nothing fails. -/
def calmUpload : UploadWeather := ⟨calmWeather, fun _ => none, fun _ => none⟩

def demoInputPEM : ManualInput := ⟨"BEGIN CERTIFICATE", "BEGIN PRIVATE KEY"⟩

/-- The website of `demoPanel` with this configuration, or with none. -/
def demoHost (config : Option String) : Host :=
  ⟨{ demoPanel with files := { demoPanel.files with
    siteD := Function.update demoPanel.files.siteD (confName "a.b") config } }, fun _ => none⟩

def demoConfig : String := "ssl_certificate /c.pem;\nssl_certificate_key /k.pem;"

end GoSite.Website
