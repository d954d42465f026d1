import GoSite.ManualCertificates

/-!
# The default certificate of a domain

Creating a website, and testing one that is active, copies the default certificate
and key over those of its domain. To the rows and configurations a request does what
the website service does to them, with the copy as one of its calls.
-/
namespace GoSite.Website
open GoStrings Paths
open GoSite.Terminal (joinPath)

/-- What a request meets. A copy that fails can leave something of the two files. -/
structure HostWeather where
  weather : Weather
  sslLeft : Call → Option String × Option String

/-- `ValidateInput`. -/
structure ValidateInput where
  domain : String
  path : String
  type : String
  upstream : String
  active : Bool
  excludeID : ℕ
  deriving Repr, DecidableEq

/-- `ValidateResult`. -/
structure ValidateResult where
  valid : Bool
  reason : String
  deriving Repr, DecidableEq

/-- The message of an error. -/
def SiteError.message : SiteError → String
  | .app _ message _ => message
  | .plain text => text

/-- A file that is left, if anything is. -/
def leaveFile (files : List (List Char) → Option String) (p : List (List Char))
    (left : Option String) : List (List Char) → Option String :=
  match left with
  | none => files
  | some text => Function.update files p (some text)

section
variable (v : Service) (cwd : Directory)

/-- The files in `SSLDefaultDir`. -/
def Service.defaultMaterial : List Char × List Char :=
  let dir := joinPath (joinPath v.storage.toList "webconfig".toList) "ssl/live/default".toList
  (joinPath dir "cert.pem".toList, joinPath dir "key.pem".toList)

/-- `EnsureDomainSSL`. The live directories are not below `site.d`. -/
def Service.ensureDomainSSL (w : HostWeather) (call : Call)
    (files : List (List Char) → Option String) (domain : String) :
    (List (List Char) → Option String) × Option String :=
  let (srcCert, srcKey) := v.defaultMaterial
  let (dstCert, dstKey) := v.defaultSSLPaths domain
  match w.weather.faults call with
  | some err =>
      (leaveFile (leaveFile files (absElements cwd dstCert) (w.sslLeft call).1)
        (absElements cwd dstKey) (w.sslLeft call).2, some err)
  | none =>
  match files (absElements cwd srcCert) with
  | none => (files, some "open cert.pem")
  | some cert =>
  let files := Function.update files (absElements cwd dstCert) (some cert)
  match files (absElements cwd srcKey) with
  | none => (files, some "open key.pem")
  | some key => (Function.update files (absElements cwd dstKey) (some key), none)

/-- `provisionSite`. -/
def Service.provision (w : HostWeather) (s : Host) (site : Website) : Host × Option SiteError :=
  match if site.type = websiteTypeStatic then w.weather.faults .makePath else none with
  | some err => (s, some (.wrap .internal "create site path" err))
  | none =>
  match v.ensureDomainSSL cwd w .provisionSSL s.files site.domain with
  | (files, some err) => ({ s with files := files }, some (.wrap .internal "provision ssl" err))
  | (files, none) =>
      let (panel, err) := v.writeRenderedConfig w.weather s.panel site
      (⟨panel, files⟩, err)

/-- `validateRenderedConfig`. -/
def Service.validateRendered (w : HostWeather) (s : Host) (site : Website) :
    Host × Option SiteError :=
  match v.ensureDomainSSL cwd w .testSSL s.files site.domain with
  | (files, some err) =>
      ({ s with files := files }, some (.wrap .internal "provision ssl for validation" err))
  | (files, none) =>
      match v.renderSiteConfig w.weather .readTestTemplate site with
      | .error err => ({ s with files := files }, some err)
      | .ok content =>
          ({ s with files := files }, (w.weather.accepts content).map (.new .nginxTestFailed))

/-- `Create`. -/
def Service.createSite (w : HostWeather) (s : Host) (i : SiteInput) :
    Host × Except SiteError Website :=
  let e := w.weather
  match v.validateCreateUpdate e s.panel.repo i.domain i.path i.siteType i.upstream 0 with
  | some err => (s, .error err)
  | none =>
  match e.faults .beforeCreate with
  | some err => (s, .error (.plain err))
  | none =>
  match s.panel.createRow e
      ⟨0, i.siteName, i.domain, i.path, i.siteType, i.upstream, false, "", i.active, 0⟩ with
  | (panel, .error err) => ({ s with panel := panel }, .error (.wrap .database "create website" err))
  | (panel, .ok site) =>
  match v.provision cwd w { s with panel := panel } site with
  | (s, some err) => ({ s with panel := s.panel.dropRow e site.id }, .error err)
  | (s, none) =>
  if ¬ site.active then (s, .ok site)
  else
  match v.validateRendered cwd w s site with
  | (s, some err) => ({ s with panel := s.panel.dropSite e site }, .error err)
  | (s, none) =>
  match s.panel.files.enableSite e site.domain with
  | (files, some err) =>
      ({ s with panel := { s.panel with files := files }.dropSite e site },
        .error (.wrap .nginxReloadFailed "enable site" err))
  | (files, none) =>
  match files.reload e .reload with
  | (files, some err) =>
      let files := (files.disableSite e site.domain).1
      ({ s with panel := { s.panel with files := files }.dropSite e site }, .error (.plain err))
  | (files, none) => ({ s with panel := { s.panel with files := files } }, .ok site)

/-- `Update`. -/
def Service.updateSite (w : HostWeather) (s : Host) (id : ℕ) (i : SiteInput) :
    Host × Except SiteError Website :=
  let e := w.weather
  match s.panel.repo.findByID id with
  | none => (s, .error (.new .notFound "website not found"))
  | some existing =>
  match v.validateCreateUpdate e s.panel.repo i.domain i.path i.siteType i.upstream id with
  | some err => (s, .error err)
  | none =>
  match s.panel.updateRow e .updateRow .updateRead (i.apply existing) with
  | (panel, .error err) => ({ s with panel := panel }, .error (.wrap .database "update website" err))
  | (panel, .ok site) =>
  match v.writeRenderedConfig e panel site with
  | (panel, some err) => ({ s with panel := panel }, .error err)
  | (panel, none) =>
  match e.faults .configChanged with
  | some err => ({ s with panel := panel }, .error (.plain err))
  | none =>
  if site.active then
    match v.validateRendered cwd w { s with panel := panel } site with
    | (s, some err) => (s, .error err)
    | (s, none) =>
        match s.panel.files.enableSite e site.domain with
        | (files, some err) => ({ s with panel := { s.panel with files := files } }, .error (.plain err))
        | (files, none) => ({ s with panel := { s.panel with files := files } }, .ok site)
  else
    match panel.files.disableSite e site.domain with
    | (files, some err) => ({ s with panel := { panel with files := files } }, .error (.plain err))
    | (files, none) => ({ s with panel := { panel with files := files } }, .ok site)

/-- The row that `Validate` tests. -/
def ValidateInput.site (i : ValidateInput) : Website :=
  ⟨0, "", i.domain, i.path, if i.type = "" then websiteTypeStatic else i.type, i.upstream, false,
    "", false, 0⟩

/-- `Validate`. -/
def Service.validate (w : HostWeather) (s : Host) (i : ValidateInput) : Host × ValidateResult :=
  match v.validateCreateUpdate w.weather s.panel.repo i.domain i.path i.site.type i.upstream
      i.excludeID with
  | some err => (s, ⟨false, err.message⟩)
  | none =>
      if i.active then
        match v.validateRendered cwd w s i.site with
        | (s, some err) => (s, ⟨false, err.message⟩)
        | (s, none) => (s, ⟨true, ""⟩)
      else (s, ⟨true, ""⟩)

inductive HostRequest where
  | create (i : SiteInput)
  | update (id : ℕ) (i : SiteInput)
  | toggle (id : ℕ)
  | updateNginxConfig (id : ℕ) (config : String)
  | validate (i : ValidateInput)
  deriving Repr, DecidableEq

/-- The host after a request. -/
def Service.serve (w : HostWeather) (s : Host) : HostRequest → Host
  | .create i => (v.createSite cwd w s i).1
  | .update id i => (v.updateSite cwd w s id i).1
  | .toggle id => { s with panel := (Service.toggle w.weather s.panel id).1 }
  | .updateNginxConfig id config =>
      { s with panel := (Service.updateNginxConfig w.weather s.panel id config).1 }
  | .validate i => (v.validate cwd w s i).1

def Service.serveStep (s : Host) (a : HostRequest × HostWeather) : Option Host :=
  some (v.serve cwd a.2 s a.1)

end

/-- The same weather, but for the two copies. -/
def Weather.withCopies (e : Weather) (provision test : Option String) : Weather :=
  { e with faults := fun
      | .provisionSSL => provision
      | .testSSL => test
      | call => e.faults call }

/-- `provisionSite` is what it is in the website service, besides the copy. -/
theorem provision_eq (v : Service) (cwd : Directory) (w : HostWeather) (s : Host) (site : Website)
    (test : Option String) :
    let copy := v.ensureDomainSSL cwd w .provisionSSL s.files site.domain
    let done := v.provisionSite (w.weather.withCopies copy.2 test) s.panel site
    (v.provision cwd w s site).1.panel = done.1 ∧ (v.provision cwd w s site).2 = done.2 ∧
      ((v.provision cwd w s site).1.files = s.files ∧ done.2 ≠ none ∨
        (v.provision cwd w s site).1.files = copy.1) := by
  intro copy done
  have hmake : (if site.type = websiteTypeStatic then
      (w.weather.withCopies copy.2 test).faults .makePath else none) =
      if site.type = websiteTypeStatic then w.weather.faults .makePath else none := rfl
  have hcopy : (w.weather.withCopies copy.2 test).faults .provisionSSL = copy.2 := rfl
  simp only [done, Service.provision, Service.provisionSite, hmake, hcopy]
  cases if site.type = websiteTypeStatic then w.weather.faults .makePath else none with
  | some err => exact ⟨rfl, rfl, .inl ⟨rfl, by simp⟩⟩
  | none =>
      cases hensure : v.ensureDomainSSL cwd w .provisionSSL s.files site.domain with
      | mk files err =>
          have hcopied : copy = (files, err) := hensure
          cases err with
          | some err => simp [hcopied]
          | none =>
              simp only [hcopied]
              exact ⟨rfl, rfl, .inr trivial⟩

/-- `validateRenderedConfig` is what it is in the website service, besides the copy. -/
theorem validateRendered_eq (v : Service) (cwd : Directory) (w : HostWeather) (s : Host)
    (site : Website) (provision : Option String) :
    let copy := v.ensureDomainSSL cwd w .testSSL s.files site.domain
    v.validateRendered cwd w s site = ({ s with files := copy.1 },
      v.validateRenderedConfig (w.weather.withCopies provision copy.2) site) := by
  intro copy
  have hcopy : (w.weather.withCopies provision copy.2).faults .testSSL = copy.2 := rfl
  have hrender : v.renderSiteConfig (w.weather.withCopies provision copy.2) .readTestTemplate site =
      v.renderSiteConfig w.weather .readTestTemplate site := rfl
  have haccepts : (w.weather.withCopies provision copy.2).accepts = w.weather.accepts := rfl
  simp only [Service.validateRendered, Service.validateRenderedConfig, hcopy, hrender, haccepts]
  cases hensure : v.ensureDomainSSL cwd w .testSSL s.files site.domain with
  | mk files err =>
      have hcopied : copy = (files, err) := hensure
      cases err with
      | some err => simp [hcopied]
      | none =>
          simp only [hcopied]
          cases v.renderSiteConfig w.weather .readTestTemplate site <;> rfl

/-- To the panel, `Update` is that of the website service, and of the other files it
changes none or makes the copy of an active website. -/
theorem updateSite_eq (v : Service) (cwd : Directory) (w : HostWeather) (s : Host) (id : ℕ)
    (i : SiteInput) :
    let copy := v.ensureDomainSSL cwd w .testSSL s.files i.domain
    (v.updateSite cwd w s id i).1.panel =
        (v.update (w.weather.withCopies none copy.2) s.panel id i).1 ∧
      ((v.updateSite cwd w s id i).1.files = s.files ∨
        i.active = true ∧ (v.updateSite cwd w s id i).1.files = copy.1) := by
  intro copy
  have hvalid : v.validateCreateUpdate (w.weather.withCopies none copy.2) s.panel.repo i.domain
      i.path i.siteType i.upstream id =
        v.validateCreateUpdate w.weather s.panel.repo i.domain i.path i.siteType i.upstream id := rfl
  have hrow : ∀ site, s.panel.updateRow (w.weather.withCopies none copy.2) .updateRow .updateRead
      site = s.panel.updateRow w.weather .updateRow .updateRead site := fun _ => rfl
  have hwrite : ∀ panel site, v.writeRenderedConfig (w.weather.withCopies none copy.2) panel site =
      v.writeRenderedConfig w.weather panel site := fun _ _ => rfl
  have hchanged : (w.weather.withCopies none copy.2).faults .configChanged =
      w.weather.faults .configChanged := rfl
  have henable : ∀ (f : SiteFiles) domain, f.enableSite (w.weather.withCopies none copy.2) domain =
      f.enableSite w.weather domain := fun _ _ => rfl
  have hdisable : ∀ (f : SiteFiles) domain,
      f.disableSite (w.weather.withCopies none copy.2) domain = f.disableSite w.weather domain :=
    fun _ _ => rfl
  simp only [Service.updateSite, Service.update, hvalid, hrow, hwrite, hchanged, henable, hdisable]
  cases hfind : s.panel.repo.findByID id with
  | none => exact ⟨rfl, .inl rfl⟩
  | some existing =>
  dsimp only
  cases v.validateCreateUpdate w.weather s.panel.repo i.domain i.path i.siteType i.upstream id with
  | some err => exact ⟨rfl, .inl rfl⟩
  | none =>
  dsimp only
  cases hupdate : s.panel.updateRow w.weather .updateRow .updateRead (i.apply existing) with
  | mk panel result =>
  cases result with
  | error err => exact ⟨rfl, .inl rfl⟩
  | ok site =>
  have hsite : site = (i.apply existing).stamped w.weather.now := by
    obtain ⟨-, -, err, herr⟩ | ⟨-, -, ⟨⟨err, herr⟩, -⟩ | ⟨hok, -⟩⟩ :=
      updateRow_cases s.panel w.weather .updateRow .updateRead (i.apply existing)
    · simp [hupdate] at herr
    · simp [hupdate] at herr
    · simpa [hupdate] using hok
  dsimp only
  cases v.writeRenderedConfig w.weather panel site with
  | mk panel err =>
  cases err with
  | some err => exact ⟨rfl, .inl rfl⟩
  | none =>
  dsimp only
  cases w.weather.faults .configChanged with
  | some err => exact ⟨rfl, .inl rfl⟩
  | none =>
  dsimp only
  by_cases hactive : site.active = true
  · rw [if_pos hactive, if_pos hactive]
    have hdomain : site.domain = i.domain := by rw [hsite]; rfl
    have hi : i.active = true := by rw [hsite] at hactive; exact hactive
    have htest := validateRendered_eq v cwd w { s with panel := panel } site none
    rw [hdomain] at htest
    rw [htest]
    dsimp only
    change _ ∧ (_ ∨ _ ∧ _ = copy.1)
    cases v.validateRenderedConfig (w.weather.withCopies none copy.2) site with
    | some err => exact ⟨rfl, .inr ⟨hi, rfl⟩⟩
    | none =>
        dsimp only
        cases panel.files.enableSite w.weather site.domain with
        | mk files err => cases err <;> exact ⟨rfl, .inr ⟨hi, rfl⟩⟩
  · rw [if_neg hactive, if_neg hactive]
    cases panel.files.disableSite w.weather site.domain with
    | mk files err => cases err <;> exact ⟨rfl, .inl rfl⟩

/-- To the panel, `Create` is that of the website service, and of the other files it
changes none or makes one copy or two. -/
theorem createSite_eq (v : Service) (cwd : Directory) (w : HostWeather) (s : Host)
    (i : SiteInput) :
    let first := v.ensureDomainSSL cwd w .provisionSSL s.files i.domain
    let second := v.ensureDomainSSL cwd w .testSSL first.1 i.domain
    (v.createSite cwd w s i).1.panel =
        (v.create (w.weather.withCopies first.2 second.2) s.panel i).1 ∧
      ((v.createSite cwd w s i).1.files = s.files ∨ (v.createSite cwd w s i).1.files = first.1 ∨
        (v.createSite cwd w s i).1.files = second.1) := by
  intro first second
  have hvalid : v.validateCreateUpdate (w.weather.withCopies first.2 second.2) s.panel.repo
      i.domain i.path i.siteType i.upstream 0 =
        v.validateCreateUpdate w.weather s.panel.repo i.domain i.path i.siteType i.upstream 0 := rfl
  have hbefore : (w.weather.withCopies first.2 second.2).faults .beforeCreate =
      w.weather.faults .beforeCreate := rfl
  have hrow : ∀ site, s.panel.createRow (w.weather.withCopies first.2 second.2) site =
      s.panel.createRow w.weather site := fun _ => rfl
  have hdropRow : ∀ (t : Panel) id, t.dropRow (w.weather.withCopies first.2 second.2) id =
      t.dropRow w.weather id := fun _ _ => rfl
  have hdropSite : ∀ (t : Panel) site, t.dropSite (w.weather.withCopies first.2 second.2) site =
      t.dropSite w.weather site := fun _ _ => rfl
  have henable : ∀ (f : SiteFiles) domain,
      f.enableSite (w.weather.withCopies first.2 second.2) domain =
        f.enableSite w.weather domain := fun _ _ => rfl
  have hdisable : ∀ (f : SiteFiles) domain,
      f.disableSite (w.weather.withCopies first.2 second.2) domain =
        f.disableSite w.weather domain := fun _ _ => rfl
  have hreload : ∀ f : SiteFiles, f.reload (w.weather.withCopies first.2 second.2) .reload =
      f.reload w.weather .reload := fun _ => rfl
  simp only [Service.createSite, Service.create, hvalid, hbefore, hrow, hdropRow, hdropSite, henable,
    hdisable, hreload]
  cases v.validateCreateUpdate w.weather s.panel.repo i.domain i.path i.siteType i.upstream 0 with
  | some err => exact ⟨rfl, .inl rfl⟩
  | none =>
  dsimp only
  cases w.weather.faults .beforeCreate with
  | some err => exact ⟨rfl, .inl rfl⟩
  | none =>
  dsimp only
  cases hcreate : s.panel.createRow w.weather
    ⟨0, i.siteName, i.domain, i.path, i.siteType, i.upstream, false, "", i.active, 0⟩ with
  | mk panel result =>
  cases result with
  | error err => exact ⟨rfl, .inl rfl⟩
  | ok site =>
  have hdomain : site.domain = i.domain := by
    obtain ⟨-, -, err, herr⟩ | ⟨-, -, ⟨⟨err, herr⟩, -⟩ | hok⟩ := createRow_cases s.panel w.weather
      ⟨0, i.siteName, i.domain, i.path, i.siteType, i.upstream, false, "", i.active, 0⟩
    · simp [hcreate] at herr
    · simp [hcreate] at herr
    · rw [hcreate] at hok
      rw [Except.ok.inj hok]
  dsimp only
  obtain ⟨hpanel, herr, hfiles⟩ := provision_eq v cwd w { s with panel := panel } site second.2
  rw [hdomain] at hpanel herr hfiles
  dsimp only at hpanel herr hfiles
  change _ = (v.provisionSite (w.weather.withCopies first.2 second.2) panel site).1 at hpanel
  change _ = (v.provisionSite (w.weather.withCopies first.2 second.2) panel site).2 at herr
  change _ ∧ (v.provisionSite (w.weather.withCopies first.2 second.2) panel site).2 ≠ none ∨
    _ = first.1 at hfiles
  cases hprov : v.provision cwd w { s with panel := panel } site with
  | mk t err =>
  rw [hprov] at hpanel herr hfiles
  dsimp only at hpanel herr hfiles
  cases hdone : v.provisionSite (w.weather.withCopies first.2 second.2) panel site with
  | mk panel' err' =>
  rw [hdone] at hpanel herr hfiles
  dsimp only at hpanel herr hfiles
  subst hpanel herr
  cases err with
  | some err => exact ⟨rfl, hfiles.elim (fun h => .inl h.1) (fun h => .inr (.inl h))⟩
  | none =>
  have hfirst : t.files = first.1 := hfiles.resolve_left fun h => h.2 rfl
  dsimp only
  by_cases hactive : ¬ site.active = true
  · rw [if_pos hactive, if_pos hactive]
    exact ⟨rfl, .inr (.inl hfirst)⟩
  · rw [if_neg hactive, if_neg hactive]
    have htest := validateRendered_eq v cwd w t site first.2
    rw [hdomain, hfirst] at htest
    change _ = ({ t with files := second.1 },
      v.validateRenderedConfig (w.weather.withCopies first.2 second.2) site) at htest
    rw [htest]
    cases v.validateRenderedConfig (w.weather.withCopies first.2 second.2) site with
    | some err => exact ⟨rfl, .inr (.inr rfl)⟩
    | none =>
        dsimp only
        cases t.panel.files.enableSite w.weather site.domain with
        | mk files err =>
            cases err with
            | some err => exact ⟨rfl, .inr (.inr rfl)⟩
            | none =>
                dsimp only
                cases files.reload w.weather .reload with
                | mk files err => cases err <;> exact ⟨rfl, .inr (.inr rfl)⟩

/-- `Validate` changes no row and no configuration, and of the other files it changes
none or makes the copy of an active website. -/
theorem validate_eq (v : Service) (cwd : Directory) (w : HostWeather) (s : Host)
    (i : ValidateInput) :
    (v.validate cwd w s i).1 = s ∨ i.active = true ∧ (v.validate cwd w s i).1 =
      { s with files := (v.ensureDomainSSL cwd w .testSSL s.files i.domain).1 } := by
  unfold Service.validate
  cases v.validateCreateUpdate w.weather s.panel.repo i.domain i.path i.site.type i.upstream
    i.excludeID with
  | some err => exact .inl rfl
  | none =>
      by_cases hactive : i.active = true
      · refine .inr ⟨hactive, ?_⟩
        have htest := validateRendered_eq v cwd w s i.site none
        dsimp only
        rw [if_pos hactive, htest]
        split
        · rename_i heq
          exact (Prod.mk.inj heq).1.symm
        · rename_i heq
          exact (Prod.mk.inj heq).1.symm
      · exact .inl (by simp [hactive])

end GoSite.Website
