import GoSite.DefaultCertificates
import GoSite.GuardedRuns
import GoSite.ServedSites

/-!
# What becomes of an uploaded certificate

An uploaded certificate lies where the default certificate of its domain would be
copied to. It stays until a request makes that copy, or writes a configuration that
names other files.
-/
namespace GoSite.Website
open GoStrings Paths GuardedRuns
open GoSite.Terminal (cleanPath joinPath)

section
variable (v : Service) (cwd : Directory)

/-- The directory of the live certificate of a domain. -/
def Service.liveDir (domain : String) : List Char :=
  joinPath (joinPath v.storage.toList "webconfig/ssl/live".toList) domain.toList

/-- Two domains have one live directory. -/
def Service.SameLive (d₁ d₂ : String) : Prop :=
  absElements cwd (v.liveDir d₁) = absElements cwd (v.liveDir d₂)

instance (d₁ d₂ : String) : Decidable (v.SameLive cwd d₁ d₂) := by
  unfold Service.SameLive
  infer_instance

/-- The configuration names the live certificate and key of the domain. -/
def Service.NamesLive (domain config : String) : Prop :=
  certPathsFound config = true ∧ parseCertPaths config.toList = v.defaultSSLPaths domain

instance (domain config : String) : Decidable (v.NamesLive domain config) := by
  unfold Service.NamesLive
  infer_instance

/-- The checks refuse the request before it changes anything. -/
def Service.Refuses (s : Host) : HostRequest × HostWeather → Prop
  | (.create i, w) =>
      v.validateCreateUpdate w.weather s.panel.repo i.domain i.path i.siteType i.upstream 0 ≠ none
  | (.update id i, w) =>
      s.panel.repo.findByID id = none ∨
        v.validateCreateUpdate w.weather s.panel.repo i.domain i.path i.siteType i.upstream id ≠ none
  | (.validate i, w) =>
      v.validateCreateUpdate w.weather s.panel.repo i.domain i.path i.site.type i.upstream
        i.excludeID ≠ none
  | _ => False

/-- The request makes no copy over the live files of the domain, and what it writes
over the configuration names them. -/
def Service.SparesLive (id : ℕ) (domain : String) (s : Host) : HostRequest × HostWeather → Prop
  | (.create i, _) => confName i.domain ≠ confName domain ∧ ¬ v.SameLive cwd i.domain domain
  | (.update other i, w) =>
      (other = id → i.domain = domain) ∧ (i.active = true → ¬ v.SameLive cwd i.domain domain) ∧
        (confName i.domain = confName domain → w.weather.leaves .writeConfig = none ∧
          ∀ existing content, s.panel.repo.findByID other = some existing →
            v.renderSiteConfig w.weather .readTemplate (i.apply existing) = .ok content →
              v.NamesLive domain content)
  | (.toggle _, _) => True
  | (.updateNginxConfig other config, w) =>
      ∀ site, s.panel.repo.findByID other = some site → confName site.domain = confName domain →
        v.NamesLive domain (withoutCR config) ∧ w.weather.leaves .writeConfig = none ∧
          w.weather.leaves .restoreConfig = none
  | (.validate i, _) => i.active = false

/-- The request is refused, or it spares the live files and no repair of a reload
writes to the configuration. -/
def Service.Spares (id : ℕ) (domain : String) (s : Host) (a : HostRequest × HostWeather) : Prop :=
  v.Refuses s a ∨ a.2.weather.Quiet (confName domain) ∧ v.SparesLive cwd id domain s a

/-- The website has its row, its configuration names the live files, and they hold
what was uploaded. -/
structure Service.Uploaded (id : ℕ) (domain publicPEM privatePEM : String) (s : Host) : Prop where
  serves : s.panel.Serves id domain (v.NamesLive domain)
  cert : s.files (absElements cwd (v.defaultSSLPaths domain).1) = some publicPEM
  key : s.files (absElements cwd (v.defaultSSLPaths domain).2) = some privatePEM

end

section
variable {v : Service} {cwd : Directory}

theorem Service.liveDir_ne_nil (v : Service) (domain : String) : v.liveDir domain ≠ [] :=
  joinPath_ne_nil _ _

/-- The live files are children of the live directory. -/
theorem absElements_defaultSSLPaths (v : Service) (cwd : Directory) (domain : String) :
    absElements cwd (v.defaultSSLPaths domain).1 =
        absElements cwd (v.liveDir domain) ++ ["cert.pem".toList] ∧
      absElements cwd (v.defaultSSLPaths domain).2 =
        absElements cwd (v.liveDir domain) ++ ["key.pem".toList] := by
  have hjoin : ∀ name : List Char, Plain name →
      absElements cwd (joinPath (v.liveDir domain) name) =
        absElements cwd (v.liveDir domain) ++ [name] := fun name hname => by
    rw [absElements_join cwd (v.liveDir_ne_nil domain), resolve_name hname]
  exact ⟨hjoin _ (by decide), hjoin _ (by decide)⟩

/-- The certificate and the key are two files. -/
theorem cert_ne_key (v : Service) (cwd : Directory) (d₁ d₂ : String) :
    absElements cwd (v.defaultSSLPaths d₁).1 ≠ absElements cwd (v.defaultSSLPaths d₂).2 := by
  obtain ⟨hcert, -⟩ := absElements_defaultSSLPaths v cwd d₁
  obtain ⟨-, hkey⟩ := absElements_defaultSSLPaths v cwd d₂
  rw [hcert, hkey]
  intro h
  have hlast := congrArg List.getLast? h
  simp at hlast

/-- A live directory does not lie in `site.d`. -/
theorem not_siteD_live (v : Service) (cwd : Directory) {domain : String}
    (hdots : ¬ ['.', '.'] <:+: domain.toList) (rest : List (List Char)) :
    ¬ absElements cwd (joinPath (joinPath v.storage.toList "webconfig".toList) "site.d".toList) <+:
      absElements cwd (v.liveDir domain) ++ rest := by
  obtain ⟨es, hes⟩ := absElements_join_relative cwd v.storage.toList
  have hsite : absElements cwd (joinPath (joinPath v.storage.toList "webconfig".toList)
      "site.d".toList) = es ++ ["webconfig".toList, "site.d".toList] := by
    rw [absElements_join cwd (joinPath_ne_nil _ _), hes _ (by decide), resolve_name (by decide),
      resolve_name (by decide), List.append_assoc]
    rfl
  have hlive : absElements cwd (joinPath v.storage.toList "webconfig/ssl/live".toList) =
      es ++ ["webconfig".toList, "ssl".toList, "live".toList] := by
    rw [hes _ (by decide), resolve_down _ (by decide)]
    exact congrArg (es ++ ·) (by decide)
  have hup : ∀ e ∈ domain.toList.splitOn '/', e ≠ ['.', '.'] := by
    rintro e he rfl
    exact hdots (splitOn_isInfix he)
  rw [hsite, Service.liveDir, absElements_join cwd (joinPath_ne_nil _ _), hlive,
    resolve_down _ hup, List.append_assoc, List.append_assoc, List.prefix_append_right_inj]
  simp

/-- The live files do not lie in `site.d`. -/
theorem siteName_defaultSSLPaths (v : Service) (cwd : Directory) {domain : String}
    (hdots : ¬ ['.', '.'] <:+: domain.toList) :
    v.siteName cwd (v.defaultSSLPaths domain).1 = none ∧
      v.siteName cwd (v.defaultSSLPaths domain).2 = none := by
  obtain ⟨hcert, hkey⟩ := absElements_defaultSSLPaths v cwd domain
  refine ⟨?_, ?_⟩
  · rw [Service.siteName, hcert]
    exact if_neg fun h => not_siteD_live v cwd hdots _ h.1
  · rw [Service.siteName, hkey]
    exact if_neg fun h => not_siteD_live v cwd hdots _ h.1

theorem absElements_ne_of_not_sameLive {d₁ d₂ : String} (h : ¬ v.SameLive cwd d₁ d₂) :
    absElements cwd (v.defaultSSLPaths d₁).1 ≠ absElements cwd (v.defaultSSLPaths d₂).1 ∧
      absElements cwd (v.defaultSSLPaths d₁).2 ≠ absElements cwd (v.defaultSSLPaths d₂).2 := by
  obtain ⟨hcert₁, hkey₁⟩ := absElements_defaultSSLPaths v cwd d₁
  obtain ⟨hcert₂, hkey₂⟩ := absElements_defaultSSLPaths v cwd d₂
  rw [hcert₁, hkey₁, hcert₂, hkey₂]
  exact ⟨fun heq => h (List.append_inj_left' heq rfl), fun heq => h (List.append_inj_left' heq rfl)⟩

theorem leaveFile_of_ne {files : List (List Char) → Option String} {p q : List (List Char)}
    (hne : q ≠ p) (left : Option String) : leaveFile files p left q = files q := by
  cases left with
  | none => rfl
  | some text => exact Function.update_of_ne hne _ _

/-- A copy changes no file but the two it is made to. -/
theorem ensureDomainSSL_other (w : HostWeather) (call : Call)
    (files : List (List Char) → Option String) (domain : String) {q : List (List Char)}
    (hcert : q ≠ absElements cwd (v.defaultSSLPaths domain).1)
    (hkey : q ≠ absElements cwd (v.defaultSSLPaths domain).2) :
    (v.ensureDomainSSL cwd w call files domain).1 q = files q := by
  simp only [Service.ensureDomainSSL]
  split
  · exact (leaveFile_of_ne hkey _).trans (leaveFile_of_ne hcert _)
  · split
    · rfl
    · split
      · exact Function.update_of_ne hcert _ _
      · exact (Function.update_of_ne hkey _ _).trans (Function.update_of_ne hcert _ _)

/-- A copy for another live directory leaves the live files of the domain. -/
theorem ensureDomainSSL_live (w : HostWeather) (call : Call)
    (files : List (List Char) → Option String) {d domain : String}
    (h : ¬ v.SameLive cwd d domain) :
    (v.ensureDomainSSL cwd w call files d).1 (absElements cwd (v.defaultSSLPaths domain).1) =
        files (absElements cwd (v.defaultSSLPaths domain).1) ∧
      (v.ensureDomainSSL cwd w call files d).1 (absElements cwd (v.defaultSSLPaths domain).2) =
        files (absElements cwd (v.defaultSSLPaths domain).2) := by
  obtain ⟨hcert, hkey⟩ := absElements_ne_of_not_sameLive h
  exact ⟨ensureDomainSSL_other w call files d hcert.symm (cert_ne_key v cwd domain d),
    ensureDomainSSL_other w call files d (cert_ne_key v cwd d domain).symm hkey.symm⟩

/-- A refused request changes nothing. -/
theorem serve_of_refuses {s : Host} {a : HostRequest × HostWeather} (h : v.Refuses s a) :
    v.serve cwd a.2 s a.1 = s := by
  obtain ⟨request, w⟩ := a
  cases request with
  | create i =>
      obtain ⟨err, herr⟩ := Option.ne_none_iff_exists'.mp h
      simp [Service.serve, Service.createSite, herr]
  | update id i =>
      obtain hnone | hrefuse := h
      · simp [Service.serve, Service.updateSite, hnone]
      · obtain ⟨err, herr⟩ := Option.ne_none_iff_exists'.mp hrefuse
        simp only [Service.serve, Service.updateSite, herr]
        cases s.panel.repo.findByID id <;> rfl
  | toggle id => exact h.elim
  | updateNginxConfig id config => exact h.elim
  | validate i =>
      obtain ⟨err, herr⟩ := Option.ne_none_iff_exists'.mp h
      simp [Service.serve, Service.validate, herr]

/-- The live files of the domain are the same in both. -/
def Service.LiveEq (v : Service) (cwd : Directory) (domain : String)
    (files files' : List (List Char) → Option String) : Prop :=
  files' (absElements cwd (v.defaultSSLPaths domain).1) =
      files (absElements cwd (v.defaultSSLPaths domain).1) ∧
    files' (absElements cwd (v.defaultSSLPaths domain).2) =
      files (absElements cwd (v.defaultSSLPaths domain).2)

theorem Service.LiveEq.trans {domain : String} {f g h : List (List Char) → Option String}
    (hfg : v.LiveEq cwd domain f g) (hgh : v.LiveEq cwd domain g h) : v.LiveEq cwd domain f h :=
  ⟨hgh.1.trans hfg.1, hgh.2.trans hfg.2⟩

section
variable {id : ℕ} {domain publicPEM privatePEM : String} {s : Host}

/-- `Create` for another live directory leaves the live files. -/
theorem createSite_live (w : HostWeather) {i : SiteInput} (h : ¬ v.SameLive cwd i.domain domain) :
    v.LiveEq cwd domain s.files (v.createSite cwd w s i).1.files := by
  obtain ⟨-, hfiles⟩ := createSite_eq v cwd w s i
  have hfirst : v.LiveEq cwd domain s.files
      (v.ensureDomainSSL cwd w .provisionSSL s.files i.domain).1 := ensureDomainSSL_live _ _ _ h
  obtain heq | heq | heq := hfiles
  · rw [heq]
    exact ⟨rfl, rfl⟩
  · rwa [heq]
  · rw [heq]
    exact hfirst.trans (ensureDomainSSL_live _ _ _ h)

/-- `Update` leaves the live files when it is for another live directory, or inactive. -/
theorem updateSite_live (w : HostWeather) (other : ℕ) {i : SiteInput}
    (h : i.active = true → ¬ v.SameLive cwd i.domain domain) :
    v.LiveEq cwd domain s.files (v.updateSite cwd w s other i).1.files := by
  obtain ⟨-, heq | ⟨hactive, heq⟩⟩ := updateSite_eq v cwd w s other i
  · rw [heq]
    exact ⟨rfl, rfl⟩
  · rw [heq]
    exact ensureDomainSSL_live _ _ _ (h hactive)

theorem Service.Uploaded.next (h : v.Uploaded cwd id domain publicPEM privatePEM s) {t : Host}
    (hserves : t.panel.Serves id domain (v.NamesLive domain))
    (hfiles : v.LiveEq cwd domain s.files t.files) :
    v.Uploaded cwd id domain publicPEM privatePEM t :=
  ⟨hserves, hfiles.1.trans h.cert, hfiles.2.trans h.key⟩

/-- An upload survives a request that spares it. -/
theorem uploaded_serve (h : v.Uploaded cwd id domain publicPEM privatePEM s)
    {a : HostRequest × HostWeather} (ha : v.Spares cwd id domain s a) :
    v.Uploaded cwd id domain publicPEM privatePEM (v.serve cwd a.2 s a.1) := by
  obtain hrefuses | ⟨hquiet, hspares⟩ := ha
  · rwa [serve_of_refuses hrefuses]
  obtain ⟨request, w⟩ := a
  cases request with
  | create i =>
      obtain ⟨hname, hlive⟩ := hspares
      refine h.next ?_ (createSite_live w hlive)
      rw [Service.serve, (createSite_eq v cwd w s i).1]
      have hcalm : ∀ first second, (w.weather.withCopies first second).Quiet (confName domain) :=
        fun _ _ => hquiet
      exact create_serves h.serves (hcalm _ _) i hname
  | update other i =>
      obtain ⟨hrow, hactive, hwrites⟩ := hspares
      refine h.next ?_ (updateSite_live w other hactive)
      rw [Service.serve, (updateSite_eq v cwd w s other i).1]
      exact update_serves h.serves hrow hwrites
  | toggle other => exact h.next (toggle_serves h.serves hquiet other) ⟨rfl, rfl⟩
  | updateNginxConfig other config =>
      exact h.next (updateNginxConfig_serves h.serves hquiet other hspares) ⟨rfl, rfl⟩
  | validate i =>
      obtain heq | ⟨hactive, -⟩ := validate_eq v cwd w s i
      · rwa [Service.serve, heq]
      · have hinactive : i.active = false := hspares
        simp [hinactive] at hactive

/-- What was uploaded is shown. -/
theorem Service.Uploaded.shows (h : v.Uploaded cwd id domain publicPEM privatePEM s)
    (hdots : ¬ ['.', '.'] <:+: domain.toList) (parseCertExpiry : String → Option (ℤ × Bool)) :
    v.Shows cwd parseCertExpiry s id publicPEM privatePEM := by
  obtain ⟨site, hfind, rfl⟩ := h.serves.row
  obtain ⟨config, hconfig, hfound, hpaths⟩ := h.serves.config
  obtain ⟨hcert, hkey⟩ := siteName_defaultSSLPaths v cwd hdots
  rw [shows_iff v cwd hfind hconfig, hpaths]
  refine ⟨hfound, ?_, ?_⟩
  · simp [Host.readFile, hcert, h.cert]
  · simp [Host.readFile, hkey, h.key]

/-- An upload over a configuration that names the live files goes to them. -/
theorem uploaded_of_updateManual {u : UploadWeather} {s' : Host} {site : Website}
    {input : ManualInput} {config : String} (hdots : ¬ ['.', '.'] <:+: site.domain.toList)
    (hfind : s.panel.repo.findByID id = some site) (hread : u.fails .readConfig = none)
    (hconfig : s.panel.files.siteD (confName site.domain) = some config)
    (hlive : v.NamesLive site.domain config) (hquiet : u.weather.Quiet (confName site.domain))
    (hok : v.updateManual cwd u s id input = (s', none)) :
    v.Uploaded cwd id site.domain (withoutCR input.publicPEM) (withoutCR input.privatePEM) s' := by
  obtain ⟨hfound, hpaths⟩ := hlive
  have hupload : v.uploadPaths site.domain config = v.defaultSSLPaths site.domain := by
    rw [Service.uploadPaths, if_pos hfound, hpaths]
  obtain ⟨t, ht, hrow, hfiles, hsites⟩ := updateManual_written v cwd hfind hread hconfig hok
  obtain ⟨hcert, hkey⟩ := siteName_defaultSSLPaths v cwd hdots
  rw [hupload] at ht
  simp only [Host.writeFile, hcert, hkey] at ht
  subst ht
  refine ⟨⟨hrow, v.updatedConfig site.domain config, ?_, ?_⟩, ?_, ?_⟩
  · rw [hsites, reload_siteD_quiet _ (hquiet .reload)]
    simp [SiteFiles.withConfig]
  · have hboth : NamesBoth config.toList := by
      rw [← String.ofList_toList (s := config), certPathsFound_iff] at hfound
      exact (parseCertPaths_found hfound.1 hfound.2).2.2
    obtain ⟨hcertRead, hkeyRead⟩ := @uploadPaths_readable v site.domain config
      fun h => absurd hfound (by simp [h])
    obtain ⟨hnames, hparse⟩ := updatedConfig_found v hcertRead hkeyRead
    exact ⟨hnames.mpr hboth, (hparse hboth).trans hupload⟩
  · rw [hfiles]
    exact (Function.update_of_ne (cert_ne_key v cwd _ _) _ _).trans (Function.update_self _ _ _)
  · rw [hfiles]
    exact Function.update_self _ _ _

end

end

/-- What was uploaded to the live files of the domain is shown along every run whose
steps spare it, and a test of an inactive website changes nothing. -/
theorem upload_survives (v : Service) (cwd : Directory)
    (parseCertExpiry : String → Option (ℤ × Bool)) (u : UploadWeather) {s s' : Host} {id : ℕ}
    {site : Website} {config : String} (input : ManualInput)
    (haccept : ∃ e, isValidDomain e site.domain = true)
    (hfind : s.panel.repo.findByID id = some site) (hread : u.fails .readConfig = none)
    (hconfig : s.panel.files.siteD (confName site.domain) = some config)
    (hlive : v.NamesLive site.domain config) (hquiet : u.weather.Quiet (confName site.domain))
    (hok : v.updateManual cwd u s id input = (s', none)) {as : List (HostRequest × HostWeather)}
    (has : Guarded (v.serveStep cwd) (v.Spares cwd id site.domain) s' as) :
    Along (v.serveStep cwd) (fun t => v.Shows cwd parseCertExpiry t id
        (withoutCR input.publicPEM) (withoutCR input.privatePEM)) s' as ∧
      Guarded (v.serveStep cwd) (fun t a => ∀ i, a.1 = .validate i → v.serve cwd a.2 t a.1 = t)
        s' as := by
  obtain ⟨e, haccept⟩ := haccept
  have hdots := not_dots_of_isValidDomain haccept
  have hstart := uploaded_of_updateManual hdots hfind hread hconfig hlive hquiet hok
  refine ⟨?_, ?_⟩
  · refine (along_of_guarded ?_ hstart has).mono fun t ht => ht.shows hdots parseCertExpiry
    intro t a t' ht ha ht'
    obtain rfl := Option.some.inj ht'
    exact uploaded_serve ht ha
  · refine has.mono fun t a ha i hi => ?_
    obtain hrefuses | ⟨-, hspares⟩ := ha
    · exact serve_of_refuses hrefuses
    · obtain ⟨request, w⟩ := a
      obtain rfl : request = .validate i := hi
      obtain heq | ⟨hactive, -⟩ := validate_eq v cwd w t i
      · exact heq
      · have hinactive : i.active = false := hspares
        simp [hinactive] at hactive

/-- A configuration that names the live files of the website of `demoPanel`. -/
def liveConfig : String :=
  "ssl_certificate /s/webconfig/ssl/live/a.b/cert.pem;\n" ++
    "ssl_certificate_key /s/webconfig/ssl/live/a.b/key.pem;"

/-- Every file is the default one. -/
def liveHost : Host := ⟨(demoHost (some liveConfig)).panel, fun _ => some "default"⟩

def calmHost : HostWeather := ⟨calmWeather, fun _ => (none, none)⟩

/-- The host after an upload to the live files. -/
def uploadedHost : Host :=
  (demoService.updateManual ⟨[], plain_nil⟩ calmUpload liveHost 1 demoInputPEM).1

theorem uploadedHost_eq :
    demoService.updateManual ⟨[], by simp⟩ calmUpload liveHost 1 demoInputPEM =
      (uploadedHost, none) := by
  have hok : (demoService.updateManual ⟨[], by simp⟩ calmUpload liveHost 1 demoInputPEM).2 =
      none := by decide
  rw [uploadedHost, ← hok]

theorem calm_quiet (n : List Char) : calmWeather.Quiet n := by
  intro call r hr
  simp [calmWeather] at hr

theorem liveHost_find : liveHost.panel.repo.findByID 1 = some demoSite := by decide

theorem liveHost_config :
    liveHost.panel.files.siteD (confName demoSite.domain) = some liveConfig := by decide

theorem liveConfig_names : demoService.NamesLive demoSite.domain liveConfig := by decide

/-- The website is toggled, and another one is created. -/
theorem upload_survives_demo :
    Along (demoService.serveStep ⟨[], by simp⟩)
      (fun t => demoService.Shows ⟨[], by simp⟩ (fun _ => none) t 1
        (withoutCR "BEGIN CERTIFICATE") (withoutCR "BEGIN PRIVATE KEY")) uploadedHost
      [(.toggle 1, calmHost), (.create (demoInput "c.d" "/w/c"), calmHost)] := by
  refine (upload_survives demoService ⟨[], by simp⟩ (fun _ => none) calmUpload demoInputPEM
    ⟨calmWeather, by decide⟩ liveHost_find rfl liveHost_config liveConfig_names
    (calm_quiet _) uploadedHost_eq ?_).1
  intro s₁ hs₁
  refine ⟨.inr ⟨calm_quiet _, trivial⟩, fun s₂ hs₂ => ⟨.inr ⟨calm_quiet _, ?_, ?_⟩, trivial⟩⟩
  · decide
  · decide

/-- A test of the website while it is active puts the default certificate back. -/
theorem validate_replaces_upload :
    ¬ ∀ (v : Service) (cwd : Directory) (parseCertExpiry : String → Option (ℤ × Bool))
      (u : UploadWeather) (s s' : Host) (id : ℕ) (site : Website) (config : String)
      (input : ManualInput), (∃ e, isValidDomain e site.domain = true) →
      s.panel.repo.findByID id = some site → u.fails .readConfig = none →
      s.panel.files.siteD (confName site.domain) = some config →
      v.NamesLive site.domain config → u.weather.Quiet (confName site.domain) →
      v.updateManual cwd u s id input = (s', none) →
      ∀ (w : HostWeather) (i : ValidateInput),
        v.Shows cwd parseCertExpiry (v.validate cwd w s' i).1 id (withoutCR input.publicPEM)
          (withoutCR input.privatePEM) := by
  intro h
  obtain ⟨status, hstatus, -, hpublic, -⟩ := h demoService ⟨[], by simp⟩ (fun _ => none) calmUpload
    liveHost uploadedHost 1 demoSite liveConfig demoInputPEM ⟨calmWeather, by decide⟩
    liveHost_find rfl liveHost_config liveConfig_names (calm_quiet _) uploadedHost_eq calmHost
    ⟨"a.b", "/w/a", "static", "", true, 1⟩
  have hdefault : (demoService.getStatus ⟨[], by simp⟩ (fun _ => none)
      (demoService.validate ⟨[], by simp⟩ calmHost uploadedHost
        ⟨"a.b", "/w/a", "static", "", true, 1⟩).1 1).toOption.map Status.publicPEM =
      some "default" := by
    set_option maxRecDepth 20000 in
    decide
  rw [hstatus] at hdefault
  have hother : withoutCR demoInputPEM.publicPEM ≠ "default" := by decide
  exact hother (hpublic.symm.trans (by simpa [Except.toOption] using hdefault))

end GoSite.Website
