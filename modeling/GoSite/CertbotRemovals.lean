import GoSite.UploadFailures

/-!
# What the preparation for certbot removes

Certbot wants to create the live directory of a domain itself, so the placeholder there is
removed. Before that the configuration of the website is repointed, when it names exactly
the two files of the placeholder.
-/
namespace GoSite.Website
open GoStrings Paths NginxConf

/-- What the request meets besides the preparation. -/
structure EnqueueWeather where
  prepare : CertbotWeather
  beforeIssue : Option String
  createJob : Except String ℕ

/-- The row that is created for the job. -/
structure CertbotJob where
  id : ℕ
  jobType : String
  name : String
  status : String
  output : String
  deriving Repr, DecidableEq

section
variable (v : Service) (cwd : Directory) (opens : List Char → List Char)

/-- `EnqueueCertbot`. -/
def Service.enqueueCertbot (w : EnqueueWeather) (s : Host) (id : ℕ) :
    Host × Except SiteError CertbotJob :=
  match s.panel.repo.findByID id with
  | none => (s, .error (.new .notFound "website not found"))
  | some site =>
  match v.prepareForCertbot cwd w.prepare s id with
  | (s, some err) => (s, .error err)
  | (s, none) =>
  match w.beforeIssue, w.createJob with
  | some err, _ => (s, .error (.plain err))
  | none, .error err => (s, .error (.wrap .database "enqueue certbot job" err))
  | none, .ok jobID =>
      (s, .ok ⟨jobID, "certbot", site.domain, "pending",
        "certbot --non-interactive --agree-tos --register-unsafely-without-email --nginx " ++
          "--no-redirect -d " ++ site.domain⟩)

/-- A certificate or key that some configuration still names and that was there is still
there. `opens` is the panel's path of the file that nginx opens. -/
def Host.NoDangling (s t : Host) : Prop :=
  ∀ n config, t.panel.files.siteD n = some config → ∀ arg ∈ certFiles config.toList,
    (s.readFile v cwd (opens arg)).isSome → (t.readFile v cwd (opens arg)).isSome

/-- The configuration names the two files of the placeholder. -/
def Service.NamesPlaceholder (domain config : String) : Prop :=
  certPathsFound config = true ∧
    absElements cwd (parseCertPaths config.toList).1 =
      absElements cwd (v.defaultSSLPaths domain).1 ∧
    absElements cwd (parseCertPaths config.toList).2 =
      absElements cwd (v.defaultSSLPaths domain).2

instance (domain config : String) : Decidable (v.NamesPlaceholder cwd domain config) := by
  unfold Service.NamesPlaceholder
  infer_instance

/-- A configuration with its directives repointed to the default certificate. -/
def Service.repointed (config : String) : String :=
  String.ofList (updateSSLDirectives config.toList v.defaultMaterial.1 v.defaultMaterial.2)

/-- The configurations when the placeholder is removed. -/
def Service.configsAtRemoval (e : Weather) (s : Host) (domain config : String) :
    List Char → Option String :=
  if v.NamesPlaceholder cwd domain config then
    fun n => (Function.update s.panel.files.siteD (confName domain)
      (some (v.repointed config)) n).map (e.repaired n)
  else s.panel.files.siteD

/-- The file is in the live directory and goes with it. -/
def Host.Goes (w : CertbotWeather) (s : Host) (domain : String) (path : List Char) : Prop :=
  v.siteName cwd path = none ∧ (s.files (absElements cwd path)).isSome ∧
    absElements cwd (v.liveDir domain) <+: absElements cwd path ∧
    ¬ (w.removeFails.isSome ∧ w.keeps (absElements cwd path) = true)

/-- Nothing is removed, because there is no placeholder or no configuration, or a step of
the repointing fails; or no configuration names a file that goes. -/
def Service.CertbotSpares (w : CertbotWeather) (s : Host) (id : ℕ) : Prop :=
  ∀ site config, s.panel.repo.findByID id = some site →
    s.isPlaceholderSSL v cwd site.domain = true →
    s.panel.files.siteD (confName site.domain) = some config →
    (v.NamesPlaceholder cwd site.domain config →
      w.weather.Works [.backupConfig, .writeConfig, .reload] ∧
        w.weather.accepts (v.repointed config) = none) →
    ∀ n text, v.configsAtRemoval cwd w.weather s site.domain config n = some text →
      ∀ arg ∈ certFiles text.toList, ¬ s.Goes v cwd w site.domain (opens arg)

end

section
variable {v : Service} {cwd : Directory} {opens : List Char → List Char} {s t : Host}

/-- No file goes when only configurations are written. -/
theorem noDangling_of_files (hfiles : t.files = s.files)
    (hsites : ∀ n, (s.panel.files.siteD n).isSome → (t.panel.files.siteD n).isSome) :
    s.NoDangling v cwd opens t := by
  intro n config _ arg _ hthere
  unfold Host.readFile at hthere ⊢
  cases hname : v.siteName cwd (opens arg) with
  | none =>
      rw [hname] at hthere
      rwa [hfiles]
  | some m =>
      rw [hname] at hthere
      exact hsites m hthere

theorem writeSiteConfig_isSome (f : SiteFiles) (e : Weather) (call : Call)
    (domain content : String) {n : List Char} (h : (f.siteD n).isSome) :
    ((f.writeSiteConfig e call domain content).1.siteD n).isSome := by
  have hwritten : ∀ text : String,
      (Function.update f.siteD (confName domain) (some text) n).isSome := by
    intro text
    by_cases hn : n = confName domain
    · subst hn
      rw [Function.update_self]
      rfl
    · rwa [Function.update_of_ne hn]
  unfold SiteFiles.writeSiteConfig
  cases e.faults call with
  | none => exact hwritten content
  | some err =>
      cases e.leaves call with
      | none => exact h
      | some left => exact hwritten left

theorem updateSiteConfig_isSome (f : SiteFiles) (e : Weather) (domain content : String)
    {n : List Char} (h : (f.siteD n).isSome) :
    ((f.updateSiteConfig e domain content).1.siteD n).isSome := by
  by_cases hstop : e.faults .backupConfig ≠ none ∧ f.siteD (confName domain) ≠ none
  · obtain ⟨err, heq⟩ := updateSiteConfig_stops hstop content
    rwa [heq]
  · have hwrite := writeSiteConfig_isSome f e .writeConfig domain content h
    rw [updateSiteConfig_writes hstop]
    rcases hg : f.writeSiteConfig e .writeConfig domain content with ⟨g, err⟩
    rw [hg] at hwrite
    cases err with
    | some err => exact hwrite
    | none =>
        dsimp only
        cases e.accepts content with
        | none => exact hwrite
        | some err =>
            dsimp only
            split_ifs
            · exact writeSiteConfig_isSome g e .restoreConfig domain _ hwrite
            · exact hwrite

/-- The calls behind a configuration that is updated. -/
theorem updateSiteConfig_none_iff {f : SiteFiles} {e : Weather} {domain content : String}
    (h : (f.siteD (confName domain)).isSome) :
    (f.updateSiteConfig e domain content).2 = none ↔
      e.Works [.backupConfig, .writeConfig] ∧ e.accepts content = none := by
  have hthere : f.siteD (confName domain) ≠ none := Option.isSome_iff_ne_none.mp h
  simp only [Weather.Works, List.forall_mem_cons, List.not_mem_nil, IsEmpty.forall_iff,
    implies_true, and_true]
  by_cases hbackup : e.faults .backupConfig = none
  · rw [updateSiteConfig_writes fun hstop => hstop.1 hbackup, SiteFiles.writeSiteConfig]
    cases e.faults .writeConfig with
    | some err => cases e.leaves .writeConfig <;> simp
    | none =>
        dsimp only
        cases e.accepts content with
        | none => simp [hbackup]
        | some err =>
            dsimp only
            split_ifs <;> simp
  · obtain ⟨err, heq⟩ := updateSiteConfig_stops ⟨hbackup, hthere⟩ content
    rw [heq]
    simp [hbackup]

/-- The removal of a placeholder spares what no configuration names. -/
theorem clear_noDangling_iff {w : CertbotWeather} {domain : String} (hfiles : t.files = s.files)
    (hsites : ∀ n, (t.panel.files.siteD n).isSome = (s.panel.files.siteD n).isSome)
    (hplaceholder : s.isPlaceholderSSL v cwd domain = true) :
    s.NoDangling v cwd opens (t.clearPlaceholderSSL v cwd w domain).1 ↔
      ∀ n text, t.panel.files.siteD n = some text → ∀ arg ∈ certFiles text.toList,
        ¬ s.Goes v cwd w domain (opens arg) := by
  have hplaceholder' : t.isPlaceholderSSL v cwd domain = true := by
    rw [← hplaceholder, Host.isPlaceholderSSL, Host.isPlaceholderSSL, hfiles]
  have hread : ∀ path, ((t.clearPlaceholderSSL v cwd w domain).1.readFile v cwd path).isSome ↔
      (s.readFile v cwd path).isSome ∧ ¬ s.Goes v cwd w domain path := by
    intro path
    unfold Host.clearPlaceholderSSL Host.readFile Host.Goes
    rw [if_neg (not_not.mpr hplaceholder')]
    cases v.siteName cwd path with
    | some m => simp [hsites]
    | none =>
        dsimp only
        rw [hfiles]
        by_cases hgoes : absElements cwd (v.liveDir domain) <+: absElements cwd path ∧
            ¬ (w.removeFails.isSome ∧ w.keeps (absElements cwd path) = true)
        · simp only [if_pos hgoes]
          exact iff_of_false (by simp) fun h => h.2 ⟨trivial, h.1, hgoes⟩
        · simp only [if_neg hgoes, true_and]
          exact ⟨fun h => ⟨h, fun hall => hgoes hall.2⟩, And.left⟩
  have hsame : (t.clearPlaceholderSSL v cwd w domain).1.panel = t.panel := by
    unfold Host.clearPlaceholderSSL
    rw [if_neg (not_not.mpr hplaceholder')]
  unfold Host.NoDangling
  rw [hsame]
  refine forall_congr' fun n => forall_congr' fun config => forall_congr' fun _ =>
    forall_congr' fun arg => forall_congr' fun _ => ?_
  rw [hread]
  constructor
  · intro h hgoes
    have hthere : (s.readFile v cwd (opens arg)).isSome := by
      rw [Host.readFile, hgoes.1]
      exact hgoes.2.1
    exact (h hthere).2 hgoes
  · exact fun h hthere => ⟨hthere, h⟩

/-- The preparation, for a website with a placeholder and a configuration. -/
theorem prepare_noDangling_iff {w : CertbotWeather} {site : Website} {config : String}
    (hfind : s.panel.repo.findByID site.id = some site)
    (hplaceholder : s.isPlaceholderSSL v cwd site.domain = true)
    (hconfig : s.panel.files.siteD (confName site.domain) = some config) :
    s.NoDangling v cwd opens (v.prepareForCertbot cwd w s site.id).1 ↔
      ((v.NamesPlaceholder cwd site.domain config →
          w.weather.Works [.backupConfig, .writeConfig, .reload] ∧
            w.weather.accepts (v.repointed config) = none) →
        ∀ n text, v.configsAtRemoval cwd w.weather s site.domain config n = some text →
          ∀ arg ∈ certFiles text.toList, ¬ s.Goes v cwd w site.domain (opens arg)) := by
  unfold Service.prepareForCertbot Service.configsAtRemoval
  simp only [hfind, hplaceholder, not_true_eq_false, if_false, hconfig]
  by_cases hnames : v.NamesPlaceholder cwd site.domain config
  · have hguard : certPathsFound config = true ∧
        absElements cwd (parseCertPaths config.toList).1 =
          absElements cwd (v.defaultSSLPaths site.domain).1 ∧
        absElements cwd (parseCertPaths config.toList).2 =
          absElements cwd (v.defaultSSLPaths site.domain).2 := hnames
    have hnone := @updateSiteConfig_none_iff s.panel.files w.weather site.domain
      (v.repointed config) (by rw [hconfig]; rfl)
    rw [if_pos hguard, if_pos hnames, imp_iff_right hnames]
    rw [show String.ofList (updateSSLDirectives config.toList v.defaultMaterial.1
      v.defaultMaterial.2) = v.repointed config from rfl]
    have hkeep := fun n => @updateSiteConfig_isSome s.panel.files w.weather site.domain
      (v.repointed config) n
    rcases hupdate : s.panel.files.updateSiteConfig w.weather site.domain (v.repointed config) with
      ⟨files, err⟩
    rw [hupdate] at hnone hkeep
    dsimp only at hnone hkeep ⊢
    cases err with
    | some err =>
        refine iff_of_true (noDangling_of_files rfl hkeep) fun hworks => ?_
        have hstaged := hnone.mpr ⟨fun c hc => hworks.1 c ?_, hworks.2⟩
        · cases hstaged
        · simp only [List.mem_cons, List.not_mem_nil, or_false] at hc ⊢
          exact hc.elim .inl fun h => .inr (.inl h)
    | none =>
    dsimp only
    obtain ⟨hstaged, haccepts⟩ := hnone.mp rfl
    have hfiles : files = s.panel.files.withConfig site.domain (v.repointed config) :=
      updateSiteConfig_ok hupdate
    have hmap := fun n => reload_siteD_map files w.weather n
    have hsome := (reload_fst files w.weather .reload).2
    rcases hreload : files.reload w.weather .reload with ⟨files', err⟩
    have herr : err = w.weather.faults .reload := (congrArg Prod.snd hreload).symm
    rw [hreload] at hmap hsome
    dsimp only at hmap hsome ⊢
    cases err with
    | some err =>
        refine iff_of_true (noDangling_of_files rfl fun n hn => ?_) fun hworks => ?_
        · dsimp only
          rw [hsome]
          exact hkeep n hn
        · rw [hworks.1 .reload (by simp)] at herr
          cases herr
    | none =>
        have hworks : w.weather.Works [.backupConfig, .writeConfig, .reload] := by
          intro c hc
          simp only [List.mem_cons, List.not_mem_nil, or_false] at hc
          rcases hc with rfl | rfl | rfl
          · exact hstaged _ (by simp)
          · exact hstaged _ (by simp)
          · exact herr.symm
        have hsites : ∀ n, (files'.siteD n).isSome = (s.panel.files.siteD n).isSome := by
          intro n
          rw [hsome, hfiles, SiteFiles.withConfig]
          dsimp only
          by_cases hn : n = confName site.domain
          · rw [hn, hconfig, Function.update_self]
            rfl
          · rw [Function.update_of_ne hn]
        have hconfigs : ∀ n, (Function.update s.panel.files.siteD (confName site.domain)
            (some (v.repointed config)) n).map (w.weather.repaired n) = files'.siteD n := by
          intro n
          rw [hmap, hfiles, SiteFiles.withConfig]
        rw [imp_iff_right ⟨hworks, haccepts⟩]
        simp only [hconfigs]
        exact clear_noDangling_iff rfl hsites hplaceholder
  · have hguard : ¬ (certPathsFound config = true ∧
        absElements cwd (parseCertPaths config.toList).1 =
          absElements cwd (v.defaultSSLPaths site.domain).1 ∧
        absElements cwd (parseCertPaths config.toList).2 =
          absElements cwd (v.defaultSSLPaths site.domain).2) := hnames
    rw [if_neg hguard, if_neg hnames, imp_iff_right fun h => absurd h hnames]
    exact clear_noDangling_iff rfl (fun _ => rfl) hplaceholder

theorem enqueueCertbot_fst (w : EnqueueWeather) (id : ℕ) :
    (v.enqueueCertbot cwd w s id).1 = (v.prepareForCertbot cwd w.prepare s id).1 := by
  unfold Service.enqueueCertbot
  cases hfind : s.panel.repo.findByID id with
  | none => rw [Service.prepareForCertbot, hfind]
  | some site =>
      dsimp only
      rcases v.prepareForCertbot cwd w.prepare s id with ⟨t, err⟩
      cases err with
      | some err => rfl
      | none => rcases w.beforeIssue with - | err <;> rcases w.createJob with err | jobID <;> rfl

end

/-- The preparation for certbot leaves no certificate dangling exactly when it removes no
placeholder, or no configuration names a file that goes with it. -/
theorem certbot_noDangling_iff (v : Service) (cwd : Directory) (opens : List Char → List Char)
    (w : EnqueueWeather) (s : Host) (id : ℕ) :
    s.NoDangling v cwd opens (v.enqueueCertbot cwd w s id).1 ↔
      v.CertbotSpares cwd opens w.prepare s id := by
  rw [enqueueCertbot_fst, Service.CertbotSpares]
  cases hfind : s.panel.repo.findByID id with
  | none =>
      rw [Service.prepareForCertbot, hfind]
      exact iff_of_true (noDangling_of_files rfl fun _ h => h) (by simp)
  | some site =>
  obtain ⟨-, rfl⟩ := findByID_eq_some hfind
  by_cases hplaceholder : s.isPlaceholderSSL v cwd site.domain = true
  · cases hconfig : s.panel.files.siteD (confName site.domain) with
    | none =>
        refine iff_of_true ?_ fun site' config hsite _ hfile => ?_
        · rw [Service.prepareForCertbot, hfind]
          simp only [hplaceholder, not_true_eq_false, if_false, hconfig]
          exact noDangling_of_files rfl fun _ h => h
        · obtain rfl := Option.some.inj hsite
          rw [hconfig] at hfile
          cases hfile
    | some config =>
        rw [prepare_noDangling_iff hfind hplaceholder hconfig]
        constructor
        · intro h site' config' hsite _ hfile
          obtain rfl := Option.some.inj hsite
          obtain rfl := Option.some.inj (hconfig.symm.trans hfile)
          exact h
        · exact fun h => h site config rfl hplaceholder hconfig
  · refine iff_of_true ?_ fun site' config hsite hthere => ?_
    · rw [Service.prepareForCertbot, hfind]
      dsimp only
      rw [if_pos hplaceholder]
      exact noDangling_of_files rfl fun _ h => h
    · obtain rfl := Option.some.inj hsite
      exact absurd hthere hplaceholder

/-- The certificate of the placeholder, and a key that lies elsewhere. -/
def halfNamedConfig : String :=
  "ssl_certificate /s/webconfig/ssl/live/a.b/cert.pem;\nssl_certificate_key /k.pem;"

/-- The two files of the placeholder are there. -/
def halfNamedHost : Host :=
  { demoHost (some halfNamedConfig) with
    files := fun q =>
      if q ∈ [absElements ⟨[], plain_nil⟩ (demoService.defaultSSLPaths "a.b").1,
        absElements ⟨[], plain_nil⟩ (demoService.defaultSSLPaths "a.b").2] then some "old"
      else none }

/-- Nothing fails. -/
def calmEnqueue : EnqueueWeather := ⟨⟨calmWeather, none, fun _ => false⟩, none, .ok 1⟩

/-- The configuration is not repointed, and its certificate is removed. -/
theorem certbot_removes_named_certificate :
    ¬ halfNamedHost.NoDangling demoService ⟨[], by simp⟩ id
      (demoService.enqueueCertbot ⟨[], by simp⟩ calmEnqueue halfNamedHost 1).1 := by
  intro h
  have hconfig : (demoService.enqueueCertbot ⟨[], by simp⟩ calmEnqueue halfNamedHost
      1).1.panel.files.siteD (confName "a.b") = some halfNamedConfig := by
    set_option maxRecDepth 20000 in
    decide
  have hmem : "/s/webconfig/ssl/live/a.b/cert.pem".toList ∈ certFiles halfNamedConfig.toList := by
    set_option maxRecDepth 20000 in
    decide
  have hthere := h _ _ hconfig _ hmem (by decide)
  have hgone : ¬ ((demoService.enqueueCertbot ⟨[], by simp⟩ calmEnqueue halfNamedHost
      1).1.readFile demoService ⟨[], by simp⟩
        "/s/webconfig/ssl/live/a.b/cert.pem".toList).isSome := by
    set_option maxRecDepth 20000 in
    decide
  exact hgone hthere

end GoSite.Website
