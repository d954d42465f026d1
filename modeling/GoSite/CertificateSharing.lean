import GoSite.UploadSurvival

/-!
# Certificates that websites share

An upload writes to the files that the configuration of its website names. A repair
of nginx and the preparation for certbot let a configuration name the files of the
default certificate, which the default host and other websites may name as well.
-/
namespace GoSite.Website
open GoStrings Paths GuardedRuns
open GoSite.Terminal (joinPath)

/-- What the preparation for certbot meets. A removal that fails can leave some files. -/
structure CertbotWeather where
  weather : Weather
  removeFails : Option String
  keeps : List (List Char) → Bool

section
variable (v : Service) (cwd : Directory)

/-- `isPlaceholderSSL`. -/
def Host.isPlaceholderSSL (s : Host) (domain : String) : Bool :=
  (s.files (absElements cwd (joinPath (v.liveDir domain) "fullchain.pem".toList))).isNone &&
    (s.files (absElements cwd (v.defaultSSLPaths domain).1)).isSome &&
      (s.files (absElements cwd (v.defaultSSLPaths domain).2)).isSome

/-- `clearPlaceholderSSL`. -/
def Host.clearPlaceholderSSL (w : CertbotWeather) (s : Host) (domain : String) :
    Host × Option SiteError :=
  if ¬ s.isPlaceholderSSL v cwd domain then (s, none)
  else
    let live := absElements cwd (v.liveDir domain)
    ({ s with files := fun q =>
        if live <+: q ∧ ¬ (w.removeFails.isSome ∧ w.keeps q) then none else s.files q },
      w.removeFails.map (.wrap .internal "prepare certbot ssl storage"))

/-- `prepareForCertbot`. -/
def Service.prepareForCertbot (w : CertbotWeather) (s : Host) (id : ℕ) : Host × Option SiteError :=
  match s.panel.repo.findByID id with
  | none => (s, some (.new .notFound "website not found"))
  | some site =>
  if ¬ s.isPlaceholderSSL v cwd site.domain then (s, none)
  else
  match s.panel.files.siteD (confName site.domain) with
  | none => (s, some (.new .notFound "site config not found"))
  | some config =>
  let (certPath, keyPath) := parseCertPaths config.toList
  let (domainCert, domainKey) := v.defaultSSLPaths site.domain
  let (defaultCert, defaultKey) := v.defaultMaterial
  if certPathsFound config ∧ absElements cwd certPath = absElements cwd domainCert ∧
      absElements cwd keyPath = absElements cwd domainKey then
    let updated := String.ofList (updateSSLDirectives config.toList defaultCert defaultKey)
    match s.panel.files.updateSiteConfig w.weather site.domain updated with
    | (files, some _) =>
        ({ s with panel := { s.panel with files := files } },
          some (.new .nginxTestFailed "stage default ssl for certbot"))
    | (files, none) =>
    match files.reload w.weather .reload with
    | (files, some err) =>
        ({ s with panel := { s.panel with files := files } },
          some (.wrap .nginxReloadFailed "reload nginx for certbot prep" err))
    | (files, none) =>
        Host.clearPlaceholderSSL v cwd w { s with panel := { s.panel with files := files } }
          site.domain
  else s.clearPlaceholderSSL v cwd w site.domain

/-- The writes of some calls that come one after the other, up to the first that fails. -/
def UploadWeather.writes (u : UploadWeather) :
    List (UploadCall × Option (List Char × String)) → List (List Char × String)
  | [] => []
  | (call, target) :: rest =>
      match u.fails call with
      | none => target.toList ++ u.writes rest
      | some _ => target.toList.filterMap fun w => (u.left call).map fun left => (w.1, left)

/-- What an upload writes to files, in the order it writes it. -/
def Service.uploadWrites (u : UploadWeather) (s : Host) (id : ℕ) (input : ManualInput) :
    List (List Char × String) :=
  match s.panel.repo.findByID id with
  | none => []
  | some site =>
  let publicPEM := withoutCR input.publicPEM
  let privatePEM := withoutCR input.privatePEM
  match validatePEM publicPEM privatePEM with
  | some _ => []
  | none =>
  match if (u.fails .readConfig).isSome then none
    else s.panel.files.siteD (confName site.domain) with
  | none =>
      u.writes [(.makeArchive, none), (.archivePublic, some ((v.archivePaths site.domain).1, publicPEM)),
        (.archivePrivate, some ((v.archivePaths site.domain).2, privatePEM)), (.makeLive, none),
        (.writePublic, some ((v.defaultSSLPaths site.domain).1, publicPEM)),
        (.writePrivate, some ((v.defaultSSLPaths site.domain).2, privatePEM))]
  | some config =>
      u.writes ((if certPathsFound config then [] else [(.makeLive, none)]) ++
        [(.writePublic, some ((v.uploadPaths site.domain config).1, publicPEM)),
          (.writePrivate, some ((v.uploadPaths site.domain config).2, privatePEM))])

/-- The text that some writes leave in a file, if they write to it. -/
def lastText (path : List Char) (writes : List (List Char × String)) : Option String :=
  writes.foldl (fun text w =>
    if absElements cwd path = absElements cwd w.1 then some w.2 else text) none

/-- The files that the configuration of another website or the default host names. What
lies in `site.d` is a configuration. -/
def Host.Refers (s : Host) (id : ℕ) (path : List Char) : Prop :=
  v.siteName cwd path = none ∧
    (path = v.defaultMaterial.1 ∨ path = v.defaultMaterial.2 ∨
      ∃ site ∈ s.panel.repo.rows, site.id ≠ id ∧ ∃ config,
        s.panel.files.siteD (confName site.domain) = some config ∧
          certPathsFound config = true ∧
            (path = (parseCertPaths config.toList).1 ∨ path = (parseCertPaths config.toList).2))

/-- A request of the website service, the preparation for certbot, or an upload. -/
inductive CertAction where
  | serve (r : HostRequest) (w : HostWeather)
  | prepare (id : ℕ) (w : CertbotWeather)
  | upload (id : ℕ) (input : ManualInput) (u : UploadWeather)

def Service.certStep (s : Host) : CertAction → Option Host
  | .serve r w => some (v.serve cwd w s r)
  | .prepare id w => some (v.prepareForCertbot cwd w s id).1
  | .upload id input u => some (v.updateManual cwd u s id input).1

/-- An upload changes no file that others name. -/
def Service.UploadSpares (s : Host) : CertAction → Prop
  | .upload id input u => ∀ path, s.Refers v cwd id path →
      (v.updateManual cwd u s id input).1.readFile v cwd path = s.readFile v cwd path
  | _ => True

/-- A file that others name is none of those the upload writes to, unless it holds what
is written. -/
def Service.WritesOwn (s : Host) : CertAction → Prop
  | .upload id input u => ∀ path text, s.Refers v cwd id path →
      lastText cwd path (v.uploadWrites u s id input) = some text →
        s.readFile v cwd path = some text
  | _ => True

/-- The host after some writes. -/
def Host.writeAll (s : Host) (writes : List (List Char × String)) : Host :=
  writes.foldl (fun s w => s.writeFile v cwd w.1 w.2) s

end

section
variable {v : Service} {cwd : Directory}

theorem readFile_writeAll (s : Host) (path : List Char) (writes : List (List Char × String)) :
    (s.writeAll v cwd writes).readFile v cwd path =
      ((lastText cwd path writes).or (s.readFile v cwd path)) := by
  induction writes using List.reverseRecOn with
  | nil => rfl
  | append_singleton writes w ih =>
      unfold Host.writeAll lastText at ih ⊢
      rw [List.foldl_append, List.foldl_append, List.foldl_cons, List.foldl_cons, List.foldl_nil,
        List.foldl_nil, readFile_writeFile, ih]
      split_ifs <;> rfl

theorem writeAll_cons (s : Host) (w : List Char × String) (writes : List (List Char × String)) :
    s.writeAll v cwd (w :: writes) = (s.writeFile v cwd w.1 w.2).writeAll v cwd writes := rfl

/-- One call of an upload and the calls after it. -/
theorem writeAll_uploadFile (u : UploadWeather) (s : Host) (call : UploadCall) (path : List Char)
    (text : String) (rest : List (UploadCall × Option (List Char × String))) :
    s.writeAll v cwd (u.writes ((call, some (path, text)) :: rest)) =
      match s.uploadFile v cwd u call path text with
      | (s, some _) => s
      | (s, none) => s.writeAll v cwd (u.writes rest) := by
  rw [UploadWeather.writes, Host.uploadFile]
  cases u.fails call with
  | none => rfl
  | some err => cases u.left call <;> rfl

theorem writes_none (u : UploadWeather) (call : UploadCall)
    (rest : List (UploadCall × Option (List Char × String))) :
    u.writes ((call, none) :: rest) = if (u.fails call).isSome then [] else u.writes rest := by
  rw [UploadWeather.writes]
  cases u.fails call <;> rfl

theorem uploadArchive_writes (u : UploadWeather) (s : Host) (domain publicPEM privatePEM : String) :
    (v.uploadArchive cwd u s domain publicPEM privatePEM).1 =
      s.writeAll v cwd (u.writes [(.makeArchive, none),
        (.archivePublic, some ((v.archivePaths domain).1, publicPEM)),
        (.archivePrivate, some ((v.archivePaths domain).2, privatePEM)), (.makeLive, none),
        (.writePublic, some ((v.defaultSSLPaths domain).1, publicPEM)),
        (.writePrivate, some ((v.defaultSSLPaths domain).2, privatePEM))]) := by
  unfold Service.uploadArchive
  dsimp only
  rw [writes_none]
  cases hmake : u.fails .makeArchive with
  | some err => rfl
  | none =>
  dsimp only [Option.isSome]
  rw [if_neg Bool.false_ne_true, writeAll_uploadFile]
  rcases s.uploadFile v cwd u .archivePublic (v.archivePaths domain).1 publicPEM with ⟨s₁, err₁⟩
  cases err₁ with
  | some err => rfl
  | none =>
  dsimp only
  rw [writeAll_uploadFile]
  rcases s₁.uploadFile v cwd u .archivePrivate (v.archivePaths domain).2 privatePEM with ⟨s₂, err₂⟩
  cases err₂ with
  | some err => rfl
  | none =>
  dsimp only
  rw [writes_none]
  cases hlive : u.fails .makeLive with
  | some err => rfl
  | none =>
  dsimp only [Option.isSome]
  rw [if_neg Bool.false_ne_true, writeAll_uploadFile]
  rcases s₂.uploadFile v cwd u .writePublic (v.defaultSSLPaths domain).1 publicPEM with ⟨s₃, err₃⟩
  cases err₃ with
  | some err => rfl
  | none =>
  dsimp only
  rw [writeAll_uploadFile]
  rcases s₃.uploadFile v cwd u .writePrivate (v.defaultSSLPaths domain).2 privatePEM with ⟨s₄, err₄⟩
  cases err₄ <;> rfl

theorem uploadPair_writes (u : UploadWeather) (s : Host)
    (domain config publicPEM privatePEM : String) :
    (v.uploadPair cwd u s domain config publicPEM privatePEM).1 =
      s.writeAll v cwd (u.writes ((if certPathsFound config then [] else [(.makeLive, none)]) ++
        [(.writePublic, some ((v.uploadPaths domain config).1, publicPEM)),
          (.writePrivate, some ((v.uploadPaths domain config).2, privatePEM))])) := by
  have hfiles : ∀ w : List (UploadCall × Option (List Char × String)),
      w = [(.writePublic, some ((v.uploadPaths domain config).1, publicPEM)),
        (.writePrivate, some ((v.uploadPaths domain config).2, privatePEM))] →
      s.writeAll v cwd (u.writes w) =
        (match s.uploadFile v cwd u .writePublic (v.uploadPaths domain config).1 publicPEM with
        | (s, some err) => (s, some (UploadError.site (.wrap .internal "write public cert" err)))
        | (s, none) =>
        match s.uploadFile v cwd u .writePrivate (v.uploadPaths domain config).2 privatePEM with
        | (s, some err) => (s, some (.site (.wrap .internal "write private key" err)))
        | (s, none) => (s, none)).1 := by
    rintro w rfl
    rw [writeAll_uploadFile]
    rcases s.uploadFile v cwd u .writePublic (v.uploadPaths domain config).1 publicPEM with ⟨s₁, err₁⟩
    cases err₁ with
    | some err => rfl
    | none =>
    dsimp only
    rw [writeAll_uploadFile]
    rcases s₁.uploadFile v cwd u .writePrivate (v.uploadPaths domain config).2 privatePEM with
      ⟨s₂, err₂⟩
    cases err₂ <;> rfl
  unfold Service.uploadPair
  dsimp only
  by_cases hfound : certPathsFound config = true
  · rw [if_pos hfound, if_pos hfound, List.nil_append]
    exact (hfiles _ rfl).symm
  · rw [if_neg hfound, if_neg hfound, List.singleton_append, writes_none]
    cases hlive : u.fails .makeLive with
    | some err => rfl
    | none =>
        dsimp only [Option.isSome]
        rw [if_neg Bool.false_ne_true]
        exact (hfiles _ rfl).symm

/-- A reload, and the write of a row, leave the files alone. -/
theorem finishUpload_files (s : Host) (e : Weather) (site : Website) :
    (s.finishUpload e site).1.files = s.files := by
  unfold Host.finishUpload
  split
  · rfl
  · split
    · rfl
    · rfl

/-- What is not in `site.d` is as the writes of the upload leave it. -/
theorem updateManual_readFile (u : UploadWeather) (s : Host) (id : ℕ) (input : ManualInput)
    {path : List Char} (hpath : v.siteName cwd path = none) :
    (v.updateManual cwd u s id input).1.readFile v cwd path =
      (lastText cwd path (v.uploadWrites u s id input)).or (s.readFile v cwd path) := by
  rw [← readFile_writeAll]
  have hfiles : ∀ {a b : Host}, a.files = b.files →
      a.readFile v cwd path = b.readFile v cwd path := by
    intro a b h
    unfold Host.readFile
    rw [hpath, h]
  unfold Service.updateManual Service.uploadWrites
  cases s.panel.repo.findByID id with
  | none => rfl
  | some site =>
  dsimp only
  cases validatePEM (withoutCR input.publicPEM) (withoutCR input.privatePEM) with
  | some err => rfl
  | none =>
  dsimp only
  cases (if (u.fails .readConfig).isSome then none
    else s.panel.files.siteD (confName site.domain)) with
  | none =>
      dsimp only
      rw [← uploadArchive_writes]
      rcases v.uploadArchive cwd u s site.domain (withoutCR input.publicPEM)
        (withoutCR input.privatePEM) with ⟨t, err⟩
      cases err with
      | some err => rfl
      | none =>
          dsimp only
          split
          · exact hfiles rfl
          · exact hfiles (finishUpload_files _ _ _)
  | some config =>
      dsimp only
      rw [← uploadPair_writes]
      rcases v.uploadPair cwd u s site.domain config (withoutCR input.publicPEM)
        (withoutCR input.privatePEM) with ⟨t, err⟩
      cases err with
      | some err => rfl
      | none =>
          dsimp only
          split
          · exact hfiles rfl
          · exact hfiles (finishUpload_files _ _ _)

/-- One upload, from any host. -/
theorem uploadSpares_iff (s : Host) (a : CertAction) :
    v.UploadSpares cwd s a ↔ v.WritesOwn cwd s a := by
  cases a with
  | serve r w => rfl
  | prepare id w => rfl
  | upload id input u =>
      unfold Service.UploadSpares Service.WritesOwn
      refine forall_congr' fun path => ?_
      constructor
      · intro h text hrefers htext
        have hsame := h hrefers
        rw [updateManual_readFile u s id input hrefers.1, htext] at hsame
        exact hsame.symm
      · intro h hrefers
        rw [updateManual_readFile u s id input hrefers.1]
        cases htext : lastText cwd path (v.uploadWrites u s id input) with
        | none => rfl
        | some text => exact (h text hrefers htext).symm

end

/-- Only the default certificate is there. -/
def freshHost : Host :=
  ⟨.empty, fun q =>
    if q ∈ [absElements ⟨[], plain_nil⟩ demoService.defaultMaterial.1,
      absElements ⟨[], plain_nil⟩ demoService.defaultMaterial.2] then some "default" else none⟩

/-- The templates name the certificate of the domain. -/
def certWeather : HostWeather :=
  ⟨{ calmWeather with
      staticTpl := "ssl_certificate <ssl_cert>;\nssl_certificate_key <ssl_key>;".toList
      placeholders := [.sslCert, .sslKey] }, fun _ => (none, none)⟩

/-- A website is created, certbot is prepared for it, and a certificate is uploaded. -/
def sharedRun : List CertAction :=
  [.serve (.create (demoInput "a.b" "/w/a")) certWeather,
    .prepare 1 ⟨calmWeather, none, fun _ => false⟩,
    .upload 1 ⟨"BEGIN CERTIFICATE", "BEGIN PRIVATE KEY"⟩ calmUpload]

end GoSite.Website
