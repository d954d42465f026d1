import GoSite.PermissionAcks

/-!
# What seeding leaves behind

`SeedBundled` asks for an install when the stored digest differs from that of the
bundled artifact, and `Install` refuses every version that is registered and neither
failed nor uninstalled. So a row that counts as installed is never brought up to a
changed artifact; all else settles in one pass.
-/
namespace GoSite.Plugin

/-- No call of the install fails. -/
structure InstallWeather.Calm (e : InstallWeather) : Prop where
  fault : ∀ call, e.fault call = none
  extract : e.extract = none
  validate : e.validate.ended = none

/-- No call fails while an entry is seeded. -/
structure SeedWeather.Calm (e : SeedWeather) : Prop where
  find : e.find = none
  listInstallable : e.listInstallable = none
  install : e.install.Calm

/-- The version an entry stands for and the digest of its artifact, if the artifact is
readable and passes the checks of `Install`. -/
def PluginHost.artifact (H : PluginHost) (files : BundledFiles) (entry : BundledEntry) :
    Option (Key × String) :=
  match files.loadArtifact entry with
  | .error _ => none
  | .ok content =>
      match H.installer.check (bundledInput entry content) with
      | .error _ => none
      | .ok c =>
          match safePluginDir H.installer.storageDir c.manifest.id c.manifest.version with
          | .error _ => none
          | .ok _ => some ((c.manifest.id, c.manifest.version), H.installer.digest content)

/-- The states a version can be installed from again. -/
def PluginState.reinstallable : PluginState → Bool
  | .installFailed | .uninstalled => true
  | _ => false

/-- The rows an entry is installed over: those that `SeedBundled` wants to install and
that `Install` lets it. -/
def seedsOver (restorable : Bool) (digest : String) : Option PluginVersion → Bool
  | none => true
  | some p =>
      match p.state with
      | .installFailed => true
      | .uninstalled => p.artifactDigest ≠ digest || restorable
      | _ => false

/-- The entry stands for the version `key` and is installed over the row. -/
def PluginHost.claims (H : PluginHost) (files : BundledFiles) (key : Key)
    (row : Option PluginVersion) (entry : BundledEntry) : Bool :=
  match H.artifact files entry with
  | none => false
  | some (k, digest) => k = key ∧ seedsOver entry.restorable digest row = true

/-- What the seeding of an index is to leave of a world: the installed rows as they
were, the bundled artifact of each entry registered, and nothing for a second pass. -/
structure PluginHost.Settles (H : PluginHost) (files : BundledFiles)
    (index : List BundledEntry) (t t' again : Traced) : Prop where
  kept : ∀ (k : Key) p, t.world.registry.find k.1 k.2 = some p →
    p.state = .installed ∨ p.state = .enableFailed ∨ p.state = .enabled →
      t'.world.registry.find k.1 k.2 = some p
  registered : ∀ entry ∈ index, ∀ (k : Key) digest, H.artifact files entry = some (k, digest) →
    ¬ (t.world.stateOf k = some .uninstalled ∧ entry.restorable = false) →
      ∃ p, t'.world.registry.find k.1 k.2 = some p ∧ p.artifactDigest = digest
  settled : again = t'

/-- No row of an entry that counts as installed has another digest than its artifact,
and of the entries of one version those that follow the first one installed have its
artifact. Entries that need not be registered are left out. -/
def PluginHost.Agrees (H : PluginHost) (files : BundledFiles) (index : List BundledEntry)
    (g : Registry) : Prop :=
  ∀ entry ∈ index, ∀ (k : Key) digest, H.artifact files entry = some (k, digest) →
    ¬ ((g.find k.1 k.2).map PluginVersion.state = some .uninstalled ∧
      entry.restorable = false) →
      (∀ p, g.find k.1 k.2 = some p → p.state.reinstallable = false →
        p.artifactDigest = digest) ∧
      ∀ first, index.find? (H.claims files k (g.find k.1 k.2)) = some first →
        H.artifact files first = some (k, digest)

theorem isBundledInstall_bundledInput (entry : BundledEntry) (content : List UInt8) :
    isBundledInstall (bundledInput entry content) = true := by
  show decide (GoStrings.trimSpace bundledSourceType = bundledSourceType) = true
  decide

/-- An artifact that is readable and valid. -/
theorem artifact_eq_some {H : PluginHost} {files : BundledFiles} {entry : BundledEntry}
    {k : Key} {digest : String} (h : H.artifact files entry = some (k, digest)) :
    ∃ content c dir, files.loadArtifact entry = .ok content ∧
      H.installer.check (bundledInput entry content) = .ok c ∧
      safePluginDir H.installer.storageDir c.manifest.id c.manifest.version = .ok dir ∧
      k = (c.manifest.id, c.manifest.version) ∧ digest = H.installer.digest content := by
  unfold PluginHost.artifact at h
  cases hload : files.loadArtifact entry with
  | error err => simp [hload] at h
  | ok content =>
  cases hcheck : H.installer.check (bundledInput entry content) with
  | error err => simp [hload, hcheck] at h
  | ok c =>
  cases hdir : safePluginDir H.installer.storageDir c.manifest.id c.manifest.version with
  | error err => simp [hload, hcheck, hdir] at h
  | ok dir =>
      simp only [hload, hcheck, hdir, Option.some.injEq, Prod.mk.injEq] at h
      exact ⟨content, c, dir, rfl, hcheck, hdir, h.1.symm, h.2.symm⟩

section
variable {e : InstallWeather} {w w₀ w' : World} {r : Registration}

/-- A version that can be installed is registered. -/
theorem createOrRetryInstall_open
    (h : ∀ p, w.registry.find r.record.pluginID r.record.version = some p →
      p.state.reinstallable = true) :
    ∃ g, w.createOrRetryInstall none r = ({ w with registry := g }, none) := by
  have hopen : ∃ g, w.registry.createOrRetryInstall r = some g := by
    unfold Registry.createOrRetryInstall
    split
    · exact ⟨_, rfl⟩
    · next existing hfind =>
        have hstate := h existing hfind
        rw [if_neg]
        · exact ⟨_, rfl⟩
        · rintro ⟨hfailed, huninstalled⟩
          cases hs : existing.state <;> simp_all [PluginState.reinstallable]
  obtain ⟨g, hg⟩ := hopen
  refine ⟨g, ?_⟩
  unfold World.createOrRetryInstall
  rw [hg]

/-- A bundled version that is registered is installed, without its validation. -/
theorem finishInstall_calm (he : e.Calm) (m : InstallManifest) (log : List LogStep)
    {p : PluginVersion} (h : World.Moves w₀ w r.record.key p) :
    World.Moves w₀ (finishInstall e w m true r log).world r.record.key
        (p.withState .installed "" "") ∧
      (finishInstall e w m true r log).world.locks = w.locks := by
  obtain ⟨g, hg, hm⟩ := h.write "set plugin state" .installed "" "" (by simp)
  rw [h.key_eq] at hg
  have hval : runValidate m true e.validate = none := by
    simp only [runValidate, he.validate, if_true]
  simp only [finishInstall, hval, World.setState, he.fault .markInstalled, hg]
  exact ⟨hm, trivial⟩

/-- The install of a bundled artifact over a row that lets it. -/
theorem installUnlocked_calm (I : Installer) (he : e.Calm) (w : World) (entry : BundledEntry)
    (content : List UInt8) (c : Checked) {dir : List Char}
    (hdir : safePluginDir I.storageDir c.manifest.id c.manifest.version = .ok dir)
    (h : ∀ p, w.registry.find c.manifest.id c.manifest.version = some p →
      p.state.reinstallable = true) :
    ∃ q, World.Moves w (I.installUnlocked e w (bundledInput entry content) c).world
        (c.manifest.id, c.manifest.version) q ∧
      q.state = .installed ∧ q.artifactDigest = I.digest content ∧
      (I.installUnlocked e w (bundledInput entry content) c).world.locks = w.locks := by
  have hexisting : existingCheck (e.fault .findExisting) w.registry
      (c.manifest.id, c.manifest.version) true = none := by
    simp only [existingCheck, he.fault .findExisting]
    cases hfind : w.registry.find c.manifest.id c.manifest.version with
    | none => rfl
    | some p =>
        have hstate := h p hfind
        cases hs : p.state <;> simp_all [PluginState.reinstallable]
  have hstore : storeArtifact e = none := by
    simp only [storeArtifact, he.fault, he.extract]
  set r := c.registration (I.digest content)
    (Terminal.joinPath dir (I.digest content ++ ".artifact").toList)
    (bundledInput entry content) e.now with hr
  obtain ⟨g, hg⟩ := createOrRetryInstall_open (w := w) (r := r) h
  obtain ⟨⟨p, hm, -⟩, -, -⟩ := createOrRetryInstall_moves hg
  obtain ⟨p', hp', hstored⟩ := createOrRetryInstall_stored hg
  obtain rfl : p = p' := Option.some.inj (hm.find_eq.symm.trans hp')
  obtain ⟨-, hdigest, -, -⟩ := StoredArtifact.mk.inj hstored
  obtain ⟨hq, hlocks⟩ := finishInstall_calm he c.manifest
    (checkedLog ++ [.ok "extract"] ++ [.ok "registry"]) hm
  have heq : (I.installUnlocked e w (bundledInput entry content) c).world =
      (finishInstall e { w with registry := g } c.manifest true r
        (checkedLog ++ [.ok "extract"] ++ [.ok "registry"])).world := by
    simp only [Installer.installUnlocked, hdir, isBundledInstall_bundledInput, hexisting, hstore,
      he.fault .createOrRetryInstall]
    rw [show (bundledInput entry content).content = content from rfl, ← hr, hg]
  rw [heq]
  exact ⟨_, hq, rfl, hdigest, hlocks⟩

/-- `Install` refuses a version that is neither failed nor uninstalled. -/
theorem install_refused (I : Installer) (he : e.Calm) (t : Traced) (input : InstallInput)
    {c : Checked} {dir : List Char} (hcheck : I.check input = .ok c)
    (hlocks : t.world.locks = [])
    (hdir : safePluginDir I.storageDir c.manifest.id c.manifest.version = .ok dir)
    {p : PluginVersion} (hp : t.world.registry.find c.manifest.id c.manifest.version = some p)
    (hstate : p.state.reinstallable = false) : (t.install I e input).1 = t := by
  have hexisting : existingCheck (e.fault .findExisting) t.world.registry
      (c.manifest.id, c.manifest.version) (isBundledInstall input) =
        some (.new .conflict "plugin version already exists") := by
    simp only [existingCheck, he.fault .findExisting, hp]
    cases hs : p.state <;> simp_all [PluginState.reinstallable]
  have hanswer : I.install e t.world input =
      .refuse t.world (.new .conflict "plugin version already exists") checkedLog := by
    simp only [Installer.install, hcheck, hlocks, List.not_mem_nil, if_false,
      Installer.installUnlocked, hdir, hexisting, InstallAnswer.refuse, List.erase_cons_head]
    rw [← hlocks]
  have hlog : LogStep.ok "registry" ∉ checkedLog := by decide
  simp only [Traced.install, hcheck, hanswer, InstallAnswer.refuse, hlog, if_false]

end

section
variable {H : PluginHost} {files : BundledFiles} {entry : BundledEntry} {e : SeedWeather}
  {t : Traced} {k : Key} {digest : String}

/-- The rows that `Install` takes. -/
theorem seedsOver_reinstallable {restorable : Bool} {p : PluginVersion}
    (h : seedsOver restorable digest (some p) = true) : p.state.reinstallable = true := by
  unfold seedsOver at h
  cases hs : p.state <;> simp_all [PluginState.reinstallable]

/-- A row that can be installed from again and is left alone is an uninstalled one with
the same artifact. -/
theorem not_seedsOver {restorable : Bool} {p : PluginVersion}
    (h : seedsOver restorable digest (some p) = false) (hs : p.state.reinstallable = true) :
    p.state = .uninstalled ∧ restorable = false ∧ p.artifactDigest = digest := by
  unfold seedsOver at h
  cases hstate : p.state <;> simp_all [PluginState.reinstallable]

theorem shouldSeed_of_seedsOver (g : Registry) (fault : Option String)
    {existing : Option PluginVersion} (h : seedsOver entry.restorable digest existing = true) :
    shouldSeedBundled g fault entry existing digest false = true := by
  cases existing with
  | none => rfl
  | some p =>
      unfold seedsOver at h
      unfold shouldSeedBundled
      cases hs : p.state <;> simp_all

theorem seedBundledEntry_installs (he : e.Calm) (hlocks : t.world.locks = [])
    (hart : H.artifact files entry = some (k, digest))
    (h : seedsOver entry.restorable digest (t.world.registry.find k.1 k.2) = true) :
    ∃ q, World.Moves t.world (H.seedBundledEntry files e t entry false).1.world k q ∧
      q.state = .installed ∧ q.artifactDigest = digest ∧
      (H.seedBundledEntry files e t entry false).1.world.locks = [] := by
  obtain ⟨content, c, dir, hload, hcheck, hdir, rfl, rfl⟩ := artifact_eq_some hart
  have hparse := (check_ok hcheck).1
  have hcontent : (bundledInput entry content).content = content := rfl
  rw [hcontent] at hparse
  have hopen : ∀ p, t.world.registry.find c.manifest.id c.manifest.version = some p →
      p.state.reinstallable = true := by
    intro p hp
    rw [hp] at h
    exact seedsOver_reinstallable h
  obtain ⟨q, hq, hstate, hdigest, hheld⟩ := installUnlocked_calm H.installer he.install
    { t.world with locks := [c.manifest.id] } entry content c hdir hopen
  have hworld : (H.seedBundledEntry files e t entry false).1.world =
      { (H.installer.installUnlocked e.install { t.world with locks := [c.manifest.id] }
          (bundledInput entry content) c).world with locks := [] } := by
    have hinstall : (t.install H.installer e.install (bundledInput entry content)).1.world =
        { (H.installer.installUnlocked e.install { t.world with locks := [c.manifest.id] }
          (bundledInput entry content) c).world with locks := [] } := by
      simp only [Traced.install, Installer.install, hcheck, hlocks, List.not_mem_nil, if_false,
        hheld, List.erase_cons_head]
    have hseed := shouldSeed_of_seedsOver t.world.registry e.listInstallable h
    simp only [PluginHost.seedBundledEntry, hload, hparse, he.find, hseed, not_true_eq_false,
      if_false]
    rw [← hinstall]
    cases (t.install H.installer e.install (bundledInput entry content)).2.2 <;> rfl
  rw [hworld]
  exact ⟨q, ⟨hq.find_eq, hq.find_other⟩, hstate, hdigest, rfl⟩

theorem seedBundledEntry_leaves (he : e.Calm) (hlocks : t.world.locks = [])
    (hart : H.artifact files entry = some (k, digest))
    (h : seedsOver entry.restorable digest (t.world.registry.find k.1 k.2) = false) :
    (H.seedBundledEntry files e t entry false).1 = t := by
  obtain ⟨content, c, dir, hload, hcheck, hdir, rfl, rfl⟩ := artifact_eq_some hart
  have hparse : H.installer.parseManifest content = .ok (c.manifest, c.manifestJSON) :=
    (check_ok hcheck).1
  cases hfind : t.world.registry.find c.manifest.id c.manifest.version with
  | none =>
      rw [hfind] at h
      cases h
  | some p =>
  rw [hfind] at h
  simp only [PluginHost.seedBundledEntry, hload, hparse, he.find, hfind]
  cases hs : p.state.reinstallable with
  | false =>
      have hrefused := install_refused H.installer he.install t (bundledInput entry content)
        hcheck hlocks hdir hfind hs
      split_ifs
      · cases (t.install H.installer e.install (bundledInput entry content)).2.2 <;>
          exact hrefused
      · rfl
  | true =>
      obtain ⟨hstate, hrestorable, hdigest⟩ := not_seedsOver h hs
      have hskip : shouldSeedBundled t.world.registry e.listInstallable entry (some p)
          (H.installer.digest content) false = false := by
        simp [shouldSeedBundled, hdigest, hstate, hrestorable]
      rw [if_pos (by simp [hskip])]

end

section
variable {H : PluginHost} {files : BundledFiles} {entries : List BundledEntry}
  {seed : ℕ → SeedWeather}

theorem claims_iff {key : Key} {row : Option PluginVersion} {entry : BundledEntry} {k : Key}
    {digest : String} (hart : H.artifact files entry = some (k, digest)) :
    H.claims files key row entry = true ↔
      k = key ∧ seedsOver entry.restorable digest row = true := by
  simp [PluginHost.claims, hart]

/-- No entry is installed over a row that `Install` refuses. -/
theorem find?_claims_eq_none {key : Key} {p : PluginVersion}
    (hp : p.state.reinstallable = false) :
    entries.find? (H.claims files key (some p)) = none := by
  refine List.find?_eq_none.mpr fun entry _ hclaims => ?_
  unfold PluginHost.claims at hclaims
  cases hart : H.artifact files entry with
  | none => simp [hart] at hclaims
  | some a =>
      simp only [hart, decide_eq_true_eq] at hclaims
      rw [seedsOver_reinstallable hclaims.2] at hp
      cases hp

/-- What is left of a row: the first entry that claims it is installed over it, and a
row without one stays as it is. -/
def PluginHost.Leaves (H : PluginHost) (files : BundledFiles) (key : Key)
    (row row' : Option PluginVersion) : Option BundledEntry → Prop
  | none => row' = row
  | some first => ∃ q digest, row' = some q ∧ q.state = .installed ∧
      H.artifact files first = some (key, digest) ∧ q.artifactDigest = digest

/-- The loop over the index, row by row. -/
theorem seedEntries_leaves (hcalm : ∀ n, (seed n).Calm)
    (hvalid : ∀ entry ∈ entries, H.artifact files entry ≠ none) (n : ℕ) {t : Traced}
    (hlocks : t.world.locks = []) :
    (H.seedEntries files seed n entries t).world.locks = [] ∧
      ∀ key : Key, H.Leaves files key (t.world.registry.find key.1 key.2)
        ((H.seedEntries files seed n entries t).world.registry.find key.1 key.2)
        (entries.find? (H.claims files key (t.world.registry.find key.1 key.2))) := by
  induction entries generalizing n t with
  | nil => exact ⟨hlocks, fun key => rfl⟩
  | cons entry entries ih =>
      have hrest := fun e he => hvalid e (List.mem_cons_of_mem entry he)
      obtain ⟨⟨k, digest⟩, hart⟩ :=
        Option.ne_none_iff_exists'.mp (hvalid entry List.mem_cons_self)
      rw [PluginHost.seedEntries]
      cases h : seedsOver entry.restorable digest (t.world.registry.find k.1 k.2) with
      | false =>
          rw [seedBundledEntry_leaves (hcalm n) hlocks hart h]
          obtain ⟨hheld, hrows⟩ := ih hrest (n + 1) hlocks
          refine ⟨hheld, fun key => ?_⟩
          have hskip : H.claims files key (t.world.registry.find key.1 key.2) entry = false := by
            rw [Bool.eq_false_iff, ne_eq, claims_iff hart]
            rintro ⟨rfl, hs⟩
            rw [h] at hs
            cases hs
          rw [List.find?_cons_of_neg (by simp [hskip])]
          exact hrows key
      | true =>
          obtain ⟨q, hm, hstate, hdigest, hheld⟩ :=
            seedBundledEntry_installs (hcalm n) hlocks hart h
          obtain ⟨hheld', hrows⟩ := ih hrest (n + 1) hheld
          refine ⟨hheld', fun key => ?_⟩
          have hkey := hrows key
          by_cases hk : key = k
          · subst hk
            rw [List.find?_cons_of_pos ((claims_iff hart).mpr ⟨rfl, h⟩)]
            rw [hm.find_eq] at hkey
            rw [find?_claims_eq_none (by rw [hstate]; rfl)] at hkey
            exact ⟨q, digest, hkey, hstate, hart, hdigest⟩
          · rw [hm.find_other key hk] at hkey
            rw [List.find?_cons_of_neg]
            · exact hkey
            · rw [claims_iff hart]
              exact fun hc => hk hc.1.symm

/-- A loop that no entry has anything to do in. -/
theorem seedEntries_still (hcalm : ∀ n, (seed n).Calm)
    (hvalid : ∀ entry ∈ entries, H.artifact files entry ≠ none) (n : ℕ) {t : Traced}
    (hlocks : t.world.locks = [])
    (hstill : ∀ key : Key,
      entries.find? (H.claims files key (t.world.registry.find key.1 key.2)) = none) :
    H.seedEntries files seed n entries t = t := by
  induction entries generalizing n with
  | nil => rfl
  | cons entry entries ih =>
      have hrest := fun e he => hvalid e (List.mem_cons_of_mem entry he)
      obtain ⟨⟨k, digest⟩, hart⟩ :=
        Option.ne_none_iff_exists'.mp (hvalid entry List.mem_cons_self)
      have hnone := fun key => List.find?_eq_none.mp (hstill key)
      have hskip : seedsOver entry.restorable digest (t.world.registry.find k.1 k.2) = false := by
        by_contra hs
        exact hnone k entry List.mem_cons_self
          ((claims_iff hart).mpr ⟨rfl, by simpa using hs⟩)
      rw [PluginHost.seedEntries, seedBundledEntry_leaves (hcalm n) hlocks hart hskip]
      refine ih hrest (n + 1) fun key => List.find?_eq_none.mpr fun e he => ?_
      exact hnone key e (List.mem_cons_of_mem entry he)

end

/-- One pass settles the registry, for each state and each index of valid artifacts,
exactly when no row has to be brought up to another artifact. -/
theorem seeding_settles_iff (H : PluginHost) (files : BundledFiles) (index : List BundledEntry)
    (t : Traced) (seed again : ℕ → SeedWeather) (enable enable' : ℕ → Option String × Faults)
    (hon : H.bundledEnabled = true) (hconfigured : H.configured = true)
    (hauto : H.bundledAutoEnable = false) (hindex : files.loadIndex = .ok index)
    (hvalid : ∀ entry ∈ index, H.artifact files entry ≠ none)
    (hseed : ∀ n, (seed n).Calm) (hagain : ∀ n, (again n).Calm) (hlocks : t.world.locks = []) :
    H.Settles files index t (H.seedBundled files seed enable t).1
        (H.seedBundled files again enable' (H.seedBundled files seed enable t).1).1 ↔
      H.Agrees files index t.world.registry := by
  have hpass : ∀ (s : ℕ → SeedWeather) (f : ℕ → Option String × Faults) (u : Traced),
      (H.seedBundled files s f u).1 = H.seedEntries files s 0 index u := by
    intro s f u
    simp [PluginHost.seedBundled, hon, hconfigured, hauto, hindex]
  rw [hpass, hpass]
  obtain ⟨hheld, hrows⟩ := seedEntries_leaves hseed hvalid 0 hlocks
  set t' := H.seedEntries files seed 0 index t with ht'
  -- a claimed row is installed, and no entry claims that again
  have hstill : ∀ key : Key,
      index.find? (H.claims files key (t'.world.registry.find key.1 key.2)) = none := by
    intro key
    have hkey := hrows key
    cases hfirst : index.find? (H.claims files key (t.world.registry.find key.1 key.2)) with
    | none =>
        rw [hfirst] at hkey
        rw [show t'.world.registry.find key.1 key.2 = _ from hkey, hfirst]
    | some first =>
        rw [hfirst] at hkey
        obtain ⟨q, digest, hq, hstate, -⟩ := hkey
        rw [hq]
        exact find?_claims_eq_none (by rw [hstate]; rfl)
  -- a row that `Install` refuses is as it was
  have hkept : ∀ (k : Key) p, t.world.registry.find k.1 k.2 = some p →
      p.state.reinstallable = false → t'.world.registry.find k.1 k.2 = some p := by
    intro k p hp hstate
    have hkey := hrows k
    rw [hp, find?_claims_eq_none hstate] at hkey
    exact hkey
  constructor
  · intro h entry hentry k digest hart hneed
    obtain ⟨q, hq, hdigest⟩ := h.registered entry hentry k digest hart hneed
    refine ⟨?_, ?_⟩
    · intro p hp hstate
      have hsame := hkept k p hp hstate
      rw [hq, Option.some.injEq] at hsame
      rw [← hsame]
      exact hdigest
    · intro first hfirst
      have hkey := hrows k
      rw [hfirst, hq] at hkey
      obtain ⟨q', digest', hq', -, hart', hdigest'⟩ := hkey
      rw [Option.some.injEq] at hq'
      rw [hart', ← hdigest', ← hq', hdigest]
  · intro h
    refine ⟨?_, ?_, seedEntries_still hagain hvalid 0 hheld hstill⟩
    · intro k p hp hstate
      refine hkept k p hp ?_
      rcases hstate with hs | hs | hs <;> rw [hs] <;> rfl
    · intro entry hentry k digest hart hneed
      obtain ⟨hsame, hfirst⟩ := h entry hentry k digest hart hneed
      have hkey := hrows k
      cases hclaims : index.find? (H.claims files k (t.world.registry.find k.1 k.2)) with
      | some first =>
          rw [hclaims] at hkey
          obtain ⟨q, digest', hq, -, hart', hdigest⟩ := hkey
          rw [hfirst first hclaims, Option.some.injEq, Prod.mk.injEq] at hart'
          exact ⟨q, hq, hdigest.trans hart'.2.symm⟩
      | none =>
          rw [hclaims] at hkey
          have hskip : seedsOver entry.restorable digest (t.world.registry.find k.1 k.2) =
              false := by
            by_contra hs
            exact List.find?_eq_none.mp hclaims entry hentry
              ((claims_iff hart).mpr ⟨rfl, by simpa using hs⟩)
          cases hfind : t.world.registry.find k.1 k.2 with
          | none =>
              rw [hfind] at hskip
              cases hskip
          | some p =>
              rw [hfind] at hskip
              rw [show t'.world.registry.find k.1 k.2 = _ from hkey, hfind]
              cases hs : p.state.reinstallable with
              | false => exact ⟨p, rfl, hsame p hfind hs⟩
              | true =>
                  obtain ⟨hstate, hrestorable, -⟩ := not_seedsOver hskip hs
                  refine absurd ⟨?_, hrestorable⟩ hneed
                  rw [World.stateOf, hfind, Option.map_some, hstate]

/-- The plugin of the other demonstrations comes with the release. -/
def shippedHost : PluginHost where
  installer := demoInstaller
  configured := true
  bundledEnabled := true
  bundledAutoEnable := false
  appEnv := "production"

def shippedEntry : BundledEntry := ⟨"acme/demo", "demo.zip", false, true⟩

def shippedFiles : BundledFiles where
  loadIndex := .ok [shippedEntry]
  loadArtifact _ := .ok [0]

def clearSeed : SeedWeather := ⟨none, none, demoInstallWeather none⟩

/-- The installed row of a release whose artifact had that digest. -/
def shippedRow (digest : String) : PluginVersion :=
  { PluginVersion.zero with
    id := 1
    pluginID := "acme/demo"
    version := "1.0.0"
    artifactDigest := digest
    state := .installed
    sourceType := bundledSourceType }

theorem shippedRow_nodup (digest : String) :
    ([shippedRow digest].map PluginVersion.key).Nodup := List.nodup_singleton _

theorem shippedRow_oneEnabled (digest : String) : OneEnabled [shippedRow digest] := by
  intro a ha b hb ha' hb' hid
  rw [List.mem_singleton.mp ha, List.mem_singleton.mp hb]

theorem shippedRow_identified (digest : String) :
    ∀ p ∈ [shippedRow digest], p.pluginID ≠ "" ∧ GoStrings.trimSpace p.version ≠ "" := by
  intro p hp
  rw [List.mem_singleton.mp hp]
  refine ⟨?_, ?_⟩
  · show "acme/demo" ≠ ""
    decide
  · show GoStrings.trimSpace "1.0.0" ≠ ""
    decide

def shipped (digest : String) : Traced where
  world :=
    { registry := ⟨[shippedRow digest], shippedRow_nodup digest, shippedRow_oneEnabled digest,
        shippedRow_identified digest⟩
      running := []
      targets := []
      configs := []
      locks := [] }
  installs := []

theorem clearSeed_calm : clearSeed.Calm :=
  ⟨rfl, rfl, ⟨fun _ => rfl, rfl, rfl⟩⟩

theorem shippedEntry_artifact :
    shippedHost.artifact shippedFiles shippedEntry =
      some (("acme/demo", "1.0.0"), "6e340b9c") := by
  decide

/-- A release whose artifact did not change. -/
theorem seeding_settles_shipped :
    shippedHost.Settles shippedFiles [shippedEntry] (shipped "6e340b9c")
      (shippedHost.seedBundled shippedFiles (fun _ => clearSeed) (fun _ => (none, fun _ => none))
        (shipped "6e340b9c")).1
      (shippedHost.seedBundled shippedFiles (fun _ => clearSeed) (fun _ => (none, fun _ => none))
        (shippedHost.seedBundled shippedFiles (fun _ => clearSeed)
          (fun _ => (none, fun _ => none)) (shipped "6e340b9c")).1).1 := by
  refine (seeding_settles_iff shippedHost shippedFiles [shippedEntry] (shipped "6e340b9c")
    (fun _ => clearSeed) (fun _ => clearSeed) (fun _ => (none, fun _ => none))
    (fun _ => (none, fun _ => none)) rfl rfl rfl rfl ?_ (fun _ => clearSeed_calm)
    (fun _ => clearSeed_calm) rfl).mpr ?_
  · intro entry hentry
    rw [List.mem_singleton.mp hentry, shippedEntry_artifact]
    exact Option.some_ne_none _
  · intro entry hentry k digest hart _
    rw [List.mem_singleton.mp hentry, shippedEntry_artifact, Option.some.injEq,
      Prod.mk.injEq] at hart
    obtain ⟨rfl, rfl⟩ := hart
    refine ⟨?_, ?_⟩
    · intro p hp _
      have hrow : (shipped "6e340b9c").world.registry.find "acme/demo" "1.0.0" =
          some (shippedRow "6e340b9c") := by decide
      obtain rfl := Option.some.inj (hrow.symm.trans hp)
      rfl
    · intro first hfirst
      rw [List.mem_singleton.mp (List.mem_of_find?_eq_some hfirst), shippedEntry_artifact]

/-- The release brought another artifact for the installed version, and the row keeps
the old one. -/
theorem changed_artifact_not_installed :
    shippedHost.artifact shippedFiles shippedEntry =
        some (("acme/demo", "1.0.0"), "6e340b9c") ∧
      ∀ again, ¬ shippedHost.Settles shippedFiles [shippedEntry] (shipped "0f1e2d3c")
        (shippedHost.seedBundled shippedFiles (fun _ => clearSeed)
          (fun _ => (none, fun _ => none)) (shipped "0f1e2d3c")).1 again := by
  refine ⟨shippedEntry_artifact, fun again h => ?_⟩
  obtain ⟨q, hq, hdigest⟩ := h.registered shippedEntry (List.mem_singleton_self _) _ _
    shippedEntry_artifact (by decide)
  have hrow : (shippedHost.seedBundled shippedFiles (fun _ => clearSeed)
      (fun _ => (none, fun _ => none)) (shipped "0f1e2d3c")).1.world.registry.find
        "acme/demo" "1.0.0" = some (shippedRow "0f1e2d3c") := by decide
  obtain rfl := Option.some.inj (hrow.symm.trans hq)
  exact absurd hdigest (by decide)

end GoSite.Plugin
