import GoSite.ArtifactExtraction
import GoSite.GuardedRuns
import GoSite.PluginCalls
import GoSite.Utf8Texts

/-!
# What lies in the directory of a plugin version

`Install` extracts the archive into the version's directory, file by file, before
the version has a row in the registry. A later attempt clears the directory only
where there is a row of a failed or uninstalled attempt, so that what a broken
extraction left stays there.
-/
namespace GoSite.Plugin
open GoStrings GuardedRuns Paths DiskTrees
open GoSite.Terminal (joinPath cleanPath)

/-- How the file calls of one `Install` go. `cause` is the text of a failure. -/
structure FileWeather where
  stuck : List Place
  mkdir : Place → Bool
  entry : ℕ → EntryWeather
  artifact : WriteFault (List UInt8)
  manifest : WriteFault (List UInt8)
  cause : String

/-- Where storing the artifact ends. -/
inductive StoreFault where
  | mkdir
  | extract (err : AppError)
  | artifact
  | manifest
  deriving Repr, DecidableEq

/-- What is installed: the archive, the artifact itself and its manifest. -/
structure Package where
  archive : Option (List ZipEntry)
  content : List UInt8
  manifest : List UInt8
  digest : String

def Package.artifactName (k : Package) : List Char := (k.digest ++ ".artifact").toList

def manifestName : List Char := "manifest.json".toList

/-- The artifact and its manifest are written to their places. -/
def persistFiles (e : FileWeather) (d : Disk (List UInt8)) (artifact manifest : Place)
    (k : Package) : Disk (List UInt8) × Option StoreFault :=
  let (d, written) := writeFile e.artifact d artifact k.content
  if ¬ written then (d, some .artifact)
  else
    let (d, written) := writeFile e.manifest d manifest k.manifest
    (d, if written then none else some .manifest)

/-- The file calls of `Install`, from `MkdirAll` to the manifest. -/
def storeFiles (cwd : Directory) (e : FileWeather) (d : Disk (List UInt8)) (dir : List Char)
    (k : Package) : Disk (List UInt8) × Option StoreFault :=
  let (d, made) := mkdirAll e.mkdir d (absElements cwd dir)
  if ¬ made then (d, some .mkdir)
  else
    match extractZipArtifact cwd dir e.entry d k.archive with
    | (d, some err) => (d, some (.extract err))
    | (d, none) =>
        persistFiles e d (absElements cwd (joinPath dir k.artifactName))
          (absElements cwd (joinPath dir manifestName)) k

/-- The files of one entry. -/
def entryFiles (cwd : Directory) (dir : List Char) (file : ZipEntry) :
    List (Place × List UInt8) :=
  match safeArtifactPath cwd dir file.name with
  | .error _ => []
  | .ok target => if file.isDir then [] else [(placeOf target, file.data.take readLimit)]

/-- The files of a package, in the order they are written. -/
def Package.files (cwd : Directory) (dir : List Char) (k : Package) : List (Place × List UInt8) :=
  (k.archive.getD []).flatMap (entryFiles cwd dir) ++
    [(absElements cwd (joinPath dir k.artifactName), k.content),
      (absElements cwd (joinPath dir manifestName), k.manifest)]

/-- The files a directory with nothing else in it holds. -/
def Package.contents (cwd : Directory) (dir : List Char) (k : Package) :
    Place → Option (List UInt8) :=
  overwrite (k.files cwd dir) fun _ => none

theorem extractEntry_content {cwd : Directory} {dir : List Char} {e : EntryWeather}
    {d : Disk (List UInt8)} {file : ZipEntry} (h : (extractEntry cwd dir e d file).2 = none) :
    (extractEntry cwd dir e d file).1.contentAt =
      overwrite (entryFiles cwd dir file) d.contentAt := by
  unfold extractEntry at h ⊢
  unfold entryFiles
  cases hsafe : safeArtifactPath cwd dir file.name with
  | error err => simp [hsafe] at h
  | ok target =>
      simp only [hsafe] at h ⊢
      by_cases hentry : file.isDir = true
      · simp only [if_pos hentry]
        funext p
        exact contentAt_mkdirAll e.mkdir d (placeOf target) p
      · simp only [if_neg hentry] at h ⊢
        by_cases hok : (mkdirAll e.mkdir d (placeOf (dirPath target))).2 = true
        · simp only [hok, not_true_eq_false, if_false] at h ⊢
          cases hopens : e.opens with
          | some err => simp [hopens] at h
          | none =>
              simp only [hopens] at h ⊢
              have hwritten : (writeFile e.write (mkdirAll e.mkdir d (placeOf (dirPath target))).1
                  (placeOf target) (file.data.take readLimit)).2 = true := by
                by_contra hfail
                simp [hfail] at h
              funext p
              rw [contentAt_writeFile hwritten, contentAt_mkdirAll]
              simp [overwrite, Function.update_apply]
        · simp [hok] at h

theorem extractEntries_content {cwd : Directory} {dir : List Char} {e : ℕ → EntryWeather}
    {d : Disk (List UInt8)} {i : ℕ} {files : List ZipEntry}
    (h : (extractEntries cwd dir e d i files).2 = none) :
    (extractEntries cwd dir e d i files).1.contentAt =
      overwrite (files.flatMap (entryFiles cwd dir)) d.contentAt := by
  induction files generalizing d i with
  | nil => rfl
  | cons file files ih =>
      rw [extractEntries] at h ⊢
      have hentry := @extractEntry_content cwd dir (e i) d file
      cases hresult : extractEntry cwd dir (e i) d file with
      | mk d' err =>
          rw [hresult] at h hentry
          cases err with
          | some err => simp at h
          | none =>
              rw [List.flatMap_cons, overwrite_append, ← hentry rfl]
              exact ih h

theorem persistFiles_content {e : FileWeather} {d : Disk (List UInt8)} {artifact manifest : Place}
    {k : Package} (h : (persistFiles e d artifact manifest k).2 = none) :
    (persistFiles e d artifact manifest k).1.contentAt =
      overwrite [(artifact, k.content), (manifest, k.manifest)] d.contentAt := by
  unfold persistFiles at h ⊢
  dsimp only at h ⊢
  by_cases hartifact : (writeFile e.artifact d artifact k.content).2 = true
  · rw [if_neg (not_not.mpr hartifact)] at h ⊢
    have hmanifest : (writeFile e.manifest (writeFile e.artifact d artifact k.content).1 manifest
        k.manifest).2 = true := by
      by_contra hfail
      simp [hfail] at h
    funext p
    rw [contentAt_writeFile hmanifest, contentAt_writeFile hartifact]
    simp [overwrite, Function.update_apply]
  · rw [if_pos hartifact] at h
    cases h

theorem extractZipArtifact_content {cwd : Directory} {dir : List Char} {e : ℕ → EntryWeather}
    {d : Disk (List UInt8)} {archive : Option (List ZipEntry)}
    (h : (extractZipArtifact cwd dir e d archive).2 = none) :
    (extractZipArtifact cwd dir e d archive).1.contentAt =
      overwrite ((archive.getD []).flatMap (entryFiles cwd dir)) d.contentAt := by
  cases archive with
  | none => rfl
  | some files => exact extractEntries_content h

/-- What is stored is written over what was there. -/
theorem storeFiles_content {cwd : Directory} {e : FileWeather} {d : Disk (List UInt8)}
    {dir : List Char} {k : Package} (h : (storeFiles cwd e d dir k).2 = none) :
    (storeFiles cwd e d dir k).1.contentAt = overwrite (k.files cwd dir) d.contentAt := by
  have hdir : (mkdirAll e.mkdir d (absElements cwd dir)).1.contentAt = d.contentAt :=
    funext fun p => contentAt_mkdirAll e.mkdir d _ p
  unfold storeFiles at h ⊢
  dsimp only at h ⊢
  by_cases hmade : (mkdirAll e.mkdir d (absElements cwd dir)).2 = true
  · rw [if_neg (not_not.mpr hmade)] at h ⊢
    have hextract := @extractZipArtifact_content cwd dir e.entry
      (mkdirAll e.mkdir d (absElements cwd dir)).1 k.archive
    cases hresult : extractZipArtifact cwd dir e.entry
        (mkdirAll e.mkdir d (absElements cwd dir)).1 k.archive with
    | mk d' err =>
        rw [hresult] at h hextract
        cases err with
        | some err => cases h
        | none =>
            rw [Package.files, overwrite_append, ← hdir, ← hextract rfl]
            exact persistFiles_content h
  · rw [if_pos hmade] at h
    cases h

/-! ## Attempts -/

/-- An installer with what it knows of archives and of the disk it works on. -/
structure DiskInstaller extends Installer where
  unzip : List UInt8 → Option (List ZipEntry)
  cwd : Directory

/-- What a checked artifact installs. -/
def DiskInstaller.package (H : DiskInstaller) (input : InstallInput) (c : Checked) : Package :=
  ⟨H.unzip input.content, input.content, encode c.manifestJSON, H.digest input.content⟩

/-- The answers of all calls of `Install`, those of the file calls taken from how
they went. -/
def weatherOf (calls : InstallWeather) (cause : String) (fault : Option StoreFault) :
    InstallWeather :=
  { calls with
    fault := fun call =>
      match call with
      | .mkdirArtifact => if fault = some .mkdir then some cause else none
      | .writeArtifact => if fault = some .artifact then some cause else none
      | .writeManifest => if fault = some .manifest then some cause else none
      | call => calls.fault call
    extract :=
      match fault with
      | some (.extract err) => some err
      | _ => none }

/-- The directory is cleared where an earlier attempt has a row. -/
def clearedDisk (g : Registry) (key : Key) (stuck : List Place) (d : Disk (List UInt8))
    (place : Place) : Disk (List UInt8) :=
  if (g.find key.1 key.2).isSome then DiskTrees.removeAll stuck d place else d

/-- `Install`, with what it does to the disk. -/
def DiskInstaller.installOnDisk (H : DiskInstaller) (calls : InstallWeather) (e : FileWeather)
    (w : World) (d : Disk (List UInt8)) (input : InstallInput) :
    InstallAnswer × Disk (List UInt8) :=
  match H.check input with
  | .error _ => (H.install calls w input, d)
  | .ok c =>
  if c.manifest.id ∈ w.locks then (H.install calls w input, d)
  else
  match safePluginDir H.storageDir c.manifest.id c.manifest.version with
  | .error _ => (H.install calls w input, d)
  | .ok dir =>
  let key := (c.manifest.id, c.manifest.version)
  match existingCheck (calls.fault .findExisting) w.registry key (isBundledInstall input) with
  | some _ => (H.install calls w input, d)
  | none =>
      let cleared := clearedDisk w.registry key e.stuck d (absElements H.cwd dir)
      match calls.fault .ensureDiskWritable with
      | some _ => (H.install calls w input, cleared)
      | none =>
          let (stored, fault) := storeFiles H.cwd e cleared dir (H.package input c)
          let answer := H.install (weatherOf calls e.cause fault) w input
          -- a registration that fails takes the files with it
          if fault = none ∧ .ok "registry" ∉ answer.log then
            (answer, DiskTrees.removeAll e.stuck stored (absElements H.cwd dir))
          else (answer, stored)

/-- The registry and the disk, and what the last attempt has installed. -/
structure VersionHost where
  world : World
  disk : Disk (List UInt8)
  installed : Option Package

/-- An attempt at a version. An uninstall, or another operation, removes an artifact
but for what is stuck, and a purge deletes the row of an uninstalled version. -/
inductive Attempt where
  | install (calls : InstallWeather) (e : FileWeather) (input : InstallInput)
  | operate (F : Faults) (stuck : List Place) (op : Operation)
  | purge

/-- Where an operation gets to the removal of an artifact. -/
def removesFrom (F : Faults) (w : World) : Operation → Option (List Char)
  | .uninstall pluginID version =>
      if pluginID ∈ w.locks then none
      else
        match w.registry.find pluginID version with
        | none => none
        | some record =>
            if stableUninstallState record.state ∧
                (w.setState (F .markUninstalling) record .uninstalling).2.2 = none ∧
                F .ensureStopped = none then
              some (dirPath record.artifactPath.toList)
            else none
  | _ => none

/-- `DeleteUninstalled`. -/
def Registry.deleteUninstalled (g : Registry) (key : Key) : Registry where
  rows := g.rows.filter fun p => ¬ (p.key = key ∧ p.state = .uninstalled)
  keys_nodup := g.keys_nodup.sublist (List.filter_sublist.map _)
  one_enabled := fun a ha b hb => g.one_enabled a (List.mem_of_mem_filter ha) b
    (List.mem_of_mem_filter hb)
  identified := fun p hp => g.identified p (List.mem_of_mem_filter hp)

/-- The version an artifact is checked to be. -/
def DiskInstaller.keyOf (H : DiskInstaller) (input : InstallInput) : Option Key :=
  match H.check input with
  | .error _ => none
  | .ok c => some (c.manifest.id, c.manifest.version)

/-- What an install has installed, if it ended well. -/
def DiskInstaller.outcome (H : DiskInstaller) (answer : InstallAnswer) (input : InstallInput) :
    Option Package :=
  match answer.error, H.check input with
  | none, .ok c => some (H.package input c)
  | _, _ => none

/-- One attempt at the version `key`. An artifact of another version is none. -/
def DiskInstaller.attempt (H : DiskInstaller) (key : Key) (s : VersionHost) :
    Attempt → Option VersionHost
  | .install calls e input =>
      if (H.keyOf input).any (· ≠ key) then none
      else
        let (answer, d) := H.installOnDisk calls e s.world s.disk input
        some ⟨answer.world, d, H.outcome answer input⟩
  | .operate F stuck op =>
      let stuck := if F .removeArtifact = none then [] else stuck
      let d :=
        match removesFrom F s.world op with
        | none => s.disk
        | some dir => DiskTrees.removeAll stuck s.disk (absElements H.cwd dir)
      some ⟨(H.service.perform F s.world op).1, d, none⟩
  | .purge =>
      some ⟨{ s.world with registry := s.world.registry.deleteUninstalled key }, s.disk, none⟩

/-- The directory of the version. -/
def DiskInstaller.dirOf (H : DiskInstaller) (key : Key) : List Char :=
  match safePluginDir H.storageDir key.1 key.2 with
  | .error _ => []
  | .ok dir => dir

/-- What was installed last is all that lies in the version's directory. -/
def DiskInstaller.OnlyOwnFiles (H : DiskInstaller) (key : Key) (s : VersionHost) : Prop :=
  ∀ k, s.installed = some k → ∀ p, absElements H.cwd (H.dirOf key) <+: p →
    s.disk.contentAt p = k.contents H.cwd (H.dirOf key) p

/-- An install that ends well finds no other file in the directory than those it
writes over, once the directory was cleared for a version with a row. -/
def DiskInstaller.FindsNoOther (H : DiskInstaller) (key : Key) (s : VersionHost) :
    Attempt → Prop
  | .install calls e input =>
      ∀ k, H.outcome (H.installOnDisk calls e s.world s.disk input).1 input = some k →
        ∀ p, absElements H.cwd (H.dirOf key) <+: p → k.contents H.cwd (H.dirOf key) p = none →
          (clearedDisk s.world.registry key e.stuck s.disk
            (absElements H.cwd (H.dirOf key))).contentAt p = none
  | _ => True

/-! ## What an install leaves -/

theorem finishInstall_log (e : InstallWeather) (w : World) (m : InstallManifest) (bundled : Bool)
    (r : Registration) (log : List LogStep) : log <+: (finishInstall e w m bundled r log).log := by
  unfold finishInstall
  cases runValidate m bundled e.validate with
  | some err => exact List.prefix_append _ _
  | none =>
      cases hstate : w.setState (e.fault .markInstalled) r.record .installed with
      | mk w' rest =>
          obtain ⟨record, err⟩ := rest
          cases err with
          | some err => exact List.prefix_append _ _
          | none =>
              dsimp only
              rw [List.append_assoc]
              exact List.prefix_append _ _

/-- An install that ends well went through all its calls. -/
theorem install_ok {I : Installer} {e : InstallWeather} {w : World} {input : InstallInput}
    (h : (I.install e w input).error = none) :
    ∃ c dir, I.check input = .ok c ∧ c.manifest.id ∉ w.locks ∧
      safePluginDir I.storageDir c.manifest.id c.manifest.version = .ok dir ∧
      existingCheck (e.fault .findExisting) w.registry (c.manifest.id, c.manifest.version)
        (isBundledInstall input) = none ∧
      storeArtifact e = none ∧ .ok "registry" ∈ (I.install e w input).log := by
  unfold Installer.install at h ⊢
  cases hcheck : I.check input with
  | error err => simp [hcheck, InstallAnswer.refuse] at h
  | ok c =>
  simp only [hcheck] at h ⊢
  by_cases hlock : c.manifest.id ∈ w.locks
  · rw [if_pos hlock] at h
    cases h
  rw [if_neg hlock] at h
  simp only [if_neg hlock]
  unfold Installer.installUnlocked at h ⊢
  cases hdir : safePluginDir I.storageDir c.manifest.id c.manifest.version with
  | error err => simp [hdir, InstallAnswer.refuse] at h
  | ok dir =>
  simp only [hdir] at h ⊢
  cases hexisting : existingCheck (e.fault .findExisting) w.registry
      (c.manifest.id, c.manifest.version) (isBundledInstall input) with
  | some err => simp [hexisting, InstallAnswer.refuse] at h
  | none =>
  simp only [hexisting] at h ⊢
  cases hstore : storeArtifact e with
  | some err => simp [hstore, InstallAnswer.refuse] at h
  | none =>
  simp only [hstore] at h ⊢
  refine ⟨c, dir, rfl, hlock, hdir, hexisting, trivial, ?_⟩
  split at h
  · cases h
  · next hcreate =>
      exact (finishInstall_log _ _ _ _ _ _).subset (by simp)

theorem storeArtifact_weatherOf {calls : InstallWeather} {cause : String}
    {fault : Option StoreFault} (h : storeArtifact (weatherOf calls cause fault) = none) :
    calls.fault .ensureDiskWritable = none ∧ fault = none := by
  unfold storeArtifact at h
  cases hdisk : calls.fault .ensureDiskWritable with
  | some err => simp [weatherOf, hdisk] at h
  | none =>
      cases fault with
      | none => exact ⟨rfl, rfl⟩
      | some fault => cases fault <;> simp [weatherOf, hdisk] at h

theorem installOnDisk_ok {H : DiskInstaller} {calls : InstallWeather} {e : FileWeather}
    {w : World} {d : Disk (List UInt8)} {input : InstallInput} {c : Checked}
    (hcheck : H.check input = .ok c)
    (h : (H.installOnDisk calls e w d input).1.error = none) :
    ∃ dir, safePluginDir H.storageDir c.manifest.id c.manifest.version = .ok dir ∧
      (H.installOnDisk calls e w d input).2.contentAt =
        overwrite ((H.package input c).files H.cwd dir)
          (clearedDisk w.registry (c.manifest.id, c.manifest.version) e.stuck d
            (absElements H.cwd dir)).contentAt := by
  unfold DiskInstaller.installOnDisk at h ⊢
  simp only [hcheck] at h ⊢
  have hrefused : ∀ {P : Prop}, (H.install calls w input).error = none →
      (∀ dir, c.manifest.id ∉ w.locks →
        safePluginDir H.storageDir c.manifest.id c.manifest.version = .ok dir →
        existingCheck (calls.fault .findExisting) w.registry
          (c.manifest.id, c.manifest.version) (isBundledInstall input) = none →
        calls.fault .ensureDiskWritable = none → P) → P := by
    intro P hnone hP
    obtain ⟨c', dir, hc', hlock, hdir, hexisting, hstore, -⟩ := install_ok hnone
    obtain rfl := Except.ok.inj (hcheck.symm.trans hc')
    refine hP dir hlock hdir hexisting ?_
    unfold storeArtifact at hstore
    cases hdisk : calls.fault .ensureDiskWritable with
    | none => rfl
    | some err => simp [hdisk] at hstore
  by_cases hlock : c.manifest.id ∈ w.locks
  · rw [if_pos hlock] at h
    exact hrefused h fun _ hfree _ _ _ => absurd hlock hfree
  rw [if_neg hlock] at h
  simp only [if_neg hlock]
  cases hdir : safePluginDir H.storageDir c.manifest.id c.manifest.version with
  | error err =>
      rw [hdir] at h
      exact hrefused h fun _ _ hok _ _ => by simp [hdir] at hok
  | ok dir =>
  simp only [hdir] at h ⊢
  cases hexisting : existingCheck (calls.fault .findExisting) w.registry
      (c.manifest.id, c.manifest.version) (isBundledInstall input) with
  | some err =>
      simp only [hexisting] at h
      exact hrefused h fun _ _ _ hnone _ => by simp [hexisting] at hnone
  | none =>
  simp only [hexisting] at h ⊢
  cases hdisk : calls.fault .ensureDiskWritable with
  | some err =>
      simp only [hdisk] at h
      exact hrefused h fun _ _ _ _ hnone => by simp [hdisk] at hnone
  | none =>
  simp only [hdisk] at h ⊢
  refine ⟨dir, rfl, ?_⟩
  have hcontent := @storeFiles_content H.cwd e
    (clearedDisk w.registry (c.manifest.id, c.manifest.version) e.stuck d (absElements H.cwd dir))
    dir (H.package input c)
  cases hstore : storeFiles H.cwd e (clearedDisk w.registry
      (c.manifest.id, c.manifest.version) e.stuck d (absElements H.cwd dir)) dir
      (H.package input c) with
  | mk stored fault =>
      rw [hstore] at hcontent
      simp only [hstore] at h ⊢
      have hanswer : (H.install (weatherOf calls e.cause fault) w input).error = none := by
        split_ifs at h <;> exact h
      obtain ⟨_, _, _, _, _, _, hnone, hlog⟩ := install_ok hanswer
      obtain ⟨-, rfl⟩ := storeArtifact_weatherOf hnone
      rw [if_neg fun hmissing => hmissing.2 hlog]
      exact hcontent rfl

/-- The directory holds nothing else exactly if nothing else was found in it. -/
theorem onlyOwnFiles_attempt_iff {H : DiskInstaller} {key : Key} {s t : VersionHost} {a : Attempt}
    (h : H.attempt key s a = some t) : H.OnlyOwnFiles key t ↔ H.FindsNoOther key s a := by
  have hnone : t.installed = none → H.OnlyOwnFiles key t := by
    intro hnone k hk
    rw [hnone] at hk
    cases hk
  cases a with
  | operate F stuck op =>
      obtain rfl := Option.some.inj h
      exact ⟨fun _ => trivial, fun _ => hnone rfl⟩
  | purge =>
      obtain rfl := Option.some.inj h
      exact ⟨fun _ => trivial, fun _ => hnone rfl⟩
  | install calls e input =>
      simp only [DiskInstaller.attempt] at h
      split_ifs at h with hother
      obtain rfl := Option.some.inj h
      cases hk : H.outcome (H.installOnDisk calls e s.world s.disk input).1 input with
      | none =>
          refine ⟨fun _ k hk' => ?_, fun _ k hk' => by cases hk'⟩
          rw [hk] at hk'
          cases hk'
      | some k =>
          have houtcome := hk
          unfold DiskInstaller.outcome at houtcome
          cases herror : (H.installOnDisk calls e s.world s.disk input).1.error with
          | some err => simp [herror] at houtcome
          | none =>
          cases hcheck : H.check input with
          | error err => simp [herror, hcheck] at houtcome
          | ok c =>
          simp only [herror, hcheck, Option.some.injEq] at houtcome
          subst houtcome
          have hkey : (c.manifest.id, c.manifest.version) = key := by
            simpa [DiskInstaller.keyOf, hcheck] using hother
          subst hkey
          obtain ⟨dir, hdir, hcontent⟩ := installOnDisk_ok hcheck herror
          have hdirOf : H.dirOf (c.manifest.id, c.manifest.version) = dir := by
            simp [DiskInstaller.dirOf, hdir]
          unfold DiskInstaller.OnlyOwnFiles DiskInstaller.FindsNoOther
          simp only [hk, hdirOf, hcontent, Option.some.injEq, forall_eq']
          refine forall₂_congr fun p hp => ?_
          rw [overwrite_eq_or, Package.contents]
          cases overwrite ((H.package input c).files H.cwd dir) (fun _ => none) p with
          | none => simp
          | some content => simp

/-! ## Attempts that leave nothing behind -/

/-- No file lies in the directory of the version. -/
def DiskInstaller.NoFiles (H : DiskInstaller) (key : Key) (d : Disk (List UInt8)) : Prop :=
  ∀ p, absElements H.cwd (H.dirOf key) <+: p → d.contentAt p = none

/-- An attempt that does not break off between the first file and the registration of
a version without a row, and removes what it is to remove. A purge finds no file. -/
def DiskInstaller.Tidy (H : DiskInstaller) (key : Key) (s : VersionHost) : Attempt → Prop
  | .install _ e input =>
      e.stuck = [] ∧ (s.world.registry.find key.1 key.2 = none → ∀ c, H.check input = .ok c →
        (storeFiles H.cwd e s.disk (H.dirOf key) (H.package input c)).2 = none ∨
          (storeFiles H.cwd e s.disk (H.dirOf key) (H.package input c)).2 = some .mkdir)
  | .operate _ _ _ => True
  | .purge => H.NoFiles key s.disk

/-- The version has a row, or no files. -/
def DiskInstaller.Accounted (H : DiskInstaller) (key : Key) (s : VersionHost) : Prop :=
  (s.world.registry.find key.1 key.2).isSome ∨ H.NoFiles key s.disk

theorem find_isSome_iff (g : Registry) (key : Key) :
    (g.find key.1 key.2).isSome ↔ key ∈ g.rows.map PluginVersion.key := by
  rw [Registry.find, List.find?_isSome, List.mem_map]
  simp

/-- The operations keep the rows of all versions. -/
theorem calls_row {K : Set Key} {w w' : World} (h : World.Calls K w w') (key : Key) :
    (w'.registry.find key.1 key.2).isSome ↔ (w.registry.find key.1 key.2).isSome := by
  obtain ⟨calls, -, rfl⟩ := h
  induction calls generalizing w with
  | nil => rfl
  | cons c calls ih =>
      rw [List.foldl_cons, ih]
      cases c with
      | write record state fc fm =>
          rw [find_isSome_iff, find_isSome_iff]
          simp only [LifecycleCall.apply, World.write]
          cases hupdate : w.registry.update record.key state fc fm with
          | none => rfl
          | some g =>
              have hkeys : g.rows.map PluginVersion.key = w.registry.rows.map PluginVersion.key := by
                unfold Registry.update at hupdate
                split_ifs at hupdate
                obtain rfl := Option.some.inj hupdate
                exact updateRows_keys _ _ _ _ _
              rw [← hkeys]
              dsimp only
              split <;> rfl
      | _ => rfl

theorem storeFiles_mkdir {cwd : Directory} {e : FileWeather} {d : Disk (List UInt8)}
    {dir : List Char} {k : Package} (h : (storeFiles cwd e d dir k).2 = some .mkdir) (p : Place) :
    (storeFiles cwd e d dir k).1.contentAt p = d.contentAt p := by
  unfold storeFiles at h ⊢
  dsimp only at h ⊢
  by_cases hmade : (mkdirAll e.mkdir d (absElements cwd dir)).2 = true
  · rw [if_neg (not_not.mpr hmade)] at h
    cases hresult : extractZipArtifact cwd dir e.entry
        (mkdirAll e.mkdir d (absElements cwd dir)).1 k.archive with
    | mk d' err =>
        rw [hresult] at h
        cases err with
        | some err => simp at h
        | none =>
            unfold persistFiles at h
            dsimp only at h
            split_ifs at h <;> cases h
  · rw [if_pos hmade]
    exact contentAt_mkdirAll e.mkdir d _ p

/-- The registry sees an install whose file calls went as they did on the disk. -/
theorem installOnDisk_answer (H : DiskInstaller) (calls : InstallWeather) (e : FileWeather)
    (w : World) (d : Disk (List UInt8)) (input : InstallInput) :
    ∃ calls', (H.installOnDisk calls e w d input).1 = H.install calls' w input := by
  unfold DiskInstaller.installOnDisk
  cases H.check input with
  | error err => exact ⟨calls, rfl⟩
  | ok c =>
  simp only
  split_ifs
  · exact ⟨calls, rfl⟩
  cases safePluginDir H.storageDir c.manifest.id c.manifest.version with
  | error err => exact ⟨calls, rfl⟩
  | ok dir =>
  simp only
  cases existingCheck (calls.fault .findExisting) w.registry
      (c.manifest.id, c.manifest.version) (isBundledInstall input) with
  | some err => exact ⟨calls, rfl⟩
  | none =>
  simp only
  cases calls.fault .ensureDiskWritable with
  | some err => exact ⟨calls, rfl⟩
  | none =>
  simp only
  split_ifs
  · exact ⟨_, rfl⟩
  · exact ⟨_, rfl⟩

/-- An install keeps rows, and one that registers makes one. -/
theorem install_row {I : Installer} {e : InstallWeather} {w : World} {input : InstallInput}
    {key : Key} : ((w.registry.find key.1 key.2).isSome →
      ((I.install e w input).world.registry.find key.1 key.2).isSome) ∧
    (∀ c, I.check input = .ok c → .ok "registry" ∈ (I.install e w input).log →
      ((I.install e w input).world.registry.find c.manifest.id c.manifest.version).isSome) := by
  rcases install_cases I e w input with ⟨hsame, -, hlog⟩ | ⟨c, hcheck, q, hmoves, -, -, -, -⟩
  · rw [hsame]
    exact ⟨id, fun _ _ hmem => absurd hmem hlog⟩
  · have hrow : ((I.install e w input).world.registry.find c.manifest.id c.manifest.version).isSome := by
      simp [hmoves.find_eq]
    refine ⟨fun hbefore => ?_, fun c' hcheck' _ => ?_⟩
    · by_cases hkey : key = (c.manifest.id, c.manifest.version)
      · rw [hkey]
        exact hrow
      · rw [hmoves.find_other key hkey]
        exact hbefore
    · obtain rfl := Except.ok.inj (hcheck.symm.trans hcheck')
      exact hrow

theorem noFiles_of_same {H : DiskInstaller} {key : Key} {d d' : Disk (List UInt8)}
    (h : H.NoFiles key d) (hsame : ∀ p, d.contentAt p = none → d'.contentAt p = none) :
    H.NoFiles key d' := fun p hp => hsame p (h p hp)

/-- A tidy install of a version without row and files leaves a row, or no files. -/
theorem installOnDisk_accounted {H : DiskInstaller} {calls : InstallWeather} {e : FileWeather}
    {w : World} {d : Disk (List UInt8)} {input : InstallInput} {key : Key}
    (hkey : ¬ (H.keyOf input).any (· ≠ key)) (hstuck : e.stuck = [])
    (hrow : w.registry.find key.1 key.2 = none)
    (hstore : ∀ c, H.check input = .ok c →
      (storeFiles H.cwd e d (H.dirOf key) (H.package input c)).2 = none ∨
        (storeFiles H.cwd e d (H.dirOf key) (H.package input c)).2 = some .mkdir)
    (hfiles : H.NoFiles key d) :
    ((H.installOnDisk calls e w d input).1.world.registry.find key.1 key.2).isSome ∨
      H.NoFiles key (H.installOnDisk calls e w d input).2 := by
  unfold DiskInstaller.installOnDisk
  cases hcheck : H.check input with
  | error err => exact .inr hfiles
  | ok c =>
  have hcKey : (c.manifest.id, c.manifest.version) = key := by
    simpa [DiskInstaller.keyOf, hcheck] using hkey
  subst hcKey
  simp only
  by_cases hlock : c.manifest.id ∈ w.locks
  · rw [if_pos hlock]
    exact .inr hfiles
  rw [if_neg hlock]
  cases hdir : safePluginDir H.storageDir c.manifest.id c.manifest.version with
  | error err => exact .inr hfiles
  | ok dir =>
  have hdirOf : H.dirOf (c.manifest.id, c.manifest.version) = dir := by
    simp [DiskInstaller.dirOf, hdir]
  simp only
  cases existingCheck (calls.fault .findExisting) w.registry
      (c.manifest.id, c.manifest.version) (isBundledInstall input) with
  | some err => exact .inr hfiles
  | none =>
  have hcleared : clearedDisk w.registry (c.manifest.id, c.manifest.version) e.stuck d
      (absElements H.cwd dir) = d := by
    rw [clearedDisk, hrow]
    rfl
  simp only [hcleared]
  cases calls.fault .ensureDiskWritable with
  | some err => exact .inr hfiles
  | none =>
  have hfault := hstore c hcheck
  have hmkdir := @storeFiles_mkdir H.cwd e d dir (H.package input c)
  rw [hdirOf] at hfault
  cases hresult : storeFiles H.cwd e d dir (H.package input c) with
  | mk stored fault =>
  rw [hresult] at hfault hmkdir
  simp only
  split_ifs with hgone
  · refine .inr fun p hp => ?_
    rw [hstuck]
    exact contentAt_removeAll (hdirOf ▸ hp)
  · rcases hfault with rfl | rfl
    · have hlog := not_not.mp fun hmissing => hgone ⟨rfl, hmissing⟩
      exact .inl ((@install_row _ _ _ _ (c.manifest.id, c.manifest.version)).2 c hcheck hlog)
    · exact .inr (noFiles_of_same hfiles fun p hp => (hmkdir rfl p).trans hp)

theorem accounted_attempt {H : DiskInstaller} {key : Key} {s t : VersionHost} {a : Attempt}
    (hs : H.Accounted key s) (hgood : H.Tidy key s a) (h : H.attempt key s a = some t) :
    H.Accounted key t := by
  cases a with
  | operate F stuck op =>
      obtain rfl := Option.some.inj h
      rcases hs with hrow | hfiles
      · exact .inl ((calls_row (perform_calls H.service F s.world op) key).mpr hrow)
      · refine .inr (noFiles_of_same hfiles fun p hp => ?_)
        dsimp only
        cases removesFrom F s.world op with
        | none => exact hp
        | some dir => exact contentAt_removeAll_of_none hp _ _
  | purge =>
      obtain rfl := Option.some.inj h
      exact .inr hgood
  | install calls e input =>
      simp only [DiskInstaller.attempt] at h
      split_ifs at h with hkey
      obtain rfl := Option.some.inj h
      obtain ⟨hstuck, hstore⟩ := hgood
      by_cases hrow : s.world.registry.find key.1 key.2 = none
      · have hfiles : H.NoFiles key s.disk := hs.resolve_left (by simp [hrow])
        exact installOnDisk_accounted hkey hstuck hrow (hstore hrow) hfiles
      · left
        have hbefore := Option.isSome_iff_ne_none.mpr hrow
        obtain ⟨calls', hanswer⟩ := installOnDisk_answer H calls e s.world s.disk input
        dsimp only
        rw [hanswer]
        exact install_row.1 hbefore

/-- A version with a row is cleared, and one without has no files. -/
theorem findsNoOther_of_accounted {H : DiskInstaller} {key : Key} {s : VersionHost} {a : Attempt}
    (hs : H.Accounted key s) (hgood : H.Tidy key s a) : H.FindsNoOther key s a := by
  cases a with
  | operate F stuck op => trivial
  | purge => trivial
  | install calls e input =>
      intro k _ p hp _
      rw [clearedDisk, hgood.1]
      split_ifs with hrow
      · exact contentAt_removeAll hp
      · exact hs.resolve_left hrow p hp

/-- In every run of attempts, what an install that ends well leaves in the directory
is its own exactly if it found nothing else there. Where every attempt before is
tidy, it does. -/
theorem installs_own_their_directory (H : DiskInstaller) (key : Key) (w : World)
    (d : Disk (List UInt8)) (as : List Attempt) :
    (Along (H.attempt key) (H.OnlyOwnFiles key) ⟨w, d, none⟩ as ↔
      Guarded (H.attempt key) (H.FindsNoOther key) ⟨w, d, none⟩ as) ∧
    (H.Accounted key ⟨w, d, none⟩ → Guarded (H.attempt key) (H.Tidy key) ⟨w, d, none⟩ as →
      Along (H.attempt key) (H.OnlyOwnFiles key) ⟨w, d, none⟩ as) := by
  have hstart : H.OnlyOwnFiles key ⟨w, d, none⟩ := fun k hk => by cases hk
  have hiff : Along (H.attempt key) (H.OnlyOwnFiles key) ⟨w, d, none⟩ as ↔
      Guarded (H.attempt key) (H.FindsNoOther key) ⟨w, d, none⟩ as :=
    along_iff_guarded (fun _ hs => hs) (fun _ _ _ _ hgood ht => (onlyOwnFiles_attempt_iff ht).mpr hgood)
      (fun _ _ _ _ hbad ht hown => hbad ((onlyOwnFiles_attempt_iff ht).mp hown)) hstart
  refine ⟨hiff, fun haccounted htidy => hiff.mpr ?_⟩
  have hinvariant := along_of_guarded
    (fun _ _ _ hs hgood ht => accounted_attempt hs hgood ht) haccounted htidy
  exact ((hinvariant.guarded fun _ _ hs => hs).and htidy).mono
    fun _ _ hgood => findsNoOther_of_accounted hgood.1 hgood.2

def vacantWorld : World := ⟨⟨[], keys_nodup_nil, oneEnabled_nil, identified_nil⟩, [], [], [], []⟩

def calmInstall : InstallWeather := ⟨fun _ => none, none, ⟨none, none, false, "", none⟩, 0⟩

def calmFiles : FileWeather := ⟨[], fun _ => false, fun _ => calmEntry, .none, .none, ""⟩

/-- The archive of the first artifact has an entry that leads out of the directory. -/
def unsafeUnzip (content : List UInt8) : Option (List ZipEntry) :=
  if content = [0] then some [⟨"bin/old".toList, .regular, [7]⟩, ⟨"../out".toList, .regular, []⟩]
  else some [⟨"bin/validate".toList, .regular, [8]⟩]

def demoDiskInstaller : DiskInstaller := { demoInstaller with
  unzip := unsafeUnzip
  cwd := rootDirectory }

def demoKey : Key := ("acme/demo", "1.0.0")

/-- The refused artifact and a good one. -/
def twoInstalls : List Attempt :=
  [.install calmInstall calmFiles ⟨[0], "", none, false⟩,
    .install calmInstall calmFiles ⟨[1], "", none, false⟩]

def oldFile : Place := ["storage", "plugins", "acme", "demo", "1.0.0", "bin", "old"].map String.toList

theorem good_package_stored :
    (storeFiles rootDirectory calmFiles blank (demoDiskInstaller.dirOf demoKey)
      ⟨unsafeUnzip [1], [1], encode "{}", "6e340b9c"⟩).2 = none := by
  decide

theorem installs_own_their_directory_demo :
    Along (demoDiskInstaller.attempt demoKey) (demoDiskInstaller.OnlyOwnFiles demoKey)
      ⟨vacantWorld, blank, none⟩ (twoInstalls.drop 1) := by
  refine (installs_own_their_directory demoDiskInstaller demoKey vacantWorld blank
    (twoInstalls.drop 1)).2 (.inr fun p _ => ?_) fun t _ => ⟨⟨rfl, fun _ c hc => ?_⟩, trivial⟩
  · exact blank_contentAt p
  · have hjson : (demoDiskInstaller.check ⟨[1], "", none, false⟩).toOption.map
        Checked.manifestJSON = some "{}" := by decide
    rw [hc] at hjson
    left
    rw [DiskInstaller.package, Option.some.inj hjson]
    exact good_package_stored

/-- What the refused artifact left is there beside the good one. -/
theorem refused_files_stay :
    ¬ ∀ (H : DiskInstaller) (key : Key) (as : List Attempt),
      Along (H.attempt key) (H.OnlyOwnFiles key) ⟨vacantWorld, blank, none⟩ as := by
  intro h
  have hall := h demoDiskInstaller demoKey twoInstalls
  have hleft : (run (demoDiskInstaller.attempt demoKey) ⟨vacantWorld, blank, none⟩ twoInstalls).map
      (fun s => (s.disk.contentAt oldFile, s.installed.map fun k =>
        k.contents rootDirectory (demoDiskInstaller.dirOf demoKey) oldFile)) =
      some (some [7], some none) := by
    set_option maxRecDepth 20000 in
    decide
  obtain ⟨s, hs, hpair⟩ := Option.map_eq_some_iff.mp hleft
  obtain ⟨hold, hown⟩ := Prod.mk.inj hpair
  obtain ⟨k, hk, hnone⟩ := Option.map_eq_some_iff.mp hown
  have hinside : absElements demoDiskInstaller.cwd (demoDiskInstaller.dirOf demoKey) <+: oldFile := by
    decide
  have hsame := (hall.last hs) k hk oldFile hinside
  rw [hold, show k.contents demoDiskInstaller.cwd (demoDiskInstaller.dirOf demoKey) oldFile = none
    from hnone] at hsame
  cases hsame

end GoSite.Plugin
