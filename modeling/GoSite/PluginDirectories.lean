import GoSite.PathElements
import GoSite.PluginInstall

/-!
# The directories of plugin artifacts

`Install` stores a version below the plugin root, in the directory of its vendor,
its name and its version. A version is any text that is not blank and has no
separator and no `..` in it. Cleaning the joined path drops the version `.`, and
the version then owns the directory that all versions of the plugin lie in.
-/
namespace GoSite.Plugin
open GoStrings
open GoSite.Terminal (joinPath cleanPath)
open GoSite.Paths

/-- `storageDir` of the service. -/
def storageDirOf (storageRoot : String) : List Char :=
  joinPath storageRoot.toList "plugins".toList

/-- The plugin root of a process that works in `cwd`. -/
def pluginRoot (cwd : Directory) (storageRoot : String) : List Char :=
  absPath cwd (storageDirOf storageRoot)

/-- `safePluginDir`, where the storage root may be relative. -/
def artifactDir (cwd : Directory) (storageRoot pluginID version : String) :
    Except AppError (List Char) :=
  if ¬ matchesPluginID pluginID ∨ ['.', '.'] <:+: version.toList ∨
      version.toList.any (fun c => c = '/' ∨ c = '\\') then
    .error (.new .pluginInvalid "invalid plugin path identity")
  else
    let dir := joinPath (joinPath (storageDirOf storageRoot) pluginID.toList) version.toList
    let cleanRoot := absPath cwd (storageDirOf storageRoot)
    let cleanDir := absPath cwd dir
    if cleanDir ≠ cleanRoot ∧ ¬ (cleanRoot ++ ['/']) <+: cleanDir then
      .error (.new .pluginInvalid "invalid plugin storage path")
    else .ok cleanDir

def hexDigits : List Char := "0123456789abcdef".toList

/-- `hex.EncodeToString`. -/
def hexString (bytes : List UInt8) : List Char :=
  bytes.flatMap fun b => [hexDigits.getD (b.toNat / 16) '0', hexDigits.getD (b.toNat % 16) '0']

/-- The path under which `Install` records an artifact. -/
def artifactPathOf (sha256 : List UInt8 → List UInt8) (dir : List Char) (content : List UInt8) :
    List Char :=
  joinPath dir (hexString (sha256 content) ++ ".artifact".toList)

/-- The directories of two versions are separate below the plugin root. A failed
`Install` removes the directory, and `Uninstall` the one of the recorded path. -/
structure Separate (root dir₁ dir₂ artifact₁ artifact₂ : List Char) : Prop where
  below₁ : Paths.Within root dir₁ ∧ dir₁ ≠ root
  below₂ : Paths.Within root dir₂ ∧ dir₂ ≠ root
  disjoint : ¬ Paths.Within dir₁ dir₂ ∧ ¬ Paths.Within dir₂ dir₁
  kept₁ : ∀ files, ∀ path ∈ files, Paths.Within dir₁ path →
    path ∈ removeAll files dir₂ ∧ path ∈ removeAll files (dirPath artifact₂)
  kept₂ : ∀ files, ∀ path ∈ files, Paths.Within dir₂ path →
    path ∈ removeAll files dir₁ ∧ path ∈ removeAll files (dirPath artifact₁)

theorem storageDirOf_ne_nil (storageRoot : String) : storageDirOf storageRoot ≠ [] :=
  joinPath_ne_nil _ _

theorem isPluginName_plain {cs : List Char} (h : isPluginName cs = true) : Plain cs := by
  cases cs with
  | nil => simp [isPluginName] at h
  | cons c cs =>
      simp only [isPluginName, Bool.and_eq_true, Bool.or_eq_true, List.all_eq_true,
        decide_eq_true_eq] at h
      obtain ⟨hc, hcs⟩ := h
      have hdot : c ≠ '.' := by
        rintro rfl
        revert hc
        decide
      refine ⟨by simp, by simp [hdot], by simp [hdot], ?_⟩
      rw [List.mem_cons, not_or]
      refine ⟨?_, ?_⟩
      · rintro rfl
        revert hc
        decide
      · intro hslash
        have := hcs '/' hslash
        revert this
        decide

/-- An accepted plugin id is a vendor and a name. -/
theorem matchesPluginID_parts {id : String} (h : matchesPluginID id = true) :
    ∃ vendor name, id.toList = vendor ++ '/' :: name ∧ Plain vendor ∧ Plain name := by
  unfold matchesPluginID at h
  split at h
  · rename_i vendor name hsplit
    have htext : ['/'].intercalate (id.toList.splitOn '/') = id.toList :=
      List.intercalate_splitOn '/'
    rw [hsplit] at htext
    simp only [Bool.and_eq_true] at h
    refine ⟨vendor, name, ?_, isPluginName_plain h.1, isPluginName_plain h.2⟩
    rw [← htext]
    simp [List.intercalate_cons_cons]
  · simp at h

theorem resolve_id {es : List (List Char)} {id : String} {vendor name : List Char}
    (hid : id.toList = vendor ++ '/' :: name) (hvendor : Plain vendor) (hname : Plain name) :
    resolve es id.toList = es ++ [vendor, name] := by
  rw [hid, resolve_append, resolve_name hvendor, resolve_name hname, List.append_assoc]
  rfl

/-- The element a version adds. -/
def versionElements (version : String) : List (List Char) :=
  if version = "." then [] else [version.toList]

theorem resolve_version (es : List (List Char)) {version : String} (hne : version ≠ "")
    (hdots : ¬ ['.', '.'] <:+: version.toList) (hslash : '/' ∉ version.toList) :
    resolve es version.toList = es ++ versionElements version ∧
      ∀ e ∈ versionElements version, Plain e := by
  unfold versionElements
  split_ifs with hdot
  · subst hdot
    refine ⟨?_, by simp⟩
    have hself : Terminal.cleanElement true es.reverse ['.'] = es.reverse := by
      unfold Terminal.cleanElement
      simp
    rw [resolve, show (".".toList).splitOn '/' = [['.']] by decide, List.foldl_cons,
      List.foldl_nil, hself, List.reverse_reverse, List.append_nil]
  · have hplain : Plain version.toList := by
      refine ⟨by simpa using hne, ?_, ?_, hslash⟩
      · intro h
        exact hdot (String.toList_inj.mp (h.trans (by decide)))
      · intro h
        exact hdots (h ▸ List.infix_rfl)
    exact ⟨resolve_name hplain, by simpa using hplain⟩

/-- The directory of an accepted version has the elements of the plugin root, the
vendor, the name and the version. -/
theorem artifactDir_eq {cwd : Directory} {storageRoot : String} {m : InstallManifest}
    {dir : List Char} (hvalid : validateManifest m = none)
    (h : artifactDir cwd storageRoot m.id m.version = .ok dir) :
    ∃ vendor name, m.id.toList = vendor ++ '/' :: name ∧ Plain vendor ∧ Plain name ∧
      (∀ e ∈ versionElements m.version, Plain e) ∧
        dir = rooted (absElements cwd (storageDirOf storageRoot) ++
          (vendor :: name :: versionElements m.version)) := by
  unfold artifactDir at h
  split_ifs at h with hreject
  simp only [not_or, Bool.not_eq_true, Bool.not_eq_false] at hreject
  obtain ⟨hid, hdots, hchars⟩ := hreject
  obtain ⟨vendor, name, htext, hvendor, hname⟩ := matchesPluginID_parts (by simpa using hid)
  have hne : m.version ≠ "" := by
    intro hempty
    have hblank := (validateManifest_identified hvalid).2
    rw [hempty] at hblank
    exact hblank (by decide)
  have hslash : '/' ∉ m.version.toList := by
    intro hmem
    rw [List.any_eq_false] at hchars
    exact hchars '/' hmem (by simp)
  obtain ⟨hresolve, hplain⟩ := resolve_version
    (absElements cwd (storageDirOf storageRoot) ++ [vendor, name]) hne hdots hslash
  refine ⟨vendor, name, htext, hvendor, hname, hplain, ?_⟩
  dsimp only at h
  split_ifs at h with hinside
  rw [← Except.ok.inj h, absPath_eq, absElements_join cwd (joinPath_ne_nil _ _),
    absElements_join cwd (storageDirOf_ne_nil storageRoot), resolve_id htext hvendor hname,
    hresolve, List.append_assoc]
  rfl

theorem hexString_no_slash (bytes : List UInt8) : '/' ∉ hexString bytes := by
  have hdigit : ∀ n < 16, hexDigits.getD n '0' ≠ '/' := by decide
  intro hmem
  obtain ⟨b, -, hb⟩ := List.mem_flatMap.mp hmem
  have hlt : b.toNat < 256 := b.toNat_lt
  simp only [List.mem_cons, List.not_mem_nil, or_false] at hb
  rcases hb with hb | hb
  · exact hdigit _ (by omega) hb.symm
  · exact hdigit _ (by omega) hb.symm

/-- What `Uninstall` removes is the directory of the artifact. -/
theorem dirPath_artifactPathOf (sha256 : List UInt8 → List UInt8) (content : List UInt8)
    {es : List (List Char)} (hes : ∀ e ∈ es, Plain e) (hne : es ≠ []) :
    dirPath (artifactPathOf sha256 (rooted es) content) = rooted es := by
  have hlen : 3 ≤ (hexString (sha256 content) ++ ".artifact".toList).length := by
    rw [List.length_append, show (".artifact".toList).length = 9 from rfl]
    omega
  have hname : Plain (hexString (sha256 content) ++ ".artifact".toList) := by
    generalize hname : hexString (sha256 content) ++ ".artifact".toList = name at hlen ⊢
    refine ⟨?_, ?_, ?_, ?_⟩
    · rintro rfl
      simp at hlen
    · rintro rfl
      simp at hlen
    · rintro rfl
      simp at hlen
    · rw [← hname, List.mem_append, not_or]
      exact ⟨hexString_no_slash _, by decide⟩
  rw [artifactPathOf, joinPath_name hes hname, dirPath_name hes hne hname]

theorem pluginRoot_elements (cwd : Directory) (storageRoot : String) :
    ∃ es, absElements cwd (storageDirOf storageRoot) = es ++ ["plugins".toList] := by
  have hplugins : Plain "plugins".toList := by decide
  unfold storageDirOf
  by_cases hempty : storageRoot.toList = []
  · have hrel : ("plugins".toList).head? ≠ some '/' := by decide
    obtain ⟨hresolve, hhead⟩ := resolve_cleanPath cwd.elements hrel
    rw [joinPath, if_pos hempty, absElements, if_neg hhead, hresolve, resolve_name hplugins]
    exact ⟨_, rfl⟩
  · rw [absElements_join cwd hempty, resolve_name hplugins]
    exact ⟨_, rfl⟩

/-- Two directories are separate when neither lies within the other. -/
theorem kept_of_disjoint {dir₁ dir₂ : List Char}
    (h : ¬ Paths.Within dir₁ dir₂ ∧ ¬ Paths.Within dir₂ dir₁) (files : List (List Char)) :
    ∀ path ∈ files, Paths.Within dir₁ path → path ∈ removeAll files dir₂ := by
  intro path hpath hwithin
  rw [mem_removeAll]
  refine ⟨hpath, fun hother => ?_⟩
  exact (hwithin.comparable hother).elim h.1 h.2

/-- The directories of two accepted versions are separate exactly when they are
not versions of one plugin with `.` among them. -/
theorem artifact_dirs_separate_iff (cwd : Directory) (storageRoot : String)
    (sha256 : List UInt8 → List UInt8) (content₁ content₂ : List UInt8) {m₁ m₂ : InstallManifest}
    {dir₁ dir₂ : List Char} (hvalid₁ : validateManifest m₁ = none)
    (hvalid₂ : validateManifest m₂ = none)
    (h₁ : artifactDir cwd storageRoot m₁.id m₁.version = .ok dir₁)
    (h₂ : artifactDir cwd storageRoot m₂.id m₂.version = .ok dir₂)
    (hne : (m₁.id, m₁.version) ≠ (m₂.id, m₂.version)) :
    Separate (pluginRoot cwd storageRoot) dir₁ dir₂ (artifactPathOf sha256 dir₁ content₁)
        (artifactPathOf sha256 dir₂ content₂) ↔
      ¬ (m₁.id = m₂.id ∧ (m₁.version = "." ∨ m₂.version = ".")) := by
  obtain ⟨vendor₁, name₁, hid₁, hv₁, hn₁, hver₁, rfl⟩ := artifactDir_eq hvalid₁ h₁
  obtain ⟨vendor₂, name₂, hid₂, hv₂, hn₂, hver₂, rfl⟩ := artifactDir_eq hvalid₂ h₂
  set root := absElements cwd (storageDirOf storageRoot) with hroot
  have hplain : ∀ e ∈ root, Plain e := absElements_plain cwd _
  have hbelow : ∀ vendor name (version : String), Plain vendor → Plain name →
      (∀ e ∈ versionElements version, Plain e) →
        ∀ e ∈ root ++ vendor :: name :: versionElements version, Plain e := by
    intro vendor name version hv hn hver
    rw [List.forall_mem_append, List.forall_mem_cons, List.forall_mem_cons]
    exact ⟨hplain, hv, hn, hver⟩
  have hplain₁ := hbelow vendor₁ name₁ m₁.version hv₁ hn₁ hver₁
  have hplain₂ := hbelow vendor₂ name₂ m₂.version hv₂ hn₂ hver₂
  have hroot : root ≠ [] := by
    obtain ⟨es, hes⟩ := pluginRoot_elements cwd storageRoot
    simp [root, hes]
  have hstrict : ∀ tail : List (List Char), tail ≠ [] → (∀ e ∈ root ++ tail, Plain e) →
      Paths.Within (pluginRoot cwd storageRoot) (rooted (root ++ tail)) ∧
        rooted (root ++ tail) ≠ pluginRoot cwd storageRoot := by
    intro tail htail hmem
    rw [pluginRoot, absPath_eq]
    refine ⟨(within_rooted_iff hplain hmem hroot).mpr (List.prefix_append _ _), ?_⟩
    intro heq
    exact htail (by simpa using rooted_injective hmem hplain heq)
  -- Within one another means the same vendor and name, and then a version `.`.
  have hwithin : ∀ v n (version : String) v' n' (version' : String),
      (∀ e ∈ root ++ v :: n :: versionElements version, Plain e) →
      (∀ e ∈ root ++ v' :: n' :: versionElements version', Plain e) →
      (Paths.Within (rooted (root ++ v :: n :: versionElements version))
          (rooted (root ++ v' :: n' :: versionElements version')) ↔
        v = v' ∧ n = n' ∧ (version = "." ∨ version = version')) := by
    intro v n version v' n' version' hmem hmem'
    rw [within_rooted_iff hmem hmem' (by simp), List.prefix_append_right_inj,
      List.cons_prefix_cons, List.cons_prefix_cons]
    have hver : versionElements version <+: versionElements version' ↔
        version = "." ∨ version = version' := by
      unfold versionElements
      by_cases hdot : version = "."
      · simp [hdot]
      · by_cases hdot' : version' = "."
        · simp [hdot, hdot']
        · simp [hdot, hdot', List.cons_prefix_cons, String.toList_inj]
    rw [hver]
  have hids : vendor₁ = vendor₂ ∧ name₁ = name₂ ↔ m₁.id = m₂.id := by
    rw [← String.toList_inj, hid₁, hid₂]
    constructor
    · rintro ⟨rfl, rfl⟩
      rfl
    · intro heq
      have hsplit := congrArg (List.splitOn '/') heq
      rw [List.splitOn_append_cons_self_of_not_mem hv₁.2.2.2,
        List.splitOn_append_cons_self_of_not_mem hv₂.2.2.2,
        List.splitOn_eq_singleton hn₁.2.2.2, List.splitOn_eq_singleton hn₂.2.2.2] at hsplit
      simpa using hsplit
  have hdisjoint : (¬ Paths.Within (rooted (root ++ vendor₁ :: name₁ :: versionElements m₁.version))
        (rooted (root ++ vendor₂ :: name₂ :: versionElements m₂.version)) ∧
      ¬ Paths.Within (rooted (root ++ vendor₂ :: name₂ :: versionElements m₂.version))
        (rooted (root ++ vendor₁ :: name₁ :: versionElements m₁.version))) ↔
      ¬ (m₁.id = m₂.id ∧ (m₁.version = "." ∨ m₂.version = ".")) := by
    have hver : m₁.id = m₂.id → m₁.version ≠ m₂.version :=
      fun hid hver => hne (Prod.ext hid hver)
    rw [hwithin _ _ _ _ _ _ hplain₁ hplain₂, hwithin _ _ _ _ _ _ hplain₂ hplain₁,
      eq_comm (a := vendor₂), eq_comm (a := name₂), eq_comm (a := m₂.version) (b := m₁.version),
      ← and_assoc, ← and_assoc, hids]
    by_cases hid : m₁.id = m₂.id
    · simp only [hid, hver hid, true_and, or_false, not_or]
    · simp only [hid, false_and, not_false_eq_true, and_self]
  constructor
  · exact fun h => hdisjoint.mp h.disjoint
  · intro h
    have hapart := hdisjoint.mpr h
    refine ⟨hstrict _ (by simp) hplain₁, hstrict _ (by simp) hplain₂, hapart, ?_, ?_⟩
    · intro files path hpath hin
      rw [dirPath_artifactPathOf sha256 content₂ hplain₂ (by simp)]
      exact ⟨kept_of_disjoint hapart files path hpath hin,
        kept_of_disjoint hapart files path hpath hin⟩
    · intro files path hpath hin
      rw [dirPath_artifactPathOf sha256 content₁ hplain₁ (by simp)]
      exact ⟨kept_of_disjoint hapart.symm files path hpath hin,
        kept_of_disjoint hapart.symm files path hpath hin⟩

/-- The demo plugin under another version. -/
def demoVersion (version : String) : InstallManifest := { demoManifest with version := version }

def rootDirectory : Directory := ⟨[], plain_nil⟩

theorem artifact_dirs_separate_demo :
    Separate (pluginRoot rootDirectory "/s") "/s/plugins/acme/demo/1".toList
      "/s/plugins/acme/demo/2".toList
      (artifactPathOf id "/s/plugins/acme/demo/1".toList [])
      (artifactPathOf id "/s/plugins/acme/demo/2".toList []) :=
  (@artifact_dirs_separate_iff rootDirectory "/s" id [] [] (demoVersion "1") (demoVersion "2") _ _
    (by decide) (by decide) (by decide) (by decide) (by decide)).mpr (by decide)

/-- The version `.` owns the directory of every other version of its plugin. -/
theorem dot_version_owns_plugin :
    ¬ ∀ (cwd : Directory) (storageRoot : String) (sha256 : List UInt8 → List UInt8)
      (content₁ content₂ : List UInt8) (m₁ m₂ : InstallManifest) (dir₁ dir₂ : List Char),
      validateManifest m₁ = none → validateManifest m₂ = none →
      artifactDir cwd storageRoot m₁.id m₁.version = .ok dir₁ →
      artifactDir cwd storageRoot m₂.id m₂.version = .ok dir₂ →
      (m₁.id, m₁.version) ≠ (m₂.id, m₂.version) →
      Separate (pluginRoot cwd storageRoot) dir₁ dir₂ (artifactPathOf sha256 dir₁ content₁)
        (artifactPathOf sha256 dir₂ content₂) := by
  intro h
  have hsep := h rootDirectory "/s" id [] [] (demoVersion ".") (demoVersion "1.0.0")
    "/s/plugins/acme/demo".toList "/s/plugins/acme/demo/1.0.0".toList (by decide) (by decide)
    (by decide) (by decide) (by decide)
  exact hsep.disjoint.1 (by decide)

end GoSite.Plugin
