import GoSite.GoBytes
import GoSite.DiskTrees
import GoSite.PluginDirectories

/-!
# Extracting a plugin archive

Each entry of the archive is put at a path that is checked to lie in the
version's directory. Whatever kind of entry it is, a directory or a regular file
is made of it, so that no link ever leads out of the directory.
-/
namespace GoSite.Plugin
open GoStrings Paths DiskTrees
open GoSite.Terminal (joinPath cleanPath)

/-- `safeArtifactPath`. -/
def safeArtifactPath (cwd : Directory) (root name : List Char) : Except AppError (List Char) :=
  let cleanRoot := absPath cwd root
  let target := absPath cwd (joinPath root (cleanPath name))
  if target ≠ cleanRoot ∧ ¬ (cleanRoot ++ ['/']) <+: target then
    .error (.new .pluginInvalid "plugin artifact contains unsafe path")
  else .ok target

/-- `resolvePluginCommand`. `stat` says whether there is a directory at a path. -/
def resolvePluginCommand (cwd : Directory) (stat : List Char → Except String Bool)
    (root command : List Char) : Except AppError (List Char × List (List Char)) :=
  match fields command with
  | [] => .error (.new .pluginInvalid "plugin command required")
  | name :: args =>
      if name.head? = some '/' then
        .error (.new .pluginInvalid "plugin command must be relative to artifact")
      else
        match safeArtifactPath cwd root name with
        | .error err => .error err
        | .ok path =>
            match stat path with
            | .error cause => .error (.wrap .pluginInvalid "plugin command not found" cause)
            | .ok isDir =>
                if isDir then
                  .error (.new .pluginInvalid "plugin command points to a directory")
                else .ok (path, args)

/-- The type bits of an entry's attributes. -/
inductive EntryType where
  | regular
  | directory
  | symlink
  | special
  deriving Repr, DecidableEq

/-- An entry of an archive, with what its content is decompressed to. For a link
that is the text of the link. -/
structure ZipEntry where
  name : List Char
  type : EntryType
  data : List UInt8
  deriving Repr, DecidableEq

/-- `file.FileInfo().IsDir()`: a slash at the end of the name is enough. -/
def ZipEntry.isDir (file : ZipEntry) : Bool :=
  file.type = .directory ∨ file.name.getLast? = some '/'

/-- How the calls for one entry go. `opens` is the error of opening, reading or
closing it, and `cause` the text of a failure on the disk. -/
structure EntryWeather where
  mkdir : Place → Bool
  opens : Option AppError
  write : WriteFault (List UInt8)
  cause : String

/-- What `io.LimitReader` lets through: 64 MiB. -/
def readLimit : ℕ := 2 ^ 26

/-- The place of an absolute path. -/
def placeOf (path : List Char) : Place := elements path

/-- One entry of `extractZipArtifact`. -/
def extractEntry (cwd : Directory) (dir : List Char) (e : EntryWeather)
    (d : Disk (List UInt8)) (file : ZipEntry) : Disk (List UInt8) × Option AppError :=
  match safeArtifactPath cwd dir file.name with
  | .error err => (d, some err)
  | .ok target =>
      if file.isDir then
        let (d, made) := mkdirAll e.mkdir d (placeOf target)
        (d, if made then none
          else some (.wrap .config "create plugin artifact directory failed" e.cause))
      else
        let (d, made) := mkdirAll e.mkdir d (placeOf (dirPath target))
        if ¬ made then (d, some (.wrap .config "create plugin artifact directory failed" e.cause))
        else
          match e.opens with
          | some err => (d, some err)
          | none =>
              let (d, written) := writeFile e.write d (placeOf target) (file.data.take readLimit)
              (d, if written then none
                else some (.wrap .config "write plugin artifact entry failed" e.cause))

/-- The loop of `extractZipArtifact`. The first error ends it. -/
@[grind] def extractEntries (cwd : Directory) (dir : List Char) (e : ℕ → EntryWeather)
    (d : Disk (List UInt8)) : ℕ → List ZipEntry → Disk (List UInt8) × Option AppError
  | _, [] => (d, none)
  | i, file :: files =>
      match extractEntry cwd dir (e i) d file with
      | (d, some err) => (d, some err)
      | (d, none) => extractEntries cwd dir e d (i + 1) files

/-- `extractZipArtifact`: an artifact that is no archive has nothing to extract. -/
def extractZipArtifact (cwd : Directory) (dir : List Char) (e : ℕ → EntryWeather)
    (d : Disk (List UInt8)) (archive : Option (List ZipEntry)) :
    Disk (List UInt8) × Option AppError :=
  match archive with
  | none => (d, none)
  | some files => extractEntries cwd dir e d 0 files

/-! ## What is made -/

/-- The path leads into the root, down from element to element. -/
def LeadsInto (root : Place) (path : List Char) : Prop :=
  ∃ rest : Place, (∀ e ∈ root ++ rest, Plain e) ∧ path = rooted (root ++ rest)

/-- A path that is let through lies inside the root. -/
theorem safeArtifactPath_inside {cwd : Directory} {root name path : List Char}
    (h : safeArtifactPath cwd root name = .ok path) :
    LeadsInto (absElements cwd root) path := by
  simp only [safeArtifactPath, absPath_eq] at h
  split_ifs at h with hunsafe
  have hroot := absElements_plain cwd root
  have htarget := absElements_plain cwd (joinPath root (cleanPath name))
  have hwithin : Paths.Within (rooted (absElements cwd root))
      (rooted (absElements cwd (joinPath root (cleanPath name)))) := by
    by_cases heq : rooted (absElements cwd (joinPath root (cleanPath name))) =
        rooted (absElements cwd root)
    · exact .inl heq
    · exact .inr (by_contra fun hpre => hunsafe ⟨heq, hpre⟩)
  have hpath := Except.ok.inj h
  by_cases hne : absElements cwd root = []
  · refine ⟨absElements cwd (joinPath root (cleanPath name)), ?_, ?_⟩
    · rw [hne, List.nil_append]
      exact htarget
    · rw [hne, List.nil_append, hpath]
  · obtain ⟨rest, hrest⟩ := (within_rooted_iff hroot htarget hne).mp hwithin
    exact ⟨rest, hrest ▸ htarget, by rw [hrest, hpath]⟩

/-- A change of the disk below a directory that is still there. -/
structure Confined (dir : Place) (d d' : Disk (List UInt8)) : Prop where
  inside : ∀ p, d'.node p ≠ d.node p → dir <+: p
  dir : d'.node dir = some .dir

theorem Confined.trans {dir : Place} {d₁ d₂ d₃ : Disk (List UInt8)} (h : Confined dir d₁ d₂)
    (h' : Confined dir d₂ d₃) : Confined dir d₁ d₃ := by
  refine ⟨fun p hp => ?_, h'.dir⟩
  by_cases hlater : d₃.node p = d₂.node p
  · exact h.inside p (hlater ▸ hp)
  · exact h'.inside p hlater

theorem Confined.refl {dir : Place} {d : Disk (List UInt8)} (h : d.node dir = some .dir) :
    Confined dir d d :=
  ⟨fun _ hp => absurd rfl hp, h⟩

/-- Where the directory is there, only what is below it is made. -/
theorem confined_mkdirAll {dir place : Place} {d : Disk (List UInt8)} {fails : Place → Bool}
    (hdir : d.node dir = some .dir) (h : dir <+: place ∨ place <+: dir) :
    Confined dir d (mkdirAll fails d place).1 := by
  have hmakes := mkdirAll_makes fails d place
  have hinside : ∀ p, (mkdirAll fails d place).1.node p ≠ d.node p → dir <+: p := by
    intro p hp
    obtain ⟨hnone, -, hpre⟩ := hmakes.changed p hp
    have hnot : ¬ p <+: dir := by
      intro hup
      rw [dir_of_isPrefix hdir hup] at hnone
      cases hnone
    rcases h with hdown | hup
    · exact (List.prefix_or_prefix_of_prefix hdown hpre).resolve_right hnot
    · exact absurd (hpre.trans hup) hnot
  refine ⟨hinside, ?_⟩
  by_contra hne
  have hchanged : (mkdirAll fails d place).1.node dir ≠ d.node dir := fun heq =>
    hne (heq.trans hdir)
  have hnone := (hmakes.changed dir hchanged).1
  rw [hdir] at hnone
  cases hnone

theorem confined_writeFile {dir place : Place} {d : Disk (List UInt8)}
    {fault : WriteFault (List UInt8)} {content : List UInt8} (hdir : d.node dir = some .dir)
    (h : dir <+: place) : Confined dir d (writeFile fault d place content).1 := by
  refine ⟨fun p hp => (writeFile_changed hp).1 ▸ h, ?_⟩
  by_contra hne
  have hchanged : (writeFile fault d place content).1.node dir ≠ d.node dir := fun heq =>
    hne (heq.trans hdir)
  obtain ⟨rfl, hfree, -⟩ := writeFile_changed hchanged
  exact hfree hdir

/-- The directory of a path that leads into the root. -/
theorem placeOf_dirPath {es : Place} (hes : ∀ e ∈ es, Plain e) :
    placeOf (dirPath (rooted es)) = es.dropLast := by
  induction es using List.reverseRecOn with
  | nil => decide
  | append_singleton es name =>
      have hes' : ∀ e ∈ es, Plain e := fun e he => hes e (List.mem_append_left _ he)
      have hname := hes name (by simp)
      rw [List.dropLast_concat]
      by_cases hne : es = []
      · subst hne
        have hdrop : ('/' :: name).reverse.dropWhile (· ≠ '/') = ['/'] := by
          rw [List.reverse_cons, List.dropWhile_append_of_pos]
          · rfl
          · intro c hc
            have hslash : c ≠ '/' := fun h => hname.2.2.2 (h ▸ List.mem_reverse.mp hc)
            simpa using hslash
        rw [List.nil_append, rooted, List.intercalate_singleton, dirPath, hdrop]
        decide
      · rw [dirPath_name hes' hne hname, placeOf, elements_rooted hes']

theorem confined_extractEntry {cwd : Directory} {dir : List Char} {e : EntryWeather}
    {d : Disk (List UInt8)} {file : ZipEntry} (hdir : d.node (absElements cwd dir) = some .dir) :
    Confined (absElements cwd dir) d (extractEntry cwd dir e d file).1 := by
  unfold extractEntry
  cases hsafe : safeArtifactPath cwd dir file.name with
  | error err => exact .refl hdir
  | ok target =>
      obtain ⟨rest, hplain, rfl⟩ := safeArtifactPath_inside hsafe
      have hplace : placeOf (rooted (absElements cwd dir ++ rest)) = absElements cwd dir ++ rest :=
        elements_rooted hplain
      have hparent : absElements cwd dir <+: (absElements cwd dir ++ rest).dropLast ∨
          (absElements cwd dir ++ rest).dropLast <+: absElements cwd dir := by
        by_cases hrest : rest = []
        · rw [hrest, List.append_nil]
          exact .inr (List.dropLast_prefix _)
        · rw [List.dropLast_append_of_ne_nil hrest]
          exact .inl (List.prefix_append _ _)
      rw [← placeOf_dirPath hplain] at hparent
      have hmade := @confined_mkdirAll _ _ d e.mkdir hdir hparent
      dsimp only
      by_cases hentry : file.isDir = true
      · rw [if_pos hentry, hplace]
        exact confined_mkdirAll hdir (.inl (List.prefix_append _ _))
      · rw [if_neg hentry]
        by_cases hok : (mkdirAll e.mkdir d
            (placeOf (dirPath (rooted (absElements cwd dir ++ rest))))).2 = true
        · rw [if_neg (not_not.mpr hok)]
          cases e.opens with
          | some err => exact hmade
          | none =>
              rw [hplace]
              exact hmade.trans (confined_writeFile hmade.dir (List.prefix_append _ _))
        · rw [if_pos hok]
          exact hmade

theorem confined_extractEntries {cwd : Directory} {dir : List Char} {e : ℕ → EntryWeather}
    {d : Disk (List UInt8)} (hdir : d.node (absElements cwd dir) = some .dir) (i : ℕ)
    (files : List ZipEntry) :
    Confined (absElements cwd dir) d (extractEntries cwd dir e d i files).1 := by
  induction files generalizing d i with
  | nil => exact .refl hdir
  | cons file files ih =>
      have hentry := @confined_extractEntry _ _ (e i) _ file hdir
      rw [extractEntries]
      cases hresult : extractEntry cwd dir (e i) d file with
      | mk d' err =>
          rw [hresult] at hentry
          cases err with
          | some err => exact hentry
          | none => exact hentry.trans (ih hentry.dir (i + 1))

theorem resolvePluginCommand_inside {cwd : Directory} {stat : List Char → Except String Bool}
    {root command path : List Char} {args : List (List Char)}
    (h : resolvePluginCommand cwd stat root command = .ok (path, args)) :
    LeadsInto (absElements cwd root) path := by
  unfold resolvePluginCommand at h
  cases hfields : fields command with
  | nil => simp [hfields] at h
  | cons name args =>
      simp only [hfields] at h
      split_ifs at h
      cases hsafe : safeArtifactPath cwd root name with
      | error err => simp [hsafe] at h
      | ok target =>
          cases hstat : stat target with
          | error cause => simp [hsafe, hstat] at h
          | ok isDir =>
              simp only [hsafe, hstat] at h
              split_ifs at h
              cases h
              exact safeArtifactPath_inside hsafe

/-- The paths of archive entries and of commands lead into their root, and an
archive makes nothing outside of its directory. -/
theorem extraction_confined (cwd : Directory) :
    (∀ root name path, safeArtifactPath cwd root name = .ok path →
      LeadsInto (absElements cwd root) path) ∧
    (∀ stat root command path args, resolvePluginCommand cwd stat root command = .ok (path, args) →
      LeadsInto (absElements cwd root) path) ∧
    ∀ (dir : List Char) (e : ℕ → EntryWeather) (d : Disk (List UInt8)),
      d.node (absElements cwd dir) = some .dir → ∀ archive place,
        (extractZipArtifact cwd dir e d archive).1.node place ≠ d.node place →
          absElements cwd dir <+: place := by
  refine ⟨fun root name path h => safeArtifactPath_inside h,
    fun stat root command path args h => resolvePluginCommand_inside h, ?_⟩
  intro dir e d hdir archive place hplace
  cases archive with
  | none => exact absurd rfl hplace
  | some files => exact (confined_extractEntries hdir 0 files).inside place hplace

def calmEntry : EntryWeather := ⟨fun _ => false, none, .none, ""⟩

def pluginDisk : Disk (List UInt8) := (mkdirAll (fun _ => false) blank ["p".toList]).1

/-- A link, its target and a name that leads out of the directory. -/
def linkedArchive : List ZipEntry :=
  [⟨"bin".toList, .symlink, "/etc".toList.map fun c => c.toUInt8⟩,
    ⟨"./lib//x".toList, .regular, [1]⟩, ⟨"../q".toList, .regular, [2]⟩]

theorem extraction_confined_demo :
    LeadsInto (absElements rootDirectory "/p".toList) "/p/bin".toList ∧
    LeadsInto (absElements rootDirectory "/p".toList) "/p/run".toList ∧
    ∀ place, (extractZipArtifact rootDirectory "/p".toList (fun _ => calmEntry) pluginDisk
      (some linkedArchive)).1.node place ≠ pluginDisk.node place → ["p".toList] <+: place :=
  ⟨(extraction_confined rootDirectory).1 "/p".toList "bin/../bin".toList _ (by decide),
    (extraction_confined rootDirectory).2.1 (fun _ => .ok false) "/p".toList "./run -v".toList _
      ["-v".toList] (by decide),
    fun place h => (extraction_confined rootDirectory).2.2 "/p".toList (fun _ => calmEntry)
      pluginDisk (by decide) (some linkedArchive) place h⟩

example : ((extractZipArtifact rootDirectory "/p".toList (fun _ => calmEntry) pluginDisk
    (some linkedArchive)).1.node ["p".toList, "lib".toList, "x".toList]) =
      some (.file [1]) := by decide

end GoSite.Plugin
