import GoSite.PluginInstall

/-!
# Plugins that come with a release

The bundled index names official plugins and the files of their artifacts.
Seeding goes over the index and installs what is missing, changed or taken away;
restoring installs one plugin again. Both are installs like any other.
-/
namespace GoSite.Plugin
open GoStrings

/-- `bundled.Entry`. -/
structure BundledEntry where
  pluginID : String
  artifact : String
  permissionsPreAck : Bool
  restorable : Bool
  deriving Repr, DecidableEq

/-- An error of the bundled directory. -/
inductive BundledError where
  | artifactsUnavailable
  | other (text : String)
  deriving Repr, DecidableEq

/-- An error of a seeded install. -/
inductive SeedError where
  | files (e : BundledError)
  | install (e : InstallError)
  deriving Repr, DecidableEq

/-- The service with its bundled plugins. `configured` says that there is a bundled
directory service. -/
structure PluginHost where
  installer : Installer
  configured : Bool
  bundledEnabled : Bool
  bundledAutoEnable : Bool
  appEnv : String

/-- What the bundled directory holds. -/
structure BundledFiles where
  loadIndex : Except String (List BundledEntry)
  loadArtifact : BundledEntry → Except BundledError (List UInt8)

/-- What goes on around the seeding of one entry: the reads that fail, and the
install. -/
structure SeedWeather where
  find : Option String
  listInstallable : Option String
  install : InstallWeather

/-- An install that registered a version. -/
structure InstallRecord where
  key : Key
  input : InstallInput
  now : ℕ
  deriving Repr, DecidableEq

/-- The world and its history: the installs that registered a version, newest
first. -/
structure Traced where
  world : World
  installs : List InstallRecord

/-- The install that registered the version last. -/
def Traced.storing (t : Traced) (key : Key) : Option InstallRecord :=
  t.installs.find? fun i => i.key = key

/-- `Install`. -/
def Traced.install (t : Traced) (I : Installer) (e : InstallWeather) (input : InstallInput) :
    Traced × PluginVersion × Option InstallError :=
  let a := I.install e t.world input
  let installs :=
    match I.check input with
    | .error _ => t.installs
    | .ok c =>
        if .ok "registry" ∈ a.log then
          ⟨(c.manifest.id, c.manifest.version), input, e.now⟩ :: t.installs
        else t.installs
  (⟨a.world, installs⟩, a.record, a.error)

def bundledPermissionsPreAck (entry : BundledEntry) : Bool :=
  if "gosite/".toList <+: entry.pluginID.toList then true else entry.permissionsPreAck

/-- What `installBundled` hands to `Install`. -/
def bundledInput (entry : BundledEntry) (content : List UInt8) : InstallInput where
  content := content
  expectedSHA256 := ""
  provenance := some bundledSourceType
  permissionsAck := bundledPermissionsPreAck entry

def bundledNeedsRestore (g : Registry) (fault : Option String) (entry : BundledEntry)
    (pluginID : String) : Bool :=
  if ¬ entry.restorable then false
  else
    match fault with
    | some _ => false
    | none => (g.listInstallable pluginID).length = 0

/-- `shouldSeedBundled`. A version that was not found, for whatever reason, is no
`existing`. -/
def shouldSeedBundled (g : Registry) (fault : Option String) (entry : BundledEntry)
    (existing : Option PluginVersion) (digest : String) (force : Bool) : Bool :=
  if force then true
  else
    match existing with
    | none => true
    | some existing =>
        if existing.artifactDigest ≠ digest then true
        else if existing.state = .installFailed then true
        else if existing.state = .uninstalled ∧ entry.restorable then true
        else entry.restorable && bundledNeedsRestore g fault entry existing.pluginID

namespace PluginHost

def seedBundledEntry (H : PluginHost) (files : BundledFiles) (e : SeedWeather) (t : Traced)
    (entry : BundledEntry) (force : Bool) : Traced × PluginVersion × Option SeedError :=
  match files.loadArtifact entry with
  | .error err => (t, .zero, some (.files err))
  | .ok content =>
      match H.installer.parseManifest content with
      | .error err => (t, .zero, some (.install (.app err)))
      | .ok (manifest, _) =>
          let digest := H.installer.digest content
          let existing :=
            match e.find with
            | some _ => none
            | none => t.world.registry.find manifest.id manifest.version
          if ¬ shouldSeedBundled t.world.registry e.listInstallable entry existing digest force then
            (t, existing.getD .zero, none)
          else
            let (t, record, err) := t.install H.installer e.install (bundledInput entry content)
            match err with
            | some err => (t, .zero, some (.install err))
            | none => (t, record, none)

/-- The first loop of `SeedBundled`, which goes on after any error. `seed` is what
goes on around each entry. -/
@[grind] def seedEntries (H : PluginHost) (files : BundledFiles) (seed : ℕ → SeedWeather) :
    ℕ → List BundledEntry → Traced → Traced
  | _, [], t => t
  | n, entry :: entries, t =>
      H.seedEntries files seed (n + 1) entries (H.seedBundledEntry files (seed n) t entry false).1

/-- The highest version of a list, the earlier one among equals. -/
def latestVersion (first : PluginVersion) (rest : List PluginVersion) : PluginVersion :=
  rest.foldl (fun latest row => if compareSemver row.version latest.version > 0 then row else latest)
    first

/-- One turn of the second loop of `SeedBundled`. -/
def autoEnable (H : PluginHost) (fault : Option String) (F : Faults) (t : Traced)
    (entry : BundledEntry) : Traced :=
  match fault with
  | some _ => t
  | none =>
      match t.world.registry.listInstallable entry.pluginID with
      | [] => t
      | first :: rest =>
          let latest := latestVersion first rest
          if latest.state ≠ .installed then t
          else
            { t with world := (H.installer.service.perform F t.world
                (.enable entry.pluginID latest.version)).1 }

@[grind] def autoEnableEntries (H : PluginHost) (enable : ℕ → Option String × Faults) :
    ℕ → List BundledEntry → Traced → Traced
  | _, [], t => t
  | n, entry :: entries, t =>
      H.autoEnableEntries enable (n + 1) entries (H.autoEnable (enable n).1 (enable n).2 t entry)

def seedBundled (H : PluginHost) (files : BundledFiles) (seed : ℕ → SeedWeather)
    (enable : ℕ → Option String × Faults) (t : Traced) : Traced × Option AppError :=
  if ¬ H.bundledEnabled ∨ ¬ H.configured then (t, none)
  else
    match files.loadIndex with
    | .error err => (t, some (.wrap .config "load bundled plugin index failed" err))
    | .ok index =>
        let t := H.seedEntries files seed 0 index t
        if H.bundledAutoEnable ∧ H.appEnv ≠ "production" then
          (H.autoEnableEntries enable 0 index t, none)
        else (t, none)

def restoreBundled (H : PluginHost) (files : BundledFiles) (e : SeedWeather) (t : Traced)
    (pluginID : String) : Traced × PluginVersion × Option SeedError :=
  if ¬ H.configured then
    (t, .zero, some (.install (.app (.new .invalidInput "bundled plugins are not configured"))))
  else
    match files.loadIndex with
    | .error err =>
        (t, .zero, some (.install (.app (.wrap .config "lookup bundled plugin failed" err))))
    | .ok index =>
        match index.find? fun entry => entry.pluginID = pluginID with
        | none => (t, .zero, some (.install (.app
            (.new .notFound "plugin is not a bundled official plugin"))))
        | some entry =>
            if ¬ entry.restorable then
              (t, .zero, some (.install (.app
                (.new .invalidInput "bundled plugin is not restorable"))))
            else H.seedBundledEntry files e t entry true

end PluginHost

end GoSite.Plugin
