import GoSite.ArtifactFetcher
import GoSite.PluginLifecycle

/-!
# Sources of remote plugins

A resolver turns a source into a plan, which says where the artifact comes from, and
a preview of it. What a forge answers to a request for a file is an input.
-/
namespace GoSite.Plugin
open GoStrings

/-- `types.Source`. -/
structure RemoteSource where
  type : String
  url : String
  repo : String
  tag : String
  asset : String
  sha256 : String
  installPath : String
  resolveToken : String
  deriving Repr, DecidableEq

structure BuildPlan where
  vcs : String
  repo : String
  tag : String
  goVersion : String
  package : String
  token : String
  deriving Repr, DecidableEq

structure FetchPlan where
  url : String
  sha256 : String
  sourceType : String
  sourceRef : String
  installPath : String
  resolvedDigest : String
  sourceCommit : String
  sourceRepository : String
  inlineArtifact : List UInt8
  build : Option BuildPlan
  deriving Repr, DecidableEq

/-- `FetchPlan{}`. -/
def FetchPlan.zero : FetchPlan := ⟨"", "", "", "", "", "", "", "", [], none⟩

structure ResolvePreview where
  pluginID : String
  version : String
  tier : ℤ
  signed : Bool
  keyID : String
  sha256 : String
  size : ℤ
  url : String
  minGoSiteVersion : String
  sourceType : String
  sourceRef : String
  installPath : String
  sourceCommit : String
  sourceRepository : String
  permissions : List String
  hooks : List String
  resolveToken : String
  resolveExpiresAt : String
  deriving Repr, DecidableEq

/-- `ResolvePreview{}`. The platforms go with an error only and are left out. -/
def ResolvePreview.zero : ResolvePreview :=
  ⟨"", "", 0, false, "", "", 0, "", "", "", "", "", "", "", [], [], "", ""⟩

/-- `index.Asset`, with the key ids of its signatures. -/
structure IndexAsset where
  os : String
  arch : String
  url : String
  sha256 : String
  keyIDs : List String
  deriving Repr, DecidableEq

structure IndexRelease where
  version : String
  minGoSiteVersion : String
  sourceCommit : String
  sourceRepository : String
  assets : List IndexAsset
  deriving Repr, DecidableEq

/-- `Release{}`. -/
def IndexRelease.zero : IndexRelease := ⟨"", "", "", "", []⟩

structure IndexBuild where
  goVersion : String
  package : String
  entrypoint : String
  deriving Repr, DecidableEq

/-- `index.File`. -/
structure IndexFile where
  id : String
  repository : String
  releases : List IndexRelease
  build : Option IndexBuild
  deriving Repr, DecidableEq

structure ManifestHints where
  permissions : List String
  hooks : List String
  tier : ℤ
  deriving Repr, DecidableEq

/-- What the resolver of a git reference reads of a manifest. -/
structure RefManifest extends ManifestHints where
  id : String
  version : String
  deriving Repr, DecidableEq

/-- The packages that the resolvers use. `fold` is the folding of `strings.EqualFold`,
`quote` the verb `%q`, and `zip` an archive with the one file `manifest.json`. -/
structure RemotePackages extends NetPackages where
  fold : Char → Char
  goos : String
  goarch : String
  quote : String → String
  unmarshalIndex : List UInt8 → Except String IndexFile
  unmarshalHints : List UInt8 → Option ManifestHints
  unmarshalManifest : List UInt8 → Except String RefManifest
  zip : List UInt8 → Except String (List UInt8)
  formatRFC3339 : ℤ → String

/-- The settings of remote installs that the resolvers and the cache look at. -/
structure RemoteConfig where
  enabled : Bool
  gitHubToken : String
  gitLabToken : String
  resolveTokenTTL : ℤ
  buildEnabled : Bool

inductive RemoteError where
  | app (e : AppError)
  | fetch (e : FetchError)
  deriving Repr, DecidableEq

def resolveFailed : String := "resolve_failed"
def platformUnsupported : String := "platform_unsupported"
def resolveStale : String := "resolve_stale"
def buildDisabled : String := "build_disabled"
def remoteInstallDisabled : String := "remote_install_disabled"

/-- `apperror.New` with `CodeInvalidInput`. -/
def RemoteError.invalidInput (message : String) : RemoteError := .app (.new .invalidInput message)

/-- `apperror.Wrap(CodeInvalidInput, ResolveFailed, err)`. -/
def RemoteError.resolve (cause : String) : RemoteError :=
  .app (.wrap .invalidInput resolveFailed cause)

namespace RemotePackages
variable (net : RemotePackages)

/-- `strings.ToLower`. -/
def lower (s : String) : String := String.ofList (s.toList.map net.toLower)

/-- `strings.EqualFold`. -/
def equalFold (s t : String) : Bool := s.toList.map net.fold = t.toList.map net.fold

/-- `sha256Hex` as a text. -/
def digest (data : List UInt8) : String := String.ofList (net.sha256Hex data)

end RemotePackages

/-- `strings.TrimPrefix(s, "v")`. -/
def trimV (s : String) : String := String.ofList (trimPrefix s.toList ['v'])

/-- `strings.TrimSuffix`. -/
def trimSuffix (s suffix : String) : String :=
  if suffix.toList <:+ s.toList then
    String.ofList (s.toList.take (s.toList.length - suffix.toList.length))
  else s

@[grind] def firstNonEmpty : List String → String
  | [] => ""
  | v :: values => if trimSpace v ≠ "" then v else firstNonEmpty values

/-- An error of `SelectAsset`. Of the three texts only that of `unsupported` begins
with `platform_unsupported:`. -/
inductive SelectError where
  | missing
  | unsupported (platforms : List (String × String))
  | notFound (version : String)
  deriving Repr, DecidableEq

def encodePlatforms (platforms : List (String × String)) : String :=
  join "," (platforms.map fun p => p.1 ++ "/" ++ p.2)

def SelectError.text (net : RemotePackages) : SelectError → String
  | .missing => "asset missing url or sha256"
  | .unsupported platforms => "platform_unsupported:" ++ encodePlatforms platforms
  | .notFound version => "version " ++ net.quote version ++ " not found in index"

/-- The first release of the version, of which `SelectAsset` looks at no other. -/
def IndexFile.release (f : IndexFile) (version : String) : Option IndexRelease :=
  f.releases.find? fun rel => trimV (trimSpace rel.version) = version

/-- `SelectAsset`. -/
def IndexFile.selectAsset (net : RemotePackages) (f : IndexFile) (version : String) :
    Except SelectError (IndexAsset × IndexRelease) :=
  let version := trimV (trimSpace version)
  match f.release version with
  | none => .error (.notFound version)
  | some rel =>
      match rel.assets.find? fun asset =>
          net.equalFold asset.os net.goos && net.equalFold asset.arch net.goarch with
      | none => .error (.unsupported (rel.assets.map fun asset => (asset.os, asset.arch)))
      | some asset =>
          if trimSpace asset.url = "" ∨ trimSpace asset.sha256 = "" then .error .missing
          else .ok (asset, rel)

/-- `index.Parse`. -/
def parseIndex (net : RemotePackages) (data : List UInt8) : Except String IndexFile :=
  match net.unmarshalIndex data with
  | .error err => .error ("parse gosite.plugin.json: " ++ err)
  | .ok f =>
      if trimSpace f.id = "" then .error "gosite.plugin.json: id required" else .ok f

/-- `indexResolveInput`. -/
structure IndexResolveInput where
  idx : IndexFile
  tag : String
  sourceType : String
  sourceRef : String
  buildEnabled : Bool
  forceBuild : Bool
  buildToken : String
  buildVCS : String
  hints : ManifestHints

def repoFromSourceRef (sourceRef : String) : String :=
  let repo := sourceRef.toList.takeWhile (· ≠ '@')
  if '@' ∈ sourceRef.toList ∧ repo ≠ [] then String.ofList repo else sourceRef

def previewFromRelease (input : IndexResolveInput) (rel : IndexRelease)
    (sha256 url keyID : String) : ResolvePreview :=
  { ResolvePreview.zero with
    pluginID := input.idx.id
    version := trimV rel.version
    tier := input.hints.tier
    signed := keyID ≠ ""
    sha256 := sha256
    url := url
    minGoSiteVersion := rel.minGoSiteVersion
    sourceType := input.sourceType
    sourceRef := input.sourceRef
    installPath := "release"
    sourceCommit := rel.sourceCommit
    sourceRepository := firstNonEmpty [rel.sourceRepository, input.idx.repository]
    permissions := input.hints.permissions
    hooks := input.hints.hooks
    keyID := keyID }

/-- The plan and the preview of a build, which has no digest before it is made. `rel`
is the release of the tag, or the empty one. -/
def buildRelease (input : IndexResolveInput) (buildSpec : IndexBuild) (rel : IndexRelease) :
    FetchPlan × ResolvePreview :=
  let pkg := trimSpace buildSpec.package
  let pkg := if pkg = "" then trimSpace buildSpec.entrypoint else pkg
  let plan : FetchPlan :=
    { FetchPlan.zero with
      sourceType := trimSuffix input.sourceType "-release" ++ "-build"
      sourceRef := input.sourceRef
      installPath := "build"
      sourceRepository := input.idx.repository
      build := some
        { vcs := input.buildVCS
          repo := repoFromSourceRef input.sourceRef
          tag := input.tag
          goVersion := buildSpec.goVersion
          package := pkg
          token := input.buildToken } }
  let preview : ResolvePreview :=
    { ResolvePreview.zero with
      pluginID := input.idx.id
      version := trimV input.tag
      tier := input.hints.tier
      sourceType := plan.sourceType
      sourceRef := input.sourceRef
      installPath := "build"
      sourceRepository := input.idx.repository
      permissions := input.hints.permissions
      hooks := input.hints.hooks }
  if rel.version ≠ "" then
    (plan, { preview with
      version := trimV rel.version
      minGoSiteVersion := rel.minGoSiteVersion
      sourceCommit := rel.sourceCommit })
  else (plan, preview)

/-- `resolveIndexRelease` where it does not take the asset. -/
def resolveIndexBuild (net : RemotePackages) (input : IndexResolveInput)
    (failed : Option SelectError) (rel : IndexRelease) :
    Except RemoteError (FetchPlan × ResolvePreview) :=
  let refused : Option RemoteError :=
    if input.forceBuild = false ∧ (input.idx.build = none ∨ input.buildEnabled = false) then
      match failed with
      | some (.unsupported _) => some (.invalidInput platformUnsupported)
      | some err => some (.resolve (err.text net))
      | none => none
    else none
  match refused, input.idx.build with
  | some err, _ => .error err
  | none, none => .error (.invalidInput buildDisabled)
  | none, some buildSpec =>
      if input.buildEnabled = false ∧ input.forceBuild = false then
        .error (.invalidInput buildDisabled)
      else .ok (buildRelease input buildSpec rel)

def resolveIndexRelease (net : RemotePackages) (input : IndexResolveInput) :
    Except RemoteError (FetchPlan × ResolvePreview) :=
  match input.idx.selectAsset net input.tag with
  | .error err => resolveIndexBuild net input (some err) .zero
  | .ok (asset, rel) =>
      if input.forceBuild then resolveIndexBuild net input none rel
      else
        let plan : FetchPlan :=
          { url := asset.url
            sha256 := net.lower asset.sha256
            sourceType := input.sourceType
            sourceRef := input.sourceRef
            installPath := "release"
            resolvedDigest := net.lower asset.sha256
            sourceCommit := rel.sourceCommit
            sourceRepository := firstNonEmpty [rel.sourceRepository, input.idx.repository]
            inlineArtifact := []
            build := none }
        .ok (plan, previewFromRelease input rel plan.sha256 asset.url (asset.keyIDs.headD ""))

/-- What a forge answers to a request for a file at the tag, as `fetchRaw` reports it. -/
abbrev RawFiles := String → Except RemoteError (List UInt8)

/-- `loadManifestHints`. -/
def loadManifestHints (net : RemotePackages) (raw : RawFiles) : ManifestHints :=
  match raw "manifest.json" with
  | .error _ => ⟨[], [], 0⟩
  | .ok data => (net.unmarshalHints data).getD ⟨[], [], 0⟩

/-- A forge, by what its two resolvers differ in. `group` is what it calls the first
half of a repository. -/
structure Forge where
  name : String
  group : String
  token : String

def gitHubForge (cfg : RemoteConfig) : Forge := ⟨"github", "owner", cfg.gitHubToken⟩
def gitLabForge (cfg : RemoteConfig) : Forge := ⟨"gitlab", "group", cfg.gitLabToken⟩

/-- The two parts of a repository. A resolver of releases takes no empty one. -/
def repoParts (repo : String) (nonempty : Bool) : Option (String × String) :=
  match repo.toList.splitOn '/' with
  | [owner, name] =>
      if nonempty ∧ (owner = [] ∨ name = []) then none
      else some (String.ofList owner, String.ofList name)
  | _ => none

/-- `Resolve` of the resolvers for releases and builds. -/
def Forge.resolve (forge : Forge) (net : RemotePackages) (cfg : RemoteConfig) (raw : RawFiles)
    (source : RemoteSource) (forceBuild : Bool) :
    Except RemoteError (FetchPlan × ResolvePreview) :=
  let repo := trimSpace source.repo
  let tag := trimSpace source.tag
  if repo = "" ∨ tag = "" then .error (.invalidInput resolveFailed)
  else
    match repoParts repo (!forceBuild) with
    | none => .error (.invalidInput ("repo must be " ++ forge.group ++ "/name"))
    | some (owner, name) =>
        match raw "gosite.plugin.json" with
        | .error err => .error err
        | .ok indexBytes =>
            match parseIndex net indexBytes with
            | .error err => .error (.resolve err)
            | .ok idx => resolveIndexRelease net
                { idx := idx
                  tag := tag
                  sourceType := forge.name ++ if forceBuild then "-build" else "-release"
                  sourceRef := owner ++ "/" ++ name ++ "@" ++ tag
                  buildEnabled := cfg.buildEnabled
                  forceBuild := forceBuild
                  buildToken := forge.token
                  buildVCS := forge.name
                  hints := loadManifestHints net raw }

/-- `URLResolver.Resolve`. -/
def resolveURL (net : RemotePackages) (source : RemoteSource) :
    Except RemoteError (FetchPlan × ResolvePreview) :=
  let rawURL := trimSpace source.url
  let sha := net.lower (trimSpace source.sha256)
  if rawURL = "" then .error (.invalidInput resolveFailed)
  else if sha = "" then .error (.invalidInput "sha256 required for url source")
  else
    .ok ({ FetchPlan.zero with
        url := rawURL
        sha256 := sha
        sourceType := "url"
        sourceRef := rawURL
        installPath := "release"
        resolvedDigest := sha },
      { ResolvePreview.zero with
        sha256 := sha
        url := rawURL
        sourceType := "url"
        sourceRef := rawURL
        installPath := "release" })

/-- `GitRefResolver.Resolve` after the manifest was read. -/
def resolveManifest (net : RemotePackages) (repo tag : String) (manifestJSON : List UInt8) :
    Except RemoteError (FetchPlan × ResolvePreview) :=
  match net.unmarshalManifest manifestJSON with
  | .error err => .error (.resolve err)
  | .ok manifest =>
      if manifest.tier ≠ 0 then .error (.invalidInput "git-ref source requires tier 0 manifest")
      else if trimSpace manifest.id = "" ∨ trimSpace manifest.version = "" then
        .error (.invalidInput resolveFailed)
      else
        match net.zip manifestJSON with
        | .error err => .error (.app (.wrap .pluginOperation resolveFailed err))
        | .ok artifact =>
            .ok ({ FetchPlan.zero with
                sha256 := net.digest artifact
                sourceType := "git-ref"
                sourceRef := repo ++ "@" ++ tag
                installPath := "git-ref"
                resolvedDigest := net.digest artifact
                inlineArtifact := artifact
                sourceRepository := repo },
              { ResolvePreview.zero with
                pluginID := manifest.id
                version := manifest.version
                tier := manifest.tier
                sha256 := net.digest artifact
                sourceType := "git-ref"
                sourceRef := repo ++ "@" ++ tag
                installPath := "git-ref"
                permissions := manifest.permissions
                hooks := manifest.hooks })

/-- `GitRefResolver.Resolve`, where the URL of the source names the forge. -/
def resolveGitRef (net : RemotePackages) (cfg : RemoteConfig) (raw : RawFiles)
    (source : RemoteSource) : Except RemoteError (FetchPlan × ResolvePreview) :=
  let repo := trimSpace source.repo
  let tag := trimSpace source.tag
  if repo = "" ∨ tag = "" then .error (.invalidInput resolveFailed)
  else
    let forge := if net.lower (trimSpace source.url) = "gitlab" then gitLabForge cfg
      else gitHubForge cfg
    match repoParts repo false with
    | none => .error (.invalidInput ("repo must be " ++ forge.group ++ "/name"))
    | some _ =>
        match raw "manifest.json" with
        | .error err => .error err
        | .ok manifestJSON => resolveManifest net repo tag manifestJSON

/-- `Registry.Resolve`: the resolvers in the order of `NewRegistry`. -/
def resolveSource (net : RemotePackages) (cfg : RemoteConfig) (raw : RawFiles)
    (source : RemoteSource) : Except RemoteError (FetchPlan × ResolvePreview) :=
  let t := trimSpace source.type
  if net.equalFold t "url" then resolveURL net source
  else if net.lower t = "github-release" ∨ net.lower t = "github" then
    (gitHubForge cfg).resolve net cfg raw source false
  else if net.lower t = "gitlab-release" ∨ net.lower t = "gitlab" then
    (gitLabForge cfg).resolve net cfg raw source false
  else if net.equalFold t "github-build" then (gitHubForge cfg).resolve net cfg raw source true
  else if net.equalFold t "gitlab-build" then (gitLabForge cfg).resolve net cfg raw source true
  else if net.equalFold t "git-ref" then resolveGitRef net cfg raw source
  else .error (.invalidInput resolveFailed)

/-- The preview shows the digest of the plan. An artifact that a plan brings with it has
that digest, and what is yet to be built has none. -/
structure FetchPlan.Shown (net : RemotePackages) (plan : FetchPlan) (preview : ResolvePreview) :
    Prop where
  digest : preview.sha256 = plan.sha256
  inline : plan.inlineArtifact ≠ [] → plan.sha256 = net.digest plan.inlineArtifact
  build : plan.build ≠ none → plan.sha256 = ""

section
variable {net : RemotePackages} {cfg : RemoteConfig} {plan : FetchPlan} {preview : ResolvePreview}

theorem buildRelease_shown (input : IndexResolveInput) (buildSpec : IndexBuild)
    (rel : IndexRelease) :
    (buildRelease input buildSpec rel).1.Shown net (buildRelease input buildSpec rel).2 := by
  unfold buildRelease
  dsimp only
  split_ifs <;> exact ⟨rfl, fun h => absurd rfl h, fun _ => rfl⟩

theorem resolveIndexBuild_shown {input : IndexResolveInput} {failed : Option SelectError}
    {rel : IndexRelease}
    (h : resolveIndexBuild net input failed rel = .ok (plan, preview)) :
    plan.Shown net preview := by
  unfold resolveIndexBuild at h
  dsimp only at h
  split at h
  · cases h
  · cases h
  · next buildSpec _ _ =>
      split_ifs at h
      rw [Except.ok.injEq] at h
      have hshown := @buildRelease_shown net input buildSpec rel
      rw [h] at hshown
      exact hshown

theorem resolveIndexRelease_shown {input : IndexResolveInput}
    (h : resolveIndexRelease net input = .ok (plan, preview)) : plan.Shown net preview := by
  unfold resolveIndexRelease at h
  cases hselect : input.idx.selectAsset net input.tag with
  | error err =>
      rw [hselect] at h
      exact resolveIndexBuild_shown h
  | ok selected =>
      obtain ⟨asset, rel⟩ := selected
      simp only [hselect] at h
      split_ifs at h
      · exact resolveIndexBuild_shown h
      · rw [Except.ok.injEq, Prod.mk.injEq] at h
        obtain ⟨rfl, rfl⟩ := h
        exact ⟨rfl, fun h => absurd rfl h, fun h => absurd rfl h⟩

theorem forge_shown {forge : Forge} {raw : RawFiles} {source : RemoteSource} {forceBuild : Bool}
    (h : forge.resolve net cfg raw source forceBuild = .ok (plan, preview)) :
    plan.Shown net preview := by
  unfold Forge.resolve at h
  dsimp only at h
  split at h
  · cases h
  split at h
  · cases h
  split at h
  · cases h
  split at h
  · cases h
  · exact resolveIndexRelease_shown h

theorem resolveURL_shown {source : RemoteSource}
    (h : resolveURL net source = .ok (plan, preview)) : plan.Shown net preview := by
  unfold resolveURL at h
  dsimp only at h
  split_ifs at h
  rw [Except.ok.injEq, Prod.mk.injEq] at h
  obtain ⟨rfl, rfl⟩ := h
  exact ⟨rfl, fun h => absurd rfl h, fun h => absurd rfl h⟩

theorem resolveGitRef_shown {raw : RawFiles} {source : RemoteSource}
    (h : resolveGitRef net cfg raw source = .ok (plan, preview)) : plan.Shown net preview := by
  unfold resolveGitRef at h
  dsimp only at h
  split at h
  · cases h
  split at h
  · cases h
  split at h
  · cases h
  unfold resolveManifest at h
  split at h
  · cases h
  split_ifs at h
  split at h
  · cases h
  · rw [Except.ok.injEq, Prod.mk.injEq] at h
    obtain ⟨rfl, rfl⟩ := h
    exact ⟨rfl, fun _ => rfl, fun h => absurd rfl h⟩

/-- Every resolver shows the digest it has planned with. -/
theorem resolveSource_shown {raw : RawFiles} {source : RemoteSource}
    (h : resolveSource net cfg raw source = .ok (plan, preview)) : plan.Shown net preview := by
  unfold resolveSource at h
  dsimp only at h
  split_ifs at h
  · exact resolveURL_shown h
  · exact forge_shown h
  · exact forge_shown h
  · exact forge_shown h
  · exact forge_shown h
  · exact resolveGitRef_shown h

end

end GoSite.Plugin
