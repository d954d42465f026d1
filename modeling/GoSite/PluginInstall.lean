import GoSite.DumpPaths
import GoSite.PluginMoves

/-!
# Installing a plugin

`Install` checks an artifact, stores its files, registers the version and lets
the plugin validate itself before the version counts as installed. The files
are left out; the calls that write them may fail.
-/
namespace GoSite.Plugin
open GoStrings
open GoSite.Terminal (cleanPath joinPath)

def failureValidateTimeout : String := "validate_timeout"
def failureUnknown : String := "unknown"

def ErrorCode.text : ErrorCode → String
  | .invalidInput => "INVALID_INPUT"
  | .notFound => "NOT_FOUND"
  | .conflict => "CONFLICT"
  | .config => "CONFIG_ERROR"
  | .database => "DATABASE_ERROR"
  | .pluginInvalid => "PLUGIN_INVALID"
  | .pluginOperation => "PLUGIN_OPERATION_FAILED"

/-- `Error`. -/
def AppError.error (e : AppError) : String :=
  match e.cause with
  | some cause => e.code.text ++ ": " ++ e.message ++ ": " ++ cause
  | none => e.code.text ++ ": " ++ e.message

/-- An error of `Install`: one of the application, or that of a context. -/
inductive InstallError where
  | app (e : AppError)
  | deadlineExceeded
  | canceled
  deriving Repr, DecidableEq

def InstallError.error : InstallError → String
  | .app e => e.error
  | .deadlineExceeded => "context deadline exceeded"
  | .canceled => "context canceled"

structure SidebarEntry where
  label : String
  route : String
  deriving Repr, DecidableEq

/-- `Command`. A manifest without the entrypoint has the empty one. -/
structure Entrypoint where
  type : String
  command : String
  deriving Repr, DecidableEq

/-- The rest of the manifest that `Install` looks at. `validate` is the entrypoint
of that name and `signed` says that there are signatures. -/
structure InstallManifest extends Manifest where
  id : String
  name : String
  version : String
  configVersion : String
  hookIsolation : String
  sidebar : List SidebarEntry
  validate : Entrypoint
  artifactSHA256 : String
  signed : Bool
  deriving Repr, DecidableEq

/-- `provenance` is the source type of the provenance, if there is one. -/
structure InstallInput where
  content : List UInt8
  expectedSHA256 : String
  provenance : Option String
  permissionsAck : Bool
  deriving Repr, DecidableEq

/-- What the service uses to install. `digest` is SHA-256 in hexadecimal,
`parseManifest` reads the archive and `keyringCheck` the trusted keys. -/
structure Installer where
  service : Service
  storageDir : String
  allowUnsigned : Bool
  digest : List UInt8 → String
  parseManifest : List UInt8 → Except AppError (InstallManifest × String)
  keyringCheck : InstallManifest → String → Option AppError

/-- The calls of `Install` that can fail. -/
inductive InstallCall where
  | findExisting
  | ensureDiskWritable
  | mkdirArtifact
  | writeArtifact
  | writeManifest
  | createOrRetryInstall
  | recordInstallFailure
  | markInstalled
  | setInstallLog
  deriving Repr, DecidableEq

/-- How the validation command goes: the context that ended before it, the error
of finding the command, and how the command itself ends. -/
structure ValidateRun where
  ended : Option InstallError
  resolve : Option AppError
  timedOut : Bool
  output : String
  exit : Option String
  deriving Repr, DecidableEq

/-- What the outside world answers to one `Install`. -/
structure InstallWeather where
  fault : InstallCall → Option String
  extract : Option AppError
  validate : ValidateRun
  now : ℕ

structure LogStep where
  step : String
  status : String
  failureClass : String
  detail : String
  deriving Repr, DecidableEq

def LogStep.ok (step : String) : LogStep := ⟨step, "ok", "", ""⟩

def LogStep.fail (step failureClass detail : String) : LogStep :=
  ⟨step, "failed", failureClass, detail⟩

/-- One half of a plugin id: `[a-z0-9][a-z0-9._-]*`. -/
def isPluginName : List Char → Bool
  | [] => false
  | c :: cs =>
      (c.isLower || c.isDigit) &&
        cs.all fun d => d.isLower || d.isDigit || d = '.' || d = '_' || d = '-'

/-- `pluginIDPattern`. -/
def matchesPluginID (id : String) : Bool :=
  match id.toList.splitOn '/' with
  | [vendor, name] => isPluginName vendor && isPluginName name
  | _ => false

/-- `strings.EqualFold` with a hexadecimal digest, where only the case of ASCII
letters differs. -/
def equalFoldHex (expected digest : String) : Bool :=
  expected.toList.map Char.toLower = digest.toList.map Char.toLower

def validateManifest (m : InstallManifest) : Option AppError :=
  if ¬ matchesPluginID m.id then
    some (.new .pluginInvalid "plugin id must be namespaced as vendor/name")
  else if trimSpace m.name = "" ∨ trimSpace m.version = "" then
    some (.new .pluginInvalid "plugin name and version are required")
  else if m.tier ≠ 0 ∧ m.tier ≠ 1 then
    some (.new .pluginInvalid "only tier 0 and tier 1 plugins are supported")
  else if m.hookIsolation ≠ "" ∧ m.hookIsolation ≠ "sequential" ∧
      m.hookIsolation ≠ "independent" then
    some (.new .pluginInvalid "invalid hookIsolation")
  else if m.sidebar.any fun item =>
      trimSpace item.label = "" ∨
        ¬ ("/plugins/" ++ m.id ++ "/").toList <+: item.route.toList then
    some (.new .pluginInvalid "sidebar routes must be host plugin routes")
  else none

def isBundledInstall (input : InstallInput) : Bool :=
  match input.provenance with
  | none => false
  | some sourceType => trimSpace sourceType = bundledSourceType

def Installer.verifyArtifact (I : Installer) (m : InstallManifest) (digest : String)
    (bundledTrust : Bool) : Option AppError :=
  let expected := trimSpace m.artifactSHA256
  if expected ≠ "" ∧ ¬ equalFoldHex expected digest then
    some (.new .pluginInvalid "manifest artifact sha256 mismatch")
  else if bundledTrust then none
  else if ¬ m.signed then
    if I.allowUnsigned then none else some (.new .pluginInvalid "plugin signature required")
  else I.keyringCheck m digest

/-- A manifest that was checked, with the text it was read from. -/
structure Checked where
  manifest : InstallManifest
  manifestJSON : String
  valid : validateManifest manifest = none

/-- The checks of `Install` before it takes the plugin's lock. -/
def Installer.check (I : Installer) (input : InstallInput) : Except AppError Checked :=
  if input.content = [] then .error (.new .invalidInput "plugin artifact is required")
  else
    let digest := I.digest input.content
    let expected := trimSpace input.expectedSHA256
    if expected ≠ "" ∧ ¬ equalFoldHex expected digest then
      .error (.new .pluginInvalid "artifact sha256 mismatch")
    else
      match I.parseManifest input.content with
      | .error e => .error e
      | .ok (m, json) =>
      match hvalid : validateManifest m with
      | some e => .error e
      | none =>
      match I.service.compatibilityCheck m.toManifest (isBundledInstall input) with
      | some e => .error e
      | none =>
      match I.verifyArtifact m digest (isBundledInstall input) with
      | some e => .error e
      | none =>
          let remote := input.provenance.any fun sourceType => sourceType ≠ bundledSourceType
          if remote ∧ needsPermissionAck m.toManifest ∧ ¬ input.permissionsAck then
            .error (.new .invalidInput "permissions_ack required for remote install")
          else .ok ⟨m, json, hvalid⟩

/-- `safePluginDir`, where the storage root is an absolute path. -/
def safePluginDir (root pluginID version : String) : Except AppError (List Char) :=
  if ¬ matchesPluginID pluginID ∨ ['.', '.'] <:+: version.toList ∨
      version.toList.any (fun c => c = '/' ∨ c = '\\') then
    .error (.new .pluginInvalid "invalid plugin path identity")
  else
    let dir := joinPath (joinPath root.toList pluginID.toList) version.toList
    let cleanRoot := cleanPath root.toList
    if dir ≠ cleanRoot ∧ ¬ (cleanRoot ++ ['/']) <+: dir then
      .error (.new .pluginInvalid "invalid plugin storage path")
    else .ok dir

/-- The state an earlier attempt left the version in. -/
def existingCheck (fault : Option String) (g : Registry) (key : Key) (bundled : Bool) :
    Option AppError :=
  match fault with
  | some e => some (.wrap .database "find existing plugin failed" e)
  | none =>
      match g.find key.1 key.2 with
      | none => none
      | some existing =>
          match existing.state with
          | .installFailed => none
          | .uninstalled =>
              if bundled then none else some (.new .conflict "plugin version already exists")
          | _ => some (.new .conflict "plugin version already exists")

/-- The calls that store the artifact. -/
def storeArtifact (e : InstallWeather) : Option AppError :=
  match e.fault .ensureDiskWritable with
  | some err => some (.wrap .config "plugin storage unavailable" err)
  | none =>
  match e.fault .mkdirArtifact with
  | some err => some (.wrap .config "create plugin storage failed" err)
  | none =>
  match e.extract with
  | some err => some err
  | none =>
  match e.fault .writeArtifact with
  | some err => some (.wrap .config "persist plugin artifact failed" err)
  | none =>
  match e.fault .writeManifest with
  | some err => some (.wrap .config "persist plugin manifest failed" err)
  | none => none

/-- The row of a version that is being installed. -/
structure Registration where
  record : PluginVersion
  installing : record.state = .installing
  identified : record.pluginID ≠ "" ∧ trimSpace record.version ≠ ""

theorem validateManifest_identified {m : InstallManifest} (h : validateManifest m = none) :
    m.id ≠ "" ∧ trimSpace m.version ≠ "" := by
  unfold validateManifest at h
  split_ifs at h with hid hname
  refine ⟨?_, fun hversion => hname (.inr hversion)⟩
  intro hempty
  rw [hempty] at hid
  exact absurd hid (by decide)

/-- The record `Install` hands to the repository. -/
def Checked.registration (c : Checked) (digest : String) (artifactPath : List Char)
    (input : InstallInput) (now : ℕ) : Registration where
  record :=
    { id := 0
      pluginID := c.manifest.id
      version := c.manifest.version
      configVersion := c.manifest.configVersion
      manifestJSON := c.manifestJSON
      artifactDigest := digest
      artifactPath := String.ofList artifactPath
      state := .installing
      failureClass := ""
      failureMessage := ""
      sourceType := input.provenance.getD "upload"
      permissionsAckAt := if input.permissionsAck then some now else none
      createdAt := now }
  installing := rfl
  identified := validateManifest_identified c.valid

/-- The row as it is written under an id. -/
def Registration.row (r : Registration) (id createdAt : ℕ) : PluginVersion :=
  { r.record with id := id, createdAt := createdAt }

@[simp] theorem row_key (r : Registration) (id createdAt : ℕ) :
    (r.row id createdAt).key = r.record.key := rfl

@[simp] theorem row_state (r : Registration) (id createdAt : ℕ) :
    (r.row id createdAt).state = .installing := r.installing

/-- The `INSERT` of `CreateOrRetryInstall`. -/
def Registry.insert (g : Registry) (r : Registration)
    (hnew : g.find r.record.pluginID r.record.version = none) : Registry where
  rows := g.rows ++ [r.row (g.rows.foldl (fun n p => max n p.id) 0 + 1) r.record.createdAt]
  keys_nodup := by
    rw [List.map_append, List.nodup_append]
    refine ⟨g.keys_nodup, by simp, ?_⟩
    intro a ha b hb hab
    obtain ⟨p, hp, rfl⟩ := List.mem_map.mp ha
    have hb : b = r.record.key := List.mem_singleton.mp hb
    have hfind := Registry.find_of_mem hp
    have hkey : p.key = r.record.key := hab.trans hb
    rw [show p.pluginID = r.record.pluginID from congrArg Prod.fst hkey,
      show p.version = r.record.version from congrArg Prod.snd hkey, hnew] at hfind
    cases hfind
  one_enabled := by
    intro a ha b hb hea heb hid
    rcases List.mem_append.mp ha with ha | ha
    · rcases List.mem_append.mp hb with hb | hb
      · exact g.one_enabled a ha b hb hea heb hid
      · obtain rfl := List.mem_singleton.mp hb
        simp at heb
    · obtain rfl := List.mem_singleton.mp ha
      simp at hea
  identified := by
    intro p hp
    rcases List.mem_append.mp hp with hp | hp
    · exact g.identified p hp
    · obtain rfl := List.mem_singleton.mp hp
      exact r.identified

/-- What the `UPDATE` of `CreateOrRetryInstall` leaves of the row. -/
def Registration.reopen (r : Registration) (p : PluginVersion) : PluginVersion :=
  if p.key = r.record.key then r.row p.id p.createdAt else p

theorem reopen_key (r : Registration) (p : PluginVersion) : (r.reopen p).key = p.key := by
  unfold Registration.reopen
  split_ifs with h
  · exact h.symm
  · rfl

/-- The `UPDATE` of `CreateOrRetryInstall`. -/
def Registry.reopen (g : Registry) (r : Registration) : Registry where
  rows := g.rows.map r.reopen
  keys_nodup := by
    have hkeys : (g.rows.map r.reopen).map PluginVersion.key = g.rows.map PluginVersion.key := by
      rw [List.map_map]
      exact List.map_congr_left fun p _ => reopen_key r p
    rw [hkeys]
    exact g.keys_nodup
  one_enabled := by
    have henabled : ∀ p ∈ g.rows.map r.reopen, p.state = .enabled → p ∈ g.rows := by
      intro p hp hen
      obtain ⟨q, hq, rfl⟩ := List.mem_map.mp hp
      unfold Registration.reopen at hen ⊢
      split_ifs at hen ⊢
      · simp at hen
      · exact hq
    intro a ha b hb hea heb hid
    exact g.one_enabled a (henabled a ha hea) b (henabled b hb heb) hea heb hid
  identified := by
    intro p hp
    obtain ⟨q, hq, rfl⟩ := List.mem_map.mp hp
    unfold Registration.reopen
    split_ifs
    · exact r.identified
    · exact g.identified q hq

/-- `CreateOrRetryInstall`: no result when the version exists. -/
def Registry.createOrRetryInstall (g : Registry) (r : Registration) : Option Registry :=
  match hfind : g.find r.record.pluginID r.record.version with
  | none => some (g.insert r hfind)
  | some existing =>
      if existing.state ≠ .installFailed ∧ existing.state ≠ .uninstalled then none
      else some (g.reopen r)

/-- `ErrPluginVersionExists`. -/
def versionExistsError : String := "plugin version already exists"

/-- `CreateOrRetryInstall` and the error `Install` makes of it. -/
def World.createOrRetryInstall (w : World) (fault : Option String) (r : Registration) :
    World × Option AppError :=
  match fault with
  | some e =>
      if "constraint".toList <:+: e.toList then
        (w, some (.wrap .conflict "plugin version already exists" e))
      else (w, some (.wrap .database "create plugin record failed" e))
  | none =>
      match w.registry.createOrRetryInstall r with
      | none =>
          (w, some (.wrap .conflict "plugin version already exists" versionExistsError))
      | some g => ({ w with registry := g }, none)

/-- `runValidate`. -/
def runValidate (m : InstallManifest) (skip : Bool) (v : ValidateRun) : Option InstallError :=
  match v.ended with
  | some e => some e
  | none =>
      if skip then none
      else if m.tier = 1 then
        if trimSpace m.validate.command = "" ∨ m.validate.type ≠ "go-plugin" then
          some (.app (.new .pluginInvalid
            "tier 1 plugins require a go-plugin validate entrypoint"))
        else
          match v.resolve with
          | some e => some (.app e)
          | none =>
              if v.timedOut then some .deadlineExceeded
              else
                match v.exit with
                | none => none
                | some err =>
                    let message := trimSpace v.output
                    let message := if message = "" then err else message
                    some (.app (.new .pluginInvalid ("plugin validate failed: " ++ message)))
      else none

def classifyValidationError (e : InstallError) : String :=
  if e = .deadlineExceeded then failureValidateTimeout else failureUnknown

/-- `SetInstallLog`. The log itself is left out of the row, and its error is
dropped. -/
def World.setInstallLog (w : World) (fault : Option String) (key : Key) : PluginVersion :=
  match fault with
  | some _ => .zero
  | none => (w.registry.find key.1 key.2).getD .zero

/-- What `Install` returns, with the log it has kept. -/
structure InstallAnswer where
  world : World
  record : PluginVersion
  error : Option InstallError
  log : List LogStep

/-- An install that ends with an error and no record. -/
def InstallAnswer.refuse (w : World) (e : AppError) (log : List LogStep) : InstallAnswer :=
  ⟨w, .zero, some (.app e), log⟩

/-- The log of an artifact that passed the checks before the lock. -/
def checkedLog : List LogStep :=
  [.ok "verify_digest", .ok "parse_manifest", .ok "compatibility", .ok "verify_signature"]

/-- `Install` from the registration on. -/
def finishInstall (e : InstallWeather) (w : World) (m : InstallManifest) (bundled : Bool)
    (r : Registration) (log : List LogStep) : InstallAnswer :=
  match runValidate m bundled e.validate with
  | some err =>
      let log := log ++ [.fail "validate" (classifyValidationError err) err.error]
      let (w, _) := w.setFailure (e.fault .recordInstallFailure) r.record .installFailed
        (classifyValidationError err) err.error
      ⟨w, w.setInstallLog (e.fault .setInstallLog) r.record.key, some err, log⟩
  | none =>
      let log := log ++ [.ok "validate"]
      let (w, _, err) := w.setState (e.fault .markInstalled) r.record .installed
      match err with
      | some err => .refuse w (.wrap .database "mark plugin installed failed" err) log
      | none =>
          let log := log ++ [.ok "done"]
          ⟨w, w.setInstallLog (e.fault .setInstallLog) r.record.key, none, log⟩

/-- `Install` under the plugin's lock. -/
def Installer.installUnlocked (I : Installer) (e : InstallWeather) (w : World)
    (input : InstallInput) (c : Checked) : InstallAnswer :=
  match safePluginDir I.storageDir c.manifest.id c.manifest.version with
  | .error err => .refuse w err checkedLog
  | .ok dir =>
  match existingCheck (e.fault .findExisting) w.registry (c.manifest.id, c.manifest.version)
      (isBundledInstall input) with
  | some err => .refuse w err checkedLog
  | none =>
  match storeArtifact e with
  | some err => .refuse w err checkedLog
  | none =>
      let log := checkedLog ++ [.ok "extract"]
      let digest := I.digest input.content
      let artifactPath := joinPath dir (digest ++ ".artifact").toList
      let r := c.registration digest artifactPath input e.now
      let (w, err) := w.createOrRetryInstall (e.fault .createOrRetryInstall) r
      match err with
      | some err => .refuse w err log
      | none =>
          finishInstall e w c.manifest (isBundledInstall input) r (log ++ [.ok "registry"])

/-- `Install`. The log of a refusal before the lock is dropped with it. -/
def Installer.install (I : Installer) (e : InstallWeather) (w : World) (input : InstallInput) :
    InstallAnswer :=
  match I.check input with
  | .error err => .refuse w err []
  | .ok c =>
      if c.manifest.id ∈ w.locks then
        .refuse w (.new .conflict failureOperationProgress) checkedLog
      else
        let answer := I.installUnlocked e { w with locks := c.manifest.id :: w.locks } input c
        { answer with world :=
            { answer.world with locks := answer.world.locks.erase c.manifest.id } }

theorem insert_find {g : Registry} {r : Registration}
    (hnew : g.find r.record.pluginID r.record.version = none) (k : Key) :
    (k ≠ r.record.key → (g.insert r hnew).find k.1 k.2 = g.find k.1 k.2) ∧
      (k = r.record.key → ∃ id,
        (g.insert r hnew).find k.1 k.2 = some (r.row id r.record.createdAt)) := by
  unfold Registry.find Registry.insert
  dsimp only
  rw [List.find?_append, List.find?_singleton, row_key]
  refine ⟨?_, ?_⟩
  · intro hk
    rw [if_neg (by simpa using hk.symm), Option.or_none]
  · rintro rfl
    have hrows : g.rows.find? (fun p => p.key = r.record.key) = none := hnew
    refine ⟨g.rows.foldl (fun n p => max n p.id) 0 + 1, ?_⟩
    rw [hrows, Option.none_or, if_pos (by simp)]

theorem reopen_find (g : Registry) (r : Registration) (k : Key) :
    (g.reopen r).find k.1 k.2 = (g.find k.1 k.2).map r.reopen := by
  unfold Registry.find Registry.reopen
  dsimp only
  rw [List.find?_map]
  congr 2
  funext p
  simp [reopen_key]

/-- A registered version is `installing`, it was not installed before, and no
other version moved. -/
theorem createOrRetryInstall_moves {w w' : World} {fault : Option String} {r : Registration}
    (h : w.createOrRetryInstall fault r = (w', none)) :
    (∃ p, World.Moves w w' r.record.key p ∧ p.state = .installing) ∧
      w'.targets = w.targets ∧
      ∀ state, w.stateOf r.record.key = some state →
        state = .installFailed ∨ state = .uninstalled := by
  unfold World.createOrRetryInstall at h
  cases fault with
  | some e =>
      dsimp only at h
      split_ifs at h <;> cases congrArg Prod.snd h
  | none =>
  cases hreg : w.registry.createOrRetryInstall r with
  | none => simp [hreg] at h
  | some g =>
  simp only [hreg, Prod.mk.injEq, and_true] at h
  subst h
  unfold Registry.createOrRetryInstall at hreg
  unfold World.stateOf
  split at hreg
  · next hfind =>
      obtain rfl := Option.some.inj hreg
      have hnone : w.registry.find r.record.key.1 r.record.key.2 = none := hfind
      obtain ⟨id, hp⟩ := (insert_find hfind r.record.key).2 rfl
      refine ⟨⟨_, ⟨hp, fun k hk => (insert_find hfind k).1 hk⟩, row_state r _ _⟩, rfl, ?_⟩
      rw [hnone]
      simp
  · next existing hfind =>
      have hsome : w.registry.find r.record.key.1 r.record.key.2 = some existing := hfind
      have hkey : existing.key = r.record.key := Registry.find_key hsome
      split_ifs at hreg with hstate
      obtain rfl := Option.some.inj hreg
      refine ⟨⟨r.row existing.id existing.createdAt, ⟨?_, ?_⟩, row_state r _ _⟩, rfl, ?_⟩
      · show (w.registry.reopen r).find r.record.key.1 r.record.key.2 = _
        rw [reopen_find, hsome]
        simp [Registration.reopen, hkey]
      · intro k hk
        show (w.registry.reopen r).find k.1 k.2 = _
        rw [reopen_find]
        cases hrow : w.registry.find k.1 k.2 with
        | none => rfl
        | some p =>
            have hpk : p.key ≠ r.record.key := by
              rw [Registry.find_key hrow]
              exact hk
            simp [Registration.reopen, hpk]
      · rw [hsome]
        intro state hs
        have hs' : existing.state = state := Option.some.inj hs
        rw [← hs']
        by_contra hn
        exact hstate (not_or.mp hn)

/-- What `Install` leaves of a version it has registered: only one that passed
its validation is installed. -/
theorem finishInstall_moves (e : InstallWeather) {w₀ w : World} (m : InstallManifest)
    (bundled : Bool) (r : Registration) (log : List LogStep) {p : PluginVersion}
    (h : World.Moves w₀ w r.record.key p) (hp : p.state = .installing) :
    ∃ q, World.Moves w₀ (finishInstall e w m bundled r log).world r.record.key q ∧
      (finishInstall e w m bundled r log).world.targets = w.targets ∧
      log <+: (finishInstall e w m bundled r log).log ∧
      (q.state = .installing ∨ q.state = .installFailed ∨
        q.state = .installed ∧ .ok "validate" ∈ (finishInstall e w m bundled r log).log) := by
  have hkey := h.key_eq
  unfold finishInstall
  cases hval : runValidate m bundled e.validate with
  | some err =>
      cases e.fault .recordInstallFailure with
      | some text =>
          simp only [World.setFailure, World.write]
          exact ⟨p, h, by trivial, List.prefix_append _ _, .inl hp⟩
      | none =>
          obtain ⟨g, hg, hm⟩ := h.write "set plugin state" .installFailed
            (classifyValidationError err) err.error (by simp)
          rw [hkey] at hg
          simp only [World.setFailure, hg]
          exact ⟨_, hm, by trivial, List.prefix_append _ _, .inr (.inl rfl)⟩
  | none =>
      cases e.fault .markInstalled with
      | some text =>
          simp only [World.setState, World.write, InstallAnswer.refuse]
          exact ⟨p, h, by trivial, List.prefix_append _ _, .inl hp⟩
      | none =>
          obtain ⟨g, hg, hm⟩ := h.write "set plugin state" .installed "" "" (by simp)
          rw [hkey] at hg
          simp only [World.setState, hg]
          refine ⟨_, hm, by trivial, ?_, .inr (.inr ⟨rfl, ?_⟩)⟩
          · rw [List.append_assoc]
            exact List.prefix_append _ _
          · simp

/-- An install that did not get to the registration. -/
def InstallAnswer.Unregistered (a : InstallAnswer) (w : World) : Prop :=
  a.world.registry = w.registry ∧ a.world.targets = w.targets ∧ .ok "registry" ∉ a.log

/-- An install that registered the version `key`. -/
def InstallAnswer.Registered (a : InstallAnswer) (w : World) (key : Key) : Prop :=
  ∃ q, World.Moves w a.world key q ∧ a.world.targets = w.targets ∧ .ok "registry" ∈ a.log ∧
    (∀ state, w.stateOf key = some state → state = .installFailed ∨ state = .uninstalled) ∧
    (q.state = .installing ∨ q.state = .installFailed ∨
      q.state = .installed ∧ .ok "validate" ∈ a.log)

theorem refuse_unregistered (w : World) (err : AppError) {log : List LogStep}
    (hlog : .ok "registry" ∉ log) : (InstallAnswer.refuse w err log).Unregistered w :=
  ⟨rfl, rfl, hlog⟩

theorem installUnlocked_cases (I : Installer) (e : InstallWeather) (w : World)
    (input : InstallInput) (c : Checked) :
    (I.installUnlocked e w input c).Unregistered w ∨
      (I.installUnlocked e w input c).Registered w (c.manifest.id, c.manifest.version) := by
  have hchecked : LogStep.ok "registry" ∉ checkedLog := by decide
  unfold Installer.installUnlocked
  cases safePluginDir I.storageDir c.manifest.id c.manifest.version with
  | error err => exact .inl (refuse_unregistered w err hchecked)
  | ok dir =>
  cases existingCheck (e.fault .findExisting) w.registry (c.manifest.id, c.manifest.version)
      (isBundledInstall input) with
  | some err => exact .inl (refuse_unregistered w err hchecked)
  | none =>
  cases storeArtifact e with
  | some err => exact .inl (refuse_unregistered w err hchecked)
  | none =>
  dsimp only
  set r := c.registration (I.digest input.content)
    (joinPath dir (I.digest input.content ++ ".artifact").toList) input e.now with hr
  rcases hw : w.createOrRetryInstall (e.fault .createOrRetryInstall) r with ⟨w', err⟩
  cases err with
  | some err =>
      have hsame : w' = w := by
        unfold World.createOrRetryInstall at hw
        cases hfault : e.fault .createOrRetryInstall with
        | some text =>
            rw [hfault] at hw
            dsimp only at hw
            split_ifs at hw <;> exact (congrArg Prod.fst hw).symm
        | none =>
            rw [hfault] at hw
            cases hreg : w.registry.createOrRetryInstall r with
            | none => rw [hreg] at hw; exact (congrArg Prod.fst hw).symm
            | some g => rw [hreg] at hw; cases congrArg Prod.snd hw
      subst hsame
      exact .inl (refuse_unregistered w' err (by decide))
  | none =>
      obtain ⟨⟨p, hm, hp⟩, ht, hbefore⟩ := createOrRetryInstall_moves hw
      obtain ⟨q, hq, htargets, hlog, hstate⟩ := finishInstall_moves e c.manifest
        (isBundledInstall input) r (checkedLog ++ [.ok "extract"] ++ [.ok "registry"]) hm hp
      refine .inr ⟨q, hq, htargets.trans ht, ?_, hbefore, hstate⟩
      exact hlog.subset (by decide)

/-- What `Install` does to the registry and to the dispatcher's targets. -/
theorem install_cases (I : Installer) (e : InstallWeather) (w : World) (input : InstallInput) :
    (I.install e w input).Unregistered w ∨
      ∃ c, I.check input = .ok c ∧
        (I.install e w input).Registered w (c.manifest.id, c.manifest.version) := by
  unfold Installer.install
  cases hcheck : I.check input with
  | error err => exact .inl (refuse_unregistered w err (by simp))
  | ok c =>
      dsimp only
      split_ifs with hlock
      · exact .inl (refuse_unregistered w _ (by decide))
      · rcases installUnlocked_cases I e { w with locks := c.manifest.id :: w.locks } input c
          with h | ⟨q, hm, hrest⟩
        · exact .inl h
        · exact .inr ⟨c, rfl, q, ⟨hm.find_eq, hm.find_other⟩, hrest⟩

/-- A tier 1 plugin that comes with a validation command. -/
def demoManifest : InstallManifest where
  tier := 1
  apiVersion := hostAPIVersion
  minGoSiteVersion := ""
  rpcVersion := hostRPCVersion
  permissions := []
  hooks := []
  id := "acme/demo"
  name := "Demo"
  version := "1.0.0"
  configVersion := "1"
  hookIsolation := ""
  sidebar := []
  validate := ⟨"go-plugin", "bin/validate"⟩
  artifactSHA256 := ""
  signed := false

/-- Every archive holds that plugin. -/
def demoInstaller : Installer where
  service :=
    { manifestFromJSON := fun _ => demoManifest.toManifest
      migrate := fun _ config _ => .ok ⟨true, config, ""⟩
      hasConfigRepo := false
      hostVersion := "1.0.0" }
  storageDir := "/storage/plugins"
  allowUnsigned := true
  digest _ := "6e340b9c"
  parseManifest _ := .ok (demoManifest, "{}")
  keyringCheck _ _ := none

def demoUpload : InstallInput := ⟨[0], "", none, false⟩

end GoSite.Plugin
