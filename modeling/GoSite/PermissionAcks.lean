import GoSite.BundledPlugins
import GoSite.PluginTargets
import GoSite.ValidatedArtifacts

/-!
# Permissions are acknowledged before a plugin runs

The manifest, the digest, the source and the acknowledgement of a row are written by
`Install` and by nothing else, all at once. `Enable` looks at them before its first
write, and a version that was enabled before keeps them.
-/
namespace GoSite.Plugin
open GuardedRuns

/-- The columns that only an install writes. -/
structure StoredArtifact where
  manifestJSON : String
  artifactDigest : String
  sourceType : String
  permissionsAckAt : Option ℕ
  deriving Repr, DecidableEq

def PluginVersion.stored (p : PluginVersion) : StoredArtifact :=
  ⟨p.manifestJSON, p.artifactDigest, p.sourceType, p.permissionsAckAt⟩

@[simp] theorem withState_stored (p : PluginVersion) (state : PluginState) (fc fm : String) :
    (p.withState state fc fm).stored = p.stored := rfl

/-- A version that `Enable` has accepted and that `Disable` has not yet let go. -/
def PluginState.started : PluginState → Bool
  | .enabling | .enabled | .disabling => true
  | _ => false

inductive PluginAct where
  | operation (F : Faults) (op : Operation)
  | install (e : InstallWeather) (input : InstallInput)
  | restoreBundled (files : BundledFiles) (e : SeedWeather) (pluginID : String)
  | seedBundled (files : BundledFiles) (seed : ℕ → SeedWeather)
      (enable : ℕ → Option String × Faults)

def PluginHost.step (H : PluginHost) (t : Traced) : PluginAct → Option Traced
  | .operation F op => some { t with world := (H.installer.service.perform F t.world op).1 }
  | .install e input => some (t.install H.installer e input).1
  | .restoreBundled files e pluginID => some (H.restoreBundled files e t pluginID).1
  | .seedBundled files seed enable => some (H.seedBundled files seed enable t).1

/-- No version is registered yet. -/
def Traced.fresh (configs : List PluginConfig) : Traced where
  world :=
    { registry := ⟨[], keys_nodup_nil, oneEnabled_nil, identified_nil⟩
      running := []
      targets := []
      configs := configs
      locks := [] }
  installs := []

/-- The source of a version is not an upload and its manifest asks for permissions or
hooks. -/
def Service.AsksForAck (s : Service) (p : PluginVersion) : Prop :=
  p.sourceType ≠ "upload" ∧ needsPermissionAck (s.manifestFromRecord p) = true

/-- The manifest and the artifact of the version are those of the install. -/
structure Installer.StoredBy (I : Installer) (p : PluginVersion) (i : InstallRecord) : Prop where
  manifest : ∃ c, I.check i.input = .ok c ∧ c.manifestJSON = p.manifestJSON
  digest : p.artifactDigest = I.digest i.input.content
  source : p.sourceType = i.input.provenance.getD "upload"
  ack : p.permissionsAckAt = if i.input.permissionsAck then some i.now else none

/-- Each version that is being enabled or is enabled and that needs an acknowledgement
has the one that was given with the install of its manifest and artifact. -/
def Traced.Acknowledged (I : Installer) (t : Traced) : Prop :=
  ∀ p ∈ t.world.registry.rows, p.state = .enabling ∨ p.state = .enabled →
    I.service.AsksForAck p →
      ∃ i, t.storing p.key = some i ∧ I.StoredBy p i ∧ i.input.permissionsAck = true ∧
        p.permissionsAckAt = some i.now

/-- What the check of `Enable` makes sure of. -/
def Service.Acked (s : Service) (p : PluginVersion) : Prop :=
  p.sourceType ≠ "" → s.AsksForAck p → p.permissionsAckAt ≠ none

theorem Service.Acked.of_stored {s : Service} {p q : PluginVersion} (h : s.Acked p)
    (hstored : q.stored = p.stored) : s.Acked q := by
  obtain ⟨hjson, -, hsource, hack⟩ := StoredArtifact.mk.inj hstored
  simp only [Acked, AsksForAck, manifestFromRecord] at h ⊢
  rwa [hjson, hsource, hack]

theorem enableCheck_acked {s : Service} {p : PluginVersion} (h : s.enableCheck p = none) :
    s.Acked p := by
  rintro hsource ⟨hupload, hneeds⟩ hack
  rw [Service.enableCheck, if_pos ⟨hsource, hupload, hneeds, hack⟩] at h
  cases h

section
variable {s : Service} {w w₁ w₂ : World}

/-- The started versions passed the check of `Enable`. -/
def World.AcksHeld (s : Service) (w : World) : Prop :=
  ∀ (k : Key) p, w.registry.find k.1 k.2 = some p → p.state.started = true → s.Acked p

/-- No row is installed anew, and the started versions are still checked ones. -/
structure World.KeepsAcks (s : Service) (w w₁ : World) : Prop where
  stored : ∀ k : Key, (w₁.registry.find k.1 k.2).map PluginVersion.stored =
    (w.registry.find k.1 k.2).map PluginVersion.stored
  acks : w.AcksHeld s → w₁.AcksHeld s

theorem World.KeepsAcks.refl (s : Service) (w : World) : World.KeepsAcks s w w :=
  ⟨fun _ => rfl, id⟩

theorem World.KeepsAcks.trans (h : World.KeepsAcks s w w₁) (h' : World.KeepsAcks s w₁ w₂) :
    World.KeepsAcks s w w₂ :=
  ⟨fun k => (h'.stored k).trans (h.stored k), fun hw => h'.acks (h.acks hw)⟩

/-- Calls on the versions of one key write no column of an install. -/
theorem World.Calls.stored_eq {K : Set Key} (h : World.Calls K w w₁) (k : Key) :
    (w₁.registry.find k.1 k.2).map PluginVersion.stored =
      (w.registry.find k.1 k.2).map PluginVersion.stored := by
  obtain ⟨calls, -, rfl⟩ := h
  induction calls generalizing w with
  | nil => rfl
  | cons c calls ih =>
      rw [List.foldl_cons, ih]
      cases c with
      | write record state fc fm =>
          rcases write_find w none "set plugin state" record.key k state fc fm with
            h | ⟨-, p, hp, h⟩
          · exact congrArg _ h
          · show ((w.write none _ record.key state fc fm).1.registry.find k.1 k.2).map _ = _
            rw [h, hp]
            rfl
      | _ => rfl

/-- The row of a key has the columns it had. -/
theorem exists_of_stored_eq {k : Key} {q : PluginVersion}
    (h : (w₁.registry.find k.1 k.2).map PluginVersion.stored =
      (w.registry.find k.1 k.2).map PluginVersion.stored)
    (hq : w₁.registry.find k.1 k.2 = some q) :
    ∃ p, w.registry.find k.1 k.2 = some p ∧ q.stored = p.stored := by
  rw [hq] at h
  obtain ⟨p, hp, heq⟩ := Option.map_eq_some_iff.mp h.symm
  exact ⟨p, hp, heq.symm⟩

/-- Calls on a version that passed the check. -/
theorem keepsAcks_of_calls {p : PluginVersion} (h : World.Calls {p.key} w w₁)
    (hp : w.registry.find p.key.1 p.key.2 = some p) (hacked : w.AcksHeld s → s.Acked p) :
    World.KeepsAcks s w w₁ := by
  refine ⟨h.stored_eq, ?_⟩
  intro hw k q hq hstarted
  by_cases hk : k = p.key
  · subst hk
    obtain ⟨p', hp', hstored⟩ := exists_of_stored_eq (h.stored_eq p.key) hq
    rw [hp, Option.some.injEq] at hp'
    subst hp'
    exact (hacked hw).of_stored hstored
  · rw [h.find_eq (k := k) fun hmem => hk hmem] at hq
    exact hw k q hq hstarted

/-- A version that ends in a state that was not started. -/
theorem keepsAcks_of_moves {key : Key} {p : PluginVersion} (h : World.Calls {key} w w₁)
    (hm : World.Moves w w₁ key p) (hp : p.state.started = false) : World.KeepsAcks s w w₁ := by
  refine ⟨h.stored_eq, ?_⟩
  intro hw k q hq hstarted
  by_cases hk : k = key
  · subst hk
    rw [hm.find_eq, Option.some.injEq] at hq
    subst hq
    rw [hp] at hstarted
    cases hstarted
  · rw [hm.find_other k hk] at hq
    exact hw k q hq hstarted

theorem keepsAcks_of_registry (h : w₁.registry = w.registry) : World.KeepsAcks s w w₁ := by
  refine ⟨fun k => by rw [h], fun hw => ?_⟩
  intro k p hp
  rw [h] at hp
  exact hw k p hp

variable {F : Faults} {pluginID version : String}

theorem enableUnlocked_keepsAcks :
    World.KeepsAcks s w (s.enableUnlocked F w pluginID version).1 := by
  unfold Service.enableUnlocked
  cases hfind : findForEnable w.registry pluginID version with
  | error e => exact .refl s w
  | ok p =>
      cases hcheck : s.enableCheck p with
      | some e => simpa only [hcheck] using World.KeepsAcks.refl s w
      | none =>
          have hp := findInstallable_find (findForEnable_eq_ok_iff.mp hfind)
          simp only [hcheck]
          exact keepsAcks_of_calls (enableRecord_calls F (.refl w) (.inl rfl)) hp
            fun _ => enableCheck_acked hcheck

theorem disableUnlocked_keepsAcks :
    World.KeepsAcks s w (disableUnlocked F w pluginID).1 := by
  unfold disableUnlocked
  cases hfind : w.registry.findEnabled pluginID with
  | none => exact .refl s w
  | some p =>
      obtain ⟨-, hen, hp⟩ := Registry.findEnabled_spec hfind
      refine keepsAcks_of_calls (disableRecord_calls F (.refl w) (.inl rfl)) hp ?_
      intro hw
      exact hw p.key p hp (by rw [hen]; rfl)

theorem uninstallUnlocked_keepsAcks :
    World.KeepsAcks s w (uninstallUnlocked F w pluginID version).1 := by
  have hcalls := uninstallUnlocked_calls (F := F) (K := {(pluginID, version)}) (.refl w) rfl
  unfold uninstallUnlocked at hcalls ⊢
  cases hfind : w.registry.find pluginID version with
  | none => exact .refl s w
  | some p =>
      by_cases hstable : stableUninstallState p.state = true
      · have hm : World.Moves w w (pluginID, version) p := ⟨hfind, fun _ _ => rfl⟩
        obtain ⟨q, hq, hstate⟩ := uninstallRecord_moves (F := F) hm
        simp only [hfind, hstable, not_true_eq_false, if_false] at hcalls ⊢
        refine keepsAcks_of_moves hcalls hq ?_
        rcases hstate with h | h | h | ⟨h, -⟩
        · rw [h]
          rcases (stableUninstallState_iff p.state).mp hstable with h | h | h <;> rw [h] <;> rfl
        · rw [h]; rfl
        · rw [h]; rfl
        · rw [h]; rfl
      · simpa [hstable] using World.KeepsAcks.refl s w

/-- A failure of the migration leaves the target installed. -/
theorem setFailure_keepsAcks (fault : Option String) (record : PluginVersion) (fc fm : String) :
    World.KeepsAcks s w (w.setFailure fault record .installed fc fm).1 := by
  obtain ⟨w₁, r, hw₁, hcalls⟩ := (World.Calls.refl (K := {record.key}) w).setFailure fault
    (.inl rfl) .installed fc fm
  rw [hw₁]
  refine ⟨hcalls.stored_eq, ?_⟩
  intro hw k q hq hstarted
  have hwrite := write_find w fault "set plugin state" record.key k .installed fc fm
  have hsame : (w.write fault "set plugin state" record.key .installed fc fm).1 = w₁ :=
    congrArg Prod.fst hw₁
  rw [hsame, hq] at hwrite
  rcases hwrite with h | ⟨-, p, -, h⟩
  · exact hw k q h.symm hstarted
  · rw [Option.some.injEq] at h
    subst h
    cases hstarted

theorem disableThenEnable_keepsAcks :
    World.KeepsAcks s w (s.disableThenEnable F w pluginID version).1 := by
  have hdisable : World.KeepsAcks s w (disableUnlocked F w pluginID).1 := disableUnlocked_keepsAcks
  unfold Service.disableThenEnable
  rcases hdis : disableUnlocked F w pluginID with ⟨w₁, r₁, err₁⟩
  rw [hdis] at hdisable
  cases err₁ with
  | some e => exact hdisable
  | none => exact hdisable.trans enableUnlocked_keepsAcks

theorem switchRecord_keepsAcks {current target : PluginVersion} :
    World.KeepsAcks s w (s.switchRecord F w pluginID version current target).1 := by
  unfold Service.switchRecord
  cases s.migrate current (s.currentConfig w current) target with
  | error e => exact setFailure_keepsAcks _ target _ _
  | ok result =>
  by_cases hok : result.ok = true
  · by_cases hconfig : result.migratedConfig ≠ "" ∧ s.hasConfigRepo = true
    · simp only [hok, not_true_eq_false, if_false, hconfig, ne_eq, not_false_eq_true, and_self,
        if_true]
      cases hfault : F .upsertConfig with
      | some e => exact .refl s w
      | none =>
          simp only [World.upsertConfig]
          refine World.KeepsAcks.trans ?_ disableThenEnable_keepsAcks
          exact keepsAcks_of_registry rfl
    · simp only [hok, not_true_eq_false, if_false, hconfig]
      exact disableThenEnable_keepsAcks
  · simp only [hok]
    exact setFailure_keepsAcks _ target _ _

theorem switchUnlocked_keepsAcks :
    World.KeepsAcks s w (s.switchUnlocked F w pluginID version).1 := by
  unfold Service.switchUnlocked
  cases w.registry.findEnabled pluginID with
  | none => exact enableUnlocked_keepsAcks
  | some current =>
  by_cases hver : current.version = version
  · simpa only [hver, if_true] using World.KeepsAcks.refl s w
  cases w.registry.find pluginID version with
  | none => simpa only [hver, if_false] using World.KeepsAcks.refl s w
  | some target =>
  cases hcheck : s.switchCheck target with
  | some e => simpa only [hver, if_false, hcheck] using World.KeepsAcks.refl s w
  | none =>
      simp only [hver, if_false, hcheck]
      exact switchRecord_keepsAcks

/-- No lifecycle operation installs anything or starts what was not checked. -/
theorem perform_keepsAcks (op : Operation) : World.KeepsAcks s w (s.perform F w op).1 := by
  unfold Service.perform
  split_ifs with hlock
  · exact .refl s w
  · have hacquired : World.KeepsAcks s w { w with locks := op.pluginID :: w.locks } :=
      keepsAcks_of_registry rfl
    have hbody : World.KeepsAcks s w
        (s.unlocked F { w with locks := op.pluginID :: w.locks } op).1 := by
      refine hacquired.trans ?_
      cases op with
      | enable pluginID version => exact enableUnlocked_keepsAcks
      | disable pluginID => exact disableUnlocked_keepsAcks
      | switchEnabledVersion pluginID version => exact switchUnlocked_keepsAcks
      | uninstall pluginID version => exact uninstallUnlocked_keepsAcks
    exact hbody.trans (keepsAcks_of_registry rfl)

end

/-- The row of a version that is registered. -/
theorem createOrRetryInstall_stored {w w' : World} {fault : Option String} {r : Registration}
    (h : w.createOrRetryInstall fault r = (w', none)) :
    ∃ p, w'.registry.find r.record.key.1 r.record.key.2 = some p ∧ p.stored = r.record.stored := by
  unfold World.createOrRetryInstall at h
  cases fault with
  | some e =>
      dsimp only at h
      split_ifs at h <;> cases congrArg Prod.snd h
  | none =>
  cases hreg : w.registry.createOrRetryInstall r with
  | none => simp [hreg] at h
  | some g =>
  simp only [hreg, Prod.mk.injEq, and_true] at h
  subst h
  unfold Registry.createOrRetryInstall at hreg
  split at hreg
  · next hfind =>
      obtain rfl := Option.some.inj hreg
      obtain ⟨id, hp⟩ := (insert_find hfind r.record.key).2 rfl
      exact ⟨_, hp, rfl⟩
  · next existing hfind =>
      split_ifs at hreg with hstate
      obtain rfl := Option.some.inj hreg
      have hsome : w.registry.find r.record.key.1 r.record.key.2 = some existing := hfind
      have hkey : existing.key = r.record.key := Registry.find_key hsome
      refine ⟨r.row existing.id existing.createdAt, ?_, rfl⟩
      show (w.registry.reopen r).find r.record.key.1 r.record.key.2 = _
      rw [reopen_find, hsome]
      simp [Registration.reopen, hkey]

theorem finishInstall_calls (e : InstallWeather) (w : World) (m : InstallManifest)
    (bundled : Bool) (r : Registration) (log : List LogStep) :
    World.Calls {r.record.key} w (finishInstall e w m bundled r log).world := by
  have hr : Within {r.record.key} r.record := .inl rfl
  unfold finishInstall
  cases runValidate m bundled e.validate with
  | some err =>
      obtain ⟨w₁, record, hw₁, h₁⟩ := (World.Calls.refl w).setFailure
        (e.fault .recordInstallFailure) hr .installFailed (classifyValidationError err) err.error
      simp only [hw₁]
      exact h₁
  | none =>
      obtain ⟨w₁, record, err, hw₁, h₁, -⟩ := (World.Calls.refl w).setState
        (e.fault .markInstalled) hr .installed
      simp only [hw₁]
      cases err with
      | some err => exact h₁
      | none => exact h₁

/-- An install that got to the registration stored what it was given. -/
theorem installUnlocked_stored (I : Installer) (e : InstallWeather) (w : World)
    (input : InstallInput) (c : Checked)
    (h : .ok "registry" ∈ (I.installUnlocked e w input c).log) :
    ∃ q, (I.installUnlocked e w input c).world.registry.find c.manifest.id c.manifest.version =
        some q ∧
      q.stored = ⟨c.manifestJSON, I.digest input.content, input.provenance.getD "upload",
        if input.permissionsAck then some e.now else none⟩ := by
  have hchecked : LogStep.ok "registry" ∉ checkedLog := by decide
  unfold Installer.installUnlocked at h ⊢
  cases hdir : safePluginDir I.storageDir c.manifest.id c.manifest.version with
  | error err =>
      rw [hdir] at h
      exact absurd h hchecked
  | ok dir =>
  simp only [hdir] at h ⊢
  cases hexisting : existingCheck (e.fault .findExisting) w.registry
      (c.manifest.id, c.manifest.version) (isBundledInstall input) with
  | some err =>
      rw [hexisting] at h
      exact absurd h hchecked
  | none =>
  simp only [hexisting] at h ⊢
  cases hstore : storeArtifact e with
  | some err =>
      rw [hstore] at h
      exact absurd h hchecked
  | none =>
  simp only [hstore] at h ⊢
  set r := c.registration (I.digest input.content)
    (Terminal.joinPath dir (I.digest input.content ++ ".artifact").toList) input e.now with hr
  rcases hw : w.createOrRetryInstall (e.fault .createOrRetryInstall) r with ⟨w', err⟩
  simp only [hw] at h ⊢
  cases err with
  | some err =>
      have hlog : LogStep.ok "registry" ∉ checkedLog ++ [.ok "extract"] := by decide
      exact absurd h hlog
  | none =>
      obtain ⟨p, hp, hstored⟩ := createOrRetryInstall_stored hw
      have hcalls := finishInstall_calls e w' c.manifest (isBundledInstall input) r
        (checkedLog ++ [.ok "extract"] ++ [.ok "registry"])
      have hcolumns := hcalls.stored_eq r.record.key
      rw [hp, Option.map_some] at hcolumns
      obtain ⟨q, hq, hqp⟩ := Option.map_eq_some_iff.mp hcolumns
      exact ⟨q, hq, hqp.trans hstored⟩

theorem install_stored (I : Installer) (e : InstallWeather) (w : World) (input : InstallInput)
    (c : Checked) (hcheck : I.check input = .ok c)
    (h : .ok "registry" ∈ (I.install e w input).log) :
    ∃ q, (I.install e w input).world.registry.find c.manifest.id c.manifest.version = some q ∧
      q.stored = ⟨c.manifestJSON, I.digest input.content, input.provenance.getD "upload",
        if input.permissionsAck then some e.now else none⟩ := by
  unfold Installer.install at h ⊢
  simp only [hcheck] at h ⊢
  by_cases hlock : c.manifest.id ∈ w.locks
  · have hlog : LogStep.ok "registry" ∉ checkedLog := by decide
    rw [if_pos hlock] at h
    exact absurd h hlog
  · rw [if_neg hlock] at h ⊢
    exact installUnlocked_stored I e _ input c h

theorem Installer.StoredBy.of_stored {I : Installer} {p q : PluginVersion} {i : InstallRecord}
    (h : I.StoredBy p i) (hstored : q.stored = p.stored) : I.StoredBy q i := by
  obtain ⟨hjson, hdigest, hsource, hack⟩ := StoredArtifact.mk.inj hstored
  refine ⟨?_, hdigest.trans h.digest, hsource.trans h.source, hack.trans h.ack⟩
  rw [hjson]
  exact h.manifest

/-- Each row is what the last install of its version stored, and the started versions
passed the check of `Enable`. -/
structure Traced.Sound (I : Installer) (t : Traced) : Prop where
  stored : ∀ (k : Key) p, t.world.registry.find k.1 k.2 = some p →
    ∃ i, t.storing k = some i ∧ I.StoredBy p i
  acks : t.world.AcksHeld I.service

theorem fresh_sound (I : Installer) (configs : List PluginConfig) :
    (Traced.fresh configs).Sound I := by
  constructor
  · intro k p hp
    cases hp
  · intro k p hp
    cases hp

namespace Traced.Sound
variable {I : Installer} {t : Traced}

theorem operate (ht : t.Sound I) {w : World} (h : World.KeepsAcks I.service t.world w) :
    Traced.Sound I { t with world := w } := by
  refine ⟨?_, h.acks ht.acks⟩
  intro k q hq
  obtain ⟨p, hp, hstored⟩ := exists_of_stored_eq (h.stored k) hq
  obtain ⟨i, hi, hby⟩ := ht.stored k p hp
  exact ⟨i, hi, hby.of_stored hstored⟩

theorem install (ht : t.Sound I) (e : InstallWeather) (input : InstallInput) :
    Traced.Sound I (t.install I e input).1 := by
  rcases install_cases I e t.world input with ⟨hreg, -, hlog⟩ |
    ⟨c, hcheck, q, hm, -, hlog, -, hafter⟩
  · have hsame : (t.install I e input).1 = ⟨(I.install e t.world input).world, t.installs⟩ := by
      simp only [Traced.install]
      cases I.check input with
      | error err => rfl
      | ok c => simp only [hlog, if_false]
    rw [hsame]
    exact ht.operate (keepsAcks_of_registry hreg)
  · have hnew : (t.install I e input).1 = ⟨(I.install e t.world input).world,
        ⟨(c.manifest.id, c.manifest.version), input, e.now⟩ :: t.installs⟩ := by
      simp only [Traced.install, hcheck, hlog, if_true]
    obtain ⟨q', hq', hstored⟩ := install_stored I e t.world input c hcheck hlog
    rw [hnew]
    constructor
    · intro k p hp
      by_cases hk : k = (c.manifest.id, c.manifest.version)
      · subst hk
        rw [hq', Option.some.injEq] at hp
        subst hp
        obtain ⟨hjson, hdigest, hsource, hack⟩ := StoredArtifact.mk.inj hstored
        refine ⟨_, List.find?_cons_of_pos (by simp), ⟨c, hcheck, hjson.symm⟩, hdigest, hsource,
          hack⟩
      · have hp' := (hm.find_other k hk).symm.trans hp
        obtain ⟨i, hi, hby⟩ := ht.stored k p hp'
        refine ⟨i, ?_, hby⟩
        rw [Traced.storing, List.find?_cons_of_neg (by simpa using Ne.symm hk)]
        exact hi
    · intro k p hp hstarted
      by_cases hk : k = (c.manifest.id, c.manifest.version)
      · subst hk
        rw [hm.find_eq, Option.some.injEq] at hp
        subst hp
        rcases hafter with h | h | ⟨h, -⟩ <;> rw [h] at hstarted <;> cases hstarted
      · exact ht.acks k p ((hm.find_other k hk).symm.trans hp) hstarted

end Traced.Sound

section
variable {H : PluginHost} {t : Traced}

theorem seedBundledEntry_sound (ht : t.Sound H.installer) (files : BundledFiles)
    (e : SeedWeather) (entry : BundledEntry) (force : Bool) :
    (H.seedBundledEntry files e t entry force).1.Sound H.installer := by
  unfold PluginHost.seedBundledEntry
  cases files.loadArtifact entry with
  | error err => exact ht
  | ok content =>
  cases hparse : H.installer.parseManifest content with
  | error err => simpa only [hparse] using ht
  | ok parsed =>
      simp only [hparse]
      split_ifs with hseed
      · have hinstall := ht.install e.install (bundledInput entry content)
        rcases hanswer : t.install H.installer e.install (bundledInput entry content) with
          ⟨t', record, err⟩
        rw [hanswer] at hinstall
        cases err with
        | some err => exact hinstall
        | none => exact hinstall
      · exact ht

theorem seedEntries_sound (ht : t.Sound H.installer) (files : BundledFiles)
    (seed : ℕ → SeedWeather) (n : ℕ) (entries : List BundledEntry) :
    (H.seedEntries files seed n entries t).Sound H.installer := by
  induction entries generalizing n t with
  | nil => exact ht
  | cons entry entries ih => exact ih (seedBundledEntry_sound ht files (seed n) entry false) (n + 1)

theorem autoEnable_sound (ht : t.Sound H.installer) (fault : Option String) (F : Faults)
    (entry : BundledEntry) : (H.autoEnable fault F t entry).Sound H.installer := by
  unfold PluginHost.autoEnable
  cases fault with
  | some e => exact ht
  | none =>
      cases hlist : t.world.registry.listInstallable entry.pluginID with
      | nil => exact ht
      | cons first rest =>
          dsimp only
          split_ifs with hstate
          · exact ht
          · exact ht.operate (perform_keepsAcks _)

theorem autoEnableEntries_sound (ht : t.Sound H.installer)
    (enable : ℕ → Option String × Faults) (n : ℕ) (entries : List BundledEntry) :
    (H.autoEnableEntries enable n entries t).Sound H.installer := by
  induction entries generalizing n t with
  | nil => exact ht
  | cons entry entries ih => exact ih (autoEnable_sound ht _ _ entry) (n + 1)

theorem seedBundled_sound (ht : t.Sound H.installer) (files : BundledFiles)
    (seed : ℕ → SeedWeather) (enable : ℕ → Option String × Faults) :
    (H.seedBundled files seed enable t).1.Sound H.installer := by
  unfold PluginHost.seedBundled
  by_cases hoff : ¬ H.bundledEnabled ∨ ¬ H.configured
  · rw [if_pos hoff]
    exact ht
  · rw [if_neg hoff]
    cases files.loadIndex with
    | error err => exact ht
    | ok index =>
        have hseeded := seedEntries_sound ht files seed 0 index
        dsimp only
        split_ifs
        · exact autoEnableEntries_sound hseeded enable 0 index
        · exact hseeded

theorem restoreBundled_sound (ht : t.Sound H.installer) (files : BundledFiles) (e : SeedWeather)
    (pluginID : String) : (H.restoreBundled files e t pluginID).1.Sound H.installer := by
  unfold PluginHost.restoreBundled
  by_cases hoff : ¬ H.configured
  · rw [if_pos hoff]
    exact ht
  · rw [if_neg hoff]
    cases files.loadIndex with
    | error err => exact ht
    | ok index =>
        cases hfind : index.find? fun entry => entry.pluginID = pluginID with
        | none => simpa only [hfind] using ht
        | some entry =>
            simp only [hfind]
            by_cases hrestorable : ¬ entry.restorable
            · rw [if_pos hrestorable]
              exact ht
            · rw [if_neg hrestorable]
              exact seedBundledEntry_sound ht files e entry true

theorem step_sound {u : Traced} {a : PluginAct} (ht : t.Sound H.installer)
    (hu : H.step t a = some u) : u.Sound H.installer := by
  cases a with
  | operation F op =>
      obtain rfl := Option.some.inj hu
      exact ht.operate (perform_keepsAcks op)
  | install e input =>
      obtain rfl := Option.some.inj hu
      exact ht.install e input
  | restoreBundled files e pluginID =>
      obtain rfl := Option.some.inj hu
      exact restoreBundled_sound ht files e pluginID
  | seedBundled files seed enable =>
      obtain rfl := Option.some.inj hu
      exact seedBundled_sound ht files seed enable

end

/-- What an install with a provenance of its own has checked. -/
theorem check_ok {I : Installer} {input : InstallInput} {c : Checked}
    (h : I.check input = .ok c) :
    I.parseManifest input.content = .ok (c.manifest, c.manifestJSON) ∧
      ∀ source, input.provenance = some source → source ≠ bundledSourceType →
        needsPermissionAck c.manifest.toManifest = true → input.permissionsAck = true := by
  unfold Installer.check at h
  split at h
  · cases h
  dsimp only at h
  split at h
  · cases h
  split at h
  · cases h
  next m json hparse =>
  split at h
  · cases h
  split at h
  · cases h
  split at h
  · cases h
  split at h
  · cases h
  next hack =>
  rw [Except.ok.injEq] at h
  subst h
  refine ⟨hparse, ?_⟩
  intro source hsource hne hneeds
  by_contra hno
  exact hack ⟨by simp [hsource, hne], hneeds, hno⟩

/-- A sound world needs no more than that a stored manifest reads as it did when it
was installed. -/
theorem Traced.Sound.acknowledged {I : Installer} {t : Traced} (ht : t.Sound I)
    (hparse : ∀ content m json, I.parseManifest content = .ok (m, json) →
      I.service.manifestFromJSON json = m.toManifest) : t.Acknowledged I := by
  intro p hp hstate hasks
  have hfind := Registry.find_of_mem hp
  obtain ⟨i, hi, hby⟩ := ht.stored p.key p hfind
  have hack : p.permissionsAckAt ≠ none := by
    by_cases hsource : p.sourceType = ""
    · -- a provenance without a source type was checked when it was installed
      obtain ⟨c, hcheck, hjson⟩ := hby.manifest
      obtain ⟨hparsed, hremote⟩ := check_ok hcheck
      have hgiven := hby.source
      rw [hsource] at hgiven
      have hprovenance : i.input.provenance = some "" := by
        cases hp : i.input.provenance with
        | none => simp [hp] at hgiven
        | some source => simpa [hp] using hgiven.symm
      have hneeds := hasks.2
      rw [Service.manifestFromRecord, ← hjson, hparse _ _ _ hparsed] at hneeds
      rw [hby.ack, if_pos (hremote "" hprovenance (by decide) hneeds)]
      simp
    · refine ht.acks p.key p hfind ?_ hsource hasks
      rcases hstate with h | h <;> rw [h] <;> rfl
  have hflag : i.input.permissionsAck = true := by
    by_contra hno
    rw [hby.ack, if_neg hno] at hack
    exact hack rfl
  exact ⟨i, hi, hby, hflag, by rw [hby.ack, if_pos hflag]⟩

/-- No version that needs an acknowledgement runs without the one given with the
install of its manifest and artifact. -/
theorem started_plugins_acknowledged (H : PluginHost)
    (hparse : ∀ content m json, H.installer.parseManifest content = .ok (m, json) →
      H.installer.service.manifestFromJSON json = m.toManifest)
    (configs : List PluginConfig) (actions : List PluginAct) :
    Along H.step (Traced.Acknowledged H.installer) (Traced.fresh configs) actions := by
  have hrun : ∀ (t : Traced), t.Sound H.installer →
      Along H.step (Traced.Sound H.installer) t actions := by
    induction actions with
    | nil => exact fun t ht => ht
    | cons a actions ih => exact fun t ht => ⟨ht, fun u hu => ih u (step_sound ht hu)⟩
  exact (hrun _ (fresh_sound H.installer configs)).mono fun _ ht => ht.acknowledged hparse

/-- The plugin of the other demonstrations, with a hook. -/
def hookManifest : InstallManifest := { demoManifest with hooks := ["site.saved"] }

def hookHost : PluginHost where
  installer :=
    { demoInstaller with
      service := { demoInstaller.service with manifestFromJSON := fun _ => hookManifest.toManifest }
      parseManifest := fun _ => .ok (hookManifest, "{}") }
  configured := false
  bundledEnabled := false
  bundledAutoEnable := false
  appEnv := "production"

/-- An install from a URL. -/
def remoteInput (permissionsAck : Bool) : InstallInput := ⟨[0], "", some "url", permissionsAck⟩

/-- Refused without an acknowledgement, installed with one, and enabled. -/
def remoteActs : List PluginAct :=
  [.install (demoInstallWeather none) (remoteInput false),
    .install (demoInstallWeather none) (remoteInput true),
    .operation (fun _ => none) (.enable "acme/demo" "1.0.0")]

theorem remote_plugin_acknowledged :
    ∃ t, run hookHost.step (Traced.fresh []) remoteActs = some t ∧
      t.world.stateOf ("acme/demo", "1.0.0") = some .enabled ∧ t.Acknowledged hookHost.installer := by
  have hparse : ∀ content m json, hookHost.installer.parseManifest content = .ok (m, json) →
      hookHost.installer.service.manifestFromJSON json = m.toManifest := by
    intro content m json h
    obtain ⟨rfl, -⟩ := Prod.mk.inj (Except.ok.inj h)
    rfl
  exact ⟨_, rfl, by decide,
    (started_plugins_acknowledged hookHost hparse [] remoteActs).last rfl⟩

end GoSite.Plugin
