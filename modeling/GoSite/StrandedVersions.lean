import GoSite.GuardedRuns
import GoSite.HealthSupervisor
import GoSite.LockedOperations

/-!
# Versions that are stranded

An operation writes a state like `enabling` before its side effects, and only its own code
leads out of it. A version that is left in such a state by a crash or by a write that failed
stays as it is: no later operation, no tick of the supervisor, no seeding and no `Reconcile`
after a restart changes its row, in whatever order they make their calls and whatever fails.
-/
namespace GoSite.Plugin
open GoStrings Interleaving GuardedRuns

/-- What is asked of the process: by a client, or by its start-up. -/
inductive HostRequest where
  | lifecycle (r : OperationRequest)
  | restore (files : BundledFiles) (e : InstallWeather) (pluginID : String)
  | purge (pluginID version : String)
  | reconcile (files : BundledFiles) (seed : ℕ → InstallWeather)

def HostRequest.program (H : PluginHost) : HostRequest → Steps Outcome
  | .lifecycle r => r.program H.installer
  | .restore files e pluginID => do
      let (record, err) ← Steps.restoreBundled H files e pluginID
      return .restored record err
  | .purge pluginID version => do
      return .purged (← Steps.purge H.installer.service pluginID version)
  | .reconcile files seed => do
      return .reconciled (← Steps.reconcile H files seed)

/-- The world after a call. The supervisor goes on with what it has read. -/
def hostAnswer (s : Supervised) (fault : Option String) (c : NamedCall) : Supervised × c.Reply :=
  ({ s with world := (s.world.answer fault c).1 }, (s.world.answer fault c).2)

/-- A process that starts again. Of the world the database is left. -/
def Supervised.restart (s : Supervised) : Supervised :=
  .init { s.world with running := [], targets := [], locks := [] }

section
variable {ι : Type} [DecidableEq ι]

/-- The process and the requests under way. -/
abbrev HostPool (ι : Type) := Pool Supervised ι NamedCall NamedCall.Reply Outcome

/-- A request begins or makes its next call, the supervisor gets an answer, or the process
dies and is started again. -/
inductive HostAction (ι : Type) where
  | start (client : ι) (r : HostRequest)
  | call (client : ι) (fault : Option String)
  | supervise (input : SupervisorInput)
  | crash

def hostStep (H : PluginHost) (cfg : SupervisorConfig) (s : HostPool ι) :
    HostAction ι → Option (HostPool ι)
  | .start client r => s.start client (r.program H)
  | .call client fault => s.call hostAnswer client fault
  | .supervise input =>
      (supervisorStep cfg s.shared input).map fun shared => { s with shared }
  | .crash => some ⟨s.shared.restart, fun _ => .done .idle⟩

end

/-- The version has the row, and the supervisor does not take it for enabled. -/
structure Supervised.Stranded (s : Supervised) (key : Key) (row : PluginVersion) : Prop where
  find_eq : s.world.registry.find key.1 key.2 = some row
  unheld : ∀ p ∈ s.phase.held, p.key ≠ key

section
variable {key : Key} {row : PluginVersion} {α : Type}

/-- The program leaves the row as it is, and returns what it should. -/
abbrev Spares (key : Key) (row : PluginVersion) (post : α → Prop) (p : Steps α) : Prop :=
  p.Safe hostAnswer (·.Stranded key row) post

abbrev Leaves (key : Key) (row : PluginVersion) (p : Steps α) : Prop :=
  Spares key row (fun _ => True) p

/-- A record that was read while the version had the row. -/
def Honest (key : Key) (row record : PluginVersion) : Prop := record.key = key → record = row

theorem Honest.ne {record : PluginVersion} (h : Honest key row record)
    (hrow : row.state.transitional = true) (hstate : record.state.transitional = false) :
    record.key ≠ key := by
  intro hkey
  rw [h hkey, hrow] at hstate
  cases hstate

theorem honest_of_mem {g : Registry} {record : PluginVersion}
    (h : g.find key.1 key.2 = some row) (hrecord : record ∈ g.rows) : Honest key row record := by
  rintro rfl
  exact Option.some.inj ((Registry.find_of_mem hrecord).symm.trans h)

/-- A call on any world that has the row. -/
theorem spares_call {c : NamedCall} {post : c.Reply → Prop}
    (h : ∀ (w : World) fault, w.registry.find key.1 key.2 = some row →
      (w.answer fault c).1.registry.find key.1 key.2 = some row ∧ post (w.answer fault c).2) :
    Spares key row post (request c) :=
  fun s hs fault => ⟨⟨(h s.world fault hs.find_eq).1, hs.unheld⟩,
    (h s.world fault hs.find_eq).2⟩

/-- Calls that touch no row. -/
theorem spares_quiet {site : CallSite} {c : ServiceCall} (hc : c.IsQuiet) :
    Leaves key row (request ⟨site, c⟩) :=
  spares_call fun w fault hrow => ⟨by rw [(answer_quiet hc site w fault).1, hrow], trivial⟩

/-- A write returns the row that it has written, or none. -/
theorem write_reply (w : World) (fault : Option String) (context : String) (k : Key)
    (state : PluginState) (fc fm : String) :
    (w.write fault context k state fc fm).2.1 = .zero ∨
      (w.write fault context k state fc fm).2.1.key = k := by
  unfold World.write
  cases fault with
  | some e => exact .inl rfl
  | none =>
  cases w.registry.update k state fc fm with
  | none => exact .inl rfl
  | some g =>
  cases hrow : g.find k.1 k.2 with
  | none =>
      simp only [hrow]
      exact .inl trivial
  | some p =>
      simp only [hrow]
      exact .inr (Registry.find_key hrow)

theorem zero_key_ne {g : Registry} (h : g.find key.1 key.2 = some row) :
    PluginVersion.zero.key ≠ key := by
  rintro rfl
  rw [Registry.find_zero] at h
  cases h

/-- A write to another version, and the row that it returns. -/
theorem spares_write {site : CallSite} {context : String} {k : Key} {state : PluginState}
    {fc fm : String} (hk : k ≠ key) :
    Spares key row (fun r : PluginVersion × Option String => r.1.key ≠ key)
      (request (NamedCall.mk site (.write context k state fc fm))) := by
  refine spares_call fun w fault hrow => ⟨?_, ?_⟩
  · obtain hsame | ⟨hkey, -⟩ := write_find w fault context k key state fc fm
    · exact hsame.trans hrow
    · exact absurd hkey.symm hk
  · obtain hzero | hkey := write_reply w fault context k state fc fm
    · show (w.write fault context k state fc fm).2.1.key ≠ key
      rw [hzero]
      exact zero_key_ne hrow
    · show (w.write fault context k state fc fm).2.1.key ≠ key
      rwa [hkey]

theorem spares_setState {site : Call} {record : PluginVersion} {state : PluginState}
    (hrecord : record.key ≠ key) :
    Spares key row (fun r => r.1.key ≠ key) (Steps.setState site record state) :=
  spares_write hrecord

theorem spares_setFailure {site : Call} {record : PluginVersion} {state : PluginState}
    {fc fm : String} (hrecord : record.key ≠ key) :
    Spares key row (fun failed => failed.key ≠ key)
      (Steps.setFailure site record state fc fm) :=
  (spares_write hrecord).bind fun _ hr => hr

theorem spares_listEnabled {site : CallSite} :
    Leaves key row (request ⟨site, .listEnabled⟩) :=
  spares_call fun _ _ hrow => ⟨hrow, trivial⟩

theorem spares_refresh {plugins : List PluginVersion} :
    Leaves key row (call (.refresh plugins)) :=
  spares_call fun _ _ hrow => ⟨hrow, trivial⟩

theorem spares_disableHooks {site : CallSite} {record : PluginVersion} :
    Leaves key row (request ⟨site, .disableHooks record⟩) :=
  spares_call fun _ fault hrow => ⟨by cases fault <;> exact hrow, trivial⟩

theorem spares_refreshEnabled {site : Call} :
    Leaves key row (Steps.refreshEnabled site) := by
  refine spares_listEnabled.bind fun reply _ => ?_
  cases reply with
  | error e => trivial
  | ok enabled => exact spares_refresh.bind fun _ _ => trivial

/-- A version that is read, as long as it was read. -/
theorem spares_find {site : CallSite} {k : Key} :
    Spares key row (fun reply : Except String (Option PluginVersion) =>
      ∀ record, reply = .ok (some record) → Honest key row record)
      (request (NamedCall.mk site (.find k))) := by
  refine spares_call fun w fault hrow => ⟨hrow, ?_⟩
  rintro record hreply
  cases fault with
  | some e => cases hreply
  | none => exact honest_of_mem hrow (Registry.find_mem (k := k) (Except.ok.inj hreply))

theorem spares_findEnabled {site : CallSite} {pluginID : String} :
    Spares key row (fun reply : Except String (Option PluginVersion) =>
      ∀ record, reply = .ok (some record) → Honest key row record ∧ record.state = .enabled)
      (request (NamedCall.mk site (.findEnabled pluginID))) := by
  refine spares_call fun w fault hrow => ⟨hrow, ?_⟩
  rintro record hreply
  cases fault with
  | some e => cases hreply
  | none =>
      obtain ⟨-, henabled, hfind⟩ := Registry.findEnabled_spec (Except.ok.inj hreply)
      exact ⟨honest_of_mem hrow (Registry.find_mem (k := record.key) hfind), henabled⟩

theorem spares_list {site : CallSite} :
    Spares key row (fun reply : Except String (List PluginVersion) =>
      ∀ records, reply = .ok records → ∀ record ∈ records, Honest key row record)
      (request (NamedCall.mk site .list)) := by
  refine spares_call fun w fault hrow => ⟨hrow, ?_⟩
  rintro records hreply
  cases fault with
  | some e => cases hreply
  | none =>
      obtain rfl := Except.ok.inj hreply
      exact fun record hrecord => honest_of_mem hrow hrecord

theorem spares_listInstallable {site : CallSite} {pluginID : String} :
    Spares key row (fun reply : Except String (List PluginVersion) =>
      ∀ records, reply = .ok records → ∀ record ∈ records, Honest key row record)
      (request (NamedCall.mk site (.listInstallable pluginID))) := by
  refine spares_call fun w fault hrow => ⟨hrow, ?_⟩
  rintro records hreply
  cases fault with
  | some e => cases hreply
  | none =>
      obtain rfl := Except.ok.inj hreply
      refine fun record hrecord => honest_of_mem hrow ?_
      rw [Registry.listInstallable, List.mem_mergeSort] at hrecord
      exact List.mem_of_mem_filter hrecord

/-- Taking the lock and giving it back. -/
theorem spares_tryAcquire {pluginID : String} :
    Leaves key row (call (.tryAcquire pluginID)) :=
  spares_call fun w fault hrow => ⟨by
    unfold World.answer
    dsimp only
    split_ifs <;> exact hrow, trivial⟩

theorem spares_release {pluginID : String} :
    Leaves key row (call (.release pluginID)) :=
  spares_call fun _ _ hrow => ⟨hrow, trivial⟩

end

/-! ## The operations -/

section
variable {key : Key} {row : PluginVersion}

theorem spares_enableStop {record : PluginVersion}
    {after : Steps (PluginVersion × Option AppError)} (hrecord : record.key ≠ key)
    (hafter : Leaves key row after) :
    Leaves key row (Steps.enableStop record after) := by
  refine (spares_quiet (by trivial)).bind fun stopErr _ => ?_
  cases stopErr with
  | some e => exact (spares_setFailure hrecord).bind fun _ _ => trivial
  | none => exact hafter

theorem spares_enableRecord {record : PluginVersion} (hrecord : record.key ≠ key) :
    Leaves key row (Steps.enableRecord record) := by
  refine (spares_setState hrecord).bind fun ⟨record, err⟩ hrecord => ?_
  cases err with
  | some e => trivial
  | none =>
  refine (spares_quiet (by trivial)).bind fun err _ => ?_
  cases err with
  | some e => exact (spares_setFailure hrecord).bind fun _ _ => trivial
  | none =>
  refine (spares_setState hrecord).bind fun ⟨record, err⟩ hrecord => ?_
  cases err with
  | some e =>
      exact spares_enableStop hrecord ((spares_setFailure hrecord).bind fun _ _ => trivial)
  | none =>
  refine spares_refreshEnabled.bind fun err _ => ?_
  cases err with
  | some e =>
      refine spares_enableStop hrecord ((spares_setFailure hrecord).bind fun _ _ => ?_)
      exact spares_refreshEnabled.bind fun _ _ => trivial
  | none => exact (spares_quiet (by trivial)).bind fun _ _ => trivial

theorem spares_disableRecord {record : PluginVersion} (hrecord : record.key ≠ key) :
    Leaves key row (Steps.disableRecord record) := by
  refine (spares_setState hrecord).bind fun ⟨record, err⟩ hrecord => ?_
  cases err with
  | some e => trivial
  | none =>
  refine spares_disableHooks.bind fun err _ => ?_
  cases err with
  | some e => exact (spares_setFailure hrecord).bind fun _ _ => trivial
  | none =>
  refine (spares_quiet (by trivial)).bind fun err _ => ?_
  cases err with
  | some e =>
      refine (spares_setFailure hrecord).bind fun failed _ => ?_
      refine spares_refreshEnabled.bind fun err _ => ?_
      cases err with
      | some r => exact (spares_setFailure hrecord).bind fun _ _ => trivial
      | none => trivial
  | none =>
  refine (spares_setState hrecord).bind fun ⟨record, err⟩ hrecord => ?_
  cases err with
  | some e => exact (spares_setFailure hrecord).bind fun _ _ => trivial
  | none =>
  refine spares_refreshEnabled.bind fun err _ => ?_
  cases err with
  | some e => exact (spares_setFailure hrecord).bind fun _ _ => trivial
  | none => trivial

theorem spares_findForEnable (pluginID version : String) :
    Spares key row (fun reply => ∀ record, reply = .ok record → Honest key row record)
      (Steps.findForEnable pluginID version) := by
  unfold Steps.findForEnable
  split
  · refine spares_listInstallable.bind fun reply hreply => ?_
    cases reply with
    | error e => exact fun _ h => nomatch h
    | ok records =>
        dsimp only
        cases hhead : (records.mergeSort fun a b =>
          compareSemver a.version b.version ≥ 0).head? with
        | none => exact fun _ h => nomatch h
        | some record =>
            rintro _ ⟨⟩
            refine hreply records rfl record ?_
            exact (List.mem_mergeSort ..).mp (List.mem_of_mem_head? hhead)
  · refine spares_find.bind fun reply hreply => ?_
    cases reply with
    | error e => exact fun _ h => nomatch h
    | ok found =>
        cases found with
        | none => exact fun _ h => nomatch h
        | some record =>
            rintro _ ⟨⟩
            exact hreply record rfl

-- What follows uses the lemma above and never looks inside the lookup.
attribute [local irreducible] Steps.findForEnable

theorem spares_uninstallRecord {pluginID : String} {record : PluginVersion}
    (hrecord : record.key ≠ key) :
    Leaves key row (Steps.uninstallRecord pluginID record) := by
  refine (spares_setState hrecord).bind fun ⟨record, err⟩ hrecord => ?_
  cases err with
  | some e => trivial
  | none =>
  refine (spares_quiet (by trivial)).bind fun err _ => ?_
  cases err with
  | some e => exact (spares_setFailure hrecord).bind fun _ _ => trivial
  | none =>
  refine (spares_quiet (by trivial)).bind fun err _ => ?_
  cases err with
  | some e => exact (spares_setFailure hrecord).bind fun _ _ => trivial
  | none =>
  refine (spares_write hrecord).bind fun ⟨record, err⟩ _ => ?_
  cases err with
  | some e => trivial
  | none =>
  refine (show Leaves key row (Steps.pluginHasRemainingVersions pluginID) from
    spares_list.bind fun reply _ => by cases reply <;> trivial).bind fun remaining _ => ?_
  cases remaining with
  | true => trivial
  | false => exact (spares_quiet (by trivial)).bind fun _ _ => trivial

theorem spares_currentConfig (s : Service) (current : PluginVersion) :
    Leaves key row (Steps.currentConfig s current) := by
  unfold Steps.currentConfig
  split_ifs with hrepo
  · refine (spares_quiet (by trivial)).bind fun reply _ => ?_
    cases reply with
    | error e => trivial
    | ok cfg => cases cfg <;> trivial
  · trivial

variable (hrow : row.state.transitional = true)
include hrow

theorem spares_disableUnlocked (pluginID : String) :
    Leaves key row (Steps.disableUnlocked pluginID) := by
  refine spares_findEnabled.bind fun reply hreply => ?_
  cases reply with
  | error e => trivial
  | ok found =>
      cases found with
      | none => trivial
      | some record =>
          obtain ⟨hhonest, henabled⟩ := hreply record rfl
          exact spares_disableRecord (hhonest.ne hrow (by rw [henabled]; rfl))

theorem spares_enableUnlocked (s : Service) (pluginID version : String) :
    Leaves key row (Steps.enableUnlocked s pluginID version) := by
  refine (spares_findForEnable pluginID version).bind fun reply hreply => ?_
  cases reply with
  | error e => trivial
  | ok record =>
      dsimp only
      cases hcheck : s.enableCheck record with
      | some e => trivial
      | none =>
          refine spares_enableRecord ((hreply record rfl).ne hrow ?_)
          obtain hstate | hstate := enableCheck_state hcheck <;> rw [hstate] <;> rfl

theorem spares_disableThenEnable (s : Service) (pluginID version : String) :
    Leaves key row (Steps.disableThenEnable s pluginID version) := by
  refine (spares_disableUnlocked hrow pluginID).bind fun ⟨_, err⟩ _ => ?_
  cases err with
  | some e => trivial
  | none => exact spares_enableUnlocked hrow s pluginID version

theorem spares_switchRecord {s : Service} {pluginID version : String}
    {current target : PluginVersion} (htarget : target.key ≠ key) :
    Leaves key row (Steps.switchRecord s pluginID version current target) := by
  refine (spares_currentConfig s current).bind fun reply _ => ?_
  cases reply with
  | error e => trivial
  | ok config =>
      dsimp only
      cases s.migrate current config target with
      | error e => exact (spares_setFailure htarget).bind fun _ _ => trivial
      | ok result =>
          dsimp only
          split_ifs with hok hconfig
          · refine (spares_quiet (by trivial)).bind fun err _ => ?_
            cases err with
            | some e => trivial
            | none => exact spares_disableThenEnable hrow s pluginID version
          · exact spares_disableThenEnable hrow s pluginID version
          · exact (spares_setFailure htarget).bind fun _ _ => trivial

theorem spares_switchUnlocked (s : Service) (pluginID version : String) :
    Leaves key row (Steps.switchUnlocked s pluginID version) := by
  refine spares_findEnabled.bind fun reply hreply => ?_
  cases reply with
  | error e => trivial
  | ok found =>
  cases found with
  | none => exact spares_enableUnlocked hrow s pluginID version
  | some current =>
      dsimp only
      split_ifs with hversion
      · trivial
      · refine spares_find.bind fun reply hreply => ?_
        cases reply with
        | error e => trivial
        | ok found =>
        cases found with
        | none => trivial
        | some target =>
            dsimp only
            cases hcheck : s.switchCheck target with
            | some e => trivial
            | none =>
                refine spares_switchRecord hrow ((hreply target rfl).ne hrow ?_)
                obtain hstate | hstate := switchCheck_state hcheck <;> rw [hstate] <;> rfl

theorem spares_uninstallUnlocked (pluginID version : String) :
    Leaves key row (Steps.uninstallUnlocked pluginID version) := by
  refine spares_find.bind fun reply hreply => ?_
  cases reply with
  | error e => trivial
  | ok found =>
  cases found with
  | none => trivial
  | some record =>
      dsimp only
      split_ifs with hstable
      · refine spares_uninstallRecord ((hreply record rfl).ne hrow ?_)
        cases hstate : record.state <;> simp_all [stableUninstallState, PluginState.transitional]
      · trivial

theorem spares_unlocked (s : Service) (op : Operation) :
    Leaves key row (Steps.unlocked s op) := by
  cases op with
  | enable pluginID version => exact spares_enableUnlocked hrow s pluginID version
  | disable pluginID => exact spares_disableUnlocked hrow pluginID
  | switchEnabledVersion pluginID version => exact spares_switchUnlocked hrow s pluginID version
  | uninstall pluginID version => exact spares_uninstallUnlocked hrow pluginID version

theorem spares_perform (s : Service) (op : Operation) :
    Leaves key row (Steps.perform s op) := by
  refine spares_tryAcquire.bind fun acquired _ => ?_
  cases acquired with
  | false => trivial
  | true =>
      refine (spares_unlocked hrow s op).bind fun result _ => ?_
      exact spares_release.bind fun _ _ => trivial

end

/-! ## Installing, seeding and start-up -/

section
variable {key : Key} {row : PluginVersion} (hrow : row.state.transitional = true)
include hrow

/-- A version that is stranded is not registered again. -/
theorem spares_createOrRetryInstall {site : CallSite} {r : Registration} :
    Spares key row (fun err : Option AppError => err = none → r.record.key ≠ key)
      (request (NamedCall.mk site (.createOrRetryInstall r))) := by
  refine spares_call fun w fault hfind => ?_
  rcases hreply : w.createOrRetryInstall fault r with ⟨w', err⟩
  have hanswer : w.answer fault ⟨site, .createOrRetryInstall r⟩ = (w', err) := hreply
  rw [hanswer]
  cases err with
  | some e =>
      have hsame := createOrRetryInstall_refused (congrArg Prod.snd hreply)
      rw [hreply] at hsame
      obtain rfl : w' = w := hsame
      exact ⟨hfind, nofun⟩
  | none =>
      obtain ⟨⟨p, hmoves, -⟩, -, hbefore⟩ := createOrRetryInstall_moves hreply
      have hne : r.record.key ≠ key := by
        rintro rfl
        have hstate := hbefore row.state (by rw [World.stateOf, hfind, Option.map_some])
        obtain hstate | hstate := hstate <;> rw [hstate] at hrow <;> cases hrow
      exact ⟨(hmoves.find_other key hne.symm).trans hfind, fun _ => hne⟩

omit hrow in
theorem spares_finishInstall {e : InstallWeather} {m : InstallManifest} {bundled : Bool}
    {r : Registration} (hr : r.record.key ≠ key) :
    Leaves key row (Steps.finishInstall e m bundled r) := by
  unfold Steps.finishInstall
  cases runValidate m bundled e.validate with
  | some err =>
      refine (spares_write hr).bind fun _ _ => ?_
      exact (spares_quiet (by trivial)).bind fun _ _ => trivial
  | none =>
      refine (spares_write hr).bind fun ⟨_, err⟩ _ => ?_
      cases err with
      | some err => trivial
      | none => exact (spares_quiet (by trivial)).bind fun _ _ => trivial

theorem spares_install (I : Installer) (e : InstallWeather) (input : InstallInput) :
    Leaves key row (Steps.install I e input) := by
  unfold Steps.install
  cases I.check input with
  | error err => trivial
  | ok c =>
  refine spares_tryAcquire.bind fun acquired _ => ?_
  cases acquired with
  | false => trivial
  | true =>
  refine (show Leaves key row (Steps.installUnlocked I e input c) from ?_).bind
    fun _ _ => spares_release.bind fun _ _ => trivial
  unfold Steps.installUnlocked
  cases safePluginDir I.storageDir c.manifest.id c.manifest.version with
  | error err => trivial
  | ok dir =>
  refine (spares_quiet (by trivial)).bind fun reply _ => ?_
  cases reply with
  | error err => trivial
  | ok existing =>
  dsimp only
  cases Steps.existingConflict existing (isBundledInstall input) with
  | some err => trivial
  | none =>
  dsimp only
  cases storeArtifact e with
  | some err => trivial
  | none =>
  refine (spares_createOrRetryInstall hrow).bind fun err hr => ?_
  cases err with
  | some err => trivial
  | none => exact spares_finishInstall (hr rfl)

omit hrow in
theorem spares_shouldSeedBundled {entry : BundledEntry} {existing : Option PluginVersion}
    {digest : String} {force : Bool} :
    Leaves key row (Steps.shouldSeedBundled entry existing digest force) := by
  unfold Steps.shouldSeedBundled
  split_ifs with hforce
  · trivial
  cases existing with
  | none => trivial
  | some existing =>
      dsimp only
      split_ifs
      · trivial
      · trivial
      · trivial
      · unfold Steps.bundledNeedsRestore
        split_ifs
        · refine spares_listInstallable.bind fun reply _ => ?_
          cases reply <;> trivial
        · trivial

theorem spares_seedBundledEntry (H : PluginHost) (files : BundledFiles) (e : InstallWeather)
    (entry : BundledEntry) (force : Bool) :
    Leaves key row (Steps.seedBundledEntry H files e entry force) := by
  unfold Steps.seedBundledEntry
  cases files.loadArtifact entry with
  | error err => trivial
  | ok content =>
  dsimp only
  cases H.installer.parseManifest content with
  | error err => trivial
  | ok parsed =>
  refine spares_find.bind fun reply _ => spares_shouldSeedBundled.bind fun seeds _ => ?_
  cases seeds with
  | false => trivial
  | true =>
      refine (spares_install hrow H.installer e (bundledInput entry content)).bind
        fun ⟨record, err⟩ _ => ?_
      cases err <;> trivial

theorem spares_seedEntries (H : PluginHost) (files : BundledFiles) (seed : ℕ → InstallWeather)
    (n : ℕ) (entries : List BundledEntry) :
    Leaves key row (Steps.seedEntries H files seed n entries) := by
  induction entries generalizing n with
  | nil => trivial
  | cons entry entries ih =>
      exact (spares_seedBundledEntry hrow H files (seed n) entry false).bind fun _ _ => ih (n + 1)

theorem spares_autoEnable (H : PluginHost) (entry : BundledEntry) :
    Leaves key row (Steps.autoEnable H entry) := by
  refine spares_listInstallable.bind fun reply _ => ?_
  cases reply with
  | error e => trivial
  | ok records =>
  cases records with
  | nil => trivial
  | cons first rest =>
      dsimp only
      split_ifs with hstate
      · trivial
      · exact (spares_perform hrow H.installer.service _).bind fun _ _ => trivial

theorem spares_autoEnableEntries (H : PluginHost) (entries : List BundledEntry) :
    Leaves key row (Steps.autoEnableEntries H entries) := by
  induction entries with
  | nil => trivial
  | cons entry entries ih => exact (spares_autoEnable hrow H entry).bind fun _ _ => ih

theorem spares_seedBundled (H : PluginHost) (files : BundledFiles) (seed : ℕ → InstallWeather) :
    Leaves key row (Steps.seedBundled H files seed) := by
  unfold Steps.seedBundled
  by_cases hoff : ¬ H.bundledEnabled ∨ ¬ H.configured
  · rw [if_pos hoff]
    trivial
  rw [if_neg hoff]
  cases files.loadIndex with
  | error err => trivial
  | ok index =>
      refine (spares_seedEntries hrow H files seed 0 index).bind fun _ _ => ?_
      split_ifs with hauto
      · exact (spares_autoEnableEntries hrow H index).bind fun _ _ => trivial
      · trivial

theorem spares_restoreBundled (H : PluginHost) (files : BundledFiles) (e : InstallWeather)
    (pluginID : String) :
    Leaves key row (Steps.restoreBundled H files e pluginID) := by
  unfold Steps.restoreBundled
  by_cases hon : H.configured
  case neg =>
    rw [if_pos hon]
    trivial
  rw [if_neg (not_not_intro hon)]
  cases files.loadIndex with
  | error err => trivial
  | ok index =>
  dsimp only
  cases index.find? fun entry => entry.pluginID = pluginID with
  | none => trivial
  | some entry =>
      dsimp only
      split_ifs with hrestorable
      · exact spares_seedBundledEntry hrow H files e entry true
      · trivial

/-- Only a row that counts as installed is marked uninstalled at start-up. -/
theorem spares_deleteAgain {record : PluginVersion} (hrecord : Honest key row record) :
    Leaves key row (Steps.deleteAgain record) := by
  unfold Steps.deleteAgain
  split_ifs with hfailed
  · refine (spares_quiet (by trivial)).bind fun err _ => ?_
    cases err with
    | some e => trivial
    | none =>
        refine (spares_write (hrecord.ne hrow ?_)).bind fun _ _ => trivial
        rw [hfailed.1]
        rfl
  · trivial

theorem spares_reconcileRecord {record : PluginVersion} (hrecord : Honest key row record) :
    Leaves key row (Steps.reconcileRecord record) := by
  unfold Steps.reconcileRecord
  split_ifs with hstate
  · exact (spares_quiet (by trivial)).bind fun _ _ => spares_deleteAgain hrow hrecord
  · exact spares_deleteAgain hrow hrecord

theorem spares_reconcile (H : PluginHost) (files : BundledFiles) (seed : ℕ → InstallWeather) :
    Leaves key row (Steps.reconcile H files seed) := by
  refine (spares_seedBundled hrow H files seed).bind fun err _ => ?_
  cases err with
  | some err => trivial
  | none =>
  refine spares_list.bind fun reply hreply => ?_
  cases reply with
  | error e => trivial
  | ok records =>
  refine (show Leaves key row (Steps.reconcileRecords records) from ?_).bind
    fun _ _ => spares_listEnabled.bind fun reply _ => ?_
  · have hhonest := hreply records rfl
    clear hreply
    induction records with
    | nil => trivial
    | cons record records ih =>
        refine (spares_reconcileRecord hrow (hhonest record List.mem_cons_self)).bind fun _ _ => ?_
        exact ih fun p hp => hhonest p (List.mem_cons_of_mem record hp)
  · cases reply with
    | error e => trivial
    | ok enabled => exact spares_refresh.bind fun _ _ => trivial

/-- Only an uninstalled row is purged. -/
theorem spares_deleteUninstalled {site : CallSite} {k : Key} :
    Leaves key row (request (NamedCall.mk site (.deleteUninstalled k))) := by
  refine spares_call fun w fault hfind => ⟨?_, trivial⟩
  cases fault with
  | some e => exact hfind
  | none =>
      have hkey := Registry.find_key hfind
      have hmem : row ∈ (w.registry.deleteUninstalled k).rows := by
        refine List.mem_filter.mpr ⟨Registry.find_mem hfind, decide_eq_true ?_⟩
        rintro ⟨-, hstate⟩
        rw [hstate] at hrow
        cases hrow
      have hfound := Registry.find_of_mem hmem
      rw [← hkey]
      exact hfound

omit hrow in
theorem spares_deleteConfig {site : CallSite} {k : Key} :
    Leaves key row (request (NamedCall.mk site (.deleteConfig k))) :=
  spares_call fun _ fault hfind => ⟨by cases fault <;> exact hfind, trivial⟩

theorem spares_purge (s : Service) (pluginID version : String) :
    Leaves key row (Steps.purge s pluginID version) := by
  refine (spares_deleteUninstalled hrow).bind fun reply _ => ?_
  cases reply with
  | error e => trivial
  | ok removed =>
  cases removed with
  | false => trivial
  | true =>
      dsimp only
      split_ifs with hrepo
      · exact spares_deleteConfig.bind fun _ _ => trivial
      · trivial

theorem spares_program (H : PluginHost) (r : HostRequest) :
    Leaves key row (r.program H) := by
  cases r with
  | lifecycle r =>
      cases r with
      | operate op => exact (spares_perform hrow H.installer.service op).bind fun _ _ => trivial
      | install e input => exact (spares_install hrow H.installer e input).bind fun _ _ => trivial
  | restore files e pluginID =>
      exact (spares_restoreBundled hrow H files e pluginID).bind fun _ _ => trivial
  | purge pluginID version =>
      exact (spares_purge hrow H.installer.service pluginID version).bind fun _ _ => trivial
  | reconcile files seed => exact (spares_reconcile hrow H files seed).bind fun _ _ => trivial

/-- A tick reads only versions that are enabled. -/
theorem stranded_supervise {cfg : SupervisorConfig} {s t : Supervised} {input : SupervisorInput}
    (hs : s.Stranded key row) (ht : supervisorStep cfg s input = some t) :
    t.Stranded key row := by
  obtain ⟨hheld, hworld⟩ := supervisorStep_effect ht
  refine ⟨?_, fun p hp => ?_⟩
  · obtain ⟨fault, -, p, state, fc, fm, hp, -, hwrite⟩ | ⟨-, hreg, -⟩ := hworld
    · rw [hwrite]
      obtain hsame | ⟨hkey, -⟩ :=
        write_find s.world fault "set plugin state" p.key key state fc fm
      · exact hsame.trans hs.find_eq
      · exact absurd hkey.symm (hs.unheld p hp)
    · rw [hreg]
      exact hs.find_eq
  · obtain hsuffix | hlist := hheld
    · exact hs.unheld p (hsuffix.subset hp)
    · rw [hlist] at hp
      rintro rfl
      have henabled := listEnabled_stateOf hp
      rw [World.stateOf, hs.find_eq, Option.map_some, Option.some.injEq] at henabled
      rw [henabled] at hrow
      cases hrow

end

/-- The process died while a version was being enabled. -/
def strandedWorld : World where
  registry := ⟨[{ demoRow with state := .enabling }], by decide, by decide, by decide⟩
  running := []
  targets := []
  configs := []
  locks := []

def demoHost : PluginHost := ⟨demoInstaller, true, true, true, "development"⟩

/-- A restart with its `Reconcile`, one more attempt to enable the version, a tick, and an
uninstall. -/
def laterRun : List (HostAction Bool) :=
  [HostAction.crash, .start false (.reconcile ⟨.ok [], fun _ => .error .artifactsUnavailable⟩
      fun _ => ⟨fun _ => none, none, ⟨none, none, false, "", none⟩, 0⟩)] ++
  List.replicate 4 (HostAction.call false none) ++
  [HostAction.start false (.lifecycle (.operate (.enable "acme/demo" "1.0.0"))),
    .supervise (.list none)] ++
  List.replicate 3 (HostAction.call false none) ++
  [HostAction.start true (.lifecycle (.operate (.uninstall "acme/demo" "1.0.0")))] ++
  List.replicate 3 (HostAction.call true none)

end GoSite.Plugin
