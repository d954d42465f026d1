import GoSite.LockedPool
import GoSite.PluginTargets

/-!
# Operations that hold the lock

From the call that takes the lock of its plugin to the one that gives it back, an operation
leaves the rows of the other plugins alone, and after each call that changes which versions
are enabled it still comes to a refresh of the dispatcher, unless a call fails. This holds
whatever the operations on other plugins do in between.
-/
namespace GoSite.Plugin
open GoStrings Interleaving

/-- The write of a state, a call of the runtime or the dispatcher or a read of the enabled
versions that did what it was to do. Nothing depends on whether another call fails. -/
def NamedCall.Calm : (c : NamedCall) → c.Reply → Prop
  | ⟨_, .write _ _ _ _ _⟩, reply => reply.2 = none
  | ⟨_, .start _⟩, reply => reply = none
  | ⟨_, .stop _⟩, reply => reply = none
  | ⟨_, .disableHooks _⟩, reply => reply = none
  | ⟨_, .listEnabled⟩, reply => ∃ plugins, reply = .ok plugins
  | _, _ => True

/-- A list of versions is given to the dispatcher. -/
def NamedCall.Refreshes (c : NamedCall) : Prop := ∃ plugins, c.call = .refresh plugins

/-- Where no call fails the program comes to a refresh. -/
def RefreshAhead (p : Steps Outcome) : Prop := p.Ahead NamedCall.Refreshes NamedCall.Calm

/-- The enabled versions. -/
def World.enabled (w : World) : Set Key := { k | w.stateOf k = some .enabled }

/-- The list has exactly the enabled versions. -/
def World.Lists (w : World) (plugins : List PluginVersion) : Prop :=
  ∀ k, k ∈ plugins.map PluginVersion.key ↔ k ∈ w.enabled

/-- A call of an operation that holds the lock of the plugin. -/
structure Sound (pluginID : String) (w : World) (fault : Option String) (c : NamedCall)
    (next : c.Reply → Steps Outcome) : Prop where
  frame : ∀ k : Key, k.1 ≠ pluginID →
    (w.answer fault c).1.registry.find k.1 k.2 = w.registry.find k.1 k.2
  lock : (c.call = .release pluginID ∧ ∃ a, next (w.answer fault c).2 = .done a) ∨
    (w.answer fault c).1.locks = w.locks ∧ ∀ a, next (w.answer fault c).2 ≠ .done a
  targets : c.Refreshes ∨ RefreshAhead (next (w.answer fault c).2) ∨
    (w.answer fault c).1.targets = w.targets ∧ (w.answer fault c).1.enabled = w.enabled
  fresh : ∀ site plugins after, next (w.answer fault c).2 = .call ⟨site, .refresh plugins⟩ after →
    (w.answer fault c).1.Lists plugins

/-- No list is at hand for the dispatcher. -/
def NoList (p : Steps Outcome) : Prop :=
  ∀ site plugins after, p ≠ .call ⟨site, .refresh plugins⟩ after

/-- The contract of the lifecycle operations. -/
def soundness : LockContract where
  calm := NamedCall.Calm
  good := Sound
  ready _ _ := True
  apt := NoList
  frame h := h.frame
  lock h := h.lock

/-- The program goes on soundly from every world. -/
abbrev Continues {β : Type} (pluginID : String) (k : β → Steps Outcome) : Prop :=
  ∀ b w, Under soundness pluginID (k b) w

/-- Calls that leave the rows, the targets and the locks as they are. -/
def ServiceCall.IsQuiet : ServiceCall → Prop
  | .find _ | .findEnabled _ | .listInstallable _ | .list | .setInstallLog _ | .start _
  | .stop _ | .removeArtifact | .getConfig _ | .upsertConfig _ | .tokens => True
  | _ => False

theorem answer_quiet {c : ServiceCall} (hc : c.IsQuiet) (site : CallSite) (w : World)
    (fault : Option String) :
    (w.answer fault ⟨site, c⟩).1.registry = w.registry ∧
      (w.answer fault ⟨site, c⟩).1.targets = w.targets ∧
      (w.answer fault ⟨site, c⟩).1.locks = w.locks := by
  cases c with
  | start record => cases fault <;> exact ⟨rfl, rfl, rfl⟩
  | stop record => cases fault <;> exact ⟨rfl, rfl, rfl⟩
  | upsertConfig cfg => cases fault <;> exact ⟨rfl, rfl, rfl⟩
  | find | findEnabled | listInstallable | list | setInstallLog | removeArtifact | getConfig
  | tokens => exact ⟨rfl, rfl, rfl⟩
  | _ => exact hc.elim

theorem World.enabled_of_registry {w w' : World} (h : w'.registry = w.registry) :
    w'.enabled = w.enabled := by
  simp only [World.enabled, World.stateOf, h]

theorem lists_listEnabled (w : World) :
    w.Lists (w.registry.listEnabled.mergeSort refreshOrder) :=
  fun k => mem_targetKeys_refreshEnabled w k

section
variable {pluginID : String} {w : World}

theorem call_ne_done {c : NamedCall} {next : c.Reply → Steps Outcome} (a : Outcome) :
    Program.call c next ≠ .done a :=
  fun h => nomatch h

/-- A call that keeps the lock, with what follows it. -/
theorem under_call {c : NamedCall} {next : c.Reply → Steps Outcome} (hlist : ¬ c.Refreshes)
    (hnext : ∀ t fault, SameRows pluginID w t → c.Calm (t.answer fault c).2 →
      (∀ k : Key, k.1 ≠ pluginID →
        (t.answer fault c).1.registry.find k.1 k.2 = t.registry.find k.1 k.2) ∧
      (t.answer fault c).1.locks = t.locks ∧
      (RefreshAhead (next (t.answer fault c).2) ∨
        (t.answer fault c).1.targets = t.targets ∧ (t.answer fault c).1.enabled = t.enabled) ∧
      Under soundness pluginID (next (t.answer fault c).2) (t.answer fault c).1) :
    Under soundness pluginID (.call c next) w := by
  refine ⟨call_ne_done, ?_, fun t hst fault hcalm => ?_⟩
  · rintro site plugins after heq
    cases heq
    exact hlist ⟨plugins, rfl⟩
  · obtain ⟨hframe, hlocks, htargets, hdone⟩ := hnext t fault hst hcalm
    exact ⟨⟨hframe, .inr ⟨hlocks, hdone.busy⟩, .inr htargets,
      fun site plugins after heq => absurd heq (hdone.apt site plugins after)⟩, hdone.holds⟩

theorem ServiceCall.IsQuiet.not_refreshes {c : ServiceCall} (hc : c.IsQuiet) (site : CallSite) :
    ¬ (NamedCall.mk site c).Refreshes := by
  rintro ⟨plugins, rfl⟩
  exact hc

theorem under_quiet {site : CallSite} {c : ServiceCall}
    {next : (NamedCall.mk site c).Reply → Steps Outcome} (hc : c.IsQuiet)
    (hnext : ∀ t fault, SameRows pluginID w t →
      (NamedCall.mk site c).Calm (t.answer fault ⟨site, c⟩).2 → ∀ u, SameRows pluginID t u →
        Under soundness pluginID (next (t.answer fault ⟨site, c⟩).2) u) :
    Under soundness pluginID (.call ⟨site, c⟩ next) w := by
  refine under_call (hc.not_refreshes site) fun t fault hst hcalm => ?_
  obtain ⟨hreg, htargets, hlocks⟩ := answer_quiet hc site t fault
  exact ⟨fun k _ => by rw [hreg], hlocks, .inr ⟨htargets, World.enabled_of_registry hreg⟩,
    hnext t fault hst hcalm _ fun k _ => by rw [hreg]⟩

/-- A call whose answer does not matter. -/
theorem under_any {site : CallSite} {c : ServiceCall}
    {next : (NamedCall.mk site c).Reply → Steps Outcome} (hc : c.IsQuiet)
    (hnext : ∀ r t, SameRows pluginID w t → Under soundness pluginID (next r) t) :
    Under soundness pluginID (.call ⟨site, c⟩ next) w :=
  under_quiet hc fun _ _ hst _ _ htu => hnext _ _ fun k hk => (htu k hk).trans (hst k hk)

/-- A call of the runtime that does what it was to do. -/
theorem under_start {site : CallSite} {record : PluginVersion}
    {next : (NamedCall.mk site (.start record)).Reply → Steps Outcome}
    (hnext : ∀ t, SameRows pluginID w t → Under soundness pluginID (next none) t) :
    Under soundness pluginID (.call ⟨site, .start record⟩ next) w := by
  refine under_quiet trivial fun t fault hst hcalm u htu => ?_
  have hreply : (t.answer fault ⟨site, .start record⟩).2 = none := hcalm
  rw [hreply]
  exact hnext u fun k hk => (htu k hk).trans (hst k hk)

theorem under_stop {site : CallSite} {record : PluginVersion}
    {next : (NamedCall.mk site (.stop record)).Reply → Steps Outcome}
    (hnext : ∀ t, SameRows pluginID w t → Under soundness pluginID (next none) t) :
    Under soundness pluginID (.call ⟨site, .stop record⟩ next) w := by
  refine under_quiet trivial fun t fault hst hcalm u htu => ?_
  have hreply : (t.answer fault ⟨site, .stop record⟩).2 = none := hcalm
  rw [hreply]
  exact hnext u fun k hk => (htu k hk).trans (hst k hk)

/-- A read of the repository that fails or returns what is there. -/
theorem under_find {site : CallSite} {key : Key}
    {next : (NamedCall.mk site (.find key)).Reply → Steps Outcome} (hkey : key.1 = pluginID)
    (herror : ∀ e t, Under soundness pluginID (next (.error e)) t)
    (hnext : ∀ row t, t.registry.find key.1 key.2 = row →
      Under soundness pluginID (next (.ok row)) t) :
    Under soundness pluginID (.call ⟨site, .find key⟩ next) w := by
  refine under_quiet trivial fun t fault hst _ u htu => ?_
  cases fault with
  | some e => exact herror e u
  | none => exact hnext _ u (htu key hkey)

/-- What a write that went through has done. -/
theorem write_effect {fault : Option String} {context : String} {key : Key}
    {state : PluginState} {fc fm : String}
    (hcalm : (w.write fault context key state fc fm).2.2 = none) :
    (∃ p, w.registry.find key.1 key.2 = some p ∧
      (w.write fault context key state fc fm).2 = (p.withState state fc fm, none) ∧
      World.Moves w (w.write fault context key state fc fm).1 key (p.withState state fc fm)) ∧
    (w.write fault context key state fc fm).1.locks = w.locks := by
  cases fault with
  | some e => cases hcalm
  | none =>
  cases hg : w.registry.update key state fc fm with
  | none => simp [World.write, hg] at hcalm
  | some g =>
  have hfind := Registry.find_update hg
  cases hrow : w.registry.find key.1 key.2 with
  | none =>
      have hnone : g.find key.1 key.2 = none := by rw [hfind key, hrow]; rfl
      simp [World.write, hg, hnone] at hcalm
  | some p =>
      have hsome : g.find key.1 key.2 = some (p.withState state fc fm) := by
        rw [hfind key, hrow]
        simp
      simp only [World.write, hg, hsome]
      refine ⟨⟨p, rfl, rfl, hsome, fun k hk => ?_⟩, trivial⟩
      have hother := hfind k
      simpa only [hk, if_false, Option.map_id'] using hother

/-- A write to a row of the plugin. What follows it comes to a refresh, or neither the old
state nor the new one is `enabled`. -/
theorem under_write {site : CallSite} {context : String} {key : Key} {state : PluginState}
    {fc fm : String}
    {next : (NamedCall.mk site (.write context key state fc fm)).Reply → Steps Outcome}
    (hkey : key.1 = pluginID)
    (hahead : (∀ p, RefreshAhead (next (p, none))) ∨ state ≠ .enabled ∧
      ∀ p, w.registry.find key.1 key.2 = some p → p.state ≠ .enabled)
    (hnext : ∀ (p : PluginVersion) t, p.key = key →
      t.registry.find key.1 key.2 = some (p.withState state fc fm) →
      Under soundness pluginID (next (p.withState state fc fm, none)) t) :
    Under soundness pluginID (.call ⟨site, .write context key state fc fm⟩ next) w := by
  refine under_call (by rintro ⟨plugins, hplugins⟩; cases hplugins) fun t fault hst hcalm => ?_
  obtain ⟨⟨p, hp, hreply, hmoves⟩, hlocks⟩ := write_effect (w := t) hcalm
  have hreply : (t.answer fault ⟨site, .write context key state fc fm⟩).2 =
      (p.withState state fc fm, none) := hreply
  have hfind : (t.answer fault ⟨site, .write context key state fc fm⟩).1.registry.find
      key.1 key.2 = some (p.withState state fc fm) := hmoves.find_eq
  rw [hreply]
  refine ⟨fun k hk => hmoves.find_other k fun h => hk (h ▸ hkey), hlocks, ?_,
    hnext p _ (Registry.find_key hp) hfind⟩
  obtain hahead | ⟨hstate, hrow⟩ := hahead
  · exact .inl (hahead _)
  · refine .inr ⟨write_targets t fault context key state fc fm, Set.ext fun k => ?_⟩
    show (t.write fault context key state fc fm).1.stateOf k = _ ↔ t.stateOf k = _
    by_cases hk : k = key
    · subst hk
      have hpen := hrow p ((hst k hkey).symm.trans hp)
      rw [hmoves.stateOf_eq, World.stateOf, hp]
      simp [hstate, hpen]
    · rw [hmoves.stateOf_other hk]

/-- `refreshEnabled`: what it hands to the dispatcher it has just read. -/
theorem under_refreshEnabled {site : CallSite}
    {next : (NamedCall.mk site .listEnabled).Reply → Steps Outcome}
    {after : List PluginVersion → Unit → Steps Outcome}
    (hlist : ∀ plugins, next (.ok plugins) =
      .call ⟨.other, .refresh (plugins.mergeSort refreshOrder)⟩ (after plugins))
    (hafter : ∀ plugins t, Under soundness pluginID (after plugins ()) t) :
    Under soundness pluginID (.call ⟨site, .listEnabled⟩ next) w := by
  refine ⟨call_ne_done, fun _ _ _ h => (nomatch h), fun t hst fault hcalm => ?_⟩
  cases fault with
  | some e =>
      obtain ⟨plugins, hplugins⟩ := hcalm
      cases hplugins
  | none =>
      have hnext : next (t.answer none ⟨site, .listEnabled⟩).2 = .call
          ⟨.other, .refresh (t.registry.listEnabled.mergeSort refreshOrder)⟩
            (after t.registry.listEnabled) := hlist _
      refine ⟨⟨fun _ _ => rfl, .inr ⟨rfl, ?_⟩, .inr (.inr ⟨rfl, rfl⟩), ?_⟩, ?_⟩
      · rw [hnext]
        exact call_ne_done
      · rintro site plugins rest heq
        cases hnext.symm.trans heq
        exact lists_listEnabled t
      · rw [hnext]
        intro u htu fault _
        have hdone := hafter t.registry.listEnabled
          { u with targets := t.registry.listEnabled.mergeSort refreshOrder }
        exact ⟨⟨fun _ _ => rfl, .inr ⟨rfl, hdone.busy⟩, .inl ⟨_, rfl⟩,
          fun site plugins rest heq => absurd heq (hdone.apt site plugins rest)⟩, hdone.holds⟩

/-- `Disable` of the dispatcher, with the refresh still to come. -/
theorem under_disableHooks {site : CallSite} {record : PluginVersion}
    {next : (NamedCall.mk site (.disableHooks record)).Reply → Steps Outcome}
    (hahead : RefreshAhead (next none)) (hnext : ∀ t, Under soundness pluginID (next none) t) :
    Under soundness pluginID (.call ⟨site, .disableHooks record⟩ next) w := by
  refine under_call (by rintro ⟨plugins, hplugins⟩; cases hplugins) fun t fault hst hcalm => ?_
  cases fault with
  | some e => cases hcalm
  | none => exact ⟨fun _ _ => rfl, rfl, .inl hahead, hnext _⟩

end

/-! ## The operations -/

section
variable {pluginID : String} {w : World} {k : PluginVersion × Option AppError → Steps Outcome}

theorem refreshAhead_refreshEnabled {site : CallSite}
    {next : (NamedCall.mk site .listEnabled).Reply → Steps Outcome}
    {after : List PluginVersion → Unit → Steps Outcome}
    (hlist : ∀ plugins, next (.ok plugins) =
      .call ⟨.other, .refresh (plugins.mergeSort refreshOrder)⟩ (after plugins)) :
    RefreshAhead (.call ⟨site, .listEnabled⟩ next) := by
  refine .inr fun r hr => ?_
  obtain ⟨plugins, rfl⟩ := hr
  rw [hlist]
  exact .inl ⟨_, rfl⟩

/-- A write that goes through comes to a refresh when what follows it does. -/
theorem refreshAhead_write {site : CallSite} {context : String} {key : Key}
    {state : PluginState} {fc fm : String}
    {next : (NamedCall.mk site (.write context key state fc fm)).Reply → Steps Outcome}
    (h : ∀ p, RefreshAhead (next (p, none))) :
    RefreshAhead (.call ⟨site, .write context key state fc fm⟩ next) := by
  refine .inr fun r hr => ?_
  obtain ⟨p, err⟩ := r
  obtain rfl : err = none := hr
  exact h p

theorem refreshAhead_start {site : CallSite} {record : PluginVersion}
    {next : (NamedCall.mk site (.start record)).Reply → Steps Outcome}
    (h : RefreshAhead (next none)) : RefreshAhead (.call ⟨site, .start record⟩ next) := by
  refine .inr fun r hr => ?_
  obtain rfl : r = none := hr
  exact h

theorem refreshAhead_stop {site : CallSite} {record : PluginVersion}
    {next : (NamedCall.mk site (.stop record)).Reply → Steps Outcome}
    (h : RefreshAhead (next none)) : RefreshAhead (.call ⟨site, .stop record⟩ next) := by
  refine .inr fun r hr => ?_
  obtain rfl : r = none := hr
  exact h

theorem refreshAhead_disableHooks {site : CallSite} {record : PluginVersion}
    {next : (NamedCall.mk site (.disableHooks record)).Reply → Steps Outcome}
    (h : RefreshAhead (next none)) : RefreshAhead (.call ⟨site, .disableHooks record⟩ next) := by
  refine .inr fun r hr => ?_
  obtain rfl : r = none := hr
  exact h

theorem under_enableRecord {record : PluginVersion} (hid : record.pluginID = pluginID)
    (hk : Continues pluginID k) : Under soundness pluginID (Steps.enableRecord record >>= k) w := by
  refine under_write hid (.inl fun p => ?_) fun p t hp _ => ?_
  · refine refreshAhead_start (refreshAhead_write fun q => ?_)
    exact refreshAhead_refreshEnabled fun _ => rfl
  · refine under_start fun t _ => under_write ?_ (.inl fun q => ?_) fun q t hq _ => ?_
    · exact (congrArg Prod.fst hp).trans hid
    · exact refreshAhead_refreshEnabled fun _ => rfl
    · refine under_refreshEnabled (fun _ => rfl) fun _ t => ?_
      exact under_any trivial fun _ u _ => hk _ u

/-- The rows that `ListInstallable` reads are of the plugin. -/
theorem under_listInstallable {site : CallSite}
    {next : (NamedCall.mk site (.listInstallable pluginID)).Reply → Steps Outcome}
    (herror : ∀ e t, Under soundness pluginID (next (.error e)) t)
    (hnext : ∀ rows t, (∀ p ∈ rows, p.pluginID = pluginID) →
      Under soundness pluginID (next (.ok rows)) t) :
    Under soundness pluginID (.call ⟨site, .listInstallable pluginID⟩ next) w := by
  refine under_quiet trivial fun t fault _ _ u _ => ?_
  cases fault with
  | some e => exact herror e u
  | none =>
      refine hnext _ u fun p hp => ?_
      rw [Registry.listInstallable, List.mem_mergeSort, List.mem_filter] at hp
      simp only [decide_eq_true_eq] at hp
      exact hp.2.1

/-- `FindEnabled` reads an enabled row of the plugin. -/
theorem under_findEnabled {site : CallSite}
    {next : (NamedCall.mk site (.findEnabled pluginID)).Reply → Steps Outcome}
    (herror : ∀ e t, Under soundness pluginID (next (.error e)) t)
    (hmissing : ∀ t, Under soundness pluginID (next (.ok none)) t)
    (hnext : ∀ row t, row.pluginID = pluginID → row.state = .enabled →
      t.registry.find row.pluginID row.version = some row →
        Under soundness pluginID (next (.ok (some row))) t) :
    Under soundness pluginID (.call ⟨site, .findEnabled pluginID⟩ next) w := by
  refine under_quiet trivial fun t fault _ _ u htu => ?_
  cases fault with
  | some e => exact herror e u
  | none =>
      cases hrow : t.registry.findEnabled pluginID with
      | none =>
          have hreply : (t.answer none ⟨site, .findEnabled pluginID⟩).2 = .ok none :=
            congrArg Except.ok hrow
          rw [hreply]
          exact hmissing u
      | some row =>
          have hreply : (t.answer none ⟨site, .findEnabled pluginID⟩).2 = .ok (some row) :=
            congrArg Except.ok hrow
          obtain ⟨hid, henabled, hfind⟩ := Registry.findEnabled_spec hrow
          rw [hreply]
          exact hnext row u hid henabled ((htu row.key hid).trans hfind)

theorem under_findForEnable {version : String} {f : Except AppError PluginVersion → Steps Outcome}
    (herror : ∀ e t, Under soundness pluginID (f (.error e)) t)
    (hok : ∀ record t, record.pluginID = pluginID → Under soundness pluginID (f (.ok record)) t) :
    Under soundness pluginID (Steps.findForEnable pluginID version >>= f) w := by
  unfold Steps.findForEnable
  split_ifs with hblank
  · refine under_listInstallable (fun e t => herror _ t) fun rows t hrows => ?_
    simp only [Program.bind]
    cases hhead : (rows.mergeSort fun a b => compareSemver a.version b.version ≥ 0).head? with
    | none => exact herror _ t
    | some record =>
        refine hok record t (hrows record ?_)
        exact (List.mem_mergeSort ..).mp (List.mem_of_mem_head? hhead)
  · refine under_find rfl (fun e t => herror _ t) fun row t hrow => ?_
    cases row with
    | none => exact herror _ t
    | some record => exact hok record t (congrArg Prod.fst (Registry.find_key hrow))

theorem under_enableUnlocked {s : Service} {version : String} (hk : Continues pluginID k) :
    Under soundness pluginID (Steps.enableUnlocked s pluginID version >>= k) w := by
  unfold Steps.enableUnlocked
  rw [bind_assoc]
  refine under_findForEnable (fun e t => hk _ t) fun record t hid => ?_
  dsimp only
  cases s.enableCheck record with
  | some e => exact hk _ t
  | none => exact under_enableRecord hid hk

theorem under_disableRecord {record : PluginVersion} (hid : record.pluginID = pluginID)
    (hk : Continues pluginID k) :
    Under soundness pluginID (Steps.disableRecord record >>= k) w := by
  refine under_write hid (.inl fun p => ?_) fun p t hp _ => ?_
  · refine refreshAhead_disableHooks (refreshAhead_stop (refreshAhead_write fun q => ?_))
    exact refreshAhead_refreshEnabled fun _ => rfl
  · refine under_disableHooks ?_ fun t => under_stop fun t _ => ?_
    · refine refreshAhead_stop (refreshAhead_write fun q => ?_)
      exact refreshAhead_refreshEnabled fun _ => rfl
    · refine under_write ?_ (.inl fun q => ?_) fun q t hq _ => ?_
      · exact (congrArg Prod.fst hp).trans hid
      · exact refreshAhead_refreshEnabled fun _ => rfl
      · exact under_refreshEnabled (fun _ => rfl) fun _ t => hk _ t

theorem under_disableUnlocked (hk : Continues pluginID k) :
    Under soundness pluginID (Steps.disableUnlocked pluginID >>= k) w := by
  refine under_findEnabled (fun e t => hk _ t) (fun t => hk _ t) fun row t hid _ _ => ?_
  exact under_disableRecord hid hk

theorem under_disableThenEnable {s : Service} {version : String} (hk : Continues pluginID k) :
    Under soundness pluginID (Steps.disableThenEnable s pluginID version >>= k) w := by
  unfold Steps.disableThenEnable
  rw [bind_assoc]
  refine under_disableUnlocked fun ⟨_, err⟩ t => ?_
  cases err with
  | some e => exact hk _ t
  | none => exact under_enableUnlocked hk

theorem under_currentConfig {s : Service} {current : PluginVersion}
    {f : Except String String → Steps Outcome}
    (hf : ∀ r t, SameRows pluginID w t → Under soundness pluginID (f r) t) :
    Under soundness pluginID (Steps.currentConfig s current >>= f) w := by
  unfold Steps.currentConfig
  split_ifs with hrepo
  · refine under_any trivial fun r t hst => ?_
    cases r with
    | error e => exact hf _ t hst
    | ok cfg =>
        cases cfg with
        | none => exact hf _ t hst
        | some cfg => exact hf _ t hst
  · exact hf _ w fun _ _ => rfl

/-- An operation that ends with a failure recorded for a version that is not enabled. -/
theorem under_setFailure {site : Call} {record : PluginVersion} {state : PluginState}
    {fc fm : String} {err : Option AppError} (hid : record.pluginID = pluginID)
    (hstate : state ≠ .enabled) (hrow : w.stateOf record.key ≠ some .enabled)
    (hk : Continues pluginID k) :
    Under soundness pluginID ((do
      let failed ← Steps.setFailure site record state fc fm
      return (failed, err)) >>= k) w := by
  refine under_write hid (.inr ⟨hstate, fun p hp henabled => hrow ?_⟩) fun p t _ _ => hk _ t
  rw [World.stateOf, hp, Option.map_some, henabled]

theorem under_switchRecord {s : Service} {version : String} {current target : PluginVersion}
    (hid : target.pluginID = pluginID) (hrow : w.stateOf target.key ≠ some .enabled)
    (hk : Continues pluginID k) :
    Under soundness pluginID (Steps.switchRecord s pluginID version current target >>= k) w := by
  unfold Steps.switchRecord
  rw [bind_assoc]
  refine under_currentConfig fun r t hst => ?_
  rw [← hst.stateOf hid] at hrow
  cases r with
  | error e => exact hk _ t
  | ok config =>
      dsimp only
      cases s.migrate current config target with
      | error e =>
          refine under_setFailure hid ?_ hrow hk
          decide
      | ok result =>
          dsimp only
          split_ifs with hok hconfig
          · refine under_any trivial fun err u _ => ?_
            cases err with
            | some e => exact hk _ u
            | none => exact under_disableThenEnable hk
          · exact under_disableThenEnable hk
          · refine under_setFailure hid ?_ hrow hk
            decide

theorem stateOf_find {record : PluginVersion} {key : Key}
    (hrow : w.registry.find key.1 key.2 = some record) :
    w.stateOf record.key = some record.state := by
  rw [Registry.find_key hrow, World.stateOf, hrow, Option.map_some]

theorem under_switchUnlocked {s : Service} {version : String} (hk : Continues pluginID k) :
    Under soundness pluginID (Steps.switchUnlocked s pluginID version >>= k) w := by
  refine under_findEnabled (fun e t => hk _ t) (fun t => ?_) fun current t _ _ _ => ?_
  · simp only [Program.bind]
    exact under_enableUnlocked hk
  · simp only [Program.bind]
    split_ifs with hversion
    · exact hk _ t
    · refine under_find rfl (fun e t => hk _ t) fun row t hrow => ?_
      cases row with
      | none => exact hk _ t
      | some target =>
          simp only [Program.bind]
          cases hcheck : s.switchCheck target with
          | some e => exact hk _ t
          | none =>
              refine under_switchRecord (congrArg Prod.fst (Registry.find_key hrow)) ?_ hk
              rw [stateOf_find hrow, ne_eq, Option.some.injEq]
              obtain hstate | hstate := switchCheck_state hcheck <;> simp [hstate]

theorem under_uninstallRecord {record : PluginVersion} (hid : record.pluginID = pluginID)
    (hrow : w.stateOf record.key ≠ some .enabled) (hk : Continues pluginID k) :
    Under soundness pluginID (Steps.uninstallRecord pluginID record >>= k) w := by
  refine under_write hid (.inr ⟨by decide, fun p hp henabled => hrow ?_⟩) fun p t hp hfind => ?_
  · rw [World.stateOf, hp, Option.map_some, henabled]
  · have hpid : p.pluginID = pluginID := (congrArg Prod.fst hp).trans hid
    refine under_stop fun u htu => under_any trivial fun err v huv => ?_
    have hstate : v.stateOf (p.withState .uninstalling "" "").key ≠ some .enabled := by
      show v.stateOf p.key ≠ some .enabled
      rw [huv.stateOf hpid, htu.stateOf hpid, hp, World.stateOf, hfind, Option.map_some]
      simp [PluginVersion.withState]
    cases err with
    | some e => exact under_setFailure hpid (by decide) hstate hk
    | none =>
        refine under_write hpid (.inr ⟨by decide, fun q hq henabled => hstate ?_⟩)
          fun q t _ _ => under_any trivial fun rows u _ => ?_
        · rw [World.stateOf, hq, Option.map_some, henabled]
        · cases rows with
          | error e => exact hk _ u
          | ok rows =>
              simp only [pure_eq, Program.bind]
              split_ifs with hremaining
              · exact hk _ u
              · exact under_any trivial fun _ v _ => hk _ v

theorem under_uninstallUnlocked {version : String} (hk : Continues pluginID k) :
    Under soundness pluginID (Steps.uninstallUnlocked pluginID version >>= k) w := by
  refine under_find rfl (fun e t => hk _ t) fun row t hrow => ?_
  cases row with
  | none => exact hk _ t
  | some record =>
      simp only [Program.bind]
      split_ifs with hstable
      · refine under_uninstallRecord (congrArg Prod.fst (Registry.find_key hrow)) ?_ hk
        rw [stateOf_find hrow, ne_eq, Option.some.injEq]
        rintro henabled
        simp [henabled, stableUninstallState] at hstable
      · exact hk _ t

/-- The body of each operation, on any world. -/
theorem under_unlocked {s : Service} {op : Operation} (hid : op.pluginID = pluginID)
    (hk : Continues pluginID k) : Under soundness pluginID (Steps.unlocked s op >>= k) w := by
  subst hid
  cases op with
  | enable pluginID version => exact under_enableUnlocked hk
  | disable pluginID => exact under_disableUnlocked hk
  | switchEnabledVersion pluginID version => exact under_switchUnlocked hk
  | uninstall pluginID version => exact under_uninstallUnlocked hk

end

/-! ## The installation -/

section
variable {pluginID : String} {w : World} {k : PluginVersion × Option InstallError → Steps Outcome}

/-- A version that cannot be registered leaves the world as it is. -/
theorem createOrRetryInstall_refused {fault : Option String} {r : Registration} {e : AppError}
    (h : (w.createOrRetryInstall fault r).2 = some e) :
    (w.createOrRetryInstall fault r).1 = w := by
  unfold World.createOrRetryInstall at h ⊢
  cases fault with
  | some text =>
      dsimp only
      split_ifs <;> rfl
  | none =>
      cases hreg : w.registry.createOrRetryInstall r with
      | none => rfl
      | some g => simp [hreg] at h

theorem createOrRetryInstall_locks (fault : Option String) (r : Registration) :
    (w.createOrRetryInstall fault r).1.locks = w.locks := by
  unfold World.createOrRetryInstall
  cases fault with
  | some text =>
      dsimp only
      split_ifs <;> rfl
  | none =>
      dsimp only
      cases w.registry.createOrRetryInstall r <;> rfl

/-- `CreateOrRetryInstall` of a version of the plugin. A version that it registers was not
enabled and is not. -/
theorem under_createOrRetryInstall {site : CallSite} {r : Registration}
    {next : (NamedCall.mk site (.createOrRetryInstall r)).Reply → Steps Outcome}
    (hid : r.record.pluginID = pluginID)
    (herror : ∀ e t, Under soundness pluginID (next (some e)) t)
    (hnext : ∀ t, t.stateOf r.record.key = some .installing →
      Under soundness pluginID (next none) t) :
    Under soundness pluginID (.call ⟨site, .createOrRetryInstall r⟩ next) w := by
  refine under_call (by rintro ⟨plugins, hplugins⟩; cases hplugins) fun t fault _ _ => ?_
  rcases hreply : t.createOrRetryInstall fault r with ⟨t', err⟩
  have hanswer : t.answer fault ⟨site, .createOrRetryInstall r⟩ = (t', err) := hreply
  rw [hanswer]
  cases err with
  | some e =>
      obtain rfl : t' = t := by
        have hsame := createOrRetryInstall_refused (congrArg Prod.snd hreply)
        rwa [hreply] at hsame
      exact ⟨fun _ _ => rfl, rfl, .inr ⟨rfl, rfl⟩, herror e _⟩
  | none =>
      obtain ⟨⟨p, hmoves, hp⟩, htargets, hbefore⟩ := createOrRetryInstall_moves hreply
      refine ⟨fun key hkey => hmoves.find_other key fun h => hkey (h ▸ hid), ?_, .inr ⟨htargets,
        Set.ext fun key => ?_⟩, hnext t' (by rw [hmoves.stateOf_eq, hp])⟩
      · have hlocks := createOrRetryInstall_locks (w := t) fault r
        rwa [hreply] at hlocks
      · show t'.stateOf key = _ ↔ t.stateOf key = _
        by_cases hkey : key = r.record.key
        · subst hkey
          rw [hmoves.stateOf_eq, hp]
          refine ⟨by simp, fun h => ?_⟩
          obtain h' | h' := hbefore _ h <;> cases h'
        · rw [hmoves.stateOf_other hkey]

theorem under_finishInstall {e : InstallWeather} {m : InstallManifest} {bundled : Bool}
    {r : Registration} (hid : r.record.pluginID = pluginID)
    (hrow : w.stateOf r.record.key = some .installing) (hk : Continues pluginID k) :
    Under soundness pluginID (Steps.finishInstall e m bundled r >>= k) w := by
  have hpen : ∀ p, w.registry.find r.record.key.1 r.record.key.2 = some p →
      p.state ≠ .enabled := by
    intro p hp henabled
    rw [World.stateOf, hp, Option.map_some, henabled] at hrow
    cases hrow
  unfold Steps.finishInstall
  cases runValidate m bundled e.validate with
  | some err =>
      refine under_write hid (.inr ⟨by decide, hpen⟩) fun p t _ _ => ?_
      exact under_any trivial fun _ u _ => hk _ u
  | none =>
      refine under_write hid (.inr ⟨by decide, hpen⟩) fun p t _ _ => ?_
      exact under_any trivial fun _ u _ => hk _ u

theorem under_installUnlocked {I : Installer} {e : InstallWeather} {input : InstallInput}
    {c : Checked} (hk : Continues c.manifest.id k) :
    Under soundness c.manifest.id (Steps.installUnlocked I e input c >>= k) w := by
  unfold Steps.installUnlocked
  cases safePluginDir I.storageDir c.manifest.id c.manifest.version with
  | error err => exact hk _ w
  | ok dir =>
      refine under_find rfl (fun e t => hk _ t) fun existing t _ => ?_
      simp only [Program.bind]
      cases Steps.existingConflict existing (isBundledInstall input) with
      | some err => exact hk _ t
      | none =>
      cases storeArtifact e with
      | some err => exact hk _ t
      | none =>
          refine under_createOrRetryInstall rfl (fun e t => hk _ t) fun t hrow => ?_
          exact under_finishInstall rfl hrow hk

end

/-! ## The lock -/

theorem under_release {pluginID : String} {w : World} {k : Unit → Outcome} :
    Under soundness pluginID (.call ⟨.other, .release pluginID⟩ fun u => .done (k u)) w :=
  ⟨call_ne_done, fun _ _ _ h => (nomatch h), fun _ _ _ _ => ⟨⟨fun _ _ => rfl,
    .inl ⟨rfl, _, rfl⟩, .inr (.inr ⟨rfl, rfl⟩), fun _ _ _ h => (nomatch h)⟩, trivial⟩⟩

/-- An operation does nothing before it has the lock of its plugin. -/
theorem program_enters (I : Installer) (r : OperationRequest) :
    Enters soundness (r.program I) := by
  cases r with
  | operate op =>
      refine .locks op.pluginID _ _ rfl fun w _ => ?_
      show Under soundness op.pluginID ((Steps.unlocked I.service op >>= _) >>= _) w
      rw [bind_assoc]
      exact under_unlocked rfl fun _ _ => under_release
  | install e input =>
      dsimp only [OperationRequest.program]
      unfold Steps.install
      cases I.check input with
      | error err => exact .returned _
      | ok c =>
          refine .locks c.manifest.id _ _ rfl fun w _ => ?_
          show Under soundness c.manifest.id ((Steps.installUnlocked I e input c >>= _) >>= _) w
          rw [bind_assoc]
          exact under_installUnlocked fun _ _ => under_release

end GoSite.Plugin
