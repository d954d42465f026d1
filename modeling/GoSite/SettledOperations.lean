import GoSite.LockedOperations
import GoSite.PluginSettled

/-!
# Versions under way

Where every write of a state goes through, an operation leads the version it works on out of
the transitional states before it gives the lock back, whatever else fails and whatever the
operations on other plugins do in between. So a version in such a state is always one that an
operation is at work on.
-/
namespace GoSite.Plugin
open GoStrings Interleaving GuardedRuns

/-- The write of a state that did what it was to do. -/
def NamedCall.Wrote : (c : NamedCall) → c.Reply → Prop
  | ⟨_, .write _ _ _ _ _⟩, reply => reply.2 = none
  | _, _ => True

/-- No version of the plugin is in a transitional state. -/
def Tidied (pluginID : String) (w : World) : Prop :=
  ∀ (k : Key) state, k.1 = pluginID → w.stateOf k = some state → state.transitional = false

/-- A call of an operation that tidies up before it gives back the lock. -/
structure Tidies (pluginID : String) (w : World) (fault : Option String) (c : NamedCall)
    (next : c.Reply → Steps Outcome) : Prop where
  frame : ∀ k : Key, k.1 ≠ pluginID →
    (w.answer fault c).1.registry.find k.1 k.2 = w.registry.find k.1 k.2
  lock : (c.call = .release pluginID ∧ ∃ a, next (w.answer fault c).2 = .done a) ∨
    (w.answer fault c).1.locks = w.locks ∧ ∀ a, next (w.answer fault c).2 ≠ .done a
  tidied : c.call = .release pluginID → Tidied pluginID w

def tidiness : LockContract where
  calm := NamedCall.Wrote
  good := Tidies
  ready := Tidied
  apt _ := True
  frame h := h.frame
  lock h := h.lock

/-- The version has the state, and the other versions of the plugin are in no transitional
one. -/
structure WorksOn (pluginID : String) (key : Key) (state : PluginState) (w : World) : Prop where
  state_eq : w.stateOf key = some state
  others : ∀ (k : Key) state, k.1 = pluginID → k ≠ key → w.stateOf k = some state →
    state.transitional = false

/-- Calls that leave the rows and the locks as they are. -/
def ServiceCall.LeavesRows (c : ServiceCall) : Prop :=
  c.IsQuiet ∨ c = .listEnabled ∨ (∃ plugins, c = .refresh plugins) ∨
    ∃ record, c = .disableHooks record

theorem answer_leavesRows {c : ServiceCall} (hc : c.LeavesRows) (site : CallSite) (w : World)
    (fault : Option String) :
    (w.answer fault ⟨site, c⟩).1.registry = w.registry ∧
      (w.answer fault ⟨site, c⟩).1.locks = w.locks := by
  obtain hquiet | rfl | ⟨plugins, rfl⟩ | ⟨record, rfl⟩ := hc
  · obtain ⟨hreg, -, hlocks⟩ := answer_quiet hquiet site w fault
    exact ⟨hreg, hlocks⟩
  · exact ⟨rfl, rfl⟩
  · exact ⟨rfl, rfl⟩
  · cases fault <;> exact ⟨rfl, rfl⟩

section
variable {pluginID : String} {w t : World} {key : Key} {state : PluginState}

theorem Tidied.of_same (h : Tidied pluginID w) (hst : SameRows pluginID w t) :
    Tidied pluginID t :=
  fun k state hk hstate => h k state hk ((hst.stateOf hk).symm.trans hstate)

theorem Tidied.worksOn (h : Tidied pluginID w) {record : PluginVersion}
    (hfind : w.registry.find record.key.1 record.key.2 = some record) :
    WorksOn pluginID record.key record.state w :=
  ⟨stateOf_find hfind, fun k state hk _ hstate => h k state hk hstate⟩

theorem WorksOn.of_same (h : WorksOn pluginID key state w) (hkey : key.1 = pluginID)
    (hst : SameRows pluginID w t) : WorksOn pluginID key state t :=
  ⟨(hst.stateOf hkey).trans h.state_eq, fun k state hk hne hstate =>
    h.others k state hk hne ((hst.stateOf hk).symm.trans hstate)⟩

theorem WorksOn.tidied (h : WorksOn pluginID key state w) (hstate : state.transitional = false) :
    Tidied pluginID w := by
  intro k state' hk hk'
  by_cases hkey : k = key
  · subst hkey
    obtain rfl := Option.some.inj (h.state_eq.symm.trans hk')
    exact hstate
  · exact h.others k state' hk hkey hk'

/-- A call that is not the last, with what follows it. -/
theorem tidy_call {c : NamedCall} {next : c.Reply → Steps Outcome}
    (hrelease : ∀ id, c.call ≠ .release id)
    (hnext : ∀ t fault, SameRows pluginID w t → c.Wrote (t.answer fault c).2 →
      (∀ k : Key, k.1 ≠ pluginID →
        (t.answer fault c).1.registry.find k.1 k.2 = t.registry.find k.1 k.2) ∧
      (t.answer fault c).1.locks = t.locks ∧
      Under tidiness pluginID (next (t.answer fault c).2) (t.answer fault c).1) :
    Under tidiness pluginID (.call c next) w := by
  refine ⟨call_ne_done, trivial, fun t hst fault hcalm => ?_⟩
  obtain ⟨hframe, hlocks, hunder⟩ := hnext t fault hst hcalm
  exact ⟨⟨hframe, .inr ⟨hlocks, hunder.busy⟩, fun h => absurd h (hrelease _)⟩, hunder.holds⟩

theorem tidy_read {site : CallSite} {c : ServiceCall}
    {next : (NamedCall.mk site c).Reply → Steps Outcome} (hc : c.LeavesRows)
    (hnext : ∀ t fault, SameRows pluginID w t → ∀ u, SameRows pluginID t u →
      Under tidiness pluginID (next (t.answer fault ⟨site, c⟩).2) u) :
    Under tidiness pluginID (.call ⟨site, c⟩ next) w := by
  refine tidy_call ?_ fun t fault hst _ => ?_
  · rintro id rfl
    obtain hquiet | h | ⟨plugins, h⟩ | ⟨record, h⟩ := hc
    · exact hquiet
    · cases h
    · cases h
    · cases h
  · obtain ⟨hreg, hlocks⟩ := answer_leavesRows hc site t fault
    exact ⟨fun k _ => by rw [hreg], hlocks, hnext t fault hst _ fun k _ => by rw [hreg]⟩

/-- A call whose answer does not matter. -/
theorem tidy_any {site : CallSite} {c : ServiceCall}
    {next : (NamedCall.mk site c).Reply → Steps Outcome} (hc : c.LeavesRows)
    (hnext : ∀ r t, SameRows pluginID w t → Under tidiness pluginID (next r) t) :
    Under tidiness pluginID (.call ⟨site, c⟩ next) w :=
  tidy_read hc fun _ _ hst _ htu => hnext _ _ (hst.trans htu)

/-- A write to the version at work. -/
theorem tidy_write {site : CallSite} {context : String} {state' : PluginState} {fc fm : String}
    {next : (NamedCall.mk site (.write context key state' fc fm)).Reply → Steps Outcome}
    (hkey : key.1 = pluginID) (hw : WorksOn pluginID key state w)
    (hnext : ∀ (p : PluginVersion) t, p.key = key → WorksOn pluginID p.key state' t →
      Under tidiness pluginID (next (p.withState state' fc fm, none)) t) :
    Under tidiness pluginID (.call ⟨site, .write context key state' fc fm⟩ next) w := by
  refine tidy_call (fun _ h => nomatch h) fun t fault hst hcalm => ?_
  obtain ⟨⟨p, hp, hreply, hmoves⟩, hlocks⟩ := write_effect (w := t) hcalm
  have hreply : (t.answer fault ⟨site, .write context key state' fc fm⟩).2 =
      (p.withState state' fc fm, none) := hreply
  have hpkey : p.key = key := Registry.find_key hp
  rw [hreply]
  refine ⟨fun k hk => hmoves.find_other k fun h => hk (h ▸ hkey), hlocks,
    hnext p _ hpkey ⟨?_, fun k state hk hne hstate => ?_⟩⟩
  · rw [hpkey]
    exact hmoves.stateOf_eq
  · rw [hpkey] at hne
    refine hw.others k state hk hne ?_
    rw [← hst.stateOf hk, ← hmoves.stateOf_other hne]
    exact hstate

/-- The program goes on tidily from every world without a transitional state. -/
abbrev Resumes {β : Type} (pluginID : String) (k : β → Steps Outcome) : Prop :=
  ∀ b w, Tidied pluginID w → Under tidiness pluginID (k b) w

variable {k : PluginVersion × Option AppError → Steps Outcome}

/-- An operation that ends with a recorded failure. -/
theorem tidy_setFailure {site : Call} {record : PluginVersion} {state' : PluginState}
    {fc fm : String} {err : Option AppError} (hid : record.pluginID = pluginID)
    (hw : WorksOn pluginID record.key state w) (hstate : state'.transitional = false)
    (hk : Resumes pluginID k) :
    Under tidiness pluginID ((do
      let failed ← Steps.setFailure site record state' fc fm
      return (failed, err)) >>= k) w :=
  tidy_write hid hw fun _ t _ ht => hk _ t (ht.tidied hstate)

/-- `refreshEnabled`, with either answer. -/
theorem tidy_refreshEnabled {site : Call} {f : Option String → Steps Outcome}
    (hf : ∀ r t, SameRows pluginID w t → Under tidiness pluginID (f r) t) :
    Under tidiness pluginID (Steps.refreshEnabled site >>= f) w := by
  refine tidy_any (.inr (.inl rfl)) fun reply t hst => ?_
  cases reply with
  | error e => exact hf _ t hst
  | ok plugins =>
      exact tidy_any (.inr (.inr (.inl ⟨_, rfl⟩))) fun _ u htu => hf _ u (hst.trans htu)

theorem tidy_refreshThen {β : Type} {site : Call} {g : Option String → Steps β}
    {f : β → Steps Outcome}
    (hf : ∀ r t, SameRows pluginID w t → Under tidiness pluginID (g r >>= f) t) :
    Under tidiness pluginID ((Steps.refreshEnabled site >>= g) >>= f) w := by
  rw [Interleaving.bind_assoc]
  exact tidy_refreshEnabled hf

theorem tidy_enableStop {record : PluginVersion} {after : Steps (PluginVersion × Option AppError)}
    (hid : record.pluginID = pluginID) (hw : WorksOn pluginID record.key state w)
    (hafter : ∀ t, WorksOn pluginID record.key state t →
      Under tidiness pluginID (after >>= k) t)
    (hk : Resumes pluginID k) :
    Under tidiness pluginID (Steps.enableStop record after >>= k) w := by
  refine tidy_any (.inl trivial) fun err t hst => ?_
  have ht := hw.of_same hid hst
  cases err with
  | some e => exact tidy_setFailure hid ht rfl hk
  | none => exact hafter t ht

theorem tidy_enableRecord {record : PluginVersion} (hid : record.pluginID = pluginID)
    (hw : WorksOn pluginID record.key state w) (hk : Resumes pluginID k) :
    Under tidiness pluginID (Steps.enableRecord record >>= k) w := by
  refine tidy_write hid hw fun p t hp ht => tidy_any (.inl trivial) fun err u htu => ?_
  have hpid : p.pluginID = pluginID := (congrArg Prod.fst hp).trans hid
  have hu := ht.of_same hpid htu
  cases err with
  | some e => exact tidy_setFailure hpid hu rfl hk
  | none =>
  refine tidy_write hpid hu fun q v hq hv => ?_
  have hqid : q.pluginID = pluginID := (congrArg Prod.fst hq).trans hpid
  refine tidy_refreshThen fun err u hvu => ?_
  have hu := hv.of_same hqid hvu
  cases err with
  | some e =>
      have hkeep : WorksOn pluginID (q.withState .enabled "" "").key .enabled u := hu
      refine tidy_enableStop hqid hkeep (fun t ht => ?_) hk
      refine tidy_write hqid ht fun r v hr hv => ?_
      have hrid : r.pluginID = pluginID := (congrArg Prod.fst hr).trans hqid
      exact tidy_refreshThen fun _ u hvu => hk _ u ((hv.of_same hrid hvu).tidied rfl)
  | none => exact tidy_any (.inl trivial) fun _ t hst => hk _ t ((hu.tidied rfl).of_same hst)

theorem tidy_disableRecord {record : PluginVersion} (hid : record.pluginID = pluginID)
    (hw : WorksOn pluginID record.key state w) (hk : Resumes pluginID k) :
    Under tidiness pluginID (Steps.disableRecord record >>= k) w := by
  refine tidy_write hid hw fun p t hp ht =>
    tidy_any (.inr (.inr (.inr ⟨_, rfl⟩))) fun err u htu => ?_
  have hpid : p.pluginID = pluginID := (congrArg Prod.fst hp).trans hid
  have hu := ht.of_same hpid htu
  cases err with
  | some e => exact tidy_setFailure hpid hu rfl hk
  | none =>
  refine tidy_any (.inl trivial) fun err v huv => ?_
  have hv := hu.of_same hpid huv
  cases err with
  | some e =>
      refine tidy_write hpid hv fun q t hq ht => ?_
      rw [hq] at ht
      refine tidy_refreshThen fun err u htu => ?_
      have hu := ht.of_same hpid htu
      cases err with
      | some r => exact tidy_setFailure hpid hu rfl hk
      | none => exact hk _ u (hu.tidied rfl)
  | none =>
  refine tidy_write hpid hv fun q t hq ht => ?_
  have hqid : q.pluginID = pluginID := (congrArg Prod.fst hq).trans hpid
  refine tidy_refreshThen fun err u htu => ?_
  have hu := ht.of_same hqid htu
  cases err with
  | some e => exact tidy_setFailure hqid hu rfl hk
  | none => exact hk _ u (hu.tidied rfl)

/-- A read of one version that is there, not there, or fails. -/
theorem tidy_find {site : CallSite} {next : (NamedCall.mk site (.find key)).Reply → Steps Outcome}
    (hkey : key.1 = pluginID) (hw : Tidied pluginID w)
    (herror : ∀ e t, Tidied pluginID t → Under tidiness pluginID (next (.error e)) t)
    (hnone : ∀ t, Tidied pluginID t → Under tidiness pluginID (next (.ok none)) t)
    (hfound : ∀ record t, record.pluginID = pluginID → Tidied pluginID t →
      WorksOn pluginID record.key record.state t →
      Under tidiness pluginID (next (.ok (some record))) t) :
    Under tidiness pluginID (.call ⟨site, .find key⟩ next) w := by
  refine tidy_read (.inl trivial) fun t fault hst u htu => ?_
  have hu := hw.of_same (hst.trans htu)
  cases fault with
  | some e => exact herror _ u hu
  | none =>
      cases hrow : t.registry.find key.1 key.2 with
      | none =>
          have hreply : (t.answer none ⟨site, .find key⟩).2 = .ok none := congrArg Except.ok hrow
          rw [hreply]
          exact hnone u hu
      | some record =>
          have hreply : (t.answer none ⟨site, .find key⟩).2 = .ok (some record) :=
            congrArg Except.ok hrow
          rw [hreply]
          have hrecord : record.key = key := Registry.find_key hrow
          refine hfound record u ((congrArg Prod.fst hrecord).trans hkey) hu (hu.worksOn ?_)
          rw [hrecord]
          exact (htu key hkey).trans hrow

/-- A read of the enabled version. -/
theorem tidy_findEnabled {site : CallSite}
    {next : (NamedCall.mk site (.findEnabled pluginID)).Reply → Steps Outcome}
    (hw : Tidied pluginID w)
    (herror : ∀ e t, Tidied pluginID t → Under tidiness pluginID (next (.error e)) t)
    (hnone : ∀ t, Tidied pluginID t → Under tidiness pluginID (next (.ok none)) t)
    (hfound : ∀ record t, record.pluginID = pluginID → Tidied pluginID t →
      WorksOn pluginID record.key record.state t →
      Under tidiness pluginID (next (.ok (some record))) t) :
    Under tidiness pluginID (.call ⟨site, .findEnabled pluginID⟩ next) w := by
  refine tidy_read (.inl trivial) fun t fault hst u htu => ?_
  have hu := hw.of_same (hst.trans htu)
  cases fault with
  | some e => exact herror _ u hu
  | none =>
      cases hrow : t.registry.findEnabled pluginID with
      | none =>
          have hreply : (t.answer none ⟨site, .findEnabled pluginID⟩).2 = .ok none :=
            congrArg Except.ok hrow
          rw [hreply]
          exact hnone u hu
      | some record =>
          have hreply : (t.answer none ⟨site, .findEnabled pluginID⟩).2 = .ok (some record) :=
            congrArg Except.ok hrow
          obtain ⟨hid, -, hfind⟩ := Registry.findEnabled_spec hrow
          rw [hreply]
          exact hfound record u hid hu
            (hu.worksOn ((htu record.key hid).trans hfind))

theorem tidy_findForEnable {version : String}
    {f : Except AppError PluginVersion → Steps Outcome} (hw : Tidied pluginID w)
    (herror : ∀ e t, Tidied pluginID t → Under tidiness pluginID (f (.error e)) t)
    (hok : ∀ record t, record.pluginID = pluginID → Tidied pluginID t →
      WorksOn pluginID record.key record.state t → Under tidiness pluginID (f (.ok record)) t) :
    Under tidiness pluginID (Steps.findForEnable pluginID version >>= f) w := by
  unfold Steps.findForEnable
  split_ifs with hblank
  · refine tidy_read (.inl trivial) fun t fault hst u htu => ?_
    have hu := hw.of_same (hst.trans htu)
    cases fault with
    | some e => exact herror _ u hu
    | none =>
        show Under tidiness pluginID (Program.bind (Program.bind (.done _) _) f) u
        simp only [Program.bind, World.answer, readReply]
        cases hhead : ((t.registry.listInstallable pluginID).mergeSort fun a b =>
          compareSemver a.version b.version ≥ 0).head? with
        | none => exact herror _ u hu
        | some record =>
            have hmem := (List.mem_mergeSort ..).mp (List.mem_of_mem_head? hhead)
            rw [Registry.listInstallable, List.mem_mergeSort, List.mem_filter] at hmem
            simp only [decide_eq_true_eq] at hmem
            obtain ⟨hmem, hid, -⟩ := hmem
            have hfind := Registry.find_of_mem hmem
            refine hok record u hid hu (hu.worksOn ?_)
            exact (htu record.key hid).trans hfind
  · exact tidy_find rfl hw (fun e t ht => herror _ t ht) (fun t ht => herror _ t ht) hok

theorem tidy_enableUnlocked {s : Service} {version : String} (hw : Tidied pluginID w)
    (hk : Resumes pluginID k) :
    Under tidiness pluginID (Steps.enableUnlocked s pluginID version >>= k) w := by
  unfold Steps.enableUnlocked
  rw [Interleaving.bind_assoc]
  refine tidy_findForEnable hw (fun e t ht => hk _ t ht) fun record t hid ht hworks => ?_
  dsimp only
  cases s.enableCheck record with
  | some e => exact hk _ t ht
  | none => exact tidy_enableRecord hid hworks hk

theorem tidy_disableUnlocked (hw : Tidied pluginID w) (hk : Resumes pluginID k) :
    Under tidiness pluginID (Steps.disableUnlocked pluginID >>= k) w := by
  exact tidy_findEnabled hw (fun e t ht => hk _ t ht) (fun t ht => hk _ t ht)
    fun record t hid _ hworks => tidy_disableRecord hid hworks hk

theorem tidy_disableThenEnable {s : Service} {version : String} (hw : Tidied pluginID w)
    (hk : Resumes pluginID k) :
    Under tidiness pluginID (Steps.disableThenEnable s pluginID version >>= k) w := by
  unfold Steps.disableThenEnable
  rw [Interleaving.bind_assoc]
  refine tidy_disableUnlocked hw fun ⟨_, err⟩ t ht => ?_
  cases err with
  | some e => exact hk _ t ht
  | none => exact tidy_enableUnlocked ht hk

theorem tidy_currentConfig {s : Service} {current : PluginVersion}
    {f : Except String String → Steps Outcome}
    (hf : ∀ r t, SameRows pluginID w t → Under tidiness pluginID (f r) t) :
    Under tidiness pluginID (Steps.currentConfig s current >>= f) w := by
  unfold Steps.currentConfig
  split_ifs with hrepo
  · refine tidy_any (.inl trivial) fun r t hst => ?_
    cases r with
    | error e => exact hf _ t hst
    | ok cfg =>
        cases cfg with
        | none => exact hf _ t hst
        | some cfg => exact hf _ t hst
  · exact hf _ w fun _ _ => rfl

theorem tidy_switchRecord {s : Service} {version : String} {current target : PluginVersion}
    (hid : target.pluginID = pluginID) (hw : Tidied pluginID w)
    (hworks : WorksOn pluginID target.key state w) (hk : Resumes pluginID k) :
    Under tidiness pluginID (Steps.switchRecord s pluginID version current target >>= k) w := by
  unfold Steps.switchRecord
  rw [Interleaving.bind_assoc]
  refine tidy_currentConfig fun r t hst => ?_
  have ht := hw.of_same hst
  have hworks' := hworks.of_same hid hst
  cases r with
  | error e => exact hk _ t ht
  | ok config =>
      dsimp only
      cases s.migrate current config target with
      | error e => exact tidy_setFailure hid hworks' rfl hk
      | ok result =>
          dsimp only
          split_ifs with hok hconfig
          · refine tidy_any (.inl trivial) fun err u htu => ?_
            have hu := ht.of_same htu
            cases err with
            | some e => exact hk _ u hu
            | none => exact tidy_disableThenEnable hu hk
          · exact tidy_disableThenEnable ht hk
          · exact tidy_setFailure hid hworks' rfl hk

theorem tidy_switchUnlocked {s : Service} {version : String} (hw : Tidied pluginID w)
    (hk : Resumes pluginID k) :
    Under tidiness pluginID (Steps.switchUnlocked s pluginID version >>= k) w := by
  refine tidy_findEnabled hw (fun e t ht => hk _ t ht) (fun t ht => ?_)
    fun current t _ ht _ => ?_
  · simp only [Program.bind]
    exact tidy_enableUnlocked ht hk
  · simp only [Program.bind]
    split_ifs with hversion
    · exact hk _ t ht
    · refine tidy_find rfl ht (fun e u hu => hk _ u hu) (fun u hu => hk _ u hu)
        fun target u hid hu hworks => ?_
      simp only [Program.bind]
      cases s.switchCheck target with
      | some e => exact hk _ u hu
      | none => exact tidy_switchRecord hid hu hworks hk

theorem tidy_uninstallRecord {record : PluginVersion} (hid : record.pluginID = pluginID)
    (hw : WorksOn pluginID record.key state w) (hk : Resumes pluginID k) :
    Under tidiness pluginID (Steps.uninstallRecord pluginID record >>= k) w := by
  refine tidy_write hid hw fun p t hp ht => tidy_any (.inl trivial) fun err u htu => ?_
  have hpid : p.pluginID = pluginID := (congrArg Prod.fst hp).trans hid
  have hu := ht.of_same hpid htu
  cases err with
  | some e => exact tidy_setFailure hpid hu rfl hk
  | none =>
  refine tidy_any (.inl trivial) fun err v huv => ?_
  have hv := hu.of_same hpid huv
  cases err with
  | some e => exact tidy_setFailure hpid hv rfl hk
  | none =>
  refine tidy_write hpid hv fun q t hq ht => tidy_any (.inl trivial) fun rows u htu => ?_
  have hqid : q.pluginID = pluginID := (congrArg Prod.fst hq).trans hpid
  have hu := (ht.of_same hqid htu).tidied rfl
  cases rows with
  | error e => exact hk _ u hu
  | ok rows =>
      simp only [pure_eq, Program.bind]
      split_ifs with hremaining
      · exact hk _ u hu
      · exact tidy_any (.inl trivial) fun _ v huv => hk _ v (hu.of_same huv)

theorem tidy_uninstallUnlocked {version : String} (hw : Tidied pluginID w)
    (hk : Resumes pluginID k) :
    Under tidiness pluginID (Steps.uninstallUnlocked pluginID version >>= k) w := by
  refine tidy_find rfl hw (fun e t ht => hk _ t ht) (fun t ht => hk _ t ht)
    fun record t hid ht hworks => ?_
  simp only [Program.bind]
  split_ifs with hstable
  · exact tidy_uninstallRecord hid hworks hk
  · exact hk _ t ht

theorem tidy_unlocked {s : Service} {op : Operation} (hid : op.pluginID = pluginID)
    (hw : Tidied pluginID w) (hk : Resumes pluginID k) :
    Under tidiness pluginID (Steps.unlocked s op >>= k) w := by
  subst hid
  cases op with
  | enable pluginID version => exact tidy_enableUnlocked hw hk
  | disable pluginID => exact tidy_disableUnlocked hw hk
  | switchEnabledVersion pluginID version => exact tidy_switchUnlocked hw hk
  | uninstall pluginID version => exact tidy_uninstallUnlocked hw hk

end

/-! ## The installation -/

section
variable {pluginID : String} {w : World} {k : PluginVersion × Option InstallError → Steps Outcome}

/-- A registered version is at work, and no other version of the plugin. -/
theorem tidy_createOrRetryInstall {site : CallSite} {r : Registration}
    {next : (NamedCall.mk site (.createOrRetryInstall r)).Reply → Steps Outcome}
    (hid : r.record.pluginID = pluginID) (hw : Tidied pluginID w)
    (herror : ∀ e t, Tidied pluginID t → Under tidiness pluginID (next (some e)) t)
    (hnext : ∀ t, WorksOn pluginID r.record.key .installing t →
      Under tidiness pluginID (next none) t) :
    Under tidiness pluginID (.call ⟨site, .createOrRetryInstall r⟩ next) w := by
  refine tidy_call (fun _ h => nomatch h) fun t fault hst _ => ?_
  have ht := hw.of_same hst
  rcases hreply : t.createOrRetryInstall fault r with ⟨t', err⟩
  have hanswer : t.answer fault ⟨site, .createOrRetryInstall r⟩ = (t', err) := hreply
  have hlocks := createOrRetryInstall_locks (w := t) fault r
  rw [hreply] at hlocks
  rw [hanswer]
  cases err with
  | some e =>
      have hsame := createOrRetryInstall_refused (congrArg Prod.snd hreply)
      rw [hreply] at hsame
      obtain rfl : t' = t := hsame
      exact ⟨fun _ _ => rfl, rfl, herror e _ ht⟩
  | none =>
      obtain ⟨⟨p, hmoves, hp⟩, -, -⟩ := createOrRetryInstall_moves hreply
      refine ⟨fun key hkey => hmoves.find_other key fun h => hkey (h ▸ hid), hlocks,
        hnext t' ⟨?_, fun key state hkey hne hstate => ?_⟩⟩
      · rw [hmoves.stateOf_eq, hp]
      · rw [hmoves.stateOf_other hne] at hstate
        exact ht key state hkey hstate

theorem tidy_finishInstall {e : InstallWeather} {m : InstallManifest} {bundled : Bool}
    {r : Registration} (hid : r.record.pluginID = pluginID)
    (hw : WorksOn pluginID r.record.key .installing w) (hk : Resumes pluginID k) :
    Under tidiness pluginID (Steps.finishInstall e m bundled r >>= k) w := by
  unfold Steps.finishInstall
  cases runValidate m bundled e.validate with
  | some err =>
      refine tidy_write hid hw fun p t _ ht => ?_
      exact tidy_any (.inl trivial) fun _ u htu => hk _ u ((ht.tidied rfl).of_same htu)
  | none =>
      refine tidy_write hid hw fun p t _ ht => ?_
      exact tidy_any (.inl trivial) fun _ u htu => hk _ u ((ht.tidied rfl).of_same htu)

theorem tidy_installUnlocked {I : Installer} {e : InstallWeather} {input : InstallInput}
    {c : Checked} (hw : Tidied c.manifest.id w) (hk : Resumes c.manifest.id k) :
    Under tidiness c.manifest.id (Steps.installUnlocked I e input c >>= k) w := by
  unfold Steps.installUnlocked
  cases safePluginDir I.storageDir c.manifest.id c.manifest.version with
  | error err => exact hk _ w hw
  | ok dir =>
      refine tidy_any (.inl trivial) fun existing t hst => ?_
      have ht := hw.of_same hst
      cases existing with
      | error err => exact hk _ t ht
      | ok existing =>
      simp only [Program.bind]
      cases Steps.existingConflict existing (isBundledInstall input) with
      | some err => exact hk _ t ht
      | none =>
      cases storeArtifact e with
      | some err => exact hk _ t ht
      | none =>
          refine tidy_createOrRetryInstall rfl ht (fun e t ht => hk _ t ht) fun t ht => ?_
          exact tidy_finishInstall rfl ht hk

end

/-! ## Runs -/

theorem tidy_release {pluginID : String} {w : World} {k : Unit → Outcome}
    (hw : Tidied pluginID w) :
    Under tidiness pluginID (.call ⟨.other, .release pluginID⟩ fun u => .done (k u)) w :=
  ⟨call_ne_done, trivial, fun _ hst _ _ => ⟨⟨fun _ _ => rfl, .inl ⟨rfl, _, rfl⟩,
    fun _ => hw.of_same hst⟩, trivial⟩⟩

theorem program_tidies (I : Installer) (r : OperationRequest) : Enters tidiness (r.program I) := by
  cases r with
  | operate op =>
      refine .locks op.pluginID _ _ rfl fun w hw => ?_
      show Under tidiness op.pluginID ((Steps.unlocked I.service op >>= _) >>= _) w
      rw [Interleaving.bind_assoc]
      exact tidy_unlocked rfl hw fun _ _ ht => tidy_release ht
  | install e input =>
      dsimp only [OperationRequest.program]
      unfold Steps.install
      cases I.check input with
      | error err => exact .returned _
      | ok c =>
          refine .locks c.manifest.id _ _ rfl fun w hw => ?_
          show Under tidiness c.manifest.id ((Steps.installUnlocked I e input c >>= _) >>= _) w
          rw [Interleaving.bind_assoc]
          exact tidy_installUnlocked hw fun _ _ ht => tidy_release ht

section
variable {ι : Type} [DecidableEq ι]

/-- The next call is no write of a state, or one that does what it was to do. -/
def WritesCall (w : World) (fault : Option String) : Steps Outcome → Prop
  | .done _ => True
  | .call c _ => c.Wrote (w.answer fault c).2

/-- Every write of a state goes through. -/
def Writes (s : PluginPool ι) : PluginAction ι → Prop
  | .start _ _ => True
  | .call client fault => WritesCall s.shared fault (s.threads client)

/-- A version in a transitional state is one that the owner of its plugin is at work on. -/
structure Tidy (s : PluginPool ι) (owner : ι → Option String) : Prop extends
    Owned tidiness s owner where
  owned : ∀ (k : Key) state, s.shared.stateOf k = some state → state.transitional = true →
    ∃ i, owner i = some k.1

variable {I : Installer} {s t : PluginPool ι} {owner : ι → Option String} {i : ι}

omit [DecidableEq ι] in
/-- A plugin without an owner is tidy. -/
theorem Tidy.tidied (h : Tidy s owner) {pluginID : String} (hfree : ∀ i, owner i ≠ some pluginID) :
    Tidied pluginID s.shared := by
  rintro k state rfl hstate
  by_contra hne
  obtain ⟨i, hi⟩ := h.owned k state hstate (by simpa using hne)
  exact hfree i hi

theorem Tidy.call (h : Tidy s owner) {fault : Option String} (hwrites : Writes s (.call i fault))
    (ht : s.call World.answer i fault = some t) : ∃ owner', Tidy t owner' := by
  have hadvance : Advance tidiness s t owner i fault := by
    cases howner : owner i with
    | none =>
        refine h.toOwned.enter (fun pluginID hfree u hst => ?_) howner ht
        refine Tidied.of_same (h.tidied fun j hj => ?_) hst
        exact hfree (h.inside j pluginID hj).locked
    | some pluginID =>
        refine h.toOwned.proceed howner (fun c next hthread => ?_) ht
        have hwrites : WritesCall s.shared fault (s.threads i) := hwrites
        rwa [hthread] at hwrites
  cases hadvance with
  | refused howner hshared hdone howned => exact ⟨owner, howned, by rw [hshared]; exact h.owned⟩
  | acquired howner pluginID hfree hshared hapt howned =>
      refine ⟨_, howned, fun k state hstate htransitional => ?_⟩
      rw [hshared] at hstate
      obtain ⟨j, hj⟩ := h.owned k state hstate htransitional
      refine ⟨j, ?_⟩
      rw [Function.update_of_ne ?_, hj]
      rintro rfl
      rw [howner] at hj
      cases hj
  | proceeded pluginID c next howner hthread hgood hworld hself own hown howned =>
      refine ⟨_, howned, fun k state hstate htransitional => ?_⟩
      by_cases hk : k.1 = pluginID
      · obtain ⟨hrelease, -⟩ | rfl := hown
        · -- the row was tidy before the release and is the same after it
          have hsame : t.shared.registry = s.shared.registry := by
            obtain ⟨site, call⟩ := c
            obtain rfl : call = .release pluginID := hrelease
            rw [hworld]
            rfl
          rw [World.stateOf, hsame] at hstate
          have htidied := hgood.tidied hrelease k state hk hstate
          rw [htransitional] at htidied
          cases htidied
        · exact ⟨i, by rw [Function.update_self, hk]⟩
      · rw [hworld, World.stateOf, hgood.frame k hk] at hstate
        obtain ⟨j, hj⟩ := h.owned k state hstate htransitional
        refine ⟨j, ?_⟩
        rw [Function.update_of_ne ?_, hj]
        rintro rfl
        exact hk (Option.some.inj (hj.symm.trans howner))

end

instance decidableWrote : ∀ (c : NamedCall) (reply : c.Reply), Decidable (c.Wrote reply)
  | ⟨_, .write _ _ _ _ _⟩, reply => inferInstanceAs (Decidable (reply.2 = none))
  | ⟨_, .start _⟩, _ | ⟨_, .stop _⟩, _ | ⟨_, .disableHooks _⟩, _ | ⟨_, .listEnabled⟩, _
  | ⟨_, .tryAcquire _⟩, _ | ⟨_, .release _⟩, _ | ⟨_, .find _⟩, _ | ⟨_, .findEnabled _⟩, _
  | ⟨_, .listInstallable _⟩, _ | ⟨_, .list⟩, _ | ⟨_, .createOrRetryInstall _⟩, _
  | ⟨_, .setInstallLog _⟩, _ | ⟨_, .refresh _⟩, _ | ⟨_, .removeArtifact⟩, _
  | ⟨_, .getConfig _⟩, _ | ⟨_, .upsertConfig _⟩, _ | ⟨_, .deleteConfig _⟩, _
  | ⟨_, .deleteUninstalled _⟩, _ | ⟨_, .tokens⟩, _ => .isTrue trivial

instance (w : World) (fault : Option String) : ∀ p, Decidable (WritesCall w fault p)
  | .done _ => .isTrue trivial
  | .call _ _ => inferInstanceAs (Decidable (NamedCall.Wrote _ _))

instance {ι : Type} [DecidableEq ι] (s : PluginPool ι) : ∀ a, Decidable (Writes s a)
  | .start _ _ => .isTrue trivial
  | .call _ _ => inferInstanceAs (Decidable (WritesCall _ _ _))

/-- A version is being enabled, and its runtime does not start. -/
def enabling : List (PluginAction Bool) :=
  [.start true (.operate (.enable "acme/demo" "1.0.0")), .call true none, .call true none,
    .call true none, .call true (some "exec format error")]

end GoSite.Plugin
