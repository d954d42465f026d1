import GoSite.LockedOperations

/-!
# Operations side by side

Any number of clients run lifecycle operations, one call at a time and in any order, each
under the lock of its plugin. The dispatcher is given a list that was read one call earlier,
so it ends with the enabled versions as long as no call of another operation changes them
in between.
-/
namespace GoSite.Plugin
open GoStrings Interleaving GuardedRuns

section
variable {ι : Type} [DecidableEq ι]

/-- The next call gives a list to the dispatcher. -/
def Pending (p : Steps Outcome) : Prop :=
  ∃ site plugins after, p = .call ⟨site, .refresh plugins⟩ after

/-- The call does what it was to do, and changes no enabled version while another client is
about to give its list to the dispatcher. -/
def ClearCall (s : PluginPool ι) (client : ι) (fault : Option String) : Steps Outcome → Prop
  | .done _ => True
  | .call c _ => c.Calm (s.shared.answer fault c).2 ∧
      ((∃ other, other ≠ client ∧ Pending (s.threads other)) →
        (s.shared.answer fault c).1.enabled = s.shared.enabled)

/-- The calls of a run in which nothing fails and no list is overtaken. -/
def Clear (s : PluginPool ι) : PluginAction ι → Prop
  | .start _ _ => True
  | .call client fault => ClearCall s client fault (s.threads client)

/-- Lists on their way to the dispatcher are true, and its targets are, unless a client still
comes to a refresh. -/
structure Pooled (s : PluginPool ι) (owner : ι → Option String) : Prop extends
    Owned soundness s owner where
  fresh : ∀ i site plugins after, s.threads i = .call ⟨site, .refresh plugins⟩ after →
    s.shared.Lists plugins
  agree : s.shared.TargetsAgree ∨ ∃ i, RefreshAhead (s.threads i)

theorem Enters.noList {p : Steps Outcome} (h : Enters soundness p) : NoList p := by
  cases h with
  | returned a => nofun
  | locks pluginID next refused hrefused hnext => nofun

/-- Before it has the lock a program may return, so it comes to no refresh for certain. -/
theorem Enters.not_ahead {p : Steps Outcome} (h : Enters soundness p) : ¬ RefreshAhead p := by
  cases h with
  | returned a => exact id
  | locks pluginID next refused hrefused hnext =>
      rintro (⟨plugins, hplugins⟩ | hahead)
      · cases hplugins
      · have hfalse := hahead false trivial
        rw [hrefused] at hfalse
        exact hfalse

omit [DecidableEq ι] in
theorem pooled_idle {w : World} (hw : w.TargetsAgree) :
    Pooled (idlePool w : PluginPool ι) fun _ => none where
  toOwned := owned_idle soundness w
  fresh _ _ _ _ h := by cases h
  agree := .inl hw

variable {I : Installer} {s t : PluginPool ι} {owner : ι → Option String} {i : ι}

/-- What one client does to the lists and the targets. -/
theorem Pooled.update (h : Pooled s owner) {owner' : ι → Option String}
    (howned : Owned soundness t owner') (hothers : ∀ j ≠ i, t.threads j = s.threads j)
    (hfresh : ∀ site plugins after, t.threads i = .call ⟨site, .refresh plugins⟩ after →
      t.shared.Lists plugins)
    (hcalm : (∃ j ≠ i, Pending (s.threads j)) → t.shared.enabled = s.shared.enabled)
    (hagree : t.shared.TargetsAgree ∨ RefreshAhead (t.threads i) ∨
      ∃ j ≠ i, RefreshAhead (s.threads j)) : Pooled t owner' where
  toOwned := howned
  fresh j site plugins after hj := by
    by_cases hji : j = i
    · subst hji
      exact hfresh site plugins after hj
    · rw [hothers j hji] at hj
      have hsame := hcalm ⟨j, hji, site, plugins, after, hj⟩
      intro k
      rw [hsame]
      exact h.fresh j site plugins after hj k
  agree := by
    obtain hagree | hahead | ⟨j, hji, hahead⟩ := hagree
    · exact .inl hagree
    · exact .inr ⟨i, hahead⟩
    · exact .inr ⟨j, by rwa [hothers j hji]⟩

omit [DecidableEq ι] in
/-- A client outside comes to no refresh, so another one does. -/
theorem Pooled.agree_outside (h : Pooled s owner) (hi : Enters soundness (s.threads i)) :
    s.shared.TargetsAgree ∨ ∃ j ≠ i, RefreshAhead (s.threads j) := by
  refine h.agree.imp_right ?_
  rintro ⟨j, hj⟩
  refine ⟨j, ?_, hj⟩
  rintro rfl
  exact hi.not_ahead hj

/-- A client begins. -/
theorem Pooled.start (h : Pooled s owner) {r : OperationRequest}
    (ht : s.start i (r.program I) = some t) : Pooled t owner := by
  obtain ⟨howned, howner, hshared, hthreads⟩ := h.toOwned.start (program_enters I r) ht
  have hself : t.threads i = r.program I := by rw [hthreads, Function.update_self]
  refine h.update howned (fun j hj => by rw [hthreads, Function.update_of_ne hj]) ?_
    (fun _ => by rw [hshared]) ?_
  · intro site plugins after hi
    exact absurd (hself.symm.trans hi) ((program_enters I r).noList site plugins after)
  · rw [hshared]
    exact (h.agree_outside (h.outside i howner)).imp_right .inr

/-- The client's call keeps the targets agreed, or a refresh is still to come. -/
theorem Pooled.proceed_agree (h : Pooled s owner) {fault : Option String} {pluginID : String}
    {c : NamedCall} {next : c.Reply → Steps Outcome} (hthread : s.threads i = .call c next)
    (hsound : Sound pluginID s.shared fault c next)
    (hcalm : c.Calm (s.shared.answer fault c).2) :
    (s.shared.answer fault c).1.TargetsAgree ∨ RefreshAhead (next (s.shared.answer fault c).2) ∨
      ∃ j ≠ i, RefreshAhead (s.threads j) := by
  by_cases hrefresh : c.Refreshes
  · obtain ⟨plugins, hplugins⟩ := hrefresh
    obtain ⟨site, call⟩ := c
    obtain rfl : call = .refresh plugins := hplugins
    exact .inl fun k => h.fresh i site plugins next hthread k
  obtain hnow | hahead | ⟨htargets, henabled⟩ := hsound.targets
  · exact absurd hnow hrefresh
  · exact .inr (.inl hahead)
  obtain hagree | ⟨j, hj⟩ := h.agree
  · refine .inl fun k => ?_
    have hk : k ∈ (s.shared.answer fault c).1.enabled ↔ k ∈ s.shared.enabled := by rw [henabled]
    rw [World.targetKeys, htargets]
    exact (hagree k).trans hk.symm
  · by_cases hji : j = i
    · subst hji
      rw [hthread] at hj
      obtain hnow | hnext := hj
      · exact absurd hnow hrefresh
      · exact .inr (.inl (hnext _ hcalm))
    · exact .inr (.inr ⟨j, hji, hj⟩)

/-- A call, as long as it is clear. -/
theorem Pooled.call (h : Pooled s owner) {fault : Option String}
    (hclear : Clear s (.call i fault)) (ht : s.call World.answer i fault = some t) :
    ∃ owner', Pooled t owner' := by
  obtain ⟨c, next, hthread, hworld, hthreads⟩ := Pool.call_eq_some ht
  have hothers : ∀ j ≠ i, t.threads j = s.threads j := fun j hj => by
    rw [hthreads, Function.update_of_ne hj]
  have hclear : ClearCall s i fault (s.threads i) := hclear
  rw [hthread] at hclear
  obtain ⟨hcalm, hquiet⟩ := hclear
  have hadvance : Advance soundness s t owner i fault := by
    cases howner : owner i with
    | none => exact h.toOwned.enter (fun _ _ _ _ => trivial) howner ht
    | some pluginID =>
        refine h.toOwned.proceed howner (fun c' next' hthread' => ?_) ht
        cases hthread.symm.trans hthread'
        exact hcalm
  cases hadvance with
  | refused howner hshared hdone howned =>
      obtain ⟨a, ha⟩ := hdone
      refine ⟨_, h.update howned hothers ?_ (fun _ => by rw [hshared]) ?_⟩
      · intro site plugins after hi
        cases ha.symm.trans hi
      · rw [hshared]
        exact (h.agree_outside (h.outside i howner)).imp_right .inr
  | acquired howner pluginID hfree hshared hapt howned =>
      refine ⟨_, h.update howned hothers ?_ (fun _ => by rw [hshared]; rfl) ?_⟩
      · intro site plugins after hi
        exact absurd hi (hapt site plugins after)
      · rw [hshared]
        exact (h.agree_outside (h.outside i howner)).imp_right .inr
  | proceeded pluginID c' next' howner hthread' hgood hworld' hself own hown howned =>
      cases hthread.symm.trans hthread'
      have hagree := h.proceed_agree hthread hgood hcalm
      rw [← hworld, ← hself] at hagree
      refine ⟨_, h.update howned hothers ?_ ?_ hagree⟩
      · rw [hself, hworld]
        exact hgood.fresh
      · rw [hworld]
        exact hquiet

/-- The order in which operations on different plugins make their calls does not matter:
where every call does what it was to do and no list is overtaken on its way to the
dispatcher, the targets are the enabled versions once all operations have returned. -/
theorem operations_converge (I : Installer) {w : World} (hw : w.TargetsAgree)
    (actions : List (PluginAction ι)) (hclear : Guarded (poolStep I) Clear (idlePool w) actions)
    (hrun : run (poolStep I) (idlePool w) actions = some t)
    (hdone : ∀ i, ∃ a, t.threads i = .done a) : t.shared.TargetsAgree := by
  have hstep : ∀ (s : PluginPool ι) a t, (∃ owner, Pooled s owner) → Clear s a → poolStep I s a = some t →
      ∃ owner, Pooled t owner := by
    rintro s a t ⟨owner, hs⟩ hclear ht
    cases a with
    | start client r => exact ⟨_, hs.start ht⟩
    | call client fault => exact hs.call hclear ht
  obtain ⟨owner, ht⟩ := (along_of_guarded hstep ⟨_, pooled_idle hw⟩ hclear).last hrun
  obtain hagree | ⟨i, hi⟩ := ht.agree
  · exact hagree
  · obtain ⟨a, ha⟩ := hdone i
    rw [ha] at hi
    exact hi.elim

/-! ## Runs that can be tested -/

instance decidableCalm : ∀ (c : NamedCall) (reply : c.Reply), Decidable (c.Calm reply)
  | ⟨_, .write _ _ _ _ _⟩, reply => inferInstanceAs (Decidable (reply.2 = none))
  | ⟨_, .start _⟩, reply | ⟨_, .stop _⟩, reply | ⟨_, .disableHooks _⟩, reply =>
      inferInstanceAs (Decidable (reply = none))
  | ⟨_, .listEnabled⟩, .ok plugins => .isTrue ⟨plugins, rfl⟩
  | ⟨_, .listEnabled⟩, .error _ => .isFalse nofun
  | ⟨_, .tryAcquire _⟩, _ | ⟨_, .release _⟩, _ | ⟨_, .find _⟩, _ | ⟨_, .findEnabled _⟩, _
  | ⟨_, .listInstallable _⟩, _ | ⟨_, .list⟩, _ | ⟨_, .createOrRetryInstall _⟩, _
  | ⟨_, .setInstallLog _⟩, _ | ⟨_, .refresh _⟩, _ | ⟨_, .removeArtifact⟩, _
  | ⟨_, .getConfig _⟩, _ | ⟨_, .upsertConfig _⟩, _ | ⟨_, .deleteConfig _⟩, _
  | ⟨_, .deleteUninstalled _⟩, _ | ⟨_, .tokens⟩, _ => .isTrue trivial

/-- Whether the next call gives a list to the dispatcher. -/
def isPending : Steps Outcome → Bool
  | .call ⟨_, .refresh _⟩ _ => true
  | _ => false

theorem isPending_iff (p : Steps Outcome) : isPending p = true ↔ Pending p := by
  constructor
  · intro h
    unfold isPending at h
    split at h
    · exact ⟨_, _, _, rfl⟩
    · cases h
  · rintro ⟨site, plugins, after, rfl⟩
    rfl

instance : DecidablePred Pending := fun p => decidable_of_iff _ (isPending_iff p)

def World.enabledKeys (w : World) : List Key :=
  (w.registry.rows.filter fun p => p.state = .enabled).map PluginVersion.key

theorem mem_enabledKeys {w : World} {k : Key} : k ∈ w.enabledKeys ↔ k ∈ w.enabled := by
  rw [← lists_listEnabled w k]
  simp [World.enabledKeys, Registry.listEnabled]

instance (w w' : World) : Decidable (w.enabled = w'.enabled) :=
  decidable_of_iff ((∀ k ∈ w.enabledKeys, k ∈ w'.enabledKeys) ∧
      ∀ k ∈ w'.enabledKeys, k ∈ w.enabledKeys)
    (by simp only [mem_enabledKeys, Set.ext_iff, iff_def, forall_and])

instance [Fintype ι] (s : PluginPool ι) (client : ι) (fault : Option String) :
    ∀ p, Decidable (ClearCall s client fault p)
  | .done _ => .isTrue trivial
  | .call _ _ => inferInstanceAs (Decidable (_ ∧ (_ → _)))

instance [Fintype ι] (s : PluginPool ι) : ∀ a, Decidable (Clear s a)
  | .start _ _ => .isTrue trivial
  | .call _ _ => inferInstanceAs (Decidable (ClearCall _ _ _ _))

end

/-- Two plugins, each installed. -/
def twoPlugins : World where
  registry := ⟨[demoRow, { demoRow with id := 2, pluginID := "acme/other" }],
    by decide, by decide, by decide⟩
  running := []
  targets := []
  configs := []
  locks := []

/-- Both are enabled, the calls of the two clients taking turns. -/
def turns : List (PluginAction Bool) :=
  [.start false (.operate (.enable "acme/demo" "1.0.0")),
    .start true (.operate (.enable "acme/other" "1.0.0"))] ++
  (List.replicate 9 [.call false none, .call true none]).flatten

/-- The first client reads its list before the second has enabled its plugin, and hands it
over afterwards. -/
def overtaken : List (PluginAction Bool) :=
  [.start false (.operate (.enable "acme/demo" "1.0.0")),
    .start true (.operate (.enable "acme/other" "1.0.0"))] ++
  List.replicate 6 (.call false none) ++ List.replicate 9 (.call true none) ++
  List.replicate 3 (.call false none)

def isReturned : Steps Outcome → Bool
  | .done _ => true
  | .call _ _ => false

theorem isReturned_iff {p : Steps Outcome} (h : isReturned p = true) : ∃ a, p = .done a := by
  cases p with
  | done a => exact ⟨a, rfl⟩
  | call c next => cases h

theorem twoPlugins_agree : twoPlugins.TargetsAgree := by
  intro k
  refine iff_of_false (by simp [World.targetKeys, twoPlugins]) ?_
  intro h
  obtain ⟨p, hp, hstate⟩ := Option.map_eq_some_iff.mp h
  have hnone : ∀ p ∈ twoPlugins.registry.rows, p.state ≠ .enabled := by decide
  exact hnone p (Registry.find_mem hp) hstate

/-- A run of the theorem above. -/
theorem operations_converge_turns :
    ∃ t, run (poolStep demoInstaller) (idlePool twoPlugins) turns = some t ∧
      t.shared.TargetsAgree := by
  have hrun : ((run (poolStep demoInstaller) (idlePool twoPlugins) turns).map fun t =>
      decide (∀ i, isReturned (t.threads i) = true)) = some true := by
    decide +kernel
  obtain ⟨t, ht, hdone⟩ := Option.map_eq_some_iff.mp hrun
  refine ⟨t, ht, operations_converge demoInstaller twoPlugins_agree turns ?_ ht fun i => ?_⟩
  · decide +kernel
  · exact isReturned_iff (of_decide_eq_true hdone i)

/-- The list that is overtaken is the one the dispatcher keeps. -/
theorem overtaken_disagrees :
    ∃ t, run (poolStep demoInstaller) (idlePool twoPlugins) overtaken = some t ∧
      (∀ i, ∃ a, t.threads i = .done a) ∧ ¬ t.shared.TargetsAgree := by
  have hrun : ((run (poolStep demoInstaller) (idlePool twoPlugins) overtaken).map fun t =>
      decide ((∀ i, isReturned (t.threads i) = true) ∧
        ("acme/other", "1.0.0") ∉ t.shared.targetKeys ∧
        t.shared.stateOf ("acme/other", "1.0.0") = some .enabled)) = some true := by
    decide +kernel
  obtain ⟨t, ht, hall⟩ := Option.map_eq_some_iff.mp hrun
  obtain ⟨hdone, htarget, hstate⟩ := of_decide_eq_true hall
  refine ⟨t, ht, fun i => isReturned_iff (hdone i), fun hagree => htarget ?_⟩
  exact (hagree _).mpr hstate

end GoSite.Plugin
