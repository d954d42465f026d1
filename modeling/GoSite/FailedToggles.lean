import GoSite.WebsiteRollback

/-!
# Toggles that fail

A toggle switches the link, reloads nginx and then writes the row, and it switches the
link back when a later step fails. The row is not written back, so a toggle that fails
only in reading the written row again leaves the new flag there.
-/
namespace GoSite.Website

/-- The flag of the row and the link are what they were. -/
def Panel.ToggleKept (s t : Panel) (site : Website) : Prop :=
  (t.repo.findByID site.id).map Website.active = some site.active ∧
    t.files.activeD (confName site.domain) = s.files.activeD (confName site.domain)

/-- Once the link was switched and a later step fails, the link can be switched back. -/
def RollbackWorks (s : Panel) (e : Weather) (site : Website) : Prop :=
  s.files.Switches e site.domain (!site.active) →
    ¬ e.Works [.reload, .updateRow, .updateRead] → s.files.Switches e site.domain site.active

/-- The toggle gets as far as writing the row. -/
def WritesRow (s : Panel) (e : Weather) (site : Website) : Prop :=
  s.files.Switches e site.domain (!site.active) ∧ e.Works [.reload, .updateRow]

section
variable {s : Panel} {e : Weather} {id : ℕ} {site : Website}

/-- A switch that works leaves the link as asked for. -/
theorem activeD_setEnabled {f : SiteFiles} {on : Bool} (h : f.Switches e site.domain on) :
    f.setEnabled e site.domain on =
      ({ f with activeD := Function.update f.activeD (confName site.domain) on }, none) := by
  obtain ⟨err, -, hnot⟩ | ⟨heq, -⟩ := setEnabled_cases f e site.domain on
  · exact absurd h hnot
  · exact heq

/-- The link after the rollback, whatever the reload repaired before it. -/
theorem activeD_back (h : s.files.Switches e site.domain site.active) {f : SiteFiles}
    (hfile : ∀ m, (f.siteD m).isSome = (s.files.siteD m).isSome) :
    (f.setEnabled e site.domain site.active).1.activeD (confName site.domain) = site.active := by
  rw [activeD_setEnabled (switches_reload hfile h)]
  simp

theorem toggle_refused (hfind : s.repo.findByID id = some site)
    (hnot : ¬ s.files.Switches e site.domain (!site.active)) :
    (Service.toggle e s id).1 = s := by
  obtain ⟨err, heq, -⟩ | ⟨-, hswitch⟩ := setEnabled_cases s.files e site.domain (!site.active)
  · rw [Service.toggle, hfind]
    dsimp only
    rw [heq]
  · exact absurd hswitch hnot

/-- The files once the link was switched and nginx was told. -/
def switchedFiles (s : Panel) (e : Weather) (site : Website) : SiteFiles :=
  (SiteFiles.reload { s.files with
    activeD := Function.update s.files.activeD (confName site.domain) (!site.active) } e .reload).1

theorem switchedFiles_isSome (m : List Char) :
    ((switchedFiles s e site).siteD m).isSome = (s.files.siteD m).isSome :=
  (reload_fst _ e .reload).2 m

/-- A toggle that fails in a reload or in the write of the row switches the link back. -/
theorem toggle_undone (hfind : s.repo.findByID id = some site)
    (hswitch : s.files.Switches e site.domain (!site.active))
    (hfails : ¬ e.Works [.reload, .updateRow]) :
    (Service.toggle e s id).1.repo = s.repo ∧
      (Service.toggle e s id).1.files.activeD =
        ((switchedFiles s e site).setEnabled e site.domain site.active).1.activeD := by
  rw [Service.toggle, hfind]
  dsimp only
  rw [activeD_setEnabled hswitch]
  dsimp only
  rw [show ∀ f : SiteFiles, f.reload e .reload = ((f.reload e .reload).1, e.faults .reload) from
    fun f => rfl, ← switchedFiles]
  cases hreload : e.faults .reload with
  | some err => exact ⟨rfl, rfl⟩
  | none =>
      cases hrow : e.faults .updateRow with
      | some err =>
          simp only [Panel.updateRow, hrow]
          exact ⟨trivial, (reload_fst _ e .reloadAgain).1⟩
      | none => exact absurd (by simp [Weather.Works, hreload, hrow]) hfails

/-- A toggle that writes the row answers by whether it can read it back. -/
theorem toggle_written (hfind : s.repo.findByID id = some site) (h : WritesRow s e site) :
    match e.faults .updateRead with
    | some _ => (∃ err, (Service.toggle e s id).2 = .error err) ∧
        (Service.toggle e s id).1.repo =
          s.repo.update (Website.stamped { site with active := !site.active } e.now)
    | none => ∃ q, (Service.toggle e s id).2 = .ok q := by
  obtain ⟨hswitch, hworks⟩ := h
  have hreload : e.faults .reload = none := hworks .reload (by simp)
  have hrow : e.faults .updateRow = none := hworks .updateRow (by simp)
  rw [Service.toggle, hfind]
  dsimp only
  rw [activeD_setEnabled hswitch]
  dsimp only
  rw [show ∀ f : SiteFiles, f.reload e .reload = ((f.reload e .reload).1, e.faults .reload) from
    fun f => rfl, ← switchedFiles, hreload]
  simp only [Panel.updateRow, hrow]
  cases e.faults .updateRead with
  | some err => exact ⟨⟨_, rfl⟩, rfl⟩
  | none => exact ⟨_, rfl⟩

end

/-- A toggle that fails changes nothing exactly when it did not fail in reading back a row
that it had written. -/
theorem failed_toggle_keeps_iff {s : Panel} {e : Weather} {site : Website}
    (hfind : s.repo.findByID site.id = some site)
    (hagree : s.files.activeD (confName site.domain) = site.active)
    (hrollback : RollbackWorks s e site) :
    (∀ err, (Service.toggle e s site.id).2 = .error err →
        s.ToggleKept (Service.toggle e s site.id).1 site) ↔
      (WritesRow s e site → e.faults .updateRead = none) := by
  by_cases hwrites : WritesRow s e site
  · have hwritten := toggle_written hfind hwrites
    cases hread : e.faults .updateRead with
    | none =>
        rw [hread] at hwritten
        obtain ⟨q, hok⟩ := hwritten
        refine iff_of_true (fun err herr => ?_) fun _ => rfl
        rw [hok] at herr
        cases herr
    | some fault =>
        rw [hread] at hwritten
        obtain ⟨⟨err, herr⟩, hrepo⟩ := hwritten
        refine iff_of_false (fun hkept => ?_) fun h => by cases h hwrites
        have hflag := (hkept err herr).1
        have hrow := @findByID_update site s.repo
          (Website.stamped { site with active := !site.active } e.now)
          (findByID_eq_some hfind).1 rfl
        rw [hrepo, hrow] at hflag
        simp [Website.stamped] at hflag
  · refine iff_of_true (fun err _ => ?_) fun h => absurd h hwrites
    have hrow : (s.repo.findByID site.id).map Website.active = some site.active := by
      rw [hfind]
      rfl
    by_cases hswitch : s.files.Switches e site.domain (!site.active)
    · have hfails : ¬ e.Works [.reload, .updateRow] := fun hworks => hwrites ⟨hswitch, hworks⟩
      have hlater : ¬ e.Works [.reload, .updateRow, .updateRead] :=
        fun hworks => hfails fun c hc => hworks c (by simp at hc ⊢; tauto)
      obtain ⟨hrepo, hlink⟩ := toggle_undone hfind hswitch hfails
      refine ⟨by rwa [hrepo], ?_⟩
      rw [hlink, hagree]
      exact activeD_back (hrollback hswitch hlater) switchedFiles_isSome
    · rw [toggle_refused hfind hswitch]
      exact ⟨hrow, rfl⟩

/-- The stored row cannot be read back. -/
def unreadRow : Weather :=
  { calmWeather with faults := fun c => if c = .updateRead then some "locked" else none }

def idleSite : Website := ⟨1, "a", "a.b", "/w/a", "static", "", false, "", false, 0⟩

/-- A website that is not active, with its configuration. -/
def idlePanel : Panel where
  repo := WebsiteRepository.empty.insert idleSite
  files := ⟨fun n => if n = confName "a.b" then some "server" else none, fun _ => false⟩

theorem failed_toggle_keeps_idle :
    (∀ err, (Service.toggle unreadRow idlePanel 1).2 = .error err →
        idlePanel.ToggleKept (Service.toggle unreadRow idlePanel 1).1 idleSite) ↔
      (WritesRow idlePanel unreadRow idleSite → unreadRow.faults .updateRead = none) :=
  @failed_toggle_keeps_iff idlePanel unreadRow idleSite (by decide) (by decide)
    (fun _ _ => (by decide : unreadRow.faults .disableSite = none))

/-- The toggle returns an error and has switched the link back, and the row says active. -/
theorem unread_toggle_keeps_flag :
    (∃ err, (Service.toggle unreadRow idlePanel 1).2 = .error err) ∧
      idlePanel.files.activeD (confName "a.b") = idleSite.active ∧
      RollbackWorks idlePanel unreadRow idleSite ∧
      (Service.toggle unreadRow idlePanel 1).1.files.activeD (confName "a.b") = false ∧
      ((Service.toggle unreadRow idlePanel 1).1.repo.findByID 1).map Website.active =
        some true := by
  refine ⟨⟨.wrap .database "update active flag" "find website by id: locked", by decide⟩,
    by decide, fun _ _ => (by decide : unreadRow.faults .disableSite = none), by decide,
    by decide⟩

end GoSite.Website
