import GoSite.WebsiteAgreement

/-!
# Edits that fail

An edit of a website writes its row and its configuration before it knows that
nginx takes the result. The service of the configuration files restores a file
after a test that fails; nothing restores the row, nor a file after a later step.
-/
namespace GoSite.Website

/-- The two operations that edit a stored website. -/
inductive Edit where
  | update (i : SiteInput)
  | updateNginxConfig (config : String)
  deriving Repr, DecidableEq

/-- The panel after an edit, and its error. -/
def Service.edit (v : Service) (e : Weather) (s : Panel) (id : ℕ) : Edit → Panel × Option SiteError
  | .update i =>
      match v.update e s id i with
      | (t, .error err) => (t, some err)
      | (t, .ok _) => (t, none)
  | .updateNginxConfig config => Service.updateNginxConfig e s id config

/-- The row, the file and the link of a website are what they were. -/
def Panel.Kept (s t : Panel) (site : Website) : Prop :=
  t.repo.findByID site.id = some site ∧
    t.files.siteD (confName site.domain) = s.files.siteD (confName site.domain) ∧
    t.files.activeD (confName site.domain) = s.files.activeD (confName site.domain)

instance (s t : Panel) (site : Website) : Decidable (s.Kept t site) :=
  inferInstanceAs (Decidable (_ ∧ _ ∧ _))

/-- What a reload makes of a text in a file. -/
def Weather.repaired (e : Weather) (n : List Char) (text : String) : String :=
  (e.repairs .reload).foldl (fun text r => if r.1 = n then r.2 else text) text

/-- The update stops before it writes the row, or nothing after that fails, or
all that was written is what was there. -/
def Service.UpdateKept (v : Service) (e : Weather) (s : Panel) (site : Website)
    (i : SiteInput) : Prop :=
  let old := s.files.siteD (confName site.domain)
  v.Rejects s (.update site.id i, e) ∨ v.Completes e (i.apply site) ∨
    (i.apply site).stamped e.now = site ∧
      (e.faults .updateRead ≠ none ∨
        match v.renderSiteConfig e .readTemplate (i.apply site), e.faults .writeConfig with
        | .error _, _ => True
        | .ok _, some _ => e.leaves .writeConfig = none ∨ e.leaves .writeConfig = old
        | .ok text, none => old = some text)

/-- The edit stops before it writes the file, or the test rejects it and there
is a text to restore, or nothing fails, or what was written is what was there. -/
def ConfigKept (e : Weather) (s : Panel) (site : Website) (config : String) : Prop :=
  let old := s.files.siteD (confName site.domain)
  let new := withoutCR config
  e.faults .backupConfig ≠ none ∧ old ≠ none ∨
    match e.faults .writeConfig with
    | some _ => e.leaves .writeConfig = none ∨ e.leaves .writeConfig = old
    | none =>
        if e.accepts new ≠ none then old.getD "" ≠ "" ∨ old = some new
        else if e.faults .configChanged ≠ none then old = some new
        else e.faults .reload = none ∨ old = some (e.repaired (confName site.domain) new)

def Service.EditKept (v : Service) (e : Weather) (s : Panel) (site : Website) : Edit → Prop
  | .update i => v.UpdateKept e s site i
  | .updateNginxConfig config => ConfigKept e s site config

section
variable {v : Service} {e : Weather} {s : Panel} {site : Website}

theorem kept_refl (hmem : site ∈ s.repo.rows) : s.Kept s site :=
  ⟨findByID_of_mem hmem, rfl, rfl⟩

/-- The row of an id after it was updated. -/
theorem findByID_update {g : WebsiteRepository} {q : Website} (hmem : site ∈ g.rows)
    (hid : q.id = site.id) : (g.update q).findByID site.id = some q := by
  have hq : q ∈ (g.update q).rows := mem_update_iff.mpr (.inl ⟨rfl, site, hmem, hid.symm⟩)
  rw [← hid]
  exact findByID_of_mem hq

/-- Once the row is written, a website is kept when the row restates the old one
and its file is as before. -/
theorem kept_update_iff {q : Website} (hmem : site ∈ s.repo.rows) (hid : q.id = site.id)
    (files : SiteFiles) (hlink : files.activeD (confName site.domain) =
      s.files.activeD (confName site.domain)) :
    s.Kept { repo := s.repo.update q, files := files } site ↔
      q = site ∧ files.siteD (confName site.domain) = s.files.siteD (confName site.domain) := by
  unfold Panel.Kept
  rw [findByID_update hmem hid, Option.some.injEq]
  constructor
  · rintro ⟨hq, hfile, -⟩
    exact ⟨hq, hfile⟩
  · rintro ⟨hq, hfile⟩
    exact ⟨hq, hfile, hlink⟩

theorem reload_siteD (f : SiteFiles) (e : Weather) (n : List Char) {text : String}
    (h : f.siteD n = some text) : (f.reload e .reload).1.siteD n = some (e.repaired n text) := by
  have hfold : ∀ (repairs : List (List Char × String)) (f : SiteFiles) (text : String),
      f.siteD n = some text → (repairs.foldl SiteFiles.repair f).siteD n =
        some (repairs.foldl (fun text r => if r.1 = n then r.2 else text) text) := by
    intro repairs
    induction repairs with
    | nil => exact fun f text h => h
    | cons r repairs ih =>
        intro f text h
        rw [List.foldl_cons, List.foldl_cons]
        apply ih
        unfold SiteFiles.repair
        by_cases hr : r.1 = n
        · subst hr
          simp [h]
        · split_ifs with hnone
          · exact h
          · rw [← h]
            exact Function.update_of_ne (Ne.symm hr) _ _
  exact hfold _ f text h

theorem kept_files_iff (hmem : site ∈ s.repo.rows) (files : SiteFiles)
    (hlink : files.activeD = s.files.activeD) :
    s.Kept ⟨s.repo, files⟩ site ↔
      files.siteD (confName site.domain) = s.files.siteD (confName site.domain) := by
  unfold Panel.Kept
  rw [hlink]
  exact ⟨fun h => h.2.1, fun h => ⟨findByID_of_mem hmem, h, rfl⟩⟩

theorem updateSiteConfig_stops {f : SiteFiles} {domain : String}
    (h : e.faults .backupConfig ≠ none ∧ f.siteD (confName domain) ≠ none) (config : String) :
    ∃ err, f.updateSiteConfig e domain config = (f, some err) := by
  obtain ⟨err, herr⟩ := Option.ne_none_iff_exists'.mp h.1
  obtain ⟨text, htext⟩ := Option.ne_none_iff_exists'.mp h.2
  refine ⟨.wrap .nginxTestFailed "backup site config" err, ?_⟩
  simp only [SiteFiles.updateSiteConfig, herr, htext]

/-- The file after a write that its backup did not stop. -/
theorem updateSiteConfig_writes {f : SiteFiles} {domain : String}
    (h : ¬ (e.faults .backupConfig ≠ none ∧ f.siteD (confName domain) ≠ none))
    (config : String) :
    f.updateSiteConfig e domain config =
      match f.writeSiteConfig e .writeConfig domain config with
      | (f, some err) => (f, some (.wrap .nginxTestFailed "write site config" err))
      | (g, none) =>
          match e.accepts config with
          | none => (g, none)
          | some err =>
              if (f.siteD (confName domain)).getD "" ≠ "" then
                ((g.writeSiteConfig e .restoreConfig domain
                  ((f.siteD (confName domain)).getD "")).1, some (.new .nginxTestFailed err))
              else (g, some (.new .nginxTestFailed err)) := by
  unfold SiteFiles.updateSiteConfig
  cases hbackup : e.faults .backupConfig with
  | none => rfl
  | some err =>
      cases hold : f.siteD (confName domain) with
      | none => rfl
      | some text => exact absurd ⟨by simp [hbackup], by simp [hold]⟩ h

theorem config_kept_iff (hrollback : e.faults .restoreConfig = none) (hmem : site ∈ s.repo.rows)
    (config : String) :
    ((Service.updateNginxConfig e s site.id config).2 ≠ none →
        s.Kept (Service.updateNginxConfig e s site.id config).1 site) ↔
      ConfigKept e s site config := by
  have hwritten : ∀ (text : Option String) (err : SiteError),
      (some err ≠ none → s.Kept ⟨s.repo, ⟨Function.update s.files.siteD (confName site.domain) text,
        s.files.activeD⟩⟩ site) ↔ s.files.siteD (confName site.domain) = text := by
    intro text err
    rw [kept_files_iff hmem ⟨Function.update s.files.siteD (confName site.domain) text,
      s.files.activeD⟩ rfl, imp_iff_right (by simp)]
    dsimp only
    rw [Function.update_self]
    exact eq_comm
  unfold Service.updateNginxConfig ConfigKept
  rw [findByID_of_mem hmem]
  dsimp only
  by_cases hstop : e.faults .backupConfig ≠ none ∧ s.files.siteD (confName site.domain) ≠ none
  · obtain ⟨err, heq⟩ := updateSiteConfig_stops hstop (withoutCR config)
    rw [heq]
    exact iff_of_true (fun _ => kept_refl hmem) (.inl hstop)
  rw [updateSiteConfig_writes hstop, SiteFiles.writeSiteConfig, or_iff_right hstop]
  cases hwrite : e.faults .writeConfig with
  | some err =>
      cases hleaves : e.leaves .writeConfig with
      | none => exact iff_of_true (fun _ => kept_refl hmem) (.inl rfl)
      | some left =>
          refine (hwritten (some left) _).trans ?_
          simp [eq_comm]
  | none =>
  dsimp only
  cases htest : e.accepts (withoutCR config) with
  | some err =>
      dsimp only
      rw [if_pos (show (some err : Option String) ≠ none by simp)]
      by_cases hold : (s.files.siteD (confName site.domain)).getD "" ≠ ""
      · -- the old text is there again
        rw [if_pos hold, SiteFiles.writeSiteConfig, hrollback]
        refine iff_of_true (fun _ => (kept_files_iff hmem ⟨Function.update
          (Function.update s.files.siteD (confName site.domain) (some (withoutCR config)))
          (confName site.domain) (some ((s.files.siteD (confName site.domain)).getD "")),
          s.files.activeD⟩ rfl).mpr ?_) (.inl hold)
        cases hfile : s.files.siteD (confName site.domain) with
        | none => simp [hfile] at hold
        | some text => simp
      · rw [if_neg hold, or_iff_right hold]
        exact hwritten _ _
  | none =>
  dsimp only
  rw [if_neg (by simp)]
  cases hhook : e.faults .configChanged with
  | some err =>
      dsimp only
      rw [if_pos (by simp)]
      exact hwritten _ _
  | none =>
  rw [if_neg (by simp)]
  dsimp only
  obtain ⟨hlink, -⟩ := reload_fst ⟨Function.update s.files.siteD (confName site.domain)
    (some (withoutCR config)), s.files.activeD⟩ e .reload
  have htext := reload_siteD ⟨Function.update s.files.siteD (confName site.domain)
    (some (withoutCR config)), s.files.activeD⟩ e (confName site.domain) (Function.update_self ..)
  cases hreload : SiteFiles.reload ⟨Function.update s.files.siteD (confName site.domain)
    (some (withoutCR config)), s.files.activeD⟩ e .reload with
  | mk files err =>
  have herr : err = e.faults .reload := (congrArg Prod.snd hreload).symm
  rw [hreload] at hlink htext
  cases err with
  | none => exact iff_of_true (fun h => absurd rfl h) (.inl herr.symm)
  | some err =>
      dsimp only at hlink htext ⊢
      rw [kept_files_iff hmem files hlink, imp_iff_right (by simp), htext, ← herr,
        or_iff_right (by simp)]
      exact eq_comm

theorem update_kept_iff (hmem : site ∈ s.repo.rows) (i : SiteInput) :
    ((v.edit e s site.id (.update i)).2 ≠ none →
        s.Kept (v.edit e s site.id (.update i)).1 site) ↔ v.UpdateKept e s site i := by
  unfold Service.edit Service.update Service.UpdateKept Service.Rejects
  rw [findByID_of_mem hmem]
  dsimp only
  cases hvalid : v.validateCreateUpdate e s.repo i.domain i.path i.siteType i.upstream site.id with
  | some err => exact iff_of_true (fun _ => kept_refl hmem) (.inl (.inr (.inl (by simp))))
  | none =>
  simp only [Panel.updateRow]
  cases hrow : e.faults .updateRow with
  | some err => exact iff_of_true (fun _ => kept_refl hmem) (.inl (.inr (.inr (by simp))))
  | none =>
  rw [or_iff_right (by simp [findByID_of_mem hmem])]
  dsimp only
  set site' := (i.apply site).stamped e.now with hsite'
  have hid : site'.id = site.id := rfl
  have hdomain : site'.domain = i.domain := rfl
  -- what is kept when an error follows the write of the row
  have hrowOnly : ∀ err : SiteError, (some err ≠ none →
      s.Kept ⟨s.repo.update site', s.files⟩ site) ↔ site' = site := by
    intro err
    rw [imp_iff_right (by simp), kept_update_iff hmem hid s.files rfl, and_iff_left rfl]
  have hboth : ∀ (err : SiteError) (text : String), (some err ≠ none →
      s.Kept ⟨s.repo.update site', ⟨Function.update s.files.siteD (confName i.domain) (some text),
        s.files.activeD⟩⟩ site) ↔
      site' = site ∧ s.files.siteD (confName site.domain) = some text := by
    intro err text
    rw [imp_iff_right (by simp), kept_update_iff hmem hid ⟨Function.update s.files.siteD
      (confName i.domain) (some text), s.files.activeD⟩ rfl]
    refine and_congr_right fun hsame => ?_
    rw [← hdomain, hsame]
    dsimp only
    rw [Function.update_self]
    exact eq_comm
  cases hread : e.faults .updateRead with
  | some err =>
      have hnot : ¬ v.Completes e (i.apply site) := by
        intro h
        rw [h.1 .updateRead (by simp)] at hread
        cases hread
      rw [or_iff_right hnot, and_iff_left (.inl (by simp))]
      exact hrowOnly _
  | none =>
  rw [or_iff_right (show ¬ (none : Option String) ≠ none by simp)]
  dsimp only
  unfold Service.writeRenderedConfig
  have hrenders : v.renderSiteConfig e .readTemplate site' =
      v.renderSiteConfig e .readTemplate (i.apply site) := rfl
  rw [hrenders]
  cases hrender : v.renderSiteConfig e .readTemplate (i.apply site) with
  | error err =>
      have hnot : ¬ v.Completes e (i.apply site) := by
        intro h
        simp [Service.renderSiteConfig, h.1 .readTemplate (by simp)] at hrender
      rw [or_iff_right hnot, and_iff_left trivial]
      exact hrowOnly _
  | ok text =>
  have htemplate : e.faults .readTemplate = none := by
    by_contra hsome
    obtain ⟨err, herr⟩ := Option.ne_none_iff_exists'.mp hsome
    simp [Service.renderSiteConfig, herr] at hrender
  dsimp only
  unfold SiteFiles.writeSiteConfig
  cases hwrite : e.faults .writeConfig with
  | some err =>
      have hnot : ¬ v.Completes e (i.apply site) := by
        intro h
        rw [h.1 .writeConfig (by simp)] at hwrite
        cases hwrite
      rw [or_iff_right hnot]
      cases hleaves : e.leaves .writeConfig with
      | none =>
          rw [and_iff_left (.inl rfl)]
          exact hrowOnly _
      | some left =>
          rw [or_iff_right (by simp), eq_comm (a := some left)]
          exact hboth _ left
  | none =>
  dsimp only [Option.map_none]
  cases hhook : e.faults .configChanged with
  | some err =>
      have hnot : ¬ v.Completes e (i.apply site) := by
        intro h
        rw [h.1 .configChanged (by simp)] at hhook
        cases hhook
      rw [or_iff_right hnot]
      exact hboth _ text
  | none =>
  have hworks : e.Works [.updateRead, .readTemplate, .writeConfig, .configChanged] := by
    simp [Weather.Works, hread, htemplate, hwrite, hhook]
  have hactive : site'.active = i.active := rfl
  have hactive' : (i.apply site).active = i.active := rfl
  have hvalid' : v.validateRenderedConfig e site' = v.validateRenderedConfig e (i.apply site) :=
    rfl
  unfold Service.Completes
  rw [and_iff_right hworks, hactive, hactive', hvalid', hdomain]
  dsimp only
  cases i.active with
  | true =>
      rw [if_pos rfl, if_pos rfl]
      cases htest : v.validateRenderedConfig e (i.apply site) with
      | some err =>
          rw [or_iff_right (by simp)]
          exact hboth _ text
      | none =>
          dsimp only
          obtain ⟨err, henable, hwhy⟩ | ⟨henable, hfault, -⟩ := enableSite_cases ⟨Function.update
            s.files.siteD (confName i.domain) (some text), s.files.activeD⟩ e i.domain
          · have hfault := hwhy.resolve_right (by simp)
            rw [henable, or_iff_right (by simp [hfault])]
            exact hboth _ text
          · rw [henable]
            exact iff_of_true (fun h => absurd rfl h) (.inl ⟨rfl, hfault⟩)
  | false =>
      rw [if_neg Bool.false_ne_true, if_neg Bool.false_ne_true]
      obtain ⟨err, hdisable, hfault⟩ | ⟨hdisable, hfault⟩ := disableSite_cases
        ⟨Function.update s.files.siteD (confName i.domain) (some text), s.files.activeD⟩ e i.domain
      · rw [hdisable, or_iff_right hfault]
        exact hboth _ text
      · rw [hdisable]
        exact iff_of_true (fun h => absurd rfl h) (.inl hfault)

end

/-- When its own restoring write works, an edit that fails keeps the website's
row, file and link if and only if it stops in time or changes nothing. -/
theorem failed_edit_keeps_iff (v : Service) (e : Weather) (s : Panel) {site : Website}
    (hmem : site ∈ s.repo.rows) (hrollback : e.faults .restoreConfig = none) (edit : Edit) :
    ((v.edit e s site.id edit).2 ≠ none → s.Kept (v.edit e s site.id edit).1 site) ↔
      v.EditKept e s site edit := by
  cases edit with
  | update i => exact update_kept_iff hmem i
  | updateNginxConfig config => exact config_kept_iff hrollback hmem config

/-- The panel with one website that is not active. -/
def demoPanel : Panel :=
  demoService.handle calmWeather Panel.empty (.create (demoInput "a.b" "/w/a"))

/-- The row of `demoPanel`. -/
def demoSite : Website := ⟨1, "a.b", "a.b", "/w/a", "static", "", false, "", false, 0⟩

/-- A raw configuration is rejected by the test, and the old one comes back. -/
theorem failed_edit_keeps_rejected_config :
    demoSite ∈ demoPanel.repo.rows ∧ calmWeather.faults .restoreConfig = none ∧
      demoPanel.Kept (demoService.edit { calmWeather with accepts := fun _ => some "emerg" }
        demoPanel 1 (.updateNginxConfig "bad")).1 demoSite := by
  have hmem : demoSite ∈ demoPanel.repo.rows := by decide
  exact ⟨hmem, rfl, (failed_edit_keeps_iff demoService _ demoPanel hmem rfl _).mpr
    (.inr (.inl (by decide))) (by decide)⟩

/-- A website is activated with a configuration that nginx rejects: the row says
active and the file is the rejected one. -/
theorem rejected_update_keeps_row_active :
    ¬ ((demoService.edit { calmWeather with accepts := fun _ => some "emerg" } demoPanel 1
        (.update { demoInput "a.b" "/w/c" with active := true })).2 ≠ none →
      demoPanel.Kept (demoService.edit { calmWeather with accepts := fun _ => some "emerg" }
        demoPanel 1 (.update { demoInput "a.b" "/w/c" with active := true })).1 demoSite) := by
  decide

end GoSite.Website
