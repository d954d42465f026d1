import GoSite.WebsiteRollback
import GoSite.WebsiteRows

/-!
# A website that stays what it is

What the requests of the website service keep of one website: its row with its
domain, and that its configuration says what a predicate asks of its text.
-/
namespace GoSite.Website

/-- The file of a name has a text with the property. -/
def SiteFiles.Holds (f : SiteFiles) (n : List Char) (C : String → Prop) : Prop :=
  ∃ text, f.siteD n = some text ∧ C text

/-- The row of an id names the domain. -/
def WebsiteRepository.HasRow (g : WebsiteRepository) (id : ℕ) (domain : String) : Prop :=
  ∃ site, g.findByID id = some site ∧ site.domain = domain

/-- The website has its row, and a configuration with the property. -/
structure Panel.Serves (s : Panel) (id : ℕ) (domain : String) (C : String → Prop) : Prop where
  row : s.repo.HasRow id domain
  config : s.files.Holds (confName domain) C

/-- No repair writes to the file of the name. -/
def Weather.Quiet (e : Weather) (n : List Char) : Prop := ∀ call, ∀ r ∈ e.repairs call, r.1 ≠ n

section
variable {n : List Char} {C : String → Prop} {f : SiteFiles} {e : Weather}

theorem SiteFiles.Holds.of_eq {g : SiteFiles} (h : f.Holds n C) (heq : g.siteD n = f.siteD n) :
    g.Holds n C := by
  rwa [SiteFiles.Holds, heq]

/-- A write keeps the property if the text has it, or it goes to another file. -/
theorem SiteFiles.Holds.writeSiteConfig (h : f.Holds n C) (call : Call) {domain content : String}
    (hown : confName domain = n → C content ∧ e.leaves call = none) :
    (f.writeSiteConfig e call domain content).1.Holds n C := by
  unfold SiteFiles.writeSiteConfig
  by_cases hname : confName domain = n
  · obtain ⟨hC, hleaves⟩ := hown hname
    cases e.faults call with
    | none => exact ⟨content, by simp [hname], hC⟩
    | some err =>
        rw [hleaves]
        exact h
  · have hother : ∀ text : Option String,
        SiteFiles.Holds { f with siteD := Function.update f.siteD (confName domain) text } n C :=
      fun text => h.of_eq (Function.update_of_ne (Ne.symm hname) _ _)
    cases e.faults call with
    | none => exact hother _
    | some err =>
        cases e.leaves call with
        | none => exact h
        | some left => exact hother _

theorem SiteFiles.Holds.removeSiteConfig (h : f.Holds n C) {domain : String}
    (hother : confName domain ≠ n) : (f.removeSiteConfig e domain).1.Holds n C := by
  unfold SiteFiles.removeSiteConfig
  cases e.faults .removeConfig with
  | none => exact h.of_eq (Function.update_of_ne hother.symm _ _)
  | some err => exact h

theorem enableSite_siteD (f : SiteFiles) (e : Weather) (domain : String) :
    (f.enableSite e domain).1.siteD = f.siteD := by
  unfold SiteFiles.enableSite
  split
  · rfl
  · split_ifs <;> rfl

theorem disableSite_siteD (f : SiteFiles) (e : Weather) (domain : String) :
    (f.disableSite e domain).1.siteD = f.siteD := by
  unfold SiteFiles.disableSite
  split <;> rfl

theorem SiteFiles.Holds.enableSite (h : f.Holds n C) (domain : String) :
    (f.enableSite e domain).1.Holds n C :=
  h.of_eq (congrFun (enableSite_siteD f e domain) n)

theorem SiteFiles.Holds.disableSite (h : f.Holds n C) (domain : String) :
    (f.disableSite e domain).1.Holds n C :=
  h.of_eq (congrFun (disableSite_siteD f e domain) n)

theorem SiteFiles.Holds.setEnabled (h : f.Holds n C) (domain : String) (active : Bool) :
    (f.setEnabled e domain active).1.Holds n C := by
  cases active with
  | true => exact h.enableSite domain
  | false => exact h.disableSite domain

theorem SiteFiles.Holds.reload (h : f.Holds n C) (he : e.Quiet n) (call : Call) :
    (f.reload e call).1.Holds n C := by
  have hhides : e.HidesRepairs id (· = n) := fun call r hr hname => absurd hname (he call r hr)
  exact h.of_eq (keeps_reload hhides call n rfl).1

/-- A raw configuration keeps the property, for what a failed test restores had it. -/
theorem SiteFiles.Holds.updateSiteConfig (h : f.Holds n C) {domain content : String}
    (hown : confName domain = n →
      C content ∧ e.leaves .writeConfig = none ∧ e.leaves .restoreConfig = none) :
    (f.updateSiteConfig e domain content).1.Holds n C := by
  by_cases hbackup : e.faults .backupConfig ≠ none ∧ f.siteD (confName domain) ≠ none
  · obtain ⟨err, herr⟩ := updateSiteConfig_stops hbackup content
    rwa [herr]
  · have hwrite : (f.writeSiteConfig e .writeConfig domain content).1.Holds n C :=
      h.writeSiteConfig .writeConfig fun hname => ⟨(hown hname).1, (hown hname).2.1⟩
    rw [updateSiteConfig_writes hbackup]
    split
    · rename_i heq
      rwa [heq] at hwrite
    · rename_i g heq
      rw [heq] at hwrite
      split
      · exact hwrite
      · split_ifs
        · refine hwrite.writeSiteConfig .restoreConfig fun hname => ⟨?_, (hown hname).2.2⟩
          obtain ⟨text, htext, hC⟩ := h
          rwa [hname, htext]
        · exact hwrite

end

section
variable {g : WebsiteRepository} {s : Panel} {e : Weather} {id : ℕ} {domain : String}
  {C : String → Prop} {v : Service}

theorem WebsiteRepository.HasRow.lt (h : g.HasRow id domain) : id < g.nextID := by
  obtain ⟨site, hfind, -⟩ := h
  obtain ⟨hmem, rfl⟩ := findByID_eq_some hfind
  exact g.below site hmem

theorem WebsiteRepository.HasRow.insert (h : g.HasRow id domain) (site : Website) :
    (g.insert site).HasRow id domain := by
  obtain ⟨row, hfind, hdomain⟩ := h
  obtain ⟨hmem, rfl⟩ := findByID_eq_some hfind
  exact ⟨row, findByID_of_mem (List.mem_append_left _ hmem), hdomain⟩

theorem WebsiteRepository.HasRow.update (h : g.HasRow id domain) {site : Website}
    (hsite : site.id = id → site.domain = domain) : (g.update site).HasRow id domain := by
  obtain ⟨row, hfind, hdomain⟩ := h
  obtain ⟨hmem, rfl⟩ := findByID_eq_some hfind
  by_cases hid : site.id = row.id
  · exact ⟨site, findByID_update hmem hid, hsite hid⟩
  · exact ⟨row, findByID_of_mem (mem_update_iff.mpr (.inr ⟨hmem, Ne.symm hid⟩)), hdomain⟩

theorem WebsiteRepository.HasRow.delete (h : g.HasRow id domain) {other : ℕ} (hother : other ≠ id) :
    (g.delete other).HasRow id domain := by
  obtain ⟨row, hfind, hdomain⟩ := h
  obtain ⟨hmem, rfl⟩ := findByID_eq_some hfind
  exact ⟨row, findByID_of_mem (mem_delete_iff.mpr ⟨hmem, hother.symm⟩), hdomain⟩

theorem Panel.Serves.setFiles (h : s.Serves id domain C) {files : SiteFiles}
    (hfiles : files.Holds (confName domain) C) :
    Panel.Serves { s with files := files } id domain C := ⟨h.row, hfiles⟩

theorem Panel.Serves.createRow (h : s.Serves id domain C) (site : Website) :
    (s.createRow e site).1.Serves id domain C := by
  obtain ⟨heq, -⟩ | ⟨heq, -⟩ := createRow_cases s e site
  · rwa [heq]
  · rw [heq]
    exact ⟨h.row.insert _, h.config⟩

theorem Panel.Serves.updateRow (h : s.Serves id domain C) {site : Website}
    (hsite : site.id = id → site.domain = domain) (write read : Call) :
    (s.updateRow e write read site).1.Serves id domain C := by
  obtain ⟨heq, -⟩ | ⟨heq, -⟩ := updateRow_cases s e write read site
  · rwa [heq]
  · rw [heq]
    exact ⟨h.row.update hsite, h.config⟩

theorem Panel.Serves.dropRow (h : s.Serves id domain C) {other : ℕ} (hother : other ≠ id) :
    (s.dropRow e other).Serves id domain C := by
  unfold Panel.dropRow Panel.deleteRow
  cases e.faults .deleteRow with
  | some err => exact h
  | none => exact ⟨h.row.delete hother, h.config⟩

theorem Panel.Serves.dropSite (h : s.Serves id domain C) {site : Website} (hid : site.id ≠ id)
    (hother : confName site.domain ≠ confName domain) : (s.dropSite e site).Serves id domain C :=
  (h.setFiles (h.config.removeSiteConfig hother)).dropRow hid

theorem Panel.Serves.writeRenderedConfig (h : s.Serves id domain C) {site : Website}
    (hown : confName site.domain = confName domain → e.leaves .writeConfig = none ∧
      ∀ content, v.renderSiteConfig e .readTemplate site = .ok content → C content) :
    (v.writeRenderedConfig e s site).1.Serves id domain C := by
  unfold Service.writeRenderedConfig
  cases hrender : v.renderSiteConfig e .readTemplate site with
  | error err => exact h
  | ok content =>
      exact h.setFiles (h.config.writeSiteConfig .writeConfig fun hname =>
        ⟨(hown hname).2 content hrender, (hown hname).1⟩)

theorem Panel.Serves.syncSSLFromConfig (h : s.Serves id domain C) {site : Website}
    (hsite : site.id = id → site.domain = domain) :
    (s.syncSSLFromConfig e site).1.Serves id domain C := by
  unfold Panel.syncSSLFromConfig
  split
  · exact h
  · rename_i config _
    split_ifs
    · exact h
    · have hrow : (s.updateRow e .syncRow .syncRead
          { site with ssl := certPathsFound config }).1.Serves id domain C := by
        refine h.updateRow ?_ .syncRow .syncRead
        exact hsite
      dsimp only
      split
      · rename_i heq
        rwa [heq] at hrow
      · rename_i heq
        rwa [heq] at hrow

/-- Another website is created with a configuration of its own. -/
theorem create_serves (h : s.Serves id domain C) (he : e.Quiet (confName domain)) (i : SiteInput)
    (hother : confName i.domain ≠ confName domain) :
    (v.create e s i).1.Serves id domain C := by
  unfold Service.create
  split
  · exact h
  split
  · exact h
  have hrow := h.createRow (e := e) ⟨0, i.siteName, i.domain, i.path, i.siteType, i.upstream,
    false, "", i.active, 0⟩
  split
  · rename_i heq
    rwa [heq] at hrow
  rename_i s₁ site heq
  rw [heq] at hrow
  obtain ⟨hid, hdomain⟩ : site.id ≠ id ∧ site.domain = i.domain := by
    obtain ⟨-, -, err, herr⟩ | ⟨-, -, ⟨⟨err, herr⟩, -⟩ | hok⟩ := createRow_cases s e
      ⟨0, i.siteName, i.domain, i.path, i.siteType, i.upstream, false, "", i.active, 0⟩
    · simp [heq] at herr
    · simp [heq] at herr
    · rw [heq] at hok
      rw [Except.ok.inj hok]
      exact ⟨(Nat.ne_of_lt h.row.lt).symm, rfl⟩
  have hsite : confName site.domain ≠ confName domain := hdomain ▸ hother
  have hprov : (v.provisionSite e s₁ site).1.Serves id domain C := by
    unfold Service.provisionSite
    split
    · exact hrow
    · split
      · exact hrow
      · exact hrow.writeRenderedConfig fun hname => absurd hname hsite
  split
  · rename_i heq
    rw [heq] at hprov
    exact hprov.dropRow hid
  rename_i s₂ heq
  rw [heq] at hprov
  by_cases hactive : ¬ site.active = true
  · rwa [if_pos hactive]
  rw [if_neg hactive]
  split
  · exact hprov.dropSite hid hsite
  have henable := hprov.config.enableSite (e := e) site.domain
  split
  · rename_i heq
    rw [heq] at henable
    exact (hprov.setFiles henable).dropSite hid hsite
  rename_i files heq
  rw [heq] at henable
  have hreload := henable.reload he .reload
  split
  · rename_i heq
    rw [heq] at hreload
    exact (hprov.setFiles (hreload.disableSite site.domain)).dropSite hid hsite
  · rename_i heq
    rw [heq] at hreload
    exact hprov.setFiles hreload

/-- A website is updated, and what is written over the configuration has the property. -/
theorem update_serves (h : s.Serves id domain C) {other : ℕ} {i : SiteInput}
    (hrow : other = id → i.domain = domain)
    (hown : confName i.domain = confName domain → e.leaves .writeConfig = none ∧
      ∀ existing content, s.repo.findByID other = some existing →
        v.renderSiteConfig e .readTemplate (i.apply existing) = .ok content → C content) :
    (v.update e s other i).1.Serves id domain C := by
  unfold Service.update
  split
  · exact h
  rename_i existing hfind
  split
  · exact h
  have hid : (i.apply existing).id = other := (findByID_eq_some hfind).2
  have hupdate : (s.updateRow e .updateRow .updateRead (i.apply existing)).1.Serves id domain C :=
    h.updateRow (fun hsame => hrow (hid.symm.trans hsame)) .updateRow .updateRead
  split
  · rename_i heq
    rwa [heq] at hupdate
  rename_i s₁ site heq
  rw [heq] at hupdate
  have hsite : site = (i.apply existing).stamped e.now := by
    obtain ⟨-, -, err, herr⟩ | ⟨-, -, ⟨⟨err, herr⟩, -⟩ | ⟨hok, -⟩⟩ :=
      updateRow_cases s e .updateRow .updateRead (i.apply existing)
    · simp [heq] at herr
    · simp [heq] at herr
    · simpa [heq] using hok
  have hwrite : (v.writeRenderedConfig e s₁ site).1.Serves id domain C := by
    refine hupdate.writeRenderedConfig fun hname => ?_
    obtain ⟨hleaves, hrender⟩ := hown (by rw [hsite] at hname; exact hname)
    refine ⟨hleaves, fun content hcontent => hrender existing content hfind ?_⟩
    rw [hsite] at hcontent
    exact hcontent
  split
  · rename_i heq
    rwa [heq] at hwrite
  rename_i s₂ heq
  rw [heq] at hwrite
  split
  · exact hwrite
  split_ifs
  · split
    · exact hwrite
    · have henable := hwrite.setFiles (hwrite.config.enableSite (e := e) site.domain)
      split
      · rename_i heq
        rwa [heq] at henable
      · rename_i heq
        rwa [heq] at henable
  · have hdisable := hwrite.setFiles (hwrite.config.disableSite (e := e) site.domain)
    split
    · rename_i heq
      rwa [heq] at hdisable
    · rename_i heq
      rwa [heq] at hdisable

theorem toggle_serves (h : s.Serves id domain C) (he : e.Quiet (confName domain)) (other : ℕ) :
    (Service.toggle e s other).1.Serves id domain C := by
  unfold Service.toggle
  split
  · exact h
  rename_i site hfind
  have hsite : site.id = id → site.domain = domain := by
    intro hid
    obtain ⟨row, hrow, hdomain⟩ := h.row
    obtain ⟨-, rfl⟩ := findByID_eq_some hfind
    rw [hid, hrow] at hfind
    rw [← Option.some.inj hfind, hdomain]
  dsimp only
  have hset : (s.files.setEnabled e site.domain (!site.active)).1.Holds (confName domain) C :=
    h.config.setEnabled site.domain (!site.active)
  split
  · rename_i heq
    rw [heq] at hset
    exact h.setFiles hset
  rename_i files heq
  rw [heq] at hset
  have hreload := hset.reload he .reload
  split
  · rename_i heq
    rw [heq] at hreload
    exact h.setFiles (hreload.setEnabled site.domain site.active)
  rename_i files heq
  rw [heq] at hreload
  have hupdate : (Panel.updateRow { s with files := files } e .updateRow .updateRead
      { site with active := !site.active }).1.Serves id domain C := by
    refine (h.setFiles hreload).updateRow ?_ .updateRow .updateRead
    exact hsite
  split
  · rename_i t err heq
    rw [heq] at hupdate
    exact hupdate.setFiles ((hupdate.config.setEnabled site.domain site.active).reload he
      .reloadAgain)
  · rename_i t updated heq
    have hcontent := updateRow_content heq
    rw [heq] at hupdate
    have hid : updated.id = site.id := congrArg Content.id hcontent
    have hdomain : updated.domain = site.domain := congrArg Content.domain hcontent
    have hsync : (t.syncSSLFromConfig e updated).1.Serves id domain C :=
      hupdate.syncSSLFromConfig fun hsame => hdomain.trans (hsite (hid.symm.trans hsame))
    exact hsync

theorem updateNginxConfig_serves (h : s.Serves id domain C) (he : e.Quiet (confName domain))
    (other : ℕ) {config : String}
    (hown : ∀ site, s.repo.findByID other = some site → confName site.domain = confName domain →
      C (withoutCR config) ∧ e.leaves .writeConfig = none ∧ e.leaves .restoreConfig = none) :
    (Service.updateNginxConfig e s other config).1.Serves id domain C := by
  unfold Service.updateNginxConfig
  split
  · exact h
  rename_i site hfind
  have hsite : site.id = id → site.domain = domain := by
    intro hid
    obtain ⟨row, hrow, hdomain⟩ := h.row
    obtain ⟨-, rfl⟩ := findByID_eq_some hfind
    rw [hid, hrow] at hfind
    rw [← Option.some.inj hfind, hdomain]
  dsimp only
  have hwrite : (s.files.updateSiteConfig e site.domain (withoutCR config)).1.Holds
      (confName domain) C := h.config.updateSiteConfig (hown site hfind)
  split
  · rename_i heq
    rw [heq] at hwrite
    exact h.setFiles hwrite
  rename_i files heq
  rw [heq] at hwrite
  split
  · exact h.setFiles hwrite
  have hreload := hwrite.reload he .reload
  split
  · rename_i heq
    rw [heq] at hreload
    exact h.setFiles hreload
  · rename_i heq
    rw [heq] at hreload
    exact (h.setFiles hreload).syncSSLFromConfig hsite

end

end GoSite.Website
