import GoSite.WebsiteService

/-!
# What a request leaves alone

A request works on one row and on the files of one name. All other rows are the
same after it, and so are the files of all other names as far as the repairs of
its reloads are not seen.
-/
namespace GoSite.Website

/-- The id of the row a request works on. -/
def Request.target (s : Panel) : Request → ℕ
  | .create _ => s.repo.nextID
  | .update id _ | .updateNginxConfig id _ | .toggle id | .delete id _ => id

/-- The domain whose files a request works on. -/
def Request.domain (s : Panel) : Request → Option String
  | .create i | .update _ i => some i.domain
  | .updateNginxConfig id _ | .toggle id | .delete id _ => (s.repo.findByID id).map Website.domain

theorem findByID_eq_some {g : WebsiteRepository} {id : ℕ} {site : Website}
    (h : g.findByID id = some site) : site ∈ g.rows ∧ site.id = id :=
  ⟨List.mem_of_find?_eq_some h, by simpa using List.find?_some h⟩

/-- A row is what `FindByID` returns for its id. -/
theorem findByID_of_mem {g : WebsiteRepository} {site : Website} (h : site ∈ g.rows) :
    g.findByID site.id = some site := by
  have hs : (g.findByID site.id).isSome := by
    unfold WebsiteRepository.findByID
    rw [List.find?_isSome]
    exact ⟨site, h, by simp⟩
  obtain ⟨q, hq⟩ := Option.isSome_iff_exists.mp hs
  obtain ⟨hmem, hid⟩ := findByID_eq_some hq
  rw [hq, List.inj_on_of_nodup_map g.nodup hmem h hid]

/-- The rows with other ids are the same. -/
def WebsiteRepository.SameOthers (id : ℕ) (g g' : WebsiteRepository) : Prop :=
  ∀ r, r.id ≠ id → (r ∈ g'.rows ↔ r ∈ g.rows)

section
variable {g g' g'' : WebsiteRepository} {id : ℕ}

theorem WebsiteRepository.SameOthers.refl (id : ℕ) (g : WebsiteRepository) :
    g.SameOthers id g := fun _ _ => Iff.rfl

theorem WebsiteRepository.SameOthers.trans (h : g.SameOthers id g') (h' : g'.SameOthers id g'') :
    g.SameOthers id g'' := fun r hr => (h' r hr).trans (h r hr)

theorem sameOthers_insert (g : WebsiteRepository) (site : Website) :
    g.SameOthers g.nextID (g.insert site) := by
  intro r hr
  simp only [WebsiteRepository.insert, List.mem_append, List.mem_singleton]
  constructor
  · rintro (h | rfl)
    · exact h
    · exact absurd rfl hr
  · exact Or.inl

theorem mem_update_iff {site r : Website} :
    r ∈ (g.update site).rows ↔
      (r = site ∧ ∃ q ∈ g.rows, q.id = site.id) ∨ (r ∈ g.rows ∧ r.id ≠ site.id) := by
  simp only [WebsiteRepository.update, List.mem_map]
  constructor
  · rintro ⟨q, hq, rfl⟩
    split_ifs with h
    · exact .inl ⟨rfl, q, hq, h⟩
    · exact .inr ⟨hq, h⟩
  · rintro (⟨rfl, q, hq, hid⟩ | ⟨hr, hid⟩)
    · exact ⟨q, hq, if_pos hid⟩
    · exact ⟨r, hr, if_neg hid⟩

theorem sameOthers_update (g : WebsiteRepository) (site : Website) :
    g.SameOthers site.id (g.update site) := by
  intro r hr
  rw [mem_update_iff]
  constructor
  · rintro (⟨rfl, -⟩ | ⟨h, -⟩)
    · exact absurd rfl hr
    · exact h
  · exact fun h => .inr ⟨h, hr⟩

theorem mem_delete_iff {r : Website} : r ∈ (g.delete id).rows ↔ r ∈ g.rows ∧ r.id ≠ id := by
  simp [WebsiteRepository.delete]

theorem sameOthers_delete (g : WebsiteRepository) (id : ℕ) : g.SameOthers id (g.delete id) := by
  intro r hr
  rw [mem_delete_iff]
  exact ⟨fun h => h.1, fun h => ⟨h, hr⟩⟩

end

/-- Rows of other ids and files of other names are left alone, and the row of
the id keeps to some domains. -/
structure Panel.Frame {γ : Type*} (o : Option String → γ) (P : List Char → Prop)
    (D : String → Prop) (id : ℕ) (s t : Panel) : Prop where
  files : s.files.Keeps o P t.files
  rows : s.repo.SameOthers id t.repo
  own : (∀ r ∈ s.repo.rows, r.id = id → D r.domain) → ∀ r ∈ t.repo.rows, r.id = id → D r.domain

section
variable {γ : Type*} {o : Option String → γ} {P : List Char → Prop} {D : String → Prop} {s t u : Panel} {id : ℕ}
  {e : Weather} {v : Service}

theorem Panel.Frame.refl (id : ℕ) (s : Panel) : s.Frame o P D id s := ⟨.refl _, .refl _ _, fun h => h⟩

theorem Panel.Frame.trans (h : s.Frame o P D id t) (h' : t.Frame o P D id u) : s.Frame o P D id u :=
  ⟨h.files.trans h'.files, h.rows.trans h'.rows, fun hs => h'.own (h.own hs)⟩

theorem Panel.Frame.setFiles (h : s.Frame o P D id t) {files : SiteFiles}
    (hf : t.files.Keeps o P files) : s.Frame o P D id { t with files := files } :=
  ⟨h.files.trans hf, h.rows, h.own⟩

/-- What `Create` of the repository does. -/
theorem createRow_cases (s : Panel) (e : Weather) (site : Website) :
    ((s.createRow e site).1 = s ∧ e.faults .insertRow ≠ none ∧
        ∃ err, (s.createRow e site).2 = .error err) ∨
      (s.createRow e site).1 = { s with
          repo := s.repo.insert { site with id := s.repo.nextID, updatedAt := e.now } } ∧
        e.faults .insertRow = none ∧
        ((∃ err, (s.createRow e site).2 = .error err) ∧ e.faults .insertRead ≠ none ∨
          (s.createRow e site).2 =
            .ok { site with id := s.repo.nextID, updatedAt := e.now }) := by
  unfold Panel.createRow
  cases e.faults .insertRow with
  | some err => exact .inl ⟨rfl, by simp, _, rfl⟩
  | none =>
      refine .inr ⟨rfl, rfl, ?_⟩
      cases e.faults .insertRead with
      | none => exact .inr rfl
      | some err => exact .inl ⟨⟨_, rfl⟩, by simp⟩

/-- What `Update` of the repository does. -/
theorem updateRow_cases (s : Panel) (e : Weather) (write read : Call) (site : Website) :
    ((s.updateRow e write read site).1 = s ∧ e.faults write ≠ none ∧
        ∃ err, (s.updateRow e write read site).2 = .error err) ∨
      (s.updateRow e write read site).1 =
          { s with repo := s.repo.update (site.stamped e.now) } ∧
        e.faults write = none ∧
        ((∃ err, (s.updateRow e write read site).2 = .error err) ∧ e.faults read ≠ none ∨
          (s.updateRow e write read site).2 = .ok (site.stamped e.now) ∧
            e.faults read = none) := by
  unfold Panel.updateRow
  cases e.faults write with
  | some err => exact .inl ⟨rfl, by simp, _, rfl⟩
  | none =>
      refine .inr ⟨rfl, rfl, ?_⟩
      cases e.faults read with
      | none => exact .inr ⟨rfl, rfl⟩
      | some err => exact .inl ⟨⟨_, rfl⟩, by simp⟩

theorem frame_updateRow (s : Panel) (e : Weather) (write read : Call) (site : Website)
    (hid : site.id = id) (hD : D site.domain) :
    s.Frame o P D id (s.updateRow e write read site).1 := by
  subst hid
  obtain ⟨heq, -⟩ | ⟨heq, -⟩ := updateRow_cases s e write read site
  · rw [heq]
    exact .refl _ s
  · rw [heq]
    refine ⟨.refl _, sameOthers_update _ (site.stamped e.now), ?_⟩
    intro _ r hr hid
    obtain ⟨rfl, -⟩ | ⟨-, hne⟩ := mem_update_iff.mp hr
    · exact hD
    · exact absurd hid hne

theorem frame_dropRow (s : Panel) (e : Weather) (id : ℕ) : s.Frame o P D id (s.dropRow e id) := by
  unfold Panel.dropRow Panel.deleteRow
  cases e.faults .deleteRow with
  | some err => exact .refl _ s
  | none => exact ⟨.refl _, sameOthers_delete _ id, fun h r hr => h r (mem_delete_iff.mp hr).1⟩

theorem frame_dropSite (s : Panel) (e : Weather) {site : Website} (hid : site.id = id)
    (hn : ¬ P (confName site.domain)) : s.Frame o P D id (s.dropSite e site) :=
  .trans (.setFiles (.refl _ s) (keeps_removeSiteConfig e hn)) (hid ▸ frame_dropRow _ e site.id)

/-- What writing the rendered configuration does. -/
theorem writeRenderedConfig_cases (v : Service) (e : Weather) (s : Panel) (site : Website) :
    (∃ err, v.writeRenderedConfig e s site = (s, some err) ∧
        (e.faults .readTemplate ≠ none ∨ e.faults .writeConfig ≠ none)) ∨
      ∃ text err, v.writeRenderedConfig e s site =
          ({ s with files :=
            { s.files with
              siteD := Function.update s.files.siteD (confName site.domain) (some text) } }, err) ∧
        (err ≠ none → e.faults .writeConfig ≠ none ∧ e.leaves .writeConfig = some text) ∧
        (err = none →
          e.faults .readTemplate = none ∧ v.renderSiteConfig e .readTemplate site = .ok text) := by
  unfold Service.writeRenderedConfig
  cases hrender : v.renderSiteConfig e .readTemplate site with
  | error err =>
      refine .inl ⟨err, rfl, .inl ?_⟩
      intro hnone
      simp [Service.renderSiteConfig, hnone] at hrender
  | ok content =>
      have hread : e.faults .readTemplate = none := by
        by_contra hsome
        obtain ⟨err, herr⟩ := Option.ne_none_iff_exists'.mp hsome
        simp [Service.renderSiteConfig, herr] at hrender
      simp only [SiteFiles.writeSiteConfig]
      cases hwrite : e.faults .writeConfig with
      | none => exact .inr ⟨content, none, rfl, by simp, fun _ => ⟨hread, rfl⟩⟩
      | some err =>
          cases hleaves : e.leaves .writeConfig with
          | none => exact .inl ⟨_, rfl, .inr (by simp)⟩
          | some left =>
              exact .inr ⟨left, _, rfl, fun _ => ⟨by simp, rfl⟩, by simp⟩

theorem frame_writeRenderedConfig (v : Service) (e : Weather) (s : Panel) {site : Website}
    (hn : ¬ P (confName site.domain)) (id : ℕ) :
    s.Frame o P D id (v.writeRenderedConfig e s site).1 := by
  unfold Service.writeRenderedConfig
  cases v.renderSiteConfig e .readTemplate site with
  | error err => exact .refl _ s
  | ok content => exact .setFiles (.refl _ s) (keeps_writeSiteConfig e _ hn content)

/-- What provisioning does below the two directories. -/
theorem provisionSite_cases (v : Service) (e : Weather) (s : Panel) (site : Website) :
    (∃ err, v.provisionSite e s site = (s, some err)) ∨
      ∃ text err, v.provisionSite e s site =
          ({ s with files :=
            { s.files with
              siteD := Function.update s.files.siteD (confName site.domain) (some text) } }, err) ∧
        (err ≠ none → e.faults .writeConfig ≠ none ∧ e.leaves .writeConfig = some text) := by
  unfold Service.provisionSite
  split
  · exact .inl ⟨_, rfl⟩
  · split
    · exact .inl ⟨_, rfl⟩
    · obtain ⟨err, heq, -⟩ | ⟨text, err, heq, hfail, -⟩ := writeRenderedConfig_cases v e s site
      · exact .inl ⟨err, heq⟩
      · exact .inr ⟨text, err, heq, hfail⟩

theorem frame_provisionSite (v : Service) (e : Weather) (s : Panel) {site : Website}
    (hn : ¬ P (confName site.domain)) (id : ℕ) :
    s.Frame o P D id (v.provisionSite e s site).1 := by
  unfold Service.provisionSite
  split
  · exact .refl _ s
  · split
    · exact .refl _ s
    · exact frame_writeRenderedConfig v e s hn id

theorem keeps_setEnabled {f : SiteFiles} (e : Weather) {domain : String}
    (hn : ¬ P (confName domain)) (active : Bool) :
    f.Keeps o P (f.setEnabled e domain active).1 := by
  unfold SiteFiles.setEnabled
  split_ifs
  · exact keeps_enableSite e hn
  · exact keeps_disableSite e hn

theorem frame_syncSSLFromConfig (s : Panel) (e : Weather) {site : Website}
    (hid : site.id = id) (hD : D site.domain) :
    s.Frame o P D id (s.syncSSLFromConfig e site).1 := by
  unfold Panel.syncSSLFromConfig
  split
  · exact .refl _ s
  · rename_i config _
    split_ifs
    · exact .refl _ s
    · have hframe : s.Frame o P D id (s.updateRow e .syncRow .syncRead
          { site with ssl := certPathsFound config }).1 := frame_updateRow s e _ _ _ hid hD
      dsimp only
      split
      · rename_i heq
        rwa [heq] at hframe
      · rename_i heq
        rwa [heq] at hframe

/-- The sync changes nothing but the SSL flag of a row. -/
theorem syncSSLFromConfig_cases (s : Panel) (e : Weather) (site : Website) :
    (s.syncSSLFromConfig e site).1 = s ∨
      ∃ site' : Website, (s.syncSSLFromConfig e site).1 = { s with repo := s.repo.update site' } ∧
        site'.id = site.id ∧ site'.domain = site.domain ∧ site'.active = site.active := by
  unfold Panel.syncSSLFromConfig
  split
  · exact .inl rfl
  · rename_i config _
    split_ifs
    · exact .inl rfl
    · have hcases := updateRow_cases s e .syncRow .syncRead
        { site with ssl := certPathsFound config }
      dsimp only
      split
      · rename_i heq
        rw [heq] at hcases
        obtain ⟨hs, -⟩ | ⟨hs, -⟩ := hcases
        · exact .inl hs
        · exact .inr ⟨_, hs, rfl, rfl, rfl⟩
      · rename_i heq
        rw [heq] at hcases
        obtain ⟨hs, -⟩ | ⟨hs, -⟩ := hcases
        · exact .inl hs
        · exact .inr ⟨_, hs, rfl, rfl, rfl⟩

theorem create_frame (he : e.HidesRepairs o P) (i : SiteInput) (hn : ¬ P (confName i.domain))
    (hD : D i.domain) :
    s.Frame o P D s.repo.nextID (v.create e s i).1 := by
  unfold Service.create
  split
  · exact .refl _ s
  split
  · exact .refl _ s
  set site : Website :=
    ⟨0, i.siteName, i.domain, i.path, i.siteType, i.upstream, false, "", i.active, 0⟩
  have hrow : s.Frame o P D s.repo.nextID (s.createRow e site).1 := by
    obtain ⟨heq, -⟩ | ⟨heq, -⟩ := createRow_cases s e site
    · rw [heq]
      exact .refl _ s
    · rw [heq]
      refine ⟨.refl _, sameOthers_insert _ _, ?_⟩
      intro h r hr hid
      obtain hr | hr := List.mem_append.mp hr
      · exact h r hr hid
      · obtain rfl := List.mem_singleton.mp hr
        exact hD
  split
  · rename_i heq
    rwa [heq] at hrow
  rename_i s₁ site₁ heq
  have hsite : site₁.id = s.repo.nextID ∧ site₁.domain = i.domain := by
    obtain ⟨-, -, err, herr⟩ | ⟨-, -, ⟨⟨err, herr⟩, -⟩ | hok⟩ := createRow_cases s e site
    · rw [heq] at herr
      cases herr
    · rw [heq] at herr
      cases herr
    · rw [heq] at hok
      obtain rfl := Except.ok.inj hok
      exact ⟨rfl, rfl⟩
  rw [heq] at hrow
  obtain ⟨hid, hdomain⟩ := hsite
  rw [← hdomain] at hn
  have hprov := hrow.trans (frame_provisionSite v e s₁ hn s.repo.nextID)
  split
  · rename_i heq
    rw [heq] at hprov
    exact hprov.trans (hid ▸ frame_dropRow _ e site₁.id)
  rename_i s₂ heq
  rw [heq] at hprov
  by_cases hactive : site₁.active = true
  swap
  · rw [if_pos hactive]
    exact hprov
  rw [if_neg (not_not.mpr hactive)]
  split
  · exact hprov.trans (frame_dropSite _ e hid hn)
  have henable := hprov.setFiles (keeps_enableSite (f := s₂.files) e hn)
  split
  · rename_i heq
    rw [heq] at henable
    exact henable.trans (frame_dropSite _ e hid hn)
  rename_i files heq
  rw [heq] at henable
  have hreload := henable.setFiles (keeps_reload he (f := files) .reload)
  split
  · rename_i files' err heq
    rw [heq] at hreload
    exact (hreload.setFiles (keeps_disableSite (f := files') e hn)).trans
      (frame_dropSite _ e hid hn)
  · rename_i heq
    rw [heq] at hreload
    exact hreload

theorem update_frame (he : e.HidesRepairs o P) (id : ℕ) (i : SiteInput)
    (hn : ¬ P (confName i.domain)) (hD : D i.domain) :
    s.Frame o P D id (v.update e s id i).1 := by
  unfold Service.update
  split
  · exact .refl _ s
  rename_i existing hfind
  split
  · exact .refl _ s
  have hid : (i.apply existing).id = id := (findByID_eq_some hfind).2
  have hrow : s.Frame o P D id (s.updateRow e .updateRow .updateRead (i.apply existing)).1 :=
    frame_updateRow s e _ _ _ hid hD
  split
  · rename_i heq
    rwa [heq] at hrow
  rename_i s₁ site₁ heq
  have hdomain : site₁.domain = i.domain := by
    obtain ⟨-, -, err, herr⟩ | ⟨-, -, ⟨⟨err, herr⟩, -⟩ | ⟨hok, -⟩⟩ :=
      updateRow_cases s e .updateRow .updateRead (i.apply existing)
    · rw [heq] at herr
      cases herr
    · rw [heq] at herr
      cases herr
    · rw [heq] at hok
      obtain rfl := Except.ok.inj hok
      rfl
  rw [heq] at hrow
  rw [← hdomain] at hn
  have hwrite := hrow.trans (frame_writeRenderedConfig v e s₁ hn id)
  split
  · rename_i heq
    rwa [heq] at hwrite
  rename_i s₂ heq
  rw [heq] at hwrite
  split
  · exact hwrite
  split_ifs
  · split
    · exact hwrite
    · have henable := hwrite.setFiles (keeps_enableSite (f := s₂.files) e hn)
      split
      · rename_i heq
        rwa [heq] at henable
      · rename_i heq
        rwa [heq] at henable
  · have hdisable := hwrite.setFiles (keeps_disableSite (f := s₂.files) e hn)
    split
    · rename_i heq
      rwa [heq] at hdisable
    · rename_i heq
      rwa [heq] at hdisable

theorem delete_frame (he : e.HidesRepairs o P) {id : ℕ} {site : Website}
    (hfind : s.repo.findByID id = some site) (hn : ¬ P (confName site.domain)) (clean : Bool) :
    s.Frame o P D id (Service.delete e s id clean).1 := by
  unfold Service.delete
  rw [hfind]
  have hdisable := (Panel.Frame.refl (D := D) id s).setFiles (keeps_disableSite (o := o) e hn)
  dsimp only
  split
  · rename_i heq
    rwa [heq] at hdisable
  rename_i files heq
  rw [heq] at hdisable
  have hreload := hdisable.setFiles (keeps_reload he (f := files) .reload)
  split
  · rename_i heq
    rwa [heq] at hreload
  rename_i files₂ heq
  rw [heq] at hreload
  split
  · exact hreload
  have hremove := hreload.setFiles (keeps_removeSiteConfig (f := files₂) e hn)
  split
  · rename_i heq
    rwa [heq] at hremove
  rename_i files₃ heq
  rw [heq] at hremove
  have hrow := hremove.trans (frame_dropRow _ e id)
  unfold Panel.dropRow at hrow
  split
  · rename_i heq
    rwa [heq] at hrow
  · rename_i heq
    rwa [heq] at hrow

theorem toggle_frame (he : e.HidesRepairs o P) {id : ℕ} {site : Website}
    (hfind : s.repo.findByID id = some site) (hn : ¬ P (confName site.domain))
    (hD : D site.domain) : s.Frame o P D id (Service.toggle e s id).1 := by
  unfold Service.toggle
  rw [hfind]
  have hid := (findByID_eq_some hfind).2
  have hset := (Panel.Frame.refl (D := D) id s).setFiles
    (keeps_setEnabled (o := o) e hn (!site.active))
  dsimp only
  split
  · rename_i heq
    rwa [heq] at hset
  rename_i files heq
  rw [heq] at hset
  have hreload := hset.setFiles (keeps_reload he (f := files) .reload)
  split
  · rename_i files₂ err heq
    rw [heq] at hreload
    exact hreload.setFiles (keeps_setEnabled (f := files₂) e hn site.active)
  rename_i files₂ heq
  rw [heq] at hreload
  have hrow := hreload.trans (frame_updateRow { s with files := files₂ } e .updateRow
    .updateRead { site with active := !site.active } hid hD)
  have hcases := updateRow_cases { s with files := files₂ } e .updateRow .updateRead
    { site with active := !site.active }
  split
  · rename_i s₃ err heq
    rw [heq] at hrow
    exact (hrow.setFiles (keeps_setEnabled (f := s₃.files) e hn site.active)).setFiles
      (keeps_reload he .reloadAgain)
  · rename_i s₃ updated heq
    rw [heq] at hrow hcases
    have hupdated : updated.id = id ∧ updated.domain = site.domain := by
      obtain ⟨-, -, err, herr⟩ | ⟨-, -, ⟨⟨err, herr⟩, -⟩ | ⟨hok, -⟩⟩ := hcases
      · cases herr
      · cases herr
      · obtain rfl := Except.ok.inj hok
        exact ⟨hid, rfl⟩
    exact hrow.trans (frame_syncSSLFromConfig s₃ e hupdated.1 (hupdated.2 ▸ hD))

theorem updateNginxConfig_frame (he : e.HidesRepairs o P) {id : ℕ} {site : Website}
    (hfind : s.repo.findByID id = some site) (hn : ¬ P (confName site.domain))
    (hD : D site.domain) (config : String) :
    s.Frame o P D id (Service.updateNginxConfig e s id config).1 := by
  unfold Service.updateNginxConfig
  rw [hfind]
  have hid := (findByID_eq_some hfind).2
  have hwrite := (Panel.Frame.refl (D := D) id s).setFiles (keeps_updateSiteConfig (o := o) e hn
    (withoutCR config))
  dsimp only
  split
  · rename_i heq
    rwa [heq] at hwrite
  rename_i files heq
  rw [heq] at hwrite
  split
  · exact hwrite
  have hreload := hwrite.setFiles (keeps_reload he (f := files) .reload)
  split
  · rename_i heq
    rwa [heq] at hreload
  · rename_i files₂ heq
    rw [heq] at hreload
    exact hreload.trans (frame_syncSSLFromConfig { s with files := files₂ } e hid hD)

/-- A request leaves the other rows alone, and the files of the names it does
not work on. -/
theorem handle_frame (he : e.HidesRepairs o P) (a : Request)
    (hn : ∀ domain ∈ a.domain s, ¬ P (confName domain)) (hD : ∀ domain ∈ a.domain s, D domain) :
    s.Frame o P D (a.target s) (v.handle e s a) := by
  cases a with
  | create i => exact create_frame he i (hn _ rfl) (hD _ rfl)
  | update id i => exact update_frame he id i (hn _ rfl) (hD _ rfl)
  | updateNginxConfig id config =>
      cases hfind : s.repo.findByID id with
      | none => simp [Service.handle, Service.updateNginxConfig, hfind, Panel.Frame.refl]
      | some site =>
          have hmem : site.domain ∈ (Request.updateNginxConfig id config).domain s := by
            simp [Request.domain, hfind]
          exact updateNginxConfig_frame he hfind (hn _ hmem) (hD _ hmem) config
  | toggle id =>
      cases hfind : s.repo.findByID id with
      | none => simp [Service.handle, Service.toggle, hfind, Panel.Frame.refl]
      | some site =>
          have hmem : site.domain ∈ (Request.toggle id).domain s := by
            simp [Request.domain, hfind]
          exact toggle_frame he hfind (hn _ hmem) (hD _ hmem)
  | delete id clean =>
      cases hfind : s.repo.findByID id with
      | none => simp [Service.handle, Service.delete, hfind, Panel.Frame.refl]
      | some site => exact delete_frame he hfind (hn _ (by simp [Request.domain, hfind])) clean

end

end GoSite.Website
