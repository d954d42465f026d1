import GoSite.WebsiteIsolation

/-!
# Rows and links that agree

A website is in service when its link lies in `active.d`, and its row says
whether it is. Most operations change both, and not all of them change both
back when a later step fails. A website that gets another domain leaves its old
files behind.
-/
namespace GoSite.Website
open GuardedRuns

/-- Every row says whether its link exists, and every file and every link belongs
to a row. -/
structure Panel.Agrees (s : Panel) : Prop where
  active_iff : ∀ r ∈ s.repo.rows, r.active = s.files.activeD (confName r.domain)
  owned : ∀ n, (s.files.siteD n).isSome ∨ s.files.activeD n = true →
    ∃ r ∈ s.repo.rows, confName r.domain = n

/-- The calls do not fail. -/
def Weather.Works (e : Weather) (calls : List Call) : Prop := ∀ c ∈ calls, e.faults c = none

instance (e : Weather) (calls : List Call) : Decidable (e.Works calls) :=
  inferInstanceAs (Decidable (∀ c ∈ calls, _))

/-- Whatever else names the files of the domain is as active as this. -/
def Panel.Matches (s : Panel) (id : ℕ) (domain : String) (active : Bool) : Prop :=
  ∀ r ∈ s.repo.rows, r.id ≠ id → confName r.domain = confName domain → r.active = active

instance (s : Panel) (id : ℕ) (domain : String) (active : Bool) :
    Decidable (s.Matches id domain active) :=
  inferInstanceAs (Decidable (∀ r ∈ s.repo.rows, _))

/-- The creation of a website is done or undone as a whole. -/
def CreateSettles (s : Panel) (e : Weather) (i : SiteInput) : Prop :=
  (i.active = false ∧ s.Matches s.repo.nextID i.domain false ∨
      ¬ s.NamedByOther s.repo.nextID (confName i.domain)) ∧
    e.Works [.insertRead, .deleteRow, .removeConfig, .disableSite] ∧
    (e.faults .writeConfig = none ∨ e.leaves .writeConfig = none)

/-- No step after the write of the row fails. -/
def Service.Completes (v : Service) (e : Weather) (site : Website) : Prop :=
  e.Works [.updateRead, .readTemplate, .writeConfig, .configChanged] ∧
    if site.active then v.validateRenderedConfig e site = none ∧ e.faults .enableSite = none
    else e.faults .disableSite = none

/-- A website takes over no files in another state and leaves none behind, and an
update that needs the link changed runs to its end. -/
def Service.UpdateSettles (v : Service) (s : Panel) (e : Weather) (existing : Website)
    (i : SiteInput) : Prop :=
  s.Matches existing.id i.domain i.active ∧
    (confName existing.domain = confName i.domain ∨
      s.NamedByOther existing.id (confName existing.domain) ∨
      s.files.siteD (confName existing.domain) = none ∧
        s.files.activeD (confName existing.domain) = false) ∧
    (existing.active = i.active ∧
        (confName existing.domain = confName i.domain ∨ i.active = false) ∨
      v.Completes e (i.apply existing))

/-- A link can be set or removed. -/
def SiteFiles.Switches (f : SiteFiles) (e : Weather) (domain : String) (on : Bool) : Prop :=
  if on then e.faults .enableSite = none ∧ f.siteD (confName domain) ≠ none
  else e.faults .disableSite = none

/-- The switch fails, or a later step fails and the switch is undone, or nothing
fails and the files have one owner. -/
def ToggleSettles (s : Panel) (e : Weather) (site : Website) : Prop :=
  ¬ s.files.Switches e site.domain (!site.active) ∨
    (e.faults .reload ≠ none ∨ e.faults .updateRow ≠ none) ∧
      s.files.Switches e site.domain site.active ∨
    e.Works [.reload, .updateRow, .updateRead] ∧ ¬ s.NamedByOther site.id (confName site.domain)

/-- The website is inactive, or its link stays, or everything goes. -/
def DeleteSettles (s : Panel) (e : Weather) (site : Website) (clean : Bool) : Prop :=
  site.active = false ∨ e.faults .disableSite ≠ none ∨
    ¬ s.NamedByOther site.id (confName site.domain) ∧
      e.Works [.reload, .removeConfig, .deleteRow] ∧ (clean = true → e.faults .removePath = none)

/-- What a request has to meet for rows and links to agree after it. -/
def Service.Settles (v : Service) (s : Panel) (a : Request × Weather) : Prop :=
  v.Rejects s a ∨
    match a.1 with
    | .create i => CreateSettles s a.2 i
    | .update id i => ∀ r ∈ s.repo.findByID id, v.UpdateSettles s a.2 r i
    | .updateNginxConfig _ _ => True
    | .toggle id => ∀ r ∈ s.repo.findByID id, ToggleSettles s a.2 r
    | .delete id clean => ∀ r ∈ s.repo.findByID id, DeleteSettles s a.2 r clean

section
variable {v : Service} {s t : Panel} {e : Weather} {id : ℕ} {n : List Char}

/-- A repair is not seen by one who only sees which files exist. -/
theorem hidesRepairs_isSome (e : Weather) (P : List Char → Prop) :
    e.HidesRepairs Option.isSome P := fun _ _ _ _ _ => rfl

/-- Agreement after a step on one row and one name. -/
theorem Panel.Agrees.of_frame {D : String → Prop} (hs : s.Agrees)
    (hframe : s.Frame Option.isSome (· ≠ n) D id t)
    (hown : ∀ r ∈ t.repo.rows, r.id = id →
      confName r.domain = n ∧ r.active = t.files.activeD n)
    (hothers : ∀ r ∈ s.repo.rows, r.id ≠ id → confName r.domain = n →
      r.active = t.files.activeD n)
    (hleft : ∀ r ∈ s.repo.rows, r.id = id → confName r.domain = n ∨
      s.NamedByOther id (confName r.domain) ∨
        s.files.siteD (confName r.domain) = none ∧ s.files.activeD (confName r.domain) = false)
    (hheld : (t.files.siteD n).isSome ∨ t.files.activeD n = true →
      ∃ r ∈ t.repo.rows, confName r.domain = n) : t.Agrees where
  active_iff := by
    intro r hr
    by_cases hid : r.id = id
    · obtain ⟨hname, hactive⟩ := hown r hr hid
      rw [hname, hactive]
    · have hmem := (hframe.rows r hid).mp hr
      by_cases hname : confName r.domain = n
      · rw [hothers r hmem hid hname, hname]
      · rw [(hframe.files _ hname).2]
        exact hs.active_iff r hmem
  owned := by
    intro m hm
    by_cases hmn : m = n
    · exact hmn ▸ hheld (hmn ▸ hm)
    · obtain ⟨hfile, hlink⟩ := hframe.files m hmn
      rw [hfile, hlink] at hm
      obtain ⟨r, hr, hname⟩ := hs.owned m hm
      by_cases hid : r.id = id
      · obtain h | ⟨q, hq, hne, hqname⟩ | ⟨hnone, hoff⟩ := hleft r hr hid
        · exact absurd (hname.symm.trans h) hmn
        · exact ⟨q, (hframe.rows q hne).mpr hq, hqname.trans hname⟩
        · rw [← hname, hnone, hoff] at hm
          simp at hm
      · exact ⟨r, (hframe.rows r hid).mpr hr, hname⟩

/-- A row is the only one with its id. -/
theorem eq_of_findByID {g : WebsiteRepository} {site : Website}
    (hfind : g.findByID id = some site) {r : Website} (hr : r ∈ g.rows) (hid : r.id = id) :
    r = site := by
  have h := findByID_of_mem hr
  rw [hid, hfind] at h
  exact (Option.some.inj h).symm

theorem delete_insert_rows (g : WebsiteRepository) (site : Website) :
    ((g.insert site).delete g.nextID).rows = g.rows := by
  simp only [WebsiteRepository.delete, WebsiteRepository.insert, List.filter_append]
  rw [List.filter_eq_self.mpr]
  · simp
  · intro r hr
    simpa using (g.below r hr).ne

/-- A website whose creation fails is not there, and its link is not either. -/
theorem create_cases (i : SiteInput)
    (hworks : e.Works [.insertRead, .deleteRow, .removeConfig, .disableSite])
    (hwrite : e.faults .writeConfig = none ∨ e.leaves .writeConfig = none) :
    (v.create e s i).1 = s ∨
      (v.create e s i).1.repo.rows = s.repo.rows ∧
        ((v.create e s i).1.files = s.files ∨
          i.active = true ∧ (v.create e s i).1.files.siteD (confName i.domain) = none ∧
            ((v.create e s i).1.files.activeD (confName i.domain) = false ∨
              (v.create e s i).1.files.activeD (confName i.domain) =
                s.files.activeD (confName i.domain))) ∨
      ∃ site, (v.create e s i).1.repo.rows = s.repo.rows ++ [site] ∧ site.id = s.repo.nextID ∧
        site.domain = i.domain ∧ site.active = i.active ∧
        (v.create e s i).1.files.activeD (confName i.domain) =
          (i.active || s.files.activeD (confName i.domain)) := by
  have hread := hworks .insertRead (by simp)
  have hdelete := hworks .deleteRow (by simp)
  have hremove := hworks .removeConfig (by simp)
  have hdisable := hworks .disableSite (by simp)
  unfold Service.create
  split
  · exact .inl rfl
  split
  · exact .inl rfl
  simp only [Panel.createRow]
  cases e.faults .insertRow with
  | some err => exact .inl rfl
  | none =>
  simp only [hread]
  set site : Website := ⟨s.repo.nextID, i.siteName, i.domain, i.path, i.siteType, i.upstream,
    false, "", i.active, e.now⟩ with hsite
  have hdrop : ∀ files : SiteFiles,
      (Panel.dropRow ⟨s.repo.insert site, files⟩ e s.repo.nextID).repo.rows = s.repo.rows ∧
        (Panel.dropRow ⟨s.repo.insert site, files⟩ e s.repo.nextID).files = files := by
    intro files
    simp [Panel.dropRow, Panel.deleteRow, hdelete, delete_insert_rows]
  have hdropSite : ∀ files : SiteFiles,
      (Panel.dropSite ⟨s.repo.insert site, files⟩ e site).repo.rows = s.repo.rows ∧
        (Panel.dropSite ⟨s.repo.insert site, files⟩ e site).files.siteD (confName i.domain) =
          none ∧
        (Panel.dropSite ⟨s.repo.insert site, files⟩ e site).files.activeD = files.activeD := by
    intro files
    obtain ⟨hrows, hfiles⟩ := hdrop (files.removeSiteConfig e site.domain).1
    refine ⟨hrows, ?_, ?_⟩
    · rw [Panel.dropSite, hfiles]
      simp [SiteFiles.removeSiteConfig, hremove, hsite]
    · rw [Panel.dropSite, hfiles]
      simp [SiteFiles.removeSiteConfig, hremove]
  obtain ⟨err, heq⟩ | ⟨text, err, heq, hfail⟩ :=
    provisionSite_cases v e { s with repo := s.repo.insert site } site
  · simp only [heq]
    obtain ⟨hrows, hfiles⟩ := hdrop s.files
    exact .inr (.inl ⟨hrows, .inl hfiles⟩)
  have herr : err = none := by
    by_contra hne
    obtain ⟨hfault, hleft⟩ := hfail hne
    obtain h | h := hwrite
    · exact hfault h
    · rw [hleft] at h
      cases h
  subst herr
  simp only [heq]
  by_cases hactive : i.active = true
  swap
  · rw [if_pos hactive]
    exact .inr (.inr ⟨site, rfl, rfl, rfl, rfl, by simp [hactive]⟩)
  rw [if_neg (not_not.mpr hactive)]
  split
  · obtain ⟨hrows, hfile, hlink⟩ := hdropSite ⟨Function.update s.files.siteD
      (confName site.domain) (some text), s.files.activeD⟩
    exact .inr (.inl ⟨hrows, .inr ⟨hactive, hfile, .inr (by rw [hlink])⟩⟩)
  obtain ⟨err, henable, -⟩ | ⟨henable, -⟩ := enableSite_cases ⟨Function.update s.files.siteD
      (confName site.domain) (some text), s.files.activeD⟩ e i.domain
  · simp only [henable]
    obtain ⟨hrows, hfile, hlink⟩ := hdropSite ⟨Function.update s.files.siteD
      (confName site.domain) (some text), s.files.activeD⟩
    exact .inr (.inl ⟨hrows, .inr ⟨hactive, hfile, .inr (by rw [hlink])⟩⟩)
  simp only [henable]
  set files : SiteFiles := ⟨Function.update s.files.siteD (confName site.domain) (some text),
    Function.update s.files.activeD (confName i.domain) true⟩ with hfiles
  obtain ⟨hlink, -⟩ := reload_fst files e .reload
  cases hreload : files.reload e .reload with
  | mk files' err =>
  rw [hreload] at hlink
  cases err with
  | none =>
      refine .inr (.inr ⟨site, rfl, rfl, rfl, rfl, ?_⟩)
      change files'.activeD = files.activeD at hlink
      change files'.activeD (confName i.domain) = _
      rw [hlink, hfiles]
      simp [hactive]
  | some err =>
      simp only [SiteFiles.disableSite, hdisable]
      obtain ⟨hrows, hfile, hoff⟩ := hdropSite
        ⟨files'.siteD, Function.update files'.activeD (confName i.domain) false⟩
      exact .inr (.inl ⟨hrows, .inr ⟨hactive, hfile, .inl (by rw [hoff]; simp)⟩⟩)

theorem create_agrees (hs : s.Agrees) {i : SiteInput} (h : CreateSettles s e i) :
    (v.create e s i).1.Agrees := by
  obtain ⟨hname, hworks, hwrite⟩ := h
  have hfresh : ∀ r ∈ s.repo.rows, r.id ≠ s.repo.nextID := fun r hr => (s.repo.below r hr).ne
  have hframe : s.Frame Option.isSome (· ≠ confName i.domain) (fun _ => True) s.repo.nextID
      (v.create e s i).1 :=
    create_frame (hidesRepairs_isSome e _) i (by simp) trivial
  have hothers : ∀ r ∈ s.repo.rows, confName r.domain = confName i.domain →
      r.active = false ∧ i.active = false := by
    intro r hr hrn
    obtain ⟨hactive, hmatch⟩ | halone := hname
    · exact ⟨hmatch r hr (hfresh r hr) hrn, hactive⟩
    · exact absurd ⟨r, hr, hfresh r hr, hrn⟩ halone
  have hleft : ∀ r ∈ s.repo.rows, r.id = s.repo.nextID → confName r.domain = confName i.domain ∨
      s.NamedByOther s.repo.nextID (confName r.domain) ∨
        s.files.siteD (confName r.domain) = none ∧
          s.files.activeD (confName r.domain) = false :=
    fun r hr hid => absurd hid (hfresh r hr)
  obtain heq | ⟨hrows, hfiles⟩ | ⟨site, hrows, hid, hdomain, hactive, hlink⟩ :=
    create_cases (v := v) (s := s) i hworks hwrite
  · rw [heq]
    exact hs
  · refine hs.of_frame hframe ?_ ?_ hleft ?_
    · intro r hr hid
      exact absurd hid (hfresh r (hrows ▸ hr))
    · intro r hr _ hrn
      obtain hfiles | ⟨hactive, -⟩ := hfiles
      · rw [hfiles, ← hrn]
        exact hs.active_iff r hr
      · rw [(hothers r hr hrn).2] at hactive
        cases hactive
    · intro hheld
      rw [hrows]
      obtain hfiles | ⟨-, hfile, hlink⟩ := hfiles
      · rw [hfiles] at hheld
        exact hs.owned _ hheld
      · rw [hfile] at hheld
        obtain hheld := hheld.resolve_left (by simp)
        obtain hlink | hlink := hlink
        · rw [hlink] at hheld
          cases hheld
        · exact hs.owned _ (.inr (hlink ▸ hheld))
  · have hoff : s.files.activeD (confName i.domain) = true → False := by
      intro hon
      obtain ⟨r, hr, hrn⟩ := hs.owned _ (.inr hon)
      have hract := hs.active_iff r hr
      rw [hrn, hon, (hothers r hr hrn).1] at hract
      cases hract
    have hlink' : (v.create e s i).1.files.activeD (confName i.domain) = i.active := by
      rw [hlink, Bool.eq_false_iff.mpr hoff, Bool.or_false]
    refine hs.of_frame hframe ?_ ?_ hleft ?_
    · intro r hr hrid
      rw [hrows] at hr
      obtain hr | hr := List.mem_append.mp hr
      · exact absurd hrid (hfresh r hr)
      · obtain rfl := List.mem_singleton.mp hr
        exact ⟨by rw [hdomain], by rw [hlink', hactive]⟩
    · intro r hr _ hrn
      obtain ⟨hract, hiact⟩ := hothers r hr hrn
      rw [hlink', hract, hiact]
    · intro _
      exact ⟨site, by simp [hrows], by rw [hdomain]⟩

/-- An update that gets past the write of the row. -/
theorem update_cases {existing : Website} (hfind : s.repo.findByID id = some existing)
    (i : SiteInput) :
    (v.update e s id i).1 = s ∨
      (v.update e s id i).1.repo =
          s.repo.update ((i.apply existing).stamped e.now) ∧
        ((v.update e s id i).1.files.activeD (confName i.domain) =
            s.files.activeD (confName i.domain) ∨
          (v.update e s id i).1.files.activeD (confName i.domain) = i.active) ∧
        (v.Completes e (i.apply existing) →
          (v.update e s id i).1.files.activeD (confName i.domain) = i.active) := by
  unfold Service.update
  rw [hfind]
  dsimp only
  split
  · exact .inl rfl
  simp only [Panel.updateRow]
  cases e.faults .updateRow with
  | some err => exact .inl rfl
  | none =>
  refine .inr ?_
  dsimp only
  cases hread : e.faults .updateRead with
  | some err =>
      refine ⟨rfl, .inl rfl, fun h => ?_⟩
      have hnone := h.1 .updateRead (by simp)
      rw [hread] at hnone
      cases hnone
  | none =>
  dsimp only
  set site : Website := (i.apply existing).stamped e.now with hsite
  obtain ⟨err, heq, hfail⟩ | ⟨text, err, heq, hfail, -⟩ :=
    writeRenderedConfig_cases v e { s with repo := s.repo.update site } site
  · rw [heq]
    refine ⟨rfl, .inl rfl, fun h => ?_⟩
    obtain hfail | hfail := hfail
    · exact absurd (h.1 .readTemplate (by simp)) hfail
    · exact absurd (h.1 .writeConfig (by simp)) hfail
  cases err with
  | some err =>
      rw [heq]
      exact ⟨rfl, .inl rfl, fun h => absurd (h.1 .writeConfig (by simp)) (hfail (by simp)).1⟩
  | none =>
  rw [heq]
  dsimp only
  cases hhook : e.faults .configChanged with
  | some err =>
      refine ⟨rfl, .inl rfl, fun h => ?_⟩
      have hnone := h.1 .configChanged (by simp)
      rw [hhook] at hnone
      cases hnone
  | none =>
  have hdomain : site.domain = i.domain := rfl
  have hactive : site.active = i.active := rfl
  have hvalid : v.validateRenderedConfig e site = v.validateRenderedConfig e (i.apply existing) :=
    rfl
  rw [hdomain, hactive, hvalid]
  dsimp only
  cases hi : i.active with
  | true =>
      rw [if_pos rfl]
      cases htest : v.validateRenderedConfig e (i.apply existing) with
      | some err =>
          refine ⟨rfl, .inl rfl, fun h => ?_⟩
          have hboth := h.2
          rw [if_pos (show (i.apply existing).active = true from hi), htest] at hboth
          cases hboth.1
      | none =>
          obtain ⟨err, henable, hwhy⟩ | ⟨henable, -⟩ := enableSite_cases ⟨Function.update
            s.files.siteD (confName i.domain) (some text), s.files.activeD⟩ e i.domain
          · rw [henable]
            refine ⟨rfl, .inl rfl, fun h => ?_⟩
            have hboth := h.2
            rw [if_pos (show (i.apply existing).active = true from hi)] at hboth
            obtain hwhy | hwhy := hwhy
            · exact absurd hboth.2 hwhy
            · simp at hwhy
          · rw [henable]
            exact ⟨rfl, .inr (by simp), fun _ => by simp⟩
  | false =>
      rw [if_neg Bool.false_ne_true]
      obtain ⟨err, hdisable, hwhy⟩ | ⟨hdisable, -⟩ := disableSite_cases ⟨Function.update
        s.files.siteD (confName i.domain) (some text), s.files.activeD⟩ e i.domain
      · rw [hdisable]
        refine ⟨rfl, .inl rfl, fun h => ?_⟩
        have hboth := h.2
        rw [if_neg (by simp [SiteInput.apply, hi])] at hboth
        exact absurd hboth hwhy
      · rw [hdisable]
        exact ⟨rfl, .inr (by simp), fun _ => by simp⟩

theorem update_agrees (hs : s.Agrees) {existing : Website}
    (hfind : s.repo.findByID id = some existing) {i : SiteInput}
    (h : v.UpdateSettles s e existing i) : (v.update e s id i).1.Agrees := by
  obtain ⟨hmatch, hleft, hdone⟩ := h
  obtain ⟨hmem, rfl⟩ := findByID_eq_some hfind
  obtain heq | ⟨hrepo, hlink, hcompletes⟩ := update_cases (v := v) (e := e) hfind i
  · rw [heq]
    exact hs
  set site : Website := (i.apply existing).stamped e.now with hsite
  have hlink' : (v.update e s existing.id i).1.files.activeD (confName i.domain) = i.active := by
    obtain ⟨hsame, hname⟩ | hall := hdone
    · obtain hlink | hlink := hlink
      · rw [hlink]
        obtain hname | hoff := hname
        · rw [← hname, ← hs.active_iff existing hmem, hsame]
        · rw [hoff, Bool.eq_false_iff]
          intro hon
          obtain ⟨r, hr, hrn⟩ := hs.owned _ (.inr hon)
          have hract := hs.active_iff r hr
          rw [hrn, hon] at hract
          by_cases hid : r.id = existing.id
          · rw [eq_of_findByID hfind hr hid, hsame, hoff] at hract
            cases hract
          · rw [hmatch r hr hid hrn, hoff] at hract
            cases hract
      · exact hlink
    · exact hcompletes hall
  have hframe : s.Frame Option.isSome (· ≠ confName i.domain) (fun _ => True) existing.id
      (v.update e s existing.id i).1 :=
    update_frame (hidesRepairs_isSome e _) existing.id i (by simp) trivial
  refine hs.of_frame hframe ?_ ?_ ?_ ?_
  · intro r hr hid
    rw [hrepo] at hr
    obtain ⟨rfl, -⟩ | ⟨-, hne⟩ := mem_update_iff.mp hr
    · exact ⟨rfl, hlink'.symm⟩
    · exact absurd hid hne
  · intro r hr hid hrn
    rw [hlink', hmatch r hr hid hrn]
  · intro r hr hid
    rw [eq_of_findByID hfind hr hid]
    exact hleft
  · intro _
    refine ⟨site, ?_, rfl⟩
    rw [hrepo]
    exact mem_update_iff.mpr (.inl ⟨rfl, existing, hmem, rfl⟩)

theorem setEnabled_cases (f : SiteFiles) (e : Weather) (domain : String) (on : Bool) :
    (∃ err, f.setEnabled e domain on = (f, some err) ∧ ¬ f.Switches e domain on) ∨
      f.setEnabled e domain on =
          ({ f with activeD := Function.update f.activeD (confName domain) on }, none) ∧
        f.Switches e domain on := by
  unfold SiteFiles.setEnabled SiteFiles.Switches
  cases on with
  | true =>
      obtain ⟨err, heq, hwhy⟩ | ⟨heq, hfault, hfile⟩ := enableSite_cases f e domain
      · refine .inl ⟨err, heq, ?_⟩
        rintro ⟨hfault, hfile⟩
        exact hwhy.elim (fun h => h hfault) (fun h => hfile h)
      · exact .inr ⟨heq, hfault, hfile⟩
  | false =>
      obtain ⟨err, heq, hwhy⟩ | ⟨heq, hfault⟩ := disableSite_cases f e domain
      · exact .inl ⟨err, heq, hwhy⟩
      · exact .inr ⟨heq, hfault⟩

/-- A switch that could be made can still be made after a reload. -/
theorem switches_reload {f g : SiteFiles} {domain : String} {on : Bool}
    (hfile : ∀ m, (g.siteD m).isSome = (f.siteD m).isSome) (h : f.Switches e domain on) :
    g.Switches e domain on := by
  unfold SiteFiles.Switches at h ⊢
  cases on with
  | true =>
      refine ⟨h.1, ?_⟩
      rw [← Option.isSome_iff_ne_none, hfile, Option.isSome_iff_ne_none]
      exact h.2
  | false => exact h

/-- Agreement after a step on a row whose link and flag end up the same. -/
theorem Panel.Agrees.of_row (hs : s.Agrees) {site : Website}
    (hfind : s.repo.findByID id = some site)
    (hframe : s.Frame Option.isSome (· ≠ confName site.domain) (fun _ => True) id t)
    (hown : ∃ q ∈ t.repo.rows, q.id = id ∧ q.domain = site.domain ∧
      q.active = t.files.activeD (confName site.domain))
    (hothers : t.files.activeD (confName site.domain) = site.active ∨
      ¬ s.NamedByOther id (confName site.domain)) : t.Agrees := by
  obtain ⟨q, hq, hqid, hqdomain, hqactive⟩ := hown
  obtain ⟨hmem, -⟩ := findByID_eq_some hfind
  refine hs.of_frame hframe ?_ ?_ ?_ ?_
  · intro r hr hid
    have hrq := eq_of_findByID (hqid ▸ findByID_of_mem hq) hr hid
    rw [hrq, hqdomain]
    exact ⟨rfl, hqactive⟩
  · intro r hr hid hrn
    obtain hlink | halone := hothers
    · rw [hlink, hs.active_iff r hr, hs.active_iff site hmem, hrn]
    · exact absurd ⟨r, hr, hid, hrn⟩ halone
  · intro r hr hid
    rw [eq_of_findByID hfind hr hid]
    exact .inl rfl
  · exact fun _ => ⟨q, hq, by rw [hqdomain]⟩

/-- The row and the link after a toggle, which is done or undone as a whole. -/
theorem toggle_cases (hs : s.Agrees) {site : Website}
    (hfind : s.repo.findByID id = some site) (h : ToggleSettles s e site) :
    ((Service.toggle e s id).1.repo = s.repo ∧
        (Service.toggle e s id).1.files.activeD (confName site.domain) = site.active) ∨
      (∃ q ∈ (Service.toggle e s id).1.repo.rows, q.id = id ∧ q.domain = site.domain ∧
        q.active = !site.active) ∧
        (Service.toggle e s id).1.files.activeD (confName site.domain) = !site.active ∧
        ¬ s.NamedByOther id (confName site.domain) := by
  obtain ⟨hmem, rfl⟩ := findByID_eq_some hfind
  unfold Service.toggle
  rw [hfind]
  dsimp only
  obtain ⟨err, hset, -⟩ | ⟨hset, hswitch⟩ :=
    setEnabled_cases s.files e site.domain (!site.active)
  · rw [hset]
    exact .inl ⟨rfl, (hs.active_iff site hmem).symm⟩
  rw [hset]
  dsimp only
  replace h := h.resolve_left (not_not.mpr hswitch)
  obtain ⟨hlink, hfile⟩ := reload_fst { s.files with
    activeD := Function.update s.files.activeD (confName site.domain) (!site.active) } e .reload
  have hback : ∀ f : SiteFiles, (∀ m, (f.siteD m).isSome = (s.files.siteD m).isSome) →
      s.files.Switches e site.domain site.active →
      (f.setEnabled e site.domain site.active).1.activeD (confName site.domain) =
        site.active := by
    intro f hf hswitches
    obtain ⟨err, -, hnot⟩ | ⟨heq, -⟩ := setEnabled_cases f e site.domain site.active
    · exact absurd (switches_reload hf hswitches) hnot
    · rw [heq]
      simp
  cases hreload : SiteFiles.reload { s.files with
    activeD := Function.update s.files.activeD (confName site.domain) (!site.active) } e .reload with
  | mk files err =>
  have hfault : err = e.faults .reload := (congrArg Prod.snd hreload).symm
  rw [hreload] at hlink hfile
  cases err with
  | some err =>
      obtain ⟨-, hswitches⟩ | ⟨hworks, -⟩ := h
      · exact .inl ⟨rfl, hback files hfile hswitches⟩
      · rw [hworks .reload (by simp)] at hfault
        cases hfault
  | none =>
  dsimp only
  simp only [Panel.updateRow]
  cases hrow : e.faults .updateRow with
  | some err =>
      obtain ⟨-, hswitches⟩ | ⟨hworks, -⟩ := h
      · refine .inl ⟨rfl, ?_⟩
        dsimp only
        rw [(reload_fst _ e .reloadAgain).1]
        exact hback files hfile hswitches
      · rw [hworks .updateRow (by simp)] at hrow
        cases hrow
  | none =>
  obtain ⟨hfails, -⟩ | ⟨hworks, halone⟩ := h
  · exact absurd hfails (by simp [← hfault, hrow])
  rw [hworks .updateRead (by simp)]
  dsimp only
  set site' : Website := Website.stamped { site with active := !site.active } e.now
  have hlinked : files.activeD (confName site.domain) = !site.active := by
    change files.activeD = _ at hlink
    rw [hlink]
    simp
  have hin : ∀ q : Website, q.id = site.id → q ∈ (s.repo.update q).rows :=
    fun q hq => mem_update_iff.mpr (.inl ⟨rfl, site, hmem, hq.symm⟩)
  refine .inr ⟨?_, ?_, halone⟩
  · obtain heq | ⟨q, heq, hqid, hqdomain, hqactive⟩ :=
      syncSSLFromConfig_cases ⟨s.repo.update site', files⟩ e site'
    · rw [heq]
      exact ⟨site', hin site' rfl, rfl, rfl, rfl⟩
    · rw [heq]
      refine ⟨q, ?_, hqid, hqdomain, hqactive⟩
      exact mem_update_iff.mpr (.inl ⟨rfl, site', hin site' rfl, hqid.symm⟩)
  · obtain heq | ⟨q, heq, -⟩ := syncSSLFromConfig_cases ⟨s.repo.update site', files⟩ e site'
    · rw [heq]
      exact hlinked
    · rw [heq]
      exact hlinked

theorem toggle_agrees (hs : s.Agrees) {site : Website}
    (hfind : s.repo.findByID id = some site) (h : ToggleSettles s e site) :
    (Service.toggle e s id).1.Agrees := by
  have hframe : s.Frame Option.isSome (· ≠ confName site.domain) (fun _ => True) id
      (Service.toggle e s id).1 :=
    toggle_frame (hidesRepairs_isSome e _) hfind (by simp) trivial
  obtain ⟨hmem, hid⟩ := findByID_eq_some hfind
  obtain ⟨hrepo, hlink⟩ | ⟨⟨q, hq, hqid, hqdomain, hqactive⟩, hlink, halone⟩ :=
    toggle_cases hs hfind h
  · refine hs.of_row hfind hframe ⟨site, ?_, hid, rfl, hlink.symm⟩ (.inl hlink)
    rw [hrepo]
    exact hmem
  · exact hs.of_row hfind hframe ⟨q, hq, hqid, hqdomain, by rw [hqactive, hlink]⟩ (.inr halone)

theorem updateNginxConfig_agrees (hs : s.Agrees) {site : Website}
    (hfind : s.repo.findByID id = some site) (config : String) :
    (Service.updateNginxConfig e s id config).1.Agrees := by
  have hframe : s.Frame Option.isSome (· ≠ confName site.domain) (fun _ => True) id
      (Service.updateNginxConfig e s id config).1 :=
    updateNginxConfig_frame (hidesRepairs_isSome e _) hfind (by simp) trivial config
  obtain ⟨hmem, rfl⟩ := findByID_eq_some hfind
  have hkept : (∃ q ∈ (Service.updateNginxConfig e s site.id config).1.repo.rows,
      q.id = site.id ∧ q.domain = site.domain ∧ q.active = site.active) ∧
      (Service.updateNginxConfig e s site.id config).1.files.activeD = s.files.activeD := by
    unfold Service.updateNginxConfig
    rw [hfind]
    dsimp only
    have hsame : ∃ q ∈ s.repo.rows, q.id = site.id ∧ q.domain = site.domain ∧
        q.active = site.active := ⟨site, hmem, rfl, rfl, rfl⟩
    have hwrite := updateSiteConfig_activeD s.files e site.domain
      (withoutCR config)
    split
    · rename_i heq
      rw [heq] at hwrite
      exact ⟨hsame, hwrite⟩
    rename_i files heq
    rw [heq] at hwrite
    split
    · exact ⟨hsame, hwrite⟩
    have hreload := (reload_fst files e .reload).1.trans hwrite
    split
    · rename_i heq
      rw [heq] at hreload
      exact ⟨hsame, hreload⟩
    · rename_i files₂ heq
      rw [heq] at hreload
      obtain heq | ⟨q, heq, hqid, hqdomain, hqactive⟩ :=
        syncSSLFromConfig_cases { s with files := files₂ } e site
      · rw [heq]
        exact ⟨hsame, hreload⟩
      · rw [heq]
        refine ⟨⟨q, ?_, hqid, hqdomain, hqactive⟩, hreload⟩
        exact mem_update_iff.mpr (.inl ⟨rfl, site, hmem, hqid.symm⟩)
  obtain ⟨⟨q, hq, hqid, hqdomain, hqactive⟩, hlinks⟩ := hkept
  have hlink := congrFun hlinks (confName site.domain)
  rw [← hs.active_iff site hmem] at hlink
  exact hs.of_row hfind hframe ⟨q, hq, hqid, hqdomain, by rw [hqactive, hlink]⟩ (.inl hlink)

/-- The row and the files after a deletion. -/
theorem delete_cases (hs : s.Agrees) {site : Website} {clean : Bool}
    (hfind : s.repo.findByID id = some site) (h : DeleteSettles s e site clean) :
    ((Service.delete e s id clean).1.repo = s.repo ∧
        (Service.delete e s id clean).1.files.activeD (confName site.domain) = site.active) ∨
      (Service.delete e s id clean).1.repo = s.repo.delete id ∧
        (Service.delete e s id clean).1.files.activeD (confName site.domain) = false ∧
        (Service.delete e s id clean).1.files.siteD (confName site.domain) = none ∧
        (site.active = false ∨ ¬ s.NamedByOther id (confName site.domain)) := by
  obtain ⟨hmem, rfl⟩ := findByID_eq_some hfind
  unfold Service.delete
  rw [hfind]
  dsimp only
  obtain ⟨err, hoff, -⟩ | ⟨hoff, hfault⟩ := disableSite_cases s.files e site.domain
  · rw [hoff]
    exact .inl ⟨rfl, (hs.active_iff site hmem).symm⟩
  rw [hoff]
  dsimp only
  have hend : site.active = false ∨ ¬ s.NamedByOther site.id (confName site.domain) ∧
      e.Works [.reload, .removeConfig, .deleteRow] ∧
      (clean = true → e.faults .removePath = none) := by
    obtain h | h | h := h
    · exact .inl h
    · exact absurd hfault h
    · exact .inr h
  obtain ⟨hlink, -⟩ := reload_fst { s.files with
    activeD := Function.update s.files.activeD (confName site.domain) false } e .reload
  cases hreload : SiteFiles.reload { s.files with
    activeD := Function.update s.files.activeD (confName site.domain) false } e .reload with
  | mk files err =>
  have herr : err = e.faults .reload := (congrArg Prod.snd hreload).symm
  have hlinked : files.activeD (confName site.domain) = false := by
    rw [hreload] at hlink
    change files.activeD = _ at hlink
    rw [hlink]
    simp
  cases err with
  | some err =>
      obtain hinactive | ⟨-, hworks, -⟩ := hend
      · exact .inl ⟨rfl, hlinked.trans hinactive.symm⟩
      · rw [hworks .reload (by simp)] at herr
        cases herr
  | none =>
  dsimp only
  split
  · rename_i err hpath
    obtain hinactive | ⟨-, -, hclean⟩ := hend
    · exact .inl ⟨rfl, hlinked.trans hinactive.symm⟩
    · split_ifs at hpath with hc
      rw [hclean hc] at hpath
      cases hpath
  obtain ⟨err, hremove, hfails⟩ | ⟨hremove, -⟩ := removeSiteConfig_cases files e site.domain
  · rw [hremove]
    obtain hinactive | ⟨-, hworks, -⟩ := hend
    · exact .inl ⟨rfl, hlinked.trans hinactive.symm⟩
    · exact absurd (hworks .removeConfig (by simp)) hfails
  rw [hremove]
  simp only [Panel.deleteRow]
  cases hdelete : e.faults .deleteRow with
  | some err =>
      obtain hinactive | ⟨-, hworks, -⟩ := hend
      · exact .inl ⟨rfl, hlinked.trans hinactive.symm⟩
      · rw [hworks .deleteRow (by simp)] at hdelete
        cases hdelete
  | none => exact .inr ⟨rfl, hlinked, by simp, hend.imp_right fun h => h.1⟩

theorem delete_agrees (hs : s.Agrees) {site : Website} {clean : Bool}
    (hfind : s.repo.findByID id = some site) (h : DeleteSettles s e site clean) :
    (Service.delete e s id clean).1.Agrees := by
  have hframe : s.Frame Option.isSome (· ≠ confName site.domain) (fun _ => True) id
      (Service.delete e s id clean).1 :=
    delete_frame (hidesRepairs_isSome e _) hfind (by simp) clean
  obtain ⟨hmem, hid⟩ := findByID_eq_some hfind
  obtain ⟨hrepo, hlink⟩ | ⟨hrepo, hlink, hfile, howner⟩ := delete_cases hs hfind h
  · refine hs.of_row hfind hframe ⟨site, ?_, hid, rfl, hlink.symm⟩ (.inl hlink)
    rw [hrepo]
    exact hmem
  · refine hs.of_frame hframe ?_ ?_ ?_ ?_
    · intro r hr hrid
      rw [hrepo] at hr
      exact absurd hrid (mem_delete_iff.mp hr).2
    · intro r hr hrid hrn
      obtain hinactive | halone := howner
      · rw [hlink, hs.active_iff r hr, hrn, ← hs.active_iff site hmem, hinactive]
      · exact absurd ⟨r, hr, hrid, hrn⟩ halone
    · intro r hr hrid
      rw [eq_of_findByID hfind hr hrid]
      exact .inl rfl
    · rw [hlink, hfile]
      simp

/-- A request that settles keeps rows and links in agreement. -/
theorem handle_agrees (hs : s.Agrees) {a : Request × Weather} (h : v.Settles s a) :
    (v.handle a.2 s a.1).Agrees := by
  obtain ⟨a, e⟩ := a
  obtain hrejects | h := h
  · rw [handle_of_rejects hrejects]
    exact hs
  cases a with
  | create i => exact create_agrees hs h
  | update id i =>
      cases hfind : s.repo.findByID id with
      | none => rwa [handle_of_rejects (v := v) (a := .update id i) (.inl hfind)]
      | some site => exact update_agrees hs hfind (h site hfind)
  | updateNginxConfig id config =>
      cases hfind : s.repo.findByID id with
      | none => rwa [handle_of_rejects (v := v) (a := .updateNginxConfig id config) hfind]
      | some site => exact updateNginxConfig_agrees hs hfind config
  | toggle id =>
      cases hfind : s.repo.findByID id with
      | none => rwa [handle_of_rejects (v := v) (a := .toggle id) hfind]
      | some site => exact toggle_agrees hs hfind (h site hfind)
  | delete id clean =>
      cases hfind : s.repo.findByID id with
      | none => rwa [handle_of_rejects (v := v) (a := .delete id clean) hfind]
      | some site => exact delete_agrees hs hfind (h site hfind)

end

/-- Rows and links agree in every state of a run whose requests settle. -/
theorem rows_agree_with_links (v : Service) {s : Panel} (hs : s.Agrees)
    {as : List (Request × Weather)} (h : Guarded v.step v.Settles s as) :
    Along v.step Panel.Agrees s as := by
  refine along_of_guarded ?_ hs h
  intro s a t hs hsettles hstep
  obtain rfl := Option.some.inj hstep
  exact handle_agrees hs hsettles

theorem empty_agrees : Panel.empty.Agrees where
  active_iff := by rintro r hr; cases hr
  owned := by rintro n (h | h) <;> cases h

/-- A website is created, enabled, given another path and deleted. -/
theorem rows_agree_with_links_life :
    Along (Service.step demoService) Panel.Agrees Panel.empty
      [(.create (demoInput "a.b" "/w/a"), calmWeather), (.toggle 1, calmWeather),
        (.update 1 { demoInput "a.b" "/w/c" with active := true }, calmWeather),
        (.delete 1 false, calmWeather)] := by
  refine rows_agree_with_links demoService empty_agrees ?_
  rintro _ h₁
  obtain rfl := Option.some.inj h₁
  refine ⟨.inr ⟨.inr (by decide), by decide, .inl rfl⟩, ?_⟩
  rintro _ h₂
  obtain rfl := Option.some.inj h₂
  refine ⟨.inr ?_, ?_⟩
  · rintro r hr
    obtain rfl := Option.some.inj hr
    exact .inr (.inr ⟨by decide, by decide⟩)
  rintro _ h₃
  obtain rfl := Option.some.inj h₃
  refine ⟨.inr ?_, ?_⟩
  · rintro r hr
    obtain rfl := Option.some.inj hr
    exact ⟨by decide, .inl rfl, .inl ⟨rfl, .inl rfl⟩⟩
  rintro _ h₄
  obtain rfl := Option.some.inj h₄
  refine ⟨.inr ?_, trivial⟩
  rintro r hr
  obtain rfl := Option.some.inj hr
  exact .inr (.inr ⟨by decide, by decide, by decide⟩)

/-- A website that gets another domain leaves its file behind. -/
theorem renamed_website_leaves_file :
    ¬ Along (Service.step demoService) Panel.Agrees Panel.empty
      [(.create (demoInput "a.b" "/w/a"), calmWeather),
        (.update 1 (demoInput "c.d" "/w/a"), calmWeather)] := by
  intro h
  obtain ⟨r, hr, hname⟩ := (h.last rfl).owned (confName "a.b") (.inl (by decide))
  have hnone : ∀ r ∈ (demoService.handle calmWeather (demoService.handle calmWeather Panel.empty
      (.create (demoInput "a.b" "/w/a"))) (.update 1 (demoInput "c.d" "/w/a"))).repo.rows,
      confName r.domain ≠ confName "a.b" := by decide
  exact hnone r hr hname

end GoSite.Website
