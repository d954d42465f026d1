import GoSite.WebsiteFrames

/-!
# What the rows of websites hold

A request writes its input into one row. Flags and times aside, every row after
it holds what a row held before, or what the request gives.
-/
namespace GoSite.Website

/-- A row without its name, its flags and its times. -/
structure Content where
  id : ℕ
  domain : String
  path : String
  type : String
  upstream : String
  deriving Repr, DecidableEq

def Website.content (r : Website) : Content := ⟨r.id, r.domain, r.path, r.type, r.upstream⟩

/-- What a request gives the row of the id. -/
def SiteInput.content (i : SiteInput) (id : ℕ) : Content :=
  ⟨id, i.domain, i.path, i.siteType, i.upstream⟩

/-- All rows hold what satisfies `R`. -/
def Panel.Rows (R : Content → Prop) (s : Panel) : Prop := ∀ r ∈ s.repo.rows, R r.content

section
variable {R : Content → Prop} {s : Panel} {v : Service} {e : Weather} {id : ℕ}

theorem Panel.Rows.setFiles (hs : s.Rows R) (files : SiteFiles) :
    Panel.Rows R { s with files := files } := hs

theorem Panel.Rows.createRow (hs : s.Rows R) {site : Website}
    (hnew : R ⟨s.repo.nextID, site.domain, site.path, site.type, site.upstream⟩) :
    (s.createRow e site).1.Rows R := by
  obtain ⟨heq, -⟩ | ⟨heq, -⟩ := createRow_cases s e site
  · rwa [heq]
  · rw [heq]
    intro r hr
    obtain hr | hr := List.mem_append.mp hr
    · exact hs r hr
    · rw [List.mem_singleton.mp hr]
      exact hnew

theorem Panel.Rows.updateRow (hs : s.Rows R) {site : Website} (hsite : R site.content)
    (write read : Call) : (s.updateRow e write read site).1.Rows R := by
  obtain ⟨heq, -⟩ | ⟨heq, -⟩ := updateRow_cases s e write read site
  · rwa [heq]
  · rw [heq]
    intro r hr
    obtain ⟨rfl, -⟩ | ⟨hr, -⟩ := mem_update_iff.mp hr
    · exact hsite
    · exact hs r hr

theorem Panel.Rows.dropRow (hs : s.Rows R) : (s.dropRow e id).Rows R := by
  unfold Panel.dropRow Panel.deleteRow
  cases e.faults .deleteRow with
  | some err => exact hs
  | none => exact fun r hr => hs r (mem_delete_iff.mp hr).1

theorem Panel.Rows.dropSite (hs : s.Rows R) (site : Website) : (s.dropSite e site).Rows R :=
  Panel.Rows.dropRow hs

theorem writeRenderedConfig_repo (v : Service) (e : Weather) (s : Panel) (site : Website) :
    (v.writeRenderedConfig e s site).1.repo = s.repo := by
  unfold Service.writeRenderedConfig
  cases v.renderSiteConfig e .readTemplate site <;> rfl

theorem provisionSite_repo (v : Service) (e : Weather) (s : Panel) (site : Website) :
    (v.provisionSite e s site).1.repo = s.repo := by
  unfold Service.provisionSite
  split
  · rfl
  · split
    · rfl
    · exact writeRenderedConfig_repo v e s site

theorem Panel.Rows.syncSSLFromConfig (hs : s.Rows R) {site : Website} (hsite : R site.content) :
    (s.syncSSLFromConfig e site).1.Rows R := by
  unfold Panel.syncSSLFromConfig
  split
  · exact hs
  · rename_i config _
    split_ifs
    · exact hs
    · have hrow : (s.updateRow e .syncRow .syncRead
          { site with ssl := certPathsFound config }).1.Rows R := by
        refine hs.updateRow ?_ _ _
        exact hsite
      dsimp only
      split
      · rename_i heq
        rwa [heq] at hrow
      · rename_i heq
        rwa [heq] at hrow

theorem create_rows (hs : s.Rows R) (i : SiteInput) (hnew : R (i.content s.repo.nextID)) :
    (v.create e s i).1.Rows R := by
  unfold Service.create
  split
  · exact hs
  split
  · exact hs
  have hrow : (s.createRow e ⟨0, i.siteName, i.domain, i.path, i.siteType, i.upstream, false, "",
      i.active, 0⟩).1.Rows R := hs.createRow hnew
  split
  · rename_i heq
    rwa [heq] at hrow
  rename_i s₁ site heq
  rw [heq] at hrow
  have hprov : (v.provisionSite e s₁ site).1.Rows R := by
    unfold Panel.Rows
    rwa [provisionSite_repo]
  split
  · rename_i heq
    rw [heq] at hprov
    exact hprov.dropRow
  rename_i s₂ heq
  rw [heq] at hprov
  by_cases hactive : site.active = true
  swap
  · rwa [if_pos hactive]
  rw [if_neg (not_not.mpr hactive)]
  split
  · exact hprov.dropSite site
  split
  · exact (hprov.setFiles _).dropSite site
  split
  · exact (hprov.setFiles _).dropSite site
  · exact hprov

theorem update_rows (hs : s.Rows R) (i : SiteInput) (hnew : R (i.content id)) :
    (v.update e s id i).1.Rows R := by
  unfold Service.update
  split
  · exact hs
  rename_i existing hfind
  split
  · exact hs
  have hcontent : (i.apply existing).content = i.content id := by
    simp [SiteInput.apply, Website.content, SiteInput.content, (findByID_eq_some hfind).2]
  have hrow : (s.updateRow e .updateRow .updateRead (i.apply existing)).1.Rows R :=
    hs.updateRow (hcontent ▸ hnew) _ _
  split
  · rename_i heq
    rwa [heq] at hrow
  rename_i s₁ site heq
  rw [heq] at hrow
  have hwrite : (v.writeRenderedConfig e s₁ site).1.Rows R := by
    unfold Panel.Rows
    rwa [writeRenderedConfig_repo]
  split
  · rename_i heq
    rwa [heq] at hwrite
  rename_i s₂ heq
  rw [heq] at hwrite
  split
  · exact hwrite
  split_ifs
  · split
    · exact hwrite
    · split <;> exact hwrite
  · split <;> exact hwrite

theorem updateRow_content {s t : Panel} {e : Weather} {write read : Call} {site updated : Website}
    (h : s.updateRow e write read site = (t, .ok updated)) : updated.content = site.content := by
  obtain ⟨-, -, err, herr⟩ | ⟨-, -, ⟨⟨err, herr⟩, -⟩ | ⟨hok, -⟩⟩ :=
    updateRow_cases s e write read site
  · rw [h] at herr
    cases herr
  · rw [h] at herr
    cases herr
  · rw [h] at hok
    obtain rfl := Except.ok.inj hok
    rfl

/-- After a request every row holds what a row held before, or what the request
gives to the row it works on. -/
theorem handle_rows (hs : s.Rows R) (a : Request)
    (hnew : ∀ i, a = .create i → R (i.content s.repo.nextID))
    (hchanged : ∀ id i, a = .update id i → R (i.content id)) : (v.handle e s a).Rows R := by
  cases a with
  | create i => exact create_rows hs i (hnew i rfl)
  | update id i => exact update_rows hs i (hchanged id i rfl)
  | updateNginxConfig id config =>
      show (Service.updateNginxConfig e s id config).1.Rows R
      unfold Service.updateNginxConfig
      split
      · exact hs
      rename_i site hfind
      have hsite := hs site (findByID_eq_some hfind).1
      dsimp only
      split
      · exact hs
      split
      · exact hs
      split
      · exact hs
      · exact (hs.setFiles _).syncSSLFromConfig hsite
  | toggle id =>
      show (Service.toggle e s id).1.Rows R
      unfold Service.toggle
      split
      · exact hs
      rename_i site hfind
      have hsite := hs site (findByID_eq_some hfind).1
      dsimp only
      split
      · exact hs
      split
      · exact hs
      rename_i files _
      have hrow : ({ s with files := files }.updateRow e .updateRow .updateRead
          { site with active := !site.active }).1.Rows R := by
        refine (hs.setFiles files).updateRow ?_ _ _
        exact hsite
      split
      · rename_i heq
        rwa [heq] at hrow
      · rename_i heq
        have hcontent := updateRow_content heq
        rw [heq] at hrow
        refine hrow.syncSSLFromConfig ?_
        rw [hcontent]
        exact hsite
  | delete id clean =>
      show (Service.delete e s id clean).1.Rows R
      unfold Service.delete
      split
      · exact hs
      rename_i site hfind
      split
      · exact hs
      split
      · exact hs
      split
      · exact hs
      split
      · exact hs
      rename_i files _
      have hrow : ({ s with files := files }.dropRow e id).Rows R := (hs.setFiles files).dropRow
      unfold Panel.dropRow at hrow
      split
      · rename_i heq
        rwa [heq] at hrow
      · rename_i heq
        rwa [heq] at hrow

end

end GoSite.Website
