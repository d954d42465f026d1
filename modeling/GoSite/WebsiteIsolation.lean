import GoSite.GuardedRuns
import GoSite.WebsiteFrames

/-!
# Websites with files of their own

Rows are told apart by their ids and files by the domains in them. Saving a
website checks that no other one has its path, and does not look at the other
domains, so two rows can name the same files.
-/
namespace GoSite.Website
open GuardedRuns

/-- The request is refused before anything is written. -/
def Service.Rejects (v : Service) (s : Panel) : Request × Weather → Prop
  | (.create i, e) =>
      v.validateCreateUpdate e s.repo i.domain i.path i.siteType i.upstream 0 ≠ none ∨
        e.faults .beforeCreate ≠ none ∨ e.faults .insertRow ≠ none
  | (.update id i, e) =>
      s.repo.findByID id = none ∨
        v.validateCreateUpdate e s.repo i.domain i.path i.siteType i.upstream id ≠ none ∨
        e.faults .updateRow ≠ none
  | (.updateNginxConfig id _, _) | (.toggle id, _) | (.delete id _, _) =>
      s.repo.findByID id = none

instance (v : Service) (s : Panel) (a : Request × Weather) : Decidable (v.Rejects s a) := by
  obtain ⟨a, e⟩ := a
  cases a <;> unfold Service.Rejects <;> infer_instance

theorem handle_of_rejects {v : Service} {s : Panel} {a : Request} {e : Weather}
    (h : v.Rejects s (a, e)) : v.handle e s a = s := by
  cases a with
  | create i =>
      simp only [Service.handle, Service.create]
      split
      · rfl
      · rename_i hvalid
        split
        · rfl
        · rename_i hhook
          have hrow : e.faults .insertRow ≠ none :=
            (h.resolve_left (not_not.mpr hvalid)).resolve_left (not_not.mpr hhook)
          obtain ⟨err, herr⟩ := Option.ne_none_iff_exists'.mp hrow
          simp only [Panel.createRow, herr]
  | update id i =>
      simp only [Service.handle, Service.update]
      split
      · rfl
      · rename_i existing hfind
        split
        · rfl
        · rename_i hvalid
          have hrow : e.faults .updateRow ≠ none :=
            (h.resolve_left (by simp [hfind])).resolve_left (not_not.mpr hvalid)
          obtain ⟨err, herr⟩ := Option.ne_none_iff_exists'.mp hrow
          simp only [Panel.updateRow, herr]
  | updateNginxConfig id config | toggle id | delete id clean =>
      have hfind : s.repo.findByID id = none := h
      simp [Service.handle, Service.updateNginxConfig, Service.toggle, Service.delete, hfind]

/-- No two websites name the same files. -/
def Panel.Separate (s : Panel) : Prop :=
  ∀ a ∈ s.repo.rows, ∀ b ∈ s.repo.rows, confName a.domain = confName b.domain → a.id = b.id

/-- A website other than the one with the id names these files. -/
def Panel.NamedByOther (s : Panel) (id : ℕ) (n : List Char) : Prop :=
  ∃ r ∈ s.repo.rows, r.id ≠ id ∧ confName r.domain = n

instance (s : Panel) (id : ℕ) (n : List Char) : Decidable (s.NamedByOther id n) :=
  inferInstanceAs (Decidable (∃ r ∈ s.repo.rows, _))

/-- The domain a request writes into its row. -/
def Request.given : Request → Option String
  | .create i | .update _ i => some i.domain
  | .updateNginxConfig _ _ | .toggle _ | .delete _ _ => none

/-- The request is refused, or the domain it gives its website names the files of
no other one. A reload repairs no file of another website. -/
def Service.OwnFiles (v : Service) (s : Panel) (a : Request × Weather) : Prop :=
  v.Rejects s a ∨ (∀ domain ∈ a.1.given, ¬ s.NamedByOther (a.1.target s) (confName domain)) ∧
    ∀ call, ∀ r ∈ a.2.repairs call, ¬ s.NamedByOther (a.1.target s) r.1

/-- The request changes no file and no link of another website. -/
def Service.LeavesOthers (v : Service) (s : Panel) (a : Request × Weather) : Prop :=
  ∀ r ∈ s.repo.rows, r.id ≠ a.1.target s →
    (v.handle a.2 s a.1).files.siteD (confName r.domain) = s.files.siteD (confName r.domain) ∧
      (v.handle a.2 s a.1).files.activeD (confName r.domain) =
        s.files.activeD (confName r.domain)

instance (v : Service) (s : Panel) (a : Request × Weather) : Decidable (v.LeavesOthers s a) :=
  inferInstanceAs (Decidable (∀ r ∈ s.repo.rows, _))

section
variable {v : Service} {s : Panel} {a : Request} {e : Weather}

/-- The files a request works on belong to no other website. -/
theorem not_namedByOther (hs : s.Separate)
    (hgiven : ∀ domain ∈ a.given, ¬ s.NamedByOther (a.target s) (confName domain)) :
    ∀ domain ∈ a.domain s, ¬ s.NamedByOther (a.target s) (confName domain) := by
  have hfound : ∀ id, ∀ domain ∈ (s.repo.findByID id).map Website.domain,
      ¬ s.NamedByOther id (confName domain) := by
    rintro id domain hmem ⟨r, hr, hid, hname⟩
    obtain ⟨site, hfind, rfl⟩ := Option.map_eq_some_iff.mp hmem
    obtain ⟨hsite, rfl⟩ := findByID_eq_some hfind
    exact hid (hs r hr site hsite hname)
  cases a with
  | create i => exact hgiven
  | update id i => exact hgiven
  | updateNginxConfig id config => exact hfound id
  | toggle id => exact hfound id
  | delete id clean => exact hfound id

/-- What a request that works on its own files leaves alone. -/
theorem frame_of_own (hs : s.Separate)
    (hgiven : ∀ domain ∈ a.given, ¬ s.NamedByOther (a.target s) (confName domain))
    (hrepairs : ∀ call, ∀ r ∈ e.repairs call, ¬ s.NamedByOther (a.target s) r.1) :
    s.Frame id (s.NamedByOther (a.target s))
      (fun domain => ¬ s.NamedByOther (a.target s) (confName domain)) (a.target s)
      (v.handle e s a) := by
  have hdomain := not_namedByOther hs hgiven
  refine handle_frame ?_ a hdomain hdomain
  intro call r hr hn
  exact absurd hn (hrepairs call r hr)

theorem leavesOthers_of_own (hs : s.Separate) (h : v.OwnFiles s (a, e)) :
    v.LeavesOthers s (a, e) := by
  intro r hr hid
  obtain hrejects | ⟨hgiven, hrepairs⟩ := h
  · dsimp only
    rw [handle_of_rejects hrejects]
    exact ⟨rfl, rfl⟩
  · exact (frame_of_own hs hgiven hrepairs).files _ ⟨r, hr, hid, rfl⟩

theorem separate_of_own (hs : s.Separate) (h : v.OwnFiles s (a, e)) :
    (v.handle e s a).Separate := by
  obtain hrejects | ⟨hgiven, hrepairs⟩ := h
  · rwa [handle_of_rejects hrejects]
  have hframe := frame_of_own (v := v) hs hgiven hrepairs
  have hown := hframe.own (by
    rintro r hr hid ⟨q, hq, hne, hname⟩
    exact hne (hid ▸ hs q hq r hr hname))
  have hother : ∀ p ∈ (v.handle e s a).repo.rows, p.id = a.target s →
      ∀ q ∈ (v.handle e s a).repo.rows, q.id ≠ a.target s →
        confName p.domain ≠ confName q.domain := by
    intro p hp hpid q hq hqid hname
    exact hown p hp hpid ⟨q, (hframe.rows q hqid).mp hq, hqid, hname.symm⟩
  intro p hp q hq hname
  by_cases hpid : p.id = a.target s
  · by_cases hqid : q.id = a.target s
    · rw [hpid, hqid]
    · exact absurd hname (hother p hp hpid q hq hqid)
  · by_cases hqid : q.id = a.target s
    · exact absurd hname.symm (hother q hq hqid p hp hpid)
    · exact hs p ((hframe.rows p hpid).mp hp) q ((hframe.rows q hqid).mp hq) hname

end

/-- In a run whose requests work on files of their own, no request changes the
files of another website. -/
theorem websites_isolated (v : Service) {s : Panel} (hs : s.Separate)
    {as : List (Request × Weather)} (h : Guarded v.step v.OwnFiles s as) :
    Guarded v.step v.LeavesOthers s as := by
  have hsep : Along v.step Panel.Separate s as := by
    refine along_of_guarded ?_ hs h
    intro s a t hs hown hstep
    obtain rfl := Option.some.inj hstep
    exact separate_of_own hs hown
  refine (h.and (hsep.guarded fun _ _ hs => hs)).mono ?_
  rintro s ⟨a, e⟩ ⟨hown, hs⟩
  exact leavesOthers_of_own hs hown

/-- Two websites with a domain each, and one of them is deleted. -/
theorem websites_isolated_two_domains :
    Guarded (Service.step demoService) demoService.LeavesOthers Panel.empty
      [(.create (demoInput "a.b" "/w/a"), calmWeather),
        (.create (demoInput "c.d" "/w/c"), calmWeather),
        (.delete 1 false, calmWeather)] := by
  refine websites_isolated demoService (by rintro a ha; cases ha) ?_
  rintro _ h₁
  obtain rfl := Option.some.inj h₁
  refine ⟨.inr ⟨by decide, fun _ r hr => by cases hr⟩, ?_⟩
  rintro _ h₂
  obtain rfl := Option.some.inj h₂
  refine ⟨.inr ⟨by decide, fun _ r hr => by cases hr⟩, ?_⟩
  rintro _ h₃
  obtain rfl := Option.some.inj h₃
  exact ⟨.inr ⟨by decide, fun _ r hr => by cases hr⟩, trivial⟩

/-- The second website of a domain is created over the configuration of the
first. -/
theorem second_website_overwrites_first :
    ¬ Guarded (Service.step demoService) demoService.LeavesOthers Panel.empty
      [(.create (demoInput "a.b" "/w/a"), calmWeather),
        (.create (demoInput "a.b" "/w/c"), calmWeather)] := by
  decide

end GoSite.Website
