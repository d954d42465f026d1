import GoSite.PathElements
import GoSite.WebsiteIsolation
import GoSite.WebsiteRows

/-!
# The document roots of websites

`Delete` with `clean` removes the whole directory at the path of a website. The
service keeps two websites from having the same path, as a text. The same
directory has more than one text, one directory can lie below another, and the
web root itself is a path as well.
-/
namespace GoSite.Website
open GuardedRuns
open GoSite.Paths

/-- The document root of a path, as the elements of its absolute path. -/
def rootElements (cwd : Directory) (path : String) : List (List Char) :=
  absElements cwd path.toList

/-- Neither directory lies within the other. -/
def Apart (a b : List (List Char)) : Prop := ¬ a <+: b ∧ ¬ b <+: a

instance (a b : List (List Char)) : Decidable (Apart a b) := by
  unfold Apart
  infer_instance

theorem Apart.symm {a b : List (List Char)} (h : Apart a b) : Apart b a := ⟨h.2, h.1⟩

/-- What `Delete` leaves of the files on the machine. A removal that fails has
spared some files of the directory. -/
def Service.treeAfterDelete (cwd : Directory) (e : Weather) (spared : List (List Char) → Bool)
    (s : Panel) (id : ℕ) (clean : Bool) (tree : List (List (List Char))) :
    List (List (List Char)) :=
  match s.repo.findByID id with
  | none => tree
  | some site =>
  match s.files.disableSite e site.domain with
  | (_, some _) => tree
  | (files, none) =>
  match files.reload e .reload with
  | (_, some _) => tree
  | (_, none) =>
  if clean then
    let root := rootElements cwd site.path
    match e.faults .removePath with
    | none => tree.filter fun file => ¬ root <+: file
    | some _ => tree.filter fun file => ¬ root <+: file ∨ spared file
  else tree

/-- No `Delete` of a website removes a file in the document root of another. -/
def Panel.DeleteSparesOthers (cwd : Directory) (s : Panel) : Prop :=
  ∀ (e : Weather) (spared : List (List Char) → Bool) (id : ℕ) (clean : Bool)
    (tree : List (List (List Char))), ∀ r ∈ s.repo.rows, r.id ≠ id →
      ∀ file ∈ tree, rootElements cwd r.path <+: file →
        file ∈ Service.treeAfterDelete cwd e spared s id clean tree

/-- The document roots of different websites are apart. -/
def Panel.RootsApart (cwd : Directory) (s : Panel) : Prop :=
  ∀ a ∈ s.repo.rows, ∀ b ∈ s.repo.rows, a.id ≠ b.id →
    Apart (rootElements cwd a.path) (rootElements cwd b.path)

instance (cwd : Directory) (s : Panel) : Decidable (s.RootsApart cwd) :=
  inferInstanceAs (Decidable (∀ a ∈ s.repo.rows, ∀ b ∈ s.repo.rows, _ → _))

/-- The path a request writes into its row. -/
def Request.givenPath : Request → Option String
  | .create i | .update _ i => some i.path
  | .updateNginxConfig _ _ | .toggle _ | .delete _ _ => none

/-- The request is refused, or the directory it gives its website is apart from
those of all others. -/
def Service.OwnRoot (v : Service) (cwd : Directory) (s : Panel) (a : Request × Weather) : Prop :=
  v.Rejects s a ∨ ∀ path ∈ a.1.givenPath, ∀ r ∈ s.repo.rows, r.id ≠ a.1.target s →
    Apart (rootElements cwd path) (rootElements cwd r.path)

instance (v : Service) (cwd : Directory) (s : Panel) (a : Request × Weather) :
    Decidable (v.OwnRoot cwd s a) := by
  unfold Service.OwnRoot
  infer_instance

section
variable {cwd : Directory} {s : Panel}

/-- `Delete` leaves every file that does not lie in the removed directory. -/
theorem mem_treeAfterDelete {e : Weather} {spared : List (List Char) → Bool} {id : ℕ}
    {clean : Bool} {tree : List (List (List Char))} {file : List (List Char)} (hfile : file ∈ tree)
    (h : ∀ site, s.repo.findByID id = some site → ¬ rootElements cwd site.path <+: file) :
    file ∈ Service.treeAfterDelete cwd e spared s id clean tree := by
  unfold Service.treeAfterDelete
  cases hfind : s.repo.findByID id with
  | none => exact hfile
  | some site =>
      have hout := h site hfind
      dsimp only
      split
      · exact hfile
      · split
        · exact hfile
        · split_ifs
          · cases e.faults .removePath with
            | none => simpa [hfile] using hout
            | some err => simp [hfile, hout]
          · exact hfile

/-- On a calm day the whole directory is removed. -/
theorem treeAfterDelete_calm {site : Website} (hsite : site ∈ s.repo.rows)
    (spared : List (List Char) → Bool) (tree : List (List (List Char))) :
    Service.treeAfterDelete cwd calmWeather spared s site.id true tree =
      tree.filter fun file => ¬ rootElements cwd site.path <+: file := by
  unfold Service.treeAfterDelete
  rw [findByID_of_mem hsite]
  rfl

/-- Every deletion spares the other websites exactly when their document roots
are apart. -/
theorem deleteSparesOthers_iff : s.DeleteSparesOthers cwd ↔ s.RootsApart cwd := by
  constructor
  · intro h a ha b hb hid
    have hspared : ∀ file, rootElements cwd b.path <+: file →
        ¬ rootElements cwd a.path <+: file := by
      intro file hfile
      have hmem := h calmWeather (fun _ => false) a.id true [file] b hb hid.symm file
        List.mem_cons_self hfile
      rw [treeAfterDelete_calm ha] at hmem
      simpa using hmem
    refine ⟨hspared _ List.prefix_rfl, ?_⟩
    intro hbelow
    exact hspared _ hbelow List.prefix_rfl
  · intro h e spared id clean tree r hr hid file hfile hin
    refine mem_treeAfterDelete hfile ?_
    intro site hfind hsite
    obtain ⟨hmem, rfl⟩ := findByID_eq_some hfind
    obtain ⟨hnot, hnot'⟩ := h site hmem r hr hid.symm
    exact (List.prefix_or_prefix_of_prefix hsite hin).elim hnot hnot'

/-- The rows of other ids are the same after a request. -/
theorem handle_sameOthers (v : Service) (e : Weather) (s : Panel) (a : Request) :
    s.repo.SameOthers (a.target s) (v.handle e s a).repo := by
  have hframe : s.Frame (fun _ => ()) (fun _ => False) (fun _ => True) (a.target s)
      (v.handle e s a) := handle_frame (by simp [Weather.HidesRepairs]) a (by simp) (by simp)
  exact hframe.rows

/-- A request that gives a website a directory of its own keeps the roots apart. -/
theorem rootsApart_of_own {v : Service} {a : Request} {e : Weather} (hs : s.RootsApart cwd)
    (h : v.OwnRoot cwd s (a, e)) : (v.handle e s a).RootsApart cwd := by
  obtain hrejects | hgiven := h
  · rwa [handle_of_rejects hrejects]
  have hothers := handle_sameOthers v e s a
  have hown : (v.handle e s a).Rows fun c => c.id = a.target s →
      ∀ r ∈ s.repo.rows, r.id ≠ a.target s →
        Apart (rootElements cwd c.path) (rootElements cwd r.path) := by
    refine handle_rows ?_ a ?_ ?_
    · intro p hp hid r hr hne
      exact hs p hp r hr fun heq => hne (heq.symm.trans hid)
    · rintro i rfl - r hr hne
      exact hgiven i.path rfl r hr hne
    · rintro id i rfl - r hr hne
      exact hgiven i.path rfl r hr hne
  intro p hp q hq hid
  by_cases hpid : p.id = a.target s
  · have hqid : q.id ≠ a.target s := fun hqid => hid (hpid.trans hqid.symm)
    exact hown p hp hpid q ((hothers q hqid).mp hq) hqid
  · by_cases hqid : q.id = a.target s
    · exact (hown q hq hqid p ((hothers p hpid).mp hp) hpid).symm
    · exact hs p ((hothers p hpid).mp hp) q ((hothers q hqid).mp hq) hid

end

/-- In a run whose requests give every website a directory of its own, no deletion
ever removes a file in the document root of another website. -/
theorem deletions_spare_other_roots (v : Service) (cwd : Directory) {s : Panel}
    (hs : s.RootsApart cwd) {as : List (Request × Weather)}
    (h : Guarded v.step (v.OwnRoot cwd) s as) :
    Along v.step (Panel.DeleteSparesOthers cwd) s as := by
  refine (along_of_guarded ?_ hs h).mono fun _ => deleteSparesOthers_iff.mpr
  intro s a t hs hown hstep
  obtain rfl := Option.some.inj hstep
  exact rootsApart_of_own hs hown

def topDirectory : Directory := ⟨[], plain_nil⟩

/-- Two websites in directories of their own. -/
theorem deletions_spare_two_roots :
    Along (Service.step demoService) (Panel.DeleteSparesOthers topDirectory) Panel.empty
      [(.create (demoInput "a.b" "/w/a"), calmWeather),
        (.create (demoInput "c.d" "/w/c"), calmWeather)] := by
  refine deletions_spare_other_roots demoService topDirectory (by rintro a ha; cases ha) ?_
  rintro _ h₁
  obtain rfl := Option.some.inj h₁
  refine ⟨.inr (by decide), ?_⟩
  rintro _ h₂
  obtain rfl := Option.some.inj h₂
  exact ⟨.inr (by decide), trivial⟩

/-- The second website lies in the directory of the first. -/
def nestedSites : List (Request × Weather) :=
  [(.create (demoInput "a.b" "/w/a"), calmWeather),
    (.create (demoInput "c.d" "/w/a/c"), calmWeather)]

theorem nested_root_is_removed :
    ¬ ∀ (v : Service) (cwd : Directory) (as : List (Request × Weather)),
      Along v.step (Panel.DeleteSparesOthers cwd) Panel.empty as := by
  intro h
  obtain ⟨-, h₁⟩ := h demoService topDirectory nestedSites
  obtain ⟨-, h₂⟩ := h₁ _ rfl
  have hapart := deleteSparesOthers_iff.mp (h₂ _ rfl)
  revert hapart
  decide

end GoSite.Website
