import GoSite.DumpConfinement
import GoSite.FilledTemplates
import GoSite.WebsiteService

/-!
# The order of the placeholders

A website's configuration is its template with the placeholders replaced one after the
other, in the order of a Go map. A value may hold the text of another placeholder, or
complete one together with its surroundings, and whether that is replaced too depends on
the order.
-/
namespace GoSite.Website
open GoStrings Substitution

/-- The keys of the map of `applyReplacements`. -/
def Placeholder.all : List Placeholder := [.domain, .path, .sslCert, .sslKey, .upstream]

theorem Placeholder.mem_all (p : Placeholder) : p ∈ Placeholder.all := by
  cases p <;> simp [Placeholder.all]

theorem Placeholder.nodup_all : Placeholder.all.Nodup := by decide

instance : Fintype Placeholder := ⟨⟨Placeholder.all, Placeholder.nodup_all⟩, Placeholder.mem_all⟩

/-- A placeholder without its brackets. -/
def Placeholder.word : Placeholder → List Char
  | .domain => "domain".toList
  | .path => "path".toList
  | .sslCert => "ssl_cert".toList
  | .sslKey => "ssl_key".toList
  | .upstream => "upstream".toList

def placeholders : Keys Placeholder Char where
  opening := '<'
  closing := '>'
  name := Placeholder.word
  opening_ne := by decide
  opening_notMem := by intro p; cases p <;> decide
  closing_notMem := by intro p; cases p <;> decide
  injective := by
    intro p q h
    cases p <;> cases q <;> first | rfl | exact absurd h (by decide)

theorem key_placeholders (p : Placeholder) : placeholders.key p = p.key := by
  cases p <;> rfl

/-- The template with the placeholders of the set replaced at once. -/
def replaceAtOnce (replaced : Finset Placeholder) (template : List Char)
    (data : SiteTemplateData) : List Char :=
  filled placeholders (fun p => p.value data) replaced
    (pieces placeholders Placeholder.all 0 template)

/-- With all the other placeholders replaced, this one stands only as often as in the
template, unless its value is the placeholder itself. -/
def NotBroughtIn (template : List Char) (data : SiteTemplateData) (p : Placeholder) : Prop :=
  occurrences p.key (replaceAtOnce (Finset.univ.erase p) template data) =
    occurrences p.key template ∨ p.value data = p.key

/-- The values of a website, as `renderSiteConfig` gathers them. -/
def Service.templateData (v : Service) (site : Website) : SiteTemplateData :=
  let (cert, key) := v.defaultSSLPaths site.domain
  ⟨site.domain.toList, site.path.toList, cert, key, site.upstream.toList⟩

theorem renderSiteConfig_eq (v : Service) {e : Weather} {read : Call} (site : Website)
    (hread : e.faults read = none) :
    v.renderSiteConfig e read site = .ok (String.ofList (applyReplacements
      (if site.type = websiteTypeProxy then e.proxyTpl else e.staticTpl) e.placeholders
      (v.templateData site))) := by
  rw [Service.renderSiteConfig, hread]
  rfl

theorem replaceText_eq_substitute (old new : List Char) (skip : ℕ) (text : List Char) :
    replaceText old new skip text = substitute old new skip text := by
  induction text generalizing skip with
  | nil => rw [replaceText, substitute]
  | cons c cs ih =>
      cases skip with
      | zero => rw [replaceText, substitute, ih, ih]
      | succ skip => rw [replaceText, substitute, ih]

theorem applyReplacements_eq (template : List Char) (order : List Placeholder)
    (data : SiteTemplateData) :
    applyReplacements template order data =
      substituteAll placeholders (fun p => p.value data) order template := by
  simp only [applyReplacements, substituteAll, replaceText_eq_substitute, key_placeholders]

theorem notBroughtIn_iff (template : List Char) (data : SiteTemplateData) (p : Placeholder) :
    NotBroughtIn template data p ↔
      Clean placeholders (fun p => p.value data)
        (pieces placeholders Placeholder.all 0 template) (Finset.univ.erase p) p := by
  rw [NotBroughtIn, Clean, replaceAtOnce, ← key_placeholders p,
    occurrences_eq_standing Placeholder.mem_all p template]

/-- The last name of a path is part of it. -/
theorem mem_defaultSSLPaths (v : Service) (domain : String) :
    '.' ∈ (v.defaultSSLPaths domain).1 ∧ '.' ∈ (v.defaultSSLPaths domain).2 := by
  have hdot : ∀ (dir name : List Char), name.splitOn '/' = [name] → Paths.Plain name →
      '.' ∈ name → '.' ∈ Terminal.joinPath dir name := by
    intro dir name hsplit hname hmem
    obtain ⟨init, hlast⟩ := @Paths.joinPath_last _ _ dir [] hsplit hname
    exact mem_of_mem_splitOn (hlast ▸ List.mem_append_right _ (List.mem_singleton_self _)) hmem
  exact ⟨hdot _ _ (by decide) (by decide) (by decide), hdot _ _ (by decide) (by decide) (by decide)⟩

/-- The order of the placeholders does not matter exactly when none is brought in by the
values of the others. -/
theorem replacement_order_iff (v : Service) (site : Website) (template : List Char) :
    (∀ order : List Placeholder, order.Perm Placeholder.all →
        applyReplacements template order (v.templateData site) =
          replaceAtOnce Finset.univ template (v.templateData site)) ↔
      ∀ p, NotBroughtIn template (v.templateData site) p := by
  set value : Placeholder → List Char := fun p => p.value (v.templateData site) with hvalue
  have hdot := mem_defaultSSLPaths v site.domain
  have hheavy : ∀ p ∈ [Placeholder.sslCert, .sslKey], '.' ∈ value p := by
    intro p hp
    rcases List.mem_pair.mp hp with rfl | rfl
    · exact hdot.1
    · exact hdot.2
  have hc : ∀ p, '.' ∉ placeholders.key p := by
    intro p
    cases p <;> decide
  have hsplits : Splits Placeholder.domain .path .upstream [.sslCert, .sslKey] :=
    ⟨by decide, fun p => by cases p <;> simp⟩
  simp only [notBroughtIn_iff]
  rw [← orderFree_iff hc hheavy Placeholder.mem_all hsplits template]
  have hperm : ∀ order : List Placeholder,
      order.Perm Placeholder.all ↔ order.Nodup ∧ ∀ p, p ∈ order := by
    intro order
    constructor
    · intro h
      exact ⟨h.nodup_iff.mpr Placeholder.nodup_all, fun p => h.mem_iff.mpr p.mem_all⟩
    · rintro ⟨hnodup, hall⟩
      rw [List.perm_ext_iff_of_nodup hnodup Placeholder.nodup_all]
      exact fun p => ⟨fun _ => p.mem_all, fun _ => hall p⟩
  have hexact : ∀ order : List Placeholder, (∀ p, p ∈ order) →
      (Exact placeholders value Placeholder.all template order ↔
        applyReplacements template order (v.templateData site) =
          replaceAtOnce Finset.univ template (v.templateData site)) := by
    intro order hall
    have huniv : order.toFinset = Finset.univ :=
      Finset.eq_univ_of_forall fun p => List.mem_toFinset.mpr (hall p)
    rw [Exact, applyReplacements_eq, huniv]
    rfl
  constructor
  · intro h order hnodup hall
    exact (hexact order hall).mpr (h order ((hperm order).mpr ⟨hnodup, hall⟩))
  · intro h order horder
    obtain ⟨hnodup, hall⟩ := (hperm order).mp horder
    exact (hexact order hall).mp (h order hnodup hall)

/-- A website below the web root in a directory with the name of a placeholder. -/
def bracketSite : Website :=
  ⟨1, "x", "a.b", "/w/<domain>", websiteTypeStatic, "", false, "", false, 0⟩

theorem bracketSite_valid :
    demoService.validateCreateUpdate calmWeather .empty bracketSite.domain bracketSite.path
      bracketSite.type bracketSite.upstream 0 = none := by
  have hdots : ¬ ['.', '.'] <:+: bracketSite.path.toList := by
    intro hmid
    exact absurd (hmid.subset List.mem_cons_self) (by decide)
  have hpath : validatePath bracketSite.path demoService.webRoot = none := by
    rw [validatePath, if_neg (by decide), if_neg hdots]
    decide
  have hdomain : isValidDomain calmWeather bracketSite.domain = true := by decide
  have htype : bracketSite.type = websiteTypeStatic := rfl
  rw [Service.validateCreateUpdate, hdomain, htype, hpath]
  decide

/-- The path of an accepted website is replaced or not, as the order has it. -/
theorem path_holds_placeholder :
    demoService.validateCreateUpdate calmWeather .empty bracketSite.domain bracketSite.path
        bracketSite.type bracketSite.upstream 0 = none ∧
      applyReplacements "<path>".toList [.path, .domain, .sslCert, .sslKey, .upstream]
          (demoService.templateData bracketSite) = "/w/a.b".toList ∧
      applyReplacements "<path>".toList [.domain, .path, .sslCert, .sslKey, .upstream]
          (demoService.templateData bracketSite) = "/w/<domain>".toList :=
  ⟨bracketSite_valid, by decide, by decide⟩

end GoSite.Website
