import GoSite.DumpPaths
import GoSite.GoStrings

/-!
# Site configurations on disk

A website's configuration is a file in `site.d`, and a link in `active.d` puts
it into service. Both are named after the domain. The nginx service writes,
links and removes them, and a reload may repair the files that nginx rejects.
-/
namespace GoSite.Website
open GoStrings
open GoSite.Terminal (cleanPath joinPath)

/-- The name of a domain's file below `site.d` and of its link below `active.d`.
`filepath.Join` cleans it, and a domain has no `..` in it. -/
def confName (domain : String) : List Char :=
  cleanPath ('/' :: domain.toList ++ ".conf".toList)

/-- The two directories. -/
structure SiteFiles where
  siteD : List Char → Option String
  activeD : List Char → Bool

def SiteFiles.empty : SiteFiles := ⟨fun _ => none, fun _ => false⟩

/-- The calls that can fail. An operation makes each of them at most once. -/
inductive Call where
  | checkPath
  | beforeCreate
  | insertRow
  | insertRead
  | makePath
  | provisionSSL
  | readTemplate
  | writeConfig
  | testSSL
  | readTestTemplate
  | enableSite
  | disableSite
  | reload
  | reloadAgain
  | removeConfig
  | deleteRow
  | updateRow
  | updateRead
  | configChanged
  | syncRow
  | syncRead
  | removePath
  | backupConfig
  | restoreConfig
  deriving Repr, DecidableEq

/-- The order `applyReplacements` takes the placeholders in is that of a Go map. -/
inductive Placeholder where
  | domain
  | path
  | sslCert
  | sslKey
  | upstream
  deriving Repr, DecidableEq

/-- What one request meets outside the panel. A write that fails can leave
something of the file, and `repairs` are the files the automatic repair of a
reload rewrites, with their new text. -/
structure Weather where
  faults : Call → Option String
  lookupHost : String → Bool
  isFile : List Char → Bool
  parseURL : List Char → Option (String × String)
  staticTpl : List Char
  proxyTpl : List Char
  placeholders : List Placeholder
  accepts : String → Option String
  leaves : Call → Option String
  repairs : Call → List (List Char × String)
  now : ℤ

inductive ErrorCode where
  | internal
  | validation
  | notFound
  | database
  | config
  | domainInvalid
  | pathInvalid
  | pathDuplicate
  | pathIsFile
  | pathTraversal
  | nginxTestFailed
  | nginxReloadFailed
  deriving Repr, DecidableEq

/-- `apperror.Error` with the text of its cause, or an error without a code. -/
inductive SiteError where
  | app (code : ErrorCode) (message : String) (cause : Option String)
  | plain (text : String)
  deriving Repr, DecidableEq

/-- `apperror.New`. -/
def SiteError.new (code : ErrorCode) (message : String) : SiteError := .app code message none

/-- `apperror.Wrap`. -/
def SiteError.wrap (code : ErrorCode) (message cause : String) : SiteError :=
  .app code message (some cause)

/-- `strings.ReplaceAll` of a text that is not empty. The number counts the
code points of a match that are still to be skipped. -/
def replaceText (old new : List Char) : ℕ → List Char → List Char
  | _, [] => []
  | skip + 1, _ :: cs => replaceText old new skip cs
  | 0, c :: cs =>
      if old <+: c :: cs then new ++ replaceText old new (old.length - 1) cs
      else c :: replaceText old new 0 cs

structure SiteTemplateData where
  domain : List Char
  path : List Char
  sslCert : List Char
  sslKey : List Char
  upstream : List Char
  deriving Repr, DecidableEq

def Placeholder.key : Placeholder → List Char
  | .domain => "<domain>".toList
  | .path => "<path>".toList
  | .sslCert => "<ssl_cert>".toList
  | .sslKey => "<ssl_key>".toList
  | .upstream => "<upstream>".toList

def Placeholder.value (data : SiteTemplateData) : Placeholder → List Char
  | .domain => data.domain
  | .path => data.path
  | .sslCert => data.sslCert
  | .sslKey => data.sslKey
  | .upstream => data.upstream

def applyReplacements (template : List Char) (order : List Placeholder)
    (data : SiteTemplateData) : List Char :=
  order.foldl (fun out p => replaceText p.key (p.value data) 0 out) template

/-- `parseDirectiveValue`: the text before a comment without its last semicolon. -/
def parseDirectiveValue (raw : List Char) : List Char :=
  let value := trimSpaceChars ((trimSpaceChars raw).takeWhile (· ≠ '#'))
  trimSpaceChars (if value.getLast? = some ';' then value.dropLast else value)

/-- One line of `ParseCertPaths`. -/
def parseCertLine (found : List Char × List Char) (line : List Char) : List Char × List Char :=
  let trimmed := trimSpaceChars line
  let cert := "ssl_certificate ".toList
  let key := "ssl_certificate_key ".toList
  if trimmed.head? = some '#' then found
  else if cert <+: trimmed then (parseDirectiveValue (trimPrefix trimmed cert), found.2)
  else if key <+: trimmed then (found.1, parseDirectiveValue (trimPrefix trimmed key))
  else found

/-- Whether `ParseCertPaths` finds both paths. The last directive of each kind
counts. -/
def certPathsFound (config : String) : Bool :=
  let (cert, key) := (config.toList.splitOn '\n').foldl parseCertLine ([], [])
  cert ≠ [] ∧ key ≠ []

/-- `WriteSiteConfig`. -/
def SiteFiles.writeSiteConfig (f : SiteFiles) (e : Weather) (call : Call)
    (domain content : String) : SiteFiles × Option String :=
  match e.faults call with
  | none => ({ f with siteD := Function.update f.siteD (confName domain) (some content) }, none)
  | some err =>
      match e.leaves call with
      | none => (f, some err)
      | some left =>
          ({ f with siteD := Function.update f.siteD (confName domain) (some left) }, some err)

/-- `RemoveSiteConfig`. -/
def SiteFiles.removeSiteConfig (f : SiteFiles) (e : Weather) (domain : String) :
    SiteFiles × Option String :=
  match e.faults .removeConfig with
  | none => ({ f with siteD := Function.update f.siteD (confName domain) none }, none)
  | some err => (f, some err)

/-- `EnableSite`. -/
def SiteFiles.enableSite (f : SiteFiles) (e : Weather) (domain : String) :
    SiteFiles × Option String :=
  match e.faults .enableSite with
  | some err => (f, some err)
  | none =>
      if f.siteD (confName domain) = none then (f, some "site config missing")
      else ({ f with activeD := Function.update f.activeD (confName domain) true }, none)

/-- `DisableSite`. -/
def SiteFiles.disableSite (f : SiteFiles) (e : Weather) (domain : String) :
    SiteFiles × Option String :=
  match e.faults .disableSite with
  | some err => (f, some err)
  | none => ({ f with activeD := Function.update f.activeD (confName domain) false }, none)

/-- One repair rewrites a file that exists. -/
def SiteFiles.repair (f : SiteFiles) (r : List Char × String) : SiteFiles :=
  if f.siteD r.1 = none then f
  else { f with siteD := Function.update f.siteD r.1 (some r.2) }

/-- `Reload`. The repairs come before the reload may fail. -/
def SiteFiles.reload (f : SiteFiles) (e : Weather) (call : Call) : SiteFiles × Option String :=
  ((e.repairs call).foldl SiteFiles.repair f, e.faults call)

/-- `UpdateSiteConfig`: a test that fails is rolled back, unless the file was
empty or not there. -/
def SiteFiles.updateSiteConfig (f : SiteFiles) (e : Weather) (domain content : String) :
    SiteFiles × Option SiteError :=
  let original := f.siteD (confName domain)
  match e.faults .backupConfig, original with
  | some err, some _ => (f, some (.wrap .nginxTestFailed "backup site config" err))
  | _, _ =>
      match f.writeSiteConfig e .writeConfig domain content with
      | (f, some err) => (f, some (.wrap .nginxTestFailed "write site config" err))
      | (f, none) =>
          match e.accepts content with
          | none => (f, none)
          | some err =>
              let original := original.getD ""
              if original ≠ "" then
                ((f.writeSiteConfig e .restoreConfig domain original).1,
                  some (.new .nginxTestFailed err))
              else (f, some (.new .nginxTestFailed err))

/-- What is seen of the files of some names is the same as before. -/
def SiteFiles.Keeps {γ : Type*} (o : Option String → γ) (P : List Char → Prop)
    (f g : SiteFiles) : Prop :=
  ∀ m, P m → o (g.siteD m) = o (f.siteD m) ∧ g.activeD m = f.activeD m

section
variable {γ : Type*} {o : Option String → γ} {P : List Char → Prop} {f g h : SiteFiles}

theorem SiteFiles.Keeps.refl (f : SiteFiles) : f.Keeps o P f := fun _ _ => ⟨rfl, rfl⟩

theorem SiteFiles.Keeps.trans (hfg : f.Keeps o P g) (hgh : g.Keeps o P h) : f.Keeps o P h :=
  fun m hm => ⟨(hgh m hm).1.trans (hfg m hm).1, (hgh m hm).2.trans (hfg m hm).2⟩

theorem keeps_update_siteD {n : List Char} (hn : ¬ P n) (text : Option String) :
    f.Keeps o P { f with siteD := Function.update f.siteD n text } := by
  intro m hm
  have hne : m ≠ n := fun h => hn (h ▸ hm)
  simp [Function.update_of_ne hne]

theorem keeps_update_activeD {n : List Char} (hn : ¬ P n) (link : Bool) :
    f.Keeps o P { f with activeD := Function.update f.activeD n link } := by
  intro m hm
  have hne : m ≠ n := fun h => hn (h ▸ hm)
  simp [Function.update_of_ne hne]

/-- A write leaves a file, or it fails and changes nothing. -/
theorem writeSiteConfig_eq (f : SiteFiles) (e : Weather) (call : Call)
    (domain content : String) :
    (f.writeSiteConfig e call domain content).2 = e.faults call ∧
      ((f.writeSiteConfig e call domain content).1 = f ∧ e.faults call ≠ none ∧
          e.leaves call = none ∨
        ∃ text, (f.writeSiteConfig e call domain content).1 =
          { f with siteD := Function.update f.siteD (confName domain) (some text) }) := by
  unfold SiteFiles.writeSiteConfig
  cases e.faults call with
  | none => exact ⟨rfl, .inr ⟨content, rfl⟩⟩
  | some err =>
      cases e.leaves call with
      | none => exact ⟨rfl, .inl ⟨rfl, by simp, rfl⟩⟩
      | some left => exact ⟨rfl, .inr ⟨left, rfl⟩⟩

theorem keeps_writeSiteConfig (e : Weather) (call : Call) {domain : String}
    (hn : ¬ P (confName domain)) (content : String) :
    f.Keeps o P (f.writeSiteConfig e call domain content).1 := by
  obtain ⟨-, ⟨heq, -⟩ | ⟨text, heq⟩⟩ := writeSiteConfig_eq f e call domain content
  · rw [heq]
    exact .refl f
  · rw [heq]
    exact keeps_update_siteD hn _

theorem removeSiteConfig_cases (f : SiteFiles) (e : Weather) (domain : String) :
    (∃ err, f.removeSiteConfig e domain = (f, some err) ∧ e.faults .removeConfig ≠ none) ∨
      f.removeSiteConfig e domain =
          ({ f with siteD := Function.update f.siteD (confName domain) none }, none) ∧
        e.faults .removeConfig = none := by
  unfold SiteFiles.removeSiteConfig
  cases e.faults .removeConfig with
  | none => exact .inr ⟨rfl, rfl⟩
  | some err => exact .inl ⟨err, rfl, by simp⟩

theorem enableSite_cases (f : SiteFiles) (e : Weather) (domain : String) :
    (∃ err, f.enableSite e domain = (f, some err) ∧
        (e.faults .enableSite ≠ none ∨ f.siteD (confName domain) = none)) ∨
      f.enableSite e domain =
          ({ f with activeD := Function.update f.activeD (confName domain) true }, none) ∧
        e.faults .enableSite = none ∧ f.siteD (confName domain) ≠ none := by
  unfold SiteFiles.enableSite
  cases e.faults .enableSite with
  | none =>
      by_cases hfile : f.siteD (confName domain) = none
      · exact .inl ⟨_, if_pos hfile, .inr hfile⟩
      · exact .inr ⟨if_neg hfile, rfl, hfile⟩
  | some err => exact .inl ⟨err, rfl, .inl (by simp)⟩

theorem disableSite_cases (f : SiteFiles) (e : Weather) (domain : String) :
    (∃ err, f.disableSite e domain = (f, some err) ∧ e.faults .disableSite ≠ none) ∨
      f.disableSite e domain =
          ({ f with activeD := Function.update f.activeD (confName domain) false }, none) ∧
        e.faults .disableSite = none := by
  unfold SiteFiles.disableSite
  cases e.faults .disableSite with
  | none => exact .inr ⟨rfl, rfl⟩
  | some err => exact .inl ⟨err, rfl, by simp⟩

/-- A reload changes no link and no name of a file. -/
theorem reload_fst (f : SiteFiles) (e : Weather) (call : Call) :
    (f.reload e call).1.activeD = f.activeD ∧
      ∀ m, ((f.reload e call).1.siteD m).isSome = (f.siteD m).isSome := by
  have hfold : ∀ (repairs : List (List Char × String)) (f : SiteFiles),
      (repairs.foldl SiteFiles.repair f).activeD = f.activeD ∧
        ∀ m, ((repairs.foldl SiteFiles.repair f).siteD m).isSome = (f.siteD m).isSome := by
    intro repairs
    induction repairs with
    | nil => exact fun f => ⟨rfl, fun _ => rfl⟩
    | cons r repairs ih =>
        intro f
        obtain ⟨hlink, hfile⟩ := ih (f.repair r)
        refine ⟨?_, ?_⟩
        · rw [List.foldl_cons, hlink]
          unfold SiteFiles.repair
          split_ifs <;> rfl
        · intro m
          rw [List.foldl_cons, hfile]
          unfold SiteFiles.repair
          split_ifs with hnone
          · rfl
          · by_cases hm : m = r.1
            · subst hm
              simp [Option.isSome_iff_ne_none.mpr hnone]
            · simp [Function.update_of_ne hm]
  exact hfold _ f

theorem keeps_removeSiteConfig (e : Weather) {domain : String} (hn : ¬ P (confName domain)) :
    f.Keeps o P (f.removeSiteConfig e domain).1 := by
  unfold SiteFiles.removeSiteConfig
  cases e.faults .removeConfig with
  | none => exact keeps_update_siteD hn _
  | some err => exact .refl f

theorem keeps_enableSite (e : Weather) {domain : String} (hn : ¬ P (confName domain)) :
    f.Keeps o P (f.enableSite e domain).1 := by
  unfold SiteFiles.enableSite
  cases e.faults .enableSite with
  | none =>
      dsimp only
      split_ifs
      · exact .refl f
      · exact keeps_update_activeD hn _
  | some err => exact .refl f

theorem keeps_disableSite (e : Weather) {domain : String} (hn : ¬ P (confName domain)) :
    f.Keeps o P (f.disableSite e domain).1 := by
  unfold SiteFiles.disableSite
  cases e.faults .disableSite with
  | none => exact keeps_update_activeD hn _
  | some err => exact .refl f

/-- The repairs of a reload are not seen. -/
def Weather.HidesRepairs (e : Weather) (o : Option String → γ) (P : List Char → Prop) : Prop :=
  ∀ call, ∀ r ∈ e.repairs call, P r.1 → ∀ text, o (some r.2) = o (some text)

theorem keeps_reload {e : Weather} (he : e.HidesRepairs o P) (call : Call) :
    f.Keeps o P (f.reload e call).1 := by
  have hfold : ∀ repairs : List (List Char × String), (∀ r ∈ repairs, P r.1 →
      ∀ text, o (some r.2) = o (some text)) → ∀ f : SiteFiles,
      f.Keeps o P (repairs.foldl SiteFiles.repair f) := by
    intro repairs
    induction repairs with
    | nil => exact fun _ f => .refl f
    | cons r repairs ih =>
        intro hr f
        refine .trans ?_ (ih (fun q hq => hr q (List.mem_cons_of_mem _ hq)) _)
        intro m hm
        unfold SiteFiles.repair
        split_ifs with hnone
        · exact ⟨rfl, rfl⟩
        · refine ⟨?_, rfl⟩
          by_cases hmr : m = r.1
          · subst hmr
            obtain ⟨text, htext⟩ := Option.ne_none_iff_exists'.mp hnone
            simpa [htext] using hr r List.mem_cons_self hm text
          · simp [Function.update_of_ne hmr]
  exact hfold _ (he call) f

theorem updateSiteConfig_activeD (f : SiteFiles) (e : Weather) (domain content : String) :
    (f.updateSiteConfig e domain content).1.activeD = f.activeD := by
  have hwrite : ∀ (f : SiteFiles) (call : Call) (text : String),
      (f.writeSiteConfig e call domain text).1.activeD = f.activeD := by
    intro f call text
    obtain ⟨-, ⟨heq, -⟩ | ⟨left, heq⟩⟩ := writeSiteConfig_eq f e call domain text <;> rw [heq]
  have hfirst := hwrite f .writeConfig content
  unfold SiteFiles.updateSiteConfig
  dsimp only
  split
  · rfl
  · split
    · rename_i heq
      rwa [heq] at hfirst
    · rename_i heq
      rw [heq] at hfirst
      split
      · exact hfirst
      · split_ifs
        · exact (hwrite _ _ _).trans hfirst
        · exact hfirst

theorem keeps_updateSiteConfig (e : Weather) {domain : String} (hn : ¬ P (confName domain))
    (content : String) : f.Keeps o P (f.updateSiteConfig e domain content).1 := by
  have hwrite := keeps_writeSiteConfig (f := f) (o := o) e .writeConfig hn content
  unfold SiteFiles.updateSiteConfig
  dsimp only
  split
  · exact .refl f
  · split
    · rename_i heq
      rwa [heq] at hwrite
    · rename_i heq
      rw [heq] at hwrite
      split
      · exact hwrite
      · split_ifs
        · exact hwrite.trans (keeps_writeSiteConfig e _ hn _)
        · exact hwrite

end

end GoSite.Website
