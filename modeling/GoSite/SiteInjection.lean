import GoSite.TemplateOrder
import GoSite.TemplateWords

/-!
# Words that a website puts into its configuration

The values of a website are put into its template as they are. The configuration has the
words and marks of the template, with each placeholder a part of one word, exactly when
each value can be an argument and the domain has no quotes around it. A path below the
web root may have blanks, semicolons and braces in it.
-/
namespace GoSite.Website
open GoStrings Substitution
open NginxConf (Argument Quoted lexPieces slots statements statementsOf statements_textOf_iff
  textOf textOf_char textOf_key tokens)

/-! ## The templates -/

/-- The server of a site that redirects to HTTPS. -/
def redirectServer : List String :=
  ["server \x7b", "\tlisten 80;", "\tserver_name <domain>;", "",
  "\tlocation ~* ^/.well-known/ \x7b", "\t\tallow all;", "\t\tlog_not_found off;", "\t\x7d", "",
  "\tif ($host = <domain>) \x7b", "\t\treturn 307 https://$host$request_uri;", "\t\x7d",
  "\treturn 404;", "\x7d"]

/-- `site.conf`. -/
def siteConf : List String :=
  "# Per-site static vhost. Log format \"main\" is defined in custom.d/nginx-log.conf." ::
    (redirectServer ++
      ["", "server \x7b", "\tlisten 443 quic reuseport;", "\tlisten 443 ssl;",
    "\tlisten [::]:443 quic reuseport;", "\tlisten [::]:443 ssl;", "\thttp2 on;",
    "\tserver_name <domain>;", "\tssl_certificate <ssl_cert>;", "\tssl_certificate_key <ssl_key>;",
    "", "\tvhost_traffic_status on;", "", "\tadd_header Alt-Svc 'h3=\":443\"; ma=86400' always;",
    "", "\troot <path>;", "\tindex index.html;",
    "\taccess_log /storage/logs/access-<domain>.log main;",
    "\terror_log /storage/logs/error-<domain>.log warn;", "", "\tlocation = /favicon.ico \x7b",
    "\t\tlog_not_found off;", "\t\taccess_log off;", "\t\terror_log /dev/null;", "\t\x7d", "",
    "\tlocation = /robot.txt \x7b", "\t\tlog_not_found off;", "\t\taccess_log off;",
    "\t\terror_log /dev/null;", "\t\x7d", "", "\tlocation ~ (^|/)\\. \x7b", "\t\treturn 403;",
    "\t\x7d", "\x7d"])

/-- `site-proxy.conf`. -/
def siteProxyConf : List String :=
  "# Per-site reverse-proxy vhost. Log format \"main\" is defined in custom.d/nginx-log.conf." ::
    (redirectServer ++
      ["", "server \x7b", "\tlisten 443 ssl;", "\tlisten [::]:443 ssl;", "\thttp2 on;",
    "\tserver_name <domain>;", "\tssl_certificate <ssl_cert>;", "\tssl_certificate_key <ssl_key>;",
    "", "\tvhost_traffic_status on;", "", "\tadd_header Alt-Svc 'h3=\":443\"; ma=86400' always;",
    "", "\taccess_log /storage/logs/access-<domain>.log main;",
    "\terror_log /storage/logs/error-<domain>.log warn;", "", "\tlocation / \x7b",
    "\t\tset $backend <upstream>;", "\t\tproxy_pass $backend;", "\t\tproxy_http_version 1.1;", "",
    "\t\tproxy_set_header Host $host;", "\t\tproxy_set_header X-Real-IP $remote_addr;",
    "\t\tproxy_set_header X-Forwarded-For $proxy_add_x_forwarded_for;",
    "\t\tproxy_set_header X-Forwarded-Proto $scheme;",
    "\t\tproxy_set_header X-Forwarded-Host $host;", "", "\t\t# WebSocket support",
    "\t\tproxy_set_header Upgrade $http_upgrade;", "\t\tproxy_set_header Connection \"upgrade\";",
    "\t\x7d", "\x7d"])

def templateText (lines : List String) : List Char := lines.flatMap fun l => l.toList ++ ['\n']

/-- A template as characters and placeholders. -/
def templatePieces (template : List Char) : List (Char ⊕ Placeholder) :=
  pieces placeholders Placeholder.all 0 template

/-- A placeholder is followed by a character that no placeholder has, and none begins
elsewhere. -/
@[grind] def spaced : List (Char ⊕ Placeholder) → Bool
  | [] => true
  | .inl c :: w => c ≠ '<' && spaced w
  | .inr _ :: w =>
      (match w.head? with
        | none => true
        | some (.inl c) => Placeholder.all.all fun q => c ∉ q.key
        | some (.inr _) => false) && spaced w

/-- The templates on disk are those of the repository. -/
structure Weather.Shipped (e : Weather) : Prop where
  static : e.staticTpl = templateText siteConf
  proxy : e.proxyTpl = templateText siteProxyConf

/-- The template of a website. -/
def Weather.template (e : Weather) (site : Website) : List Char :=
  if site.type = websiteTypeProxy then e.proxyTpl else e.staticTpl

/-- What is put in the place of a placeholder in the end. -/
def Service.finalText (v : Service) (e : Weather) (site : Website) (p : Placeholder) : List Char :=
  applyReplacements p.key e.placeholders (v.templateData site)

/-- The placeholders that its template has. -/
def usedPlaceholders (site : Website) : List Placeholder :=
  [if site.type = websiteTypeProxy then .upstream else .path, .sslKey, .sslCert, .domain]

/-- The configuration has the words and marks of the template, and each of its words is the
one of the template with the placeholders replaced in it. -/
def Service.KeepsStructure (v : Service) (e : Weather) (site : Website) (content : String) :
    Prop :=
  statements (tokens content.toList) = (statements (tokens (e.template site))).map fun t =>
    ⟨t.kind, applyReplacements t.text e.placeholders (v.templateData site)⟩

/-! ## Replacing -/

section
variable {f : Placeholder → List Char} {w : List (Char ⊕ Placeholder)}

/-- A character that the key does not have parts the text. -/
theorem replaceText_append {old : List Char} {c : Char} (hc : c ∉ old) (new rest : List Char)
    {skip : ℕ} {text : List Char} (hskip : skip ≤ text.length) :
    replaceText old new skip (text ++ c :: rest) =
      replaceText old new skip text ++ replaceText old new 0 (c :: rest) := by
  induction text generalizing skip with
  | nil =>
      obtain rfl : skip = 0 := Nat.le_zero.mp hskip
      rfl
  | cons d text ih =>
      cases skip with
      | succ skip =>
          rw [List.cons_append, replaceText, replaceText]
          exact ih (Nat.le_of_succ_le_succ hskip)
      | zero =>
          have hbegins : old <+: d :: (text ++ c :: rest) ↔ old <+: d :: text := by
            refine ⟨fun h => ?_, fun h => h.trans (List.prefix_append (d :: text) _)⟩
            have hparted : d :: text ++ [c] <+: d :: (text ++ c :: rest) :=
              ⟨rest, by simp⟩
            obtain hle | hlt := le_or_gt old.length (d :: text).length
            · exact List.prefix_of_prefix_length_le h
                (List.prefix_append (d :: text) (c :: rest)) hle
            · have hold := List.prefix_of_prefix_length_le hparted h (by simpa using hlt)
              exact absurd (hold.subset (by simp)) hc
          rw [List.cons_append, replaceText, replaceText]
          by_cases hold : old <+: d :: text
          · rw [if_pos (hbegins.mpr hold), if_pos hold, List.append_assoc]
            have hlength := hold.length_le
            rw [ih (by simpa using hlength)]
          · rw [if_neg fun h => hold (hbegins.mp h), if_neg hold, ih (Nat.zero_le _),
              List.cons_append]

/-- Nothing outside of the values is replaced. -/
theorem replaceText_textOf (h : spaced w = true) (q : Placeholder) (new : List Char) :
    replaceText q.key new 0 (textOf f w) = textOf (fun p => replaceText q.key new 0 (f p)) w := by
  induction w with
  | nil => rfl
  | cons piece w ih =>
      cases piece with
      | inl c =>
          obtain ⟨hc, hw⟩ : c ≠ '<' ∧ spaced w = true := by simpa [spaced] using h
          have hold : ¬ q.key <+: c :: textOf f w := by
            rw [← key_placeholders]
            exact key_not_first hc
          rw [textOf_char, textOf_char, replaceText, if_neg hold, ih hw]
      | inr p =>
          cases w with
          | nil => simp
          | cons piece w =>
              cases piece with
              | inr p' => simp [spaced] at h
              | inl c =>
                  obtain ⟨hc, hw⟩ :
                      (∀ q : Placeholder, c ∉ q.key) ∧ spaced (.inl c :: w) = true := by
                    simpa [spaced, Placeholder.mem_all] using h
                  rw [textOf_key, textOf_key, textOf_char,
                    replaceText_append (hc q) _ _ (Nat.zero_le _), ← textOf_char, ih hw]

theorem applyReplacements_textOf (h : spaced w = true) (order : List Placeholder)
    (data : SiteTemplateData) :
    applyReplacements (textOf f w) order data =
      textOf (fun p => applyReplacements (f p) order data) w := by
  induction order generalizing f with
  | nil => rfl
  | cons q order ih =>
      simp only [applyReplacements, List.foldl_cons] at ih ⊢
      rw [replaceText_textOf h, ih]

end

/-! ## The shipped templates -/

/-- Each placeholder of a template is an argument, the domain also a part of one, and none
is next to another. -/
def Layout (w : List (Char ⊕ Placeholder)) (known : List Placeholder) : Prop :=
  spaced w = true ∧ (∀ t ∈ (lexPieces .between w).2, spaced t.pieces = true) ∧
    slots .between [] [] w = some (known, [.domain])

instance (w : List (Char ⊕ Placeholder)) (known : List Placeholder) :
    Decidable (Layout w known) :=
  inferInstanceAs (Decidable (_ ∧ _ ∧ _))

theorem layout_siteConf :
    Layout (templatePieces (templateText siteConf))
      [.path, .sslKey, .sslCert, .domain, .domain] := by
  decide +kernel

theorem layout_siteProxyConf :
    Layout (templatePieces (templateText siteProxyConf))
      [.upstream, .sslKey, .sslCert, .domain, .domain] := by
  decide +kernel

theorem textOf_templatePieces (template : List Char) :
    textOf Placeholder.key (templatePieces template) = template := by
  have hfill : fill placeholders (fun _ => []) ∅ = Sum.elim (fun c => [c]) Placeholder.key := by
    funext piece
    cases piece with
    | inl c => rfl
    | inr p => exact (fill_notMem (Finset.notMem_empty p)).trans (key_placeholders p)
  have hfilled := filled_empty (K := placeholders) (v := fun _ => []) Placeholder.mem_all template
  rwa [filled, hfill] at hfilled

theorem argument_key (p : Placeholder) : Argument p.key ∧ ¬ Quoted p.key := by
  cases p <;> decide

/-- A template that is laid out so keeps its words and marks exactly when each value is an
argument. -/
theorem applyReplacements_statements_iff {template : List Char} {known : List Placeholder}
    (hlayout : Layout (templatePieces template) known) (order : List Placeholder)
    (data : SiteTemplateData) :
    statements (tokens (applyReplacements template order data)) =
        (statements (tokens template)).map
          (fun t => ⟨t.kind, applyReplacements t.text order data⟩) ↔
      (∀ p ∈ known, Argument (applyReplacements p.key order data)) ∧
        ¬ Quoted (applyReplacements Placeholder.domain.key order data) := by
  obtain ⟨hspaced, hwords, hslots⟩ := hlayout
  set w := templatePieces template
  have htemplate : textOf Placeholder.key w = template := textOf_templatePieces template
  have hkeys : statements (tokens template) =
      statementsOf Placeholder.key (lexPieces .between w).2 := by
    have hiff := statements_textOf_iff (f := Placeholder.key) hslots
    rw [htemplate] at hiff
    exact hiff.mpr ⟨fun p _ => (argument_key p).1, fun p _ => (argument_key p).2⟩
  have hmap : (statements (tokens template)).map
        (fun t => ⟨t.kind, applyReplacements t.text order data⟩) =
      statementsOf (fun p => applyReplacements p.key order data) (lexPieces .between w).2 := by
    rw [hkeys, statementsOf, statementsOf, List.map_map]
    refine List.map_congr_left fun t ht => ?_
    have ht := hwords t (List.mem_of_mem_filter ht)
    rw [Function.comp_apply, applyReplacements_textOf ht]
  rw [hmap, ← htemplate, applyReplacements_textOf hspaced, statements_textOf_iff hslots]
  simp

/-- The configuration of a website has the words and marks of its template exactly when each
of its values is one argument and the domain has no quotes around it. -/
theorem config_keeps_structure_iff (v : Service) {e : Weather} (hshipped : e.Shipped)
    {read : Call} (hread : e.faults read = none) (site : Website) :
    (∃ content, v.renderSiteConfig e read site = .ok content ∧
        v.KeepsStructure e site content) ↔
      (∀ p ∈ usedPlaceholders site, Argument (v.finalText e site p)) ∧
        ¬ Quoted (v.finalText e site .domain) := by
  have hlayout : ∃ known, Layout (templatePieces (e.template site)) known ∧
      ∀ p, p ∈ known ↔ p ∈ usedPlaceholders site := by
    by_cases hproxy : site.type = websiteTypeProxy
    · rw [Weather.template, if_pos hproxy, hshipped.proxy, usedPlaceholders, if_pos hproxy]
      exact ⟨_, layout_siteProxyConf, fun p => by cases p <;> decide⟩
    · rw [Weather.template, if_neg hproxy, hshipped.static, usedPlaceholders, if_neg hproxy]
      exact ⟨_, layout_siteConf, fun p => by cases p <;> decide⟩
  obtain ⟨known, hlayout, hknown⟩ := hlayout
  have hiff := applyReplacements_statements_iff hlayout e.placeholders (v.templateData site)
  simp only [renderSiteConfig_eq v site hread, Except.ok.injEq, exists_eq_left',
    Service.KeepsStructure, String.toList_ofList]
  refine hiff.trans (and_congr ?_ Iff.rfl)
  exact ⟨fun h p hp => h p ((hknown p).mpr hp), fun h p hp => h p ((hknown p).mp hp)⟩

/-- `calmWeather` with the templates of the repository. -/
def shippedWeather : Weather :=
  { calmWeather with
    staticTpl := templateText siteConf
    proxyTpl := templateText siteProxyConf
    placeholders := Placeholder.all }

theorem config_keeps_structure_demo :
    shippedWeather.Shipped ∧ shippedWeather.faults .readTemplate = none ∧
      ((∃ content, demoService.renderSiteConfig shippedWeather .readTemplate bracketSite =
          .ok content ∧ demoService.KeepsStructure shippedWeather bracketSite content) ↔
        (∀ p ∈ usedPlaceholders bracketSite,
            Argument (demoService.finalText shippedWeather bracketSite p)) ∧
          ¬ Quoted (demoService.finalText shippedWeather bracketSite .domain)) :=
  ⟨⟨rfl, rfl⟩, rfl,
    config_keeps_structure_iff demoService ⟨rfl, rfl⟩
      (show shippedWeather.faults .readTemplate = none from rfl) bracketSite⟩

/-- A path with a semicolon in it. -/
def includeSite : Website := { bracketSite with path := "/w/a;include b" }

theorem includeSite_valid :
    demoService.validateCreateUpdate shippedWeather .empty includeSite.domain includeSite.path
      includeSite.type includeSite.upstream 0 = none := by
  have hdots : ¬ ['.', '.'] <:+: includeSite.path.toList := by
    intro hmid
    exact absurd (hmid.subset List.mem_cons_self) (by decide)
  have hpath : validatePath includeSite.path demoService.webRoot = none := by
    rw [validatePath, if_neg (by decide), if_neg hdots]
    decide
  have hdomain : isValidDomain shippedWeather includeSite.domain = true := by decide
  have htype : includeSite.type = websiteTypeStatic := rfl
  rw [Service.validateCreateUpdate, hdomain, htype, hpath]
  decide

/-- The path of an accepted website ends the directive and begins another one. -/
theorem path_adds_directive :
    ¬ ∀ (v : Service) (e : Weather) (g : WebsiteRepository) (read : Call) (site : Website),
      e.Shipped → e.faults read = none →
      v.validateCreateUpdate e g site.domain site.path site.type site.upstream 0 = none →
      ∃ content, v.renderSiteConfig e read site = .ok content ∧
        v.KeepsStructure e site content := by
  intro h
  have hkeeps := h demoService shippedWeather .empty .readTemplate includeSite ⟨rfl, rfl⟩ rfl
    includeSite_valid
  have hlayout : Layout (templatePieces (shippedWeather.template includeSite)) _ := layout_siteConf
  obtain ⟨content, hcontent, hkeeps⟩ := hkeeps
  rw [renderSiteConfig_eq _ _ rfl, Except.ok.injEq] at hcontent
  subst hcontent
  rw [Service.KeepsStructure, String.toList_ofList] at hkeeps
  have hpath := ((applyReplacements_statements_iff hlayout _ _).mp hkeeps).1 .path (by simp)
  revert hpath
  decide

end GoSite.Website
