import GoSite.ConfTokens
import GoSite.NginxChanges

/-!
# Tests of a candidate configuration

The configuration of one site is tested in a copy of the global one, in which the path of
an `include` is replaced by that of a temporary file. What is replaced is the first text
that looks like the path, wherever it stands.
-/
namespace GoSite.Website
open GoStrings NginxConf
open GoSite.Terminal (cleanPath joinPath)

/-- `filepath.Join(dir, "*.conf")`. -/
def confGlob (dir : List Char) : List Char := joinPath dir "*.conf".toList

/-- What is replaced by `replaceHttpDIncludeForTest`. -/
def httpPattern (base httpDDir : List Char) : List Char :=
  if confGlob httpDDir <:+: base then confGlob httpDDir
  else if "/etc/nginx/http.d/*.conf".toList <:+: base then "/etc/nginx/http.d/*.conf".toList
  else "http.d/*.conf".toList

/-- `replaceHttpDIncludeForTest`. -/
def replaceHttpDIncludeForTest (base httpDDir defaultConfig : List Char) : List Char :=
  replaceFirst (httpPattern base httpDDir) defaultConfig base

/-- What is replaced by `replaceSiteIncludeForTest`. -/
def sitePattern (base siteD : List Char) : List Char :=
  if confGlob siteD <:+: base then confGlob siteD
  else if "/storage/webconfig/site.d/*.conf".toList <:+: base then
    "/storage/webconfig/site.d/*.conf".toList
  else if "/storage/webconfig/active.d/*.conf".toList <:+: base then
    "/storage/webconfig/active.d/*.conf".toList
  else "site.d/*.conf".toList

/-- `replaceSiteIncludeForTest`. -/
def replaceSiteIncludeForTest (base siteD siteConfig : List Char) : List Char :=
  replaceFirst (sitePattern base siteD) siteConfig base

/-- The tokens with a gap in the place of one. -/
def otherTokens (base : List Char) (i : ℕ) : List Token := (tokens base).set i ⟨.blank, []⟩

/-- The path of an `include` pattern, read as one word. -/
structure IsGlob (text : List Char) : Prop where
  plain : ∀ c ∈ text, PlainChar c
  separated : '/' ∈ text
  starred : '*' ∈ text

/-- The directories of the service and the two temporary files of a test. nginx reads each
path as one word, and the two files have names of their own. -/
structure TestPaths where
  activeD : List Char
  siteD : List Char
  httpDDir : List Char
  tmpSite : PlainPath
  emptyDefault : PlainPath
  active : IsGlob (confGlob activeD)
  site : IsGlob (confGlob siteD)
  http : IsGlob (confGlob httpDDir)
  apart : ¬ emptyDefault.text <:+: tmpSite.text
  other : cleanPath tmpSite.text ≠ confGlob activeD
  unstarred : '*' ∉ tmpSite.text ∧ '*' ∉ emptyDefault.text

namespace TestPaths
variable (p : TestPaths)

/-- What `TestConfig` looks for: first for the include of `active.d`, and when the text
has none for that of `site.d`. -/
def searched (base : List Char) : List Char :=
  if sitePattern base p.activeD <:+: base then sitePattern base p.activeD
  else sitePattern base p.siteD

/-- The configuration with the candidate put in. -/
def withCandidate (base : List Char) : List Char :=
  let adjusted := replaceSiteIncludeForTest base p.activeD p.tmpSite.text
  if adjusted = base then replaceSiteIncludeForTest base p.siteD p.tmpSite.text else adjusted

/-- What `TestConfig` writes to the file it tests. -/
def adjusted (base : List Char) : List Char :=
  replaceHttpDIncludeForTest (p.withCandidate base) p.httpDDir p.emptyDefault.text

/-- What nginx tests. A runner that is no `*Runner` tests the global file. -/
def handed (runner : NginxRunner) (base : List Char) : List Char :=
  if runner.repairable ∧ ¬ runner.noop then p.adjusted base else base

/-- The word names the panel's glob, however it is spelled. -/
def NamesLive (t : Token) : Prop := cleanPath (argValue t.text) = confGlob p.activeD

instance (t : Token) : Decidable (p.NamesLive t) := by
  unfold NamesLive
  infer_instance

/-- The tokens that are tested: the candidate is in the place of an include, no include
names the live glob, and nothing but paths of includes is changed. -/
structure TestsCandidate (base tested : List Token) (i : ℕ) : Prop where
  length : tested.length = base.length
  paths : ∀ j, IncludePath tested j ↔ IncludePath base j
  kept : ∀ j, ¬ IncludePath base j → tested[j]? = base[j]?
  candidate : (tested[i]?).map (argValue ·.text) = some p.tmpSite.text
  live : ∀ j, IncludePath tested j → ∀ t, tested[j]? = some t → ¬ p.NamesLive t

/-- What is looked for next, besides the one token. -/
def next (base : List Char) (i : ℕ) : List Char :=
  if (holder (confGlob p.httpDDir) (otherTokens base i)).isSome then confGlob p.httpDDir
  else if (holder "/etc/nginx/http.d/*.conf".toList (otherTokens base i)).isSome then
    "/etc/nginx/http.d/*.conf".toList
  else "http.d/*.conf".toList

/-- What is looked for is found first in the include, and is the whole of its path. What
is looked for next is in no other token, or first in the path of an include that names no
live glob then. -/
structure HitsIncludes (base : List Char) (i : ℕ) : Prop where
  site : holder (p.searched base) (tokens base) = some i ∧
    ((tokens base)[i]?).map (argValue ·.text) = some (p.searched base)
  http : ∀ k t, holder (p.next base i) (otherTokens base i) = some k → (tokens base)[k]? = some t →
    IncludePath (tokens base) k ∧ ¬ p.NamesLive (t.edit (p.next base i) p.emptyDefault.text)

end TestPaths

section
variable {p : TestPaths} {base : List Char}

theorem isGlob_httpPattern (base : List Char) : IsGlob (httpPattern base p.httpDDir) := by
  rw [httpPattern]
  split_ifs
  · exact p.http
  · exact ⟨by decide, by decide, by decide⟩
  · exact ⟨by decide, by decide, by decide⟩

theorem isGlob_sitePattern {dir : List Char} (h : IsGlob (confGlob dir)) (base : List Char) :
    IsGlob (sitePattern base dir) := by
  rw [sitePattern]
  split_ifs
  · exact h
  · exact ⟨by decide, by decide, by decide⟩
  · exact ⟨by decide, by decide, by decide⟩
  · exact ⟨by decide, by decide, by decide⟩

theorem isGlob_searched (base : List Char) : IsGlob (p.searched base) := by
  rw [TestPaths.searched]
  split_ifs
  · exact isGlob_sitePattern p.active base
  · exact isGlob_sitePattern p.site base

theorem IsGlob.ne_nil {text : List Char} (h : IsGlob text) : text ≠ [] :=
  List.ne_nil_of_mem h.separated

/-- A glob that is replaced by a path without a star leaves another text. -/
theorem replaceFirst_eq_self_iff {old new : List Char} (hold : IsGlob old) (hnew : '*' ∉ new)
    {text : List Char} : replaceFirst old new text = text ↔ ¬ old <:+: text := by
  refine ⟨fun hsame hinfix => ?_, replaceFirst_of_not_infix new⟩
  obtain ⟨front, back, htext, hedit⟩ := replaceFirst_infix hold.ne_nil new hinfix
  rw [hedit, htext, List.append_left_inj, List.append_right_inj] at hsame
  exact hnew (hsame ▸ hold.starred)

theorem withCandidate_eq (base : List Char) :
    p.withCandidate base = replaceFirst (p.searched base) p.tmpSite.text base := by
  have hsame : replaceSiteIncludeForTest base p.activeD p.tmpSite.text = base ↔
      ¬ sitePattern base p.activeD <:+: base :=
    replaceFirst_eq_self_iff (isGlob_sitePattern p.active base) p.unstarred.1
  rw [TestPaths.withCandidate, TestPaths.searched]
  by_cases hfound : sitePattern base p.activeD <:+: base
  · rw [if_pos hfound, if_neg fun h => hsame.mp h hfound]
    rfl
  · rw [if_neg hfound, if_pos (hsame.mpr hfound)]
    rfl

theorem PlainPath.ne_nil (path : PlainPath) : path.text ≠ [] :=
  List.ne_nil_of_mem path.separated

theorem tokens_withCandidate (base : List Char) :
    tokens (p.withCandidate base) =
      editFirst (p.searched base) p.tmpSite.text (tokens base) := by
  have hglob : IsGlob (p.searched base) := isGlob_searched base
  rw [withCandidate_eq]
  exact tokens_replaceFirst hglob.plain hglob.ne_nil p.tmpSite.plain (PlainPath.ne_nil _) base

theorem tokens_adjusted (base : List Char) :
    tokens (p.adjusted base) =
      editFirst (httpPattern (p.withCandidate base) p.httpDDir) p.emptyDefault.text
        (tokens (p.withCandidate base)) := by
  have hglob : IsGlob (httpPattern (p.withCandidate base) p.httpDDir) := isGlob_httpPattern _
  exact tokens_replaceFirst hglob.plain hglob.ne_nil p.emptyDefault.plain (PlainPath.ne_nil _) _

/-- The edits change no `include` into anything else. -/
theorem includePath_adjusted (base : List Char) (j : ℕ) :
    IncludePath (tokens (p.adjusted base)) j ↔ IncludePath (tokens base) j := by
  have hnames : ∀ name ∈ [includeWord], '/' ∉ name := by decide
  have hhttp : IsGlob (httpPattern (p.withCandidate base) p.httpDDir) := isGlob_httpPattern _
  have hsite : IsGlob (p.searched base) := isGlob_searched base
  rw [IncludePath, IncludePath, tokens_adjusted,
    argFlags_editFirst hhttp.plain hhttp.separated p.emptyDefault.plain p.emptyDefault.separated
      hnames, tokens_withCandidate,
    argFlags_editFirst hsite.plain hsite.separated p.tmpSite.plain p.tmpSite.separated hnames]

/-- A token that the second replacement has changed holds the other temporary file. -/
theorem emptyDefault_found {old : List Char} (hold : IsGlob old) {t : Token}
    (h : old <:+: t.text) :
    p.emptyDefault.text <:+: argValue (t.edit old p.emptyDefault.text).text := by
  obtain ⟨front, back, -, hedit⟩ := replaceFirst_infix hold.ne_nil p.emptyDefault.text h
  refine argValue_infix p.emptyDefault.plain (PlainPath.ne_nil _) ?_
  rw [Token.edit, hedit]
  exact ⟨front, back, rfl⟩

/-- The second replacement changes the token it finds. -/
theorem edit_ne {old : List Char} (hold : IsGlob old) {t : Token} (h : old <:+: t.text) :
    t.edit old p.emptyDefault.text ≠ t := fun hsame =>
  (replaceFirst_eq_self_iff hold p.unstarred.2).mp (congrArg Token.text hsame) h

/-- The edited argument is the candidate exactly when all of it was looked for. -/
theorem edit_candidate_iff {old : List Char} (hold : IsGlob old) {t : Token}
    (h : old <:+: t.text) :
    argValue (t.edit old p.tmpSite.text).text = p.tmpSite.text ↔ argValue t.text = old := by
  obtain ⟨front, back, htext, hedit⟩ := replaceFirst_infix hold.ne_nil p.tmpSite.text h
  rw [Token.edit, hedit, htext]
  exact ⟨argValue_swap p.tmpSite.plain (PlainPath.ne_nil _) hold.plain hold.ne_nil,
    argValue_swap hold.plain hold.ne_nil p.tmpSite.plain (PlainPath.ne_nil _)⟩

/-- A glob that is looked for next stands in the configuration with the candidate where it
stood besides the include. -/
theorem holder_withCandidate {i : ℕ} {t : Token} (ht : (tokens base)[i]? = some t)
    (hholder : holder (p.searched base) (tokens base) = some i)
    (hwhole : argValue t.text = p.searched base) {old : List Char} (hold : IsGlob old) :
    holder old (tokens (p.withCandidate base)) = holder old (otherTokens base i) := by
  obtain ⟨u, hu, hinfix⟩ := holder_some hholder
  obtain rfl := Option.some.inj (ht.symm.trans hu)
  have hgap : ¬ old <:+: ([] : List Char) := fun h => hold.ne_nil (List.infix_nil.mp h)
  have hcandidate : ¬ old <:+: (t.edit (p.searched base) p.tmpSite.text).text := by
    intro h
    have hvalue := argValue_infix hold.plain hold.ne_nil h
    rw [(edit_candidate_iff (isGlob_searched base) hinfix).mpr hwhole] at hvalue
    exact p.unstarred.1 (hvalue.subset hold.starred)
  refine holder_congr ?_ fun j v w hv hw => ?_
  · rw [tokens_withCandidate, length_editFirst, otherTokens, List.length_set]
  · rw [tokens_withCandidate, getElem?_editFirst, hholder] at hv
    rw [otherTokens, List.getElem?_set] at hw
    by_cases hj : i = j
    · subst hj
      rw [if_pos rfl, ht, Option.map_some, Option.some.injEq] at hv
      rw [if_pos rfl, if_pos (List.getElem?_eq_some_iff.mp ht).1, Option.some.injEq] at hw
      rw [← hv, ← hw]
      exact iff_of_false hcandidate hgap
    · rw [if_neg fun h => hj (Option.some.inj h)] at hv
      rw [if_neg hj] at hw
      obtain rfl := Option.some.inj (hv.symm.trans hw)
      exact Iff.rfl

theorem httpPattern_withCandidate {i : ℕ} {t : Token} (ht : (tokens base)[i]? = some t)
    (hholder : holder (p.searched base) (tokens base) = some i)
    (hwhole : argValue t.text = p.searched base) :
    httpPattern (p.withCandidate base) p.httpDDir = p.next base i := by
  have hlegacy : IsGlob "/etc/nginx/http.d/*.conf".toList := ⟨by decide, by decide, by decide⟩
  simp only [httpPattern, TestPaths.next, infix_iff_holder p.http.plain p.http.ne_nil,
    infix_iff_holder hlegacy.plain hlegacy.ne_nil,
    holder_withCandidate ht hholder hwhole p.http, holder_withCandidate ht hholder hwhole hlegacy]

/-- The adjusted configuration tests the candidate exactly when both replacements hit
includes. -/
theorem testsCandidate_iff {i : ℕ} {t : Token} (ht : (tokens base)[i]? = some t)
    (hpath : IncludePath (tokens base) i) (hnames : p.NamesLive t)
    (hunique : ∀ j, IncludePath (tokens base) j →
      ∀ u, (tokens base)[j]? = some u → p.NamesLive u → j = i) :
    p.TestsCandidate (tokens base) (tokens (p.adjusted base)) i ↔ p.HitsIncludes base i := by
  have hpaths := @includePath_adjusted p base
  have hsite : IsGlob (p.searched base) := isGlob_searched base
  have hhttp : IsGlob (httpPattern (p.withCandidate base) p.httpDDir) := isGlob_httpPattern _
  have hlength : (tokens (p.adjusted base)).length = (tokens base).length := by
    rw [tokens_adjusted, length_editFirst, tokens_withCandidate, length_editFirst]
  have hfirst : ∀ j, (tokens (p.withCandidate base))[j]? =
      if holder (p.searched base) (tokens base) = some j then
        (tokens base)[j]?.map (Token.edit (p.searched base) p.tmpSite.text)
      else (tokens base)[j]? := fun j => by rw [tokens_withCandidate, getElem?_editFirst]
  have hsecond : ∀ j, (tokens (p.adjusted base))[j]? =
      if holder (httpPattern (p.withCandidate base) p.httpDDir)
          (tokens (p.withCandidate base)) = some j then
        (tokens (p.withCandidate base))[j]?.map
          (Token.edit (httpPattern (p.withCandidate base) p.httpDDir) p.emptyDefault.text)
      else (tokens (p.withCandidate base))[j]? := fun j => by
    rw [tokens_adjusted, getElem?_editFirst]
  constructor
  · intro h
    -- The second replacement does not hit the include of the candidate.
    have hother : holder (httpPattern (p.withCandidate base) p.httpDDir)
        (tokens (p.withCandidate base)) ≠ some i := by
      intro hholder
      obtain ⟨u, hu, hinfix⟩ := holder_some hholder
      have hcandidate := h.candidate
      rw [hsecond, if_pos hholder, hu, Option.map_some, Option.map_some,
        Option.some.injEq] at hcandidate
      have hin := @emptyDefault_found p _ hhttp u hinfix
      rw [hcandidate] at hin
      exact p.apart hin
    have hsame : (tokens (p.adjusted base))[i]? = (tokens (p.withCandidate base))[i]? := by
      rw [hsecond, if_neg hother]
    have hholder : holder (p.searched base) (tokens base) = some i := by
      by_contra hne
      have hleft : (tokens (p.adjusted base))[i]? = some t := by
        rw [hsame, hfirst, if_neg hne, ht]
      exact h.live i ((hpaths i).mpr hpath) t hleft hnames
    obtain ⟨u, hu, hinfix⟩ := holder_some hholder
    obtain rfl := Option.some.inj (ht.symm.trans hu)
    have hwhole : argValue t.text = p.searched base := by
      have hcandidate := h.candidate
      rw [hsame, hfirst, if_pos hholder, ht, Option.map_some, Option.map_some,
        Option.some.injEq] at hcandidate
      exact (edit_candidate_iff hsite hinfix).mp hcandidate
    refine ⟨⟨hholder, by rw [ht, Option.map_some, hwhole]⟩, ?_⟩
    intro k v hk hv
    rw [← httpPattern_withCandidate ht hholder hwhole] at hk ⊢
    rw [← holder_withCandidate ht hholder hwhole hhttp] at hk
    have hki : k ≠ i := by
      rintro rfl
      exact hother hk
    have hstays : (tokens (p.withCandidate base))[k]? = some v := by
      rw [hfirst, hholder, if_neg fun heq => hki (Option.some.inj heq).symm, hv]
    have hnext : (tokens (p.adjusted base))[k]? = some (v.edit
        (httpPattern (p.withCandidate base) p.httpDDir) p.emptyDefault.text) := by
      rw [hsecond, if_pos hk, hstays, Option.map_some]
    have hinclude : IncludePath (tokens base) k := by
      by_contra hnot
      have hkept := h.kept k hnot
      obtain ⟨v', hv', hinfix'⟩ := holder_some hk
      obtain rfl := Option.some.inj (hstays.symm.trans hv')
      rw [hnext, hv, Option.some.injEq] at hkept
      exact edit_ne hhttp hinfix' hkept
    exact ⟨hinclude, h.live k ((hpaths k).mpr hinclude) _ hnext⟩
  · rintro ⟨⟨hholder, hwhole⟩, hnext⟩
    obtain ⟨u, hu, hinfix⟩ := holder_some hholder
    obtain rfl := Option.some.inj (ht.symm.trans hu)
    rw [ht, Option.map_some, Option.some.injEq] at hwhole
    have hvalue : argValue (t.edit (p.searched base) p.tmpSite.text).text = p.tmpSite.text :=
      (edit_candidate_iff hsite hinfix).mpr hwhole
    have hrest : ∀ k, holder (httpPattern (p.withCandidate base) p.httpDDir)
        (tokens (p.withCandidate base)) = some k → k ≠ i ∧ IncludePath (tokens base) k ∧
          ∀ v, (tokens base)[k]? = some v →
            ¬ p.NamesLive (v.edit (httpPattern (p.withCandidate base) p.httpDDir)
              p.emptyDefault.text) := by
      intro k hk
      obtain ⟨v, hv, hinfix'⟩ := holder_some hk
      have hki : k ≠ i := by
        rintro rfl
        rw [hfirst, if_pos hholder, ht, Option.map_some, Option.some.injEq] at hv
        have hin := argValue_infix hhttp.plain hhttp.ne_nil hinfix'
        rw [← hv, hvalue] at hin
        exact p.unstarred.1 (hin.subset hhttp.starred)
      rw [hfirst, hholder, if_neg fun heq => hki (Option.some.inj heq).symm] at hv
      rw [holder_withCandidate ht hholder hwhole hhttp] at hk
      rw [httpPattern_withCandidate ht hholder hwhole] at hk ⊢
      obtain ⟨hinclude, -⟩ := hnext k v hk hv
      exact ⟨hki, hinclude, fun w hw => (hnext k w hk hw).2⟩
    have hnow : (tokens (p.adjusted base))[i]? =
        some (t.edit (p.searched base) p.tmpSite.text) := by
      rw [hsecond, if_neg fun hk => (hrest i hk).1 rfl, hfirst, if_pos hholder, ht,
        Option.map_some]
    refine ⟨hlength, hpaths, ?_, ?_, ?_⟩
    · intro j hnot
      rw [hsecond, if_neg fun hk => hnot (hrest j hk).2.1, hfirst, if_neg]
      rw [hholder]
      intro heq
      exact hnot (Option.some.inj heq ▸ hpath)
    · rw [hnow, Option.map_some, hvalue]
    · intro j hinclude v hv hlive
      by_cases hji : j = i
      · subst hji
        obtain rfl := Option.some.inj (hnow.symm.trans hv)
        rw [TestPaths.NamesLive, hvalue] at hlive
        exact p.other hlive
      · have hstays : (tokens (p.withCandidate base))[j]? = (tokens base)[j]? := by
          rw [hfirst, hholder, if_neg fun heq => hji (Option.some.inj heq).symm]
        rw [hsecond, hstays] at hv
        split_ifs at hv with hk
        · obtain ⟨w, hw, rfl⟩ := Option.map_eq_some_iff.mp hv
          exact (hrest j hk).2.2 w hw hlive
        · exact hji (hunique j ((hpaths j).mp hinclude) v hv hlive)

end

/-- nginx tests the candidate in the place of the one live include exactly when the runner
is the real one and both replacements hit includes. -/
theorem test_config_tests_candidate_iff (p : TestPaths) (runner : NginxRunner) (base : List Char)
    (i : ℕ) (t : Token) (ht : (tokens base)[i]? = some t) (hpath : IncludePath (tokens base) i)
    (hnames : p.NamesLive t)
    (hunique : ∀ j, IncludePath (tokens base) j →
      ∀ u, (tokens base)[j]? = some u → p.NamesLive u → j = i) :
    p.TestsCandidate (tokens base) (tokens (p.handed runner base)) i ↔
      (runner.repairable = true ∧ ¬ runner.noop = true) ∧ p.HitsIncludes base i := by
  rw [TestPaths.handed]
  split_ifs with hrunner
  · rw [testsCandidate_iff ht hpath hnames hunique, and_iff_right hrunner]
  · exact iff_of_false (fun h => h.live i hpath t ht hnames) fun h => hrunner h.1

/-- Short paths for the examples. -/
def shortPaths : TestPaths where
  activeD := "/a.d".toList
  siteD := "/s.d".toList
  httpDDir := "/h.d".toList
  tmpSite := ⟨"/t/c".toList, by decide, by decide⟩
  emptyDefault := ⟨"/t/e".toList, by decide, by decide⟩
  active := ⟨by decide, by decide, by decide⟩
  site := ⟨by decide, by decide, by decide⟩
  http := ⟨by decide, by decide, by decide⟩
  apart := by decide
  other := by decide
  unstarred := by decide

/-- A configuration with nothing but the include of the sites. -/
def bareConf : List Char := "include /a.d/*.conf;".toList

/-- The same behind a comment that mentions its path. -/
def notedConf : List Char := "#/a.d/*.conf\ninclude /a.d/*.conf;".toList

theorem test_config_tests_candidate_bare :
    shortPaths.TestsCandidate (tokens bareConf) (tokens (shortPaths.handed ⟨false, true⟩ bareConf))
      2 := by
  have hpath : IncludePath (tokens bareConf) 2 := by decide
  have hflags : argFlags [includeWord] .start (tokens bareConf) = [false, false, true, false] := by decide
  refine (test_config_tests_candidate_iff shortPaths ⟨false, true⟩ bareConf 2
    ⟨.word, "/a.d/*.conf".toList⟩ (by decide) hpath (by decide) ?_).mpr ⟨by decide, ?_⟩
  · intro j hinclude u _ _
    rw [IncludePath, hflags] at hinclude
    rcases j with _ | _ | _ | _ | j <;> simp at hinclude ⊢
  · refine ⟨by decide, fun k t hk _ => ?_⟩
    have hnone : holder (shortPaths.next bareConf 2) (otherTokens bareConf 2) = none := by decide
    rw [hnone] at hk
    cases hk

/-- The comment is edited, and the sites that are live are tested. -/
theorem commented_glob_edited :
    (tokens notedConf)[4]? = some ⟨.word, "/a.d/*.conf".toList⟩ ∧
      IncludePath (tokens notedConf) 4 ∧
      shortPaths.NamesLive ⟨.word, "/a.d/*.conf".toList⟩ ∧
      (∀ j, IncludePath (tokens notedConf) j → j = 4) ∧
      ¬ shortPaths.TestsCandidate (tokens notedConf)
        (tokens (shortPaths.handed ⟨false, true⟩ notedConf)) 4 := by
  have hflags : argFlags [includeWord] .start (tokens notedConf) =
      [false, false, false, false, true, false] := by decide
  refine ⟨by decide, by decide, by decide, fun j hinclude => ?_, fun h => ?_⟩
  · rw [IncludePath, hflags] at hinclude
    rcases j with _ | _ | _ | _ | _ | _ | j <;> simp at hinclude ⊢
  · exact h.live 4 (by decide) ⟨.word, "/a.d/*.conf".toList⟩ (by decide) (by decide)

end GoSite.Website
