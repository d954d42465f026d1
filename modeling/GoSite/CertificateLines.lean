import GoSite.SiteConfigs

/-!
# The certificate lines of a configuration

One function rewrites the lines that name a certificate or a key, and another one
reads the paths back. What is read back are the paths that were written, as far as
there was a line to write them to.
-/
namespace GoSite.Website
open GoStrings

/-- The text `ssl_certificate ` with its blank. -/
def certDirective : List Char :=
  ['s', 's', 'l', '_', 'c', 'e', 'r', 't', 'i', 'f', 'i', 'c', 'a', 't', 'e', ' ']

/-- The text `ssl_certificate_key ` with its blank. -/
def keyDirective : List Char :=
  ['s', 's', 'l', '_', 'c', 'e', 'r', 't', 'i', 'f', 'i', 'c', 'a', 't', 'e', '_', 'k', 'e', 'y', ' ']

/-- A line that names the certificate. -/
def IsCertLine (line : List Char) : Prop := certDirective <+: trimSpaceChars line

/-- A line that names the key. -/
def IsKeyLine (line : List Char) : Prop := keyDirective <+: trimSpaceChars line

instance (line : List Char) : Decidable (IsCertLine line) := by
  unfold IsCertLine
  infer_instance

instance (line : List Char) : Decidable (IsKeyLine line) := by
  unfold IsKeyLine
  infer_instance

/-- `ParseCertPaths`. -/
def parseCertPaths (config : List Char) : List Char × List Char :=
  (config.splitOn '\n').foldl parseCertLine ([], [])

/-- One line of `UpdateSSLDirectives`. -/
def updateSSLLine (certPath keyPath line : List Char) : List Char :=
  if IsCertLine line then certDirective ++ certPath ++ [';']
  else if IsKeyLine line then keyDirective ++ keyPath ++ [';']
  else line

/-- `UpdateSSLDirectives`. -/
def updateSSLDirectives (config certPath keyPath : List Char) : List Char :=
  ['\n'].intercalate ((config.splitOn '\n').map (updateSSLLine certPath keyPath))

/-- A path that a directive can hold: it is read back as it was written. -/
def Readable (path : List Char) : Prop :=
  path ≠ [] ∧ '\n' ∉ path ∧ '#' ∉ path ∧ ¬ path.head?.any isSpace ∧ ¬ path.getLast?.any isSpace

instance (path : List Char) : Decidable (Readable path) := by
  unfold Readable
  infer_instance

/-- The configuration has a line for each of the two paths. -/
def NamesBoth (config : List Char) : Prop :=
  (∃ line ∈ config.splitOn '\n', IsCertLine line) ∧ ∃ line ∈ config.splitOn '\n', IsKeyLine line

instance (config : List Char) : Decidable (NamesBoth config) := by
  unfold NamesBoth
  infer_instance

theorem certPathsFound_eq (config : String) :
    certPathsFound config =
      ((parseCertPaths config.toList).1 ≠ [] ∧ (parseCertPaths config.toList).2 ≠ [] : Bool) := rfl

/-- What is read from a line can be written to one. -/
theorem parseDirectiveValue_readable {raw : List Char} (hraw : '\n' ∉ raw)
    (hne : parseDirectiveValue raw ≠ []) : Readable (parseDirectiveValue raw) := by
  have hsub : (parseDirectiveValue raw).Sublist ((trimSpaceChars raw).takeWhile (· ≠ '#')) := by
    unfold parseDirectiveValue
    refine (trimSpaceChars_sublist _).trans ?_
    split_ifs
    · exact (List.dropLast_sublist _).trans (trimSpaceChars_sublist _)
    · exact trimSpaceChars_sublist _
  refine ⟨hne, ?_, ?_, trimSpaceChars_head _, trimSpaceChars_last _⟩
  · intro hmem
    exact hraw ((trimSpaceChars_sublist raw).subset
      ((List.takeWhile_sublist _).subset (hsub.subset hmem)))
  · intro hmem
    have := List.mem_takeWhile_imp (hsub.subset hmem)
    simp at this

/-- A readable path is read back. -/
theorem parseDirectiveValue_written {path : List Char} (h : Readable path) :
    parseDirectiveValue (path ++ [';']) = path := by
  obtain ⟨hne, -, hcomment, hhead, hlast⟩ := h
  have hhead' : ¬ (path ++ [';']).head?.any isSpace := by
    rwa [List.head?_append_of_ne_nil _ hne]
  have htrim : trimSpaceChars (path ++ [';']) = path ++ [';'] :=
    trimSpaceChars_eq_self hhead' (by simp; decide)
  have htake : (path ++ [';']).takeWhile (· ≠ '#') = path ++ [';'] := by
    rw [List.takeWhile_eq_self_iff]
    intro c hc
    have hne' : c ≠ '#' := by
      rintro rfl
      simp [hcomment] at hc
    simpa using hne'
  simp only [parseDirectiveValue, htrim, htake, List.getLast?_concat, if_true,
    List.dropLast_concat]
  exact trimSpaceChars_eq_self hhead hlast

/-- A written directive keeps its text when it is trimmed. -/
theorem trimSpaceChars_directive {directive : List Char} (path : List Char)
    (hdirective : directive.head? = some 's') :
    trimSpaceChars (directive ++ path ++ [';']) = directive ++ path ++ [';'] := by
  refine trimSpaceChars_eq_self ?_ (by simp; decide)
  cases directive with
  | nil => simp at hdirective
  | cons c cs =>
      obtain rfl : c = 's' := by simpa using hdirective
      simp
      decide

theorem certDirective_eq : "ssl_certificate ".toList = certDirective := by decide

theorem keyDirective_eq : "ssl_certificate_key ".toList = keyDirective := by decide

theorem certDirective_head : certDirective.head? = some 's' := rfl

theorem keyDirective_head : keyDirective.head? = some 's' := rfl

theorem not_certDirective_of_key (text : List Char) : ¬ certDirective <+: keyDirective ++ text := by
  rintro ⟨rest, hrest⟩
  have hchar := congrArg (fun cs : List Char => cs[15]?) hrest
  simp [certDirective, keyDirective] at hchar

/-- A line does not name both. -/
theorem not_isCertLine_of_isKeyLine {line : List Char} (h : IsKeyLine line) :
    ¬ IsCertLine line := by
  obtain ⟨rest, hrest⟩ := h
  rw [IsCertLine, ← hrest]
  exact not_certDirective_of_key rest

/-- A line of a directive is not a comment. -/
theorem parseCertLine_eq (found : List Char × List Char) (line : List Char) :
    parseCertLine found line =
      if IsCertLine line then
        (parseDirectiveValue (trimPrefix (trimSpaceChars line) certDirective), found.2)
      else if IsKeyLine line then
        (found.1, parseDirectiveValue (trimPrefix (trimSpaceChars line) keyDirective))
      else found := by
  have hcomment : ∀ directive : List Char, directive.head? = some 's' →
      directive <+: trimSpaceChars line → (trimSpaceChars line).head? ≠ some '#' := by
    rintro directive hhead ⟨rest, hrest⟩
    cases directive with
    | nil => simp at hhead
    | cons c cs =>
        obtain rfl : c = 's' := by simpa using hhead
        simp [← hrest]
  simp only [parseCertLine, certDirective_eq, keyDirective_eq]
  by_cases hcert : IsCertLine line
  · rw [if_pos hcert, if_neg (hcomment _ certDirective_head hcert)]
    exact if_pos hcert
  · rw [if_neg hcert]
    by_cases hkey : IsKeyLine line
    · rw [if_pos hkey, if_neg (hcomment _ keyDirective_head hkey)]
      exact (if_neg hcert).trans (if_pos hkey)
    · rw [if_neg hkey]
      by_cases hhash : (trimSpaceChars line).head? = some '#'
      · exact if_pos hhash
      · rw [if_neg hhash]
        exact (if_neg hcert).trans (if_neg hkey)

/-- The text of a written directive. -/
theorem parseDirectiveValue_directive {directive path : List Char} (h : Readable path)
    (hhead : directive.head? = some 's') :
    parseDirectiveValue (trimPrefix (trimSpaceChars (directive ++ path ++ [';'])) directive) =
      path := by
  rw [trimSpaceChars_directive path hhead, List.append_assoc]
  simp only [trimPrefix, List.prefix_append, if_true, List.drop_left]
  exact parseDirectiveValue_written h

theorem isCertLine_written (path : List Char) : IsCertLine (certDirective ++ path ++ [';']) := by
  rw [IsCertLine, trimSpaceChars_directive path certDirective_head, List.append_assoc]
  exact List.prefix_append _ _

theorem isKeyLine_written (path : List Char) : IsKeyLine (keyDirective ++ path ++ [';']) := by
  rw [IsKeyLine, trimSpaceChars_directive path keyDirective_head, List.append_assoc]
  exact List.prefix_append _ _

theorem parseCertLine_cert {path : List Char} (h : Readable path)
    (found : List Char × List Char) :
    parseCertLine found (certDirective ++ path ++ [';']) = (path, found.2) := by
  rw [parseCertLine_eq, if_pos (isCertLine_written path), parseDirectiveValue_directive h certDirective_head]

theorem parseCertLine_key {path : List Char} (h : Readable path)
    (found : List Char × List Char) :
    parseCertLine found (keyDirective ++ path ++ [';']) = (found.1, path) := by
  have hline := isKeyLine_written path
  rw [parseCertLine_eq, if_neg (not_isCertLine_of_isKeyLine hline), if_pos hline,
    parseDirectiveValue_directive h keyDirective_head]

/-- A written line is written again as it is. -/
theorem updateSSLLine_twice (certPath keyPath line : List Char) :
    updateSSLLine certPath keyPath (updateSSLLine certPath keyPath line) =
      updateSSLLine certPath keyPath line := by
  by_cases hc : IsCertLine line
  · have hline : updateSSLLine certPath keyPath line = certDirective ++ certPath ++ [';'] :=
      if_pos hc
    rw [hline, updateSSLLine, if_pos (isCertLine_written certPath)]
  · by_cases hk : IsKeyLine line
    · have hline : updateSSLLine certPath keyPath line = keyDirective ++ keyPath ++ [';'] := by
        rw [updateSSLLine, if_neg hc, if_pos hk]
      have hkey := isKeyLine_written keyPath
      rw [hline, updateSSLLine, if_neg (not_isCertLine_of_isKeyLine hkey), if_pos hkey]
    · have hline : updateSSLLine certPath keyPath line = line := by
        rw [updateSSLLine, if_neg hc, if_neg hk]
      rw [hline, hline]

/-- What is read from the lines that were written. -/
theorem foldl_updateSSLLine {certPath keyPath : List Char} (hcert : Readable certPath)
    (hkey : Readable keyPath) (lines : List (List Char)) (found : List Char × List Char) :
    (lines.map (updateSSLLine certPath keyPath)).foldl parseCertLine found =
      (if ∃ line ∈ lines, IsCertLine line then certPath else found.1,
        if ∃ line ∈ lines, ¬ IsCertLine line ∧ IsKeyLine line then keyPath else found.2) := by
  induction lines generalizing found with
  | nil => simp
  | cons line lines ih =>
      rw [List.map_cons, List.foldl_cons, ih]
      by_cases hc : IsCertLine line
      · rw [updateSSLLine, if_pos hc, parseCertLine_cert hcert]
        simp [hc]
      · by_cases hk : IsKeyLine line
        · rw [updateSSLLine, if_neg hc, if_pos hk, parseCertLine_key hkey]
          simp [hc, hk]
        · rw [updateSSLLine, if_neg hc, if_neg hk, parseCertLine_eq, if_neg hc, if_neg hk]
          simp [hc, hk]

/-- The lines of an updated configuration are the updated lines. -/
theorem splitOn_updateSSLDirectives {certPath keyPath : List Char} (hcert : Readable certPath)
    (hkey : Readable keyPath) (config : List Char) :
    (updateSSLDirectives config certPath keyPath).splitOn '\n' =
      (config.splitOn '\n').map (updateSSLLine certPath keyPath) := by
  have hlines : ∀ line ∈ (config.splitOn '\n').map (updateSSLLine certPath keyPath),
      '\n' ∉ line := by
    intro line hline
    obtain ⟨old, hold, rfl⟩ := List.mem_map.mp hline
    have hnewline : ∀ directive path : List Char, '\n' ∉ directive → '\n' ∉ path →
        '\n' ∉ directive ++ path ++ [';'] := by
      intro directive path hd hp
      simp [hd, hp]
    rw [updateSSLLine]
    by_cases hc : IsCertLine old
    · rw [if_pos hc]
      exact hnewline _ _ (by decide) hcert.2.1
    · by_cases hk : IsKeyLine old
      · rw [if_neg hc, if_pos hk]
        exact hnewline _ _ (by decide) hkey.2.1
      · rw [if_neg hc, if_neg hk]
        exact not_mem_of_mem_splitOn hold
  exact List.splitOn_intercalate _ hlines (by simp)

/-- The paths that are read from an updated configuration. -/
theorem parseCertPaths_updateSSLDirectives {certPath keyPath : List Char}
    (hcert : Readable certPath) (hkey : Readable keyPath) (config : List Char) :
    parseCertPaths (updateSSLDirectives config certPath keyPath) =
      (if ∃ line ∈ config.splitOn '\n', IsCertLine line then certPath else [],
        if ∃ line ∈ config.splitOn '\n', IsKeyLine line then keyPath else []) := by
  have hkeys : (∃ line ∈ config.splitOn '\n', ¬ IsCertLine line ∧ IsKeyLine line) ↔
      ∃ line ∈ config.splitOn '\n', IsKeyLine line :=
    ⟨fun ⟨line, hline, _, h⟩ => ⟨line, hline, h⟩,
      fun ⟨line, hline, h⟩ => ⟨line, hline, not_isCertLine_of_isKeyLine h, h⟩⟩
  rw [parseCertPaths, splitOn_updateSSLDirectives hcert hkey, foldl_updateSSLLine hcert hkey]
  simp only [hkeys]

/-- Both paths are read back where both had a line. -/
theorem parseCertPaths_update_both {certPath keyPath config : List Char}
    (hcert : Readable certPath) (hkey : Readable keyPath) (hboth : NamesBoth config) :
    parseCertPaths (updateSSLDirectives config certPath keyPath) = (certPath, keyPath) := by
  rw [parseCertPaths_updateSSLDirectives hcert hkey, if_pos hboth.1, if_pos hboth.2]

/-- What one line names is readable. -/
theorem parseCertLine_step {line : List Char} (hline : '\n' ∉ line)
    (found : List Char × List Char) :
    ((parseCertLine found line).1 = found.1 ∨ IsCertLine line ∧
        ((parseCertLine found line).1 ≠ [] → Readable (parseCertLine found line).1)) ∧
      ((parseCertLine found line).2 = found.2 ∨ IsKeyLine line ∧
        ((parseCertLine found line).2 ≠ [] → Readable (parseCertLine found line).2)) := by
  have hvalue : ∀ directive : List Char,
      parseDirectiveValue (trimPrefix (trimSpaceChars line) directive) ≠ [] →
      Readable (parseDirectiveValue (trimPrefix (trimSpaceChars line) directive)) := by
    intro directive
    refine parseDirectiveValue_readable ?_
    intro hmem
    refine hline ((trimSpaceChars_sublist line).subset ?_)
    unfold trimPrefix at hmem
    split_ifs at hmem
    · exact List.mem_of_mem_drop hmem
    · exact hmem
  rw [parseCertLine_eq]
  by_cases hc : IsCertLine line
  · have hread := hvalue certDirective
    rw [if_pos hc]
    dsimp only
    exact ⟨.inr ⟨hc, hread⟩, .inl rfl⟩
  · rw [if_neg hc]
    by_cases hk : IsKeyLine line
    · have hread := hvalue keyDirective
      rw [if_pos hk]
      dsimp only
      exact ⟨.inl rfl, .inr ⟨hk, hread⟩⟩
    · rw [if_neg hk]
      exact ⟨.inl rfl, .inl rfl⟩

/-- Paths that lines name are readable, and a line named them. -/
theorem foldl_parseCertLine {lines : List (List Char)} (hlines : ∀ line ∈ lines, '\n' ∉ line)
    (found : List Char × List Char) :
    ((lines.foldl parseCertLine found).1 = found.1 ∨ (∃ line ∈ lines, IsCertLine line) ∧
        ((lines.foldl parseCertLine found).1 ≠ [] →
          Readable (lines.foldl parseCertLine found).1)) ∧
      ((lines.foldl parseCertLine found).2 = found.2 ∨ (∃ line ∈ lines, IsKeyLine line) ∧
        ((lines.foldl parseCertLine found).2 ≠ [] →
          Readable (lines.foldl parseCertLine found).2)) := by
  induction lines generalizing found with
  | nil => exact ⟨.inl rfl, .inl rfl⟩
  | cons line lines ih =>
      obtain ⟨hline, hlines⟩ := List.forall_mem_cons.mp hlines
      obtain ⟨hcert, hkey⟩ := ih hlines (parseCertLine found line)
      obtain ⟨hcert₀, hkey₀⟩ := parseCertLine_step hline found
      rw [List.foldl_cons]
      refine ⟨?_, ?_⟩
      · obtain hcert | ⟨⟨l, hl, hcertl⟩, hread⟩ := hcert
        · rw [hcert]
          exact hcert₀.imp_right fun ⟨hc, hread⟩ => ⟨⟨line, List.mem_cons_self, hc⟩, hread⟩
        · exact .inr ⟨⟨l, List.mem_cons_of_mem _ hl, hcertl⟩, hread⟩
      · obtain hkey | ⟨⟨l, hl, hkeyl⟩, hread⟩ := hkey
        · rw [hkey]
          exact hkey₀.imp_right fun ⟨hk, hread⟩ => ⟨⟨line, List.mem_cons_self, hk⟩, hread⟩
        · exact .inr ⟨⟨l, List.mem_cons_of_mem _ hl, hkeyl⟩, hread⟩

/-- Where both paths are found they are readable, and there is a line for each. -/
theorem parseCertPaths_found {config : List Char} (hcert : (parseCertPaths config).1 ≠ [])
    (hkey : (parseCertPaths config).2 ≠ []) :
    Readable (parseCertPaths config).1 ∧ Readable (parseCertPaths config).2 ∧ NamesBoth config := by
  obtain ⟨hc, hk⟩ := foldl_parseCertLine (fun line => @not_mem_of_mem_splitOn '\n' config line)
    ([], [])
  obtain hc | ⟨hcline, hcread⟩ := hc
  · exact absurd hc hcert
  · obtain hk | ⟨hkline, hkread⟩ := hk
    · exact absurd hk hkey
    · exact ⟨hcread hcert, hkread hkey, hcline, hkline⟩

/-- An update is read back, a second one changes nothing, and the lines of no
certificate and no key stay as they are. -/
theorem update_round_trips (config certPath keyPath : List Char) (hcert : Readable certPath)
    (hkey : Readable keyPath) (hboth : NamesBoth config) :
    parseCertPaths (updateSSLDirectives config certPath keyPath) = (certPath, keyPath) ∧
      certPathsFound (String.ofList (updateSSLDirectives config certPath keyPath)) = true ∧
      updateSSLDirectives (updateSSLDirectives config certPath keyPath) certPath keyPath =
        updateSSLDirectives config certPath keyPath ∧
      ((updateSSLDirectives config certPath keyPath).splitOn '\n').length =
        (config.splitOn '\n').length ∧
      ∀ (i : ℕ) (line : List Char), (config.splitOn '\n')[i]? = some line →
        ¬ IsCertLine line → ¬ IsKeyLine line →
          ((updateSSLDirectives config certPath keyPath).splitOn '\n')[i]? = some line := by
  have hsplit := splitOn_updateSSLDirectives hcert hkey config
  have hread := parseCertPaths_update_both hcert hkey hboth
  refine ⟨hread, ?_, ?_, ?_, ?_⟩
  · rw [certPathsFound_eq, String.toList_ofList, hread]
    simp [hcert.1, hkey.1]
  · rw [updateSSLDirectives, hsplit, List.map_map, updateSSLDirectives]
    congr 1
    exact List.map_congr_left fun line _ => updateSSLLine_twice certPath keyPath line
  · rw [hsplit, List.length_map]
  · intro i line hline hc hk
    rw [hsplit, List.getElem?_map, hline, Option.map_some, updateSSLLine, if_neg hc, if_neg hk]

theorem update_round_trips_indented :
    parseCertPaths (updateSSLDirectives
        "server \x7b\n\tssl_certificate_key /b;\n\tssl_certificate /a;\n\x7d".toList "/p".toList
          "/k".toList) = ("/p".toList, "/k".toList) ∧
      certPathsFound (String.ofList (updateSSLDirectives
        "server \x7b\n\tssl_certificate_key /b;\n\tssl_certificate /a;\n\x7d".toList "/p".toList
          "/k".toList)) = true := by
  have h := update_round_trips
    "server \x7b\n\tssl_certificate_key /b;\n\tssl_certificate /a;\n\x7d".toList "/p".toList
    "/k".toList (by decide) (by decide) (by decide)
  exact ⟨h.1, h.2.1⟩

end GoSite.Website
