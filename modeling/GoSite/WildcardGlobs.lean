import GoSite.LeafTexts

/-!
# Wildcards as globs

What a value with stars should mean: a star stands for any characters, and every
other character for itself in either case of ASCII. In memory a star covers no
line feed and letters have the case of Unicode; in SQL a backslash of the value
escapes what follows it.
-/
namespace GoSite.Observability
open TextFolding

/-- A pattern and a text it accepts. -/
inductive Glob : List Char → List Char → Prop where
  | nil : Glob [] []
  | star {ps rest : List Char} (run : List Char) : Glob ps rest → Glob ('*' :: ps) (run ++ rest)
  | char {p c : Char} {ps cs : List Char} : p ≠ '*' → c.toLower = p.toLower → Glob ps cs →
      Glob (p :: ps) (c :: cs)

/-- A text of ASCII characters. -/
def AsciiText (s : String) : Prop := ∀ c ∈ s.toList, c.toNat < 128

def lineFeeds (s : String) : ℕ := s.toList.count '\n'

section
variable {g : GoText} {v s : String}

theorem glob_iff_likeMatch {v s : List Char} :
    Glob v s ↔ likeMatch (v.map globToken) s = true := by
  constructor
  · intro h
    induction h with
    | nil => rfl
    | star run _ ih =>
        rw [List.map_cons, globToken, if_pos rfl, likeMatch, anyText_iff]
        exact ⟨run, _, rfl, ih⟩
    | char hp hc _ ih =>
        rw [List.map_cons, globToken, if_neg hp, likeMatch, Bool.and_eq_true, decide_eq_true_iff]
        exact ⟨hc, ih⟩
  · intro h
    induction v generalizing s with
    | nil =>
        cases s with
        | nil => exact .nil
        | cons d s => simp [likeMatch] at h
    | cons c v ih =>
        by_cases hc : c = '*'
        · subst hc
          rw [List.map_cons, globToken, if_pos rfl, likeMatch, anyText_iff] at h
          obtain ⟨a, b, rfl, hb⟩ := h
          exact .star a (ih hb)
        · rw [List.map_cons, globToken, if_neg hc] at h
          cases s with
          | nil => simp [likeMatch] at h
          | cons d s =>
              rw [likeMatch, Bool.and_eq_true, decide_eq_true_iff] at h
              exact .char hc h.1 (ih h.2)

theorem glob_self (v : List Char) : Glob v v := by
  induction v with
  | nil => exact .nil
  | cons c v ih =>
      by_cases hc : c = '*'
      · subst hc
        exact .star ['*'] ih
      · exact .char hc rfl ih

theorem newline_of_toLower {c d : Char} (h : d.toLower = c.toLower) : d = '\n' ↔ c = '\n' := by
  constructor
  · rintro rfl
    exact toLower_eq_of_not_alpha (by decide) h.symm
  · rintro rfl
    exact toLower_eq_of_not_alpha (by decide) h

/-- Each line feed of the pattern is one of the text. -/
theorem Glob.count_newline {v s : List Char} (h : Glob v s) : v.count '\n' ≤ s.count '\n' := by
  induction h with
  | nil => exact le_rfl
  | star run _ ih =>
      rw [List.count_append, List.count_cons_of_ne (by decide)]
      omega
  | char hp hc _ ih =>
      rename_i p c ps cs _
      rw [List.count_cons, List.count_cons]
      have hsame := newline_of_toLower hc
      by_cases hcn : c = '\n'
      · simp [hcn, hsame.mp hcn, ih]
      · have hpn : p ≠ '\n' := fun hpn => hcn (hsame.mpr hpn)
        simpa [hcn, hpn] using ih

/-! ## In memory -/

/-- A glob that needs no star for a line feed is matched in memory. -/
theorem Glob.wildMatch {v s : List Char} (h : Glob v s)
    (hlines : s.count '\n' ≤ v.count '\n') :
    Observability.wildMatch (v.map g.toLower) (s.map g.toLower) = true := by
  induction h with
  | nil => rfl
  | star run hglob ih =>
      have hle := hglob.count_newline
      rw [List.count_append, List.count_cons_of_ne (by decide)] at hlines
      have hrun : '\n' ∉ run := List.count_eq_zero.mp (by omega)
      have hstar : g.toLower '*' = '*' := (g.toLower_eq_iff uncased_star _).mpr rfl
      rw [List.map_cons, hstar, wildMatch_star]
      refine ⟨run.map g.toLower, _, by rw [List.map_append], ?_, ih (by omega)⟩
      rw [g.mem_map_toLower uncased_newline]
      exact hrun
  | char hp hc hglob ih =>
      rename_i p c ps cs
      have hlow : g.toLower p ≠ '*' := by
        rw [ne_eq, g.toLower_eq_iff uncased_star]
        exact hp
      have hsame : g.toLower c = g.toLower p := by
        rcases eq_or_ascii_of_toLower_eq hc with rfl | ⟨hcascii, hpascii⟩
        · rfl
        · rw [g.toLower_ascii c hcascii, g.toLower_ascii p hpascii, hc]
      have hcount : cs.count '\n' ≤ ps.count '\n' := by
        rw [List.count_cons, List.count_cons] at hlines
        have hnew := newline_of_toLower hc
        by_cases hcn : c = '\n'
        · simpa [hcn, hnew.mp hcn] using hlines
        · have hpn : p ≠ '\n' := fun hpn => hcn (hnew.mpr hpn)
          simpa [hcn, hpn] using hlines
      rw [List.map_cons, List.map_cons, wildMatch_lit hlow]
      exact ⟨_, by rw [hsame], ih hcount⟩

/-- What is matched in memory is a glob, where letters have ASCII case only. -/
theorem glob_of_wildMatch {v s : List Char}
    (hv : ∀ c ∈ v, SameClass g.toLower Char.toLower c)
    (h : wildMatch (v.map g.toLower) (s.map g.toLower) = true) : Glob v s := by
  induction v generalizing s with
  | nil =>
      cases s with
      | nil => exact .nil
      | cons d s => simp [wildMatch] at h
  | cons c v ih =>
      have hv' := fun x hx => hv x (List.mem_cons_of_mem _ hx)
      by_cases hc : c = '*'
      · subst hc
        have hstar : g.toLower '*' = '*' := (g.toLower_eq_iff uncased_star _).mpr rfl
        rw [List.map_cons, hstar, wildMatch_star] at h
        obtain ⟨a', b', heq, -, hb⟩ := h
        obtain ⟨a, b, rfl, rfl, rfl⟩ := List.map_eq_append_iff.mp heq
        exact .star a (ih hv' hb)
      · have hlow : g.toLower c ≠ '*' := by
          rw [ne_eq, g.toLower_eq_iff uncased_star]
          exact hc
        rw [List.map_cons, wildMatch_lit hlow] at h
        obtain ⟨cs, heq, hcs⟩ := h
        obtain ⟨d, s, rfl, hd, rfl⟩ := List.map_eq_cons_iff.mp heq
        exact .char hc ((hv c List.mem_cons_self d).mp hd) (ih hv' hcs)

/-- The pattern with another character in place of one of its own. -/
theorem not_glob_replaced {pre post : List Char} {c d : Char} (hc : c ≠ '*')
    (hclass : d.toLower ≠ c.toLower) : ¬ Glob (pre ++ c :: post) (pre ++ d :: post) := by
  intro h
  -- the text has one character fewer of the class of `c` than the pattern
  have hcount := (likeMatch_sublist (glob_iff_likeMatch.mp h)).count_le c.toLower
  have hstars : (((pre ++ c :: post).filter (· ≠ '*')).map Char.toLower).count c.toLower =
      ((pre ++ c :: post).map Char.toLower).count c.toLower := by
    simp only [List.count, List.countP_map, List.countP_filter]
    refine List.countP_congr ?_
    intro x _
    simp only [Function.comp_apply, beq_iff_eq, Bool.and_eq_true,
      and_iff_left_iff_imp, ne_eq, decide_not, Bool.not_eq_true', decide_eq_false_iff_not]
    rintro hx rfl
    exact hc (toLower_eq_of_not_alpha (by decide) hx.symm)
  rw [literals_map_globToken, hstars] at hcount
  simp only [List.map_append, List.map_cons, List.count_append, List.count_cons_self,
    List.count_cons_of_ne hclass] at hcount
  omega

theorem Glob.textWeight_le {v s : List Char} (h : Glob v s) : textWeight v ≤ textWeight s := by
  induction h with
  | nil => exact le_rfl
  | star run _ ih =>
      have hzero : specialWeight '*' = 0 := rfl
      simp only [textWeight, List.map_append, List.sum_append, List.map_cons, List.sum_cons] at ih ⊢
      omega
  | char hp hc _ ih =>
      rename_i p c ps cs _
      have hsame : specialWeight p = specialWeight c := by
        rw [← asciiText.specialWeight_toLower p, ← asciiText.specialWeight_toLower c]
        exact congrArg _ hc.symm
      simp only [textWeight, List.map_cons, List.sum_cons] at ih ⊢
      omega

/-- A character outside ASCII is one of every text the pattern accepts. -/
theorem Glob.mem {v s : List Char} (h : Glob v s) {c : Char} (hc : ¬ c.toNat < 128)
    (hmem : c ∈ v) : c ∈ s := by
  induction h with
  | nil => exact hmem
  | star run _ ih =>
      obtain rfl | hmem := List.mem_cons.mp hmem
      · exact absurd (by decide) hc
      · exact List.mem_append_right _ (ih hmem)
  | char hp hlow _ ih =>
      obtain rfl | hmem := List.mem_cons.mp hmem
      · obtain rfl | ⟨-, hascii⟩ := eq_or_ascii_of_toLower_eq hlow
        · exact List.mem_cons_self
        · exact absurd hascii hc
      · exact List.mem_cons_of_mem _ (ih hmem)

section
variable (hstar : hasStar v = true)
include hstar

/-- For every text with no more line feeds than the pattern. -/
theorem matchWildcard_glob_iff :
    (∀ s, lineFeeds s ≤ lineFeeds v →
      (matchWildcard g s v = true ↔ Glob v.toList s.toList)) ↔ LowersAscii g v := by
  constructor
  · intro h
    by_contra hlow
    obtain ⟨pre, c, post, d, hv, hd, hclass⟩ := exists_of_not_lowersAscii hlow
    have hc : c ≠ '*' := by
      rintro rfl
      rw [(g.toLower_eq_iff uncased_star '*').mpr rfl] at hd
      exact hclass (congrArg _ ((g.toLower_eq_iff uncased_star d).mp hd))
    have hlow : (pre ++ d :: post).map g.toLower = (pre ++ c :: post).map g.toLower :=
      (map_replaced pre post c d).mpr hd
    have hlines : lineFeeds (String.ofList (pre ++ d :: post)) ≤ lineFeeds v := by
      have hcount := congrArg (List.count '\n') hlow
      rw [g.count_map_toLower uncased_newline, g.count_map_toLower uncased_newline] at hcount
      rw [lineFeeds, lineFeeds, hv, String.toList_ofList, hcount]
    have hmatch : matchWildcard g (String.ofList (pre ++ d :: post)) v = true := by
      rw [matchWildcard_of_star hstar, String.toList_ofList, hlow, hv]
      exact wildMatch_self _
    have hglob := (h _ hlines).mp hmatch
    rw [hv, String.toList_ofList] at hglob
    exact not_glob_replaced hc hclass hglob
  · intro hlow s hs
    rw [matchWildcard_of_star hstar]
    constructor
    · exact glob_of_wildMatch hlow
    · intro hglob
      exact hglob.wildMatch hs

/-- A text with more line feeds is never matched. -/
theorem not_matchWildcard_of_lineFeeds (h : lineFeeds v < lineFeeds s) :
    matchWildcard g s v = false := by
  rw [Bool.eq_false_iff]
  intro hmatch
  rw [matchWildcard_of_star hstar] at hmatch
  have hcount := wildMatch_count_newline hmatch
  rw [g.count_map_toLower uncased_newline, g.count_map_toLower uncased_newline] at hcount
  simp only [lineFeeds] at h
  omega

end

/-! ## In SQL -/

theorem like_glob_of_no_backslash (h : '\\' ∉ v.toList) :
    sqlLike (some '\\') s (escapeLike v) = true ↔ Glob v.toList s.toList := by
  rw [sqlLike_escapeLike, globTokens_of_no_backslash h]
  exact glob_iff_likeMatch.symm

/-- A pattern with a character outside ASCII accepts no ASCII text. -/
theorem not_like_ascii (hv : ¬ AsciiText v) (hs : AsciiText s) :
    sqlLike (some '\\') s (escapeLike v) = false ∧ ¬ Glob v.toList s.toList := by
  simp only [AsciiText, not_forall] at hv
  obtain ⟨c, hc, hwide⟩ := hv
  have hne : ∀ d : Char, d.toNat < 128 → c ≠ d := fun d hd heq => hwide (heq ▸ hd)
  constructor
  · rw [sqlLike_escapeLike]
    cases hts : globTokens false v.toList with
    | none => rfl
    | some ts =>
        rw [Bool.eq_false_iff]
        intro hlike
        have hlit := mem_literals (hne _ (by decide)) (hne _ (by decide)) (hne _ (by decide))
          (hne _ (by decide)) hc hts
        obtain ⟨d, hd, heq⟩ := List.mem_map.mp
          ((likeMatch_sublist hlike).subset (List.mem_map_of_mem hlit))
        obtain rfl | ⟨-, hascii⟩ := eq_or_ascii_of_toLower_eq heq
        · exact hwide (hs d hd)
        · exact hwide hascii
  · intro hglob
    exact hwide (hs c (hglob.mem hwide hc))

/-- A backslash escapes in the LIKE pattern and is itself in the glob. -/
theorem exists_like_not_glob (hback : '\\' ∈ v.toList) (hv : AsciiText v) :
    ∃ s, AsciiText s ∧
      ¬ (sqlLike (some '\\') s (escapeLike v) = true ↔ Glob v.toList s.toList) := by
  cases hts : globTokens false v.toList with
  | none =>
      refine ⟨v, hv, ?_⟩
      intro hiff
      have hlike := hiff.mpr (glob_self v.toList)
      rw [sqlLike_escapeLike, hts] at hlike
      simp at hlike
  | some ts =>
      refine ⟨String.ofList (ts.flatMap (instantiate [])), ?_, ?_⟩
      · intro c hc
        rw [String.toList_ofList] at hc
        exact forall_mem_instantiate (by decide) (by decide) (by decide) hv hts c hc
      · rw [sqlLike_escapeLike, hts, String.toList_ofList]
        intro hiff
        have hle := (hiff.mp (likeMatch_instantiate [] ts)).textWeight_le
        have hlt := (textWeight_instantiate hts).2 hback rfl
        omega

theorem like_glob_iff :
    (∀ s, AsciiText s →
      (sqlLike (some '\\') s (escapeLike v) = true ↔ Glob v.toList s.toList)) ↔
      '\\' ∉ v.toList ∨ ¬ AsciiText v := by
  constructor
  · intro h
    by_cases hv : AsciiText v
    · left
      intro hback
      obtain ⟨s, hs, hdis⟩ := exists_like_not_glob hback hv
      exact hdis (h s hs)
    · exact Or.inr hv
  · rintro (hback | hv) s hs
    · exact like_glob_of_no_backslash hback
    · obtain ⟨hlike, hglob⟩ := not_like_ascii hv hs
      simp [hlike, hglob]

/-! ## Both translations -/

/-- For every pattern with a star: exactly when its letters have ASCII case only
and no backslash of it escapes, both translations mean the glob on every value
with no more line feeds than the pattern; on a value with more of them memory is
right exactly when the glob rejects it. -/
theorem wildcards_mean_globs (g : GoText) (v : String) (hstar : hasStar v = true) :
    (((∀ s, lineFeeds s ≤ lineFeeds v → (matchWildcard g s v = true ↔ Glob v.toList s.toList)) ∧
        ∀ s, AsciiText s →
          (sqlLike (some '\\') s (escapeLike v) = true ↔ Glob v.toList s.toList)) ↔
      LowersAscii g v ∧ ('\\' ∉ v.toList ∨ ¬ AsciiText v)) ∧
    ∀ s, lineFeeds v < lineFeeds s →
      ((matchWildcard g s v = true ↔ Glob v.toList s.toList) ↔ ¬ Glob v.toList s.toList) := by
  refine ⟨?_, ?_⟩
  · rw [matchWildcard_glob_iff hstar, like_glob_iff]
  · intro s hs
    rw [not_matchWildcard_of_lineFeeds hstar hs]
    simp

theorem wildcards_mean_globs_index :
    ((∀ s, lineFeeds s ≤ lineFeeds "/index.*" →
        (matchWildcard asciiText s "/index.*" = true ↔ Glob "/index.*".toList s.toList)) ∧
      ∀ s, AsciiText s →
        (sqlLike (some '\\') s (escapeLike "/index.*") = true ↔
          Glob "/index.*".toList s.toList)) ∧
    ¬ matchWildcard asciiText "/index.\n" "/index.*" = true := by
  have hlow : LowersAscii asciiText "/index.*" := fun _ _ _ => Iff.rfl
  obtain ⟨hagree, hlines⟩ := wildcards_mean_globs asciiText "/index.*" (by decide)
  refine ⟨hagree.mpr ⟨hlow, Or.inl (by decide)⟩, ?_⟩
  intro hmatch
  have hglob : Glob "/index.*".toList "/index.\n".toList := by
    rw [glob_iff_likeMatch]
    decide
  exact (hlines "/index.\n" (by decide)).mp (iff_of_true hmatch hglob) hglob

/-- A star covers no line feed in memory, and in SQL a backslash of the pattern
escapes. -/
theorem star_misses_newline :
    (Glob "a*b".toList "a\nb".toList ∧ matchWildcard asciiText "a\nb" "a*b" = false) ∧
    (¬ Glob "\\x*".toList "x".toList ∧
      sqlLike (some '\\') "x" (escapeLike "\\x*") = true) := by
  simp only [glob_iff_likeMatch]
  decide

end

end GoSite.Observability
