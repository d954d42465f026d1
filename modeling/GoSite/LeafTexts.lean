import GoSite.TextMatching

/-!
# Where one operator means the same on a text

Each operator of the search language is a comparison in SQL and a comparison in
memory. For each of them, the values are characterized for which the two agree on
every text, or on every text without a line feed.
-/
namespace GoSite.Observability
open TextFolding

section
variable (g : GoText)

/-- Lowering identifies with the value's characters what ASCII case does. -/
def LowersAscii (v : String) : Prop := ∀ c ∈ v.toList, SameClass g.toLower Char.toLower c

/-- Folding identifies with the value's characters what ASCII case does. -/
def FoldsAscii (v : String) : Prop := ∀ c ∈ v.toList, SameClass g.fold Char.toLower c

/-- The value has no character with another case. -/
def Caseless (v : String) : Prop := ∀ c ∈ v.toList, SameClass g.fold id c

end

def NoLikeChar (v : String) : Prop := ∀ c ∈ v.toList, c ≠ '%' ∧ c ≠ '_'

/-- A text has a line feed only where the value has one. -/
def AddsNoNewline (v s : String) : Prop := '\n' ∉ v.toList → '\n' ∉ s.toList

section
variable {g : GoText} {v s : String}

theorem containsText_lower :
    containsText (g.lower s) (g.lower v) = true ↔
      v.toList.map g.toLower <:+: s.toList.map g.toLower := by
  simp [containsText, GoText.lower]

theorem equalFold_iff :
    g.equalFold s v = true ↔ s.toList.map g.fold = v.toList.map g.fold := by
  simp [GoText.equalFold]

/-- Characters of one ASCII case class are equal or ASCII characters. -/
theorem eq_or_ascii_of_toLower_eq {c d : Char} (h : c.toLower = d.toLower) :
    c = d ∨ (c.toNat < 128 ∧ d.toNat < 128) := by
  have key : ∀ e : Char, e.toLower = e ∨ (e.toNat < 128 ∧ e.toLower.toNat < 128) := by
    intro e
    by_cases he : e.val ≥ 'A'.val ∧ e.val ≤ 'Z'.val
    · right
      simp only [Char.toLower, dif_pos he]
      obtain ⟨hlow, hhigh⟩ := he
      simp only [ge_iff_le, UInt32.le_iff_toNat_le] at hlow hhigh
      have hA : 'A'.val.toNat = 65 := rfl
      have hZ : 'Z'.val.toNat = 90 := rfl
      have h32 : ('a'.val - 'A'.val).toNat = 32 := rfl
      simp only [Char.toNat, UInt32.toNat_add, h32]
      omega
    · left
      simp only [Char.toLower, dif_neg he]
  obtain hc | ⟨hc, hc'⟩ := key c
  · obtain hd | ⟨hd, hd'⟩ := key d
    · left
      rw [← hc, ← hd, h]
    · right
      rw [← hc, h]
      exact ⟨hd', hd⟩
  · obtain hd | ⟨hd, -⟩ := key d
    · right
      rw [← hd, ← h]
      exact ⟨hc, hc'⟩
    · exact Or.inr ⟨hc, hd⟩

theorem toLower_eq_of_ascii (g : GoText) {c d : Char} (h : d.toLower = c.toLower) :
    g.toLower d = g.toLower c := by
  obtain rfl | ⟨hd, hc⟩ := eq_or_ascii_of_toLower_eq h
  · rfl
  · rw [g.toLower_ascii d hd, g.toLower_ascii c hc, h]

/-- A class of the case table that is not the ASCII one has another member. -/
theorem exists_of_not_lowersAscii (h : ¬ LowersAscii g v) :
    ∃ pre c post d, v.toList = pre ++ c :: post ∧ g.toLower d = g.toLower c ∧
      d.toLower ≠ c.toLower := by
  simp only [LowersAscii, SameClass, not_forall] at h
  obtain ⟨c, hc, d, hd⟩ := h
  obtain ⟨pre, post, hv⟩ := List.append_of_mem hc
  refine ⟨pre, c, post, d, hv, ?_⟩
  by_cases hclass : d.toLower = c.toLower
  · exact absurd (iff_of_true (toLower_eq_of_ascii g hclass) hclass) hd
  · refine ⟨?_, hclass⟩
    by_contra hlow
    exact hd (iff_of_false hlow hclass)

theorem exists_of_not_foldsAscii (h : ¬ FoldsAscii g v) :
    ∃ pre c post d, v.toList = pre ++ c :: post ∧ g.fold d = g.fold c ∧
      d.toLower ≠ c.toLower := by
  simp only [FoldsAscii, SameClass, not_forall] at h
  obtain ⟨c, hc, d, hd⟩ := h
  obtain ⟨pre, post, hv⟩ := List.append_of_mem hc
  refine ⟨pre, c, post, d, hv, ?_⟩
  by_cases hclass : d.toLower = c.toLower
  · exact absurd (iff_of_true (g.fold_ascii d c hclass) hclass) hd
  · refine ⟨?_, hclass⟩
    by_contra hfold
    exact hd (iff_of_false hfold hclass)

theorem addsNoNewline_replaced {pre post : List Char} {c d : Char}
    (hv : v.toList = pre ++ c :: post) (hd : d = '\n' → c = '\n') :
    AddsNoNewline v (String.ofList (pre ++ d :: post)) := by
  intro hno hmem
  rw [hv] at hno
  simp only [String.toList_ofList, List.mem_append, List.mem_cons, not_or] at hno hmem
  obtain hpre | hnd | hpost := hmem
  · exact hno.1 hpre
  · exact hno.2.1 (hd hnd.symm).symm
  · exact hno.2.2 hpost

/-! ## Containment -/

theorem likeMatch_plain_self (v : List Char) : likeMatch (v.map plainToken) v = true := by
  induction v with
  | nil => rfl
  | cons c v ih =>
      simp only [List.map_cons, plainToken]
      split_ifs with hp hu
      · rw [likeMatch, anyText_iff]
        exact ⟨[c], v, rfl, ih⟩
      · exact ih
      · simpa [likeMatch] using ih

/-- In a LIKE, a special character of the value also stands for an `x`. -/
theorem likeMatch_plain_replaced {pre post : List Char} {c : Char} (hc : c = '%' ∨ c = '_') :
    likeMatch ((pre ++ c :: post).map plainToken) (pre ++ 'x' :: post) = true := by
  rw [List.map_append, likeMatch_append]
  refine ⟨pre, 'x' :: post, rfl, likeMatch_plain_self pre, ?_⟩
  obtain rfl | rfl := hc
  · rw [List.map_cons, plainToken, if_pos rfl, likeMatch, anyText_iff]
    exact ⟨['x'], post, rfl, likeMatch_plain_self post⟩
  · exact likeMatch_plain_self post

theorem sqlLike_contains_replaced {pre post : List Char} {c : Char} (hv : v.toList = pre ++ c :: post)
    (hc : c = '%' ∨ c = '_') :
    sqlLike none (String.ofList (pre ++ 'x' :: post)) ("%" ++ v ++ "%") = true := by
  rw [sqlLike_contains, hv, String.toList_ofList]
  exact ⟨[], pre ++ 'x' :: post, [], by simp, likeMatch_plain_replaced hc⟩

theorem exists_of_not_noLikeChar (h : ¬ NoLikeChar v) :
    ∃ pre c post, v.toList = pre ++ c :: post ∧ (c = '%' ∨ c = '_') := by
  simp only [NoLikeChar, not_forall] at h
  obtain ⟨c, hc, hspecial⟩ := h
  obtain ⟨pre, post, hv⟩ := List.append_of_mem hc
  exact ⟨pre, c, post, hv, by tauto⟩

/-- An `x` put for a special character is no longer found in memory. -/
theorem not_found_replaced {pre post : List Char} {c : Char} (hv : v.toList = pre ++ c :: post)
    (hc : c = '%' ∨ c = '_') :
    containsText (g.lower (String.ofList (pre ++ 'x' :: post))) (g.lower v) = false ∧
      g.equalFold (String.ofList (pre ++ 'x' :: post)) v = false := by
  have huncased : Uncased c := by
    obtain rfl | rfl := hc <;> decide
  have hx : c ≠ 'x' := by
    obtain rfl | rfl := hc <;> decide
  constructor
  · rw [Bool.eq_false_iff, ne_eq, containsText_lower, hv, String.toList_ofList, infix_map_replaced]
    intro hlow
    exact hx (g.toLower_uncased c 'x' huncased.1 huncased.2 hlow).symm
  · rw [Bool.eq_false_iff, ne_eq, equalFold_iff, hv, String.toList_ofList, map_replaced]
    intro hfold
    exact hx (g.fold_uncased c 'x' huncased.1 huncased.2 hfold).symm

theorem newline_of_fold_eq {c d : Char} (h : g.fold d = g.fold c) (hd : d = '\n') : c = '\n' := by
  subst hd
  exact g.fold_uncased '\n' c uncased_newline.1 uncased_newline.2 h.symm

/-- `LIKE '%v%'` finds what lowering both finds if the value has no `%` and `_`
and its characters have ASCII case only. -/
theorem contains_agrees (hlike : NoLikeChar v) (hlow : LowersAscii g v) (s : String) :
    sqlLike none s ("%" ++ v ++ "%") = true ↔ containsText (g.lower s) (g.lower v) = true := by
  rw [sqlLike_contains_plain hlike, containsText_lower]
  exact (infix_map_congr hlow s.toList).symm

theorem newline_of_toLower_eq {c d : Char} (h : g.toLower d = g.toLower c) (hd : d = '\n') :
    c = '\n' := by
  subst hd
  rw [(g.toLower_eq_iff uncased_newline '\n').mpr rfl] at h
  exact (g.toLower_eq_iff uncased_newline c).mp h.symm

/-- Both are needed, also among texts without a line feed. -/
theorem of_contains_agrees
    (h : ∀ s, AddsNoNewline v s → (sqlLike none s ("%" ++ v ++ "%") = true ↔
      containsText (g.lower s) (g.lower v) = true)) : NoLikeChar v ∧ LowersAscii g v := by
  have hlike : NoLikeChar v := by
    by_contra hno
    obtain ⟨pre, c, post, hv, hc⟩ := exists_of_not_noLikeChar hno
    have hagree := h _ (addsNoNewline_replaced (d := 'x') hv (by simp))
    rw [(not_found_replaced hv hc).1, sqlLike_contains_replaced hv hc] at hagree
    simp at hagree
  refine ⟨hlike, ?_⟩
  by_contra hlow
  obtain ⟨pre, c, post, d, hv, hd, hclass⟩ := exists_of_not_lowersAscii hlow
  have hagree := h _ (addsNoNewline_replaced hv (newline_of_toLower_eq hd))
  rw [sqlLike_contains_plain hlike, containsText_lower, hv, String.toList_ofList,
    infix_map_replaced, infix_map_replaced] at hagree
  exact hclass (hagree.mpr hd)

/-- The same where memory also accepts a text equal up to folding. -/
theorem contains_or_fold_agrees (hlike : NoLikeChar v) (hlow : LowersAscii g v)
    (hfold : FoldsAscii g v) (s : String) :
    sqlLike none s ("%" ++ v ++ "%") = true ↔
      (g.equalFold s v || containsText (g.lower s) (g.lower v)) = true := by
  rw [sqlLike_contains_plain hlike, Bool.or_eq_true, containsText_lower, equalFold_iff,
    infix_map_congr hlow, map_eq_map_iff hfold]
  constructor
  · exact Or.inr
  · rintro (heq | hinfix)
    · rw [heq]
    · exact hinfix

theorem of_contains_or_fold_agrees
    (h : ∀ s, AddsNoNewline v s → (sqlLike none s ("%" ++ v ++ "%") = true ↔
      (g.equalFold s v || containsText (g.lower s) (g.lower v)) = true)) :
    NoLikeChar v ∧ LowersAscii g v ∧ FoldsAscii g v := by
  have hlike : NoLikeChar v := by
    by_contra hno
    obtain ⟨pre, c, post, hv, hc⟩ := exists_of_not_noLikeChar hno
    have hagree := h _ (addsNoNewline_replaced (d := 'x') hv (by simp))
    rw [(not_found_replaced hv hc).1, (not_found_replaced hv hc).2,
      sqlLike_contains_replaced hv hc] at hagree
    simp at hagree
  simp only [sqlLike_contains_plain hlike, Bool.or_eq_true, containsText_lower,
    equalFold_iff] at h
  refine ⟨hlike, ?_, ?_⟩
  · by_contra hlow
    obtain ⟨pre, c, post, d, hv, hd, hclass⟩ := exists_of_not_lowersAscii hlow
    have hagree := h _ (addsNoNewline_replaced hv (newline_of_toLower_eq hd))
    rw [hv, String.toList_ofList, infix_map_replaced, infix_map_replaced] at hagree
    exact hclass (hagree.mpr (Or.inr hd))
  · by_contra hfold
    obtain ⟨pre, c, post, d, hv, hd, hclass⟩ := exists_of_not_foldsAscii hfold
    have hagree := h _ (addsNoNewline_replaced hv (newline_of_fold_eq hd))
    rw [hv, String.toList_ofList, infix_map_replaced, map_replaced] at hagree
    exact hclass (hagree.mpr (Or.inl hd))

/-- A text without the value's line feed does not contain the value. -/
theorem newline_not_contained (hnew : '\n' ∈ v.toList) (hs : '\n' ∉ s.toList) :
    sqlLike none s ("%" ++ v ++ "%") = false ∧ g.equalFold s v = false ∧
      containsText (g.lower s) (g.lower v) = false := by
  refine ⟨?_, ?_, ?_⟩
  · rw [Bool.eq_false_iff, ne_eq, sqlLike_contains]
    rintro ⟨a, b, c, heq, hb⟩
    have hlit : '\n' ∈ literals (v.toList.map plainToken) := by
      simp only [literals, List.mem_flatMap, List.mem_map]
      exact ⟨.lit '\n', ⟨'\n', hnew, rfl⟩, List.mem_singleton.mpr rfl⟩
    obtain ⟨d, hd, hlow⟩ := List.mem_map.mp
      ((likeMatch_sublist hb).subset (List.mem_map_of_mem hlit))
    rw [toLower_eq_of_not_alpha (by decide) hlow] at hd
    rw [heq] at hs
    simp [hd] at hs
  · rw [Bool.eq_false_iff, ne_eq, equalFold_iff]
    intro heq
    obtain ⟨d, hd, hfold⟩ := List.mem_map.mp (heq ▸ List.mem_map_of_mem (f := g.fold) hnew)
    rw [newline_of_fold_eq hfold.symm rfl] at hd
    exact hs hd
  · rw [Bool.eq_false_iff, ne_eq, containsText_lower]
    intro hinfix
    have hmem := List.IsInfix.subset hinfix ((g.mem_map_toLower uncased_newline _).mpr hnew)
    exact hs ((g.mem_map_toLower uncased_newline _).mp hmem)

/-! ## Equality and inequality -/

/-- A text that goes on after the value contains it and is not it. -/
theorem eq_disagrees (g : GoText) (v : String) :
    ¬ (decide (v ++ "x" = v) = true ↔
      (g.equalFold (v ++ "x") v || containsText (g.lower (v ++ "x")) (g.lower v)) = true) := by
  have hne : v ++ "x" ≠ v := by
    intro heq
    have hlen := congrArg (fun t : String => t.toList.length) heq
    simp at hlen
  have hfound : containsText (g.lower (v ++ "x")) (g.lower v) = true := by
    rw [containsText_lower]
    exact ⟨[], ("x".toList).map g.toLower, by simp⟩
  simp [hne, hfound]

theorem ne_agrees_iff_maps :
    (decide (s ≠ v) = true ↔ (!g.equalFold s v) = true) ↔
      (s.toList.map g.fold = v.toList.map g.fold ↔ s.toList.map id = v.toList.map id) := by
  rw [decide_eq_true_iff, Bool.not_eq_true', ← Bool.not_eq_true, equalFold_iff, List.map_id,
    List.map_id, String.toList_inj]
  tauto

theorem ne_agrees (h : Caseless g v) (s : String) :
    decide (s ≠ v) = true ↔ (!g.equalFold s v) = true :=
  ne_agrees_iff_maps.mpr (map_eq_map_iff h s.toList)

theorem of_ne_agrees
    (h : ∀ s, AddsNoNewline v s → (decide (s ≠ v) = true ↔ (!g.equalFold s v) = true)) :
    Caseless g v := by
  intro c hc d
  obtain ⟨pre, post, hv⟩ := List.append_of_mem hc
  by_cases hfold : g.fold d = g.fold c
  · have hagree := ne_agrees_iff_maps.mp
      (h _ (addsNoNewline_replaced hv (newline_of_fold_eq hfold)))
    rwa [hv, String.toList_ofList, map_replaced, map_replaced] at hagree
  · refine iff_of_false hfold ?_
    intro heq
    exact hfold (congrArg g.fold heq)

/-! ## Regular expressions -/

/-- The registered function never matches the empty text, except for the empty
pattern. -/
theorem regexp_agrees {p : String} (h : p = "" ∨ g.isMatch p "" = false) (s : String) :
    regexpSQLFn g p s = true ↔ g.isMatch p s = true := by
  rw [regexpSQLFn]
  split_ifs with hp hs
  · simp [hp, g.isMatch_empty]
  · simp [hs, h.resolve_left hp]
  · exact Iff.rfl

theorem of_regexp_agrees {p : String} (h : regexpSQLFn g p "" = true ↔ g.isMatch p "" = true) :
    p = "" ∨ g.isMatch p "" = false := by
  by_cases hp : p = ""
  · exact Or.inl hp
  · right
    simpa [regexpSQLFn, hp] using h

/-! ## Wildcards -/

theorem GoText.specialWeight_toLower (g : GoText) (c : Char) :
    specialWeight (g.toLower c) = specialWeight c := by
  simp only [specialWeight, g.toLower_eq_iff (c := '\\') (by decide),
    g.toLower_eq_iff (c := '%') (by decide), g.toLower_eq_iff (c := '_') (by decide)]

theorem textWeight_filter (l : List Char) : textWeight (l.filter (· ≠ '*')) = textWeight l := by
  induction l with
  | nil => rfl
  | cons c l ih =>
      simp only [textWeight] at ih ⊢
      by_cases hc : c = '*'
      · rw [List.filter_cons_of_neg (by simp [hc]), List.map_cons, List.sum_cons, ih, hc]
        simp [specialWeight]
      · rw [List.filter_cons_of_pos (by simp [hc]), List.map_cons, List.sum_cons, ih,
          List.map_cons, List.sum_cons]

theorem GoText.textWeight_map_toLower (g : GoText) (l : List Char) :
    textWeight (l.map g.toLower) = textWeight l := by
  simp [textWeight, Function.comp_def, g.specialWeight_toLower]

/-- A character of the value that is special nowhere is a literal of the pattern. -/
theorem mem_literals {c : Char} (hback : c ≠ '\\') (hstar : c ≠ '*') (hpercent : c ≠ '%')
    (hlow : c ≠ '_') {b : Bool} {v : List Char} {ts : List LikeToken} (hv : c ∈ v)
    (h : globTokens b v = some ts) : c ∈ literals ts := by
  induction v generalizing b ts with
  | nil => simp at hv
  | cons d v ih =>
      rw [globTokens, Option.map_eq_some_iff] at h
      obtain ⟨us, hus, rfl⟩ := h
      rw [literals, List.flatMap_append, List.mem_append]
      obtain rfl | hv := List.mem_cons.mp hv
      · left
        cases b <;> simp [globStep, hback, hstar, hpercent, hlow]
      · exact Or.inr (ih hv hus)

theorem literals_map_globToken (v : List Char) :
    literals (v.map globToken) = v.filter (· ≠ '*') := by
  induction v with
  | nil => rfl
  | cons c v ih =>
      simp only [literals] at ih
      by_cases hc : c = '*'
      · simp [literals, globToken, hc, ih]
      · simp [literals, globToken, hc, ih]

theorem count_newline_instantiate (v : List Char) :
    ((v.map globToken).flatMap (instantiate ['\n'])).count '\n' =
      v.count '\n' + v.count '*' := by
  induction v with
  | nil => rfl
  | cons c v ih =>
      by_cases hc : c = '*'
      · subst hc
        simp [globToken, instantiate, ih]
        omega
      · simp only [List.map_cons, globToken, if_neg hc, List.flatMap_cons, instantiate,
          List.count_append, ih, List.count_cons, List.count_nil, beq_iff_eq]
        omega

/-- A pattern made of a value with stars matches nothing at all, or some text
without stars. -/
theorem exists_like_or_never (v : String) :
    (∃ s, AddsNoNewline v s ∧ '*' ∉ s.toList ∧
      ('\\' ∈ v.toList → textWeight s.toList < textWeight v.toList) ∧
      sqlLike (some '\\') s (escapeLike v) = true) ∨
    ∀ s, sqlLike (some '\\') s (escapeLike v) = false := by
  cases hts : globTokens false v.toList with
  | none =>
      right
      intro s
      rw [sqlLike_escapeLike, hts]
  | some ts =>
      left
      refine ⟨String.ofList (ts.flatMap (instantiate [])), ?_, ?_, ?_, ?_⟩
      · intro hno
        rw [String.toList_ofList]
        exact newline_not_mem_instantiate hno hts
      · rw [String.toList_ofList]
        exact star_not_mem_instantiate (by simp) hts
      · rw [String.toList_ofList]
        exact fun hback => (textWeight_instantiate hts).2 hback rfl
      · rw [sqlLike_escapeLike, hts, String.toList_ofList]
        exact likeMatch_instantiate [] ts

theorem containsText_lower_self : containsText (g.lower v) (g.lower v) = true := by
  simp [containsText]

section
variable (hstar : hasStar v = true)
include hstar

theorem star_mem : '*' ∈ v.toList := by
  simpa [hasStar] using hstar

theorem matchWildcard_of_star :
    matchWildcard g s v = wildMatch (v.toList.map g.toLower) (s.toList.map g.toLower) := by
  rw [matchWildcard, if_pos (by rw [g.hasStar_lower]; exact hstar), GoText.lower, GoText.lower,
    String.toList_ofList, String.toList_ofList]

theorem matchWildcard_self : matchWildcard g v v = true := by
  rw [matchWildcard_of_star hstar]
  exact wildMatch_self _

theorem textWeight_le_of_matchWildcard (h : matchWildcard g s v = true) :
    textWeight v.toList ≤ textWeight s.toList := by
  rw [matchWildcard_of_star hstar] at h
  have hsub := ((wildMatch_sublist h).map specialWeight).sum_le_sum (by simp)
  have hfilter := textWeight_filter (v.toList.map g.toLower)
  simp only [textWeight] at hfilter
  rw [hfilter] at hsub
  rw [← g.textWeight_map_toLower, ← g.textWeight_map_toLower s.toList]
  exact hsub

/-- A value with a star stands for itself as free text in memory. -/
theorem free_star_disagrees :
    ∃ s, AddsNoNewline v s ∧ ¬ (sqlLike (some '\\') s (escapeLike v) = true ↔
      containsText (g.lower s) (g.lower v) = true) := by
  obtain ⟨s, hnew, hs, -, hlike⟩ | hnever := exists_like_or_never v
  · refine ⟨s, hnew, fun hiff => hs ?_⟩
    have hfound := containsText_lower.mp (hiff.mp hlike)
    rw [← g.mem_map_toLower uncased_star]
    exact hfound.subset ((g.mem_map_toLower uncased_star _).mpr (star_mem hstar))
  · refine ⟨v, id, fun hiff => ?_⟩
    rw [hnever v, containsText_lower_self] at hiff
    simp at hiff

/-- A backslash in the value escapes in the pattern only. -/
theorem backslash_disagrees (hback : '\\' ∈ v.toList) :
    ∃ s, AddsNoNewline v s ∧ ¬ (sqlLike (some '\\') s (escapeLike v) = true ↔
      matchWildcard g s v = true) := by
  obtain ⟨s, hnew, -, hweight, hlike⟩ | hnever := exists_like_or_never v
  · refine ⟨s, hnew, fun hiff => ?_⟩
    have hle := textWeight_le_of_matchWildcard hstar (hiff.mp hlike)
    have hlt := hweight hback
    omega
  · refine ⟨v, id, fun hiff => ?_⟩
    rw [hnever v, matchWildcard_self hstar] at hiff
    simp at hiff

/-- With line feeds in the text no value with a star agrees: `.` does not match
them. -/
theorem like_text_disagrees :
    ∃ s, ¬ (sqlLike (some '\\') s (escapeLike v) = true ↔ matchWildcard g s v = true) := by
  by_cases hback : '\\' ∈ v.toList
  · obtain ⟨s, -, hs⟩ := backslash_disagrees (g := g) hstar hback
    exact ⟨s, hs⟩
  · have hts := globTokens_of_no_backslash hback
    refine ⟨String.ofList ((v.toList.map globToken).flatMap (instantiate ['\n'])), ?_⟩
    rw [sqlLike_escapeLike, hts, matchWildcard_of_star hstar, String.toList_ofList]
    intro hiff
    have hcount := wildMatch_count_newline (hiff.mp (likeMatch_instantiate _ _))
    rw [g.count_map_toLower uncased_newline, g.count_map_toLower uncased_newline,
      count_newline_instantiate] at hcount
    have hpos := List.count_pos_iff.mpr (star_mem hstar)
    omega

/-- A case class that is not the ASCII one shows in a value with stars. -/
theorem class_disagrees (hback : '\\' ∉ v.toList) (hlow : ¬ LowersAscii g v) :
    ∃ s, AddsNoNewline v s ∧ ¬ (sqlLike (some '\\') s (escapeLike v) = true ↔
      matchWildcard g s v = true) := by
  obtain ⟨pre, c, post, d, hv, hd, hclass⟩ := exists_of_not_lowersAscii hlow
  have hc : c ≠ '*' := by
    rintro rfl
    rw [(g.toLower_eq_iff uncased_star '*').mpr rfl] at hd
    exact hclass (congrArg _ ((g.toLower_eq_iff uncased_star d).mp hd))
  refine ⟨String.ofList (pre ++ d :: post),
    addsNoNewline_replaced hv (newline_of_toLower_eq hd), ?_⟩
  · have hmem : matchWildcard g (String.ofList (pre ++ d :: post)) v = true := by
      rw [matchWildcard_of_star hstar, String.toList_ofList, (map_replaced pre post c d).mpr hd, hv]
      exact wildMatch_self _
    intro hiff
    have hlike := hiff.mpr hmem
    rw [sqlLike_escapeLike, globTokens_of_no_backslash hback, String.toList_ofList] at hlike
    -- the text has one character fewer of the class of `c` than the value
    have hcount := (likeMatch_sublist hlike).count_le c.toLower
    have hstars : ((v.toList.filter (· ≠ '*')).map Char.toLower).count c.toLower =
        (v.toList.map Char.toLower).count c.toLower := by
      simp only [List.count, List.countP_map, List.countP_filter]
      refine List.countP_congr ?_
      intro x _
      simp only [Function.comp_apply, beq_iff_eq, Bool.and_eq_true,
        and_iff_left_iff_imp, ne_eq, decide_not, Bool.not_eq_true', decide_eq_false_iff_not]
      rintro hx rfl
      exact hc (toLower_eq_of_not_alpha (by decide) hx.symm)
    rw [literals_map_globToken, hstars, hv] at hcount
    simp only [List.map_append, List.map_cons, List.count_append, List.count_cons_self,
      List.count_cons_of_ne hclass] at hcount
    omega

theorem newline_not_liked (hnew : '\n' ∈ v.toList) (hs : '\n' ∉ s.toList) :
    sqlLike (some '\\') s (escapeLike v) = false ∧ matchWildcard g s v = false := by
  constructor
  · rw [sqlLike_escapeLike]
    cases hts : globTokens false v.toList with
    | none => rfl
    | some ts =>
        rw [Bool.eq_false_iff]
        intro hlike
        have hmem := (likeMatch_sublist hlike).subset
          (List.mem_map_of_mem
            (mem_literals (by decide) (by decide) (by decide) (by decide) hnew hts))
        obtain ⟨d, hd, heq⟩ := List.mem_map.mp hmem
        rw [toLower_eq_of_not_alpha (by decide) heq] at hd
        exact hs hd
  · rw [Bool.eq_false_iff]
    intro hmatch
    rw [matchWildcard_of_star hstar] at hmatch
    have hcount := wildMatch_count_newline hmatch
    rw [g.count_map_toLower uncased_newline, g.count_map_toLower uncased_newline,
      List.count_eq_zero.mpr hs] at hcount
    have hpos := List.count_pos_iff.mpr hnew
    omega

/-- On texts without a line feed a value with a star agrees if it needs one
itself, or has no backslash and ASCII case only. -/
theorem like_line_agrees_iff :
    (∀ s, '\n' ∉ s.toList → (sqlLike (some '\\') s (escapeLike v) = true ↔
      matchWildcard g s v = true)) ↔
      '\n' ∈ v.toList ∨ ('\\' ∉ v.toList ∧ LowersAscii g v) := by
  constructor
  · intro h
    by_cases hnew : '\n' ∈ v.toList
    · exact Or.inl hnew
    · right
      have hback : '\\' ∉ v.toList := by
        intro hback
        obtain ⟨s, hs, hdis⟩ := backslash_disagrees (g := g) hstar hback
        exact hdis (h s (hs hnew))
      refine ⟨hback, ?_⟩
      by_contra hlow
      obtain ⟨s, hs, hdis⟩ := class_disagrees hstar hback hlow
      exact hdis (h s (hs hnew))
  · rintro (hnew | ⟨hback, hlow⟩) s hs
    · obtain ⟨hlike, hmatch⟩ := newline_not_liked (g := g) hstar hnew hs
      rw [hlike, hmatch]
    · rw [sqlLike_escapeLike, globTokens_of_no_backslash hback, matchWildcard_of_star hstar]
      exact likeMatch_eq_wildMatch g hlow hs

end

end

end GoSite.Observability
