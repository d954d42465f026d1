import GoSite.RowConditions
import GoSite.TextFolding

/-!
# LIKE patterns and wildcard expressions on texts

A value is made into a LIKE pattern by the compiler and into an expression by
the evaluator. What either accepts is described by the parts of the text that
the pattern's characters stand for.
-/
namespace GoSite.Observability
open TextFolding

/-! ## Characters without case -/

/-- An ASCII character that is no letter. -/
def Uncased (c : Char) : Prop := c.toNat < 128 ∧ c.isAlpha = false

instance (c : Char) : Decidable (Uncased c) := inferInstanceAs (Decidable (_ ∧ _))

theorem uncased_star : Uncased '*' := by decide

theorem uncased_newline : Uncased '\n' := by decide

theorem GoText.toLower_eq_iff (g : GoText) {c : Char} (hc : Uncased c) (d : Char) :
    g.toLower d = c ↔ d = c := by
  have hupper : ¬ (c.val ≥ 'A'.val ∧ c.val ≤ 'Z'.val) := by
    have halpha := hc.2
    simp only [Char.isAlpha, Char.isUpper, Bool.or_eq_false_iff, decide_eq_false_iff_not] at halpha
    exact halpha.1
  have hself : g.toLower c = c := by
    rw [g.toLower_ascii c hc.1, Char.toLower, dif_neg hupper]
  constructor
  · intro h
    exact g.toLower_uncased c d hc.1 hc.2 (h.trans hself.symm)
  · rintro rfl
    exact hself

/-- A character without case is where it was after lowering a text. -/
theorem GoText.mem_map_toLower (g : GoText) {c : Char} (hc : Uncased c) (s : List Char) :
    c ∈ s.map g.toLower ↔ c ∈ s := by
  rw [List.mem_map]
  constructor
  · rintro ⟨d, hd, heq⟩
    rwa [(g.toLower_eq_iff hc d).mp heq] at hd
  · intro h
    exact ⟨c, h, (g.toLower_eq_iff hc c).mpr rfl⟩

theorem GoText.count_map_toLower (g : GoText) {c : Char} (hc : Uncased c) (s : List Char) :
    (s.map g.toLower).count c = s.count c := by
  simp only [List.count, List.countP_map]
  refine List.countP_congr ?_
  intro d _
  simp [g.toLower_eq_iff hc d]

theorem GoText.hasStar_lower (g : GoText) (v : String) : hasStar (g.lower v) = hasStar v := by
  simp only [hasStar, GoText.lower, String.toList_ofList, g.mem_map_toLower uncased_star]

/-! ## LIKE -/

theorem anyText_iff {k : List Char → Bool} {text : List Char} :
    anyText k text = true ↔ ∃ a b, text = a ++ b ∧ k b = true := by
  induction text with
  | nil =>
      simp only [anyText, List.nil_eq_append_iff]
      constructor
      · intro hk
        exact ⟨[], [], ⟨rfl, rfl⟩, hk⟩
      · rintro ⟨a, b, ⟨-, rfl⟩, hk⟩
        exact hk
  | cons c cs ih =>
      simp only [anyText, Bool.or_eq_true, ih]
      constructor
      · rintro (hk | ⟨a, b, rfl, hk⟩)
        · exact ⟨[], c :: cs, rfl, hk⟩
        · exact ⟨c :: a, b, rfl, hk⟩
      · rintro ⟨a, b, heq, hk⟩
        cases a with
        | nil => exact Or.inl (heq ▸ hk)
        | cons d a =>
            obtain ⟨rfl, rfl⟩ := List.cons.inj heq
            exact Or.inr ⟨a, b, rfl, hk⟩

theorem likeMatch_append (ts us : List LikeToken) (text : List Char) :
    likeMatch (ts ++ us) text = true ↔
      ∃ a b, text = a ++ b ∧ likeMatch ts a = true ∧ likeMatch us b = true := by
  induction ts generalizing text with
  | nil =>
      constructor
      · intro h
        exact ⟨[], text, rfl, rfl, h⟩
      · rintro ⟨a, b, rfl, ha, hb⟩
        rw [likeMatch, List.isEmpty_iff] at ha
        subst ha
        exact hb
  | cons t ts ih =>
      cases t with
      | anyString =>
          simp only [List.cons_append, likeMatch, anyText_iff, ih]
          constructor
          · rintro ⟨x, -, rfl, a, b, rfl, ha, hb⟩
            exact ⟨x ++ a, b, by simp, ⟨x, a, rfl, ha⟩, hb⟩
          · rintro ⟨-, b, rfl, ⟨x, a, rfl, ha⟩, hb⟩
            exact ⟨x, a ++ b, by simp, a, b, rfl, ha, hb⟩
      | anyChar =>
          cases text with
          | nil =>
              simp only [List.cons_append, likeMatch, Bool.false_eq_true, false_iff]
              rintro ⟨a, b, heq, ha, -⟩
              obtain ⟨rfl, rfl⟩ := List.nil_eq_append_iff.mp heq
              simp [likeMatch] at ha
          | cons c cs =>
              simp only [List.cons_append, likeMatch, ih]
              constructor
              · rintro ⟨a, b, rfl, ha, hb⟩
                exact ⟨c :: a, b, rfl, ha, hb⟩
              · rintro ⟨a, b, heq, ha, hb⟩
                cases a with
                | nil => simp [likeMatch] at ha
                | cons d a =>
                    obtain ⟨rfl, rfl⟩ := List.cons.inj heq
                    exact ⟨a, b, rfl, ha, hb⟩
      | lit l =>
          cases text with
          | nil =>
              simp only [List.cons_append, likeMatch, Bool.false_eq_true, false_iff]
              rintro ⟨a, b, heq, ha, -⟩
              obtain ⟨rfl, rfl⟩ := List.nil_eq_append_iff.mp heq
              simp [likeMatch] at ha
          | cons c cs =>
              simp only [List.cons_append, likeMatch, Bool.and_eq_true, ih]
              constructor
              · rintro ⟨hc, a, b, rfl, ha, hb⟩
                exact ⟨c :: a, b, rfl, by simpa [likeMatch] using ⟨by simpa using hc, ha⟩, hb⟩
              · rintro ⟨a, b, heq, ha, hb⟩
                cases a with
                | nil => simp [likeMatch] at ha
                | cons d a =>
                    obtain ⟨rfl, rfl⟩ := List.cons.inj heq
                    simp only [likeMatch, Bool.and_eq_true] at ha
                    exact ⟨ha.1, a, b, rfl, ha.2, hb⟩

theorem likeMatch_anyString (text : List Char) : likeMatch [.anyString] text = true := by
  rw [likeMatch, anyText_iff]
  exact ⟨text, [], by simp, rfl⟩

/-- Literal characters match their own text up to ASCII case. -/
theorem likeMatch_lits (v text : List Char) :
    likeMatch (v.map .lit) text = true ↔ text.map Char.toLower = v.map Char.toLower := by
  induction v generalizing text with
  | nil => simp [likeMatch]
  | cons c v ih =>
      cases text with
      | nil => simp [likeMatch]
      | cons d text => simp [likeMatch, ih]

/-- What a pattern matches when each `%` stands for `fill` and each `_` for an
`x`. -/
def instantiate (fill : List Char) : LikeToken → List Char
  | .anyString => fill
  | .anyChar => ['x']
  | .lit c => [c]

theorem likeMatch_instantiate (fill : List Char) (ts : List LikeToken) :
    likeMatch ts (ts.flatMap (instantiate fill)) = true := by
  induction ts with
  | nil => rfl
  | cons t ts ih =>
      cases t with
      | anyString =>
          rw [likeMatch, anyText_iff]
          exact ⟨fill, ts.flatMap (instantiate fill), rfl, ih⟩
      | anyChar => simpa [instantiate, likeMatch] using ih
      | lit c => simpa [instantiate, likeMatch] using ih

/-! ## LIKE without an escape -/

def plainToken (c : Char) : LikeToken :=
  if c = '%' then .anyString else if c = '_' then .anyChar else .lit c

theorem likeTokens_none (v : List Char) : likeTokens none false v = some (v.map plainToken) := by
  induction v with
  | nil => rfl
  | cons c v ih =>
      rw [likeTokens, ih]
      simp only [plainToken, List.map_cons]
      split_ifs <;> simp_all

/-- `LIKE '%v%'` looks for a part of the text. -/
theorem sqlLike_contains (s v : String) :
    sqlLike none s ("%" ++ v ++ "%") = true ↔
      ∃ a b c, s.toList = a ++ b ++ c ∧ likeMatch (v.toList.map plainToken) b = true := by
  have htokens : likeTokens none false ("%" ++ v ++ "%").toList =
      some ([.anyString] ++ v.toList.map plainToken ++ [.anyString]) := by
    rw [likeTokens_none]
    simp [plainToken]
  simp only [sqlLike, htokens, likeMatch_append, likeMatch_anyString, true_and, and_true]
  constructor
  · rintro ⟨-, c, hs, a, b, rfl, hb⟩
    exact ⟨a, b, c, hs, hb⟩
  · rintro ⟨a, b, c, hs, hb⟩
    exact ⟨a ++ b, c, hs, a, b, rfl, hb⟩

theorem map_plainToken {v : List Char} (hv : ∀ c ∈ v, c ≠ '%' ∧ c ≠ '_') :
    v.map plainToken = v.map .lit := by
  refine List.map_congr_left ?_
  intro c hc
  simp [plainToken, hv c hc]

/-- Without `%` and `_` in the value, the part is the value up to ASCII case. -/
theorem sqlLike_contains_plain {s v : String} (hv : ∀ c ∈ v.toList, c ≠ '%' ∧ c ≠ '_') :
    sqlLike none s ("%" ++ v ++ "%") = true ↔
      v.toList.map Char.toLower <:+: s.toList.map Char.toLower := by
  rw [sqlLike_contains, map_plainToken hv, infix_map_iff]
  simp only [likeMatch_lits]

/-! ## The pattern made of a value with stars -/

def escapeChar (c : Char) : List Char :=
  if c = '%' then ['\\', '%'] else if c = '_' then ['\\', '_'] else if c = '*' then ['%'] else [c]

theorem escapeLike_toList (v : String) : (escapeLike v).toList = v.toList.flatMap escapeChar := by
  simp only [escapeLike, String.toList_ofList, GoStrings.replaceAll, List.flatMap_assoc]
  refine List.flatMap_congr ?_
  intro c _
  by_cases hp : c = '%'
  · subst hp
    rfl
  · by_cases hu : c = '_'
    · subst hu
      rfl
    · simp [escapeChar, hp, hu]

/-- What a character of the value adds to the pattern, after a backslash of the
value or not, and whether it leaves the pattern after a backslash. -/
def globStep : Bool → Char → List LikeToken × Bool
  | false, c =>
      if c = '\\' then ([], true) else if c = '*' then ([.anyString], false) else ([.lit c], false)
  | true, c =>
      if c = '%' then ([.lit '\\', .anyString], false)
      else if c = '_' then ([.lit '\\', .anyChar], false)
      else if c = '*' then ([.lit '%'], false)
      else ([.lit c], false)

@[grind] def globTokens : Bool → List Char → Option (List LikeToken)
  | true, [] => none
  | false, [] => some []
  | b, c :: cs => (globTokens (globStep b c).2 cs).map ((globStep b c).1 ++ ·)

theorem likeTokens_escapeChar (b : Bool) (v : List Char) :
    likeTokens (some '\\') b (v.flatMap escapeChar) = globTokens b v := by
  induction v generalizing b with
  | nil => cases b <;> rfl
  | cons c v ih =>
      cases b with
      | false =>
          by_cases hb : c = '\\'
          · subst hb
            simp [escapeChar, likeTokens, globTokens, globStep, ih]
          · by_cases hp : c = '%'
            · subst hp
              simp [escapeChar, likeTokens, globTokens, globStep, ih]
            · by_cases hu : c = '_'
              · subst hu
                simp [escapeChar, likeTokens, globTokens, globStep, ih]
              · by_cases hs : c = '*'
                · subst hs
                  simp [escapeChar, likeTokens, globTokens, globStep, ih]
                · simp [escapeChar, likeTokens, globTokens, globStep, ih, hb, hp, hu, hs,
                    Ne.symm hb]
      | true =>
          by_cases hp : c = '%'
          · subst hp
            simp [escapeChar, likeTokens, globTokens, globStep, ih, Function.comp_def]
          · by_cases hu : c = '_'
            · subst hu
              simp [escapeChar, likeTokens, globTokens, globStep, ih, Function.comp_def]
            · by_cases hs : c = '*'
              · subst hs
                simp [escapeChar, likeTokens, globTokens, globStep, ih]
              · simp [escapeChar, likeTokens, globTokens, globStep, ih, hp, hu, hs]

theorem sqlLike_escapeLike (s v : String) :
    sqlLike (some '\\') s (escapeLike v) =
      match globTokens false v.toList with
      | none => false
      | some ts => likeMatch ts s.toList := by
  have htokens : likeTokens (some '\\') false (escapeLike v).toList =
      globTokens false v.toList := by
    rw [escapeLike_toList, likeTokens_escapeChar]
  cases hv : globTokens false v.toList with
  | none => simp only [sqlLike, htokens, hv]
  | some ts => simp only [sqlLike, htokens, hv]

def globToken (c : Char) : LikeToken := if c = '*' then .anyString else .lit c

/-- Without a backslash the value's stars and no other characters are special. -/
theorem globTokens_of_no_backslash {v : List Char} (hv : '\\' ∉ v) :
    globTokens false v = some (v.map globToken) := by
  induction v with
  | nil => rfl
  | cons c v ih =>
      rw [List.mem_cons, not_or] at hv
      have hc : c ≠ '\\' := fun h => hv.1 h.symm
      by_cases hs : c = '*'
      · simp [globTokens, globStep, hs, globToken, ih hv.2]
      · simp [globTokens, globStep, hc, hs, globToken, ih hv.2]

/-- No star of the value is left in what its pattern matches. -/
theorem star_not_mem_instantiate {fill : List Char} (hfill : '*' ∉ fill) {b : Bool} {v : List Char}
    {ts : List LikeToken} (h : globTokens b v = some ts) : '*' ∉ ts.flatMap (instantiate fill) := by
  induction v generalizing b ts with
  | nil =>
      cases b with
      | true => simp [globTokens] at h
      | false =>
          simp only [globTokens, Option.some.injEq] at h
          subst h
          simp
  | cons c v ih =>
      rw [globTokens, Option.map_eq_some_iff] at h
      obtain ⟨us, hus, rfl⟩ := h
      rw [List.flatMap_append, List.mem_append, not_or]
      refine ⟨?_, ih hus⟩
      cases b <;> simp only [globStep] <;> split_ifs <;> simp_all [instantiate] <;> tauto

/-- A character of what the pattern matches is one of the value, a backslash, a
`%` or an `x`. -/
theorem forall_mem_instantiate {P : Char → Prop} (hback : P '\\') (hpercent : P '%') (hx : P 'x')
    {b : Bool} {v : List Char} {ts : List LikeToken} (hv : ∀ c ∈ v, P c)
    (h : globTokens b v = some ts) : ∀ c ∈ ts.flatMap (instantiate []), P c := by
  induction v generalizing b ts with
  | nil =>
      cases b with
      | true => simp [globTokens] at h
      | false =>
          simp only [globTokens, Option.some.injEq] at h
          subst h
          simp
  | cons c v ih =>
      rw [List.forall_mem_cons] at hv
      rw [globTokens, Option.map_eq_some_iff] at h
      obtain ⟨us, hus, rfl⟩ := h
      rw [List.flatMap_append, List.forall_mem_append]
      refine ⟨?_, ih hv.2 hus⟩
      cases b <;> simp only [globStep] <;> split_ifs <;> simp_all [instantiate]

/-- Where the value has no line feed, its pattern matches a text without one. -/
theorem newline_not_mem_instantiate {b : Bool} {v : List Char} {ts : List LikeToken}
    (hv : '\n' ∉ v) (h : globTokens b v = some ts) : '\n' ∉ ts.flatMap (instantiate []) := by
  have hne : ∀ c ∈ v, c ≠ '\n' := fun c hc heq => hv (heq ▸ hc)
  intro hmem
  exact forall_mem_instantiate (by decide) (by decide) (by decide) hne h '\n' hmem rfl

/-! ### What a backslash in the value loses

A backslash escapes what follows it in the pattern and stands for itself in the
expression. In this measure each one makes the pattern match a lighter text. -/

def specialWeight (c : Char) : ℕ := if c = '\\' then 2 else if c = '%' ∨ c = '_' then 1 else 0

def textWeight (text : List Char) : ℕ := (text.map specialWeight).sum

theorem textWeight_instantiate {b : Bool} {v : List Char} {ts : List LikeToken}
    (h : globTokens b v = some ts) :
    textWeight (ts.flatMap (instantiate [])) ≤ textWeight v + (if b then 1 else 0) ∧
      ('\\' ∈ v → b = false → textWeight (ts.flatMap (instantiate [])) < textWeight v) := by
  induction v generalizing b ts with
  | nil =>
      cases b with
      | true => simp [globTokens] at h
      | false =>
          simp only [globTokens, Option.some.injEq] at h
          subst h
          simp [textWeight]
  | cons c v ih =>
      rw [globTokens, Option.map_eq_some_iff] at h
      obtain ⟨us, hus, rfl⟩ := h
      obtain ⟨hle, hlt⟩ := ih hus
      simp only [textWeight, List.map_cons, List.sum_cons, List.flatMap_append, List.map_append,
        List.sum_append] at hle hlt ⊢
      cases b with
      | true =>
          refine ⟨?_, by simp⟩
          simp only [globStep] at hle ⊢
          split_ifs at hle ⊢ <;> simp_all [instantiate, specialWeight] <;> omega
      | false =>
          by_cases hc : c = '\\'
          · subst hc
            simp only [globStep, if_true] at hle ⊢
            simp [specialWeight] at hle ⊢
            omega
          · have hstep : (globStep false c).2 = false := by
              simp only [globStep, hc, if_false]
              split_ifs <;> rfl
            have hc' : ¬ '\\' = c := fun h => hc h.symm
            have hw : (((globStep false c).1.flatMap (instantiate [])).map specialWeight).sum ≤
                specialWeight c := by
              simp only [globStep, hc, if_false]
              split_ifs <;> simp [instantiate]
            rw [hstep] at hle hlt
            simp only [Bool.false_eq_true, if_false, add_zero] at hle ⊢
            refine ⟨by omega, ?_⟩
            intro hmem _
            rw [List.mem_cons] at hmem
            have := hlt (hmem.resolve_left hc') rfl
            omega

/-! ## The expression made of a value with stars -/

theorem anyRun_iff {k : List Char → Bool} {text : List Char} :
    anyRun k text = true ↔ ∃ a b, text = a ++ b ∧ '\n' ∉ a ∧ k b = true := by
  induction text with
  | nil =>
      simp only [anyRun, List.nil_eq_append_iff]
      constructor
      · intro hk
        exact ⟨[], [], ⟨rfl, rfl⟩, by simp, hk⟩
      · rintro ⟨a, b, ⟨-, rfl⟩, -, hk⟩
        exact hk
  | cons c cs ih =>
      simp only [anyRun, Bool.or_eq_true, Bool.and_eq_true, decide_eq_true_eq, ih]
      constructor
      · rintro (hk | ⟨hc, a, b, rfl, ha, hk⟩)
        · exact ⟨[], c :: cs, rfl, by simp, hk⟩
        · exact ⟨c :: a, b, rfl, by simp [ha, Ne.symm hc], hk⟩
      · rintro ⟨a, b, heq, ha, hk⟩
        cases a with
        | nil => exact Or.inl (heq ▸ hk)
        | cons d a =>
            obtain ⟨rfl, rfl⟩ := List.cons.inj heq
            rw [List.mem_cons, not_or] at ha
            exact Or.inr ⟨fun h => ha.1 h.symm, a, b, rfl, ha.2, hk⟩

theorem wildMatch_star {ps text : List Char} :
    wildMatch ('*' :: ps) text = true ↔
      ∃ a b, text = a ++ b ∧ '\n' ∉ a ∧ wildMatch ps b = true := by
  rw [← anyRun_iff]
  cases text <;> simp [wildMatch]

theorem wildMatch_lit {p : Char} (hp : p ≠ '*') {ps text : List Char} :
    wildMatch (p :: ps) text = true ↔ ∃ cs, text = p :: cs ∧ wildMatch ps cs = true := by
  cases text with
  | nil => simp [wildMatch, hp]
  | cons c cs =>
      simp only [wildMatch, if_neg hp, Bool.and_eq_true, decide_eq_true_eq, List.cons.injEq]
      constructor
      · rintro ⟨rfl, h⟩
        exact ⟨cs, ⟨rfl, rfl⟩, h⟩
      · rintro ⟨ds, ⟨hc, rfl⟩, hds⟩
        exact ⟨hc, hds⟩

/-- A value with stars matches itself, each star a star. -/
theorem wildMatch_self (ps : List Char) : wildMatch ps ps = true := by
  induction ps with
  | nil => rfl
  | cons p ps ih =>
      by_cases hp : p = '*'
      · rw [hp, wildMatch_star]
        exact ⟨['*'], ps, rfl, by simp, ih⟩
      · rw [wildMatch_lit hp]
        exact ⟨ps, rfl, ih⟩

/-- The characters other than stars appear in what is matched. -/
theorem wildMatch_sublist {ps text : List Char} (h : wildMatch ps text = true) :
    (ps.filter (· ≠ '*')).Sublist text := by
  induction ps generalizing text with
  | nil => simp
  | cons p ps ih =>
      by_cases hp : p = '*'
      · rw [hp, wildMatch_star] at h
        obtain ⟨a, b, rfl, -, hb⟩ := h
        rw [List.filter_cons_of_neg (by simp [hp])]
        exact (ih hb).trans (List.sublist_append_right a b)
      · rw [wildMatch_lit hp] at h
        obtain ⟨cs, rfl, hcs⟩ := h
        rw [List.filter_cons_of_pos (by simp [hp])]
        exact (ih hcs).cons_cons p

/-- A star does not match a line feed. -/
theorem wildMatch_count_newline {ps text : List Char} (h : wildMatch ps text = true) :
    text.count '\n' = ps.count '\n' := by
  induction ps generalizing text with
  | nil =>
      rw [wildMatch, List.isEmpty_iff] at h
      rw [h]
  | cons p ps ih =>
      by_cases hp : p = '*'
      · rw [hp, wildMatch_star] at h
        obtain ⟨a, b, rfl, ha, hb⟩ := h
        rw [List.count_append, List.count_eq_zero.mpr ha, ih hb, hp]
        simp
      · rw [wildMatch_lit hp] at h
        obtain ⟨cs, rfl, hcs⟩ := h
        rw [List.count_cons, List.count_cons, ih hcs]

def literals (ts : List LikeToken) : List Char :=
  ts.flatMap fun
    | .lit c => [c]
    | _ => []

theorem likeMatch_sublist {ts : List LikeToken} {text : List Char} (h : likeMatch ts text = true) :
    ((literals ts).map Char.toLower).Sublist (text.map Char.toLower) := by
  induction ts generalizing text with
  | nil => simp [literals]
  | cons t ts ih =>
      cases t with
      | anyString =>
          rw [likeMatch, anyText_iff] at h
          obtain ⟨a, b, rfl, hb⟩ := h
          rw [List.map_append]
          exact (ih hb).trans (List.sublist_append_right _ _)
      | anyChar =>
          cases text with
          | nil => simp [likeMatch] at h
          | cons c cs => exact (ih (by simpa [likeMatch] using h)).trans (List.sublist_cons_self _ _)
      | lit l =>
          cases text with
          | nil => simp [likeMatch] at h
          | cons c cs =>
              simp only [likeMatch, Bool.and_eq_true, decide_eq_true_eq] at h
              simp only [literals, List.flatMap_cons, List.singleton_append, List.map_cons, h.1]
              exact (ih h.2).cons_cons _

/-- On a text without line feeds, a value without backslashes means the same to
both if the evaluator's case classes of its characters are the ASCII ones. -/
theorem likeMatch_eq_wildMatch (g : GoText) {v s : List Char}
    (hv : ∀ c ∈ v, SameClass g.toLower Char.toLower c) (hs : '\n' ∉ s) :
    likeMatch (v.map globToken) s = true ↔
      wildMatch (v.map g.toLower) (s.map g.toLower) = true := by
  induction v generalizing s with
  | nil => simp [likeMatch, wildMatch]
  | cons c v ih =>
      have hv' := fun x hx => hv x (List.mem_cons_of_mem _ hx)
      by_cases hc : c = '*'
      · subst hc
        have hstar : g.toLower '*' = '*' := (g.toLower_eq_iff uncased_star _).mpr rfl
        rw [List.map_cons, List.map_cons, hstar, wildMatch_star, globToken, if_pos rfl, likeMatch,
          anyText_iff]
        constructor
        · rintro ⟨a, b, rfl, hb⟩
          rw [List.mem_append, not_or] at hs
          refine ⟨a.map g.toLower, b.map g.toLower, by simp, ?_, (ih hv' hs.2).mp hb⟩
          rw [g.mem_map_toLower uncased_newline]
          exact hs.1
        · rintro ⟨a', b', heq, -, hb⟩
          obtain ⟨a, b, rfl, rfl, rfl⟩ := List.map_eq_append_iff.mp heq
          rw [List.mem_append, not_or] at hs
          exact ⟨a, b, rfl, (ih hv' hs.2).mpr hb⟩
      · have hlow : g.toLower c ≠ '*' := by
          rw [ne_eq, g.toLower_eq_iff uncased_star]
          exact hc
        rw [List.map_cons, List.map_cons, wildMatch_lit hlow, globToken, if_neg hc]
        cases s with
        | nil => simp [likeMatch]
        | cons d s =>
            rw [List.mem_cons, not_or] at hs
            have hclass := hv c List.mem_cons_self d
            simp only [likeMatch, Bool.and_eq_true, decide_eq_true_eq, ← hclass, ih hv' hs.2,
              List.map_cons, List.cons.injEq]
            constructor
            · rintro ⟨hd, h⟩
              exact ⟨_, ⟨hd, rfl⟩, h⟩
            · rintro ⟨_, ⟨hd, rfl⟩, h⟩
              exact ⟨hd, h⟩

end GoSite.Observability
