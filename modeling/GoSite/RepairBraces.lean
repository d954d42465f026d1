import GoSite.ConfigRepair

/-!
# The braces of a repaired configuration

Every repair overwrites some lines and puts in others. A text that opens as many blocks
as it closes still does so afterwards exactly when the lines it lost had as many braces
to spare as the lines it got.
-/
namespace GoSite.Website
open GoStrings

/-- The braces of a line, if it is no comment. -/
def activeDelta (line : Line) : ℤ := if IsComment line then 0 else braceDelta line

/-- The braces of the active lines of a text. -/
def netBraces (text : List Char) : ℤ := ((text.splitOn '\n').map activeDelta).sum

/-- The active lines open as many blocks as they close. -/
def Balanced (text : List Char) : Prop := netBraces text = 0

instance (text : List Char) : Decidable (Balanced text) := by
  unfold Balanced
  infer_instance

/-- The braces of some lines. -/
def linesBraces (lines : List Line) : ℤ := (lines.map netBraces).sum

/-- What `setSSLKeyNear` takes from the lines, less what it adds. -/
def keyLoss (lines : List Line) (i : ℕ) (key : List Char) : ℤ :=
  (match keyNear lines i with | some j => netBraces (lines.getD j []) | none => 0) -
    netBraces (keyText key)

/-- What the turns of the loop of `replaceSSLPath` take from the lines. -/
@[grind] def pathLoss (missing cert key : List Char) : PathLoop → List ℕ → ℤ
  | _, [] => 0
  | s, i :: rest =>
      let line := s.ranged.getD i []
      let lines := s.lines.set i (replaceIndent line (certText cert))
      (if NamesMissing missing line then
          netBraces (s.lines.getD i []) - netBraces (certText cert) + keyLoss lines i key
        else 0) +
        pathLoss missing cert key (replacePathStep missing cert key s i) rest

/-- What `replaceSSLInRange` takes from the lines. -/
def blockLoss (lines : List Line) (first last : ℕ) (cert key : List Char) : ℤ :=
  let block := blockLines lines first last
  let replaced := lines.take first ++ block.map (replaceSSLLine cert key) ++ lines.drop (last + 1)
  linesBraces block - linesBraces (block.map (replaceSSLLine cert key)) +
    if ∀ line ∈ block, ¬ IsCertLine line then -(netBraces (certText cert) + netBraces (keyText key))
    else keyLoss replaced first key

/-- What `repairMissingCertificate` takes from the lines. -/
def missingLoss (lines : List Line) (idx : ℕ) (cfg : RepairConfig) (message : List Char) : ℤ :=
  let missing := missingPath message
  if IsCertLine (lines.getD idx []) then
    netBraces (lines.getD idx []) - netBraces (certText cfg.defaultCert) +
      keyLoss (lines.set idx ('\t' :: certText cfg.defaultCert)) idx cfg.defaultKey
  else if missing ≠ [] ∧ ∃ line ∈ lines, NamesMissing missing line then
    pathLoss missing cfg.defaultCert cfg.defaultKey ⟨lines, lines, true, false⟩
      (List.range lines.length)
  else
    match serverBlockBounds lines idx with
    | some (first, last) => blockLoss lines first last cfg.defaultCert cfg.defaultKey
    | none => 0

/-- The braces of the lines a repair overwrites, less those of the lines it writes. -/
def RepairKind.loss (lines : List Line) (parsed : ParsedNginxError) (cfg : RepairConfig) :
    RepairKind → ℤ
  | .missingCertificate => missingLoss lines (parsed.line - 1) cfg parsed.message
  | .undefinedSSL => -(netBraces (certText cfg.defaultCert) + netBraces (keyText cfg.defaultKey))
  | .invalidDirective | .duplicateListen => netBraces (lines.getD (parsed.line - 1) [])

/-- The braces of the lines `applyRepair` overwrites, less those of the lines it writes. -/
def repairLoss (e : RepairWeather) (parsed : ParsedNginxError) (cfg : RepairConfig)
    (text : List Char) : ℤ :=
  match repairKind (parsed.message.map e.toLower) with
  | some kind => kind.loss (readLines text) parsed cfg
  | none => 0

/-! ## Braces of lines and texts -/

/-- A comment is seen from the first character that is no blank. -/
theorem isComment_iff (line : Line) :
    IsComment line ↔ (line.dropWhile isSpace).head? = some '#' := by
  rw [IsComment, trimSpaceChars]
  cases hdrop : line.dropWhile isSpace with
  | nil => rfl
  | cons c cs =>
      have hc : isSpace c = false := by
        have hhead := List.head_dropWhile_not isSpace (l := line) (by simp [hdrop])
        simpa [hdrop] using hhead
      have hpre := List.rdropWhile_prefix isSpace (c :: cs)
      have hmem : c ∈ (c :: cs).rdropWhile isSpace := by
        rw [List.rdropWhile, List.mem_reverse]
        exact mem_dropWhile_of_not (by simp) hc
      cases htrim : (c :: cs).rdropWhile isSpace with
      | nil => simp [htrim] at hmem
      | cons d ds =>
          rw [htrim, List.cons_prefix_cons] at hpre
          rw [hpre.1]
          rfl

/-- Characters that are neither quotes nor braces. -/
def Plainly (c : Char) : Prop := c ≠ '\'' ∧ c ≠ '"' ∧ c ≠ '{' ∧ c ≠ '}'

theorem braceLoop_cons_plain {c : Char} (hc : Plainly c) (s d : Bool) (cs : List Char) :
    braceLoop s d (c :: cs) = braceLoop s d cs := by
  obtain ⟨h1, h2, h3, h4⟩ := hc
  rw [braceLoop, if_neg h1, if_neg h2, if_neg h3, if_neg h4]

theorem braceLoop_append_plain {c : Char} (hc : Plainly c) (s d : Bool) (cs : List Char) :
    braceLoop s d (cs ++ [c]) = braceLoop s d cs := by
  induction cs generalizing s d with
  | nil => exact braceLoop_cons_plain hc s d []
  | cons x cs ih =>
      rw [List.cons_append, braceLoop, braceLoop]
      simp only [ih]

theorem activeDelta_carriage (line : Line) : activeDelta (line ++ ['\r']) = activeDelta line := by
  have hcomment : IsComment (line ++ ['\r']) ↔ IsComment line := by
    rw [isComment_iff, isComment_iff, List.dropWhile_append]
    split_ifs with hempty
    · rw [List.isEmpty_iff.mp hempty]
      simp [isSpace]
    · cases hdrop : line.dropWhile isSpace with
      | nil => simp [hdrop] at hempty
      | cons c cs => rfl
  rw [activeDelta, activeDelta, braceDelta, braceDelta,
    braceLoop_append_plain (by unfold Plainly; decide)]
  simp only [hcomment]

theorem activeDelta_indent {indent : List Char} (hindent : ∀ c ∈ indent, c = ' ' ∨ c = '\t')
    (line : Line) : activeDelta (indent ++ line) = activeDelta line := by
  have hspace : ∀ c ∈ indent, isSpace c = true := by
    intro c hc
    rcases hindent c hc with rfl | rfl <;> decide
  have hcomment : IsComment (indent ++ line) ↔ IsComment line := by
    rw [isComment_iff, isComment_iff, List.dropWhile_append_of_pos hspace]
  have hbraces : braceDelta (indent ++ line) = braceDelta line := by
    rw [braceDelta, braceDelta]
    clear hcomment hspace
    induction indent with
    | nil => rfl
    | cons c cs ih =>
        obtain ⟨hc, hcs⟩ := List.forall_mem_cons.mp hindent
        have hplain : Plainly c := by
          unfold Plainly
          rcases hc with rfl | rfl <;> decide
        rw [List.cons_append, braceLoop_cons_plain hplain, ih hcs]
  rw [activeDelta, activeDelta, hbraces]
  simp only [hcomment]

theorem splitOn_append_newline (a b : List Char) :
    (a ++ '\n' :: b).splitOn '\n' = a.splitOn '\n' ++ b.splitOn '\n' :=
  List.splitOn_append_cons_self a b

theorem splitOn_line {line : List Char} (h : '\n' ∉ line) : line.splitOn '\n' = [line] := by
  have hsplit : (['\n'].intercalate [line]).splitOn '\n' = [line] :=
    List.splitOn_intercalate '\n' (by simpa using h) (by simp)
  rwa [List.intercalate_singleton] at hsplit

theorem netBraces_line {line : List Char} (h : '\n' ∉ line) :
    netBraces line = activeDelta line := by
  rw [netBraces, splitOn_line h]
  simp

theorem netBraces_newline (a b : List Char) :
    netBraces (a ++ '\n' :: b) = netBraces a + netBraces b := by
  rw [netBraces, splitOn_append_newline, List.map_append, List.sum_append]
  rfl

/-- A text has the braces of the lines it was joined from. -/
theorem netBraces_join (lines : List Line) :
    netBraces (['\n'].intercalate lines) = linesBraces lines := by
  induction lines with
  | nil => decide
  | cons line lines ih =>
      cases lines with
      | nil => simp [linesBraces]
      | cons next lines =>
          rw [List.intercalate_cons_of_ne_nil (by simp), List.append_assoc,
            List.singleton_append, netBraces_newline, ih]
          rfl

theorem netBraces_indent {indent : List Char} (hindent : ∀ c ∈ indent, c = ' ' ∨ c = '\t')
    (text : List Char) : netBraces (indent ++ text) = netBraces text := by
  have hline : ∀ line : List Char, '\n' ∉ line → '\n' ∉ indent ++ line := by
    intro line hline hmem
    rcases List.mem_append.mp hmem with hmem | hmem
    · rcases hindent _ hmem with h | h <;> cases h
    · exact hline hmem
  by_cases hnl : '\n' ∈ text
  · obtain ⟨a, b, rfl, ha⟩ := List.eq_append_cons_of_mem hnl
    rw [← List.append_assoc, netBraces_newline, netBraces_newline, netBraces_line (hline a ha),
      netBraces_line ha, activeDelta_indent hindent]
  · rw [netBraces_line (hline text hnl), netBraces_line hnl, activeDelta_indent hindent]

theorem netBraces_replaceIndent (line content : Line) :
    netBraces (replaceIndent line content) = netBraces content := by
  refine netBraces_indent (fun c hc => ?_) content
  simpa using List.mem_takeWhile_imp hc

/-! ## Reading the lines -/

theorem replaceText_cons {c : Char} {text : List Char} (h : ¬ ['\r', '\n'] <+: c :: text) :
    replaceText ['\r', '\n'] ['\n'] 0 (c :: text) =
      c :: replaceText ['\r', '\n'] ['\n'] 0 text := by
  rw [replaceText, if_neg h]

/-- Dropping the carriage returns at the line ends changes no braces. -/
theorem netBraces_unix (a text : List Char) (ha : '\n' ∉ a) :
    netBraces (a ++ replaceText ['\r', '\n'] ['\n'] 0 text) = netBraces (a ++ text) := by
  induction hn : text.length using Nat.strong_induction_on generalizing a text with
  | _ n ih =>
      subst hn
      cases text with
      | nil => rw [replaceText]
      | cons c text =>
          by_cases hpre : ['\r', '\n'] <+: c :: text
          · obtain ⟨rest, hrest⟩ := hpre
            obtain ⟨rfl, rfl⟩ := List.cons.inj hrest
            have hcarriage : '\n' ∉ a ++ ['\r'] := by simpa using ha
            have hstep : replaceText ['\r', '\n'] ['\n'] 0 ('\r' :: ('\n' :: rest)) =
                '\n' :: replaceText ['\r', '\n'] ['\n'] 0 rest := by
              rw [replaceText, if_pos ⟨rest, rfl⟩]
              rfl
            have hih := ih rest.length (show rest.length < rest.length + 1 + 1 by omega) []
              rest (by simp) rfl
            rw [List.nil_append, List.nil_append] at hih
            rw [show (['\n'] : List Char).append rest = '\n' :: rest from rfl] at *
            rw [hstep, netBraces_newline, hih, netBraces_line ha,
              show a ++ '\r' :: '\n' :: rest = (a ++ ['\r']) ++ '\n' :: rest by simp,
              netBraces_newline, netBraces_line hcarriage, activeDelta_carriage]
          · rw [replaceText_cons hpre]
            by_cases hc : c = '\n'
            · subst hc
              have hih := ih text.length (by simp) [] text (by simp) rfl
              rw [List.nil_append, List.nil_append] at hih
              rw [netBraces_newline, netBraces_newline, hih]
            · have hih := ih text.length (by simp) (a ++ [c]) text
                (by simpa [ha] using Ne.symm hc) rfl
              rwa [List.append_assoc, List.append_assoc, List.singleton_append,
                List.singleton_append] at hih

/-- The lines a repair reads have the braces of the text. -/
theorem linesBraces_readLines (text : List Char) :
    linesBraces (readLines text) = netBraces text := by
  have hunix := netBraces_unix [] text (by simp)
  rw [List.nil_append, List.nil_append] at hunix
  rw [← netBraces_join, readLines, List.intercalate_splitOn, hunix]

/-! ## What the edits change -/

theorem linesBraces_append (a b : List Line) :
    linesBraces (a ++ b) = linesBraces a + linesBraces b := by
  rw [linesBraces, List.map_append, List.sum_append]
  rfl

theorem linesBraces_set {lines : List Line} {i : ℕ} (hi : i < lines.length) (line : Line) :
    linesBraces (lines.set i line) =
      linesBraces lines - netBraces (lines.getD i []) + netBraces line := by
  induction lines generalizing i with
  | nil => cases hi
  | cons first lines ih =>
      cases i with
      | zero =>
          simp only [linesBraces, List.set_cons_zero, List.map_cons, List.sum_cons,
            List.getD_cons_zero]
          omega
      | succ i =>
          have hrest := ih (Nat.lt_of_succ_lt_succ hi)
          simp only [linesBraces, List.set_cons_succ, List.map_cons, List.sum_cons,
            List.getD_cons_succ] at hrest ⊢
          rw [hrest]
          omega

theorem linesBraces_insertAfter (lines : List Line) (i : ℕ) (new : List Line) :
    linesBraces (insertAfter lines i new) = linesBraces lines + linesBraces new := by
  have hsplit := linesBraces_append (lines.take (i + 1)) (lines.drop (i + 1))
  rw [List.take_append_drop] at hsplit
  rw [insertAfter, linesBraces_append, linesBraces_append, hsplit]
  omega

theorem keyNear_lt {lines : List Line} {i j : ℕ} (h : keyNear lines i = some j) :
    j < lines.length := by
  unfold keyNear at h
  have hfound := List.find?_some h
  simp only [decide_eq_true_eq] at hfound
  exact hfound.1

theorem linesBraces_setSSLKeyNear (lines : List Line) (i : ℕ) (key : List Char) :
    linesBraces (setSSLKeyNear lines i key) = linesBraces lines - keyLoss lines i key := by
  rw [setSSLKeyNear, keyLoss]
  cases hnear : keyNear lines i with
  | none =>
      dsimp only
      rw [linesBraces_insertAfter]
      simp only [linesBraces, List.map_cons, List.map_nil, List.sum_cons, List.sum_nil,
        netBraces_replaceIndent]
      omega
  | some j =>
      dsimp only
      rw [linesBraces_set (keyNear_lt hnear), netBraces_replaceIndent]
      omega

theorem length_le_setSSLKeyNear (lines : List Line) (i : ℕ) (key : List Char) :
    lines.length ≤ (setSSLKeyNear lines i key).length := by
  rw [setSSLKeyNear]
  cases keyNear lines i with
  | none =>
      simp only [insertAfter, List.length_append, List.length_take, List.length_drop]
      omega
  | some j => simp

theorem getD_of_lt {lines : List Line} {i : ℕ} (hi : i < lines.length) :
    lines.getD i [] = lines[i] := by
  simp [hi]

/-! ## The loop over the lines with the missing path -/

theorem replacePathStep_of_not {missing cert key : List Char} {s : PathLoop} {i : ℕ}
    (h : ¬ NamesMissing missing (s.ranged.getD i [])) :
    replacePathStep missing cert key s i = s := by
  rw [replacePathStep]
  exact if_neg h

theorem replacePathStep_lines {missing cert key : List Char} {s : PathLoop} {i : ℕ}
    (h : NamesMissing missing (s.ranged.getD i [])) :
    (replacePathStep missing cert key s i).lines =
        setSSLKeyNear (s.lines.set i (replaceIndent (s.ranged.getD i []) (certText cert))) i key ∧
      (replacePathStep missing cert key s i).changed = true := by
  rw [replacePathStep]
  dsimp only
  rw [if_pos h]
  exact ⟨rfl, rfl⟩

theorem linesBraces_pathLoop (missing cert key : List Char) (rest : List ℕ) (s : PathLoop)
    (hrest : ∀ i ∈ rest, i < s.lines.length) :
    linesBraces (rest.foldl (replacePathStep missing cert key) s).lines =
      linesBraces s.lines - pathLoss missing cert key s rest := by
  induction rest generalizing s with
  | nil => simp [pathLoss]
  | cons i rest ih =>
      obtain ⟨hi, hrest⟩ := List.forall_mem_cons.mp hrest
      rw [List.foldl_cons, pathLoss]
      by_cases hnames : NamesMissing missing (s.ranged.getD i [])
      · have hlines := (@replacePathStep_lines missing cert key s i hnames).1
        have hgrows := length_le_setSSLKeyNear
          (s.lines.set i (replaceIndent (s.ranged.getD i []) (certText cert))) i key
        rw [List.length_set] at hgrows
        rw [ih _ (fun j hj => Nat.lt_of_lt_of_le (hrest j hj) (hlines ▸ hgrows)), hlines,
          linesBraces_setSSLKeyNear, linesBraces_set hi, netBraces_replaceIndent, if_pos hnames]
        omega
      · rw [replacePathStep_of_not hnames, ih s hrest, if_neg hnames]
        omega

theorem changed_stays (missing cert key : List Char) (rest : List ℕ) (s : PathLoop)
    (h : s.changed = true) :
    (rest.foldl (replacePathStep missing cert key) s).changed = true := by
  induction rest generalizing s with
  | nil => exact h
  | cons i rest ih =>
      by_cases hnames : NamesMissing missing (s.ranged.getD i [])
      · exact ih _ (replacePathStep_lines hnames).2
      · exact ih _ (by rwa [replacePathStep_of_not hnames])

/-- The loop changes something when some line has the missing path. -/
theorem replaceSSLPath_changed_iff (lines : List Line) (missing cert key : List Char) :
    (replaceSSLPath lines missing cert key).2 = true ↔
      ∃ line ∈ lines, NamesMissing missing line := by
  have hloop : ∀ (rest : List ℕ),
      (rest.foldl (replacePathStep missing cert key) ⟨lines, lines, true, false⟩).changed = true ↔
        ∃ i ∈ rest, NamesMissing missing (lines.getD i []) := by
    intro rest
    induction rest with
    | nil => simp
    | cons i rest ih =>
        rw [List.foldl_cons, List.exists_mem_cons_iff]
        by_cases hnames : NamesMissing missing (lines.getD i [])
        · refine iff_of_true (changed_stays _ _ _ _ _ ?_) (.inl hnames)
          exact (replacePathStep_lines hnames).2
        · rw [replacePathStep_of_not hnames, ih, or_iff_right hnames]
  rw [replaceSSLPath]
  dsimp only
  rw [hloop]
  constructor
  · rintro ⟨i, hi, hnames⟩
    have hlt := List.mem_range.mp hi
    refine ⟨lines.getD i [], ?_, hnames⟩
    rw [getD_of_lt hlt]
    exact List.getElem_mem hlt
  · rintro ⟨line, hline, hnames⟩
    obtain ⟨i, hlt, rfl⟩ := List.getElem_of_mem hline
    refine ⟨i, List.mem_range.mpr hlt, ?_⟩
    rwa [getD_of_lt hlt]

/-! ## Blocks -/

theorem serverLine_le {lines : List Line} {idx first : ℕ} (h : serverLine lines idx = some first) :
    first ≤ idx := by
  induction idx with
  | zero =>
      rw [serverLine] at h
      split_ifs at h
      exact (Option.some.inj h).ge
  | succ i ih =>
      rw [serverLine] at h
      split_ifs at h
      · exact (Option.some.inj h).ge
      · exact Nat.le_succ_of_le (ih h)

theorem closingLine_bounds {idx i last : ℕ} {depth : ℤ} {lines : List Line}
    (h : closingLine idx i depth lines = some last) : idx ≤ last ∧ last < i + lines.length := by
  induction lines generalizing i depth with
  | nil => cases h
  | cons line lines ih =>
      rw [closingLine] at h
      rw [List.length_cons]
      split_ifs at h with hend
      · obtain rfl := Option.some.inj h
        exact ⟨hend.1, by omega⟩
      · have hrest := ih h
        exact ⟨hrest.1, by omega⟩

theorem serverBlockBounds_bounds {lines : List Line} {idx first last : ℕ}
    (hidx : idx < lines.length) (h : serverBlockBounds lines idx = some (first, last)) :
    first ≤ idx ∧ idx ≤ last ∧ last < lines.length := by
  rw [serverBlockBounds] at h
  obtain ⟨start, hstart, hpair⟩ := Option.map_eq_some_iff.mp h
  obtain ⟨rfl, rfl⟩ := Prod.mk.inj hpair
  have hle := serverLine_le hstart
  refine ⟨hle, ?_⟩
  cases hclose : closingLine idx start 0 (lines.drop start) with
  | none => exact ⟨by rw [Option.getD_none]; omega, by rw [Option.getD_none]; omega⟩
  | some last =>
      have hbounds := closingLine_bounds hclose
      rw [List.length_drop] at hbounds
      exact ⟨hbounds.1, by rw [Option.getD_some]; omega⟩

theorem blockLines_split (lines : List Line) {first last : ℕ} (h : first ≤ last) :
    lines.take first ++ blockLines lines first last ++ lines.drop (last + 1) = lines := by
  have hdrop : lines.drop (last + 1) = (lines.drop first).drop (last + 1 - first) := by
    rw [List.drop_drop]
    congr 1
    omega
  rw [blockLines, hdrop, List.append_assoc, List.take_append_drop, List.take_append_drop]

theorem linesBraces_replaceSSLInRange (lines : List Line) {first last : ℕ} (h : first ≤ last)
    (cert key : List Char) :
    linesBraces (replaceSSLInRange lines first last cert key) =
      linesBraces lines - blockLoss lines first last cert key := by
  have hsplit := congrArg linesBraces (blockLines_split lines h)
  rw [linesBraces_append, linesBraces_append] at hsplit
  rw [replaceSSLInRange, blockLoss]
  dsimp only
  split_ifs with hcert
  · rw [linesBraces_insertAfter, linesBraces_append, linesBraces_append]
    simp only [linesBraces, List.map_cons, List.map_nil, List.sum_cons, List.sum_nil] at hsplit ⊢
    have hindent : ∀ line content : Line,
        netBraces (indentOf line ++ content) = netBraces content := netBraces_replaceIndent
    rw [hindent, hindent]
    omega
  · rw [linesBraces_setSSLKeyNear, linesBraces_append, linesBraces_append]
    omega

/-! ## Whole repairs -/

theorem linesBraces_repairMissing {filesExist : Bool} {lines updated : List Line} {lineNum : ℕ}
    {cfg : RepairConfig} {message : List Char}
    (h : repairMissingCertificate filesExist lines lineNum cfg message = some updated) :
    linesBraces updated = linesBraces lines - missingLoss lines (lineNum - 1) cfg message := by
  rw [repairMissingCertificate] at h
  split_ifs at h with hline hfiles
  have hidx : lineNum - 1 < lines.length := by omega
  rw [missingLoss]
  dsimp only at h ⊢
  by_cases hcert : IsCertLine (lines.getD (lineNum - 1) [])
  · rw [if_pos hcert, Option.some.injEq] at h
    have htab : netBraces ('\t' :: certText cfg.defaultCert) =
        netBraces (certText cfg.defaultCert) := @netBraces_indent ['\t'] (by simp) _
    rw [if_pos hcert, ← h, linesBraces_setSSLKeyNear, linesBraces_set hidx, htab]
    omega
  · rw [if_neg hcert] at h ⊢
    simp only [replaceSSLPath_changed_iff] at h
    by_cases hmissing : missingPath message ≠ [] ∧
        ∃ line ∈ lines, NamesMissing (missingPath message) line
    · rw [if_pos hmissing, Option.some.injEq] at h
      rw [if_pos hmissing, ← h]
      exact linesBraces_pathLoop _ _ _ _ _ fun i hi => List.mem_range.mp hi
    · rw [if_neg hmissing] at h ⊢
      obtain ⟨bounds, hbounds, rfl⟩ := Option.map_eq_some_iff.mp h
      rw [hbounds]
      have hle := serverBlockBounds_bounds hidx hbounds
      exact linesBraces_replaceSSLInRange lines (hle.1.trans hle.2.1) _ _

theorem linesBraces_repairUndefined {filesExist : Bool} {lines updated : List Line} {lineNum : ℕ}
    {cfg : RepairConfig} (h : repairUndefinedSSL filesExist lines lineNum cfg = some updated) :
    linesBraces updated = linesBraces lines +
      (netBraces (certText cfg.defaultCert) + netBraces (keyText cfg.defaultKey)) := by
  rw [repairUndefinedSSL] at h
  split_ifs at h with hline
  dsimp only at h
  cases hbounds : serverBlockBounds lines (lineNum - 1) with
  | none => simp [hbounds] at h
  | some bounds =>
      rw [hbounds] at h
      dsimp only at h
      split_ifs at h
      rw [← Option.some.inj h, linesBraces_insertAfter]
      simp only [linesBraces, List.map_cons, List.map_nil, List.sum_cons, List.sum_nil]
      have htab : ∀ text : Line, netBraces ('\t' :: text) = netBraces text :=
        @netBraces_indent ['\t'] (by simp)
      rw [htab, htab, Int.add_zero]

theorem linesBraces_commentOut {lines updated : List Line} {lineNum : ℕ}
    (h : commentOutLine lines lineNum = some updated)
    (hlines : ∀ line ∈ lines, '\n' ∉ line) :
    linesBraces updated = linesBraces lines - netBraces (lines.getD (lineNum - 1) []) := by
  rw [commentOutLine] at h
  split_ifs at h with hline
  dsimp only at h
  split_ifs at h
  have hidx : lineNum - 1 < lines.length := by omega
  set line := lines.getD (lineNum - 1) [] with hdef
  have hmem : '\n' ∉ line := by
    rw [hdef, getD_of_lt hidx]
    exact hlines _ (List.getElem_mem hidx)
  have hcomment : '\n' ∉ "# gosite-repair: ".toList ++ trimSpaceChars line := by
    intro hin
    rcases List.mem_append.mp hin with hin | hin
    · exact absurd hin (by decide)
    · exact hmem ((trimSpaceChars_sublist line).subset hin)
  have hzero : netBraces ("# gosite-repair: ".toList ++ trimSpaceChars line) = 0 := by
    rw [netBraces_line hcomment, activeDelta, if_pos]
    rw [isComment_iff]
    rfl
  have hnew :
      netBraces (indentOf line ++ "# gosite-repair: ".toList ++ trimSpaceChars line) = 0 := by
    rw [List.append_assoc, ← hzero]
    exact netBraces_replaceIndent line _
  rw [← Option.some.inj h, linesBraces_set hidx, hnew, Int.add_zero]

theorem newline_notMem_readLines (text : List Char) : ∀ line ∈ readLines text, '\n' ∉ line :=
  fun _ hline => not_mem_of_mem_splitOn hline

/-- A repair keeps the braces of a balanced text balanced exactly when the lines it
overwrites had as many to spare as those it writes. -/
theorem repair_balanced_iff (e : RepairWeather) (parsed : ParsedNginxError) (cfg : RepairConfig)
    {text new : List Char} (hread : e.readFile (e.target parsed.file) = .ok text)
    (hbalanced : Balanced text) (hwritten : (applyRepair e parsed cfg).written = some new) :
    Balanced new ↔ repairLoss e parsed cfg text = 0 := by
  have hnew : netBraces new = netBraces text - repairLoss e parsed cfg text := by
    rw [applyRepair] at hwritten
    dsimp only at hwritten
    split_ifs at hwritten with hallowed
    rw [hread] at hwritten
    dsimp only at hwritten
    rw [repairLoss]
    cases hkind : repairKind (parsed.message.map e.toLower) with
    | none => simp [hkind] at hwritten
    | some kind =>
        rw [hkind] at hwritten
        dsimp only at hwritten ⊢
        cases hrepair : kind.repair (e.certFilesExist cfg) (readLines text) parsed cfg with
        | none => simp [hrepair] at hwritten
        | some updated =>
            rw [hrepair] at hwritten
            have htext : new = ['\n'].intercalate updated := by
              dsimp only at hwritten
              cases herr : e.writeErr with
              | none =>
                  rw [herr] at hwritten
                  exact (Option.some.inj hwritten).symm
              | some err =>
                  rw [herr] at hwritten
                  exact (Option.some.inj hwritten).symm
            rw [htext, netBraces_join, ← linesBraces_readLines text]
            cases kind with
            | missingCertificate => exact linesBraces_repairMissing hrepair
            | undefinedSSL =>
                rw [linesBraces_repairUndefined hrepair, RepairKind.loss]
                omega
            | invalidDirective =>
                exact linesBraces_commentOut hrepair (newline_notMem_readLines text)
            | duplicateListen =>
                exact linesBraces_commentOut hrepair (newline_notMem_readLines text)
  rw [Balanced] at hbalanced ⊢
  omega

/-- All files are there and can be read and written, and hold the same text. -/
def fairRepair (text : String) : RepairWeather where
  toLower := Char.toLower
  evalSymlinks := some
  cwd := ⟨[], Paths.plain_nil⟩
  readFile _ := .ok text.toList
  stat _ := true
  writeErr := none

def sampleRepair : RepairConfig := ⟨"/d/c".toList, "/d/k".toList, ["/s".toList]⟩

theorem repair_balanced_sample :
    Balanced "server \x7b\n# gosite-repair: x;\n\x7d".toList ↔
      repairLoss (fairRepair "server \x7b\nx;\n\x7d") ⟨"unexpected x".toList, "/s/a".toList, 2⟩
        sampleRepair "server \x7b\nx;\n\x7d".toList = 0 :=
  repair_balanced_iff (fairRepair "server \x7b\nx;\n\x7d")
    ⟨"unexpected x".toList, "/s/a".toList, 2⟩ sampleRepair rfl (by decide) (by decide)

/-- The line of a misspelt block is commented out, and the brace that closes it stays. -/
theorem commented_block_unbalanced :
    Balanced "srv \x7b\n\x7d".toList ∧
      (applyRepair (fairRepair "srv \x7b\n\x7d")
        ⟨"unknown directive \"srv\"".toList, "/s/a".toList, 1⟩ sampleRepair).written =
        some "# gosite-repair: srv \x7b\n\x7d".toList ∧
      ¬ Balanced "# gosite-repair: srv \x7b\n\x7d".toList := by
  refine ⟨by decide, by decide, by decide⟩

end GoSite.Website
