import GoSite.RepairedPairs

/-!
# The order of repaired texts

A repair only ever moves a text forward: it has more lines, or each line that differs is
now a comment, is now set to the default pair, or has lost a carriage return at its end.
This is an order, so a text that a repair has changed never comes back.
-/
namespace GoSite.Website
open GoStrings

/-- The carriage returns at the end of a line. -/
def carriages (line : Line) : ℕ := (line.rtakeWhile (· = '\r')).length

/-- How far the repairs have brought a line: a comment stays one, and a line with the
default pair keeps it. -/
def lineClass (cfg : RepairConfig) (line : Line) : ℕ :=
  if IsComment line then 3
  else if line = '\t' :: certText cfg.defaultCert then 2
  else if IsCertLine line ∧ line = replaceIndent line (certText cfg.defaultCert) ∨
      IsKeyLine line ∧ line = replaceIndent line (keyText cfg.defaultKey) then 1
  else 0

/-- The second line lies beyond the first one. -/
def Beyond (cfg : RepairConfig) (line line' : Line) : Prop :=
  lineClass cfg line < lineClass cfg line' ∨
    lineClass cfg line = lineClass cfg line' ∧ carriages line' < carriages line

/-- The second lines lie beyond the first ones, or are the same. -/
def LinesReach (cfg : RepairConfig) (lines lines' : List Line) : Prop :=
  lines.length < lines'.length ∨ lines.length = lines'.length ∧
    ∀ i, lines'.getD i [] = lines.getD i [] ∨ Beyond cfg (lines.getD i []) (lines'.getD i [])

/-- The second text lies beyond the first one, or is the same. -/
def Reaches (cfg : RepairConfig) (text text' : List Char) : Prop :=
  LinesReach cfg (text.splitOn '\n') (text'.splitOn '\n')

section
variable {cfg : RepairConfig}

theorem Beyond.trans {a b c : Line} (hab : Beyond cfg a b) (hbc : Beyond cfg b c) :
    Beyond cfg a c := by
  unfold Beyond at *
  omega

theorem Beyond.irrefl (a : Line) : ¬ Beyond cfg a a := by
  unfold Beyond
  omega

theorem LinesReach.refl (lines : List Line) : LinesReach cfg lines lines :=
  .inr ⟨rfl, fun _ => .inl rfl⟩

theorem LinesReach.length_le {a b : List Line} (h : LinesReach cfg a b) :
    a.length ≤ b.length := by
  rcases h with h | h
  · exact Nat.le_of_lt h
  · exact Nat.le_of_eq h.1

theorem LinesReach.trans {a b c : List Line} (hab : LinesReach cfg a b)
    (hbc : LinesReach cfg b c) : LinesReach cfg a c := by
  have hab_le := hab.length_le
  have hbc_le := hbc.length_le
  rcases hab with hab | ⟨hab, hlines⟩
  · exact .inl (by omega)
  rcases hbc with hbc | ⟨hbc, hlines'⟩
  · exact .inl (by omega)
  refine .inr ⟨by omega, fun i => ?_⟩
  rcases hlines i with h | h
  · rw [← h]
    exact hlines' i
  rcases hlines' i with h' | h'
  · exact .inr (by rwa [h'])
  · exact .inr (h.trans h')

/-- Lines that lie beyond each other are the same. -/
theorem LinesReach.antisymm {a b : List Line} (hab : LinesReach cfg a b)
    (hba : LinesReach cfg b a) : a = b := by
  have hab_le := hab.length_le
  have hba_le := hba.length_le
  have hsame : ∀ i, a.getD i [] = b.getD i [] := by
    intro i
    rcases hab with hab | ⟨-, hlines⟩
    · omega
    rcases hba with hba | ⟨-, hlines'⟩
    · omega
    rcases hlines i with h | h
    · exact h.symm
    rcases hlines' i with h' | h'
    · exact h'
    · exact absurd (h.trans h') (Beyond.irrefl _)
  refine List.ext_getElem (by omega) fun i hi hi' => ?_
  have hi_same := hsame i
  rwa [getD_of_lt hi, getD_of_lt hi'] at hi_same

theorem Reaches.refl (text : List Char) : Reaches cfg text text := LinesReach.refl _

theorem Reaches.trans {a b c : List Char} (hab : Reaches cfg a b) (hbc : Reaches cfg b c) :
    Reaches cfg a c := LinesReach.trans hab hbc

theorem Reaches.antisymm {a b : List Char} (hab : Reaches cfg a b) (hba : Reaches cfg b a) :
    a = b := by
  have hsame := LinesReach.antisymm hab hba
  have hjoin := congrArg (['\n'].intercalate ·) hsame
  simpa [List.intercalate_splitOn] using hjoin

/-! ## One line -/

theorem isComment_carriage (line : Line) : IsComment (line ++ ['\r']) ↔ IsComment line := by
  rw [isComment_iff, isComment_iff, List.dropWhile_append]
  split_ifs with hempty
  · rw [List.isEmpty_iff.mp hempty]
    simp [isSpace]
  · cases hdrop : line.dropWhile isSpace with
    | nil => simp [hdrop] at hempty
    | cons c cs => rfl

theorem not_isComment_of_on {d : SSLDirective} {line : Line} (h : d.On line) :
    ¬ IsComment line := by
  intro hcomment
  rw [IsComment] at hcomment
  rw [SSLDirective.On] at h
  cases htrim : trimSpaceChars line with
  | nil => simp [htrim] at hcomment
  | cons c cs =>
      rw [htrim, List.head?_cons, Option.some.injEq] at hcomment
      rw [htrim, hcomment, List.takeWhile_cons_of_pos (by decide)] at h
      cases d <;> cases h

theorem not_isComment_of_isCertLine {line : Line} (h : IsCertLine line) : ¬ IsComment line :=
  not_isComment_of_on (on_of_isCertLine h)

theorem not_isComment_of_isKeyLine {line : Line} (h : IsKeyLine line) : ¬ IsComment line :=
  not_isComment_of_on (on_of_isKeyLine h)

theorem last_certText (line : Line) (path : List Char) :
    (line ++ certText path).getLast? = some ';' := by
  simp [certText]

theorem last_keyText (line : Line) (path : List Char) :
    (line ++ keyText path).getLast? = some ';' := by
  simp [keyText]

/-- A line that loses a carriage return at its end lies beyond. -/
theorem beyond_carriage (line : Line) : Beyond cfg (line ++ ['\r']) line := by
  have hruns : carriages line < carriages (line ++ ['\r']) := by
    rw [carriages, carriages, List.rtakeWhile_concat_pos _ _ _ (by decide), List.length_append,
      List.length_singleton]
    exact Nat.lt_succ_self _
  have hlast : (line ++ ['\r']).getLast? = some '\r' := by simp
  have hne : ∀ text : Line, text.getLast? = some ';' → line ++ ['\r'] ≠ text := by
    intro text htext heq
    rw [heq, htext] at hlast
    cases hlast
  have hclass : lineClass cfg (line ++ ['\r']) = if IsComment line then 3 else 0 := by
    rw [lineClass]
    simp only [isComment_carriage]
    split_ifs with hcomment htab hset
    · rfl
    · exact absurd htab (hne _ (last_certText ['\t'] _))
    · rcases hset with hset | hset
      · exact absurd hset.2 (hne _ (last_certText _ _))
      · exact absurd hset.2 (hne _ (last_keyText _ _))
    · rfl
  rw [Beyond, hclass]
  by_cases hcomment : IsComment line
  · rw [if_pos hcomment, lineClass, if_pos hcomment]
    exact .inr ⟨rfl, hruns⟩
  · rw [if_neg hcomment]
    rcases Nat.eq_zero_or_pos (lineClass cfg line) with hzero | hpos
    · exact .inr ⟨hzero.symm, hruns⟩
    · exact .inl hpos

theorem beyond_comment {line line' : Line} (h : ¬ IsComment line) (h' : IsComment line') :
    Beyond cfg line line' := by
  refine .inl ?_
  rw [lineClass, lineClass, if_neg h, if_pos h']
  split_ifs <;> decide

theorem indentOf_replaceIndent (line : Line) {content : Line}
    (h : content.head? = some 's') : indentOf (replaceIndent line content) = indentOf line := by
  have hindent : ∀ c ∈ indentOf line, (decide (c = ' ' ∨ c = '\t')) = true := by
    intro c hc
    exact List.mem_takeWhile_imp (p := fun c => decide (c = ' ' ∨ c = '\t')) hc
  cases content with
  | nil => cases h
  | cons c cs =>
      obtain rfl := Option.some.inj h
      rw [replaceIndent, indentOf, List.takeWhile_append_of_pos hindent,
        List.takeWhile_cons_of_neg (by decide), List.append_nil]

theorem head_certText (path : List Char) : (certText path).head? = some 's' := rfl

theorem head_keyText (path : List Char) : (keyText path).head? = some 's' := rfl

theorem isCertLine_certText (cfg : RepairConfig) (line : Line) :
    IsCertLine (replaceIndent line (certText cfg.defaultCert)) := by
  have htrim := trimSpaceChars_written cfg .cert line
  rw [IsCertLine]
  rw [SSLDirective.text] at htrim
  rw [htrim, certText, List.append_assoc]
  exact List.prefix_append _ _

theorem isKeyLine_keyText (cfg : RepairConfig) (line : Line) :
    IsKeyLine (replaceIndent line (keyText cfg.defaultKey)) := by
  have htrim := trimSpaceChars_written cfg .key line
  rw [IsKeyLine]
  rw [SSLDirective.text] at htrim
  rw [htrim, keyText, List.append_assoc]
  exact List.prefix_append _ _

theorem isCertLine_tab (cfg : RepairConfig) : IsCertLine ('\t' :: certText cfg.defaultCert) :=
  isCertLine_certText cfg ['\t']

/-- A certificate line set to the default where it stands. -/
theorem beyond_cert {line : Line} (h : IsCertLine line) :
    replaceIndent line (certText cfg.defaultCert) = line ∨
      Beyond cfg line (replaceIndent line (certText cfg.defaultCert)) := by
  by_cases hset : line = replaceIndent line (certText cfg.defaultCert)
  · exact .inl hset.symm
  have htab : line ≠ '\t' :: certText cfg.defaultCert := by
    rintro rfl
    exact hset rfl
  refine .inr (.inl ?_)
  have hold : lineClass cfg line = 0 := by
    rw [lineClass, if_neg (not_isComment_of_isCertLine h), if_neg htab, if_neg]
    rintro (⟨-, hsame⟩ | ⟨hkey, -⟩)
    · exact hset hsame
    · exact not_isCertLine_of_isKeyLine hkey h
  have hcert := isCertLine_certText cfg line
  have hindent := indentOf_replaceIndent line (head_certText cfg.defaultCert)
  rw [hold, lineClass, if_neg (not_isComment_of_isCertLine hcert)]
  split_ifs with hfirst hrest
  · decide
  · decide
  · refine absurd (Or.inl ⟨hcert, ?_⟩) hrest
    rw [replaceIndent.eq_1 (replaceIndent line _), hindent, ← replaceIndent]

/-- A certificate line set to the default with a tab before it. -/
theorem beyond_tab {line : Line} (h : IsCertLine line) :
    '\t' :: certText cfg.defaultCert = line ∨
      Beyond cfg line ('\t' :: certText cfg.defaultCert) := by
  by_cases hset : line = '\t' :: certText cfg.defaultCert
  · exact .inl hset.symm
  refine .inr (.inl ?_)
  rw [lineClass, lineClass, if_neg (not_isComment_of_isCertLine h), if_neg hset,
    if_neg (not_isComment_of_isCertLine (isCertLine_tab cfg)), if_pos rfl]
  split_ifs <;> decide

/-- A key line set to the default where it stands. -/
theorem beyond_key {line : Line} (h : IsKeyLine line) :
    replaceIndent line (keyText cfg.defaultKey) = line ∨
      Beyond cfg line (replaceIndent line (keyText cfg.defaultKey)) := by
  by_cases hset : line = replaceIndent line (keyText cfg.defaultKey)
  · exact .inl hset.symm
  refine .inr (.inl ?_)
  have hold : lineClass cfg line = 0 := by
    rw [lineClass, if_neg (not_isComment_of_isKeyLine h), if_neg, if_neg]
    · rintro (⟨hcert, -⟩ | ⟨-, hsame⟩)
      · exact not_isCertLine_of_isKeyLine h hcert
      · exact hset hsame
    · rintro rfl
      exact not_isCertLine_of_isKeyLine h (isCertLine_tab cfg)
  have hkey := isKeyLine_keyText cfg line
  have hindent := indentOf_replaceIndent line (head_keyText cfg.defaultKey)
  rw [hold, lineClass, if_neg (not_isComment_of_isKeyLine hkey)]
  split_ifs with hfirst hrest
  · decide
  · decide
  · refine absurd (Or.inr ⟨hkey, ?_⟩) hrest
    rw [replaceIndent.eq_1 (replaceIndent line _), hindent, ← replaceIndent]

/-! ## The edits -/

theorem linesReach_set {lines : List Line} {i : ℕ} {line : Line}
    (h : line = lines.getD i [] ∨ Beyond cfg (lines.getD i []) line) :
    LinesReach cfg lines (lines.set i line) := by
  by_cases hi : i < lines.length
  · refine .inr ⟨(List.length_set).symm, fun j => ?_⟩
    rw [getD_set _ _ _ _ hi]
    split_ifs with hij
    · rw [← hij]
      exact h
    · exact .inl rfl
  · rw [List.set_eq_of_length_le (by omega)]
    exact .refl lines

theorem lt_insertAfter (lines : List Line) (i : ℕ) {new : List Line} (h : new ≠ []) :
    lines.length < (insertAfter lines i new).length := by
  have hpos := List.length_pos_iff.mpr h
  rw [insertAfter]
  simp only [List.length_append, List.length_take, List.length_drop]
  omega

theorem linesReach_setSSLKeyNear (lines : List Line) (i : ℕ) :
    LinesReach cfg lines (setSSLKeyNear lines i cfg.defaultKey) := by
  rw [setSSLKeyNear]
  cases hnear : keyNear lines i with
  | none => exact .inl (lt_insertAfter lines i (by simp))
  | some j => exact linesReach_set (beyond_key (keyNear_some hnear).2)

theorem linesReach_defaultLines {lines : List Line} {first last : ℕ} (hblock : first ≤ last)
    (hlast : last < lines.length) : LinesReach cfg lines (defaultLines lines cfg first last) := by
  refine .inr ⟨(length_defaultLines cfg hblock hlast).symm, fun i => ?_⟩
  rw [getD_defaultLines cfg hblock hlast, replaceSSLLine]
  split_ifs with hin hcert hkey
  · exact beyond_cert hcert
  · exact beyond_key hkey
  · exact .inl rfl
  · exact .inl rfl

/-- What holds in the loop of `replaceSSLPath`: it goes over the lines it edits, or has put
a line in. -/
def PathLoop.Forward (cfg : RepairConfig) (lines : List Line) (s : PathLoop) : Prop :=
  (s.ranged = s.lines ∧ s.shared = true ∧ LinesReach cfg lines s.lines) ∨
    lines.length < s.lines.length

theorem PathLoop.Forward.linesReach {lines : List Line} {s : PathLoop}
    (h : s.Forward cfg lines) : LinesReach cfg lines s.lines := by
  rcases h with h | h
  · exact h.2.2
  · exact .inl h

theorem PathLoop.Forward.step {lines : List Line} {s : PathLoop} {path : List Char}
    (h : s.Forward cfg lines) (i : ℕ) :
    (replacePathStep path cfg.defaultCert cfg.defaultKey s i).Forward cfg lines := by
  by_cases hnames : NamesMissing path (s.ranged.getD i [])
  · have hlines := (@replacePathStep_lines path cfg.defaultCert cfg.defaultKey s i hnames).1
    rcases h with ⟨hranged, hshared, hreach⟩ | h
    · rw [hranged] at hlines hnames
      set line := replaceIndent (s.lines.getD i []) (certText cfg.defaultCert) with hline
      have hset : LinesReach cfg lines (s.lines.set i line) :=
        hreach.trans (linesReach_set (beyond_cert hnames.2.2))
      cases hnear : keyNear (s.lines.set i line) i with
      | none =>
          refine .inr ?_
          have hle := hset.length_le
          have hlt := lt_insertAfter (s.lines.set i line) i
            (List.cons_ne_nil (replaceIndent ((s.lines.set i line).getD i [])
              (keyText cfg.defaultKey)) [])
          rw [hlines, setSSLKeyNear, hnear]
          exact Nat.lt_of_le_of_lt hle hlt
      | some j =>
          refine .inl ⟨?_, ?_, ?_⟩
          · rw [replacePathStep]
            dsimp only
            rw [hranged, if_pos hnames, hshared, ← hline, hnear]
            rfl
          · rw [replacePathStep]
            dsimp only
            rw [hranged, if_pos hnames, hshared, ← hline, hnear]
            rfl
          · rw [hlines]
            exact hset.trans (linesReach_setSSLKeyNear _ _)
    · refine .inr ?_
      have hgrows := length_le_setSSLKeyNear
        (s.lines.set i (replaceIndent (s.ranged.getD i []) (certText cfg.defaultCert))) i
        cfg.defaultKey
      rw [List.length_set] at hgrows
      rw [hlines]
      exact Nat.lt_of_lt_of_le h hgrows
  · rwa [replacePathStep_of_not hnames]

theorem linesReach_replaceSSLPath (lines : List Line) (path : List Char) :
    LinesReach cfg lines (replaceSSLPath lines path cfg.defaultCert cfg.defaultKey).1 := by
  have hloop : ∀ (rest : List ℕ) (s : PathLoop), s.Forward cfg lines →
      (rest.foldl (replacePathStep path cfg.defaultCert cfg.defaultKey) s).Forward cfg lines := by
    intro rest
    induction rest with
    | nil => exact fun _ h => h
    | cons i rest ih => exact fun s h => ih _ (h.step i)
  exact (hloop _ _ (.inl ⟨rfl, rfl, .refl lines⟩)).linesReach

theorem linesReach_replaceSSLInRange {lines : List Line} {first last : ℕ} (hblock : first ≤ last)
    (hlast : last < lines.length) :
    LinesReach cfg lines
      (replaceSSLInRange lines first last cfg.defaultCert cfg.defaultKey) := by
  rw [replaceSSLInRange]
  dsimp only
  rw [← defaultLines]
  have hset : LinesReach cfg lines (defaultLines lines cfg first last) :=
    linesReach_defaultLines hblock hlast
  split_ifs
  · exact hset.trans (.inl (lt_insertAfter _ _ (by simp)))
  · exact hset.trans (linesReach_setSSLKeyNear _ _)

theorem linesReach_repairMissing {filesExist : Bool} {lines updated : List Line} {lineNum : ℕ}
    {message : List Char}
    (h : repairMissingCertificate filesExist lines lineNum cfg message = some updated) :
    LinesReach cfg lines updated := by
  rw [repairMissingCertificate] at h
  split_ifs at h with hline hfiles
  have hidx : lineNum - 1 < lines.length := by omega
  dsimp only at h
  split_ifs at h with hcert hmissing
  · rw [← Option.some.inj h]
    exact (linesReach_set (beyond_tab hcert)).trans (linesReach_setSSLKeyNear _ _)
  · rw [← Option.some.inj h]
    exact linesReach_replaceSSLPath lines _
  · obtain ⟨bounds, hbounds, rfl⟩ := Option.map_eq_some_iff.mp h
    have hle := serverBlockBounds_bounds hidx hbounds
    exact linesReach_replaceSSLInRange (hle.1.trans hle.2.1) hle.2.2

theorem linesReach_repairUndefined {filesExist : Bool} {lines updated : List Line} {lineNum : ℕ}
    (h : repairUndefinedSSL filesExist lines lineNum cfg = some updated) :
    LinesReach cfg lines updated := by
  rw [repairUndefinedSSL] at h
  split_ifs at h with hline
  dsimp only at h
  cases hbounds : serverBlockBounds lines (lineNum - 1) with
  | none => simp [hbounds] at h
  | some bounds =>
      rw [hbounds] at h
      dsimp only at h
      split_ifs at h
      rw [← Option.some.inj h]
      exact .inl (lt_insertAfter _ _ (by simp))

theorem linesReach_commentOut {lines updated : List Line} {lineNum : ℕ}
    (h : commentOutLine lines lineNum = some updated) : LinesReach cfg lines updated := by
  rw [commentOutLine] at h
  split_ifs at h with hline
  dsimp only at h
  split_ifs at h with hblank
  rw [← Option.some.inj h]
  refine linesReach_set (.inr (beyond_comment (fun hcomment => hblank (.inr hcomment)) ?_))
  set line := lines.getD (lineNum - 1) []
  have htrim := trimSpaceChars_replaceIndent line
    ("# gosite-repair: ".toList ++ trimSpaceChars line)
  rw [List.append_assoc, IsComment, ← replaceIndent, htrim, ← IsComment, isComment_iff]
  rfl

/-- A repair moves the lines it has read forward. -/
theorem linesReach_repair {filesExist : Bool} {lines updated : List Line}
    {parsed : ParsedNginxError} {kind : RepairKind}
    (h : kind.repair filesExist lines parsed cfg = some updated) :
    LinesReach cfg lines updated := by
  cases kind with
  | missingCertificate => exact linesReach_repairMissing h
  | undefinedSSL => exact linesReach_repairUndefined h
  | invalidDirective => exact linesReach_commentOut h
  | duplicateListen => exact linesReach_commentOut h

/-! ## The texts -/

theorem LinesReach.cons {line line' : Line} {lines lines' : List Line}
    (hline : line' = line ∨ Beyond cfg line line') (h : LinesReach cfg lines lines') :
    LinesReach cfg (line :: lines) (line' :: lines') := by
  rcases h with h | ⟨hlength, hlines⟩
  · exact .inl (Nat.succ_lt_succ h)
  refine .inr ⟨congrArg Nat.succ hlength, fun i => ?_⟩
  cases i with
  | zero => exact hline
  | succ i => exact hlines i

/-- Reading a text drops nothing but carriage returns at the ends of its lines. -/
theorem linesReach_unix (a text : List Char) (ha : '\n' ∉ a) :
    LinesReach cfg ((a ++ text).splitOn '\n')
      ((a ++ replaceText ['\r', '\n'] ['\n'] 0 text).splitOn '\n') := by
  induction hn : text.length using Nat.strong_induction_on generalizing a text with
  | _ n ih =>
      subst hn
      cases text with
      | nil =>
          rw [replaceText]
          exact .refl _
      | cons c text =>
          by_cases hpre : ['\r', '\n'] <+: c :: text
          · obtain ⟨rest, hrest⟩ := hpre
            obtain ⟨rfl, rfl⟩ := List.cons.inj hrest
            have hcarriage : '\n' ∉ a ++ ['\r'] := by simpa using ha
            have hih := ih rest.length (show rest.length < rest.length + 1 + 1 by omega) []
              rest (by simp) rfl
            rw [List.nil_append, List.nil_append] at hih
            have hstep : replaceText ['\r', '\n'] ['\n'] 0 ('\r' :: ('\n' :: rest)) =
                '\n' :: replaceText ['\r', '\n'] ['\n'] 0 rest := by
              rw [replaceText, if_pos ⟨rest, rfl⟩]
              rfl
            rw [show (['\n'] : List Char).append rest = '\n' :: rest from rfl]
            rw [hstep, show a ++ '\r' :: '\n' :: rest = (a ++ ['\r']) ++ '\n' :: rest by simp,
              splitOn_append_newline, splitOn_append_newline, splitOn_line hcarriage,
              splitOn_line ha]
            exact hih.cons (.inr (beyond_carriage a))
          · rw [replaceText_cons hpre]
            by_cases hc : c = '\n'
            · subst hc
              have hih := ih text.length (Nat.lt_succ_self _) [] text (by simp) rfl
              rw [List.nil_append, List.nil_append] at hih
              rw [splitOn_append_newline, splitOn_append_newline, splitOn_line ha]
              exact hih.cons (.inl rfl)
            · have hih := ih text.length (Nat.lt_succ_self _) (a ++ [c]) text
                (by simpa [ha] using Ne.symm hc) rfl
              rwa [List.append_assoc, List.append_assoc, List.singleton_append,
                List.singleton_append] at hih

theorem linesReach_readLines (text : List Char) :
    LinesReach cfg (text.splitOn '\n') (readLines text) :=
  linesReach_unix [] text (by simp)

theorem splitOn_join {lines : List Line} (h : lines ≠ []) :
    (['\n'].intercalate lines).splitOn '\n' = lines.flatMap (·.splitOn '\n') := by
  induction lines with
  | nil => exact absurd rfl h
  | cons line lines ih =>
      cases lines with
      | nil => simp
      | cons next lines =>
          rw [List.intercalate_cons_of_ne_nil (List.cons_ne_nil _ _), List.append_assoc,
            List.singleton_append, splitOn_append_newline, ih (List.cons_ne_nil _ _)]
          rfl

theorem length_flatMap_splitOn (lines : List Line) :
    lines.length ≤ (lines.flatMap (·.splitOn '\n')).length ∧
      ((∃ line ∈ lines, '\n' ∈ line) →
        lines.length < (lines.flatMap (·.splitOn '\n')).length) := by
  induction lines with
  | nil => simp
  | cons line lines ih =>
      have hone : 0 < (line.splitOn '\n').length :=
        List.length_pos_iff.mpr (List.splitOn_ne_nil _ _)
      have htwo : '\n' ∈ line → 1 < (line.splitOn '\n').length := by
        intro hmem
        obtain ⟨a, b, rfl, -⟩ := List.eq_append_cons_of_mem hmem
        have ha := List.length_pos_iff.mpr (List.splitOn_ne_nil '\n' a)
        have hb := List.length_pos_iff.mpr (List.splitOn_ne_nil '\n' b)
        rw [splitOn_append_newline, List.length_append]
        omega
      rw [List.flatMap_cons, List.length_append, List.length_cons]
      refine ⟨by omega, ?_⟩
      rintro ⟨other, hother, hmem⟩
      rcases List.mem_cons.mp hother with rfl | hother
      · have := htwo hmem
        omega
      · have := ih.2 ⟨other, hother, hmem⟩
        omega

/-- Lines that are joined come apart into at least as many. -/
theorem linesReach_join {lines : List Line} (h : lines ≠ []) :
    LinesReach cfg lines ((['\n'].intercalate lines).splitOn '\n') := by
  rw [splitOn_join h]
  by_cases hmem : ∃ line ∈ lines, '\n' ∈ line
  · exact .inl ((length_flatMap_splitOn lines).2 hmem)
  · push Not at hmem
    have hsame : lines.flatMap (·.splitOn '\n') = lines := by
      rw [List.flatMap_congr fun line hline => splitOn_line (hmem line hline)]
      exact List.flatMap_singleton' lines
    rw [hsame]
    exact .refl lines

/-- A repair moves the text of a file forward. -/
theorem repair_reaches {filesExist : Bool} {text : List Char} {updated : List Line}
    {parsed : ParsedNginxError} {kind : RepairKind}
    (h : kind.repair filesExist (readLines text) parsed cfg = some updated) :
    Reaches cfg text (['\n'].intercalate updated) := by
  have hreach := (linesReach_readLines text).trans (linesReach_repair h)
  have hne : updated ≠ [] := by
    have hle := hreach.length_le
    have hpos := List.length_pos_iff.mpr (List.splitOn_ne_nil '\n' text)
    exact List.length_pos_iff.mp (Nat.lt_of_lt_of_le hpos hle)
  exact hreach.trans (linesReach_join hne)

/-! ## What is written is not empty -/

/-- Some line is not empty. -/
def SomeText (lines : List Line) : Prop := ∃ line ∈ lines, line ≠ []

theorem SomeText.join_ne_nil {lines : List Line} (h : SomeText lines) :
    ['\n'].intercalate lines ≠ [] := by
  obtain ⟨line, hline, hne⟩ := h
  cases lines with
  | nil => cases hline
  | cons first lines =>
      cases lines with
      | nil =>
          rw [List.mem_singleton.mp hline] at hne
          rwa [List.intercalate_singleton]
      | cons next lines =>
          rw [List.intercalate_cons_of_ne_nil (List.cons_ne_nil _ _)]
          simp

theorem someText_set {lines : List Line} {i : ℕ} (hi : i < lines.length) {line : Line}
    (h : line ≠ []) : SomeText (lines.set i line) :=
  ⟨line, List.mem_set hi line, h⟩

theorem someText_insertAfter (lines : List Line) (i : ℕ) {new : List Line} (h : SomeText new) :
    SomeText (insertAfter lines i new) := by
  obtain ⟨line, hline, hne⟩ := h
  exact ⟨line, mem_insertAfter.mpr (.inr hline), hne⟩

theorem replaceIndent_ne_nil (line : Line) {content : Line} (h : content ≠ []) :
    replaceIndent line content ≠ [] :=
  fun hnil => h (List.append_eq_nil_iff.mp hnil).2

theorem someText_setSSLKeyNear (lines : List Line) (i : ℕ) (key : List Char) :
    SomeText (setSSLKeyNear lines i key) := by
  have hkey : keyText key ≠ [] := List.cons_ne_nil _ _
  rw [setSSLKeyNear]
  cases hnear : keyNear lines i with
  | none =>
      exact someText_insertAfter lines i ⟨_, List.mem_singleton_self _, replaceIndent_ne_nil _ hkey⟩
  | some j => exact someText_set (keyNear_lt hnear) (replaceIndent_ne_nil _ hkey)

theorem someText_replaceSSLPath {lines : List Line} {path cert key : List Char}
    (h : (replaceSSLPath lines path cert key).2 = true) :
    SomeText (replaceSSLPath lines path cert key).1 := by
  have hloop : ∀ (rest : List ℕ) (s : PathLoop), (s.changed = true → SomeText s.lines) →
      (rest.foldl (replacePathStep path cert key) s).changed = true →
      SomeText (rest.foldl (replacePathStep path cert key) s).lines := by
    intro rest
    induction rest with
    | nil => exact fun _ hs => hs
    | cons i rest ih =>
        intro s hs
        refine ih _ fun hchanged => ?_
        by_cases hnames : NamesMissing path (s.ranged.getD i [])
        · rw [(replacePathStep_lines hnames).1]
          exact someText_setSSLKeyNear _ _ _
        · rw [replacePathStep_of_not hnames] at hchanged ⊢
          exact hs hchanged
  exact hloop _ _ (fun hfalse => by cases hfalse) h

theorem someText_repair {filesExist : Bool} {lines updated : List Line}
    {parsed : ParsedNginxError} {kind : RepairKind}
    (h : kind.repair filesExist lines parsed cfg = some updated) : SomeText updated := by
  have hcomment : commentOutLine lines parsed.line = some updated → SomeText updated := by
    intro hout
    rw [commentOutLine] at hout
    split_ifs at hout with hline
    dsimp only at hout
    split_ifs at hout
    rw [← Option.some.inj hout]
    exact someText_set (by omega) (by simp)
  cases kind with
  | missingCertificate =>
      rw [RepairKind.repair, repairMissingCertificate] at h
      split_ifs at h with hline hfiles
      dsimp only at h
      split_ifs at h with hcert hmissing
      · rw [← Option.some.inj h]
        exact someText_setSSLKeyNear _ _ _
      · rw [← Option.some.inj h]
        exact someText_replaceSSLPath hmissing.2
      · obtain ⟨bounds, -, rfl⟩ := Option.map_eq_some_iff.mp h
        rw [replaceSSLInRange]
        dsimp only
        split_ifs
        · refine someText_insertAfter _ _ ⟨_, List.mem_cons_self, ?_⟩
          exact replaceIndent_ne_nil _ (List.cons_ne_nil _ _)
        · exact someText_setSSLKeyNear _ _ _
  | undefinedSSL =>
      rw [RepairKind.repair, repairUndefinedSSL] at h
      split_ifs at h
      dsimp only at h
      cases hbounds : serverBlockBounds lines (parsed.line - 1) with
      | none => simp [hbounds] at h
      | some bounds =>
          rw [hbounds] at h
          dsimp only at h
          split_ifs at h
          rw [← Option.some.inj h]
          exact someText_insertAfter _ _ ⟨_, List.mem_cons_self, List.cons_ne_nil _ _⟩
  | invalidDirective => exact hcomment h
  | duplicateListen => exact hcomment h

end

end GoSite.Website
