import GoSite.PairedBlocks
import GoSite.ServerBlocks

/-!
# The pair a repair leaves in a block

A missing certificate is repaired on the reported line, on the lines that have its path,
or in the block that was found, and a key is looked for a few lines behind. The block of
the reported line has the default pair afterwards when the lines nobody touched have it
already and when no key was put in beside one that stands elsewhere.
-/
namespace GoSite.Website
open GoStrings

/-! ## The edit a repair makes -/

section
variable (lines : List Line) (idx : ℕ) (cfg : RepairConfig) (missing : List Char)

/-- The loop of `replaceSSLPath` when it comes to a line. -/
def pathLoopAt (n : ℕ) : PathLoop :=
  (List.range n).foldl (replacePathStep missing cfg.defaultCert cfg.defaultKey)
    ⟨lines, lines, true, false⟩

/-- The key line found for the certificate on the `n`-th line. -/
def pathKey (n : ℕ) : Option ℕ :=
  let s := pathLoopAt lines cfg missing n
  keyNear (s.lines.set n (replaceIndent (s.ranged.getD n []) (certText cfg.defaultCert))) n

/-- No key line is found for the certificate on the `n`-th line, which has the path. -/
def LacksKey (n : ℕ) : Prop :=
  NamesMissing missing (lines.getD n []) ∧ pathKey lines cfg missing n = none

instance (n : ℕ) : Decidable (LacksKey lines cfg missing n) := by
  unfold LacksKey
  infer_instance

/-- The edit of `repairMissingCertificate` on a certificate line. -/
def lineEdit : PairEdit :=
  let near := keyNear (lines.set idx ('\t' :: certText cfg.defaultCert)) idx
  { sets := fun
      | .cert, i => i = idx
      | .key, i => near = some i
    behind := idx
    puts := if near = none then [.key] else [] }

/-- The edit of `replaceSSLPath`, as long as a key is put in for the last line alone. -/
def pathEdit : PairEdit :=
  let lacking := (List.range lines.length).find? fun n => LacksKey lines cfg missing n
  { sets := fun
      | .cert, i => NamesMissing missing (lines.getD i [])
      | .key, i => ∃ n, NamesMissing missing (lines.getD n []) ∧
          pathKey lines cfg missing n = some i
    behind := lacking.getD 0
    puts := if lacking = none then [] else [.key] }

/-- The lines of a block with the default pair. -/
def defaultLines (first last : ℕ) : List Line :=
  lines.take first ++
    (blockLines lines first last).map (replaceSSLLine cfg.defaultCert cfg.defaultKey) ++
    lines.drop (last + 1)

/-- The edit of `replaceSSLInRange`. -/
def blockEdit (first last : ℕ) : PairEdit :=
  let near := keyNear (defaultLines lines cfg first last) first
  let bare : Prop := ∀ line ∈ blockLines lines first last, ¬ IsCertLine line
  { sets := fun
      | .cert, i => first ≤ i ∧ i ≤ last ∧ IsCertLine (lines.getD i [])
      | .key, i => (first ≤ i ∧ i ≤ last ∧ IsKeyLine (lines.getD i [])) ∨ ¬ bare ∧ near = some i
    behind := first
    puts := if bare then [.cert, .key] else if near = none then [.key] else [] }

/-- The edit of `repairMissingCertificate`. -/
def missingEdit : PairEdit :=
  if IsCertLine (lines.getD idx []) then lineEdit lines idx cfg
  else if missing ≠ [] ∧ ∃ line ∈ lines, NamesMissing missing line then
    pathEdit lines cfg missing
  else
    match serverBlockBounds lines idx with
    | some (first, last) => blockEdit lines cfg first last
    | none => ⟨fun _ _ => False, 0, []⟩

/-- A key is put in and another line with the path follows, which the loop then looks for
in the place it had before. -/
def LosesTrack : Prop :=
  ¬ IsCertLine (lines.getD idx []) ∧ missing ≠ [] ∧
    ∃ m n, m < n ∧ LacksKey lines cfg missing m ∧ NamesMissing missing (lines.getD n [])

/-- Where a line stands after `replaceSSLPath`. -/
def pathPlace (place : ℕ) : ℕ :=
  (List.range lines.length).foldl (fun place n =>
    placeBehind n ((pathLoopAt lines cfg missing (n + 1)).lines.length -
      (pathLoopAt lines cfg missing n).lines.length) place) place

/-- Where a line stands after `repairMissingCertificate`. -/
def missingPlace (updated : List Line) (place : ℕ) : ℕ :=
  if IsCertLine (lines.getD idx []) then placeBehind idx (updated.length - lines.length) place
  else if missing ≠ [] ∧ ∃ line ∈ lines, NamesMissing missing line then
    pathPlace lines cfg missing place
  else
    match serverBlockBounds lines idx with
    | some (first, _) => placeBehind first (updated.length - lines.length) place
    | none => place

end

/-! ## Directives on lines -/

theorem takeWhile_word {word line : List Char} (hword : ∀ c ∈ word, isSpace c = false)
    (h : word ++ [' '] <+: line) : line.takeWhile (!isSpace ·) = word := by
  obtain ⟨rest, rfl⟩ := h
  have hword' : ∀ c ∈ word, (!isSpace c) = true := by
    intro c hc
    rw [hword c hc]
    rfl
  have hspace : (!isSpace ' ') = false := by decide
  rw [List.append_assoc, List.takeWhile_append_of_pos hword', List.singleton_append,
    List.takeWhile_cons_of_neg (by simp [hspace]), List.append_nil]

theorem on_of_isCertLine {line : Line} (h : IsCertLine line) : SSLDirective.cert.On line :=
  takeWhile_word (by decide) h

theorem on_of_isKeyLine {line : Line} (h : IsKeyLine line) : SSLDirective.key.On line :=
  takeWhile_word (by decide) h

theorem not_isCertLine_of_on {line : Line} (h : SSLDirective.key.On line) :
    ¬ IsCertLine line := by
  intro hcert
  cases SSLDirective.on_unique h (on_of_isCertLine hcert)

theorem trimSpaceChars_replaceIndent (line content : Line) :
    trimSpaceChars (replaceIndent line content) = trimSpaceChars content := by
  have hindent : ∀ c ∈ indentOf line, isSpace c = true := by
    intro c hc
    have hchar : c = ' ' ∨ c = '\t' := by simpa using List.mem_takeWhile_imp hc
    rcases hchar with rfl | rfl <;> decide
  rw [replaceIndent, trimSpaceChars, List.dropWhile_append_of_pos hindent, ← trimSpaceChars]

theorem trimSpaceChars_text (cfg : RepairConfig) (d : SSLDirective) :
    trimSpaceChars (d.text cfg) = d.text cfg := by
  cases d with
  | cert => exact trimSpaceChars_directive _ certDirective_head
  | key => exact trimSpaceChars_directive _ keyDirective_head

theorem trimSpaceChars_written (cfg : RepairConfig) (d : SSLDirective) (line : Line) :
    trimSpaceChars (replaceIndent line (d.text cfg)) = d.text cfg := by
  rw [trimSpaceChars_replaceIndent, trimSpaceChars_text]

/-! ## Overwriting one line more -/

section
variable {cfg : RepairConfig} {sets : SSLDirective → ℕ → Prop} {lines updated : List Line}

theorem Overwritten.refl (cfg : RepairConfig) (lines : List Line) :
    Overwritten cfg (fun _ _ => False) lines lines :=
  ⟨rfl, fun _ _ h => h.elim, fun _ _ h => h.elim, fun _ _ => rfl⟩

theorem Overwritten.congr (h : Overwritten cfg sets lines updated)
    {sets' : SSLDirective → ℕ → Prop} (hsets : ∀ d i, sets' d i ↔ sets d i) :
    Overwritten cfg sets' lines updated := by
  have hsame : sets' = sets := by
    funext d i
    exact propext (hsets d i)
  rwa [hsame]

theorem getD_set (xs : List Line) (i j : ℕ) (line : Line) (hi : i < xs.length) :
    (xs.set i line).getD j [] = if i = j then line else xs.getD j [] := by
  rw [List.getD_eq_getElem?_getD, List.getElem?_set, List.getD_eq_getElem?_getD]
  split_ifs with h
  · rfl
  · rfl

/-- One more directive is overwritten. -/
theorem Overwritten.set_line (h : Overwritten cfg sets lines updated) {d : SSLDirective} {i : ℕ}
    {line : Line} (hi : i < lines.length) (hon : d.On (lines.getD i []))
    (hline : trimSpaceChars line = d.text cfg) :
    Overwritten cfg (fun e j => sets e j ∨ e = d ∧ j = i) lines (updated.set i line) := by
  have hi' : i < updated.length := by rwa [h.length]
  refine ⟨by rw [List.length_set, h.length], ?_, ?_, ?_⟩
  · rintro e j (hset | ⟨rfl, rfl⟩)
    · exact h.on e j hset
    · exact hon
  · intro e j hset
    rw [getD_set _ _ _ _ hi']
    split_ifs with heq
    · subst heq
      rcases hset with hset | ⟨rfl, -⟩
      · rw [hline, SSLDirective.on_unique hon (h.on e i hset)]
      · exact hline
    · rcases hset with hset | ⟨-, hj⟩
      · exact h.set e j hset
      · exact absurd hj.symm heq
  · intro j hnone
    rw [getD_set _ _ _ _ hi', if_neg]
    · exact h.kept j fun e he => hnone e (.inl he)
    · intro heq
      exact hnone d (.inr ⟨rfl, heq.symm⟩)

end

theorem keyNear_some {lines : List Line} {i j : ℕ} (h : keyNear lines i = some j) :
    j < lines.length ∧ IsKeyLine (lines.getD j []) := by
  unfold keyNear at h
  simpa using List.find?_some h

/-- The key behind a certificate line is set, or put in where there is none. -/
theorem makes_setSSLKeyNear {cfg : RepairConfig} {sets : SSLDirective → ℕ → Prop}
    {lines updated : List Line} (h : Overwritten cfg sets lines updated) {i : ℕ} {e : PairEdit}
    (hsets : ∀ d j, e.sets d j ↔ sets d j ∨ d = .key ∧ keyNear updated i = some j)
    (hbehind : keyNear updated i = none → e.behind = i) (hinside : e.behind < lines.length)
    (hputs : e.puts = if keyNear updated i = none then [.key] else []) :
    e.Makes cfg lines (setSSLKeyNear updated i cfg.defaultKey) := by
  refine ⟨hinside, ?_⟩
  rw [setSSLKeyNear]
  cases hnear : keyNear updated i with
  | none =>
      dsimp only
      rw [if_pos hnear] at hputs
      refine ⟨updated, [replaceIndent (updated.getD i []) (keyText cfg.defaultKey)],
        h.congr fun d j => ?_, ?_, ?_⟩
      · rw [hsets, hnear]
        simp
      · have hwritten := trimSpaceChars_written cfg .key (updated.getD i [])
        rw [hputs, List.map_singleton, List.map_singleton, ← hwritten]
        rfl
      · rw [hbehind hnear]
  | some j =>
      dsimp only
      obtain ⟨hj, hkey⟩ := keyNear_some hnear
      have hj' : j < lines.length := by rwa [← h.length]
      have hon := (h.on_iff .key j).mp (on_of_isKeyLine hkey)
      rw [if_neg (by simp [hnear])] at hputs
      refine ⟨updated.set j (replaceIndent (updated.getD j []) (keyText cfg.defaultKey)), [],
        (h.set_line hj' hon (trimSpaceChars_written cfg .key _)).congr fun d k => ?_, ?_, ?_⟩
      · rw [hsets, hnear, Option.some.injEq, eq_comm (a := j)]
      · rw [hputs]
        rfl
      · rw [insertAfter, List.append_nil, List.take_append_drop]

theorem placeBehind_zero (behind place : ℕ) : placeBehind behind 0 place = place := by
  simp [placeBehind]

/-! ## The loop over the lines with the path -/

section
variable {lines : List Line} {cfg : RepairConfig} {missing : List Char}

theorem pathLoopAt_succ (n : ℕ) :
    pathLoopAt lines cfg missing (n + 1) =
      replacePathStep missing cfg.defaultCert cfg.defaultKey (pathLoopAt lines cfg missing n)
        n := by
  rw [pathLoopAt, List.range_succ, List.foldl_append]
  rfl

/-- The lines the loop has set when it comes to the `n`-th one. -/
def pathSets (lines : List Line) (cfg : RepairConfig) (missing : List Char) (n : ℕ) :
    SSLDirective → ℕ → Prop
  | .cert, i => i < n ∧ NamesMissing missing (lines.getD i [])
  | .key, i => ∃ m < n, NamesMissing missing (lines.getD m []) ∧
      pathKey lines cfg missing m = some i

/-- No line with the path comes behind one that lacks its key. -/
def KeepsTrack (lines : List Line) (cfg : RepairConfig) (missing : List Char) : Prop :=
  ∀ m n, LacksKey lines cfg missing m → NamesMissing missing (lines.getD n []) → n ≤ m

/-- The loop when it comes to the `n`-th line: the lines it goes over are the first ones
with some overwritten, and one key was put in at most. -/
structure PathLoop.Fits (s : PathLoop) (lines : List Line) (cfg : RepairConfig)
    (missing : List Char) (n : ℕ) : Prop where
  ranged : Overwritten cfg (pathSets lines cfg missing n) lines s.ranged
  lines : (s.shared = true ∧ s.lines = s.ranged ∧ ∀ m < n, ¬ LacksKey lines cfg missing m) ∨
    (s.shared = false ∧ ∃ m < n, LacksKey lines cfg missing m ∧
      s.lines = insertAfter s.ranged m
        [replaceIndent (s.ranged.getD m []) (keyText cfg.defaultKey)])

theorem pathSets_of_not {n : ℕ} (h : ¬ NamesMissing missing (lines.getD n [])) (d : SSLDirective)
    (i : ℕ) : pathSets lines cfg missing (n + 1) d i ↔ pathSets lines cfg missing n d i := by
  cases d with
  | cert =>
      constructor
      · rintro ⟨hi, hnames⟩
        refine ⟨Nat.lt_of_le_of_ne (Nat.le_of_lt_succ hi) ?_, hnames⟩
        rintro rfl
        exact h hnames
      · rintro ⟨hi, hnames⟩
        exact ⟨Nat.lt_succ_of_lt hi, hnames⟩
  | key =>
      constructor
      · rintro ⟨m, hm, hnames, hkey⟩
        refine ⟨m, Nat.lt_of_le_of_ne (Nat.le_of_lt_succ hm) ?_, hnames, hkey⟩
        rintro rfl
        exact h hnames
      · rintro ⟨m, hm, hnames, hkey⟩
        exact ⟨m, Nat.lt_succ_of_lt hm, hnames, hkey⟩

theorem pathSets_succ {n : ℕ} (h : NamesMissing missing (lines.getD n [])) (d : SSLDirective)
    (i : ℕ) :
    pathSets lines cfg missing (n + 1) d i ↔
      (pathSets lines cfg missing n d i ∨ d = .cert ∧ i = n) ∨
        d = .key ∧ pathKey lines cfg missing n = some i := by
  cases d with
  | cert =>
      simp only [pathSets, true_and, reduceCtorEq, false_and, or_false]
      constructor
      · rintro ⟨hi, hnames⟩
        rcases Nat.lt_succ_iff_lt_or_eq.mp hi with hi | hi
        · exact .inl ⟨hi, hnames⟩
        · exact .inr hi
      · rintro (⟨hi, hnames⟩ | rfl)
        · exact ⟨Nat.lt_succ_of_lt hi, hnames⟩
        · exact ⟨Nat.lt_succ_self _, h⟩
  | key =>
      simp only [pathSets, true_and, reduceCtorEq, false_and, or_false]
      constructor
      · rintro ⟨m, hm, hnames, hkey⟩
        rcases Nat.lt_succ_iff_lt_or_eq.mp hm with hm | rfl
        · exact .inl ⟨m, hm, hnames, hkey⟩
        · exact .inr hkey
      · rintro (⟨m, hm, hnames, hkey⟩ | hkey)
        · exact ⟨m, Nat.lt_succ_of_lt hm, hnames, hkey⟩
        · exact ⟨n, Nat.lt_succ_self _, h, hkey⟩

/-- The line the loop comes to has the path if it had it at the beginning. -/
theorem PathLoop.Fits.names_iff {s : PathLoop} {n : ℕ} (h : s.Fits lines cfg missing n) :
    NamesMissing missing (s.ranged.getD n []) ↔ NamesMissing missing (lines.getD n []) := by
  by_cases hkey : pathSets lines cfg missing n .key n
  · have hold := h.ranged.on .key n hkey
    have hnew := (h.ranged.on_iff .key n).mpr hold
    exact iff_of_false (fun hnames => not_isCertLine_of_on hnew hnames.2.2)
      fun hnames => not_isCertLine_of_on hold hnames.2.2
  · rw [h.ranged.kept n]
    rintro (_ | _) hset
    · exact absurd hset.1 (Nat.lt_irrefl n)
    · exact hkey hset

theorem PathLoop.Fits.step {n : ℕ} (hn : n < lines.length) (htrack : KeepsTrack lines cfg missing)
    (h : (pathLoopAt lines cfg missing n).Fits lines cfg missing n) :
    (pathLoopAt lines cfg missing (n + 1)).Fits lines cfg missing (n + 1) := by
  have hiff := h.names_iff
  rw [pathLoopAt_succ]
  by_cases hnames : NamesMissing missing (lines.getD n [])
  · have hranged := hiff.mpr hnames
    obtain ⟨hover, ⟨hshared, hlines, hnone⟩ | ⟨-, m, hm, hlacks, -⟩⟩ := h
    · have hset := hover.set_line hn (on_of_isCertLine hnames.2.2)
        (trimSpaceChars_written cfg .cert
          ((pathLoopAt lines cfg missing n).ranged.getD n []))
      have hpath : pathKey lines cfg missing n =
          keyNear ((pathLoopAt lines cfg missing n).ranged.set n
            (replaceIndent ((pathLoopAt lines cfg missing n).ranged.getD n [])
              (certText cfg.defaultCert))) n := by
        rw [pathKey, hlines]
      generalize pathLoopAt lines cfg missing n = s at *
      rw [replacePathStep]
      dsimp only
      rw [if_pos hranged, hshared, if_pos rfl, hlines, ← hpath, Bool.true_and, setSSLKeyNear,
        ← hpath]
      cases hnear : pathKey lines cfg missing n with
      | none =>
          refine ⟨?_, .inr ⟨rfl, n, Nat.lt_succ_self n, ⟨hnames, hnear⟩, ?_⟩⟩
          · refine hset.congr fun d i => ?_
            rw [pathSets_succ hnames, hnear]
            simp
          · rfl
      | some k =>
          rw [hpath] at hnear
          obtain ⟨hk, hkeyline⟩ := keyNear_some hnear
          rw [List.length_set, hover.length] at hk
          have hon := (hset.on_iff .key k).mp (on_of_isKeyLine hkeyline)
          have hset' := hset.set_line hk hon (trimSpaceChars_written cfg .key
            ((s.ranged.set n (replaceIndent (s.ranged.getD n [])
              (certText cfg.defaultCert))).getD k []))
          refine ⟨hset'.congr fun d i => ?_, .inl ⟨rfl, rfl, fun m hm => ?_⟩⟩
          · rw [pathSets_succ hnames, hpath, hnear, Option.some.injEq, eq_comm (a := k)]
          · rcases Nat.lt_succ_iff_lt_or_eq.mp hm with hm | rfl
            · exact hnone m hm
            · intro hlacks
              have hfree := hlacks.2
              rw [hpath, hnear] at hfree
              cases hfree
    · exact absurd (htrack m n hlacks hnames) (Nat.not_le_of_lt hm)
  · have hstep := @replacePathStep_of_not missing cfg.defaultCert cfg.defaultKey
      (pathLoopAt lines cfg missing n) n (fun hranged => hnames (hiff.mp hranged))
    rw [hstep]
    obtain ⟨hover, hlines⟩ := h
    refine ⟨hover.congr (pathSets_of_not hnames), ?_⟩
    rcases hlines with ⟨hshared, hlines, hnone⟩ | ⟨hshared, m, hm, hlacks, hlines⟩
    · refine .inl ⟨hshared, hlines, fun m hm => ?_⟩
      rcases Nat.lt_succ_iff_lt_or_eq.mp hm with hm | rfl
      · exact hnone m hm
      · exact fun hlacks => hnames hlacks.1
    · exact .inr ⟨hshared, m, Nat.lt_succ_of_lt hm, hlacks, hlines⟩

theorem fits_pathLoopAt (htrack : KeepsTrack lines cfg missing) {n : ℕ} (hn : n ≤ lines.length) :
    (pathLoopAt lines cfg missing n).Fits lines cfg missing n := by
  induction n with
  | zero =>
      refine ⟨(Overwritten.refl cfg lines).congr fun d i => ?_,
        .inl ⟨rfl, rfl, fun m hm => (Nat.not_lt_zero m hm).elim⟩⟩
      refine iff_of_false ?_ id
      cases d with
      | cert => exact fun h => Nat.not_lt_zero i h.1
      | key => exact fun ⟨m, hm, _⟩ => Nat.not_lt_zero m hm
  | succ n ih => exact (ih (Nat.le_of_succ_le hn)).step hn htrack

theorem lt_of_namesMissing {n : ℕ} (h : NamesMissing missing (lines.getD n [])) :
    n < lines.length := by
  by_contra hn
  have hcert := h.2.2
  rw [List.getD_eq_getElem?_getD, List.getElem?_eq_none (Nat.le_of_not_lt hn)] at hcert
  exact absurd hcert (by decide)

theorem LacksKey.lt {n : ℕ} (h : LacksKey lines cfg missing n) : n < lines.length :=
  lt_of_namesMissing h.1

theorem lacking_unique (htrack : KeepsTrack lines cfg missing) {m n : ℕ}
    (hm : LacksKey lines cfg missing m) (hn : LacksKey lines cfg missing n) : m = n :=
  Nat.le_antisymm (htrack n m hn hm.1) (htrack m n hm hn.1)

theorem length_pathLoopAt (htrack : KeepsTrack lines cfg missing) {n : ℕ} (hn : n ≤ lines.length) :
    ((∃ m < n, LacksKey lines cfg missing m) ∧
        (pathLoopAt lines cfg missing n).lines.length = lines.length + 1) ∨
      ((∀ m < n, ¬ LacksKey lines cfg missing m) ∧
        (pathLoopAt lines cfg missing n).lines.length = lines.length) := by
  obtain ⟨hover, ⟨-, hlines, hnone⟩ | ⟨-, m, hm, hlacks, hlines⟩⟩ := fits_pathLoopAt htrack hn
  · exact .inr ⟨hnone, by rw [hlines, hover.length]⟩
  · refine .inl ⟨⟨m, hm, hlacks⟩, ?_⟩
    rw [hlines, length_insertAfter _ (by rw [hover.length]; exact hlacks.lt), hover.length]
    rfl

theorem find?_lacking (htrack : KeepsTrack lines cfg missing) {m : ℕ}
    (hm : LacksKey lines cfg missing m) :
    (List.range lines.length).find? (fun n => LacksKey lines cfg missing n) = some m := by
  cases hfind : (List.range lines.length).find? fun n => LacksKey lines cfg missing n with
  | none =>
      have hnone := List.find?_eq_none.mp hfind m (List.mem_range.mpr hm.lt)
      simp [hm] at hnone
  | some n =>
      have hn : LacksKey lines cfg missing n := by simpa using List.find?_some hfind
      rw [lacking_unique htrack hm hn]

theorem find?_not_lacking (hnone : ∀ m, ¬ LacksKey lines cfg missing m) :
    (List.range lines.length).find? (fun n => LacksKey lines cfg missing n) = none := by
  refine List.find?_eq_none.mpr fun m _ => ?_
  simpa using hnone m

/-- What the whole loop makes of the lines. -/
theorem makes_replaceSSLPath (htrack : KeepsTrack lines cfg missing) (hne : 0 < lines.length) :
    (pathEdit lines cfg missing).Makes cfg lines
      (replaceSSLPath lines missing cfg.defaultCert cfg.defaultKey).1 := by
  have hfits := fits_pathLoopAt htrack (Nat.le_refl lines.length)
  have hresult : (replaceSSLPath lines missing cfg.defaultCert cfg.defaultKey).1 =
      (pathLoopAt lines cfg missing lines.length).lines := rfl
  rw [hresult]
  have hsets : ∀ d i, (pathEdit lines cfg missing).sets d i ↔
      pathSets lines cfg missing lines.length d i := by
    intro d i
    cases d with
    | cert => exact ⟨fun h => ⟨lt_of_namesMissing h, h⟩, fun h => h.2⟩
    | key =>
        constructor
        · rintro ⟨n, hnames, hkey⟩
          exact ⟨n, lt_of_namesMissing hnames, hnames, hkey⟩
        · rintro ⟨n, -, hnames, hkey⟩
          exact ⟨n, hnames, hkey⟩
  obtain ⟨hover, ⟨-, hlines, hnone⟩ | ⟨-, m, -, hlacks, hlines⟩⟩ := hfits
  · have hfind := find?_not_lacking fun m hm => hnone m hm.lt hm
    refine ⟨by simp only [pathEdit, hfind, Option.getD_none]; exact hne,
      _, [], hover.congr hsets, ?_, ?_⟩
    · simp [pathEdit, hfind]
    · rw [hlines, insertAfter, List.append_nil, List.take_append_drop]
  · have hfind := find?_lacking htrack hlacks
    refine ⟨by simp only [pathEdit, hfind, Option.getD_some]; exact hlacks.lt,
      _, [replaceIndent ((pathLoopAt lines cfg missing lines.length).ranged.getD m [])
        (keyText cfg.defaultKey)], hover.congr hsets, ?_, ?_⟩
    · rw [pathEdit]
      dsimp only
      rw [if_neg (by simp [hfind]), List.map_singleton, List.map_singleton,
        ← trimSpaceChars_written cfg .key]
      rfl
    · simp only [pathEdit, hfind, Option.getD_some]
      exact hlines

/-- Only the turn that puts a key in moves the lines. -/
theorem pathPlace_eq (htrack : KeepsTrack lines cfg missing) (place : ℕ) :
    pathPlace lines cfg missing place =
      placeBehind (pathEdit lines cfg missing).behind (pathEdit lines cfg missing).puts.length
        place := by
  have hbehind : ∀ m, LacksKey lines cfg missing m → (pathEdit lines cfg missing).behind = m := by
    intro m hm
    simp [pathEdit, find?_lacking htrack hm]
  have hloop : ∀ n ≤ lines.length,
      (List.range n).foldl (fun place k =>
        placeBehind k ((pathLoopAt lines cfg missing (k + 1)).lines.length -
          (pathLoopAt lines cfg missing k).lines.length) place) place =
        if ∃ m < n, LacksKey lines cfg missing m then
          placeBehind (pathEdit lines cfg missing).behind 1 place
        else place := by
    intro n hn
    induction n with
    | zero => simp
    | succ n ih =>
        rw [List.range_succ, List.foldl_append, List.foldl_cons, List.foldl_nil,
          ih (Nat.le_of_succ_le hn)]
        rcases length_pathLoopAt htrack hn with ⟨⟨m, hm, hlacks⟩, hlen⟩ | ⟨hnone, hlen⟩
        · have hsucc : ∃ k < n + 1, LacksKey lines cfg missing k := ⟨m, hm, hlacks⟩
          rw [hlen, if_pos hsucc]
          rcases length_pathLoopAt htrack (Nat.le_of_succ_le hn) with ⟨hsome, hlen⟩ | ⟨hnone, hlen⟩
          · rw [hlen, if_pos hsome, Nat.sub_self, placeBehind_zero]
          · obtain rfl : n = m := by
              by_contra hne
              exact hnone m (by omega) hlacks
            rw [hlen, if_neg (fun ⟨m, hm, hlacks⟩ => hnone m hm hlacks),
              Nat.add_sub_cancel_left, hbehind n hlacks]
        · have hnone' : ∀ m < n, ¬ LacksKey lines cfg missing m := fun m hm =>
            hnone m (Nat.lt_succ_of_lt hm)
          rcases length_pathLoopAt htrack (Nat.le_of_succ_le hn) with
            ⟨⟨m, hm, hlacks⟩, -⟩ | ⟨-, hlen'⟩
          · exact absurd hlacks (hnone' m hm)
          · rw [hlen, hlen', Nat.sub_self, placeBehind_zero,
              if_neg (fun ⟨m, hm, hlacks⟩ => hnone' m hm hlacks),
              if_neg (fun ⟨m, hm, hlacks⟩ => hnone m hm hlacks)]
  rw [pathPlace, hloop _ le_rfl]
  split_ifs with hsome
  · obtain ⟨m, -, hlacks⟩ := hsome
    have hfind := find?_lacking htrack hlacks
    simp [pathEdit, hfind]
  · have hfind := find?_not_lacking fun m hm => hsome ⟨m, hm.lt, hm⟩
    simp [pathEdit, hfind, placeBehind_zero]

end

/-! ## Whole repairs -/

/-- The repair of the reported line. -/
theorem makes_lineEdit {lines : List Line} {idx : ℕ} (cfg : RepairConfig)
    (hidx : idx < lines.length) (hcert : IsCertLine (lines.getD idx [])) :
    (lineEdit lines idx cfg).Makes cfg lines
      (setSSLKeyNear (lines.set idx ('\t' :: certText cfg.defaultCert)) idx cfg.defaultKey) := by
  have htab : '\t' :: certText cfg.defaultCert = replaceIndent ['\t'] (certText cfg.defaultCert) :=
    rfl
  have hset := (Overwritten.refl cfg lines).set_line hidx (on_of_isCertLine hcert)
    (trimSpaceChars_written cfg .cert ['\t'])
  refine makes_setSSLKeyNear hset (fun d j => ?_) (fun _ => rfl) hidx rfl
  cases d with
  | cert => simp [lineEdit]
  | key =>
      rw [lineEdit, htab]
      simp [SSLDirective.text]

theorem getD_defaultLines {lines : List Line} (cfg : RepairConfig) {first last : ℕ}
    (hblock : first ≤ last) (hlast : last < lines.length) (i : ℕ) :
    (defaultLines lines cfg first last).getD i [] =
      if first ≤ i ∧ i ≤ last then
        replaceSSLLine cfg.defaultCert cfg.defaultKey (lines.getD i [])
      else lines.getD i [] := by
  have hmiddle := @length_blockLines lines first last hlast
  have hfront : (lines.take first).length = first := by
    rw [List.length_take]
    omega
  simp only [List.getD_eq_getElem?_getD, defaultLines]
  by_cases hbefore : i < first
  · rw [if_neg (by omega), List.append_assoc, List.getElem?_append_left (by omega),
      List.getElem?_take_of_lt hbefore]
  · by_cases hin : i ≤ last
    · have hget := @getD_blockLines lines first last (i - first) (by omega)
      rw [List.getD_eq_getElem?_getD, List.getD_eq_getElem?_getD,
        show first + (i - first) = i by omega] at hget
      rw [if_pos ⟨by omega, hin⟩, List.append_assoc, List.getElem?_append_right (by omega),
        hfront, List.getElem?_append_left (by rw [List.length_map]; omega), List.getElem?_map,
        ← hget]
      have hsome : i - first < (blockLines lines first last).length := by omega
      rw [List.getElem?_eq_getElem hsome]
      rfl
    · have hlen : (lines.take first ++ (blockLines lines first last).map
          (replaceSSLLine cfg.defaultCert cfg.defaultKey)).length = last + 1 := by
        rw [List.length_append, List.length_map]
        omega
      rw [if_neg (by omega), List.getElem?_append_right (by omega), hlen, List.getElem?_drop,
        show last + 1 + (i - (last + 1)) = i by omega]

theorem length_defaultLines {lines : List Line} (cfg : RepairConfig) {first last : ℕ}
    (hblock : first ≤ last) (hlast : last < lines.length) :
    (defaultLines lines cfg first last).length = lines.length := by
  have hmiddle := @length_blockLines lines first last hlast
  rw [defaultLines, List.length_append, List.length_append, List.length_map, hmiddle,
    List.length_take, List.length_drop]
  omega

theorem overwritten_defaultLines {lines : List Line} (cfg : RepairConfig) {first last : ℕ}
    (hblock : first ≤ last) (hlast : last < lines.length) :
    Overwritten cfg (fun d i => first ≤ i ∧ i ≤ last ∧
        match d with
        | .cert => IsCertLine (lines.getD i [])
        | .key => IsKeyLine (lines.getD i [])) lines (defaultLines lines cfg first last) := by
  refine ⟨length_defaultLines cfg hblock hlast, ?_, ?_, ?_⟩
  · rintro (_ | _) i ⟨-, -, hline⟩
    · exact on_of_isCertLine hline
    · exact on_of_isKeyLine hline
  · rintro (_ | _) i ⟨hfirst, hi, hline⟩
    · rw [getD_defaultLines cfg hblock hlast, if_pos ⟨hfirst, hi⟩, replaceSSLLine, if_pos hline]
      exact trimSpaceChars_written cfg .cert _
    · rw [getD_defaultLines cfg hblock hlast, if_pos ⟨hfirst, hi⟩, replaceSSLLine,
        if_neg (not_isCertLine_of_isKeyLine hline), if_pos hline]
      exact trimSpaceChars_written cfg .key _
  · intro i hnone
    rw [getD_defaultLines cfg hblock hlast]
    split_ifs with hin
    · rw [replaceSSLLine, if_neg fun hline => hnone .cert ⟨hin.1, hin.2, hline⟩,
        if_neg fun hline => hnone .key ⟨hin.1, hin.2, hline⟩]
    · rfl

/-- The repair of the block that was found. -/
theorem makes_blockEdit {lines : List Line} (cfg : RepairConfig) {first last : ℕ}
    (hblock : first ≤ last) (hlast : last < lines.length) :
    (blockEdit lines cfg first last).Makes cfg lines
      (replaceSSLInRange lines first last cfg.defaultCert cfg.defaultKey) := by
  have hover := overwritten_defaultLines cfg hblock hlast
  have hfirst : first < lines.length := Nat.lt_of_le_of_lt hblock hlast
  have hkey : ∀ i, (blockEdit lines cfg first last).sets .key i ↔
      (first ≤ i ∧ i ≤ last ∧ IsKeyLine (lines.getD i [])) ∨
        ¬ (∀ line ∈ blockLines lines first last, ¬ IsCertLine line) ∧
          keyNear (defaultLines lines cfg first last) first = some i := fun _ => Iff.rfl
  rw [replaceSSLInRange]
  dsimp only
  rw [← defaultLines]
  split_ifs with hbare
  · refine ⟨hfirst, _, [replaceIndent ((defaultLines lines cfg first last).getD first [])
        (certText cfg.defaultCert),
      replaceIndent ((defaultLines lines cfg first last).getD first []) (keyText cfg.defaultKey)],
      hover.congr fun d i => ?_, ?_, rfl⟩
    · cases d with
      | cert => rfl
      | key => exact ⟨fun h => h.resolve_right fun hnear => hnear.1 hbare, .inl⟩
    · rw [blockEdit]
      dsimp only
      rw [if_pos hbare]
      simp only [List.map_cons, List.map_nil]
      generalize (defaultLines lines cfg first last).getD first [] = line
      rw [← trimSpaceChars_written cfg .cert line, ← trimSpaceChars_written cfg .key line]
      rfl
  · refine makes_setSSLKeyNear hover (fun d i => ?_) (fun _ => rfl) hfirst ?_
    · cases d with
      | cert => simp [blockEdit]
      | key =>
          rw [hkey, and_iff_right hbare]
          simp
    · rw [blockEdit]
      dsimp only
      rw [if_neg hbare]

theorem PairEdit.Makes.length {e : PairEdit} {cfg : RepairConfig} {lines updated : List Line}
    (h : e.Makes cfg lines updated) : updated.length = lines.length + e.puts.length := by
  obtain ⟨hinside, set, new, hset, hnew, rfl⟩ := h
  have hlength : new.length = e.puts.length := by
    simpa using congrArg List.length hnew
  rw [length_insertAfter new (by rwa [hset.length]), hset.length, hlength]

/-- What a repair makes of the lines, and where it leaves them. -/
theorem makes_missingEdit {filesExist : Bool} {lines updated : List Line} {lineNum : ℕ}
    {cfg : RepairConfig} {message : List Char}
    (h : repairMissingCertificate filesExist lines lineNum cfg message = some updated)
    (htrack : ¬ LosesTrack lines (lineNum - 1) cfg (missingPath message)) :
    let edit := missingEdit lines (lineNum - 1) cfg (missingPath message)
    edit.Makes cfg lines updated ∧
      missingPlace lines (lineNum - 1) cfg (missingPath message) updated =
        placeBehind edit.behind edit.puts.length := by
  rw [repairMissingCertificate] at h
  split_ifs at h with hline hfiles
  have hidx : lineNum - 1 < lines.length := by omega
  dsimp only at h ⊢
  by_cases hcert : IsCertLine (lines.getD (lineNum - 1) [])
  · rw [if_pos hcert, Option.some.injEq] at h
    have hmakes := makes_lineEdit cfg hidx hcert
    rw [h] at hmakes
    rw [missingEdit, if_pos hcert]
    refine ⟨hmakes, funext fun place => ?_⟩
    rw [missingPlace, if_pos hcert, hmakes.length, Nat.add_sub_cancel_left]
    rfl
  · rw [if_neg hcert] at h
    rw [missingEdit, if_neg hcert]
    simp only [replaceSSLPath_changed_iff] at h
    by_cases hmissing : missingPath message ≠ [] ∧
        ∃ line ∈ lines, NamesMissing (missingPath message) line
    · have hkeeps : KeepsTrack lines cfg (missingPath message) := by
        intro m n hm hn
        by_contra hlt
        exact htrack ⟨hcert, hmissing.1, m, n, Nat.lt_of_not_le hlt, hm, hn⟩
      have hmakes := makes_replaceSSLPath hkeeps (Nat.zero_lt_of_lt hidx)
      rw [if_pos hmissing, Option.some.injEq] at h
      rw [h] at hmakes
      rw [if_pos hmissing]
      refine ⟨hmakes, funext fun place => ?_⟩
      rw [missingPlace, if_neg hcert, if_pos hmissing, pathPlace_eq hkeeps]
    · rw [if_neg hmissing] at h ⊢
      obtain ⟨⟨first, last⟩, hbounds, rfl⟩ := Option.map_eq_some_iff.mp h
      have hle := serverBlockBounds_bounds hidx hbounds
      have hmakes := makes_blockEdit cfg (hle.1.trans hle.2.1) hle.2.2
      rw [hbounds]
      refine ⟨hmakes, funext fun place => ?_⟩
      rw [missingPlace, if_neg hcert, if_neg hmissing, hbounds]
      dsimp only
      rw [hmakes.length, Nat.add_sub_cancel_left]
      rfl

/-- What is needed for the pair: no second certificate line with the path follows one
without a key, and the repair completes the block. -/
def RepairCompletes (lines : List Line) (idx : ℕ) (cfg : RepairConfig) (missing : List Char)
    (first last : ℕ) : Prop :=
  ¬ LosesTrack lines idx cfg missing ∧
    (missingEdit lines idx cfg missing).Completes cfg lines first last

/-- The server block around the reported line has the default pair after a repair that
completes it, and only then unless the loop over the lines lost its place. -/
theorem repaired_block_paired (text : List Char) {filesExist : Bool} {updated : List Line}
    {lineNum first last : ℕ} {cfg : RepairConfig} {message : List Char}
    (h : repairMissingCertificate filesExist (linesOf text) lineNum cfg message = some updated)
    (hserver : enclosingServer text (lineNum - 1) = some (first, last)) :
    let lines := linesOf text
    let missing := missingPath message
    let block :=
      blockAfter (missingPlace lines (lineNum - 1) cfg missing updated) updated first last
    (RepairCompletes lines (lineNum - 1) cfg missing first last → Paired cfg block) ∧
      (¬ LosesTrack lines (lineNum - 1) cfg missing → Paired cfg block →
        RepairCompletes lines (lineNum - 1) cfg missing first last) := by
  intro lines missing block
  obtain ⟨⟨hfirst, hidx⟩, -, hlast⟩ := enclosingServer_some hserver
  have hiff : ¬ LosesTrack lines (lineNum - 1) cfg missing →
      (Paired cfg block ↔ (missingEdit lines (lineNum - 1) cfg missing).Completes cfg lines
        first last) := by
    intro htrack
    obtain ⟨hmakes, hplace⟩ := makes_missingEdit h htrack
    have hpaired := hmakes.paired_iff (hfirst.trans hidx) hlast
    rwa [← hplace] at hpaired
  exact ⟨fun hcompletes => (hiff hcompletes.1).mpr hcompletes.2,
    fun htrack hpaired => ⟨htrack, (hiff htrack).mp hpaired⟩⟩

/-- A block with its key behind its certificate. -/
def pairText : List Char := "server \x7b\nssl_certificate /a;\nssl_certificate_key /k;\n\x7d".toList

/-- The lines of that block with the default pair. -/
def pairLines : List Line :=
  linesOf "server \x7b\n\tssl_certificate /d/c;\nssl_certificate_key /d/k;\n\x7d".toList

theorem repaired_block_paired_sample :
    Paired sampleRepair
      (blockAfter (missingPlace (linesOf pairText) 1 sampleRepair [] pairLines) pairLines 0 3) := by
  have hedit : missingEdit (linesOf pairText) 1 sampleRepair [] =
      lineEdit (linesOf pairText) 1 sampleRepair := if_pos (by decide)
  have hnear : keyNear ((linesOf pairText).set 1 ('\t' :: certText sampleRepair.defaultCert)) 1 =
      some 2 := by decide
  refine (@repaired_block_paired pairText true pairLines 2 0 3 sampleRepair [] (by decide)
    (by decide)).1 ⟨fun hlost => hlost.1 (by decide), ?_, by decide⟩
  intro d i _ hi hon hset
  change ¬ (missingEdit (linesOf pairText) 1 sampleRepair []).sets d i at hset
  rw [hedit] at hset
  obtain rfl | rfl | rfl | rfl : i = 0 ∨ i = 1 ∨ i = 2 ∨ i = 3 := by omega
  · cases d <;> exact absurd hon (by decide)
  · cases d with
    | cert => exact absurd rfl hset
    | key => exact absurd hon (by decide)
  · cases d with
    | cert => exact absurd hon (by decide)
    | key => exact absurd hnear hset
  · cases d <;> exact absurd hon (by decide)

/-- A block with its key before its certificate. -/
def keyFirstText : List Char :=
  "server \x7b\nssl_certificate_key /k;\nssl_certificate /a;\n\x7d".toList

/-- The lines of that block after the repair. -/
def keyFirstLines : List Line :=
  linesOf ("server \x7b\nssl_certificate_key /k;\n\tssl_certificate /d/c;\n" ++
    "\tssl_certificate_key /d/k;\n\x7d").toList

/-- The key before the certificate is not seen, and a second one is put in. -/
theorem key_before_certificate_unpaired :
    repairMissingCertificate true (linesOf keyFirstText) 3 sampleRepair [] = some keyFirstLines ∧
      enclosingServer keyFirstText 2 = some (0, 3) ∧
      ¬ Paired sampleRepair
        (blockAfter (missingPlace (linesOf keyFirstText) 2 sampleRepair [] keyFirstLines)
          keyFirstLines 0 3) := by
  refine ⟨by decide, by decide, fun hpaired => ?_⟩
  exact absurd hpaired.count (by decide)

end GoSite.Website
