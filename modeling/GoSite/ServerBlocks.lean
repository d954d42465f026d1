import GoSite.ConfigRepair

/-!
# The server block around a line

A configuration is read character by character, with its comments and quoted strings, and
the blocks opened by a directive `server` are collected with their first and last lines.
The search of the repair only compares lines: it finds the block around a line exactly
when no other line on the way looks like the beginning of one and its count of braces
agrees.
-/
namespace GoSite.Website

/-! ## Reading the blocks -/

inductive Mode where
  | code
  | comment
  | quoted (quote : Char)
  | escaped (quote : Char)
  deriving Repr, DecidableEq

/-- What was read so far: the word and the directive being read, the first lines of the
server blocks among the open blocks, and the closed server blocks with their lines. -/
structure Reading where
  mode : Mode
  line : ℕ
  word : List Char
  directive : List (List Char × ℕ)
  openBlocks : List (Option ℕ)
  blocks : List (ℕ × ℕ)
  stray : Bool
  deriving Repr, DecidableEq

def Reading.start : Reading := ⟨.code, 0, [], [], [], [], false⟩

/-- The word ends here. -/
def Reading.endWord (r : Reading) : Reading :=
  if r.word = [] then r
  else { r with word := [], directive := r.directive ++ [(r.word, r.line)] }

/-- The first line of the block that a directive opens, if it is a server block. -/
def serverStart : List (List Char × ℕ) → Option ℕ
  | [(word, line)] => if word = "server".toList then some line else none
  | _ => none

def Reading.openBlock (r : Reading) : Reading :=
  { r with directive := [], openBlocks := serverStart r.directive :: r.openBlocks }

def Reading.closeBlock (r : Reading) : Reading :=
  match r.openBlocks with
  | [] => { r with directive := [], stray := true }
  | some first :: rest =>
      { r with
        directive := []
        openBlocks := rest
        blocks := r.blocks ++ [(first, r.line)] }
  | none :: rest => { r with directive := [], openBlocks := rest }

/-- A character outside comments and strings. Comments and strings begin where a word
could begin. -/
def Reading.code (r : Reading) (c : Char) : Reading :=
  if c = '\n' then { r.endWord with line := r.line + 1 }
  else if GoStrings.isSpace c then r.endWord
  else if c = ';' then { r.endWord with directive := [] }
  else if c = '{' then r.endWord.openBlock
  else if c = '}' then r.endWord.closeBlock
  else if r.word = [] ∧ c = '#' then { r with mode := .comment }
  else if r.word = [] ∧ (c = '\'' ∨ c = '"') then { r with mode := .quoted c }
  else { r with word := r.word ++ [c] }

def Reading.step (r : Reading) (c : Char) : Reading :=
  match r.mode with
  | .code => r.code c
  | .comment =>
      if c = '\n' then { r with mode := .code, line := r.line + 1 } else r
  | .quoted quote =>
      { r with
        mode := if c = quote then .code else if c = '\\' then .escaped quote else .quoted quote
        directive := if c = quote then r.directive ++ [([], r.line)] else r.directive
        line := if c = '\n' then r.line + 1 else r.line }
  | .escaped quote =>
      { r with mode := .quoted quote, line := if c = '\n' then r.line + 1 else r.line }

def readBlocks (text : List Char) : Reading := text.foldl Reading.step .start

/-- Every block is closed, and none is closed that was not open. -/
def WellBraced (text : List Char) : Prop :=
  (readBlocks text).openBlocks = [] ∧ (readBlocks text).stray = false

instance (text : List Char) : Decidable (WellBraced text) := by
  unfold WellBraced
  infer_instance

/-- The innermost server block that contains the line. -/
def enclosingServer (text : List Char) (idx : ℕ) : Option (ℕ × ℕ) :=
  (readBlocks text).blocks.find? fun b => b.1 ≤ idx ∧ idx ≤ b.2

/-- The lines of a text. -/
def linesOf (text : List Char) : List Line := text.splitOn '\n'

/-- The braces counted from one line to another. -/
def depthBetween (lines : List Line) (first last : ℕ) : ℤ :=
  ((blockLines lines first last).map braceDelta).sum

/-- What the search needs: the brace of the block stands on its first line, no line after
it up to the reported one looks like the first of a block, and the braces counted from
the first line on are used up at the last line and not before. -/
def SearchFinds (text : List Char) (idx : ℕ) : Prop :=
  match enclosingServer text idx with
  | some (first, last) =>
      '{' ∈ (linesOf text).getD first [] ∧
        (∀ i, first < i → i ≤ idx → ¬ opensServer ((linesOf text).getD i []) = true) ∧
        (∀ i, idx ≤ i → i < last → 0 < depthBetween (linesOf text) first i) ∧
        (depthBetween (linesOf text) first last ≤ 0 ∨ last + 1 = (linesOf text).length)
  | none => ∀ i ≤ idx, ¬ opensServer ((linesOf text).getD i []) = true

/-! ## Lines of a text that grows -/

theorem linesOf_newline (text : List Char) : linesOf (text ++ ['\n']) = linesOf text ++ [[]] := by
  rw [linesOf, linesOf, List.splitOn_append_cons_self, List.splitOn_nil]

theorem linesOf_char {c : Char} (hc : c ≠ '\n') (text : List Char) :
    ∃ init last, linesOf text = init ++ [last] ∧
      linesOf (text ++ [c]) = init ++ [last ++ [c]] := by
  induction text with
  | nil => exact ⟨[], [], by simp [linesOf, List.splitOn_nil], by
      simp [linesOf, List.splitOn_cons_eq_if_modifyHead, hc, List.splitOn_nil]⟩
  | cons d text ih =>
      obtain ⟨init, last, hold, hnew⟩ := ih
      rw [linesOf] at hold hnew
      rw [linesOf, linesOf, List.cons_append, List.splitOn_cons_eq_if_modifyHead,
        List.splitOn_cons_eq_if_modifyHead, hold, hnew]
      split_ifs with hd
      · exact ⟨[] :: init, last, rfl, rfl⟩
      · cases init with
        | nil => exact ⟨[], d :: last, rfl, rfl⟩
        | cons line init => exact ⟨(d :: line) :: init, last, rfl, rfl⟩

theorem getD_append_left {lines : List Line} {i : ℕ} (hi : i < lines.length) (more : List Line) :
    (lines ++ more).getD i [] = lines.getD i [] := by
  simp [List.getElem?_append_left hi]

theorem getD_concat (init : List Line) (last : Line) :
    (init ++ [last]).getD init.length [] = last := by
  simp

/-- A text that grows keeps the characters of its lines. -/
theorem linesOf_grows (text : List Char) (c : Char) (i : ℕ) :
    (linesOf text).getD i [] <+: (linesOf (text ++ [c])).getD i [] := by
  by_cases hc : c = '\n'
  · subst hc
    rw [linesOf_newline]
    by_cases hi : i < (linesOf text).length
    · rw [getD_append_left hi]
    · rw [show (linesOf text).getD i [] = [] by simp [Nat.le_of_not_lt hi]]
      exact List.nil_prefix
  · obtain ⟨init, last, hold, hnew⟩ := linesOf_char hc text
    rw [hold, hnew]
    rcases Nat.lt_trichotomy i init.length with hi | rfl | hi
    · rw [getD_append_left hi, getD_append_left hi]
    · rw [getD_concat, getD_concat]
      exact List.prefix_append _ _
    · have hout : (init ++ [last]).length ≤ i := by
        rw [List.length_append]
        exact hi
      rw [show (init ++ [last]).getD i [] = [] by simp [List.getElem?_eq_none hout]]
      exact List.nil_prefix

theorem length_linesOf_char {c : Char} (hc : c ≠ '\n') (text : List Char) :
    (linesOf (text ++ [c])).length = (linesOf text).length := by
  obtain ⟨init, last, hold, hnew⟩ := linesOf_char hc text
  rw [hold, hnew, List.length_append, List.length_append]
  rfl

/-! ## What is read stands on its line -/

section
variable {lines : List Line} {r : Reading}

/-- The words and the first lines of blocks are where they are said to be. -/
structure Kept (lines : List Line) (r : Reading) : Prop where
  directive : ∀ d ∈ r.directive, d.1 <:+: lines.getD d.2 []
  openBlocks : ∀ first, some first ∈ r.openBlocks → "server".toList <:+: lines.getD first []
  blocks : ∀ b ∈ r.blocks, "server".toList <:+: lines.getD b.1 [] ∧ b.2 < lines.length

theorem Kept.mono {lines' : List Line} (h : Kept lines r)
    (hgrows : ∀ i, lines.getD i [] <+: lines'.getD i []) (hlen : lines.length ≤ lines'.length) :
    Kept lines' r where
  directive d hd := (h.directive d hd).trans (hgrows _).isInfix
  openBlocks first hfirst := (h.openBlocks first hfirst).trans (hgrows _).isInfix
  blocks b hb :=
    ⟨(h.blocks b hb).1.trans (hgrows _).isInfix, Nat.lt_of_lt_of_le (h.blocks b hb).2 hlen⟩

theorem Kept.endWord (h : Kept lines r) (hword : r.word <:+ lines.getD r.line []) :
    Kept lines r.endWord := by
  rw [Reading.endWord]
  split_ifs with hempty
  · exact h
  · refine ⟨fun d hd => ?_, h.openBlocks, h.blocks⟩
    rcases List.mem_append.mp hd with hd | hd
    · exact h.directive d hd
    · rw [List.mem_singleton.mp hd]
      exact hword.isInfix

theorem Kept.openBlock (h : Kept lines r) : Kept lines r.openBlock := by
  refine ⟨fun d hd => (List.not_mem_nil hd).elim, fun first hfirst => ?_, h.blocks⟩
  rcases List.mem_cons.mp hfirst with hstart | hfirst
  · cases hd : r.directive with
    | nil => simp [hd, serverStart] at hstart
    | cons d rest =>
        cases rest with
        | cons d' rest => simp [hd, serverStart] at hstart
        | nil =>
            obtain ⟨word, line⟩ := d
            rw [hd, serverStart] at hstart
            split_ifs at hstart with hword
            have hkept := h.directive (word, line) (by simp [hd])
            rw [hword] at hkept
            rwa [Option.some.inj hstart]
  · exact h.openBlocks first hfirst

theorem Kept.closeBlock (h : Kept lines r) (hline : r.line < lines.length) :
    Kept lines r.closeBlock := by
  rw [Reading.closeBlock]
  have hnil : ∀ d ∈ ([] : List (List Char × ℕ)), d.1 <:+: lines.getD d.2 [] :=
    fun d hd => (List.not_mem_nil hd).elim
  split
  · exact ⟨hnil, h.openBlocks, h.blocks⟩
  · rename_i first rest hopen
    refine ⟨hnil, fun first' hfirst' => ?_, fun b hb => ?_⟩
    · exact h.openBlocks first' (hopen ▸ List.mem_cons_of_mem _ hfirst')
    · rcases List.mem_append.mp hb with hb | hb
      · exact h.blocks b hb
      · rw [List.mem_singleton.mp hb]
        exact ⟨h.openBlocks first (by simp [hopen]), hline⟩
  · rename_i rest hopen
    exact ⟨hnil, fun first hfirst => h.openBlocks first (hopen ▸ List.mem_cons_of_mem _ hfirst),
      h.blocks⟩

/-- The reading fits the text read so far. -/
structure Fits (text : List Char) (r : Reading) : Prop where
  kept : Kept (linesOf text) r
  line : (linesOf text).length = r.line + 1
  word : r.word <:+ (linesOf text).getD r.line []
  quiet : r.mode ≠ .code → r.word = []

@[simp] theorem endWord_word (r : Reading) : r.endWord.word = [] := by
  rw [Reading.endWord]
  split_ifs with h
  · exact h
  · rfl

@[simp] theorem endWord_line (r : Reading) : r.endWord.line = r.line := by
  rw [Reading.endWord]
  split_ifs <;> rfl

@[simp] theorem endWord_mode (r : Reading) : r.endWord.mode = r.mode := by
  rw [Reading.endWord]
  split_ifs <;> rfl

theorem Fits.newline {text : List Char} (h : Fits text r) {r' : Reading}
    (hr' : Kept (linesOf text) r') (hline : r'.line = r.line + 1) (hword : r'.word = []) : Fits (text ++ ['\n']) r' := by
  have hlines := linesOf_newline text
  refine ⟨hr'.mono (linesOf_grows text '\n') (by simp [hlines]), ?_, ?_, fun _ => hword⟩
  · rw [hlines, List.length_append, h.line, hline]
    rfl
  · rw [hword]
    exact List.nil_suffix

theorem Fits.char {text : List Char} {c : Char} (h : Fits text r) (hc : c ≠ '\n') {r' : Reading}
    (hr' : Kept (linesOf (text ++ [c])) r') (hline : r'.line = r.line)
    (hword : r'.word = [] ∨ r'.mode = .code ∧ r'.word = r.word ++ [c]) :
    Fits (text ++ [c]) r' := by
  refine ⟨hr', by rw [length_linesOf_char hc, h.line, hline], ?_, fun hmode => ?_⟩
  · rcases hword with hword | ⟨_, hword⟩
    · rw [hword]
      exact List.nil_suffix
    · obtain ⟨init, last, hold, hnew⟩ := linesOf_char hc text
      have hlen := h.line
      have hsuffix := h.word
      rw [hold, List.length_append] at hlen
      have hinit : init.length = r.line := by simpa using hlen
      rw [hold, ← hinit, getD_concat] at hsuffix
      rw [hword, hline, hnew, ← hinit, getD_concat]
      obtain ⟨before, hbefore⟩ := hsuffix
      exact ⟨before, by rw [← hbefore, List.append_assoc]⟩
  · exact hword.resolve_right fun hcode => hmode hcode.1

theorem Fits.code {text : List Char} (h : Fits text r) (hmode : r.mode = .code) (c : Char) :
    Fits (text ++ [c]) (r.code c) := by
  have hend : Kept (linesOf text) r.endWord := h.kept.endWord h.word
  have hline : r.line < (linesOf text).length := by rw [h.line]; exact Nat.lt_succ_self _
  rw [Reading.code]
  by_cases hc : c = '\n'
  · subst hc
    rw [if_pos rfl]
    exact h.newline ⟨hend.directive, hend.openBlocks, hend.blocks⟩ rfl (endWord_word r)
  · rw [if_neg hc]
    have hmono : ∀ {r' : Reading}, Kept (linesOf text) r' → Kept (linesOf (text ++ [c])) r' :=
      fun hr' => hr'.mono (linesOf_grows text c) (length_linesOf_char hc text).ge
    have hplain : Kept (linesOf (text ++ [c])) r := hmono h.kept
    split_ifs with hspace hsemi hopen hclose hcomment hquote
    · exact h.char hc (hmono hend) (endWord_line r) (.inl (endWord_word r))
    · exact h.char hc ⟨fun d hd => (List.not_mem_nil hd).elim, (hmono hend).openBlocks,
        (hmono hend).blocks⟩ (endWord_line r) (.inl (endWord_word r))
    · exact h.char hc (hmono hend.openBlock) (endWord_line r) (.inl (endWord_word r))
    · refine h.char hc (hmono (hend.closeBlock (by rwa [endWord_line]))) ?_ (.inl ?_)
      · rw [Reading.closeBlock]
        split <;> exact endWord_line r
      · rw [Reading.closeBlock]
        split <;> exact endWord_word r
    · exact h.char hc ⟨hplain.directive, hplain.openBlocks, hplain.blocks⟩ rfl (.inl hcomment.1)
    · exact h.char hc ⟨hplain.directive, hplain.openBlocks, hplain.blocks⟩ rfl (.inl hquote.1)
    · exact h.char hc ⟨hplain.directive, hplain.openBlocks, hplain.blocks⟩ rfl
        (.inr ⟨hmode, rfl⟩)

theorem Fits.step {text : List Char} (h : Fits text r) (c : Char) :
    Fits (text ++ [c]) (r.step c) := by
  rw [Reading.step]
  have hkept : ∀ {r' : Reading}, r'.directive = r.directive → r'.openBlocks = r.openBlocks →
      r'.blocks = r.blocks → Kept (linesOf text) r' := by
    intro r' hd ho hb
    exact ⟨hd ▸ h.kept.directive, ho ▸ h.kept.openBlocks, hb ▸ h.kept.blocks⟩
  have hmono : ∀ {r' : Reading}, c ≠ '\n' → Kept (linesOf text) r' →
      Kept (linesOf (text ++ [c])) r' :=
    fun hc hr' => hr'.mono (linesOf_grows text c) (length_linesOf_char hc text).ge
  cases hmode : r.mode with
  | code => exact h.code hmode c
  | comment =>
      have hword := h.quiet (by simp [hmode])
      dsimp only
      split_ifs with hc
      · subst hc
        exact h.newline (hkept rfl rfl rfl) rfl hword
      · exact h.char hc (hmono hc h.kept) rfl (.inl hword)
  | quoted quote =>
      have hword := h.quiet (by simp [hmode])
      have hdirective : ∀ d ∈ (if c = quote then r.directive ++ [([], r.line)] else r.directive),
          d.1 <:+: (linesOf text).getD d.2 [] := by
        intro d hd
        split_ifs at hd
        · rcases List.mem_append.mp hd with hd | hd
          · exact h.kept.directive d hd
          · rw [List.mem_singleton.mp hd]
            exact List.nil_infix
        · exact h.kept.directive d hd
      have hkept' := fun (mode : Mode) (line : ℕ) =>
        (⟨hdirective, h.kept.openBlocks, h.kept.blocks⟩ : Kept (linesOf text)
          { r with
            mode := mode
            directive := if c = quote then r.directive ++ [([], r.line)] else r.directive
            line := line })
      by_cases hc : c = '\n'
      · subst hc
        exact h.newline (hkept' _ _) (by simp) hword
      · exact h.char hc (hmono hc (hkept' _ _)) (by simp [hc]) (.inl hword)
  | escaped quote =>
      have hword := h.quiet (by simp [hmode])
      dsimp only
      by_cases hc : c = '\n'
      · subst hc
        exact h.newline (hkept rfl rfl rfl) (by simp) hword
      · exact h.char hc (hmono hc (hkept rfl rfl rfl)) (by simp [hc]) (.inl hword)

theorem fits_readBlocks (text : List Char) : Fits text (readBlocks text) := by
  induction text using List.reverseRecOn with
  | nil =>
      exact ⟨⟨fun d hd => (List.not_mem_nil hd).elim, fun first hfirst =>
        (List.not_mem_nil hfirst).elim, fun b hb => (List.not_mem_nil hb).elim⟩,
        by simp [linesOf, readBlocks, Reading.start, List.splitOn_nil], List.nil_suffix,
        fun _ => rfl⟩
  | append_singleton text c ih =>
      rw [readBlocks, List.foldl_append]
      exact ih.step c

end

theorem enclosingServer_some {text : List Char} {idx first last : ℕ}
    (h : enclosingServer text idx = some (first, last)) :
    (first ≤ idx ∧ idx ≤ last) ∧ "server".toList <:+: (linesOf text).getD first [] ∧
      last < (linesOf text).length := by
  have hfound := List.find?_some h
  have hmem := List.mem_of_find?_eq_some h
  exact ⟨by simpa using hfound, (fits_readBlocks text).kept.blocks _ hmem⟩

/-! ## What the search finds -/

theorem serverLine_eq_none {lines : List Line} {idx : ℕ} :
    serverLine lines idx = none ↔ ∀ i ≤ idx, ¬ opensServer (lines.getD i []) = true := by
  induction idx with
  | zero =>
      rw [serverLine]
      split_ifs with h
      · exact iff_of_false (by simp) fun hnone => hnone 0 le_rfl h
      · refine iff_of_true rfl fun i hi => ?_
        rwa [Nat.le_zero.mp hi]
  | succ idx ih =>
      rw [serverLine]
      split_ifs with h
      · exact iff_of_false (by simp) fun hnone => hnone _ le_rfl h
      · rw [ih]
        constructor
        · intro hnone i hi
          rcases Nat.le_succ_iff.mp hi with hi | rfl
          · exact hnone i hi
          · exact h
        · exact fun hnone i hi => hnone i (Nat.le_succ_of_le hi)

theorem serverLine_eq_some {lines : List Line} {idx first : ℕ} :
    serverLine lines idx = some first ↔ first ≤ idx ∧ opensServer (lines.getD first []) = true ∧
      ∀ i, first < i → i ≤ idx → ¬ opensServer (lines.getD i []) = true := by
  induction idx with
  | zero =>
      rw [serverLine]
      split_ifs with h
      · rw [Option.some.injEq]
        constructor
        · rintro rfl
          exact ⟨le_rfl, h, fun i hi hle => absurd hle (Nat.not_le.mpr hi)⟩
        · exact fun hfirst => (Nat.le_zero.mp hfirst.1).symm
      · refine iff_of_false (by simp) fun hfirst => h ?_
        rw [← Nat.le_zero.mp hfirst.1]
        exact hfirst.2.1
  | succ idx ih =>
      rw [serverLine]
      split_ifs with h
      · rw [Option.some.injEq]
        constructor
        · rintro rfl
          exact ⟨le_rfl, h, fun i hi hle => absurd hle (Nat.not_le.mpr hi)⟩
        · rintro ⟨hle, -, hnone⟩
          rcases hle.lt_or_eq with hlt | heq
          · exact absurd h (hnone _ hlt le_rfl)
          · exact heq.symm
      · rw [ih]
        constructor
        · rintro ⟨hle, hopens, hnone⟩
          refine ⟨Nat.le_succ_of_le hle, hopens, fun i hi hile => ?_⟩
          rcases Nat.le_succ_iff.mp hile with hile | rfl
          · exact hnone i hi hile
          · exact h
        · rintro ⟨hle, hopens, hnone⟩
          refine ⟨?_, hopens, fun i hi hile => hnone i hi (Nat.le_succ_of_le hile)⟩
          rcases Nat.le_succ_iff.mp hle with hle | rfl
          · exact hle
          · exact absurd hopens h

/-- The braces counted over the first lines of a list. -/
def depthOf (depth : ℤ) (lines : List Line) (k : ℕ) : ℤ :=
  depth + ((lines.take (k + 1)).map braceDelta).sum

theorem depthOf_cons (depth : ℤ) (line : Line) (lines : List Line) (k : ℕ) :
    depthOf depth (line :: lines) (k + 1) = depthOf (depth + braceDelta line) lines k := by
  simp only [depthOf, List.take_succ_cons, List.map_cons, List.sum_cons]
  omega

theorem depthOf_zero (depth : ℤ) (line : Line) (lines : List Line) :
    depthOf depth (line :: lines) 0 = depth + braceDelta line := by
  simp [depthOf]

theorem closingLine_eq_none {idx i : ℕ} {depth : ℤ} {lines : List Line} :
    closingLine idx i depth lines = none ↔
      ∀ k < lines.length, idx ≤ i + k → 0 < depthOf depth lines k := by
  induction lines generalizing i depth with
  | nil => simp [closingLine]
  | cons line lines ih =>
      rw [closingLine]
      split_ifs with hend
      · refine iff_of_false (by simp) fun hpos => ?_
        have hzero := hpos 0 (Nat.succ_pos _) hend.1
        rw [depthOf_zero] at hzero
        omega
      · rw [ih]
        constructor
        · intro hpos k hk hidx
          cases k with
          | zero =>
              rw [depthOf_zero]
              by_contra hle
              exact hend ⟨hidx, Int.not_lt.mp hle⟩
          | succ k =>
              rw [depthOf_cons]
              exact hpos k (Nat.lt_of_succ_lt_succ hk) (by omega)
        · intro hpos k hk hidx
          have hnext := hpos (k + 1) (Nat.succ_lt_succ hk) (by omega)
          rwa [depthOf_cons] at hnext

theorem closingLine_eq_some {idx i last : ℕ} {depth : ℤ} {lines : List Line} :
    closingLine idx i depth lines = some last ↔
      ∃ k < lines.length, last = i + k ∧ idx ≤ last ∧ depthOf depth lines k ≤ 0 ∧
        ∀ j < k, idx ≤ i + j → 0 < depthOf depth lines j := by
  induction lines generalizing i depth with
  | nil => simp [closingLine]
  | cons line lines ih =>
      rw [closingLine]
      split_ifs with hend
      · rw [Option.some.injEq]
        constructor
        · rintro rfl
          exact ⟨0, Nat.succ_pos _, rfl, hend.1, by rw [depthOf_zero]; exact hend.2,
            fun j hj => absurd hj (Nat.not_lt_zero j)⟩
        · rintro ⟨k, hk, rfl, hidx, hle, hpos⟩
          cases k with
          | zero => rfl
          | succ k =>
              have hzero := hpos 0 (Nat.succ_pos _) hend.1
              rw [depthOf_zero] at hzero
              omega
      · rw [ih]
        constructor
        · rintro ⟨k, hk, rfl, hidx, hle, hpos⟩
          refine ⟨k + 1, Nat.succ_lt_succ hk, by omega, hidx, by rwa [depthOf_cons], ?_⟩
          intro j hj hidx'
          cases j with
          | zero =>
              rw [depthOf_zero]
              by_contra hle'
              exact hend ⟨hidx', Int.not_lt.mp hle'⟩
          | succ j =>
              rw [depthOf_cons]
              exact hpos j (Nat.lt_of_succ_lt_succ hj) (by omega)
        · rintro ⟨k, hk, rfl, hidx, hle, hpos⟩
          cases k with
          | zero =>
              rw [depthOf_zero] at hle
              exact absurd ⟨hidx, hle⟩ hend
          | succ k =>
              rw [depthOf_cons] at hle
              refine ⟨k, Nat.lt_of_succ_lt_succ hk, by omega, hidx, hle, fun j hj hidx' => ?_⟩
              have hnext := hpos (j + 1) (Nat.succ_lt_succ hj) (by omega)
              rwa [depthOf_cons] at hnext

theorem depthOf_eq (lines : List Line) (first k : ℕ) :
    depthOf 0 (lines.drop first) k = depthBetween lines first (first + k) := by
  rw [depthOf, depthBetween, blockLines, Int.zero_add, Nat.add_assoc, Nat.add_sub_cancel_left]

/-- The last line the search takes. -/
theorem closingLine_getD {lines : List Line} {idx first last : ℕ} (hfirst : first ≤ idx)
    (hidx : idx ≤ last) (hlast : last < lines.length) :
    (closingLine idx first 0 (lines.drop first)).getD (lines.length - 1) = last ↔
      (∀ i, idx ≤ i → i < last → 0 < depthBetween lines first i) ∧
        (depthBetween lines first last ≤ 0 ∨ last + 1 = lines.length) := by
  have hdepth : ∀ i, first ≤ i →
      depthOf 0 (lines.drop first) (i - first) = depthBetween lines first i := by
    intro i hi
    rw [depthOf_eq, Nat.add_sub_cancel' hi]
  have hlen : (lines.drop first).length = lines.length - first := List.length_drop
  cases hclose : closingLine idx first 0 (lines.drop first) with
  | none =>
      have hpos : ∀ i, idx ≤ i → i < lines.length → 0 < depthBetween lines first i := by
        intro i hi hlt
        rw [← hdepth i (hfirst.trans hi)]
        exact closingLine_eq_none.mp hclose _ (by omega) (by omega)
      rw [Option.getD_none]
      constructor
      · intro heq
        exact ⟨fun i hi hlt => hpos i hi (by omega), .inr (by omega)⟩
      · rintro ⟨-, hle | heq⟩
        · have hlt := hpos last hidx hlast
          omega
        · omega
  | some found =>
      obtain ⟨k, hk, rfl, hidx', hle, hpos⟩ := closingLine_eq_some.mp hclose
      rw [depthOf_eq] at hle
      have hpos' : ∀ i, idx ≤ i → i < first + k → 0 < depthBetween lines first i := by
        intro i hi hlt
        rw [← hdepth i (hfirst.trans hi)]
        exact hpos _ (by omega) (by omega)
      rw [Option.getD_some]
      constructor
      · rintro rfl
        exact ⟨hpos', .inl hle⟩
      · rintro ⟨hbefore, hend⟩
        rcases Nat.lt_trichotomy (first + k) last with hlt | heq | hgt
        · have hcontra := hbefore (first + k) hidx' hlt
          omega
        · exact heq
        · have hcontra := hpos' last hidx hgt
          rcases hend with hle' | hend
          · omega
          · omega

/-- The search returns the block around a line exactly when no other line looks like its
first one and the count of braces is used up at its last one. -/
theorem serverBlockBounds_iff (text : List Char) (idx : Fin (linesOf text).length) :
    serverBlockBounds (linesOf text) idx = enclosingServer text idx ↔ SearchFinds text idx := by
  rw [SearchFinds, serverBlockBounds]
  cases henclosing : enclosingServer text idx with
  | none => rw [Option.map_eq_none_iff, serverLine_eq_none]
  | some block =>
      obtain ⟨first, last⟩ := block
      obtain ⟨⟨hfirst, hidx⟩, hserver, hlast⟩ := enclosingServer_some henclosing
      have hopens : opensServer ((linesOf text).getD first []) = true ↔
          '{' ∈ (linesOf text).getD first [] := by
        rw [opensServer, decide_eq_true_eq]
        exact and_iff_right hserver
      dsimp only
      rw [Option.map_eq_some_iff, ← hopens, ← closingLine_getD hfirst hidx hlast]
      constructor
      · rintro ⟨start, hstart, hpair⟩
        obtain ⟨rfl, hend⟩ := Prod.mk.inj hpair
        obtain ⟨-, hopening, hnone⟩ := serverLine_eq_some.mp hstart
        exact ⟨hopening, hnone, hend⟩
      · rintro ⟨hopening, hnone, hend⟩
        exact ⟨first, serverLine_eq_some.mpr ⟨hfirst, hopening, hnone⟩, by rw [hend]⟩

/-- A line behind the block is taken to be inside of it. -/
theorem search_passes_block :
    WellBraced "server \x7b\n\x7d\nx;".toList ∧
      enclosingServer "server \x7b\n\x7d\nx;".toList 2 = none ∧
      serverBlockBounds (linesOf "server \x7b\n\x7d\nx;".toList) 2 = some (0, 2) := by
  refine ⟨by decide, by decide, by decide⟩

end GoSite.Website
