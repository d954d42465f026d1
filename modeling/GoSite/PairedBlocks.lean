import GoSite.RepairBraces

/-!
# The certificates and keys of a block

The directives of a block are seen line by line, by their first word. An edit sets some
of the lines to the default pair and puts new ones in behind one line. Whether the block
has the default pair afterwards is seen from the lines the edit leaves alone and from the
numbers of its directives.
-/
namespace GoSite.Website
open GoStrings

inductive SSLDirective where
  | cert
  | key
  deriving Repr, DecidableEq

def SSLDirective.word : SSLDirective → List Char
  | .cert => certDirective.dropLast
  | .key => keyDirective.dropLast

/-- The path of the default pair. -/
def SSLDirective.path (cfg : RepairConfig) : SSLDirective → List Char
  | .cert => cfg.defaultCert
  | .key => cfg.defaultKey

/-- The text a repair writes for the directive. -/
def SSLDirective.text (cfg : RepairConfig) : SSLDirective → Line
  | .cert => certText cfg.defaultCert
  | .key => keyText cfg.defaultKey

/-- The directive is active on the line: it is the first word. -/
def SSLDirective.On (d : SSLDirective) (line : Line) : Prop :=
  (trimSpaceChars line).takeWhile (!isSpace ·) = d.word

instance (d : SSLDirective) (line : Line) : Decidable (d.On line) := by
  unfold SSLDirective.On
  infer_instance

/-- What the line's directive is set to. -/
def directiveValue (line : Line) : List Char :=
  parseDirectiveValue ((trimSpaceChars line).dropWhile (!isSpace ·))

/-- The line reads like the one a repair writes. -/
def SSLDirective.NamesDefault (d : SSLDirective) (cfg : RepairConfig) (line : Line) : Prop :=
  directiveValue line = parseDirectiveValue (d.path cfg ++ [';'])

instance (d : SSLDirective) (cfg : RepairConfig) (line : Line) :
    Decidable (d.NamesDefault cfg line) := by
  unfold SSLDirective.NamesDefault
  infer_instance

/-- Every certificate of the block is the default one, every key is the default key, and
there are equally many of each. -/
structure Paired (cfg : RepairConfig) (block : List Line) : Prop where
  names : ∀ d : SSLDirective, ∀ line ∈ block, d.On line → d.NamesDefault cfg line
  count : block.countP (SSLDirective.cert.On ·) = block.countP (SSLDirective.key.On ·)

/-- The lines of a block where they stand after an edit. -/
def blockAfter (place : ℕ → ℕ) (updated : List Line) (first last : ℕ) : List Line :=
  (updated.take (place (last + 1))).drop (place first)

/-- Where a line stands once others were put in behind one. -/
def placeBehind (behind added i : ℕ) : ℕ := if behind < i then i + added else i

/-- What a repair does: the lines it sets to a directive, and the directives it puts in
behind a line. -/
structure PairEdit where
  sets : SSLDirective → ℕ → Prop
  behind : ℕ
  puts : List SSLDirective

/-- The lines with some of them set to the default pair. -/
structure Overwritten (cfg : RepairConfig) (sets : SSLDirective → ℕ → Prop)
    (lines updated : List Line) : Prop where
  length : updated.length = lines.length
  on : ∀ d i, sets d i → d.On (lines.getD i [])
  set : ∀ d i, sets d i → trimSpaceChars (updated.getD i []) = d.text cfg
  kept : ∀ i, (∀ d, ¬ sets d i) → updated.getD i [] = lines.getD i []

/-- The lines after an edit. -/
structure PairEdit.Makes (e : PairEdit) (cfg : RepairConfig) (lines updated : List Line) :
    Prop where
  inside : e.behind < lines.length
  lines : ∃ set new, Overwritten cfg e.sets lines set ∧
    new.map trimSpaceChars = e.puts.map (SSLDirective.text cfg) ∧
    updated = insertAfter set e.behind new

/-- What is needed for the default pair in a block: the lines the edit leaves alone name
it already, and with the lines put in there are equally many of both directives. -/
structure PairEdit.Completes (e : PairEdit) (cfg : RepairConfig) (lines : List Line)
    (first last : ℕ) : Prop where
  names : ∀ d : SSLDirective, ∀ i, first ≤ i → i ≤ last → d.On (lines.getD i []) →
    ¬ e.sets d i → d.NamesDefault cfg (lines.getD i [])
  count : (blockLines lines first last).countP (SSLDirective.cert.On ·) +
      (if first ≤ e.behind ∧ e.behind ≤ last then e.puts.count .cert else 0) =
    (blockLines lines first last).countP (SSLDirective.key.On ·) +
      (if first ≤ e.behind ∧ e.behind ≤ last then e.puts.count .key else 0)

/-! ## The written lines -/

theorem SSLDirective.text_eq (cfg : RepairConfig) (d : SSLDirective) :
    d.text cfg = d.word ++ ' ' :: (d.path cfg ++ [';']) := by
  cases d with
  | cert => rfl
  | key => rfl

theorem SSLDirective.word_ne {d e : SSLDirective} (h : d ≠ e) : d.word ≠ e.word := by
  cases d <;> cases e <;> first | exact absurd rfl h | decide

theorem SSLDirective.takeWhile_text (cfg : RepairConfig) (d : SSLDirective) :
    (d.text cfg).takeWhile (!isSpace ·) = d.word ∧
      (d.text cfg).dropWhile (!isSpace ·) = ' ' :: (d.path cfg ++ [';']) := by
  have hword : ∀ c ∈ d.word, (!isSpace c) = true := by
    cases d <;> decide
  have hspace : (!isSpace ' ') = false := by decide
  rw [d.text_eq, List.takeWhile_append_of_pos hword, List.dropWhile_append_of_pos hword,
    List.takeWhile_cons_of_neg (by simp [hspace]), List.dropWhile_cons_of_neg (by simp [hspace]),
    List.append_nil]
  exact ⟨rfl, rfl⟩

theorem trimSpaceChars_space (cs : List Char) : trimSpaceChars (' ' :: cs) = trimSpaceChars cs := by
  rw [trimSpaceChars, List.dropWhile_cons_of_pos (by decide), ← trimSpaceChars]

/-- A line a repair has written has its directive and names the default. -/
theorem SSLDirective.written {cfg : RepairConfig} {d : SSLDirective} {line : Line}
    (h : trimSpaceChars line = d.text cfg) : d.On line ∧ d.NamesDefault cfg line := by
  obtain ⟨hword, hrest⟩ := d.takeWhile_text cfg
  refine ⟨by rw [SSLDirective.On, h, hword], ?_⟩
  rw [SSLDirective.NamesDefault, directiveValue, h, hrest, parseDirectiveValue,
    trimSpaceChars_space]
  rfl

theorem SSLDirective.on_unique {d e : SSLDirective} {line : Line} (hd : d.On line)
    (he : e.On line) : d = e := by
  by_contra hne
  exact word_ne hne (hd.symm.trans he)

/-! ## Blocks of lines -/

theorem getD_blockLines {lines : List Line} {first last i : ℕ} (hi : first + i ≤ last) :
    (blockLines lines first last).getD i [] = lines.getD (first + i) [] := by
  rw [List.getD_eq_getElem?_getD, List.getD_eq_getElem?_getD, blockLines,
    List.getElem?_take_of_lt (by omega), List.getElem?_drop]

theorem length_blockLines {lines : List Line} {first last : ℕ} (hlast : last < lines.length) :
    (blockLines lines first last).length = last + 1 - first := by
  rw [blockLines, List.length_take, List.length_drop]
  omega

theorem mem_blockLines {lines : List Line} {first last : ℕ} (hlast : last < lines.length)
    {line : Line} :
    line ∈ blockLines lines first last ↔
      ∃ i, first ≤ i ∧ i ≤ last ∧ lines.getD i [] = line := by
  constructor
  · intro hmem
    obtain ⟨k, hk, rfl⟩ := List.getElem_of_mem hmem
    have hlt := hk
    rw [length_blockLines hlast] at hlt
    refine ⟨first + k, by omega, by omega, ?_⟩
    rw [← @getD_blockLines lines first last k (by omega), getD_of_lt hk]
  · rintro ⟨i, hfirst, hi, rfl⟩
    have hk : i - first < (blockLines lines first last).length := by
      rw [length_blockLines hlast]
      omega
    have hget := @getD_blockLines lines first last (i - first) (by omega)
    rw [show first + (i - first) = i by omega, getD_of_lt hk] at hget
    rw [← hget]
    exact List.getElem_mem hk

theorem length_insertAfter {lines : List Line} {behind : ℕ} (new : List Line)
    (hbehind : behind < lines.length) :
    (insertAfter lines behind new).length = lines.length + new.length := by
  rw [insertAfter, List.length_append, List.length_append, List.length_take, List.length_drop]
  omega

theorem insertAfter_append_left {front : List Line} {behind : ℕ} (rest new : List Line)
    (hbehind : behind < front.length) :
    insertAfter (front ++ rest) behind new = insertAfter front behind new ++ rest := by
  rw [insertAfter, insertAfter, List.take_append_of_le_length (by omega),
    List.drop_append_of_le_length (by omega)]
  simp

theorem insertAfter_append_right {front : List Line} {behind : ℕ} (rest new : List Line)
    (hbehind : front.length ≤ behind) :
    insertAfter (front ++ rest) behind new =
      front ++ insertAfter rest (behind - front.length) new := by
  obtain ⟨k, rfl⟩ := Nat.exists_eq_add_of_le hbehind
  rw [insertAfter, insertAfter, Nat.add_assoc, List.take_length_add_append,
    List.drop_length_add_append, Nat.add_sub_cancel_left]
  simp

/-- The lines between two places. -/
theorem take_drop_middle (front middle rest : List Line) :
    ((front ++ middle ++ rest).take (front.length + middle.length)).drop front.length =
      middle := by
  rw [← List.length_append, List.take_left, List.drop_left]

/-- The block after an insertion. -/
theorem blockAfter_insertAfter {lines : List Line} {behind first last : ℕ} (new : List Line)
    (hbehind : behind < lines.length) (hblock : first ≤ last) (hlast : last < lines.length) :
    blockAfter (placeBehind behind new.length) (insertAfter lines behind new) first last =
      if first ≤ behind ∧ behind ≤ last then
        insertAfter (blockLines lines first last) (behind - first) new
      else blockLines lines first last := by
  have hsplit := blockLines_split lines hblock
  have hmiddle := @length_blockLines lines first last hlast
  have hfront : (lines.take first).length = first := by
    rw [List.length_take]
    omega
  generalize lines.take first = front at hsplit hfront
  generalize blockLines lines first last = middle at hsplit hmiddle
  generalize lines.drop (last + 1) = rest at hsplit
  subst hsplit
  subst hfront
  have hend : last + 1 = front.length + middle.length := by omega
  rw [blockAfter, hend]
  by_cases hbefore : behind < front.length
  · rw [if_neg (by omega), placeBehind, placeBehind, if_pos hbefore,
      if_pos (Nat.lt_add_right _ hbefore), List.append_assoc,
      insertAfter_append_left _ _ hbefore, ← List.append_assoc]
    have hcut := take_drop_middle (insertAfter front behind new) middle rest
    rw [length_insertAfter new hbefore] at hcut
    rwa [Nat.add_right_comm]
  · by_cases hin : behind < front.length + middle.length
    · have hcut := take_drop_middle front (insertAfter middle (behind - front.length) new) rest
      rw [length_insertAfter new (by omega), ← Nat.add_assoc] at hcut
      rw [if_pos ⟨by omega, by omega⟩, placeBehind, placeBehind, if_pos hin, if_neg (by omega),
        List.append_assoc, insertAfter_append_right _ _ (by omega),
        insertAfter_append_left _ _ (by omega), ← List.append_assoc]
      exact hcut
    · have hlen : (front ++ middle).length ≤ behind := by
        rw [List.length_append]
        omega
      rw [if_neg (by omega), placeBehind, placeBehind, if_neg hin, if_neg (by omega),
        insertAfter_append_right _ _ hlen]
      exact take_drop_middle front middle _

theorem mem_insertAfter {lines new : List Line} {behind : ℕ} {line : Line} :
    line ∈ insertAfter lines behind new ↔ line ∈ lines ∨ line ∈ new := by
  conv_rhs => rw [← List.take_append_drop (behind + 1) lines]
  simp only [insertAfter, List.mem_append]
  tauto

theorem countP_insertAfter (p : Line → Bool) (lines new : List Line) (behind : ℕ) :
    (insertAfter lines behind new).countP p = lines.countP p + new.countP p := by
  have hsplit := congrArg (List.countP p) (List.take_append_drop (behind + 1) lines)
  rw [List.countP_append] at hsplit
  rw [insertAfter, List.countP_append, List.countP_append]
  omega

/-! ## Overwritten lines -/

section
variable {cfg : RepairConfig} {sets : SSLDirective → ℕ → Prop} {lines updated : List Line}

/-- Overwriting a directive with the default one leaves it the same directive. -/
theorem Overwritten.on_iff (h : Overwritten cfg sets lines updated) (d : SSLDirective) (i : ℕ) :
    d.On (updated.getD i []) ↔ d.On (lines.getD i []) := by
  by_cases hset : ∃ e, sets e i
  · obtain ⟨e, he⟩ := hset
    have hnew := (SSLDirective.written (h.set e i he)).1
    have hold := h.on e i he
    constructor
    · intro hd
      rwa [SSLDirective.on_unique hd hnew]
    · intro hd
      rwa [SSLDirective.on_unique hd hold]
  · rw [h.kept i (not_exists.mp hset)]

theorem Overwritten.countP_block (h : Overwritten cfg sets lines updated) (d : SSLDirective)
    (first last : ℕ) :
    (blockLines updated first last).countP (d.On ·) =
      (blockLines lines first last).countP (d.On ·) := by
  have hmap : updated.map (fun line => decide (d.On line)) =
      lines.map (fun line => decide (d.On line)) := by
    refine List.ext_getElem (by simp [h.length]) fun i hi hi' => ?_
    rw [List.length_map] at hi hi'
    have hon := h.on_iff d i
    rw [getD_of_lt hi, getD_of_lt hi'] at hon
    simp [hon]
  have hcount : ∀ xs : List Line, (blockLines xs first last).countP (d.On ·) =
      (((xs.map fun line => decide (d.On line)).drop first).take (last + 1 - first)).countP id := by
    intro xs
    rw [blockLines, ← List.map_drop, ← List.map_take, List.countP_map]
    rfl
  rw [hcount, hcount, hmap]

/-- The block names the default pair when the lines that were left alone do. -/
theorem Overwritten.names_iff (h : Overwritten cfg sets lines updated) {first last : ℕ}
    (hlast : last < lines.length) :
    (∀ d : SSLDirective, ∀ line ∈ blockLines updated first last, d.On line →
        d.NamesDefault cfg line) ↔
      ∀ d : SSLDirective, ∀ i, first ≤ i → i ≤ last → d.On (lines.getD i []) → ¬ sets d i →
        d.NamesDefault cfg (lines.getD i []) := by
  have hlast' : last < updated.length := by rwa [h.length]
  constructor
  · intro hnames d i hfirst hi hon hset
    have hkept : updated.getD i [] = lines.getD i [] := by
      refine h.kept i fun e he => hset ?_
      rwa [SSLDirective.on_unique hon (h.on e i he)]
    rw [← hkept] at hon ⊢
    exact hnames d _ ((mem_blockLines hlast').mpr ⟨i, hfirst, hi, rfl⟩) hon
  · intro hnames d line hline hon
    obtain ⟨i, hfirst, hi, rfl⟩ := (mem_blockLines hlast').mp hline
    by_cases hset : sets d i
    · exact (SSLDirective.written (h.set d i hset)).2
    · have hold := (h.on_iff d i).mp hon
      have hkept : updated.getD i [] = lines.getD i [] := by
        refine h.kept i fun e he => hset ?_
        rwa [SSLDirective.on_unique hold (h.on e i he)]
      rw [hkept]
      exact hnames d i hfirst hi hold hset

end

theorem written_names {cfg : RepairConfig} {new : List Line} {puts : List SSLDirective}
    (h : new.map trimSpaceChars = puts.map (SSLDirective.text cfg)) (d : SSLDirective)
    {line : Line} (hline : line ∈ new) (hon : d.On line) : d.NamesDefault cfg line := by
  have hmem : trimSpaceChars line ∈ puts.map (SSLDirective.text cfg) := by
    rw [← h]
    exact List.mem_map_of_mem hline
  obtain ⟨e, -, he⟩ := List.mem_map.mp hmem
  obtain ⟨hon', hnames⟩ := SSLDirective.written he.symm
  rwa [SSLDirective.on_unique hon hon']

theorem written_count {cfg : RepairConfig} {new : List Line} {puts : List SSLDirective}
    (h : new.map trimSpaceChars = puts.map (SSLDirective.text cfg)) (d : SSLDirective) :
    new.countP (d.On ·) = puts.count d := by
  induction puts generalizing new with
  | nil =>
      rw [List.map_nil, List.map_eq_nil_iff] at h
      rw [h]
      rfl
  | cons e puts ih =>
      cases new with
      | nil => cases h
      | cons line new =>
          obtain ⟨hline, hrest⟩ := List.cons.inj h
          have hon := (SSLDirective.written hline).1
          have hiff : d.On line ↔ e = d :=
            ⟨fun hd => SSLDirective.on_unique hon hd, fun hd => hd ▸ hon⟩
          rw [List.countP_cons, List.count_cons, ih hrest]
          simp only [decide_eq_true_eq, hiff, beq_iff_eq]

/-- The block has the default pair after an edit exactly when the edit completes it. -/
theorem PairEdit.Makes.paired_iff {e : PairEdit} {cfg : RepairConfig} {lines updated : List Line}
    (h : e.Makes cfg lines updated) {first last : ℕ} (hblock : first ≤ last)
    (hlast : last < lines.length) :
    Paired cfg (blockAfter (placeBehind e.behind e.puts.length) updated first last) ↔
      e.Completes cfg lines first last := by
  obtain ⟨hinside, set, new, hset, hnew, rfl⟩ := h
  have hlength : new.length = e.puts.length := by
    simpa using congrArg List.length hnew
  have hcut := @blockAfter_insertAfter set e.behind first last new (by rwa [hset.length]) hblock
    (by rwa [hset.length])
  rw [← hlength, hcut]
  have hnames := @Overwritten.names_iff _ _ _ _ hset first last hlast
  have hcert := hset.countP_block .cert first last
  have hkey := hset.countP_block .key first last
  split_ifs with hin
  · constructor
    · intro hpaired
      refine ⟨hnames.mp fun d line hline => ?_, ?_⟩
      · exact hpaired.names d line (mem_insertAfter.mpr (.inl hline))
      · have hcount := hpaired.count
        rw [countP_insertAfter, countP_insertAfter, hcert, hkey, written_count hnew,
          written_count hnew] at hcount
        rw [if_pos hin, if_pos hin]
        exact hcount
    · intro hcompletes
      refine ⟨fun d line hline hon => ?_, ?_⟩
      · rcases mem_insertAfter.mp hline with hline | hline
        · exact hnames.mpr hcompletes.names d line hline hon
        · exact written_names hnew d hline hon
      · have hcount := hcompletes.count
        rw [if_pos hin, if_pos hin] at hcount
        rw [countP_insertAfter, countP_insertAfter, hcert, hkey, written_count hnew,
          written_count hnew]
        exact hcount
  · constructor
    · intro hpaired
      refine ⟨hnames.mp hpaired.names, ?_⟩
      rw [if_neg hin, if_neg hin, ← hcert, ← hkey]
      exact hpaired.count
    · intro hcompletes
      refine ⟨hnames.mpr hcompletes.names, ?_⟩
      have hcount := hcompletes.count
      rw [if_neg hin, if_neg hin] at hcount
      rw [hcert, hkey]
      exact hcount

end GoSite.Website
