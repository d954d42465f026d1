import GoSite.ClosedSql
import GoSite.SearchReadings

/-!
# What becomes of the text of a search

A query that the pipe splitter takes has no open quote, so each of its tokens is
one of the grammar. The parser loses the expressions that do not compile,
wherever one is looked at, and every `AND` that joins nothing.
-/
namespace GoSite.Observability
open BooleanTrees GoStrings

variable {lib : SearchLib}

/-! ## Quotes and slashes are closed -/

/-- How `splitPipes` stands behind a text. -/
@[grind] def scanMode : SplitMode → Bool → List UInt8 → SplitMode × Bool
  | mode, escaped, [] => (mode, escaped)
  | mode, true, _ :: rest => scanMode mode false rest
  | .regex, false, ch :: rest =>
      if ch = '\\'.toUInt8 then scanMode .regex true rest
      else if ch = '/'.toUInt8 then scanMode .plain false rest
      else scanMode .regex false rest
  | .quote, false, ch :: rest =>
      if ch = '\\'.toUInt8 then scanMode .quote true rest
      else if ch = '"'.toUInt8 then scanMode .plain false rest
      else scanMode .quote false rest
  | .plain, false, ch :: rest =>
      if ch = '"'.toUInt8 then scanMode .quote false rest
      else if ch = '/'.toUInt8 then scanMode .regex false rest
      else scanMode .plain false rest

/-- No quote and no slash is open behind the text. -/
def Closed (text : List UInt8) : Prop := (scanMode .plain false text).1 = .plain

/-- A byte that neither opens nor closes anything. -/
def Neutral (b : UInt8) : Prop := b ≠ '"'.toUInt8 ∧ b ≠ '/'.toUInt8

theorem scanMode_append (mode : SplitMode) (escaped : Bool) (text more : List UInt8) :
    scanMode mode escaped (text ++ more) =
      scanMode (scanMode mode escaped text).1 (scanMode mode escaped text).2 more := by
  induction text generalizing mode escaped with
  | nil => simp [scanMode]
  | cons ch rest ih =>
      cases escaped with
      | true => cases mode <;> exact ih _ _
      | false =>
          cases mode <;> simp only [List.cons_append, scanMode] <;> split_ifs <;> exact ih _ _

theorem scanMode_plain_neutral {text : List UInt8} (h : ∀ b ∈ text, Neutral b) :
    scanMode .plain false text = (.plain, false) := by
  induction text with
  | nil => rfl
  | cons ch rest ih =>
      obtain ⟨hquote, hslash⟩ := h ch List.mem_cons_self
      rw [scanMode, if_neg hquote, if_neg hslash]
      exact ih fun b hb => h b (List.mem_cons_of_mem _ hb)

theorem scanMode_neutral {mode : SplitMode} {escaped : Bool} {text : List UInt8}
    (h : ∀ b ∈ text, Neutral b) : (scanMode mode escaped text).1 = mode := by
  induction text generalizing escaped with
  | nil => cases mode <;> cases escaped <;> rfl
  | cons ch rest ih =>
      obtain ⟨hquote, hslash⟩ := h ch List.mem_cons_self
      have hmem : ∀ b ∈ rest, Neutral b := fun b hb => h b (List.mem_cons_of_mem _ hb)
      have hrest : (scanMode mode false rest).1 = mode := ih hmem
      have hrest' : (scanMode mode true rest).1 = mode := ih hmem
      cases escaped with
      | true => cases mode <;> exact hrest
      | false =>
          cases mode <;> simp only [scanMode, hquote, hslash, if_false]
          · exact hrest
          · split_ifs
            · exact hrest'
            · exact hrest
          · split_ifs
            · exact hrest'
            · exact hrest

theorem neutral_of_space {c : Char} (hc : isSpace c = true) {b : UInt8}
    (hb : b ∈ String.utf8EncodeChar c) : Neutral b := by
  by_cases hascii : c.toNat < 128
  · rw [encodeChar_ascii hascii, List.mem_singleton] at hb
    subst hb
    have hvalue : ∀ n < 128, isSpace (Char.ofNat n) = true →
        UInt8.ofNat n ≠ '"'.toUInt8 ∧ UInt8.ofNat n ≠ '/'.toUInt8 := by decide
    exact hvalue c.toNat hascii (by rwa [Char.ofNat_toNat])
  · have hb' := not_isAscii_of_mem_encodeChar (by omega) hb
    constructor <;> rintro rfl <;> exact hb' (by decide)

theorem closed_trimSpaceBytes {text : List UInt8} (h : Closed text) :
    Closed (trimSpaceBytes text) := by
  obtain ⟨before, after, htext, hwhite⟩ := exists_of_trimSpaceBytes text
  have hneutral : ∀ b ∈ before ++ after, Neutral b := by
    intro b hb
    obtain ⟨c, hc, hbc⟩ := hwhite b hb
    exact neutral_of_space hc hbc
  rw [Closed, htext, scanMode_append, scanMode_append,
    scanMode_plain_neutral fun b hb => hneutral b (List.mem_append_left _ hb),
    scanMode_neutral fun b hb => hneutral b (List.mem_append_right _ hb)] at h
  exact h

/-- Each part between pipes is closed. The first one is a beginning of the text. -/
theorem exists_of_splitPipesLoop {mode : SplitMode} {escaped : Bool} {buf q : List UInt8}
    {parts : List (List UInt8)} (h : splitPipesLoop mode escaped buf q = .ok parts)
    (hmode : mode = .plain → escaped = false) :
    ∃ text rest, parts = trimSpaceBytes (buf ++ text) :: rest ∧ text <+: q ∧
      (scanMode mode escaped text).1 = .plain := by
  induction q generalizing mode escaped buf parts with
  | nil =>
      cases mode with
      | plain => exact ⟨[], [], by simpa [splitPipesLoop] using h.symm, List.prefix_rfl, rfl⟩
      | quote => simp [splitPipesLoop] at h
      | regex => simp [splitPipesLoop] at h
  | cons ch q ih =>
      have hstep : ∀ {mode' : SplitMode} {escaped' : Bool},
          splitPipesLoop mode' escaped' (buf ++ [ch]) q = .ok parts →
          (mode' = .plain → escaped' = false) →
          (∀ text, scanMode mode escaped (ch :: text) = scanMode mode' escaped' text) →
          ∃ text rest, parts = trimSpaceBytes (buf ++ text) :: rest ∧ text <+: ch :: q ∧
            (scanMode mode escaped text).1 = .plain := by
        intro mode' escaped' hloop hmode' hscan
        obtain ⟨text, rest, hparts, hpre, hplain⟩ := ih hloop hmode'
        refine ⟨ch :: text, rest, by simpa using hparts, by simpa using hpre, ?_⟩
        rw [hscan]
        exact hplain
      cases escaped with
      | true =>
          cases mode with
          | plain => exact absurd (hmode rfl) (by decide)
          | quote => exact hstep h (by simp) fun _ => rfl
          | regex => exact hstep h (by simp) fun _ => rfl
      | false =>
          cases mode with
          | quote =>
              rw [splitPipesLoop] at h
              split_ifs at h with hesc hend
              · exact hstep h (by simp) fun text => by rw [scanMode, if_pos hesc]
              · exact hstep h (by simp) fun text => by rw [scanMode, if_neg hesc, if_pos hend]
              · exact hstep h (by simp) fun text => by rw [scanMode, if_neg hesc, if_neg hend]
          | regex =>
              rw [splitPipesLoop] at h
              split_ifs at h with hesc hend
              · exact hstep h (by simp) fun text => by rw [scanMode, if_pos hesc]
              · exact hstep h (by simp) fun text => by rw [scanMode, if_neg hesc, if_pos hend]
              · exact hstep h (by simp) fun text => by rw [scanMode, if_neg hesc, if_neg hend]
          | plain =>
              rw [splitPipesLoop] at h
              split_ifs at h with hquote hslash hpipe
              · exact hstep h (by simp) fun text => by rw [scanMode, if_pos hquote]
              · exact hstep h (by simp) fun text => by rw [scanMode, if_neg hquote, if_pos hslash]
              · cases hloop : splitPipesLoop .plain false [] q with
                | error err => simp [hloop, Except.map] at h
                | ok rest =>
                    rw [hloop] at h
                    exact ⟨[], rest, by simpa using (Except.ok.inj h).symm, List.nil_prefix, rfl⟩
              · exact hstep h (by simp) fun text => by rw [scanMode, if_neg hquote, if_neg hslash]

theorem closed_of_splitPipes {q search : List UInt8} {pipes : List (List UInt8)}
    (h : splitPipes q = .ok (search, pipes)) : Closed search := by
  rw [splitPipes] at h
  cases hloop : splitPipesLoop .plain false [] q with
  | error err => simp [hloop] at h
  | ok parts =>
      obtain ⟨text, rest, rfl, -, hplain⟩ := exists_of_splitPipesLoop hloop fun _ => rfl
      rw [hloop] at h
      dsimp only at h
      obtain ⟨rfl, -⟩ := Prod.mk.inj (Except.ok.inj h)
      exact closed_trimSpaceBytes hplain

/-- A delimiter is found, and what comes after it is closed. -/
theorem scanTo_of_closed {mode : SplitMode} {delim : UInt8}
    (hdelim : mode = .quote ∧ delim = '"'.toUInt8 ∨ mode = .regex ∧ delim = '/'.toUInt8)
    {escaped : Bool} {input : List UInt8} (h : (scanMode mode escaped input).1 = .plain) :
    ∃ text after, scanTo delim escaped input = some (text, after) ∧ Closed after := by
  induction input generalizing escaped with
  | nil => rcases hdelim with ⟨rfl, -⟩ | ⟨rfl, -⟩ <;> cases escaped <;> simp [scanMode] at h
  | cons ch rest ih =>
      have hmore : ∀ {e : Bool}, (scanMode mode e rest).1 = .plain →
          ∃ text after, (scanTo delim e rest).map
            (fun x : List UInt8 × List UInt8 => (ch :: x.1, x.2)) = some (text, after) ∧
            Closed after := by
        intro e he
        obtain ⟨text, after, hscan, hclosed⟩ := ih he
        exact ⟨ch :: text, after, by rw [hscan]; rfl, hclosed⟩
      cases escaped with
      | true => rcases hdelim with ⟨rfl, rfl⟩ | ⟨rfl, rfl⟩ <;> exact hmore h
      | false =>
          rw [scanTo]
          rcases hdelim with ⟨rfl, rfl⟩ | ⟨rfl, rfl⟩ <;> rw [scanMode] at h <;>
            split_ifs at h ⊢ with hesc hend
          · exact hmore h
          · exact ⟨[], rest, rfl, h⟩
          · exact hmore h
          · exact hmore h
          · exact ⟨[], rest, rfl, h⟩
          · exact hmore h

theorem neutral_of_isSpaceByte {b : UInt8} (h : isSpaceByte b = true) : Neutral b := by
  constructor <;> rintro rfl <;> exact absurd h (by decide)

theorem closed_of_neutral_append {before after : List UInt8} (h : Closed (before ++ after))
    (hbefore : ∀ b ∈ before, Neutral b) : Closed after := by
  rw [Closed, scanMode_append, scanMode_plain_neutral hbefore] at h
  exact h

theorem lexeme_of_closed {ch : UInt8} {rest : List UInt8} (h : Closed (ch :: rest)) :
    (lexeme ch rest).1.kind ≠ .eof ∧ Closed (lexeme ch rest).2 := by
  have hskip : ∀ {b : UInt8}, ch = b → Neutral b → Closed rest := by
    rintro b rfl hb
    have hcons : Closed ([ch] ++ rest) := h
    exact closed_of_neutral_append hcons (by simpa using hb)
  rw [lexeme]
  split_ifs with hl hr hq hs
  · exact ⟨by simp, hskip hl ⟨by decide, by decide⟩⟩
  · exact ⟨by simp, hskip hr ⟨by decide, by decide⟩⟩
  · subst hq
    obtain ⟨text, after, hscan, hclosed⟩ := scanTo_of_closed (Or.inl ⟨rfl, rfl⟩) h
    rw [readQuoted, hscan]
    exact ⟨by simp, hclosed⟩
  · subst hs
    obtain ⟨text, after, hscan, hclosed⟩ := scanTo_of_closed (Or.inr ⟨rfl, rfl⟩) h
    rw [regexText, hscan]
    exact ⟨by simp, hclosed⟩
  · refine ⟨(readWord_kind _).1, ?_⟩
    rw [← List.takeWhile_append_dropWhile (p := (!endsWord ·)) (l := ch :: rest)] at h
    refine closed_of_neutral_append h ?_
    intro b hb
    have hword := List.mem_takeWhile_imp hb
    constructor <;> rintro rfl <;> exact absurd hword (by decide)

theorem tokens_kind_ne_eof {input : List UInt8} (h : Closed input) :
    ∀ t ∈ tokens input, t.kind ≠ .eof := by
  induction hlen : input.length using Nat.strong_induction_on generalizing input with
  | _ n ih =>
      cases hskip : skipSpace input with
      | nil => simp [tokens_of_skipSpace_nil hskip]
      | cons ch rest =>
          have hle := skipSpace_length_le input
          have hafter := lexeme_length_le (isSpaceByte_of_skipSpace hskip) rest
          rw [hskip, List.length_cons] at hle
          have hclosed : Closed (ch :: rest) := by
            rw [← List.takeWhile_append_dropWhile (p := isSpaceByte) (l := input)] at h
            rw [← hskip]
            exact closed_of_neutral_append h fun b hb =>
              neutral_of_isSpaceByte (List.mem_takeWhile_imp hb)
          obtain ⟨hkind, hclosed'⟩ := lexeme_of_closed hclosed
          rw [tokens_of_skipSpace hskip]
          intro t ht
          rcases List.mem_cons.mp ht with rfl | ht
          · exact hkind
          · exact ih _ (by omega) hclosed' rfl t ht

theorem searchTokens_kind_ne_eof (q : List UInt8) : ∀ t ∈ searchTokens q, t.kind ≠ .eof := by
  rw [searchTokens]
  cases hsplit : splitPipes (trimSpaceBytes q) with
  | error err => simp
  | ok parts => exact tokens_kind_ne_eof (closed_trimSpaceBytes (closed_of_splitPipes hsplit))

/-! ## What an accepted search stands for -/

/-- The filter has a part for every token. No filter is that of a star. -/
def Represented (lib : SearchLib) (ts : List Token) : Option FilterExpr → Prop
  | none => ts = [] ∨ ts = [⟨.word, "*"⟩]
  | some e => Reads lib False ts (.query e)

/-- Every expression between slashes compiles. -/
def Compiles (lib : SearchLib) (ts : List Token) : Prop :=
  ∀ t ∈ ts, t.kind = .regex → validRegexp lib t.text = true

/-- The search is an error, or every token is represented, and none of them is
an expression that does not compile. -/
def NothingDropped (lib : SearchLib) (q : List UInt8) : Prop :=
  (∀ filter pipes, parseSearch lib q = .ok (filter, pipes) →
    Represented lib (searchTokens q) filter) ∧
  (¬ Compiles lib (searchTokens q) → ∃ err, parseSearch lib q = .error err)

/-- An accepted search: a filter that some readable tokens stand for in the
loose form, which are all of them where all can be read. -/
theorem parseSearch_readsOff {q : List UInt8} {filter : Option FilterExpr} {pipes : List PipeCmd}
    (h : parseSearch lib q = .ok (filter, pipes)) :
    (filter = none ∧ Represented lib (searchTokens q) none) ∨
      ∃ e used, filter = some e ∧ (∀ t ∈ used, Readable lib t) ∧
        Reads lib True used (.query e) ∧ (Compiles lib (searchTokens q) → searchTokens q = used) := by
  rw [parseSearch] at h
  dsimp only at h
  split_ifs at h with hempty
  · obtain ⟨rfl, -⟩ := Prod.mk.inj (Except.ok.inj h)
    refine Or.inl ⟨rfl, ?_⟩
    rw [searchTokens]
    rcases hempty with hempty | hempty <;> rw [hempty]
    · exact Or.inl rfl
    · exact Or.inr rfl
  · cases hsplit : splitPipes (trimSpaceBytes q) with
    | error err => simp [hsplit] at h
    | ok parts =>
        obtain ⟨search, rest⟩ := parts
        have htokens : searchTokens q = tokens (trimSpaceBytes search) := by
          rw [searchTokens, hsplit]
        rw [hsplit] at h
        dsimp only at h
        cases hpipes : rest.mapM (parsePipe lib) with
        | error err => simp [hpipes] at h
        | ok cmds =>
            rw [hpipes] at h
            dsimp only at h
            split_ifs at h with hblank
            · obtain ⟨rfl, -⟩ := Prod.mk.inj (Except.ok.inj h)
              exact Or.inl ⟨rfl, Or.inl (by rw [htokens, hblank]; rfl)⟩
            · cases hparse : parseOr lib (parseFuel (trimSpaceBytes search))
                  (trimSpaceBytes search) with
              | error err => simp [hparse] at h
              | ok result =>
                  rw [hparse] at h
                  dsimp only at h
                  split_ifs at h with heof
                  obtain ⟨rfl, -⟩ := Prod.mk.inj (Except.ok.inj h)
                  obtain ⟨used, hused, hread, hall⟩ :=
                    (parsers_readsOff lib _).1 (trimSpaceBytes search) result.1 result.2 hparse
                  refine Or.inr ⟨result.1, used, rfl, hused, hread, fun hcompiles => ?_⟩
                  have hgood : ∀ t ∈ tokens (trimSpaceBytes search), Readable lib t := by
                    rw [← htokens]
                    exact fun t ht => ⟨searchTokens_kind_ne_eof q t ht, hcompiles t ht⟩
                  have heq := hall hgood
                  have hnil := (peek_eof_iff (readable_rest hgood heq)).mp (not_not.mp heof)
                  rw [htokens, heq, hnil, List.append_nil]

theorem compiles_of_represented {q : List UInt8} {filter : Option FilterExpr}
    {pipes : List PipeCmd} (h : parseSearch lib q = .ok (filter, pipes))
    (hrep : Represented lib (searchTokens q) filter) : Compiles lib (searchTokens q) := by
  intro t ht hkind
  rcases parseSearch_readsOff h with ⟨rfl, hnone⟩ | ⟨e, used, rfl, hused, hread, -⟩
  · rcases hnone with hnil | hstar
    · simp [hnil] at ht
    · rw [hstar, List.mem_singleton] at ht
      simp [ht] at hkind
  · obtain ⟨field, hp⟩ := (Reads.cut hrep).regex ht hkind
    exact hread.cut.valid hused hp rfl

/-- An accepted search has a part for every token exactly where every expression
between slashes compiles and every `AND` joins two operands. -/
theorem nothing_dropped_iff (lib : SearchLib) (q : List UInt8) (filter : Option FilterExpr)
    (pipes : List PipeCmd) (h : parseSearch lib q = .ok (filter, pipes)) :
    NothingDropped lib q ↔
      Compiles lib (searchTokens q) ∧ andsJoin .eof .eof (searchTokens q) = true := by
  constructor
  · rintro ⟨hrep, -⟩
    have hfilter := hrep filter pipes h
    refine ⟨compiles_of_represented h hfilter, ?_⟩
    cases filter with
    | none => rcases hfilter with hnil | hstar <;> simp [*, andsJoin]
    | some e => exact ((Reads.joined_of_strict hfilter) .eof .eof).1
  · rintro ⟨hcompiles, hands⟩
    refine ⟨?_, fun hnot => absurd hcompiles hnot⟩
    intro filter' pipes' h'
    rcases parseSearch_readsOff h' with ⟨rfl, hnone⟩ | ⟨e, used, rfl, -, hread, hall⟩
    · exact hnone
    · rw [← hall hcompiles] at hread
      exact hread.strict hands ⟨rfl, rfl⟩

/-- `a AND b`, as bytes. -/
def joinedSearch : List UInt8 := [97, 32, 65, 78, 68, 32, 98]

theorem nothing_dropped_iff_joined :
    parseSearch asciiLib joinedSearch =
        .ok (some (.and [.leaf ⟨"", .contains, "a"⟩, .leaf ⟨"", .contains, "b"⟩]), []) ∧
      (NothingDropped asciiLib joinedSearch ↔
        Compiles asciiLib (searchTokens joinedSearch) ∧
          andsJoin .eof .eof (searchTokens joinedSearch) = true) :=
  ⟨by rfl, nothing_dropped_iff asciiLib joinedSearch _ [] (by rfl)⟩

/-- `foo /[/`, as bytes. -/
def brokenSearch : List UInt8 := [102, 111, 111, 32, 47, 91, 47]

/-- The search is that of `foo`. -/
theorem broken_expression_is_dropped :
    parseSearch asciiLib brokenSearch = .ok (some (.leaf ⟨"", .contains, "foo"⟩), []) ∧
      ¬ NothingDropped asciiLib brokenSearch := by
  have hparse : parseSearch asciiLib brokenSearch =
      .ok (some (.leaf ⟨"", .contains, "foo"⟩), []) := by rfl
  have htokens : searchTokens brokenSearch = [⟨.word, "foo"⟩, ⟨.regex, "["⟩] := by rfl
  refine ⟨hparse, fun h => ?_⟩
  have hbroken : ¬ Compiles asciiLib (searchTokens brokenSearch) := by
    intro hcompiles
    have hvalid := hcompiles ⟨.regex, "["⟩ (by simp [htokens]) rfl
    exact absurd hvalid (by decide)
  obtain ⟨err, herr⟩ := h.2 hbroken
  simp [hparse] at herr

end GoSite.Observability
