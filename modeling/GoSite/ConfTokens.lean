import GoSite.GoStrings

/-!
# Tokens of an nginx configuration

The words, marks, blanks and comments that nginx reads a configuration as; together they
are the text. Replacing the first occurrence of a plain word in a text replaces it in the
first token that has it, and all other tokens stay as they are.
-/
namespace GoSite.NginxConf

abbrev Text := List Char

inductive TokenKind where
  | blank
  | comment
  | mark
  | word
  deriving Repr, DecidableEq

/-- A token as it stands in the text. A quoted word has its quotes. -/
structure Token where
  kind : TokenKind
  text : Text
  deriving Repr, DecidableEq

/-- What the character before it means for the next one. -/
inductive Last where
  | plain
  | dollar
  | backslash
  deriving Repr, DecidableEq

/-- Where the reader is. Behind a quoted word it is between two words: what may not follow
there is an error for nginx. -/
inductive LexMode where
  | between
  | comment
  | word (last : Last)
  | quoted (double : Bool) (last : Last)
  deriving Repr, DecidableEq

def blank (c : Char) : Bool := c = ' ' ∨ c = '\t' ∨ c = '\n' ∨ c = '\r'

def quoteOf (double : Bool) : Char := if double then '"' else '\''

/-- One character of `ngx_conf_read_token`: the next mode, and the kind of the token that
begins here, if one does. -/
def LexMode.next : LexMode → Char → LexMode × Option TokenKind
  | .between, c =>
      if blank c then (.between, some .blank)
      else if c = ';' ∨ c = '{' ∨ c = '}' then (.between, some .mark)
      else if c = '#' then (.comment, some .comment)
      else if c = '\\' then (.word .backslash, some .word)
      else if c = '"' then (.quoted true .plain, some .word)
      else if c = '\'' then (.quoted false .plain, some .word)
      else if c = '$' then (.word .dollar, some .word)
      else (.word .plain, some .word)
  | .comment, c => if c = '\n' then (.between, some .blank) else (.comment, none)
  | .word last, c =>
      if last = .backslash then (.word .plain, none)
      else if last = .dollar ∧ c = '{' then (.word .dollar, none)
      else if c = '\\' then (.word .backslash, none)
      else if c = '$' then (.word .dollar, none)
      else if blank c then (.between, some .blank)
      else if c = ';' ∨ c = '{' then (.between, some .mark)
      else (.word .plain, none)
  | .quoted double last, c =>
      if last = .backslash then (.quoted double .plain, none)
      else if last = .dollar ∧ c = '{' then (.quoted double .dollar, none)
      else if c = '\\' then (.quoted double .backslash, none)
      else if c = '$' then (.quoted double .dollar, none)
      else if c = quoteOf double then (.between, none)
      else (.quoted double .plain, none)

/-- What a text adds to the token that is being read, and the tokens behind it. -/
@[grind] def lexFrom : LexMode → Text → Text × List Token
  | _, [] => ([], [])
  | m, c :: cs =>
      let rest := lexFrom (m.next c).1 cs
      match (m.next c).2 with
      | some kind => ([], ⟨kind, c :: rest.1⟩ :: rest.2)
      | none => (c :: rest.1, rest.2)

/-- The tokens of a text. -/
def tokens (text : Text) : List Token := (lexFrom .between text).2

/-- A character that nginx reads as a part of a word wherever it stands. -/
def PlainChar (c : Char) : Prop :=
  blank c = false ∧ c ∉ [';', '{', '}', '#', '\\', '"', '\'', '$']

instance (c : Char) : Decidable (PlainChar c) := by
  unfold PlainChar
  infer_instance

/-- A path with a separator in it that nginx reads as one word. -/
structure PlainPath where
  text : Text
  plain : ∀ c ∈ text, PlainChar c
  separated : '/' ∈ text

/-- `strings.Replace` of the first occurrence. -/
@[grind] def replaceFirst (old new : Text) : Text → Text
  | [] => []
  | c :: cs =>
      if old <+: c :: cs then new ++ (c :: cs).drop old.length else c :: replaceFirst old new cs

/-- The first occurrence replaced in the first token that has one. -/
@[grind] def editFirst (old new : Text) : List Token → List Token
  | [] => []
  | t :: ts =>
      if old <:+: t.text then { t with text := replaceFirst old new t.text } :: ts
      else t :: editFirst old new ts

/-- The value of a word: what is between its quotes. The escapes in it stay as they are. -/
def argValue (text : Text) : Text :=
  let quoted : Bool := (text.head? = some '"' ∧ text.getLast? = some '"' ∨
    text.head? = some '\'' ∧ text.getLast? = some '\'') ∧ 2 ≤ text.length
  if quoted then text.tail.dropLast else text

/-- How far the reader is in a statement. -/
inductive Statement where
  | start
  | named
  | other
  deriving Repr, DecidableEq

/-- The reader looks for the statements of some names. -/
def Token.follow (names : List Text) (t : Token) (s : Statement) : Statement :=
  match t.kind with
  | .blank | .comment => s
  | .mark => .start
  | .word => if s = .start ∧ argValue t.text ∈ names then .named else .other

/-- Whether each token is the first argument of a statement of one of the names. -/
@[grind] def argFlags (names : List Text) : Statement → List Token → List Bool
  | _, [] => []
  | s, t :: ts => (s = .named ∧ t.kind = .word) :: argFlags names (t.follow names s) ts

/-- The first arguments of the statements of some names. -/
@[grind] def firstArgs (names : List Text) : Statement → List Token → List Text
  | _, [] => []
  | s, t :: ts =>
      if s = .named ∧ t.kind = .word then
        argValue t.text :: firstArgs names (t.follow names s) ts
      else firstArgs names (t.follow names s) ts

/-- The word `include`. -/
def includeWord : Text := ['i', 'n', 'c', 'l', 'u', 'd', 'e']

/-- The token is the path of an `include`. -/
def IncludePath (ts : List Token) (i : ℕ) : Prop :=
  (argFlags [includeWord] .start ts)[i]? = some true

instance (ts : List Token) (i : ℕ) : Decidable (IncludePath ts i) := by
  unfold IncludePath
  infer_instance

/-- The first token with an occurrence. -/
def holder (old : Text) (ts : List Token) : Option ℕ := ts.findIdx? fun t => old <:+: t.text

def Token.edit (old new : Text) (t : Token) : Token :=
  { t with text := replaceFirst old new t.text }

/-! ## Reading a plain word -/

/-- The mode behind a plain character. -/
def LexMode.settled : LexMode → LexMode
  | .between => .word .plain
  | .comment => .comment
  | .word _ => .word .plain
  | .quoted double _ => .quoted double .plain

theorem next_plain {c : Char} (h : PlainChar c) (m : LexMode) :
    m.next c = (m.settled, if m = .between then some .word else none) := by
  obtain ⟨hblank, hmarks⟩ := h
  simp only [List.mem_cons, List.not_mem_nil, or_false, not_or] at hmarks
  obtain ⟨hsemi, hopen, hclose, hsharp, hslash, hdouble, hsingle, hdollar⟩ := hmarks
  have hlf : c ≠ '\n' := by
    rintro rfl
    exact absurd hblank (by decide)
  cases m with
  | between =>
      simp [LexMode.next, LexMode.settled, hblank, hsemi, hopen, hclose, hsharp, hslash, hdouble,
        hsingle, hdollar]
  | comment => simp [LexMode.next, LexMode.settled, hlf]
  | word last =>
      cases last <;> simp [LexMode.next, LexMode.settled, hblank, hsemi, hopen, hslash, hdollar]
  | quoted double last =>
      have hquote : c ≠ quoteOf double := by
        cases double
        · exact hsingle
        · exact hdouble
      cases last <;> simp [LexMode.next, LexMode.settled, hopen, hslash, hdollar, hquote]

theorem settled_ne (m : LexMode) : m.settled ≠ .between := by
  cases m <;> simp [LexMode.settled]

theorem settled_settled (m : LexMode) : m.settled.settled = m.settled := by
  cases m <;> rfl

/-- A plain word is read as one piece. -/
theorem lexFrom_plain {word : Text} (hword : ∀ c ∈ word, PlainChar c) (hne : word ≠ [])
    (m : LexMode) (rest : Text) :
    lexFrom m (word ++ rest) =
      if m = .between then
        ([], ⟨.word, word ++ (lexFrom m.settled rest).1⟩ :: (lexFrom m.settled rest).2)
      else (word ++ (lexFrom m.settled rest).1, (lexFrom m.settled rest).2) := by
  induction word generalizing m with
  | nil => exact absurd rfl hne
  | cons c word ih =>
      obtain ⟨hc, hword⟩ := List.forall_mem_cons.mp hword
      have hrest : lexFrom m.settled (word ++ rest) =
          (word ++ (lexFrom m.settled rest).1, (lexFrom m.settled rest).2) := by
        cases word with
        | nil => rfl
        | cons d word =>
            rw [ih hword (List.cons_ne_nil _ _), if_neg (settled_ne m), settled_settled]
      rw [List.cons_append, lexFrom, next_plain hc]
      dsimp only
      rw [hrest]
      split_ifs <;> rfl

/-- What is added to a token is the beginning of the text. -/
theorem lexFrom_prefix (m : LexMode) (text : Text) : (lexFrom m text).1 <+: text := by
  induction text generalizing m with
  | nil => exact List.nil_prefix
  | cons c cs ih =>
      rw [lexFrom]
      cases (m.next c).2 with
      | some kind => exact List.nil_prefix
      | none => exact List.cons_prefix_cons.mpr ⟨rfl, ih _⟩

/-! ## Replacing a plain word -/

theorem replaceFirst_prefix {old : Text} (hne : old ≠ []) (new rest : Text) :
    replaceFirst old new (old ++ rest) = new ++ rest := by
  cases old with
  | nil => exact absurd rfl hne
  | cons c old =>
      rw [List.cons_append, replaceFirst, if_pos ⟨rest, rfl⟩, ← List.cons_append,
        List.drop_left]

theorem replaceFirst_of_not_infix {old : Text} (new : Text) {text : Text} (h : ¬ old <:+: text) :
    replaceFirst old new text = text := by
  induction text with
  | nil => rfl
  | cons c cs ih =>
      rw [List.infix_cons_iff, not_or] at h
      rw [replaceFirst, if_neg h.1, ih h.2]

theorem replaceFirst_infix {old : Text} (hne : old ≠ []) (new : Text) {text : Text}
    (h : old <:+: text) :
    ∃ front back, text = front ++ old ++ back ∧
      replaceFirst old new text = front ++ new ++ back := by
  induction text with
  | nil => exact absurd (List.infix_nil.mp h) hne
  | cons c cs ih =>
      by_cases hpre : old <+: c :: cs
      · obtain ⟨back, hback⟩ := hpre
        refine ⟨[], back, hback.symm, ?_⟩
        rw [← hback, replaceFirst_prefix hne]
        rfl
      · obtain ⟨front, back, hcs, hnew⟩ := ih ((List.infix_cons_iff.mp h).resolve_left hpre)
        refine ⟨c :: front, back, by rw [hcs]; rfl, ?_⟩
        rw [replaceFirst, if_neg hpre, hnew]
        rfl

/-- The first occurrence of a plain word lies in the first token that has it. -/
theorem lexFrom_replaceFirst {old new : Text} (hold : ∀ c ∈ old, PlainChar c) (hne : old ≠ [])
    (hnew : ∀ c ∈ new, PlainChar c) (hne' : new ≠ []) (m : LexMode) (text : Text) :
    lexFrom m (replaceFirst old new text) =
      if old <:+: (lexFrom m text).1 then
        (replaceFirst old new (lexFrom m text).1, (lexFrom m text).2)
      else ((lexFrom m text).1, editFirst old new (lexFrom m text).2) := by
  have hempty : ¬ old <:+: [] := fun h => hne (List.infix_nil.mp h)
  induction text generalizing m with
  | nil =>
      rw [replaceFirst, lexFrom, if_neg hempty]
      rfl
  | cons c cs ih =>
      by_cases hpre : old <+: c :: cs
      · obtain ⟨rest, hrest⟩ := hpre
        have hfound : ∀ more : Text, old <:+: old ++ more := fun more =>
          (List.prefix_append old more).isInfix
        rw [← hrest, replaceFirst_prefix hne, lexFrom_plain hnew hne', lexFrom_plain hold hne]
        by_cases hm : m = .between
        · rw [if_pos hm, if_pos hm]
          dsimp only
          rw [if_neg hempty, editFirst, if_pos (hfound _), replaceFirst_prefix hne]
        · rw [if_neg hm, if_neg hm]
          dsimp only
          rw [if_pos (hfound _), replaceFirst_prefix hne]
      · have hcont : ¬ old <+: c :: (lexFrom (m.next c).1 cs).1 := fun h =>
          hpre (h.trans (List.cons_prefix_cons.mpr ⟨rfl, lexFrom_prefix _ cs⟩))
        have hfound : old <:+: c :: (lexFrom (m.next c).1 cs).1 ↔
            old <:+: (lexFrom (m.next c).1 cs).1 := by
          rw [List.infix_cons_iff, or_iff_right hcont]
        have hreplace : replaceFirst old new (c :: (lexFrom (m.next c).1 cs).1) =
            c :: replaceFirst old new (lexFrom (m.next c).1 cs).1 := by
          rw [replaceFirst, if_neg hcont]
        rw [replaceFirst, if_neg hpre, lexFrom, lexFrom, ih]
        cases hkind : (m.next c).2 with
        | some kind =>
            dsimp only
            rw [if_neg hempty, editFirst]
            simp only [hfound, hreplace]
            split_ifs <;> rfl
        | none =>
            dsimp only
            simp only [hfound, hreplace]
            split_ifs <;> rfl

theorem lexFrom_between (text : Text) : (lexFrom .between text).1 = [] := by
  cases text with
  | nil => rfl
  | cons c cs =>
      have hstarts : ∃ kind, (LexMode.between.next c).2 = some kind := by
        simp only [LexMode.next]
        split_ifs <;> exact ⟨_, rfl⟩
      obtain ⟨kind, hkind⟩ := hstarts
      rw [lexFrom, hkind]

theorem tokens_replaceFirst {old new : Text} (hold : ∀ c ∈ old, PlainChar c) (hne : old ≠ [])
    (hnew : ∀ c ∈ new, PlainChar c) (hne' : new ≠ []) (text : Text) :
    tokens (replaceFirst old new text) = editFirst old new (tokens text) := by
  rw [tokens, lexFrom_replaceFirst hold hne hnew hne', lexFrom_between,
    if_neg fun h => hne (List.infix_nil.mp h), tokens]

/-- The tokens together are the text. -/
theorem flatMap_tokens (text : Text) : (tokens text).flatMap Token.text = text := by
  have hlossless : ∀ m, (lexFrom m text).1 ++ (lexFrom m text).2.flatMap Token.text = text := by
    induction text with
    | nil => exact fun _ => rfl
    | cons c cs ih =>
        intro m
        have hrest := ih (m.next c).1
        rw [lexFrom]
        cases (m.next c).2 with
        | some kind => simpa using hrest
        | none => simpa using hrest
  have hall := hlossless .between
  rwa [lexFrom_between, List.nil_append] at hall

/-! ## The edited token -/

theorem getElem?_editFirst (old new : Text) (ts : List Token) (j : ℕ) :
    (editFirst old new ts)[j]? =
      if holder old ts = some j then ts[j]?.map (Token.edit old new) else ts[j]? := by
  induction ts generalizing j with
  | nil => simp [editFirst]
  | cons t ts ih =>
      simp only [editFirst, holder, List.findIdx?_cons, decide_eq_true_eq]
      by_cases hold : old <:+: t.text
      · rw [if_pos hold, if_pos hold]
        cases j with
        | zero => simp [Token.edit]
        | succ j => simp
      · rw [if_neg hold, if_neg hold, ← holder]
        cases j with
        | zero => simp
        | succ j => simpa using ih j

theorem length_editFirst (old new : Text) (ts : List Token) :
    (editFirst old new ts).length = ts.length := by
  induction ts with
  | nil => rfl
  | cons t ts ih =>
      rw [editFirst]
      split_ifs
      · rfl
      · rw [List.length_cons, List.length_cons, ih]

theorem holder_some {old : Text} {ts : List Token} {k : ℕ} (h : holder old ts = some k) :
    ∃ t, ts[k]? = some t ∧ old <:+: t.text := by
  rw [holder, List.findIdx?_eq_some_iff_getElem] at h
  obtain ⟨hk, hold, -⟩ := h
  exact ⟨ts[k], List.getElem?_eq_getElem hk, by simpa using hold⟩

/-- The first token with an occurrence depends only on which tokens have one. -/
theorem holder_congr {old : Text} {ts us : List Token} (hlength : ts.length = us.length)
    (h : ∀ (j : ℕ) (t u : Token), ts[j]? = some t → us[j]? = some u →
      (old <:+: t.text ↔ old <:+: u.text)) :
    holder old ts = holder old us := by
  induction ts generalizing us with
  | nil =>
      rw [List.eq_nil_of_length_eq_zero hlength.symm]
  | cons t ts ih =>
      cases us with
      | nil => exact absurd hlength (by simp)
      | cons u us =>
          have hhead : old <:+: t.text ↔ old <:+: u.text := h 0 t u rfl rfl
          have htail : holder old ts = holder old us :=
            ih (Nat.succ.inj hlength) fun j => h (j + 1)
          rw [holder, holder] at htail
          simp only [holder, List.findIdx?_cons, hhead, htail]

/-- A plain word stands in the text when it stands in one of the tokens. -/
theorem infix_iff_holder {old : Text} (hold : ∀ c ∈ old, PlainChar c) (hne : old ≠ [])
    (text : Text) : old <:+: text ↔ (holder old (tokens text)).isSome := by
  constructor
  · intro hinfix
    by_contra hnone
    rw [Bool.not_eq_true, Option.isSome_eq_false_iff, Option.isNone_iff_eq_none] at hnone
    obtain ⟨front, back, htext, hreplace⟩ := replaceFirst_infix hne (old ++ old) hinfix
    -- The word put in twice changes the text, but no token.
    have hsame : tokens (replaceFirst old (old ++ old) text) = tokens text := by
      have hplain : ∀ c ∈ old ++ old, PlainChar c := fun c hc =>
        (List.mem_append.mp hc).elim (hold c) (hold c)
      rw [tokens_replaceFirst hold hne hplain (by simp [hne])]
      refine List.ext_getElem? fun j => ?_
      rw [getElem?_editFirst, hnone, if_neg (by simp)]
    have htexts := congrArg (List.flatMap Token.text) hsame
    rw [flatMap_tokens, flatMap_tokens, hreplace] at htexts
    have hlength := congrArg List.length (htexts.trans htext)
    simp only [List.length_append] at hlength
    exact hne (List.length_eq_zero_iff.mp (by omega))
  · intro hsome
    obtain ⟨k, hk⟩ := Option.isSome_iff_exists.mp hsome
    obtain ⟨t, ht, hinfix⟩ := holder_some hk
    have htoken : t.text <:+: (tokens text).flatMap Token.text :=
      List.infix_of_mem_flatten (List.mem_map.mpr ⟨t, List.mem_of_getElem? ht, rfl⟩)
    rw [flatMap_tokens] at htoken
    exact hinfix.trans htoken

/-- The value of a word with a plain part: the rest of it is there, or loses its quotes. -/
theorem argValue_around {word : Text} (hword : ∀ c ∈ word, PlainChar c) (hne : word ≠ [])
    (front back : Text) :
    argValue (front ++ word ++ back) = front ++ word ++ back ∨
      ∃ q front' back', front = q :: front' ∧ back = back' ++ [q] ∧
        (q = '"' ∨ q = '\'') ∧ argValue (front ++ word ++ back) = front' ++ word ++ back' := by
  have hplain : ∀ q, q = '"' ∨ q = '\'' → q ∉ word := by
    rintro q hq hmem
    have hchar := hword q hmem
    rcases hq with rfl | rfl <;> exact absurd hchar (by decide)
  by_cases hquoted : ∃ q, (q = '"' ∨ q = '\'') ∧ (front ++ word ++ back).head? = some q ∧
      (front ++ word ++ back).getLast? = some q ∧ 2 ≤ (front ++ word ++ back).length
  · obtain ⟨q, hq, hhead, hlast, hlength⟩ := hquoted
    have hvalue : argValue (front ++ word ++ back) = (front ++ word ++ back).tail.dropLast := by
      simp only [argValue, hhead, hlast, hlength]
      rcases hq with rfl | rfl <;> rfl
    cases front with
    | nil =>
        cases word with
        | nil => exact absurd rfl hne
        | cons c word =>
            obtain rfl := Option.some.inj hhead
            exact absurd List.mem_cons_self (hplain c hq)
    | cons c front =>
        obtain rfl := Option.some.inj hhead
        rcases List.eq_nil_or_concat back with rfl | ⟨back, d, rfl⟩
        · have hmem : c ∈ word := by
            rw [List.append_nil, List.getLast?_append_of_ne_nil _ hne] at hlast
            exact List.mem_of_getLast? hlast
          exact absurd hmem (hplain c hq)
        · rw [List.concat_eq_append, ← List.append_assoc, List.getLast?_concat,
            Option.some.injEq] at hlast
          subst hlast
          refine .inr ⟨d, front, back, rfl, by simp, hq, ?_⟩
          rw [hvalue]
          simp [List.dropLast_append_of_ne_nil]
  · refine .inl ?_
    rw [argValue, if_neg]
    simp only [decide_eq_true_eq]
    rintro ⟨⟨hhead, hlast⟩ | ⟨hhead, hlast⟩, hlength⟩
    · exact hquoted ⟨_, .inl rfl, hhead, hlast, hlength⟩
    · exact hquoted ⟨_, .inr rfl, hhead, hlast, hlength⟩

theorem argValue_quoted {q : Char} (hq : q = '"' ∨ q = '\'') (word : Text) :
    argValue (q :: (word ++ [q])) = word := by
  have hlast : (q :: (word ++ [q])).getLast? = some q := by
    rw [← List.cons_append, List.getLast?_concat]
  have htail : (q :: (word ++ [q])).tail.dropLast = word := by simp
  rw [argValue, hlast, htail, if_pos]
  rcases hq with rfl | rfl <;> simp

/-- A word that is the whole value of an argument can be put in for another one. -/
theorem argValue_swap {word word' : Text} (hword : ∀ c ∈ word, PlainChar c) (hne : word ≠ [])
    (hword' : ∀ c ∈ word', PlainChar c) (hne' : word' ≠ []) {front back : Text}
    (h : argValue (front ++ word ++ back) = word) :
    argValue (front ++ word' ++ back) = word' := by
  have hempty : ∀ a b : Text, a ++ word ++ b = word → a = [] ∧ b = [] := by
    intro a b heq
    have hlength := congrArg List.length heq
    simp only [List.length_append] at hlength
    exact ⟨List.length_eq_zero_iff.mp (by omega), List.length_eq_zero_iff.mp (by omega)⟩
  rcases argValue_around hword hne front back with hvalue | ⟨q, front', back', rfl, rfl, hq, hvalue⟩
  · obtain ⟨rfl, rfl⟩ := hempty front back (hvalue.symm.trans h)
    rcases argValue_around hword' hne' [] [] with hvalue' | ⟨_, _, _, hnil, -⟩
    · simpa using hvalue'
    · cases hnil
  · obtain ⟨rfl, rfl⟩ := hempty front' back' (hvalue.symm.trans h)
    simpa using argValue_quoted hq word'

theorem argValue_infix {word text : Text} (hword : ∀ c ∈ word, PlainChar c) (hne : word ≠ [])
    (h : word <:+: text) : word <:+: argValue text := by
  obtain ⟨front, back, rfl⟩ := h
  rcases argValue_around hword hne front back with hvalue | ⟨q, front', back', -, -, -, hvalue⟩
  · rw [hvalue]
    exact ⟨front, back, rfl⟩
  · rw [hvalue]
    exact ⟨front', back', rfl⟩

/-- Paths for paths: an edit makes no statement of a name and drops none. -/
theorem argFlags_editFirst {old new : Text} (hold : ∀ c ∈ old, PlainChar c) (hold' : '/' ∈ old)
    (hnew : ∀ c ∈ new, PlainChar c) (hnew' : '/' ∈ new) {names : List Text}
    (hnames : ∀ name ∈ names, '/' ∉ name) (s : Statement) (ts : List Token) :
    argFlags names s (editFirst old new ts) = argFlags names s ts := by
  have hpath : ∀ {word text : Text}, (∀ c ∈ word, PlainChar c) → '/' ∈ word → word <:+: text →
      argValue text ∉ names := by
    intro word text hword hsep hinfix hmem
    have hvalue := argValue_infix hword (List.ne_nil_of_mem hsep) hinfix
    exact hnames _ hmem (hvalue.subset hsep)
  induction ts generalizing s with
  | nil => rfl
  | cons t ts ih =>
      rw [editFirst]
      split_ifs with hinfix
      · obtain ⟨front, back, -, hedit⟩ :=
          replaceFirst_infix (List.ne_nil_of_mem hold') new hinfix
        have hbefore := hpath hold hold' hinfix
        have hafter : argValue (replaceFirst old new t.text) ∉ names :=
          hpath hnew hnew' (hedit ▸ ⟨front, back, rfl⟩)
        have hfollow : ({ t with text := replaceFirst old new t.text } : Token).follow names s =
            t.follow names s := by
          simp only [Token.follow, hbefore, hafter, and_false, if_false]
        rw [argFlags, argFlags, hfollow]
      · rw [argFlags, argFlags, ih]

end GoSite.NginxConf
