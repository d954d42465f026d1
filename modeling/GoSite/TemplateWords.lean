import GoSite.ConfTokens

/-!
# Words of a template

A template of an nginx configuration is a list of characters and keys, and each key is a
part of a word. Filled with texts it keeps its words and marks exactly when each text can
be an argument, and one that shares its word with other characters has no quotes.
-/
namespace GoSite.NginxConf

section
variable {ι : Type*}

/-- The template with a text for each key. -/
def textOf (f : ι → Text) (w : List (Char ⊕ ι)) : Text :=
  w.flatMap (Sum.elim (fun c => [c]) f)

/-- nginx acts on words and marks only. -/
def TokenKind.significant (kind : TokenKind) : Bool := kind = .word ∨ kind = .mark

/-- The words and the marks. -/
def statements (ts : List Token) : List Token := ts.filter (·.kind.significant)

/-- A token of a template. -/
structure TemplateToken (ι : Type*) where
  kind : TokenKind
  pieces : List (Char ⊕ ι)

/-- The mode behind a piece, and the kind of the token that begins with it. A key is read
as a plain character. -/
def LexMode.nextPiece (m : LexMode) : Char ⊕ ι → LexMode × Option TokenKind
  | .inl c => m.next c
  | .inr _ => (m.settled, if m = .between then some .word else none)

/-- What a template adds to the token that is being read, and the tokens behind it. -/
@[grind] def lexPieces : LexMode → List (Char ⊕ ι) → List (Char ⊕ ι) × List (TemplateToken ι)
  | _, [] => ([], [])
  | m, piece :: w =>
      let rest := lexPieces (m.nextPiece piece).1 w
      match (m.nextPiece piece).2 with
      | some kind => ([], ⟨kind, piece :: rest.1⟩ :: rest.2)
      | none => (piece :: rest.1, rest.2)

/-- The words and the marks of a template, with a text for each key. -/
def statementsOf (f : ι → Text) (ts : List (TemplateToken ι)) : List Token :=
  (ts.filter (·.kind.significant)).map fun t => ⟨t.kind, textOf f t.pieces⟩

/-- The filled template has the words and marks of the template. In a comment it does not
matter what is added to it. -/
def Agrees (f : ι → Text) (m : LexMode) (w : List (Char ⊕ ι)) : Prop :=
  (m ≠ .comment → (lexFrom m (textOf f w)).1 = textOf f (lexPieces m w).1) ∧
    statements (lexFrom m (textOf f w)).2 = statementsOf f (lexPieces m w).2

/-- A text that is one argument in front of a semicolon. -/
def Argument (v : Text) : Prop := tokens (v ++ [';']) = [⟨.word, v⟩, ⟨.mark, [';']⟩]

instance (v : Text) : Decidable (Argument v) := inferInstanceAs (Decidable (_ = _))

def Quoted (v : Text) : Prop := v.head? = some '"' ∨ v.head? = some '\''

instance (v : Text) : Decidable (Quoted v) := inferInstanceAs (Decidable (_ ∨ _))

/-- The keys that are arguments of their own, and those that share a word with other
characters, from those that are known. A key in any other place is not provided for. -/
@[grind] def slots [DecidableEq ι] :
    LexMode → List ι → List ι → List (Char ⊕ ι) → Option (List ι × List ι)
  | _, arguments, bare, [] => some (arguments, bare)
  | m, arguments, bare, .inl c :: w => slots (m.next c).1 arguments bare w
  | m, arguments, bare, .inr p :: w =>
      match w.head? with
      | some (.inl c) =>
          if m = .between ∧ c = ';' then slots (.word .plain) (p :: arguments) bare w
          else if p ∈ arguments ∧ PlainChar c ∧ m = .between then
            slots (.word .plain) arguments (p :: bare) w
          else if p ∈ arguments ∧ PlainChar c ∧ m = .word .plain ∧ p ∈ bare then
            slots (.word .plain) arguments bare w
          else none
      | _ => none

end

/-! ## One character -/

/-- What the kind of a token says of the mode in it. -/
theorem next_some {m : LexMode} {c : Char} {kind : TokenKind} (h : (m.next c).2 = some kind) :
    (kind = .blank → (m.next c).1 = .between) ∧ (kind = .comment → (m.next c).1 = .comment) ∧
      (kind.significant = true → (m.next c).1 ≠ .comment) := by
  cases m with
  | between =>
      simp only [LexMode.next] at h ⊢
      split_ifs at h ⊢ <;> (obtain rfl := Option.some.inj h) <;> decide
  | comment =>
      simp only [LexMode.next] at h ⊢
      split_ifs at h ⊢
      obtain rfl := Option.some.inj h
      decide
  | word last =>
      simp only [LexMode.next] at h ⊢
      split_ifs at h ⊢ <;> (obtain rfl := Option.some.inj h) <;> decide
  | quoted double last =>
      simp only [LexMode.next] at h
      split_ifs at h

/-- A comment goes on, and nothing else becomes one. -/
theorem next_none {m : LexMode} {c : Char} (h : (m.next c).2 = none) :
    (m.next c).1 = .comment ↔ m = .comment := by
  cases m with
  | between =>
      simp only [LexMode.next] at h
      split_ifs at h
  | comment =>
      simp only [LexMode.next] at h ⊢
      split_ifs at h ⊢
      simp
  | word last =>
      simp only [LexMode.next] at h ⊢
      split_ifs at h ⊢ <;> simp
  | quoted double last =>
      simp only [LexMode.next] at h ⊢
      split_ifs at h ⊢ <;> simp

/-- A semicolon that is a mark ends what was read. -/
theorem next_semicolon {m : LexMode} (h : (m.next ';').2 = some .mark) :
    m.next ';' = (.between, some .mark) := by
  cases m with
  | between => decide
  | comment => cases h
  | word last => cases last <;> first | rfl | cases h
  | quoted double last => cases double <;> cases last <;> cases h

theorem kind_of_semicolon {m : LexMode} {kind : TokenKind} (h : (m.next ';').2 = some kind) :
    kind = .mark := by
  cases m with
  | between => exact (Option.some.inj h).symm
  | comment => cases h
  | word last => cases last <;> first | exact (Option.some.inj h).symm | cases h
  | quoted double last => cases double <;> cases last <;> cases h

theorem exists_kind (c : Char) : ∃ kind, (LexMode.between.next c).2 = some kind := by
  simp only [LexMode.next]
  split_ifs <;> exact ⟨_, rfl⟩

section
variable {m : LexMode} {c : Char} {cs : Text} {kind : TokenKind}

theorem lexFrom_some (h : (m.next c).2 = some kind) :
    lexFrom m (c :: cs) = ([], ⟨kind, c :: (lexFrom (m.next c).1 cs).1⟩ ::
      (lexFrom (m.next c).1 cs).2) := by
  rw [lexFrom, h]

theorem lexFrom_none (h : (m.next c).2 = none) :
    lexFrom m (c :: cs) = (c :: (lexFrom (m.next c).1 cs).1, (lexFrom (m.next c).1 cs).2) := by
  rw [lexFrom, h]

/-- A word begins between two tokens. -/
theorem next_word (h : (m.next c).2 = some .word) : m = .between := by
  cases m with
  | between => rfl
  | comment =>
      simp only [LexMode.next] at h
      split_ifs at h
      cases h
  | word last =>
      simp only [LexMode.next] at h
      split_ifs at h <;> cases h
  | quoted double last =>
      simp only [LexMode.next] at h
      split_ifs at h

/-- A word begins with a character that begins words. -/
theorem word_begins {s : Text} {t : Token} (ht : t ∈ (lexFrom m s).2) (hword : t.kind = .word) :
    ∃ d ds, t.text = d :: ds ∧ (LexMode.between.next d).2 = some .word := by
  induction s generalizing m with
  | nil => cases ht
  | cons c s ih =>
      cases hkind : (m.next c).2 with
      | none =>
          rw [lexFrom_none hkind] at ht
          exact ih ht
      | some kind =>
          rw [lexFrom_some hkind] at ht
          rcases List.mem_cons.mp ht with rfl | ht
          · obtain rfl : kind = .word := hword
            obtain rfl := next_word hkind
            exact ⟨c, _, rfl, hkind⟩
          · exact ih ht

end

/-! ## An argument -/

/-- The mark of a semicolon. -/
def semicolon : Token := ⟨.mark, [';']⟩

/-- A text goes on with what is being read up to a semicolon, and ends there. -/
def EndsAt (m : LexMode) (v : Text) : Prop := lexFrom m (v ++ [';']) = (v, [semicolon])

section
variable {m : LexMode} {c d : Char} {v : Text}

theorem EndsAt.next_nil (h : EndsAt m []) : m.next ';' = (.between, some .mark) := by
  rw [EndsAt, List.nil_append] at h
  cases hkind : (m.next ';').2 with
  | none =>
      rw [lexFrom_none hkind] at h
      cases (Prod.mk.inj h).1
  | some kind =>
      obtain rfl := kind_of_semicolon hkind
      exact next_semicolon hkind

theorem endsAt_cons : EndsAt m (d :: v) ↔ (m.next d).2 = none ∧ EndsAt (m.next d).1 v := by
  rw [EndsAt, EndsAt, List.cons_append]
  cases hkind : (m.next d).2 with
  | none =>
      rw [lexFrom_none hkind, Prod.mk.injEq, List.cons.injEq, Prod.ext_iff]
      simp
  | some kind =>
      rw [lexFrom_some hkind]
      simp

theorem EndsAt.lexFrom_eq (h : EndsAt m v) (rest : Text) :
    lexFrom m (v ++ ';' :: rest) = (v, (lexFrom .between (';' :: rest)).2) := by
  induction v generalizing m with
  | nil =>
      have hnext := h.next_nil
      have hkind : (m.next ';').2 = some .mark := by rw [hnext]
      have hbetween : (LexMode.between.next ';').2 = some .mark := rfl
      rw [List.nil_append, lexFrom_some hkind, hnext, lexFrom_some hbetween]
      rfl
  | cons d v ih =>
      obtain ⟨hnone, hrest⟩ := endsAt_cons.mp h
      rw [List.cons_append, lexFrom_none hnone, ih hrest]

/-- In a word, a plain character behind the text goes on with it. -/
theorem EndsAt.lexFrom_plain {last : Last} (h : EndsAt (.word last) v) (hc : PlainChar c)
    (rest : Text) : lexFrom (.word last) (v ++ c :: rest) =
      (v ++ (lexFrom (.word .plain) (c :: rest)).1, (lexFrom (.word .plain) (c :: rest)).2) := by
  induction v generalizing last with
  | nil =>
      have hnext : ∀ l, (LexMode.word l).next c = (.word .plain, none) := fun l => next_plain hc _
      have hnone : ∀ l, ((LexMode.word l).next c).2 = none := fun l => by rw [hnext l]
      rw [List.nil_append, List.nil_append, lexFrom_none (hnone _), lexFrom_none (hnone _), hnext,
        hnext]
  | cons d v ih =>
      obtain ⟨hnone, hrest⟩ := endsAt_cons.mp h
      have hword : ∃ l, ((LexMode.word last).next d).1 = .word l := by
        simp only [LexMode.next] at hnone ⊢
        split_ifs at hnone ⊢ <;> exact ⟨_, rfl⟩
      obtain ⟨l, hl⟩ := hword
      rw [hl] at hrest
      rw [List.cons_append, lexFrom_none hnone, hl, ih hrest]
      rfl

/-- A quoted word is over at its quote. -/
theorem EndsAt.lexFrom_quoted {double : Bool} {last : Last} (h : EndsAt (.quoted double last) v)
    (c : Char) (rest : Text) : (lexFrom (.quoted double last) (v ++ c :: rest)).1 = v := by
  induction v generalizing last with
  | nil =>
      have hnext := h.next_nil
      cases double <;> cases last <;> cases hnext
  | cons d v ih =>
      obtain ⟨hnone, hrest⟩ := endsAt_cons.mp h
      have hmode : (∃ l, ((LexMode.quoted double last).next d).1 = .quoted double l) ∨
          ((LexMode.quoted double last).next d).1 = .between := by
        simp only [LexMode.next]
        split_ifs <;> simp
      rw [List.cons_append, lexFrom_none hnone]
      obtain ⟨l, hl⟩ | hl := hmode
      · rw [hl] at hrest ⊢
        rw [ih hrest]
      · rw [hl] at hrest ⊢
        cases v with
        | nil => rw [List.nil_append, lexFrom_between]
        | cons e v =>
            obtain ⟨kind, hkind⟩ := exists_kind e
            have hnone := (endsAt_cons.mp hrest).1
            rw [hkind] at hnone
            cases hnone

/-- What is read up to a semicolon ends there. -/
theorem endsAt_of_fst {rest : Text} (h : (lexFrom m (v ++ ';' :: rest)).1 = v) : EndsAt m v := by
  induction v generalizing m with
  | nil =>
      rw [List.nil_append] at h
      cases hkind : (m.next ';').2 with
      | none =>
          rw [lexFrom_none hkind] at h
          cases h
      | some kind =>
          obtain rfl := kind_of_semicolon hkind
          rw [EndsAt, List.nil_append, lexFrom_some hkind]
          rfl
  | cons d v ih =>
      rw [List.cons_append] at h
      cases hkind : (m.next d).2 with
      | none =>
          rw [lexFrom_none hkind] at h
          exact endsAt_cons.mpr ⟨hkind, ih (List.cons.inj h).2⟩
      | some kind =>
          rw [lexFrom_some hkind] at h
          cases h

theorem argument_cons : Argument (d :: v) ↔
    (LexMode.between.next d).2 = some .word ∧ EndsAt (LexMode.between.next d).1 v := by
  obtain ⟨kind, hkind⟩ := exists_kind d
  rw [Argument, tokens, List.cons_append, lexFrom_some hkind, EndsAt, hkind]
  simp [Prod.ext_iff, semicolon, and_assoc]

theorem not_argument_nil : ¬ Argument [] := by decide

/-- An argument in front of a semicolon is a word. -/
theorem Argument.lexFrom_eq (h : Argument v) (rest : Text) :
    lexFrom .between (v ++ ';' :: rest) =
      ([], ⟨.word, v⟩ :: (lexFrom .between (';' :: rest)).2) := by
  cases v with
  | nil => exact absurd h not_argument_nil
  | cons d v =>
      obtain ⟨hword, hends⟩ := argument_cons.mp h
      rw [List.cons_append, lexFrom_some hword, hends.lexFrom_eq]

/-- The mode in an argument without quotes, and in it when a word goes on with it. -/
theorem next_bare (hword : (LexMode.between.next d).2 = some .word) (hbare : ¬ Quoted (d :: v)) :
    ∃ last, LexMode.between.next d = (.word last, some .word) ∧
      (LexMode.word .plain).next d = (.word last, none) := by
  have hquotes : d ≠ '"' ∧ d ≠ '\'' := by simpa [Quoted, not_or] using hbare
  simp only [LexMode.next] at hword ⊢
  split_ifs at hword ⊢ <;> simp_all

theorem next_quoted (hquoted : Quoted (d :: v)) :
    ∃ double, LexMode.between.next d = (.quoted double .plain, some .word) := by
  rcases hquoted with h | h
  · obtain rfl : d = '"' := Option.some.inj h
    exact ⟨true, rfl⟩
  · obtain rfl : d = '\'' := Option.some.inj h
    exact ⟨false, rfl⟩

/-- A plain character behind an argument without quotes is a part of its word. -/
theorem Argument.lexFrom_bare (h : Argument v) (hbare : ¬ Quoted v) (hc : PlainChar c)
    (rest : Text) : lexFrom .between (v ++ c :: rest) =
      ([], ⟨.word, v ++ (lexFrom (.word .plain) (c :: rest)).1⟩ ::
        (lexFrom (.word .plain) (c :: rest)).2) := by
  cases v with
  | nil => exact absurd h not_argument_nil
  | cons d v =>
      obtain ⟨hword, hends⟩ := argument_cons.mp h
      obtain ⟨last, hnext, -⟩ := next_bare hword hbare
      rw [hnext] at hends
      rw [List.cons_append, lexFrom_some hword, hnext, hends.lexFrom_plain hc]
      rfl

/-- A word goes on with an argument without quotes. -/
theorem Argument.lexFrom_inner (h : Argument v) (hbare : ¬ Quoted v) (hc : PlainChar c)
    (rest : Text) : lexFrom (.word .plain) (v ++ c :: rest) =
      (v ++ (lexFrom (.word .plain) (c :: rest)).1, (lexFrom (.word .plain) (c :: rest)).2) := by
  cases v with
  | nil => exact absurd h not_argument_nil
  | cons d v =>
      obtain ⟨hword, hends⟩ := argument_cons.mp h
      obtain ⟨last, hnext, hinner⟩ := next_bare hword hbare
      rw [hnext] at hends
      have hnone : ((LexMode.word .plain).next d).2 = none := by rw [hinner]
      rw [List.cons_append, lexFrom_none hnone, hinner, hends.lexFrom_plain hc]
      rfl

/-- A quoted argument is a word of its own. -/
theorem Argument.lexFrom_quoted (h : Argument v) (hquoted : Quoted v) (c : Char) (rest : Text) :
    (lexFrom .between (v ++ c :: rest)).2.head? = some ⟨.word, v⟩ := by
  cases v with
  | nil => exact absurd h not_argument_nil
  | cons d v =>
      obtain ⟨hword, hends⟩ := argument_cons.mp h
      obtain ⟨double, hnext⟩ := next_quoted hquoted
      rw [hnext] at hends
      rw [List.cons_append, lexFrom_some hword, hnext, hends.lexFrom_quoted]
      rfl

end

theorem statements_cons (t : Token) (ts : List Token) :
    statements (t :: ts) = if t.kind.significant then t :: statements ts else statements ts := by
  rw [statements, List.filter_cons]
  rfl

/-- A text that is read as the next word is an argument. -/
theorem argument_of_head {v : Text} (rest : Text)
    (h : (statements (lexFrom .between (v ++ ';' :: rest)).2).head? = some ⟨.word, v⟩) :
    Argument v := by
  cases v with
  | nil =>
      have hmark : (LexMode.between.next ';').2 = some .mark := rfl
      rw [List.nil_append, lexFrom_some hmark, statements_cons] at h
      cases Option.some.inj h
  | cons d v =>
      obtain ⟨kind, hkind⟩ := exists_kind d
      rw [List.cons_append] at h
      by_cases hword : kind = .word
      · subst hword
        rw [lexFrom_some hkind, statements_cons] at h
        have htext := congrArg Token.text (Option.some.inj h)
        exact argument_cons.mpr ⟨hkind, endsAt_of_fst (List.cons.inj htext).2⟩
      · have hmem := List.mem_of_mem_head? (Option.mem_def.mpr h)
        obtain ⟨e, es, htext, he⟩ := word_begins (List.mem_of_mem_filter hmem) rfl
        rw [← (List.cons.inj htext).1, hkind] at he
        exact absurd (Option.some.inj he) hword

/-! ## A template -/

section
variable {ι : Type*} {f : ι → Text} {m : LexMode} {c : Char} {p : ι} {w : List (Char ⊕ ι)}

@[simp] theorem textOf_nil : textOf f [] = [] := rfl

@[simp] theorem textOf_char : textOf f (.inl c :: w) = c :: textOf f w := rfl

@[simp] theorem textOf_key : textOf f (.inr p :: w) = f p ++ textOf f w := rfl

theorem lexPieces_some {piece : Char ⊕ ι} {kind : TokenKind}
    (h : (m.nextPiece piece).2 = some kind) :
    lexPieces m (piece :: w) = ([], ⟨kind, piece :: (lexPieces (m.nextPiece piece).1 w).1⟩ ::
      (lexPieces (m.nextPiece piece).1 w).2) := by
  rw [lexPieces, h]

theorem lexPieces_none {piece : Char ⊕ ι} (h : (m.nextPiece piece).2 = none) :
    lexPieces m (piece :: w) = (piece :: (lexPieces (m.nextPiece piece).1 w).1,
      (lexPieces (m.nextPiece piece).1 w).2) := by
  rw [lexPieces, h]

theorem lexPieces_between (w : List (Char ⊕ ι)) : (lexPieces .between w).1 = [] := by
  cases w with
  | nil => rfl
  | cons piece w =>
      have hkind : ∃ kind, (LexMode.between.nextPiece piece).2 = some kind := by
        cases piece with
        | inl c => exact exists_kind c
        | inr p => exact ⟨_, rfl⟩
      obtain ⟨kind, hkind⟩ := hkind
      rw [lexPieces_some hkind]

theorem statementsOf_cons (t : TemplateToken ι) (ts : List (TemplateToken ι)) :
    statementsOf f (t :: ts) =
      if t.kind.significant then ⟨t.kind, textOf f t.pieces⟩ :: statementsOf f ts
      else statementsOf f ts := by
  rw [statementsOf, List.filter_cons]
  split_ifs <;> rfl

/-- A character of the template is read as itself. -/
theorem agrees_char : Agrees f m (.inl c :: w) ↔ Agrees f (m.next c).1 w := by
  have hpiece : m.nextPiece (.inl c : Char ⊕ ι) = m.next c := rfl
  rw [Agrees, Agrees, textOf_char]
  cases hkind : (m.next c).2 with
  | none =>
      rw [lexFrom_none hkind, lexPieces_none (hpiece ▸ hkind), hpiece]
      simp only [textOf_char, List.cons.injEq, true_and, ne_eq, next_none hkind]
  | some kind =>
      obtain ⟨hblank, hcomment, hshown⟩ := next_some hkind
      rw [lexFrom_some hkind, lexPieces_some (hpiece ▸ hkind), hpiece]
      simp only [statements_cons, statementsOf_cons, textOf_nil, textOf_char]
      by_cases hsig : kind.significant = true
      · rw [if_pos hsig, if_pos hsig]
        simp only [List.cons.injEq, Token.mk.injEq, true_and, implies_true]
        exact and_congr_left fun _ => ⟨fun h _ => h, fun h => h (hshown hsig)⟩
      · rw [if_neg hsig, if_neg hsig]
        refine and_congr_left fun _ => iff_of_true (fun _ => trivial) fun hne => ?_
        cases kind with
        | blank =>
            rw [hblank rfl, lexFrom_between, lexPieces_between]
            rfl
        | comment => exact absurd (hcomment rfl) hne
        | mark => exact absurd rfl hsig
        | word => exact absurd rfl hsig

theorem lexPieces_key : lexPieces .between (.inr p :: w) =
    ([], ⟨.word, .inr p :: (lexPieces (.word .plain) w).1⟩ :: (lexPieces (.word .plain) w).2) :=
  lexPieces_some rfl

theorem lexPieces_semicolon : (lexPieces (.word .plain) (.inl ';' :: w)).1 = [] := by
  have hmark : ((LexMode.word .plain).nextPiece (.inl ';' : Char ⊕ ι)).2 = some .mark := rfl
  rw [lexPieces_some hmark]

theorem statementsOf_word (pieces : List (Char ⊕ ι)) (ts : List (TemplateToken ι)) :
    statementsOf f (⟨.word, pieces⟩ :: ts) = ⟨.word, textOf f pieces⟩ :: statementsOf f ts := by
  rw [statementsOf_cons]
  exact if_pos rfl

theorem statements_word (text : Text) (ts : List Token) :
    statements (⟨.word, text⟩ :: ts) = ⟨.word, text⟩ :: statements ts := by
  rw [statements_cons]
  exact if_pos rfl

/-- A key of its own, in front of a semicolon. -/
theorem agrees_argument : Agrees f .between (.inr p :: .inl ';' :: w) ↔
    Argument (f p) ∧ Agrees f (.word .plain) (.inl ';' :: w) := by
  have hword : ((LexMode.word .plain).next ';').2 = some .mark := rfl
  have hbetween : (LexMode.between.next ';').2 = some .mark := rfl
  have hsame : lexFrom (.word .plain) (';' :: textOf f w) = lexFrom .between (';' :: textOf f w) := by
    rw [lexFrom_some hword, lexFrom_some hbetween]
    rfl
  have hrest : Argument (f p) → (Agrees f .between (.inr p :: .inl ';' :: w) ↔
      Agrees f (.word .plain) (.inl ';' :: w)) := by
    intro harg
    simp only [Agrees, textOf_key, textOf_char, harg.lexFrom_eq, lexPieces_key,
      lexPieces_semicolon, statements_word, statementsOf_word, textOf_nil, hsame,
      lexFrom_between, List.append_nil, List.cons.injEq, true_and, implies_true]
  constructor
  · intro h
    have harg : Argument (f p) := by
      refine argument_of_head (textOf f w) ?_
      have hstatements := h.2
      rw [textOf_key, textOf_char, lexPieces_key, lexPieces_semicolon, statementsOf_word,
        textOf_key, textOf_nil, List.append_nil] at hstatements
      rw [hstatements]
      rfl
    exact ⟨harg, (hrest harg).mp h⟩
  · rintro ⟨harg, h⟩
    exact (hrest harg).mpr h

/-- A key in front of a plain character. -/
theorem agrees_bare (harg : Argument (f p)) (hc : PlainChar c) :
    Agrees f .between (.inr p :: .inl c :: w) ↔
      ¬ Quoted (f p) ∧ Agrees f (.word .plain) (.inl c :: w) := by
  by_cases hquoted : Quoted (f p)
  · refine iff_of_false (fun h => ?_) fun h => h.1 hquoted
    obtain ⟨ts, hts⟩ := List.head?_eq_some_iff.mp (harg.lexFrom_quoted hquoted c (textOf f w))
    have hplain : ((LexMode.word .plain).nextPiece (.inl c : Char ⊕ ι)).2 = none := by
      rw [LexMode.nextPiece.eq_def]
      exact congrArg Prod.snd (next_plain hc _)
    have hstatements := h.2
    rw [textOf_key, textOf_char, hts, lexPieces_key, lexPieces_none hplain, statements_word,
      statementsOf_word, textOf_key, textOf_char] at hstatements
    have htext := congrArg Token.text (List.cons.inj hstatements).1
    exact List.cons_ne_nil _ _ (List.self_eq_append_right.mp htext)
  · have hne : LexMode.word .plain ≠ .comment := nofun
    simp only [Agrees, textOf_key, textOf_char, harg.lexFrom_bare hquoted hc, lexPieces_key,
      statements_word, statementsOf_word, textOf_nil, List.cons.injEq, Token.mk.injEq,
      List.append_cancel_left_eq, true_and, implies_true, hquoted, not_false_eq_true,
      forall_prop_of_true hne]

/-- A key within a word. -/
theorem agrees_inner (harg : Argument (f p)) (hbare : ¬ Quoted (f p)) (hc : PlainChar c) :
    Agrees f (.word .plain) (.inr p :: .inl c :: w) ↔
      Agrees f (.word .plain) (.inl c :: w) := by
  have hkey : lexPieces (.word .plain) (.inr p :: .inl c :: w) =
      (.inr p :: (lexPieces (.word .plain) (.inl c :: w)).1,
        (lexPieces (.word .plain) (.inl c :: w)).2) := lexPieces_none rfl
  simp only [Agrees, textOf_key, textOf_char, harg.lexFrom_inner hbare hc, hkey,
    List.append_cancel_left_eq]

end

section
variable {ι : Type*} [DecidableEq ι] {f : ι → Text}

/-- What is known is kept. -/
theorem slots_mono {m : LexMode} {arguments bare known plain : List ι} {w : List (Char ⊕ ι)}
    (h : slots m arguments bare w = some (known, plain)) : arguments ⊆ known ∧ bare ⊆ plain := by
  induction w generalizing m arguments bare with
  | nil =>
      obtain ⟨rfl, rfl⟩ := Prod.mk.inj (Option.some.inj h)
      exact ⟨fun _ h => h, fun _ h => h⟩
  | cons piece w ih =>
      cases piece with
      | inl c => exact ih h
      | inr p =>
          rw [slots] at h
          split at h
          · split_ifs at h
            · obtain ⟨hargs, hbare⟩ := ih h
              exact ⟨fun q hq => hargs (List.mem_cons_of_mem p hq), hbare⟩
            · obtain ⟨hargs, hbare⟩ := ih h
              exact ⟨hargs, fun q hq => hbare (List.mem_cons_of_mem p hq)⟩
            · exact ih h
          · cases h

/-- A template keeps its words and marks exactly when its keys have texts that fit. -/
theorem agrees_iff {m : LexMode} {arguments bare known plain : List ι} {w : List (Char ⊕ ι)}
    (h : slots m arguments bare w = some (known, plain)) (hargs : ∀ p ∈ arguments, Argument (f p))
    (hbare : ∀ p ∈ bare, ¬ Quoted (f p)) :
    Agrees f m w ↔ (∀ p ∈ known, Argument (f p)) ∧ ∀ p ∈ plain, ¬ Quoted (f p) := by
  induction w generalizing m arguments bare with
  | nil =>
      obtain ⟨rfl, rfl⟩ := Prod.mk.inj (Option.some.inj h)
      exact iff_of_true ⟨fun _ => rfl, rfl⟩ ⟨hargs, hbare⟩
  | cons piece w ih =>
      cases piece with
      | inl c => exact agrees_char.trans (ih h hargs hbare)
      | inr p =>
          rw [slots] at h
          split at h
          · next c hhead =>
            obtain ⟨w', rfl⟩ := List.head?_eq_some_iff.mp hhead
            split_ifs at h with hown hnext hinner
            · obtain ⟨rfl, rfl⟩ := hown
              have hmono := (slots_mono h).1 List.mem_cons_self
              rw [agrees_argument]
              constructor
              · rintro ⟨harg, hrest⟩
                exact (ih h (List.forall_mem_cons.mpr ⟨harg, hargs⟩) hbare).mp hrest
              · intro hall
                have harg := hall.1 p hmono
                exact ⟨harg, (ih h (List.forall_mem_cons.mpr ⟨harg, hargs⟩) hbare).mpr hall⟩
            · obtain ⟨hp, hc, rfl⟩ := hnext
              have hmono := (slots_mono h).2 List.mem_cons_self
              rw [agrees_bare (hargs p hp) hc]
              constructor
              · rintro ⟨hquote, hrest⟩
                exact (ih h hargs (List.forall_mem_cons.mpr ⟨hquote, hbare⟩)).mp hrest
              · intro hall
                have hquote := hall.2 p hmono
                exact ⟨hquote, (ih h hargs (List.forall_mem_cons.mpr ⟨hquote, hbare⟩)).mpr hall⟩
            · obtain ⟨hp, hc, rfl, hplain⟩ := hinner
              rw [agrees_inner (hargs p hp) (hbare p hplain) hc]
              exact ih h hargs hbare
          · cases h

/-- The same for a template as a whole. -/
theorem statements_textOf_iff {w : List (Char ⊕ ι)} {known plain : List ι}
    (h : slots .between [] [] w = some (known, plain)) :
    statements (tokens (textOf f w)) = statementsOf f (lexPieces .between w).2 ↔
      (∀ p ∈ known, Argument (f p)) ∧ ∀ p ∈ plain, ¬ Quoted (f p) := by
  rw [← agrees_iff h (by simp) (by simp), Agrees, lexFrom_between, lexPieces_between]
  exact ⟨fun h => ⟨fun _ => rfl, h⟩, fun h => h.2⟩

end

end GoSite.NginxConf
