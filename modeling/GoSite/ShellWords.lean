import GoSite.GoStrings

/-!
# The words of a shell command

How `sh -c` reads a line that is one simple command. A line is read as nothing
where the text alone does not settle its words: where it has an operator, an
expansion, several lines or an open quote. A text without any of the characters
the shell treats in a way of its own is one word, and no other text is the word
that it says.
-/
namespace GoSite.Shell

/-- A character of a word, and whether a quote keeps it from the shell. -/
structure WordChar where
  char : Char
  quoted : Bool
  deriving Repr, DecidableEq

abbrev Word := List WordChar

/-- A text without any quotes, as a word. -/
def bare (text : List Char) : Word := text.map (⟨·, false⟩)

def Word.text (w : Word) : List Char := w.map WordChar.char

/-- The quotes the reader is inside, with the word so far. -/
inductive ReadState where
  | blank
  | blankEscape
  | word (w : Word)
  | escape (w : Word)
  | single (w : Word)
  | double (w : Word)
  | doubleEscape (w : Word)
  | comment
  deriving Repr, DecidableEq

/-- Outside quotes these end the word, start an expansion or end the command. -/
def isOperator (c : Char) : Bool :=
  c ∈ ['|', '&', ';', '<', '>', '(', ')', '$', Char.ofNat 96, '\n', '\x00']

def isBlank (c : Char) : Bool := c = ' ' ∨ c = '\t'

/-- Inside double quotes a backslash is one only before these. -/
def isDoubleEscaped (c : Char) : Bool := c ∈ ['$', Char.ofNat 96, '"', '\\']

/-- The next character of a word that has begun. -/
def wordStep (w : Word) (c : Char) : Option (ReadState × List Word) :=
  if isOperator c then none
  else if isBlank c then some (.blank, [w])
  else if c = '\'' then some (.single w, [])
  else if c = '"' then some (.double w, [])
  else if c = '\\' then some (.escape w, [])
  else some (.word (w ++ [⟨c, false⟩]), [])

/-- One character of the line, and the word that it ends. -/
def readStep : ReadState → Char → Option (ReadState × List Word)
  | .blank, c =>
      if c = '#' then some (.comment, [])
      else if c = '~' then none
      else if isBlank c then some (.blank, [])
      else if c = '\\' then some (.blankEscape, [])
      else wordStep [] c
  | .blankEscape, c =>
      if c = '\x00' then none
      else if c = '\n' then some (.blank, [])
      else some (.word [⟨c, true⟩], [])
  | .word w, c => wordStep w c
  | .escape w, c =>
      if c = '\x00' then none
      else if c = '\n' then some (.word w, [])
      else some (.word (w ++ [⟨c, true⟩]), [])
  | .single w, c =>
      if c = '\x00' then none
      else if c = '\'' then some (.word w, [])
      else some (.single (w ++ [⟨c, true⟩]), [])
  | .double w, c =>
      if c = '\x00' ∨ c = '$' ∨ c = Char.ofNat 96 then none
      else if c = '"' then some (.word w, [])
      else if c = '\\' then some (.doubleEscape w, [])
      else some (.double (w ++ [⟨c, true⟩]), [])
  | .doubleEscape w, c =>
      if c = '\x00' then none
      else if c = '\n' then some (.double w, [])
      else if isDoubleEscaped c then some (.double (w ++ [⟨c, true⟩]), [])
      else some (.double (w ++ [⟨'\\', true⟩, ⟨c, true⟩]), [])
  | .comment, c => if c = '\n' ∨ c = '\x00' then none else some (.comment, [])

/-- What the line may end in. -/
def readEnd : ReadState → Option (List Word)
  | .blank | .comment => some []
  | .word w => some [w]
  | _ => none

/-- The words of the rest of the line. -/
@[grind] def readFrom (st : ReadState) : List Char → Option (List Word)
  | [] => readEnd st
  | c :: cs => do
      let (st, out) ← readStep st c
      let rest ← readFrom st cs
      some (out ++ rest)

/-- Whether a bracket that was opened is closed again. The first character of the
bracket, behind a `!`, does not close it. -/
def closesBracket (w : Word) : Bool :=
  (if w.head? = some ⟨'!', false⟩ then w.tail else w).tail.contains ⟨']', false⟩

/-- The shell replaces a pattern by the names of the files that it matches. -/
def isPattern : Word → Bool
  | [] => false
  | c :: cs =>
      (!c.quoted && (c.char = '*' || c.char = '?' || c.char = '[' && closesBracket cs)) ||
        isPattern cs

/-- The words the shell reads in another way where a command begins. -/
def reservedWords : List (List Char) :=
  ["!", "\x7b", "\x7d", "case", "do", "done", "elif", "else", "esac", "fi", "for", "if", "in",
    "then", "until", "while"].map String.toList

/-- A first word that does not name the command. -/
def isReserved (w : Word) : Bool := reservedWords.any (bare · = w) || w.contains ⟨'=', false⟩

/-- The arguments a line runs its command with, the name of the command first. -/
def simpleCommand (line : List Char) : Option (List (List Char)) := do
  let words ← readFrom .blank line
  if words.head?.any isReserved || words.any isPattern then none
  else some (words.map Word.text)

/-- A text the shell takes as one word, as it stands. -/
def PlainWord (text : List Char) : Prop :=
  text ≠ [] ∧ text.head? ≠ some '#' ∧ text.head? ≠ some '~' ∧ isPattern (bare text) = false ∧
    ∀ c ∈ text, ¬ (isOperator c ∨ isBlank c ∨ c = '\'' ∨ c = '"' ∨ c = '\\')

instance (text : List Char) : Decidable (PlainWord text) := by
  unfold PlainWord
  infer_instance

@[simp] theorem bare_nil : bare [] = [] := rfl

@[simp] theorem bare_cons (c : Char) (cs : List Char) :
    bare (c :: cs) = ⟨c, false⟩ :: bare cs := rfl

@[simp] theorem text_bare (text : List Char) : (bare text).text = text := by
  simp [bare, Word.text, Function.comp_def]

@[simp] theorem text_length (w : Word) : w.text.length = w.length := List.length_map _

theorem wordStep_literal {c : Char} (w : Word)
    (hc : ¬ (isOperator c ∨ isBlank c ∨ c = '\'' ∨ c = '"' ∨ c = '\\')) :
    wordStep w c = some (.word (w ++ [⟨c, false⟩]), []) := by
  simp only [not_or] at hc
  obtain ⟨hoperator, hblank, hsingle, hdouble, hescape⟩ := hc
  simp [wordStep, hoperator, hblank, hsingle, hdouble, hescape]

/-- How much of a word the reader holds. -/
def ReadState.size : ReadState → ℕ
  | .blank | .blankEscape | .comment => 0
  | .word w | .escape w | .single w | .double w => w.length
  | .doubleEscape w => w.length + 1

def wordsLength (words : List Word) : ℕ := (words.map List.length).sum

@[simp] theorem wordsLength_append (ws vs : List Word) :
    wordsLength (ws ++ vs) = wordsLength ws + wordsLength vs := by
  simp [wordsLength]

@[simp] theorem wordsLength_nil : wordsLength [] = 0 := rfl

@[simp] theorem wordsLength_singleton (w : Word) : wordsLength [w] = w.length := by
  simp [wordsLength]

theorem wordStep_size {w : Word} {c : Char} {st : ReadState} {out : List Word}
    (h : wordStep w c = some (st, out)) :
    wordsLength out + st.size ≤ w.length + 1 := by
  unfold wordStep at h
  split_ifs at h <;> obtain ⟨rfl, rfl⟩ := Prod.mk.inj (Option.some.inj h) <;>
    simp [ReadState.size]

/-- A character adds at most one to the words. -/
theorem readStep_size {st st' : ReadState} {c : Char} {out : List Word}
    (h : readStep st c = some (st', out)) :
    wordsLength out + st'.size ≤ st.size + 1 := by
  cases st with
  | word w => exact wordStep_size h
  | blank =>
      simp only [readStep] at h
      split_ifs at h
      · obtain ⟨rfl, rfl⟩ := Prod.mk.inj (Option.some.inj h)
        simp [ReadState.size]
      · obtain ⟨rfl, rfl⟩ := Prod.mk.inj (Option.some.inj h)
        simp [ReadState.size]
      · obtain ⟨rfl, rfl⟩ := Prod.mk.inj (Option.some.inj h)
        simp [ReadState.size]
      · exact wordStep_size h
  | blankEscape | escape | single | double | doubleEscape | comment =>
      simp only [readStep] at h
      split_ifs at h <;> obtain ⟨rfl, rfl⟩ := Prod.mk.inj (Option.some.inj h) <;>
        simp [ReadState.size] <;> omega

theorem readFrom_cons {st : ReadState} {c : Char} {cs : List Char} {ws : List Word}
    (h : readFrom st (c :: cs) = some ws) :
    ∃ st' out rest, readStep st c = some (st', out) ∧ readFrom st' cs = some rest ∧
      ws = out ++ rest := by
  simp only [readFrom, Option.bind_eq_bind, Option.bind_eq_some_iff, Option.some.injEq] at h
  obtain ⟨⟨st', out⟩, hstep, rest, hrest, rfl⟩ := h
  exact ⟨st', out, rest, hstep, hrest, rfl⟩

/-- The words are not longer than the line. -/
theorem readFrom_size {st : ReadState} {cs : List Char} {ws : List Word}
    (h : readFrom st cs = some ws) : wordsLength ws ≤ st.size + cs.length := by
  induction cs generalizing st ws with
  | nil =>
      cases st with
      | word w =>
          obtain rfl := Option.some.inj h
          simp [ReadState.size]
      | blank | comment =>
          obtain rfl := Option.some.inj h
          simp
      | blankEscape | escape | single | double | doubleEscape => simp [readFrom, readEnd] at h
  | cons c cs ih =>
      obtain ⟨st', out, rest, hstep, hrest, rfl⟩ := readFrom_cons h
      have hsize := readStep_size hstep
      have htail := ih hrest
      rw [wordsLength_append, List.length_cons]
      omega

/-- Plain characters go on with the word. -/
theorem readFrom_word {cs : List Char} (w : Word) (rest : List Char)
    (hcs : ∀ c ∈ cs, ¬ (isOperator c ∨ isBlank c ∨ c = '\'' ∨ c = '"' ∨ c = '\\')) :
    readFrom (.word w) (cs ++ rest) = readFrom (.word (w ++ bare cs)) rest := by
  induction cs generalizing w with
  | nil => simp
  | cons c cs ih =>
      have hstep : readStep (.word w) c = some (.word (w ++ [⟨c, false⟩]), []) :=
        wordStep_literal w (hcs c List.mem_cons_self)
      simp [readFrom, hstep, ih _ fun d hd => hcs d (List.mem_cons_of_mem _ hd)]

/-- A plain word begins a word. -/
theorem readFrom_plain {text : List Char} (h : PlainWord text) (rest : List Char) :
    readFrom .blank (text ++ rest) = readFrom (.word (bare text)) rest := by
  obtain ⟨hne, hcomment, htilde, -, hliteral⟩ := h
  obtain ⟨c, cs, rfl⟩ := List.exists_cons_of_ne_nil hne
  have hc := hliteral c List.mem_cons_self
  have hstep : readStep .blank c = some (.word [⟨c, false⟩], []) := by
    have hword := wordStep_literal [] hc
    simp only [List.head?_cons, ne_eq, Option.some.injEq] at hcomment htilde
    simp only [not_or] at hc
    simp only [readStep, if_neg hcomment, if_neg htilde, if_neg hc.2.1, if_neg hc.2.2.2.2]
    exact hword
  have htail := readFrom_word [⟨c, false⟩] rest fun d hd => hliteral d (List.mem_cons_of_mem _ hd)
  simp [readFrom, hstep, htail]

/-- Plain words, each before a blank, are read one by one. -/
theorem readFrom_words {texts : List (List Char)} (h : ∀ t ∈ texts, PlainWord t)
    (rest : List Char) :
    readFrom .blank (texts.flatMap (· ++ [' ']) ++ rest) =
      (readFrom .blank rest).map (texts.map bare ++ ·) := by
  induction texts with
  | nil => simp
  | cons text texts ih =>
      have hblank : ∀ w : Word, readStep (.word w) ' ' = some (.blank, [w]) := fun w => by
        simp [readStep, wordStep, isOperator, isBlank]
      have hhead := readFrom_plain (h text List.mem_cons_self)
        (' ' :: (texts.flatMap (· ++ [' ']) ++ rest))
      have htail := ih fun t ht => h t (List.mem_cons_of_mem _ ht)
      simp only [List.flatMap_cons, List.append_assoc, List.cons_append, List.nil_append,
        List.map_cons]
      rw [hhead]
      cases hrest : readFrom .blank rest <;> simp [readFrom, hblank, htail, hrest]

/-- A word as long as the characters it is read from has them all. -/
theorem readFrom_word_full {w v : Word} {cs : List Char}
    (h : readFrom (.word w) cs = some [v]) (hlength : w.length + cs.length ≤ v.length) :
    (∀ c ∈ cs, ¬ (isOperator c ∨ isBlank c ∨ c = '\'' ∨ c = '"' ∨ c = '\\')) ∧
      v = w ++ bare cs := by
  induction cs generalizing w with
  | nil => exact ⟨by simp, by simpa [readFrom, readEnd, eq_comm] using h⟩
  | cons c cs ih =>
      obtain ⟨st, out, rest, hstep, hrest, hout⟩ := readFrom_cons h
      have hsize := readFrom_size hrest
      have hwords := congrArg wordsLength hout
      rw [wordsLength_append, wordsLength_singleton] at hwords
      rw [List.length_cons] at hlength
      by_cases hc : isOperator c ∨ isBlank c ∨ c = '\'' ∨ c = '"' ∨ c = '\\'
      · exfalso
        simp only [readStep, wordStep] at hstep
        split_ifs at hstep with hoperator hblank hsingle hdouble hescape
        · obtain ⟨rfl, rfl⟩ := Prod.mk.inj (Option.some.inj hstep)
          obtain ⟨rfl, -⟩ := List.cons.inj hout
          omega
        · obtain ⟨rfl, rfl⟩ := Prod.mk.inj (Option.some.inj hstep)
          simp [ReadState.size] at hsize hwords
          omega
        · obtain ⟨rfl, rfl⟩ := Prod.mk.inj (Option.some.inj hstep)
          simp [ReadState.size] at hsize hwords
          omega
        · obtain ⟨rfl, rfl⟩ := Prod.mk.inj (Option.some.inj hstep)
          simp [ReadState.size] at hsize hwords
          omega
        · simp only [hoperator, hblank, hsingle, hdouble, hescape] at hc
          simp at hc
      · obtain ⟨rfl, rfl⟩ := Prod.mk.inj (Option.some.inj ((wordStep_literal w hc).symm.trans hstep))
        rw [List.nil_append] at hout
        subst hout
        obtain ⟨hliteral, hv⟩ := ih hrest (by simp; omega)
        refine ⟨?_, by simpa using hv⟩
        intro d hd
        obtain rfl | hd := List.mem_cons.mp hd
        · exact hc
        · exact hliteral d hd

/-- A text is read as a word of its own length only if it is plain. -/
theorem readFrom_full {text : List Char} {v : Word} (h : readFrom .blank text = some [v])
    (hlength : text.length ≤ v.length) (hpattern : isPattern v = false) :
    PlainWord text ∧ v = bare text := by
  cases text with
  | nil => simp [readFrom, readEnd] at h
  | cons c cs =>
      obtain ⟨st, out, rest, hstep, hrest, hout⟩ := readFrom_cons h
      have hsize := readFrom_size hrest
      have hwords := congrArg wordsLength hout
      rw [wordsLength_append, wordsLength_singleton] at hwords
      rw [List.length_cons] at hlength
      simp only [readStep] at hstep
      split_ifs at hstep with hcomment htilde hblank hescape
      · obtain ⟨rfl, rfl⟩ := Prod.mk.inj (Option.some.inj hstep)
        simp [ReadState.size] at hsize hwords
        omega
      · obtain ⟨rfl, rfl⟩ := Prod.mk.inj (Option.some.inj hstep)
        simp [ReadState.size] at hsize hwords
        omega
      · obtain ⟨rfl, rfl⟩ := Prod.mk.inj (Option.some.inj hstep)
        simp [ReadState.size] at hsize hwords
        omega
      · -- The first character begins the word as it would go on with an empty one.
        have hword : readFrom (.word []) (c :: cs) = some [v] := by
          simp [readFrom, readStep, hstep, hrest, hout]
        obtain ⟨hliteral, hv⟩ := readFrom_word_full hword (by simpa using hlength)
        rw [List.nil_append] at hv
        exact ⟨⟨by simp, by simpa using hcomment, by simpa using htilde, hv ▸ hpattern, hliteral⟩, hv⟩

/-- A plain text is read as one word. -/
theorem readFrom_plain_end {text : List Char} (h : PlainWord text) :
    readFrom .blank text = some [bare text] := by
  have hword := readFrom_plain h []
  rwa [List.append_nil] at hword

/-- Behind plain words, a line runs with them and `text` as one more argument only
if `text` is what is left of the line, and plain. -/
theorem simpleCommand_last {texts : List (List Char)} {rest text : List Char}
    (htexts : ∀ t ∈ texts, PlainWord t) (hne : texts ≠ [])
    (hreserved : isReserved (bare (texts.head hne)) = false) (hle : rest.length ≤ text.length) :
    simpleCommand (texts.flatMap (· ++ [' ']) ++ rest) = some (texts ++ [text]) ↔
      rest = text ∧ PlainWord text := by
  have hbare : (texts.map bare).map Word.text = texts := by
    rw [List.map_map]
    exact (List.map_congr_left fun t _ => text_bare t).trans (List.map_id _)
  have hplain : (texts.map bare).any isPattern = false := by
    rw [List.any_map, List.any_eq_false]
    intro t ht
    simp [(htexts t ht).2.2.2.1]
  have hhead : ∀ ws : List Word, (texts.map bare ++ ws).head? = some (bare (texts.head hne)) := by
    intro ws
    obtain ⟨t, ts, rfl⟩ := List.exists_cons_of_ne_nil hne
    rfl
  unfold simpleCommand
  rw [readFrom_words htexts]
  constructor
  · intro h
    cases hrest : readFrom .blank rest with
    | none => simp [hrest] at h
    | some ws =>
        simp only [hrest, Option.map_some, Option.bind_eq_bind, Option.bind_some, hhead,
          Option.any_some, hreserved, Bool.false_or, List.any_append, hplain] at h
        split_ifs at h with hpattern
        rw [Option.some.injEq, List.map_append, hbare, List.append_cancel_left_eq] at h
        obtain ⟨v, rfl, htext⟩ := List.map_eq_singleton_iff.mp h
        have hlength : rest.length ≤ v.length := by rwa [← text_length, htext]
        simp only [List.any_cons, List.any_nil, Bool.or_false, Bool.not_eq_true] at hpattern
        obtain ⟨hword, rfl⟩ := readFrom_full hrest hlength hpattern
        rw [text_bare] at htext
        exact ⟨htext, htext ▸ hword⟩
  · rintro ⟨rfl, hword⟩
    simp only [readFrom_plain_end hword, Option.map_some, Option.bind_eq_bind, Option.bind_some,
      hhead, Option.any_some, hreserved, List.any_append, hplain, List.any_cons, List.any_nil,
      hword.2.2.2.1, List.map_append, hbare, List.map_cons, List.map_nil, text_bare]
    simp

example : simpleCommand "echo 'a b'\\ c\"d\" # e".toList =
    some ["echo".toList, "a b cd".toList] := by decide

end GoSite.Shell
