import GoSite.SearchParser

/-!
# What the parser accepts

Every step of the parser either reads a token or is bounded by the level of the
grammar, so a number of steps proportional to the input is enough. What it
accepts is a parsed filter.
-/
namespace GoSite.Observability
open BooleanTrees GoStrings

variable {lib : SearchLib}

/-! ## Tokens are read off the input -/

theorem skipSpace_length_le (input : List UInt8) : (skipSpace input).length ≤ input.length :=
  (List.dropWhile_sublist _).length_le

@[simp] theorem skipSpace_skipSpace (input : List UInt8) :
    skipSpace (skipSpace input) = skipSpace input :=
  List.dropWhile_idempotent _ _

theorem isSpaceByte_of_skipSpace {input rest : List UInt8} {ch : UInt8}
    (h : skipSpace input = ch :: rest) : isSpaceByte ch = false := by
  have := List.head?_dropWhile_not isSpaceByte input
  rw [← skipSpace, h] at this
  simpa using this

theorem scanTo_length_lt {delim : UInt8} {escaped : Bool} {input text rest : List UInt8}
    (h : scanTo delim escaped input = some (text, rest)) : rest.length < input.length := by
  induction input generalizing escaped text rest with
  | nil => cases escaped <;> simp [scanTo] at h
  | cons c cs ih =>
      have hmap : ∀ {e : Bool}, (scanTo delim e cs).map
          (fun x : List UInt8 × List UInt8 => (c :: x.1, x.2)) = some (text, rest) →
          rest.length < (c :: cs).length := by
        intro e he
        obtain ⟨⟨t, r⟩, hscan, heq⟩ := Option.map_eq_some_iff.mp he
        obtain ⟨-, rfl⟩ := Prod.mk.inj heq
        have := ih hscan
        simp only [List.length_cons]
        omega
      cases escaped with
      | true => exact hmap h
      | false =>
          rw [scanTo] at h
          split_ifs at h with hesc hdelim
          · exact hmap h
          · simp only [Option.some.injEq, Prod.mk.injEq] at h
            rw [← h.2]
            simp
          · exact hmap h

theorem read_congr {input input' : List UInt8} (h : skipSpace input = skipSpace input')
    (advance : Bool) : read lib advance input = read lib advance input' := by
  rw [read, read, h]

theorem readToken_length_le (lib : SearchLib) {ch : UInt8} (hspace : isSpaceByte ch = false)
    (rest : List UInt8) : (readToken lib ch rest).2.length ≤ rest.length := by
  rw [readToken]
  split_ifs with hl hr hq hs
  · exact le_rfl
  · exact le_rfl
  · rw [readQuoted]
    cases hscan : scanTo '"'.toUInt8 false rest with
    | none => simp
    | some scanned => exact (scanTo_length_lt hscan).le
  · rw [readRegex]
    cases hscan : scanTo '/'.toUInt8 false rest with
    | none => simp
    | some scanned =>
        dsimp only
        split_ifs <;> exact (scanTo_length_lt hscan).le
  · have hword : endsWord ch = false := by
      simp [endsWord, hl, hr, hq, hs, hspace]
    simp only [readWord, List.dropWhile_cons, hword, Bool.not_false, if_true]
    exact (List.dropWhile_sublist _).length_le

theorem read_length_le (lib : SearchLib) (advance : Bool) (input : List UInt8) :
    (read lib advance input).2.length ≤ input.length := by
  have hle := skipSpace_length_le input
  cases hskip : skipSpace input with
  | nil => simp [read, hskip]
  | cons ch rest =>
      have hafter := readToken_length_le lib (isSpaceByte_of_skipSpace hskip) rest
      rw [hskip, List.length_cons] at hle
      simp only [read, hskip]
      split_ifs
      · exact hafter.trans (by omega)
      · simpa using hle

theorem peek_length_le (input : List UInt8) : (peek lib input).2.length ≤ input.length :=
  read_length_le lib false input

theorem next_length_le (input : List UInt8) : (next lib input).2.length ≤ input.length :=
  read_length_le lib true input

/-- A token that was looked at is read next, and takes at least one byte. -/
theorem next_peek {input : List UInt8} (h : (peek lib input).1.kind ≠ .eof) :
    next lib (peek lib input).2 = next lib input ∧ (next lib input).1 = (peek lib input).1 ∧
      (next lib input).2.length < input.length := by
  have hle := skipSpace_length_le input
  cases hskip : skipSpace input with
  | nil => simp [peek, read, hskip, Token.zero] at h
  | cons ch rest =>
      have hafter := readToken_length_le lib (isSpaceByte_of_skipSpace hskip) rest
      rw [hskip, List.length_cons] at hle
      by_cases heof : (readToken lib ch rest).1.kind = .eof
      · simp [peek, read, hskip, heof] at h
      · have hpeek : peek lib input = ((readToken lib ch rest).1, ch :: rest) := by
          simp [peek, read, hskip, heof]
        have hnext : next lib input = readToken lib ch rest := by
          simp [next, read, hskip]
        have hsame : skipSpace (ch :: rest) = skipSpace input := by
          rw [← hskip, skipSpace_skipSpace]
        rw [hpeek, hnext]
        refine ⟨?_, rfl, by omega⟩
        rw [next, read_congr hsame, ← next, hnext]

/-- Taking the token that was looked at takes at least one byte. -/
theorem next_peek_length_lt {input : List UInt8} (h : (peek lib input).1.kind ≠ .eof) :
    (next lib (peek lib input).2).2.length < input.length := by
  obtain ⟨hsame, -, hlt⟩ := next_peek h
  rw [hsame]
  exact hlt

/-! ## Predicates of words -/

theorem fieldOps_op : ∀ sep_op ∈ fieldOps, sep_op.2 ≠ .contains ∧ sep_op.2 ≠ .like := by
  decide

theorem ne_empty_of_valid {s : List Char} (h : isValidFieldName lib s = true) :
    String.ofList s ≠ "" := by
  rintro hs
  have hnil : s = [] := by simpa using congrArg String.toList hs
  simp [isValidFieldName, hnil] at h

theorem parsable_regexp {field pattern : String} (hfield : field ≠ "") :
    Parsable ⟨field, .regexp, pattern⟩ := by
  simp [Parsable, hfield]

theorem parsable_likeIfStar {field value : String} {op : Op} (hfield : field ≠ "")
    (hop : op ≠ .contains ∧ op ≠ .like) : Parsable ⟨field, likeIfStar op value, value⟩ := by
  rw [Parsable, if_neg hfield, likeIfStar]
  by_cases hstar : op = .eq ∧ hasStar value = true
  · simp [hstar]
  · simp only [if_neg hstar]
    refine ⟨hop.1, ?_, fun h => absurd h hop.2⟩
    intro heq
    simpa [heq] using hstar

theorem parseFieldPredicateLoop_parsable {word : List Char} {ops : List (String × Op)}
    (hops : ∀ sep_op ∈ ops, sep_op.2 ≠ .contains ∧ sep_op.2 ≠ .like) {pred : PredExpr}
    (h : parseFieldPredicateLoop lib word ops = some pred) : Parsable pred := by
  induction ops with
  | nil => simp [parseFieldPredicateLoop] at h
  | cons sep_op ops ih =>
      obtain ⟨sep, op⟩ := sep_op
      have hrest := ih fun so hso => hops so (List.mem_cons_of_mem _ hso)
      rw [parseFieldPredicateLoop] at h
      cases hindex : index word sep.toList with
      | none =>
          rw [hindex] at h
          exact hrest h
      | some k =>
          rw [hindex] at h
          cases k with
          | zero => exact hrest h
          | succ i =>
              dsimp only at h
              split_ifs at h with hvalid hvalue hregex hpattern
              · rw [← Option.some.inj h]
                exact parsable_regexp (ne_empty_of_valid hvalid)
              · rw [← Option.some.inj h]
                exact parsable_likeIfStar (ne_empty_of_valid hvalid) (hops _ List.mem_cons_self)
              · exact hrest h

theorem fieldOpSuffixLoop_spec {word : List Char} {ops : List (String × Op)}
    (hops : ∀ sep_op ∈ ops, sep_op.2 ≠ .contains ∧ sep_op.2 ≠ .like) {field : String} {op : Op}
    (h : fieldOpSuffixLoop lib word ops = some (field, op)) :
    field ≠ "" ∧ op ≠ .contains ∧ op ≠ .like := by
  induction ops with
  | nil => simp [fieldOpSuffixLoop] at h
  | cons sep_op ops ih =>
      obtain ⟨sep, op'⟩ := sep_op
      have hrest := ih fun so hso => hops so (List.mem_cons_of_mem _ hso)
      rw [fieldOpSuffixLoop] at h
      dsimp only at h
      split_ifs at h with hsuffix hvalid
      · obtain ⟨rfl, rfl⟩ := Prod.mk.inj (Option.some.inj h)
        exact ⟨ne_empty_of_valid hvalid, hops _ List.mem_cons_self⟩
      · exact hrest h
      · exact hrest h

theorem parsable_contains (value : String) : Parsable ⟨"", .contains, value⟩ := by
  simp [Parsable]

theorem parseWordPredicate_parsable (word : String) (input : List UInt8) :
    Parsable (parseWordPredicate lib word input).1 := by
  rw [parseWordPredicate]
  dsimp only
  cases hpred : parseFieldPredicate lib word with
  | some pred => exact parseFieldPredicateLoop_parsable fieldOps_op hpred
  | none =>
      cases hsuffix : fieldOpSuffix lib word with
      | none => exact parsable_contains word
      | some field_op =>
          obtain ⟨field, op⟩ := field_op
          obtain ⟨hfield, hop⟩ := fieldOpSuffixLoop_spec fieldOps_op hsuffix
          dsimp only
          split
          · exact parsable_regexp hfield
          · exact parsable_likeIfStar hfield hop
          · exact parsable_likeIfStar hfield hop
          · exact parsable_contains word

theorem parseWordPredicate_length_le (word : String) (input : List UInt8) :
    (parseWordPredicate lib word input).2.length ≤ (next lib input).2.length := by
  rw [parseWordPredicate]
  dsimp only
  cases parseFieldPredicate lib word with
  | some pred => exact le_rfl
  | none =>
      cases fieldOpSuffix lib word with
      | none => exact le_rfl
      | some field_op =>
          have hpeek : (peek lib (next lib input).2).2.length ≤ (next lib input).2.length :=
            peek_length_le _
          have hnext : (next lib (peek lib (next lib input).2).2).2.length ≤
              (peek lib (next lib input).2).2.length :=
            next_length_le _
          dsimp only
          split
          · exact hnext.trans hpeek
          · exact hnext.trans hpeek
          · exact hnext.trans hpeek
          · exact hpeek

/-! ## Expressions -/

/-- A result with a parsed filter that leaves less than `bound` of the input,
and which given enough steps is not for the lack of them. -/
structure ParsesTo (bound : ℕ) (enough : Prop)
    (result : Except SearchError (FilterExpr × List UInt8)) : Prop where
  parsed : ∀ e rest, result = .ok (e, rest) → Parsed e ∧ rest.length < bound
  fueled : enough → result ≠ .error .outOfFuel

theorem ParsesTo.ok {bound : ℕ} {enough : Prop} {e : FilterExpr} {rest : List UInt8}
    (he : Parsed e) (hrest : rest.length < bound) : ParsesTo bound enough (.ok (e, rest)) where
  parsed e' rest' h := by
    obtain ⟨rfl, rfl⟩ := Prod.mk.inj (Except.ok.inj h)
    exact ⟨he, hrest⟩
  fueled _ := by simp

theorem ParsesTo.search {bound : ℕ} {enough : Prop} {msg : String} :
    ParsesTo bound enough (.error (.search msg)) where
  parsed e rest h := by cases h
  fueled _ := by simp

theorem ParsesTo.outOfFuel {bound : ℕ} {enough : Prop} (h : ¬ enough) :
    ParsesTo bound enough (.error .outOfFuel) where
  parsed e rest h := by cases h
  fueled henough := absurd henough h

/-- A failure of one part is the failure of the whole. -/
theorem ParsesTo.error {bound bound' : ℕ} {enough enough' : Prop} {err : SearchError}
    (h : ParsesTo bound enough (.error err)) (henough : enough' → enough) :
    ParsesTo bound' enough' (.error err) where
  parsed e rest he := by cases he
  fueled he herr := h.fueled (henough he) (by rw [Except.error.inj herr])

theorem ParsesTo.mono {bound bound' : ℕ} {enough enough' : Prop}
    {result : Except SearchError (FilterExpr × List UInt8)} (h : ParsesTo bound enough result)
    (hbound : bound ≤ bound') (henough : enough' → enough) : ParsesTo bound' enough' result where
  parsed e rest he := (h.parsed e rest he).imp_right fun hrest => hrest.trans_le hbound
  fueled he := h.fueled (henough he)

theorem finishAnd_parsesTo {parts : List FilterExpr} (hparts : ∀ p ∈ parts, Parsed p)
    {input : List UInt8} {bound : ℕ} {enough : Prop} (hinput : parts ≠ [] → input.length < bound) :
    ParsesTo bound enough (finishAnd parts input) := by
  cases parts with
  | nil => exact ParsesTo.search
  | cons p parts =>
      cases parts with
      | nil => exact ParsesTo.ok (hparts p (by simp)) (hinput (by simp))
      | cons q parts => exact ParsesTo.ok (Parsed.and (by simp) hparts) (hinput (by simp))

theorem addAlternative_parsed {left right : FilterExpr} (hleft : Parsed left)
    (hright : Parsed right) : Parsed (addAlternative left right) := by
  cases hleft with
  | or hlen hall =>
      rename_i cs
      refine Parsed.or (by simp; omega) ?_
      intro c hc
      rcases List.mem_append.mp hc with hc | hc
      · exact hall c hc
      · rw [List.mem_singleton.mp hc]
        exact hright
  | leaf hp => exact Parsed.or (by simp) (by simp [Parsed.leaf hp, hright])
  | and hlen hall => exact Parsed.or (by simp) (by simp [Parsed.and hlen hall, hright])
  | not hc => exact Parsed.or (by simp) (by simp [Parsed.not hc, hright])

/-- Five statements about one number of steps, each calling the others with one
step less. -/
theorem parsers_progress (lib : SearchLib) (n : ℕ) :
    (∀ input, ParsesTo input.length (6 * input.length + 5 ≤ n) (parseOr lib n input)) ∧
    (∀ left input, Parsed left →
      ParsesTo (input.length + 1) (6 * input.length + 4 ≤ n) (parseOrLoop lib n left input)) ∧
    (∀ parts input, (∀ p ∈ parts, Parsed p) →
      ParsesTo (if parts = [] then input.length else input.length + 1) (6 * input.length + 3 ≤ n)
        (parseAnd lib n parts input)) ∧
    (∀ input, ParsesTo input.length (6 * input.length + 2 ≤ n) (parseUnary lib n input)) ∧
    (∀ input, ParsesTo input.length (6 * input.length + 1 ≤ n) (parsePrimary lib n input)) := by
  induction n with
  | zero =>
      refine ⟨?_, ?_, ?_, ?_, ?_⟩ <;> intros <;>
        simp only [parseOr, parseOrLoop, parseAnd, parseUnary, parsePrimary] <;>
        exact ParsesTo.outOfFuel (by omega)
  | succ n ih =>
      obtain ⟨hor, horLoop, hand, hunary, hprimary⟩ := ih
      refine ⟨?_, ?_, ?_, ?_, ?_⟩
      · intro input
        rw [parseOr]
        have hleft := hand [] input (by simp)
        rw [if_pos rfl] at hleft
        cases hresult : parseAnd lib n [] input with
        | error err =>
            rw [hresult] at hleft
            exact hleft.error (by omega)
        | ok result =>
            obtain ⟨left, rest⟩ := result
            obtain ⟨hparsed, hrest⟩ := hleft.parsed left rest hresult
            exact (horLoop left rest hparsed).mono (by omega) (by omega)
      · intro left input hleft
        rw [parseOrLoop]
        have hpeek : (peek lib input).2.length ≤ input.length := peek_length_le input
        by_cases hkind : (peek lib input).1.kind = .orOp
        · have hlt : (next lib (peek lib input).2).2.length < input.length :=
            next_peek_length_lt (by simp [hkind])
          have hright := hand [] (next lib (peek lib input).2).2 (by simp)
          rw [if_pos rfl] at hright
          simp only [hkind, ne_eq, not_true_eq_false, if_false]
          cases hresult : parseAnd lib n [] (next lib (peek lib input).2).2 with
          | error err =>
              rw [hresult] at hright
              exact hright.error (by omega)
          | ok result =>
              obtain ⟨right, rest⟩ := result
              obtain ⟨hparsed, hrest⟩ := hright.parsed right rest hresult
              exact (horLoop _ rest (addAlternative_parsed hleft hparsed)).mono (by omega) (by omega)
        · simp only [ne_eq, hkind, not_false_eq_true, if_true]
          exact ParsesTo.ok hleft (by omega)
      · intro parts input hparts
        rw [parseAnd]
        have hpeek : (peek lib input).2.length ≤ input.length := peek_length_le input
        dsimp only
        by_cases hend : endsAnd (peek lib input).1.kind = true
        · rw [if_pos hend]
          refine finishAnd_parsesTo hparts fun hne => ?_
          rw [if_neg hne]
          omega
        · rw [if_neg hend]
          have hand_le : (if (peek lib input).1.kind = .andOp then (next lib (peek lib input).2).2
              else (peek lib input).2).length ≤ input.length := by
            split_ifs
            · exact (next_length_le _).trans hpeek
            · exact hpeek
          generalize (if (peek lib input).1.kind = .andOp then (next lib (peek lib input).2).2
            else (peek lib input).2) = input' at hand_le ⊢
          have hpeek' : (peek lib input').2.length ≤ input'.length := peek_length_le input'
          by_cases hend' : endsAnd (peek lib input').1.kind = true
          · rw [if_pos hend']
            refine finishAnd_parsesTo hparts fun hne => ?_
            rw [if_neg hne]
            omega
          · rw [if_neg hend']
            have hpart := hunary (peek lib input').2
            cases hresult : parseUnary lib n (peek lib input').2 with
            | error err =>
                rw [hresult] at hpart
                exact hpart.error (by omega)
            | ok result =>
                obtain ⟨part, rest⟩ := result
                obtain ⟨hparsed, hrest⟩ := hpart.parsed part rest hresult
                have hmore := hand (parts ++ [part]) rest (by
                  intro p hp
                  rcases List.mem_append.mp hp with hp | hp
                  · exact hparts p hp
                  · rw [List.mem_singleton.mp hp]
                    exact hparsed)
                rw [if_neg (by simp)] at hmore
                refine hmore.mono ?_ (by omega)
                split_ifs <;> omega
      · intro input
        rw [parseUnary]
        have hpeek : (peek lib input).2.length ≤ input.length := peek_length_le input
        by_cases hkind : (peek lib input).1.kind = .notOp
        · have hlt : (next lib (peek lib input).2).2.length < input.length :=
            next_peek_length_lt (by simp [hkind])
          have hchild := hunary (next lib (peek lib input).2).2
          simp only [hkind, if_true]
          cases hresult : parseUnary lib n (next lib (peek lib input).2).2 with
          | error err =>
              rw [hresult] at hchild
              exact hchild.error (by omega)
          | ok result =>
              obtain ⟨child, rest⟩ := result
              obtain ⟨hparsed, hrest⟩ := hchild.parsed child rest hresult
              exact ParsesTo.ok hparsed.not (by omega)
        · simp only [hkind, if_false]
          exact (hprimary _).mono hpeek (by omega)
      · intro input
        rw [parsePrimary]
        dsimp only
        split
        · rename_i hkind
          have hlt : (next lib (peek lib input).2).2.length < input.length :=
            next_peek_length_lt (by simp [hkind])
          have hinner := hor (next lib (peek lib input).2).2
          cases hresult : parseOr lib n (next lib (peek lib input).2).2 with
          | error err =>
              rw [hresult] at hinner
              exact hinner.error (by omega)
          | ok result =>
              obtain ⟨inner, rest⟩ := result
              obtain ⟨hparsed, hrest⟩ := hinner.parsed inner rest hresult
              have hnext : (next lib rest).2.length ≤ rest.length := next_length_le rest
              dsimp only
              split_ifs
              · exact ParsesTo.search
              · exact ParsesTo.ok hparsed (by omega)
        · rename_i hkind
          have hlt : (next lib (peek lib input).2).2.length < input.length :=
            next_peek_length_lt (by simp [hkind])
          exact ParsesTo.ok (Parsed.leaf (parsable_contains _)) hlt
        · rename_i hkind
          have hlt : (next lib (peek lib input).2).2.length < input.length :=
            next_peek_length_lt (by simp [hkind])
          exact ParsesTo.ok (Parsed.leaf (by simp [Parsable])) hlt
        · rename_i hkind
          have hlt : (next lib (peek lib input).2).2.length < input.length :=
            next_peek_length_lt (by simp [hkind])
          have hword : (parseWordPredicate lib (peek lib input).1.text (peek lib input).2).2.length ≤
              (next lib (peek lib input).2).2.length :=
            parseWordPredicate_length_le _ _
          exact ParsesTo.ok (Parsed.leaf (parseWordPredicate_parsable _ _)) (by omega)
        · exact ParsesTo.search

theorem parseOr_parsesTo (lib : SearchLib) (input : List UInt8) :
    ParsesTo input.length (6 * input.length + 5 ≤ parseFuel input)
      (parseOr lib (parseFuel input) input) :=
  (parsers_progress lib (parseFuel input)).1 input

theorem splitPipesLoop_ne_outOfFuel (mode : SplitMode) (escaped : Bool) (buf q : List UInt8) :
    splitPipesLoop mode escaped buf q ≠ .error .outOfFuel := by
  induction q generalizing mode escaped buf with
  | nil => cases mode <;> simp [splitPipesLoop]
  | cons ch rest ih =>
      cases escaped with
      | true => cases mode <;> exact ih _ _ _
      | false =>
          cases mode with
          | quote => rw [splitPipesLoop]; split_ifs <;> exact ih _ _ _
          | regex => rw [splitPipesLoop]; split_ifs <;> exact ih _ _ _
          | plain =>
              rw [splitPipesLoop]
              split_ifs
              · exact ih _ _ _
              · exact ih _ _ _
              · have hrest := ih .plain false []
                cases hsplit : splitPipesLoop .plain false [] rest with
                | error err =>
                    rw [hsplit] at hrest
                    exact hrest
                | ok parts => simp [Except.map]
              · exact ih _ _ _

theorem parsePipe_ne_outOfFuel (part : List UInt8) : parsePipe lib part ≠ .error .outOfFuel := by
  rw [parsePipe]
  split
  · simp
  · dsimp only
    split_ifs
    · split
      · simp
      · split_ifs <;> simp
    · split
      · simp
      · split_ifs <;> simp
    · simp

theorem mapM_parsePipe_ne_outOfFuel (parts : List (List UInt8)) :
    parts.mapM (parsePipe lib) ≠ .error .outOfFuel := by
  induction parts with
  | nil => simp [pure, Except.pure]
  | cons part parts ih =>
      rw [List.mapM_cons]
      have hpart : parsePipe lib part ≠ .error .outOfFuel := parsePipe_ne_outOfFuel part
      cases hpipe : parsePipe lib part with
      | error err =>
          rw [hpipe] at hpart
          simpa [bind, Except.bind] using hpart
      | ok pipe =>
          cases hpipes : parts.mapM (parsePipe lib) with
          | error err =>
              rw [hpipes] at ih
              exact ih
          | ok pipes => simp [bind, Except.bind, pure, Except.pure]

/-- The steps that the parser is given are enough. -/
theorem parseSearch_ne_outOfFuel (lib : SearchLib) (q : List UInt8) :
    parseSearch lib q ≠ .error .outOfFuel := by
  rw [parseSearch]
  dsimp only
  split_ifs with hempty
  · simp
  · cases hsplit : splitPipes (trimSpaceBytes q) with
    | error err =>
        rw [splitPipes] at hsplit
        have hloop := splitPipesLoop_ne_outOfFuel .plain false [] (trimSpaceBytes q)
        split at hsplit
        · rename_i herr
          rw [herr] at hloop
          rw [← Except.error.inj hsplit]
          simpa using hloop
        · cases hsplit
        · cases hsplit
    | ok split =>
        obtain ⟨search, parts⟩ := split
        have hpipes : parts.mapM (parsePipe lib) ≠ .error .outOfFuel :=
          mapM_parsePipe_ne_outOfFuel parts
        cases hmap : parts.mapM (parsePipe lib) with
        | error err =>
            rw [hmap] at hpipes
            simpa [hmap] using hpipes
        | ok pipes =>
            simp only [hmap]
            split_ifs with hblank
            · simp
            · have hparse := (parseOr_parsesTo lib (trimSpaceBytes search)).fueled
                (by simp [parseFuel])
              cases hor : parseOr lib (parseFuel (trimSpaceBytes search)) (trimSpaceBytes search) with
              | error err =>
                  rw [hor] at hparse
                  simpa using hparse
              | ok result =>
                  dsimp only
                  split_ifs <;> simp

/-- The filter of an accepted search is as the parser makes them. -/
theorem parsed_of_parseSearch {q : List UInt8} {filter : Option FilterExpr} {pipes : List PipeCmd}
    (h : parseSearch lib q = .ok (filter, pipes)) : ∀ e ∈ filter, Parsed e := by
  rw [parseSearch] at h
  dsimp only at h
  split_ifs at h with hempty
  · obtain ⟨rfl, -⟩ := Prod.mk.inj (Except.ok.inj h)
    simp
  · cases hsplit : splitPipes (trimSpaceBytes q) with
    | error err => simp [hsplit] at h
    | ok split =>
        obtain ⟨search, parts⟩ := split
        cases hmap : parts.mapM (parsePipe lib) with
        | error err => simp [hsplit, hmap] at h
        | ok cmds =>
            simp only [hsplit, hmap] at h
            split_ifs at h with hblank
            · obtain ⟨rfl, -⟩ := Prod.mk.inj (Except.ok.inj h)
              simp
            · cases hor : parseOr lib (parseFuel (trimSpaceBytes search)) (trimSpaceBytes search) with
              | error err => simp [hor] at h
              | ok result =>
                  obtain ⟨expr, rest⟩ := result
                  simp only [hor] at h
                  split_ifs at h with heof
                  obtain ⟨rfl, -⟩ := Prod.mk.inj (Except.ok.inj h)
                  have hparsed := ((parseOr_parsesTo lib _).parsed expr rest hor).1
                  simpa using hparsed

end GoSite.Observability
