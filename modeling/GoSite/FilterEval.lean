import GoSite.QueryEvents

/-!
# Evaluating a filter on an event

Live tails and pipes test events in memory, with the same filter that is
compiled to SQL for stored rows. Case tables and the regular expression engine
are those of the Go library; what is used of them is bundled with them.
-/
namespace GoSite.Observability
open BooleanTrees GoStrings

/-- `unicode.ToLower`, the classes of `unicode.SimpleFold`, and
`regexp.MatchString` with an invalid pattern matching nothing. On ASCII letters
both tables are the usual ones, and no other character has the case of an ASCII
character that is no letter. -/
structure GoText where
  toLower : Char → Char
  fold : Char → Char
  isMatch : String → String → Bool
  toLower_ascii : ∀ c : Char, c.toNat < 128 → toLower c = c.toLower
  fold_ascii : ∀ c d : Char, c.toLower = d.toLower → fold c = fold d
  toLower_uncased : ∀ c d : Char, c.toNat < 128 → c.isAlpha = false → toLower d = toLower c → d = c
  fold_uncased : ∀ c d : Char, c.toNat < 128 → c.isAlpha = false → fold d = fold c → d = c
  isMatch_empty : ∀ text, isMatch "" text = true

theorem toLower_eq_of_not_alpha {c d : Char} (hc : c.isAlpha = false) (h : d.toLower = c.toLower) :
    d = c := by
  simp only [Char.isAlpha, Char.isUpper, Char.isLower, Bool.or_eq_false_iff,
    decide_eq_false_iff_not, Bool.and_eq_false_iff] at hc
  obtain ⟨hupper, hlower⟩ := hc
  have hcl : c.toLower = c := by simp only [Char.toLower, dif_neg hupper]
  rw [hcl] at h
  by_cases hd : d.val ≥ 'A'.val ∧ d.val ≤ 'Z'.val
  · exfalso
    have hval : c.val = d.val + 32 := by
      rw [← h]
      simp only [Char.toLower, dif_pos hd]
      rfl
    rw [hval] at hlower
    simp only [ge_iff_le, UInt32.le_iff_toNat_le, UInt32.toNat_add] at hd hlower
    have hA : 'A'.val.toNat = 65 := rfl
    have hZ : 'Z'.val.toNat = 90 := rfl
    have ha : 'a'.val.toNat = 97 := rfl
    have hz : 'z'.val.toNat = 122 := rfl
    have h32 : UInt32.toNat 32 = 32 := rfl
    omega
  · simpa only [Char.toLower, dif_neg hd] using h

/-- The tables on ASCII text, with patterns that have no metacharacters. -/
def asciiText : GoText where
  toLower := Char.toLower
  fold := Char.toLower
  isMatch pattern text := pattern.toList <:+: text.toList
  toLower_ascii _ _ := rfl
  fold_ascii _ _ h := h
  toLower_uncased _ _ _ hc h := toLower_eq_of_not_alpha hc h
  fold_uncased _ _ _ hc h := toLower_eq_of_not_alpha hc h
  isMatch_empty text := by simp

/-- `strings.ToLower`. -/
def GoText.lower (g : GoText) (s : String) : String := String.ofList (s.toList.map g.toLower)

/-- `strings.EqualFold`. -/
def GoText.equalFold (g : GoText) (s t : String) : Bool := s.toList.map g.fold = t.toList.map g.fold

/-- `strings.Contains`. -/
def containsText (s sub : String) : Bool := sub.toList <:+: s.toList

/-- Any number of characters other than a newline, then `k`. -/
@[grind] def anyRun (k : List Char → Bool) : List Char → Bool
  | [] => k []
  | c :: cs => k (c :: cs) || (c ≠ '\n' && anyRun k cs)

/-- The anchored expression `matchWildcard` builds: its stars are `.*` and its
other characters stand for themselves. -/
@[grind] def wildMatch : List Char → List Char → Bool
  | [], text => text.isEmpty
  | p :: ps, text =>
      if p = '*' then anyRun (wildMatch ps) text
      else match text with
        | [] => false
        | c :: cs => c = p && wildMatch ps cs

section
variable (g : GoText)

def matchWildcard (value pattern : String) : Bool :=
  let value := g.lower value
  let pattern := g.lower pattern
  if hasStar pattern then wildMatch pattern.toList value.toList
  else value = pattern || containsText value pattern

def eventFieldValue (ev : QueryEvent) (field : String) (kind : SourceKind) : Option String :=
  let field := g.lower (trimSpace field)
  if field = "status" ∨ field = "status_code" then
    match kind with
    | .logAccess => ev.metadata.lookup "status_code"
    | .audit => ev.metadata.lookup "status"
    | .job =>
        match ev.metadata.lookup "status" with
        | some v => some v
        | none => if ev.message ≠ "" then some "" else none
    | .logError => none
  else if field = "site" then ev.metadata.lookup "site"
  else if field = "source" then some ev.source
  else if field = "action" ∨ field = "job_type" ∨ field = "type" then some ev.action
  else if field = "user" ∨ field = "user_email" ∨ field = "email" then some ev.user
  else if field = "message" ∨ field = "output" ∨ field = "error" ∨ field = "name" ∨
      field = "preview" then some ev.message
  else ev.metadata.lookup field

def eventColumnValue (ev : QueryEvent) (col : Column) (kind : SourceKind) : Option String :=
  match col with
  | .userEmail => some ev.user
  | .action => some ev.action
  | .message | .rawPreview => some ev.message
  | .name | .output | .error | .jobType => some ev.message
  | .site => ev.metadata.lookup "site"
  | _ => eventFieldValue g ev col.text kind

def compareNumbers : Op → ℤ → ℤ → Bool
  | .gt, num, cmp => num > cmp
  | .gte, num, cmp => num ≥ cmp
  | .lt, num, cmp => num < cmp
  | .lte, num, cmp => num ≤ cmp
  | _, _, _ => false

/-- The `switch` of `evalPred` on a value the event has. -/
def evalOp (op : Op) (value arg : String) : Bool :=
  match op with
  | .regexp => g.isMatch arg value
  | .like => matchWildcard g value arg
  | .eq =>
      if hasStar arg then matchWildcard g value arg
      else g.equalFold value arg || containsText (g.lower value) (g.lower arg)
  | .ne => !g.equalFold value arg
  | .gt | .gte | .lt | .lte =>
      match atoi (trimSpaceChars value.toList), atoi (trimSpaceChars arg.toList) with
      | (num, none), (cmp, none) => compareNumbers op num cmp
      | _, _ => false
  | .contains => containsText (g.lower value) (g.lower arg)

/-- The `switch` of `evalFreeText` on the value of one column. -/
def evalFreeTextOp (op : Op) (value arg : String) : Bool :=
  match op with
  | .regexp => g.isMatch arg value
  | .like => matchWildcard g value arg
  | _ => containsText (g.lower value) (g.lower arg)

def evalFreeText (p : PredExpr) (ev : QueryEvent) (kind : SourceKind) : Bool :=
  (freeTextColumns kind).any fun col =>
    match eventColumnValue g ev col kind with
    | none => false
    | some value => evalFreeTextOp g p.op value p.value

def evalPred (p : PredExpr) (ev : QueryEvent) (kind : SourceKind) : Bool :=
  if p.field = "" then evalFreeText g p ev kind
  else if (fieldColumn kind p.field).isNone then false
  else match eventFieldValue g ev p.field kind with
    | none => false
    | some value => evalOp g p.op value p.value

/-- `evalNode` looks at the leaves with `evalPred`. -/
def evalNode (expr : FilterExpr) (ev : QueryEvent) (kind : SourceKind) : Bool :=
  expr.eval fun p => evalPred g p ev kind

def evalFilter (expr : Option FilterExpr) (ev : QueryEvent) (kind : SourceKind) : Bool :=
  match expr with
  | none => true
  | some e => if ¬ exprApplicable kind e then false else evalNode g e ev kind

end

end GoSite.Observability
