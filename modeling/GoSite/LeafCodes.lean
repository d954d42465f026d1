import GoSite.LeafConditions

/-!
# Predicates on the status code

SQL compares the code as a number, or its digits with a pattern; memory has its
digits, and reads them back for a comparison. A row may have no code.
-/
namespace GoSite.Observability
open BooleanTrees GoStrings TextFolding

variable {g : GoText} {db : Sqlite}

theorem uncased_of_isDigit {c : Char} (h : c.isDigit = true) : Uncased c := by
  simp only [Char.isDigit, ge_iff_le, Bool.and_eq_true, decide_eq_true_eq,
    UInt32.le_iff_toNat_le] at h
  have h0 : '0'.val.toNat = 48 := rfl
  have h9 : '9'.val.toNat = 57 := rfl
  have hA : 'A'.val.toNat = 65 := rfl
  have hZ : 'Z'.val.toNat = 90 := rfl
  have ha : 'a'.val.toNat = 97 := rfl
  have hz : 'z'.val.toNat = 122 := rfl
  have hn : c.toNat = c.val.toNat := rfl
  refine ⟨by omega, ?_⟩
  simp only [Char.isAlpha, Char.isUpper, Char.isLower, ge_iff_le, UInt32.le_iff_toNat_le,
    Bool.or_eq_false_iff, Bool.and_eq_false_iff, decide_eq_false_iff_not]
  omega

/-- The digits of a status code. -/
theorem code_digits {n : ℤ} (h : IsStatusCode n) :
    ∃ k : ℕ, n = k ∧ k < 1000 ∧ (toString n).toList = Nat.toDigits 10 k := by
  obtain ⟨k, rfl⟩ := Int.eq_ofNat_of_zero_le h.1
  refine ⟨k, rfl, by exact_mod_cast h.2, ?_⟩
  have hstr : toString (k : ℤ) = toString k := rfl
  rw [hstr, Nat.toString_eq_repr, Nat.toList_repr]

theorem uncased_of_mem_code {n : ℤ} (h : IsStatusCode n) {c : Char} (hc : c ∈ (toString n).toList) :
    Uncased c := by
  obtain ⟨k, -, -, hdigits⟩ := code_digits h
  rw [hdigits] at hc
  exact uncased_of_isDigit (isDigit_of_mem_toDigits hc)

theorem toString_code_ne {n : ℤ} (h : IsStatusCode n) : toString n ≠ "" := by
  obtain ⟨k, -, -, hdigits⟩ := code_digits h
  intro hempty
  rw [hempty] at hdigits
  exact Nat.toDigits_ne_nil hdigits.symm

theorem atoi_code {n : ℤ} (h : IsStatusCode n) :
    atoi (trimSpaceChars (toString n).toList) = (n, none) := by
  obtain ⟨k, hk, hlt, hdigits⟩ := code_digits h
  rw [hdigits, trimSpaceChars_of_not_space fun c hc =>
    isSpace_of_isDigit (isDigit_of_mem_toDigits hc), atoi_toDigits (by omega), hk]

theorem equalFold_code {n : ℤ} (h : IsStatusCode n) (v : String) :
    g.equalFold (toString n) v = true ↔ toString n = v := by
  have hclass : ∀ c ∈ (toString n).toList, SameClass g.fold id c := by
    intro c hc d
    obtain ⟨hascii, halpha⟩ := uncased_of_mem_code h hc
    constructor
    · exact g.fold_uncased c d hascii halpha
    · rintro heq
      exact congrArg g.fold heq
  rw [equalFold_iff, eq_comm, map_eq_map_iff hclass, List.map_id, List.map_id, String.toList_inj,
    eq_comm]

theorem containsText_code {n : ℤ} (h : IsStatusCode n) (v : String) :
    containsText (g.lower (toString n)) (g.lower v) = true ↔
      v.toList <:+: (toString n).toList := by
  rw [containsText_lower]
  refine infix_of_infix_map ?_
  intro c hc d
  obtain ⟨hascii, halpha⟩ := uncased_of_mem_code h hc
  exact g.toLower_uncased c d hascii halpha

theorem evalOp_eq_code {n : ℤ} (h : IsStatusCode n) {v : String} (hstar : hasStar v = false) :
    evalOp g .eq (toString n) v = true ↔ v.toList <:+: (toString n).toList := by
  rw [evalOp_eq hstar, Bool.or_eq_true, equalFold_code h, containsText_code h]
  constructor
  · rintro (rfl | hinfix)
    · exact List.infix_refl _
    · exact hinfix
  · exact Or.inr

/-- What the evaluator compares on a status code. -/
theorem evalOp_comparison_code {n : ℤ} (h : IsStatusCode n) {op : Op} (hop : isComparison op = true)
    (v : String) :
    evalOp g op (toString n) v = true ↔
      ∃ k, atoi (trimSpaceChars v.toList) = (k, none) ∧ compareNumbers op n k = true := by
  cases hv : atoi (trimSpaceChars v.toList) with
  | mk k err =>
      cases op with
      | gt | gte | lt | lte =>
          simp only [evalOp, atoi_code h, hv]
          cases err <;> simp
      | _ => simp [isComparison] at hop

/-- The fragment on a row without a status code. -/
theorem leafAgrees_null {p : PredExpr} (row : StoredRow) (hf : p.field ≠ "")
    (hop : p.op ≠ .contains) (hlike : p.op = .like → hasStar p.value = true)
    (h : fieldColumn row.kind p.field = some .statusCode)
    (hrow : row.column .statusCode = .null) (htext : row.eventText .statusCode = none) :
    LeafAgrees g db p row ↔ (p.op = .regexp → p.value ≠ "") := by
  rw [LeafAgrees, predSql_of_field hf hop h, evalPred_of_field hf h, htext, BoolTree.eval3]
  simp only [Bool.false_eq_true, iff_false]
  cases hp : p.op with
  | regexp =>
      simp [columnAtom, textOperand, StoredRow.truth, Operand.value, hrow, SqlValue.asText,
        SqlValue.truth, regexpSQLFn]
  | like =>
      simp [columnAtom, likeAtom, hlike hp, textOperand, StoredRow.truth, Operand.value, hrow,
        SqlValue.asText, SqlValue.truth]
  | eq =>
      by_cases hs : hasStar p.value = true <;>
        simp [columnAtom, likeAtom, hs, textOperand, StoredRow.truth, Operand.value, hrow,
          SqlValue.asText, SqlValue.truth]
  | contains => exact absurd hp hop
  | ne | gt | gte | lt | lte =>
      simp [columnAtom, comparisonOp, StoredRow.truth, Operand.value, hrow, SqlValue.truth]

/-- The two comparisons of an operator with a status code. -/
def CodeAgrees (g : GoText) (db : Sqlite) (op : Op) (v : String) (n : ℤ) : Prop :=
  match op with
  | .regexp => regexpSQLFn g v (toString n) = true ↔ g.isMatch v (toString n) = true
  | .like => sqlLike (some '\\') (toString n) (escapeLike v) = true ↔
      matchWildcard g (toString n) v = true
  | .eq => compareInt db .eq n v = true ↔ evalOp g .eq (toString n) v = true
  | .ne => compareInt db .ne n v = true ↔ (!g.equalFold (toString n) v) = true
  | op => compareInt db (comparisonOp op) n v = true ↔ evalOp g op (toString n) v = true

theorem leafAgrees_code {p : PredExpr} (row : StoredRow) {n : ℤ} (hf : p.field ≠ "")
    (hop : p.op ≠ .contains) (heq : p.op = .eq → hasStar p.value = false)
    (hlike : p.op = .like → hasStar p.value = true)
    (h : fieldColumn row.kind p.field = some .statusCode)
    (hrow : row.column .statusCode = .int n) (htext : row.eventText .statusCode = some (toString n)) :
    LeafAgrees g db p row ↔ CodeAgrees g db p.op p.value n := by
  rw [LeafAgrees, predSql_of_field hf hop h, evalPred_of_field hf h, htext, BoolTree.eval3,
    StoredRow.truth]
  cases hp : p.op with
  | regexp =>
      simp only [columnAtom, textOperand, if_true, Operand.value, hrow, SqlValue.asText,
        SqlValue.truth, compareText, evalOp, CodeAgrees, Option.some.injEq]
  | like =>
      simp only [columnAtom, likeAtom, hlike hp, textOperand, if_true, Operand.value, hrow,
        SqlValue.asText, SqlValue.truth, compareText, evalOp, CodeAgrees, Option.some.injEq]
  | eq =>
      simp [columnAtom, heq hp, Operand.value, hrow, SqlValue.truth, CodeAgrees]
  | contains => exact absurd hp hop
  | ne =>
      simp only [columnAtom, Operand.value, hrow, SqlValue.truth, evalOp, CodeAgrees,
        Option.some.injEq]
  | gt | gte | lt | lte =>
      simp only [columnAtom, comparisonOp, Operand.value, hrow, SqlValue.truth, CodeAgrees,
        Option.some.injEq]

theorem compareInt_eq (n : ℤ) (v : String) :
    compareInt db .eq n v = true ↔ db.numeric v = some (n : ℚ) := by
  cases hv : db.numeric v with
  | none => simp [compareInt, hv]
  | some r =>
      simp only [compareInt, hv, decide_eq_true_eq, Option.some.injEq]
      exact eq_comm

theorem compareInt_ne (n : ℤ) (v : String) :
    compareInt db .ne n v = true ↔ db.numeric v ≠ some (n : ℚ) := by
  cases hv : db.numeric v with
  | none => simp [compareInt, hv]
  | some r =>
      simp only [compareInt, hv, decide_eq_true_eq, ne_eq, Option.some.injEq]
      rw [eq_comm]

/-- On a row with a status code the operator's condition is the one for that
code. -/
theorem forall_codeAgrees_iff {op : Op} {v : String} (hop : op ≠ .contains)
    (hre : op ≠ .regexp) (heq : op = .eq → hasStar v = false) :
    (∀ n, IsStatusCode n → CodeAgrees g db op v n) ↔ codeExact g db op v := by
  cases op with
  | eq =>
      refine forall₂_congr fun n hn => ?_
      rw [CodeAgrees, compareInt_eq, evalOp_eq_code hn (heq rfl)]
  | ne =>
      refine forall₂_congr fun n hn => ?_
      rw [CodeAgrees, compareInt_ne, Bool.not_eq_true', ← Bool.not_eq_true, equalFold_code hn]
      exact not_iff_not
  | like => exact Iff.rfl
  | regexp => exact absurd rfl hre
  | contains => exact absurd rfl hop
  | gt | gte | lt | lte =>
      refine forall₂_congr fun n hn => ?_
      change (_ ↔ evalOp g _ (toString n) v = true) ↔ _
      rw [evalOp_comparison_code hn rfl]

theorem kind_of_statusCode {kind : SourceKind} {field : String}
    (h : fieldColumn kind field = some .statusCode) : kind = .logAccess := by
  have hmem := mem_of_fieldColumn h
  cases kind <;> simp_all [fieldsForKind, auditFields, jobFields, logErrorFields]

theorem leafAgrees_access {p : PredExpr} (row : LogEvent) (hf : p.field ≠ "")
    (hop : p.op ≠ .contains) (heq : p.op = .eq → hasStar p.value = false)
    (hlike : p.op = .like → hasStar p.value = true)
    (h : fieldColumn .logAccess p.field = some .statusCode) :
    LeafAgrees g db p (.access row) ↔
      match row.statusCode with
      | none => p.op = .regexp → p.value ≠ ""
      | some n => CodeAgrees g db p.op p.value n := by
  cases hc : row.statusCode with
  | none =>
      refine leafAgrees_null (.access row) hf hop hlike h ?_ ?_
      · simp [StoredRow.column, hc]
      · simp [StoredRow.eventText, StoredRow.column, hc]
  | some n =>
      refine leafAgrees_code (.access row) hf hop heq hlike h ?_ ?_
      · simp [StoredRow.column, hc]
      · simp [StoredRow.eventText, StoredRow.column, hc]

theorem codeExact_iff {p : PredExpr} {kind : SourceKind} (hf : p.field ≠ "")
    (hop : p.op ≠ .contains) (heq : p.op = .eq → hasStar p.value = false)
    (hlike : p.op = .like → hasStar p.value = true)
    (h : fieldColumn kind p.field = some .statusCode) :
    (∀ row, StoredRow.kind row = kind → LeafAgrees g db p row) ↔ codeExact g db p.op p.value := by
  obtain rfl := kind_of_statusCode h
  have haccess := fun row : LogEvent =>
    (leafAgrees_access row hf hop heq hlike h : LeafAgrees g db p (.access row) ↔ _)
  have hkinds : (∀ row, StoredRow.kind row = .logAccess → LeafAgrees g db p row) ↔
      ∀ row : LogEvent, LeafAgrees g db p (.access row) := by
    constructor
    · intro hall row
      exact hall _ rfl
    · rintro hall row hkind
      cases row with
      | access row => exact hall row
      | audit row | job row | error row => simp [StoredRow.kind] at hkind
  rw [hkinds]
  by_cases hre : p.op = .regexp
  · rw [hre, codeExact]
    constructor
    · intro hall
      exact (haccess ⟨0, "", none, none, "", by simp, by simp⟩).mp (hall _) hre
    · rintro hv row
      rw [haccess row]
      cases hc : row.statusCode with
      | none => exact fun _ => hv
      | some n =>
          have hn := row.statusCode_digits n hc
          simp only [hre, CodeAgrees, regexpSQLFn, if_neg hv, if_neg (toString_code_ne hn)]
  · rw [← forall_codeAgrees_iff hop hre heq]
    constructor
    · intro hall n hn
      exact (haccess ⟨0, "", some n, none, "", by simpa using hn, by simp⟩).mp (hall _)
    · rintro hall row
      rw [haccess row]
      cases hc : row.statusCode with
      | none => exact fun hp => absurd hp hre
      | some n => exact hall n (row.statusCode_digits n hc)

end GoSite.Observability
