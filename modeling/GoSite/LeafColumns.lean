import GoSite.LeafTexts

/-!
# Columns of a row and fields of its event

A leaf compares a column of the row with its value, in SQL the column itself and
in memory what the event of the row has for it. The pairs of texts the two can be
are found here for each column.
-/
namespace GoSite.Observability
open BooleanTrees GoStrings

/-! ## What memory has for a column -/

/-- The text of the event for a column of the row. The name, the output and the
error of a job are all read from its message. -/
def StoredRow.eventText : StoredRow → Column → Option String
  | .job row, .name => some (jobMessage row)
  | .job row, .output => some (jobMessage row)
  | .job row, .error => some (jobMessage row)
  | row, col =>
      match row.column col with
      | .text s => some s
      | .int n => some (toString n)
      | .null => none

theorem GoText.lower_of_ascii (g : GoText) {s : String}
    (h : ∀ c ∈ s.toList, c.toNat < 128 ∧ c.toLower = c) : g.lower s = s := by
  rw [GoText.lower, List.map_congr_left (g := id), List.map_id, String.ofList_toList]
  intro c hc
  obtain ⟨hascii, hlow⟩ := h c hc
  rw [g.toLower_ascii c hascii, hlow, id]

/-- The field names of every source are ASCII text in lower case. -/
theorem field_normal (kind : SourceKind) :
    ∀ fc ∈ fieldsForKind kind, trimSpace fc.1 = fc.1 ∧
      ∀ c ∈ fc.1.toList, c.toNat < 128 ∧ c.toLower = c := by
  have hall : ((fieldsForKind kind).all fun fc => trimSpace fc.1 = fc.1 ∧
      (fc.1.toList.all fun c => c.toNat < 128 ∧ c.toLower = c)) = true := by
    cases kind <;> decide
  intro fc hfc
  simpa using List.all_eq_true.mp hall fc hfc

theorem mem_of_fieldColumn {kind : SourceKind} {field : String} {col : Column}
    (h : fieldColumn kind field = some col) : (field, col) ∈ fieldsForKind kind := by
  obtain ⟨pre, post, heq, -⟩ := List.lookup_eq_some_iff.mp h
  rw [heq]
  exact List.mem_append_right _ List.mem_cons_self

theorem lower_field (g : GoText) {kind : SourceKind} {field : String} {col : Column}
    (h : fieldColumn kind field = some col) : g.lower (trimSpace field) = field := by
  obtain ⟨htrim, hascii⟩ := field_normal kind _ (mem_of_fieldColumn h)
  rw [htrim, g.lower_of_ascii hascii]

theorem eventFieldValue_eq (g : GoText) {row : StoredRow} {field : String} {col : Column}
    (h : fieldColumn row.kind field = some col) :
    eventFieldValue g row.event field row.kind = row.eventText col := by
  have hlower := lower_field g h
  have hmem := mem_of_fieldColumn h
  simp only [eventFieldValue, hlower]
  cases row with
  | audit row =>
      simp only [StoredRow.kind, fieldsForKind, auditFields, List.mem_cons, Prod.mk.injEq,
        List.not_mem_nil, or_false] at hmem
      obtain ⟨rfl, rfl⟩ | ⟨rfl, rfl⟩ | ⟨rfl, rfl⟩ | ⟨rfl, rfl⟩ | ⟨rfl, rfl⟩ | ⟨rfl, rfl⟩ |
        ⟨rfl, rfl⟩ | ⟨rfl, rfl⟩ := hmem <;> rfl
  | job row =>
      simp only [StoredRow.kind, fieldsForKind, jobFields, List.mem_cons, Prod.mk.injEq,
        List.not_mem_nil, or_false] at hmem
      obtain ⟨rfl, rfl⟩ | ⟨rfl, rfl⟩ | ⟨rfl, rfl⟩ | ⟨rfl, rfl⟩ | ⟨rfl, rfl⟩ | ⟨rfl, rfl⟩ |
        ⟨rfl, rfl⟩ := hmem <;> rfl
  | access row =>
      simp only [StoredRow.kind, fieldsForKind, logAccessFields, List.mem_cons, Prod.mk.injEq,
        List.not_mem_nil, or_false] at hmem
      cases row with | mk ts site code bytes preview hc hp =>
      obtain ⟨rfl, rfl⟩ | ⟨rfl, rfl⟩ | ⟨rfl, rfl⟩ | ⟨rfl, rfl⟩ | ⟨rfl, rfl⟩ := hmem <;>
        cases code <;> cases bytes <;> rfl
  | error row =>
      simp only [StoredRow.kind, fieldsForKind, logErrorFields, List.mem_cons, Prod.mk.injEq,
        List.not_mem_nil, or_false] at hmem
      cases row with | mk ts site code bytes preview hc hp =>
      obtain ⟨rfl, rfl⟩ | ⟨rfl, rfl⟩ | ⟨rfl, rfl⟩ := hmem <;>
        cases code <;> cases bytes <;> rfl

/-! ## How a column gets to memory -/

/-- The ways in which the text of a column is found in the event: unchanged, and
any text, or text of one line, or one of a few; a job's message in its place; or
as the digits of a number that may be missing. -/
inductive Carrier where
  | text
  | line
  | status (allowed : List String)
  | message
  | code

def carrier (kind : SourceKind) : Column → Carrier
  | .status => .status (if kind = .job then jobStatuses else auditStatuses)
  | .statusCode => .code
  | .rawPreview => .line
  | .name | .output | .error => .message
  | _ => .text

/-- The texts a column and the event can have for a row of the kind. -/
def ColumnTexts (kind : SourceKind) (col : Column) (s s' : String) : Prop :=
  ∃ row : StoredRow, row.kind = kind ∧ row.column col = .text s ∧ row.eventText col = some s'

def auditRow (s status : String) (h : status ∈ auditStatuses) : StoredRow :=
  .audit ⟨0, s, s, s, s, s, status, s, [], h⟩

def jobRow (jobType name output error status : String) (h : status ∈ jobStatuses) : StoredRow :=
  .job ⟨0, jobType, name, status, output, error, h⟩

def accessRow (site preview : String) (code : Option ℤ) (hcode : ∀ n ∈ code, IsStatusCode n)
    (hpreview : '\n' ∉ preview.toList) : StoredRow :=
  .access ⟨0, site, code, none, preview, hcode, hpreview⟩

def errorRow (site preview : String) (hpreview : '\n' ∉ preview.toList) : StoredRow :=
  .error ⟨0, site, none, none, preview, isStatusCode_of_none, hpreview⟩

theorem columnTexts_text {kind : SourceKind} {field : String} {col : Column}
    (h : fieldColumn kind field = some col) (hc : carrier kind col = .text) (s s' : String) :
    ColumnTexts kind col s s' ↔ s' = s := by
  have hmem := mem_of_fieldColumn h
  constructor
  · rintro ⟨row, rfl, hs, hs'⟩
    cases row <;> cases col <;> simp_all [carrier, StoredRow.column, StoredRow.eventText]
  · rintro rfl
    cases kind with
    | audit =>
        refine ⟨auditRow s' "ok" (by decide), rfl, ?_⟩
        cases col <;> simp_all [carrier, fieldsForKind, auditFields, auditRow, StoredRow.column,
          StoredRow.eventText]
    | job =>
        refine ⟨jobRow s' "" "" "" "ok" (by decide), rfl, ?_⟩
        cases col <;> simp_all [carrier, fieldsForKind, jobFields, jobRow, StoredRow.column,
          StoredRow.eventText]
    | logAccess =>
        refine ⟨accessRow s' "" none (by simp) (by simp), rfl, ?_⟩
        cases col <;> simp_all [carrier, fieldsForKind, logAccessFields, accessRow,
          StoredRow.column, StoredRow.eventText]
    | logError =>
        refine ⟨errorRow s' "" (by simp), rfl, ?_⟩
        cases col <;> simp_all [carrier, fieldsForKind, logErrorFields, errorRow,
          StoredRow.column, StoredRow.eventText]

theorem columnTexts_line {kind : SourceKind} {field : String} {col : Column}
    (h : fieldColumn kind field = some col) (hc : carrier kind col = .line) (s s' : String) :
    ColumnTexts kind col s s' ↔ s' = s ∧ '\n' ∉ s.toList := by
  have hmem := mem_of_fieldColumn h
  have hcol : col = .rawPreview := by
    cases col <;> simp_all [carrier]
  subst hcol
  constructor
  · rintro ⟨row, rfl, hs, hs'⟩
    cases row with
    | audit row => simp [StoredRow.column] at hs
    | job row => simp [StoredRow.column] at hs
    | access row =>
        simp only [StoredRow.eventText, StoredRow.column, SqlValue.text.injEq,
          Option.some.injEq] at hs hs'
        exact ⟨hs'.symm.trans hs, hs ▸ row.rawPreview_line⟩
    | error row =>
        simp only [StoredRow.eventText, StoredRow.column, SqlValue.text.injEq,
          Option.some.injEq] at hs hs'
        exact ⟨hs'.symm.trans hs, hs ▸ row.rawPreview_line⟩
  · rintro ⟨rfl, hline⟩
    cases kind with
    | audit => simp [fieldsForKind, auditFields] at hmem
    | job => simp [fieldsForKind, jobFields] at hmem
    | logAccess => exact ⟨accessRow "" s' none (by simp) hline, rfl, rfl, rfl⟩
    | logError => exact ⟨errorRow "" s' hline, rfl, rfl, rfl⟩

theorem columnTexts_status {kind : SourceKind} {field : String} {col : Column}
    {allowed : List String} (h : fieldColumn kind field = some col)
    (hc : carrier kind col = .status allowed) (s s' : String) :
    ColumnTexts kind col s s' ↔ s' = s ∧ s ∈ allowed := by
  have hmem := mem_of_fieldColumn h
  have hcol : col = .status := by
    cases col <;> simp_all [carrier]
  subst hcol
  rw [carrier, Carrier.status.injEq] at hc
  constructor
  · rintro ⟨row, rfl, hs, hs'⟩
    cases row with
    | audit row =>
        simp only [StoredRow.eventText, StoredRow.column, SqlValue.text.injEq,
          Option.some.injEq] at hs hs'
        refine ⟨hs'.symm.trans hs, ?_⟩
        rw [← hc, ← hs]
        exact row.status_mem
    | job row =>
        simp only [StoredRow.eventText, StoredRow.column, SqlValue.text.injEq,
          Option.some.injEq] at hs hs'
        refine ⟨hs'.symm.trans hs, ?_⟩
        rw [← hc, ← hs]
        exact row.status_mem
    | access row => simp [StoredRow.column] at hs
    | error row => simp [StoredRow.column] at hs
  · rintro ⟨rfl, hallowed⟩
    cases kind with
    | audit =>
        rw [← hc] at hallowed
        exact ⟨auditRow "" s' hallowed, rfl, rfl, rfl⟩
    | job =>
        rw [← hc] at hallowed
        exact ⟨jobRow "" "" "" "" s' hallowed, rfl, rfl, rfl⟩
    | logAccess => simp [fieldsForKind, logAccessFields] at hmem
    | logError => simp [fieldsForKind, logErrorFields] at hmem

/-- The column of a job and its message can be the same text, and the column can
be empty beside any message. -/
theorem columnTexts_message {kind : SourceKind} {field : String} {col : Column}
    (h : fieldColumn kind field = some col) (hc : carrier kind col = .message) (s : String) :
    ColumnTexts kind col s s ∧ ColumnTexts kind col "" s := by
  have hmem := mem_of_fieldColumn h
  cases kind with
  | audit => cases col <;> simp_all [carrier, fieldsForKind, auditFields]
  | logAccess => cases col <;> simp_all [carrier, fieldsForKind, logAccessFields]
  | logError => cases col <;> simp_all [carrier, fieldsForKind, logErrorFields]
  | job =>
      cases col with
      | name =>
          refine ⟨⟨jobRow "" s "" "" "ok" (by decide), rfl, rfl, ?_⟩,
            ⟨jobRow "" "" "" s "ok" (by decide), rfl, rfl, ?_⟩⟩ <;>
            by_cases hs : s = "" <;> simp [jobRow, StoredRow.eventText, jobMessage, hs]
      | output =>
          refine ⟨⟨jobRow "" "" s "" "ok" (by decide), rfl, rfl, ?_⟩,
            ⟨jobRow "" s "" "" "ok" (by decide), rfl, rfl, ?_⟩⟩ <;>
            by_cases hs : s = "" <;> simp [jobRow, StoredRow.eventText, jobMessage, hs]
      | error =>
          refine ⟨⟨jobRow "" "" "" s "ok" (by decide), rfl, rfl, ?_⟩,
            ⟨jobRow "" s "" "" "ok" (by decide), rfl, rfl, ?_⟩⟩ <;>
            by_cases hs : s = "" <;> simp [jobRow, StoredRow.eventText, jobMessage, hs]
      | _ => simp [carrier] at hc

end GoSite.Observability
