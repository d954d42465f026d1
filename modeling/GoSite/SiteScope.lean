import GoSite.ParsedFilters
import GoSite.QueryService

/-!
# Restricting a search to a site

The scope of a search is conjoined to its filter as an equality on the site, and
goes the way of any other predicate: white space around it is cut off, and a
star in it stands for any text. So the rows of other sites pass as well.
-/
namespace GoSite.Observability
open BooleanTrees GoStrings KeyOrders

/-- The site of an event. -/
def eventSite (ev : QueryEvent) : Option String := ev.metadata.lookup "site"

/-- Whether the condition made of a scope is true of a site. -/
def scopeAccepts (scope site : String) : Bool :=
  if hasStar scope then sqlLike (some '\\') site (escapeLike scope) else site = scope

section
variable (g : GoText) (db : Sqlite) (tables : Tables)

/-- Pages of a scoped search are pages of the part with that site of what the
search returns without a scope. -/
def ScopeRestricts (source : LogSource) (req : QueryRequest) (filter : ParsedFilter) : Prop :=
  ∀ (order order' : Sorting rowTime) (limit offset : ℤ), 1 ≤ limit → limit ≤ 1000 → 0 ≤ offset →
    ∃ answer all,
      queryLogs g db tables order { req with offset := offset } source filter.expr limit =
        .ok answer ∧
      queryLogs g db tables order' { req with site := "", offset := 0 } source filter.expr 0 =
        .ok all ∧
      (∀ ev ∈ answer.events, eventSite ev = some req.site) ∧
      ∃ part : List QueryEvent, part.Perm (all.events.filter (eventSite · = some req.site)) ∧
        Descending QueryEvent.ts part ∧
        answer.events = page offset.toNat limit.toNat part ∧ answer.hits = part.length

/-- Among the rows that match the filter, the condition made of the scope tells
apart those with that site. -/
def ScopeExact (source : LogSource) (req : QueryRequest) (filter : ParsedFilter) : Prop :=
  ∀ row ∈ matchingRows g db tables (sourceKindForLog source) req filter.expr,
    ∀ site, eventSite row.event = some site →
      (scopeAccepts (trimSpace req.site) site = true ↔ site = req.site)

end

theorem eventSite_mapLogEvent (source : String) (row : LogEvent) :
    eventSite (mapLogEvent source row) = some row.site := by
  cases hb : row.bytes <;> cases hs : row.statusCode <;>
    simp [eventSite, mapLogEvent, hb, hs, List.lookup]

variable {g : GoText} {db : Sqlite} {tables : Tables}

/-- The predicate of the scope is true of the rows whose site it accepts. -/
theorem holds_site_iff {source : LogSource} {row : StoredRow} {site : String}
    (hkind : row.kind = sourceKindForLog source) (hsite : eventSite row.event = some site)
    (scope : String) :
    Holds (sourceKindForLog source) (row.truth g db) (.leaf ⟨"site", .eq, scope⟩) ↔
      scopeAccepts scope site = true := by
  have happ : predApplicable (sourceKindForLog source) ⟨"site", .eq, scope⟩ = true := by
    cases source <;> rfl
  have hcol : fieldColumn (sourceKindForLog source) "site" = some .site := by
    cases source <;> rfl
  have hvalue : row.column .site = .text site := by
    cases row with
    | audit row => cases source <;> simp [StoredRow.kind, sourceKindForLog] at hkind
    | job row => cases source <;> simp [StoredRow.kind, sourceKindForLog] at hkind
    | access row =>
        rw [StoredRow.event, eventSite_mapLogEvent, Option.some.injEq] at hsite
        rw [StoredRow.column, hsite]
    | error row =>
        rw [StoredRow.event, eventSite_mapLogEvent, Option.some.injEq] at hsite
        rw [StoredRow.column, hsite]
  have htruth : (BoolTree.leaf (columnAtom .site .eq scope)).eval3 (row.truth g db) =
      some (scopeAccepts scope site) := by
    rw [BoolTree.eval3, StoredRow.truth, columnAtom_value hvalue, SqlValue.truth, scopeAccepts]
    by_cases hstar : hasStar scope = true
    · simp [columnAtom, likeAtom, hstar, compareText]
    · simp [columnAtom, hstar, compareText]
  have hsql : predSql (sourceKindForLog source) ⟨"site", .eq, scope⟩ =
      .leaf (columnAtom .site .eq scope) := predSql_of_field (by simp) (by simp) hcol
  simp only [Holds, exprApplicable, happ, BoolTree.prune, if_true, true_and, Option.some.injEq,
    exists_eq_left', BoolTree.graft, hsql, htruth]

/-- A scoped filter holds of the rows that the filter holds of and whose site
the scope accepts. -/
theorem holds_withSiteScope (source : LogSource) (filter : ParsedFilter) {scope : String}
    (hscope : trimSpace scope ≠ "") :
    ∃ e, withSiteScope filter.expr scope = some e ∧ e.leaves.any freeTextError = false ∧
      ∀ (row : StoredRow) (site : String), row.kind = sourceKindForLog source →
        eventSite row.event = some site →
        (Holds (sourceKindForLog source) (row.truth g db) e ↔
          (∀ f ∈ filter.expr, Holds (sourceKindForLog source) (row.truth g db) f) ∧
            scopeAccepts (trimSpace scope) site = true) := by
  obtain ⟨expr, hparsed⟩ := filter
  cases expr with
  | none =>
      refine ⟨.leaf ⟨"site", .eq, trimSpace scope⟩, by simp [withSiteScope, hscope, andFilters],
        by simp [BoolTree.leaves, freeTextError], ?_⟩
      intro row site hkind hsite
      simpa using holds_site_iff hkind hsite (trimSpace scope)
  | some f =>
      have hf := hparsed f rfl
      have hne := hf.flattenAnd_ne_nil
      refine ⟨.and (flattenAnd f ++ [.leaf ⟨"site", .eq, trimSpace scope⟩]), ?_, ?_, ?_⟩
      · simp only [withSiteScope, hscope, if_false, andFilters]
        cases hkids : flattenAnd f with
        | nil => exact absurd hkids hne
        | cons k ks => cases ks <;> simp [flattenAnd]
      · rw [BoolTree.leaves, leavesAll_eq, List.flatMap_append, leaves_flattenAnd, List.any_append,
          hf.no_freeTextError]
        simp [BoolTree.leaves, freeTextError]
      · intro row site hkind hsite
        rw [holds_and (by simp)]
        simp only [List.mem_append, or_imp, forall_and, List.mem_singleton, forall_eq,
          hf.holds_flattenAnd, holds_site_iff hkind hsite, Option.mem_some_iff, forall_eq']

theorem kind_of_mem_rows {kind : SourceKind} {row : StoredRow} (h : row ∈ tables.rows kind) :
    row.kind = kind := by
  cases kind <;> obtain ⟨_, _, rfl⟩ := List.mem_map.mp h <;> rfl

theorem eventSite_of_mem_rows {source : LogSource} {row : StoredRow}
    (h : row ∈ tables.rows (sourceKindForLog source)) : ∃ site, eventSite row.event = some site := by
  cases source <;> obtain ⟨ev, _, rfl⟩ := List.mem_map.mp h <;>
    exact ⟨ev.site, eventSite_mapLogEvent _ ev⟩

theorem mem_rows_of_mem_matchingRows {kind : SourceKind} {req : QueryRequest}
    {filter : Option FilterExpr} {row : StoredRow}
    (h : row ∈ matchingRows g db tables kind req filter) : row ∈ tables.rows kind := by
  cases hcompile : compileTree filter kind with
  | error msg => simp [matchingRows, hcompile] at h
  | ok wheres =>
      rw [matchingRows_eq hcompile 0 0] at h
      exact List.mem_of_mem_filter h

/-- The rows of a scoped search are those of the search whose site the scope
accepts. -/
theorem matchingRows_withSiteScope (source : LogSource) (req : QueryRequest) (filter : ParsedFilter)
    {scope : String} (hscope : trimSpace scope ≠ "") :
    (∃ wheres, compileTree (withSiteScope filter.expr scope) (sourceKindForLog source) = .ok wheres) ∧
      matchingRows g db tables (sourceKindForLog source) req (withSiteScope filter.expr scope) =
        (matchingRows g db tables (sourceKindForLog source) req filter.expr).filter fun row =>
          (eventSite row.event).any (scopeAccepts (trimSpace scope)) := by
  obtain ⟨e, he, herr, hholds⟩ := @holds_withSiteScope g db source filter _ hscope
  obtain ⟨f, hf, hselects⟩ := compileTree_of_no_error (sourceKindForLog source) herr
  obtain ⟨f', hf', hselects'⟩ := filter.compiles (sourceKindForLog source)
  rw [he]
  refine ⟨⟨f, hf⟩, ?_⟩
  rw [matchingRows_eq hf 0 0, matchingRows_eq hf' 0 0, List.filter_filter]
  apply List.filter_congr
  intro row hrow
  obtain ⟨site, hsite⟩ := eventSite_of_mem_rows hrow
  have hiff := hholds row site (kind_of_mem_rows hrow) hsite
  rw [← hselects, ← hselects', ← Bool.and_eq_true, ← Bool.eq_iff_iff] at hiff
  rw [RowFilter.selects, RowFilter.selects, hiff, hsite, Option.any_some, ← Bool.and_assoc,
    Bool.and_comm (scopeAccepts _ _)]

section
variable {source : LogSource} {req : QueryRequest} {filter : ParsedFilter}

/-- What a page of a scoped search is. -/
theorem queryLogs_scoped (hscope : trimSpace req.site ≠ "") (order : Sorting rowTime)
    {limit offset : ℤ} (hlimit : 0 < limit) (hoffset : 0 ≤ offset) :
    queryLogs g db tables order { req with offset := offset } source filter.expr limit =
      let rows := (matchingRows g db tables (sourceKindForLog source) req filter.expr).filter
        fun row => (eventSite row.event).any (scopeAccepts (trimSpace req.site))
      .ok ⟨(page offset.toNat limit.toNat (order.sort rows)).map StoredRow.event, rows.length⟩ := by
  obtain ⟨⟨wheres, hcompile⟩, hrows⟩ :=
    @matchingRows_withSiteScope g db tables source req filter _ hscope
  rw [queryLogs, querySource_page hcompile hlimit hoffset, ← hrows]
  rfl

theorem queryLogs_unscoped (order : Sorting rowTime) :
    queryLogs g db tables order { req with site := "", offset := 0 } source filter.expr 0 =
      let rows := matchingRows g db tables (sourceKindForLog source) req filter.expr
      .ok ⟨(order.sort rows).map StoredRow.event, rows.length⟩ := by
  obtain ⟨wheres, hcompile, -⟩ := filter.compiles (sourceKindForLog source)
  have hnone : withSiteScope filter.expr "" = filter.expr := by
    simp [withSiteScope, trimSpace, trimSpaceChars]
  rw [queryLogs, hnone, querySource_all hcompile rfl]
  rfl

/-- Every row that the scope accepts is on some page, so it has that site. -/
theorem site_of_accepted (hscope : trimSpace req.site ≠ "")
    (h : ScopeRestricts g db tables source req filter) {row : StoredRow} {site : String}
    (hrow : row ∈ matchingRows g db tables (sourceKindForLog source) req filter.expr)
    (hsite : eventSite row.event = some site)
    (hacc : scopeAccepts (trimSpace req.site) site = true) : site = req.site := by
  let order : Sorting rowTime := Sorting.preferring rowTime fun _ => true
  let rows := (matchingRows g db tables (sourceKindForLog source) req filter.expr).filter
    fun row => (eventSite row.event).any (scopeAccepts (trimSpace req.site))
  have hmem : row ∈ order.sort rows := by simp [rows, hrow, hsite, hacc]
  obtain ⟨i, hi, hget⟩ := List.mem_iff_getElem.mp hmem
  obtain ⟨answer, all, hanswer, -, hall, -⟩ := h order order 1 i le_rfl (by simp) (by simp)
  rw [queryLogs_scoped hscope order one_pos (by simp), Except.ok.injEq] at hanswer
  have hpage : row ∈ page i 1 (order.sort rows) := by
    rw [page, List.drop_eq_getElem_cons hi, hget]
    simp
  have hev : row.event ∈ answer.events := by
    rw [← hanswer]
    exact List.mem_map_of_mem (by simpa using hpage)
  have := hall _ hev
  rwa [hsite, Option.some.injEq] at this

/-- A search is restricted to its scope when the scope tells its rows apart. -/
theorem scope_restricts_iff (g : GoText) (db : Sqlite) (tables : Tables) (source : LogSource)
    (req : QueryRequest) (filter : ParsedFilter) (hscope : trimSpace req.site ≠ "") :
    ScopeRestricts g db tables source req filter ↔ ScopeExact g db tables source req filter := by
  let rows := matchingRows g db tables (sourceKindForLog source) req filter.expr
  let accepted : StoredRow → Bool := fun row =>
    (eventSite row.event).any (scopeAccepts (trimSpace req.site))
  let ofSite : StoredRow → Bool := fun row => eventSite row.event = some req.site
  have hpart : ∀ order' : Sorting rowTime,
      (((order'.sort rows).map StoredRow.event).filter (eventSite · = some req.site)).Perm
        ((rows.filter ofSite).map StoredRow.event) := by
    intro order'
    rw [List.filter_map]
    exact ((order'.perm rows).filter _).map _
  constructor
  · intro h row hrow site hsite
    refine ⟨site_of_accepted hscope h hrow hsite, ?_⟩
    intro heq
    let order : Sorting rowTime := Sorting.preferring rowTime fun _ => true
    obtain ⟨answer, all, hanswer, hall, -, part, hperm, -, -, hhits⟩ :=
      h order order 1 0 le_rfl (by simp) le_rfl
    rw [queryLogs_scoped hscope order one_pos le_rfl, Except.ok.injEq] at hanswer
    rw [queryLogs_unscoped, Except.ok.injEq] at hall
    rw [← hall] at hperm
    have hcount : (rows.filter accepted).length = (rows.filter ofSite).length := by
      have hlen := (hperm.trans (hpart order)).length_eq
      rw [List.length_map] at hlen
      rw [← hlen, ← hhits, ← hanswer]
    have hsub : rows.filter accepted = (rows.filter ofSite).filter accepted := by
      rw [List.filter_filter]
      apply List.filter_congr
      intro r hr
      obtain ⟨s, hs⟩ := eventSite_of_mem_rows (mem_rows_of_mem_matchingRows hr)
      by_cases hacc : scopeAccepts (trimSpace req.site) s = true
      · simp [accepted, ofSite, hs, site_of_accepted hscope h hr hs hacc]
      · simp [accepted, hs, hacc]
    rw [hsub] at hcount
    have hof : row ∈ rows.filter ofSite := List.mem_filter.mpr ⟨hrow, by simp [ofSite, hsite, heq]⟩
    have := List.length_filter_eq_length_iff.mp hcount row hof
    simpa [accepted, hsite] using this
  · intro h order order' limit offset hone _ hoffset
    have hsame : rows.filter accepted = rows.filter ofSite := by
      apply List.filter_congr
      intro r hr
      obtain ⟨s, hs⟩ := eventSite_of_mem_rows (mem_rows_of_mem_matchingRows hr)
      have := h r hr s hs
      rw [Bool.eq_iff_iff]
      simpa [accepted, ofSite, hs] using this
    have hscoped := @queryLogs_scoped g db tables source req filter hscope order _ _
      (by omega : 0 < limit) hoffset
    refine ⟨_, _, hscoped, queryLogs_unscoped order', ?_, ?_⟩
    · intro ev hev
      obtain ⟨row, hrow, rfl⟩ := List.mem_map.mp hev
      have hmem : row ∈ order.sort (rows.filter accepted) :=
        List.mem_of_mem_drop (List.mem_of_mem_take hrow)
      rw [Sorting.mem_sort, hsame, List.mem_filter] at hmem
      exact of_decide_eq_true hmem.2
    · refine ⟨(order.sort (rows.filter accepted)).map StoredRow.event, ?_, ?_, ?_, ?_⟩
      · refine ((order.perm _).map _).trans ?_
        rw [hsame]
        exact (hpart order').symm
      · exact (order.descending _).map fun _ => rfl
      · simp only [page, List.map_take, List.map_drop]
        rfl
      · rw [List.length_map, (order.perm _).length_eq]

/-- A scope without a star and without white space around it accepts its own
site only. -/
theorem scopeExact_of_plain (htrim : trimSpace req.site = req.site)
    (hstar : hasStar req.site = false) : ScopeExact g db tables source req filter := by
  intro row _ site _
  simp [scopeAccepts, htrim, hstar]

end

/-! ## A scope with a star -/

/-- A log file of `a.example` holds one line. -/
def exampleTables : Tables where
  auditLogs := []
  jobRuns := []
  logEvents := [(.access,
    { timestamp := 0
      site := "a.example"
      statusCode := none
      bytes := none
      rawPreview := "GET /"
      statusCode_digits := isStatusCode_of_none
      rawPreview_line := by decide })]

def exampleRequest (site : String) : QueryRequest :=
  ⟨"access", site, "", none, none, 100, 0⟩

theorem scope_restricts_example :
    ScopeRestricts asciiText ⟨fun _ => none⟩ exampleTables .access (exampleRequest "a.example")
      ⟨none, by simp⟩ :=
  (scope_restricts_iff asciiText ⟨fun _ => none⟩ exampleTables .access
    (exampleRequest "a.example") ⟨none, by simp⟩ (by decide)).mpr
    (scopeExact_of_plain (by decide) (by decide))

/-- The scope `*.example` returns the event of `a.example`. -/
theorem star_scope_returns_other_site :
    ¬ ∀ (g : GoText) (db : Sqlite) (tables : Tables) (source : LogSource) (req : QueryRequest)
      (filter : ParsedFilter), trimSpace req.site ≠ "" →
        ScopeRestricts g db tables source req filter := by
  intro h
  have hrestricts := h asciiText ⟨fun _ => none⟩ exampleTables .access (exampleRequest "*.example")
    ⟨none, by simp⟩ (by decide)
  obtain ⟨row, hrow⟩ : ∃ row, exampleTables.rows .logAccess = [row] := ⟨_, rfl⟩
  have hsite : eventSite row.event = some "a.example" := by
    obtain rfl : _ = row := by simpa [exampleTables, Tables.rows, Tables.logRows] using hrow
    rfl
  have hmatch : row ∈ matchingRows asciiText ⟨fun _ => none⟩ exampleTables .logAccess
      (exampleRequest "*.example") none := by
    rw [matchingRows_eq rfl 0 0, hrow]
    simp [RowFilter.selects, exampleRequest, CompiledFilter.selects]
  have := site_of_accepted (by decide) hrestricts hmatch hsite (by decide)
  exact absurd this (by decide)

end GoSite.Observability
