import GoSite.BooleanStructure
import GoSite.KeyOrders

/-!
# Searching the stored rows

A search compiles its filter for each source, lists the rows of the source newest
first, and maps them to events. Over all sources each is asked for as many rows
as the page reaches to, and the answers are merged as they arrive. `ORDER BY`
and `sort.Slice` leave the order of equal times open, so a run brings its sorts
with it.
-/
namespace GoSite.Observability
open BooleanTrees GoStrings KeyOrders

inductive LogSource where
  | access
  | error
  deriving Repr, DecidableEq

def sourceKindForLog : LogSource → SourceKind
  | .error => .logError
  | .access => .logAccess

/-- The rows of `audit_logs`, `job_runs` and `log_events`. -/
structure Tables where
  auditLogs : List AuditLog
  jobRuns : List JobRun
  logEvents : List (LogSource × LogEvent)

/-- The rows of `log_events` with the source. -/
def Tables.logRows (tables : Tables) (source : LogSource) : List LogEvent :=
  (tables.logEvents.filter (·.1 = source)).map Prod.snd

/-- The rows a source is searched in. -/
def Tables.rows (tables : Tables) : SourceKind → List StoredRow
  | .audit => tables.auditLogs.map .audit
  | .job => tables.jobRuns.map .job
  | .logAccess => (tables.logRows .access).map .access
  | .logError => (tables.logRows .error).map .error

/-- A search request. `none` is no bound on the time. -/
structure QueryRequest where
  source : String
  site : String
  query : String
  fromTime : Option ℤ
  toTime : Option ℤ
  limit : ℤ
  offset : ℤ

/-- `AuditFilter`, `JobFilter` and `LogEventFilter`. -/
structure RowFilter where
  fromTime : Option ℤ
  toTime : Option ℤ
  wheres : CompiledFilter
  limit : ℤ
  offset : ℤ

def rowTime (row : StoredRow) : ℤ := row.event.ts

section
variable (g : GoText) (db : Sqlite)

/-- The WHERE clause of `List` and `Count`. -/
def RowFilter.selects (f : RowFilter) (kind : SourceKind) (row : StoredRow) : Bool :=
  f.fromTime.all (· ≤ rowTime row) && f.toTime.all (rowTime row ≤ ·) &&
    f.wheres.selects kind (row.truth g db)

/-- `Count`. -/
def RowFilter.count (f : RowFilter) (kind : SourceKind) (rows : List StoredRow) : ℕ :=
  (rows.filter (f.selects g db kind)).length

/-- `List`: a limit or an offset that is not positive is left out. -/
def RowFilter.list (f : RowFilter) (order : Sorting rowTime) (kind : SourceKind)
    (rows : List StoredRow) : List StoredRow :=
  let rows := order.sort (rows.filter (f.selects g db kind))
  let rows := if 0 < f.offset then rows.drop f.offset.toNat else rows
  if 0 < f.limit then rows.take f.limit.toNat else rows

end

inductive QueryError where
  /-- `CodeQueryInvalid` with its message. -/
  | invalid (msg : String)
  /-- A slice out of its bounds. -/
  | panicked
  deriving Repr, DecidableEq

/-- The events of a page and the number of hits. -/
structure QueryAnswer where
  events : List QueryEvent
  hits : ℕ
  deriving Repr, DecidableEq

section
variable (g : GoText) (db : Sqlite) (tables : Tables)

/-- The body that the searches of one source share. -/
def querySource (order : Sorting rowTime) (kind : SourceKind) (req : QueryRequest)
    (filter : Option FilterExpr) (limit : ℤ) : Except QueryError QueryAnswer :=
  match compileTree filter kind with
  | .error msg => .error (.invalid msg)
  | .ok wheres =>
      if ¬ wheres.applicable then .ok ⟨[], 0⟩
      else
        let f : RowFilter := ⟨req.fromTime, req.toTime, wheres, limit, req.offset⟩
        .ok ⟨(f.list g db order kind (tables.rows kind)).map StoredRow.event,
          f.count g db kind (tables.rows kind)⟩

def queryAudit (order : Sorting rowTime) (req : QueryRequest) (filter : Option FilterExpr)
    (limit : ℤ) : Except QueryError QueryAnswer :=
  querySource g db tables order .audit req filter limit

def queryJobs (order : Sorting rowTime) (req : QueryRequest) (filter : Option FilterExpr)
    (limit : ℤ) : Except QueryError QueryAnswer :=
  querySource g db tables order .job req filter limit

def queryLogs (order : Sorting rowTime) (req : QueryRequest) (logSource : LogSource)
    (filter : Option FilterExpr) (limit : ℤ) : Except QueryError QueryAnswer :=
  querySource g db tables order (sourceKindForLog logSource) req (withSiteScope filter req.site) limit

/-- The sources of `queryAll`. -/
def allSources : List SourceKind := [.audit, .job, .logAccess, .logError]

/-- What is left open in a run of `queryAll`: how each source sorts its rows, the
order in which the four answer, and how the merge is sorted. -/
structure MergeRun where
  order : SourceKind → Sorting rowTime
  arrival : List SourceKind
  arrival_perm : arrival.Perm allSources
  merge : Sorting QueryEvent.ts

/-- How many rows each source is asked for. `int` has 64 bits. -/
def fetchLimit (limit offset : ℤ) : ℤ :=
  let fetch := Int.bmod (limit + offset) (2 ^ 64)
  let fetch := if fetch ≤ 0 then 100 else fetch
  if fetch > 2000 then 2000 else fetch

/-- The body of the goroutine of a source. -/
def queryOne (order : Sorting rowTime) (req : QueryRequest) (filter : Option FilterExpr)
    (fetch : ℤ) : SourceKind → Except QueryError QueryAnswer
  | .audit => queryAudit g db tables order { req with offset := 0 } filter fetch
  | .job => queryJobs g db tables order { req with offset := 0 } filter fetch
  | .logAccess => queryLogs g db tables order { req with offset := 0 } .access filter fetch
  | .logError => queryLogs g db tables order { req with offset := 0 } .error filter fetch

/-- The slice `l[start:stop]`. -/
def sliceRange {α : Type*} (l : List α) (start stop : ℤ) : Except QueryError (List α) :=
  if 0 ≤ start ∧ start ≤ stop ∧ stop ≤ l.length then
    .ok ((l.take stop.toNat).drop start.toNat)
  else .error .panicked

/-- `queryAll` of a query without pipe commands. -/
def queryAll (run : MergeRun) (req : QueryRequest) (filter : Option FilterExpr) (limit : ℤ) :
    Except QueryError QueryAnswer := do
  let fetch := fetchLimit limit req.offset
  let results ← run.arrival.mapM fun kind => queryOne g db tables (run.order kind) req filter fetch kind
  let merged := run.merge.sort (results.flatMap QueryAnswer.events)
  let start := if req.offset > merged.length then (merged.length : ℤ) else req.offset
  let stop := if start + limit > merged.length then (merged.length : ℤ) else start + limit
  let sliced ← sliceRange merged start stop
  return ⟨sliced, sliced.length⟩

end

/-! ## What a source answers -/

section
variable (g : GoText) (db : Sqlite) (tables : Tables)

/-- The rows of a source that match a filter in the time of a request. -/
def matchingRows (kind : SourceKind) (req : QueryRequest) (filter : Option FilterExpr) :
    List StoredRow :=
  match compileTree filter kind with
  | .error _ => []
  | .ok wheres =>
      (tables.rows kind).filter
        (RowFilter.selects g db ⟨req.fromTime, req.toTime, wheres, 0, 0⟩ kind)

variable {g db tables}

theorem RowFilter.list_page (f : RowFilter) (order : Sorting rowTime) (kind : SourceKind)
    (rows : List StoredRow) (hlimit : 0 < f.limit) (hoffset : 0 ≤ f.offset) :
    f.list g db order kind rows =
      page f.offset.toNat f.limit.toNat (order.sort (rows.filter (f.selects g db kind))) := by
  simp only [RowFilter.list, if_pos hlimit, page]
  by_cases hpos : 0 < f.offset
  · rw [if_pos hpos]
  · have hzero : f.offset.toNat = 0 := by omega
    rw [if_neg hpos, hzero, List.drop_zero]

theorem RowFilter.list_all (f : RowFilter) (order : Sorting rowTime) (kind : SourceKind)
    (rows : List StoredRow) (hlimit : ¬ 0 < f.limit) (hoffset : ¬ 0 < f.offset) :
    f.list g db order kind rows = order.sort (rows.filter (f.selects g db kind)) := by
  simp only [RowFilter.list, if_neg hlimit, if_neg hoffset]

theorem matchingRows_eq {kind : SourceKind} {req : QueryRequest} {filter : Option FilterExpr}
    {wheres : CompiledFilter} (hcompile : compileTree filter kind = .ok wheres) (limit offset : ℤ) :
    matchingRows g db tables kind req filter = (tables.rows kind).filter
      (RowFilter.selects g db ⟨req.fromTime, req.toTime, wheres, limit, offset⟩ kind) := by
  rw [matchingRows, hcompile]
  rfl

/-- A filter that is not applicable matches no row. -/
theorem matchingRows_of_not_applicable {kind : SourceKind} {req : QueryRequest}
    {filter : Option FilterExpr} {wheres : CompiledFilter}
    (hcompile : compileTree filter kind = .ok wheres) (happ : wheres.applicable = false) :
    matchingRows g db tables kind req filter = [] := by
  rw [matchingRows_eq hcompile 0 0, List.filter_eq_nil_iff]
  intro row _
  simp [RowFilter.selects, CompiledFilter.selects, happ]

/-- A source answers with a page of its matching rows. -/
theorem querySource_page {order : Sorting rowTime} {kind : SourceKind} {req : QueryRequest}
    {filter : Option FilterExpr} {wheres : CompiledFilter} {limit : ℤ}
    (hcompile : compileTree filter kind = .ok wheres) (hlimit : 0 < limit)
    (hoffset : 0 ≤ req.offset) :
    querySource g db tables order kind req filter limit =
      .ok ⟨(page req.offset.toNat limit.toNat
          (order.sort (matchingRows g db tables kind req filter))).map StoredRow.event,
        (matchingRows g db tables kind req filter).length⟩ := by
  rw [querySource, hcompile]
  by_cases happ : wheres.applicable = true
  · simp only [happ, not_true_eq_false, if_false]
    rw [RowFilter.list_page _ _ _ _ hlimit hoffset, RowFilter.count,
      ← matchingRows_eq hcompile]
  · simp only [happ]
    rw [matchingRows_of_not_applicable hcompile (by simpa using happ)]
    simp [page]

/-- Without a limit it answers with all of them. -/
theorem querySource_all {order : Sorting rowTime} {kind : SourceKind} {req : QueryRequest}
    {filter : Option FilterExpr} {wheres : CompiledFilter}
    (hcompile : compileTree filter kind = .ok wheres) (hoffset : req.offset = 0) :
    querySource g db tables order kind req filter 0 =
      .ok ⟨(order.sort (matchingRows g db tables kind req filter)).map StoredRow.event,
        (matchingRows g db tables kind req filter).length⟩ := by
  rw [querySource, hcompile]
  by_cases happ : wheres.applicable = true
  · simp only [happ, not_true_eq_false, if_false]
    rw [RowFilter.list_all _ _ _ _ (lt_irrefl 0) (by simp [hoffset]), RowFilter.count,
      ← matchingRows_eq hcompile]
  · simp only [happ]
    rw [matchingRows_of_not_applicable hcompile (by simpa using happ)]
    simp

end
end GoSite.Observability
