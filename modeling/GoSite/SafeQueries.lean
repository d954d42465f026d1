import GoSite.ClosedSql
import GoSite.MergedPages
import GoSite.ParserProgress
import GoSite.SortPipes

/-!
# Searches that do not panic

A whole search with everything in it that can panic: each slice is taken within
its bounds or not at all, and the map an audit row is decoded into may be nil when
the status is written to it. A search is safe when no audit row it lists has the
text `null`, and the offset of a search over all sources is not negative.
-/
namespace GoSite.Observability
open GoStrings KeyOrders

/-- White space of JSON. -/
def jsonSpace (c : Char) : Bool := c = ' ' ∨ c = '\t' ∨ c = '\n' ∨ c = '\r'

/-- The text is the JSON value `null`. -/
def isJsonNull (text : String) : Bool :=
  (text.toList.dropWhile jsonSpace).rdropWhile jsonSpace = "null".toList

/-- What `json.Unmarshal` makes of an empty map, also when it returns an error.
`none` is the nil map, which only `null` leaves. -/
structure JsonMaps where
  unmarshal : String → Option (List (String × MetaValue))
  unmarshal_eq_none : ∀ text, unmarshal text = none ↔ isJsonNull text = true

/-- A stored row with the text of its `meta_json`, which only audit rows have. -/
abbrev Record := StoredRow × String

/-- The tables with the texts of `meta_json`. -/
structure RecordTables where
  auditLogs : List (AuditLog × String)
  jobRuns : List JobRun
  logEvents : List (LogSource × LogEvent)

/-- The rows of `log_events` with the source. -/
def RecordTables.logRecords (tables : RecordTables) (source : LogSource) : List LogEvent :=
  (tables.logEvents.filter (·.1 = source)).map Prod.snd

def RecordTables.records (tables : RecordTables) : SourceKind → List Record
  | .audit => tables.auditLogs.map fun (log, text) => (.audit log, text)
  | .job => tables.jobRuns.map fun run => (.job run, "")
  | .logAccess => (tables.logRecords .access).map fun row => (.access row, "")
  | .logError => (tables.logRecords .error).map fun row => (.error row, "")

def recordTime (r : Record) : ℤ := rowTime r.1

/-! ## Mapping rows -/

/-- What the mappings write to `Meta` themselves. -/
def rowValues : StoredRow → List (String × MetaValue)
  | .audit row =>
      [("status", .text row.status), ("domain", .text row.domain),
        ("resource_id", .text row.resourceID), ("resource_type", .text row.resourceType)]
  | .job row => [("name", .text row.name), ("status", .text row.status)]
  | .access row | .error row =>
      (row.bytes.map fun n => ("bytes", .int n)).toList ++
        (row.statusCode.map fun n => ("status_code", .int n)).toList ++ [("site", .text row.site)]

/-- The message in an id. -/
def cutMessage (message : List UInt8) : Except QueryError (List UInt8) :=
  if message.length > 64 then sliceRange message 0 64 else .ok message

/-- The map that the values of a row are written to. -/
def decodedMeta (json : JsonMaps) (r : Record) : Except QueryError (List (String × MetaValue)) :=
  match r.1 with
  | .audit _ =>
      if r.2 ≠ "" ∧ r.2 ≠ "{}" then
        match json.unmarshal r.2 with
        | none => .error .panicked
        | some values => .ok values
      else .ok []
  | .job _ | .access _ | .error _ => .ok []

/-- The loop body of `mapAuditEvents`, `mapJobEvents` and `mapLogEvents`. -/
def mapRecord (json : JsonMaps) (r : Record) : Except QueryError TypedEvent := do
  let values ← decodedMeta json r
  let ev := r.1.event
  let message ← cutMessage (encode ev.message)
  return { ev with
    id := encode ev.source ++ idBar ::
      (encode (String.ofList (GoTimes.formatRFC3339Nano ev.ts)) ++ idBar :: message)
    values := rowValues r.1 ++ values }

/-! ## Pipes -/

section
variable (g : GoText)

def runPipe (events : List TypedEvent) (pipe : PipeCmd) : Except QueryError (List TypedEvent) :=
  if pipe.name = "head" then
    if pipe.limit > 0 ∧ events.length > pipe.limit then sliceRange events 0 pipe.limit
    else .ok events
  else if pipe.name = "sort" then .ok (sortEvents g events pipe.field pipe.desc)
  else .ok events

/-- `ApplyPipes` with its slices. -/
def runPipes (events : List TypedEvent) (pipes : List PipeCmd) :
    Except QueryError (List TypedEvent) :=
  pipes.foldlM (runPipe g) events

end

/-! ## The search -/

/-- The events of a page and the number of hits. -/
structure QueryResult where
  events : List TypedEvent
  hits : ℕ

/-- What is left open in a run: how each source sorts its rows, the order in which
the four answer, and how the merge is sorted. -/
structure SearchRun where
  order : SourceKind → Sorting recordTime
  arrival : List SourceKind
  arrival_perm : arrival.Perm allSources
  merge : Sorting fun ev : TypedEvent => ev.ts

inductive QueryFailure where
  /-- `CodeTimeRangeInvalid` with its message. -/
  | timeRangeInvalid (msg : String)
  | query (err : QueryError)
  deriving Repr, DecidableEq

def SearchError.message : SearchError → String
  | .search msg => msg
  | .outOfFuel => ""

/-- `From` is not after `To`. -/
def validTimeRange (req : QueryRequest) : Bool :=
  match req.fromTime, req.toTime with
  | some a, some b => a ≤ b
  | _, _ => true

def queryLimit (limit : ℤ) : ℤ :=
  let limit := if limit ≤ 0 then 100 else limit
  if limit > 1000 then 1000 else limit

def isPanic {α : Type*} : Except QueryError α → Bool
  | .error .panicked => true
  | _ => false

section
variable (g : GoText) (db : Sqlite) (json : JsonMaps) (tables : RecordTables)

/-- `List` of the repository of a source. -/
def RowFilter.records (f : RowFilter) (order : Sorting recordTime) (kind : SourceKind)
    (rows : List Record) : List Record :=
  let rows := order.sort (rows.filter fun r => f.selects g db kind r.1)
  let rows := if 0 < f.offset then rows.drop f.offset.toNat else rows
  if 0 < f.limit then rows.take f.limit.toNat else rows

/-- The records a source lists, if its filter applies. -/
def listed (run : SearchRun) (kind : SourceKind) (req : QueryRequest) (filter : Option FilterExpr)
    (limit : ℤ) : List Record :=
  match compileTree (sourceFilter req filter kind) kind with
  | .error _ => []
  | .ok wheres =>
      if ¬ wheres.applicable then []
      else
        RowFilter.records g db ⟨req.fromTime, req.toTime, wheres, limit, req.offset⟩
          (run.order kind) kind (tables.records kind)

/-- `queryAudit`, `queryJobs` and `queryLogs`. -/
def searchSource (run : SearchRun) (kind : SourceKind) (req : QueryRequest)
    (filter : Option FilterExpr) (limit : ℤ) : Except QueryError QueryResult :=
  match compileTree (sourceFilter req filter kind) kind with
  | .error msg => .error (.invalid msg)
  | .ok wheres =>
      if ¬ wheres.applicable then .ok ⟨[], 0⟩
      else do
        let f : RowFilter := ⟨req.fromTime, req.toTime, wheres, limit, req.offset⟩
        let hits := ((tables.records kind).filter fun r => f.selects g db kind r.1).length
        let events ← (f.records g db (run.order kind) kind (tables.records kind)).mapM
          (mapRecord json)
        return ⟨events, hits⟩

/-- `queryAll`. A panic of the goroutine of a source is not recovered, whatever
the others answer. -/
def searchAll (run : SearchRun) (req : QueryRequest) (filter : Option FilterExpr)
    (pipes : List PipeCmd) (limit : ℤ) : Except QueryError QueryResult :=
  let fetch := fetchLimit limit req.offset
  let answer := fun kind =>
    searchSource g db json tables run kind { req with offset := 0 } filter fetch
  if allSources.any fun kind => isPanic (answer kind) then .error .panicked
  else do
    let results ← run.arrival.mapM answer
    let merged := run.merge.sort (results.flatMap QueryResult.events)
    let start := if req.offset > merged.length then (merged.length : ℤ) else req.offset
    let stop := if start + limit > merged.length then (merged.length : ℤ) else start + limit
    let sliced ← sliceRange merged start stop
    let sliced ← runPipes g sliced pipes
    return ⟨sliced, sliced.length⟩

/-- The pipes after the search of one source. -/
def searchOne (run : SearchRun) (kind : SourceKind) (req : QueryRequest)
    (filter : Option FilterExpr) (pipes : List PipeCmd) (limit : ℤ) :
    Except QueryError QueryResult := do
  let result ← searchSource g db json tables run kind req filter limit
  let events ← runPipes g result.events pipes
  return ⟨events, if pipes.any (·.name = "head") then events.length else result.hits⟩

/-- The source of a request; none is all. -/
def sourceName (req : QueryRequest) : String :=
  let source := g.lower (trimSpace req.source)
  if source = "" then "all" else source

/-- The switch over the sources. -/
def searchSources (run : SearchRun) (req : QueryRequest) (filter : Option FilterExpr)
    (pipes : List PipeCmd) : Except QueryError QueryResult :=
  let limit := queryLimit req.limit
  let source := sourceName g req
  if source = sourceAudit then searchOne g db json tables run .audit req filter pipes limit
  else if source = sourceJob then searchOne g db json tables run .job req filter pipes limit
  else if source = sourceAccess then
    searchOne g db json tables run .logAccess req filter pipes limit
  else if source = sourceError then
    searchOne g db json tables run .logError req filter pipes limit
  else if source = "all" then searchAll g db json tables run req filter pipes limit
  else .error (.invalid "unknown source")

/-- `Query`. -/
def query (lib : SearchLib) (run : SearchRun) (req : QueryRequest) :
    Except QueryFailure QueryResult :=
  if ¬ validTimeRange req then .error (.timeRangeInvalid "from must be before to")
  else
    match parseSearch lib (encode req.query) with
    | .error err => .error (.query (.invalid err.message))
    | .ok (filter, pipes) =>
        (searchSources g db json tables run req filter pipes).mapError QueryFailure.query

/-- No audit row that the search lists has the text `null`, and the offset of a
search over all sources is not negative. -/
def QuerySafe (run : SearchRun) (req : QueryRequest) (filter : Option FilterExpr) : Prop :=
  (sourceName g req = sourceAudit →
    ∀ r ∈ listed g db tables run .audit req filter (queryLimit req.limit), isJsonNull r.2 = false) ∧
  (sourceName g req = "all" → 0 ≤ req.offset ∧
    ∀ r ∈ listed g db tables run .audit { req with offset := 0 } filter
      (fetchLimit (queryLimit req.limit) req.offset), isJsonNull r.2 = false)

end

/-! ## Slices -/

theorem cutMessage_eq (message : List UInt8) : cutMessage message = .ok (message.take 64) := by
  rw [cutMessage]
  split_ifs with hlong
  · have hbounds : (0 : ℤ) ≤ 0 ∧ (0 : ℤ) ≤ 64 ∧ (64 : ℤ) ≤ message.length := by omega
    rw [sliceRange, if_pos hbounds]
    rfl
  · rw [List.take_of_length_le (by omega)]

/-- The slice of a pipe is within its bounds. -/
theorem runPipe_eq (g : GoText) (events : List TypedEvent) (pipe : PipeCmd) :
    runPipe g events pipe = .ok (applyPipe g events pipe) := by
  rw [runPipe, applyPipe]
  split_ifs with hhead hlimit
  · have hbounds : (0 : ℤ) ≤ 0 ∧ (0 : ℤ) ≤ pipe.limit ∧ pipe.limit ≤ events.length := by omega
    rw [sliceRange, if_pos hbounds]
    rfl
  · rfl
  · rfl
  · rfl

theorem runPipes_eq (g : GoText) (events : List TypedEvent) (pipes : List PipeCmd) :
    runPipes g events pipes = .ok (applyPipes g events pipes) := by
  induction pipes generalizing events with
  | nil => rfl
  | cons pipe pipes ih =>
      rw [runPipes, List.foldlM_cons, runPipe_eq]
      exact ih (applyPipe g events pipe)

/-- A slice from a negative offset is out of its bounds. -/
theorem sliceRange_negative {α : Type*} (l : List α) (limit : ℤ) {offset : ℤ} (hoffset : offset < 0) :
    (let start := if offset > l.length then (l.length : ℤ) else offset
      let stop := if start + limit > l.length then (l.length : ℤ) else start + limit
      sliceRange l start stop) = .error .panicked := by
  have hstart : ¬ offset > l.length := by omega
  simp only [if_neg hstart, sliceRange]
  rw [if_neg (by omega)]

/-! ## Rows -/

/-- The map of the row is nil when the status is written to it. -/
def nilMeta (r : Record) : Bool :=
  match r.1 with
  | .audit _ => isJsonNull r.2
  | .job _ | .access _ | .error _ => false

section
variable {g : GoText} {db : Sqlite} {json : JsonMaps} {tables : RecordTables} {run : SearchRun}
  {req : QueryRequest}

theorem isJsonNull_empty : isJsonNull "" = false ∧ isJsonNull "{}" = false := by decide

theorem mapRecord_of_nil {r : Record} (h : nilMeta r = true) :
    mapRecord json r = .error .panicked := by
  obtain ⟨row, text⟩ := r
  cases row with
  | audit log =>
      have htext : isJsonNull text = true := h
      have hne : text ≠ "" ∧ text ≠ "{}" := by
        constructor
        · rintro rfl
          simp [isJsonNull_empty.1] at htext
        · rintro rfl
          simp [isJsonNull_empty.2] at htext
      rw [mapRecord, decodedMeta]
      simp only [if_pos hne, (json.unmarshal_eq_none text).mpr htext]
      rfl
  | job run => simp [nilMeta] at h
  | access row => simp [nilMeta] at h
  | error row => simp [nilMeta] at h

theorem mapRecord_of_not_nil (json : JsonMaps) {r : Record} (h : nilMeta r = false) :
    ∃ ev, mapRecord json r = .ok ev := by
  have hmeta : ∃ values, decodedMeta json r = .ok values := by
    obtain ⟨row, text⟩ := r
    cases row with
    | audit log =>
        simp only [decodedMeta]
        split_ifs
        · cases hvalues : json.unmarshal text with
          | none =>
              have htext : isJsonNull text = false := h
              rw [(json.unmarshal_eq_none text).mp hvalues] at htext
              cases htext
          | some values => exact ⟨values, rfl⟩
        · exact ⟨[], rfl⟩
    | job run => exact ⟨[], rfl⟩
    | access row => exact ⟨[], rfl⟩
    | error row => exact ⟨[], rfl⟩
  obtain ⟨values, hvalues⟩ := hmeta
  simp only [mapRecord, hvalues, cutMessage_eq]
  exact ⟨_, rfl⟩

theorem mapM_mapRecord (json : JsonMaps) (rows : List Record) :
    ((∀ r ∈ rows, nilMeta r = false) → ∃ events, rows.mapM (mapRecord json) = .ok events) ∧
      ((∃ r ∈ rows, nilMeta r = true) → rows.mapM (mapRecord json) = .error .panicked) := by
  induction rows with
  | nil => exact ⟨fun _ => ⟨[], rfl⟩, by simp⟩
  | cons r rows ih =>
      constructor
      · intro h
        rw [List.forall_mem_cons] at h
        obtain ⟨ev, hev⟩ := mapRecord_of_not_nil json h.1
        obtain ⟨events, hevents⟩ := ih.1 h.2
        exact ⟨ev :: events, by rw [List.mapM_cons, hev, hevents]; rfl⟩
      · intro h
        by_cases hr : nilMeta r = true
        · rw [List.mapM_cons, mapRecord_of_nil hr]
          rfl
        · obtain ⟨ev, hev⟩ := mapRecord_of_not_nil json (Bool.not_eq_true _ ▸ hr)
          have hrest : ∃ x ∈ rows, nilMeta x = true := by
            obtain ⟨x, hx, hnil⟩ := h
            obtain rfl | hx := List.mem_cons.mp hx
            · exact absurd hnil hr
            · exact ⟨x, hx, hnil⟩
          rw [List.mapM_cons, hev, ih.2 hrest]
          rfl

theorem mem_of_mem_records {f : RowFilter} {order : Sorting recordTime} {kind : SourceKind}
    {rows : List Record} {r : Record} (h : r ∈ f.records g db order kind rows) : r ∈ rows := by
  have hsub : ∀ l : List Record, r ∈ (if 0 < f.limit then
      (if 0 < f.offset then l.drop f.offset.toNat else l).take f.limit.toNat
      else if 0 < f.offset then l.drop f.offset.toNat else l) → r ∈ l := by
    intro l hr
    split_ifs at hr
    · exact List.mem_of_mem_drop (List.mem_of_mem_take hr)
    · exact List.mem_of_mem_take hr
    · exact List.mem_of_mem_drop hr
    · exact hr
  exact List.mem_of_mem_filter ((order.perm _).subset (hsub _ h))

theorem mem_of_mem_listed {kind : SourceKind} {filter : Option FilterExpr} {limit : ℤ} {r : Record}
    (h : r ∈ listed g db tables run kind req filter limit) : r ∈ tables.records kind := by
  rw [listed] at h
  cases hcompile : compileTree (sourceFilter req filter kind) kind with
  | error msg => simp [hcompile] at h
  | ok wheres =>
      simp only [hcompile] at h
      by_cases happ : wheres.applicable = true
      · rw [if_neg (by simp [happ])] at h
        exact mem_of_mem_records h
      · rw [if_pos happ] at h
        cases h

theorem nilMeta_of_mem_records {kind : SourceKind} (hkind : kind ≠ .audit) {r : Record}
    (h : r ∈ tables.records kind) : nilMeta r = false := by
  cases kind with
  | audit => exact absurd rfl hkind
  | job | logAccess | logError =>
      obtain ⟨row, -, rfl⟩ := List.mem_map.mp h
      rfl

theorem nilMeta_of_mem_audit {r : Record} (h : r ∈ tables.records .audit) :
    nilMeta r = isJsonNull r.2 := by
  obtain ⟨⟨log, text⟩, -, rfl⟩ := List.mem_map.mp h
  rfl

/-! ## Sources -/

variable (g db json tables run req)

/-- A source answers unless it lists a row whose map is nil. -/
theorem searchSource_spec (filter : ParsedFilter) (kind : SourceKind) (limit : ℤ) :
    ((∀ r ∈ listed g db tables run kind req filter.expr limit, nilMeta r = false) →
      ∃ result, searchSource g db json tables run kind req filter.expr limit = .ok result) ∧
    ((∃ r ∈ listed g db tables run kind req filter.expr limit, nilMeta r = true) →
      searchSource g db json tables run kind req filter.expr limit = .error .panicked) := by
  obtain ⟨wheres, hcompile⟩ := sourceFilter_compiles req filter kind
  rw [searchSource, listed, hcompile]
  dsimp only
  by_cases happ : wheres.applicable = true
  · rw [if_neg (by simp [happ]), if_neg (by simp [happ])]
    obtain ⟨hok, hpanic⟩ := mapM_mapRecord json (RowFilter.records g db
      ⟨req.fromTime, req.toTime, wheres, limit, req.offset⟩ (run.order kind) kind
      (tables.records kind))
    constructor
    · intro h
      obtain ⟨events, hevents⟩ := hok h
      rw [hevents]
      exact ⟨_, rfl⟩
    · intro h
      rw [hpanic h]
      rfl
  · rw [if_pos happ, if_pos happ]
    exact ⟨fun _ => ⟨_, rfl⟩, by simp⟩

theorem searchSource_ok (filter : ParsedFilter) {kind : SourceKind} (hkind : kind ≠ .audit)
    (limit : ℤ) :
    ∃ result, searchSource g db json tables run kind req filter.expr limit = .ok result := by
  refine (searchSource_spec g db json tables run req filter kind limit).1 ?_
  intro r hr
  exact nilMeta_of_mem_records hkind (mem_of_mem_listed hr)

theorem mapM_ok {α β : Type*} {f : α → Except QueryError β} {l : List α}
    (h : ∀ x ∈ l, ∃ y, f x = .ok y) : ∃ ys, l.mapM f = .ok ys := by
  induction l with
  | nil => exact ⟨[], rfl⟩
  | cons x l ih =>
      rw [List.forall_mem_cons] at h
      obtain ⟨y, hy⟩ := h.1
      obtain ⟨ys, hys⟩ := ih h.2
      exact ⟨y :: ys, by rw [List.mapM_cons, hy, hys]; rfl⟩

section
variable (filter : ParsedFilter) (pipes : List PipeCmd) {limit : ℤ}

/-- What a source of `queryAll` answers. -/
theorem answer_spec (kind : SourceKind) :
    ((∀ r ∈ listed g db tables run .audit { req with offset := 0 } filter.expr
        (fetchLimit limit req.offset), nilMeta r = false) →
      ∃ result, searchSource g db json tables run kind { req with offset := 0 } filter.expr
        (fetchLimit limit req.offset) = .ok result) := by
  intro h
  by_cases hkind : kind = .audit
  · subst hkind
    exact (searchSource_spec g db json tables run _ filter .audit _).1 h
  · exact searchSource_ok g db json tables run _ filter hkind _

theorem searchAll_of_nil
    (h : ∃ r ∈ listed g db tables run .audit { req with offset := 0 } filter.expr
      (fetchLimit limit req.offset), nilMeta r = true) :
    searchAll g db json tables run req filter.expr pipes limit = .error .panicked := by
  have hpanic := (searchSource_spec g db json tables run { req with offset := 0 } filter .audit
    (fetchLimit limit req.offset)).2 h
  have hany : (allSources.any fun kind => isPanic (searchSource g db json tables run kind
      { req with offset := 0 } filter.expr (fetchLimit limit req.offset))) = true := by
    rw [List.any_eq_true]
    exact ⟨.audit, by decide, by rw [hpanic]; rfl⟩
  simp only [searchAll]
  rw [if_pos hany]

/-- When all sources answer, only the slice of the merge can panic. -/
theorem searchAll_of_answers
    (h : ∀ r ∈ listed g db tables run .audit { req with offset := 0 } filter.expr
      (fetchLimit limit req.offset), nilMeta r = false) :
    ∃ merged : List TypedEvent, searchAll g db json tables run req filter.expr pipes limit = (do
      let start := if req.offset > merged.length then (merged.length : ℤ) else req.offset
      let stop := if start + limit > merged.length then (merged.length : ℤ) else start + limit
      let sliced ← sliceRange merged start stop
      let sliced ← runPipes g sliced pipes
      return ⟨sliced, sliced.length⟩) := by
  have hanswer := fun kind => answer_spec g db json tables run req filter kind h
  have hnone : (allSources.any fun kind => isPanic (searchSource g db json tables run kind
      { req with offset := 0 } filter.expr (fetchLimit limit req.offset))) = false := by
    rw [List.any_eq_false]
    intro kind _
    obtain ⟨result, hresult⟩ := hanswer kind
    rw [hresult]
    simp [isPanic]
  obtain ⟨results, hresults⟩ := mapM_ok (l := run.arrival) fun kind _ => hanswer kind
  refine ⟨run.merge.sort (results.flatMap QueryResult.events), ?_⟩
  simp only [searchAll]
  rw [if_neg (by simp [hnone]), hresults]
  rfl

/-- The search over all sources panics exactly when a row it lists has a nil map
or the offset is negative. -/
theorem searchAll_spec (hlimit : 0 < limit) :
    searchAll g db json tables run req filter.expr pipes limit ≠ .error .panicked ↔
      0 ≤ req.offset ∧ ∀ r ∈ listed g db tables run .audit { req with offset := 0 } filter.expr
        (fetchLimit limit req.offset), nilMeta r = false := by
  by_cases hnil : ∀ r ∈ listed g db tables run .audit { req with offset := 0 } filter.expr
      (fetchLimit limit req.offset), nilMeta r = false
  · obtain ⟨merged, hmerged⟩ := searchAll_of_answers g db json tables run req filter pipes hnil
    rw [hmerged]
    by_cases hoffset : 0 ≤ req.offset
    · have hslice := sliceRange_page merged (by omega : 1 ≤ limit) hoffset
      dsimp only at hslice ⊢
      rw [hslice]
      refine iff_of_true ?_ ⟨hoffset, hnil⟩
      simp [bind, Except.bind, runPipes_eq, pure, Except.pure]
    · have hslice := sliceRange_negative merged limit (not_le.mp hoffset)
      dsimp only at hslice ⊢
      rw [hslice]
      refine iff_of_false ?_ (fun hboth => hoffset hboth.1)
      simp [bind, Except.bind]
  · have hexists : ∃ r ∈ listed g db tables run .audit { req with offset := 0 } filter.expr
        (fetchLimit limit req.offset), nilMeta r = true := by
      simpa using hnil
    rw [searchAll_of_nil g db json tables run req filter pipes hexists]
    exact iff_of_false (by simp) (fun hboth => hnil hboth.2)

theorem searchOne_iff (kind : SourceKind) (limit : ℤ) :
    searchOne g db json tables run kind req filter.expr pipes limit ≠ .error .panicked ↔
      ∀ r ∈ listed g db tables run kind req filter.expr limit, nilMeta r = false := by
  obtain ⟨hok, hpanic⟩ := searchSource_spec g db json tables run req filter kind limit
  by_cases hnil : ∀ r ∈ listed g db tables run kind req filter.expr limit, nilMeta r = false
  · obtain ⟨result, hresult⟩ := hok hnil
    refine iff_of_true ?_ hnil
    rw [searchOne, hresult]
    simp [bind, Except.bind, runPipes_eq, pure, Except.pure]
  · have hexists : ∃ r ∈ listed g db tables run kind req filter.expr limit, nilMeta r = true := by
      simpa using hnil
    refine iff_of_false ?_ hnil
    rw [searchOne, hpanic hexists]
    simp [bind, Except.bind]

end

theorem queryLimit_pos (limit : ℤ) : 0 < queryLimit limit := by
  simp only [queryLimit]
  split_ifs <;> omega

/-- The switch over the sources panics exactly when the search is not safe. -/
theorem searchSources_iff (filter : ParsedFilter) (pipes : List PipeCmd) :
    searchSources g db json tables run req filter.expr pipes ≠ .error .panicked ↔
      QuerySafe g db tables run req filter.expr := by
  have haudit : ∀ {req : QueryRequest} {limit : ℤ},
      (∀ r ∈ listed g db tables run .audit req filter.expr limit, nilMeta r = false) ↔
        ∀ r ∈ listed g db tables run .audit req filter.expr limit, isJsonNull r.2 = false := by
    intro req limit
    refine forall₂_congr ?_
    intro r hr
    rw [nilMeta_of_mem_audit (mem_of_mem_listed hr)]
  have hother : ∀ kind, kind ≠ SourceKind.audit →
      searchOne g db json tables run kind req filter.expr pipes (queryLimit req.limit) ≠
        .error .panicked := by
    intro kind hkind
    rw [searchOne_iff]
    intro r hr
    exact nilMeta_of_mem_records hkind (mem_of_mem_listed hr)
  have hnames : sourceAudit ≠ "all" ∧ sourceJob ≠ sourceAudit ∧ sourceJob ≠ "all" ∧
      sourceAccess ≠ sourceAudit ∧ sourceAccess ≠ "all" ∧ sourceError ≠ sourceAudit ∧
        sourceError ≠ "all" := by decide
  obtain ⟨haa, hja, hjall, hca, hcall, hea, heall⟩ := hnames
  have hsafe : sourceName g req ≠ sourceAudit → sourceName g req ≠ "all" →
      QuerySafe g db tables run req filter.expr :=
    fun hne hall => ⟨fun h => absurd h hne, fun h => absurd h hall⟩
  simp only [searchSources]
  split_ifs with h1 h2 h3 h4 h5
  · rw [searchOne_iff, haudit]
    constructor
    · intro h
      exact ⟨fun _ => h, fun hall => absurd (h1.symm.trans hall) haa⟩
    · intro h
      exact h.1 h1
  · exact iff_of_true (hother .job (by decide))
      (hsafe (fun h => hja (h2.symm.trans h)) fun h => hjall (h2.symm.trans h))
  · exact iff_of_true (hother .logAccess (by decide))
      (hsafe (fun h => hca (h3.symm.trans h)) fun h => hcall (h3.symm.trans h))
  · exact iff_of_true (hother .logError (by decide))
      (hsafe (fun h => hea (h4.symm.trans h)) fun h => heall (h4.symm.trans h))
  · rw [searchAll_spec g db json tables run req filter pipes (queryLimit_pos req.limit), haudit]
    constructor
    · intro h
      exact ⟨fun haudit' => absurd haudit' h1, fun _ => h⟩
    · intro h
      exact h.2 h5
  · exact iff_of_true (by simp) (hsafe h1 h5)

/-- A search panics exactly when its request is accepted and it is not safe;
otherwise it returns a page or an error. -/
theorem query_never_panics_iff (lib : SearchLib) :
    query g db json tables lib run req ≠ .error (.query .panicked) ↔
      ∀ filter pipes, validTimeRange req = true →
        parseSearch lib (encode req.query) = .ok (filter, pipes) →
        QuerySafe g db tables run req filter := by
  rw [query]
  by_cases htime : validTimeRange req = true
  · rw [if_neg (by simp [htime])]
    cases hparse : parseSearch lib (encode req.query) with
    | error err =>
        refine iff_of_true (by simp) ?_
        intro filter pipes _ hok
        cases hok
    | ok parsed =>
        obtain ⟨filter, pipes⟩ := parsed
        have hiff := searchSources_iff g db json tables run req
          ⟨filter, parsed_of_parseSearch hparse⟩ pipes
        dsimp only
        constructor
        · intro h filter' pipes' _ hok
          obtain ⟨rfl, rfl⟩ := Prod.mk.inj (Except.ok.inj hok)
          refine hiff.mp ?_
          intro hpanic
          rw [hpanic] at h
          exact h rfl
        · intro h hpanic
          refine hiff.mpr (h filter pipes htime rfl) ?_
          dsimp only
          cases hresult : searchSources g db json tables run req filter pipes with
          | error err =>
              rw [hresult] at hpanic
              simp only [Except.mapError, Except.error.injEq, QueryFailure.query.injEq] at hpanic
              rw [hpanic]
          | ok result =>
              rw [hresult] at hpanic
              simp [Except.mapError] at hpanic
  · rw [if_pos htime]
    refine iff_of_true (by simp) ?_
    intro filter pipes hvalid
    exact absurd hvalid htime

end

/-- Decoding on texts without an object. -/
def jsonNulls : JsonMaps where
  unmarshal text := if isJsonNull text then none else some []
  unmarshal_eq_none text := by split_ifs <;> simp [*]

/-- A run in which sources answer in the order they were asked. -/
def plainRun : SearchRun where
  order _ := Sorting.preferring recordTime fun _ => true
  arrival := allSources
  arrival_perm := .refl _
  merge := Sorting.preferring (fun ev : TypedEvent => ev.ts) fun _ => true

/-- An audit row whose `meta_json` is a text. -/
def auditTables (text : String) : RecordTables :=
  ⟨[(⟨0, "root", "login", "", "", "", "ok", "", [], ok_mem_auditStatuses⟩, text)], [], []⟩

/-- A request for everything from an offset. -/
def allFrom (offset : ℤ) : QueryRequest := ⟨"", "", "", none, none, 100, offset⟩

theorem query_allFrom (tables : RecordTables) (offset : ℤ)
    (h : ¬ QuerySafe asciiText ⟨fun _ => none⟩ tables plainRun (allFrom offset) none) :
    query asciiText ⟨fun _ => none⟩ jsonNulls tables asciiLib plainRun (allFrom offset) =
      .error (.query .panicked) := by
  have hparse : parseSearch asciiLib (encode (allFrom offset).query) = .ok (none, []) := rfl
  have hpanic : searchSources asciiText ⟨fun _ => none⟩ jsonNulls tables plainRun (allFrom offset)
      none [] = .error .panicked := by
    by_contra hno
    exact h ((searchSources_iff asciiText ⟨fun _ => none⟩ jsonNulls tables plainRun (allFrom offset)
      ⟨none, by simp⟩ []).mp hno)
  have htime : validTimeRange (allFrom offset) = true := rfl
  rw [query, if_neg (by simp [htime]), hparse]
  dsimp only
  rw [hpanic]
  rfl

/-- A negative offset of a search over all sources, and a row with the text `null`. -/
theorem negative_offset_panics :
    query asciiText ⟨fun _ => none⟩ jsonNulls (auditTables "{}") asciiLib plainRun (allFrom (-1)) =
        .error (.query .panicked) ∧
      query asciiText ⟨fun _ => none⟩ jsonNulls (auditTables "null") asciiLib plainRun (allFrom 0) =
        .error (.query .panicked) := by
  constructor
  · refine query_allFrom _ _ ?_
    intro hsafe
    have hoffset := (hsafe.2 (by decide)).1
    exact absurd hoffset (by decide)
  · refine query_allFrom _ _ ?_
    intro hsafe
    have hlisted : ((listed asciiText ⟨fun _ => none⟩ (auditTables "null") plainRun .audit
        { allFrom 0 with offset := 0 } none (fetchLimit (queryLimit 100) 0)).any
          fun r => isJsonNull r.2) = true := by
      decide +kernel
    obtain ⟨r, hr, hnull⟩ := List.any_eq_true.mp hlisted
    have hnot := (hsafe.2 (by decide)).2 r hr
    rw [hnull] at hnot
    cases hnot

end GoSite.Observability
