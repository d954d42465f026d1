import GoSite.SafeQueries
import GoSite.TailPoll
import GoSite.TimeTexts

/-!
# The time range of a search

The bounds of a search keep the offset they were written with. The driver stores and
binds a time as the text that `Time.String` writes, and SQLite compares the texts. So a
bound is compared by what its own clock shows, and only a bound in UTC is compared by
its instant.
-/
namespace GoSite.Observability
open GoStrings GoTimes KeyOrders

/-- `parseQueryTime` at a time. -/
def parseQueryTime (g : GoText) (localZone : ℤ → ℤ × Text) (now : ℤ) (raw : String) :
    Option ZonedTime :=
  if g.equalFold raw "now" then some (utc now) else parseRFC3339 localZone raw.toList

/-- A search request with its bounds as they were parsed. -/
structure TimedRequest where
  source : String
  site : String
  query : String
  fromTime : Option ZonedTime
  toTime : Option ZonedTime
  limit : ℤ
  offset : ℤ

/-- A bound of `queryRequestFromURL`. An error names the parameter. -/
def queryBound (g : GoText) (localZone : ℤ → ℤ × Text) (now : ℤ) (name raw : String) :
    Except String (Option ZonedTime) :=
  if trimSpace raw = "" then .ok none
  else
    match parseQueryTime g localZone now (trimSpace raw) with
    | none => .error ("invalid " ++ name)
    | some t => .ok (some t)

/-- The bounds of `queryRequestFromURL`. -/
def queryBounds (g : GoText) (localZone : ℤ → ℤ × Text) (now : ℤ) (fromText toText : String) :
    Except String (Option ZonedTime × Option ZonedTime) := do
  let fromTime ← queryBound g localZone now "from" fromText
  let toTime ← queryBound g localZone now "to" toText
  return (fromTime, toTime)

theorem parseQueryTime_fourDigits {g : GoText} {localZone : ℤ → ℤ × Text} {now : ℤ}
    (hnow : (utc now).FourDigits) {raw : String} {t : ZonedTime}
    (h : parseQueryTime g localZone now raw = some t) : t.FourDigits := by
  unfold parseQueryTime at h
  split_ifs at h
  · obtain rfl := Option.some.inj h
    exact hnow
  · exact parseRFC3339_fourDigits h

theorem queryBound_fourDigits {g : GoText} {localZone : ℤ → ℤ × Text} {now : ℤ}
    (hnow : (utc now).FourDigits) {name raw : String} {bound : Option ZonedTime}
    (h : queryBound g localZone now name raw = .ok bound) : ∀ t ∈ bound, t.FourDigits := by
  unfold queryBound at h
  split_ifs at h
  · obtain rfl := Except.ok.inj h
    simp
  · cases hparse : parseQueryTime g localZone now (trimSpace raw) with
    | none =>
        rw [hparse] at h
        cases h
    | some parsed =>
        rw [hparse] at h
        obtain rfl := Except.ok.inj h
        intro t ht
        obtain rfl := Option.some.inj ht
        exact parseQueryTime_fourDigits hnow hparse

/-- The bounds that a request can have show years of four digits. -/
theorem queryBounds_fourDigits {g : GoText} {localZone : ℤ → ℤ × Text} {now : ℤ}
    (hnow : (utc now).FourDigits) {fromText toText : String} {fromTime toTime : Option ZonedTime}
    (h : queryBounds g localZone now fromText toText = .ok (fromTime, toTime)) :
    (∀ t ∈ fromTime, t.FourDigits) ∧ ∀ t ∈ toTime, t.FourDigits := by
  simp only [queryBounds, bind, Except.bind, pure, Except.pure] at h
  split at h
  · cases h
  next lower hlower =>
  split at h
  · cases h
  next upper hupper =>
  obtain ⟨rfl, rfl⟩ := Prod.mk.inj (Except.ok.inj h)
  exact ⟨queryBound_fourDigits hnow hlower, queryBound_fourDigits hnow hupper⟩

/-- The text that a stored time has. -/
def storedText (ts : ℤ) : Text := (utc ts).string

/-- The clauses `ts >= ?` and `ts <= ?`. -/
def readAt (fromTime toTime : Option ZonedTime) (ts : ℤ) : Bool :=
  fromTime.all (fun t => ¬ storedText ts < t.string) &&
    toTime.all (fun t => ¬ t.string < storedText ts)

/-- The rows that the clauses leave. -/
def RecordTables.between (tables : RecordTables) (fromTime toTime : Option ZonedTime) :
    RecordTables where
  auditLogs := tables.auditLogs.filter fun p => readAt fromTime toTime p.1.timestamp
  jobRuns := tables.jobRuns.filter fun run => readAt fromTime toTime run.createdAt
  logEvents := tables.logEvents.filter fun p => readAt fromTime toTime p.2.timestamp

/-- The request without the bounds. -/
def TimedRequest.untimed (req : TimedRequest) : QueryRequest :=
  ⟨req.source, req.site, req.query, none, none, req.limit, req.offset⟩

/-- The bounds are not the wrong way around, which is seen by their instants. -/
def validBounds (fromTime toTime : Option ZonedTime) : Bool :=
  match fromTime, toTime with
  | some a, some b => a.instant ≤ b.instant
  | _, _ => true

section
variable (g : GoText) (db : Sqlite) (json : JsonMaps) (tables : RecordTables)

/-- `Query` with bounds on the time. -/
def queryTimed (lib : SearchLib) (run : SearchRun) (req : TimedRequest) :
    Except QueryFailure QueryResult :=
  if ¬ validBounds req.fromTime req.toTime then
    .error (.timeRangeInvalid "from must be before to")
  else query g db json (tables.between req.fromTime req.toTime) lib run req.untimed

/-- The instant lies in the closed interval of the bounds. -/
def inRange (fromTime toTime : Option ZonedTime) (ts : ℤ) : Bool :=
  fromTime.all (fun t => t.instant ≤ ts) && toTime.all (fun t => ts ≤ t.instant)

/-- Searches with the bounds return events of the interval only, and count those of
one source that match. -/
structure ByInstant (lib : SearchLib) (fromTime toTime : Option ZonedTime) : Prop where
  events : ∀ run req result, req.fromTime = fromTime → req.toTime = toTime →
    queryTimed g db json tables lib run req = .ok result →
      ∀ ev ∈ result.events, inRange fromTime toTime ev.ts = true
  hits : ∀ run req result kind filter wheres, req.fromTime = fromTime → req.toTime = toTime →
    queryTimed g db json tables lib run req = .ok result →
    sourceName g req.untimed = kind.name →
    parseSearch lib (encode req.query) = .ok (filter, []) →
    compileTree (sourceFilter req.untimed filter kind) kind = .ok wheres →
      result.hits = ((tables.records kind).filter fun r =>
        inRange fromTime toTime (recordTime r) && wheres.selects kind (r.1.truth g db)).length

end

/-- The first instant, in UTC, whose text is not before that of the bound. -/
def lowerBound (t : ZonedTime) : ℤ :=
  if (utc t.clock).zoneText < t.zoneText then t.clock + 1 else t.clock

/-- The last instant, in UTC, whose text is not after that of the bound. -/
def upperBound (t : ZonedTime) : ℤ :=
  if t.zoneText < (utc t.clock).zoneText then t.clock - 1 else t.clock

/-- No stored time lies between a bound and what the bound's clock shows, taken as UTC. -/
def ReadsByInstant (tables : RecordTables) (fromTime toTime : Option ZonedTime) : Prop :=
  validBounds fromTime toTime = true → ∀ kind, ∀ r ∈ tables.records kind,
    (fromTime.all (fun t => lowerBound t ≤ recordTime r) &&
      toTime.all (fun t => recordTime r ≤ upperBound t)) =
        inRange fromTime toTime (recordTime r)

theorem zoneText_utc (a b : ℤ) : (utc a).zoneText = (utc b).zoneText := rfl

/-- The clauses by the instants that the texts stand for. -/
theorem readAt_eq {fromTime toTime : Option ZonedTime} {ts : ℤ}
    (hfrom : ∀ t ∈ fromTime, t.FourDigits) (hto : ∀ t ∈ toTime, t.FourDigits)
    (hts : (utc ts).FourDigits) :
    readAt fromTime toTime ts =
      (fromTime.all (fun t => lowerBound t ≤ ts) && toTime.all (fun t => ts ≤ upperBound t)) := by
  have hclock : (utc ts).clock = ts := by simp [utc, ZonedTime.clock]
  have hlower : ∀ t : ZonedTime, t.FourDigits →
      (¬ storedText ts < t.string ↔ lowerBound t ≤ ts) := by
    intro t ht
    rw [storedText, string_not_lt_iff ht hts, hclock, lowerBound, zoneText_utc t.clock ts]
    split_ifs with hzone
    · simp only [hzone, not_true_eq_false, and_false, or_false]
      omega
    · simp only [hzone, not_false_eq_true, and_true]
      omega
  have hupper : ∀ t : ZonedTime, t.FourDigits →
      (¬ t.string < storedText ts ↔ ts ≤ upperBound t) := by
    intro t ht
    rw [storedText, string_not_lt_iff hts ht, hclock, upperBound, zoneText_utc t.clock ts]
    split_ifs with hzone
    · simp only [hzone, not_true_eq_false, and_false, or_false]
      omega
    · simp only [hzone, not_false_eq_true, and_true]
      omega
  have hall : ∀ (bound : Option ZonedTime) (p q : ZonedTime → Prop) [DecidablePred p]
      [DecidablePred q], (∀ t ∈ bound, p t ↔ q t) →
        bound.all (fun t => p t) = bound.all fun t => q t := by
    intro bound p q _ _ h
    cases bound with
    | none => rfl
    | some t => simpa using h t rfl
  rw [readAt, hall fromTime _ _ fun t ht => hlower t (hfrom t ht),
    hall toTime _ _ fun t ht => hupper t (hto t ht)]

theorem between_records (tables : RecordTables) (fromTime toTime : Option ZonedTime)
    (kind : SourceKind) :
    (tables.between fromTime toTime).records kind =
      (tables.records kind).filter fun r => readAt fromTime toTime (recordTime r) := by
  have hlogs : ∀ source, (tables.between fromTime toTime).logRecords source =
      (tables.logRecords source).filter fun row => readAt fromTime toTime row.timestamp := by
    intro source
    simp only [RecordTables.logRecords, RecordTables.between, List.filter_map, List.filter_filter]
    congr 2
    funext p
    exact Bool.and_comm _ _
  cases kind with
  | audit =>
      simp only [RecordTables.records, RecordTables.between, List.filter_map]
      rfl
  | job =>
      simp only [RecordTables.records, RecordTables.between, List.filter_map]
      rfl
  | logAccess =>
      simp only [RecordTables.records, hlogs, List.filter_map]
      rfl
  | logError =>
      simp only [RecordTables.records, hlogs, List.filter_map]
      rfl

section
variable {g : GoText} {db : Sqlite} {json : JsonMaps} {tables : RecordTables} {run : SearchRun}
  {req : QueryRequest}

theorem mapRecord_ts {r : Record} {ev : TypedEvent} (h : mapRecord json r = .ok ev) :
    ev.ts = recordTime r := by
  simp only [mapRecord, bind, Except.bind, pure, Except.pure] at h
  split at h
  · cases h
  split at h
  · cases h
  rw [Except.ok.injEq] at h
  rw [← h]
  rfl

/-- What a list of fallible calls returns. -/
theorem exists_of_mem_mapM {α β ε : Type} {f : α → Except ε β} {l : List α} {ys : List β}
    (h : l.mapM f = .ok ys) : ∀ y ∈ ys, ∃ x ∈ l, f x = .ok y := by
  induction l generalizing ys with
  | nil =>
      obtain rfl := Except.ok.inj h
      simp
  | cons x l ih =>
      rw [List.mapM_cons] at h
      simp only [bind, Except.bind, pure, Except.pure] at h
      split at h
      · cases h
      next y hy =>
      split at h
      · cases h
      next rest hrest =>
      obtain rfl := Except.ok.inj h
      intro z hz
      rcases List.mem_cons.mp hz with rfl | hz
      · exact ⟨x, List.mem_cons_self, hy⟩
      · obtain ⟨x', hx', hf⟩ := ih hrest z hz
        exact ⟨x', List.mem_cons_of_mem x hx', hf⟩

theorem sortEvents_perm (g : GoText) (events : List TypedEvent) (field : String) (desc : Bool) :
    (sortEvents g events field desc).Perm events := by
  cases desc with
  | false => exact (sortEvents_ascending g events field).perm
  | true => exact (sortEvents_descending g events field).1

theorem mem_of_mem_applyPipes (g : GoText) (pipes : List PipeCmd) {events : List TypedEvent}
    {ev : TypedEvent} (h : ev ∈ applyPipes g events pipes) : ev ∈ events := by
  induction pipes generalizing events with
  | nil => exact h
  | cons pipe pipes ih =>
      have hpipe : ev ∈ applyPipe g events pipe := ih h
      unfold applyPipe at hpipe
      split_ifs at hpipe
      · exact List.mem_of_mem_take hpipe
      · exact hpipe
      · exact (sortEvents_perm g events pipe.field pipe.desc).subset hpipe
      · exact hpipe

theorem mem_of_mem_sliceRange {α : Type*} {l part : List α} {start stop : ℤ}
    (h : sliceRange l start stop = .ok part) {x : α} (hx : x ∈ part) : x ∈ l := by
  unfold sliceRange at h
  split_ifs at h
  obtain rfl := Except.ok.inj h
  exact List.mem_of_mem_take (List.mem_of_mem_drop hx)

/-- An event with the time of a stored row. -/
def Stored (tables : RecordTables) (ev : TypedEvent) : Prop :=
  ∃ kind, ∃ r ∈ tables.records kind, ev.ts = recordTime r

theorem searchSource_stored {kind : SourceKind} {filter : Option FilterExpr} {limit : ℤ}
    {result : QueryResult}
    (h : searchSource g db json tables run kind req filter limit = .ok result) :
    ∀ ev ∈ result.events, Stored tables ev := by
  unfold searchSource at h
  split at h
  · cases h
  next wheres _ =>
  by_cases happ : wheres.applicable = true
  · simp only [happ, not_true_eq_false, if_false, bind, Except.bind, pure, Except.pure] at h
    split at h
    · cases h
    next events hevents =>
    obtain rfl := Except.ok.inj h
    intro ev hev
    obtain ⟨r, hr, hmap⟩ := exists_of_mem_mapM hevents ev hev
    exact ⟨kind, r, mem_of_mem_records hr, mapRecord_ts hmap⟩
  · rw [if_pos happ] at h
    obtain rfl := Except.ok.inj h
    simp

theorem searchOne_stored {kind : SourceKind} {filter : Option FilterExpr} {pipes : List PipeCmd}
    {limit : ℤ} {result : QueryResult}
    (h : searchOne g db json tables run kind req filter pipes limit = .ok result) :
    ∀ ev ∈ result.events, Stored tables ev := by
  simp only [searchOne, runPipes_eq, bind, Except.bind, pure, Except.pure] at h
  split at h
  · cases h
  next answer hanswer =>
  obtain rfl := Except.ok.inj h
  exact fun ev hev => searchSource_stored hanswer ev (mem_of_mem_applyPipes g pipes hev)

theorem searchAll_stored {filter : Option FilterExpr} {pipes : List PipeCmd} {limit : ℤ}
    {result : QueryResult}
    (h : searchAll g db json tables run req filter pipes limit = .ok result) :
    ∀ ev ∈ result.events, Stored tables ev := by
  simp only [searchAll, runPipes_eq, bind, Except.bind, pure, Except.pure] at h
  split_ifs at h
  all_goals
    split at h
    · cases h
    next results hresults =>
    split at h
    · cases h
    next part hpart =>
    obtain rfl := Except.ok.inj h
    intro ev hev
    have hmerged := mem_of_mem_sliceRange hpart (mem_of_mem_applyPipes g pipes hev)
    have hflat := (run.merge.perm _).subset hmerged
    obtain ⟨answer, hanswer, hin⟩ := List.mem_flatMap.mp hflat
    obtain ⟨kind, -, hkind⟩ := exists_of_mem_mapM hresults answer hanswer
    exact searchSource_stored hkind ev hin

/-- The events of a search are those of stored rows. -/
theorem query_stored {lib : SearchLib} {result : QueryResult}
    (h : query g db json tables lib run req = .ok result) :
    ∀ ev ∈ result.events, Stored tables ev := by
  unfold query at h
  split_ifs at h
  split at h
  · cases h
  next filter pipes _ =>
  cases hsearch : searchSources g db json tables run req filter pipes with
  | error err =>
      rw [hsearch] at h
      cases h
  | ok found =>
      rw [hsearch] at h
      obtain rfl := Except.ok.inj h
      unfold searchSources at hsearch
      dsimp only at hsearch
      split_ifs at hsearch
      · exact searchOne_stored hsearch
      · exact searchOne_stored hsearch
      · exact searchOne_stored hsearch
      · exact searchOne_stored hsearch
      · exact searchAll_stored hsearch

/-- A search of one source is the one the source's name asks for. -/
theorem searchSources_name {kind : SourceKind} {filter : Option FilterExpr}
    {pipes : List PipeCmd} (hname : sourceName g req = kind.name) :
    searchSources g db json tables run req filter pipes =
      searchOne g db json tables run kind req filter pipes (queryLimit req.limit) := by
  unfold searchSources
  rw [hname]
  cases kind <;> rfl

/-- The hits of a search of one source without pipes. -/
theorem query_hits {lib : SearchLib} {result : QueryResult} {kind : SourceKind}
    {filter : Option FilterExpr} {wheres : CompiledFilter}
    (h : query g db json tables lib run req = .ok result) (hname : sourceName g req = kind.name)
    (hparse : parseSearch lib (encode req.query) = .ok (filter, []))
    (hcompile : compileTree (sourceFilter req filter kind) kind = .ok wheres)
    (hfrom : req.fromTime = none) (hto : req.toTime = none) :
    result.hits =
      ((tables.records kind).filter fun r => wheres.selects kind (r.1.truth g db)).length := by
  unfold query at h
  split_ifs at h
  rw [hparse] at h
  dsimp only at h
  rw [searchSources_name hname] at h
  simp only [searchOne, runPipes_eq, searchSource, hcompile, bind, Except.bind, pure,
    Except.pure] at h
  by_cases happ : wheres.applicable = true
  · simp only [happ, not_true_eq_false, if_false] at h
    split at h
    · cases h
    next answer hanswer =>
    split at hanswer
    · cases hanswer
    obtain rfl := Except.ok.inj hanswer
    obtain rfl := Except.ok.inj h
    simp [RowFilter.selects, hfrom, hto]
  · rw [if_pos happ] at h
    obtain rfl := Except.ok.inj h
    simp [CompiledFilter.selects, happ]

end

/-! ## One row at a time -/

section
variable {g : GoText} {db : Sqlite} {json : JsonMaps} {tables : RecordTables} {lib : SearchLib}

/-- A request for one row of a source, without a filter. -/
def oneRow (kind : SourceKind) (fromTime toTime : Option ZonedTime) (i : ℕ) : TimedRequest :=
  ⟨kind.name, "", "", fromTime, toTime, 1, i⟩

theorem oneRow_source (g : GoText) (kind : SourceKind) (fromTime toTime : Option ZonedTime)
    (i : ℕ) : sourceName g (oneRow kind fromTime toTime i).untimed = kind.name := by
  have htrim : trimSpace kind.name = kind.name := by cases kind <;> decide
  have hlower : g.lower kind.name = kind.name := by
    have hascii : ∀ c ∈ kind.name.toList, c.toNat < 128 ∧ c.toLower = c := by
      cases kind <;> decide
    have hmap : kind.name.toList.map g.toLower = kind.name.toList := by
      refine (List.map_congr_left fun c hc => ?_).trans (List.map_id _)
      rw [g.toLower_ascii c (hascii c hc).1, (hascii c hc).2, id]
    rw [GoText.lower, hmap, String.ofList_toList]
  have hne : kind.name ≠ "" := by cases kind <;> decide
  show (if g.lower (trimSpace kind.name) = "" then "all" else g.lower (trimSpace kind.name)) = _
  rw [htrim, hlower, if_neg hne]

theorem parseSearch_empty (lib : SearchLib) : parseSearch lib (encode "") = .ok (none, []) := rfl

theorem oneRow_compiles (kind : SourceKind) (fromTime toTime : Option ZonedTime) (i : ℕ) :
    compileTree (sourceFilter (oneRow kind fromTime toTime i).untimed none kind) kind =
      .ok ⟨none, true⟩ := by
  have hscope : withSiteScope none "" = none := by decide
  cases kind with
  | audit | job => rfl
  | logAccess | logError =>
      show compileTree (withSiteScope none "") _ = _
      rw [hscope]
      rfl

/-- The answer to a request for one row. -/
theorem query_oneRow (kind : SourceKind) (fromTime toTime : Option ZonedTime) (i : ℕ)
    {events : List TypedEvent}
    (h : (page i 1 ((plainRun.order kind).sort (tables.records kind))).mapM (mapRecord json) =
      .ok events) :
    query g db json tables lib plainRun (oneRow kind fromTime toTime i).untimed =
      .ok ⟨events, (tables.records kind).length⟩ := by
  have hrows : RowFilter.records g db ⟨none, none, ⟨none, true⟩, 1, (i : ℤ)⟩ (plainRun.order kind)
      kind (tables.records kind) = page i 1 ((plainRun.order kind).sort (tables.records kind)) := by
    have hall : (tables.records kind).filter (fun r => RowFilter.selects g db
        ⟨none, none, ⟨none, true⟩, 1, (i : ℤ)⟩ kind r.1) = tables.records kind := by
      simp [RowFilter.selects, CompiledFilter.selects]
    simp only [RowFilter.records, hall, page]
    rcases Nat.eq_zero_or_pos i with rfl | hpos
    · simp
    · simp [hpos]
  have hsearch : searchSource g db json tables plainRun kind (oneRow kind fromTime toTime i).untimed
      none 1 = .ok ⟨events, (tables.records kind).length⟩ := by
    rw [searchSource, oneRow_compiles]
    show (do
      let events ← (RowFilter.records g db ⟨none, none, ⟨none, true⟩, 1, (i : ℤ)⟩
        (plainRun.order kind) kind (tables.records kind)).mapM (mapRecord json)
      return _ : Except QueryError QueryResult) = _
    rw [hrows, h]
    simp [bind, Except.bind, pure, Except.pure, RowFilter.selects, CompiledFilter.selects, oneRow,
      TimedRequest.untimed]
  have htime : validTimeRange (oneRow kind fromTime toTime i).untimed = true := rfl
  have hlimit : queryLimit (oneRow kind fromTime toTime i).untimed.limit = 1 := rfl
  rw [query, if_neg (by simp [htime])]
  rw [show (oneRow kind fromTime toTime i).untimed.query = "" from rfl, parseSearch_empty]
  dsimp only
  rw [searchSources_name (oneRow_source g kind fromTime toTime i), hlimit, searchOne, hsearch]
  rfl

/-- Each row is on a page of its own. -/
theorem exists_oneRow (kind : SourceKind) (fromTime toTime : Option ZonedTime) {r : Record}
    (hr : r ∈ tables.records kind) (hnil : nilMeta r = false) :
    ∃ i result, query g db json tables lib plainRun (oneRow kind fromTime toTime i).untimed =
      .ok result ∧ ∃ ev ∈ result.events, ev.ts = recordTime r := by
  have hsorted := ((plainRun.order kind).perm (tables.records kind)).symm.subset hr
  obtain ⟨i, hi, hget⟩ := List.mem_iff_getElem.mp hsorted
  obtain ⟨ev, hev⟩ := mapRecord_of_not_nil json hnil
  refine ⟨i, ⟨[ev], _⟩, query_oneRow kind fromTime toTime i ?_, ev, List.mem_singleton_self ev,
    mapRecord_ts hev⟩
  rw [page, List.drop_eq_getElem_cons hi, hget, List.take_succ_cons, List.take_zero,
    List.mapM_cons, hev]
  rfl

/-- A page behind the last row has no event, and the hits all the same. -/
theorem exists_hits (kind : SourceKind) (fromTime toTime : Option ZonedTime) :
    ∃ i, query g db json tables lib plainRun (oneRow kind fromTime toTime i).untimed =
      .ok ⟨[], (tables.records kind).length⟩ := by
  refine ⟨((plainRun.order kind).sort (tables.records kind)).length, query_oneRow kind _ _ _ ?_⟩
  rw [page, List.drop_length]
  rfl

end

/-- A test that keeps no more and as many elements keeps the same ones. -/
theorem eq_of_filter_length {α : Type*} {p q : α → Bool} {l : List α}
    (hpq : ∀ x ∈ l, p x = true → q x = true)
    (hlength : (l.filter p).length = (l.filter q).length) : ∀ x ∈ l, p x = q x := by
  have hsub : (l.filter p).Sublist (l.filter q) := by
    have hboth : l.filter p = (l.filter q).filter p := by
      rw [List.filter_filter]
      refine List.filter_congr fun x hx => ?_
      by_cases hp : p x = true
      · simp [hp, hpq x hx hp]
      · simp [hp]
    rw [hboth]
    exact List.filter_sublist
  have heq := hsub.eq_of_length hlength
  intro x hx
  rw [Bool.eq_iff_iff]
  refine ⟨hpq x hx, fun hq => ?_⟩
  have hmem : x ∈ l.filter p := by
    rw [heq]
    exact List.mem_filter.mpr ⟨hx, hq⟩
  exact (List.mem_filter.mp hmem).2

section
variable {g : GoText} {db : Sqlite} {json : JsonMaps} {tables : RecordTables} {lib : SearchLib}
  {fromTime toTime : Option ZonedTime}

theorem queryTimed_oneRow (hvalid : validBounds fromTime toTime = true) (kind : SourceKind)
    (i : ℕ) :
    queryTimed g db json tables lib plainRun (oneRow kind fromTime toTime i) =
      query g db json (tables.between fromTime toTime) lib plainRun
        (oneRow kind fromTime toTime i).untimed := by
  rw [queryTimed, if_neg (by simp [oneRow, hvalid])]
  rfl

/-- The rows that are read are in the interval. -/
theorem ByInstant.within (h : ByInstant g db json tables lib fromTime toTime)
    (hvalid : validBounds fromTime toTime = true) {kind : SourceKind} {r : Record}
    (hr : r ∈ tables.records kind) (hnil : nilMeta r = false)
    (hread : readAt fromTime toTime (recordTime r) = true) :
    inRange fromTime toTime (recordTime r) = true := by
  have hmem : r ∈ (tables.between fromTime toTime).records kind := by
    rw [between_records]
    exact List.mem_filter.mpr ⟨hr, hread⟩
  obtain ⟨i, result, hresult, ev, hev, hts⟩ :=
    @exists_oneRow g db json _ lib kind fromTime toTime r hmem hnil
  rw [← hts]
  exact h.events plainRun _ result rfl rfl ((queryTimed_oneRow hvalid kind i).trans hresult) ev hev

/-- There are as many of them as there are in the interval. -/
theorem ByInstant.count (h : ByInstant g db json tables lib fromTime toTime)
    (hvalid : validBounds fromTime toTime = true) (kind : SourceKind) :
    ((tables.records kind).filter fun r => readAt fromTime toTime (recordTime r)).length =
      ((tables.records kind).filter fun r => inRange fromTime toTime (recordTime r)).length := by
  obtain ⟨i, hresult⟩ :=
    @exists_hits g db json (tables.between fromTime toTime) lib kind fromTime toTime
  have hhits := h.hits plainRun _ _ kind none ⟨none, true⟩ rfl rfl
    ((queryTimed_oneRow hvalid kind i).trans hresult) (oneRow_source g kind fromTime toTime i)
    (parseSearch_empty lib) (oneRow_compiles kind fromTime toTime i)
  rw [between_records] at hhits
  simpa [CompiledFilter.selects] using hhits

end

/-- The range of a search is by instant where no stored time lies between a bound and
what its clock shows. Where no audit row makes searches panic, it is by instant nowhere
else. -/
theorem time_range_by_instant_iff (g : GoText) (db : Sqlite) (json : JsonMaps)
    (tables : RecordTables) (lib : SearchLib) (fromTime toTime : Option ZonedTime)
    (hfrom : ∀ t ∈ fromTime, t.FourDigits) (hto : ∀ t ∈ toTime, t.FourDigits)
    (hrows : ∀ kind, ∀ r ∈ tables.records kind, (utc (recordTime r)).FourDigits) :
    (ReadsByInstant tables fromTime toTime →
      ByInstant g db json tables lib fromTime toTime) ∧
    ((∀ r ∈ tables.records .audit, isJsonNull r.2 = false) →
      ByInstant g db json tables lib fromTime toTime →
        ReadsByInstant tables fromTime toTime) := by
  have hread : ∀ kind, ∀ r ∈ tables.records kind, readAt fromTime toTime (recordTime r) =
      (fromTime.all (fun t => lowerBound t ≤ recordTime r) &&
        toTime.all fun t => recordTime r ≤ upperBound t) :=
    fun kind r hr => readAt_eq hfrom hto (hrows kind r hr)
  constructor
  · intro h
    have hrange : validBounds fromTime toTime = true → ∀ kind, ∀ r ∈ tables.records kind,
        readAt fromTime toTime (recordTime r) = inRange fromTime toTime (recordTime r) :=
      fun hvalid kind r hr => (hread kind r hr).trans (h hvalid kind r hr)
    constructor
    · rintro run req result rfl rfl hquery ev hev
      unfold queryTimed at hquery
      split_ifs at hquery with hvalid
      obtain ⟨kind, r, hr, hts⟩ := query_stored hquery ev hev
      rw [between_records] at hr
      obtain ⟨hr, hreadAt⟩ := List.mem_filter.mp hr
      rw [hts, ← hrange hvalid kind r hr]
      exact hreadAt
    · rintro run req result kind filter wheres rfl rfl hquery hname hparse hcompile
      unfold queryTimed at hquery
      split_ifs at hquery with hvalid
      rw [query_hits hquery hname hparse hcompile rfl rfl, between_records, List.filter_filter]
      refine congrArg List.length (List.filter_congr fun r hr => ?_)
      rw [hrange hvalid kind r hr, Bool.and_comm]
  · intro hnull h hvalid kind
    have hnil : ∀ r ∈ tables.records kind, nilMeta r = false := by
      intro r hr
      by_cases hkind : kind = .audit
      · subst hkind
        rw [nilMeta_of_mem_audit hr]
        exact hnull r hr
      · exact nilMeta_of_mem_records hkind hr
    intro r hr
    rw [← hread kind r hr]
    exact eq_of_filter_length (fun r hr => h.within hvalid hr (hnil r hr)) (h.count hvalid kind)
      r hr

/-- Bounds in UTC are compared by their instants. -/
theorem readsByInstant_of_utc (tables : RecordTables) {fromTime toTime : Option ZonedTime}
    (hfrom : ∀ t ∈ fromTime, t = utc t.instant) (hto : ∀ t ∈ toTime, t = utc t.instant) :
    ReadsByInstant tables fromTime toTime := by
  have hlower : ∀ instant, lowerBound (utc instant) = instant := by
    intro instant
    rw [lowerBound, if_neg (by rw [zoneText_utc _ instant]; exact List.lt_irrefl _)]
    simp [utc, ZonedTime.clock]
  have hupper : ∀ instant, upperBound (utc instant) = instant := by
    intro instant
    rw [upperBound, if_neg (by rw [zoneText_utc _ instant]; exact List.lt_irrefl _)]
    simp [utc, ZonedTime.clock]
  intro _ kind r _
  rw [inRange]
  congr 1
  · cases fromTime with
    | none => rfl
    | some t =>
        rw [hfrom t rfl, Option.all_some, Option.all_some, hlower]
        rfl
  · cases toTime with
    | none => rfl
    | some t =>
        rw [hto t rfl, Option.all_some, Option.all_some, hupper]
        rfl

theorem ok_mem_jobStatuses : "ok" ∈ jobStatuses := by decide

/-- A job that was created on the 14th of June 2026 at half past ten in UTC. -/
def morningTables : RecordTables :=
  ⟨[], [⟨63917029800000000000, "ssl", "renew", "ok", "", "", ok_mem_jobStatuses⟩], []⟩

/-- The bounds from ten to eleven, as one zone or the other writes them. -/
def morningBounds (fromText toText : String) :
    Except String (Option ZonedTime × Option ZonedTime) :=
  queryBounds asciiText (fun _ => (0, "UTC".toList)) 0 fromText toText

theorem range_in_utc_by_instant :
    ∃ fromTime toTime, morningBounds "2026-06-14T10:00:00Z" "2026-06-14T11:00:00Z" =
        .ok (some fromTime, some toTime) ∧
      ByInstant asciiText ⟨fun _ => none⟩ jsonNulls morningTables asciiLib (some fromTime)
        (some toTime) := by
  have hbounds : morningBounds "2026-06-14T10:00:00Z" "2026-06-14T11:00:00Z" =
      .ok (some (utc 63917028000000000000), some (utc 63917031600000000000)) := by
    decide +kernel
  have hnow : (utc 0).FourDigits := by
    show 0 ≤ _ ∧ _ < _
    decide
  obtain ⟨hfrom, hto⟩ := queryBounds_fourDigits hnow hbounds
  refine ⟨_, _, hbounds, ?_⟩
  refine (time_range_by_instant_iff asciiText ⟨fun _ => none⟩ jsonNulls morningTables asciiLib _ _
    hfrom hto ?_).1 ?_
  · intro kind r hr
    cases kind with
    | job =>
        obtain rfl := List.mem_singleton.mp hr
        show 0 ≤ _ ∧ _ < _
        decide +kernel
    | audit | logAccess | logError => cases hr
  · refine readsByInstant_of_utc morningTables ?_ ?_
    · intro t ht
      obtain rfl := Option.some.inj ht
      rfl
    · intro t ht
      obtain rfl := Option.some.inj ht
      rfl

/-- The same range in the offset of Jakarta leaves the job out. -/
theorem range_with_offset_misses :
    ∃ fromTime toTime, morningBounds "2026-06-14T17:00:00+07:00" "2026-06-14T18:00:00+07:00" =
        .ok (some fromTime, some toTime) ∧
      (∀ r ∈ morningTables.records .job, inRange (some fromTime) (some toTime) (recordTime r) =
        true) ∧
      ¬ ByInstant asciiText ⟨fun _ => none⟩ jsonNulls morningTables asciiLib (some fromTime)
        (some toTime) := by
  refine ⟨⟨63917028000000000000, 25200, []⟩, ⟨63917031600000000000, 25200, []⟩, by decide +kernel,
    ?_, ?_⟩
  · intro r hr
    obtain rfl := List.mem_singleton.mp hr
    decide +kernel
  · intro h
    exact absurd (h.count (by decide +kernel) .job) (by decide +kernel)

end GoSite.Observability
