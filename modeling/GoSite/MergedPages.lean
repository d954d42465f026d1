import GoSite.QueryService
import GoSite.SiteScope

/-!
# Pages of a search over all sources

Every page is cut from a merge of its own. The pages fit together when the
merge is the same every time: events of one time are sorted as they come, and
no source is asked for more than 2000 rows.
-/
namespace GoSite.Observability
open BooleanTrees GoStrings KeyOrders

/-- The filter that a source of `queryAll` compiles. -/
def sourceFilter (req : QueryRequest) (filter : Option FilterExpr) : SourceKind → Option FilterExpr
  | .audit | .job => filter
  | .logAccess | .logError => withSiteScope filter req.site

section
variable (g : GoText) (db : Sqlite) (tables : Tables) (req : QueryRequest) (filter : ParsedFilter)

/-- The rows of a source that match. -/
def sourceRows (kind : SourceKind) : List StoredRow :=
  matchingRows g db tables kind req (sourceFilter req filter.expr kind)

/-- All events that match, source by source. -/
def matchingEvents : List QueryEvent :=
  allSources.flatMap fun kind => (sourceRows g db tables req filter kind).map StoredRow.event

/-- Every page is cut from one newest-first order of all events that match. -/
def PagesExactly : Prop :=
  ∃ all : List QueryEvent, all.Perm (matchingEvents g db tables req filter) ∧
    Descending QueryEvent.ts all ∧
    ∀ (run : MergeRun) (limit offset : ℤ), 1 ≤ limit → limit ≤ 1000 → 0 ≤ offset →
      offset < 2 ^ 63 →
      queryAll g db tables run { req with offset := offset } filter.expr limit =
        .ok ⟨page offset.toNat limit.toNat all, (page offset.toNat limit.toNat all).length⟩

/-- The events of page `i` of `limit` events. -/
def pageEvents (run : MergeRun) (limit : ℤ) (i : ℕ) : List QueryEvent :=
  match queryAll g db tables run { req with offset := i * limit } filter.expr limit with
  | .ok answer => answer.events
  | .error _ => []

/-- Consecutive pages, each from a run of its own, have every event once. -/
def PagesComplete : Prop :=
  ∀ (runs : ℕ → MergeRun) (limit : ℤ) (n : ℕ), 1 ≤ limit → limit ≤ 1000 → n * limit < 2 ^ 63 →
    (matchingEvents g db tables req filter).length ≤ n * limit →
    ((List.range n).flatMap fun i => pageEvents g db tables req filter (runs i) limit i).Perm
      (matchingEvents g db tables req filter)

/-- Events of one time are equal, and no source has more than 2000. -/
def MergeExact : Prop :=
  (∀ kind, (sourceRows g db tables req filter kind).length ≤ 2000) ∧
    ∀ a ∈ matchingEvents g db tables req filter, ∀ b ∈ matchingEvents g db tables req filter,
      a.ts = b.ts → a = b

end

variable {g : GoText} {db : Sqlite} {tables : Tables} {req : QueryRequest} {filter : ParsedFilter}

theorem fetchLimit_of_lt {limit offset : ℤ} (hlimit : 1 ≤ limit) (hoffset : 0 ≤ offset)
    (h : limit + offset < 2 ^ 63) :
    fetchLimit limit offset = if limit + offset > 2000 then 2000 else limit + offset := by
  have hmod : Int.bmod (limit + offset) (2 ^ 64) = limit + offset := by
    rw [Int.bmod_def]
    omega
  simp only [fetchLimit, hmod, if_neg (by omega : ¬ limit + offset ≤ 0)]

theorem fetchLimit_pos (limit offset : ℤ) : 0 < fetchLimit limit offset := by
  simp only [fetchLimit]
  split_ifs <;> omega

/-- The filter of every source compiles. -/
theorem sourceFilter_compiles (req : QueryRequest) (filter : ParsedFilter) (kind : SourceKind) :
    ∃ wheres, compileTree (sourceFilter req filter.expr kind) kind = .ok wheres := by
  have hlog : ∀ source : LogSource, ∃ wheres,
      compileTree (withSiteScope filter.expr req.site) (sourceKindForLog source) = .ok wheres := by
    intro source
    by_cases hsite : trimSpace req.site = ""
    · obtain ⟨wheres, hwheres, -⟩ := filter.compiles (sourceKindForLog source)
      exact ⟨wheres, by simpa [withSiteScope, hsite] using hwheres⟩
    · exact (@matchingRows_withSiteScope asciiText ⟨fun _ => none⟩ ⟨[], [], []⟩ source req filter
        _ hsite).1
  cases kind with
  | audit => exact (filter.compiles .audit).imp fun _ h => h.1
  | job => exact (filter.compiles .job).imp fun _ h => h.1
  | logAccess => exact hlog .access
  | logError => exact hlog .error

/-- What a source sends to the merge. -/
def sentEvents (g : GoText) (db : Sqlite) (tables : Tables) (req : QueryRequest)
    (filter : ParsedFilter) (order : Sorting rowTime) (kind : SourceKind) : List QueryEvent :=
  (order.sort (sourceRows g db tables req filter kind)).map StoredRow.event

theorem queryOne_eq (order : Sorting rowTime) {fetch : ℤ} (hfetch : 0 < fetch) (offset : ℤ)
    (kind : SourceKind) :
    queryOne g db tables order { req with offset := offset } filter.expr fetch kind =
      .ok ⟨(sentEvents g db tables req filter order kind).take fetch.toNat,
        (sourceRows g db tables req filter kind).length⟩ := by
  obtain ⟨wheres, hcompile⟩ := sourceFilter_compiles req filter kind
  have hpage := @querySource_page g db tables order _ { req with offset := 0 } _ _ _ hcompile hfetch
    le_rfl
  rw [page, Int.toNat_zero, List.drop_zero, List.map_take] at hpage
  cases kind <;> exact hpage

/-- The slice that `queryAll` takes is in bounds. -/
theorem sliceRange_page {α : Type*} (l : List α) {limit offset : ℤ} (hlimit : 1 ≤ limit)
    (hoffset : 0 ≤ offset) :
    (let start := if offset > l.length then (l.length : ℤ) else offset
      let stop := if start + limit > l.length then (l.length : ℤ) else start + limit
      sliceRange l start stop) = .ok (page offset.toNat limit.toNat l) := by
  by_cases hstart : offset > l.length
  · have hlen : l.length ≤ offset.toNat := by omega
    simp only [if_pos hstart, if_pos (by omega : (l.length : ℤ) + limit > l.length), sliceRange]
    rw [if_pos (by omega), page, List.drop_eq_nil_of_le hlen]
    simp
  · simp only [if_neg hstart, sliceRange]
    by_cases hstop : offset + limit > l.length
    · have hlen : (l.drop offset.toNat).length ≤ limit.toNat := by
        rw [List.length_drop]
        omega
      rw [if_pos hstop, if_pos (by omega), page, List.take_of_length_le hlen]
      simp
    · have hsum : (offset + limit).toNat = offset.toNat + limit.toNat := by omega
      rw [if_neg hstop, if_pos (by omega), page_eq_take_drop, hsum]

/-- A page of `queryAll` is cut from the merge of the beginnings of the sources. -/
theorem queryAll_eq (run : MergeRun) {limit offset : ℤ} (hlimit : 1 ≤ limit) (hoffset : 0 ≤ offset) :
    let merged := run.merge.sort (run.arrival.flatMap fun kind =>
      (sentEvents g db tables req filter (run.order kind) kind).take (fetchLimit limit offset).toNat)
    queryAll g db tables run { req with offset := offset } filter.expr limit =
      .ok ⟨page offset.toNat limit.toNat merged, (page offset.toNat limit.toNat merged).length⟩ := by
  intro merged
  have hresults : (run.arrival.mapM fun kind => queryOne g db tables (run.order kind)
      { req with offset := offset } filter.expr (fetchLimit limit offset) kind) =
      .ok (run.arrival.map fun kind =>
        (⟨(sentEvents g db tables req filter (run.order kind) kind).take
          (fetchLimit limit offset).toNat, (sourceRows g db tables req filter kind).length⟩ :
          QueryAnswer)) := by
    simp only [queryOne_eq _ (fetchLimit_pos limit offset)]
    exact List.mapM_pure
  have hslice := sliceRange_page merged hlimit hoffset
  have hmerged : run.merge.sort ((run.arrival.map fun kind =>
      (⟨(sentEvents g db tables req filter (run.order kind) kind).take
        (fetchLimit limit offset).toNat, (sourceRows g db tables req filter kind).length⟩ :
        QueryAnswer)).flatMap QueryAnswer.events) = merged := by
    rw [List.flatMap_map]
  rw [queryAll, hresults]
  simp only [bind, Except.bind, hmerged]
  dsimp only at hslice
  rw [hslice]
  rfl

theorem sentEvents_descending (order : Sorting rowTime) (kind : SourceKind) :
    Descending QueryEvent.ts (sentEvents g db tables req filter order kind) :=
  (order.descending _).map fun _ => rfl

theorem sentEvents_perm (order : Sorting rowTime) (kind : SourceKind) :
    (sentEvents g db tables req filter order kind).Perm
      ((sourceRows g db tables req filter kind).map StoredRow.event) :=
  (order.perm _).map _

/-- In whatever order the sources answer, they send all events that match. -/
theorem sentEvents_flatten_perm (run : MergeRun) :
    (run.arrival.map fun kind => sentEvents g db tables req filter (run.order kind) kind).flatten.Perm
      (matchingEvents g db tables req filter) := by
  rw [← List.flatMap_def]
  exact run.arrival_perm.flatMap fun kind _ => sentEvents_perm (run.order kind) kind

theorem matchingEvents_length : (matchingEvents g db tables req filter).length =
    (sourceRows g db tables req filter .audit).length +
      (sourceRows g db tables req filter .job).length +
      (sourceRows g db tables req filter .logAccess).length +
      (sourceRows g db tables req filter .logError).length := by
  simp [matchingEvents, allSources]
  omega

theorem matchingEvents_length_le
    (hcap : ∀ kind, (sourceRows g db tables req filter kind).length ≤ 2000) :
    (matchingEvents g db tables req filter).length ≤ 8000 := by
  have ha := hcap .audit
  have hj := hcap .job
  have hl := hcap .logAccess
  have he := hcap .logError
  rw [matchingEvents_length]
  omega

/-- A merge of beginnings agrees with the whole as far as the page reaches. -/
theorem page_merged (h : MergeExact g db tables req filter) (run : MergeRun) {all : List QueryEvent}
    (hall : all.Perm (matchingEvents g db tables req filter)) (hdesc : Descending QueryEvent.ts all)
    {limit offset : ℤ} (hlimit : 1 ≤ limit) (hmax : limit ≤ 1000) (hoffset : 0 ≤ offset)
    (hint : offset < 2 ^ 63) :
    page offset.toNat limit.toNat (run.merge.sort (run.arrival.flatMap fun kind =>
      (sentEvents g db tables req filter (run.order kind) kind).take (fetchLimit limit offset).toNat)) =
      page offset.toNat limit.toNat all := by
  let parts := run.arrival.map fun kind => sentEvents g db tables req filter (run.order kind) kind
  have hparts : ∀ l ∈ parts, Descending QueryEvent.ts l := by
    intro l hl
    obtain ⟨kind, -, rfl⟩ := List.mem_map.mp hl
    exact sentEvents_descending (run.order kind) kind
  have hflat : all.Perm parts.flatten := hall.trans (sentEvents_flatten_perm run).symm
  have htie : ∀ a ∈ all, ∀ b ∈ all, a.ts = b.ts → a = b := fun a ha b hb =>
    h.2 a (hall.mem_iff.mp ha) b (hall.mem_iff.mp hb)
  have hsent : ∀ m, (run.arrival.flatMap fun kind =>
      (sentEvents g db tables req filter (run.order kind) kind).take m) =
      parts.flatMap (List.take m) := fun m => by rw [List.flatMap_map]
  rw [hsent]
  by_cases hsum : limit + offset < 2 ^ 63
  · rw [fetchLimit_of_lt hlimit hoffset hsum]
    by_cases hbig : limit + offset > 2000
    · have hwhole : parts.flatMap (List.take 2000) = parts.flatten := by
        rw [List.flatMap_def, List.map_congr_left (g := id), List.map_id]
        intro l hl
        obtain ⟨kind, -, rfl⟩ := List.mem_map.mp hl
        refine List.take_of_length_le ?_
        rw [(sentEvents_perm (run.order kind) kind).length_eq, List.length_map]
        exact h.1 kind
      rw [if_pos hbig, show (2000 : ℤ).toNat = 2000 from rfl, hwhole]
      have hperm := (run.merge.perm parts.flatten).trans hflat.symm
      rw [hdesc.eq_of_perm (run.merge.descending _) hperm.symm htie]
    · have hfetch : (limit + offset).toNat = offset.toNat + limit.toNat := by omega
      rw [if_neg hbig, hfetch, page_eq_take_drop, page_eq_take_drop]
      rw [take_merge_eq_take hparts (run.merge.descending _) hdesc (run.merge.perm _) hflat htie]
  · have hlen := matchingEvents_length_le h.1
    rw [← hall.length_eq] at hlen
    have hshort : (run.merge.sort (parts.flatMap (List.take (fetchLimit limit offset).toNat))).length
        ≤ all.length := by
      rw [(run.merge.perm _).length_eq, hflat.length_eq]
      exact (flatMap_take_sublist _ parts).length_le
    rw [page, page, List.drop_eq_nil_of_le (by omega), List.drop_eq_nil_of_le (by omega)]

theorem pagesExactly_of_mergeExact (h : MergeExact g db tables req filter) :
    PagesExactly g db tables req filter := by
  let newest : Sorting QueryEvent.ts := Sorting.preferring QueryEvent.ts fun _ => true
  refine ⟨newest.sort (matchingEvents g db tables req filter), newest.perm _, newest.descending _, ?_⟩
  intro run limit offset hlimit hmax hoffset hint
  rw [queryAll_eq run hlimit hoffset,
    page_merged h run (newest.perm _) (newest.descending _) hlimit hmax hoffset hint]

/-! ## What the pages need -/

/-- A run in which preferred events come first among those of their time. -/
def preferRun (first : QueryEvent → Bool) : MergeRun where
  order _ := Sorting.preferring rowTime fun row => first row.event
  arrival := allSources
  arrival_perm := List.Perm.refl _
  merge := Sorting.preferring QueryEvent.ts first

/-- Past 2000 rows of a source the pages end too early. -/
theorem length_le_of_pagesExactly (h : PagesExactly g db tables req filter) (kind : SourceKind) :
    (sourceRows g db tables req filter kind).length ≤ 2000 := by
  obtain ⟨all, hall, -, hpages⟩ := h
  by_contra hlong
  let run := preferRun fun _ => true
  let sent := run.arrival.flatMap fun kind =>
    (sentEvents g db tables req filter (run.order kind) kind).take 2000
  have hcount : ∀ kind, (sentEvents g db tables req filter (run.order kind) kind).length =
      (sourceRows g db tables req filter kind).length := by
    intro kind
    rw [(sentEvents_perm _ kind).length_eq, List.length_map]
  have hsent : sent.length = min 2000 (sourceRows g db tables req filter .audit).length +
      min 2000 (sourceRows g db tables req filter .job).length +
      min 2000 (sourceRows g db tables req filter .logAccess).length +
      min 2000 (sourceRows g db tables req filter .logError).length := by
    simp only [sent, run, preferRun, allSources] at hcount ⊢
    simp only [List.flatMap_cons, List.flatMap_nil, List.append_nil, List.length_append,
      List.length_take, hcount]
    omega
  have hall' := hall.length_eq
  rw [matchingEvents_length] at hall'
  have hshort : 2000 ≤ sent.length ∧ sent.length ≤ 8000 ∧ sent.length < all.length := by
    cases kind <;> omega
  have hpage := hpages run 1 sent.length le_rfl (by simp) (by simp) (by omega)
  have hfetch : (fetchLimit 1 (sent.length : ℤ)).toNat = 2000 := by
    rw [fetchLimit_of_lt le_rfl (by simp) (by omega), if_pos (by omega)]
    rfl
  rw [queryAll_eq run le_rfl (by simp), hfetch, Except.ok.injEq, QueryAnswer.mk.injEq] at hpage
  have hempty : page sent.length 1 (run.merge.sort sent) = [] := by
    rw [page, List.drop_eq_nil_of_le (run.merge.perm sent).length_eq.le]
    rfl
  have hfull : page sent.length 1 all = [] := by
    rw [← hempty]
    simpa using hpage.1.symm
  have := congrArg List.length hfull
  simp only [page, List.length_take, List.length_drop, List.length_nil] at this
  omega

/-- How many events of all that match are later. -/
theorem count_later_le (order : Sorting rowTime) (kind : SourceKind) (c : ℤ) :
    ((sentEvents g db tables req filter order kind).filter (c < QueryEvent.ts ·)).length ≤
      ((matchingEvents g db tables req filter).filter (c < QueryEvent.ts ·)).length := by
  have hmem : kind ∈ allSources := by cases kind <;> decide
  have hsub : ((sourceRows g db tables req filter kind).map StoredRow.event).Sublist
      (matchingEvents g db tables req filter) := by
    rw [matchingEvents, List.flatMap_def]
    exact List.sublist_flatten_of_mem (List.mem_map_of_mem hmem)
  rw [((sentEvents_perm order kind).filter _).length_eq]
  exact (hsub.filter _).length_le

/-- Among events of one time the merge may begin with any of them. -/
theorem page_prefers {first : QueryEvent → Bool} {a : QueryEvent}
    (hcap : ∀ kind, (sourceRows g db tables req filter kind).length ≤ 2000)
    (ha : a ∈ matchingEvents g db tables req filter) (hfirst : first a = true) {k : ℕ}
    (hk : k = ((matchingEvents g db tables req filter).filter (a.ts < QueryEvent.ts ·)).length) :
    ∃ b, page k 1 ((preferRun first).merge.sort ((preferRun first).arrival.flatMap fun kind =>
        (sentEvents g db tables req filter ((preferRun first).order kind) kind).take
          (fetchLimit 1 (k : ℤ)).toNat)) = [b] ∧ first b = true := by
  let sent := sentEvents g db tables req filter (Sorting.preferring rowTime fun row => first row.event)
  let fetch := (fetchLimit 1 (k : ℤ)).toNat
  let merged := allSources.flatMap fun kind => (sent kind).take fetch
  have htotal : k ≤ 8000 := by
    rw [hk]
    exact (List.length_filter_le _ _).trans (matchingEvents_length_le hcap)
  have hfetch : fetch = min (k + 1) 2000 := by
    simp only [fetch, fetchLimit_of_lt le_rfl (by omega : (0 : ℤ) ≤ k) (by omega)]
    split_ifs <;> omega
  have hlater : ∀ kind, ((sent kind).take fetch).filter (a.ts < QueryEvent.ts ·) =
      (sent kind).filter (a.ts < QueryEvent.ts ·) := by
    intro kind
    apply (sentEvents_descending _ kind).filter_take
    have hle : ((sent kind).filter (a.ts < QueryEvent.ts ·)).length ≤ k := by
      rw [hk]
      exact count_later_le _ kind a.ts
    have hlen : ((sent kind).filter (a.ts < QueryEvent.ts ·)).length ≤ 2000 := by
      refine (List.length_filter_le _ _).trans ?_
      rw [(sentEvents_perm _ kind).length_eq, List.length_map]
      exact hcap kind
    change ((sent kind).filter (a.ts < QueryEvent.ts ·)).length ≤ fetch
    omega
  have hcount : (merged.filter (a.ts < QueryEvent.ts ·)).length = k := by
    rw [hk]
    simp only [merged, List.filter_flatMap, hlater, matchingEvents]
    refine (List.Perm.flatMap_left allSources fun kind _ => ?_).length_eq
    exact (sentEvents_perm _ kind).filter _
  obtain ⟨b, hb, hbts, hbfirst⟩ : ∃ b ∈ merged, b.ts = a.ts ∧ first b = true := by
    obtain ⟨kind, hkind, hmem⟩ := List.mem_flatMap.mp ha
    obtain ⟨row, hrow, rfl⟩ := List.mem_map.mp hmem
    obtain ⟨row', hget, -, htime, hfirst'⟩ := @Sorting.preferring_getElem? _ _ _ rowTime
      (fun row => first row.event) _ _ hrow hfirst
    refine ⟨row'.event, List.mem_flatMap.mpr ⟨kind, hkind, ?_⟩, htime, hfirst'⟩
    let i := ((sourceRows g db tables req filter kind).filter (rowTime row < rowTime ·)).length
    have hindex : i < fetch := by
      have hle : i ≤ k := by
        rw [hk]
        refine le_of_eq_of_le ?_ (count_later_le (Sorting.preferring rowTime fun _ => true) kind _)
        rw [((sentEvents_perm _ kind).filter _).length_eq, List.filter_map, List.length_map]
        rfl
      have hlt : i < (sourceRows g db tables req filter kind).length := by
        rw [← ((Sorting.preferring rowTime fun row => first row.event).perm _).length_eq]
        exact (List.getElem?_eq_some_iff.mp hget).1
      have := hcap kind
      omega
    have hsent : (sent kind)[i]? = some row'.event := by
      change (List.map StoredRow.event _)[i]? = _
      rw [List.getElem?_map, hget]
      rfl
    rw [← List.getElem?_take_of_lt hindex] at hsent
    exact List.mem_of_getElem? hsent
  obtain ⟨c, hc, -, -, hcfirst⟩ := @Sorting.preferring_getElem? _ _ _ QueryEvent.ts first _ _ hb hbfirst
  rw [hbts, hcount] at hc
  exact ⟨c, page_one hc, hcfirst⟩

theorem mergeExact_of_pagesExactly (h : PagesExactly g db tables req filter) :
    MergeExact g db tables req filter := by
  have hcap := length_le_of_pagesExactly h
  refine ⟨hcap, ?_⟩
  obtain ⟨all, hall, -, hpages⟩ := h
  have hpage : ∀ a ∈ matchingEvents g db tables req filter,
      page ((matchingEvents g db tables req filter).filter (a.ts < QueryEvent.ts ·)).length 1 all =
        [a] := by
    intro a ha
    obtain ⟨b, hb, hfirst⟩ := @page_prefers g db tables req filter (fun b => b = a) a
      hcap ha (by simp) _ rfl
    obtain rfl := of_decide_eq_true hfirst
    have hcount := (List.length_filter_le (b.ts < QueryEvent.ts ·) _).trans
      (matchingEvents_length_le hcap)
    have hcut := hpages (preferRun fun c => c = b) 1
      ((matchingEvents g db tables req filter).filter (b.ts < QueryEvent.ts ·)).length le_rfl
      (by simp) (by simp) (by omega)
    rw [queryAll_eq _ le_rfl (by simp), Except.ok.injEq, QueryAnswer.mk.injEq] at hcut
    rw [← hb]
    simpa using hcut.1.symm
  intro a ha b hb htie
  have hab := hpage a ha
  rw [htie, hpage b hb] at hab
  exact (List.singleton_inj.mp hab).symm

end GoSite.Observability
