import GoSite.TrafficCollector

/-!
# Collector passes that fail

A pass adds its buckets to the table one by one and saves its offsets behind them. A pass
that fails in between leaves the offsets, and the next one counts the same lines again.
-/
namespace GoSite.Observability
open AccessLines GoStrings GoTimes GuardedRuns LineScanner

/-- Where a pass fails: before it stores a bucket, after it has stored some of them, when it
saves the offsets, or behind that. -/
inductive PassFailure where
  | reading
  | storing (stored : ℕ)
  | saving
  | purging
  deriving Repr, DecidableEq

/-- What a pass that fails leaves. The offsets are what they were unless they were saved. -/
def CollectorState.failedPass (s : CollectorState) (listing : List LogFile)
    (order : List (Σ _ : BucketKey, Counters)) (failure : PassFailure) : Option CollectorState :=
  if failure = .reading then some s
  else if listing.Perm s.files then
    match listing.foldlM collectEntry (s.offsets, ∅) with
    | none => none
    | some (offsets, buckets) =>
        if order.Perm buckets.entries then
          match failure with
          | .reading => some s
          | .storing stored =>
              if stored < order.length then
                some { s with table := (order.take stored).foldl upsertBucket s.table }
              else none
          | .saving => some { s with table := order.foldl upsertBucket s.table }
          | .purging =>
              some { s with offsets := offsets, table := order.foldl upsertBucket s.table }
        else none
  else none

/-- The offsets of a pass that has read all logs. -/
def CollectorState.endOffsets (s : CollectorState) (name : Text) : ℕ :=
  match s.files.find? (·.name = name) with
  | none => s.offsets name
  | some f => if isAccessLog name then f.content.length else s.offsets name

/-- What a pass adds to the table. -/
def CollectorState.delta (s : CollectorState) (key : BucketKey) : Counters :=
  (tally key s.unreadHits).wrap

/-- Nothing had been stored when the pass failed, or its offsets were saved and the lines
that the next pass reads in these files count as they would without it. -/
def CollectorState.FailsHarmless (s : CollectorState) (files : List LogFile) : PassFailure → Prop
  | .reading => True
  | .storing stored => stored = 0
  | .saving => s.unreadHits = []
  | .purging => ∀ key, s.delta key + CollectorState.delta ⟨files, s.endOffsets, s.table⟩ key =
      CollectorState.delta { s with files := files } key

theorem requests_add (a b : Counters) : (a + b).requests = a.requests + b.requests := rfl

theorem requests_ofLine (l : AccessLine) : (Counters.ofLine l).requests = 1 := by
  unfold Counters.ofLine applyStatusFamily
  split_ifs <;> rfl

theorem requests_applyStatusFamily (c : Counters) (status : ℤ) :
    (applyStatusFamily c status).requests = c.requests := by
  unfold applyStatusFamily
  split_ifs <;> rfl

/-- A bucket counts the lines that belong to it. -/
theorem requests_tally (key : BucketKey) (hits : List (BucketKey × AccessLine)) :
    (tally key hits).requests = (hits.filter (·.1 = key)).length := by
  unfold tally
  induction hits.filter (·.1 = key) with
  | nil => rfl
  | cons h hits ih =>
      rw [List.map_cons, List.sum_cons, requests_add, requests_ofLine, ih, List.length_cons]
      omega

theorem requests_wrap (c : Counters) : c.wrap.requests = c.requests := rfl

instance : IsLeftCancelAdd Counters where
  add_left_cancel _ _ _ h := by
    obtain ⟨h₁, h₂, h₃, h₄, h₅, h₆⟩ := (Counters.ext_iff.mp h)
    exact Counters.ext (Int.add_left_cancel h₁) (Int.add_left_cancel h₂) (Int.add_left_cancel h₃)
      (Int.add_left_cancel h₄) (Int.add_left_cancel h₅) (Int.add_left_cancel h₆)

instance : IsRightCancelAdd Counters := AddCommMagma.IsLeftCancelAdd.toIsRightCancelAdd Counters

/-! ## The buckets of a pass -/

/-- Each bucket in memory has counted some line. -/
def Counting (buckets : Buckets) : Prop := ∀ b ∈ buckets.entries, 0 < b.2.requests

theorem counting_consumeLine {site : Text} {buckets : Buckets} (h : Counting buckets)
    (line : Line) : Counting (consumeLine site buckets line) := by
  rw [consumeLine]
  split_ifs with hblank
  · exact h
  · cases parseAccessLine (lineText line) with
    | none => exact h
    | some l =>
        intro b hb
        dsimp only at hb
        rw [AList.entries_insert] at hb
        rcases List.mem_cons.mp hb with rfl | hb
        · have hold : 0 ≤ ((buckets.lookup ⟨truncateBucket l.ts, site⟩).getD 0).requests := by
            cases hlookup : buckets.lookup ⟨truncateBucket l.ts, site⟩ with
            | none => exact le_rfl
            | some c => exact (h _ (AList.mem_lookup_iff.mp hlookup)).le
          dsimp only
          rw [requests_applyStatusFamily]
          exact Int.lt_add_one_of_le hold
        · exact h b ((List.kerase_sublist _ _).subset hb)

theorem counting_collect (listing : List LogFile) {acc acc' : (Text → ℕ) × Buckets}
    (h : listing.foldlM collectEntry acc = some acc') (hcounting : Counting acc.2) :
    Counting acc'.2 := by
  have hlines : ∀ (site : Text) (lines : List Line) (buckets : Buckets), Counting buckets →
      Counting (lines.foldl (consumeLine site) buckets) := by
    intro site lines
    induction lines with
    | nil => exact fun _ h => h
    | cons line lines ih => exact fun buckets h => ih _ (counting_consumeLine h line)
  induction listing generalizing acc with
  | nil =>
      obtain rfl := Option.some.inj h
      exact hcounting
  | cons f listing ih =>
      rw [List.foldlM_cons] at h
      obtain ⟨mid, hentry, hrest⟩ := Option.bind_eq_some_iff.mp h
      refine ih hrest ?_
      rw [collectEntry] at hentry
      split_ifs at hentry with haccess
      · obtain ⟨r, hread, rfl⟩ := Option.map_eq_some_iff.mp hentry
        simp only [readFromOffset] at hread
        split_ifs at hread with hfits
        obtain rfl := Option.some.inj hread
        exact hlines _ _ _ hcounting
      · obtain rfl := Option.some.inj hentry
        exact hcounting

/-- What a pass over the logs comes to. -/
theorem collect_buckets {s : CollectorState} {listing : List LogFile}
    {order : List (Σ _ : BucketKey, Counters)} {offsets : Text → ℕ} {buckets : Buckets}
    (hnodup : (s.files.map LogFile.name).Nodup) (hlisting : listing.Perm s.files)
    (hcollect : listing.foldlM collectEntry (s.offsets, ∅) = some (offsets, buckets))
    (horder : order.Perm buckets.entries) :
    offsets = s.endOffsets ∧ order.NodupKeys ∧ (∀ b ∈ order, 0 < b.2.requests) ∧
      ∀ key, (order.dlookup key).getD 0 = s.delta key := by
  have hnodup' : (listing.map LogFile.name).Nodup :=
    ((hlisting.map LogFile.name).nodup_iff).mpr hnodup
  obtain ⟨hends, hkept, htallied⟩ := collect_spec listing hnodup' hcollect tallied_nil
  have hkeys : order.NodupKeys := (List.perm_nodupKeys horder).mpr buckets.nodupKeys
  have hunread : (listing.flatMap fun f =>
      hitsOf f.name (f.content.drop (startOffset f.content (s.offsets f.name)))).Perm
      s.unreadHits := hlisting.flatMap_right _
  refine ⟨?_, hkeys, ?_, fun key => ?_⟩
  · funext name
    rw [CollectorState.endOffsets]
    cases hfind : s.files.find? (·.name = name) with
    | none =>
        refine hkept name (.inr fun hmem => ?_)
        obtain ⟨f, hf, hname⟩ := List.mem_map.mp ((hlisting.map LogFile.name).mem_iff.mp hmem)
        have hnot := List.find?_eq_none.mp hfind f hf
        exact hnot (decide_eq_true hname)
    | some f =>
        have hmem : f ∈ listing := hlisting.mem_iff.mpr (List.mem_of_find?_eq_some hfind)
        have hname : f.name = name := by simpa using List.find?_some hfind
        subst hname
        dsimp only
        split_ifs with haccess
        · exact hends f hmem haccess
        · exact hkept f.name (.inl (Bool.eq_false_iff.mpr haccess))
  · intro b hb
    exact counting_collect listing hcollect (fun _ h => absurd h (List.not_mem_nil)) b
      (horder.mem_iff.mp hb)
  · rw [List.perm_dlookup key hkeys horder]
    exact (htallied key).trans (congrArg Counters.wrap (tally_perm key hunread))

/-- What a pass that succeeds comes to. -/
theorem collect_table {s t : CollectorState} {listing : List LogFile}
    {order : List (Σ _ : BucketKey, Counters)} (hnodup : (s.files.map LogFile.name).Nodup)
    (hstep : s.step (.collect listing order) = some t) (key : BucketKey) :
    t.table key = s.table key + s.delta key := by
  simp only [CollectorState.step] at hstep
  split_ifs at hstep with hlisting
  split at hstep
  · cases hstep
  · next offsets buckets hcollect =>
    split_ifs at hstep with horder
    obtain rfl := Option.some.inj hstep
    obtain ⟨-, hkeys, -, hdelta⟩ := collect_buckets hnodup hlisting hcollect horder
    rw [← hdelta key]
    exact foldl_upsertBucket hkeys s.table key

/-- A pass over logs without unread lines adds nothing, and only such a pass. -/
theorem delta_eq_zero_iff (s : CollectorState) : (∀ key, s.delta key = 0) ↔ s.unreadHits = [] := by
  constructor
  · intro hzero
    cases hhits : s.unreadHits with
    | nil => rfl
    | cons h hits =>
        have hnone := congrArg Counters.requests (hzero h.1)
        have hmem : h ∈ s.unreadHits.filter (·.1 = h.1) :=
          List.mem_filter.mpr ⟨hhits ▸ List.mem_cons_self, decide_eq_true rfl⟩
        rw [CollectorState.delta, requests_wrap, requests_tally] at hnone
        have hlength := List.length_pos_of_mem hmem
        have hzero' : (0 : Counters).requests = 0 := rfl
        omega
  · intro hnone key
    rw [CollectorState.delta, hnone]
    rfl

/-- What the first buckets of a pass add to the table. -/
theorem foldl_take_eq_iff {order : List (Σ _ : BucketKey, Counters)} (hkeys : order.NodupKeys)
    (hcounting : ∀ b ∈ order, 0 < b.2.requests) (table : BucketKey → Counters) {stored : ℕ}
    (hstored : stored < order.length) :
    (∀ key, (order.take stored).foldl upsertBucket table key = table key) ↔ stored = 0 := by
  constructor
  · intro hsame
    cases order with
    | nil => cases hstored
    | cons b order =>
        cases stored with
        | zero => rfl
        | succ stored =>
            have hb := hsame b.1
            rw [foldl_upsertBucket (hkeys.sublist (List.take_sublist _ _)), List.take_succ_cons,
              List.dlookup_cons_eq, Option.getD_some, add_eq_left] at hb
            have hpos := hcounting b List.mem_cons_self
            rw [hb] at hpos
            exact absurd hpos (lt_irrefl _)
  · rintro rfl _
    rfl

/-- A log with one line that no pass has read. -/
def unreadDemo : CollectorState := ⟨[⟨demoName, demoLine⟩], fun _ => 0, fun _ => 0⟩

/-- The pass that comes behind the failed one, and the same pass without it. -/
def afterFailure (failure : PassFailure) : Option (CollectorState × CollectorState) := do
  let failed ← unreadDemo.failedPass unreadDemo.files [⟨demoKey, demoCounted⟩] failure
  let t ← failed.step (.collect unreadDemo.files [⟨demoKey, demoCounted⟩])
  let only ← unreadDemo.step (.collect unreadDemo.files [⟨demoKey, demoCounted⟩])
  return (t, only)

end GoSite.Observability
