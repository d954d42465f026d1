import GoSite.AccessLines
import GoSite.GuardedRuns
import GoSite.LogIngest

/-!
# The traffic collector

A pass reads each access log from its saved offset to the end, counts the lines
it can parse into buckets of five minutes, adds the buckets to the stored ones
and saves the offsets it ended at. Writers append to the logs between passes.
-/
namespace GoSite.Observability

open AccessLines GoStrings GoTimes GuardedRuns LineScanner

/-- The columns of a traffic bucket that count. -/
@[ext] structure Counters where
  requests : ℤ
  bytes : ℤ
  s2xx : ℤ
  s3xx : ℤ
  s4xx : ℤ
  s5xx : ℤ
  deriving Repr, DecidableEq

instance : Zero Counters := ⟨⟨0, 0, 0, 0, 0, 0⟩⟩

instance : Add Counters :=
  ⟨fun a b => ⟨a.requests + b.requests, a.bytes + b.bytes, a.s2xx + b.s2xx, a.s3xx + b.s3xx,
    a.s4xx + b.s4xx, a.s5xx + b.s5xx⟩⟩

instance : AddCommMonoid Counters where
  zero_add a := Counters.ext (Int.zero_add _) (Int.zero_add _) (Int.zero_add _) (Int.zero_add _)
    (Int.zero_add _) (Int.zero_add _)
  add_zero a := Counters.ext (Int.add_zero _) (Int.add_zero _) (Int.add_zero _) (Int.add_zero _)
    (Int.add_zero _) (Int.add_zero _)
  add_assoc a b c := Counters.ext (Int.add_assoc ..) (Int.add_assoc ..) (Int.add_assoc ..)
    (Int.add_assoc ..) (Int.add_assoc ..) (Int.add_assoc ..)
  add_comm a b := Counters.ext (Int.add_comm ..) (Int.add_comm ..) (Int.add_comm ..)
    (Int.add_comm ..) (Int.add_comm ..) (Int.add_comm ..)
  nsmul := nsmulRec

structure BucketKey where
  ts : ℤ
  site : Text
  deriving Repr, DecidableEq

/-- A file of the log directory. -/
structure LogFile where
  name : Text
  content : List UInt8
  deriving Repr, DecidableEq

abbrev Buckets := AList (fun _ : BucketKey => Counters)

/-- The start of the five minutes of a time, by its minute. -/
def truncateBucket (t : Time) : ℤ :=
  let minute := t.sec / 60 % 60
  t.sec - t.sec % 3600 + (minute - minute % 5) * 60

/-- `strings.TrimSuffix`. -/
def trimSuffix (s suffix : Text) : Text :=
  if suffix <:+ s then s.take (s.length - suffix.length) else s

def siteFromAccessLogName (name : Text) : Text :=
  let base := trimPrefix (trimPrefix (trimSuffix name ".log".toList) "access".toList) "-".toList
  if base = [] then "default".toList else base

/-- The test of `collectEntry`. -/
def isAccessLog (name : Text) : Bool := "access".toList <+: name ∧ ".log".toList <:+ name

def applyStatusFamily (b : Counters) (status : ℤ) : Counters :=
  if 200 ≤ status ∧ status < 300 then { b with s2xx := b.s2xx + 1 }
  else if 300 ≤ status ∧ status < 400 then { b with s3xx := b.s3xx + 1 }
  else if 400 ≤ status ∧ status < 500 then { b with s4xx := b.s4xx + 1 }
  else if 500 ≤ status then { b with s5xx := b.s5xx + 1 }
  else b

/-- A line as the patterns see it, a character for each byte. -/
def lineText (line : Line) : Text := line.map fun b => Char.ofNat b.toNat

def consumeLine (site : Text) (buckets : Buckets) (line : Line) : Buckets :=
  if isBlank line then buckets
  else
    match parseAccessLine (lineText line) with
    | none => buckets
    | some l =>
        let key := ⟨truncateBucket l.ts, site⟩
        let b := (buckets.lookup key).getD 0
        buckets.insert key (applyStatusFamily
          { b with requests := b.requests + 1, bytes := wrap64 (b.bytes + l.bytes) } l.status)

/-- Where `readFromOffset` starts. -/
def startOffset (content : List UInt8) (offset : ℕ) : ℕ :=
  if content.length < offset then 0 else offset

/-- A line that does not fit the scanner's buffer ends the pass with an error. -/
def readFromOffset (content : List UInt8) (offset : ℕ) (site : Text) (buckets : Buckets) :
    Option (ℕ × Buckets) :=
  let unread := content.drop (startOffset content offset)
  if ∀ l ∈ rawLines unread, l.length < maxTokenSize then
    some (content.length, (scanLines unread).foldl (consumeLine site) buckets)
  else none

def collectEntry (acc : (Text → ℕ) × Buckets) (f : LogFile) : Option ((Text → ℕ) × Buckets) :=
  if isAccessLog f.name then
    (readFromOffset f.content (acc.1 f.name) (siteFromAccessLogName f.name) acc.2).map
      fun r => (Function.update acc.1 f.name r.1, r.2)
  else some acc

/-- `UpsertBucket`: the row is inserted, or the counters are added to it. A row
that is not there counts nothing. -/
def upsertBucket (table : BucketKey → Counters) (b : Σ _ : BucketKey, Counters) :
    BucketKey → Counters :=
  Function.update table b.1 (table b.1 + b.2)

/-- The log directory, the saved offsets and the metrics table. -/
structure CollectorState where
  files : List LogFile
  offsets : Text → ℕ
  table : BucketKey → Counters

def CollectorState.start : CollectorState := ⟨[], fun _ => 0, fun _ => 0⟩

inductive CollectorStep where
  /-- Bytes are appended to a log, which is created if need be. -/
  | append (name : Text) (bytes : List UInt8)
  /-- A pass that succeeds, with the order in which the directory is listed and
  the one in which the buckets are stored. A log is read by one scan and nothing
  else of a pass looks at it, so what is appended during a pass counts as
  appended before or after it. -/
  | collect (listing : List LogFile) (order : List (Σ _ : BucketKey, Counters))

def appendTo (name : Text) (bytes : List UInt8) : List LogFile → List LogFile
  | [] => [⟨name, bytes⟩]
  | f :: files =>
      if f.name = name then ⟨f.name, f.content ++ bytes⟩ :: files else f :: appendTo name bytes files

def CollectorState.step (s : CollectorState) : CollectorStep → Option CollectorState
  | .append name bytes => some { s with files := appendTo name bytes s.files }
  | .collect listing order =>
      if listing.Perm s.files then
        match listing.foldlM collectEntry (s.offsets, ∅) with
        | none => none
        | some (offsets, buckets) =>
            if order.Perm buckets.entries then
              some { s with offsets := offsets, table := order.foldl upsertBucket s.table }
            else none
      else none

/-- What one line counts. -/
def Counters.ofLine (l : AccessLine) : Counters := applyStatusFamily ⟨1, l.bytes, 0, 0, 0, 0⟩ l.status

/-- The bucket a line belongs to, and what was read from it. -/
def hitOf (site : Text) (line : Line) : Option (BucketKey × AccessLine) :=
  if isBlank line then none
  else (parseAccessLine (lineText line)).map fun l => (⟨truncateBucket l.ts, site⟩, l)

/-- The lines of a text that can be parsed, if it belongs to an access log. -/
def hitsOf (name : Text) (text : List UInt8) : List (BucketKey × AccessLine) :=
  if isAccessLog name then (scanLines text).filterMap (hitOf (siteFromAccessLogName name)) else []

/-- The counts and sums over the lines that belong to a bucket. -/
def tally (key : BucketKey) (hits : List (BucketKey × AccessLine)) : Counters :=
  ((hits.filter (·.1 = key)).map fun h => Counters.ofLine h.2).sum

def CollectorState.hits (s : CollectorState) : List (BucketKey × AccessLine) :=
  s.files.flatMap fun f => hitsOf f.name f.content

/-- The lines the next pass counts. -/
def CollectorState.unreadHits (s : CollectorState) : List (BucketKey × AccessLine) :=
  s.files.flatMap fun f =>
    hitsOf f.name (f.content.drop (startOffset f.content (s.offsets f.name)))

/-- The stored counters of every bucket and site are the counts and sums over
the lines of the logs. -/
def CollectorState.Exact (s : CollectorState) : Prop := ∀ key, s.table key = tally key s.hits

/-- A pass finds no log that ends within a line, and its sums fit their columns. -/
def CollectorState.Settled (s : CollectorState) : CollectorStep → Prop
  | .append _ _ => True
  | .collect _ _ =>
      (∀ f ∈ s.files, isAccessLog f.name → Terminated f.content) ∧
        (∀ h ∈ s.unreadHits, FitsInt64 (tally h.1 s.unreadHits).bytes) ∧
        ∀ h ∈ s.hits, FitsInt64 (tally h.1 s.hits).bytes

instance (s : CollectorState) : ∀ a, Decidable (s.Settled a)
  | .append _ _ => .isTrue trivial
  | .collect _ _ => inferInstanceAs (Decidable (_ ∧ _ ∧ _))

@[simp] theorem tally_nil (key : BucketKey) : tally key [] = 0 := rfl

@[simp] theorem tally_append (key : BucketKey) (hits more : List (BucketKey × AccessLine)) :
    tally key (hits ++ more) = tally key hits + tally key more := by
  simp [tally]

theorem tally_perm (key : BucketKey) {hits more : List (BucketKey × AccessLine)}
    (h : hits.Perm more) : tally key hits = tally key more :=
  ((h.filter _).map _).sum_eq

/-- A bucket in memory, whose bytes are an `int`. -/
def Counters.wrap (c : Counters) : Counters := { c with bytes := wrap64 c.bytes }

theorem wrap64_add (m n : ℤ) : wrap64 (wrap64 m + n) = wrap64 (m + n) := by
  rw [wrap64, wrap64, Int.bmod_add_bmod]
  rfl

theorem wrap_of_fits {c : Counters} (h : FitsInt64 c.bytes) : c.wrap = c := by
  rw [Counters.wrap, wrap64_of_fits h]

theorem applyStatusFamily_wrap (c : Counters) (status : ℤ) :
    applyStatusFamily c.wrap status = (applyStatusFamily c status).wrap := by
  unfold applyStatusFamily
  split_ifs <;> rfl

theorem applyStatusFamily_add (b c : Counters) (status : ℤ) :
    applyStatusFamily (b + c) status = b + applyStatusFamily c status := by
  unfold applyStatusFamily
  split_ifs
  · exact Counters.ext rfl rfl (Int.add_assoc ..) rfl rfl rfl
  · exact Counters.ext rfl rfl rfl (Int.add_assoc ..) rfl rfl
  · exact Counters.ext rfl rfl rfl rfl (Int.add_assoc ..) rfl
  · exact Counters.ext rfl rfl rfl rfl rfl (Int.add_assoc ..)
  · rfl

/-- A line added to a bucket in memory. -/
theorem count_line (c : Counters) (l : AccessLine) :
    applyStatusFamily { c.wrap with
      requests := c.wrap.requests + 1, bytes := wrap64 (c.wrap.bytes + l.bytes) } l.status =
      (c + Counters.ofLine l).wrap := by
  rw [Counters.ofLine, ← applyStatusFamily_add, ← applyStatusFamily_wrap]
  congr 1
  refine Counters.ext rfl (wrap64_add _ _) ?_ ?_ ?_ ?_
  all_goals exact (Int.add_zero _).symm

/-- The buckets in memory are the counts and sums over the hits so far. -/
def Tallied (buckets : Buckets) (hits : List (BucketKey × AccessLine)) : Prop :=
  ∀ key, (buckets.lookup key).getD 0 = (tally key hits).wrap

theorem tallied_nil : Tallied ∅ [] := fun _ => rfl

theorem tallied_consumeLine (site : Text) {buckets : Buckets}
    {hits : List (BucketKey × AccessLine)} (h : Tallied buckets hits) (line : Line) :
    Tallied (consumeLine site buckets line) (hits ++ (hitOf site line).toList) := by
  rw [consumeLine, hitOf]
  split_ifs with hblank
  · simpa using h
  · cases hparse : parseAccessLine (lineText line) with
    | none => simpa using h
    | some l =>
        intro key
        rw [Option.map_some, Option.toList_some, tally_append]
        by_cases hkey : key = ⟨truncateBucket l.ts, site⟩
        · subst hkey
          simp only [AList.lookup_insert, Option.getD_some, h _]
          rw [count_line]
          simp [tally]
        · have hother : ¬ (⟨truncateBucket l.ts, site⟩ : BucketKey) = key := fun heq => hkey heq.symm
          simp only [AList.lookup_insert_ne hkey, h key]
          simp [tally, hother]

/-- The lines of a scan are counted one after the other. -/
theorem tallied_foldl {site : Text} (lines : List Line) {buckets : Buckets}
    {hits : List (BucketKey × AccessLine)} (h : Tallied buckets hits) :
    Tallied (lines.foldl (consumeLine site) buckets) (hits ++ lines.filterMap (hitOf site)) := by
  induction lines generalizing buckets hits with
  | nil => simpa using h
  | cons line lines ih =>
      have hnext := ih (tallied_consumeLine site h line)
      rw [List.foldl_cons]
      rw [List.append_assoc] at hnext
      cases hhit : hitOf site line with
      | none => simpa [hhit] using hnext
      | some hit => simpa [hhit] using hnext

theorem startOffset_of_le {content : List UInt8} {offset : ℕ} (h : offset ≤ content.length) :
    startOffset content offset = offset := by
  rw [startOffset, if_neg (Nat.not_lt.mpr h)]

/-- What a log has behind a line boundary is counted by itself. -/
theorem hitsOf_append {name : Text} {xs : List UInt8}
    (h : isAccessLog name = true → Terminated xs) (ys : List UInt8) :
    hitsOf name (xs ++ ys) = hitsOf name xs ++ hitsOf name ys := by
  unfold hitsOf
  split_ifs with hname
  · simp [scanLines, rawLines_append (h hname)]
  · rfl

/-- One entry: the lines behind its offset are counted, and the offset moves to
the end of the file. -/
theorem collectEntry_spec {acc acc' : (Text → ℕ) × Buckets} {f : LogFile}
    {hits : List (BucketKey × AccessLine)} (h : collectEntry acc f = some acc')
    (htallied : Tallied acc.2 hits) :
    (isAccessLog f.name → acc'.1 f.name = f.content.length) ∧
      (∀ name, isAccessLog f.name = false ∨ name ≠ f.name → acc'.1 name = acc.1 name) ∧
      Tallied acc'.2 (hits ++
        hitsOf f.name (f.content.drop (startOffset f.content (acc.1 f.name)))) := by
  rw [collectEntry] at h
  split_ifs at h with haccess
  · obtain ⟨r, hread, rfl⟩ := Option.map_eq_some_iff.mp h
    simp only [readFromOffset] at hread
    split_ifs at hread with hfits
    obtain rfl := Option.some.inj hread
    refine ⟨fun _ => Function.update_self .., ?_, ?_⟩
    · intro name hname
      rcases hname with hname | hname
      · rw [haccess] at hname
        cases hname
      · exact Function.update_of_ne hname ..
    · rw [hitsOf, if_pos haccess]
      exact tallied_foldl _ htallied
  · obtain rfl := Option.some.inj h
    refine ⟨fun hname => absurd hname haccess, fun _ _ => rfl, ?_⟩
    rw [hitsOf, if_neg haccess, List.append_nil]
    exact htallied

/-- The entries of a directory, read one after the other. -/
theorem collect_spec (listing : List LogFile) {acc acc' : (Text → ℕ) × Buckets}
    {hits : List (BucketKey × AccessLine)} (hnodup : (listing.map LogFile.name).Nodup)
    (h : listing.foldlM collectEntry acc = some acc') (htallied : Tallied acc.2 hits) :
    (∀ f ∈ listing, isAccessLog f.name → acc'.1 f.name = f.content.length) ∧
      (∀ name, isAccessLog name = false ∨ name ∉ listing.map LogFile.name →
        acc'.1 name = acc.1 name) ∧
      Tallied acc'.2 (hits ++ listing.flatMap fun f =>
        hitsOf f.name (f.content.drop (startOffset f.content (acc.1 f.name)))) := by
  induction listing generalizing acc hits with
  | nil =>
      obtain rfl := Option.some.inj h
      refine ⟨by simp, fun _ _ => rfl, ?_⟩
      simpa using htallied
  | cons f listing ih =>
      rw [List.foldlM_cons] at h
      obtain ⟨mid, hentry, hrest⟩ := Option.bind_eq_some_iff.mp h
      obtain ⟨hmoved, hkept, hmid⟩ := collectEntry_spec hentry htallied
      rw [List.map_cons, List.nodup_cons] at hnodup
      obtain ⟨hends, hothers, hall⟩ := ih hnodup.2 hrest hmid
      refine ⟨?_, ?_, ?_⟩
      · intro g hg haccess
        rcases List.mem_cons.mp hg with rfl | hg
        · rw [hothers g.name (Or.inr hnodup.1)]
          exact hmoved haccess
        · exact hends g hg haccess
      · intro name hname
        rw [hothers name (hname.imp_right fun h hm => h (List.mem_cons_of_mem _ hm))]
        apply hkept
        by_cases heq : name = f.name
        · left
          rcases hname with hname | hname
          · exact heq ▸ hname
          · exact absurd (heq ▸ List.mem_cons_self) hname
        · exact Or.inr heq
      · have hsame : (listing.flatMap fun g =>
            hitsOf g.name (g.content.drop (startOffset g.content (mid.1 g.name)))) =
            listing.flatMap fun g =>
              hitsOf g.name (g.content.drop (startOffset g.content (acc.1 g.name))) := by
          apply List.flatMap_congr
          intro g hg
          rw [hkept g.name (Or.inr ?_)]
          rintro heq
          exact hnodup.1 (heq ▸ List.mem_map_of_mem hg)
        rw [hsame, List.append_assoc] at hall
        exact hall

/-- Each bucket is added once, whatever the order. -/
theorem foldl_upsertBucket {order : List (Σ _ : BucketKey, Counters)} (h : order.NodupKeys)
    (table : BucketKey → Counters) (key : BucketKey) :
    order.foldl upsertBucket table key = table key + (order.dlookup key).getD 0 := by
  induction order generalizing table with
  | nil => simp
  | cons b order ih =>
      obtain ⟨hb, horder⟩ := List.nodupKeys_cons.mp h
      rw [List.foldl_cons, ih horder, upsertBucket]
      by_cases hkey : key = b.1
      · subst hkey
        have hnone := List.dlookup_eq_none.mpr hb
        rw [hnone, Function.update_self, List.dlookup_cons_eq]
        simp
      · rw [Function.update_of_ne hkey, List.dlookup_cons_ne _ _ hkey]

/-- Up to its offset each log is made of whole lines, and the table holds what
they count. -/
structure CollectorState.Counted (s : CollectorState) : Prop where
  nodup : (s.files.map LogFile.name).Nodup
  fresh : ∀ name, name ∉ s.files.map LogFile.name → s.offsets name = 0
  bound : ∀ f ∈ s.files, s.offsets f.name ≤ f.content.length
  whole : ∀ f ∈ s.files, isAccessLog f.name → Terminated (f.content.take (s.offsets f.name))
  table_eq : ∀ key, s.table key =
    tally key (s.files.flatMap fun f => hitsOf f.name (f.content.take (s.offsets f.name)))

theorem counted_start : CollectorState.start.Counted :=
  ⟨List.nodup_nil, fun _ _ => rfl, by simp [CollectorState.start],
    by simp [CollectorState.start], fun _ => rfl⟩

theorem names_appendTo (name : Text) (bytes : List UInt8) (files : List LogFile) :
    (appendTo name bytes files).map LogFile.name =
      if name ∈ files.map LogFile.name then files.map LogFile.name
      else files.map LogFile.name ++ [name] := by
  induction files with
  | nil => rfl
  | cons f files ih =>
      rw [appendTo]
      by_cases hname : f.name = name
      · simp [hname]
      · rw [if_neg hname, List.map_cons, ih]
        by_cases hmem : name ∈ files.map LogFile.name
        · simp only [if_pos hmem, List.map_cons, List.mem_cons, hmem, or_true, if_true]
        · have hne : ¬ name = f.name := fun h => hname h.symm
          simp only [if_neg hmem, List.map_cons, List.mem_cons, hmem, hne, or_self, if_false,
            List.cons_append]

/-- The log that is appended to, and the ones that are not. -/
theorem mem_appendTo {name : Text} {bytes : List UInt8} {files : List LogFile} {f : LogFile}
    (h : f ∈ appendTo name bytes files) :
    f ∈ files ∨ (∃ g ∈ files, f = ⟨g.name, g.content ++ bytes⟩) ∨
      (name ∉ files.map LogFile.name ∧ f = ⟨name, bytes⟩) := by
  induction files with
  | nil => exact Or.inr (Or.inr ⟨by simp, List.mem_singleton.mp h⟩)
  | cons g files ih =>
      rw [appendTo] at h
      split_ifs at h with hname
      · rcases List.mem_cons.mp h with rfl | h
        · exact Or.inr (Or.inl ⟨g, List.mem_cons_self, rfl⟩)
        · exact Or.inl (List.mem_cons_of_mem g h)
      · rcases List.mem_cons.mp h with rfl | h
        · exact Or.inl List.mem_cons_self
        · rcases ih h with h | ⟨g', hg', rfl⟩ | ⟨hnew, rfl⟩
          · exact Or.inl (List.mem_cons_of_mem g h)
          · exact Or.inr (Or.inl ⟨g', List.mem_cons_of_mem g hg', rfl⟩)
          · refine Or.inr (Or.inr ⟨?_, rfl⟩)
            simp only [List.map_cons, List.mem_cons, not_or]
            exact ⟨fun heq => hname heq.symm, hnew⟩

/-- What does not look at the new bytes does not see an append. -/
theorem flatMap_appendTo {β : Type*} {name : Text} {bytes : List UInt8} {files : List LogFile}
    {g : LogFile → List β} (hgrown : ∀ f ∈ files, g ⟨f.name, f.content ++ bytes⟩ = g f)
    (hnew : name ∉ files.map LogFile.name → g ⟨name, bytes⟩ = []) :
    (appendTo name bytes files).flatMap g = files.flatMap g := by
  induction files with
  | nil => simpa [appendTo] using hnew
  | cons f files ih =>
      rw [appendTo]
      split_ifs with hname
      · rw [List.flatMap_cons, List.flatMap_cons, hgrown f List.mem_cons_self]
      · rw [List.flatMap_cons, List.flatMap_cons,
          ih (fun h hh => hgrown h (List.mem_cons_of_mem f hh))]
        intro hmem
        refine hnew ?_
        simp only [List.map_cons, List.mem_cons, not_or]
        exact ⟨fun heq => hname heq.symm, hmem⟩

theorem CollectorState.Counted.append {s : CollectorState} (h : s.Counted) (name : Text)
    (bytes : List UInt8) :
    CollectorState.Counted { s with files := appendTo name bytes s.files } := by
  have htake : ∀ g ∈ s.files,
      (g.content ++ bytes).take (s.offsets g.name) = g.content.take (s.offsets g.name) :=
    fun g hg => List.take_append_of_le_length (h.bound g hg)
  refine ⟨?_, ?_, ?_, ?_, ?_⟩
  · show ((appendTo name bytes s.files).map LogFile.name).Nodup
    rw [names_appendTo]
    split_ifs with hmem
    · exact h.nodup
    · rw [List.nodup_append]
      refine ⟨h.nodup, by simp, ?_⟩
      rintro a ha b hb rfl
      exact hmem (List.mem_singleton.mp hb ▸ ha)
  · intro other hother
    refine h.fresh other fun hmem => hother ?_
    show other ∈ (appendTo name bytes s.files).map LogFile.name
    rw [names_appendTo]
    split_ifs
    · exact hmem
    · exact List.mem_append_left _ hmem
  · intro f hf
    rcases mem_appendTo hf with hf | ⟨g, hg, rfl⟩ | ⟨hnew, rfl⟩
    · exact h.bound f hf
    · have hle := h.bound g hg
      simp only [List.length_append]
      omega
    · simp [h.fresh name hnew]
  · intro f hf haccess
    rcases mem_appendTo hf with hf | ⟨g, hg, rfl⟩ | ⟨hnew, rfl⟩
    · exact h.whole f hf haccess
    · simp only [htake g hg]
      exact h.whole g hg haccess
    · simp only [h.fresh name hnew, List.take_zero]
      exact Or.inl rfl
  · intro key
    rw [h.table_eq key]
    refine congrArg (tally key) (Eq.symm (flatMap_appendTo ?_ ?_))
    · intro f hf
      simp only [htake f hf]
    · intro hnew
      simp [h.fresh name hnew, hitsOf, scanLines]

/-- A pass over logs that end with their lines counts all of them. -/
theorem CollectorState.Counted.collect {s t : CollectorState} (h : s.Counted)
    {listing : List LogFile} {order : List (Σ _ : BucketKey, Counters)}
    (hgood : s.Settled (.collect listing order)) (hstep : s.step (.collect listing order) = some t) :
    t.Counted ∧ t.Exact := by
  obtain ⟨hterminated, hfits, -⟩ := hgood
  simp only [CollectorState.step] at hstep
  split_ifs at hstep with hlisting
  split at hstep
  · cases hstep
  · next offsets buckets hcollect =>
    split_ifs at hstep with horder
    obtain rfl := Option.some.inj hstep
    have hnodup : (listing.map LogFile.name).Nodup :=
      ((hlisting.map LogFile.name).nodup_iff).mpr h.nodup
    obtain ⟨hends, hkept, htallied⟩ := collect_spec listing hnodup hcollect tallied_nil
    have hunread : (listing.flatMap fun f =>
        hitsOf f.name (f.content.drop (startOffset f.content (s.offsets f.name)))).Perm
        s.unreadHits := hlisting.flatMap_right _
    have hfit : ∀ key, FitsInt64 (tally key s.unreadHits).bytes := by
      intro key
      by_cases hkey : ∃ hit ∈ s.unreadHits, hit.1 = key
      · obtain ⟨hit, hmem, rfl⟩ := hkey
        exact hfits hit hmem
      · have hnone : s.unreadHits.filter (·.1 = key) = [] := by
          rw [List.filter_eq_nil_iff]
          intro hit hmem heq
          exact hkey ⟨hit, hmem, of_decide_eq_true heq⟩
        rw [tally, hnone]
        decide
    have htable : ∀ key, order.foldl upsertBucket s.table key = tally key s.hits := by
      intro key
      have hkeys : order.NodupKeys := (List.perm_nodupKeys horder).mpr buckets.nodupKeys
      have hlookup : order.dlookup key = buckets.lookup key :=
        List.perm_dlookup key hkeys horder
      have hall : s.hits = s.files.flatMap fun f =>
          hitsOf f.name (f.content.take (s.offsets f.name)) ++
            hitsOf f.name (f.content.drop (startOffset f.content (s.offsets f.name))) := by
        apply List.flatMap_congr
        intro f hf
        rw [startOffset_of_le (h.bound f hf), ← hitsOf_append (h.whole f hf),
          List.take_append_drop]
      rw [foldl_upsertBucket hkeys, hlookup, htallied key, List.nil_append, tally_perm key hunread,
        wrap_of_fits (hfit key), h.table_eq key, ← tally_append, hall]
      exact tally_perm key (List.flatMap_append_perm ..)
    have hoffset : ∀ f ∈ s.files, isAccessLog f.name → offsets f.name = f.content.length :=
      fun f hf => hends f (hlisting.mem_iff.mpr hf)
    have hnames : ∀ name, name ∉ s.files.map LogFile.name → name ∉ listing.map LogFile.name :=
      fun name hname hmem => hname ((hlisting.map LogFile.name).mem_iff.mp hmem)
    refine ⟨⟨h.nodup, ?_, ?_, ?_, ?_⟩, htable⟩
    · intro name hname
      exact (hkept name (Or.inr (hnames name hname))).trans (h.fresh name hname)
    · intro f hf
      by_cases haccess : isAccessLog f.name = true
      · exact (hoffset f hf haccess).le
      · have hsame := hkept f.name (Or.inl (Bool.eq_false_iff.mpr haccess))
        exact hsame.le.trans (h.bound f hf)
    · intro f hf haccess
      simp only [hoffset f hf haccess, List.take_length]
      exact hterminated f hf haccess
    · intro key
      refine (htable key).trans (congrArg (tally key) (List.flatMap_congr ?_))
      intro f hf
      by_cases haccess : isAccessLog f.name = true
      · simp only [hoffset f hf haccess, List.take_length]
      · simp only [hitsOf, if_neg haccess]

theorem CollectorState.Counted.step {s t : CollectorState} {a : CollectorStep} (h : s.Counted)
    (hgood : s.Settled a) (hstep : s.step a = some t) : t.Counted := by
  cases a with
  | append name bytes =>
      obtain rfl := Option.some.inj hstep
      exact h.append name bytes
  | collect listing order => exact (h.collect hgood hstep).1

/-- However appends and passes alternate, each line of the access logs is
counted once by the passes, if no pass comes upon a log that ends within a
line: after every pass the stored counters are the counts and sums over the
lines of the logs. -/
theorem collect_counts_once (steps : List CollectorStep)
    (hgood : Guarded CollectorState.step CollectorState.Settled .start steps) :
    ∀ before listing order t, steps = before ++ [.collect listing order] →
      run CollectorState.step .start steps = some t → t.Exact := by
  intro before listing order t hsteps hrun
  subst hsteps
  rw [run_append] at hrun
  obtain ⟨s, hs, hlast⟩ := Option.bind_eq_some_iff.mp hrun
  have hstep : s.step (.collect listing order) = some t := by simpa using hlast
  have hinv := (along_of_guarded (fun _ _ _ => CollectorState.Counted.step) counted_start
    hgood.init).last hs
  exact (hinv.collect (hgood.last hs hstep) hstep).2

def demoName : Text := "access.log".toList

/-- Two requests of one bucket, in the common log format. -/
def demoLine : List UInt8 :=
  ("- [14/Jun/2026:10:00:02 +0000] \"GET /\" 404 89 \"-\"\n".toList.map (UInt8.ofNat ·.toNat))

/-- The first request is cut behind its time. -/
def demoCut : List UInt8 × List UInt8 := (demoLine.take 30, demoLine.drop 30)

def demoKey : BucketKey := ⟨63917028000, "default".toList⟩

def demoCounted : Counters := ⟨1, 89, 0, 0, 1, 0⟩

theorem collect_counts_once_demo :
    ∃ t, run CollectorState.step .start
      [.append demoName demoLine,
        .collect [⟨demoName, demoLine⟩] [⟨demoKey, demoCounted⟩]] = some t ∧ t.Exact := by
  have hsome : (run CollectorState.step .start
      [.append demoName demoLine,
        .collect [⟨demoName, demoLine⟩] [⟨demoKey, demoCounted⟩]]).isSome = true := by
    decide +kernel
  obtain ⟨t, ht⟩ := Option.isSome_iff_exists.mp hsome
  exact ⟨t, ht, collect_counts_once _ (by decide +kernel) [.append demoName demoLine] _ _ t rfl ht⟩

/-- A pass between two writes of one line counts the first half as a request
without status and size, and the second half never. -/
theorem cut_line_is_miscounted :
    ∃ t, run CollectorState.step .start
        [.append demoName demoCut.1,
          .collect [⟨demoName, demoCut.1⟩] [⟨demoKey, ⟨1, 0, 0, 0, 0, 0⟩⟩],
          .append demoName demoCut.2, .collect [⟨demoName, demoLine⟩] []] = some t ∧
      t.files = [⟨demoName, demoLine⟩] ∧ Terminated demoLine ∧ ¬ t.Exact := by
  have hrun : (run CollectorState.step .start
      [.append demoName demoCut.1,
        .collect [⟨demoName, demoCut.1⟩] [⟨demoKey, ⟨1, 0, 0, 0, 0, 0⟩⟩],
        .append demoName demoCut.2, .collect [⟨demoName, demoLine⟩] []]).map
      (fun t => (t.files, t.table demoKey, tally demoKey t.hits)) =
      some ([⟨demoName, demoLine⟩], ⟨1, 0, 0, 0, 0, 0⟩, demoCounted) := by decide +kernel
  obtain ⟨t, ht, hpair⟩ := Option.map_eq_some_iff.mp hrun
  simp only [Prod.mk.injEq] at hpair
  obtain ⟨hfiles, htable, htally⟩ := hpair
  refine ⟨t, ht, hfiles, by decide +kernel, ?_⟩
  intro hexact
  have hkey := hexact demoKey
  rw [htable, htally] at hkey
  exact absurd hkey (by decide)

end GoSite.Observability
