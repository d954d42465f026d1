import GoSite.GuardedRuns
import GoSite.LineScanner

/-!
# Incremental ingest of a log file

A pass stats the file, scans it from the cursor on and stores one event per line
that is not blank; a second event of the same line is ignored. The new offset is
not asked from the file. It is added up from the tokens, one byte more for each.
-/
namespace GoSite.Observability
open GuardedRuns LineScanner

/-- `strings.TrimSpace` leaves nothing: only UTF-8 encodings of white space. -/
def isBlank : List UInt8 → Bool
  | [] => true
  | b :: rest =>
      if (9 ≤ b ∧ b ≤ 13) ∨ b = 32 then isBlank rest
      else match b, rest with
        | 0xC2, c :: rest => (c = 0x85 ∨ c = 0xA0) && isBlank rest
        | 0xE1, 0x9A :: 0x80 :: rest => isBlank rest
        | 0xE2, 0x80 :: c :: rest =>
            ((0x80 ≤ c ∧ c ≤ 0x8A) ∨ c = 0xA8 ∨ c = 0xA9 ∨ c = 0xAF) && isBlank rest
        | 0xE2, 0x81 :: 0x9F :: rest => isBlank rest
        | 0xE3, 0x80 :: 0x80 :: rest => isBlank rest
        | _, _ => false

/-- The limit given to `scanner.Buffer`. -/
def maxTokenSize : ℕ := 1024 * 1024

def logIngestBatchSize : ℕ := 256

/-- `logIngestCooldown`, in nanoseconds. -/
def logIngestCooldown : ℤ := 5 * 60 * 10 ^ 9

structure LogFileCursor where
  offset : ℕ
  size : ℕ
  modTime : ℤ
  deriving Repr, DecidableEq

/-- One log file, its cursor and the event table. An event is stood for by the
line it was parsed from: the unique column is a digest of it. -/
structure IngestState where
  content : List UInt8
  modTime : ℤ
  cursor : Option LogFileCursor
  lastIngest : Option ℤ
  stored : List Line
  deriving Repr, DecidableEq

/-- An ingestor that has not seen an empty file. -/
def IngestState.start : IngestState := ⟨[], 0, none, none, []⟩

inductive IngestStep where
  /-- The writer appends bytes. -/
  | append (bytes : List UInt8) (modTime : ℤ)
  /-- A pass, with the bytes appended between its `Stat` and the end of its scan. -/
  | ingest (now ended : ℤ) (during : List UInt8) (modTime : ℤ)
  deriving Repr, DecidableEq

/-- `hasChangedFile` for the one file. -/
def IngestState.hasChangedFile (s : IngestState) : Bool :=
  match s.lastIngest, s.cursor with
  | none, _ => true
  | some _, none => true
  | some _, some cur => s.content.length ≠ cur.size ∨ s.modTime > cur.modTime

/-- The test at the start of `Ingest`. -/
def IngestState.skips (s : IngestState) (now : ℤ) : Bool :=
  match s.lastIngest with
  | none => false
  | some last => now - last < logIngestCooldown ∧ ¬ s.hasChangedFile

/-- `nextOffset`: a cursor that cannot belong to the file is dropped. -/
def IngestState.nextOffset (s : IngestState) : Option LogFileCursor × ℕ :=
  match s.cursor with
  | none => (none, 0)
  | some cur =>
      if s.content.length < cur.offset ∨ s.modTime < cur.modTime then (none, 0)
      else (some cur, cur.offset)

/-- `InsertIgnoreBatch`. -/
def insertIgnoreBatch (stored : List Line) (events : List Line) : List Line :=
  events.foldl (fun stored e => if e ∈ stored then stored else stored ++ [e]) stored

/-- The tokens of a scan. A line that does not fit the buffer ends it. -/
def scanTokens (xs : List UInt8) : List Line :=
  ((rawLines xs).takeWhile fun l => l.length < maxTokenSize).map dropCR

/-- The lines of a scan that become events. -/
def eventLines (tokens : List Line) : List Line := tokens.filter fun l => ¬ isBlank l

/-- The bytes a pass has not read before. -/
def IngestState.unread (s : IngestState) (during : List UInt8) : List UInt8 :=
  (s.content ++ during).drop s.nextOffset.2

/-- The file at the end of a scan. -/
def IngestState.grow (s : IngestState) (during : List UInt8) (modTime : ℤ) : IngestState :=
  if during = [] then s else { s with content := s.content ++ during, modTime := modTime }

/-- `ingestFile` and the flush after it. After an error in the scan the cursor
stays and only the full batches are in. -/
def IngestState.ingestFile (s : IngestState) (ended : ℤ) (during : List UInt8) (modTime : ℤ) :
    Option IngestState :=
  let size := s.content.length
  let start := s.nextOffset.2
  if start ≥ size then
    if during = [] then
      some { s with cursor := some ⟨size, size, s.modTime⟩, lastIngest := some ended }
    else none
  else
    let tokens := scanTokens (s.unread during)
    let events := eventLines tokens
    if tokens.length < (rawLines (s.unread during)).length then
      let flushed := events.take (events.length / logIngestBatchSize * logIngestBatchSize)
      some { s.grow during modTime with
        cursor := s.nextOffset.1
        stored := insertIgnoreBatch s.stored flushed }
    else
      let offset := start + (tokens.map fun l => l.length + 1).sum
      some { s.grow during modTime with
        cursor := some ⟨offset, size, s.modTime⟩
        lastIngest := some ended
        stored := insertIgnoreBatch s.stored events }

/-- Bytes that are appended during a pass that reads nothing count as appended
after it. -/
def IngestState.step (s : IngestState) : IngestStep → Option IngestState
  | .append bytes modTime => some { s with content := s.content ++ bytes, modTime := modTime }
  | .ingest now ended during modTime =>
      if s.skips now then (if during = [] then some s else none)
      else s.ingestFile ended during modTime

/-- The stored cursor is at a line boundary of the file. -/
def IngestState.CursorAtBoundary (s : IngestState) : Prop :=
  ∀ cur, s.cursor = some cur →
    cur.offset ≤ s.content.length ∧ Terminated (s.content.take cur.offset)

/-- Each line of the file that is complete and not blank is stored once, and
nothing else is. -/
def IngestState.StoredExactly (s : IngestState) : Prop :=
  s.stored.Nodup ∧ ∀ e, e ∈ s.stored ↔
    ∃ l, IsCompleteLine s.content l ∧ isBlank (dropCR l) = false ∧ e = dropCR l

/-- No line of the file fills the scanner's buffer. -/
def IngestState.ShortLines (s : IngestState) : IngestStep → Prop
  | .append _ _ => True
  | .ingest _ _ during _ => ∀ l ∈ rawLines (s.unread during), l.length < maxTokenSize

instance (s : IngestState) (a : IngestStep) : Decidable (s.ShortLines a) :=
  match a with
  | .append _ _ => .isTrue trivial
  | .ingest _ _ during _ =>
      inferInstanceAs (Decidable (∀ l ∈ rawLines (s.unread during), l.length < maxTokenSize))

/-- What a pass reads ends with a line feed and has no line ending in a carriage
return. -/
def IngestState.ReadsWholeLines (s : IngestState) : IngestStep → Prop
  | .append _ _ => True
  | .ingest _ _ during _ =>
      Terminated (s.unread during) ∧
        ∀ l ∈ rawLines (s.unread during), l.getLast? ≠ some cr

instance (s : IngestState) (a : IngestStep) : Decidable (s.ReadsWholeLines a) :=
  match a with
  | .append _ _ => .isTrue trivial
  | .ingest _ _ _ _ => inferInstanceAs (Decidable (_ ∧ _))

theorem mem_insertIgnoreBatch (stored events : List Line) (e : Line) :
    e ∈ insertIgnoreBatch stored events ↔ e ∈ stored ∨ e ∈ events := by
  unfold insertIgnoreBatch
  induction events generalizing stored with
  | nil => simp
  | cons f events ih =>
      rw [List.foldl_cons, ih]
      split_ifs with h
      · simp only [List.mem_cons]
        constructor
        · tauto
        · rintro (h' | rfl | h')
          · exact Or.inl h'
          · exact Or.inl h
          · exact Or.inr h'
      · simp only [List.mem_append, List.mem_cons, List.not_mem_nil]
        tauto

theorem nodup_insertIgnoreBatch {stored : List Line} (h : stored.Nodup) (events : List Line) :
    (insertIgnoreBatch stored events).Nodup := by
  unfold insertIgnoreBatch
  induction events generalizing stored with
  | nil => exact h
  | cons f events ih =>
      rw [List.foldl_cons]
      apply ih
      split_ifs with hf
      · exact h
      · rw [List.nodup_append]
        refine ⟨h, by simp, ?_⟩
        rintro a ha b hb rfl
        exact hf (List.mem_singleton.mp hb ▸ ha)

/-- Up to the cursor the file is made of whole lines and its events are stored. -/
structure IngestState.UpToCursor (s : IngestState) : Prop where
  nodup : s.stored.Nodup
  fresh : s.cursor = none → s.stored = []
  offset_le : ∀ cur, s.cursor = some cur → cur.offset ≤ s.content.length
  size_le : ∀ cur, s.cursor = some cur → cur.size ≤ cur.offset
  whole : ∀ cur, s.cursor = some cur → Terminated (s.content.take cur.offset)
  mem_stored : ∀ cur, s.cursor = some cur → ∀ e,
    e ∈ s.stored ↔ e ∈ eventLines (scanLines (s.content.take cur.offset))

theorem IngestState.UpToCursor.cursorAtBoundary {s : IngestState} (h : s.UpToCursor) :
    s.CursorAtBoundary :=
  fun cur hcur => ⟨h.offset_le cur hcur, h.whole cur hcur⟩

theorem IngestState.start_upToCursor : IngestState.start.UpToCursor where
  nodup := List.nodup_nil
  fresh _ := rfl
  offset_le _ h := by cases h
  size_le _ h := by cases h
  whole _ h := by cases h
  mem_stored _ h := by cases h

/-- The whole file has been read. -/
def IngestState.CaughtUp (s : IngestState) : Prop :=
  ∃ cur, s.cursor = some cur ∧ cur.offset = s.content.length

theorem IngestState.UpToCursor.storedExactly {s : IngestState} (h : s.UpToCursor)
    (hc : s.CaughtUp) : s.StoredExactly := by
  obtain ⟨cur, hcur, hoff⟩ := hc
  have hwhole := h.whole cur hcur
  have hmem := h.mem_stored cur hcur
  rw [hoff, List.take_length] at hwhole hmem
  refine ⟨h.nodup, ?_⟩
  intro e
  rw [hmem]
  simp only [eventLines, scanLines, List.mem_filter, List.mem_map, mem_rawLines_iff hwhole]
  constructor
  · rintro ⟨⟨l, hl, rfl⟩, hblank⟩
    exact ⟨l, hl, by simpa using hblank, rfl⟩
  · rintro ⟨l, hl, hblank, rfl⟩
    exact ⟨⟨l, hl, rfl⟩, by simpa using hblank⟩

/-- The events of a file, read in one go. -/
def eventsOf (xs : List UInt8) : List Line := eventLines (scanLines xs)

theorem eventsOf_append {xs : List UInt8} (h : Terminated xs) (ys : List UInt8) :
    eventsOf (xs ++ ys) = eventsOf xs ++ eventsOf ys := by
  simp [eventsOf, eventLines, scanLines, rawLines_append h]

/-- Where a pass starts: at a line boundary, with the events before it stored
and no event stored that the file does not have. -/
structure IngestState.StartsAt (s : IngestState) (start : ℕ) : Prop where
  le_length : start ≤ s.content.length
  whole : Terminated (s.content.take start)
  stored_of_mem : ∀ e ∈ eventsOf (s.content.take start), e ∈ s.stored
  mem_of_stored : ∀ e ∈ s.stored, ∀ ys, e ∈ eventsOf (s.content ++ ys)

theorem IngestState.UpToCursor.startsAt {s : IngestState} (h : s.UpToCursor) :
    s.StartsAt s.nextOffset.2 := by
  have hreset : s.StartsAt 0 ↔ ∀ e ∈ s.stored, ∀ ys, e ∈ eventsOf (s.content ++ ys) := by
    refine ⟨fun h => h.mem_of_stored, fun h => ⟨Nat.zero_le _, Or.inl rfl, ?_, h⟩⟩
    simp [eventsOf, eventLines, scanLines]
  cases hcur : s.cursor with
  | none =>
      have hstart : s.nextOffset.2 = 0 := by simp [IngestState.nextOffset, hcur]
      rw [hstart, hreset, h.fresh hcur]
      simp
  | some cur =>
      have hmem := h.mem_stored cur hcur
      have hstored : ∀ e ∈ s.stored, ∀ ys, e ∈ eventsOf (s.content ++ ys) := by
        intro e he ys
        rw [← List.take_append_drop cur.offset s.content, List.append_assoc,
          eventsOf_append (h.whole cur hcur)]
        exact List.mem_append_left _ ((hmem e).mp he)
      by_cases hdrop : s.content.length < cur.offset ∨ s.modTime < cur.modTime
      · have hstart : s.nextOffset.2 = 0 := by simp [IngestState.nextOffset, hcur, hdrop]
        rw [hstart, hreset]
        exact hstored
      · have hstart : s.nextOffset.2 = cur.offset := by
          simp only [IngestState.nextOffset, hcur, if_neg hdrop]
        rw [hstart]
        exact ⟨h.offset_le cur hcur, h.whole cur hcur, fun e he => (hmem e).mpr he, hstored⟩

theorem IngestState.UpToCursor.append {s : IngestState} (h : s.UpToCursor) (bytes : List UInt8)
    (modTime : ℤ) :
    IngestState.UpToCursor { s with content := s.content ++ bytes, modTime := modTime } := by
  have htake : ∀ cur, s.cursor = some cur →
      (s.content ++ bytes).take cur.offset = s.content.take cur.offset := fun cur hcur =>
    List.take_append_of_le_length (h.offset_le cur hcur)
  refine ⟨h.nodup, h.fresh, ?_, h.size_le, ?_, ?_⟩
  · intro cur hcur
    have hle := h.offset_le cur hcur
    simp only [List.length_append]
    omega
  · intro cur hcur
    simpa only [htake cur hcur] using h.whole cur hcur
  · intro cur hcur
    simpa only [htake cur hcur] using h.mem_stored cur hcur

/-- A pass that is skipped has nothing to read. -/
theorem IngestState.UpToCursor.caughtUp_of_skips {s : IngestState} (h : s.UpToCursor)
    {now : ℤ} (hskip : s.skips now = true) : s.CaughtUp := by
  unfold IngestState.skips at hskip
  cases hlast : s.lastIngest with
  | none => simp [hlast] at hskip
  | some last =>
      simp only [hlast, Bool.not_eq_true, decide_eq_true_eq] at hskip
      cases hcur : s.cursor with
      | none => simp [IngestState.hasChangedFile, hlast, hcur] at hskip
      | some cur =>
          have hsize : s.content.length = cur.size := by
            by_contra hne
            simp [IngestState.hasChangedFile, hlast, hcur, hne] at hskip
          have hle := h.size_le cur hcur
          have hoff := h.offset_le cur hcur
          exact ⟨cur, hcur, by omega⟩

/-- Tokens of whole lines without carriage returns take up what was read. -/
theorem scanTokens_of_whole {xs : List UInt8} (hwhole : Terminated xs)
    (hcr : ∀ l ∈ rawLines xs, l.getLast? ≠ some cr)
    (hshort : ∀ l ∈ rawLines xs, l.length < maxTokenSize) :
    scanTokens xs = scanLines xs ∧
      ((scanTokens xs).map fun l => l.length + 1).sum = xs.length ∧
      (scanTokens xs).length = (rawLines xs).length := by
  have hfit : (rawLines xs).takeWhile (fun l => l.length < maxTokenSize) = rawLines xs := by
    simpa [List.takeWhile_eq_self_iff] using hshort
  have hscan : scanTokens xs = scanLines xs := by rw [scanTokens, hfit, scanLines]
  have hsame : scanLines xs = rawLines xs := by
    unfold scanLines
    conv_rhs => rw [← List.map_id (rawLines xs)]
    exact List.map_congr_left fun l hl => dropCR_eq_self (hcr l hl)
  rw [hscan, hsame]
  exact ⟨rfl, sum_rawLines_length hwhole, rfl⟩

theorem grow_content (s : IngestState) (during : List UInt8) (modTime : ℤ) :
    (s.grow during modTime).content = s.content ++ during := by
  unfold IngestState.grow
  split_ifs with h
  · simp [h]
  · rfl

/-- A state whose cursor is at the end of a file of whole lines. -/
theorem upToCursor_of_end {s : IngestState} (size : ℕ) (modTime : ℤ)
    (hcur : s.cursor = some ⟨s.content.length, size, modTime⟩) (hsize : size ≤ s.content.length)
    (hnodup : s.stored.Nodup) (hwhole : Terminated s.content)
    (hmem : ∀ e, e ∈ s.stored ↔ e ∈ eventsOf s.content) : s.UpToCursor ∧ s.CaughtUp := by
  have hsome : ∀ cur, s.cursor = some cur → cur = ⟨s.content.length, size, modTime⟩ := by
    intro cur h
    rw [hcur, Option.some.injEq] at h
    exact h.symm
  refine ⟨⟨hnodup, by simp [hcur], ?_, ?_, ?_, ?_⟩, _, hcur, rfl⟩
  · intro cur h
    simp [hsome cur h]
  · intro cur h
    simpa [hsome cur h] using hsize
  · intro cur h
    simpa [hsome cur h] using hwhole
  · intro cur h
    simpa [hsome cur h, eventsOf] using hmem

/-- A pass that reads whole lines reads the file to its end. -/
theorem IngestState.UpToCursor.ingestFile {s t : IngestState} (h : s.UpToCursor)
    {ended modTime : ℤ} {during : List UInt8}
    (hwhole : Terminated (s.unread during))
    (hcr : ∀ l ∈ rawLines (s.unread during), l.getLast? ≠ some cr)
    (hshort : ∀ l ∈ rawLines (s.unread during), l.length < maxTokenSize)
    (ht : s.ingestFile ended during modTime = some t) : t.UpToCursor ∧ t.CaughtUp := by
  have hstart := h.startsAt
  obtain ⟨htok, hsum, hlen⟩ := scanTokens_of_whole hwhole hcr hshort
  have hsplit : s.content ++ during = s.content.take s.nextOffset.2 ++ s.unread during := by
    rw [IngestState.unread, List.drop_append_of_le_length hstart.le_length,
      ← List.append_assoc, List.take_append_drop]
  unfold IngestState.ingestFile at ht
  simp only at ht
  split_ifs at ht with hend hduring hlong
  · -- nothing to read: the cursor is set to the end of the file
    simp only [Option.some.injEq] at ht
    subst ht
    have heq : s.nextOffset.2 = s.content.length := Nat.le_antisymm hstart.le_length hend
    have hall := hstart.whole
    have hmem := hstart.stored_of_mem
    rw [heq, List.take_length] at hall hmem
    refine upToCursor_of_end _ _ rfl (Nat.le_refl _) h.nodup hall ?_
    intro e
    refine ⟨fun he => ?_, hmem e⟩
    simpa using hstart.mem_of_stored e he []
  · exact absurd hlong (by omega)
  · have hmem : ∀ e, e ∈ insertIgnoreBatch s.stored (eventsOf (s.unread during)) ↔
        e ∈ eventsOf (s.content ++ during) := by
      intro e
      rw [mem_insertIgnoreBatch]
      constructor
      · rintro (he | he)
        · exact hstart.mem_of_stored e he during
        · rw [hsplit, eventsOf_append hstart.whole]
          exact List.mem_append_right _ he
      · intro he
        rw [hsplit, eventsOf_append hstart.whole] at he
        exact (List.mem_append.mp he).imp_left (hstart.stored_of_mem e)
    have hoff : s.nextOffset.2 + (s.unread during).length = (s.content ++ during).length := by
      rw [hsplit, List.length_append, List.length_take_of_le hstart.le_length]
    rw [hsum, hoff, htok, Option.some.injEq] at ht
    subst ht
    refine upToCursor_of_end s.content.length s.modTime ?_ ?_ ?_ ?_ ?_
    · simp [grow_content]
    · simp [grow_content]
    · exact nodup_insertIgnoreBatch h.nodup _
    · simp only [grow_content]
      rw [hsplit]
      exact hstart.whole.append hwhole
    · simp only [grow_content]
      exact hmem

/-- A good pass keeps the invariant and reads the file to its end. -/
theorem IngestState.UpToCursor.ingest {s t : IngestState} (h : s.UpToCursor) {now ended : ℤ}
    {during : List UInt8} {modTime : ℤ}
    (hshort : s.ShortLines (.ingest now ended during modTime))
    (hgood : s.ReadsWholeLines (.ingest now ended during modTime))
    (ht : s.step (.ingest now ended during modTime) = some t) : t.UpToCursor ∧ t.CaughtUp := by
  unfold IngestState.step at ht
  simp only at ht
  split_ifs at ht with hskip hduring
  · simp only [Option.some.injEq] at ht
    subst ht
    exact ⟨h, h.caughtUp_of_skips hskip⟩
  · exact h.ingestFile hgood.1 hgood.2 hshort ht

theorem IngestState.UpToCursor.step {s t : IngestState} {a : IngestStep} (h : s.UpToCursor)
    (hshort : s.ShortLines a) (hgood : s.ReadsWholeLines a) (ht : s.step a = some t) :
    t.UpToCursor := by
  cases a with
  | append bytes modTime =>
      simp only [IngestState.step, Option.some.injEq] at ht
      subst ht
      exact h.append bytes modTime
  | ingest now ended during modTime => exact (h.ingest hshort hgood ht).1

/-- While every pass reads whole lines without carriage returns, the cursor
stays at line boundaries and after a pass the stored events are the complete
lines that are not blank, each once. -/
theorem ingest_exactly_once (steps : List IngestStep)
    (hshort : Guarded IngestState.step IngestState.ShortLines IngestState.start steps)
    (hgood : Guarded IngestState.step IngestState.ReadsWholeLines IngestState.start steps) :
    Along IngestState.step IngestState.CursorAtBoundary IngestState.start steps ∧
      ∀ before now ended during modTime t,
        steps = before ++ [.ingest now ended during modTime] →
        run IngestState.step IngestState.start steps = some t → t.StoredExactly := by
  have hstep := fun s a t (h : IngestState.UpToCursor s)
      (hg : s.ShortLines a ∧ s.ReadsWholeLines a) (ht : s.step a = some t) =>
    h.step hg.1 hg.2 ht
  have hguarded := hshort.and hgood
  refine ⟨?_, ?_⟩
  · exact (along_of_guarded hstep IngestState.start_upToCursor hguarded).mono
      fun s h => h.cursorAtBoundary
  · rintro before now ended during modTime t rfl ht
    rw [run_append] at ht
    obtain ⟨s, hs, ht⟩ := Option.bind_eq_some_iff.mp ht
    have hlast : s.step (.ingest now ended during modTime) = some t := by
      simpa using ht
    have hinv := (along_of_guarded hstep IngestState.start_upToCursor hguarded.init).last hs
    obtain ⟨hup, hcaught⟩ :=
      hinv.ingest (hshort.last hs hlast) (hgood.last hs hlast) hlast
    exact hup.storedExactly hcaught

/-- A pass over one line, and a pass after a second one. -/
def demoSteps : List IngestStep :=
  [.append [97, 10] 1, .ingest 10 11 [] 1, .append [98, 10] 2, .ingest 20 21 [] 2]

theorem ingest_demo :
    Along IngestState.step IngestState.CursorAtBoundary IngestState.start demoSteps ∧
      ∀ before now ended during modTime t,
        demoSteps = before ++ [.ingest now ended during modTime] →
        run IngestState.step IngestState.start demoSteps = some t → t.StoredExactly :=
  ingest_exactly_once demoSteps (by decide) (by decide)

/-- `ab`, `cd` and `ef` with carriage returns before their line feeds. -/
def crlfLines : List UInt8 := [97, 98, 13, 10, 99, 100, 13, 10, 101, 102, 13, 10]

/-- The first pass leaves the cursor in front of the `f` of the third line. The
second one, after `gh` and a line feed, stores the event `f`. -/
theorem ingest_drifts_on_crlf :
    ∃ s t, run IngestState.step IngestState.start
        [.append crlfLines 1, .ingest 10 11 [] 1] = some s ∧ ¬ s.CursorAtBoundary ∧
      run IngestState.step s [.append [103, 104, 10] 2, .ingest 20 21 [] 2] = some t ∧
      Terminated t.content ∧ ¬ t.StoredExactly := by
  have hrun : run IngestState.step IngestState.start
      [.append crlfLines 1, .ingest 10 11 [] 1] =
      some ⟨crlfLines, 1, some ⟨9, 12, 1⟩, some 11, [[97, 98], [99, 100], [101, 102]]⟩ := by
    decide
  refine ⟨_, _, hrun, ?_, rfl, ?_, ?_⟩
  · intro hcur
    exact absurd (hcur ⟨9, 12, 1⟩ rfl).2 (by decide)
  · decide
  · rintro ⟨-, hstored⟩
    obtain ⟨l, hl, -, hf⟩ := (hstored [102]).mp (by decide)
    have hmem := (mem_rawLines_iff (by decide) l).mpr hl
    have hnone : ∀ l ∈ rawLines (crlfLines ++ [103, 104, 10]), [102] ≠ dropCR l := by decide
    exact hnone l hmem hf

end GoSite.Observability
