import GoSite.QueryService
import GoSite.TrafficCollector

/-!
# Ingest passes whose inserts fail

A pass reads the log files of a directory one after the other and inserts the
lines of each in batches. A file's cursor moves in memory once the file is read,
which is before the lines of its last batch are inserted. The cursors reach the
cursor file at the end of a pass that succeeds.
-/
namespace GoSite.Observability
open AccessLines GoStrings GoTimes GuardedRuns LineScanner

structure GrowingLog where
  content : List UInt8
  modTime : ℤ
  deriving Repr, DecidableEq

/-- What the unique column is a digest of. -/
structure LineKey where
  source : LogSource
  site : Text
  line : Line
  deriving Repr, DecidableEq

abbrev Cursors := AList fun _ : Text => LogFileCursor

/-- The log directory, the ingestor's memory, its cursor file and the keys of the
event table. A cursor file that is not there has no cursors. -/
structure LogIngestor where
  files : AList fun _ : Text => GrowingLog
  cursors : Cursors
  cursorF : Cursors
  lastIngest : Option ℤ
  stored : List LineKey

/-- An ingestor that has not seen the files of its directory. -/
def LogIngestor.start (files : AList fun _ : Text => GrowingLog) : LogIngestor :=
  ⟨files, ∅, ∅, none, []⟩

/-- Where a call of `InsertIgnoreBatch` fails. -/
inductive InsertFault where
  | beginTx
  | prepare
  | exec (row : ℕ)
  | commit
  deriving Repr, DecidableEq

/-- What goes on around a pass: its clock, the bytes appended to each file between
its `Stat` and the end of its scan, the inserts that fail (of a file's full
batches, and of what is left after its scan), and whether the cursor file is
written. -/
structure IngestPass where
  now : ℤ
  ended : ℤ
  during : Text → List UInt8 × ℤ
  batchFault : Text → ℕ → Option InsertFault
  restFault : Text → Option InsertFault
  persists : Bool

def logSourceAndSite (name : Text) : Option (LogSource × Text) :=
  if name = "access.log".toList then some (.access, "default".toList)
  else if name = "error.log".toList then some (.error, "default".toList)
  else if "access-".toList <+: name ∧ ".log".toList <:+ name then
    some (.access, trimSuffix (trimPrefix name "access-".toList) ".log".toList)
  else if "error-".toList <+: name ∧ ".log".toList <:+ name then
    some (.error, trimSuffix (trimPrefix name "error-".toList) ".log".toList)
  else none

/-- The test the loops over the directory begin with. -/
def logEntry (name : Text) : Option (LogSource × Text) :=
  if ".log".toList <:+ name then logSourceAndSite name else none

/-- The statements of a batch, on the rows its transaction sees. -/
@[grind]
def execRows (fault : Option InsertFault) : ℕ → List LineKey → List LineKey → Option (List LineKey)
  | _, rows, [] => some rows
  | n, rows, ev :: events =>
      if fault = some (.exec n) then none
      else execRows fault (n + 1) (if ev ∈ rows then rows else rows ++ [ev]) events

/-- `InsertIgnoreBatch`: nothing stands for an error and a rollback. -/
def insertBatch (fault : Option InsertFault) (rows events : List LineKey) :
    Option (List LineKey) :=
  if events = [] then some rows
  else if fault = some .beginTx ∨ fault = some .prepare then none
  else
    match execRows fault 0 rows events with
    | none => none
    | some rows => if fault = some .commit then none else some rows

/-- The table, the events of a file not yet inserted and the number of its
batches that are. -/
structure Batching where
  stored : List LineKey
  pending : List LineKey
  flushed : ℕ

/-- `flush`. An error comes with the rows the table is left with. -/
def Batching.flush (b : Batching) (fault : Option InsertFault) :
    Except (List LineKey) Batching :=
  if b.pending = [] then .ok b
  else
    match insertBatch fault b.stored b.pending with
    | none => .error b.stored
    | some rows => .ok ⟨rows, [], b.flushed + 1⟩

/-- The function `ingestFile` hands its events to. -/
def Batching.emit (b : Batching) (fault : ℕ → Option InsertFault) (ev : LineKey) :
    Except (List LineKey) Batching :=
  let b := { b with pending := b.pending ++ [ev] }
  if logIngestBatchSize ≤ b.pending.length then b.flush (fault b.flushed) else .ok b

/-- The loop over the tokens of a file. -/
@[grind] def emitLines (fault : ℕ → Option InsertFault) (src : LogSource × Text) :
    List Line → Batching → Except (List LineKey) Batching
  | [], b => .ok b
  | token :: tokens, b =>
      if isBlank token then emitLines fault src tokens b
      else
        match b.emit fault ⟨src.1, src.2, token⟩ with
        | .error rows => .error rows
        | .ok b => emitLines fault src tokens b

namespace LogIngestor

/-- `loadCursorsLocked`, when there are no cursors in memory. -/
def loadCursors (s : LogIngestor) : LogIngestor :=
  if s.cursors.keys = [] then { s with cursors := s.cursorF } else s

def rememberCursor (s : LogIngestor) (name : Text) (cur : LogFileCursor) : LogIngestor :=
  { s with cursors := s.cursors.insert name cur }

def forgetCursor (s : LogIngestor) (name : Text) : LogIngestor :=
  { s with cursors := s.cursors.erase name }

def nextOffset (s : LogIngestor) (name : Text) (f : GrowingLog) : LogIngestor × ℕ :=
  let s := s.loadCursors
  match s.cursors.lookup name with
  | none => (s, 0)
  | some cur =>
      if f.content.length < cur.offset ∨ f.modTime < cur.modTime then (s.forgetCursor name, 0)
      else (s, cur.offset)

/-- `hasChangedFile`. -/
def hasChangedFile (s : LogIngestor) (entries : List Text) : LogIngestor × Bool :=
  match s.lastIngest with
  | none => (s, true)
  | some _ =>
      let s := s.loadCursors
      (s, entries.any fun name =>
        match logEntry name, s.files.lookup name with
        | some _, some f =>
            match s.cursors.lookup name with
            | none => true
            | some cur => f.content.length ≠ cur.size ∨ f.modTime > cur.modTime
        | _, _ => false)

/-- A file after more bytes are written to it. -/
def grow (s : LogIngestor) (name : Text) (bytes : List UInt8) (modTime : ℤ) : LogIngestor :=
  match s.files.lookup name with
  | none => s
  | some f =>
      if bytes = [] then s
      else { s with files := s.files.insert name ⟨f.content ++ bytes, modTime⟩ }

/-- The bytes of a file behind its cursor at the end of a scan. -/
def unread (s : LogIngestor) (pass : IngestPass) (name : Text) (f : GrowingLog) : List UInt8 :=
  (f.content ++ (pass.during name).1).drop (s.nextOffset name f).2

/-- The ingestor while it scans a file. -/
def scanning (s : LogIngestor) (pass : IngestPass) (name : Text) (f : GrowingLog) : LogIngestor :=
  (s.nextOffset name f).1.grow name (pass.during name).1 (pass.during name).2

/-- `ingestFile`, with the events it leaves pending. Bytes that are appended during
a pass that reads nothing of the file count as appended after it. -/
def ingestFile (s : LogIngestor) (pass : IngestPass) (name : Text) (src : LogSource × Text) :
    Except LogIngestor (LogIngestor × Batching) :=
  match s.files.lookup name with
  | none => .ok (s.forgetCursor name, ⟨s.stored, [], 0⟩)
  | some f =>
      let size := f.content.length
      let next := s.nextOffset name f
      if size ≤ next.2 then
        .ok (next.1.rememberCursor name ⟨size, size, f.modTime⟩, ⟨s.stored, [], 0⟩)
      else
        let unread := s.unread pass name f
        let s := s.scanning pass name f
        let tokens := scanTokens unread
        match emitLines (pass.batchFault name) src tokens ⟨s.stored, [], 0⟩ with
        | .error rows => .error { s with stored := rows }
        | .ok b =>
            if tokens.length < (rawLines unread).length then .error { s with stored := b.stored }
            else
              let offset := next.2 + (tokens.map fun l => l.length + 1).sum
              .ok (s.rememberCursor name ⟨offset, size, f.modTime⟩, b)

/-- The loop body of `Ingest`. -/
def ingestEntry (s : LogIngestor) (pass : IngestPass) (name : Text) :
    Except LogIngestor LogIngestor :=
  match logEntry name with
  | none => .ok s
  | some src =>
      match s.ingestFile pass name src with
      | .error s => .error s
      | .ok (s, b) =>
          match b.flush (pass.restFault name) with
          | .error rows => .error { s with stored := rows }
          | .ok b => .ok { s with stored := b.stored }

@[grind]
def ingestEntries (pass : IngestPass) : List Text → LogIngestor → Except LogIngestor LogIngestor
  | [], s => .ok s
  | name :: entries, s =>
      match s.ingestEntry pass name with
      | .error s => .error s
      | .ok s => ingestEntries pass entries s

def pruneCursors (s : LogIngestor) (seen : List Text) : LogIngestor :=
  { s with
    cursors := s.cursors.keys.foldl
      (fun cursors path => if path ∈ seen then cursors else cursors.erase path) s.cursors }

def persistCursors (s : LogIngestor) (persists : Bool) : LogIngestor :=
  if s.cursors.keys = [] ∨ persists = false then s else { s with cursorF := s.cursors }

/-- `os.ReadDir`. -/
def readDir (s : LogIngestor) : List Text := s.files.keys.insertionSort (· ≤ ·)

/-- `Ingest`: the state it ends in, with an error or without. -/
def ingest (s : LogIngestor) (pass : IngestPass) : Except LogIngestor LogIngestor :=
  let entries := s.readDir
  let changed := s.hasChangedFile entries
  if s.lastIngest.any (fun last => pass.now - last < logIngestCooldown) ∧ changed.2 = false then
    .ok changed.1
  else
    match ingestEntries pass entries changed.1 with
    | .error t => .error t
    | .ok t =>
        let seen := entries.filter fun name => (logEntry name).isSome
        let t := { t with lastIngest := some pass.ended }
        .ok ((t.pruneCursors seen).persistCursors pass.persists)

end LogIngestor

/-- The state a pass leaves, whether or not it fails. -/
def ended : Except LogIngestor LogIngestor → LogIngestor
  | .error s => s
  | .ok s => s

inductive IngestorStep where
  /-- A log file appears. -/
  | create (name : Text) (file : GrowingLog)
  /-- The writer appends bytes. -/
  | append (name : Text) (bytes : List UInt8) (modTime : ℤ)
  /-- A new process starts on the same files. -/
  | restart
  | ingest (pass : IngestPass)

def LogIngestor.step (s : LogIngestor) : IngestorStep → Option LogIngestor
  | .create name file =>
      if name ∈ s.files then none else some { s with files := s.files.insert name file }
  | .append name bytes modTime =>
      match s.files.lookup name with
      | none => none
      | some f => some { s with files := s.files.insert name ⟨f.content ++ bytes, modTime⟩ }
  | .restart => some { s with cursors := ∅, lastIngest := none }
  | .ingest pass => some (ended (s.ingest pass))

/-- The file's cursors, in memory and in the cursor file. -/
def LogIngestor.HasCursor (s : LogIngestor) (name : Text) (cur : LogFileCursor) : Prop :=
  cur ∈ s.cursors.lookup name ∨ cur ∈ s.cursorF.lookup name

/-- No cursor of the file reaches into a last line that is not finished. -/
def LogIngestor.CursorsBehind (s : LogIngestor) (name : Text) : Prop :=
  ∀ f ∈ s.files.lookup name,
    (∀ cur ∈ s.cursors.lookup name, cur.offset ≤ (wholeLines f.content).length) ∧
      ∀ cur ∈ s.cursorF.lookup name, cur.offset ≤ (wholeLines f.content).length

instance (s : LogIngestor) (name : Text) : Decidable (s.CursorsBehind name) :=
  inferInstanceAs (Decidable (∀ f ∈ s.files.lookup name, _ ∧ _))

/-- A file grows only where its cursors leave the unfinished line to be read, and
the insert of what is left after a scan does not fail. -/
def LogIngestor.Harmless (s : LogIngestor) : IngestorStep → Prop
  | .create _ _ => True
  | .append name bytes _ => bytes = [] ∨ s.CursorsBehind name
  | .restart => True
  | .ingest pass => ∀ name ∈ s.files.keys,
      pass.restFault name = none ∧ ((pass.during name).1 = [] ∨ s.CursorsBehind name)

instance (s : LogIngestor) (a : IngestorStep) : Decidable (s.Harmless a) :=
  match a with
  | .create _ _ => .isTrue trivial
  | .append _ _ _ => inferInstanceAs (Decidable (_ ∨ _))
  | .restart => .isTrue trivial
  | .ingest pass => inferInstanceAs (Decidable (∀ name ∈ s.files.keys,
      pass.restFault name = none ∧ ((pass.during name).1 = [] ∨ s.CursorsBehind name)))

/-- Each complete line of a log file that is not blank is stored. -/
def LogIngestor.StoresCompleteLines (s : LogIngestor) : Prop :=
  ∀ name source site f, logEntry name = some (source, site) → s.files.lookup name = some f →
    ∀ l, IsCompleteLine f.content l → isBlank (dropCR l) = false →
      ⟨source, site, dropCR l⟩ ∈ s.stored

theorem execRows_spec {fault : Option InsertFault} {events : List LineKey} {n : ℕ}
    {rows rows' : List LineKey} (h : execRows fault n rows events = some rows') :
    rows ⊆ rows' ∧ events ⊆ rows' := by
  induction events generalizing n rows with
  | nil =>
      rw [execRows, Option.some.injEq] at h
      subst h
      exact ⟨List.Subset.refl _, List.nil_subset _⟩
  | cons ev events ih =>
      rw [execRows] at h
      split_ifs at h with hfault hmem
      · obtain ⟨hrows, hevents⟩ := ih h
        exact ⟨hrows, List.cons_subset.mpr ⟨hrows hmem, hevents⟩⟩
      · obtain ⟨hrows, hevents⟩ := ih h
        refine ⟨fun e he => hrows (List.mem_append_left _ he), List.cons_subset.mpr ⟨?_, hevents⟩⟩
        exact hrows (List.mem_append_right _ (List.mem_singleton.mpr rfl))

theorem execRows_of_no_fault (n : ℕ) (rows events : List LineKey) :
    execRows none n rows events ≠ none := by
  induction events generalizing n rows with
  | nil => simp [execRows]
  | cons ev events ih =>
      rw [execRows, if_neg (by simp)]
      exact ih _ _

/-- A batch that does not fail adds its events and keeps the others. -/
theorem insertBatch_spec {fault : Option InsertFault} {rows events rows' : List LineKey}
    (h : insertBatch fault rows events = some rows') : rows ⊆ rows' ∧ events ⊆ rows' := by
  rw [insertBatch] at h
  split_ifs at h with hempty hbegin hcommit
  · rw [Option.some.injEq] at h
    subst h
    simp [hempty]
  · cases hexec : execRows fault 0 rows events <;> simp [hexec] at h
  · cases hexec : execRows fault 0 rows events with
    | none => simp [hexec] at h
    | some done =>
        simp only [hexec, Option.some.injEq] at h
        exact h ▸ execRows_spec hexec

theorem insertBatch_of_no_fault (rows events : List LineKey) :
    insertBatch none rows events ≠ none := by
  rw [insertBatch]
  by_cases hempty : events = []
  · simp [hempty]
  · rw [if_neg hempty, if_neg (by simp)]
    cases hexec : execRows none 0 rows events with
    | none => exact absurd hexec (execRows_of_no_fault 0 rows events)
    | some done => simp

/-- A flush that does not fail leaves nothing pending. -/
theorem Batching.flush_ok {b c : Batching} {fault : Option InsertFault}
    (h : b.flush fault = .ok c) : b.stored ⊆ c.stored ∧ b.pending ⊆ c.stored := by
  rw [Batching.flush] at h
  split_ifs at h with hempty
  · cases h
    simp [hempty]
  · cases hbatch : insertBatch fault b.stored b.pending with
    | none => simp [hbatch] at h
    | some rows =>
        simp only [hbatch, Except.ok.injEq] at h
        subst h
        exact insertBatch_spec hbatch

theorem Batching.flush_error {b : Batching} {fault : Option InsertFault} {rows : List LineKey}
    (h : b.flush fault = .error rows) : rows = b.stored ∧ fault ≠ none := by
  rw [Batching.flush] at h
  split_ifs at h with hempty
  cases hbatch : insertBatch fault b.stored b.pending with
  | none =>
      simp only [hbatch, Except.error.injEq] at h
      refine ⟨h.symm, ?_⟩
      rintro rfl
      exact insertBatch_of_no_fault _ _ hbatch
  | some rows => simp [hbatch] at h

/-- Nothing the batching was given is lost. -/
def Batching.Holds (b : Batching) (ev : LineKey) : Prop := ev ∈ b.stored ∨ ev ∈ b.pending

theorem Batching.emit_ok {b c : Batching} {fault : ℕ → Option InsertFault} {ev : LineKey}
    (h : b.emit fault ev = .ok c) :
    b.stored ⊆ c.stored ∧ (∀ e, b.Holds e → c.Holds e) ∧ c.Holds ev := by
  simp only [Batching.emit] at h
  split_ifs at h with hfull
  · obtain ⟨hstored, hpending⟩ := Batching.flush_ok h
    refine ⟨hstored, ?_, Or.inl (hpending (by simp))⟩
    rintro e (he | he)
    · exact Or.inl (hstored he)
    · exact Or.inl (hpending (List.mem_append_left _ he))
  · cases h
    refine ⟨List.Subset.refl _, ?_, Or.inr (by simp)⟩
    rintro e (he | he)
    · exact Or.inl he
    · exact Or.inr (List.mem_append_left _ he)

theorem Batching.emit_error {b : Batching} {fault : ℕ → Option InsertFault} {ev : LineKey}
    {rows : List LineKey} (h : b.emit fault ev = .error rows) : rows = b.stored := by
  simp only [Batching.emit] at h
  split_ifs at h with hfull
  exact (Batching.flush_error h).1

/-- A scan whose inserts succeed holds an event for each line that is not blank. -/
theorem emitLines_ok {fault : ℕ → Option InsertFault} {src : LogSource × Text}
    {tokens : List Line} {b c : Batching} (h : emitLines fault src tokens b = .ok c) :
    b.stored ⊆ c.stored ∧ (∀ e, b.Holds e → c.Holds e) ∧
      ∀ l ∈ eventLines tokens, c.Holds ⟨src.1, src.2, l⟩ := by
  induction tokens generalizing b with
  | nil =>
      rw [emitLines] at h
      cases h
      exact ⟨List.Subset.refl _, fun _ he => he, by simp [eventLines]⟩
  | cons token tokens ih =>
      rw [emitLines] at h
      split_ifs at h with hblank
      · obtain ⟨hstored, hholds, hlines⟩ := ih h
        refine ⟨hstored, hholds, ?_⟩
        simpa [eventLines, hblank] using hlines
      · cases hemit : b.emit fault ⟨src.1, src.2, token⟩ with
        | error rows => simp [hemit] at h
        | ok d =>
            simp only [hemit] at h
            obtain ⟨hstored, hholds, hev⟩ := Batching.emit_ok hemit
            obtain ⟨hstored', hholds', hlines⟩ := ih h
            refine ⟨fun e he => hstored' (hstored he), fun e he => hholds' e (hholds e he), ?_⟩
            intro l hl
            rw [eventLines, List.filter_cons_of_pos (by simpa using hblank)] at hl
            rcases List.mem_cons.mp hl with rfl | hl
            · exact hholds' _ hev
            · exact hlines l hl

theorem emitLines_error {fault : ℕ → Option InsertFault} {src : LogSource × Text}
    {tokens : List Line} {b : Batching} {rows : List LineKey}
    (h : emitLines fault src tokens b = .error rows) : b.stored ⊆ rows := by
  induction tokens generalizing b with
  | nil => cases h
  | cons token tokens ih =>
      rw [emitLines] at h
      split_ifs at h with hblank
      · exact ih h
      · cases hemit : b.emit fault ⟨src.1, src.2, token⟩ with
        | error rows' =>
            simp only [hemit, Except.error.injEq] at h
            subst h
            rw [Batching.emit_error hemit]
            exact List.Subset.refl _
        | ok d =>
            simp only [hemit] at h
            obtain ⟨hstored, -, -⟩ := Batching.emit_ok hemit
            exact fun e he => ih h (hstored he)

/-- A scan that does not end early hands out all tokens. -/
theorem scanTokens_of_all {xs : List UInt8}
    (h : ¬ (scanTokens xs).length < (rawLines xs).length) : scanTokens xs = scanLines xs := by
  rw [scanTokens, List.length_map] at h
  have hfit := (List.takeWhile_prefix (fun l : Line => l.length < maxTokenSize)
    (l := rawLines xs)).eq_of_length_le (Nat.not_lt.mp h)
  rw [scanTokens, hfit, scanLines]

/-- The events of the complete lines of a file are stored. -/
def StoredOf (src : LogSource × Text) (content : List UInt8) (stored : List LineKey) : Prop :=
  ∀ l ∈ eventsOf (wholeLines content), ⟨src.1, src.2, l⟩ ∈ stored

theorem StoredOf.mono {src : LogSource × Text} {content : List UInt8}
    {stored stored' : List LineKey} (h : StoredOf src content stored) (hsub : stored ⊆ stored') :
    StoredOf src content stored' :=
  fun l hl => hsub (h l hl)

/-- A scan from here on misses no complete line: every one is stored already, or
the lines up to a boundary at the offset or behind it are. -/
def Resumes (src : LogSource × Text) (content : List UInt8) (stored : List LineKey)
    (offset : ℕ) : Prop :=
  StoredOf src content stored ∨
    ∃ read rest, content = read ++ rest ∧ Terminated read ∧ offset ≤ read.length ∧
      StoredOf src read stored

theorem resumes_zero (src : LogSource × Text) (content : List UInt8) (stored : List LineKey) :
    Resumes src content stored 0 :=
  Or.inr ⟨[], content, rfl, Or.inl rfl, Nat.zero_le _, by
    simp [StoredOf, eventsOf, eventLines, scanLines, wholeLines]⟩

theorem Resumes.mono {src : LogSource × Text} {content : List UInt8}
    {stored stored' : List LineKey} {offset : ℕ} (h : Resumes src content stored offset)
    (hsub : stored ⊆ stored') : Resumes src content stored' offset := by
  rcases h with h | ⟨read, rest, heq, hread, hoff, hstored⟩
  · exact Or.inl (h.mono hsub)
  · exact Or.inr ⟨read, rest, heq, hread, hoff, hstored.mono hsub⟩

/-- A place that no unfinished line lies before stays good when the file grows. -/
theorem Resumes.grow {src : LogSource × Text} {content : List UInt8} {stored : List LineKey}
    {offset : ℕ} (h : Resumes src content stored offset) {bytes : List UInt8}
    (hbytes : bytes = [] ∨ offset ≤ (wholeLines content).length) :
    Resumes src (content ++ bytes) stored offset := by
  rcases hbytes with rfl | hoff
  · simpa using h
  · rcases h with h | ⟨read, rest, rfl, hread, hle, hstored⟩
    · obtain ⟨tail, -, htail⟩ := exists_unfinished content
      have hwhole := terminated_wholeLines content
      refine Or.inr ⟨wholeLines content, tail ++ bytes, ?_, hwhole, hoff, ?_⟩
      · rw [← List.append_assoc, ← htail]
      · rwa [StoredOf, wholeLines_of_terminated hwhole]
    · exact Or.inr ⟨read, rest ++ bytes, List.append_assoc _ _ _, hread, hle, hstored⟩

/-- A scan to the end of the file completes what is stored. -/
theorem Resumes.scan {src : LogSource × Text} {content : List UInt8}
    {stored stored' : List LineKey} {start : ℕ} (h : Resumes src content stored start)
    (hsub : stored ⊆ stored')
    (hscan : ∀ l ∈ eventsOf (content.drop start), ⟨src.1, src.2, l⟩ ∈ stored') :
    StoredOf src content stored' := by
  rcases h with h | ⟨read, rest, rfl, hread, hle, hstored⟩
  · exact h.mono hsub
  · intro l hl
    rw [wholeLines_append hread, eventsOf_append hread] at hl
    rcases List.mem_append.mp hl with hl | hl
    · rw [StoredOf, wholeLines_of_terminated hread] at hstored
      exact hsub (hstored l hl)
    · refine hscan l ?_
      rw [eventsOf, eventLines, scanLines, List.mem_filter, List.mem_map] at hl ⊢
      obtain ⟨⟨raw, hraw, rfl⟩, hblank⟩ := hl
      exact ⟨⟨raw, mem_rawLines_drop hread hle hraw, rfl⟩, hblank⟩

/-- What is known of a cursor of a file. -/
structure Follows (src : LogSource × Text) (content : List UInt8) (stored : List LineKey)
    (cur : LogFileCursor) : Prop where
  size_le : cur.size ≤ content.length
  caught_up : cur.size = content.length → StoredOf src content stored
  resumes : Resumes src content stored cur.offset

theorem Follows.mono {src : LogSource × Text} {content : List UInt8}
    {stored stored' : List LineKey} {cur : LogFileCursor} (h : Follows src content stored cur)
    (hsub : stored ⊆ stored') : Follows src content stored' cur :=
  ⟨h.size_le, fun hsize => (h.caught_up hsize).mono hsub, h.resumes.mono hsub⟩

theorem Follows.grow {src : LogSource × Text} {content : List UInt8} {stored : List LineKey}
    {cur : LogFileCursor} (h : Follows src content stored cur) {bytes : List UInt8}
    (hbytes : bytes = [] ∨ cur.offset ≤ (wholeLines content).length) :
    Follows src (content ++ bytes) stored cur := by
  have hsize := h.size_le
  refine ⟨?_, ?_, h.resumes.grow hbytes⟩
  · rw [List.length_append]
    omega
  · intro heq
    have hnil : bytes = [] := by
      rw [List.length_append] at heq
      exact List.length_eq_zero_iff.mp (by omega)
    rw [hnil, List.append_nil] at heq ⊢
    exact h.caught_up heq

theorem follows_of_storedOf {src : LogSource × Text} {content : List UInt8}
    {stored : List LineKey} (h : StoredOf src content stored) {cur : LogFileCursor}
    (hsize : cur.size ≤ content.length) : Follows src content stored cur :=
  ⟨hsize, fun _ => h, Or.inl h⟩

namespace LogIngestor

/-- What is known of the cursors of a file holds of all of them. -/
def Sound (s : LogIngestor) : Prop :=
  ∀ name cur, s.HasCursor name cur →
    ∃ f ∈ s.files.lookup name, ∀ src ∈ logEntry name, Follows src f.content s.stored cur

/-- The complete lines of the file are stored. -/
def CaughtUp (s : LogIngestor) (name : Text) : Prop :=
  ∀ src ∈ logEntry name, ∀ f ∈ s.files.lookup name, StoredOf src f.content s.stored

/-- The same directory and table with no cursor that was not there. -/
structure Forgets (s t : LogIngestor) : Prop where
  files : t.files = s.files
  stored : t.stored = s.stored
  cursors : ∀ name cur, t.HasCursor name cur → s.HasCursor name cur

/-- More may be stored, and only the file and the cursors of the name differ. -/
structure OnlyAt (name : Text) (s t : LogIngestor) : Prop where
  stored : s.stored ⊆ t.stored
  files : ∀ other, other ≠ name → t.files.lookup other = s.files.lookup other
  cursors : ∀ other, other ≠ name → ∀ cur, t.HasCursor other cur → s.HasCursor other cur

theorem Forgets.refl (s : LogIngestor) : s.Forgets s := ⟨rfl, rfl, fun _ _ h => h⟩

theorem Forgets.trans {s t u : LogIngestor} (h : s.Forgets t) (h' : t.Forgets u) : s.Forgets u :=
  ⟨h'.files.trans h.files, h'.stored.trans h.stored,
    fun name cur hc => h.cursors name cur (h'.cursors name cur hc)⟩

theorem Forgets.subset {s t : LogIngestor} (h : s.Forgets t) : s.stored ⊆ t.stored :=
  h.stored ▸ List.Subset.refl _

theorem Forgets.onlyAt {s t : LogIngestor} (h : s.Forgets t) (name : Text) : OnlyAt name s t :=
  ⟨h.subset, fun _ _ => by rw [h.files], fun other _ => h.cursors other⟩

theorem OnlyAt.trans {name : Text} {s t u : LogIngestor} (h : OnlyAt name s t)
    (h' : OnlyAt name t u) : OnlyAt name s u :=
  ⟨fun _ he => h'.stored (h.stored he),
    fun other hne => (h'.files other hne).trans (h.files other hne),
    fun other hne cur hc => h.cursors other hne cur (h'.cursors other hne cur hc)⟩

theorem Sound.forgets {s t : LogIngestor} (hs : s.Sound) (h : s.Forgets t) : t.Sound := by
  intro name cur hc
  rw [h.files, h.stored]
  exact hs name cur (h.cursors name cur hc)

/-- After a step at one file only that file is to be looked at. -/
theorem Sound.onlyAt {s t : LogIngestor} {name : Text} (hs : s.Sound) (h : OnlyAt name s t)
    (hname : ∀ cur, t.HasCursor name cur →
      ∃ f ∈ t.files.lookup name, ∀ src ∈ logEntry name, Follows src f.content t.stored cur) :
    t.Sound := by
  intro other cur hc
  by_cases heq : other = name
  · subst heq
    exact hname cur hc
  · obtain ⟨f, hf, hfollows⟩ := hs other cur (h.cursors other heq cur hc)
    refine ⟨f, ?_, fun src hsrc => (hfollows src hsrc).mono h.stored⟩
    rwa [h.files other heq]

theorem CaughtUp.of_same {s t : LogIngestor} {name : Text} (h : s.CaughtUp name)
    (hfiles : t.files.lookup name = s.files.lookup name) (hsub : s.stored ⊆ t.stored) :
    t.CaughtUp name := by
  intro src hsrc f hf
  rw [hfiles] at hf
  exact (h src hsrc f hf).mono hsub

theorem CursorsBehind.offset_le {s : LogIngestor} {name : Text} (h : s.CursorsBehind name)
    {f : GrowingLog} (hf : s.files.lookup name = some f) {cur : LogFileCursor}
    (hc : s.HasCursor name cur) : cur.offset ≤ (wholeLines f.content).length :=
  hc.elim ((h f hf).1 cur) ((h f hf).2 cur)

theorem CursorsBehind.of_same {s t : LogIngestor} {name : Text} (h : s.CursorsBehind name)
    (hfiles : t.files.lookup name = s.files.lookup name)
    (hcursors : ∀ cur, t.HasCursor name cur → s.HasCursor name cur) : t.CursorsBehind name := by
  intro f hf
  rw [hfiles] at hf
  exact ⟨fun cur hc => h.offset_le hf (hcursors cur (Or.inl hc)),
    fun cur hc => h.offset_le hf (hcursors cur (Or.inr hc))⟩

theorem forgets_loadCursors (s : LogIngestor) : s.Forgets s.loadCursors := by
  rw [loadCursors]
  split_ifs
  · exact ⟨rfl, rfl, fun name cur hc => Or.inr (hc.elim id id)⟩
  · exact Forgets.refl s

theorem mem_lookup_of_erase {cursors : Cursors} {path name : Text} {cur : LogFileCursor}
    (h : cur ∈ (cursors.erase path).lookup name) : cur ∈ cursors.lookup name := by
  by_cases heq : name = path
  · subst heq
    simp at h
  · rwa [AList.lookup_erase_ne heq] at h

theorem forgets_forgetCursor (s : LogIngestor) (name : Text) : s.Forgets (s.forgetCursor name) :=
  ⟨rfl, rfl, fun _ _ hc => hc.imp_left mem_lookup_of_erase⟩

theorem forgets_pruneCursors (s : LogIngestor) (seen : List Text) :
    s.Forgets (s.pruneCursors seen) := by
  have hfold : ∀ (paths : List Text) (cursors : Cursors) (name : Text), ∀ cur ∈
      (paths.foldl (fun cursors path => if path ∈ seen then cursors else cursors.erase path)
        cursors).lookup name, cur ∈ cursors.lookup name := by
    intro paths
    induction paths with
    | nil => exact fun _ _ _ h => h
    | cons path paths ih =>
        intro cursors name cur h
        rw [List.foldl_cons] at h
        split_ifs at h
        · exact ih _ name cur h
        · exact mem_lookup_of_erase (ih _ name cur h)
  exact ⟨rfl, rfl, fun name cur hc => hc.imp_left (hfold s.cursors.keys s.cursors name cur)⟩

theorem forgets_persistCursors (s : LogIngestor) (persists : Bool) :
    s.Forgets (s.persistCursors persists) := by
  rw [persistCursors]
  split_ifs
  · exact Forgets.refl s
  · exact ⟨rfl, rfl, fun name cur hc => Or.inl (hc.elim id id)⟩

/-- A pass starts at the beginning of a file or at one of its cursors. -/
theorem nextOffset_spec (s : LogIngestor) (name : Text) (f : GrowingLog) :
    s.Forgets (s.nextOffset name f).1 ∧
      ((s.nextOffset name f).2 = 0 ∨
        ∃ cur, s.HasCursor name cur ∧ (s.nextOffset name f).2 = cur.offset) := by
  have hload := forgets_loadCursors s
  simp only [nextOffset]
  cases hcur : s.loadCursors.cursors.lookup name with
  | none => exact ⟨hload, Or.inl rfl⟩
  | some cur =>
      dsimp only
      split_ifs
      · exact ⟨hload.trans (forgets_forgetCursor _ name), Or.inl rfl⟩
      · exact ⟨hload, Or.inr ⟨cur, hload.cursors name cur (Or.inl hcur), rfl⟩⟩

/-- A pass can start where the cursors of a sound ingestor say. -/
theorem Sound.resumes {s : LogIngestor} (hs : s.Sound) {name : Text} {f : GrowingLog}
    (hf : s.files.lookup name = some f) {src : LogSource × Text} (hsrc : logEntry name = some src) :
    Resumes src f.content s.stored (s.nextOffset name f).2 := by
  obtain ⟨-, hstart | ⟨cur, hcur, hstart⟩⟩ := nextOffset_spec s name f
  · rw [hstart]
    exact resumes_zero src f.content s.stored
  · obtain ⟨g, hg, hfollows⟩ := hs name cur hcur
    rw [hf, Option.mem_some_iff] at hg
    subst hg
    rw [hstart]
    exact (hfollows src hsrc).resumes

theorem CursorsBehind.nextOffset_le {s : LogIngestor} {name : Text} (h : s.CursorsBehind name)
    {f : GrowingLog} (hf : s.files.lookup name = some f) :
    (s.nextOffset name f).2 ≤ (wholeLines f.content).length := by
  obtain ⟨-, hstart | ⟨cur, hcur, hstart⟩⟩ := nextOffset_spec s name f
  · omega
  · rw [hstart]
    exact h.offset_le hf hcur

/-- Growth of one file, where its cursors allow it. -/
theorem Sound.written {s : LogIngestor} (hs : s.Sound) {name : Text} {f : GrowingLog}
    (hf : s.files.lookup name = some f) {bytes : List UInt8}
    (hbytes : bytes = [] ∨ s.CursorsBehind name) (modTime : ℤ) :
    Sound { s with files := s.files.insert name ⟨f.content ++ bytes, modTime⟩ } ∧
      OnlyAt name s { s with files := s.files.insert name ⟨f.content ++ bytes, modTime⟩ } := by
  have hat : OnlyAt name s
      { s with files := s.files.insert name ⟨f.content ++ bytes, modTime⟩ } :=
    ⟨List.Subset.refl _, fun other hne => AList.lookup_insert_ne hne, fun _ _ _ hc => hc⟩
  refine ⟨hs.onlyAt hat ?_, hat⟩
  intro cur hcur
  obtain ⟨g, hg, hfollows⟩ := hs name cur hcur
  rw [hf, Option.mem_some_iff] at hg
  subst hg
  refine ⟨_, AList.lookup_insert _, fun src hsrc => (hfollows src hsrc).grow ?_⟩
  exact hbytes.imp_right fun h => h.offset_le hf hcur

theorem Sound.grow {s : LogIngestor} (hs : s.Sound) {name : Text} {f : GrowingLog}
    (hf : s.files.lookup name = some f) {bytes : List UInt8}
    (hbytes : bytes = [] ∨ s.CursorsBehind name) (modTime : ℤ) :
    (s.grow name bytes modTime).Sound ∧ OnlyAt name s (s.grow name bytes modTime) ∧
      ∃ g ∈ (s.grow name bytes modTime).files.lookup name, g.content = f.content ++ bytes := by
  simp only [LogIngestor.grow, hf]
  by_cases hnil : bytes = []
  · rw [if_pos hnil]
    exact ⟨hs, (Forgets.refl s).onlyAt name, f, hf, by simp [hnil]⟩
  · rw [if_neg hnil]
    obtain ⟨hsound, hat⟩ := hs.written hf hbytes modTime
    exact ⟨hsound, hat, _, AList.lookup_insert _, rfl⟩

theorem onlyAt_storing {s : LogIngestor} {rows : List LineKey} (h : s.stored ⊆ rows)
    (name : Text) : OnlyAt name s { s with stored := rows } :=
  ⟨h, fun _ _ => rfl, fun _ _ _ hc => hc⟩

theorem Sound.storing {s : LogIngestor} (hs : s.Sound) {rows : List LineKey}
    (h : s.stored ⊆ rows) : Sound { s with stored := rows } := by
  intro name cur hc
  obtain ⟨f, hf, hfollows⟩ := hs name cur hc
  exact ⟨f, hf, fun src hsrc => (hfollows src hsrc).mono h⟩

/-- A cursor that is remembered of a file whose complete lines are stored. -/
theorem Sound.remember {s : LogIngestor} (hs : s.Sound) {name : Text} {f : GrowingLog}
    (hf : s.files.lookup name = some f) {src : LogSource × Text} (hsrc : logEntry name = some src)
    {rows : List LineKey} (hsub : s.stored ⊆ rows) (hall : StoredOf src f.content rows)
    (cur : LogFileCursor) (hsize : cur.size ≤ f.content.length) :
    Sound { s.rememberCursor name cur with stored := rows } ∧
      OnlyAt name s { s.rememberCursor name cur with stored := rows } ∧
      CaughtUp { s.rememberCursor name cur with stored := rows } name := by
  have hat : OnlyAt name s { s.rememberCursor name cur with stored := rows } := by
    refine ⟨hsub, fun _ _ => rfl, ?_⟩
    intro other hne cur' hc
    refine hc.imp_left fun hc => ?_
    rwa [rememberCursor, AList.lookup_insert_ne hne] at hc
  refine ⟨hs.onlyAt hat ?_, hat, ?_⟩
  · rintro cur' (hc | hc)
    · rw [rememberCursor, AList.lookup_insert, Option.mem_some_iff] at hc
      subst hc
      refine ⟨f, hf, ?_⟩
      intro src' hsrc'
      rw [hsrc, Option.mem_some_iff] at hsrc'
      exact hsrc' ▸ follows_of_storedOf hall hsize
    · obtain ⟨g, hg, hfollows⟩ := hs name cur' (Or.inr hc)
      exact ⟨g, hg, fun src hsrc => (hfollows src hsrc).mono hsub⟩
  · intro src' hsrc' g hg
    rw [hsrc, Option.mem_some_iff] at hsrc'
    have hg' : s.files.lookup name = some g := hg
    rw [hf, Option.some.injEq] at hg'
    rwa [← hsrc', ← hg']

section
variable {s : LogIngestor} (hs : s.Sound) {pass : IngestPass} {name : Text}
  (hduring : (pass.during name).1 = [] ∨ s.CursorsBehind name)
include hs hduring

theorem scanning_spec {f : GrowingLog} (hf : s.files.lookup name = some f) :
    (s.scanning pass name f).Sound ∧ OnlyAt name s (s.scanning pass name f) ∧
      ∃ g ∈ (s.scanning pass name f).files.lookup name,
        g.content = f.content ++ (pass.during name).1 := by
  have hforgets := (nextOffset_spec s name f).1
  have hbehind := hduring.imp_right fun h =>
    h.of_same (by rw [hforgets.files]) (hforgets.cursors name)
  obtain ⟨hsound, hat, hgrown⟩ := (hs.forgets hforgets).grow
    (hforgets.files ▸ hf) hbehind (pass.during name).2
  exact ⟨hsound, (hforgets.onlyAt name).trans hat, hgrown⟩

theorem ingestFile_error {src : LogSource × Text} {t : LogIngestor}
    (h : s.ingestFile pass name src = .error t) : t.Sound ∧ OnlyAt name s t := by
  rw [ingestFile] at h
  cases hf : s.files.lookup name with
  | none => simp [hf] at h
  | some f =>
      obtain ⟨hsound, hat, -⟩ := scanning_spec hs hduring hf
      by_cases hread : f.content.length ≤ (s.nextOffset name f).2
      · simp [hf, hread] at h
      · simp only [hf, if_neg hread] at h
        cases hemit : emitLines (pass.batchFault name) src (scanTokens (s.unread pass name f))
            ⟨(s.scanning pass name f).stored, [], 0⟩ with
        | error rows =>
            simp only [hemit, Except.error.injEq] at h
            subst h
            have hrows := emitLines_error hemit
            exact ⟨hsound.storing hrows, hat.trans (onlyAt_storing hrows name)⟩
        | ok b =>
            simp only [hemit] at h
            split_ifs at h with hlong
            rw [Except.error.injEq] at h
            subst h
            have hrows := (emitLines_ok hemit).1
            exact ⟨hsound.storing hrows, hat.trans (onlyAt_storing hrows name)⟩

/-- A file that is read to its end is caught up with once the events left over are
stored. -/
theorem ingestFile_ok {src : LogSource × Text} (hsrc : logEntry name = some src)
    {t : LogIngestor} {b : Batching} (h : s.ingestFile pass name src = .ok (t, b))
    {rows : List LineKey} (hstored : b.stored ⊆ rows) (hpending : b.pending ⊆ rows) :
    Sound { t with stored := rows } ∧ OnlyAt name s { t with stored := rows } ∧
      CaughtUp { t with stored := rows } name := by
  rw [ingestFile] at h
  cases hf : s.files.lookup name with
  | none =>
      simp only [hf, Except.ok.injEq, Prod.mk.injEq] at h
      obtain ⟨rfl, rfl⟩ := h
      have hforgets := forgets_forgetCursor s name
      refine ⟨(hs.forgets hforgets).storing hstored,
        (hforgets.onlyAt name).trans (onlyAt_storing (s := s.forgetCursor name) hstored name), ?_⟩
      intro _ _ f hf'
      simp [forgetCursor, hf] at hf'
  | some f =>
      have hresumes := hs.resumes hf hsrc
      by_cases hread : f.content.length ≤ (s.nextOffset name f).2
      · -- the file has no bytes behind the cursor
        simp only [hf, if_pos hread, Except.ok.injEq, Prod.mk.injEq] at h
        obtain ⟨rfl, rfl⟩ := h
        have hforgets := (nextOffset_spec s name f).1
        have hf' : (s.nextOffset name f).1.files.lookup name = some f := hforgets.files ▸ hf
        have hall : StoredOf src f.content rows := by
          refine hresumes.scan hstored ?_
          rw [List.drop_eq_nil_of_le hread]
          simp [eventsOf, eventLines, scanLines]
        obtain ⟨hsound, hat, hcaught⟩ := (hs.forgets hforgets).remember hf' hsrc
          (hforgets.stored ▸ hstored) hall ⟨f.content.length, f.content.length, f.modTime⟩
          (Nat.le_refl _)
        exact ⟨hsound, (hforgets.onlyAt name).trans hat, hcaught⟩
      · obtain ⟨hsound, hat, g, hg, hcontent⟩ := scanning_spec hs hduring hf
        simp only [hf, if_neg hread] at h
        cases hemit : emitLines (pass.batchFault name) src (scanTokens (s.unread pass name f))
            ⟨(s.scanning pass name f).stored, [], 0⟩ with
        | error rows' => simp [hemit] at h
        | ok b' =>
            simp only [hemit] at h
            split_ifs at h with hlong
            simp only [Except.ok.injEq, Prod.mk.injEq] at h
            obtain ⟨rfl, rfl⟩ := h
            obtain ⟨hsub, -, hlines⟩ := emitLines_ok hemit
            have hrows : (s.scanning pass name f).stored ⊆ rows := fun e he => hstored (hsub he)
            have hbehind := hduring.imp_right fun h => h.nextOffset_le hf
            have hall : StoredOf src g.content rows := by
              rw [hcontent]
              refine (hresumes.grow hbehind).scan (fun e he => hrows (hat.stored he)) ?_
              intro l hl
              rw [← unread, eventsOf, ← scanTokens_of_all hlong] at hl
              exact (hlines l hl).elim (fun he => hstored he) fun he => hpending he
            obtain ⟨hsound', hat', hcaught⟩ := hsound.remember hg hsrc hrows hall
              ⟨(s.nextOffset name f).2 + ((scanTokens (s.unread pass name f)).map
                fun l => l.length + 1).sum, f.content.length, f.modTime⟩
              (by simp [hcontent])
            exact ⟨hsound', hat.trans hat', hcaught⟩

/-- One file of a pass, when the insert of what is left after its scan does not
fail. -/
theorem ingestEntry_spec (hrest : pass.restFault name = none) :
    (ended (s.ingestEntry pass name)).Sound ∧ OnlyAt name s (ended (s.ingestEntry pass name)) ∧
      ∀ t, s.ingestEntry pass name = .ok t → t.CaughtUp name := by
  rw [ingestEntry]
  cases hsrc : logEntry name with
  | none =>
      refine ⟨hs, (Forgets.refl s).onlyAt name, ?_⟩
      intro t ht src hsrc'
      simp [hsrc] at hsrc'
  | some src =>
      cases hfile : s.ingestFile pass name src with
      | error t =>
          obtain ⟨hsound, hat⟩ := ingestFile_error hs hduring hfile
          simp only [hfile]
          exact ⟨hsound, hat, fun u hu => by cases hu⟩
      | ok result =>
          obtain ⟨t, b⟩ := result
          simp only [hfile]
          cases hflush : b.flush (pass.restFault name) with
          | error rows => exact absurd hrest (Batching.flush_error hflush).2
          | ok c =>
              obtain ⟨hstored, hpending⟩ := Batching.flush_ok hflush
              obtain ⟨hsound, hat, hcaught⟩ := ingestFile_ok hs hduring hsrc hfile hstored hpending
              simp only
              refine ⟨hsound, hat, ?_⟩
              intro u hu
              cases hu
              exact hcaught

end

/-- The files of a pass that goes through are caught up with, the others are left
as they were. -/
theorem ingestEntries_spec {pass : IngestPass} {entries : List Text} (hnodup : entries.Nodup)
    {s : LogIngestor} (hs : s.Sound)
    (hgood : ∀ name ∈ entries,
      pass.restFault name = none ∧ ((pass.during name).1 = [] ∨ s.CursorsBehind name)) :
    (ended (ingestEntries pass entries s)).Sound ∧
      ∀ t, ingestEntries pass entries s = .ok t →
        (∀ name ∈ entries, t.CaughtUp name) ∧ s.stored ⊆ t.stored ∧
          ∀ other ∉ entries, t.files.lookup other = s.files.lookup other := by
  induction entries generalizing s with
  | nil =>
      refine ⟨hs, ?_⟩
      intro t ht
      cases ht
      exact ⟨by simp, List.Subset.refl _, fun _ _ => rfl⟩
  | cons name entries ih =>
      obtain ⟨hnot, hnodup⟩ := List.nodup_cons.mp hnodup
      obtain ⟨hrest, hduring⟩ := hgood name List.mem_cons_self
      obtain ⟨hsound, hat, hcaught⟩ := ingestEntry_spec hs hduring hrest
      rw [ingestEntries]
      cases hentry : s.ingestEntry pass name with
      | error u =>
          rw [hentry] at hsound
          exact ⟨hsound, fun t ht => by cases ht⟩
      | ok u =>
          rw [hentry] at hsound hat
          have hne : ∀ other ∈ entries, other ≠ name := fun other ho heq => hnot (heq ▸ ho)
          have hgood' : ∀ other ∈ entries, pass.restFault other = none ∧
              ((pass.during other).1 = [] ∨ u.CursorsBehind other) := by
            intro other ho
            obtain ⟨hrest, hduring⟩ := hgood other (List.mem_cons_of_mem _ ho)
            exact ⟨hrest, hduring.imp_right fun h =>
              h.of_same (hat.files other (hne other ho)) (hat.cursors other (hne other ho))⟩
          obtain ⟨hsound', hdone⟩ := ih hnodup hsound hgood'
          refine ⟨hsound', ?_⟩
          intro t ht
          obtain ⟨hall, hsub, hfiles⟩ := hdone t ht
          refine ⟨?_, fun e he => hsub (hat.stored he), ?_⟩
          · intro other ho
            rcases List.mem_cons.mp ho with rfl | ho
            · exact (hcaught u hentry).of_same (hfiles other hnot) hsub
            · exact hall other ho
          · intro other ho
            rw [List.mem_cons, not_or] at ho
            exact (hfiles other ho.2).trans (hat.files other ho.1)

theorem forgets_hasChangedFile (s : LogIngestor) (entries : List Text) :
    s.Forgets (s.hasChangedFile entries).1 := by
  rw [hasChangedFile]
  cases s.lastIngest with
  | none => exact Forgets.refl s
  | some last => exact forgets_loadCursors s

/-- Files whose sizes the cursors know are caught up with. -/
theorem Sound.caughtUp_of_unchanged {s : LogIngestor} (hs : s.Sound) {entries : List Text}
    (h : (s.hasChangedFile entries).2 = false) {name : Text} (hname : name ∈ entries) :
    s.CaughtUp name := by
  intro src hsrc f hf
  rw [hasChangedFile] at h
  cases hlast : s.lastIngest with
  | none => simp [hlast] at h
  | some last =>
      have hforgets := forgets_loadCursors s
      simp only [hlast] at h
      have hone := List.any_eq_false.mp h name hname
      rw [Option.mem_def] at hsrc hf
      simp only [hsrc, hforgets.files, hf] at hone
      cases hcur : s.loadCursors.cursors.lookup name with
      | none => simp [hcur] at hone
      | some cur =>
          simp only [hcur, decide_eq_true_eq, not_or, not_not] at hone
          obtain ⟨g, hg, hfollows⟩ := hs name cur (hforgets.cursors name cur (Or.inl hcur))
          rw [hf, Option.mem_some_iff] at hg
          subst hg
          exact (hfollows src hsrc).caught_up hone.1.symm

theorem mem_readDir {s : LogIngestor} {name : Text} : name ∈ s.readDir ↔ name ∈ s.files.keys :=
  List.mem_insertionSort _

theorem nodup_readDir (s : LogIngestor) : s.readDir.Nodup :=
  (List.perm_insertionSort _ _).nodup_iff.mpr s.files.keys_nodup

/-- A pass keeps the cursors sound, and when it succeeds every file is caught up
with. -/
theorem Sound.ingest {s : LogIngestor} (hs : s.Sound) {pass : IngestPass}
    (hgood : s.Harmless (.ingest pass)) :
    (ended (s.ingest pass)).Sound ∧ ∀ t, s.ingest pass = .ok t → ∀ name, t.CaughtUp name := by
  have hchanged := forgets_hasChangedFile s s.readDir
  have hnone : ∀ name, name ∉ s.readDir → s.files.lookup name = none := by
    intro name hname
    rw [mem_readDir] at hname
    exact AList.lookup_eq_none.mpr hname
  simp only [LogIngestor.ingest]
  split_ifs with hskip
  · refine ⟨hs.forgets hchanged, ?_⟩
    intro t ht name
    rw [Except.ok.injEq] at ht
    subst ht
    by_cases hname : name ∈ s.readDir
    · exact (hs.caughtUp_of_unchanged hskip.2 hname).of_same (by rw [hchanged.files])
        hchanged.subset
    · intro src _ f hf
      simp [hchanged.files, hnone name hname] at hf
  · obtain ⟨hsound, hdone⟩ := ingestEntries_spec (nodup_readDir s) (hs.forgets hchanged) (by
      intro name hname
      obtain ⟨hrest, hduring⟩ := hgood name (mem_readDir.mp hname)
      exact ⟨hrest, hduring.imp_right fun h =>
        h.of_same (by rw [hchanged.files]) (hchanged.cursors name)⟩)
    cases hentries : ingestEntries pass s.readDir (s.hasChangedFile s.readDir).1 with
    | error u =>
        rw [hentries] at hsound
        simp only [reduceCtorEq, false_implies, implies_true, and_true]
        exact hsound
    | ok u =>
        rw [hentries] at hsound
        obtain ⟨hall, -, hfiles⟩ := hdone u hentries
        have hlast : u.Forgets { u with lastIngest := some pass.ended } :=
          ⟨rfl, rfl, fun _ _ hc => hc⟩
        have hforgets : u.Forgets (({ u with lastIngest := some pass.ended }.pruneCursors
            (s.readDir.filter fun name => (logEntry name).isSome)).persistCursors pass.persists) :=
          hlast.trans ((forgets_pruneCursors _ _).trans (forgets_persistCursors _ pass.persists))
        refine ⟨hsound.forgets hforgets, ?_⟩
        intro t ht name
        rw [Except.ok.injEq] at ht
        subst ht
        by_cases hname : name ∈ s.readDir
        · exact (hall name hname).of_same (by rw [hforgets.files]) hforgets.subset
        · intro src _ f hf
          simp [hforgets.files, hfiles name hname, hchanged.files, hnone name hname] at hf

theorem Sound.step {s t : LogIngestor} (hs : s.Sound) {a : IngestorStep} (hgood : s.Harmless a)
    (ht : s.step a = some t) : t.Sound := by
  cases a with
  | create name file =>
      simp only [LogIngestor.step] at ht
      split_ifs at ht with hmem
      rw [Option.some.injEq] at ht
      subst ht
      have hnone : s.files.lookup name = none := AList.lookup_eq_none.mpr hmem
      have hat : OnlyAt name s { s with files := s.files.insert name file } :=
        ⟨List.Subset.refl _, fun _ hne => AList.lookup_insert_ne hne, fun _ _ _ hc => hc⟩
      refine hs.onlyAt hat ?_
      intro cur hcur
      obtain ⟨f, hf, -⟩ := hs name cur hcur
      simp [hnone] at hf
  | append name bytes modTime =>
      rw [LogIngestor.step] at ht
      cases hf : s.files.lookup name with
      | none => simp [hf] at ht
      | some f =>
          simp only [hf, Option.some.injEq] at ht
          exact ht ▸ (hs.written hf hgood modTime).1
  | restart =>
      rw [LogIngestor.step, Option.some.injEq] at ht
      subst ht
      refine hs.forgets ⟨rfl, rfl, ?_⟩
      rintro name cur (hc | hc)
      · simp at hc
      · exact Or.inr hc
  | ingest pass =>
      rw [LogIngestor.step, Option.some.injEq] at ht
      exact ht ▸ (hs.ingest hgood).1

theorem start_sound (files : AList fun _ : Text => GrowingLog) : (start files).Sound := by
  rintro name cur (hc | hc) <;> simp [start] at hc

end LogIngestor

/-- In a run without the two harms, a pass that succeeds leaves every complete line
of every log file stored, whatever inserts failed before it. -/
theorem failed_ingest_loses_nothing (files : AList fun _ : Text => GrowingLog)
    (steps : List IngestorStep)
    (hgood : Guarded LogIngestor.step LogIngestor.Harmless (LogIngestor.start files) steps)
    (s : LogIngestor) (hs : run LogIngestor.step (LogIngestor.start files) steps = some s)
    (pass : IngestPass) (hpass : s.Harmless (.ingest pass)) (t : LogIngestor)
    (ht : s.ingest pass = .ok t) : t.StoresCompleteLines := by
  have hsound : s.Sound :=
    (along_of_guarded (fun _ _ _ h hg hstep => LogIngestor.Sound.step h hg hstep)
      (LogIngestor.start_sound files) hgood).last hs
  have hcaught := (hsound.ingest hpass).2 t ht
  intro name source site f hsrc hf l hl hblank
  refine hcaught name (source, site) hsrc f hf (dropCR l) ?_
  rw [isCompleteLine_iff] at hl
  simp only [eventsOf, eventLines, scanLines, List.mem_filter, List.mem_map]
  exact ⟨⟨l, hl, rfl⟩, by simp [hblank]⟩

/-- A directory with one access log. -/
def accessLog (content : List UInt8) : AList fun _ : Text => GrowingLog :=
  AList.singleton "access.log".toList ⟨content, 1⟩

/-- A pass around which nothing happens. -/
def quietPass : IngestPass where
  now := 10
  ended := 11
  during _ := ([], 0)
  batchFault _ _ := none
  restFault _ := none
  persists := true

/-- The insert of a full batch fails, and the next pass reads its lines again. -/
theorem full_batch_is_read_again :
    ∃ s t, run LogIngestor.step (LogIngestor.start (accessLog (joinLines (.replicate 256 [97]))))
        [.ingest { quietPass with batchFault := fun _ _ => some .commit }] = some s ∧
      s.stored = [] ∧ s.ingest quietPass = .ok t ∧ t.StoresCompleteLines := by
  let s := ended ((LogIngestor.start (accessLog (joinLines (.replicate 256 [97])))).ingest
    { quietPass with batchFault := fun _ _ => some .commit })
  have hok : (s.ingest quietPass).toBool = true := by
    set_option maxRecDepth 20000 in
    decide
  cases ht : s.ingest quietPass with
  | error t =>
      rw [ht] at hok
      cases hok
  | ok t =>
      refine ⟨s, t, rfl, by set_option maxRecDepth 20000 in decide, ht, ?_⟩
      exact failed_ingest_loses_nothing (accessLog (joinLines (.replicate 256 [97])))
        [.ingest { quietPass with batchFault := fun _ _ => some .commit }] (by decide)
        s rfl quietPass (by set_option maxRecDepth 20000 in decide) t ht

/-- The insert of a single line fails after the cursor has moved behind it. -/
theorem line_behind_cursor_is_lost :
    ∃ s t, run LogIngestor.step (LogIngestor.start (accessLog [97, 10]))
        [.ingest { quietPass with restFault := fun _ => some .commit }] = some s ∧
      s.ingest quietPass = .ok t ∧ ¬ t.StoresCompleteLines := by
  let s := ended ((LogIngestor.start (accessLog [97, 10])).ingest
    { quietPass with restFault := fun _ => some .commit })
  have hok : (s.ingest quietPass).toBool = true := by decide
  have hlost : (ended (s.ingest quietPass)).stored = [] ∧
      (ended (s.ingest quietPass)).files.lookup "access.log".toList = some ⟨[97, 10], 1⟩ := by
    decide
  cases ht : s.ingest quietPass with
  | error t =>
      rw [ht] at hok
      cases hok
  | ok t =>
      refine ⟨s, t, rfl, ht, ?_⟩
      intro hstores
      rw [ht] at hlost
      have hline := hstores "access.log".toList .access "default".toList _ (by decide) hlost.2 [97]
        ⟨[], [], rfl, by decide, Or.inl rfl⟩ (by decide)
      rw [show t.stored = [] from hlost.1] at hline
      cases hline

end GoSite.Observability
