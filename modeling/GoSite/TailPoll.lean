import GoSite.FilterEval
import GoSite.GuardedRuns

/-!
# Live tails and their shared cursor

Subscribers of one source and site poll the tables once a tick. The high-water
mark is kept in the service, one for each source and site: a subscriber reads it,
lists the newer rows, sends those that match its filter, and writes the latest
timestamp it listed. Each of these is a step of its own, and rows are inserted and
other subscribers go on in between.
-/
namespace GoSite.Observability
open GoStrings GuardedRuns

/-- A row of the tables. The ids count the inserts. -/
structure TailRow where
  id : ℕ
  row : StoredRow

def TailRow.ts (r : TailRow) : ℤ := r.row.event.ts

def TailRow.kind (r : TailRow) : SourceKind := r.row.kind

/-- An audit row of a given time. -/
def auditAt (ts : ℤ) : StoredRow :=
  .audit ⟨ts, "root", "login", "", "", "", "ok", "", [], ok_mem_auditStatuses⟩

def SourceKind.name : SourceKind → String
  | .audit => sourceAudit
  | .job => sourceJob
  | .logAccess => sourceAccess
  | .logError => sourceError

def tailKey (source : SourceKind) (site : String) : String := source.name ++ "\x00" ++ site

/-- The sources a subscription polls. Other names than these have no table. -/
def tailSources (g : GoText) (source : String) : List SourceKind :=
  let source := g.lower (trimSpace source)
  if source = "" ∨ source = "all" then [.audit, .job, .logAccess, .logError]
  else if source = sourceAudit then [.audit]
  else if source = sourceJob then [.job]
  else if source = sourceAccess then [.logAccess]
  else if source = sourceError then [.logError]
  else []

/-- The site of a log row is compared in the query. -/
def siteListed (site : String) : StoredRow → Bool
  | .audit _ | .job _ => true
  | .access row | .error row => site = "" || row.site = site

/-- `ListSince` of the repository of the source. -/
def listSince (rows : List TailRow) (source : SourceKind) (site : String) (since : ℤ) :
    List TailRow :=
  (rows.filter fun r => since < r.ts && r.kind = source && siteListed site r.row).mergeSort
    fun a b => a.ts ≤ b.ts

def tailFilter (source : SourceKind) (site : String) (filter : Option FilterExpr) :
    Option FilterExpr :=
  match source with
  | .logAccess | .logError => withSiteScope filter site
  | .audit | .job => filter

/-- `tailOne`: the latest timestamp listed, and the rows sent. -/
def tailOne (g : GoText) (rows : List TailRow) (source : SourceKind) (site : String) (since : ℤ)
    (filter : Option FilterExpr) : Option ℤ × List TailRow :=
  let listed := listSince rows source site since
  ((listed.map TailRow.ts).max?,
    listed.filter fun r => evalFilter g (tailFilter source site filter) r.row.event source)

/-- Where a subscriber is: not connected, at the head of the loop over the
sources it has still to poll in this tick, between reading the cursor and the
query, or between the query and writing the cursor. -/
inductive Phase where
  | off
  | loop (sources : List SourceKind)
  | query (source : SourceKind) (since : ℤ) (rest : List SourceKind)
  | commit (source : SourceKind) (since : ℤ) (maxTS : Option ℤ) (rest : List SourceKind)
  deriving Repr, DecidableEq

/-- The sources of the tick that are not done. -/
def Phase.sources : Phase → List SourceKind
  | .off => []
  | .loop sources => sources
  | .query source _ rest => source :: rest
  | .commit source _ _ rest => source :: rest

/-- What all subscribers of a source and site have in common, and the filter of
each. -/
structure TailConfig (ι : Type) where
  source : String
  site : String
  filter : ι → Option FilterExpr

/-- The tables, the cursors and the subscribers. `opened` is the number of rows
there were when the last subscriber connected, and `seen` the number when a
subscriber last listed a source; the code keeps neither. -/
structure TailState (ι : Type) where
  rows : List TailRow
  tailCursor : String → Option ℤ
  phase : ι → Phase
  sent : ι → List TailRow
  opened : Option ℕ
  seen : ι → SourceKind → ℕ

inductive TailAction (ι : Type) where
  | insert (row : StoredRow)
  | connect (i : ι) (now : ℤ) (resume : Option ℤ)
  | tick (i : ι)
  | read (i : ι)
  | list (i : ι)
  | write (i : ι)

/-- Half a minute, in nanoseconds. -/
def tailReconnectGap : ℤ := 30 * 10 ^ 9

/-- The seeding of one key when a subscriber connects. -/
def seedCursor (now : ℤ) (resume prev : Option ℤ) : ℤ :=
  match resume, prev with
  | some ts, _ => ts + 1
  | none, none => now
  | none, some prev => if now - prev > tailReconnectGap then now else prev

section
variable {ι : Type} [DecidableEq ι]

def TailState.init (cursor : String → Option ℤ) : TailState ι where
  rows := []
  tailCursor := cursor
  phase _ := .off
  sent _ := []
  opened := none
  seen _ _ := 0

variable (g : GoText) (cfg : TailConfig ι)

def TailConfig.sources : List SourceKind := tailSources g cfg.source

def TailConfig.keys : List String := (cfg.sources g).map fun source => tailKey source cfg.site

def listStep (s : TailState ι) (i : ι) (source : SourceKind) (since : ℤ) (rest : List SourceKind) :
    TailState ι :=
  let polled := tailOne g s.rows source cfg.site since (cfg.filter i)
  { s with
    phase := Function.update s.phase i (.commit source since polled.1 rest)
    sent := Function.update s.sent i (s.sent i ++ polled.2)
    seen := Function.update s.seen i (Function.update (s.seen i) source s.rows.length) }

def writeStep (s : TailState ι) (i : ι) (source : SourceKind) (since : ℤ) (maxTS : Option ℤ)
    (rest : List SourceKind) : TailState ι :=
  { s with
    tailCursor :=
      match maxTS with
      | none => s.tailCursor
      | some m =>
          if m > since then Function.update s.tailCursor (tailKey source cfg.site) (some m)
          else s.tailCursor
    phase := Function.update s.phase i (.loop rest) }

section
variable (s : TailState ι) (i : ι) (source : SourceKind) (since : ℤ) (rest : List SourceKind)

@[simp] theorem listStep_rows : (listStep g cfg s i source since rest).rows = s.rows := by
  simp only [listStep]

@[simp] theorem listStep_opened : (listStep g cfg s i source since rest).opened = s.opened := by
  simp only [listStep]

@[simp] theorem listStep_cursor :
    (listStep g cfg s i source since rest).tailCursor = s.tailCursor := by
  simp only [listStep]

@[simp] theorem listStep_sent : (listStep g cfg s i source since rest).sent =
    Function.update s.sent i
      (s.sent i ++ (tailOne g s.rows source cfg.site since (cfg.filter i)).2) := by
  simp only [listStep]

@[simp] theorem listStep_seen : (listStep g cfg s i source since rest).seen =
    Function.update s.seen i (Function.update (s.seen i) source s.rows.length) := by
  simp only [listStep]

@[simp] theorem listStep_phase : (listStep g cfg s i source since rest).phase =
    Function.update s.phase i (.commit source since
      (tailOne g s.rows source cfg.site since (cfg.filter i)).1 rest) := by
  simp only [listStep]

end

/-- A row inserted after all subscribers connected. -/
def TailState.isFresh (s : TailState ι) (r : TailRow) : Bool :=
  match s.opened with
  | none => false
  | some n => n ≤ r.id

/-- A row of the subscription's sources and site that the subscriber's filter
accepts. -/
def TailConfig.wants (i : ι) (r : TailRow) : Bool :=
  r.kind ∈ cfg.sources g && siteListed cfg.site r.row &&
    evalFilter g (tailFilter r.kind cfg.site (cfg.filter i)) r.row.event r.kind

variable [Fintype ι]

def connectStep (s : TailState ι) (i : ι) (now : ℤ) (resume : Option ℤ) : TailState ι :=
  { s with
    tailCursor := fun key =>
      if key ∈ cfg.keys g then some (seedCursor now resume (s.tailCursor key)) else s.tailCursor key
    phase := Function.update s.phase i (.loop [])
    opened := if ∀ j, j ≠ i → s.phase j ≠ .off then some s.rows.length else s.opened }

@[simp] theorem connectStep_rows (s : TailState ι) (i : ι) (now : ℤ) (resume : Option ℤ) :
    (connectStep g cfg s i now resume).rows = s.rows := by
  simp only [connectStep]

@[simp] theorem connectStep_sent (s : TailState ι) (i : ι) (now : ℤ) (resume : Option ℤ) :
    (connectStep g cfg s i now resume).sent = s.sent := by
  simp only [connectStep]

@[simp] theorem connectStep_seen (s : TailState ι) (i : ι) (now : ℤ) (resume : Option ℤ) :
    (connectStep g cfg s i now resume).seen = s.seen := by
  simp only [connectStep]

@[simp] theorem connectStep_phase (s : TailState ι) (i : ι) (now : ℤ) (resume : Option ℤ) :
    (connectStep g cfg s i now resume).phase = Function.update s.phase i (.loop []) := rfl

/-- One step of a subscriber, or an insert. -/
def tailStep (s : TailState ι) : TailAction ι → Option (TailState ι)
  | .insert row => some { s with rows := s.rows ++ [⟨s.rows.length, row⟩] }
  | .connect i now resume =>
      if s.phase i = .off then some (connectStep g cfg s i now resume) else none
  | .tick i =>
      match s.phase i with
      | .loop [] => some { s with phase := Function.update s.phase i (.loop (cfg.sources g)) }
      | _ => none
  | .read i =>
      match s.phase i with
      | .loop (source :: rest) =>
          let since := (s.tailCursor (tailKey source cfg.site)).getD 0
          some { s with phase := Function.update s.phase i (.query source since rest) }
      | _ => none
  | .list i =>
      match s.phase i with
      | .query source since rest => some (listStep g cfg s i source since rest)
      | _ => none
  | .write i =>
      match s.phase i with
      | .commit source since maxTS rest => some (writeStep cfg s i source since maxTS rest)
      | _ => none

/-- What each action does when it is enabled. -/
inductive Moves (s : TailState ι) : TailAction ι → TailState ι → Prop where
  | insert (row : StoredRow) :
      Moves s (.insert row) { s with rows := s.rows ++ [⟨s.rows.length, row⟩] }
  | connect {i : ι} (now : ℤ) (resume : Option ℤ) (hphase : s.phase i = .off) :
      Moves s (.connect i now resume) (connectStep g cfg s i now resume)
  | tick {i : ι} (hphase : s.phase i = .loop []) :
      Moves s (.tick i) { s with phase := Function.update s.phase i (.loop (cfg.sources g)) }
  | read {i : ι} {source : SourceKind} {rest : List SourceKind}
      (hphase : s.phase i = .loop (source :: rest)) :
      Moves s (.read i) { s with
        phase := Function.update s.phase i
          (.query source ((s.tailCursor (tailKey source cfg.site)).getD 0) rest) }
  | list {i : ι} {source : SourceKind} {since : ℤ} {rest : List SourceKind}
      (hphase : s.phase i = .query source since rest) :
      Moves s (.list i) (listStep g cfg s i source since rest)
  | write {i : ι} {source : SourceKind} {since : ℤ} {maxTS : Option ℤ} {rest : List SourceKind}
      (hphase : s.phase i = .commit source since maxTS rest) :
      Moves s (.write i) (writeStep cfg s i source since maxTS rest)

theorem moves_of_step {s t : TailState ι} {a : TailAction ι} (h : tailStep g cfg s a = some t) :
    Moves g cfg s a t := by
  cases a with
  | insert row =>
      obtain rfl := Option.some.inj h
      exact .insert row
  | connect i now resume =>
      rw [tailStep] at h
      split_ifs at h with hphase
      obtain rfl := Option.some.inj h
      exact .connect now resume hphase
  | tick i =>
      simp only [tailStep] at h
      split at h
      · obtain rfl := Option.some.inj h
        exact .tick ‹_›
      · cases h
  | read i =>
      simp only [tailStep] at h
      split at h
      · obtain rfl := Option.some.inj h
        exact .read ‹_›
      · cases h
  | list i =>
      simp only [tailStep] at h
      split at h
      · obtain rfl := Option.some.inj h
        exact .list ‹_›
      · cases h
  | write i =>
      simp only [tailStep] at h
      split at h
      · obtain rfl := Option.some.inj h
        exact .write ‹_›
      · cases h

end

variable {ι : Type} {g : GoText} {cfg : TailConfig ι}

theorem mem_tailOne {rows : List TailRow} {source : SourceKind} {site : String} {since : ℤ}
    {filter : Option FilterExpr} {r : TailRow} :
    r ∈ (tailOne g rows source site since filter).2 ↔
      r ∈ rows ∧ since < r.ts ∧ r.kind = source ∧ siteListed site r.row = true ∧
        evalFilter g (tailFilter source site filter) r.row.event source = true := by
  simp [tailOne, listSince, and_assoc]

/-- Of the rows it wants, a subscriber is sent those of the source that are newer
than the cursor. -/
theorem mem_tailOne_of_wants {rows : List TailRow} {source : SourceKind} {i : ι} {since : ℤ}
    {r : TailRow} (hr : r ∈ rows) (hwants : cfg.wants g i r = true) :
    r ∈ (tailOne g rows source cfg.site since (cfg.filter i)).2 ↔
      r.kind = source ∧ since < r.ts := by
  simp only [TailConfig.wants, Bool.and_eq_true, decide_eq_true_eq] at hwants
  rw [mem_tailOne]
  constructor
  · rintro ⟨-, hts, hkind, -⟩
    exact ⟨hkind, hts⟩
  · rintro ⟨rfl, hts⟩
    exact ⟨hr, hts, rfl, hwants.1.2, hwants.2⟩

theorem wants_of_mem_tailOne {rows : List TailRow} {source : SourceKind} {i : ι} {since : ℤ}
    {r : TailRow} (hsource : source ∈ cfg.sources g)
    (h : r ∈ (tailOne g rows source cfg.site since (cfg.filter i)).2) :
    r ∈ rows ∧ cfg.wants g i r = true := by
  obtain ⟨hr, -, rfl, hsite, heval⟩ := mem_tailOne.mp h
  refine ⟨hr, ?_⟩
  simp [TailConfig.wants, hsource, hsite, heval]

theorem id_lt_of_mem {rows : List TailRow} (h : rows.map TailRow.id = List.range rows.length)
    {r : TailRow} (hr : r ∈ rows) : r.id < rows.length := by
  have hmem := List.mem_map_of_mem (f := TailRow.id) hr
  rwa [h, List.mem_range] at hmem

theorem nodup_ids {rows : List TailRow} (h : rows.map TailRow.id = List.range rows.length) :
    (rows.map TailRow.id).Nodup := by
  rw [h]
  exact List.nodup_range

/-- A row that is listed is sent once. -/
theorem count_tailOne {rows : List TailRow} (h : rows.map TailRow.id = List.range rows.length)
    {source : SourceKind} {since : ℤ} {i : ι} {r : TailRow} (hr : r ∈ rows)
    (hwants : cfg.wants g i r = true) :
    ((tailOne g rows source cfg.site since (cfg.filter i)).2.map TailRow.id).count r.id =
      if r.kind = source ∧ since < r.ts then 1 else 0 := by
  have hmem : r ∈ (tailOne g rows source cfg.site since (cfg.filter i)).2 ↔
      r.kind = source ∧ since < r.ts := mem_tailOne_of_wants hr hwants
  have hnodup : ((tailOne g rows source cfg.site since (cfg.filter i)).2.map TailRow.id).Nodup := by
    have hperm : (listSince rows source cfg.site since).Perm
        (rows.filter fun r => since < r.ts && r.kind = source && siteListed cfg.site r.row) :=
      List.mergeSort_perm _ _
    have hsub : ((tailOne g rows source cfg.site since (cfg.filter i)).2.map TailRow.id).Sublist
        ((listSince rows source cfg.site since).map TailRow.id) :=
      List.filter_sublist.map _
    refine hsub.nodup ?_
    rw [(hperm.map TailRow.id).nodup_iff]
    exact (List.filter_sublist.map _).nodup (nodup_ids h)
  split_ifs with hlisted
  · exact List.count_eq_one_of_mem hnodup (List.mem_map_of_mem (hmem.mpr hlisted))
  · rw [List.count_eq_zero, List.mem_map]
    rintro ⟨x, hx, heq⟩
    have hxr : x = r := List.inj_on_of_nodup_map (nodup_ids h) (mem_tailOne.mp hx).1 hr heq
    rw [hxr] at hx
    exact hlisted (hmem.mp hx)

end GoSite.Observability
