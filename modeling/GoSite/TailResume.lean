import GoSite.EventIds
import GoSite.TailPoll

/-!
# Resuming a live tail

A subscriber that reconnects sends back the id of the last event it saw. The
cursor is put one nanosecond after the time of the id, and the query asks for rows
later than the cursor.
-/
namespace GoSite.Observability
open GoStrings GoTimes GuardedRuns

/-- The time to resume from. The zero time is none. -/
def resumeTime (resumeFrom : List UInt8) : Option ℤ :=
  if resumeFrom = [] then none else (parseTailIDTime resumeFrom).filter (· ≠ 0)

theorem resumeTime_row {row : StoredRow} (hyear : HasFourDigitYear row.event.ts)
    (hzero : row.event.ts ≠ 0) : resumeTime row.eventID = some row.event.ts := by
  have hne : row.eventID ≠ [] := by simp [StoredRow.eventID, eventID]
  rw [resumeTime, if_neg hne, parseTailIDTime_row, if_pos hyear]
  simp [hzero]

/-! ## The stream after reconnecting -/

section
variable {ι : Type} (g : GoText) (cfg : TailConfig ι) (i : ι) (ts : ℤ)

/-- How often a row was sent to a subscriber. -/
def TailState.timesSent (s : TailState ι) (r : TailRow) : ℕ :=
  ((s.sent i).map TailRow.id).count r.id

/-- The subscriber was sent nothing but rows it wants, and of those exactly once
each row that is later than `ts` and was in the table when its source was last
listed. -/
def ResumedFrom (s : TailState ι) : Prop :=
  (∀ x ∈ s.sent i, x ∈ s.rows ∧ cfg.wants g i x = true) ∧
    ∀ r ∈ s.rows, cfg.wants g i r = true →
      s.timesSent i r = if r.id < s.seen i r.kind ∧ ts < r.ts then 1 else 0

/-- What a poll needs: of the rows the subscriber wants, the cursor it read is
before exactly those that it has not listed yet and that are later than `ts`. -/
def PollFrom (s : TailState ι) (a : TailAction ι) : Prop :=
  match a with
  | .list j =>
      j = i →
        match s.phase i with
        | .query source since _ =>
            ∀ r ∈ s.rows, cfg.wants g i r = true → r.kind = source →
              (since < r.ts ↔ s.seen i source ≤ r.id ∧ ts < r.ts)
        | _ => True
  | _ => True

instance (s : TailState ι) (a : TailAction ι) [DecidableEq ι] :
    Decidable (PollFrom g cfg i ts s a) :=
  match a with
  | .list j => by
      unfold PollFrom
      generalize s.phase i = phase
      cases phase <;> infer_instance
  | .insert _ | .connect _ _ _ | .tick _ | .read _ | .write _ => .isTrue trivial

/-- A subscriber that has not connected was sent nothing. -/
structure Waiting (s : TailState ι) : Prop where
  ids : s.rows.map TailRow.id = List.range s.rows.length
  sent : s.phase i = .off → s.sent i = []
  seen : s.phase i = .off → ∀ source, s.seen i source = 0

/-- The invariant of the stream after reconnecting. -/
structure Resumed (s : TailState ι) : Prop where
  ids : s.rows.map TailRow.id = List.range s.rows.length
  on : s.phase i ≠ .off
  polled : ∀ source ∈ (s.phase i).sources, source ∈ cfg.sources g
  seen_le : ∀ source, s.seen i source ≤ s.rows.length
  sent_mem : ∀ x ∈ s.sent i, x ∈ s.rows ∧ cfg.wants g i x = true
  count : ∀ r ∈ s.rows, cfg.wants g i r = true →
    s.timesSent i r = if r.id < s.seen i r.kind ∧ ts < r.ts then 1 else 0

end

section
variable {ι : Type} {g : GoText} {cfg : TailConfig ι} {i : ι} {ts : ℤ}

theorem Resumed.resumedFrom {s : TailState ι} (h : Resumed g cfg i ts s) :
    ResumedFrom g cfg i ts s := ⟨h.sent_mem, h.count⟩

theorem timesSent_eq_zero {s : TailState ι} {r : TailRow} (hsent : ∀ x ∈ s.sent i, x.id ≠ r.id) :
    s.timesSent i r = 0 := by
  rw [TailState.timesSent, List.count_eq_zero, List.mem_map]
  rintro ⟨x, hx, heq⟩
  exact hsent x hx heq

theorem ids_insert {rows : List TailRow} (h : rows.map TailRow.id = List.range rows.length)
    (row : StoredRow) : (rows ++ [TailRow.mk rows.length row]).map TailRow.id =
      List.range (rows ++ [TailRow.mk rows.length row]).length := by
  rw [List.map_append, h, List.length_append, List.length_singleton, List.range_succ]
  rfl

theorem Resumed.insert {s : TailState ι} (h : Resumed g cfg i ts s) (row : StoredRow) :
    Resumed g cfg i ts { s with rows := s.rows ++ [⟨s.rows.length, row⟩] } where
  ids := ids_insert h.ids row
  on := h.on
  polled := h.polled
  seen_le source := (h.seen_le source).trans (by simp)
  sent_mem x hx := ⟨List.mem_append_left _ (h.sent_mem x hx).1, (h.sent_mem x hx).2⟩
  count r hr hwants := by
    obtain hr | hr := List.mem_append.mp hr
    · exact h.count r hr hwants
    · have hid : r.id = s.rows.length := by rw [List.mem_singleton.mp hr]
      have hseen : s.seen i r.kind ≤ r.id := by
        rw [hid]
        exact h.seen_le r.kind
      rw [if_neg (fun hlisted => absurd hlisted.1 (not_lt.mpr hseen))]
      refine timesSent_eq_zero ?_
      intro x hx
      have hlt := id_lt_of_mem h.ids (h.sent_mem x hx).1
      omega

/-- A step that changes neither the tables nor what the subscriber was sent. -/
theorem Resumed.move {s t : TailState ι} (h : Resumed g cfg i ts s) (hrows : t.rows = s.rows)
    (hsent : t.sent i = s.sent i) (hseen : t.seen i = s.seen i) (hon : t.phase i ≠ .off)
    (hpolled : ∀ source ∈ (t.phase i).sources, source ∈ cfg.sources g) : Resumed g cfg i ts t where
  ids := by rw [hrows]; exact h.ids
  on := hon
  polled := hpolled
  seen_le := by rw [hrows, hseen]; exact h.seen_le
  sent_mem := by rw [hrows, hsent]; exact h.sent_mem
  count := by
    rw [hrows, hseen]
    intro r hr hwants
    rw [TailState.timesSent, hsent]
    exact h.count r hr hwants

variable [DecidableEq ι]

theorem timesSent_listStep {s : TailState ι} (h : Resumed g cfg i ts s) {source : SourceKind}
    {since : ℤ} {rest : List SourceKind} {r : TailRow} (hr : r ∈ s.rows)
    (hwants : cfg.wants g i r = true) :
    (listStep g cfg s i source since rest).timesSent i r =
      s.timesSent i r + if r.kind = source ∧ since < r.ts then 1 else 0 := by
  rw [TailState.timesSent, listStep_sent, Function.update_self, List.map_append, List.count_append,
    count_tailOne h.ids hr hwants, TailState.timesSent]

/-- The subscriber's own poll. -/
theorem Resumed.list {s : TailState ι} (h : Resumed g cfg i ts s) {source : SourceKind}
    {since : ℤ} {rest : List SourceKind} (hphase : s.phase i = .query source since rest)
    (hgood : PollFrom g cfg i ts s (.list i)) :
    Resumed g cfg i ts (listStep g cfg s i source since rest) := by
  simp only [PollFrom, hphase, forall_const] at hgood
  have hcommit : (listStep g cfg s i source since rest).phase i =
      .commit source since (tailOne g s.rows source cfg.site since (cfg.filter i)).1 rest := by
    rw [listStep_phase, Function.update_self]
  have hsource : source ∈ cfg.sources g := h.polled source (by simp [hphase, Phase.sources])
  have hseen : ∀ src, (listStep g cfg s i source since rest).seen i src =
      if src = source then s.rows.length else s.seen i src := by
    intro src
    rw [listStep_seen, Function.update_self, Function.update_apply]
  constructor
  case ids => rw [listStep_rows]; exact h.ids
  case on => simp [hcommit]
  case polled =>
    rw [hcommit]
    intro src hsrc
    refine h.polled src ?_
    rw [hphase]
    exact hsrc
  case seen_le =>
    intro src
    rw [hseen, listStep_rows]
    split_ifs
    · exact le_rfl
    · exact h.seen_le src
  case sent_mem =>
    intro x hx
    rw [listStep_rows]
    rw [listStep_sent, Function.update_self, List.mem_append] at hx
    obtain hx | hx := hx
    · exact h.sent_mem x hx
    · exact wants_of_mem_tailOne hsource hx
  case count =>
    intro r hr hwants
    rw [listStep_rows] at hr
    rw [timesSent_listStep h hr hwants, h.count r hr hwants, hseen]
    by_cases hkind : r.kind = source
    · have hiff := hgood r hr hwants hkind
      have hlt := id_lt_of_mem h.ids hr
      rw [hkind, if_pos rfl]
      by_cases hold : r.id < s.seen i source
      · have hsince : ¬ since < r.ts := by
          intro hlater
          have hnew := (hiff.mp hlater).1
          omega
        simp [hold, hlt, hsince]
      · simp [hold, hlt, hiff, not_lt.mp hold]
    · simp [hkind]

theorem not_resumedFrom_list {s : TailState ι} (h : Resumed g cfg i ts s) {source : SourceKind}
    {since : ℤ} {rest : List SourceKind} (hphase : s.phase i = .query source since rest)
    (hbad : ¬ PollFrom g cfg i ts s (.list i)) :
    ¬ ResumedFrom g cfg i ts (listStep g cfg s i source since rest) := by
  intro hafter
  refine hbad ?_
  simp only [PollFrom, hphase, forall_const]
  intro r hr hwants hkind
  have hcount := hafter.2 r (by rw [listStep_rows]; exact hr) hwants
  have hlt := id_lt_of_mem h.ids hr
  have hseen : (listStep g cfg s i source since rest).seen i source = s.rows.length := by
    rw [listStep_seen, Function.update_self, Function.update_self]
  rw [timesSent_listStep h hr hwants, h.count r hr hwants, hkind, hseen] at hcount
  by_cases hlater : since < r.ts
  · by_cases hold : r.id < s.seen i source
    · by_cases hts : ts < r.ts <;> simp [hlater, hold, hlt, hts] at hcount
    · by_cases hts : ts < r.ts
      · simp [hlater, hts, not_lt.mp hold]
      · simp [hlater, hold, hlt, hts] at hcount
  · by_cases hts : ts < r.ts
    · by_cases hold : r.id < s.seen i source
      · simp [hlater, hts, hold]
      · simp [hlater, hold, hlt, hts] at hcount
    · simp [hlater, hts]

/-! ## Steps -/

/-- The subscriber that takes a step. -/
def TailAction.subscriber : TailAction ι → Option ι
  | .insert _ => none
  | .connect j _ _ | .tick j | .read j | .list j | .write j => some j

variable [Fintype ι]

/-- The steps of others leave a subscriber as it is. -/
theorem frame_of_moves {s t : TailState ι} {a : TailAction ι} (h : Moves g cfg s a t)
    (hother : a.subscriber ≠ some i) :
    t.phase i = s.phase i ∧ t.sent i = s.sent i ∧ t.seen i = s.seen i := by
  cases h with
  | insert row => exact ⟨rfl, rfl, rfl⟩
  | connect now resume hphase | tick hphase | read hphase =>
      have hne := fun heq => hother (congrArg some heq)
      refine ⟨Function.update_of_ne (Ne.symm hne) _ _, rfl, rfl⟩
  | list hphase =>
      have hne := fun heq => hother (congrArg some heq)
      rw [listStep_phase, listStep_sent, listStep_seen]
      exact ⟨Function.update_of_ne (Ne.symm hne) _ _, Function.update_of_ne (Ne.symm hne) _ _,
        Function.update_of_ne (Ne.symm hne) _ _⟩
  | write hphase =>
      have hne := fun heq => hother (congrArg some heq)
      exact ⟨Function.update_of_ne (Ne.symm hne) _ _, rfl, rfl⟩

theorem rows_of_moves {s t : TailState ι} {a : TailAction ι} (h : Moves g cfg s a t) :
    t.rows = s.rows ∨ ∃ row, a = .insert row ∧ t.rows = s.rows ++ [⟨s.rows.length, row⟩] := by
  cases h with
  | insert row => exact Or.inr ⟨row, rfl, rfl⟩
  | list hphase => exact Or.inl (listStep_rows ..)
  | connect now resume hphase => exact Or.inl (connectStep_rows ..)
  | tick hphase | read hphase => exact Or.inl rfl
  | write hphase => exact Or.inl rfl

/-- A step of a subscriber leaves it connected. -/
theorem on_of_moves {s t : TailState ι} {a : TailAction ι} (h : Moves g cfg s a t)
    (hself : a.subscriber = some i) : t.phase i ≠ .off := by
  cases h with
  | insert row => cases hself
  | connect now resume hphase =>
      obtain rfl := Option.some.inj hself
      simp
  | tick hphase | read hphase =>
      obtain rfl := Option.some.inj hself
      simp
  | list hphase =>
      obtain rfl := Option.some.inj hself
      simp
  | write hphase =>
      obtain rfl := Option.some.inj hself
      simp [writeStep]

theorem Waiting.step {s t : TailState ι} {a : TailAction ι} (h : Waiting i s)
    (hstep : Moves g cfg s a t) : Waiting i t := by
  have hids : t.rows.map TailRow.id = List.range t.rows.length := by
    obtain hrows | ⟨row, -, hrows⟩ := rows_of_moves hstep
    · rw [hrows]
      exact h.ids
    · rw [hrows]
      exact ids_insert h.ids row
  by_cases hself : a.subscriber = some i
  · have hon := on_of_moves hstep hself
    exact ⟨hids, fun hoff => absurd hoff hon, fun hoff => absurd hoff hon⟩
  · obtain ⟨hphase, hsent, hseen⟩ := frame_of_moves hstep hself
    refine ⟨hids, ?_, ?_⟩
    · rw [hphase, hsent]
      exact h.sent
    · rw [hphase, hseen]
      exact h.seen

theorem Waiting.run {as : List (TailAction ι)} {s t : TailState ι} (h : Waiting i s)
    (hrun : GuardedRuns.run (tailStep g cfg) s as = some t) : Waiting i t := by
  induction as generalizing s with
  | nil =>
      rw [run_nil, Option.some.injEq] at hrun
      rwa [← hrun]
  | cons a as ih =>
      obtain ⟨u, hstep, hrest⟩ := Option.bind_eq_some_iff.mp hrun
      exact ih (h.step (moves_of_step g cfg hstep)) hrest

omit [DecidableEq ι] [Fintype ι] in
theorem waiting_init (cursor : String → Option ℤ) : Waiting i (TailState.init cursor) :=
  ⟨rfl, fun _ => rfl, fun _ _ => rfl⟩

/-- Reconnecting begins a stream in which nothing was sent. -/
theorem Waiting.connect {s : TailState ι} (h : Waiting i s) (hoff : s.phase i = .off) (now : ℤ)
    (resume : Option ℤ) : Resumed g cfg i ts (connectStep g cfg s i now resume) := by
  have hphase : (connectStep g cfg s i now resume).phase i = .loop [] := by
    rw [connectStep_phase, Function.update_self]
  have hsent := h.sent hoff
  have hseen := h.seen hoff
  constructor
  case ids => rw [connectStep_rows]; exact h.ids
  case on => simp [hphase]
  case polled => simp [hphase, Phase.sources]
  case seen_le => simp [hseen]
  case sent_mem => simp [hsent]
  case count => simp [TailState.timesSent, hsent, hseen]

theorem polled_of_moves {s t : TailState ι} {a : TailAction ι} (h : Moves g cfg s a t)
    (hself : a.subscriber = some i) (hon : s.phase i ≠ .off)
    (hpolled : ∀ source ∈ (s.phase i).sources, source ∈ cfg.sources g) :
    ∀ source ∈ (t.phase i).sources, source ∈ cfg.sources g := by
  cases h with
  | insert row => cases hself
  | connect now resume hphase =>
      obtain rfl := Option.some.inj hself
      exact absurd hphase hon
  | tick hphase =>
      obtain rfl := Option.some.inj hself
      simp [Phase.sources]
  | read hphase =>
      obtain rfl := Option.some.inj hself
      rw [hphase] at hpolled
      simpa [Phase.sources] using hpolled
  | list hphase =>
      obtain rfl := Option.some.inj hself
      rw [hphase] at hpolled
      simpa [Phase.sources] using hpolled
  | write hphase =>
      obtain rfl := Option.some.inj hself
      rw [hphase] at hpolled
      simp only [Phase.sources, List.forall_mem_cons] at hpolled
      simpa [writeStep, Phase.sources] using hpolled.2

theorem Resumed.step {s t : TailState ι} {a : TailAction ι} (h : Resumed g cfg i ts s)
    (hgood : PollFrom g cfg i ts s a) (hstep : Moves g cfg s a t) : Resumed g cfg i ts t := by
  by_cases hself : a.subscriber = some i
  · have hon := on_of_moves hstep hself
    have hpolled := polled_of_moves hstep hself h.on h.polled
    cases hstep with
    | insert row => cases hself
    | connect now resume hphase =>
        obtain rfl := Option.some.inj hself
        exact absurd hphase h.on
    | list hphase =>
        obtain rfl := Option.some.inj hself
        exact h.list hphase hgood
    | tick hphase | read hphase => exact h.move rfl rfl rfl hon hpolled
    | write hphase => exact h.move rfl rfl rfl hon hpolled
  · obtain ⟨hphase, hsent, hseen⟩ := frame_of_moves hstep hself
    obtain hrows | ⟨row, rfl, -⟩ := rows_of_moves hstep
    · exact h.move hrows hsent hseen (by rw [hphase]; exact h.on) (by rw [hphase]; exact h.polled)
    · cases hstep with
      | insert row => exact h.insert row

theorem not_resumedFrom_step {s t : TailState ι} {a : TailAction ι} (h : Resumed g cfg i ts s)
    (hbad : ¬ PollFrom g cfg i ts s a) (hstep : Moves g cfg s a t) : ¬ ResumedFrom g cfg i ts t := by
  cases hstep with
  | list hphase =>
      rename_i j source since rest
      by_cases hself : j = i
      · subst hself
        exact not_resumedFrom_list h hphase hbad
      · exact absurd (fun heq => absurd heq hself) hbad
  | insert | connect | tick | read | write => exact absurd trivial hbad

/-- The cursors a subscriber finds when it has reconnected with the id of an event. -/
theorem cursor_resumed {s : TailState ι} {row : StoredRow} (hyear : HasFourDigitYear row.event.ts)
    (hzero : row.event.ts ≠ 0) (now : ℤ) {source : SourceKind} (hsource : source ∈ cfg.sources g) :
    (connectStep g cfg s i now (resumeTime row.eventID)).tailCursor (tailKey source cfg.site) =
      some (row.event.ts + 1) := by
  have hkey : tailKey source cfg.site ∈ cfg.keys g := List.mem_map_of_mem hsource
  rw [resumeTime_row hyear hzero]
  simp only [connectStep, if_pos hkey, seedCursor]

end

/-- A tail of the audit log without a filter. -/
def auditTail : TailConfig Unit := ⟨"audit", "", fun _ => none⟩

/-- Six hours into the second day of 2024, and a fraction of a second. -/
def loginTime : ℤ := 63839772000123000000

/-- The audit log with two events. -/
def auditState (first second : ℤ) : TailState Unit :=
  { TailState.init (fun _ => none) with rows := [⟨0, auditAt first⟩, ⟨1, auditAt second⟩] }

end GoSite.Observability
