import GoSite.TailPoll

/-!
# One subscriber and its cursor

A subscriber alone on its source and site finds the cursor where its own polls
left it. It is sent a row exactly once if the row is later than the cursor when
its poll comes to it.
-/
namespace GoSite.Observability
open GuardedRuns

section
variable (g : GoText) (cfg : TailConfig Unit)

/-- How often a row was sent. -/
def TailState.sentCount (s : TailState Unit) (r : TailRow) : ℕ :=
  ((s.sent ()).map TailRow.id).count r.id

/-- Every wanted row inserted since the subscriber connected was sent at most once,
and once if it was in the table when its source was last listed. -/
def SentOnce (s : TailState Unit) : Prop :=
  ∀ r ∈ s.rows, s.isFresh r = true → cfg.wants g () r = true →
    s.sentCount r ≤ 1 ∧ (r.id < s.seen () r.kind → s.sentCount r = 1)

/-- What a poll needs: the wanted rows inserted since its last poll of the source
are later than the cursor it read. -/
def PollAhead (s : TailState Unit) (a : TailAction Unit) : Prop :=
  match a with
  | .list _ =>
      match s.phase () with
      | .query source since _ =>
          ∀ r ∈ s.rows, s.isFresh r = true → cfg.wants g () r = true → r.kind = source →
            s.seen () source ≤ r.id → since < r.ts
      | _ => True
  | _ => True

/-- The cursor of a source has passed a row, or is about to. -/
def Passed (s : TailState Unit) (r : TailRow) : Prop :=
  (∃ c, s.tailCursor (tailKey r.kind cfg.site) = some c ∧ r.ts ≤ c) ∨
    ∃ since m rest, s.phase () = .commit r.kind since (some m) rest ∧ r.ts ≤ m

/-- The invariant of a subscriber whose polls are ahead of the cursor. -/
structure Alone (s : TailState Unit) : Prop where
  ids : s.rows.map TailRow.id = List.range s.rows.length
  sent_mem : ∀ x ∈ s.sent (), x ∈ s.rows
  seen_le : ∀ source, s.seen () source ≤ s.rows.length
  off_seen : s.phase () = .off → ∀ source, s.seen () source = 0
  opened_on : ∀ n, s.opened = some n → s.phase () ≠ .off
  polled : ∀ source ∈ (s.phase ()).sources, source ∈ cfg.sources g
  cursor_set : s.phase () ≠ .off → ∀ source ∈ cfg.sources g,
    ∃ c, s.tailCursor (tailKey source cfg.site) = some c
  cursor_read : ∀ source since rest, s.phase () = .query source since rest →
    s.tailCursor (tailKey source cfg.site) = some since
  cursor_kept : ∀ source since m rest, s.phase () = .commit source since m rest →
    s.tailCursor (tailKey source cfg.site) = some since
  passed : ∀ r ∈ s.rows, cfg.wants g () r = true → r.id < s.seen () r.kind → Passed cfg s r
  count : ∀ r ∈ s.rows, s.isFresh r = true → cfg.wants g () r = true →
    s.sentCount r = if r.id < s.seen () r.kind then 1 else 0

end

variable {g : GoText} {cfg : TailConfig Unit}

theorem tailKey_injective {source source' : SourceKind} {site : String}
    (h : tailKey source site = tailKey source' site) : source = source' := by
  simp only [tailKey, String.append_left_inj] at h
  revert h
  cases source <;> cases source' <;> decide

theorem Alone.sentOnce {s : TailState Unit} (h : Alone g cfg s) : SentOnce g cfg s := by
  intro r hr hfresh hwants
  rw [h.count r hr hfresh hwants]
  refine ⟨?_, fun hseen => if_pos hseen⟩
  split_ifs <;> simp

theorem alone_init (cursor : String → Option ℤ) : Alone g cfg (TailState.init cursor) where
  ids := rfl
  sent_mem x hx := by simp [TailState.init] at hx
  seen_le source := Nat.zero_le _
  off_seen _ source := rfl
  opened_on n hn := by simp [TailState.init] at hn
  polled source hs := by simp [TailState.init, Phase.sources] at hs
  cursor_set hon := absurd rfl hon
  cursor_read source since rest hphase := by simp [TailState.init] at hphase
  cursor_kept source since m rest hphase := by simp [TailState.init] at hphase
  passed r hr := by simp [TailState.init] at hr
  count r hr := by simp [TailState.init] at hr

theorem sentCount_eq_zero {s : TailState Unit} {r : TailRow} (hsent : ∀ x ∈ s.sent (), x.id ≠ r.id) :
    s.sentCount r = 0 := by
  rw [TailState.sentCount, List.count_eq_zero, List.mem_map]
  rintro ⟨x, hx, heq⟩
  exact hsent x hx heq

theorem Alone.insert {s : TailState Unit} (h : Alone g cfg s) (row : StoredRow) :
    Alone g cfg { s with rows := s.rows ++ [⟨s.rows.length, row⟩] } where
  ids := by
    rw [List.map_append, h.ids, List.length_append, List.length_singleton, List.range_succ]
    rfl
  sent_mem x hx := List.mem_append_left _ (h.sent_mem x hx)
  seen_le source := (h.seen_le source).trans (by simp)
  off_seen := h.off_seen
  opened_on := h.opened_on
  polled := h.polled
  cursor_set := h.cursor_set
  cursor_read := h.cursor_read
  cursor_kept := h.cursor_kept
  passed r hr hwants hseen := by
    obtain hr | hr := List.mem_append.mp hr
    · exact h.passed r hr hwants hseen
    · rw [List.mem_singleton.mp hr] at hseen
      exact absurd hseen (not_lt.mpr (h.seen_le _))
  count r hr hfresh hwants := by
    obtain hr | hr := List.mem_append.mp hr
    · exact h.count r hr hfresh hwants
    · rw [List.mem_singleton.mp hr, if_neg (not_lt.mpr (h.seen_le _))]
      refine sentCount_eq_zero ?_
      intro x hx
      exact (id_lt_of_mem h.ids (h.sent_mem x hx)).ne

theorem Alone.connect {s : TailState Unit} (h : Alone g cfg s) {now : ℤ} {resume : Option ℤ}
    (hoff : s.phase () = .off) : Alone g cfg (connectStep g cfg s () now resume) := by
  have hzero := h.off_seen hoff
  have hphase : (connectStep g cfg s () now resume).phase () = .loop [] := by
    rw [connectStep_phase, Function.update_self]
  constructor
  case ids => rw [connectStep_rows]; exact h.ids
  case sent_mem => rw [connectStep_rows, connectStep_sent]; exact h.sent_mem
  case seen_le => rw [connectStep_rows, connectStep_seen]; exact h.seen_le
  case off_seen => rw [connectStep_seen]; exact fun _ => hzero
  case opened_on => intro n _; simp [hphase]
  case polled => simp [hphase, Phase.sources]
  case cursor_set =>
    intro _ source hsource
    have hkey : tailKey source cfg.site ∈ cfg.keys g := List.mem_map_of_mem hsource
    refine ⟨seedCursor now resume (s.tailCursor (tailKey source cfg.site)), ?_⟩
    simp only [connectStep, if_pos hkey]
  case cursor_read => simp [hphase]
  case cursor_kept => simp [hphase]
  case passed =>
    intro r _ _ hseen
    rw [connectStep_seen, hzero] at hseen
    exact absurd hseen (Nat.not_lt_zero _)
  case count =>
    intro r hr hfresh _
    rw [connectStep_rows] at hr
    have hlt := id_lt_of_mem h.ids hr
    have hopened : s.opened = none := by
      cases hopened : s.opened with
      | none => rfl
      | some n => exact absurd hoff (h.opened_on n hopened)
    simp only [TailState.isFresh, connectStep, hopened] at hfresh
    split_ifs at hfresh with hall
    simp only [decide_eq_true_eq] at hfresh
    omega

/-- A step that changes neither the tables nor what was sent keeps what was
counted. -/
theorem Alone.move {s t : TailState Unit} (h : Alone g cfg s) (hrows : t.rows = s.rows)
    (hsent : t.sent = s.sent) (hseen : t.seen = s.seen) (hopened : t.opened = s.opened)
    (hon : t.phase () ≠ .off) (hpolled : ∀ source ∈ (t.phase ()).sources, source ∈ cfg.sources g)
    (hset : ∀ source ∈ cfg.sources g, ∃ c, t.tailCursor (tailKey source cfg.site) = some c)
    (hread : ∀ source since rest, t.phase () = .query source since rest →
      t.tailCursor (tailKey source cfg.site) = some since)
    (hkept : ∀ source since m rest, t.phase () ≠ .commit source since m rest)
    (hpassed : ∀ r, Passed cfg s r → Passed cfg t r) : Alone g cfg t where
  ids := by rw [hrows]; exact h.ids
  sent_mem := by rw [hrows, hsent]; exact h.sent_mem
  seen_le := by rw [hrows, hseen]; exact h.seen_le
  off_seen hoff := absurd hoff hon
  opened_on _ _ := hon
  polled := hpolled
  cursor_set _ := hset
  cursor_read := hread
  cursor_kept source since m rest hphase := absurd hphase (hkept source since m rest)
  passed r hr hwants hlt := by
    rw [hrows] at hr
    rw [hseen] at hlt
    exact hpassed r (h.passed r hr hwants hlt)
  count r hr hfresh hwants := by
    rw [hrows] at hr
    rw [TailState.isFresh, hopened] at hfresh
    rw [TailState.sentCount, hsent, hseen]
    exact h.count r hr hfresh hwants

theorem Alone.tick {s : TailState Unit} (h : Alone g cfg s) (hphase : s.phase () = .loop []) :
    Alone g cfg { s with phase := Function.update s.phase () (.loop (cfg.sources g)) } := by
  refine h.move rfl rfl rfl rfl ?_ ?_ ?_ ?_ ?_ ?_
  · simp
  · simp [Phase.sources]
  · exact h.cursor_set (by simp [hphase])
  · simp
  · simp
  · rintro r (hcursor | ⟨since, m, rest, hcommit, -⟩)
    · exact Or.inl hcursor
    · simp [hphase] at hcommit

theorem Alone.read {s : TailState Unit} (h : Alone g cfg s) {source : SourceKind}
    {rest : List SourceKind} (hphase : s.phase () = .loop (source :: rest)) :
    Alone g cfg { s with
      phase := Function.update s.phase ()
        (.query source ((s.tailCursor (tailKey source cfg.site)).getD 0) rest) } := by
  have hon : s.phase () ≠ .off := by simp [hphase]
  refine h.move rfl rfl rfl rfl ?_ ?_ ?_ ?_ ?_ ?_
  · simp
  · intro src hsrc
    refine h.polled src ?_
    rw [hphase]
    simpa [Phase.sources] using hsrc
  · exact h.cursor_set hon
  · intro src since rest' hquery
    simp only [Function.update_self, Phase.query.injEq] at hquery
    obtain ⟨rfl, rfl, -⟩ := hquery
    obtain ⟨c, hc⟩ := h.cursor_set hon source (h.polled source (by simp [hphase, Phase.sources]))
    simp [hc]
  · simp
  · rintro r (hcursor | ⟨since, m, rest, hcommit, -⟩)
    · exact Or.inl hcursor
    · simp [hphase] at hcommit

theorem writeStep_cursor_of_ne (s : TailState Unit) {source src : SourceKind} (hne : src ≠ source)
    (since : ℤ) (maxTS : Option ℤ) (rest : List SourceKind) :
    (writeStep cfg s () source since maxTS rest).tailCursor (tailKey src cfg.site) =
      s.tailCursor (tailKey src cfg.site) := by
  have hkey : tailKey src cfg.site ≠ tailKey source cfg.site := fun h => hne (tailKey_injective h)
  simp only [writeStep]
  cases maxTS with
  | none => rfl
  | some m =>
      simp only
      split_ifs
      · rw [Function.update_of_ne hkey]
      · rfl

/-- The cursor written is not behind the one read nor behind what was listed. -/
theorem writeStep_cursor_self {s : TailState Unit} {source : SourceKind} {since : ℤ}
    (hkept : s.tailCursor (tailKey source cfg.site) = some since) (maxTS : Option ℤ)
    (rest : List SourceKind) :
    ∃ c, (writeStep cfg s () source since maxTS rest).tailCursor (tailKey source cfg.site) = some c ∧
      since ≤ c ∧ ∀ m, maxTS = some m → m ≤ c := by
  simp only [writeStep]
  cases maxTS with
  | none => exact ⟨since, hkept, le_rfl, by simp⟩
  | some m =>
      simp only
      split_ifs with hm
      · exact ⟨m, Function.update_self _ _ _, le_of_lt hm, by simp⟩
      · refine ⟨since, hkept, le_rfl, ?_⟩
        intro m' hm'
        obtain rfl := Option.some.inj hm'
        exact not_lt.mp hm

theorem Alone.write {s : TailState Unit} (h : Alone g cfg s) {source : SourceKind} {since : ℤ}
    {maxTS : Option ℤ} {rest : List SourceKind}
    (hphase : s.phase () = .commit source since maxTS rest) :
    Alone g cfg (writeStep cfg s () source since maxTS rest) := by
  have hon : s.phase () ≠ .off := by simp [hphase]
  have hloop : (writeStep cfg s () source since maxTS rest).phase () = .loop rest := by
    simp [writeStep]
  have hkept := h.cursor_kept source since maxTS rest hphase
  obtain ⟨c, hc, hsince, hmax⟩ := writeStep_cursor_self hkept maxTS rest
  refine h.move rfl rfl rfl rfl ?_ ?_ ?_ ?_ ?_ ?_
  · simp [hloop]
  · intro src hsrc
    rw [hloop] at hsrc
    refine h.polled src ?_
    rw [hphase]
    exact List.mem_cons_of_mem _ hsrc
  · intro src hsrc
    by_cases hne : src = source
    · exact ⟨c, hne ▸ hc⟩
    · obtain ⟨c', hc'⟩ := h.cursor_set hon src hsrc
      exact ⟨c', by rw [writeStep_cursor_of_ne s hne, hc']⟩
  · simp [hloop]
  · simp [hloop]
  · intro r hr
    left
    by_cases hne : r.kind = source
    · refine ⟨c, hne ▸ hc, ?_⟩
      obtain ⟨c', hc', hle⟩ | ⟨since', m, rest', hcommit, hle⟩ := hr
      · rw [hne, h.cursor_kept source since maxTS rest hphase] at hc'
        obtain rfl := Option.some.inj hc'
        exact hle.trans hsince
      · rw [hphase, Phase.commit.injEq] at hcommit
        exact hle.trans (hmax m hcommit.2.2.1)
    · obtain ⟨c', hc', hle⟩ | ⟨since', m, rest', hcommit, -⟩ := hr
      · exact ⟨c', by rw [writeStep_cursor_of_ne s hne, hc'], hle⟩
      · rw [hphase, Phase.commit.injEq] at hcommit
        exact absurd hcommit.1.symm hne

/-! ## Listing -/

/-- What is listed is not later than the timestamp returned. -/
theorem le_maxTS {rows : List TailRow} {source : SourceKind} {since : ℤ}
    {filter : Option FilterExpr} {r : TailRow}
    (hr : r ∈ (tailOne g rows source cfg.site since filter).2) :
    ∃ m, (tailOne g rows source cfg.site since filter).1 = some m ∧ r.ts ≤ m := by
  have hlisted : r.ts ∈ (listSince rows source cfg.site since).map TailRow.ts := by
    rw [tailOne] at hr
    exact List.mem_map_of_mem (List.mem_of_mem_filter hr)
  cases hm : ((listSince rows source cfg.site since).map TailRow.ts).max? with
  | none =>
      rw [List.max?_eq_none_iff] at hm
      rw [hm] at hlisted
      cases hlisted
  | some m => exact ⟨m, hm, (List.max?_eq_some_iff.mp hm).2 _ hlisted⟩

theorem sentCount_listStep {s : TailState Unit} (h : Alone g cfg s) {source : SourceKind}
    {since : ℤ} {rest : List SourceKind} {r : TailRow} (hr : r ∈ s.rows)
    (hwants : cfg.wants g () r = true) :
    (listStep g cfg s () source since rest).sentCount r =
      s.sentCount r + if r.kind = source ∧ since < r.ts then 1 else 0 := by
  rw [TailState.sentCount, listStep_sent, Function.update_self, List.map_append, List.count_append,
    count_tailOne h.ids hr hwants, TailState.sentCount]

theorem Alone.list {s : TailState Unit} (h : Alone g cfg s) {source : SourceKind} {since : ℤ}
    {rest : List SourceKind} (hphase : s.phase () = .query source since rest)
    (hgood : PollAhead g cfg s (.list ())) :
    Alone g cfg (listStep g cfg s () source since rest) := by
  simp only [PollAhead, hphase] at hgood
  have hread := h.cursor_read source since rest hphase
  have hcommit : (listStep g cfg s () source since rest).phase () =
      .commit source since (tailOne g s.rows source cfg.site since (cfg.filter ())).1 rest := by
    rw [listStep_phase, Function.update_self]
  have hseen : ∀ src, (listStep g cfg s () source since rest).seen () src =
      if src = source then s.rows.length else s.seen () src := by
    intro src
    rw [listStep_seen, Function.update_self, Function.update_apply]
  -- what was passed before the listing was passed by the cursor itself
  have hcursor : ∀ r, Passed cfg s r →
      ∃ c, s.tailCursor (tailKey r.kind cfg.site) = some c ∧ r.ts ≤ c := by
    rintro r (hc | ⟨_, _, _, hph, -⟩)
    · exact hc
    · rw [hphase] at hph
      cases hph
  constructor
  case ids => rw [listStep_rows]; exact h.ids
  case sent_mem =>
    intro x hx
    rw [listStep_rows]
    rw [listStep_sent, Function.update_self, List.mem_append] at hx
    obtain hx | hx := hx
    · exact h.sent_mem x hx
    · exact (mem_tailOne.mp hx).1
  case seen_le =>
    intro src
    rw [hseen, listStep_rows]
    split_ifs
    · exact le_rfl
    · exact h.seen_le src
  case off_seen => simp [hcommit]
  case opened_on => simp [hcommit]
  case polled =>
    intro src hsrc
    refine h.polled src ?_
    rw [hphase]
    rw [hcommit] at hsrc
    exact hsrc
  case cursor_set =>
    rw [listStep_cursor]
    exact fun _ => h.cursor_set (by simp [hphase])
  case cursor_read => simp [hcommit]
  case cursor_kept =>
    intro src since' m rest' hph
    rw [hcommit, Phase.commit.injEq] at hph
    obtain ⟨rfl, rfl, -⟩ := hph
    rw [listStep_cursor]
    exact hread
  case passed =>
    intro r hr hwants hlt
    rw [listStep_rows] at hr
    by_cases hkind : r.kind = source
    · by_cases hts : r.ts ≤ since
      · left
        rw [listStep_cursor, hkind]
        exact ⟨since, hread, hts⟩
      · right
        have hlisted : r ∈ (tailOne g s.rows source cfg.site since (cfg.filter ())).2 :=
          (mem_tailOne_of_wants hr hwants).mpr ⟨hkind, not_le.mp hts⟩
        obtain ⟨m, hm, hle⟩ := le_maxTS hlisted
        exact ⟨since, m, rest, by rw [hcommit, hm, hkind], hle⟩
    · left
      rw [hseen, if_neg hkind] at hlt
      rw [listStep_cursor]
      exact hcursor r (h.passed r hr hwants hlt)
  case count =>
    intro r hr hfresh hwants
    rw [listStep_rows] at hr
    rw [TailState.isFresh, listStep_opened] at hfresh
    rw [sentCount_listStep h hr hwants, h.count r hr hfresh hwants, hseen]
    by_cases hkind : r.kind = source
    · rw [hkind, if_pos rfl, if_pos (id_lt_of_mem h.ids hr)]
      by_cases hold : r.id < s.seen () source
      · obtain ⟨c, hc, hle⟩ := hcursor r (h.passed r hr hwants (by rw [hkind]; exact hold))
        rw [hkind, hread] at hc
        obtain rfl := Option.some.inj hc
        rw [if_pos hold, if_neg (fun hlisted => absurd hlisted.2 (not_lt.mpr hle))]
      · have hts := hgood r hr hfresh hwants hkind (not_lt.mp hold)
        rw [if_neg hold, if_pos ⟨rfl, hts⟩]
    · have hlisted : ¬ (r.kind = source ∧ since < r.ts) := fun hlisted => hkind hlisted.1
      rw [if_neg hkind, if_neg hlisted, Nat.add_zero]

/-- A row that the cursor has passed before a poll came to it is not sent. -/
theorem not_sentOnce_list {s : TailState Unit} (h : Alone g cfg s) {source : SourceKind} {since : ℤ}
    {rest : List SourceKind} (hphase : s.phase () = .query source since rest)
    (hbad : ¬ PollAhead g cfg s (.list ())) :
    ¬ SentOnce g cfg (listStep g cfg s () source since rest) := by
  intro hsent
  refine hbad ?_
  simp only [PollAhead, hphase]
  intro r hr hfresh hwants hkind hnew
  by_contra hts
  have hfresh' : (listStep g cfg s () source since rest).isFresh r = true := by
    rw [TailState.isFresh, listStep_opened]
    exact hfresh
  have hseen : r.id < (listStep g cfg s () source since rest).seen () r.kind := by
    rw [listStep_seen, Function.update_self, hkind, Function.update_self]
    exact id_lt_of_mem h.ids hr
  have hone := (hsent r (by rw [listStep_rows]; exact hr) hfresh' hwants).2 hseen
  rw [sentCount_listStep h hr hwants, h.count r hr hfresh hwants, hkind,
    if_neg (not_lt.mpr hnew), if_neg (fun hlisted => hts hlisted.2)] at hone
  cases hone

/-- A subscriber alone on its source and site is sent every row it wants exactly
once, in every state of a run, if and only if every poll of the run is ahead of
the cursor. -/
theorem tail_sent_once_iff (g : GoText) (cfg : TailConfig Unit) (cursor : String → Option ℤ)
    (as : List (TailAction Unit)) :
    Along (tailStep g cfg) (SentOnce g cfg) (TailState.init cursor) as ↔
      Guarded (tailStep g cfg) (PollAhead g cfg) (TailState.init cursor) as := by
  refine along_iff_guarded (I := Alone g cfg) (fun _ h => h.sentOnce) ?_ ?_ (alone_init cursor)
  · intro s a t h hgood hstep
    cases moves_of_step g cfg hstep with
    | insert row => exact h.insert row
    | connect now resume hphase => exact h.connect hphase
    | tick hphase => exact h.tick hphase
    | read hphase => exact h.read hphase
    | list hphase => exact h.list hphase hgood
    | write hphase => exact h.write hphase
  · intro s a t h hbad hstep
    cases moves_of_step g cfg hstep with
    | list hphase => exact not_sentOnce_list h hphase hbad
    | insert | connect | tick | read | write => exact absurd trivial hbad

/-- A tail of the access log without a filter. -/
def accessTail : TailConfig Unit := ⟨"access", "", fun _ => none⟩

def accessAt (ts : ℤ) (line : String) (h : '\n' ∉ line.toList) : StoredRow :=
  .access ⟨ts, "default", none, none, line, isStatusCode_of_none, h⟩

/-- A poll comes between two lines of one second. -/
def cutSecond : List (TailAction Unit) :=
  [.connect () 10 none, .insert (accessAt 20 "GET /a" (by decide)), .tick (), .read (), .list (),
    .write (), .insert (accessAt 20 "GET /b" (by decide)), .tick (), .read (), .list ()]

/-- Rows are inserted with timestamps that never decrease. -/
def NeverDecreasing (s : TailState Unit) (a : TailAction Unit) : Prop :=
  match a with
  | .insert row => ∀ r ∈ s.rows, r.ts ≤ row.event.ts
  | _ => True

instance (s : TailState Unit) (a : TailAction Unit) : Decidable (NeverDecreasing s a) := by
  unfold NeverDecreasing
  split <;> infer_instance

/-- The second line has the timestamp the cursor was moved to. -/
theorem second_line_of_second_is_lost :
    ¬ ∀ (g : GoText) (cfg : TailConfig Unit) (as : List (TailAction Unit)),
      Along (restrict (tailStep g cfg) NeverDecreasing) (SentOnce g cfg)
        (TailState.init fun _ => none) as := by
  intro h
  have hall := h asciiText accessTail cutSecond
  have hmissed : (run (restrict (tailStep asciiText accessTail) NeverDecreasing)
      (TailState.init fun _ => none) cutSecond).map (fun t =>
        t.rows.any fun r => t.isFresh r && accessTail.wants asciiText () r &&
          decide (r.id < t.seen () r.kind) && decide (t.sentCount r = 0)) = some true := by
    decide +kernel
  obtain ⟨t, ht, hmissed⟩ := Option.map_eq_some_iff.mp hmissed
  simp only [Bool.and_eq_true, List.any_eq_true, decide_eq_true_eq] at hmissed
  obtain ⟨r, hr, ⟨⟨hfresh, hwants⟩, hseen⟩, hzero⟩ := hmissed
  have hone := (hall.last ht r hr hfresh hwants).2 hseen
  omega

end GoSite.Observability
