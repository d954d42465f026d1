import GoSite.TailPoll

/-!
# Subscribers that share a cursor

Two subscribers of one source and site move the same cursor. A row is sent to both
when each finds the cursor, at its own poll, where its own last poll left it.
-/
namespace GoSite.Observability
open GuardedRuns

section
variable {ι : Type} (g : GoText) (cfg : TailConfig ι)

/-- Rows are inserted with strictly increasing timestamps. -/
def Increasing (s : TailState ι) (a : TailAction ι) : Prop :=
  match a with
  | .insert row => ∀ r ∈ s.rows, r.ts < row.event.ts
  | _ => True

instance (s : TailState ι) (a : TailAction ι) : Decidable (Increasing s a) := by
  unfold Increasing
  split <;> infer_instance

/-- Every subscriber was sent only rows it wants, those inserted since all
connected in the order of their timestamps and so none twice, and each of them
that was in the table when it last listed its source. -/
def Served (s : TailState ι) : Prop :=
  ∀ i, ((s.sent i).filter s.isFresh).Pairwise (fun a b => a.ts < b.ts) ∧
    (∀ r ∈ s.sent i, r ∈ s.rows ∧ cfg.wants g i r = true) ∧
    ∀ r ∈ s.rows, s.isFresh r = true → cfg.wants g i r = true → r.id < s.seen i r.kind →
      r ∈ s.sent i

/-- What a poll needs of the rows it wants that were inserted since all
connected: the cursor it read has passed exactly those that were in the table at
its own last poll of the source, and the others are later than all it was sent. -/
def PollInStep (s : TailState ι) (a : TailAction ι) : Prop :=
  match a with
  | .list i =>
      match s.phase i with
      | .query source since _ =>
          ∀ r ∈ s.rows, s.isFresh r = true → cfg.wants g i r = true → r.kind = source →
            (r.ts ≤ since ↔ r.id < s.seen i source) ∧
              (since < r.ts → ∀ x ∈ s.sent i, s.isFresh x = true → x.ts < r.ts)
      | _ => True
  | _ => True

/-- The invariant of runs whose polls are in step. -/
structure Shared (s : TailState ι) : Prop where
  ids : s.rows.map TailRow.id = List.range s.rows.length
  increasing : s.rows.Pairwise (fun a b => a.ts < b.ts)
  sent_mem : ∀ i, ∀ r ∈ s.sent i, r ∈ s.rows ∧ cfg.wants g i r = true
  seen_le : ∀ i source, s.seen i source ≤ s.rows.length
  sent_iff : ∀ i, ∀ r ∈ s.rows, s.isFresh r = true → cfg.wants g i r = true →
    (r ∈ s.sent i ↔ r.id < s.seen i r.kind)
  ordered : ∀ i, ((s.sent i).filter s.isFresh).Pairwise (fun a b => a.ts < b.ts)
  opened_on : ∀ n, s.opened = some n → ∀ i, s.phase i ≠ .off
  polled : ∀ i, ∀ source ∈ (s.phase i).sources, source ∈ cfg.sources g

end

variable {ι : Type} {g : GoText} {cfg : TailConfig ι}

theorem Shared.served {s : TailState ι} (h : Shared g cfg s) : Served g cfg s := by
  intro i
  refine ⟨h.ordered i, h.sent_mem i, ?_⟩
  intro r hr hfresh hwants hseen
  exact (h.sent_iff i r hr hfresh hwants).mpr hseen

theorem shared_init (cursor : String → Option ℤ) : Shared g cfg (TailState.init cursor) where
  ids := rfl
  increasing := List.Pairwise.nil
  sent_mem i r hr := by simp [TailState.init] at hr
  seen_le i source := Nat.zero_le _
  sent_iff i r hr := by simp [TailState.init] at hr
  ordered i := by simp [TailState.init]
  opened_on n hn := by simp [TailState.init] at hn
  polled i source hs := by simp [TailState.init, Phase.sources] at hs

theorem Shared.insert {s : TailState ι} (h : Shared g cfg s) {row : StoredRow}
    (hinc : ∀ r ∈ s.rows, r.ts < row.event.ts) :
    Shared g cfg { s with rows := s.rows ++ [⟨s.rows.length, row⟩] } where
  ids := by
    rw [List.map_append, h.ids, List.length_append, List.length_singleton, List.range_succ]
    rfl
  increasing := by
    rw [List.pairwise_append]
    refine ⟨h.increasing, List.pairwise_singleton _ _, ?_⟩
    intro r hr x hx
    rw [List.mem_singleton.mp hx]
    exact hinc r hr
  sent_mem i r hr := ⟨List.mem_append_left _ (h.sent_mem i r hr).1, (h.sent_mem i r hr).2⟩
  seen_le i source := (h.seen_le i source).trans (by simp)
  sent_iff i r hr hfresh hwants := by
    obtain hr | hr := List.mem_append.mp hr
    · exact h.sent_iff i r hr hfresh hwants
    · rw [List.mem_singleton.mp hr]
      refine iff_of_false ?_ (by simpa using h.seen_le i _)
      intro hsent
      have hlt := id_lt_of_mem h.ids (h.sent_mem i _ hsent).1
      exact lt_irrefl _ hlt
  ordered := h.ordered
  opened_on := h.opened_on
  polled := h.polled

/-- Rows that were inserted with increasing timestamps are listed as they stand. -/
theorem tailOne_ordered {rows : List TailRow} (h : rows.Pairwise (fun a b => a.ts < b.ts))
    (source : SourceKind) (site : String) (since : ℤ) (filter : Option FilterExpr) :
    (tailOne g rows source site since filter).2.Pairwise (fun a b => a.ts < b.ts) := by
  rw [tailOne, listSince, List.mergeSort_of_pairwise]
  · exact (h.filter _).filter _
  · refine (h.filter _).imp ?_
    intro a b hab
    exact decide_eq_true hab.le

variable [DecidableEq ι]

/-- The steps of a subscriber other than a listing move the cursor and the
subscriber only. -/
theorem Shared.move {s t : TailState ι} (h : Shared g cfg s) {i : ι} {ph : Phase}
    (hrows : t.rows = s.rows) (hsent : t.sent = s.sent) (hseen : t.seen = s.seen)
    (hopened : t.opened = s.opened) (hphase : t.phase = Function.update s.phase i ph)
    (hon : ph ≠ .off) (hsources : ∀ source ∈ ph.sources, source ∈ cfg.sources g) :
    Shared g cfg t where
  ids := by rw [hrows]; exact h.ids
  increasing := by rw [hrows]; exact h.increasing
  sent_mem := by rw [hrows, hsent]; exact h.sent_mem
  seen_le := by rw [hrows, hseen]; exact h.seen_le
  sent_iff := by
    have hfresh : t.isFresh = s.isFresh := by
      funext r
      rw [TailState.isFresh, hopened]
      rfl
    rw [hrows, hsent, hseen, hfresh]
    exact h.sent_iff
  ordered := by
    have hfresh : t.isFresh = s.isFresh := by
      funext r
      rw [TailState.isFresh, hopened]
      rfl
    rw [hsent, hfresh]
    exact h.ordered
  opened_on n hn j := by
    rw [hphase]
    by_cases hj : j = i
    · subst hj
      simpa using hon
    · rw [Function.update_of_ne hj]
      exact h.opened_on n (hopened ▸ hn) j
  polled j source hsource := by
    rw [hphase] at hsource
    by_cases hj : j = i
    · subst hj
      rw [Function.update_self] at hsource
      exact hsources source hsource
    · rw [Function.update_of_ne hj] at hsource
      exact h.polled j source hsource

theorem Shared.list {s : TailState ι} (h : Shared g cfg s) {i : ι} {source : SourceKind}
    {since : ℤ} {rest : List SourceKind} (hphase : s.phase i = .query source since rest)
    (hgood : PollInStep g cfg s (.list i)) :
    Shared g cfg (listStep g cfg s i source since rest) := by
  simp only [PollInStep, hphase] at hgood
  have hsource : source ∈ cfg.sources g := h.polled i source (by simp [hphase, Phase.sources])
  have hfresh : (listStep g cfg s i source since rest).isFresh = s.isFresh := by
    funext r
    simp only [TailState.isFresh, listStep_opened]
  constructor
  case ids => rw [listStep_rows]; exact h.ids
  case increasing => rw [listStep_rows]; exact h.increasing
  case sent_mem =>
    intro j r hr
    rw [listStep_rows]
    by_cases hj : j = i
    · subst hj
      rw [listStep_sent, Function.update_self, List.mem_append] at hr
      obtain hr | hr := hr
      · exact h.sent_mem j r hr
      · exact wants_of_mem_tailOne hsource hr
    · rw [listStep_sent, Function.update_of_ne hj] at hr
      exact h.sent_mem j r hr
  case seen_le =>
    intro j src
    rw [listStep_rows, listStep_seen]
    by_cases hj : j = i
    · subst hj
      rw [Function.update_self]
      by_cases hsrc : src = source
      · rw [hsrc, Function.update_self]
      · rw [Function.update_of_ne hsrc]
        exact h.seen_le j src
    · rw [Function.update_of_ne hj]
      exact h.seen_le j src
  case sent_iff =>
    intro j r hr hf hwants
    rw [listStep_rows] at hr
    rw [hfresh] at hf
    rw [listStep_sent, listStep_seen]
    by_cases hj : j = i
    · subst hj
      have hold := h.sent_iff j r hr hf hwants
      rw [Function.update_self, Function.update_self, List.mem_append,
        mem_tailOne_of_wants hr hwants, hold]
      by_cases hkind : r.kind = source
      · -- the cursor is at the last poll, so what was not sent before is sent now
        have hcursor := (hgood r hr hf hwants hkind).1
        rw [hkind, Function.update_self]
        refine iff_of_true ?_ (id_lt_of_mem h.ids hr)
        rw [← hcursor]
        by_cases hts : r.ts ≤ since
        · exact Or.inl hts
        · exact Or.inr ⟨rfl, not_le.mp hts⟩
      · rw [Function.update_of_ne hkind]
        simp [hkind]
    · rw [Function.update_of_ne hj, Function.update_of_ne hj]
      exact h.sent_iff j r hr hf hwants
  case ordered =>
    intro j
    rw [hfresh, listStep_sent]
    by_cases hj : j = i
    · subst hj
      rw [Function.update_self, List.filter_append, List.pairwise_append]
      refine ⟨h.ordered j, (tailOne_ordered h.increasing _ _ _ _).filter _, ?_⟩
      intro x hx r hr
      obtain ⟨hx, hxf⟩ := List.mem_filter.mp hx
      obtain ⟨hr, hrf⟩ := List.mem_filter.mp hr
      obtain ⟨hmem, hwants⟩ := wants_of_mem_tailOne hsource hr
      obtain ⟨hkind, hts⟩ := (mem_tailOne_of_wants hmem hwants).mp hr
      exact (hgood r hmem hrf hwants hkind).2 hts x hx hxf
    · rw [Function.update_of_ne hj]
      exact h.ordered j
  case opened_on =>
    intro n hn j
    rw [listStep_opened] at hn
    rw [listStep_phase]
    by_cases hj : j = i
    · subst hj
      simp
    · rw [Function.update_of_ne hj]
      exact h.opened_on n hn j
  case polled =>
    intro j src hsrc
    rw [listStep_phase] at hsrc
    by_cases hj : j = i
    · subst hj
      refine h.polled j src ?_
      rw [Function.update_self] at hsrc
      rw [hphase]
      exact hsrc
    · rw [Function.update_of_ne hj] at hsrc
      exact h.polled j src hsrc

/-- A poll that is not in step misses a row, or sends one again or late. -/
theorem not_served_list {s : TailState ι} (h : Shared g cfg s) {i : ι} {source : SourceKind}
    {since : ℤ} {rest : List SourceKind} (hphase : s.phase i = .query source since rest)
    (hbad : ¬ PollInStep g cfg s (.list i)) :
    ¬ Served g cfg (listStep g cfg s i source since rest) := by
  intro hserved
  refine hbad ?_
  simp only [PollInStep, hphase]
  intro r hr hf hwants hkind
  have hfresh : (listStep g cfg s i source since rest).isFresh = s.isFresh := by
    funext x
    simp only [TailState.isFresh, listStep_opened]
  obtain ⟨hordered, -, hcomplete⟩ := hserved i
  simp only [listStep_rows, listStep_sent, listStep_seen, Function.update_self, hfresh,
    List.filter_append, List.pairwise_append] at hordered hcomplete
  obtain ⟨-, -, hcross⟩ := hordered
  have hold := h.sent_iff i r hr hf hwants
  rw [hkind] at hold
  have hout : r ∈ (tailOne g s.rows source cfg.site since (cfg.filter i)).2 ↔
      r.kind = source ∧ since < r.ts := mem_tailOne_of_wants hr hwants
  have hlate : since < r.ts → ∀ x ∈ s.sent i, s.isFresh x = true → x.ts < r.ts := by
    intro hts x hx hxf
    refine hcross x (List.mem_filter.mpr ⟨hx, hxf⟩) r (List.mem_filter.mpr ⟨?_, hf⟩)
    exact hout.mpr ⟨hkind, hts⟩
  refine ⟨?_, hlate⟩
  constructor
  · intro hts
    have hsent := hcomplete r hr hf hwants
      (by rw [hkind, Function.update_self]; exact id_lt_of_mem h.ids hr)
    rw [List.mem_append, hout] at hsent
    obtain hsent | ⟨-, hgt⟩ := hsent
    · exact hold.mp hsent
    · exact absurd hgt (not_lt.mpr hts)
  · intro hseen
    by_contra hts
    exact lt_irrefl _ (hlate (not_le.mp hts) r (hold.mpr hseen) hf)

variable [Fintype ι]

/-- Nothing is fresh before the last subscriber has connected, nor at once
afterwards. -/
theorem Shared.not_fresh_connect {s : TailState ι} (h : Shared g cfg s) {i : ι} {now : ℤ}
    {resume : Option ℤ} (hoff : s.phase i = .off) {r : TailRow} (hr : r ∈ s.rows) :
    (connectStep g cfg s i now resume).isFresh r = false := by
  have hnone : s.opened = none := by
    cases hopened : s.opened with
    | none => rfl
    | some n => exact absurd hoff (h.opened_on n hopened i)
  have hlt := id_lt_of_mem h.ids hr
  simp only [TailState.isFresh, connectStep, hnone]
  split_ifs
  · simpa using hlt
  · rfl

theorem Shared.connect {s : TailState ι} (h : Shared g cfg s) {i : ι} {now : ℤ}
    {resume : Option ℤ} (hoff : s.phase i = .off) :
    Shared g cfg (connectStep g cfg s i now resume) where
  ids := by rw [connectStep_rows]; exact h.ids
  increasing := by rw [connectStep_rows]; exact h.increasing
  sent_mem := by rw [connectStep_rows, connectStep_sent]; exact h.sent_mem
  seen_le := by rw [connectStep_rows, connectStep_seen]; exact h.seen_le
  sent_iff j r hr hfresh := by
    rw [connectStep_rows] at hr
    rw [h.not_fresh_connect hoff hr] at hfresh
    cases hfresh
  ordered j := by
    rw [connectStep_sent, List.filter_eq_nil_iff.mpr]
    · exact List.Pairwise.nil
    · intro r hr
      rw [h.not_fresh_connect hoff (h.sent_mem j r hr).1]
      exact Bool.false_ne_true
  opened_on n hn j := by
    rw [connectStep_phase]
    by_cases hj : j = i
    · subst hj
      simp
    · rw [Function.update_of_ne hj]
      simp only [connectStep] at hn
      split_ifs at hn with hall
      · exact hall j hj
      · exact h.opened_on n hn j
  polled j source hsource := by
    rw [connectStep_phase] at hsource
    by_cases hj : j = i
    · subst hj
      simp [Phase.sources] at hsource
    · rw [Function.update_of_ne hj] at hsource
      exact h.polled j source hsource

/-- Two tails of the audit log without a filter. -/
def auditTails : TailConfig Bool := ⟨"audit", "", fun _ => none⟩

/-- After both connected and a row came, the first polls, then the second. -/
def stolenRow : List (TailAction Bool) :=
  [.connect false 10 none, .connect true 10 none, .insert (auditAt 20),
    .tick false, .read false, .list false, .write false, .tick true, .read true, .list true]

end GoSite.Observability
