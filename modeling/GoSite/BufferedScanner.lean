import GoSite.LineScanner

/-!
# A scanner with a bounded buffer

A scanner reads a stream into a buffer that grows up to a limit, and hands out the lines in
it. It stops at the end of the stream, or when the buffer is full and holds no line feed.
-/
namespace GoSite.LineScanner

/-- The first size of a buffer and the last one. -/
structure ScanLimits where
  initial : ℕ
  limit : ℕ
  pos : 0 < initial
  le : initial ≤ limit

inductive ScanEnd where
  | eof
  | tooLong
  deriving Repr, DecidableEq

/-- The scanner and what it has handed out. Before the bytes that are held the buffer has
`start` bytes that are used up. `ended` says that a read has met the end. -/
structure Scanner where
  size : ℕ
  start : ℕ
  held : List UInt8
  ended : Bool
  tokens : List Line
  stopped : Option ScanEnd
  deriving Repr, DecidableEq

def Scanner.new (limits : ScanLimits) : Scanner := ⟨limits.initial, 0, [], false, [], none⟩

/-- What `bufio.ScanLines` finds in the buffer: a token, and the bytes behind it. -/
def Scanner.split (s : Scanner) : Option (Line × List UInt8) :=
  if lf ∈ s.held then
    some (dropCR (s.held.takeWhile (· ≠ lf)), (s.held.dropWhile (· ≠ lf)).tail)
  else if s.ended ∧ s.held ≠ [] then some (dropCR s.held, [])
  else none

/-- The bytes are moved to the front when they have reached the end of the buffer, or more
than half of it is used up. -/
def Scanner.shift (s : Scanner) : Scanner :=
  if 0 < s.start ∧ (s.start + s.held.length = s.size ∨ s.size / 2 < s.start) then
    { s with start := 0 }
  else s

/-- A full buffer is doubled, up to the limit. -/
def Scanner.makeRoom (limit : ℕ) (s : Scanner) : Option Scanner :=
  if s.shift.start + s.shift.held.length = s.shift.size then
    if limit ≤ s.shift.size then none
    else some { s.shift with size := min (2 * s.shift.size) limit, start := 0 }
  else some s.shift

/-- One round of the loop of `Scan`. A read takes `n` bytes of the pipe; it waits for more
when the pipe is empty and not closed. -/
def Scanner.round (limit : ℕ) (s : Scanner) (pipe : List UInt8) (closed : Bool) (n : ℕ) :
    Option (Scanner × List UInt8) :=
  if s.stopped ≠ none then none
  else
    match s.split with
    | some (token, rest) =>
        some ({ s with
          start := s.start + (s.held.length - rest.length)
          held := rest
          tokens := s.tokens ++ [token] }, pipe)
    | none =>
        if s.ended then some ({ s with stopped := some .eof }, pipe)
        else
          match s.makeRoom limit with
          | none => some ({ s with stopped := some .tooLong }, pipe)
          | some s =>
              if pipe = [] then
                if closed then some ({ s with ended := true }, pipe) else none
              else if 1 ≤ n ∧ n ≤ pipe.length ∧ n ≤ s.size - (s.start + s.held.length) then
                some ({ s with held := s.held ++ pipe.take n }, pipe.drop n)
              else none

/-! ## Streams as texts -/

/-- A line feed at the end when it is missing. -/
def withFinalNewline (xs : List UInt8) : List UInt8 := if Terminated xs then xs else xs ++ [lf]

/-- `\r\n` read as `\n`. -/
@[grind] def crlfToLf : List UInt8 → List UInt8
  | [] => []
  | b :: bs => if b = cr ∧ bs.head? = some lf then crlfToLf bs else b :: crlfToLf bs

theorem lf_not_mem_rawLines {xs : List UInt8} : ∀ l ∈ rawLines xs, lf ∉ l := by
  induction xs with
  | nil => simp
  | cons b bs ih =>
      rw [rawLines]
      split_ifs with hb
      · intro l hl
        rcases List.mem_cons.mp hl with rfl | hl
        · simp
        · exact ih l hl
      · cases hbs : rawLines bs with
        | nil =>
            intro l hl
            obtain rfl := List.mem_singleton.mp hl
            simpa using fun h => hb h.symm
        | cons l ls =>
            rw [hbs] at ih
            intro m hm
            rcases List.mem_cons.mp hm with rfl | hm
            · intro hmem
              rcases List.mem_cons.mp hmem with h | h
              · exact hb h.symm
              · exact ih l List.mem_cons_self h
            · exact ih m (List.mem_cons_of_mem _ hm)

theorem rawLines_unfinished {tail : List UInt8} (h : lf ∉ tail) :
    rawLines tail = if tail = [] then [] else [tail] := by
  induction tail with
  | nil => rfl
  | cons b bs ih =>
      rw [List.mem_cons, not_or] at h
      rw [rawLines, if_neg (Ne.symm h.1), ih h.2]
      by_cases hbs : bs = []
      · simp [hbs]
      · simp [hbs]

/-- A stream goes up to a line feed, or has none. -/
theorem exists_firstLine (xs : List UInt8) :
    ∃ line, lf ∉ line ∧ (xs = line ∨ ∃ post, xs = line ++ lf :: post) := by
  induction xs with
  | nil => exact ⟨[], by simp, .inl rfl⟩
  | cons b bs ih =>
      by_cases hb : b = lf
      · exact ⟨[], by simp, .inr ⟨bs, by rw [hb]; rfl⟩⟩
      · obtain ⟨line, hline, hrest⟩ := ih
        have hnot : lf ∉ b :: line := fun hmem =>
          (List.mem_cons.mp hmem).elim (fun h => hb h.symm) hline
        rcases hrest with rfl | ⟨post, rfl⟩
        · exact ⟨b :: bs, hnot, .inl rfl⟩
        · exact ⟨b :: line, hnot, .inr ⟨post, rfl⟩⟩

/-- The lines with their line feeds are the stream with a line feed at its end. -/
theorem joinLines_rawLines (xs : List UInt8) : joinLines (rawLines xs) = withFinalNewline xs := by
  obtain ⟨tail, htail, hxs⟩ := exists_unfinished xs
  obtain ⟨ls, hls, hwhole⟩ := exists_joinLines (terminated_wholeLines xs)
  have hraw : rawLines xs = ls ++ rawLines tail := by
    rw [hxs, hwhole, rawLines_joinLines_append ls tail hls]
  rw [hraw, joinLines_append, ← hwhole, rawLines_unfinished htail, withFinalNewline]
  by_cases hempty : tail = []
  · have hterm : Terminated xs := by
      rw [hxs, hempty, List.append_nil]
      exact terminated_wholeLines xs
    rw [if_pos hempty, if_pos hterm, joinLines_nil, List.append_nil,
      wholeLines_of_terminated hterm]
  · have hnot : ¬ Terminated xs := by
      intro hterm
      have hlast : tail.getLast? = some lf := by
        rcases hterm with hnil | hlast
        · rw [hnil] at hxs
          exact absurd (List.append_eq_nil_iff.mp hxs.symm).2 hempty
        · rwa [hxs, List.getLast?_append_of_ne_nil _ hempty] at hlast
      exact htail (List.mem_of_getLast? hlast)
    rw [if_neg hempty, if_neg hnot, joinLines_cons, joinLines_nil]
    conv_rhs => rw [hxs]
    simp

theorem crlfToLf_line {l : Line} (h : lf ∉ l) (rest : List UInt8) :
    crlfToLf (l ++ lf :: rest) = dropCR l ++ lf :: crlfToLf rest := by
  induction l with
  | nil =>
      have hne : ¬ (lf = cr ∧ rest.head? = some lf) := fun h => absurd h.1 (by decide)
      rw [List.nil_append, crlfToLf, if_neg hne]
      rfl
  | cons b l ih =>
      rw [List.mem_cons, not_or] at h
      rw [List.cons_append, crlfToLf, ih h.2]
      cases l with
      | nil =>
          by_cases hb : b = cr
          · subst hb
            rw [if_pos ⟨rfl, rfl⟩]
            rfl
          · have hdrop : dropCR [b] = [b] := dropCR_eq_self (by simp [hb])
            rw [if_neg fun h => hb h.1, hdrop]
            rfl
      | cons c l =>
          have hc : ¬ (b = cr ∧ ((c :: l) ++ lf :: rest).head? = some lf) := by
            rintro ⟨-, hhead⟩
            exact h.2 (List.mem_cons.mpr (.inl (Option.some.inj hhead).symm))
          have hdrop : dropCR (b :: c :: l) = b :: dropCR (c :: l) := by
            simp only [dropCR, List.getLast?_cons_cons]
            split_ifs <;> rfl
          rw [if_neg hc, hdrop]
          rfl

/-- The lines that are handed out, with line feeds, are the text of the stream. -/
theorem joinLines_scanLines (xs : List UInt8) :
    joinLines (scanLines xs) = crlfToLf (withFinalNewline xs) := by
  have hlines : ∀ ls : List Line, (∀ l ∈ ls, lf ∉ l) →
      joinLines (ls.map dropCR) = crlfToLf (joinLines ls) := by
    intro ls hls
    induction ls with
    | nil => rfl
    | cons l ls ih =>
        obtain ⟨hl, hls⟩ := List.forall_mem_cons.mp hls
        rw [List.map_cons, joinLines_cons, joinLines_cons, crlfToLf_line hl, ih hls]
  rw [scanLines, hlines _ lf_not_mem_rawLines, joinLines_rawLines]

/-! ## One round -/

/-- What holds of a scanner of a stream of which some bytes have not been read yet. -/
structure Scanner.Reads (limit : ℕ) (s : Scanner) (total unread : List UInt8) : Prop where
  lines : ∃ ls, rawLines total = ls ++ rawLines (s.held ++ unread) ∧
    s.tokens = ls.map dropCR ∧ ∀ l ∈ ls, l.length < limit
  pos : 0 < s.size
  fits : s.start + s.held.length ≤ s.size
  bound : s.size ≤ limit
  ended : s.ended = true → unread = [] ∧ s.held.length < limit
  eof : s.stopped = some .eof → s.ended = true ∧ s.held = []
  full : s.stopped = some .tooLong → s.ended = false ∧ s.held.length = limit ∧ lf ∉ s.held

theorem Scanner.reads_new (limits : ScanLimits) (total : List UInt8) :
    (Scanner.new limits).Reads limits.limit total total where
  lines := ⟨[], rfl, rfl, by simp⟩
  pos := limits.pos
  fits := Nat.zero_le _
  bound := limits.le
  ended := by simp [Scanner.new]
  eof := by simp [Scanner.new]
  full := by simp [Scanner.new]

section
variable {limit : ℕ} {s : Scanner} {total unread : List UInt8}

theorem Scanner.shift_reads (h : s.Reads limit total unread) :
    s.shift.Reads limit total unread ∧ s.shift.held = s.held ∧ s.shift.stopped = s.stopped ∧
      s.shift.ended = s.ended ∧ s.shift.size = s.size ∧
      (s.shift.start = 0 ∨ s.shift.start = s.start ∧ s.start + s.held.length < s.size) := by
  have hfits := h.fits
  unfold Scanner.shift
  split_ifs with hshift
  · exact ⟨⟨h.lines, h.pos, by dsimp only; omega, h.bound, h.ended, h.eof, h.full⟩, rfl, rfl, rfl,
      rfl, .inl rfl⟩
  · exact ⟨h, rfl, rfl, rfl, rfl, by omega⟩

/-- Room is made for at least one byte, or the buffer is full of one line. -/
theorem Scanner.makeRoom_reads (h : s.Reads limit total unread) (t : Scanner)
    (ht : s.makeRoom limit = some t) :
    t.Reads limit total unread ∧ t.held = s.held ∧ t.stopped = s.stopped ∧ t.ended = s.ended ∧
      t.start + t.held.length < t.size := by
  obtain ⟨hreads, hheld, hstopped, hended, hsize, hstart⟩ := Scanner.shift_reads h
  have hfits := hreads.fits
  have hpos := hreads.pos
  unfold Scanner.makeRoom at ht
  split_ifs at ht with hfull hlimit
  · obtain rfl := Option.some.inj ht
    refine ⟨⟨hreads.lines, ?_, ?_, ?_, hreads.ended, hreads.eof, hreads.full⟩, hheld, hstopped,
      hended, ?_⟩ <;> dsimp only <;> omega
  · obtain rfl := Option.some.inj ht
    exact ⟨hreads, hheld, hstopped, hended, by omega⟩

theorem Scanner.makeRoom_none (h : s.Reads limit total unread) (hroom : s.makeRoom limit = none) :
    s.held.length = limit := by
  obtain ⟨hreads, hheld, -, -, hsize, hstart⟩ := Scanner.shift_reads h
  have hbound := h.bound
  have hfits := h.fits
  unfold Scanner.makeRoom at hroom
  split_ifs at hroom with hfull hlimit
  rw [hheld, hsize] at hfull
  rw [hsize] at hlimit
  omega

/-- A token is the first line of what is held. -/
theorem Scanner.split_some {token : Line} {rest : List UInt8} (h : s.split = some (token, rest)) :
    ∃ line, token = dropCR line ∧ rest.length < s.held.length ∧ line.length + rest.length ≤
      s.held.length ∧ (lf ∈ s.held ∧ line.length < s.held.length ∧
        (∀ more, rawLines (s.held ++ more) = line :: rawLines (rest ++ more)) ∨
        s.ended = true ∧ line = s.held ∧ rest = [] ∧ rawLines s.held = [line]) := by
  unfold Scanner.split at h
  split_ifs at h with hlf hended
  · obtain ⟨rfl, rfl⟩ := Prod.mk.inj (Option.some.inj h)
    have hline : lf ∉ s.held.takeWhile (· ≠ lf) := by
      intro hmem
      simpa using List.mem_takeWhile_imp hmem
    have hdrop : s.held.dropWhile (· ≠ lf) = lf :: (s.held.dropWhile (· ≠ lf)).tail := by
      cases hrest : s.held.dropWhile (· ≠ lf) with
      | nil =>
          have hall := List.dropWhile_eq_nil_iff.mp hrest lf hlf
          simp at hall
      | cons b bs =>
          have hhead := List.head?_dropWhile_not (· ≠ lf) s.held
          rw [hrest] at hhead
          simp only [List.head?_cons] at hhead
          have hb : b = lf := by simpa using hhead
          rw [hb]
          rfl
    have hheld : s.held = s.held.takeWhile (· ≠ lf) ++ lf :: (s.held.dropWhile (· ≠ lf)).tail := by
      rw [← hdrop, List.takeWhile_append_dropWhile]
    have hlength := congrArg List.length hheld
    rw [List.length_append, List.length_cons] at hlength
    refine ⟨_, rfl, by omega, by omega, .inl ⟨hlf, by omega, fun more => ?_⟩⟩
    conv_lhs => rw [hheld]
    rw [List.append_assoc, List.cons_append, rawLines_line _ _ hline]
  · obtain ⟨rfl, rfl⟩ := Prod.mk.inj (Option.some.inj h)
    have hpos : 0 < s.held.length := List.length_pos_iff.mpr hended.2
    refine ⟨s.held, rfl, hpos, by simp, .inr ⟨hended.1, rfl, rfl, ?_⟩⟩
    rw [rawLines_unfinished hlf, if_neg hended.2]

theorem Scanner.split_none (h : s.split = none) : lf ∉ s.held ∧ (s.ended = true → s.held = []) := by
  unfold Scanner.split at h
  split_ifs at h with hlf hended
  exact ⟨hlf, fun h => by_contra fun hne => hended ⟨h, hne⟩⟩

/-- What is read by a round stays a part of the same stream. -/
theorem Scanner.reads_round {pipe later pipe' : List UInt8} {closed : Bool} {n : ℕ} {t : Scanner}
    (h : s.Reads limit total (pipe ++ later)) (hclosed : closed = true → later = [])
    (hround : s.round limit pipe closed n = some (t, pipe')) :
    t.Reads limit total (pipe' ++ later) := by
  unfold Scanner.round at hround
  by_cases hstopped : s.stopped ≠ none
  · rw [if_pos hstopped] at hround
    cases hround
  rw [if_neg hstopped] at hround
  rw [not_not] at hstopped
  split at hround
  · rename_i token rest hsplit
    obtain ⟨rfl, rfl⟩ := Prod.mk.inj (Option.some.inj hround)
    obtain ⟨line, rfl, hshort, hlength, hcases⟩ := Scanner.split_some hsplit
    have hfits := h.fits
    have hbound := h.bound
    obtain ⟨ls, hlines, htokens, hlimit⟩ := h.lines
    have hline : line.length < limit ∧
        rawLines (s.held ++ (pipe ++ later)) = line :: rawLines (rest ++ (pipe ++ later)) := by
      rcases hcases with ⟨-, hlt, hraw⟩ | ⟨hended, rfl, rfl, hraw⟩
      · exact ⟨by omega, hraw _⟩
      · obtain ⟨hunread, hlt⟩ := h.ended hended
        rw [hunread, List.append_nil, hraw]
        exact ⟨hlt, rfl⟩
    refine ⟨⟨ls ++ [line], ?_, ?_, ?_⟩, h.pos, ?_, h.bound, fun hended => ?_, ?_, ?_⟩
    · rw [hlines, hline.2, List.append_assoc]
      rfl
    · rw [htokens, List.map_append]
      rfl
    · intro l hl
      rcases List.mem_append.mp hl with hl | hl
      · exact hlimit l hl
      · obtain rfl := List.mem_singleton.mp hl
        exact hline.1
    · dsimp only
      omega
    · obtain ⟨hunread, hlt⟩ := h.ended hended
      exact ⟨hunread, by dsimp only; omega⟩
    · intro heof
      rw [hstopped] at heof
      cases heof
    · intro hfull
      rw [hstopped] at hfull
      cases hfull
  · rename_i hsplit
    obtain ⟨hlf, hheld⟩ := Scanner.split_none hsplit
    by_cases hended : s.ended = true
    · rw [if_pos hended] at hround
      obtain ⟨rfl, rfl⟩ := Prod.mk.inj (Option.some.inj hround)
      exact ⟨h.lines, h.pos, h.fits, h.bound, h.ended, fun _ => ⟨hended, hheld hended⟩, by simp⟩
    · rw [if_neg hended] at hround
      split at hround
      · rename_i hroom
        obtain ⟨rfl, rfl⟩ := Prod.mk.inj (Option.some.inj hround)
        exact ⟨h.lines, h.pos, h.fits, h.bound, h.ended, by simp, fun _ =>
          ⟨by simpa using hended, @Scanner.makeRoom_none limit s _ _ h hroom, hlf⟩⟩
      · rename_i u hroom
        obtain ⟨hreads, huheld, hustopped, huended, huroom⟩ := Scanner.makeRoom_reads h u hroom
        have hbound := hreads.bound
        rw [hstopped] at hustopped
        split_ifs at hround with hpipe hclosed' hn
        · obtain ⟨rfl, rfl⟩ := Prod.mk.inj (Option.some.inj hround)
          refine ⟨hreads.lines, hreads.pos, hreads.fits, hreads.bound, fun _ => ⟨?_, ?_⟩, ?_, ?_⟩
          · rw [hpipe, hclosed hclosed']
            rfl
          · dsimp only
            omega
          · intro heof
            rw [hustopped] at heof
            cases heof
          · intro hfull
            rw [hustopped] at hfull
            cases hfull
        · obtain ⟨rfl, rfl⟩ := Prod.mk.inj (Option.some.inj hround)
          have hnot : u.ended = false := by
            rw [huended]
            simpa using hended
          have htake : (u.held ++ pipe.take n) ++ (pipe.drop n ++ later) =
              u.held ++ (pipe ++ later) := by
            rw [List.append_assoc, ← List.append_assoc (pipe.take n), List.take_append_drop]
          refine ⟨?_, hreads.pos, ?_, hreads.bound, fun h' => ?_, ?_, ?_⟩
          · dsimp only
            rw [htake]
            exact hreads.lines
          · simp only [List.length_append, List.length_take]
            omega
          · rw [hnot] at h'
            cases h'
          · intro heof
            rw [hustopped] at heof
            cases heof
          · intro hfull
            rw [hustopped] at hfull
            cases hfull

/-- A scanner that has not stopped goes on when there is something to read. -/
theorem Scanner.round_isSome {pipe : List UInt8} {closed : Bool}
    (h : s.Reads limit total unread) (hstopped : s.stopped = none)
    (hready : pipe ≠ [] ∨ closed = true) : ∃ n, (s.round limit pipe closed n).isSome := by
  refine ⟨1, ?_⟩
  unfold Scanner.round
  rw [if_neg (not_not.mpr hstopped)]
  split
  · rfl
  · by_cases hended : s.ended = true
    · rw [if_pos hended]
      rfl
    · rw [if_neg hended]
      split
      · rfl
      · rename_i u hroom
        obtain ⟨-, -, -, -, huroom⟩ := Scanner.makeRoom_reads h u hroom
        by_cases hpipe : pipe = []
        · rw [if_pos hpipe, if_pos (hready.resolve_left (not_not.mpr hpipe))]
          rfl
        · have hpos : 0 < pipe.length := List.length_pos_iff.mpr hpipe
          rw [if_neg hpipe, if_pos ⟨le_refl 1, hpos, by omega⟩]
          rfl

/-- A scanner at the end of the stream has handed out all of its lines. -/
theorem Scanner.Reads.of_eof (h : s.Reads limit total unread) (heof : s.stopped = some .eof) :
    unread = [] ∧ s.tokens = scanLines total ∧ ∀ l ∈ rawLines total, l.length < limit := by
  obtain ⟨hended, hheld⟩ := h.eof heof
  obtain ⟨hunread, -⟩ := h.ended hended
  obtain ⟨ls, hlines, htokens, hlimit⟩ := h.lines
  rw [hheld, hunread, List.append_nil, rawLines_nil, List.append_nil] at hlines
  exact ⟨hunread, by rw [htokens, scanLines, hlines], hlines ▸ hlimit⟩

/-- A scanner that has stopped before has met a line that fills the buffer. -/
theorem Scanner.Reads.of_tooLong (h : s.Reads limit total unread)
    (hlong : s.stopped = some .tooLong) : ∃ l ∈ rawLines total, limit ≤ l.length := by
  obtain ⟨-, hfull, hlf⟩ := h.full hlong
  obtain ⟨ls, hlines, -, -⟩ := h.lines
  have hbound := h.bound
  have hpos := h.pos
  have hline : ∀ held : List UInt8, lf ∉ held → held ≠ [] →
      ∃ l ∈ rawLines (held ++ unread), held.length ≤ l.length := by
    intro held hheld hne
    obtain ⟨pre, hpre, hrest⟩ := exists_firstLine unread
    have hboth : lf ∉ held ++ pre := fun hmem =>
      (List.mem_append.mp hmem).elim hheld hpre
    rcases hrest with rfl | ⟨post, rfl⟩
    · refine ⟨held ++ unread, ?_, by simp⟩
      rw [rawLines_unfinished hboth, if_neg (by simp [hne])]
      exact List.mem_singleton_self _
    · refine ⟨held ++ pre, ?_, by simp⟩
      rw [← List.append_assoc, rawLines_line _ _ hboth]
      exact List.mem_cons_self
  have hne : s.held ≠ [] := by
    rintro hnil
    rw [hnil] at hfull
    simp only [List.length_nil] at hfull
    omega
  obtain ⟨l, hl, hlength⟩ := hline s.held hlf hne
  exact ⟨l, hlines ▸ List.mem_append_right ls hl, hfull ▸ hlength⟩

/-- How much a scanner has to do yet, besides the bytes it has not read. -/
def Scanner.work (s : Scanner) : ℕ :=
  s.held.length + (if s.ended then 0 else 1) + (if s.stopped = none then 1 else 0)

theorem Scanner.shift_work (s : Scanner) : s.shift.work = s.work := by
  unfold Scanner.shift
  split_ifs <;> rfl

theorem Scanner.makeRoom_work {s t : Scanner} (h : s.makeRoom limit = some t) :
    t.work = s.work ∧ t.held = s.held ∧ t.ended = s.ended := by
  have hheld : s.shift.held = s.held ∧ s.shift.ended = s.ended := by
    unfold Scanner.shift
    split_ifs <;> exact ⟨rfl, rfl⟩
  unfold Scanner.makeRoom at h
  split_ifs at h
  · obtain rfl := Option.some.inj h
    exact ⟨s.shift_work, hheld⟩
  · obtain rfl := Option.some.inj h
    exact ⟨s.shift_work, hheld⟩

/-- Each round does some of it. -/
theorem Scanner.work_round {pipe pipe' : List UInt8} {closed : Bool} {n : ℕ} {t : Scanner}
    (hround : s.round limit pipe closed n = some (t, pipe')) :
    t.work + 2 * pipe'.length < s.work + 2 * pipe.length := by
  unfold Scanner.round at hround
  by_cases hstopped : s.stopped ≠ none
  · rw [if_pos hstopped] at hround
    cases hround
  rw [if_neg hstopped] at hround
  rw [not_not] at hstopped
  split at hround
  · rename_i token rest hsplit
    obtain ⟨rfl, rfl⟩ := Prod.mk.inj (Option.some.inj hround)
    obtain ⟨line, -, hshort, -⟩ := Scanner.split_some hsplit
    simp only [Scanner.work]
    omega
  · by_cases hended : s.ended = true
    · rw [if_pos hended] at hround
      obtain ⟨rfl, rfl⟩ := Prod.mk.inj (Option.some.inj hround)
      simp [Scanner.work, hstopped]
    · rw [if_neg hended] at hround
      split at hround
      · obtain ⟨rfl, rfl⟩ := Prod.mk.inj (Option.some.inj hround)
        simp [Scanner.work, hstopped]
      · rename_i u hroom
        obtain ⟨hwork, hheld, huended⟩ := Scanner.makeRoom_work hroom
        rw [← hwork]
        split_ifs at hround with hpipe hclosed hn
        · obtain ⟨rfl, rfl⟩ := Prod.mk.inj (Option.some.inj hround)
          simp [Scanner.work, huended, hended]
        · obtain ⟨rfl, rfl⟩ := Prod.mk.inj (Option.some.inj hround)
          simp only [Scanner.work, List.length_append, List.length_take, List.length_drop]
          omega

end

end GoSite.LineScanner
