import Mathlib

/-!
# Lines of a byte stream

A scanner in line mode cuts a stream at each line feed, hands out what lies
before it without a trailing carriage return, and hands out an unterminated last
line as well. A stream is terminated when nothing follows its last line feed;
such streams are the joins of lists of lines.
-/
namespace GoSite.LineScanner

abbrev Line := List UInt8

def lf : UInt8 := 10
def cr : UInt8 := 13

/-- The pieces between line feeds. An empty piece at the end is no line. -/
@[grind] def rawLines : List UInt8 → List Line
  | [] => []
  | b :: bs =>
      if b = lf then [] :: rawLines bs
      else match rawLines bs with
        | [] => [[b]]
        | l :: ls => (b :: l) :: ls

def dropCR (l : Line) : Line := if l.getLast? = some cr then l.dropLast else l

/-- The tokens of a scanner whose lines all fit its buffer. -/
def scanLines (xs : List UInt8) : List Line := (rawLines xs).map dropCR

/-- Nothing follows the last line feed. -/
def Terminated (xs : List UInt8) : Prop := xs = [] ∨ xs.getLast? = some lf

instance (xs : List UInt8) : Decidable (Terminated xs) :=
  inferInstanceAs (Decidable (_ ∨ _))

def joinLines (ls : List Line) : List UInt8 := ls.flatMap fun l => l ++ [lf]

/-- `l` stands between a line boundary and a line feed. -/
def IsCompleteLine (xs : List UInt8) (l : Line) : Prop :=
  ∃ pre post, xs = pre ++ l ++ lf :: post ∧ lf ∉ l ∧ Terminated pre

@[simp] theorem rawLines_nil : rawLines [] = [] := rfl

@[simp] theorem joinLines_nil : joinLines [] = [] := rfl

@[simp] theorem joinLines_cons (l : Line) (ls : List Line) :
    joinLines (l :: ls) = l ++ lf :: joinLines ls := by
  simp [joinLines]

@[simp] theorem joinLines_append (ls ms : List Line) :
    joinLines (ls ++ ms) = joinLines ls ++ joinLines ms := by
  simp [joinLines]

theorem rawLines_line (l : Line) (post : List UInt8) (h : lf ∉ l) :
    rawLines (l ++ lf :: post) = l :: rawLines post := by
  induction l with
  | nil => simp [rawLines]
  | cons b l ih =>
      have hb : b ≠ lf := fun hb => h (hb ▸ List.mem_cons_self)
      have hl : lf ∉ l := fun hl => h (List.mem_cons_of_mem b hl)
      simp [rawLines, hb, ih hl]

/-- Scanning takes apart what joining put together, and goes on behind it. -/
theorem rawLines_joinLines_append (ls : List Line) (post : List UInt8)
    (h : ∀ l ∈ ls, lf ∉ l) : rawLines (joinLines ls ++ post) = ls ++ rawLines post := by
  induction ls with
  | nil => rfl
  | cons l ls ih =>
      have hl := h l List.mem_cons_self
      have hls := fun m hm => h m (List.mem_cons_of_mem l hm)
      rw [joinLines_cons, List.append_assoc, List.cons_append, rawLines_line l _ hl, ih hls]
      rfl

theorem terminated_joinLines (ls : List Line) : Terminated (joinLines ls) := by
  induction ls with
  | nil => exact Or.inl rfl
  | cons l ls ih =>
      right
      rcases ih with h | h
      · simp [h]
      · simp [List.getLast?_cons, h]

theorem Terminated.tail {b : UInt8} {xs : List UInt8} (h : Terminated (b :: xs)) :
    Terminated xs := by
  cases xs with
  | nil => exact Or.inl rfl
  | cons c xs =>
      rcases h with h | h
      · cases h
      · exact Or.inr (by simpa using h)

/-- A terminated stream is the join of its lines. -/
theorem exists_joinLines {xs : List UInt8} (h : Terminated xs) :
    ∃ ls, (∀ l ∈ ls, lf ∉ l) ∧ xs = joinLines ls := by
  induction xs with
  | nil => exact ⟨[], by simp, rfl⟩
  | cons b xs ih =>
      obtain ⟨ls, hls, rfl⟩ := ih h.tail
      by_cases hb : b = lf
      · refine ⟨[] :: ls, ?_, by simp [hb]⟩
        intro l hl
        rcases List.mem_cons.mp hl with rfl | hl
        · simp
        · exact hls l hl
      · cases ls with
        | nil => exact absurd h (by simp [Terminated, hb])
        | cons l ls =>
            refine ⟨(b :: l) :: ls, ?_, by simp⟩
            intro m hm
            rcases List.mem_cons.mp hm with rfl | hm
            · have hl := hls l List.mem_cons_self
              simp [hl, Ne.symm hb]
            · exact hls m (List.mem_cons_of_mem l hm)

/-- The part of a stream behind a line boundary is scanned by itself. -/
theorem rawLines_append {xs : List UInt8} (h : Terminated xs) (ys : List UInt8) :
    rawLines (xs ++ ys) = rawLines xs ++ rawLines ys := by
  obtain ⟨ls, hls, rfl⟩ := exists_joinLines h
  have hself := rawLines_joinLines_append ls [] hls
  simp only [List.append_nil, rawLines_nil] at hself
  rw [rawLines_joinLines_append ls ys hls, hself]

theorem Terminated.append {xs ys : List UInt8} (hx : Terminated xs) (hy : Terminated ys) :
    Terminated (xs ++ ys) := by
  obtain ⟨ls, -, rfl⟩ := exists_joinLines hx
  obtain ⟨ms, -, rfl⟩ := exists_joinLines hy
  rw [← joinLines_append]
  exact terminated_joinLines (ls ++ ms)

/-- The lines of a terminated stream are its complete lines. -/
theorem mem_rawLines_iff {xs : List UInt8} (h : Terminated xs) (l : Line) :
    l ∈ rawLines xs ↔ IsCompleteLine xs l := by
  obtain ⟨ls, hls, rfl⟩ := exists_joinLines h
  have hself := rawLines_joinLines_append ls [] hls
  simp only [List.append_nil, rawLines_nil] at hself
  rw [hself]
  constructor
  · intro hl
    obtain ⟨as, bs, rfl⟩ := List.append_of_mem hl
    exact ⟨joinLines as, joinLines bs, by simp, hls l hl, terminated_joinLines as⟩
  · rintro ⟨pre, post, heq, hl, hpre⟩
    have hraw : rawLines (pre ++ l ++ lf :: post) = rawLines pre ++ l :: rawLines post := by
      rw [List.append_assoc, rawLines_append hpre, rawLines_line l post hl]
    rw [← heq, hself] at hraw
    rw [hraw]
    simp

/-- A stream up to its last line feed. -/
def wholeLines (xs : List UInt8) : List UInt8 := xs.rdropWhile (· ≠ lf)

theorem terminated_wholeLines (xs : List UInt8) : Terminated (wholeLines xs) := by
  by_cases h : wholeLines xs = []
  · exact Or.inl h
  · have hlast := List.rdropWhile_last_not (· ≠ lf) xs h
    right
    rw [List.getLast?_eq_some_getLast h, Option.some.injEq]
    simpa [wholeLines] using hlast

/-- What follows the last line feed. -/
theorem exists_unfinished (xs : List UInt8) :
    ∃ tail, lf ∉ tail ∧ xs = wholeLines xs ++ tail := by
  refine ⟨xs.rtakeWhile (· ≠ lf), ?_, List.rdropWhile_append_rtakeWhile.symm⟩
  intro h
  simpa using List.mem_rtakeWhile_imp h

theorem wholeLines_append {xs : List UInt8} (h : Terminated xs) (ys : List UInt8) :
    wholeLines (xs ++ ys) = xs ++ wholeLines ys := by
  have hself : xs.reverse.dropWhile (· ≠ lf) = xs.reverse := by
    rcases h with rfl | h
    · rfl
    · rw [← List.head?_reverse] at h
      cases hx : xs.reverse with
      | nil => rfl
      | cons b bs =>
          rw [hx, List.head?_cons, Option.some.injEq] at h
          simp [h]
  rw [wholeLines, wholeLines, List.rdropWhile, List.rdropWhile, List.reverse_append,
    List.dropWhile_append, hself]
  split_ifs with hempty
  · rw [List.isEmpty_iff] at hempty
    rw [hempty, List.reverse_reverse, List.reverse_nil, List.append_nil]
  · rw [List.reverse_append, List.reverse_reverse]

theorem wholeLines_of_terminated {xs : List UInt8} (h : Terminated xs) : wholeLines xs = xs := by
  simpa [wholeLines] using wholeLines_append h []

/-- The complete lines of a stream are the lines up to its last line feed. -/
theorem isCompleteLine_iff (xs : List UInt8) (l : Line) :
    IsCompleteLine xs l ↔ l ∈ rawLines (wholeLines xs) := by
  rw [mem_rawLines_iff (terminated_wholeLines xs)]
  constructor
  · rintro ⟨pre, post, heq, hl, hpre⟩
    have hline : Terminated (pre ++ l ++ [lf]) := Or.inr (by simp)
    refine ⟨pre, wholeLines post, ?_, hl, hpre⟩
    have hsplit : xs = (pre ++ l ++ [lf]) ++ post := by simpa using heq
    rw [hsplit, wholeLines_append hline]
    simp
  · rintro ⟨pre, post, heq, hl, hpre⟩
    obtain ⟨tail, -, htail⟩ := exists_unfinished xs
    refine ⟨pre, post ++ tail, ?_, hl, hpre⟩
    rw [htail, heq]
    simp

theorem Terminated.drop {xs : List UInt8} (h : Terminated xs) (n : ℕ) :
    Terminated (xs.drop n) := by
  by_cases hn : xs.length ≤ n
  · exact Or.inl (List.drop_eq_nil_of_le hn)
  · rcases h with rfl | h
    · simp at hn
    · exact Or.inr (by rw [List.getLast?_drop, if_neg hn, h])

/-- A scan from a place within a prefix of whole lines hands out every complete
line behind the prefix. -/
theorem mem_rawLines_drop {xs ys : List UInt8} (h : Terminated xs) {n : ℕ} (hn : n ≤ xs.length)
    {l : Line} (hl : l ∈ rawLines (wholeLines ys)) : l ∈ rawLines ((xs ++ ys).drop n) := by
  obtain ⟨tail, -, htail⟩ := exists_unfinished ys
  rw [List.drop_append_of_le_length hn, rawLines_append (h.drop n)]
  refine List.mem_append_right _ ?_
  rw [htail, rawLines_append (terminated_wholeLines ys)]
  exact List.mem_append_left _ hl

/-- In a terminated stream each line takes one byte more than it has. -/
theorem sum_rawLines_length {xs : List UInt8} (h : Terminated xs) :
    ((rawLines xs).map fun l => l.length + 1).sum = xs.length := by
  obtain ⟨ls, hls, rfl⟩ := exists_joinLines h
  have hself := rawLines_joinLines_append ls [] hls
  simp only [List.append_nil, rawLines_nil] at hself
  rw [hself]
  clear h hls hself
  induction ls with
  | nil => rfl
  | cons l ls ih =>
      simp only [List.map_cons, List.sum_cons, ih, joinLines_cons, List.length_append,
        List.length_cons]
      omega

theorem dropCR_eq_self {l : Line} (h : l.getLast? ≠ some cr) : dropCR l = l := by
  simp [dropCR, h]

end GoSite.LineScanner
