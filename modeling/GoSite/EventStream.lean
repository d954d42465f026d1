import Mathlib

/-!
# Event streams

The reader of a `text/event-stream` body. A line ends at a line feed, a carriage
return or both; a line that is not ended is never read. Lines are gathered into
an event until a blank one dispatches it. A text is sent as an event by putting
`data: ` before each of its lines, and is read back as it was.
-/
namespace GoSite.EventStream

/-- A text of code points. -/
abbrev Text := List Char

/-- Every carriage return before a line feed is dropped. -/
@[grind] def crlfToLf : Text → Text
  | [] => []
  | [c] => [c]
  | c :: d :: cs =>
      if c = '\r' ∧ d = '\n' then '\n' :: crlfToLf cs else c :: crlfToLf (d :: cs)

/-- Each of the three line ends becomes a line feed. -/
def normalizeBreaks (s : Text) : Text :=
  (crlfToLf s).map fun c => if c = '\r' then '\n' else c

/-- The lines of a body that are ended. -/
def streamLines (body : Text) : List Text := ((normalizeBreaks body).splitOn '\n').dropLast

/-- The text whose lines are the given ones, each of them ended. -/
def unlines (ls : List Text) : Text := ls.flatMap fun l => l ++ ['\n']

/-- No line end lies in the line. -/
def BreakFree (l : Text) : Prop := '\n' ∉ l ∧ '\r' ∉ l

instance (l : Text) : Decidable (BreakFree l) := inferInstanceAs (Decidable (_ ∧ _))

/-- What is dispatched to a listener. -/
structure Event where
  type : Text
  data : Text
  deriving Repr, DecidableEq

/-- The data buffer and the event type buffer. -/
structure EventBuffer where
  data : Text
  type : Text
  deriving Repr, DecidableEq

def EventBuffer.clean : EventBuffer := ⟨[], []⟩

/-- The field name and the value of a line that is neither blank nor a comment. -/
def fieldOf (line : Text) : Text × Text :=
  let name := line.takeWhile (· ≠ ':')
  match line.dropWhile (· ≠ ':') with
  | _ :: ' ' :: value => (name, value)
  | _ :: value => (name, value)
  | [] => (name, [])

/-- The two fields a listener of this stream sees anything of. -/
def processField (b : EventBuffer) (field : Text × Text) : EventBuffer :=
  if field.1 = "event".toList then { b with type := field.2 }
  else if field.1 = "data".toList then { b with data := b.data ++ field.2 ++ ['\n'] }
  else b

/-- Dispatch of an event. One without data is forgotten. -/
def EventBuffer.dispatch (b : EventBuffer) : Option Event :=
  if b.data = [] then none
  else some ⟨if b.type = [] then "message".toList else b.type, b.data.dropLast⟩

/-- The events of the lines, from a buffer on. -/
@[grind] def parseLines : EventBuffer → List Text → List Event
  | _, [] => []
  | b, line :: ls =>
      if line = [] then b.dispatch.toList ++ parseLines .clean ls
      else if line.head? = some ':' then parseLines b ls
      else parseLines (processField b (fieldOf line)) ls

/-- The events of a body. -/
def parseEvents (body : Text) : List Event := parseLines .clean (streamLines body)

theorem crlfToLf_cons_of_ne {c : Char} (h : c ≠ '\r') (s : Text) :
    crlfToLf (c :: s) = c :: crlfToLf s := by
  cases s with
  | nil => rfl
  | cons d s => simp [crlfToLf, h]

@[simp] theorem normalizeBreaks_nil : normalizeBreaks [] = [] := rfl

theorem normalizeBreaks_cons_of_ne {c : Char} (h : c ≠ '\r') (s : Text) :
    normalizeBreaks (c :: s) = c :: normalizeBreaks s := by
  simp [normalizeBreaks, crlfToLf_cons_of_ne h, h]

/-- Behind a line feed the line ends are read afresh. -/
theorem crlfToLf_append_lf (a b : Text) :
    crlfToLf (a ++ '\n' :: b) = crlfToLf (a ++ ['\n']) ++ crlfToLf b := by
  induction a using crlfToLf.induct with
  | case1 => simp [crlfToLf_cons_of_ne, crlfToLf]
  | case2 c =>
      by_cases hc : c = '\r'
      · simp [crlfToLf, hc]
      · simp [crlfToLf_cons_of_ne hc, crlfToLf_cons_of_ne, crlfToLf]
  | case3 c d cs h ih => simpa [crlfToLf, h] using ih
  | case4 c d cs h ih =>
      simp only [List.cons_append, crlfToLf, if_neg h] at ih ⊢
      rw [ih]

theorem normalizeBreaks_append_lf (a b : Text) :
    normalizeBreaks (a ++ '\n' :: b) = normalizeBreaks (a ++ ['\n']) ++ normalizeBreaks b := by
  rw [normalizeBreaks, crlfToLf_append_lf, List.map_append]
  rfl

/-- A line feed at the end stays there. -/
theorem exists_normalizeBreaks_lf (a : Text) :
    ∃ t, normalizeBreaks (a ++ ['\n']) = t ++ ['\n'] := by
  have hlast : ∃ t, crlfToLf (a ++ ['\n']) = t ++ ['\n'] := by
    induction a using crlfToLf.induct with
    | case1 => exact ⟨[], rfl⟩
    | case2 c =>
        by_cases hc : c = '\r'
        · exact ⟨[], by simp [crlfToLf, hc]⟩
        · exact ⟨[c], by simp [crlfToLf, hc]⟩
    | case3 c d cs h ih =>
        obtain ⟨t, ht⟩ := ih
        exact ⟨'\n' :: t, by simp [crlfToLf, h, ht]⟩
    | case4 c d cs h ih =>
        obtain ⟨t, ht⟩ := ih
        refine ⟨c :: t, ?_⟩
        simp only [List.cons_append, crlfToLf, if_neg h] at ht ⊢
        rw [ht]
  obtain ⟨t, ht⟩ := hlast
  exact ⟨t.map fun c => if c = '\r' then '\n' else c, by simp [normalizeBreaks, ht]⟩

theorem cr_not_mem_normalizeBreaks (s : Text) : '\r' ∉ normalizeBreaks s := by
  intro h
  obtain ⟨c, -, hc⟩ := List.mem_map.mp h
  split_ifs at hc with hcr
  · cases hc
  · exact hcr hc

theorem crlfToLf_eq_self {s : Text} (h : '\r' ∉ s) : crlfToLf s = s := by
  induction s with
  | nil => rfl
  | cons c s ih =>
      have hc : c ≠ '\r' := fun heq => h (by simp [heq])
      rw [crlfToLf_cons_of_ne hc, ih (fun hs => h (List.mem_cons_of_mem c hs))]

theorem normalizeBreaks_eq_self {s : Text} (h : '\r' ∉ s) : normalizeBreaks s = s := by
  induction s with
  | nil => rfl
  | cons c s ih =>
      have hc : c ≠ '\r' := fun heq => h (by simp [heq])
      rw [normalizeBreaks_cons_of_ne hc, ih (fun hs => h (List.mem_cons_of_mem c hs))]

/-- A beginning without line ends is not touched. -/
theorem prefix_of_prefix_normalizeBreaks {pre s : Text} (hpre : BreakFree pre)
    (h : pre <+: normalizeBreaks s) : pre <+: s := by
  induction pre generalizing s with
  | nil => exact List.nil_prefix
  | cons p pre ih =>
      have hlf : p ≠ '\n' := fun heq => hpre.1 (by simp [heq])
      have hrest : BreakFree pre :=
        ⟨fun hm => hpre.1 (List.mem_cons_of_mem p hm), fun hm => hpre.2 (List.mem_cons_of_mem p hm)⟩
      cases s with
      | nil => simp at h
      | cons c s =>
          by_cases hc : c = '\r'
          · -- what stands for a carriage return is a line feed
            have hhead : (normalizeBreaks (c :: s)).head? = some '\n' := by
              cases s with
              | nil => simp [normalizeBreaks, crlfToLf, hc]
              | cons d s =>
                  by_cases hd : d = '\n' <;> simp [normalizeBreaks, crlfToLf, hc, hd]
            obtain ⟨t, ht⟩ := h
            rw [← ht] at hhead
            exact absurd (by simpa using hhead) hlf
          · rw [normalizeBreaks_cons_of_ne hc, List.cons_prefix_cons] at h
            exact List.cons_prefix_cons.mpr ⟨h.1, ih hrest h.2⟩

@[simp] theorem unlines_nil : unlines [] = [] := rfl

@[simp] theorem unlines_cons (l : Text) (ls : List Text) :
    unlines (l :: ls) = l ++ '\n' :: unlines ls := by
  simp [unlines]

@[simp] theorem unlines_append (ls ms : List Text) :
    unlines (ls ++ ms) = unlines ls ++ unlines ms := by
  simp [unlines]

/-- Lines that were put together are taken apart again. -/
theorem streamLines_unlines {ls : List Text} (h : ∀ l ∈ ls, BreakFree l) :
    streamLines (unlines ls) = ls := by
  have hcr : '\r' ∉ unlines ls := by
    intro hm
    obtain ⟨l, hl, hm⟩ := List.mem_flatMap.mp hm
    have hne : '\r' ∈ l := by simpa using hm
    exact (h l hl).2 hne
  rw [streamLines, normalizeBreaks_eq_self hcr]
  clear hcr
  induction ls with
  | nil => rfl
  | cons l ls ih =>
      have hl := (h l List.mem_cons_self).1
      have hrest := ih (fun m hm => h m (List.mem_cons_of_mem l hm))
      rw [unlines_cons, List.splitOn_append_cons_self_of_not_mem hl,
        List.dropLast_cons_of_ne_nil (List.splitOn_ne_nil _ _), hrest]

/-- The lines of an event that carries the given lines of data. -/
def dataLines (ls : List Text) : List Text := ls.map ("data: ".toList ++ ·) ++ [[]]

theorem fieldOf_append {name : Text} (h : ':' ∉ name) (value : Text) :
    fieldOf (name ++ ':' :: ' ' :: value) = (name, value) := by
  have hname : ∀ c ∈ name, (decide (c ≠ ':')) = true := by
    intro c hc
    exact decide_eq_true (fun heq => h (heq ▸ hc))
  have htake : (name ++ ':' :: ' ' :: value).takeWhile (· ≠ ':') = name := by
    rw [List.takeWhile_append_of_pos hname]
    simp
  have hdrop : (name ++ ':' :: ' ' :: value).dropWhile (· ≠ ':') = ':' :: ' ' :: value := by
    rw [List.dropWhile_append_of_pos hname]
    simp
  rw [fieldOf, htake, hdrop]
  rfl

theorem parseLines_data (b : EventBuffer) (value : Text) (rest : List Text) :
    parseLines b (("data: ".toList ++ value) :: rest) =
      parseLines { b with data := b.data ++ value ++ ['\n'] } rest := by
  have hfield : fieldOf ("data: ".toList ++ value) = ("data".toList, value) :=
    fieldOf_append (by decide : ':' ∉ "data".toList) value
  rw [parseLines, if_neg (by simp), if_neg (by simp), hfield]
  rfl

theorem parseLines_type (b : EventBuffer) (value : Text) (rest : List Text) :
    parseLines b (("event: ".toList ++ value) :: rest) =
      parseLines { b with type := value } rest := by
  have hfield : fieldOf ("event: ".toList ++ value) = ("event".toList, value) :=
    fieldOf_append (by decide : ':' ∉ "event".toList) value
  rw [parseLines, if_neg (by simp), if_neg (by simp), hfield]
  rfl

/-- The data lines of an event are gathered with line feeds between them. -/
theorem parseLines_dataLines (b : EventBuffer) (ls rest : List Text) :
    parseLines b (dataLines ls ++ rest) =
      ({ b with data := b.data ++ unlines ls } : EventBuffer).dispatch.toList ++
        parseLines .clean rest := by
  induction ls generalizing b with
  | nil => simp [dataLines, parseLines]
  | cons l ls ih =>
      have hcons : dataLines (l :: ls) ++ rest =
          ("data: ".toList ++ l) :: (dataLines ls ++ rest) := rfl
      rw [hcons, parseLines_data, ih]
      simp

theorem unlines_eq (ls : List Text) (h : ls ≠ []) :
    unlines ls = ['\n'].intercalate ls ++ ['\n'] := by
  induction ls with
  | nil => exact absurd rfl h
  | cons l ls ih =>
      cases ls with
      | nil => simp
      | cons m ls =>
          rw [unlines_cons, ih (List.cons_ne_nil m ls)]
          simp [List.intercalate]

/-- A text sent line by line arrives as it was. -/
theorem parseLines_text (text : Text) (rest : List Text) :
    parseLines .clean (dataLines (text.splitOn '\n') ++ rest) =
      ⟨"message".toList, text⟩ :: parseLines .clean rest := by
  rw [parseLines_dataLines, unlines_eq _ (List.splitOn_ne_nil _ _), List.intercalate_splitOn]
  simp [EventBuffer.dispatch, EventBuffer.clean]

end GoSite.EventStream
